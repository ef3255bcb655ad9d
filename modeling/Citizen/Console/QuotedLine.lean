import Citizen.Console.CommandSplit

/-! A line of quoted words, as `ExecuteBuffer` cuts it and `Tokenize` reads it. -/
namespace Citizen.Console
open BitField (Byte)
open Quoting

section Reading
variable {json : WideJson} {before : Option Char} {rest : List Char}

theorem peekEscape {w : List Char} (some_ : w ≠ []) : Place.peek (escape quote backslash w ++ rest) ≠ quote := by
  cases w with
  | nil => exact absurd rfl some_
  | cons c w =>
    by_cases same : c = quote
    · rw [same,escapeQuote]
      change backslash ≠ quote
      decide
    · rw [escapeOther same]
      exact same

theorem quotedClose {after : List Char} : quoted false (quote :: after) = ([],after) := if_pos ⟨rfl,rfl⟩

theorem quotedEscaped {t : List Char} : quoted true (quote :: t) = (quote :: (quoted false t).1,(quoted false t).2) := by
  rw [quoted,if_neg (fun both => absurd both.2 (by decide)),if_neg (fun both => absurd both.1 (by decide))]

theorem quotedEscape {w after : List Char} (ends : w.getLast? ≠ some backslash) :
    quoted false (escape quote backslash w ++ quote :: after) = (w,after) := by
  induction w with
  | nil => exact quotedClose
  | cons c w ih =>
    have later : quoted false (escape quote backslash w ++ quote :: after) = (w,after) := by
      cases w with
      | nil => exact quotedClose
      | cons d w => exact ih (by rwa [List.getLast?_cons_cons] at ends)
    by_cases same : c = quote
    · subst same
      rw [escapeQuote,List.cons_append,List.cons_append,quoted,if_neg (fun both => absurd both.1 (by decide))]
      rw [if_pos ⟨rfl,rfl⟩,quotedEscaped,later]
    · rw [escapeOther same,List.cons_append,quoted,if_neg (fun both => same both.1),if_neg ?_,later]
      rintro ⟨slash,next⟩
      cases w with
      | nil => exact ends (by rw [slash]; rfl)
      | cons d w => exact peekEscape (List.cons_ne_nil d w) next

section
variable {p : Place} {b : Option Char}

theorem skipEnd (ended : Place.skipSpace p.before p.rest = ⟨b,[]⟩) : p.skip = none := by
  rw [Place.skip]
  split
  · rfl
  · rename_i started
    cases ended.symm.trans started
  · rename_i started
    cases ended.symm.trans started

variable {c : Char} {tail : List Char}

theorem skipFirst (stops : Place.skipSpace p.before p.rest = ⟨none,c :: tail⟩) : p.skip = some ⟨none,c :: tail⟩ := by
  rw [Place.skip]
  split
  · rename_i ended
    cases stops.symm.trans ended
  · rename_i started
    cases stops.symm.trans started
    rfl
  · rename_i started
    cases stops.symm.trans started

theorem skipLater {b c : Char}
    (stops : Place.skipSpace p.before p.rest = ⟨some b,c :: tail⟩) :
    p.skip = if (c = '/' ∧ Place.peek tail = '/') ∨ c = '#' then none
      else if c = '/' ∧ Place.peek tail = '*' then (Place.next (Place.next ⟨some '/',tail⟩)).skip
      else some ⟨some b,c :: tail⟩ := by
  rw [Place.skip]
  split
  · rename_i ended
    cases stops.symm.trans ended
  · rename_i started
    cases stops.symm.trans started
  · rename_i started
    cases stops.symm.trans started
    refine if_congr Iff.rfl rfl ?_
    by_cases opener : c = '/' ∧ Place.peek tail = '*'
    · rw [if_pos opener,if_pos opener]
      obtain ⟨rfl,star⟩ := opener
      cases tail with
      | nil => exact absurd star (by decide)
      | cons d tail =>
        have same : d = '*' := star
        subst same
        have stopped : Place.skipComment (some b) ('/' :: '*' :: tail) = ⟨some '/','*' :: tail⟩ := by
          rw [Place.skipComment,if_pos ⟨by decide,(by decide : '*' ≠ '/')⟩,Place.skipComment,
            if_neg (fun both => both.1 rfl)]
        split
        · rename_i comment
          cases stopped.symm.trans comment
        · rename_i comment
          cases stopped.symm.trans comment
          rfl
    · rw [if_neg opener,if_neg opener]

theorem skipWord (stops : Place.skipSpace p.before p.rest = ⟨b,c :: tail⟩) (plain : c ≠ '/' ∧ c ≠ '#') :
    p.skip = some ⟨b,c :: tail⟩ := by
  cases b with
  | none => exact skipFirst stops
  | some b =>
    rw [skipLater stops,if_neg (not_or.mpr ⟨fun both => plain.1 both.1,plain.2⟩),if_neg (fun both => plain.1 both.1)]

theorem argumentsNone (ended : p.skip = none) : arguments json p = [] := by
  rw [arguments]
  split
  · rfl
  · rfl
  · rename_i found
    cases ended.symm.trans found

theorem argumentsQuoted (found : p.skip = some ⟨b,quote :: tail⟩) :
    arguments json p = (quoted false tail).1 :: arguments json ⟨some quote,(quoted false tail).2⟩ := by
  rw [arguments]
  split
  · rename_i ended
    cases found.symm.trans ended
  · rename_i ended
    cases found.symm.trans ended
  · rename_i found'
    cases found.symm.trans found'
    split
    · rename_i value
      cases value
    · rw [if_pos rfl]

theorem argumentsValue {n : Nat}
    (found : p.skip = some ⟨b,c :: tail⟩) (value : jsonValue json ['{','['] c tail = some n) : arguments json p =
      (c :: tail).take n :: arguments json ⟨((c :: tail).take n).getLast?,(c :: tail).drop n⟩ := by
  rw [arguments]
  split
  · rename_i ended
    cases found.symm.trans ended
  · rename_i ended
    cases found.symm.trans ended
  · rename_i found'
    cases found.symm.trans found'
    split
    · rename_i value'
      cases value.symm.trans value'
      rfl
    · rename_i nothing
      cases value.symm.trans nothing

theorem argumentsPlain
    (found : p.skip = some ⟨b,c :: tail⟩) (value : jsonValue json ['{','['] c tail = none) (plain : c ≠ quote) :
    arguments json p = match unquoted b (c :: tail) with
      | none => []
      | some (arg,place) => (if arg = [] then [] else [arg]) ++ arguments json place := by
  rw [arguments]
  split
  · rename_i ended
    cases found.symm.trans ended
  · rename_i ended
    cases found.symm.trans ended
  · rename_i found'
    cases found.symm.trans found'
    split
    · rename_i value'
      cases value.symm.trans value'
    · rw [if_neg plain]
      split
      · rename_i comment
        rw [comment]
      · rename_i read
        rw [read]

end

theorem argumentsUnquoted {p place : Place} {b : Option Char} {c : Char} {tail arg : List Char}
    (found : p.skip = some ⟨b,c :: tail⟩) (plain : c ≠ quote ∧ c ∉ ['{','['])
    (read : unquoted b (c :: tail) = some (arg,place)) :
    arguments json p = (if arg = [] then [] else [arg]) ++ arguments json place := by
  rw [argumentsPlain found (if_neg plain.2) plain.1,read]

theorem argumentsEnd : arguments json ⟨before,[]⟩ = [] := argumentsNone (skipEnd rfl)

theorem argumentsQuote : arguments json ⟨before,quote :: rest⟩ =
    (quoted false rest).1 :: arguments json ⟨some quote,(quoted false rest).2⟩ :=
  argumentsQuoted (skipWord (if_neg (by decide)) (by decide))

theorem argumentsSpace : arguments json ⟨before,' ' :: quote :: rest⟩ = arguments json ⟨some ' ',quote :: rest⟩ := by
  have stops : Place.skipSpace before (' ' :: quote :: rest) = ⟨some ' ',quote :: rest⟩ := by
    rw [Place.skipSpace,if_pos (by decide),Place.skipSpace,if_neg (by decide)]
  have found : Place.skip ⟨before,' ' :: quote :: rest⟩ = some ⟨some ' ',quote :: rest⟩ :=
    skipWord stops (by decide)
  exact (argumentsQuoted found).trans argumentsQuote.symm

theorem argumentsLine {ws : List (List Char)} (ends : ∀ w ∈ ws, w.getLast? ≠ some backslash) :
    arguments json ⟨before,quoteLine quote backslash ' ' ws⟩ = ws := by
  induction ws generalizing before with
  | nil => exact argumentsEnd
  | cons w ws ih =>
    have here := ends w List.mem_cons_self
    cases ws with
    | nil =>
      unfold quoteLine quoteWord
      rw [argumentsQuote,quotedEscape here,argumentsEnd]
    | cons v ws =>
      have next := @ih (some ' ') (fun w mem => ends w (List.mem_cons_of_mem _ mem))
      obtain ⟨tail,starts⟩ := @quoteLineStarts _ _ quote backslash ' ' v ws
      rw [starts] at next
      rw [quoteLine,starts,quoteWord,List.cons_append,List.append_assoc,List.cons_append,List.nil_append]
      rw [argumentsQuote,quotedEscape here,argumentsSpace,next]

end Reading

def Encoded (t : Text) : Prop := ∃ cs, t = utf8 cs

theorem encodedCut {front rest : Text} {a : Char} (low : a.toNat < 128) (whole : Encoded (front ++ byte a :: rest)) :
    Encoded front ∧ Encoded rest := by
  obtain ⟨cs,line⟩ := whole
  obtain ⟨before,after,_,first,last⟩ := utf8Cut low line.symm
  exact ⟨⟨before,first⟩,⟨after,last⟩⟩

abbrev quoteBytes := quoteWord (byte quote) (byte backslash)

abbrev lineBytes := quoteLine (byte quote) (byte backslash) (byte ' ')

theorem utf8Escape (cs : List Char) :
    utf8 (escape quote backslash cs) = escape (byte quote) (byte backslash) (utf8 cs) := by
  induction cs with
  | nil => rfl
  | cons c cs ih =>
    by_cases same : c = quote
    · subst same
      rw [escapeQuote,utf8Cons,utf8Cons,utf8Cons,utf8Ascii (by decide),utf8Ascii (by decide),ih]
      exact (escapeQuote _).symm
    · have plain : byte quote ∉ utf8Char c := fun mem => same ((asciiByte (by decide)).mp mem)
      rw [escapeOther same,utf8Cons,utf8Cons,escapeAppend,ih,escapePlain plain]

theorem utf8Quoted (cs : List Char) : utf8 (quoteWord quote backslash cs) = quoteBytes (utf8 cs) := by
  unfold quoteBytes quoteWord
  rw [utf8Cons,utf8Append,utf8Escape,utf8Cons,utf8Nil,utf8Ascii (by decide)]
  rfl

theorem utf8Line (ws : List (List Char)) : utf8 (quoteLine quote backslash ' ' ws) = lineBytes (ws.map utf8) := by
  induction ws with
  | nil => rfl
  | cons w ws ih =>
    cases ws with
    | nil => exact utf8Quoted w
    | cons v ws =>
      unfold quoteLine
      rw [utf8Append,utf8Quoted,utf8Cons,ih,utf8Ascii (by decide)]
      rfl

theorem encodedEscape {w : Text} (whole : Encoded (escape (byte quote) (byte backslash) w)) : Encoded w := by
  induction length : w.length using Nat.strong_induction_on generalizing w with
  | _ size ih =>
    by_cases inside : byte quote ∈ w
    · obtain ⟨front,rest,rfl,plain⟩ := List.eq_append_cons_of_mem inside
      rw [escapeAppend,escapeQuote,escapePlain plain] at whole
      obtain ⟨⟨cs,first⟩,later⟩ := encodedCut (by decide) whole
      obtain ⟨_,last⟩ := @encodedCut [] _ quote (by decide) later
      have shorter : rest.length < size := by
        rw [← length,List.length_append]
        exact Nat.lt_add_left _ (Nat.lt_succ_self _)
      obtain ⟨ds,tail⟩ := ih rest.length shorter last rfl
      refine ⟨cs ++ quote :: ds,?_⟩
      rw [utf8Append,utf8Cons,utf8Ascii (by decide),first,tail]
      rfl
    · rwa [escapePlain inside] at whole

theorem encodedQuoted {w rest : Text} (whole : Encoded (quoteBytes w ++ rest)) : Encoded w ∧ Encoded rest := by
  unfold quoteBytes quoteWord at whole
  rw [List.cons_append,List.append_assoc] at whole
  obtain ⟨_,later⟩ := @encodedCut [] _ quote (by decide) whole
  obtain ⟨word,last⟩ := encodedCut (by decide) later
  exact ⟨encodedEscape word,last⟩

variable {ws : List Text}

theorem encodedLine (whole : Encoded (lineBytes ws)) : ∀ w ∈ ws, Encoded w := by
  induction ws with
  | nil => exact fun w mem => absurd mem List.not_mem_nil
  | cons w ws ih =>
    cases ws with
    | nil =>
      rintro v (_ | ⟨_,⟨⟩⟩)
      exact (@encodedQuoted w [] (by rwa [List.append_nil])).1
    | cons next ws =>
      obtain ⟨here,later⟩ := encodedQuoted whole
      obtain ⟨_,rest⟩ := @encodedCut [] _ ' ' (by decide) later
      intro v mem
      rcases List.mem_cons.mp mem with rfl | mem
      · exact here
      · exact ih rest v mem

theorem encodedAll (each : ∀ w ∈ ws, Encoded w) : ∃ cs : List (List Char), ws = cs.map utf8 := by
  induction ws with
  | nil => exact ⟨[],rfl⟩
  | cons w ws ih =>
    obtain ⟨c,rfl⟩ := each w List.mem_cons_self
    obtain ⟨cs,rfl⟩ := ih (fun v mem => each v (List.mem_cons_of_mem _ mem))
    exact ⟨c :: cs,rfl⟩

theorem utf8Ends {cs : List Char} (ends : (utf8 cs).getLast? ≠ some (byte backslash)) :
    cs.getLast? ≠ some backslash := by
  intro last
  obtain ⟨ds,rfl⟩ := List.getLast?_eq_some_iff.mp last
  refine ends ?_
  rw [utf8Append,utf8Cons,utf8Ascii (by decide)]
  exact List.getLast?_concat

theorem tokenizeUtf8 (json : WideJson) (line : List Char) :
    Tokenize json (utf8 line) = (arguments json ⟨none,line⟩).map utf8 := by
  unfold Tokenize
  rw [fromUtf8Iff.mpr rfl]

theorem quotedWordsRead (json : WideJson) {words : List (List Char)}
    (ends : ∀ w ∈ words, w.getLast? ≠ some backslash) :
    Tokenize json (utf8 (quoteLine quote backslash ' ' words)) = words.map utf8 := by
  rw [tokenizeUtf8,argumentsLine ends]

def noJson {α : Type} {closing : List α} : JsonAccept α closing := ⟨fun _ => none,nofun⟩

theorem quotedOddities :
    Tokenize noJson (utf8 (quoteLine quote backslash ' ' [[],"/* # //".toList,"\x7b[".toList,[quote,'é',quote]])) =
      [[],"/* # //".toList,"\x7b[".toList,[quote,'é',quote]].map utf8 :=
  quotedWordsRead noJson (by decide)

theorem tokenizeLine (wide : WideJson) {ws : List Text} (some_ : ws ≠ [])
    (ends : ∀ w ∈ ws, w.getLast? ≠ some (byte backslash)) :
    Tokenize wide (lineBytes ws) = ws ↔ ∀ w ∈ ws, Encoded w := by
  constructor
  · intro same
    refine encodedLine ?_
    unfold Tokenize at same
    split at same
    · exact absurd same.symm some_
    · rename_i line found
      exact ⟨line,fromUtf8Iff.mp found⟩
  · intro each
    obtain ⟨cs,rfl⟩ := encodedAll each
    rw [← utf8Line,tokenizeUtf8,argumentsLine (fun w mem => utf8Ends (ends _ (List.mem_map_of_mem mem)))]

structure Word where
  bytes : Text
  oneLine : newline ∉ bytes ∧ carriageReturn ∉ bytes
  ends : bytes.getLast? ≠ some (byte backslash)

theorem lineOnLine (ws : List Word) :
    newline ∉ lineBytes (ws.map Word.bytes) ∧ carriageReturn ∉ lineBytes (ws.map Word.bytes) := by
  have outside {c : Byte} (each : ∀ w : Word, c ∉ w.bytes) (other : c ≠ byte quote ∧ c ≠ byte backslash ∧ c ≠ byte ' ') :
      c ∉ lineBytes (ws.map Word.bytes) := by
    intro mem
    rcases memQuoteLine mem with ⟨t,among,inside⟩ | same | same | same
    · obtain ⟨w,_,rfl⟩ := List.mem_map.mp among
      exact each w inside
    · exact other.1 same
    · exact other.2.1 same
    · exact other.2.2 same
  exact ⟨outside (fun w => w.oneLine.1) (by decide),outside (fun w => w.oneLine.2) (by decide)⟩

theorem quotedAwake {rest : Text} (i : Nat) : isWait ((byte quote :: rest).take i) = false := by
  cases i with
  | zero => rfl
  | succ i =>
    rw [List.take_succ_cons]
    unfold isWait
    rw [List.dropWhile_cons_of_neg (by decide)]
    rfl

theorem lineAwake (w : Text) (ws : List Text) (i : Nat) : isWait ((lineBytes (w :: ws) ++ [newline]).take i) = false := by
  obtain ⟨tail,starts⟩ := @quoteLineStarts _ _ (byte quote) (byte backslash) (byte ' ') w ws
  unfold lineBytes
  rw [starts]
  exact quotedAwake i

theorem brokenInside {json : NarrowJson} {w rest : Text} (plain : byte quote ∉ w) :
    Broken json true (w ++ rest) ↔ Broken json true rest := by
  induction w with
  | nil => exact Iff.rfl
  | cons b w ih =>
    have other : b ≠ byte quote := fun same => plain (same ▸ List.mem_cons_self)
    have quoted_ (p : Prop) : true = false → p := fun outside => Bool.noConfusion outside
    rw [List.cons_append,brokenOther other (quoted_ _) (quoted_ _)]
    exact ih (fun mem => plain (List.mem_cons_of_mem _ mem))

theorem quotelessUnbroken {json : NarrowJson} (plain : ∀ w ∈ ws, byte quote ∉ w) :
    ¬Broken json false (lineBytes ws ++ [newline]) := by
  induction ws with
  | nil => exact notBrokenEnd
  | cons w ws ih =>
    have here := plain w List.mem_cons_self
    have word (rest : Text) : Broken json false (quoteBytes w ++ rest) ↔ Broken json false rest := by
      unfold quoteBytes quoteWord
      rw [escapePlain here,List.cons_append,brokenQuote,List.append_assoc]
      exact (brokenInside here).trans brokenQuote
    have later := ih (fun v mem => plain v (List.mem_cons_of_mem _ mem))
    cases ws with
    | nil => exact fun broken => notBrokenEnd ((word _).mp broken)
    | cons v ws =>
      intro broken
      unfold lineBytes quoteLine at broken
      rw [List.append_assoc,word,List.cons_append] at broken
      exact later ((brokenOther (by decide) (fun _ => by decide) (fun _ => jsonOutside (by decide))).mp broken)

theorem quotedLineExecuted (json : NarrowJson) (wide : WideJson) (name : Word) (args : List Word) (s : Context)
    (now : Nat) (empty : s.m_commandBuffer = []) (idle : s.waitUntil = 0 ∨ s.waitUntil < now) :
    let words := (name :: args).map Word.bytes
    let line := lineBytes words ++ [newline]
    (∃ command, ((s.AddToBuffer line).ExecuteBuffer json now).1 = [command] ∧ Tokenize wide command = words) ↔
      ¬Broken json false line ∧ ∀ w ∈ words, Encoded w := by
  intro words line
  have executed : ((s.AddToBuffer line).ExecuteBuffer json now).1 = (takeCommands json line).1 := by
    have awake : ¬(s.waitUntil ≠ 0 ∧ now ≤ s.waitUntil) := by omega
    unfold Context.ExecuteBuffer Context.AddToBuffer
    rw [empty,if_neg awake]
    rfl
  have read : Tokenize wide (lineBytes words) = words ↔ ∀ w ∈ words, Encoded w := by
    refine tokenizeLine wide (List.cons_ne_nil _ _) (fun w mem => ?_)
    obtain ⟨v,_,rfl⟩ := List.mem_map.mp mem
    exact v.ends
  have onLine := lineOnLine (name :: args)
  rw [executed,← read]
  constructor
  · rintro ⟨command,single,same⟩
    have unbroken : ¬Broken json false line := by
      intro broken
      have many : 2 ≤ (takeCommands json line).1.length := takeBroken onLine broken (lineAwake name.bytes _)
      rw [single,List.length_singleton] at many
      exact Nat.not_succ_le_self 1 many
    have whole := congrArg Prod.fst (takeWhole onLine unbroken)
    cases single.symm.trans whole
    exact ⟨unbroken,same⟩
  · rintro ⟨unbroken,same⟩
    exact ⟨lineBytes words,congrArg Prod.fst (takeWhole onLine unbroken),same⟩

def say : Word := ⟨text "say",by decide,by decide⟩

def hello : Word := ⟨text "hello; {world}",by decide,by decide⟩

theorem helloExecuted : ∃ command,
    (((Context.mk [] 0).AddToBuffer (lineBytes ([say,hello].map Word.bytes) ++ [newline])).ExecuteBuffer noJson 5).1 =
      [command] ∧ Tokenize noJson command = [say,hello].map Word.bytes := by
  refine (quotedLineExecuted noJson noJson say [hello] ⟨[],0⟩ 5 rfl (.inl rfl)).mpr ⟨quotelessUnbroken (by decide),?_⟩
  rintro w (_ | ⟨_,_ | ⟨_,⟨⟩⟩⟩)
  · exact ⟨_,textUtf8 rfl⟩
  · exact ⟨_,textUtf8 rfl⟩

def injected : Word := ⟨byte quote :: text ";quit ",by decide,by decide⟩

theorem injectedBroken : Broken noJson false (lineBytes ([say,injected].map Word.bytes) ++ [newline]) := by
  have onward {inQuote : Bool} {b : Byte} {rest : Text} (other : b ≠ byte quote) (later : Broken noJson inQuote rest) :
      Broken noJson inQuote (b :: rest) := by
    refine .onward other (fun _ => ?_) later
    unfold jsonValue
    split
    · rfl
    · rfl
  have line : lineBytes ([say,injected].map Word.bytes) ++ [newline] =
      byte quote :: byte 's' :: byte 'a' :: byte 'y' :: byte quote :: byte ' ' :: byte quote :: byte backslash ::
        byte quote :: byte ';' :: (text "quit " ++ [byte quote,newline]) := by decide
  rw [line]
  have second : Broken noJson true (byte backslash :: byte quote :: byte ';' :: (text "quit " ++ [byte quote,newline])) :=
    onward (by decide) (.flip (.here _))
  exact .flip (onward (by decide) (onward (by decide) (onward (by decide)
    (.flip (onward (by decide) (.flip second))))))

theorem injectedExecuted : ¬∃ command,
    (((Context.mk [] 0).AddToBuffer (lineBytes ([say,injected].map Word.bytes) ++ [newline])).ExecuteBuffer noJson 5).1 =
      [command] ∧ Tokenize noJson command = [say,injected].map Word.bytes := by
  rintro ⟨command,single,_⟩
  have many := takeBroken (lineOnLine [say,injected]) injectedBroken (lineAwake _ _)
  have lengths := congrArg List.length single
  rw [List.length_singleton] at lengths
  exact absurd (many.trans (Nat.le_of_eq lengths)) (by decide)

end Citizen.Console
