import Citizen.Console.QuotedLine
import Citizen.Console.Variables

/-! Executing what `SaveConfiguration` wrote. -/
namespace Citizen.Console
open BitField (Byte)
open Quoting

section Exact
variable {json : WideJson}

def Clean {α : Type} (q e : α) (w : List α) : Prop := q ∉ w ∧ w.getLast? ≠ some e

instance {α : Type} [DecidableEq α] (q e : α) (w : List α) : Decidable (Clean q e w) :=
  inferInstanceAs (Decidable (_ ∧ _))

abbrev CleanChars := Clean quote backslash

abbrev CleanBytes := Clean (byte quote) (byte backslash)

theorem quotedClean {w t : List Char} (clean : CleanChars w) : quoted false (w ++ quote :: t) = (w,t) := by
  have read := @quotedEscape w t clean.2
  rwa [escapePlain clean.1] at read

theorem cleanOfQuoted {w t : List Char} (read : (quoted false (w ++ quote :: t)).1 = w) : CleanChars w := by
  induction w with
  | nil => exact ⟨List.not_mem_nil,nofun⟩
  | cons c w ih =>
    rw [List.cons_append,quoted] at read
    split at read
    · cases read
    · rename_i plain
      have other : c ≠ quote := fun same => plain ⟨same,rfl⟩
      split at read
      · rename_i escaping
        have more : w ++ quote :: t ≠ [] := List.append_ne_nil_of_right_ne_nil w (List.cons_ne_nil quote t)
        obtain ⟨d,rest,starts⟩ := List.exists_cons_of_ne_nil more
        have next := escaping.2
        rw [starts] at next read
        have same : d = quote := next
        subst same
        rw [quotedEscaped] at read
        exact absurd (List.cons.inj read).1.symm other
      · rename_i free
        obtain ⟨clean,ends⟩ := ih (List.cons.inj read).2
        refine ⟨fun mem => (List.mem_cons.mp mem).elim (fun same => other same.symm) clean,fun last => ?_⟩
        cases w with
        | nil =>
          cases last
          exact free ⟨rfl,rfl⟩
        | cons d w => exact ends (by rwa [List.getLast?_cons_cons] at last)

theorem quotedLength (inEscape : Bool) (t : List Char) : (quoted inEscape t).1.length ≤ t.length := by
  induction t generalizing inEscape with
  | nil => exact Nat.le_refl _
  | cons c t ih =>
    unfold quoted
    split
    · exact Nat.zero_le _
    · split
      · exact Nat.le_succ_of_le (ih true)
      · exact Nat.succ_le_succ (ih false)

theorem quotedCut {w t front after : List Char} {c : Char} (other : c ≠ quote)
    (cut : w ++ quote :: t = front ++ c :: after) (read : (quoted false front).1 = w) :
    CleanChars w ∧ ∃ t', front = w ++ quote :: t' ∧ t = t' ++ c :: after := by
  rcases List.append_eq_append_iff.mp cut with ⟨mid,longer,later⟩ | ⟨mid,longer,later⟩
  · cases mid with
    | nil => exact absurd (List.cons.inj later).1.symm other
    | cons d mid =>
      cases later
      rw [longer] at read
      exact ⟨cleanOfQuoted read,mid,longer,rfl⟩
  · have short := quotedLength false front
    rw [read,longer,List.length_append] at short
    cases mid with
    | nil => exact absurd (List.cons.inj later).1 other
    | cons d mid =>
      rw [List.length_cons] at short
      omega

theorem argumentsSeta {rest : List Char} : arguments json ⟨none,'s' :: 'e' :: 't' :: 'a' :: ' ' :: quote :: rest⟩ =
    ['s','e','t','a'] :: arguments json ⟨some ' ',quote :: rest⟩ := by
  have found : Place.skip ⟨none,'s' :: 'e' :: 't' :: 'a' :: ' ' :: quote :: rest⟩ = some ⟨none,_⟩ :=
    skipWord (if_neg (by decide)) (by decide)
  have read : unquoted none ('s' :: 'e' :: 't' :: 'a' :: ' ' :: quote :: rest) =
      some (['s','e','t','a'],⟨some 'a',' ' :: quote :: rest⟩) := by
    have letter (before : Option Char) {c : Char} (rest : List Char) (above : ' ' < c ∧ c ≠ quote)
        (plain : c ≠ '#' ∧ c ≠ '/') :
        unquoted before (c :: rest) = (unquoted (some c) rest).map (fun found => (c :: found.1,found.2)) := by
      rw [unquoted,if_pos above,if_neg (fun both => plain.1 both.2),if_neg (fun all => plain.2 all.2.2.1)]
    rw [letter _ _ (by decide) (by decide),letter _ _ (by decide) (by decide),letter _ _ (by decide) (by decide),
      letter _ _ (by decide) (by decide),unquoted,if_neg (by decide)]
    rfl
  rw [argumentsUnquoted found (by decide) read,argumentsSpace]
  rfl

theorem savedCut {nc vc t front after : List Char} {c : Char} (other : c ≠ quote ∧ c ≠ ' ')
    (cut : nc ++ quote :: ' ' :: quote :: (vc ++ quote :: t) = front ++ c :: after)
    (read : arguments json ⟨some ' ',quote :: front⟩ = [nc,vc]) : CleanChars nc ∧ CleanChars vc := by
  rw [argumentsQuote] at read
  obtain ⟨first,rest⟩ := List.cons.inj read
  obtain ⟨clean,tail,rfl,later⟩ := quotedCut other.1 cut first
  rw [quotedClean clean] at rest
  refine ⟨clean,?_⟩
  cases tail with
  | nil => exact absurd (List.cons.inj later).1.symm other.2
  | cons d tail =>
    obtain ⟨rfl,second⟩ := List.cons.inj later
    cases tail with
    | nil => exact absurd (List.cons.inj second).1.symm other.1
    | cons e tail =>
      obtain ⟨rfl,third⟩ := List.cons.inj second
      rw [argumentsSpace,argumentsQuote] at rest
      exact (quotedCut other.1 third (List.cons.inj rest).1).1

theorem argumentsSaved {nc vc : List Char} (name : CleanChars nc) (value : CleanChars vc) :
    arguments json ⟨some ' ',quote :: (nc ++ quote :: ' ' :: quote :: (vc ++ [quote]))⟩ = [nc,vc] := by
  rw [argumentsQuote,quotedClean name,argumentsSpace,argumentsQuote,quotedClean value,argumentsEnd]

end Exact
section Splitting
variable {json : NarrowJson}

def Stop (c : Byte) : Prop := c = byte ';' ∨ c = carriageReturn ∨ c = newline

theorem scanStops (inQuote : Bool) (t : Text) : ∃ c rest,
    (t ++ [newline]).drop (scan json inQuote (t ++ [newline])) = c :: rest ∧ Stop c := by
  induction same : t.length using Nat.strong_induction_on generalizing inQuote t with
  | _ size ih =>
    cases t with
    | nil => exact ⟨newline,[],by rw [List.nil_append,scanEnd]; rfl,.inr (.inr rfl)⟩
    | cons b t =>
      rw [List.cons_append]
      by_cases value : ∃ n, inQuote = false ∧ jsonValue json [byte '{',byte '['] b (t ++ [newline]) = some n
      · obtain ⟨n,rfl,value⟩ := value
        obtain ⟨some_,inside⟩ := valueInside value
        have cut : (b :: (t ++ [newline])).drop n = (b :: t).drop n ++ [newline] := by
          rw [← List.cons_append,List.drop_append_of_le_length inside]
        rw [scanValue value,← List.drop_drop,cut]
        exact ih (size - n) (by omega) false _ (by rw [List.length_drop,same])
      · have plain (outside : inQuote = false) : jsonValue json [byte '{',byte '['] b (t ++ [newline]) = none := by
          cases found : jsonValue json [byte '{',byte '['] b (t ++ [newline]) with
          | none => rfl
          | some n => exact absurd ⟨n,outside,found⟩ value
        have next (inQuote : Bool) := ih t.length (by rw [← same]; exact Nat.lt_succ_self _) inQuote t rfl
        by_cases flips : b = byte quote
        · subst flips
          rw [scanQuote,Nat.add_comm]
          exact next _
        · by_cases breaks : (inQuote = false ∧ b = byte ';') ∨ b = carriageReturn ∨ b = newline
          · have stops : scan json inQuote (b :: (t ++ [newline])) = 0 := by
              rw [scanOnward plain]
              simp only [if_neg flips]
              rcases breaks with here | here
              · exact if_pos here
              · rw [if_pos here]
                exact ite_self _
            rw [stops]
            exact ⟨b,t ++ [newline],rfl,breaks.imp And.right id⟩
          · obtain ⟨inside,onLine⟩ := not_or.mp breaks
            rw [scanOther flips (fun outside same => inside ⟨outside,same⟩) (not_or.mp onLine) plain,Nat.add_comm]
            exact next _

theorem scanInside {w rest : Text} (plain : byte quote ∉ w) (oneLine : newline ∉ w ∧ carriageReturn ∉ w) :
    scan json true (w ++ rest) = w.length + scan json true rest := by
  induction w with
  | nil => exact (Nat.zero_add _).symm
  | cons b w ih =>
    have other {c : Byte} (outside : c ∉ b :: w) : b ≠ c := fun same => outside (same ▸ List.mem_cons_self)
    have later {c : Byte} (outside : c ∉ b :: w) : c ∉ w := fun mem => outside (List.mem_cons_of_mem _ mem)
    have quoted_ (p : Prop) : true = false → p := fun outside => Bool.noConfusion outside
    rw [List.cons_append,scanOther (other plain) (quoted_ _) ⟨other oneLine.2,other oneLine.1⟩ (quoted_ _)]
    rw [ih (later plain) ⟨later oneLine.1,later oneLine.2⟩,List.length_cons]
    omega

theorem scanSeta {rest : Text} : scan json false (text "seta " ++ byte quote :: rest) = 6 + scan json true rest := by
  have line : text "seta " ++ byte quote :: rest =
      byte 's' :: byte 'e' :: byte 't' :: byte 'a' :: byte ' ' :: byte quote :: rest := rfl
  have letter {b : Byte} (rest : Text) (plain : b ≠ byte quote ∧ b ≠ byte ';' ∧ b ≠ carriageReturn ∧ b ≠ newline ∧
      b ∉ [byte '{',byte '[']) : scan json false (b :: rest) = 1 + scan json false rest :=
    scanOther plain.1 (fun _ => plain.2.1) ⟨plain.2.2.1,plain.2.2.2.1⟩ (fun _ => jsonOutside plain.2.2.2.2)
  rw [line,letter _ (by decide),letter _ (by decide),letter _ (by decide),letter _ (by decide),letter _ (by decide)]
  rw [scanQuote]
  simp only [Bool.not_false]
  omega

theorem takeScan {line rest : Text} {c : Byte} (ends : scan json false (line ++ c :: rest) = line.length)
    (awake : isWait line = false) : takeCommands json (line ++ c :: rest) =
      (line :: (takeCommands json rest).1,(takeCommands json rest).2) := by
  obtain ⟨b,tail,whole⟩ := List.exists_cons_of_ne_nil (List.append_ne_nil_of_right_ne_nil line (List.cons_ne_nil c rest))
  have command : (b :: tail).take line.length = line := by rw [← whole,List.take_left']; rfl
  have left : (b :: tail).drop (line.length + 1) = rest := by rw [← whole,← List.drop_drop,List.drop_left']; rfl; rfl
  rw [whole] at ends ⊢
  rw [takeCommandsCons]
  simp only [ends,command,left,awake]
  rfl

theorem takeHead {b : Byte} {rest : Text} : ∃ more,
    (takeCommands json (b :: rest)).1 = (b :: rest).take (scan json false (b :: rest)) :: more := by
  rw [takeCommandsCons]
  dsimp only
  split
  · exact ⟨_,rfl⟩
  · exact ⟨_,rfl⟩

end Splitting

theorem cleanUtf8 {cs : List Char} : CleanBytes (utf8 cs) ↔ CleanChars cs := by
  constructor
  · rintro ⟨plain,ends⟩
    exact ⟨fun mem => plain ((asciiMem (by decide)).mpr mem),utf8Ends ends⟩
  · rintro ⟨plain,ends⟩
    refine ⟨fun mem => plain ((asciiMem (by decide)).mp mem),fun last => ends ?_⟩
    obtain ⟨front,whole⟩ := List.getLast?_eq_some_iff.mp last
    obtain ⟨before,after,rfl,_,none⟩ := utf8Cut (by decide) whole
    rw [utf8Empty none.symm]
    exact List.getLast?_concat

inductive Eol where
  | lf | crlf

def Eol.bytes : Eol → Text
  | .lf => [newline]
  | .crlf => [carriageReturn,newline]

def Settable (t : Text) : Prop := Encoded t ∧ newline ∉ t ∧ carriageReturn ∉ t

open ConsoleVariableManager (savedLine)

def savedText (eol : Eol) : List (Text × Text) → Text
  | [] => []
  | v :: vs => savedLine v.1 v.2 ++ (eol.bytes ++ savedText eol vs)

def setaWords (v : Text × Text) : List Text := [text "seta",v.1,v.2]

def invoked (wide : WideJson) (commands : List Text) : List (List Text) :=
  (commands.map (Tokenize wide)).filter (fun words => words ≠ [])

abbrev executedWords (json : NarrowJson) (wide : WideJson) (buffer : Text) : List (List Text) :=
  invoked wide (takeCommands json buffer).1

theorem keptWords {words : List Text} {more : List (List Text)} (some_ : words ≠ []) :
    (words :: more).filter (fun words => words ≠ []) = words :: more.filter (fun words => words ≠ []) :=
  List.filter_cons_of_pos (by simpa using some_)

section Saved
variable {json : NarrowJson} {wide : WideJson} {eol : Eol}

theorem savedUtf8 (nc vc : List Char) : savedLine (utf8 nc) (utf8 vc) =
    utf8 ('s' :: 'e' :: 't' :: 'a' :: ' ' :: quote :: (nc ++ quote :: ' ' :: quote :: (vc ++ [quote]))) := by
  simp only [utf8Cons,utf8Append,utf8Nil]
  rw [utf8Ascii (by decide),utf8Ascii (by decide),utf8Ascii (by decide),utf8Ascii (by decide),utf8Ascii (by decide),
    utf8Ascii (by decide)]
  rfl

theorem savedTokenized {n v : Text} (name : Settable n) (value : Settable v) (clean : CleanBytes n ∧ CleanBytes v) :
    Tokenize wide (savedLine n v) = setaWords (n,v) := by
  obtain ⟨nc,rfl⟩ := name.1
  obtain ⟨vc,rfl⟩ := value.1
  rw [savedUtf8,tokenizeUtf8,argumentsSeta,argumentsSaved (cleanUtf8.mp clean.1) (cleanUtf8.mp clean.2)]
  rw [setaWords,textUtf8 rfl]
  rfl

theorem savedScan {n v rest : Text} {c : Byte} (name : Settable n) (value : Settable v)
    (plain : byte quote ∉ n ∧ byte quote ∉ v) (stop : c = carriageReturn ∨ c = newline) :
    scan json false (savedLine n v ++ c :: rest) = (savedLine n v).length := by
  have stops : scan json false (c :: rest) = 0 := by
    have outside : c ≠ byte quote ∧ c ≠ byte ';' ∧ c ∉ [byte '{',byte '['] := by
      rcases stop with rfl | rfl
      · decide
      · decide
    rw [scanOnward (fun _ => jsonOutside outside.2.2)]
    simp only [if_neg outside.1]
    rw [if_pos stop]
    exact ite_self _
  have gap (rest : Text) : scan json false (byte ' ' :: rest) = 1 + scan json false rest :=
    scanOther (by decide) (fun _ => by decide) (by decide) (fun _ => jsonOutside (by decide))
  unfold savedLine
  rw [List.append_assoc,List.cons_append,scanSeta,List.append_assoc,scanInside plain.1 name.2,List.cons_append]
  rw [scanQuote,List.cons_append,List.cons_append]
  simp only [Bool.not_true]
  rw [gap,scanQuote,List.append_assoc]
  simp only [Bool.not_false]
  rw [scanInside plain.2 value.2,List.cons_append,List.nil_append,scanQuote]
  simp only [Bool.not_true]
  rw [stops]
  simp only [List.length_append,List.length_cons,List.length_nil]
  have length : (text "seta ").length = 5 := rfl
  omega

theorem savedTaken {n v rest : Text} (name : Settable n) (value : Settable v) (clean : CleanBytes n ∧ CleanBytes v) :
    executedWords json wide (savedLine n v ++ (eol.bytes ++ rest)) =
      setaWords (n,v) :: executedWords json wide rest := by
  have awake : isWait (savedLine n v) = false := rfl
  have plain := And.intro clean.1.1 clean.2.1
  have some_ : setaWords (n,v) ≠ [] := List.cons_ne_nil _ _
  unfold executedWords invoked
  cases eol with
  | lf =>
    have taken := @takeScan json _ rest _ (savedScan name value plain (.inr rfl)) awake
    rw [Eol.bytes,List.singleton_append,taken,List.map_cons,savedTokenized name value clean]
    exact keptWords some_
  | crlf =>
    have taken := @takeScan json _ (newline :: rest) _ (savedScan name value plain (.inl rfl)) awake
    have next := @takeScan json [] rest newline scanEnd rfl
    have nothing : Tokenize wide [] = [] := (tokenizeUtf8 wide []).trans (by rw [argumentsEnd]; rfl)
    rw [List.nil_append] at next
    rw [Eol.bytes,List.cons_append,List.singleton_append,taken,next,List.map_cons,List.map_cons]
    rw [savedTokenized name value clean,nothing,keptWords some_,List.filter_cons_of_neg (by simp)]

theorem eolEncoded : Encoded eol.bytes := by
  cases eol with
  | lf => exact ⟨[Char.ofNat 10],rfl⟩
  | crlf => exact ⟨[Char.ofNat 13,Char.ofNat 10],rfl⟩

theorem encodedAppend {a b : Text} (first : Encoded a) (second : Encoded b) : Encoded (a ++ b) := by
  obtain ⟨cs,rfl⟩ := first
  obtain ⟨ds,rfl⟩ := second
  exact ⟨cs ++ ds,(utf8Append cs ds).symm⟩

variable {vs : List (Text × Text)}

theorem savedEncoded (each : ∀ v ∈ vs, Settable v.1 ∧ Settable v.2) : Encoded (savedText eol vs) := by
  induction vs with
  | nil => exact ⟨[],rfl⟩
  | cons v vs ih =>
    obtain ⟨⟨⟨nc,name⟩,_⟩,⟨vc,value⟩,_⟩ := each v List.mem_cons_self
    have here : Encoded (savedLine v.1 v.2) := by
      rw [name,value]
      exact ⟨_,savedUtf8 nc vc⟩
    exact encodedAppend here (encodedAppend eolEncoded (ih (fun v mem => each v (List.mem_cons_of_mem _ mem))))

theorem savedEnds (vs : List (Text × Text)) : ∃ front, eol.bytes ++ savedText eol vs = front ++ [newline] := by
  induction vs with
  | nil =>
    cases eol with
    | lf => exact ⟨[],rfl⟩
    | crlf => exact ⟨[carriageReturn],rfl⟩
  | cons v vs ih =>
    obtain ⟨front,ends⟩ := ih
    refine ⟨eol.bytes ++ (savedLine v.1 v.2 ++ front),?_⟩
    rw [savedText,ends,List.append_assoc,List.append_assoc]

theorem firstClean {v : Text × Text} {more : List (List Text)} (each : ∀ u ∈ v :: vs, Settable u.1 ∧ Settable u.2)
    (executed : executedWords json wide (savedText eol (v :: vs)) = setaWords v :: more) :
    CleanBytes v.1 ∧ CleanBytes v.2 := by
  obtain ⟨n,value⟩ := v
  obtain ⟨⟨⟨nc,rfl⟩,_⟩,⟨vc,rfl⟩,_⟩ := each _ List.mem_cons_self
  have later : Encoded (eol.bytes ++ savedText eol vs) :=
    encodedAppend eolEncoded (savedEncoded (fun u mem => each u (List.mem_cons_of_mem _ mem)))
  obtain ⟨tc,tail⟩ := later
  obtain ⟨last,ends⟩ := @savedEnds eol vs
  -- What stands after the first quote of the line, as bytes and as characters.
  have inside : utf8 nc ++ byte quote :: byte ' ' :: byte quote :: (utf8 vc ++ byte quote :: (last ++ [newline])) =
      utf8 (nc ++ quote :: ' ' :: quote :: (vc ++ quote :: tc)) := by
    rw [← ends,tail]
    simp only [utf8Append,utf8Cons]
    rw [utf8Ascii (by decide),utf8Ascii (by decide)]
    rfl
  have buffer : savedText eol ((utf8 nc,utf8 vc) :: vs) =
      text "seta " ++ byte quote :: utf8 (nc ++ quote :: ' ' :: quote :: (vc ++ quote :: tc)) := by
    rw [← inside,← ends,savedText]
    simp [savedLine]
  have open_ : ∃ front, utf8 (nc ++ quote :: ' ' :: quote :: (vc ++ quote :: tc)) = front ++ [newline] :=
    ⟨utf8 nc ++ byte quote :: byte ' ' :: byte quote :: (utf8 vc ++ byte quote :: last),by rw [← inside]; simp⟩
  obtain ⟨front,newlines⟩ := open_
  obtain ⟨c,after,cut,stop⟩ := @scanStops json true front
  rw [← newlines] at cut
  have ascii : ∃ a : Char, a.toNat < 128 ∧ c = byte a ∧ a ≠ quote ∧ a ≠ ' ' := by
    rcases stop with rfl | rfl | rfl
    · exact ⟨';',by decide⟩
    · exact ⟨Char.ofNat 13,by decide⟩
    · exact ⟨Char.ofNat 10,by decide⟩
  obtain ⟨a,low,rfl,other⟩ := ascii
  generalize chars : nc ++ quote :: ' ' :: quote :: (vc ++ quote :: tc) = xc at *
  generalize position : scan json true (utf8 xc) = k at cut
  have split : utf8 xc = (utf8 xc).take k ++ byte a :: after := by rw [← cut,List.take_append_drop]
  obtain ⟨before,rest,whole,taken,_⟩ := utf8Cut low split
  have command : (text "seta " ++ byte quote :: utf8 xc).take (scan json false (text "seta " ++ byte quote :: utf8 xc)) =
      utf8 ('s' :: 'e' :: 't' :: 'a' :: ' ' :: quote :: before) := by
    rw [scanSeta,position,Nat.add_comm]
    simp only [utf8Cons]
    rw [← taken,utf8Ascii (by decide),utf8Ascii (by decide),utf8Ascii (by decide),utf8Ascii (by decide),
      utf8Ascii (by decide),utf8Ascii (by decide)]
    rfl
  have read : Tokenize wide (utf8 ('s' :: 'e' :: 't' :: 'a' :: ' ' :: quote :: before)) =
      utf8 ['s','e','t','a'] :: (arguments wide ⟨some ' ',quote :: before⟩).map utf8 := by
    rw [tokenizeUtf8,argumentsSeta]
    rfl
  have starts : text "seta " ++ byte quote :: utf8 xc =
      byte 's' :: (text "eta " ++ byte quote :: utf8 xc) := rfl
  obtain ⟨further,first⟩ := @takeHead json (byte 's') (text "eta " ++ byte quote :: utf8 xc)
  rw [← starts,command] at first
  unfold executedWords invoked at executed
  rw [buffer,first,List.map_cons,read,keptWords (List.cons_ne_nil _ _)] at executed
  have same : (arguments wide ⟨some ' ',quote :: before⟩).map utf8 = [nc,vc].map utf8 :=
    (List.cons.inj (List.cons.inj executed).1).2
  have words := List.map_injective_iff.mpr utf8Injective same
  rw [← chars] at whole
  obtain ⟨name,value⟩ := savedCut other whole words
  exact ⟨cleanUtf8.mpr name,cleanUtf8.mpr value⟩

theorem savedExecuted (each : ∀ v ∈ vs, Settable v.1 ∧ Settable v.2) :
    executedWords json wide (savedText eol vs) = vs.map setaWords ↔ ∀ v ∈ vs, CleanBytes v.1 ∧ CleanBytes v.2 := by
  induction vs with
  | nil =>
    refine iff_of_true ?_ (fun v mem => absurd mem List.not_mem_nil)
    unfold executedWords invoked savedText
    rw [takeCommands]
    rfl
  | cons v vs ih =>
    have later := ih (fun u mem => each u (List.mem_cons_of_mem _ mem))
    obtain ⟨name,value⟩ := each v List.mem_cons_self
    constructor
    · intro executed
      have here := firstClean each executed
      rw [savedText,savedTaken name value here] at executed
      intro u mem
      rcases List.mem_cons.mp mem with rfl | mem
      · exact here
      · exact later.mp (List.cons.inj executed).2 u mem
    · intro clean
      rw [savedText,savedTaken name value (clean v List.mem_cons_self)]
      rw [later.mpr (fun u mem => clean u (List.mem_cons_of_mem _ mem))]
      rfl

end Saved
end Citizen.Console
