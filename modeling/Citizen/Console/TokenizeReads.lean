import Citizen.Console.QuotedLine

/-! `Tokenize` on the index of its line, with every read checked against the line and its terminator. -/
namespace Citizen.Console.Reads
open BitField (Byte)

def charAt (line : List Char) (i : Nat) : Option Char := (line ++ [Char.ofNat 0])[i]?

def pairAt (line : List Char) (i : Nat) (a b : Char) : Option Bool := do
  let c ← charAt line i
  if c = a then
    let d ← charAt line (i + 1)
    some (d = b)
  else some false

def skipSpaceAt (line : List Char) : Nat → Nat → Option Nat
  | 0, _ => none
  | fuel + 1, i =>
    if i < line.length then do
      let c ← charAt line i
      if c ≤ ' ' then skipSpaceAt line fuel (i + 1) else some i
    else some i

def skipCommentAt (line : List Char) : Nat → Nat → Option Nat
  | 0, _ => none
  | fuel + 1, i =>
    if i < line.length + 1 then do
      let c ← charAt line i
      if c = '*' then some i
      else
        let d ← charAt line (i + 1)
        if d = '/' then some i else skipCommentAt line fuel (i + 1)
    else some i

def skipAt (line : List Char) : Nat → Nat → Option (Option Nat)
  | 0, _ => none
  | fuel + 1, i => do
    let i ← skipSpaceAt line (line.length + 2) i
    if line.length ≤ i then some none
    else if i = 0 then some (some i)
    else
      let wholeLine ← pairAt line i '/' '/'
      let c ← charAt line i
      if wholeLine = true ∨ c = '#' then some none
      else
        let block ← pairAt line i '/' '*'
        if block then
          let i ← skipCommentAt line (line.length + 2) i
          if line.length ≤ i then some none else skipAt line fuel (i + 2)
        else some (some i)

def quotedAt (line : List Char) : Nat → Bool → Nat → Option (List Char × Nat)
  | 0, _, _ => none
  | fuel + 1, inEscape, i =>
    if line.length ≤ i + 1 then some ([],i + 1)
    else do
      let c ← charAt line (i + 1)
      if c = quote ∧ inEscape = false then some ([],i + 1)
      else
        let escapes ← pairAt line (i + 1) backslash quote
        if escapes then quotedAt line fuel true (i + 1)
        else
          let (arg,j) ← quotedAt line fuel false (i + 1)
          some (c :: arg,j)

def opensCommentAt (line : List Char) (i : Nat) : Option Bool :=
  if i = 0 then some true
  else do
    let b ← charAt line (i - 1)
    some (b = ' ' || b = Char.ofNat 9)

def unquotedAt (line : List Char) : Nat → Nat → Option (Option (List Char × Nat))
  | 0, _ => none
  | fuel + 1, i =>
    if i < line.length then do
      let c ← charAt line i
      if ' ' < c ∧ c ≠ quote then
        let opens ← opensCommentAt line i
        if opens = true ∧ c = '#' then some none
        else
          let wholeLine ← if i < line.length - 1 ∧ opens = true then pairAt line i '/' '/' else some false
          let block ← if i < line.length - 1 ∧ opens = true then pairAt line i '/' '*' else some false
          if wholeLine || block then some none
          else
            let read ← unquotedAt line fuel (i + 1)
            some (read.map (fun (arg,j) => (c :: arg,j)))
      else some (some ([],i))
    else some (some ([],i))

def argumentsAt (json : WideJson) (line : List Char) : Nat → Nat → Option (List (List Char))
  | 0, _ => none
  | fuel + 1, i => do
    match ← skipAt line (line.length + 2) i with
    | none => some []
    | some i =>
      let c ← charAt line i
      match jsonValue json ['{','['] c (line.drop (i + 1)) with
      | some n =>
        let later ← argumentsAt json line fuel (i + n)
        some ((line.drop i).take n :: later)
      | none =>
        if c = quote then
          let (arg,i) ← quotedAt line (line.length + 2) false i
          if line.length ≤ i + 1 then some [arg]
          else
            let later ← argumentsAt json line fuel (i + 1)
            some (arg :: later)
        else
          match ← unquotedAt line (line.length + 2) i with
          | none => some []
          | some (arg,i) =>
            if line.length ≤ i then some (if arg = [] then [] else [arg])
            else
              let later ← argumentsAt json line fuel i
              some ((if arg = [] then [] else [arg]) ++ later)

def TokenizeAt (json : WideJson) (lineUtf8 : Text) : Option (List Text) :=
  match fromUtf8 lineUtf8 with
  | none => some []
  | some line => (argumentsAt json line (line.length + 2) 0).map (List.map utf8)

def placeAt (line : List Char) (i : Nat) : Place := ⟨(line.take i).getLast?,line.drop i⟩

section Indices
variable {json : WideJson} {line : List Char} {i : Nat}

theorem charAtPlace (inside : i ≤ line.length) : charAt line i = some (Place.peek (line.drop i)) := by
  unfold charAt
  rcases Nat.lt_or_eq_of_le inside with before | ended
  · rw [List.getElem?_append_left before,List.drop_eq_getElem_cons before]
    exact List.getElem?_eq_getElem before
  · subst ended
    rw [List.drop_length,List.getElem?_append_right (Nat.le_refl _),Nat.sub_self]
    rfl

theorem charAtCons {c : Char} {tail : List Char} (drop : line.drop i = c :: tail) : charAt line i = some c := by
  have inside : i ≤ line.length := by
    by_contra beyond
    rw [List.drop_eq_nil_of_le (Nat.le_of_not_le beyond)] at drop
    cases drop
  rw [charAtPlace inside,drop]
  rfl

theorem pairAtCons {a b c : Char} (inside : i < line.length) (drop : line.drop i = c :: line.drop (i + 1)) :
    pairAt line i a b = some (decide (c = a ∧ Place.peek (line.drop (i + 1)) = b)) := by
  unfold pairAt
  rw [charAtCons drop,charAtPlace inside]
  by_cases same : c = a
  · simp [same]
  · simp [same]

theorem placeInside (inside : i < line.length) : ∃ c, placeAt line i = ⟨(line.take i).getLast?,c :: line.drop (i + 1)⟩ ∧
    placeAt line (i + 1) = ⟨some c,line.drop (i + 1)⟩ ∧ line.drop i = c :: line.drop (i + 1) := by
  refine ⟨(line)[i],?_,?_,List.drop_eq_getElem_cons inside⟩
  · unfold placeAt
    rw [List.drop_eq_getElem_cons inside]
  · unfold placeAt
    rw [List.take_succ_eq_append_getElem inside,List.getLast?_concat]

theorem placeNext : (placeAt line i).next = placeAt line (i + 1) := by
  rcases Nat.lt_or_ge i line.length with inside | beyond
  · obtain ⟨c,here,next,_⟩ := placeInside inside
    rw [here,next]
    rfl
  · unfold placeAt
    rw [List.drop_eq_nil_of_le beyond,List.drop_eq_nil_of_le (Nat.le_succ_of_le beyond),List.take_of_length_le beyond,
      List.take_of_length_le (Nat.le_succ_of_le beyond)]
    rfl

theorem placeEnd (ended : line.length ≤ i) : placeAt line i = ⟨line.getLast?,[]⟩ := by
  unfold placeAt
  rw [List.take_of_length_le ended,List.drop_eq_nil_of_le ended]

variable {fuel : Nat}

theorem skipSpaceRead (enough : line.length + 1 < fuel + i) (inside : i ≤ line.length + 1) :
    ∃ j, skipSpaceAt line fuel i = some j ∧ i ≤ j ∧
      Place.skipSpace (placeAt line i).before (placeAt line i).rest = placeAt line j := by
  induction fuel generalizing i with
  | zero => omega
  | succ fuel ih =>
    unfold skipSpaceAt
    by_cases before : i < line.length
    · obtain ⟨c,here,next,drop⟩ := placeInside before
      rw [if_pos before,charAtCons drop,here]
      by_cases space : c ≤ ' '
      · obtain ⟨j,found,above,same⟩ := @ih (i + 1) (by omega) (by omega)
        rw [next] at same
        refine ⟨j,?_,by omega,?_⟩
        · simpa [space] using found
        · rw [Place.skipSpace,if_pos space]
          exact same
      · refine ⟨i,?_,Nat.le_refl i,?_⟩
        · simp [space]
        · rw [Place.skipSpace,if_neg space,here]
    · refine ⟨i,if_neg before,Nat.le_refl i,?_⟩
      rw [placeEnd (Nat.le_of_not_lt before)]
      rfl

theorem skipCommentRead (before : i + 1 < line.length) (slash : Place.peek (line.drop i) = '/')
    (star : Place.peek (line.drop (i + 1)) = '*') : skipCommentAt line (fuel + 2) i = some (i + 1) := by
  have onward : i < line.length + 1 := by omega
  have stops : i + 1 < line.length + 1 := by omega
  rw [skipCommentAt,if_pos onward,charAtPlace (by omega),charAtPlace (Nat.le_of_lt before),slash,star,skipCommentAt,
    if_pos stops,charAtPlace (Nat.le_of_lt before),star]
  rfl

theorem skipRead (enough : line.length + 1 < fuel + i) (inside : i ≤ line.length + 1) :
    ∃ found, skipAt line fuel i = some found ∧ (placeAt line i).skip = found.map (placeAt line) ∧
      ∀ j, found = some j → i ≤ j ∧ j < line.length := by
  induction fuel generalizing i with
  | zero => omega
  | succ fuel ih =>
    obtain ⟨j,spaces,above,stops⟩ := @skipSpaceRead line i (line.length + 2) (by omega) inside
    unfold skipAt
    rw [spaces]
    rcases Nat.lt_or_ge j line.length with before | ended
    · obtain ⟨c,here,next,drop⟩ := placeInside before
      have inLine : ¬line.length ≤ j := by omega
      rcases Nat.eq_zero_or_pos j with start | later
      · subst start
        rw [here] at stops
        refine ⟨some 0,by simp [inLine],?_,by rintro _ ⟨⟩; exact ⟨above,before⟩⟩
        rw [skipFirst stops]
        exact congrArg some here.symm
      · obtain ⟨b,last⟩ : ∃ b, (line.take j).getLast? = some b := by
          refine ⟨_,List.getLast?_eq_some_getLast (List.ne_nil_of_length_pos ?_)⟩
          rw [List.length_take]
          omega
        rw [here,last] at stops
        have nonzero : j ≠ 0 := Nat.ne_of_gt later
        have first := charAtCons drop
        have pair (d : Char) := @pairAtCons _ _ '/' d _ before drop
        rw [skipLater stops]
        by_cases comment : (c = '/' ∧ Place.peek (line.drop (j + 1)) = '/') ∨ c = '#'
        · exact ⟨none,by simp [inLine,nonzero,pair,first,comment],if_pos comment,nofun⟩
        · by_cases opener : c = '/' ∧ Place.peek (line.drop (j + 1)) = '*'
          · obtain ⟨slash,star⟩ := opener
            have more : j + 1 < line.length := by
              by_contra outside
              rw [List.drop_eq_nil_of_le (Nat.le_of_not_lt outside)] at star
              exact absurd star (by decide)
            obtain ⟨found,read,skipped,within⟩ := @ih (j + 3) (by omega) (by omega)
            have stopped := @skipCommentRead line j line.length more (by rw [drop]; exact slash) star
            have onLine : ¬line.length ≤ j + 1 := by omega
            refine ⟨found,?_,?_,fun k same => ⟨by have := (within k same).1; omega,(within k same).2⟩⟩
            · simp [inLine,nonzero,pair,first,slash,star,stopped,onLine,read]
            · rw [if_neg comment,if_pos ⟨slash,star⟩,← skipped,← slash,← next,placeNext,placeNext]
          · refine ⟨some j,?_,?_,by rintro _ ⟨⟩; exact ⟨above,before⟩⟩
            · simp [inLine,nonzero,pair,first,comment,opener]
            · rw [if_neg comment,if_neg opener]
              exact congrArg some (here.trans (by rw [last])).symm
    · rw [placeEnd ended] at stops
      exact ⟨none,by simp [ended],skipEnd stops,nofun⟩

theorem quotedRead {inEscape : Bool} (enough : line.length < fuel + i) (inside : i < line.length) :
    ∃ arg j, quotedAt line fuel inEscape i = some (arg,j) ∧ i < j ∧
      quoted inEscape (line.drop (i + 1)) = (arg,line.drop (j + 1)) ∧
      (j < line.length → line.drop j = quote :: line.drop (j + 1)) := by
  induction fuel generalizing i inEscape with
  | zero => omega
  | succ fuel ih =>
    unfold quotedAt
    by_cases ended : line.length ≤ i + 1
    · refine ⟨[],i + 1,if_pos ended,Nat.lt_succ_self i,?_,fun before => absurd before (Nat.not_lt_of_le ended)⟩
      rw [List.drop_eq_nil_of_le ended,List.drop_eq_nil_of_le (Nat.le_succ_of_le ended)]
      rfl
    · have before : i + 1 < line.length := Nat.lt_of_not_le ended
      obtain ⟨c,_,_,drop⟩ := placeInside before
      rw [if_neg ended,charAtCons drop,pairAtCons before drop]
      nth_rewrite 1 [drop]
      rw [quoted]
      by_cases closes : c = quote ∧ inEscape = false
      · exact ⟨[],i + 1,by simp [closes],Nat.lt_succ_self i,if_pos closes,fun _ => closes.1 ▸ drop⟩
      · rw [if_neg closes]
        by_cases escapes : c = backslash ∧ Place.peek (line.drop (i + 1 + 1)) = quote
        · obtain ⟨arg,j,read,above,same,closing⟩ := @ih (i + 1) true (by omega) before
          refine ⟨arg,j,?_,by omega,by rw [if_pos escapes]; exact same,closing⟩
          simp only [Option.bind_eq_bind,Option.bind_some,if_neg closes,decide_eq_true escapes,if_true,read]
        · obtain ⟨arg,j,read,above,same,closing⟩ := @ih (i + 1) false (by omega) before
          refine ⟨c :: arg,j,?_,by omega,by rw [if_neg escapes,same],closing⟩
          simp only [Option.bind_eq_bind,Option.bind_some,if_neg closes,decide_eq_false escapes,Bool.false_eq_true,
            if_false,read]

theorem opensCommentRead (inside : i ≤ line.length) :
    opensCommentAt line i = some (opensComment (placeAt line i).before) := by
  unfold opensCommentAt
  cases i with
  | zero => rfl
  | succ k =>
    obtain ⟨c,_,next,drop⟩ := placeInside inside
    rw [if_neg (Nat.succ_ne_zero k),Nat.add_sub_cancel,charAtCons drop,next]
    rfl

theorem unquotedRead (enough : line.length < fuel + i) (inside : i ≤ line.length) :
    ∃ read, unquotedAt line fuel i = some read ∧
      unquoted (placeAt line i).before (placeAt line i).rest = read.map (fun (arg,j) => (arg,placeAt line j)) := by
  induction fuel generalizing i with
  | zero => omega
  | succ fuel ih =>
    unfold unquotedAt
    by_cases before : i < line.length
    · obtain ⟨c,here,next,drop⟩ := placeInside before
      have more : i < line.length - 1 ↔ line.drop (i + 1) ≠ [] := by
        rw [ne_eq,List.drop_eq_nil_iff]
        omega
      rw [if_pos before,charAtCons drop,opensCommentRead inside,pairAtCons before drop,pairAtCons before drop,here,
        unquoted]
      by_cases word : ' ' < c ∧ c ≠ quote
      · by_cases sharp : opensComment (line.take i).getLast? = true ∧ c = '#'
        · refine ⟨none,?_,by rw [if_pos word,if_pos sharp]; rfl⟩
          simp only [Option.bind_eq_bind,Option.bind_some,if_pos word,if_pos sharp]
        · obtain ⟨read,found,same⟩ := @ih (i + 1) (by omega) before
          by_cases comment : line.drop (i + 1) ≠ [] ∧ opensComment (line.take i).getLast? = true ∧ c = '/' ∧
              (Place.peek (line.drop (i + 1)) = '/' ∨ Place.peek (line.drop (i + 1)) = '*')
          · refine ⟨none,?_,by rw [if_pos word,if_neg sharp,if_pos comment]; rfl⟩
            obtain ⟨nonempty,opens,slash,second⟩ := comment
            have looks := And.intro (more.mpr nonempty) opens
            simp only [Option.bind_eq_bind,Option.bind_some,if_pos word,if_neg sharp,if_pos looks]
            rcases second with second | second
            · simp [slash,second]
            · simp [slash,second]
          · refine ⟨read.map (fun (arg,j) => (c :: arg,j)),?_,?_⟩
            · by_cases looks : i < line.length - 1 ∧ opensComment (line.take i).getLast? = true
              · have other (d : Char) (second : d = '/' ∨ d = '*') :
                    ¬(c = '/' ∧ Place.peek (line.drop (i + 1)) = d) := by
                  rintro ⟨slash,rfl⟩
                  exact comment ⟨more.mp looks.1,looks.2,slash,second⟩
                simp only [Option.bind_eq_bind,Option.bind_some,if_pos word,if_neg sharp,if_pos looks,
                  decide_eq_false (other _ (.inl rfl)),decide_eq_false (other _ (.inr rfl)),Bool.or_self,
                  Bool.false_eq_true,if_false,found]
              · simp only [Option.bind_eq_bind,Option.bind_some,if_pos word,if_neg sharp,if_neg looks,Bool.or_self,
                  Bool.false_eq_true,if_false,found]
            · rw [if_pos word,if_neg sharp,if_neg comment]
              rw [next] at same
              rw [same,Option.map_map,Option.map_map]
              rfl
      · refine ⟨some ([],i),?_,?_⟩
        · simp only [Option.bind_eq_bind,Option.bind_some,if_neg word]
        · rw [if_neg word]
          exact congrArg (fun p => some ([],p)) here.symm
    · refine ⟨some ([],i),if_neg before,?_⟩
      have ended := @placeEnd line i (Nat.le_of_not_lt before)
      rw [ended]
      exact congrArg (fun p => some ([],p)) ended.symm

theorem placeTaken {n : Nat} (some_ : 0 < n) (inside : i + n ≤ line.length) :
    (⟨((line.drop i).take n).getLast?,(line.drop i).drop n⟩ : Place) = placeAt line (i + n) := by
  have nonempty : (line.drop i).take n ≠ [] := by
    refine List.ne_nil_of_length_pos ?_
    rw [List.length_take,List.length_drop]
    omega
  unfold placeAt
  rw [List.drop_drop,List.take_add,List.getLast?_append_of_ne_nil _ nonempty]

theorem argumentsRead (enough : line.length + 1 < fuel + i) (inside : i ≤ line.length + 1) :
    argumentsAt json line fuel i = some (arguments json (placeAt line i)) := by
  induction fuel generalizing i with
  | zero => omega
  | succ fuel ih =>
    obtain ⟨found,skips,same,within⟩ := @skipRead line i (line.length + 2) (by omega) inside
    unfold argumentsAt
    rw [skips]
    cases found with
    | none => exact congrArg some (argumentsNone same).symm
    | some j =>
      obtain ⟨above,before⟩ := within j rfl
      obtain ⟨c,here,next,drop⟩ := placeInside before
      have start : (placeAt line i).skip = some ⟨(line.take j).getLast?,c :: line.drop (j + 1)⟩ :=
        same.trans (congrArg some here)
      have rest (k : Nat) (onward : j < k) (onLine : k ≤ line.length) :
          argumentsAt json line fuel k = some (arguments json (placeAt line k)) := ih (by omega) (by omega)
      simp only [Option.bind_eq_bind,Option.bind_some,charAtCons drop]
      cases value : jsonValue json ['{','['] c (line.drop (j + 1)) with
      | some n =>
        obtain ⟨some_,whole⟩ := jsonValueBounds value
        have onLine : j + n ≤ line.length := by
          rw [← drop,List.length_drop] at whole
          omega
        rw [argumentsValue start value,← drop,placeTaken some_ onLine]
        simp only [rest (j + n) (by omega) onLine,Option.bind_some]
      | none =>
        by_cases quotes : c = quote
        · subst quotes
          obtain ⟨arg,k,read,onward,taken,closing⟩ := @quotedRead line j (line.length + 2) false (by omega) before
          rw [argumentsQuoted start,taken]
          simp only [if_true,read,Option.bind_some]
          by_cases ended : line.length ≤ k + 1
          · rw [if_pos ended,List.drop_eq_nil_of_le ended,argumentsEnd]
          · have closed : k < line.length := by omega
            obtain ⟨d,_,after,last⟩ := placeInside closed
            obtain ⟨rfl,_⟩ := List.cons.inj (last.symm.trans (closing closed))
            rw [if_neg ended,rest (k + 1) (by omega) closed,after]
            rfl
        · obtain ⟨read,reads,taken⟩ := @unquotedRead line j (line.length + 2) (by omega) (by omega)
          rw [here] at taken
          rw [argumentsPlain start value quotes,taken]
          simp only [if_neg quotes,reads,Option.bind_some]
          cases read with
          | none => rfl
          | some found =>
            obtain ⟨arg,k⟩ := found
            obtain ⟨_,d,tail,first,visible⟩ := Place.skipStarts start
            cases first
            have shorter := unquotedTakes visible quotes taken
            have onward : j < k := by
              unfold placeAt at shorter
              rw [← drop,List.length_drop,List.length_drop] at shorter
              omega
            dsimp only [Option.map_some]
            by_cases ended : line.length ≤ k
            · rw [if_pos ended,placeEnd ended,argumentsEnd,List.append_nil]
            · rw [if_neg ended,rest k onward (Nat.le_of_not_le ended)]
              rfl

end Indices
theorem tokenizeReads (json : WideJson) (lineUtf8 : Text) : TokenizeAt json lineUtf8 = some (Tokenize json lineUtf8) := by
  unfold TokenizeAt Tokenize
  cases fromUtf8 lineUtf8 with
  | none => rfl
  | some line =>
    dsimp only
    rw [argumentsRead (by omega) (Nat.zero_le _)]
    rfl

end Citizen.Console.Reads
