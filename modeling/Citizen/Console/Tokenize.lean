import Citizen.Lib.Utf8

/-! `console::Tokenize`, which makes words of a line. -/
namespace Citizen.Console

def quote : Char := Char.ofNat 34

def backslash : Char := Char.ofNat 92

/-- `json_accept` on a text that starts with a bracket: how much of it `tellg` finds taken where it is
accepted. The parser reads no further than the bracket that closes the value. -/
structure JsonAccept (α : Type) (closing : List α) where
  accept : List α → Option Nat
  closed : ∀ {t n}, accept t = some n → ∃ front c rest, t = front ++ c :: rest ∧ n = front.length + 1 ∧ c ∈ closing

structure Place where
  before : Option Char
  rest : List Char

namespace Place

def next : Place → Place
  | ⟨before,[]⟩ => ⟨before,[]⟩
  | ⟨_,c :: rest⟩ => ⟨some c,rest⟩

def peek (rest : List Char) : Char := rest.headD (Char.ofNat 0)

def skipSpace (before : Option Char) : List Char → Place
  | [] => ⟨before,[]⟩
  | c :: rest => if c ≤ ' ' then skipSpace (some c) rest else ⟨before,c :: rest⟩

def skipComment (before : Option Char) : List Char → Place
  | [] => ⟨before,[]⟩
  | c :: rest => if c ≠ '*' ∧ peek rest ≠ '/' then skipComment (some c) rest else ⟨before,c :: rest⟩

theorem nextSuffix (p : Place) : p.next.rest <:+ p.rest := by
  rcases p with ⟨before,_ | ⟨c,rest⟩⟩
  · exact List.suffix_rfl
  · exact List.suffix_cons c rest

theorem skipSpaceSuffix (before : Option Char) (line : List Char) : (skipSpace before line).rest <:+ line := by
  induction line generalizing before with
  | nil => exact List.suffix_rfl
  | cons c rest ih =>
    unfold skipSpace
    split
    · exact (ih _).trans (List.suffix_cons c rest)
    · exact List.suffix_rfl

theorem skipCommentSuffix (before : Option Char) (line : List Char) : (skipComment before line).rest <:+ line := by
  induction line generalizing before with
  | nil => exact List.suffix_rfl
  | cons c rest ih =>
    unfold skipComment
    split
    · exact (ih _).trans (List.suffix_cons c rest)
    · exact List.suffix_rfl

def skip (p : Place) : Option Place :=
  match _h : skipSpace p.before p.rest with
  | ⟨_,[]⟩ => none
  | ⟨none,c :: rest⟩ => some ⟨none,c :: rest⟩
  | ⟨some b,c :: rest⟩ =>
    if (c = '/' ∧ peek rest = '/') ∨ c = '#' then none
    else if c = '/' ∧ peek rest = '*' then
      match _k : skipComment (some b) (c :: rest) with
      | ⟨_,[]⟩ => none
      | ⟨b',d :: rest'⟩ => skip (next (next ⟨b',d :: rest'⟩))
    else some ⟨some b,c :: rest⟩
termination_by p.rest.length
decreasing_by
  have first := (skipSpaceSuffix p.before p.rest).length_le
  have second := (skipCommentSuffix (some b) (c :: rest)).length_le
  have last := (nextSuffix (next ⟨b',d :: rest'⟩)).length_le
  rw [_h] at first
  rw [_k] at second
  simp only [next,List.length_cons] at first second last ⊢
  omega

theorem skipSpaceStarts {before b : Option Char} {line rest : List Char} {c : Char}
    (skipped : skipSpace before line = ⟨b,c :: rest⟩) : ' ' < c := by
  induction line generalizing before with
  | nil => cases skipped
  | cons d tail ih =>
    unfold skipSpace at skipped
    split at skipped
    · exact ih skipped
    · rename_i above
      cases skipped
      exact Char.not_le.mp above

theorem skipStarts {p q : Place} (found : p.skip = some q) :
    q.rest <:+ p.rest ∧ ∃ c tail, q.rest = c :: tail ∧ ' ' < c := by
  fun_induction skip p with
  | case1 => cases found
  | case2 p c rest skipped =>
    cases found
    have tail := skipSpaceSuffix p.before p.rest
    rw [skipped] at tail
    exact ⟨tail,c,rest,rfl,skipSpaceStarts skipped⟩
  | case3 => cases found
  | case4 => cases found
  | case5 p b c rest skipped _ _ b' d rest' comment ih =>
    obtain ⟨below,start⟩ := ih found
    have first := skipSpaceSuffix p.before p.rest
    have second := skipCommentSuffix (some b) (c :: rest)
    rw [skipped] at first
    rw [comment] at second
    have last := (nextSuffix (next ⟨b',d :: rest'⟩)).trans (nextSuffix ⟨b',d :: rest'⟩)
    exact ⟨((below.trans last).trans second).trans first,start⟩
  | case6 p b c rest skipped =>
    cases found
    have tail := skipSpaceSuffix p.before p.rest
    rw [skipped] at tail
    exact ⟨tail,c,rest,rfl,skipSpaceStarts skipped⟩

end Place

/-- The loop over a quoted string from the character after its opening quote: the argument, and what
follows its closing quote. -/
def quoted (inEscape : Bool) : List Char → List Char × List Char
  | [] => ([],[])
  | c :: rest =>
    if c = quote ∧ inEscape = false then ([],rest)
    else if c = backslash ∧ Place.peek rest = quote then quoted true rest
    else (c :: (quoted false rest).1,(quoted false rest).2)

def opensComment : Option Char → Bool
  | none => true
  | some b => b = ' ' || b = Char.ofNat 9

def unquoted (before : Option Char) : List Char → Option (List Char × Place)
  | [] => some ([],⟨before,[]⟩)
  | c :: rest =>
    if ' ' < c ∧ c ≠ quote then
      if opensComment before ∧ c = '#' then none
      else if rest ≠ [] ∧ opensComment before ∧ c = '/' ∧ (Place.peek rest = '/' ∨ Place.peek rest = '*') then none
      else (unquoted (some c) rest).map (fun (arg,place) => (c :: arg,place))
    else some ([],⟨before,c :: rest⟩)

theorem quotedSuffix (inEscape : Bool) (line : List Char) : (quoted inEscape line).2 <:+ line := by
  induction line generalizing inEscape with
  | nil => exact List.suffix_rfl
  | cons c rest ih =>
    unfold quoted
    split
    · exact List.suffix_cons c rest
    · split
      · exact (ih true).trans (List.suffix_cons c rest)
      · exact (ih false).trans (List.suffix_cons c rest)

theorem unquotedSplit {before : Option Char} {line arg : List Char} {place : Place}
    (read : unquoted before line = some (arg,place)) : line = arg ++ place.rest := by
  induction line generalizing before arg with
  | nil =>
    cases read
    rfl
  | cons c rest ih =>
    unfold unquoted at read
    split at read
    · split at read
      · cases read
      · split at read
        · cases read
        · obtain ⟨⟨tail,after⟩,inner,same⟩ := Option.map_eq_some_iff.mp read
          cases same
          exact congrArg (c :: ·) (ih inner)
    · cases read
      rfl

theorem unquotedTakes {before : Option Char} {c : Char} {rest arg : List Char} {place : Place} (starts : ' ' < c)
    (plain : c ≠ quote) (read : unquoted before (c :: rest) = some (arg,place)) :
    place.rest.length < (c :: rest).length := by
  have whole := congrArg List.length (unquotedSplit read)
  rw [List.length_append] at whole
  have some_ : 0 < arg.length := by
    unfold unquoted at read
    rw [if_pos ⟨starts,plain⟩] at read
    split at read
    · cases read
    · split at read
      · cases read
      · obtain ⟨_,_,same⟩ := Option.map_eq_some_iff.mp read
        cases same
        exact Nat.succ_pos _
  omega

abbrev WideJson := JsonAccept Char ['}',']']

theorem JsonAccept.bounds {α : Type} {closing : List α} (json : JsonAccept α closing) {t : List α} {n : Nat}
    (accepted : json.accept t = some n) : 0 < n ∧ n ≤ t.length := by
  obtain ⟨front,c,rest,rfl,rfl,_⟩ := json.closed accepted
  rw [List.length_append,List.length_cons]
  omega

def jsonValue {α : Type} [DecidableEq α] {closing : List α} (json : JsonAccept α closing) (opening : List α)
    (c : α) (rest : List α) : Option Nat :=
  if c ∈ opening then json.accept (c :: rest) else none

theorem jsonValueBounds {α : Type} [DecidableEq α] {closing opening : List α} {json : JsonAccept α closing} {c : α}
    {rest : List α} {n : Nat} (value : jsonValue json opening c rest = some n) : 0 < n ∧ n ≤ (c :: rest).length := by
  unfold jsonValue at value
  split at value
  · exact json.bounds value
  · cases value

def arguments (json : WideJson) (p : Place) : List (List Char) :=
  match _h : p.skip with
  | none => []
  | some ⟨_,[]⟩ => []
  | some ⟨before,c :: rest⟩ =>
    match _j : jsonValue json ['{','['] c rest with
    | some n => (c :: rest).take n :: arguments json ⟨((c :: rest).take n).getLast?,(c :: rest).drop n⟩
    | none =>
      if c = quote then
        (quoted false rest).1 :: arguments json ⟨some quote,(quoted false rest).2⟩
      else
        match _u : unquoted before (c :: rest) with
        | none => []
        | some (arg,place) => (if arg = [] then [] else [arg]) ++ arguments json place
termination_by p.rest.length
decreasing_by
  · have shorter := (Place.skipStarts _h).1.length_le
    have bounds := jsonValueBounds _j
    simp only [List.length_drop] at shorter ⊢
    omega
  · have shorter := (Place.skipStarts _h).1.length_le
    have inner := (quotedSuffix false rest).length_le
    simp only [List.length_cons] at shorter ⊢
    omega
  · obtain ⟨tail,d,_,same,starts⟩ := Place.skipStarts _h
    cases same
    have shorter := tail.length_le
    have inner := unquotedTakes starts (by assumption) _u
    simp only at shorter ⊢
    omega

def Tokenize (json : WideJson) (lineUtf8 : Text) : List Text :=
  match fromUtf8 lineUtf8 with
  | none => []
  | some line => (arguments json ⟨none,line⟩).map utf8

end Citizen.Console
