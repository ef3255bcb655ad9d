import Citizen.Lib.Text

/-! Paths with the separators of POSIX: their elements, their extension and what they denote. -/
namespace Citizen.PosixPath

def parts (path : Text) : List Text := path.splitOn (byte '/')

def elements (path : Text) : List Text :=
  let names := (parts path).filter (fun name => name ≠ [])
  (if path.head? = some (byte '/') then [[byte '/']] else []) ++ names ++
    if names ≠ [] ∧ path.getLast? = some (byte '/') then [[]] else []

def append (p q : Text) : Text :=
  if q.head? = some (byte '/') then q
  else if p = [] ∨ p.getLast? = some (byte '/') then p ++ q
  else p ++ byte '/' :: q

def filename (path : Text) : Text :=
  match (elements path).getLast? with
  | none => []
  | some name => if name = [byte '/'] then [] else name

def suffix (name : Text) : Text :=
  if name = text "." ∨ name = text ".." then []
  else
    match beforeLast (byte '.') name with
    | none => []
    | some [] => []
    | some stem => name.drop stem.length

def extension (path : Text) : Text := suffix (filename path)

def walk (at_ : List Text) (part : Text) : List Text :=
  if part = [] ∨ part = text "." then at_ else if part = text ".." then at_.dropLast else at_ ++ [part]

/-- The file that an absolute path denotes, by the names that lead to it. -/
def resolve (path : Text) : List Text := (parts path).foldl walk []

def Plain (name : Text) : Prop := name ≠ [] ∧ name ≠ text "." ∧ name ≠ text ".." ∧ byte '/' ∉ name

theorem suffixSpecial {name : Text} (special : name = [] ∨ name = text "." ∨ name = text "..") : suffix name = [] := by
  rcases special with rfl | rfl | rfl
  · rfl
  · exact if_pos (.inl rfl)
  · exact if_pos (.inr rfl)

theorem partsAppend (root rest : Text) : parts (root ++ byte '/' :: rest) = parts root ++ parts rest :=
  List.splitOn_append_cons_self ..

theorem resolveAppend (root rest : Text) : resolve (root ++ byte '/' :: rest) = (parts rest).foldl walk (resolve root) := by
  unfold resolve
  rw [partsAppend,List.foldl_append]

theorem walkPlain {name : Text} (plain : Plain name) (at_ : List Text) : walk at_ name = at_ ++ [name] := by
  unfold walk
  rw [if_neg (not_or.mpr ⟨plain.1,plain.2.1⟩),if_neg plain.2.2.1]

theorem walkAll {names : List Text} (plain : ∀ name ∈ names, Plain name) (at_ : List Text) :
    names.foldl walk at_ = at_ ++ names := by
  induction names generalizing at_ with
  | nil => exact (List.append_nil _).symm
  | cons name rest ih =>
    obtain ⟨first,later⟩ := List.forall_mem_cons.mp plain
    rw [List.foldl_cons,walkPlain first,ih later,List.append_assoc]
    rfl

def join (names : List Text) : Text := [byte '/'].intercalate names

section
variable {names : List Text} (some_ : names ≠ []) (plain : ∀ name ∈ names, Plain name)
include some_ plain

theorem partsJoin : parts (join names) = names := by
  induction names with
  | nil => exact absurd rfl some_
  | cons name rest ih =>
    obtain ⟨first,later⟩ := List.forall_mem_cons.mp plain
    cases rest with
    | nil =>
      have alone : join [name] = name := by simp [join]
      rw [alone]
      exact List.splitOn_eq_singleton first.2.2.2
    | cons second rest =>
      have cut : join (name :: second :: rest) = name ++ byte '/' :: join (second :: rest) := by simp [join]
      rw [cut,partsAppend,ih (by simp) later,show parts name = [name] from List.splitOn_eq_singleton first.2.2.2]
      rfl

theorem lastFree : (join names).getLast? ≠ some (byte '/') := by
  intro last
  obtain ⟨front,same⟩ := List.getLast?_eq_some_iff.mp last
  have cut := partsJoin some_ plain
  rw [same,partsAppend] at cut
  exact (plain [] (cut ▸ List.mem_append_right _ List.mem_cons_self)).1 rfl

theorem elementsJoin : elements (join names) = names := by
  have head : (join names).head? ≠ some (byte '/') := by
    intro first
    obtain ⟨rest,same⟩ := List.head?_eq_some_iff.mp first
    have cut := partsJoin some_ plain
    rw [same,← List.nil_append (byte '/' :: rest),partsAppend] at cut
    exact (plain [] (cut ▸ List.mem_append_left _ List.mem_cons_self)).1 rfl
  unfold elements
  dsimp only
  rw [partsJoin some_ plain,if_neg head,if_neg (fun both => lastFree some_ plain both.2),List.append_nil,
    List.filter_eq_self.mpr (fun name mem => decide_eq_true (plain name mem).1)]
  exact List.nil_append _

end

end Citizen.PosixPath
