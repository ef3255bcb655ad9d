import Mathlib.Data.List.Sort

/-! A list of things to do at given times: in the order of the times, and what was put in
first comes first among equals. -/
namespace Citizen.Agenda
variable {τ α : Type} [LinearOrder τ] (rank : α → Nat)

def Before (a b : τ × α) : Prop := a.1 < b.1 ∨ (a.1 = b.1 ∧ rank a.2 < rank b.2)

def insertBefore : List (τ × α) → τ × α → List (τ × α)
  | [],n => [n]
  | it :: rest,n => if n.1 < it.1 then n :: it :: rest else it :: insertBefore rest n

variable {rank}

namespace Before
variable {a b : τ × α}

theorem le (before : Before rank a b) : a.1 ≤ b.1 :=
  before.elim le_of_lt (fun same => same.1.le)

theorem ne (before : Before rank a b) : a ≠ b := by
  rintro rfl
  rcases before with less | ⟨-,less⟩
  · exact lt_irrefl _ less
  · exact Nat.lt_irrefl _ less

end Before

theorem insertBeforePerm (q : List (τ × α)) (n : τ × α) : (insertBefore q n).Perm (n :: q) := by
  induction q with
  | nil => exact .refl _
  | cons it rest ih =>
    unfold insertBefore
    split
    · exact .refl _
    · exact (ih.cons it).trans (.swap n it rest)

section
variable {q : List (τ × α)}

theorem memInsertBefore {n m : τ × α} : m ∈ insertBefore q n ↔ m = n ∨ m ∈ q :=
  (insertBeforePerm q n).mem_iff.trans List.mem_cons

theorem insertBeforeSorted {n : τ × α} (sorted : q.Pairwise (Before rank))
    (newest : ∀ m ∈ q,rank m.2 < rank n.2) : (insertBefore q n).Pairwise (Before rank) := by
  induction q with
  | nil => exact List.pairwise_singleton _ _
  | cons it rest ih =>
    obtain ⟨first,sorted⟩ := List.pairwise_cons.mp sorted
    unfold insertBefore
    split
    · rename_i earlier
      refine List.pairwise_cons.mpr ⟨fun m mem => ?_,List.pairwise_cons.mpr ⟨first,sorted⟩⟩
      rcases List.mem_cons.mp mem with rfl | mem
      · exact .inl earlier
      · exact .inl (earlier.trans_le (first m mem).le)
    · rename_i late
      refine List.pairwise_cons.mpr ⟨fun m mem => ?_,ih sorted (fun m mem => newest m (List.mem_cons_of_mem _ mem))⟩
      rcases memInsertBefore.mp mem with rfl | mem
      · rcases lt_or_eq_of_le (not_lt.mp late) with less | same
        · exact .inl less
        · exact .inr ⟨same,newest it List.mem_cons_self⟩
      · exact first m mem

theorem headFirst (sorted : q.Pairwise (Before rank)) {m : τ × α} (mem : m ∈ q) :
    ∃ c,q.head? = some c ∧ (c = m ∨ Before rank c m) := by
  cases q with
  | nil => cases mem
  | cons c rest =>
    refine ⟨c,rfl,?_⟩
    rcases List.mem_cons.mp mem with same | mem
    · exact .inl same.symm
    · exact .inr ((List.pairwise_cons.mp sorted).1 m mem)

theorem sortedNodup (sorted : q.Pairwise (Before rank)) : q.Nodup :=
  sorted.imp Before.ne

end

end Citizen.Agenda
