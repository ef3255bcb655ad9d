import Mathlib.Data.List.Pairwise
import Mathlib.Data.List.Count
import Mathlib.Data.List.Perm.Subperm

/-! Half-open ranges of numbers: lists of them that partition a range, and what follows when no
two of a list are adjacent. -/
namespace Citizen.Interval
variable {α : Type} (first stop : α → Nat)

def holds (p : Nat) (a : α) : Bool := first a ≤ p && p < stop a

def Partition (l : List α) (low high : Nat) : Prop :=
  ∀ p, l.countP (holds first stop p) = if low ≤ p ∧ p < high then 1 else 0

def Disjoint (l : List α) : Prop := ∀ p, l.countP (holds first stop p) ≤ 1

def Apart (a b : α) : Prop := stop a ≠ first b ∧ stop b ≠ first a

variable {first stop} {l l' : List α} {a b c : α} {low high p : Nat}

theorem holdsIff : holds first stop p a = true ↔ first a ≤ p ∧ p < stop a := by simp [holds]

theorem apartSymm : Std.Symm (Apart first stop) := ⟨fun _ _ apart => ⟨apart.2,apart.1⟩⟩

theorem countCons : (a :: l).countP (holds first stop p) =
    l.countP (holds first stop p) + if first a ≤ p ∧ p < stop a then 1 else 0 := by
  rw [List.countP_cons]
  simp only [holdsIff]

theorem Partition.perm (whole : Partition first stop l low high) (perm : l.Perm l') :
    Partition first stop l' low high :=
  fun p => (perm.countP_eq _).symm.trans (whole p)

theorem Partition.disjoint {free live : List α} (whole : Partition first stop (free ++ live) low high) :
    Disjoint first stop free := by
  intro p
  have count := whole p
  rw [List.countP_append] at count
  split at count <;> omega

theorem partitionCut (left : first b = first a) (middle : stop b = first c) (right : stop c = stop a)
    (ordered : first b ≤ stop b ∧ first c ≤ stop c) :
    Partition first stop (b :: c :: l) low high ↔ Partition first stop (a :: l) low high := by
  have same (p : Nat) : (b :: c :: l).countP (holds first stop p) = (a :: l).countP (holds first stop p) := by
    simp only [countCons]
    split <;> split <;> split <;> omega
  simp only [Partition,same]

theorem Partition.bounds (whole : Partition first stop l low high) (mem : a ∈ l) (nonempty : first a < stop a) :
    low ≤ first a ∧ stop a ≤ high := by
  have inside (p : Nat) (here : first a ≤ p ∧ p < stop a) : low ≤ p ∧ p < high := by
    have counted : 0 < l.countP (holds first stop p) := List.countP_pos_iff.mpr ⟨a,mem,holdsIff.mpr here⟩
    rw [whole p] at counted
    by_contra outside
    rw [if_neg outside] at counted
    exact absurd counted (Nat.lt_irrefl 0)
  have start := inside (first a) ⟨Nat.le_refl _,nonempty⟩
  have last := inside (stop a - 1) ⟨by omega,by omega⟩
  omega

theorem Disjoint.unique (apart : Disjoint first stop l) (here : a ∈ l) (there : b ∈ l)
    (inA : first a ≤ p ∧ p < stop a) (inB : first b ≤ p ∧ p < stop b) : a = b := by
  induction l with
  | nil => exact absurd here List.not_mem_nil
  | cons d l ih =>
    have few := apart p
    rw [countCons] at few
    have tail : Disjoint first stop l := by
      intro q
      have below := apart q
      rw [countCons] at below
      omega
    have alone {e f : α} (mem : e ∈ l) (inE : first e ≤ p ∧ p < stop e) (head : f = d)
        (inF : first f ≤ p ∧ p < stop f) : False := by
      have counted : 0 < l.countP (holds first stop p) := List.countP_pos_iff.mpr ⟨e,mem,holdsIff.mpr inE⟩
      rw [← head,if_pos inF] at few
      omega
    rcases List.mem_cons.mp here with isA | memA
    · rcases List.mem_cons.mp there with isB | memB
      · exact isA.trans isB.symm
      · exact (alone memB inB isA inA).elim
    · rcases List.mem_cons.mp there with isB | memB
      · exact (alone memA inA isB inB).elim
      · exact ih tail memA memB

section
variable (apart : l.Pairwise (Apart first stop))
include apart

theorem apartOf (here : a ∈ l) (there : b ∈ l) (other : a ≠ b) : stop a ≠ first b := by
  have : Std.Symm (Apart first stop) := apartSymm
  exact (apart.forall here there other).1

theorem rangeInside (disjoint : Disjoint first stop l) {start n : Nat}
    (covered : ∀ p, start ≤ p → p < start + (n + 1) → ∃ a ∈ l, first a ≤ p ∧ p < stop a) :
    ∃ a ∈ l, first a ≤ start ∧ start + (n + 1) ≤ stop a := by
  induction n with
  | zero =>
    obtain ⟨a,mem,low,high⟩ := covered start (Nat.le_refl _) (by omega)
    exact ⟨a,mem,low,high⟩
  | succ n ih =>
    obtain ⟨a,mem,low,high⟩ := ih (fun p lower upper => covered p lower (by omega))
    obtain ⟨b,memB,lowB,highB⟩ := covered (start + (n + 1)) (by omega) (by omega)
    by_cases more : start + (n + 1) < stop a
    · exact ⟨a,mem,low,more⟩
    · have ends : stop a = start + (n + 1) := by omega
      have other : a ≠ b := by
        rintro rfl
        omega
      have starts : first b ≠ start + (n + 1) := fun same => apartOf apart mem memB other (ends.trans same.symm)
      have last : first b ≤ start + n ∧ start + n < stop b := by omega
      exact absurd (disjoint.unique mem memB (by omega) last) other

theorem wholeRange (whole : Partition first stop l low high)
    (nonempty : ∀ a ∈ l, first a < stop a) (some : low < high) : ∃ a, l = [a] ∧ first a = low ∧ stop a = high := by
  have disjoint : Disjoint first stop l := by
    intro p
    rw [whole p]
    split <;> omega
  obtain ⟨n,size⟩ : ∃ n, high = low + (n + 1) := ⟨high - low - 1,by omega⟩
  have covered (p : Nat) (lower : low ≤ p) (upper : p < low + (n + 1)) : ∃ a ∈ l, first a ≤ p ∧ p < stop a := by
    have counted : 0 < l.countP (holds first stop p) := by
      rw [whole p,if_pos ⟨lower,by omega⟩]
      exact Nat.one_pos
    obtain ⟨a,mem,here⟩ := List.countP_pos_iff.mp counted
    exact ⟨a,mem,holdsIff.mp here⟩
  obtain ⟨a,mem,starts,ends⟩ := rangeInside apart disjoint covered
  have bounds := whole.bounds mem (nonempty a mem)
  have only (b : α) (memB : b ∈ l) : b = a := by
    have boundsB := whole.bounds memB (nonempty b memB)
    have positive := nonempty b memB
    exact disjoint.unique (p := first b) memB mem ⟨by omega,positive⟩ ⟨by omega,by omega⟩
  have single : l.length ≤ 1 := by
    have counted : l.countP (holds first stop low) = l.length := by
      refine List.countP_eq_length.mpr (fun b memB => holdsIff.mpr ?_)
      rw [only b memB]
      omega
    rw [← counted]
    exact disjoint low
  match l,mem,single with
  | [d],mem,_ =>
    cases List.mem_singleton.mp mem
    exact ⟨a,rfl,by omega,by omega⟩

end

end Citizen.Interval
