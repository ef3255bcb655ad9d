import Mathlib.Order.Interval.Finset.Nat

/-! A window over indexes that are pushed one after the other: the oldest are erased, and any
of them can be taken out. -/
namespace Citizen.Window

structure Holds (first next : Nat) (taken : Nat → Prop) (kept : List Nat) : Prop where
  once : kept.Nodup
  exact : ∀ i,i ∈ kept ↔ first ≤ i ∧ i < next ∧ ¬ taken i

namespace Holds
variable {first next : Nat} {taken taken' : Nat → Prop} {kept : List Nat}

theorem empty (next : Nat) (taken : Nat → Prop) : Holds next next taken [] :=
  ⟨List.nodup_nil,fun i => by simp only [List.not_mem_nil,false_iff]; omega⟩

section
variable (holds : Holds first next taken kept)
include holds

theorem absent : next ∉ kept :=
  fun mem => Nat.lt_irrefl _ ((holds.exact next).mp mem).2.1

theorem push (ordered : first ≤ next) (fresh : ¬ taken next) : Holds first (next + 1) taken (next :: kept) := by
  refine ⟨List.nodup_cons.mpr ⟨holds.absent,holds.once⟩,fun i => ?_⟩
  rw [List.mem_cons,holds.exact]
  constructor
  · rintro (rfl | ⟨low,high,free⟩)
    · exact ⟨ordered,Nat.lt_succ_self _,fresh⟩
    · exact ⟨low,Nat.lt_succ_of_lt high,free⟩
  · rintro ⟨low,high,free⟩
    rcases Nat.lt_succ_iff_lt_or_eq.mp high with high | rfl
    · exact .inr ⟨low,high,free⟩
    · exact .inl rfl

theorem eraseFirst : Holds (first + 1) next taken (kept.erase first) := by
  refine ⟨holds.once.erase _,fun i => ?_⟩
  rw [holds.once.mem_erase_iff,holds.exact]
  constructor
  · rintro ⟨other,low,rest⟩
    exact ⟨Nat.lt_of_le_of_ne low (Ne.symm other),rest⟩
  · rintro ⟨low,rest⟩
    exact ⟨Nat.ne_of_gt low,Nat.le_of_lt low,rest⟩

theorem take (i : Nat) : Holds first next (fun j => j = i ∨ taken j) (kept.erase i) := by
  refine ⟨holds.once.erase _,fun j => ?_⟩
  rw [holds.once.mem_erase_iff,holds.exact,not_or]
  exact ⟨fun ⟨other,low,high,free⟩ => ⟨low,high,other,free⟩,fun ⟨low,high,other,free⟩ => ⟨other,low,high,free⟩⟩

theorem congr (same : ∀ i,i < next → (taken i ↔ taken' i)) : Holds first next taken' kept := by
  refine ⟨holds.once,fun i => (holds.exact i).trans ?_⟩
  constructor
  · rintro ⟨low,high,free⟩
    exact ⟨low,high,fun is => free ((same i high).mpr is)⟩
  · rintro ⟨low,high,free⟩
    exact ⟨low,high,fun is => free ((same i high).mp is)⟩

theorem length : kept.length ≤ next - first := by
  have inside : kept.toFinset ⊆ Finset.Ico first next := fun i mem => by
    obtain ⟨low,high,-⟩ := (holds.exact i).mp (List.mem_toFinset.mp mem)
    exact Finset.mem_Ico.mpr ⟨low,high⟩
  have card := Finset.card_le_card inside
  rwa [List.toFinset_card_of_nodup holds.once,Nat.card_Ico] at card

theorem contiguous (whole : ∀ i,first ≤ i → ¬ taken i) :
    kept.length = next - first ∧ ∀ i,i ∈ kept ↔ first ≤ i ∧ i < next := by
  have exact : ∀ i,i ∈ kept ↔ first ≤ i ∧ i < next := fun i =>
    (holds.exact i).trans ⟨fun ⟨low,high,_⟩ => ⟨low,high⟩,fun ⟨low,high⟩ => ⟨low,high,whole i low⟩⟩
  have same : kept.toFinset = Finset.Ico first next := by
    ext i
    rw [List.mem_toFinset,exact,Finset.mem_Ico]
  have card := congrArg Finset.card same
  rw [List.toFinset_card_of_nodup holds.once,Nat.card_Ico] at card
  exact ⟨card,exact⟩

end

end Holds
end Citizen.Window
