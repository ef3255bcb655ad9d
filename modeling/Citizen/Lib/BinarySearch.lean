import Mathlib.Data.Nat.Init

/-! Binary search by a comparison with the wanted element. -/
namespace Citizen.BinarySearch

def search (compare : Nat → Ordering) (low high : Nat) : Option Nat :=
  if low < high then
    let middle := (low + high) / 2
    match compare middle with
    | .lt => search compare low middle
    | .gt => search compare (middle + 1) high
    | .eq => some middle
  else none
termination_by high - low

def Ordered (compare : Nat → Ordering) (high : Nat) : Prop :=
  ∀ i j, i < j → j < high → compare i ≠ .gt → compare j = .lt

variable {compare : Nat → Ordering} {low high i : Nat}

theorem searchSome (found : search compare low high = some i) : low ≤ i ∧ i < high ∧ compare i = .eq := by
  fun_induction search compare low high with
  | case1 low high inside middle below ih =>
    obtain ⟨first,last,same⟩ := ih found
    exact ⟨first,by omega,same⟩
  | case2 low high inside middle above ih =>
    obtain ⟨first,last,same⟩ := ih found
    exact ⟨by omega,last,same⟩
  | case3 low high inside middle same =>
    rw [← Option.some.inj found]
    exact ⟨by omega,by omega,same⟩
  | case4 => cases found

theorem searchNone (ordered : Ordered compare high) (absent : search compare low high = none) (first : low ≤ i)
    (last : i < high) : compare i ≠ .eq := by
  intro same
  fun_induction search compare low high with
  | case1 low high inside middle below ih =>
    rcases Nat.lt_or_ge i middle with before | after
    · exact ih (fun i j earlier stop => ordered i j earlier (by omega)) absent first before
    · rcases Nat.eq_or_lt_of_le after with rfl | after
      · rw [below] at same
        cases same
      · have later := ordered middle i after last (by rw [below]; decide)
        rw [later] at same
        cases same
  | case2 low high inside middle above ih =>
    rcases Nat.lt_or_ge middle i with after | before
    · exact ih ordered absent after last
    · rcases Nat.eq_or_lt_of_le before with rfl | before
      · rw [above] at same
        cases same
      · have later := ordered i middle before (by omega) (by rw [same]; decide)
        rw [later] at above
        cases above
  | case3 => cases absent
  | case4 low high outside => omega

theorem searchFind (ordered : Ordered compare high) :
    search compare 0 high = (List.range high).find? (fun i => compare i = .eq) := by
  symm
  cases found : search compare 0 high with
  | none =>
    refine List.find?_eq_none.mpr (fun i mem => ?_)
    simpa using searchNone ordered found (Nat.zero_le i) (List.mem_range.mp mem)
  | some i =>
    obtain ⟨-,inside,same⟩ := searchSome found
    refine List.find?_range_eq_some.mpr ⟨by simpa using same,List.mem_range.mpr inside,fun j before => ?_⟩
    simp only [Bool.not_eq_true',decide_eq_false_iff_not]
    intro earlier
    have later := ordered j i before inside (by rw [earlier]; decide)
    rw [later] at same
    cases same

end Citizen.BinarySearch
