import Mathlib.Data.List.Pairwise

/-! Neighbours in a sorted list: where a downward closed property ends, and that
nothing of the list lies between two neighbours. -/
namespace Citizen

inductive Adjacent {α : Type} (a b : α) : List α → Prop
  | head {rest} : Adjacent a b (a :: b :: rest)
  | tail {x l} (inner : Adjacent a b l) : Adjacent a b (x :: l)

namespace Adjacent
variable {α β : Type} {a b : α} {l : List α} {r : α → α → Prop}

section
variable (h : Adjacent a b l)
include h

theorem left : a ∈ l := by
  induction h with
  | head => exact List.mem_cons_self
  | tail inner ih => exact List.mem_cons_of_mem _ ih

theorem right : b ∈ l := by
  induction h with
  | head => exact List.mem_cons_of_mem _ List.mem_cons_self
  | tail inner ih => exact List.mem_cons_of_mem _ ih

theorem ordered (sorted : l.Pairwise r) : r a b := by
  induction h with
  | head => exact List.rel_of_pairwise_cons sorted List.mem_cons_self
  | tail inner ih => exact ih (List.pairwise_cons.mp sorted).2

theorem separates (sorted : l.Pairwise r) {z : α} (mem : z ∈ l) : z = a ∨ r z a ∨ z = b ∨ r b z := by
  induction h with
  | head =>
    obtain ⟨-,rest⟩ := List.pairwise_cons.mp sorted
    rcases List.mem_cons.mp mem with first | mem
    · exact .inl first
    · rcases List.mem_cons.mp mem with second | mem
      · exact .inr (.inr (.inl second))
      · exact .inr (.inr (.inr (List.rel_of_pairwise_cons rest mem)))
  | tail inner ih =>
    rcases List.mem_cons.mp mem with first | mem
    · exact .inr (.inl (first ▸ List.rel_of_pairwise_cons sorted inner.left))
    · exact ih (List.pairwise_cons.mp sorted).2 mem

end

theorem map (f : α → β) (h : Adjacent a b l) : Adjacent (f a) (f b) (l.map f) := by
  induction h with
  | head => exact .head
  | tail inner ih => exact ih.tail

theorem ofMap (f : α → β) {a b : β} (h : Adjacent a b (l.map f)) :
    ∃ a' b', Adjacent a' b' l ∧ f a' = a ∧ f b' = b := by
  induction l with
  | nil => nomatch h
  | cons x l ih =>
    cases l with
    | nil => nomatch h
    | cons y l =>
      cases h with
      | head => exact ⟨x,y,.head,rfl,rfl⟩
      | tail inner =>
        obtain ⟨a',b',inside,left,right⟩ := ih inner
        exact ⟨a',b',inside.tail,left,right⟩

theorem crossing {p : α → Prop} (down : l.Pairwise (fun x y => p y → p x))
    (below : ∃ x ∈ l, p x) (above : ∃ y ∈ l, ¬ p y) : ∃ a b, Adjacent a b l ∧ p a ∧ ¬ p b := by
  induction l with
  | nil => simp at below
  | cons x l ih =>
    obtain ⟨heads,rest⟩ := List.pairwise_cons.mp down
    obtain ⟨w,wMem,wBelow⟩ := below
    obtain ⟨y,yMem,yAbove⟩ := above
    have first : p x := by
      rcases List.mem_cons.mp wMem with same | inside
      · exact same ▸ wBelow
      · exact heads w inside wBelow
    have yInside : y ∈ l := by
      rcases List.mem_cons.mp yMem with same | inside
      · exact absurd (same ▸ first) yAbove
      · exact inside
    cases l with
    | nil => simp at yInside
    | cons next l =>
      by_cases second : p next
      · obtain ⟨a,b,inner,aBelow,bAbove⟩ := ih rest ⟨next,List.mem_cons_self,second⟩ ⟨y,yInside,yAbove⟩
        exact ⟨a,b,inner.tail,aBelow,bAbove⟩
      · exact ⟨x,next,.head,first,second⟩

end Adjacent
end Citizen
