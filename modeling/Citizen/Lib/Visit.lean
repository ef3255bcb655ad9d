import Mathlib.Data.List.Basic
import Mathlib.Logic.Relation

/-! Depth-first search with a set of what has been seen. -/
namespace Citizen.Visit
variable {α : Type} [DecidableEq α] {next : α → List α}

/-- Adds everything that is reached from `a` without going through what was seen before; `none` when
calls are nested deeper than `depth`. -/
def visit (next : α → List α) : Nat → α → List α → Option (List α)
  | 0,_,_ => none
  | depth + 1,a,seen =>
    (next a).foldlM (fun seen b => if b ∈ seen then some seen else visit next depth b (b :: seen)) seen

def visitEach (next : α → List α) (depth : Nat) (bs seen : List α) : Option (List α) :=
  bs.foldlM (fun seen b => if b ∈ seen then some seen else visit next depth b (b :: seen)) seen

theorem visitSucc (depth : Nat) (a : α) (seen : List α) :
    visit next (depth + 1) a seen = visitEach next depth (next a) seen := rfl

theorem visitEachCons (depth : Nat) (b : α) (bs seen : List α) : visitEach next depth (b :: bs) seen =
    (if b ∈ seen then some seen else visit next depth b (b :: seen)).bind (visitEach next depth bs) := rfl

def Fresh (next : α → List α) (seen : List α) (a b : α) : Prop := b ∈ next a ∧ b ∉ seen

structure Covered (next : α → List α) (seen : List α) (source : α → Prop) (seen' : List α) : Prop where
  grows : seen ⊆ seen'
  closed : ∀ x ∈ seen', x ∉ seen → ∀ b ∈ next x, b ∈ seen'
  sound : ∀ x ∈ seen', x ∈ seen ∨ ∃ b, source b ∧ b ∉ seen ∧ Relation.ReflTransGen (Fresh next seen) b x
  complete : ∀ b, source b → b ∈ seen'

theorem Covered.step {seen seen₁ seen₂ : List α} {b : α} {source : α → Prop} (new : b ∉ seen)
    (first : Covered next (b :: seen) (· ∈ next b) seen₁) (later : Covered next seen₁ source seen₂) :
    Covered next seen (fun x => x = b ∨ source x) seen₂ := by
  have grown : seen ⊆ seen₁ := fun x mem => first.grows (List.mem_cons_of_mem _ mem)
  have wider {u v : α} (fresh : Fresh next (b :: seen) u v) : Fresh next seen u v :=
    ⟨fresh.1,fun mem => fresh.2 (List.mem_cons_of_mem _ mem)⟩
  have narrower {u v : α} (fresh : Fresh next seen₁ u v) : Fresh next seen u v :=
    ⟨fresh.1,fun mem => fresh.2 (grown mem)⟩
  refine ⟨fun x mem => later.grows (grown mem),fun x mem unseen c edge => ?_,fun x mem => ?_,fun x from_ => ?_⟩
  · by_cases early : x ∈ seen₁
    · by_cases here : x = b
      · subst here
        exact later.grows (first.complete c edge)
      · have outside : x ∉ b :: seen := fun mem => (List.mem_cons.mp mem).elim here unseen
        exact later.grows (first.closed x early outside c edge)
    · exact later.closed x mem early c edge
  · rcases later.sound x mem with early | ⟨c,from_,unseen,path⟩
    · rcases first.sound x early with before | ⟨c,edge,unseen,path⟩
      · rcases List.mem_cons.mp before with rfl | before
        · exact .inr ⟨x,.inl rfl,new,.refl⟩
        · exact .inl before
      · refine .inr ⟨b,.inl rfl,new,?_⟩
        have outside : c ∉ seen := fun mem => unseen (List.mem_cons_of_mem _ mem)
        exact (Relation.ReflTransGen.single ⟨edge,outside⟩).trans (Relation.ReflTransGen.mono (fun _ _ => wider) _ _ path)
    · exact .inr ⟨c,.inr from_,fun mem => unseen (grown mem),Relation.ReflTransGen.mono (fun _ _ => narrower) _ _ path⟩
  · rcases from_ with rfl | from_
    · exact later.grows (first.grows List.mem_cons_self)
    · exact later.complete x from_

omit [DecidableEq α] in
theorem Covered.seen {seen seen' : List α} {b : α} {source : α → Prop} (old : b ∈ seen)
    (later : Covered next seen source seen') : Covered next seen (fun x => x = b ∨ source x) seen' :=
  ⟨later.grows,later.closed,fun x mem => (later.sound x mem).imp id (fun ⟨c,from_,rest⟩ => ⟨c,.inr from_,rest⟩),
    fun x from_ => from_.elim (fun same => later.grows (same ▸ old)) (later.complete x)⟩

theorem visitCovers {depth : Nat} {a : α} {seen seen' : List α} (found : visit next depth a seen = some seen') :
    Covered next seen (· ∈ next a) seen' := by
  induction depth generalizing a seen seen' with
  | zero => cases found
  | succ depth ih =>
    rw [visitSucc] at found
    generalize next a = bs at found
    induction bs generalizing seen with
    | nil =>
      cases found
      exact ⟨fun _ mem => mem,fun x mem unseen => absurd mem unseen,fun _ mem => .inl mem,fun _ none => by cases none⟩
    | cons b bs each =>
      rw [visitEachCons] at found
      obtain ⟨seen₁,first,later⟩ := Option.bind_eq_some_iff.mp found
      simp only [List.mem_cons]
      split at first
      · rename_i old
        cases first
        exact (each later).seen old
      · rename_i new
        exact (ih first).step new (each later)

def unseen (pool seen : List α) : Nat := (pool.filter (fun x => decide (x ∉ seen))).length

theorem unseenMono {pool seen seen' : List α} (grows : seen ⊆ seen') : unseen pool seen' ≤ unseen pool seen := by
  refine (List.Sublist.length_le (List.monotone_filter_right pool (fun x absent => ?_)))
  simp only [decide_eq_true_eq] at absent ⊢
  exact fun mem => absent (grows mem)

theorem unseenLess {pool seen : List α} {b : α} (known : b ∈ pool) (new : b ∉ seen) :
    unseen pool (b :: seen) < unseen pool seen := by
  have front (seen : List α) : unseen pool seen = unseen (b :: pool.erase b) seen :=
    ((List.perm_cons_erase known).filter _).length_eq
  have fewer : unseen (pool.erase b) (b :: seen) ≤ unseen (pool.erase b) seen :=
    unseenMono (List.subset_cons_self _ _)
  have gone : unseen (b :: pool.erase b) (b :: seen) = unseen (pool.erase b) (b :: seen) := by
    simp [unseen]
  have kept : unseen (b :: pool.erase b) seen = unseen (pool.erase b) seen + 1 := by
    simp [unseen,new]
  rw [front,front,gone,kept]
  exact Nat.lt_succ_of_le fewer

theorem visitEnds {pool : List α} (known : ∀ a, next a ⊆ pool) {depth : Nat} {a : α} {seen : List α}
    (enough : unseen pool seen < depth) : ∃ seen', visit next depth a seen = some seen' := by
  induction depth generalizing a seen with
  | zero => exact absurd enough (Nat.not_lt_zero _)
  | succ depth ih =>
    rw [visitSucc]
    have inside := known a
    generalize next a = bs at inside
    induction bs generalizing seen with
    | nil => exact ⟨seen,rfl⟩
    | cons b bs each =>
      obtain ⟨here,rest⟩ := List.cons_subset.mp inside
      rw [visitEachCons]
      split
      · exact each enough rest
      · rename_i new
        obtain ⟨seen₁,first⟩ := @ih b (b :: seen) (by have less := unseenLess here new; omega)
        rw [first]
        have grown := (visitCovers first).grows
        have fewer := @unseenMono α _ pool seen seen₁ (fun x mem => grown (List.mem_cons_of_mem _ mem))
        exact each (by omega) rest

end Citizen.Visit
