import Mathlib.Data.List.Basic

/-! Functions that recur to a bounded depth: more depth gives the same result, and a loop whose every step
ends at some depth ends at one depth. -/
namespace Citizen.Fuel
variable {σ α β : Type}

def Extends (f g : α → Option β) : Prop := ∀ a b, f a = some b → g a = some b

def Monotone (f : Nat → α → Option β) : Prop := ∀ depth, Extends (f depth) (f (depth + 1))

theorem Monotone.le {f : Nat → α → Option β} (monotone : Monotone f) {small large : Nat} (below : small ≤ large) :
    Extends (f small) (f large) := by
  induction below with
  | refl => exact fun _ _ result => result
  | step _ ih => exact fun a b result => monotone _ a b (ih a b result)

theorem Monotone.same {f : Nat → α → Option β} (monotone : Monotone f) {first second : Nat} {a : α} {b b' : β}
    (left : f first a = some b) (right : f second a = some b') : b = b' := by
  rcases Nat.le_total first second with below | below
  · exact Option.some.inj ((monotone.le below a b left).symm.trans right)
  · exact Option.some.inj (left.symm.trans (monotone.le below a b' right))

theorem extendsFold {f g : σ → α → Option σ} (wider : ∀ s a s', f s a = some s' → g s a = some s') (l : List α) :
    Extends (fun s => l.foldlM f s) (fun s => l.foldlM g s) := by
  induction l with
  | nil => exact fun _ _ result => result
  | cons a rest ih =>
    intro s s' result
    obtain ⟨between,first,later⟩ := Option.bind_eq_some_iff.mp result
    exact Option.bind_eq_some_iff.mpr ⟨between,wider s a between first,ih between s' later⟩

theorem foldEnds {f : Nat → σ → α → Option σ}
    (monotone : ∀ depth s a s', f depth s a = some s' → f (depth + 1) s a = some s') {R : σ → σ → Prop}
    {Q : α → σ → Prop} (refl : ∀ s, R s s) (trans : ∀ {s₁ s₂ s₃}, R s₁ s₂ → R s₂ s₃ → R s₁ s₃)
    (kept : ∀ {a s s'}, R s s' → Q a s → Q a s') {start : σ} {l : List α}
    (each : ∀ s, R start s → ∀ a ∈ l, ∃ depth s', f depth s a = some s' ∧ R s s' ∧ Q a s') {s : σ} (base : R start s) :
    ∃ depth s', l.foldlM (f depth) s = some s' ∧ R s s' ∧ ∀ a ∈ l, Q a s' := by
  induction l generalizing s with
  | nil => exact ⟨0,s,rfl,refl s,fun _ none => absurd none List.not_mem_nil⟩
  | cons a rest ih =>
    obtain ⟨first,between,result,near,done⟩ := each s base a List.mem_cons_self
    obtain ⟨second,s',later,far,others⟩ :=
      ih (fun s reached a mem => each s reached a (List.mem_cons_of_mem _ mem)) (trans base near)
    have step : Monotone (fun depth (input : σ × α) => f depth input.1 input.2) :=
      fun depth input s' result => monotone depth input.1 input.2 s' result
    have loop : Monotone (fun depth s => rest.foldlM (f depth) s) := fun depth => extendsFold (monotone depth) rest
    refine ⟨max first second,s',Option.bind_eq_some_iff.mpr ⟨between,?_,?_⟩,trans near far,fun b mem => ?_⟩
    · exact step.le (Nat.le_max_left first second) (s,a) between result
    · exact loop.le (Nat.le_max_right first second) between s' later
    · rcases List.mem_cons.mp mem with rfl | mem
      · exact kept far done
      · exact others b mem

end Citizen.Fuel
