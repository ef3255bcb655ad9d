import Mathlib.Data.List.Basic

/-! A replica that is told about its contents by updates of single keys: what it holds
after a log of updates. -/
namespace Citizen

section
variable {κ ν : Type} [DecidableEq κ]

def replay (held : κ → ν) (log : List (κ × ν)) : κ → ν :=
  log.foldl (fun f update => Function.update f update.1 update.2) held

@[simp] theorem replayNil (held : κ → ν) : replay held [] = held := rfl

theorem replayAppend (held : κ → ν) (first second : List (κ × ν)) :
    replay held (first ++ second) = replay (replay held first) second :=
  List.foldl_append

section
variable {held : κ → ν} {log : List (κ × ν)} {k : κ}

theorem replayAbsent (absent : ∀ u ∈ log, u.1 ≠ k) : replay held log k = held k := by
  induction log generalizing held with
  | nil => rfl
  | cons u rest ih =>
    obtain ⟨here,later⟩ := List.forall_mem_cons.mp absent
    exact (ih later).trans (Function.update_of_ne here.symm ..)

end

theorem replayLast (held : κ → ν) (log : List (κ × ν)) (k : κ) (v : ν) :
    replay held (log ++ [(k,v)]) = Function.update (replay held log) k v := by
  rw [replayAppend]
  rfl

end
end Citizen
