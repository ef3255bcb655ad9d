import Mathlib.Data.List.Basic

/-! Words between quotes, with an escape before each quote inside. -/
namespace Citizen.Quoting
variable {α : Type} [DecidableEq α]

def escape (q e : α) (w : List α) : List α := w.flatMap (fun c => if c = q then [e,q] else [c])

def quoteWord (q e : α) (w : List α) : List α := q :: (escape q e w ++ [q])

def quoteLine (q e space : α) : List (List α) → List α
  | [] => []
  | [w] => quoteWord q e w
  | w :: next :: rest => quoteWord q e w ++ space :: quoteLine q e space (next :: rest)

variable {q e space : α}

@[simp] theorem escapeNil : escape q e [] = [] := rfl

theorem escapeQuote (w : List α) : escape q e (q :: w) = e :: q :: escape q e w := by
  unfold escape
  rw [List.flatMap_cons,if_pos rfl]
  rfl

theorem escapeOther {c : α} (other : c ≠ q) (w : List α) : escape q e (c :: w) = c :: escape q e w := by
  unfold escape
  rw [List.flatMap_cons,if_neg other]
  rfl

theorem escapeAppend (v w : List α) : escape q e (v ++ w) = escape q e v ++ escape q e w := List.flatMap_append

theorem escapePlain {w : List α} (plain : q ∉ w) : escape q e w = w := by
  induction w with
  | nil => rfl
  | cons c w ih =>
    have other : c ≠ q := fun same => plain (same ▸ List.mem_cons_self)
    rw [escapeOther other,ih (fun mem => plain (List.mem_cons_of_mem _ mem))]

theorem quoteLineStarts (w : List α) (ws : List (List α)) : ∃ tail, quoteLine q e space (w :: ws) = q :: tail := by
  cases ws with
  | nil => exact ⟨_,rfl⟩
  | cons v ws => exact ⟨_,rfl⟩

theorem memEscape {c : α} {w : List α} (mem : c ∈ escape q e w) : c ∈ w ∨ c = e := by
  obtain ⟨d,inside,made⟩ := List.mem_flatMap.mp mem
  split at made
  · rename_i same
    rcases List.mem_cons.mp made with rfl | last
    · exact .inr rfl
    · exact .inl (by rw [List.mem_singleton.mp last,← same]; exact inside)
  · exact .inl (List.mem_singleton.mp made ▸ inside)

theorem memQuoteWord {c : α} {w : List α} (mem : c ∈ quoteWord q e w) : c ∈ w ∨ c = q ∨ c = e := by
  rcases List.mem_cons.mp mem with rfl | mem
  · exact .inr (.inl rfl)
  · rcases List.mem_append.mp mem with mem | last
    · exact (memEscape mem).imp id .inr
    · exact .inr (.inl (List.mem_singleton.mp last))

theorem memQuoteLine {c : α} {ws : List (List α)} (mem : c ∈ quoteLine q e space ws) :
    (∃ w ∈ ws, c ∈ w) ∨ c = q ∨ c = e ∨ c = space := by
  induction ws with
  | nil => cases mem
  | cons w rest ih =>
    have here (mem : c ∈ quoteWord q e w) : (∃ v ∈ w :: rest, c ∈ v) ∨ c = q ∨ c = e ∨ c = space := by
      rcases memQuoteWord mem with inside | same | same
      · exact .inl ⟨w,List.mem_cons_self,inside⟩
      · exact .inr (.inl same)
      · exact .inr (.inr (.inl same))
    cases rest with
    | nil => exact here mem
    | cons next rest =>
      rcases List.mem_append.mp mem with mem | mem
      · exact here mem
      · rcases List.mem_cons.mp mem with rfl | mem
        · exact .inr (.inr (.inr rfl))
        · exact (ih mem).imp (fun ⟨v,among,inside⟩ => ⟨v,List.mem_cons_of_mem _ among,inside⟩) id

end Citizen.Quoting
