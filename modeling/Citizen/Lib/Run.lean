import Mathlib.Data.List.Basic

/-! Runs of a deterministic step function over a list of events, conditions that every
step of a run meets in the state before it, and the invariant rules for both. -/
namespace Citizen

section
variable {σ α : Type} (step : σ → α → σ)

def run (s : σ) (events : List α) : σ := events.foldl step s

/-- Every step of the run meets `ok` in the state it starts from. -/
def Along (ok : σ → α → Prop) : σ → List α → Prop
  | _,[] => True
  | s,e :: rest => ok s e ∧ Along ok (step s e) rest

/-- `P` holds in every state of the run, the first and the last included. -/
def Throughout (P : σ → Prop) : σ → List α → Prop
  | s,[] => P s
  | s,e :: rest => P s ∧ Throughout P (step s e) rest

def Reachable (start s : σ) : Prop := ∃ events, run step start events = s

variable {step}

@[simp] theorem runNil (s : σ) : run step s [] = s := rfl
@[simp] theorem runCons (s : σ) (e : α) (rest) : run step s (e :: rest) = run step (step s e) rest := rfl

theorem runAppend (s : σ) (first second : List α) :
    run step s (first ++ second) = run step (run step s first) second :=
  List.foldl_append

theorem alongAppend {ok : σ → α → Prop} {s : σ} {first second : List α} :
    Along step ok s (first ++ second) ↔ Along step ok s first ∧ Along step ok (run step s first) second := by
  induction first generalizing s with
  | nil => exact ⟨fun along => ⟨trivial,along⟩,fun both => both.2⟩
  | cons e first ih => exact (and_congr_right (fun _ => ih)).trans and_assoc.symm

variable {ok ok' : σ → α → Prop}

theorem alongAnd {s events} (first : Along step ok s events) (second : Along step ok' s events) :
    Along step (fun s e => ok s e ∧ ok' s e) s events := by
  induction events generalizing s with
  | nil => trivial
  | cons e rest ih => exact ⟨⟨first.1,second.1⟩,ih first.2 second.2⟩

theorem alongMono (weaker : ∀ s e, ok s e → ok' s e) {s events}
    (along : Along step ok s events) : Along step ok' s events := by
  induction events generalizing s with
  | nil => trivial
  | cons e rest ih => exact ⟨weaker s e along.1,ih along.2⟩

theorem alongIff (same : ∀ s e, ok s e ↔ ok' s e) {s events} : Along step ok s events ↔ Along step ok' s events := by
  constructor
  · exact alongMono (fun s e => (same s e).mp)
  · exact alongMono (fun s e => (same s e).mpr)

theorem alongIffRelated {τ : Type} {step' : τ → α → τ} (R : σ → τ → Prop) {ok : σ → α → Prop} {ok' : τ → α → Prop}
    (kept : ∀ s t e, R s t → ok s e → R (step s e) (step' t e)) (same : ∀ s t e, R s t → (ok s e ↔ ok' t e)) {s t events}
    (base : R s t) : Along step ok s events ↔ Along step' ok' t events := by
  induction events generalizing s t with
  | nil => exact Iff.rfl
  | cons e rest ih =>
    constructor
    · intro along
      exact ⟨(same s t e base).mp along.1,(ih (kept s t e base along.1)).mp along.2⟩
    · intro along
      have first := (same s t e base).mpr along.1
      exact ⟨first,(ih (kept s t e base first)).mpr along.2⟩

theorem alongIffKept (I : σ → Prop) {ok ok' : σ → α → Prop} (kept : ∀ s e, I s → ok s e → I (step s e))
    (same : ∀ s e, I s → (ok s e ↔ ok' s e)) {s events} (base : I s) :
    Along step ok s events ↔ Along step ok' s events := by
  refine alongIffRelated (fun s t => s = t ∧ I s) (fun s t e both good => ?_) (fun s t e both => ?_) ⟨rfl,base⟩
  · exact ⟨congrArg (step · e) both.1,kept s e both.2 good⟩
  · exact both.1 ▸ same s e both.2

theorem alongOfMem {ok : σ → α → Prop} {s events} (each : ∀ s, ∀ e ∈ events, ok s e) : Along step ok s events := by
  induction events generalizing s with
  | nil => trivial
  | cons e rest ih =>
    exact ⟨each s e List.mem_cons_self,ih (fun s e mem => each s e (List.mem_cons_of_mem _ mem))⟩

theorem alongAlways {s events} : Along step (fun _ _ => True) s events :=
  alongOfMem (fun _ _ _ => trivial)

section
variable (P : σ → Prop) {ok : σ → α → Prop} (kept : ∀ s e, P s → ok s e → P (step s e)) {s events} (base : P s)
  (along : Along step ok s events)
include kept base along

theorem runKeeps : P (run step s events) := by
  induction events generalizing s with
  | nil => exact base
  | cons e rest ih => exact ih (kept s e base along.1) along.2

theorem throughoutOfKept : Throughout step P s events := by
  induction events generalizing s with
  | nil => exact base
  | cons e rest ih => exact ⟨base,ih (kept s e base along.1) along.2⟩

end

theorem alongOfKept (P : σ → Prop) {ok ok' : σ → α → Prop}
    (kept : ∀ s e, P s → ok s e → P (step s e) ∧ ok' s e) {s events} (base : P s)
    (along : Along step ok s events) : Along step ok' s events := by
  induction events generalizing s with
  | nil => trivial
  | cons e rest ih =>
    obtain ⟨next,good⟩ := kept s e base along.1
    exact ⟨good,ih next along.2⟩

theorem throughoutMono {P Q : σ → Prop} (weaker : ∀ s, P s → Q s) {s events}
    (all : Throughout step P s events) : Throughout step Q s events := by
  induction events generalizing s with
  | nil => exact weaker s all
  | cons e rest ih => exact ⟨weaker s all.1,ih all.2⟩

theorem throughoutAnd {P Q : σ → Prop} {s events} (first : Throughout step P s events) (second : Throughout step Q s events) :
    Throughout step (fun s => P s ∧ Q s) s events := by
  induction events generalizing s with
  | nil => exact ⟨first,second⟩
  | cons e rest ih => exact ⟨⟨first.1,second.1⟩,ih first.2 second.2⟩

theorem throughoutFirst {P : σ → Prop} {s events} (all : Throughout step P s events) : P s := by
  cases events with
  | nil => exact all
  | cons _ _ => exact all.1

theorem throughoutIffAlong (I P : σ → Prop) {ok : σ → α → Prop} (kept : ∀ s e, I s → I (step s e))
    (exact : ∀ s e, I s → P s → (P (step s e) ↔ ok s e)) {s events} (base : I s) (holds : P s) :
    Throughout step P s events ↔ Along step ok s events := by
  constructor
  · intro all
    induction events generalizing s with
    | nil => trivial
    | cons e rest ih =>
      have next : P (step s e) := throughoutFirst all.2
      exact ⟨(exact s e base holds).mp next,ih (kept s e base) next all.2⟩
  · intro along
    exact throughoutOfKept (fun s => I s ∧ P s) (fun s e both good =>
      ⟨kept s e both.1,(exact s e both.1 both.2).mpr good⟩) ⟨base,holds⟩ along |>
        throughoutMono (fun _ both => both.2)

theorem throughoutIffAlongKept (I P : σ → Prop) {ok : σ → α → Prop} (kept : ∀ s e, I s → P s → ok s e → I (step s e))
    (exact : ∀ s e, I s → P s → (P (step s e) ↔ ok s e)) {s events} (base : I s) (holds : P s) :
    Throughout step P s events ↔ Along step ok s events := by
  induction events generalizing s with
  | nil => exact iff_of_true holds trivial
  | cons e rest ih =>
    constructor
    · intro all
      have next : P (step s e) := throughoutFirst all.2
      have good := (exact s e base holds).mp next
      exact ⟨good,(ih (kept s e base holds good) next).mp all.2⟩
    · intro along
      have next := (exact s e base holds).mpr along.1
      exact ⟨holds,(ih (kept s e base holds along.1) next).mpr along.2⟩

theorem throughoutIffAlongGiven (P : σ → Prop) {given ok : σ → α → Prop}
    (exact : ∀ s e, P s → given s e → (P (step s e) ↔ ok s e)) {s events} (holds : P s) (along : Along step given s events) :
    Throughout step P s events ↔ Along step ok s events := by
  induction events generalizing s with
  | nil => exact iff_of_true holds trivial
  | cons e rest ih =>
    obtain ⟨here,later⟩ := along
    constructor
    · intro all
      have next : P (step s e) := throughoutFirst all.2
      exact ⟨(exact s e holds here).mp next,(ih next later).mp all.2⟩
    · intro along
      have next := (exact s e holds here).mpr along.1
      exact ⟨holds,(ih next later).mpr along.2⟩

theorem throughoutLast {P : σ → Prop} {s events} (all : Throughout step P s events) : P (run step s events) := by
  induction events generalizing s with
  | nil => exact all
  | cons e rest ih => exact ih all.2

theorem reachableKeeps (P : σ → Prop) (kept : ∀ s e, P s → P (step s e)) {start s}
    (base : P start) (reachable : Reachable step start s) : P s := by
  obtain ⟨events,rfl⟩ := reachable
  induction events generalizing start with
  | nil => exact base
  | cons e rest ih => exact ih (kept start e base)

theorem foldKeeps (P : σ → Prop) {s : σ} {events : List α}
    (kept : ∀ s, ∀ e ∈ events, P s → P (step s e)) (base : P s) : P (events.foldl step s) := by
  induction events generalizing s with
  | nil => exact base
  | cons e rest ih =>
    exact ih (fun s e mem => kept s e (List.mem_cons_of_mem _ mem))
      (kept s e List.mem_cons_self base)

theorem foldSame {β : Type} (view : σ → β) {s : σ} {events : List α}
    (same : ∀ s e, view (step s e) = view s) : view (events.foldl step s) = view s :=
  foldKeeps (fun s' => view s' = view s) (fun s' e _ kept => (same s' e).trans kept) rfl

end
end Citizen
