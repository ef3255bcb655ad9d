import Citizen.Lib.Run
import Mathlib.Order.Nat

/-! `CoroutineRepeat`: a coroutine that is called again each frame until it is stopped. An `Execute` is suspended in
between, so each of its awaits is a state of its own. -/
namespace Citizen.Scripting.CoroutineRepeat

inductive Status where
  | Stopped | Active | Stopping
  deriving DecidableEq, Repr

inductive Loop where
  | scheduled | calling | awaiting | yielding
  deriving DecidableEq, Repr

structure Repeat where
  m_status : Status
  m_stopOnException : Bool
  loops : List Loop
  calls : Nat
  deriving DecidableEq

namespace Repeat

def new (stopOnException : Bool) : Repeat := ⟨.Stopped,stopOnException,[],0⟩

def Schedule (r : Repeat) : Repeat where
  m_status := .Active
  m_stopOnException := r.m_stopOnException
  loops := if r.m_status = .Stopped then r.loops ++ [.scheduled] else r.loops
  calls := r.calls

def Stop (r : Repeat) : Repeat := { r with m_status := .Stopping }

def leave (r : Repeat) (i : Nat) : Repeat := { r with m_status := .Stopped,loops := r.loops.eraseIdx i }

def turn (r : Repeat) (i : Nat) : Repeat :=
  if r.m_status = .Active then { r with loops := r.loops.set i .calling,calls := r.calls + 1 } else r.leave i

inductive Outcome where
  | pending | completed | failed
  deriving DecidableEq, Repr

def await (r : Repeat) (i : Nat) : Outcome → Repeat
  | .pending => { r with loops := r.loops.set i .awaiting }
  | .completed => { r with loops := r.loops.set i .yielding }
  | .failed => if r.m_stopOnException then r.leave i else { r with loops := r.loops.set i .yielding }

end Repeat

/-- `update` runs what the `i`th loop has scheduled; the coroutine that it called `returns` and, if it was pending, `completes`. -/
inductive Event where
  | schedule
  | stop
  | update (i : Nat)
  | returns (i : Nat) (outcome : Repeat.Outcome)
  | completes (i : Nat) (failed : Bool)
  deriving DecidableEq, Repr

def enabled (r : Repeat) : Event → Bool
  | .schedule | .stop => false
  | .update i => r.loops[i]? = some .scheduled || r.loops[i]? = some .yielding
  | .returns i _ => r.loops[i]? = some .calling
  | .completes i _ => r.loops[i]? = some .awaiting

def step (r : Repeat) (e : Event) : Repeat :=
  match e with
  | .schedule => r.Schedule
  | .stop => r.Stop
  | .update i => if enabled r e then r.turn i else r
  | .returns i outcome => if enabled r e then r.await i outcome else r
  | .completes i failed => if enabled r e then r.await i (if failed then .failed else .completed) else r

def stops (r : Repeat) : Event → Bool
  | .stop => true
  | e@(.returns _ .failed) => r.m_stopOnException && enabled r e
  | e@(.completes _ true) => r.m_stopOnException && enabled r e
  | _ => false

def turns : Repeat → List Event → Nat
  | _,[] => 0
  | r,e :: rest => (if enabled r e then 1 else 0) + turns (step r e) rest

structure One (r : Repeat) : Prop where
  most : r.loops.length ≤ 1
  active : r.m_status = .Active → r.loops.length = 1

structure Correct (stopOnException : Bool) (events : List Event) : Prop where
  one : Throughout step One (Repeat.new stopOnException) events
  again : ∀ before since rest, events = before ++ .schedule :: since ++ rest →
    Along step (fun r e => stops r e = false) (run step (Repeat.new stopOnException) (before ++ [.schedule])) (since ++ rest) →
      3 ≤ turns (run step (Repeat.new stopOnException) (before ++ .schedule :: since)) rest →
        (run step (Repeat.new stopOnException) (before ++ .schedule :: since)).calls < (run step (Repeat.new stopOnException) events).calls
  quiet : ∀ before rest, events = before ++ .stop :: rest → .schedule ∉ rest →
    (run step (Repeat.new stopOnException) events).calls = (run step (Repeat.new stopOnException) before).calls

def NotAfterEnd (r : Repeat) (e : Event) : Prop := e = .schedule → ¬(r.m_status = .Stopping ∧ r.loops = [])

inductive Effect (r r' : Repeat) (e : Event) : Prop where
  | same (disabled : enabled r e = false) (same : r' = r)
  | called (i : Nat) (active : r.m_status = .Active) (waiting : r.loops[i]? = some .scheduled ∨ r.loops[i]? = some .yielding)
      (result : r' = { r with loops := r.loops.set i .calling,calls := r.calls + 1 })
  | left (i : Nat) (inside : i < r.loops.length) (because : r.m_status ≠ .Active ∨ stops r e = true) (result : r' = r.leave i)
  | moved (i : Nat) (old new : Loop) (here : r.loops[i]? = some old)
      (onward : old = .calling ∧ (new = .awaiting ∨ new = .yielding) ∨ old = .awaiting ∧ new = .yielding)
      (result : r' = { r with loops := r.loops.set i new })

theorem effect (r : Repeat) (e : Event) (schedule : e ≠ .schedule) (stop : e ≠ .stop) : Effect r (step r e) e := by
  by_cases able : enabled r e = true
  swap
  · refine .same (Bool.eq_false_iff.mpr able) ?_
    cases e with
    | schedule => exact absurd rfl schedule
    | stop => exact absurd rfl stop
    | update i => exact if_neg able
    | returns i outcome => exact if_neg able
    | completes i failed => exact if_neg able
  cases e with
  | schedule => exact absurd rfl schedule
  | stop => exact absurd rfl stop
  | update i =>
    have waiting : r.loops[i]? = some .scheduled ∨ r.loops[i]? = some .yielding := by simpa [enabled] using able
    have stepped : step r (.update i) = r.turn i := if_pos able
    rw [stepped]
    unfold Repeat.turn
    split
    · exact .called i ‹_› waiting rfl
    · refine .left i ?_ (.inl ‹_›) rfl
      rcases waiting with here | here
      · exact (List.getElem?_eq_some_iff.mp here).1
      · exact (List.getElem?_eq_some_iff.mp here).1
  | returns i outcome =>
    have here : r.loops[i]? = some .calling := by simpa [enabled] using able
    have stepped : step r (.returns i outcome) = r.await i outcome := if_pos able
    rw [stepped]
    cases outcome with
    | pending => exact .moved i .calling .awaiting here (.inl ⟨rfl,.inl rfl⟩) rfl
    | completed => exact .moved i .calling .yielding here (.inl ⟨rfl,.inr rfl⟩) rfl
    | failed =>
      change Effect r (if r.m_stopOnException = true then r.leave i else { r with loops := r.loops.set i .yielding }) _
      split
      · exact .left i (List.getElem?_eq_some_iff.mp here).1 (.inr (by simp [stops,able,‹r.m_stopOnException = true›])) rfl
      · exact .moved i .calling .yielding here (.inl ⟨rfl,.inr rfl⟩) rfl
  | completes i failed =>
    have here : r.loops[i]? = some .awaiting := by simpa [enabled] using able
    have stepped : step r (.completes i failed) = r.await i (if failed then .failed else .completed) := if_pos able
    rw [stepped]
    cases failed with
    | false => exact .moved i .awaiting .yielding here (.inr ⟨rfl,rfl⟩) rfl
    | true =>
      change Effect r (if r.m_stopOnException = true then r.leave i else { r with loops := r.loops.set i .yielding }) _
      split
      · exact .left i (List.getElem?_eq_some_iff.mp here).1 (.inr (by simp [stops,able,‹r.m_stopOnException = true›])) rfl
      · exact .moved i .awaiting .yielding here (.inr ⟨rfl,rfl⟩) rfl

structure Single (r : Repeat) : Prop where
  most : r.loops.length ≤ 1
  stopped : r.m_status = .Stopped → r.loops = []

theorem Single.step {r : Repeat} (single : Single r) (e : Event) : Single (CoroutineRepeat.step r e) := by
  by_cases schedule : e = .schedule
  · subst schedule
    refine ⟨?_,nofun⟩
    change (if r.m_status = .Stopped then r.loops ++ [.scheduled] else r.loops).length ≤ 1
    split
    · rw [single.stopped ‹_›]
      exact Nat.le_refl 1
    · exact single.most
  by_cases stop : e = .stop
  · subst stop
    exact ⟨single.most,nofun⟩
  cases effect r e schedule stop with
  | same _ same => rwa [same]
  | called i active _ result =>
    rw [result]
    refine ⟨?_,fun stopped => ?_⟩
    · simpa using single.most
    · exact absurd (active.symm.trans stopped) (by decide)
  | left i inside _ result =>
    have last : r.loops.length = 1 := Nat.le_antisymm single.most (Nat.one_le_of_lt inside)
    have none : (r.leave i).loops.length = 0 := by
      change (r.loops.eraseIdx i).length = 0
      rw [List.length_eraseIdx_of_lt inside,last]
    rw [result]
    exact ⟨none.le.trans (Nat.zero_le 1),fun _ => List.eq_nil_of_length_eq_zero none⟩
  | moved i old new here _ result =>
    rw [result]
    refine ⟨?_,fun stopped => ?_⟩
    · simpa using single.most
    · rw [single.stopped stopped] at here
      cases here

theorem oneExact (r : Repeat) (e : Event) (single : Single r) (one : One r) : One (step r e) ↔ NotAfterEnd r e := by
  have most := (single.step e).most
  by_cases schedule : e = .schedule
  · subst schedule
    have scheduled : (step r .schedule).loops = if r.m_status = .Stopped then r.loops ++ [.scheduled] else r.loops := rfl
    constructor
    · rintro after - ⟨stopping,none⟩
      have alive := after.active rfl
      rw [scheduled,if_neg (by simp [stopping]),none] at alive
      exact absurd alive (by decide)
    · intro fine
      refine ⟨most,fun _ => Nat.le_antisymm most ?_⟩
      rw [scheduled]
      cases status : r.m_status with
      | Stopped => simp
      | Active => simp [one.active status]
      | Stopping =>
        rw [if_neg (by decide)]
        exact List.length_pos_of_ne_nil (fun none => fine rfl ⟨status,none⟩)
  refine iff_of_true ⟨most,fun active => ?_⟩ (fun is => absurd is schedule)
  by_cases stop : e = .stop
  · subst stop
    cases active
  cases effect r e schedule stop with
  | same _ same =>
    rw [same] at active ⊢
    exact one.active active
  | called i active _ result =>
    rw [result]
    simpa using one.active active
  | left i _ _ result =>
    rw [result] at active
    cases active
  | moved i old new _ _ result =>
    rw [result] at active ⊢
    simpa using one.active active

theorem newSingle (stopOnException : Bool) : Single (Repeat.new stopOnException) := ⟨Nat.zero_le 1,fun _ => rfl⟩

theorem newOne (stopOnException : Bool) : One (Repeat.new stopOnException) := ⟨Nat.zero_le 1,nofun⟩

theorem oneThroughout (stopOnException : Bool) (events : List Event) :
    Throughout step One (Repeat.new stopOnException) events ↔ Along step NotAfterEnd (Repeat.new stopOnException) events :=
  throughoutIffAlong Single One (fun _ e single => single.step e) oneExact (newSingle stopOnException) (newOne stopOnException)

def Loop.remaining : Loop → Nat
  | .scheduled | .yielding => 1
  | .awaiting => 2
  | .calling => 3

def Turning (r : Repeat) (l : Loop) : Prop := r.m_status = .Active ∧ r.loops = [l]

theorem Turning.step {r : Repeat} {l : Loop} (turning : Turning r l) (e : Event) (goesOn : stops r e = false) :
    ∃ l', Turning (CoroutineRepeat.step r e) l' ∧
      (r.calls < (CoroutineRepeat.step r e).calls ∨ (CoroutineRepeat.step r e).calls = r.calls ∧
        l'.remaining + (if enabled r e then 1 else 0) ≤ l.remaining) := by
  obtain ⟨active,loops⟩ := turning
  by_cases schedule : e = .schedule
  · subst schedule
    refine ⟨l,⟨rfl,?_⟩,.inr ⟨rfl,Nat.le_refl _⟩⟩
    change (if r.m_status = .Stopped then r.loops ++ [.scheduled] else r.loops) = [l]
    rw [if_neg (by simp [active]),loops]
  by_cases stop : e = .stop
  · subst stop
    cases goesOn
  have only {i : Nat} {old : Loop} (here : r.loops[i]? = some old) : i = 0 ∧ old = l := by
    have inside := (List.getElem?_eq_some_iff.mp here).1
    obtain rfl : i = 0 := by simpa [loops] using inside
    rw [loops] at here
    exact ⟨rfl,(Option.some.inj here).symm⟩
  cases effect r e schedule stop with
  | same disabled same =>
    rw [same,disabled]
    exact ⟨l,⟨active,loops⟩,.inr ⟨rfl,Nat.le_refl _⟩⟩
  | called i _ waiting result =>
    obtain rfl : i = 0 := by
      rcases waiting with here | here
      · exact (only here).1
      · exact (only here).1
    rw [result]
    exact ⟨.calling,⟨active,by simp [loops]⟩,.inl (Nat.lt_succ_self _)⟩
  | left _ _ because _ =>
    rcases because with inactive | stopped
    · exact absurd active inactive
    · exact absurd (goesOn.symm.trans stopped) (by decide)
  | moved i old new here onward result =>
    obtain ⟨rfl,rfl⟩ := only here
    rw [result]
    refine ⟨new,⟨active,by simp [loops]⟩,.inr ⟨rfl,?_⟩⟩
    have closer : new.remaining + 1 ≤ old.remaining := by
      rcases onward with ⟨rfl,rfl | rfl⟩ | ⟨rfl,rfl⟩
      all_goals decide
    split
    · exact closer
    · omega

theorem callsGrow (r : Repeat) (e : Event) : r.calls ≤ (step r e).calls := by
  by_cases schedule : e = .schedule
  · subst schedule
    exact Nat.le_refl _
  by_cases stop : e = .stop
  · subst stop
    exact Nat.le_refl _
  cases effect r e schedule stop with
  | same _ same =>
    rw [same]
  | called _ _ _ result =>
    rw [result]
    exact Nat.le_succ _
  | left _ _ _ result =>
    rw [result]
    exact Nat.le_refl _
  | moved _ _ _ _ _ result =>
    rw [result]

theorem runCallsGrow (r : Repeat) (events : List Event) : r.calls ≤ (run step r events).calls := by
  induction events generalizing r with
  | nil => exact Nat.le_refl _
  | cons e rest ih => exact (callsGrow r e).trans (ih (step r e))

section
variable {r : Repeat} {l : Loop} {events : List Event} (turning : Turning r l)
  (goesOn : Along step (fun r e => stops r e = false) r events)
include turning goesOn

theorem turnsOn : ∃ l', Turning (run step r events) l' ∧
      (r.calls < (run step r events).calls ∨ l'.remaining + turns r events ≤ l.remaining) := by
  induction events generalizing r l with
  | nil => exact ⟨l,turning,.inr (Nat.le_refl _)⟩
  | cons e rest ih =>
    obtain ⟨l',next,progress⟩ := turning.step e goesOn.1
    obtain ⟨last,after,more⟩ := ih next goesOn.2
    refine ⟨last,after,?_⟩
    rcases progress with called | ⟨same,closer⟩
    · exact .inl (called.trans_le (runCallsGrow _ rest))
    rcases more with called | near
    · exact .inl (same ▸ called)
    · refine .inr ?_
      rw [turns]
      omega

theorem callsAgain (enough : 3 ≤ turns r events) : r.calls < (run step r events).calls := by
  obtain ⟨last,-,called | near⟩ := turnsOn turning goesOn
  · exact called
  · have farthest : l.remaining ≤ 3 := by
      cases l
      all_goals decide
    have left : 1 ≤ last.remaining := by
      cases last
      all_goals decide
    omega

end

theorem quietStep (r : Repeat) (e : Event) (inactive : r.m_status ≠ .Active) (schedule : e ≠ .schedule) :
    (step r e).m_status ≠ .Active ∧ (step r e).calls = r.calls := by
  by_cases stop : e = .stop
  · subst stop
    exact ⟨nofun,rfl⟩
  cases effect r e schedule stop with
  | same _ same =>
    rw [same]
    exact ⟨inactive,rfl⟩
  | called _ active _ _ => exact absurd active inactive
  | left _ _ _ result =>
    rw [result]
    exact ⟨nofun,rfl⟩
  | moved _ _ _ _ _ result =>
    rw [result]
    exact ⟨inactive,rfl⟩

theorem quietRun (r : Repeat) (events : List Event) (inactive : r.m_status ≠ .Active) (schedule : .schedule ∉ events) :
    (run step r events).calls = r.calls := by
  induction events generalizing r with
  | nil => rfl
  | cons e rest ih =>
    obtain ⟨still,same⟩ := quietStep r e inactive (fun is => schedule (is ▸ List.mem_cons_self))
    exact (ih (step r e) still (fun mem => schedule (List.mem_cons_of_mem _ mem))).trans same

theorem turningAfter {stopOnException : Bool} {before : List Event}
    (one : One (run step (Repeat.new stopOnException) (before ++ [.schedule]))) :
    ∃ l, Turning (run step (Repeat.new stopOnException) (before ++ [.schedule])) l := by
  have active : (run step (Repeat.new stopOnException) (before ++ [.schedule])).m_status = .Active := by
    rw [runAppend]
    rfl
  obtain ⟨l,only⟩ := List.length_eq_one_iff.mp (one.active active)
  exact ⟨l,active,only⟩

theorem loopExact (stopOnException : Bool) (events : List Event) :
    Correct stopOnException events ↔ Along step NotAfterEnd (Repeat.new stopOnException) events := by
  constructor
  · intro correct
    exact (oneThroughout stopOnException events).mp correct.one
  · intro along
    refine ⟨(oneThroughout stopOnException events).mpr along,?_,?_⟩
    · rintro before since rest rfl goesOn enough
      have split : before ++ Event.schedule :: since ++ rest = (before ++ [.schedule]) ++ (since ++ rest) := by simp
      rw [split] at along
      have one := throughoutLast ((oneThroughout stopOnException _).mpr (alongAppend.mp along).1)
      obtain ⟨l,turning⟩ := turningAfter one
      obtain ⟨goesSince,goesRest⟩ := alongAppend.mp goesOn
      obtain ⟨l',later,-⟩ := turnsOn turning goesSince
      have joined : run step (Repeat.new stopOnException) (before ++ .schedule :: since) =
          run step (run step (Repeat.new stopOnException) (before ++ [.schedule])) since := by
        rw [← runAppend,List.append_assoc]
        rfl
      rw [joined,runAppend _ (before ++ .schedule :: since) rest,joined]
      exact callsAgain later goesRest (joined ▸ enough)
    · rintro before rest rfl schedule
      rw [runAppend]
      exact quietRun _ rest nofun schedule

theorem enabledWithoutLoop : ¬ Correct true [.schedule,.update 0,.returns 0 .failed,.stop,.schedule] := by
  intro correct
  have last := throughoutLast correct.one
  exact absurd (last.active (by decide)) (by decide)

end Citizen.Scripting.CoroutineRepeat
