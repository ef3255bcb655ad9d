import Citizen.Scripting.SchedulerRuns

/-! `Coroutine.WaitUntil` with a `CancelerToken`. A wait is registered with the scheduler and with its canceler, and what
comes first takes it out of the other. What runs is a stack: a continuation runs inside of `Complete`, which `OnWaited` calls
in an update and `OnCancel` in a `Cancel`, and may do there whatever an event handler may. -/
namespace Citizen.Scripting.Waits

structure Canceler where
  IsCanceled : Bool
  ThrowOnCancelation : Bool
  OnCancel : List Nat
  deriving DecidableEq

/-- `completed` is the state of the wait's coroutine, `ran` how often its continuation has been run, and `since` how many
updates had been entered when it was made. -/
structure Wait where
  time : TimePoint
  canceler : Nat
  completed : Bool
  ran : Nat
  since : Nat
  deriving DecidableEq

inductive Frame where
  | user
  | waited (i : Nat)
  | cancel (c : Nat) (rest : List Nat)
  deriving DecidableEq

structure World where
  scheduler : Scheduler
  cancelers : Nat → Canceler
  waits : List Wait
  stack : List Frame
  returned : List Nat
  threw : Bool

inductive Event where
  | tick (now hostTime : TimePoint)
  | callIn (hostTime : TimePoint)
  | waitUntil (time : TimePoint) (c : Nat)
  | cancel (c : Nat)
  | throwOnCancelation (c : Nat) (value : Bool)
  | schedule (action : Nat)
  | scheduleAt (action : Nat) (time : TimePoint)
  | returns
  | go
  deriving DecidableEq

def onWaited (i : Nat) : Nat := 2 * i
def scripted (action : Nat) : Nat := 2 * action + 1

namespace World

def init : World := ⟨.init,fun _ => ⟨false,false,[]⟩,[],[],[],false⟩

def Complete (w : World) (i : Nat) (below : List Frame) : World :=
  match w.waits[i]? with
  | none => { w with stack := below }
  | some wait =>
    if wait.completed then { w with stack := below }
    else { w with
      waits := w.waits.set i { wait with completed := true, ran := wait.ran + 1 }
      stack := .user :: below }

def setCanceler (w : World) (c : Nat) (canceler : Canceler) : World :=
  { w with cancelers := Function.update w.cancelers c canceler }

def WaitUntil (w : World) (time : TimePoint) (c : Nat) : World :=
  if (w.cancelers c).IsCanceled then
    if (w.cancelers c).ThrowOnCancelation then w
    else { w with waits := w.waits ++ [⟨time,c,true,1,w.scheduler.times.length⟩] }
  else
    { w.setCanceler c { w.cancelers c with OnCancel := (w.cancelers c).OnCancel ++ [w.waits.length] } with
      scheduler := w.scheduler.ScheduleAt (some (onWaited w.waits.length)) time
      waits := w.waits ++ [⟨time,c,false,0,w.scheduler.times.length⟩] }

def Cancel (w : World) (c : Nat) : World :=
  { w.setCanceler c { w.cancelers c with IsCanceled := true } with
    stack := .cancel c (w.cancelers c).OnCancel :: w.stack }

def OnWaited (w : World) (i : Nat) : World := w.Complete i (.waited i :: w.stack)

def unregister (w : World) (i : Nat) : World :=
  match w.waits[i]? with
  | none => w
  | some wait => w.setCanceler wait.canceler
      { w.cancelers wait.canceler with OnCancel := (w.cancelers wait.canceler).OnCancel.erase i }

def OnCancel (w : World) (i c : Nat) (rest : List Nat) (below : List Frame) : World :=
  match w.waits[i]? with
  | none => { w with stack := .cancel c rest :: below }
  | some wait =>
    if wait.time > w.scheduler.CurrentTime then
      Complete { w with scheduler := w.scheduler.Unschedule (onWaited i) wait.time } i (.cancel c rest :: below)
    else { w with stack := below, threw := true }

def begin (w : World) : World :=
  match w.scheduler.phase with
  | .idle => w
  | _ =>
    match w.scheduler.log.getLast? with
    | none => w
    | some ran =>
      if ran.entry.action % 2 = 0 then w.OnWaited (ran.entry.action / 2) else { w with stack := .user :: w.stack }

def go (w : World) : World :=
  match w.stack with
  | [] => if w.scheduler.phase = .idle then w else begin { w with scheduler := w.scheduler.finish }
  | .user :: _ => w
  | .waited i :: below => { w.unregister i with stack := below }
  | .cancel c [] :: below =>
    { w.setCanceler c { w.cancelers c with OnCancel := [] } with stack := below, returned := c :: w.returned }
  | .cancel c (i :: rest) :: below => w.OnCancel i c rest below

def running (w : World) : Bool := w.stack.head? = some .user

def quiet (w : World) : Bool := w.stack = [] && w.scheduler.phase = .idle

end World

def step (w : World) : Event → World
  | .tick now hostTime => if w.quiet then World.begin { w with scheduler := w.scheduler.step (.tick now hostTime) } else w
  | .callIn hostTime =>
    if w.quiet || w.running then { w with scheduler := w.scheduler.callIn hostTime, stack := .user :: w.stack } else w
  | .waitUntil time c => if w.running then w.WaitUntil time c else w
  | .cancel c => if w.running then w.Cancel c else w
  | .throwOnCancelation c value =>
    if w.running then w.setCanceler c { w.cancelers c with ThrowOnCancelation := value } else w
  | .schedule action =>
    if w.running then { w with scheduler := w.scheduler.step (.schedule (some (scripted action))) } else w
  | .scheduleAt action time =>
    if w.running then { w with scheduler := w.scheduler.step (.scheduleAt (some (scripted action)) time) } else w
  | .returns => if w.running then { w with stack := w.stack.tail } else w
  | .go => w.go

/-- Where a `Cancel` has returned, its waits are completed and have no entries; a wait's continuation has run once if it is completed. -/
structure Correct (w : World) : Prop where
  silent : w.threw = false
  afterwards : ∀ c ∈ w.returned,∀ (i : Nat) wait,w.waits[i]? = some wait → wait.canceler = c →
    wait.completed = true ∧ ∀ n ∈ w.scheduler.s_queue,n.2.action ≠ onWaited i
  once : ∀ wait ∈ w.waits,wait.ran = if wait.completed then 1 else 0
  inTime : w.quiet = true → ∀ wait ∈ w.waits,wait.completed = false →
    ∀ (u : Nat) now,wait.since ≤ u → w.scheduler.times[u]? = some now → now < wait.time

def HandlersAhead (w : World) (e : Event) : Prop :=
  e = .go → ∀ c i rest below wait,w.stack = .cancel c (i :: rest) :: below → w.waits[i]? = some wait →
    w.scheduler.CurrentTime < wait.time

end Citizen.Scripting.Waits
