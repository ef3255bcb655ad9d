import Citizen.Lib.Agenda
import Citizen.Lib.Run
import Mathlib.Algebra.GroupWithZero.Nat

/-! `Scheduler`, with the shared time that tells the native `MonoScriptRuntime::Tick` when to
call in. An action runs from the moment `Update` comes to it until it returns or throws, and
everything that it does on the way is a step of its own. -/
namespace Citizen.Scripting
open Agenda

abbrev TimePoint := Fin (2^64)

/-- A scheduled action: the number of the call that scheduled it, the time point it asked for, which
is 0 where it gave none, and how many updates had been entered by then. -/
structure Entry where
  id : Nat
  action : Nat
  time : TimePoint
  since : Nat
  deriving DecidableEq, Repr

abbrev Node := TimePoint × Entry

structure Ran where
  entry : Entry
  timed : Bool
  update : Nat
  deriving DecidableEq, Repr

/-- Where `Update` is while an action runs: at the next frame's actions, with those still to come,
or at the timed ones, with the node that it goes on with. -/
inductive Phase where
  | idle
  | nextFrame (timeNow : TimePoint) (rest : List Entry)
  | timed (timeNow : TimePoint) (it : Option Node)
  deriving DecidableEq, Repr

/-- `threw` tells that an exception has left `Update`; `scheduled`, `log`, `unscheduled` and `times` are the history. -/
structure Scheduler where
  CurrentTime : TimePoint
  s_nextFrame : List Entry
  s_queue : List Node
  m_scheduledTime : TimePoint
  clock : TimePoint
  phase : Phase
  threw : Bool
  scheduled : List Entry
  log : List Ran
  unscheduled : List Entry
  times : List TimePoint

inductive Event where
  | callIn (hostTime : TimePoint)
  | schedule (coroutine : Option Nat)
  | scheduleAt (coroutine : Option Nat) (time : TimePoint)
  | unschedule (coroutine : Nat) (time : TimePoint)
  | finish (threw : Bool)
  | tick (now hostTime : TimePoint)
  deriving DecidableEq, Repr

namespace Scheduler

def never : TimePoint := Fin.last (2^64 - 1)

def init : Scheduler := ⟨0,[],[],never,0,.idle,false,[],[],[],[]⟩

def RequestTick (s : Scheduler) (time : TimePoint) : Scheduler :=
  { s with m_scheduledTime := if time < s.m_scheduledTime then time else s.m_scheduledTime }

def RequestTickNextFrame (s : Scheduler) : Scheduler := { s with m_scheduledTime := 0 }

def newEntry (s : Scheduler) (action : Nat) (time : TimePoint) : Entry :=
  ⟨s.scheduled.length,action,time,s.times.length⟩

/-- `Schedule(coroutine)`, where it stands for a `time` that was asked for and has come. Without an
action it throws before it does anything. -/
def ScheduleNextFrame (s : Scheduler) (time : TimePoint) : Option Nat → Scheduler
  | none => s
  | some coroutine => RequestTickNextFrame { s with
      s_nextFrame := s.s_nextFrame ++ [s.newEntry coroutine time]
      scheduled := s.scheduled ++ [s.newEntry coroutine time] }

def Schedule (s : Scheduler) (coroutine : Option Nat) : Scheduler := s.ScheduleNextFrame 0 coroutine

def ScheduleAt (s : Scheduler) (coroutine : Option Nat) (time : TimePoint) : Scheduler :=
  if time ≤ s.CurrentTime then s.ScheduleNextFrame time coroutine else
  match coroutine with
  | none => s
  | some coroutine =>
    let added := { s with
      s_queue := insertBefore s.s_queue (time,s.newEntry coroutine time)
      scheduled := s.scheduled ++ [s.newEntry coroutine time] }
    match s.s_queue with
    | [] => added.RequestTick time
    | it :: _ => if time < it.1 then added.RequestTick time else added

def findNode (coroutine : Nat) (time : TimePoint) : List Node → Option Node
  | [] => none
  | it :: rest =>
    if it.1 > time then none
    else if it.2.action = coroutine then some it
    else findNode coroutine time rest

-- For a time that is not after `CurrentTime` it throws.
def Unschedule (s : Scheduler) (coroutine : Nat) (time : TimePoint) : Scheduler :=
  if time > s.CurrentTime then
    match findNode coroutine time s.s_queue with
    | none => s
    | some it => { s with s_queue := s.s_queue.erase it, unscheduled := s.unscheduled ++ [it.2] }
  else s

def run (s : Scheduler) (entry : Entry) (timed : Bool) (phase : Phase) : Scheduler :=
  { s with log := s.log ++ [⟨entry,timed,s.times.length - 1⟩], phase := phase }

/-- The loop over `s_queue`, from its head to the call of the next action. `Remove` throws for a
node that is not in the list any more, and this is outside of the `try`. -/
def runTimed (s : Scheduler) (timeNow : TimePoint) : Option Node → Scheduler
  | none => { s with phase := .idle }
  | some it =>
    if it.1 ≤ timeNow then
      if it ∈ s.s_queue then
        let removed := { s with s_queue := s.s_queue.erase it }
        removed.run it.2 true (.timed timeNow removed.s_queue.head?)
      else { s with phase := .idle, threw := true }
    else { s.RequestTick it.1 with phase := .idle }

def runNextFrame (s : Scheduler) (timeNow : TimePoint) : List Entry → Scheduler
  | [] => s.runTimed timeNow s.s_queue.head?
  | entry :: rest => s.run entry false (.nextFrame timeNow rest)

def Update (s : Scheduler) : Scheduler :=
  runNextFrame { s with s_nextFrame := [], times := s.times ++ [s.CurrentTime] } s.CurrentTime s.s_nextFrame

def finish (s : Scheduler) : Scheduler :=
  match s.phase with
  | .idle => s
  | .nextFrame timeNow rest => s.runNextFrame timeNow rest
  | .timed timeNow it => s.runTimed timeNow it

def callIn (s : Scheduler) (hostTime : TimePoint) : Scheduler :=
  { s with clock := max s.clock hostTime, CurrentTime := max s.clock hostTime }

def Tick (s : Scheduler) (now hostTime : TimePoint) : Scheduler :=
  if max s.clock now < s.m_scheduledTime then { s with clock := max s.clock now }
  else Update (callIn { s with clock := max s.clock now, m_scheduledTime := never } hostTime)

-- The native side does not tick while it is in a call.
def step (s : Scheduler) : Event → Scheduler
  | .callIn hostTime => s.callIn hostTime
  | .schedule coroutine => s.Schedule coroutine
  | .scheduleAt coroutine time => s.ScheduleAt coroutine time
  | .unschedule coroutine time => s.Unschedule coroutine time
  | .finish _ => s.finish
  | .tick now hostTime => if s.phase = .idle then s.Tick now hostTime else s

def coming (s : Scheduler) : List Entry :=
  match s.phase with
  | .nextFrame _ rest => rest
  | _ => []

def pending (s : Scheduler) : List Entry := s.coming ++ s.s_nextFrame ++ s.s_queue.map Prod.snd

end Scheduler
end Citizen.Scripting
