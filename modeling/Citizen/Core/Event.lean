import Citizen.Lib.Run
import Mathlib.Data.BitVec

/-! `fwEvent`: its ordered list of callbacks, and the firings that go through it while callbacks change it. -/
namespace Citizen.Core

structure Callback where
  id : Nat
  order : Int
  cookie : BitVec 64
  deriving DecidableEq

/-- A call of the event. `next` is the node that the loop goes on with; `invoked` has the running callback in front,
`initial` are the callbacks at the start, and `connected` those at the end. -/
structure Firing where
  initial : List Callback
  next : Option Callback
  invoked : List Callback
  connected : List Callback
  returned : List Bool
  visitsFreed : Bool

structure FwEvent where
  m_callbacks : List Callback
  m_connectCookie : BitVec 64
  allocated : Nat
  running : List Firing
  finished : List Firing

inductive CallbackEvent where
  | connect (order : Int)
  | disconnect (cookie : BitVec 64)
  | fire
  | proceed (returned : Bool)

def Callback.Before (first second : Callback) : Prop :=
  first.order < second.order ∨ first.order = second.order ∧ first.id < second.id

namespace FwEvent

def construct : FwEvent := ⟨[],0,0,[],[]⟩

def insertCallback (cb : Callback) : List Callback → List Callback
  | [] => [cb]
  | cur :: rest => if cur.order ≤ cb.order then cur :: insertCallback cb rest else cb :: cur :: rest

def Connect (s : FwEvent) (order : Int) : FwEvent :=
  { s with
    m_callbacks := insertCallback ⟨s.allocated,order,s.m_connectCookie⟩ s.m_callbacks
    m_connectCookie := s.m_connectCookie + 1
    allocated := s.allocated + 1 }

def Disconnect (s : FwEvent) (cookie : BitVec 64) : FwEvent :=
  if cookie = -1 then s else { s with m_callbacks := s.m_callbacks.eraseP (fun cb => cb.cookie == cookie) }

def nextOf (node : Callback) : List Callback → Option Callback
  | [] => none
  | cb :: rest => if cb = node then rest.head? else nextOf node rest

def fire (s : FwEvent) : FwEvent :=
  match s.m_callbacks with
  | [] => { s with finished := ⟨[],none,[],[],[],false⟩ :: s.finished }
  | cb :: rest => { s with running := ⟨cb :: rest,rest.head?,[cb],[],[],false⟩ :: s.running }

def finish (s : FwEvent) (firing : Firing) (outer : List Firing) : FwEvent :=
  { s with running := outer, finished := { firing with connected := s.m_callbacks } :: s.finished }

def proceed (s : FwEvent) (returned : Bool) : FwEvent :=
  match s.running with
  | [] => s
  | firing :: outer =>
    let firing := { firing with returned := returned :: firing.returned }
    if returned = false then s.finish firing outer
    else
      match firing.next with
      | none => s.finish firing outer
      | some cb =>
        if s.m_callbacks.contains cb = true then
          { s with running := { firing with next := nextOf cb s.m_callbacks, invoked := cb :: firing.invoked } :: outer }
        else s.finish { firing with visitsFreed := true } outer

def step (s : FwEvent) : CallbackEvent → FwEvent
  | .connect order => s.Connect order
  | .disconnect cookie => s.Disconnect cookie
  | .fire => s.fire
  | .proceed returned => s.proceed returned

structure Fired (firing : Firing) : Prop where
  valid : firing.visitsFreed = false
  ordered : firing.invoked.Pairwise (fun later earlier => earlier.Before later)
  calls : firing.returned.length = firing.invoked.length
  stops : ∀ returned ∈ firing.returned.tail, returned = true
  all : firing.returned.head? ≠ some false → ∀ cb ∈ firing.initial, cb ∈ firing.connected → cb ∈ firing.invoked
  stopped : firing.returned.head? = some false → ∀ cb ∈ firing.initial, cb ∈ firing.connected →
    ∀ last ∈ firing.invoked.head?, cb.Before last → cb ∈ firing.invoked

def AllFired (s : FwEvent) : Prop := ∀ firing ∈ s.finished, Fired firing

def NextConnected (s : FwEvent) : CallbackEvent → Prop
  | .proceed true => ∀ firing outer, s.running = firing :: outer → ∀ cb, firing.next = some cb → cb ∈ s.m_callbacks
  | _ => True

structure Underway (callbacks : List Callback) (firing : Firing) : Prop where
  valid : firing.visitsFreed = false
  ordered : firing.invoked.Pairwise (fun later earlier => earlier.Before later)
  calls : firing.returned.length + 1 = firing.invoked.length
  stops : ∀ returned ∈ firing.returned, returned = true
  next : ∀ cb, firing.next = some cb → ∀ current ∈ firing.invoked.head?, current.Before cb
  ahead : ∀ cb ∈ firing.initial, cb ∈ callbacks → cb ∉ firing.invoked →
    ∃ next, firing.next = some next ∧ (cb = next ∨ next.Before cb)

structure Kept (s : FwEvent) : Prop where
  sorted : s.m_callbacks.Pairwise Callback.Before
  allocated : ∀ cb ∈ s.m_callbacks, cb.id < s.allocated
  initial : ∀ firing ∈ s.running, ∀ cb ∈ firing.initial, cb.id < s.allocated
  underway : ∀ firing ∈ s.running, Underway s.m_callbacks firing

variable {s : FwEvent} {firing : Firing} {cb first second third : Callback} {callbacks : List Callback}

theorem beforeTrans (ab : first.Before second) (bc : second.Before third) : first.Before third := by
  rcases ab with less | ⟨same,older⟩
  · rcases bc with less' | ⟨same',_⟩
    · exact .inl (less.trans less')
    · exact .inl (same' ▸ less)
  · rcases bc with less' | ⟨same',older'⟩
    · exact .inl (same ▸ less')
    · exact .inr ⟨same.trans same',older.trans older'⟩

theorem notBefore (ab : first.Before second) : ¬second.Before first := by
  rcases ab with less | ⟨same,older⟩
  · rintro (less' | ⟨same',_⟩)
    · exact absurd (less.trans less') (lt_irrefl _)
    · exact absurd (same' ▸ less) (lt_irrefl _)
  · rintro (less' | ⟨_,older'⟩)
    · exact absurd (same ▸ less') (lt_irrefl _)
    · exact absurd (older.trans older') (lt_irrefl _)

theorem memInsert : first ∈ insertCallback cb callbacks ↔ first = cb ∨ first ∈ callbacks := by
  induction callbacks with
  | nil => exact List.mem_singleton.trans (or_iff_left List.not_mem_nil).symm
  | cons cur rest ih =>
    unfold insertCallback
    split
    · rw [List.mem_cons,ih,List.mem_cons]
      exact or_left_comm
    · rw [List.mem_cons]

section
variable (sorted : callbacks.Pairwise Callback.Before)
include sorted

theorem insertSorted (fresh : ∀ other ∈ callbacks, other.id < cb.id) :
    (insertCallback cb callbacks).Pairwise Callback.Before := by
  induction callbacks with
  | nil => exact List.pairwise_singleton ..
  | cons cur rest ih =>
    obtain ⟨before,sortedRest⟩ := List.pairwise_cons.mp sorted
    unfold insertCallback
    split
    · rename_i lower
      refine List.pairwise_cons.mpr ⟨fun other mem => ?_,ih sortedRest (fun other mem => fresh other (List.mem_cons_of_mem _ mem))⟩
      rcases memInsert.mp mem with rfl | old
      · rcases lower.lt_or_eq with less | same
        · exact .inl less
        · exact .inr ⟨same,fresh cur List.mem_cons_self⟩
      · exact before other old
    · rename_i higher
      have first : cb.Before cur := .inl (not_le.mp higher)
      refine List.pairwise_cons.mpr ⟨fun other mem => ?_,sorted⟩
      rcases List.mem_cons.mp mem with rfl | old
      · exact first
      · exact beforeTrans first (before other old)

theorem nextSplit (mem : cb ∈ callbacks) {other : Callback} (mem' : other ∈ callbacks) :
    other.Before cb ∨ other = cb ∨ ∃ next, nextOf cb callbacks = some next ∧ (other = next ∨ next.Before other) := by
  induction callbacks with
  | nil => cases mem
  | cons cur rest ih =>
    obtain ⟨before,sortedRest⟩ := List.pairwise_cons.mp sorted
    unfold nextOf
    rcases List.mem_cons.mp mem with rfl | inner
    · rw [if_pos rfl]
      rcases List.mem_cons.mp mem' with rfl | later
      · exact .inr (.inl rfl)
      · cases rest with
        | nil => cases later
        | cons next rest =>
          rcases List.mem_cons.mp later with rfl | behind
          · exact .inr (.inr ⟨other,rfl,.inl rfl⟩)
          · exact .inr (.inr ⟨next,rfl,.inr ((List.pairwise_cons.mp sortedRest).1 other behind)⟩)
    · have apart : cur ≠ cb := fun same => notBefore (same ▸ before cb inner) (same ▸ before cb inner)
      rw [if_neg apart]
      rcases List.mem_cons.mp mem' with rfl | later
      · exact .inl (before cb inner)
      · exact ih sortedRest inner later

theorem nextBehind {next : Callback} (follows : nextOf cb callbacks = some next) : cb.Before next := by
  induction callbacks with
  | nil => cases follows
  | cons cur rest ih =>
    obtain ⟨before,sortedRest⟩ := List.pairwise_cons.mp sorted
    unfold nextOf at follows
    split at follows
    · rename_i same
      exact same ▸ before next (List.mem_of_mem_head? follows)
    · exact ih sortedRest follows

end

theorem Underway.changed {callbacks' : List Callback} (underway : Underway callbacks firing)
    (known : ∀ cb ∈ firing.initial, cb ∈ callbacks' → cb ∈ callbacks) : Underway callbacks' firing :=
  ⟨underway.valid,underway.ordered,underway.calls,underway.stops,underway.next,fun cb initial mem =>
    underway.ahead cb initial (known cb initial mem)⟩

theorem Underway.begins {rest : List Callback} (sorted : (cb :: rest).Pairwise Callback.Before) :
    Underway (cb :: rest) ⟨cb :: rest,rest.head?,[cb],[],[],false⟩ where
  valid := rfl
  ordered := List.pairwise_singleton ..
  calls := rfl
  stops := fun _ mem => nomatch mem
  next other follows current head := by
    cases head
    exact (List.pairwise_cons.mp sorted).1 other (List.mem_of_mem_head? follows)
  ahead other initial _ fresh := by
    have later := (List.mem_cons.mp initial).resolve_left (fun same => fresh (same ▸ List.mem_cons_self))
    cases rest with
    | nil => cases later
    | cons next rest =>
      refine ⟨next,rfl,(List.mem_cons.mp later).imp_right (fun behind => ?_)⟩
      exact (List.pairwise_cons.mp (List.pairwise_cons.mp sorted).2).1 other behind

section
variable (underway : Underway callbacks firing)
include underway

theorem Underway.advance (sorted : callbacks.Pairwise Callback.Before)
    (next : firing.next = some cb) (connected : cb ∈ callbacks) :
    Underway callbacks { firing with
      returned := true :: firing.returned, next := nextOf cb callbacks, invoked := cb :: firing.invoked } where
  valid := underway.valid
  ordered := by
    refine List.pairwise_cons.mpr ⟨fun earlier mem => ?_,underway.ordered⟩
    cases invoked : firing.invoked with
    | nil =>
      rw [invoked] at mem
      cases mem
    | cons current rest =>
      have behind : current.Before cb := underway.next cb next current (by rw [invoked]; rfl)
      rw [invoked] at mem
      rcases List.mem_cons.mp mem with rfl | old
      · exact behind
      · have ordered := underway.ordered
        rw [invoked] at ordered
        exact beforeTrans ((List.pairwise_cons.mp ordered).1 earlier old) behind
  calls := congrArg (· + 1) underway.calls
  stops returned mem := by
    rcases List.mem_cons.mp mem with rfl | old
    · rfl
    · exact underway.stops returned old
  next other follows current head := by
    cases head
    exact nextBehind sorted follows
  ahead other initial mem fresh := by
    obtain ⟨own,old⟩ := not_or.mp (List.mem_cons.not.mp fresh)
    obtain ⟨before,same,ahead⟩ := underway.ahead other initial mem old
    cases next.symm.trans same
    rcases nextSplit sorted connected mem with passed | equal | later
    · exact absurd passed (notBefore (ahead.resolve_left own))
    · exact absurd equal own
    · exact later

theorem Underway.ends (next : firing.next = none) :
    Fired { firing with returned := true :: firing.returned, connected := callbacks } where
  valid := underway.valid
  ordered := underway.ordered
  calls := underway.calls
  stops := underway.stops
  all _ cb initial mem := by
    refine Decidable.byContradiction (fun fresh => ?_)
    obtain ⟨_,some,_⟩ := underway.ahead cb initial mem fresh
    exact nomatch next.symm.trans some
  stopped false := nomatch false

theorem Underway.halts :
    Fired { firing with returned := false :: firing.returned, connected := callbacks } where
  valid := underway.valid
  ordered := underway.ordered
  calls := underway.calls
  stops := underway.stops
  all other := absurd rfl other
  stopped _ cb initial mem last head before := by
    refine Decidable.byContradiction (fun fresh => ?_)
    obtain ⟨next,some,ahead⟩ := underway.ahead cb initial mem fresh
    have behind := underway.next next some last head
    rcases ahead with rfl | later
    · exact notBefore behind before
    · exact notBefore (beforeTrans behind later) before

end

section
variable (kept : s.Kept)
include kept

theorem Kept.connect (order : Int) : (s.Connect order).Kept where
  sorted := insertSorted kept.sorted kept.allocated
  allocated cb mem := by
    rcases memInsert.mp mem with rfl | old
    · exact Nat.lt_succ_self _
    · exact (kept.allocated cb old).trans (Nat.lt_succ_self _)
  initial firing mem cb initial := (kept.initial firing mem cb initial).trans (Nat.lt_succ_self _)
  underway firing mem := (kept.underway firing mem).changed (fun cb initial mem' => by
    rcases memInsert.mp mem' with rfl | old
    · exact absurd (kept.initial firing mem _ initial) (Nat.lt_irrefl _)
    · exact old)

theorem Kept.disconnect (cookie : BitVec 64) : (s.Disconnect cookie).Kept := by
  unfold Disconnect
  split
  · exact kept
  · have fewer : (s.m_callbacks.eraseP (fun cb => cb.cookie == cookie)).Sublist s.m_callbacks := List.eraseP_sublist
    exact ⟨kept.sorted.sublist fewer,fun cb mem => kept.allocated cb (fewer.mem mem),kept.initial,fun firing mem =>
      (kept.underway firing mem).changed (fun cb _ mem' => fewer.mem mem')⟩

theorem Kept.fire : s.fire.Kept := by
  unfold FwEvent.fire
  split
  · exact ⟨kept.sorted,kept.allocated,kept.initial,kept.underway⟩
  · rename_i cb rest callbacks
    have begins : Underway s.m_callbacks ⟨cb :: rest,rest.head?,[cb],[],[],false⟩ := by
      rw [callbacks]
      exact .begins (callbacks ▸ kept.sorted)
    refine ⟨kept.sorted,kept.allocated,fun firing mem => ?_,fun firing mem => ?_⟩
    · rcases List.mem_cons.mp mem with rfl | old
      · intro cb' initial
        exact kept.allocated cb' (callbacks ▸ initial)
      · exact kept.initial firing old
    · rcases List.mem_cons.mp mem with rfl | old
      · exact begins
      · exact kept.underway firing old

theorem Kept.inner {outer : List Firing} (running : s.running = firing :: outer) (ended : Firing) :
    (s.finish ended outer).Kept := by
  have subset : ∀ other ∈ outer, other ∈ s.running := by
    intro other mem
    rw [running]
    exact List.mem_cons_of_mem _ mem
  exact ⟨kept.sorted,kept.allocated,fun other mem => kept.initial other (subset other mem),fun other mem =>
    kept.underway other (subset other mem)⟩

theorem Kept.proceed (returned : Bool) : (s.proceed returned).Kept := by
  unfold FwEvent.proceed
  split
  · exact kept
  · rename_i firing outer running
    have mem : firing ∈ s.running := by
      rw [running]
      exact List.mem_cons_self
    cases returned with
    | false => exact kept.inner running _
    | true =>
      rw [if_neg Bool.true_eq_false_eq_False]
      dsimp only
      split
      · exact kept.inner running _
      · rename_i cb next
        split
        · rename_i connected
          rw [List.contains_eq_mem,decide_eq_true_eq] at connected
          refine ⟨kept.sorted,kept.allocated,fun other mem' => ?_,fun other mem' => ?_⟩
          · rcases List.mem_cons.mp mem' with rfl | old
            · exact kept.initial firing mem
            · exact kept.initial other (running ▸ List.mem_cons_of_mem _ old)
          · rcases List.mem_cons.mp mem' with rfl | old
            · exact (kept.underway firing mem).advance kept.sorted next connected
            · exact kept.underway other (running ▸ List.mem_cons_of_mem _ old)
        · exact kept.inner running _

theorem Kept.step (event : CallbackEvent) : (s.step event).Kept := by
  cases event with
  | connect order => exact kept.connect order
  | disconnect cookie => exact kept.disconnect cookie
  | fire => exact kept.fire
  | proceed returned => exact kept.proceed returned

end

theorem allFinish (all : s.AllFired) {ended : Firing} {outer : List Firing} :
    (s.finish ended outer).AllFired ↔ Fired { ended with connected := s.m_callbacks } := by
  unfold AllFired finish
  dsimp only
  rw [List.forall_mem_cons]
  exact and_iff_left all

theorem proceedIff (kept : s.Kept) (all : s.AllFired) (returned : Bool) :
    (s.proceed returned).AllFired ↔ s.NextConnected (.proceed returned) := by
  cases running : s.running with
  | nil =>
    have after : s.proceed returned = s := by
      unfold FwEvent.proceed
      rw [running]
    rw [after]
    refine iff_of_true all ?_
    cases returned with
    | false => trivial
    | true =>
      intro firing outer other
      exact nomatch running.symm.trans other
  | cons firing outer =>
    have underway := kept.underway firing (by rw [running]; exact List.mem_cons_self)
    unfold FwEvent.proceed
    rw [running]
    dsimp only
    cases returned with
    | false =>
      rw [if_pos rfl]
      exact iff_of_true ((allFinish all).mpr underway.halts) trivial
    | true =>
      have only : s.NextConnected (.proceed true) ↔ ∀ cb, firing.next = some cb → cb ∈ s.m_callbacks := by
        refine ⟨fun connected => connected firing outer running,fun connected firing' outer' same => ?_⟩
        cases running.symm.trans same
        exact connected
      rw [if_neg Bool.noConfusion,only]
      cases next : firing.next with
      | none => exact iff_of_true ((allFinish all).mpr (next ▸ underway.ends next)) (fun _ other => nomatch other)
      | some cb =>
        dsimp only
        split
        · rename_i connected
          rw [List.contains_eq_mem,decide_eq_true_eq] at connected
          refine iff_of_true all (fun cb' same => ?_)
          cases same
          exact connected
        · rename_i gone
          rw [List.contains_eq_mem,decide_eq_true_eq] at gone
          exact iff_of_false (fun fired => nomatch ((allFinish all).mp fired).valid) (fun connected => gone (connected cb rfl))

theorem firedIff (kept : s.Kept) (all : s.AllFired) (event : CallbackEvent) :
    (s.step event).AllFired ↔ s.NextConnected event := by
  cases event with
  | connect order => exact iff_of_true all trivial
  | disconnect cookie =>
    refine iff_of_true ?_ trivial
    unfold FwEvent.step Disconnect
    dsimp only
    split
    · exact all
    · exact all
  | fire =>
    refine iff_of_true ?_ trivial
    unfold FwEvent.step FwEvent.fire
    dsimp only
    split
    · intro firing mem
      rcases List.mem_cons.mp mem with rfl | old
      · exact ⟨rfl,List.Pairwise.nil,rfl,fun _ mem => (nomatch mem),fun _ _ mem => (nomatch mem),fun other => (nomatch other)⟩
      · exact all firing old
    · exact all
  | proceed returned => exact proceedIff kept all returned

theorem keptConstruct : construct.Kept :=
  ⟨List.Pairwise.nil,fun _ mem => (nomatch mem),fun _ mem => (nomatch mem),fun _ mem => (nomatch mem)⟩

theorem firingExact (events : List CallbackEvent) :
    Throughout step AllFired construct events ↔ Along step NextConnected construct events :=
  throughoutIffAlong Kept AllFired (fun _ event kept => kept.step event) (fun _ event kept all => firedIff kept all event)
    keptConstruct (fun _ mem => nomatch mem)

theorem freedVisited :
    ¬Throughout step AllFired construct [.connect 0,.connect 0,.fire,.disconnect 1,.proceed true] := by
  intro all
  have last := throughoutLast all
  exact nomatch (last _ List.mem_cons_self).valid

end FwEvent
end Citizen.Core
