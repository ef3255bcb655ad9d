import Citizen.Lib.Run
import Mathlib.Data.Finset.Basic

/-! `ObjectIdManager` of the client, with the removals that `CloneManager` waits for: which object IDs are free, which are in
use, and which become free when the server has acknowledged a removal. -/
namespace Citizen.Clone.ObjectIdPool

abbrev ObjectId := BitVec 16
abbrev Uniqifier := BitVec 16

structure Pool where
  g_objectIds : List ObjectId
  g_usedObjectIds : Finset ObjectId
  g_stolenObjectIds : Finset ObjectId
  m_pendingRemoveAcks : Finset (ObjectId × Uniqifier)
  m_pendingConfirmObjectIds : Finset ObjectId

namespace Pool

def init : Pool := ⟨[],∅,∅,∅,∅⟩

def AssignObjectId (p : Pool) : ObjectId × Pool :=
  match p.g_objectIds with
  | [] => (0,p)
  | objectId :: rest => (objectId,{ p with
      g_objectIds := rest
      g_stolenObjectIds := p.g_stolenObjectIds.erase objectId
      g_usedObjectIds := insert objectId p.g_usedObjectIds })

def IsRemovingObjectId (p : Pool) (objectId : ObjectId) : Bool × Pool :=
  if (p.m_pendingRemoveAcks.filter (fun ack => ack.1 = objectId)).Nonempty then
    (true,{ p with m_pendingConfirmObjectIds := insert objectId p.m_pendingConfirmObjectIds })
  else (false,p)

def ReturnObjectId (p : Pool) (objectId : ObjectId) : Pool :=
  if objectId ∈ p.g_usedObjectIds then
    let p := { p with g_usedObjectIds := p.g_usedObjectIds.erase objectId }
    let p :=
      if objectId ∉ p.g_stolenObjectIds then
        let (indeed,p) := p.IsRemovingObjectId objectId
        if !indeed then { p with g_objectIds := p.g_objectIds ++ [objectId] } else p
      else p
    { p with g_stolenObjectIds := p.g_stolenObjectIds.erase objectId }
  else p

def AddObjectId (p : Pool) (objectId : ObjectId) : Pool where
  g_objectIds := p.g_objectIds.erase objectId
  g_usedObjectIds := insert objectId p.g_usedObjectIds
  g_stolenObjectIds := if p.g_objectIds.contains objectId then p.g_stolenObjectIds else insert objectId p.g_stolenObjectIds
  m_pendingRemoveAcks := p.m_pendingRemoveAcks
  m_pendingConfirmObjectIds := p.m_pendingConfirmObjectIds

def ConfirmObjectId (p : Pool) (objectId : ObjectId) : Pool := { p with g_objectIds := p.g_objectIds ++ [objectId] }

def StealObjectId (p : Pool) (objectId : ObjectId) : Pool :=
  if objectId ∈ p.g_usedObjectIds then { p with g_stolenObjectIds := insert objectId p.g_stolenObjectIds }
  else { p with g_objectIds := p.g_objectIds.erase objectId }

def RemoveObjectId (p : Pool) (objectId : ObjectId) : Pool :=
  { p with g_usedObjectIds := p.g_usedObjectIds.erase objectId, g_stolenObjectIds := p.g_stolenObjectIds.erase objectId }

def sure (p : Pool) (objId : ObjectId) : Pool :=
  if objId ∈ p.m_pendingConfirmObjectIds then
    { p.ConfirmObjectId objId with m_pendingConfirmObjectIds := p.m_pendingConfirmObjectIds.erase objId }
  else p

def ProcessRemoveAck (p : Pool) (objId : ObjectId) (uniqifier : Uniqifier) : Pool :=
  if uniqifier = 0 then
    sure { p with m_pendingRemoveAcks := p.m_pendingRemoveAcks.filter (fun ack => ack.1 ≠ objId) } objId
  else sure { p with m_pendingRemoveAcks := p.m_pendingRemoveAcks.erase (objId,uniqifier) } objId

def Process (p : Pool) (ids : List ObjectId) : Pool :=
  ids.foldl (fun p objectId => { p with
    g_objectIds := p.g_objectIds ++ [objectId], g_stolenObjectIds := p.g_stolenObjectIds.erase objectId }) p

end Pool

/-- `deleted` is the deletion of an object that the server knows, `stillAlive` a removal by the server that steals the ID,
`reset` that of the clone manager and `kill` the end of the network game. -/
inductive Event where
  | assign
  | returned (objectId : ObjectId)
  | add (objectId : ObjectId)
  | steal (objectId : ObjectId)
  | remove (objectId : ObjectId)
  | deleted (objectId : ObjectId) (uniqifier : Uniqifier)
  | stillAlive (objectId : ObjectId)
  | removeAck (objectId : ObjectId) (uniqifier : Uniqifier)
  | ids (ids : List ObjectId)
  | reset
  | kill
  deriving DecidableEq

def step (p : Pool) : Event → Pool
  | .assign => p.AssignObjectId.2
  | .returned objectId => p.ReturnObjectId objectId
  | .add objectId => p.AddObjectId objectId
  | .steal objectId => p.StealObjectId objectId
  | .remove objectId => p.RemoveObjectId objectId
  | .deleted objectId uniqifier => { p with m_pendingRemoveAcks := insert (objectId,uniqifier) p.m_pendingRemoveAcks }
  | .stillAlive objectId =>
    Pool.StealObjectId { p with m_pendingConfirmObjectIds := p.m_pendingConfirmObjectIds.erase objectId } objectId
  | .removeAck objectId uniqifier => p.ProcessRemoveAck objectId uniqifier
  | .ids ids => p.Process ids
  | .reset => { p with m_pendingRemoveAcks := ∅, m_pendingConfirmObjectIds := ∅ }
  | .kill => { p with g_objectIds := [], g_usedObjectIds := ∅, g_stolenObjectIds := ∅ }

structure Exclusive (p : Pool) : Prop where
  once : p.g_objectIds.Nodup
  unused : ∀ objectId ∈ p.g_objectIds,objectId ∉ p.g_usedObjectIds

def Fresh (p : Pool) (e : Event) : Prop :=
  e = .assign → p.g_objectIds ≠ [] → p.AssignObjectId.1 ∉ p.g_usedObjectIds

structure Correct (events : List Event) : Prop where
  exclusive : Throughout step Exclusive Pool.init events
  fresh : Along step Fresh Pool.init events

def Granted (p : Pool) (e : Event) : Prop :=
  ∀ ids,e = .ids ids → ids.Nodup ∧ ∀ objectId ∈ ids,objectId ∉ p.g_objectIds ∧ objectId ∉ p.g_usedObjectIds

def Confirmed (p : Pool) (e : Event) : Prop :=
  ∀ objectId uniqifier,e = .removeAck objectId uniqifier → objectId ∈ p.m_pendingConfirmObjectIds →
    objectId ∉ p.g_objectIds ∧ objectId ∉ p.g_usedObjectIds

section
variable {p : Pool} {objectId : ObjectId}

theorem Exclusive.push (exclusive : Exclusive p) (free : objectId ∉ p.g_objectIds) (unused : objectId ∉ p.g_usedObjectIds) :
    Exclusive (p.ConfirmObjectId objectId) where
  once := List.nodup_append.mpr ⟨exclusive.once,List.nodup_singleton _,fun a mem b last => by
    rw [List.mem_singleton.mp last]
    exact ne_of_mem_of_not_mem mem free⟩
  unused other mem := by
    rcases List.mem_append.mp mem with old | new
    · exact exclusive.unused other old
    · rw [List.mem_singleton.mp new]
      exact unused

theorem Exclusive.less {p' : Pool} (exclusive : Exclusive p) (free : p'.g_objectIds.Sublist p.g_objectIds)
    (used : p'.g_usedObjectIds ⊆ p.g_usedObjectIds) : Exclusive p' where
  once := exclusive.once.sublist free
  unused other mem inUse := exclusive.unused other (free.subset mem) (used inUse)

section
variable (exclusive : Exclusive p)
include exclusive

theorem Exclusive.assign : Exclusive p.AssignObjectId.2 := by
  unfold Pool.AssignObjectId
  split
  · exact exclusive
  · rename_i first rest free
    obtain ⟨away,once⟩ := List.nodup_cons.mp (free ▸ exclusive.once)
    refine ⟨once,fun other mem inUse => ?_⟩
    rcases Finset.mem_insert.mp inUse with rfl | old
    · exact away mem
    · exact exclusive.unused other (free ▸ List.mem_cons_of_mem _ mem) old

variable (objectId : ObjectId)

theorem Exclusive.returned : Exclusive (p.ReturnObjectId objectId) := by
  unfold Pool.ReturnObjectId
  split
  swap
  · exact exclusive
  rename_i inUse
  have away : objectId ∉ p.g_objectIds := fun mem => exclusive.unused objectId mem inUse
  have less : Exclusive { p with g_usedObjectIds := p.g_usedObjectIds.erase objectId } :=
    exclusive.less (List.Sublist.refl _) (Finset.erase_subset _ _)
  dsimp only
  split
  · unfold Pool.IsRemovingObjectId
    split
    · exact ⟨less.once,less.unused⟩
    · have pushed := less.push away (Finset.notMem_erase objectId p.g_usedObjectIds)
      exact ⟨pushed.once,pushed.unused⟩
  · exact ⟨less.once,less.unused⟩

theorem Exclusive.add : Exclusive (p.AddObjectId objectId) where
  once := exclusive.once.erase objectId
  unused other mem inUse := by
    obtain ⟨different,old⟩ := (exclusive.once.mem_erase_iff).mp mem
    rcases Finset.mem_insert.mp inUse with same | inUse
    · exact different same
    · exact exclusive.unused other old inUse

theorem Exclusive.steal : Exclusive (p.StealObjectId objectId) := by
  unfold Pool.StealObjectId
  split
  · exact ⟨exclusive.once,exclusive.unused⟩
  · exact exclusive.less List.erase_sublist (Finset.Subset.refl _)

theorem Exclusive.process {ids : List ObjectId} (distinct : ids.Nodup)
    (unheld : ∀ objectId ∈ ids,objectId ∉ p.g_objectIds ∧ objectId ∉ p.g_usedObjectIds) : Exclusive (p.Process ids) := by
  unfold Pool.Process
  induction ids generalizing p with
  | nil => exact exclusive
  | cons objectId rest ih =>
    obtain ⟨away,distinct⟩ := List.nodup_cons.mp distinct
    obtain ⟨free,unused⟩ := unheld objectId List.mem_cons_self
    have pushed := exclusive.push free unused
    refine ih ⟨pushed.once,pushed.unused⟩ distinct (fun other mem => ?_)
    obtain ⟨free,unused⟩ := unheld other (List.mem_cons_of_mem _ mem)
    refine ⟨fun inside => ?_,unused⟩
    rcases List.mem_append.mp inside with old | new
    · exact free old
    · exact away (List.mem_singleton.mp new ▸ mem)

theorem removeAckExact (uniqifier : Uniqifier) : Exclusive (p.ProcessRemoveAck objectId uniqifier) ↔
      (objectId ∈ p.m_pendingConfirmObjectIds → objectId ∉ p.g_objectIds ∧ objectId ∉ p.g_usedObjectIds) := by
  have acked (acks : Finset (ObjectId × Uniqifier)) : Exclusive (Pool.sure { p with m_pendingRemoveAcks := acks } objectId) ↔
      (objectId ∈ p.m_pendingConfirmObjectIds → objectId ∉ p.g_objectIds ∧ objectId ∉ p.g_usedObjectIds) := by
    unfold Pool.sure
    split
    · rename_i waits
      constructor
      · intro after _
        obtain ⟨-,-,apart⟩ := List.nodup_append.mp after.once
        exact ⟨fun mem => apart objectId mem objectId (List.mem_singleton_self _) rfl,
          after.unused objectId (List.mem_append_right _ (List.mem_singleton_self _))⟩
      · intro confirmed
        obtain ⟨free,unused⟩ := confirmed waits
        have pushed := exclusive.push free unused
        exact ⟨pushed.once,pushed.unused⟩
    · rename_i none
      exact iff_of_true ⟨exclusive.once,exclusive.unused⟩ (fun waits => absurd waits none)
  unfold Pool.ProcessRemoveAck
  split
  · exact acked _
  · exact acked _

end

theorem stepExact (e : Event) (exclusive : Exclusive p) (granted : Granted p e) : Exclusive (step p e) ↔ Confirmed p e := by
  cases e with
  | removeAck objectId uniqifier =>
    refine (removeAckExact exclusive objectId uniqifier).trans ⟨?_,fun confirmed => confirmed objectId uniqifier rfl⟩
    rintro confirmed _ _ ⟨⟩
    exact confirmed
  | assign => exact iff_of_true exclusive.assign nofun
  | returned objectId => exact iff_of_true (exclusive.returned objectId) nofun
  | add objectId => exact iff_of_true (exclusive.add objectId) nofun
  | steal objectId => exact iff_of_true (exclusive.steal objectId) nofun
  | remove objectId =>
    exact iff_of_true (exclusive.less (List.Sublist.refl _) (Finset.erase_subset _ _)) nofun
  | deleted objectId uniqifier => exact iff_of_true ⟨exclusive.once,exclusive.unused⟩ nofun
  | stillAlive objectId =>
    have unconfirmed : Exclusive { p with m_pendingConfirmObjectIds := p.m_pendingConfirmObjectIds.erase objectId } :=
      ⟨exclusive.once,exclusive.unused⟩
    exact iff_of_true (unconfirmed.steal objectId) nofun
  | ids ids =>
    obtain ⟨distinct,unheld⟩ := granted ids rfl
    exact iff_of_true (exclusive.process distinct unheld) nofun
  | reset => exact iff_of_true ⟨exclusive.once,exclusive.unused⟩ nofun
  | kill => exact iff_of_true ⟨List.nodup_nil,nofun⟩ nofun

theorem Exclusive.fresh (exclusive : Exclusive p) (e : Event) : Fresh p e := by
  rintro - some
  unfold Pool.AssignObjectId
  split
  · rename_i none
    exact absurd none some
  · rename_i first rest free
    exact exclusive.unused first (free ▸ List.mem_cons_self)

end

theorem initExclusive : Exclusive Pool.init := ⟨List.nodup_nil,nofun⟩

theorem exclusiveExact (events : List Event) (granted : Along step Granted Pool.init events) :
    Correct events ↔ Along step Confirmed Pool.init events := by
  have exact := throughoutIffAlongGiven Exclusive (fun p e exclusive => stepExact e exclusive) initExclusive granted
  refine ⟨fun correct => exact.mp correct.exclusive,fun confirmed => ⟨exact.mpr confirmed,?_⟩⟩
  refine alongOfKept Exclusive (fun p e exclusive both => ?_) initExclusive (alongAnd granted confirmed)
  exact ⟨(stepExact e exclusive both.1).mpr both.2,exclusive.fresh e⟩

theorem confirmedThenAssigned : Correct [.ids [5],.assign,.deleted 5 1,.returned 5,.removeAck 5 1,.assign] := by
  have granted : Along step Granted Pool.init [.ids [5],.assign,.deleted 5 1,.returned 5,.removeAck 5 1,.assign] := by
    refine ⟨fun ids same => ?_,nofun,nofun,nofun,nofun,nofun,trivial⟩
    obtain rfl := Event.ids.inj same
    exact ⟨List.nodup_singleton 5,fun objectId _ => ⟨List.not_mem_nil,Finset.notMem_empty objectId⟩⟩
  refine (exclusiveExact _ granted).mpr ⟨nofun,nofun,nofun,nofun,fun objectId uniqifier same => ?_,nofun,trivial⟩
  obtain ⟨rfl,rfl⟩ := Event.removeAck.inj same
  decide +kernel

theorem migratedBack :
    Along step Granted Pool.init [.ids [5],.assign,.deleted 5 1,.returned 5,.add 5,.removeAck 5 1] ∧
      ¬ Correct [.ids [5],.assign,.deleted 5 1,.returned 5,.add 5,.removeAck 5 1] := by
  constructor
  · refine ⟨fun ids same => ?_,nofun,nofun,nofun,nofun,nofun,trivial⟩
    obtain rfl := Event.ids.inj same
    exact ⟨List.nodup_singleton 5,fun objectId _ => ⟨List.not_mem_nil,Finset.notMem_empty objectId⟩⟩
  · intro correct
    exact (throughoutLast correct.exclusive).unused 5 (by decide +kernel) (by decide +kernel)

end Citizen.Clone.ObjectIdPool
