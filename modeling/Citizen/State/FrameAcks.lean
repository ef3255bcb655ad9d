import Citizen.State.Ownership

/-! Clients that come and go. A drop has three steps: the client is marked as dropping,
the main thread takes it out of the registry and posts `HandleClientDrop`, and the sync
thread runs that. The slot is free for another client from the second step on. -/
namespace Citizen.State
namespace Server

def freeSlot (s : Server) : Nat → Option Slot
  | 0 => none
  | slot + 1 =>
    if slot ≠ 31 ∧ s.GetClientBySlotID slot = none then some slot else s.freeSlot slot

def connectClient (s : Server) : Server :=
  let client := s.nextNetId
  { s with
    nextNetId := s.nextNetId + 1
    slotId := Function.update s.slotId client (s.freeSlot (initSlot s.bigMode + 1))
    data := Function.update s.data client .init
    registry := s.registry ++ [client] }

def dropClient (s : Server) (client : ClientId) : Server :=
  { s with dropping := insert client s.dropping }

def RemoveClient (s : Server) (client : ClientId) : Server :=
  if client ∈ s.registry then
    { s with
      drops := s.drops ++ [(client,s.slotId client)]
      registry := s.registry.erase client
      dropping := s.dropping.erase client
      slotId := Function.update s.slotId client none }
  else s

def firstOwnerLeft (s : Server) (client : ClientId) (e : EntityRef) : Server :=
  if (s.entity e).firstOwner = some client then
    s.modifyEntity e (fun x => { x with firstOwnerDropped := true })
  else s

def clearSlot (s : Server) (slotId : Option Slot) (e : EntityRef) : Server :=
  match slotId with
  | none => s
  | some slot => s.modifyEntity e (fun x => { x with
      relevantTo := x.relevantTo.erase slot
      deletedFor := x.deletedFor.erase slot
      outOfScopeFor := x.outOfScopeFor.erase slot
      lastFramesSent := Function.update x.lastFramesSent slot 0 })

def dropFromEntity (now : Nat) (distance : ClientId → EntityRef → Nat) (client : ClientId)
    (slotId : Option Slot) (acc : Server × List Nat) (e : EntityRef) : Server × List Nat :=
  let marked := acc.1.firstOwnerLeft client e
  let markedForDeletion := (marked.entity e).firstOwner = some client ∧
    (marked.entity e).orphanMode = .DeleteOnOwnerDisconnect
  let cleared := marked.clearSlot slotId e
  if markedForDeletion then (cleared,(cleared.entity e).handle :: acc.2) else
  let firstOwner := (cleared.entity e).firstOwner
  match cleared.MoveEntityToCandidate now distance e client with
  | (true,moved) => (moved,acc.2)
  | (false,kept) =>
    if (kept.entity e).IsOwnedByClientScript ∧ (kept.entity e).firstOwnerDropped = false then
      (kept.ReassignEntity now firstOwner (kept.entity e).handle,acc.2)
    else (kept,(kept.entity e).handle :: acc.2)

def HandleClientDrop (now : Nat) (distance : ClientId → EntityRef → Nat) (s : Server)
    (client : ClientId) (slotId : Option Slot) : Server :=
  let left := if s.bigMode then s.allClients.foldl (leaveScope client) s else s
  let dropped := left.entityList.foldl (dropFromEntity now distance client slotId) (left,[])
  let removed := dropped.2.foldl RemoveClone dropped.1
  { removed with objectIdsSent := removed.objectIdsSent \ (removed.data client).objectIds }

def freeClient (s : Server) (client : ClientId) : Server :=
  { s with entity := fun e => (s.entity e).forget client }

def runDrop (s : Server) (now : Nat) (distance : ClientId → EntityRef → Nat) : Server :=
  match s.drops with
  | [] => s
  | (client,slotId) :: rest =>
    { (s.HandleClientDrop now distance client slotId).freeClient client with drops := rest }

def runRemoval (s : Server) : Server :=
  match s.removals with
  | [] => s
  | e :: rest => { s.doRemove e with removals := rest }

end Server

/-! What clients report about the frames they got: `HandleGameStateNAck`, which corrects
the saved tables of the missing frames and of the newer ones, and `HandleGameStateAck`. -/

structure GameStateNAck where
  flags : Nat
  frameIndex : Nat
  firstMissingFrame : Nat
  lastMissingFrame : Nat
  ignoreList : List (Nat × Nat)
  recreateList : List Nat
  deriving DecidableEq, Repr

structure GameStateAck where
  frameIndex : Nat
  ignoreList : List (Nat × Nat)
  recreateList : List Nat
  deriving DecidableEq, Repr

namespace Server

def lockEntity (s : Server) (data : ClientEntityData) : Option EntityRef :=
  if s.alive data.entityWeak then some data.entityWeak else none

def nackCreate (s : Server) (client : ClientId) (identPair : IdentPair) : Server :=
  s.setSynced client ((s.data client).syncedEntities.adjust identPair
    (fun d => { d with hasCreated := false, hasNAckedCreate := true }))

def lowerBase (s : Server) (e : EntityRef) (slot : Slot) (lastSent : Nat) : Server :=
  s.modifyEntity e (fun x => { x with
    lastFramesSent := Function.update x.lastFramesSent slot (min lastSent (x.lastFramesSent slot)) })

def nackEntry (client : ClientId) (slot : Slot) (acc : Server × Table Nat Nat)
    (entry : Σ _ : Nat, ClientEntityData) : Server × Table Nat Nat :=
  match acc.1.lockEntity entry.2 with
  | none => acc
  | some ent =>
    if entry.2.isCreated = false then
      (acc.1.nackCreate client (entry.1,(acc.1.entity ent).uniqifier),acc.2)
    else
      let lowered := acc.1.lowerBase ent slot entry.2.lastSent
      (lowered,acc.2.insert entry.1 ((lowered.entity ent).lastFramesSent slot))

def repeatDeletion (client : ClientId) (s : Server) (deletion : IdentPair × EntityDeletionData) : Server :=
  s.setToDestroy client ((s.data client).entitiesToDestroy.insert deletion.1 (none,deletion.2))

def nackFrame (client : ClientId) (slot : Slot) (acc : Server × Table Nat Nat)
    (frame : ClientEntityState) : Server × Table Nat Nat :=
  let corrected := frame.syncedEntities.entries.foldl (nackEntry client slot) acc
  (frame.deletions.foldl (repeatDeletion client) corrected.1,corrected.2)

/-- The missing frames from the last to the first. A frame that is not saved any more
drops the client, and the result is empty. -/
def nackFrames (client : ClientId) (slot : Slot) (firstMissingFrame : Nat) :
    Nat → Server × Table Nat Nat → Server × Option (Table Nat Nat)
  | 0,acc => (acc.1,some acc.2)
  | count + 1,acc =>
    match (acc.1.data client).frameStates.lookup (firstMissingFrame + count) with
    | none => (acc.1.dropClient client,none)
    | some frame => nackFrames client slot firstMissingFrame count (nackFrame client slot acc frame)

def correctFrame (corrections : Table Nat Nat) (frame : ClientEntityState) : ClientEntityState :=
  { frame with syncedEntities := frame.syncedEntities.mapValues (fun objectId data =>
      match corrections.lookup objectId with
      | none => data
      | some correction => { data with lastSent := correction }) }

def propagate (s : Server) (client : ClientId) (lastMissingFrame : Nat) (corrections : Table Nat Nat) : Server :=
  s.modifyData client (fun d => { d with
    frameStates := d.frameStates.mapValues (fun index frame =>
      if index > lastMissingFrame then correctFrame corrections frame else frame) })

def nackMissing (s : Server) (client : ClientId) (slot : Slot) (packet : GameStateNAck) : Server × Bool :=
  let walked := nackFrames client slot packet.firstMissingFrame
    (packet.lastMissingFrame + 1 - packet.firstMissingFrame) (s,∅)
  match walked.2 with
  | none => (walked.1,false)
  | some corrections => (walked.1.propagate client packet.lastMissingFrame corrections,true)

def ignoreEntry (frame : ClientEntityState) (slot : Slot) (s : Server) (ignored : Nat × Nat) : Server :=
  match frame.syncedEntities.lookup ignored.1 with
  | none => s
  | some data => match s.lockEntity data with
    | none => s
    | some ent => s.lowerBase ent slot ignored.2

def recreateEntry (frame : ClientEntityState) (client : ClientId) (s : Server) (objectId : Nat) : Server :=
  match frame.syncedEntities.lookup objectId with
  | none => s
  | some data => match s.lockEntity data with
    | none => s
    | some ent => s.nackCreate client (objectId,(s.entity ent).uniqifier)

def nackLists (s : Server) (client : ClientId) (slot : Slot) (packet : GameStateNAck) : Server :=
  match (s.data client).frameStates.lookup packet.frameIndex with
  | none => s.dropClient client
  | some frame =>
    let ignored := if packet.flags.testBit 1 then
      packet.ignoreList.foldl (ignoreEntry frame slot) s else s
    if packet.flags.testBit 2 then
      packet.recreateList.foldl (recreateEntry frame client) ignored else ignored

def HandleGameStateNAck (s : Server) (client : ClientId) (packet : GameStateNAck) : Server :=
  if s.syncStyle ≠ .NAK then s else
  match s.slotId client with
  | none => s
  | some slot =>
    if packet.flags.testBit 0 then
      match s.nackMissing client slot packet with
      | (dropped,false) => dropped
      | (corrected,true) => corrected.nackLists client slot packet
    else s.nackLists client slot packet

def unmarkCreated (s : Server) (client : ClientId) (identPair : IdentPair) : Server :=
  s.setSynced client ((s.data client).syncedEntities.adjust identPair
    (fun d => { d with hasCreated := false }))

def ackRecreate (frame : ClientEntityState) (client : ClientId) (s : Server) (objectId : Nat) : Server :=
  match frame.syncedEntities.lookup objectId with
  | none => s
  | some data => match s.lockEntity data with
    | none => s
    | some ent => s.unmarkCreated client (objectId,(s.entity ent).uniqifier)

def lowerBoth (s : Server) (e : EntityRef) (slot : Slot) (lastFrame : Nat) : Server :=
  s.modifyEntity e (fun x => { x with
    lastFramesSent := Function.update x.lastFramesSent slot (min (x.lastFramesSent slot) lastFrame)
    lastFramesPreSent :=
      Function.update x.lastFramesPreSent slot (min (x.lastFramesPreSent slot) lastFrame) })

def ackIgnore (frame : ClientEntityState) (slot : Slot) (s : Server) (ignored : Nat × Nat) : Server :=
  match frame.syncedEntities.lookup ignored.1 with
  | none => s
  | some data => match s.lockEntity data with
    | none => s
    | some ent => s.lowerBoth ent slot ignored.2

def ackBase (s : Server) (e : EntityRef) (slot : Slot) (frameIndex : Nat) : Server :=
  s.modifyEntity e (fun x => { x with
    lastFramesSent :=
      Function.update x.lastFramesSent slot (min frameIndex (x.lastFramesPreSent slot)) })

def ackMoves (s : Server) (client : ClientId) (slot : Slot) (packet : GameStateAck)
    (objectId : Nat) (ent : EntityRef) : Bool :=
  ((s.data client).syncedEntities.lookup (objectId,(s.entity ent).uniqifier)).any (·.hasCreated) &&
    slot ∉ (s.entity ent).deletedFor &&
    !packet.ignoreList.any (fun ignored => ignored.1 == (s.entity ent).handle)

def ackEntry (client : ClientId) (slot : Slot) (packet : GameStateAck) (s : Server)
    (entry : Σ _ : Nat, ClientEntityData) : Server :=
  match s.lockEntity entry.2 with
  | none => s
  | some ent =>
    if s.ackMoves client slot packet entry.1 ent then s.ackBase ent slot packet.frameIndex else s

def ackFrame (s : Server) (client : ClientId) (slot : Slot) (packet : GameStateAck)
    (frame : ClientEntityState) : Server :=
  let recreated := packet.recreateList.foldl (ackRecreate frame client) s
  let ignored := packet.ignoreList.foldl (ackIgnore frame slot) recreated
  frame.syncedEntities.entries.foldl (ackEntry client slot packet) ignored

-- `frameStates[frameIndex]` makes an empty frame where there is none, and it is erased.
def HandleGameStateAck (s : Server) (client : ClientId) (packet : GameStateAck) : Server :=
  if s.syncStyle ≠ .ARQ then s else
  match s.slotId client with
  | none => s
  | some slot =>
    let frame := ((s.data client).frameStates.lookup packet.frameIndex).getD ⟨∅,[]⟩
    (s.ackFrame client slot packet frame).modifyData client (fun d => { d with
      frameStates := d.frameStates.erase packet.frameIndex })

end Server
end Citizen.State
