import Citizen.State.Ownership

/-! `ServerGameState::Tick`: collecting what nobody needs, the relevance pass over the
clients whose turn it is, and for every client the removals, creates and updates of the
frame. The commands of a client run after all of them are queued. -/
namespace Citizen.State

inductive SyncCommand where
  | remove (objectId uniqifier : Nat) (forceSteal : Bool)
  | sync (syncType : Nat) (entity : EntityRef) (baseFrameIndex localLastFrameIndex : Nat)
      (wasForceUpdate isFirstFrameUpdate : Bool)
  deriving DecidableEq, Repr

structure TickInput where
  curTime : Nat
  oneSyncARQ : Bool
  culling : Bool
  vehicleCulling : Bool
  tickMul : Nat
  viaPos : ClientId → EntityRef → Bool
  syncDelay : ClientId → EntityRef → Nat
  fakeSend : ClientId → Bool
  lastSeenLongAgo : ClientId → Bool
  wroteData : ClientId → SyncCommand → Bool

namespace Server

def collect (acc : Server × List EntityRef) (e : EntityRef) : Server × List EntityRef :=
  let entity := acc.1.entity e
  if entity.relevantTo = ∅ then
    if entity.deleting then (acc.1.FinalizeClone e,acc.2)
    else if entity.IsOwnedByClientScript ∧ entity.orphanMode ≠ .KeepEntity then
      if entity.firstOwnerDropped then (acc.1.FinalizeClone e,acc.2) else (acc.1,acc.2 ++ [e])
    else if entity.IsOwnedByScript = false ∧ (entity.type ≠ .Player ∨ entity.client = none) ∧
        entity.orphanMode ≠ .KeepEntity then (acc.1.FinalizeClone e,acc.2)
    else (acc.1,acc.2 ++ [e])
  else (acc.1,acc.2 ++ [e])

def relevantEntities (s : Server) : Server × List EntityRef := s.entityList.foldl collect (s,[])

def nextClient (s : Server) : Nat → Slot → Option ClientId × Slot
  | 0,slot => (none,slot)
  | fuel + 1,slot =>
    let next := if slot = 0 then initSlot s.bigMode else slot - 1
    if (s.GetClientBySlotID slot).isSome ∨ next = s.lastUpdateSlot then
      (s.GetClientBySlotID slot,next)
    else s.nextClient fuel next

def clientsInTurn (s : Server) : Nat → Slot → List ClientId × Slot
  | 0,slot => ([],slot)
  | iterations + 1,slot =>
    match s.nextClient (initSlot s.bigMode + 1) slot with
    | (none,next) => ([],next)
    | (some client,next) =>
      (client :: (s.clientsInTurn iterations next).1,(s.clientsInTurn iterations next).2)

def ownsEntity (s : Server) (client : ClientId) (e : EntityRef) : Bool :=
  (s.entity e).client = some client

def relevantInGame (s : Server) (input : TickInput) (client : ClientId) (e : EntityRef) : Bool :=
  !input.culling || (s.ownsEntity client e && (s.entity e).type == .Player) ||
    input.viaPos client e || ((s.entity e).type == .Player && !s.bigMode) ||
    ((s.entity e).type.isVehicle && (s.entity e).syncTree.playerOccupants &&
      !input.vehicleCulling && !s.bigMode) ||
    ((s.entity e).type == .Train &&
      (s.entity e).syncTree.trainState.any (fun train => (s.GetTrain train.engineCarriage).isSome) &&
      (e :: s.trainLinks e).any (input.viaPos client))

def sameBucket (s : Server) (client : ClientId) (e : EntityRef) : Bool :=
  (s.data client).routingBucket = (s.entity e).routingBucket

def inScope (s : Server) (input : TickInput) (client : ClientId) (e : EntityRef) : Bool :=
  s.relevantInGame input client e && ((s.entity e).passedFilter || s.ownsEntity client e) &&
    (s.sameBucket client e || (s.data client).playerEntity = some e)

def shouldDelete (s : Server) (client : ClientId) (e : EntityRef) : Bool :=
  s.ownsEntity client e ||
    ((s.data client).syncedEntities.lookup (s.entity e).ident).any (·.hasCreated)

def isRelevant (s : Server) (input : TickInput) (client : ClientId) (e : EntityRef) : Bool :=
  if (s.entity e).deleting then s.shouldDelete client e
  else s.inScope input client e ||
    (s.ownsEntity client e && (!(s.entity e).hasSynced || (s.entity e).IsOwnedByClientScript) &&
      s.sameBucket client e)

def applyOverrides (s : Server) (input : TickInput) (client : ClientId) (slot : Slot) (e : EntityRef) : Server :=
  let wants := if s.ownsEntity client e then
      s.modifyEntity e (fun x => { x with wantsReassign := !s.inScope input client e })
    else s
  if (s.entity e).deleting ∧ s.shouldDelete client e = false then
    wants.modifyEntity e (fun x => { x with relevantTo := x.relevantTo.erase slot })
  else wants

def relevanceStep (input : TickInput) (client : ClientId) (slot : Slot)
    (acc : Server × Table IdentPair SyncedEntityData) (e : EntityRef) : Server × Table IdentPair SyncedEntityData :=
  let s := acc.1
  if slot ∈ (s.entity e).deletedFor then acc else
  let relevant := s.isRelevant input client e
  let overridden := s.applyOverrides input client slot e
  let entIdentifier := (s.entity e).ident
  let syncDelay : Int := input.syncDelay client e
  match (s.data client).syncedEntities.lookup entIdentifier with
  | some data =>
    if relevant then
      (overridden,acc.2.insert entIdentifier
        ⟨data.nextSync + (syncDelay - data.syncDelta),syncDelay,e,data.forceUpdate,data.hasCreated,false⟩)
    else if data.hasCreated || data.hasNAckedCreate then
      (overridden.setToDestroy client ((overridden.data client).entitiesToDestroy.insert
        entIdentifier (some e,⟨true,false⟩)),acc.2)
    else (overridden,acc.2)
  | none =>
    if relevant then
      (overridden.modifyEntity e (fun x => { x with
        relevantTo := insert slot x.relevantTo, outOfScopeFor := x.outOfScopeFor.erase slot }),
        acc.2.insert entIdentifier ⟨0,syncDelay,e,true,false,false⟩)
    else (overridden,acc.2)

def relevancePass (input : TickInput) (entities : List EntityRef) (s : Server) (client : ClientId) : Server :=
  match s.slotId client with
  | none => s
  | some slot =>
    let passed := entities.foldl (relevanceStep input client slot) (s,∅)
    passed.1.setSynced client passed.2

def moveDeleting (s : Server) (client : ClientId) : Server :=
  let synced := (s.data client).syncedEntities
  let leaving := synced.entries.filter (fun entry => (s.entity entry.2.entity).deleting)
  (s.setToDestroy client (leaving.foldl
    (fun t entry => t.insert entry.1 (some entry.2.entity,⟨false,false⟩))
    (s.data client).entitiesToDestroy)).setSynced client
      (synced.keep (fun _ data => !(s.entity data.entity).deleting))

structure Frame where
  server : Server
  ces : ClientEntityState
  commands : List SyncCommand

def leaveSlot (s : Server) (client : ClientId) (e : EntityRef) : Server :=
  if s.bigMode ∧ (s.entity e).type = .Player then
    match (s.entity e).client with
    | none => s
    | some owner => leaveScope owner s client
  else s

def destroyEntity (now : Nat) (client : ClientId) (slot : Slot) (s : Server) (objectId : Nat)
    (e : EntityRef) (outOfScope : Bool) : Server :=
  let unseen := s.modifyEntity e (fun x => { x with relevantTo := x.relevantTo.erase slot })
  if outOfScope = false then
    unseen.modifyEntity e (fun x => { x with deletedFor := insert slot x.deletedFor })
  else
    let left := unseen.modifyEntity e (fun x => { x with
      outOfScopeFor := insert slot x.outOfScopeFor })
    if (left.entity e).client = some client then
      let owned := if (left.entity e).ShouldServerKeepEntity then
          left.ReassignEntity now none (left.entity e).handle
        else left
      { owned with objectIdsStolen := insert objectId owned.objectIdsStolen }
    else left

def destroyStep (input : TickInput) (client : ClientId) (slot : Slot) (acc : Frame)
    (entry : Σ _ : IdentPair, Option EntityRef × EntityDeletionData) : Frame :=
  let objectId := entry.1.1
  let destroyed := match entry.2.1 with
    | none => acc.server
    | some e => (destroyEntity input.curTime client slot acc.server objectId e
        entry.2.2.outOfScope).leaveSlot client e
  let deletionData := match entry.2.1 with
    | none => entry.2.2
    | some _ => { entry.2.2 with forceSteal := objectId ∈ destroyed.objectIdsStolen }
  { server := destroyed
    ces := { acc.ces with deletions := acc.ces.deletions ++ [(entry.1,deletionData)] }
    commands := if input.fakeSend client then acc.commands
      else acc.commands ++ [.remove objectId entry.1.2 deletionData.forceSteal] }

def destroyPass (input : TickInput) (client : ClientId) (slot : Slot) (s : Server) : Frame :=
  let moved := s.moveDeleting client
  let destroyed := (moved.data client).entitiesToDestroy.entries.foldl
    (destroyStep input client slot) ⟨moved,⟨∅,[]⟩,[]⟩
  if destroyed.server.syncStyle = .NAK then
    { destroyed with server := destroyed.server.setToDestroy client ∅ }
  else destroyed

def freePlayerSlot (playersInScope : Finset Nat) : Nat → Option Nat
  | 0 => none
  | slot + 1 =>
    if slot ≠ 31 ∧ slot ∉ playersInScope then some slot else freePlayerSlot playersInScope slot

def kSlotIdStart : Nat := 127

def placePlayer (s : Server) (client : ClientId) (e : EntityRef) : Bool × Server :=
  if s.bigMode ∧ (s.entity e).type = .Player then
    match (s.entity e).client with
    | none => (true,s)
    | some owner =>
      match (s.data client).playersToSlots.lookup owner with
      | some _ => (true,s)
      | none =>
        match freePlayerSlot (s.data client).playersInScope (kSlotIdStart + 1) with
        | none => (false,s)
        | some slot => (true,s.modifyData client (fun d => { d with
            playersInScope := insert slot d.playersInScope
            playersToSlots := d.playersToSlots.insert owner slot }))
  else (true,s)

def yoink (now : Nat) (client : ClientId) (s : Server) (e : EntityRef) : Server :=
  if (s.entity e).client = none ∨
      ((s.entity e).wantsReassign = true ∧ (s.entity e).client ≠ some client) then
    (s.modifyEntity e (fun x => { x with wantsReassign := false })).ReassignEntity now (some client)
      (s.entity e).handle
  else s

def setEntry (s : Server) (client : ClientId) (identPair : IdentPair)
    (f : SyncedEntityData → SyncedEntityData) : Server :=
  s.setSynced client ((s.data client).syncedEntities.adjust identPair f)

def createEntry (client : ClientId) (s : Server) (identPair : IdentPair)
    (syncData : SyncedEntityData) : Bool × Server :=
  if syncData.hasCreated then (true,s) else
  match s.placePlayer client syncData.entity with
  | (false,refused) =>
    (false,refused.setSynced client ((refused.data client).syncedEntities.erase identPair))
  | (true,placed) =>
    (true,(placed.setEntry client identPair (fun d => { d with forceUpdate := true })).modifyData
      client (fun d => { d with pendingCreates := d.pendingCreates.insert identPair s.frameIndex }))

def resetBase (s : Server) (e : EntityRef) (slot : Slot) : Server :=
  s.modifyEntity e (fun x => { x with
    lastFramesSent := Function.update x.lastFramesSent slot 0 })

def syncEntry (input : TickInput) (client : ClientId) (slot : Slot) (acc : Frame)
    (identPair : IdentPair) (syncData : SyncedEntityData) : Frame :=
  let s := acc.server
  let e := syncData.entity
  let late := decide ((s.entity e).timestamp ≤ (s.entity e).lastOutOfBandTimestamp)
  let wasThisIt := late && !syncData.forceUpdate
  let forceUpdate := syncData.forceUpdate || late
  if (s.entity e).client = some client ∧ forceUpdate = false then acc else
  let based := if forceUpdate ∧ wasThisIt = false then s.resetBase e slot else s
  let baseFrameIndex := (based.entity e).lastFramesSent slot
  let localLastFrameIndex := (s.entity e).lastFrameIndex
  let saved : ClientEntityData := ⟨e,baseFrameIndex,syncData.hasCreated⟩
  let ces := { acc.ces with
    syncedEntities := acc.ces.syncedEntities.insert (s.entity e).handle saved }
  if forceUpdate ∨ syncData.nextSync - input.curTime ≤ 0 then
    let syncType := if syncData.hasCreated then 2 else 1
    let created := syncData.hasCreated ||
      (!input.fakeSend client && s.syncStyle == .NAK)
    { server := based.setEntry client identPair (fun d => { d with
        nextSync := if forceUpdate then d.nextSync else input.curTime + d.syncDelta
        forceUpdate := false
        hasCreated := created })
      ces := ces
      commands := if input.fakeSend client then acc.commands
        else acc.commands ++
          .sync syncType e baseFrameIndex localLastFrameIndex forceUpdate false ::
          (if syncData.hasCreated then []
            else [.sync 2 e baseFrameIndex localLastFrameIndex forceUpdate true]) }
  else { server := based, ces := ces, commands := acc.commands }

def entryStep (input : TickInput) (client : ClientId) (slot : Slot) (acc : Frame) (identPair : IdentPair) : Frame :=
  match (acc.server.data client).syncedEntities.lookup identPair with
  | none => acc
  | some found =>
    let owned := yoink input.curTime client acc.server found.entity
    match (owned.data client).syncedEntities.lookup identPair with
    | none => { acc with server := owned }
    | some syncData =>
      match owned.createEntry client identPair syncData with
      | (false,refused) => { acc with server := refused }
      | (true,ready) =>
        syncEntry input client slot { acc with server := ready } identPair
          { syncData with forceUpdate := syncData.forceUpdate || !syncData.hasCreated }

def identLE (a b : IdentPair) : Prop := a.1 < b.1 ∨ (a.1 = b.1 ∧ a.2 ≤ b.2)
instance : DecidableRel identLE := fun a b => by unfold identLE; infer_instance

def syncedKeys (s : Server) (client : ClientId) : List IdentPair :=
  (s.data client).syncedEntities.keys.insertionSort identLE

def updatePass (input : TickInput) (client : ClientId) (slot : Slot) (s : Server) : Frame :=
  let destroyed := destroyPass input client slot s
  (destroyed.server.syncedKeys client).foldl (entryStep input client slot) destroyed

def eraseOldFrames (frameIndex backlog : Nat) :
    Nat → Nat × Table Nat ClientEntityState → Nat × Table Nat ClientEntityState
  | 0,frames => frames
  | fuel + 1,(first,states) =>
    if frameIndex - first ≥ backlog - 1 then
      eraseOldFrames frameIndex backlog fuel (first + 1,states.erase first)
    else (first,states)

def savedLessTwo (size : Nat) : Nat := if size < 2 then 2^64 + size - 2 else size - 2

def saveFrame (input : TickInput) (client : ClientId) (s : Server) (ces : ClientEntityState) : Server :=
  let data := s.data client
  let kept := if data.firstSavedFrameState ≠ 0 then
      eraseOldFrames s.frameIndex
        (max (if input.lastSeenLongAgo client then maxSavedClientFramesWorstCase
          else maxSavedClientFrames) (savedLessTwo data.frameStates.entries.length))
        (s.frameIndex + 1) (data.firstSavedFrameState,data.frameStates)
    else (s.frameIndex,data.frameStates)
  s.modifyData client (fun d => { d with
    firstSavedFrameState := kept.1
    frameStates := if kept.2.lookup s.frameIndex = none then kept.2.insert s.frameIndex ces
      else kept.2 })

def mayWrite (s : Server) (client : ClientId) (syncType : Nat) (e : EntityRef)
    (wasForceUpdate isFirst : Bool) : Bool :=
  !(syncType == 2 && !isFirst && wasForceUpdate && (s.entity e).client == some client)

def recordBase (s : Server) (e : EntityRef) (slot : Slot) (localLastFrameIndex : Nat) : Server :=
  if s.syncStyle = .NAK then
    s.modifyEntity e (fun x => { x with
      lastFramesSent := Function.update x.lastFramesSent slot localLastFrameIndex })
  else
    s.modifyEntity e (fun x => { x with
      lastFramesPreSent := Function.update x.lastFramesPreSent slot localLastFrameIndex })

def send (s : Server) (record : SentRecord) : Server := { s with sent := s.sent ++ [record] }

def execute (input : TickInput) (client : ClientId) (slot : Slot) (s : Server) (command : SyncCommand) : Server :=
  match command with
  | .remove objectId uniqifier forceSteal =>
    s.send (.remove client s.frameIndex objectId uniqifier forceSteal)
  | .sync syncType e baseFrameIndex localLastFrameIndex wasForceUpdate isFirst =>
    if (s.entity e).client = none then s
    else if input.wroteData client command = false then s
    else
      let recorded := if isFirst = false ∧ syncType = 2 then
          s.recordBase e slot localLastFrameIndex
        else s
      recorded.send (.sync client s.frameIndex syncType e
        (if isFirst then 0 else baseFrameIndex) isFirst
        (s.mayWrite client syncType e wasForceUpdate isFirst))

def clientPass (input : TickInput) (s : Server) (client : ClientId) : Server :=
  match s.slotId client with
  | none => s
  | some slot =>
    let frame := updatePass input client slot s
    frame.commands.foldl (execute input client slot)
      (frame.server.saveFrame input client frame.ces)

def setStyle (s : Server) (input : TickInput) : Server :=
  { s with syncStyle := if input.oneSyncARQ then .ARQ else .NAK }

def swept (s : Server) (input : TickInput) : Server × List EntityRef :=
  (s.setStyle input).relevantEntities

def turn (s : Server) (input : TickInput) : List ClientId × Slot :=
  (s.swept input).1.clientsInTurn ((if s.bigMode then 8 else 16) * input.tickMul) s.lastUpdateSlot

def relevancePhase (s : Server) (input : TickInput) : Server :=
  { (s.turn input).1.foldl (relevancePass input (s.swept input).2) (s.swept input).1 with
    lastUpdateSlot := (s.turn input).2 }

def updatePhase (s : Server) (input : TickInput) : Server :=
  s.allClients.foldl (clientPass input) s

def Tick (s : Server) (input : TickInput) : Server :=
  let updated := (s.relevancePhase input).updatePhase input
  { updated with frameIndex := updated.frameIndex + 1 }

end Server
end Citizen.State
