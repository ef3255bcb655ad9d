import Citizen.State.ServerState

/-! Object ids and ownership: `GetFreeObjectIds`, `CreateEntityFromTree`,
`ReassignEntity` with its train links, `MoveEntityToCandidate`, and the removal of an
entity in its three steps, `RemoveClone`, `FinalizeClone` and the queued erasure. -/
namespace Citizen.State
namespace Server

def takeFreeIds (s : Server) (client : ClientId) : List Nat → Nat → List Nat × Server
  | _,0 => ([],s)
  | [],_ => ([],s)
  | id :: rest,count + 1 =>
    if id ∉ s.objectIdsSent ∧ id ∉ s.objectIdsUsed then
      let taken := takeFreeIds
        { s.modifyData client (fun d => { d with objectIds := insert id d.objectIds }) with
          objectIdsSent := insert id s.objectIdsSent } client rest count
      (id :: taken.1,taken.2)
    else takeFreeIds s client rest (count + 1)

-- The 16-bit `id` comes back to 0 after 65535; past that the source does not return.
def GetFreeObjectIds (s : Server) (client : ClientId) (numIds : Nat) : List Nat × Server :=
  takeFreeIds s client (List.range' 1 MaxObjectId ++ [0]) numIds

def freeServerId (s : Server) : Nat → Option Nat
  | 0 => none
  | id + 1 =>
    if id + 1 ∉ s.objectIdsSent ∧ id + 1 ∉ s.objectIdsUsed then some (id + 1)
    else s.freeServerId id

def CreateEntityFromTree (s : Server) (type : NetObjEntityType) (tree : SyncTree) (rand now : Nat) : Server :=
  match s.freeServerId (if s.lengthHack then MaxObjectId - 1 else 8191) with
  | none => s
  | some id =>
    { s with
      objectIdsSent := insert id s.objectIdsSent
      objectIdsUsed := insert id s.objectIdsUsed
      objectIdsStolen := insert id s.objectIdsStolen
      entity := Function.update s.entity s.nextEntity
        { SyncEntityState.fresh type id rand now tree with passedFilter := true, timestamp := now }
      nextEntity := s.nextEntity + 1
      entityList := s.entityList ++ [s.nextEntity]
      entitiesById := Function.update s.entitiesById id (some s.nextEntity) }

def forceResend (e : EntityRef) (s : Server) (c : ClientId) : Server :=
  match s.slotId c with
  | none => s
  | some slot =>
    if slot ∈ (s.entity e).relevantTo then
      s.setSynced c
        ((s.data c).syncedEntities.adjust (s.entity e).ident (fun d => { d with forceUpdate := true }))
    else s

def eraseObjectId (s : Server) (client : Option ClientId) (id : Nat) : Server :=
  match client with
  | none => s
  | some c => s.modifyData c (fun d => { d with objectIds := d.objectIds.erase id })

def insertObjectId (s : Server) (client : Option ClientId) (id : Nat) : Server :=
  match client with
  | none => s
  | some c => s.modifyData c (fun d => { d with objectIds := insert id d.objectIds })

def ReassignEntityInner (now : Nat) (targetClient : Option ClientId) (s : Server) (entityHandle : Nat) : Server :=
  match s.GetEntity entityHandle with
  | none => s
  | some e =>
    if (s.entity e).type = .Player then s else
    let oldClient := (s.entity e).client
    let migrated := s.modifyEntity e (fun x =>
      { x with lastMigratedAt := now, lastOwner := oldClient, client := targetClient })
    let moved := (migrated.eraseObjectId oldClient entityHandle).insertObjectId
      targetClient entityHandle
    let resent := moved.allClients.foldl (forceResend e) moved
    { resent with objectIdsStolen := insert entityHandle resent.objectIdsStolen }

def GetTrain (s : Server) (objectId : Nat) : Option EntityRef :=
  if objectId = 0 then none
  else (s.GetEntity objectId).filter (fun e => (s.entity e).type = .Train)

def GetNextTrain (s : Server) (e : EntityRef) : Option EntityRef :=
  match (s.entity e).syncTree.trainState with
  | none => none
  | some train => s.GetTrain train.linkedToBackwardId

def kMaxDuplicateEntityIds : Nat := 3

/-- `recurseTrain`. A link that was already met is not visited again, and the fourth
such link ends the walk, so that it takes at most `fuel` steps. -/
def recurseTrain (s : Server) : Nat → List Nat → Nat → Option EntityRef → List EntityRef
  | 0,_,_,_ => []
  | _,_,_,none => []
  | fuel + 1,processedTrains,duplicateEntityIds,some link =>
    if (s.entity link).handle ∈ processedTrains then
      if duplicateEntityIds + 1 > kMaxDuplicateEntityIds then []
      else s.recurseTrain fuel processedTrains (duplicateEntityIds + 1) (s.GetNextTrain link)
    else link ::
      s.recurseTrain fuel ((s.entity link).handle :: processedTrains) duplicateEntityIds
        (s.GetNextTrain link)

def trainFuel : Nat := MaxObjectId + kMaxDuplicateEntityIds + 2

def trainLinks (s : Server) (initialTrain : EntityRef) : List EntityRef :=
  match (s.entity initialTrain).syncTree.trainState with
  | none => []
  | some train =>
    if train.isEngine then s.recurseTrain trainFuel [] 0 (s.GetNextTrain initialTrain)
    else if train.engineCarriage ≠ 0 ∧ train.engineCarriage ≠ (s.entity initialTrain).handle then
      match s.GetTrain train.engineCarriage with
      | none => []
      | some engine =>
        engine :: s.recurseTrain trainFuel [(s.entity engine).handle] 0 (s.GetNextTrain engine)
    else []

def ReassignEntity (now : Nat) (targetClient : Option ClientId) (s : Server) (entityHandle : Nat) : Server :=
  let moved := s.ReassignEntityInner now targetClient entityHandle
  match moved.GetTrain entityHandle with
  | none => moved
  | some train =>
    ((moved.trainLinks train).map (fun link => (moved.entity link).handle)).foldl
      (ReassignEntityInner now targetClient) moved

def candidates (s : Server) (distance : ClientId → EntityRef → Nat) (e : EntityRef)
    (leaving : ClientId) : List (Nat × ClientId) :=
  if (s.entity e).type = .Player then [] else
  ((((s.entity e).relevantTo.sort (· ≥ ·)).filterMap (fun bit =>
    (s.GetClientBySlotID bit).filter (· != leaving))).take 5).map (fun c => (distance c e,c))

def nearest : List (Nat × ClientId) → Option ClientId
  | [] => none
  | first :: rest => some (rest.foldl (fun best next =>
      if next.1 < best.1 ∨ (next.1 = best.1 ∧ next.2 < best.2) then next else best) first).2

def MoveEntityToCandidate (now : Nat) (distance : ClientId → EntityRef → Nat) (s : Server)
    (e : EntityRef) (client : ClientId) : Bool × Server :=
  if (s.entity e).type = .PickupPlacement ∧ (s.entity e).syncTree.atOrigin then (false,s)
  else if (s.entity e).client.any (· != client) then (true,s)
  else
    match nearest (s.candidates distance e client) with
    | none =>
      if (s.entity e).ShouldServerKeepEntity then
        (true,s.ReassignEntity now none (s.entity e).handle)
      else (false,s)
    | some candidate => (true,s.ReassignEntity now (some candidate) (s.entity e).handle)

def RemoveClone (s : Server) (objectId : Nat) : Server :=
  match s.GetEntity objectId with
  | none => s
  | some e => s.modifyEntity e (fun x => { x with deleting := true })

def FinalizeClone (s : Server) (e : EntityRef) : Server :=
  if s.GetEntity (s.entity e).handle = some e ∧ (s.entity e).finalizing = false then
    { s.modifyEntity e (fun x => { x with finalizing := true }) with
      removals := s.removals ++ [e] }
  else s

def doRemove (s : Server) (e : EntityRef) : Server :=
  let objectId := (s.entity e).handle
  let freed := { s with
    entitiesById := Function.update s.entitiesById objectId none
    objectIdsUsed := s.objectIdsUsed.erase objectId }
  let returned :=
    if objectId ∈ s.objectIdsStolen then
      { freed with
        objectIdsSent := s.objectIdsSent.erase objectId
        objectIdsStolen := s.objectIdsStolen.erase objectId }.eraseObjectId
          (s.entity e).client objectId
    else freed
  { returned with entityList := s.entityList.erase e }

def DeleteEntity (s : Server) (e : EntityRef) : Server :=
  if (s.entity e).type = .Player then s else
  if (s.entity e).syncTree.trainState.any (fun train =>
      train.engineCarriage != 0 && train.engineCarriage != (s.entity e).handle) then s
  else if (s.entity e).type = .Train then
    ((e :: s.trainLinks e).map (fun link => (s.entity link).handle)).foldl RemoveClone s
  else s.RemoveClone (s.entity e).handle

def leaveScope (netId : ClientId) (s : Server) (tgtClient : ClientId) : Server :=
  match (s.data tgtClient).playersToSlots.lookup netId with
  | none => s
  | some slot => s.modifyData tgtClient (fun d => { d with
      playersInScope := d.playersInScope.erase slot
      playersToSlots := d.playersToSlots.erase netId })

end Server
end Citizen.State
