import Citizen.State.Ownership

/-! Clone records from a client: `ProcessClonePacket` for creates and syncs,
`ProcessCloneTakeover`, `ProcessCloneRemove`, and the two records that
`ParseAckPacket` reads. -/
namespace Citizen.State
namespace Server

/-- `tree` is what the sync tree holds after the data are parsed into it; `knownToken`, `valid` and `accepted` are the answers of
`g_entityCreationList`, `ValidateEntity` and `OnEntityCreate`. -/
structure CloneData where
  objectId : Nat
  uniqifier : Nat
  objectType : Option NetObjEntityType
  creationToken : Nat
  length : Nat
  tree : SyncTree
  knownToken : Bool
  valid : Bool
  accepted : Bool

def mayTouch (s : Server) (client : ClientId) (e : EntityRef) (uniqifier : Nat) : Option Slot :=
  if (s.entity e).uniqifier ≠ uniqifier then none
  else match s.slotId client with
    | none => none
    | some slot =>
      if slot ∈ (s.entity e).deletedFor ∨ slot ∈ (s.entity e).outOfScopeFor then none
      else some slot

def markRelevant (s : Server) (e : EntityRef) (slot : Slot) : Server :=
  s.modifyEntity e (fun x => { x with
    relevantTo := insert slot x.relevantTo, outOfScopeFor := x.outOfScopeFor.erase slot })

def ownerCheck (s : Server) (now : Nat) (client : ClientId) (e : EntityRef) : Option Server :=
  match (s.entity e).client with
  | none => none
  | some entityClient =>
    if entityClient = client then some s
    else if (s.entity e).lastOwner = some client ∧ now - (s.entity e).lastMigratedAt ≤ 1000 then
      some (s.modifyEntity e (fun x => { x with
        lastOutOfBandTimestamp := (s.data client).syncTs }))
    else none

def parseInto (s : Server) (client : ClientId) (e : EntityRef) (packet : CloneData) (isSync : Bool) : Server :=
  if packet.length > 0 then
    s.modifyEntity e (fun x => { x with
      lastFrameIndex := s.frameIndex
      timestamp := (s.data client).syncTs
      syncTree := packet.tree
      hasSynced := x.hasSynced || isSync })
  else s

def adoptPlayer (s : Server) (client : ClientId) (e : EntityRef) : Server :=
  if (s.entity e).type = .Player then
    s.modifyData client (fun d => { d with playerEntity := some e })
  else s

def constructEntity (s : Server) (client : ClientId) (packet : CloneData) (type : NetObjEntityType) : Server :=
  { s with
    entity := Function.update s.entity s.nextEntity
      { SyncEntityState.fresh type packet.objectId packet.uniqifier packet.creationToken
          .empty with
        firstOwner := some client
        client := some client
        routingBucket := (s.data client).routingBucket }
    nextEntity := s.nextEntity + 1 }

def startDelete (s : Server) (client : ClientId) (e : EntityRef) (packet : CloneData) : Server :=
  let removed := s.RemoveClone (s.entity e).handle
  removed.setToDestroy client ((removed.data client).entitiesToDestroy.insert
    (packet.objectId,packet.uniqifier) (some e,⟨false,false⟩))

def enlist (s : Server) (client : ClientId) (e : EntityRef) (packet : CloneData) : Server :=
  let identPair := (packet.objectId,packet.uniqifier)
  let known := s.modifyData client (fun d => { d with
    syncedEntities := d.syncedEntities.insert identPair ⟨0,10,e,false,true,false⟩
    pendingCreates := d.pendingCreates.erase identPair })
  { known with
    entitiesById := Function.update s.entitiesById packet.objectId (some e)
    entityList := s.entityList ++ [e]
    objectIdsUsed := insert packet.objectId s.objectIdsUsed }

def settleToken (s : Server) (e : EntityRef) (packet : CloneData) : Server :=
  s.modifyEntity e (fun x => { x with
    passedFilter := x.passedFilter || x.type == .Player
    creationToken := if packet.knownToken then x.creationToken else 0 })

def rejected (s : Server) (e : EntityRef) (packet : CloneData) : Bool :=
  ((s.entity e).type != .Player && !packet.valid) || !packet.accepted

def createdHere (s : Server) (client : ClientId) (e : EntityRef) (packet : CloneData) : Server :=
  let settled := s.settleToken e packet
  if settled.rejected e packet then settled.startDelete client e packet
  else settled.enlist client e packet

def ProcessCloneCreate (s : Server) (now : Nat) (client : ClientId) (packet : CloneData) : Server :=
  if packet.objectId = 0xFFFF then s else
  match s.GetEntity packet.objectId with
  | some _ => s
  | none =>
    match packet.objectType with
    | none => s
    | some type =>
      let e := s.nextEntity
      let constructed := s.constructEntity client packet type
      match constructed.mayTouch client e packet.uniqifier with
      | none => constructed
      | some slot =>
        let marked := constructed.markRelevant e slot
        match marked.ownerCheck now client e with
        | none => marked
        | some checked =>
          ((checked.parseInto client e packet false).adoptPlayer client e).createdHere
            client e packet

def ProcessCloneSync (s : Server) (now : Nat) (client : ClientId) (packet : CloneData) : Server :=
  if packet.objectId = 0xFFFF then s else
  match s.GetEntity packet.objectId with
  | none => s
  | some e =>
    match s.mayTouch client e packet.uniqifier with
    | none => s
    | some slot =>
      let marked := s.markRelevant e slot
      match marked.ownerCheck now client e with
      | none => marked
      | some checked =>
        ((checked.parseInto client e packet true).adoptPlayer client e).modifyData client
          (fun d => { d with
            pendingCreates := d.pendingCreates.erase (packet.objectId,packet.uniqifier) })

def ProcessCloneTakeover (s : Server) (now : Nat) (client : ClientId) (clientId objectId : Nat) : Server :=
  match s.GetEntity objectId with
  | none => s
  | some e =>
    let tgtCl := if clientId ≠ 0 then s.registry.find? (· = clientId) else some client
    match tgtCl with
    | none => s
    | some target =>
      if (s.entity e).client = some target then s
      else if (s.entity e).client.any (· != client) then s
      else s.ReassignEntity now (some target) (s.entity e).handle

def ProcessCloneRemove (s : Server) (protect : Bool) (client : ClientId) (objectId uniqifier : Nat) : Server :=
  match s.GetEntity objectId with
  | none => s
  | some e =>
    if (s.entity e).client ≠ some client then s
    else if (s.entity e).uniqifier ≠ uniqifier then s
    else if (s.entity e).IsOwnedByServerScript ∧ protect then s
    else s.RemoveClone objectId

def setTimestamp (s : Server) (client : ClientId) (newTs : Nat) : Server :=
  if (s.data client).ackTs = 0 ∨ (s.data client).ackTs < newTs then
    s.modifyData client (fun d => { d with ackTs := newTs, syncTs := newTs })
  else s

def setIndex (s : Server) (client : ClientId) (newIndex : Nat) : Server :=
  s.modifyData client (fun d => { d with fidx := newIndex })

def ackCreate (s : Server) (client : ClientId) (objectId uniqifier : Nat) : Server :=
  match s.GetEntity objectId with
  | none => s
  | some e =>
    if (s.entity e).uniqifier ≠ uniqifier then s else
    let cleared := match s.slotId client with
      | none => s
      | some slot => s.modifyEntity e (fun x => { x with deletedFor := x.deletedFor.erase slot })
    cleared.setSynced client ((cleared.data client).syncedEntities.adjust (objectId,uniqifier)
      (fun d => { d with hasCreated := true }))

def ackRemove (s : Server) (client : ClientId) (objectId uniqifier : Nat) : Server :=
  s.setToDestroy client ((s.data client).entitiesToDestroy.erase (objectId,uniqifier))

end Server
end Citizen.State
