import Citizen.Lib.Run
import Citizen.State.ClonePackets
import Citizen.State.FrameAcks
import Citizen.State.Tick

/-! The server as a state machine: everything that reaches the game state, one
operation of the sync thread at a time. -/
namespace Citizen.State

inductive ClientOp where
  | requestObjectIds (numIds : Nat)
  | cloneCreate (packet : Server.CloneData)
  | cloneSync (packet : Server.CloneData)
  | cloneTakeover (clientId objectId : Nat)
  | cloneRemove (objectId uniqifier : Nat)
  | timestamp (ts : Nat)
  | frameIndex (index : Nat)
  | ackCreate (objectId uniqifier : Nat)
  | ackRemove (objectId uniqifier : Nat)
  | nack (packet : GameStateNAck)
  | ack (packet : GameStateAck)

inductive Op where
  | connect
  | drop (client : ClientId)
  | remove (client : ClientId)
  | runDrop (now : Nat) (distance : ClientId → EntityRef → Nat)
  | runRemoval
  | fromClient (client : ClientId) (now : Nat) (protect : Bool) (op : ClientOp)
  | createEntity (type : NetObjEntityType) (tree : SyncTree) (rand now : Nat)
  | deleteEntity (e : EntityRef)
  | removeClone (objectId : Nat)
  | passFilter (e : EntityRef)
  | setOrphanMode (e : EntityRef) (mode : EntityOrphanMode)
  | setEntityBucket (e : EntityRef) (bucket : Nat)
  | setClientBucket (client : ClientId) (bucket : Nat)
  | tick (input : TickInput)

namespace Server

def stepClient (s : Server) (client : ClientId) (now : Nat) (protect : Bool) : ClientOp → Server
  | .requestObjectIds numIds => (s.GetFreeObjectIds client numIds).2
  | .cloneCreate packet => s.ProcessCloneCreate now client packet
  | .cloneSync packet => s.ProcessCloneSync now client packet
  | .cloneTakeover clientId objectId => s.ProcessCloneTakeover now client clientId objectId
  | .cloneRemove objectId uniqifier => s.ProcessCloneRemove protect client objectId uniqifier
  | .timestamp ts => s.setTimestamp client ts
  | .frameIndex index => s.setIndex client index
  | .ackCreate objectId uniqifier => s.ackCreate client objectId uniqifier
  | .ackRemove objectId uniqifier => s.ackRemove client objectId uniqifier
  | .nack packet => s.HandleGameStateNAck client packet
  | .ack packet => s.HandleGameStateAck client packet

def step (s : Server) : Op → Server
  | .connect => s.connectClient
  | .drop client => s.dropClient client
  | .remove client => s.RemoveClient client
  | .runDrop now distance => s.runDrop now distance
  | .runRemoval => s.runRemoval
  | .fromClient client now protect op =>
    if client ∈ s.inMemory then s.stepClient client now protect op else s
  | .createEntity type tree rand now => s.CreateEntityFromTree type tree rand now
  | .deleteEntity e => s.DeleteEntity e
  | .removeClone objectId => s.RemoveClone objectId
  | .passFilter e => s.modifyEntity e (fun x => { x with passedFilter := true })
  | .setOrphanMode e mode => s.modifyEntity e (fun x => { x with orphanMode := mode })
  | .setEntityBucket e bucket => s.modifyEntity e (fun x => { x with routingBucket := bucket })
  | .setClientBucket client bucket => s.modifyData client (fun d => { d with routingBucket := bucket })
  | .tick input => s.Tick input

end Server
end Citizen.State
