import Citizen.Lib.Table
import Citizen.Sync.CommandList

/-! The client's own updates and their acknowledgements: `WriteUpdates`, the flushes of
the send buffer, `HandleCloneAcks`, and the server's `ParseClonePacket` as far as it
acknowledges. A packet is the list of its records; their bit sizes decide the flushes. -/
namespace Citizen.Clone
open BitField (Byte)
open Sync (LZ4_compressBound)

structure Build where
  lengthHack : Bool
  kNetObjectTypeBitLength : Nat

inductive CloneRecord where
  | object (syncType uniqifier objectId creationToken objectType : Nat) (data : List Byte)
  | remove (objectId uniqifier : Nat)
  | takeover (clientId objectId : Nat)
  | timestamp (ts : BitVec 32)
  | frameIndex (index : BitVec 32)
  deriving DecidableEq, Repr

def CloneRecord.bits (build : Build) : CloneRecord → Nat
  | .object syncType _ _ _ _ data =>
      3 + 16 + Rl.hackLength build.lengthHack 13 +
        (if syncType = 1 then 32 + build.kNetObjectTypeBitLength else 0) + 12 + data.length * 8
  | .remove _ _ => 3 + Rl.hackLength build.lengthHack 13 + 16
  | .takeover _ _ => 3 + 16 + Rl.hackLength build.lengthHack 13
  | .timestamp _ => 3 + 32
  | .frameIndex _ => 3 + 32

structure AckKey where
  type : Nat
  objectId : Nat
  uniqifier : Nat
  deriving DecidableEq, Repr

def CloneRecord.ackKey : CloneRecord → Option AckKey
  | .object syncType uniqifier objectId _ _ _ => some ⟨syncType,objectId,uniqifier⟩
  | .remove objectId uniqifier => some ⟨3,objectId,uniqifier⟩
  | _ => none

structure PendingAck where
  key : AckKey
  ts : BitVec 32
  packet : Nat
  deriving DecidableEq, Repr

structure ObjectData where
  lastSyncTime : Nat
  lastSyncAck : Nat
  lastChangeTime : BitVec 32
  lastResendTime : BitVec 32
  nextKeepaliveSync : BitVec 32
  uniqifier : Nat
  deriving DecidableEq, Repr

def ObjectData.new (rand : Nat) : ObjectData := ⟨0,0,0,0,0,rand⟩

structure CloneSender where
  sendBuffer : List CloneRecord
  curBit : Nat
  sent : List (List CloneRecord)
  serverSendFrame : Nat
  serverAcks : List (Nat × PendingAck)
  trackedObjects : Table Nat ObjectData
  pendingRemoveAcks : List ((Nat × Nat) × Nat)
  ackTimestamp : BitVec 32

def CloneSender.init : CloneSender := ⟨[],0,[],0,[],∅,[],0⟩

structure NetObject where
  objectId : Nat
  objectType : Nat
  creationToken : Nat
  rand : Nat
  isRemote : Bool
  meantToBeOurs : Bool
  ownerId : Nat
  nextOwnerId : Nat
  pendingClientId : Nat
  tooYoung : Bool
  outOfScene : Bool
  wantsToDelete : Bool
  removedByGame : Bool
  parrotDeletion : Bool
  lacksGameObject : Bool
  syncLatency : Nat
  treeWritten : Bool
  lastChangeTime : BitVec 32
  data : List Byte

structure UpdateInput where
  objectMgr : Bool
  serverNetID : Nat
  ts : BitVec 32
  msec : Nat
  ping : Nat
  variance : Nat
  objects : List NetObject

def insertPending (key : Nat × Nat) (nextTime : Nat) : List ((Nat × Nat) × Nat) → List ((Nat × Nat) × Nat)
  | [] => [(key,nextTime)]
  | e :: rest =>
      if e.1 = key then e :: rest
      else if key.1 < e.1.1 ∨ key.1 = e.1.1 ∧ key.2 < e.1.2 then (key,nextTime) :: e :: rest
      else e :: insertPending key nextTime rest

def CloneSender.destroyNetworkObject (m : CloneSender) (msec objectId rand : Nat) (parrotDeletion : Bool) :
    CloneSender :=
  let tracked := (m.trackedObjects.lookup objectId).getD (.new rand)
  { m with
    pendingRemoveAcks :=
      if parrotDeletion && tracked.lastSyncTime != 0 then
        insertPending (objectId,tracked.uniqifier) msec m.pendingRemoveAcks
      else m.pendingRemoveAcks
    trackedObjects := m.trackedObjects.erase objectId }

def CloneSender.tracked (m : CloneSender) (o : NetObject) : ObjectData :=
  (m.trackedObjects.lookup o.objectId).getD (.new o.rand)

def CloneSender.track (m : CloneSender) (o : NetObject) (tracked : ObjectData) : CloneSender :=
  { m with trackedObjects := m.trackedObjects.insert o.objectId tracked }

section
variable (input : UpdateInput)

def syncTypeOf (o : NetObject) (tracked : ObjectData) : Nat :=
  if tracked.lastSyncTime = 0 then 1
  else if tracked.lastSyncTime + max o.syncLatency 10 ≤ input.msec then
    if tracked.lastSyncAck = 0 then 1 else 2
  else 0

def syncObject (m : CloneSender) (o : NetObject) : CloneSender × List CloneRecord :=
  let tracked := m.tracked o
  let syncType := syncTypeOf input o tracked
  if syncType ≠ 0 ∧ (o.treeWritten ∨ tracked.nextKeepaliveSync ≤ input.ts) then
    let resend := tracked.lastResendTime +
      BitVec.ofNat 32 (min 40 (max 100 (input.ping + input.variance * 4)))
    let early := (o.lastChangeTime = tracked.lastChangeTime ∨ syncType = 1) ∧ input.ts < resend
    let tracked := { tracked with lastChangeTime := o.lastChangeTime }
    if early then (m.track o tracked,[])
    else
      let written : ObjectData :=
        { tracked with
          nextKeepaliveSync := input.ts + 1000
          lastResendTime := input.ts
          lastSyncTime := input.msec }
      (m.track o written,
        [.object syncType tracked.uniqifier o.objectId o.creationToken o.objectType
          (if o.treeWritten then o.data else [])])
  else (m,[])

def objectCb (m : CloneSender) (o : NetObject) : CloneSender × List CloneRecord :=
  if o.isRemote then
    if o.meantToBeOurs then
      let given := { m.tracked o with lastSyncTime := input.msec, lastSyncAck := input.msec }
      (m.track o given,[.takeover input.serverNetID o.objectId])
    else (m,[])
  else if o.ownerId = 31 then (m,[])
  else
    let given := if o.nextOwnerId ≠ 0xFF then [CloneRecord.takeover o.pendingClientId o.objectId] else []
    if o.tooYoung ∨ o.outOfScene then (m,given)
    else
      let m := m.track o (m.tracked o)
      if o.wantsToDelete then
        if o.removedByGame then
          (m.destroyNetworkObject input.msec o.objectId o.rand o.parrotDeletion,given)
        else (m,given)
      else if o.lacksGameObject then (m,given)
      else
        let (m,records) := syncObject input m o
        (m,given ++ records)

def collectObjects : CloneSender → List NetObject → CloneSender × List CloneRecord
  | m,[] => (m,[])
  | m,o :: rest =>
      let (m,records) := objectCb input m o
      let (m,later) := collectObjects m rest
      (m,records ++ later)

def dueRemoves (m : CloneSender) : List CloneRecord :=
  (m.pendingRemoveAcks.filter (fun e => decide (e.2 ≤ input.msec))).map (fun e => .remove e.1.1 e.1.2)

def postponeRemoves (m : CloneSender) : CloneSender :=
  { m with
    pendingRemoveAcks := m.pendingRemoveAcks.map
      (fun e => if e.2 ≤ input.msec then (e.1,input.msec + 150) else e) }

def collectUpdates (m : CloneSender) : CloneSender × List CloneRecord :=
  let (m,records) := collectObjects input m input.objects
  (postponeRemoves input m,records ++ dueRemoves input m)

end

def dataLength (curBit : Nat) : Nat := curBit / 8 + if curBit % 8 = 0 then 0 else 1

def CloneSender.sendUpdates (m : CloneSender) : CloneSender :=
  if 0 < dataLength m.curBit then
    { m with sent := m.sent ++ [m.sendBuffer], sendBuffer := [], curBit := 0 }
  else m

def flushes (curBit : Nat) : Bool := decide (1100 < LZ4_compressBound (dataLength curBit))

def CloneSender.attemptFlushCloneBuffer (m : CloneSender) : CloneSender :=
  if flushes m.curBit then m.sendUpdates else m

section
variable (build : Build)

def CloneSender.write (m : CloneSender) (r : CloneRecord) : CloneSender :=
  { m with sendBuffer := m.sendBuffer ++ [r], curBit := m.curBit + r.bits build }

def CloneSender.touchTimestamp (ts : BitVec 32) (m : CloneSender) : CloneSender :=
  let kept := if 5000 < m.serverSendFrame then
      m.serverAcks.filter (fun e => decide (m.serverSendFrame - 5000 ≤ e.1))
    else m.serverAcks
  let m := { m with serverAcks := kept }
  let m := m.write build (.timestamp ts)
  let m := { m with serverSendFrame := m.serverSendFrame + 1 }
  m.write build (.frameIndex (BitVec.ofNat 32 m.serverSendFrame))

def writeRecord (ts : BitVec 32) (w : CloneSender × Bool) (r : CloneRecord) : CloneSender × Bool :=
  match r.ackKey with
  | some key =>
      let m := if w.2 then w.1 else w.1.touchTimestamp build ts
      let m := { m with serverAcks := m.serverAcks ++ [(m.serverSendFrame,PendingAck.mk key ts m.sent.length)] }
      ((m.write build r).attemptFlushCloneBuffer,true)
  | none => ((w.1.write build r).attemptFlushCloneBuffer,w.2)

def CloneSender.writeUpdates (m : CloneSender) (input : UpdateInput) : CloneSender :=
  if input.objectMgr then
    let (m,records) := collectUpdates input m
    (records.foldl (writeRecord build input.ts) (m,false)).1
  else m

def CloneSender.update (m : CloneSender) (input : UpdateInput) : CloneSender :=
  (m.writeUpdates build input).sendUpdates

def CloneSender.giveObjectToClient (m : CloneSender) (clientId objectId : Nat) : CloneSender :=
  (m.write build (.takeover clientId objectId)).attemptFlushCloneBuffer

end

inductive AckRecord where
  | ack (key : AckKey)
  | timestamp (ts : BitVec 32)
  deriving DecidableEq, Repr

def AckRecord.bits (build : Build) : AckRecord → Nat
  | .ack _ => 3 + Rl.hackLength build.lengthHack 13 + 16
  | .timestamp _ => 3 + 32

structure AckPacket where
  frameIndex : Nat
  records : List AckRecord
  deriving DecidableEq, Repr

def CloneSender.processTimestampAck (m : CloneSender) (ts : BitVec 32) : CloneSender := { m with ackTimestamp := ts }

def CloneSender.processCreateAck (m : CloneSender) (msec objectId uniqifier : Nat) : CloneSender :=
  { m with
    trackedObjects := m.trackedObjects.adjust objectId
      (fun tracked => if tracked.uniqifier = uniqifier then { tracked with lastSyncAck := msec } else tracked) }

def CloneSender.processRemoveAck (m : CloneSender) (objectId uniqifier : Nat) : CloneSender :=
  { m with
    pendingRemoveAcks := m.pendingRemoveAcks.filter (fun e =>
      !(if uniqifier = 0 then e.1.1 == objectId else e.1 == (objectId,uniqifier))) }

def CloneSender.processAck (m : CloneSender) (msec : Nat) (key : AckKey) : CloneSender :=
  match key.type with
  | 1 => m.processCreateAck msec key.objectId key.uniqifier
  | 3 => m.processRemoveAck key.objectId key.uniqifier
  | _ => m

def CloneSender.handleAckRecord (msec : Nat) (m : CloneSender) : AckRecord → CloneSender
  | .ack key => m.processAck msec key
  | .timestamp ts => m.processTimestampAck ts

def CloneSender.acksOf (m : CloneSender) (frameIndex : Nat) : List PendingAck :=
  (m.serverAcks.filter (fun e => e.1 == frameIndex)).map Prod.snd

def CloneSender.handleCloneAcks (m : CloneSender) (msec : Nat) (packet : AckPacket) : CloneSender :=
  if packet.frameIndex ≠ 0 then
    let m := (m.acksOf packet.frameIndex).foldl
      (fun m ack => (m.processTimestampAck ack.ts).processAck msec ack.key) m
    { m with serverAcks := m.serverAcks.filter (fun e => e.1 != packet.frameIndex) }
  else packet.records.foldl (CloneSender.handleAckRecord msec) m

structure CloneReceiver where
  fidx : Nat
  syncTs : BitVec 32
  ackTs : BitVec 32
  ackBuffer : List AckRecord
  ackBit : Nat
  sent : List AckPacket

def CloneReceiver.init : CloneReceiver := ⟨0,0,0,[],0,[]⟩

section
variable (build : Build)

def CloneReceiver.prepare (c : CloneReceiver) : CloneReceiver :=
  if c.fidx ≠ 0 then { c with ackBuffer := [], ackBit := 0 } else c

def CloneReceiver.flushBuffer (c : CloneReceiver) : CloneReceiver :=
  { c with sent := c.sent ++ [⟨c.fidx,c.ackBuffer⟩], ackBuffer := [], ackBit := 0 }

def CloneReceiver.flush (c : CloneReceiver) : CloneReceiver :=
  let c := c.prepare
  if 1100 - 12 - 12 < LZ4_compressBound (dataLength c.ackBit) then c.flushBuffer else c

def CloneReceiver.writeAck (c : CloneReceiver) (r : AckRecord) : CloneReceiver :=
  CloneReceiver.flush { c with ackBuffer := c.ackBuffer ++ [r], ackBit := c.ackBit + r.bits build }

def CloneReceiver.setTimestamp (c : CloneReceiver) (newTs : BitVec 32) : CloneReceiver :=
  if c.ackTs = 0 ∨ c.ackTs < newTs then { c with ackTs := newTs, syncTs := newTs } else c

def CloneReceiver.parseRecord (c : CloneReceiver) (r : CloneRecord) : CloneReceiver :=
  match r with
  | .object syncType uniqifier objectId _ _ _ => c.writeAck build (.ack ⟨syncType,objectId,uniqifier⟩)
  | .remove objectId uniqifier => c.writeAck build (.ack ⟨3,objectId,uniqifier⟩)
  | .takeover _ _ => c
  | .timestamp newTs => (c.writeAck build (.timestamp newTs)).setTimestamp newTs
  | .frameIndex newIndex => { c with fidx := newIndex.toNat }

def CloneReceiver.parseClonePacket (c : CloneReceiver) (packet : List CloneRecord) : CloneReceiver :=
  (packet.foldl (CloneReceiver.parseRecord build) c).prepare.flushBuffer

end

structure CloneLink where
  client : CloneSender
  server : CloneReceiver
  received : List Nat
  framed : List PendingAck
  explicit : List AckKey

def CloneLink.init : CloneLink := ⟨.init,.init,[],[],[]⟩

inductive LinkOp where
  | update (input : UpdateInput)
  | giveObjectToClient (clientId objectId : Nat)
  | destroyNetworkObject (msec objectId rand : Nat) (parrotDeletion : Bool)
  | deliverClones (packet : Nat)
  | deliverAcks (msec packet : Nat)

def explicitKeys (packet : AckPacket) : List AckKey :=
  packet.records.filterMap (fun | .ack key => some key | .timestamp _ => none)

def CloneLink.deliverAcks (l : CloneLink) (msec : Nat) (packet : AckPacket) : CloneLink :=
  let l := if packet.frameIndex ≠ 0 then
      { l with framed := l.framed ++ l.client.acksOf packet.frameIndex }
    else { l with explicit := l.explicit ++ explicitKeys packet }
  { l with client := l.client.handleCloneAcks msec packet }

def CloneLink.step (build : Build) (l : CloneLink) : LinkOp → CloneLink
  | .update input => { l with client := l.client.update build input }
  | .giveObjectToClient clientId objectId =>
      { l with client := l.client.giveObjectToClient build clientId objectId }
  | .destroyNetworkObject msec objectId rand parrotDeletion =>
      { l with client := l.client.destroyNetworkObject msec objectId rand parrotDeletion }
  | .deliverClones packet =>
      match l.client.sent[packet]? with
      | some records =>
          { l with
            server := l.server.parseClonePacket build records
            received := packet :: l.received }
      | none => l
  | .deliverAcks msec packet =>
      match l.server.sent[packet]? with
      | some acks => l.deliverAcks msec acks
      | none => l

end Citizen.Clone
