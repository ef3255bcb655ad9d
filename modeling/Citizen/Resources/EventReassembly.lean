import Citizen.Lib.Run
import Citizen.Lib.Table
import Citizen.Resources.EventPacket
import Mathlib.Data.List.Sort

/-! `EventReassemblyComponentImpl`: events cut into fragments, sent to each target until
that target has acknowledged all of them, and put together again by the receiver. A null
`PerTargetData` pointer is an absent entry. The 64-bit id counter does not wrap in any
run a process can make, so it is a natural number here and cut only on the wire. -/
namespace Citizen.Resources
open BitField (Byte byteAt bitAt Field)
open Rl (MessageBuffer)

structure PerTargetData where
  lastSend : Int
  delayNextSend : Int
  ackBits : List Bool
  lastBit : Nat
  deriving DecidableEq, Repr

structure SendEvent where
  targets : List Int
  bytesPerSecond : Int
  sendPayload : List Byte
  targetData : Table Int PerTargetData

structure ReceiveEvent where
  source : Int
  ackedBits : List Bool
  completed : Bool
  timeLastAck : Int
  packetData : List (Nat × List Byte)
  deriving DecidableEq, Repr

structure Target where
  id : Int
  maxPendingEvents : BitVec 8
  deriving DecidableEq, Repr

structure Component where
  sendList : Table Nat SendEvent
  sendListV2 : Table Nat SendEvent
  receiveList : Table Int (Table Nat ReceiveEvent)
  targets : Table Int Target
  eventId : Nat
  lastTime : Int
  lastCleanup : Int
  eventName : List Byte

def Component.init (now : Int) : Component :=
  ⟨∅,∅,∅,∅,0,now,now,List.replicate 65536 0⟩

inductive Output where
  | sendPacket (target : Int) (data : List Byte)
  | sendPacketV2 (target : Int) (packet : ReassembledEventV2)
  | queueEvent (name data : List Byte) (source : String)
  deriving DecidableEq, Repr

/-! Targets. -/

def Component.registerTarget (c : Component) (id : Int) (maxPendingEvents : BitVec 8) : Component :=
  { c with targets := c.targets.insert id ⟨id,maxPendingEvents⟩ }

def unregisterSendList (target : Int) (sendList : Table Nat SendEvent) : Table Nat SendEvent :=
  Table.mapValues (fun _ sendPacket =>
    { sendPacket with
      targetData := sendPacket.targetData.erase target
      targets := sendPacket.targets.erase target }) sendList

def Component.unregisterTarget (c : Component) (id : Int) : Component :=
  if (c.targets.lookup id).isSome then
    { c with
      targets := c.targets.erase id
      receiveList := c.receiveList.erase id
      sendList := unregisterSendList id c.sendList
      sendListV2 := unregisterSendList id c.sendListV2 }
  else c

/-! Sending. -/

def packetCount (fragmentSize size : Nat) : Nat :=
  size / fragmentSize + if size % fragmentSize ≠ 0 then 1 else 0

def Component.sendTargets (c : Component) (target : Int) : Option (List Int) :=
  if target = -1 then some (c.targets.keys.insertionSort (· ≤ ·))
  else if (c.targets.lookup target).isSome then some [target]
  else none

def totalSize (eventName eventPayload : List Byte) : Nat :=
  (eventPayload.length + eventName.length + 2) % 2 ^ 32

def payloadBuf (eventName eventPayload : List Byte) : List Byte :=
  let buf := MessageBuffer.ofSize (eventName.length + 2 + eventPayload.length)
  let buf := buf.write false 16 (eventName.length % 2 ^ 32)
  let buf := (buf.writeBits eventName (eventName.length * 8)).2
  Rl.memcpy buf.data (buf.curBit / 8) eventPayload 0 eventPayload.length

def payloadBufV2 (eventName eventPayload : List Byte) : List Byte :=
  let eventNameSize := eventName.length % 2 ^ 16
  [BitVec.ofNat 8 eventNameSize,BitVec.ofNat 8 (eventNameSize / 2 ^ 8)] ++
    eventName.take eventNameSize ++ eventPayload ++
    List.replicate (eventName.length - eventNameSize) 0

def newSendEvent (fragmentSize : Nat) (targets : List Int) (bytesPerSecond : Int)
    (sendPayload : List Byte) : SendEvent where
  targets := targets
  bytesPerSecond := bytesPerSecond
  sendPayload := sendPayload
  targetData := targets.foldl (fun data target => data.insert target
    ⟨0,0,List.replicate (packetCount fragmentSize sendPayload.length) false,0⟩) ∅

def defaultRate (bytesPerSecond : Int) : Int := if bytesPerSecond ≤ 0 then 25000 else bytesPerSecond

def Component.triggerEvent (c : Component) (target : Int) (eventName eventPayload : List Byte)
    (bytesPerSecond : Int) : Component :=
  if ReassembledEvent.kMaxPacketSize ≤ totalSize eventName eventPayload then c
  else match c.sendTargets target with
  | none => c
  | some targets =>
      { c with
        sendList := c.sendList.insert c.eventId (newSendEvent ReassembledEvent.kFragmentSize targets
          (defaultRate bytesPerSecond) (payloadBuf eventName eventPayload))
        eventId := c.eventId + 1 }

def Component.triggerEventV2 (c : Component) (target : Int) (eventName eventPayload : List Byte)
    (bytesPerSecond : Int) : Component :=
  if ReassembledEventV2.kMaxPacketSize ≤ totalSize eventName eventPayload then c
  else match c.sendTargets target with
  | none => c
  | some targets =>
      { c with
        sendListV2 := c.sendListV2.insert c.eventId (newSendEvent ReassembledEventV2.kFragmentSize targets
          (defaultRate bytesPerSecond) (payloadBufV2 eventName eventPayload))
        eventId := c.eventId + 1 }

/-! Receiving. -/

def insertFragment (packetIdx : Nat) (bytes : List Byte) :
    List (Nat × List Byte) → List (Nat × List Byte)
  | [] => [(packetIdx,bytes)]
  | (key,value) :: rest =>
      if packetIdx < key then (packetIdx,bytes) :: (key,value) :: rest
      else if packetIdx = key then (packetIdx,bytes) :: rest
      else (key,value) :: insertFragment packetIdx bytes rest

def Component.storeReceive (c : Component) (source : Int) (eventId : Nat) (event : ReceiveEvent) : Component :=
  { c with
    receiveList := c.receiveList.insert source
      (((c.receiveList.lookup source).getD ∅).insert eventId event) }

def Component.findReceive (c : Component) (source : Int) (eventId : Nat) : Option ReceiveEvent :=
  (c.receiveList.lookup source).bind (·.lookup eventId)

structure Receipt where
  component : Component
  answered : Bool
  completed : Option ReceiveEvent

def Component.returnQuota (c : Component) (source : Int) : Component :=
  if source ≠ 0 then
    { c with
      targets := Table.adjust source
        (fun target => { target with maxPendingEvents := target.maxPendingEvents + 1#8 }) c.targets }
  else c

def ReceiveEvent.hasAll (event : ReceiveEvent) : Bool := event.ackedBits.all id

def ReceiveEvent.accept (event : ReceiveEvent) (packetIdx : Nat) (bytes : List Byte) (now : Int) : ReceiveEvent :=
  let ackBits := event.ackedBits.set packetIdx true
  { event with
    ackedBits := ackBits
    packetData := insertFragment packetIdx bytes event.packetData
    timeLastAck := now
    completed := event.completed || ackBits.all id }

def Component.keepFragment (c : Component) (source : Int) (eventId : Nat) (event : ReceiveEvent)
    (packetIdx : Nat) (bytes : List Byte) (now : Int) : Receipt :=
  let event := event.accept packetIdx bytes now
  let c := c.storeReceive source eventId event
  if event.hasAll then ⟨c.returnQuota source,true,some event⟩ else ⟨c,true,none⟩

def ReceiveEvent.settled (event : ReceiveEvent) (packetIdx : Nat) : Bool :=
  event.completed || event.ackedBits.getD packetIdx false

def Component.acceptFragment (c : Component) (source : Int) (eventId : Nat) (event : ReceiveEvent)
    (packetIdx : Nat) (bytes : List Byte) (now : Int) : Receipt :=
  if event.source = source ∧ event.settled packetIdx then
    ⟨c.storeReceive source eventId { event with timeLastAck := now },true,none⟩
  else if event.source = source then c.keepFragment source eventId event packetIdx bytes now
  else ⟨c.storeReceive source eventId event,false,none⟩

def Component.takeQuota (c : Component) (source : Int) (target : Target) : Component :=
  if target.maxPendingEvents = 0xFF#8 then c
  else
    { c with
      targets := c.targets.insert source
        { target with maxPendingEvents := target.maxPendingEvents - 1#8 } }

def Component.openReceive (c : Component) (source : Int) : Component :=
  { c with receiveList := c.receiveList.insert source ((c.receiveList.lookup source).getD ∅) }

def newReceiveEvent (source : Int) (totalPackets : Nat) : ReceiveEvent :=
  ⟨source,List.replicate totalPackets false,false,0,[]⟩

def Component.receiveFragment (c : Component) (source : Int)
    (eventId packetIdx totalPackets : Nat) (bytes : List Byte) (now : Int) : Receipt :=
  let c := c.openReceive source
  match c.findReceive source eventId with
  | some event => c.acceptFragment source eventId event packetIdx bytes now
  | none =>
      match c.targets.lookup source with
      | none => ⟨c,false,none⟩
      | some target =>
          if target.maxPendingEvents = 0#8 then ⟨c,false,none⟩
          else (c.takeQuota source target).acceptFragment source eventId
            (newReceiveEvent source totalPackets) packetIdx bytes now

def ackSendList (sendList : Table Nat SendEvent) (source : Int) (eventId packetIdx : Nat) : Table Nat SendEvent :=
  Table.adjust eventId (fun sendData =>
    { sendData with
      targetData := Table.adjust source (fun data =>
        { data with ackBits := data.ackBits.set packetIdx true }) sendData.targetData }) sendList

/-! Reassembly. -/

def ReceiveEvent.copies (event : ReceiveEvent) (fragmentSize : Nat) : List (Nat × List Byte) :=
  event.packetData.map (fun packet => (packet.1 * fragmentSize % 2 ^ 32,packet.2))

def ReceiveEvent.bufferSize (event : ReceiveEvent) (fragmentSize : Nat) : Nat :=
  event.ackedBits.length * fragmentSize

def ReceiveEvent.readSize (event : ReceiveEvent) : Nat :=
  (event.packetData.map (fun packet => packet.2.length)).sum

def ReceiveEvent.eventPayload (event : ReceiveEvent) (fragmentSize : Nat) : List Byte :=
  (event.copies fragmentSize).foldl (fun payload copy => Rl.memcpy payload copy.1 copy.2 0 copy.2.length)
    (List.replicate (event.bufferSize fragmentSize) 0)

def ReceiveEvent.view (event : ReceiveEvent) (fragmentSize : Nat) : List Byte :=
  (event.eventPayload fragmentSize).take event.readSize ++
    List.replicate (event.readSize - event.bufferSize fragmentSize) 0

/-- A name or data of `none` is a `std::string` that cannot be built: a length of
`size_t(-1)`, or of a difference below zero, makes its constructor throw. -/
structure ParsedEvent where
  nameLength : Nat
  name : Option (List Byte)
  data : Option (List Byte)
  eventName : List Byte
  deriving DecidableEq, Repr

def parseEvent (eventName view : List Byte) : ParsedEvent :=
  let (nameLength,buffer) := (MessageBuffer.ofData view).read false 16
  let (_,eventName,buffer) := buffer.readBits eventName (nameLength * 8)
  let eventName := eventName.set nameLength 0
  { nameLength
    name := if nameLength = 0 then none else some (eventName.take (nameLength - 1))
    data := if view.length < buffer.curBit / 8 then none else some (view.drop (buffer.curBit / 8))
    eventName }

def parseEventV2 (uninitialised : Nat) (eventName view : List Byte) : ParsedEvent :=
  let (nameLength,offset) :=
    if 2 ≤ view.length then ((byteAt view 0).toNat + 2 ^ 8 * (byteAt view 1).toNat,2)
    else (uninitialised,0)
  let (name,offset) :=
    if offset + nameLength ≤ view.length then ((view.drop offset).take nameLength,offset + nameLength)
    else ([],offset)
  { nameLength,name := some name,data := some (view.drop offset),eventName }

/-- What a delivery depends on besides the packet; `LimitEvent` is the sink's answer. -/
structure Arrival where
  source : Int
  now : Int
  limited : Bool
  payload : List Byte
  buf : List Byte
  nameLength : Nat
  deriving DecidableEq, Repr

def sourceStr (source : Int) : String := "net:" ++ toString source

def Component.handleReceivedPacket (c : Component) (arrival : Arrival) (eventId : Nat)
    (event : ReceiveEvent) (fragmentSize : Nat) (v2 : Bool) : Component × List Output :=
  let view := event.view fragmentSize
  let parsed := if v2 then parseEventV2 arrival.nameLength c.eventName view
    else parseEvent c.eventName view
  let released := { event with packetData := event.packetData.map (fun packet => (packet.1,[])) }
  let c := { c.storeReceive arrival.source eventId released with eventName := parsed.eventName }
  if arrival.limited then (c,[])
  else match parsed.name,parsed.data with
  | some name,some data => (c,[.queueEvent name data (sourceStr arrival.source)])
  | _,_ => (c,[])

def Component.finishReceipt (arrival : Arrival) (eventId fragmentSize : Nat) (v2 : Bool)
    (ack : Output) (receipt : Receipt) : Component × List Output :=
  let acks := if receipt.answered then [ack] else []
  match receipt.completed with
  | none => (receipt.component,acks)
  | some event =>
      let (c,queued) :=
        receipt.component.handleReceivedPacket arrival eventId event fragmentSize v2
      (c,acks ++ queued)

def Component.handlePacket (c : Component) (arrival : Arrival) (data : List Byte) : Component × List Output :=
  match EventPacket.parse arrival.payload (.ofData data) with
  | none => (c,[])
  | some packet =>
      if packet.totalPackets = 0 then (c,[])
      else if packet.isAck then
        ({ c with sendList := ackSendList c.sendList arrival.source packet.eventId packet.packetIdx },[])
      else
        Component.finishReceipt arrival packet.eventId ReassembledEvent.kFragmentSize false
          (.sendPacket arrival.source ({ packet with thisBytes := 0 }.datagram arrival.buf))
          (c.receiveFragment arrival.source packet.eventId packet.packetIdx packet.totalPackets
            (packet.payload.take packet.thisBytes) arrival.now)

def Component.handlePacketV2 (c : Component) (arrival : Arrival) (packet : ReassembledEventV2) :
    Component × List Output :=
  if packet.totalPackets = 0 then (c,[])
  else if packet.isAck then
    -- looks the event up among the version 1 events, as the source does
    ({ c with sendList := ackSendList c.sendList arrival.source packet.eventId packet.packetIdx },[])
  else
    Component.finishReceipt arrival packet.eventId ReassembledEventV2.kFragmentSize true
      (.sendPacketV2 arrival.source { packet with data := [] })
      (c.receiveFragment arrival.source packet.eventId packet.packetIdx packet.totalPackets
        packet.data arrival.now)

/-! The network tick. -/

def firstUnset (ackBits : List Bool) (start : Nat) : Nat → Option Nat
  | 0 => none
  | count + 1 => if ackBits.getD start true then firstUnset ackBits (start + 1) count else some start

structure Clock where
  now : Int
  /-- `1000 / (bytesPerSecond / fragmentSize)` in floating point, as whole milliseconds. -/
  latency : Int → Nat → Nat
  buf : List Byte

structure TargetTick where
  data : Option PerTargetData
  done : Bool
  sent : List Nat
  deriving DecidableEq, Repr

def burst (now : Int) (latency startBit : Nat) : Nat → Int → PerTargetData → TargetTick
  | 0,_,data => ⟨some data,false,[]⟩
  | rounds + 1,resTime,data =>
      match firstUnset data.ackBits data.lastBit (data.ackBits.length - data.lastBit),
        firstUnset data.ackBits 0 data.lastBit with
      | none,none => ⟨none,true,[]⟩
      | none,some firstPacketIdx =>
          ⟨some { data with lastBit := firstPacketIdx,delayNextSend := now + 250 },false,[]⟩
      | some packetIdx,_ =>
          let data := { data with lastBit := (packetIdx + 1) % data.ackBits.length }
          let resTime := if latency < resTime then resTime - latency else resTime
          if data.lastBit ≤ startBit then
            ⟨some { data with delayNextSend := now + 250 },false,[packetIdx]⟩
          else if latency < resTime then
            let rest := burst now latency startBit rounds resTime data
            { rest with sent := packetIdx :: rest.sent }
          else ⟨some data,false,[packetIdx]⟩

def PerTargetData.due (data : PerTargetData) (now : Int) (latency : Nat) : Prop :=
  data.lastSend + latency < now ∧ data.delayNextSend < now

instance (data : PerTargetData) (now : Int) (latency : Nat) : Decidable (data.due now latency) :=
  inferInstanceAs (Decidable (_ ∧ _))

def tickTarget (now dT : Int) (latency : Nat) (registered : Bool) (data : Option PerTargetData) : TargetTick :=
  if !registered then ⟨data,true,[]⟩
  else match data with
  | none => ⟨none,false,[]⟩
  | some data =>
      if data.due now latency then
        let ticked := burst now latency data.lastBit (data.ackBits.length + 1) dT data
        { ticked with data := ticked.data.map (fun data => { data with lastSend := now }) }
      else if now ≤ data.delayNextSend then ⟨some { data with lastSend := now },false,[]⟩
      else ⟨some data,false,[]⟩

def SendEvent.fragment (sendPacket : SendEvent) (fragmentSize packetIdx : Nat) : List Byte :=
  (sendPacket.sendPayload.drop (packetIdx * fragmentSize)).take fragmentSize

def SendEvent.packet (sendPacket : SendEvent) (eventId packetIdx count : Nat) : EventPacket :=
  let bytes := sendPacket.fragment ReassembledEvent.kFragmentSize packetIdx
  ⟨eventId,packetIdx,count,bytes.length,bytes⟩

def SendEvent.packetV2 (sendPacket : SendEvent) (eventId packetIdx count : Nat) : ReassembledEventV2 :=
  ⟨eventId,packetIdx % 2 ^ 16,count % 2 ^ 16,
    sendPacket.fragment ReassembledEventV2.kFragmentSize packetIdx⟩

def SendEvent.output (sendPacket : SendEvent) (clock : Clock) (v2 : Bool) (eventId : Nat)
    (target : Int) (count packetIdx : Nat) : Output :=
  if v2 then .sendPacketV2 target (sendPacket.packetV2 eventId packetIdx count)
  else .sendPacket target ((sendPacket.packet eventId packetIdx count).datagram clock.buf)

def SendEvent.tickOf (sendPacket : SendEvent) (clock : Clock) (dT : Int) (fragmentSize : Nat)
    (registered : Int → Bool) (target : Int) : TargetTick :=
  tickTarget clock.now dT (clock.latency sendPacket.bytesPerSecond fragmentSize) (registered target)
    (sendPacket.targetData.lookup target)

def SendEvent.tick (sendPacket : SendEvent) (clock : Clock) (dT : Int) (fragmentSize : Nat)
    (registered : Int → Bool) : SendEvent :=
  let ticked := sendPacket.tickOf clock dT fragmentSize registered
  { sendPacket with
    targets := sendPacket.targets.filter (fun target => !(ticked target).done)
    targetData := Table.filterMapValues (fun target data =>
      if target ∈ sendPacket.targets then (ticked target).data else some data) sendPacket.targetData }

def SendEvent.tickOutputs (sendPacket : SendEvent) (clock : Clock) (dT : Int) (fragmentSize : Nat)
    (v2 : Bool) (registered : Int → Bool) (eventId : Nat) : List Output :=
  sendPacket.targets.flatMap (fun target =>
    (sendPacket.tickOf clock dT fragmentSize registered target).sent.map
      (sendPacket.output clock v2 eventId target
        (((sendPacket.targetData.lookup target).map (·.ackBits.length)).getD 0)))

def networkTickSendList (clock : Clock) (dT : Int) (sendList : Table Nat SendEvent)
    (fragmentSize : Nat) (registered : Int → Bool) : Table Nat SendEvent :=
  Table.filterMapValues (fun _ sendPacket =>
    let ticked := sendPacket.tick clock dT fragmentSize registered
    if ticked.targets.isEmpty then none else some ticked) sendList

def sendListOutputs (clock : Clock) (dT : Int) (sendList : Table Nat SendEvent)
    (fragmentSize : Nat) (v2 : Bool) (registered : Int → Bool) : List Output :=
  sendList.entries.flatMap (fun e => e.2.tickOutputs clock dT fragmentSize v2 registered e.1)

def gcTime : Int := 120000

def cleanupReceiveList (now : Int) (receiveList : Table Int (Table Nat ReceiveEvent)) :
    Table Int (Table Nat ReceiveEvent) :=
  Table.mapValues (fun _ events => Table.keep (fun _ event =>
    !(event.completed && decide (gcTime ≤ now - event.timeLastAck))) events) receiveList

def Component.networkTick (c : Component) (clock : Clock) : Component × List Output :=
  let dT := clock.now - c.lastTime
  let registered := fun target => (c.targets.lookup target).isSome
  let cleanup := decide (gcTime ≤ clock.now - c.lastCleanup)
  ({ c with
      lastTime := clock.now
      sendList := networkTickSendList clock dT c.sendList ReassembledEvent.kFragmentSize registered
      sendListV2 := networkTickSendList clock dT c.sendListV2 ReassembledEventV2.kFragmentSize registered
      lastCleanup := if cleanup then clock.now else c.lastCleanup
      receiveList := if cleanup then cleanupReceiveList clock.now c.receiveList else c.receiveList },
    sendListOutputs clock dT c.sendList ReassembledEvent.kFragmentSize false registered ++
      sendListOutputs clock dT c.sendListV2 ReassembledEventV2.kFragmentSize true registered)

/-! Runs. -/

inductive Op where
  | registerTarget (id : Int) (maxPendingEvents : BitVec 8)
  | unregisterTarget (id : Int)
  | triggerEvent (target : Int) (eventName eventPayload : List Byte) (bytesPerSecond : Int)
  | triggerEventV2 (target : Int) (eventName eventPayload : List Byte) (bytesPerSecond : Int)
  | handlePacket (arrival : Arrival) (data : List Byte)
  | handlePacketV2 (arrival : Arrival) (packet : ReassembledEventV2)
  | networkTick (clock : Clock)

def Component.apply (c : Component) : Op → Component × List Output
  | .registerTarget id maxPendingEvents => (c.registerTarget id maxPendingEvents,[])
  | .unregisterTarget id => (c.unregisterTarget id,[])
  | .triggerEvent target name payload rate => (c.triggerEvent target name payload rate,[])
  | .triggerEventV2 target name payload rate => (c.triggerEventV2 target name payload rate,[])
  | .handlePacket arrival data => c.handlePacket arrival data
  | .handlePacketV2 arrival packet => c.handlePacketV2 arrival packet
  | .networkTick clock => c.networkTick clock

def Component.step (c : Component) (op : Op) : Component := (c.apply op).1

end Citizen.Resources
