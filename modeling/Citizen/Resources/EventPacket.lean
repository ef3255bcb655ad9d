import Citizen.Net.MessageBufferBits

/-! The event fragment of both protocol versions. A version 1 fragment is a 108-bit
header and its payload in a bit buffer; its acknowledgement is the header alone, with
no bytes. `stack` is the uninitialised memory that the source parses or writes over. -/
namespace Citizen.Resources
open BitField (Byte byteAt bitAt Field)
open Rl (MessageBuffer)

namespace ReassembledEvent
def kPacketSizeBits : Nat := 17
def kFragmentSize : Nat := 1024 - 1
def kFragmentSizeBits : Nat := 10
def kMaxPacketSize : Nat := 2 ^ kPacketSizeBits * kFragmentSize
end ReassembledEvent

namespace ReassembledEventV2
def kPacketSizeBits : Nat := 16
def kFragmentSize : Nat := 2048 - 1
def kMaxPacketSize : Nat := 2 ^ kPacketSizeBits * kFragmentSize
end ReassembledEventV2

structure ReassembledEventV2 where
  eventId : Nat
  packetIdx : Nat
  totalPackets : Nat
  data : List Byte
  deriving DecidableEq, Repr

def ReassembledEventV2.isAck (packet : ReassembledEventV2) : Bool := packet.data.isEmpty

structure EventPacket where
  eventId : Nat
  packetIdx : Nat
  totalPackets : Nat
  thisBytes : Nat
  payload : List Byte
  deriving DecidableEq, Repr

def EventPacket.isAck (packet : EventPacket) : Bool := packet.thisBytes == 0

def EventPacket.parse (stack : List Byte) (buffer : MessageBuffer) : Option EventPacket :=
  match buffer.readBitsSingle false 32 with
  | (none,_) => none
  | (some eventIdLow,buffer) =>
  match buffer.readBitsSingle false 32 with
  | (none,_) => none
  | (some eventIdHigh,buffer) =>
  match buffer.readBitsSingle false ReassembledEvent.kPacketSizeBits with
  | (none,_) => none
  | (some packetIdx,buffer) =>
  match buffer.readBitsSingle false ReassembledEvent.kPacketSizeBits with
  | (none,_) => none
  | (some totalPackets,buffer) =>
  match buffer.readBitsSingle false ReassembledEvent.kFragmentSizeBits with
  | (none,_) => none
  | (some thisBytes,buffer) =>
    let payload :=
      if 0 < thisBytes.toNat then
        (buffer.readBits stack (min thisBytes.toNat ReassembledEvent.kFragmentSize * 8)).2.1
      else stack
    some ⟨eventIdHigh.toNat * 2 ^ 32 + eventIdLow.toNat,packetIdx.toNat,totalPackets.toNat,
      thisBytes.toNat,payload⟩

def EventPacket.unparseHeader (packet : EventPacket) (buffer : MessageBuffer) : MessageBuffer :=
  let buffer := buffer.write false 32 (packet.eventId % 2 ^ 32)
  let buffer := buffer.write false 32 (packet.eventId / 2 ^ 32)
  let buffer := buffer.write false ReassembledEvent.kPacketSizeBits packet.packetIdx
  let buffer := buffer.write false ReassembledEvent.kPacketSizeBits packet.totalPackets
  buffer.write false ReassembledEvent.kFragmentSizeBits packet.thisBytes

def EventPacket.unparse (packet : EventPacket) (buffer : MessageBuffer) : MessageBuffer :=
  let buffer := packet.unparseHeader buffer
  if 0 < packet.thisBytes then (buffer.writeBits packet.payload (packet.thisBytes * 8)).2 else buffer

def EventPacket.datagram (packet : EventPacket) (stack : List Byte) : List Byte :=
  let view := packet.unparse (.ofData stack)
  view.data.take view.getDataLength

structure EventPacket.Header (packet : EventPacket) (data : List Byte) : Prop where
  low : Field data 0 32 (packet.eventId % 2 ^ 32)
  high : Field data 32 32 (packet.eventId / 2 ^ 32)
  packetIdx : Field data 64 17 packet.packetIdx
  totalPackets : Field data 81 17 packet.totalPackets
  thisBytes : Field data 98 10 packet.thisBytes

theorem EventPacket.Header.ofPrefix {packet : EventPacket} {old new : List Byte}
    (header : packet.Header old) (unchanged : ∀ i < 108, bitAt new i = bitAt old i) :
    packet.Header new where
  low := header.low.ofPrefix (fun i hi => unchanged i (by omega))
  high := header.high.ofPrefix (fun i hi => unchanged i (by omega))
  packetIdx := header.packetIdx.ofPrefix (fun i hi => unchanged i (by omega))
  totalPackets := header.totalPackets.ofPrefix (fun i hi => unchanged i (by omega))
  thisBytes := header.thisBytes.ofPrefix (fun i hi => unchanged i (by omega))

section
variable (packet : EventPacket) {stack : List Byte} (size : stack.length = 1536)
include size

theorem unparseHeader : packet.Header (packet.unparseHeader (.ofData stack)).data ∧
      (packet.unparseHeader (.ofData stack)).curBit = 108 ∧
      (packet.unparseHeader (.ofData stack)).data.length = 1536 ∧ (packet.unparseHeader (.ofData stack)).Sized := by
  have sized : (MessageBuffer.ofData stack).Sized := Rl.sizedOfData (by omega)
  have empty : (MessageBuffer.ofData stack).curBit = 0 := rfl
  have whole : (MessageBuffer.ofData stack).data.length = 1536 := size
  simp only [EventPacket.unparseHeader,ReassembledEvent.kPacketSizeBits,
    ReassembledEvent.kFragmentSizeBits]
  generalize MessageBuffer.ofData stack = b0 at *
  obtain ⟨low,e1,c1⟩ := Rl.writeField (packet.eventId % 2 ^ 32) sized (by omega) (by omega)
    (show b0.curBit + 32 ≤ 8 * b0.data.length by omega)
  generalize b0.write false 32 (packet.eventId % 2 ^ 32) = b1 at *
  have l1 := e1.length
  obtain ⟨high,e2,c2⟩ := Rl.writeField (packet.eventId / 2 ^ 32) e1.sized (by omega) (by omega)
    (show b1.curBit + 32 ≤ 8 * b1.data.length by omega)
  generalize b1.write false 32 (packet.eventId / 2 ^ 32) = b2 at *
  have l2 := e2.length
  obtain ⟨packetIdx,e3,c3⟩ := Rl.writeField packet.packetIdx e2.sized (by omega) (by omega)
    (show b2.curBit + 17 ≤ 8 * b2.data.length by omega)
  generalize b2.write false 17 packet.packetIdx = b3 at *
  have l3 := e3.length
  obtain ⟨totalPackets,e4,c4⟩ := Rl.writeField packet.totalPackets e3.sized (by omega) (by omega)
    (show b3.curBit + 17 ≤ 8 * b3.data.length by omega)
  generalize b3.write false 17 packet.totalPackets = b4 at *
  have l4 := e4.length
  obtain ⟨thisBytes,e5,c5⟩ := Rl.writeField packet.thisBytes e4.sized (by omega) (by omega)
    (show b4.curBit + 10 ≤ 8 * b4.data.length by omega)
  generalize b4.write false 10 packet.thisBytes = b5 at *
  have l5 := e5.length
  have p1 : b1.curBit = 32 := by omega
  have p2 : b2.curBit = 64 := by omega
  have p3 : b3.curBit = 81 := by omega
  have p4 : b4.curBit = 98 := by omega
  rw [empty] at low
  rw [p1] at high
  rw [p2] at packetIdx
  rw [p3] at totalPackets
  rw [p4] at thisBytes
  refine ⟨⟨?_,?_,?_,?_,thisBytes⟩,by omega,by omega,e5.sized⟩
  · exact (e2.trans (e3.trans (e4.trans e5))).field (by omega) low
  · exact (e3.trans (e4.trans e5)).field (by omega) high
  · exact (e4.trans e5).field (by omega) packetIdx
  · exact e5.field (by omega) totalPackets

theorem datagramBits (bytes : packet.thisBytes ≤ 1023) : packet.Header (packet.datagram stack) ∧
      (packet.datagram stack).length = packet.thisBytes + 14 ∧
      ∀ i < 8 * packet.thisBytes, bitAt (packet.datagram stack) (108 + i) = bitAt packet.payload i := by
  obtain ⟨header,cursor,whole,sized⟩ := unparseHeader packet size
  simp only [EventPacket.datagram,EventPacket.unparse]
  generalize packet.unparseHeader (.ofData stack) = b at *
  by_cases ack : 0 < packet.thisBytes
  · rw [if_pos ack]
    obtain ⟨extend,last⟩ := @Rl.writeBitsExtends b (packet.thisBytes * 8) packet.payload sized
      (by omega) (by omega)
    have bits := fun p => @Rl.writeBitsBits b (packet.thisBytes * 8) packet.payload p sized
      (by omega) (by omega)
    have length := extend.length
    generalize (b.writeBits packet.payload (packet.thisBytes * 8)).2 = b' at *
    have taken : b'.getDataLength = packet.thisBytes + 14 := by
      rw [MessageBuffer.getDataLength,if_neg (by omega)]
      omega
    rw [taken]
    refine ⟨header.ofPrefix ?_,?_,?_⟩
    · intro i hi
      rw [BitField.bitAtTake _ _ (by omega),extend.settled i (by omega)]
    · rw [List.length_take]
      omega
    · intro i hi
      rw [BitField.bitAtTake _ _ (by omega),bits,if_pos (by omega)]
      congr 1
      omega
  · rw [if_neg ack]
    have taken : b.getDataLength = 14 := by
      rw [MessageBuffer.getDataLength,if_neg (by omega)]
      omega
    rw [taken]
    refine ⟨header.ofPrefix ?_,?_,fun i hi => by omega⟩
    · intro i hi
      rw [BitField.bitAtTake _ _ (by omega)]
    · rw [List.length_take]
      omega

end

def EventPacket.received (packet : EventPacket) (stack : List Byte) : EventPacket where
  eventId := packet.eventId % 2 ^ 64
  packetIdx := packet.packetIdx % 2 ^ 17
  totalPackets := packet.totalPackets % 2 ^ 17
  thisBytes := packet.thisBytes
  payload := packet.payload.take packet.thisBytes ++ stack.drop packet.thisBytes

theorem parseDatagram {packet : EventPacket} {sent stack : List Byte} (size : sent.length = 1536)
    (bytes : packet.thisBytes ≤ 1023)
    (payload : packet.thisBytes ≤ packet.payload.length) (room : stack.length = 1023) :
    EventPacket.parse stack (.ofData (packet.datagram sent)) = some (packet.received stack) := by
  obtain ⟨header,length,bits⟩ := datagramBits packet size bytes
  generalize packet.datagram sent = data at *
  have sized : (MessageBuffer.ofData data).Sized := Rl.sizedOfData (by omega)
  have advance : ∀ n, ({ MessageBuffer.ofData data with curBit := n } : MessageBuffer).Sized :=
    fun _ => sized
  have view : (MessageBuffer.ofData data) = { MessageBuffer.ofData data with curBit := 0 } := rfl
  have read : ∀ {n start value}, 0 < n → n ≤ 32 → start + n ≤ 108 → Field data start n value →
      MessageBuffer.readBitsSingle false { MessageBuffer.ofData data with curBit := start } n =
        (some (BitVec.ofNat 32 (value % 2 ^ n)),
          { MessageBuffer.ofData data with curBit := start + n }) := by
    intro n start value positive small inside field
    exact Rl.readField (advance start) positive small
      (show start + n ≤ 8 * data.length by omega) field
  rw [EventPacket.parse,view,ReassembledEvent.kPacketSizeBits,ReassembledEvent.kFragmentSizeBits,
    read (by omega) (by omega) (by omega) header.low]
  dsimp only
  rw [read (by omega) (by omega) (by omega) header.high]
  dsimp only
  rw [read (by omega) (by omega) (by omega) header.packetIdx]
  dsimp only
  rw [read (by omega) (by omega) (by omega) header.totalPackets]
  dsimp only
  rw [read (by omega) (by omega) (by omega) header.thisBytes]
  simp only [BitVec.toNat_ofNat,EventPacket.received,Option.some.injEq,EventPacket.mk.injEq]
  have tail : packet.thisBytes % 2 ^ 10 % 2 ^ 32 = packet.thisBytes := by omega
  rw [tail]
  refine ⟨by omega,by omega,by omega,rfl,?_⟩
  by_cases ack : 0 < packet.thisBytes
  · rw [if_pos ack]
    have count : min packet.thisBytes ReassembledEvent.kFragmentSize * 8 = packet.thisBytes * 8 := by
      rw [ReassembledEvent.kFragmentSize]
      omega
    have copied := fun p => @Rl.readBitsBits
      { MessageBuffer.ofData data with curBit := 108 } (packet.thisBytes * 8) stack p (advance 108)
      (by omega) (show 108 + packet.thisBytes * 8 ≤ 8 * data.length by omega) (by omega)
    rw [count,(copied 0).1]
    apply BitField.eqOfBits
    · simp [Rl.copyBitsLength,payload,room]
      omega
    · intro i hi
      rw [(copied i).2]
      by_cases early : i < packet.thisBytes * 8
      · have front : i / 8 < packet.thisBytes := by omega
        rw [if_pos early]
        refine (bits i (by omega)).trans ?_
        simp only [bitAt,byteAt,List.getD_eq_getElem?_getD]
        rw [List.getElem?_append_left (by rw [List.length_take]; omega),
          List.getElem?_take_of_lt front]
      · rw [if_neg early]
        simp only [bitAt,byteAt,List.getD_eq_getElem?_getD]
        rw [List.getElem?_append_right (by rw [List.length_take]; omega),List.getElem?_drop,
          List.length_take,show packet.thisBytes + (i / 8 - min packet.thisBytes packet.payload.length) =
            i / 8 by omega]
  · have none : packet.thisBytes = 0 := by omega
    simp [none]

structure EventPacket.ParsedFrom (packet : EventPacket) (stack data : List Byte) : Prop where
  packetIdx : packet.packetIdx < 2 ^ 17
  totalPackets : packet.totalPackets < 2 ^ 17
  thisBytes : packet.thisBytes < 2 ^ 10
  length : packet.payload.length = stack.length
  payload : 108 + 8 * packet.thisBytes ≤ 8 * data.length →
    ∀ i < 8 * packet.thisBytes, bitAt packet.payload i = bitAt data (108 + i)

theorem parsedFrom {packet : EventPacket} {stack data : List Byte} (small : data.length < 2 ^ 28)
    (room : stack.length = 1023) (parsed : EventPacket.parse stack (.ofData data) = some packet) :
    packet.ParsedFrom stack data := by
  have sized : (MessageBuffer.ofData data).Sized := Rl.sizedOfData small
  have advance : ∀ n, ({ MessageBuffer.ofData data with curBit := n } : MessageBuffer).Sized :=
    fun _ => sized
  have view : (MessageBuffer.ofData data) = { MessageBuffer.ofData data with curBit := 0 } := rfl
  have step : ∀ {n start : Nat} {value buffer},
      MessageBuffer.readBitsSingle false { MessageBuffer.ofData data with curBit := start } n =
        (some value,buffer) → 0 < n → n ≤ 32 →
      value.toNat < 2 ^ n ∧ buffer = { MessageBuffer.ofData data with curBit := start + n } := by
    intro n start value buffer read positive narrow
    have moved := Rl.readMoves { MessageBuffer.ofData data with curBit := start } n
    rw [read] at moved
    exact ⟨(Rl.readBounded (advance start) positive narrow (by rw [read])).1,moved⟩
  rw [EventPacket.parse,view] at parsed
  split at parsed <;> try contradiction
  rename_i low b1 r1
  obtain ⟨-,rfl⟩ := step r1 (by omega) (by omega)
  split at parsed <;> try contradiction
  rename_i high b2 r2
  obtain ⟨-,rfl⟩ := step r2 (by omega) (by omega)
  split at parsed <;> try contradiction
  rename_i packetIdx b3 r3
  obtain ⟨idxSmall,rfl⟩ := step r3 (by decide) (by decide)
  split at parsed <;> try contradiction
  rename_i totalPackets b4 r4
  obtain ⟨totalSmall,rfl⟩ := step r4 (by decide) (by decide)
  split at parsed <;> try contradiction
  rename_i thisBytes b5 r5
  obtain ⟨bytesSmall,rfl⟩ := step r5 (by decide) (by decide)
  cases parsed
  simp only [ReassembledEvent.kPacketSizeBits,ReassembledEvent.kFragmentSizeBits,Nat.reduceAdd] at *
  refine ⟨idxSmall,totalSmall,bytesSmall,?_,?_⟩
  · dsimp only
    split
    · simp only [MessageBuffer.readBits]
      split
      · rfl
      · split
        · rfl
        · exact Rl.copyBitsLength _ _ _ _ _
    · rfl
  · intro present i hi
    dsimp only at present hi ⊢
    rw [if_pos (by omega)]
    have count : min thisBytes.toNat ReassembledEvent.kFragmentSize * 8 = thisBytes.toNat * 8 := by
      rw [ReassembledEvent.kFragmentSize]
      omega
    have copied := @Rl.readBitsBits { MessageBuffer.ofData data with curBit := 108 }
      (thisBytes.toNat * 8) stack i (advance 108) (by omega)
      (show 108 + thisBytes.toNat * 8 ≤ 8 * data.length by omega) (by omega)
    rw [count,copied.1]
    dsimp only
    rw [copied.2,if_pos (by omega)]
    rfl

end Citizen.Resources
