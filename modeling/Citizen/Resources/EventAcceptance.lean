import Citizen.Resources.EventDelivery

/-! What a trigger lets through. The guard bounds the size of an event, the wire bounds
the number of its fragments and the length of its name. -/
namespace Citizen.Resources
open BitField (Byte byteAt)
open Rl (MessageBuffer)

structure SendEvent.Announced (eventId : Nat) (eventName : List Byte) (sent : SendEvent) : Prop where
  named : 0 < eventName.length
  counted : 0 < sent.count
  split : ∀ target data, sent.targetData.lookup target = some data → data.ackBits.length = sent.count
  total : ∀ packetIdx < sent.count, ∀ buf stack : List Byte, buf.length = 1536 → stack.length = 1023 →
    (EventPacket.parse stack
      (.ofData ((sent.packet eventId packetIdx sent.count).datagram buf))).map (·.totalPackets) =
        some sent.count
  nameLength : ∀ static, (parseEvent static
    (joined (sent.fragment ReassembledEvent.kFragmentSize) sent.count)).nameLength = eventName.length

structure SendEvent.AnnouncedV2 (eventId : Nat) (eventName : List Byte) (sent : SendEvent) : Prop where
  named : 0 < eventName.length
  counted : 0 < sent.countV2
  split : ∀ target data, sent.targetData.lookup target = some data → data.ackBits.length = sent.countV2
  total : ∀ packetIdx < sent.countV2,
    (sent.packetV2 eventId packetIdx sent.countV2).totalPackets = sent.countV2
  nameLength : ∀ uninitialised static, (parseEventV2 uninitialised static
    (joined (sent.fragment ReassembledEventV2.kFragmentSize) sent.countV2)).nameLength = eventName.length

def Component.TriggerSound (c : Component) (target : Int) (eventName eventPayload : List Byte)
    (bytesPerSecond : Int) : Prop :=
  c.triggerEvent target eventName eventPayload bytesPerSecond = c ∨
  ∃ sent : SendEvent, sent.Announced c.eventId eventName ∧
    c.triggerEvent target eventName eventPayload bytesPerSecond =
      { c with sendList := c.sendList.insert c.eventId sent, eventId := c.eventId + 1 }

def Component.TriggerSoundV2 (c : Component) (target : Int) (eventName eventPayload : List Byte)
    (bytesPerSecond : Int) : Prop :=
  c.triggerEventV2 target eventName eventPayload bytesPerSecond = c ∨
  ∃ sent : SendEvent, sent.AnnouncedV2 c.eventId eventName ∧
    c.triggerEventV2 target eventName eventPayload bytesPerSecond =
      { c with sendListV2 := c.sendListV2.insert c.eventId sent, eventId := c.eventId + 1 }

structure Announceable (kPacketSizeBits kFragmentSize : Nat) (eventName eventPayload : List Byte) :
    Prop where
  named : 0 < eventName.length
  short : eventName.length < 2 ^ 16
  counted : eventName.length + 2 + eventPayload.length ≤ (2 ^ kPacketSizeBits - 1) * kFragmentSize

def Component.Refuses (c : Component) (kMaxPacketSize : Nat) (target : Int)
    (eventName eventPayload : List Byte) : Prop :=
  kMaxPacketSize ≤ totalSize eventName eventPayload ∨ c.sendTargets target = none

theorem packetCountLe {fragmentSize : Nat} (unit : 0 < fragmentSize) (size n : Nat) :
    packetCount fragmentSize size ≤ n ↔ size ≤ n * fragmentSize := by
  constructor
  · intro few
    exact (packetCountCovers unit size).trans (Nat.mul_le_mul_right _ few)
  · intro small
    by_contra many
    have past := beforeLast (Nat.lt_of_not_ge many)
    omega

theorem writeBitsSingleLength (lengthHack : Bool) (b : MessageBuffer) (length : Nat) (value : BitVec 32) :
    (b.writeBitsSingle lengthHack length value).2.data.length = b.data.length := by
  simp only [MessageBuffer.writeBitsSingle]
  split
  · rfl
  · simp only
    split <;> simp [Rl.mergeTopLength,Rl.spillLength]

theorem writeBitsLength (b : MessageBuffer) (src : List Byte) (length : Nat) :
    (b.writeBits src length).2.data.length = b.data.length := by
  rw [MessageBuffer.writeBits]
  split
  · rfl
  · exact Rl.copyBitsLength _ _ _ _ _

theorem payloadBufLength (eventName eventPayload : List Byte) :
    (payloadBuf eventName eventPayload).length = eventName.length + 2 + eventPayload.length := by
  rw [payloadBuf,Rl.memcpyLength,writeBitsLength,MessageBuffer.write,writeBitsSingleLength]
  exact List.length_replicate

theorem newSendEventBits {fragmentSize : Nat} {targets : List Int} {bytesPerSecond : Int}
    {sendPayload : List Byte} {target : Int} {data : PerTargetData}
    (own : (newSendEvent fragmentSize targets bytesPerSecond sendPayload).targetData.lookup target =
      some data) : data.ackBits.length = packetCount fragmentSize sendPayload.length := by
  rw [newSendEvent,lookupTargetData] at own
  split at own
  · cases own
    exact List.length_replicate
  · contradiction

section
variable {c : Component} {target : Int} {eventName eventPayload : List Byte}

theorem triggerStored (accepted : ¬ c.Refuses ReassembledEvent.kMaxPacketSize target eventName eventPayload)
    (bytesPerSecond : Int) :
    ∃ targets, c.triggerEvent target eventName eventPayload bytesPerSecond =
      { c with
        sendList := c.sendList.insert c.eventId (newSendEvent ReassembledEvent.kFragmentSize targets
          (defaultRate bytesPerSecond) (payloadBuf eventName eventPayload))
        eventId := c.eventId + 1 } := by
  obtain ⟨small,known⟩ := not_or.mp accepted
  rw [Component.triggerEvent,if_neg small]
  cases found : c.sendTargets target with
  | none => contradiction
  | some targets => exact ⟨targets,rfl⟩

theorem triggerStoredV2 (accepted : ¬ c.Refuses ReassembledEventV2.kMaxPacketSize target eventName eventPayload)
    (bytesPerSecond : Int) :
    ∃ targets, c.triggerEventV2 target eventName eventPayload bytesPerSecond =
      { c with
        sendListV2 := c.sendListV2.insert c.eventId (newSendEvent ReassembledEventV2.kFragmentSize targets
          (defaultRate bytesPerSecond) (payloadBufV2 eventName eventPayload))
        eventId := c.eventId + 1 } := by
  obtain ⟨small,known⟩ := not_or.mp accepted
  rw [Component.triggerEventV2,if_neg small]
  cases found : c.sendTargets target with
  | none => contradiction
  | some targets => exact ⟨targets,rfl⟩

theorem triggerRefused (refused : c.Refuses ReassembledEvent.kMaxPacketSize target eventName eventPayload)
    (bytesPerSecond : Int) : c.triggerEvent target eventName eventPayload bytesPerSecond = c := by
  rw [Component.triggerEvent]
  rcases refused with large | unknown
  · rw [if_pos large]
  · rw [unknown]
    split <;> rfl

theorem triggerRefusedV2 (refused : c.Refuses ReassembledEventV2.kMaxPacketSize target eventName eventPayload)
    (bytesPerSecond : Int) : c.triggerEventV2 target eventName eventPayload bytesPerSecond = c := by
  rw [Component.triggerEventV2]
  rcases refused with large | unknown
  · rw [if_pos large]
  · rw [unknown]
    split <;> rfl

end

theorem parseEventNameLength {view : List Byte} (small : view.length < 2 ^ 28) (room : 2 ≤ view.length)
    (static : List Byte) : (parseEvent static view).nameLength = announcedLength false view := by
  simp only [parseEvent,readAnnounced small room]

theorem parseEventV2NameLength {view : List Byte} (room : 2 ≤ view.length) (uninitialised : Nat)
    (static : List Byte) : (parseEventV2 uninitialised static view).nameLength = announcedLength true view := by
  simp only [parseEventV2,if_pos room,announcedLength,if_true]

section
variable (eventId : Nat) (targets : List Int) (bytesPerSecond : Int) (eventName eventPayload : List Byte)

theorem announcedIff : (newSendEvent ReassembledEvent.kFragmentSize targets bytesPerSecond
      (payloadBuf eventName eventPayload)).Announced eventId eventName ↔
    Announceable ReassembledEvent.kPacketSizeBits ReassembledEvent.kFragmentSize eventName eventPayload := by
  have unit : 0 < ReassembledEvent.kFragmentSize := by decide
  have length := payloadBufLength eventName eventPayload
  generalize entry : newSendEvent ReassembledEvent.kFragmentSize targets bytesPerSecond
    (payloadBuf eventName eventPayload) = sent
  have payload : sent.sendPayload = payloadBuf eventName eventPayload := by rw [← entry]; rfl
  have whole := joinedFragments sent unit
  have count : sent.count = packetCount ReassembledEvent.kFragmentSize
      (eventName.length + 2 + eventPayload.length) := by rw [SendEvent.count,payload,length]
  have positive : 0 < sent.count := by
    rw [count]
    exact packetCountPositive (by omega) unit
  have few := packetCountLe unit (eventName.length + 2 + eventPayload.length)
    (2 ^ ReassembledEvent.kPacketSizeBits - 1)
  rw [← count] at few
  have parsed : ∀ packetIdx, ∀ buf stack : List Byte, buf.length = 1536 → stack.length = 1023 →
      (EventPacket.parse stack
        (.ofData ((sent.packet eventId packetIdx sent.count).datagram buf))).map (·.totalPackets) =
          some (sent.count % 2 ^ 17) := by
    intro packetIdx buf stack size room
    have most : (sent.fragment ReassembledEvent.kFragmentSize packetIdx).length ≤ 1023 := by
      rw [fragmentLength]
      exact Nat.min_le_left _ _
    rw [@parseDatagram (sent.packet eventId packetIdx sent.count) buf stack size most (le_refl _) room]
    rfl
  constructor
  · intro announced
    have total := announced.total 0 positive (List.replicate 1536 0) (List.replicate 1023 0)
      List.length_replicate List.length_replicate
    rw [parsed 0 _ _ List.length_replicate List.length_replicate,Option.some.injEq] at total
    have counted := few.mp (Nat.le_sub_one_of_lt (total ▸ Nat.mod_lt _ (by decide)))
    refine ⟨announced.named,?_,counted⟩
    have name := announced.nameLength []
    rw [SendEvent.count,whole,payload,parseEventNameLength (by rw [length]; exact counted.trans_lt (by decide))
      (by omega)] at name
    rw [← name]
    exact announcedLengthLt false _
  · intro fits
    have counted := few.mpr fits.counted
    refine ⟨fits.named,positive,?_,?_,?_⟩
    · intro target data own
      rw [← entry] at own
      rw [newSendEventBits own,count,length]
    · intro packetIdx _ buf stack size room
      rw [parsed packetIdx buf stack size room,Nat.mod_eq_of_lt (counted.trans_lt (by decide))]
    · intro static
      have small := fits.counted.trans_lt (show _ < 2 ^ 28 by decide)
      rw [SendEvent.count,whole,payload,parseEventNameLength (by rw [length]; exact small) (by omega),
        payloadBufBytes eventPayload fits.named fits.short small,announcedPrefix fits.short]

theorem announcedV2Iff : (newSendEvent ReassembledEventV2.kFragmentSize targets bytesPerSecond
      (payloadBufV2 eventName eventPayload)).AnnouncedV2 eventId eventName ↔
    Announceable ReassembledEventV2.kPacketSizeBits ReassembledEventV2.kFragmentSize eventName eventPayload := by
  have unit : 0 < ReassembledEventV2.kFragmentSize := by decide
  have length := payloadBufV2Length eventName eventPayload
  generalize entry : newSendEvent ReassembledEventV2.kFragmentSize targets bytesPerSecond
    (payloadBufV2 eventName eventPayload) = sent
  have payload : sent.sendPayload = payloadBufV2 eventName eventPayload := by rw [← entry]; rfl
  have whole := joinedFragments sent unit
  have count : sent.countV2 = packetCount ReassembledEventV2.kFragmentSize
      (eventName.length + 2 + eventPayload.length) := by rw [SendEvent.countV2,payload,length]
  have positive : 0 < sent.countV2 := by
    rw [count]
    exact packetCountPositive (by omega) unit
  have few := packetCountLe unit (eventName.length + 2 + eventPayload.length)
    (2 ^ ReassembledEventV2.kPacketSizeBits - 1)
  rw [← count] at few
  have name : ∀ uninitialised static, (parseEventV2 uninitialised static
      (joined (sent.fragment ReassembledEventV2.kFragmentSize) sent.countV2)).nameLength =
        eventName.length % 2 ^ 16 := by
    intro uninitialised static
    rw [SendEvent.countV2,whole,payload,parseEventV2NameLength (by omega)]
    simp only [announcedLength,if_true,payloadBufV2,byteAt,List.cons_append,List.getD_cons_zero,
      List.getD_cons_succ,BitVec.toNat_ofNat]
    omega
  constructor
  · intro announced
    have total := announced.total 0 positive
    refine ⟨announced.named,?_,few.mp (Nat.le_sub_one_of_lt (total ▸ Nat.mod_lt _ (by decide)))⟩
    rw [← announced.nameLength 0 [],name]
    exact Nat.mod_lt _ (by decide)
  · intro fits
    have counted := few.mpr fits.counted
    refine ⟨fits.named,positive,?_,?_,?_⟩
    · intro target data own
      rw [← entry] at own
      rw [newSendEventBits own,count,length]
    · intro packetIdx _
      exact Nat.mod_eq_of_lt (counted.trans_lt (by decide))
    · intro uninitialised static
      rw [name,Nat.mod_eq_of_lt fits.short]

end

section
variable (c : Component) (target : Int) (eventName eventPayload : List Byte) (bytesPerSecond : Int)

theorem triggerSoundIff : c.TriggerSound target eventName eventPayload bytesPerSecond ↔
      c.Refuses ReassembledEvent.kMaxPacketSize target eventName eventPayload ∨
      Announceable ReassembledEvent.kPacketSizeBits ReassembledEvent.kFragmentSize eventName eventPayload := by
  by_cases refused : c.Refuses ReassembledEvent.kMaxPacketSize target eventName eventPayload
  · exact iff_of_true (.inl (triggerRefused refused _)) (.inl refused)
  · obtain ⟨targets,stored⟩ := triggerStored refused bytesPerSecond
    rw [or_iff_right refused,← announcedIff c.eventId targets (defaultRate bytesPerSecond),
      Component.TriggerSound,stored]
    constructor
    · intro sound
      rcases sound with same | ⟨sent,announced,same⟩
      · have later := congrArg Component.eventId same
        simp at later
      · have entry := congrArg (fun after : Component => after.sendList.lookup c.eventId) same
        simp only [AList.lookup_insert,Option.some.injEq] at entry
        exact entry ▸ announced
    · intro announced
      exact .inr ⟨_,announced,rfl⟩

theorem triggerSoundV2Iff : c.TriggerSoundV2 target eventName eventPayload bytesPerSecond ↔
      c.Refuses ReassembledEventV2.kMaxPacketSize target eventName eventPayload ∨
      Announceable ReassembledEventV2.kPacketSizeBits ReassembledEventV2.kFragmentSize eventName eventPayload := by
  by_cases refused : c.Refuses ReassembledEventV2.kMaxPacketSize target eventName eventPayload
  · exact iff_of_true (.inl (triggerRefusedV2 refused _)) (.inl refused)
  · obtain ⟨targets,stored⟩ := triggerStoredV2 refused bytesPerSecond
    rw [or_iff_right refused,← announcedV2Iff c.eventId targets (defaultRate bytesPerSecond),
      Component.TriggerSoundV2,stored]
    constructor
    · intro sound
      rcases sound with same | ⟨sent,announced,same⟩
      · have later := congrArg Component.eventId same
        simp at later
      · have entry := congrArg (fun after : Component => after.sendListV2.lookup c.eventId) same
        simp only [AList.lookup_insert,Option.some.injEq] at entry
        exact entry ▸ announced
    · intro announced
      exact .inr ⟨_,announced,rfl⟩

theorem eventAcceptance : (c.TriggerSound target eventName eventPayload bytesPerSecond ↔
      c.Refuses ReassembledEvent.kMaxPacketSize target eventName eventPayload ∨
      Announceable ReassembledEvent.kPacketSizeBits ReassembledEvent.kFragmentSize eventName eventPayload) ∧
    (c.TriggerSoundV2 target eventName eventPayload bytesPerSecond ↔
      c.Refuses ReassembledEventV2.kMaxPacketSize target eventName eventPayload ∨
      Announceable ReassembledEventV2.kPacketSizeBits ReassembledEventV2.kFragmentSize eventName eventPayload) :=
  ⟨triggerSoundIff c target eventName eventPayload bytesPerSecond,
    triggerSoundV2Iff c target eventName eventPayload bytesPerSecond⟩

end

def oneTarget : Component := (Component.init 0).registerTarget 1 0xFF#8

theorem oneTargetAccepts {kMaxPacketSize : Nat} {eventName eventPayload : List Byte}
    (small : eventPayload.length + eventName.length + 2 < kMaxPacketSize) :
    ¬ oneTarget.Refuses kMaxPacketSize 1 eventName eventPayload := by
  intro refused
  rcases refused with large | unknown
  · rw [totalSize] at large
    have less := Nat.mod_le (eventPayload.length + eventName.length + 2) (2 ^ 32)
    omega
  · simp [oneTarget,Component.sendTargets,Component.registerTarget] at unknown

theorem unannounced : ¬ oneTarget.TriggerSound 1 [65] (List.replicate 134086652 0) 50000 ∧
    ¬ oneTarget.TriggerSoundV2 1 [65] (List.replicate 134152188 0) 50000 ∧
    ¬ oneTarget.TriggerSoundV2 1 [] [] 50000 := by
  have length := @List.length_replicate Byte 134086652 0
  have lengthV2 := @List.length_replicate Byte 134152188 0
  generalize List.replicate 134086652 (0 : Byte) = eventPayload at *
  generalize List.replicate 134152188 (0 : Byte) = eventPayloadV2 at *
  rw [triggerSoundIff,triggerSoundV2Iff,triggerSoundV2Iff]
  refine ⟨?_,?_,?_⟩
  · intro sound
    have fits := sound.resolve_left (oneTargetAccepts (by rw [length]; decide))
    have counted := fits.counted
    rw [length] at counted
    exact absurd counted (by decide)
  · intro sound
    have fits := sound.resolve_left (oneTargetAccepts (by rw [lengthV2]; decide))
    have counted := fits.counted
    rw [lengthV2] at counted
    exact absurd counted (by decide)
  · intro sound
    have fits := sound.resolve_left (oneTargetAccepts (by decide))
    exact absurd fits.named (by decide)

end Citizen.Resources
