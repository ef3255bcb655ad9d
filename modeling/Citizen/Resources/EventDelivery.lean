import Citizen.Resources.EventAck
import Citizen.Resources.EventAssembly

/-! One version 1 event from its trigger to the queue of its receiver, over deliveries in
any order, with repetitions and among the fragments of other events. -/
namespace Citizen.Resources
open BitField (Byte byteAt bitAt Field)
open Rl (MessageBuffer)

/-! Splitting. -/

theorem fragmentLength (event : SendEvent) (fragmentSize packetIdx : Nat) :
    (event.fragment fragmentSize packetIdx).length =
      min fragmentSize (event.sendPayload.length - packetIdx * fragmentSize) := by
  rw [SendEvent.fragment,List.length_take,List.length_drop]

theorem joinedFragment (event : SendEvent) (fragmentSize n : Nat) :
    joined (event.fragment fragmentSize) n = event.sendPayload.take (n * fragmentSize) := by
  induction n with
  | zero => simp [joined]
  | succ n ih =>
    rw [joinedSucc,ih,SendEvent.fragment,Nat.add_mul,Nat.one_mul,List.take_add]

theorem packetCountCovers {fragmentSize : Nat} (unit : 0 < fragmentSize) (size : Nat) :
    size ≤ packetCount fragmentSize size * fragmentSize := by
  have division := Nat.div_add_mod size fragmentSize
  have rest := Nat.mod_lt size unit
  rw [packetCount,Nat.add_mul,Nat.mul_comm]
  split <;> omega

theorem beforeLast {fragmentSize size i : Nat} (early : i < packetCount fragmentSize size) :
    i * fragmentSize < size := by
  have division := Nat.div_add_mod size fragmentSize
  rw [packetCount] at early
  rw [Nat.mul_comm] at division
  by_cases last : i < size / fragmentSize
  · have below := Nat.mul_le_mul_right fragmentSize last
    rw [Nat.succ_mul] at below
    by_cases unit : fragmentSize = 0
    · simp [unit] at last
    · omega
  · split at early
    · have same : i = size / fragmentSize := by omega
      rw [same]
      omega
    · omega

section
variable (event : SendEvent) {fragmentSize : Nat} (unit : 0 < fragmentSize)
include unit

theorem fragmentsFilled :
    Filled fragmentSize (packetCount fragmentSize event.sendPayload.length)
      (event.fragment fragmentSize) where
  whole i early := by
    have next := beforeLast early
    rw [Nat.succ_mul] at next
    rw [fragmentLength]
    omega
  fits i _ := by
    rw [fragmentLength]
    exact Nat.min_le_left _ _

theorem joinedFragments :
    joined (event.fragment fragmentSize) (packetCount fragmentSize event.sendPayload.length) = event.sendPayload := by
  rw [joinedFragment,List.take_of_length_le (packetCountCovers unit _)]

end

def SendEvent.count (sent : SendEvent) : Nat :=
  packetCount ReassembledEvent.kFragmentSize sent.sendPayload.length

/-! The payload of a trigger. -/

theorem payloadBufBytes {eventName : List Byte} (eventPayload : List Byte)
    (positive : 0 < eventName.length) (short : eventName.length < 2 ^ 16)
    (small : eventName.length + 2 + eventPayload.length < 2 ^ 28) : payloadBuf eventName eventPayload =
      [BitVec.ofNat 8 (eventName.length / 2 ^ 8),BitVec.ofNat 8 eventName.length] ++ (eventName ++ eventPayload) := by
  have sized := @Rl.sizedOfSize (eventName.length + 2 + eventPayload.length) small
  have room : (MessageBuffer.ofSize (eventName.length + 2 + eventPayload.length)).data.length =
      eventName.length + 2 + eventPayload.length := List.length_replicate
  have empty : (MessageBuffer.ofSize (eventName.length + 2 + eventPayload.length)).curBit = 0 := rfl
  have value : eventName.length % 2 ^ 32 = eventName.length := by omega
  simp only [payloadBuf,value]
  generalize MessageBuffer.ofSize (eventName.length + 2 + eventPayload.length) = b0 at *
  obtain ⟨length,e1,c1⟩ := Rl.writeField eventName.length sized (by omega) (by omega)
    (show b0.curBit + 16 ≤ 8 * b0.data.length by omega)
  generalize b0.write false 16 eventName.length = b1 at *
  have l1 := e1.length
  obtain ⟨e2,c2⟩ := @Rl.writeBitsExtends b1 (eventName.length * 8) eventName e1.sized (by omega)
    (by omega)
  have bits := fun p => @Rl.writeBitsBits b1 (eventName.length * 8) eventName p e1.sized (by omega)
    (by omega)
  have l2 := e2.length
  generalize (b1.writeBits eventName (eventName.length * 8)).2 = b2 at *
  have cursor : b2.curBit / 8 = eventName.length + 2 := by omega
  rw [empty] at length
  have header : Field ([BitVec.ofNat 8 (eventName.length / 2 ^ 8),BitVec.ofNat 8 eventName.length] ++
      (eventName ++ eventPayload)) 0 16 eventName.length := by
    have two := fieldTwoBytes
      ([BitVec.ofNat 8 (eventName.length / 2 ^ 8),BitVec.ofNat 8 eventName.length] ++
        (eventName ++ eventPayload))
    rwa [announcedPrefix short] at two
  apply BitField.eqOfBits
  · rw [Rl.memcpyLength]
    simp only [List.length_append,List.length_cons,List.length_nil]
    omega
  · intro i hi
    rw [Rl.memcpyLength] at hi
    rw [Rl.bitAtMemcpy (by omega),cursor]
    by_cases first : i < 16
    · have left := length i first
      have right := header i first
      rw [Nat.zero_add] at left right
      rw [if_neg (by omega),e2.settled i (by omega),left,right]
    · have pair : 8 * [BitVec.ofNat 8 (eventName.length / 2 ^ 8),BitVec.ofNat 8 eventName.length].length
          = 16 := rfl
      rw [BitField.bitAtAppend,pair,if_neg first,BitField.bitAtAppend]
      by_cases name : i - 16 < 8 * eventName.length
      · rw [if_neg (by omega),bits,if_pos (by omega),if_pos name]
        congr 1
        omega
      · rw [if_pos (by omega),if_neg name]
        congr 1
        omega

theorem parsePayloadBuf {static name eventPayload : List Byte} (size : static.length = 65536)
    (short : name.length + 1 < 2 ^ 16) (small : name.length + 1 + 2 + eventPayload.length < 2 ^ 28) :
    (parseEvent static (payloadBuf (name ++ [0]) eventPayload)).name = some name ∧
      (parseEvent static (payloadBuf (name ++ [0]) eventPayload)).data = some eventPayload := by
  have length : (name ++ [(0 : Byte)]).length = name.length + 1 := by simp
  have bytes := @payloadBufBytes (name ++ [0]) eventPayload (by omega) (by omega) (by omega)
  rw [bytes]
  have announced := @announcedPrefix (name ++ [(0 : Byte)]).length (by omega) (name ++ [0] ++ eventPayload)
  have slices := @parseEventSlices static
    ([BitVec.ofNat 8 ((name ++ [(0 : Byte)]).length / 2 ^ 8),BitVec.ofNat 8 (name ++ [(0 : Byte)]).length] ++
      (name ++ [0] ++ eventPayload)) size (by simp; omega) (by rw [announced]; omega)
    (by rw [announced]; simp; omega)
  rw [announced] at slices
  refine ⟨slices.2.1.trans ?_,slices.2.2.trans ?_⟩
  · simp
  · rw [Nat.add_comm 2,← List.drop_drop]
    simp

/-! Deliveries. -/

def SendEvent.arriving (sent : SendEvent) (eventId packetIdx : Nat) : Fragment :=
  ⟨eventId % 2 ^ 64,packetIdx,sent.count,
    sent.fragment ReassembledEvent.kFragmentSize packetIdx,false⟩

def Own (source : Int) (eventId : Nat) (sent : SendEvent) (packetIdx : Nat) (op : Op) : Prop :=
  packetIdx < sent.count ∧ ∃ arrival buf, arrival.source = source ∧ arrival.payload.length = 1023 ∧
    arrival.buf.length = 1536 ∧ buf.length = 1536 ∧
    op = .handlePacket arrival ((sent.packet eventId packetIdx sent.count).datagram buf)

def Foreign (source : Int) (eventId : Nat) (op : Op) : Prop :=
  ((∃ arrival data, op = .handlePacket arrival data) ∨ ∃ arrival packet, op = .handlePacketV2 arrival packet) ∧
  ∀ arrival fragment, op.fragment = some (arrival,fragment) →
    ¬ (arrival.source = source ∧ fragment.eventId = eventId % 2 ^ 64)

section Event
variable {source : Int} {eventId : Nat} {sent : SendEvent}

def Got (source : Int) (eventId : Nat) (sent : SendEvent) (ops : List Op) (packetIdx : Nat) : Prop :=
  ∃ op ∈ ops, Own source eventId sent packetIdx op

def Whole (source : Int) (eventId : Nat) (sent : SendEvent) (ops : List Op) : Prop :=
  ∀ packetIdx < sent.count, Got source eventId sent ops packetIdx

def Completing (source : Int) (eventId : Nat) (sent : SendEvent) (before : List Op) (op : Op) : Prop :=
  ¬ Whole source eventId sent before ∧ Whole source eventId sent (before ++ [op])

def AckOf (eventId packetIdx : Nat) (data : List Byte) : Prop :=
  ∀ stack, stack.length = 1023 → ∃ packet, EventPacket.parse stack (.ofData data) = some packet ∧
    packet.isAck = true ∧ packet.eventId = eventId % 2 ^ 64 ∧ packet.packetIdx = packetIdx

structure ReassembledOnce (queues : Arrival → Bool) (source : Int) (eventId : Nat) (sent : SendEvent)
    (name payload : List Byte) (c : Component) (ops : List Op) : Prop where
  completes : ∃! before, ∃ op after, ops = before ++ op :: after ∧
    Completing source eventId sent before op
  answered : ∀ before arrival data after packetIdx, ops = before ++ .handlePacket arrival data :: after →
    Own source eventId sent packetIdx (.handlePacket arrival data) →
    ∃ ack, AckOf eventId packetIdx ack ∧
      (Completing source eventId sent before (.handlePacket arrival data) → queues arrival = true →
        ((run Component.step c before).apply (.handlePacket arrival data)).2 =
          [.sendPacket source ack,.queueEvent name payload (sourceStr source)]) ∧
      (¬ (Completing source eventId sent before (.handlePacket arrival data) ∧ queues arrival = true) →
        ((run Component.step c before).apply (.handlePacket arrival data)).2 = [.sendPacket source ack])

theorem ownFragment {packetIdx : Nat} {arrival : Arrival} {data : List Byte} (few : sent.count < 2 ^ 17)
    (own : Own source eventId sent packetIdx (.handlePacket arrival data)) :
    (Op.handlePacket arrival data).fragment = some (arrival,sent.arriving eventId packetIdx) := by
  obtain ⟨inside,a,buf,-,stack,-,size,same⟩ := own
  cases same
  have first := beforeLast inside
  have length := fragmentLength sent ReassembledEvent.kFragmentSize packetIdx
  have some : 0 < (sent.fragment ReassembledEvent.kFragmentSize packetIdx).length := by
    rw [length,ReassembledEvent.kFragmentSize] at *
    omega
  have most : (sent.fragment ReassembledEvent.kFragmentSize packetIdx).length ≤ 1023 := by
    rw [length]
    exact Nat.min_le_left _ _
  have parsed := @parseDatagram (sent.packet eventId packetIdx sent.count) buf arrival.payload size
    most (le_refl _) stack
  have made : ((sent.packet eventId packetIdx sent.count).received arrival.payload).fragment =
      Option.some (sent.arriving eventId packetIdx) := by
    rw [EventPacket.fragment,if_neg]
    · simp only [EventPacket.received,SendEvent.packet,SendEvent.arriving]
      rw [Nat.mod_eq_of_lt few,Nat.mod_eq_of_lt (inside.trans few)]
      simp
    · rintro (zero | ack)
      · have total : sent.count % 2 ^ 17 = 0 := zero
        omega
      · have bytes : (sent.fragment ReassembledEvent.kFragmentSize packetIdx).length = 0 :=
          beq_iff_eq.mp ack
        omega
  rw [Op.fragment,parsed,Option.bind_some,made]
  rfl

theorem ackOwn {packetIdx count : Nat} {buf : List Byte} (inside : packetIdx < 2 ^ 17) (size : buf.length = 1536) :
    AckOf eventId packetIdx (EventPacket.datagram ⟨eventId % 2 ^ 64,packetIdx,count,0,[]⟩ buf) := by
  intro stack room
  refine ⟨_,parseDatagram size (by simp) (by simp) room,rfl,?_,?_⟩
  · simp [EventPacket.received]
  · simpa [EventPacket.received] using inside

structure Progress (source : Int) (eventId : Nat) (sent : SendEvent) (got : Nat → Prop)
    (c : Component) : Prop where
  static : c.eventName.length = 65536
  stage : ((∀ i < sent.count, ¬ got i) ∧ c.findReceive source (eventId % 2 ^ 64) = none) ∨
    ∃ event, c.findReceive source (eventId % 2 ^ 64) = some event ∧ event.source = source ∧
      event.ackedBits.length = sent.count ∧
      (∀ i < sent.count, event.ackedBits.getD i false = true ↔ got i) ∧ (∃ i < sent.count, got i) ∧
      ((event.completed = true ∧ ∀ i < sent.count, got i) ∨
        (event.completed = false ∧ (∃ i < sent.count, ¬ got i) ∧ event.packetData =
          heldFragments event.ackedBits (sent.fragment ReassembledEvent.kFragmentSize)))

theorem handleOutputs {c : Component} {arrival : Arrival} {id : Nat} {event : ReceiveEvent}
    {name payload : List Byte} (static : c.eventName.length = 65536)
    (short : name.length + 1 < 2 ^ 16) (small : name.length + 1 + 2 + payload.length < 2 ^ 28)
    (view : event.view ReassembledEvent.kFragmentSize = payloadBuf (name ++ [0]) payload) :
    (c.handleReceivedPacket arrival id event ReassembledEvent.kFragmentSize false).2 =
      if arrival.limited then [] else [.queueEvent name payload (sourceStr arrival.source)] := by
  obtain ⟨named,data⟩ := parsePayloadBuf static short small
  simp only [Component.handleReceivedPacket,view,Bool.false_eq_true,if_false,named,data]
  split <;> rfl

def finishOwn (eventId : Nat) (sent : SendEvent) (c : Component) (arrival : Arrival)
    (packetIdx : Nat) : Component × List Output :=
  let fragment := sent.arriving eventId packetIdx
  Component.finishReceipt arrival fragment.eventId fragment.fragmentSize fragment.v2
    (fragment.ack arrival) (c.receive arrival fragment)

structure Handled (eventId : Nat) (sent : SendEvent) (name payload : List Byte) (got : Nat → Prop)
    (arrival : Arrival) (packetIdx : Nat) (result : Component × List Output) : Prop where
  progress : Progress arrival.source eventId sent (fun i => got i ∨ i = packetIdx) result.1
  last : (∃ i < sent.count, ¬ got i) ∧ (∀ i < sent.count, got i ∨ i = packetIdx) →
    result.2 = (sent.arriving eventId packetIdx).ack arrival ::
      if arrival.limited then [] else [.queueEvent name payload (sourceStr arrival.source)]
  other : ¬ ((∃ i < sent.count, ¬ got i) ∧ ∀ i < sent.count, got i ∨ i = packetIdx) →
    result.2 = [(sent.arriving eventId packetIdx).ack arrival]

structure Fills (sent : SendEvent) (got : Nat → Prop) (event : ReceiveEvent) : Prop where
  length : event.ackedBits.length = sent.count
  bits : ∀ i < sent.count, event.ackedBits.getD i false = true ↔ got i
  held : event.packetData = heldFragments event.ackedBits (sent.fragment ReassembledEvent.kFragmentSize)

section
variable {got : Nat → Prop} {event : ReceiveEvent}

theorem Fills.accept {packetIdx : Nat} (fills : Fills sent got event)
    (inside : packetIdx < sent.count) (missing : ¬ got packetIdx) (now : Int) :
    Fills sent (fun i => got i ∨ i = packetIdx)
      (event.accept packetIdx (sent.fragment ReassembledEvent.kFragmentSize packetIdx) now) := by
  have length := fills.length
  have unset : event.ackedBits.getD packetIdx false = false := by
    rw [← Bool.not_eq_true]
    exact fun set => missing ((fills.bits packetIdx inside).mp set)
  refine ⟨by rw [← length]; exact List.length_set,fun i hi => ?_,?_⟩
  · by_cases same : packetIdx = i
    · subst same
      simp [ReceiveEvent.accept,List.getD_eq_getElem?_getD,show packetIdx < event.ackedBits.length by omega]
    · rw [← fills.bits i hi]
      simp [ReceiveEvent.accept,List.getD_eq_getElem?_getD,same,Ne.symm same]
  · have inserted := insertHeld (show packetIdx < event.ackedBits.length by omega) unset
      (sent.fragment ReassembledEvent.kFragmentSize)
      (sent.fragment ReassembledEvent.kFragmentSize packetIdx)
    rw [Function.update_eq_self,← fills.held] at inserted
    exact inserted

theorem Fills.all (fills : Fills sent got event) : event.hasAll = true ↔ ∀ i < sent.count, got i := by
  have length := fills.length
  rw [ReceiveEvent.hasAll,List.all_eq_true]
  constructor
  · intro all i hi
    have position : i < event.ackedBits.length := by omega
    have bit := all _ (List.getElem_mem position)
    refine (fills.bits i hi).mp ?_
    simpa [List.getD_eq_getElem?_getD,position] using bit
  · intro all bit mem
    obtain ⟨i,position,rfl⟩ := List.mem_iff_getElem.mp mem
    have set := (fills.bits i (by omega)).mpr (all i (by omega))
    simpa [List.getD_eq_getElem?_getD,position] using set

theorem Fills.view (fills : Fills sent got event) (few : sent.count < 2 ^ 17)
    (all : event.hasAll = true) : event.view ReassembledEvent.kFragmentSize = sent.sendPayload := by
  have assembled : Assembled ReassembledEvent.kFragmentSize (sent.fragment ReassembledEvent.kFragmentSize) event := by
    refine ⟨all,fills.held,?_,?_⟩
    · rw [fills.length]
      exact fragmentsFilled sent (by decide)
    · rw [fills.length]
      exact (Nat.mul_le_mul_right _ (Nat.le_of_lt few)).trans (by decide)
  have view := assembled.view
  rwa [fills.length,SendEvent.count,joinedFragments sent (by decide)] at view

end

theorem progressKeep {got : Nat → Prop} {c c' : Component} {arrival : Arrival} {packetIdx : Nat}
    {name payload : List Byte} {event : ReceiveEvent}
    (short : name.length + 1 < 2 ^ 16) (small : name.length + 1 + 2 + payload.length < 2 ^ 28)
    (sends : sent.sendPayload = payloadBuf (name ++ [0]) payload) (few : sent.count < 2 ^ 17)
    (inside : packetIdx < sent.count) (static : c.eventName.length = 65536)
    (own : event.source = arrival.source) (fills : Fills sent got event)
    (fresh : event.completed = false) (missing : ¬ got packetIdx)
    (receives : c.receive arrival (sent.arriving eventId packetIdx) =
      c'.keepFragment arrival.source (eventId % 2 ^ 64) event packetIdx
        (sent.fragment ReassembledEvent.kFragmentSize packetIdx) arrival.now)
    (named : (finishOwn eventId sent c arrival packetIdx).1.eventName.length = 65536) :
    Handled eventId sent name payload got arrival packetIdx (finishOwn eventId sent c arrival packetIdx) := by
  have aside := asideReceive c arrival (sent.arriving eventId packetIdx)
  simp only [Component.aside,Prod.mk.injEq] at aside
  have finds := @finishFindReceive c arrival (sent.arriving eventId packetIdx) arrival.source (eventId % 2 ^ 64)
  rw [if_pos ⟨rfl,rfl⟩] at finds
  change (finishOwn eventId sent c arrival packetIdx).1.findReceive _ _ = _ at finds
  have after := fills.accept inside missing arrival.now
  have completed := acceptCompleted event packetIdx (sent.fragment ReassembledEvent.kFragmentSize packetIdx) arrival.now
  rw [fresh,Bool.false_or] at completed
  have source : (event.accept packetIdx (sent.fragment ReassembledEvent.kFragmentSize packetIdx) arrival.now).source =
      arrival.source := own
  unfold Component.keepFragment at receives
  generalize event.accept packetIdx (sent.fragment ReassembledEvent.kFragmentSize packetIdx) arrival.now = accepted at *
  by_cases all : accepted.hasAll = true
  · have whole := after.all.mp all
    rw [if_pos all] at receives
    rw [receives] at finds
    refine ⟨⟨named,.inr ⟨_,finds,source,after.length,after.bits,⟨packetIdx,inside,.inr rfl⟩,
      .inl ⟨completed.trans all,whole⟩⟩⟩,fun _ => ?_,fun part => absurd ⟨⟨packetIdx,inside,missing⟩,whole⟩ part⟩
    have view := (after.view few all).trans sends
    rw [receives] at aside
    simp only [finishOwn,Component.finishReceipt,receives,if_true,List.singleton_append]
    exact congrArg _ (handleOutputs (by rw [aside.2.2.2]; exact static) short small view)
  · have notAll : ¬ ∀ i < sent.count, got i ∨ i = packetIdx := fun every => all (after.all.mpr every)
    rw [if_neg all] at receives
    rw [receives] at finds
    obtain ⟨i,hi,absent⟩ : ∃ i, ∃ _ : i < sent.count, ¬ (got i ∨ i = packetIdx) := by
      simpa only [not_forall] using notAll
    refine ⟨⟨named,.inr ⟨_,finds.trans (findReceiveStore _ _ _ _),source,after.length,after.bits,
      ⟨packetIdx,inside,.inr rfl⟩,.inr ⟨?_,⟨i,hi,absent⟩,after.held⟩⟩⟩,
      fun every => absurd every.2 notAll,fun _ => ?_⟩
    · rw [completed]
      simpa using all
    · simp only [finishOwn,Component.finishReceipt,receives,if_true]

section Message
variable {name payload : List Byte} (short : name.length + 1 < 2 ^ 16)
  (small : name.length + 1 + 2 + payload.length < 2 ^ 28)
  (sends : sent.sendPayload = payloadBuf (name ++ [0]) payload) (few : sent.count < 2 ^ 17)
include short small sends few

theorem progressOwn {got : Nat → Prop} {c : Component} {arrival : Arrival} {data : List Byte}
    {packetIdx : Nat} (progress : Progress source eventId sent got c)
    (own : Own source eventId sent packetIdx (.handlePacket arrival data))
    (spare : (∀ i < sent.count, ¬ got i) → ∃ target, c.targets.lookup source = some target ∧
      target.maxPendingEvents ≠ 0#8) :
    Handled eventId sent name payload got arrival packetIdx (c.apply (.handlePacket arrival data)) := by
  have delivers := ownFragment few own
  have static := eventNameStep progress.static (.handlePacket arrival data)
  obtain ⟨inside,a,buf,from',-,-,-,same⟩ := own
  cases same
  subst from'
  have applied : c.apply _ = finishOwn eventId sent c arrival packetIdx := applyFragment delivers
  rw [Component.step,applied] at static
  rw [applied]
  have cases := receiveCases c arrival (sent.arriving eventId packetIdx)
  generalize receives : c.receive arrival (sent.arriving eventId packetIdx) = receipt at cases
  cases cases with
  | refused absent full =>
    rcases progress.stage with ⟨none,-⟩ | ⟨event,found,-⟩
    · obtain ⟨target,registered,room⟩ := spare none
      exact absurd (full target registered) room
    · exact absurd (found.symm.trans absent) (by simp)
  | @foreign event found other =>
    rcases progress.stage with ⟨-,none⟩ | ⟨event',same,own,-⟩
    · exact absurd (found.symm.trans none) (by simp)
    · cases found.symm.trans same
      exact absurd own other
  | @repeated event found own again =>
    rcases progress.stage with ⟨-,none⟩ | ⟨event',same,-,length,bits,some,stage⟩
    · exact absurd (found.symm.trans none) (by simp)
    cases found.symm.trans same
    have arrived : got packetIdx := by
      rcases stage with ⟨-,all⟩ | ⟨fresh,-⟩
      · exact all packetIdx inside
      · refine (bits packetIdx inside).mp ?_
        simpa [ReceiveEvent.settled,fresh,SendEvent.arriving] using again
    have still : ∀ i, (got i ∨ i = packetIdx) ↔ got i :=
      fun i => ⟨fun either => either.elim id (fun eq => eq ▸ arrived),.inl⟩
    have finds := @finishFindReceive c arrival (sent.arriving eventId packetIdx) arrival.source
      (eventId % 2 ^ 64)
    rw [if_pos ⟨rfl,rfl⟩,receives] at finds
    have stored : (finishOwn eventId sent c arrival packetIdx).1.findReceive arrival.source
        (eventId % 2 ^ 64) = .some { event with timeLastAck := arrival.now } := by
      rw [finishOwn,receives]
      exact finds.trans (findReceiveStore _ _ _ _)
    refine ⟨⟨static,.inr ⟨_,stored,own,length,?_,⟨packetIdx,inside,.inr rfl⟩,?_⟩⟩,?_,?_⟩
    · exact fun i hi => (bits i hi).trans (still i).symm
    · simpa only [still] using stage
    · rintro ⟨⟨i,hi,absent⟩,every⟩
      exact absurd ((still i).mp (every i hi)) absent
    · intro _
      simp [finishOwn,Component.finishReceipt,receives]
  | @continued event found own missing =>
    rcases progress.stage with ⟨-,none⟩ | ⟨event',same,-,length,bits,some,stage⟩
    · exact absurd (found.symm.trans none) (by simp)
    cases found.symm.trans same
    obtain ⟨fresh,unset⟩ := Bool.or_eq_false_iff.mp missing
    rcases stage with ⟨done,-⟩ | ⟨-,-,held⟩
    · rw [fresh] at done
      contradiction
    · have absent : ¬ got packetIdx := by
        intro arrived
        have set := (bits packetIdx inside).mpr arrived
        exact absurd (unset.symm.trans set) (by simp)
      exact progressKeep short small sends few inside progress.static own ⟨length,bits,held⟩ fresh absent
        receives static
  | @started target absent registered room =>
    rcases progress.stage with ⟨none,-⟩ | ⟨event,found,-⟩
    · refine progressKeep short small sends few inside progress.static
        (show (newReceiveEvent arrival.source sent.count).source = arrival.source from rfl)
        ⟨List.length_replicate,?_,(heldNone _ _).symm⟩ rfl (none packetIdx inside) receives static
      intro i hi
      have zero : (newReceiveEvent arrival.source sent.count).ackedBits.getD i false = false := by
        simp [newReceiveEvent,List.getD_eq_getElem?_getD,hi]
      exact ⟨fun set => absurd (zero.symm.trans set) (by simp),fun arrived => absurd arrived (none i hi)⟩
    · exact absurd (found.symm.trans absent) (by simp)

end Message

theorem progressForeign {got : Nat → Prop} {c : Component} {op : Op}
    (progress : Progress source eventId sent got c) (foreign : Foreign source eventId op) :
    Progress source eventId sent got (c.step op) := by
  have same : (c.step op).findReceive source (eventId % 2 ^ 64) =
      c.findReceive source (eventId % 2 ^ 64) := by
    cases delivers : op.fragment with
    | some delivery =>
      obtain ⟨arrival,fragment⟩ := delivery
      have other := foreign.2 arrival fragment delivers
      rw [stepFragment delivers,finishFindReceive,if_neg (fun key => other ⟨key.1.symm,key.2.symm⟩)]
      refine receiveOther ?_
      by_cases same : source = arrival.source
      · exact .inr (fun eq => other ⟨same.symm,eq.symm⟩)
      · exact .inl same
    | none =>
      have lists : (c.step op).receiveList = c.receiveList := by
        rcases foreign.1 with ⟨arrival,data,rfl⟩ | ⟨arrival,packet,rfl⟩
        · exact (applyQuiet delivers (by simp) (by simp)).1
        · exact (applyQuiet delivers (by simp) (by simp)).1
      rw [Component.findReceive,lists]
      rfl
  exact ⟨eventNameStep progress.static op,by rw [same]; exact progress.stage⟩

theorem ownIndex {packetIdx packetIdx' : Nat} {op : Op} (few : sent.count < 2 ^ 17)
    (own : Own source eventId sent packetIdx op) (own' : Own source eventId sent packetIdx' op) :
    packetIdx = packetIdx' := by
  obtain ⟨-,arrival,buf,-,-,-,-,same⟩ := id own
  subst same
  have first := ownFragment few own
  have second := ownFragment few own'
  have eq := congrArg Fragment.packetIdx (congrArg Prod.snd (Option.some.inj (first.symm.trans second)))
  exact eq

theorem gotSnoc {ops : List Op} {op : Op} {packetIdx : Nat} (few : sent.count < 2 ^ 17)
    (own : Own source eventId sent packetIdx op) (i : Nat) :
    Got source eventId sent (ops ++ [op]) i ↔ Got source eventId sent ops i ∨ i = packetIdx := by
  simp only [Got,List.mem_append,List.mem_singleton]
  constructor
  · rintro ⟨o,mem | rfl,other⟩
    · exact .inl ⟨o,mem,other⟩
    · exact .inr (ownIndex few other own)
  · rintro (⟨o,mem,other⟩ | rfl)
    · exact ⟨o,.inl mem,other⟩
    · exact ⟨op,.inr rfl,own⟩

theorem gotForeign {ops : List Op} {op : Op} (few : sent.count < 2 ^ 17)
    (foreign : Foreign source eventId op) (i : Nat) :
    Got source eventId sent (ops ++ [op]) i ↔ Got source eventId sent ops i := by
  simp only [Got,List.mem_append,List.mem_singleton]
  constructor
  · rintro ⟨o,mem | rfl,own⟩
    · exact ⟨o,mem,own⟩
    · obtain ⟨-,arrival,buf,from',-,-,-,same⟩ := id own
      subst same
      exact absurd ⟨from',rfl⟩ (foreign.2 _ _ (ownFragment few own))
  · rintro ⟨o,mem,own⟩
    exact ⟨o,.inl mem,own⟩

theorem progressCongr {got got' : Nat → Prop} {c : Component} (same : ∀ i, got i ↔ got' i)
    (progress : Progress source eventId sent got c) : Progress source eventId sent got' c := by
  have eq : got = got' := funext (fun i => propext (same i))
  exact eq ▸ progress

def Spare (source : Int) (eventId : Nat) (sent : SendEvent) (c : Component) (ops : List Op) : Prop :=
  ∀ before op after packetIdx, ops = before ++ op :: after → Own source eventId sent packetIdx op →
    (∀ i, ¬ Got source eventId sent before i) →
      ∃ target, (run Component.step c before).targets.lookup source = some target ∧
        target.maxPendingEvents ≠ 0#8

theorem completingUnique {ops before before' : List Op}
    (first : ∃ op after, ops = before ++ op :: after ∧ Completing source eventId sent before op)
    (second : ∃ op after, ops = before' ++ op :: after ∧ Completing source eventId sent before' op) :
    before' = before := by
  have shorter : ∀ {a b : List Op}, (∃ op after, ops = a ++ op :: after ∧
      Completing source eventId sent a op) → (∃ op after, ops = b ++ op :: after ∧
      Completing source eventId sent b op) → b.length ≤ a.length := by
    rintro a b ⟨op,after,split,-,whole⟩ ⟨op',after',split',missing,-⟩
    by_contra longer
    have inner : a ++ [op] <+: ops := ⟨after,by rw [split]; simp⟩
    have head : a ++ [op] <+: b := by
      refine List.prefix_of_prefix_length_le inner ⟨op' :: after',split'.symm⟩ ?_
      rw [List.length_append,List.length_singleton]
      omega
    refine missing (fun i hi => ?_)
    obtain ⟨o,mem,own⟩ := whole i hi
    exact ⟨o,head.subset mem,own⟩
  have length : before'.length = before.length :=
    Nat.le_antisymm (shorter first second) (shorter second first)
  obtain ⟨op,after,split,-⟩ := first
  obtain ⟨op',after',split',-⟩ := second
  exact (List.append_inj (split'.symm.trans split) length).1

theorem completingExists {ops : List Op} (some : 0 < sent.count) (whole : Whole source eventId sent ops) :
    ∃ before op after, ops = before ++ op :: after ∧ Completing source eventId sent before op := by
  induction ops using List.reverseRecOn with
  | nil =>
    obtain ⟨op,mem,-⟩ := whole 0 some
    contradiction
  | append_singleton front last ih =>
    by_cases early : Whole source eventId sent front
    · obtain ⟨before,op,after,split,completing⟩ := ih early
      exact ⟨before,op,after ++ [last],by rw [split]; simp,completing⟩
    · exact ⟨front,last,[],rfl,early,whole⟩

theorem progressRun {name payload : List Byte} {c : Component} {ops : List Op}
    (short : name.length + 1 < 2 ^ 16) (small : name.length + 1 + 2 + payload.length < 2 ^ 28)
    (sends : sent.sendPayload = payloadBuf (name ++ [0]) payload) (few : sent.count < 2 ^ 17)
    (static : c.eventName.length = 65536) (absent : c.findReceive source (eventId % 2 ^ 64) = none)
    (each : ∀ op ∈ ops, (∃ packetIdx, Own source eventId sent packetIdx op) ∨ Foreign source eventId op)
    (spare : Spare source eventId sent c ops) {before after : List Op} (split : ops = before ++ after) :
    Progress source eventId sent (Got source eventId sent before) (run Component.step c before) := by
  induction before using List.reverseRecOn generalizing after with
  | nil => exact ⟨static,.inl ⟨fun i _ => by simp [Got],absent⟩⟩
  | append_singleton front op ih =>
    have split' : ops = front ++ op :: after := by rw [split]; simp
    have progress := ih split'
    rw [runAppend]
    rcases each op (by rw [split']; simp) with ⟨packetIdx,own⟩ | foreign
    · obtain ⟨-,arrival,buf,from',-,-,-,same⟩ := id own
      subst from'
      have room : (∀ i < sent.count, ¬ Got arrival.source eventId sent front i) → ∃ target,
          (run Component.step c front).targets.lookup arrival.source = some target ∧
            target.maxPendingEvents ≠ 0#8 :=
        fun none => spare front op after packetIdx split' own
          (fun i got => none i got.choose_spec.2.1 got)
      rw [same] at own ⊢
      have handled := progressOwn short small sends few progress own room
      exact progressCongr (fun i => (gotSnoc few own i).symm) handled.progress
    · exact progressCongr (fun i => (gotForeign few foreign i).symm) (progressForeign progress foreign)

def sentV1 (targets : List Int) (bytesPerSecond : Int) (eventName eventPayload : List Byte) : SendEvent :=
  newSendEvent ReassembledEvent.kFragmentSize targets (defaultRate bytesPerSecond)
    (payloadBuf eventName eventPayload)

theorem eventReassembledOnce {now : Int} {sender c : Component} {target source : Int}
    {targets : List Int} {name payload : List Byte} {bytesPerSecond : Int} {ops : List Op}
    (short : name.length + 1 < 2 ^ 16)
    (fits : name.length + 1 + 2 + payload.length ≤ 131071 * ReassembledEvent.kFragmentSize)
    (known : sender.sendTargets target = some targets) (reachable : Reachable Component.step (.init now) c)
    (absent : c.findReceive source (sender.eventId % 2 ^ 64) = none) (each : ∀ op ∈ ops,
      (∃ packetIdx, Own source sender.eventId (sentV1 targets bytesPerSecond (name ++ [0]) payload)
        packetIdx op) ∨ Foreign source sender.eventId op)
    (spare : Spare source sender.eventId (sentV1 targets bytesPerSecond (name ++ [0]) payload) c ops)
    (whole : Whole source sender.eventId (sentV1 targets bytesPerSecond (name ++ [0]) payload) ops) :
    (sender.triggerEvent target (name ++ [0]) payload bytesPerSecond).sendList.lookup sender.eventId =
        some (sentV1 targets bytesPerSecond (name ++ [0]) payload) ∧
      ReassembledOnce (fun arrival => !arrival.limited) source sender.eventId
        (sentV1 targets bytesPerSecond (name ++ [0]) payload) name payload c ops := by
  rw [ReassembledEvent.kFragmentSize] at fits
  have length : (name ++ [(0 : Byte)]).length = name.length + 1 := by simp
  have bytes := @payloadBufBytes (name ++ [0]) payload (by omega) (by omega) (by omega)
  have size : (payloadBuf (name ++ [0]) payload).length = name.length + 1 + 2 + payload.length := by
    rw [bytes]
    simp
    omega
  refine ⟨?_,?_⟩
  · have accepted : ¬ ReassembledEvent.kMaxPacketSize ≤ totalSize (name ++ [0]) payload := by
      rw [totalSize,length]
      have top : ReassembledEvent.kMaxPacketSize = 2 ^ 17 * 1023 := rfl
      omega
    rw [Component.triggerEvent,if_neg accepted,known]
    exact AList.lookup_insert _
  have sends : (sentV1 targets bytesPerSecond (name ++ [0]) payload).sendPayload =
      payloadBuf (name ++ [0]) payload := rfl
  generalize sentV1 targets bytesPerSecond (name ++ [0]) payload = sent at *
  have few : sent.count < 2 ^ 17 := by
    rw [SendEvent.count,packetCount,sends,size,ReassembledEvent.kFragmentSize]
    split <;> omega
  have positive : 0 < sent.count := by
    rw [SendEvent.count,packetCount,sends,size,ReassembledEvent.kFragmentSize]
    split <;> omega
  have progress := fun {before after} => @progressRun source sender.eventId sent name payload c ops short
    (by omega) sends few (eventNameReachable reachable) absent each spare before after
  obtain ⟨before,op,after,split,completing⟩ := completingExists positive whole
  refine ⟨⟨before,⟨op,after,split,completing⟩,fun before' second =>
    completingUnique ⟨op,after,split,completing⟩ second⟩,?_⟩
  clear split completing before after op
  intro before arrival data after packetIdx split own
  obtain ⟨inside,a,buf,from',-,stack,-,same⟩ := id own
  cases same
  subst from'
  have room : (∀ i < sent.count, ¬ Got arrival.source sender.eventId sent before i) → ∃ target,
      (run Component.step c before).targets.lookup arrival.source = some target ∧
        target.maxPendingEvents ≠ 0#8 :=
    fun none => spare before _ after packetIdx split own (fun i got => none i got.choose_spec.2.1 got)
  have handled := progressOwn short (by omega) sends few (progress split) own room
  refine ⟨_,@ackOwn sender.eventId packetIdx sent.count arrival.buf (inside.trans few) stack,?_,?_⟩
  · rintro ⟨missing,every⟩ queues
    have some : ∃ i < sent.count, ¬ Got arrival.source sender.eventId sent before i := by
      simpa only [Whole,not_forall,exists_prop] using missing
    rw [handled.last ⟨some,fun i hi => (gotSnoc few own i).mp (every i hi)⟩,
      if_neg (by simpa using queues)]
    rfl
  · intro part
    by_cases last : (∃ i < sent.count, ¬ Got arrival.source sender.eventId sent before i) ∧
        ∀ i < sent.count, Got arrival.source sender.eventId sent before i ∨ i = packetIdx
    · have completing : Completing arrival.source sender.eventId sent before (.handlePacket arrival
          ((sent.packet sender.eventId packetIdx sent.count).datagram buf)) := by
        obtain ⟨⟨i,hi,missing⟩,every⟩ := last
        exact ⟨fun all => missing (all i hi),fun i hi => (gotSnoc few own i).mpr (every i hi)⟩
      have limited : arrival.limited = true := by
        by_contra free
        exact part ⟨completing,by simpa using free⟩
      rw [handled.last last,if_pos limited]
      rfl
    · rw [handled.other last]
      rfl

end Event

def receiver : Component := (Component.init 0).registerTarget 1 0xFF#8

def deliveryOf (sent : SendEvent) (limited : Bool) (packetIdx : Nat) : Op :=
  .handlePacket ⟨1,0,limited,List.replicate 1023 0,List.replicate 1536 0,0⟩
    ((sent.packet 0 packetIdx sent.count).datagram (List.replicate 1536 0))

theorem deliveryOwn {sent : SendEvent} {limited : Bool} {packetIdx : Nat}
    (inside : packetIdx < sent.count) : Own 1 0 sent packetIdx (deliveryOf sent limited packetIdx) :=
  ⟨inside,_,_,rfl,List.length_replicate,List.length_replicate,List.length_replicate,rfl⟩

def loneEvent : SendEvent := sentV1 [0] 50000 [65,0] [1]

theorem loneWhole (limited : Bool) : Whole 1 0 loneEvent [deliveryOf loneEvent limited 0] := by
  intro packetIdx inside
  have one : loneEvent.count = 1 := by decide
  have first : packetIdx = 0 := by omega
  subst first
  exact ⟨_,List.mem_singleton.mpr rfl,deliveryOwn inside⟩

theorem sentCount {payload : List Byte} (small : 2 + 2 + payload.length < 2 ^ 28) :
    (sentV1 [0] 50000 [65,0] payload).count = packetCount ReassembledEvent.kFragmentSize (payload.length + 4) := by
  have length : (sentV1 [0] 50000 [65,0] payload).sendPayload.length = payload.length + 4 := by
    show (payloadBuf [65,0] payload).length = payload.length + 4
    rw [@payloadBufBytes [65,0] payload (by decide) (by decide) small]
    simp only [List.length_append,List.length_cons,List.length_nil]
    omega
  rw [SendEvent.count,length]

def pairEvent : SendEvent := sentV1 [0] 50000 [65,0] (List.replicate 1100 1)

theorem pairCount : pairEvent.count = 2 := by
  rw [pairEvent,sentCount (by rw [List.length_replicate]; decide),List.length_replicate]
  decide

def receivers : Component := receiver.registerTarget 2 5#8

/-- The second fragment comes first and twice more, among fragments of other events. -/
def shuffled : List Op :=
  [.handlePacketV2 ⟨2,0,false,[],[],0⟩ ⟨0,0,1,[7]⟩,deliveryOf pairEvent false 1,deliveryOf pairEvent false 1,
    .handlePacketV2 ⟨1,0,false,[],[],0⟩ ⟨7,1,3,[8]⟩,deliveryOf pairEvent false 0,deliveryOf pairEvent false 1]

theorem eventReassembledOnceShuffled :
    ((((Component.init 0).registerTarget 0 0xFF#8).triggerEvent 0 ([65] ++ [0]) (List.replicate 1100 1) 50000).sendList.lookup 0 =
        some pairEvent) ∧
      ReassembledOnce (fun arrival => !arrival.limited) 1 0 pairEvent [65] (List.replicate 1100 1) receivers shuffled := by
  have own {packetIdx : Nat} (inside : packetIdx < 2) : Own 1 0 pairEvent packetIdx (deliveryOf pairEvent false packetIdx) :=
    deliveryOwn (pairCount.symm ▸ inside)
  have foreign {source : Int} {packet : ReassembledEventV2} (other : ¬(source = 1 ∧ packet.eventId = 0)) :
      Foreign 1 0 (.handlePacketV2 ⟨source,0,false,[],[],0⟩ packet) := by
    refine ⟨.inr ⟨_,_,rfl⟩,fun arrival fragment made => ?_⟩
    obtain ⟨own,kept,same⟩ := Option.map_eq_some_iff.mp made
    cases same
    unfold ReassembledEventV2.fragment at kept
    split at kept <;> cases kept
    exact other
  refine @eventReassembledOnce 0 ((Component.init 0).registerTarget 0 0xFF#8) receivers 0 1 [0] [65] (List.replicate 1100 1)
    50000 shuffled (by decide) (by rw [List.length_replicate]; decide) (by decide)
    ⟨[.registerTarget 1 0xFF#8,.registerTarget 2 5#8],rfl⟩ rfl ?_ ?_ ?_
  · simp only [shuffled,List.forall_mem_cons,List.not_mem_nil,false_implies,implies_true,and_true]
    exact ⟨.inr (foreign (by decide)),.inl ⟨1,own (by decide)⟩,.inl ⟨1,own (by decide)⟩,.inr (foreign (by decide)),
      .inl ⟨0,own (by decide)⟩,.inl ⟨1,own (by decide)⟩⟩
  · intro before op after packetIdx split owned none
    rcases before with _ | ⟨first,_ | ⟨second,rest⟩⟩
    · exact ⟨⟨1,0xFF#8⟩,rfl,by decide⟩
    · cases (List.cons.inj split).1
      exact ⟨⟨1,0xFF#8⟩,by decide +kernel,by decide⟩
    · cases (List.cons.inj (List.cons.inj split).2).1
      exact absurd ⟨_,List.mem_cons_of_mem _ List.mem_cons_self,own (by decide)⟩ (none 1)
  · intro packetIdx inside
    change packetIdx < pairEvent.count at inside
    rw [pairCount] at inside
    obtain rfl | rfl : packetIdx = 0 ∨ packetIdx = 1 := by omega
    · exact ⟨deliveryOf pairEvent false 0,by simp [shuffled],own (by decide)⟩
    · exact ⟨deliveryOf pairEvent false 1,by simp [shuffled],own (by decide)⟩

theorem oversizeUnanswered {sent : SendEvent} (full : sent.count = 2 ^ 17) (c : Component)
    (limited : Bool) : (c.apply (deliveryOf sent limited 0)).2 = [] := by
  have size := fragmentLength sent ReassembledEvent.kFragmentSize 0
  have most : (sent.fragment ReassembledEvent.kFragmentSize 0).length ≤ 1023 := by
    rw [size]
    exact Nat.min_le_left _ _
  have parsed := @parseDatagram (sent.packet 0 0 sent.count) (List.replicate 1536 0)
    (List.replicate 1023 0) List.length_replicate most (le_refl _) List.length_replicate
  have zero : ((sent.packet 0 0 sent.count).received (List.replicate 1023 0)).totalPackets = 0 := by
    show sent.count % 2 ^ 17 = 0
    rw [full,Nat.mod_self]
  rw [deliveryOf,Component.apply,Component.handlePacket,parsed]
  dsimp only
  rw [if_pos zero]

def oversizePayload : List Byte := List.replicate 134085630 1

theorem oversizeCount {payload : List Byte} (size : payload.length = 134085630) :
    (sentV1 [0] 50000 [65,0] payload).count = 2 ^ 17 := by
  rw [sentCount (by rw [size]; decide),size]
  decide

/-- The event is not handed over when the sink limits its source, and its fragments are not
even acknowledged when the announced total needs an eighteenth bit. -/
theorem eventNotReassembled :
    ¬ ReassembledOnce (fun _ => true) 1 0 loneEvent [65] [1] receiver [deliveryOf loneEvent true 0] ∧
    ¬ ReassembledOnce (fun arrival => !arrival.limited) 1 0 (sentV1 [0] 50000 [65,0] oversizePayload)
      [65] oversizePayload receiver
      ((List.range (2 ^ 17)).map (deliveryOf (sentV1 [0] 50000 [65,0] oversizePayload) false)) := by
  constructor
  · intro once
    obtain ⟨ack,-,queued,-⟩ := once.answered [] _ _ [] 0 rfl (deliveryOwn (by decide))
    have completing : Completing 1 0 loneEvent [] (deliveryOf loneEvent true 0) := by
      refine ⟨fun none => ?_,loneWhole true⟩
      obtain ⟨op,mem,-⟩ := none 0 (by decide)
      contradiction
    have outputs := congrArg List.length (queued completing rfl)
    have single : (receiver.apply (deliveryOf loneEvent true 0)).2.length = 1 := by decide +kernel
    exact absurd (single.symm.trans outputs) (by simp)
  · intro once
    have full : (sentV1 [0] 50000 [65,0] oversizePayload).count = 2 ^ 17 :=
      oversizeCount List.length_replicate
    generalize sentV1 [0] 50000 [65,0] oversizePayload = sent at *
    have first : (List.range (2 ^ 17)).map (deliveryOf sent false) = deliveryOf sent false 0 ::
        ((List.range (2 ^ 17 - 1)).map Nat.succ).map (deliveryOf sent false) := by
      have split := @List.range_succ_eq_map (2 ^ 17 - 1)
      rw [Nat.sub_add_cancel (by decide)] at split
      rw [split,List.map_cons]
    have own : Own 1 0 sent 0 (deliveryOf sent false 0) := deliveryOwn (by rw [full]; decide)
    obtain ⟨ack,-,queued,single⟩ := once.answered [] _ _ _ 0 first own
    have silent := oversizeUnanswered full receiver false
    by_cases completing : Completing 1 0 sent [] (deliveryOf sent false 0)
    · exact absurd (silent.symm.trans (queued completing rfl)) (by simp)
    · exact absurd (silent.symm.trans (single (fun both => completing both.1))) (by simp)

end Citizen.Resources
