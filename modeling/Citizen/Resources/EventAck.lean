import Citizen.Resources.EventReceive

/-! The send lists: what the burst loop of a tick can do to a bitmap, and what becomes of
a version 2 event between its trigger and its removal. -/
namespace Citizen.Resources
open BitField (Byte)

def PerTargetData.complete (data : PerTargetData) : Prop :=
  ∀ i, data.ackBits.getD i true = true

theorem firstUnsetNone {ackBits : List Bool} {start count : Nat} (none : firstUnset ackBits start count = none) :
    ∀ i, start ≤ i → i < start + count → ackBits.getD i true = true := by
  induction count generalizing start with
  | zero =>
    intro i low high
    omega
  | succ count ih =>
    intro i low high
    rw [firstUnset] at none
    split at none
    · rename_i set
      rcases Nat.eq_or_lt_of_le low with rfl | later
      · exact set
      · exact ih none i later (by omega)
    · contradiction

theorem firstUnsetSome {ackBits : List Bool} {start count bit : Nat}
    (some : firstUnset ackBits start count = some bit) :
    start ≤ bit ∧ bit < start + count ∧ ackBits.getD bit true = false := by
  induction count generalizing start with
  | zero => contradiction
  | succ count ih =>
    rw [firstUnset] at some
    split at some
    · obtain ⟨low,high,unset⟩ := ih some
      exact ⟨by omega,by omega,unset⟩
    · rename_i unset
      cases some
      exact ⟨by omega,by omega,by simpa using unset⟩

structure BurstSound (data : PerTargetData) (ticked : TargetTick) : Prop where
  bits : ∀ data', ticked.data = some data' → data'.ackBits = data.ackBits
  done : ticked.done = true → data.complete
  open' : ticked.done = false → ∃ data', ticked.data = some data'
  sent : ∀ packetIdx ∈ ticked.sent, data.ackBits.getD packetIdx true = false

theorem burstSound (now : Int) (latency startBit rounds : Nat) (resTime : Int) (data : PerTargetData) :
    BurstSound data (burst now latency startBit rounds resTime data) := by
  induction rounds generalizing resTime data with
  | zero => exact ⟨by simp [burst],by simp [burst],by simp [burst],by simp [burst]⟩
  | succ rounds ih =>
    rw [burst]
    split
    · rename_i late early
      refine ⟨by simp,fun _ i => ?_,by simp,by simp⟩
      by_cases first : i < data.lastBit
      · exact firstUnsetNone early i (by omega) (by omega)
      · by_cases inside : i < data.ackBits.length
        · exact firstUnsetNone late i (by omega) (by omega)
        · simp [List.getD_eq_getElem?_getD,show data.ackBits.length ≤ i by omega]
    · exact ⟨by simp,by simp,by simp,by simp⟩
    · rename_i packetIdx late
      have unset := (firstUnsetSome late).2.2
      have alone : ∀ p ∈ [packetIdx], data.ackBits.getD p true = false := by
        intro p mem
        rw [List.mem_singleton.mp mem]
        exact unset
      dsimp only
      generalize (if (latency : Int) < resTime then resTime - latency else resTime) = left
      split
      · exact ⟨by simp,by simp,by simp,alone⟩
      · split
        · have rest := ih left { data with lastBit := (packetIdx + 1) % data.ackBits.length }
          refine ⟨rest.bits,rest.done,rest.open',?_⟩
          intro p mem
          rcases List.mem_cons.mp mem with rfl | later
          · exact unset
          · exact rest.sent p later
        · exact ⟨by simp,by simp,by simp,alone⟩

theorem tickTargetSound (now dT : Int) (latency : Nat) (data : PerTargetData) :
    BurstSound data (tickTarget now dT latency true (some data)) := by
  simp only [tickTarget,Bool.not_true,Bool.false_eq_true,if_false]
  split
  · have sound := burstSound now latency data.lastBit (data.ackBits.length + 1) dT data
    refine ⟨?_,sound.done,?_,sound.sent⟩
    · intro data' made
      obtain ⟨old,found,rfl⟩ := Option.map_eq_some_iff.mp made
      exact sound.bits old found
    · intro running
      obtain ⟨old,found⟩ := sound.open' running
      exact ⟨{ old with lastSend := now },by rw [found]; rfl⟩
  · split <;> exact ⟨by simp,by simp,by simp,by simp⟩

/-! A version 2 event from its trigger on. -/

def SendEvent.ackV2 (sent : SendEvent) (eventId packetIdx count : Nat) : ReassembledEventV2 :=
  { sent.packetV2 eventId packetIdx count with data := [] }

def SendEvent.countV2 (sent : SendEvent) : Nat :=
  packetCount ReassembledEventV2.kFragmentSize sent.sendPayload.length

def Acknowledged (eventId : Nat) (sent : SendEvent) (ops : List Op) (target : Int) : Prop :=
  ∀ packetIdx < sent.countV2, ∃ arrival, arrival.source = target ∧
    Op.handlePacketV2 arrival (sent.ackV2 eventId packetIdx sent.countV2) ∈ ops

def SendEvent.visited (sent : SendEvent) (clock : Clock) : Prop :=
  ∀ target ∈ sent.targets, ∀ data, sent.targetData.lookup target = some data →
    data.due clock.now (clock.latency sent.bytesPerSecond ReassembledEventV2.kFragmentSize)

def Output.fragmentOf (eventId : Nat) : Output → Prop
  | .sendPacketV2 _ packet => packet.eventId = eventId ∧ packet.data ≠ []
  | _ => False

structure Closes (c : Component) (eventId : Nat) (sent : SendEvent) : Prop where
  bits : ∀ ops, ∀ target ∈ sent.targets, Acknowledged eventId sent ops target →
    ∀ event, (run Component.step c ops).sendListV2.lookup eventId = some event →
      ∀ data, event.targetData.lookup target = some data → data.complete
  removal : ∀ ops, (∀ target ∈ sent.targets, Acknowledged eventId sent ops target) →
    ∀ event, (run Component.step c ops).sendListV2.lookup eventId = some event →
      ∀ clock, event.visited clock →
        ((run Component.step c ops).networkTick clock).1.sendListV2.lookup eventId = none ∧
        ∀ out ∈ ((run Component.step c ops).networkTick clock).2, ¬ out.fragmentOf eventId

def RemovedWhenDone (c : Component) (eventId : Nat) (sent : SendEvent) : Prop :=
  ∀ ops, (run Component.step c ops).sendListV2.lookup eventId = none →
    ∀ target ∈ sent.targets,
      Acknowledged eventId sent ops target ∨ Op.unregisterTarget target ∈ ops

theorem lookupTargetData (targets : List Int) (data : PerTargetData) (start : Table Int PerTargetData)
    (target : Int) :
    (targets.foldl (fun all t => all.insert t data) start).lookup target =
      if target ∈ targets then some data else start.lookup target := by
  induction targets generalizing start with
  | nil => simp
  | cons t rest ih =>
    rw [List.foldl_cons,ih]
    by_cases here : target = t
    · subst here
      simp
    · simp [here,AList.lookup_insert_ne here]

theorem payloadBufV2Length (eventName eventPayload : List Byte) :
    (payloadBufV2 eventName eventPayload).length = eventName.length + 2 + eventPayload.length := by
  have low : eventName.length % 2 ^ 16 ≤ eventName.length := Nat.mod_le _ _
  simp only [payloadBufV2,List.length_append,List.length_cons,List.length_nil,List.length_take,
    List.length_replicate]
  omega

theorem packetCountPositive {fragmentSize size : Nat} (some : 0 < size) (unit : 0 < fragmentSize) :
    0 < packetCount fragmentSize size := by
  rw [packetCount]
  by_cases whole : size % fragmentSize = 0
  · have quotient : 0 < size / fragmentSize :=
      Nat.div_pos (Nat.le_of_dvd some (Nat.dvd_of_mod_eq_zero whole)) unit
    exact Nat.add_pos_left quotient _
  · rw [if_pos whole]
    exact Nat.succ_pos _

def Op.rewritesV2 : Op → Bool
  | .triggerEventV2 _ _ _ _ => true
  | .unregisterTarget _ => true
  | .networkTick _ => true
  | _ => false

variable {c : Component}

theorem sendListV2Kept {op : Op} (kept : op.rewritesV2 = false) :
    (c.step op).sendListV2 = c.sendListV2 ∧ c.eventId ≤ (c.step op).eventId := by
  cases delivers : op.fragment with
  | some delivery =>
    obtain ⟨arrival,fragment⟩ := delivery
    have same := @sendingFragment c arrival fragment op delivers
    simp only [Prod.mk.injEq] at same
    exact ⟨same.2.1,same.2.2.ge⟩
  | none =>
    cases op with
    | registerTarget id quota => exact ⟨rfl,le_refl _⟩
    | unregisterTarget id => contradiction
    | networkTick clock => contradiction
    | triggerEventV2 target name payload rate => contradiction
    | triggerEvent target name payload rate =>
      simp only [Component.step,Component.apply,Component.triggerEvent]
      split
      · exact ⟨rfl,le_refl _⟩
      · split
        · exact ⟨rfl,le_refl _⟩
        · exact ⟨rfl,Nat.le_succ _⟩
    | handlePacket arrival data =>
      simp only [Op.fragment,Option.map_eq_none_iff,Option.bind_eq_none_iff] at delivers
      simp only [Component.step,Component.apply,Component.handlePacket]
      cases parsed : EventPacket.parse arrival.payload (.ofData data) with
      | none => exact ⟨rfl,le_refl _⟩
      | some packet =>
        have useless := delivers packet parsed
        simp only [EventPacket.fragment,ite_eq_left_iff,reduceCtorEq,imp_false,not_not] at useless
        rcases useless with total | ack
        · simp [total]
        · simp only [ack,if_true]
          split <;> exact ⟨rfl,le_refl _⟩
    | handlePacketV2 arrival packet =>
      simp only [Op.fragment,Option.map_eq_none_iff] at delivers
      simp only [ReassembledEventV2.fragment,ite_eq_left_iff,reduceCtorEq,imp_false,not_not] at delivers
      simp only [Component.step,Component.apply,Component.handlePacketV2]
      rcases delivers with total | ack
      · simp [total]
      · simp only [ack,if_true]
        split <;> exact ⟨rfl,le_refl _⟩

theorem registeredStep {op : Op} {target : Int}
    (registered : (c.targets.lookup target).isSome = true) (kept : op ≠ .unregisterTarget target) :
    ((c.step op).targets.lookup target).isSome = true := by
  cases delivers : op.fragment with
  | some delivery =>
    obtain ⟨arrival,fragment⟩ := delivery
    rw [stepFragment delivers,finishReceiptTargets,registeredReceive]
    exact registered
  | none =>
    cases op with
    | registerTarget id quota =>
      by_cases same : target = id
      · subst same
        exact Option.isSome_iff_exists.mpr ⟨_,AList.lookup_insert _⟩
      · simpa [Component.step,Component.apply,Component.registerTarget,
          AList.lookup_insert_ne same] using registered
    | unregisterTarget id =>
      have other : target ≠ id := fun same => kept (by rw [same])
      simp only [Component.step,Component.apply,Component.unregisterTarget]
      split
      · simpa [AList.lookup_erase_ne other] using registered
      · exact registered
    | networkTick clock => exact registered
    | _ =>
      obtain ⟨-,targets,-,-⟩ := @applyQuiet c _ delivers (by simp) (by simp)
      rwa [targets]

inductive EntryStep (c : Component) (event : SendEvent) : Op → Option SendEvent → Prop where
  | kept {op} : EntryStep c event op (some event)
  | unregistered (id : Int) : EntryStep c event (.unregisterTarget id)
      (some { event with targetData := event.targetData.erase id, targets := event.targets.erase id })
  | ticked (clock : Clock) : EntryStep c event (.networkTick clock)
      (let ticked := event.tick clock (clock.now - c.lastTime) ReassembledEventV2.kFragmentSize
        (fun target => (c.targets.lookup target).isSome)
       if ticked.targets.isEmpty then none else some ticked)

theorem entryStepV2 {eventId : Nat} {event : SendEvent}
    (found : c.sendListV2.lookup eventId = some event) (old : eventId < c.eventId) (op : Op) :
    EntryStep c event op ((c.step op).sendListV2.lookup eventId) ∧ eventId < (c.step op).eventId := by
  by_cases quiet : op.rewritesV2 = false
  · obtain ⟨list,later⟩ := @sendListV2Kept c op quiet
    rw [list,found]
    exact ⟨.kept,old.trans_le later⟩
  cases op with
  | unregisterTarget id =>
    simp only [Component.step,Component.apply,Component.unregisterTarget]
    split
    · refine ⟨?_,old⟩
      simp only [unregisterSendList,Table.lookupMapValues,found,Option.map_some]
      exact .unregistered id
    · rw [found]
      exact ⟨.kept,old⟩
  | networkTick clock =>
    refine ⟨?_,old⟩
    simp only [Component.step,Component.apply,Component.networkTick,networkTickSendList,
      Table.lookupFilterMapValues,found,Option.bind_some]
    exact .ticked clock
  | triggerEventV2 target name payload rate =>
    simp only [Component.step,Component.apply,Component.triggerEventV2]
    split
    · rw [found]
      exact ⟨.kept,old⟩
    · split
      · rw [found]
        exact ⟨.kept,old⟩
      · rw [AList.lookup_insert_ne (Nat.ne_of_lt old),found]
        exact ⟨.kept,Nat.lt_succ_of_lt old⟩
  | _ => exact absurd rfl quiet

theorem absentStepV2 {eventId : Nat} (gone : c.sendListV2.lookup eventId = none)
    (old : eventId < c.eventId) (op : Op) :
    (c.step op).sendListV2.lookup eventId = none ∧ eventId < (c.step op).eventId := by
  by_cases quiet : op.rewritesV2 = false
  · obtain ⟨list,later⟩ := @sendListV2Kept c op quiet
    rw [list]
    exact ⟨gone,old.trans_le later⟩
  cases op with
  | unregisterTarget id =>
    simp only [Component.step,Component.apply,Component.unregisterTarget]
    split
    · exact ⟨by simp [unregisterSendList,Table.lookupMapValues,gone],old⟩
    · exact ⟨gone,old⟩
  | networkTick clock =>
    exact ⟨by simp [Component.step,Component.apply,Component.networkTick,networkTickSendList,
      Table.lookupFilterMapValues,gone],old⟩
  | triggerEventV2 target name payload rate =>
    simp only [Component.step,Component.apply,Component.triggerEventV2]
    split
    · exact ⟨gone,old⟩
    · split
      · exact ⟨gone,old⟩
      · rw [AList.lookup_insert_ne (Nat.ne_of_lt old)]
        exact ⟨gone,Nat.lt_succ_of_lt old⟩
  | _ => exact absurd rfl quiet

structure Held (eventId count : Nat) (target : Int) (c : Component) : Prop where
  old : eventId < c.eventId
  registered : (c.targets.lookup target).isSome = true
  entry : ∃ event, c.sendListV2.lookup eventId = some event ∧ target ∈ event.targets ∧
    ∃ data, event.targetData.lookup target = some data ∧ data.ackBits = List.replicate count false

theorem unsetIncomplete {data : PerTargetData} {count : Nat} (some : 0 < count)
    (bits : data.ackBits = List.replicate count false) : ¬ data.complete := by
  intro complete
  have first := complete 0
  rw [bits] at first
  simp [List.getD_eq_getElem?_getD,some] at first

section
variable {eventId count : Nat} {target : Int} {c : Component} (some : 0 < count) (held : Held eventId count target c)
include some held

theorem heldStep (op : Op) (kept : op ≠ .unregisterTarget target) : Held eventId count target (c.step op) := by
  obtain ⟨event,found,member,data,own,bits⟩ := held.entry
  obtain ⟨entry,old⟩ := entryStepV2 found held.old op
  refine ⟨old,registeredStep held.registered kept,?_⟩
  generalize (c.step op).sendListV2.lookup eventId = after at *
  cases entry with
  | kept => exact ⟨event,rfl,member,data,own,bits⟩
  | unregistered id =>
    have other : target ≠ id := fun same => kept (by rw [same])
    refine ⟨_,rfl,(List.mem_erase_of_ne other).mpr member,data,?_,bits⟩
    exact (AList.lookup_erase_ne other).trans own
  | ticked clock =>
    have sound := tickTargetSound clock.now (clock.now - c.lastTime)
      (clock.latency event.bytesPerSecond ReassembledEventV2.kFragmentSize) data
    have tick : event.tickOf clock (clock.now - c.lastTime) ReassembledEventV2.kFragmentSize
        (fun target => (c.targets.lookup target).isSome) target =
        tickTarget clock.now (clock.now - c.lastTime)
          (clock.latency event.bytesPerSecond ReassembledEventV2.kFragmentSize) true (.some data) := by
      rw [SendEvent.tickOf,held.registered,own]
    rw [← tick] at sound
    have running : (event.tickOf clock (clock.now - c.lastTime) ReassembledEventV2.kFragmentSize
        (fun target => (c.targets.lookup target).isSome) target).done = false := by
      rw [← Bool.not_eq_true]
      exact fun done => unsetIncomplete some bits (sound.done done)
    obtain ⟨data',made⟩ := sound.open' running
    have stays : target ∈ (event.tick clock (clock.now - c.lastTime) ReassembledEventV2.kFragmentSize
        (fun target => (c.targets.lookup target).isSome)).targets :=
      List.mem_filter.mpr ⟨member,by rw [running]; rfl⟩
    dsimp only
    rw [if_neg (by rw [List.isEmpty_iff]; exact List.ne_nil_of_mem stays)]
    refine ⟨_,rfl,stays,data',?_,(sound.bits data' made).trans bits⟩
    simp only [SendEvent.tick,Table.lookupFilterMapValues,own,Option.bind_some,if_pos member]
    exact made

theorem heldRun (ops : List Op) (kept : Op.unregisterTarget target ∉ ops) :
    Held eventId count target (run Component.step c ops) :=
  runKeeps (Held eventId count target) (fun _ op held other => heldStep some held op other) held
    (alongOfMem (fun _ _ mem same => kept (same ▸ mem)))

end

def Idle (eventId : Nat) (c : Component) : Prop :=
  eventId < c.eventId ∧ ∀ event, c.sendListV2.lookup eventId = some event → event.targets = []

section
variable {eventId : Nat} {c : Component} (idle : Idle eventId c)
include idle

theorem idleStep (op : Op) : Idle eventId (c.step op) := by
  cases found : c.sendListV2.lookup eventId with
  | none =>
    obtain ⟨gone,old⟩ := absentStepV2 found idle.1 op
    exact ⟨old,by simp [gone]⟩
  | some event =>
    have none := idle.2 event found
    obtain ⟨entry,old⟩ := entryStepV2 found idle.1 op
    refine ⟨old,?_⟩
    generalize (c.step op).sendListV2.lookup eventId = after at *
    intro event' stored
    subst stored
    generalize same : some event' = after at entry
    cases entry with
    | kept =>
      cases same
      exact none
    | unregistered id =>
      cases same
      simp [none]
    | ticked clock =>
      simp [SendEvent.tick,none] at same

theorem idleRun (ops : List Op) : Idle eventId (run Component.step c ops) :=
  reachableKeeps (Idle eventId) (fun _ op idle => idleStep idle op) idle ⟨ops,rfl⟩

theorem idleTick (clock : Clock) : (c.networkTick clock).1.sendListV2.lookup eventId = none ∧
      ∀ out ∈ (c.networkTick clock).2, ¬ out.fragmentOf eventId := by
  constructor
  · simp only [Component.networkTick,networkTickSendList,Table.lookupFilterMapValues]
    cases found : c.sendListV2.lookup eventId with
    | none => rfl
    | some event => simp [SendEvent.tick,idle.2 event found]
  · intro out mem
    simp only [Component.networkTick,List.mem_append,sendListOutputs,List.mem_flatMap,
      SendEvent.tickOutputs,List.mem_map] at mem
    rcases mem with ⟨e,-,target,-,packetIdx,-,rfl⟩ | ⟨e,entry,target,member,packetIdx,-,rfl⟩
    · simp [SendEvent.output,Output.fragmentOf]
    · rintro ⟨same,-⟩
      have own : e.1 = eventId := same
      have none := idle.2 e.2 (Table.memEntries.mpr (own ▸ entry))
      rw [none] at member
      contradiction

end

theorem sendTargetsRegistered {c : Component} {target : Int} {targets : List Int}
    (known : c.sendTargets target = some targets) : ∀ t ∈ targets, (c.targets.lookup t).isSome = true := by
  intro t mem
  rw [Component.sendTargets] at known
  split at known
  · cases known
    rw [List.mem_insertionSort] at mem
    exact AList.lookup_isSome.mpr (AList.mem_keys.mpr mem)
  · split at known <;> try contradiction
    rename_i registered
    cases known
    rwa [List.mem_singleton.mp mem]

section Trigger
variable {c : Component} {target : Int} {eventName eventPayload : List Byte} {bytesPerSecond : Int}
  {targets : List Int}

def sentV2 (targets : List Int) (bytesPerSecond : Int) (eventName eventPayload : List Byte) : SendEvent :=
  newSendEvent ReassembledEventV2.kFragmentSize targets (defaultRate bytesPerSecond)
    (payloadBufV2 eventName eventPayload)

section
variable (fits : totalSize eventName eventPayload < ReassembledEventV2.kMaxPacketSize)
  (known : c.sendTargets target = some targets)
include fits known

theorem triggerStoresV2 :
    (c.triggerEventV2 target eventName eventPayload bytesPerSecond).sendListV2.lookup c.eventId =
        some (sentV2 targets bytesPerSecond eventName eventPayload) ∧
      (c.triggerEventV2 target eventName eventPayload bytesPerSecond).eventId = c.eventId + 1 ∧
      (c.triggerEventV2 target eventName eventPayload bytesPerSecond).targets = c.targets := by
  rw [Component.triggerEventV2,if_neg (by omega),known]
  exact ⟨AList.lookup_insert _,rfl,rfl⟩

theorem heldTrigger {t : Int} (mem : t ∈ targets) :
    Held c.eventId (sentV2 targets bytesPerSecond eventName eventPayload).countV2 t
      (c.triggerEventV2 target eventName eventPayload bytesPerSecond) := by
  obtain ⟨stored,next,same⟩ := @triggerStoresV2 c target eventName eventPayload bytesPerSecond targets
    fits known
  refine ⟨by omega,?_,_,stored,mem,?_⟩
  · rw [same]
    exact sendTargetsRegistered known t mem
  · refine ⟨⟨0,0,List.replicate _ false,0⟩,?_,rfl⟩
    simp only [sentV2,newSendEvent,lookupTargetData,if_pos mem]
    rfl

end

theorem countV2Positive : 0 < (sentV2 targets bytesPerSecond eventName eventPayload).countV2 := by
  refine packetCountPositive ?_ (by decide)
  show 0 < (payloadBufV2 eventName eventPayload).length
  rw [payloadBufV2Length]
  omega

theorem ackLoopClosesIff (fits : totalSize eventName eventPayload < ReassembledEventV2.kMaxPacketSize)
    (known : c.sendTargets target = some targets) :
    (Closes (c.triggerEventV2 target eventName eventPayload bytesPerSecond) c.eventId
        (sentV2 targets bytesPerSecond eventName eventPayload) ↔ targets = []) ∧
      RemovedWhenDone (c.triggerEventV2 target eventName eventPayload bytesPerSecond) c.eventId
        (sentV2 targets bytesPerSecond eventName eventPayload) := by
  refine ⟨⟨?_,?_⟩,?_⟩
  · intro closes
    rw [List.eq_nil_iff_forall_not_mem]
    intro t mem
    generalize sentEq : sentV2 targets bytesPerSecond eventName eventPayload = sent at *
    have positive : 0 < sent.countV2 := by
      rw [← sentEq]
      exact countV2Positive
    have start : Held c.eventId sent.countV2 t
        (c.triggerEventV2 target eventName eventPayload bytesPerSecond) := by
      rw [← sentEq]
      exact heldTrigger fits known mem
    let acks := (List.range sent.countV2).map (fun packetIdx =>
      Op.handlePacketV2 ⟨t,0,false,[],[],0⟩ (sent.ackV2 c.eventId packetIdx sent.countV2))
    have delivered : Acknowledged c.eventId sent acks t := fun packetIdx inside =>
      ⟨_,rfl,List.mem_map.mpr ⟨packetIdx,List.mem_range.mpr inside,rfl⟩⟩
    have kept : Op.unregisterTarget t ∉ acks := by simp [acks]
    obtain ⟨event,found,-,data,own,bits⟩ := (heldRun positive start acks kept).entry
    have member : t ∈ sent.targets := by
      rw [← sentEq]
      exact mem
    exact unsetIncomplete positive bits (closes.bits acks t member delivered event found data own)
  · intro none
    have idle : Idle c.eventId (c.triggerEventV2 target eventName eventPayload bytesPerSecond) := by
      obtain ⟨stored,next,-⟩ := @triggerStoresV2 c target eventName eventPayload bytesPerSecond targets
        fits known
      refine ⟨by omega,fun event found => ?_⟩
      cases stored.symm.trans found
      exact none
    refine ⟨fun ops t mem => ?_,fun ops _ event _ clock _ => idleTick (idleRun idle ops) clock⟩
    have member : t ∈ targets := mem
    rw [none] at member
    contradiction
  · intro ops gone t mem
    by_contra neither
    obtain ⟨-,kept⟩ := not_or.mp neither
    obtain ⟨event,found,-⟩ := (heldRun countV2Positive (heldTrigger fits known mem) ops kept).entry
    rw [gone] at found
    contradiction

end Trigger

theorem ackLoopSingle : Closes (((Component.init 0).registerTarget 7 0xFF#8).triggerEventV2 7 [65] [1] 50000) 0
        (sentV2 [7] 50000 [65] [1]) ↔ [(7 : Int)] = [] :=
  (@ackLoopClosesIff ((Component.init 0).registerTarget 7 0xFF#8) 7 [65] [1] 50000 [7]
    (by decide) (by decide)).1

theorem ackLoopOpen : ¬ Closes (((Component.init 0).registerTarget 7 0xFF#8).triggerEventV2 7 [65] [1] 50000) 0
      (sentV2 [7] 50000 [65] [1]) := by
  intro closes
  have bits := closes.bits
    [.handlePacketV2 ⟨7,0,false,[],[],0⟩ ((sentV2 [7] 50000 [65] [1]).ackV2 0 0 1)] 7 (by decide)
    (fun packetIdx inside => ⟨⟨7,0,false,[],[],0⟩,rfl,by
      have first : packetIdx = 0 := by
        have count : (sentV2 [7] 50000 [65] [1]).countV2 = 1 := by decide
        omega
      subst first
      exact List.mem_singleton.mpr rfl⟩)
    (sentV2 [7] 50000 [65] [1]) rfl ⟨0,0,[false],0⟩ rfl 0
  contradiction

end Citizen.Resources
