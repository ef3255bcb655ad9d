import Citizen.Resources.EventBurst
import Citizen.Resources.EventDelivery

/-! Where the packets of a tick come from: each is a fragment of an event that was triggered before, for one of its targets. -/
namespace Citizen.Resources

/-- What a send event may have become: some of its targets, with the same payload and as many bits. -/
structure SendEvent.Later (old event : SendEvent) : Prop where
  payload : event.sendPayload = old.sendPayload
  bits : ∀ target data, event.targetData.lookup target = some data →
    ∃ before, old.targetData.lookup target = some before ∧ data.ackBits.length = before.ackBits.length

theorem SendEvent.Later.refl (event : SendEvent) : event.Later event := ⟨rfl,fun _ data found => ⟨data,found,rfl⟩⟩

theorem SendEvent.Later.trans {first second third : SendEvent} (early : first.Later second) (late : second.Later third) :
    first.Later third where
  payload := late.payload.trans early.payload
  bits target data found := by
    obtain ⟨between,found,length⟩ := late.bits target data found
    obtain ⟨before,found,length'⟩ := early.bits target between found
    exact ⟨before,found,length.trans length'⟩

def LaterList (sendList sendList' : Table Nat SendEvent) : Prop :=
  ∀ eventId event, sendList'.lookup eventId = some event → ∃ old, sendList.lookup eventId = some old ∧ old.Later event

theorem laterAck (sendList : Table Nat SendEvent) (source : Int) (eventId packetIdx : Nat) :
    LaterList sendList (ackSendList sendList source eventId packetIdx) := by
  intro other event found
  rw [ackSendList,Table.adjust,Table.lookupMapValues,Option.map_eq_some_iff] at found
  obtain ⟨old,before,rfl⟩ := found
  refine ⟨old,before,?_⟩
  split
  swap
  · exact .refl old
  refine ⟨rfl,fun target data own => ?_⟩
  dsimp only at own
  rw [Table.adjust,Table.lookupMapValues,Option.map_eq_some_iff] at own
  obtain ⟨first,there,rfl⟩ := own
  refine ⟨first,there,?_⟩
  split
  · exact List.length_set
  · rfl

theorem laterUnregister (sendList : Table Nat SendEvent) (id : Int) : LaterList sendList (unregisterSendList id sendList) := by
  intro eventId event found
  rw [unregisterSendList,Table.lookupMapValues,Option.map_eq_some_iff] at found
  obtain ⟨old,before,rfl⟩ := found
  exact ⟨old,before,rfl,fun target data own => ⟨data,(Table.lookupErased own).2,rfl⟩⟩

theorem laterTicked (event : SendEvent) (clock : Clock) (dT : Int) (fragmentSize : Nat) (registered : Int → Bool) :
    event.Later (event.tick clock dT fragmentSize registered) where
  payload := rfl
  bits target data found := by
    simp only [SendEvent.tick,Table.lookupFilterMapValues,Option.bind_eq_some_iff] at found
    obtain ⟨old,before,made⟩ := found
    refine ⟨old,before,?_⟩
    split at made
    swap
    · rw [Option.some.inj made]
    rw [SendEvent.tickOf,before] at made
    cases known : registered target with
    | false =>
      rw [known] at made
      rw [Option.some.inj made]
    | true =>
      rw [known] at made
      rw [(tickTargetSound _ _ _ old).bits data made]

theorem laterTick (clock : Clock) (dT : Int) (sendList : Table Nat SendEvent) (fragmentSize : Nat) (registered : Int → Bool) :
    LaterList sendList (networkTickSendList clock dT sendList fragmentSize registered) := by
  intro eventId event found
  simp only [networkTickSendList,Table.lookupFilterMapValues,Option.bind_eq_some_iff] at found
  obtain ⟨old,before,made⟩ := found
  split at made
  · cases made
  · cases made
    exact ⟨old,before,laterTicked old clock dT fragmentSize registered⟩

section
variable (v2 : Bool)

def kFragmentSize : Nat := if v2 then ReassembledEventV2.kFragmentSize else ReassembledEvent.kFragmentSize

def trigger (target : Int) (eventName eventPayload : List BitField.Byte) (bytesPerSecond : Int) : Op :=
  if v2 then .triggerEventV2 target eventName eventPayload bytesPerSecond
  else .triggerEvent target eventName eventPayload bytesPerSecond

def sentBy (targets : List Int) (bytesPerSecond : Int) (eventName eventPayload : List BitField.Byte) : SendEvent :=
  if v2 then sentV2 targets bytesPerSecond eventName eventPayload else sentV1 targets bytesPerSecond eventName eventPayload

end

section
variable {v2 : Bool} {c : Component} {op : Op} {eventId : Nat} {event : SendEvent} {ops : List Op}

theorem laterInserted {sendList : Table Nat SendEvent} {id : Nat} {sent : SendEvent}
    (found : (sendList.insert id sent).lookup eventId = some event) :
    (∃ old, sendList.lookup eventId = some old ∧ old.Later event) ∨ (eventId = id ∧ event = sent) := by
  rw [Table.lookupInsert] at found
  split at found
  · exact .inr ⟨by assumption,(Option.some.inj found).symm⟩
  · exact .inl ⟨event,found,.refl event⟩

theorem sendingStep (found : ((c.step op).sending v2).1.lookup eventId = some event) :
    (∃ old, (c.sending v2).1.lookup eventId = some old ∧ old.Later event) ∨
      ∃ asked name payload rate targets, op = trigger v2 asked name payload rate ∧ c.sendTargets asked = some targets ∧
        eventId = c.eventId ∧ event = sentBy v2 targets rate name payload := by
  have aside (same : (c.step op).sendList = c.sendList ∧ (c.step op).sendListV2 = c.sendListV2) :
      ∃ old, (c.sending v2).1.lookup eventId = some old ∧ old.Later event := by
    have unchanged : ((c.step op).sending v2).1 = (c.sending v2).1 := by
      cases v2 with
      | false => exact same.1
      | true => exact same.2
    exact ⟨event,unchanged ▸ found,.refl event⟩
  cases delivers : op.fragment with
  | some delivery =>
    have same := @sendingFragment c delivery.1 delivery.2 op delivers
    exact .inl (aside ⟨congrArg Prod.fst same,congrArg (fun lists => lists.2.1) same⟩)
  | none =>
    have acked {source : Int} {id packetIdx : Nat}
        (found : (Component.sending { c with sendList := ackSendList c.sendList source id packetIdx } v2).1.lookup eventId =
          some event) : ∃ old, (c.sending v2).1.lookup eventId = some old ∧ old.Later event := by
      cases v2 with
      | false => exact laterAck _ _ _ _ _ _ found
      | true => exact ⟨event,found,.refl event⟩
    cases op with
    | registerTarget id quota => exact .inl (aside ⟨rfl,rfl⟩)
    | unregisterTarget id =>
      simp only [Component.step,Component.apply,Component.unregisterTarget] at found
      split at found
      · cases v2 with
        | false => exact .inl (laterUnregister _ _ _ _ found)
        | true => exact .inl (laterUnregister _ _ _ _ found)
      · exact .inl ⟨event,found,.refl event⟩
    | triggerEvent asked name payload rate =>
      simp only [Component.step,Component.apply,Component.triggerEvent] at found
      split at found
      · exact .inl ⟨event,found,.refl event⟩
      split at found
      · exact .inl ⟨event,found,.refl event⟩
      rename_i targets known
      cases v2 with
      | false => exact (laterInserted found).imp_right fun made => ⟨asked,name,payload,rate,targets,rfl,known,made⟩
      | true => exact .inl ⟨event,found,.refl event⟩
    | triggerEventV2 asked name payload rate =>
      simp only [Component.step,Component.apply,Component.triggerEventV2] at found
      split at found
      · exact .inl ⟨event,found,.refl event⟩
      split at found
      · exact .inl ⟨event,found,.refl event⟩
      rename_i targets known
      cases v2 with
      | false => exact .inl ⟨event,found,.refl event⟩
      | true => exact (laterInserted found).imp_right fun made => ⟨asked,name,payload,rate,targets,rfl,known,made⟩
    | networkTick clock =>
      cases v2 with
      | false => exact .inl (laterTick _ _ _ _ _ _ _ found)
      | true => exact .inl (laterTick _ _ _ _ _ _ _ found)
    | handlePacket arrival data =>
      simp only [Op.fragment,Option.map_eq_none_iff,Option.bind_eq_none_iff] at delivers
      simp only [Component.step,Component.apply,Component.handlePacket] at found
      cases parsed : EventPacket.parse arrival.payload (.ofData data) with
      | none =>
        rw [parsed] at found
        exact .inl ⟨event,found,.refl event⟩
      | some packet =>
        have useless := delivers packet parsed
        simp only [EventPacket.fragment,ite_eq_left_iff,reduceCtorEq,imp_false,not_not] at useless
        simp only [parsed] at found
        split at found
        · exact .inl ⟨event,found,.refl event⟩
        · rename_i some_
          rw [if_pos (useless.resolve_left some_)] at found
          exact .inl (acked found)
    | handlePacketV2 arrival packet =>
      simp only [Op.fragment,Option.map_eq_none_iff] at delivers
      simp only [ReassembledEventV2.fragment,ite_eq_left_iff,reduceCtorEq,imp_false,not_not] at delivers
      simp only [Component.step,Component.apply,Component.handlePacketV2] at found
      split at found
      · exact .inl ⟨event,found,.refl event⟩
      · rename_i some_
        rw [if_pos (delivers.resolve_left some_)] at found
        exact .inl (acked found)

def Triggered (v2 : Bool) (start : Component) (ops : List Op) (eventId : Nat) (event : SendEvent) : Prop :=
  ∃ before asked name payload rate after targets, ops = before ++ trigger v2 asked name payload rate :: after ∧
    (run Component.step start before).sendTargets asked = some targets ∧
    eventId = (run Component.step start before).eventId ∧ (sentBy v2 targets rate name payload).Later event

theorem triggeredRun {now : Int} (found : ((run Component.step (.init now) ops).sending v2).1.lookup eventId = some event) :
    Triggered v2 (.init now) ops eventId event := by
  induction ops using List.reverseRecOn generalizing event with
  | nil => cases v2 <;> cases found
  | append_singleton front op ih =>
    rw [runAppend] at found
    obtain ⟨old,before,later⟩ | ⟨asked,name,payload,rate,targets,rfl,known,id,rfl⟩ := sendingStep found
    · obtain ⟨first,asked,name,payload,rate,after,targets,rfl,known,id,early⟩ := ih before
      exact ⟨first,asked,name,payload,rate,after ++ [op],targets,by simp,known,id,early.trans later⟩
    · exact ⟨front,asked,name,payload,rate,[],targets,rfl,known,id,.refl _⟩

theorem sentByBits {targets : List Int} {rate : Int} {name payload : List BitField.Byte} {target : Int} {data : PerTargetData}
    (found : (sentBy v2 targets rate name payload).targetData.lookup target = some data) : target ∈ targets ∧
      data.ackBits.length = packetCount (kFragmentSize v2) (sentBy v2 targets rate name payload).sendPayload.length := by
  have listed : target ∈ targets := by
    by_contra other
    cases v2 <;> simp [sentBy,sentV1,sentV2,newSendEvent,lookupTargetData,other] at found
  refine ⟨listed,?_⟩
  cases v2
  all_goals
    simp only [sentBy,sentV1,sentV2,newSendEvent,lookupTargetData,if_pos listed,Option.some.injEq,reduceIte,
      Bool.false_eq_true] at found
    rw [← found]
    exact List.length_replicate

theorem tickOutput {clock : Clock} {dT : Int} {registered : Int → Bool} {out : Output}
    (mem : out ∈ event.tickOutputs clock dT (kFragmentSize v2) v2 registered eventId) :
    ∃ target data packetIdx, event.targetData.lookup target = some data ∧ packetIdx < data.ackBits.length ∧
      out = event.output clock v2 eventId target data.ackBits.length packetIdx := by
  simp only [SendEvent.tickOutputs,List.mem_flatMap,List.mem_map] at mem
  obtain ⟨target,-,packetIdx,indexed,rfl⟩ := mem
  rw [SendEvent.tickOf] at indexed
  cases known : registered target with
  | false => simp [tickTarget,known] at indexed
  | true =>
    cases own : event.targetData.lookup target with
    | none => simp [tickTarget,known,own] at indexed
    | some data =>
      rw [known,own] at indexed
      have unset := (tickTargetSound _ _ _ data).sent packetIdx indexed
      refine ⟨target,data,packetIdx,own,?_,rfl⟩
      by_contra outside
      rw [List.getD_eq_getElem?_getD,List.getElem?_eq_none (by omega)] at unset
      cases unset

end

/-- Whatever a tick sends after any run is a fragment of an event that the run has triggered, under the id that the event
has got, for one of its targets. -/
theorem packetsTriggered {now : Int} {ops : List Op} {clock : Clock} {out : Output}
    (sent : out ∈ ((run Component.step (.init now) ops).networkTick clock).2) :
    ∃ v2 before asked name payload rate after targets target packetIdx,
      ops = before ++ trigger v2 asked name payload rate :: after ∧
      (run Component.step (.init now) before).sendTargets asked = some targets ∧ target ∈ targets ∧
      packetIdx < packetCount (kFragmentSize v2) (sentBy v2 targets rate name payload).sendPayload.length ∧
      out = (sentBy v2 targets rate name payload).output clock v2 (run Component.step (.init now) before).eventId target
        (packetCount (kFragmentSize v2) (sentBy v2 targets rate name payload).sendPayload.length) packetIdx := by
  have listed : ∃ v2 eventId event, ((run Component.step (.init now) ops).sending v2).1.lookup eventId = some event ∧
      ∃ dT registered, out ∈ event.tickOutputs clock dT (kFragmentSize v2) v2 registered eventId := by
    rcases List.mem_append.mp sent with first | second
    · obtain ⟨⟨eventId,event⟩,entry,mem⟩ := List.mem_flatMap.mp first
      exact ⟨false,eventId,event,Table.memEntries.mpr entry,_,_,mem⟩
    · obtain ⟨⟨eventId,event⟩,entry,mem⟩ := List.mem_flatMap.mp second
      exact ⟨true,eventId,event,Table.memEntries.mpr entry,_,_,mem⟩
  obtain ⟨v2,eventId,event,found,dT,registered,mem⟩ := listed
  obtain ⟨target,data,packetIdx,own,inside,rfl⟩ := tickOutput mem
  obtain ⟨before,asked,name,payload,rate,after,targets,rfl,known,rfl,later⟩ := triggeredRun found
  obtain ⟨first,own,length⟩ := later.bits target data own
  obtain ⟨listed,count⟩ := sentByBits own
  rw [length,count] at inside ⊢
  refine ⟨v2,before,asked,name,payload,rate,after,targets,target,packetIdx,rfl,known,listed,inside,?_⟩
  simp only [SendEvent.output,SendEvent.packet,SendEvent.packetV2,SendEvent.fragment,later.payload]

def notice : List Op := [.registerTarget 7 1,.triggerEventV2 7 [65] [1] 0]

theorem noticeTriggered : ∃ v2 before asked name payload rate after targets target packetIdx,
    notice = before ++ trigger v2 asked name payload rate :: after ∧
    (run Component.step (.init 0) before).sendTargets asked = some targets ∧ target ∈ targets ∧
    packetIdx < packetCount (kFragmentSize v2) (sentBy v2 targets rate name payload).sendPayload.length ∧
    .sendPacketV2 7 ⟨0,0,1,[1,0,65,1]⟩ = (sentBy v2 targets rate name payload).output ⟨1000,fun _ _ => 1,[]⟩ v2
      (run Component.step (.init 0) before).eventId target
      (packetCount (kFragmentSize v2) (sentBy v2 targets rate name payload).sendPayload.length) packetIdx :=
  @packetsTriggered 0 notice ⟨1000,fun _ _ => 1,[]⟩ (.sendPacketV2 7 ⟨0,0,1,[1,0,65,1]⟩) (by decide)

end Citizen.Resources
