import Citizen.Resources.EventReassembly

/-! What one operation does to the receive side of the component: the cases of a
received fragment, said once, and the parts of the state that each operation leaves. -/
namespace Citizen.Resources
open BitField (Byte)

@[simp] theorem findReceiveStore (c : Component) (source eventId event) :
    (c.storeReceive source eventId event).findReceive source eventId = some event := by
  simp [Component.storeReceive,Component.findReceive]

variable {c : Component}

theorem findReceiveStoreOther {source eventId event s e} (other : s ≠ source ∨ e ≠ eventId) :
    (c.storeReceive source eventId event).findReceive s e = c.findReceive s e := by
  simp only [Component.storeReceive,Component.findReceive]
  by_cases same : s = source
  · subst same
    have key : e ≠ eventId := other.resolve_left (fun h => h rfl)
    rw [AList.lookup_insert,Option.bind_some,AList.lookup_insert_ne key]
    cases c.receiveList.lookup s <;> simp
  · rw [AList.lookup_insert_ne same]

@[simp] theorem findReceiveOpen (c : Component) (source s e) :
    (c.openReceive source).findReceive s e = c.findReceive s e := by
  simp only [Component.openReceive,Component.findReceive]
  by_cases same : s = source
  · subst same
    rw [AList.lookup_insert]
    cases c.receiveList.lookup s <;> simp
  · rw [AList.lookup_insert_ne same]

@[simp] theorem findReceiveTakeQuota (c : Component) (source target s e) :
    (c.takeQuota source target).findReceive s e = c.findReceive s e := by
  rw [Component.takeQuota]
  split <;> rfl

@[simp] theorem findReceiveReturnQuota (c : Component) (source s e) :
    (c.returnQuota source).findReceive s e = c.findReceive s e := by
  rw [Component.returnQuota]
  split <;> rfl

theorem targetsReturnQuotaOther {source id : Int} (other : id ≠ source) :
    (c.returnQuota source).targets.lookup id = c.targets.lookup id := by
  rw [Component.returnQuota]
  split
  · exact Table.lookupAdjustOther other _ _
  · rfl

theorem targetsTakeQuotaOther {source id : Int} {target} (other : id ≠ source) :
    (c.takeQuota source target).targets.lookup id = c.targets.lookup id := by
  rw [Component.takeQuota]
  split
  · rfl
  · exact AList.lookup_insert_ne other

theorem registeredReturnQuota (c : Component) (source id : Int) :
    ((c.returnQuota source).targets.lookup id).isSome = (c.targets.lookup id).isSome := by
  rw [Component.returnQuota]
  split
  · simp [Table.adjust,Table.lookupMapValues]
  · rfl

theorem registeredTakeQuota {source : Int} {target} (registered : c.targets.lookup source = some target) (id : Int) :
    ((c.takeQuota source target).targets.lookup id).isSome = (c.targets.lookup id).isSome := by
  by_cases same : id = source
  · subst same
    rw [Component.takeQuota]
    split <;> simp [registered]
  · rw [targetsTakeQuotaOther same]

inductive Received (c : Component) (source : Int) (eventId packetIdx totalPackets : Nat)
    (bytes : List Byte) (now : Int) : Receipt → Prop where
  | refused (absent : c.findReceive source eventId = none)
      (full : ∀ target, c.targets.lookup source = some target → target.maxPendingEvents = 0#8) :
      Received c source eventId packetIdx totalPackets bytes now ⟨c.openReceive source,false,none⟩
  | foreign {event} (found : c.findReceive source eventId = some event)
      (other : event.source ≠ source) :
      Received c source eventId packetIdx totalPackets bytes now
        ⟨(c.openReceive source).storeReceive source eventId event,false,none⟩
  | repeated {event} (found : c.findReceive source eventId = some event)
      (own : event.source = source) (again : event.settled packetIdx = true) :
      Received c source eventId packetIdx totalPackets bytes now
        ⟨(c.openReceive source).storeReceive source eventId { event with timeLastAck := now },true,none⟩
  | continued {event} (found : c.findReceive source eventId = some event)
      (own : event.source = source) (missing : event.settled packetIdx = false) :
      Received c source eventId packetIdx totalPackets bytes now
        ((c.openReceive source).keepFragment source eventId event packetIdx bytes now)
  | started {target} (absent : c.findReceive source eventId = none)
      (registered : c.targets.lookup source = some target) (room : target.maxPendingEvents ≠ 0#8) :
      Received c source eventId packetIdx totalPackets bytes now
        (((c.openReceive source).takeQuota source target).keepFragment source eventId
          (newReceiveEvent source totalPackets) packetIdx bytes now)

@[simp] theorem settledNew (source : Int) (totalPackets packetIdx : Nat) :
    (newReceiveEvent source totalPackets).settled packetIdx = false := by
  simp only [ReceiveEvent.settled,newReceiveEvent,Bool.false_or,List.getD_eq_getElem?_getD]
  by_cases inside : packetIdx < totalPackets <;> simp [inside]

theorem receiveFragmentCases (c : Component) (source eventId packetIdx totalPackets bytes now) :
    Received c source eventId packetIdx totalPackets bytes now
      (c.receiveFragment source eventId packetIdx totalPackets bytes now) := by
  simp only [Component.receiveFragment,findReceiveOpen]
  cases found : c.findReceive source eventId with
  | some event =>
    simp only [Component.acceptFragment]
    split
    · rename_i again
      exact .repeated found again.1 again.2
    · rename_i fresh
      split
      · rename_i own
        exact .continued found own (by simpa [own] using fresh)
      · rename_i other
        exact .foreign found other
  | none =>
    have same : (c.openReceive source).targets = c.targets := rfl
    rw [same]
    cases registered : c.targets.lookup source with
    | none => exact .refused found (by simp [registered])
    | some target =>
      dsimp only
      split
      · rename_i full
        exact .refused found (by simpa [registered] using full)
      · rename_i room
        simp only [Component.acceptFragment,settledNew,Bool.false_eq_true,and_false,if_false]
        rw [if_pos (show (newReceiveEvent source totalPackets).source = source from rfl)]
        exact .started found registered room

structure Fragment where
  eventId : Nat
  packetIdx : Nat
  totalPackets : Nat
  bytes : List Byte
  v2 : Bool
  deriving DecidableEq, Repr

def EventPacket.fragment (packet : EventPacket) : Option Fragment :=
  if packet.totalPackets = 0 ∨ packet.isAck then none
  else some ⟨packet.eventId,packet.packetIdx,packet.totalPackets,packet.payload.take packet.thisBytes,false⟩

def ReassembledEventV2.fragment (packet : ReassembledEventV2) : Option Fragment :=
  if packet.totalPackets = 0 ∨ packet.isAck then none
  else some ⟨packet.eventId,packet.packetIdx,packet.totalPackets,packet.data,true⟩

def Op.fragment : Op → Option (Arrival × Fragment)
  | .handlePacket arrival data =>
      ((EventPacket.parse arrival.payload (.ofData data)).bind EventPacket.fragment).map
        (arrival,·)
  | .handlePacketV2 arrival packet => packet.fragment.map (arrival,·)
  | _ => none

def Fragment.fragmentSize (fragment : Fragment) : Nat :=
  if fragment.v2 then ReassembledEventV2.kFragmentSize else ReassembledEvent.kFragmentSize

def Component.receive (c : Component) (arrival : Arrival) (fragment : Fragment) : Receipt :=
  c.receiveFragment arrival.source fragment.eventId fragment.packetIdx fragment.totalPackets
    fragment.bytes arrival.now

def Fragment.ack (fragment : Fragment) (arrival : Arrival) : Output :=
  if fragment.v2 then
    .sendPacketV2 arrival.source ⟨fragment.eventId,fragment.packetIdx,fragment.totalPackets,[]⟩
  else
    .sendPacket arrival.source
      (EventPacket.datagram ⟨fragment.eventId,fragment.packetIdx,fragment.totalPackets,0,[]⟩ arrival.buf)

theorem datagramAck (packet : EventPacket) (buf : List Byte) :
    ({ packet with thisBytes := 0 } : EventPacket).datagram buf =
      EventPacket.datagram ⟨packet.eventId,packet.packetIdx,packet.totalPackets,0,[]⟩ buf := by
  simp [EventPacket.datagram,EventPacket.unparse,EventPacket.unparseHeader]

theorem applyFragment {op : Op} {arrival fragment} (delivers : op.fragment = some (arrival,fragment)) :
    c.apply op = Component.finishReceipt arrival fragment.eventId fragment.fragmentSize fragment.v2
      (fragment.ack arrival) (c.receive arrival fragment) := by
  cases op with
  | handlePacket a data =>
    simp only [Op.fragment,Option.map_eq_some_iff,Option.bind_eq_some_iff] at delivers
    obtain ⟨f,⟨packet,parsed,made⟩,same⟩ := delivers
    cases same
    rw [EventPacket.fragment] at made
    split at made <;> try contradiction
    rename_i usable
    obtain ⟨total,ack⟩ := not_or.mp usable
    cases made
    simp only [Component.apply,Component.handlePacket,parsed,total,if_false,ack,Bool.false_eq_true]
    rw [datagramAck]
    rfl
  | handlePacketV2 a packet =>
    simp only [Op.fragment,Option.map_eq_some_iff] at delivers
    obtain ⟨f,made,same⟩ := delivers
    cases same
    rw [ReassembledEventV2.fragment] at made
    split at made <;> try contradiction
    rename_i usable
    obtain ⟨total,ack⟩ := not_or.mp usable
    cases made
    simp only [Component.apply,Component.handlePacketV2,total,if_false,ack,Bool.false_eq_true]
    rfl
  | _ => simp [Op.fragment] at delivers

theorem receiveCases (c : Component) (arrival : Arrival) (fragment : Fragment) :
    Received c arrival.source fragment.eventId fragment.packetIdx fragment.totalPackets
      fragment.bytes arrival.now (c.receive arrival fragment) :=
  receiveFragmentCases _ _ _ _ _ _ _

theorem stepFragment {op : Op} {arrival fragment} (delivers : op.fragment = some (arrival,fragment)) :
    c.step op = (Component.finishReceipt arrival fragment.eventId fragment.fragmentSize fragment.v2
      (fragment.ack arrival) (c.receive arrival fragment)).1 := by
  rw [Component.step,applyFragment delivers]

theorem acceptCompleted (event : ReceiveEvent) (packetIdx bytes now) :
    (event.accept packetIdx bytes now).completed =
      (event.completed || (event.accept packetIdx bytes now).hasAll) := rfl

theorem keepFragmentCompleted {source eventId event packetIdx bytes now done}
    (completes : (c.keepFragment source eventId event packetIdx bytes now).completed = some done) :
    done = event.accept packetIdx bytes now ∧ done.hasAll = true ∧
      (c.keepFragment source eventId event packetIdx bytes now).component.findReceive source eventId = some done := by
  simp only [Component.keepFragment] at completes ⊢
  split at completes
  · rename_i all
    cases completes
    exact ⟨rfl,all,by simp [all]⟩
  · contradiction

theorem receiveCompleted {arrival fragment done}
    (completes : (c.receive arrival fragment).completed = some done) : done.completed = true ∧
      (c.receive arrival fragment).component.findReceive arrival.source fragment.eventId = some done := by
  have cases := receiveCases c arrival fragment
  generalize c.receive arrival fragment = receipt at *
  cases cases with
  | continued found own missing =>
    obtain ⟨same,all,stored⟩ := keepFragmentCompleted completes
    refine ⟨?_,stored⟩
    rw [same] at all ⊢
    rw [acceptCompleted,all,Bool.or_true]
  | started absent registered room =>
    obtain ⟨same,all,stored⟩ := keepFragmentCompleted completes
    refine ⟨?_,stored⟩
    rw [same] at all ⊢
    rw [acceptCompleted,all,Bool.or_true]
  | _ => contradiction

theorem finishReceiptTargets (arrival eventId fragmentSize v2 ack receipt) :
    (Component.finishReceipt arrival eventId fragmentSize v2 ack receipt).1.targets = receipt.component.targets := by
  simp only [Component.finishReceipt]
  split
  · rfl
  · simp only [Component.handleReceivedPacket]
    split
    · rfl
    · split <;> rfl

theorem finishReceiptReceiveList (arrival eventId fragmentSize v2 ack receipt) :
    (Component.finishReceipt arrival eventId fragmentSize v2 ack receipt).1.receiveList =
      match receipt.completed with
      | none => receipt.component.receiveList
      | some event => (receipt.component.storeReceive arrival.source eventId
          { event with packetData := event.packetData.map (fun packet => (packet.1,[])) }).receiveList := by
  simp only [Component.finishReceipt]
  cases receipt.completed with
  | none => rfl
  | some event =>
    simp only [Component.handleReceivedPacket]
    split
    · rfl
    · split <;> rfl

theorem targetsKeep (c : Component) (source eventId event packetIdx bytes now) :
    (c.keepFragment source eventId event packetIdx bytes now).component.targets =
      if (event.accept packetIdx bytes now).hasAll then (c.returnQuota source).targets
      else c.targets := by
  rw [Component.keepFragment]
  split
  · simp only [Component.returnQuota]
    split <;> rfl
  · rfl

theorem registeredReceive (c : Component) (arrival : Arrival) (fragment : Fragment) (id : Int) :
    ((c.receive arrival fragment).component.targets.lookup id).isSome = (c.targets.lookup id).isSome := by
  have cases := receiveCases c arrival fragment
  generalize c.receive arrival fragment = receipt at *
  cases cases with
  | continued found own missing =>
    rw [targetsKeep]
    split
    · exact registeredReturnQuota _ _ _
    · rfl
  | started absent registered room =>
    have taken := registeredTakeQuota (show (c.openReceive arrival.source).targets.lookup _ = _ from
      registered) id
    rw [targetsKeep]
    split
    · exact (registeredReturnQuota _ _ _).trans taken
    · exact taken
  | _ => rfl

theorem applyQuiet {op : Op} (none : op.fragment = none)
    (noTarget : ∀ id quota, op ≠ .registerTarget id quota ∧ op ≠ .unregisterTarget id)
    (noTick : ∀ clock, op ≠ .networkTick clock) :
    (c.step op).receiveList = c.receiveList ∧ (c.step op).targets = c.targets ∧
      (c.step op).eventName = c.eventName ∧ (c.apply op).2 = [] := by
  cases op with
  | registerTarget id quota => exact absurd rfl (noTarget id quota).1
  | unregisterTarget id => exact absurd rfl (noTarget id 0).2
  | networkTick clock => exact absurd rfl (noTick clock)
  | triggerEvent target name payload rate =>
    simp only [Component.step,Component.apply,Component.triggerEvent]
    split
    · simp
    · split <;> simp
  | triggerEventV2 target name payload rate =>
    simp only [Component.step,Component.apply,Component.triggerEventV2]
    split
    · simp
    · split <;> simp
  | handlePacket arrival data =>
    simp only [Op.fragment,Option.map_eq_none_iff,Option.bind_eq_none_iff] at none
    simp only [Component.step,Component.apply,Component.handlePacket]
    cases parsed : EventPacket.parse arrival.payload (.ofData data) with
    | none => simp
    | some packet =>
      have useless := none packet parsed
      simp only [EventPacket.fragment,ite_eq_left_iff,reduceCtorEq,imp_false,not_not] at useless
      rcases useless with total | ack
      · simp [total]
      · simp only [ack,if_true]
        split <;> simp
  | handlePacketV2 arrival packet =>
    simp only [Op.fragment,Option.map_eq_none_iff] at none
    simp only [ReassembledEventV2.fragment,ite_eq_left_iff,reduceCtorEq,imp_false,not_not] at none
    simp only [Component.step,Component.apply,Component.handlePacketV2]
    rcases none with total | ack
    · simp [total]
    · simp only [ack,if_true]
      split <;> simp

def Component.aside (c : Component) : Table Nat SendEvent × Table Nat SendEvent × Nat × List Byte :=
  (c.sendList,c.sendListV2,c.eventId,c.eventName)

theorem asideReturnQuota (c : Component) (source) : (c.returnQuota source).aside = c.aside := by
  rw [Component.returnQuota]
  split <;> rfl

theorem asideTakeQuota (c : Component) (source target) : (c.takeQuota source target).aside = c.aside := by
  rw [Component.takeQuota]
  split <;> rfl

theorem asideKeep (c : Component) (source eventId event packetIdx bytes now) :
    (c.keepFragment source eventId event packetIdx bytes now).component.aside = c.aside := by
  rw [Component.keepFragment]
  split
  · exact asideReturnQuota _ _
  · rfl

theorem asideReceive (c : Component) (arrival : Arrival) (fragment : Fragment) :
    (c.receive arrival fragment).component.aside = c.aside := by
  have cases := receiveCases c arrival fragment
  generalize c.receive arrival fragment = receipt at *
  cases cases with
  | continued found own missing => exact asideKeep _ _ _ _ _ _ _
  | started absent registered room => exact (asideKeep _ _ _ _ _ _ _).trans (asideTakeQuota _ _ _)
  | _ => rfl

theorem finishReceiptSending (arrival eventId fragmentSize v2 ack) (receipt : Receipt) :
    let c := (Component.finishReceipt arrival eventId fragmentSize v2 ack receipt).1
    (c.sendList,c.sendListV2,c.eventId) =
      (receipt.component.sendList,receipt.component.sendListV2,receipt.component.eventId) := by
  simp only [Component.finishReceipt]
  split
  · rfl
  · simp only [Component.handleReceivedPacket]
    split
    · rfl
    · split <;> rfl

section
variable {c : Component} {arrival fragment}

theorem sendingFragment {op : Op} (delivers : op.fragment = some (arrival,fragment)) :
    ((c.step op).sendList,(c.step op).sendListV2,(c.step op).eventId) = (c.sendList,c.sendListV2,c.eventId) := by
  have aside := asideReceive c arrival fragment
  simp only [Component.aside,Prod.mk.injEq] at aside
  rw [stepFragment delivers]
  refine (finishReceiptSending _ _ _ _ _ _).trans ?_
  rw [aside.1,aside.2.1,aside.2.2.1]

theorem findReceiveUndelivered {op : Op} (none : op.fragment = none) {source eventId event}
    (found : (c.step op).findReceive source eventId = some event) : c.findReceive source eventId = some event := by
  cases op with
  | registerTarget id quota => exact found
  | unregisterTarget id =>
    simp only [Component.step,Component.apply,Component.unregisterTarget] at found
    split at found
    · by_cases same : source = id
      · subst same
        simp [Component.findReceive] at found
      · simpa [Component.findReceive,AList.lookup_erase_ne same] using found
    · exact found
  | networkTick clock =>
    simp only [Component.step,Component.apply,Component.networkTick,Component.findReceive] at found ⊢
    split at found
    · obtain ⟨kept,list,entry⟩ := Option.bind_eq_some_iff.mp found
      rw [cleanupReceiveList,Table.lookupMapValues,Option.map_eq_some_iff] at list
      obtain ⟨events,before,rfl⟩ := list
      rw [Table.lookupKeep,Option.filter_eq_some_iff] at entry
      rw [before]
      exact entry.1
    · exact found
  | _ =>
    have quiet := @applyQuiet c _ none (by simp) (by simp)
    rw [Component.findReceive,quiet.1] at found
    exact found

theorem eventNameUndelivered {op : Op} (none : op.fragment = none) : (c.step op).eventName = c.eventName := by
  cases op with
  | unregisterTarget id =>
    simp only [Component.step,Component.apply,Component.unregisterTarget]
    split <;> rfl
  | registerTarget id quota => rfl
  | networkTick clock => rfl
  | _ => exact (@applyQuiet c _ none (by simp) (by simp)).2.2.1

theorem receiveOther {source : Int} {eventId : Nat} (other : source ≠ arrival.source ∨ eventId ≠ fragment.eventId) :
    (c.receive arrival fragment).component.findReceive source eventId = c.findReceive source eventId := by
  have keep : ∀ (c' : Component) (event : ReceiveEvent),
      (c'.keepFragment arrival.source fragment.eventId event fragment.packetIdx fragment.bytes
        arrival.now).component.findReceive source eventId = c'.findReceive source eventId := by
    intro c' event
    rw [Component.keepFragment]
    split
    · rw [findReceiveReturnQuota,findReceiveStoreOther other]
    · exact findReceiveStoreOther other
  have cases := receiveCases c arrival fragment
  generalize c.receive arrival fragment = receipt at *
  cases cases with
  | refused absent full => exact findReceiveOpen _ _ _ _
  | foreign found own => rw [findReceiveStoreOther other,findReceiveOpen]
  | repeated found own again => rw [findReceiveStoreOther other,findReceiveOpen]
  | continued found own missing => rw [keep,findReceiveOpen]
  | started absent registered room => rw [keep,findReceiveTakeQuota,findReceiveOpen]

theorem finishFindReceive (source : Int) (eventId : Nat) :
    (Component.finishReceipt arrival fragment.eventId fragment.fragmentSize fragment.v2
        (fragment.ack arrival) (c.receive arrival fragment)).1.findReceive source eventId =
      if source = arrival.source ∧ eventId = fragment.eventId then
        match (c.receive arrival fragment).completed with
        | none => (c.receive arrival fragment).component.findReceive source eventId
        | some event => some
            { event with packetData := event.packetData.map (fun packet => (packet.1,[])) }
      else (c.receive arrival fragment).component.findReceive source eventId := by
  rw [Component.findReceive,finishReceiptReceiveList]
  cases (c.receive arrival fragment).completed with
  | none => exact (ite_self _).symm
  | some event =>
    by_cases own : source = arrival.source ∧ eventId = fragment.eventId
    · obtain ⟨rfl,rfl⟩ := own
      rw [if_pos ⟨rfl,rfl⟩]
      exact findReceiveStore _ _ _ _
    · rw [if_neg own]
      refine findReceiveStoreOther ?_
      by_cases same : source = arrival.source
      · exact .inr (fun key => own ⟨same,key⟩)
      · exact .inl same

end

end Citizen.Resources
