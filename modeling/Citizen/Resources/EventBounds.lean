import Citizen.Resources.EventAssembly

/-! The memory of a reassembly. Index, size, protocol version and name length come from
the sender and the receiver checks none of them against the buffer it builds. -/
namespace Citizen.Resources
open BitField (Byte byteAt bitAt Field)

def Op.Typed : Op → Prop
  | .handlePacket arrival data => data.length ≤ 1088 ∧ arrival.payload.length = 1023
  | .handlePacketV2 _ packet =>
      packet.totalPackets < 2 ^ 16 ∧ packet.data.length ≤ ReassembledEventV2.kFragmentSize
  | _ => True

def Op.Carries (op : Op) (source : Int) (eventId packetIdx : Nat) (bytes : List Byte) : Prop :=
  ∃ arrival fragment, op.fragment = some (arrival,fragment) ∧ arrival.source = source ∧
    fragment.eventId = eventId ∧ fragment.packetIdx = packetIdx ∧
    match op with
    | .handlePacket _ data => 108 + 8 * bytes.length ≤ 8 * data.length ∧
        ∀ i < 8 * bytes.length, bitAt bytes i = bitAt data (108 + i)
    | .handlePacketV2 _ packet => bytes = packet.data
    | _ => False

structure Trace where
  component : Component
  version : Int → Nat → Bool
  history : List Op

def Trace.init (now : Int) : Trace := ⟨.init now,fun _ _ => false,[]⟩

def Trace.versionOf (t : Trace) (source : Int) (fragment : Fragment) : Bool :=
  if (t.component.findReceive source fragment.eventId).isSome then t.version source fragment.eventId
  else fragment.v2

def Trace.step (t : Trace) (op : Op) : Trace where
  component := t.component.step op
  version := match op.fragment with
    | none => t.version
    | some (arrival,fragment) => Function.update t.version arrival.source
        (Function.update (t.version arrival.source) fragment.eventId
          (t.versionOf arrival.source fragment))
  history := t.history ++ [op]

def Component.joins (c : Component) (arrival : Arrival) (fragment : Fragment) : Option ReceiveEvent :=
  match c.findReceive arrival.source fragment.eventId with
  | some event => if event.settled fragment.packetIdx then none else some event
  | none => match c.targets.lookup arrival.source with
    | none => none
    | some target =>
        if target.maxPendingEvents = 0#8 then none
        else some (newReceiveEvent arrival.source fragment.totalPackets)

def message (packetData : List (Nat × List Byte)) : List Byte := packetData.flatMap Prod.snd

/-- What is kept of a fragment lies in its event, and a completed event holds a name of the length that it announces. -/
structure WellFormed (t : Trace) (op : Op) (arrival : Arrival) (fragment : Fragment)
    (event : ReceiveEvent) : Prop where
  index : fragment.packetIdx < event.ackedBits.length
  size : fragment.packetIdx + 1 < event.ackedBits.length →
    fragment.bytes.length = fragment.fragmentSize
  present : ∀ data, op = .handlePacket arrival data → 108 + 8 * fragment.bytes.length ≤ 8 * data.length
  version : t.versionOf arrival.source fragment = fragment.v2
  name : (event.ackedBits.set fragment.packetIdx true).all id →
    let whole := message (insertFragment fragment.packetIdx fragment.bytes event.packetData)
    1 ≤ announcedLength fragment.v2 whole ∧ 2 + announcedLength fragment.v2 whole ≤ whole.length

def StepWellFormed (t : Trace) (op : Op) : Prop :=
  op.Typed ∧ ∀ arrival fragment event, op.fragment = some (arrival,fragment) →
    t.component.joins arrival fragment = some event → WellFormed t op arrival fragment event

structure Sliced (v2 : Bool) (parsed : ParsedEvent) (received : List Byte) : Prop where
  positive : 1 ≤ parsed.nameLength
  inside : 2 + parsed.nameLength ≤ received.length
  name : parsed.name =
    some ((received.drop 2).take (if v2 then parsed.nameLength else parsed.nameLength - 1))
  data : parsed.data = some (received.drop (2 + parsed.nameLength))

structure InBounds (history : List Op) (arrival : Arrival) (fragment : Fragment)
    (eventName : List Byte) (event : ReceiveEvent) : Prop where
  copies : ∀ copy ∈ event.copies fragment.fragmentSize,
    copy.1 + copy.2.length ≤ event.bufferSize fragment.fragmentSize
  read : event.readSize ≤ event.bufferSize fragment.fragmentSize
  received : ∃ parts : Nat → List Byte,
    event.view fragment.fragmentSize = joined parts event.ackedBits.length ∧
    ∀ i < event.ackedBits.length, ∃ op ∈ history,
      op.Carries arrival.source fragment.eventId i (parts i)
  sliced : Sliced fragment.v2
    (if fragment.v2 then parseEventV2 arrival.nameLength eventName (event.view fragment.fragmentSize)
      else parseEvent eventName (event.view fragment.fragmentSize))
    (event.view fragment.fragmentSize)

def StepInBounds (t : Trace) (op : Op) : Prop :=
  ∀ arrival fragment event, op.fragment = some (arrival,fragment) →
    (t.component.receive arrival fragment).completed = some event →
      InBounds (t.history ++ [op]) arrival fragment t.component.eventName event

structure Holding (history : List Op) (source : Int) (eventId : Nat) (v2 : Bool)
    (event : ReceiveEvent) : Prop where
  own : event.source = source
  offsets : event.ackedBits.length ≤ if v2 then 2 ^ 16 else 2 ^ 17
  held : event.completed = true ∨ ∃ parts, event.packetData = heldFragments event.ackedBits parts ∧
    ∀ i < event.ackedBits.length, event.ackedBits.getD i false = true →
      (∃ op ∈ history, op.Carries source eventId i (parts i)) ∧
      (parts i).length ≤ Fragment.fragmentSize ⟨eventId,i,0,[],v2⟩ ∧
      (i + 1 < event.ackedBits.length → (parts i).length = Fragment.fragmentSize ⟨eventId,i,0,[],v2⟩)

structure Trace.Sound (t : Trace) : Prop where
  static : t.component.eventName.length = 65536
  holding : ∀ source eventId event, t.component.findReceive source eventId = some event →
    Holding t.history source eventId (t.version source eventId) event

theorem fragmentTyped {op : Op} {arrival fragment} (typed : op.Typed)
    (delivers : op.fragment = some (arrival,fragment)) :
    fragment.bytes.length ≤ fragment.fragmentSize ∧
      fragment.totalPackets ≤ (if fragment.v2 then 2 ^ 16 else 2 ^ 17) ∧
      ((∀ data, op = .handlePacket arrival data →
          108 + 8 * fragment.bytes.length ≤ 8 * data.length) →
        op.Carries arrival.source fragment.eventId fragment.packetIdx fragment.bytes) := by
  have whole := delivers
  cases op with
  | handlePacket a data =>
    simp only [Op.fragment,Option.map_eq_some_iff,Option.bind_eq_some_iff] at delivers
    obtain ⟨f,⟨packet,parsed,made⟩,same⟩ := delivers
    cases same
    rw [EventPacket.fragment] at made
    split at made <;> try contradiction
    cases made
    have source := parsedFrom (show data.length < 2 ^ 28 by have := typed.1; omega) typed.2 parsed
    have bytes := source.thisBytes
    have length : (packet.payload.take packet.thisBytes).length = packet.thisBytes := by
      rw [List.length_take,source.length,typed.2]
      omega
    refine ⟨?_,Nat.le_of_lt source.totalPackets,?_⟩
    · rw [length]
      exact Nat.le_of_lt_succ bytes
    · intro present
      have room := present data rfl
      refine ⟨_,_,whole,rfl,rfl,rfl,room,?_⟩
      rw [length] at room ⊢
      intro i hi
      rw [BitField.bitAtTake _ _ hi]
      exact source.payload room i hi
  | handlePacketV2 a packet =>
    simp only [Op.fragment,Option.map_eq_some_iff] at delivers
    obtain ⟨f,made,same⟩ := delivers
    cases same
    rw [ReassembledEventV2.fragment] at made
    split at made <;> try contradiction
    cases made
    exact ⟨typed.2,Nat.le_of_lt typed.1,fun _ => ⟨_,_,whole,rfl,rfl,rfl,rfl⟩⟩
  | _ => simp [Op.fragment] at delivers

theorem Holding.later {history source eventId v2 event} (holding : Holding history source eventId v2 event)
    (op : Op) : Holding (history ++ [op]) source eventId v2 event where
  own := holding.own
  offsets := holding.offsets
  held := holding.held.imp id (fun ⟨parts,held,each⟩ => ⟨parts,held,fun i inside set => by
    obtain ⟨⟨carrier,mem,carries⟩,sizes⟩ := each i inside set
    exact ⟨⟨carrier,List.mem_append_left _ mem,carries⟩,sizes⟩⟩)

theorem holdingNew (history : List Op) (source : Int) (eventId : Nat) {totalPackets : Nat} {v2 : Bool}
    (offsets : totalPackets ≤ if v2 then 2 ^ 16 else 2 ^ 17) :
    Holding history source eventId v2 (newReceiveEvent source totalPackets) where
  own := rfl
  offsets := by simpa [newReceiveEvent] using offsets
  held := .inr ⟨fun _ => [],(heldNone _ _).symm,fun i _ set => by
    simp [newReceiveEvent,List.getD_eq_getElem?_getD,List.getElem?_replicate] at set
    split at set <;> contradiction⟩

section
variable {history : List Op} {op : Op} {arrival fragment} {event : ReceiveEvent}

theorem holdingAccept {t : Trace} (typed : op.Typed) (delivers : op.fragment = some (arrival,fragment))
    (holding : Holding history arrival.source fragment.eventId fragment.v2 event)
    (missing : event.settled fragment.packetIdx = false) (formed : WellFormed t op arrival fragment event) :
    Holding (history ++ [op]) arrival.source fragment.eventId fragment.v2
        (event.accept fragment.packetIdx fragment.bytes arrival.now) ∧
      ((event.accept fragment.packetIdx fragment.bytes arrival.now).hasAll = true →
        ∃ parts, Assembled fragment.fragmentSize parts (event.accept fragment.packetIdx fragment.bytes arrival.now) ∧
          ∀ i < event.ackedBits.length, ∃ carrier ∈ history ++ [op],
            carrier.Carries arrival.source fragment.eventId i (parts i)) := by
  obtain ⟨fits,-,carried⟩ := fragmentTyped typed delivers
  obtain ⟨fresh,unset⟩ := Bool.or_eq_false_iff.mp missing
  have size : ∀ i, Fragment.fragmentSize ⟨fragment.eventId,i,0,[],fragment.v2⟩ = fragment.fragmentSize :=
    fun _ => rfl
  obtain ⟨parts,held,each⟩ := holding.held.resolve_left (by simp [fresh])
  have length : (event.accept fragment.packetIdx fragment.bytes arrival.now).ackedBits.length =
      event.ackedBits.length := List.length_set
  have stored : (event.accept fragment.packetIdx fragment.bytes arrival.now).packetData =
      heldFragments (event.accept fragment.packetIdx fragment.bytes arrival.now).ackedBits
        (Function.update parts fragment.packetIdx fragment.bytes) := by
    simp only [ReceiveEvent.accept,held]
    exact insertHeld formed.index unset parts fragment.bytes
  have good : ∀ i < event.ackedBits.length,
      (event.accept fragment.packetIdx fragment.bytes arrival.now).ackedBits.getD i false = true →
      (∃ carrier ∈ history ++ [op], carrier.Carries arrival.source fragment.eventId i
          (Function.update parts fragment.packetIdx fragment.bytes i)) ∧
        (Function.update parts fragment.packetIdx fragment.bytes i).length ≤ fragment.fragmentSize ∧
        (i + 1 < event.ackedBits.length →
          (Function.update parts fragment.packetIdx fragment.bytes i).length = fragment.fragmentSize) := by
    intro i inside set
    by_cases same : i = fragment.packetIdx
    · subst same
      rw [Function.update_self]
      exact ⟨⟨op,List.mem_append_right _ (List.mem_singleton.mpr rfl),carried formed.present⟩,fits,
        formed.size⟩
    · rw [Function.update_of_ne same]
      have before : event.ackedBits.getD i false = true := by
        simpa [ReceiveEvent.accept,List.getD_eq_getElem?_getD,Ne.symm same] using set
      obtain ⟨⟨carrier,mem,carries⟩,sizes⟩ := each i inside before
      exact ⟨⟨carrier,List.mem_append_left _ mem,carries⟩,sizes⟩
  refine ⟨⟨holding.own,by rw [length]; exact holding.offsets,.inr ⟨_,stored,?_⟩⟩,?_⟩
  · rw [length]
    exact good
  · intro all
    have every : ∀ i < event.ackedBits.length,
        (event.accept fragment.packetIdx fragment.bytes arrival.now).ackedBits.getD i false = true := by
      intro i inside
      rw [← length] at inside
      have bit := List.all_eq_true.mp all _ (List.getElem_mem inside)
      simpa [List.getD_eq_getElem?_getD,inside] using bit
    refine ⟨Function.update parts fragment.packetIdx fragment.bytes,⟨all,stored,⟨?_,?_⟩,?_⟩,?_⟩
    · rw [length]
      exact fun i early => (good i (by omega) (every i (by omega))).2.2 early
    · rw [length]
      exact fun i inside => (good i inside (every i inside)).2.1
    · rw [length]
      have total := holding.offsets
      rw [Fragment.fragmentSize]
      cases v2 : fragment.v2 with
      | true =>
        simp only [v2,if_true] at total ⊢
        exact (Nat.mul_le_mul_right _ total).trans (by decide)
      | false =>
        simp only [v2,Bool.false_eq_true,if_false] at total ⊢
        exact (Nat.mul_le_mul_right _ total).trans (by decide)
    · exact fun i inside => (good i inside (every i inside)).1

theorem assembledInBounds {eventName : List Byte} {t : Trace} {parts : Nat → List Byte}
    (static : eventName.length = 65536) (formed : WellFormed t op arrival fragment event)
    (total : event.ackedBits.length ≤ if fragment.v2 then 2 ^ 16 else 2 ^ 17)
    (assembled : Assembled fragment.fragmentSize parts
      (event.accept fragment.packetIdx fragment.bytes arrival.now))
    (carried : ∀ i < event.ackedBits.length, ∃ carrier ∈ history,
      carrier.Carries arrival.source fragment.eventId i (parts i)) :
    InBounds history arrival fragment eventName
      (event.accept fragment.packetIdx fragment.bytes arrival.now) := by
  have length : (event.accept fragment.packetIdx fragment.bytes arrival.now).ackedBits.length =
      event.ackedBits.length := List.length_set
  have view := assembled.view
  have whole : message (insertFragment fragment.packetIdx fragment.bytes event.packetData) =
      joined parts event.ackedBits.length := by
    have data : insertFragment fragment.packetIdx fragment.bytes event.packetData = _ := assembled.packetData
    rw [message,data,joined,List.flatMap_map,length]
  have name := formed.name assembled.all
  simp only [whole] at name
  rw [length] at view
  obtain ⟨positive,inside⟩ := name
  have bound : (joined parts event.ackedBits.length).length < 2 ^ 28 := by
    have fits := joinedFits assembled.filled
    rw [length] at fits
    cases v2 : fragment.v2 with
    | true =>
      simp only [Fragment.fragmentSize,v2,if_true] at total fits
      have top := Nat.mul_le_mul_right ReassembledEventV2.kFragmentSize total
      rw [ReassembledEventV2.kFragmentSize] at *
      omega
    | false =>
      simp only [Fragment.fragmentSize,v2,Bool.false_eq_true,if_false] at total fits
      have top := Nat.mul_le_mul_right ReassembledEvent.kFragmentSize total
      rw [ReassembledEvent.kFragmentSize] at *
      omega
  refine ⟨assembled.copies,?_,⟨parts,?_,?_⟩,?_⟩
  · rw [assembled.readSize]
    exact joinedFits assembled.filled
  · rw [view,length]
  · rw [length]
    exact carried
  · rw [view]
    generalize joined parts event.ackedBits.length = received at *
    cases v2 : fragment.v2 with
    | true =>
      rw [v2] at positive inside
      obtain ⟨named,name,data⟩ := @parseEventV2Slices eventName received arrival.nameLength inside
      simp only [if_true]
      exact ⟨by rw [named]; exact positive,by rw [named]; exact inside,by rw [name,named]; rfl,
        by rw [data,named]⟩
    | false =>
      rw [v2] at positive inside
      obtain ⟨named,name,data⟩ := parseEventSlices static bound positive inside
      simp only [Bool.false_eq_true,if_false]
      exact ⟨by rw [named]; exact positive,by rw [named]; exact inside,by rw [name,named]; rfl,
        by rw [data,named]⟩

end

section
variable {t : Trace} {op : Op} {arrival fragment} (delivers : op.fragment = some (arrival,fragment))
include delivers

theorem versionOther {source eventId} (other : ¬ (source = arrival.source ∧ eventId = fragment.eventId)) :
    (t.step op).version source eventId = t.version source eventId := by
  simp only [Trace.step,delivers]
  by_cases same : source = arrival.source
  · subst same
    rw [Function.update_self,Function.update_of_ne (fun key => other ⟨rfl,key⟩)]
  · rw [Function.update_of_ne same]

theorem versionSelf : (t.step op).version arrival.source fragment.eventId = t.versionOf arrival.source fragment := by
  simp only [Trace.step,delivers]
  rw [Function.update_self,Function.update_self]

end

theorem soundReceive {t : Trace} (sound : t.Sound) {op : Op} {arrival fragment}
    (delivers : op.fragment = some (arrival,fragment)) (formed : StepWellFormed t op) :
    (∀ event, (t.component.receive arrival fragment).component.findReceive arrival.source
        fragment.eventId = some event → Holding (t.history ++ [op]) arrival.source fragment.eventId
        (t.versionOf arrival.source fragment) event) ∧ StepInBounds t op := by
  obtain ⟨typed,each⟩ := formed
  have total := (fragmentTyped typed delivers).2.1
  have only : ∀ {event}, (t.component.receive arrival fragment).completed = some event →
      InBounds (t.history ++ [op]) arrival fragment t.component.eventName event → StepInBounds t op := by
    intro event done bounds a f e same completes
    cases delivers.symm.trans same
    cases done.symm.trans completes
    exact bounds
  have nothing : (t.component.receive arrival fragment).completed = none → StepInBounds t op := by
    intro done a f e same completes
    cases delivers.symm.trans same
    rw [done] at completes
    contradiction
  have kept : ∀ {c : Component} {event : ReceiveEvent},
      t.component.receive arrival fragment =
        c.keepFragment arrival.source fragment.eventId event fragment.packetIdx fragment.bytes arrival.now →
      t.component.joins arrival fragment = some event → event.settled fragment.packetIdx = false →
      Holding t.history arrival.source fragment.eventId fragment.v2 event →
      (∀ stored, (t.component.receive arrival fragment).component.findReceive arrival.source
          fragment.eventId = some stored →
        Holding (t.history ++ [op]) arrival.source fragment.eventId
          (t.versionOf arrival.source fragment) stored) ∧ StepInBounds t op := by
    intro c event same joins missing holding
    have formed := each arrival fragment event delivers joins
    obtain ⟨after,whole⟩ := holdingAccept typed delivers holding missing formed
    constructor
    · intro stored found
      rw [same,Component.keepFragment] at found
      have accepted : stored = event.accept fragment.packetIdx fragment.bytes arrival.now := by
        split at found <;> simpa [eq_comm] using found
      rw [accepted,formed.version]
      exact after
    · by_cases all : (event.accept fragment.packetIdx fragment.bytes arrival.now).hasAll = true
      · obtain ⟨parts,assembled,carried⟩ := whole all
        refine only ?_ (assembledInBounds sound.static formed holding.offsets assembled carried)
        rw [same,Component.keepFragment,if_pos all]
      · refine nothing ?_
        rw [same,Component.keepFragment,if_neg all]
  have cases := receiveCases t.component arrival fragment
  generalize receiptEq : t.component.receive arrival fragment = receipt at *
  cases cases with
  | refused absent full =>
    refine ⟨fun event found => ?_,nothing rfl⟩
    rw [findReceiveOpen,absent] at found
    contradiction
  | foreign found other => exact absurd (sound.holding _ _ _ found).own other
  | @repeated event found own again =>
    refine ⟨fun stored same => ?_,nothing rfl⟩
    have before := (sound.holding _ _ _ found).later op
    rw [findReceiveStore] at same
    cases same
    rw [Trace.versionOf,found]
    exact ⟨before.own,before.offsets,before.held⟩
  | @continued event found own missing =>
    have joins : t.component.joins arrival fragment = some event := by
      simp [Component.joins,found,missing]
    have version := (each arrival fragment event delivers joins).version
    have holding := sound.holding _ _ _ found
    rw [Trace.versionOf,found] at version
    simp only [Option.isSome_some,if_true] at version
    rw [version] at holding
    exact kept rfl joins missing holding
  | @started target absent registered room =>
    have joins : t.component.joins arrival fragment =
        some (newReceiveEvent arrival.source fragment.totalPackets) := by
      simp [Component.joins,absent,registered,room]
    exact kept rfl joins (settledNew _ _ _) (holdingNew _ _ _ total)

theorem soundStep {t : Trace} (sound : t.Sound) (op : Op) (formed : StepWellFormed t op) :
    (t.step op).Sound ∧ StepInBounds t op := by
  cases delivers : op.fragment with
  | none =>
    refine ⟨⟨eventNameStep sound.static op,?_⟩,fun a f e same => by rw [delivers] at same; contradiction⟩
    intro source eventId event found
    have before := findReceiveUndelivered delivers found
    have version : (t.step op).version = t.version := by simp only [Trace.step,delivers]
    rw [version]
    exact (sound.holding source eventId event before).later op
  | some delivery =>
    obtain ⟨arrival,fragment⟩ := delivery
    obtain ⟨own,bounds⟩ := soundReceive sound delivers formed
    refine ⟨⟨eventNameStep sound.static op,?_⟩,bounds⟩
    intro source eventId event found
    change (t.component.step op).findReceive source eventId = some event at found
    rw [stepFragment delivers,finishFindReceive] at found
    by_cases key : source = arrival.source ∧ eventId = fragment.eventId
    · obtain ⟨rfl,rfl⟩ := key
      rw [if_pos ⟨rfl,rfl⟩] at found
      rw [versionSelf delivers]
      cases done : (t.component.receive arrival fragment).completed with
      | none =>
        rw [done] at found
        exact own event found
      | some whole =>
        rw [done] at found
        cases found
        obtain ⟨completed,stored⟩ := receiveCompleted done
        have before := own whole stored
        exact ⟨before.own,before.offsets,.inl completed⟩
    · rw [if_neg key] at found
      rw [versionOther delivers key]
      refine (sound.holding source eventId event ?_).later op
      have other : source ≠ arrival.source ∨ eventId ≠ fragment.eventId := by
        by_cases same : source = arrival.source
        · exact .inr (fun eq => key ⟨same,eq⟩)
        · exact .inl same
      rwa [receiveOther other] at found

theorem soundInit (now : Int) : (Trace.init now).Sound where
  static := List.length_replicate
  holding source eventId event found := by
    have empty : (Trace.init now).component.findReceive source eventId = none := rfl
    rw [empty] at found
    contradiction

theorem reassemblyInBounds (now : Int) (ops : List Op) (formed : Along Trace.step StepWellFormed (.init now) ops) :
    Along Trace.step StepInBounds (.init now) ops :=
  alongOfKept Trace.Sound (fun _ op sound formed => soundStep sound op formed) (soundInit now) formed

def arrivalV2 (source : Int) : Arrival := ⟨source,0,false,[],[],0⟩

def firstHalf : List Byte := [1,0,65] ++ List.replicate 2044 9

/-- An event of two fragments of which the second comes first and once more, and another source's event between them. -/
def interleaved : List Op :=
  [.registerTarget 1 0xFF#8,.registerTarget 2 5#8,.handlePacketV2 (arrivalV2 1) ⟨0,1,2,[7,8]⟩,
    .handlePacketV2 (arrivalV2 2) ⟨0,0,1,[1,0,66,3]⟩,.handlePacketV2 (arrivalV2 1) ⟨0,1,2,[7,8]⟩,
    .handlePacketV2 (arrivalV2 1) ⟨0,0,2,firstHalf⟩]

theorem reassemblyInBoundsInterleaved : Along Trace.step StepInBounds (.init 0) interleaved := by
  have plain {t : Trace} {op : Op} {arrival : Arrival} {fragment : Fragment} {event : Option ReceiveEvent} (typed : op.Typed)
      (delivers : op.fragment = some (arrival,fragment)) (joins : t.component.joins arrival fragment = event)
      (formed : ∀ e, event = some e → WellFormed t op arrival fragment e) : StepWellFormed t op := by
    refine ⟨typed,fun a f e delivers' joins' => ?_⟩
    cases delivers.symm.trans delivers'
    exact formed e (joins.symm.trans joins')
  refine reassemblyInBounds 0 interleaved ⟨⟨trivial,fun a f e delivers => by contradiction⟩,⟨trivial,fun a f e delivers => by contradiction⟩,
    @plain _ _ (arrivalV2 1) ⟨0,1,2,[7,8],true⟩ (some (newReceiveEvent 1 2)) ⟨by decide,by decide⟩ rfl rfl ?_,
    @plain _ _ (arrivalV2 2) ⟨0,0,1,[1,0,66,3],true⟩ (some (newReceiveEvent 2 1)) ⟨by decide,by decide⟩ rfl rfl ?_,
    @plain _ _ (arrivalV2 1) ⟨0,1,2,[7,8],true⟩ none ⟨by decide,by decide⟩ rfl (by decide +kernel) nofun,
    @plain _ _ (arrivalV2 1) ⟨0,0,2,firstHalf,true⟩ (some ⟨1,[false,true],false,0,[(1,[7,8])]⟩) ⟨by decide,by decide +kernel⟩ rfl
      (by decide +kernel) ?_,trivial⟩
  · rintro _ ⟨⟩
    exact ⟨by decide,fun more => by contradiction,nofun,rfl,fun all => by contradiction⟩
  · rintro _ ⟨⟩
    exact ⟨by decide,fun more => by contradiction,nofun,rfl,fun _ => by decide⟩
  · rintro _ ⟨⟩
    exact ⟨by decide,fun _ => by decide +kernel,nofun,by decide +kernel,fun _ => by decide +kernel⟩

theorem reassemblyOutOfBounds : ¬ Along Trace.step StepInBounds (.init 0)
      [.registerTarget 1 0xFF#8,.handlePacketV2 (arrivalV2 1) ⟨0,5,1,[1]⟩,
        .handlePacketV2 (arrivalV2 1) ⟨0,0,1,[1,0,65,7]⟩] := by
  intro along
  have bounds := along.2.2.1 (arrivalV2 1) ⟨0,0,1,[1,0,65,7],true⟩
    ⟨1,[true],true,0,[(0,[1,0,65,7]),(5,[1])]⟩ rfl rfl
  have copy := bounds.copies (5 * 2047,[1]) (by decide)
  exact absurd copy (by decide)

end Citizen.Resources
