import Citizen.Resources.EventAck

/-! The burst loop of a tick: it ends, and what it sends of an event to a target, it sends once and in order. -/
namespace Citizen.Resources

inductive Bursts (now : Int) (latency startBit : Nat) : Int → PerTargetData → TargetTick → Prop where
  | hasAll {resTime : Int} {data : PerTargetData}
      (late : firstUnset data.ackBits data.lastBit (data.ackBits.length - data.lastBit) = none)
      (early : firstUnset data.ackBits 0 data.lastBit = none) : Bursts now latency startBit resTime data ⟨none,true,[]⟩
  | forceBurstDelay {resTime : Int} {data : PerTargetData} {firstPacketIdx : Nat}
      (late : firstUnset data.ackBits data.lastBit (data.ackBits.length - data.lastBit) = none)
      (early : firstUnset data.ackBits 0 data.lastBit = some firstPacketIdx) :
      Bursts now latency startBit resTime data
        ⟨some { data with lastBit := firstPacketIdx,delayNextSend := now + 250 },false,[]⟩
  | cycled {resTime : Int} {data : PerTargetData} {packetIdx : Nat}
      (late : firstUnset data.ackBits data.lastBit (data.ackBits.length - data.lastBit) = some packetIdx)
      (around : (packetIdx + 1) % data.ackBits.length ≤ startBit) :
      Bursts now latency startBit resTime data
        ⟨some { data with lastBit := (packetIdx + 1) % data.ackBits.length,delayNextSend := now + 250 },false,[packetIdx]⟩
  | out {resTime left : Int} {data : PerTargetData} {packetIdx : Nat}
      (late : firstUnset data.ackBits data.lastBit (data.ackBits.length - data.lastBit) = some packetIdx)
      (ahead : startBit < (packetIdx + 1) % data.ackBits.length)
      (cut : (if (latency : Int) < resTime then resTime - latency else resTime) = left) (time : left ≤ latency) :
      Bursts now latency startBit resTime data
        ⟨some { data with lastBit := (packetIdx + 1) % data.ackBits.length },false,[packetIdx]⟩
  | round {resTime left : Int} {data : PerTargetData} {packetIdx : Nat} {rest : TargetTick}
      (late : firstUnset data.ackBits data.lastBit (data.ackBits.length - data.lastBit) = some packetIdx)
      (ahead : startBit < (packetIdx + 1) % data.ackBits.length)
      (cut : (if (latency : Int) < resTime then resTime - latency else resTime) = left) (time : latency < left)
      (next : Bursts now latency startBit left { data with lastBit := (packetIdx + 1) % data.ackBits.length } rest) :
      Bursts now latency startBit resTime data { rest with sent := packetIdx :: rest.sent }

section
variable {now : Int} {latency startBit : Nat} {resTime : Int} {data : PerTargetData} {ticked : TargetTick}

theorem nextBit {ackBits : List Bool} {start packetIdx : Nat}
    (late : firstUnset ackBits start (ackBits.length - start) = some packetIdx) :
    (packetIdx + 1) % ackBits.length = 0 ∨
      (packetIdx + 1) % ackBits.length = packetIdx + 1 ∧ start < packetIdx + 1 ∧ packetIdx + 1 < ackBits.length := by
  obtain ⟨low,high,-⟩ := firstUnsetSome late
  rcases Nat.lt_or_ge (packetIdx + 1) ackBits.length with inside | last
  · exact .inr ⟨Nat.mod_eq_of_lt inside,by omega,inside⟩
  · have whole : packetIdx + 1 = ackBits.length := by omega
    exact .inl (by rw [whole,Nat.mod_self])

theorem burstEnds (rounds : Nat) (enough : data.ackBits.length - data.lastBit < rounds) :
    Bursts now latency startBit resTime data (burst now latency startBit rounds resTime data) := by
  induction rounds generalizing resTime data with
  | zero => exact absurd enough (Nat.not_lt_zero _)
  | succ rounds ih =>
    rw [burst]
    split
    · exact .hasAll ‹_› ‹_›
    · exact .forceBurstDelay ‹_› ‹_›
    · rename_i packetIdx late
      dsimp only
      generalize cut : (if (latency : Int) < resTime then resTime - latency else resTime) = left
      split
      · exact .cycled late ‹_›
      rename_i ahead
      split
      · rename_i time
        refine .round late (Nat.not_le.mp ahead) cut time (ih ?_)
        rcases nextBit late with first | ⟨next,behind,inside⟩
        · exact absurd (first.trans_le (Nat.zero_le startBit)) ahead
        · change data.ackBits.length - (packetIdx + 1) % data.ackBits.length < rounds
          omega
      · exact .out late (Nat.not_le.mp ahead) cut (not_lt.mp ‹_›)

section
variable (bursts : Bursts now latency startBit resTime data ticked)
include bursts

theorem Bursts.ascending : ticked.sent.Pairwise (· < ·) ∧ ∀ packetIdx ∈ ticked.sent,
      data.lastBit ≤ packetIdx ∧ packetIdx < data.ackBits.length ∧ data.ackBits.getD packetIdx true = false := by
  have alone {data : PerTargetData} {packetIdx : Nat}
      (late : firstUnset data.ackBits data.lastBit (data.ackBits.length - data.lastBit) = some packetIdx) :
      data.lastBit ≤ packetIdx ∧ packetIdx < data.ackBits.length ∧ data.ackBits.getD packetIdx true = false := by
    obtain ⟨low,high,unset⟩ := firstUnsetSome late
    exact ⟨low,by omega,unset⟩
  induction bursts with
  | hasAll _ _ => exact ⟨.nil,nofun⟩
  | forceBurstDelay _ _ => exact ⟨.nil,nofun⟩
  | cycled late _ => exact ⟨List.pairwise_singleton _ _,fun p mem => List.mem_singleton.mp mem ▸ alone late⟩
  | out late _ _ _ => exact ⟨List.pairwise_singleton _ _,fun p mem => List.mem_singleton.mp mem ▸ alone late⟩
  | @round _ _ data packetIdx _ late ahead _ _ _ ih =>
    obtain ⟨sorted,inside⟩ := ih
    rcases nextBit late with first | ⟨next,behind,-⟩
    · exact absurd (first ▸ ahead) (Nat.not_lt_zero _)
    rw [next] at inside
    refine ⟨List.pairwise_cons.mpr ⟨fun p mem => (inside p mem).1,sorted⟩,fun p mem => ?_⟩
    rcases List.mem_cons.mp mem with rfl | later
    · exact alone late
    · obtain ⟨low,rest⟩ := inside p later
      exact ⟨Nat.le_of_lt (Nat.lt_of_lt_of_le behind low),rest⟩

theorem Bursts.first {packetIdx : Nat}
    (late : firstUnset data.ackBits data.lastBit (data.ackBits.length - data.lastBit) = some packetIdx) :
    ticked.sent.head? = some packetIdx := by
  cases bursts with
  | hasAll none _ => cases none.symm.trans late
  | forceBurstDelay none _ => cases none.symm.trans late
  | cycled found _ => exact found.symm.trans late
  | out found _ _ _ => exact found.symm.trans late
  | round found _ _ _ _ => exact found.symm.trans late

end

theorem firstUnsetEarliest {ackBits : List Bool} {start count packetIdx : Nat} (low : start ≤ packetIdx)
    (high : packetIdx < start + count) (unset : ackBits.getD packetIdx true = false)
    (before : ∀ i, start ≤ i → i < packetIdx → ackBits.getD i true = true) :
    firstUnset ackBits start count = some packetIdx := by
  cases found : firstUnset ackBits start count with
  | none => exact absurd (unset.symm.trans (firstUnsetNone found packetIdx low high)) (by decide)
  | some bit =>
    obtain ⟨first,-,open'⟩ := firstUnsetSome found
    rcases Nat.lt_trichotomy bit packetIdx with less | same | more
    · exact absurd (open'.symm.trans (before bit first less)) (by decide)
    · rw [same]
    · have none : ∀ start count, start ≤ packetIdx → firstUnset ackBits start count = some bit → False := by
        intro start count
        induction count generalizing start with
        | zero => exact fun _ found => by cases found
        | succ count ih =>
          intro low found
          rw [firstUnset] at found
          split at found
          · rename_i set
            rcases Nat.eq_or_lt_of_le low with rfl | later
            · exact absurd (unset.symm.trans set) (by decide)
            · exact ih (start + 1) later found
          · cases found
            exact absurd more (Nat.not_lt.mpr low)
      exact absurd found (none start count low)

end

structure PerTargetData.Earliest (data : PerTargetData) (packetIdx : Nat) : Prop where
  behind : data.lastBit ≤ packetIdx
  unset : data.ackBits.getD packetIdx true = false
  before : ∀ i, data.lastBit ≤ i → i < packetIdx → data.ackBits.getD i true = true

structure TargetSends (now dT : Int) (latency : Nat) (data : PerTargetData) (ticked : TargetTick) : Prop where
  ends : data.due now latency → ∃ burst, Bursts now latency data.lastBit dT data burst ∧
    ticked = { burst with data := burst.data.map (fun data => { data with lastSend := now }) }
  once : ticked.sent.Nodup
  unacked : ∀ packetIdx ∈ ticked.sent, packetIdx < data.ackBits.length ∧ data.ackBits.getD packetIdx true = false
  first : data.due now latency → ∀ packetIdx, data.Earliest packetIdx → ticked.sent.head? = some packetIdx
  resumes : data.due now latency → (∀ i, data.lastBit ≤ i → data.ackBits.getD i true = true) →
    ∀ packetIdx, { data with lastBit := 0 }.Earliest packetIdx → ticked.sent = [] ∧ ticked.done = false ∧
      ticked.data = some { data with lastBit := packetIdx,delayNextSend := now + 250,lastSend := now }
  waits : ¬ data.due now latency → ticked.sent = []

theorem targetSends (now dT : Int) (latency : Nat) (data : PerTargetData) :
    TargetSends now dT latency data (tickTarget now dT latency true (some data)) := by
  have entered (due : data.due now latency) : ∃ burst, Bursts now latency data.lastBit dT data burst ∧
      tickTarget now dT latency true (some data) =
        { burst with data := burst.data.map (fun data => { data with lastSend := now }) } := by
    refine ⟨burst now latency data.lastBit (data.ackBits.length + 1) dT data,burstEnds _ (by omega),?_⟩
    exact if_pos due
  have skipped (late : ¬ data.due now latency) : (tickTarget now dT latency true (some data)).sent = [] := by
    change (if data.due now latency then _ else _ : TargetTick).sent = []
    rw [if_neg late]
    split
    · rfl
    · rfl
  refine ⟨entered,?_,?_,fun due packetIdx earliest => ?_,fun due none packetIdx earliest => ?_,skipped⟩
  · by_cases due : data.due now latency
    · obtain ⟨burst,bursts,same⟩ := entered due
      rw [same]
      exact bursts.ascending.1.imp Nat.ne_of_lt
    · rw [skipped due]
      exact List.nodup_nil
  · intro packetIdx mem
    by_cases due : data.due now latency
    · obtain ⟨burst,bursts,same⟩ := entered due
      rw [same] at mem
      exact (bursts.ascending.2 packetIdx mem).2
    · rw [skipped due] at mem
      cases mem
  · obtain ⟨burst,bursts,same⟩ := entered due
    rw [same]
    refine bursts.first (firstUnsetEarliest earliest.behind ?_ earliest.unset earliest.before)
    by_contra beyond
    have outside : data.ackBits.length ≤ packetIdx := by
      have := earliest.behind
      omega
    have unset := earliest.unset
    rw [List.getD_eq_getElem?_getD,List.getElem?_eq_none outside] at unset
    cases unset
  · obtain ⟨burst,bursts,same⟩ := entered due
    have below : packetIdx < data.lastBit := by
      by_contra high
      exact absurd (earliest.unset.symm.trans (none packetIdx (Nat.not_lt.mp high))) (by decide)
    have early : firstUnset data.ackBits 0 data.lastBit = some packetIdx :=
      firstUnsetEarliest (Nat.zero_le _) (by omega) earliest.unset earliest.before
    have late : firstUnset data.ackBits data.lastBit (data.ackBits.length - data.lastBit) = Option.none := by
      cases found : firstUnset data.ackBits data.lastBit (data.ackBits.length - data.lastBit) with
      | none => rfl
      | some bit =>
        obtain ⟨low,-,unset⟩ := firstUnsetSome found
        exact absurd (unset.symm.trans (none bit low)) (by decide)
    rw [same]
    cases bursts with
    | hasAll _ none => cases none.symm.trans early
    | forceBurstDelay _ found =>
      cases found.symm.trans early
      exact ⟨rfl,rfl,rfl⟩
    | cycled found _ => cases late.symm.trans found
    | out found _ _ _ => cases late.symm.trans found
    | round found _ _ _ _ => cases late.symm.trans found

def Component.sending (c : Component) : Bool → Table Nat SendEvent × Nat
  | false => (c.sendList,ReassembledEvent.kFragmentSize)
  | true => (c.sendListV2,ReassembledEventV2.kFragmentSize)

def Component.ticked (c : Component) (clock : Clock) (fragmentSize : Nat) (sendPacket : SendEvent) (target : Int) : TargetTick :=
  sendPacket.tickOf clock (clock.now - c.lastTime) fragmentSize (fun target => (c.targets.lookup target).isSome) target

/-- A pending event of one of the two lists, with a target of it that is still registered and has a bitmap. -/
structure Component.Pending (c : Component) (v2 : Bool) (eventId : Nat) (target : Int) (sendPacket : SendEvent) (data : PerTargetData) :
    Prop where
  event : (c.sending v2).1.lookup eventId = some sendPacket
  listed : target ∈ sendPacket.targets
  registered : (c.targets.lookup target).isSome = true
  known : sendPacket.targetData.lookup target = some data

structure TargetFragment where
  v2 : Bool
  eventId : Nat
  target : Int
  packetIdx : Nat
  deriving DecidableEq, Repr

def TargetFragment.leadsTo (v2 : Bool) (eventId : Nat) (target : Int) (f : TargetFragment) : Bool :=
  f.v2 == v2 && f.eventId == eventId && f.target == target

def sentTo (v2 : Bool) (eventId : Nat) (target : Int) (fragments : List TargetFragment) : List Nat :=
  (fragments.filter (TargetFragment.leadsTo v2 eventId target)).map TargetFragment.packetIdx

def Component.latency (c : Component) (clock : Clock) (v2 : Bool) (sendPacket : SendEvent) : Nat :=
  clock.latency sendPacket.bytesPerSecond (c.sending v2).2

/-- What is sent is the packet of a fragment that a due target of the event has not acknowledged. -/
structure Sends (c : Component) (clock : Clock) (f : TargetFragment) (out : Output) (sendPacket : SendEvent) (data : PerTargetData) : Prop where
  pending : c.Pending f.v2 f.eventId f.target sendPacket data
  due : data.due clock.now (c.latency clock f.v2 sendPacket)
  inside : f.packetIdx < data.ackBits.length
  unset : data.ackBits.getD f.packetIdx true = false
  packet : out = sendPacket.output clock f.v2 f.eventId f.target data.ackBits.length f.packetIdx

/-- The packets of a tick, as the fragments that they hold. -/
structure TickSends (c : Component) (clock : Clock) (fragments : List TargetFragment) : Prop where
  packets : List.Forall₂ (fun f out => ∃ sendPacket data, Sends c clock f out sendPacket data) fragments (c.networkTick clock).2
  once : fragments.Nodup
  ends : ∀ v2 eventId target sendPacket data, c.Pending v2 eventId target sendPacket data →
    data.due clock.now (c.latency clock v2 sendPacket) → ∃ burst,
      Bursts clock.now (c.latency clock v2 sendPacket) data.lastBit (clock.now - c.lastTime) data burst ∧
        sentTo v2 eventId target fragments = burst.sent
  first : ∀ v2 eventId target sendPacket data, c.Pending v2 eventId target sendPacket data →
    data.due clock.now (c.latency clock v2 sendPacket) → ∀ packetIdx, data.Earliest packetIdx →
      (sentTo v2 eventId target fragments).head? = some packetIdx
  resumes : ∀ v2 eventId target sendPacket data, c.Pending v2 eventId target sendPacket data →
    data.due clock.now (c.latency clock v2 sendPacket) → (∀ i, data.lastBit ≤ i → data.ackBits.getD i true = true) →
      ∀ packetIdx, { data with lastBit := 0 }.Earliest packetIdx → sentTo v2 eventId target fragments = [] ∧
        ∃ sendPacket', (c.networkTick clock).1.Pending v2 eventId target sendPacket'
          { data with lastBit := packetIdx,delayNextSend := clock.now + 250,lastSend := clock.now }

def Component.Sets (c : Component) : Prop :=
  ∀ v2 eventId sendPacket, (c.sending v2).1.lookup eventId = some sendPacket → sendPacket.targets.Nodup

def Component.eventFragments (c : Component) (clock : Clock) (v2 : Bool) (event : Σ _ : Nat, SendEvent) : List TargetFragment :=
  event.2.targets.flatMap (fun target =>
    (c.ticked clock (c.sending v2).2 event.2 target).sent.map (TargetFragment.mk v2 event.1 target))

def Component.fragments (c : Component) (clock : Clock) : List TargetFragment :=
  [false,true].flatMap (fun v2 => (c.sending v2).1.entries.flatMap (c.eventFragments clock v2))

theorem flatMapSingle {l : List α} {f : α → List β} (nodup : l.Nodup) {a : α} (mem : a ∈ l) (others : ∀ b ∈ l, b ≠ a → f b = []) :
    l.flatMap f = f a := by
  obtain ⟨front,back,rfl⟩ := List.append_of_mem mem
  obtain ⟨-,later,apart⟩ := List.nodup_append.mp nodup
  have before : front.flatMap f = [] := List.flatMap_eq_nil_iff.mpr (fun b inside =>
    others b (by simp [inside]) (fun same => apart b inside a List.mem_cons_self same))
  have after : back.flatMap f = [] := List.flatMap_eq_nil_iff.mpr (fun b inside =>
    others b (by simp [inside]) (fun same => (List.nodup_cons.mp later).1 (same ▸ inside)))
  rw [List.flatMap_append,List.flatMap_cons,before,after,List.nil_append,List.append_nil]

theorem forall₂FlatMap {R : β → γ → Prop} {l : List α} {f : α → List β} {g : α → List γ}
    (each : ∀ a ∈ l, List.Forall₂ R (f a) (g a)) : List.Forall₂ R (l.flatMap f) (l.flatMap g) := by
  induction l with
  | nil => exact .nil
  | cons a rest ih =>
    obtain ⟨head,tail⟩ := List.forall_mem_cons.mp each
    exact List.rel_append head (ih tail)

section
variable {c : Component} {clock : Clock} {v2 : Bool} {eventId : Nat} {target : Int} {sendPacket : SendEvent} {data : PerTargetData}

theorem tickedPending (pending : c.Pending v2 eventId target sendPacket data) :
    c.ticked clock (c.sending v2).2 sendPacket target =
      tickTarget clock.now (clock.now - c.lastTime) (c.latency clock v2 sendPacket) true (some data) := by
  rw [Component.ticked,SendEvent.tickOf,pending.registered,pending.known]
  rfl

section
variable (event : (c.sending v2).1.lookup eventId = some sendPacket) (listed : target ∈ sendPacket.targets)
include event listed

section
variable {packetIdx : Nat} (sent : packetIdx ∈ (c.ticked clock (c.sending v2).2 sendPacket target).sent)
include sent

theorem sentPending : ∃ data, c.Pending v2 eventId target sendPacket data := by
  rw [Component.ticked,SendEvent.tickOf] at sent
  cases registered : (c.targets.lookup target).isSome with
  | false =>
    rw [registered] at sent
    cases sent
  | true =>
    cases known : sendPacket.targetData.lookup target with
    | none =>
      rw [registered,known] at sent
      cases sent
    | some data => exact ⟨data,event,listed,registered,known⟩

theorem sentSends : ∃ data, Sends c clock ⟨v2,eventId,target,packetIdx⟩
      (sendPacket.output clock v2 eventId target (((sendPacket.targetData.lookup target).map (·.ackBits.length)).getD 0) packetIdx)
      sendPacket data := by
  obtain ⟨data,pending⟩ := sentPending event listed sent
  have sends := targetSends clock.now (clock.now - c.lastTime) (c.latency clock v2 sendPacket) data
  rw [← tickedPending pending] at sends
  obtain ⟨inside,unset⟩ := sends.unacked packetIdx sent
  have due : data.due clock.now (c.latency clock v2 sendPacket) := by
    by_contra late
    rw [sends.waits late] at sent
    cases sent
  exact ⟨data,pending,due,inside,unset,by rw [pending.known]; rfl⟩

end

theorem sentOnce : (c.ticked clock (c.sending v2).2 sendPacket target).sent.Nodup := by
  by_cases none : (c.ticked clock (c.sending v2).2 sendPacket target).sent = []
  · exact none ▸ List.nodup_nil
  · obtain ⟨packetIdx,sent⟩ := List.exists_mem_of_ne_nil _ none
    obtain ⟨data,pending⟩ := sentPending event listed sent
    exact tickedPending pending ▸ (targetSends _ _ _ data).once

end

theorem fragmentsPackets (c : Component) (clock : Clock) :
    List.Forall₂ (fun f out => ∃ sendPacket data, Sends c clock f out sendPacket data) (c.fragments clock) (c.networkTick clock).2 := by
  have listed (v2 : Bool) : List.Forall₂ (fun f out => ∃ sendPacket data, Sends c clock f out sendPacket data)
      ((c.sending v2).1.entries.flatMap (c.eventFragments clock v2))
      (sendListOutputs clock (clock.now - c.lastTime) (c.sending v2).1 (c.sending v2).2 v2 (fun target => (c.targets.lookup target).isSome)) := by
    refine forall₂FlatMap fun ⟨eventId,sendPacket⟩ event => forall₂FlatMap fun target isTarget => ?_
    rw [List.forall₂_map_left_iff,List.forall₂_map_right_iff]
    refine List.forall₂_same.mpr fun packetIdx sent => ?_
    exact ⟨sendPacket,sentSends (Table.memEntries.mpr event) isTarget sent⟩
  have both := List.rel_append (listed false) (listed true)
  rw [← List.append_nil ((c.sending true).1.entries.flatMap _)] at both
  exact both

theorem sentToFlatMap (l : List α) (f : α → List TargetFragment) :
    sentTo v2 eventId target (l.flatMap f) = l.flatMap (fun a => sentTo v2 eventId target (f a)) := by
  simp only [sentTo,List.filter_flatMap,List.map_flatMap]

theorem sentToOwn (packets : List Nat) : sentTo v2 eventId target (packets.map (TargetFragment.mk v2 eventId target)) = packets := by
  rw [sentTo,List.filter_eq_self.mpr (fun f mem => ?_),List.map_map]
  · exact List.map_id packets
  · obtain ⟨_,-,rfl⟩ := List.mem_map.mp mem
    simp [TargetFragment.leadsTo]

theorem sentToOthers {fragments : List TargetFragment}
    (others : ∀ f ∈ fragments, ¬ (f.v2 = v2 ∧ f.eventId = eventId ∧ f.target = target)) : sentTo v2 eventId target fragments = [] := by
  rw [sentTo,List.filter_eq_nil_iff.mpr (fun f mem leads => others f mem ?_),List.map_nil]
  simpa [TargetFragment.leadsTo,and_assoc] using leads

theorem ofEvent {event : Σ _ : Nat, SendEvent} {f : TargetFragment} (mem : f ∈ c.eventFragments clock v2 event) :
    f.v2 = v2 ∧ f.eventId = event.1 := by
  obtain ⟨target,-,mem⟩ := List.mem_flatMap.mp mem
  obtain ⟨packetIdx,-,rfl⟩ := List.mem_map.mp mem
  exact ⟨rfl,rfl⟩

theorem fragmentsOnce (sets : c.Sets) : (c.fragments clock).Nodup := by
  have events (v2 : Bool) (event) (mem : event ∈ (c.sending v2).1.entries) : (c.eventFragments clock v2 event).Nodup := by
    refine List.nodup_flatMap.mpr ⟨fun target isTarget => ?_,(sets v2 event.1 event.2 (Table.memEntries.mpr mem)).imp fun other f one two => ?_⟩
    · exact List.Nodup.map (fun a b same => (TargetFragment.mk.inj same).2.2.2) (sentOnce (Table.memEntries.mpr mem) isTarget)
    · obtain ⟨_,-,rfl⟩ := List.mem_map.mp one
      obtain ⟨_,-,same⟩ := List.mem_map.mp two
      exact other (TargetFragment.mk.inj same).2.2.1.symm
  have keys (v2 : Bool) : (c.sending v2).1.entries.Pairwise (fun a b => a.1 ≠ b.1) := List.pairwise_map.mp (c.sending v2).1.nodupKeys
  refine List.nodup_flatMap.mpr ⟨fun v2 _ => List.nodup_flatMap.mpr ⟨events v2,(keys v2).imp fun other f one two => ?_⟩,?_⟩
  · exact other ((ofEvent one).2.symm.trans (ofEvent two).2)
  · refine List.pairwise_pair.mpr fun f one two => ?_
    obtain ⟨_,-,one⟩ := List.mem_flatMap.mp one
    obtain ⟨_,-,two⟩ := List.mem_flatMap.mp two
    cases (ofEvent one).1.symm.trans (ofEvent two).1

theorem sentToFragments (sets : c.Sets) (pending : c.Pending v2 eventId target sendPacket data) :
    sentTo v2 eventId target (c.fragments clock) = (c.ticked clock (c.sending v2).2 sendPacket target).sent := by
  have mem := Table.memEntries.mp pending.event
  have targets : sentTo v2 eventId target (c.eventFragments clock v2 ⟨eventId,sendPacket⟩) =
      (c.ticked clock (c.sending v2).2 sendPacket target).sent := by
    refine (sentToFlatMap _ _).trans ((flatMapSingle (sets v2 eventId sendPacket pending.event) pending.listed ?_).trans (sentToOwn _))
    refine fun other _ different => sentToOthers fun f mem => ?_
    obtain ⟨_,-,rfl⟩ := List.mem_map.mp mem
    exact fun same => different same.2.2
  have events : sentTo v2 eventId target ((c.sending v2).1.entries.flatMap (c.eventFragments clock v2)) =
      sentTo v2 eventId target (c.eventFragments clock v2 ⟨eventId,sendPacket⟩) := by
    refine (sentToFlatMap _ _).trans (flatMapSingle (List.Nodup.of_map _ (c.sending v2).1.nodupKeys) mem ?_)
    rintro ⟨id,event⟩ inside different
    refine sentToOthers fun f mem same => different ?_
    obtain rfl : id = eventId := (ofEvent mem).2.symm.trans same.2.1
    cases (Table.memEntries.mpr inside).symm.trans pending.event
    rfl
  refine (sentToFlatMap _ _).trans ((flatMapSingle (by decide) (show v2 ∈ [false,true] by cases v2 <;> decide) ?_).trans (events.trans targets))
  refine fun way _ different => sentToOthers fun f mem same => different ?_
  obtain ⟨_,-,mem⟩ := List.mem_flatMap.mp mem
  exact (ofEvent mem).1.symm.trans same.1

theorem stillPending (pending : c.Pending v2 eventId target sendPacket data) {data' : PerTargetData}
    (running : (c.ticked clock (c.sending v2).2 sendPacket target).done = false)
    (kept : (c.ticked clock (c.sending v2).2 sendPacket target).data = some data') :
    ∃ sendPacket', (c.networkTick clock).1.Pending v2 eventId target sendPacket' data' := by
  have stays : target ∈ (sendPacket.tick clock (clock.now - c.lastTime) (c.sending v2).2
      (fun target => (c.targets.lookup target).isSome)).targets :=
    List.mem_filter.mpr ⟨pending.listed,by rw [Bool.not_eq_true']; exact running⟩
  have list : ((c.networkTick clock).1.sending v2).1 = networkTickSendList clock (clock.now - c.lastTime) (c.sending v2).1 (c.sending v2).2
      (fun target => (c.targets.lookup target).isSome) := by
    cases v2 with
    | false => rfl
    | true => rfl
  refine ⟨_,?_,stays,pending.registered,?_⟩
  · rw [list,networkTickSendList,Table.lookupFilterMapValues,pending.event]
    exact if_neg (by rw [List.isEmpty_iff]; exact List.ne_nil_of_mem stays)
  · simp only [SendEvent.tick,Table.lookupFilterMapValues,pending.known,Option.bind_some,if_pos pending.listed]
    exact kept

end

theorem tickSends (c : Component) (clock : Clock) (sets : c.Sets) : ∃ fragments, TickSends c clock fragments := by
  refine ⟨c.fragments clock,fragmentsPackets c clock,fragmentsOnce sets,?_,?_,?_⟩
  · intro v2 eventId target sendPacket data pending due
    obtain ⟨burst,bursts,same⟩ := (targetSends clock.now (clock.now - c.lastTime) _ data).ends due
    exact ⟨burst,bursts,by rw [sentToFragments sets pending,tickedPending pending,same]⟩
  · intro v2 eventId target sendPacket data pending due packetIdx earliest
    rw [sentToFragments sets pending,tickedPending pending]
    exact (targetSends _ _ _ data).first due packetIdx earliest
  · intro v2 eventId target sendPacket data pending due none packetIdx earliest
    obtain ⟨sent,running,kept⟩ := (targetSends clock.now (clock.now - c.lastTime) _ data).resumes due none packetIdx earliest
    rw [← tickedPending pending] at sent running kept
    exact ⟨(sentToFragments sets pending).trans sent,stillPending pending running kept⟩

/-- Two targets of one event: the unacknowledged fragment of the first is before its resume point. -/
def resumed : Component := { Component.init 6000 with
  targets := ((∅ : Table Int Target).insert 1 ⟨1,8⟩).insert 2 ⟨2,8⟩
  sendList := (∅ : Table Nat SendEvent).insert 0 ⟨[1,2],1000,List.replicate 2500 0,
    ((∅ : Table Int PerTargetData).insert 1 ⟨6000,4250,[false,true,true],1⟩).insert 2 ⟨6000,4250,[false,true,false],1⟩⟩ }

def resumedClock : Clock := ⟨8000,fun _ _ => 1000,[]⟩

theorem resumedSends : ∃ fragments, TickSends resumed resumedClock fragments ∧
    sentTo false 0 1 fragments = [] ∧ (sentTo false 0 2 fragments).head? = some 2 := by
  obtain ⟨fragments,sends⟩ := tickSends resumed resumedClock fun v2 eventId sendPacket found => by
    cases v2 with
    | true => cases found
    | false =>
      obtain ⟨-,same⟩ := Sigma.mk.inj (List.mem_singleton.mp (Table.memEntries.mp found))
      cases same
      decide
  have first : resumed.Pending false 0 1 _ ⟨6000,4250,[false,true,true],1⟩ := ⟨rfl,by decide,rfl,rfl⟩
  have second : resumed.Pending false 0 2 _ ⟨6000,4250,[false,true,false],1⟩ := ⟨rfl,by decide,rfl,rfl⟩
  refine ⟨fragments,sends,(sends.resumes _ _ _ _ _ first (by decide) ?_ 0 ⟨Nat.le_refl _,rfl,nofun⟩).1,
    sends.first _ _ _ _ _ second (by decide) 2 ⟨by decide,rfl,?_⟩⟩
  · intro i low
    match i,low with
    | 1,_ => rfl
    | 2,_ => rfl
    | _ + 3,_ => rfl
  · intro i low high
    obtain rfl : i = 1 := Nat.le_antisymm (Nat.le_of_lt_succ high) low
    rfl

def Output.reaches (target : Int) : Output → Prop
  | .sendPacket id _ => id = target
  | .sendPacketV2 id _ => id = target
  | .queueEvent _ _ _ => False

def SendsSome (c : Component) (clock : Clock) : Prop :=
  ∀ v2 eventId target sendPacket data, c.Pending v2 eventId target sendPacket data →
    data.due clock.now (c.latency clock v2 sendPacket) → (∃ packetIdx, data.ackBits.getD packetIdx true = false) →
      ∃ out ∈ (c.networkTick clock).2, out.reaches target

theorem nothingFromResume : ¬ ∀ c clock, SendsSome c clock := by
  intro all
  have first : resumed.Pending false 0 1 _ ⟨6000,4250,[false,true,true],1⟩ := ⟨rfl,by decide,rfl,rfl⟩
  obtain ⟨out,mem,reaches⟩ := all resumed resumedClock _ _ _ _ _ first (by decide) ⟨0,rfl⟩
  have outputs : (resumed.networkTick resumedClock).2 =
      [(⟨[1,2],1000,List.replicate 2500 0,∅⟩ : SendEvent).output resumedClock false 0 2 3 2] := rfl
  rw [outputs,List.mem_singleton] at mem
  subst mem
  exact absurd (show (2 : Int) = 1 from reaches) (by decide)

end Citizen.Resources
