import Citizen.Resources.EventReceive

/-! The pending-event quota of a target: one unit is taken when an event of it starts
and one returned when it completes, on two conditions that differ. -/
namespace Citizen.Resources
open BitField (Byte)

def Component.pending (c : Component) (id : Int) : Nat :=
  Table.total (fun event => if event.completed then 0 else 1) ((c.receiveList.lookup id).getD ∅)

def Booked (id : Int) (quota : BitVec 8) (c : Component) : Prop :=
  match c.targets.lookup id with
  | none => False
  | some target =>
      if quota = 0xFF#8 then target.maxPendingEvents ≠ 0#8
      else c.pending id ≤ quota.toNat ∧ target.maxPendingEvents.toNat + c.pending id = quota.toNat

instance (id : Int) (quota : BitVec 8) (c : Component) : Decidable (Booked id quota c) :=
  match found : c.targets.lookup id with
  | none => isFalse (by simp [Booked,found])
  | some target =>
      decidable_of_iff (if quota = 0xFF#8 then target.maxPendingEvents ≠ 0#8
        else c.pending id ≤ quota.toNat ∧ target.maxPendingEvents.toNat + c.pending id = quota.toNat)
        (by simp [Booked,found])

def Op.registers (id : Int) : Op → Bool
  | .registerTarget id' _ => id' == id
  | .unregisterTarget id' => id' == id
  | _ => false

variable {c : Component}

theorem pendingStore {source eventId} (event : ReceiveEvent) :
    (c.storeReceive source eventId event).pending source +
        ((c.findReceive source eventId).map (fun old => if old.completed then 0 else 1)).getD 0 =
      c.pending source + if event.completed then 0 else 1 := by
  simp only [Component.pending,Component.storeReceive,Component.findReceive,AList.lookup_insert,
    Option.getD_some]
  cases c.receiveList.lookup source with
  | none => simpa using (Table.totalInsertNew _ event (AList.lookup_empty eventId)).trans (Nat.add_comm _ _)
  | some events =>
    cases found : events.lookup eventId with
    | none => simpa [found] using (Table.totalInsertNew _ event found).trans (Nat.add_comm _ _)
    | some old => simpa [found] using Table.totalInsertOld _ event found

theorem pendingStoreOther {source id : Int} {eventId event} (other : id ≠ source) :
    (c.storeReceive source eventId event).pending id = c.pending id := by
  simp only [Component.pending,Component.storeReceive]
  rw [AList.lookup_insert_ne other]

theorem pendingOpen (c : Component) (source id : Int) : (c.openReceive source).pending id = c.pending id := by
  simp only [Component.pending,Component.openReceive]
  by_cases same : id = source
  · subst same
    simp
  · rw [AList.lookup_insert_ne same]

theorem pendingReceiveList {c c' : Component} (same : c'.receiveList = c.receiveList) (id : Int) :
    c'.pending id = c.pending id := by
  rw [Component.pending,same,Component.pending]

theorem pendingTakeQuota (c : Component) (source target id) :
    (c.takeQuota source target).pending id = c.pending id := by
  rw [Component.takeQuota]
  split <;> rfl

theorem pendingReturnQuota (c : Component) (source id) : (c.returnQuota source).pending id = c.pending id := by
  rw [Component.returnQuota]
  split <;> rfl

theorem pendingFinish {arrival fragment} (id : Int) :
    (Component.finishReceipt arrival fragment.eventId fragment.fragmentSize fragment.v2
      (fragment.ack arrival) (c.receive arrival fragment)).1.pending id =
      (c.receive arrival fragment).component.pending id := by
  have lists := finishReceiptReceiveList arrival fragment.eventId fragment.fragmentSize fragment.v2
    (fragment.ack arrival) (c.receive arrival fragment)
  cases done : (c.receive arrival fragment).completed with
  | none =>
    rw [done] at lists
    exact pendingReceiveList lists id
  | some event =>
    rw [done] at lists
    obtain ⟨completed,stored⟩ := receiveCompleted done
    refine (pendingReceiveList lists id).trans ?_
    by_cases same : id = arrival.source
    · subst same
      have books := @pendingStore (c.receive arrival fragment).component arrival.source fragment.eventId
        { event with packetData := event.packetData.map (fun packet => (packet.1,[])) }
      simpa [stored,completed] using books
    · exact pendingStoreOther same

theorem pendingKeep {source eventId event packetIdx bytes now}
    (fresh : event.completed = false) :
    (c.keepFragment source eventId event packetIdx bytes now).component.pending source +
        ((c.findReceive source eventId).map (fun old => if old.completed then 0 else 1)).getD 0 =
      c.pending source +
        if (event.accept packetIdx bytes now).hasAll then 0 else 1 := by
  have books := @pendingStore c source eventId (event.accept packetIdx bytes now)
  have completed : (event.accept packetIdx bytes now).completed =
      (event.accept packetIdx bytes now).hasAll := by
    rw [acceptCompleted,fresh,Bool.false_or]
  rw [completed] at books
  rw [Component.keepFragment]
  split
  · rename_i all
    rw [if_pos all] at books
    rw [pendingReturnQuota]
    exact books
  · rename_i some
    rw [if_neg some] at books
    exact books

theorem pendingKeepOther {source id : Int} {eventId event packetIdx bytes now} (other : id ≠ source) :
    (c.keepFragment source eventId event packetIdx bytes now).component.pending id = c.pending id := by
  rw [Component.keepFragment]
  split
  · rw [pendingReturnQuota,pendingStoreOther other]
  · exact pendingStoreOther other

def Balanced (id : Int) (quota : BitVec 8) : Prop := quota = 0#8 ∨ (quota = 0xFF#8 ↔ id = 0)

def Books (id : Int) (quota : BitVec 8) (c : Component) : Prop :=
  ∃ target, c.targets.lookup id = some target ∧
    (quota = 0xFF#8 → target.maxPendingEvents = 0xFF#8) ∧
    (quota ≠ 0xFF#8 → target.maxPendingEvents.toNat + c.pending id = quota.toNat)

section
variable {id : Int} {quota : BitVec 8} {c : Component}

theorem bookedOfBooks (books : Books id quota c) : Booked id quota c := by
  obtain ⟨target,found,unlimited,limited⟩ := books
  rw [Booked,found]
  dsimp only
  split
  · rename_i full
    rw [unlimited full]
    decide
  · rename_i bounded
    have sum := limited bounded
    exact ⟨by omega,sum⟩

theorem booksOfSame {c c' : Component} (books : Books id quota c)
    (target : c'.targets.lookup id = c.targets.lookup id) (pending : c'.pending id = c.pending id) :
    Books id quota c' := by
  obtain ⟨t,found,unlimited,limited⟩ := books
  exact ⟨t,target.trans found,unlimited,by rwa [pending]⟩

section
variable (balanced : Balanced id quota) (books : Books id quota c)
include balanced books

theorem booksStarted {target eventId totalPackets packetIdx bytes now}
    (absent : c.findReceive id eventId = none) (registered : c.targets.lookup id = some target)
    (room : target.maxPendingEvents ≠ 0#8) :
    Books id quota (((c.openReceive id).takeQuota id target).keepFragment id eventId
      (newReceiveEvent id totalPackets) packetIdx bytes now).component := by
  obtain ⟨_,found,unlimited,limited⟩ := books
  cases found.symm.trans registered
  have sum := @pendingKeep ((c.openReceive id).takeQuota id target) id eventId
    (newReceiveEvent id totalPackets) packetIdx bytes now rfl
  have kept := targetsKeep ((c.openReceive id).takeQuota id target) id eventId
    (newReceiveEvent id totalPackets) packetIdx bytes now
  simp only [findReceiveTakeQuota,findReceiveOpen,absent,Option.map_none,Option.getD_none,
    pendingTakeQuota,pendingOpen,Nat.add_zero] at sum
  have positive : 0 < target.maxPendingEvents.toNat := by
    rcases Nat.eq_zero_or_pos target.maxPendingEvents.toNat with zero | positive
    · exact absurd (BitVec.eq_of_toNat_eq zero) room
    · exact positive
  by_cases full : quota = 0xFF#8
  · -- the counter of an unlimited target is taken from and returned to by neither side
    have source : id = 0 := by
      rcases balanced with none | exact
      · rw [none] at full
        exact absurd full (by decide)
      · exact exact.mp full
    refine ⟨target,?_,unlimited,fun bounded => absurd full bounded⟩
    have taken : ((c.openReceive id).takeQuota id target).targets = c.targets := by
      rw [Component.takeQuota,if_pos (unlimited full)]
      rfl
    have returned : (((c.openReceive id).takeQuota id target).returnQuota id).targets =
        ((c.openReceive id).takeQuota id target).targets := by
      rw [Component.returnQuota,if_neg (by simpa using source)]
    rw [kept,returned,ite_self,taken]
    exact registered
  · have limit := limited full
    have small : target.maxPendingEvents ≠ 0xFF#8 := by
      intro sentinel
      have top : quota.toNat < 256 := quota.isLt
      have value : target.maxPendingEvents.toNat = 255 := by rw [sentinel]; rfl
      exact full (BitVec.eq_of_toNat_eq (by
        rw [show (0xFF#8).toNat = 255 from rfl]
        omega))
    have source : id ≠ 0 := by
      rcases balanced with none | exact
      · rw [none] at limit
        simp at limit
        omega
      · exact fun zero => full (exact.mpr zero)
    have less : (target.maxPendingEvents - 1#8).toNat = target.maxPendingEvents.toNat - 1 := by
      bv_omega
    have taken : ((c.openReceive id).takeQuota id target).targets.lookup id =
        some { target with maxPendingEvents := target.maxPendingEvents - 1#8 } := by
      simp [Component.takeQuota,small]
    cases all : ((newReceiveEvent id totalPackets).accept packetIdx bytes now).hasAll with
    | true =>
      rw [all,if_pos rfl] at kept sum
      refine ⟨{ target with maxPendingEvents := target.maxPendingEvents - 1#8 + 1#8 },?_,
        fun unlimited => absurd unlimited full,fun _ => ?_⟩
      · rw [kept,Component.returnQuota,if_pos source,Table.lookupAdjustSelf,taken]
        rfl
      · dsimp only
        rw [show target.maxPendingEvents - 1#8 + 1#8 = target.maxPendingEvents by bv_omega]
        omega
    | false =>
      rw [all,if_neg (by simp)] at kept sum
      refine ⟨_,by rw [kept]; exact taken,fun unlimited => absurd unlimited full,fun _ => ?_⟩
      dsimp only
      omega

theorem booksContinued {event eventId packetIdx bytes now}
    (found : c.findReceive id eventId = some event) (missing : event.settled packetIdx = false) :
    Books id quota ((c.openReceive id).keepFragment id eventId event packetIdx bytes now).component := by
  obtain ⟨t,registered,unlimited,limited⟩ := books
  have fresh : event.completed = false := (Bool.or_eq_false_iff.mp missing).1
  have sum := @pendingKeep (c.openReceive id) id eventId event packetIdx bytes now fresh
  have kept := targetsKeep (c.openReceive id) id eventId event packetIdx bytes now
  have same : (c.openReceive id).targets = c.targets := rfl
  simp only [findReceiveOpen,found,Option.map_some,Option.getD_some,fresh,Bool.false_eq_true,if_false,
    pendingOpen] at sum
  cases all : (event.accept packetIdx bytes now).hasAll with
  | false =>
    rw [all,if_neg (by simp)] at kept sum
    exact ⟨t,by rw [kept]; exact registered,unlimited,fun bounded => by
      have limit := limited bounded
      omega⟩
  | true =>
    rw [all,if_pos rfl] at kept sum
    by_cases source : id = 0
    · refine ⟨t,?_,unlimited,fun bounded => ?_⟩
      · rw [kept,Component.returnQuota,if_neg (by simpa using source)]
        exact registered
      · -- source 0 is limited only with a quota of none, which leaves nothing pending
        have limit := limited bounded
        rcases balanced with none | exact
        · rw [none] at limit
          simp at limit
          omega
        · exact absurd (exact.mpr source) bounded
    · have bounded : quota ≠ 0xFF#8 := by
        rcases balanced with none | exact
        · rw [none]
          decide
        · exact fun full => source (exact.mp full)
      have limit := limited bounded
      have top : quota.toNat < 256 := quota.isLt
      have more : (t.maxPendingEvents + 1#8).toNat = t.maxPendingEvents.toNat + 1 := by
        rw [BitVec.toNat_add]
        have one : (1#8).toNat = 1 := rfl
        rw [one]
        omega
      refine ⟨{ t with maxPendingEvents := t.maxPendingEvents + 1#8 },?_,
        fun full => absurd full bounded,fun _ => ?_⟩
      · rw [kept,Component.returnQuota,if_pos source,Table.lookupAdjustSelf,same,registered]
        rfl
      · dsimp only
        omega

theorem booksReceive (arrival : Arrival) (fragment : Fragment) :
    Books id quota (c.receive arrival fragment).component := by
  have cases := receiveCases c arrival fragment
  generalize c.receive arrival fragment = receipt at *
  by_cases own : id = arrival.source
  · subst own
    cases cases with
    | refused absent full => exact booksOfSame books rfl (pendingOpen _ _ _)
    | @foreign event found other =>
      have store := @pendingStore (c.openReceive arrival.source) arrival.source fragment.eventId event
      simp only [findReceiveOpen,found,Option.map_some,Option.getD_some,pendingOpen] at store
      exact booksOfSame books rfl (by simpa using store)
    | @repeated event found own again =>
      have store := @pendingStore (c.openReceive arrival.source) arrival.source fragment.eventId
        { event with timeLastAck := arrival.now }
      simp only [findReceiveOpen,found,Option.map_some,Option.getD_some,pendingOpen] at store
      exact booksOfSame books rfl (by simpa using store)
    | continued found own missing => exact booksContinued balanced books found missing
    | started absent registered room => exact booksStarted balanced books absent registered room
  · cases cases with
    | refused absent full => exact booksOfSame books rfl (pendingOpen _ _ _)
    | foreign found other =>
      exact booksOfSame books rfl ((pendingStoreOther own).trans (pendingOpen _ _ _))
    | repeated found _ again =>
      exact booksOfSame books rfl ((pendingStoreOther own).trans (pendingOpen _ _ _))
    | continued found _ missing =>
      refine booksOfSame books ?_ ((pendingKeepOther own).trans (pendingOpen _ _ _))
      rw [targetsKeep]
      split
      · exact targetsReturnQuotaOther own
      · rfl
    | started absent registered room =>
      refine booksOfSame books ?_
        ((pendingKeepOther own).trans ((pendingTakeQuota _ _ _ _).trans (pendingOpen _ _ _)))
      rw [targetsKeep]
      split
      · exact (targetsReturnQuotaOther own).trans (targetsTakeQuotaOther own)
      · exact targetsTakeQuotaOther own

end
end

theorem pendingCleanup (c : Component) (now : Int) (id : Int) :
    Component.pending { c with receiveList := cleanupReceiveList now c.receiveList } id =
      c.pending id := by
  simp only [Component.pending,cleanupReceiveList,Table.lookupMapValues]
  cases c.receiveList.lookup id with
  | none => rfl
  | some events =>
    simp only [Option.map_some,Option.getD_some]
    refine Table.totalKeep _ ?_
    intro k event found dropped
    simp only [Bool.not_eq_false',Bool.and_eq_true] at dropped
    simp [dropped.1]

variable {c : Component}

theorem booksStep {id : Int} {quota : BitVec 8} (balanced : Balanced id quota)
    (books : Books id quota c) (op : Op) (kept : op.registers id = false) : Books id quota (c.step op) := by
  cases delivers : op.fragment with
  | some delivery =>
    obtain ⟨arrival,fragment⟩ := delivery
    rw [stepFragment delivers]
    refine booksOfSame (booksReceive balanced books arrival fragment) ?_ (pendingFinish id)
    rw [finishReceiptTargets]
  | none =>
    cases op with
    | registerTarget id' quota' =>
      have other : id ≠ id' := by
        intro same
        simp [Op.registers,same] at kept
      exact booksOfSame books (AList.lookup_insert_ne other) rfl
    | unregisterTarget id' =>
      have other : id ≠ id' := by
        intro same
        simp [Op.registers,same] at kept
      simp only [Component.step,Component.apply,Component.unregisterTarget]
      split
      · refine booksOfSame books (AList.lookup_erase_ne other) ?_
        simp only [Component.pending]
        rw [AList.lookup_erase_ne other]
      · exact books
    | networkTick clock =>
      refine booksOfSame books rfl ?_
      simp only [Component.step,Component.apply,Component.networkTick]
      by_cases cleanup : gcTime ≤ clock.now - c.lastCleanup
      · simp only [cleanup,decide_true,if_true]
        exact pendingCleanup c clock.now id
      · simp only [cleanup,decide_false,Bool.false_eq_true,if_false]
        rfl
    | _ =>
      obtain ⟨lists,targets,-,-⟩ := @applyQuiet c _ delivers (by simp) (by simp)
      exact booksOfSame books (by rw [targets]) (pendingReceiveList lists id)

def Cleared (c : Component) : Prop := ∀ id, c.targets.lookup id = none → c.pending id = 0

theorem pendingPositive {id eventId event} (found : c.findReceive id eventId = some event)
    (missing : event.completed = false) : 0 < c.pending id := by
  obtain ⟨events,list,entry⟩ := Option.bind_eq_some_iff.mp found
  have one := Table.leTotal (fun event : ReceiveEvent => if event.completed then 0 else 1) entry
  simp only [missing,Bool.false_eq_true,if_false] at one
  rw [Component.pending,list]
  exact one

theorem clearedReceive (cleared : Cleared c) (arrival : Arrival) (fragment : Fragment) :
    Cleared (c.receive arrival fragment).component := by
  intro id gone
  have before : c.targets.lookup id = none := by
    rw [← Option.isNone_iff_eq_none,← Option.not_isSome,Bool.not_eq_true',
      ← registeredReceive c arrival fragment id,gone]
    rfl
  have zero := cleared id before
  have cases := receiveCases c arrival fragment
  generalize c.receive arrival fragment = receipt at *
  by_cases own : id = arrival.source
  · subst own
    cases cases with
    | refused absent full => rw [pendingOpen,zero]
    | @foreign event found other =>
      have store := @pendingStore (c.openReceive arrival.source) arrival.source fragment.eventId event
      simp only [findReceiveOpen,found,Option.map_some,Option.getD_some,pendingOpen] at store
      exact (Nat.add_right_cancel store).trans zero
    | @repeated event found own again =>
      have store := @pendingStore (c.openReceive arrival.source) arrival.source fragment.eventId
        { event with timeLastAck := arrival.now }
      simp only [findReceiveOpen,found,Option.map_some,Option.getD_some,pendingOpen] at store
      exact (Nat.add_right_cancel store).trans zero
    | continued found own missing =>
      have some := pendingPositive found (Bool.or_eq_false_iff.mp missing).1
      omega
    | started absent registered room =>
      rw [before] at registered
      contradiction
  · cases cases with
    | refused absent full => rw [pendingOpen,zero]
    | foreign found other => rw [pendingStoreOther own,pendingOpen,zero]
    | repeated found _ again => rw [pendingStoreOther own,pendingOpen,zero]
    | continued found _ missing => rw [pendingKeepOther own,pendingOpen,zero]
    | started absent registered room =>
      rw [pendingKeepOther own,pendingTakeQuota,pendingOpen,zero]

theorem clearedStep (op : Op) (cleared : Cleared c) : Cleared (c.step op) := by
  cases delivers : op.fragment with
  | some delivery =>
    obtain ⟨arrival,fragment⟩ := delivery
    intro id gone
    rw [stepFragment delivers,finishReceiptTargets] at gone
    rw [stepFragment delivers,pendingFinish]
    exact clearedReceive cleared arrival fragment id gone
  | none =>
    cases op with
    | registerTarget id' quota =>
      intro id gone
      have other : id ≠ id' := by
        intro same
        simp [Component.step,Component.apply,Component.registerTarget,same] at gone
      exact cleared id ((AList.lookup_insert_ne other).symm.trans gone)
    | unregisterTarget id' =>
      intro id gone
      simp only [Component.step,Component.apply,Component.unregisterTarget] at gone ⊢
      split
      · rename_i registered
        rw [if_pos registered] at gone
        by_cases same : id = id'
        · subst same
          rw [Component.pending,AList.lookup_erase]
          exact Table.totalEmpty _
        · have before := cleared id ((AList.lookup_erase_ne same).symm.trans gone)
          rw [Component.pending] at before ⊢
          rw [AList.lookup_erase_ne same]
          exact before
      · rename_i absent
        rw [if_neg absent] at gone
        exact cleared id gone
    | networkTick clock =>
      intro id gone
      simp only [Component.step,Component.apply,Component.networkTick] at gone ⊢
      by_cases cleanup : gcTime ≤ clock.now - c.lastCleanup
      · simp only [cleanup,decide_true,if_true]
        exact (pendingCleanup c clock.now id).trans (cleared id gone)
      · simp only [cleanup,decide_false,Bool.false_eq_true,if_false]
        exact cleared id gone
    | _ =>
      obtain ⟨lists,targets,-,-⟩ := @applyQuiet c _ delivers (by simp) (by simp)
      intro id gone
      rw [pendingReceiveList lists]
      exact cleared id (by rwa [targets] at gone)

theorem clearedReachable {now : Int} (reachable : Reachable Component.step (.init now) c) : Cleared c :=
  reachableKeeps Cleared (fun _ op cleared => clearedStep op cleared) (fun _ _ => rfl) reachable

theorem booksRegistered (cleared : Cleared c) {id : Int} (quota : BitVec 8)
    (fresh : c.targets.lookup id = none) : Books id quota (c.registerTarget id quota) := by
  have none : (c.registerTarget id quota).pending id = 0 := cleared id fresh
  exact ⟨⟨id,quota⟩,by simp [Component.registerTarget],fun full => full,fun _ => by rw [none]; rfl⟩

def singleFragment (source : Int) : Op :=
  .handlePacketV2 ⟨source,0,false,[],[],0⟩ ⟨0,0,1,[1]⟩

theorem singleFragmentUnbooked {id : Int} {quota : BitVec 8} (unbalanced : ¬ Balanced id quota) :
    ¬ Booked id quota (((Component.init 0).registerTarget id quota).step (singleFragment id)) := by
  obtain ⟨some,sides⟩ := not_or.mp unbalanced
  have delivers : (singleFragment id).fragment = Option.some (⟨id,0,false,[],[],0⟩,⟨0,0,1,[1],true⟩) := rfl
  have absent : ((Component.init 0).registerTarget id quota).findReceive id 0 = none := rfl
  have registered : ((Component.init 0).registerTarget id quota).targets.lookup id =
      Option.some ⟨id,quota⟩ := by simp [Component.registerTarget]
  have cleared : Cleared (Component.init 0) := fun _ _ => rfl
  have empty : ((Component.init 0).registerTarget id quota).pending id = 0 := cleared id rfl
  generalize (Component.init 0).registerTarget id quota = c at *
  rw [stepFragment delivers,Booked,finishReceiptTargets,pendingFinish]
  have cases := receiveCases c ⟨id,0,false,[],[],0⟩ ⟨0,0,1,[1],true⟩
  generalize c.receive ⟨id,0,false,[],[],0⟩ ⟨0,0,1,[1],true⟩ = receipt at *
  cases cases with
  | refused _ full => exact absurd (full _ registered) some
  | foreign found _ => exact absurd (absent.symm.trans found) (by simp)
  | repeated found _ _ => exact absurd (absent.symm.trans found) (by simp)
  | continued found _ _ => exact absurd (absent.symm.trans found) (by simp)
  | started _ found room =>
    cases registered.symm.trans found
    have all : ((newReceiveEvent id 1).accept 0 [1] 0).hasAll = true := rfl
    have sum := @pendingKeep ((c.openReceive id).takeQuota id ⟨id,quota⟩) id 0
      (newReceiveEvent id 1) 0 [1] 0 rfl
    rw [if_pos all,pendingTakeQuota,pendingOpen,empty] at sum
    rw [targetsKeep,if_pos all]
    by_cases full : quota = 0xFF#8
    · have source : id ≠ 0 := fun zero => sides ⟨fun _ => zero,fun _ => full⟩
      have taken : ((c.openReceive id).takeQuota id ⟨id,quota⟩).targets.lookup id =
          Option.some ⟨id,quota⟩ := by
        rw [Component.takeQuota,if_pos full]
        exact found
      rw [Component.returnQuota,if_pos source,Table.lookupAdjustSelf,taken]
      simp [full]
    · have source : id = 0 := by
        by_contra other
        exact sides ⟨fun h => absurd h full,fun h => absurd h other⟩
      have taken : ((c.openReceive id).takeQuota id ⟨id,quota⟩).targets.lookup id =
          Option.some ⟨id,quota - 1#8⟩ := by
        rw [Component.takeQuota,if_neg full]
        simp
      rw [Component.returnQuota,if_neg (by simpa using source),taken]
      simp only [if_neg full]
      rintro ⟨-,balance⟩
      have positive : quota ≠ 0#8 := some
      have less : (quota - 1#8).toNat = quota.toNat - 1 := by bv_omega
      have nonzero : 0 < quota.toNat := by bv_omega
      omega

theorem quotaBalancesIff (id : Int) (quota : BitVec 8) :
    (∀ (now : Int) (c : Component) (ops : List Op), Reachable Component.step (.init now) c →
      c.targets.lookup id = none → (∀ op ∈ ops, op.registers id = false) →
        Throughout Component.step (Booked id quota) (c.registerTarget id quota) ops) ↔ Balanced id quota := by
  constructor
  · intro all
    by_contra unbalanced
    have run := all 0 (.init 0) [singleFragment id] ⟨[],rfl⟩ rfl (by simp [singleFragment,Op.registers])
    exact singleFragmentUnbooked unbalanced run.2
  · intro balanced now c ops reachable fresh others
    have start := booksRegistered (clearedReachable reachable) quota fresh
    have along : Along Component.step (fun _ op => op.registers id = false)
        (c.registerTarget id quota) ops := alongOfMem (fun _ op mem => others op mem)
    have kept : ∀ (c : Component) (op : Op), Books id quota c → op.registers id = false →
        Books id quota (c.step op) := fun _ op books other => booksStep balanced books op other
    exact throughoutMono (fun _ books => bookedOfBooks books) (throughoutOfKept _ kept start along)

theorem unlimitedQuotaWraps :
    ¬ Throughout Component.step (Booked 1 0xFF#8) ((Component.init 0).registerTarget 1 0xFF#8) [singleFragment 1] :=
  fun run => absurd run.2 (show ¬ Booked 1 0xFF#8 _ by decide)

end Citizen.Resources
