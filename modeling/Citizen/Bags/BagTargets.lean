import Citizen.Bags.QueuedReplication

/-! Routing targets that come and go: which keys leave a bag, and what its targets hold. -/
namespace Citizen.Bags
namespace StateBag

-- A target that was not routed to before starts from nothing.
def greet (s : StateBag) (peer : Nat) : StateBag :=
  if s.m_useParentTargets then s.SendAll peer else (s.emit [.joined peer]).SendAll peer

def AddRoutingTarget (s : StateBag) (peer : Nat) : StateBag :=
  if peer ∈ s.m_routingTargets then s
  else greet { s with m_routingTargets := insert peer s.m_routingTargets } peer

def RemoveRoutingTarget (s : StateBag) (peer : Nat) : StateBag :=
  { s with m_routingTargets := s.m_routingTargets.erase peer }

def SetRoutingTargets (s : StateBag) (peers : Finset Nat) : StateBag :=
  ((peers \ s.m_routingTargets).sort (· ≤ ·)).foldl greet { s with m_routingTargets := peers }

def LeavesOut (s : StateBag) (target : Nat) : Prop :=
  s.m_routingTargets.Nonempty ∧ target ∉ s.m_routingTargets

instance (s : StateBag) (target : Nat) : Decidable (s.LeavesOut target) :=
  inferInstanceAs (Decidable (_ ∧ _))

def SendAllInitial (s : StateBag) (target : Nat) : StateBag :=
  if s.LeavesOut target then s else s.SendAll target

def RegisterTarget (s : StateBag) (id : Nat) : StateBag :=
  if id ∈ s.parentTargets then s
  else
    let added := { s with parentTargets := insert id s.parentTargets }
    (if s.m_useParentTargets then added.emit [.joined id] else added).SendAllInitial id

def UnregisterTarget (s : StateBag) (id : Nat) : StateBag :=
  { s with parentTargets := s.parentTargets.erase id }.RemoveRoutingTarget id

def filled (s : StateBag) (key : Key) (old : Option Value) : Option Value :=
  if key = "" then old
  else match s.m_data.lookup key with
    | some v => if s.Carries key v then v.held else old
    | none => old

variable {s : StateBag}

theorem greetSame (s : StateBag) (peer : Nat) : ∃ o, s.greet peer = s.emit o := by
  unfold greet SendAll
  split
  · exact ⟨_,rfl⟩
  · exact ⟨_,by simp only [emit,List.append_assoc]; rfl⟩

def tells (t : Nat) (k : Key) : Output → Prop
  | .update t' k' _ => t' = t ∧ k' = k
  | .cut t' k' => t' = t ∧ k' = k
  | .joined _ => False

def Told (output : List Output) (t : Nat) (k : Key) : Prop := ∃ o ∈ output, tells t k o

/-- Next to what `s` had sent, `s'` has sent packets of named keys only that `source` has. -/
def Adds (s s' : StateBag) (source : Key → Prop) : Prop :=
  ∀ t k, Told s'.output t k → Told s.output t k ∨ (k ≠ "" ∧ source k)

theorem Adds.trans {s s' s'' : StateBag} {source : Key → Prop} (first : Adds s s' source) (second : Adds s' s'' source) :
    Adds s s'' source := fun t k told => (second t k told).elim (first t k) .inr

theorem Adds.mono {s s' : StateBag} {source more : Key → Prop} (adds : Adds s s' source)
    (weaker : ∀ k, k ≠ "" → source k → more k) : Adds s s' more :=
  fun t k told => (adds t k told).imp_right (fun new => ⟨new.1,weaker k new.1 new.2⟩)

theorem greetAllSame (s : StateBag) (peers : List Nat) : ∃ o, peers.foldl greet s = s.emit o := by
  induction peers generalizing s with
  | nil => exact ⟨[],by simp [emit]⟩
  | cons p rest ih =>
    obtain ⟨first,same⟩ := greetSame s p
    obtain ⟨later,eq⟩ := ih (s.greet p)
    exact ⟨first ++ later,by rw [List.foldl_cons,eq,same]; simp [emit]⟩

theorem registerSame {id : Nat} (fresh : id ∉ s.parentTargets) :
    ∃ o, s.RegisterTarget id = emit { s with parentTargets := insert id s.parentTargets } o := by
  unfold RegisterTarget SendAllInitial SendAll
  rw [if_neg fresh]
  dsimp only
  split <;> split
  · exact ⟨_,rfl⟩
  · exact ⟨_,by simp only [emit,List.append_assoc]; rfl⟩
  · exact ⟨[],by simp [emit]⟩
  · exact ⟨_,rfl⟩

end StateBag

inductive BagOp where
  | set (allowed : Bool) (key : Key) (value : Value) (replicated : Bool)
  | enable (enabled : Bool)
  | flush
  | addTarget (peer : Nat)
  | removeTarget (peer : Nat)
  | setTargets (peers : Finset Nat)
  | registerTarget (id : Nat)
  | unregisterTarget (id : Nat)

/-- A bag with the keys that were ever replicated, those whose last change was, those put aside, and the changes since the
last flush. -/
structure Traced where
  bag : StateBag
  shared : Finset Key
  due : Finset Key
  waiting : Finset Key
  changes : List Change

namespace Traced

def start (m_role : StateBagRole) (m_id : String) (useParentTargets : Bool) (parentTargets routingTargets : Finset Nat) : Traced :=
  ⟨.init m_role m_id useParentTargets parentTargets routingTargets,∅,∅,∅,[]⟩

def set (s : Traced) (key : Key) (value : Value) (replicated : Bool) : Traced :=
  let bag := s.bag.SetKeyInternal key value replicated
  let changed := s.bag.m_data.lookup key ≠ value.held
  let changes := s.bag.changed s.changes key value replicated
  if replicated then
    { bag := bag, shared := insert key s.shared, due := insert key s.due, changes := changes,
      waiting :=
        if s.bag.m_replicationEnabled then s.waiting.erase key
        else if changed then insert key s.waiting
        else s.waiting }
  else { s with bag := bag, due := if changed then s.due.erase key else s.due, changes := changes }

def step (s : Traced) : BagOp → Traced
  | .set allowed key value replicated => if allowed then s.set key value replicated else s
  | .enable enabled => { s with bag := s.bag.EnableImmediateReplication enabled }
  | .flush => { s with bag := s.bag.SendQueuedUpdates, waiting := ∅, changes := [] }
  | .addTarget peer => { s with bag := s.bag.AddRoutingTarget peer }
  | .removeTarget peer => { s with bag := s.bag.RemoveRoutingTarget peer }
  | .setTargets peers => { s with bag := s.bag.SetRoutingTargets peers }
  | .registerTarget id => { s with bag := s.bag.RegisterTarget id }
  | .unregisterTarget id => { s with bag := s.bag.UnregisterTarget id }

open StateBag

def Delivered (s : Traced) : Prop :=
  ∀ t ∈ s.bag.targets, ∀ k ∈ s.due, k ∉ s.waiting → s.bag.replica t k = s.bag.m_data.lookup k

structure Kept (s : Traced) : Prop where
  tracked : Tracked s.bag s.changes
  queued : ∀ k v, firstQueued s.changes k = some v → k ∈ s.shared
  waits : ∀ k ∈ s.waiting, ∃ v, firstQueued s.changes k = some v
  named : ∀ t k, Told s.bag.output t k → k ≠ ""
  held : ∀ k v, s.bag.m_data.lookup k = some v → v.held = some v

theorem inboxTold {t : Nat} {output : List Output} : ∀ u ∈ inbox t output, Told output t u.1 := by
  refine foldKeeps (fun box : List (Key × Option Value) => ∀ u ∈ box, Told output t u.1)
    (fun box o mem kept u within => ?_) (fun u mem => absurd mem List.not_mem_nil)
  cases o with
  | cut t' k => exact kept u within
  | joined t' =>
    by_cases here : t' = t
    · simp [receive,here] at within
    · exact kept u (by simpa [receive,here] using within)
  | update t' k v =>
    by_cases here : t' = t
    · subst here
      rcases List.mem_append.mp (by simpa only [receive,if_true] using within) with old | new
      · exact kept u old
      · cases List.mem_singleton.mp new
        exact ⟨_,mem,rfl,rfl⟩
    · exact kept u (by simpa [receive,here] using within)

theorem replicaUnsent {s : StateBag} {t : Nat} {k : Key} (untold : ¬Told s.output t k) : s.replica t k = none :=
  replayAbsent (fun u mem same => untold (same ▸ inboxTold u mem))

theorem Kept.unnamed {s : Traced} (kept : Kept s) (t : Nat) : s.bag.replica t "" = none :=
  replicaUnsent (fun told => kept.named t "" told rfl)

theorem setCases (s : Traced) (key : Key) (value : Value) (replicated : Bool) :
    (s.bag.m_data.lookup key = value.held ∧ s.set key value replicated =
      if replicated then
        { s with shared := insert key s.shared, due := insert key s.due,
                 waiting := if s.bag.m_replicationEnabled then s.waiting.erase key else s.waiting }
      else s) ∨
    (s.bag.m_data.lookup key ≠ value.held ∧ ∃ d : Table Key Value,
      (∀ k, d.lookup k = if k = key then value.held else s.bag.m_data.lookup k) ∧
      s.set key value replicated =
        if replicated then
          { bag := { s.bag with m_data := d }.replicate key value,
            shared := insert key s.shared, due := insert key s.due,
            waiting := if s.bag.m_replicationEnabled then s.waiting.erase key
              else insert key s.waiting,
            changes := s.bag.changed s.changes key value true }
        else { s with bag := { s.bag with m_data := d }, due := s.due.erase key,
                      changes := s.bag.changed s.changes key value false }) := by
  rcases setKeyCases s.bag key value replicated with ⟨same,eq⟩ | ⟨differ,d,written,eq⟩
  · refine .inl ⟨same,?_⟩
    unfold set changed
    rw [eq]
    cases replicated <;> simp [same]
  · refine .inr ⟨differ,d,written,?_⟩
    unfold set
    rw [eq]
    cases replicated <;> simp [differ]

section
variable {s : Traced}

section
variable (kept : Kept s)
include kept

end

end

theorem heldHeld (value v : Value) (held : value.held = some v) : v.held = some v := by
  unfold Value.held at held ⊢
  cases nil : value.isNilData with
  | true => simp [nil] at held
  | false =>
    simp only [nil,Bool.false_eq_true,if_false,Option.some.injEq] at held
    simp [← held,nil]

variable {s : Traced}

theorem keptSet (kept : Kept s) (key : Key) (value : Value) (replicated : Bool)
    (named : ∀ t k, Told (s.set key value replicated).bag.output t k → k ≠ "") : Kept (s.set key value replicated) := by
  have tracked : Tracked (s.set key value replicated).bag (s.set key value replicated).changes := by
    have next := kept.tracked.set key value replicated
    unfold set
    cases replicated <;> exact next
  rcases setCases s key value replicated with ⟨_,eq⟩ | ⟨differ,d,written,eq⟩
  · rw [eq] at tracked named ⊢
    cases replicated with
    | false => exact kept
    | true =>
      refine ⟨tracked,fun k v queued => Finset.mem_insert_of_mem (kept.queued k v queued),fun k waits => kept.waits k ?_,
        named,kept.held⟩
      revert waits
      cases s.bag.m_replicationEnabled with
      | true => exact fun waits => Finset.mem_of_mem_erase waits
      | false => exact id
  · have held : ∀ k v, d.lookup k = some v → v.held = some v := by
      intro k v found
      rw [written k] at found
      split at found
      · exact heldHeld value v found
      · exact kept.held k v found
    have first (replicated : Bool) (k : Key) : firstQueued (s.bag.changed s.changes key value replicated) k =
        (firstQueued s.changes k).or (if (replicated && !s.bag.m_replicationEnabled) ∧ key = k then some value else none) := by
      rw [changed,if_neg differ,firstAppend]
    rw [eq] at tracked named ⊢
    cases replicated with
    | false => exact ⟨tracked,fun k v queued => kept.queued k v (by simpa [first] using queued),
        fun k waits => (kept.waits k waits).imp (fun v found => by simp [first,found]),named,held⟩
    | true =>
      refine ⟨tracked,fun k v queued => ?_,fun k waits => ?_,named,fun k v found => held k v ?_⟩
      · simp only [if_true,first,Option.or_eq_some_iff] at queued
        rcases queued with before | ⟨_,new⟩
        · exact Finset.mem_insert_of_mem (kept.queued k v before)
        · split at new
          · rename_i own
            exact Finset.mem_insert.mpr (.inl own.2.symm)
          · cases new
      · simp only [if_true,first] at waits ⊢
        cases before : firstQueued s.changes k with
        | some v => exact ⟨v,rfl⟩
        | none =>
          have fresh : k ∉ s.waiting := fun waits => by
            obtain ⟨v,found⟩ := kept.waits k waits
            cases before.symm.trans found
          cases enabled : s.bag.m_replicationEnabled with
          | true => exact absurd (by simpa [enabled] using waits) (fun both : k ≠ key ∧ k ∈ s.waiting => fresh both.2)
          | false =>
            have own : k = key := by simpa [enabled,fresh] using waits
            exact ⟨value,by simp [own]⟩
      · exact (congrArg (AList.lookup k) (replicateData { s.bag with m_data := d } key value)).symm.trans found

theorem keptSending (kept : Kept s) {bag : StateBag} (queue : bag.m_replicateData = s.bag.m_replicateData)
    (data : bag.m_data = s.bag.m_data) (named : ∀ t k, Told bag.output t k → k ≠ "") : Kept { s with bag := bag } :=
  ⟨⟨fun k => (congrArg (AList.lookup k) queue).trans (kept.tracked.queue k),
      fun k w last => (congrArg (AList.lookup k) data).trans (kept.tracked.last k w last),kept.tracked.known⟩,
    kept.queued,kept.waits,named,fun k v found => kept.held k v (data ▸ found)⟩

theorem keptStep (kept : Kept s) (op : BagOp) (named : ∀ t k, Told (s.step op).bag.output t k → k ≠ "") :
    Kept (s.step op) := by
  cases op with
  | set allowed key value replicated =>
    cases allowed with
    | false => exact kept
    | true => exact keptSet kept key value replicated named
  | flush =>
    have data : s.bag.SendQueuedUpdates.m_data = s.bag.m_data := by rw [sendQueuedUpdates]; rfl
    exact ⟨.flushed s.bag,nofun,fun k waits => absurd waits (Finset.notMem_empty k),named,fun k v found => kept.held k v (data ▸ found)⟩
  | addTarget peer =>
    have same : (s.bag.AddRoutingTarget peer).m_replicateData = s.bag.m_replicateData ∧ (s.bag.AddRoutingTarget peer).m_data = s.bag.m_data := by
      unfold AddRoutingTarget
      split
      · exact ⟨rfl,rfl⟩
      · obtain ⟨o,eq⟩ := greetSame { s.bag with m_routingTargets := insert peer s.bag.m_routingTargets } peer
        rw [eq]
        exact ⟨rfl,rfl⟩
    exact keptSending kept same.1 same.2 named
  | setTargets peers =>
    obtain ⟨o,eq⟩ := greetAllSame { s.bag with m_routingTargets := peers } ((peers \ s.bag.m_routingTargets).sort (· ≤ ·))
    have same : (s.bag.SetRoutingTargets peers).m_replicateData = s.bag.m_replicateData ∧
        (s.bag.SetRoutingTargets peers).m_data = s.bag.m_data := by
      unfold SetRoutingTargets
      rw [eq]
      exact ⟨rfl,rfl⟩
    exact keptSending kept same.1 same.2 named
  | registerTarget id =>
    have same : (s.bag.RegisterTarget id).m_replicateData = s.bag.m_replicateData ∧ (s.bag.RegisterTarget id).m_data = s.bag.m_data := by
      by_cases known : id ∈ s.bag.parentTargets
      · rw [show s.bag.RegisterTarget id = s.bag from if_pos known]
        exact ⟨rfl,rfl⟩
      · obtain ⟨o,eq⟩ := registerSame known
        rw [eq]
        exact ⟨rfl,rfl⟩
    exact keptSending kept same.1 same.2 named
  | enable _ | removeTarget _ | unregisterTarget _ => exact keptSending kept rfl rfl named

section
variable (m_role : StateBagRole) (m_id : String) (useParentTargets : Bool) (parentTargets routingTargets : Finset Nat)

end

end Traced
end Citizen.Bags
