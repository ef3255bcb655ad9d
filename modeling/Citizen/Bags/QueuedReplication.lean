import Citizen.Bags.StateBag

/-! Writes, mode switches and flushes on one bag, and what a target holds after a flush. -/
namespace Citizen.Bags

structure Change where
  key : Key
  value : Value
  queued : Bool
  deriving DecidableEq, Repr

def firstQueued (changes : List Change) (k : Key) : Option Value :=
  (changes.find? (fun c => c.queued && c.key == k)).map Change.value

def lastChange (changes : List Change) (k : Key) : Option Value :=
  (changes.reverse.find? (fun c => c.key == k)).map Change.value

/-- What was put aside first for a key is what was written to it last. -/
def SettledAt (changes : List Change) (k : Key) : Prop :=
  ∀ v w, firstQueued changes k = some v → lastChange changes k = some w → v.held = w.held

theorem firstAppend (changes : List Change) (c : Change) (k : Key) :
    firstQueued (changes ++ [c]) k = (firstQueued changes k).or (if c.queued ∧ c.key = k then some c.value else none) := by
  unfold firstQueued
  rw [List.find?_append,List.find?_singleton]
  cases changes.find? (fun c => c.queued && c.key == k) with
  | none => by_cases own : c.queued ∧ c.key = k <;> simp [own]
  | some _ => rfl

theorem lastAppend (changes : List Change) (c : Change) (k : Key) :
    lastChange (changes ++ [c]) k = if c.key = k then some c.value else lastChange changes k := by
  unfold lastChange
  rw [List.reverse_append,List.reverse_singleton,List.singleton_append,List.find?_cons]
  cases own : c.key == k with
  | true => simp [beq_iff_eq.mp own]
  | false => simp [beq_eq_false_iff_ne.mp own]

namespace StateBag

/-- The changes since the last flush, and what they have made of the bag's tables. -/
structure Tracked (s : StateBag) (changes : List Change) : Prop where
  queue : ∀ k, s.m_replicateData.lookup k = firstQueued changes k
  last : ∀ k w, lastChange changes k = some w → s.m_data.lookup k = w.held
  known : ∀ k v, firstQueued changes k = some v → ∃ w, lastChange changes k = some w

theorem Tracked.flushed (s : StateBag) : Tracked s.SendQueuedUpdates [] := by
  rw [sendQueuedUpdates]
  exact ⟨fun _ => rfl,nofun,nofun⟩

/-- The changes with a call of `SetKey` that is not refused. -/
def changed (s : StateBag) (changes : List Change) (key : Key) (value : Value) (replicated : Bool) : List Change :=
  if s.m_data.lookup key = value.held then changes
  else changes ++ [⟨key,value,replicated && !s.m_replicationEnabled⟩]

theorem replicateData (s : StateBag) (key : Key) (value : Value) : (s.replicate key value).m_data = s.m_data := by
  unfold replicate
  split <;> rfl

theorem Tracked.set {s : StateBag} {changes : List Change} (tracked : Tracked s changes) (key : Key) (value : Value)
    (replicated : Bool) : Tracked (s.SetKeyInternal key value replicated) (s.changed changes key value replicated) := by
  rcases setKeyCases s key value replicated with ⟨same,eq⟩ | ⟨differ,d,written,eq⟩
  · rw [eq,changed,if_pos same]
    exact tracked
  · rw [eq,changed,if_neg differ]
    generalize queuedEq : (replicated && !s.m_replicationEnabled) = queued
    have data : (if replicated then { s with m_data := d }.replicate key value else { s with m_data := d }).m_data = d := by
      split
      · exact replicateData ..
      · rfl
    have queue (k : Key) : (if replicated then { s with m_data := d }.replicate key value else { s with m_data := d }).m_replicateData.lookup k =
        (s.m_replicateData.lookup k).or (if queued ∧ key = k then some value else none) := by
      subst queuedEq
      cases replicated with
      | false => simp
      | true =>
        unfold replicate
        cases enabled : s.m_replicationEnabled with
        | true => simp [SendKeyValueToAllTargets,emit]
        | false =>
          simp only [if_true,Bool.false_eq_true,if_false,Bool.not_false,Bool.and_self,true_and]
          rw [lookupEmplace]
          by_cases here : k = key
          · subst here
            cases s.m_replicateData.lookup k <;> simp
          · rw [if_neg here,if_neg (Ne.symm here),Option.or_none]
    refine ⟨fun k => ?_,fun k w last => ?_,fun k v first => ?_⟩
    · rw [queue,firstAppend,tracked.queue]
    · rw [data,written]
      rw [lastAppend] at last
      split at last
      · rename_i own
        cases last
        exact if_pos own.symm
      · rename_i other
        rw [if_neg (Ne.symm other)]
        exact tracked.last k w last
    · rw [lastAppend]
      split
      · exact ⟨_,rfl⟩
      · rename_i other
        rw [firstAppend,if_neg (fun both => other both.2),Option.or_none] at first
        exact tracked.known k v first

inductive QueueOp where
  | set (allowed : Bool) (key : Key) (value : Value)
  | enable (enabled : Bool)
  | flush
  deriving DecidableEq, Repr

def queueStep (s : StateBag) : QueueOp → StateBag
  | .set allowed key value => s.SetKey allowed key value true
  | .enable enabled => s.EnableImmediateReplication enabled
  | .flush => s.SendQueuedUpdates

def Agrees (target : Nat) (s : StateBag) : Prop :=
  ∀ key, s.replica target key = s.m_data.lookup key

/-- A bag with its changes since the last flush. -/
structure Queued where
  bag : StateBag
  changes : List Change

namespace Queued

def step (s : Queued) (op : QueueOp) : Queued where
  bag := s.bag.queueStep op
  changes := match op with
    | .set true key value => s.bag.changed s.changes key value true
    | .flush => []
    | _ => s.changes

/-- What is to be sent has room in its packet. -/
def Fitting (s : Queued) : QueueOp → Prop
  | .set true key value => s.bag.m_replicationEnabled = true → s.bag.m_data.lookup key ≠ value.held → key ≠ "" →
      s.bag.Carries key value
  | .flush => ∀ k v, k ≠ "" → firstQueued s.changes k = some v → s.bag.Carries k v
  | _ => True

end Queued

variable {s : StateBag}

variable {target : Nat}

def valueOf (n : UInt8) : Value := ⟨n,[]⟩

end StateBag
end Citizen.Bags
