import Mathlib.Data.Finset.Sort
import Citizen.Lib.Replay
import Citizen.Lib.Run
import Citizen.Lib.Table

/-! A state bag: `StateBagImpl` with its own routing targets or those of its parent, the
values it holds, and the queue of updates while immediate replication is off. -/
namespace Citizen.Bags

abbrev Key := String

structure Value where
  first : UInt8
  rest : List UInt8
  deriving DecidableEq, Repr

def MsgPackNil : UInt8 := 0xc0
def Value.isNilData (v : Value) : Bool := v.first == MsgPackNil

def Value.held (v : Value) : Option Value := if v.isNilData then none else some v

inductive StateBagRole where
  | Client
  | ClientV2
  | Server
  deriving DecidableEq, Repr

def capacity : Nat := 131072

inductive Output where
  | joined (target : Nat)
  | update (target : Nat) (key : Key) (value : Value)
  /-- A packet of the older kind without room for the value, or with a string whose length comes round. What the target makes of it
  is left open. -/
  | cut (target : Nat) (key : Key)
  deriving DecidableEq, Repr

-- A character of `m_id` and of a key is a byte.
structure StateBag where
  m_role : StateBagRole
  m_id : String
  m_useParentTargets : Bool
  parentTargets : Finset Nat
  m_routingTargets : Finset Nat
  m_data : Table Key Value
  m_replicationEnabled : Bool
  m_replicateData : Table Key Value
  output : List Output

namespace StateBag

def init (m_role : StateBagRole) (m_id : String) (useParentTargets : Bool) (parentTargets routingTargets : Finset Nat) : StateBag :=
  ⟨m_role,m_id,useParentTargets,parentTargets,routingTargets,∅,true,∅,[]⟩

def targets (s : StateBag) : Finset Nat :=
  if s.m_useParentTargets then s.parentTargets else s.m_routingTargets

def emit (s : StateBag) (output : List Output) : StateBag :=
  { s with output := s.output ++ output }

/-- The packet has the value under its key: the newer one always, the older one when the value fits into the buffer behind
the two strings, each with a length of two bytes and a zero. -/
def Carries (s : StateBag) (key : Key) (value : Value) : Prop :=
  s.m_role = .ClientV2 ∨ s.m_id.length < 65535 ∧ key.length < 65535 ∧
    s.m_id.length + key.length + (value.rest.length + 1) + 6 ≤ capacity

instance (s : StateBag) (key : Key) (value : Value) : Decidable (s.Carries key value) := inferInstanceAs (Decidable (_ ∨ _))

def packet (s : StateBag) (target : Nat) (key : Key) (value : Value) : Output :=
  if s.Carries key value then .update target key value else .cut target key

-- An empty key is not sent; packed data are never empty.
def SendKeyValue (s : StateBag) (target : Nat) (key : Key) (value : Value) : List Output :=
  if key = "" then [] else [s.packet target key value]

def toAllTargets (s : StateBag) (key : Key) (value : Value) : List Output :=
  (s.targets.sort (· ≤ ·)).flatMap (fun target => s.SendKeyValue target key value)

def SendKeyValueToAllTargets (s : StateBag) (key : Key) (value : Value) : StateBag :=
  s.emit (s.toAllTargets key value)

def emplace (t : Table Key Value) (key : Key) (value : Value) : Table Key Value :=
  if (t.lookup key).isSome then t else t.insert key value

def replicate (s : StateBag) (key : Key) (data : Value) : StateBag :=
  if s.m_replicationEnabled then s.SendKeyValueToAllTargets key data
  else { s with m_replicateData := emplace s.m_replicateData key data }

def SetKeyInternal (s : StateBag) (key : Key) (data : Value) (replicated : Bool) : StateBag :=
  match s.m_data.lookup key with
  | some old =>
    if data.isNilData then
      let erased := { s with m_data := s.m_data.erase key }
      if replicated then erased.replicate key data else erased
    else if data ≠ old then
      let changed := { s with m_data := s.m_data.insert key data }
      if replicated then changed.replicate key data else changed
    else s
  | none =>
    if data.isNilData then s
    else
      let added := { s with m_data := s.m_data.insert key data }
      if replicated then added.replicate key data else added

def SetKey (s : StateBag) (allowed : Bool) (key : Key) (data : Value) (replicated : Bool) : StateBag :=
  if allowed then s.SetKeyInternal key data replicated else s

def EnableImmediateReplication (s : StateBag) (enabled : Bool) : StateBag :=
  { s with m_replicationEnabled := enabled }

def SendQueuedUpdates (s : StateBag) : StateBag :=
  s.m_replicateData.entries.foldl (fun s entry => s.SendKeyValueToAllTargets entry.1 entry.2)
    { s with m_replicateData := ∅ }

def SendAll (s : StateBag) (target : Nat) : StateBag :=
  s.emit (s.m_data.entries.flatMap (fun entry => s.SendKeyValue target entry.1 entry.2))

def receive (target : Nat) (box : List (Key × Option Value)) : Output → List (Key × Option Value)
  | .joined t => if t = target then [] else box
  | .update t key value => if t = target then box ++ [(key,value.held)] else box
  | .cut .. => box

def inbox (target : Nat) (output : List Output) : List (Key × Option Value) :=
  output.foldl (receive target) []

def replica (s : StateBag) (target : Nat) : Key → Option Value :=
  replay (fun _ => none) (inbox target s.output)

section
variable {s : StateBag} {target : Nat} {extra : List Output}

end

variable {s : StateBag}

theorem updatePacket {t t' : Nat} {k key : Key} {v value : Value} :
    .update t k v = s.packet t' key value ↔ s.Carries key value ∧ t = t' ∧ k = key ∧ v = value := by
  unfold packet
  split
  · rename_i carries
    simp [carries]
  · rename_i lost
    simp [lost]

theorem sendQueuedUpdates (s : StateBag) :
    s.SendQueuedUpdates = { s with m_replicateData := ∅ }.emit
      (s.m_replicateData.entries.flatMap (fun entry : Σ _ : Key, Value => s.toAllTargets entry.1 entry.2)) := by
  have each : ∀ (entries : List (Σ _ : Key, Value)) (s' : StateBag),
      entries.foldl (fun s entry => s.SendKeyValueToAllTargets entry.1 entry.2) s' =
        s'.emit (entries.flatMap (fun entry => s'.toAllTargets entry.1 entry.2)) := by
    intro entries
    induction entries with
    | nil => intro s'; simp [emit]
    | cons e rest ih =>
      intro s'
      have same (key : Key) (value : Value) :
          (s'.SendKeyValueToAllTargets e.1 e.2).toAllTargets key value = s'.toAllTargets key value := rfl
      rw [List.foldl_cons,ih]
      simp only [same]
      simp [SendKeyValueToAllTargets,emit]
  exact each _ _

theorem lookupEmplace (t : Table Key Value) (key k : Key) (value : Value) :
    (emplace t key value).lookup k =
      if k = key then some ((t.lookup key).getD value) else t.lookup k := by
  unfold emplace
  split
  · rename_i there
    obtain ⟨old,found⟩ := Option.isSome_iff_exists.mp there
    by_cases same : k = key
    · subst same
      simp [found]
    · simp [same]
  · rename_i absent
    have none : t.lookup key = none := by simpa using absent
    rw [Table.lookupInsert,none]
    rfl

theorem setKeyCases (s : StateBag) (key : Key) (data : Value) (replicated : Bool) :
    (s.m_data.lookup key = data.held ∧ s.SetKeyInternal key data replicated = s) ∨
    (s.m_data.lookup key ≠ data.held ∧ ∃ d : Table Key Value,
      (∀ k, d.lookup k = if k = key then data.held else s.m_data.lookup k) ∧
      s.SetKeyInternal key data replicated =
        if replicated then { s with m_data := d }.replicate key data
        else { s with m_data := d }) := by
  have written (k : Key) : (s.m_data.insert key data).lookup k = if k = key then some data else s.m_data.lookup k :=
    Table.lookupInsert _ _ _ _
  have erased (k : Key) : (s.m_data.erase key).lookup k = if k = key then none else s.m_data.lookup k :=
    Table.lookupErase _ _ _
  unfold SetKeyInternal Value.held
  cases nil : data.isNilData with
  | true =>
    cases found : s.m_data.lookup key with
    | none => exact .inl ⟨rfl,rfl⟩
    | some old => exact .inr ⟨by simp,_,erased,rfl⟩
  | false =>
    cases found : s.m_data.lookup key with
    | none => exact .inr ⟨by simp,_,written,rfl⟩
    | some old =>
      by_cases changed : data ≠ old
      · refine .inr ⟨by simpa using Ne.symm changed,_,written,?_⟩
        simp [changed]
      · have same := Classical.not_not.mp changed
        subst same
        exact .inl ⟨rfl,by simp⟩

end StateBag
end Citizen.Bags
