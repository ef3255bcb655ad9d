import Citizen.Registry.ConnectedCount

/-! What the removal of a client takes out of the tables, and what it must not. -/
namespace Citizen.Registry.ClientRegistry

def GetClientByGuid (s : ClientRegistry) (guid : Text) : Option Handle := s.m_clients.lookup guid

def GetClientByPeer (s : ClientRegistry) (peer : Int) : Option Handle := s.lock (s.m_clientsByPeer peer)

def GetClientByNetID (s : ClientRegistry) (netId : BitVec 32) : Option Handle := s.lock (s.m_clientsByNetId netId)

def GetClientByConnectionToken (s : ClientRegistry) (token : Text) : Option Handle :=
  s.lock (s.m_clientsByConnectionToken token)

def clientsBySlotId (s : ClientRegistry) (slotId : Nat) : Option Handle :=
  if slotId < s.slots then s.m_clientsBySlotId slotId else none

def GetClientBySlotID (s : ClientRegistry) (slotId : Nat) : Option Handle := s.lock (s.clientsBySlotId slotId)

structure RemovesExactly (s : ClientRegistry) (c : Handle) : Prop where
  guid : ∀ guid, (s.RemoveClient c).GetClientByGuid guid = (s.GetClientByGuid guid).filter (· ≠ c)
  netId : ∀ netId, (s.RemoveClient c).GetClientByNetID netId = (s.GetClientByNetID netId).filter (· ≠ c)
  peer : ∀ peer, (s.RemoveClient c).GetClientByPeer peer = (s.GetClientByPeer peer).filter (· ≠ c)
  slot : ∀ slotId, (s.RemoveClient c).GetClientBySlotID slotId = (s.GetClientBySlotID slotId).filter (· ≠ c)
  token : ∀ token, (s.RemoveClient c).GetClientByConnectionToken token =
    (s.GetClientByConnectionToken token).filter (· ≠ c)
  hash : ∀ hash, (s.RemoveClient c).lock ((s.RemoveClient c).m_clientsByConnectionTokenHash hash) =
    (s.lock (s.m_clientsByConnectionTokenHash hash)).filter (· ≠ c)

variable {κ : Type}

def Alone (s : ClientRegistry) (c : Handle) (table : κ → Option Handle) (reset : κ → Prop) : Prop :=
  (∀ k, reset k → ∀ d, s.lock (table k) = some d → d = c) ∧ (c ∈ s.held → ∀ k, ¬reset k → table k ≠ some c)

structure OwnKeys (s : ClientRegistry) (c : Handle) : Prop where
  guid : ∀ d, s.GetClientByGuid (s.objects c).m_guid = some d → d = c
  otherGuid : ∀ guid ≠ (s.objects c).m_guid, s.GetClientByGuid guid ≠ some c
  netId : Alone s c s.m_clientsByNetId (fun netId =>
    netId = (s.objects c).m_netId ∨ (s.objects c).HasPreviousNetId ∧ netId = (s.objects c).m_previousNetId)
  peer : Alone s c s.m_clientsByPeer (· = (s.objects c).GetPeer)
  slot : Alone s c s.clientsBySlotId (· = (s.objects c).m_slotId.toNat)
  token : Alone s c s.m_clientsByConnectionToken (· = (s.objects c).m_connectionToken)
  hash : Alone s c s.m_clientsByConnectionTokenHash (· = HashString (cStr (s.objects c).m_connectionToken))

variable {s : ClientRegistry} {c d : Handle}

structure Outlives (s s' : ClientRegistry) (c : Handle) : Prop where
  others : ∀ d ≠ c, s'.Alive d ↔ s.Alive d
  self : s'.Alive c ↔ c ∈ s.held

theorem lockSome (s : ClientRegistry) (d : Handle) : s.lock (some d) = if s.Alive d then some d else none := by
  rw [lock,Option.filter_some]
  simp only [decide_eq_true_iff]

theorem filterSelf (c : Handle) : (some c).filter (· ≠ c) = none := by simp [Option.filter_some]

theorem filterOther (other : d ≠ c) : (some d).filter (· ≠ c) = some d := by simp [Option.filter_some,other]

theorem exactTable {s' : ClientRegistry} (outlives : Outlives s s' c) {table table' : κ → Option Handle}
    {reset : κ → Prop} (after : ∀ k, reset k → table' k = none) (before : ∀ k, ¬reset k → table' k = table k) :
    (∀ k, s'.lock (table' k) = (s.lock (table k)).filter (· ≠ c)) ↔ Alone s c table reset := by
  constructor
  · intro exactly
    refine ⟨fun k resets d found => ?_,fun held k kept entered => ?_⟩
    · have taken := exactly k
      rw [after k resets,found] at taken
      by_contra other
      rw [filterOther other] at taken
      cases taken
    · have left := exactly k
      rw [before k kept,entered,lockSome,if_pos (outlives.self.mpr held)] at left
      have differs := (Option.filter_eq_some_iff.mp left.symm).2
      simp at differs
  · rintro ⟨own,sole⟩ k
    by_cases resets : reset k
    · rw [after k resets]
      cases found : s.lock (table k) with
      | none => rfl
      | some d =>
        rw [own k resets d found,filterSelf]
        rfl
    · rw [before k resets]
      cases entry : table k with
      | none => rfl
      | some d =>
        by_cases same : d = c
        · subst same
          have gone : ¬s'.Alive d := fun alive => sole (outlives.self.mp alive) k resets entry
          rw [lockSome,if_neg gone,lockSome]
          split
          · rw [filterSelf]
          · rfl
        · rw [lockSome,lockSome,if_congr (outlives.others d same) rfl rfl]
          split
          · rw [filterOther same]
          · rfl

theorem guidsExact : (∀ guid, (s.RemoveClient c).GetClientByGuid guid = (s.GetClientByGuid guid).filter (· ≠ c)) ↔
    (∀ d, s.GetClientByGuid (s.objects c).m_guid = some d → d = c) ∧
      ∀ guid ≠ (s.objects c).m_guid, s.GetClientByGuid guid ≠ some c := by
  have after (guid : Text) : (s.RemoveClient c).GetClientByGuid guid =
      if guid = (s.objects c).m_guid then none else s.GetClientByGuid guid := by
    rw [GetClientByGuid,clientsRemoved,Table.lookupErase]
    rfl
  constructor
  · intro exactly
    refine ⟨fun d found => ?_,fun guid other found => ?_⟩
    · have taken := exactly (s.objects c).m_guid
      rw [after,if_pos rfl,found] at taken
      by_contra differs
      rw [filterOther differs] at taken
      cases taken
    · have left := exactly guid
      rw [after,if_neg other,found,filterSelf] at left
      cases left
  · rintro ⟨own,sole⟩ guid
    rw [after]
    split
    · rename_i same
      subst same
      cases found : s.GetClientByGuid (s.objects c).m_guid with
      | none => rfl
      | some d => rw [own d found,filterSelf]
    · rename_i other
      cases found : s.GetClientByGuid guid with
      | none => rfl
      | some d =>
        have differs : d ≠ c := fun same => sole guid other (same ▸ found)
        rw [filterOther differs]

theorem outlivesRemoved (guid : ∀ d, s.GetClientByGuid (s.objects c).m_guid = some d → d = c) :
    Outlives s (s.RemoveClient c) c := by
  have registered (d : Handle) : (s.RemoveClient c).Registered d ↔ d ≠ c ∧ s.Registered d := by
    refine ⟨registeredRemoved,fun both => ?_⟩
    have other : (s.objects d).m_guid ≠ (s.objects c).m_guid := fun same =>
      both.1 (guid d (same ▸ both.2))
    rw [Registered,guidRemoved,clientsRemoved,AList.lookup_erase_ne other]
    exact both.2
  refine ⟨fun d other => ?_,?_⟩
  · rw [Alive,Alive,registered]
    simp only [other,ne_eq,not_false_eq_true,true_and]
    exact Iff.rfl
  · rw [Alive,registered]
    simp only [ne_eq,not_true_eq_false,false_and,or_false]
    exact Iff.rfl

section Tables
variable (outlives : Outlives s (s.RemoveClient c) c)
include outlives

theorem updateExact [DecidableEq κ] {table : κ → Option Handle} {key : κ} :
    (∀ k, (s.RemoveClient c).lock (Function.update table key none k) = (s.lock (table k)).filter (· ≠ c)) ↔
      Alone s c table (· = key) :=
  exactTable outlives (fun k same => by rw [same,Function.update_self]) (fun k other => Function.update_of_ne other _ _)

theorem netIdExact : (∀ netId, (s.RemoveClient c).GetClientByNetID netId = (s.GetClientByNetID netId).filter (· ≠ c)) ↔
    Alone s c s.m_clientsByNetId (fun netId =>
      netId = (s.objects c).m_netId ∨ (s.objects c).HasPreviousNetId ∧ netId = (s.objects c).m_previousNetId) := by
  have table (netId : BitVec 32) : (s.RemoveClient c).m_clientsByNetId netId =
      if netId = (s.objects c).m_netId ∨ (s.objects c).HasPreviousNetId ∧ netId = (s.objects c).m_previousNetId then none
      else s.m_clientsByNetId netId := by
    unfold RemoveClient
    dsimp only
    split
    · rename_i has
      simp only [Function.update_apply,has,true_and]
      split <;> simp_all
    · rename_i without
      simp only [Function.update_apply,without,false_and,or_false]
  exact exactTable outlives (fun k resets => by rw [table,if_pos resets]) (fun k kept => by rw [table,if_neg kept])

theorem slotExact : (∀ slotId, (s.RemoveClient c).GetClientBySlotID slotId = (s.GetClientBySlotID slotId).filter (· ≠ c)) ↔
    Alone s c s.clientsBySlotId (· = (s.objects c).m_slotId.toNat) := by
  have table (slotId : Nat) : (s.RemoveClient c).clientsBySlotId slotId =
      if slotId = (s.objects c).m_slotId.toNat then none else s.clientsBySlotId slotId := by
    have size : (s.RemoveClient c).slots = s.slots := rfl
    unfold clientsBySlotId
    rw [size]
    unfold RemoveClient
    dsimp only
    by_cases below : (s.objects c).m_slotId.toNat < s.slots
    · by_cases same : slotId = (s.objects c).m_slotId.toNat <;> simp [same,below]
    · by_cases same : slotId = (s.objects c).m_slotId.toNat <;> simp [same,below]
  exact exactTable outlives (fun k resets => by rw [table,if_pos resets]) (fun k kept => by rw [table,if_neg kept])

end Tables

theorem removalExact (s : ClientRegistry) (c : Handle) : RemovesExactly s c ↔ OwnKeys s c := by
  constructor
  · intro exactly
    obtain ⟨guid,otherGuid⟩ := guidsExact.mp exactly.guid
    have outlives := outlivesRemoved guid
    exact ⟨guid,otherGuid,(netIdExact outlives).mp exactly.netId,(updateExact outlives).mp exactly.peer,
      (slotExact outlives).mp exactly.slot,(updateExact outlives).mp exactly.token,(updateExact outlives).mp exactly.hash⟩
  · intro own
    have outlives := outlivesRemoved own.guid
    have peer := (updateExact outlives).mpr own.peer
    have token := (updateExact outlives).mpr own.token
    have hash := (updateExact outlives).mpr own.hash
    exact ⟨guidsExact.mpr ⟨own.guid,own.otherGuid⟩,(netIdExact outlives).mpr own.netId,peer,
      (slotExact outlives).mpr own.slot,token,hash⟩

theorem supersededRemoval : ¬∀ operations c, (run step (construct false false) operations).Alive c →
    RemovesExactly (run step (construct false false) operations) c := by
  intro claimed
  have exactly := claimed [.makeClient (text "a"),.removeClient 0,.makeClient (text "a")] 0 (by decide)
  have found := exactly.guid (text "a")
  exact absurd found (by decide)

end Citizen.Registry.ClientRegistry
