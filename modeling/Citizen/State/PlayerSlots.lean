import Citizen.State.ClientViews

/-! The slots under which a client knows the players in its scope in big mode. -/
namespace Citizen.State

structure SlotMap (playersToSlots : Table ClientId Nat) (playersInScope : Finset Nat) : Prop where
  injective : ∀ p q slot, playersToSlots.lookup p = some slot → playersToSlots.lookup q = some slot →
    p = q
  image : ∀ slot, slot ∈ playersInScope ↔ ∃ p, playersToSlots.lookup p = some slot
  inside : ∀ p slot, playersToSlots.lookup p = some slot → slot ≤ 127 ∧ slot ≠ 31

namespace SlotMap

theorem empty : SlotMap ∅ ∅ := ⟨by simp,by simp,by simp⟩

section
variable {t : Table ClientId Nat} {bits : Finset Nat} (map : SlotMap t bits) {p : ClientId} {slot : Nat}
include map

theorem insert (absent : t.lookup p = none) (free : slot ∉ bits) (inside : slot ≤ 127 ∧ slot ≠ 31) :
    SlotMap (t.insert p slot) (Insert.insert slot bits) := by
  have lookup (q : ClientId) : (t.insert p slot).lookup q = if q = p then some slot else t.lookup q :=
    Table.lookupInsert _ _ _ _
  have unused : ∀ q, t.lookup q ≠ some slot := fun q found => free ((map.image slot).mpr ⟨q,found⟩)
  refine ⟨fun q r s first second => ?_,fun s => ?_,fun q s found => ?_⟩
  · rw [lookup] at first second
    split at first
    · rename_i here
      cases first
      split at second
      · rename_i there
        exact here.trans there.symm
      · exact absurd second (unused r)
    · split at second
      · cases second
        exact absurd first (unused q)
      · exact map.injective q r s first second
  · rw [Finset.mem_insert,map.image s]
    constructor
    · rintro (rfl | ⟨q,found⟩)
      · exact ⟨p,by rw [lookup,if_pos rfl]⟩
      · have other : q ≠ p := fun same => by
          rw [same,absent] at found
          contradiction
        exact ⟨q,by rw [lookup,if_neg other,found]⟩
    · rintro ⟨q,found⟩
      rw [lookup] at found
      split at found
      · cases found
        exact .inl rfl
      · exact .inr ⟨q,found⟩
  · rw [lookup] at found
    split at found
    · cases found
      exact inside
    · exact map.inside q s found

theorem erase (found : t.lookup p = some slot) : SlotMap (t.erase p) (bits.erase slot) := by
  have kept : ∀ q s, (t.erase p).lookup q = some s → q ≠ p ∧ t.lookup q = some s :=
    fun _ _ here => Table.lookupErased here
  refine ⟨fun q r s first second => ?_,fun s => ?_,fun q s here => map.inside q s (kept q s here).2⟩
  · exact map.injective q r s (kept q s first).2 (kept r s second).2
  · rw [Finset.mem_erase,map.image s]
    constructor
    · rintro ⟨other,q,here⟩
      have apart : q ≠ p := fun same => by
        rw [same,found] at here
        exact other (Option.some.inj here).symm
      exact ⟨q,by rw [Table.lookupErase,if_neg apart,here]⟩
    · rintro ⟨q,here⟩
      obtain ⟨apart,here⟩ := kept q s here
      refine ⟨fun same => apart (map.injective q p s here (same ▸ found)),q,here⟩

end

end SlotMap

namespace Server

theorem freePlayerSlotFree {bits : Finset Nat} {limit slot : Nat}
    (found : freePlayerSlot bits limit = some slot) : slot ∉ bits ∧ slot < limit ∧ slot ≠ 31 := by
  induction limit with
  | zero => simp [freePlayerSlot] at found
  | succ n ih =>
    unfold freePlayerSlot at found
    split at found
    · rename_i free
      cases found
      exact ⟨free.2,Nat.lt_succ_self _,free.1⟩
    · obtain ⟨unused,below,other⟩ := ih found
      exact ⟨unused,Nat.lt_succ_of_lt below,other⟩

def scopes (s : Server) (client : ClientId) : Table ClientId Nat × Finset Nat :=
  ((s.data client).playersToSlots,(s.data client).playersInScope)

def Slotted (s : Server) : Prop := ∀ client, SlotMap (s.scopes client).1 (s.scopes client).2

theorem Slotted.same {s s' : Server} (slotted : Slotted s) (eq : s'.scopes = s.scopes) : Slotted s' := by
  unfold Slotted
  rw [eq]
  exact slotted

theorem scopesModifyData (s : Server) (c : ClientId) {f}
    (toSlots : ∀ d : GameStateClientData, (f d).playersToSlots = d.playersToSlots)
    (inScope : ∀ d : GameStateClientData, (f d).playersInScope = d.playersInScope) :
    (s.modifyData c f).scopes = s.scopes :=
  funext (fun c' => Prod.ext (dataModifyKeeps s c c' toSlots) (dataModifyKeeps s c c' inScope))

theorem scopesPersonal : Personal scopes where
  only := fun s s' same => by
    unfold scopes
    rw [same]
  data := fun s c _ kept => scopesModifyData s c (fun d => (kept d).2.2.1) (fun d => (kept d).2.2.2)

theorem scopesCoarse : Coarse scopes := scopesPersonal.baseless.coarse

section
variable {s : Server} (slotted : Slotted s)
include slotted

theorem Slotted.modifyData (c : ClientId) (f)
    (map : SlotMap (f (s.data c)).playersToSlots (f (s.data c)).playersInScope) : Slotted (s.modifyData c f) := by
  intro c'
  by_cases here : c' = c
  · subst here
    unfold scopes
    rw [dataModifySelf]
    exact map
  · unfold scopes
    rw [dataModifyOther _ here]
    exact slotted c'

theorem Slotted.leaveScope (netId client : ClientId) : Slotted (leaveScope netId s client) := by
  unfold Server.leaveScope
  split
  · exact slotted
  · rename_i slot found
    exact slotted.modifyData client _ ((slotted client).erase found)

theorem Slotted.placePlayer (client : ClientId) (e : EntityRef) : Slotted (s.placePlayer client e).2 := by
  unfold Server.placePlayer
  split
  · split
    · exact slotted
    · split
      · exact slotted
      · rename_i absent
        split
        · exact slotted
        · rename_i slot found
          obtain ⟨free,below,other⟩ := freePlayerSlotFree found
          refine Slotted.modifyData slotted client (fun d => { d with
            playersInScope := Insert.insert slot d.playersInScope
            playersToSlots := d.playersToSlots.insert _ slot }) ?_
          exact (slotted client).insert absent free ⟨Nat.le_of_lt_succ below,other⟩
  · exact slotted

theorem Slotted.handleClientDrop (client : ClientId) (now : Nat) (distance)
    (slotId : Option Slot) : Slotted (HandleClientDrop now distance s client slotId) := by
  have left : Slotted (if s.bigMode then s.allClients.foldl (Server.leaveScope client) s else s) := by
    split
    · exact foldKeeps Slotted (fun s' c _ kept => kept.leaveScope client c) slotted
    · exact slotted
  unfold HandleClientDrop
  exact left.same (scopesPersonal.baseless.dropEntities _ client now scopesPersonal.unowned distance slotId _)

theorem Slotted.leaveSlot (client : ClientId) (e : EntityRef) : Slotted (s.leaveSlot client e) := by
  unfold Server.leaveSlot
  split
  · split
    · exact slotted
    · exact slotted.leaveScope _ _
  · exact slotted

end

theorem Slotted.destroyStep {acc : Frame} (slotted : Slotted acc.server) (input : TickInput)
    (client : ClientId) (slot : Slot) (entry) : Slotted (destroyStep input client slot acc entry).server := by
  unfold Server.destroyStep
  dsimp only
  split
  · exact slotted
  · exact (slotted.same (scopesPersonal.unowned.destroyEntity ..)).leaveSlot _ _

variable {s : Server}

theorem Slotted.destroyPass (slotted : Slotted s) (input : TickInput)
    (client : ClientId) (slot : Slot) : Slotted (destroyPass input client slot s).server := by
  have moved : Slotted (s.moveDeleting client) :=
    slotted.same (scopesCoarse.moveDeleting s client)
  have destroyed : Slotted ((((s.moveDeleting client).data client).entitiesToDestroy.entries.foldl
      (Server.destroyStep input client slot) ⟨s.moveDeleting client,⟨∅,[]⟩,[]⟩).server) :=
    foldKeeps (fun acc : Frame => Slotted acc.server)
      (fun acc entry _ kept => Slotted.destroyStep kept input client slot entry) moved
  unfold Server.destroyPass
  dsimp only
  split
  · exact destroyed.same (scopesCoarse.setToDestroy ..)
  · exact destroyed

theorem Slotted.createEntry (slotted : Slotted s) (client : ClientId)
    (identPair : IdentPair) (syncData : SyncedEntityData) : Slotted (createEntry client s identPair syncData).2 := by
  have placed := slotted.placePlayer client syncData.entity
  unfold Server.createEntry
  split
  · exact slotted
  · split
    · rename_i eq
      rw [eq] at placed
      exact placed.same (scopesCoarse.setSynced ..)
    · rename_i eq
      rw [eq] at placed
      refine placed.same ?_
      dsimp only
      exact (scopesModifyData _ _ (by intro _; rfl) (by intro _; rfl)).trans (scopesCoarse.setSynced ..)

theorem Slotted.entryStep {acc : Frame} (slotted : Slotted acc.server) (input : TickInput)
    (client : ClientId) (slot : Slot) (identPair : IdentPair) :
    Slotted (entryStep input client slot acc identPair).server := by
  unfold Server.entryStep
  split
  · exact slotted
  · rename_i found _
    have owned : Slotted (yoink input.curTime client acc.server found.entity) :=
      slotted.same (scopesPersonal.unowned.yoink ..)
    dsimp only
    split
    · exact owned
    · rename_i syncData _
      have ready := owned.createEntry client identPair syncData
      split
      · rename_i eq
        rw [eq] at ready
        exact ready
      · rename_i eq
        rw [eq] at ready
        exact ready.same (scopesPersonal.baseless.syncEntry ..)

theorem Slotted.clientPass (slotted : Slotted s) (input : TickInput)
    (client : ClientId) : Slotted (clientPass input s client) := by
  unfold Server.clientPass
  split
  · exact slotted
  · rename_i slot _
    have updated : Slotted (updatePass input client slot s).server :=
      foldKeeps (fun acc : Frame => Slotted acc.server)
        (fun acc identPair _ kept => Slotted.entryStep kept input client slot identPair)
        (slotted.destroyPass input client slot)
    have saved : Slotted (saveFrame input client (updatePass input client slot s).server
        (updatePass input client slot s).ces) := by
      refine updated.same ?_
      unfold saveFrame
      exact scopesModifyData _ _ (by intro _; rfl) (by intro _; rfl)
    exact saved.same (foldSame scopes (fun s' command => scopesPersonal.baseless.execute s' client slot input command))

theorem Slotted.tick (slotted : Slotted s) (input : TickInput) : Slotted (s.Tick input) :=
  foldKeeps Slotted (fun _ c _ kept => kept.clientPass input c)
    (slotted.same (scopesPersonal.relevancePhase s input))

theorem scopesHandleGameStateAck (s : Server) (client : ClientId) (packet : GameStateAck) :
    (s.HandleGameStateAck client packet).scopes = s.scopes := by
  unfold HandleGameStateAck
  split
  · rfl
  · split
    · rfl
    · exact (scopesModifyData _ _ (by intro _; rfl) (by intro _; rfl)).trans (scopesPersonal.baseless.ackFrame ..)

theorem Slotted.stepClient (slotted : Slotted s) (client : ClientId) (now : Nat)
    (protect : Bool) (op : ClientOp) : Slotted (s.stepClient client now protect op) := by
  refine slotted.same ?_
  cases op with
  | ack packet => exact scopesHandleGameStateAck s client packet
  | _ => exact scopesPersonal.stepClient s client now protect _ (fun _ same => by cases same)

theorem Slotted.step (slotted : Slotted s) (op : Op) : Slotted (s.step op) := by
  cases op with
  | connect =>
    intro client
    by_cases new : client = s.nextNetId
    · subst new
      simp only [scopes,Server.step,connectClient,Function.update_self]
      exact SlotMap.empty
    · simp only [scopes,Server.step,connectClient,Function.update_of_ne new]
      exact slotted client
  | drop client => exact slotted
  | remove client =>
    simp only [Server.step,RemoveClient]
    split
    · exact slotted
    · exact slotted
  | runDrop now distance =>
    simp only [Server.step,runDrop]
    split
    · exact slotted
    · exact slotted.handleClientDrop _ now distance _
  | runRemoval => exact slotted.same (scopesPersonal.runRemoval s)
  | fromClient client now protect op =>
    simp only [Server.step]
    split
    · exact slotted.stepClient client now protect op
    · exact slotted
  | createEntity type tree rand now =>
    simp only [Server.step,CreateEntityFromTree]
    split
    · exact slotted
    · exact slotted
  | deleteEntity e => exact slotted.same (scopesCoarse.deleteEntity ..)
  | removeClone objectId => exact slotted.same (scopesCoarse.removeClone ..)
  | passFilter e => exact slotted
  | setOrphanMode e mode => exact slotted
  | setEntityBucket e bucket => exact slotted
  | setClientBucket client bucket =>
    refine slotted.same ?_
    simp only [Server.step]
    exact scopesModifyData _ _ (by intro _; rfl) (by intro _; rfl)
  | tick input => exact slotted.tick input

theorem playerSlotsDistinct (bigMode lengthHack : Bool) (ops : List Op) : Throughout step (fun s => ∀ client,
      SlotMap (s.data client).playersToSlots (s.data client).playersInScope) (init bigMode lengthHack) ops :=
  throughoutOfKept Slotted (fun _ op slotted _ => slotted.step op)
    (fun _ => SlotMap.empty) alongAlways

end Server
end Citizen.State
