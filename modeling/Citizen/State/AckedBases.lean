import Mathlib.Data.List.MinMax
import Citizen.State.LoweredBases

/-! Acknowledgement mode. The base of a client's next delta of an entity is compared with
the newest frame that the client acknowledged and in which an update of the entity was sent
to it. -/
namespace Citizen.State
open Server

namespace Server

def created (s : Server) (client : ClientId) (identPair : IdentPair) : Bool :=
  ((s.data client).syncedEntities.lookup identPair).any (·.hasCreated)

def savedFrame (s : Server) (client : ClientId) (frameIndex : Nat) : ClientEntityState :=
  ((s.data client).frameStates.lookup frameIndex).getD ⟨∅,[]⟩

def AckMoves (s : Server) (client : ClientId) (slot : Slot) (packet : GameStateAck) (e : EntityRef) : Prop :=
  ∃ objectId data, (s.savedFrame client packet.frameIndex).syncedEntities.lookup objectId = some data ∧
    s.lockEntity data = some e ∧ objectId ∉ packet.recreateList ∧
      s.ackMoves client slot packet objectId e = true

def sentTo (s : Server) (client : ClientId) (e : EntityRef) (frame : Nat) : Bool :=
  s.sent.any (fun record => match record with
    | .remove .. => false
    | .sync c f _ e' _ _ mayWrite => c = client ∧ f = frame ∧ e' = e ∧ mayWrite)

/-- Who holds a slot, and who left one and is still to be dropped. -/
def places (s : Server) : (ClientId → Option Slot) × List (ClientId × Option Slot) := (s.slotId,s.drops)

theorem placesOf {s s' : Server} (same : s'.skeleton = s.skeleton) : s'.places = s.places :=
  congrArg (fun k : Skeleton => (k.slotId,k.drops)) same

end Server

def Op.moves : Op → Bool
  | .connect | .remove _ | .runDrop _ _ => true
  | _ => false

structure Alike (s s' : Server) : Prop where
  alive : ∀ e, s'.alive e = s.alive e
  parts : ∀ e, (s'.entity e).core = (s.entity e).core ∧ (s'.entity e).deletedFor = (s.entity e).deletedFor
  created : ∀ client identPair, s'.created client identPair = true → s.created client identPair = true

namespace Alike

theorem refl (s : Server) : Alike s s := ⟨fun _ => rfl,fun _ => ⟨rfl,rfl⟩,fun _ _ created => created⟩

theorem trans {s s' s'' : Server} (first : Alike s s') (second : Alike s' s'') : Alike s s'' where
  alive := fun e => (second.alive e).trans (first.alive e)
  parts := fun e => ⟨(second.parts e).1.trans (first.parts e).1,(second.parts e).2.trans (first.parts e).2⟩
  created := fun client identPair created => first.created client identPair (second.created client identPair created)

theorem lock {s s' : Server} (alike : Alike s s') (data : ClientEntityData) :
    s'.lockEntity data = s.lockEntity data := by
  unfold lockEntity
  rw [alike.alive]

theorem modifyEntity (s : Server) (e : EntityRef) {f : SyncEntityState → SyncEntityState}
    (kept : ∀ x, (f x).core = x.core ∧ (f x).deletedFor = x.deletedFor) : Alike s (s.modifyEntity e f) := by
  refine ⟨fun _ => rfl,fun e' => ?_,fun _ _ created => created⟩
  rw [entityModify]
  split
  · exact kept _
  · exact ⟨rfl,rfl⟩

theorem moves {s s' : Server} (alike : Alike s s') {client : ClientId} {slot : Slot}
    {packet : GameStateAck} {objectId : Nat} {e : EntityRef}
    (moves : s'.ackMoves client slot packet objectId e = true) : s.ackMoves client slot packet objectId e = true ∧
      s'.created client (objectId,(s.entity e).uniqifier) = true := by
  obtain ⟨core,deletedFor⟩ := alike.parts e
  have uniqifier : (s'.entity e).uniqifier = (s.entity e).uniqifier := congrArg (fun core => core.2.1) core
  have handle : (s'.entity e).handle = (s.entity e).handle := congrArg Prod.fst core
  unfold Server.ackMoves at moves ⊢
  rw [uniqifier,deletedFor,handle,Bool.and_eq_true,Bool.and_eq_true] at moves
  obtain ⟨⟨created,kept⟩,wanted⟩ := moves
  have before := alike.created client (objectId,(s.entity e).uniqifier) created
  unfold Server.created at before
  exact ⟨by rw [before,kept,wanted]; rfl,created⟩

end Alike

structure Prepares (s s' : Server) : Prop where
  alike : Alike s s'
  levels : ∀ e slot, (s'.entity e).levels slot ≤ (s.entity e).levels slot

namespace Prepares

theorem refl (s : Server) : Prepares s s := ⟨.refl s,fun _ _ => le_rfl⟩

theorem trans {s s' s'' : Server} (first : Prepares s s') (second : Prepares s' s'') : Prepares s s'' :=
  ⟨first.alike.trans second.alike,fun e slot => (second.levels e slot).trans (first.levels e slot)⟩

theorem fold {α : Type} {step : Server → α → Server} {events : List α} {s : Server}
    (each : ∀ s e, Prepares s (step s e)) : Prepares s (events.foldl step s) :=
  foldKeeps (fun s' => Prepares s s') (fun s' e _ kept => kept.trans (each s' e)) (refl s)

section
variable (s : Server) (client : ClientId) (identPair : IdentPair)

theorem unmarkCreated : Prepares s (s.unmarkCreated client identPair) := by
  have holds : ∀ c e, (s.unmarkCreated client identPair).holds c e = s.holds c e := by
    intro c e
    unfold Server.unmarkCreated Server.setSynced Server.holds
    rw [dataModify]
    split
    · rename_i same
      subst same
      simp only [Table.adjust,Table.mapValues,List.any_map]
      congr 2
      refine funext (fun entry => ?_)
      simp only [Function.comp_apply]
      split <;> rfl
    · rfl
  refine ⟨⟨fun e => ?_,fun e => ⟨rfl,rfl⟩,?_⟩,fun _ _ => le_rfl⟩
  · unfold Server.alive
    simp only [holds]
    rfl
  · intro c pair created
    unfold Server.created Server.unmarkCreated Server.setSynced at created
    rw [dataModify] at created
    split at created
    · rename_i same
      subst same
      dsimp only at created
      by_cases here : pair = identPair
      · subst here
        rw [Table.lookupAdjustSelf] at created
        cases found : (s.data c).syncedEntities.lookup pair with
        | none => simp [found] at created
        | some data => simp [found] at created
      · rw [Table.lookupAdjustOther here] at created
        exact created
    · exact created

theorem unmarkedCreated : (s.unmarkCreated client identPair).created client identPair = false := by
  unfold Server.created Server.unmarkCreated Server.setSynced
  rw [dataModifySelf]
  dsimp only
  rw [Table.lookupAdjustSelf]
  cases (s.data client).syncedEntities.lookup identPair <;> rfl

end

variable (frame : ClientEntityState)

theorem ackRecreate (client : ClientId) (s : Server) (objectId : Nat) :
    Prepares s (Server.ackRecreate frame client s objectId) := by
  unfold Server.ackRecreate
  split
  · exact refl s
  · split
    · exact refl s
    · exact unmarkCreated ..

theorem lowerBoth (s : Server) (e : EntityRef) (slot : Slot) (lastFrame : Nat) :
    Prepares s (s.lowerBoth e slot lastFrame) := by
  have lower : ∀ (old : Slot → Nat) (slot' : Slot),
      Function.update old slot (min (old slot) lastFrame) slot' ≤ old slot' := by
    intro old slot'
    rw [Function.update_apply]
    split
    · rename_i same
      rw [same]
      exact Nat.min_le_left ..
    · exact le_rfl
  refine ⟨.modifyEntity s e (fun _ => ⟨rfl,rfl⟩),fun e' slot' => ?_⟩
  unfold Server.lowerBoth
  rw [entityModify]
  split
  · exact ⟨lower _ slot',lower _ slot'⟩
  · exact le_rfl

theorem ackIgnore (slot : Slot) (s : Server) (ignored : Nat × Nat) :
    Prepares s (Server.ackIgnore frame slot s ignored) := by
  unfold Server.ackIgnore
  split
  · exact refl s
  · split
    · exact refl s
    · exact lowerBoth ..

theorem recreated (client : ClientId) {list : List Nat} {s : Server} {objectId : Nat}
    {data : ClientEntityData} {e : EntityRef} (asked : objectId ∈ list)
    (found : frame.syncedEntities.lookup objectId = some data) (locked : s.lockEntity data = some e) :
    (list.foldl (Server.ackRecreate frame client) s).created client (objectId,(s.entity e).uniqifier) = false := by
  induction list generalizing s with
  | nil => cases asked
  | cons first rest ih =>
    have step := ackRecreate frame client s first
    have uniqifier : ((Server.ackRecreate frame client s first).entity e).uniqifier = (s.entity e).uniqifier :=
      congrArg (fun core => core.2.1) (step.alike.parts e).1
    rcases List.mem_cons.mp asked with rfl | later
    · have gone : (Server.ackRecreate frame client s objectId).created client
          (objectId,(s.entity e).uniqifier) = false := by
        unfold Server.ackRecreate
        rw [found]
        dsimp only
        rw [locked]
        exact unmarkedCreated ..
      by_contra still
      have later : Prepares (Server.ackRecreate frame client s objectId)
          (rest.foldl (Server.ackRecreate frame client) (Server.ackRecreate frame client s objectId)) :=
        fold (ackRecreate frame client)
      have back := later.alike.created client _ (Bool.of_not_eq_false still)
      rw [gone] at back
      contradiction
    · rw [← step.alike.lock data] at locked
      rw [← uniqifier]
      exact ih later locked

end Prepares

theorem Alike.ackEntries {s s' : Server} (alike : Alike s s') (client : ClientId) (slot : Slot)
    (packet : GameStateAck) (frame : ClientEntityState) :
    (∀ e, ((frame.syncedEntities.entries.foldl (ackEntry client slot packet) s').entity e).lastFramesPreSent =
      (s'.entity e).lastFramesPreSent) ∧
    ∀ e slot', ((frame.syncedEntities.entries.foldl (ackEntry client slot packet) s').entity e).lastFramesSent
          slot' ≤ (s'.entity e).lastFramesSent slot' ∨
      (slot' = slot ∧ (∃ objectId data, frame.syncedEntities.lookup objectId = some data ∧
        s.lockEntity data = some e ∧ s.ackMoves client slot packet objectId e = true ∧
          s'.created client (objectId,(s.entity e).uniqifier) = true) ∧
        ((frame.syncedEntities.entries.foldl (ackEntry client slot packet) s').entity e).lastFramesSent slot' ≤
          min packet.frameIndex ((s'.entity e).lastFramesPreSent slot)) := by
  refine (fun kept => ⟨kept.1.2.2,kept.2⟩) (foldKeeps (fun t : Server => (Alike s' t ∧ t.data = s'.data ∧
      ∀ e, (t.entity e).lastFramesPreSent = (s'.entity e).lastFramesPreSent) ∧
    ∀ e slot', (t.entity e).lastFramesSent slot' ≤ (s'.entity e).lastFramesSent slot' ∨
      (slot' = slot ∧ (∃ objectId data, frame.syncedEntities.lookup objectId = some data ∧
        s.lockEntity data = some e ∧ s.ackMoves client slot packet objectId e = true ∧
          s'.created client (objectId,(s.entity e).uniqifier) = true) ∧
        (t.entity e).lastFramesSent slot' ≤ min packet.frameIndex ((s'.entity e).lastFramesPreSent slot)))
    (fun t entry mem kept => ?_) ⟨⟨.refl s',rfl,fun _ => rfl⟩,fun _ _ => .inl le_rfl⟩)
  obtain ⟨⟨same,data,preSent⟩,bound⟩ := kept
  unfold ackEntry
  split
  · exact ⟨⟨same,data,preSent⟩,bound⟩
  · rename_i ent locked
    split
    · rename_i moves
      have all := alike.trans same
      obtain ⟨before,created⟩ := all.moves moves
      have createdThen : s'.created client (entry.1,(s.entity ent).uniqifier) = true := by
        unfold Server.created at created ⊢
        rw [← data]
        exact created
      rw [all.lock] at locked
      refine ⟨⟨same.trans (.modifyEntity t ent (fun _ => ⟨rfl,rfl⟩)),data,fun e => ?_⟩,fun e slot' => ?_⟩
      · unfold ackBase
        rw [entityModify]
        split <;> exact preSent e
      · unfold ackBase
        rw [entityModify]
        split
        · rename_i here
          subst here
          simp only [Function.update_apply]
          split
          · rename_i own
            refine .inr ⟨own,⟨entry.1,entry.2,Table.memEntries.mpr mem,locked,before,createdThen⟩,?_⟩
            rw [preSent]
          · exact bound e slot'
        · exact bound e slot'
    · exact ⟨⟨same,data,preSent⟩,bound⟩

theorem ackRaises (s : Server) (client : ClientId) (packet : GameStateAck) (e : EntityRef) (slot' : Slot) :
    ((s.HandleGameStateAck client packet).entity e).lastFramesPreSent slot' ≤ (s.entity e).lastFramesPreSent slot' ∧
    (((s.HandleGameStateAck client packet).entity e).lastFramesSent slot' ≤ (s.entity e).lastFramesSent slot' ∨
      (s.slotId client = some slot' ∧ s.AckMoves client slot' packet e ∧
        ((s.HandleGameStateAck client packet).entity e).lastFramesSent slot' ≤
          min packet.frameIndex ((s.entity e).lastFramesPreSent slot'))) := by
  unfold HandleGameStateAck
  split
  · exact ⟨le_rfl,.inl le_rfl⟩
  cases s.slotId client with
  | none => exact ⟨le_rfl,.inl le_rfl⟩
  | some slot =>
    have named : ((s.data client).frameStates.lookup packet.frameIndex).getD ⟨∅,[]⟩ =
        s.savedFrame client packet.frameIndex := rfl
    dsimp only
    rw [named]
    generalize frameEq : s.savedFrame client packet.frameIndex = frame
    have recreated : Prepares s (packet.recreateList.foldl (Server.ackRecreate frame client) s) :=
      .fold (.ackRecreate frame client)
    have ignored : Prepares (packet.recreateList.foldl (Server.ackRecreate frame client) s)
        (packet.ignoreList.foldl (Server.ackIgnore frame slot)
          (packet.recreateList.foldl (Server.ackRecreate frame client) s)) :=
      .fold (.ackIgnore frame slot)
    have prepares := recreated.trans ignored
    obtain ⟨preSent,moved⟩ := prepares.alike.ackEntries client slot packet frame
    refine ⟨(congrFun (preSent e) slot').trans_le (prepares.levels e slot').2,?_⟩
    rcases moved e slot' with lower | ⟨own,⟨objectId,data,found,locked,moves,created⟩,bound⟩
    · exact .inl (lower.trans (prepares.levels e slot').1)
    · subst own
      refine .inr ⟨rfl,⟨objectId,data,frameEq ▸ found,locked,fun asked => ?_,moves⟩,?_⟩
      · have still := ignored.alike.created client _ created
        rw [Prepares.recreated frame client asked found locked] at still
        contradiction
      · exact bound.trans (min_le_min_left _ (prepares.levels e slot').2)

/-- The server with what a client acknowledged and what was run for it, in this order. -/
structure Acknowledged where
  server : Server
  acked : List (ClientId × Nat)
  updates : List Update

namespace Acknowledged

def init (bigMode lengthHack : Bool) : Acknowledged := ⟨.init bigMode lengthHack,[],[]⟩

def step (a : Acknowledged) (op : Op) : Acknowledged where
  server := a.server.step op
  acked := match op with
    | .fromClient client _ _ (.ack packet) =>
      if client ∈ a.server.inMemory then a.acked ++ [(client,packet.frameIndex)] else a.acked
    | _ => a.acked
  updates := a.updates ++ ((a.server.step op).sent.drop a.server.sent.length).filterMap a.server.update

def newest (a : Acknowledged) (client : ClientId) (e : EntityRef) : Nat :=
  ((a.acked.filter (fun ack => ack.1 = client ∧ a.server.sentTo client e ack.2)).map Prod.snd).foldr max 0

def BasesAcked (a : Acknowledged) : Prop :=
  ∀ client slot, a.server.slotId client = some slot → ∀ e ∈ a.server.entityList,
    (a.server.entity e).lastFramesSent slot ≤ a.newest client e

/-- An update with newer data than all that the client acknowledged was run for its slot. -/
def Outstanding (a : Acknowledged) (client : ClientId) (slot : Slot) (e : EntityRef) : Prop :=
  ∃ u ∈ a.updates, u.slot = slot ∧ u.entity = e ∧ a.newest client e < u.level

/-- The mode stays. A client gets a slot only when none that left it, and whose drop is still to be run, acknowledged
an update. A frame without an update of an entity is acknowledged only when it is not newer than an acknowledged one with
an update, or no update is outstanding. -/
def Covered (a : Acknowledged) : Op → Prop
  | .tick input => input.oneSyncARQ = true
  | .connect => ∀ slot, a.server.freeSlot (initSlot a.server.bigMode + 1) = some slot →
      ∀ client, (client,some slot) ∈ a.server.drops → ∀ e ∈ a.server.entityList, a.newest client e = 0
  | .fromClient client _ _ (.ack packet) => client ∈ a.server.inMemory →
      ∀ slot, a.server.slotId client = some slot → ∀ e ∈ a.server.entityList,
        a.server.AckMoves client slot packet e →
          a.server.sentTo client e packet.frameIndex = true ∨ packet.frameIndex ≤ a.newest client e ∨
            ¬ a.Outstanding client slot e
  | _ => True

section
variable {a : Acknowledged} {client : ClientId} {e : EntityRef}

theorem leNewest {frame : Nat} (acked : (client,frame) ∈ a.acked) (sent : a.server.sentTo client e frame = true) :
    frame ≤ a.newest client e := by
  refine List.le_max_of_le (List.mem_map.mpr ⟨(client,frame),List.mem_filter.mpr ⟨acked,?_⟩,rfl⟩) le_rfl
  simp [sent]

theorem newestLe {bound : Nat}
    (each : ∀ frame, (client,frame) ∈ a.acked → a.server.sentTo client e frame = true → frame ≤ bound) :
    a.newest client e ≤ bound := by
  refine List.max_le_of_forall_le _ _ (fun frame mem => ?_)
  obtain ⟨⟨c,f⟩,kept,rfl⟩ := List.mem_map.mp mem
  obtain ⟨acked,same⟩ := List.mem_filter.mp kept
  simp only [decide_eq_true_eq] at same
  obtain ⟨rfl,sent⟩ := same
  exact each f acked sent

end

theorem sentToMono {s s' : Server} (grows : ∀ record ∈ s.sent, record ∈ s'.sent) {client e frame}
    (sent : s.sentTo client e frame = true) : s'.sentTo client e frame = true := by
  unfold sentTo at sent ⊢
  rw [List.any_eq_true] at sent ⊢
  obtain ⟨record,mem,is⟩ := sent
  exact ⟨record,grows record mem,is⟩

theorem newestMono {a a' : Acknowledged} (acked : ∀ ack ∈ a.acked, ack ∈ a'.acked)
    (sent : ∀ record ∈ a.server.sent, record ∈ a'.server.sent) (client : ClientId) (e : EntityRef) :
    a.newest client e ≤ a'.newest client e :=
  newestLe (fun _ mem is => leNewest (acked _ mem) (sentToMono sent is))

theorem placesClient (s : Server) (client : ClientId) (now : Nat) (protect : Bool) (op : ClientOp) :
    (s.stepClient client now protect op).places = s.places := by
  cases op with
  | requestObjectIds n => exact Server.placesOf (skeletonOwnerless.unowned.takeFreeIds s client _ n)
  | cloneCreate packet =>
    rcases processCloneCreateCases s client now packet with same | ⟨type,_,same | ⟨ready,same,_,eq⟩⟩
    · exact congrArg Server.places same
    · exact congrArg (fun v : Ids => (v.skeleton.slotId,v.skeleton.drops)) same
    · refine (congrArg Server.places eq).trans ?_
      exact congrArg (fun v : Ids => (v.skeleton.slotId,v.skeleton.drops)) same
  | cloneSync packet => exact Server.placesOf (skeletonOfIds (idsBaseless.processCloneSync s client now packet))
  | cloneTakeover target id => exact Server.placesOf (skeletonOwnerless.unowned.processCloneTakeover s client now target id)
  | cloneRemove id uniq => exact Server.placesOf (skeletonOwnerless.blind.coarse.processCloneRemove s client protect id uniq)
  | timestamp ts => exact Server.placesOf (skeletonOwnerless.blind.coarse.setTimestamp s client ts)
  | frameIndex index => rfl
  | ackCreate id uniq => exact Server.placesOf (skeletonOwnerless.blind.coarse.ackCreate s client id uniq)
  | ackRemove id uniq => exact Server.placesOf (skeletonOwnerless.blind.coarse.ackRemove s client id uniq)
  | nack packet =>
    obtain ⟨dropping,shape⟩ := idsHandleGameStateNAck s client packet
    exact congrArg (fun v : Ids => (v.skeleton.slotId,v.skeleton.drops)) shape
  | ack packet => exact Server.placesOf (skeletonOfIds (idsHandleGameStateAck s client packet))

theorem placesTick (s : Server) (input : TickInput) : (s.Tick input).places = s.places := by
  have swept : (s.swept input).1.places = s.places := by
    refine foldSame (fun acc : Server × List EntityRef => acc.1.places) (fun acc e => ?_)
    unfold collect FinalizeClone
    dsimp only
    repeat' split
    all_goals rfl
  have passed : ((s.relevancePhase input).updatePhase input).skeleton = (s.swept input).1.skeleton :=
    (skeletonUpdatePhase ..).trans (skeletonOfIds (idsRelevancePhase ..))
  exact (Server.placesOf passed).trans swept

theorem placesKept (s : Server) (op : Op) (stays : op.moves = false) : (s.step op).places = s.places := by
  cases op with
  | connect => cases stays
  | remove client => cases stays
  | runDrop now distance => cases stays
  | runRemoval =>
    unfold Server.step Server.runRemoval
    dsimp only
    split
    · rfl
    · rename_i e rest _
      exact congrArg (fun k : Skeleton => (k.slotId,k.drops)) (Coherent.doRemoveShape s e)
  | createEntity type tree rand now =>
    unfold Server.step CreateEntityFromTree
    dsimp only
    split <;> rfl
  | deleteEntity e => exact Server.placesOf (skeletonOwnerless.blind.coarse.deleteEntity s e)
  | removeClone id => exact Server.placesOf (skeletonOwnerless.blind.coarse.removeClone s id)
  | tick input => exact placesTick s input
  | fromClient client now protect op =>
    unfold Server.step
    dsimp only
    split
    · exact placesClient s client now protect op
    · rfl
  | drop client => rfl
  | passFilter e => rfl
  | setOrphanMode e mode => rfl
  | setEntityBucket e bucket => rfl
  | setClientBucket client bucket => rfl

theorem dropSlots (s : Server) (now : Nat) (distance) : (s.runDrop now distance).slotId = s.slotId := by
  unfold Server.runDrop
  split
  · rfl
  · exact congrArg Skeleton.slotId (skeletonHandleClientDrop s _ now distance _)

/-- An operation other than an acknowledgement raises no base, and enters every update that it runs. -/
structure Quiet (a : Acknowledged) (op : Op) : Prop where
  records : ∀ record ∈ a.server.sent, record ∈ (a.step op).server.sent
  base : ∀ e slot, ((a.step op).server.entity e).lastFramesSent slot ≤ (a.server.entity e).lastFramesSent slot
  list : ∀ e ∈ (a.step op).server.entityList, e ∈ a.server.entityList ∨
    ∀ slot, ((a.step op).server.entity e).lastFramesSent slot = 0
  preSent : ∀ e slot, ∃ level, ((a.step op).server.entity e).lastFramesPreSent slot ≤ level ∧
    (level = (a.server.entity e).lastFramesPreSent slot ∨ ⟨slot,e,level⟩ ∈ (a.step op).updates)

variable {a : Acknowledged}

theorem quietOfLowers {op : Op} (lowers : Lowers a.server (a.server.step op)) : a.Quiet op where
  records _ mem := lowers.sent.symm ▸ mem
  base e slot := (lowers.levels e slot).1
  list := lowers.list
  preSent e slot := ⟨_,(lowers.levels e slot).2,.inl rfl⟩

theorem quietOfSends {op : Op} (sends : Sends a.server (a.server.step op)) : a.Quiet op := by
  obtain ⟨more,sent,preSent⟩ := sends.sent
  refine ⟨fun _ mem => ?_,sends.base,fun e mem => .inl (sends.list ▸ mem),fun e slot => ?_⟩
  · exact sent.symm ▸ List.mem_append_left _ mem
  · obtain ⟨level,below,from'⟩ := preSent e slot
    refine ⟨level,below,from'.imp_right (fun ⟨record,mem,writes⟩ => List.mem_append_right _ (List.mem_filterMap.mpr ⟨record,?_,writes⟩))⟩
    rw [sent,List.drop_left]
    exact mem

theorem stepQuiet (op : Op) (other : ∀ client now protect packet, op ≠ .fromClient client now protect (.ack packet))
    (covered : a.Covered op) : a.Quiet op := by
  cases op with
  | tick input => exact quietOfSends (.tickARQ a.server input covered)
  | connect => exact quietOfLowers (.ofParts rfl rfl (fun _ _ => le_rfl))
  | drop client => exact quietOfLowers (.ofParts rfl rfl (fun _ _ => le_rfl))
  | remove client =>
    refine quietOfLowers ?_
    unfold Server.step RemoveClient
    dsimp only
    split
    · exact .ofParts rfl rfl (fun _ _ => le_rfl)
    · exact .refl _
  | runDrop now distance => exact quietOfLowers (Lowers.runDrop a.server now distance).1
  | runRemoval => exact quietOfLowers (.runRemoval a.server)
  | createEntity type tree rand now => exact quietOfLowers (.createEntity a.server now type tree rand)
  | deleteEntity e => exact quietOfLowers (.sameOf (fun ownerless => ownerless.blind.coarse.deleteEntity a.server e))
  | removeClone id => exact quietOfLowers (.sameOf (fun ownerless => ownerless.blind.coarse.removeClone a.server id))
  | passFilter e =>
    refine quietOfLowers ?_
    unfold Server.step
    exact .modifyEntity a.server e (by intro _ _; exact le_rfl)
  | setOrphanMode e mode =>
    refine quietOfLowers ?_
    unfold Server.step
    exact .modifyEntity a.server e (by intro _ _; exact le_rfl)
  | setEntityBucket e bucket =>
    refine quietOfLowers ?_
    unfold Server.step
    exact .modifyEntity a.server e (by intro _ _; exact le_rfl)
  | setClientBucket client bucket => exact quietOfLowers (.ofParts rfl rfl (fun _ _ => le_rfl))
  | fromClient client now protect op =>
    refine quietOfLowers ?_
    unfold Server.step
    dsimp only
    split
    · exact .stepClient a.server client now op (fun packet same => other client now protect packet (same ▸ rfl)) protect
    · exact .refl _

theorem stepNewest (a : Acknowledged) (op : Op) (grows : ∀ record ∈ a.server.sent, record ∈ (a.step op).server.sent)
    (client : ClientId) (e : EntityRef) : a.newest client e ≤ (a.step op).newest client e := by
  refine newestMono (fun ack mem => ?_) grows client e
  unfold step
  dsimp only
  split
  · split
    · exact List.mem_append_left _ mem
    · exact mem
  · exact mem

theorem sentAck (s : Server) (client : ClientId) (packet : GameStateAck) :
    (s.HandleGameStateAck client packet).sent = s.sent := by
  unfold HandleGameStateAck
  split
  · rfl
  · split
    · rfl
    · refine (foldSame Server.sent (fun s' entry => ?_)).trans ((foldSame Server.sent (fun s' ignored => ?_)).trans
        (foldSame Server.sent (fun s' objectId => ?_)))
      · unfold ackEntry
        split
        · rfl
        · split <;> rfl
      · unfold ackIgnore
        split
        · rfl
        · split <;> rfl
      · unfold ackRecreate
        split
        · rfl
        · split <;> rfl

/-- No base is newer than what its client acknowledged; what was last written for a slot was run for it; and a slot that
nobody holds has bases of clients only that are still to be dropped. -/
structure Kept (a : Acknowledged) : Prop where
  coherent : Coherent a.server.skeleton
  acked : a.BasesAcked
  written : ∀ e slot, (a.server.entity e).lastFramesPreSent slot = 0 ∨
    ∃ u ∈ a.updates, u.slot = slot ∧ u.entity = e ∧ (a.server.entity e).lastFramesPreSent slot ≤ u.level
  left : ∀ slot, (∀ c, a.server.slotId c ≠ some slot) → ∀ e ∈ a.server.entityList,
    (a.server.entity e).lastFramesSent slot = 0 ∨
      ∃ c, (c,some slot) ∈ a.server.drops ∧ (a.server.entity e).lastFramesSent slot ≤ a.newest c e

theorem stepWritten {op : Op} (kept : a.Kept)
    (preSent : ∀ e slot, ∃ level, ((a.step op).server.entity e).lastFramesPreSent slot ≤ level ∧
      (level = (a.server.entity e).lastFramesPreSent slot ∨ ⟨slot,e,level⟩ ∈ (a.step op).updates)) (e : EntityRef) (slot : Slot) :
    ((a.step op).server.entity e).lastFramesPreSent slot = 0 ∨ ∃ u ∈ (a.step op).updates,
      u.slot = slot ∧ u.entity = e ∧ ((a.step op).server.entity e).lastFramesPreSent slot ≤ u.level := by
  obtain ⟨level,below,rfl | new⟩ := preSent e slot
  · rcases kept.written e slot with zero | ⟨u,mem,own,same,level⟩
    · exact .inl (Nat.le_zero.mp (below.trans_eq zero))
    · exact .inr ⟨u,List.mem_append_left _ mem,own,same,below.trans level⟩
  · exact .inr ⟨_,new,rfl,rfl,below⟩

theorem Quiet.keeps {op : Op} (quiet : a.Quiet op) {c : ClientId} {slot : Slot} {e : EntityRef}
    (before : e ∈ a.server.entityList → (a.server.entity e).lastFramesSent slot ≤ a.newest c e)
    (mem : e ∈ (a.step op).server.entityList) : ((a.step op).server.entity e).lastFramesSent slot ≤ (a.step op).newest c e := by
  rcases quiet.list e mem with old | zero
  · exact (quiet.base e slot).trans ((before old).trans (stepNewest a op quiet.records c e))
  · rw [zero slot]
    exact Nat.zero_le _

theorem slotKept {s : Server} (op : Op) {c : ClientId} {slot : Slot} (has : (s.step op).slotId c = some slot) :
    s.slotId c = some slot ∨ (op = .connect ∧ s.freeSlot (initSlot s.bigMode + 1) = some slot) := by
  have places := placesKept s op
  cases op with
  | connect =>
    unfold Server.step connectClient at has
    dsimp only at has
    rw [Function.update_apply] at has
    split at has
    · exact .inr ⟨rfl,has⟩
    · exact .inl has
  | remove client =>
    unfold Server.step RemoveClient at has
    dsimp only at has
    split at has
    · dsimp only at has
      rw [Function.update_apply] at has
      split at has
      · contradiction
      · exact .inl has
    · exact .inl has
  | runDrop now distance => exact .inl ((congrFun (dropSlots s now distance) c).symm.trans has)
  | _ => exact .inl ((congrFun (congrArg Prod.fst (places rfl)) c).symm.trans has)

theorem slotFreed {s : Server} (coherent : Coherent s.skeleton) (op : Op) {slot : Slot} (free : ∀ c, (s.step op).slotId c ≠ some slot) :
    (∀ c, s.slotId c ≠ some slot) ∨ ∃ client, op = .remove client ∧ client ∈ s.registry ∧ s.slotId client = some slot := by
  by_cases held : ∃ client, s.slotId client = some slot
  · obtain ⟨client,has⟩ := held
    have known : client ∈ s.registry := coherent.slotted client slot has
    have lost := free client
    have places := placesKept s op
    cases op with
    | connect =>
      have older : client ≠ s.nextNetId := Nat.ne_of_lt (coherent.netIds client (List.mem_append_left _ known))
      exact absurd ((Function.update_of_ne older ..).trans has) lost
    | remove other =>
      by_cases same : other = client
      · exact .inr ⟨client,same ▸ rfl,known,has⟩
      · refine absurd ?_ lost
        unfold Server.step RemoveClient
        dsimp only
        split
        · exact (Function.update_of_ne (Ne.symm same) ..).trans has
        · exact has
    | runDrop now distance => exact absurd ((congrFun (dropSlots s now distance) client).trans has) lost
    | _ => exact absurd ((congrFun (congrArg Prod.fst (places rfl)) client).trans has) lost
  · exact .inl (not_exists.mp held)

theorem pendingKept {s : Server} (op : Op) {c : ClientId} {slot : Slot} (pending : (c,some slot) ∈ s.drops) :
    (c,some slot) ∈ (s.step op).drops ∨ ∀ e ∈ (s.step op).entityList, ((s.step op).entity e).lastFramesSent slot = 0 := by
  have places := placesKept s op
  cases op with
  | connect => exact .inl pending
  | remove client =>
    left
    unfold Server.step RemoveClient
    dsimp only
    split
    · exact List.mem_append_left _ pending
    · exact pending
  | runDrop now distance =>
    cases queue : s.drops with
    | nil => exact absurd (queue ▸ pending) List.not_mem_nil
    | cons first rest =>
      rcases List.mem_cons.mp (queue ▸ pending) with rfl | later
      · exact .inr ((Lowers.runDrop s now distance).2 c (some slot) rest queue slot rfl)
      · left
        unfold Server.step Server.runDrop
        dsimp only
        rw [queue]
        exact later
  | _ => exact .inl ((congrArg (fun places => (c,some slot) ∈ places.2) (places rfl)).mpr pending)

section
variable {a : Acknowledged}

theorem Quiet.acked {op : Op} (quiet : a.Quiet op) (kept : a.Kept) (covered : a.Covered op) :
    (a.step op).BasesAcked := by
  intro c slot has e mem
  refine quiet.keeps (fun old => ?_) mem
  rcases slotKept op has with had | ⟨rfl,free⟩
  · exact kept.acked c slot had e old
  · have unheld : ∀ c, a.server.slotId c ≠ some slot := fun c held =>
      Coherent.freeSlotUnused free c (kept.coherent.slotted c slot held) held
    rcases kept.left slot unheld e old with zero | ⟨left,pending,level⟩
    · rw [zero]
      exact Nat.zero_le _
    · exact (level.trans_eq (covered slot free left pending e old)).trans (Nat.zero_le _)

theorem Quiet.left {op : Op} (quiet : a.Quiet op) (kept : a.Kept) (slot : Slot)
    (free : ∀ c, (a.step op).server.slotId c ≠ some slot) (e : EntityRef) (mem : e ∈ (a.step op).server.entityList) :
    ((a.step op).server.entity e).lastFramesSent slot = 0 ∨ ∃ c, (c,some slot) ∈ (a.step op).server.drops ∧
      ((a.step op).server.entity e).lastFramesSent slot ≤ (a.step op).newest c e := by
  rcases slotFreed kept.coherent op free with unheld | ⟨client,rfl,known,had⟩
  · rcases quiet.list e mem with old | zero
    · rcases kept.left slot unheld e old with zero | ⟨c,pending,level⟩
      · exact .inl (Nat.le_zero.mp ((quiet.base e slot).trans_eq zero))
      · rcases pendingKept op pending with still | cleared
        · exact .inr ⟨c,still,quiet.keeps (fun _ => level) mem⟩
        · exact .inl (cleared e mem)
    · exact .inl (zero slot)
  · refine .inr ⟨client,?_,quiet.keeps (kept.acked client slot had e) mem⟩
    change (client,some slot) ∈ (a.server.RemoveClient client).drops
    rw [RemoveClient,if_pos known,← had]
    exact List.mem_append_right _ (List.mem_singleton_self _)

theorem stepAck (kept : a.Kept) (client : ClientId) (now : Nat) (protect : Bool) (packet : GameStateAck)
    (covered : a.Covered (.fromClient client now protect (.ack packet))) :
    (a.step (.fromClient client now protect (.ack packet))).Kept := by
  have coherent : Coherent (a.step (.fromClient client now protect (.ack packet))).server.skeleton :=
    kept.coherent.step (.fromClient client now protect (.ack packet))
  by_cases known : client ∈ a.server.inMemory
  · have server : (a.step (.fromClient client now protect (.ack packet))).server =
        a.server.HandleGameStateAck client packet := if_pos known
    have log : (a.step (.fromClient client now protect (.ack packet))).acked =
        a.acked ++ [(client,packet.frameIndex)] := if_pos known
    have sent := sentAck a.server client packet
    have newest := stepNewest a (.fromClient client now protect (.ack packet)) (fun _ mem => by rw [server,sent]; exact mem)
    have ids := idsHandleGameStateAck a.server client packet
    have places : (a.server.HandleGameStateAck client packet).places = a.server.places :=
      Server.placesOf (congrArg Ids.skeleton ids)
    have slots : (a.server.HandleGameStateAck client packet).slotId = a.server.slotId := congrArg Prod.fst places
    have drops : (a.server.HandleGameStateAck client packet).drops = a.server.drops := congrArg Prod.snd places
    have list : (a.server.HandleGameStateAck client packet).entityList = a.server.entityList :=
      congrArg (fun v : Ids => v.skeleton.entityList) ids
    have raises := ackRaises a.server client packet
    have written := @stepWritten a (.fromClient client now protect (.ack packet)) kept
      (fun e slot => ⟨_,by rw [server]; exact (raises e slot).1,.inl rfl⟩)
    generalize a.step (.fromClient client now protect (.ack packet)) = b at *
    obtain ⟨t,acked,updates⟩ := b
    obtain rfl : t = a.server.HandleGameStateAck client packet := server
    refine ⟨coherent,fun c slot has e mem => ?_,written,fun slot free e mem => ?_⟩
    · have had : a.server.slotId c = some slot := (congrFun slots c).symm.trans has
      have old : e ∈ a.server.entityList := list ▸ mem
      have before := (kept.acked c slot had e old).trans (newest c e)
      rcases (raises e slot).2 with lower | ⟨mine,moves,bound⟩
      · exact lower.trans before
      · obtain rfl : c = client := kept.coherent.slots c (kept.coherent.slotted c slot had) client
          (kept.coherent.slotted client slot mine) slot had mine
        rcases covered known slot had e old moves with inFrame | early | settled
        · refine bound.trans ((Nat.min_le_left ..).trans (leNewest ?_ ?_))
          · change _ ∈ acked
            rw [show acked = _ from log]
            exact List.mem_append_right _ (List.mem_singleton_self _)
          · unfold sentTo
            rw [sent]
            exact inFrame
        · exact bound.trans ((Nat.min_le_left ..).trans (early.trans (newest c e)))
        · refine bound.trans ((Nat.min_le_right ..).trans (le_trans ?_ (newest c e)))
          rcases kept.written e slot with zero | ⟨u,inLog,own,same,level⟩
          · exact zero.trans_le (Nat.zero_le _)
          · exact level.trans (Nat.le_of_not_lt (fun newer => settled ⟨u,inLog,own,same,newer⟩))
    · have unheld : ∀ c, a.server.slotId c ≠ some slot := fun c held => free c ((congrFun slots c).trans held)
      have lower : ((a.server.HandleGameStateAck client packet).entity e).lastFramesSent slot ≤
          (a.server.entity e).lastFramesSent slot := (raises e slot).2.resolve_right (fun moved => unheld client moved.1)
      rcases kept.left slot unheld e (list ▸ mem) with zero | ⟨c,pending,level⟩
      · exact .inl (Nat.le_zero.mp (lower.trans_eq zero))
      · exact .inr ⟨c,drops.symm ▸ pending,lower.trans (level.trans (newest c e))⟩
  · have idle : a.step (.fromClient client now protect (.ack packet)) = a := by
      unfold step Server.step
      dsimp only
      rw [if_neg known,if_neg known,List.drop_length,List.filterMap_nil,List.append_nil]
    rw [idle]
    exact kept

theorem stepKeeps (kept : a.Kept) (op : Op) (covered : a.Covered op) : (a.step op).Kept := by
  by_cases ack : ∃ client now protect packet, op = .fromClient client now protect (.ack packet)
  · obtain ⟨client,now,protect,packet,rfl⟩ := ack
    exact stepAck kept client now protect packet covered
  · have quiet := stepQuiet op (fun client now protect packet same => ack ⟨client,now,protect,packet,same⟩) covered
    exact ⟨kept.coherent.step op,quiet.acked kept covered,stepWritten kept quiet.preSent,quiet.left kept⟩

end

theorem basesAcked {bigMode lengthHack : Bool} {ops : List Op}
    (covered : Along step Covered (init bigMode lengthHack) ops) :
    Throughout step BasesAcked (init bigMode lengthHack) ops := by
  refine throughoutMono (fun _ kept => kept.acked) (throughoutOfKept Kept
    (fun _ op kept covered => stepKeeps kept op covered) ⟨.init bigMode lengthHack,?_,fun _ _ => .inl rfl,?_⟩ covered)
  · intro client slot has
    cases has
  · intro slot free e mem
    cases mem

def carRecord : CloneData := ⟨1,7,some .Automobile,0,1,⟨0,false,false,none⟩,false,true,true⟩

def ackedTick (curTime : Nat) : TickInput where
  curTime := curTime
  oneSyncARQ := true
  culling := false
  vehicleCulling := false
  tickMul := 1
  viaPos := fun _ _ => true
  syncDelay := fun _ _ => 1000
  fakeSend := fun _ => false
  lastSeenLongAgo := fun _ => false
  wroteData := fun _ _ => true

def carSeen : List Op :=
  [.connect,.connect,.fromClient 2 0 false (.timestamp 5),.fromClient 2 0 false (.cloneCreate carRecord),
    .passFilter 0,.tick (ackedTick 10),.fromClient 1 0 false (.ackCreate 1 7),
    .fromClient 1 0 false (.ack ⟨1,[],[]⟩)]

/-- Frames 1 and 2 have updates of the car, frame 3 has none. -/
def carSettled : List Op :=
  carSeen ++ [.tick (ackedTick 20),.fromClient 1 0 false (.ack ⟨2,[],[]⟩),.tick (ackedTick 30),.fromClient 1 0 false (.ack ⟨3,[],[]⟩)]

theorem basesAckedSeen : Throughout step BasesAcked (init false false) carSettled := by
  have first : ∀ e ∈ (run step (init false false) (carSettled.take 7)).server.entityList,
      (run step (init false false) (carSettled.take 7)).server.sentTo 1 e 1 = true := by decide +kernel
  have second : ∀ e ∈ (run step (init false false) (carSettled.take 9)).server.entityList,
      (run step (init false false) (carSettled.take 9)).server.sentTo 1 e 2 = true := by decide +kernel
  have settled : ∀ e ∈ (run step (init false false) (carSettled.take 11)).server.entityList,
      ∀ u ∈ (run step (init false false) (carSettled.take 11)).updates,
        u.level ≤ (run step (init false false) (carSettled.take 11)).newest 1 e := by decide +kernel
  exact basesAcked ⟨fun _ _ _ mem => absurd mem List.not_mem_nil,fun _ _ _ mem => absurd mem List.not_mem_nil,
    trivial,trivial,trivial,rfl,trivial,fun _ _ _ e mem _ => .inl (first e mem),rfl,fun _ _ _ e mem _ => .inl (second e mem),rfl,
    fun _ _ _ e mem _ => .inr (.inr fun ⟨u,inLog,_,_,newer⟩ => absurd newer (Nat.not_lt.mpr (settled e mem u inLog))),trivial⟩

def carLost : List Op :=
  carSeen ++ [.fromClient 2 0 false (.cloneSync carRecord),.tick (ackedTick 20),.tick (ackedTick 30),
    .fromClient 1 0 false (.ack ⟨3,[],[]⟩)]

theorem lostUpdateAcked : ¬ ∀ ops, (∀ input, Op.tick input ∈ ops → input.oneSyncARQ = true) →
      Throughout step BasesAcked (init false false) ops := by
  intro all
  have mode : ∀ input, Op.tick input ∈ carLost → input.oneSyncARQ = true := by
    intro input mem
    simp only [carLost,carSeen,List.mem_append,List.mem_cons,List.not_mem_nil,or_false,reduceCtorEq,false_or,
      Op.tick.injEq] at mem
    rcases mem with rfl | rfl | rfl <;> rfl
  have last := throughoutLast (all carLost mode) 1 128 (by decide +kernel) 0 (by decide +kernel)
  exact absurd last (by decide +kernel)

end Acknowledged
end Citizen.State
