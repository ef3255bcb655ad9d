import Citizen.State.System

/-! What most operations leave alone: the skeleton of the server (which entities and
clients there are and what they are called), with it the ids and owners, and the bases of
the deltas. What an operation leaves alone is proved once for every view of the server
that its edits cannot reach. -/
namespace Citizen.State

structure Skeleton where
  bigMode : Bool
  frameIndex : Nat
  syncStyle : SyncStyle
  entityList : List EntityRef
  entitiesById : Nat → Option EntityRef
  used : Finset Nat
  nextEntity : EntityRef
  core : EntityRef → Nat × Nat × NetObjEntityType × Bool
  registry : List ClientId
  dropping : Finset ClientId
  slotId : ClientId → Option Slot
  drops : List (ClientId × Option Slot)
  removals : List EntityRef
  nextNetId : ClientId

structure Ids where
  skeleton : Skeleton
  sent : Finset Nat
  stolen : Finset Nat
  owners : EntityRef → Option ClientId × Option ClientId
  held : ClientId → Finset Nat

structure Bases where
  sent : List SentRecord
  entity : EntityRef → (Slot → Nat) × (Slot → Nat) × Nat
  frames : ClientId → Table Nat ClientEntityState

namespace SyncEntityState

def core (x : SyncEntityState) : Nat × Nat × NetObjEntityType × Bool :=
  (x.handle,x.uniqifier,x.type,x.finalizing)
def owners (x : SyncEntityState) : Option ClientId × Option ClientId := (x.client,x.firstOwner)
def bases (x : SyncEntityState) : (Slot → Nat) × (Slot → Nat) × Nat :=
  (x.lastFramesSent,x.lastFramesPreSent,x.lastFrameIndex)

end SyncEntityState

namespace Server

def skeleton (s : Server) : Skeleton where
  bigMode := s.bigMode
  frameIndex := s.frameIndex
  syncStyle := s.syncStyle
  entityList := s.entityList
  entitiesById := s.entitiesById
  used := s.objectIdsUsed
  nextEntity := s.nextEntity
  core := fun e => (s.entity e).core
  registry := s.registry
  dropping := s.dropping
  slotId := s.slotId
  drops := s.drops
  removals := s.removals
  nextNetId := s.nextNetId

def ids (s : Server) : Ids where
  skeleton := s.skeleton
  sent := s.objectIdsSent
  stolen := s.objectIdsStolen
  owners := fun e => (s.entity e).owners
  held := fun c => (s.data c).objectIds

def bases (s : Server) : Bases where
  sent := s.sent
  entity := fun e => (s.entity e).bases
  frames := fun c => (s.data c).frameStates

structure Blind {α : Type} (view : Server → α) : Prop where
  entity : ∀ (s : Server) (e : EntityRef) (f : SyncEntityState → SyncEntityState),
    (∀ x, (f x).core = x.core ∧ (f x).owners = x.owners ∧ (f x).bases = x.bases) →
      view (s.modifyEntity e f) = view s
  data : ∀ (s : Server) (c : ClientId) (f : GameStateClientData → GameStateClientData),
    (∀ d, (f d).objectIds = d.objectIds ∧ (f d).frameStates = d.frameStates ∧
      (f d).firstSavedFrameState = d.firstSavedFrameState) → view (s.modifyData c f) = view s

structure Ownerless {α : Type} (view : Server → α) : Prop where
  entity : ∀ (s : Server) (e : EntityRef) (f : SyncEntityState → SyncEntityState),
    (∀ x, (f x).core = x.core ∧ (f x).bases = x.bases) → view (s.modifyEntity e f) = view s
  data : ∀ (s : Server) (c : ClientId) (f : GameStateClientData → GameStateClientData),
    (∀ d, (f d).frameStates = d.frameStates ∧ (f d).firstSavedFrameState = d.firstSavedFrameState) →
      view (s.modifyData c f) = view s
  grants : ∀ (s : Server) (sent stolen : Finset Nat),
    view { s with objectIdsSent := sent, objectIdsStolen := stolen } = view s

theorem Ownerless.blind {α : Type} {view : Server → α} (ownerless : Ownerless view) : Blind view where
  entity := fun s e f kept => ownerless.entity s e f (fun x => ⟨(kept x).1,(kept x).2.2⟩)
  data := fun s c f kept => ownerless.data s c f (fun d => (kept d).2)

structure Coarse {α : Type} (view : Server → α) : Prop where
  entity : ∀ (s : Server) (e : EntityRef) (f : SyncEntityState → SyncEntityState),
    (∀ x, (f x).core = x.core ∧ (f x).owners = x.owners ∧ (f x).bases = x.bases) →
      view (s.modifyEntity e f) = view s
  data : ∀ (s : Server) (c : ClientId) (f : GameStateClientData → GameStateClientData),
    (∀ d, (f d).objectIds = d.objectIds ∧ (f d).frameStates = d.frameStates ∧
      (f d).firstSavedFrameState = d.firstSavedFrameState ∧ (f d).playersToSlots = d.playersToSlots ∧
      (f d).playersInScope = d.playersInScope) → view (s.modifyData c f) = view s

structure Baseless {α : Type} (view : Server → α) : Prop where
  entity : ∀ (s : Server) (e : EntityRef) (f : SyncEntityState → SyncEntityState),
    (∀ x, (f x).core = x.core ∧ (f x).owners = x.owners) → view (s.modifyEntity e f) = view s
  data : ∀ (s : Server) (c : ClientId) (f : GameStateClientData → GameStateClientData),
    (∀ d, (f d).objectIds = d.objectIds ∧ (f d).frameStates = d.frameStates ∧
      (f d).firstSavedFrameState = d.firstSavedFrameState ∧ (f d).playersToSlots = d.playersToSlots ∧
      (f d).playersInScope = d.playersInScope) → view (s.modifyData c f) = view s
  send : ∀ (s : Server) (record : SentRecord), view (s.send record) = view s

structure Unowned {α : Type} (view : Server → α) : Prop where
  entity : ∀ (s : Server) (e : EntityRef) (f : SyncEntityState → SyncEntityState),
    (∀ x, (f x).core = x.core ∧ (f x).bases = x.bases) → view (s.modifyEntity e f) = view s
  data : ∀ (s : Server) (c : ClientId) (f : GameStateClientData → GameStateClientData),
    (∀ d, (f d).frameStates = d.frameStates ∧ (f d).firstSavedFrameState = d.firstSavedFrameState ∧
      (f d).playersToSlots = d.playersToSlots ∧ (f d).playersInScope = d.playersInScope) →
      view (s.modifyData c f) = view s
  grants : ∀ (s : Server) (sent stolen : Finset Nat),
    view { s with objectIdsSent := sent, objectIdsStolen := stolen } = view s

section
variable {α : Type} {view : Server → α}

theorem Blind.coarse (blind : Blind view) : Coarse view where
  entity := blind.entity
  data := fun s c f kept => blind.data s c f (fun d => ⟨(kept d).1,(kept d).2.1,(kept d).2.2.1⟩)

theorem Baseless.coarse (baseless : Baseless view) : Coarse view where
  entity := fun s e f kept => baseless.entity s e f (fun x => ⟨(kept x).1,(kept x).2.1⟩)
  data := baseless.data

theorem Unowned.coarse (unowned : Unowned view) : Coarse view where
  entity := fun s e f kept => unowned.entity s e f (fun x => ⟨(kept x).1,(kept x).2.2⟩)
  data := fun s c f kept => unowned.data s c f (fun d => (kept d).2)

theorem Ownerless.unowned (ownerless : Ownerless view) : Unowned view where
  entity := ownerless.entity
  data := fun s c f kept => ownerless.data s c f (fun d => ⟨(kept d).1,(kept d).2.1⟩)
  grants := ownerless.grants

end

theorem skeletonModifyEntity (s : Server) (e : EntityRef) {f} (kept : ∀ x : SyncEntityState, (f x).core = x.core) :
    (s.modifyEntity e f).skeleton = s.skeleton := by
  have same : (fun e' => ((s.modifyEntity e f).entity e').core) = fun e' => (s.entity e').core :=
    funext (fun e' => entityModifyKeeps s e e' kept)
  unfold skeleton
  rw [same]
  rfl

theorem idsModifyEntity (s : Server) (e : EntityRef) {f} (core : ∀ x : SyncEntityState, (f x).core = x.core)
    (owners : ∀ x : SyncEntityState, (f x).owners = x.owners) : (s.modifyEntity e f).ids = s.ids := by
  have same : (fun e' => ((s.modifyEntity e f).entity e').owners) =
      fun e' => (s.entity e').owners := funext (fun e' => entityModifyKeeps s e e' owners)
  unfold ids
  rw [same,skeletonModifyEntity s e core]
  rfl

theorem idsModifyData (s : Server) (c : ClientId) {f}
    (kept : ∀ d : GameStateClientData, (f d).objectIds = d.objectIds) : (s.modifyData c f).ids = s.ids := by
  have same : (fun c' => ((s.modifyData c f).data c').objectIds) =
      fun c' => (s.data c').objectIds := funext (fun c' => dataModifyKeeps s c c' kept)
  unfold ids
  rw [same]
  rfl

theorem basesModifyEntity (s : Server) (e : EntityRef) {f} (kept : ∀ x : SyncEntityState, (f x).bases = x.bases) :
    (s.modifyEntity e f).bases = s.bases := by
  have same : (fun e' => ((s.modifyEntity e f).entity e').bases) = fun e' => (s.entity e').bases :=
    funext (fun e' => entityModifyKeeps s e e' kept)
  unfold bases
  rw [same]
  rfl

theorem basesModifyData (s : Server) (c : ClientId) {f}
    (kept : ∀ d : GameStateClientData, (f d).frameStates = d.frameStates) : (s.modifyData c f).bases = s.bases := by
  have same : (fun c' => ((s.modifyData c f).data c').frameStates) =
      fun c' => (s.data c').frameStates := funext (fun c' => dataModifyKeeps s c c' kept)
  unfold bases
  rw [same]
  rfl

theorem idsBlind : Blind ids where
  entity := fun s e _ kept => idsModifyEntity s e (fun x => (kept x).1) (fun x => (kept x).2.1)
  data := fun s c _ kept => idsModifyData s c (fun d => (kept d).1)

theorem skeletonOwnerless : Ownerless skeleton where
  entity := fun s e _ kept => skeletonModifyEntity s e (fun x => (kept x).1)
  data := fun _ _ _ _ => rfl
  grants := fun _ _ _ => rfl

theorem basesOwnerless : Ownerless bases where
  entity := fun s e _ kept => basesModifyEntity s e (fun x => (kept x).2)
  data := fun s c _ kept => basesModifyData s c (fun d => (kept d).1)
  grants := fun _ _ _ => rfl

theorem skeletonOfIds {s s' : Server} (same : s'.ids = s.ids) : s'.skeleton = s.skeleton :=
  congrArg Ids.skeleton same

namespace Coarse

variable {α : Type} {view : Server → α} (coarse : Coarse view) (s : Server) (e : EntityRef)
  (client : ClientId) (slot : Slot) (now : Nat)
include coarse

theorem setSynced (t) : view (s.setSynced client t) = view s :=
  coarse.data _ _ _ (by intro _; exact ⟨rfl,rfl,rfl,rfl,rfl⟩)

theorem setToDestroy (t) : view (s.setToDestroy client t) = view s :=
  coarse.data _ _ _ (by intro _; exact ⟨rfl,rfl,rfl,rfl,rfl⟩)

theorem forceResend : view (Server.forceResend e s client) = view s := by
  unfold Server.forceResend
  split
  · rfl
  · split
    · exact coarse.setSynced ..
    · rfl

theorem removeClone (objectId : Nat) : view (s.RemoveClone objectId) = view s := by
  unfold RemoveClone
  split
  · rfl
  · exact coarse.entity _ _ _ (by intro _; exact ⟨rfl,rfl,rfl⟩)

theorem deleteEntity : view (s.DeleteEntity e) = view s := by
  unfold DeleteEntity
  split
  · rfl
  · split
    · rfl
    · split
      · exact foldSame view (fun s' id => coarse.removeClone s' id)
      · exact coarse.removeClone ..

theorem firstOwnerLeft : view (s.firstOwnerLeft client e) = view s := by
  unfold Server.firstOwnerLeft
  split
  · exact coarse.entity _ _ _ (by intro _; exact ⟨rfl,rfl,rfl⟩)
  · rfl

theorem markRelevant : view (s.markRelevant e slot) = view s :=
  coarse.entity _ _ _ (by intro _; exact ⟨rfl,rfl,rfl⟩)

theorem ownerCheck {s s' : Server} {now client e} (passed : s.ownerCheck now client e = some s') :
    view s' = view s := by
  unfold Server.ownerCheck at passed
  split at passed
  · contradiction
  · split at passed
    · cases passed
      rfl
    · split at passed
      · cases passed
        exact coarse.entity _ _ _ (by intro _; exact ⟨rfl,rfl,rfl⟩)
      · contradiction

theorem adoptPlayer : view (s.adoptPlayer client e) = view s := by
  unfold Server.adoptPlayer
  split
  · exact coarse.data _ _ _ (by intro _; exact ⟨rfl,rfl,rfl,rfl,rfl⟩)
  · rfl

theorem settleToken (packet : CloneData) : view (s.settleToken e packet) = view s :=
  coarse.entity _ _ _ (by intro _; exact ⟨rfl,rfl,rfl⟩)

theorem startDelete (packet : CloneData) : view (s.startDelete client e packet) = view s := by
  unfold Server.startDelete
  exact (coarse.setToDestroy ..).trans (coarse.removeClone ..)

theorem processCloneRemove (protect : Bool) (objectId uniqifier : Nat) :
    view (s.ProcessCloneRemove protect client objectId uniqifier) = view s := by
  unfold ProcessCloneRemove
  split
  · rfl
  · split
    · rfl
    · split
      · rfl
      · split
        · rfl
        · exact coarse.removeClone ..

theorem setTimestamp (ts : Nat) : view (s.setTimestamp client ts) = view s := by
  unfold Server.setTimestamp
  split
  · exact coarse.data _ _ _ (by intro _; exact ⟨rfl,rfl,rfl,rfl,rfl⟩)
  · rfl

theorem ackCreate (objectId uniqifier : Nat) : view (s.ackCreate client objectId uniqifier) = view s := by
  unfold Server.ackCreate
  split
  · rfl
  · split
    · rfl
    · dsimp only
      rw [coarse.setSynced]
      split
      · rfl
      · exact coarse.entity _ _ _ (by intro _; exact ⟨rfl,rfl,rfl⟩)

theorem ackRemove (objectId uniqifier : Nat) : view (s.ackRemove client objectId uniqifier) = view s :=
  coarse.setToDestroy ..

theorem applyOverrides (input : TickInput) : view (s.applyOverrides input client slot e) = view s := by
  unfold Server.applyOverrides
  dsimp only
  have wants : view (if s.ownsEntity client e then
      s.modifyEntity e (fun x => { x with wantsReassign := !s.inScope input client e })
      else s) = view s := by
    split
    · exact coarse.entity _ _ _ (by intro _; exact ⟨rfl,rfl,rfl⟩)
    · rfl
  split
  · exact (coarse.entity _ _ _ (by intro _; exact ⟨rfl,rfl,rfl⟩)).trans wants
  · exact wants

theorem relevanceStep (input : TickInput) (acc) :
    view (Server.relevanceStep input client slot acc e).1 = view acc.1 := by
  unfold Server.relevanceStep
  dsimp only
  split
  · rfl
  · split
    · split
      · exact coarse.applyOverrides ..
      · split
        · exact (coarse.setToDestroy ..).trans (coarse.applyOverrides ..)
        · exact coarse.applyOverrides ..
    · split
      · dsimp only
        exact (coarse.entity _ _ _ (by intro _; exact ⟨rfl,rfl,rfl⟩)).trans (coarse.applyOverrides ..)
      · exact coarse.applyOverrides ..

theorem relevancePass (input : TickInput) (entities : List EntityRef) :
    view (Server.relevancePass input entities s client) = view s := by
  unfold Server.relevancePass
  split
  · rfl
  · exact (coarse.setSynced ..).trans
      (foldSame (fun acc => view acc.1) (fun acc e => coarse.relevanceStep e client _ input acc))

theorem moveDeleting : view (s.moveDeleting client) = view s := by
  unfold Server.moveDeleting
  exact (coarse.setSynced ..).trans (coarse.setToDestroy ..)

theorem repeatDeletion (deletion : IdentPair × EntityDeletionData) :
    view (Server.repeatDeletion client s deletion) = view s :=
  coarse.setToDestroy ..

theorem recreateEntry (frame : ClientEntityState) (objectId : Nat) :
    view (Server.recreateEntry frame client s objectId) = view s := by
  unfold Server.recreateEntry
  split
  · rfl
  · split
    · rfl
    · exact coarse.setSynced ..

theorem ackRecreate (frame : ClientEntityState) (objectId : Nat) :
    view (Server.ackRecreate frame client s objectId) = view s := by
  unfold Server.ackRecreate
  split
  · rfl
  · split
    · rfl
    · exact coarse.setSynced ..

end Coarse

namespace Blind

variable {α : Type} {view : Server → α} (blind : Blind view) (s : Server) (e : EntityRef)
  (client : ClientId) (slot : Slot) (now : Nat)
include blind

theorem leaveScope (netId : ClientId) : view (Server.leaveScope netId s client) = view s := by
  unfold Server.leaveScope
  split
  · rfl
  · exact blind.data _ _ _ (by intro _; exact ⟨rfl,rfl,rfl⟩)

theorem leaveSlot : view (s.leaveSlot client e) = view s := by
  unfold Server.leaveSlot
  split
  · split
    · rfl
    · exact blind.leaveScope ..
  · rfl

theorem placePlayer : view (s.placePlayer client e).2 = view s := by
  unfold Server.placePlayer
  split
  · split
    · rfl
    · split
      · rfl
      · split
        · rfl
        · dsimp only
          exact blind.data _ _ _ (by intro _; exact ⟨rfl,rfl,rfl⟩)
  · rfl

theorem createEntry (identPair : IdentPair) (syncData : SyncedEntityData) :
    view (Server.createEntry client s identPair syncData).2 = view s := by
  have placed := blind.placePlayer s syncData.entity client
  unfold Server.createEntry
  split
  · rfl
  · split
    · rename_i eq
      rw [eq] at placed
      exact (blind.coarse.setSynced ..).trans placed
    · rename_i eq
      rw [eq] at placed
      dsimp only
      exact (blind.data _ _ _ (by intro _; exact ⟨rfl,rfl,rfl⟩)).trans ((blind.coarse.setSynced ..).trans placed)

end Blind

namespace Unowned

variable {α : Type} {view : Server → α} (unowned : Unowned view) (s : Server) (e : EntityRef)
  (client : ClientId) (slot : Slot) (now : Nat)
include unowned

theorem eraseObjectId (c : Option ClientId) (id : Nat) : view (s.eraseObjectId c id) = view s := by
  unfold Server.eraseObjectId
  split
  · rfl
  · exact unowned.data _ _ _ (by intro _; exact ⟨rfl,rfl,rfl,rfl⟩)

theorem insertObjectId (c : Option ClientId) (id : Nat) : view (s.insertObjectId c id) = view s := by
  unfold Server.insertObjectId
  split
  · rfl
  · exact unowned.data _ _ _ (by intro _; exact ⟨rfl,rfl,rfl,rfl⟩)

theorem reassignEntityInner (target : Option ClientId) (handle : Nat) :
    view (ReassignEntityInner now target s handle) = view s := by
  unfold ReassignEntityInner
  split
  · rfl
  · split
    · rfl
    · refine (unowned.grants _ _ _).trans ?_
      refine (foldSame view (fun s' c => unowned.coarse.forceResend s' _ c)).trans ?_
      rw [unowned.insertObjectId,unowned.eraseObjectId]
      exact unowned.entity _ _ _ (by intro _; exact ⟨rfl,rfl⟩)

theorem reassignEntity (target : Option ClientId) (handle : Nat) :
    view (ReassignEntity now target s handle) = view s := by
  unfold ReassignEntity
  dsimp only
  split
  · exact unowned.reassignEntityInner ..
  · exact (foldSame view (fun s' id => unowned.reassignEntityInner s' now target id)).trans
      (unowned.reassignEntityInner ..)

theorem moveEntityToCandidate (distance) : view (MoveEntityToCandidate now distance s e client).2 = view s := by
  unfold MoveEntityToCandidate
  split
  · rfl
  · split
    · rfl
    · split
      · split
        · exact unowned.reassignEntity ..
        · rfl
      · exact unowned.reassignEntity ..

theorem takeFreeIds (list : List Nat) (count : Nat) : view (Server.takeFreeIds s client list count).2 = view s := by
  induction list generalizing s count with
  | nil => cases count <;> rfl
  | cons id rest ih =>
    cases count with
    | zero => rfl
    | succ count =>
      unfold Server.takeFreeIds
      split
      · refine (ih _ _).trans ((unowned.grants _ _ _).trans ?_)
        exact unowned.data _ _ _ (by intro _; exact ⟨rfl,rfl,rfl,rfl⟩)
      · exact ih _ _

theorem processCloneTakeover (clientId objectId : Nat) :
    view (s.ProcessCloneTakeover now client clientId objectId) = view s := by
  unfold ProcessCloneTakeover
  split
  · rfl
  · dsimp only
    split
    · rfl
    · split
      · rfl
      · split
        · rfl
        · exact unowned.reassignEntity ..

theorem destroyEntity (objectId : Nat) (outOfScope : Bool) :
    view (Server.destroyEntity now client slot s objectId e outOfScope) = view s := by
  unfold Server.destroyEntity
  dsimp only
  have left : view ((s.modifyEntity e (fun x => { x with relevantTo := x.relevantTo.erase slot })).modifyEntity
      e (fun x => { x with outOfScopeFor := insert slot x.outOfScopeFor })) = view s :=
    (unowned.entity _ _ _ (by intro _; exact ⟨rfl,rfl⟩)).trans (unowned.entity _ _ _ (by intro _; exact ⟨rfl,rfl⟩))
  split
  · exact (unowned.entity _ _ _ (by intro _; exact ⟨rfl,rfl⟩)).trans (unowned.entity _ _ _ (by intro _; exact ⟨rfl,rfl⟩))
  · split
    · refine (unowned.grants _ _ _).trans ?_
      split
      · exact (unowned.reassignEntity ..).trans left
      · exact left
    · exact left

theorem yoink : view (Server.yoink now client s e) = view s := by
  unfold Server.yoink
  split
  · exact (unowned.reassignEntity ..).trans (unowned.entity _ _ _ (by intro _; exact ⟨rfl,rfl⟩))
  · rfl

end Unowned

namespace Ownerless

variable {α : Type} {view : Server → α} (ownerless : Ownerless view) (s : Server) (e : EntityRef)
  (client : ClientId) (slot : Slot) (now : Nat)
include ownerless

theorem destroyStep (input : TickInput) (acc : Frame) (entry) :
    view (Server.destroyStep input client slot acc entry).server = view acc.server := by
  unfold Server.destroyStep
  dsimp only
  split
  · rfl
  · exact (ownerless.blind.leaveSlot ..).trans (ownerless.unowned.destroyEntity ..)

theorem destroyPass (input : TickInput) : view (Server.destroyPass input client slot s).server = view s := by
  have destroyed : view ((((s.moveDeleting client).data client).entitiesToDestroy.entries.foldl
      (Server.destroyStep input client slot) ⟨s.moveDeleting client,⟨∅,[]⟩,[]⟩).server) = view s :=
    (foldSame (fun acc : Frame => view acc.server)
      (fun acc entry => ownerless.destroyStep client slot input acc entry)).trans
      (ownerless.blind.coarse.moveDeleting ..)
  unfold Server.destroyPass
  dsimp only
  split
  · exact (ownerless.blind.coarse.setToDestroy ..).trans destroyed
  · exact destroyed

end Ownerless

namespace Baseless

variable {α : Type} {view : Server → α} (baseless : Baseless view) (s : Server) (e : EntityRef)
  (client : ClientId) (slot : Slot) (now : Nat)
include baseless

theorem clearSlot (slotId : Option Slot) : view (s.clearSlot slotId e) = view s := by
  unfold Server.clearSlot
  split
  · rfl
  · exact baseless.entity _ _ _ (by intro _; exact ⟨rfl,rfl⟩)

theorem parseInto (packet : CloneData) (isSync : Bool) : view (s.parseInto client e packet isSync) = view s := by
  unfold Server.parseInto
  split
  · exact baseless.entity _ _ _ (by intro _; exact ⟨rfl,rfl⟩)
  · rfl

theorem processCloneSync (packet : CloneData) : view (s.ProcessCloneSync now client packet) = view s := by
  unfold ProcessCloneSync
  split
  · rfl
  · split
    · rfl
    · split
      · rfl
      · dsimp only
        split
        · exact baseless.coarse.markRelevant ..
        · rename_i passed
          refine (baseless.data _ _ _ (by intro _; exact ⟨rfl,rfl,rfl,rfl,rfl⟩)).trans ?_
          rw [baseless.coarse.adoptPlayer,baseless.parseInto,baseless.coarse.ownerCheck passed]
          exact baseless.coarse.markRelevant ..

theorem resetBase : view (s.resetBase e slot) = view s :=
  baseless.entity _ _ _ (by intro _; exact ⟨rfl,rfl⟩)

theorem syncEntry (input : TickInput) (acc : Frame) (identPair : IdentPair) (syncData : SyncedEntityData) :
    view (Server.syncEntry input client slot acc identPair syncData).server = view acc.server := by
  unfold Server.syncEntry
  dsimp only
  split
  · rfl
  · have based : ∀ p : Prop,[Decidable p] →
        view (if p then acc.server.resetBase syncData.entity slot else acc.server) = view acc.server := by
      intro p _
      split
      · exact baseless.resetBase ..
      · rfl
    split
    · exact (baseless.coarse.setSynced ..).trans (based _)
    · exact based _

theorem recordBase (frame : Nat) : view (s.recordBase e slot frame) = view s := by
  unfold Server.recordBase
  split
  · exact baseless.entity _ _ _ (by intro _; exact ⟨rfl,rfl⟩)
  · exact baseless.entity _ _ _ (by intro _; exact ⟨rfl,rfl⟩)

theorem execute (input : TickInput) (command : SyncCommand) :
    view (Server.execute input client slot s command) = view s := by
  unfold Server.execute
  split
  · exact baseless.send ..
  · split
    · rfl
    · split
      · rfl
      · dsimp only
        rw [baseless.send]
        split
        · exact baseless.recordBase ..
        · rfl

theorem lowerBase (lastSent : Nat) : view (s.lowerBase e slot lastSent) = view s :=
  baseless.entity _ _ _ (by intro _; exact ⟨rfl,rfl⟩)

theorem nackEntry (acc) (entry) : view (Server.nackEntry client slot acc entry).1 = view acc.1 := by
  unfold Server.nackEntry
  split
  · rfl
  · split
    · exact baseless.coarse.setSynced ..
    · exact baseless.lowerBase ..

theorem nackFrame (acc) (frame : ClientEntityState) :
    view (Server.nackFrame client slot acc frame).1 = view acc.1 := by
  unfold Server.nackFrame
  exact (foldSame view (fun s' deletion => baseless.coarse.setToDestroy s' client _)).trans
    (foldSame (fun acc : Server × Table Nat Nat => view acc.1)
      (fun acc entry => baseless.nackEntry client slot acc entry))

theorem ignoreEntry (frame : ClientEntityState) (ignored) :
    view (Server.ignoreEntry frame slot s ignored) = view s := by
  unfold Server.ignoreEntry
  split
  · rfl
  · split
    · rfl
    · exact baseless.entity _ _ _ (by intro _; exact ⟨rfl,rfl⟩)

theorem ackFrame (packet : GameStateAck) (frame : ClientEntityState) :
    view (s.ackFrame client slot packet frame) = view s := by
  unfold Server.ackFrame
  refine (foldSame view (fun s' entry => ?_)).trans ((foldSame view (fun s' ignored => ?_)).trans
    (foldSame view (fun s' objectId => baseless.coarse.ackRecreate ..)))
  · unfold Server.ackEntry
    split
    · rfl
    · split
      · exact baseless.entity _ _ _ (by intro _; exact ⟨rfl,rfl⟩)
      · rfl
  · unfold ackIgnore
    split
    · rfl
    · split
      · rfl
      · exact baseless.entity _ _ _ (by intro _; exact ⟨rfl,rfl⟩)

section
variable (unowned : Unowned view) (distance) (slotId : Option Slot)
include unowned

theorem dropFromEntity (acc : Server × List Nat) :
    view (Server.dropFromEntity now distance client slotId acc e).1 = view acc.1 := by
  have cleared : view ((acc.1.firstOwnerLeft client e).clearSlot slotId e) = view acc.1 :=
    (baseless.clearSlot ..).trans (baseless.coarse.firstOwnerLeft ..)
  have moved := (unowned.moveEntityToCandidate ((acc.1.firstOwnerLeft client e).clearSlot slotId e)
    e client now distance).trans cleared
  unfold Server.dropFromEntity
  dsimp only
  split
  · exact cleared
  · split
    · rename_i eq
      rw [eq] at moved
      exact moved
    · rename_i eq
      rw [eq] at moved
      split
      · exact (unowned.reassignEntity ..).trans moved
      · exact moved

theorem dropEntities (entities : List EntityRef) :
    view ((entities.foldl (Server.dropFromEntity now distance client slotId) (s,[])).2.foldl RemoveClone
      (entities.foldl (Server.dropFromEntity now distance client slotId) (s,[])).1) = view s :=
  (foldSame view (fun s' id => baseless.coarse.removeClone s' id)).trans
    (foldSame (fun acc : Server × List Nat => view acc.1)
      (fun acc e => baseless.dropFromEntity e client now unowned distance slotId acc))

end

section
variable (ownerless : Ownerless view)
include ownerless

theorem handleClientDrop (distance) (slotId : Option Slot) :
    view (HandleClientDrop now distance s client slotId) = view s := by
  have left : view (if s.bigMode then s.allClients.foldl (Server.leaveScope client) s else s) = view s := by
    split
    · exact foldSame view (fun s' c => ownerless.blind.leaveScope s' c client)
    · rfl
  have dropped := (baseless.dropEntities _ client now ownerless.unowned distance slotId
    (if s.bigMode then s.allClients.foldl (Server.leaveScope client) s else s).entityList).trans left
  unfold HandleClientDrop
  dsimp only
  generalize List.foldl RemoveClone _ _ = removed at dropped ⊢
  exact (ownerless.grants removed _ removed.objectIdsStolen).trans dropped

theorem entryStep (input : TickInput) (acc : Frame) (identPair : IdentPair) :
    view (Server.entryStep input client slot acc identPair).server = view acc.server := by
  unfold Server.entryStep
  split
  · rfl
  · rename_i found _
    have owned := ownerless.unowned.yoink acc.server found.entity client input.curTime
    dsimp only
    split
    · exact owned
    · rename_i syncData _
      have ready := ownerless.blind.createEntry (Server.yoink input.curTime client acc.server found.entity) client
        identPair syncData
      split
      · rename_i eq
        rw [eq] at ready
        exact ready.trans owned
      · rename_i eq
        rw [eq] at ready
        exact (baseless.syncEntry ..).trans (ready.trans owned)

theorem updatePass (input : TickInput) : view (Server.updatePass input client slot s).server = view s := by
  unfold Server.updatePass
  exact (foldSame (fun acc : Frame => view acc.server)
    (fun acc identPair => baseless.entryStep client slot ownerless input acc identPair)).trans
    (ownerless.destroyPass ..)

end

end Baseless

theorem idsBaseless : Baseless ids where
  entity := fun s e _ kept => idsModifyEntity s e (fun x => (kept x).1) (fun x => (kept x).2)
  data := idsBlind.coarse.data
  send := fun _ _ => rfl

theorem skeletonBaseless : Baseless skeleton where
  entity := fun s e _ kept => skeletonModifyEntity s e (fun x => (kept x).1)
  data := skeletonOwnerless.blind.coarse.data
  send := fun _ _ => rfl

section
variable (s : Server) (e : EntityRef) (client : ClientId) (slot : Slot) (now : Nat)

theorem freeServerIdFree {s : Server} {limit id} (found : s.freeServerId limit = some id) :
    id ∉ s.objectIdsUsed ∧ id ∉ s.objectIdsSent := by
  induction limit with
  | zero => simp [freeServerId] at found
  | succ n ih =>
    unfold freeServerId at found
    split at found
    · rename_i free
      cases Option.some.inj found
      exact ⟨free.2,free.1⟩
    · exact ih found

theorem skeletonHandleClientDrop (distance) (slotId : Option Slot) :
    (HandleClientDrop now distance s client slotId).skeleton = s.skeleton :=
  skeletonBaseless.handleClientDrop s client now skeletonOwnerless distance slotId

theorem skeletonFreeClient : (s.freeClient client).skeleton = s.skeleton := rfl

def Enlists (s : Server) (client : ClientId) (packet : CloneData) : Prop :=
  packet.objectId ≠ 0xFFFF ∧ s.GetEntity packet.objectId = none ∧ (s.slotId client).isSome ∧
    packet.objectType.any (fun type => type == .Player || packet.valid) ∧ packet.accepted

theorem processCloneCreateCases (packet : CloneData) : s.ProcessCloneCreate now client packet = s ∨
    ∃ type, s.GetEntity packet.objectId = none ∧
      ((s.ProcessCloneCreate now client packet).ids = (s.constructEntity client packet type).ids ∨
        ∃ ready : Server, ready.ids = (s.constructEntity client packet type).ids ∧ s.Enlists client packet ∧
          s.ProcessCloneCreate now client packet = ready.enlist client s.nextEntity packet) := by
  unfold ProcessCloneCreate
  split
  · exact .inl rfl
  · rename_i real
    split
    · exact .inl rfl
    · rename_i free
      split
      · exact .inl rfl
      · rename_i type typed
        refine .inr ⟨type,free,?_⟩
        dsimp only
        split
        · exact .inl rfl
        · rename_i slot may
          have placed : (s.slotId client).isSome := by
            unfold mayTouch at may
            split at may
            · contradiction
            · split at may
              · contradiction
              · rename_i slot has
                exact Option.isSome_of_eq_some has
          split
          · exact .inl (idsBlind.coarse.markRelevant ..)
          · rename_i checked passed
            have ready : (((checked.parseInto client s.nextEntity packet false).adoptPlayer
                client s.nextEntity).settleToken s.nextEntity packet).ids =
                (s.constructEntity client packet type).ids := by
              rw [idsBlind.coarse.settleToken,idsBlind.coarse.adoptPlayer,idsBaseless.parseInto,idsBlind.coarse.ownerCheck passed,idsBlind.coarse.markRelevant]
            unfold createdHere
            dsimp only
            generalize ((checked.parseInto client s.nextEntity packet false).adoptPlayer
              client s.nextEntity).settleToken s.nextEntity packet = settled at *
            split
            · exact .inl ((idsBlind.coarse.startDelete ..).trans ready)
            · rename_i kept
              have called : (settled.entity s.nextEntity).type = type := by
                have core := congrArg (fun v : Ids => (v.skeleton.core s.nextEntity).2.2.1) ready
                simpa [ids,skeleton,SyncEntityState.core,constructEntity,SyncEntityState.fresh] using core
              have accepted : (type == .Player || packet.valid) = true ∧ packet.accepted = true := by
                rw [rejected,called] at kept
                simpa [Bool.or_eq_true,or_iff_not_imp_left] using kept
              refine .inr ⟨settled,ready,⟨real,free,placed,?_,accepted.2⟩,rfl⟩
              rw [typed]
              exact accepted.1

end

section
variable (s : Server) (input : TickInput) (client : ClientId) (slot : Slot) (e : EntityRef)

theorem skeletonUpdatePass : (updatePass input client slot s).server.skeleton = s.skeleton :=
  skeletonBaseless.updatePass s client slot skeletonOwnerless input

theorem idsSaveFrame (ces : ClientEntityState) : (saveFrame input client s ces).ids = s.ids := by
  unfold saveFrame
  exact idsModifyData _ _ (by intro _; rfl)

theorem skeletonClientPass : (clientPass input s client).skeleton = s.skeleton := by
  unfold clientPass
  split
  · rfl
  · exact (foldSame skeleton (fun s' command => skeletonOfIds (idsBaseless.execute s' client _ input command))).trans
      ((skeletonOfIds (idsSaveFrame ..)).trans (skeletonUpdatePass ..))

theorem skeletonUpdatePhase : (s.updatePhase input).skeleton = s.skeleton :=
  foldSame skeleton (fun s' c => skeletonClientPass s' input c)

theorem idsRelevancePhase : (s.relevancePhase input).ids = (s.swept input).1.ids :=
  foldSame ids (fun s' c => idsBlind.coarse.relevancePass s' c input _)

end

section
variable (s : Server) (client : ClientId) (slot : Slot) (e : EntityRef)

theorem idsPropagate (last : Nat) (corrections) : (s.propagate client last corrections).ids = s.ids :=
  idsModifyData _ _ (by intro _; rfl)

def Dropped (before after : Ids) : Prop :=
  ∃ dropping, after = { before with skeleton := { before.skeleton with dropping := dropping } }

theorem droppedSame (v : Ids) : Dropped v v := ⟨v.skeleton.dropping,rfl⟩

theorem idsNackFrames (first : Nat) (count : Nat) (acc) :
    Dropped acc.1.ids (nackFrames client slot first count acc).1.ids := by
  induction count generalizing acc with
  | zero => exact droppedSame _
  | succ n ih =>
    unfold nackFrames
    split
    · exact ⟨insert client acc.1.dropping,rfl⟩
    · rename_i frame _
      have later := ih (nackFrame client slot acc frame)
      rwa [idsBaseless.nackFrame] at later

theorem idsNackLists (packet : GameStateNAck) : Dropped s.ids (s.nackLists client slot packet).ids := by
  unfold nackLists
  split
  · exact ⟨insert client s.dropping,rfl⟩
  · rename_i frame _
    have ignored : (if packet.flags.testBit 1 then
        packet.ignoreList.foldl (ignoreEntry frame slot) s else s).ids = s.ids := by
      split
      · exact foldSame ids (fun s' ignored => idsBaseless.ignoreEntry s' slot frame ignored)
      · rfl
    dsimp only
    split
    · rw [foldSame ids (fun s' objectId => idsBlind.coarse.recreateEntry s' client frame objectId),ignored]
      exact droppedSame _
    · rw [ignored]
      exact droppedSame _

theorem idsHandleGameStateNAck (packet : GameStateNAck) :
    Dropped s.ids (s.HandleGameStateNAck client packet).ids := by
  unfold HandleGameStateNAck
  split
  · exact droppedSame _
  · split
    · exact droppedSame _
    · rename_i slot _
      have missing : Dropped s.ids (s.nackMissing client slot packet).1.ids := by
        unfold nackMissing
        dsimp only
        split
        · exact idsNackFrames client slot _ _ (s,∅)
        · dsimp only
          rw [idsPropagate]
          exact idsNackFrames client slot _ _ (s,∅)
      split
      · split
        · rename_i eq
          rw [eq] at missing
          exact missing
        · rename_i corrected eq
          rw [eq] at missing
          obtain ⟨dropping,shape⟩ := missing
          obtain ⟨dropping',later⟩ := idsNackLists corrected client slot packet
          dsimp only at shape
          rw [shape] at later
          exact ⟨dropping',later⟩
      · exact idsNackLists ..

theorem idsHandleGameStateAck (packet : GameStateAck) : (s.HandleGameStateAck client packet).ids = s.ids := by
  unfold HandleGameStateAck
  split
  · rfl
  · split
    · rfl
    · exact (idsModifyData _ _ (by intro _; rfl)).trans (idsBaseless.ackFrame ..)

end

end Server
end Citizen.State
