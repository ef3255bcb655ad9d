import Citizen.State.Coherence

/-! Which operations can make the base of a delta rise: only an acknowledgement, as long
as the server stays in acknowledgement mode. -/
namespace Citizen.State
open Server

/-- The base of a client's next delta, and the frame of the data that was last written for it. -/
def SyncEntityState.levels (x : SyncEntityState) (slot : Slot) : Nat × Nat := (x.lastFramesSent slot,x.lastFramesPreSent slot)

structure Lowers (s s' : Server) : Prop where
  sent : s'.sent = s.sent
  levels : ∀ e slot, (s'.entity e).levels slot ≤ (s.entity e).levels slot
  list : ∀ e ∈ s'.entityList, e ∈ s.entityList ∨ ∀ slot, (s'.entity e).lastFramesSent slot = 0

namespace Lowers

theorem refl (s : Server) : Lowers s s := ⟨rfl,fun _ _ => le_rfl,fun _ mem => .inl mem⟩

theorem trans {s s' s'' : Server} (first : Lowers s s') (second : Lowers s' s'') : Lowers s s'' := by
  refine ⟨second.sent.trans first.sent,fun e slot => (second.levels e slot).trans (first.levels e slot),fun e mem => ?_⟩
  rcases second.list e mem with before | zero
  · rcases first.list e before with earlier | zero
    · exact .inl earlier
    · exact .inr (fun slot => Nat.le_zero.mp ((second.levels e slot).1.trans_eq (zero slot)))
  · exact .inr zero

theorem ofParts {s s' : Server} (list : s'.entityList = s.entityList) (sent : s'.sent = s.sent)
    (levels : ∀ e slot, (s'.entity e).levels slot ≤ (s.entity e).levels slot) : Lowers s s' :=
  ⟨sent,levels,fun _ mem => .inl (list ▸ mem)⟩

theorem same {s s' : Server} (skeleton : s'.skeleton = s.skeleton) (bases : s'.bases = s.bases) : Lowers s s' := by
  refine ofParts (congrArg Skeleton.entityList skeleton) (congrArg Bases.sent bases) ?_
  intro e slot
  have eq : (s'.entity e).bases = (s.entity e).bases := congrArg (fun v : Bases => v.entity e) bases
  exact le_of_eq (congrArg (fun v : (Slot → Nat) × (Slot → Nat) × Nat => (v.1 slot,v.2.1 slot)) eq)

theorem sameOf {s s' : Server} (blind : ∀ {α : Type} {view : Server → α}, Ownerless view → view s' = view s) :
    Lowers s s' :=
  same (blind skeletonOwnerless) (blind basesOwnerless)

theorem fold {α : Type} {step : Server → α → Server} {events : List α} {s : Server}
    (each : ∀ s, ∀ e ∈ events, Lowers s (step s e)) : Lowers s (events.foldl step s) :=
  foldKeeps (fun s' => Lowers s s') (fun s' e mem kept => kept.trans (each s' e mem)) (refl s)

theorem modifyEntity (s : Server) (e : EntityRef) {f : SyncEntityState → SyncEntityState}
    (lower : ∀ x slot, (f x).levels slot ≤ x.levels slot) : Lowers s (s.modifyEntity e f) := by
  refine ofParts rfl rfl ?_
  intro e' slot
  rw [entityModify]
  split
  · exact lower _ slot
  · exact le_rfl

theorem modifyData (s : Server) (c : ClientId) (f) : Lowers s (s.modifyData c f) :=
  ofParts rfl rfl (fun _ _ => le_rfl)

section
variable (s : Server) (e : EntityRef) (client : ClientId) (slot : Slot) (now : Nat)

theorem clearSlot (slotId : Option Slot) : Lowers s (s.clearSlot slotId e) := by
  unfold Server.clearSlot
  split
  · exact refl s
  · refine modifyEntity s e (fun x slot' => ⟨?_,le_rfl⟩)
    simp only [SyncEntityState.levels,Function.update_apply]
    split
    · exact Nat.zero_le _
    · exact le_rfl

section
variable (distance) (slotId : Option Slot)

theorem dropMoves (acc : Server × List Nat) :
    Lowers ((acc.1.firstOwnerLeft client e).clearSlot slotId e) (Server.dropFromEntity now distance client slotId acc e).1 := by
  have moved : Lowers ((acc.1.firstOwnerLeft client e).clearSlot slotId e)
      (((acc.1.firstOwnerLeft client e).clearSlot slotId e).MoveEntityToCandidate now distance e client).2 :=
    sameOf (fun ownerless => ownerless.unowned.moveEntityToCandidate _ e client now distance)
  unfold Server.dropFromEntity
  dsimp only
  split
  · exact refl _
  · split
    · rename_i eq
      rw [eq] at moved
      exact moved
    · rename_i eq
      rw [eq] at moved
      split
      · exact moved.trans (sameOf (fun ownerless => ownerless.unowned.reassignEntity ..))
      · exact moved

theorem dropFromEntity (acc : Server × List Nat) :
    Lowers acc.1 (Server.dropFromEntity now distance client slotId acc e).1 :=
  ((sameOf (fun ownerless => ownerless.blind.coarse.firstOwnerLeft ..)).trans (clearSlot ..)).trans
    (dropMoves e client now distance slotId acc)

theorem dropFromEntities (list : List EntityRef) (acc : Server × List Nat) :
    Lowers acc.1 (list.foldl (Server.dropFromEntity now distance client slotId) acc).1 :=
  foldKeeps (fun acc' : Server × List Nat => Lowers acc.1 acc'.1)
    (fun _ _ _ kept => kept.trans (dropFromEntity ..)) (refl _)

end

theorem dropClears (distance) {list : List EntityRef} {acc : Server × List Nat} {e : EntityRef} (mem : e ∈ list) :
    ((list.foldl (Server.dropFromEntity now distance client (some slot)) acc).1.entity e).lastFramesSent slot = 0 := by
  induction list generalizing acc with
  | nil => cases mem
  | cons first rest ih =>
    rcases List.mem_cons.mp mem with rfl | later
    · have cleared : (((acc.1.firstOwnerLeft client e).clearSlot (some slot) e).entity e).lastFramesSent slot = 0 := by
        unfold Server.clearSlot
        dsimp only
        rw [entityModify,if_pos rfl]
        exact Function.update_self ..
      have moves := (dropMoves e client now distance (some slot) acc).trans (dropFromEntities client now distance (some slot) rest _)
      exact Nat.le_zero.mp ((moves.levels e slot).1.trans_eq cleared)
    · exact ih later

def Cleared (s : Server) (slotId : Option Slot) : Prop :=
  ∀ slot, slotId = some slot → ∀ e ∈ s.entityList, (s.entity e).lastFramesSent slot = 0

theorem handleClientDrop (distance) (slotId : Option Slot) :
    Lowers s (HandleClientDrop now distance s client slotId) ∧ Cleared (HandleClientDrop now distance s client slotId) slotId := by
  have left : Lowers s (if s.bigMode then s.allClients.foldl (leaveScope client) s else s) := by
    split
    · exact fold (fun s' c _ => sameOf (fun ownerless => ownerless.blind.leaveScope ..))
    · exact refl s
  unfold HandleClientDrop
  dsimp only
  generalize (if s.bigMode then s.allClients.foldl (leaveScope client) s else s) = l at left ⊢
  have dropped := dropFromEntities client now distance slotId l.entityList (l,[])
  have clears : ∀ slot, slotId = some slot → ∀ e ∈ l.entityList,
      ((l.entityList.foldl (Server.dropFromEntity now distance client slotId) (l,[])).1.entity e).lastFramesSent slot = 0 := by
    rintro slot rfl e mem
    exact dropClears client slot now distance mem
  generalize l.entityList.foldl (Server.dropFromEntity now distance client slotId) (l,[]) = d at dropped clears ⊢
  have removed : Lowers d.1 { d.2.foldl RemoveClone d.1 with
      objectIdsSent := (d.2.foldl RemoveClone d.1).objectIdsSent \ ((d.2.foldl RemoveClone d.1).data client).objectIds } :=
    (fold (fun s' id _ => sameOf (fun ownerless => ownerless.blind.coarse.removeClone s' id))).trans
      (ofParts rfl rfl (fun _ _ => le_rfl))
  refine ⟨left.trans (dropped.trans removed),fun slot same e mem => ?_⟩
  rcases (dropped.trans removed).list e mem with old | zero
  · exact Nat.le_zero.mp ((removed.levels e slot).1.trans_eq (clears slot same e old))
  · exact zero slot

theorem runDrop (distance) : Lowers s (s.runDrop now distance) ∧
    ∀ client slotId rest, s.drops = (client,slotId) :: rest → Cleared (s.runDrop now distance) slotId := by
  unfold Server.runDrop
  split
  · rename_i none
    exact ⟨refl s,fun _ _ _ some => nomatch none.symm.trans some⟩
  · rename_i client' slotId rest pending
    obtain ⟨lowers,cleared⟩ := handleClientDrop s client' now distance slotId
    refine ⟨lowers.trans (ofParts rfl rfl (fun _ _ => le_rfl)),fun _ _ _ same => ?_⟩
    cases pending.symm.trans same
    exact cleared

theorem runRemoval : Lowers s s.runRemoval := by
  unfold Server.runRemoval
  split
  · exact refl s
  · rename_i e rest _
    have parts : (s.doRemove e).sent = s.sent ∧ (s.doRemove e).entity = s.entity ∧
        (s.doRemove e).entityList = s.entityList.erase e := by
      unfold doRemove
      dsimp only
      split
      · cases (s.entity e).client <;> exact ⟨rfl,rfl,rfl⟩
      · exact ⟨rfl,rfl,rfl⟩
    obtain ⟨sent,entity,list⟩ := parts
    refine ⟨sent,fun e' slot' => ?_,fun e' mem => .inl ?_⟩
    · exact le_of_eq (congrArg (fun f => (f e').levels slot') entity)
    · have erased : e' ∈ (s.doRemove e).entityList := mem
      rw [list] at erased
      exact List.mem_of_mem_erase erased

theorem construct (x : SyncEntityState) {s' : Server} (list : s'.entityList ⊆ s.nextEntity :: s.entityList)
    (entity : s'.entity = Function.update s.entity s.nextEntity x) (sent : s'.sent = s.sent)
    (zero : ∀ slot, x.levels slot = 0) : Lowers s s' := by
  have new : ∀ slot, (s'.entity s.nextEntity).levels slot = 0 := by
    rw [entity,Function.update_self]
    exact zero
  refine ⟨sent,fun e slot => ?_,fun e mem => ?_⟩
  · by_cases here : e = s.nextEntity
    · rw [here,new]
      exact ⟨Nat.zero_le _,Nat.zero_le _⟩
    · rw [entity,Function.update_of_ne here]
  · rcases List.mem_cons.mp (list mem) with rfl | old
    · exact .inr (fun slot => congrArg Prod.fst (new slot))
    · exact .inl old

theorem createEntity (type tree rand) : Lowers s (s.CreateEntityFromTree type tree rand now) := by
  unfold CreateEntityFromTree
  split
  · exact refl s
  · refine construct s _ ?_ rfl rfl (fun _ => rfl)
    intro e mem
    exact (List.perm_append_singleton _ _).mem_iff.mp mem

theorem parseInto (packet : CloneData) (isSync : Bool) : Lowers s (s.parseInto client e packet isSync) := by
  unfold Server.parseInto
  split
  · exact modifyEntity s e (fun _ _ => le_rfl)
  · exact refl s

theorem cloneSync (packet : CloneData) : Lowers s (s.ProcessCloneSync now client packet) := by
  unfold ProcessCloneSync
  split
  · exact refl s
  · split
    · exact refl s
    · split
      · exact refl s
      · rename_i e _ _ slot' _
        have marked : Lowers s (s.markRelevant e slot') := sameOf (fun ownerless => ownerless.blind.coarse.markRelevant ..)
        dsimp only
        split
        · exact marked
        · rename_i checked passed
          have same : Lowers (s.markRelevant e slot') checked :=
            sameOf (fun ownerless => ownerless.blind.coarse.ownerCheck passed)
          refine marked.trans (same.trans ((parseInto checked e client packet true).trans ?_))
          exact (sameOf (fun ownerless => ownerless.blind.coarse.adoptPlayer ..)).trans (modifyData _ _ _)

theorem cloneCreate (packet : CloneData) : Lowers s (s.ProcessCloneCreate now client packet) := by
  unfold ProcessCloneCreate
  split
  · exact refl s
  · split
    · exact refl s
    · split
      · exact refl s
      · rename_i type _
        have constructed : Lowers s (s.constructEntity client packet type) :=
          construct s _ (List.subset_cons_self _ _) rfl rfl (fun _ => rfl)
        have zero : ∀ slot', ((s.constructEntity client packet type).entity s.nextEntity).lastFramesSent slot' = 0 := by
          intro slot'
          simp [constructEntity,SyncEntityState.fresh]
        dsimp only
        split
        · exact constructed
        · rename_i slot' _
          have marked : Lowers (s.constructEntity client packet type)
              ((s.constructEntity client packet type).markRelevant s.nextEntity slot') :=
            sameOf (fun ownerless => ownerless.blind.coarse.markRelevant ..)
          split
          · exact constructed.trans marked
          · rename_i checked passed
            have ready : Lowers (s.constructEntity client packet type)
                (((checked.parseInto client s.nextEntity packet false).adoptPlayer client
                  s.nextEntity).settleToken s.nextEntity packet) :=
              marked.trans ((sameOf (fun ownerless => ownerless.blind.coarse.ownerCheck passed)).trans
                ((parseInto ..).trans ((sameOf (fun ownerless => ownerless.blind.coarse.adoptPlayer ..)).trans
                  (sameOf (fun ownerless => ownerless.blind.coarse.settleToken ..)))))
            unfold createdHere
            dsimp only
            generalize ((checked.parseInto client s.nextEntity packet false).adoptPlayer
              client s.nextEntity).settleToken s.nextEntity packet = settled at *
            refine constructed.trans ?_
            split
            · exact ready.trans (sameOf (fun ownerless => ownerless.blind.coarse.startDelete ..))
            · refine ⟨ready.sent,ready.levels,fun e mem => ?_⟩
              rcases List.mem_append.mp mem with old | last
              · exact ready.list e old
              · cases List.mem_singleton.mp last
                exact .inr (fun slot' => Nat.le_zero.mp ((ready.levels _ slot').1.trans_eq (zero slot')))

theorem lowerBase (lastSent : Nat) : Lowers s (s.lowerBase e slot lastSent) := by
  refine modifyEntity s e (fun x slot' => ⟨?_,le_rfl⟩)
  simp only [SyncEntityState.levels,Function.update_apply]
  split
  · rename_i same
    rw [same]
    exact Nat.min_le_right ..
  · exact le_rfl

theorem nackEntry (acc) (entry) : Lowers acc.1 (Server.nackEntry client slot acc entry).1 := by
  unfold Server.nackEntry
  split
  · exact refl _
  · split
    · exact sameOf (fun ownerless => ownerless.blind.coarse.setSynced ..)
    · exact lowerBase ..

theorem nackFrames (first count : Nat) (acc) : Lowers acc.1 (Server.nackFrames client slot first count acc).1 := by
  induction count generalizing acc with
  | zero => exact refl _
  | succ n ih =>
    unfold Server.nackFrames
    split
    · exact ofParts rfl rfl (fun _ _ => le_rfl)
    · rename_i frame _
      refine trans ?_ (ih (nackFrame client slot acc frame))
      have corrected : Lowers acc.1 (frame.syncedEntities.entries.foldl (Server.nackEntry client slot) acc).1 :=
        foldKeeps (fun acc' : Server × Table Nat Nat => Lowers acc.1 acc'.1)
          (fun acc' entry _ kept => kept.trans (nackEntry client slot acc' entry)) (refl _)
      exact corrected.trans (fold (fun s' deletion _ => sameOf (fun ownerless => ownerless.blind.coarse.repeatDeletion ..)))

theorem nackLists (packet : GameStateNAck) : Lowers s (s.nackLists client slot packet) := by
  unfold Server.nackLists
  split
  · exact ofParts rfl rfl (fun _ _ => le_rfl)
  · rename_i frame _
    have ignored : Lowers s (if packet.flags.testBit 1 then
        packet.ignoreList.foldl (ignoreEntry frame slot) s else s) := by
      split
      · refine fold (fun s' ignored _ => ?_)
        unfold ignoreEntry
        split
        · exact refl _
        · split
          · exact refl _
          · exact lowerBase ..
      · exact refl s
    dsimp only
    split
    · exact ignored.trans (fold (fun s' id _ => sameOf (fun ownerless => ownerless.blind.coarse.recreateEntry ..)))
    · exact ignored

theorem nack (packet : GameStateNAck) : Lowers s (s.HandleGameStateNAck client packet) := by
  unfold HandleGameStateNAck
  split
  · exact refl s
  · split
    · exact refl s
    · rename_i slot' _
      have missing : Lowers s (s.nackMissing client slot' packet).1 := by
        unfold nackMissing
        dsimp only
        split
        · exact nackFrames client slot' _ _ (s,∅)
        · dsimp only
          exact (nackFrames client slot' _ _ (s,∅)).trans (modifyData _ _ _)
      split
      · split
        · rename_i eq
          rw [eq] at missing
          exact missing
        · rename_i corrected eq
          rw [eq] at missing
          exact missing.trans (nackLists ..)
      · exact nackLists ..

theorem stepClient (op : ClientOp) (other : ∀ packet, op ≠ .ack packet) (protect : Bool) :
    Lowers s (s.stepClient client now protect op) := by
  cases op with
  | requestObjectIds n => exact sameOf (fun ownerless => ownerless.unowned.takeFreeIds s client _ n)
  | cloneCreate packet => exact cloneCreate s client now packet
  | cloneSync packet => exact cloneSync s client now packet
  | cloneTakeover target id => exact sameOf (fun ownerless => ownerless.unowned.processCloneTakeover s client now target id)
  | cloneRemove id uniq => exact sameOf (fun ownerless => ownerless.blind.coarse.processCloneRemove s client protect id uniq)
  | timestamp ts => exact sameOf (fun ownerless => ownerless.blind.coarse.setTimestamp s client ts)
  | frameIndex index => exact ofParts rfl rfl (fun _ _ => le_rfl)
  | ackCreate id uniq => exact sameOf (fun ownerless => ownerless.blind.coarse.ackCreate s client id uniq)
  | ackRemove id uniq => exact sameOf (fun ownerless => ownerless.blind.coarse.ackRemove s client id uniq)
  | nack packet => exact nack s client packet
  | ack packet => exact absurd rfl (other packet)

end
end Lowers

/-- What a tick runs for a client with a slot, and the frame of the data that it takes for it. -/
structure Update where
  slot : Slot
  entity : EntityRef
  level : Nat
  deriving DecidableEq, Repr

def Server.update (s : Server) : SentRecord → Option Update
  | .sync client _ 2 e _ false _ => (s.slotId client).map (⟨·,e,(s.entity e).lastFrameIndex⟩)
  | _ => none

/-- A part of a tick: what it sends after `s`, it enters as the newest data that was written for the client. -/
structure Sends (s s' : Server) : Prop where
  slots : s'.slotId = s.slotId
  frame : ∀ e, (s'.entity e).lastFrameIndex = (s.entity e).lastFrameIndex
  base : ∀ e slot, (s'.entity e).lastFramesSent slot ≤ (s.entity e).lastFramesSent slot
  list : s'.entityList = s.entityList
  sent : ∃ more, s'.sent = s.sent ++ more ∧ ∀ e slot, ∃ level, (s'.entity e).lastFramesPreSent slot ≤ level ∧
    (level = (s.entity e).lastFramesPreSent slot ∨ ∃ record ∈ more, s.update record = some ⟨slot,e,level⟩)

namespace Sends

theorem updates {s s' : Server} (slots : s'.slotId = s.slotId)
    (frame : ∀ e, (s'.entity e).lastFrameIndex = (s.entity e).lastFrameIndex) : s'.update = s.update := by
  funext record
  unfold Server.update
  split
  · rw [slots,frame]
  · rfl

theorem trans {s s' s'' : Server} (first : Sends s s') (second : Sends s' s'') : Sends s s'' := by
  obtain ⟨more,sent,preSent⟩ := first.sent
  obtain ⟨later,sentLater,preSentLater⟩ := second.sent
  refine ⟨second.slots.trans first.slots,fun e => (second.frame e).trans (first.frame e),
    fun e slot => (second.base e slot).trans (first.base e slot),second.list.trans first.list,more ++ later,?_,fun e slot => ?_⟩
  · rw [sentLater,sent,List.append_assoc]
  · rw [updates first.slots first.frame] at preSentLater
    obtain ⟨level,below,from'⟩ := preSentLater e slot
    rcases from' with rfl | ⟨record,mem,writes⟩
    · obtain ⟨old,above,from'⟩ := preSent e slot
      exact ⟨old,below.trans above,from'.imp_right (fun ⟨record,mem,writes⟩ => ⟨record,List.mem_append_left _ mem,writes⟩)⟩
    · exact ⟨level,below,.inr ⟨record,List.mem_append_right _ mem,writes⟩⟩

theorem ofParts {s s' : Server} (slots : s'.slotId = s.slotId) (list : s'.entityList = s.entityList) (sent : s'.sent = s.sent)
    (entity : ∀ e, (s'.entity e).lastFrameIndex = (s.entity e).lastFrameIndex ∧
      ∀ slot, (s'.entity e).levels slot ≤ (s.entity e).levels slot) : Sends s s' :=
  ⟨slots,fun e => (entity e).1,fun e slot => ((entity e).2 slot).1,list,[],by rw [sent,List.append_nil],
    fun e slot => ⟨_,((entity e).2 slot).2,.inl rfl⟩⟩

theorem refl (s : Server) : Sends s s := ofParts rfl rfl rfl (fun _ => ⟨rfl,fun _ => le_rfl⟩)

theorem sameOf {s s' : Server} (blind : ∀ {α : Type} {view : Server → α}, Ownerless view → view s' = view s) : Sends s s' := by
  have skeleton : s'.skeleton = s.skeleton := blind skeletonOwnerless
  have bases : s'.bases = s.bases := blind basesOwnerless
  refine ofParts (congrArg Skeleton.slotId skeleton) (congrArg Skeleton.entityList skeleton) (congrArg Bases.sent bases) (fun e => ?_)
  have eq : (s'.entity e).bases = (s.entity e).bases := congrArg (fun v : Bases => v.entity e) bases
  exact ⟨congrArg (fun v : (Slot → Nat) × (Slot → Nat) × Nat => v.2.2) eq,fun slot => le_of_eq (congrArg
    (fun v : (Slot → Nat) × (Slot → Nat) × Nat => (v.1 slot,v.2.1 slot)) eq)⟩

theorem fold {α : Type} {step : Server → α → Server} {events : List α} {s : Server}
    (each : ∀ s, ∀ e ∈ events, Sends s (step s e)) : Sends s (events.foldl step s) :=
  foldKeeps (fun s' => Sends s s') (fun s' e mem kept => kept.trans (each s' e mem)) (refl s)

theorem modifyEntity (s : Server) (e : EntityRef) {f : SyncEntityState → SyncEntityState}
    (lower : ∀ x, (f x).lastFrameIndex = x.lastFrameIndex ∧ ∀ slot, (f x).levels slot ≤ x.levels slot) :
    Sends s (s.modifyEntity e f) := by
  refine ofParts rfl rfl rfl (fun e' => ?_)
  rw [entityModify]
  split
  · exact lower _
  · exact ⟨rfl,fun _ => le_rfl⟩

section
variable (s : Server) (e : EntityRef) (client : ClientId) (slot : Slot)

theorem collect (acc : Server × List EntityRef) : Sends acc.1 (Server.collect acc e).1 := by
  have finalize (s : Server) : Sends s (s.FinalizeClone e) := by
    unfold FinalizeClone
    split
    · have marked : Sends s (s.modifyEntity e (fun x => { x with finalizing := true })) :=
        modifyEntity s e (fun _ => ⟨rfl,fun _ => le_rfl⟩)
      exact marked.trans (ofParts rfl rfl rfl (fun _ => ⟨rfl,fun _ => le_rfl⟩))
    · exact refl s
  unfold Server.collect
  dsimp only
  repeat' split
  all_goals first
    | exact finalize ..
    | exact refl _

theorem relevancePhase (input : TickInput) : Sends s (s.relevancePhase input) := by
  have swept : Sends s (s.swept input).1 :=
    foldKeeps (fun acc : Server × List EntityRef => Sends s acc.1)
      (fun acc e _ kept => kept.trans (collect e acc)) (ofParts rfl rfl rfl (fun _ => ⟨rfl,fun _ => le_rfl⟩))
  have passed : Sends (s.swept input).1
      ((s.turn input).1.foldl (relevancePass input (s.swept input).2) (s.swept input).1) :=
    fold (fun s' c _ => sameOf (fun ownerless => ownerless.blind.coarse.relevancePass s' c input _))
  exact swept.trans (passed.trans (ofParts rfl rfl rfl (fun _ => ⟨rfl,fun _ => le_rfl⟩)))

/-- The commands of a client's frame carry the entity's frame of data as it was when the tick began. -/
def Level (s : Server) (commands : List SyncCommand) : Prop :=
  ∀ syncType e base level wasForceUpdate isFirst, SyncCommand.sync syncType e base level wasForceUpdate isFirst ∈ commands →
    level = (s.entity e).lastFrameIndex

theorem Level.sync {s : Server} {commands : List SyncCommand} {e : EntityRef} {level : Nat} (kept : Level s commands)
    (own : level = (s.entity e).lastFrameIndex) (syncType base : Nat) (wasForceUpdate hasCreated : Bool) :
    Level s (commands ++ .sync syncType e base level wasForceUpdate false ::
      (if hasCreated then [] else [.sync 2 e base level wasForceUpdate true])) := by
  intro syncType' e' base' level' wasForceUpdate' isFirst mem
  rcases List.mem_append.mp mem with old | new
  · exact kept _ _ _ _ _ _ old
  · rcases List.mem_cons.mp new with same | first
    · cases same
      exact own
    · split at first
      · cases first
      · cases List.mem_singleton.mp first
        exact own

structure Prepared (s : Server) (acc : Frame) : Prop where
  sends : Sends s acc.server
  level : Level s acc.commands

section
variable (input : TickInput)

theorem syncEntry (acc : Frame) (identPair : IdentPair) (syncData : SyncedEntityData)
    (prepared : Prepared s acc) : Prepared s (Server.syncEntry input client slot acc identPair syncData) := by
  have based : ∀ p : Prop, [Decidable p] →
      Sends acc.server (if p then acc.server.resetBase syncData.entity slot else acc.server) := by
    intro p _
    split
    · refine modifyEntity _ _ (fun x => ⟨rfl,fun slot' => ⟨?_,le_rfl⟩⟩)
      simp only [SyncEntityState.levels,Function.update_apply]
      split
      · exact Nat.zero_le _
      · exact le_rfl
    · exact refl _
  unfold Server.syncEntry
  dsimp only
  split
  · exact prepared
  · split
    · refine ⟨prepared.sends.trans ((based _).trans (sameOf (fun ownerless => ownerless.blind.coarse.setSynced ..))),?_⟩
      change Level s (if input.fakeSend client then acc.commands else _)
      split
      · exact prepared.level
      · exact Level.sync prepared.level (prepared.sends.frame _) _ _ _ _
    · exact ⟨prepared.sends.trans (based _),prepared.level⟩

theorem entryStep (acc : Frame) (identPair : IdentPair) (prepared : Prepared s acc) :
    Prepared s (Server.entryStep input client slot acc identPair) := by
  unfold Server.entryStep
  split
  · exact prepared
  · rename_i found _
    have owned : Sends s (yoink input.curTime client acc.server found.entity) :=
      prepared.sends.trans (sameOf (fun ownerless => ownerless.unowned.yoink ..))
    dsimp only
    split
    · exact ⟨owned,prepared.level⟩
    · rename_i syncData _
      have ready := owned.trans (sameOf (fun ownerless => ownerless.blind.createEntry
        (yoink input.curTime client acc.server found.entity) client identPair syncData))
      split
      · rename_i eq
        rw [eq] at ready
        exact ⟨ready,prepared.level⟩
      · rename_i eq
        rw [eq] at ready
        exact syncEntry s client slot input { acc with server := _ } identPair _ ⟨ready,prepared.level⟩

theorem updatePass : Prepared s (Server.updatePass input client slot s) := by
  have destroyed : Sends s (Server.destroyPass input client slot s).server := sameOf (fun ownerless => ownerless.destroyPass ..)
  have removes : Level s (Server.destroyPass input client slot s).commands := by
    have each : Level s ((s.moveDeleting client).data client |>.entitiesToDestroy.entries.foldl
        (destroyStep input client slot) ⟨s.moveDeleting client,⟨∅,[]⟩,[]⟩).commands := by
      refine foldKeeps (fun acc : Frame => Level s acc.commands) (fun acc entry _ kept => ?_) (by rintro _ _ _ _ _ _ ⟨⟩)
      unfold destroyStep
      dsimp only
      split
      · exact kept
      · intro syncType e base level wasForceUpdate isFirst mem
        rcases List.mem_append.mp mem with old | new
        · exact kept _ _ _ _ _ _ old
        · cases List.mem_singleton.mp new
    unfold Server.destroyPass
    dsimp only
    split
    · exact each
    · exact each
  exact foldKeeps (Prepared s) (fun acc identPair _ prepared => entryStep s client slot input acc identPair prepared) ⟨destroyed,removes⟩

theorem executeARQ (command : SyncCommand) (style : s.syncStyle = .ARQ) (has : s.slotId client = some slot)
    (level : Level s [command]) : Sends s (execute input client slot s command) := by
  have sends : ∀ (record : SentRecord), Sends s (s.send record) := fun record =>
    ⟨rfl,fun _ => rfl,fun _ _ => le_rfl,rfl,[record],rfl,fun _ _ => ⟨_,le_rfl,.inl rfl⟩⟩
  have kept : ∀ (t : Server) (record : SentRecord), (t.send record).entity = t.entity := fun _ _ => rfl
  unfold execute
  split
  · exact sends _
  · rename_i syncType e' base level' wasForceUpdate isFirst
    split
    · exact refl s
    · split
      · exact refl s
      · dsimp only
        split
        · rename_i updates
          obtain ⟨rfl,rfl⟩ := updates
          rw [recordBase,if_neg (by rw [style]; decide)]
          refine ⟨rfl,fun e => ?_,fun e slot' => ?_,rfl,_,rfl,fun e slot' => ?_⟩
          · rw [kept,entityModify]
            split
            · rfl
            · rfl
          · rw [kept,entityModify]
            split
            · exact le_rfl
            · exact le_rfl
          · rw [kept,entityModify]
            split
            · rename_i here
              dsimp only
              rw [Function.update_apply]
              split
              · rename_i own
                refine ⟨_,le_rfl,.inr ⟨_,List.mem_singleton_self _,?_⟩⟩
                rw [Server.update,has,here,own,level _ _ _ _ _ _ (List.mem_singleton_self _)]
                rfl
              · exact ⟨_,le_rfl,.inl (by rw [here])⟩
            · exact ⟨_,le_rfl,.inl rfl⟩
        · exact sends _

theorem clientPassARQ (style : s.syncStyle = .ARQ) : Sends s (clientPass input s client) := by
  unfold clientPass
  split
  · exact refl s
  · rename_i slot' has
    obtain ⟨updated,level⟩ := updatePass s client slot' input
    have still : (Server.updatePass input client slot' s).server.syncStyle = .ARQ :=
      (congrArg Skeleton.syncStyle (skeletonUpdatePass s input client slot')).trans style
    dsimp only
    generalize Server.updatePass input client slot' s = frame at updated level still ⊢
    have saved : Sends s (frame.server.saveFrame input client frame.ces) :=
      updated.trans (ofParts rfl rfl rfl (fun _ => ⟨rfl,fun _ => le_rfl⟩))
    refine (foldKeeps (fun s' : Server => Sends s s' ∧ s'.syncStyle = .ARQ) (fun s' command mem kept => ?_) ⟨saved,still⟩).1
    obtain ⟨sends,style⟩ := kept
    have own : Level s' [command] := by
      intro syncType e base level' wasForceUpdate isFirst is
      rw [sends.frame]
      exact level _ _ _ _ _ _ (List.mem_singleton.mp is ▸ mem)
    exact ⟨sends.trans (executeARQ s' client slot' input command style ((congrFun sends.slots client).trans has) own),
      (congrArg Skeleton.syncStyle (skeletonOfIds (idsBaseless.execute s' client slot' input command))).trans style⟩

theorem tickARQ (style : input.oneSyncARQ = true) : Sends s (s.Tick input) := by
  have swept : (s.swept input).1.syncStyle = .ARQ := by
    refine (foldSame (fun acc : Server × List EntityRef => acc.1.syncStyle) (fun acc e => ?_)).trans ?_
    · unfold Server.collect FinalizeClone
      dsimp only
      repeat' split
      all_goals rfl
    · rw [setStyle,if_pos style]
  have still : (s.relevancePhase input).syncStyle = .ARQ :=
    (congrArg Skeleton.syncStyle (skeletonOfIds (idsRelevancePhase s input))).trans swept
  have updated : Sends s ((s.relevancePhase input).updatePhase input) :=
    (foldKeeps (fun s' : Server => Sends s s' ∧ s'.syncStyle = .ARQ)
      (fun s' client _ kept => ⟨kept.1.trans (clientPassARQ s' client input kept.2),
        (congrArg Skeleton.syncStyle (skeletonClientPass s' input client)).trans kept.2⟩)
      ⟨relevancePhase s input,still⟩).1
  exact updated.trans (ofParts rfl rfl rfl (fun _ => ⟨rfl,fun _ => le_rfl⟩))

end
end
end Sends

end Citizen.State
