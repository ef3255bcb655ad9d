import Citizen.State.Skeleton

/-! Views of what is kept for the clients: of the slots of the players that a client knows, and of
the frames that are saved for it. What is done with entities does not reach them. -/
namespace Citizen.State
namespace Server

structure Personal {α : Type} (view : Server → α) : Prop where
  only : ∀ s s' : Server,s'.data = s.data → view s' = view s
  data : ∀ (s : Server) (c : ClientId) (f : GameStateClientData → GameStateClientData),
    (∀ d,(f d).frameStates.keys = d.frameStates.keys ∧ (f d).firstSavedFrameState = d.firstSavedFrameState ∧
      (f d).playersToSlots = d.playersToSlots ∧ (f d).playersInScope = d.playersInScope) →
      view (s.modifyData c f) = view s

namespace Personal
variable {α : Type} {view : Server → α} (personal : Personal view) (s : Server) (e : EntityRef) (client : ClientId)
  (slot : Slot) (now : Nat)
include personal

theorem unowned : Unowned view where
  entity := fun _ _ _ _ => personal.only _ _ rfl
  data := fun s c f kept => personal.data s c f (fun d => ⟨congrArg AList.keys (kept d).1,(kept d).2⟩)
  grants := fun _ _ _ => personal.only _ _ rfl

theorem baseless : Baseless view where
  entity := fun _ _ _ _ => personal.only _ _ rfl
  data := personal.unowned.coarse.data
  send := fun _ _ => personal.only _ _ rfl

theorem doRemove : view (s.doRemove e) = view s := by
  have erased (s' : Server) (same : s'.data = s.data) (list : List EntityRef) :
      view { s'.eraseObjectId (s.entity e).client (s.entity e).handle with entityList := list } = view s :=
    (personal.only (s'.eraseObjectId (s.entity e).client (s.entity e).handle) _ (by rfl)).trans
      ((personal.unowned.eraseObjectId ..).trans (personal.only _ _ same))
  unfold Server.doRemove
  dsimp only
  split
  · exact erased _ (by rfl) _
  · exact personal.only _ _ rfl

theorem runRemoval : view s.runRemoval = view s := by
  unfold Server.runRemoval
  split
  · rfl
  · rename_i e _ _
    exact (personal.only (s.doRemove e) _ (by rfl)).trans (personal.doRemove ..)

theorem createEntity (type tree rand) : view (s.CreateEntityFromTree type tree rand now) = view s := by
  unfold CreateEntityFromTree
  split
  · rfl
  · exact personal.only _ _ rfl

theorem enlist (packet : CloneData) : view (s.enlist client e packet) = view s := by
  have known := personal.data s client (fun d => { d with
    syncedEntities := d.syncedEntities.insert (packet.objectId,packet.uniqifier) ⟨0,10,e,false,true,false⟩
    pendingCreates := d.pendingCreates.erase (packet.objectId,packet.uniqifier) }) (fun _ => ⟨rfl,rfl,rfl,rfl⟩)
  exact (personal.only (s.modifyData client _) _ (by rfl)).trans known

theorem createdHere (packet : CloneData) : view (s.createdHere client e packet) = view s := by
  unfold Server.createdHere
  dsimp only
  split
  · exact (personal.baseless.coarse.startDelete ..).trans (personal.baseless.coarse.settleToken ..)
  · exact (personal.enlist ..).trans (personal.baseless.coarse.settleToken ..)

theorem processCloneCreate (packet : CloneData) : view (s.ProcessCloneCreate now client packet) = view s := by
  unfold ProcessCloneCreate
  split
  · rfl
  · split
    · rfl
    · split
      · rfl
      · dsimp only
        split
        · exact personal.only _ _ rfl
        · split
          · exact personal.only _ _ rfl
          · rename_i checked passed
            rw [personal.createdHere,personal.baseless.coarse.adoptPlayer,personal.baseless.parseInto,
              personal.baseless.coarse.ownerCheck passed]
            exact personal.only _ _ rfl

theorem nackFrames (first count : Nat) (acc) :
    view (Server.nackFrames client slot first count acc).1 = view acc.1 := by
  induction count generalizing acc with
  | zero => rfl
  | succ n ih =>
    unfold Server.nackFrames
    split
    · exact personal.only _ _ rfl
    · exact (ih _).trans (personal.baseless.nackFrame ..)

theorem propagate (last : Nat) (corrections) : view (s.propagate client last corrections) = view s := by
  refine personal.data _ _ _ (fun d => ⟨?_,rfl,rfl,rfl⟩)
  simp [AList.keys,List.keys,Table.mapValues]

theorem nackMissing (packet : GameStateNAck) : view (s.nackMissing client slot packet).1 = view s := by
  unfold Server.nackMissing
  dsimp only
  split
  · exact personal.nackFrames client slot _ _ (s,∅)
  · exact (personal.propagate ..).trans (personal.nackFrames client slot _ _ (s,∅))

theorem nackLists (packet : GameStateNAck) : view (s.nackLists client slot packet) = view s := by
  unfold Server.nackLists
  split
  · exact personal.only _ _ rfl
  · rename_i frame _
    have ignored : view (if packet.flags.testBit 1 then
        packet.ignoreList.foldl (ignoreEntry frame slot) s else s) = view s := by
      split
      · exact foldSame view (fun s' ignored => personal.baseless.ignoreEntry s' slot frame ignored)
      · rfl
    dsimp only
    split
    · exact (foldSame view (fun s' id => personal.baseless.coarse.recreateEntry s' client frame id)).trans ignored
    · exact ignored

theorem nack (packet : GameStateNAck) : view (s.HandleGameStateNAck client packet) = view s := by
  unfold HandleGameStateNAck
  split
  · rfl
  · split
    · rfl
    · rename_i slot _
      have missing := personal.nackMissing s client slot packet
      split
      · split
        · rename_i eq
          rw [eq] at missing
          exact missing
        · rename_i eq
          rw [eq] at missing
          exact (personal.nackLists ..).trans missing
      · exact personal.nackLists ..

theorem stepClient (protect : Bool) (op : ClientOp) (other : ∀ packet,op ≠ .ack packet) :
    view (s.stepClient client now protect op) = view s := by
  cases op with
  | requestObjectIds n => exact personal.unowned.takeFreeIds s client _ n
  | cloneCreate packet => exact personal.processCloneCreate s client now packet
  | cloneSync packet => exact personal.baseless.processCloneSync s client now packet
  | cloneTakeover target id => exact personal.unowned.processCloneTakeover s client now target id
  | cloneRemove id uniq => exact personal.baseless.coarse.processCloneRemove s client protect id uniq
  | timestamp ts => exact personal.baseless.coarse.setTimestamp s client ts
  | frameIndex index => exact personal.data s client (fun d => { d with fidx := index }) (fun _ => ⟨rfl,rfl,rfl,rfl⟩)
  | ackCreate id uniq => exact personal.baseless.coarse.ackCreate s client id uniq
  | ackRemove id uniq => exact personal.baseless.coarse.ackRemove s client id uniq
  | nack packet => exact personal.nack s client packet
  | ack packet => exact absurd rfl (other packet)

theorem relevancePhase (input : TickInput) : view (s.relevancePhase input) = view s := by
  have collected (acc : Server × List EntityRef) (e : EntityRef) : view (collect acc e).1 = view acc.1 := by
    refine personal.only _ _ ?_
    unfold collect FinalizeClone
    dsimp only
    repeat' split
    all_goals rfl
  have swept : view (s.swept input).1 = view s := by
    unfold Server.swept relevantEntities
    exact (foldSame (fun acc : Server × List EntityRef => view acc.1) collected).trans (personal.only _ _ rfl)
  unfold Server.relevancePhase
  refine (personal.only ((s.turn input).1.foldl (Server.relevancePass input (s.swept input).2) (s.swept input).1) _
    (by rfl)).trans ?_
  exact (foldSame view (fun s' c => personal.baseless.coarse.relevancePass s' c input _)).trans swept

end Personal

end Server
end Citizen.State
