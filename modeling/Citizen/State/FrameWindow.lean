import Citizen.State.SavedFrames

/-! The frames that are saved for a client over a whole run: which there are, how many, and
that a report finds those that it can name. -/
namespace Citizen.State
open Window Server

structure FrameLog where
  server : Server
  started : ClientId → Nat
  acked : ClientId → List Nat

namespace FrameLog

def init (bigMode lengthHack : Bool) : FrameLog := ⟨.init bigMode lengthHack,fun _ => 0,fun _ => []⟩

def ticked (s : Server) (client : ClientId) : Prop := client ∈ s.allClients ∧ (s.slotId client).isSome

instance (s : Server) (client : ClientId) : Decidable (ticked s client) := by unfold ticked; infer_instance

def takes (s : Server) (client : ClientId) (packet : GameStateAck) : Prop :=
  client ∈ s.inMemory ∧ s.syncStyle = .ARQ ∧ (s.slotId client).isSome ∧ packet.frameIndex < s.frameIndex

instance (s : Server) (client : ClientId) (packet : GameStateAck) : Decidable (takes s client packet) := by
  unfold takes; infer_instance

def step (r : FrameLog) (op : Op) : FrameLog where
  server := r.server.step op
  started := match op with
    | .connect => Function.update r.started r.server.nextNetId 0
    | .tick _ => fun client =>
      if r.started client = 0 ∧ ticked r.server client then r.server.frameIndex else r.started client
    | _ => r.started
  acked := match op with
    | .connect => Function.update r.acked r.server.nextNetId []
    | .fromClient client _ _ (.ack packet) =>
      if takes r.server client packet then
        Function.update r.acked client (packet.frameIndex :: r.acked client)
      else r.acked
    | _ => r.acked

structure SavedWindow (r : FrameLog) (client : ClientId) : Prop where
  started : r.started client ≠ 0
  begins : r.started client ≤ (r.server.saved client).1
  before : (r.server.saved client).1 < r.server.frameIndex
  exact : Holds (r.server.saved client).1 r.server.frameIndex (· ∈ r.acked client) (r.server.saved client).2
  promised : (r.server.saved client).1 ≤ max (r.started client) (r.server.frameIndex - 649)
  most : (r.server.saved client).2.length ≤ 3999

theorem SavedWindow.nonzero {r : FrameLog} {client : ClientId} (window : r.SavedWindow client) :
    (r.server.saved client).1 ≠ 0 := by
  have low := window.begins
  have positive := window.started
  omega

def Windowed (r : FrameLog) (client : ClientId) : Prop :=
  (r.started client = 0 ∧ r.server.saved client = (0,[])) ∨ r.SavedWindow client

def Promised (r : FrameLog) (client : ClientId) (frame : Nat) : Prop :=
  r.started client ≠ 0 ∧ r.started client ≤ frame ∧ frame < r.server.frameIndex ∧
    r.server.frameIndex ≤ frame + 649 ∧ frame ∉ r.acked client

def names (packet : GameStateNAck) (frame : Nat) : Prop :=
  frame = packet.frameIndex ∨
    (packet.flags.testBit 0 ∧ packet.firstMissingFrame ≤ frame ∧ frame ≤ packet.lastMissingFrame)

structure Found (r : FrameLog) (client : ClientId) : Prop where
  saved : ∀ frame,r.Promised client frame → ((r.server.data client).frameStates.lookup frame).isSome
  nack : ∀ packet,(∀ frame,names packet frame → r.Promised client frame) →
    (r.server.HandleGameStateNAck client packet).dropping = r.server.dropping

theorem Windowed.promised {r : FrameLog} {client : ClientId} (windowed : r.Windowed client) {frame : Nat}
    (promised : r.Promised client frame) : frame ∈ (r.server.saved client).2 := by
  obtain ⟨started,low,high,near,free⟩ := promised
  rcases windowed with ⟨not,-⟩ | window
  · exact absurd not started
  · have first := window.promised
    exact (window.exact.exact frame).mpr ⟨by omega,high,free⟩

section Nack
variable {s : Server} {client : ClientId} {slot : Slot}

theorem lookupSaved {frame : Nat} (mem : frame ∈ (s.saved client).2) :
    ((s.data client).frameStates.lookup frame).isSome :=
  AList.lookup_isSome.mpr mem

theorem nackFramesFound {first count : Nat} {acc : Server × Table Nat Nat}
    (found : ∀ frame,first ≤ frame → frame < first + count → frame ∈ (acc.1.saved client).2) :
    (nackFrames client slot first count acc).1.dropping = acc.1.dropping ∧
      (nackFrames client slot first count acc).2.isSome := by
  induction count generalizing acc with
  | zero => exact ⟨rfl,rfl⟩
  | succ n ih =>
    have here := lookupSaved (found (first + n) (by omega) (by omega))
    unfold nackFrames
    split
    · rename_i absent
      rw [absent] at here
      cases here
    · rename_i frame _
      have same : (nackFrame client slot acc frame).1.dropping = acc.1.dropping :=
        congrArg (fun v : Ids => v.skeleton.dropping) (idsBaseless.nackFrame client slot acc frame)
      have saved := savedPersonal.baseless.nackFrame client slot acc frame
      rw [← same]
      refine ih (fun f low high => ?_)
      rw [saved]
      exact found f low (by omega)

theorem nackListsFound {packet : GameStateNAck} (mem : packet.frameIndex ∈ (s.saved client).2) :
    (s.nackLists client slot packet).dropping = s.dropping := by
  have here := lookupSaved mem
  unfold nackLists
  split
  · rename_i absent
    rw [absent] at here
    cases here
  · rename_i frame _
    have ignored : (if packet.flags.testBit 1 then
        packet.ignoreList.foldl (ignoreEntry frame slot) s else s).dropping = s.dropping := by
      split
      · exact foldSame Server.dropping (fun s' ignored =>
          congrArg (fun v : Ids => v.skeleton.dropping) (idsBaseless.ignoreEntry s' slot frame ignored))
      · rfl
    dsimp only
    split
    · exact (foldSame Server.dropping (fun s' id =>
        congrArg (fun v : Ids => v.skeleton.dropping) (idsBlind.coarse.recreateEntry s' client frame id))).trans ignored
    · exact ignored

theorem nackFound {packet : GameStateNAck} (found : ∀ frame,names packet frame → frame ∈ (s.saved client).2) :
    (s.HandleGameStateNAck client packet).dropping = s.dropping := by
  unfold HandleGameStateNAck
  split
  · rfl
  · split
    · rfl
    · rename_i slot _
      split
      · rename_i missing
        have walked := @nackFramesFound client slot packet.firstMissingFrame
          (packet.lastMissingFrame + 1 - packet.firstMissingFrame) (s,∅)
          (fun frame low high => found frame (.inr ⟨missing,low,by omega⟩))
        have saved := savedPersonal.nackMissing s client slot packet
        have kept : (s.nackMissing client slot packet).2 = true ∧
            (s.nackMissing client slot packet).1.dropping = s.dropping := by
          unfold nackMissing
          dsimp only
          split
          · rename_i absent
            rw [absent] at walked
            cases walked.2
          · exact ⟨rfl,walked.1⟩
        split
        · rename_i eq
          rw [eq] at kept
          cases kept.1
        · rename_i corrected eq
          rw [eq] at kept saved
          have mem : packet.frameIndex ∈ (corrected.saved client).2 :=
            (congrArg (fun v => (v client).2) saved) ▸ found _ (.inl rfl)
          exact (nackListsFound mem).trans kept.2
      · exact nackListsFound (found _ (.inl rfl))

end Nack

theorem Windowed.found {r : FrameLog} {client : ClientId} (windowed : r.Windowed client) : r.Found client :=
  ⟨fun _ promised => lookupSaved (windowed.promised promised),
    fun _ named => nackFound (fun frame is => windowed.promised (named frame is))⟩

/-- A tick saves its frame. It leaves a client that was seen lately at most 649 frames or three
less than it had, and one that was not seen for long all of the last 3999. -/
def Saves (r : FrameLog) : Op → Prop
  | .tick input => ∀ client,ticked r.server client →
      r.server.frameIndex ∈ ((r.server.Tick input).saved client).2 ∧
      (input.lastSeenLongAgo client = false →
        ((r.server.Tick input).saved client).2.length ≤ max 649 ((r.server.saved client).2.length - 3)) ∧
      (input.lastSeenLongAgo client = true → ∀ frame ∈ (r.server.saved client).2,
        r.server.frameIndex ≤ frame + 3998 → frame ∈ ((r.server.Tick input).saved client).2)
  | _ => True

structure Kept (r : FrameLog) : Prop where
  coherent : Coherent r.server.skeleton
  begun : r.server.frameIndex ≠ 0
  acked : ∀ client,∀ frame ∈ r.acked client,frame < r.server.frameIndex
  windowed : ∀ client,ticked r.server client → r.Windowed client

theorem Windowed.same {r r' : FrameLog} {client : ClientId} (windowed : r.Windowed client)
    (saved : r'.server.saved client = r.server.saved client) (index : r'.server.frameIndex = r.server.frameIndex)
    (started : r'.started client = r.started client) (acked : r'.acked client = r.acked client) :
    r'.Windowed client := by
  rcases windowed with ⟨not,none⟩ | window
  · exact .inl ⟨started.trans not,saved.trans none⟩
  · refine .inr ⟨?_,?_,?_,?_,?_,?_⟩
    · rw [started]
      exact window.started
    · rw [started,saved]
      exact window.begins
    · rw [saved,index]
      exact window.before
    · rw [saved,index,acked]
      exact window.exact
    · rw [saved,started,index]
      exact window.promised
    · rw [saved]
      exact window.most

section Steps
variable {r : FrameLog}

theorem tickFrames (kept : r.Kept) (input : TickInput) {client : ClientId} (has : ticked r.server client) :
    (r.server.Tick input).saved client =
      saveKeys r.server.frameIndex (input.lastSeenLongAgo client) (r.server.saved client) := by
  have once : r.server.registry.Nodup := (List.nodup_append'.mp kept.coherent.membersNodup).1
  exact (savedTick r.server input client once).trans (if_pos has)

theorem fresh (kept : r.Kept) (client : ClientId) : ¬ r.server.frameIndex ∈ r.acked client :=
  fun mem => Nat.lt_irrefl _ (kept.acked client _ mem)

theorem tickWindow (kept : r.Kept) (input : TickInput) {client : ClientId} (has : ticked r.server client) :
    (r.step (.tick input)).SavedWindow client := by
  have frames := tickFrames kept input has
  have index : (r.step (.tick input)).server.frameIndex = r.server.frameIndex + 1 :=
    congrArg (fun v => v.2.2.2) (connectedTick r.server input)
  have now : (r.step (.tick input)).server.saved client = (r.server.Tick input).saved client := rfl
  have acked : (r.step (.tick input)).acked client = r.acked client := rfl
  have begun := kept.begun
  rcases kept.windowed client has with ⟨not,none⟩ | window
  · have started : (r.step (.tick input)).started client = r.server.frameIndex := if_pos ⟨not,has⟩
    rw [none] at frames
    obtain ⟨first,holds⟩ := saveKeysStarts (input.lastSeenLongAgo client) (fresh kept client)
    have few := @saveKeysLength r.server.frameIndex (input.lastSeenLongAgo client) (0,[])
    rw [← frames,← now] at first holds few
    refine ⟨?_,?_,?_,?_,?_,?_⟩
    · rwa [started]
    · rw [started,first]
    · rw [first,index]
      exact Nat.lt_succ_self _
    · rw [first,index,acked]
      exact holds
    · rw [first,started]
      exact Nat.le_max_left ..
    · exact few.trans (by decide)
  · have started : (r.step (.tick input)).started client = r.started client :=
      if_neg (fun is => window.started is.1)
    have nonzero := window.nonzero
    obtain ⟨first,holds⟩ := saveKeysHolds (input.lastSeenLongAgo client) window.exact nonzero window.before (fresh kept client)
    have few := saveKeysFew (input.lastSeenLongAgo client) window.exact nonzero window.before (fresh kept client)
    have backlog := backlogTwo (input.lastSeenLongAgo client) (r.server.saved client).2.length
    have low := window.begins
    have before := window.before
    have promised := window.promised
    have most := window.most
    rw [show ((r.server.saved client).1,(r.server.saved client).2) = r.server.saved client from rfl,← frames,← now]
      at first holds few
    have reach : pruned r.server.frameIndex (input.lastSeenLongAgo client) (r.server.saved client).1
        (r.server.saved client).2.length = max (r.server.saved client).1
          (r.server.frameIndex + 2 - thisMaxBacklog (input.lastSeenLongAgo client) (r.server.saved client).2.length) := rfl
    refine ⟨?_,?_,?_,?_,?_,?_⟩
    · rw [started]
      exact window.started
    · rw [started,first,reach]
      omega
    · rw [first,index,reach]
      omega
    · rw [first,index,acked]
      exact holds
    · rw [first,started,index,reach]
      omega
    · refine few.trans ?_
      have limit : (if input.lastSeenLongAgo client then maxSavedClientFramesWorstCase else maxSavedClientFrames) ≤ 4000 := by
        split <;> decide
      omega

theorem tickSaves (kept : r.Kept) (input : TickInput) : r.Saves (.tick input) := by
  intro client has
  have frames := tickFrames kept input has
  have window := tickWindow kept input has
  have index : (r.step (.tick input)).server.frameIndex = r.server.frameIndex + 1 :=
    congrArg (fun v => v.2.2.2) (connectedTick r.server input)
  have before := window.before
  rw [index] at before
  refine ⟨(window.exact.exact _).mpr ⟨Nat.lt_succ_iff.mp before,?_,fresh kept client⟩,fun lately => ?_,
    fun long frame mem near => ?_⟩
  · rw [index]
    exact Nat.lt_succ_self _
  · rcases kept.windowed client has with ⟨not,none⟩ | old
    · rw [none] at frames
      rw [frames]
      exact (saveKeysLength _ _).trans (by simp)
    · have nonzero := old.nonzero
      have few := saveKeysFew (input.lastSeenLongAgo client) old.exact nonzero old.before (fresh kept client)
      rw [show ((r.server.saved client).1,(r.server.saved client).2) = r.server.saved client from rfl,← frames,lately]
        at few
      exact few
  · rcases kept.windowed client has with ⟨not,none⟩ | old
    · rw [none] at mem
      cases mem
    · have nonzero := old.nonzero
      obtain ⟨first,holds⟩ := saveKeysHolds (input.lastSeenLongAgo client) old.exact nonzero old.before (fresh kept client)
      obtain ⟨low,high,free⟩ := (old.exact.exact frame).mp mem
      rw [show ((r.server.saved client).1,(r.server.saved client).2) = r.server.saved client from rfl,← frames] at holds
      refine (holds.exact frame).mpr ⟨?_,Nat.lt_succ_of_lt high,free⟩
      have backlog : 4000 ≤ thisMaxBacklog (input.lastSeenLongAgo client) (r.server.saved client).2.length := by
        rw [long]
        exact Nat.le_max_left ..
      simp only [pruned]
      omega

theorem connectedOwnerless : Ownerless connected :=
  ⟨fun _ _ _ _ => rfl,fun _ _ _ _ => rfl,fun _ _ _ => rfl⟩

theorem connectedOfIds {s s' : Server} (same : s'.ids = s.ids) : s'.connected = s.connected :=
  congrArg (fun v : Ids => (v.skeleton.registry,v.skeleton.dropping,v.skeleton.slotId,v.skeleton.frameIndex)) same

theorem connectedOfSkeleton {s s' : Server} (same : s'.skeleton = s.skeleton) : s'.connected = s.connected :=
  congrArg (fun k : Skeleton => (k.registry,k.dropping,k.slotId,k.frameIndex)) same

structure Fewer (s s' : Server) : Prop where
  index : s'.frameIndex = s.frameIndex
  ticked : ∀ client,ticked s' client → ticked s client

namespace Fewer
variable {s s' : Server}

theorem drops (registry : s'.registry = s.registry) (dropping : s.dropping ⊆ s'.dropping) (slots : s'.slotId = s.slotId)
    (index : s'.frameIndex = s.frameIndex) : Fewer s s' := by
  refine ⟨index,fun client has => ?_⟩
  unfold FrameLog.ticked allClients at has ⊢
  rw [registry,slots] at has
  obtain ⟨member,free⟩ := List.mem_filter.mp has.1
  refine ⟨List.mem_filter.mpr ⟨member,?_⟩,has.2⟩
  simp only [decide_eq_true_eq] at free ⊢
  exact fun mem => free (dropping mem)

theorem same (same : s'.connected = s.connected) : Fewer s s' :=
  drops (congrArg Prod.fst same) (congrArg (fun v => v.2.1) same).symm.subset (congrArg (fun v => v.2.2.1) same)
    (congrArg (fun v => v.2.2.2) same)

theorem remove (s : Server) (client : ClientId) : Fewer s (s.RemoveClient client) := by
  unfold RemoveClient
  split
  · refine ⟨rfl,fun client' has => ?_⟩
    obtain ⟨mem,slotted⟩ := has
    obtain ⟨member,free⟩ := List.mem_filter.mp mem
    have other : client' ≠ client := by
      rintro rfl
      simp at slotted
    simp only [Function.update_of_ne other] at slotted
    refine ⟨List.mem_filter.mpr ⟨List.mem_of_mem_erase member,?_⟩,slotted⟩
    simpa [other] using free
  · exact same rfl

theorem runDrop (s : Server) (now distance) : Fewer s (s.runDrop now distance) := by
  unfold Server.runDrop
  split
  · exact same rfl
  · rename_i client slotId rest _
    have kept := connectedOfSkeleton (skeletonHandleClientDrop s client now distance slotId)
    exact same kept

theorem runRemoval (s : Server) : Fewer s s.runRemoval := by
  unfold Server.runRemoval
  split
  · exact same rfl
  · rename_i e rest _
    have shape := congrArg (fun k : Skeleton => (k.registry,k.dropping,k.slotId,k.frameIndex)) (Coherent.doRemoveShape s e)
    exact same shape

theorem cloneCreate (s : Server) (client now packet) : Fewer s (s.ProcessCloneCreate now client packet) := by
  rcases processCloneCreateCases s client now packet with stays | ⟨type,_,stays | ⟨ready,stays,_,eq⟩⟩
  · exact same (congrArg connected stays)
  · have constructed := connectedOfIds stays
    exact same constructed
  · have constructed := connectedOfIds stays
    exact same ((congrArg connected eq).trans constructed)

theorem nackFrames (client : ClientId) (slot : Slot) (first count : Nat) (acc) :
    acc.1.dropping ⊆ (Server.nackFrames client slot first count acc).1.dropping := by
  induction count generalizing acc with
  | zero => exact Finset.Subset.refl _
  | succ n ih =>
    unfold Server.nackFrames
    split
    · exact Finset.subset_insert ..
    · rename_i frame _
      have stays : (nackFrame client slot acc frame).1.dropping = acc.1.dropping :=
        congrArg (fun v : Ids => v.skeleton.dropping) (idsBaseless.nackFrame client slot acc frame)
      exact stays ▸ ih (nackFrame client slot acc frame)

section
variable (s : Server) (client : ClientId)

theorem nackLists (slot : Slot) (packet : GameStateNAck) :
    s.dropping ⊆ (s.nackLists client slot packet).dropping := by
  by_cases mem : packet.frameIndex ∈ (s.saved client).2
  · exact (nackListsFound mem).symm.subset
  · have absent : (s.data client).frameStates.lookup packet.frameIndex = none := AList.lookup_eq_none.mpr mem
    unfold Server.nackLists
    rw [absent]
    exact Finset.subset_insert ..

theorem nack (packet : GameStateNAck) : Fewer s (s.HandleGameStateNAck client packet) := by
  obtain ⟨dropping,shape⟩ := idsHandleGameStateNAck s client packet
  refine drops (congrArg (fun v : Ids => v.skeleton.registry) shape) ?_
    (congrArg (fun v : Ids => v.skeleton.slotId) shape) (congrArg (fun v : Ids => v.skeleton.frameIndex) shape)
  unfold HandleGameStateNAck
  split
  · exact Finset.Subset.refl _
  · split
    · exact Finset.Subset.refl _
    · rename_i slot _
      split
      · have missing : s.dropping ⊆ (s.nackMissing client slot packet).1.dropping := by
          unfold nackMissing
          dsimp only
          split
          · exact nackFrames client slot _ _ (s,∅)
          · exact nackFrames client slot _ _ (s,∅)
        split
        · rename_i eq
          rw [eq] at missing
          exact missing
        · rename_i eq
          rw [eq] at missing
          exact missing.trans (nackLists ..)
      · exact nackLists ..

theorem stepClient (now : Nat) (protect : Bool) (op : ClientOp) : Fewer s (s.stepClient client now protect op) := by
  cases op with
  | requestObjectIds n => exact same (connectedOwnerless.unowned.takeFreeIds s client _ n)
  | cloneCreate packet => exact cloneCreate s client now packet
  | cloneSync packet => exact same (connectedOfIds (idsBaseless.processCloneSync s client now packet))
  | cloneTakeover target id => exact same (connectedOwnerless.unowned.processCloneTakeover s client now target id)
  | cloneRemove id uniq => exact same (connectedOwnerless.blind.coarse.processCloneRemove s client protect id uniq)
  | timestamp ts => exact same (connectedOwnerless.blind.coarse.setTimestamp s client ts)
  | frameIndex index => exact same rfl
  | ackCreate id uniq => exact same (connectedOwnerless.blind.coarse.ackCreate s client id uniq)
  | ackRemove id uniq => exact same (connectedOwnerless.blind.coarse.ackRemove s client id uniq)
  | nack packet => exact nack s client packet
  | ack packet => exact same (connectedOfIds (idsHandleGameStateAck s client packet))

end

theorem step (s : Server) (op : Op) (old : op ≠ .connect) (still : ∀ input,op ≠ .tick input) : Fewer s (s.step op) := by
  cases op with
  | connect => exact absurd rfl old
  | tick input => exact absurd rfl (still input)
  | drop client => exact drops rfl (Finset.subset_insert ..) rfl rfl
  | remove client => exact remove s client
  | runDrop now distance => exact runDrop s now distance
  | runRemoval => exact runRemoval s
  | createEntity type tree rand now =>
    refine same ?_
    unfold Server.step CreateEntityFromTree
    dsimp only
    split <;> rfl
  | deleteEntity e => exact same (connectedOwnerless.blind.coarse.deleteEntity s e)
  | removeClone id => exact same (connectedOwnerless.blind.coarse.removeClone s id)
  | passFilter e => exact same rfl
  | setOrphanMode e mode => exact same rfl
  | setEntityBucket e bucket => exact same rfl
  | setClientBucket client bucket => exact same rfl
  | fromClient client now protect op =>
    unfold Server.step
    dsimp only
    split
    · exact stepClient s client now protect op
    · exact same rfl

end Fewer

theorem savedStep (s : Server) (op : Op) (old : op ≠ .connect) (still : ∀ input,op ≠ .tick input)
    (unacked : ∀ client now protect packet,op ≠ .fromClient client now protect (.ack packet)) :
    (s.step op).saved = s.saved := by
  cases op with
  | connect => exact absurd rfl old
  | tick input => exact absurd rfl (still input)
  | drop client => rfl
  | remove client =>
    unfold Server.step RemoveClient
    dsimp only
    split <;> rfl
  | runDrop now distance => exact savedRunDrop s now distance
  | runRemoval => exact savedPersonal.runRemoval s
  | createEntity type tree rand now => exact savedPersonal.createEntity s now type tree rand
  | deleteEntity e => exact savedOwnerless.blind.coarse.deleteEntity s e
  | removeClone id => exact savedOwnerless.blind.coarse.removeClone s id
  | passFilter e => rfl
  | setOrphanMode e mode => rfl
  | setEntityBucket e bucket => rfl
  | setClientBucket client bucket =>
    exact savedOwnerless.data s client (fun d => { d with routingBucket := bucket }) (fun _ => ⟨rfl,rfl⟩)
  | fromClient client now protect op =>
    unfold Server.step
    dsimp only
    split
    · exact savedPersonal.stepClient s client now protect op (fun packet same => unacked client now protect packet (same ▸ rfl))
    · rfl

theorem connectKept (kept : r.Kept) : (r.step .connect).Kept := by
  have acked : (r.step .connect).acked = Function.update r.acked r.server.nextNetId [] := rfl
  refine ⟨kept.coherent.step .connect,kept.begun,fun client frame mem => ?_,fun client has => ?_⟩
  · rw [acked] at mem
    by_cases new : client = r.server.nextNetId
    · rw [new,Function.update_self] at mem
      cases mem
    · rw [Function.update_of_ne new] at mem
      exact kept.acked client frame mem
  · by_cases new : client = r.server.nextNetId
    · subst new
      refine .inl ⟨Function.update_self ..,?_⟩
      have data : (r.server.connectClient.data r.server.nextNetId) = .init := Function.update_self ..
      exact congrArg (fun d : GameStateClientData => (d.firstSavedFrameState,d.frameStates.keys)) data
    · have before : ticked r.server client := by
        obtain ⟨mem,slotted⟩ := has
        obtain ⟨member,free⟩ := List.mem_filter.mp mem
        refine ⟨List.mem_filter.mpr ⟨?_,free⟩,?_⟩
        · exact (List.mem_append.mp member).resolve_right (fun last => new (List.mem_singleton.mp last))
        · exact (congrArg Option.isSome (Function.update_of_ne new _ r.server.slotId)).symm.trans slotted
      refine (kept.windowed client before).same ?_ rfl (Function.update_of_ne new ..) (Function.update_of_ne new ..)
      have data : (r.server.connectClient.data client) = r.server.data client := Function.update_of_ne new ..
      exact congrArg (fun d : GameStateClientData => (d.firstSavedFrameState,d.frameStates.keys)) data

variable {client : ClientId}

theorem tickTicked {input : TickInput} : ticked (r.step (.tick input)).server client ↔ ticked r.server client := by
  have same := connectedTick r.server input
  unfold ticked allClients
  rw [show (r.step (.tick input)).server.registry = r.server.registry from congrArg Prod.fst same,
    show (r.step (.tick input)).server.dropping = r.server.dropping from congrArg (fun v => v.2.1) same,
    show (r.step (.tick input)).server.slotId = r.server.slotId from congrArg (fun v => v.2.2.1) same]

theorem tickKept (kept : r.Kept) (input : TickInput) : (r.step (.tick input)).Kept := by
  have index : (r.step (.tick input)).server.frameIndex = r.server.frameIndex + 1 :=
    congrArg (fun v => v.2.2.2) (connectedTick r.server input)
  refine ⟨kept.coherent.step _,index ▸ Nat.succ_ne_zero _,fun client frame mem => ?_,fun client has => ?_⟩
  · rw [index]
    exact Nat.lt_succ_of_lt (kept.acked client frame mem)
  · exact .inr (tickWindow kept input (tickTicked.mp has))

theorem SavedWindow.erase (window : r.SavedWindow client) {r' : FrameLog} (frame : Nat)
    (saved : r'.server.saved client = ((r.server.saved client).1,(r.server.saved client).2.erase frame))
    (index : r'.server.frameIndex = r.server.frameIndex) (started : r'.started client = r.started client)
    (acked : r'.acked client = frame :: r.acked client) : r'.SavedWindow client := by
  refine ⟨?_,?_,?_,?_,?_,?_⟩
  · rw [started]
    exact window.started
  · rw [started,saved]
    exact window.begins
  · rw [saved,index]
    exact window.before
  · rw [saved,index,acked]
    exact (window.exact.take frame).congr (fun i _ => List.mem_cons.symm)
  · rw [saved,started,index]
    exact window.promised
  · rw [saved]
    exact List.length_erase_le.trans window.most

theorem Windowed.eraseAbsent (windowed : r.Windowed client) {frame : Nat} (late : r.server.frameIndex ≤ frame) :
    ((r.server.saved client).1,(r.server.saved client).2.erase frame) = r.server.saved client := by
  rcases windowed with ⟨-,none⟩ | window
  · rw [none]
    rfl
  · refine Prod.ext rfl (List.erase_of_not_mem (fun mem => ?_))
    exact absurd ((window.exact.exact frame).mp mem).2.1 (Nat.not_lt.mpr late)

theorem ackKept (kept : r.Kept) (client : ClientId) (now : Nat) (protect : Bool) (packet : GameStateAck) :
    (r.step (.fromClient client now protect (.ack packet))).Kept := by
  have fewer := Fewer.step r.server (.fromClient client now protect (.ack packet)) nofun nofun
  have acked : (r.step (.fromClient client now protect (.ack packet))).acked = if takes r.server client packet then
      Function.update r.acked client (packet.frameIndex :: r.acked client) else r.acked := rfl
  have index : (r.step (.fromClient client now protect (.ack packet))).server.frameIndex = r.server.frameIndex := fewer.index
  have server : (r.step (.fromClient client now protect (.ack packet))).server =
      if client ∈ r.server.inMemory then r.server.HandleGameStateAck client packet else r.server := rfl
  have coherent : Coherent (r.step (.fromClient client now protect (.ack packet))).server.skeleton :=
    kept.coherent.step (.fromClient client now protect (.ack packet))
  have started : (r.step (.fromClient client now protect (.ack packet))).started = r.started := rfl
  have before : ∀ c,ticked (r.step (.fromClient client now protect (.ack packet))).server c → ticked r.server c :=
    fewer.ticked
  generalize r.step (.fromClient client now protect (.ack packet)) = r' at *
  refine ⟨coherent,index ▸ kept.begun,fun c frame mem => ?_,fun c has => ?_⟩
  · rw [index]
    rw [acked] at mem
    split at mem
    · rename_i takes
      by_cases same : c = client
      · rw [same,Function.update_self] at mem
        rcases List.mem_cons.mp mem with rfl | mem
        · exact takes.2.2.2
        · exact kept.acked client frame mem
      · rw [Function.update_of_ne same] at mem
        exact kept.acked c frame mem
    · exact kept.acked c frame mem
  · have windowed := kept.windowed c (before c has)
    by_cases inMemory : client ∈ r.server.inMemory
    · rw [if_pos inMemory] at server
      have saved : r'.server.saved c = if r.server.syncStyle = .ARQ ∧ (r.server.slotId client).isSome ∧ c = client then
          ((r.server.saved client).1,(r.server.saved client).2.erase packet.frameIndex) else r.server.saved c := by
        rw [server]
        exact savedAck r.server client packet c
      by_cases mine : r.server.syncStyle = .ARQ ∧ (r.server.slotId client).isSome ∧ c = client
      · rw [if_pos mine] at saved
        obtain ⟨style,slotted,rfl⟩ := mine
        by_cases there : packet.frameIndex < r.server.frameIndex
        · rw [if_pos ⟨inMemory,style,slotted,there⟩] at acked
          rcases windowed with ⟨not,none⟩ | window
          · refine .inl ⟨started ▸ not,saved.trans ?_⟩
            rw [none]
            rfl
          · exact .inr (window.erase packet.frameIndex saved index (congrFun started c) (by rw [acked,Function.update_self]))
        · rw [if_neg (fun takes => there takes.2.2.2)] at acked
          exact windowed.same (saved.trans (windowed.eraseAbsent (Nat.not_lt.mp there))) index (congrFun started c)
            (congrFun acked c)
      · rw [if_neg mine] at saved
        refine windowed.same saved index (congrFun started c) ?_
        rw [acked]
        split
        · rename_i takes
          have other : c ≠ client := fun same => mine ⟨takes.2.1,takes.2.2.1,same⟩
          exact Function.update_of_ne other ..
        · rfl
    · rw [if_neg inMemory] at server
      rw [if_neg (fun takes => inMemory takes.1)] at acked
      exact windowed.same (congrFun (congrArg Server.saved server) c) index (congrFun started c) (congrFun acked c)

theorem otherKept (kept : r.Kept) (op : Op) (old : op ≠ .connect) (still : ∀ input,op ≠ .tick input)
    (unacked : ∀ client now protect packet,op ≠ .fromClient client now protect (.ack packet)) : (r.step op).Kept := by
  have fewer := Fewer.step r.server op old still
  have saved := savedStep r.server op old still unacked
  have started : (r.step op).started = r.started := by
    cases op <;> first | rfl | exact absurd rfl old | exact absurd rfl (still _)
  have acked : (r.step op).acked = r.acked := by
    cases op with
    | connect => exact absurd rfl old
    | fromClient client now protect op =>
      cases op <;> first | rfl | exact absurd rfl (unacked client now protect _)
    | _ => rfl
  refine ⟨kept.coherent.step op,?_,fun client frame mem => ?_,fun client has => ?_⟩
  · exact fewer.index ▸ kept.begun
  · rw [acked] at mem
    exact fewer.index ▸ kept.acked client frame mem
  · exact (kept.windowed client (fewer.ticked client has)).same (congrFun saved client) fewer.index
      (congrFun started client) (congrFun acked client)

theorem stepKept (kept : r.Kept) (op : Op) : (r.step op).Kept := by
  by_cases connects : op = .connect
  · exact connects ▸ connectKept kept
  · by_cases ticks : ∃ input,op = .tick input
    · obtain ⟨input,rfl⟩ := ticks
      exact tickKept kept input
    · by_cases acks : ∃ client now protect packet,op = .fromClient client now protect (.ack packet)
      · obtain ⟨client,now,protect,packet,rfl⟩ := acks
        exact ackKept kept client now protect packet
      · exact otherKept kept op connects (fun input same => ticks ⟨input,same⟩)
          (fun client now protect packet same => acks ⟨client,now,protect,packet,same⟩)

theorem stepSaves (kept : r.Kept) (op : Op) : r.Saves op := by
  cases op with
  | tick input => exact tickSaves kept input
  | _ => trivial

end Steps

theorem initKept (bigMode lengthHack : Bool) : (FrameLog.init bigMode lengthHack).Kept :=
  ⟨Coherent.init bigMode lengthHack,Nat.one_ne_zero,fun _ _ mem => (nomatch mem),fun _ has => (nomatch has.1)⟩

theorem savedFramesWindowed (bigMode lengthHack : Bool) (ops : List Op) :
    Throughout FrameLog.step (fun r => ∀ client,ticked r.server client → r.Windowed client ∧ r.Found client)
      (FrameLog.init bigMode lengthHack) ops ∧ Along FrameLog.step Saves (FrameLog.init bigMode lengthHack) ops := by
  have always : Along FrameLog.step (fun _ _ => True) (FrameLog.init bigMode lengthHack) ops :=
    alongAlways
  constructor
  · have kept := throughoutOfKept Kept (fun _ op kept _ => stepKept kept op) (initKept bigMode lengthHack) always
    have each (r : FrameLog) (kept : r.Kept) (client : ClientId) (has : ticked r.server client) :
        r.Windowed client ∧ r.Found client := ⟨kept.windowed client has,(kept.windowed client has).found⟩
    exact throughoutMono each kept
  · exact alongOfKept Kept (fun _ op kept _ => ⟨stepKept kept op,stepSaves kept op⟩) (initKept bigMode lengthHack) always

def plainTick (oneSyncARQ seenLongAgo : Bool) : TickInput :=
  ⟨0,oneSyncARQ,false,false,0,fun _ _ => false,fun _ _ => 0,fun _ => false,fun _ => seenLongAgo,fun _ _ => false⟩

def plainTicks (flags : List Bool) : List Op := flags.map (fun seenLongAgo => .tick (plainTick false seenLongAgo))

def firstAfter : List Bool → Nat → Nat → Nat
  | [],first,_ => first
  | seenLongAgo :: rest,first,frameIndex =>
    firstAfter rest (pruned frameIndex seenLongAgo first (frameIndex - first)) (frameIndex + 1)

section Plain
variable {r : FrameLog} {client : ClientId}

theorem SavedWindow.whole (window : r.SavedWindow client) (none : r.acked client = []) :
    (r.server.saved client).2.length = r.server.frameIndex - (r.server.saved client).1 :=
  (window.exact.contiguous (fun i _ mem => by simp [none] at mem)).1

theorem plainTicksFrom (flags : List Bool) (kept : r.Kept) (has : ticked r.server client) (window : r.SavedWindow client)
    (none : r.acked client = []) : ((run FrameLog.step r (plainTicks flags)).server.saved client).2.length =
      r.server.frameIndex + flags.length - firstAfter flags (r.server.saved client).1 r.server.frameIndex := by
  induction flags generalizing r with
  | nil => exact window.whole none
  | cons seenLongAgo rest ih =>
    have index : (r.step (.tick (plainTick false seenLongAgo))).server.frameIndex = r.server.frameIndex + 1 :=
      congrArg (fun v => v.2.2.2) (connectedTick r.server _)
    have first : ((r.step (.tick (plainTick false seenLongAgo))).server.saved client).1 =
        pruned r.server.frameIndex seenLongAgo (r.server.saved client).1 (r.server.frameIndex - (r.server.saved client).1) := by
      rw [← window.whole none]
      exact (congrArg Prod.fst (tickFrames kept _ has)).trans
        (saveKeysHolds seenLongAgo window.exact window.nonzero window.before (fresh kept client)).1
    have later := ih (tickKept kept (plainTick false seenLongAgo)) (tickTicked.mpr has) (tickWindow kept _ has) none
    rw [index,first] at later
    refine later.trans ?_
    rw [List.length_cons,firstAfter]
    congr 1
    omega

def oneFrame (seenLongAgo : Bool) : FrameLog :=
  run FrameLog.step (FrameLog.init false false) [.connect,.tick (plainTick false seenLongAgo)]

theorem oneFrameTicks (seenLongAgo : Bool) (flags : List Bool) :
    ((run FrameLog.step (oneFrame seenLongAgo) (plainTicks flags)).server.saved 1).2.length =
      2 + flags.length - firstAfter flags 1 2 := by
  have joined : (FrameLog.init false false |>.step .connect).Kept := connectKept (initKept false false)
  have has : ticked (FrameLog.init false false |>.step .connect).server 1 := by decide
  have saved : (oneFrame seenLongAgo).server.saved 1 = (1,[1]) ∧ (oneFrame seenLongAgo).server.frameIndex = 2 := by
    cases seenLongAgo <;> exact ⟨rfl,rfl⟩
  have later := plainTicksFrom flags (tickKept joined (plainTick false seenLongAgo)) (tickTicked.mpr has)
    (tickWindow joined _ has) rfl
  have start : FrameLog.step (FrameLog.init false false |>.step .connect) (.tick (plainTick false seenLongAgo)) =
    oneFrame seenLongAgo := rfl
  rw [start,saved.1,saved.2] at later
  exact later

end Plain

def ackedFrames : FrameLog :=
  run FrameLog.step (FrameLog.init false false) [.connect,.tick (plainTick true false),.tick (plainTick true false),
    .tick (plainTick true false),.fromClient 1 0 false (.ack ⟨2,[],[]⟩)]

theorem windowNotPromised :
    (¬ ∃ first,∀ frame,frame ∈ (ackedFrames.server.saved 1).2 ↔ first ≤ frame ∧ frame < ackedFrames.server.frameIndex) ∧
    ((run FrameLog.step (oneFrame false) (plainTicks (List.replicate 659 false))).server.saved 1).2.length <
      maxSavedClientFrames ∧ maxSavedClientFrames < ((run FrameLog.step (oneFrame true)
      (plainTicks (List.replicate 799 true ++ [false]))).server.saved 1).2.length := by
  refine ⟨?_,?_,?_⟩
  · rintro ⟨first,range⟩
    have saved : ackedFrames.server.saved 1 = (1,[3,1]) := rfl
    have index : ackedFrames.server.frameIndex = 4 := rfl
    rw [saved,index] at range
    have low := ((range 1).mp (by decide)).1
    have gap : 2 ∈ [3,1] := (range 2).mpr ⟨by omega,by decide⟩
    exact absurd gap (by decide)
  · rw [oneFrameTicks]
    decide +kernel
  · rw [oneFrameTicks]
    decide +kernel

end FrameLog
end Citizen.State
