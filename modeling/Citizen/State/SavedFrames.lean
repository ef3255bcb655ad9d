import Citizen.Lib.Window
import Citizen.State.ClientViews
import Citizen.State.Coherence

/-! The frames that are saved for a client: what a tick makes of them and what an
acknowledgement takes, and that nothing else touches them. -/
namespace Citizen.State
open Window
namespace Server

def saved (s : Server) (client : ClientId) : Nat × List Nat :=
  ((s.data client).firstSavedFrameState,(s.data client).frameStates.keys)

def eraseOldKeys (frameIndex backlog : Nat) : Nat → Nat × List Nat → Nat × List Nat
  | 0,frames => frames
  | fuel + 1,(first,kept) =>
    if frameIndex - first ≥ backlog - 1 then
      eraseOldKeys frameIndex backlog fuel (first + 1,kept.erase first)
    else (first,kept)

def thisMaxBacklog (seenLongAgo : Bool) (size : Nat) : Nat :=
  max (if seenLongAgo then maxSavedClientFramesWorstCase else maxSavedClientFrames) (savedLessTwo size)

def pruneKeys (frameIndex : Nat) (seenLongAgo : Bool) (saved : Nat × List Nat) : Nat × List Nat :=
  if saved.1 ≠ 0 then
    eraseOldKeys frameIndex (thisMaxBacklog seenLongAgo saved.2.length) (frameIndex + 1) saved
  else (frameIndex,saved.2)

def saveKeys (frameIndex : Nat) (seenLongAgo : Bool) (saved : Nat × List Nat) : Nat × List Nat :=
  let kept := pruneKeys frameIndex seenLongAgo saved
  (kept.1,if frameIndex ∈ kept.2 then kept.2 else frameIndex :: kept.2)

theorem savedModifyData (s : Server) (c : ClientId) {f}
    (keys : ∀ d : GameStateClientData,(f d).frameStates.keys = d.frameStates.keys)
    (first : ∀ d : GameStateClientData,(f d).firstSavedFrameState = d.firstSavedFrameState) :
    (s.modifyData c f).saved = s.saved :=
  funext (fun c' => Prod.ext (dataModifyKeeps s c c' first)
    (@dataModifyKeeps s c c' _ (fun d => d.frameStates.keys) f keys))

theorem savedOwnerless : Ownerless saved where
  entity := fun _ _ _ _ => rfl
  data := fun s c _ kept => savedModifyData s c (fun d => congrArg AList.keys (kept d).1) (fun d => (kept d).2)
  grants := fun _ _ _ => rfl

theorem savedPersonal : Personal saved where
  only := fun s s' same => by
    unfold saved
    rw [same]
  data := fun s c _ kept => savedModifyData s c (fun d => (kept d).1) (fun d => (kept d).2.1)

theorem eraseOldFramesKeys (frameIndex backlog fuel first : Nat) (states : Table Nat ClientEntityState) :
    ((eraseOldFrames frameIndex backlog fuel (first,states)).1,
      (eraseOldFrames frameIndex backlog fuel (first,states)).2.keys) =
        eraseOldKeys frameIndex backlog fuel (first,states.keys) := by
  induction fuel generalizing first states with
  | zero => rfl
  | succ fuel ih =>
    unfold eraseOldFrames eraseOldKeys
    split
    · rw [ih,AList.keys_erase]
    · rfl

theorem insertKeys (frameIndex : Nat) (states : Table Nat ClientEntityState) (ces : ClientEntityState) :
    (if states.lookup frameIndex = none then states.insert frameIndex ces else states).keys =
      if frameIndex ∈ states.keys then states.keys else frameIndex :: states.keys := by
  split
  · rename_i absent
    have new : frameIndex ∉ states.keys := AList.lookup_eq_none.mp absent
    rw [AList.keys_insert,List.erase_of_not_mem new,if_neg new]
  · rename_i found
    have old : frameIndex ∈ states.keys := by_contra (fun new => found (AList.lookup_eq_none.mpr new))
    rw [if_pos old]

section
variable (input : TickInput) (client : ClientId) (s : Server) (ces : ClientEntityState)

theorem saveFramePrunes :
    ∃ kept : Nat × Table Nat ClientEntityState,
      (kept.1,kept.2.keys) = pruneKeys s.frameIndex (input.lastSeenLongAgo client) (s.saved client) ∧
      s.saveFrame input client ces = s.modifyData client (fun d => { d with
        firstSavedFrameState := kept.1
        frameStates := if kept.2.lookup s.frameIndex = none then kept.2.insert s.frameIndex ces else kept.2 }) := by
  refine ⟨_,?_,rfl⟩
  have size : (s.data client).frameStates.keys.length = (s.data client).frameStates.entries.length :=
    List.length_map _
  unfold pruneKeys saved
  split
  · rw [eraseOldFramesKeys,thisMaxBacklog,size]
  · rfl

theorem savedSaveFrame (client' : ClientId) :
    (s.saveFrame input client ces).saved client' = if client' = client then
      saveKeys s.frameIndex (input.lastSeenLongAgo client) (s.saved client) else s.saved client' := by
  obtain ⟨kept,pruned,shape⟩ := saveFramePrunes input client s ces
  rw [shape]
  unfold saveKeys
  rw [← pruned]
  by_cases same : client' = client
  · rw [if_pos same,same]
    unfold saved
    rw [dataModifySelf]
    exact Prod.ext rfl (insertKeys ..)
  · rw [if_neg same]
    unfold saved
    rw [dataModifyOther s same]

end

section Kept
variable (s : Server) (client : ClientId)

theorem savedRunDrop (now : Nat) (distance) : (s.runDrop now distance).saved = s.saved := by
  unfold runDrop
  split
  · rfl
  · rename_i client' slotId rest _
    exact savedPersonal.baseless.handleClientDrop s client' now savedOwnerless distance slotId

theorem savedAck (packet : GameStateAck) (client' : ClientId) : (s.HandleGameStateAck client packet).saved client' =
    if s.syncStyle = .ARQ ∧ (s.slotId client).isSome ∧ client' = client then
      ((s.saved client).1,(s.saved client).2.erase packet.frameIndex)
    else s.saved client' := by
  unfold HandleGameStateAck
  split
  · rename_i style
    rw [if_neg (fun is => style is.1)]
  · rename_i style
    split
    · rename_i slotless
      rw [if_neg (fun is => by simp [slotless] at is)]
    · rename_i slot has
      have acked := savedPersonal.baseless.ackFrame s client slot packet
        (((s.data client).frameStates.lookup packet.frameIndex).getD ⟨∅,[]⟩)
      dsimp only
      generalize s.ackFrame client slot packet _ = t at acked ⊢
      by_cases same : client' = client
      · rw [if_pos ⟨not_not.mp style,by simp [has],same⟩,same,← acked]
        unfold saved
        rw [dataModifySelf]
        exact Prod.ext rfl (AList.keys_erase _ _)
      · rw [if_neg (fun is => same is.2.2),← acked]
        unfold saved
        rw [dataModifyOther t same]

end Kept

section Tick
variable (s : Server) (input : TickInput) (client : ClientId) (slot : Slot)

theorem savedClientPass (client' : ClientId) : (clientPass input s client).saved client' =
    if (s.slotId client).isSome ∧ client' = client then
      saveKeys s.frameIndex (input.lastSeenLongAgo client) (s.saved client)
    else s.saved client' := by
  unfold clientPass
  split
  · rename_i slotless
    rw [if_neg (fun is => by simp [slotless] at is)]
  · rename_i slot has
    have updated := savedPersonal.baseless.updatePass s client slot savedOwnerless input
    have frame := congrArg Skeleton.frameIndex (skeletonUpdatePass s input client slot)
    dsimp only
    rw [foldSame saved (fun s' command => savedPersonal.baseless.execute s' client slot input command),savedSaveFrame,updated]
    have index : (updatePass input client slot s).server.frameIndex = s.frameIndex := frame
    simp [index,has]

theorem savedPasses {clients : List ClientId} (once : clients.Nodup) (client : ClientId) :
    (clients.foldl (clientPass input) s).saved client =
      if client ∈ clients ∧ (s.slotId client).isSome then
        saveKeys s.frameIndex (input.lastSeenLongAgo client) (s.saved client)
      else s.saved client := by
  induction clients generalizing s with
  | nil => simp
  | cons first rest ih =>
    obtain ⟨new,once⟩ := List.nodup_cons.mp once
    have skeleton := skeletonClientPass s input first
    have index : (clientPass input s first).frameIndex = s.frameIndex := congrArg Skeleton.frameIndex skeleton
    have slots : (clientPass input s first).slotId = s.slotId := congrArg Skeleton.slotId skeleton
    rw [List.foldl_cons,ih _ once,index,slots,savedClientPass]
    by_cases here : client = first
    · subst here
      simp [new]
    · simp [here]

def connected (s : Server) : List ClientId × Finset ClientId × (ClientId → Option Slot) × Nat :=
  (s.registry,s.dropping,s.slotId,s.frameIndex)

theorem connectedRelevancePhase : (s.relevancePhase input).connected = s.connected := by
  have swept : (s.swept input).1.connected = s.connected :=
    foldSame (fun acc : Server × List EntityRef => acc.1.connected) (fun acc e => by
      unfold collect FinalizeClone
      dsimp only
      repeat' split
      all_goals rfl)
  have passed := congrArg (fun v : Ids => (v.skeleton.registry,v.skeleton.dropping,v.skeleton.slotId,v.skeleton.frameIndex))
    (idsRelevancePhase s input)
  exact passed.trans swept

theorem savedTick (once : s.registry.Nodup) : (s.Tick input).saved client =
    if client ∈ s.allClients ∧ (s.slotId client).isSome then
      saveKeys s.frameIndex (input.lastSeenLongAgo client) (s.saved client)
    else s.saved client := by
  have same := connectedRelevancePhase s input
  have registry : (s.relevancePhase input).registry = s.registry := congrArg Prod.fst same
  have dropping : (s.relevancePhase input).dropping = s.dropping := congrArg (fun v => v.2.1) same
  have slots : (s.relevancePhase input).slotId = s.slotId := congrArg (fun v => v.2.2.1) same
  have index : (s.relevancePhase input).frameIndex = s.frameIndex := congrArg (fun v => v.2.2.2) same
  have clients : (s.relevancePhase input).allClients = s.allClients := by
    unfold allClients
    rw [registry,dropping]
  have passes := savedPasses (s.relevancePhase input) input (once.filter _ : s.allClients.Nodup) client
  rw [slots,index,savedPersonal.relevancePhase] at passes
  refine Eq.trans ?_ passes
  change ((s.relevancePhase input).updatePhase input).saved client = _
  unfold updatePhase
  rw [clients]
  rfl

theorem connectedTick : (s.Tick input).connected = (s.registry,s.dropping,s.slotId,s.frameIndex + 1) := by
  have same := connectedRelevancePhase s input
  have updated := congrArg (fun k : Skeleton => (k.registry,k.dropping,k.slotId,k.frameIndex + 1))
    (skeletonUpdatePhase (s.relevancePhase input) input)
  exact updated.trans (congrArg (fun v => (v.1,v.2.1,v.2.2.1,v.2.2.2 + 1)) same)

end Tick

section Keys
variable {frameIndex first next : Nat} {taken : Nat → Prop} {kept : List Nat}

theorem eraseOldKeysFirst {backlog fuel : Nat} (two : 2 ≤ backlog) (enough : frameIndex - first ≤ fuel) :
    (eraseOldKeys frameIndex backlog fuel (first,kept)).1 = max first (frameIndex + 2 - backlog) := by
  induction fuel generalizing first kept with
  | zero =>
    change first = _
    omega
  | succ fuel ih =>
    unfold eraseOldKeys
    split
    · rw [ih (by omega)]
      omega
    · dsimp only
      omega

theorem eraseOldKeysHolds {backlog fuel : Nat} (holds : Holds first next taken kept) :
    Holds (eraseOldKeys frameIndex backlog fuel (first,kept)).1 next taken
      (eraseOldKeys frameIndex backlog fuel (first,kept)).2 := by
  induction fuel generalizing first kept with
  | zero => exact holds
  | succ fuel ih =>
    unfold eraseOldKeys
    split
    · exact ih holds.eraseFirst
    · exact holds

variable (seenLongAgo : Bool)

theorem backlogTwo (size : Nat) : 650 ≤ thisMaxBacklog seenLongAgo size := by
  unfold thisMaxBacklog maxSavedClientFrames maxSavedClientFramesWorstCase
  split <;> omega

def pruned (frameIndex : Nat) (seenLongAgo : Bool) (first size : Nat) : Nat :=
  max first (frameIndex + 2 - thisMaxBacklog seenLongAgo size)

theorem saveKeysHolds (holds : Holds first frameIndex taken kept) (started : first ≠ 0)
    (before : first < frameIndex) (fresh : ¬ taken frameIndex) :
    (saveKeys frameIndex seenLongAgo (first,kept)).1 = pruned frameIndex seenLongAgo first kept.length ∧
    Holds (pruned frameIndex seenLongAgo first kept.length) (frameIndex + 1) taken
      (saveKeys frameIndex seenLongAgo (first,kept)).2 := by
  have large := backlogTwo seenLongAgo kept.length
  have erased := @eraseOldKeysFirst frameIndex first kept (thisMaxBacklog seenLongAgo kept.length) (frameIndex + 1)
    (by omega) (by omega)
  have still := @eraseOldKeysHolds frameIndex first frameIndex taken kept
    (thisMaxBacklog seenLongAgo kept.length) (frameIndex + 1) holds
  unfold saveKeys pruneKeys
  simp only [if_pos started]
  rw [erased] at still ⊢
  rw [if_neg still.absent]
  refine ⟨rfl,still.push ?_ fresh⟩
  omega

theorem saveKeysStarts (fresh : ¬ taken frameIndex) : (saveKeys frameIndex seenLongAgo (0,[])).1 = frameIndex ∧
      Holds frameIndex (frameIndex + 1) taken (saveKeys frameIndex seenLongAgo (0,[])).2 := by
  unfold saveKeys pruneKeys
  simp only [ne_eq,not_true,if_false,List.not_mem_nil]
  exact ⟨trivial,(Holds.empty frameIndex taken).push le_rfl fresh⟩

theorem eraseOldKeysLength (backlog fuel : Nat) (frames : Nat × List Nat) :
    (eraseOldKeys frameIndex backlog fuel frames).2.length ≤ frames.2.length := by
  induction fuel generalizing frames with
  | zero => exact le_rfl
  | succ fuel ih =>
    obtain ⟨first,kept⟩ := frames
    unfold eraseOldKeys
    split
    · exact (ih _).trans (List.length_erase_le)
    · exact le_rfl

theorem saveKeysLength (frames : Nat × List Nat) :
    (saveKeys frameIndex seenLongAgo frames).2.length ≤ frames.2.length + 1 := by
  have erased : (pruneKeys frameIndex seenLongAgo frames).2.length ≤ frames.2.length := by
    unfold pruneKeys
    split
    · exact eraseOldKeysLength _ _ frames
    · exact le_rfl
  unfold saveKeys
  dsimp only
  split
  · omega
  · rw [List.length_cons]
    omega

theorem saveKeysFew (holds : Holds first frameIndex taken kept) (started : first ≠ 0)
    (before : first < frameIndex) (fresh : ¬ taken frameIndex) :
    (saveKeys frameIndex seenLongAgo (first,kept)).2.length ≤
      max ((if seenLongAgo then maxSavedClientFramesWorstCase else maxSavedClientFrames) - 1) (kept.length - 3) := by
  have most := (saveKeysHolds seenLongAgo holds started before fresh).2.length
  have grown := @saveKeysLength frameIndex seenLongAgo (first,kept)
  simp only [pruned,thisMaxBacklog] at most
  dsimp only at grown
  have limit : 650 ≤ (if seenLongAgo then maxSavedClientFramesWorstCase else maxSavedClientFrames) := by
    split <;> decide
  by_cases few : kept.length < 2
  · omega
  · rw [savedLessTwo,if_neg few] at most
    omega

end Keys

end Server
end Citizen.State
