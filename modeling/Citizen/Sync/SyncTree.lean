import Citizen.Sync.NodeWrapper
import Citizen.Net.BitWalk

/-! What a sync tree sends of itself after a frame, and what a receiver that walks the same tree makes of it. -/
namespace Citizen.Sync
open BitField (bitAt)
open Rl

inductive SyncNode (N : Type) where
  | parent (ids : NodeIds) (children : List (SyncNode N))
  | wrapper (ids : NodeIds) (node : NodeWrapper N)

section
variable {N : Type}

mutual
def SyncNode.unparse : SyncNode N → SyncUnparseState → Bool × SyncUnparseState
  | .parent ids children,state =>
      let (should,state) := shouldWrite state ids true
      if should then unparseChildren children state else (false,state)
  | .wrapper ids node,state => node.unparse ids state

def unparseChildren : List (SyncNode N) → SyncUnparseState → Bool × SyncUnparseState
  | [],state => (false,state)
  | child :: rest,state =>
      let (thisShould,state) := child.unparse state
      let (should,state) := unparseChildren rest state
      (thisShould || should,state)
end

def unparseTree (isRDR : Bool) (root : SyncNode N) (state : SyncUnparseState) : Bool × SyncUnparseState :=
  let state := { state with objType := 0 }
  let state :=
    if state.syncType = 2 ∨ state.syncType = 4 then { state with objType := 1, buffer := (state.buffer.writeBit 1).2 } else state
  let state := if isRDR then { state with buffer := (state.buffer.writeBit 0).2 } else state
  root.unparse state

section
variable (lengthHack : Bool) (inner : N → Option (InnerParse N)) (syncType objType : Nat)

mutual
def SyncNode.parse : SyncNode N → SyncParseState → SyncNode N × SyncParseState
  | .parent ids children,state =>
      let (should,buffer) := shouldRead syncType objType ids state.buffer
      let state := { state with buffer }
      if should then
        let (children,state) := parseChildren children state
        (.parent ids children,state)
      else (.parent ids children,state)
  | .wrapper ids node,state =>
      let (node,state) := node.parse lengthHack (inner node.node) syncType objType ids state
      (.wrapper ids node,state)

def parseChildren : List (SyncNode N) → SyncParseState → List (SyncNode N) × SyncParseState
  | [],state => ([],state)
  | child :: rest,state =>
      let (child,state) := child.parse state
      let (rest,state) := parseChildren rest state
      (child :: rest,state)
end
end

def ParseSync (lengthHack isRDR : Bool) (inner : N → Option (InnerParse N)) (root : SyncNode N) (state : SyncParseState) :
    SyncNode N × SyncParseState :=
  let (objType,buffer) := state.buffer.readBit
  let buffer := if isRDR then buffer.readBit.2 else buffer
  root.parse lengthHack inner 2 (if objType = 1 then 1 else 0) { state with buffer }

def ParseCreate (lengthHack isRDR : Bool) (inner : N → Option (InnerParse N)) (root : SyncNode N) (state : SyncParseState) :
    SyncNode N × SyncParseState :=
  let buffer := if isRDR then state.buffer.readBit.2 else state.buffer
  root.parse lengthHack inner 1 0 { state with buffer }

mutual
def SyncNode.receive : SyncNode N → Reader
  | .parent ids children,d =>
      let (should,d) := shouldRead 2 1 ids d
      if should then receiveChildren children d else ([],d)
  | .wrapper ids node,d =>
      let (should,d) := shouldRead 2 1 ids d
      if should then
        let (body,d) := d.take node.length
        ([body],d)
      else ([],d)

def receiveChildren : List (SyncNode N) → Reader
  | [],d => ([],d)
  | child :: rest,d =>
      let (bodies,d) := child.receive d
      let (more,d) := receiveChildren rest d
      (bodies ++ more,d)
end

def receiveTree (isRDR : Bool) (root : SyncNode N) : Reader := fun d =>
  let d := d.readBit.2
  let d := if isRDR then d.readBit.2 else d
  root.receive d

def NodeIds.Applies (ids : NodeIds) (syncType objType : Nat) : Prop :=
  ids.id1 &&& syncType ≠ 0 ∧ (ids.id3 = 0 ∨ objType &&& ids.id3 ≠ 0)

instance (ids : NodeIds) (syncType objType : Nat) : Decidable (ids.Applies syncType objType) :=
  inferInstanceAs (Decidable (_ ∧ _))

mutual
def SyncNode.Flagged : SyncNode N → Prop
  | .parent _ children => FlaggedChildren children
  | .wrapper ids _ => ids.id1 &&& 2 ≠ 0 → ids.id2 &&& 2 ≠ 0

def FlaggedChildren : List (SyncNode N) → Prop
  | [] => True
  | child :: rest => child.Flagged ∧ FlaggedChildren rest
end

def NodeWrapper.body (node : NodeWrapper N) : List Bool := (List.range node.length).map (bitAt node.data)

section
variable (lastFrameIndex : Nat)

def NodeWrapper.Newer (node : NodeWrapper N) : Prop := 0 < node.length ∧ lastFrameIndex < node.frameIndex

instance (node : NodeWrapper N) : Decidable (node.Newer lastFrameIndex) := inferInstanceAs (Decidable (_ ∧ _))

mutual
def SyncNode.changed : SyncNode N → List (List Bool)
  | .parent ids children => if ids.Applies 2 1 then changedChildren children else []
  | .wrapper ids node => if ids.Applies 2 1 ∧ node.Newer lastFrameIndex then [node.body] else []

def changedChildren : List (SyncNode N) → List (List Bool)
  | [] => []
  | child :: rest => child.changed ++ changedChildren rest
end

mutual
def SyncNode.width : SyncNode N → Nat
  | .parent ids children => if ids.Applies 2 1 then presence ids 2 + widthChildren children else 0
  | .wrapper ids node =>
      if ids.Applies 2 1 then presence ids 2 + (if node.Newer lastFrameIndex then node.length else 0) else 0

def widthChildren : List (SyncNode N) → Nat
  | [] => 0
  | child :: rest => child.width + widthChildren rest
end

mutual
def SyncNode.reach : SyncNode N → Nat
  | .parent ids children => if ids.Applies 2 1 then presence ids 2 + reachChildren children else 0
  | .wrapper ids node =>
      if ids.Applies 2 1 ∧ node.Newer lastFrameIndex then presence ids 2 + node.length else 0

def reachChildren : List (SyncNode N) → Nat
  | [] => 0
  | child :: rest =>
      if changedChildren lastFrameIndex rest = [] then child.reach else child.width lastFrameIndex + reachChildren rest
end
end

section
variable {ids : NodeIds} {syncType objType : Nat} {state : SyncUnparseState}

theorem shouldReadSkips (d : MessageBuffer) (skipped : ¬ids.Applies syncType objType) : shouldRead syncType objType ids d = (false,d) := by
  unfold NodeIds.Applies at skipped
  unfold shouldRead
  split
  · rfl
  · rw [if_pos (by tauto)]

section
variable (d : MessageBuffer) (applies : ids.Applies syncType objType)
include applies

theorem shouldReadFlag (flag : ids.id2 &&& syncType ≠ 0) :
    shouldRead syncType objType ids d = (decide (d.readBit.1 ≠ 0),d.readBit.2) := by
  unfold NodeIds.Applies at applies
  unfold shouldRead
  rw [if_neg applies.1,if_neg (by tauto),if_pos flag]

theorem shouldReadPlain (plain : ¬ids.id2 &&& syncType ≠ 0) : shouldRead syncType objType ids d = (true,d) := by
  unfold NodeIds.Applies at applies
  unfold shouldRead
  rw [if_neg applies.1,if_neg (by tauto),if_neg plain]

end

theorem shouldWriteSkips (value : Bool) (skipped : ¬ids.Applies state.syncType state.objType) :
    shouldWrite state ids value = (false,state) := by
  unfold NodeIds.Applies at skipped
  unfold shouldWrite
  split
  · rfl
  · rw [if_pos (by tauto)]

section
variable (value : Bool) (applies : ids.Applies state.syncType state.objType)
include applies

theorem shouldWriteFlag (flag : ids.id2 &&& state.syncType ≠ 0) :
    shouldWrite state ids value = (value,{ state with buffer := (state.buffer.writeBit value.toNat).2 }) := by
  unfold NodeIds.Applies at applies
  unfold shouldWrite
  rw [if_neg applies.1,if_neg (by tauto),if_pos flag]

theorem shouldWritePlain (plain : ¬ids.id2 &&& state.syncType ≠ 0) : shouldWrite state ids value = (true,state) := by
  unfold NodeIds.Applies at applies
  unfold shouldWrite
  rw [if_neg applies.1,if_neg (by tauto),if_neg plain]

end
end

def deltaState (lastFrameIndex : Nat) (buffer : MessageBuffer) : SyncUnparseState :=
  { buffer, syncType := 2, objType := 1, timestamp := 0, lastFrameIndex, isFirstUpdate := false }

theorem couldWriteDelta (lastFrameIndex : Nat) (ids : NodeIds) (node : NodeWrapper N) (b : MessageBuffer) :
    couldWrite node.length node.frameIndex node.timestamp ids (deltaState lastFrameIndex b) = decide (node.Newer lastFrameIndex) := by
  simp only [couldWrite,deltaState,NodeWrapper.Newer]
  simp
  exact (Bool.decide_and _ _).symm

def Delta (lastFrameIndex : Nat) (unparse : SyncUnparseState → Bool × SyncUnparseState) (read : Reader) (sent : List (List Bool))
    (width reach : Nat) : Prop :=
  ∃ write, (∀ b, unparse (deltaState lastFrameIndex b) = (decide (sent ≠ []),deltaState lastFrameIndex (write b))) ∧
    Walk write read sent width reach ∧ Reader.Stops read

theorem Delta.skip (lastFrameIndex : Nat) {unparse : SyncUnparseState → Bool × SyncUnparseState} {read : Reader}
    (silent : ∀ b, unparse (deltaState lastFrameIndex b) = (false,deltaState lastFrameIndex b)) (passes : read = fun d => ([],d)) :
    Delta lastFrameIndex unparse read [] 0 0 := by
  subst passes
  exact ⟨id,silent,.skip,fun d _ => rfl⟩

theorem wrapperDelta (lastFrameIndex : Nat) (ids : NodeIds) (node : NodeWrapper N) (flagged : ids.id1 &&& 2 ≠ 0 → ids.id2 &&& 2 ≠ 0) :
    Delta lastFrameIndex (SyncNode.wrapper ids node).unparse (SyncNode.wrapper ids node).receive
      ((SyncNode.wrapper ids node).changed lastFrameIndex) ((SyncNode.wrapper ids node).width lastFrameIndex)
      ((SyncNode.wrapper ids node).reach lastFrameIndex) := by
  by_cases applies : ids.Applies 2 1
  · have flag := flagged applies.1
    have one : presence ids 2 = 1 := if_pos flag
    have read : (SyncNode.wrapper ids node).receive =
        Reader.flagged (fun d => ([(d.take node.length).1],(d.take node.length).2)) := by
      funext d
      simp only [SyncNode.receive,shouldReadFlag d applies flag,Reader.flagged,decide_eq_true_eq]
    have could := fun b => couldWriteDelta lastFrameIndex ids node b
    have write := fun b => @shouldWriteFlag ids (deltaState lastFrameIndex b) (decide (node.Newer lastFrameIndex)) applies flag
    by_cases newer : node.Newer lastFrameIndex
    · simp only [SyncNode.changed,SyncNode.width,SyncNode.reach,applies,newer,and_self,if_true,one,read]
      refine ⟨_,fun b => ?_,.present (.body node.data newer.1),Walk.flaggedStops _⟩
      simp only [SyncNode.unparse,NodeWrapper.unparse]
      rw [could,write]
      simp only [newer,decide_true]
      rfl
    · simp only [SyncNode.changed,SyncNode.width,SyncNode.reach,applies,newer,and_false,if_true,if_false,one,read]
      refine ⟨_,fun b => ?_,.absent (fun d => ⟨Nat.le_add_right _ _,rfl⟩),Walk.flaggedStops _⟩
      simp only [SyncNode.unparse,NodeWrapper.unparse]
      rw [could,write]
      simp only [newer,decide_false]
      rfl
  · simp only [SyncNode.changed,SyncNode.width,SyncNode.reach,applies,false_and,if_false]
    refine .skip lastFrameIndex (fun b => ?_) ?_
    · simp only [SyncNode.unparse,NodeWrapper.unparse]
      rw [shouldWriteSkips _ applies]
      rfl
    · funext d
      simp only [SyncNode.receive,shouldReadSkips d applies]
      rfl

theorem parentDelta {lastFrameIndex : Nat} (ids : NodeIds) {children : List (SyncNode N)}
    (inner : Delta lastFrameIndex (unparseChildren children) (receiveChildren children) (changedChildren lastFrameIndex children)
      (widthChildren lastFrameIndex children) (reachChildren lastFrameIndex children)) :
    Delta lastFrameIndex (SyncNode.parent ids children).unparse (SyncNode.parent ids children).receive
      ((SyncNode.parent ids children).changed lastFrameIndex) ((SyncNode.parent ids children).width lastFrameIndex)
      ((SyncNode.parent ids children).reach lastFrameIndex) := by
  obtain ⟨write,same,walk,stops⟩ := inner
  by_cases applies : ids.Applies 2 1
  · simp only [SyncNode.changed,SyncNode.width,SyncNode.reach,applies,if_true]
    by_cases flag : ids.id2 &&& 2 ≠ 0
    · have read : (SyncNode.parent ids children).receive = Reader.flagged (receiveChildren children) := by
        funext d
        simp only [SyncNode.receive,shouldReadFlag d applies flag,Reader.flagged,decide_eq_true_eq]
      rw [read,show presence ids 2 = 1 from if_pos flag]
      refine ⟨_,fun b => ?_,walk.present,Walk.flaggedStops _⟩
      simp only [SyncNode.unparse]
      rw [@shouldWriteFlag ids (deltaState lastFrameIndex b) true applies flag]
      exact same _
    · have read : (SyncNode.parent ids children).receive = receiveChildren children := by
        funext d
        simp only [SyncNode.receive,shouldReadPlain d applies flag,if_true]
      rw [read,show presence ids 2 = 0 from if_neg flag,Nat.zero_add,Nat.zero_add]
      refine ⟨write,fun b => ?_,walk,stops⟩
      simp only [SyncNode.unparse]
      rw [@shouldWritePlain ids (deltaState lastFrameIndex b) true applies flag]
      exact same b
  · simp only [SyncNode.changed,SyncNode.width,SyncNode.reach,applies,if_false]
    refine .skip lastFrameIndex (fun b => ?_) ?_
    · simp only [SyncNode.unparse]
      rw [shouldWriteSkips _ applies]
      rfl
    · funext d
      simp only [SyncNode.receive,shouldReadSkips d applies]
      rfl

theorem eitherSent (sent others : List (List Bool)) : (decide (sent ≠ []) || decide (others ≠ [])) = decide (sent ++ others ≠ []) := by
  cases sent <;> simp

mutual
theorem SyncNode.delta (lastFrameIndex : Nat) : ∀ t : SyncNode N, t.Flagged →
    Delta lastFrameIndex t.unparse t.receive (t.changed lastFrameIndex) (t.width lastFrameIndex) (t.reach lastFrameIndex)
  | .parent ids children,flagged => parentDelta ids (childrenDelta lastFrameIndex children flagged)
  | .wrapper ids node,flagged => wrapperDelta lastFrameIndex ids node flagged

theorem childrenDelta (lastFrameIndex : Nat) : ∀ children : List (SyncNode N), FlaggedChildren children →
    Delta lastFrameIndex (unparseChildren children) (receiveChildren children) (changedChildren lastFrameIndex children)
      (widthChildren lastFrameIndex children) (reachChildren lastFrameIndex children)
  | [],_ => .skip lastFrameIndex (fun _ => rfl) rfl
  | child :: rest,flagged => by
    obtain ⟨write,same,walk,stops⟩ := SyncNode.delta lastFrameIndex child flagged.1
    obtain ⟨later,same',walk',stops'⟩ := childrenDelta lastFrameIndex rest flagged.2
    refine ⟨_,fun b => ?_,walk.append walk' stops',Walk.appendStops stops stops'⟩
    simp only [unparseChildren,same,same',eitherSent]
    rfl
end

structure Delivered (isRDR : Bool) (root : SyncNode N) (lastFrameIndex : Nat) (buffer : MessageBuffer) : Prop where
  bodies : (receiveTree isRDR root ((unparseTree isRDR root (deltaState lastFrameIndex buffer)).2.buffer.setCurrentBit buffer.curBit)).1 =
    root.changed lastFrameIndex
  cursor : (receiveTree isRDR root ((unparseTree isRDR root (deltaState lastFrameIndex buffer)).2.buffer.setCurrentBit buffer.curBit)).2.curBit =
    (unparseTree isRDR root (deltaState lastFrameIndex buffer)).2.buffer.curBit
  wrote : (unparseTree isRDR root (deltaState lastFrameIndex buffer)).1 = true ↔ root.changed lastFrameIndex ≠ []

def header (isRDR : Bool) : Nat := if isRDR then 2 else 1

theorem treeDelta (isRDR : Bool) {root : SyncNode N} {lastFrameIndex : Nat} (flagged : root.Flagged) :
    Delta lastFrameIndex (unparseTree isRDR root) (receiveTree isRDR root) (root.changed lastFrameIndex)
      (header isRDR + root.width lastFrameIndex) (header isRDR + root.reach lastFrameIndex) := by
  obtain ⟨write,same,walk,stops⟩ := root.delta lastFrameIndex flagged
  cases isRDR with
  | false => exact ⟨_,fun b => same _,walk.mark true,Walk.markStops stops⟩
  | true =>
    have both := (walk.mark false).mark true
    rw [← Nat.add_assoc,← Nat.add_assoc] at both
    exact ⟨_,fun b => same _,both,Walk.markStops (Walk.markStops stops)⟩

section
variable {isRDR : Bool} {root : SyncNode N} {lastFrameIndex : Nat} {buffer : MessageBuffer}

theorem deliveredRoom (flagged : root.Flagged) (sized : buffer.Sized) (delivered : Delivered isRDR root lastFrameIndex buffer)
    (changed : root.changed lastFrameIndex ≠ []) :
    buffer.curBit + (header isRDR + root.reach lastFrameIndex) ≤ 8 * buffer.data.length := by
  obtain ⟨write,same,walk,stops⟩ := @treeDelta N isRDR root lastFrameIndex flagged
  have after := walk.after buffer sized
  have copies : ((write buffer).setCurrentBit buffer.curBit).Copies (write buffer) := ⟨rfl,fun _ _ => rfl⟩
  have bodies := delivered.bodies
  have cursor := delivered.cursor
  rw [same buffer] at bodies cursor
  simp only [deltaState] at bodies cursor
  by_contra finished
  by_cases inside : buffer.curBit ≤ buffer.full
  · have bounded := after.bounded
    have broken := walk.short buffer _ sized inside changed (by unfold MessageBuffer.full; omega) copies rfl
    rw [bodies,cursor] at broken
    omega
  · have ended := stops ((write buffer).setCurrentBit buffer.curBit) (by
      have same := after.full
      simp only [MessageBuffer.full,MessageBuffer.setCurrentBit] at same inside ⊢
      omega)
    rw [ended] at bodies
    exact changed bodies.symm

theorem roomDelivered (flagged : root.Flagged) (sized : buffer.Sized)
    (room : root.changed lastFrameIndex ≠ [] → buffer.curBit + (header isRDR + root.reach lastFrameIndex) ≤ 8 * buffer.data.length) :
    Delivered isRDR root lastFrameIndex buffer := by
  obtain ⟨write,same,walk,stops⟩ := @treeDelta N isRDR root lastFrameIndex flagged
  have after := walk.after buffer sized
  have copies : ((write buffer).setCurrentBit buffer.curBit).Copies (write buffer) := ⟨rfl,fun _ _ => rfl⟩
  have got : receiveTree isRDR root ((write buffer).setCurrentBit buffer.curBit) =
      (root.changed lastFrameIndex,(write buffer).setCurrentBit (write buffer).curBit) := by
    by_cases inside : buffer.curBit ≤ buffer.full
    · exact (walk.fits buffer _ sized inside room copies rfl).2
    · have unchanged : root.changed lastFrameIndex = [] := by
        by_contra changed
        have := room changed
        unfold MessageBuffer.full at inside
        omega
      have bounded := after.bounded
      have forward := after.cursor
      rw [unchanged,stops _ (by
        have same := after.full
        simp only [MessageBuffer.full,MessageBuffer.setCurrentBit] at same inside ⊢
        omega),show (write buffer).curBit = buffer.curBit by omega]
  have written := same buffer
  refine ⟨?_,?_,?_⟩
  · rw [written]
    exact congrArg Prod.fst got
  · rw [written]
    exact congrArg (fun received => received.2.curBit) got
  · rw [written]
    exact decide_eq_true_iff

end

theorem deltaDelivered (isRDR : Bool) (root : SyncNode N) (lastFrameIndex : Nat) (buffer : MessageBuffer) (flagged : root.Flagged)
    (sized : buffer.Sized) : Delivered isRDR root lastFrameIndex buffer ↔
      (root.changed lastFrameIndex ≠ [] → buffer.curBit + (header isRDR + root.reach lastFrameIndex) ≤ 8 * buffer.data.length) :=
  ⟨deliveredRoom flagged sized,roomDelivered flagged sized⟩

def filledNode (bytes : Nat) : SyncNode Unit :=
  .wrapper ⟨127,127,0,true⟩ { length := 8 * bytes, node := (), data := List.replicate bytes 0xA5, timestamp := 0, frameIndex := 1 }

def savedNode (bytes frameIndex : Nat) (fill : BitField.Byte) : SyncNode Unit :=
  .wrapper ⟨127,127,0,true⟩ { length := 8 * bytes, node := (), data := List.replicate bytes fill, timestamp := 0, frameIndex }

/-- A nested parent, one of another sync type and one of other objects, with nodes that are newer than frame 3, as old or empty. -/
def nestedTree : SyncNode Unit :=
  .parent ⟨127,0,0,true⟩ [savedNode 1 5 0xA5,.parent ⟨127,127,1,true⟩ [savedNode 2 3 0x3C,savedNode 2 7 0x5A],
    .parent ⟨1,0,0,true⟩ [savedNode 1 9 0xFF],.parent ⟨127,0,2,true⟩ [savedNode 1 9 0xFF],savedNode 0 9 0,savedNode 1 4 0x81]

theorem nestedTreeDelivered : Delivered true nestedTree 3 (.ofSize 8) :=
  (deltaDelivered true nestedTree 3 (.ofSize 8) ⟨fun _ => by decide,⟨fun _ => by decide,fun _ => by decide,trivial⟩,
    ⟨fun _ => by decide,trivial⟩,⟨fun _ => by decide,trivial⟩,fun _ => by decide,fun _ => by decide,trivial⟩ rfl).mpr
    (fun _ => by decide +kernel)

theorem largeTreeCut : ¬Delivered false (.parent ⟨127,0,0,true⟩ [filledNode 1000,filledNode 1000,filledNode 1000]) 0 (.ofSize 2400) := by
  intro delivered
  have flag : (filledNode 1000).Flagged := fun _ => by decide
  have changed : (filledNode 1000).changed 0 ≠ [] := List.cons_ne_nil _ _
  have room := deliveredRoom (show SyncNode.Flagged (.parent _ [filledNode 1000,filledNode 1000,filledNode 1000]) from ⟨flag,flag,flag,trivial⟩)
    (sizedOfSize (by decide)) delivered (List.append_ne_nil_of_left_ne_nil changed _)
  have used : (⟨127,0,0,true⟩ : NodeIds).Applies 2 1 := by decide
  have bytes : (MessageBuffer.ofSize 2400).data.length = 2400 := List.length_replicate
  have reach : (filledNode 1000).reach 0 = 8001 := rfl
  have width : (filledNode 1000).width 0 = 8001 := rfl
  simp only [SyncNode.reach,reachChildren,changedChildren,List.append_nil,changed,List.append_eq_nil_iff,and_self,if_false,if_true,
    reach,width,used,bytes] at room
  omega

def Blank (b : MessageBuffer) : Prop := ∀ p, bitAt b.data p = false

section
variable {b : MessageBuffer} (blank : Blank b)
include blank

theorem Blank.readBit : b.readBit.1 = 0 ∧ Blank b.readBit.2 := by
  unfold MessageBuffer.readBit
  split
  · exact ⟨rfl,blank⟩
  · rw [blank]
    exact ⟨rfl,blank⟩

theorem Blank.shouldRead (syncType objType : Nat) (ids : NodeIds) : Blank (shouldRead syncType objType ids b).2 := by
  intro p
  rw [(shouldReadKeeps syncType objType ids b).1]
  exact blank p

theorem Blank.absent {syncType : Nat} (objType : Nat) {ids : NodeIds}
    (flagged : ids.id1 &&& syncType ≠ 0 → ids.id2 &&& syncType ≠ 0) : (Sync.shouldRead syncType objType ids b).1 = false := by
  by_cases applies : ids.Applies syncType objType
  · rw [shouldReadFlag b applies (flagged applies.1),blank.readBit.1]
    rfl
  · rw [shouldReadSkips b applies]

end

section
variable (lengthHack : Bool) (inner : N → Option (InnerParse N)) (objType : Nat)

mutual
theorem SyncNode.parseBlank : ∀ (t : SyncNode N) (state : SyncParseState), t.Flagged → Blank state.buffer →
    (t.parse lengthHack inner 2 objType state).1 = t ∧ Blank (t.parse lengthHack inner 2 objType state).2.buffer
  | .parent ids children,state,flagged,blank => by
    have next := blank.shouldRead 2 objType ids
    simp only [SyncNode.parse]
    split
    · obtain ⟨same,still⟩ := parseChildrenBlank children { state with buffer := (shouldRead 2 objType ids state.buffer).2 } flagged next
      exact ⟨by rw [same],still⟩
    · exact ⟨rfl,next⟩
  | .wrapper ids node,state,flagged,blank => by
    have absent := blank.absent objType flagged
    simp only [SyncNode.parse,NodeWrapper.parse]
    rw [if_neg (by rw [absent]; decide)]
    exact ⟨rfl,blank.shouldRead 2 objType ids⟩

theorem parseChildrenBlank : ∀ (children : List (SyncNode N)) (state : SyncParseState), FlaggedChildren children → Blank state.buffer →
    (parseChildren lengthHack inner 2 objType children state).1 = children ∧
      Blank (parseChildren lengthHack inner 2 objType children state).2.buffer
  | [],_,_,blank => ⟨rfl,blank⟩
  | child :: rest,state,flagged,blank => by
    obtain ⟨same,still⟩ := SyncNode.parseBlank child state flagged.1 blank
    obtain ⟨sameRest,stillRest⟩ := parseChildrenBlank rest (child.parse lengthHack inner 2 objType state).2 flagged.2 still
    simp only [parseChildren]
    exact ⟨by rw [same,sameRest],stillRest⟩
end
end

theorem parseSyncBlank (lengthHack isRDR : Bool) (inner : N → Option (InnerParse N)) {root : SyncNode N} {state : SyncParseState}
    (flagged : root.Flagged) (blank : Blank state.buffer) : (ParseSync lengthHack isRDR inner root state).1 = root := by
  have first := blank.readBit.2
  have second : Blank (if isRDR then state.buffer.readBit.2.readBit.2 else state.buffer.readBit.2) := by
    split
    · exact first.readBit.2
    · exact first
  exact (SyncNode.parseBlank lengthHack inner _ root { state with buffer := _ } flagged second).1

end
end Citizen.Sync
