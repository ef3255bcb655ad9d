import Citizen.Clone.CloneUpdates
import Citizen.Lib.Run

/-! When an acknowledged frame number stands for records that were received. The server
acknowledges the number of the last marker it parsed, so every create, sync and remove
of a frame has to go to the packet that carries the frame's marker. -/
namespace Citizen.Clone

section
variable (build : Build)

def unsplit (hit : Bool) (curBit : Nat) : List CloneRecord → Bool
  | [] => true
  | r :: rest =>
      let marker := if r.ackKey.isSome && !hit then 35 + 35 else 0
      let curBit := curBit + marker + r.bits build
      let hit := hit || r.ackKey.isSome
      if flushes curBit then
        if hit then rest.all (fun r => r.ackKey.isNone) else unsplit hit 0 rest
      else unsplit hit curBit rest

def OnePacket (l : CloneLink) : LinkOp → Prop
  | .update input =>
      input.objectMgr = true → unsplit build false l.client.curBit (collectUpdates input l.client).2 = true
  | _ => True

end

def Carried (l : CloneLink) (key : AckKey) (n : Nat) : Prop :=
  n ∈ l.received ∧ ∃ records, l.client.sent[n]? = some records ∧ ∃ r ∈ records, r.ackKey = some key

structure AcksReceived (l : CloneLink) : Prop where
  framed : ∀ ack ∈ l.framed, Carried l ack.key ack.packet
  explicit : ∀ key ∈ l.explicit, ∃ n, Carried l key n

def CloneSender.content (m : CloneSender) (n : Nat) : List CloneRecord :=
  if n = m.sent.length then m.sendBuffer else m.sent[n]?.getD []

structure Quiet (m m' : CloneSender) : Prop where
  sendBuffer : m'.sendBuffer = m.sendBuffer
  curBit : m'.curBit = m.curBit
  sent : m'.sent = m.sent
  frame : m'.serverSendFrame = m.serverSendFrame
  acks : m'.serverAcks = m.serverAcks

structure Marked (packetOf : Nat → Nat) (m : CloneSender) : Prop where
  recent : ∀ e ∈ m.serverAcks, e.1 ≤ m.serverSendFrame ∧ m.serverSendFrame ≤ e.1 + 5001
  pending : ∀ e ∈ m.serverAcks, e.2.packet = packetOf e.1 ∧ e.2.packet ≤ m.sent.length ∧
    ∃ r ∈ m.content e.2.packet, r.ackKey = some e.2.key
  marker : ∀ n idx, .frameIndex idx ∈ m.content n →
    ∃ k ≤ m.serverSendFrame, packetOf k = n ∧ idx = BitVec.ofNat 32 k

structure Grows (packetOf packetOf' : Nat → Nat) (m m' : CloneSender) : Prop where
  sent : m.sent <+: m'.sent
  frame : m.serverSendFrame ≤ m'.serverSendFrame
  same : ∀ k ≤ m.serverSendFrame, packetOf' k = packetOf k

section
variable {build : Build} {m m' m'' : CloneSender} {packetOf packetOf' packetOf'' : Nat → Nat}

theorem Quiet.refl (m : CloneSender) : Quiet m m := ⟨rfl,rfl,rfl,rfl,rfl⟩

theorem Quiet.trans (first : Quiet m m') (second : Quiet m' m'') : Quiet m m'' :=
  ⟨second.sendBuffer.trans first.sendBuffer,second.curBit.trans first.curBit,
    second.sent.trans first.sent,second.frame.trans first.frame,second.acks.trans first.acks⟩

theorem Grows.refl (packetOf : Nat → Nat) (m : CloneSender) : Grows packetOf packetOf m m :=
  ⟨List.prefix_rfl,Nat.le_refl _,fun _ _ => rfl⟩

theorem Grows.trans (first : Grows packetOf packetOf' m m') (second : Grows packetOf' packetOf'' m' m'') :
    Grows packetOf packetOf'' m m'' :=
  ⟨first.sent.trans second.sent,Nat.le_trans first.frame second.frame,fun k old =>
    (second.same k (Nat.le_trans old first.frame)).trans (first.same k old)⟩

theorem Quiet.grows (quiet : Quiet m m') (packetOf : Nat → Nat) : Grows packetOf packetOf m m' :=
  ⟨quiet.sent ▸ List.prefix_rfl,Nat.le_of_eq quiet.frame.symm,fun _ _ => rfl⟩

theorem Marked.quiet (marked : Marked packetOf m) (quiet : Quiet m m') : Marked packetOf m' := by
  have content : ∀ n, m'.content n = m.content n := by
    intro n
    unfold CloneSender.content
    rw [quiet.sent,quiet.sendBuffer]
  refine ⟨?_,?_,?_⟩
  · rw [quiet.acks,quiet.frame]
    exact marked.recent
  · simp only [quiet.acks,quiet.sent,content]
    exact marked.pending
  · simp only [quiet.frame,content]
    exact marked.marker

theorem Marked.forget (marked : Marked packetOf m) (p : Nat × PendingAck → Bool) :
    Marked packetOf { m with serverAcks := m.serverAcks.filter p } :=
  ⟨fun e mem => marked.recent e (List.mem_of_mem_filter mem),
    fun e mem => marked.pending e (List.mem_of_mem_filter mem),marked.marker⟩

/-! What leaves the sending state alone. -/

theorem quietTrack (o : NetObject) (tracked : ObjectData) : Quiet m (m.track o tracked) :=
  ⟨rfl,rfl,rfl,rfl,rfl⟩

theorem quietDestroy (msec objectId rand : Nat) (parrotDeletion : Bool) :
    Quiet m (m.destroyNetworkObject msec objectId rand parrotDeletion) := ⟨rfl,rfl,rfl,rfl,rfl⟩

section
variable (input : UpdateInput)

theorem quietSyncObject (o : NetObject) : Quiet m (syncObject input m o).1 := by
  unfold syncObject
  dsimp only
  split
  · split <;> exact quietTrack o _
  · exact .refl m

theorem quietObjectCb (o : NetObject) : Quiet m (objectCb input m o).1 := by
  unfold objectCb
  dsimp only
  generalize (if o.nextOwnerId ≠ 0xFF then [CloneRecord.takeover o.pendingClientId o.objectId] else []) = given
  split
  · split
    · exact quietTrack o _
    · exact .refl m
  · split
    · exact .refl m
    · split
      · exact .refl m
      · split
        · split
          · exact (quietTrack o _).trans (quietDestroy _ _ _ _)
          · exact quietTrack o _
        · split
          · exact quietTrack o _
          · exact (quietTrack o _).trans (quietSyncObject input o)

theorem quietCollectObjects (objects : List NetObject) : Quiet m (collectObjects input m objects).1 := by
  induction objects generalizing m with
  | nil => exact .refl m
  | cons o rest ih => exact (quietObjectCb input o).trans ih

theorem quietCollectUpdates : Quiet m (collectUpdates input m).1 := by
  have objects : Quiet m (collectObjects input m input.objects).1 := quietCollectObjects input input.objects
  exact ⟨objects.sendBuffer,objects.curBit,objects.sent,objects.frame,objects.acks⟩

end

theorem quietProcessAck (msec : Nat) (key : AckKey) : Quiet m (m.processAck msec key) := by
  unfold CloneSender.processAck
  split <;> exact ⟨rfl,rfl,rfl,rfl,rfl⟩

theorem quietAckRecords (msec : Nat) (records : List AckRecord) :
    Quiet m (records.foldl (CloneSender.handleAckRecord msec) m) := by
  induction records generalizing m with
  | nil => exact .refl m
  | cons r rest ih =>
    have first : Quiet m (m.handleAckRecord msec r) := by
      cases r with
      | ack key => exact quietProcessAck msec key
      | timestamp ts => exact ⟨rfl,rfl,rfl,rfl,rfl⟩
    exact first.trans ih

theorem quietPendingAcks (msec : Nat) (acks : List PendingAck) :
    Quiet m (acks.foldl (fun m ack => (m.processTimestampAck ack.ts).processAck msec ack.key) m) := by
  induction acks generalizing m with
  | nil => exact .refl m
  | cons ack rest ih =>
    have timed : Quiet m (m.processTimestampAck ack.ts) := ⟨rfl,rfl,rfl,rfl,rfl⟩
    exact (timed.trans (quietProcessAck msec ack.key)).trans ih

theorem Marked.handleAcks (marked : Marked packetOf m) (msec : Nat) (packet : AckPacket) :
    Marked packetOf (m.handleCloneAcks msec packet) := by
  unfold CloneSender.handleCloneAcks
  split
  · exact (marked.quiet (quietPendingAcks msec _)).forget _
  · exact marked.quiet (quietAckRecords msec _)

theorem handleAcksSent (msec : Nat) (packet : AckPacket) : (m.handleCloneAcks msec packet).sent = m.sent ∧
      (m.handleCloneAcks msec packet).serverSendFrame = m.serverSendFrame := by
  unfold CloneSender.handleCloneAcks
  split
  · exact ⟨(quietPendingAcks msec _).sent,(quietPendingAcks msec _).frame⟩
  · exact ⟨(quietAckRecords msec _).sent,(quietAckRecords msec _).frame⟩

/-! Writing and flushing. -/

theorem contentWrite (r : CloneRecord) (n : Nat) :
    (m.write build r).content n = if n = m.sent.length then m.content n ++ [r] else m.content n := by
  unfold CloneSender.content CloneSender.write
  dsimp only
  split <;> rfl

theorem growsWrite (build : Build) (r : CloneRecord) (packetOf : Nat → Nat) (m : CloneSender) :
    Grows packetOf packetOf m (m.write build r) :=
  ⟨List.prefix_rfl,Nat.le_refl _,fun _ _ => rfl⟩

theorem contentGrows {r r' : CloneRecord} {n : Nat} (mem : r' ∈ m.content n) : r' ∈ (m.write build r).content n := by
  rw [contentWrite]
  split
  · exact List.mem_append_left _ mem
  · exact mem

theorem Marked.write (marked : Marked packetOf m) (build : Build) {r : CloneRecord} (plain : ∀ idx, r ≠ .frameIndex idx) :
    Marked packetOf (m.write build r) := by
  refine ⟨marked.recent,?_,?_⟩
  · intro e mem
    obtain ⟨packet,bound,r',inside,key⟩ := marked.pending e mem
    exact ⟨packet,bound,r',contentGrows inside,key⟩
  · intro n idx mem
    rw [contentWrite] at mem
    split at mem
    · rcases List.mem_append.mp mem with old | new
      · exact marked.marker n idx old
      · exact absurd (List.mem_singleton.mp new).symm (plain idx)
    · exact marked.marker n idx mem

theorem contentSend {n : Nat} (bound : n ≤ m.sent.length) : m.sendUpdates.content n = m.content n := by
  unfold CloneSender.sendUpdates
  split
  · unfold CloneSender.content
    simp only [List.length_append,List.length_singleton]
    rw [if_neg (by omega)]
    split
    · rename_i last
      rw [last,List.getElem?_append_right (Nat.le_refl _),Nat.sub_self]
      rfl
    · rw [List.getElem?_append_left (by omega)]
  · rfl

theorem contentBeyond {n : Nat} (beyond : m.sent.length < n) : m.sendUpdates.content n = [] := by
  unfold CloneSender.sendUpdates
  split
  · unfold CloneSender.content
    simp only [List.length_append,List.length_singleton]
    split
    · rfl
    · rw [List.getElem?_eq_none (by simp; omega)]
      rfl
  · unfold CloneSender.content
    rw [if_neg (by omega),List.getElem?_eq_none (by omega)]
    rfl

theorem sendFields (m : CloneSender) : m.sent <+: m.sendUpdates.sent ∧
    m.sendUpdates.serverSendFrame = m.serverSendFrame ∧ m.sendUpdates.serverAcks = m.serverAcks := by
  unfold CloneSender.sendUpdates
  split
  · exact ⟨List.prefix_append _ _,rfl,rfl⟩
  · exact ⟨List.prefix_rfl,rfl,rfl⟩

theorem Marked.send (marked : Marked packetOf m) : Marked packetOf m.sendUpdates := by
  obtain ⟨sent,frame,acks⟩ := sendFields m
  refine ⟨?_,?_,?_⟩
  · rw [acks,frame]
    exact marked.recent
  · rw [acks]
    intro e mem
    obtain ⟨packet,bound,inside⟩ := marked.pending e mem
    rw [contentSend bound]
    exact ⟨packet,Nat.le_trans bound sent.length_le,inside⟩
  · intro n idx mem
    rw [frame]
    rcases Nat.lt_or_ge m.sent.length n with beyond | bound
    · rw [contentBeyond beyond] at mem
      exact absurd mem List.not_mem_nil
    · exact marked.marker n idx (contentSend bound ▸ mem)

theorem growsSend (packetOf : Nat → Nat) (m : CloneSender) : Grows packetOf packetOf m m.sendUpdates := by
  obtain ⟨sent,frame,-⟩ := sendFields m
  exact ⟨sent,Nat.le_of_eq frame.symm,fun _ _ => rfl⟩

theorem Marked.flush (marked : Marked packetOf m) : Marked packetOf m.attemptFlushCloneBuffer := by
  unfold CloneSender.attemptFlushCloneBuffer
  split
  · exact marked.send
  · exact marked

theorem growsFlush (packetOf : Nat → Nat) (m : CloneSender) :
    Grows packetOf packetOf m m.attemptFlushCloneBuffer := by
  unfold CloneSender.attemptFlushCloneBuffer
  split
  · exact growsSend packetOf m
  · exact .refl packetOf m

theorem flushStays (short : flushes m.curBit = false) : m.attemptFlushCloneBuffer = m := by
  unfold CloneSender.attemptFlushCloneBuffer
  rw [short]
  rfl

theorem flushEmpties (long : flushes m.curBit = true) : m.attemptFlushCloneBuffer.curBit = 0 := by
  have filled : 0 < dataLength m.curBit := by
    by_contra empty
    have zero : dataLength m.curBit = 0 := by omega
    unfold flushes at long
    rw [zero] at long
    contradiction
  unfold CloneSender.attemptFlushCloneBuffer CloneSender.sendUpdates
  rw [if_pos long,if_pos filled]

theorem contentTouch (ts : BitVec 32) (n : Nat) :
    (m.touchTimestamp build ts).content n =
      if n = m.sent.length then
        m.content n ++ [.timestamp ts,.frameIndex (BitVec.ofNat 32 (m.serverSendFrame + 1))]
      else m.content n := by
  unfold CloneSender.content CloneSender.touchTimestamp CloneSender.write
  dsimp only
  split
  · rw [List.append_assoc]
    rfl
  · rfl

theorem Marked.touch (marked : Marked packetOf m) (ts : BitVec 32) :
    Marked (Function.update packetOf (m.serverSendFrame + 1) m.sent.length) (m.touchTimestamp build ts) := by
  have kept : ∀ e ∈ (m.touchTimestamp build ts).serverAcks, e ∈ m.serverAcks ∧
      m.serverSendFrame ≤ e.1 + 5000 := by
    intro e mem
    change e ∈ (if 5000 < m.serverSendFrame then _ else _) at mem
    split at mem
    · rw [List.mem_filter,decide_eq_true_eq] at mem
      exact ⟨mem.1,by omega⟩
    · exact ⟨mem,by omega⟩
  refine ⟨?_,?_,?_⟩
  · intro e mem
    obtain ⟨old,young⟩ := kept e mem
    have bound := (marked.recent e old).1
    change e.1 ≤ m.serverSendFrame + 1 ∧ m.serverSendFrame + 1 ≤ e.1 + 5001
    omega
  · intro e mem
    obtain ⟨old,-⟩ := kept e mem
    have bound := (marked.recent e old).1
    obtain ⟨packet,sent,r,inside,key⟩ := marked.pending e old
    rw [Function.update_of_ne (by omega)]
    refine ⟨packet,sent,r,?_,key⟩
    rw [contentTouch]
    split
    · exact List.mem_append_left _ inside
    · exact inside
  · intro n idx mem
    have earlier : CloneRecord.frameIndex idx ∈ m.content n → ∃ k ≤ m.serverSendFrame + 1,
        Function.update packetOf (m.serverSendFrame + 1) m.sent.length k = n ∧ idx = BitVec.ofNat 32 k := by
      intro inside
      obtain ⟨k,bound,same,value⟩ := marked.marker n idx inside
      exact ⟨k,by omega,by rw [Function.update_of_ne (by omega)]; exact same,value⟩
    rw [contentTouch] at mem
    split at mem
    · rename_i here
      rcases List.mem_append.mp mem with old | new
      · exact earlier old
      · simp only [List.mem_cons,reduceCtorEq,false_or,List.not_mem_nil,or_false,
          CloneRecord.frameIndex.injEq] at new
        exact ⟨m.serverSendFrame + 1,Nat.le_refl _,by rw [Function.update_self]; exact here.symm,new⟩
    · exact earlier mem

theorem Marked.emplace (marked : Marked packetOf m) (here : packetOf m.serverSendFrame = m.sent.length)
    (ts : BitVec 32) {r : CloneRecord} {key : AckKey} (named : r.ackKey = some key) :
    Marked packetOf (CloneSender.write build
      { m with serverAcks := m.serverAcks ++ [(m.serverSendFrame,⟨key,ts,m.sent.length⟩)] } r) := by
  have plain : ∀ idx, r ≠ .frameIndex idx := by
    rintro idx rfl
    contradiction
  have written := marked.write build plain
  refine ⟨?_,?_,written.marker⟩
  · intro e mem
    rcases List.mem_append.mp mem with old | new
    · exact marked.recent e old
    · cases List.mem_singleton.mp new
      exact ⟨Nat.le_refl _,Nat.le_add_right _ _⟩
  · intro e mem
    rcases List.mem_append.mp mem with old | new
    · exact written.pending e old
    · cases List.mem_singleton.mp new
      refine ⟨here.symm,Nat.le_refl _,r,?_,named⟩
      unfold CloneSender.content CloneSender.write
      simp

theorem growsTouch (build : Build) (m : CloneSender) (packetOf : Nat → Nat) (ts : BitVec 32) : Grows packetOf
    (Function.update packetOf (m.serverSendFrame + 1) m.sent.length) m (m.touchTimestamp build ts) :=
  ⟨List.prefix_rfl,Nat.le_succ _,fun k old => Function.update_of_ne (by omega) _ _⟩

/-! The records of one update. -/

theorem writePlain (build : Build) (ts : BitVec 32) (hit : Bool) {records : List CloneRecord}
    (unnamed : ∀ r ∈ records, r.ackKey = none) (plain : ∀ r ∈ records, ∀ idx, r ≠ .frameIndex idx)
    (marked : Marked packetOf m) : Marked packetOf (records.foldl (writeRecord build ts) (m,hit)).1 ∧
      Grows packetOf packetOf m (records.foldl (writeRecord build ts) (m,hit)).1 := by
  induction records generalizing m with
  | nil => exact ⟨marked,.refl packetOf m⟩
  | cons r rest ih =>
    have named := unnamed r List.mem_cons_self
    have step : writeRecord build ts (m,hit) r = ((m.write build r).attemptFlushCloneBuffer,hit) := by
      unfold writeRecord
      rw [named]
    rw [List.foldl_cons,step]
    obtain ⟨last,grows⟩ := ih (fun r mem => unnamed r (List.mem_cons_of_mem _ mem))
      (fun r mem => plain r (List.mem_cons_of_mem _ mem))
      (marked.write build (plain r List.mem_cons_self)).flush
    exact ⟨last,((growsWrite build r packetOf m).trans (growsFlush packetOf _)).trans grows⟩

theorem namedRecord (build : Build) (ts : BitVec 32) {r : CloneRecord} {key : AckKey} {hit : Bool}
    (named : r.ackKey = some key) (marked : Marked packetOf m)
    (here : hit = true → packetOf m.serverSendFrame = m.sent.length) :
    ∃ packetOf' written, writeRecord build ts (m,hit) r = (written.attemptFlushCloneBuffer,true) ∧
      written.curBit = m.curBit + (if hit then 0 else 35 + 35) + r.bits build ∧
      packetOf' written.serverSendFrame = written.sent.length ∧
      Marked packetOf' written ∧ Grows packetOf packetOf' m written := by
  unfold writeRecord
  rw [named]
  cases hit with
  | true =>
    exact ⟨packetOf,_,rfl,rfl,here rfl,marked.emplace (here rfl) ts named,
      List.prefix_rfl,Nat.le_refl _,fun _ _ => rfl⟩
  | false =>
    have touched := growsTouch build m packetOf ts
    refine ⟨_,_,rfl,?_,?_,(marked.touch ts).emplace ?_ ts named,touched.sent,touched.frame,touched.same⟩
    · rfl
    · exact Function.update_self ..
    · exact Function.update_self ..

theorem writeRecords (build : Build) (ts : BitVec 32) {records : List CloneRecord} {hit : Bool}
    (plain : ∀ r ∈ records, ∀ idx, r ≠ .frameIndex idx) (marked : Marked packetOf m)
    (here : hit = true → packetOf m.serverSendFrame = m.sent.length)
    (whole : unsplit build hit m.curBit records = true) :
    ∃ packetOf', Marked packetOf' (records.foldl (writeRecord build ts) (m,hit)).1 ∧
      Grows packetOf packetOf' m (records.foldl (writeRecord build ts) (m,hit)).1 := by
  induction records generalizing m hit packetOf with
  | nil => exact ⟨packetOf,marked,.refl packetOf m⟩
  | cons r rest ih =>
    have later : ∀ r ∈ rest, ∀ idx, r ≠ .frameIndex idx := fun r mem => plain r (List.mem_cons_of_mem _ mem)
    rw [List.foldl_cons]
    unfold unsplit at whole
    cases named : r.ackKey with
    | none =>
      simp only [named,Option.isSome_none,Bool.false_and,Bool.or_false,Bool.false_eq_true,if_false,
        Nat.add_zero] at whole
      have step : writeRecord build ts (m,hit) r = ((m.write build r).attemptFlushCloneBuffer,hit) := by
        unfold writeRecord
        rw [named]
      rw [step]
      have written := marked.write build (plain r List.mem_cons_self)
      have first := growsWrite build r packetOf m
      have bits : (m.write build r).curBit = m.curBit + r.bits build := rfl
      rw [← bits] at whole
      cases long : flushes (m.write build r).curBit with
      | false =>
        rw [long] at whole
        rw [flushStays long]
        obtain ⟨packetOf',last,grows⟩ := ih later written here whole
        exact ⟨packetOf',last,first.trans grows⟩
      | true =>
        rw [long,if_pos rfl] at whole
        have flushed := first.trans (growsFlush packetOf _)
        cases hit with
        | true =>
          rw [if_pos rfl,List.all_eq_true] at whole
          have unnamed : ∀ r ∈ rest, r.ackKey = none := fun r mem => Option.isNone_iff_eq_none.mp (whole r mem)
          obtain ⟨last,grows⟩ := writePlain build ts true unnamed later written.flush
          exact ⟨packetOf,last,flushed.trans grows⟩
        | false =>
          rw [if_neg Bool.false_ne_true,← flushEmpties long] at whole
          obtain ⟨packetOf',last,grows⟩ := ih later written.flush (fun on => absurd on Bool.false_ne_true) whole
          exact ⟨packetOf',last,flushed.trans grows⟩
    | some key =>
      obtain ⟨packetOf',written,step,bits,marker,next,first⟩ := namedRecord build ts named marked here
      rw [step]
      have marked' : (if true && !hit then 35 + 35 else 0) = if hit then 0 else 35 + 35 := by
        cases hit <;> rfl
      simp only [named,Option.isSome_some,marked',Bool.or_true,if_true] at whole
      rw [← bits] at whole
      cases long : flushes written.curBit with
      | false =>
        rw [long] at whole
        rw [flushStays long]
        obtain ⟨packetOf'',last,grows⟩ := ih later next (fun _ => marker) whole
        exact ⟨packetOf'',last,first.trans grows⟩
      | true =>
        rw [long,if_pos rfl,List.all_eq_true] at whole
        have unnamed : ∀ r ∈ rest, r.ackKey = none := fun r mem => Option.isNone_iff_eq_none.mp (whole r mem)
        obtain ⟨last,grows⟩ := writePlain build ts true unnamed later next.flush
        exact ⟨packetOf',last,(first.trans (growsFlush packetOf' written)).trans grows⟩

section
variable (input : UpdateInput)

theorem syncObjectPlain (o : NetObject) {r : CloneRecord}
    (mem : r ∈ (syncObject input m o).2) (idx : BitVec 32) : r ≠ .frameIndex idx := by
  unfold syncObject at mem
  dsimp only at mem
  split at mem
  · split at mem
    · exact absurd mem List.not_mem_nil
    · rw [List.mem_singleton.mp mem]
      nofun
  · exact absurd mem List.not_mem_nil

theorem objectCbPlain (o : NetObject) {r : CloneRecord}
    (mem : r ∈ (objectCb input m o).2) (idx : BitVec 32) : r ≠ .frameIndex idx := by
  have given : ∀ r ∈ (if o.nextOwnerId ≠ 0xFF then [CloneRecord.takeover o.pendingClientId o.objectId] else []),
      r ≠ .frameIndex idx := by
    intro r mem
    split at mem
    · rw [List.mem_singleton.mp mem]
      nofun
    · exact absurd mem List.not_mem_nil
  unfold objectCb at mem
  dsimp only at mem
  generalize (if o.nextOwnerId ≠ 0xFF then [CloneRecord.takeover o.pendingClientId o.objectId] else []) =
    taken at given mem
  split at mem
  · split at mem
    · rw [List.mem_singleton.mp mem]
      nofun
    · exact absurd mem List.not_mem_nil
  · split at mem
    · exact absurd mem List.not_mem_nil
    · split at mem
      · exact given r mem
      · split at mem
        · split at mem <;> exact given r mem
        · split at mem
          · exact given r mem
          · rcases List.mem_append.mp mem with old | new
            · exact given r old
            · exact syncObjectPlain input o new idx

theorem collectObjectsPlain (objects : List NetObject) {r : CloneRecord}
    (mem : r ∈ (collectObjects input m objects).2) (idx : BitVec 32) : r ≠ .frameIndex idx := by
  induction objects generalizing m with
  | nil => exact absurd mem List.not_mem_nil
  | cons o rest ih =>
    rcases List.mem_append.mp mem with first | later
    · exact objectCbPlain input o first idx
    · exact ih later

theorem collectUpdatesPlain {r : CloneRecord}
    (mem : r ∈ (collectUpdates input m).2) (idx : BitVec 32) : r ≠ .frameIndex idx := by
  rcases List.mem_append.mp mem with object | remove
  · exact collectObjectsPlain input input.objects object idx
  · obtain ⟨e,-,rfl⟩ := List.mem_map.mp remove
    nofun

end

theorem Marked.update (marked : Marked packetOf m) (build : Build) (input : UpdateInput)
    (whole : input.objectMgr = true → unsplit build false m.curBit (collectUpdates input m).2 = true) :
    ∃ packetOf', Marked packetOf' (m.update build input) ∧ Grows packetOf packetOf' m (m.update build input) := by
  unfold CloneSender.update CloneSender.writeUpdates
  split
  · rename_i manager
    have quiet := quietCollectUpdates (m := m) input
    have collected := whole manager
    rw [← quiet.curBit] at collected
    obtain ⟨packetOf',written,grows⟩ := writeRecords build input.ts
      (fun r mem idx => collectUpdatesPlain input mem idx) (marked.quiet quiet)
      (fun on => absurd on Bool.false_ne_true) collected
    exact ⟨packetOf',written.send,((quiet.grows packetOf).trans grows).trans (growsSend packetOf' _)⟩
  · exact ⟨packetOf,marked.send,growsSend packetOf m⟩

end

/-! The server's side: it only acknowledges what `index` and `got` allow. -/

structure Sound (index : Nat → Prop) (got : AckKey → Prop) (c : CloneReceiver) : Prop where
  current : index c.fidx
  buffer : ∀ key, .ack key ∈ c.ackBuffer → got key
  sent : ∀ packet ∈ c.sent, index packet.frameIndex ∧ ∀ key, .ack key ∈ packet.records → got key

section
variable {index index' : Nat → Prop} {got got' : AckKey → Prop} {c : CloneReceiver} {build : Build}

section
variable (sound : Sound index got c)
include sound

theorem Sound.mono (indexes : ∀ v, index v → index' v) (gots : ∀ key, got key → got' key) : Sound index' got' c :=
  ⟨indexes _ sound.current,fun key mem => gots key (sound.buffer key mem),
    fun packet mem => ⟨indexes _ (sound.sent packet mem).1,fun key inside =>
      gots key ((sound.sent packet mem).2 key inside)⟩⟩

theorem Sound.prepare : Sound index got c.prepare := by
  unfold CloneReceiver.prepare
  split
  · exact ⟨sound.current,fun key mem => absurd mem List.not_mem_nil,sound.sent⟩
  · exact sound

theorem Sound.flushBuffer : Sound index got c.flushBuffer := by
  refine ⟨sound.current,fun key mem => absurd mem List.not_mem_nil,fun packet mem => ?_⟩
  rcases List.mem_append.mp mem with old | new
  · exact sound.sent packet old
  · cases List.mem_singleton.mp new
    exact ⟨sound.current,sound.buffer⟩

theorem Sound.writeAck {r : AckRecord} (known : ∀ key, r = .ack key → got key) :
    Sound index got (c.writeAck build r) := by
  have written : Sound index got { c with ackBuffer := c.ackBuffer ++ [r], ackBit := c.ackBit + r.bits build } := by
    refine ⟨sound.current,fun key mem => ?_,sound.sent⟩
    rcases List.mem_append.mp mem with old | new
    · exact sound.buffer key old
    · exact known key (List.mem_singleton.mp new).symm
  unfold CloneReceiver.writeAck CloneReceiver.flush
  dsimp only
  split
  · exact written.prepare.flushBuffer
  · exact written.prepare

theorem Sound.parseRecord {r : CloneRecord}
    (known : ∀ key, r.ackKey = some key → got key) (marked : ∀ idx, r = .frameIndex idx → index idx.toNat) :
    Sound index got (c.parseRecord build r) := by
  cases r with
  | object syncType uniqifier objectId creationToken objectType data =>
    exact sound.writeAck (by rintro key ⟨⟩; exact known _ rfl)
  | remove objectId uniqifier => exact sound.writeAck (by rintro key ⟨⟩; exact known _ rfl)
  | takeover clientId objectId => exact sound
  | timestamp newTs =>
    have written : Sound index got (c.writeAck build (.timestamp newTs)) := sound.writeAck nofun
    change Sound index got ((c.writeAck build (.timestamp newTs)).setTimestamp newTs)
    unfold CloneReceiver.setTimestamp
    split
    · exact ⟨written.current,written.buffer,written.sent⟩
    · exact written
  | frameIndex newIndex => exact ⟨marked newIndex rfl,sound.buffer,sound.sent⟩

theorem Sound.parseClonePacket {packet : List CloneRecord}
    (known : ∀ r ∈ packet, ∀ key, r.ackKey = some key → got key)
    (marked : ∀ idx, .frameIndex idx ∈ packet → index idx.toNat) :
    Sound index got (c.parseClonePacket build packet) := by
  have folded : Sound index got (packet.foldl (CloneReceiver.parseRecord build) c) := by
    induction packet generalizing c with
    | nil => exact sound
    | cons r rest ih =>
      exact ih (sound.parseRecord (known r List.mem_cons_self) (fun idx same => marked idx (same ▸ List.mem_cons_self)))
        (fun r mem => known r (List.mem_cons_of_mem _ mem)) (fun idx mem => marked idx (List.mem_cons_of_mem _ mem))
  exact folded.prepare.flushBuffer

end
end

/-! The whole link. -/

def Received (packetOf : Nat → Nat) (l : CloneLink) (v : Nat) : Prop :=
  v = 0 ∨ ∃ k ≤ l.client.serverSendFrame, packetOf k ∈ l.received ∧ v = k % 2 ^ 32

def Got (l : CloneLink) (key : AckKey) : Prop := ∃ n, Carried l key n

structure Linked (packetOf : Nat → Nat) (l : CloneLink) : Prop where
  marked : Marked packetOf l.client
  delivered : ∀ n ∈ l.received, n < l.client.sent.length
  sound : Sound (Received packetOf l) (Got l) l.server
  acks : AcksReceived l

section
variable {packetOf packetOf' : Nat → Nat} {l : CloneLink} {build : Build}

theorem Carried.later {key : AckKey} {n : Nat} (carried : Carried l key n) {l' : CloneLink}
    (sent : l.client.sent <+: l'.client.sent) (received : ∀ n ∈ l.received, n ∈ l'.received) : Carried l' key n := by
  obtain ⟨arrived,records,found,inside⟩ := carried
  obtain ⟨bound,-⟩ := List.getElem?_eq_some_iff.mp found
  obtain ⟨rest,grown⟩ := sent
  exact ⟨received n arrived,records,by rw [← grown,List.getElem?_append_left bound]; exact found,inside⟩

section
variable (linked : Linked packetOf l)
include linked

theorem Linked.client {m : CloneSender} (marked : Marked packetOf' m)
    (grows : Grows packetOf packetOf' l.client m) : Linked packetOf' { l with client := m } := by
  have carried : ∀ {key n}, Carried l key n → Carried { l with client := m } key n :=
    fun carried => carried.later grows.sent (fun _ mem => mem)
  refine ⟨marked,fun n mem => Nat.lt_of_lt_of_le (linked.delivered n mem) grows.sent.length_le,?_,?_⟩
  · refine linked.sound.mono ?_ (fun key ⟨n,got⟩ => ⟨n,carried got⟩)
    rintro v (zero | ⟨k,bound,arrived,value⟩)
    · exact .inl zero
    · exact .inr ⟨k,Nat.le_trans bound grows.frame,by rw [grows.same k bound]; exact arrived,value⟩
  · exact ⟨fun ack mem => carried (linked.acks.framed ack mem),fun key mem => by
      obtain ⟨n,got⟩ := linked.acks.explicit key mem
      exact ⟨n,carried got⟩⟩

theorem Linked.deliverClones {packet : Nat} {records : List CloneRecord}
    (found : l.client.sent[packet]? = some records) :
    Linked packetOf { l with
      server := l.server.parseClonePacket build records
      received := packet :: l.received } := by
  obtain ⟨bound,-⟩ := List.getElem?_eq_some_iff.mp found
  have arrive : ∀ n ∈ l.received, n ∈ packet :: l.received := fun n mem => List.mem_cons_of_mem _ mem
  have content : l.client.content packet = records := by
    unfold CloneSender.content
    rw [if_neg (by omega),found]
    rfl
  have carried : ∀ {key n}, Carried l key n → Carried { l with
      server := l.server.parseClonePacket build records
      received := packet :: l.received } key n :=
    fun carried => carried.later List.prefix_rfl arrive
  refine ⟨linked.marked,?_,?_,?_⟩
  · intro n mem
    rcases List.mem_cons.mp mem with same | old
    · exact same ▸ bound
    · exact linked.delivered n old
  · refine Sound.parseClonePacket (linked.sound.mono ?_ (fun key ⟨n,got⟩ => ⟨n,carried got⟩)) ?_ ?_
    · rintro v (zero | ⟨k,old,arrived,value⟩)
      · exact .inl zero
      · exact .inr ⟨k,old,arrive _ arrived,value⟩
    · intro r mem key named
      exact ⟨packet,List.mem_cons_self,records,found,r,mem,named⟩
    · intro idx mem
      obtain ⟨k,old,same,value⟩ := linked.marked.marker packet idx (content ▸ mem)
      refine .inr ⟨k,old,?_,?_⟩
      · rw [same]
        exact List.mem_cons_self
      · rw [value,BitVec.toNat_ofNat]
  · exact ⟨fun ack mem => carried (linked.acks.framed ack mem),fun key mem => by
      obtain ⟨n,got⟩ := linked.acks.explicit key mem
      exact ⟨n,carried got⟩⟩

theorem Linked.ownFrame {e : Nat × PendingAck} (mem : e ∈ l.client.serverAcks)
    {k : Nat} (bound : k ≤ l.client.serverSendFrame) (value : e.1 = k % 2 ^ 32) : e.1 = k := by
  have recent := linked.marked.recent e mem
  omega

theorem Linked.acksOf {frameIndex : Nat} (nonzero : frameIndex ≠ 0)
    (received : Received packetOf l frameIndex) {ack : PendingAck} (mem : ack ∈ l.client.acksOf frameIndex) :
    Carried l ack.key ack.packet := by
  obtain ⟨e,inside,rfl⟩ := List.mem_map.mp mem
  obtain ⟨pending,same⟩ := List.mem_filter.mp inside
  rw [beq_iff_eq] at same
  rcases received with zero | ⟨k,bound,arrived,value⟩
  · exact absurd zero nonzero
  · have own := linked.ownFrame pending bound (same.trans value)
    obtain ⟨packet,-,r,held,named⟩ := linked.marked.pending e pending
    rw [← own,← packet] at arrived
    have short := linked.delivered _ arrived
    unfold CloneSender.content at held
    rw [if_neg (by omega),List.getElem?_eq_getElem short] at held
    exact ⟨arrived,_,List.getElem?_eq_getElem short,r,held,named⟩

theorem Linked.deliverAcks (msec : Nat) {packet : AckPacket}
    (mem : packet ∈ l.server.sent) : Linked packetOf (l.deliverAcks msec packet) := by
  obtain ⟨received,explicit⟩ := linked.sound.sent packet mem
  obtain ⟨sent,frame⟩ := handleAcksSent (m := l.client) msec packet
  have grows : Grows packetOf packetOf l.client (l.client.handleCloneAcks msec packet) :=
    ⟨sent ▸ List.prefix_rfl,Nat.le_of_eq frame.symm,fun _ _ => rfl⟩
  have moved := linked.client (linked.marked.handleAcks msec packet) grows
  have carried : ∀ {key n}, Carried l key n → Carried { l with client := l.client.handleCloneAcks msec packet } key n :=
    fun carried => carried.later grows.sent (fun _ mem => mem)
  unfold CloneLink.deliverAcks
  split
  · rename_i nonzero
    refine ⟨moved.marked,moved.delivered,moved.sound,?_,moved.acks.explicit⟩
    intro ack inside
    rcases List.mem_append.mp inside with old | new
    · exact moved.acks.framed ack old
    · exact carried (linked.acksOf nonzero received new)
  · refine ⟨moved.marked,moved.delivered,moved.sound,moved.acks.framed,?_⟩
    intro key inside
    rcases List.mem_append.mp inside with old | new
    · exact moved.acks.explicit key old
    · obtain ⟨r,record,same⟩ := List.mem_filterMap.mp new
      cases r with
      | ack key' =>
        cases same
        obtain ⟨n,got⟩ := explicit key record
        exact ⟨n,carried got⟩
      | timestamp ts => cases same

theorem linkedStep (op : LinkOp) (whole : OnePacket build l op) :
    ∃ packetOf', Linked packetOf' (l.step build op) := by
  cases op with
  | update input =>
    obtain ⟨packetOf',marked,grows⟩ := linked.marked.update build input whole
    exact ⟨packetOf',linked.client marked grows⟩
  | giveObjectToClient clientId objectId =>
    have written := linked.marked.write build (r := .takeover clientId objectId) nofun
    exact ⟨packetOf,linked.client written.flush ((growsWrite build _ packetOf _).trans (growsFlush packetOf _))⟩
  | destroyNetworkObject msec objectId rand parrotDeletion =>
    have quiet : Quiet l.client (l.client.destroyNetworkObject msec objectId rand parrotDeletion) :=
      quietDestroy msec objectId rand parrotDeletion
    exact ⟨packetOf,linked.client (linked.marked.quiet quiet) (quiet.grows packetOf)⟩
  | deliverClones packet =>
    unfold CloneLink.step
    dsimp only
    split
    · rename_i records found
      exact ⟨packetOf,linked.deliverClones found⟩
    · exact ⟨packetOf,linked⟩
  | deliverAcks msec packet =>
    unfold CloneLink.step
    dsimp only
    split
    · rename_i acks found
      exact ⟨packetOf,linked.deliverAcks msec (List.mem_of_getElem? found)⟩
    · exact ⟨packetOf,linked⟩

end

theorem linkedInit : Linked packetOf .init := by
  refine ⟨⟨nofun,nofun,?_⟩,nofun,⟨.inl rfl,nofun,nofun⟩,⟨nofun,nofun⟩⟩
  intro n idx mem
  unfold CloneSender.content at mem
  split at mem <;> exact absurd mem List.not_mem_nil

end

theorem onlyReceivedAcked (build : Build) {ops : List LinkOp}
    (whole : Along (CloneLink.step build) (OnePacket build) .init ops) :
    Throughout (CloneLink.step build) AcksReceived .init ops := by
  refine throughoutMono ?_ (throughoutOfKept (fun l => ∃ packetOf, Linked packetOf l) ?_ ⟨fun _ => 0,linkedInit⟩ whole)
  · rintro l ⟨packetOf,linked⟩
    exact linked.acks
  · rintro l op ⟨packetOf,linked⟩ one
    exact linkedStep linked op one

/-! A first update that creates two objects of 1100 bytes, whose second packet is lost. -/
def fiveBuild : Build := ⟨false,4⟩

def newObject (objectId length : Nat) : NetObject where
  objectId := objectId
  objectType := 0
  creationToken := 0
  rand := 7
  isRemote := false
  meantToBeOurs := false
  ownerId := 0
  nextOwnerId := 0xFF
  pendingClientId := 0
  tooYoung := false
  outOfScene := false
  wantsToDelete := false
  removedByGame := false
  parrotDeletion := true
  lacksGameObject := false
  syncLatency := 50
  treeWritten := true
  lastChangeTime := 100
  data := List.replicate length 0

def firstUpdate (objects : List NetObject) : UpdateInput := ⟨true,1,100,100,50,0,objects⟩

def splitRun : List LinkOp :=
  [.update (firstUpdate [newObject 1 1100,newObject 2 1100]),.deliverClones 0,.deliverAcks 200 0]

theorem onlyReceivedAckedSmall : Throughout (CloneLink.step fiveBuild) AcksReceived .init
    [.update (firstUpdate [newObject 1 20,newObject 2 20]),.deliverClones 0,.deliverAcks 200 0] :=
  onlyReceivedAcked fiveBuild ⟨fun _ => by decide,trivial,trivial,trivial⟩

theorem lostCreateAcked : ¬ Throughout (CloneLink.step fiveBuild) AcksReceived .init splitRun := by
  intro all
  have last := throughoutLast all
  have framed : ⟨⟨1,2,7⟩,100,1⟩ ∈ (run (CloneLink.step fiveBuild) .init splitRun).framed := by
    decide +kernel
  obtain ⟨arrived,-⟩ := last.framed _ framed
  revert arrived
  decide +kernel

end Citizen.Clone
