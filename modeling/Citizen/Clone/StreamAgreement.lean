import Citizen.Clone.LossDetection
import Citizen.Clone.StreamItems
import Mathlib.Data.List.Forall2

/-! The server's clone stream and the client's reader agree: every fragment that `Execute`
cuts holds whole records, and the client reads back what the tick enqueued. -/
namespace Citizen.Clone
open BitField Rl Sync

def kSyncPacketMaxLength : Nat := 2400

def bodyLength (c : CloneCommand) : Nat := c.unparsed.curBit / 8 + 1

def recordOf (c : CloneCommand) : MsgClone :=
  { syncType := c.syncType
    clientId := c.netId
    objectId := c.handle
    entityType := if c.syncType = 1 then c.type else 0
    creationToken := if c.syncType = 1 then c.creationToken else 0
    uniqifier := if c.isFirstFrameUpdate then 0xFFFF - c.uniqifier else c.uniqifier
    dependentFrameIndex := c.frameIndex
    timestamp := (if c.syncType = 1 then c.curTime
      else if c.isFirstFrameUpdate then c.curTime + 1 else c.timestamp) % 2 ^ 32
    cloneData := if c.mayWrite then c.unparsed.data.take (bodyLength c) else [] }

def enqueuedBy : SyncCommand → List StreamItem
  | .clone c => if c.wroteData then [.clone (recordOf c)] else []
  | .remove forceSteal objectId uniqifier => [.remove ⟨objectId,uniqifier,forceSteal⟩]

structure Matched (codec : Codec) (reader : Reader) : Prop where
  lengthHack : codec.lengthHack = reader.lengthHack
  typeWidth : codec.kNetObjectTypeBitLength = reader.kNetObjectTypeBitLength
  typeBound : 0 < codec.kNetObjectTypeBitLength ∧ codec.kNetObjectTypeBitLength ≤ 8
  lossless : ∀ data : List Byte, data.length ≤ 16384 → reader.lz4Decompress (codec.lz4Compress data) = some data

structure CloneInRange (codec : Codec) (c : CloneCommand) : Prop where
  syncType : c.syncType = 1 ∨ c.syncType = 2
  handle : c.handle < 2 ^ hackLength codec.lengthHack 13
  netId : c.netId < 2 ^ 16
  type : c.type < 2 ^ codec.kNetObjectTypeBitLength
  creationToken : c.creationToken < 2 ^ 32
  uniqifier : c.uniqifier < 2 ^ 16
  frameIndex : c.frameIndex < 2 ^ 64
  buffer : c.unparsed.data.length = kSyncPacketMaxLength
  body : c.unparsed.curBit ≤ 8 * kSyncPacketMaxLength

def InRange (codec : Codec) : SyncCommand → Prop
  | .clone c => CloneInRange codec c
  | .remove _ objectId uniqifier => objectId < 2 ^ hackLength codec.lengthHack 13 ∧ uniqifier < 2 ^ 16

def Carries (reader : Reader) (packet : PackedClones) (items : List StreamItem) : Prop :=
  MsgPackedClones.read reader packet = MsgPackedClones.addAll ⟨packet.frameIndex,[],[]⟩ items

def Copied : SyncCommand → Prop
  | .clone c => c.wroteData ∧ c.mayWrite
  | .remove _ _ _ => False

def ReadsInside : SyncCommand → Prop
  | .clone c => ∀ i ∈ copyBitsReads (bodyLength c * 8) 0, i < c.unparsed.data.length
  | .remove _ _ _ => True

structure StreamAgrees (codec : Codec) (reader : Reader) (frameIndex : Nat) (commands : List SyncCommand) :
    Prop where
  whole : ∃ groups : List (List StreamItem), groups.flatten = commands.flatMap enqueuedBy ∧
    List.Forall₂ (Carries reader) (execute codec frameIndex commands) groups
  inside : ∀ command ∈ commands, Copied command → ReadsInside command

def BitFree : SyncCommand → Prop
  | .clone c => c.unparsed.curBit < 8 * kSyncPacketMaxLength
  | .remove _ _ _ => True

section
variable {codec : Codec} {reader : Reader} {frameIndex : Nat}

structure Filled (codec : Codec) (reader : Reader) (s : SyncCommandState) (groups : List (List StreamItem))
    (pending : List StreamItem) : Prop where
  sized : s.cloneBuffer.Sized
  length : s.cloneBuffer.data.length = 16384
  cursor : s.cloneBuffer.curBit = widthOf (streamFields codec.lengthHack codec.kNetObjectTypeBitLength pending)
  fields : Fields s.cloneBuffer.data 0 (streamFields codec.lengthHack codec.kNetObjectTypeBitLength pending)
  fits : ∀ item ∈ pending, item.Fits codec.lengthHack codec.kNetObjectTypeBitLength
  room : s.cloneBuffer.curBit ≤ 65536
  sent : List.Forall₂ (Carries reader) s.sent groups

theorem filledInit : Filled codec reader .init [] [] :=
  ⟨sizedOfSize (by decide),List.length_replicate,rfl,trivial,by simp,by decide,.nil⟩

theorem filledWrite {s s' : SyncCommandState} {groups : List (List StreamItem)} {pending : List StreamItem}
    (filled : Filled codec reader s groups pending) (item : StreamItem)
    (wrote : s.cloneBuffer.Wrote (item.fields codec.lengthHack codec.kNetObjectTypeBitLength) s'.cloneBuffer)
    (same : s'.sent = s.sent) (fits : item.Fits codec.lengthHack codec.kNetObjectTypeBitLength)
    (room : s.cloneBuffer.curBit + widthOf (item.fields codec.lengthHack codec.kNetObjectTypeBitLength) ≤ 65536) :
    Filled codec reader s' groups (pending ++ [item]) := by
  have split : streamFields codec.lengthHack codec.kNetObjectTypeBitLength (pending ++ [item]) =
      streamFields codec.lengthHack codec.kNetObjectTypeBitLength pending ++
        item.fields codec.lengthHack codec.kNetObjectTypeBitLength := by
    rw [streamFields,List.flatMap_append,List.flatMap_singleton]
    rfl
  refine ⟨wrote.grown.sized,wrote.grown.length.trans filled.length,?_,?_,?_,wrote.cursor.trans_le room,
    same ▸ filled.sent⟩
  · rw [wrote.cursor,filled.cursor,split,widthOfAppend]
  · rw [split,fieldsAppend,Nat.zero_add,← filled.cursor]
    refine ⟨filled.fields.ofPrefix (fun i before => wrote.grown.settled i ?_),wrote.fields⟩
    rwa [filled.cursor,← Nat.zero_add (widthOf _)]
  · intro other mem
    rcases List.mem_append.mp mem with old | new
    · exact filled.fits other old
    · rw [List.mem_singleton.mp new]
      exact fits

section
variable (matched : Matched codec reader) {s : SyncCommandState} {groups : List (List StreamItem)}
  {pending : List StreamItem} (filled : Filled codec reader s groups pending)
include matched filled

theorem filledFlush (finalFlush : Bool) :
    Filled codec reader (flushBuffer codec frameIndex finalFlush s) (groups ++ [pending]) [] := by
  obtain ⟨lengthHack,typeWidth,typeBound,lossless⟩ := matched
  have wide := filled.length
  have room := filled.room
  have marked : s.cloneBuffer.Wrote [(3,7)] (s.cloneBuffer.write codec.lengthHack 3 7) := by
    have wrote := @wroteFields s.cloneBuffer codec.lengthHack [(3,7)] filled.sized (by decide)
    simp only [List.map_cons,List.map_nil,hacked,hackLengthOther,ne_eq,Nat.reduceEqDiff,not_false_eq_true,
      widthOfCons,widthOfNil] at wrote
    exact wrote (by omega)
  have cursor := marked.cursor
  simp only [widthOfCons,widthOfNil] at cursor
  have length := marked.grown.length.trans filled.length
  have covered : (s.cloneBuffer.write codec.lengthHack 3 7).curBit ≤
      8 * (s.cloneBuffer.write codec.lengthHack 3 7).getDataLength := by
    rw [MessageBuffer.getDataLength]
    split <;> omega
  have short : (s.cloneBuffer.write codec.lengthHack 3 7).getDataLength ≤ 16384 := by
    rw [MessageBuffer.getDataLength]
    split <;> omega
  have all : Fields (s.cloneBuffer.write codec.lengthHack 3 7).data 0
      (streamFields codec.lengthHack codec.kNetObjectTypeBitLength pending ++ [(3,7)]) := by
    rw [fieldsAppend,Nat.zero_add,← filled.cursor]
    refine ⟨filled.fields.ofPrefix (fun i before => marked.grown.settled i ?_),marked.fields⟩
    rwa [filled.cursor,← Nat.zero_add (widthOf _)]
  have end_ := filled.cursor
  have carries : Carries reader ⟨(⟨finalFlush,BitVec.ofNat 7 (s.fragmentIndex + 1),BitVec.ofNat 56 frameIndex⟩ : FrameIndex).full,
      codec.lz4Compress ((s.cloneBuffer.write codec.lengthHack 3 7).data.take
        (s.cloneBuffer.write codec.lengthHack 3 7).getDataLength)⟩ pending := by
    generalize s.cloneBuffer.write codec.lengthHack 3 7 = buffer at *
    have bytes : (buffer.data.take buffer.getDataLength).length = buffer.getDataLength := by
      rw [List.length_take,length,Nat.min_eq_left short]
    have unpacked := lossless _ (bytes.trans_le short)
    rw [lengthHack,typeWidth] at all end_
    refine readPacket (typeWidth ▸ typeBound) unpacked (by omega) ?_ ?_ ?_
    · intro item mem
      have fits := filled.fits item mem
      rwa [lengthHack,typeWidth] at fits
    · rw [bytes]
      omega
    · refine all.ofPrefix (fun i before => bitAtTake _ _ ?_)
      rw [widthOfAppend,widthOfCons,widthOfNil] at before
      omega
  exact ⟨marked.grown.sized,length,rfl,trivial,by simp,Nat.zero_le _,
    List.rel_append filled.sent (.cons carries .nil)⟩

theorem filledMaybe (size : Nat) : ∃ groups' pending', groups'.flatten ++ pending' = groups.flatten ++ pending ∧
      Filled codec reader (maybeFlushBuffer codec frameIndex size s) groups' pending' ∧
      (maybeFlushBuffer codec frameIndex size s).cloneBuffer.curBit ≤ 8480 := by
  unfold maybeFlushBuffer
  split
  · exact ⟨groups ++ [pending],[],by simp,filledFlush matched filled false,Nat.zero_le _⟩
  · rename_i fits
    refine ⟨groups,pending,rfl,filled,?_⟩
    rw [LZ4_compressBound,MessageBuffer.getDataLength] at fits
    split at fits <;> omega

end

theorem writeTruncated (b : MessageBuffer) (lengthHack : Bool) (value : Nat) :
    b.write lengthHack 32 (value % 2 ^ 32) = b.write lengthHack 32 value := by
  rw [MessageBuffer.write,MessageBuffer.write]
  congr 2
  apply BitVec.eq_of_toNat_eq
  rw [BitVec.toNat_ofNat,BitVec.toNat_ofNat,Nat.mod_mod]

def StreamItem.isTime : StreamItem → Bool
  | .time _ _ => true
  | _ => false

def untimed (items : List StreamItem) : List StreamItem := items.filter (fun item => !item.isTime)

theorem filledTime (matched : Matched codec reader) {s : SyncCommandState} {groups : List (List StreamItem)}
    {pending enqueued : List StreamItem} (filled : Filled codec reader s groups pending)
    (timed : untimed (groups.flatten ++ pending) = enqueued) (curTime : Nat) :
    ∃ groups' pending', untimed (groups'.flatten ++ pending') = enqueued ∧
      Filled codec reader (s.writeTime codec frameIndex curTime) groups' pending' := by
  unfold SyncCommandState.writeTime
  split
  · exact ⟨groups,pending,timed,filled⟩
  · obtain ⟨groups',pending',same,flushed,room⟩ :=
      @filledMaybe codec reader frameIndex matched s groups pending filled (3 + 32 + 32)
    generalize maybeFlushBuffer codec frameIndex (3 + 32 + 32) s = t at *
    have wrote := @wroteFields t.cloneBuffer codec.lengthHack
      [(3,5),(32,curTime % 2 ^ 32),(32,(curTime >>> 32) % 2 ^ 32)] flushed.sized (by simp)
    simp only [List.map_cons,List.map_nil,hacked,hackLengthOther,ne_eq,Nat.reduceEqDiff,not_false_eq_true,
      widthOfCons,widthOfNil,MessageBuffer.writes,List.foldl_cons,List.foldl_nil,writeTruncated] at wrote
    refine ⟨groups',pending' ++ [.time (curTime % 2 ^ 32) ((curTime >>> 32) % 2 ^ 32)],?_,
      filledWrite flushed (.time (curTime % 2 ^ 32) ((curTime >>> 32) % 2 ^ 32))
        (wrote (by rw [flushed.length]; omega)) rfl ⟨Nat.mod_lt _ (by decide),Nat.mod_lt _ (by decide)⟩ ?_⟩
    · rw [untimed,← List.append_assoc,List.filter_append,same,← timed]
      simp [StreamItem.isTime,untimed]
    · simp only [StreamItem.fields,widthOfCons,widthOfNil]
      omega

theorem wroteRemove {b : MessageBuffer} (lengthHack : Bool) (typeWidth : Nat) (remove : MsgRemove) (sized : b.Sized)
    (length : b.data.length = 16384) (room : b.curBit ≤ 8480) :
    b.Wrote ((StreamItem.remove remove).fields lengthHack typeWidth)
      ((((b.write lengthHack 3 3).writeBit remove.stillAlive.toNat).2.write lengthHack 13 remove.objectId).write
        lengthHack 16 remove.uniqifier) := by
  have idWidth := @hackLengthId lengthHack
  have first : b.Wrote [(3,3)] (b.write lengthHack 3 3) := by
    have wrote := @wroteFields b lengthHack [(3,3)] sized (by decide)
    simp only [List.map_cons,List.map_nil,hacked,hackLengthOther,ne_eq,Nat.reduceEqDiff,not_false_eq_true,
      widthOfCons,widthOfNil] at wrote
    exact wrote (by omega)
  have firstCursor := first.cursor
  have firstLength := first.grown.length
  rw [widthOfCons,widthOfNil] at firstCursor
  have second := wroteBit (Bool.toNat_lt remove.stillAlive) first.grown.sized (by omega)
  have secondCursor := second.cursor
  have secondLength := second.grown.length
  rw [widthOfCons,widthOfNil] at secondCursor
  have third := @wroteFields _ lengthHack [(13,remove.objectId),(16,remove.uniqifier)] second.grown.sized (by simp)
  simp only [List.map_cons,List.map_nil,hacked,hackLengthOther,ne_eq,Nat.reduceEqDiff,not_false_eq_true,
    widthOfCons,widthOfNil] at third
  exact (first.append second).append (third (by omega))

theorem filledRemove (matched : Matched codec reader) {s : SyncCommandState} {groups : List (List StreamItem)}
    {pending enqueued : List StreamItem} (filled : Filled codec reader s groups pending)
    (timed : untimed (groups.flatten ++ pending) = enqueued) {forceSteal : Bool} {objectId uniqifier : Nat}
    (range : InRange codec (.remove forceSteal objectId uniqifier)) :
    ∃ groups' pending', untimed (groups'.flatten ++ pending') =
        enqueued ++ enqueuedBy (.remove forceSteal objectId uniqifier) ∧
      Filled codec reader (runRemove codec frameIndex forceSteal objectId uniqifier s) groups' pending' := by
  obtain ⟨groups',pending',same,flushed,room⟩ :=
    @filledMaybe codec reader frameIndex matched s groups pending filled (3 + 1 + 16 + 16)
  have idWidth := @hackLengthId codec.lengthHack
  have wrote := wroteRemove codec.lengthHack codec.kNetObjectTypeBitLength ⟨objectId,uniqifier,forceSteal⟩
    flushed.sized flushed.length room
  refine ⟨groups',pending' ++ [.remove ⟨objectId,uniqifier,forceSteal⟩],?_,
    @filledWrite codec reader _ (runRemove codec frameIndex forceSteal objectId uniqifier s) groups' pending' flushed
      (.remove ⟨objectId,uniqifier,forceSteal⟩) wrote rfl range ?_⟩
  · rw [untimed,← List.append_assoc,List.filter_append,same,← timed]
    rfl
  · simp only [StreamItem.fields,widthOfCons,widthOfNil]
    omega

variable {c : CloneCommand}

theorem recordFits (range : CloneInRange codec c) :
    (recordOf c).Fits codec.lengthHack codec.kNetObjectTypeBitLength := by
  refine ⟨?_,range.handle,range.netId,?_,?_,?_,range.frameIndex,Nat.mod_lt _ (by decide),?_⟩
  · rcases range.syncType with create | update
    · exact .inl create
    · have other : c.syncType ≠ 1 := by omega
      exact .inr ⟨update,if_neg other,if_neg other⟩
  · simp only [recordOf]
    split
    · exact range.type
    · exact Nat.two_pow_pos _
  · simp only [recordOf]
    split
    · exact range.creationToken
    · exact Nat.two_pow_pos _
  · have small := range.uniqifier
    simp only [recordOf]
    split <;> omega
  · simp only [recordOf]
    split
    · rw [List.length_take,range.buffer,kSyncPacketMaxLength]
      omega
    · decide

section
variable {typeWidth : Nat} (typeBound : 0 < typeWidth ∧ typeWidth ≤ 8)
include typeBound

theorem headerBounded (msg : MsgClone) : ∀ field ∈ msg.header typeWidth, 0 < field.1 ∧ field.1 ≤ 32 := by
  intro field mem
  rw [MsgClone.header] at mem
  split at mem <;> simp at mem <;> grind

theorem recordWidth (lengthHack : Bool) (msg : MsgClone) (short : msg.cloneData.length ≤ kSyncPacketMaxLength) :
    widthOf ((StreamItem.clone msg).fields lengthHack typeWidth) ≤ 24000 := by
  have idWidth := @hackLengthId lengthHack
  have typeHack : hackLength lengthHack typeWidth = typeWidth := hackLengthOther (by omega)
  rw [kSyncPacketMaxLength] at short
  rw [StreamItem.fields,MsgClone.header]
  split <;> simp [hacked,hackLengthOther,widthOfBytes,typeHack] <;> omega

end

def writeRecordOf (codec : Codec) (c : CloneCommand) (b : MessageBuffer) : MessageBuffer :=
  let b := b.writes codec.lengthHack ((recordOf c).header codec.kNetObjectTypeBitLength)
  if c.mayWrite then (b.writeBits c.unparsed.data (bodyLength c * 8)).2 else b

def plannedBits (c : CloneCommand) : Nat :=
  3 + 16 + 16 + 4 + 32 + 16 + 64 + 32 + 12 + (if c.mayWrite then bodyLength c else 0) * 8

theorem runCloneWrites (wrote : c.wroteData = true)
    (inside : c.mayWrite = true → bodyLength c ≤ c.unparsed.data.length) (s : SyncCommandState) :
    runClone codec frameIndex c s =
      { maybeFlushBuffer codec frameIndex (plannedBits c) (s.writeTime codec frameIndex c.curTime) with
        cloneBuffer := writeRecordOf codec c
          (maybeFlushBuffer codec frameIndex (plannedBits c) (s.writeTime codec frameIndex c.curTime)).cloneBuffer } := by
  have length : (recordOf c).cloneData.length = if c.mayWrite then bodyLength c else 0 := by
    simp only [recordOf]
    split
    · rename_i may
      rw [List.length_take,Nat.min_eq_left (inside may)]
    · rfl
  rw [runClone,if_pos wrote,plannedBits]
  simp only [writeRecordOf,MsgClone.header,length,bodyLength]
  generalize maybeFlushBuffer codec frameIndex _ _ = t
  by_cases create : c.syncType = 1 <;> by_cases may : c.mayWrite <;>
    simp [create,may,recordOf,MessageBuffer.writes,SyncCommandState.write,writeTruncated,-Nat.reducePow]

theorem recordShort (range : CloneInRange codec c) : (recordOf c).cloneData.length ≤ kSyncPacketMaxLength := by
  simp only [recordOf]
  split
  · exact (List.length_take_le' _ _).trans_eq range.buffer
  · exact Nat.zero_le _

theorem wroteRecord (range : CloneInRange codec c)
    (typeBound : 0 < codec.kNetObjectTypeBitLength ∧ codec.kNetObjectTypeBitLength ≤ 8)
    (inside : c.mayWrite = true → bodyLength c ≤ c.unparsed.data.length) {b : MessageBuffer}
    (sized : b.Sized) (length : b.data.length = 16384) (room : b.curBit ≤ 8480) :
    b.Wrote ((StreamItem.clone (recordOf c)).fields codec.lengthHack codec.kNetObjectTypeBitLength)
      (writeRecordOf codec c b) := by
  have short := recordShort range
  have width := recordWidth typeBound codec.lengthHack (recordOf c) short
  rw [StreamItem.fields,widthOfAppend,widthOfBytes] at width
  have header := @wroteFields b codec.lengthHack _ sized (headerBounded typeBound (recordOf c)) (by omega)
  have cursor := header.cursor
  have size := header.grown.length
  rw [writeRecordOf,StreamItem.fields]
  split
  · rename_i may
    have body : (recordOf c).cloneData = c.unparsed.data.take (bodyLength c) := if_pos may
    have bytes : (recordOf c).cloneData.length = bodyLength c := by
      rw [body,List.length_take,Nat.min_eq_left (inside may)]
    rw [body]
    exact header.append (wroteBytes header.grown.sized (Nat.succ_pos _) (inside may) (by omega))
  · rename_i may
    have empty : (recordOf c).cloneData = [] := if_neg may
    rw [empty,byteFields,List.map_nil,List.append_nil]
    exact header

theorem filledClone (matched : Matched codec reader) {s : SyncCommandState} {groups : List (List StreamItem)}
    {pending enqueued : List StreamItem} (filled : Filled codec reader s groups pending)
    (timed : untimed (groups.flatten ++ pending) = enqueued) {c : CloneCommand} (range : CloneInRange codec c)
    (inside : c.wroteData = true → c.mayWrite = true → bodyLength c ≤ c.unparsed.data.length) :
    ∃ groups' pending', untimed (groups'.flatten ++ pending') = enqueued ++ enqueuedBy (.clone c) ∧
      Filled codec reader (runClone codec frameIndex c s) groups' pending' := by
  by_cases wrote : c.wroteData = true
  · obtain ⟨groups₁,pending₁,timed₁,filled₁⟩ :=
      @filledTime codec reader frameIndex matched s groups pending enqueued filled timed c.curTime
    obtain ⟨groups₂,pending₂,same,filled₂,room⟩ :=
      @filledMaybe codec reader frameIndex matched _ groups₁ pending₁ filled₁ (plannedBits c)
    rw [runCloneWrites wrote (inside wrote)]
    generalize maybeFlushBuffer codec frameIndex (plannedBits c) _ = t at *
    have short : (recordOf c).cloneData.length ≤ kSyncPacketMaxLength := recordShort range
    have width := recordWidth matched.typeBound codec.lengthHack (recordOf c) short
    have written := wroteRecord range matched.typeBound (inside wrote) filled₂.sized filled₂.length room
    refine ⟨groups₂,pending₂ ++ [.clone (recordOf c)],?_,
      @filledWrite codec reader t { t with cloneBuffer := writeRecordOf codec c t.cloneBuffer } groups₂ pending₂
        filled₂ (.clone (recordOf c)) written rfl (recordFits range) (by omega)⟩
    rw [untimed,← List.append_assoc,List.filter_append,same,← timed₁,enqueuedBy,if_pos wrote]
    rfl
  · refine ⟨groups,pending,?_,?_⟩
    · simp [enqueuedBy,wrote,timed]
    · rwa [runClone,if_neg wrote]

theorem readsInsideIff {command : SyncCommand} (range : InRange codec command) :
    ReadsInside command ↔ BitFree command := by
  cases command with
  | remove forceSteal objectId uniqifier => exact Iff.rfl
  | clone c =>
    have buffer : c.unparsed.data.length = kSyncPacketMaxLength := range.buffer
    have positive : 0 < bodyLength c * 8 := by
      rw [bodyLength]
      omega
    simp only [ReadsInside,BitFree,memCopyBitsReads positive,buffer]
    rw [bodyLength]
    constructor
    · intro inside
      have last := inside (c.unparsed.curBit / 8) (by omega)
      omega
    · intro free i within
      omega

theorem filledCallback (matched : Matched codec reader) {s : SyncCommandState} {groups : List (List StreamItem)}
    {pending enqueued : List StreamItem} (filled : Filled codec reader s groups pending)
    (timed : untimed (groups.flatten ++ pending) = enqueued) {command : SyncCommand}
    (range : InRange codec command) (free : Copied command → BitFree command) :
    ∃ groups' pending', untimed (groups'.flatten ++ pending') = enqueued ++ enqueuedBy command ∧
      Filled codec reader (command.callback codec frameIndex s) groups' pending' := by
  cases command with
  | remove forceSteal objectId uniqifier => exact filledRemove matched filled timed range
  | clone c =>
    refine filledClone matched filled timed range (fun wrote may => ?_)
    have bits : c.unparsed.curBit < 8 * kSyncPacketMaxLength := free ⟨wrote,may⟩
    have buffer : c.unparsed.data.length = kSyncPacketMaxLength := range.buffer
    rw [bodyLength,buffer]
    omega

theorem filledRun (matched : Matched codec reader) {commands : List SyncCommand} {s : SyncCommandState}
    {groups : List (List StreamItem)} {pending enqueued : List StreamItem}
    (filled : Filled codec reader s groups pending) (timed : untimed (groups.flatten ++ pending) = enqueued)
    (range : ∀ command ∈ commands, InRange codec command)
    (free : ∀ command ∈ commands, Copied command → BitFree command) :
    ∃ groups' pending', untimed (groups'.flatten ++ pending') = enqueued ++ commands.flatMap enqueuedBy ∧
      Filled codec reader (commands.foldl (SyncCommand.callback codec frameIndex) s) groups' pending' := by
  induction commands generalizing s groups pending enqueued with
  | nil => exact ⟨groups,pending,by simpa using timed,filled⟩
  | cons command rest ih =>
    obtain ⟨groups₁,pending₁,timed₁,filled₁⟩ := @filledCallback codec reader frameIndex matched s groups pending
      enqueued filled timed command (range command List.mem_cons_self) (free command List.mem_cons_self)
    obtain ⟨groups₂,pending₂,timed₂,filled₂⟩ := ih filled₁ timed₁
      (fun other mem => range other (List.mem_cons_of_mem _ mem))
      (fun other mem => free other (List.mem_cons_of_mem _ mem))
    refine ⟨groups₂,pending₂,?_,filled₂⟩
    rw [timed₂,List.flatMap_cons,List.append_assoc]

theorem addUntimed (items : List StreamItem) (msg : MsgPackedClones) :
    msg.addAll (untimed items) = msg.addAll items := by
  induction items generalizing msg with
  | nil => rfl
  | cons item rest ih =>
    cases item with
    | time low high => exact ih msg
    | clone clone => exact ih _
    | remove remove => exact ih _

theorem streamAgrees (matched : Matched codec reader) {commands : List SyncCommand}
    (range : ∀ command ∈ commands, InRange codec command) :
    StreamAgrees codec reader frameIndex commands ↔ ∀ command ∈ commands, Copied command → BitFree command := by
  constructor
  · intro agrees command mem copied
    exact (readsInsideIff (range command mem)).mp (agrees.inside command mem copied)
  · intro free
    refine ⟨?_,fun command mem copied => (readsInsideIff (range command mem)).mpr (free command mem copied)⟩
    obtain ⟨groups,pending,timed,filled⟩ := @filledRun codec reader frameIndex matched commands .init [] [] []
      filledInit rfl range free
    have last := @filledFlush codec reader frameIndex matched _ groups pending filled true
    refine ⟨(groups ++ [pending]).map untimed,?_,?_⟩
    · rw [List.nil_append] at timed
      rw [← timed,untimed,List.filter_append,List.filter_flatten,List.map_append,List.flatten_append,
        List.map_singleton,List.flatten_singleton]
      rfl
    · rw [List.forall₂_map_right_iff]
      refine last.sent.imp (fun packet items carries => ?_)
      rw [Carries,addUntimed]
      exact carries

end

def sampleClone (syncType bits : Nat) : CloneCommand :=
  { curTime := 7, syncType, handle := 5, netId := 2, type := 5, creationToken := 0, uniqifier := 3, frameIndex := 0,
    isFirstFrameUpdate := false, timestamp := 9, wroteData := true, mayWrite := true,
    unparsed := ⟨List.replicate kSyncPacketMaxLength 0xAB,bits,8 * kSyncPacketMaxLength⟩ }

theorem sampleInRange {syncType bits : Nat} (kind : syncType = 1 ∨ syncType = 2)
    (room : bits ≤ 8 * kSyncPacketMaxLength) : InRange plainCodec (.clone (sampleClone syncType bits)) :=
  ⟨kind,(by decide : 5 < 2 ^ 13),(by decide : 2 < 2 ^ 16),(by decide : 5 < 2 ^ 4),(by decide : 0 < 2 ^ 32),
    (by decide : 3 < 2 ^ 16),(by decide : 0 < 2 ^ 64),List.length_replicate,room⟩

theorem plainMatched : Matched plainCodec plainReader :=
  ⟨rfl,rfl,by decide,fun _ _ => rfl⟩

theorem streamAgreesSample :
    StreamAgrees plainCodec plainReader 1 [.clone (sampleClone 1 19199),.clone (sampleClone 2 12)] := by
  refine (streamAgrees plainMatched ?_).mpr ?_
  · intro command mem
    simp only [List.mem_cons,List.not_mem_nil,or_false] at mem
    rcases mem with rfl | rfl
    · exact sampleInRange (.inl rfl) (by decide)
    · exact sampleInRange (.inr rfl) (by decide)
  · intro command mem _
    simp only [List.mem_cons,List.not_mem_nil,or_false] at mem
    rcases mem with rfl | rfl
    · exact (by decide : (19199 : Nat) < 8 * kSyncPacketMaxLength)
    · exact (by decide : (12 : Nat) < 8 * kSyncPacketMaxLength)

theorem fullBodyOverread : InRange plainCodec (.clone (sampleClone 1 19200)) ∧
    ¬ StreamAgrees plainCodec plainReader 1 [.clone (sampleClone 1 19200)] := by
  have range := @sampleInRange 1 19200 (.inl rfl) (by decide)
  refine ⟨range,fun agrees => ?_⟩
  have free := (readsInsideIff range).mp (agrees.inside _ List.mem_cons_self ⟨rfl,rfl⟩)
  exact absurd free (by decide : ¬ (19200 : Nat) < 8 * kSyncPacketMaxLength)

end Citizen.Clone
