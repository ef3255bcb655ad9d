import Citizen.Net.MessageBuffer

/-! The sync commands of one server frame for one client, and how
`SyncCommandList::Execute` cuts them into numbered fragments. Compression is a
parameter: only the fragment word of a packet is looked at before it is undone. -/
namespace Citizen.Sync
open BitField (Byte)
open Rl (MessageBuffer)

structure FrameIndex where
  lastFragment : Bool
  currentFragment : BitVec 7
  frameIndex : BitVec 56
  deriving DecidableEq, Repr

def FrameIndex.full (f : FrameIndex) : BitVec 64 :=
  f.frameIndex ++ f.currentFragment ++ BitVec.ofBool f.lastFragment

def FrameIndex.ofFull (idx : BitVec 64) : FrameIndex :=
  ⟨idx.getLsbD 0,idx.extractLsb' 1 7,idx.extractLsb' 8 56⟩

theorem FrameIndex.ofFullFull (f : FrameIndex) : ofFull f.full = f := by
  obtain ⟨lastFragment,currentFragment,frameIndex⟩ := f
  rw [FrameIndex.full,ofFull,FrameIndex.mk.injEq]
  refine ⟨?_,?_,?_⟩
  · simp only [BitVec.getLsbD_append,Nat.lt_one_iff,if_true,BitVec.getLsbD_ofBool,decide_true,
      Bool.true_and]
  · apply BitVec.eq_of_getLsbD_eq
    intro i inside
    simp only [BitVec.getLsbD_extractLsb',BitVec.getLsbD_append]
    grind
  · apply BitVec.eq_of_getLsbD_eq
    intro i inside
    simp only [BitVec.getLsbD_extractLsb',BitVec.getLsbD_append]
    grind

structure PackedClones where
  frameIndex : BitVec 64
  data : List Byte
  deriving DecidableEq, Repr

def PackedClones.word (p : PackedClones) : FrameIndex := .ofFull p.frameIndex

def LZ4_compressBound (size : Nat) : Nat := size + size / 255 + 16

structure Codec where
  lengthHack : Bool
  kNetObjectTypeBitLength : Nat
  lz4Compress : List Byte → List Byte

structure SyncCommandState where
  cloneBuffer : MessageBuffer
  fragmentIndex : Nat
  hadTime : Bool
  sent : List PackedClones

def SyncCommandState.init : SyncCommandState := ⟨.ofSize 16384,0,false,[]⟩

structure CloneCommand where
  curTime : Nat
  syncType : Nat
  handle : Nat
  netId : Nat
  type : Nat
  creationToken : Nat
  uniqifier : Nat
  frameIndex : Nat
  isFirstFrameUpdate : Bool
  timestamp : Nat
  wroteData : Bool
  mayWrite : Bool
  unparsed : MessageBuffer

inductive SyncCommand where
  | clone (command : CloneCommand)
  | remove (forceSteal : Bool) (objectId uniqifier : Nat)

section
variable (codec : Codec) (frameIndex : Nat)

def flushBuffer (finalFlush : Bool) (s : SyncCommandState) : SyncCommandState :=
  let buffer := s.cloneBuffer.write codec.lengthHack 3 7
  let outData := codec.lz4Compress (buffer.data.take buffer.getDataLength)
  let newFrame : FrameIndex :=
    ⟨finalFlush,BitVec.ofNat 7 (s.fragmentIndex + 1),BitVec.ofNat 56 frameIndex⟩
  { s with
    cloneBuffer := buffer.setCurrentBit 0
    fragmentIndex := s.fragmentIndex + 1
    sent := s.sent ++ [⟨newFrame.full,outData⟩] }

def maybeFlushBuffer (size : Nat) (s : SyncCommandState) : SyncCommandState :=
  if 1100 - 12 - 12 < LZ4_compressBound (s.cloneBuffer.getDataLength + size / 8) then
    flushBuffer codec frameIndex false s
  else s

def SyncCommandState.write (length value : Nat) (s : SyncCommandState) : SyncCommandState :=
  { s with cloneBuffer := s.cloneBuffer.write codec.lengthHack length value }

def SyncCommandState.writeTime (curTime : Nat) (s : SyncCommandState) : SyncCommandState :=
  if s.hadTime then s
  else
    let s := maybeFlushBuffer codec frameIndex (3 + 32 + 32) s
    let s := ((s.write codec 3 5).write codec 32 curTime).write codec 32 (curTime >>> 32)
    { s with hadTime := true }

def runClone (c : CloneCommand) (s : SyncCommandState) : SyncCommandState :=
  if c.wroteData then
    let s := s.writeTime codec frameIndex c.curTime
    let len := if c.mayWrite then c.unparsed.curBit / 8 + 1 else 0
    let s := maybeFlushBuffer codec frameIndex (3 + 16 + 16 + 4 + 32 + 16 + 64 + 32 + 12 + len * 8) s
    let s := ((s.write codec 3 c.syncType).write codec 13 c.handle).write codec 16 c.netId
    let s := if c.syncType = 1 then
        (s.write codec codec.kNetObjectTypeBitLength c.type).write codec 32 c.creationToken
      else s
    let s := s.write codec 16 (if c.isFirstFrameUpdate then 0xFFFF - c.uniqifier else c.uniqifier)
    let s := (s.write codec 32 (c.frameIndex >>> 32)).write codec 32 c.frameIndex
    let s := s.write codec 32 (if c.syncType = 1 then c.curTime
      else if c.isFirstFrameUpdate then c.curTime + 1 else c.timestamp)
    let s := s.write codec 12 len
    if c.mayWrite then
      { s with cloneBuffer := (s.cloneBuffer.writeBits c.unparsed.data (len * 8)).2 }
    else s
  else s

def runRemove (forceSteal : Bool) (objectId uniqifier : Nat) (s : SyncCommandState) : SyncCommandState :=
  let s := (maybeFlushBuffer codec frameIndex (3 + 1 + 16 + 16) s).write codec 3 3
  let s := { s with cloneBuffer := (s.cloneBuffer.writeBit forceSteal.toNat).2 }
  (s.write codec 13 objectId).write codec 16 uniqifier

def SyncCommand.callback (s : SyncCommandState) : SyncCommand → SyncCommandState
  | .clone c => runClone codec frameIndex c s
  | .remove forceSteal objectId uniqifier => runRemove codec frameIndex forceSteal objectId uniqifier s

def execute (commands : List SyncCommand) : List PackedClones :=
  (flushBuffer codec frameIndex true
    (commands.foldl (SyncCommand.callback codec frameIndex) .init)).sent

def openWords (n : Nat) : List FrameIndex :=
  (List.range n).map (fun i => ⟨false,BitVec.ofNat 7 (i + 1),BitVec.ofNat 56 frameIndex⟩)

def Numbered (s : SyncCommandState) : Prop :=
  s.sent.map PackedClones.word = openWords frameIndex s.fragmentIndex

variable {frameIndex}

theorem numberedInit (frameIndex : Nat) : Numbered frameIndex .init := rfl

section
variable {s : SyncCommandState} (h : Numbered frameIndex s)
include h

theorem numberedFlush : Numbered frameIndex (flushBuffer codec frameIndex false s) := by
  rw [Numbered,openWords] at *
  simp [flushBuffer,PackedClones.word,FrameIndex.ofFullFull,h,List.range_succ]

theorem numberedMaybe (size : Nat) : Numbered frameIndex (maybeFlushBuffer codec frameIndex size s) := by
  unfold maybeFlushBuffer
  split
  · exact numberedFlush codec h
  · exact h

theorem numberedTime (curTime : Nat) : Numbered frameIndex (s.writeTime codec frameIndex curTime) := by
  unfold SyncCommandState.writeTime
  split
  · exact h
  · exact numberedMaybe codec h (3 + 32 + 32)

theorem numberedClone (c : CloneCommand) : Numbered frameIndex (runClone codec frameIndex c s) := by
  unfold runClone
  have timed := numberedTime codec h c.curTime
  split
  · have room := fun size => numberedMaybe codec timed size
    split <;> split <;> exact room _
  · exact h

theorem numberedCallback (command : SyncCommand) : Numbered frameIndex (command.callback codec frameIndex s) := by
  cases command with
  | clone c => exact numberedClone codec h c
  | remove forceSteal objectId uniqifier => exact numberedMaybe codec h (3 + 1 + 16 + 16)

end

theorem numberedCommands (commands : List SyncCommand) {s : SyncCommandState} (h : Numbered frameIndex s) :
    Numbered frameIndex (commands.foldl (SyncCommand.callback codec frameIndex) s) := by
  induction commands generalizing s with
  | nil => exact h
  | cons command rest ih => exact ih (numberedCallback codec h command)

theorem executeWords (frameIndex : Nat) (commands : List SyncCommand) :
    (execute codec frameIndex commands).map PackedClones.word =
      (List.range (execute codec frameIndex commands).length).map (fun i =>
        ⟨i + 1 = (execute codec frameIndex commands).length,BitVec.ofNat 7 (i + 1), BitVec.ofNat 56 frameIndex⟩) := by
  have numbered := numberedCommands codec commands (numberedInit frameIndex)
  have count := congrArg List.length numbered
  simp only [openWords,List.length_map,List.length_range] at count
  rw [Numbered,openWords] at numbered
  simp only [execute,flushBuffer,List.map_append,numbered,List.length_append,List.length_singleton,
    List.map_singleton,PackedClones.word,FrameIndex.ofFullFull,List.range_succ,count]
  congr 1
  refine List.map_congr_left (fun i mem => ?_)
  have inside := List.mem_range.mp mem
  simp
  omega

end
end Citizen.Sync
