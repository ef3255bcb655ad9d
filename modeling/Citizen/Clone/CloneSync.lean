import Citizen.Sync.CommandList

/-! The client's `HandleCloneSync`: frame and fragment gaps are looked for before the
clones of the packet are applied. The game objects behind `HandleCloneCreate`,
`HandleCloneUpdate` and the removals are a parameter. -/
namespace Citizen.Clone
open BitField (Byte)
open Rl (MessageBuffer)
open Sync (FrameIndex PackedClones)

structure MsgClone where
  syncType : Nat
  clientId : Nat
  objectId : Nat
  entityType : Nat
  creationToken : Nat
  uniqifier : Nat
  dependentFrameIndex : Nat
  timestamp : Nat
  cloneData : List Byte
  deriving DecidableEq, Repr

structure MsgRemove where
  objectId : Nat
  uniqifier : Nat
  stillAlive : Bool
  deriving DecidableEq, Repr

structure MsgPackedClones where
  frameIndex : BitVec 64
  clones : List MsgClone
  removes : List MsgRemove

inductive AckResult where
  | ok
  | resendClone
  | resendCloneMinimal
  | resendCreate
  deriving DecidableEq, Repr

structure Reader where
  lengthHack : Bool
  kNetObjectTypeBitLength : Nat
  lz4Decompress : List Byte → Option (List Byte)

section
variable (reader : Reader)

def readClone (syncType : Nat) (buffer : MessageBuffer) : MsgClone × MessageBuffer :=
  let (objectId,buffer) := buffer.read reader.lengthHack 13
  let (clientId,buffer) := buffer.read reader.lengthHack 16
  let (entityType,creationToken,buffer) :=
    if syncType = 1 then
      let (entityType,buffer) := buffer.read reader.lengthHack reader.kNetObjectTypeBitLength
      let (creationToken,buffer) := buffer.read reader.lengthHack 32
      (entityType,creationToken,buffer)
    else (0,0,buffer)
  let (uniqifier,buffer) := buffer.read reader.lengthHack 16
  let (high,buffer) := buffer.read reader.lengthHack 32
  let (low,buffer) := buffer.read reader.lengthHack 32
  let (timestamp,buffer) := buffer.read reader.lengthHack 32
  let (length,buffer) := buffer.read reader.lengthHack 12
  let (_,cloneData,buffer) := buffer.readBits (List.replicate length 0) (length * 8)
  (⟨syncType,clientId,objectId,entityType,creationToken,uniqifier,high <<< 32 ||| low,timestamp,cloneData⟩,
    buffer)

def readRecords : Nat → MessageBuffer → MsgPackedClones → MsgPackedClones
  | 0,_,msg => msg
  | rounds + 1,msgBuf,msg =>
      if msgBuf.isAtEnd then msg
      else
        let (dataType,msgBuf) := msgBuf.read reader.lengthHack 3
        match dataType with
        | 1 | 2 =>
            let (clone,msgBuf) := readClone reader dataType msgBuf
            readRecords rounds msgBuf { msg with clones := msg.clones ++ [clone] }
        | 3 =>
            let (stillAlive,msgBuf) := msgBuf.readBit
            let (remove,msgBuf) := msgBuf.read reader.lengthHack 13
            let (uniqifier,msgBuf) := msgBuf.read reader.lengthHack 16
            readRecords rounds msgBuf { msg with removes := msg.removes ++ [⟨remove,uniqifier,stillAlive != 0⟩] }
        | 5 => readRecords rounds ((msgBuf.read reader.lengthHack 32).2.read reader.lengthHack 32).2 msg
        | 7 => msg
        | _ => readRecords rounds msgBuf msg

def MsgPackedClones.read (packet : PackedClones) : MsgPackedClones :=
  let msg := ⟨packet.frameIndex,[],[]⟩
  match reader.lz4Decompress packet.data with
  | none => msg
  | some bufferData =>
      if bufferData.length = 0 then msg
      else readRecords reader (8 * bufferData.length) (.ofData bufferData) msg

end

inductive FrameCheck where
  | cooked
  | whole
  | missing (firstMissingFrame lastMissingFrame : BitVec 64)
  deriving DecidableEq, Repr

/-- Which frames the step from the last received fragment to the new one shows missing.
The seven-bit fragment number is compared as an `int`, the frame number as a `uint64_t`. -/
def checkFrames (last new : FrameIndex) : FrameCheck :=
  let lastFrame := last.frameIndex.setWidth 64
  let newFrame := new.frameIndex.setWidth 64
  if lastFrame ≠ 0 then
    if lastFrame = newFrame then
      if last.lastFragment && new.lastFragment then .cooked
      else if (last.currentFragment.toNat : Int) ≠ new.currentFragment.toNat - 1 then
        .missing newFrame newFrame
      else .whole
    else if lastFrame ≠ newFrame - 1 then .missing (lastFrame + 1) (newFrame - 1)
    else if last.lastFragment && decide (new.currentFragment ≠ 1) then .missing (lastFrame + 1) newFrame
    else if !last.lastFragment then .missing lastFrame lastFrame
    else .whole
  else .whole

structure IgnoreListEntry where
  entry : Nat
  lastFrame : Nat
  deriving DecidableEq, Repr

structure GameStateAck where
  frameIndex : BitVec 56
  ignoreList : List IgnoreListEntry
  recreateList : List Nat
  deriving DecidableEq, Repr

structure GameStateNAck where
  frameIndex : BitVec 56
  missingFrames : Option (BitVec 64 × BitVec 64)
  ignoreList : List IgnoreListEntry
  recreateList : List Nat
  deriving DecidableEq, Repr

inductive ClientPacket where
  | ack (packet : GameStateAck)
  | nack (packet : GameStateNAck)
  deriving DecidableEq, Repr

structure Game (γ : Type) where
  handleCloneCreate : γ → MsgClone → Bool × γ
  handleCloneUpdate : γ → FrameIndex → MsgClone → AckResult × γ
  lastFrameUpdated : γ → Nat → Nat
  handleRemove : γ → MsgRemove → γ

structure CloneManager (γ : Type) where
  lastReceivedFrame : FrameIndex
  syncIsARQ : Bool
  ignoreList : List IgnoreListEntry
  recreateList : List Nat
  game : γ
  sent : List ClientPacket

def CloneManager.init {γ : Type} (syncIsARQ : Bool) (game : γ) : CloneManager γ :=
  ⟨⟨false,0,0⟩,syncIsARQ,[],[],game,[]⟩

structure Arrival where
  packet : PackedClones
  objectMgr : Bool

section
variable {γ : Type} (reader : Reader) (g : Game γ)

def handleClone (m : CloneManager γ) (clone : MsgClone) : CloneManager γ :=
  match clone.syncType with
  | 1 =>
      let (acked,game) := g.handleCloneCreate m.game clone
      { m with
        game
        recreateList := if acked then m.recreateList else m.recreateList ++ [clone.objectId] }
  | 2 =>
      let (acked,game) := g.handleCloneUpdate m.game m.lastReceivedFrame clone
      let m := { m with game }
      match acked with
      | .ok => m
      | .resendCreate => { m with recreateList := m.recreateList ++ [clone.objectId] }
      | .resendClone => { m with ignoreList := m.ignoreList ++ [⟨clone.objectId,0⟩] }
      | .resendCloneMinimal =>
          { m with ignoreList := m.ignoreList ++ [⟨clone.objectId,g.lastFrameUpdated game clone.objectId⟩] }
  | _ => m

def applyClones (msg : MsgPackedClones) (m : CloneManager γ) : CloneManager γ :=
  let m := msg.clones.foldl (handleClone g) m
  { m with game := msg.removes.foldl g.handleRemove m.game }

def CloneManager.sendAck (m : CloneManager γ) : CloneManager γ :=
  if m.lastReceivedFrame.lastFragment then
    { m with
      ignoreList := []
      recreateList := []
      sent := m.sent ++ [.ack ⟨m.lastReceivedFrame.frameIndex,m.ignoreList,m.recreateList⟩] }
  else m

def CloneManager.sendNAck (newIndex : FrameIndex) (missing : Option (BitVec 64 × BitVec 64))
    (m : CloneManager γ) : CloneManager γ :=
  if missing.isNone && m.ignoreList.isEmpty && m.recreateList.isEmpty then m
  else
    { m with
      ignoreList := []
      recreateList := []
      sent := m.sent ++ [.nack ⟨newIndex.frameIndex,missing,m.ignoreList,m.recreateList⟩] }

def receiveFragment (msg : MsgPackedClones) (missing : Option (BitVec 64 × BitVec 64))
    (m : CloneManager γ) : CloneManager γ :=
  let newIndex := FrameIndex.ofFull msg.frameIndex
  let m := applyClones g msg { m with lastReceivedFrame := newIndex }
  if m.syncIsARQ then m.sendAck else m.sendNAck newIndex missing

def handleCloneSync (m : CloneManager γ) (arrival : Arrival) : CloneManager γ :=
  if arrival.objectMgr then
    let msg := MsgPackedClones.read reader arrival.packet
    match checkFrames m.lastReceivedFrame (.ofFull msg.frameIndex) with
    | .cooked => m
    | .whole => receiveFragment g msg none m
    | .missing first last => receiveFragment g msg (some (first,last)) m
  else m

end
end Citizen.Clone
