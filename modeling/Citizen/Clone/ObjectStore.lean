import Citizen.Clone.LossDetection
import Mathlib.Data.Finset.Basic

/-! The objects behind the client's `HandleCloneSync`, and the frame in which each was last
updated. The game's own answers are read from a stream. -/
namespace Citizen.Clone
open BitField (Byte)
open Sync (FrameIndex PackedClones)

structure TrackedObject where
  synced : Bool
  uniqifier : Nat
  lastFrameUpdated : Nat
  deriving DecidableEq, Repr

structure Answers where
  rand : Nat
  created : Bool
  canApply : Bool
  createdBy : Option Nat
  wasLocal : Bool
  localPlayerPed : Bool
  destroyed : Bool

structure ObjectStore where
  savedEntities : Finset Nat
  trackedObjects : Nat → Option TrackedObject
  clientId : Nat → Nat
  pendingRemoveAcks : Finset (Nat × Nat)
  mercyList : Finset (Nat × Nat)
  dontParrotDeletionAcks : Finset Nat
  playersByNetId : Finset Nat
  serverNetID : Nat
  answers : Nat → Answers
  applied : List MsgClone

def complement (uniqifier : Nat) : Nat := 2^16 - 1 - uniqifier % 2^16

def entityTypeObject : Nat := 5
def entityTypePlayer : Nat := 11

def MsgClone.named (msg : MsgClone) (keys : Finset (Nat × Nat)) : Bool :=
  (msg.objectId,msg.uniqifier) ∈ keys ∨ (msg.objectId,complement msg.uniqifier) ∈ keys

namespace ObjectStore

def init (serverNetID : Nat) (answers : Nat → Answers) : ObjectStore :=
  ⟨∅,fun _ => none,fun _ => 0,∅,∅,∅,∅,serverNetID,answers,[]⟩

def answer (s : ObjectStore) : Answers := s.answers 0
def nextAnswer (s : ObjectStore) : ObjectStore := { s with answers := fun i => s.answers (i + 1) }

def tracked (s : ObjectStore) (id : Nat) : TrackedObject :=
  (s.trackedObjects id).getD ⟨false,s.answer.rand,0⟩

def track (s : ObjectStore) (id : Nat) (object : TrackedObject) : ObjectStore :=
  { s with trackedObjects := Function.update s.trackedObjects id (some object) }

def lastFrame (s : ObjectStore) (id : Nat) : Nat := (s.tracked id).lastFrameUpdated

def setClientId (s : ObjectStore) (id client : Nat) : ObjectStore :=
  { s with clientId := Function.update s.clientId id client }

def setSynced (s : ObjectStore) (id : Nat) : ObjectStore :=
  s.track id { s.tracked id with synced := true }

def applyToObject (s : ObjectStore) (msg : MsgClone) : ObjectStore :=
  { s with applied := s.applied ++ [msg] }

def checkMigration (s : ObjectStore) (msg : MsgClone) : ObjectStore :=
  if s.clientId msg.objectId ≠ msg.clientId ∧ msg.objectId ∈ s.savedEntities then
    let migrated := if msg.clientId = s.serverNetID then s.setSynced msg.objectId else s
    migrated.setClientId msg.objectId msg.clientId
  else s

structure Handled where
  ack : AckResult
  store : ObjectStore
  advanced : Bool

def handleCloneUpdate (s : ObjectStore) (frameIndex : Nat) (msg : MsgClone) : Handled :=
  if msg.named s.mercyList then ⟨.ok,s,false⟩
  else if msg.objectId ∉ s.savedEntities then
    if msg.named s.pendingRemoveAcks then ⟨.ok,s,false⟩ else ⟨.resendCreate,s,false⟩
  else
    let objectData := s.tracked msg.objectId
    let s := s.track msg.objectId objectData
    if objectData.uniqifier ≠ msg.uniqifier ∧ complement objectData.uniqifier ≠ msg.uniqifier then
      if msg.named s.pendingRemoveAcks then ⟨.ok,s,false⟩ else ⟨.resendCreate,s,false⟩
    else if objectData.lastFrameUpdated < msg.dependentFrameIndex then ⟨.resendCloneMinimal,s,false⟩
    else
      let s := s.track msg.objectId { objectData with lastFrameUpdated := frameIndex }
      if msg.clientId = s.serverNetID ∧ s.clientId msg.objectId = msg.clientId ∧
          complement objectData.uniqifier ≠ msg.uniqifier then ⟨.ok,s,true⟩
      else if msg.cloneData ≠ [] ∧ msg.clientId ∈ s.playersByNetId then
        if s.answer.canApply then ⟨.ok,(s.applyToObject msg).checkMigration msg,true⟩
        else ⟨.resendCloneMinimal,s.track msg.objectId objectData,false⟩
      else ⟨.ok,s.checkMigration msg,true⟩

def forget (s : ObjectStore) (id : Nat) (removeAck : Bool) : ObjectStore :=
  { s with
    pendingRemoveAcks :=
      if removeAck ∧ (s.tracked id).synced then insert (id,(s.tracked id).uniqifier) s.pendingRemoveAcks
      else s.pendingRemoveAcks
    savedEntities := s.savedEntities.erase id
    trackedObjects := Function.update s.trackedObjects id none
    clientId := Function.update s.clientId id 0 }

def destroyNetworkObject (s : ObjectStore) (id : Nat) : ObjectStore :=
  { s.forget id (decide (id ∉ s.dontParrotDeletionAcks)) with
    dontParrotDeletionAcks := s.dontParrotDeletionAcks.erase id }

def onObjectDeletion (s : ObjectStore) (id : Nat) (isRemote : Bool) : ObjectStore := s.forget id !isRemote

def deleteObjectId (s : ObjectStore) (id uniqifier : Nat) : ObjectStore :=
  if id ∈ s.savedEntities ∧ s.answer.localPlayerPed then s
  else
    let s := if id ∈ s.savedEntities ∧ s.answer.destroyed then s.destroyNetworkObject id else s
    { s with mercyList := s.mercyList.erase (id,uniqifier) }

def registerNetworkObject (s : ObjectStore) (id ownerId : Nat) : ObjectStore :=
  if id ∈ s.savedEntities then s
  else
    let s := s.track id (s.tracked id)
    let s := if ownerId ≠ 255 ∧ ownerId ≠ 31 then s.setClientId id s.serverNetID else s
    { s with savedEntities := insert id s.savedEntities }

def handleCloneCreate (s : ObjectStore) (msg : MsgClone) : Bool × ObjectStore :=
  if msg.named s.pendingRemoveAcks then (true,s)
  else if msg.entityType = entityTypePlayer ∧ msg.clientId ∉ s.playersByNetId then (false,s)
  else if msg.objectId ∈ s.savedEntities then
    if (s.trackedObjects msg.objectId).map TrackedObject.uniqifier = some msg.uniqifier then
      (true,s.checkMigration msg)
    else
      let s := { s with dontParrotDeletionAcks := insert msg.objectId s.dontParrotDeletionAcks }
      (false,s.deleteObjectId msg.objectId msg.uniqifier)
  else
    let s := s.setClientId msg.objectId msg.clientId
    let s := s.track msg.objectId { s.tracked msg.objectId with uniqifier := msg.uniqifier }
    if !s.answer.created then (false,s)
    else if !s.answer.canApply then
      if msg.entityType = entityTypeObject ∧
          (s.answer.createdBy = some 0 ∨ s.answer.createdBy = some 2) then
        (true,{ s with mercyList := insert (msg.objectId,msg.uniqifier) s.mercyList })
      else (false,s)
    else
      let s := (s.applyToObject msg).registerNetworkObject msg.objectId 31
      -- ChangeOwner gives the object to us
      if msg.clientId = s.serverNetID ∧ !s.answer.wasLocal then (true,s.setSynced msg.objectId)
      else (true,s)

def handleRemove (s : ObjectStore) (remove : MsgRemove) : ObjectStore :=
  if remove.uniqifier ≠ 0 ∧ ∃ object ∈ s.trackedObjects remove.objectId, object.uniqifier ≠ remove.uniqifier then s
  else
    let s := if remove.stillAlive ∧ remove.objectId ∈ s.savedEntities then
        { s with dontParrotDeletionAcks := insert remove.objectId s.dontParrotDeletionAcks }
      else s
    s.deleteObjectId remove.objectId remove.uniqifier

def processRemoveAck (s : ObjectStore) (id uniqifier : Nat) : ObjectStore :=
  let kept := s.pendingRemoveAcks.filter (fun key => key.1 ≠ id ∨ (uniqifier ≠ 0 ∧ key.2 ≠ uniqifier))
  { s with pendingRemoveAcks := kept }

end ObjectStore

def objectGame : Game ObjectStore where
  handleCloneCreate s msg := ((s.handleCloneCreate msg).1,(s.handleCloneCreate msg).2.nextAnswer)
  handleCloneUpdate s frame msg :=
    let handled := s.handleCloneUpdate frame.frameIndex.toNat msg
    (handled.ack,handled.store.nextAnswer)
  lastFrameUpdated := ObjectStore.lastFrame
  handleRemove s remove := (s.handleRemove remove).nextAnswer

inductive ClientEvent where
  | packet (arrival : Arrival)
  | registered (id ownerId : Nat)
  | destroyed (id : Nat)
  | deleted (id : Nat) (isRemote : Bool)
  | synced (id : Nat)
  | disowned (id : Nat)
  | removeAcked (id uniqifier : Nat)
  | joined (player : Nat)
  | left (player : Nat)
  | reset

abbrev Client := CloneManager ObjectStore

def Client.change (m : Client) (f : ObjectStore → ObjectStore) : Client :=
  { m with game := (f m.game).nextAnswer }

def Client.step (reader : Reader) (m : Client) : ClientEvent → Client
  | .packet arrival => handleCloneSync reader objectGame m arrival
  | .registered id ownerId => m.change (ObjectStore.registerNetworkObject · id ownerId)
  | .destroyed id => m.change (ObjectStore.destroyNetworkObject · id)
  | .deleted id isRemote => m.change (ObjectStore.onObjectDeletion · id isRemote)
  | .synced id => m.change (ObjectStore.setSynced · id)
  | .disowned id => m.change (ObjectStore.setClientId · id (2^16 - 1))
  | .removeAcked id uniqifier => m.change (ObjectStore.processRemoveAck · id uniqifier)
  | .joined player => m.change (fun s => { s with playersByNetId := insert player s.playersByNetId })
  | .left player => m.change (fun s => { s with playersByNetId := s.playersByNetId.erase player })
  | .reset =>
      { m.change (fun s => { s with pendingRemoveAcks := ∅, mercyList := ∅ }) with
        lastReceivedFrame := ⟨false,0,0⟩ }

def Client.clonesOf (reader : Reader) (m : Client) (arrival : Arrival) : List MsgClone :=
  let msg := MsgPackedClones.read reader arrival.packet
  if arrival.objectMgr ∧ checkFrames m.lastReceivedFrame (.ofFull msg.frameIndex) ≠ .cooked then msg.clones
  else []

def Client.atFrame (reader : Reader) (m : Client) (arrival : Arrival) : Client :=
  { m with lastReceivedFrame := .ofFull (MsgPackedClones.read reader arrival.packet).frameIndex }

def AtUpdates (reader : Reader) (ok : ObjectStore → Nat → MsgClone → Prop) (m : Client) : ClientEvent → Prop
  | .packet arrival =>
      Along (handleClone objectGame)
        (fun m clone => clone.syncType = 2 → ok m.game m.lastReceivedFrame.frameIndex.toNat clone)
        (m.atFrame reader arrival) (m.clonesOf reader arrival)
  | _ => True

section
variable {s : ObjectStore} {frameIndex : Nat} {msg : MsgClone}

@[simp] theorem lastFrameTrack (id : Nat) (object : TrackedObject) :
    (s.track id object).lastFrame id = object.lastFrameUpdated := by
  simp [ObjectStore.lastFrame,ObjectStore.tracked,ObjectStore.track]

theorem checkMigrationFields : (s.checkMigration msg).applied = s.applied ∧
      (s.checkMigration msg).lastFrame msg.objectId = s.lastFrame msg.objectId := by
  unfold ObjectStore.checkMigration
  split
  · simp only
    split
    · exact ⟨rfl,lastFrameTrack msg.objectId _⟩
    · exact ⟨rfl,rfl⟩
  · exact ⟨rfl,rfl⟩

structure Reaches (s : ObjectStore) (msg : MsgClone) : Prop where
  wanted : msg.named s.mercyList = false
  saved : msg.objectId ∈ s.savedEntities
  instance_ : (s.tracked msg.objectId).uniqifier = msg.uniqifier ∨
    complement (s.tracked msg.objectId).uniqifier = msg.uniqifier
  current : msg.dependentFrameIndex ≤ s.lastFrame msg.objectId

def OwnerKnown (s : ObjectStore) (_ : Nat) (msg : MsgClone) : Prop :=
  Reaches s msg → s.clientId msg.objectId ≠ s.serverNetID → msg.cloneData ≠ [] →
    msg.clientId ∈ s.playersByNetId

structure UpdateSound (s : ObjectStore) (frameIndex : Nat) (msg : MsgClone) : Prop where
  applied : (s.handleCloneUpdate frameIndex msg).store.lastFrame msg.objectId = frameIndex →
    -- or the frame is set a second time
    s.lastFrame msg.objectId ≠ frameIndex ∨ (s.handleCloneUpdate frameIndex msg).advanced →
    s.clientId msg.objectId ≠ s.serverNetID → msg.cloneData ≠ [] →
    (s.handleCloneUpdate frameIndex msg).store.applied = s.applied ++ [msg]
  early : s.lastFrame msg.objectId < msg.dependentFrameIndex →
    (s.handleCloneUpdate frameIndex msg).store.applied = s.applied
  resent : (s.handleCloneUpdate frameIndex msg).ack ≠ .ok →
    (s.handleCloneUpdate frameIndex msg).store.lastFrame msg.objectId = s.lastFrame msg.objectId

theorem handledCases {handled : ObjectStore.Handled} (result : s.handleCloneUpdate frameIndex msg = handled) :
    ((Reaches s msg → msg.clientId ∈ s.playersByNetId) ∧ handled.advanced = false ∧
      handled.store.applied = s.applied ∧ handled.store.lastFrame msg.objectId = s.lastFrame msg.objectId) ∨
    (Reaches s msg ∧ handled.advanced = true ∧ handled.ack = .ok ∧ handled.store.lastFrame msg.objectId = frameIndex ∧
      (msg.cloneData ≠ [] ∧ msg.clientId ∈ s.playersByNetId ∧ handled.store.applied = s.applied ++ [msg] ∨
        (s.clientId msg.objectId = s.serverNetID ∨ msg.cloneData = [] ∨ msg.clientId ∉ s.playersByNetId) ∧
          handled.store.applied = s.applied)) := by
  subst result
  unfold ObjectStore.handleCloneUpdate
  split
  · rename_i listed
    refine .inl ⟨fun reaches => ?_,rfl,rfl,rfl⟩
    rw [reaches.wanted] at listed
    contradiction
  rename_i wanted
  split
  · rename_i unsaved
    split <;> exact .inl ⟨fun reaches => absurd reaches.saved unsaved,rfl,rfl,rfl⟩
  rename_i saved
  simp only
  split
  · rename_i other
    have missed : ¬ Reaches s msg := fun reaches => reaches.instance_.elim other.1 other.2
    split <;> exact .inl ⟨fun reaches => absurd reaches missed,rfl,rfl,lastFrameTrack _ _⟩
  rename_i same
  split
  · rename_i early
    exact .inl ⟨fun reaches => absurd reaches.current (Nat.not_le.mpr early),rfl,rfl,lastFrameTrack _ _⟩
  rename_i current
  have reaches : Reaches s msg :=
    ⟨by simpa using wanted,not_not.mp saved,by rw [not_and_or,not_not,not_not] at same; exact same,
      Nat.not_lt.mp current⟩
  split
  · rename_i owned
    refine .inr ⟨reaches,rfl,rfl,lastFrameTrack _ _,.inr ⟨.inl ?_,rfl⟩⟩
    exact owned.2.1.trans owned.1
  split
  · rename_i known
    split
    · refine .inr ⟨reaches,rfl,rfl,?_,.inl ⟨known.1,known.2,?_⟩⟩
      · exact checkMigrationFields.2.trans (lastFrameTrack _ _)
      · exact checkMigrationFields.1
    · exact .inl ⟨fun _ => known.2,rfl,rfl,lastFrameTrack _ _⟩
  · rename_i unknown
    refine .inr ⟨reaches,rfl,rfl,?_,.inr ⟨.inr ?_,checkMigrationFields.1⟩⟩
    · exact checkMigrationFields.2.trans (lastFrameTrack _ _)
    · rw [not_and_or,not_not] at unknown
      exact unknown

theorem updateSoundIff : UpdateSound s frameIndex msg ↔ OwnerKnown s frameIndex msg := by
  rcases @handledCases s frameIndex msg _ rfl with
    ⟨known,still,skipped,same⟩ | ⟨reaches,advanced,ok,moved,⟨-,known,applied⟩ | ⟨cause,skipped⟩⟩
  · refine ⟨fun _ reaches _ _ => known reaches,fun _ => ⟨fun moved fresh => ?_,fun _ => skipped,fun _ => same⟩⟩
    rcases fresh with fresh | advanced
    · exact absurd (same.symm.trans moved) fresh
    · rw [still] at advanced
      contradiction
  · refine ⟨fun _ _ _ _ => known,fun _ => ⟨fun _ _ _ _ => applied,fun early => ?_,fun resent => absurd ok resent⟩⟩
    exact absurd reaches.current (Nat.not_le.mpr early)
  · constructor
    · intro sound _ other content
      have applied := sound.applied moved (.inr advanced) other content
      rw [skipped] at applied
      exact absurd (congrArg List.length applied) (by simp)
    · intro known
      refine ⟨fun _ _ other content => ?_,fun _ => skipped,fun resent => absurd ok resent⟩
      have owner := known reaches other content
      rcases cause with mine | empty | unknown
      · exact absurd mine other
      · exact absurd empty content
      · exact absurd owner unknown

end

theorem atUpdatesIff {reader : Reader} {ok ok' : ObjectStore → Nat → MsgClone → Prop}
    (same : ∀ s frameIndex msg, ok s frameIndex msg ↔ ok' s frameIndex msg) (m : Client) (e : ClientEvent) :
    AtUpdates reader ok m e ↔ AtUpdates reader ok' m e := by
  cases e with
  | packet arrival =>
    exact alongIff (fun m clone => imp_congr_right (fun _ => same m.game _ clone))
  | _ => exact Iff.rfl

theorem updatesSound (reader : Reader) (m : Client) (events : List ClientEvent) :
    Along (Client.step reader) (AtUpdates reader UpdateSound) m events ↔
      Along (Client.step reader) (AtUpdates reader OwnerKnown) m events := by
  have each : ∀ m e, AtUpdates reader UpdateSound m e ↔ AtUpdates reader OwnerKnown m e :=
    atUpdatesIff (fun s frameIndex msg => updateSoundIff)
  exact alongIff each

section
def compliant : Answers := ⟨0,true,true,none,false,false,true⟩

def newcomer : Client := .init false (.init 1 (fun _ => compliant))

def createPacket : PackedClones :=
  ⟨259,[160,0,0,0,0,0,0,0,4,0,160,0,74,0,0,0,0,0,14,0,0,0,0,0,0,0,0,0,0,0,0,0,85,96,28]⟩

def updatePacket : PackedClones :=
  ⟨515,[160,0,0,0,0,0,0,0,8,0,160,0,64,0,224,0,0,0,0,0,0,0,0,0,0,0,0,5,86,1,192]⟩

def strangerEvents : List ClientEvent := [.packet ⟨createPacket,true⟩,.packet ⟨updatePacket,true⟩]

def strangerUpdate : MsgClone := ⟨2,2,5,0,0,7,0,0,[0xAB,0]⟩

def informed : Client :=
  Client.atFrame plainReader (newcomer.step plainReader (.packet ⟨createPacket,true⟩)) ⟨updatePacket,true⟩

theorem updateSkipped : ¬ Along (Client.step plainReader) (AtUpdates plainReader UpdateSound) newcomer
    strangerEvents := by
  intro sound
  have clones : (newcomer.step plainReader (.packet ⟨createPacket,true⟩)).clonesOf plainReader
      ⟨updatePacket,true⟩ = [strangerUpdate] := by decide +kernel
  have received := sound.2.1
  rw [AtUpdates,clones] at received
  have update : UpdateSound informed.game 2 strangerUpdate := received.1 rfl
  have applied := update.applied (by decide +kernel) (.inl (by decide +kernel)) (by decide +kernel) (by decide)
  have skipped : (informed.game.handleCloneUpdate 2 strangerUpdate).store.applied = informed.game.applied := by
    decide +kernel
  rw [skipped] at applied
  exact absurd (congrArg List.length applied) (by simp)

end

end Citizen.Clone
