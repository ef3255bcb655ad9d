import Mathlib.Data.Finset.Sort
import Citizen.Lib.Table

/-! The state of `ServerGameState`: entities, what each client's `GameStateClientData`
holds, the object id sets, and the client registry as far as the game state reads it.
An entity or a client is a number that is never given out twice; the weak pointers to a
client are emptied when it is freed. Of a sync tree only what the server asks it is kept. -/
namespace Citizen.State

abbrev ClientId := Nat
abbrev Slot := Nat
abbrev EntityRef := Nat
abbrev IdentPair := Nat × Nat

inductive NetObjEntityType where
  | Automobile | Bike | Boat | Door | Heli | Object | Ped | Pickup | PickupPlacement | Plane
  | Submarine | Player | Trailer | Train
  deriving DecidableEq, Repr

def NetObjEntityType.isVehicle : NetObjEntityType → Bool
  | Automobile | Bike | Boat | Heli | Plane | Submarine | Trailer | Train => true
  | _ => false

inductive EntityOrphanMode where
  | DeleteWhenNotRelevant | DeleteOnOwnerDisconnect | KeepEntity
  deriving DecidableEq, Repr

inductive SyncStyle where
  | NAK | ARQ
  deriving DecidableEq, Repr

structure TrainState where
  isEngine : Bool
  engineCarriage : Nat
  linkedToBackwardId : Nat
  deriving DecidableEq, Repr

structure SyncTree where
  scriptHash : Nat
  atOrigin : Bool
  playerOccupants : Bool
  trainState : Option TrainState
  deriving DecidableEq, Repr

-- A tree that no data was parsed into: `GetPosition` leaves the origin.
def SyncTree.empty : SyncTree := ⟨0,true,false,none⟩

structure SyncEntityState where
  type : NetObjEntityType
  timestamp : Nat
  lastOutOfBandTimestamp : Nat
  lastFrameIndex : Nat
  uniqifier : Nat
  creationToken : Nat
  routingBucket : Nat
  relevantTo : Finset Slot
  deletedFor : Finset Slot
  outOfScopeFor : Finset Slot
  lastFramesSent : Slot → Nat
  lastFramesPreSent : Slot → Nat
  lastMigratedAt : Nat
  syncTree : SyncTree
  handle : Nat
  deleting : Bool
  finalizing : Bool
  hasSynced : Bool
  passedFilter : Bool
  wantsReassign : Bool
  firstOwnerDropped : Bool
  orphanMode : EntityOrphanMode
  client : Option ClientId
  lastOwner : Option ClientId
  firstOwner : Option ClientId

namespace SyncEntityState

def fresh (type : NetObjEntityType) (handle uniqifier creationToken : Nat) (syncTree : SyncTree) :
    SyncEntityState where
  type := type
  timestamp := 0
  lastOutOfBandTimestamp := 0
  lastFrameIndex := 0
  uniqifier := uniqifier
  creationToken := creationToken
  routingBucket := 0
  relevantTo := ∅
  deletedFor := ∅
  outOfScopeFor := ∅
  lastFramesSent := fun _ => 0
  lastFramesPreSent := fun _ => 0
  lastMigratedAt := 0
  syncTree := syncTree
  handle := handle
  deleting := false
  finalizing := false
  hasSynced := false
  passedFilter := false
  wantsReassign := false
  firstOwnerDropped := false
  orphanMode := .DeleteWhenNotRelevant
  client := none
  lastOwner := none
  firstOwner := none

def IsOwnedByScript (e : SyncEntityState) : Bool := e.syncTree.scriptHash != 0
def IsOwnedByClientScript (e : SyncEntityState) : Bool :=
  e.syncTree.scriptHash != 0 && e.creationToken == 0
def IsOwnedByServerScript (e : SyncEntityState) : Bool :=
  e.syncTree.scriptHash != 0 && e.creationToken != 0
def ShouldServerKeepEntity (e : SyncEntityState) : Bool :=
  e.IsOwnedByServerScript || e.orphanMode == .KeepEntity

def ident (e : SyncEntityState) : IdentPair := (e.handle,e.uniqifier)

def forget (c : ClientId) (e : SyncEntityState) : SyncEntityState :=
  { e with
    client := e.client.filter (· != c)
    lastOwner := e.lastOwner.filter (· != c)
    firstOwner := e.firstOwner.filter (· != c) }

end SyncEntityState

structure ClientEntityData where
  entityWeak : EntityRef
  lastSent : Nat
  isCreated : Bool
  deriving DecidableEq, Repr

structure EntityDeletionData where
  outOfScope : Bool
  forceSteal : Bool
  deriving DecidableEq, Repr

structure ClientEntityState where
  syncedEntities : Table Nat ClientEntityData
  deletions : List (IdentPair × EntityDeletionData)

structure SyncedEntityData where
  nextSync : Int
  syncDelta : Int
  entity : EntityRef
  forceUpdate : Bool
  hasCreated : Bool
  hasNAckedCreate : Bool
  deriving DecidableEq, Repr

def maxSavedClientFrames : Nat := 650
def maxSavedClientFramesWorstCase : Nat := 60000 / 15
def MaxObjectId : Nat := 2^16 - 1
def MAX_CLIENTS : Nat := 2048 + 1

structure GameStateClientData where
  objectIds : Finset Nat
  playerEntity : Option EntityRef
  pendingCreates : Table IdentPair Nat
  frameStates : Table Nat ClientEntityState
  firstSavedFrameState : Nat
  playersToSlots : Table ClientId Nat
  playersInScope : Finset Nat
  syncedEntities : Table IdentPair SyncedEntityData
  entitiesToDestroy : Table IdentPair (Option EntityRef × EntityDeletionData)
  syncTs : Nat
  ackTs : Nat
  fidx : Nat
  routingBucket : Nat

def GameStateClientData.init : GameStateClientData :=
  ⟨∅,none,∅,∅,0,∅,∅,∅,∅,0,0,0,0⟩

inductive SentRecord where
  | remove (client : ClientId) (frame objectId uniqifier : Nat) (forceSteal : Bool)
  | sync (client : ClientId) (frame syncType : Nat) (entity : EntityRef) (base : Nat)
      (first mayWrite : Bool)
  deriving DecidableEq, Repr

structure Server where
  bigMode : Bool
  lengthHack : Bool
  frameIndex : Nat
  syncStyle : SyncStyle
  lastUpdateSlot : Slot
  objectIdsSent : Finset Nat
  objectIdsUsed : Finset Nat
  objectIdsStolen : Finset Nat
  entityList : List EntityRef
  entitiesById : Nat → Option EntityRef
  entity : EntityRef → SyncEntityState
  nextEntity : EntityRef
  registry : List ClientId
  dropping : Finset ClientId
  slotId : ClientId → Option Slot
  drops : List (ClientId × Option Slot)
  removals : List EntityRef
  nextNetId : ClientId
  data : ClientId → GameStateClientData
  sent : List SentRecord

namespace Server

def initSlot (bigMode : Bool) : Slot := (if bigMode then MAX_CLIENTS else 129) - 1

def init (bigMode lengthHack : Bool) : Server where
  bigMode := bigMode
  lengthHack := lengthHack
  frameIndex := 1
  syncStyle := .NAK
  lastUpdateSlot := initSlot bigMode
  objectIdsSent := ∅
  objectIdsUsed := ∅
  objectIdsStolen := ∅
  entityList := []
  entitiesById := fun _ => none
  entity := fun _ => .fresh .Object 0 0 0 .empty
  nextEntity := 0
  registry := []
  dropping := ∅
  slotId := fun _ => none
  drops := []
  removals := []
  nextNetId := 1
  data := fun _ => .init
  sent := []

def modifyEntity (s : Server) (e : EntityRef) (f : SyncEntityState → SyncEntityState) : Server :=
  { s with entity := Function.update s.entity e (f (s.entity e)) }

def modifyData (s : Server) (c : ClientId) (f : GameStateClientData → GameStateClientData) : Server :=
  { s with data := Function.update s.data c (f (s.data c)) }

def setSynced (s : Server) (c : ClientId) (t : Table IdentPair SyncedEntityData) : Server :=
  s.modifyData c (fun d => { d with syncedEntities := t })

def setToDestroy (s : Server) (c : ClientId) (t : Table IdentPair (Option EntityRef × EntityDeletionData)) : Server :=
  s.modifyData c (fun d => { d with entitiesToDestroy := t })

def allClients (s : Server) : List ClientId := s.registry.filter (fun c => c ∉ s.dropping)

def GetClientBySlotID (s : Server) (slot : Slot) : Option ClientId :=
  s.registry.find? (fun c => s.slotId c = some slot)

def inMemory (s : Server) : List ClientId := s.registry ++ s.drops.map Prod.fst

def GetEntity (s : Server) (objectId : Nat) : Option EntityRef := s.entitiesById objectId

def holds (s : Server) (c : ClientId) (e : EntityRef) : Bool :=
  (s.data c).syncedEntities.entries.any (fun entry => entry.2.entity = e) ||
    (s.data c).entitiesToDestroy.entries.any (fun entry => entry.2.1 = some e)

def alive (s : Server) (e : EntityRef) : Bool :=
  s.entityList.contains e || s.inMemory.any (fun c => s.holds c e)

section
variable (s : Server) (e e' : EntityRef) (c c' : ClientId)

@[simp] theorem entityModifySelf (f) : (s.modifyEntity e f).entity e = f (s.entity e) :=
  Function.update_self ..

theorem entityModifyOther {e e' : EntityRef} (other : e' ≠ e) (f) : (s.modifyEntity e f).entity e' = s.entity e' :=
  Function.update_of_ne other ..

theorem entityModify (f) :
    (s.modifyEntity e f).entity e' = if e' = e then f (s.entity e') else s.entity e' := by
  split
  · rename_i same
    subst same
    exact entityModifySelf ..
  · rename_i other
    exact entityModifyOther _ other _

theorem entityModifyKeeps {α : Type} {part : SyncEntityState → α} {f} (kept : ∀ x, part (f x) = part x) :
    part ((s.modifyEntity e f).entity e') = part (s.entity e') := by
  rw [entityModify]
  split
  · exact kept _
  · rfl

@[simp] theorem dataModifySelf (f) : (s.modifyData c f).data c = f (s.data c) :=
  Function.update_self ..

theorem dataModifyOther {c c' : ClientId} (other : c' ≠ c) (f) : (s.modifyData c f).data c' = s.data c' :=
  Function.update_of_ne other ..

theorem dataModify (f) :
    (s.modifyData c f).data c' = if c' = c then f (s.data c') else s.data c' := by
  split
  · rename_i same
    subst same
    exact dataModifySelf ..
  · rename_i other
    exact dataModifyOther _ other _

theorem dataModifyKeeps {α : Type} {part : GameStateClientData → α} {f} (kept : ∀ x, part (f x) = part x) :
    part ((s.modifyData c f).data c') = part (s.data c') := by
  rw [dataModify]
  split
  · exact kept _
  · rfl

end

theorem slotOfGetClient {s : Server} {slot c} (found : s.GetClientBySlotID slot = some c) :
    c ∈ s.registry ∧ s.slotId c = some slot :=
  ⟨List.mem_of_find?_eq_some found,by simpa using List.find?_some found⟩

end Server
end Citizen.State
