import Citizen.Lib.Text
import Citizen.Sync.Serializers
import Mathlib.Data.Fintype.Basic

/-! `CVehicleAppearanceDataNode`: how a vehicle looks, as its owner sends it. -/
namespace Citizen.Sync.VehicleAppearance
open BitField (bitAt widthOf)
open Rl
open Serial

inductive Flag where
  | isPrimaryColourRGB
  | isSecondaryColourRGB
  | hasExtras
  | hasCustomLivery
  | hasCustomRoofLivery
  | hasMod
  | hasToggleMods
  | hasDifferentRearWheel
  | hasCustomTires
  | hasWheelVariation1
  | hasWindowTint
  | hasTyreSmokeColours
  | hasPlate
  | hasEmblems
  | isEmblem
  | isSizeModified
  | hasBadge
  | hasNeonLights
  | neonLeftOn
  | neonRightOn
  | neonFrontOn
  | neonBackOn
  | isNeonSuppressed
  deriving DecidableEq

structure Colours where
  primaryColour : BitVec 32
  secondaryColour : BitVec 32
  pearlColour : BitVec 32
  wheelColour : BitVec 32
  interiorColour : BitVec 32
  dashboardColour : BitVec 32

structure PrimaryRGB where
  isPrimaryColourRGB : Bool
  primaryRedColour : BitVec 32
  primaryGreenColour : BitVec 32
  primaryBlueColour : BitVec 32

structure SecondaryRGB where
  isSecondaryColourRGB : Bool
  secondaryRedColour : BitVec 32
  secondaryGreenColour : BitVec 32
  secondaryBlueColour : BitVec 32

structure Livery where
  hasCustomLivery : Bool
  liveryIndex : BitVec 32

structure RoofLivery where
  hasCustomRoofLivery : Bool
  roofLiveryIndex : BitVec 32

structure Extras extends Livery, RoofLivery where
  envEffScale : BitVec 32
  hasExtras : Bool
  dirtLevel : BitVec 32
  extras : BitVec 32
  hasCustomLiveryIndex : Bool

structure Mods where
  hasMod : Bool
  kitMods : Fin 32 → BitVec 32

structure ToggleMods where
  hasToggleMods : Bool
  toggleMods : BitVec 32

structure RearWheel where
  hasDifferentRearWheel : Bool
  rearWheelChoice : BitVec 32

structure Kit extends Mods, ToggleMods, RearWheel where
  kitIndex : BitVec 32
  wheelChoice : BitVec 32
  wheelType : BitVec 32
  hasCustomTires : Bool
  hasWheelVariation1 : Bool

structure WindowTint where
  hasWindowTint : Bool
  windowTintIndex : BitVec 32

structure TyreSmoke where
  hasTyreSmokeColours : Bool
  tyreSmokeRedColour : BitVec 32
  tyreSmokeGreenColour : BitVec 32
  tyreSmokeBlueColour : BitVec 32

structure Plate where
  hasPlate : Bool
  plate : Fin 9 → BitVec 8

structure Hashes where
  numberPlateTextIndex : BitVec 32
  hornTypeHash : BitVec 32

structure Badge where
  hasBadge : Bool
  badgeBoneIndex : BitVec 32
  badgeAlpha : BitVec 32
  badgeOffsetX : Nat
  badgeOffsetY : Nat
  badgeOffsetZ : Nat
  badgeDirX : Nat
  badgeDirY : Nat
  badgeDirZ : Nat
  badgeSideX : Nat
  badgeSideY : Nat
  badgeSideZ : Nat
  badgeSize : Nat

structure Emblem where
  isEmblem : Bool
  emblemType : BitVec 32
  emblemId : BitVec 32
  isSizeModified : Bool
  emblemSize : BitVec 32
  txdName : BitVec 32
  textureName : BitVec 32

structure Emblems extends Emblem where
  hasEmblems : Bool
  badges : Fin 4 → Badge
  strays : List Nat

structure Neon where
  hasNeonLights : Bool
  neonRedColour : BitVec 32
  neonGreenColour : BitVec 32
  neonBlueColour : BitVec 32
  neonLeftOn : Bool
  neonRightOn : Bool
  neonFrontOn : Bool
  neonBackOn : Bool
  isNeonSuppressed : Bool

structure CVehicleAppearanceNodeData extends
  Colours, PrimaryRGB, SecondaryRGB, Extras, Kit, WindowTint, TyreSmoke, Plate, Hashes, Emblems, Neon

def Colours.Serialize (data : Colours) : Serial Flag Colours := do
  let primaryColour ← Serial.Serialize 8 data.primaryColour
  let secondaryColour ← Serial.Serialize 8 data.secondaryColour
  let pearlColour ← Serial.Serialize 8 data.pearlColour
  let wheelColour ← Serial.Serialize 8 data.wheelColour
  let interiorColour ← Serial.Serialize 8 data.interiorColour
  let dashboardColour ← Serial.Serialize 8 data.dashboardColour
  return { primaryColour,secondaryColour,pearlColour,wheelColour,interiorColour,dashboardColour }

def PrimaryRGB.Serialize (data : PrimaryRGB) : Serial Flag PrimaryRGB := do
  let isPrimaryColourRGB ← SerializeBit .isPrimaryColourRGB data.isPrimaryColourRGB
  if isPrimaryColourRGB then
    let primaryRedColour ← Serial.Serialize 8 data.primaryRedColour
    let primaryGreenColour ← Serial.Serialize 8 data.primaryGreenColour
    let primaryBlueColour ← Serial.Serialize 8 data.primaryBlueColour
    return { isPrimaryColourRGB,primaryRedColour,primaryGreenColour,primaryBlueColour }
  else return { data with isPrimaryColourRGB }

def SecondaryRGB.Serialize (data : SecondaryRGB) : Serial Flag SecondaryRGB := do
  let isSecondaryColourRGB ← SerializeBit .isSecondaryColourRGB data.isSecondaryColourRGB
  if isSecondaryColourRGB then
    let secondaryRedColour ← Serial.Serialize 8 data.secondaryRedColour
    let secondaryGreenColour ← Serial.Serialize 8 data.secondaryGreenColour
    let secondaryBlueColour ← Serial.Serialize 8 data.secondaryBlueColour
    return { isSecondaryColourRGB,secondaryRedColour,secondaryGreenColour,secondaryBlueColour }
  else return { data with isSecondaryColourRGB }

def Livery.Serialize (data : Livery) : Serial Flag Livery := do
  let hasCustomLivery ← SerializeBit .hasCustomLivery data.hasCustomLivery
  if hasCustomLivery then
    let liveryIndex ← Serial.Serialize 5 data.liveryIndex
    return { hasCustomLivery,liveryIndex }
  else return { hasCustomLivery,liveryIndex := 0 }

def RoofLivery.Serialize (data : RoofLivery) : Serial Flag RoofLivery := do
  let hasCustomRoofLivery ← SerializeBit .hasCustomRoofLivery data.hasCustomRoofLivery
  if hasCustomRoofLivery then
    let roofLiveryIndex ← Serial.Serialize 5 data.roofLiveryIndex
    return { hasCustomRoofLivery,roofLiveryIndex }
  else return { hasCustomRoofLivery,roofLiveryIndex := 0 }

def Extras.Serialize (data : Extras) : Serial Flag Extras := do
  let envEffScale ← Serial.Serialize 8 data.envEffScale
  let hasExtras ← SerializeBit .hasExtras data.hasExtras
  if hasExtras then
    let dirtLevel ← Serial.Serialize 5 data.dirtLevel
    let extras ← Serial.Serialize 16 data.extras
    let livery ← data.toLivery.Serialize
    let roofLivery ← data.toRoofLivery.Serialize
    return { livery,roofLivery with envEffScale,hasExtras,dirtLevel,extras,hasCustomLiveryIndex := data.hasCustomLiveryIndex }
  else
    return { data with
      envEffScale
      hasExtras
      dirtLevel := 1
      hasCustomLivery := false
      hasCustomLiveryIndex := false
      liveryIndex := -1
      roofLiveryIndex := -1
      extras := 0 }

def Mods.Serialize : List (Fin 32) → Mods → Serial Flag Mods
  | [],data => return data
  | i :: rest,data => do
    let hasMod ← SerializeBit .hasMod data.hasMod
    if hasMod then
      let mod ← Serial.Serialize 32 (data.kitMods i)
      Mods.Serialize rest { hasMod,kitMods := Function.update data.kitMods i mod }
    else Mods.Serialize rest { hasMod,kitMods := Function.update data.kitMods i 0 }

def ToggleMods.Serialize (data : ToggleMods) : Serial Flag ToggleMods := do
  let hasToggleMods ← SerializeBit .hasToggleMods data.hasToggleMods
  if hasToggleMods then
    let toggleMods ← Serial.Serialize 6 data.toggleMods
    return { hasToggleMods,toggleMods }
  else return { hasToggleMods,toggleMods := 0 }

def RearWheel.Serialize (data : RearWheel) : Serial Flag RearWheel := do
  let hasDifferentRearWheel ← SerializeBit .hasDifferentRearWheel data.hasDifferentRearWheel
  if hasDifferentRearWheel then
    let rearWheelChoice ← Serial.Serialize 8 data.rearWheelChoice
    return { hasDifferentRearWheel,rearWheelChoice }
  else return { hasDifferentRearWheel,rearWheelChoice := 0 }

theorem modsKept : 13 ≤ 32 := by decide

def modIndices : List (Fin 32) := (List.finRange 13).map (Fin.castLE modsKept)

def Kit.Serialize (data : Kit) : Serial Flag Kit := do
  let kitIndex ← Serial.Serialize 2 data.kitIndex
  if kitIndex ≠ 0 then
    let mods ← data.toMods.Serialize modIndices
    let toggleMods ← data.toToggleMods.Serialize
    let wheelChoice ← Serial.Serialize 8 data.wheelChoice
    let wheelType ← Serial.Serialize 4 data.wheelType
    let rearWheel ← data.toRearWheel.Serialize
    let hasCustomTires ← SerializeBit .hasCustomTires data.hasCustomTires
    let hasWheelVariation1 ← SerializeBit .hasWheelVariation1 data.hasWheelVariation1
    return { mods,toggleMods,rearWheel with kitIndex,wheelChoice,wheelType,hasCustomTires,hasWheelVariation1 }
  else
    return { data with
      kitIndex
      kitMods := fun i => if i.val < 13 then 0 else data.kitMods i
      toggleMods := 0
      wheelChoice := 0
      rearWheelChoice := 0
      wheelType := 255
      hasCustomTires := false
      hasWheelVariation1 := false }

def WindowTint.Serialize (data : WindowTint) : Serial Flag WindowTint := do
  let hasWindowTint ← SerializeBit .hasWindowTint data.hasWindowTint
  if hasWindowTint then
    let windowTintIndex ← Serial.Serialize 8 data.windowTintIndex
    return { hasWindowTint,windowTintIndex }
  else return { hasWindowTint,windowTintIndex := 0 }

def TyreSmoke.Serialize (data : TyreSmoke) : Serial Flag TyreSmoke := do
  let hasTyreSmokeColours ← SerializeBit .hasTyreSmokeColours data.hasTyreSmokeColours
  if hasTyreSmokeColours then
    let tyreSmokeRedColour ← Serial.Serialize 8 data.tyreSmokeRedColour
    let tyreSmokeGreenColour ← Serial.Serialize 8 data.tyreSmokeGreenColour
    let tyreSmokeBlueColour ← Serial.Serialize 8 data.tyreSmokeBlueColour
    return { hasTyreSmokeColours,tyreSmokeRedColour,tyreSmokeGreenColour,tyreSmokeBlueColour }
  else
    return { hasTyreSmokeColours,tyreSmokeRedColour := 255,tyreSmokeGreenColour := 255,tyreSmokeBlueColour := 255 }

def Plate.Characters : List (Fin 9) → Plate → Serial Flag Plate
  | [],data => return data
  | i :: rest,data =>
    if data.hasPlate then do
      let character ← SerializeChar 7 (data.plate i)
      Plate.Characters rest { data with plate := Function.update data.plate i character }
    else Plate.Characters rest { data with plate := Function.update data.plate i (byte ' ') }

def plateIndices : List (Fin 9) := (List.finRange 8).map (Fin.castLE (by decide))

def Plate.Serialize (data : Plate) : Serial Flag Plate := do
  let hasPlate ← SerializeBit .hasPlate data.hasPlate
  Plate.Characters plateIndices { data with hasPlate }

def Hashes.Serialize (data : Hashes) : Serial Flag Hashes := do
  let numberPlateTextIndex ← Serial.Serialize 32 data.numberPlateTextIndex
  let hornTypeHash ← Serial.Serialize 32 data.hornTypeHash
  return { numberPlateTextIndex,hornTypeHash }

def Emblem.Serialize (data : Emblem) : Serial Flag Emblem := do
  let isEmblem ← SerializeBit .isEmblem data.isEmblem
  if isEmblem then
    let txdName ← Serial.Serialize 32 data.txdName
    let textureName ← Serial.Serialize 32 data.textureName
    return { data with isEmblem,txdName,textureName,emblemType := -1,emblemId := 0,emblemSize := 2 }
  else
    let emblemType ← Serial.Serialize 1 data.emblemType
    let emblemId ← Serial.Serialize 32 data.emblemId
    let isSizeModified ← SerializeBit .isSizeModified data.isSizeModified
    let emblemSize ← Serial.Serialize 3 data.emblemSize
    return { data with isEmblem,emblemType,emblemId,isSizeModified,emblemSize }

def Badge.Serialize (data : Badge) : Serial Flag Badge := do
  let hasBadge ← SerializeBit .hasBadge data.hasBadge
  if hasBadge then
    let badgeBoneIndex ← Serial.Serialize 10 data.badgeBoneIndex
    let badgeAlpha ← Serial.Serialize 8 data.badgeAlpha
    let badgeOffsetX ← SerializeFloat 14 data.badgeOffsetX
    let badgeOffsetY ← SerializeFloat 14 data.badgeOffsetY
    let badgeOffsetZ ← SerializeFloat 10 data.badgeOffsetZ
    let badgeDirX ← SerializeFloat 14 data.badgeDirX
    let badgeDirY ← SerializeFloat 14 data.badgeDirY
    let badgeDirZ ← SerializeFloat 10 data.badgeDirZ
    let badgeSideX ← SerializeFloat 14 data.badgeSideX
    let badgeSideY ← SerializeFloat 14 data.badgeSideY
    let badgeSideZ ← SerializeFloat 10 data.badgeSideZ
    let badgeSize ← SerializeFloat 16 data.badgeSize
    return { hasBadge,badgeBoneIndex,badgeAlpha,badgeOffsetX,badgeOffsetY,badgeOffsetZ,badgeDirX,badgeDirY,badgeDirZ,
             badgeSideX,badgeSideY,badgeSideZ,badgeSize }
  else return { data with hasBadge }

def Badges : List (Fin 4) → (Fin 4 → Badge) → Serial Flag (Fin 4 → Badge)
  | [],badges => return badges
  | i :: rest,badges => do
    let badge ← (badges i).Serialize
    Badges rest (Function.update badges i badge)

def Emblems.clearBadge (data : Emblems) (i : Nat) : Emblems :=
  if inside : i < 4 then
    { data with badges := Function.update data.badges ⟨i,inside⟩ { data.badges ⟨i,inside⟩ with hasBadge := false } }
  else { data with strays := i :: data.strays }

def Emblems.Serialize (data : Emblems) : Serial Flag Emblems := do
  let hasEmblems ← SerializeBit .hasEmblems data.hasEmblems
  if hasEmblems then
    let emblem ← data.toEmblem.Serialize
    let badges ← Badges (List.finRange 4) data.badges
    return { emblem with hasEmblems,badges,strays := data.strays }
  else return (List.range 13).foldl Emblems.clearBadge { data with hasEmblems }

def Neon.Serialize (Is2372 : Bool) (data : Neon) : Serial Flag Neon := do
  let hasNeonLights ← SerializeBit .hasNeonLights data.hasNeonLights
  if hasNeonLights then
    let neonRedColour ← Serial.Serialize 8 data.neonRedColour
    let neonGreenColour ← Serial.Serialize 8 data.neonGreenColour
    let neonBlueColour ← Serial.Serialize 8 data.neonBlueColour
    let neonLeftOn ← SerializeBit .neonLeftOn data.neonLeftOn
    let neonRightOn ← SerializeBit .neonRightOn data.neonRightOn
    let neonFrontOn ← SerializeBit .neonFrontOn data.neonFrontOn
    let neonBackOn ← SerializeBit .neonBackOn data.neonBackOn
    let isNeonSuppressed ←
      if Is2372 then SerializeBit .isNeonSuppressed data.isNeonSuppressed else pure data.isNeonSuppressed
    return { hasNeonLights,neonRedColour,neonGreenColour,neonBlueColour,neonLeftOn,neonRightOn,neonFrontOn,neonBackOn,
             isNeonSuppressed }
  else return { data with hasNeonLights }

def Serialize (Is2372 : Bool) (data : CVehicleAppearanceNodeData) : Serial Flag CVehicleAppearanceNodeData := do
  let colours ← data.toColours.Serialize
  let primary ← data.toPrimaryRGB.Serialize
  let secondary ← data.toSecondaryRGB.Serialize
  let extras ← data.toExtras.Serialize
  let kit ← data.toKit.Serialize
  let windowTint ← data.toWindowTint.Serialize
  let tyreSmoke ← data.toTyreSmoke.Serialize
  let plate ← data.toPlate.Serialize
  let hashes ← data.toHashes.Serialize
  let emblems ← data.toEmblems.Serialize
  let neon ← data.toNeon.Serialize Is2372
  return { colours,primary,secondary,extras,kit,windowTint,tyreSmoke,plate,hashes,emblems,neon with }

def Good (mods : Bool) : Token Flag → Prop
  | .number _ _ => True
  | .float _ value => value = 0
  | .bit field value => match field with
    | .hasMod => value = mods
    | .hasEmblems => value = true
    | _ => True

def Echoes {α : Type} (body : α → Serial Flag α) (t : List (Token Flag)) (data : α) : Prop :=
  written (body data) = (t,data) ∧ ∀ mods, ∀ token ∈ t, Good mods token

def Plain {α : Type} (body : α → Serial Flag α) : Prop := ∀ before t data, Reads (body before) t data → Echoes body t data

section
variable {α : Type} {field : Flag} {flag : α → Bool} {present : Bool → α → Serial Flag α} {absent : Bool → α → α}

theorem guardPlain (label : ∀ mods value, Good mods (.bit field value))
    (there : ∀ before t data, Reads (present true before) t data → flag data = true ∧ Echoes (present true) t data)
    (none : ∀ before, flag (absent false before) = false ∧ absent false (absent false before) = absent false before) :
    Plain (fun data => SerializeBit field (flag data) >>= fun b => if b = true then present b data else pure (absent b data)) := by
  intro before t data reads
  obtain ⟨value,rest,rfl,later⟩ := readsBit.mp reads
  have first : ∀ mods, Good mods (.bit field value) := fun mods => label mods value
  cases value with
  | true =>
    obtain ⟨set,same,good⟩ := there before rest data later
    refine ⟨?_,fun mods => List.forall_mem_cons.mpr ⟨first mods,good mods⟩⟩
    rw [writtenBit,set,if_pos rfl,same]
  | false =>
    obtain ⟨rfl,rfl⟩ := readsPure.mp later
    obtain ⟨unset,same⟩ := none before
    refine ⟨?_,fun mods => List.forall_mem_cons.mpr ⟨first mods,by simp⟩⟩
    rw [writtenBit,unset,if_neg Bool.false_ne_true,writtenPure,same]

end

theorem coloursPlain : Plain Colours.Serialize := by
  intro before t data reads
  simp only [Colours.Serialize,readsNumber,readsPure] at reads
  obtain ⟨a,sa,_,rfl,b,sb,_,rfl,c,sc,_,rfl,d,sd,_,rfl,e,se,_,rfl,f,sf,_,rfl,rfl,rfl⟩ := reads
  refine ⟨?_,by simp [Good]⟩
  simp only [Colours.Serialize,writtenNumber,writtenPure,Nat.mod_eq_of_lt, *]

theorem primaryPlain : Plain PrimaryRGB.Serialize := by
  refine guardPlain (fun _ _ => trivial) ?_ (fun _ => ⟨rfl,rfl⟩)
  intro before t data reads
  simp only [readsNumber,readsPure] at reads
  obtain ⟨a,sa,_,rfl,b,sb,_,rfl,c,sc,_,rfl,rfl,rfl⟩ := reads
  refine ⟨rfl,?_,by simp [Good]⟩
  simp only [writtenNumber,writtenPure,Nat.mod_eq_of_lt, *]

theorem secondaryPlain : Plain SecondaryRGB.Serialize := by
  refine guardPlain (fun _ _ => trivial) ?_ (fun _ => ⟨rfl,rfl⟩)
  intro before t data reads
  simp only [readsNumber,readsPure] at reads
  obtain ⟨a,sa,_,rfl,b,sb,_,rfl,c,sc,_,rfl,rfl,rfl⟩ := reads
  refine ⟨rfl,?_,by simp [Good]⟩
  simp only [writtenNumber,writtenPure,Nat.mod_eq_of_lt, *]

theorem smokePlain : Plain TyreSmoke.Serialize := by
  refine guardPlain (fun _ _ => trivial) ?_ (fun _ => ⟨rfl,rfl⟩)
  intro before t data reads
  simp only [readsNumber,readsPure] at reads
  obtain ⟨a,sa,_,rfl,b,sb,_,rfl,c,sc,_,rfl,rfl,rfl⟩ := reads
  refine ⟨rfl,?_,by simp [Good]⟩
  simp only [writtenNumber,writtenPure,Nat.mod_eq_of_lt, *]

theorem numberPlain {α : Type} {field : Flag} {flag : α → Bool} {size : Nat} {number : α → BitVec 32}
    {make : Bool → BitVec 32 → α} {absent : BitVec 32} (label : ∀ mods value, Good mods (.bit field value))
    (made : ∀ b value, flag (make b value) = b ∧ number (make b value) = value) :
    Plain (fun data => SerializeBit field (flag data) >>= fun b =>
      if b = true then Serial.Serialize size (number data) >>= fun value => pure (make b value) else pure (make b absent)) := by
  refine guardPlain label ?_ (fun _ => ⟨(made false absent).1,rfl⟩)
  intro before t data reads
  simp only [readsNumber,readsPure] at reads
  obtain ⟨value,small,_,rfl,rfl,rfl⟩ := reads
  refine ⟨(made true value).1,?_,by simp [Good]⟩
  rw [writtenNumber,writtenPure,(made true value).2,Nat.mod_eq_of_lt small]

theorem liveryPlain : Plain Livery.Serialize := numberPlain (fun _ _ => trivial) (fun _ _ => ⟨rfl,rfl⟩)
theorem roofLiveryPlain : Plain RoofLivery.Serialize := numberPlain (fun _ _ => trivial) (fun _ _ => ⟨rfl,rfl⟩)
theorem toggleModsPlain : Plain ToggleMods.Serialize := numberPlain (fun _ _ => trivial) (fun _ _ => ⟨rfl,rfl⟩)
theorem rearWheelPlain : Plain RearWheel.Serialize := numberPlain (fun _ _ => trivial) (fun _ _ => ⟨rfl,rfl⟩)
theorem tintPlain : Plain WindowTint.Serialize := numberPlain (fun _ _ => trivial) (fun _ _ => ⟨rfl,rfl⟩)

theorem hashesPlain : Plain Hashes.Serialize := by
  intro before t data reads
  simp only [Hashes.Serialize,readsNumber,readsPure] at reads
  obtain ⟨a,sa,_,rfl,b,sb,_,rfl,rfl,rfl⟩ := reads
  refine ⟨?_,by simp [Good]⟩
  simp only [Hashes.Serialize,writtenNumber,writtenPure,Nat.mod_eq_of_lt, *]

theorem extrasPlain : Plain Extras.Serialize := by
  intro before t data reads
  simp only [Extras.Serialize,readsNumber,readsBit] at reads
  obtain ⟨scale,ss,_,rfl,hasExtras,_,rfl,reads⟩ := reads
  cases hasExtras with
  | false =>
    simp only [readsPure,Bool.false_eq_true,if_false] at reads
    obtain ⟨rfl,rfl⟩ := reads
    refine ⟨?_,by simp [Good]⟩
    simp only [Extras.Serialize,writtenNumber,writtenBit,writtenPure,Nat.mod_eq_of_lt,Bool.false_eq_true,if_false, *]
  | true =>
    simp only [readsNumber,if_true] at reads
    obtain ⟨dirt,sd,_,rfl,extras,se,_,rfl,reads⟩ := reads
    simp only [readsBind,readsPure] at reads
    obtain ⟨first,_,livery,rfl,readsLivery,second,_,roof,rfl,readsRoof,rfl,rfl⟩ := reads
    obtain ⟨liverySame,liveryGood⟩ := liveryPlain _ _ _ readsLivery
    obtain ⟨roofSame,roofGood⟩ := roofLiveryPlain _ _ _ readsRoof
    refine ⟨?_,fun mods => ?_⟩
    · simp only [Extras.Serialize,writtenNumber,writtenBit,Nat.mod_eq_of_lt,if_true, *]
      rw [writtenBind,liverySame,writtenBind,roofSame,writtenPure,List.append_nil]
    · simp only [List.forall_mem_cons,List.forall_mem_append]
      exact ⟨trivial,trivial,trivial,trivial,liveryGood mods,roofGood mods,by simp⟩

theorem emblemPlain : Plain Emblem.Serialize := by
  intro before t data reads
  simp only [Emblem.Serialize,readsBit] at reads
  obtain ⟨isEmblem,_,rfl,reads⟩ := reads
  cases isEmblem with
  | false =>
    simp only [readsNumber,readsBit,readsPure,Bool.false_eq_true,if_false] at reads
    obtain ⟨a,sa,_,rfl,b,sb,_,rfl,modified,_,rfl,c,sc,_,rfl,rfl,rfl⟩ := reads
    refine ⟨?_,by simp [Good]⟩
    simp only [Emblem.Serialize,writtenNumber,writtenBit,writtenPure,Nat.mod_eq_of_lt,Bool.false_eq_true,if_false, *]
  | true =>
    simp only [readsNumber,readsPure,if_true] at reads
    obtain ⟨a,sa,_,rfl,b,sb,_,rfl,rfl,rfl⟩ := reads
    refine ⟨?_,by simp [Good]⟩
    simp only [Emblem.Serialize,writtenNumber,writtenBit,writtenPure,Nat.mod_eq_of_lt,if_true, *]

theorem neonPlain (Is2372 : Bool) : Plain (Neon.Serialize Is2372) := by
  refine guardPlain (fun _ _ => trivial) ?_ (fun _ => ⟨rfl,rfl⟩)
  intro before t data reads
  simp only [readsNumber,readsBit] at reads
  obtain ⟨a,sa,_,rfl,b,sb,_,rfl,c,sc,_,rfl,left,_,rfl,right,_,rfl,front,_,rfl,back,_,rfl,reads⟩ := reads
  cases Is2372 with
  | false =>
    simp only [readsPureBind,readsPure,Bool.false_eq_true,if_false] at reads
    obtain ⟨rfl,rfl⟩ := reads
    refine ⟨rfl,?_,by simp [Good]⟩
    simp only [writtenNumber,writtenBit,writtenPure,writtenPureBind,Nat.mod_eq_of_lt,Bool.false_eq_true,if_false, *]
  | true =>
    simp only [readsBit,readsPure,if_true] at reads
    obtain ⟨suppressed,_,rfl,rfl,rfl⟩ := reads
    refine ⟨rfl,?_,by simp [Good]⟩
    simp only [writtenNumber,writtenBit,writtenPure,Nat.mod_eq_of_lt,if_true, *]

/-! The loops. -/

section
variable {t w : List (Token Flag)}

theorem charactersRead {indices : List (Fin 9)} (distinct : indices.Nodup) {before data : Plate}
    (reads : Reads (Plate.Characters indices before) t data) :
    data.hasPlate = before.hasPlate ∧ (∀ j ∉ indices, data.plate j = before.plate j) ∧
      (∀ after : Plate, after.hasPlate = data.hasPlate → (∀ i ∈ indices, after.plate i = data.plate i) →
        written (Plate.Characters indices after) = (t,after)) ∧ ∀ mods, ∀ token ∈ t, Good mods token := by
  induction indices generalizing before t with
  | nil =>
    obtain ⟨rfl,rfl⟩ := readsPure.mp reads
    exact ⟨rfl,fun _ _ => rfl,fun _ _ _ => rfl,by simp⟩
  | cons i rest ih =>
    obtain ⟨fresh,distinct⟩ := List.nodup_cons.mp distinct
    unfold Plate.Characters at reads
    split at reads
    · rename_i plated
      cases reads with
      | number value small later =>
        obtain ⟨same,others,echo,good⟩ := ih distinct later
        refine ⟨same,fun j other => ?_,fun after kept agrees => ?_,fun mods => List.forall_mem_cons.mpr ⟨trivial,good mods⟩⟩
        · obtain ⟨apart,later⟩ := not_or.mp (fun mem => other (List.mem_cons.mpr mem))
          rw [others j later]
          exact Function.update_of_ne apart ..
        · obtain ⟨here,there⟩ := List.forall_mem_cons.mp agrees
          have own : after.plate i = value.setWidth 8 := by
            rw [here,others i fresh]
            exact Function.update_self ..
          have wide : ((after.plate i).setWidth 32).toNat % 2 ^ 7 = value.toNat := by
            rw [own]
            simp only [BitVec.toNat_setWidth]
            omega
          have next : { after with plate := Function.update after.plate i (((after.plate i).setWidth 32).setWidth 8) } = after := by
            have back : ((after.plate i).setWidth 32).setWidth 8 = after.plate i := by simp
            rw [back,Function.update_eq_self]
          unfold Plate.Characters
          rw [if_pos (kept.trans (same.trans plated))]
          change (Token.number 7 _ :: (written (Plate.Characters rest _)).1,(written (Plate.Characters rest _)).2) = _
          rw [wide,next,echo after kept there]
    · rename_i plated
      obtain ⟨same,others,echo,good⟩ := ih distinct reads
      refine ⟨same,fun j other => ?_,fun after kept agrees => ?_,good⟩
      · obtain ⟨apart,later⟩ := not_or.mp (fun mem => other (List.mem_cons.mpr mem))
        rw [others j later]
        exact Function.update_of_ne apart ..
      · obtain ⟨here,there⟩ := List.forall_mem_cons.mp agrees
        have own : after.plate i = byte ' ' := by
          rw [here,others i fresh]
          exact Function.update_self ..
        unfold Plate.Characters
        rw [if_neg (fun set => plated (same.symm.trans (kept.symm.trans set))),← own,Function.update_eq_self]
        exact echo after kept there

theorem platePlain : Plain Plate.Serialize := by
  intro before t data reads
  obtain ⟨value,rest,rfl,later⟩ := readsBit.mp reads
  obtain ⟨same,-,echo,good⟩ := charactersRead (by decide) later
  refine ⟨?_,fun mods => List.forall_mem_cons.mpr ⟨trivial,good mods⟩⟩
  change (Token.bit Flag.hasPlate data.hasPlate :: (written (Plate.Characters plateIndices data)).1,
    (written (Plate.Characters plateIndices data)).2) = _
  rw [echo data rfl (fun _ _ => rfl),same]

inductive Lowered : List (Token Flag) → List (Token Flag) → Prop where
  | nil : Lowered [] []
  | same {token t w} (good : ∀ mods, Good mods token) (rest : Lowered t w) : Lowered (token :: t) (token :: w)
  | float {size value t w} (small : value < 2 ^ size) (few : size ≤ 23) (rest : Lowered t w) :
      Lowered (.float size value :: t) (.float size (floatBits value % 2 ^ size) :: w)

theorem Lowered.append {t' w' : List (Token Flag)} (first : Lowered t w) (second : Lowered t' w') :
    Lowered (t ++ t') (w ++ w') := by
  induction first with
  | nil => exact second
  | same good rest ih => exact .same good ih
  | float small few rest ih => exact .float small few ih

theorem Lowered.refl (good : ∀ mods, ∀ token ∈ t, Good mods token) : Lowered t t := by
  induction t with
  | nil => exact .nil
  | cons token rest ih =>
    exact .same (fun mods => good mods token List.mem_cons_self) (ih (fun mods => (List.forall_mem_cons.mp (good mods)).2))

theorem Lowered.kept (lowered : Lowered t w) {mods : Bool} (good : ∀ token ∈ t, Good mods token) : w = t := by
  induction lowered with
  | nil => rfl
  | same _ rest ih => rw [ih (List.forall_mem_cons.mp good).2]
  | float small few rest ih =>
    obtain ⟨rfl,later⟩ := List.forall_mem_cons.mp good
    rw [ih later,floatBitsZero,Nat.zero_mod]

theorem Lowered.good (lowered : Lowered t w) {t' w' : List (Token Flag)} (same : bits (w ++ w') = bits (t ++ t')) :
    ∀ mods, ∀ token ∈ t, Good mods token := by
  induction lowered with
  | nil => simp
  | same good rest ih =>
    have cut := List.append_cancel_left same
    exact fun mods => List.forall_mem_cons.mpr ⟨good mods,ih cut mods⟩
  | float small few rest ih =>
    obtain ⟨first,later⟩ := List.append_inj same (by simp [fieldBits,Token.field])
    have zero := floatBitsLow small few (fieldBitsInj (Nat.mod_lt _ (Nat.two_pow_pos _)) small first)
    exact fun mods => List.forall_mem_cons.mpr ⟨zero,ih later mods⟩

theorem badgeRead {before data : Badge} (reads : Reads before.Serialize t data) :
    ∃ w, written data.Serialize = (w,data) ∧ Lowered t w := by
  simp only [Badge.Serialize,readsBit] at reads
  obtain ⟨hasBadge,_,rfl,reads⟩ := reads
  cases hasBadge with
  | false =>
    obtain ⟨rfl,rfl⟩ := readsPure.mp reads
    exact ⟨_,rfl,.same (fun _ => trivial) .nil⟩
  | true =>
    simp only [readsNumber,readsFloat,readsPure,if_true] at reads
    obtain ⟨bone,sb,_,rfl,alpha,sa,_,rfl,ox,sox,_,rfl,oy,soy,_,rfl,oz,soz,_,rfl,dx,sdx,_,rfl,dy,sdy,_,rfl,dz,sdz,_,rfl,
      sx,ssx,_,rfl,sy,ssy,_,rfl,sz,ssz,_,rfl,size,ssize,_,rfl,rfl,rfl⟩ := reads
    refine ⟨_,by simp only [Badge.Serialize,writtenBit,writtenNumber,writtenFloat,writtenPure,if_true]; rfl,?_⟩
    rw [Nat.mod_eq_of_lt sb,Nat.mod_eq_of_lt sa]
    refine .same (fun _ => trivial) (.same (fun _ => trivial) (.same (fun _ => trivial) ?_))
    exact .float sox (by decide) (.float soy (by decide) (.float soz (by decide) (.float sdx (by decide) (.float sdy (by decide)
      (.float sdz (by decide) (.float ssx (by decide) (.float ssy (by decide) (.float ssz (by decide)
      (.float ssize (by decide) .nil)))))))))

theorem badgesRead {indices : List (Fin 4)} (distinct : indices.Nodup) {before data : Fin 4 → Badge}
    (reads : Reads (Badges indices before) t data) : (∀ j ∉ indices, data j = before j) ∧
      ∃ w, Lowered t w ∧ ∀ after : Fin 4 → Badge, (∀ i ∈ indices, after i = data i) → written (Badges indices after) = (w,after) := by
  induction indices generalizing before t with
  | nil =>
    obtain ⟨rfl,rfl⟩ := readsPure.mp reads
    exact ⟨fun _ _ => rfl,[],.nil,fun _ _ => rfl⟩
  | cons i rest ih =>
    obtain ⟨fresh,distinct⟩ := List.nodup_cons.mp distinct
    obtain ⟨first,second,badge,rfl,readsBadge,later⟩ := readsBind.mp reads
    obtain ⟨others,w,lowered,echo⟩ := ih distinct later
    obtain ⟨w',wrote,lowered'⟩ := badgeRead readsBadge
    refine ⟨fun j other => ?_,w' ++ w,lowered'.append lowered,fun after agrees => ?_⟩
    · obtain ⟨apart,later⟩ := not_or.mp (fun mem => other (List.mem_cons.mpr mem))
      rw [others j later]
      exact Function.update_of_ne apart ..
    · obtain ⟨here,there⟩ := List.forall_mem_cons.mp agrees
      have own : after i = badge := by
        rw [here,others i fresh]
        exact Function.update_self ..
      unfold Badges
      rw [writtenBind,own,wrote,← own,Function.update_eq_self,echo after there]

structure ModsRead (indices : List (Fin 32)) (before : Mods) (t : List (Token Flag)) (data : Mods) : Prop where
  others : ∀ j ∉ indices, data.kitMods j = before.kitMods j
  last : indices = [] → data.hasMod = before.hasMod
  one : ∀ mods, (∀ token ∈ t, Good mods token) → indices ≠ [] → data.hasMod = mods
  kept : ∀ after : Mods, (∀ i ∈ indices, after.kitMods i = data.kitMods i) → (∀ token ∈ t, Good after.hasMod token) →
    written (Mods.Serialize indices after) = (t,after)
  same : ∀ after : Mods, (∀ i ∈ indices, after.kitMods i = data.kitMods i) → ∀ t' w',
    bits ((written (Mods.Serialize indices after)).1 ++ w') = bits (t ++ t') → ∀ token ∈ t, Good after.hasMod token

theorem ModsRead.turn {i : Fin 32} {rest : List (Fin 32)} {before data : Mods} {value : Bool} {mod : BitVec 32}
    {front tail : List (Token Flag)} (later : ModsRead rest ⟨value,Function.update before.kitMods i mod⟩ tail data)
    (fresh : i ∉ rest) (good : ∀ mods, ∀ token ∈ front, Good mods token)
    (wrote : ∀ after : Mods, after.hasMod = value → after.kitMods i = mod →
      written (Mods.Serialize (i :: rest) after) =
        (.bit .hasMod value :: (front ++ (written (Mods.Serialize rest after)).1),(written (Mods.Serialize rest after)).2)) :
    ModsRead (i :: rest) before (.bit .hasMod value :: (front ++ tail)) data := by
  have own {after : Mods} (agrees : ∀ j ∈ i :: rest, after.kitMods j = data.kitMods j) : after.kitMods i = mod := by
    rw [agrees i List.mem_cons_self,later.others i fresh]
    exact Function.update_self ..
  have tailGood {mods : Bool} (all : ∀ token ∈ .bit .hasMod value :: (front ++ tail), Good mods token) :
      value = mods ∧ ∀ token ∈ tail, Good mods token := by
    obtain ⟨first,others⟩ := List.forall_mem_cons.mp all
    exact ⟨first,(List.forall_mem_append.mp others).2⟩
  refine ⟨fun j other => ?_,fun none => by simp at none,fun mods all _ => ?_,fun after agrees all => ?_,
    fun after agrees t' w' equal => ?_⟩
  · obtain ⟨apart,past⟩ := not_or.mp (fun mem => other (List.mem_cons.mpr mem))
    rw [later.others j past]
    exact Function.update_of_ne apart ..
  · obtain ⟨first,others⟩ := tailGood all
    by_cases empty : rest = []
    · exact (later.last empty).trans first
    · exact later.one mods others empty
  · obtain ⟨first,others⟩ := tailGood all
    rw [wrote after first.symm (own agrees),later.kept after (List.forall_mem_cons.mp agrees).2 others]
  · have set : after.hasMod = value := by
      rw [Mods.Serialize,writtenBit,List.cons_append,List.cons_append,bitsBit,bitsBit] at equal
      exact (List.cons.inj equal).1
    rw [wrote after set (own agrees),List.cons_append,List.cons_append,bitsBit,bitsBit,List.append_assoc,List.append_assoc,
      bitsAppend,bitsAppend front] at equal
    have cut := List.append_cancel_left (List.cons.inj equal).2
    refine List.forall_mem_cons.mpr ⟨set.symm,List.forall_mem_append.mpr ⟨good _,?_⟩⟩
    exact later.same after (List.forall_mem_cons.mp agrees).2 t' w' cut

theorem modsRead {indices : List (Fin 32)} (distinct : indices.Nodup) {before data : Mods}
    (reads : Reads (Mods.Serialize indices before) t data) : ModsRead indices before t data := by
  induction indices generalizing before t with
  | nil =>
    obtain ⟨rfl,rfl⟩ := readsPure.mp reads
    exact ⟨fun _ _ => rfl,fun _ => rfl,fun _ _ some => absurd rfl some,fun _ _ _ => rfl,by simp⟩
  | cons i rest ih =>
    obtain ⟨fresh,distinct⟩ := List.nodup_cons.mp distinct
    obtain ⟨value,tokens,rfl,turn⟩ := readsBit.mp reads
    cases value with
    | true =>
      obtain ⟨mod,small,tail,rfl,later⟩ := readsNumber.mp turn
      refine @ModsRead.turn _ _ _ _ _ _ [.number 32 mod.toNat] _ (ih distinct later) fresh (by simp [Good]) (fun after set own => ?_)
      have next : (⟨true,Function.update after.kitMods i (after.kitMods i)⟩ : Mods) = after := by
        rw [Function.update_eq_self,← set]
      rw [Mods.Serialize,writtenBit,set,if_pos rfl,writtenNumber,next,own,Nat.mod_eq_of_lt small]
      rfl
    | false =>
      refine @ModsRead.turn _ _ _ _ _ _ [] _ (ih distinct turn) fresh (by simp) (fun after unset own => ?_)
      have next : (⟨false,Function.update after.kitMods i 0⟩ : Mods) = after := by
        rw [← own,Function.update_eq_self,← unset]
      rw [Mods.Serialize,writtenBit,unset,if_neg Bool.false_ne_true,next]
      rfl

structure Back {α : Type} (good : Prop) (wrote : List (Token Flag) × α) (t : List (Token Flag)) (data : α) : Prop where
  kept : good → wrote = (t,data)
  same : ∀ t' w', bits (wrote.1 ++ w') = bits (t ++ t') → good

theorem Back.cut {α : Type} {good : Prop} {wrote : List (Token Flag) × α} {data : α} (back : Back good wrote t data)
    (t' w' : List (Token Flag)) : bits (wrote.1 ++ w') = bits (t ++ t') ↔ good ∧ bits w' = bits t' := by
  constructor
  · intro equal
    have good := back.same t' w' equal
    rw [back.kept good,bitsAppend,bitsAppend] at equal
    exact ⟨good,List.append_cancel_left equal⟩
  · rintro ⟨good,equal⟩
    rw [back.kept good,bitsAppend,bitsAppend,equal]

theorem kitRead {before data : Kit} (reads : Reads before.Serialize t data) :
    Back (∀ token ∈ t, Good data.hasMod token) data.Serialize.written t data ∧
      ∀ mods, (∀ token ∈ t, Good mods token) → ∀ token ∈ t, Good data.hasMod token := by
  obtain ⟨kitIndex,small,rest,rfl,body⟩ := readsNumber.mp reads
  by_cases kit : kitIndex ≠ 0
  · rw [if_pos kit] at body
    obtain ⟨m,_,mods,rfl,readsMods,afterMods⟩ := readsBind.mp body
    obtain ⟨toggle,_,toggleMods,rfl,readsToggle,afterToggle⟩ := readsBind.mp afterMods
    simp only [readsNumber] at afterToggle
    obtain ⟨choice,sc,_,rfl,type,st,_,rfl,wheels⟩ := afterToggle
    obtain ⟨rear,_,rearWheel,rfl,readsRear,afterRear⟩ := readsBind.mp wheels
    simp only [readsBit,readsPure] at afterRear
    obtain ⟨tires,_,rfl,variation,_,rfl,rfl,rfl⟩ := afterRear
    obtain ⟨toggleSame,toggleGood⟩ := toggleModsPlain _ _ _ readsToggle
    obtain ⟨rearSame,rearGood⟩ := rearWheelPlain _ _ _ readsRear
    have turns := modsRead (by decide) readsMods
    have others {flag : Bool} : (∀ token ∈ Token.number 2 kitIndex.toNat :: (m ++ (toggle ++ (.number 8 choice.toNat ::
        .number 4 type.toNat :: (rear ++ [.bit .hasCustomTires tires,.bit .hasWheelVariation1 variation])))),
        Good flag token) ↔ ∀ token ∈ m, Good flag token := by
      simp only [List.forall_mem_cons,List.forall_mem_append]
      have good := toggleGood flag
      have good' := rearGood flag
      exact ⟨fun all => all.2.1,fun all => ⟨trivial,all,good,trivial,trivial,good',trivial,trivial,by simp⟩⟩
    refine ⟨⟨fun good => ?_,fun t' w' equal => ?_⟩,fun flag good => ?_⟩
    · have modsSame := turns.kept mods (fun _ _ => rfl) (others.mp good)
      rw [Kit.Serialize,writtenNumber,if_pos kit,Nat.mod_eq_of_lt small,writtenBind,modsSame,writtenBind,toggleSame,
        writtenNumber,Nat.mod_eq_of_lt sc,writtenNumber,Nat.mod_eq_of_lt st,writtenBind,rearSame,writtenBit,writtenBit,writtenPure]
    · rw [Kit.Serialize,writtenNumber,if_pos kit,Nat.mod_eq_of_lt small,writtenBind] at equal
      rw [List.cons_append,List.cons_append] at equal
      have cut := bitsCut equal
      rw [List.append_assoc,List.append_assoc] at cut
      exact others.mpr (turns.same mods (fun _ _ => rfl) _ _ cut)
    · have all := others.mp good
      exact others.mpr (turns.one flag all (by decide) ▸ all)
  · rw [if_neg kit] at body
    obtain ⟨rfl,rfl⟩ := readsPure.mp body
    have plain : ∀ flag, ∀ token ∈ [Token.number (ι := Flag) 2 kitIndex.toNat], Good flag token := by simp [Good]
    refine ⟨⟨fun _ => ?_,fun _ _ _ => plain _⟩,fun _ _ => plain _⟩
    have cleared : (fun i : Fin 32 => if i.val < 13 then 0 else if i.val < 13 then 0 else before.kitMods i) =
        fun i => if i.val < 13 then 0 else before.kitMods i := by
      funext i
      split
      · rfl
      · rfl
    rw [Kit.Serialize,writtenNumber,if_neg kit,Nat.mod_eq_of_lt small,writtenPure]
    simp only [cleared]

theorem clearBadgeStrays (indices : List Nat) (data : Emblems) :
    (indices.foldl Emblems.clearBadge data).strays.length = data.strays.length + (indices.filter (4 ≤ ·)).length := by
  induction indices generalizing data with
  | nil => rfl
  | cons i rest ih =>
    rw [List.foldl_cons,ih,Emblems.clearBadge]
    split
    · rename_i inside
      rw [List.filter_cons_of_neg (by simpa using inside)]
    · rename_i outside
      rw [List.filter_cons_of_pos (by simpa using outside),List.length_cons,List.length_cons]
      omega

theorem emblemsRead {before data : Emblems} (reads : Reads before.Serialize t data) (mods : Bool) :
    (data.strays = before.strays ∧ Back (∀ token ∈ t, Good mods token) data.Serialize.written t data) ∨
      (data.strays ≠ before.strays ∧ ¬ ∀ token ∈ t, Good mods token) := by
  obtain ⟨hasEmblems,rest,rfl,body⟩ := readsBit.mp reads
  cases hasEmblems with
  | true =>
    rw [if_pos rfl] at body
    obtain ⟨e,_,emblem,rfl,readsEmblem,afterEmblem⟩ := readsBind.mp body
    obtain ⟨b,_,badges,rfl,readsBadges,afterBadges⟩ := readsBind.mp afterEmblem
    obtain ⟨rfl,rfl⟩ := readsPure.mp afterBadges
    obtain ⟨emblemSame,emblemGood⟩ := emblemPlain _ _ _ readsEmblem
    obtain ⟨-,w,lowered,echo⟩ := badgesRead (List.nodup_finRange 4) readsBadges
    have whole : Lowered (Token.bit Flag.hasEmblems true :: (e ++ (b ++ []))) (.bit .hasEmblems true :: (e ++ (w ++ []))) :=
      .same (fun _ => rfl) ((Lowered.refl emblemGood).append (lowered.append .nil))
    refine .inl ⟨rfl,?_⟩
    rw [Emblems.Serialize,writtenBit,if_pos rfl,writtenBind,emblemSame,writtenBind,echo badges (fun _ _ => rfl),writtenPure]
    exact ⟨fun good => congrArg (·,_) (whole.kept good),fun t' w' equal => whole.good equal mods⟩
  | false =>
    obtain ⟨rfl,rfl⟩ := readsPure.mp body
    refine .inr ⟨fun same => ?_,fun good => Bool.false_ne_true (good _ List.mem_cons_self)⟩
    have longer := (clearBadgeStrays (List.range 13) { before with hasEmblems := false }).symm.trans (congrArg List.length same)
    exact absurd longer (Nat.ne_of_gt (Nat.lt_add_of_pos_right (by decide)))

theorem appearanceRead {Is2372 : Bool} {before data : CVehicleAppearanceNodeData}
    (reads : Reads (Serialize Is2372 before) t data) :
    (data.strays = before.strays ∧ (written (Serialize Is2372 data)).2 = data ∧
      bits (written (Serialize Is2372 data)).1 = bits t) ↔ ∃ mods, ∀ token ∈ t, Good mods token := by
  obtain ⟨t1,_,colours,rfl,reads1,rest1⟩ := readsBind.mp reads
  obtain ⟨t2,_,primary,rfl,reads2,rest2⟩ := readsBind.mp rest1
  obtain ⟨t3,_,secondary,rfl,reads3,rest3⟩ := readsBind.mp rest2
  obtain ⟨t4,_,extras,rfl,reads4,rest4⟩ := readsBind.mp rest3
  obtain ⟨t5,_,kit,rfl,reads5,rest5⟩ := readsBind.mp rest4
  obtain ⟨t6,_,tint,rfl,reads6,rest6⟩ := readsBind.mp rest5
  obtain ⟨t7,_,smoke,rfl,reads7,rest7⟩ := readsBind.mp rest6
  obtain ⟨t8,_,plate,rfl,reads8,rest8⟩ := readsBind.mp rest7
  obtain ⟨t9,_,hashes,rfl,reads9,rest9⟩ := readsBind.mp rest8
  obtain ⟨t10,_,emblems,rfl,reads10,rest10⟩ := readsBind.mp rest9
  obtain ⟨t11,_,neon,rfl,reads11,rest11⟩ := readsBind.mp rest10
  obtain ⟨rfl,rfl⟩ := readsPure.mp rest11
  obtain ⟨same1,good1⟩ := coloursPlain _ _ _ reads1
  obtain ⟨same2,good2⟩ := primaryPlain _ _ _ reads2
  obtain ⟨same3,good3⟩ := secondaryPlain _ _ _ reads3
  obtain ⟨same4,good4⟩ := extrasPlain _ _ _ reads4
  obtain ⟨kitBack,kitGood⟩ := kitRead reads5
  obtain ⟨same6,good6⟩ := tintPlain _ _ _ reads6
  obtain ⟨same7,good7⟩ := smokePlain _ _ _ reads7
  obtain ⟨same8,good8⟩ := platePlain _ _ _ reads8
  obtain ⟨same9,good9⟩ := hashesPlain _ _ _ reads9
  obtain ⟨same11,good11⟩ := neonPlain Is2372 _ _ _ reads11
  have only (flag : Bool) : (∀ token ∈ t1 ++ (t2 ++ (t3 ++ (t4 ++ (t5 ++ (t6 ++ (t7 ++ (t8 ++ (t9 ++ (t10 ++ (t11 ++ [])))))))))),
      Good flag token) ↔ (∀ token ∈ t5, Good flag token) ∧ ∀ token ∈ t10, Good flag token := by
    simp only [List.forall_mem_append,List.append_nil]
    exact ⟨fun ⟨_,_,_,_,five,_,_,_,_,ten,_⟩ => ⟨five,ten⟩,fun ⟨five,ten⟩ => ⟨good1 flag,good2 flag,good3 flag,good4 flag,five,
      good6 flag,good7 flag,good8 flag,good9 flag,ten,good11 flag⟩⟩
  have wrote : written (Serialize Is2372 ⟨colours,primary,secondary,extras,kit,tint,smoke,plate,hashes,emblems,neon⟩) =
      (t1 ++ (t2 ++ (t3 ++ (t4 ++ (kit.Serialize.written.1 ++ (t6 ++ (t7 ++ (t8 ++ (t9 ++
        (emblems.Serialize.written.1 ++ (t11 ++ [])))))))))),
        ⟨colours,primary,secondary,extras,kit.Serialize.written.2,tint,smoke,plate,hashes,emblems.Serialize.written.2,neon⟩) := by
    rw [Serialize,writtenBind,same1,writtenBind,same2,writtenBind,same3,writtenBind,same4,writtenBind,writtenBind,same6,
      writtenBind,same7,writtenBind,same8,writtenBind,same9,writtenBind,writtenBind,same11,writtenPure]
  rw [wrote]
  constructor
  · rintro ⟨inside,-,equal⟩
    rcases emblemsRead reads10 kit.hasMod with ⟨-,back⟩ | ⟨outside,-⟩
    · simp only [bitsFront,kitBack.cut,back.cut] at equal
      exact ⟨kit.hasMod,(only _).mpr ⟨equal.1,equal.2.1⟩⟩
    · exact absurd inside outside
  · rintro ⟨flag,good⟩
    obtain ⟨five,ten⟩ := (only flag).mp good
    have set := kitGood flag five
    rcases emblemsRead reads10 flag with ⟨inside,back⟩ | ⟨-,bad⟩
    · rw [kitBack.kept set,back.kept ten]
      exact ⟨inside,rfl,rfl⟩
    · exact absurd ten bad

end

/-! No section asks for a size that the buffer does not take. -/

theorem guardSized {α : Type} {field : Flag} {flag : Bool} {present absent : Bool → Serial Flag α}
    (there : (present true).Sized) (none : (absent false).Sized) :
    (SerializeBit field flag >>= fun b => if b = true then present b else absent b).Sized := by
  intro b
  cases b with
  | true => exact there
  | false => exact none

theorem extrasSized (data : Extras) : data.Serialize.Sized := by
  refine sizedNumber.mpr ⟨by decide,fun _ => guardSized ?_ trivial⟩
  have livery : data.toLivery.Serialize.Sized := guardSized ⟨by decide,fun _ => trivial⟩ trivial
  have roofLivery : data.toRoofLivery.Serialize.Sized := guardSized ⟨by decide,fun _ => trivial⟩ trivial
  simp only [sizedNumber]
  exact ⟨by decide,fun _ => ⟨by decide,fun _ => sizedBind livery (fun _ => sizedBind roofLivery (fun _ => trivial))⟩⟩

theorem modsSized (indices : List (Fin 32)) (data : Mods) : (Mods.Serialize indices data).Sized := by
  induction indices generalizing data with
  | nil => exact trivial
  | cons i rest ih => exact guardSized ⟨by decide,fun _ => ih _⟩ (ih _)

theorem kitSized (data : Kit) : data.Serialize.Sized := by
  refine ⟨by decide,fun kitIndex => ?_⟩
  change Serial.Sized (if kitIndex ≠ 0 then _ else _)
  split
  · have toggleMods : data.toToggleMods.Serialize.Sized := guardSized ⟨by decide,fun _ => trivial⟩ trivial
    have rearWheel : data.toRearWheel.Serialize.Sized := guardSized ⟨by decide,fun _ => trivial⟩ trivial
    refine sizedBind (modsSized _ _) (fun _ => sizedBind toggleMods (fun _ => ?_))
    simp only [sizedNumber]
    exact ⟨by decide,fun _ => ⟨by decide,fun _ => sizedBind rearWheel (fun _ _ _ => trivial)⟩⟩
  · exact trivial

theorem charactersSized (indices : List (Fin 9)) (data : Plate) : (Plate.Characters indices data).Sized := by
  induction indices generalizing data with
  | nil => exact trivial
  | cons i rest ih =>
    unfold Plate.Characters
    split
    · exact ⟨by decide,fun _ => ih _⟩
    · exact ih _

theorem badgesSized (indices : List (Fin 4)) (badges : Fin 4 → Badge) : (Badges indices badges).Sized := by
  induction indices generalizing badges with
  | nil => exact trivial
  | cons i rest ih => exact sizedBind (guardSized (by simp) trivial) (fun _ => ih _)

theorem emblemsSized (data : Emblems) : data.Serialize.Sized := by
  have emblem : data.toEmblem.Serialize.Sized := guardSized (by simp) (by simp)
  exact guardSized (sizedBind emblem (fun _ => sizedBind (badgesSized _ _) (fun _ => trivial))) trivial

theorem neonSized (Is2372 : Bool) (data : Neon) : (data.Serialize Is2372).Sized := by
  refine guardSized ?_ trivial
  simp only [sizedNumber]
  refine ⟨by decide,fun _ => ⟨by decide,fun _ => ⟨by decide,fun _ _ _ _ _ => ?_⟩⟩⟩
  cases Is2372 with
  | true => exact fun _ => trivial
  | false => exact trivial

theorem appearanceSized (Is2372 : Bool) (data : CVehicleAppearanceNodeData) : (Serialize Is2372 data).Sized := by
  have colours : data.toColours.Serialize.Sized := by simp [Colours.Serialize]
  have primary : data.toPrimaryRGB.Serialize.Sized := guardSized (by simp) trivial
  have secondary : data.toSecondaryRGB.Serialize.Sized := guardSized (by simp) trivial
  have tint : data.toWindowTint.Serialize.Sized := guardSized ⟨by decide,fun _ => trivial⟩ trivial
  have smoke : data.toTyreSmoke.Serialize.Sized := guardSized (by simp) trivial
  have plate : data.toPlate.Serialize.Sized := fun _ => charactersSized _ _
  have hashes : data.toHashes.Serialize.Sized := by simp [Hashes.Serialize]
  exact sizedBind colours (fun _ => sizedBind primary (fun _ => sizedBind secondary (fun _ => sizedBind (extrasSized _)
    (fun _ => sizedBind (kitSized _) (fun _ => sizedBind tint (fun _ => sizedBind smoke (fun _ => sizedBind plate
    (fun _ => sizedBind hashes (fun _ => sizedBind (emblemsSized _) (fun _ => sizedBind (neonSized _ _)
    (fun _ => trivial)))))))))))

def Faithful (Is2372 lengthHack : Bool) (before : CVehicleAppearanceNodeData) (bytes : List BitField.Byte) (start : Nat) : Prop :=
  let (data,b) := (Serialize Is2372 before).parse lengthHack (.seek bytes start)
  data.strays = before.strays ∧ (Serialize Is2372 data).Echoed lengthHack bytes start b.curBit data

theorem appearanceExact (Is2372 lengthHack : Bool) (before : CVehicleAppearanceNodeData) (bytes : List BitField.Byte) (start : Nat)
    {t : List (Token Flag)} (sufficient : tokens bytes (Serialize Is2372 before) start = some t) :
    Faithful Is2372 lengthHack before bytes start ↔ ∃ mods, ∀ token ∈ t, Good mods token := by
  obtain ⟨data,reads,parse,fields⟩ := @parsed _ _ _ _ lengthHack _ (appearanceSized Is2372 before) _ sufficient
  unfold Faithful
  rw [parse]
  exact (and_congr_right (fun _ => echoedIff (appearanceSized Is2372 data) fields)).trans (appearanceRead reads)

def blank : CVehicleAppearanceNodeData where
  toColours := ⟨0,0,0,0,0,0⟩
  toPrimaryRGB := ⟨false,0,0,0⟩
  toSecondaryRGB := ⟨false,0,0,0⟩
  toExtras := ⟨⟨false,0⟩,⟨false,0⟩,0,false,0,0,false⟩
  toKit := ⟨⟨false,fun _ => 0⟩,⟨false,0⟩,⟨false,0⟩,0,0,0,false,false⟩
  toWindowTint := ⟨false,0⟩
  toTyreSmoke := ⟨false,0,0,0⟩
  toPlate := ⟨false,fun _ => 0⟩
  toHashes := ⟨0,0⟩
  toEmblems := ⟨⟨false,0,0,false,0,0,0⟩,false,fun _ => ⟨false,0,0,0,0,0,0,0,0,0,0,0,0⟩,[]⟩
  toNeon := ⟨false,0,0,0,false,false,false,false,false⟩

theorem clearedPastBadges :
    (tokens (List.replicate 17 0) (Serialize true blank) 0).isSome = true ∧ ¬ Faithful true false blank (List.replicate 17 0) 0 := by
  refine ⟨by decide,fun ⟨inside,_⟩ => ?_⟩
  revert inside
  decide

def clean : Token Flag → Bool
  | .number _ _ => true
  | .float _ value => value == 0
  | .bit field value => value || field ≠ .hasMod && field ≠ .hasEmblems

theorem allGood {read : Option (List (Token Flag))} (all : read.map (List.all · clean) = some true) :
    ∃ t, read = some t ∧ ∃ mods, ∀ token ∈ t, Good mods token := by
  obtain ⟨t,found,all⟩ := Option.map_eq_some_iff.mp all
  refine ⟨t,found,true,fun token mem => ?_⟩
  have set := List.all_eq_true.mp all token mem
  cases token with
  | number _ _ => trivial
  | float _ value => exact beq_iff_eq.mp set
  | bit field value => cases field <;> simp_all [Good,clean]

def decorated : List BitField.Byte :=
  [159,65,189,91,203,176,248,235,222,233,187,33,193,250,119,51,224,252,95,244,221,39,248,61,70,218,98,51,37,88,106,50,
   9,199,154,133,168,238,80,78,209,27,28,251,16,246,175,150,236,191,222,5,58,40,187,202,78,32,19,241,246,90,139,11,
   202,206,118,44,207,165,162,52,145,192,221,220,221,161,30,95,174,252,76,74,97,204,36,212,60,144,71,12,133,213,207,
   24,52,142,79,8,175,37,220,114,0,0,0,0,0,0,0,0,0,0,0,0,0,0,0,0,0,72,64,62,42]

set_option maxRecDepth 4000 in
theorem decoratedFaithful : Faithful true false blank decorated 0 :=
  (@allGood (tokens decorated (Serialize true blank) 0) (by decide +kernel)).elim
    (fun _ read => (appearanceExact true false blank decorated 0 read.1).mpr read.2)

end Citizen.Sync.VehicleAppearance
