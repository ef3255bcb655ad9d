import Citizen.Lib.RangeReader
import Mathlib.Tactic.IntervalCases

/-! `MsgPackDeserializer`: a pointer over the bytes of a document, and a recursive descent over the types of its values. A
`uint` length is 32 bits wide, addresses are not bounded. -/
namespace Citizen.Scripting.MsgPack
open BitField (Byte)
open RangeReader
variable {α : Type}

abbrev Chars := List (BitVec 16)

inductive IntegerType where
  | Byte
  | UInt16
  | UInt32
  | UInt64
  | SByte
  | Int16
  | Int32
  | Int64
  deriving DecidableEq

inductive Value where
  | null
  | boolean (b : Bool)
  | integer (type : IntegerType) (n : Int)
  | single (bits : BitVec 32)
  | double (bits : BitVec 64)
  | string (s : Chars)
  | bytes (b : List Byte)
  | array (items : List Value)
  | map (entries : List (Chars × Value))
  | vector2 (x y : BitVec 32)
  | vector3 (x y z : BitVec 32)
  | vector4 (x y z w : BitVec 32)
  | quaternion (x y z w : BitVec 32)
  | localFunction (reference : Chars)
  | remoteFunction (reference source : Chars)

inductive Exception where
  | retrieve (amount : BitVec 32) (remain : Nat)
  | invalidType (type : Byte)
  | unsupportedType (extType : Byte)
  | length (length : BitVec 32)
  | nullReference
  | sameKey (key : Chars)
  | functionReference (reference : Chars)
  deriving DecidableEq

structure Host where
  IsLittleEndian : Bool
  newString : List Byte → Chars
  ToString : Value → Chars
  DuplicateFunctionReference : Chars → Bool
  REMOTE_FUNCTION_ENABLED : Bool

abbrev Read := Reader Exception

def AdvancePointer (amount : BitVec 32) : Read Nat := fun data ptr =>
  if data.length < ptr + amount.toNat then .thrown (.retrieve amount (data.length - ptr))
  else .ok ptr (ptr + amount.toNat)

def take (amount : BitVec 32) : Read (List Byte) := do
  let cur ← AdvancePointer amount
  load cur amount.toNat

def swap16 (v : BitVec 32) : BitVec 16 := (v >>> 8 ||| v <<< 8).setWidth 16

def swap32 (v : BitVec 32) : BitVec 32 :=
  let v := v >>> 16 ||| v <<< 16
  (v &&& 0xFF00FF00#32) >>> 8 ||| (v &&& 0x00FF00FF#32) <<< 8

def swap64 (v : BitVec 64) : BitVec 64 :=
  let v := v >>> 32 ||| v <<< 32
  let v := (v &&& 0xFFFF0000FFFF0000#64) >>> 16 ||| (v &&& 0x0000FFFF0000FFFF#64) <<< 16
  (v &&& 0xFF00FF00FF00FF00#64) >>> 8 ||| (v &&& 0x00FF00FF00FF00FF#64) <<< 8

namespace Host
variable (host : Host)

def native (width : Nat) (bytes : List Byte) : BitVec width :=
  .ofNat width (LittleEndian.value (if host.IsLittleEndian then bytes else bytes.reverse))

def ReadByte : Read Byte := do
  let v ← take 1
  pure (host.native 8 v)

def ReadUInt16 : Read (BitVec 16) := do
  let v ← take 2
  let v := host.native 16 v
  pure (if host.IsLittleEndian then swap16 (v.setWidth 32) else v)

def ReadUInt32 : Read (BitVec 32) := do
  let v ← take 4
  let v := host.native 32 v
  pure (if host.IsLittleEndian then swap32 v else v)

def ReadUInt64 : Read (BitVec 64) := do
  let v ← take 8
  let v := host.native 64 v
  pure (if host.IsLittleEndian then swap64 v else v)

def ReadSingleLE : Read (BitVec 32) := do
  let v ← take 4
  let v := host.native 32 v
  pure (if !host.IsLittleEndian then swap32 v else v)

def ReadBytes (length : BitVec 32) : Read Value := do
  let v ← take length
  if 2 ^ 31 ≤ length.toNat then throws (.length length) else pure (.bytes v)

def ReadString (length : BitVec 32) : Read Chars := do
  let v ← take length
  if 2 ^ 31 ≤ length.toNat then throws (.length length) else pure (host.newString v)

def LocalFunction (reference : Chars) : Read Value :=
  if host.DuplicateFunctionReference reference then pure (.localFunction reference)
  else throws (.functionReference reference)

def functionValue (netSource : Option Chars) (refFunc : Chars) : Read Value :=
  match netSource with
  | none => host.LocalFunction refFunc
  | some source => pure (if host.REMOTE_FUNCTION_ENABLED then .remoteFunction refFunc source else .null)

def ReadVector2 : Read Value := do
  let x ← host.ReadSingleLE
  let y ← host.ReadSingleLE
  pure (.vector2 x y)

def ReadVector3 : Read Value := do
  let x ← host.ReadSingleLE
  let y ← host.ReadSingleLE
  let z ← host.ReadSingleLE
  pure (.vector3 x y z)

def ReadVector4 (new : BitVec 32 → BitVec 32 → BitVec 32 → BitVec 32 → Value) : Read Value := do
  let x ← host.ReadSingleLE
  let y ← host.ReadSingleLE
  let z ← host.ReadSingleLE
  let w ← host.ReadSingleLE
  pure (new x y z w)

def ReadExtraValue (netSource : Option Chars) (length : BitVec 32) (extType : Byte) : Read Value :=
  match extType.toNat with
  | 10 | 11 => do
    let refFunc ← host.ReadString length
    host.functionValue netSource refFunc
  | 20 => host.ReadVector2
  | 21 => host.ReadVector3
  | 22 => host.ReadVector4 .vector4
  | 23 => host.ReadVector4 .quaternion
  | _ => throws (.unsupportedType extType)

def ReadExtraType (netSource : Option Chars) (length : BitVec 32) : Read Value := do
  let extType ← host.ReadByte
  host.ReadExtraValue netSource length extType

def keyOf : Value → Read Chars
  | .null => throws .nullReference
  | .string s => pure s
  | key => pure (host.ToString key)

def mapLoop (Deserialize : Read Value) (length : BitVec 32) : Nat → BitVec 32 → List (Chars × Value) → Read Value
  | 0,_,_ => endless
  | rounds + 1,i,retobject =>
    if i.toInt < length.toNat then do
      let key ← Deserialize
      let key ← host.keyOf key
      let value ← Deserialize
      if retobject.any (·.1 == key) then throws (.sameKey key)
      else mapLoop Deserialize length rounds (i + 1) (retobject ++ [(key,value)])
    else pure (.map retobject)

end Host

def arrayLoop (Deserialize : Read Value) (length : BitVec 32) : Nat → BitVec 32 → List Value → Read (List Value)
  | 0,_,_ => endless
  | rounds + 1,i,retobject =>
    if i.toInt < length.toNat then do
      let value ← Deserialize
      arrayLoop Deserialize length rounds (i + 1) (retobject ++ [value])
    else pure retobject

def newArray (Deserialize : Read Value) (rounds : Nat) (length : BitVec 32) : Read (List Value) :=
  if 2 ^ 31 ≤ length.toNat then throws (.length length) else arrayLoop Deserialize length rounds 0 []

namespace Host
variable (host : Host) (netSource : Option Chars)

def ReadMap (Deserialize : Read Value) (rounds : Nat) (length : BitVec 32) : Read Value :=
  host.mapLoop Deserialize length rounds 0 []

def ReadObjectArray (Deserialize : Read Value) (rounds : Nat) (length : BitVec 32) : Read Value := do
  let retobject ← newArray Deserialize rounds length
  pure (.array retobject)

def ReadStringValue (length : BitVec 32) : Read Value := do
  let s ← host.ReadString length
  pure (.string s)

def DeserializeType (Deserialize : Read Value) (rounds : Nat) (type : Byte) : Read Value :=
  if type.toNat < 0xC0 then
    if type.toNat < 0x80 then pure (.integer .Byte type.toNat)
    else if type.toNat < 0x90 then host.ReadMap Deserialize rounds (.ofNat 32 (type.toNat % 16))
    else if type.toNat < 0xA0 then ReadObjectArray Deserialize rounds (.ofNat 32 (type.toNat % 16))
    else host.ReadStringValue (.ofNat 32 (type.toNat % 32))
  else if 0xDF < type.toNat then pure (.integer .Int32 (type.toNat - 256))
  else match type.toNat with
    | 0xC0 => pure .null
    | 0xC2 => pure (.boolean false)
    | 0xC3 => pure (.boolean true)
    | 0xC4 => do ReadBytes ((← host.ReadByte).setWidth 32)
    | 0xC5 => do ReadBytes ((← host.ReadUInt16).setWidth 32)
    | 0xC6 => do ReadBytes (← host.ReadUInt32)
    | 0xC7 => do host.ReadExtraType netSource ((← host.ReadByte).setWidth 32)
    | 0xC8 => do host.ReadExtraType netSource ((← host.ReadUInt16).setWidth 32)
    | 0xC9 => do host.ReadExtraType netSource (← host.ReadUInt32)
    | 0xCA => do pure (.single (← host.ReadUInt32))
    | 0xCB => do pure (.double (← host.ReadUInt64))
    | 0xCC => do pure (.integer .Byte (← host.ReadByte).toNat)
    | 0xCD => do pure (.integer .UInt16 (← host.ReadUInt16).toNat)
    | 0xCE => do pure (.integer .UInt32 (← host.ReadUInt32).toNat)
    | 0xCF => do pure (.integer .UInt64 (← host.ReadUInt64).toNat)
    | 0xD0 => do pure (.integer .SByte (← host.ReadByte).toInt)
    | 0xD1 => do pure (.integer .Int16 (← host.ReadUInt16).toInt)
    | 0xD2 => do pure (.integer .Int32 (← host.ReadUInt32).toInt)
    | 0xD3 => do pure (.integer .Int64 (← host.ReadUInt64).toInt)
    | 0xD4 => host.ReadExtraType netSource 1
    | 0xD5 => host.ReadExtraType netSource 2
    | 0xD6 => host.ReadExtraType netSource 4
    | 0xD7 => host.ReadExtraType netSource 8
    | 0xD8 => host.ReadExtraType netSource 16
    | 0xD9 => do host.ReadStringValue ((← host.ReadByte).setWidth 32)
    | 0xDA => do host.ReadStringValue ((← host.ReadUInt16).setWidth 32)
    | 0xDB => do host.ReadStringValue (← host.ReadUInt32)
    | 0xDC => do ReadObjectArray Deserialize rounds ((← host.ReadUInt16).setWidth 32)
    | 0xDD => do ReadObjectArray Deserialize rounds (← host.ReadUInt32)
    | 0xDE => do host.ReadMap Deserialize rounds ((← host.ReadUInt16).setWidth 32)
    | 0xDF => do host.ReadMap Deserialize rounds (← host.ReadUInt32)
    | _ => throws (.invalidType type)

def Deserialize : Nat → Read Value
  | 0 => endless
  | depth + 1 => do
    let type ← host.ReadByte
    host.DeserializeType netSource (Deserialize depth) depth type

def argumentsOf (depth : Nat) (type : Byte) : Read (List Value) :=
  if 0x90 ≤ type.toNat ∧ type.toNat < 0xA0 then
    newArray (host.Deserialize netSource depth) depth (.ofNat 32 (type.toNat % 16))
  else if type.toNat = 0xDC then do
    newArray (host.Deserialize netSource depth) depth ((← host.ReadUInt16).setWidth 32)
  else if type.toNat = 0xDD then do
    newArray (host.Deserialize netSource depth) depth (← host.ReadUInt32)
  else pure []

def DeserializeArray (depth : Nat) : Read (List Value) := do
  let type ← host.ReadByte
  host.argumentsOf netSource depth type

def value : Read Value := fun data ptr => host.Deserialize netSource (data.length + 1) data ptr
def arguments : Read (List Value) := fun data ptr => host.DeserializeArray netSource (data.length + 1) data ptr

def DeserializeData : Option (List Byte) → Outcome Exception Value
  | none => .ok .null 0
  | some data => if data.length > 0 then host.value netSource data 0 else .ok .null 0

def DeserializeArrayData : Option (List Byte) → Outcome Exception (List Value)
  | none => .ok [] 0
  | some data => if data.length > 0 then host.arguments netSource data 0 else .ok [] 0

end Host

section Ranges
variable {room : Nat} (host : Host) (netSource : Option Chars)

theorem takeWithin (amount : BitVec 32) : Within room amount.toNat (take amount) := by
  intro data ptr inside _
  by_cases short : data.length < ptr + amount.toNat
  · have advance : AdvancePointer amount data ptr = .thrown (.retrieve amount (data.length - ptr)) := if_pos short
    exact .inl ⟨_,bindThrown advance⟩
  · have advance : AdvancePointer amount data ptr = .ok ptr (ptr + amount.toNat) := if_neg short
    refine .inr ⟨_,_,(bindOk advance).trans (if_pos (by omega)),Nat.le_refl _,by omega⟩

theorem takeThen {amount : BitVec 32} {f : List Byte → Read α} (later : ∀ v, Within room 0 (f v)) :
    Within room amount.toNat (take amount >>= f) :=
  (takeWithin amount).andThen later

namespace Host

theorem readByteWithin : Within room 1 host.ReadByte := takeThen fun _ => .pure _
theorem readUInt16Within : Within room 2 host.ReadUInt16 := takeThen fun _ => .pure _
theorem readUInt32Within : Within room 4 host.ReadUInt32 := takeThen fun _ => .pure _
theorem readUInt64Within : Within room 8 host.ReadUInt64 := takeThen fun _ => .pure _
theorem readSingleWithin : Within room 4 host.ReadSingleLE := takeThen fun _ => .pure _

variable (length : BitVec 32)

theorem readBytesWithin : Within room 0 (ReadBytes length) := by
  refine (takeWithin length |>.mono (Nat.le_refl _) (Nat.zero_le _)).andThen fun v => ?_
  split
  · exact .throws _
  · exact .pure _

theorem readStringWithin : Within room 0 (host.ReadString length) := by
  refine (takeWithin length |>.mono (Nat.le_refl _) (Nat.zero_le _)).andThen fun v => ?_
  split
  · exact .throws _
  · exact .pure _

theorem readStringValueWithin : Within room 0 (host.ReadStringValue length) :=
  (host.readStringWithin length).andThen fun _ => .pure _

theorem functionValueWithin (refFunc : Chars) : Within room 0 (host.functionValue netSource refFunc) := by
  cases netSource with
  | none =>
    rw [functionValue,LocalFunction]
    split
    · exact .pure _
    · exact .throws _
  | some source => exact .pure _

theorem loosely {r : Read α} {least : Nat} (within : Within room least r) : Within room 0 r :=
  within.mono (Nat.le_refl _) (Nat.zero_le _)

theorem readVector2Within : Within room 0 host.ReadVector2 :=
  (loosely host.readSingleWithin).andThen fun _ => (loosely host.readSingleWithin).andThen fun _ => .pure _

theorem readVector3Within : Within room 0 host.ReadVector3 :=
  (loosely host.readSingleWithin).andThen fun _ => (loosely host.readSingleWithin).andThen fun _ =>
    (loosely host.readSingleWithin).andThen fun _ => .pure _

theorem readVector4Within (new : BitVec 32 → BitVec 32 → BitVec 32 → BitVec 32 → Value) :
    Within room 0 (host.ReadVector4 new) :=
  (loosely host.readSingleWithin).andThen fun _ => (loosely host.readSingleWithin).andThen fun _ =>
    (loosely host.readSingleWithin).andThen fun _ => (loosely host.readSingleWithin).andThen fun _ => .pure _

theorem readExtraTypeWithin : Within room 0 (host.ReadExtraType netSource length) := by
  refine (loosely host.readByteWithin).andThen fun extType => ?_
  unfold ReadExtraValue
  split
  · exact (host.readStringWithin length).andThen fun refFunc => host.functionValueWithin netSource refFunc
  · exact (host.readStringWithin length).andThen fun refFunc => host.functionValueWithin netSource refFunc
  · exact host.readVector2Within
  · exact host.readVector3Within
  · exact host.readVector4Within _
  · exact host.readVector4Within _
  · exact .throws _

theorem keyOfWithin (key : Value) : Within room 0 (host.keyOf key) := by
  unfold keyOf
  split
  · exact .throws _
  · exact .pure _
  · exact .pure _

theorem mapLoopWithin {read : Read Value} (inner : Within room 1 read) (length : BitVec 32) {rounds : Nat}
    (last : rounds ≤ room) (i : BitVec 32) (retobject : List (Chars × Value)) :
    Within rounds 0 (host.mapLoop read length rounds i retobject) := by
  induction rounds generalizing i retobject with
  | zero => exact fun data ptr inside near => absurd near (by omega)
  | succ rounds ih =>
    rw [mapLoop]
    split
    · refine loosely ((inner.mono last (Nat.le_refl 1)).bind fun key => (host.keyOfWithin key).andThen fun key =>
        (loosely (inner.mono (by omega) (Nat.le_refl 1))).andThen fun value => ?_)
      split
      · exact .throws _
      · exact ih (by omega) _ _
    · exact .pure _

end Host

section
variable {read : Read Value} (inner : Within room 1 read) (length : BitVec 32)
include inner

theorem arrayLoopWithin {rounds : Nat} (last : rounds ≤ room) (i : BitVec 32) (retobject : List Value) :
    Within rounds 0 (arrayLoop read length rounds i retobject) := by
  induction rounds generalizing i retobject with
  | zero => exact fun data ptr inside near => absurd near (by omega)
  | succ rounds ih =>
    rw [arrayLoop]
    split
    · exact Host.loosely ((inner.mono last (Nat.le_refl 1)).bind fun value => ih (by omega) _ _)
    · exact .pure _

theorem newArrayWithin : Within room 0 (newArray read room length) := by
  unfold newArray
  split
  · exact .throws _
  · exact arrayLoopWithin inner length (Nat.le_refl _) _ _

end

namespace Host

theorem readObjectArrayWithin {read : Read Value} (inner : Within room 1 read) (length : BitVec 32) :
    Within room 0 (ReadObjectArray read room length) :=
  (newArrayWithin inner length).andThen fun _ => .pure _

theorem deserializeTypeWithin {read : Read Value} (inner : Within room 1 read) (type : Byte) :
    Within room 0 (host.DeserializeType netSource read room type) := by
  have map : ∀ length, Within room 0 (host.ReadMap read room length) := fun length =>
    host.mapLoopWithin inner length (Nat.le_refl _) _ _
  have array := fun length => readObjectArrayWithin inner length
  have string : ∀ length, Within room 0 (host.ReadStringValue length) := host.readStringValueWithin
  have bytes : ∀ length, Within room 0 (ReadBytes length) := readBytesWithin
  have extra : ∀ length, Within room 0 (host.ReadExtraType netSource length) := host.readExtraTypeWithin netSource
  have byte {f : Byte → Read Value} (later : ∀ v, Within room 0 (f v)) : Within room 0 (host.ReadByte >>= f) :=
    (loosely host.readByteWithin).andThen later
  have two {f : BitVec 16 → Read Value} (later : ∀ v, Within room 0 (f v)) : Within room 0 (host.ReadUInt16 >>= f) :=
    (loosely host.readUInt16Within).andThen later
  have four {f : BitVec 32 → Read Value} (later : ∀ v, Within room 0 (f v)) : Within room 0 (host.ReadUInt32 >>= f) :=
    (loosely host.readUInt32Within).andThen later
  have eight {f : BitVec 64 → Read Value} (later : ∀ v, Within room 0 (f v)) : Within room 0 (host.ReadUInt64 >>= f) :=
    (loosely host.readUInt64Within).andThen later
  unfold DeserializeType
  repeat' split
  all_goals try first
    | exact .pure _
    | exact .throws _
    | exact map _
    | exact array _
    | exact string _
    | exact extra _
  -- The other types are followed by a number or a length.
  all_goals first
    | refine byte fun v => ?_
    | refine two fun v => ?_
    | refine four fun v => ?_
    | refine eight fun v => ?_
  all_goals first
    | exact .pure _
    | exact map _
    | exact array _
    | exact string _
    | exact bytes _
    | exact extra _

theorem deserializeWithin (depth : Nat) : Within depth 1 (host.Deserialize netSource depth) := by
  induction depth with
  | zero => exact fun data ptr inside near => absurd near (by omega)
  | succ depth ih =>
    have first : Within (depth + 1) 1 host.ReadByte := host.readByteWithin
    exact first.bind fun type => host.deserializeTypeWithin netSource ih type

theorem deserializeArrayWithin (depth : Nat) : Within depth 1 (host.DeserializeArray netSource depth) := by
  have inner := fun length => newArrayWithin (host.deserializeWithin netSource depth) length
  refine host.readByteWithin.andThen fun type => ?_
  unfold argumentsOf
  repeat' split
  · exact inner _
  · exact (loosely host.readUInt16Within).andThen fun length => inner _
  · exact (loosely host.readUInt32Within).andThen fun length => inner _
  · exact .pure _

end Host

end Ranges

end Citizen.Scripting.MsgPack
