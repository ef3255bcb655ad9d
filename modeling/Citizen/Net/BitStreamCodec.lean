import Citizen.Lib.LittleEndian
import Citizen.Net.MessageBufferFields

/-! `net::BitWriter` and `net::BitReader`. Numbers stand in the buffer with their lowest bit first, a
`bool` without a size is counted from the high end of its byte. -/
namespace Citizen.Net
open BitField (Byte byteAt bitAt)
open LittleEndian (load store lowBit mirror)

structure BitBuffer where
  m_data : List Byte
  m_capacity : Nat
  m_offset : Nat
  inside : m_capacity ≤ 8 * m_data.length

inductive Outcome (α : Type) where
  | done (result : α)
  | refused
  | undefined

def Outcome.bind {α β : Type} : Outcome α → (α → Outcome β) → Outcome β
  | done a,f => f a
  | refused,_ => refused
  | undefined,_ => undefined

theorem Outcome.bindDone {α β : Type} {x : Outcome α} {f : α → Outcome β} {b : β} (ends : x.bind f = .done b) :
    ∃ a, x = .done a ∧ f a = .done b := by
  cases x with
  | done a => exact ⟨a,rfl,ends⟩
  | refused => cases ends
  | undefined => cases ends

def GetBitMask (bitCount : Nat) : Outcome Nat :=
  if bitCount < 64 then .done (2 ^ bitCount - 1) else .undefined

def shiftRight (value : Nat) (count : Int) : Outcome Nat :=
  if 0 ≤ count ∧ count < 64 then .done (value >>> count.toNat) else .undefined

namespace BitBuffer

def stored (b : BitBuffer) (byteIndex : Nat) (bytes : List Byte) (newPosition : Nat) : BitBuffer :=
  ⟨store b.m_data byteIndex bytes,b.m_capacity,newPosition,
    by rw [LittleEndian.storeLength]; exact b.inside⟩

def merged (current newBits usedBits : Nat) : Nat :=
  (current &&& (2 ^ usedBits - 1)) ||| (newBits <<< usedBits)

def Write (T TWriteType : Nat) (b : BitBuffer) (value bitSize : Nat) : Outcome BitBuffer :=
  let newPosition := b.m_offset + bitSize
  let usedBits := b.m_offset % 8
  let byteIndex := b.m_offset / 8
  let maxWrittenBits := usedBits + bitSize
  if T * 8 < bitSize then .refused
  else if b.m_capacity < newPosition then .refused
  else if T = TWriteType ∧ TWriteType * 8 < maxWrittenBits then
    let bitsToFill := 8 - usedBits
    let start := merged (load b.m_data byteIndex 1) (value &&& (2 ^ bitsToFill - 1)) usedBits
    .done (b.stored byteIndex
      (LittleEndian.bytes 1 start ++ LittleEndian.bytes 8 (value >>> bitsToFill)) newPosition)
  else
    (GetBitMask bitSize).bind (fun mask =>
      let freeBits := b.m_capacity - byteIndex * 8
      if freeBits < TWriteType * 8 then
        let temp := merged (load b.m_data byteIndex 1) (value &&& mask) usedBits
        let bytesToWrite := (maxWrittenBits + 7) / 8
        .done (b.stored byteIndex (LittleEndian.bytes bytesToWrite temp) newPosition)
      else
        let start := merged (load b.m_data byteIndex TWriteType) (value &&& mask) usedBits
        .done (b.stored byteIndex (LittleEndian.bytes TWriteType start) newPosition))

def ReadBitArea (TResult value startBit bitSize : Nat) : Outcome Nat :=
  (GetBitMask bitSize).bind (fun mask => .done ((value >>> startBit) % 256 ^ TResult &&& mask))

def Read (T TReadType : Nat) (b : BitBuffer) (bitSize : Nat) : Outcome (Nat × BitBuffer) :=
  let newPosition := b.m_offset + bitSize
  let usedBits := b.m_offset % 8
  let byteIndex := b.m_offset / 8
  let maxReadableBits := usedBits + bitSize
  let moved := { b with m_offset := newPosition }
  if T * 8 < bitSize then .refused
  else if b.m_capacity < newPosition then .refused
  else if T = TReadType ∧ TReadType * 8 < maxReadableBits then
    let bitsToFill := 8 - usedBits
    (shiftRight (load b.m_data byteIndex TReadType >>> usedBits) (8 - (bitSize : Int))).bind (fun shifted =>
      let startElement := shifted &&& (2 ^ bitsToFill - 1)
      let endElement := (load b.m_data (byteIndex + 1) T <<< bitsToFill) % 256 ^ T
      .done (startElement ||| endElement,moved))
  else
    let freeBits := b.m_capacity - byteIndex * 8
    let bytesToRead := if freeBits < TReadType * 8 then (maxReadableBits + 7) / 8 else TReadType
    (ReadBitArea T (load b.m_data byteIndex bytesToRead) usedBits bitSize).bind (fun value => .done (value,moved))

def writeBool (b : BitBuffer) (val : Nat) : Outcome BitBuffer :=
  let newPosition := b.m_offset + 1
  if b.m_capacity < newPosition then .refused
  else
    let startByteIndex := b.m_offset / 8
    if b.m_capacity ≤ startByteIndex then .refused
    else
      let shift := 7 - b.m_offset % 8
      let byte := (byteAt b.m_data startByteIndex &&& ~~~(1#8 <<< shift)) ||| (BitVec.ofNat 8 val <<< shift)
      .done (b.stored startByteIndex [byte] newPosition)

def readBool (b : BitBuffer) : Outcome (Nat × BitBuffer) :=
  let newPosition := b.m_offset + 1
  if b.m_capacity < newPosition then .refused
  else
    let startByteIndex := b.m_offset / 8
    let shift := 7 - b.m_offset % 8
    .done (((byteAt b.m_data startByteIndex >>> shift) &&& 1#8).toNat,{ b with m_offset := newPosition })

end BitBuffer

inductive Number where
  | uint8 | uint16 | uint32 | uint64
  deriving DecidableEq, Repr

def Number.sizeof : Number → Nat
  | uint8 => 1
  | uint16 => 2
  | uint32 => 4
  | uint64 => 8

def Number.element : Number → Nat
  | uint8 => 2
  | uint16 => 4
  | uint32 | uint64 => 8

inductive FieldCall where
  | bool
  | boolOfSize
  | number (type : Number) (bitSize : Nat) (positive : 0 < bitSize) (small : bitSize ≤ 8 * type.sizeof)

namespace FieldCall

def width : FieldCall → Nat
  | bool | boolOfSize => 1
  | number _ bitSize _ _ => bitSize

-- The writer has no `Field` for a `bool` with a size other than the general one.
def write (b : BitBuffer) : FieldCall → Nat → Outcome BitBuffer
  | bool,value => b.writeBool value
  | boolOfSize,value => b.Write 1 8 value 1
  | number type bitSize _ _,value => b.Write type.sizeof type.element value bitSize

def read (b : BitBuffer) : FieldCall → Outcome (Nat × BitBuffer)
  | bool | boolOfSize => b.readBool
  | number type bitSize _ _ => b.Read type.sizeof type.element bitSize

abbrev Value (f : FieldCall) := Fin (2 ^ f.width)

def writeAll (b : BitBuffer) : List ((f : FieldCall) × f.Value) → Outcome BitBuffer
  | [] => .done b
  | ⟨f,value⟩ :: fields => (f.write b value).bind (fun b => writeAll b fields)

def readAll (b : BitBuffer) : List FieldCall → Outcome (List Nat × BitBuffer)
  | [] => .done ([],b)
  | f :: fields => (f.read b).bind (fun first =>
    (readAll first.2 fields).bind (fun later => .done (first.1 :: later.1,later.2)))

end FieldCall

/-! When the fields that a `BitWriter` took come out of a `BitReader`. -/

namespace BitBuffer

theorem testBitMerged (current newBits usedBits q : Nat) : (merged current newBits usedBits).testBit q =
    if q < usedBits then current.testBit q else newBits.testBit (q - usedBits) := by
  rw [merged,Nat.testBit_or,Nat.testBit_and,Nat.testBit_two_pow_sub_one,Nat.testBit_shiftLeft]
  split
  · rename_i low
    rw [decide_eq_true low,decide_eq_false (by omega),Bool.and_true,Bool.false_and,Bool.or_false]
  · rename_i high
    rw [decide_eq_false high,decide_eq_true (by omega),Bool.and_false,Bool.false_or,Bool.true_and]

structure Wrote (b b' : BitBuffer) (width value : Nat) : Prop where
  capacity : b'.m_capacity = b.m_capacity
  length : b'.m_data.length = b.m_data.length
  offset : b'.m_offset = b.m_offset + width
  bits : ∃ count, 0 < count ∧ b.m_offset % 8 + width ≤ 8 * count ∧ ∀ p, lowBit b'.m_data p =
    if b.m_offset ≤ p ∧ p < 8 * (b.m_offset / 8 + count) then value.testBit (p - b.m_offset)
    else lowBit b.m_data p

theorem storedWrote {b : BitBuffer} {bytes : List Byte} {width value : Nat} (positive : 0 < bytes.length)
    (long : b.m_offset % 8 + width ≤ 8 * bytes.length) (room : b.m_offset / 8 + bytes.length ≤ b.m_data.length)
    (front : ∀ q < b.m_offset % 8, lowBit bytes q = lowBit b.m_data (8 * (b.m_offset / 8) + q))
    (behind : ∀ q < 8 * bytes.length, b.m_offset % 8 ≤ q → lowBit bytes q = value.testBit (q - b.m_offset % 8)) :
    b.Wrote (b.stored (b.m_offset / 8) bytes (b.m_offset + width)) width value := by
  refine ⟨rfl,LittleEndian.storeLength ..,rfl,bytes.length,positive,long,fun p => ?_⟩
  unfold stored
  rw [LittleEndian.lowBitStore room]
  by_cases inside : 8 * (b.m_offset / 8) ≤ p ∧ p < 8 * (b.m_offset / 8 + bytes.length)
  · rw [if_pos inside]
    by_cases before : p < b.m_offset
    · rw [if_neg (by omega),front _ (by omega)]
      congr 1
      omega
    · rw [if_pos (by omega),behind _ (by omega) (by omega)]
      congr 1
      omega
  · rw [if_neg inside,if_neg (by omega)]

theorem maskKeeps {value bitSize : Nat} (fits : value < 2 ^ bitSize) : value &&& (2 ^ bitSize - 1) = value := by
  rw [Nat.and_two_pow_sub_one_eq_mod,Nat.mod_eq_of_lt fits]

theorem mergedBits {current value usedBits count q : Nat} (inside : q < 8 * count) :
    lowBit (LittleEndian.bytes count (merged current value usedBits)) q =
      if q < usedBits then current.testBit q else value.testBit (q - usedBits) := by
  rw [LittleEndian.lowBitBytes,decide_eq_true inside,Bool.true_and,testBitMerged]

theorem mergedWrote {b : BitBuffer} {value bitSize count loaded : Nat} (positive : 0 < count) (some : 0 < loaded)
    (long : b.m_offset % 8 + bitSize ≤ 8 * count) (room : b.m_offset / 8 + count ≤ b.m_data.length) :
    b.Wrote (b.stored (b.m_offset / 8) (LittleEndian.bytes count
      (merged (load b.m_data (b.m_offset / 8) loaded) value (b.m_offset % 8))) (b.m_offset + bitSize))
      bitSize value := by
  have length := LittleEndian.bytesLength count
    (merged (load b.m_data (b.m_offset / 8) loaded) value (b.m_offset % 8))
  refine storedWrote (by omega) (by omega) (by omega) (fun q low => ?_) (fun q inside high => ?_)
  · rw [mergedBits (by omega),if_pos low,LittleEndian.testBitLoad,decide_eq_true (by omega),Bool.true_and]
  · rw [mergedBits (by omega),if_neg (by omega)]

theorem writeDone {T TWriteType : Nat} {b b' : BitBuffer} {value bitSize : Nat} (positive : 0 < bitSize)
    (wide : T < TWriteType ∨ T = TWriteType ∧ T = 8) (fits : value < 2 ^ bitSize)
    (written : Write T TWriteType b value bitSize = .done b') : b.Wrote b' bitSize value := by
  have inside := b.inside
  have column : b.m_offset % 8 < 8 := Nat.mod_lt _ (by decide)
  unfold Write at written
  dsimp only at written
  split at written
  · cases written
  rename_i small
  split at written
  · cases written
  rename_i room
  split at written
  · rename_i multi
    cases written
    have length (n : Nat) := LittleEndian.bytesLength 1 n
    have length' := LittleEndian.bytesLength 8 (value >>> (8 - b.m_offset % 8))
    refine storedWrote ?_ ?_ ?_ (fun q low => ?_) (fun q within high => ?_)
    · rw [List.length_append,length,length']
      omega
    · rw [List.length_append,length,length']
      omega
    · rw [List.length_append,length,length']
      omega
    · rw [LittleEndian.lowBitAppend,length,if_pos (by omega),mergedBits (by omega),if_pos low,
        LittleEndian.testBitLoad,decide_eq_true (by omega),Bool.true_and]
    · rw [List.length_append,length,length'] at within
      rw [LittleEndian.lowBitAppend,length]
      split
      · rw [mergedBits (by omega),if_neg (by omega),Nat.testBit_and,Nat.testBit_two_pow_sub_one,
          decide_eq_true (by omega),Bool.and_true]
      · rw [LittleEndian.lowBitBytes,decide_eq_true (by omega),Bool.true_and,Nat.testBit_shiftRight]
        congr 1
        omega
  · rename_i single
    unfold GetBitMask at written
    split at written
    · dsimp only [Outcome.bind] at written
      rw [maskKeeps fits] at written
      split at written
      · cases written
        exact mergedWrote (by omega) (by decide) (by omega) (by omega)
      · cases written
        exact mergedWrote (by omega) (by omega) (by omega) (by omega)
    · cases written

theorem writeFine {T TWriteType : Nat} {b : BitBuffer} {value bitSize : Nat} (small : bitSize ≤ 8 * T)
    (narrow : bitSize < 64) (room : b.m_offset + bitSize ≤ b.m_capacity) :
    ∃ b', Write T TWriteType b value bitSize = .done b' := by
  unfold Write GetBitMask
  dsimp only
  rw [if_neg (by omega),if_neg (by omega),if_pos narrow]
  split
  · exact ⟨_,rfl⟩
  · dsimp only [Outcome.bind]
    split
    · exact ⟨_,rfl⟩
    · exact ⟨_,rfl⟩

theorem testBitArea {T value startBit bitSize : Nat} (small : bitSize ≤ 8 * T) (j : Nat) :
    ((value >>> startBit) % 256 ^ T &&& (2 ^ bitSize - 1)).testBit j =
      (decide (j < bitSize) && value.testBit (startBit + j)) := by
  rw [Nat.testBit_and,Nat.testBit_two_pow_sub_one,show 256 = 2 ^ 8 from rfl,← Nat.pow_mul,Nat.testBit_mod_two_pow,
    Nat.testBit_shiftRight]
  by_cases inside : j < bitSize
  · rw [decide_eq_true inside,decide_eq_true (by omega),Bool.true_and,Bool.and_true]
  · rw [decide_eq_false inside,Bool.and_false,Bool.false_and]

section
variable {T TReadType : Nat} {b : BitBuffer} {bitSize : Nat}

theorem readFine (wide : T < TReadType ∨ T = TReadType)
    (small : bitSize ≤ 8 * T) (narrow : bitSize < 64)
    (single : ¬(T = TReadType ∧ TReadType * 8 < b.m_offset % 8 + bitSize))
    (room : b.m_offset + bitSize ≤ b.m_capacity) :
    ∃ value, Read T TReadType b bitSize = .done (value,{ b with m_offset := b.m_offset + bitSize }) ∧
      ∀ j, value.testBit j = (decide (j < bitSize) && lowBit b.m_data (b.m_offset + j)) := by
  have column : b.m_offset % 8 < 8 := Nat.mod_lt _ (by decide)
  unfold Read ReadBitArea GetBitMask
  dsimp only
  rw [if_neg (by omega),if_neg (by omega),if_neg single,if_pos narrow]
  refine ⟨_,rfl,fun j => ?_⟩
  rw [testBitArea small,LittleEndian.testBitLoad,show 8 * (b.m_offset / 8) + (b.m_offset % 8 + j) =
    b.m_offset + j by omega]
  by_cases inside : j < bitSize
  · rw [decide_eq_true inside,Bool.true_and,Bool.true_and,decide_eq_true ?_,Bool.true_and]
    split <;> omega
  · rw [decide_eq_false inside,Bool.false_and,Bool.false_and]

theorem readDone {r : Nat × BitBuffer}
    (most : T = TReadType → T = 8) (read : Read T TReadType b bitSize = .done r) :
    bitSize < 64 ∧ ¬(T = TReadType ∧ TReadType * 8 < b.m_offset % 8 + bitSize) ∧
      r.2 = { b with m_offset := b.m_offset + bitSize } := by
  have column : b.m_offset % 8 < 8 := Nat.mod_lt _ (by decide)
  unfold Read at read
  dsimp only at read
  split at read
  · cases read
  split at read
  · cases read
  split at read
  · rename_i multi
    have eight := most multi.1
    unfold shiftRight at read
    rw [if_neg (by omega)] at read
    cases read
  · rename_i single
    unfold ReadBitArea GetBitMask at read
    split at read
    · rename_i narrow
      cases read
      exact ⟨narrow,single,rfl⟩
    · cases read

end

theorem bitOfByte (byte : Byte) {shift : Nat} : (byte >>> shift &&& 1#8).toNat = (byte.getLsbD shift).toNat := by
  rw [BitVec.toNat_and,BitVec.toNat_ushiftRight]
  have one : (1#8).toNat = 1 := rfl
  rw [one,Nat.and_one_is_mod,← BitVec.testBit_toNat,Nat.testBit_eq_decide_div_mod_eq,Nat.shiftRight_eq_div_pow]
  rcases Nat.mod_two_eq_zero_or_one (byte.toNat / 2 ^ shift) with low | high
  · rw [low]
    rfl
  · rw [high]
    rfl

theorem readBoolFine {b : BitBuffer} (room : b.m_offset + 1 ≤ b.m_capacity) :
    readBool b = .done ((lowBit b.m_data (mirror b.m_offset)).toNat,{ b with m_offset := b.m_offset + 1 }) := by
  have column : b.m_offset % 8 < 8 := Nat.mod_lt _ (by decide)
  unfold readBool
  dsimp only
  rw [if_neg (by omega),bitOfByte,LittleEndian.lowBitMirror,bitAt,BitVec.getMsbD_eq_getLsbD,decide_eq_true column,
    Bool.true_and]

theorem writeBoolFine {b : BitBuffer} {val : Nat} (small : val < 2) (room : b.m_offset + 1 ≤ b.m_capacity) :
    ∃ b', writeBool b val = .done b' ∧ b'.m_capacity = b.m_capacity ∧ b'.m_data.length = b.m_data.length ∧
      b'.m_offset = b.m_offset + 1 ∧
      ∀ p, lowBit b'.m_data p = if p = mirror b.m_offset then val.testBit 0 else lowBit b.m_data p := by
  have inside := b.inside
  have column : b.m_offset % 8 < 8 := Nat.mod_lt _ (by decide)
  unfold writeBool
  dsimp only
  rw [if_neg (by omega),if_neg (by omega)]
  refine ⟨_,rfl,rfl,LittleEndian.storeLength ..,rfl,fun p => ?_⟩
  have same : p = mirror b.m_offset ↔ mirror p = b.m_offset :=
    ⟨fun h => by rw [h,LittleEndian.mirrorTwice],fun h => by rw [← h,LittleEndian.mirrorTwice]⟩
  have bits (data : List Byte) : lowBit data p = bitAt data (mirror p) := by
    rw [← LittleEndian.lowBitMirror,LittleEndian.mirrorTwice]
  simp only [bits,same]
  unfold BitBuffer.stored
  simp only [store]
  rw [BitField.bitAtSet]
  by_cases here : mirror p / 8 = b.m_offset / 8
  · rw [if_pos ⟨here,by omega⟩,Rl.getMsbDBit _ small column (Nat.mod_lt _ (by decide))]
    have place : mirror p % 8 = b.m_offset % 8 ↔ mirror p = b.m_offset := by omega
    rw [if_congr place rfl rfl,bitAt,here]
  · rw [if_neg (fun both => here both.1),if_neg (fun equal => here (by rw [equal]))]

end BitBuffer
namespace FieldCall
open BitBuffer (Wrote)

def Places (f : FieldCall) (o p : Nat) : Prop :=
  match f with
  | bool => p = mirror o
  | boolOfSize | number _ _ _ _ => o ≤ p ∧ p < o + f.width

def Touches (f : FieldCall) (o p : Nat) : Prop :=
  match f with
  | bool => p = mirror o
  | boolOfSize | number _ _ _ _ => o ≤ p

def bitOf (f : FieldCall) (o value p : Nat) : Bool :=
  match f with
  | bool => value.testBit 0
  | boolOfSize | number _ _ _ _ => value.testBit (p - o)

structure Left (f : FieldCall) (b b' : BitBuffer) (value : Nat) : Prop where
  capacity : b'.m_capacity = b.m_capacity
  length : b'.m_data.length = b.m_data.length
  offset : b'.m_offset = b.m_offset + f.width
  kept : ∀ p, ¬f.Touches b.m_offset p → lowBit b'.m_data p = lowBit b.m_data p
  there : ∀ p, f.Places b.m_offset p → lowBit b'.m_data p = f.bitOf b.m_offset value p
  added : ∀ p, lowBit b'.m_data p = true →
    lowBit b.m_data p = true ∨ f.Places b.m_offset p ∧ f.bitOf b.m_offset value p = true
  cleared : f ≠ bool → ∀ p, b.m_offset ≤ p → p / 8 = b.m_offset / 8 → ¬f.Places b.m_offset p →
    lowBit b'.m_data p = false

theorem wroteLeft {f : FieldCall} {b b' : BitBuffer} {value : Nat} (other : f ≠ bool)
    (fits : value < 2 ^ f.width) (wrote : b.Wrote b' f.width value) : f.Left b b' value := by
  obtain ⟨capacity,length,offset,count,positive,long,bits⟩ := wrote
  have places (p : Nat) : f.Places b.m_offset p ↔ b.m_offset ≤ p ∧ p < b.m_offset + f.width := by
    cases f <;> first | exact absurd rfl other | exact Iff.rfl
  have bit (p : Nat) : f.bitOf b.m_offset value p = value.testBit (p - b.m_offset) := by
    cases f <;> first | exact absurd rfl other | rfl
  have touches (p : Nat) : f.Touches b.m_offset p ↔ b.m_offset ≤ p := by
    cases f <;> first | exact absurd rfl other | exact Iff.rfl
  have high {j : Nat} (large : f.width ≤ j) : value.testBit j = false :=
    Nat.testBit_lt_two_pow (Nat.lt_of_lt_of_le fits (Nat.pow_le_pow_right (by decide) large))
  refine ⟨capacity,length,offset,fun p away => ?_,fun p here => ?_,fun p set => ?_,fun _ p after same away => ?_⟩
  · rw [touches] at away
    rw [bits,if_neg (by omega)]
  · rw [places] at here
    rw [bits,if_pos (by omega),bit]
  · rw [bits] at set
    split at set
    · rename_i inside
      refine .inr ?_
      rw [places,bit]
      refine ⟨⟨inside.1,?_⟩,set⟩
      by_contra beyond
      rw [high (by omega)] at set
      cases set
    · exact .inl set
  · rw [places] at away
    rw [bits,if_pos (by omega),high (by omega)]

theorem numberWide (type : Number) : type.sizeof < type.element ∨ type.sizeof = type.element ∧ type.sizeof = 8 := by
  cases type <;> decide

theorem writeLeft {f : FieldCall} {b b' : BitBuffer} (value : f.Value) (written : f.write b value = .done b') :
    f.Left b b' value := by
  have fits := value.isLt
  cases f with
  | bool =>
    have room : b.m_offset + 1 ≤ b.m_capacity := by
      by_contra full
      have refused : b.writeBool value.val = .refused := if_pos (by omega)
      cases refused.symm.trans written
    obtain ⟨b₁,written',capacity,length,offset,bits⟩ := @BitBuffer.writeBoolFine b value.val fits room
    cases written'.symm.trans written
    refine ⟨capacity,length,offset,fun p away => (bits p).trans (if_neg away),
      fun p here => (bits p).trans (if_pos here),fun p set => ?_,fun other => absurd rfl other⟩
    rw [bits] at set
    split at set
    · rename_i here
      exact .inr ⟨here,set⟩
    · exact .inl set
  | boolOfSize =>
    exact wroteLeft (by simp) fits (@BitBuffer.writeDone 1 8 b b' value.val 1 Nat.one_pos (.inl (by decide)) fits written)
  | number type bitSize positive small =>
    exact wroteLeft (by simp) fits (BitBuffer.writeDone positive (numberWide type) fits written)

def Fine (f : FieldCall) (o : Nat) : Prop :=
  match f with
  | bool => True
  | boolOfSize => False
  | number type bitSize _ _ => bitSize < 64 ∧ (type = .uint64 → o % 8 + bitSize ≤ 64)

theorem fineSingle {type : Number} {o bitSize : Nat} : (type = .uint64 → o % 8 + bitSize ≤ 64) ↔
      ¬(type.sizeof = type.element ∧ type.element * 8 < o % 8 + bitSize) := by
  cases type <;> simp [Number.sizeof,Number.element]

section
variable {f : FieldCall} {b : BitBuffer} (value : f.Value) (fine : f.Fine b.m_offset)
  (room : b.m_offset + f.width ≤ b.m_capacity)
include fine room

theorem writeFine : ∃ b', f.write b value = .done b' := by
  cases f with
  | bool =>
    obtain ⟨b',written,_⟩ := @BitBuffer.writeBoolFine b value.val value.isLt room
    exact ⟨b',written⟩
  | boolOfSize => exact absurd fine id
  | number type bitSize positive small => exact BitBuffer.writeFine small fine.1 room

theorem readFine (there : ∀ p, f.Places b.m_offset p → lowBit b.m_data p = f.bitOf b.m_offset value p) :
    f.read b = .done (value.val,{ b with m_offset := b.m_offset + f.width }) := by
  have fits := value.isLt
  cases f with
  | bool =>
    have bit : lowBit b.m_data (mirror b.m_offset) = value.val.testBit 0 := there _ rfl
    refine (BitBuffer.readBoolFine room).trans ?_
    rw [bit]
    have cases : value.val = 0 ∨ value.val = 1 := by simp only [width] at fits; omega
    rcases cases with none | one
    · rw [none]
      rfl
    · rw [one]
      rfl
  | boolOfSize => exact absurd fine id
  | number type bitSize positive small =>
    obtain ⟨read,found,bits⟩ := BitBuffer.readFine ((numberWide type).imp id And.left) small fine.1
      (fineSingle.mp fine.2) room
    have same : read = value.val := by
      refine Nat.eq_of_testBit_eq (fun j => ?_)
      rw [bits]
      by_cases inside : j < bitSize
      · rw [decide_eq_true inside,Bool.true_and,there _ ⟨Nat.le_add_right .., Nat.add_lt_add_left inside _⟩]
        simp only [bitOf,Nat.add_sub_cancel_left]
      · rw [decide_eq_false inside,Bool.false_and,Nat.testBit_lt_two_pow]
        exact Nat.lt_of_lt_of_le fits (Nat.pow_le_pow_right (by decide) (by simp only [width]; omega))
    rw [← same]
    exact found

end

theorem readTells {f : FieldCall} {b : BitBuffer} {r : Nat × BitBuffer} (read : f.read b = .done r) :
    (f ≠ boolOfSize → f.Fine b.m_offset) ∧ r.2 = { b with m_offset := b.m_offset + f.width } := by
  have one {r : Nat × BitBuffer} (read : b.readBool = .done r) : r.2 = { b with m_offset := b.m_offset + 1 } := by
    unfold BitBuffer.readBool at read
    dsimp only at read
    split at read
    · cases read
    · cases read
      rfl
  cases f with
  | bool => exact ⟨fun _ => trivial,one read⟩
  | boolOfSize => exact ⟨fun other => absurd rfl other,one read⟩
  | number type bitSize positive small =>
    obtain ⟨narrow,single,moved⟩ := BitBuffer.readDone
      (fun same => ((numberWide type).resolve_left (by omega)).2) read
    exact ⟨fun _ => ⟨narrow,fineSingle.mpr single⟩,moved⟩

end FieldCall
end Citizen.Net
