import Citizen.Lib.LittleEndian

/-! `ByteWriter`, `ByteReader` and the byte order of numbers. -/
namespace Citizen.Net
open BitField (Byte)

def htons (hostShort : BitVec 16) : BitVec 16 :=
  ((hostShort >>> 8) &&& 0xff) ||| ((hostShort &&& 0xff) <<< 8)

def htonl (hostLong : BitVec 32) : BitVec 32 :=
  ((hostLong >>> 24) &&& 0x000000FF) ||| ((hostLong >>> 8) &&& 0x0000FF00) |||
    ((hostLong <<< 8) &&& 0x00FF0000) ||| ((hostLong <<< 24) &&& 0xFF000000)

def htonll (hostLongLong : BitVec 64) : BitVec 64 :=
  ((hostLongLong >>> 56) &&& 0x00000000000000FF) ||| ((hostLongLong >>> 40) &&& 0x000000000000FF00) |||
    ((hostLongLong >>> 24) &&& 0x0000000000FF0000) ||| ((hostLongLong >>> 8) &&& 0x00000000FF000000) |||
    ((hostLongLong <<< 8) &&& 0x000000FF00000000) ||| ((hostLongLong <<< 24) &&& 0x0000FF0000000000) |||
    ((hostLongLong <<< 40) &&& 0x00FF000000000000) ||| ((hostLongLong <<< 56) &&& 0xFF00000000000000)

def byteMask (width k : Nat) : BitVec width := BitVec.ofNat width (0xFF * 2 ^ k)

theorem byteMaskBit (width k i : Nat) : (byteMask width k).getLsbD i = decide (i < width ∧ k ≤ i ∧ i < k + 8) := by
  have ones : (0xFF * 2 ^ k).testBit i = (decide (k ≤ i) && decide (i - k < 8)) := by
    rw [show 0xFF = 2 ^ 8 - 1 from rfl,Nat.testBit_mul_two_pow,Nat.testBit_two_pow_sub_one]
  rw [byteMask,BitVec.getLsbD_ofNat,ones]
  grind

theorem htonsMasks (h : BitVec 16) : htons h =
    (h >>> 8 &&& byteMask 16 0) ||| ((h &&& byteMask 16 0) <<< 8) := rfl

theorem htonlMasks (h : BitVec 32) : htonl h =
    (h >>> 24 &&& byteMask 32 0) ||| (h >>> 8 &&& byteMask 32 8) |||
      (h <<< 8 &&& byteMask 32 16) ||| (h <<< 24 &&& byteMask 32 24) := rfl

theorem htonllMasks (h : BitVec 64) : htonll h =
    (h >>> 56 &&& byteMask 64 0) ||| (h >>> 40 &&& byteMask 64 8) ||| (h >>> 24 &&& byteMask 64 16) |||
      (h >>> 8 &&& byteMask 64 24) ||| (h <<< 8 &&& byteMask 64 32) ||| (h <<< 24 &&& byteMask 64 40) |||
      (h <<< 40 &&& byteMask 64 48) ||| (h <<< 56 &&& byteMask 64 56) := rfl

theorem htonsBit (h : BitVec 16) {i : Nat} (inside : i < 16) :
    (htons h).getLsbD i = h.getLsbD (8 * (1 - i / 8) + i % 8) := by
  simp only [htonsMasks,BitVec.getLsbD_or,BitVec.getLsbD_and,BitVec.getLsbD_ushiftRight,BitVec.getLsbD_shiftLeft,
    byteMaskBit]
  have byte : i / 8 = 0 ∨ i / 8 = 1 := by omega
  rcases byte with byte | byte <;> grind

theorem htonlBit (h : BitVec 32) {i : Nat} (inside : i < 32) :
    (htonl h).getLsbD i = h.getLsbD (8 * (3 - i / 8) + i % 8) := by
  simp only [htonlMasks,BitVec.getLsbD_or,BitVec.getLsbD_and,BitVec.getLsbD_ushiftRight,BitVec.getLsbD_shiftLeft,
    byteMaskBit]
  have byte : i / 8 = 0 ∨ i / 8 = 1 ∨ i / 8 = 2 ∨ i / 8 = 3 := by omega
  rcases byte with byte | byte | byte | byte <;> grind

theorem htonllBit (h : BitVec 64) {i : Nat} (inside : i < 64) :
    (htonll h).getLsbD i = h.getLsbD (8 * (7 - i / 8) + i % 8) := by
  simp only [htonllMasks,BitVec.getLsbD_or,BitVec.getLsbD_and,BitVec.getLsbD_ushiftRight,BitVec.getLsbD_shiftLeft,
    byteMaskBit]
  have byte : i / 8 = 0 ∨ i / 8 = 1 ∨ i / 8 = 2 ∨ i / 8 = 3 ∨ i / 8 = 4 ∨ i / 8 = 5 ∨ i / 8 = 6 ∨ i / 8 = 7 := by
    omega
  rcases byte with byte | byte | byte | byte | byte | byte | byte | byte <;> grind

theorem htonsTwice (h : BitVec 16) : htons (htons h) = h := by
  apply BitVec.eq_of_getLsbD_eq
  intro i inside
  rw [htonsBit _ inside,htonsBit _ (by omega)]
  congr 1
  omega

theorem htonlTwice (h : BitVec 32) : htonl (htonl h) = h := by
  apply BitVec.eq_of_getLsbD_eq
  intro i inside
  rw [htonlBit _ inside,htonlBit _ (by omega)]
  congr 1
  omega

theorem htonllTwice (h : BitVec 64) : htonll (htonll h) = h := by
  apply BitVec.eq_of_getLsbD_eq
  intro i inside
  rw [htonllBit _ inside,htonllBit _ (by omega)]
  congr 1
  omega

-- Other sizes do not compile.
def hton (sizeof n : Nat) : Nat :=
  if sizeof = 2 then (htons (BitVec.ofNat 16 n)).toNat
  else if sizeof = 4 then (htonl (BitVec.ofNat 32 n)).toNat
  else if sizeof = 8 then (htonll (BitVec.ofNat 64 n)).toNat
  else n

theorem htonTwice {sizeof n : Nat} (small : n < 256 ^ sizeof) : hton sizeof (hton sizeof n) = n := by
  unfold hton
  split
  · subst sizeof
    rw [BitVec.ofNat_toNat,BitVec.setWidth_eq,htonsTwice,BitVec.toNat_ofNat]
    exact Nat.mod_eq_of_lt small
  · split
    · subst sizeof
      rw [BitVec.ofNat_toNat,BitVec.setWidth_eq,htonlTwice,BitVec.toNat_ofNat]
      exact Nat.mod_eq_of_lt small
    · split
      · subst sizeof
        rw [BitVec.ofNat_toNat,BitVec.setWidth_eq,htonllTwice,BitVec.toNat_ofNat]
        exact Nat.mod_eq_of_lt small
      · rfl

theorem htonSmall {sizeof n : Nat} (small : n < 256 ^ sizeof) : hton sizeof n < 256 ^ sizeof := by
  unfold hton
  split
  · subst sizeof
    exact (htons _).isLt
  · split
    · subst sizeof
      exact (htonl _).isLt
    · split
      · subst sizeof
        exact (htonll _).isLt
      · exact small

abbrev maxObject : Nat := 2^47

structure ByteWriter where
  m_capacity : Fin maxObject
  m_data : List Byte

namespace ByteWriter

def CanWrite (w : ByteWriter) (length : Nat) : Bool := w.m_data.length + length ≤ w.m_capacity

def Field (w : ByteWriter) (value : List Byte) : Option ByteWriter :=
  if w.CanWrite value.length then some { w with m_data := w.m_data ++ value } else none

def room (w : ByteWriter) : Nat := w.m_capacity - w.m_data.length

theorem fieldSome {w w' : ByteWriter} {value : List Byte} (written : w.Field value = some w') :
    w' = { w with m_data := w.m_data ++ value } ∧ value.length ≤ w.room := by
  unfold Field CanWrite at written
  split at written
  · rename_i fits
    cases written
    have fits := of_decide_eq_true fits
    exact ⟨rfl,by unfold room; omega⟩
  · contradiction

end ByteWriter

/-- `garbage` is what variables hold that are not initialised, in the order in which they are
used; `uninitialised` says that one was. `reads` has the offset and length of every read. -/
structure ByteReader where
  m_data : List Byte
  m_offset : Nat
  garbage : Nat → Nat
  uninitialised : Bool
  reads : List (Nat × Nat)

namespace ByteReader

def ofData (data : List Byte) (garbage : Nat → Nat) : ByteReader := ⟨data,0,garbage,false,[]⟩

def CanRead (r : ByteReader) (length : Nat) : Bool := (r.m_offset + length) % 2^64 ≤ r.m_data.length

def Field (r : ByteReader) (length : Nat) : Option (List Byte × ByteReader) :=
  if r.CanRead length then
    some ((r.m_data.drop r.m_offset).take length,
      { r with m_offset := (r.m_offset + length) % 2^64, reads := (r.m_offset,length) :: r.reads })
  else none

def GetRemaining (r : ByteReader) : Nat := r.m_data.length - r.m_offset

def takeGarbage (r : ByteReader) : Nat × ByteReader :=
  (r.garbage 0,{ r with garbage := fun i => r.garbage (i + 1), uninitialised := true })

structure At (r : ByteReader) (bytes : List Byte) : Prop where
  inside : r.m_offset ≤ r.m_data.length
  rest : r.m_data.drop r.m_offset = bytes

structure Moved (r r' : ByteReader) (n : Nat) : Prop where
  data : r'.m_data = r.m_data
  offset : r'.m_offset = r.m_offset + n
  garbage : r'.garbage = r.garbage
  initialised : r'.uninitialised = r.uninitialised

theorem Moved.trans {r r' r'' : ByteReader} {n m : Nat} (first : Moved r r' n) (second : Moved r' r'' m) :
    Moved r r'' (n + m) :=
  ⟨second.data.trans first.data,by rw [second.offset,first.offset]; omega,
    second.garbage.trans first.garbage,second.initialised.trans first.initialised⟩

theorem Moved.refl (r : ByteReader) : Moved r r 0 := ⟨rfl,rfl,rfl,rfl⟩

theorem atOfData (data : List Byte) (garbage) : At (ofData data garbage) data := ⟨Nat.zero_le _,rfl⟩

variable {r : ByteReader}

theorem At.length {bytes} (left : At r bytes) : r.m_offset + bytes.length = r.m_data.length := by
  have inside := left.inside
  rw [← left.rest,List.length_drop]
  omega

theorem At.remaining {bytes} (left : At r bytes) : r.GetRemaining = bytes.length := by
  have whole := left.length
  unfold GetRemaining
  omega

theorem At.moved {r r' : ByteReader} {first second} (left : At r (first ++ second))
    (moved : Moved r r' first.length) : At r' second := by
  have whole := left.length
  rw [List.length_append] at whole
  refine ⟨by rw [moved.data,moved.offset]; omega,?_⟩
  rw [moved.data,moved.offset,← List.drop_drop,left.rest,List.drop_left]

theorem At.field {first second} (left : At r (first ++ second)) (addressable : r.m_data.length < maxObject) :
    ∃ r', r.Field first.length = some (first,r') ∧ Moved r r' first.length := by
  have whole := left.length
  rw [List.length_append] at whole
  have small : (r.m_offset + first.length) % 2^64 = r.m_offset + first.length :=
    Nat.mod_eq_of_lt (by unfold maxObject at addressable; omega)
  unfold Field CanRead
  rw [small,if_pos (decide_eq_true (by omega)),left.rest,List.take_left]
  exact ⟨_,rfl,rfl,rfl,rfl,rfl⟩

theorem At.short {bytes} (left : At r bytes) {length : Nat}
    (short : bytes.length < length) (addressable : r.m_data.length + length < 2^64) : r.Field length = none := by
  have whole := left.length
  have small : (r.m_offset + length) % 2^64 = r.m_offset + length := Nat.mod_eq_of_lt (by omega)
  unfold Field CanRead
  rw [small,if_neg]
  simp only [decide_eq_true_eq]
  omega

end ByteReader
end Citizen.Net
