import Mathlib.Data.List.Basic
import Mathlib.Tactic.Ring

/-! Bits of a byte string, most significant bit of each byte first, and fields of
bits at a position. Nothing here refers to a program; a writer is described by the
bits it changes and a reader by the field it returns. -/
namespace Citizen.BitField

abbrev Byte := BitVec 8

def byteAt (data : List Byte) (i : Nat) : Byte := data.getD i 0

def bitAt (data : List Byte) (i : Nat) : Bool := (byteAt data (i / 8)).getMsbD (i % 8)

def Field (data : List Byte) (start width value : Nat) : Prop :=
  ∀ k < width, bitAt data (start + k) = value.testBit (width - 1 - k)

variable (data : List Byte)

theorem byteAtSet (n : Nat) (b : Byte) (i : Nat) :
    byteAt (data.set n b) i = if i = n ∧ n < data.length then b else byteAt data i := by
  simp only [byteAt, List.getD_eq_getElem?_getD, List.getElem?_set]
  by_cases same : n = i
  · subst same
    by_cases inside : n < data.length <;> simp [inside]
  · simp [same, Ne.symm same]

theorem bitAtSet (n : Nat) (b : Byte) (i : Nat) :
    bitAt (data.set n b) i =
      if i / 8 = n ∧ n < data.length then b.getMsbD (i % 8) else bitAt data i := by
  simp only [bitAt, byteAtSet]
  split <;> rfl

theorem byteAtOfBits {a b : List Byte} {i j : Nat}
    (same : ∀ k < 8, bitAt a (8 * i + k) = bitAt b (8 * j + k)) : byteAt a i = byteAt b j := by
  apply BitVec.eq_of_getMsbD_eq
  intro k hk
  have h := same k hk
  simp only [bitAt] at h
  rwa [show (8 * i + k) / 8 = i by omega, show (8 * i + k) % 8 = k by omega,
    show (8 * j + k) / 8 = j by omega, show (8 * j + k) % 8 = k by omega] at h

theorem bitAtDrop (n i : Nat) : bitAt (data.drop n) i = bitAt data (8 * n + i) := by
  simp only [bitAt, byteAt, List.getD_eq_getElem?_getD, List.getElem?_drop]
  rw [show (8 * n + i) / 8 = n + i / 8 by omega, show (8 * n + i) % 8 = i % 8 by omega]

theorem bitAtTake (n : Nat) {i : Nat} (inside : i < 8 * n) : bitAt (data.take n) i = bitAt data i := by
  simp only [bitAt, byteAt, List.getD_eq_getElem?_getD]
  rw [List.getElem?_take_of_lt (by omega)]

theorem bitAtAppend (a b : List Byte) (i : Nat) :
    bitAt (a ++ b) i = if i < 8 * a.length then bitAt a i else bitAt b (i - 8 * a.length) := by
  simp only [bitAt,byteAt,List.getD_eq_getElem?_getD]
  split
  · rw [List.getElem?_append_left (by omega)]
  · rw [List.getElem?_append_right (by omega),
      show (i - 8 * a.length) / 8 = i / 8 - a.length by omega,
      show (i - 8 * a.length) % 8 = i % 8 by omega]

theorem byteAtAppend (front rest : List Byte) (i : Nat) :
    byteAt (front ++ rest) (front.length + i) = byteAt rest i := by
  rw [byteAt,byteAt,List.getD_eq_getElem?_getD,List.getElem?_append_right (Nat.le_add_right ..),
    Nat.add_sub_cancel_left,List.getD_eq_getElem?_getD]

theorem dropByte {data : List Byte} {p : Nat} (inside : p < data.length) :
    data.drop p = byteAt data p :: data.drop (p + 1) := by
  rw [byteAt,List.getD_eq_getElem?_getD,List.getElem?_eq_getElem inside,Option.getD_some]
  exact List.drop_eq_getElem_cons inside

theorem byteAtZeros (n i : Nat) : byteAt (List.replicate n 0) i = 0 := by
  simp only [byteAt,List.getD_eq_getElem?_getD,List.getElem?_replicate]
  split <;> rfl

theorem bitAtZeros (n i : Nat) : bitAt (List.replicate n 0) i = false := by
  rw [bitAt,byteAtZeros]
  exact BitVec.getMsbD_zero

theorem eqOfBits {a b : List Byte} (length : a.length = b.length)
    (same : ∀ i < 8 * a.length, bitAt a i = bitAt b i) : a = b := by
  apply List.ext_getElem length
  intro i ha hb
  have h : byteAt a i = byteAt b i := byteAtOfBits (fun k hk => same (8 * i + k) (by omega))
  simpa [byteAt, List.getD_eq_getElem?_getD, ha, hb] using h

section
variable {old new : List Byte} {start width value : Nat} (field : Field old start width value)
include field

theorem Field.ofUnchanged (unchanged : ∀ k < width, bitAt new (start + k) = bitAt old (start + k)) :
    Field new start width value :=
  fun k hk => (unchanged k hk).trans (field k hk)

theorem Field.ofPrefix (unchanged : ∀ i < start + width, bitAt new i = bitAt old i) : Field new start width value :=
  field.ofUnchanged (fun k hk => unchanged (start + k) (by omega))

end

def Fields (data : List Byte) : Nat → List (Nat × Nat) → Prop
  | _,[] => True
  | start,(width,value) :: rest => Field data start width value ∧ Fields data (start + width) rest

def widthOf (fields : List (Nat × Nat)) : Nat := (fields.map Prod.fst).sum

@[simp] theorem widthOfNil : widthOf [] = 0 := rfl

@[simp] theorem widthOfCons (width value : Nat) (rest : List (Nat × Nat)) :
    widthOf ((width,value) :: rest) = width + widthOf rest := rfl

@[simp] theorem widthOfAppend (first second : List (Nat × Nat)) :
    widthOf (first ++ second) = widthOf first + widthOf second := by
  simp [widthOf]

variable {data : List Byte} {start : Nat}

theorem fieldsAppend {first second : List (Nat × Nat)} :
    Fields data start (first ++ second) ↔ Fields data start first ∧ Fields data (start + widthOf first) second := by
  induction first generalizing start with
  | nil => simp [Fields]
  | cons field rest ih =>
    obtain ⟨width,value⟩ := field
    simp only [List.cons_append,Fields,ih,widthOfCons,and_assoc,Nat.add_assoc]

theorem Fields.ofPrefix {old new : List Byte} {fields : List (Nat × Nat)} (all : Fields old start fields)
    (unchanged : ∀ i < start + widthOf fields, bitAt new i = bitAt old i) : Fields new start fields := by
  induction fields generalizing start with
  | nil => trivial
  | cons field rest ih =>
    obtain ⟨width,value⟩ := field
    rw [widthOfCons] at unchanged
    exact ⟨all.1.ofPrefix (fun i inside => unchanged i (by omega)),
      ih all.2 (fun i inside => unchanged i (by omega))⟩

def byteFields (bytes : List Byte) : List (Nat × Nat) := bytes.map (fun byte => (8,byte.toNat))

theorem widthOfBytes (bytes : List Byte) : widthOf (byteFields bytes) = 8 * bytes.length := by
  induction bytes with
  | nil => rfl
  | cons byte rest ih =>
    rw [byteFields] at ih ⊢
    rw [List.map_cons,widthOfCons,ih,List.length_cons]
    omega

theorem fieldOfByte {byte : Byte} :
    Field data start 8 byte.toNat ↔ ∀ k < 8, bitAt data (start + k) = byte.getMsbD k := by
  refine forall₂_congr (fun k inside => ?_)
  rw [BitVec.getMsbD_eq_getLsbD,← BitVec.testBit_toNat]
  simp [inside]

theorem fieldsOfBytes {bytes : List Byte} : Fields data start (byteFields bytes) ↔
      ∀ i < 8 * bytes.length, bitAt data (start + i) = bitAt bytes i := by
  induction bytes generalizing start with
  | nil => simp [byteFields,Fields]
  | cons byte rest ih =>
    have split : Fields data start (byteFields (byte :: rest)) ↔
        Field data start 8 byte.toNat ∧ Fields data (start + 8) (byteFields rest) := Iff.rfl
    have first : ∀ k < 8, bitAt (byte :: rest) k = byte.getMsbD k := by
      intro k inside
      rw [bitAt,show k / 8 = 0 by omega,show k % 8 = k by omega]
      rfl
    have later : ∀ i, bitAt (byte :: rest) (8 + i) = bitAt rest i := by
      intro i
      rw [bitAt,show (8 + i) / 8 = i / 8 + 1 by omega,show (8 + i) % 8 = i % 8 by omega]
      rfl
    rw [split,fieldOfByte,ih,List.length_cons]
    constructor
    · intro both i inside
      by_cases low : i < 8
      · rw [first i low,both.1 i low]
      · have bit := both.2 (i - 8) (by omega)
        rw [show start + 8 + (i - 8) = start + i by omega] at bit
        rw [bit,← later,show 8 + (i - 8) = i by omega]
    · intro all
      refine ⟨fun k inside => (all k (by omega)).trans (first k inside),fun i inside => ?_⟩
      rw [← later,← all (8 + i) (by omega),Nat.add_assoc]

end Citizen.BitField
