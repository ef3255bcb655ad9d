import Citizen.Lib.BitField

/-! Numbers as bytes, the least significant first, and the bits of a byte string in that order. -/
namespace Citizen.LittleEndian
open BitField (Byte byteAt bitAt)

def bytes : Nat → Nat → List Byte
  | 0,_ => []
  | width + 1,value => BitVec.ofNat 8 value :: bytes width (value / 256)

def value : List Byte → Nat
  | [] => 0
  | b :: rest => b.toNat + 256 * value rest

@[simp] theorem bytesLength (width n : Nat) : (bytes width n).length = width := by
  induction width generalizing n with
  | zero => rfl
  | succ width ih => simp [bytes,ih]

theorem valueBytes (width n : Nat) : value (bytes width n) = n % 256 ^ width := by
  induction width generalizing n with
  | zero => simp [bytes,value,Nat.mod_one]
  | succ width ih =>
    have split : n % 256 ^ (width + 1) = n % 256 + 256 * (n / 256 % 256 ^ width) := by
      rw [Nat.pow_succ,Nat.mul_comm,Nat.mod_mul]
    rw [bytes,value,ih,BitVec.toNat_ofNat,split]

theorem valueBytesSmall {width n : Nat} (small : n < 256 ^ width) : value (bytes width n) = n := by
  rw [valueBytes,Nat.mod_eq_of_lt small]

variable (data : List Byte)

theorem valueSmall : value data < 256 ^ data.length := by
  induction data with
  | nil => simp [value]
  | cons b rest ih =>
    have low := b.isLt
    rw [value,List.length_cons,Nat.pow_succ]
    omega

theorem bytesValue : bytes data.length (value data) = data := by
  induction data with
  | nil => rfl
  | cons b rest ih =>
    have low := b.isLt
    have rest' : (b.toNat + 256 * value rest) / 256 = value rest := by omega
    rw [List.length_cons,bytes,value,rest',ih]
    congr 1
    exact BitVec.eq_of_toNat_eq (by rw [BitVec.toNat_ofNat]; omega)

def lowBit (data : List Byte) (p : Nat) : Bool := (byteAt data (p / 8)).getLsbD (p % 8)

def mirror (p : Nat) : Nat := 8 * (p / 8) + 7 - p % 8

theorem mirrorTwice (p : Nat) : mirror (mirror p) = p := by
  unfold mirror
  omega

theorem lowBitMirror (p : Nat) : lowBit data (mirror p) = bitAt data p := by
  have byte : mirror p / 8 = p / 8 := by unfold mirror; omega
  have column : mirror p % 8 = 7 - p % 8 := by unfold mirror; omega
  have inside : p % 8 < 8 := Nat.mod_lt _ (by decide)
  rw [lowBit,bitAt,byte,column,BitVec.getMsbD_eq_getLsbD]
  simp only [inside,decide_true,Bool.true_and]

theorem testBitValue (p : Nat) : (value data).testBit p = lowBit data p := by
  induction data generalizing p with
  | nil => simp [value,lowBit,byteAt]
  | cons b rest ih =>
    have low := b.isLt
    rw [value,Nat.add_comm,show 256 = 2 ^ 8 from rfl,Nat.testBit_two_pow_mul_add _ low]
    split
    · rename_i here
      rw [lowBit,show p / 8 = 0 by omega,show p % 8 = p by omega,BitVec.testBit_toNat]
      rfl
    · rename_i later
      rw [ih,lowBit,lowBit,show p / 8 = (p - 8) / 8 + 1 by omega,show (p - 8) % 8 = p % 8 by omega]
      rfl

theorem lowBitBytes (width n p : Nat) : lowBit (bytes width n) p = (decide (p < 8 * width) && n.testBit p) := by
  rw [← testBitValue,valueBytes,show 256 = 2 ^ 8 from rfl,← Nat.pow_mul,Nat.testBit_mod_two_pow]

theorem lowBitAppend (a b : List Byte) (p : Nat) :
    lowBit (a ++ b) p = if p < 8 * a.length then lowBit a p else lowBit b (p - 8 * a.length) := by
  simp only [lowBit,byteAt,List.getD_eq_getElem?_getD]
  split
  · rw [List.getElem?_append_left (by omega)]
  · rw [List.getElem?_append_right (by omega),
      show (p - 8 * a.length) / 8 = p / 8 - a.length by omega,
      show (p - 8 * a.length) % 8 = p % 8 by omega]

def store (data : List Byte) (i : Nat) : List Byte → List Byte
  | [] => data
  | b :: bytes => store (data.set i b) (i + 1) bytes

@[simp] theorem storeLength (i : Nat) (bytes : List Byte) : (store data i bytes).length = data.length := by
  induction bytes generalizing data i with
  | nil => rfl
  | cons b bytes ih => rw [store,ih,List.length_set]

theorem lowBitStore {data bytes : List Byte} {i : Nat} (inside : i + bytes.length ≤ data.length) (p : Nat) :
    lowBit (store data i bytes) p =
      if 8 * i ≤ p ∧ p < 8 * (i + bytes.length) then lowBit bytes (p - 8 * i) else lowBit data p := by
  induction bytes generalizing data i with
  | nil => rw [store,if_neg (by rw [List.length_nil]; omega)]
  | cons b bytes ih =>
    rw [List.length_cons] at inside ⊢
    rw [store,ih (by rw [List.length_set]; omega)]
    have set : lowBit (data.set i b) p = if p / 8 = i then b.getLsbD (p % 8) else lowBit data p := by
      rw [lowBit,BitField.byteAtSet]
      by_cases here : p / 8 = i
      · rw [if_pos ⟨here,by omega⟩,if_pos here]
      · rw [if_neg (fun both => here both.1),if_neg here,lowBit]
    rw [set]
    by_cases later : 8 * (i + 1) ≤ p ∧ p < 8 * (i + 1 + bytes.length)
    · rw [if_pos later,if_pos (by omega),lowBit,lowBit,show (p - 8 * i) / 8 = (p - 8 * (i + 1)) / 8 + 1 by omega,
        show (p - 8 * i) % 8 = (p - 8 * (i + 1)) % 8 by omega]
      rfl
    · rw [if_neg later]
      by_cases here : p / 8 = i
      · rw [if_pos here,if_pos (by omega),lowBit,show (p - 8 * i) / 8 = 0 by omega,
          show (p - 8 * i) % 8 = p % 8 by omega]
        rfl
      · rw [if_neg here,if_neg (by omega)]

def load (data : List Byte) (i n : Nat) : Nat := value ((data.drop i).take n)

theorem testBitLoad (i n p : Nat) : (load data i n).testBit p = (decide (p < 8 * n) && lowBit data (8 * i + p)) := by
  rw [load,testBitValue,lowBit,lowBit,show (8 * i + p) / 8 = i + p / 8 by omega,
    show (8 * i + p) % 8 = p % 8 by omega]
  simp only [byteAt,List.getD_eq_getElem?_getD,List.getElem?_take,List.getElem?_drop]
  by_cases inside : p < 8 * n
  · rw [if_pos (by omega),decide_eq_true inside,Bool.true_and]
  · rw [if_neg (by omega),decide_eq_false inside,Bool.false_and]
    exact BitVec.getLsbD_zero

theorem lowBitReverse {p : Nat} (inside : p < 8 * data.length) :
    lowBit data.reverse p = lowBit data (8 * (data.length - 1 - p / 8) + p % 8) := by
  have byte : (8 * (data.length - 1 - p / 8) + p % 8) / 8 = data.length - 1 - p / 8 := by omega
  have column : (8 * (data.length - 1 - p / 8) + p % 8) % 8 = p % 8 := by omega
  rw [lowBit,lowBit,byte,column,byteAt,byteAt,List.getD_eq_getElem?_getD,List.getD_eq_getElem?_getD,
    List.getElem?_reverse (by omega)]

theorem getLsbDValue {width p : Nat} (inside : p < width) :
    (BitVec.ofNat width (value data)).getLsbD p = lowBit data p := by
  rw [BitVec.getLsbD_ofNat,decide_eq_true inside,Bool.true_and,testBitValue]

theorem valueReverse {width : Nat} {data : List Byte} (size : 8 * data.length = width) (v : BitVec width)
    (swapped : ∀ p < width, v.getLsbD p = lowBit data (8 * (data.length - 1 - p / 8) + p % 8)) :
    v = .ofNat width (value data.reverse) := by
  apply BitVec.eq_of_getLsbD_eq
  intro p inside
  rw [swapped p inside,getLsbDValue _ inside,lowBitReverse data (by omega)]

end Citizen.LittleEndian
