import Citizen.Net.MessageBufferBits

/-! Runs of fields in a message buffer: what a sequence of writes leaves and what a reader
at a position in it returns. -/
namespace Citizen.Rl
open BitField

theorem memWholeAndTail {i first length : Nat} :
    i ∈ (List.range (length / 8)).map (first + ·) ++ (if length % 8 = 0 then [] else [first + length / 8]) ↔
      first ≤ i ∧ 8 * i < 8 * first + length := by
  rw [List.mem_append,List.mem_map]
  simp only [List.mem_range]
  constructor
  · rintro (⟨j,inside,rfl⟩ | tail)
    · omega
    · split at tail
      · simp at tail
      · rw [List.mem_singleton] at tail
        omega
  · intro bounds
    by_cases whole : i - first < length / 8
    · exact .inl ⟨i - first,whole,by omega⟩
    · rw [if_neg (by omega),List.mem_singleton]
      exact .inr (by omega)

theorem memCopyBitsReads {length s i : Nat} (positive : 0 < length) :
    i ∈ copyBitsReads length s ↔ s / 8 ≤ i ∧ 8 * i < s + length := by
  simp only [copyBitsReads,List.append_assoc]
  rw [List.mem_append,memWholeAndTail]
  by_cases aligned : s % 8 = 0
  · simp only [aligned,if_true,List.not_mem_nil,false_or]
    omega
  · simp only [aligned,if_false,List.mem_singleton]
    omega

structure MessageBuffer.Wrote (old : MessageBuffer) (fields : List (Nat × Nat)) (new : MessageBuffer) : Prop where
  grown : old.Extends new
  cursor : new.curBit = old.curBit + widthOf fields
  fields : Fields new.data old.curBit fields

theorem MessageBuffer.Wrote.append {a b c : MessageBuffer} {first second : List (Nat × Nat)}
    (former : a.Wrote first b) (latter : b.Wrote second c) : a.Wrote (first ++ second) c where
  grown := former.grown.trans latter.grown
  cursor := by rw [latter.cursor,former.cursor,widthOfAppend,Nat.add_assoc]
  fields := by
    rw [fieldsAppend,← former.cursor]
    refine ⟨former.fields.ofPrefix (fun i inside => latter.grown.settled i ?_),latter.fields⟩
    rwa [former.cursor]

def hacked (lengthHack : Bool) (field : Nat × Nat) : Nat × Nat := (hackLength lengthHack field.1,field.2)

def MessageBuffer.writes (lengthHack : Bool) (b : MessageBuffer) (fields : List (Nat × Nat)) : MessageBuffer :=
  fields.foldl (fun b field => b.write lengthHack field.1 field.2) b

section
variable {b : MessageBuffer} {lengthHack : Bool}

theorem hackLengthOther {length : Nat} (other : length ≠ 13) : hackLength lengthHack length = length := by
  simp [hackLength,other]

theorem hackLengthId : hackLength lengthHack 13 = 13 ∨ hackLength lengthHack 13 = 16 := by
  cases lengthHack
  · exact .inl rfl
  · exact .inr rfl

theorem hackLengthBound {length : Nat} (positive : 0 < length) (small : length ≤ 32) :
    0 < hackLength lengthHack length ∧ hackLength lengthHack length ≤ 32 := by
  unfold hackLength
  split <;> omega

theorem wroteFields {fields : List (Nat × Nat)} (sized : b.Sized)
    (bounded : ∀ field ∈ fields, 0 < field.1 ∧ field.1 ≤ 32)
    (room : b.curBit + widthOf (fields.map (hacked lengthHack)) ≤ 8 * b.data.length) :
    b.Wrote (fields.map (hacked lengthHack)) (b.writes lengthHack fields) := by
  induction fields generalizing b with
  | nil => exact ⟨⟨Nat.le_refl _,rfl,sized,fun _ _ => rfl⟩,rfl,trivial⟩
  | cons field rest ih =>
    obtain ⟨width,value⟩ := field
    obtain ⟨positive,small⟩ := bounded _ List.mem_cons_self
    have hack := @hackLengthBound lengthHack width positive small
    rw [List.map_cons,hacked,widthOfCons] at room
    dsimp only at room hack
    obtain ⟨field,grown,cursor⟩ := writeHackedField value sized hack.1 hack.2 (by omega)
    have first : b.Wrote [(hackLength lengthHack width,value)] (b.write lengthHack width value) :=
      ⟨grown,cursor,field,trivial⟩
    refine first.append (ih grown.sized (fun field mem => bounded field (List.mem_cons_of_mem _ mem)) ?_)
    rw [cursor,grown.length]
    omega

theorem getLsbDOneShift {n i : Nat} (inside : n < 8) : (1#8 <<< n).getLsbD i = decide (i = n) := by
  rw [BitVec.getLsbD_shiftLeft,BitVec.getLsbD_one]
  by_cases same : i = n
  · simp [same,inside]
  · by_cases before : i < n
    · simp [same,before]
    · simp [same,show i - n ≠ 0 by omega]

theorem getMsbDBit (byte : Byte) {bit j k : Nat} (small : bit < 2) (jInside : j < 8) (kInside : k < 8) :
    ((byte &&& ~~~(1#8 <<< (7 - j))) ||| (BitVec.ofNat 8 bit <<< (7 - j))).getMsbD k =
      if k = j then bit.testBit 0 else byte.getMsbD k := by
  have mask := @getLsbDOneShift (7 - j) (8 - 1 - k) (by omega)
  have same : 8 - 1 - k = 7 - j ↔ k = j := by omega
  simp only [BitVec.getMsbD_eq_getLsbD,BitVec.getLsbD_or,BitVec.getLsbD_and,BitVec.getLsbD_not,mask,same]
  have cases : bit = 0 ∨ bit = 1 := by omega
  rcases cases with rfl | rfl
  · by_cases equal : k = j <;> simp [equal,kInside,show 7 - k < 8 by omega]
  · rw [mask]
    simp only [same]
    by_cases equal : k = j <;> simp [equal,kInside,jInside,show 7 - k < 8 by omega]

theorem wroteBit {bit : Nat} (small : bit < 2) (sized : b.Sized) (room : b.curBit < 8 * b.data.length) :
    b.Wrote [(1,bit)] (b.writeBit bit).2 := by
  have inside : b.curBit / 8 < b.data.length := by omega
  have bits : ∀ p, bitAt (b.writeBit bit).2.data p = if p = b.curBit then bit.testBit 0 else bitAt b.data p := by
    intro p
    rw [MessageBuffer.writeBit]
    simp only [show ¬ b.data.length ≤ b.curBit / 8 by omega,if_false]
    rw [bitAtSet]
    by_cases here : p / 8 = b.curBit / 8
    · rw [if_pos ⟨here,inside⟩]
      have byte : bitAt b.data p = (byteAt b.data (b.curBit / 8)).getMsbD (p % 8) := by rw [bitAt,here]
      rw [byte]
      have column : p % 8 < 8 := Nat.mod_lt _ (by decide)
      have offset : b.curBit % 8 < 8 := Nat.mod_lt _ (by decide)
      have same : p = b.curBit ↔ p % 8 = b.curBit % 8 := by omega
      rw [if_congr same rfl rfl]
      exact getMsbDBit _ small offset column
    · rw [if_neg (by omega),if_neg (by rintro rfl; exact here rfl)]
  have shape : (b.writeBit bit).2.data.length = b.data.length ∧ (b.writeBit bit).2.maxBit = b.maxBit ∧
      (b.writeBit bit).2.curBit = b.curBit + 1 := by
    rw [MessageBuffer.writeBit]
    simp [show ¬ b.data.length ≤ b.curBit / 8 by omega]
  obtain ⟨length,top,cursor⟩ := shape
  refine ⟨⟨by omega,length,?_,fun i before => by rw [bits,if_neg (by omega)]⟩,cursor,?_,trivial⟩
  · rw [MessageBuffer.Sized,top,length,sized]
  · intro k first
    rw [bits,if_pos (by omega),show k = 0 by omega]

theorem wroteBytes {src : List Byte} {count : Nat} (sized : b.Sized) (some : 0 < count)
    (inside : count ≤ src.length) (room : b.curBit + 8 * count ≤ 8 * b.data.length) :
    b.Wrote (byteFields (src.take count)) (b.writeBits src (count * 8)).2 := by
  have bits := fun p => @writeBitsBits b (count * 8) src p sized (by omega) (by omega)
  obtain ⟨grown,cursor⟩ := @writeBitsExtends b (count * 8) src sized (by omega) (by omega)
  have length : (src.take count).length = count := by rw [List.length_take,Nat.min_eq_left inside]
  refine ⟨grown,?_,fieldsOfBytes.mpr (fun i within => ?_)⟩
  · rw [cursor,widthOfBytes,length]
    omega
  · rw [length] at within
    rw [bits,if_pos (by omega),bitAtTake src count within,Nat.add_sub_cancel_left]

end

def MessageBuffer.seek (data : List Byte) (start : Nat) : MessageBuffer := ⟨data,start,8 * data.length⟩

section
variable {data : List Byte} {start : Nat} {lengthHack : Bool}

theorem seekSized : (MessageBuffer.seek data start).Sized := rfl

theorem readSeek {length width value : Nat} (hack : hackLength lengthHack length = width)
    (positive : 0 < width) (small : width ≤ 32) (room : start + width ≤ 8 * data.length)
    (field : Field data start width value) (fits : value < 2 ^ width) :
    (MessageBuffer.seek data start).read lengthHack length = (value,.seek data (start + width)) := by
  subst hack
  have wide : value < 2 ^ 32 := Nat.lt_of_lt_of_le fits (Nat.pow_le_pow_right (by decide) small)
  have read : (MessageBuffer.seek data start).readBitsSingle lengthHack length =
      (some (BitVec.ofNat 32 (value % 2 ^ hackLength lengthHack length)),
        .seek data (start + hackLength lengthHack length)) :=
    readHackedField seekSized positive small room field
  rw [MessageBuffer.read,read]
  simp only
  rw [Nat.mod_eq_of_lt fits,BitVec.toNat_ofNat,Nat.mod_eq_of_lt wide]

theorem readSeekPlain (lengthHack : Bool) {width value : Nat} (other : width ≠ 13) (positive : 0 < width)
    (small : width ≤ 32) (room : start + width ≤ 8 * data.length) (field : Field data start width value)
    (fits : value < 2 ^ width) :
    (MessageBuffer.seek data start).read lengthHack width = (value,.seek data (start + width)) :=
  readSeek (hackLengthOther other) positive small room field fits

theorem readBitSeek {bit : Nat} (room : start < 8 * data.length) (field : Field data start 1 bit)
    (small : bit < 2) : (MessageBuffer.seek data start).readBit = (bit,.seek data (start + 1)) := by
  have first := field 0 (by decide)
  rw [MessageBuffer.readBit,MessageBuffer.seek,if_neg (by simp only; omega)]
  simp only [Nat.add_zero] at first
  rw [Prod.mk.injEq]
  refine ⟨?_,rfl⟩
  simp only [first]
  have cases : bit = 0 ∨ bit = 1 := by omega
  rcases cases with rfl | rfl <;> rfl

theorem readBytesSeek {bytes : List Byte} (room : start + 8 * bytes.length ≤ 8 * data.length)
    (fields : Fields data start (byteFields bytes)) :
    (MessageBuffer.seek data start).readBits (List.replicate bytes.length 0) (bytes.length * 8) =
      (true,bytes,.seek data (start + 8 * bytes.length)) := by
  by_cases none : bytes.length = 0
  · rw [none,List.eq_nil_of_length_eq_zero none]
    rfl
  have bits := fun p => @readBitsBits (.seek data start) (bytes.length * 8) (List.replicate bytes.length 0) p
    seekSized (by omega) (by simp only [MessageBuffer.seek]; omega) (by rw [List.length_replicate]; omega)
  rw [(bits 0).1,Prod.mk.injEq,Prod.mk.injEq]
  refine ⟨rfl,?_,?_⟩
  · refine eqOfBits (by rw [copyBitsLength,List.length_replicate]) (fun i inside => ?_)
    rw [copyBitsLength,List.length_replicate] at inside
    rw [(bits i).2,if_pos (by omega)]
    exact fieldsOfBytes.mp fields i inside
  · simp [MessageBuffer.seek,Nat.mul_comm]

end
end Citizen.Rl
