import Citizen.Net.MessageBufferCodec

/-! A message buffer at whole bytes: the words and byte strings that are read from it and
written to it, and what is left of them when they do not fit. -/
namespace Citizen.Rl
open BitField

def word (n : Nat) : List Byte := [BitVec.ofNat 8 (n / 2 ^ 8),BitVec.ofNat 8 n]

def wordAt (data : List Byte) (p : Nat) : Nat :=
  2 ^ 8 * (byteAt data p).toNat + (byteAt data (p + 1)).toNat

theorem wordAtLt (data : List Byte) (p : Nat) : wordAt data p < 2 ^ 16 := by
  have high := (byteAt data p).isLt
  have low := (byteAt data (p + 1)).isLt
  rw [wordAt]
  omega

theorem wordAtAppend (front rest : List Byte) {n : Nat} (short : n < 2 ^ 16) :
    wordAt (front ++ (word n ++ rest)) front.length = n := by
  have high := byteAtAppend front (word n ++ rest) 0
  have low := byteAtAppend front (word n ++ rest) 1
  rw [Nat.add_zero] at high
  rw [wordAt,high,low]
  simp only [word,byteAt,List.cons_append,List.getD_cons_zero,List.getD_cons_succ,BitVec.toNat_ofNat]
  omega

theorem wordOfWordAt (data : List Byte) (p : Nat) : word (wordAt data p) = [byteAt data p,byteAt data (p + 1)] := by
  have high := (byteAt data p).isLt
  have low := (byteAt data (p + 1)).isLt
  simp only [word,wordAt,List.cons.injEq,and_true]
  constructor
  · apply BitVec.eq_of_toNat_eq
    rw [BitVec.toNat_ofNat]
    omega
  · apply BitVec.eq_of_toNat_eq
    rw [BitVec.toNat_ofNat]
    omega

theorem fieldWord (data : List Byte) (p : Nat) : Field data (8 * p) 16 (wordAt data p) := by
  intro k hk
  rw [wordAt,Nat.testBit_two_pow_mul_add _ (byteAt data (p + 1)).isLt,bitAt,BitVec.getMsbD_eq_getLsbD]
  by_cases first : k < 8
  · simp [first,show (8 * p + k) / 8 = p by omega,show (8 * p + k) % 8 = k by omega,
      show ¬ 15 - k < 8 by omega,show 15 - k - 8 = 7 - k by omega,BitVec.testBit_toNat]
  · simp [show (8 * p + k) / 8 = p + 1 by omega,show (8 * p + k) % 8 = k - 8 by omega,
      show 15 - k < 8 by omega,show 7 - (k - 8) = 15 - k by omega,show k - 8 < 8 by omega,
      BitVec.testBit_toNat]

def MessageBuffer.reader (data : List Byte) (seen p : Nat) : MessageBuffer := ⟨data,8 * p,8 * seen⟩

section
variable {data : List Byte} {seen p : Nat}

theorem readWord (inside : seen ≤ data.length) :
    (MessageBuffer.reader data seen p).read false 16 =
      (if p + 2 ≤ seen then wordAt data p else 0,.reader data seen (p + 2)) := by
  by_cases fits : p + 2 ≤ seen
  · have read := @singleRead false (.reader data seen p) 16 (wordAt data p) (by decide) (by decide)
      (show (8 * seen : Int) ≤ 8 * data.length by omega) (show ((8 * p : Nat) + 16 : Int) ≤ 8 * seen by omega)
      (fieldWord data p)
    have bound := wordAtLt data p
    have width : wordAt data p % 2 ^ hackLength false 16 = wordAt data p := Nat.mod_eq_of_lt bound
    rw [MessageBuffer.read,read,if_pos fits,width]
    simp only [BitVec.toNat_ofNat,MessageBuffer.reader]
    rw [Nat.mod_eq_of_lt (bound.trans (by decide))]
    rfl
  · have full := @readBitsSingleFails false (.reader data seen p) 16
      (show (8 * seen : Int) < (8 * p : Nat) + 16 by omega)
    rw [MessageBuffer.read,full,if_neg fits]
    rfl

theorem readPast (b : MessageBuffer) : (b.read false 8).2 = { b with curBit := b.curBit + 8 } := by
  have moves := readMoves b 8
  unfold MessageBuffer.read
  split
  · rename_i read
    rw [read] at moves
    exact moves
  · rename_i read
    rw [read] at moves
    exact moves

theorem readBytes {count room : Nat} (inside : seen ≤ data.length) (enough : count ≤ room) :
    (MessageBuffer.reader data seen p).readBits (List.replicate room 0) (count * 8) =
      if count = 0 ∨ p + count ≤ seen then
        (true,(data.drop p).take count ++ List.replicate (room - count) 0,.reader data seen (p + count))
      else (false,List.replicate room 0,.reader data seen p) := by
  rcases Nat.eq_zero_or_pos count with rfl | positive
  · simp [MessageBuffer.readBits]
  by_cases fits : p + count ≤ seen
  · obtain ⟨bytes,read,length,bits⟩ := @bitsRead (.reader data seen p) (count * 8) (data.drop p)
      (List.replicate room 0) (by rw [List.length_replicate]; omega)
      (show ((8 * p : Nat) + (count * 8 : Nat) : Int) ≤ 8 * seen by omega)
      (fun i _ => (bitAtDrop data p i).symm)
    have taken : ((data.drop p).take count).length = count := by
      rw [List.length_take,List.length_drop]
      omega
    rw [read,if_pos (.inr fits),Prod.mk.injEq,Prod.mk.injEq]
    refine ⟨rfl,eqOfBits ?_ (fun i inside => ?_),?_⟩
    · rw [length,List.length_append,taken,List.length_replicate,List.length_replicate]
      omega
    · rw [bits,bitAtAppend,taken]
      by_cases near : i < count * 8
      · rw [if_pos near,if_pos (by omega),bitAtTake _ _ (by omega)]
      · rw [if_neg near,if_neg (by omega),bitAtZeros,bitAtZeros]
    · simp only [MessageBuffer.reader,MessageBuffer.mk.injEq,true_and,and_true]
      omega
  · have full : (MessageBuffer.reader data seen p).maxBit <
        (MessageBuffer.reader data seen p).curBit + (count * 8 : Nat) := by
      simp only [MessageBuffer.reader]
      omega
    rw [MessageBuffer.readBits,if_neg (by omega),if_pos full,if_neg (by omega)]

end

def put (size : Nat) (bytes more : List Byte) : List Byte :=
  if bytes.length + more.length ≤ size then bytes ++ more else bytes

structure MessageBuffer.Holds (b : MessageBuffer) (size : Nat) (bytes : List Byte) : Prop where
  maxBit : b.maxBit = 8 * size
  length : b.data.length = size
  cursor : b.curBit = 8 * bytes.length
  taken : b.data.take bytes.length = bytes

section
variable {b b' : MessageBuffer} {size : Nat} {bytes : List Byte}

theorem MessageBuffer.Holds.append {more : List Byte} (holds : b.Holds size bytes)
    (fits : bytes.length + more.length ≤ size) (advanced : b.Advanced b' (8 * more.length))
    (there : ∀ i < 8 * more.length, bitAt b'.data (b.curBit + i) = bitAt more i) : b'.Holds size (bytes ++ more) := by
  have length := advanced.length.trans holds.length
  refine ⟨advanced.maxBit.trans holds.maxBit,length,?_,eqOfBits ?_ (fun i within => ?_)⟩
  · rw [advanced.cursor,holds.cursor,List.length_append]
    omega
  · rw [List.length_take,List.length_append,length]
    omega
  · rw [List.length_take,List.length_append,length] at within
    rw [List.length_append,bitAtTake _ _ (by omega),bitAtAppend]
    split
    · rename_i before
      have same := advanced.outside i (.inl (by rw [holds.cursor]; exact before))
      rw [same,← bitAtTake b.data bytes.length before,holds.taken]
    · rename_i after
      have found := there (i - 8 * bytes.length) (by omega)
      rw [holds.cursor,show 8 * bytes.length + (i - 8 * bytes.length) = i by omega] at found
      exact found

section
variable (holds : b.Holds size bytes)
include holds

theorem MessageBuffer.Holds.room {width : Nat} :
    b.maxBit < b.curBit + width ↔ 8 * size < 8 * bytes.length + width := by
  rw [holds.maxBit,holds.cursor]
  omega

theorem MessageBuffer.Holds.single {more : List Byte} {length value : Nat}
    (positive : 0 < length) (small : length ≤ 32) (plain : length ≠ 13) (width : length = 8 * more.length)
    (short : value < 2 ^ 32) (field : Field more 0 length value) :
    (b.write false length value).Holds size (put size bytes more) := by
  have hack := @hackLengthOther false length plain
  unfold put
  split
  · rename_i fits
    obtain ⟨b',written,advanced,there⟩ := @singleWritten false b length (BitVec.ofNat 32 value) positive small
      (by rw [holds.maxBit,holds.length]) (by rw [hack,holds.maxBit,holds.cursor]; omega)
    rw [hack,BitVec.toNat_ofNat,Nat.mod_eq_of_lt short] at there
    rw [hack,width] at advanced
    rw [MessageBuffer.write,written]
    refine holds.append fits advanced (fun i within => ?_)
    have same := field i (by omega)
    rw [Nat.zero_add] at same
    rw [same,there i (by omega)]
  · rename_i full
    rw [MessageBuffer.write,MessageBuffer.writeBitsSingle,hack,if_pos (holds.room.mpr (by omega))]
    exact holds

theorem MessageBuffer.Holds.word {n : Nat} (short : n < 2 ^ 16) :
    (b.write false 16 n).Holds size (put size bytes (word n)) := by
  have field := fieldWord (Rl.word n) 0
  have value := wordAtAppend [] [] short
  rw [List.nil_append,List.append_nil,List.length_nil] at value
  rw [value] at field
  exact holds.single (by decide) (by decide) (by decide) rfl (short.trans (by decide)) field

theorem MessageBuffer.Holds.byte (byte : Byte) : (b.write false 8 byte.toNat).Holds size (put size bytes [byte]) :=
  holds.single (by decide) (by decide) (by decide) rfl (byte.isLt.trans (by decide))
    (fieldOfByte.mpr (fun k within => by rw [bitAt,show (0 + k) / 8 = 0 by omega,show (0 + k) % 8 = k by omega]; rfl))

theorem MessageBuffer.Holds.bits (more : List Byte) :
    (b.writeBits more (more.length * 8)).2.Holds size (put size bytes more) := by
  unfold put
  split
  · rename_i fits
    obtain ⟨b',written,advanced,there⟩ := @bitsWritten b (more.length * 8) more
      (by rw [holds.maxBit,holds.length]) (by rw [holds.maxBit,holds.cursor]; omega)
    rw [written]
    rw [Nat.mul_comm] at advanced there
    exact holds.append fits advanced there
  · rename_i full
    rw [MessageBuffer.writeBits,if_pos (holds.room.mpr (by omega))]
    exact holds

end
end
end Citizen.Rl
