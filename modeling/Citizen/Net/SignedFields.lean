import Citizen.Net.MessageBufferCodec

/-! The signed fields of the bit buffer. The writer complements a negative number, and the reader negates it. -/
namespace Citizen.Rl
open BitField

namespace MessageBuffer

def readSigned (lengthHack : Bool) (b : MessageBuffer) (length : Nat) : Int × MessageBuffer :=
  let (sign,b) := b.read lengthHack 1
  let (data,b) := b.read lengthHack (length - 1)
  let sign := BitVec.ofNat 32 sign
  ((sign + (BitVec.ofNat 32 data ^^^ -sign)).toInt,b)

def writeSigned (lengthHack : Bool) (b : MessageBuffer) (length : Nat) (data : BitVec 32) : MessageBuffer :=
  let sign := if data.toInt < 0 then 1 else 0
  let signEx := if data.toInt < 0 then BitVec.allOnes 32 else 0
  let d := data ^^^ signEx
  (b.write lengthHack 1 sign).write lengthHack (length - 1) d.toNat

end MessageBuffer

section
variable {lengthHack : Bool} {b : MessageBuffer} {length : Nat}

theorem hackLengthLe (lengthHack : Bool) (length : Nat) : length ≤ hackLength lengthHack length := by
  unfold hackLength
  split
  · rename_i hacked
    simp only [Bool.and_eq_true,decide_eq_true_eq] at hacked
    omega
  · exact Nat.le_refl _

theorem wrote (value : Nat) (positive : 0 < length) (small : length ≤ 32)
    (inside : b.maxBit ≤ 8 * b.data.length) (fits : b.curBit + hackLength lengthHack length ≤ b.maxBit) :
    b.Advanced (b.write lengthHack length value) (hackLength lengthHack length) ∧
      Field (b.write lengthHack length value).data b.curBit (hackLength lengthHack length) (BitVec.ofNat 32 value).toNat := by
  obtain ⟨b',written,advanced,field⟩ := singleWritten (BitVec.ofNat 32 value) positive small inside fits
  rw [MessageBuffer.write,written]
  exact ⟨advanced,field⟩

theorem readWrote {value : Nat} (positive : 0 < length) (small : length ≤ 32)
    (inside : b.maxBit ≤ 8 * b.data.length) (fits : b.curBit + hackLength lengthHack length ≤ b.maxBit)
    (field : Field b.data b.curBit (hackLength lengthHack length) value) (short : value < 2 ^ length) :
    b.read lengthHack length = (value,{ b with curBit := b.curBit + hackLength lengthHack length }) := by
  have within : value < 2 ^ hackLength lengthHack length :=
    short.trans_le (Nat.pow_le_pow_right (by decide) (hackLengthLe lengthHack length))
  have word : value < 2 ^ 32 := short.trans_le (Nat.pow_le_pow_right (by decide) small)
  rw [MessageBuffer.read,singleRead positive small inside fits field,Nat.mod_eq_of_lt within]
  simp only [BitVec.toNat_ofNat,Nat.mod_eq_of_lt word]

theorem readTwice {sign value : Nat} (positive : 0 < length) (small : length ≤ 32) (inside : b.maxBit ≤ 8 * b.data.length)
    (fits : b.curBit + (1 + hackLength lengthHack length) ≤ b.maxBit) (bit : sign < 2 ^ 1) (short : value < 2 ^ length) :
    let written := (b.write lengthHack 1 sign).write lengthHack length value
    let signRead := (written.setCurrentBit b.curBit).read lengthHack 1
    written.curBit = b.curBit + (1 + hackLength lengthHack length) ∧ signRead.1 = sign ∧ signRead.2.read lengthHack length = (value,written) := by
  intro written signRead
  have one : hackLength lengthHack 1 = 1 := hackLengthOther (by decide)
  have word {n : Nat} {width : Nat} (small : width ≤ 32) (fits : n < 2 ^ width) : (BitVec.ofNat 32 n).toNat = n := by
    rw [BitVec.toNat_ofNat,Nat.mod_eq_of_lt (fits.trans_le (Nat.pow_le_pow_right (by decide) small))]
  obtain ⟨former,signed⟩ := @wrote lengthHack b 1 sign (by decide) (by decide) inside (by omega)
  obtain ⟨latter,magnitude⟩ := @wrote lengthHack (b.write lengthHack 1 sign) length value positive small
    (by rw [former.maxBit,former.length]; exact inside) (by rw [former.cursor,former.maxBit]; omega)
  rw [word (by decide) bit] at signed
  rw [word small short,former.cursor] at magnitude
  have there : Field ((b.write lengthHack 1 sign).write lengthHack length value).data b.curBit (hackLength lengthHack 1) sign := by
    intro k within
    rw [latter.outside _ (.inl (by rw [former.cursor]; omega))]
    exact signed k within
  have full : written.curBit = b.curBit + (1 + hackLength lengthHack length) := by
    rw [show written.curBit = _ from latter.cursor,former.cursor,one,Nat.add_assoc]
  have bounded : written.maxBit ≤ 8 * written.data.length := by
    rw [show written.maxBit = _ from latter.maxBit,show written.data.length = _ from latter.length,former.maxBit,former.length]
    exact inside
  have roomy : b.curBit + (1 + hackLength lengthHack length) ≤ written.maxBit := by
    rw [show written.maxBit = _ from latter.maxBit,former.maxBit]
    exact fits
  have read : signRead = (sign,written.setCurrentBit (b.curBit + 1)) := by
    have found := @readWrote lengthHack (written.setCurrentBit b.curBit) 1 sign (by decide) (by decide) bounded
      (by simp only [MessageBuffer.setCurrentBit]; omega) there bit
    rw [one] at found
    exact found
  refine ⟨full,by rw [read],?_⟩
  rw [read,@readWrote lengthHack (written.setCurrentBit (b.curBit + 1)) length value positive small bounded
    (by simp only [MessageBuffer.setCurrentBit]; omega) (by rw [one] at magnitude; exact magnitude) short]
  simp only [MessageBuffer.setCurrentBit,Nat.add_assoc,← full]

theorem signedWord {v : Int} (small : v.natAbs < 2 ^ 31) :
    let data := BitVec.ofInt 32 v
    let d := data ^^^ (if data.toInt < 0 then BitVec.allOnes 32 else 0)
    let sign := BitVec.ofNat 32 (if data.toInt < 0 then 1 else 0)
    d.toNat = (if v < 0 then v.natAbs - 1 else v.natAbs) ∧
      (sign + (BitVec.ofNat 32 d.toNat ^^^ -sign)).toInt = if v < 0 then v + 1 else v := by
  have word : (BitVec.ofInt 32 v).toInt = v := by
    rw [BitVec.toInt_ofInt,Int.bmod_def]
    omega
  dsimp only
  rw [word]
  split
  · rename_i negative
    have ones : BitVec.ofInt 32 v ^^^ BitVec.allOnes 32 = ~~~BitVec.ofInt 32 v := BitVec.xor_allOnes
    have minus : -(BitVec.ofNat 32 1) = BitVec.allOnes 32 := by decide
    rw [ones,minus,BitVec.ofNat_toNat,BitVec.setWidth_eq,BitVec.xor_allOnes,BitVec.not_not]
    constructor
    · rw [BitVec.toNat_not,BitVec.toNat_ofInt]
      omega
    · rw [BitVec.toInt_add,word,Int.bmod_def]
      have one : (BitVec.ofNat 32 1).toInt = 1 := by decide
      rw [one]
      omega
  · rename_i positive
    have plain : ∀ x : BitVec 32, x ^^^ 0 = x := fun x => BitVec.xor_zero
    have zero : -(BitVec.ofNat 32 0) = 0 := by decide
    rw [plain,zero,BitVec.ofNat_toNat,BitVec.setWidth_eq,plain]
    constructor
    · rw [BitVec.toNat_ofInt]
      omega
    · rw [show BitVec.ofNat 32 0 + BitVec.ofInt 32 v = BitVec.ofInt 32 v from BitVec.zero_add _,word]

theorem readSignedWritten {v : Int} (two : 2 ≤ length) (word : length ≤ 32) (small : v.natAbs < 2 ^ (length - 1))
    (inside : b.maxBit ≤ 8 * b.data.length) (fits : b.curBit + (1 + hackLength lengthHack (length - 1)) ≤ b.maxBit) :
    let written := b.writeSigned lengthHack length (BitVec.ofInt 32 v)
    written.curBit = b.curBit + (1 + hackLength lengthHack (length - 1)) ∧
      (written.setCurrentBit b.curBit).readSigned lengthHack length = (if v < 0 then v + 1 else v,written) := by
  obtain ⟨magnitude,value⟩ := @signedWord v (small.trans_le (Nat.pow_le_pow_right (by decide) (by omega)))
  have bit : (if (BitVec.ofInt 32 v).toInt < 0 then 1 else 0) < 2 ^ 1 := by split <;> decide
  have short : (BitVec.ofInt 32 v ^^^ (if (BitVec.ofInt 32 v).toInt < 0 then BitVec.allOnes 32 else 0)).toNat < 2 ^ (length - 1) := by
    rw [magnitude]
    split <;> omega
  obtain ⟨cursor,sign,data⟩ := @readTwice lengthHack b (length - 1) _ _ (by omega) (by omega) inside fits bit short
  refine ⟨cursor,?_⟩
  simp only [MessageBuffer.readSigned,MessageBuffer.writeSigned]
  rw [sign,data,value]

end

theorem readSignedInverts (lengthHack : Bool) (data : List Byte) (start length : Nat) (v : Int) (two : 2 ≤ length)
    (word : length ≤ 32) (small : v.natAbs < 2 ^ (length - 1))
    (fits : start + (1 + hackLength lengthHack (length - 1)) ≤ (MessageBuffer.ofData data).maxBit) :
    let written := ((MessageBuffer.ofData data).setCurrentBit start).writeSigned lengthHack length (BitVec.ofInt 32 v)
    let read := (written.setCurrentBit start).readSigned lengthHack length
    (read.1 = v ∧ read.2.curBit = written.curBit) ↔ 0 ≤ v := by
  obtain ⟨-,read⟩ := @readSignedWritten lengthHack ((MessageBuffer.ofData data).setCurrentBit start) length v two word small
    (maxBitInside data) fits
  simp only [MessageBuffer.setCurrentBit] at read ⊢
  simp only [read,and_true]
  split <;> omega

theorem largestInverts :
    let written := ((MessageBuffer.ofData [1,2,3,4]).setCurrentBit 3).writeSigned true 14 (BitVec.ofInt 32 8191)
    let read := (written.setCurrentBit 3).readSigned true 14
    read.1 = 8191 ∧ read.2.curBit = written.curBit :=
  (readSignedInverts true [1,2,3,4] 3 14 8191 (by decide) (by decide) (by decide) (by decide)).mpr (by decide)

theorem minusOneLost :
    let written := ((MessageBuffer.ofData [0,0]).setCurrentBit 0).writeSigned false 9 (BitVec.ofInt 32 (-1))
    ((written.setCurrentBit 0).readSigned false 9).1 = 0 := by
  obtain ⟨-,read⟩ := @readSignedWritten false (.ofData [0,0]) 9 (-1) (by decide) (by decide) (by decide) (by decide) (by decide)
  exact congrArg Prod.fst read

end Citizen.Rl
