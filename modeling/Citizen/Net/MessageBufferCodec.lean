import Citizen.Net.MessageBufferFields

/-! A sequence of writes to a message buffer and the same sequence of reads from where it started. -/
namespace Citizen.Rl
open BitField

theorem maxBitInside (data : List Byte) : (MessageBuffer.ofData data).maxBit ≤ 8 * data.length := by
  simp only [MessageBuffer.ofData,toInt]
  rw [BitVec.toInt_ofNat',Int.bmod_def]
  omega

/-- An operation and what it is given: a bit (callers of `WriteBit` pass 0 or 1), the source of a bulk
write and where the bulk read puts it, or a number of an integral type. -/
inductive Transfer where
  | bit (set : Bool)
  | bits (src dest : List Byte) (length : Nat) (there : length ≤ 8 * src.length)
      (room : length ≤ 8 * dest.length)
  | single (sizeof : Nat) (narrow : 8 * sizeof ≤ 32) (value : BitVec (8 * sizeof)) (length : Nat)
      (positive : 0 < length) (small : length ≤ 32)

inductive Answer where
  | bit (retval : Nat)
  | bits (data : List Byte)
  | single (out : Nat)

def succeeded (r : Bool × MessageBuffer) : Option MessageBuffer := if r.1 then some r.2 else none

namespace Transfer
variable (lengthHack : Bool)

def width : Transfer → Nat
  | bit _ => 1
  | bits _ _ length _ _ => length
  | single _ _ _ length _ _ => hackLength lengthHack length

def write (b : MessageBuffer) : Transfer → Option MessageBuffer
  | bit set => succeeded (b.writeBit set.toNat)
  | bits src _ length _ _ => succeeded (b.writeBits src length)
  | single _ _ value length _ _ => succeeded (b.writeBitsSingle lengthHack length (value.setWidth 32))

def read (b : MessageBuffer) : Transfer → Option (Answer × MessageBuffer)
  | bit _ => some (.bit b.readBit.1,b.readBit.2)
  | bits _ dest length _ _ =>
    match b.readBits dest length with
    | (true,data,b) => some (.bits data,b)
    | (false,_,_) => none
  | single sizeof _ _ length _ _ =>
    match b.readBitsSingle lengthHack length with
    | (some retval,b) => some (.single (retval.setWidth (8 * sizeof)).toNat,b)
    | (none,_) => none

def writeAll (b : MessageBuffer) : List Transfer → Option MessageBuffer
  | [] => some b
  | t :: ts => (t.write lengthHack b).bind (fun b => writeAll b ts)

def readAll (b : MessageBuffer) : List Transfer → Option (List Answer × MessageBuffer)
  | [] => some ([],b)
  | t :: ts => (t.read lengthHack b).bind (fun first =>
    (readAll first.2 ts).map (fun later => (first.1 :: later.1,later.2)))

def total (ts : List Transfer) : Nat := (ts.map (width lengthHack)).sum

def Returned : Transfer → Answer → Prop
  | bit set,.bit retval => retval = set.toNat
  | bits src dest length _ _,.bits data =>
    data.length = dest.length ∧ ∀ i, bitAt data i = if i < length then bitAt src i else bitAt dest i
  | single _ _ value length _ _,.single out =>
    out = value.toNat % 2 ^ hackLength lengthHack length ∧ out % 2 ^ length = value.toNat % 2 ^ length
  | _,_ => False

def Holds (data : List Byte) (start : Nat) : Transfer → Prop
  | bit set => bitAt data start = set
  | bits src _ length _ _ => ∀ i < length, bitAt data (start + i) = bitAt src i
  | single _ _ value length _ _ => Field data start (hackLength lengthHack length) value.toNat

end Transfer

structure MessageBuffer.Advanced (b b' : MessageBuffer) (width : Nat) : Prop where
  cursor : b'.curBit = b.curBit + width
  maxBit : b'.maxBit = b.maxBit
  length : b'.data.length = b.data.length
  outside : ∀ p, p < b.curBit ∨ b.curBit + width ≤ p → bitAt b'.data p = bitAt b.data p

theorem MessageBuffer.Advanced.refl (b : MessageBuffer) : b.Advanced b 0 := ⟨rfl,rfl,rfl,fun _ _ => rfl⟩

theorem MessageBuffer.Advanced.trans {a b c : MessageBuffer} {first second : Nat} (former : a.Advanced b first)
    (latter : b.Advanced c second) : a.Advanced c (first + second) where
  cursor := by rw [latter.cursor,former.cursor,Nat.add_assoc]
  maxBit := latter.maxBit.trans former.maxBit
  length := latter.length.trans former.length
  outside p out := by rw [latter.outside p (by rw [former.cursor]; omega),former.outside p (by omega)]

def MessageBuffer.widened (b : MessageBuffer) : MessageBuffer := { b with maxBit := 8 * b.data.length }

section
variable {lengthHack : Bool} {b : MessageBuffer} {length : Nat}

theorem writeBitsSingleWidened (value : BitVec 32) (inside : b.maxBit ≤ 8 * b.data.length)
    (fits : b.curBit + hackLength lengthHack length ≤ b.maxBit) :
    b.writeBitsSingle lengthHack length value =
      (true,{ (b.widened.writeBitsSingle lengthHack length value).2 with maxBit := b.maxBit }) := by
  have wide : ¬b.widened.maxBit < b.widened.curBit + hackLength lengthHack length := by
    simp only [MessageBuffer.widened]
    omega
  simp only [MessageBuffer.writeBitsSingle]
  rw [if_neg (by omega),if_neg wide]
  rfl

theorem readBitsSingleWidened (inside : b.maxBit ≤ 8 * b.data.length)
    (fits : b.curBit + hackLength lengthHack length ≤ b.maxBit) :
    b.readBitsSingle lengthHack length = ((b.widened.readBitsSingle lengthHack length).1,
      { b with curBit := b.curBit + hackLength lengthHack length }) := by
  have wide : ¬b.widened.maxBit < b.widened.curBit + hackLength lengthHack length := by
    simp only [MessageBuffer.widened]
    omega
  simp only [MessageBuffer.readBitsSingle]
  rw [if_neg (by omega),if_neg wide]
  rfl

theorem singleWritten (value : BitVec 32) (positive : 0 < length) (small : length ≤ 32)
    (inside : b.maxBit ≤ 8 * b.data.length) (fits : b.curBit + hackLength lengthHack length ≤ b.maxBit) :
    ∃ b', b.writeBitsSingle lengthHack length value = (true,b') ∧ b.Advanced b' (hackLength lengthHack length) ∧
      Field b'.data b.curBit (hackLength lengthHack length) value.toNat := by
  have hack := @hackLengthBound lengthHack length positive small
  have room : b.widened.curBit + hackLength lengthHack length ≤ 8 * b.widened.data.length := by
    simp only [MessageBuffer.widened]
    omega
  have bits := fun p => @writeBitsSingleBits lengthHack b.widened length value p rfl hack.1 hack.2 room
  obtain ⟨-,size,-,cursor⟩ := @writeBitsSingleState lengthHack b.widened length value rfl room
  rw [writeBitsSingleWidened value inside fits]
  refine ⟨_,rfl,⟨cursor,rfl,size,fun p outside => ?_⟩,fun k within => ?_⟩
  · simp only [bits]
    exact if_neg (by simp only [MessageBuffer.widened]; omega)
  · simp only [bits]
    rw [if_pos (by simp only [MessageBuffer.widened]; omega),← BitVec.testBit_toNat]
    congr 1
    simp only [MessageBuffer.widened]
    omega

theorem bitsWritten (src : List Byte) (inside : b.maxBit ≤ 8 * b.data.length)
    (fits : b.curBit + length ≤ b.maxBit) : ∃ b', b.writeBits src length = (true,b') ∧ b.Advanced b' length ∧
      ∀ i < length, bitAt b'.data (b.curBit + i) = bitAt src i := by
  unfold MessageBuffer.writeBits
  rw [if_neg (by omega)]
  refine ⟨_,rfl,?_⟩
  rcases Nat.eq_zero_or_pos length with rfl | positive
  · exact ⟨⟨rfl,rfl,rfl,fun _ _ => rfl⟩,fun i less => absurd less (Nat.not_lt_zero i)⟩
  · have bits := fun p => @bitAtCopyBits b.data src length b.curBit 0 p (.inl rfl) positive (by omega)
    refine ⟨⟨rfl,rfl,copyBitsLength ..,fun p outside => ?_⟩,fun i within => ?_⟩
    · dsimp only
      rw [bits,if_neg (by omega)]
    · dsimp only
      rw [bits,if_pos (by omega),Nat.zero_add,Nat.add_sub_cancel_left]

theorem bitWritten (set : Bool) (inside : b.maxBit ≤ 8 * b.data.length) (fits : b.curBit + 1 ≤ b.maxBit) :
    ∃ b', b.writeBit set.toNat = (true,b') ∧ b.Advanced b' 1 ∧ bitAt b'.data b.curBit = set := by
  have room : ¬b.data.length ≤ b.curBit / 8 := by omega
  have column : b.curBit % 8 < 8 := Nat.mod_lt _ (by decide)
  unfold MessageBuffer.writeBit
  dsimp only
  rw [if_neg room]
  refine ⟨_,rfl,⟨rfl,rfl,List.length_set,fun p outside => ?_⟩,?_⟩
  · dsimp only
    rw [bitAtSet]
    split
    · rename_i here
      rw [getMsbDBit _ (by cases set <;> decide) column (Nat.mod_lt _ (by decide)),if_neg (by omega),bitAt,here.1]
    · rfl
  · dsimp only
    rw [bitAtSet,if_pos ⟨rfl,by omega⟩,getMsbDBit _ (by cases set <;> decide) column column,if_pos rfl]
    cases set <;> rfl

theorem Transfer.written (t : Transfer) (inside : b.maxBit ≤ 8 * b.data.length)
    (fits : b.curBit + t.width lengthHack ≤ b.maxBit) :
    ∃ b', t.write lengthHack b = some b' ∧ b.Advanced b' (t.width lengthHack) ∧
      t.Holds lengthHack b'.data b.curBit := by
  cases t with
  | bit set =>
    obtain ⟨b',written,advanced,there⟩ := bitWritten set inside fits
    exact ⟨b',congrArg succeeded written,advanced,there⟩
  | bits src dest length enough room =>
    obtain ⟨b',written,advanced,there⟩ := bitsWritten src inside fits
    exact ⟨b',congrArg succeeded written,advanced,there⟩
  | single sizeof narrow value length positive small =>
    obtain ⟨b',written,advanced,there⟩ := singleWritten (value.setWidth 32) positive small inside fits
    rw [BitVec.toNat_setWidth_of_le narrow] at there
    exact ⟨b',congrArg succeeded written,advanced,there⟩

theorem singleRead {length value : Nat} (positive : 0 < length) (small : length ≤ 32)
    (inside : b.maxBit ≤ 8 * b.data.length) (fits : b.curBit + hackLength lengthHack length ≤ b.maxBit)
    (field : Field b.data b.curBit (hackLength lengthHack length) value) :
    b.readBitsSingle lengthHack length =
      (some (BitVec.ofNat 32 (value % 2 ^ hackLength lengthHack length)),
        { b with curBit := b.curBit + hackLength lengthHack length }) := by
  have hack := @hackLengthBound lengthHack length positive small
  have room : b.widened.curBit + hackLength lengthHack length ≤ 8 * b.widened.data.length := by
    simp only [MessageBuffer.widened]
    omega
  rw [readBitsSingleWidened inside fits,readHackedField (b := b.widened) rfl hack.1 hack.2 room field]

theorem bitsCopied {dest : List Byte} (room : length ≤ 8 * dest.length)
    (fits : 0 < length → b.curBit + length ≤ b.maxBit) :
    ∃ data, b.readBits dest length = (true,data,{ b with curBit := b.curBit + length }) ∧
      data.length = dest.length ∧
      ∀ i, bitAt data i = if i < length then bitAt b.data (b.curBit + i) else bitAt dest i := by
  unfold MessageBuffer.readBits
  rcases Nat.eq_zero_or_pos length with rfl | positive
  · exact ⟨dest,rfl,rfl,fun i => rfl⟩
  · have inside := fits positive
    rw [if_neg (by omega),if_neg (by omega)]
    refine ⟨_,rfl,copyBitsLength ..,fun i => ?_⟩
    rw [bitAtCopyBits (.inr rfl) positive (by omega)]
    simp only [Nat.zero_le,true_and,Nat.zero_add,Nat.sub_zero]

theorem bitsRead {src dest : List Byte} (room : length ≤ 8 * dest.length)
    (fits : b.curBit + length ≤ b.maxBit)
    (there : ∀ i < length, bitAt b.data (b.curBit + i) = bitAt src i) :
    ∃ data, b.readBits dest length = (true,data,{ b with curBit := b.curBit + length }) ∧
      data.length = dest.length ∧ ∀ i, bitAt data i = if i < length then bitAt src i else bitAt dest i := by
  obtain ⟨data,read,size,bits⟩ := bitsCopied room (fun _ => fits)
  refine ⟨data,read,size,fun i => ?_⟩
  rw [bits]
  split
  · rename_i within
    exact there i within
  · rfl

theorem bitRead {set : Bool} (inside : b.maxBit ≤ 8 * b.data.length) (fits : b.curBit + 1 ≤ b.maxBit)
    (there : bitAt b.data b.curBit = set) :
    b.readBit = (set.toNat,{ b with curBit := b.curBit + 1 }) := by
  unfold MessageBuffer.readBit
  rw [if_neg (by omega),there]

theorem Transfer.answered (t : Transfer) (inside : b.maxBit ≤ 8 * b.data.length)
    (fits : b.curBit + t.width lengthHack ≤ b.maxBit) (there : t.Holds lengthHack b.data b.curBit) :
    ∃ answer, t.read lengthHack b = some (answer,{ b with curBit := b.curBit + t.width lengthHack }) ∧
      t.Returned lengthHack answer := by
  cases t with
  | bit set =>
    have found := bitRead inside fits there
    exact ⟨.bit set.toNat,by simp only [read,found]; rfl,rfl⟩
  | bits src dest length enough room =>
    obtain ⟨data,found,same,bits⟩ := bitsRead room fits there
    exact ⟨.bits data,by simp only [read,found]; rfl,same,bits⟩
  | single sizeof narrow value length positive small =>
    have found := singleRead positive small inside fits there
    have bound : value.toNat % 2 ^ hackLength lengthHack length < 2 ^ (8 * sizeof) :=
      Nat.lt_of_le_of_lt (Nat.mod_le _ _) value.isLt
    refine ⟨.single (value.toNat % 2 ^ hackLength lengthHack length),?_,rfl,?_⟩
    · simp only [read,found,BitVec.toNat_setWidth,BitVec.toNat_ofNat]
      rw [Nat.mod_eq_of_lt (Nat.lt_of_lt_of_le bound (Nat.pow_le_pow_right (by decide) narrow)),
        Nat.mod_eq_of_lt bound]
      rfl
    · refine Nat.mod_mod_of_dvd _ (Nat.pow_dvd_pow _ ?_)
      unfold hackLength
      split
      · rename_i hacked
        simp only [Bool.and_eq_true,decide_eq_true_eq] at hacked
        omega
      · exact Nat.le_refl length

end
namespace Transfer
variable (lengthHack : Bool)

def HoldsAll (data : List Byte) : Nat → List Transfer → Prop
  | _,[] => True
  | start,t :: ts => t.Holds lengthHack data start ∧ HoldsAll data (start + t.width lengthHack) ts

variable {lengthHack}

theorem Holds.kept {t : Transfer} {old new : List Byte} {start : Nat} (there : t.Holds lengthHack old start)
    (same : ∀ p, start ≤ p → p < start + t.width lengthHack → bitAt new p = bitAt old p) :
    t.Holds lengthHack new start := by
  cases t with
  | bit set => exact (same start (Nat.le_refl _) (Nat.lt_succ_self _)).trans there
  | bits src dest length enough room =>
    exact fun i within => (same _ (Nat.le_add_right ..) (Nat.add_lt_add_left within _)).trans (there i within)
  | single sizeof narrow value length positive small =>
    exact fun i within => (same _ (Nat.le_add_right ..) (Nat.add_lt_add_left within _)).trans (there i within)

section
variable {ts : List Transfer} {b : MessageBuffer} (inside : b.maxBit ≤ 8 * b.data.length)
  (fits : b.curBit + total lengthHack ts ≤ b.maxBit)
include inside fits

theorem writtenAll : ∃ b', writeAll lengthHack b ts = some b' ∧ b.Advanced b' (total lengthHack ts) ∧
      HoldsAll lengthHack b'.data b.curBit ts := by
  induction ts generalizing b with
  | nil => exact ⟨b,rfl,.refl b,trivial⟩
  | cons t ts ih =>
    have sum : total lengthHack (t :: ts) = t.width lengthHack + total lengthHack ts := by
      simp only [total,List.map_cons,List.sum_cons]
    rw [sum] at fits ⊢
    obtain ⟨b₁,written,first,there⟩ := @Transfer.written lengthHack b t inside (by omega)
    obtain ⟨b₂,writtenLater,later,thereLater⟩ := ih (b := b₁) (by rw [first.maxBit,first.length]; exact inside)
      (by rw [first.maxBit,first.cursor]; omega)
    rw [first.cursor] at thereLater
    refine ⟨b₂,?_,first.trans later,
      there.kept (fun p _ before => later.outside p (.inl (by rw [first.cursor]; exact before))),thereLater⟩
    rw [writeAll,written]
    exact writtenLater

theorem answeredAll (there : HoldsAll lengthHack b.data b.curBit ts) :
    ∃ answers, readAll lengthHack b ts = some (answers,{ b with curBit := b.curBit + total lengthHack ts }) ∧
      List.Forall₂ (Returned lengthHack) ts answers := by
  induction ts generalizing b with
  | nil => exact ⟨[],rfl,.nil⟩
  | cons t ts ih =>
    have sum : total lengthHack (t :: ts) = t.width lengthHack + total lengthHack ts := by
      simp only [total,List.map_cons,List.sum_cons]
    rw [sum] at fits ⊢
    obtain ⟨answer,read,returned⟩ := @Transfer.answered lengthHack b t inside (by omega) there.1
    obtain ⟨answers,readLater,returnedLater⟩ :=
      ih (b := { b with curBit := b.curBit + t.width lengthHack }) inside (by dsimp only; omega) there.2
    refine ⟨answer :: answers,?_,.cons returned returnedLater⟩
    rw [readAll,read,Option.bind_some,readLater,Option.map_some]
    simp only [Nat.add_assoc]

end

theorem writtenReadBack (lengthHack : Bool) (data : List Byte) (start : Nat) (ts : List Transfer)
    (fits : start + total lengthHack ts ≤ (MessageBuffer.ofData data).maxBit) :
    ∃ b, writeAll lengthHack ((MessageBuffer.ofData data).setCurrentBit start) ts = some b ∧
      b.curBit = start + total lengthHack ts ∧
      (∃ answers, readAll lengthHack (b.setCurrentBit start) ts = some (answers,b) ∧
        List.Forall₂ (Returned lengthHack) ts answers) ∧ b.data.length = data.length ∧
      ∀ p, p < start ∨ b.curBit ≤ p → bitAt b.data p = bitAt data p := by
  obtain ⟨b,written,advanced,there⟩ :=
    @writtenAll lengthHack ts ((MessageBuffer.ofData data).setCurrentBit start) (maxBitInside data) fits
  have cursor : b.curBit = start + total lengthHack ts := advanced.cursor
  have inside : b.maxBit ≤ 8 * b.data.length := by
    rw [advanced.maxBit,advanced.length]
    exact maxBitInside data
  obtain ⟨answers,read,returned⟩ := answeredAll (b := b.setCurrentBit start) inside
    (by simp only [MessageBuffer.setCurrentBit]; rw [advanced.maxBit]; exact fits) there
  refine ⟨b,written,cursor,⟨answers,?_,returned⟩,advanced.length,fun p outside => advanced.outside p ?_⟩
  · rw [read]
    simp only [MessageBuffer.setCurrentBit,← cursor]
  · rw [cursor] at outside
    exact outside

def mixedTransfers : List Transfer :=
  [.bit true,.single 2 (by decide) 0x1ABC 13 (by decide) (by decide),.bits [0xA8] [0] 5 (by decide) (by decide)]

theorem writtenReadBackHacked :
    ∃ b, writeAll true ((MessageBuffer.ofData [0xFF,0xFF,0xFF,0xFF]).setCurrentBit 3) mixedTransfers = some b ∧
      b.curBit = 25 ∧ (∃ answers, readAll true (b.setCurrentBit 3) mixedTransfers = some (answers,b) ∧
        List.Forall₂ (Returned true) mixedTransfers answers) ∧
      b.data.length = 4 ∧ ∀ p, p < 3 ∨ b.curBit ≤ p → bitAt b.data p = bitAt [0xFF,0xFF,0xFF,0xFF] p :=
  writtenReadBack true [0xFF,0xFF,0xFF,0xFF] 3 mixedTransfers (by decide)

end Transfer
end Citizen.Rl
