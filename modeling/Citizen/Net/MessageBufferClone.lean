import Citizen.Net.MessageBufferCodec

/-! `CopyBits` against the copy that moves one bit at a time: the bits, the bytes that are touched
and the rounds of the loops. -/
namespace Citizen.Rl
open BitField

def copyOneByOne (dest src : List Byte) (d s : Nat) : Nat → List Byte
  | 0 => dest
  | n + 1 =>
      ((MessageBuffer.seek (copyOneByOne dest src d s n) (d + n)).writeBit (bitAt src (s + n)).toNat).2.data

def tailRounds (shift width : Nat) : Nat := if 8 - shift < width then (width + shift - 9) / 8 + 1 else 0

def headRounds (length d s : Nat) : Nat :=
  if s % 8 = 0 then 0
  else if 8 - d % 8 < min (8 - s % 8) length then spillCount (d % 8) (s % 8) length
  else 0

def copyBitsRounds (length d s : Nat) : Nat :=
  let v10 := if s % 8 = 0 then 0 else min (8 - s % 8) length
  let v6 := length - v10
  let v5 := d + v10
  headRounds length d s + (v6 / 8 + tailRounds (v5 % 8) (v6 % 8))

def following (i count : Nat) : List Nat := (List.range count).map (i + 1 + ·)

def restStores (v5 v6 : Nat) : List Nat :=
  let v20 := v6 / 8
  let body := if v5 % 8 = 0 ∨ v20 = 0 then [] else [v5 / 8 + v20]
  let tail := if v6 % 8 = 0 then [] else (v5 + v20 * 8) / 8 :: following ((v5 + v20 * 8) / 8) (tailRounds (v5 % 8) (v6 % 8))
  (List.range v20).map (v5 / 8 + ·) ++ body ++ tail

def copyBitsStores (length d s : Nat) : List Nat :=
  let v10 := if s % 8 = 0 then 0 else min (8 - s % 8) length
  let head := if s % 8 = 0 then [] else d / 8 :: following (d / 8) (headRounds length d s)
  head ++ restStores (d + v10) (length - v10)

def HoldsBit (start length i : Nat) : Prop := ∃ p, start ≤ p ∧ p < start + length ∧ p / 8 = i

structure CopiesBits (dest src : List Byte) (length d s : Nat) : Prop where
  bits : copyBits dest src length d s = copyOneByOne dest src d s length
  outside : ∀ p, p < d ∨ d + length ≤ p → bitAt (copyBits dest src length d s) p = bitAt dest p
  stores : ∀ i ∈ copyBitsStores length d s, HoldsBit d length i
  reads : ∀ i ∈ copyBitsReads length s, HoldsBit s length i
  rounds : copyBitsRounds length d s ≤ length

/-- The source starts a byte, or the copy is not empty and takes all bits of the first source byte, or fits into the first destination byte. -/
def Spilling (length d s : Nat) : Prop :=
  s % 8 = 0 ∨ 0 < length ∧ (8 - s % 8 ≤ length ∨ length ≤ 8 - d % 8)

section
variable {dest src : List Byte} {length d s : Nat}

theorem copyOneByOneBits (room : d + length ≤ 8 * dest.length) :
    (copyOneByOne dest src d s length).length = dest.length ∧
      ∀ p, bitAt (copyOneByOne dest src d s length) p =
        if d ≤ p ∧ p < d + length then bitAt src (s + (p - d)) else bitAt dest p := by
  induction length with
  | zero => exact ⟨rfl,fun p => (if_neg (by omega)).symm⟩
  | succ n ih =>
    obtain ⟨size,bits⟩ := ih (by omega)
    obtain ⟨b',written,advanced,there⟩ := @bitWritten (.seek (copyOneByOne dest src d s n) (d + n)) (bitAt src (s + n))
      (by simp [MessageBuffer.seek]) (by simp only [MessageBuffer.seek]; omega)
    rw [copyOneByOne,written]
    refine ⟨advanced.length.trans size,fun p => ?_⟩
    by_cases last : p = d + n
    · subst last
      rw [if_pos (by omega),Nat.add_sub_cancel_left]
      exact there
    · rw [advanced.outside p (by simp only [MessageBuffer.seek]; omega)]
      simp only [MessageBuffer.seek,bits]
      by_cases before : d ≤ p ∧ p < d + n
      · rw [if_pos before,if_pos (by omega)]
      · rw [if_neg before,if_neg (by omega)]

section
variable {v5 v8 : Nat} (unaligned : 0 < v8) (inByte : v8 < 8) (shift : v5 < 8)
include unaligned inByte shift

theorem spillCountWhole (crosses : 8 - v5 < 8 - v8) (whole : 8 - v8 ≤ length) (small : length < 2 ^ 31) : spillCount v5 v8 length = 1 := by
  have word : (BitVec.ofInt 32 ((v8 : Int) - 9)).toNat = 2 ^ 32 + v8 - 9 := by
    rw [BitVec.toNat_ofInt]
    omega
  have kept : ¬BitVec.ofInt 32 ((v8 : Int) - 9) < ~~~(BitVec.ofNat 32 length) := by
    rw [BitVec.lt_def,word,BitVec.toNat_not,BitVec.toNat_ofNat]
    omega
  have few : ∀ v5 < 8, ∀ v8 : Nat, v8 < 8 → 8 - v5 < 8 - v8 →
      ((BitVec.ofNat 32 v5 - 10 - BitVec.ofInt 32 ((v8 : Int) - 9)) >>> 3).toNat = 0 := by decide
  simp only [spillCount]
  rw [if_neg kept,few v5 shift v8 inByte crosses]

theorem spillCountShort (crosses : 8 - v5 < length) (short : length < 8 - v8) : spillCount v5 v8 length = 2 ^ 29 := by
  have word : (BitVec.ofInt 32 ((v8 : Int) - 9)).toNat = 2 ^ 32 + v8 - 9 := by
    rw [BitVec.toNat_ofInt]
    omega
  have slipped : BitVec.ofInt 32 ((v8 : Int) - 9) < ~~~(BitVec.ofNat 32 length) := by
    rw [BitVec.lt_def,word,BitVec.toNat_not,BitVec.toNat_ofNat]
    omega
  have many : ∀ v5 < 8, 2 < v5 → ((BitVec.ofNat 32 v5 - 10 - BitVec.ofNat 32 0) >>> 3).toNat = 2 ^ 29 - 1 := by decide
  simp only [spillCount]
  rw [if_pos slipped,if_neg (show ¬length = 0 by omega)]
  exact congrArg (· + 1) (many v5 shift (by omega))

end

theorem headRoundsSpilling (spilling : Spilling length d s) (small : length < 2 ^ 31) :
    headRounds length d s = if s % 8 ≠ 0 ∧ 8 - d % 8 < min (8 - s % 8) length then 1 else 0 := by
  simp only [headRounds]
  split
  · rename_i source
    rw [if_neg (by omega)]
  · rename_i source
    split
    · rename_i crosses
      rw [if_pos ⟨source,crosses⟩,spillCountWhole (by omega) (by omega) (by omega) (by omega) (by unfold Spilling at spilling; omega) small]
    · rename_i within
      rw [if_neg (by omega)]

theorem tailRoundsOnce {shift width : Nat} (first : shift < 8) (small : width < 8) :
    tailRounds shift width = if 8 - shift < width then 1 else 0 := by
  unfold tailRounds
  split <;> omega

theorem memFollowing {i first count : Nat} : i ∈ following first count ↔ first < i ∧ i < first + 1 + count := by
  simp only [following,List.mem_map,List.mem_range]
  constructor
  · intro ⟨j,inside,same⟩
    omega
  · intro inside
    exact ⟨i - first - 1,by omega,by omega⟩

theorem holdsBitIff {start i : Nat} (positive : 0 < length) :
    HoldsBit start length i ↔ start / 8 ≤ i ∧ 8 * i < start + length := by
  constructor
  · intro ⟨p,after,before,byte⟩
    omega
  · intro inside
    exact ⟨max start (8 * i),by omega,by omega,by omega⟩

theorem copyBitsNone (source : s % 8 = 0) : copyBits dest src 0 d s = dest := by
  simp [copyBits,source]

theorem spillingBits (room : d + length ≤ 8 * dest.length) (small : d + length < 2 ^ 31) (spilling : Spilling length d s) (p : Nat) :
    bitAt (copyBits dest src length d s) p =
      if d ≤ p ∧ p < d + length then bitAt src (s + (p - d)) else bitAt dest p := by
  unfold Spilling at spilling
  rcases Nat.eq_zero_or_pos length with rfl | positive
  · rw [copyBitsNone (by omega),if_neg (by omega)]
  · exact bitAtCopySpilled positive
      (fun source crosses => spillCountWhole (by omega) (by omega) (by omega) (by omega) (by omega) (by omega)) room

theorem restStoresInside {v5 v6 i : Nat} (mem : i ∈ restStores v5 v6) : 0 < v6 ∧ v5 / 8 ≤ i ∧ 8 * i < v5 + v6 := by
  have shift : ∀ n, n % 8 < 8 := fun n => Nat.mod_lt _ (by decide)
  simp only [restStores,List.mem_append] at mem
  rw [tailRoundsOnce (shift _) (shift _)] at mem
  rcases mem with (whole | behind) | tail
  · simp only [List.mem_map,List.mem_range] at whole
    obtain ⟨j,inside,rfl⟩ := whole
    omega
  · split at behind
    · cases behind
    · simp only [List.mem_singleton] at behind
      omega
  · split at tail
    · cases tail
    · simp only [List.mem_cons,memFollowing] at tail
      split at tail <;> omega

theorem spillingStores {i : Nat} (small : length < 2 ^ 31) (spilling : Spilling length d s)
    (mem : i ∈ copyBitsStores length d s) : 0 < length ∧ d / 8 ≤ i ∧ 8 * i < d + length := by
  simp only [copyBitsStores,List.mem_append] at mem
  rw [headRoundsSpilling spilling small] at mem
  unfold Spilling at spilling
  rcases mem with head | rest
  · split at head
    · cases head
    · simp only [List.mem_cons,memFollowing] at head
      split at head <;> omega
  · have inside := restStoresInside rest
    split at inside <;> omega

theorem spillingCopies (room : d + length ≤ 8 * dest.length) (small : d + length < 2 ^ 31) (spilling : Spilling length d s) :
    CopiesBits dest src length d s where
  bits := by
    obtain ⟨size,bits⟩ := @copyOneByOneBits dest src length d s room
    refine eqOfBits (by rw [copyBitsLength,size]) (fun p inside => ?_)
    rw [spillingBits room small spilling,bits]
  outside p out := by rw [spillingBits room small spilling,if_neg (by omega)]
  stores i mem := by
    obtain ⟨positive,inside⟩ := spillingStores (by omega) spilling mem
    exact (holdsBitIff positive).mpr inside
  reads i mem := by
    rcases Nat.eq_zero_or_pos length with rfl | positive
    · unfold Spilling at spilling
      simp [copyBitsReads,show s % 8 = 0 by omega] at mem
    · exact (holdsBitIff positive).mpr ((memCopyBitsReads positive).mp mem)
  rounds := by
    have shift : ∀ n, n % 8 < 8 := fun n => Nat.mod_lt _ (by decide)
    simp only [copyBitsRounds]
    rw [headRoundsSpilling spilling (by omega),tailRoundsOnce (shift _) (shift _)]
    unfold Spilling at spilling
    split <;> split <;> split <;> omega

theorem readBitsSpilling (s : Nat) (positive : 0 < length) : Spilling length 0 s :=
  .inr ⟨positive,by omega⟩

theorem copiesBitsIff (dest src : List Byte) (length d s : Nat) (room : d + length ≤ 8 * dest.length)
    (source : s + length ≤ 8 * src.length) (small : d + length < 2 ^ 31) :
    CopiesBits dest src length d s ↔ Spilling length d s := by
  refine ⟨fun copies => ?_,spillingCopies room small⟩
  by_contra other
  unfold Spilling at other
  rcases Nat.eq_zero_or_pos length with rfl | positive
  · -- the byte that holds the offset is read, whatever the length
    obtain ⟨p,after,before,-⟩ := copies.reads (s / 8) (by simp [copyBitsReads,show s % 8 ≠ 0 by omega])
    omega
  · have many := @spillCountShort length (d % 8) (s % 8) (by omega) (by omega) (by omega) (by omega) (by omega)
    have rounds := copies.rounds
    simp only [copyBitsRounds,headRounds] at rounds
    rw [if_neg (by omega),if_pos (by omega),many] at rounds
    omega

theorem copiesSevenBits : CopiesBits [0,0] [0xFE] 7 4 1 :=
  (copiesBitsIff [0,0] [0xFE] 7 4 1 (by decide) (by decide) (by decide)).mpr (.inr (by decide))

theorem twoBitsRunOn : ¬CopiesBits [0,0] [0xFE] 2 7 1 := by
  intro copies
  exact absurd copies.rounds (by decide)

end

/-! `Clone` of a message buffer against the bits that are left of it. -/

def MessageBuffer.remaining (b : MessageBuffer) : Nat := (b.maxBit - min (b.curBit : Int) b.maxBit).toNat

def cloneBytes (s : Nat) : Nat := if s / 8 + (if s % 8 ≠ 0 then 1 else 0) ≠ 0 then 1 else 0

def MessageBuffer.Clone (b : MessageBuffer) : Option (MessageBuffer × MessageBuffer) :=
  let s := b.remaining
  let newData := List.replicate (cloneBytes s) 0
  if 0 < s ∧ ∃ i ∈ copyBitsStores s 0 b.curBit, newData.length ≤ i then none
  else
    let read := b.readBits newData s
    some (.ofData read.2.1,read.2.2)

structure ExactClone (b clone : MessageBuffer) : Prop where
  size : clone.data.length = (b.remaining + 7) / 8
  bits : ∀ p < b.remaining, bitAt clone.data p = bitAt b.data (b.curBit + p)
  padding : ∀ p, b.remaining ≤ p → bitAt clone.data p = false
  reads : ∀ lengthHack ts, Transfer.total lengthHack ts ≤ b.remaining → ∃ answers c' b',
    Transfer.readAll lengthHack clone ts = some (answers,c') ∧ Transfer.readAll lengthHack b ts = some (answers,b')

section Reading
variable {lengthHack : Bool} {b c : MessageBuffer}

theorem readSame {t : Transfer} (bInside : b.maxBit ≤ 8 * b.data.length) (cInside : c.maxBit ≤ 8 * c.data.length)
    (bFits : 0 < t.width lengthHack → b.curBit + t.width lengthHack ≤ b.maxBit)
    (cFits : 0 < t.width lengthHack → c.curBit + t.width lengthHack ≤ c.maxBit)
    (same : ∀ i < t.width lengthHack, bitAt c.data (c.curBit + i) = bitAt b.data (b.curBit + i)) :
    ∃ answer, t.read lengthHack c = some (answer,{ c with curBit := c.curBit + t.width lengthHack }) ∧
      t.read lengthHack b = some (answer,{ b with curBit := b.curBit + t.width lengthHack }) := by
  cases t with
  | bit set =>
    have here := same 0 (Nat.zero_lt_one)
    have first := bitRead bInside (bFits Nat.zero_lt_one) rfl
    have second := bitRead cInside (cFits Nat.zero_lt_one) here
    exact ⟨_,by simp only [Transfer.read,second]; rfl,by simp only [Transfer.read,first]; rfl⟩
  | bits src dest length enough room =>
    obtain ⟨first,bRead,bSize,bBits⟩ := bitsCopied room bFits
    obtain ⟨second,cRead,cSize,cBits⟩ := bitsCopied room cFits
    have copied : second = first := by
      refine eqOfBits (cSize.trans bSize.symm) (fun i _ => ?_)
      rw [bBits,cBits]
      split
      · rename_i within
        exact same i within
      · rfl
    refine ⟨.bits first,?_,?_⟩
    · simp only [Transfer.read,cRead,copied]
      rfl
    · simp only [Transfer.read,bRead]
      rfl
  | single sizeof narrow value length positive small =>
    obtain ⟨lower,upper⟩ := @hackLengthBound lengthHack length positive small
    have wide {d : MessageBuffer} (inside : d.maxBit ≤ 8 * d.data.length)
        (fits : 0 < hackLength lengthHack length → d.curBit + hackLength lengthHack length ≤ d.maxBit) :
        d.widened.curBit + hackLength lengthHack length ≤ 8 * d.widened.data.length := by
      have whole := fits lower
      simp only [MessageBuffer.widened]
      omega
    obtain ⟨first,bRead,bBits⟩ := @readBitsSingleBits lengthHack b.widened length rfl lower upper (wide bInside bFits)
    obtain ⟨second,cRead,cBits⟩ := @readBitsSingleBits lengthHack c.widened length rfl lower upper (wide cInside cFits)
    have equal : second = first := by
      refine BitVec.eq_of_getLsbD_eq (fun j _ => ?_)
      rw [bBits,cBits]
      by_cases within : j < hackLength lengthHack length
      · have here := same (hackLength lengthHack length - 1 - j) (by simp only [Transfer.width]; omega)
        have bPlace : b.widened.curBit + hackLength lengthHack length - 1 - j =
            b.curBit + (hackLength lengthHack length - 1 - j) := by simp only [MessageBuffer.widened]; omega
        have cPlace : c.widened.curBit + hackLength lengthHack length - 1 - j =
            c.curBit + (hackLength lengthHack length - 1 - j) := by simp only [MessageBuffer.widened]; omega
        rw [bPlace,cPlace]
        exact congrArg _ here
      · rw [decide_eq_false within]
        rfl
    have bWhole := readBitsSingleWidened bInside (bFits lower)
    have cWhole := readBitsSingleWidened cInside (cFits lower)
    rw [bRead] at bWhole
    rw [cRead,equal] at cWhole
    exact ⟨_,by simp only [Transfer.read,cWhole]; rfl,by simp only [Transfer.read,bWhole]; rfl⟩

theorem readAllSame {ts : List Transfer} (bInside : b.maxBit ≤ 8 * b.data.length)
    (cInside : c.maxBit ≤ 8 * c.data.length)
    (bFits : 0 < Transfer.total lengthHack ts → b.curBit + Transfer.total lengthHack ts ≤ b.maxBit)
    (cFits : 0 < Transfer.total lengthHack ts → c.curBit + Transfer.total lengthHack ts ≤ c.maxBit)
    (same : ∀ i < Transfer.total lengthHack ts, bitAt c.data (c.curBit + i) = bitAt b.data (b.curBit + i)) :
    ∃ answers c' b', Transfer.readAll lengthHack c ts = some (answers,c') ∧
      Transfer.readAll lengthHack b ts = some (answers,b') := by
  induction ts generalizing b c with
  | nil => exact ⟨[],c,b,rfl,rfl⟩
  | cons t ts ih =>
    have sum : Transfer.total lengthHack (t :: ts) = t.width lengthHack + Transfer.total lengthHack ts := by
      simp only [Transfer.total,List.map_cons,List.sum_cons]
    rw [sum] at bFits cFits same
    obtain ⟨answer,cRead,bRead⟩ := @readSame lengthHack b c t bInside cInside (by omega) (by omega)
      (fun i within => same i (by omega))
    obtain ⟨answers,c',b',cLater,bLater⟩ :=
      @ih { b with curBit := b.curBit + t.width lengthHack } { c with curBit := c.curBit + t.width lengthHack }
        bInside cInside (by dsimp only; omega) (by dsimp only; omega)
        (fun i within => by
          dsimp only
          rw [Nat.add_assoc,Nat.add_assoc]
          exact same _ (by omega))
    refine ⟨answer :: answers,c',b',?_,?_⟩
    · rw [Transfer.readAll,cRead,Option.bind_some,cLater,Option.map_some]
    · rw [Transfer.readAll,bRead,Option.bind_some,bLater,Option.map_some]

end Reading

theorem cloneBytesAtMost (s : Nat) : cloneBytes s ≤ 1 := by
  by_cases whole : s / 8 + (if s % 8 ≠ 0 then 1 else 0) ≠ 0
  · rw [cloneBytes,if_pos whole]
  · rw [cloneBytes,if_neg whole]
    decide

theorem cloneBytesShort {s : Nat} (short : s ≤ 8) : cloneBytes s = (s + 7) / 8 := by
  have each : ∀ s ≤ 8, cloneBytes s = (s + 7) / 8 := by decide
  exact each s short

theorem cloneExact (data : List Byte) (curBit : Nat) :
    let b := (MessageBuffer.ofData data).setCurrentBit curBit
    (∃ clone after, b.Clone = some (clone,after) ∧ ExactClone b clone) ↔ b.remaining ≤ 8 := by
  intro b
  have inside : b.maxBit ≤ 8 * b.data.length := maxBitInside data
  have fits (some_ : 0 < b.remaining) : b.curBit + b.remaining = b.maxBit := by
    unfold MessageBuffer.remaining at some_ ⊢
    omega
  constructor
  · rintro ⟨clone,after,cloned,exact_⟩
    have size : clone.data.length = cloneBytes b.remaining := by
      unfold MessageBuffer.Clone at cloned
      dsimp only at cloned
      split at cloned
      · cases cloned
      · cases cloned
        unfold MessageBuffer.readBits
        split
        · exact List.length_replicate
        · split
          · exact List.length_replicate
          · exact (copyBitsLength ..).trans List.length_replicate
    have atMost := cloneBytesAtMost b.remaining
    rw [← size,exact_.size] at atMost
    omega
  · intro short
    unfold MessageBuffer.Clone
    dsimp only
    have stored : ¬(0 < b.remaining ∧ ∃ i ∈ copyBitsStores b.remaining 0 b.curBit,
        (List.replicate (cloneBytes b.remaining) (0 : Byte)).length ≤ i) := by
      rintro ⟨some_,i,mem,outside⟩
      obtain ⟨_,_,before⟩ := spillingStores (by omega) (readBitsSpilling b.curBit some_) mem
      rw [List.length_replicate,cloneBytesShort short] at outside
      omega
    rw [if_neg stored]
    refine ⟨_,_,rfl,?_⟩
    have size : (List.replicate (cloneBytes b.remaining) (0 : Byte)).length = (b.remaining + 7) / 8 :=
      List.length_replicate.trans (cloneBytesShort short)
    obtain ⟨copied,read,same,bits⟩ := @bitsCopied b b.remaining (List.replicate (cloneBytes b.remaining) 0)
      (by omega) (fun some_ => Int.le_of_eq (fits some_))
    have whole : copied.length = (b.remaining + 7) / 8 := same.trans size
    rw [read]
    have sized : (MessageBuffer.ofData copied).maxBit = 8 * copied.length := sizedOfData (by omega)
    exact {
      size := whole
      bits := fun p within => (bits p).trans (if_pos within)
      padding := fun p outside => ((bits p).trans (if_neg (Nat.not_lt_of_le outside))).trans (bitAtZeros _ _)
      reads := fun lengthHack ts inside' => by
        refine readAllSame inside (Int.le_of_eq sized) (fun some_ => ?_) (fun some_ => ?_) (fun i within => ?_)
        · have there := fits (by omega)
          omega
        · rw [sized,whole]
          simp only [MessageBuffer.ofData]
          omega
        · have inside : i < b.remaining := Nat.lt_of_lt_of_le within inside'
          simp only [MessageBuffer.ofData,Nat.zero_add]
          exact (bits i).trans (if_pos inside) }

theorem nineBitsCut : ¬∃ clone after, (MessageBuffer.setCurrentBit (.ofData [0xA5,0xFF,0x80]) 15).Clone = some (clone,after) ∧
    ExactClone (.setCurrentBit (.ofData [0xA5,0xFF,0x80]) 15) clone := by
  have outside : (MessageBuffer.setCurrentBit (.ofData [0xA5,0xFF,0x80]) 15).Clone = none := by decide
  rintro ⟨clone,after,cloned,_⟩
  cases outside.symm.trans cloned

end Citizen.Rl
