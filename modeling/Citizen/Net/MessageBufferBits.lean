import Citizen.Net.MessageBuffer

/-! What the byte-wise bit buffer does to single bits: a write changes exactly the
bits between its two cursors, a read returns exactly the field at its cursor. -/
namespace Citizen.Rl
open BitField

theorem getMsbDTop (v : BitVec 32) {shift q : Nat} (hq : q < 8) :
    ((v >>> 24 >>> shift).setWidth 8).getMsbD q = (decide (shift ≤ q) && v.getMsbD (q - shift)) := by
  simp only [BitVec.getMsbD_eq_getLsbD, BitVec.getLsbD_setWidth, BitVec.getLsbD_ushiftRight]
  by_cases inside : shift ≤ q
  · have same : 24 + (shift + (8 - 1 - q)) = 32 - 1 - (q - shift) := by omega
    simp [inside, hq, same, show q - shift < 32 by omega, show 7 - q < 8 by omega]
  · have beyond : 32 ≤ 24 + (shift + (8 - 1 - q)) := by omega
    simp [inside, BitVec.getLsbD_of_ge _ _ beyond]

theorem getMsbDShiftLeft (v : BitVec 32) (n q : Nat) : (v <<< n).getMsbD q = v.getMsbD (q + n) := by
  simp only [BitVec.getMsbD_eq_getLsbD, BitVec.getLsbD_shiftLeft]
  by_cases inside : q + n < 32
  · simp [inside, show q < 32 by omega, show 32 - 1 - q < 32 by omega,
      show ¬ 32 - 1 - q < n by omega, show 32 - 1 - q - n = 32 - 1 - (q + n) by omega]
  · by_cases hq : q < 32
    · simp [inside, hq, show 31 - q < n by omega]
    · simp [inside, hq]

theorem getMsbDOnes {width q : Nat} (small : width ≤ 32) : (ones width).getMsbD q = decide (q < width) := by
  rw [ones, getMsbDShiftLeft, BitVec.getMsbD_allOnes]
  exact decide_eq_decide.mpr (by omega)

theorem mergeTopLength (data i shift v m) : (mergeTop data i shift v m).length = data.length := by
  simp [mergeTop]

theorem spillLength (data i v m n) : (spill data i v m n).length = data.length := by
  induction n generalizing data i v m with
  | zero => rfl
  | succ n ih => simp [spill, ih]

def replaced (v m : BitVec 32) (start : Nat) (old : Bool) (p : Nat) : Bool :=
  v.getMsbD (p - start) || (old && !m.getMsbD (p - start))

variable {data : List Byte}

theorem bitAtMergeTop {i shift p : Nat} (v m : BitVec 32)
    (inside : i < data.length) :
    bitAt (mergeTop data i shift v m) p =
      if p / 8 = i ∧ 8 * i + shift ≤ p then replaced v m (8 * i + shift) (bitAt data p) p
      else bitAt data p := by
  rw [mergeTop, bitAtSet]
  by_cases same : p / 8 = i
  · have hq : p % 8 < 8 := Nat.mod_lt _ (by omega)
    simp only [same, inside, and_self, if_true, BitVec.getMsbD_or, BitVec.getMsbD_and,
      BitVec.getMsbD_not, getMsbDTop _ hq, hq, decide_true, Bool.true_and]
    by_cases after : 8 * i + shift ≤ p
    · have window : p % 8 - shift = p - (8 * i + shift) := by omega
      simp [after, show shift ≤ p % 8 by omega, replaced, bitAt, same, window]
    · simp [after, show ¬ shift ≤ p % 8 by omega, bitAt, same]
  · simp [same]

theorem bitAtSpill {i n p : Nat} (v m : BitVec 32)
    (inside : i + n ≤ data.length) :
    bitAt (spill data i v m n) p =
      if 8 * i ≤ p ∧ p < 8 * (i + n) then replaced v m (8 * i) (bitAt data p) p
      else bitAt data p := by
  induction n generalizing data i v m with
  | zero => simp [spill, show ¬ (8 * i ≤ p ∧ p < 8 * i) by omega]
  | succ n ih =>
    have first := @bitAtMergeTop data i 0 p v m (by omega)
    simp only [mergeTop, BitVec.ushiftRight_zero, Nat.add_zero] at first
    rw [spill, ih _ _ (by simpa using by omega), first]
    by_cases later : 8 * (i + 1) ≤ p ∧ p < 8 * (i + 1 + n)
    · have window : p - 8 * (i + 1) + 8 = p - 8 * i := by omega
      simp only [later, if_true, replaced, getMsbDShiftLeft, window,
        show ¬ p / 8 = i by omega, false_and,
        if_false, show 8 * i ≤ p by omega, show p < 8 * (i + (n + 1)) by omega, and_self]
    · simp only [later, if_false]
      by_cases here : p / 8 = i ∧ 8 * i ≤ p
      · rw [if_pos here, if_pos (by omega)]
      · rw [if_neg here, if_neg (by omega)]

theorem bitAtMergeSpill {i shift width n p : Nat} (v : BitVec 32)
    (small : width ≤ 32) (first : shift < 8) (vWidth : ∀ q, v.getMsbD q = true → q < width)
    (bytes : 8 - shift < width → n = (width - (8 - shift) - 1) / 8 + 1)
    (room : 8 * i + shift + width ≤ 8 * data.length) (positive : 0 < width) :
    bitAt (if 8 - shift < width then
        spill (mergeTop data i shift v (ones width)) (i + 1) (v <<< (8 - shift))
          (ones width <<< (8 - shift)) n
      else mergeTop data i shift v (ones width)) p =
      if 8 * i + shift ≤ p ∧ p < 8 * i + shift + width then v.getMsbD (p - (8 * i + shift))
      else bitAt data p := by
  have merged := @bitAtMergeTop data i shift p v (ones width) (by omega)
  have value : ∀ old, replaced v (ones width) (8 * i + shift) old p =
      if p - (8 * i + shift) < width then v.getMsbD (p - (8 * i + shift)) else old := by
    intro old
    simp only [replaced, getMsbDOnes small]
    by_cases inside : p - (8 * i + shift) < width
    · simp [inside]
    · have none : v.getMsbD (p - (8 * i + shift)) = false := by
        by_contra h
        exact inside (vWidth _ (by simpa using h))
      simp [inside, none]
  split
  · rename_i crosses
    obtain rfl := bytes crosses
    rw [bitAtSpill _ _ (by rw [mergeTopLength]; omega), merged]
    by_cases later : 8 * (i + 1) ≤ p ∧ p < 8 * (i + 1 + ((width - (8 - shift) - 1) / 8 + 1))
    · have window : p - 8 * (i + 1) + (8 - shift) = p - (8 * i + shift) := by omega
      have same := value (bitAt data p)
      simp only [replaced] at same
      rw [if_pos later, if_neg (show ¬ (p / 8 = i ∧ 8 * i + shift ≤ p) by omega)]
      simp only [replaced, getMsbDShiftLeft, window, same]
      by_cases inside : p - (8 * i + shift) < width
      · rw [if_pos inside, if_pos (by omega)]
      · rw [if_neg inside, if_neg (by omega)]
    · rw [if_neg later]
      by_cases here : p / 8 = i ∧ 8 * i + shift ≤ p
      · rw [if_pos here, value, if_pos (by omega), if_pos (by omega)]
      · rw [if_neg here, if_neg (by omega)]
  · rename_i within
    rw [merged]
    by_cases here : p / 8 = i ∧ 8 * i + shift ≤ p
    · rw [if_pos here, value]
      by_cases inside : p - (8 * i + shift) < width
      · rw [if_pos inside, if_pos (by omega)]
      · rw [if_neg inside, if_neg (by omega)]
    · rw [if_neg here, if_neg (by omega)]

theorem getMsbDHigh (value : BitVec 32) {length q : Nat} (small : length ≤ 32) (inside : q < length) :
    (value <<< (32 - length)).getMsbD q = value.getLsbD (length - 1 - q) := by
  have bound : q + (32 - length) < 32 := by omega
  rw [getMsbDShiftLeft, BitVec.getMsbD_eq_getLsbD]
  simp only [bound, decide_true, Bool.true_and]
  rw [show 32 - 1 - (q + (32 - length)) = length - 1 - q by omega]

theorem getMsbDHighWidth (value : BitVec 32) {length : Nat} (small : length ≤ 32) (q : Nat)
    (set : (value <<< (32 - length)).getMsbD q = true) : q < length := by
  rw [getMsbDShiftLeft] at set
  have bound := BitVec.lt_of_getMsbD set
  omega

def MessageBuffer.Sized (b : MessageBuffer) : Prop := b.maxBit = 8 * b.data.length

theorem sizedOfData (small : data.length < 2 ^ 28) : (MessageBuffer.ofData data).Sized := by
  simp only [MessageBuffer.Sized, MessageBuffer.ofData, toInt]
  rw [BitVec.toInt_ofNat', Int.bmod_def]
  omega

theorem sizedOfSize {size : Nat} (small : size < 2 ^ 28) : (MessageBuffer.ofSize size).Sized :=
  sizedOfData (by simpa using small)

section Single
variable {lengthHack : Bool} {b : MessageBuffer} {length : Nat}

theorem writeBitsSingleBits (value : BitVec 32) (p : Nat) (sized : b.Sized)
    (positive : 0 < hackLength lengthHack length) (small : hackLength lengthHack length ≤ 32)
    (room : b.curBit + hackLength lengthHack length ≤ 8 * b.data.length) :
    bitAt (b.writeBitsSingle lengthHack length value).2.data p =
      if b.curBit ≤ p ∧ p < b.curBit + hackLength lengthHack length then
        value.getLsbD (b.curBit + hackLength lengthHack length - 1 - p)
      else bitAt b.data p := by
  simp only [MessageBuffer.writeBitsSingle]
  generalize hackLength lengthHack length = length at *
  rw [if_neg (by rw [sized]; omega)]
  have start : 8 * (b.curBit / 8) + b.curBit % 8 = b.curBit := by omega
  have merged := @bitAtMergeSpill b.data (b.curBit / 8) (b.curBit % 8) length _ p
    (value <<< (32 - length)) small (by omega) (getMsbDHighWidth value small)
    (fun _ => rfl) (by omega) positive
  rw [start] at merged
  rw [merged]
  split
  · rename_i inside
    rw [getMsbDHigh value small (by omega)]
    congr 1
    omega
  · rfl

theorem writeBitsSingleState (value : BitVec 32) (sized : b.Sized)
    (room : b.curBit + hackLength lengthHack length ≤ 8 * b.data.length) :
    let r := b.writeBitsSingle lengthHack length value
    r.1 = true ∧ r.2.data.length = b.data.length ∧ r.2.maxBit = b.maxBit ∧
      r.2.curBit = b.curBit + hackLength lengthHack length := by
  simp only [MessageBuffer.writeBitsSingle]
  rw [if_neg (by rw [sized]; omega)]
  refine ⟨rfl, ?_, rfl, rfl⟩
  dsimp only
  split <;> simp [spillLength, mergeTopLength]

def Gathered (data : List Byte) (pos shift k : Nat) (retval : BitVec 32) : Prop :=
  ∀ j, retval.getLsbD j = (decide (shift ≤ j ∧ j < 8 * k) && bitAt data (pos + 8 * k - 1 - j))

theorem bitAtByte (data : List Byte) (i : Nat) {j : Nat} (inside : j < 8) :
    (byteAt data i).getLsbD j = bitAt data (8 * i + 7 - j) := by
  rw [bitAt, BitVec.getMsbD_eq_getLsbD, show (8 * i + 7 - j) / 8 = i by omega,
    show 8 - 1 - (8 * i + 7 - j) % 8 = j by omega]
  simp [show (8 * i + 7 - j) % 8 < 8 by omega]

theorem gatheredFirst (data : List Byte) (i : Nat) {shift : Nat} (small : shift < 8) :
    Gathered data (8 * i + shift) shift 1 ((byteAt data i <<< shift).setWidth 32) := by
  intro j
  simp only [BitVec.getLsbD_setWidth, BitVec.getLsbD_shiftLeft]
  by_cases inside : shift ≤ j ∧ j < 8
  · rw [bitAtByte data i (show j - shift < 8 by omega),
      show 8 * i + 7 - (j - shift) = 8 * i + shift + 8 * 1 - 1 - j by omega]
    simp [inside, show j < 32 by omega, show ¬ j < shift by omega]
  · by_cases low : j < shift
    · simp [low, show ¬ shift ≤ j by omega]
    · simp [show ¬ j < 8 by omega]

theorem gatheredNext {data : List Byte} {i shift k : Nat} {retval : BitVec 32} (small : shift < 8)
    (some : 1 ≤ k) (room : k + 1 ≤ 4) (gathered : Gathered data (8 * i + shift) shift k retval) :
    Gathered data (8 * i + shift) shift (k + 1) ((byteAt data (i + k)).setWidth 32 <<< shift ||| retval <<< 8) := by
  intro j
  simp only [BitVec.getLsbD_or, BitVec.getLsbD_shiftLeft, BitVec.getLsbD_setWidth, gathered (j - 8)]
  by_cases low : j < shift
  · simp [low, show ¬ shift ≤ j by omega, show j < 8 by omega]
  by_cases byte : j < shift + 8
  · rw [bitAtByte data (i + k) (show j - shift < 8 by omega),
      show 8 * (i + k) + 7 - (j - shift) = 8 * i + shift + 8 * (k + 1) - 1 - j by omega]
    have bits : decide (j < 8) = true ∨ decide (shift ≤ j - 8 ∧ j - 8 < 8 * k) = false := by
      by_cases first : j < 8
      · exact .inl (by simpa using first)
      · exact .inr (by simp [show ¬ shift ≤ j - 8 by omega])
    rcases bits with first | later
    · simp [first, low, show j < 32 by omega, show j - shift < 32 by omega, show shift ≤ j by omega,
        show j < 8 * (k + 1) by omega]
    · simp [later, low, show j < 32 by omega, show j - shift < 32 by omega, show shift ≤ j by omega,
        show j < 8 * (k + 1) by omega]
  · have outside : (byteAt data (i + k)).getLsbD (j - shift) = false :=
      BitVec.getLsbD_of_ge _ _ (by omega)
    rw [outside, show 8 * i + shift + 8 * k - 1 - (j - 8) = 8 * i + shift + 8 * (k + 1) - 1 - j by omega]
    simp [show ¬ j < 8 by omega, show shift ≤ j - 8 by omega, show shift ≤ j by omega]
    by_cases inside : j < 8 * (k + 1)
    · simp [inside, show j - 8 < 8 * k by omega, show j < 32 by omega]
    · simp [inside, show ¬ j - 8 < 8 * k by omega]

theorem gatheredLoop {data : List Byte} {i shift : Nat} (small : shift < 8) :
    ∀ {remaining k retval}, 1 ≤ k → k + remaining ≤ 4 → Gathered data (8 * i + shift) shift k retval →
      Gathered data (8 * i + shift) shift (k + remaining) (readLoop data shift remaining (i + k) retval) := by
  intro remaining
  induction remaining with
  | zero => intro k retval _ _ gathered; exact gathered
  | succ remaining ih =>
    intro k retval some room gathered
    have next := ih (by omega) (by omega) (gatheredNext small some (by omega) gathered)
    rw [readLoop]
    rwa [show k + 1 + remaining = k + (remaining + 1) by omega] at next

theorem readBitsSingleFails (full : b.maxBit < b.curBit + hackLength lengthHack length) :
    b.readBitsSingle lengthHack length =
      (none,{ b with curBit := b.curBit + hackLength lengthHack length }) := by
  simp [MessageBuffer.readBitsSingle, full]

theorem readBitsSingleBits (sized : b.Sized) (positive : 0 < hackLength lengthHack length)
    (small : hackLength lengthHack length ≤ 32)
    (room : b.curBit + hackLength lengthHack length ≤ 8 * b.data.length) :
    ∃ value, b.readBitsSingle lengthHack length =
        (some value,{ b with curBit := b.curBit + hackLength lengthHack length }) ∧
      ∀ j, value.getLsbD j = (decide (j < hackLength lengthHack length) &&
        bitAt b.data (b.curBit + hackLength lengthHack length - 1 - j)) := by
  simp only [MessageBuffer.readBitsSingle]
  generalize hackLength lengthHack length = length at *
  rw [if_neg (by rw [sized]; omega)]
  refine ⟨_, rfl, ?_⟩
  intro j
  have shiftSmall : b.curBit % 8 < 8 := Nat.mod_lt _ (by omega)
  have rounds : (if 8 < length then (length - 9) / 8 + 1 else 0) = (length - 1) / 8 := by
    split <;> omega
  have start : 8 * (b.curBit / 8) + b.curBit % 8 = b.curBit := by omega
  have whole := @gatheredLoop b.data (b.curBit / 8) _ shiftSmall ((length - 1) / 8) 1 _
    (by omega) (by omega) (gatheredFirst b.data (b.curBit / 8) shiftSmall)
  rw [start] at whole
  rw [rounds, BitVec.getLsbD_ushiftRight]
  have width : (length + 7) / 8 * 8 = 8 * (1 + (length - 1) / 8) := by omega
  have position : b.curBit + 8 * (1 + (length - 1) / 8) - 1 - ((length + 7) / 8 * 8 - length + j) =
      b.curBit + length - 1 - j := by omega
  have taken := whole ((length + 7) / 8 * 8 - length + j)
  rw [position] at taken
  by_cases aligned : b.curBit % 8 = 0
  · rw [if_pos aligned, taken]
    simp only [aligned, Nat.zero_le, true_and]
    congr 1
    exact decide_eq_decide.mpr (by omega)
  · rw [if_neg aligned, BitVec.getLsbD_or, taken, BitVec.getLsbD_setWidth, BitVec.getLsbD_ushiftRight]
    by_cases owed : (length + 7) / 8 * 8 - length + j < b.curBit % 8
    · rw [bitAtByte _ _ (by omega)]
      have same : 8 * (b.curBit / 8 + 1 + (length - 1) / 8) + 7 -
          (8 - b.curBit % 8 + ((length + 7) / 8 * 8 - length + j)) = b.curBit + length - 1 - j := by
        omega
      rw [same]
      simp [show ¬ b.curBit % 8 ≤ (length + 7) / 8 * 8 - length + j by omega,
        show (length + 7) / 8 * 8 - length + j < 32 by omega, show j < length by omega]
    · have outside : (byteAt b.data (b.curBit / 8 + 1 + (length - 1) / 8)).getLsbD
          (8 - b.curBit % 8 + ((length + 7) / 8 * 8 - length + j)) = false :=
        BitVec.getLsbD_of_ge _ _ (by omega)
      rw [outside]
      simp only [Bool.and_false, Bool.or_false]
      congr 1
      exact decide_eq_decide.mpr (by omega)

end Single

theorem memcpyLength (dest d src s n) : (memcpy dest d src s n).length = dest.length := by
  induction n generalizing dest d s with
  | zero => rfl
  | succ n ih => simp [memcpy, ih]

theorem bitAtMemcpy {dest src : List Byte} {d s n p : Nat} (room : d + n ≤ dest.length) :
    bitAt (memcpy dest d src s n) p =
      if 8 * d ≤ p ∧ p < 8 * (d + n) then bitAt src (8 * s + (p - 8 * d)) else bitAt dest p := by
  induction n generalizing dest d s with
  | zero => simp [memcpy, show ¬ (8 * d ≤ p ∧ p < 8 * d) by omega]
  | succ n ih =>
    rw [memcpy, ih (by simpa using by omega), bitAtSet]
    by_cases later : 8 * (d + 1) ≤ p ∧ p < 8 * (d + 1 + n)
    · rw [if_pos later, if_pos (by omega)]
      congr 1
      omega
    · rw [if_neg later]
      by_cases here : p / 8 = d
      · rw [if_pos ⟨here, by omega⟩, if_pos (by omega), bitAt,
          show (8 * s + (p - 8 * d)) / 8 = s by omega,
          show (8 * s + (p - 8 * d)) % 8 = p % 8 by omega]
      · rw [if_neg (by omega), if_neg (by omega)]

theorem shiftLoopLength (dest d src s v21 v23 n) : (shiftLoop dest d src s v21 v23 n).length = dest.length := by
  induction n generalizing dest d s v23 with
  | zero => rfl
  | succ n ih => simp [shiftLoop, ih]

theorem getMsbDShiftedIn (low high : Byte) {v21 q : Nat} (inside : q < 8) (small : v21 ≤ 8) :
    ((low >>> v21) ||| ((0xFF#8 <<< (8 - v21)) &&& high)).getMsbD q =
      if v21 ≤ q then low.getMsbD (q - v21) else high.getMsbD q := by
  simp only [BitVec.getMsbD_eq_getLsbD]
  by_cases after : v21 ≤ q
  · simp [inside, after, show 7 - q < 8 - v21 by omega, show q - v21 < 8 by omega,
      show v21 + (7 - q) = 7 - (q - v21) by omega]
  · have gone : low.getLsbD (v21 + (7 - q)) = false := BitVec.getLsbD_of_ge _ _ (by omega)
    have kept : (0xFF#8).getLsbD (7 - q - (8 - v21)) = true := by
      rw [show (0xFF#8) = BitVec.allOnes 8 from rfl, BitVec.getLsbD_allOnes]
      exact decide_eq_true (by omega)
    simp [inside, after, gone, kept, show 7 - q < 8 by omega, show ¬ 7 - q < 8 - v21 by omega]

theorem getMsbDShiftedOut (high low : Byte) {v21 q : Nat} (inside : q < 8) (small : v21 ≤ 8) :
    ((high <<< (8 - v21)) ||| ((0xFF#8 >>> v21) &&& low)).getMsbD q =
      if q < v21 then high.getMsbD (q + (8 - v21)) else low.getMsbD q := by
  simp only [BitVec.getMsbD_eq_getLsbD]
  by_cases before : q < v21
  · have gone : (0xFF#8).getLsbD (v21 + (7 - q)) = false := BitVec.getLsbD_of_ge _ _ (by omega)
    have same : 7 - (q + (8 - v21)) = 7 - q - (8 - v21) := by omega
    simp [inside, before, gone, show 7 - q < 8 by omega, show ¬ 7 - q < 8 - v21 by omega,
      show q + (8 - v21) < 8 by omega, same]
    exact (BitVec.getLsbD_eq_getElem (by omega)).symm
  · have kept : (0xFF#8).getLsbD (v21 + (7 - q)) = true := by
      rw [show (0xFF#8) = BitVec.allOnes 8 from rfl, BitVec.getLsbD_allOnes]
      exact decide_eq_true (by omega)
    simp [inside, before, kept, show 7 - q < 8 - v21 by omega]

theorem bitAtShiftLoop {dest src : List Byte} {d s v21 n p : Nat} {v23 : Byte}
    (unaligned : 0 < v21) (small : v21 < 8) (room : d + n < dest.length)
    (held : v23 = byteAt dest d) :
    bitAt (shiftLoop dest d src s v21 v23 n) p =
      if 8 * d + v21 ≤ p ∧ p < 8 * (d + n) + v21 then bitAt src (8 * s + (p - (8 * d + v21)))
      else bitAt dest p := by
  induction n generalizing dest d s v23 with
  | zero => simp [shiftLoop, show ¬ (8 * d + v21 ≤ p ∧ p < 8 * d + v21) by omega]
  | succ n ih =>
    subst held
    have hq : p % 8 < 8 := Nat.mod_lt _ (by omega)
    rw [shiftLoop, ih (by simpa using by omega) (by
      rw [byteAtSet, if_pos ⟨rfl, by simpa using by omega⟩])]
    by_cases later : 8 * (d + 1) + v21 ≤ p ∧ p < 8 * (d + 1 + n) + v21
    · rw [if_pos later, if_pos (by omega)]
      congr 1
      omega
    · rw [if_neg later, bitAtSet, bitAtSet]
      by_cases next : p / 8 = d + 1
      · rw [if_pos ⟨next, by simpa using by omega⟩, getMsbDShiftedOut _ _ hq (by omega)]
        by_cases before : p % 8 < v21
        · rw [if_pos before, if_pos (by omega), bitAt,
            show (8 * s + (p - (8 * d + v21))) / 8 = s by omega,
            show (8 * s + (p - (8 * d + v21))) % 8 = p % 8 + (8 - v21) by omega]
        · rw [if_neg before, if_neg (by omega), bitAt, next]
      · rw [if_neg (by omega)]
        by_cases here : p / 8 = d
        · rw [if_pos ⟨here, by omega⟩, getMsbDShiftedIn _ _ hq (by omega)]
          by_cases after : v21 ≤ p % 8
          · rw [if_pos after, if_pos (by omega), bitAt,
              show (8 * s + (p - (8 * d + v21))) / 8 = s by omega,
              show (8 * s + (p - (8 * d + v21))) % 8 = p % 8 - v21 by omega]
          · rw [if_neg after, if_neg (by omega), bitAt, here]
        · rw [if_neg (by omega), if_neg (by omega)]

theorem getMsbDTopBits (byte : Byte) {width : Nat} (small : width ≤ 8) (q : Nat) :
    (topBits byte width).getMsbD q = (decide (q < width) && byte.getMsbD q) := by
  rw [topBits, getMsbDShiftLeft]
  simp only [BitVec.getMsbD_eq_getLsbD, BitVec.getLsbD_ushiftRight, BitVec.getLsbD_setWidth]
  by_cases inside : q < width
  · simp [inside, show q + (32 - width) < 32 by omega, show q < 8 by omega,
      show 8 - width + (31 - (q + (32 - width))) = 7 - q by omega, show 7 - q < 32 by omega]
  · simp [inside, show ¬ q + (32 - width) < 32 by omega]

theorem copyTailLength (dest d shift byte width) : (copyTail dest d shift byte width).length = dest.length := by
  simp only [copyTail]
  split <;> simp [spillLength, mergeTopLength]

theorem bitAtCopyTail {dest : List Byte} {d shift width p : Nat} (byte : Byte)
    (small : width ≤ 8) (positive : 0 < width) (first : shift < 8)
    (room : 8 * d + shift + width ≤ 8 * dest.length) :
    bitAt (copyTail dest d shift byte width) p =
      if 8 * d + shift ≤ p ∧ p < 8 * d + shift + width then byte.getMsbD (p - (8 * d + shift))
      else bitAt dest p := by
  have bits := getMsbDTopBits byte small
  rw [copyTail, bitAtMergeSpill (topBits byte width) (by omega) first
    (fun q set => by rw [bits] at set; simp at set; exact set.1) (by omega) room positive]
  split
  · rw [bits]
    simp only [Bool.and_eq_right_iff_imp, decide_eq_true_eq]
    omega
  · rfl

theorem copyBitsLength (dest src length d s) : (copyBits dest src length d s).length = dest.length := by
  simp only [copyBits]
  split_ifs <;> simp [copyTailLength, memcpyLength, shiftLoopLength, mergeTopLength, spillLength]

section
variable {dest src : List Byte} {length d s p : Nat}

theorem bitAtCopyRest (positive : 0 < length)
    (room : d + length ≤ 8 * dest.length) :
    bitAt (if length / 8 = 0 then copyTail dest (d / 8) (d % 8) (byteAt src s) length
      else
        let body :=
          if d % 8 = 0 then memcpy dest (d / 8) src s (length / 8)
          else shiftLoop dest (d / 8) src s (d % 8) (byteAt dest (d / 8)) (length / 8)
        if length % 8 = 0 then body
        else copyTail body ((d + length / 8 * 8) / 8) (d % 8) (byteAt src (s + length / 8))
          (length % 8)) p =
      if d ≤ p ∧ p < d + length then bitAt src (8 * s + (p - d)) else bitAt dest p := by
  have start : 8 * (d / 8) + d % 8 = d := by omega
  have tail : ∀ (k q : Nat), q < 8 → (byteAt src k).getMsbD q = bitAt src (8 * k + q) := by
    intro k q hq
    rw [bitAt, show (8 * k + q) / 8 = k by omega, show (8 * k + q) % 8 = q by omega]
  split
  · rw [bitAtCopyTail _ (by omega) positive (by omega) (by omega), start]
    split
    · rw [tail _ _ (by omega)]
    · rfl
  have bytes : bitAt (if d % 8 = 0 then memcpy dest (d / 8) src s (length / 8)
      else shiftLoop dest (d / 8) src s (d % 8) (byteAt dest (d / 8)) (length / 8)) p =
      if d ≤ p ∧ p < d + length / 8 * 8 then bitAt src (8 * s + (p - d)) else bitAt dest p := by
    split
    · rw [bitAtMemcpy (by omega), show 8 * (d / 8) = d by omega,
        show 8 * (d / 8 + length / 8) = d + length / 8 * 8 by omega]
    · rw [bitAtShiftLoop (by omega) (by omega) (by omega) rfl, start,
        show 8 * (d / 8 + length / 8) + d % 8 = d + length / 8 * 8 by omega]
  have kept : (if d % 8 = 0 then memcpy dest (d / 8) src s (length / 8)
      else shiftLoop dest (d / 8) src s (d % 8) (byteAt dest (d / 8)) (length / 8)).length =
      dest.length := by
    split <;> simp [memcpyLength, shiftLoopLength]
  dsimp only
  split
  · rw [bytes, show length / 8 * 8 = length by omega]
  · have rest : 8 * ((d + length / 8 * 8) / 8) + d % 8 = d + length / 8 * 8 := by omega
    rw [bitAtCopyTail _ (by omega) (by omega) (by omega) (by rw [kept]; omega), rest, bytes]
    by_cases last : d + length / 8 * 8 ≤ p ∧ p < d + length / 8 * 8 + length % 8
    · rw [if_pos last, if_pos (by omega), tail _ _ (by omega)]
      congr 1
      omega
    · rw [if_neg last]
      by_cases whole : d ≤ p ∧ p < d + length / 8 * 8
      · rw [if_pos whole, if_pos (by omega)]
      · rw [if_neg whole, if_neg (by omega)]

theorem bitAtCopySpilled (positive : 0 < length)
    (once : s % 8 ≠ 0 → 8 - d % 8 < min (8 - s % 8) length → spillCount (d % 8) (s % 8) length = 1)
    (room : d + length ≤ 8 * dest.length) :
    bitAt (copyBits dest src length d s) p =
      if d ≤ p ∧ p < d + length then bitAt src (s + (p - d)) else bitAt dest p := by
  by_cases source : s % 8 = 0
  · have rest := @bitAtCopyRest dest src length d (s / 8) p positive room
    rw [show 8 * (s / 8) = s by omega] at rest
    simpa [copyBits, source, show length ≠ 0 by omega] using rest
  have bits := getMsbDTopBits (byteAt src (s / 8) <<< (s % 8)) (show min (8 - s % 8) length ≤ 8 by omega)
  have first := fun p => @bitAtMergeSpill dest (d / 8) (d % 8) (min (8 - s % 8) length)
    (spillCount (d % 8) (s % 8) length) p (topBits (byteAt src (s / 8) <<< (s % 8)) (min (8 - s % 8) length))
    (by omega) (by omega) (fun q set => by rw [bits] at set; simp at set; omega)
    (fun crosses => by rw [once source crosses]; omega) (by omega) (by omega)
  simp only [copyBits, source, if_false]
  -- what the first byte leaves
  generalize made : (if 8 - d % 8 < min (8 - s % 8) length then _ else _ : List Byte) = head at first ⊢
  have kept : head.length = dest.length := by
    rw [← made]
    split <;> simp [spillLength, mergeTopLength]
  have headBits : ∀ p, bitAt head p =
      if d ≤ p ∧ p < d + min (8 - s % 8) length then bitAt src (s + (p - d)) else bitAt dest p := by
    intro p
    rw [first, show 8 * (d / 8) + d % 8 = d by omega]
    split
    · rw [bits, BitVec.getMsbD_shiftLeft, bitAt, show (s + (p - d)) / 8 = s / 8 by omega,
        show (s + (p - d)) % 8 = p - d + s % 8 by omega]
      simp [show p - d < 8 - s % 8 by omega, show p - d < length by omega]
    · rfl
  by_cases done : length - min (8 - s % 8) length = 0
  · rw [if_pos done, headBits, show min (8 - s % 8) length = length by omega]
  · rw [if_neg done]
    have rest := @bitAtCopyRest head src (length - min (8 - s % 8) length)
      (d + min (8 - s % 8) length) (s / 8 + 1) p (by omega) (by rw [kept]; omega)
    rw [rest, headBits]
    by_cases late : d + min (8 - s % 8) length ≤ p ∧
        p < d + min (8 - s % 8) length + (length - min (8 - s % 8) length)
    · rw [if_pos late, if_pos (by omega)]
      congr 1
      omega
    · rw [if_neg late]
      by_cases early : d ≤ p ∧ p < d + min (8 - s % 8) length
      · rw [if_pos early, if_pos (by omega)]
      · rw [if_neg early, if_neg (by omega)]

theorem bitAtCopyBits (aligned : s % 8 = 0 ∨ d % 8 = 0)
    (positive : 0 < length) (room : d + length ≤ 8 * dest.length) :
    bitAt (copyBits dest src length d s) p =
      if d ≤ p ∧ p < d + length then bitAt src (s + (p - d)) else bitAt dest p :=
  bitAtCopySpilled positive (fun source crosses => by omega) room

end

structure MessageBuffer.Extends (old new : MessageBuffer) : Prop where
  cursor : old.curBit ≤ new.curBit
  length : new.data.length = old.data.length
  sized : new.Sized
  settled : ∀ i < old.curBit, bitAt new.data i = bitAt old.data i

theorem MessageBuffer.Extends.trans {a b c : MessageBuffer} (first : a.Extends b)
    (second : b.Extends c) : a.Extends c where
  cursor := first.cursor.trans second.cursor
  length := second.length.trans first.length
  sized := second.sized
  settled i hi := (second.settled i (hi.trans_le first.cursor)).trans (first.settled i hi)

theorem MessageBuffer.Extends.field {old new : MessageBuffer} (extend : old.Extends new)
    {start width value : Nat} (inside : start + width ≤ old.curBit)
    (field : Field old.data start width value) : Field new.data start width value :=
  field.ofPrefix (fun i hi => extend.settled i (by omega))

section Hacked
variable {b : MessageBuffer} {lengthHack : Bool} {length : Nat}

theorem writeHackedField (value : Nat) (sized : b.Sized) (positive : 0 < hackLength lengthHack length)
    (small : hackLength lengthHack length ≤ 32) (room : b.curBit + hackLength lengthHack length ≤ 8 * b.data.length) :
    Field (b.write lengthHack length value).data b.curBit (hackLength lengthHack length) value ∧
      b.Extends (b.write lengthHack length value) ∧
      (b.write lengthHack length value).curBit = b.curBit + hackLength lengthHack length := by
  have bits := fun p => @writeBitsSingleBits lengthHack b length (BitVec.ofNat 32 value) p sized
    positive small room
  obtain ⟨-,size,top,cursor⟩ := @writeBitsSingleState lengthHack b length (BitVec.ofNat 32 value) sized room
  generalize hackLength lengthHack length = width at *
  refine ⟨?_,⟨?_,size,?_,?_⟩,cursor⟩
  · intro k hk
    rw [MessageBuffer.write,bits,if_pos (by omega)]
    simp only [BitVec.getLsbD_ofNat]
    rw [show b.curBit + width - 1 - (b.curBit + k) = width - 1 - k by omega]
    simp [show width - 1 - k < 32 by omega]
  · rw [MessageBuffer.write,cursor]
    omega
  · rw [MessageBuffer.Sized,MessageBuffer.write,top,size,sized]
  · intro i hi
    rw [MessageBuffer.write,bits,if_neg (by omega)]

theorem readHackedField {value : Nat} (sized : b.Sized) (positive : 0 < hackLength lengthHack length)
    (small : hackLength lengthHack length ≤ 32)
    (room : b.curBit + hackLength lengthHack length ≤ 8 * b.data.length)
    (field : Field b.data b.curBit (hackLength lengthHack length) value) :
    b.readBitsSingle lengthHack length =
      (some (BitVec.ofNat 32 (value % 2 ^ hackLength lengthHack length)),
        { b with curBit := b.curBit + hackLength lengthHack length }) := by
  obtain ⟨read,same,bits⟩ := @readBitsSingleBits lengthHack b length sized positive small room
  generalize hackLength lengthHack length = width at *
  rw [same]
  congr 2
  apply BitVec.eq_of_getLsbD_eq
  intro j hj
  rw [bits,BitVec.getLsbD_ofNat,Nat.testBit_mod_two_pow]
  by_cases inside : j < width
  · have bit := field (width - 1 - j) (by omega)
    rw [show b.curBit + (width - 1 - j) = b.curBit + width - 1 - j by omega,
      show width - 1 - (width - 1 - j) = j by omega] at bit
    simp [inside,bit,hj]
  · simp [inside]

end Hacked

section Plain
variable {b : MessageBuffer} {length : Nat}

theorem writeField (value : Nat) (sized : b.Sized) (positive : 0 < length) (small : length ≤ 32)
    (room : b.curBit + length ≤ 8 * b.data.length) : Field (b.write false length value).data b.curBit length value ∧
      b.Extends (b.write false length value) ∧ (b.write false length value).curBit = b.curBit + length := by
  have plain : hackLength false length = length := by simp [hackLength]
  have written := @writeHackedField b false length value sized
  rw [plain] at written
  exact written positive small room

theorem readField {value : Nat} (sized : b.Sized) (positive : 0 < length) (small : length ≤ 32)
    (room : b.curBit + length ≤ 8 * b.data.length) (field : Field b.data b.curBit length value) :
    b.readBitsSingle false length =
      (some (BitVec.ofNat 32 (value % 2 ^ length)),{ b with curBit := b.curBit + length }) := by
  have plain : hackLength false length = length := by simp [hackLength]
  have read := @readHackedField b false length value sized
  rw [plain] at read
  exact read positive small room field

theorem readMoves (b : MessageBuffer) (length : Nat) :
    (b.readBitsSingle false length).2 = { b with curBit := b.curBit + length } := by
  have plain : hackLength false length = length := by simp [hackLength]
  simp only [MessageBuffer.readBitsSingle,plain]
  split <;> rfl

theorem readBounded {value : BitVec 32} (sized : b.Sized) (positive : 0 < length) (small : length ≤ 32)
    (read : (b.readBitsSingle false length).1 = some value) :
    value.toNat < 2 ^ length ∧ b.curBit + length ≤ 8 * b.data.length := by
  have plain : hackLength false length = length := by simp [hackLength]
  have room : b.curBit + length ≤ 8 * b.data.length := by
    by_contra short
    have full := @readBitsSingleFails false b length (by rw [plain,sized]; omega)
    rw [full] at read
    contradiction
  obtain ⟨found,same,bits⟩ := @readBitsSingleBits false b length sized (by omega) (by omega) (by omega)
  rw [same] at read
  cases read
  refine ⟨Nat.lt_pow_two_of_testBit _ ?_,room⟩
  intro i high
  rw [BitVec.testBit_toNat,bits,plain]
  simp [show ¬ i < length by omega]

theorem writeBitsBits {src : List Byte} (p : Nat) (sized : b.Sized) (positive : 0 < length)
    (room : b.curBit + length ≤ 8 * b.data.length) :
    bitAt (b.writeBits src length).2.data p =
      if b.curBit ≤ p ∧ p < b.curBit + length then bitAt src (p - b.curBit) else bitAt b.data p := by
  rw [MessageBuffer.writeBits,if_neg (by rw [sized]; omega)]
  dsimp only
  rw [bitAtCopyBits (.inl rfl) positive room]
  simp

theorem writeBitsExtends {src : List Byte} (sized : b.Sized) (positive : 0 < length)
    (room : b.curBit + length ≤ 8 * b.data.length) :
    b.Extends (b.writeBits src length).2 ∧ (b.writeBits src length).2.curBit = b.curBit + length := by
  have bits := fun p => @writeBitsBits b length src p sized positive room
  rw [MessageBuffer.writeBits,if_neg (by rw [sized]; omega)] at bits ⊢
  refine ⟨⟨by simp,copyBitsLength _ _ _ _ _,?_,?_⟩,rfl⟩
  · rw [MessageBuffer.Sized,copyBitsLength]
    exact sized
  · intro i hi
    rw [bits,if_neg (by omega)]

theorem readBitsBits {dest : List Byte} (p : Nat) (sized : b.Sized) (positive : 0 < length)
    (inside : b.curBit + length ≤ 8 * b.data.length) (room : length ≤ 8 * dest.length) :
    b.readBits dest length =
        (true,copyBits dest b.data length 0 b.curBit,{ b with curBit := b.curBit + length }) ∧
      bitAt (copyBits dest b.data length 0 b.curBit) p =
        if p < length then bitAt b.data (b.curBit + p) else bitAt dest p := by
  constructor
  · rw [MessageBuffer.readBits,if_neg (by omega),if_neg (by rw [sized]; omega)]
  · rw [bitAtCopyBits (.inr rfl) positive (by omega)]
    simp

end Plain

end Citizen.Rl
