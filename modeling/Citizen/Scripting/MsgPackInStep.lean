import Citizen.Scripting.MsgPackDocuments

/-! Reading stays in step with a document as long as every vector is announced with the length that is read of it. -/
namespace Citizen.Scripting.MsgPack
open BitField (Byte)
open LittleEndian (lowBit getLsbDValue valueReverse)
open RangeReader
variable {α : Type}

section Numbers
variable (host : Host)

theorem takeReads {amount : BitVec 32} {bytes : List Byte} (size : bytes.length = amount.toNat) :
    Reads (take amount) bytes bytes := by
  intro before rest
  have total : (before ++ bytes ++ rest).length = before.length + bytes.length + rest.length := by
    rw [List.length_append,List.length_append]
  have advance : AdvancePointer amount (before ++ bytes ++ rest) before.length =
      .ok before.length (before.length + amount.toNat) := if_neg (by omega)
  have found : ((before ++ bytes ++ rest).drop before.length).take amount.toNat = bytes := by
    rw [List.append_assoc,List.drop_left,← size,List.take_left]
  refine (bindOk advance).trans ((if_pos (by omega)).trans ?_)
  rw [found,size]

theorem swap16Bit (v : BitVec 16) {i : Nat} (inside : i < 16) :
    (swap16 (v.setWidth 32)).getLsbD i = v.getLsbD (8 * (1 - i / 8) + i % 8) := by
  interval_cases i <;> simp [swap16]

theorem swap32Bit (v : BitVec 32) {i : Nat} (inside : i < 32) :
    (swap32 v).getLsbD i = v.getLsbD (8 * (3 - i / 8) + i % 8) := by
  interval_cases i <;> simp [swap32]

theorem swap64Bit (v : BitVec 64) {i : Nat} (inside : i < 64) :
    (swap64 v).getLsbD i = v.getLsbD (8 * (7 - i / 8) + i % 8) := by
  interval_cases i <;> simp [swap64]

theorem bigReverse (width n : Nat) : LittleEndian.value (big width n).reverse = n % 256 ^ width := by
  rw [big,List.reverse_reverse,LittleEndian.valueBytes]

@[simp] theorem bigLength (width n : Nat) : (big width n).length = width := by
  rw [big,List.length_reverse,LittleEndian.bytesLength]

namespace Host

theorem readByteReads (b : Byte) : Reads host.ReadByte [b] b := by
  have reads : Reads (take 1) [b] [b] := takeReads rfl
  have same : host.native 8 [b] = b := by
    simp [native,LittleEndian.value]
  have both := reads.map (host.native 8)
  rwa [same] at both

theorem readUInt8Reads (n : Nat) : Reads host.ReadByte (big 1 n) (.ofNat 8 n) := by
  have same : big 1 n = [BitVec.ofNat 8 n] := rfl
  rw [same]
  exact host.readByteReads _

theorem swapped {width : Nat} {bytes : List Byte} (size : 8 * bytes.length = width) {swap : BitVec width → BitVec width}
    (bit : ∀ v p, p < width → (swap v).getLsbD p = v.getLsbD (8 * (bytes.length - 1 - p / 8) + p % 8)) :
    (if host.IsLittleEndian then swap (host.native width bytes) else host.native width bytes) =
      .ofNat width (LittleEndian.value bytes.reverse) := by
  cases little : host.IsLittleEndian with
  | false => simp [native,little]
  | true =>
    simp only [native,little,if_true]
    refine valueReverse size _ fun p inside => ?_
    rw [bit _ p inside,getLsbDValue]
    omega

theorem swappedBig (bytes n : Nat) (swap : BitVec (8 * bytes) → BitVec (8 * bytes))
    (bit : ∀ v p, p < 8 * bytes → (swap v).getLsbD p = v.getLsbD (8 * (bytes - 1 - p / 8) + p % 8)) :
    (if host.IsLittleEndian then swap (host.native (8 * bytes) (big bytes n)) else host.native (8 * bytes) (big bytes n)) =
      .ofNat (8 * bytes) n := by
  rw [host.swapped (by rw [bigLength]) (by rw [bigLength]; exact bit),bigReverse]
  apply BitVec.eq_of_toNat_eq
  rw [BitVec.toNat_ofNat,BitVec.toNat_ofNat,show 256 = 2 ^ 8 from rfl,← Nat.pow_mul,Nat.mod_mod]

theorem readUInt16Reads (n : Nat) : Reads host.ReadUInt16 (big 2 n) (.ofNat 16 n) := by
  have reads : Reads (take 2) (big 2 n) (big 2 n) := takeReads (bigLength 2 n)
  have swap := host.swappedBig 2 n (fun v => swap16 (v.setWidth 32)) fun v p inside => swap16Bit v inside
  exact swap ▸ reads.map fun v => if host.IsLittleEndian then swap16 ((host.native 16 v).setWidth 32) else host.native 16 v

theorem readUInt32Reads (n : Nat) : Reads host.ReadUInt32 (big 4 n) (.ofNat 32 n) := by
  have reads : Reads (take 4) (big 4 n) (big 4 n) := takeReads (bigLength 4 n)
  have swap := host.swappedBig 4 n swap32 fun v p inside => swap32Bit v inside
  exact swap ▸ reads.map fun v => if host.IsLittleEndian then swap32 (host.native 32 v) else host.native 32 v

theorem readUInt64Reads (n : Nat) : Reads host.ReadUInt64 (big 8 n) (.ofNat 64 n) := by
  have reads : Reads (take 8) (big 8 n) (big 8 n) := takeReads (bigLength 8 n)
  have swap := host.swappedBig 8 n swap64 fun v p inside => swap64Bit v inside
  exact swap ▸ reads.map fun v => if host.IsLittleEndian then swap64 (host.native 64 v) else host.native 64 v

theorem readSingleReads {bytes : List Byte} (size : bytes.length = 4) :
    Reads host.ReadSingleLE bytes (.ofNat 32 (LittleEndian.value bytes)) := by
  have reads : Reads (take 4) bytes bytes := takeReads size
  have swap : (if !host.IsLittleEndian then swap32 (host.native 32 bytes) else host.native 32 bytes) =
      .ofNat 32 (LittleEndian.value bytes) := by
    cases little : host.IsLittleEndian with
    | true => simp [native,little]
    | false =>
      simp only [native,little]
      have back := @valueReverse 32 bytes.reverse (by rw [List.length_reverse,size])
        (swap32 (.ofNat 32 (LittleEndian.value bytes.reverse))) fun p inside => by
          rw [swap32Bit _ inside,getLsbDValue _ (by omega),List.length_reverse,size]
      rwa [List.reverse_reverse] at back
  exact swap ▸ reads.map fun v => if !host.IsLittleEndian then swap32 (host.native 32 v) else host.native 32 v

end Host
end Numbers

section Heads
variable (host : Host) (netSource : Option Chars) {depth : Nat}

theorem widened {w n : Nat} (small : n < 2 ^ w) : (BitVec.ofNat w n).setWidth 32 = .ofNat 32 n := by
  apply BitVec.eq_of_toNat_eq
  rw [BitVec.toNat_setWidth,BitVec.toNat_ofNat,BitVec.toNat_ofNat,Nat.mod_eq_of_lt small]

theorem fixType (base : Nat) {n : Nat} (fits : base + n < 256) : (BitVec.ofNat 8 (base + n)).toNat = base + n := by
  rw [BitVec.toNat_ofNat,Nat.mod_eq_of_lt fits]

namespace Host

abbrev typed (depth : Nat) (type : Byte) : Read Value :=
  host.DeserializeType netSource (host.Deserialize netSource depth) depth type

theorem opensType (type : Byte) : Opens (host.Deserialize netSource (depth + 1)) [type] (host.typed netSource depth type) :=
  (host.readByteReads type).opens _

section
variable {type : Byte} {n : Nat} {f : BitVec 32 → Read Value}

theorem opensFix (base : Nat) (fits : base + n < 256) {r : Read Value}
    (follows : (BitVec.ofNat 8 (base + n)).toNat = base + n → host.typed netSource depth (.ofNat 8 (base + n)) = r) :
    Opens (host.Deserialize netSource (depth + 1)) [.ofNat 8 (base + n)] r :=
  follows (fixType base fits) ▸ host.opensType netSource _

theorem opensOne (small : n < 2 ^ 8)
    (follows : host.typed netSource depth type = host.ReadByte >>= fun v => f (v.setWidth 32)) :
    Opens (host.Deserialize netSource (depth + 1)) (type :: big 1 n) (f (.ofNat 32 n)) := by
  have both := (host.opensType netSource type).trans (follows ▸ (host.readUInt8Reads n).opens fun v => f (v.setWidth 32))
  rwa [widened small] at both

theorem opensTwo (small : n < 2 ^ 16)
    (follows : host.typed netSource depth type = host.ReadUInt16 >>= fun v => f (v.setWidth 32)) :
    Opens (host.Deserialize netSource (depth + 1)) (type :: big 2 n) (f (.ofNat 32 n)) := by
  have both := (host.opensType netSource type).trans (follows ▸ (host.readUInt16Reads n).opens fun v => f (v.setWidth 32))
  rwa [widened small] at both

theorem opensFour (follows : host.typed netSource depth type = host.ReadUInt32 >>= f) :
    Opens (host.Deserialize netSource (depth + 1)) (type :: big 4 n) (f (.ofNat 32 n)) :=
  (host.opensType netSource type).trans (follows ▸ (host.readUInt32Reads n).opens f)

end

theorem opensString {form : LengthForm} {bytes : List Byte} (holds : Str.Holds ⟨form,bytes⟩) :
    Opens (host.Deserialize netSource (depth + 1)) (Str.head form bytes.length)
      (host.ReadStringValue (.ofNat 32 bytes.length)) := by
  cases form with
  | fix =>
    have small : bytes.length < 32 := holds
    refine host.opensFix netSource 0xA0 (by omega) fun type => ?_
    rw [typed,DeserializeType,type,if_pos (by omega),if_neg (by omega),if_neg (by omega),if_neg (by omega),
      show (0xA0 + bytes.length) % 32 = bytes.length by omega]
  | one => exact host.opensOne netSource holds rfl
  | two => exact host.opensTwo netSource holds rfl
  | four => exact host.opensFour netSource rfl

theorem opensBinary {form : BinaryForm} {n : Nat} (holds : form.Holds n) :
    Opens (host.Deserialize netSource (depth + 1)) (form.head n) (ReadBytes (.ofNat 32 n)) := by
  cases form with
  | one => exact host.opensOne netSource holds rfl
  | two => exact host.opensTwo netSource holds rfl
  | four => exact host.opensFour netSource rfl

theorem opensArray {form : CountForm} {n : Nat} (holds : form.Holds n) :
    Opens (host.Deserialize netSource (depth + 1)) (form.arrayHead n)
      (ReadObjectArray (host.Deserialize netSource depth) depth (.ofNat 32 n)) := by
  cases form with
  | fix =>
    have small : n < 16 := holds
    refine host.opensFix netSource 0x90 (by omega) fun type => ?_
    rw [typed,DeserializeType,type,if_pos (by omega),if_neg (by omega),if_neg (by omega),if_pos (by omega),
      show (0x90 + n) % 16 = n by omega]
  | two => exact host.opensTwo netSource holds rfl
  | four => exact host.opensFour netSource rfl

theorem opensMap {form : CountForm} {n : Nat} (holds : form.Holds n) :
    Opens (host.Deserialize netSource (depth + 1)) (form.mapHead n)
      (host.ReadMap (host.Deserialize netSource depth) depth (.ofNat 32 n)) := by
  cases form with
  | fix =>
    have small : n < 16 := holds
    refine host.opensFix netSource 0x80 (by omega) fun type => ?_
    rw [typed,DeserializeType,type,if_pos (by omega),if_neg (by omega),if_pos (by omega),
      show (0x80 + n) % 16 = n by omega]
  | two => exact host.opensTwo netSource holds rfl
  | four => exact host.opensFour netSource rfl

theorem opensExtension {form : LengthForm} {n : Nat} (holds : form.Holds n) :
    Opens (host.Deserialize netSource (depth + 1)) (form.extensionHead n)
      (host.ReadExtraType netSource (.ofNat 32 n)) := by
  cases form with
  | fix =>
    obtain rfl | rfl | rfl | rfl | rfl := holds
    all_goals exact host.opensType netSource _
  | one => exact host.opensOne netSource holds rfl
  | two => exact host.opensTwo netSource holds rfl
  | four => exact host.opensFour netSource rfl

end Host
end Heads

section Values
variable (host : Host) (netSource : Option Chars) {room : Nat}

theorem lengthNat {n : Nat} (small : n < 2 ^ 32) : (BitVec.ofNat 32 n).toNat = n := by
  rw [BitVec.toNat_ofNat,Nat.mod_eq_of_lt small]

theorem madeOf {bytes : List Byte} (small : bytes.length < 2 ^ 32) (make : List Byte → α) :
    Meets room (bytes.length < 2 ^ 31) (take (.ofNat 32 bytes.length) >>= fun v =>
      if 2 ^ 31 ≤ (BitVec.ofNat 32 bytes.length).toNat then throws (.length (.ofNat 32 bytes.length)) else pure (make v))
      bytes (make bytes) := by
  have opens := (takeReads (lengthNat small).symm).opens fun v => if 2 ^ 31 ≤ (BitVec.ofNat 32 bytes.length).toNat
    then throws (.length (.ofNat 32 bytes.length)) else (pure (make v) : Read α)
  have later : Meets (room - bytes.length) (bytes.length < 2 ^ 31) (if 2 ^ 31 ≤ (BitVec.ofNat 32 bytes.length).toNat
      then throws (.length (.ofNat 32 bytes.length)) else (pure (make bytes) : Read α)) [] (make bytes) := by
    rw [lengthNat small]
    split
    · exact .throws _ (by omega)
    · exact ((Reads.pure _).meets _).congr (iff_of_true trivial (by omega))
  have both := opens.meets later
  rwa [List.append_nil] at both

namespace Host

theorem readStringMeets {bytes : List Byte} (small : bytes.length < 2 ^ 32) :
    Meets room (bytes.length < 2 ^ 31) (host.ReadString (.ofNat 32 bytes.length)) bytes (host.newString bytes) :=
  madeOf small host.newString

theorem functionValueMeets (payload : List Byte) {type : Byte} (function : type.toNat = 10 ∨ type.toNat = 11) :
    Meets room (netSource = none → host.DuplicateFunctionReference (host.newString payload))
      (host.functionValue netSource (host.newString payload)) [] (host.extensionValue netSource type payload) := by
  unfold extensionValue functionValue
  obtain same | same := function
  all_goals
    rw [same]
    cases netSource with
    | none =>
      change Meets _ _ (host.LocalFunction (host.newString payload)) _ (.localFunction (host.newString payload))
      unfold LocalFunction
      split
      · rename_i duplicated
        exact ((Reads.pure _).meets _).congr (iff_of_true trivial (fun _ => duplicated))
      · rename_i refused
        exact .throws _ (fun duplicated => refused (duplicated rfl))
    | some source => exact ((Reads.pure _).meets _).congr (iff_of_true trivial (by simp))

theorem componentReads (payload : List Byte) (k : Nat) (inside : 4 * (k + 1) ≤ payload.length) :
    Reads host.ReadSingleLE ((payload.drop (4 * k)).take 4) (component payload k) :=
  host.readSingleReads (by rw [List.length_take,List.length_drop]; omega)

theorem componentThen (payload : List Byte) (k : Nat) {next : BitVec 32 → Read Value} {v : Value}
    (inside : 4 * (k + 1) ≤ payload.length) (reads : Reads (next (component payload k)) (payload.drop (4 * (k + 1))) v) :
    Reads (host.ReadSingleLE >>= next) (payload.drop (4 * k)) v := by
  have cut := List.take_append_drop 4 (payload.drop (4 * k))
  rw [List.drop_drop] at cut
  exact cut ▸ (host.componentReads payload k inside).bind reads

variable {payload : List Byte}

theorem componentsDone {n : Nat} (size : payload.length = n) (v : Value) :
    Reads (pure v : Read Value) (payload.drop n) v := by
  rw [List.drop_of_length_le size.le]
  exact .pure v

theorem readVector2Reads (size : payload.length = 8) :
    Reads host.ReadVector2 payload (.vector2 (component payload 0) (component payload 1)) :=
  host.componentThen payload 0 (by omega) (host.componentThen payload 1 (by omega) (componentsDone size _))

theorem readVector3Reads (size : payload.length = 12) :
    Reads host.ReadVector3 payload (.vector3 (component payload 0) (component payload 1) (component payload 2)) :=
  host.componentThen payload 0 (by omega) (host.componentThen payload 1 (by omega)
    (host.componentThen payload 2 (by omega) (componentsDone size _)))

theorem readVector4Reads (size : payload.length = 16)
    (new : BitVec 32 → BitVec 32 → BitVec 32 → BitVec 32 → Value) : Reads (host.ReadVector4 new) payload
      (new (component payload 0) (component payload 1) (component payload 2) (component payload 3)) :=
  host.componentThen payload 0 (by omega) (host.componentThen payload 1 (by omega)
    (host.componentThen payload 2 (by omega) (host.componentThen payload 3 (by omega) (componentsDone size _))))

theorem vectorReads {type : Byte} {size : Nat} (vector : vectorSize type = some size) (length : BitVec 32)
    {bytes : List Byte} (exact : bytes.length = size) :
    Reads (host.ReadExtraType netSource length) (type :: bytes) (host.extensionValue netSource type bytes) := by
  have opens := (host.readByteReads type).opens (host.ReadExtraValue netSource length)
  refine Opens.reads opens ?_
  unfold ReadExtraValue
  unfold vectorSize at vector
  unfold extensionValue
  split at vector <;> rename_i same <;> cases vector <;> rw [same]
  · exact host.readVector2Reads exact
  · exact host.readVector3Reads exact
  · exact host.readVector4Reads exact .vector4
  · exact host.readVector4Reads exact .quaternion

theorem functionMeets {type : Byte} (function : type.toNat = 10 ∨ type.toNat = 11) {payload : List Byte}
    (small : payload.length < 2 ^ 32) :
    Meets room (payload.length < 2 ^ 31 ∧ (netSource = none → host.DuplicateFunctionReference (host.newString payload)))
      (host.ReadExtraType netSource (.ofNat 32 payload.length)) (type :: payload)
      (host.extensionValue netSource type payload) := by
  have opens := (host.readByteReads type).opens (host.ReadExtraValue netSource (.ofNat 32 payload.length))
  have text : Meets (room - 1) _ _ _ _ := host.readStringMeets small
  have value := text.bind (f := host.functionValue netSource) (host.functionValueMeets netSource payload function)
  rw [List.append_nil] at value
  refine Opens.meets opens ?_
  unfold ReadExtraValue
  obtain same | same := function <;> rw [same] <;> exact value

theorem numberReads (depth : Nat) (type : Byte) {r : Read α} {bytes : List Byte} {v : α} {make : α → Value}
    (follows : host.typed netSource depth type = r >>= fun v => pure (make v)) (reads : Reads r bytes v) :
    Reads (host.Deserialize netSource (depth + 1)) (type :: bytes) (make v) :=
  (host.opensType netSource type).reads (follows ▸ reads.map make)

theorem unsignedValue {w : Nat} {n : Int} (low : 0 ≤ n) (high : n < 2 ^ w) : ((BitVec.ofNat w n.toNat).toNat : Int) = n := by
  have small : n.toNat < 2 ^ w := by
    have cast : ((2 ^ w : Nat) : Int) = 2 ^ w := by push_cast; rfl
    omega
  rw [BitVec.toNat_ofNat,Nat.mod_eq_of_lt small,Int.toNat_of_nonneg low]

theorem signedValue {w : Nat} {n : Int} (wide : 0 < w) (low : -2 ^ (w - 1) ≤ n) (high : n < 2 ^ (w - 1)) :
    (BitVec.ofNat w (BitVec.ofInt w n).toNat).toInt = n := by
  rw [BitVec.ofNat_toNat,BitVec.setWidth_eq,BitVec.toInt_ofInt_eq_self wide low high]

theorem integerReads {form : IntegerForm} {n : Int} (holds : form.Holds n) {depth : Nat} :
    Reads (host.Deserialize netSource (depth + 1)) (form.encode n) (.integer form.type n) := by
  cases form with
  | positive =>
    obtain ⟨low,high⟩ : 0 ≤ n ∧ n < 128 := holds
    have type : (BitVec.ofInt 8 n).toNat = n.toNat := by
      rw [BitVec.toNat_ofInt]
      omega
    have value : host.typed netSource depth (.ofInt 8 n) = pure (.integer .Byte n) := by
      rw [typed,DeserializeType,type,if_pos (by omega),if_pos (by omega),Int.toNat_of_nonneg low]
    exact (host.opensType netSource (.ofInt 8 n)).reads (value ▸ Reads.pure _)
  | negative =>
    obtain ⟨low,high⟩ : -32 ≤ n ∧ n < 0 := holds
    have type : (BitVec.ofInt 8 n).toNat = (n + 256).toNat := by
      rw [BitVec.toNat_ofInt]
      omega
    have value : host.typed netSource depth (.ofInt 8 n) = pure (.integer .Int32 n) := by
      rw [typed,DeserializeType,type,if_neg (by omega),if_pos (by omega),Int.toNat_of_nonneg (by omega),Int.add_sub_cancel]
    exact (host.opensType netSource (.ofInt 8 n)).reads (value ▸ Reads.pure _)
  | uint8 =>
    have reads := host.numberReads netSource depth 0xCC rfl (host.readUInt8Reads n.toNat)
    rwa [unsignedValue holds.1 holds.2] at reads
  | uint16 =>
    have reads := host.numberReads netSource depth 0xCD rfl (host.readUInt16Reads n.toNat)
    rwa [unsignedValue holds.1 holds.2] at reads
  | uint32 =>
    have reads := host.numberReads netSource depth 0xCE rfl (host.readUInt32Reads n.toNat)
    rwa [unsignedValue holds.1 holds.2] at reads
  | uint64 =>
    have reads := host.numberReads netSource depth 0xCF rfl (host.readUInt64Reads n.toNat)
    rwa [unsignedValue holds.1 holds.2] at reads
  | int8 =>
    have reads := host.numberReads netSource depth 0xD0 rfl
      (host.readUInt8Reads (BitVec.ofInt 8 n).toNat)
    rwa [signedValue (by decide) holds.1 holds.2] at reads
  | int16 =>
    have reads := host.numberReads netSource depth 0xD1 rfl
      (host.readUInt16Reads (BitVec.ofInt 16 n).toNat)
    rwa [signedValue (by decide) holds.1 holds.2] at reads
  | int32 =>
    have reads := host.numberReads netSource depth 0xD2 rfl
      (host.readUInt32Reads (BitVec.ofInt 32 n).toNat)
    rwa [signedValue (by decide) holds.1 holds.2] at reads
  | int64 =>
    have reads := host.numberReads netSource depth 0xD3 rfl
      (host.readUInt64Reads (BitVec.ofInt 64 n).toNat)
    rwa [signedValue (by decide) holds.1 holds.2] at reads

end Host

section Loops
variable {read : Read Value} {length : BitVec 32} {depth rounds k : Nat} {p q r : Prop}

theorem counted (short : k < 2 ^ 31) : (BitVec.ofNat 32 k).toInt = k := by
  have nat : (BitVec.ofNat 32 k).toNat = k := lengthNat (by omega)
  rw [BitVec.toInt_eq_toNat_of_lt (by omega),nat]

theorem countedNext : BitVec.ofNat 32 k + 1 = .ofNat 32 (k + 1) := by
  apply BitVec.eq_of_toNat_eq
  simp

theorem arrayLoopEnds (all : k = length.toNat) (short : length.toNat < 2 ^ 31) (retobject : List Value) :
    Meets rounds True (arrayLoop read length rounds (.ofNat 32 k) retobject) [] retobject := by
  cases rounds with
  | zero => exact fun before rest near => absurd near (by omega)
  | succ rounds =>
    rw [arrayLoop,counted (by omega),if_neg (by omega)]
    exact (Reads.pure _).meets _

theorem arrayLoopStep {item items : List Byte} {value : Value} {result retobject : List Value} (left : k < length.toNat)
    (short : length.toNat < 2 ^ 31) (last : rounds ≤ depth) (some : 0 < item.length) (first : Meets depth p read item value)
    (later : ∀ rounds ≤ depth,
      Meets rounds q (arrayLoop read length rounds (.ofNat 32 (k + 1)) (retobject ++ [value])) items result) :
    Meets rounds (p ∧ q) (arrayLoop read length rounds (.ofNat 32 k) retobject) (item ++ items) result := by
  cases rounds with
  | zero => exact fun before rest near => absurd near (by omega)
  | succ rounds =>
    rw [arrayLoop,counted (by omega),if_pos (by omega),countedNext]
    exact (first.mono last).bind ((later rounds (by omega)).mono (by omega))

theorem mapLoopEnds (host : Host) (all : k = length.toNat) (short : length.toNat < 2 ^ 31)
    (retobject : List (Chars × Value)) :
    Meets rounds True (host.mapLoop read length rounds (.ofNat 32 k) retobject) [] (.map retobject) := by
  cases rounds with
  | zero => exact fun before rest near => absurd near (by omega)
  | succ rounds =>
    rw [Host.mapLoop,counted (by omega),if_neg (by omega)]
    exact (Reads.pure _).meets _

theorem mapLoopStep (host : Host) {key item items : List Byte} {text : Chars} {value result : Value}
    {retobject : List (Chars × Value)} (left : k < length.toNat) (short : length.toNat < 2 ^ 31) (last : rounds ≤ depth)
    (some : 0 < key.length) (name : Meets depth p read key (.string text)) (first : Meets depth q read item value)
    (later : ∀ rounds ≤ depth, Meets rounds r (host.mapLoop read length rounds (.ofNat 32 (k + 1))
      (retobject ++ [(text,value)])) items result) : Meets rounds (p ∧ q ∧ (∀ entry ∈ retobject, entry.1 ≠ text) ∧ r)
      (host.mapLoop read length rounds (.ofNat 32 k) retobject) (key ++ (item ++ items)) result := by
  cases rounds with
  | zero => exact fun before rest near => absurd near (by omega)
  | succ rounds =>
    rw [Host.mapLoop,counted (by omega),if_pos (by omega),countedNext]
    refine (name.mono last).bind
      ((((Reads.pure text).meets _).bindNil ((first.mono (by omega)).bind ?_)).congr (and_iff_right trivial))
    split
    · rename_i present
      obtain ⟨entry,mem,same⟩ := List.any_eq_true.mp present
      exact .throws _ (fun both => both.1 entry mem (eq_of_beq same))
    · rename_i fresh
      refine ((later rounds (by omega)).mono (by omega)).congr (and_iff_right fun entry mem same => ?_).symm
      exact fresh (List.any_eq_true.mpr ⟨entry,mem,beq_of_eq same⟩)

theorem mapLoopNever (host : Host) (long : 2 ^ 31 ≤ length.toNat) (i : BitVec 32) (retobject : List (Chars × Value))
    (data : List Byte) (ptr : Nat) (value : Value) (next : Nat) :
    host.mapLoop read length rounds i retobject data ptr ≠ .ok value next := by
  induction rounds generalizing i retobject ptr with
  | zero => nofun
  | succ rounds ih =>
    intro result
    have below : i.toInt < length.toNat := by
      have high := i.toInt_lt
      omega
    rw [Host.mapLoop,if_pos below] at result
    obtain ⟨key,next₁,-,result⟩ := bindInv result
    obtain ⟨text,next₂,-,result⟩ := bindInv result
    obtain ⟨item,next₃,-,result⟩ := bindInv result
    split at result
    · cases result
    · exact ih _ _ _ result

theorem mapLoopLong (host : Host) (inner : Within depth 1 read) (last : rounds ≤ depth) (long : 2 ^ 31 ≤ length.toNat)
    (bytes : List Byte) (value : Value) (never : ¬p) : Meets rounds p (host.mapLoop read length rounds 0 []) bytes value := by
  intro before rest near
  have size : (before ++ bytes ++ rest).length = before.length + bytes.length + rest.length := by
    rw [List.length_append,List.length_append]
  obtain thrown | ⟨result,next,ok,-⟩ := host.mapLoopWithin inner length last 0 [] (before ++ bytes ++ rest) before.length
    (by omega) (by omega)
  · exact .inr ⟨never,thrown⟩
  · exact absurd ok (mapLoopNever host long 0 [] _ _ result next)

end Loops
end Values

section Documents
variable (host : Host) (netSource : Option Chars)

theorem strSome (s : Str) : 0 < s.encode.length := by
  obtain ⟨form,bytes⟩ := s
  rw [Str.encode,List.length_append]
  cases form <;> exact Nat.lt_of_lt_of_le (Nat.succ_pos _) (Nat.le_add_right _ _)

theorem Str.Holds.small {s : Str} (holds : s.Holds) : s.bytes.length < 2 ^ 32 := by
  obtain ⟨form,bytes⟩ := s
  cases form <;> exact Nat.lt_of_lt_of_le holds (by decide)

theorem CountForm.Holds.small {form : CountForm} {n : Nat} (holds : form.Holds n) : n < 2 ^ 32 := by
  cases form <;> exact Nat.lt_of_lt_of_le holds (by decide)

theorem BinaryForm.Holds.small {form : BinaryForm} {n : Nat} (holds : form.Holds n) : n < 2 ^ 32 := by
  cases form <;> exact Nat.lt_of_lt_of_le holds (by decide)

theorem LengthForm.Holds.small {form : LengthForm} {n : Nat} (holds : form.Holds n) : n < 2 ^ 32 := by
  cases form with
  | fix =>
    have fixed : n = 1 ∨ n = 2 ∨ n = 4 ∨ n = 8 ∨ n = 16 := holds
    omega
  | one | two | four => exact Nat.lt_of_lt_of_le holds (by decide)

theorem Doc.encodeSome (d : Doc) : 0 < d.encode.length := by
  cases d with
  | string s => exact strSome s
  | integer form n => cases form <;> exact Nat.succ_pos _
  | binary form payload => cases form <;> exact Nat.succ_pos _
  | array form items => cases form <;> exact Nat.succ_pos _
  | map form entries => cases form <;> exact Nat.succ_pos _
  | extension form type payload => cases form <;> exact Nat.succ_pos _
  | nil | boolean | single | double => exact Nat.succ_pos _

theorem CountForm.arrayHeadSome (form : CountForm) (n : Nat) : 0 < (form.arrayHead n).length := by
  cases form <;> exact Nat.succ_pos _

theorem CountForm.mapHeadSome (form : CountForm) (n : Nat) : 0 < (form.mapHead n).length := by
  cases form <;> exact Nat.succ_pos _

theorem deep {p : Prop} {f : Nat → Read Value} {bytes : List Byte} {value : Value}
    (later : ∀ depth, Meets (depth + 1) p (f (depth + 1)) bytes value) (depth : Nat) : Meets depth p (f depth) bytes value := by
  cases depth with
  | zero => exact fun before rest near => absurd near (by omega)
  | succ depth => exact later depth

namespace Host

theorem strMeets {s : Str} (holds : s.Holds) (depth : Nat) :
    Meets depth (s.bytes.length < 2 ^ 31) (host.Deserialize netSource depth) s.encode (.string (host.newString s.bytes)) :=
  deep (fun _ => (host.opensString netSource holds).meets ((host.readStringMeets holds.small).map Value.string)) depth

theorem extensionMeets {form : LengthForm} {type : Byte} {payload : List Byte} (holds : form.Holds payload.length)
    (known : type.toNat ∈ [10,11,20,21,22,23]) (sized : ∀ size, vectorSize type = some size → payload.length = size)
    (depth : Nat) : Meets depth (host.Accepts netSource (.extension form type payload)) (host.Deserialize netSource depth)
      (form.extensionHead payload.length ++ type :: payload) (host.extensionValue netSource type payload) := by
  refine deep (f := host.Deserialize netSource) (fun depth => (host.opensExtension netSource holds).meets ?_) depth
  by_cases function : type.toNat = 10 ∨ type.toNat = 11
  · exact (host.functionMeets netSource function holds.small).congr (imp_iff_right function).symm
  · have vector : ∃ size, vectorSize type = some size := by
      unfold vectorSize
      simp only [List.mem_cons,List.not_mem_nil,or_false] at known
      obtain same | same | same | same | same | same := known
      · exact absurd (.inl same) function
      · exact absurd (.inr same) function
      all_goals exact ⟨_,by rw [same]; rfl⟩
    obtain ⟨size,vector⟩ := vector
    refine ((host.vectorReads netSource vector _ (sized size vector)).meets _).congr (iff_of_true trivial ?_)
    exact fun same => absurd same function

theorem newArrayMeets {depth : Nat} {n : Nat} (small : n < 2 ^ 32) {p : Prop} {bytes : List Byte} {values : List Value}
    (loop : n < 2 ^ 31 → Meets depth p (arrayLoop (host.Deserialize netSource depth) (.ofNat 32 n) depth 0 []) bytes values) :
    Meets depth (n < 2 ^ 31 ∧ p) (newArray (host.Deserialize netSource depth) depth (.ofNat 32 n)) bytes values := by
  unfold newArray
  rw [lengthNat small]
  split
  · exact .throws _ (fun both => by omega)
  · have short : n < 2 ^ 31 := by omega
    exact (loop short).congr (and_iff_right short).symm

theorem distinctNext {retobject : List (Chars × Value)} {key : Str} {d : Doc} {entries : List (Str × Doc)} :
    (key.bytes.length < 2 ^ 31 ∧ host.Accepts netSource d ∧ (∀ entry ∈ retobject, entry.1 ≠ host.newString key.bytes) ∧
      (∀ entry ∈ retobject ++ [(host.newString key.bytes,host.denote netSource d)], ∀ other ∈ entries,
        host.newString other.1.bytes ≠ entry.1) ∧ host.acceptsEntries netSource entries) ↔
    (∀ entry ∈ retobject, ∀ other ∈ (key,d) :: entries, host.newString other.1.bytes ≠ entry.1) ∧
      host.acceptsEntries netSource ((key,d) :: entries) := by
  simp only [acceptsEntries,List.forall_mem_append,List.forall_mem_cons,forall_and]
  constructor
  · rintro ⟨short,accepted,fresh,⟨later,last,-⟩,rest⟩
    exact ⟨⟨fun entry mem same => fresh entry mem same.symm,later⟩,short,accepted,last,rest⟩
  · rintro ⟨⟨fresh,later⟩,short,accepted,last,rest⟩
    exact ⟨short,accepted,fun entry mem same => fresh entry mem same.symm,⟨later,last,nofun⟩,rest⟩

mutual

theorem docMeets : (d : Doc) → d.WellFormed → d.Everywhere Doc.VectorSized →
    ∀ depth, Meets depth (host.Accepts netSource d) (host.Deserialize netSource depth) d.encode (host.denote netSource d)
  | .nil,_,_ => deep fun depth => ((host.opensType netSource 0xC0).reads (Reads.pure _)).meets _
  | .boolean true,_,_ => deep fun depth => ((host.opensType netSource 0xC3).reads (Reads.pure _)).meets _
  | .boolean false,_,_ => deep fun depth => ((host.opensType netSource 0xC2).reads (Reads.pure _)).meets _
  | .integer form n,fits,_ => deep fun depth => (host.integerReads netSource fits).meets _
  | .single bits,_,_ => deep fun depth => by
    have reads := host.numberReads netSource depth 0xCA rfl (host.readUInt32Reads bits.toNat)
    rw [BitVec.ofNat_toNat,BitVec.setWidth_eq] at reads
    exact reads.meets _
  | .double bits,_,_ => deep fun depth => by
    have reads := host.numberReads netSource depth 0xCB rfl (host.readUInt64Reads bits.toNat)
    rw [BitVec.ofNat_toNat,BitVec.setWidth_eq] at reads
    exact reads.meets _
  | .string s,fits,_ => host.strMeets netSource fits
  | .binary form payload,fits,_ => deep fun depth =>
    (host.opensBinary netSource fits).meets (madeOf (BinaryForm.Holds.small fits) Value.bytes)
  | .array form items,⟨fits,each⟩,⟨_,sized⟩ => deep fun depth => by
    have loop : Meets depth (host.Accepts netSource (.array form items))
        (newArray (host.Deserialize netSource depth) depth (.ofNat 32 items.length))
        (Doc.encodeItems items) (host.denoteItems netSource items) :=
      host.newArrayMeets netSource fits.small fun short =>
        itemsMeet items each sized _ depth depth 0 (by rw [lengthNat fits.small,Nat.zero_add]) (by rwa [lengthNat fits.small])
          (Nat.le_refl depth) []
    have some := form.arrayHeadSome items.length
    exact (host.opensArray netSource fits).meets ((loop.map Value.array).mono (by omega))
  | .map form entries,⟨⟨fits,names,_⟩,each⟩,⟨_,sized⟩ => deep fun depth => by
    have loop : Meets depth (host.Accepts netSource (.map form entries))
        (host.ReadMap (host.Deserialize netSource depth) depth (.ofNat 32 entries.length))
        (Doc.encodeEntries entries) (.map (host.denoteEntries netSource entries)) := by
      by_cases short : entries.length < 2 ^ 31
      · refine (entriesMeet entries names each sized _ depth depth 0 (by rw [lengthNat fits.small,Nat.zero_add])
          (by rwa [lengthNat fits.small]) (Nat.le_refl depth) []).congr ?_
        exact and_congr_left fun _ => iff_of_true nofun short
      · exact mapLoopLong host (host.deserializeWithin netSource depth) (Nat.le_refl depth)
          (by rw [lengthNat fits.small]; omega) _ _ (fun both => short both.1)
    have some := form.mapHeadSome entries.length
    exact (host.opensMap netSource fits).meets (loop.mono (by omega))
  | .extension form type payload,⟨holds,known⟩,sized => host.extensionMeets netSource holds known sized

theorem itemsMeet : (items : List Doc) → Doc.everyItem Doc.Fits items → Doc.everyItem Doc.VectorSized items →
    ∀ (length : BitVec 32) (depth rounds k : Nat), length.toNat = k + items.length → length.toNat < 2 ^ 31 → rounds ≤ depth →
      ∀ retobject, Meets rounds (host.acceptsItems netSource items)
        (arrayLoop (host.Deserialize netSource depth) length rounds (.ofNat 32 k) retobject)
        (Doc.encodeItems items) (retobject ++ host.denoteItems netSource items)
  | [],_,_ => fun _ _ _ _ all short _ retobject => by
    rw [denoteItems,List.append_nil]
    exact arrayLoopEnds all.symm short retobject
  | d :: items,⟨fits,each⟩,⟨sized,allSized⟩ => fun length depth _ k all short last retobject => by
    rw [List.length_cons] at all
    refine arrayLoopStep (by omega) short last d.encodeSome (docMeets d fits sized depth) fun rounds last => ?_
    have later := itemsMeet items each allSized length depth rounds (k + 1) (by omega) short last (retobject ++ [host.denote netSource d])
    rwa [List.append_assoc] at later

theorem entriesMeet : (entries : List (Str × Doc)) → (∀ entry ∈ entries, entry.1.Holds) →
    Doc.everyEntry Doc.Fits entries → Doc.everyEntry Doc.VectorSized entries →
    ∀ (length : BitVec 32) (depth rounds k : Nat), length.toNat = k + entries.length → length.toNat < 2 ^ 31 →
      rounds ≤ depth →
      ∀ retobject, Meets rounds ((∀ entry ∈ retobject, ∀ other ∈ entries, host.newString other.1.bytes ≠ entry.1) ∧
          host.acceptsEntries netSource entries)
        (host.mapLoop (host.Deserialize netSource depth) length rounds (.ofNat 32 k) retobject)
        (Doc.encodeEntries entries) (.map (retobject ++ host.denoteEntries netSource entries))
  | [],_,_,_ => fun _ _ _ _ all short _ retobject => by
    rw [denoteEntries,List.append_nil]
    exact (mapLoopEnds host all.symm short retobject).congr (iff_of_true trivial ⟨nofun,trivial⟩)
  | (key,d) :: entries,names,⟨fits,each⟩,⟨sized,allSized⟩ => fun length depth _ k all short last retobject => by
    rw [List.length_cons] at all
    refine (mapLoopStep host (by omega) short last (strSome key)
      (host.strMeets netSource (names _ List.mem_cons_self) depth) (docMeets d fits sized depth) fun rounds last => ?_).congr
        (host.distinctNext netSource)
    have later := entriesMeet entries (fun entry mem => names entry (List.mem_cons_of_mem _ mem)) each allSized
      length depth rounds (k + 1) (by omega) short last (retobject ++ [(host.newString key.bytes,host.denote netSource d)])
    rwa [List.append_assoc] at later

end

theorem opensArguments {form : CountForm} {n depth : Nat} (holds : form.Holds n) :
    Opens (host.DeserializeArray netSource depth) (form.arrayHead n)
      (newArray (host.Deserialize netSource depth) depth (.ofNat 32 n)) := by
  cases form with
  | fix =>
    have small : n < 16 := holds
    have type := fixType 0x90 (n := n) (by omega)
    have opens := (host.readByteReads (.ofNat 8 (0x90 + n))).opens (host.argumentsOf netSource depth)
    have follows : host.argumentsOf netSource depth (.ofNat 8 (0x90 + n)) =
        newArray (host.Deserialize netSource depth) depth (.ofNat 32 n) := by
      rw [argumentsOf,type,if_pos (by omega),show (0x90 + n) % 16 = n by omega]
    exact follows ▸ opens
  | two =>
    have opens := (host.readByteReads 0xDC).opens (host.argumentsOf netSource depth)
    have length := opens.trans ((host.readUInt16Reads n).opens fun v =>
      newArray (host.Deserialize netSource depth) depth (v.setWidth 32))
    rwa [widened holds] at length
  | four =>
    have opens := (host.readByteReads 0xDD).opens (host.argumentsOf netSource depth)
    exact opens.trans ((host.readUInt32Reads n).opens fun v => newArray (host.Deserialize netSource depth) depth v)

theorem argumentsMeet {form : CountForm} {items : List Doc} (fits : (Doc.array form items).WellFormed)
    (sized : (Doc.array form items).Everywhere Doc.VectorSized) (depth : Nat) :
    Meets depth (host.Accepts netSource (.array form items)) (host.DeserializeArray netSource depth)
      (Doc.array form items).encode (host.denoteItems netSource items) := by
  have holds : form.Holds items.length := fits.1
  have loop : Meets depth (host.Accepts netSource (.array form items)) (newArray (host.Deserialize netSource depth) depth (.ofNat 32 items.length))
      (Doc.encodeItems items) (host.denoteItems netSource items) :=
    host.newArrayMeets netSource holds.small fun short =>
      host.itemsMeet netSource items fits.2 sized.2 _ depth depth 0 (by rw [lengthNat holds.small,Nat.zero_add])
        (by rwa [lengthNat holds.small]) (Nat.le_refl depth) []
  exact (host.opensArguments netSource holds).meets (loop.mono (Nat.sub_le _ _))

theorem valueMeets {p : Prop} {bytes : List Byte} {v : Value}
    (meets : ∀ depth, Meets depth p (host.Deserialize netSource depth) bytes v) (before rest : List Byte) :
    (p ∧ host.value netSource (before ++ bytes ++ rest) before.length = .ok v (before.length + bytes.length)) ∨
      (¬p ∧ ∃ e, host.value netSource (before ++ bytes ++ rest) before.length = .thrown e) := by
  have total : (before ++ bytes ++ rest).length = before.length + bytes.length + rest.length := by
    rw [List.length_append,List.length_append]
  exact meets ((before ++ bytes ++ rest).length + 1) before rest (by omega)

theorem vectorOutOfStep {form : LengthForm} {type : Byte} {payload : List Byte} {size : Nat}
    (holds : form.Holds payload.length) (vector : vectorSize type = some size)
    (inStep : host.InStep netSource (.extension form type payload)) : payload.length = size := by
  let bytes := payload ++ List.replicate size 0
  have taken : (bytes.take size).length = size := by
    rw [List.length_take,List.length_append,List.length_replicate]
    omega
  have data : form.extensionHead payload.length ++ type :: bytes.take size ++ bytes.drop size =
      (Doc.extension form type payload).encode ++ List.replicate size 0 := by
    rw [Doc.encode,List.append_assoc,List.cons_append,List.take_append_drop,List.append_assoc,List.cons_append]
  let depth := ((Doc.extension form type payload).encode ++ List.replicate size 0).length
  have opens : Opens (host.Deserialize netSource (depth + 1)) _ _ := host.opensExtension netSource holds
  have reads := opens.reads (host.vectorReads netSource vector _ taken) [] (bytes.drop size)
  rw [List.nil_append,data] at reads
  have read : host.value netSource ((Doc.extension form type payload).encode ++ List.replicate size 0) 0 = _ := reads
  have step := inStep [] (List.replicate size 0)
  rw [List.nil_append,List.length_nil,read] at step
  obtain ⟨e,thrown⟩ | same := step
  · cases thrown
  · have ptr := (Outcome.ok.inj same).2
    rw [Doc.encode,List.length_append,List.length_append,List.length_cons,List.length_cons,taken,List.length_nil] at ptr
    omega

theorem inStepSized {d : Doc} (fits : d.Fits) (inStep : host.InStep netSource d) : d.VectorSized := by
  cases d with
  | extension form type payload => exact fun size vector => host.vectorOutOfStep netSource fits.1 vector inStep
  | nil | boolean | integer | single | double | string | binary | array | map => trivial

end Host

namespace Doc
variable {P Q R : Doc → Prop}

mutual

theorem everywhereImp (imp : ∀ d, P d → Q d → R d) : (d : Doc) → d.Everywhere P → d.Everywhere Q → d.Everywhere R
  | .array _ items,⟨p,ps⟩,⟨q,qs⟩ => ⟨imp _ p q,everyItemImp imp items ps qs⟩
  | .map _ entries,⟨p,ps⟩,⟨q,qs⟩ => ⟨imp _ p q,everyEntryImp imp entries ps qs⟩
  | .nil,p,q | .boolean _,p,q | .integer _ _,p,q | .single _,p,q | .double _,p,q | .string _,p,q | .binary _ _,p,q
  | .extension _ _ _,p,q => imp _ p q

theorem everyItemImp (imp : ∀ d, P d → Q d → R d) : (items : List Doc) → everyItem P items → everyItem Q items →
    everyItem R items
  | [],_,_ => trivial
  | d :: items,⟨p,ps⟩,⟨q,qs⟩ => ⟨everywhereImp imp d p q,everyItemImp imp items ps qs⟩

theorem everyEntryImp (imp : ∀ d, P d → Q d → R d) : (entries : List (Str × Doc)) → everyEntry P entries →
    everyEntry Q entries → everyEntry R entries
  | [],_,_ => trivial
  | (_,d) :: entries,⟨p,ps⟩,⟨q,qs⟩ => ⟨everywhereImp imp d p q,everyEntryImp imp entries ps qs⟩

end

mutual

theorem everywhereTwice : (d : Doc) → d.Everywhere P → d.Everywhere (Everywhere P)
  | .array _ items,all => ⟨all,everyItemTwice items all.2⟩
  | .map _ entries,all => ⟨all,everyEntryTwice entries all.2⟩
  | .nil,p | .boolean _,p | .integer _ _,p | .single _,p | .double _,p | .string _,p | .binary _ _,p
  | .extension _ _ _,p => p

theorem everyItemTwice : (items : List Doc) → everyItem P items → everyItem (Everywhere P) items
  | [],_ => trivial
  | d :: items,⟨p,ps⟩ => ⟨everywhereTwice d p,everyItemTwice items ps⟩

theorem everyEntryTwice : (entries : List (Str × Doc)) → everyEntry P entries → everyEntry (Everywhere P) entries
  | [],_ => trivial
  | (_,d) :: entries,⟨p,ps⟩ => ⟨everywhereTwice d p,everyEntryTwice entries ps⟩

end

end Doc

namespace Host

variable {d : Doc}

theorem everywhereInStep (fits : d.WellFormed) :
    d.Everywhere (host.InStep netSource) ↔ d.Everywhere Doc.VectorSized :=
  ⟨Doc.everywhereImp (fun _ => host.inStepSized netSource) d fits,fun sized =>
    Doc.everywhereImp (fun d fits sized before rest =>
      (host.valueMeets netSource (host.docMeets netSource d fits sized) before rest).symm.imp And.right And.right) d
      (Doc.everywhereTwice d fits) (Doc.everywhereTwice d sized)⟩

theorem otherType (fits : d.Fits) (other : d.isArray = false) : ∃ type rest, d.encode = type :: rest ∧
    ¬(0x90 ≤ type.toNat ∧ type.toNat < 0xA0) ∧ type.toNat ≠ 0xDC ∧ type.toNat ≠ 0xDD := by
  cases d with
  | nil => exact ⟨_,_,rfl,by decide⟩
  | boolean b => cases b <;> exact ⟨_,_,rfl,by decide⟩
  | single | double => exact ⟨_,_,rfl,by decide⟩
  | integer form n =>
    cases form with
    | positive =>
      obtain ⟨low,high⟩ : 0 ≤ n ∧ n < 128 := fits
      have type : (BitVec.ofInt 8 n).toNat = n.toNat := by
        rw [BitVec.toNat_ofInt]
        omega
      exact ⟨_,_,rfl,by omega,by omega,by omega⟩
    | negative =>
      obtain ⟨low,high⟩ : -32 ≤ n ∧ n < 0 := fits
      have type : (BitVec.ofInt 8 n).toNat = (n + 256).toNat := by
        rw [BitVec.toNat_ofInt]
        omega
      exact ⟨_,_,rfl,by omega,by omega,by omega⟩
    | uint8 | uint16 | uint32 | uint64 | int8 | int16 | int32 | int64 => exact ⟨_,_,rfl,by decide⟩
  | string s =>
    obtain ⟨form,bytes⟩ := s
    cases form with
    | fix =>
      have small : bytes.length < 32 := fits
      have type := fixType 0xA0 (n := bytes.length) (by omega)
      exact ⟨.ofNat 8 (0xA0 + bytes.length),_,rfl,by omega,by omega,by omega⟩
    | one | two | four => exact ⟨_,_,rfl,by decide⟩
  | binary form payload => cases form <;> exact ⟨_,_,rfl,by decide⟩
  | array form items => cases other
  | map form entries =>
    cases form with
    | fix =>
      have small : entries.length < 16 := fits.1
      have type := fixType 0x80 (n := entries.length) (by omega)
      exact ⟨_,_,rfl,by omega,by omega,by omega⟩
    | two | four => exact ⟨_,_,rfl,by decide⟩
  | extension form type payload =>
    cases form with
    | fix =>
      obtain same | same | same | same | same := fits.1
      all_goals
        refine ⟨_,_,rfl,?_⟩
        rw [same]
        decide
    | one | two | four => exact ⟨_,_,rfl,by decide⟩

theorem otherArguments (fits : d.Fits) (other : d.isArray = false) :
    host.arguments netSource d.encode 0 = .ok [] 1 := by
  obtain ⟨type,rest,encoded,small,two,four⟩ := otherType fits other
  have none : host.argumentsOf netSource (d.encode.length + 1) type = pure [] := by
    rw [argumentsOf,if_neg small,if_neg two,if_neg four]
  have opens := (host.readByteReads type).opens (host.argumentsOf netSource (d.encode.length + 1))
  have read := opens [] rest
  rw [none,List.nil_append,List.singleton_append,← encoded] at read
  exact read

theorem argumentsInStep (fits : d.WellFormed) (sized : d.Everywhere Doc.VectorSized) (array : d.isArray) :
    host.ArgumentsInStep netSource d := by
  cases d with
  | array form items =>
    intro before rest
    have total : (before ++ (Doc.array form items).encode ++ rest).length =
        before.length + (Doc.array form items).encode.length + rest.length := by
      rw [List.length_append,List.length_append]
    have meets := host.argumentsMeet netSource fits sized ((before ++ (Doc.array form items).encode ++ rest).length + 1)
      before rest (by omega)
    exact meets.symm.imp And.right fun result => ⟨_,rfl,result.2⟩
  | nil | boolean | integer | single | double | string | binary | map | extension => cases array

theorem argumentsArray (fits : d.Fits) (inStep : host.ArgumentsInStep netSource d) : d.isArray := by
  cases array : d.isArray with
  | true => rfl
  | false =>
    have step := inStep [] []
    rw [List.nil_append,List.append_nil,List.length_nil,host.otherArguments netSource fits array] at step
    obtain ⟨e,thrown⟩ | ⟨items,denoted,-⟩ := step
    · cases thrown
    · cases d with
      | array => cases array
      | extension form type payload =>
        have value : host.extensionValue netSource type payload = .array items := denoted
        unfold extensionValue at value
        repeat' split at value
        all_goals cases value
      | nil | boolean | integer | single | double | string | binary | map => cases denoted

end Host

def Safe (size : Nat) (outcome : Outcome Exception α) : Prop :=
  (∃ e, outcome = .thrown e) ∨ ∃ a next, outcome = .ok a next ∧ next ≤ size

namespace Host

theorem deserializeSafe (data : Option (List Byte)) :
    Safe (data.getD []).length (host.DeserializeData netSource data) := by
  cases data with
  | none => exact .inr ⟨_,_,rfl,Nat.zero_le _⟩
  | some data =>
    rw [DeserializeData]
    split
    · obtain thrown | ⟨v,next,result,-,inside⟩ :=
        host.deserializeWithin netSource (data.length + 1) data 0 (Nat.zero_le _) (by omega)
      · exact .inl thrown
      · exact .inr ⟨v,next,result,inside⟩
    · exact .inr ⟨_,_,rfl,Nat.zero_le _⟩

theorem deserializeArraySafe (data : Option (List Byte)) :
    Safe (data.getD []).length (host.DeserializeArrayData netSource data) := by
  cases data with
  | none => exact .inr ⟨_,_,rfl,Nat.zero_le _⟩
  | some data =>
    rw [DeserializeArrayData]
    split
    · obtain thrown | ⟨v,next,result,-,inside⟩ :=
        host.deserializeArrayWithin netSource (data.length + 1) data 0 (Nat.zero_le _) (by omega)
      · exact .inl thrown
      · exact .inr ⟨v,next,result,inside⟩
    · exact .inr ⟨_,_,rfl,Nat.zero_le _⟩

end Host

theorem inStepExact (host : Host) (netSource : Option Chars) :
    (∀ data, Safe (data.getD []).length (host.DeserializeData netSource data) ∧
      Safe (data.getD []).length (host.DeserializeArrayData netSource data)) ∧ ∀ d : Doc, d.WellFormed →
      (d.Everywhere (host.InStep netSource) ↔ d.Everywhere Doc.VectorSized) ∧
      (d.Everywhere (host.InStep netSource) ∧ host.ArgumentsInStep netSource d ↔
        d.Everywhere Doc.VectorSized ∧ d.isArray) := by
  refine ⟨fun data => ⟨host.deserializeSafe netSource data,host.deserializeArraySafe netSource data⟩,fun d fits => ?_⟩
  have values := host.everywhereInStep netSource fits
  have itself : d.Fits := by
    cases d with
    | array | map => exact fits.1
    | nil | boolean | integer | single | double | string | binary | extension => exact fits
  refine ⟨values,fun ⟨inStep,arguments⟩ => ⟨values.mp inStep,host.argumentsArray netSource itself arguments⟩,?_⟩
  exact fun ⟨sized,array⟩ => ⟨values.mpr sized,host.argumentsInStep netSource fits sized array⟩

def plainHost : Host := ⟨true,fun bytes => bytes.map (·.setWidth 16),fun _ => [],fun _ => true,false⟩

theorem inStepOfFixArray : (Doc.array .fix [.integer .negative (-5),.extension .fix 20 (List.replicate 8 1)]).Everywhere
    (plainHost.InStep none) :=
  ((inStepExact plainHost none).2 (.array .fix [.integer .negative (-5),.extension .fix 20 (List.replicate 8 1)])
    ⟨show 2 < 16 by decide,show -32 ≤ (-5 : Int) ∧ (-5 : Int) < 0 by decide,
      ⟨.inr (.inr (.inr (.inl rfl))),by decide⟩,trivial⟩).1.mpr
    ⟨trivial,trivial,fun size vector => Option.some.inj vector,trivial⟩

theorem shortVector : ¬∀ d : Doc, d.WellFormed → plainHost.InStep none d := by
  intro all
  have fits : (Doc.extension .fix 20 [7]).WellFormed := ⟨.inl rfl,by decide⟩
  have read : plainHost.value none [0xD4,20,7,0,0,0,0,0,0,0] 0 = .ok (.vector2 7 0) 10 := rfl
  have step := all _ fits [] (List.replicate 7 0)
  have data : ([] : List Byte) ++ (Doc.extension .fix 20 [7]).encode ++ List.replicate 7 0 =
      [0xD4,20,7,0,0,0,0,0,0,0] := rfl
  rw [data,List.length_nil,read] at step
  obtain ⟨e,thrown⟩ | same := step
  · cases thrown
  · exact absurd (Outcome.ok.inj same).2 (by decide)

theorem acceptedExact (host : Host) (netSource : Option Chars) (d : Doc) (fits : d.WellFormed)
    (sized : d.Everywhere Doc.VectorSized) (before rest : List Byte) :
    (host.Accepts netSource d → host.value netSource (before ++ d.encode ++ rest) before.length =
      .ok (host.denote netSource d) (before.length + d.encode.length)) ∧
    (¬host.Accepts netSource d → ∃ e, host.value netSource (before ++ d.encode ++ rest) before.length = .thrown e) := by
  obtain ⟨accepted,result⟩ | ⟨rejected,thrown⟩ :=
    host.valueMeets netSource (host.docMeets netSource d fits sized) before rest
  · exact ⟨fun _ => result,fun rejected => absurd accepted rejected⟩
  · exact ⟨fun accepted => absurd accepted rejected,fun _ => thrown⟩

def sameKeys : Doc := .map .fix [(⟨.fix,[0xFF]⟩,.nil),(⟨.fix,[0xFE]⟩,.boolean true)]

theorem acceptedOfMap :
    (∃ e, ({ plainHost with newString := fun _ => [] } : Host).value none sameKeys.encode 0 = .thrown e) ∧
      plainHost.value none sameKeys.encode 0 = .ok (plainHost.denote none sameKeys) 7 := by
  have names : ∀ entry ∈ [(⟨.fix,[0xFF]⟩,.nil),(⟨.fix,[0xFE]⟩,.boolean true)],(entry : Str × Doc).1.Holds :=
    List.forall_mem_cons.mpr ⟨show 1 < 32 by decide,List.forall_mem_singleton.mpr (show 1 < 32 by decide)⟩
  have fits : sameKeys.WellFormed := ⟨⟨show 2 < 16 by decide,names,by decide⟩,trivial,trivial,trivial⟩
  have sized : sameKeys.Everywhere Doc.VectorSized := ⟨trivial,trivial,trivial,trivial⟩
  constructor
  · have thrown := (acceptedExact { plainHost with newString := fun _ => [] } none sameKeys fits sized [] []).2
      (fun accepted => accepted.2.2.2.1 _ List.mem_cons_self rfl)
    rwa [List.nil_append,List.append_nil] at thrown
  · have apart : ∀ other ∈ [(⟨.fix,[0xFE]⟩,.boolean true)],
        plainHost.newString (other : Str × Doc).1.bytes ≠ plainHost.newString [0xFF] :=
      List.forall_mem_singleton.mpr (by decide)
    have read := (acceptedExact plainHost none sameKeys fits sized [] []).1
      ⟨show 2 < 2 ^ 31 by decide,show 1 < 2 ^ 31 by decide,trivial,apart,show 1 < 2 ^ 31 by decide,trivial,nofun,trivial⟩
    rwa [List.nil_append,List.append_nil] at read

end Documents

end Citizen.Scripting.MsgPack
