import Citizen.Net.MessageBufferFields
import Mathlib.Data.Nat.ModEq
import Mathlib.Data.Nat.Prime.Basic

/-! `ParseSerializer` and `UnparseSerializer`: one body of a node for both directions. -/
namespace Citizen.Sync
open BitField (Byte bitAt Field Fields widthOf)
open Rl

/-- The calls that a body makes to its serializer, each with the data that is there and what goes on with the data that the
call leaves. A `float` that is read is a natural number. -/
inductive Serial (ι α : Type) where
  | done (result : α)
  | number (size : Nat) (data : BitVec 32) (next : BitVec 32 → Serial ι α)
  | float (size data : Nat) (next : Nat → Serial ι α)
  | bit (field : ι) (data : Bool) (next : Bool → Serial ι α)

namespace Serial
variable {ι α β : Type}

def bind : Serial ι α → (α → Serial ι β) → Serial ι β
  | .done result,f => f result
  | .number size data next,f => .number size data (fun value => bind (next value) f)
  | .float size data next,f => .float size data (fun value => bind (next value) f)
  | .bit field data next,f => .bit field data (fun value => bind (next value) f)

instance : Monad (Serial ι) where
  pure := .done
  bind := bind

/-- The representation of a `float` that is this number, for less than 24 bits. -/
def floatBits (value : Nat) : Nat :=
  if value = 0 then 0 else (127 + value.log2) * 2 ^ 23 + (value - 2 ^ value.log2) * 2 ^ (23 - value.log2)

/-- Reads from a buffer; a number of which the bits are not there is zero. -/
def parse (lengthHack : Bool) : Serial ι α → MessageBuffer → α × MessageBuffer
  | .done result,b => (result,b)
  | .number size _ next,b => parse lengthHack (next (BitVec.ofNat 32 (b.read lengthHack size).1)) (b.read lengthHack size).2
  | .float size _ next,b => parse lengthHack (next (b.read lengthHack size).1) (b.read lengthHack size).2
  | .bit _ _ next,b => parse lengthHack (next (b.readBit.1 = 1)) b.readBit.2

/-- Writes to a buffer. Of a `float` the low bits of the representation are written; `WriteBitsSingle` asserts when it is
compiled that it is not asked to. -/
def unparse (lengthHack : Bool) : Serial ι α → MessageBuffer → α × MessageBuffer
  | .done result,b => (result,b)
  | .number size data next,b => unparse lengthHack (next data) (b.write lengthHack size data.toNat)
  | .float size data next,b => unparse lengthHack (next data) (b.write lengthHack size (floatBits data))
  | .bit _ data next,b => unparse lengthHack (next data) (b.writeBit data.toNat).2

/-- What one call reads or writes. -/
inductive Token (ι : Type) where
  | number (size value : Nat)
  | float (size value : Nat)
  | bit (field : ι) (value : Bool)
  deriving DecidableEq

def Token.field : Token ι → Nat × Nat
  | .number size value => (size,value)
  | .float size value => (size,value)
  | .bit _ value => (1,value.toNat)

def fieldBits (field : Nat × Nat) : List Bool := (List.range field.1).map (fun k => field.2.testBit (field.1 - 1 - k))

def bits (tokens : List (Token ι)) : List Bool := tokens.flatMap (fun token => fieldBits token.field)

/-- What reading meets, and its result. -/
inductive Reads : Serial ι α → List (Token ι) → α → Prop where
  | done (result : α) : Reads (.done result) [] result
  | number {size data next rest a} (value : BitVec 32) (small : value.toNat < 2 ^ size) (later : Reads (next value) rest a) :
      Reads (.number size data next) (.number size value.toNat :: rest) a
  | float {size data next rest a} (value : Nat) (small : value < 2 ^ size) (later : Reads (next value) rest a) :
      Reads (.float size data next) (.float size value :: rest) a
  | bit {field data next rest a} (value : Bool) (later : Reads (next value) rest a) :
      Reads (.bit field data next) (.bit field value :: rest) a

/-- What writing leaves, and its result. -/
def written : Serial ι α → List (Token ι) × α
  | .done result => ([],result)
  | .number size data next => (.number size (data.toNat % 2 ^ size) :: (written (next data)).1,(written (next data)).2)
  | .float size data next => (.float size (floatBits data % 2 ^ size) :: (written (next data)).1,(written (next data)).2)
  | .bit field data next => (.bit field data :: (written (next data)).1,(written (next data)).2)

def Sized : Serial ι α → Prop
  | .done _ => True
  | .number size _ next => (0 < size ∧ size ≤ 32 ∧ size ≠ 13) ∧ ∀ value, Sized (next value)
  | .float size _ next => (0 < size ∧ size ≤ 23 ∧ size ≠ 13) ∧ ∀ value, Sized (next value)
  | .bit _ _ next => ∀ value, Sized (next value)

def tokens (data : List Byte) : Serial ι α → Nat → Option (List (Token ι))
  | .done _,_ => some []
  | .number size _ next,start =>
    if start + size ≤ 8 * data.length then
      let value := ((MessageBuffer.seek data start).read false size).1
      (tokens data (next (BitVec.ofNat 32 value)) (start + size)).map (fun rest => .number size value :: rest)
    else none
  | .float size _ next,start =>
    if start + size ≤ 8 * data.length then
      let value := ((MessageBuffer.seek data start).read false size).1
      (tokens data (next value) (start + size)).map (fun rest => .float size value :: rest)
    else none
  | .bit field _ next,start =>
    if start + 1 ≤ 8 * data.length then
      let value := (MessageBuffer.seek data start).readBit.1 = 1
      (tokens data (next value) (start + 1)).map (fun rest => .bit field value :: rest)
    else none

variable {p : Serial ι α} {f : α → Serial ι β}

theorem readsBind {t : List (Token ι)} {b : β} :
    Reads (p >>= f) t b ↔ ∃ first second a, t = first ++ second ∧ Reads p first a ∧ Reads (f a) second b := by
  constructor
  · intro reads
    induction p generalizing t with
    | done result => exact ⟨[],t,result,rfl,.done result,reads⟩
    | number size data next ih =>
      cases reads with
      | number value small later =>
        obtain ⟨first,second,a,rfl,reads,last⟩ := ih value later
        exact ⟨_ :: first,second,a,rfl,.number value small reads,last⟩
    | float size data next ih =>
      cases reads with
      | float value small later =>
        obtain ⟨first,second,a,rfl,reads,last⟩ := ih value later
        exact ⟨_ :: first,second,a,rfl,.float value small reads,last⟩
    | bit field data next ih =>
      cases reads with
      | bit value later =>
        obtain ⟨first,second,a,rfl,reads,last⟩ := ih value later
        exact ⟨_ :: first,second,a,rfl,.bit value reads,last⟩
  · rintro ⟨first,second,a,rfl,reads,last⟩
    induction reads with
    | done result => exact last
    | number value small later ih => exact .number value small (ih last)
    | float value small later ih => exact .float value small (ih last)
    | bit value later ih => exact .bit value (ih last)

theorem writtenBind (p : Serial ι α) (f : α → Serial ι β) :
    written (p >>= f) = ((written p).1 ++ (written (f (written p).2)).1,(written (f (written p).2)).2) := by
  induction p with
  | done result => rfl
  | number size data next ih | float size data next ih | bit field data next ih =>
    change (_ :: (written (next data >>= f)).1,(written (next data >>= f)).2) = _
    rw [ih]
    rfl

theorem sizedBind (sized : p.Sized) (later : ∀ a, (f a).Sized) : (p >>= f).Sized := by
  induction p with
  | done result => exact later result
  | number size data next ih | float size data next ih => exact ⟨sized.1,fun value => ih value (sized.2 value)⟩
  | bit field data next ih => exact fun value => ih value (sized value)

section
variable {data : List Byte} {start : Nat} {lengthHack : Bool}

theorem fieldRead {size : Nat} (plain : size ≠ 13) (positive : 0 < size) (small : size ≤ 32)
    (room : start + size ≤ 8 * data.length) :
    ∃ value : BitVec 32, value.toNat < 2 ^ size ∧ Field data start size value.toNat ∧
      ∀ lengthHack, (MessageBuffer.seek data start).read lengthHack size = (value.toNat,.seek data (start + size)) := by
  have hack := fun lengthHack => @hackLengthOther lengthHack size plain
  obtain ⟨value,-,bits⟩ := @readBitsSingleBits false (.seek data start) size seekSized
    (by rwa [hack]) (by rwa [hack]) (by rwa [hack])
  rw [hack] at bits
  have fits : value.toNat < 2 ^ size := by
    refine Nat.lt_pow_two_of_testBit _ (fun i past => ?_)
    rw [BitVec.testBit_toNat,bits,decide_eq_false (by omega)]
    rfl
  have field : Field data start size value.toNat := by
    intro k inside
    rw [BitVec.testBit_toNat,bits,decide_eq_true (by omega),Bool.true_and]
    have place : start + size - 1 - (size - 1 - k) = start + k := by omega
    exact congrArg (bitAt data) place.symm
  exact ⟨value,fits,field,fun lengthHack => readSeek (hack lengthHack) positive small room field fits⟩

theorem bitOne (b : Bool) : decide (b.toNat = 1) = b := by
  cases b
  · rfl
  · rfl

theorem bitField {bits : List Byte} (b : Bool) (same : bitAt bits start = b) : Field bits start 1 b.toNat := by
  intro k inside
  obtain rfl : k = 0 := by omega
  rw [Nat.add_zero,same]
  cases b
  · rfl
  · rfl

theorem bitThere (room : start + 1 ≤ 8 * data.length) : Field data start 1 (bitAt data start).toNat ∧
      (MessageBuffer.seek data start).readBit = ((bitAt data start).toNat,.seek data (start + 1)) := by
  have field := bitField (bitAt data start) rfl
  exact ⟨field,readBitSeek room field (Bool.toNat_lt _)⟩

theorem fieldLow {size value : Nat} (field : Field data start size value) : Field data start size (value % 2 ^ size) := by
  intro k inside
  rw [field k inside,Nat.testBit_mod_two_pow,decide_eq_true (by omega),Bool.true_and]

theorem parsed {p : Serial ι α} (sized : p.Sized) {t : List (Token ι)} (there : tokens data p start = some t) :
    ∃ a, Reads p t a ∧ p.parse lengthHack (.seek data start) = (a,.seek data (start + widthOf (t.map Token.field))) ∧
      Fields data start (t.map Token.field) := by
  induction p generalizing start t with
  | done result =>
    cases there
    exact ⟨result,.done result,rfl,trivial⟩
  | number size old next ih =>
    obtain ⟨⟨positive,small,plain⟩,later⟩ := sized
    unfold tokens at there
    split at there
    · rename_i room
      obtain ⟨value,fits,field,read⟩ := fieldRead plain positive small room
      rw [read] at there
      dsimp only at there
      rw [BitVec.ofNat_toNat,BitVec.setWidth_eq] at there
      obtain ⟨rest,inside,rfl⟩ := Option.map_eq_some_iff.mp there
      obtain ⟨a,reads,parse,fields⟩ := ih value (later value) inside
      refine ⟨a,.number value fits reads,?_,field,fields⟩
      rw [Nat.add_assoc] at parse
      refine Eq.trans ?_ parse
      change Serial.parse lengthHack (next (BitVec.ofNat 32 ((MessageBuffer.seek data start).read lengthHack size).1)) _ = _
      rw [read,BitVec.ofNat_toNat,BitVec.setWidth_eq]
    · cases there
  | float size old next ih =>
    obtain ⟨⟨positive,small,plain⟩,later⟩ := sized
    unfold tokens at there
    split at there
    · rename_i room
      obtain ⟨value,fits,field,read⟩ := fieldRead plain positive (by omega) room
      rw [read] at there
      obtain ⟨rest,inside,rfl⟩ := Option.map_eq_some_iff.mp there
      obtain ⟨a,reads,parse,fields⟩ := ih value.toNat (later _) inside
      refine ⟨a,.float _ fits reads,?_,field,fields⟩
      rw [Nat.add_assoc] at parse
      refine Eq.trans ?_ parse
      change Serial.parse lengthHack (next ((MessageBuffer.seek data start).read lengthHack size).1) _ = _
      rw [read]
    · cases there
  | bit name old next ih =>
    unfold tokens at there
    split at there
    · rename_i room
      obtain ⟨field,read⟩ := bitThere room
      rw [read] at there
      dsimp only at there
      rw [bitOne] at there
      obtain ⟨rest,inside,rfl⟩ := Option.map_eq_some_iff.mp there
      obtain ⟨a,reads,parse,fields⟩ := ih _ (sized _) inside
      refine ⟨a,.bit _ reads,?_,field,fields⟩
      rw [Nat.add_assoc] at parse
      refine Eq.trans ?_ parse
      change Serial.parse lengthHack (next ((MessageBuffer.seek data start).readBit.1 = 1)) _ = _
      rw [read,bitOne]
    · cases there

theorem writtenFirst {size value : Nat} {next : Serial ι α} {b : MessageBuffer} (bounds : b.Sized) (plain : size ≠ 13)
    (positive : 0 < size) (small : size ≤ 32)
    (room : b.curBit + widthOf ((size,value % 2 ^ size) :: next.written.1.map Token.field) ≤ 8 * b.data.length)
    (ih : ∀ {b : MessageBuffer}, b.Sized → b.curBit + widthOf (next.written.1.map Token.field) ≤ 8 * b.data.length →
      ∃ b', next.unparse lengthHack b = (next.written.2,b') ∧ b.Wrote (next.written.1.map Token.field) b') :
    ∃ b', next.unparse lengthHack (b.write lengthHack size value) = (next.written.2,b') ∧
      b.Wrote ((size,value % 2 ^ size) :: next.written.1.map Token.field) b' := by
  have hack := @hackLengthOther lengthHack size plain
  have width : widthOf ((size,value % 2 ^ size) :: next.written.1.map Token.field) =
    size + widthOf (next.written.1.map Token.field) := rfl
  obtain ⟨field,grown,cursor⟩ := @writeHackedField _ lengthHack _ value bounds (by rwa [hack]) (by rwa [hack])
    (by rw [hack]; omega)
  rw [hack] at field cursor
  have first : b.Wrote [(size,value % 2 ^ size)] (b.write lengthHack size value) := ⟨grown,cursor,fieldLow field,trivial⟩
  obtain ⟨b',unparse,wrote⟩ := ih grown.sized (by rw [cursor,grown.length]; omega)
  exact ⟨b',unparse,first.append wrote⟩

theorem unparsed {p : Serial ι α} (sized : p.Sized) {b : MessageBuffer} (bounds : b.Sized)
    (room : b.curBit + widthOf (p.written.1.map Token.field) ≤ 8 * b.data.length) :
    ∃ b', p.unparse lengthHack b = (p.written.2,b') ∧ b.Wrote (p.written.1.map Token.field) b' := by
  induction p generalizing b with
  | done result => exact ⟨b,rfl,⟨Nat.le_refl _,rfl,bounds,fun _ _ => rfl⟩,rfl,trivial⟩
  | number size value next ih =>
    obtain ⟨⟨positive,small,plain⟩,later⟩ := sized
    exact writtenFirst bounds plain positive small room (fun first => ih value (later value) first)
  | float size value next ih =>
    obtain ⟨⟨positive,small,plain⟩,later⟩ := sized
    exact writtenFirst bounds plain positive (by omega) room (fun first => ih value (later value) first)
  | bit name value next ih =>
    have wide : b.curBit < 8 * b.data.length := by
      have width : widthOf ((written (.bit name value next)).1.map Token.field) = 1 + widthOf ((written (next value)).1.map Token.field) := rfl
      omega
    have first := wroteBit (Bool.toNat_lt value) bounds wide
    obtain ⟨b',unparse,wrote⟩ := ih value (sized value) first.grown.sized (by
      rw [first.cursor,first.grown.length]
      exact (Nat.add_assoc ..).trans_le room)
    exact ⟨b',unparse,first.append wrote⟩

end

theorem bitsOfFields {data : List Byte} {start : Nat} {fields : List (Nat × Nat)} (there : Fields data start fields) :
    fields.flatMap fieldBits = (List.range (widthOf fields)).map (fun i => bitAt data (start + i)) := by
  induction fields generalizing start with
  | nil => rfl
  | cons field rest ih =>
    obtain ⟨width,value⟩ := field
    obtain ⟨first,later⟩ := there
    rw [List.flatMap_cons,ih later,BitField.widthOfCons,List.range_add,List.map_append,List.map_map]
    congr 1
    · exact List.map_congr_left (fun k inside => (first k (List.mem_range.mp inside)).symm)
    · exact List.map_congr_left (fun k _ => congrArg (bitAt data) (Nat.add_assoc ..))

theorem bitsAre {data : List Byte} {start : Nat} {t : List (Token ι)} (there : Fields data start (t.map Token.field)) :
    bits t = (List.range (widthOf (t.map Token.field))).map (fun i => bitAt data (start + i)) := by
  rw [← bitsOfFields there,List.flatMap_map]
  rfl

theorem widthOfBits {t u : List (Token ι)} (same : bits t = bits u) :
    widthOf (t.map Token.field) = widthOf (u.map Token.field) := by
  have length (t : List (Token ι)) : (bits t).length = widthOf (t.map Token.field) := by
    induction t with
    | nil => rfl
    | cons token rest ih =>
      have first : (fieldBits token.field).length = token.field.1 := by simp [fieldBits]
      change (fieldBits token.field ++ bits rest).length = token.field.1 + widthOf (rest.map Token.field)
      rw [List.length_append,first,ih]
  rw [← length,← length,same]

theorem bitsSame {a b : List Byte} {p q : Nat} {t u : List (Token ι)} (first : Fields a p (t.map Token.field))
    (second : Fields b q (u.map Token.field)) :
    bits t = bits u ↔ widthOf (t.map Token.field) = widthOf (u.map Token.field) ∧
      ∀ i < widthOf (t.map Token.field), bitAt a (p + i) = bitAt b (q + i) := by
  rw [bitsAre first,bitsAre second]
  constructor
  · intro same
    have length : widthOf (t.map Token.field) = widthOf (u.map Token.field) := by simpa using congrArg List.length same
    rw [← length] at same
    exact ⟨length,fun i inside => List.map_inj_left.mp same i (List.mem_range.mpr inside)⟩
  · rintro ⟨length,same⟩
    rw [← length]
    exact List.map_congr_left (fun i inside => same i (List.mem_range.mp inside))

/-- In every buffer that has the room, unparsing writes the bits from `start` to `stop` and leaves `a`. -/
def Echoed (lengthHack : Bool) (p : Serial ι α) (data : List Byte) (start stop : Nat) (a : α) : Prop :=
  ∀ out : MessageBuffer, out.Sized → out.curBit + (stop - start) ≤ 8 * out.data.length →
    ∃ out', p.unparse lengthHack out = (a,out') ∧ out'.curBit = out.curBit + (stop - start) ∧
      ∀ i < stop - start, bitAt out'.data (out.curBit + i) = bitAt data (start + i)

theorem echoedIff {p : Serial ι α} (sized : p.Sized) {data : List Byte} {start : Nat} {lengthHack : Bool} {t : List (Token ι)}
    {a : α} (there : Fields data start (t.map Token.field)) :
    p.Echoed lengthHack data start (start + widthOf (t.map Token.field)) a ↔ p.written.2 = a ∧ bits p.written.1 = bits t := by
  unfold Echoed
  rw [Nat.add_sub_cancel_left]
  constructor
  · intro echoed
    -- a buffer with room for both
    let room := widthOf (t.map Token.field) + widthOf (p.written.1.map Token.field)
    let out := MessageBuffer.seek (List.replicate room 0) 0
    have length : out.data.length = room := List.length_replicate
    obtain ⟨first,unparse,wrote⟩ := @unparsed _ _ lengthHack p sized out seekSized (by change 0 + _ ≤ _; omega)
    obtain ⟨out',same,cursor,copied⟩ := echoed out seekSized (by change 0 + _ ≤ _; omega)
    rw [unparse] at same
    obtain ⟨rfl,rfl⟩ := Prod.mk.inj same
    refine ⟨rfl,(bitsSame wrote.fields there).mpr ⟨?_,fun i inside => ?_⟩⟩
    · exact Nat.add_left_cancel (wrote.cursor.symm.trans cursor)
    · have width := Nat.add_left_cancel (wrote.cursor.symm.trans cursor)
      exact copied i (width ▸ inside)
  · rintro ⟨rfl,same⟩ out bounds room
    have width := widthOfBits same
    obtain ⟨out',unparse,wrote⟩ := @unparsed _ _ lengthHack p sized out bounds (by omega)
    obtain ⟨-,copied⟩ := (bitsSame wrote.fields there).mp same
    exact ⟨out',unparse,wrote.cursor.trans (congrArg _ width),fun i inside => copied i (width.symm ▸ inside)⟩

/-! The calls. -/

def Serialize (size : Nat) (data : BitVec 32) : Serial ι (BitVec 32) := .number size data .done
def SerializeChar (size : Nat) (data : BitVec 8) : Serial ι (BitVec 8) :=
  .number size (data.setWidth 32) (fun value => .done (value.setWidth 8))
def SerializeFloat (size data : Nat) : Serial ι Nat := .float size data .done
def SerializeBit (field : ι) (data : Bool) : Serial ι Bool := .bit field data .done

section
variable {t : List (Token ι)} {b : β}

@[simp] theorem readsPure {result a : α} : Reads (pure result : Serial ι α) t a ↔ t = [] ∧ a = result := by
  constructor
  · intro reads
    cases reads
    exact ⟨rfl,rfl⟩
  · rintro ⟨rfl,rfl⟩
    exact .done _

@[simp] theorem readsPureBind {a : α} {f : α → Serial ι β} : Reads (pure a >>= f) t b ↔ Reads (f a) t b := Iff.rfl

@[simp] theorem readsNumber {size : Nat} {data : BitVec 32} {f : BitVec 32 → Serial ι β} :
    Reads (Serialize size data >>= f) t b ↔
      ∃ value : BitVec 32, value.toNat < 2 ^ size ∧ ∃ rest, t = .number size value.toNat :: rest ∧ Reads (f value) rest b := by
  constructor
  · intro reads
    cases reads with
    | number value small later => exact ⟨value,small,_,rfl,later⟩
  · rintro ⟨value,small,rest,rfl,later⟩
    exact .number value small later

@[simp] theorem readsFloat {size data : Nat} {f : Nat → Serial ι β} : Reads (SerializeFloat size data >>= f) t b ↔
      ∃ value < 2 ^ size, ∃ rest, t = .float size value :: rest ∧ Reads (f value) rest b := by
  constructor
  · intro reads
    cases reads with
    | float value small later => exact ⟨value,small,_,rfl,later⟩
  · rintro ⟨value,small,rest,rfl,later⟩
    exact .float value small later

@[simp] theorem readsBit {field : ι} {data : Bool} {f : Bool → Serial ι β} :
    Reads (SerializeBit field data >>= f) t b ↔ ∃ value rest, t = .bit field value :: rest ∧ Reads (f value) rest b := by
  constructor
  · intro reads
    cases reads with
    | bit value later => exact ⟨value,_,rfl,later⟩
  · rintro ⟨value,rest,rfl,later⟩
    exact .bit value later

@[simp] theorem writtenPure (result : α) : written (pure result : Serial ι α) = ([],result) := rfl
@[simp] theorem writtenPureBind (a : α) (f : α → Serial ι β) : written (pure a >>= f) = written (f a) := rfl
@[simp] theorem writtenNumber (size : Nat) (data : BitVec 32) (f : BitVec 32 → Serial ι β) :
    written (Serialize size data >>= f) = (.number size (data.toNat % 2 ^ size) :: (written (f data)).1,(written (f data)).2) := rfl
@[simp] theorem writtenFloat (size data : Nat) (f : Nat → Serial ι β) :
    written (SerializeFloat size data >>= f) =
      (.float size (floatBits data % 2 ^ size) :: (written (f data)).1,(written (f data)).2) := rfl
@[simp] theorem writtenBit (field : ι) (data : Bool) (f : Bool → Serial ι β) :
    written (SerializeBit field data >>= f) = (.bit field data :: (written (f data)).1,(written (f data)).2) := rfl

@[simp] theorem sizedPure (result : α) : Sized (pure result : Serial ι α) := trivial
@[simp] theorem sizedNumber {size : Nat} {data : BitVec 32} {f : BitVec 32 → Serial ι β} :
    Sized (Serialize size data >>= f) ↔ (0 < size ∧ size ≤ 32 ∧ size ≠ 13) ∧ ∀ value, Sized (f value) := Iff.rfl
@[simp] theorem sizedChar {size : Nat} {data : BitVec 8} {f : BitVec 8 → Serial ι β} :
    Sized (SerializeChar size data >>= f) ↔
      (0 < size ∧ size ≤ 32 ∧ size ≠ 13) ∧ ∀ value : BitVec 32, Sized (f (value.setWidth 8)) := Iff.rfl
@[simp] theorem sizedFloat {size data : Nat} {f : Nat → Serial ι β} :
    Sized (SerializeFloat size data >>= f) ↔ (0 < size ∧ size ≤ 23 ∧ size ≠ 13) ∧ ∀ value, Sized (f value) := Iff.rfl
@[simp] theorem sizedBit {field : ι} {data : Bool} {f : Bool → Serial ι β} :
    Sized (SerializeBit field data >>= f) ↔ ∀ value, Sized (f value) := Iff.rfl

end

section
variable {t u : List (Token ι)}

theorem bitsAppend (t u : List (Token ι)) : bits (t ++ u) = bits t ++ bits u := List.flatMap_append

theorem bitsCut {token : Token ι} (same : bits (token :: t) = bits (token :: u)) : bits t = bits u :=
  @List.append_cancel_left _ (fieldBits token.field) _ _ same

theorem bitsFront (t u v : List (Token ι)) : bits (t ++ u) = bits (t ++ v) ↔ bits u = bits v := by
  rw [bitsAppend,bitsAppend,List.append_right_inj]

theorem bitsBit (field : ι) (value : Bool) (t : List (Token ι)) : bits (.bit field value :: t) = value :: bits t := by
  cases value
  · simp [bits,fieldBits,Token.field]
  · simp [bits,fieldBits,Token.field]

theorem fieldBitsInj {size a b : Nat} (smallA : a < 2 ^ size) (smallB : b < 2 ^ size)
    (same : fieldBits (size,a) = fieldBits (size,b)) : a = b := by
  refine Nat.eq_of_testBit_eq (fun i => ?_)
  by_cases inside : i < size
  · have bit := List.map_inj_left.mp same (size - 1 - i) (List.mem_range.mpr (by omega))
    rwa [show size - 1 - (size - 1 - i) = i by omega] at bit
  · have high (n : Nat) (small : n < 2 ^ size) : n.testBit i = false :=
      Nat.testBit_lt_two_pow (small.trans_le (Nat.pow_le_pow_right (by decide) (by omega)))
    rw [high a smallA,high b smallB]

theorem floatBitsZero : floatBits 0 = 0 := rfl

/-- The low bits of the representation are never those of the number, but for zero. -/
theorem floatBitsLow {size value : Nat} (small : value < 2 ^ size) (few : size ≤ 23) (same : floatBits value % 2 ^ size = value) :
    value = 0 := by
  by_contra some
  have exponent : value.log2 < size := (Nat.log2_lt some).mpr small
  have leading : 2 ^ value.log2 ≤ value := Nat.log2_self_le some
  obtain ⟨k,twenty⟩ : ∃ k, 2 ^ 23 = 2 ^ size * k := ⟨2 ^ (23 - size),by rw [← Nat.pow_add]; congr 1; omega⟩
  have split : 2 ^ value.log2 * 2 ^ (23 - value.log2) = 2 ^ 23 := by
    rw [← Nat.pow_add]
    congr 1
    omega
  -- the representation is a multiple of 2 ^ 23 and the number shifted to the mantissa
  have shifted : floatBits value = (126 + value.log2) * 2 ^ 23 + value * 2 ^ (23 - value.log2) := by
    unfold floatBits
    rw [if_neg some,Nat.sub_mul,split]
    have enough : 2 ^ 23 ≤ value * 2 ^ (23 - value.log2) := split ▸ Nat.mul_le_mul_right _ leading
    omega
  have even : 2 * 2 ^ (22 - value.log2) = 2 ^ (23 - value.log2) := by
    rw [← Nat.pow_succ']
    congr 1
    omega
  have low : value * 2 ^ (23 - value.log2) % 2 ^ size = value := by
    rw [shifted,twenty,← Nat.mul_assoc,Nat.mul_comm (126 + value.log2),Nat.mul_assoc,Nat.mul_add_mod] at same
    exact same
  have divides : 2 ^ size ∣ value * (2 ^ (23 - value.log2) - 1) := by
    have congruent : value * 2 ^ (23 - value.log2) ≡ value * 1 [MOD 2 ^ size] := by
      rw [Nat.mul_one]
      exact low.trans (Nat.mod_eq_of_lt small).symm
    rw [Nat.mul_sub]
    exact (Nat.modEq_iff_dvd' (Nat.mul_le_mul_left _ Nat.one_le_two_pow)).mp congruent.symm
  have odd : Nat.Coprime (2 ^ size) (2 ^ (23 - value.log2) - 1) := by
    refine Nat.Coprime.pow_left _ ?_
    rw [Nat.coprime_two_left,Nat.odd_iff]
    have positive := Nat.one_le_two_pow (n := 22 - value.log2)
    omega
  exact absurd (Nat.le_of_dvd (Nat.pos_of_ne_zero some) (odd.dvd_of_dvd_mul_right divides)) (by omega)

end

end Serial
end Citizen.Sync
