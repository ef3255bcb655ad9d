import Citizen.Net.PacketTruncation
import Mathlib.Algebra.Order.BigOperators.Group.List

/-! `ByteCounter`, `ByteMaxCounter` and `ByteMinCounter`, and the three sizes that
`SerializableComponent` takes from them. The memory that a list is resized to while it is
counted is there. -/
namespace Citizen.Net
open BitField (Byte)

def ByteCounter.Field (m_counter size : Nat) : Nat :=
  if (m_counter + size) % 2 ^ 64 < m_counter then 2 ^ 64 - 1 else (m_counter + size) % 2 ^ 64

namespace SerializableSizeOptionArea

def sizeofPrefix (option : SerializableSizeOptionArea) : Nat :=
  match option.elementType with
  | none => 0
  | some type => type.sizeof

def countPrefix (option : SerializableSizeOptionArea) (m_counter : Nat) : Nat :=
  match option.elementType with
  | none => m_counter
  | some type => ByteCounter.Field m_counter type.sizeof

def numericLimit (option : SerializableSizeOptionArea) : Nat :=
  match option.elementType with
  | none => 2 ^ 64 - 1
  | some type => 256 ^ type.sizeof - 1

def count (option : SerializableSizeOptionArea) (suggestion m_counter : Nat) : Option (Nat × Nat) :=
  if option.ValidateSize suggestion then
    some (option.counted suggestion,option.countPrefix m_counter)
  else none

def maxSize (option : SerializableSizeOptionArea) : Nat :=
  if 0 < option.Max then option.Max else option.numericLimit

def minSize (option : SerializableSizeOptionArea) : Nat := if 0 < option.Min then option.Min else 0

def Typed (option : SerializableSizeOptionArea) : Prop :=
  match option.elementType with
  | none => option.Min < 2 ^ 32 ∧ option.Max < 2 ^ 32
  | some type => option.Min < 256 ^ type.sizeof ∧ option.Max < 256 ^ type.sizeof

instance : (option : SerializableSizeOptionArea) → Decidable option.Typed
  | ⟨none,Min,Max⟩ => inferInstanceAs (Decidable (Min < 2 ^ 32 ∧ Max < 2 ^ 32))
  | ⟨some type,Min,Max⟩ =>
    inferInstanceAs (Decidable (Min < 256 ^ type.sizeof ∧ Max < 256 ^ type.sizeof))

end SerializableSizeOptionArea

def countContent (m_counter size sizeof : Nat) : Nat :=
  if size = 0 then m_counter else ByteCounter.Field m_counter (size * sizeof % 2 ^ 64)

namespace PacketType

def countEach {α : Type} (count : α → Nat → Bool × Nat) : List α → Nat → Bool × Nat
  | [],m_counter => (true,m_counter)
  | v :: vs,m_counter =>
    match count v m_counter with
    | (true,m_counter) => countEach count vs m_counter
    | (false,m_counter) => (false,m_counter)

def count : (t : PacketType) → t.Value → Nat → Bool × Nat
  | property type _,_,m_counter => (true,ByteCounter.Field m_counter type.sizeof)
  | elements option _ sizeof,(es : List (Fin _ → Byte)),m_counter =>
    match option.count es.length m_counter with
    | none => (false,m_counter)
    | some (size,m_counter) => (true,countContent m_counter size sizeof)
  | vector option _ member,(vs : List member.Value),m_counter =>
    match option.1.count vs.length m_counter with
    | none => (false,m_counter)
    | some (size,m_counter) => countEach (fun v => count member v) (vs.take size) m_counter
  | nil,_,m_counter => (true,m_counter)
  | cons first rest,(v,vs),m_counter =>
    match count first v m_counter with
    | (true,m_counter) => count rest vs m_counter
    | (false,m_counter) => (false,m_counter)
  | choose type rest,⟨number,v⟩,m_counter =>
    count (rest number) v (ByteCounter.Field m_counter type.sizeof)

def GetSize (t : PacketType) (v : t.Value) : Nat := (t.count v 0).2

end PacketType

inductive Serializable : PacketType → Type where
  | property (type : Primitive) (bigEndian : Bool) : Serializable (.property type bigEndian)
  | elements (option : SerializableSizeOptionArea) (bigEndian : Bool) (sizeof : Fin (2^16))
      (typed : option.Typed) (positive : 0 < sizeof.val) :
      Serializable (.elements option bigEndian sizeof)
  | vector (option : PrefixedSizeOption) (bigEndian : Bool) {member : PacketType}
      (typed : option.1.Typed) (property : Serializable member) :
      Serializable (.vector option bigEndian member)
  | nil : Serializable .nil
  | cons {first rest : PacketType} (one : Serializable first) (two : Serializable rest) :
      Serializable (.cons first rest)
  | optional {property : PacketType} (m_property : Serializable property) :
      Serializable (.optional property)
  | clientGameStateNAck : Serializable .ClientGameStateNAck

namespace Serializable
open ByteCounter (Field)
open SerializableSizeOptionArea (countPrefix)

def maxCount : {t : PacketType} → Serializable t → Nat → Nat
  | _,property type _,m_counter => Field m_counter type.sizeof
  | _,elements option _ sizeof _ _,m_counter =>
    countContent (option.countPrefix m_counter) option.maxSize sizeof
  | _,vector option _ _ m,m_counter =>
    (maxCount m)^[option.1.maxSize] (option.1.countPrefix m_counter)
  | _,nil,m_counter => m_counter
  | _,cons one two,m_counter => maxCount two (maxCount one m_counter)
  | _,optional m,m_counter => maxCount m (Field m_counter 1)
  | _,clientGameStateNAck,m_counter =>
    let frameIndex := Field (Field m_counter 1) 8
    let lastMissingFrame := Field (Field frameIndex 8) 8
    let ignoreList := countContent (SmallBytesArray.countPrefix lastMissingFrame) SmallBytesArray.maxSize
      PacketType.sizeofIgnoreListEntry
    countContent (SmallBytesArray.countPrefix ignoreList) SmallBytesArray.maxSize 2

/-- With a `ByteMinCounter` a fresh object is counted: an optional property is not set and the
flags of a `ClientGameStateNAck` only have `HasIgnoreListEntryResendFrame`. -/
def minCount : {t : PacketType} → Serializable t → Nat → Nat
  | _,property type _,m_counter => Field m_counter type.sizeof
  | _,elements option _ sizeof _ _,m_counter =>
    countContent (option.countPrefix m_counter) option.minSize sizeof
  | _,vector option _ _ m,m_counter =>
    (minCount m)^[option.1.minSize] (option.1.countPrefix m_counter)
  | _,nil,m_counter => m_counter
  | _,cons one two,m_counter => minCount two (minCount one m_counter)
  | _,optional _,m_counter => Field m_counter 1
  | _,clientGameStateNAck,m_counter => Field (Field m_counter 1) 8

def GetMaxSize {t : PacketType} (s : Serializable t) : Nat := s.maxCount 0
def GetMinSize {t : PacketType} (s : Serializable t) : Nat := s.minCount 0

example : clientGameStateNAck.GetMaxSize = 3087 := rfl

end Serializable

/-! What the counters have counted. -/

def counterAt (n : Nat) : Nat := min n (2 ^ 64 - 1)

theorem fieldAt (n : Nat) {size : Nat} (small : size < 2 ^ 64) :
    ByteCounter.Field (counterAt n) size = counterAt (n + size) := by
  unfold ByteCounter.Field counterAt
  split <;> omega

theorem counterZero : counterAt 0 = 0 := rfl

namespace SerializableSizeOptionArea
variable (option : SerializableSizeOptionArea)

theorem minSizeMin : option.minSize = option.Min := by
  unfold minSize
  split <;> omega

theorem countPrefixAt (n : Nat) : option.countPrefix (counterAt n) = counterAt (n + option.sizeofPrefix) := by
  unfold countPrefix sizeofPrefix
  cases option.elementType with
  | none => rfl
  | some type =>
    refine fieldAt n ?_
    cases type <;> decide

theorem lengthPrefixLength (bigEndian : Bool) (n : Nat) :
    (option.lengthPrefix bigEndian n).length = option.sizeofPrefix := by
  unfold lengthPrefix sizeofPrefix
  cases option.elementType with
  | none => rfl
  | some type => exact LittleEndian.bytesLength ..

end SerializableSizeOptionArea

theorem contentAt (n size sizeof : Nat) :
    countContent (counterAt n) size sizeof = counterAt (n + size * sizeof % 2 ^ 64) := by
  unfold countContent
  split
  · rename_i none
    rw [none,Nat.zero_mul,Nat.zero_mod,Nat.add_zero]
  · exact fieldAt n (Nat.mod_lt _ (by decide))

theorem iterateAt {f : Nat → Nat} {size : Nat} (law : ∀ n, f (counterAt n) = counterAt (n + size))
    (k n : Nat) : f^[k] (counterAt n) = counterAt (n + k * size) := by
  induction k generalizing n with
  | zero => simp
  | succ k ih =>
    rw [Function.iterate_succ_apply,law,ih]
    congr 1
    ring

/-! What the counters say of the encoding of a value and of all encodings of a type. -/

namespace SerializableSizeOptionArea
variable {option : SerializableSizeOptionArea}

theorem validIff (n : Nat) : option.ValidateSize n = true ↔ option.Min ≤ n ∧ (option.Max = 0 ∨ n ≤ option.Max) := by
  unfold ValidateSize
  split_ifs <;> simp <;> omega

theorem validMin {n : Nat} (valid : option.ValidateSize n = true) : option.ValidateSize option.Min = true := by
  rw [validIff] at valid ⊢
  omega

theorem countedMost {n : Nat} (small : option.counted n < 2 ^ 64)
    (valid : option.ValidateSize n = true) : option.counted n ≤ option.maxSize := by
  have bound := (validIff n).mp valid
  unfold counted at small
  unfold counted maxSize numericLimit
  cases kind : option.elementType with
  | none =>
    simp only [kind] at small ⊢
    split <;> omega
  | some type =>
    have less := Nat.mod_le n (256 ^ type.sizeof)
    have narrow := Nat.mod_lt n (Nat.pow_pos (by decide) : 0 < 256 ^ type.sizeof)
    dsimp only
    split <;> omega

end SerializableSizeOptionArea

namespace PacketType
open ByteCounter (Field)

def valid : (t : PacketType) → t.Value → Bool
  | property _ _,_ => true
  | elements option _ _,(es : List (Fin _ → Byte)) => option.ValidateSize es.length
  | vector option _ member,(vs : List member.Value) =>
    option.1.ValidateSize vs.length &&
      (vs.take (option.1.counted vs.length)).all (fun v => valid member v)
  | nil,_ => true
  | cons first rest,(v,vs) => valid first v && valid rest vs
  | choose _ rest,⟨number,v⟩ => valid (rest number) v

theorem vectorLength (option : PrefixedSizeOption) (bigEndian : Bool) {member : PacketType}
    (vs : List member.Value) : ((vector option bigEndian member).encode vs).length = option.1.sizeofPrefix +
        ((vs.take (option.1.counted vs.length)).map (fun v => (member.encode v).length)).sum := by
  refine List.length_append.trans ?_
  rw [SerializableSizeOptionArea.lengthPrefixLength,List.length_flatMap]

theorem consLength (first rest : PacketType) (v : first.Value) (vs : rest.Value) :
    ((cons first rest).encode (v,vs)).length = (first.encode v).length + (rest.encode vs).length :=
  List.length_append

def Counts (t : PacketType) : Prop :=
  ∀ v n, (t.count v n).1 = t.valid v ∧
    (t.valid v = true → (t.encode v).length < maxObject →
      t.count v (counterAt n) = (true,counterAt (n + (t.encode v).length)))

variable {member : PacketType}

theorem countEachValid (law : ∀ v n, (member.count v n).1 = member.valid v) (vs : List member.Value) (n : Nat) :
    (countEach (fun v => member.count v) vs n).1 = vs.all (fun v => member.valid v) := by
  induction vs generalizing n with
  | nil => rfl
  | cons v vs ih =>
    rw [countEach,List.all_cons,← law v n]
    cases counted : member.count v n with
    | mk success n' =>
      cases success with
      | true => exact ih n'
      | false => rfl

theorem countEachAt (law : member.Counts) {vs : List member.Value} (n : Nat)
    (good : vs.all (fun v => member.valid v) = true)
    (small : (vs.map (fun v => (member.encode v).length)).sum < maxObject) :
    countEach (fun v => member.count v) vs (counterAt n) =
      (true,counterAt (n + (vs.map (fun v => (member.encode v).length)).sum)) := by
  induction vs generalizing n with
  | nil => rfl
  | cons v vs ih =>
    rw [List.all_cons,Bool.and_eq_true] at good
    rw [List.map_cons,List.sum_cons] at small
    rw [countEach,(law v n).2 good.1 (by omega)]
    dsimp only
    rw [ih _ good.2 (by omega),List.map_cons,List.sum_cons,Nat.add_assoc]

theorem counts (t : PacketType) : t.Counts := by
  induction t with
  | property type bigEndian =>
    intro v n
    refine ⟨rfl,fun _ _ => ?_⟩
    have narrow : type.sizeof < 2 ^ 64 := by cases type <;> decide
    have length : ((property type bigEndian).encode v).length = type.sizeof :=
      type.toBytesLength bigEndian v
    rw [length]
    exact congrArg (Prod.mk true) (fieldAt n narrow)
  | elements option bigEndian sizeof =>
    intro es n
    have length := elementsLength option bigEndian es
    rw [SerializableSizeOptionArea.lengthPrefixLength] at length
    simp only [count,SerializableSizeOptionArea.count,valid]
    by_cases good : option.ValidateSize es.length = true
    · refine ⟨by rw [if_pos good,good],fun _ small => ?_⟩
      unfold maxObject at small
      rw [if_pos good]
      dsimp only
      rw [SerializableSizeOptionArea.countPrefixAt,contentAt,Nat.mod_eq_of_lt (by omega),length,
        Nat.add_assoc]
    · exact ⟨by rw [if_neg good,Bool.eq_false_iff.mpr good],fun ok => absurd ok good⟩
  | vector option bigEndian member law =>
    intro vs n
    have length := vectorLength option bigEndian vs
    simp only [count,SerializableSizeOptionArea.count,valid]
    by_cases good : option.1.ValidateSize (List.length (α := member.Value) vs) = true
    · rw [if_pos good,good]
      dsimp only
      rw [Bool.true_and]
      refine ⟨countEachValid (fun v n => (law v n).1) _ _,fun all small => ?_⟩
      have counted := countEachAt law (n + option.1.sizeofPrefix) all (by omega)
      rw [if_pos rfl,SerializableSizeOptionArea.countPrefixAt,length,← Nat.add_assoc]
      exact counted
    · rw [if_neg good,Bool.eq_false_iff.mpr good]
      exact ⟨rfl,fun ok => by contradiction⟩
  | nil => exact fun v n => ⟨rfl,fun _ _ => rfl⟩
  | cons first rest one two =>
    intro both n
    obtain ⟨v,vs⟩ := both
    rw [consLength]
    constructor
    · simp only [count,valid]
      rw [← (one v n).1]
      cases counted : first.count v n with
      | mk success n' =>
        cases success with
        | true => exact (two vs n').1
        | false => rfl
    · intro good small
      obtain ⟨left,right⟩ := Bool.and_eq_true_iff.mp good
      simp only [count]
      rw [(one v n).2 left (by omega)]
      dsimp only
      rw [(two vs _).2 right (by omega),Nat.add_assoc]
  | choose type rest law =>
    intro chosen n
    obtain ⟨number,v⟩ := chosen
    have narrow : type.sizeof < 2 ^ 64 := by cases type <;> decide
    rw [chooseLength]
    refine ⟨(law number v _).1,fun good small => ?_⟩
    simp only [count]
    rw [fieldAt n narrow,(law number v _).2 good (by omega),Nat.add_assoc]

/-! What the writer accepts. -/

variable {option : SerializableSizeOptionArea}

theorem sizeWritten {bigEndian : Bool} {n size : Nat} {w w' : ByteWriter} (written : option.write bigEndian n w = some (size,w')) :
    option.ValidateSize n = true ∧ size = option.counted n := by
  unfold SerializableSizeOptionArea.write at written
  unfold SerializableSizeOptionArea.counted
  split at written
  · rename_i good
    cases kind : option.elementType with
    | none =>
      simp only [kind] at written
      cases written
      exact ⟨good,rfl⟩
    | some type =>
      simp only [kind] at written
      cases written
      exact ⟨good,rfl⟩
  · contradiction

theorem validSizeWritten (bigEndian : Bool) {n : Nat} {w : ByteWriter}
    (good : option.ValidateSize n = true) (roomy : option.sizeofPrefix ≤ w.room) :
    option.write bigEndian n w =
      some (option.counted n,{ w with m_data := w.m_data ++ option.lengthPrefix bigEndian n }) := by
  have some : ∃ w', option.write bigEndian n w = some (option.counted n,w') := by
    unfold SerializableSizeOptionArea.write SerializableSizeOptionArea.counted
    rw [if_pos good]
    cases option.elementType with
    | none => exact ⟨_,rfl⟩
    | some type => exact ⟨_,rfl⟩
  obtain ⟨w',written⟩ := some
  rw [← SerializableSizeOptionArea.lengthPrefixLength option bigEndian n] at roomy
  rw [written,(sizeRoomy written roomy).1]

theorem fieldWritten {w : ByteWriter} {value : List Byte} (roomy : value.length ≤ w.room)
    (inside : w.m_data.length ≤ w.m_capacity) :
    w.Field value = some { w with m_data := w.m_data ++ value } := by
  unfold ByteWriter.room at roomy
  unfold ByteWriter.Field ByteWriter.CanWrite
  rw [if_pos (decide_eq_true (by omega))]

theorem writtenEachValid (law : ∀ v w w', member.write v w = some w' → member.valid v = true) {vs : List member.Value}
    {w w' : ByteWriter} (written : vs.foldlM (fun w v => member.write v w) w = some w') :
    vs.all (fun v => member.valid v) = true := by
  induction vs generalizing w with
  | nil => rfl
  | cons v vs ih =>
    rw [List.foldlM_cons] at written
    obtain ⟨w₁,here,later⟩ := Option.bind_eq_some_iff.mp written
    rw [List.all_cons,law v w w₁ here,ih later]
    rfl

theorem writtenValid (t : PacketType) : ∀ (v : t.Value) (w w' : ByteWriter),
    t.write v w = some w' → t.valid v = true := by
  induction t with
  | property type bigEndian => exact fun _ _ _ _ => rfl
  | elements option bigEndian sizeof =>
    intro es w w' written
    obtain ⟨⟨size,w₁⟩,first,-⟩ := Option.bind_eq_some_iff.mp written
    exact (sizeWritten first).1
  | vector option bigEndian member law =>
    intro vs w w' written
    obtain ⟨⟨size,w₁⟩,first,second⟩ := Option.bind_eq_some_iff.mp written
    obtain ⟨good,counted⟩ := sizeWritten first
    rw [counted] at second
    exact Bool.and_eq_true_iff.mpr ⟨good,writtenEachValid law second⟩
  | nil => exact fun _ _ _ _ => rfl
  | cons first rest one two =>
    intro both w w' written
    obtain ⟨w₁,here,later⟩ := Option.bind_eq_some_iff.mp written
    exact Bool.and_eq_true_iff.mpr ⟨one both.1 w w₁ here,two both.2 w₁ w' later⟩
  | choose type rest law =>
    intro chosen w w' written
    obtain ⟨w₁,here,later⟩ := Option.bind_eq_some_iff.mp written
    exact law chosen.1 chosen.2 w₁ w' later

def Writes (t : PacketType) : Prop :=
  ∀ (v : t.Value) (w : ByteWriter), t.valid v = true → (t.encode v).length ≤ w.room →
    w.m_data.length ≤ w.m_capacity →
    t.write v w = some { w with m_data := w.m_data ++ t.encode v }

theorem writesEach (law : member.Writes) {vs : List member.Value} {w : ByteWriter}
    (good : vs.all (fun v => member.valid v) = true)
    (roomy : (vs.map (fun v => (member.encode v).length)).sum ≤ w.room)
    (inside : w.m_data.length ≤ w.m_capacity) :
    vs.foldlM (fun w v => member.write v w) w =
      some { w with m_data := w.m_data ++ vs.flatMap (fun v => member.encode v) } := by
  induction vs generalizing w with
  | nil => simp
  | cons v vs ih =>
    rw [List.all_cons,Bool.and_eq_true] at good
    rw [List.map_cons,List.sum_cons] at roomy
    have first := law v w good.1 (by omega) inside
    have rest := @ih { w with m_data := w.m_data ++ member.encode v } good.2
      (by rw [roomAppend]; omega)
      (by unfold ByteWriter.room at roomy; simp only [List.length_append]; omega)
    rw [List.foldlM_cons,first,List.flatMap_cons,← List.append_assoc]
    exact rest

theorem writes (t : PacketType) : t.Writes := by
  induction t with
  | property type bigEndian => exact fun v w _ roomy inside => fieldWritten roomy inside
  | elements option bigEndian sizeof =>
    intro (es : List (Fin sizeof → Byte)) w good roomy inside
    have length := elementsLength option bigEndian es
    rw [SerializableSizeOptionArea.lengthPrefixLength] at length
    have first := validSizeWritten bigEndian good (show option.sizeofPrefix ≤ w.room by omega)
    have here := SerializableSizeOptionArea.lengthPrefixLength option bigEndian es.length
    have content := takeCounted option es
    have bytes := memoryLength (es.take (option.counted es.length))
    rw [content] at bytes
    have second := @fieldWritten
      { w with m_data := w.m_data ++ option.lengthPrefix bigEndian es.length }
      (memory (es.take (option.counted es.length)))
      (by rw [roomAppend,bytes,here]; omega)
      (by unfold ByteWriter.room at roomy; simp only [List.length_append]; omega)
    simp only [write,first,Option.bind_some,encode]
    split
    · rename_i none
      rw [none,List.take_zero]
      simp [memory]
    · rw [second,List.append_assoc]
  | vector option bigEndian member law =>
    intro (vs : List member.Value) w good roomy inside
    have length := vectorLength option bigEndian vs
    obtain ⟨sized,all⟩ := Bool.and_eq_true_iff.mp good
    have first := validSizeWritten bigEndian sized (show option.1.sizeofPrefix ≤ w.room by omega)
    have here := SerializableSizeOptionArea.lengthPrefixLength option.1 bigEndian vs.length
    have rest := @writesEach member law _
      { w with m_data := w.m_data ++ option.1.lengthPrefix bigEndian vs.length }
      all (by rw [roomAppend,here]; omega)
      (by unfold ByteWriter.room at roomy; simp only [List.length_append]; omega)
    simp only [write,first,Option.bind_some,encode]
    rw [rest,List.append_assoc]
  | nil =>
    intro v w _ _ _
    exact congrArg some (congrArg (ByteWriter.mk w.m_capacity) (List.append_nil w.m_data).symm)
  | cons first rest one two =>
    intro both w good roomy inside
    obtain ⟨v,vs⟩ := both
    obtain ⟨left,right⟩ := Bool.and_eq_true_iff.mp good
    rw [consLength] at roomy
    have here := one v w left (by omega) inside
    have later := two vs { w with m_data := w.m_data ++ first.encode v } right
      (by rw [roomAppend]; omega)
      (by unfold ByteWriter.room at roomy; simp only [List.length_append]; omega)
    simp only [write,here,Option.bind_some,encode]
    rw [later,List.append_assoc]
  | choose type rest law =>
    intro chosen w good roomy inside
    obtain ⟨number,v⟩ := chosen
    rw [chooseLength] at roomy
    have width := type.toBytesLength false number
    have here := @fieldWritten w (type.toBytes false number) (by omega) inside
    have later := law number v { w with m_data := w.m_data ++ type.toBytes false number } good
      (by rw [roomAppend]; omega)
      (by unfold ByteWriter.room at roomy; simp only [List.length_append]; omega)
    simp only [write,here,Option.bind_some,encode]
    rw [later,List.append_assoc]

end PacketType
end Citizen.Net
