import Citizen.Net.PacketRoundTrip

/-! What a `ByteReader` makes of an encoding that is cut off. -/
namespace Citizen.Net
open BitField (Byte)
open ByteReader (At Moved)

structure ByteReader.Contained (r : ByteReader) : Prop where
  addressable : r.m_data.length < maxObject
  inside : r.m_offset ≤ r.m_data.length
  reads : ∀ p ∈ r.reads, p.1 + p.2 ≤ r.m_data.length

def Tame {α : Type} (f : Reading α) : Prop :=
  ∀ r, r.Contained → (f r).2.Contained ∧ (f r).2.m_data = r.m_data ∧
    (r.uninitialised = true → (f r).2.uninitialised = true)

section
variable {α β : Type}
open Reading

theorem tameDone (v : α) : Tame (done v) := fun _ contained => ⟨contained,rfl,id⟩

theorem fieldContained {r r' : ByteReader} {length : Nat} {bytes} (small : length < 2^63)
    (contained : r.Contained) (found : r.Field length = some (bytes,r')) :
    r'.Contained ∧ r'.m_data = r.m_data ∧ r'.uninitialised = r.uninitialised ∧ bytes.length = length := by
  have addressable := contained.addressable
  have inside := contained.inside
  unfold maxObject at addressable
  have whole : (r.m_offset + length) % 2^64 = r.m_offset + length := Nat.mod_eq_of_lt (by omega)
  unfold ByteReader.Field ByteReader.CanRead at found
  rw [whole] at found
  split at found
  · rename_i fits
    cases found
    have fits := of_decide_eq_true fits
    refine ⟨⟨contained.addressable,fits,fun p mem => ?_⟩,rfl,rfl,?_⟩
    · rcases List.mem_cons.mp mem with same | mem
      · rw [same]
        exact fits
      · exact contained.reads p mem
    · rw [List.length_take,List.length_drop]
      omega
  · contradiction

theorem tameField {length : Nat} (small : length < 2^63) : Tame (field length) := by
  intro r contained
  unfold field
  cases found : r.Field length with
  | none => exact ⟨contained,rfl,id⟩
  | some got =>
    obtain ⟨next,data,initialised,_⟩ := fieldContained small contained found
    exact ⟨next,data,fun used => initialised.trans used⟩

theorem Tame.andThen {first : Reading α} {next : α → Reading β} (one : Tame first)
    (two : ∀ a r r', r.Contained → first r = (.success a,r') → Tame (next a)) : Tame (first.andThen next) := by
  intro r contained
  obtain ⟨inside,data,used⟩ := one r contained
  unfold Reading.andThen
  split
  · rename_i a r' found
    rw [found] at inside data used
    obtain ⟨inside',data',used'⟩ := two a r r' contained found r' inside
    exact ⟨inside',data'.trans data,fun before => used' (used before)⟩
  · rename_i r' found
    rw [found] at inside data used
    exact ⟨inside,data,used⟩
  · rename_i r' found
    rw [found] at inside data used
    exact ⟨inside,data,used⟩

theorem tameEach {element : Reading α} (tame : Tame element) (n : Nat) : Tame (each element n) := by
  induction n with
  | zero => exact tameDone []
  | succ n ih =>
    exact tame.andThen (fun v _ _ _ _ => ih.andThen (fun rest _ _ _ _ => tameDone _))

end

namespace SerializableSizeOptionArea
variable {option : SerializableSizeOptionArea} {bigEndian : Bool}

theorem ofBytesSmall {sizeof : Nat} {bytes : List Byte} (length : bytes.length = sizeof) :
    inOrder bigEndian sizeof (LittleEndian.value bytes) < 256 ^ sizeof := by
  have small := LittleEndian.valueSmall bytes
  rw [length] at small
  exact inOrderSmall small

theorem widthSmall (type : ElementType) : type.sizeof < 2^63 ∧ 256 ^ type.sizeof < maxObject := by
  cases type <;> decide

theorem receivedContained (option : SerializableSizeOptionArea) (bigEndian : Bool) {r : ByteReader}
    (contained : r.Contained) :
    (option.received bigEndian r).2.Contained ∧ (option.received bigEndian r).2.m_data = r.m_data ∧
      (r.uninitialised = true → (option.received bigEndian r).2.uninitialised = true) ∧
      (option.received bigEndian r).1 < maxObject := by
  unfold received
  split
  · refine ⟨contained,rfl,id,?_⟩
    have addressable := contained.addressable
    unfold ByteReader.GetRemaining
    dsimp only
    omega
  · rename_i type _
    obtain ⟨narrow,small⟩ := widthSmall type
    split
    · rename_i found
      obtain ⟨next,data,initialised,length⟩ := fieldContained narrow contained found
      exact ⟨next,data,fun used => initialised.trans used,Nat.lt_trans (ofBytesSmall length) small⟩
    · refine ⟨⟨contained.addressable,contained.inside,contained.reads⟩,rfl,fun _ => rfl,?_⟩
      refine Nat.lt_trans (inOrderSmall (Nat.mod_lt _ (Nat.pow_pos (by decide)))) small

theorem tameRead : Tame (option.read bigEndian) := by
  intro r contained
  obtain ⟨next,data,used,_⟩ := receivedContained option bigEndian contained
  unfold read
  dsimp only
  split
  · exact ⟨next,data,used⟩
  · exact ⟨next,data,used⟩

theorem readBounded {r r' : ByteReader} {size : Nat} (contained : r.Contained)
    (found : option.read bigEndian r = (.success size,r')) : size < maxObject := by
  obtain ⟨_,_,_,small⟩ := receivedContained option bigEndian contained
  unfold read at found
  dsimp only at found
  split at found
  · cases found
    exact small
  · cases congrArg Prod.fst found

end SerializableSizeOptionArea

namespace PacketType
open Reading

theorem tameContent {sizeof : Fin (2^16)} {size : Nat} (bounded : size < maxObject) :
    size * sizeof < 2^63 ∧ Tame (if size = 0 then done [] else
      (field (size * sizeof % 2^64)).andThen (fun bytes => done (ofMemory sizeof size bytes))) := by
  have narrow : size * sizeof < 2^47 * 2^16 := Nat.mul_lt_mul'' bounded sizeof.isLt
  refine ⟨narrow,?_⟩
  split
  · exact tameDone _
  · exact (tameField (Nat.lt_of_le_of_lt (Nat.mod_le _ _) narrow)).andThen (fun _ _ _ _ _ => tameDone _)

theorem tamePacket (t : PacketType) : Tame t.read := by
  induction t with
  | property type bigEndian =>
    refine (tameField ?_).andThen (fun _ _ _ _ _ => tameDone _)
    cases type <;> decide
  | elements option bigEndian sizeof =>
    exact SerializableSizeOptionArea.tameRead.andThen (fun size r r' contained found =>
      (tameContent (SerializableSizeOptionArea.readBounded contained found)).2)
  | vector option bigEndian member tame =>
    exact SerializableSizeOptionArea.tameRead.andThen (fun size _ _ _ _ => tameEach tame size)
  | nil => exact tameDone ()
  | cons first rest one two =>
    exact one.andThen (fun _ _ _ _ _ => two.andThen (fun _ _ _ _ _ => tameDone _))
  | choose type rest tame =>
    refine (tameField ?_).andThen (fun bytes _ _ _ _ => (tame _).andThen (fun _ _ _ _ _ => tameDone _))
    cases type <;> decide

end PacketType
/-- What becomes of a reader: it comes to a length prefix that is not all there, it reports a
failure, or it goes on with `n` bytes left. -/
inductive Fate where
  | starved
  | refused
  | left (n : Nat)

def Fate.andThen : Fate → (Nat → Fate) → Fate
  | starved,_ => starved
  | refused,_ => refused
  | left n,next => next n

def contentFate (length k : Nat) : Fate := if k < length then .refused else .left (k - length)

namespace SerializableSizeOptionArea

def announced (option : SerializableSizeOptionArea) (n k : Nat) : Nat :=
  match option.elementType with
  | none => k
  | some type => n % 256 ^ type.sizeof

def fate (option : SerializableSizeOptionArea) (n k : Nat) : Fate :=
  match option.elementType with
  | none => if option.ValidateSize k then .left k else .refused
  | some type =>
    if k < type.sizeof then .starved
    else if option.ValidateSize (option.announced n k) then .left (k - type.sizeof)
    else .refused

end SerializableSizeOptionArea

namespace PacketType
open Reading

def eachFate {α : Type} (fate : α → Nat → Fate) : List α → Nat → Fate
  | [],k => .left k
  | v :: vs,k => (fate v k).andThen (eachFate fate vs)

def fate : (t : PacketType) → t.Value → Nat → Fate
  | property type _,_,k => contentFate type.sizeof k
  | elements option _ sizeof,(es : List (Fin _ → Byte)),k =>
    (option.fate es.length k).andThen (contentFate (option.announced es.length k * sizeof))
  | vector option _ member,(vs : List member.Value),k =>
    (option.1.fate vs.length k).andThen
      (eachFate (fun v => fate member v) (vs.take (option.1.counted vs.length)))
  | nil,_,k => .left k
  | cons first rest,(v,vs),k => (fate first v k).andThen (fate rest vs)
  | choose type rest,⟨number,v⟩,k => (contentFate type.sizeof k).andThen (fate (rest number) v)

def tailStart : (t : PacketType) → t.Value → Option Nat
  | property _ _,_ => none
  | elements option _ _,_ => if option.elementType = none then some 0 else none
  | vector _ _ _,_ => none
  | nil,_ => none
  | cons first nil,(v,_) => tailStart first v
  | cons first rest,(v,vs) => (tailStart rest vs).map (fun start => (encode first v).length + start)
  | choose type rest,⟨number,v⟩ =>
    (tailStart (rest number) v).map (fun start => type.sizeof + start)

def Absorbs (t : PacketType) (v : t.Value) (k : Nat) : Prop := ∃ start ≤ k, t.tailStart v = some start

/-- Of a packet cut off to this input a failure is reported unless the remainder at its end
absorbs the end; all sizes used were read, and all reads were inside the input. -/
def RejectsTruncated (t : PacketType) (v : t.Value) (input : List Byte) : Prop :=
  ∀ garbage, ((∃ a, (t.read (.ofData input garbage)).1 = .success a) → t.Absorbs v input.length) ∧
    (t.read (.ofData input garbage)).2.uninitialised = false ∧
    ∀ p ∈ (t.read (.ofData input garbage)).2.reads, p.1 + p.2 ≤ input.length

/-- A packet cut off after `k` bytes does not end before or inside a length prefix, and where
nothing is missing for the reader the remainder at the end of the type absorbs the end. -/
def EndsCleanly (t : PacketType) (v : t.Value) (k : Nat) : Prop :=
  match t.fate v k with
  | .starved => False
  | .refused => True
  | .left _ => t.Absorbs v k

def Agree (a b : List Byte) : Prop := a <+: b ∨ b <+: a

theorem Agree.left {a b c : List Byte} (agree : Agree a (b ++ c)) : Agree a b := by
  rcases agree with start | start
  · exact List.prefix_or_prefix_of_prefix start (List.prefix_append b c)
  · exact .inr ((List.prefix_append b c).trans start)

theorem Agree.right {a b c : List Byte} (agree : Agree a (b ++ c)) {n : Nat}
    (rest : n = 0 ∨ b.length + n = a.length) : Agree (a.drop (a.length - n)) c := by
  rcases rest with none | rest
  · rw [none,Nat.sub_zero,List.drop_length]
    exact .inl (List.nil_prefix)
  · have start : a.length - n = b.length := by omega
    rw [start]
    rcases agree with ⟨more,whole⟩ | ⟨more,whole⟩
    · refine .inl ⟨more,?_⟩
      rw [← List.drop_append_of_le_length (by omega),whole,List.drop_left]
    · refine .inr ⟨more,?_⟩
      rw [← whole,List.append_assoc,List.drop_left]

def Meets {α : Type} (f : Reading α) (r : ByteReader) (bytes : List Byte) (good : α → Prop) : Fate → Prop
  | .starved => (f r).2.uninitialised = true
  | .refused => (∀ a, (f r).1 ≠ .success a) ∧ (f r).2.uninitialised = r.uninitialised
  | .left n => n ≤ bytes.length ∧ ∃ a r', f r = (.success a,r') ∧ good a ∧
    r'.uninitialised = r.uninitialised ∧ r'.At (bytes.drop (bytes.length - n))

section
variable {α β : Type}
open Reading

theorem Meets.andThen {first : Reading α} {next : α → Reading β} {r bytes good good' fate fate'}
    (contained : r.Contained) (tame : Tame first)
    (nextTame : ∀ a r r', r.Contained → first r = (.success a,r') → Tame (next a))
    (one : Meets first r bytes good fate)
    (two : ∀ a n r', fate = .left n → first r = (.success a,r') → good a → r'.Contained →
      r'.At (bytes.drop (bytes.length - n)) → (bytes.drop (bytes.length - n)).length = n →
      Meets (next a) r' (bytes.drop (bytes.length - n)) good' (fate' n)) :
    Meets (first.andThen next) r bytes good' (fate.andThen fate') := by
  obtain ⟨inside,_,_⟩ := tame r contained
  cases fate with
  | starved =>
    simp only [Fate.andThen,Meets,Reading.andThen] at one ⊢
    split
    · rename_i a r' found
      rw [found] at one inside
      exact (nextTame a r r' contained found r' inside).2.2 one
    · rename_i found
      rw [found] at one
      exact one
    · rename_i found
      rw [found] at one
      exact one
  | refused =>
    simp only [Fate.andThen,Meets,Reading.andThen] at one ⊢
    split
    · rename_i a r' found
      exact absurd (congrArg Prod.fst found) (one.1 a)
    · rename_i found
      rw [found] at one
      exact ⟨fun a same => (by cases same),one.2⟩
    · rename_i found
      rw [found] at one
      exact ⟨fun a same => (by cases same),one.2⟩
  | left n =>
    obtain ⟨enough,a,r',found,fine,initialised,left⟩ := one
    rw [found] at inside
    have length : (bytes.drop (bytes.length - n)).length = n := by
      rw [List.length_drop]
      omega
    have later := two a n r' rfl found fine inside left length
    have whole : first.andThen next r = next a r' := by rw [Reading.andThen,found]
    rw [Fate.andThen]
    cases ends : fate' n with
    | starved =>
      rw [ends] at later
      rw [Meets,whole]
      exact later
    | refused =>
      rw [ends] at later
      rw [Meets,whole]
      exact ⟨later.1,later.2.trans initialised⟩
    | left m =>
      rw [ends] at later
      obtain ⟨enough',b,r'',found',fine',initialised',left'⟩ := later
      rw [length] at enough' left'
      refine ⟨by omega,b,r'',whole.trans found',fine',initialised'.trans initialised,?_⟩
      rw [List.drop_drop,show bytes.length - n + (n - m) = bytes.length - m by omega] at left'
      exact left'

theorem meetsDone (v : α) {r bytes} (left : At r bytes) {good : α → Prop} (fine : good v) :
    Meets (done v) r bytes good (.left bytes.length) := by
  refine ⟨Nat.le_refl _,v,r,rfl,fine,rfl,?_⟩
  rw [Nat.sub_self]
  exact left

theorem meetsField {r : ByteReader} {bytes : List Byte} (contained : r.Contained) (left : At r bytes)
    {length : Nat} (small : length < 2^63) : Meets (field length) r bytes (fun got => got = bytes.take length)
      (contentFate length bytes.length) := by
  have addressable := contained.addressable
  unfold contentFate
  split
  · rename_i short
    have missing : r.Field length = none := left.short short (by unfold maxObject at addressable; omega)
    rw [Meets,field,missing]
    exact ⟨fun a same => (by cases same),rfl⟩
  · rename_i enough
    have width : (bytes.take length).length = length := by
      rw [List.length_take]
      omega
    have whole : At r (bytes.take length ++ bytes.drop length) := by
      rw [List.take_append_drop]
      exact left
    obtain ⟨r',found,moved⟩ := whole.field addressable
    rw [width] at found
    refine ⟨by omega,_,r',by rw [field,found],rfl,moved.initialised,?_⟩
    rw [show bytes.length - (bytes.length - length) = length by omega]
    exact whole.moved moved

end

theorem Agree.take {a b c : List Byte} (agree : Agree a (b ++ c)) (enough : b.length ≤ a.length) :
    a.take b.length = b := by
  rcases agree.left with ⟨more,whole⟩ | ⟨more,whole⟩
  · have all : more = [] := List.eq_nil_of_length_eq_zero (by
      have lengths := congrArg List.length whole
      rw [List.length_append] at lengths
      omega)
    rw [all,List.append_nil] at whole
    rw [whole,List.take_length]
  · rw [← whole,List.take_left]

section
variable {option : SerializableSizeOptionArea} {bigEndian : Bool}

theorem announcedCounted {type : ElementType} (prefixed : option.elementType = some type) (n k : Nat) :
    option.announced n k = option.counted n := by
  simp only [SerializableSizeOptionArea.announced,SerializableSizeOptionArea.counted,prefixed]

theorem sizeFateLeft (bigEndian : Bool) {n k m : Nat} (ends : option.fate n k = .left m) :
    (option.lengthPrefix bigEndian n).length + m = k := by
  unfold SerializableSizeOptionArea.fate at ends
  unfold SerializableSizeOptionArea.lengthPrefix
  cases kind : option.elementType with
  | none =>
    simp only [kind] at ends
    split at ends
    · cases ends
      exact Nat.zero_add _
    · contradiction
  | some type =>
    simp only [kind] at ends
    split at ends
    · contradiction
    · split at ends
      · cases ends
        rw [LittleEndian.bytesLength]
        omega
      · contradiction

theorem meetsSize {r : ByteReader} {bytes content : List Byte} {n : Nat} (contained : r.Contained)
    (left : At r bytes) (agree : Agree bytes (option.lengthPrefix bigEndian n ++ content)) :
    Meets (option.read bigEndian) r bytes (fun size => size = option.announced n bytes.length)
      (option.fate n bytes.length) := by
  unfold SerializableSizeOptionArea.fate
  cases kind : option.elementType with
  | none =>
    have received : option.received bigEndian r = (bytes.length,r) := by
      simp only [SerializableSizeOptionArea.received,kind,left.remaining]
    dsimp only
    split
    · rename_i valid
      refine ⟨Nat.le_refl _,bytes.length,r,SerializableSizeOptionArea.readValid received valid,?_,rfl,?_⟩
      · simp only [SerializableSizeOptionArea.announced,kind]
      · rw [Nat.sub_self]
        exact left
    · rename_i invalid
      simp only [Meets,SerializableSizeOptionArea.read,received,if_neg invalid]
      exact ⟨fun a same => (by cases same),trivial⟩
  | some type =>
    dsimp only
    split
    · rename_i short
      have received := SerializableSizeOptionArea.receivedShort bigEndian kind short
        contained.addressable left
      simp only [Meets,SerializableSizeOptionArea.read,received]
      split <;> rfl
    · rename_i enough
      have encoded : option.lengthPrefix bigEndian n = LittleEndian.bytes type.sizeof
          (inOrder bigEndian type.sizeof (n % 256 ^ type.sizeof)) := by
        simp only [SerializableSizeOptionArea.lengthPrefix,kind]
      have length : (option.lengthPrefix bigEndian n).length = type.sizeof := by
        rw [encoded,LittleEndian.bytesLength]
      have start := agree.take (by omega)
      have whole : At r (option.lengthPrefix bigEndian n ++ bytes.drop type.sizeof) := by
        rw [← start,length,List.take_append_drop]
        exact left
      have small : n % 256 ^ type.sizeof < 256 ^ type.sizeof := Nat.mod_lt _ (Nat.pow_pos (by decide))
      obtain ⟨r',received,moved⟩ := SerializableSizeOptionArea.receivedPrefix bigEndian kind length
        contained.addressable whole
      have announced : inOrder bigEndian type.sizeof
          (LittleEndian.value (option.lengthPrefix bigEndian n)) = option.announced n bytes.length := by
        simp only [SerializableSizeOptionArea.announced,kind]
        rw [encoded,LittleEndian.valueBytesSmall (inOrderSmall small),inOrderTwice small]
      rw [announced] at received
      split
      · rename_i valid
        refine ⟨by omega,_,r',SerializableSizeOptionArea.readValid received valid,rfl,moved.initialised,?_⟩
        rw [show bytes.length - (bytes.length - type.sizeof) = type.sizeof by omega]
        exact whole.moved moved
      · rename_i invalid
        simp only [Meets,SerializableSizeOptionArea.read,received,if_neg invalid]
        exact ⟨fun a same => (by cases same),moved.initialised⟩

end

theorem fateAndThenLeft {fate : Fate} {next : Nat → Fate} {n : Nat}
    (ends : fate.andThen next = .left n) : ∃ m, fate = .left m ∧ next m = .left n := by
  cases fate with
  | starved => contradiction
  | refused => contradiction
  | left m => exact ⟨m,rfl,ends⟩

theorem contentFateLeft {length k n : Nat} (ends : contentFate length k = .left n) : length + n = k := by
  unfold contentFate at ends
  split at ends
  · contradiction
  · cases ends
    omega

theorem countedLe (option : SerializableSizeOptionArea) (n : Nat) : option.counted n ≤ n := by
  unfold SerializableSizeOptionArea.counted
  split
  · exact Nat.le_refl n
  · exact Nat.mod_le ..

theorem takeCounted {α : Type} (option : SerializableSizeOptionArea) (vs : List α) :
    (vs.take (option.counted vs.length)).length = option.counted vs.length := by
  rw [List.length_take,Nat.min_eq_left (countedLe option vs.length)]

theorem eachFateLeft {α : Type} {fate : α → Nat → Fate} {size : α → Nat}
    (law : ∀ v {k n}, fate v k = .left n → n = 0 ∨ size v + n = k) {vs : List α} {k n : Nat}
    (ends : eachFate fate vs k = .left n) : n = 0 ∨ (vs.map size).sum + n = k := by
  induction vs generalizing k with
  | nil =>
    cases ends
    exact .inr (Nat.zero_add _)
  | cons v vs ih =>
    obtain ⟨m,here,later⟩ := fateAndThenLeft ends
    rw [List.map_cons,List.sum_cons]
    have := law v here
    have := ih later
    omega

theorem elementsLength (option : SerializableSizeOptionArea) (bigEndian : Bool) {sizeof : Fin (2^16)}
    (es : List (Fin sizeof → Byte)) : ((elements option bigEndian sizeof).encode es).length =
      (option.lengthPrefix bigEndian es.length).length + option.counted es.length * sizeof := by
  refine List.length_append.trans ?_
  rw [memoryLength,takeCounted]

theorem chooseLength {type : Primitive} (rest : Fin type.range → PacketType) (number : Fin type.range)
    (v : (rest number).Value) : ((choose type rest).encode ⟨number,v⟩).length =
      type.sizeof + ((rest number).encode v).length := by
  refine List.length_append.trans ?_
  rw [type.toBytesLength false number]

variable {option : SerializableSizeOptionArea} {bigEndian : Bool}

theorem elementsFateLeft {sizeof : Fin (2^16)} {es : List (Fin sizeof → Byte)} {k n : Nat} (ends : (elements option bigEndian sizeof).fate es k = .left n) :
    n = 0 ∨ ((elements option bigEndian sizeof).encode es).length + n = k := by
  obtain ⟨m,sized,content⟩ := fateAndThenLeft ends
  have first := sizeFateLeft bigEndian sized
  have second := contentFateLeft content
  have length := elementsLength option bigEndian es
  cases kind : option.elementType with
  | none =>
    simp only [SerializableSizeOptionArea.announced,kind] at second
    simp only [SerializableSizeOptionArea.lengthPrefix,kind,List.length_nil] at first length
    rcases Nat.lt_trichotomy sizeof.val 1 with zero | one | more
    · have empty : k * sizeof = 0 := Nat.mul_eq_zero.mpr (.inr (Nat.lt_one_iff.mp zero))
      have none : option.counted es.length * sizeof = 0 :=
        Nat.mul_eq_zero.mpr (.inr (Nat.lt_one_iff.mp zero))
      exact .inr (by omega)
    · rw [one] at second
      exact .inl (by omega)
    · have twice : k * 2 ≤ k * sizeof := Nat.mul_le_mul_left k more
      exact .inl (by omega)
  | some type =>
    rw [announcedCounted kind] at second
    exact .inr (by omega)

theorem fateLeft (t : PacketType) : ∀ (v : t.Value) {k n : Nat}, t.fate v k = .left n →
    n = 0 ∨ (t.encode v).length + n = k := by
  induction t with
  | property type bigEndian =>
    intro v k n ends
    refine .inr ?_
    rw [← contentFateLeft ends]
    exact congrArg (· + n) (type.toBytesLength bigEndian v)
  | elements option bigEndian sizeof =>
    exact fun es _ _ ends => elementsFateLeft ends
  | vector option bigEndian member law =>
    intro vs k n ends
    obtain ⟨m,sized,content⟩ := fateAndThenLeft ends
    have first := sizeFateLeft bigEndian sized
    have second := eachFateLeft law content
    have length : ((vector option bigEndian member).encode vs).length =
        (option.1.lengthPrefix bigEndian vs.length).length +
          ((vs.take (option.1.counted vs.length)).map (fun v => (member.encode v).length)).sum := by
      refine List.length_append.trans ?_
      rw [List.length_flatMap]
    omega
  | nil =>
    intro v k n ends
    cases ends
    exact .inr (Nat.zero_add _)
  | cons first rest one two =>
    rintro ⟨v,vs⟩ k n ends
    obtain ⟨m,here,later⟩ := fateAndThenLeft ends
    have length : ((cons first rest).encode (v,vs)).length =
      (first.encode v).length + (rest.encode vs).length := List.length_append
    rw [length]
    have := one v here
    have := two vs later
    omega
  | choose type rest law =>
    rintro ⟨number,v⟩ k n ends
    obtain ⟨m,here,later⟩ := fateAndThenLeft ends
    rw [chooseLength rest number v]
    have := contentFateLeft here
    have := law number v later
    omega

theorem andThenLeft (fate : Fate) : fate.andThen .left = fate := by cases fate <;> rfl

theorem Meets.pack {α β : Type} {f : Reading α} {pack : α → β} {r bytes good fate}
    (contained : r.Contained) (tame : Tame f) (meets : Meets f r bytes good fate) :
    Meets (f.andThen (fun a => done (pack a))) r bytes (fun _ => True) fate := by
  rw [← andThenLeft fate]
  refine meets.andThen contained tame (fun _ _ _ _ _ => tameDone _) (fun a n r' _ _ _ _ left length => ?_)
  have ends : Meets (done (pack a)) r' _ (fun _ => True) _ := meetsDone (pack a) left trivial
  rw [length] at ends
  exact ends

def Follows (t : PacketType) (v : t.Value) : Prop :=
  ∀ r bytes, r.Contained → At r bytes → Agree bytes (t.encode v) →
    Meets t.read r bytes (fun _ => True) (t.fate v bytes.length)

theorem meetsEach {member : PacketType} {vs : List member.Value}
    (law : ∀ v, member.Follows v) {r : ByteReader} {bytes : List Byte} (contained : r.Contained)
    (left : At r bytes) (agree : Agree bytes (vs.flatMap (fun v => member.encode v))) :
    Meets (each member.read vs.length) r bytes (fun _ => True)
      (eachFate (fun v => member.fate v) vs bytes.length) := by
  induction vs generalizing r bytes with
  | nil => exact meetsDone [] left trivial
  | cons v vs ih =>
    rw [List.flatMap_cons] at agree
    refine Meets.andThen contained (tamePacket member) (fun a _ _ _ _ => ?_)
      (law v r bytes contained left agree.left) (fun a n r' ends _ _ inside left' length => ?_)
    · exact (tameEach (tamePacket member) vs.length).andThen (fun _ _ _ _ _ => tameDone _)
    · have later := ih inside left' (agree.right (member.fateLeft v ends))
      rw [length] at later
      exact Meets.pack inside (tameEach (tamePacket member) vs.length) later

theorem followsElements {sizeof : Fin (2^16)}
    (es : List (Fin sizeof → Byte)) : (elements option bigEndian sizeof).Follows es := by
  intro r bytes contained left agree
  refine Meets.andThen contained SerializableSizeOptionArea.tameRead
    (fun size r r' contained found =>
      (tameContent (SerializableSizeOptionArea.readBounded contained found)).2)
    (meetsSize contained left agree) (fun size n r' _ found announced inside left' length => ?_)
  have bounded := SerializableSizeOptionArea.readBounded contained found
  have narrow := (@tameContent sizeof size bounded).1
  rw [← announced]
  split
  · rename_i none
    have ends : Meets (done []) r' _ (fun _ : List (Fin sizeof → Byte) => True) _ :=
      meetsDone [] left' trivial
    rw [none,Nat.zero_mul,contentFate,if_neg (Nat.not_lt_zero n),Nat.sub_zero]
    rw [length] at ends
    exact ends
  · have ends := meetsField inside left' narrow
    rw [length] at ends
    rw [Nat.mod_eq_of_lt (Nat.lt_trans narrow (by decide))]
    exact Meets.pack inside (tameField narrow) ends

theorem follows (t : PacketType) : ∀ v : t.Value, t.Follows v := by
  induction t with
  | property type bigEndian =>
    intro v r bytes contained left agree
    have small : type.sizeof < 2^63 := by cases type <;> decide
    exact Meets.pack contained (tameField small) (meetsField contained left small)
  | elements option bigEndian sizeof => exact followsElements
  | vector option bigEndian member law =>
    intro vs r bytes contained left agree
    refine Meets.andThen contained SerializableSizeOptionArea.tameRead
      (fun size _ _ _ _ => tameEach (tamePacket member) size) (meetsSize contained left agree)
      (fun size n r' ends _ announced inside left' length => ?_)
    obtain ⟨type,prefixed⟩ := Option.ne_none_iff_exists'.mp option.2
    rw [announcedCounted prefixed] at announced
    have counted := takeCounted option.1 (vs : List member.Value)
    have later := meetsEach law inside left' (agree.right (.inr (sizeFateLeft bigEndian ends)))
    rw [length,counted] at later
    rw [announced]
    exact later
  | nil => exact fun v r bytes contained left agree => meetsDone () left trivial
  | cons first rest one two =>
    rintro ⟨v,vs⟩ r bytes contained left agree
    have agree : Agree bytes (first.encode v ++ rest.encode vs) := agree
    refine Meets.andThen contained (tamePacket first) (fun _ _ _ _ _ =>
      (tamePacket rest).andThen (fun _ _ _ _ _ => tameDone _)) (one v r bytes contained left agree.left)
      (fun a n r' ends _ _ inside left' length => ?_)
    have later := two vs r' _ inside left' (agree.right (first.fateLeft v ends))
    rw [length] at later
    exact Meets.pack inside (tamePacket rest) later
  | choose type rest law =>
    rintro ⟨number,v⟩ r bytes contained left agree
    have agree : Agree bytes (type.toBytes false number ++ (rest number).encode v) := agree
    have small : type.sizeof < 2^63 := by cases type <;> decide
    refine Meets.andThen contained (tameField small) (fun bytes _ _ _ _ =>
      (tamePacket _).andThen (fun _ _ _ _ _ => tameDone _)) (meetsField contained left small)
      (fun got n r' ends _ same inside left' length => ?_)
    have enough := contentFateLeft ends
    have start := agree.take (by rw [Primitive.toBytesLength]; omega)
    rw [Primitive.toBytesLength] at start
    have later := law number v r' _ inside left' (agree.right (.inr (by
      rw [Primitive.toBytesLength]
      exact enough)))
    rw [length] at later
    rw [same,start,type.ofBytesToBytes false number]
    exact Meets.pack inside (tamePacket (rest number)) later

theorem sizeRoomy {n size : Nat} {w w' : ByteWriter} (written : option.write bigEndian n w = some (size,w'))
    (roomy : (option.lengthPrefix bigEndian n).length ≤ w.room) :
    w' = { w with m_data := w.m_data ++ option.lengthPrefix bigEndian n } ∧ size = option.counted n := by
  unfold SerializableSizeOptionArea.write at written
  unfold SerializableSizeOptionArea.lengthPrefix at roomy ⊢
  unfold SerializableSizeOptionArea.counted
  split at written
  · cases kind : option.elementType with
    | none =>
      simp only [kind] at written
      cases written
      exact ⟨by rw [List.append_nil],rfl⟩
    | some type =>
      simp only [kind] at written roomy
      have positive : 0 < type.sizeof := by cases type <;> decide
      rw [LittleEndian.bytesLength] at roomy
      unfold ByteWriter.room at roomy
      unfold ByteWriter.Field ByteWriter.CanWrite at written
      rw [LittleEndian.bytesLength,if_pos (decide_eq_true (by omega))] at written
      cases written
      exact ⟨rfl,rfl⟩
  · contradiction

theorem writeEachRoomy {member : PacketType}
    (law : ∀ v w w', member.write v w = some w' → (member.encode v).length ≤ w.room →
      w' = { w with m_data := w.m_data ++ member.encode v }) {vs : List member.Value} {w w' : ByteWriter}
    (written : vs.foldlM (fun w v => member.write v w) w = some w')
    (roomy : (vs.flatMap (fun v => member.encode v)).length ≤ w.room) :
    w' = { w with m_data := w.m_data ++ vs.flatMap (fun v => member.encode v) } := by
  induction vs generalizing w with
  | nil =>
    cases written
    rw [List.flatMap_nil,List.append_nil]
  | cons v vs ih =>
    rw [List.foldlM_cons] at written
    obtain ⟨w₁,here,later⟩ := Option.bind_eq_some_iff.mp written
    rw [List.flatMap_cons,List.length_append] at roomy
    have data := law v w w₁ here (by omega)
    have data' := ih later (by rw [data,roomAppend]; omega)
    rw [data',data,List.flatMap_cons,List.append_assoc]

theorem writeRoomy (t : PacketType) : ∀ (v : t.Value) (w w' : ByteWriter), t.write v w = some w' →
    (t.encode v).length ≤ w.room → w' = { w with m_data := w.m_data ++ t.encode v } := by
  induction t with
  | property type bigEndian => exact fun _ _ _ written _ => (ByteWriter.fieldSome written).1
  | elements option bigEndian sizeof =>
    intro es w w' written roomy
    obtain ⟨⟨size,w₁⟩,first,second⟩ := Option.bind_eq_some_iff.mp written
    have roomy : (option.lengthPrefix bigEndian es.length ++
      memory (es.take (option.counted es.length))).length ≤ w.room := roomy
    rw [List.length_append] at roomy
    obtain ⟨data,counted⟩ := sizeRoomy first (by omega)
    have content := (contentWritten second).1
    rw [content,data,counted,List.append_assoc]
    rfl
  | vector option bigEndian member law =>
    intro vs w w' written roomy
    obtain ⟨⟨size,w₁⟩,first,second⟩ := Option.bind_eq_some_iff.mp written
    have roomy : (option.1.lengthPrefix bigEndian vs.length ++
      (vs.take (option.1.counted vs.length)).flatMap (fun v => member.encode v)).length ≤ w.room := roomy
    rw [List.length_append] at roomy
    obtain ⟨data,counted⟩ := sizeRoomy first (by omega)
    rw [counted] at second
    have content := writeEachRoomy law second (by rw [data,roomAppend]; omega)
    rw [content,data,List.append_assoc]
    rfl
  | nil =>
    intro v w w' written _
    cases written
    exact congrArg (ByteWriter.mk w.m_capacity) (List.append_nil w.m_data).symm
  | cons first rest one two =>
    rintro ⟨v,vs⟩ w w' written roomy
    obtain ⟨w₁,here,later⟩ := Option.bind_eq_some_iff.mp written
    have roomy : (first.encode v ++ rest.encode vs).length ≤ w.room := roomy
    rw [List.length_append] at roomy
    have data := one v w w₁ here (by omega)
    have data' := two vs w₁ w' later (by rw [data,roomAppend]; omega)
    rw [data',data,List.append_assoc]
    rfl
  | choose type rest law =>
    rintro ⟨number,v⟩ w w' written roomy
    obtain ⟨w₁,here,later⟩ := Option.bind_eq_some_iff.mp written
    have roomy : (type.toBytes false number ++ (rest number).encode v).length ≤ w.room := roomy
    rw [List.length_append] at roomy
    have data := (ByteWriter.fieldSome here).1
    have data' := law number v w₁ w' later (by rw [data,roomAppend]; omega)
    rw [data',data,List.append_assoc]
    rfl

theorem truncationRejected (t : PacketType) (v : t.Value) (capacity : Fin maxObject) {w : ByteWriter}
    (written : t.write v ⟨capacity,[]⟩ = some w) (roomy : (t.encode v).length ≤ capacity)
    {input : List Byte} (cut : input <+: w.m_data) : t.RejectsTruncated v input ↔ t.EndsCleanly v input.length := by
  have data : w.m_data = t.encode v := by
    rw [writeRoomy t v _ _ written roomy]
    rfl
  rw [data] at cut
  have short : input.length < maxObject :=
    Nat.lt_of_le_of_lt (Nat.le_trans cut.length_le roomy) capacity.isLt
  have contained : ∀ garbage, (ByteReader.ofData input garbage).Contained := fun garbage =>
    ⟨short,Nat.zero_le _,fun p mem => absurd mem List.not_mem_nil⟩
  have meets : ∀ garbage, Meets t.read (.ofData input garbage) input (fun _ => True)
      (t.fate v input.length) := fun garbage =>
    follows t v _ input (contained garbage) (ByteReader.atOfData ..) (.inl cut)
  have inside : ∀ garbage, ∀ p ∈ (t.read (.ofData input garbage)).2.reads,
      p.1 + p.2 ≤ input.length := by
    intro garbage p mem
    obtain ⟨next,data,_⟩ := tamePacket t _ (contained garbage)
    have bound := next.reads p mem
    rw [data] at bound
    exact bound
  unfold EndsCleanly
  cases ends : t.fate v input.length with
  | starved =>
    rw [ends] at meets
    refine ⟨fun rejects => ?_,fun impossible => impossible.elim⟩
    have used := meets (fun _ => 0)
    rw [Meets,(rejects (fun _ => 0)).2.1] at used
    contradiction
  | refused =>
    rw [ends] at meets
    refine ⟨fun _ => trivial,fun _ garbage => ⟨?_,(meets garbage).2,inside garbage⟩⟩
    rintro ⟨a,found⟩
    exact absurd found ((meets garbage).1 a)
  | left n =>
    rw [ends] at meets
    constructor
    · intro rejects
      obtain ⟨_,a,r,found,_⟩ := meets (fun _ => 0)
      exact (rejects (fun _ => 0)).1 ⟨a,congrArg Prod.fst found⟩
    · intro absorbs garbage
      obtain ⟨_,a,r,found,_,initialised,_⟩ := meets garbage
      refine ⟨fun _ => absorbs,?_,inside garbage⟩
      rw [found]
      exact initialised

theorem truncationRejectedOnce : ClientGameStateAck.RejectsTruncated oneIgnored [5,0,0,0,0,0,0,0,1,7,7] :=
  (truncationRejected ClientGameStateAck oneIgnored 1200 rfl (by decide)
    ⟨[7,7,7,7,7,7,7,7,0],rfl⟩).mpr trivial

def nothingIgnored : ClientGameStateAck.Value := ((⟨5,by decide⟩ : Fin (256^8)),[],[],())

theorem truncatedAccepted :
    ¬∀ (t : PacketType) (v : t.Value) (capacity : Fin maxObject) (w : ByteWriter) (input : List Byte),
      t.write v ⟨capacity,[]⟩ = some w → (t.encode v).length ≤ capacity → input <+: w.m_data →
        input.length < w.m_data.length → t.RejectsTruncated v input := by
  intro all
  have rejects := all ClientGameStateAck nothingIgnored 1200 _ [5,0,0,0,0,0,0,0] rfl (by decide)
    ⟨[0,0],rfl⟩ (by decide)
  exact absurd (rejects (fun _ => 0)).2.1 (by decide)

end PacketType
end Citizen.Net
