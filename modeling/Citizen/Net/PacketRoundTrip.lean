import Citizen.Net.PacketTypes

/-! When a packet that a `ByteWriter` took is read back by a `ByteReader`. -/
namespace Citizen.Net
open BitField (Byte)
open ByteReader (At Moved)

theorem inOrderSmall {bigEndian : Bool} {sizeof n : Nat} (small : n < 256 ^ sizeof) :
    inOrder bigEndian sizeof n < 256 ^ sizeof := by
  unfold inOrder
  split
  · exact htonSmall small
  · exact small

theorem inOrderTwice {bigEndian : Bool} {sizeof n : Nat} (small : n < 256 ^ sizeof) :
    inOrder bigEndian sizeof (inOrder bigEndian sizeof n) = n := by
  unfold inOrder
  split
  · exact htonTwice small
  · rfl

theorem Primitive.rangeFits (type : Primitive) : type.range ≤ 256 ^ type.sizeof := by
  cases type <;> decide

@[simp] theorem Primitive.toBytesLength (type : Primitive) (bigEndian : Bool) (number) :
    (type.toBytes bigEndian number).length = type.sizeof := LittleEndian.bytesLength ..

theorem Primitive.ofBytesToBytes (type : Primitive) (bigEndian : Bool) (number : Fin type.range) :
    type.ofBytes bigEndian (type.toBytes bigEndian number) = number := by
  have small := Nat.lt_of_lt_of_le number.isLt type.rangeFits
  apply Fin.ext
  unfold Primitive.ofBytes Primitive.toBytes
  dsimp only
  rw [LittleEndian.valueBytesSmall (inOrderSmall small),inOrderTwice small,Nat.mod_eq_of_lt number.isLt]

namespace PacketType

theorem memoryLength {sizeof : Nat} (es : List (Fin sizeof → Byte)) : (memory es).length = es.length * sizeof := by
  induction es with
  | nil => simp [memory]
  | cons e es ih =>
    rw [memory,List.flatMap_cons,List.length_append,List.length_ofFn,← memory,ih,List.length_cons,
      Nat.succ_mul,Nat.add_comm]

theorem ofMemoryMemory {sizeof : Nat} (es : List (Fin sizeof → Byte)) :
    ofMemory sizeof es.length (memory es) = es := by
  induction es with
  | nil => rfl
  | cons e es ih =>
    have here : memory (e :: es) = List.ofFn e ++ memory es := rfl
    have drop : (List.ofFn e ++ memory es).drop sizeof = memory es := by
      rw [List.drop_append_of_le_length (by simp),List.drop_eq_nil_of_le (by simp),List.nil_append]
    rw [List.length_cons,ofMemory,here,drop,ih]
    congr 1
    funext i
    simp [List.getD_eq_getElem?_getD,List.getElem?_append_left]

theorem ofMemoryLength (sizeof n : Nat) (bytes : List Byte) : (ofMemory sizeof n bytes).length = n := by
  induction n generalizing bytes with
  | zero => rfl
  | succ n ih => rw [ofMemory,List.length_cons,ih]

end PacketType

def Returns {α : Type} (f : Reading α) (v : α) (bytes : List Byte) (after : Nat) : Prop :=
  ∀ r suffix, r.m_data.length < maxObject → At r (bytes ++ suffix) → suffix.length = after →
    ∃ r', f r = (.success v,r') ∧ Moved r r' bytes.length

def Misses {α : Type} (f : Reading α) (v : α) (bytes : List Byte) (after : Nat) : Prop :=
  ∃ g, ∀ r suffix, r.m_data.length < maxObject → At r (bytes ++ suffix) → suffix.length = after →
    r.garbage = (fun _ => g) → ∀ r', f r ≠ (.success v,r')

section
variable {α β : Type}
open Reading

theorem returnsDone (v : α) (after : Nat) : Returns (done v) v [] after :=
  fun r _ _ _ _ => ⟨r,rfl,.refl r⟩

theorem returnsField (bytes : List Byte) (after : Nat) : Returns (field bytes.length) bytes bytes after := by
  intro r suffix addressable left _
  obtain ⟨r',found,moved⟩ := left.field addressable
  exact ⟨r',by rw [field,found],moved⟩

theorem Returns.andThen {first : Reading α} {next : α → Reading β} {v v' bytes bytes' after}
    (one : Returns first v bytes (bytes'.length + after)) (two : Returns (next v) v' bytes' after) :
    Returns (first.andThen next) v' (bytes ++ bytes') after := by
  intro r suffix addressable left length
  rw [List.append_assoc] at left
  obtain ⟨r₁,found,moved⟩ := one r (bytes' ++ suffix) addressable left (by rw [List.length_append,length])
  obtain ⟨r₂,found',moved'⟩ := two r₁ suffix (by rw [moved.data]; exact addressable)
    (left.moved moved) length
  refine ⟨r₂,by rw [Reading.andThen,found]; exact found',?_⟩
  rw [List.length_append]
  exact moved.trans moved'

theorem Misses.first {first : Reading α} {next : α → Reading β} {v v' bytes bytes' after}
    (one : Misses first v bytes (bytes'.length + after)) (only : ∀ a r r', next a r = (.success v',r') → a = v) :
    Misses (first.andThen next) v' (bytes ++ bytes') after := by
  obtain ⟨g,one⟩ := one
  refine ⟨g,fun r suffix addressable left length unknown r' found => ?_⟩
  rw [List.append_assoc] at left
  have never := one r (bytes' ++ suffix) addressable left (by rw [List.length_append,length]) unknown
  unfold Reading.andThen at found
  split at found
  · rename_i a r₁ here
    rw [only a r₁ r' found] at here
    exact never r₁ here
  · cases congrArg Prod.fst found
  · cases congrArg Prod.fst found

theorem Misses.second {first : Reading α} {next : α → Reading β} {v v' bytes bytes' after}
    (one : Returns first v bytes (bytes'.length + after)) (two : Misses (next v) v' bytes' after) :
    Misses (first.andThen next) v' (bytes ++ bytes') after := by
  obtain ⟨g,two⟩ := two
  refine ⟨g,fun r suffix addressable left length unknown r' found => ?_⟩
  rw [List.append_assoc] at left
  obtain ⟨r₁,here,moved⟩ := one r (bytes' ++ suffix) addressable left (by rw [List.length_append,length])
  rw [Reading.andThen,here] at found
  exact two r₁ suffix (by rw [moved.data]; exact addressable) (left.moved moved) length
    (by rw [moved.garbage,unknown]) r' found

theorem andThenDone {first : Reading α} {pack : α → β} {r r' v}
    (found : first.andThen (fun a => done (pack a)) r = (.success v,r')) :
    ∃ a, first r = (.success a,r') ∧ pack a = v := by
  unfold Reading.andThen at found
  split at found
  · rename_i a r₁ here
    cases found
    exact ⟨a,here,rfl⟩
  · cases congrArg Prod.fst found
  · cases congrArg Prod.fst found

end

namespace SerializableSizeOptionArea

def lengthPrefix (option : SerializableSizeOptionArea) (bigEndian : Bool) (n : Nat) : List Byte :=
  match option.elementType with
  | none => []
  | some type =>
    LittleEndian.bytes type.sizeof (inOrder bigEndian type.sizeof (n % 256 ^ type.sizeof))

def counted (option : SerializableSizeOptionArea) (n : Nat) : Nat :=
  match option.elementType with
  | none => n
  | some type => n % 256 ^ type.sizeof

def Arrives (option : SerializableSizeOptionArea) (n room rest : Nat) : Prop :=
  match option.elementType with
  | none => rest = n
  | some type => type.sizeof ≤ room ∧ n < 256 ^ type.sizeof

variable {option : SerializableSizeOptionArea} {bigEndian : Bool} {n : Nat}

theorem readValid {r r' : ByteReader} (got : option.received bigEndian r = (n,r'))
    (valid : option.ValidateSize n) : option.read bigEndian r = (.success n,r') := by
  unfold read
  rw [got]
  exact if_pos valid

theorem readOther {r : ByteReader} (other : (option.received bigEndian r).1 ≠ n) (r') :
    option.read bigEndian r ≠ (.success n,r') := by
  intro found
  unfold read at found
  dsimp only at found
  split at found
  · exact other (Processed.success.inj (congrArg Prod.fst found))
  · cases congrArg Prod.fst found

theorem receivedPrefix (bigEndian : Bool) {type : ElementType} {r : ByteReader} {bytes suffix}
    (prefixed : option.elementType = some type) (length : bytes.length = type.sizeof)
    (addressable : r.m_data.length < maxObject) (left : At r (bytes ++ suffix)) : ∃ r', option.received bigEndian r =
      (inOrder bigEndian type.sizeof (LittleEndian.value bytes),r') ∧ Moved r r' bytes.length := by
  obtain ⟨r',found,moved⟩ := left.field addressable
  rw [length] at found
  refine ⟨r',?_,moved⟩
  simp only [received,prefixed,found]

theorem receivedShort (bigEndian : Bool) {type : ElementType} {r : ByteReader} {bytes}
    (prefixed : option.elementType = some type) (short : bytes.length < type.sizeof)
    (addressable : r.m_data.length < maxObject) (left : At r bytes) : option.received bigEndian r =
      (inOrder bigEndian type.sizeof (r.takeGarbage.1 % 256 ^ type.sizeof),r.takeGarbage.2) := by
  have width : type.sizeof ≤ 4 := by cases type <;> decide
  have missing : r.Field type.sizeof = none :=
    left.short short (by unfold maxObject at addressable; omega)
  simp only [received,prefixed,missing]

structure Written (option : SerializableSizeOptionArea) (bigEndian : Bool) (n : Nat) (w w' : ByteWriter)
    (size : Nat) (bytes : List Byte) : Prop where
  data : w' = { w with m_data := w.m_data ++ bytes }
  fits : bytes.length ≤ w.room
  counts : size = option.counted n
  arrives : ∀ rest, option.Arrives n w.room rest →
    bytes = option.lengthPrefix bigEndian n ∧ size = n ∧ Returns (option.read bigEndian) n bytes rest
  lost : ∀ rest, ¬option.Arrives n w.room rest → bytes.length + rest ≤ w.room →
    Misses (option.read bigEndian) n bytes rest

theorem writtenTail {w : ByteWriter} (tail : option.elementType = none)
    (valid : option.ValidateSize n) : Written option bigEndian n w w n [] := by
  have received : ∀ {r : ByteReader} {bytes}, At r bytes →
      option.received bigEndian r = (bytes.length,r) := by
    intro r bytes left
    simp only [received,tail,left.remaining]
  refine ⟨by rw [List.append_nil],Nat.zero_le _,by simp only [counted,tail],?_,?_⟩
  · intro rest arrives
    simp only [Arrives,tail] at arrives
    subst arrives
    refine ⟨by simp only [lengthPrefix,tail],rfl,fun r suffix _ left length => ?_⟩
    refine ⟨r,readValid ?_ valid,.refl r⟩
    rw [received left,List.nil_append,length]
  · intro rest lost _
    simp only [Arrives,tail] at lost
    refine ⟨0,fun r suffix _ left length _ => readOther ?_⟩
    rw [received left,List.nil_append,length]
    exact lost

theorem writtenPrefix {type : ElementType} {w w' : ByteWriter} {bytes : List Byte}
    (prefixed : option.elementType = some type) (valid : option.ValidateSize n)
    (encoded : bytes = option.lengthPrefix bigEndian n) (field : w.Field bytes = some w') :
    Written option bigEndian n w w' (option.counted n) bytes := by
  obtain ⟨data,fits⟩ := ByteWriter.fieldSome field
  simp only [lengthPrefix,prefixed] at encoded
  have length : bytes.length = type.sizeof := by rw [encoded,LittleEndian.bytesLength]
  have positive : 0 < 256 ^ type.sizeof := Nat.pow_pos (by decide)
  have small : n % 256 ^ type.sizeof < 256 ^ type.sizeof := Nat.mod_lt _ positive
  have value : inOrder bigEndian type.sizeof (LittleEndian.value bytes) = n % 256 ^ type.sizeof := by
    rw [encoded,LittleEndian.valueBytesSmall (inOrderSmall small),inOrderTwice small]
  refine ⟨data,fits,rfl,fun rest arrives => ?_,fun rest lost _ => ?_⟩
  · simp only [Arrives,prefixed] at arrives
    refine ⟨by simp only [lengthPrefix,prefixed]; exact encoded,?_,fun r suffix addressable left _ => ?_⟩
    · simp only [counted,prefixed]
      exact Nat.mod_eq_of_lt arrives.2
    · obtain ⟨r',got,moved⟩ := receivedPrefix bigEndian prefixed length addressable left
      rw [value,Nat.mod_eq_of_lt arrives.2] at got
      exact ⟨r',readValid got valid,moved⟩
  · simp only [Arrives,prefixed,not_and] at lost
    have long := lost (by omega)
    refine ⟨0,fun r suffix addressable left _ _ => readOther ?_⟩
    obtain ⟨r',got,_⟩ := receivedPrefix bigEndian prefixed length addressable left
    rw [got,value]
    omega

theorem writtenNothing {type : ElementType} {w : ByteWriter} (prefixed : option.elementType = some type)
    (field : w.Field (option.lengthPrefix bigEndian n) = none) :
    Written option bigEndian n w w (option.counted n) [] := by
  have narrow : w.room < type.sizeof := by
    simp only [lengthPrefix,prefixed] at field
    unfold ByteWriter.Field ByteWriter.CanWrite at field
    rw [LittleEndian.bytesLength] at field
    have width : 0 < type.sizeof := by cases type <;> decide
    split at field
    · contradiction
    · rename_i full
      simp only [decide_eq_true_eq] at full
      unfold ByteWriter.room
      omega
  refine ⟨by rw [List.append_nil],Nat.zero_le _,rfl,fun rest arrives => ?_,fun rest _ fits => ?_⟩
  · simp only [Arrives,prefixed] at arrives
    omega
  · -- A size other than `n` may be what is not initialised.
    let other := if n = 0 then 1 else 0
    have small : other < 256 ^ type.sizeof := by
      have one : 1 < 256 ^ type.sizeof := by cases type <;> decide
      unfold other
      split <;> omega
    refine ⟨inOrder bigEndian type.sizeof other,fun r suffix addressable left length unknown =>
      readOther ?_⟩
    rw [List.nil_append] at left
    rw [List.length_nil] at fits
    rw [receivedShort bigEndian prefixed (by omega) addressable left]
    unfold ByteReader.takeGarbage
    dsimp only
    rw [unknown,Nat.mod_eq_of_lt (inOrderSmall small),inOrderTwice small]
    unfold other
    split <;> omega

theorem writeWritten {w w' : ByteWriter} {size : Nat} (written : option.write bigEndian n w = some (size,w')) :
    option.ValidateSize n ∧ ∃ bytes, Written option bigEndian n w w' size bytes := by
  unfold write at written
  split at written
  · rename_i valid
    refine ⟨valid,?_⟩
    cases kind : option.elementType with
    | none =>
      simp only [kind] at written
      cases written
      exact ⟨[],writtenTail kind valid⟩
    | some type =>
      simp only [kind] at written
      have count : n % 256 ^ type.sizeof = option.counted n := by simp only [counted,kind]
      have bytes : LittleEndian.bytes type.sizeof (inOrder bigEndian type.sizeof
          (n % 256 ^ type.sizeof)) = option.lengthPrefix bigEndian n := by
        simp only [lengthPrefix,kind]
      rw [bytes,count] at written
      cases field : w.Field (option.lengthPrefix bigEndian n) with
      | none =>
        rw [field] at written
        cases written
        exact ⟨[],writtenNothing kind field⟩
      | some w' =>
        rw [field] at written
        cases written
        exact ⟨_,writtenPrefix kind valid rfl field⟩
  · contradiction

end SerializableSizeOptionArea
namespace PacketType
open Reading

def encode : (t : PacketType) → t.Value → List Byte
  | property type bigEndian,number => type.toBytes bigEndian number
  | elements option bigEndian _,(es : List (Fin _ → Byte)) =>
    option.lengthPrefix bigEndian es.length ++ memory (es.take (option.counted es.length))
  | vector option bigEndian member,(vs : List member.Value) =>
    option.1.lengthPrefix bigEndian vs.length ++
      (vs.take (option.1.counted vs.length)).flatMap (fun v => encode member v)
  | nil,_ => []
  | cons first rest,(v,vs) => encode first v ++ encode rest vs
  | choose type rest,⟨number,v⟩ => type.toBytes false number ++ encode (rest number) v

def soundEach {α : Type} (sound : α → Nat → Nat → Prop) (size : α → Nat) : List α → Nat → Nat → Prop
  | [],_,_ => True
  | v :: vs,room,after =>
    sound v room ((vs.map size).sum + after) ∧ soundEach sound size vs (room - size v) after

/-- Every size prefix fits in what is left of the buffer and can count its elements, and where a
size is what remains of the stream, as many bytes remain as there are elements. -/
def Sound : (t : PacketType) → t.Value → Nat → Nat → Prop
  | property _ _,_,_,_ => True
  | elements option _ _,(es : List (Fin _ → Byte)),room,after =>
    option.Arrives es.length room ((memory es).length + after)
  | vector option bigEndian member,(vs : List member.Value),room,after =>
    option.1.Arrives vs.length room ((vs.map (fun v => (encode member v).length)).sum + after) ∧
      soundEach (fun v => Sound member v) (fun v => (encode member v).length) vs
        (room - (option.1.lengthPrefix bigEndian vs.length).length) after
  | nil,_,_,_ => True
  | cons first rest,(v,vs),room,after =>
    Sound first v room ((encode rest vs).length + after) ∧
      Sound rest vs (room - (encode first v).length) after
  | choose type rest,⟨number,v⟩,room,after => Sound (rest number) v (room - type.sizeof) after

def Representable : (t : PacketType) → t.Value → Prop
  | property _ _,_ => True
  | elements option _ _,(es : List (Fin _ → Byte)) => option.counted es.length = es.length
  | vector option _ member,(vs : List member.Value) =>
    option.1.counted vs.length = vs.length ∧ ∀ v ∈ vs, Representable member v
  | nil,_ => True
  | cons first rest,(v,vs) => Representable first v ∧ Representable rest vs
  | choose _ rest,⟨number,v⟩ => Representable (rest number) v

def ReadsBack (t : PacketType) (v : t.Value) (data : List Byte) : Prop :=
  ∀ garbage, ∃ r, t.read (.ofData data garbage) = (.success v,r) ∧ r.m_offset = data.length

structure Law {α : Type} (sound : Nat → Prop) (encoded : List Byte) (f : Reading α) (v : α)
    (w w' : ByteWriter) (bytes : List Byte) : Prop where
  data : w' = { w with m_data := w.m_data ++ bytes }
  fits : bytes.length ≤ w.room
  kept : ∀ after, sound after → bytes = encoded ∧ Returns f v bytes after
  lost : ∀ after, ¬sound after → bytes.length + after ≤ w.room → Misses f v bytes after

theorem roomAppend {w : ByteWriter} {bytes : List Byte} :
    ({ w with m_data := w.m_data ++ bytes } : ByteWriter).room = w.room - bytes.length := by
  unfold ByteWriter.room
  dsimp only
  rw [List.length_append]
  omega

section
variable {α β : Type}

theorem Law.andThen {sound : Nat → Prop} {encoded : List Byte} {first : Reading α} {v : α}
    {sound' : Nat → Prop} {encoded' : List Byte} {next : α → Reading β} {v' : β}
    {w w₁ w₂ : ByteWriter} {bytes bytes' : List Byte}
    (one : Law sound encoded first v w w₁ bytes) (two : Law sound' encoded' (next v) v' w₁ w₂ bytes')
    (only : ∀ after, ¬sound after → ∀ a r r', next a r = (.success v',r') → a = v)
    {both : Nat → Prop} (parts : ∀ after, both after ↔ sound (encoded'.length + after) ∧ sound' after) :
    Law both (encoded ++ encoded') (first.andThen next) v' w w₂ (bytes ++ bytes') := by
  have room : w₁.room = w.room - bytes.length := by rw [one.data,roomAppend]
  have oneFits := one.fits
  have twoFits := two.fits
  refine ⟨?_,by rw [List.length_append]; omega,fun after holds => ?_,fun after fails fits => ?_⟩
  · rw [two.data,one.data,List.append_assoc]
  · obtain ⟨left,right⟩ := (parts after).mp holds
    obtain ⟨same',returns'⟩ := two.kept after right
    rw [← same'] at left
    obtain ⟨same,returns⟩ := one.kept _ left
    exact ⟨by rw [same,same'],returns.andThen returns'⟩
  · rw [List.length_append] at fits
    by_cases left : sound (bytes'.length + after)
    · have right : ¬sound' after := by
        intro right
        rw [(two.kept after right).1] at left
        exact fails ((parts after).mpr ⟨left,right⟩)
      exact Misses.second (one.kept _ left).2 (two.lost after right (by omega))
    · exact Misses.first (one.lost _ left (by omega)) (only _ left)

theorem lawField {value : List Byte} {w w' : ByteWriter} (field : w.Field value = some w') :
    Law (fun _ => True) value (Reading.field value.length) value w w' value := by
  obtain ⟨data,fits⟩ := ByteWriter.fieldSome field
  exact ⟨data,fits,fun after _ => ⟨rfl,returnsField value after⟩,
    fun after lost _ => absurd trivial lost⟩

theorem lawDone (v : α) (w : ByteWriter) : Law (fun _ => True) [] (done v) v w w [] :=
  ⟨by rw [List.append_nil],Nat.zero_le _,fun after _ => ⟨rfl,returnsDone v after⟩,
    fun after lost _ => absurd trivial lost⟩

theorem Law.pack {sound : Nat → Prop} {encoded : List Byte} {f : Reading α} {v : α} {w w' : ByteWriter}
    {bytes : List Byte} (pack : α → β) (law : Law sound encoded f v w w' bytes)
    (once : ∀ after, ¬sound after → ∀ a, pack a = pack v → a = v) :
    Law sound encoded (f.andThen (fun a => done (pack a))) (pack v) w w' bytes := by
  have whole : Law sound (encoded ++ []) (f.andThen (fun a => done (pack a))) (pack v) w w'
      (bytes ++ []) := by
    refine law.andThen (lawDone (pack v) w') (fun after lost a r r' found => ?_) (fun after => ?_)
    · exact once after lost a (Processed.success.inj (congrArg Prod.fst found))
    · rw [List.length_nil,Nat.zero_add,and_true]
  rw [List.append_nil,List.append_nil] at whole
  exact whole

end

theorem eachLength {α : Type} {element : Reading α} {n : Nat} {r r' : ByteReader} {vs : List α}
    (found : each element n r = (.success vs,r')) : vs.length = n := by
  induction n generalizing r r' vs with
  | zero =>
    cases found
    rfl
  | succ n ih =>
    unfold each at found
    rw [Reading.andThen] at found
    split at found
    · obtain ⟨rest,later,rfl⟩ := andThenDone found
      rw [List.length_cons,ih later]
    · cases congrArg Prod.fst found
    · cases congrArg Prod.fst found

theorem writeEachLaw {member : PacketType} (law : ∀ v w w', member.write v w = some w' →
      ∃ bytes, Law (member.Sound v w.room) (member.encode v) member.read v w w' bytes)
    {vs : List member.Value} {w w' : ByteWriter} (written : vs.foldlM (fun w v => member.write v w) w = some w') :
    ∃ bytes, Law (soundEach (fun v => member.Sound v) (fun v => (member.encode v).length) vs w.room)
      (vs.flatMap (fun v => member.encode v)) (each member.read vs.length) vs w w' bytes := by
  induction vs generalizing w with
  | nil =>
    cases written
    exact ⟨[],lawDone [] _⟩
  | cons v vs ih =>
    rw [List.foldlM_cons] at written
    obtain ⟨w₁,here,later⟩ := Option.bind_eq_some_iff.mp written
    obtain ⟨bytes,one⟩ := law v w w₁ here
    obtain ⟨bytes',rest⟩ := ih later
    have two := Law.pack (fun rest => v :: rest) rest (fun _ _ a same => (List.cons.inj same).2)
    rw [List.flatMap_cons]
    refine ⟨bytes ++ bytes',one.andThen two (fun _ _ a r r' found => ?_) (fun after => ?_)⟩
    · obtain ⟨_,_,same⟩ := andThenDone found
      exact (List.cons.inj same).1
    · have room : w₁.room = w.room - bytes.length := by rw [one.data,roomAppend]
      rw [soundEach,List.length_flatMap]
      constructor
      · rintro ⟨left,right⟩
        rw [room,(one.kept _ left).1]
        exact ⟨left,right⟩
      · rintro ⟨left,right⟩
        rw [room,(one.kept _ left).1] at right
        exact ⟨left,right⟩

theorem arrivesCounted {option : SerializableSizeOptionArea} {n room rest : Nat}
    (arrives : option.Arrives n room rest) : option.counted n = n := by
  unfold SerializableSizeOptionArea.Arrives at arrives
  unfold SerializableSizeOptionArea.counted
  cases kind : option.elementType with
  | none => rfl
  | some type =>
    rw [kind] at arrives
    exact Nat.mod_eq_of_lt arrives.2

theorem arrivesRest {option : SerializableSizeOptionArea} {n room rest rest' : Nat}
    (same : option.counted n = n → rest = rest') : option.Arrives n room rest ↔ option.Arrives n room rest' := by
  unfold SerializableSizeOptionArea.Arrives
  unfold SerializableSizeOptionArea.counted at same
  cases kind : option.elementType with
  | none =>
    rw [kind] at same
    rw [same rfl]
  | some type => exact Iff.rfl

theorem elementsReturn {sizeof : Fin (2^16)} (es : List (Fin sizeof → Byte)) (after : Nat)
    (fits : (memory es).length < maxObject) :
    Returns (if es.length = 0 then done [] else (field (es.length * sizeof % 2^64)).andThen
      (fun bytes => done (ofMemory sizeof es.length bytes))) es (memory es) after := by
  split
  · rename_i none
    rw [List.eq_nil_of_length_eq_zero none]
    exact returnsDone _ _
  · have length : es.length * sizeof % 2^64 = (memory es).length := by
      rw [memoryLength] at fits ⊢
      exact Nat.mod_eq_of_lt (by unfold maxObject at fits; omega)
    have last := returnsDone (ofMemory sizeof es.length (memory es)) after
    have back : Returns ((field (memory es).length).andThen
        (fun bytes => done (ofMemory sizeof es.length bytes))) _ (memory es ++ []) after :=
      (returnsField (memory es) _).andThen last
    rw [List.append_nil,ofMemoryMemory] at back
    rw [length]
    exact back

theorem contentWritten {sizeof size : Nat} {es : List (Fin sizeof → Byte)} {w w' : ByteWriter}
    (written : (if size = 0 then some w else w.Field (memory (es.take size))) = some w') :
    w' = { w with m_data := w.m_data ++ memory (es.take size) } ∧
      (memory (es.take size)).length ≤ w.room := by
  split at written
  · rename_i none
    cases written
    rw [none,List.take_zero]
    exact ⟨(by simp [memory]),Nat.zero_le _⟩
  · exact ByteWriter.fieldSome written

theorem elementsLaw {option : SerializableSizeOptionArea} {bigEndian : Bool} {sizeof : Fin (2^16)}
    {es : List (Fin sizeof → Byte)} {w w' : ByteWriter}
    (written : (elements option bigEndian sizeof).write es w = some w') :
    ∃ bytes, Law ((elements option bigEndian sizeof).Sound es w.room)
      ((elements option bigEndian sizeof).encode es) (elements option bigEndian sizeof).read es w w' bytes := by
  obtain ⟨⟨size,w₁⟩,first,second⟩ := Option.bind_eq_some_iff.mp written
  obtain ⟨_,bytes,sized⟩ := SerializableSizeOptionArea.writeWritten first
  obtain ⟨data,fits⟩ := contentWritten second
  have room : w₁.room = w.room - bytes.length := by rw [sized.data,roomAppend]
  have sizedFits := sized.fits
  have rest : ∀ after, option.Arrives es.length w.room ((memory (es.take size)).length + after) ↔
      option.Arrives es.length w.room ((memory es).length + after) := by
    refine fun after => arrivesRest (fun counted => ?_)
    rw [sized.counts,counted,List.take_length]
  refine ⟨bytes ++ memory (es.take size),?_,?_,fun after sound => ?_,fun after lost within => ?_⟩
  · rw [data,sized.data,List.append_assoc]
  · rw [List.length_append]
    omega
  · obtain ⟨same,whole,returns⟩ := sized.arrives _ ((rest after).mpr sound)
    refine ⟨by rw [same,sized.counts]; rfl,returns.andThen ?_⟩
    rw [whole,List.take_length] at fits ⊢
    refine elementsReturn es after (Nat.lt_of_le_of_lt fits ?_)
    unfold ByteWriter.room
    have := w₁.m_capacity.isLt
    omega
  · rw [List.length_append] at within
    refine Misses.first (sized.lost _ (fun arrives => lost ((rest after).mp arrives)) (by omega)) ?_
    intro a r r' found
    split at found
    · rename_i none
      cases found
      exact none
    · obtain ⟨_,_,same⟩ := andThenDone found
      rw [← same,ofMemoryLength]

theorem vectorLaw {option : PrefixedSizeOption} {bigEndian : Bool} {member : PacketType}
    (law : ∀ v w w', member.write v w = some w' →
      ∃ bytes, Law (member.Sound v w.room) (member.encode v) member.read v w w' bytes)
    {vs : List member.Value} {w w' : ByteWriter} (written : (vector option bigEndian member).write vs w = some w') :
    ∃ bytes, Law ((vector option bigEndian member).Sound vs w.room)
      ((vector option bigEndian member).encode vs) (vector option bigEndian member).read vs w w' bytes := by
  obtain ⟨⟨size,w₁⟩,first,second⟩ := Option.bind_eq_some_iff.mp written
  obtain ⟨_,bytes,sized⟩ := SerializableSizeOptionArea.writeWritten first
  obtain ⟨bytes',content⟩ := writeEachLaw law second
  have room : w₁.room = w.room - bytes.length := by rw [sized.data,roomAppend]
  have sizedFits := sized.fits
  have contentFits := content.fits
  have lengths : (vs.flatMap (fun v => member.encode v)).length =
      (vs.map (fun v => (member.encode v).length)).sum := List.length_flatMap
  refine ⟨bytes ++ bytes',?_,?_,fun after sound => ?_,fun after lost within => ?_⟩
  · rw [content.data,sized.data,List.append_assoc]
  · rw [List.length_append]
    omega
  · obtain ⟨arrives,members⟩ := sound
    obtain ⟨same,whole,returns⟩ := sized.arrives _ arrives
    have counted := arrivesCounted arrives
    rw [whole,List.take_length] at content
    rw [← same,← room] at members
    obtain ⟨same',returns'⟩ := content.kept after members
    rw [← lengths,← same'] at returns
    refine ⟨?_,returns.andThen returns'⟩
    have encoded : (vector option bigEndian member).encode vs =
        option.1.lengthPrefix bigEndian vs.length ++
          (vs.take (option.1.counted vs.length)).flatMap (fun v => member.encode v) := rfl
    rw [encoded,counted,List.take_length,same,same']
  · rw [List.length_append] at within
    by_cases arrives : option.1.Arrives vs.length w.room (bytes'.length + after)
    · obtain ⟨same,whole,returns⟩ := sized.arrives _ arrives
      rw [whole,List.take_length] at content
      refine Misses.second returns (content.lost after (fun members => ?_) (by omega))
      rw [(content.kept after members).1,lengths] at arrives
      rw [room,same] at members
      exact lost ⟨arrives,members⟩
    · exact Misses.first (sized.lost _ arrives (by omega)) (fun a r r' found => (eachLength found).symm)

theorem lawNumber {type : Primitive} {bigEndian : Bool} {number : Fin type.range} {w w' : ByteWriter}
    (written : w.Field (type.toBytes bigEndian number) = some w') :
    Law (fun _ => True) (type.toBytes bigEndian number) (field type.sizeof)
      (type.toBytes bigEndian number) w w' (type.toBytes bigEndian number) := by
  have law := lawField written
  rw [Primitive.toBytesLength] at law
  exact law

theorem writeLaw (t : PacketType) : ∀ (v : t.Value) (w w' : ByteWriter), t.write v w = some w' →
    ∃ bytes, Law (t.Sound v w.room) (t.encode v) t.read v w w' bytes := by
  induction t with
  | property type bigEndian =>
    intro number w w' written
    have packed := Law.pack (type.ofBytes bigEndian) (lawNumber written)
      (fun _ lost => absurd trivial lost)
    rw [type.ofBytesToBytes bigEndian number] at packed
    exact ⟨_,packed⟩
  | elements option bigEndian sizeof => exact fun _ _ _ => elementsLaw
  | vector option bigEndian member law => exact fun _ _ _ => vectorLaw law
  | nil =>
    intro v w w' written
    cases written
    exact ⟨[],lawDone () w⟩
  | cons first rest one two =>
    rintro ⟨v,vs⟩ w w' written
    obtain ⟨w₁,here,later⟩ := Option.bind_eq_some_iff.mp written
    obtain ⟨bytes,one⟩ := one v w w₁ here
    obtain ⟨bytes',two⟩ := two vs w₁ w' later
    have packed := Law.pack (fun vs => (v,vs)) two (fun _ _ a same => (Prod.mk.inj same).2)
    refine ⟨bytes ++ bytes',one.andThen packed (fun _ _ a r r' found => ?_) (fun after => ?_)⟩
    · obtain ⟨_,_,same⟩ := andThenDone found
      exact (Prod.mk.inj same).1
    · have room : w₁.room = w.room - bytes.length := by rw [one.data,roomAppend]
      constructor
      · rintro ⟨left,right⟩
        rw [room,(one.kept _ left).1]
        exact ⟨left,right⟩
      · rintro ⟨left,right⟩
        rw [room,(one.kept _ left).1] at right
        exact ⟨left,right⟩
  | choose type rest law =>
    rintro ⟨number,v⟩ w w' written
    obtain ⟨w₁,here,later⟩ := Option.bind_eq_some_iff.mp written
    obtain ⟨bytes,two⟩ := law number v w₁ w' later
    have one := lawNumber here
    have room : w₁.room = w.room - type.sizeof := by
      rw [one.data,roomAppend,Primitive.toBytesLength]
    have packed := Law.pack (fun v => (⟨number,v⟩ : (choose type rest).Value)) two
      (fun _ _ a same => eq_of_heq (Sigma.mk.inj same).2)
    have again : ∀ number', number' = number → (read (rest number')).andThen (fun v =>
        done (⟨number',v⟩ : (choose type rest).Value)) =
        (read (rest number)).andThen (fun v => done ⟨number,v⟩) := by
      rintro _ rfl
      rfl
    rw [← again _ (type.ofBytesToBytes false number)] at packed
    refine ⟨type.toBytes false number ++ bytes,one.andThen packed (fun _ lost => absurd trivial lost)
      (fun after => ?_)⟩
    rw [true_and,room]
    exact Iff.rfl

theorem representableSound (t : PacketType) : ∀ (v : t.Value) (room after : Nat),
    t.Sound v room after → t.Representable v := by
  induction t with
  | property type bigEndian => exact fun _ _ _ _ => trivial
  | elements option bigEndian sizeof => exact fun _ _ _ => arrivesCounted
  | vector option bigEndian member law =>
    intro vs room after sound
    refine ⟨arrivesCounted sound.1,?_⟩
    have members := sound.2
    generalize room - (option.1.lengthPrefix bigEndian (List.length vs)).length = room at members
    clear sound
    induction vs generalizing room with
    | nil => exact fun v mem => absurd mem (List.not_mem_nil)
    | cons v vs ih =>
      intro v' mem
      rcases List.mem_cons.mp mem with same | mem
      · rw [same]
        exact law v _ _ members.1
      · exact ih _ members.2 v' mem
  | nil => exact fun _ _ _ _ => trivial
  | cons first rest one two =>
    exact fun v room after sound => ⟨one _ _ _ sound.1,two _ _ _ sound.2⟩
  | choose type rest law => exact fun v room after sound => law v.1 v.2 _ _ sound

theorem packetsRoundTrip (t : PacketType) (v : t.Value) (capacity : Fin maxObject) {w : ByteWriter}
    (written : t.write v ⟨capacity,[]⟩ = some w) :
    t.ReadsBack v w.m_data ∧ t.Representable v ↔ t.Sound v capacity 0 := by
  obtain ⟨bytes,law⟩ := writeLaw t v _ _ written
  have data : w.m_data = bytes := by rw [law.data]; rfl
  have fits : bytes.length ≤ capacity := law.fits
  have addressable : bytes.length < maxObject := Nat.lt_of_le_of_lt fits capacity.isLt
  rw [data]
  constructor
  · rintro ⟨back,_⟩
    refine Classical.byContradiction (fun lost => ?_)
    obtain ⟨g,never⟩ := law.lost 0 lost fits
    obtain ⟨r,found,_⟩ := back (fun _ => g)
    exact never _ [] addressable (by rw [List.append_nil]; exact ByteReader.atOfData ..) rfl rfl r found
  · intro sound
    refine ⟨fun garbage => ?_,representableSound t v _ _ sound⟩
    obtain ⟨r,found,moved⟩ := (law.kept 0 sound).2 (.ofData bytes garbage) [] addressable
      (by rw [List.append_nil]; exact ByteReader.atOfData ..) rfl
    refine ⟨r,found,?_⟩
    rw [moved.offset]
    exact Nat.zero_add _

def oneIgnored : ClientGameStateAck.Value := ((5 : Fin (256^8)),[fun _ => 7],[],())

theorem packetsRoundTripOnce : ClientGameStateAck.ReadsBack oneIgnored
      ([5,0,0,0,0,0,0,0,1,7,7,7,7,7,7,7,7,7,7,0] : List Byte) ∧ ClientGameStateAck.Representable oneIgnored :=
  (packetsRoundTrip ClientGameStateAck oneIgnored 1200 rfl).mpr
    ⟨trivial,⟨by decide,by decide⟩,⟨by decide,by decide⟩,trivial⟩

def toRecreate (ids : List (Fin 2 → Byte)) : ClientGameStateNAck.Value :=
  ⟨(12 : Fin 256),(1 : Fin (256^8)),ids,()⟩

theorem toRecreateCounted {ids : List (Fin 2 → Byte)}
    (counted : ClientGameStateNAck.Representable (toRecreate ids)) : ids.length % 256 = ids.length :=
  counted.2.1

def manyToRecreate : ClientGameStateNAck.Value := toRecreate (List.replicate 256 (fun _ => 0))

theorem overlongListShortened : ¬∀ (t : PacketType) (v : t.Value) (capacity : Fin maxObject) (w : ByteWriter),
      t.write v ⟨capacity,[]⟩ = some w → t.ReadsBack v w.m_data ∧ t.Representable v := by
  intro all
  have written : (ClientGameStateNAck.write manyToRecreate ⟨1200,[]⟩).isSome = true := by
    decide +kernel
  obtain ⟨w,written⟩ := Option.isSome_iff_exists.mp written
  have counted := toRecreateCounted (all ClientGameStateNAck manyToRecreate 1200 w written).2
  rw [List.length_replicate] at counted
  exact absurd counted (by decide)

end PacketType
end Citizen.Net
