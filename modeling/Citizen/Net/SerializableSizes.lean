import Citizen.Net.StarvedReads

/-! The inputs that are as short as they can be, and what the sizes of a type are worth. -/
namespace Citizen.Net
open BitField (Byte)
open ByteReader (At Moved)

def Reaches {α : Type} (f : Reading α) (v : α) (bytes tail : List Byte) (garbage rest : Nat → Nat) : Prop :=
  ∀ r, r.m_data.length < maxObject → At r (bytes ++ tail) → r.garbage = garbage →
    ∃ r', f r = (.success v,r') ∧ At r' tail ∧ r'.m_data = r.m_data ∧ r'.garbage = rest

section
variable {α β : Type} {g g' g'' : Nat → Nat}
open Reading

theorem reachesDone (v : α) (tail : List Byte) : Reaches (done v) v [] tail g g :=
  fun r _ left garbage => ⟨r,rfl,left,rfl,garbage⟩

theorem reachesField (bytes tail : List Byte) : Reaches (field bytes.length) bytes bytes tail g g := by
  intro r addressable left garbage
  obtain ⟨r',found,moved⟩ := left.field addressable
  exact ⟨r',by rw [field,found],left.moved moved,moved.data,moved.garbage.trans garbage⟩

theorem Reaches.andThen {first : Reading α} {next : α → Reading β} {v v' bytes bytes' tail}
    (one : Reaches first v bytes (bytes' ++ tail) g g') (two : Reaches (next v) v' bytes' tail g' g'') :
    Reaches (first.andThen next) v' (bytes ++ bytes') tail g g'' := by
  intro r addressable left garbage
  rw [List.append_assoc] at left
  obtain ⟨r₁,found,left₁,data₁,garbage₁⟩ := one r addressable left garbage
  obtain ⟨r₂,found₂,left₂,data₂,garbage₂⟩ := two r₁ (by rw [data₁]; exact addressable) left₁ garbage₁
  exact ⟨r₂,by rw [Reading.andThen,found]; exact found₂,left₂,data₂.trans data₁,garbage₂⟩

theorem Reaches.pack {f : Reading α} {v bytes tail} (reaches : Reaches f v bytes tail g g') (pack : α → β) :
    Reaches (f.andThen (fun a => done (pack a))) (pack v) bytes tail g g' := by
  rw [← List.append_nil bytes]
  exact Reaches.andThen reaches (reachesDone (pack v) tail)

end

def Attains {α : Type} (f : Reading α) (need : Nat → Nat) (left : Nat) : Prop :=
  ∀ tail : List Byte, tail.length ≤ left → ∀ rest, ∃ v bytes garbage,
    bytes.length + tail.length = need tail.length ∧ Reaches f v bytes tail garbage rest

section
open SerializableSizeOptionArea
variable {option : SerializableSizeOptionArea} {bigEndian : Bool}

theorem reachesPrefix (typed : option.Typed) (good : option.ValidateSize option.Min = true)
    (kind : option.elementType ≠ none) (tail : List Byte) (g : Nat → Nat) :
    Reaches (option.read bigEndian) option.Min (option.lengthPrefix bigEndian option.Min) tail g g := by
  obtain ⟨type,prefixed⟩ := Option.ne_none_iff_exists'.mp kind
  intro r addressable left garbage
  have length := lengthPrefixLength option bigEndian option.Min
  simp only [sizeofPrefix,prefixed] at length
  simp only [Typed,prefixed] at typed
  obtain ⟨r',received,moved⟩ := receivedPrefix bigEndian prefixed length addressable left
  have encoded : option.lengthPrefix bigEndian option.Min = LittleEndian.bytes type.sizeof
      (inOrder bigEndian type.sizeof option.Min) := by
    simp only [lengthPrefix,prefixed,Nat.mod_eq_of_lt typed.1]
  have announced : inOrder bigEndian type.sizeof
      (LittleEndian.value (option.lengthPrefix bigEndian option.Min)) = option.Min := by
    rw [encoded,LittleEndian.valueBytesSmall (inOrderSmall typed.1),inOrderTwice typed.1]
  rw [announced] at received
  exact ⟨r',readValid received good,left.moved moved,moved.data,moved.garbage.trans garbage⟩

def garbageSize (option : SerializableSizeOptionArea) (bigEndian : Bool) (size : Nat) (rest : Nat → Nat) :
    Nat → Nat
  | 0 => inOrder bigEndian option.sizeofPrefix size
  | i + 1 => rest i

theorem reachesStarved (typed : option.Typed) (good : option.ValidateSize option.Min = true)
    {tail : List Byte} (short : tail.length < option.sizeofPrefix) (rest : Nat → Nat) :
    Reaches (option.read bigEndian) option.Min [] tail (garbageSize option bigEndian option.Min rest) rest := by
  intro r addressable left garbage
  cases kind : option.elementType with
  | none => simp [sizeofPrefix,kind] at short
  | some type =>
    simp only [sizeofPrefix,kind] at short
    simp only [Typed,kind] at typed
    have received := receivedShort bigEndian kind short addressable left
    have next : r.takeGarbage.1 = inOrder bigEndian type.sizeof option.Min := by
      rw [ByteReader.takeGarbage,garbage,garbageSize]
      simp only [sizeofPrefix,kind]
    rw [next,Nat.mod_eq_of_lt (inOrderSmall typed.1),inOrderTwice typed.1] at received
    refine ⟨_,readValid received good,⟨left.inside,left.rest⟩,rfl,?_⟩
    show (fun i => r.garbage (i + 1)) = rest
    rw [garbage]
    rfl

theorem sizeAttained (bigEndian : Bool) (typed : option.Typed) (good : option.ValidateSize option.Min = true)
    {following : List Byte} (remainder : option.elementType = none → following.length = option.Min)
    (rest : Nat → Nat) : ∃ bytes garbage,
      bytes.length + following.length = starve option.sizeofPrefix following.length ∧
      Reaches (option.read bigEndian) option.Min bytes following garbage rest := by
  by_cases kind : option.elementType = none
  · refine ⟨[],rest,?_,fun r addressable left garbage => ?_⟩
    · simp [sizeofPrefix,kind,starve]
    · have received : option.received bigEndian r = (option.Min,r) := by
        simp only [SerializableSizeOptionArea.received,kind,left.remaining,List.nil_append,remainder kind]
      exact ⟨r,readValid received good,left,rfl,garbage⟩
  · by_cases short : following.length < option.sizeofPrefix
    · refine ⟨[],_,?_,reachesStarved typed good short rest⟩
      rw [starve,if_pos short,List.length_nil,Nat.zero_add]
    · refine ⟨_,rest,?_,reachesPrefix typed good kind following rest⟩
      rw [starve,if_neg short,lengthPrefixLength]

end

namespace PacketType
open Reading

theorem contentAttained (sizeof : Fin (2^16)) {size : Nat} (small : size * sizeof < 2 ^ 64)
    (tail : List Byte) (rest : Nat → Nat) : ∃ es : List (Fin sizeof → Byte),
      Reaches (if size = 0 then done [] else
        (field (size * sizeof % 2^64)).andThen (fun bytes => done (ofMemory sizeof size bytes)))
        es (List.replicate (size * sizeof) 0) tail rest rest := by
  by_cases none : size = 0
  · refine ⟨[],?_⟩
    rw [if_pos none,none,Nat.zero_mul]
    exact reachesDone [] tail
  · rw [if_neg none,Nat.mod_eq_of_lt small]
    have read := @reachesField rest (List.replicate (size * sizeof) (0 : Byte)) tail
    rw [List.length_replicate] at read
    exact ⟨_,read.pack _⟩

theorem remainderWhole {option : SerializableSizeOptionArea} {bigEndian : Bool} {sizeof : Fin (2^16)}
    {r r' : ByteReader} {es} (tail : option.elementType = none) (positive : 0 < sizeof.val)
    (contained : r.Contained) (found : (elements option bigEndian sizeof).read r = (.success es,r')) :
    r'.GetRemaining = 0 ∧ option.Min * sizeof = option.Min := by
  obtain ⟨size,r₁,sized,content⟩ := andThenSuccess found
  obtain ⟨inside,good,-⟩ := needsSize contained sized
  have atLeast := ((SerializableSizeOptionArea.validIff size).mp good).1
  have narrow := (@tameContent sizeof size (SerializableSizeOptionArea.readBounded contained sized)).1
  have remaining : size = r.GetRemaining ∧ r₁ = r := by
    unfold SerializableSizeOptionArea.read SerializableSizeOptionArea.received at sized
    simp only [tail] at sized
    split at sized
    · cases sized
      exact ⟨rfl,rfl⟩
    · cases congrArg Prod.fst sized
  split at content
  · rename_i none
    cases content
    rw [none] at atLeast
    exact ⟨by rw [remaining.2,← remaining.1,none],by rw [Nat.le_zero.mp atLeast,Nat.zero_mul]⟩
  · rename_i some
    rw [Nat.mod_eq_of_lt (Nat.lt_trans narrow (by decide))] at content
    have least := (needsFieldThen narrow (fun _ => needsDone _) r₁ es r' inside content).2
    rw [remaining.2,← remaining.1] at least
    have least : size * sizeof + r'.GetRemaining ≤ size := least
    have whole : size ≤ size * sizeof := Nat.le_mul_of_pos_right size positive
    have single : sizeof.val = 1 := by
      by_contra more
      have twice : size * 2 ≤ size * sizeof := Nat.mul_le_mul_left size (by omega)
      omega
    exact ⟨by omega,by rw [single,Nat.mul_one]⟩

theorem eachAttained {member : PacketType} {need : Nat → Nat} (needs : Needs member.read need)
    (mono : Monotone need) (grows : ∀ n, n ≤ need n) (law : ∀ r a r', r.Contained → member.read r = (.success a,r') →
      Attains member.read need r'.GetRemaining)
    {n : Nat} {r r' : ByteReader} {vs : List member.Value} (contained : r.Contained)
    (found : each member.read n r = (.success vs,r')) {k : Nat} (le : k ≤ n) :
    Attains (each member.read k) need^[k] r'.GetRemaining := by
  induction n generalizing r vs k with
  | zero =>
    obtain rfl := Nat.le_zero.mp le
    exact fun tail _ rest => ⟨[],[],rest,by simp,reachesDone [] tail⟩
  | succ n ih =>
    cases k with
    | zero => exact fun tail _ rest => ⟨[],[],rest,by simp,reachesDone [] tail⟩
    | succ k =>
      obtain ⟨v,r₁,here,later⟩ := andThenSuccess found
      obtain ⟨us,r₂,others,last⟩ := andThenSuccess later
      cases last
      obtain ⟨inside,-⟩ := needs r v r₁ contained here
      obtain ⟨-,least⟩ := needsEach needs mono n r₁ us r' inside others
      intro tail short rest
      obtain ⟨ws,bytes,garbage,length,reaches⟩ := ih inside others (Nat.le_of_succ_le_succ le) tail short rest
      have fits : (bytes ++ tail).length ≤ r₁.GetRemaining := by
        rw [List.length_append,length]
        exact (mono.iterate k short).trans ((iterateMore grows (Nat.le_of_succ_le_succ le) _).trans least)
      obtain ⟨w,bytes',garbage',length',reaches'⟩ := law r v r₁ contained here (bytes ++ tail) fits garbage
      refine ⟨w :: ws,bytes' ++ bytes,garbage',?_,reaches'.andThen (reaches.pack (w :: ·))⟩
      rw [List.length_append] at length'
      rw [Function.iterate_succ_apply',← length,← length',List.length_append,Nat.add_assoc]

theorem numberAttained (type : Primitive) (bigEndian : Bool) (tail : List Byte) (rest : Nat → Nat) :
    ∃ number, Reaches (property type bigEndian).read number (List.replicate type.sizeof 0) tail rest rest := by
  have read := @reachesField rest (List.replicate type.sizeof (0 : Byte)) tail
  rw [List.length_replicate] at read
  exact ⟨_,read.pack _⟩

end PacketType

namespace Serializable
open PacketType Reading

theorem attained {t : PacketType} (s : Serializable t) : ∀ r a r', r.Contained →
    t.read r = (.success a,r') → Attains t.read s.leastRead r'.GetRemaining := by
  induction s with
  | property type bigEndian =>
    intro r a r' contained found tail short rest
    obtain ⟨number,reaches⟩ := numberAttained type bigEndian tail rest
    exact ⟨number,_,rest,by rw [List.length_replicate]; rfl,reaches⟩
  | elements option bigEndian sizeof typed positive =>
    intro r a r' contained found tail short rest
    obtain ⟨size,r₁,sized,-⟩ := andThenSuccess found
    have good := SerializableSizeOptionArea.validMin (needsSize contained sized).2.1
    obtain ⟨es,content⟩ := contentAttained sizeof (contentTyped typed sizeof) tail rest
    have following : (List.replicate (option.Min * sizeof) (0 : Byte) ++ tail).length =
        option.Min * sizeof + tail.length := by
      rw [List.length_append,List.length_replicate]
    obtain ⟨bytes,garbage,length,reaches⟩ := @sizeAttained option bigEndian typed good
      (List.replicate (option.Min * sizeof) 0 ++ tail)
      (fun none => by
        have whole := remainderWhole none positive contained found
        rw [following]
        omega) rest
    refine ⟨es,bytes ++ List.replicate (option.Min * sizeof) 0,garbage,?_,reaches.andThen content⟩
    rw [following] at length
    rw [List.length_append,List.length_replicate,leastRead,← length,Nat.add_assoc]
  | @vector option bigEndian member typed m ih =>
    intro r a r' contained found tail short rest
    obtain ⟨size,r₁,sized,content⟩ := andThenSuccess found
    obtain ⟨inside,valid,-⟩ := needsSize contained sized
    have atLeast := ((SerializableSizeOptionArea.validIff size).mp valid).1
    have good := SerializableSizeOptionArea.validMin valid
    obtain ⟨vs,bytes,garbage,length,reaches⟩ := eachAttained m.needs m.leastReadMono m.leastReadGe ih
      inside content atLeast tail short rest
    obtain ⟨first,garbage',length',reaches'⟩ := @sizeAttained option.1 bigEndian typed good
      (bytes ++ tail) (fun none => absurd none option.2) garbage
    refine ⟨vs,first ++ bytes,garbage',?_,reaches'.andThen reaches⟩
    rw [List.length_append,length] at length'
    rw [leastRead,← length',List.length_append,Nat.add_assoc,length]
  | nil =>
    intro r a r' contained found tail short rest
    exact ⟨(),[],rest,Nat.zero_add _,reachesDone () tail⟩
  | cons one two first second =>
    intro r a r' contained found tail short rest
    obtain ⟨v,r₁,here,later⟩ := andThenSuccess found
    obtain ⟨vs,r₂,others,last⟩ := andThenSuccess later
    cases last
    obtain ⟨inside,-⟩ := one.needs r v r₁ contained here
    obtain ⟨-,least⟩ := two.needs r₁ vs r' inside others
    obtain ⟨us,bytes,garbage,length,reaches⟩ := second r₁ vs r' inside others tail short rest
    have fits : (bytes ++ tail).length ≤ r₁.GetRemaining := by
      rw [List.length_append,length]
      exact (two.leastReadMono short).trans least
    obtain ⟨u,bytes',garbage',length',reaches'⟩ := first r v r₁ contained here (bytes ++ tail) fits garbage
    refine ⟨(u,us),bytes' ++ bytes,garbage',?_,reaches'.andThen (reaches.pack (Prod.mk u))⟩
    rw [List.length_append] at length'
    rw [leastRead,← length,← length',List.length_append,Nat.add_assoc]
  | optional m ih =>
    intro r a r' contained found tail short rest
    have flag := @reachesField rest [0] ([] ++ tail)
    exact ⟨_,_,rest,rfl,flag.andThen (reachesDone _ tail)⟩
  | clientGameStateNAck =>
    intro r a r' contained found tail short rest
    have flags := @reachesField rest [8] (List.replicate 8 0 ++ tail)
    obtain ⟨frameIndex,eight⟩ := numberAttained .uint64 false tail rest
    have fields : Reaches (PacketType.cons u64 .nil).read (frameIndex,()) (List.replicate 8 0) tail rest
        rest := eight.pack (fun frameIndex => (frameIndex,()))
    exact ⟨_,_,rest,rfl,flags.andThen (fields.pack _)⟩

end Serializable

/-! The three sizes of a packet type against its writer and its reader. -/

def PacketType.Readable (t : PacketType) : Prop :=
  ∃ input garbage a, input.length < maxObject ∧ (t.read (.ofData input garbage)).1 = .success a

def PacketType.Writable (t : PacketType) : Prop :=
  ∃ v, t.valid v = true ∧ (t.encode v).length < maxObject

namespace Serializable
variable {t : PacketType}

structure SizesExact (s : Serializable t) : Prop where
  size : ∀ v, (t.encode v).length < maxObject → ∀ w : ByteWriter, t.GetSize v ≤ w.room →
    ∀ w', t.write v w = some w' → w'.m_data.length = w.m_data.length + t.GetSize v
  between : ∀ v, t.valid v = true → (t.encode v).length < maxObject →
    s.GetMinSize ≤ t.GetSize v ∧ t.GetSize v ≤ s.GetMaxSize
  enough : ∀ v, t.valid v = true → (t.encode v).length < maxObject →
    ∀ capacity : Fin maxObject, s.GetMaxSize ≤ capacity → ∃ w', t.write v ⟨capacity,[]⟩ = some w'
  short : ∀ input, input.length < maxObject → input.length < s.GetMinSize →
    ∀ garbage a, (t.read (.ofData input garbage)).1 ≠ .success a

theorem sizeEncoded {v : t.Value} (good : t.valid v = true) (small : (t.encode v).length < maxObject) :
    t.GetSize v = (t.encode v).length := by
  have counted := (t.counts v 0).2 good small
  rw [counterZero,Nat.zero_add] at counted
  unfold maxObject at small
  rw [PacketType.GetSize,counted,counterAt]
  omega

theorem sizeWritten {v : t.Value} (small : (t.encode v).length < maxObject) {w w' : ByteWriter}
    (roomy : t.GetSize v ≤ w.room) (written : t.write v w = some w') :
    w'.m_data.length = w.m_data.length + t.GetSize v := by
  have size := sizeEncoded (t.writtenValid v w w' written) small
  rw [size] at roomy ⊢
  rw [t.writeRoomy v w w' written roomy]
  exact List.length_append

section
variable (s : Serializable t) {v : t.Value} (good : t.valid v = true) (small : (t.encode v).length < maxObject)
include good small

theorem sizeMost : t.GetSize v ≤ s.GetMaxSize := by
  have most := s.bounded v good small
  unfold maxObject at small
  rw [sizeEncoded good small,maxSizeMost,counterAt]
  omega

theorem maxEnough {capacity : Fin maxObject}
    (fits : s.GetMaxSize ≤ capacity) : ∃ w', t.write v ⟨capacity,[]⟩ = some w' := by
  have most := s.sizeMost good small
  rw [sizeEncoded good small] at most
  exact ⟨_,t.writes v ⟨capacity,[]⟩ good (most.trans fits) (Nat.zero_le _)⟩

end

theorem cappedBetween (s : Serializable t) :
    (∀ v, t.valid v = true → (t.encode v).length < maxObject → s.GetMinSize ≤ t.GetSize v) ↔
      (t.Writable → s.Capped) := by
  rw [cappedIff]
  constructor
  · intro between writable
    obtain ⟨v,good,small⟩ := writable
    obtain ⟨v',good',length⟩ := s.leastAttained v good
    have shorter := s.writtenLeast v good
    have least := between v' good' (by omega)
    have le := s.leastWrittenLe
    unfold maxObject at small
    rw [sizeEncoded good' (by unfold maxObject; omega),minSizeLeast,counterAt] at least
    omega
  · intro capped v good small
    have whole := capped ⟨v,good,small⟩
    have shorter := s.writtenLeast v good
    rw [sizeEncoded good small,minSizeLeast,counterAt]
    omega

theorem containedOfData {input : List Byte} (small : input.length < maxObject) (garbage : Nat → Nat) :
    (ByteReader.ofData input garbage).Contained :=
  ⟨small,Nat.zero_le _,fun p mem => by contradiction⟩

theorem readSuccess {α : Type} {f : Reading α} {r : ByteReader} {a} (success : (f r).1 = .success a) :
    ∃ r', f r = (.success a,r') := ⟨(f r).2,Prod.ext success rfl⟩

theorem guardedShort (s : Serializable t) :
    (∀ input : List Byte, input.length < maxObject → input.length < s.GetMinSize →
      ∀ garbage a, (t.read (.ofData input garbage)).1 ≠ .success a) ↔ (t.Readable → s.Guarded 0) := by
  rw [guardedIff,minSizeLeast,counterAt,Nat.add_zero]
  constructor
  · intro short readable
    obtain ⟨input,garbage,a,small,success⟩ := readable
    obtain ⟨r',found⟩ := readSuccess success
    have contained := containedOfData small garbage
    obtain ⟨-,needed⟩ := s.needs _ a r' contained found
    have less := (s.leastReadMono (Nat.zero_le r'.GetRemaining)).trans needed
    have remaining := (ByteReader.atOfData input garbage).remaining
    obtain ⟨v,bytes,garbage',length,reaches⟩ := s.attained _ a r' contained found [] (Nat.zero_le _) garbage
    have length : bytes.length = s.leastRead 0 := length
    have fits : bytes.length < maxObject := by omega
    obtain ⟨r₁,reads,-⟩ := reaches (.ofData bytes garbage') fits
      (by rw [List.append_nil]; exact ByteReader.atOfData bytes garbage') rfl
    by_contra different
    have le := s.leastReadLe 0
    unfold maxObject at fits
    exact short bytes fits (by omega) garbage' v (congrArg Prod.fst reads)
  · intro guarded input small less garbage a success
    have whole := guarded ⟨input,garbage,a,small,success⟩
    obtain ⟨r',found⟩ := readSuccess success
    obtain ⟨-,needed⟩ := s.needs _ a r' (containedOfData small garbage) found
    have least := (s.leastReadMono (Nat.zero_le r'.GetRemaining)).trans needed
    rw [(ByteReader.atOfData input garbage).remaining] at least
    omega

theorem sizesExactIff (s : Serializable t) : s.SizesExact ↔ (t.Readable → s.Guarded 0) ∧ (t.Writable → s.Capped) := by
  rw [← guardedShort,← cappedBetween]
  constructor
  · intro sizes
    exact ⟨sizes.short,fun v good small => (sizes.between v good small).1⟩
  · intro both
    obtain ⟨short,between⟩ := both
    exact ⟨fun v small w roomy w' written => sizeWritten small roomy written,
      fun v good small => ⟨between v good small,s.sizeMost good small⟩,
      fun v good small capacity fits => s.maxEnough good small fits,short⟩

def clientGameStateAck : Serializable .ClientGameStateAck :=
  .cons (.property .uint64 false) (.cons (.elements SmallBytesArray false _ (by decide) (by decide))
    (.cons (.elements SmallBytesArray false _ (by decide) (by decide)) .nil))

def atLeastTwo : Serializable (.span (ConstrainedSmallBytesArray 2 0) 1) :=
  .elements _ false PacketType.sizeofByte (by decide) (by decide)

theorem sizesInexact : ¬ clientGameStateAck.SizesExact ∧ ¬ atLeastTwo.SizesExact := by
  constructor
  · intro sizes
    exact sizes.short [5,0,0,0,0,0,0,0] (by decide) (by decide +kernel) (fun _ => 0)
      ((5 : Fin (256^8)),[],[],()) rfl
  · intro sizes
    have between := sizes.between (List.replicate 256 (fun _ => 0)) (by decide +kernel) (by decide +kernel)
    exact absurd between.1 (by decide +kernel)

/-! The packets of the game protocol. -/

end Serializable
end Citizen.Net
