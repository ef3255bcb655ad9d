import Citizen.Lib.Framing
import Citizen.Net.StreamByteReader

/-! A stream of messages comes out of a `StreamByteReader` as it went in, however it is cut. -/
namespace Citizen.Net
open BitField (Byte)
open ByteReader (At Moved)
open Framing (Unfinished Decoded)

structure StreamComponent.Codes (T : StreamComponent) {α : Type} (code : α → List Byte)
    (message : α → T.Message) : Prop where
  positive : 0 < T.GetMinSize
  minimum : ∀ m, T.GetMinSize ≤ (code m).length
  whole : ∀ old m suffix garbage, (code m ++ suffix).length < maxObject →
    ∃ r, T.Process old (.ofData (code m ++ suffix) garbage) = (.Success,message m,r) ∧
      r.m_offset = (code m).length
  part : ∀ m bytes garbage, bytes <+: code m → T.GetMinSize ≤ bytes.length →
    bytes.length < (code m).length →
    ∃ partly r, T.Process T.fresh (.ofData bytes garbage) = (.Incomplete,partly,r) ∧
      T.GetSize partly = (code m).length

namespace StreamByteReader
variable {T : StreamComponent} {α : Type} {code : α → List Byte} {message : α → T.Message}
variable {capacity : Fin maxObject}

def Took (T : StreamComponent) (code : α → List Byte) (message : α → T.Message) (capacity : Fin maxObject)
    (rest : List α) (bytes : List Byte) (p : Pushed T) : Prop :=
  p.result = true ∧ p.reader.m_capacity = capacity ∧ ∃ got rest', p.complete = got.map message ∧
    rest = got ++ rest' ∧ bytes = got.flatMap code ++ p.reader.m_data ∧
    Unfinished code p.reader.m_data rest'

variable {rest : List α} {r : StreamByteReader} {data : List Byte}

theorem tookHeld
    (unfinished : Unfinished code r.m_data rest) : Took T code message r.m_capacity rest r.m_data ⟨true,r,data,[]⟩ :=
  ⟨rfl,rfl,[],rest,rfl,rfl,rfl,unfinished⟩

theorem tookDelivered {bytes : List Byte} {p : Pushed T} (took : Took T code message capacity rest bytes p) (m : α) :
    Took T code message capacity (m :: rest) (code m ++ bytes) (delivered (message m) p) := by
  obtain ⟨fine,same,got,rest',complete,rfl,rfl,unfinished⟩ := took
  refine ⟨fine,same,m :: got,rest',?_,rfl,?_,unfinished⟩
  · rw [delivered,complete,List.map_cons]
  · rw [List.flatMap_cons,List.append_assoc]
    rfl

theorem readSpanFits {size : Nat} (fits : r.m_data.length + size ≤ r.m_capacity) :
    ∃ r', r.ReadSpan data size = some (r',data.drop size) ∧ r'.m_capacity = r.m_capacity ∧
      r'.m_data = r.m_data ++ data.take size := by
  unfold ReadSpan
  split
  · rename_i full
    unfold m_offset at full
    omega
  · exact ⟨_,rfl,rfl,rfl⟩

theorem unfinishedFits (fits : ∀ m : α, (code m).length ≤ capacity) {tail : List Byte} {rest : List α}
    (unfinished : Unfinished code tail rest) : tail.length ≤ capacity := by
  cases rest with
  | nil => rw [unfinished]; exact Nat.zero_le _
  | cons m rest => exact (Nat.le_of_lt unfinished.2).trans (fits m)

theorem holdTook
    (fits : ∀ m, (code m).length ≤ r.m_capacity) (empty : r.m_data = []) (unfinished : Unfinished code data rest) :
    Took T code message r.m_capacity rest data (pushData.hold T r data) := by
  unfold pushData.hold
  split
  · have room := unfinishedFits fits unfinished
    obtain ⟨r',read,same,held⟩ := @readSpanFits r data data.length (by rw [empty]; simpa using room)
    rw [read]
    rw [empty,List.take_length,List.nil_append] at held
    subst held
    rw [← same]
    exact tookHeld unfinished
  · rename_i none
    rw [not_not.mp none] at unfinished ⊢
    rw [← empty] at unfinished ⊢
    exact tookHeld unfinished

variable (codes : T.Codes code message) (garbage : Nat → Nat)
include codes

theorem pushDataTook (fits : ∀ m, (code m).length ≤ r.m_capacity) (empty : r.m_data = [])
    (addressable : data.length < maxObject) (start : data <+: rest.flatMap code) :
    Took T code message r.m_capacity rest data (pushData T garbage r data) := by
  have positive := codes.positive
  induction rest generalizing data with
  | nil =>
    have nothing : data = [] := List.prefix_nil.mp start
    unfold pushData
    rw [if_neg (by rw [nothing,List.length_nil]; omega)]
    exact holdTook fits empty nothing
  | cons m rest ih =>
    rw [List.flatMap_cons] at start
    unfold pushData
    rcases Framing.prefixWord start with short | ⟨data',rfl,later⟩
    · split
      · rename_i enough
        obtain ⟨partly,reader,found,_⟩ := codes.part m data garbage short.1 enough short.2
        split
        · exact holdTook fits empty short
        · rename_i other
          rw [found] at other
          cases other
        · rename_i other
          rw [found] at other
          cases other
      · exact holdTook fits empty short
    · have minimum := codes.minimum m
      rw [if_pos (by rw [List.length_append]; omega)]
      obtain ⟨reader,found,offset⟩ := codes.whole T.fresh m data' garbage addressable
      split
      · rename_i other
        rw [found] at other
        cases other
      · rename_i here
        rw [found] at here
        cases here
        rw [offset,List.drop_left]
        rw [List.length_append] at addressable
        exact tookDelivered (ih (by omega) later) m
      · rename_i other
        rw [found] at other
        cases other

theorem processAgainTook {m : α} (old : T.Message)
    (fits : ∀ m, (code m).length ≤ r.m_capacity) (held : r.m_data = code m)
    (addressable : data.length < maxObject) (start : data <+: rest.flatMap code) :
    Took T code message r.m_capacity (m :: rest) (code m ++ data) (processAgain T garbage old r data) := by
  have bounded := r.m_capacity.isLt
  have inside := r.inside
  rw [held] at inside
  obtain ⟨reader,found,offset⟩ := codes.whole old m [] garbage (by rw [List.append_nil]; omega)
  rw [List.append_nil,← held] at found
  unfold processAgain
  rw [found]
  dsimp only
  rw [if_neg (by rw [offset,m_offset,held]; exact not_not.mpr rfl)]
  exact tookDelivered (pushDataTook (r := r.Reset) codes garbage fits rfl addressable start) m

omit codes in
theorem requireTook {chunk : List Byte} {m : α} {size : Nat} {next : StreamByteReader → List Byte → Pushed T} (fits : (code m).length ≤ r.m_capacity)
    (inside : r.m_data.length + size ≤ (code m).length) (start : r.m_data ++ chunk <+: (m :: rest).flatMap code)
    (later : ∀ r', r'.m_capacity = r.m_capacity → r'.m_data = r.m_data ++ chunk.take size → size ≤ chunk.length →
      Took T code message r.m_capacity (m :: rest) (r.m_data ++ chunk) (next r' (chunk.drop size))) :
    Took T code message r.m_capacity (m :: rest) (r.m_data ++ chunk) (require T r chunk size next) := by
  unfold require RequireSpan
  by_cases short : chunk.length < size
  · have unfinished : Unfinished code (r.m_data ++ chunk) (m :: rest) := by
      have less : (r.m_data ++ chunk).length < (code m).length := by rw [List.length_append]; omega
      rw [List.flatMap_cons] at start
      exact ⟨List.prefix_of_prefix_length_le start (List.prefix_append ..) (Nat.le_of_lt less),less⟩
    rw [if_pos short]
    split_ifs with some
    · obtain ⟨r',read,same,held⟩ := @readSpanFits r chunk chunk.length (by omega)
      rw [read]
      simp only [Option.map_some,List.drop_length]
      rw [List.take_length] at held
      rw [← held] at unfinished ⊢
      rw [← same]
      exact tookHeld unfinished
    · rw [not_not.mp some,List.append_nil] at unfinished ⊢
      exact tookHeld unfinished
  · rw [if_neg short]
    obtain ⟨r',read,same,held⟩ := @readSpanFits r chunk size (by omega)
    rw [read]
    exact later r' same held (by omega)

theorem processHeldTook {m : α} (fits : ∀ m, (code m).length ≤ r.m_capacity) (held : r.m_data <+: code m)
    (enough : T.GetMinSize ≤ r.m_data.length) (addressable : data.length < maxObject)
    (start : r.m_data ++ data <+: (m :: rest).flatMap code) :
    Took T code message r.m_capacity (m :: rest) (r.m_data ++ data) (processHeld T garbage r data) := by
  have bounded := r.m_capacity.isLt
  have inside := r.inside
  have start' := start
  rw [List.flatMap_cons] at start'
  unfold processHeld
  rcases Nat.lt_or_ge r.m_data.length (code m).length with short | long
  · obtain ⟨partly,reader,found,size⟩ := codes.part m r.m_data garbage held enough short
    rw [found]
    dsimp only
    unfold m_offset
    rw [size,if_pos short]
    refine requireTook (fits m) (by omega) start (fun r' same held' enough' => ?_)
    have parts : r.m_data ++ data = r'.m_data ++ data.drop ((code m).length - r.m_data.length) := by
      rw [held',List.append_assoc,List.take_append_drop]
    have length : r'.m_data.length = (code m).length := by
      rw [held',List.length_append,List.length_take]
      omega
    rw [parts] at start' ⊢
    have full : r'.m_data = code m :=
      (List.prefix_of_prefix_length_le ((List.prefix_append ..).trans start') (List.prefix_append ..)
        (Nat.le_of_eq length)).eq_of_length length
    rw [full,List.prefix_append_right_inj] at start'
    rw [← same] at fits ⊢
    rw [full]
    exact processAgainTook codes garbage partly fits full (by rw [List.length_drop]; omega) start'
  · have full : r.m_data = code m := held.eq_of_length_le long
    obtain ⟨reader,found,offset⟩ := codes.whole T.fresh m [] garbage
      (by rw [List.append_nil,← full]; omega)
    rw [List.append_nil,← full] at found
    rw [found]
    dsimp only
    rw [full] at start' ⊢
    rw [List.prefix_append_right_inj] at start'
    exact tookDelivered (pushDataTook (r := r.Reset) codes garbage fits rfl addressable start') m

theorem pushTook (fits : ∀ m, (code m).length ≤ r.m_capacity) (unfinished : Unfinished code r.m_data rest)
    (nonempty : data ≠ []) (addressable : data.length < maxObject) (start : r.m_data ++ data <+: rest.flatMap code) :
    Took T code message r.m_capacity rest (r.m_data ++ data) (Push T garbage r data) := by
  unfold Push m_offset
  rw [if_neg nonempty]
  split
  · rename_i some
    cases rest with
    | nil =>
      rw [unfinished] at some
      exact absurd some (Nat.lt_irrefl 0)
    | cons m rest =>
      obtain ⟨held,short⟩ := unfinished
      have minimum := codes.minimum m
      split
      · rename_i few
        refine requireTook (fits m) (by omega) start (fun r' same held' enough => ?_)
        have parts : r.m_data ++ data = r'.m_data ++ data.drop (T.GetMinSize - r.m_data.length) := by
          rw [held',List.append_assoc,List.take_append_drop]
        have length : r'.m_data.length = T.GetMinSize := by
          rw [held',List.length_append,List.length_take]
          omega
        rw [parts] at start ⊢
        have held'' : r'.m_data <+: code m := by
          rw [List.flatMap_cons] at start
          exact List.prefix_of_prefix_length_le ((List.prefix_append ..).trans start) (List.prefix_append ..)
            (by omega)
        rw [← same] at fits ⊢
        exact processHeldTook codes garbage fits held'' (by omega) (by rw [List.length_drop]; omega) start
      · exact processHeldTook codes garbage fits held (by omega) addressable start
  · have empty : r.m_data = [] := List.eq_nil_of_length_eq_zero (by omega)
    rw [empty,List.nil_append] at start ⊢
    exact pushDataTook codes garbage fits empty addressable start

end StreamByteReader
namespace ClientMumbleMessage

def value (m : ClientMumbleMessage) : PacketType.ClientMumbleMessage.Value :=
  (m.type,m.data.m_data.map (fun b _ => b),())

def encoding (m : ClientMumbleMessage) : List Byte := PacketType.ClientMumbleMessage.encode m.value

structure Valid (m : ClientMumbleMessage) : Prop where
  sized : m.data.m_data.length = m.data.m_size
  valid : dataOption.ValidateSize m.data.m_size = true

theorem memoryOfBytes (bytes : List Byte) : PacketType.memory (bytes.map (fun b (_ : Fin 1) => b)) = bytes := by
  induction bytes with
  | nil => rfl
  | cons b bytes ih =>
    unfold PacketType.memory at ih ⊢
    rw [List.map_cons,List.flatMap_cons,ih]
    rfl

section
variable {m : ClientMumbleMessage} (valid : m.Valid)
include valid

theorem Valid.counted : dataOption.counted m.data.m_size = m.data.m_size := by
  have bounds := dataValid.mp valid.valid
  exact Nat.mod_eq_of_lt (Nat.lt_of_le_of_lt bounds.2 (by decide))

theorem Valid.encodingParts : m.encoding = Primitive.uint16.toBytes true m.type ++
      (dataOption.lengthPrefix true m.data.m_size ++ m.data.m_data) := by
  have parts : m.encoding = Primitive.uint16.toBytes true m.type ++
      ((dataOption.lengthPrefix true (m.data.m_data.map (fun b (_ : Fin 1) => b)).length ++
        PacketType.memory ((m.data.m_data.map (fun b (_ : Fin 1) => b)).take
          (dataOption.counted (m.data.m_data.map (fun b (_ : Fin 1) => b)).length))) ++ []) := rfl
  rw [parts,List.length_map,valid.sized,valid.counted,← valid.sized,← List.map_take,List.take_length,
    memoryOfBytes,List.append_nil]

theorem Valid.encodingLength : m.encoding.length = 6 + m.data.m_size := by
  have size : (dataOption.lengthPrefix true m.data.m_size).length = 4 := LittleEndian.bytesLength ..
  rw [valid.encodingParts,List.length_append,List.length_append,Primitive.toBytesLength,size,valid.sized]
  simp only [Primitive.sizeof]
  omega

end

theorem fieldRoom {w : ByteWriter} {bytes : List Byte} (positive : 0 < bytes.length) (room : bytes.length ≤ w.room) :
    w.Field bytes = some { w with m_data := w.m_data ++ bytes } := by
  unfold ByteWriter.room at room
  exact if_pos (decide_eq_true (by omega))

variable {m : ClientMumbleMessage}

theorem Valid.encodingWritten (valid : m.Valid) {w : ByteWriter}
    (room : m.encoding.length ≤ w.room) :
    PacketType.ClientMumbleMessage.write m.value w = some { w with m_data := w.m_data ++ m.encoding } := by
  have bounds := dataValid.mp valid.valid
  have length := valid.encodingLength
  have sized := valid.sized
  have size : (dataOption.lengthPrefix true m.data.m_size).length = 4 := LittleEndian.bytesLength ..
  have type : (Primitive.uint16.toBytes true m.type).length = 2 := Primitive.toBytesLength ..
  have written : PacketType.ClientMumbleMessage.write m.value w =
      (w.Field (Primitive.uint16.toBytes true m.type)).bind (fun w =>
        ((dataOption.write true (m.data.m_data.map (fun b (_ : Fin 1) => b)).length w).bind (fun sized =>
          if sized.1 = 0 then some sized.2 else sized.2.Field (PacketType.memory
            ((m.data.m_data.map (fun b (_ : Fin 1) => b)).take sized.1)))).bind some) := rfl
  have prefixed (w : ByteWriter) : dataOption.write true m.data.m_size w = some (m.data.m_size,
      (w.Field (dataOption.lengthPrefix true m.data.m_size)).getD w) := by
    unfold SerializableSizeOptionArea.write
    rw [if_pos valid.valid]
    exact congrArg (fun n => some (n,_)) valid.counted
  rw [written,List.length_map,valid.sized,fieldRoom (by omega) (by omega),Option.bind_some,prefixed,
    fieldRoom (by omega) (by simp only [ByteWriter.room,List.length_append] at room ⊢; omega),Option.bind_some]
  dsimp only [Option.getD_some]
  rw [if_neg (by omega),← List.map_take,List.take_of_length_le (Nat.le_of_eq sized),memoryOfBytes,
    fieldRoom (by omega) (by simp only [ByteWriter.room,List.length_append] at room ⊢; omega),valid.encodingParts]
  simp only [Option.bind_some,List.append_assoc]

variable {r : ByteReader} {suffix : List Byte}

theorem numberRead {number old : Fin Primitive.uint16.range} (addressable : r.m_data.length < maxObject)
    (left : At r (Primitive.uint16.toBytes true number ++ suffix)) :
    ∃ r', processNumber .uint16 true old r = (.Success,number,r') ∧ Moved r r' 2 := by
  obtain ⟨r',found,moved⟩ := left.field addressable
  rw [Primitive.toBytesLength] at found moved
  refine ⟨r',?_,moved⟩
  unfold processNumber
  rw [found]
  dsimp only
  rw [Primitive.ofBytesToBytes]

theorem sizeRead {size : Nat} (valid : dataOption.ValidateSize size = true)
    (addressable : r.m_data.length < maxObject) (left : At r (dataOption.lengthPrefix true size ++ suffix)) :
    ∃ r', dataOption.read true r = (.success size,r') ∧ Moved r r' 4 := by
  have bounds := dataValid.mp valid
  have small : size < 256 ^ ElementType.uint32.sizeof := Nat.lt_of_le_of_lt bounds.2 (by decide)
  have length : (dataOption.lengthPrefix true size).length = 4 := LittleEndian.bytesLength ..
  obtain ⟨r',got,moved⟩ : ∃ r', dataOption.received true r = (_,r') ∧ Moved r r' _ :=
    SerializableSizeOptionArea.receivedPrefix true rfl length addressable left
  rw [length] at moved
  refine ⟨r',SerializableSizeOptionArea.readValid ?_ valid,moved⟩
  have value : inOrder true ElementType.uint32.sizeof
      (LittleEndian.value (dataOption.lengthPrefix true size)) = size % 256 ^ ElementType.uint32.sizeof := by
    have wide : size % 256 ^ ElementType.uint32.sizeof < 256 ^ ElementType.uint32.sizeof :=
      Nat.mod_lt _ (by decide)
    exact (congrArg _ (LittleEndian.valueBytesSmall (inOrderSmall wide))).trans (inOrderTwice wide)
  rw [got,value,Nat.mod_eq_of_lt small]

theorem processWhole {m old : ClientMumbleMessage} (valid : m.Valid) (garbage : Nat → Nat)
    (addressable : (m.encoding ++ suffix).length < maxObject) :
    ∃ r, old.Process (.ofData (m.encoding ++ suffix) garbage) = (.Success,m,r) ∧ r.m_offset = m.encoding.length := by
  have bounds := dataValid.mp valid.valid
  have left := ByteReader.atOfData (m.encoding ++ suffix) garbage
  rw [valid.encodingParts,List.append_assoc,List.append_assoc] at left
  rw [valid.encodingParts,List.append_assoc,List.append_assoc] at addressable
  obtain ⟨r₁,number,moved₁⟩ : ∃ r₁, processNumber .uint16 true old.type _ = (.Success,m.type,r₁) ∧ Moved _ r₁ 2 :=
    numberRead addressable left
  obtain ⟨r₂,size,moved₂⟩ := sizeRead valid.valid (by rw [moved₁.data]; exact addressable) (left.moved moved₁)
  have left₂ := (left.moved moved₁).moved moved₂
  obtain ⟨r₃,bytes,moved₃⟩ := left₂.field (by rw [moved₂.data,moved₁.data]; exact addressable)
  rw [valid.sized] at bytes moved₃
  refine ⟨r₃,?_,?_⟩
  · rw [valid.encodingParts,List.append_assoc,List.append_assoc]
    unfold Process processSpan
    rw [number]
    dsimp only
    rw [size]
    dsimp only
    rw [if_pos (by omega),bytes]
  · rw [valid.encodingLength,((moved₁.trans moved₂).trans moved₃).offset]
    exact Nat.zero_add _

theorem processPart (valid : m.Valid) {bytes : List Byte} (garbage : Nat → Nat)
    (start : bytes <+: m.encoding) (enough : 6 ≤ bytes.length) (short : bytes.length < m.encoding.length)
    (old : ClientMumbleMessage) :
    ∃ r, old.Process (.ofData bytes garbage) = (.Incomplete,⟨m.type,⟨[],m.data.m_size⟩⟩,r) := by
  have bounds := dataValid.mp valid.valid
  have length := valid.encodingLength
  have size : (dataOption.lengthPrefix true m.data.m_size).length = 4 := LittleEndian.bytesLength ..
  have type : (Primitive.uint16.toBytes true m.type).length = 2 := Primitive.toBytesLength ..
  have header : Primitive.uint16.toBytes true m.type ++ dataOption.lengthPrefix true m.data.m_size <+: bytes := by
    refine List.prefix_of_prefix_length_le ?_ start (by rw [List.length_append]; omega)
    rw [valid.encodingParts,← List.append_assoc]
    exact List.prefix_append ..
  obtain ⟨part,whole⟩ := header
  have few : part.length < m.data.m_size := by
    rw [← whole,List.length_append,List.length_append] at short
    omega
  have addressable : bytes.length < maxObject := by
    have top : 6 + 8192 < maxObject := by decide
    omega
  have left := ByteReader.atOfData bytes garbage
  rw [← whole,List.append_assoc] at left
  rw [← whole,List.append_assoc] at addressable
  obtain ⟨r₁,number,moved₁⟩ : ∃ r₁, processNumber .uint16 true old.type _ = (.Success,m.type,r₁) ∧ Moved _ r₁ 2 :=
    numberRead addressable left
  obtain ⟨r₂,found,moved₂⟩ := sizeRead valid.valid (by rw [moved₁.data]; exact addressable) (left.moved moved₁)
  have left₂ := (left.moved moved₁).moved moved₂
  have missing : r₂.Field m.data.m_size = none := by
    refine left₂.short few ?_
    have top : maxObject + 8192 < 2^64 := by decide
    rw [moved₂.data,moved₁.data]
    exact Nat.lt_trans (Nat.add_lt_add_of_lt_of_le addressable bounds.2) top
  refine ⟨r₂,?_⟩
  rw [← whole,List.append_assoc]
  unfold Process processSpan
  rw [number]
  dsimp only
  rw [found]
  dsimp only
  rw [if_pos (by omega),missing]

theorem countSmall {m_counter size : Nat} (small : m_counter + size < 2^64) :
    count m_counter size = m_counter + size :=
  if_neg (by omega)

theorem sizeOfPart (valid : m.Valid) : GetSize ⟨m.type,⟨[],m.data.m_size⟩⟩ = m.encoding.length := by
  have bounds := dataValid.mp valid.valid
  have counted : GetSize ⟨m.type,⟨[],m.data.m_size⟩⟩ =
      if 0 < m.data.m_size then count 6 m.data.m_size else 6 := if_pos valid.valid
  rw [counted,if_pos (by omega),countSmall (by omega),valid.encodingLength]

structure Fitting (capacity : Fin maxObject) where
  message : ClientMumbleMessage
  valid : message.Valid
  fits : message.encoding.length ≤ capacity

def Fitting.encoding {capacity : Fin maxObject} (m : Fitting capacity) : List Byte := m.message.encoding

theorem minSize : GetMinSize = 7 := by decide

theorem mumbleCodes (capacity : Fin maxObject) :
    mumbleStream.Codes (Fitting.encoding : Fitting capacity → List Byte) Fitting.message := by
  refine ⟨by decide,fun m => ?_,fun old m suffix garbage addressable => ?_,
    fun m bytes garbage start enough short => ?_⟩
  · have bounds := dataValid.mp m.valid.valid
    have length := m.valid.encodingLength
    have least : mumbleStream.GetMinSize = 7 := minSize
    unfold Fitting.encoding
    omega
  · exact processWhole m.valid garbage addressable
  · have least : mumbleStream.GetMinSize = 7 := minSize
    obtain ⟨r,found⟩ := processPart m.valid garbage start (by omega) short mumbleStream.fresh
    exact ⟨_,r,found,sizeOfPart m.valid⟩

end ClientMumbleMessage

namespace StreamByteReader

def ofCapacity (capacity : Fin maxObject) : StreamByteReader := ⟨capacity,[],Nat.zero_le _⟩

def accepted {T : StreamComponent} (p : Pushed T) : Option (StreamByteReader × List T.Message) :=
  if p.result then some (p.reader,p.complete) else none

def pushChunk (T : StreamComponent) (garbage : Nat → Nat) (r : StreamByteReader) (data : List Byte) :
    Option (StreamByteReader × List T.Message) := accepted (Push T garbage r data)

abbrev Chunk := { data : List Byte // data ≠ [] ∧ data.length < maxObject }

variable {T : StreamComponent} {α : Type} {code : α → List Byte} {message : α → T.Message}

theorem pushDecodes (codes : T.Codes code message) (garbage : Nat → Nat) {capacity : Fin maxObject}
    (fits : ∀ m, (code m).length ≤ capacity) :
    Framing.Decodes (pushChunk T garbage) (fun r tail => r.m_capacity = capacity ∧ r.m_data = tail) code message
      (fun data => data ≠ [] ∧ data.length < maxObject) := by
  rintro r tail rest chunk ⟨rfl,rfl⟩ unfinished ⟨nonempty,addressable⟩ start
  obtain ⟨fine,same,got,rest',complete,parts,whole,unfinished'⟩ :=
    pushTook codes garbage fits unfinished nonempty addressable start
  refine ⟨_,_,got,rest',?_,⟨same,rfl⟩,parts,whole,unfinished'⟩
  unfold pushChunk accepted
  rw [if_pos fine,complete]

theorem streamFraming (capacity : Fin maxObject) (garbage : Nat → Nat)
    (messages : List (ClientMumbleMessage.Fitting capacity)) (chunks : List Chunk)
    (cut : (chunks.map Subtype.val).flatten = messages.flatMap ClientMumbleMessage.Fitting.encoding) :
    (∃ r, Framing.pushAll (pushChunk mumbleStream garbage) (ofCapacity capacity) (chunks.map Subtype.val) =
      some (r,messages.map ClientMumbleMessage.Fitting.message) ∧ r.m_data = []) ∧
    ∀ pushed later, chunks = pushed ++ later → ∃ r done,
      Framing.pushAll (pushChunk mumbleStream garbage) (ofCapacity capacity) (pushed.map Subtype.val) =
        some (r,done.map ClientMumbleMessage.Fitting.message) ∧
      Decoded ClientMumbleMessage.Fitting.encoding messages (pushed.map Subtype.val).flatten done r.m_data := by
  have decodes := pushDecodes (ClientMumbleMessage.mumbleCodes capacity) garbage ClientMumbleMessage.Fitting.fits
  have nonempty : ∀ m : ClientMumbleMessage.Fitting capacity, m.encoding ≠ [] := by
    intro m none
    have length := m.valid.encodingLength
    have short := congrArg List.length none
    unfold ClientMumbleMessage.Fitting.encoding at short
    rw [length,List.length_nil] at short
    omega
  have start := Framing.decodedNothing nonempty messages
  have run (pushed later : List Chunk) (parts : chunks = pushed ++ later) : ∃ r done,
      Framing.pushAll (pushChunk mumbleStream garbage) (ofCapacity capacity) (pushed.map Subtype.val) =
        some (r,done.map ClientMumbleMessage.Fitting.message) ∧
      Decoded ClientMumbleMessage.Fitting.encoding messages (pushed.map Subtype.val).flatten done r.m_data := by
    have fine : ∀ data ∈ pushed.map Subtype.val, data ≠ [] ∧ data.length < maxObject := by
      intro data mem
      obtain ⟨chunk,_,rfl⟩ := List.mem_map.mp mem
      exact chunk.2
    have whole : [] ++ (pushed.map Subtype.val).flatten <+:
        messages.flatMap ClientMumbleMessage.Fitting.encoding := by
      rw [List.nil_append,← cut,parts,List.map_append,List.flatten_append]
      exact List.prefix_append ..
    obtain ⟨r,tail,got,ran,⟨_,held⟩,decoded⟩ :=
      Framing.decodesAll decodes (s := ofCapacity capacity) ⟨rfl,rfl⟩ start fine whole
    rw [List.nil_append,List.nil_append,← held] at decoded
    exact ⟨r,got,ran,decoded⟩
  refine ⟨?_,run⟩
  obtain ⟨r,done,ran,decoded⟩ := run chunks [] (List.append_nil _).symm
  rw [cut] at decoded
  obtain ⟨rfl,nothing⟩ := decoded.whole
  exact ⟨r,ran,nothing⟩

def oneByte : ClientMumbleMessage.Fitting 8198 :=
  ⟨⟨⟨3,by decide⟩,⟨[7],1⟩⟩,⟨rfl,by decide⟩,by decide⟩

theorem streamFramingByBytes : ∃ r, Framing.pushAll (pushChunk mumbleStream (fun _ => 0)) (ofCapacity 8198)
      ([[0,3,0],[0,0],[1,7,0,3,0,0,0,1],[7]] : List (List Byte)) =
        some (r,[oneByte.message,oneByte.message]) ∧ r.m_data = [] :=
  (streamFraming 8198 (fun _ => 0) [oneByte,oneByte]
    [⟨[0,3,0],by decide⟩,⟨[0,0],by decide⟩,⟨[1,7,0,3,0,0,0,1],by decide⟩,⟨[7],by decide⟩] (by decide)).1

end StreamByteReader
end Citizen.Net
