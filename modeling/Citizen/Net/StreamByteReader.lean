import Citizen.Net.PacketRoundTrip

/-! `StreamByteReader`, which takes messages out of a stream that arrives in pieces, and
`ClientMumbleMessage`. -/
namespace Citizen.Net
open BitField (Byte)

inductive SerializableResult where
  | Error | Success | Incomplete
  deriving DecidableEq, Repr

structure StreamComponent where
  Message : Type
  fresh : Message
  Process : Message → ByteReader → SerializableResult × Message × ByteReader
  GetSize : Message → Nat
  GetMinSize : Nat
  consumes : ∀ {data garbage m r}, Process fresh (.ofData data garbage) = (.Success,m,r) →
    0 < r.m_offset ∧ r.m_offset ≤ data.length

structure StreamByteReader where
  m_capacity : Fin maxObject
  m_data : List Byte
  inside : m_data.length ≤ m_capacity

structure Pushed (T : StreamComponent) where
  result : Bool
  reader : StreamByteReader
  data : List Byte
  complete : List T.Message

namespace StreamByteReader

def m_offset (r : StreamByteReader) : Nat := r.m_data.length

def Reset (r : StreamByteReader) : StreamByteReader := ⟨r.m_capacity,[],Nat.zero_le _⟩

def ReadSpan (r : StreamByteReader) (data : List Byte) (size : Nat) : Option (StreamByteReader × List Byte) :=
  if full : r.m_capacity - r.m_offset < size then none
  else some (⟨r.m_capacity,r.m_data ++ data.take size,by
    have inside := r.inside
    unfold m_offset at full
    rw [List.length_append,List.length_take]
    omega⟩,data.drop size)

def RequireSpan (r : StreamByteReader) (data : List Byte) (size : Nat) :
    Option (Bool × StreamByteReader × List Byte) :=
  if data.length < size then
    if data ≠ [] then (r.ReadSpan data data.length).map (fun read => (false,read))
    else some (false,r,data)
  else (r.ReadSpan data size).map (fun read => (true,read))

variable (T : StreamComponent) (garbage : Nat → Nat)

def broken (r : StreamByteReader) (data : List Byte) : Pushed T := ⟨false,r.Reset,data,[]⟩

def delivered {T : StreamComponent} (message : T.Message) (later : Pushed T) : Pushed T :=
  { later with complete := message :: later.complete }

def pushData (r : StreamByteReader) (data : List Byte) : Pushed T :=
  if T.GetMinSize ≤ data.length then
    match _h : T.Process T.fresh (.ofData data garbage) with
    | (.Incomplete,_,_) => hold r data
    | (.Success,message,reader) => delivered message (pushData r (data.drop reader.m_offset))
    | (.Error,_,_) => broken T r data
  else hold r data
termination_by data.length
decreasing_by
  have consumed := T.consumes _h
  rw [List.length_drop]
  omega
where
  hold (r : StreamByteReader) (data : List Byte) : Pushed T :=
    if data ≠ [] then
      match r.ReadSpan data data.length with
      | some (r,data) => ⟨true,r,data,[]⟩
      | none => broken T r data
    else ⟨true,r,data,[]⟩

def require (r : StreamByteReader) (data : List Byte) (size : Nat)
    (next : StreamByteReader → List Byte → Pushed T) : Pushed T :=
  match r.RequireSpan data size with
  | none => broken T r data
  | some (false,r,data) => ⟨true,r,data,[]⟩
  | some (true,r,data) => next r data

def processAgain (message : T.Message) (r : StreamByteReader) (data : List Byte) : Pushed T :=
  match T.Process message (.ofData r.m_data garbage) with
  | (.Success,message,reader) =>
    if r.m_offset ≠ reader.m_offset then broken T r data
    else delivered message (pushData T garbage r.Reset data)
  | (.Error,_,_) | (.Incomplete,_,_) => broken T r data

def processHeld (r : StreamByteReader) (data : List Byte) : Pushed T :=
  match T.Process T.fresh (.ofData r.m_data garbage) with
  | (.Error,_,_) => broken T r data
  | (.Success,message,_) => delivered message (pushData T garbage r.Reset data)
  | (.Incomplete,message,_) =>
    if r.m_offset < T.GetSize message then
      require T r data (T.GetSize message - r.m_offset) (processAgain T garbage message)
    else processAgain T garbage message r data

def Push (r : StreamByteReader) (data : List Byte) : Pushed T :=
  if data = [] then broken T r data
  else if 0 < r.m_offset then
    if r.m_offset < T.GetMinSize then
      require T r data (T.GetMinSize - r.m_offset) (processHeld T garbage)
    else processHeld T garbage r data
  else pushData T garbage r data

end StreamByteReader

structure Span where
  m_data : List Byte
  m_size : Nat
  deriving DecidableEq, Repr

def processNumber (type : Primitive) (bigEndian : Bool) (m_value : Fin type.range) (r : ByteReader) :
    SerializableResult × Fin type.range × ByteReader :=
  match r.Field type.sizeof with
  | none => (.Incomplete,m_value,r)
  | some (bytes,r) => (.Success,type.ofBytes bigEndian bytes,r)

def processSpan (option : SerializableSizeOptionArea) (bigEndian : Bool) (m_value : Span) (r : ByteReader) :
    SerializableResult × Span × ByteReader :=
  match option.read bigEndian r with
  | (.success size,r) =>
    if 0 < size then
      match r.Field size with
      | none => (.Incomplete,⟨[],size⟩,r)
      | some (bytes,r) => (.Success,⟨bytes,size⟩,r)
    else (.Success,m_value,r)
  | (_,r) => (.Error,m_value,r)

def count (m_counter size : Nat) : Nat := if 2^64 ≤ m_counter + size then 2^64 - 1 else m_counter + size

def countSpan (option : SerializableSizeOptionArea) (m_counter size : Nat) : Nat :=
  if option.ValidateSize size then
    let m_counter := (option.elementType.map (fun type => count m_counter type.sizeof)).getD m_counter
    if 0 < size then count m_counter size else m_counter
  else m_counter

def minCountSpan (option : SerializableSizeOptionArea) (m_counter : Nat) : Nat :=
  let m_counter := (option.elementType.map (fun type => count m_counter type.sizeof)).getD m_counter
  if 0 < option.Min then count m_counter option.Min else m_counter

structure ClientMumbleMessage where
  type : Fin Primitive.uint16.range
  data : Span

namespace ClientMumbleMessage

def dataOption : SerializableSizeOptionArea := ConstrainedBigBytesArray 1 8192

def Process (m : ClientMumbleMessage) (r : ByteReader) : SerializableResult × ClientMumbleMessage × ByteReader :=
  match processNumber .uint16 true m.type r with
  | (.Success,type,r) =>
    match processSpan dataOption true m.data r with
    | (result,data,r) => (result,⟨type,data⟩,r)
  | (result,type,r) => (result,⟨type,m.data⟩,r)

def GetSize (m : ClientMumbleMessage) : Nat :=
  countSpan dataOption (count 0 Primitive.uint16.sizeof) m.data.m_size

def GetMinSize : Nat := minCountSpan dataOption (count 0 Primitive.uint16.sizeof)

theorem fieldEnds {r r' : ByteReader} {length : Nat} {bytes : List Byte} (found : r.Field length = some (bytes,r')) :
    r'.m_offset = (r.m_offset + length) % 2^64 ∧ r'.m_data = r.m_data ∧ r'.m_offset ≤ r.m_data.length := by
  unfold ByteReader.Field ByteReader.CanRead at found
  split at found
  · rename_i fits
    cases found
    exact ⟨rfl,rfl,of_decide_eq_true fits⟩
  · contradiction

theorem dataValid {size : Nat} : dataOption.ValidateSize size = true ↔ 1 ≤ size ∧ size ≤ 8192 := by
  have both : 0 < dataOption.Min ∧ 0 < dataOption.Max := by decide
  have limits : dataOption.Min = 1 ∧ dataOption.Max = 8192 := ⟨rfl,rfl⟩
  unfold SerializableSizeOptionArea.ValidateSize
  rw [if_pos both,limits.1,limits.2,Bool.not_eq_true',Bool.or_eq_false_iff,decide_eq_false_iff_not,
    decide_eq_false_iff_not]
  omega

theorem readEnds {r r' : ByteReader} {size : Nat} (found : dataOption.read true r = (.success size,r')) :
    size ≤ 8192 ∧ r'.m_data = r.m_data ∧
      (r'.m_offset = r.m_offset ∨ r'.m_offset = (r.m_offset + 4) % 2^64 ∧ r'.m_offset ≤ r.m_data.length) := by
  unfold SerializableSizeOptionArea.read at found
  dsimp only at found
  split at found
  · rename_i valid
    cases found
    refine ⟨?_,?_⟩
    · exact (dataValid.mp valid).2
    · simp only [dataOption,ConstrainedBigBytesArray,SerializableSizeOptionArea.received]
      split
      · rename_i there
        obtain ⟨offset,data,inside⟩ := fieldEnds there
        exact ⟨data,.inr ⟨offset,inside⟩⟩
      · exact ⟨rfl,.inl rfl⟩
  · cases congrArg Prod.fst found

theorem processConsumes {data : List Byte} {garbage : Nat → Nat} {m m' : ClientMumbleMessage} {r : ByteReader}
    (found : m.Process (.ofData data garbage) = (.Success,m',r)) : 0 < r.m_offset ∧ r.m_offset ≤ data.length := by
  unfold Process processNumber at found
  cases first : (ByteReader.ofData data garbage).Field Primitive.uint16.sizeof with
  | none =>
    rw [first] at found
    cases found
  | some got =>
    obtain ⟨bytes,r₁⟩ := got
    obtain ⟨offset₁,data₁,inside₁⟩ := fieldEnds first
    rw [first] at found
    unfold processSpan at found
    dsimp only at found
    have start : r₁.m_offset = 2 := offset₁
    have whole : (ByteReader.ofData data garbage).m_data = data := rfl
    rw [whole] at data₁ inside₁
    split at found
    · rename_i second
      obtain ⟨small,data₂,offset₂⟩ := readEnds second
      rw [data₁] at data₂ offset₂
      split at found
      · split at found
        · cases found
        · rename_i third
          dsimp only at found
          cases found
          obtain ⟨offset₃,_,inside₃⟩ := fieldEnds third
          rw [data₂] at inside₃
          refine ⟨?_,inside₃⟩
          rcases offset₂ with offset₂ | ⟨offset₂,_⟩ <;> omega
      · dsimp only at found
        cases found
        rcases offset₂ with offset₂ | ⟨offset₂,_⟩ <;> omega
    · cases found

end ClientMumbleMessage

def mumbleStream : StreamComponent :=
  ⟨ClientMumbleMessage,⟨⟨0,Primitive.rangePositive _⟩,⟨[],0⟩⟩,ClientMumbleMessage.Process,
    ClientMumbleMessage.GetSize,ClientMumbleMessage.GetMinSize,ClientMumbleMessage.processConsumes⟩

end Citizen.Net
