import Citizen.Net.ByteStream

/-! Packet types made of `SerializableProperty`, `SerializableVector` and
`SerializableOptional` members, and what their `Process` does with a `ByteWriter` and with a
`ByteReader`. -/
namespace Citizen.Net
open BitField (Byte)

inductive Primitive where
  | bool | uint8 | int8 | uint16 | int16 | uint32 | int32 | uint64 | int64
  deriving DecidableEq, Repr

def Primitive.sizeof : Primitive → Nat
  | bool | uint8 | int8 => 1
  | uint16 | int16 => 2
  | uint32 | int32 => 4
  | uint64 | int64 => 8

def Primitive.range (type : Primitive) : Nat :=
  if type = .bool then 2 else 256 ^ type.sizeof

def inOrder (bigEndian : Bool) (sizeof n : Nat) : Nat := if bigEndian then hton sizeof n else n

inductive ElementType where
  | uint8 | uint16 | uint32
  deriving DecidableEq, Repr

def ElementType.sizeof : ElementType → Nat
  | uint8 => 1
  | uint16 => 2
  | uint32 => 4

structure SerializableSizeOptionArea where
  elementType : Option ElementType
  Min : Nat
  Max : Nat
  deriving DecidableEq, Repr

abbrev PrefixedSizeOption := { option : SerializableSizeOptionArea // option.elementType ≠ none }

def SmallBytesArray : SerializableSizeOptionArea := ⟨some .uint8,0,0⟩
def BigBytesArray : SerializableSizeOptionArea := ⟨some .uint32,0,0⟩
def ConstrainedSmallBytesArray (Min Max : Nat) : SerializableSizeOptionArea := ⟨some .uint8,Min,Max⟩
def ConstrainedBytesArray (Min Max : Nat) : SerializableSizeOptionArea := ⟨some .uint16,Min,Max⟩
def ConstrainedBigBytesArray (Min Max : Nat) : SerializableSizeOptionArea := ⟨some .uint32,Min,Max⟩
def StreamTail : SerializableSizeOptionArea := ⟨none,0,0⟩
def ConstrainedStreamTail (Min Max : Nat) : SerializableSizeOptionArea := ⟨none,Min,Max⟩

inductive Processed (α : Type) where
  | success (value : α)
  | incomplete
  | error

abbrev Reading (α : Type) := ByteReader → Processed α × ByteReader

namespace Reading
variable {α β : Type}

def done (value : α) : Reading α := fun r => (.success value,r)

def andThen (first : Reading α) (next : α → Reading β) : Reading β := fun r =>
  match first r with
  | (.success value,r) => next value r
  | (.incomplete,r) => (.incomplete,r)
  | (.error,r) => (.error,r)

def field (length : Nat) : Reading (List Byte) := fun r =>
  match r.Field length with
  | some (bytes,r) => (.success bytes,r)
  | none => (.incomplete,r)

def each (element : Reading α) : Nat → Reading (List α)
  | 0 => done []
  | n + 1 => element.andThen (fun value => (each element n).andThen (fun rest => done (value :: rest)))

end Reading

namespace SerializableSizeOptionArea

def ValidateSize (option : SerializableSizeOptionArea) (size : Nat) : Bool :=
  if 0 < option.Min ∧ 0 < option.Max then !(size < option.Min || option.Max < size)
  else if 0 < option.Min then !(size < option.Min)
  else if 0 < option.Max then !(option.Max < size)
  else true

-- What `Field` returns is not looked at.
def write (option : SerializableSizeOptionArea) (bigEndian : Bool) (suggestion : Nat)
    (w : ByteWriter) : Option (Nat × ByteWriter) :=
  if option.ValidateSize suggestion then
    match option.elementType with
    | none => some (suggestion,w)
    | some type =>
      let size := suggestion % 256 ^ type.sizeof
      some (size,(w.Field (LittleEndian.bytes type.sizeof (inOrder bigEndian type.sizeof size))).getD w)
  else none

def received (option : SerializableSizeOptionArea) (bigEndian : Bool) (r : ByteReader) : Nat × ByteReader :=
  match option.elementType with
  | none => (r.GetRemaining,r)
  | some type =>
    match r.Field type.sizeof with
    | some (bytes,r) => (inOrder bigEndian type.sizeof (LittleEndian.value bytes),r)
    | none => (inOrder bigEndian type.sizeof (r.takeGarbage.1 % 256 ^ type.sizeof),r.takeGarbage.2)

def read (option : SerializableSizeOptionArea) (bigEndian : Bool) : Reading Nat := fun r =>
  let size := option.received bigEndian r
  if option.ValidateSize size.1 then (.success size.1,size.2) else (.error,size.2)

end SerializableSizeOptionArea

/-- `elements` is a string, a `std::vector` or a `Span` with elements of `sizeof` bytes, `vector` a `SerializableVector` with its size
in front, as every one of the repository has it, `choose` a number
that says which members follow. -/
inductive PacketType where
  | property (type : Primitive) (bigEndian : Bool)
  | elements (option : SerializableSizeOptionArea) (bigEndian : Bool) (sizeof : Fin (2^16))
  | vector (option : PrefixedSizeOption) (bigEndian : Bool) (member : PacketType)
  | nil
  | cons (first rest : PacketType)
  | choose (type : Primitive) (rest : Fin type.range → PacketType)

namespace PacketType

def Value : PacketType → Type
  | property type _ => Fin type.range
  | elements _ _ sizeof => List (Fin sizeof → Byte)
  | vector _ _ member => List member.Value
  | nil => Unit
  | cons first rest => first.Value × rest.Value
  | choose type rest => Σ number : Fin type.range, (rest number).Value

def memory {sizeof : Nat} (es : List (Fin sizeof → Byte)) : List Byte := es.flatMap List.ofFn

def ofMemory (sizeof : Nat) : Nat → List Byte → List (Fin sizeof → Byte)
  | 0,_ => []
  | n + 1,bytes => (fun i => bytes.getD i 0) :: ofMemory sizeof n (bytes.drop sizeof)

end PacketType

theorem Primitive.rangePositive (type : Primitive) : 0 < type.range := by
  cases type <;> decide

def Primitive.toBytes (type : Primitive) (bigEndian : Bool) (number : Fin type.range) : List Byte :=
  LittleEndian.bytes type.sizeof (inOrder bigEndian type.sizeof number)

-- A byte other than 0 and 1 is no `bool`.
def Primitive.ofBytes (type : Primitive) (bigEndian : Bool) (bytes : List Byte) : Fin type.range :=
  ⟨inOrder bigEndian type.sizeof (LittleEndian.value bytes) % type.range,Nat.mod_lt _ type.rangePositive⟩

namespace PacketType
open Reading

def write : (t : PacketType) → t.Value → ByteWriter → Option ByteWriter
  | property type bigEndian,number,w => w.Field (type.toBytes bigEndian number)
  | elements option bigEndian _,(es : List (Fin _ → Byte)),w =>
    (option.write bigEndian es.length w).bind (fun (size,w) =>
      if size = 0 then some w else w.Field (memory (es.take size)))
  | vector option bigEndian member,(vs : List member.Value),w =>
    (option.1.write bigEndian vs.length w).bind (fun (size,w) =>
      (vs.take size).foldlM (fun w v => write member v w) w)
  | nil,_,w => some w
  | cons first rest,(v,vs),w => (write first v w).bind (write rest vs)
  | choose type rest,⟨number,v⟩,w => (w.Field (type.toBytes false number)).bind (write (rest number) v)

def read : (t : PacketType) → Reading t.Value
  | property type bigEndian =>
    (field type.sizeof).andThen (fun bytes => done (type.ofBytes bigEndian bytes))
  | elements option bigEndian sizeof =>
    (option.read bigEndian).andThen (fun size =>
      if size = 0 then done []
      else (field (size * sizeof % 2^64)).andThen (fun bytes => done (ofMemory sizeof size bytes)))
  | vector option bigEndian member =>
    (option.1.read bigEndian).andThen (fun size => each (read member) size)
  | nil => done ()
  | cons first rest => (read first).andThen (fun v => (read rest).andThen (fun vs => done (v,vs)))
  | choose type rest =>
    (field type.sizeof).andThen (fun bytes =>
      (read (rest (type.ofBytes false bytes))).andThen (fun v => done ⟨type.ofBytes false bytes,v⟩))

/-! The packets of the game protocol, their properties in the order in which they are processed. -/

def u8 : PacketType := property .uint8 false
def u16 : PacketType := property .uint16 false
def u32 : PacketType := property .uint32 false
def u64 : PacketType := property .uint64 false
def bool : PacketType := property .bool false

def span (option : SerializableSizeOptionArea) (sizeof : Fin (2^16)) : PacketType :=
  elements option false sizeof

def propertiesInOrder (properties : List PacketType) : PacketType := properties.foldr cons nil

def optional (property : PacketType) : PacketType :=
  choose .bool (fun m_set => if m_set.val = 0 then nil else property)

def packet (data : PacketType) : PacketType := propertiesInOrder [u32,data]

def sizeofIgnoreListEntry : Fin (2^16) := 10
def sizeofIdEntry : Fin (2^16) := 4
def sizeofByte : Fin (2^16) := 1

def ClientGameStateAck : PacketType :=
  propertiesInOrder [u64,span SmallBytesArray sizeofIgnoreListEntry,span SmallBytesArray 2]

namespace Flags
def IsMissingFrames : Nat := 1 <<< 0
def HasIgnoreList : Nat := 1 <<< 1
def HasRecreateList : Nat := 1 <<< 2
end Flags

-- A property whose flag is not set has the value of a fresh object on both sides.
def ClientGameStateNAck : PacketType :=
  choose .uint8 (fun flags => propertiesInOrder ([u64] ++
    (if flags.val &&& Flags.IsMissingFrames ≠ 0 then [u64,u64] else []) ++
    (if flags.val &&& Flags.HasIgnoreList ≠ 0 then
      [span SmallBytesArray sizeofIgnoreListEntry] else []) ++
    (if flags.val &&& Flags.HasRecreateList ≠ 0 then [span SmallBytesArray 2] else [])))

def ServerArrayUpdate : PacketType :=
  propertiesInOrder [u8,u16,u32,span (ConstrainedBigBytesArray 0 128) 1]
def ClientArrayUpdate : PacketType := propertiesInOrder [u8,u16,span (ConstrainedBytesArray 0 128) 1]
def ServerConVars : PacketType := propertiesInOrder [span StreamTail 1]
def ServerFrame : PacketType := propertiesInOrder [u32,u8,u8]
def ClientHeHost : PacketType := propertiesInOrder [u32,u32]
def ServerIHost : PacketType := propertiesInOrder [u16,u32]
def ClientIHost : PacketType := propertiesInOrder [u32]
def ClientIQuit : PacketType := propertiesInOrder [span (ConstrainedStreamTail 2 1024) 1]
def ClientMumbleMessage : PacketType :=
  propertiesInOrder [property .uint16 true,elements (ConstrainedBigBytesArray 1 8192) true 1]
def ServerClientEvent : PacketType :=
  propertiesInOrder [u16,span (ConstrainedBytesArray 2 65535) 1,span StreamTail 1]
def ClientServerEvent : PacketType :=
  propertiesInOrder
    [span (ConstrainedBytesArray 2 65535) 1,span (ConstrainedStreamTail 0 (384 * 1024)) 1]
def ClientNetGameEvent : PacketType :=
  propertiesInOrder [span SmallBytesArray 2,u16,u8,u16,span (ConstrainedBytesArray 0 1025) 1]
def ClientNetGameEventV2 : PacketType :=
  propertiesInOrder [span SmallBytesArray 2,u32,u16,bool,span (ConstrainedStreamTail 0 1025) 1]
def ServerNetGameEventV2 : PacketType :=
  propertiesInOrder [u16,u32,u16,bool,span (ConstrainedStreamTail 0 1025) 1]
def ServerNetGameEvent : PacketType := propertiesInOrder [span (ConstrainedStreamTail 0 2048) 1]
def ClientRequestObjectIds : PacketType := propertiesInOrder []
def ServerObjectIds (BigMode : Bool) : PacketType :=
  propertiesInOrder [span (ConstrainedBytesArray 0 (if BigMode then 6 else 64)) sizeofIdEntry]
def ServerPackedAcks : PacketType := propertiesInOrder [span (ConstrainedStreamTail 1 (2^32 - 1)) 1]
def ServerPackedClones : PacketType := propertiesInOrder [span (ConstrainedStreamTail 1 (2^32 - 1)) 1]
def ServerPaymentRequest : PacketType := propertiesInOrder [span (ConstrainedStreamTail 1 (2^32 - 1)) 1]
def ServerRpcNative : PacketType := propertiesInOrder [span (ConstrainedStreamTail 1 (2^32 - 1)) 1]
def ReassembledEvent : PacketType := propertiesInOrder [span (ConstrainedStreamTail 1 1088) 1]
def ReassembledEventV2 : PacketType :=
  propertiesInOrder [u64,u16,u16,span (ConstrainedStreamTail 0 2047) 1]
def ServerResourceStart : PacketType := propertiesInOrder [span StreamTail 1]
def ServerResourceStop : PacketType := propertiesInOrder [span StreamTail 1]
def ClientRoute : PacketType := propertiesInOrder [u16,u16,span (ConstrainedStreamTail 1 65535) 1]
def ClientServerCommand : PacketType := propertiesInOrder [span (ConstrainedBytesArray 1 4096) 1,u32]
def StateBag : PacketType := propertiesInOrder [span (ConstrainedStreamTail 1 (256 * 1024)) 1]
def StateBagV2 : PacketType :=
  propertiesInOrder [span (ConstrainedBytesArray 1 128) 1,span (ConstrainedBytesArray 1 1024) 1,
    span (ConstrainedStreamTail 1 (256 * 1024)) 1]
def TimeSyncRequest : PacketType := propertiesInOrder [u32,u32]
def TimeSyncResponse : PacketType := propertiesInOrder [TimeSyncRequest,u32]
def ServerWorldGrid : PacketType := propertiesInOrder [u32,span BigBytesArray 1]

def all : List PacketType :=
  [ClientGameStateAck,ClientGameStateNAck,ServerArrayUpdate,ClientArrayUpdate,ServerConVars,ServerFrame,
    ClientHeHost,ServerIHost,ClientIHost,ClientIQuit,ClientMumbleMessage,ServerClientEvent,
    ClientServerEvent,ClientNetGameEvent,ClientNetGameEventV2,ServerNetGameEventV2,ServerNetGameEvent,
    ClientRequestObjectIds,ServerObjectIds false,ServerObjectIds true,ServerPackedAcks,
    ServerPackedClones,ServerPaymentRequest,ServerRpcNative,ReassembledEvent,ReassembledEventV2,
    ServerResourceStart,ServerResourceStop,ClientRoute,ClientServerCommand,StateBag,StateBagV2,
    TimeSyncRequest,TimeSyncResponse,ServerWorldGrid]

end PacketType
end Citizen.Net
