import Citizen.Scripting.MsgPackDeserializer

/-! MessagePack documents, by the form each value takes, and what `MsgPackDeserializer` makes of their bytes. -/
namespace Citizen.Scripting.MsgPack
open BitField (Byte)
open RangeReader

def big (width n : Nat) : List Byte := (LittleEndian.bytes width n).reverse

inductive IntegerForm where
  | positive
  | negative
  | uint8
  | uint16
  | uint32
  | uint64
  | int8
  | int16
  | int32
  | int64
  deriving DecidableEq

inductive LengthForm where
  | fix
  | one
  | two
  | four
  deriving DecidableEq

inductive BinaryForm where
  | one
  | two
  | four
  deriving DecidableEq

inductive CountForm where
  | fix
  | two
  | four
  deriving DecidableEq

structure Str where
  form : LengthForm
  bytes : List Byte
  deriving DecidableEq

inductive Doc where
  | nil
  | boolean (b : Bool)
  | integer (form : IntegerForm) (n : Int)
  | single (bits : BitVec 32)
  | double (bits : BitVec 64)
  | string (s : Str)
  | binary (form : BinaryForm) (payload : List Byte)
  | array (form : CountForm) (items : List Doc)
  | map (form : CountForm) (entries : List (Str × Doc))
  | extension (form : LengthForm) (type : Byte) (payload : List Byte)

namespace IntegerForm

def Holds : IntegerForm → Int → Prop
  | positive,n => 0 ≤ n ∧ n < 128
  | negative,n => -32 ≤ n ∧ n < 0
  | uint8,n => 0 ≤ n ∧ n < 2 ^ 8
  | uint16,n => 0 ≤ n ∧ n < 2 ^ 16
  | uint32,n => 0 ≤ n ∧ n < 2 ^ 32
  | uint64,n => 0 ≤ n ∧ n < 2 ^ 64
  | int8,n => -2 ^ 7 ≤ n ∧ n < 2 ^ 7
  | int16,n => -2 ^ 15 ≤ n ∧ n < 2 ^ 15
  | int32,n => -2 ^ 31 ≤ n ∧ n < 2 ^ 31
  | int64,n => -2 ^ 63 ≤ n ∧ n < 2 ^ 63

def encode : IntegerForm → Int → List Byte
  | positive,n => [.ofInt 8 n]
  | negative,n => [.ofInt 8 n]
  | uint8,n => 0xCC :: big 1 n.toNat
  | uint16,n => 0xCD :: big 2 n.toNat
  | uint32,n => 0xCE :: big 4 n.toNat
  | uint64,n => 0xCF :: big 8 n.toNat
  | int8,n => 0xD0 :: big 1 (BitVec.ofInt 8 n).toNat
  | int16,n => 0xD1 :: big 2 (BitVec.ofInt 16 n).toNat
  | int32,n => 0xD2 :: big 4 (BitVec.ofInt 32 n).toNat
  | int64,n => 0xD3 :: big 8 (BitVec.ofInt 64 n).toNat

def type : IntegerForm → IntegerType
  | positive => .Byte
  | negative => .Int32
  | uint8 => .Byte
  | uint16 => .UInt16
  | uint32 => .UInt32
  | uint64 => .UInt64
  | int8 => .SByte
  | int16 => .Int16
  | int32 => .Int32
  | int64 => .Int64

end IntegerForm

namespace Str

def Holds : Str → Prop
  | ⟨.fix,bytes⟩ => bytes.length < 32
  | ⟨.one,bytes⟩ => bytes.length < 2 ^ 8
  | ⟨.two,bytes⟩ => bytes.length < 2 ^ 16
  | ⟨.four,bytes⟩ => bytes.length < 2 ^ 32

def head : LengthForm → Nat → List Byte
  | .fix,n => [.ofNat 8 (0xA0 + n)]
  | .one,n => 0xD9 :: big 1 n
  | .two,n => 0xDA :: big 2 n
  | .four,n => 0xDB :: big 4 n

def encode (s : Str) : List Byte := head s.form s.bytes.length ++ s.bytes

end Str

namespace BinaryForm

def Holds : BinaryForm → Nat → Prop
  | one,n => n < 2 ^ 8
  | two,n => n < 2 ^ 16
  | four,n => n < 2 ^ 32

def head : BinaryForm → Nat → List Byte
  | one,n => 0xC4 :: big 1 n
  | two,n => 0xC5 :: big 2 n
  | four,n => 0xC6 :: big 4 n

end BinaryForm

namespace CountForm

def Holds : CountForm → Nat → Prop
  | fix,n => n < 16
  | two,n => n < 2 ^ 16
  | four,n => n < 2 ^ 32

def arrayHead : CountForm → Nat → List Byte
  | fix,n => [.ofNat 8 (0x90 + n)]
  | two,n => 0xDC :: big 2 n
  | four,n => 0xDD :: big 4 n

def mapHead : CountForm → Nat → List Byte
  | fix,n => [.ofNat 8 (0x80 + n)]
  | two,n => 0xDE :: big 2 n
  | four,n => 0xDF :: big 4 n

end CountForm

namespace LengthForm

def Holds : LengthForm → Nat → Prop
  | fix,n => n = 1 ∨ n = 2 ∨ n = 4 ∨ n = 8 ∨ n = 16
  | one,n => n < 2 ^ 8
  | two,n => n < 2 ^ 16
  | four,n => n < 2 ^ 32

def fixTag : Nat → Byte
  | 1 => 0xD4
  | 2 => 0xD5
  | 4 => 0xD6
  | 8 => 0xD7
  | _ => 0xD8

def extensionHead : LengthForm → Nat → List Byte
  | fix,n => [fixTag n]
  | one,n => 0xC7 :: big 1 n
  | two,n => 0xC8 :: big 2 n
  | four,n => 0xC9 :: big 4 n

end LengthForm

def vectorSize (type : Byte) : Option Nat :=
  match type.toNat with
  | 20 => some 8
  | 21 => some 12
  | 22 => some 16
  | 23 => some 16
  | _ => none

namespace Doc

mutual

def encode : Doc → List Byte
  | nil => [0xC0]
  | boolean b => [if b then 0xC3 else 0xC2]
  | integer form n => form.encode n
  | single bits => 0xCA :: big 4 bits.toNat
  | double bits => 0xCB :: big 8 bits.toNat
  | string s => s.encode
  | binary form payload => form.head payload.length ++ payload
  | array form items => form.arrayHead items.length ++ encodeItems items
  | map form entries => form.mapHead entries.length ++ encodeEntries entries
  | extension form type payload => form.extensionHead payload.length ++ type :: payload

def encodeItems : List Doc → List Byte
  | [] => []
  | d :: items => d.encode ++ encodeItems items

def encodeEntries : List (Str × Doc) → List Byte
  | [] => []
  | (key,d) :: entries => key.encode ++ (d.encode ++ encodeEntries entries)

end

mutual

def Everywhere (P : Doc → Prop) : Doc → Prop
  | array form items => P (array form items) ∧ everyItem P items
  | map form entries => P (map form entries) ∧ everyEntry P entries
  | d => P d

def everyItem (P : Doc → Prop) : List Doc → Prop
  | [] => True
  | d :: items => d.Everywhere P ∧ everyItem P items

def everyEntry (P : Doc → Prop) : List (Str × Doc) → Prop
  | [] => True
  | (_,d) :: entries => d.Everywhere P ∧ everyEntry P entries

end

def Fits : Doc → Prop
  | integer form n => form.Holds n
  | string s => s.Holds
  | binary form payload => form.Holds payload.length
  | array form items => form.Holds items.length
  | map form entries =>
    form.Holds entries.length ∧ (∀ entry ∈ entries, entry.1.Holds) ∧ (entries.map (·.1.bytes)).Nodup
  | extension form type payload => form.Holds payload.length ∧ type.toNat ∈ [10,11,20,21,22,23]
  | _ => True

def WellFormed : Doc → Prop := Everywhere Fits

def VectorSized : Doc → Prop
  | extension _ type payload => ∀ size, vectorSize type = some size → payload.length = size
  | _ => True

def isArray : Doc → Bool
  | array .. => true
  | _ => false

end Doc

def component (payload : List Byte) (k : Nat) : BitVec 32 :=
  .ofNat 32 (LittleEndian.value ((payload.drop (4 * k)).take 4))

namespace Host
variable (host : Host) (netSource : Option Chars)

def extensionValue (type : Byte) (payload : List Byte) : Value :=
  match type.toNat with
  | 20 => .vector2 (component payload 0) (component payload 1)
  | 21 => .vector3 (component payload 0) (component payload 1) (component payload 2)
  | 22 => .vector4 (component payload 0) (component payload 1) (component payload 2) (component payload 3)
  | 23 => .quaternion (component payload 0) (component payload 1) (component payload 2) (component payload 3)
  | _ => match netSource with
    | none => .localFunction (host.newString payload)
    | some source =>
      if host.REMOTE_FUNCTION_ENABLED then .remoteFunction (host.newString payload) source else .null

mutual

def denote : Doc → Value
  | .nil => .null
  | .boolean b => .boolean b
  | .integer form n => .integer form.type n
  | .single bits => .single bits
  | .double bits => .double bits
  | .string s => .string (host.newString s.bytes)
  | .binary _ payload => .bytes payload
  | .array _ items => .array (denoteItems items)
  | .map _ entries => .map (denoteEntries entries)
  | .extension _ type payload => host.extensionValue netSource type payload

def denoteItems : List Doc → List Value
  | [] => []
  | d :: items => denote d :: denoteItems items

def denoteEntries : List (Str × Doc) → List (Chars × Value)
  | [] => []
  | (key,d) :: entries => (host.newString key.bytes,denote d) :: denoteEntries entries

end

mutual

def Accepts : Doc → Prop
  | .string s => s.bytes.length < 2 ^ 31
  | .binary _ payload => payload.length < 2 ^ 31
  | .array _ items => items.length < 2 ^ 31 ∧ acceptsItems items
  | .map _ entries => entries.length < 2 ^ 31 ∧ acceptsEntries entries
  | .extension _ type payload => type.toNat = 10 ∨ type.toNat = 11 →
    payload.length < 2 ^ 31 ∧ (netSource = none → host.DuplicateFunctionReference (host.newString payload))
  | _ => True

def acceptsItems : List Doc → Prop
  | [] => True
  | d :: items => Accepts d ∧ acceptsItems items

def acceptsEntries : List (Str × Doc) → Prop
  | [] => True
  | (key,d) :: entries => key.bytes.length < 2 ^ 31 ∧ Accepts d ∧
    (∀ other ∈ entries, host.newString other.1.bytes ≠ host.newString key.bytes) ∧ acceptsEntries entries

end

def InStep (d : Doc) : Prop :=
  ∀ before rest : List Byte,
    (∃ e, host.value netSource (before ++ d.encode ++ rest) before.length = .thrown e) ∨
      host.value netSource (before ++ d.encode ++ rest) before.length =
        .ok (host.denote netSource d) (before.length + d.encode.length)

def ArgumentsInStep (d : Doc) : Prop :=
  ∀ before rest : List Byte,
    (∃ e, host.arguments netSource (before ++ d.encode ++ rest) before.length = .thrown e) ∨
      ∃ items, host.denote netSource d = .array items ∧
        host.arguments netSource (before ++ d.encode ++ rest) before.length =
          .ok items (before.length + d.encode.length)

end Host

end Citizen.Scripting.MsgPack
