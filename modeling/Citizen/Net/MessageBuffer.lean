import Citizen.Lib.BitField

/-! The bit buffer `rl::MessageBuffer` that every hand-written packet of the game
state and event protocols is read from and written to. `m_curBit` only grows from
zero and is a natural number; `m_maxBit` is the C `int` made from the byte count. -/
namespace Citizen.Rl
open BitField (Byte byteAt bitAt Field)

structure MessageBuffer where
  data : List Byte
  curBit : Nat
  maxBit : Int
  deriving DecidableEq, Repr

def toInt (n : Nat) : Int := (BitVec.ofNat 32 n).toInt

def MessageBuffer.ofData (data : List Byte) : MessageBuffer := ⟨data,0,toInt (8 * data.length)⟩
def MessageBuffer.ofSize (size : Nat) : MessageBuffer := .ofData (List.replicate size 0)

def MessageBuffer.getDataLength (b : MessageBuffer) : Nat := b.curBit / 8 + if b.curBit % 8 = 0 then 0 else 1
def MessageBuffer.isAtEnd (b : MessageBuffer) : Bool := decide (b.maxBit ≤ b.curBit)

def readLoop (data : List Byte) (shift : Nat) : Nat → Nat → BitVec 32 → BitVec 32
  | 0,_,retval => retval
  | remaining + 1,startIdx,retval =>
      let thisVal := (byteAt data startIdx).setWidth 32 <<< shift
      readLoop data shift remaining (startIdx + 1) (thisVal ||| (retval <<< 8))

def hackLength (lengthHack : Bool) (length : Nat) : Nat :=
  if length = 13 && lengthHack then 16 else length

def MessageBuffer.readBitsSingle (lengthHack : Bool) (b : MessageBuffer) (length : Nat) :
    Option (BitVec 32) × MessageBuffer :=
  let length := hackLength lengthHack length
  let moved := { b with curBit := b.curBit + length }
  if b.maxBit < b.curBit + length then (none,moved)
  else
    let startIdx := b.curBit / 8
    let shift := b.curBit % 8
    let remaining := if 8 < length then (length - 9) / 8 + 1 else 0
    let first := (byteAt b.data startIdx <<< shift).setWidth 32
    let retval := readLoop b.data shift remaining (startIdx + 1) first
    let leftover := byteAt b.data (startIdx + 1 + remaining)
    let retval := if shift = 0 then retval
      else retval ||| (leftover >>> (8 - shift)).setWidth 32
    (some (retval >>> ((length + 7) / 8 * 8 - length)),moved)

def MessageBuffer.read (lengthHack : Bool) (b : MessageBuffer) (length : Nat) : Nat × MessageBuffer :=
  match b.readBitsSingle lengthHack length with
  | (some value,b) => (value.toNat,b)
  | (none,b) => (0,b)

def MessageBuffer.readBit (b : MessageBuffer) : Nat × MessageBuffer :=
  if b.data.length ≤ b.curBit / 8 then (0,b)
  else ((bitAt b.data b.curBit).toNat,{ b with curBit := b.curBit + 1 })

/-- The byte-wise tail shared by the decompiled writers: the top byte of `v` replaces
the bits that the top byte of `m` selects, then both move up by eight. -/
def spill : List Byte → Nat → BitVec 32 → BitVec 32 → Nat → List Byte
  | data,_,_,_,0 => data
  | data,i,v,m,n + 1 =>
      let byte := (v >>> 24).setWidth 8 ||| (byteAt data i &&& ~~~((m >>> 24).setWidth 8))
      spill (data.set i byte) (i + 1) (v <<< 8) (m <<< 8) n

def mergeTop (data : List Byte) (i shift : Nat) (v m : BitVec 32) : List Byte :=
  data.set i ((v >>> 24 >>> shift).setWidth 8 |||
    (byteAt data i &&& ~~~((m >>> 24 >>> shift).setWidth 8)))

def ones (width : Nat) : BitVec 32 := BitVec.allOnes 32 <<< (32 - width)

def MessageBuffer.writeBitsSingle (lengthHack : Bool) (b : MessageBuffer) (length : Nat) (value : BitVec 32) :
    Bool × MessageBuffer :=
  let length := hackLength lengthHack length
  if b.maxBit < b.curBit + length then (false,b)
  else
    let v5 := b.curBit % 8
    let v7 := value <<< (32 - length)
    let data := mergeTop b.data (b.curBit / 8) v5 v7 (ones length)
    let data := if 8 - v5 < length then
        spill data (b.curBit / 8 + 1) (v7 <<< (8 - v5)) (ones length <<< (8 - v5))
          ((length - (8 - v5) - 1) / 8 + 1)
      else data
    (true,{ b with data, curBit := b.curBit + length })

def MessageBuffer.write (lengthHack : Bool) (b : MessageBuffer) (length value : Nat) : MessageBuffer :=
  (b.writeBitsSingle lengthHack length (BitVec.ofNat 32 value)).2

def MessageBuffer.writeBit (b : MessageBuffer) (bit : Nat) : Bool × MessageBuffer :=
  let startIdx := b.curBit / 8
  if b.data.length ≤ startIdx then (false,b)
  else
    let shift := 7 - b.curBit % 8
    let byte := (byteAt b.data startIdx &&& ~~~(1#8 <<< shift)) ||| (BitVec.ofNat 8 bit <<< shift)
    (true,{ b with data := b.data.set startIdx byte, curBit := b.curBit + 1 })

def memcpy (dest : List Byte) (d : Nat) (src : List Byte) (s : Nat) : Nat → List Byte
  | 0 => dest
  | n + 1 => memcpy (dest.set d (byteAt src s)) (d + 1) src (s + 1) n

/-- Whole source bytes into an unaligned destination. `v23` carries the byte that the
previous round wrote, so that its high `v21` bits survive. -/
def shiftLoop : List Byte → Nat → List Byte → Nat → Nat → Byte → Nat → List Byte
  | dest,_,_,_,_,_,0 => dest
  | dest,d,src,s,v21,v23,n + 1 =>
      let kept := (0xFF#8 <<< (8 - v21)) &&& v23
      let next := (byteAt src s <<< (8 - v21)) ||| ((0xFF#8 >>> v21) &&& byteAt dest (d + 1))
      let dest := dest.set d ((byteAt src s >>> v21) ||| kept)
      shiftLoop (dest.set (d + 1) next) (d + 1) src (s + 1) v21 next n

def topBits (byte : Byte) (width : Nat) : BitVec 32 :=
  (byte.setWidth 32 >>> (8 - width)) <<< (32 - width)

def copyTail (dest : List Byte) (d shift : Nat) (byte : Byte) (width : Nat) : List Byte :=
  let dest := mergeTop dest d shift (topBits byte width) (ones width)
  if 8 - shift < width then
    spill dest (d + 1) (topBits byte width <<< (8 - shift)) (ones width <<< (8 - shift))
      ((width + shift - 9) / 8 + 1)
  else dest

/-- How often the unaligned-source branch stores a spilled byte. The comparison is
unsigned and the constant is `!a3`, as the source has them. -/
def spillCount (v5 v8 length : Nat) : Nat :=
  let v16 : BitVec 32 := BitVec.ofInt 32 ((v8 : Int) - 9)
  let v16 := if v16 < ~~~(BitVec.ofNat 32 length) then (if length = 0 then 1 else 0) else v16
  ((BitVec.ofNat 32 v5 - 10 - v16) >>> 3).toNat + 1

def copyBits (dest src : List Byte) (length destBitOffset sourceBitOffset : Nat) : List Byte :=
  let v8 := sourceBitOffset % 8
  let v9 := sourceBitOffset / 8
  let v10 := if v8 = 0 then 0 else min (8 - v8) length
  let head :=
    if v8 = 0 then dest
    else
      let v5 := destBitOffset % 8
      let v13 := topBits (byteAt src v9 <<< v8) v10
      let merged := mergeTop dest (destBitOffset / 8) v5 v13 (ones v10)
      if 8 - v5 < v10 then
        spill merged (destBitOffset / 8 + 1) (v13 <<< (8 - v5)) (ones v10 <<< (8 - v5))
          (spillCount v5 v8 length)
      else merged
  let v9 := if v8 = 0 then v9 else v9 + 1
  let v6 := length - v10
  let v5 := destBitOffset + v10
  if v6 = 0 then head
  else
    let v20 := v6 / 8
    if v20 = 0 then copyTail head (v5 / 8) (v5 % 8) (byteAt src v9) v6
    else
      let body :=
        if v5 % 8 = 0 then memcpy head (v5 / 8) src v9 v20
        else shiftLoop head (v5 / 8) src v9 (v5 % 8) (byteAt head (v5 / 8)) v20
      if v6 % 8 = 0 then body
      else copyTail body ((v5 + v20 * 8) / 8) (v5 % 8) (byteAt src (v9 + v20)) (v6 % 8)

def copyBitsReads (length sourceBitOffset : Nat) : List Nat :=
  let v8 := sourceBitOffset % 8
  let v9 := sourceBitOffset / 8
  let v10 := if v8 = 0 then 0 else min (8 - v8) length
  let head := if v8 = 0 then [] else [v9]
  let v9 := if v8 = 0 then v9 else v9 + 1
  let v6 := length - v10
  let v20 := v6 / 8
  let body := (List.range v20).map (v9 + ·)
  let tail := if v6 % 8 = 0 then [] else [v9 + v20]
  head ++ body ++ tail

def MessageBuffer.readBits (b : MessageBuffer) (dest : List Byte) (length : Nat) : Bool × List Byte × MessageBuffer :=
  if length = 0 then (true,dest,b)
  else if b.maxBit < b.curBit + length then (false,dest,b)
  else (true,copyBits dest b.data length 0 b.curBit,{ b with curBit := b.curBit + length })

def MessageBuffer.writeBits (b : MessageBuffer) (src : List Byte) (length : Nat) : Bool × MessageBuffer :=
  if b.maxBit < b.curBit + length then (false,b)
  else
    (true,{ b with data := copyBits b.data src length b.curBit 0, curBit := b.curBit + length })

def MessageBuffer.setCurrentBit (b : MessageBuffer) (bit : Nat) : MessageBuffer := { b with curBit := bit }

end Citizen.Rl
