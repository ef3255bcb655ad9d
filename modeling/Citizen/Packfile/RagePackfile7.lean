import Citizen.Lib.Inflate
import Citizen.Packfile.RagePackfile

/-! Handles on the entries of an archive whose entries may be compressed. -/
namespace Citizen.Packfile
open Inflate (Decoder Code)
open RagePackfile (bulk)

namespace RagePackfile7

structure Entry where
  size : Nat
  offset : Nat
  virtFlags : Nat
  sizeBits : size < 2 ^ 24
  offsetBits : offset < 2 ^ 24
  virtFlagsBits : virtFlags < 2 ^ 32

structure HandleData (Stream : Type) where
  valid : Bool
  compressed : Bool
  entry : Entry
  curOffset : Nat
  curDecOffset : Nat
  next_in : Text
  strm : Stream

def HandleData.after {Stream : Type} (data : HandleData Stream) (e : Inflate.Inflated Stream) : HandleData Stream :=
  { data with strm := e.stream, next_in := data.next_in.drop e.consumed }

end RagePackfile7

open RagePackfile7

structure RagePackfile7 (Stream : Type) where
  parent : Text
  m_parentPtr : Nat
  m_handles : List (HandleData Stream)

namespace RagePackfile7

def wrap (n : Int) : Nat := (n % 2 ^ 64).toNat

def sizeofBuffer : Nat := 0x2000

def inflateError : Text := text "vfs::RagePackfile7 failed to inflate()."

inductive SeekType where
  | SEEK_SET
  | SEEK_CUR
  | SEEK_END
  | other
  deriving DecidableEq

variable {Stream : Type} (decoder : Decoder Stream) (packfile : RagePackfile7 Stream)

def AllocateHandle (data : HandleData Stream) : Nat × RagePackfile7 Stream :=
  match packfile.m_handles.findIdx? (fun handle => !handle.valid) with
  | some i => (i,{ packfile with m_handles := packfile.m_handles.set i data })
  | none => (packfile.m_handles.length,{ packfile with m_handles := packfile.m_handles ++ [data] })

def GetHandle (inHandle : Nat) : Option (HandleData Stream) := packfile.m_handles[inHandle]?.filter HandleData.valid

def setHandle (handle : Nat) (data : HandleData Stream) : RagePackfile7 Stream :=
  { packfile with m_handles := packfile.m_handles.set handle data }

def Open (entry : Option Entry) (readOnly : Bool) : Option Nat × RagePackfile7 Stream :=
  if readOnly then
    match entry with
    | some entry =>
      let (handle,packfile) := packfile.AllocateHandle ⟨true,entry.size ≠ 0,entry,0,0,[],decoder.fresh⟩
      (some handle,packfile)
    | none => (none,packfile)
  else (none,packfile)

def readEntry (data : HandleData Stream) (toRead : Nat) : Text :=
  bulk packfile.parent (wrap (packfile.m_parentPtr + Int.bmod (data.entry.offset * 512) (2 ^ 32) + data.curOffset)) toRead

def refill (data : HandleData Stream) : HandleData Stream :=
  if data.next_in = [] then
    let didRead := packfile.readEntry data (min (data.entry.size - data.curOffset) sizeofBuffer)
    { data with next_in := didRead, curOffset := data.curOffset + didRead.length }
  else data

/-- The loop of `InternalRead`, at most `steps` times: no result when these were not enough, an error when it was fatal. `written`
is what stands before `next_out`. -/
def InternalRead : Nat → HandleData Stream → Nat → Text → Option (Except Text (HandleData Stream × Text))
  | 0,_,_,_ => none
  | steps + 1,data,avail_out,written =>
    if avail_out = 0 then some (.ok (data,written))
    else
      let data := packfile.refill data
      let e := decoder.inflate data.strm data.next_in avail_out
      let data := data.after e
      match e.code with
      | .Z_STREAM_END => some (.ok (data,written ++ e.output))
      | .failed => some (.error inflateError)
      | .Z_OK => InternalRead steps data (avail_out - e.output.length) (written ++ e.output)

def Read (steps handle size : Nat) : Option (Except Text ((Nat × Text) × RagePackfile7 Stream)) :=
  match packfile.GetHandle handle with
  | none => some (.ok ((wrap (-1),[]),packfile))
  | some handleData =>
    -- detect EOF
    if handleData.entry.virtFlags ≤ handleData.curOffset then some (.ok ((0,[]),packfile))
    else if !handleData.compressed then
      let toRead := min (handleData.entry.virtFlags - handleData.curOffset) size
      let didRead := packfile.readEntry handleData toRead
      let handleData := { handleData with curOffset := handleData.curOffset + didRead.length }
      some (.ok ((didRead.length,didRead),packfile.setHandle handle handleData))
    else
      -- `avail_out` has 32 bits
      let avail_out := size % 2 ^ 32
      (packfile.InternalRead decoder steps handleData avail_out []).map (fun result => result.map (fun (handleData,written) =>
        let count := size - (avail_out - written.length)
        let handleData := { handleData with curDecOffset := handleData.curDecOffset + count }
        ((count,written),packfile.setHandle handle handleData)))

def seekForward (steps : Nat) : Nat → HandleData Stream → Nat → Option (Except Text (HandleData Stream))
  | 0,_,_ => none
  | more + 1,handleData,offsetTarget =>
    if handleData.curDecOffset < offsetTarget then
      let readSize := min (offsetTarget - handleData.curDecOffset) sizeofBuffer
      match packfile.InternalRead decoder steps handleData readSize [] with
      | none => none
      | some (.error error) => some (.error error)
      | some (.ok (handleData,written)) =>
        seekForward steps more { handleData with curDecOffset := handleData.curDecOffset + written.length } offsetTarget
    else some (.ok handleData)

/-- Where `Seek` is to go in a compressed entry. `uninitialised` is what the variable happens to be where nothing is assigned to it. -/
def offsetTarget (handleData : HandleData Stream) (offset : Int) (seekType : SeekType) (uninitialised : Nat) : Nat :=
  match seekType with
  | .SEEK_CUR =>
    let offsetTarget := wrap (handleData.curDecOffset + offset)
    if handleData.entry.virtFlags < offsetTarget then handleData.entry.virtFlags else offsetTarget
  | .SEEK_SET => wrap offset
  | .SEEK_END => wrap (handleData.entry.virtFlags - offset)
  | .other => uninitialised

def Seek (steps handle : Nat) (offset : Int) (seekType : SeekType) (uninitialised : Nat) :
    Option (Except Text (Nat × RagePackfile7 Stream)) :=
  match packfile.GetHandle handle with
  | none => some (.ok (wrap (-1),packfile))
  | some handleData =>
    if !handleData.compressed then
      let moved (curOffset : Nat) : Option (Except Text (Nat × RagePackfile7 Stream)) :=
        some (.ok (curOffset,packfile.setHandle handle { handleData with curOffset := curOffset }))
      match seekType with
      | .SEEK_CUR =>
        let curOffset := wrap (handleData.curOffset + offset)
        moved (if handleData.entry.virtFlags < curOffset then handleData.entry.virtFlags else curOffset)
      | .SEEK_SET => moved (wrap offset)
      | .SEEK_END => moved (wrap (handleData.entry.virtFlags - offset))
      | .other => some (.ok (wrap (-1),packfile))
    else
      let offsetTarget := offsetTarget handleData offset seekType uninitialised
      let handleData :=
        if offsetTarget < handleData.curDecOffset then
          { handleData with next_in := [], strm := decoder.fresh, curDecOffset := 0, curOffset := 0 }
        else handleData
      (packfile.seekForward decoder steps steps handleData offsetTarget).map (fun result => result.map (fun handleData =>
        (offsetTarget,packfile.setHandle handle handleData)))

end RagePackfile7
end Citizen.Packfile
