import Citizen.Lib.BinarySearch
import Citizen.Lib.CString
import Citizen.Lib.LittleEndian

/-! The device that serves the files of an archive. -/
namespace Citizen.Packfile
open BitField (Byte)
open LittleEndian (load)

namespace RagePackfile

structure Entry where
  nameOffset : Nat
  length : Nat
  dataOffset : Nat
  isDirectory : Bool
  flags : Nat
  deriving DecidableEq

structure Header2 where
  magic : Nat
  tocSize : Nat
  numEntries : Nat
  unkFlag : Nat
  cryptoFlag : Nat

structure HandleData where
  valid : Bool
  entry : Entry
  curOffset : Nat

structure FindData where
  attributes : Nat
  length : Nat
  name : Text

def sizeofEntry : Nat := 16
def sizeofHeader : Nat := 20
def FILE_ATTRIBUTE_DIRECTORY : Nat := 16

def readHeader (data : Text) : Header2 :=
  ⟨load data 0 4,load data 4 4,load data 8 4,load data 12 4,load data 16 4⟩

def readEntry (data : Text) : Entry :=
  ⟨load data 0 4,load data 4 4,load data 8 4 % 2 ^ 31,2 ^ 31 ≤ load data 8 4,load data 12 4⟩

end RagePackfile

open RagePackfile

structure RagePackfile where
  parent : Text
  m_parentPtr : Nat
  m_pathPrefix : Text
  m_header : Header2
  m_handles : List HandleData
  m_entries : List RagePackfile.Entry
  m_nameTable : Text

namespace RagePackfile

def bulk (parent : Text) (ptr size : Nat) : Text := (parent.drop ptr).take size

inductive OpenError where
  | device
  | opening
  | header
  | magic
  | crypto
  deriving DecidableEq

def OpenArchive (parentDevice : Bool) (opened : Option (Text × Nat)) : Except OpenError RagePackfile :=
  if !parentDevice then .error .device
  else
    match opened with
    | none => .error .opening
    | some (parent,m_parentPtr) =>
      let header := bulk parent m_parentPtr sizeofHeader
      if header.length ≠ sizeofHeader then .error .header
      else
        let m_header := readHeader header
        if m_header.magic ≠ 0x32465052 then .error .magic
        else if m_header.cryptoFlag ≠ 0 then .error .crypto
        else
          let read := bulk parent (m_parentPtr + 2048) m_header.tocSize
          let toc := read ++ List.replicate (m_header.tocSize - read.length) 0
          let entryTableSize := m_header.numEntries * sizeofEntry
          .ok {
            parent := parent, m_parentPtr := m_parentPtr, m_pathPrefix := [], m_header := m_header,
            m_handles := List.replicate 128 ⟨false,⟨0,0,0,false,0⟩,0⟩,
            m_entries := (List.range m_header.numEntries).map (fun i => readEntry (toc.drop (i * sizeofEntry))),
            m_nameTable := toc.drop entryTableSize }

variable (packfile : RagePackfile)

def entryAt (i : Nat) : Entry := packfile.m_entries.getD i ⟨0,0,0,false,0⟩

def nameAt (entry : Entry) : Text := packfile.m_nameTable.drop entry.nameOffset

def findChild (directory : Entry) (key : Text) : Option Nat :=
  match BinarySearch.search (fun i => strcmp (cString key) (packfile.nameAt (packfile.entryAt (directory.dataOffset + i))))
      0 directory.length with
  | some i => some (directory.dataOffset + i)
  | none =>
    -- try alternative search method
    ((List.range directory.length).find? (fun i =>
      stricmp (cString key) (packfile.nameAt (packfile.entryAt (directory.dataOffset + i))))).map (directory.dataOffset + ·)

def findSlash (relativePath : Text) (pos : Nat) : Option Nat :=
  ((relativePath.drop pos).findIdx? (fun b => b = byte '/')).map (· + pos)

def skipSlashes (relativePath : Text) (pos : Nat) : Nat :=
  pos + ((relativePath.drop pos).takeWhile (fun b => b = byte '/')).length

def findEntryLoop (relativePath : Text) : Nat → Nat → Nat → Option (Option Nat)
  | 0,_,_ => none
  | steps + 1,entry,pos =>
    if (packfile.entryAt entry).isDirectory then
      let nextPos := findSlash relativePath pos
      let key := (match nextPos with | some next => relativePath.take next | none => relativePath).drop pos
      -- for FindFirst/..., return just the directory
      if key = [] then some (some entry)
      else
        match packfile.findChild (packfile.entryAt entry) key with
        | none => some none
        | some entry =>
          -- `nextPos` is the largest number when no slash was found
          let pos := match nextPos with | some next => next + 1 | none => 0
          findEntryLoop relativePath steps entry (skipSlashes relativePath pos)
    else some (some entry)

def FindEntry (steps : Nat) (path : Text) : Option (Option Nat) :=
  if path.length ≤ packfile.m_pathPrefix.length then none
  else
    let relativePath := path.drop packfile.m_pathPrefix.length
    packfile.findEntryLoop relativePath steps 0 (skipSlashes relativePath 1)

def AllocateHandle (data : HandleData) : Nat × RagePackfile :=
  match packfile.m_handles.findIdx? (fun handle => !handle.valid) with
  | some i => (i,{ packfile with m_handles := packfile.m_handles.set i data })
  | none => (packfile.m_handles.length,{ packfile with m_handles := packfile.m_handles ++ [data] })

def GetHandle (inHandle : Nat) : Option HandleData := packfile.m_handles[inHandle]?.filter HandleData.valid

def Open (steps : Nat) (fileName : Text) (readOnly : Bool) : Option (Option Nat × RagePackfile) :=
  if readOnly then
    (packfile.FindEntry steps fileName).map (fun entry =>
      match entry with
      | some entry =>
        let (handle,packfile) := packfile.AllocateHandle ⟨true,packfile.entryAt entry,0⟩
        (some handle,packfile)
      | none => (none,packfile))
  else some (none,packfile)

def Read (handle size : Nat) : Option Text × RagePackfile :=
  match packfile.GetHandle handle with
  | none => (none,packfile)
  | some handleData =>
    if handleData.entry.length ≤ handleData.curOffset then (some [],packfile)
    else
      let toRead := min (handleData.entry.length - handleData.curOffset) size
      let didRead := bulk packfile.parent (packfile.m_parentPtr + handleData.entry.dataOffset + handleData.curOffset) toRead
      let handleData := { handleData with curOffset := handleData.curOffset + didRead.length }
      (some didRead,{ packfile with m_handles := packfile.m_handles.set handle handleData })

def GetLength (handle : Nat) : Option Nat := (packfile.GetHandle handle).map (fun handleData => handleData.entry.length)

def FillFindData (entry : Entry) : FindData :=
  ⟨if entry.isDirectory then FILE_ATTRIBUTE_DIRECTORY else 0,entry.length,cString (packfile.nameAt entry)⟩

def FindFirst (steps : Nat) (folder : Text) : Option (Option (Nat × FindData) × RagePackfile) :=
  (packfile.FindEntry steps folder).map (fun entry =>
    match entry with
    | some entry =>
      if (packfile.entryAt entry).isDirectory ∧ (packfile.entryAt entry).length ≠ 0 then
        let findData := packfile.FillFindData (packfile.entryAt (packfile.entryAt entry).dataOffset)
        let (handle,packfile) := packfile.AllocateHandle ⟨true,packfile.entryAt entry,0⟩
        (some (handle,findData),packfile)
      else (none,packfile)
    | none => (none,packfile))

def FindNext (handle : Nat) : Option FindData × RagePackfile :=
  match packfile.GetHandle handle with
  | none => (none,packfile)
  | some handleData =>
    let handleData := { handleData with curOffset := handleData.curOffset + 1 }
    let moved := { packfile with m_handles := packfile.m_handles.set handle handleData }
    if handleData.entry.length ≤ handleData.curOffset then (none,moved)
    else (some (packfile.FillFindData (packfile.entryAt (handleData.entry.dataOffset + handleData.curOffset))),moved)

end RagePackfile
end Citizen.Packfile
