import Citizen.Lib.LittleEndian
import Citizen.Lib.Text
import Mathlib.Data.List.Sort
import Mathlib.Data.Nat.Bitwise

/-! The archive that is written for a resource set: the entries, their names and the data of the files, with
marks for the numbers that are known only later. -/
namespace Citizen.Packfile
open BitField (Byte)

attribute [local instance] byteOrder

structure Stream where
  contents : Text
  pos : Nat

def Stream.Write (s : Stream) (data : Text) : Stream :=
  ⟨s.contents.take s.pos ++ (data ++ s.contents.drop (s.pos + data.length)),s.pos + data.length⟩

structure MarkedWriter where
  m_stream : Stream
  m_marks : Text → Option Nat
  m_permaMarks : Text → Nat
  userState : Nat

namespace MarkedWriter

def Tell (w : MarkedWriter) : Nat := w.m_stream.pos

def Write (w : MarkedWriter) (data : Text) : MarkedWriter := { w with m_stream := w.m_stream.Write data }

def Write32 (w : MarkedWriter) (value : Nat) : MarkedWriter := w.Write (LittleEndian.bytes 4 value)

def WriteMark (w : MarkedWriter) (mark : Text) (value : Nat) : MarkedWriter :=
  let curPos := w.Tell
  let sought : MarkedWriter := { w with m_stream := { w.m_stream with pos := (w.m_marks mark).getD 0 } }
  let written := sought.Write32 value
  { written with
    m_stream := { written.m_stream with pos := curPos }, m_marks := Function.update w.m_marks mark none }

def Align (w : MarkedWriter) (alignment : Nat) : MarkedWriter :=
  let pos := w.Tell
  let difference := if pos % alignment = 0 then 0 else alignment - pos % alignment
  w.Write (List.replicate difference 0)

def Mark (w : MarkedWriter) (key : Text) : MarkedWriter :=
  { w with m_marks := Function.update w.m_marks key (some w.Tell) }

def PermaMark (w : MarkedWriter) (key : Text) : MarkedWriter :=
  { w with m_permaMarks := Function.update w.m_permaMarks key w.Tell }

def GetPositionSince (w : MarkedWriter) (key : Text) : Nat := w.Tell - w.m_permaMarks key

end MarkedWriter

structure Entry where
  m_name : Text
  m_isDirectory : Bool
  m_subEntries : List Entry
  m_backingFile : Text
  m_fullName : Text

def separator (b : Byte) : Bool := b = byte '/' || b = byte '\\'

def findSeparator (sv : Text) (pos : Nat) : Option Nat := ((sv.drop pos).findIdx? separator).map (· + pos)

theorem findSeparatorBounds {sv : Text} {pos i : Nat} (found : findSeparator sv pos = some i) : pos ≤ i ∧ i < sv.length := by
  obtain ⟨k,place,rfl⟩ := Option.map_eq_some_iff.mp found
  have inside := (List.findIdx?_eq_some_iff_getElem.mp place).1
  rw [List.length_drop] at inside
  omega

namespace Entry

/-- The tree after `push` was done to the directory that the path names. Directories that are missing are made
on the way; where a file is in the way nothing is done. -/
def FindDirectory (sv : Text) (push : Entry → Entry) (pos : Nat) (entry : Entry) : Entry :=
  match _found : findSeparator sv pos with
  | none => entry
  | some initialPos =>
    -- skip blanks
    let newPos := if separator (sv.getD (initialPos + 1) 0) then initialPos + 1 else initialPos
    let name := (sv.take initialPos).drop pos
    let below (thisEntry : Entry) : Entry :=
      if (findSeparator sv (newPos + 1)).isSome then thisEntry.FindDirectory sv push (newPos + 1) else push thisEntry
    match entry.m_subEntries.findIdx? (fun thisEntry => thisEntry.m_name = name) with
    | some i =>
      { entry with
        m_subEntries := entry.m_subEntries.modify i
          (fun thisEntry => if thisEntry.m_isDirectory then below thisEntry else thisEntry) }
    | none =>
      { entry with m_subEntries := entry.m_subEntries ++ [below ⟨name,true,[],[],sv.take initialPos⟩] }
termination_by sv.length - pos
decreasing_by
  have bounds := findSeparatorBounds _found
  split <;> omega

def push (file entry : Entry) : Entry := { entry with m_subEntries := entry.m_subEntries ++ [file] }

def AddFile (OpenRead : Text → Option Text) (entry : Entry) (fileName backingFile : Text) : Entry :=
  if (OpenRead backingFile).isNone then entry
  else
    match findSeparator fileName 0 with
    | none => push ⟨fileName,false,[],backingFile,fileName⟩ entry
    | some _ =>
      let name := (fileName.reverse.takeWhile (fun b => !separator b)).reverse
      entry.FindDirectory fileName (push ⟨name,false,[],backingFile,fileName⟩) 0

def sorted (subEntries : List Entry) : List Entry :=
  subEntries.mergeSort (fun left right => !decide (right.m_name < left.m_name))

theorem memSorted {subEntries : List Entry} {entry : Entry} : entry ∈ sorted subEntries ↔ entry ∈ subEntries :=
  List.mem_mergeSort

theorem sizeOfSub {parent entry : Entry} (mem : entry ∈ parent.m_subEntries) : sizeOf entry < sizeOf parent := by
  have smaller := List.sizeOf_lt_of_mem mem
  cases parent
  simp only [mk.sizeOf_spec]
  simp only at smaller
  omega

theorem sizeOfSorted {parent entry : Entry} (mem : entry ∈ sorted parent.m_subEntries) : sizeOf entry < sizeOf parent :=
  sizeOfSub (memSorted.mp mem)

theorem subInduction {motive : Entry → Prop} (step : ∀ entry, (∀ sub ∈ entry.m_subEntries, motive sub) → motive entry)
    (entry : Entry) : motive entry :=
  step entry (fun sub _ => subInduction step sub)
termination_by entry
decreasing_by exact sizeOfSub ‹_›

def Write (entry : Entry) (writer : MarkedWriter) : MarkedWriter :=
  let writer := (writer.Mark (text "nOff_" ++ entry.m_fullName)).Write32 0
  let writer :=
    if !entry.m_isDirectory then
      let writer := (writer.Mark (text "fLen_" ++ entry.m_fullName)).Write32 0
      let writer := (writer.Mark (text "fOff_" ++ entry.m_fullName)).Write32 0
      (writer.Mark (text "fLen2_" ++ entry.m_fullName)).Write32 0
    else
      let writer := writer.Write32 entry.m_subEntries.length
      let writer := (writer.Mark (text "cIdx_" ++ entry.m_fullName)).Write32 0
      writer.Write32 entry.m_subEntries.length
  { writer with userState := writer.userState + 1 }

def WriteSubEntries (entry : Entry) (writer : MarkedWriter) : MarkedWriter :=
  let writer :=
    if entry.m_isDirectory then writer.WriteMark (text "cIdx_" ++ entry.m_fullName) (writer.userState ||| 0x80000000)
    else writer
  let subEntries := sorted entry.m_subEntries
  let writer := subEntries.foldl (fun writer entry => entry.Write writer) writer
  subEntries.attach.foldl (fun writer entry => entry.1.WriteSubEntries writer) writer
termination_by entry
decreasing_by exact sizeOfSorted entry.2

def WriteNames (entry : Entry) (writer : MarkedWriter) : MarkedWriter :=
  let writer :=
    if entry.m_name ≠ [] then
      let writer := writer.WriteMark (text "nOff_" ++ entry.m_fullName) (writer.GetPositionSince (text "baseName"))
      (writer.Write entry.m_name).Write [0]
    else
      let writer := (writer.PermaMark (text "baseName")).WriteMark (text "nOff_") 0
      (writer.Write [byte '/']).Write [0]
  (sorted entry.m_subEntries).attach.foldl (fun writer entry => entry.1.WriteNames writer) writer
termination_by entry
decreasing_by exact sizeOfSorted entry.2

def copy (left : Text) (writer : MarkedWriter) : MarkedWriter :=
  let read := left.take 32768
  let writer := if 0 < read.length then writer.Write read else writer
  if read.length = 32768 then copy (left.drop 32768) writer else writer
termination_by left.length
decreasing_by
  rename_i full
  rw [List.length_take] at full
  rw [List.length_drop]
  omega

def WriteFiles (OpenRead : Text → Option Text) (entry : Entry) (writer : MarkedWriter) : MarkedWriter :=
  let writer :=
    if !entry.m_isDirectory then
      let writer := writer.WriteMark (text "fOff_" ++ entry.m_fullName) writer.Tell
      let backingStream := (OpenRead entry.m_backingFile).getD []
      let writer := writer.WriteMark (text "fLen_" ++ entry.m_fullName) backingStream.length
      let writer := writer.WriteMark (text "fLen2_" ++ entry.m_fullName) backingStream.length
      (copy backingStream writer).Align 2048
    else writer
  entry.m_subEntries.foldl (fun writer entry => entry.WriteFiles OpenRead writer) writer
termination_by entry
decreasing_by exact sizeOfSub ‹_›

end Entry

structure PackfileBuilder where
  m_rootEntry : Entry

namespace PackfileBuilder

def new : PackfileBuilder := ⟨⟨[],true,[],[],[]⟩⟩

def AddFile (OpenRead : Text → Option Text) (builder : PackfileBuilder) (fileName backing : Text) : PackfileBuilder :=
  ⟨builder.m_rootEntry.AddFile OpenRead fileName backing⟩

def writer (OpenRead : Text → Option Text) (builder : PackfileBuilder) : MarkedWriter :=
  let writer : MarkedWriter := ⟨⟨[],0⟩,fun _ => none,fun _ => 0,0⟩
  let writer := writer.Write32 0x32465052
  let writer := (writer.Mark (text "tocSize")).Write32 0
  let writer := (writer.Mark (text "numEntries")).Write32 0
  let writer := (writer.Write32 0).Write32 0
  let writer := writer.Align 2048
  let writer := builder.m_rootEntry.Write writer
  let writer := builder.m_rootEntry.WriteSubEntries writer
  let writer := builder.m_rootEntry.WriteNames writer
  let writer := writer.WriteMark (text "numEntries") writer.userState
  let writer := writer.Align 2048
  let writer := writer.WriteMark (text "tocSize") writer.Tell
  builder.m_rootEntry.WriteFiles OpenRead writer

def Write (OpenRead : Text → Option Text) (created : Bool) (builder : PackfileBuilder) : Option Text :=
  if created then some (builder.writer OpenRead).m_stream.contents else none

end PackfileBuilder
end Citizen.Packfile
