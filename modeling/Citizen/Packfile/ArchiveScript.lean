import Citizen.Lib.Backfill
import Citizen.Packfile.PackfileBuilder

/-! The builder's writes as one list of operations on a stream with forward references. -/
namespace Citizen.Packfile
open BitField (Byte)
open Backfill (State step)

attribute [local instance] byteOrder

abbrev Op := Backfill.Op Text Byte

abbrev code (n : Nat) : Text := LittleEndian.bytes 4 n

def padding (alignment pos : Nat) : Text :=
  List.replicate (if pos % alignment = 0 then 0 else alignment - pos % alignment) 0

def tocStart : Nat := 2048

def childIndex (pos : Nat) : Nat := (pos - tocStart) / 16 ||| 0x80000000

namespace Entry

def nOff (entry : Entry) : Text := text "nOff_" ++ entry.m_fullName
def fLen (entry : Entry) : Text := text "fLen_" ++ entry.m_fullName
def fOff (entry : Entry) : Text := text "fOff_" ++ entry.m_fullName
def fLen2 (entry : Entry) : Text := text "fLen2_" ++ entry.m_fullName
def cIdx (entry : Entry) : Text := text "cIdx_" ++ entry.m_fullName

def recordOps (entry : Entry) : List Op :=
  .mark entry.nOff ::
    if !entry.m_isDirectory then [.mark entry.fLen,.mark entry.fOff,.mark entry.fLen2]
    else [.data (fun _ => code entry.m_subEntries.length),.mark entry.cIdx,.data (fun _ => code entry.m_subEntries.length)]

def childOps (entry : Entry) : List Op :=
  (if entry.m_isDirectory then [.fill entry.cIdx childIndex] else []) ++ (sorted entry.m_subEntries).flatMap recordOps

def tableOps (entry : Entry) : List Op :=
  entry.childOps ++ (sorted entry.m_subEntries).attach.flatMap (fun entry => entry.1.tableOps)
termination_by entry
decreasing_by exact sizeOfSorted entry.2

def nameOp (base : Nat) (entry : Entry) : List Op :=
  if entry.m_name ≠ [] then [.fill entry.nOff (fun pos => pos - base),.data (fun _ => entry.m_name),.data (fun _ => [0])]
  else [.fill (text "nOff_") (fun _ => 0),.data (fun _ => [byte '/']),.data (fun _ => [0])]

def nameOps (base : Nat) (entry : Entry) : List Op :=
  entry.nameOp base ++ (sorted entry.m_subEntries).attach.flatMap (fun entry => entry.1.nameOps base)
termination_by entry
decreasing_by exact sizeOfSorted entry.2

def copyOps (left : Text) : List Op :=
  let read := left.take 32768
  (if 0 < read.length then [.data (fun _ => read)] else []) ++
    if read.length = 32768 then copyOps (left.drop 32768) else []
termination_by left.length
decreasing_by
  rename_i full
  rw [List.length_take] at full
  rw [List.length_drop]
  omega

variable (OpenRead : Text → Option Text)

def fileOp (entry : Entry) : List Op :=
  if !entry.m_isDirectory then
    let backingStream := (OpenRead entry.m_backingFile).getD []
    [.fill entry.fOff id,.fill entry.fLen (fun _ => backingStream.length),
      .fill entry.fLen2 (fun _ => backingStream.length)] ++ copyOps backingStream ++ [.data (padding 2048)]
  else []

def fileOps (entry : Entry) : List Op :=
  entry.fileOp OpenRead ++ entry.m_subEntries.flatMap (fun entry => entry.fileOps)
termination_by entry
decreasing_by exact sizeOfSub ‹_›

end Entry

def headOps : List Op :=
  [.data (fun _ => code 0x32465052),.mark (text "tocSize"),.mark (text "numEntries"),.data (fun _ => code 0),
    .data (fun _ => code 0),.data (padding 2048)]

def archiveOps (OpenRead : Text → Option Text) (base count : Nat) (root : Entry) : List Op :=
  headOps ++ root.recordOps ++ root.tableOps ++ root.nameOps base ++
    [.fill (text "numEntries") (fun _ => count),.data (padding 2048),.fill (text "tocSize") id] ++ root.fileOps OpenRead

def MarkedWriter.state (w : MarkedWriter) : State Text Byte := ⟨w.m_stream.contents,w.m_stream.pos,w.m_marks⟩

namespace MarkedWriter
variable {w : MarkedWriter}

theorem stateWrite (data : Text) : (w.Write data).state = step code w.state (.data (fun _ => data)) := rfl

theorem tellMark (key : Text) : (w.Mark key).Tell = w.Tell := rfl

theorem tellWrite32 (value : Nat) : (w.Write32 value).Tell = w.Tell + 4 := by
  unfold Tell Write32 MarkedWriter.Write Stream.Write
  rw [LittleEndian.bytesLength]

theorem tellCount (count : Nat) : Tell { w with userState := count } = w.Tell := rfl

theorem stateWriteMark {key : Text} {value : Nat} {f : Nat → Nat} (same : f w.Tell = value) :
    (w.WriteMark key value).state = step code w.state (.fill key f) := by
  rw [← same]
  rfl

theorem stateAlign (alignment : Nat) : (w.Align alignment).state = step code w.state (.data (padding alignment)) := rfl

def Counted (w : MarkedWriter) : Prop := w.Tell = tocStart + 16 * w.userState

end MarkedWriter

theorem foldRun {f : MarkedWriter → Entry → MarkedWriter} {ops : Entry → List Op} (I : MarkedWriter → Prop) {l : List Entry}
    (each : ∀ entry ∈ l, ∀ w, I w → (f w entry).state = Backfill.run code w.state (ops entry) ∧ I (f w entry)) {w : MarkedWriter}
    (base : I w) : (l.foldl f w).state = Backfill.run code w.state (l.flatMap ops) ∧ I (l.foldl f w) := by
  induction l generalizing w with
  | nil => exact ⟨rfl,base⟩
  | cons entry rest ih =>
    obtain ⟨first,later⟩ := List.forall_mem_cons.mp each
    obtain ⟨state,kept⟩ := first w base
    obtain ⟨state',kept'⟩ := ih later kept
    rw [List.foldl_cons,List.flatMap_cons,Backfill.runAppend,← state]
    exact ⟨state',kept'⟩

namespace Entry
open MarkedWriter

theorem attachFlatMap {α β : Type} (l : List α) (f : α → List β) : l.attach.flatMap (fun a => f a.1) = l.flatMap f := by
  rw [List.flatMap_def,List.attach_map_val,List.flatMap_def]

theorem tableOpsSplit (entry : Entry) :
    entry.tableOps = entry.childOps ++ (sorted entry.m_subEntries).flatMap tableOps := by
  rw [tableOps,attachFlatMap _ tableOps]

theorem nameOpsSplit (base : Nat) (entry : Entry) :
    entry.nameOps base = entry.nameOp base ++ (sorted entry.m_subEntries).flatMap (nameOps base) := by
  rw [nameOps,attachFlatMap _ (nameOps base)]

theorem writeTell (entry : Entry) (w : MarkedWriter) :
    (entry.Write w).Tell = w.Tell + 16 ∧ (entry.Write w).userState = w.userState + 1 := by
  unfold Write
  cases entry.m_isDirectory with
  | false =>
    refine ⟨?_,rfl⟩
    rw [tellCount,if_pos Bool.not_false,tellWrite32,tellMark,tellWrite32,tellMark,tellWrite32,tellMark,tellWrite32,tellMark]
  | true =>
    refine ⟨?_,rfl⟩
    rw [tellCount,if_neg (by decide),tellWrite32,tellWrite32,tellMark,tellWrite32,tellWrite32,tellMark]

theorem writeRun {w : MarkedWriter} (entry : Entry) (counted : w.Counted) :
    (entry.Write w).state = Backfill.run code w.state entry.recordOps ∧ (entry.Write w).Counted := by
  constructor
  · unfold Write recordOps
    cases entry.m_isDirectory with
    | false => rfl
    | true => rfl
  · obtain ⟨tell,user⟩ := writeTell entry w
    unfold Counted at counted ⊢
    omega

theorem writeSubEntriesRun (entry : Entry) {w : MarkedWriter} (counted : w.Counted) :
    (entry.WriteSubEntries w).state = Backfill.run code w.state entry.tableOps ∧ (entry.WriteSubEntries w).Counted := by
  induction entry using subInduction generalizing w with
  | step entry ih =>
    have index : childIndex w.Tell = w.userState ||| 0x80000000 := by
      rw [childIndex,counted,Nat.add_sub_cancel_left,Nat.mul_div_cancel_left _ (by decide)]
    let marked := if entry.m_isDirectory then w.WriteMark entry.cIdx (w.userState ||| 0x80000000) else w
    have first : marked.state = Backfill.run code w.state (if entry.m_isDirectory then [.fill entry.cIdx childIndex] else []) ∧
        marked.Counted := by
      unfold marked
      cases entry.m_isDirectory with
      | false => exact ⟨rfl,counted⟩
      | true => exact ⟨stateWriteMark index,counted⟩
    obtain ⟨records,counted'⟩ := foldRun Counted (fun entry _ _ counted => writeRun entry counted) first.2
    obtain ⟨tables,counted''⟩ := foldRun Counted (fun entry mem _ counted => ih entry (memSorted.mp mem) counted) counted'
    have split : entry.WriteSubEntries w = (sorted entry.m_subEntries).foldl (fun w sub => sub.WriteSubEntries w)
        ((sorted entry.m_subEntries).foldl (fun w sub => sub.Write w) marked) := by
      rw [WriteSubEntries]
      exact List.foldl_attach (f := fun w sub => WriteSubEntries sub w)
    rw [split]
    refine ⟨tables.trans ?_,counted''⟩
    rw [tableOpsSplit,childOps,Backfill.runAppend,Backfill.runAppend,← first.1,← records]

inductive Named : Entry → Prop where
  | mk {entry : Entry} (subs : ∀ sub ∈ entry.m_subEntries, sub.m_name ≠ []) (below : ∀ sub ∈ entry.m_subEntries, Named sub) :
      Named entry

def Naming (base count : Nat) (w : MarkedWriter) : Prop := w.m_permaMarks (text "baseName") = base ∧ w.userState = count

theorem writeNamesRun {entry : Entry} (all : Named entry) {base count : Nat} {w : MarkedWriter}
    (since : (if entry.m_name ≠ [] then w.m_permaMarks (text "baseName") else w.Tell) = base) (counted : w.userState = count) :
    (entry.WriteNames w).state = Backfill.run code w.state (entry.nameOps base) ∧ Naming base count (entry.WriteNames w) := by
  induction all generalizing w with
  | @mk entry subs below ih =>
    have each : ∀ sub ∈ sorted entry.m_subEntries, ∀ w : MarkedWriter, Naming base count w →
        (sub.WriteNames w).state = Backfill.run code w.state (sub.nameOps base) ∧ Naming base count (sub.WriteNames w) :=
      fun sub mem w naming =>
        ih sub (memSorted.mp mem) (by rw [if_pos (subs sub (memSorted.mp mem)),naming.1]) naming.2
    have split (w : MarkedWriter) : (sorted entry.m_subEntries).attach.foldl (fun w sub => sub.1.WriteNames w) w =
        (sorted entry.m_subEntries).foldl (fun w sub => sub.WriteNames w) w :=
      List.foldl_attach (f := fun w sub => WriteNames sub w)
    rw [WriteNames,split,nameOpsSplit,nameOp,Backfill.runAppend]
    split at since
    · rename_i named
      rw [if_pos named,if_pos named]
      obtain ⟨state,kept⟩ := foldRun (Naming base count) each
        (w := ((w.WriteMark entry.nOff (w.GetPositionSince (text "baseName"))).Write entry.m_name).Write [0]) ⟨since,counted⟩
      have fill : (w.WriteMark entry.nOff (w.GetPositionSince (text "baseName"))).state =
          step code w.state (.fill entry.nOff (fun pos => pos - base)) := stateWriteMark (by rw [← since]; rfl)
      rw [stateWrite,stateWrite,fill] at state
      exact ⟨state,kept⟩
    · rename_i unnamed
      rw [if_neg unnamed,if_neg unnamed]
      have here : Function.update w.m_permaMarks (text "baseName") w.Tell (text "baseName") = base := by
        rw [Function.update_self,since]
      exact foldRun (Naming base count) each
        (w := (((w.PermaMark (text "baseName")).WriteMark (text "nOff_") 0).Write [byte '/']).Write [0]) ⟨here,counted⟩

theorem copyRun (left : Text) (w : MarkedWriter) : (copy left w).state = Backfill.run code w.state (copyOps left) := by
  induction left using copyOps.induct generalizing w with
  | case1 left read ih =>
    rw [copy,copyOps,Backfill.runAppend]
    have written : (if 0 < read.length then w.Write read else w).state =
        Backfill.run code w.state (if 0 < read.length then [.data (fun _ => read)] else []) := by
      split <;> rfl
    rw [← written]
    by_cases full : read.length = 32768
    · rw [if_pos full,if_pos full]
      exact ih full _
    · rw [if_neg full,if_neg full]
      rfl

theorem writeFilesRun (OpenRead : Text → Option Text) (entry : Entry) (w : MarkedWriter) :
    (entry.WriteFiles OpenRead w).state = Backfill.run code w.state (entry.fileOps OpenRead) := by
  induction entry using subInduction generalizing w with
  | step entry ih =>
    rw [WriteFiles,fileOps,Backfill.runAppend]
    refine (foldRun (fun _ => True) (fun sub mem w _ => ⟨ih sub mem w,trivial⟩) trivial).1.trans (congrArg (Backfill.run code · _) ?_)
    unfold fileOp
    cases entry.m_isDirectory with
    | true => rfl
    | false =>
      simp only [Bool.not_false,if_true]
      rw [Backfill.runAppend,Backfill.runAppend,stateAlign,copyRun]
      rfl

end Entry

theorem writerRun (OpenRead : Text → Option Text) {root : Entry} (unnamed : root.m_name = []) (named : root.Named) :
    ∃ base count, ((PackfileBuilder.mk root).writer OpenRead).state = Backfill.run code .start (archiveOps OpenRead base count root) ∧
      base = (Backfill.run code .start (headOps ++ root.recordOps ++ root.tableOps)).pos ∧ base = tocStart + 16 * count := by
  let start : MarkedWriter := ⟨⟨[],0⟩,fun _ => none,fun _ => 0,0⟩
  let header := ((((((start.Write32 0x32465052).Mark (text "tocSize")).Write32 0).Mark (text "numEntries")).Write32 0).Write32
    0).Write32 0
  let headed := header.Align 2048
  have head : headed.state = Backfill.run code .start headOps := rfl
  have counted : headed.Counted := by
    change header.Tell + (padding 2048 header.Tell).length = tocStart + 16 * 0
    rw [show header.Tell = 20 from rfl,padding,List.length_replicate]
    rfl
  obtain ⟨record,counted⟩ := Entry.writeRun root counted
  obtain ⟨table,counted⟩ := Entry.writeSubEntriesRun root counted
  have before : (root.WriteSubEntries (root.Write headed)).state =
      Backfill.run code .start (headOps ++ root.recordOps ++ root.tableOps) := by
    rw [table,record,head,Backfill.runAppend,Backfill.runAppend]
  let recorded := root.WriteSubEntries (root.Write headed)
  obtain ⟨names,-,count⟩ := Entry.writeNamesRun named (w := recorded) (if_neg (not_not.mpr unnamed)) rfl
  refine ⟨recorded.Tell,recorded.userState,?_,congrArg State.pos before,counted⟩
  let sized := (((root.WriteNames recorded).WriteMark (text "numEntries") recorded.userState).Align 2048)
  have last : (sized.WriteMark (text "tocSize") sized.Tell).state =
      Backfill.run code (root.WriteNames recorded).state
        [.fill (text "numEntries") (fun _ => recorded.userState),.data (padding 2048),.fill (text "tocSize") id] := rfl
  have whole : (PackfileBuilder.mk root).writer OpenRead =
      root.WriteFiles OpenRead (sized.WriteMark (text "tocSize") sized.Tell) := by
    simp only [PackfileBuilder.writer,sized,← count]
    rfl
  rw [whole,Entry.writeFilesRun,last,names,before]
  simp only [archiveOps,Backfill.runAppend]

end Citizen.Packfile
