import Citizen.Packfile.ArchiveMarks
import Citizen.Packfile.RagePackfile

/-! Where the archive has the record, the name and the data of each entry. -/
namespace Citizen.Packfile
open BitField (Byte)
open Backfill (render stop stopAppend renderAppend valueOf valueFilled Drafted)

theorem codeFixed (n : Nat) : (code n).length = 4 := LittleEndian.bytesLength 4 n

namespace Entry

variable {path : List Text} {entry d : Entry}

theorem Shaped.descend (shaped : Shaped path entry) (mem : d ∈ entry.all) :
    ∃ q, Reaches entry q d ∧ Shaped (path ++ q) d ∧ ∀ name ∈ q, ValidName name := by
  induction shaped with
  | @file path entry isFile alone full =>
    rcases memAll.mp mem with rfl | ⟨sub,inside,-⟩
    · exact ⟨[],.here d,by rw [List.append_nil]; exact .file isFile alone full,by simp⟩
    · rw [alone] at inside
      cases inside
  | @directory path entry isDirectory full distinct valid filled below ih =>
    rcases memAll.mp mem with rfl | ⟨sub,inside,deeper⟩
    · exact ⟨[],.here d,by rw [List.append_nil]; exact .directory isDirectory full distinct valid filled below,by simp⟩
    · obtain ⟨q,reaches,shaped,names⟩ := ih sub inside deeper
      exact ⟨sub.m_name :: q,.into inside reaches,by simpa using shaped,List.forall_mem_cons.mpr ⟨valid sub inside,names⟩⟩

theorem Reaches.name {q : List Text} (reaches : Reaches entry q d) :
    (q = [] ∧ d = entry) ∨ ∃ front, q = front ++ [d.m_name] := by
  induction reaches with
  | here entry => exact .inl ⟨rfl,rfl⟩
  | @into entry sub d q mem rest ih =>
    rcases ih with ⟨rfl,rfl⟩ | ⟨front,rfl⟩
    · exact .inr ⟨[],rfl⟩
    · exact .inr ⟨sub.m_name :: front,rfl⟩

theorem Shaped.named {entry : Entry} (shaped : Shaped path entry) : entry.Named := by
  induction shaped with
  | file isFile alone full => exact .mk (by simp [alone]) (by simp [alone])
  | directory isDirectory full distinct valid filled below ih => exact .mk (fun sub mem => (valid sub mem).nonempty) ih

theorem Reaches.memAll {q : List Text} (reaches : Reaches entry q d) : d ∈ entry.all := by
  induction reaches with
  | here entry => exact selfMemAll entry
  | into mem rest ih => exact Entry.memAll.mpr (.inr ⟨_,mem,ih⟩)

theorem Shaped.distinct {entry : Entry} (shaped : Shaped path entry) (names : ∀ name ∈ path, ValidName name) :
    (entry.all.map m_fullName).Nodup := by
  induction shaped with
  | file isFile alone full => simp [allSplit,alone]
  | @directory path entry isDirectory full distinct valid filled below ih =>
    have subNames (sub : Entry) (mem : sub ∈ entry.m_subEntries) : ∀ name ∈ path ++ [sub.m_name], ValidName name :=
      List.forall_mem_append.mpr ⟨names,List.forall_mem_singleton.mpr (valid sub mem)⟩
    have place {sub d : Entry} (mem : sub ∈ entry.m_subEntries) (inside : d ∈ sub.all) :
        ∃ q, d.m_fullName = joined (path ++ sub.m_name :: q) ∧ ∀ name ∈ path ++ sub.m_name :: q, ValidName name := by
      obtain ⟨q,-,shaped,valid⟩ := (below sub mem).descend inside
      refine ⟨q,by simpa using shaped.full,?_⟩
      simpa using List.forall_mem_append.mpr ⟨subNames sub mem,valid⟩
    rw [allSplit,List.map_cons,List.nodup_cons,List.map_flatMap,List.nodup_flatMap]
    refine ⟨fun mem => ?_,fun sub mem => ih sub mem (subNames sub mem),?_⟩
    · obtain ⟨sub,mem,inside⟩ := List.mem_flatMap.mp mem
      obtain ⟨d,inside,same⟩ := List.mem_map.mp inside
      obtain ⟨q,place,valid'⟩ := place mem inside
      have equal := joinedInjective valid' names (place.symm.trans (same.trans full))
      simpa using congrArg List.length equal
    · refine (List.pairwise_map.mp distinct).imp_of_mem (fun memA memB other => ?_)
      intro name inA inB
      obtain ⟨d,insideA,rfl⟩ := List.mem_map.mp inA
      obtain ⟨d',insideB,same⟩ := List.mem_map.mp inB
      obtain ⟨q,placeA,validA⟩ := place memA insideA
      obtain ⟨q',placeB,validB⟩ := place memB insideB
      have equal := joinedInjective validB validA (placeB.symm.trans (same.trans placeA))
      exact other (List.cons.inj (List.append_cancel_left equal)).1.symm

variable (V : Text → Nat)

def recordText (entry : Entry) : Text :=
  code (V entry.nOff) ++
    if !entry.m_isDirectory then code (V entry.fLen) ++ (code (V entry.fOff) ++ code (V entry.fLen2))
    else code entry.m_subEntries.length ++ (code (V entry.cIdx) ++ code entry.m_subEntries.length)

theorem recordLength (entry : Entry) : (entry.recordText V).length = 16 := by
  unfold recordText
  cases entry.m_isDirectory <;> simp

theorem renderRecord (entry : Entry) (pos : Nat) : render code V 4 pos entry.recordOps = entry.recordText V := by
  unfold recordOps recordText
  cases entry.m_isDirectory <;> simp [render]

theorem stopRecord (entry : Entry) (pos : Nat) : stop 4 pos entry.recordOps = pos + 16 := by
  unfold recordOps
  cases entry.m_isDirectory <;> simp [stop]

theorem renderRecords (entries : List Entry) (pos : Nat) :
    render code V 4 pos (entries.flatMap recordOps) = entries.flatMap (recordText V) := by
  induction entries generalizing pos with
  | nil => rfl
  | cons entry rest ih => simp only [List.flatMap_cons,renderAppend,renderRecord,ih]

theorem stopRecords (entries : List Entry) (pos : Nat) : stop 4 pos (entries.flatMap recordOps) = pos + 16 * entries.length := by
  induction entries generalizing pos with
  | nil => rfl
  | cons entry rest ih =>
    rw [List.flatMap_cons,stopAppend,stopRecord,ih,List.length_cons]
    omega

theorem recordAt {entries : List Entry} {j : Nat} {sub : Entry} (found : entries[j]? = some sub) (rest : Text) :
    ((entries.flatMap (recordText V) ++ rest).drop (16 * j)).take 16 = sub.recordText V := by
  induction entries generalizing j with
  | nil => cases found
  | cons entry others ih =>
    rw [List.flatMap_cons,List.append_assoc]
    cases j with
    | zero =>
      cases found
      rw [Nat.mul_zero,List.drop_zero]
      exact List.take_left' (recordLength V sub)
    | succ j =>
      rw [show 16 * (j + 1) = (entry.recordText V).length + 16 * j by rw [recordLength]; omega,← List.drop_drop,List.drop_left]
      exact ih found

variable {V}

def Aligned (ops : List Op) : Prop := ∀ pos, 16 ∣ pos → 16 ∣ stop 4 pos ops

theorem alignedChildren (entry : Entry) : Aligned entry.childOps := by
  intro pos aligned
  rw [childOps,stopAppend,stopRecords]
  have same : stop 4 pos (if entry.m_isDirectory then [.fill entry.cIdx childIndex] else [] : List Op) = pos := by
    cases entry.m_isDirectory <;> rfl
  rw [same]
  omega

theorem Aligned.append {first second : List Op} (a : Aligned first) (b : Aligned second) : Aligned (first ++ second) := by
  intro pos aligned
  rw [stopAppend]
  exact b _ (a _ aligned)

theorem alignedFlatMap {f : Entry → List Op} {entries : List Entry} (each : ∀ entry ∈ entries, Aligned (f entry)) :
    Aligned (entries.flatMap f) := by
  induction entries with
  | nil => exact fun _ aligned => aligned
  | cons entry rest ih =>
    obtain ⟨first,later⟩ := List.forall_mem_cons.mp each
    exact first.append (ih later)

theorem alignedTable (entry : Entry) : Aligned entry.tableOps := by
  induction entry using subInduction with
  | step entry ih =>
    rw [tableOpsSplit]
    exact (alignedChildren entry).append (alignedFlatMap (fun sub mem => ih sub (memSorted.mp mem)))

theorem tableHas (mem : d ∈ entry.all) :
    ∃ before after, entry.tableOps = before ++ (d.childOps ++ after) ∧ Aligned before := by
  induction entry using subInduction with
  | step entry ih =>
    rcases Entry.memAll.mp mem with rfl | ⟨sub,inside,deeper⟩
    · exact ⟨[],_,tableOpsSplit d,fun _ aligned => aligned⟩
    · obtain ⟨before,after,split,aligned⟩ := ih sub inside deeper
      obtain ⟨front,back,place⟩ := List.append_of_mem (memSorted.mpr inside)
      refine ⟨entry.childOps ++ (front.flatMap tableOps ++ before),after ++ back.flatMap tableOps,?_,?_⟩
      · rw [tableOpsSplit,place,List.flatMap_append,List.flatMap_cons,split]
        simp only [List.append_assoc]
      · exact (alignedChildren entry).append ((alignedFlatMap (fun other _ => alignedTable other)).append aligned)

theorem infixFlatMap {α β : Type} {a : α} {l : List α} (mem : a ∈ l) (f : α → List β) : f a <:+: l.flatMap f := by
  rw [List.flatMap_def]
  exact List.infix_of_mem_flatten (List.mem_map_of_mem mem)

theorem namesHave (mem : d ∈ entry.all) (base : Nat) : d.nameOp base <:+: entry.nameOps base := by
  induction entry using subInduction with
  | step entry ih =>
    rw [nameOpsSplit]
    rcases Entry.memAll.mp mem with rfl | ⟨sub,inside,deeper⟩
    · exact (List.prefix_append _ _).isInfix
    · exact ((ih sub inside deeper).trans (infixFlatMap (memSorted.mpr inside) _)).trans (List.suffix_append _ _).isInfix

theorem filesHave (mem : d ∈ entry.all) (OpenRead : Text → Option Text) :
    d.fileOp OpenRead <:+: entry.fileOps OpenRead := by
  induction entry using subInduction with
  | step entry ih =>
    rw [fileOps]
    rcases Entry.memAll.mp mem with rfl | ⟨sub,inside,deeper⟩
    · exact (List.prefix_append _ _).isInfix
    · exact ((ih sub inside deeper).trans (infixFlatMap inside _)).trans (List.suffix_append _ _).isInfix

theorem renderCopy (left : Text) (pos : Nat) : render code V 4 pos (copyOps left) = left := by
  induction left using copyOps.induct generalizing pos with
  | case1 left read ih =>
    rw [copyOps,renderAppend]
    by_cases full : (left.take 32768).length = 32768
    · rw [if_pos full,ih full,if_pos (by rw [full]; decide)]
      simp [render]
    · have short : left.length < 32768 := by
        rw [List.length_take] at full
        omega
      rw [if_neg full,List.take_of_length_le (Nat.le_of_lt short)]
      cases left with
      | nil => rfl
      | cons b left => simp [render]

theorem stopCopy (left : Text) (pos : Nat) : stop 4 pos (copyOps left) = pos + left.length := by
  have length : pos + (render code (fun _ => 0) 4 pos (copyOps left)).length = stop 4 pos (copyOps left) :=
    Backfill.renderLength codeFixed pos
  rw [← length,renderCopy]

end Entry

open Entry

def content (OpenRead : Text → Option Text) (d : Entry) : Text := (OpenRead d.m_backingFile).getD []

def shownName (d : Entry) : Text := if d.m_name ≠ [] then d.m_name else [byte '/']

section
variable {OpenRead : Text → Option Text} {root d : Entry} {base count : Nat}

def written (OpenRead : Text → Option Text) (base count : Nat) (root : Entry) : Text :=
  (Backfill.run code .start (archiveOps OpenRead base count root)).contents

def numbers (OpenRead : Text → Option Text) (base count : Nat) (root : Entry) : Text → Nat :=
  valueOf 4 (archiveOps OpenRead base count root)

variable (orderly : Backfill.Orderly (archiveOps OpenRead base count root))
include orderly

theorem writtenRest {before after : List Op} (split : archiveOps OpenRead base count root = before ++ after) :
    (written OpenRead base count root).drop (stop 4 0 before) =
      render code (numbers OpenRead base count root) 4 (stop 4 0 before) after ∧
      stop 4 0 before ≤ (written OpenRead base count root).length := by
  have drafted := Backfill.runDrafted codeFixed orderly
  refine ⟨drafted.rest codeFixed split,?_⟩
  have whole : (written OpenRead base count root).length = stop 4 0 (archiveOps OpenRead base count root) :=
    (drafted.length codeFixed).symm.trans drafted.pos
  rw [whole,split,stopAppend]
  exact Backfill.leStop _

theorem numbersFilled {before after : List Op} {key : Text} {value : Nat → Nat}
    (split : archiveOps OpenRead base count root = before ++ .fill key value :: after) :
    numbers OpenRead base count root key = value (stop 4 0 before) := valueFilled orderly.filled split

end

theorem stopHead : stop 4 0 headOps = tocStart := by
  simp only [headOps,stop,padding,List.length_replicate,codeFixed]
  rfl

def frontOps (root : Entry) : List Op := headOps ++ root.recordOps ++ root.tableOps

def lastOps (count : Nat) : List Op := [.fill (text "numEntries") (fun _ => count),.data (padding 2048)]

theorem opsSplit (OpenRead : Text → Option Text) (base count : Nat) (root : Entry) :
    archiveOps OpenRead base count root =
      frontOps root ++ (root.nameOps base ++ (lastOps count ++ (.fill (text "tocSize") id :: root.fileOps OpenRead))) := by
  simp [archiveOps,frontOps,lastOps]

section
variable {OpenRead : Text → Option Text} {root d : Entry} {base count : Nat}

section
variable (orderly : Backfill.Orderly (archiveOps OpenRead base count root))
include orderly

theorem childrenLaid (mem : d ∈ root.all)
    (place : stop 4 0 (frontOps root) = tocStart + 16 * count) (isDirectory : d.m_isDirectory = true) :
    ∃ c, numbers OpenRead base count root d.cIdx = c ||| 0x80000000 ∧ c + d.m_subEntries.length ≤ count ∧
      ∀ j sub, (sorted d.m_subEntries)[j]? = some sub →
        ((written OpenRead base count root).drop (tocStart + 16 * (c + j))).take 16 =
          sub.recordText (numbers OpenRead base count root) := by
  obtain ⟨before,after,table,aligned⟩ := tableHas mem
  let records := (sorted d.m_subEntries).flatMap recordOps
  let rest := after ++ (root.nameOps base ++ (lastOps count ++ (.fill (text "tocSize") id :: root.fileOps OpenRead)))
  have own : d.childOps = .fill d.cIdx childIndex :: records := by
    rw [childOps,if_pos isDirectory]
    rfl
  have split : archiveOps OpenRead base count root =
      (headOps ++ root.recordOps ++ before) ++ .fill d.cIdx childIndex :: (records ++ rest) := by
    rw [opsSplit,frontOps,table,own]
    simp [rest]
  let p := stop 4 0 (headOps ++ root.recordOps ++ before)
  have from' : p = stop 4 (tocStart + 16) before := by simp only [p,stopAppend,stopHead,stopRecord]
  have even : 16 ∣ tocStart + 16 := by
    unfold tocStart
    omega
  have start : tocStart + 16 ≤ p ∧ 16 ∣ p := from' ▸ ⟨Backfill.leStop _,aligned _ even⟩
  have index : tocStart + 16 * ((p - tocStart) / 16) = p := by
    unfold tocStart at start ⊢
    omega
  have end' : p + 16 * d.m_subEntries.length ≤ tocStart + 16 * count := by
    have length : (sorted d.m_subEntries).length = d.m_subEntries.length := (sortedPerm _).length_eq
    have front : frontOps root = (headOps ++ root.recordOps ++ before) ++ (.fill d.cIdx childIndex :: (records ++ after)) := by
      rw [frontOps,table,own]
      simp
    rw [← place,front,stopAppend,stop,stopAppend,stopRecords,length]
    exact Backfill.leStop _
  refine ⟨(p - tocStart) / 16,numbersFilled orderly split,?_,fun j sub found => ?_⟩
  · omega
  · have inside : archiveOps OpenRead base count root =
        (headOps ++ root.recordOps ++ before ++ [.fill d.cIdx childIndex]) ++ (records ++ rest) := by
      rw [split]
      simp
    have here : stop 4 0 (headOps ++ root.recordOps ++ before ++ [.fill d.cIdx childIndex]) = p := by
      simp only [p,stopAppend,stop]
    obtain ⟨text,-⟩ := writtenRest orderly inside
    rw [here,renderAppend,renderRecords] at text
    rw [Nat.mul_add,← Nat.add_assoc,index,← List.drop_drop,text]
    exact recordAt _ found _

theorem rootLaid :
    ((written OpenRead base count root).drop tocStart).take 16 = root.recordText (numbers OpenRead base count root) := by
  have split : archiveOps OpenRead base count root = headOps ++ (root.recordOps ++ (root.tableOps ++
      (root.nameOps base ++ (lastOps count ++ (.fill (text "tocSize") id :: root.fileOps OpenRead))))) := by
    simp [opsSplit,frontOps]
  obtain ⟨text,-⟩ := writtenRest orderly split
  rw [stopHead,renderAppend,renderRecord] at text
  rw [text]
  exact List.take_left' (recordLength _ _)

end

def tocEnd (base count : Nat) (root : Entry) : Nat := stop 4 0 (frontOps root ++ (root.nameOps base ++ lastOps count))

section
variable (orderly : Backfill.Orderly (archiveOps OpenRead base count root))
include orderly

theorem namesLaid (mem : d ∈ root.all)
    (place : stop 4 0 (frontOps root) = base) (rootName : d.m_name = [] → d = root ∧ root.m_fullName = []) :
    ∃ rest, (written OpenRead base count root).drop (base + numbers OpenRead base count root d.nOff) = shownName d ++ 0 :: rest ∧
      base + numbers OpenRead base count root d.nOff + (shownName d).length < tocEnd base count root := by
  have inside : ∃ before after value, root.nameOps base = before ++ (.fill d.nOff value :: (.data (fun _ => shownName d) ::
      (.data (fun _ => [0]) :: after))) ∧ base + value (stop 4 base before) = stop 4 base before := by
    by_cases unnamed : d.m_name = []
    · obtain ⟨rfl,full⟩ := rootName unnamed
      have key : d.nOff = text "nOff_" := by rw [nOff,full,List.append_nil]
      have shown : shownName d = [byte '/'] := if_neg (not_not.mpr unnamed)
      refine ⟨[],(sorted d.m_subEntries).flatMap (nameOps base),fun _ => 0,?_,rfl⟩
      rw [nameOpsSplit,nameOp,if_neg (not_not.mpr unnamed),key,shown]
      rfl
    · obtain ⟨before,after,split⟩ := namesHave mem base
      have shown : shownName d = d.m_name := if_pos unnamed
      refine ⟨before,after,fun pos => pos - base,?_,Nat.add_sub_cancel' (Backfill.leStop base)⟩
      rw [← split,nameOp,if_pos unnamed,shown]
      simp
  obtain ⟨before,after,value,names,same⟩ := inside
  have split : archiveOps OpenRead base count root = (frontOps root ++ before) ++ .fill d.nOff value ::
      (.data (fun _ => shownName d) :: (.data (fun _ => [0]) :: (after ++ (lastOps count ++
        (.fill (text "tocSize") id :: root.fileOps OpenRead))))) := by
    rw [opsSplit,names]
    simp
  have here : stop 4 0 (frontOps root ++ before) = stop 4 base before := by rw [stopAppend,place]
  obtain ⟨text,-⟩ := writtenRest orderly split
  rw [here] at text
  rw [numbersFilled orderly split,here,same,text]
  refine ⟨_,rfl,?_⟩
  have all : tocEnd base count root = stop 4 (stop 4 base before + (shownName d).length + 1) (after ++ lastOps count) := by
    rw [tocEnd,names,stopAppend,place,List.append_assoc,stopAppend]
    rfl
  rw [all]
  exact Nat.lt_of_lt_of_le (Nat.lt_succ_self _) (Backfill.leStop _)

theorem filesLaid (mem : d ∈ root.all) (isFile : d.m_isDirectory = false) :
    numbers OpenRead base count root d.fLen = (content OpenRead d).length ∧
      numbers OpenRead base count root d.fLen2 = (content OpenRead d).length ∧
      ∃ rest, (written OpenRead base count root).drop (numbers OpenRead base count root d.fOff) = content OpenRead d ++ rest ∧
        numbers OpenRead base count root d.fOff + (content OpenRead d).length ≤ (written OpenRead base count root).length := by
  obtain ⟨before,after,files⟩ := filesHave mem OpenRead
  let data := copyOps (content OpenRead d)
  have own : d.fileOp OpenRead = .fill d.fOff id :: (.fill d.fLen (fun _ => (content OpenRead d).length) ::
      (.fill d.fLen2 (fun _ => (content OpenRead d).length) :: (data ++ [.data (padding 2048)]))) := by
    rw [fileOp,isFile]
    rfl
  let front := frontOps root ++ (root.nameOps base ++ (lastOps count ++ (.fill (text "tocSize") id :: before)))
  have split : archiveOps OpenRead base count root = front ++ .fill d.fOff id ::
      (.fill d.fLen (fun _ => (content OpenRead d).length) ::
        (.fill d.fLen2 (fun _ => (content OpenRead d).length) :: (data ++ .data (padding 2048) :: after))) := by
    rw [opsSplit,← files,own]
    simp [front]
  have fLen : archiveOps OpenRead base count root = (front ++ [.fill d.fOff id]) ++
      .fill d.fLen (fun _ => (content OpenRead d).length) ::
        (.fill d.fLen2 (fun _ => (content OpenRead d).length) :: (data ++ .data (padding 2048) :: after)) := by
    rw [split]
    simp
  have fLen2 : archiveOps OpenRead base count root =
      (front ++ [.fill d.fOff id,.fill d.fLen (fun _ => (content OpenRead d).length)]) ++
        .fill d.fLen2 (fun _ => (content OpenRead d).length) :: (data ++ .data (padding 2048) :: after) := by
    rw [split]
    simp
  have copied : archiveOps OpenRead base count root =
      (front ++ (.fill d.fOff id :: (.fill d.fLen (fun _ => (content OpenRead d).length) ::
        (.fill d.fLen2 (fun _ => (content OpenRead d).length) :: data)))) ++ (.data (padding 2048) :: after) := by
    rw [split]
    simp
  refine ⟨numbersFilled orderly fLen,numbersFilled orderly fLen2,?_⟩
  rw [numbersFilled orderly split,id]
  obtain ⟨text,-⟩ := writtenRest orderly split
  obtain ⟨-,bound⟩ := writtenRest orderly copied
  simp only [render,renderAppend,data,renderCopy] at text
  simp only [stopAppend,stop,data,stopCopy] at bound
  exact ⟨_,text,bound⟩

theorem headerLaid : (written OpenRead base count root).take 20 =
      code 0x32465052 ++ (code (tocEnd base count root) ++ (code count ++ (code 0 ++ code 0))) ∧
      tocEnd base count root ≤ (written OpenRead base count root).length := by
  have whole : archiveOps OpenRead base count root = [] ++ archiveOps OpenRead base count root := rfl
  have toc : archiveOps OpenRead base count root = (frontOps root ++ (root.nameOps base ++ lastOps count)) ++
      .fill (text "tocSize") id :: root.fileOps OpenRead := by
    rw [opsSplit]
    simp
  have entries : archiveOps OpenRead base count root = (frontOps root ++ root.nameOps base) ++
      .fill (text "numEntries") (fun _ => count) :: (.data (padding 2048) ::
        (.fill (text "tocSize") id :: root.fileOps OpenRead)) := by
    rw [opsSplit]
    simp [lastOps]
  obtain ⟨text,-⟩ := writtenRest orderly whole
  obtain ⟨-,bound⟩ := writtenRest orderly toc
  refine ⟨?_,bound⟩
  have head : ∃ rest, render code (numbers OpenRead base count root) 4 0 headOps =
      (code 0x32465052 ++ (code (tocEnd base count root) ++ (code count ++ (code 0 ++ code 0)))) ++ rest := by
    simp only [headOps,render,numbersFilled orderly toc,numbersFilled orderly entries,id,List.append_assoc]
    exact ⟨_,rfl⟩
  obtain ⟨rest,head⟩ := head
  rw [stop,List.drop_zero,opsSplit,frontOps,List.append_assoc,List.append_assoc,renderAppend,head,List.append_assoc] at text
  rw [text]
  exact List.take_left' (by simp)

end
end

structure Laid (OpenRead : Text → Option Text) (root : Entry) (archive : Text) (V : Text → Nat) (count toc : Nat) : Prop where
  header : archive.take 20 = code 0x32465052 ++ (code toc ++ (code count ++ (code 0 ++ code 0)))
  bounds : 0 < count ∧ tocStart + 16 * count ≤ toc ∧ toc ≤ archive.length
  rootRecord : (archive.drop tocStart).take 16 = root.recordText V
  children : ∀ d ∈ root.all, d.m_isDirectory = true → ∃ c, V d.cIdx = c ||| 0x80000000 ∧
    c + d.m_subEntries.length ≤ count ∧ ∀ j sub, (sorted d.m_subEntries)[j]? = some sub →
      (archive.drop (tocStart + 16 * (c + j))).take 16 = sub.recordText V
  names : ∀ d ∈ root.all, ∃ rest, archive.drop (tocStart + 16 * count + V d.nOff) = shownName d ++ 0 :: rest ∧
    tocStart + 16 * count + V d.nOff + (shownName d).length < toc
  files : ∀ d ∈ root.all, d.m_isDirectory = false → V d.fLen = (content OpenRead d).length ∧
    V d.fLen2 = (content OpenRead d).length ∧ ∃ rest, archive.drop (V d.fOff) = content OpenRead d ++ rest ∧
      V d.fOff + (content OpenRead d).length ≤ archive.length

section
variable {root : Entry} {files : Files} (built : Built root files)
include built

theorem Built.names {d : Entry} (mem : d ∈ root.all) (unnamed : d.m_name = []) : d = root ∧ root.m_fullName = [] := by
  obtain ⟨q,reaches,-,valid⟩ := built.shaped.descend mem
  refine ⟨?_,built.shaped.full⟩
  rcases reaches.name with ⟨-,same⟩ | ⟨front,rfl⟩
  · exact same
  · exact absurd unnamed (valid d.m_name (List.mem_append_right _ List.mem_cons_self)).nonempty

theorem laid (OpenRead : Text → Option Text) :
    ∃ V count toc, Laid OpenRead root ((PackfileBuilder.mk root).writer OpenRead).m_stream.contents V count toc := by
  have shown : ∀ d ∈ root.all, d.m_name = [] → d.m_fullName = [] := fun d mem unnamed => by
    obtain ⟨rfl,full⟩ := built.names mem unnamed
    exact full
  obtain ⟨base,count,state,place,counted⟩ := writerRun OpenRead built.unnamed built.shaped.named
  have orderly := (archiveOrderly OpenRead base count (built.shaped.distinct (by simp)) shown).1
  have front : stop 4 0 (frontOps root) = base := by
    have first : Backfill.Orderly (frontOps root) := (opsSplit OpenRead base count root ▸ orderly).initial
    exact (Backfill.runDrafted codeFixed first).pos.symm.trans place.symm
  have archive : ((PackfileBuilder.mk root).writer OpenRead).m_stream.contents = written OpenRead base count root :=
    congrArg Backfill.State.contents state
  rw [archive]
  refine ⟨numbers OpenRead base count root,count,tocEnd base count root,(headerLaid orderly).1,⟨?_,?_,(headerLaid orderly).2⟩,
    rootLaid orderly,fun d mem => childrenLaid orderly mem (front.trans counted),fun d mem => ?_,fun d mem => filesLaid orderly mem⟩
  · have some' : tocStart + 16 ≤ stop 4 0 (frontOps root) := by
      rw [frontOps,stopAppend,stopAppend,stopHead,stopRecord]
      exact Backfill.leStop _
    omega
  · rw [← counted,← front,tocEnd,stopAppend]
    exact Backfill.leStop _
  · have name := namesLaid orderly mem front (built.names mem)
    rw [← counted]
    exact name

end

end Citizen.Packfile
