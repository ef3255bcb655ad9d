import Citizen.Lib.OrderedMap
import Citizen.Packfile.PackfileBuilder
import Mathlib.Data.List.Dedup

/-! `ResourceFileDatabase`: what the files of a resource set were at one time. -/
namespace Citizen.Packfile

attribute [local instance] byteOrder

structure File where
  fileId : BitVec 128
  mtime : Int
  content : Text
  short : content.length < 2 ^ 64 - 1

abbrev FileSystem := Text → Option File

namespace ResourceFileDatabase

structure Entry where
  fileId : BitVec 128
  mtime : Int
  size : Nat
  deriving DecidableEq

def Entry.new : Entry := ⟨0,0,2 ^ 64 - 1⟩

end ResourceFileDatabase

open ResourceFileDatabase

structure ResourceFileDatabase where
  m_entries : OrderedMap Text ResourceFileDatabase.Entry

inductive DatabaseFile where
  | saved (database : ResourceFileDatabase)
  | broken

namespace ResourceFileDatabase

def GetEntry (files : FileSystem) (file : Text) : Entry :=
  match files file with
  | some opened => ⟨opened.fileId,opened.mtime,opened.content.length⟩
  | none => .new

def Snapshot (files : FileSystem) (fileList : List Text) : ResourceFileDatabase :=
  ⟨fileList.foldl (fun m_entries file => m_entries.emplace file (GetEntry files file)) .empty⟩

def Load : Option DatabaseFile → Option ResourceFileDatabase
  | some (.saved database) => some database
  | some .broken => none
  | none => none

def Check (database : ResourceFileDatabase) (files : FileSystem) (fileList : List Text) : Bool :=
  let newSet := fileList.dedup
  let oldSet := database.m_entries.entries.map Prod.fst
  -- count different? good, everything's different
  if oldSet.length ≠ newSet.length then true
  -- contains different names? ok, different
  else if oldSet.any (fun file => file ∉ newSet) then true
  else database.m_entries.entries.any (fun entry => GetEntry files entry.1 ≠ entry.2)

theorem getEntryNew {files : FileSystem} {file : Text} : GetEntry files file = .new ↔ files file = none := by
  unfold GetEntry
  split
  · rename_i opened found
    refine iff_of_false (fun same => ?_) (by rw [found]; exact Option.some_ne_none _)
    exact absurd (congrArg Entry.size same) (Nat.ne_of_lt opened.short)
  · rename_i absent
    exact iff_of_true rfl absent

theorem getEntrySome {files files' : FileSystem} {file : Text} (same : GetEntry files file = GetEntry files' file) :
    (files file).isSome = (files' file).isSome := by
  rw [Bool.eq_iff_iff,← not_iff_not,Option.not_isSome_iff_eq_none,Option.not_isSome_iff_eq_none,← getEntryNew,← getEntryNew,same]

theorem snapshotFind (files : FileSystem) (fileList : List Text) (file : Text) :
    (Snapshot files fileList).m_entries.find file = if file ∈ fileList then some (GetEntry files file) else none :=
  (OrderedMap.findEmplaced (GetEntry files) fileList .empty file).trans (by simp [OrderedMap.find,OrderedMap.empty])

theorem snapshotEntries {files : FileSystem} {fileList : List Text} {file : Text} {entry : Entry} :
    (file,entry) ∈ (Snapshot files fileList).m_entries.entries ↔ file ∈ fileList ∧ entry = GetEntry files file := by
  rw [← OrderedMap.findSome,snapshotFind]
  split
  · rename_i mem
    simp [mem,eq_comm]
  · rename_i absent
    simp [absent]

theorem checkSnapshot (files files' : FileSystem) (fileList fileList' : List Text) :
    (Snapshot files' fileList').Check files fileList = false ↔
      (∀ file, file ∈ fileList ↔ file ∈ fileList') ∧ ∀ file ∈ fileList', GetEntry files file = GetEntry files' file := by
  have keys (file : Text) : file ∈ (Snapshot files' fileList').m_entries.entries.map Prod.fst ↔ file ∈ fileList' := by
    constructor
    · rintro mem
      obtain ⟨⟨_,entry⟩,listed,rfl⟩ := List.mem_map.mp mem
      exact (snapshotEntries.mp listed).1
    · exact fun mem => List.mem_map.mpr ⟨(file,_),snapshotEntries.mpr ⟨mem,rfl⟩,rfl⟩
  have distinct : ((Snapshot files' fileList').m_entries.entries.map Prod.fst).Nodup :=
    List.pairwise_map.mpr ((Snapshot files' fileList').m_entries.sorted.imp (fun before => ne_of_lt before))
  have entries (changed : (file : Text) → file ∈ fileList' → GetEntry files file = GetEntry files' file) :
      (Snapshot files' fileList').m_entries.entries.any (fun entry => GetEntry files entry.1 ≠ entry.2) = false := by
    rw [List.any_eq_false]
    rintro ⟨file,entry⟩ mem
    obtain ⟨listed,rfl⟩ := snapshotEntries.mp mem
    simpa using changed file listed
  unfold Check
  constructor
  · intro unchanged
    simp only [ite_not] at unchanged
    split at unchanged
    · rename_i count
      split at unchanged
      · cases unchanged
      · rename_i inside
        have within : (Snapshot files' fileList').m_entries.entries.map Prod.fst ⊆ fileList.dedup := by
          intro file mem
          by_contra outside
          exact inside (List.any_eq_true.mpr ⟨file,mem,by simpa using outside⟩)
        have perm := (List.subperm_of_subset distinct within).perm_of_length_le count.ge
        refine ⟨fun file => ?_,fun file mem => ?_⟩
        · rw [← List.mem_dedup,← perm.mem_iff,keys]
        · have same := List.any_eq_false.mp unchanged _ (snapshotEntries.mpr ⟨mem,rfl⟩)
          simpa using same
    · cases unchanged
  · rintro ⟨names,same⟩
    have perm : ((Snapshot files' fileList').m_entries.entries.map Prod.fst).Perm fileList.dedup :=
      (List.perm_ext_iff_of_nodup distinct (List.nodup_dedup _)).mpr (fun file => by rw [keys,List.mem_dedup,names])
    rw [if_neg (not_not.mpr perm.length_eq),if_neg ?_]
    · exact entries same
    · rw [List.any_eq_true]
      rintro ⟨file,mem,outside⟩
      exact of_decide_eq_true outside (perm.mem_iff.mp mem)

end ResourceFileDatabase
end Citizen.Packfile
