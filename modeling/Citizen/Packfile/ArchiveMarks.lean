import Citizen.Packfile.ArchiveScript
import Citizen.Packfile.EntryTree

/-! Every place of an archive is marked once, and filled once after that. -/
namespace Citizen.Packfile
open BitField (Byte)
open Backfill (marked filled Covered coveredAppend coveredFlatMap coveredUnfilled coveredKnown markedAppend filledAppend
  markedFlatMap filledFlatMap Orderly)

namespace Entry

def all (entry : Entry) : List Entry := entry :: entry.m_subEntries.flatMap (fun sub => sub.all)
termination_by entry
decreasing_by exact sizeOfSub ‹_›

variable (entry : Entry)

theorem allSplit : entry.all = entry :: entry.m_subEntries.flatMap all := by rw [all]

theorem selfMemAll : entry ∈ entry.all := by
  rw [allSplit]
  exact List.mem_cons_self

theorem memAll {entry d : Entry} : d ∈ entry.all ↔ d = entry ∨ ∃ sub ∈ entry.m_subEntries, d ∈ sub.all := by
  rw [allSplit,List.mem_cons,List.mem_flatMap]

theorem subMemAll {entry d sub : Entry} (mem : d ∈ entry.all) (inside : sub ∈ d.m_subEntries) : sub ∈ entry.all := by
  induction entry using subInduction with
  | step entry ih =>
    rcases memAll.mp mem with rfl | ⟨next,below,mem⟩
    · exact memAll.mpr (.inr ⟨sub,inside,selfMemAll sub⟩)
    · exact memAll.mpr (.inr ⟨next,below,ih next below mem⟩)

theorem sortedPerm (subEntries : List Entry) : (sorted subEntries).Perm subEntries := List.mergeSort_perm subEntries _

theorem sortedFlatMap {β : Type} {f g : Entry → List β} {subEntries : List Entry}
    (each : ∀ sub ∈ subEntries, (f sub).Perm (g sub)) : ((sorted subEntries).flatMap f).Perm (subEntries.flatMap g) :=
  ((sortedPerm subEntries).flatMap_right f).trans (List.Perm.flatMap_left subEntries each)

def tags (entry : Entry) : List Text :=
  if entry.m_isDirectory then [text "cIdx_",text "nOff_"] else [text "nOff_",text "fOff_",text "fLen_",text "fLen2_"]

def keys (entry : Entry) : List Text := entry.tags.map (· ++ entry.m_fullName)

def indexKeys (entry : Entry) : List Text := if entry.m_isDirectory then [entry.cIdx] else []

def dataKeys (entry : Entry) : List Text := if entry.m_isDirectory then [] else [entry.fOff,entry.fLen,entry.fLen2]

theorem markedRecord : (marked entry.recordOps).Perm entry.keys := by
  unfold recordOps keys tags
  cases entry.m_isDirectory with
  | true => exact List.Perm.swap _ _ _
  | false => exact List.Perm.cons _ (List.Perm.swap _ _ _)

theorem keysSplit : entry.keys = entry.indexKeys ++ ([entry.nOff] ++ entry.dataKeys) := by
  unfold keys tags indexKeys dataKeys
  cases entry.m_isDirectory <;> rfl

@[simp] theorem filledRecord : filled entry.recordOps = [] := by
  unfold recordOps
  cases entry.m_isDirectory <;> rfl

theorem filledRecords (entries : List Entry) : filled (entries.flatMap recordOps) = [] := by
  simp [filledFlatMap]

theorem markedTable : (marked entry.tableOps).Perm (entry.m_subEntries.flatMap (fun sub => sub.all.flatMap keys)) := by
  induction entry using subInduction with
  | step entry ih =>
    have start : marked (if entry.m_isDirectory then [.fill entry.cIdx childIndex] else [] : List Op) = [] := by
      cases entry.m_isDirectory <;> rfl
    rw [tableOpsSplit,childOps,markedAppend,markedAppend,start,List.nil_append,markedFlatMap,markedFlatMap]
    refine ((sortedFlatMap (fun sub _ => markedRecord sub)).append (sortedFlatMap ih)).trans ?_
    refine (List.flatMap_append_perm _ _ _).trans (List.Perm.flatMap_left _ (fun sub _ => ?_))
    rw [allSplit,List.flatMap_cons,List.flatMap_assoc]

theorem filledTable : (filled entry.tableOps).Perm (entry.all.flatMap indexKeys) := by
  induction entry using subInduction with
  | step entry ih =>
    have start : filled (if entry.m_isDirectory then [.fill entry.cIdx childIndex] else [] : List Op) = entry.indexKeys := by
      unfold indexKeys
      cases entry.m_isDirectory <;> rfl
    rw [tableOpsSplit,childOps,filledAppend,filledAppend,start,filledRecords,List.append_nil,filledFlatMap,allSplit,
      List.flatMap_cons,List.flatMap_assoc]
    exact (sortedFlatMap ih).append_left _

theorem markedNames (base : Nat) (entry : Entry) : marked (entry.nameOps base) = [] := by
  induction entry using subInduction with
  | step entry ih =>
    have start : marked (entry.nameOp base) = [] := by
      unfold nameOp
      split <;> rfl
    rw [nameOpsSplit,markedAppend,start,markedFlatMap]
    exact List.flatMap_eq_nil_iff.mpr (fun sub mem => ih sub (memSorted.mp mem))

theorem filledNames (base : Nat) {entry : Entry} (shown : ∀ d ∈ entry.all, d.m_name = [] → d.m_fullName = []) :
    (filled (entry.nameOps base)).Perm (entry.all.map nOff) := by
  induction entry using subInduction with
  | step entry ih =>
    have start : filled (entry.nameOp base) = [entry.nOff] := by
      unfold nameOp
      split
      · rfl
      · rename_i unnamed
        rw [nOff,shown entry (selfMemAll entry) (not_not.mp unnamed)]
        rfl
    rw [nameOpsSplit,filledAppend,start,filledFlatMap,allSplit,List.map_cons,List.map_flatMap]
    refine (sortedFlatMap (fun sub mem => ?_)).append_left _
    exact ih sub mem (fun d below => shown d (memAll.mpr (.inr ⟨sub,mem,below⟩)))

theorem copyPlain (left : Text) : marked (copyOps left) = [] ∧ filled (copyOps left) = [] := by
  induction left using copyOps.induct with
  | case1 left read ih =>
    have first : marked (if 0 < read.length then [.data (fun _ => read)] else [] : List Op) = [] ∧
        filled (if 0 < read.length then [.data (fun _ => read)] else [] : List Op) = [] := by
      split <;> exact ⟨rfl,rfl⟩
    rw [copyOps,markedAppend,filledAppend,first.1,first.2]
    split
    · rename_i full
      exact ih full
    · exact ⟨rfl,rfl⟩

theorem markedFiles (OpenRead : Text → Option Text) (entry : Entry) : marked (entry.fileOps OpenRead) = [] := by
  induction entry using subInduction with
  | step entry ih =>
    have start : marked (entry.fileOp OpenRead) = [] := by
      unfold fileOp
      cases entry.m_isDirectory with
      | true => rfl
      | false => simp [marked,(copyPlain _).1]
    rw [fileOps,markedAppend,start,markedFlatMap]
    exact List.flatMap_eq_nil_iff.mpr ih

theorem filledFiles (OpenRead : Text → Option Text) (entry : Entry) :
    filled (entry.fileOps OpenRead) = entry.all.flatMap dataKeys := by
  induction entry using subInduction with
  | step entry ih =>
    have start : filled (entry.fileOp OpenRead) = entry.dataKeys := by
      unfold fileOp dataKeys
      cases entry.m_isDirectory with
      | true => rfl
      | false => simp [filled,(copyPlain _).2]
    rw [fileOps,filledAppend,start,filledFlatMap,allSplit,List.flatMap_cons,List.flatMap_assoc]
    exact congrArg (entry.dataKeys ++ ·) (List.flatMap_congr ih)

theorem coveredTable {entry : Entry} {seen : List Text} (known : entry.indexKeys ⊆ seen) : Covered seen entry.tableOps := by
  induction entry using subInduction generalizing seen with
  | step entry ih =>
    rw [tableOpsSplit,childOps,coveredAppend,coveredAppend]
    refine ⟨⟨?_,coveredUnfilled (filledRecords _)⟩,coveredFlatMap (fun sub mem => ih sub (memSorted.mp mem) ?_)⟩
    · unfold indexKeys at known
      cases isDirectory : entry.m_isDirectory with
      | true =>
        rw [if_pos isDirectory] at known
        exact ⟨known List.mem_cons_self,trivial⟩
      | false => trivial
    · have own : sub.indexKeys ⊆ marked sub.recordOps := fun key inside =>
        (markedRecord sub).mem_iff.mpr (by rw [keysSplit]; exact List.mem_append_left _ inside)
      refine List.Subset.trans own (fun key inside => List.mem_append_left _ ?_)
      rw [markedAppend,markedFlatMap]
      exact List.mem_append_right _ (List.mem_flatMap.mpr ⟨sub,mem,inside⟩)

def headKeys : List Text := [text "tocSize",text "numEntries"]

def allTags : List Text := headKeys ++ [text "cIdx_",text "nOff_",text "fOff_",text "fLen_",text "fLen2_"]

theorem tagsApart : ∀ tag ∈ allTags, ∀ tag' ∈ allTags, tag <+: tag' → tag = tag' := by decide

theorem tagged {tag tag' a b : Text} (mem : tag ∈ allTags) (mem' : tag' ∈ allTags) (same : tag ++ a = tag' ++ b) :
    tag = tag' ∧ a = b := by
  have equal : tag = tag' := by
    rcases List.prefix_or_prefix_of_prefix (List.prefix_append tag a) (same ▸ List.prefix_append tag' b) with before | after
    · exact tagsApart tag mem tag' mem' before
    · exact (tagsApart tag' mem' tag mem after).symm
  subst equal
  exact ⟨rfl,List.append_cancel_left same⟩

theorem tagsKnown : entry.tags ⊆ allTags ∧ entry.tags.Nodup ∧ ∀ tag ∈ entry.tags, tag ∉ headKeys := by
  unfold tags
  cases entry.m_isDirectory <;> decide

theorem keysUnique {entries : List Entry} (distinct : (entries.map m_fullName).Nodup) :
    (headKeys ++ entries.flatMap keys).Nodup := by
  rw [List.nodup_append,List.nodup_flatMap]
  refine ⟨by decide,⟨fun entry _ => ?_,?_⟩,?_⟩
  · exact (tagsKnown entry).2.1.map (fun tag tag' same => List.append_cancel_right same)
  · refine (List.pairwise_map.mp distinct).imp (fun other => ?_)
    intro key mem mem'
    obtain ⟨tag,known,rfl⟩ := List.mem_map.mp mem
    obtain ⟨tag',known',same⟩ := List.mem_map.mp mem'
    exact other (tagged ((tagsKnown _).1 known') ((tagsKnown _).1 known) same).2.symm
  · rintro key mem key' mem' rfl
    obtain ⟨entry,-,inside⟩ := List.mem_flatMap.mp mem'
    obtain ⟨tag,known,same⟩ := List.mem_map.mp inside
    have whole := tagged ((tagsKnown entry).1 known) (List.mem_append_left _ mem) (same.trans (List.append_nil key).symm)
    exact (tagsKnown entry).2.2 tag known (whole.1 ▸ mem)

end Entry

open Entry

theorem keysWhole (entries : List Entry) :
    (entries.flatMap indexKeys ++ (entries.map nOff ++ entries.flatMap dataKeys)).Perm (entries.flatMap keys) := by
  have names : entries.map nOff = entries.flatMap (fun d => [d.nOff]) := List.map_eq_flatMap
  have split : entries.flatMap keys = entries.flatMap (fun d => d.indexKeys ++ ([d.nOff] ++ d.dataKeys)) :=
    List.flatMap_congr (fun d _ => keysSplit d)
  rw [names,split]
  exact ((List.flatMap_append_perm _ _ _).append_left _).trans (List.flatMap_append_perm _ _ _)

theorem archiveOrderly (OpenRead : Text → Option Text) (base count : Nat) {root : Entry}
    (distinct : (root.all.map m_fullName).Nodup) (shown : ∀ d ∈ root.all, d.m_name = [] → d.m_fullName = []) :
    Orderly (archiveOps OpenRead base count root) ∧
      (filled (archiveOps OpenRead base count root)).Perm (marked (archiveOps OpenRead base count root)) := by
  let last : List Op := [.fill (text "numEntries") (fun _ => count),.data (padding 2048),.fill (text "tocSize") id]
  have front : (marked (headOps ++ root.recordOps ++ root.tableOps)).Perm (headKeys ++ root.all.flatMap keys) := by
    rw [markedAppend,markedAppend,allSplit,List.flatMap_cons,List.flatMap_assoc,List.append_assoc]
    exact ((markedRecord root).append (markedTable root)).append_left _
  have marks : marked (archiveOps OpenRead base count root) = marked (headOps ++ root.recordOps ++ root.tableOps) := by
    simp [archiveOps,markedNames,markedFiles,marked]
  have later : (filled (root.nameOps base ++ last ++ root.fileOps OpenRead)).Perm
      (headKeys ++ (root.all.map nOff ++ root.all.flatMap dataKeys)) := by
    have swap : filled last = [text "numEntries",text "tocSize"] := rfl
    rw [filledAppend,filledAppend,filledFiles,swap,List.append_assoc]
    refine ((filledNames base shown).append_right _).trans ?_
    exact (List.perm_append_comm_assoc _ _ _).trans ((List.Perm.swap _ _ _).append_right _)
  have fills : (filled (archiveOps OpenRead base count root)).Perm (headKeys ++ root.all.flatMap keys) := by
    have split : filled (archiveOps OpenRead base count root) =
        filled root.tableOps ++ filled (root.nameOps base ++ last ++ root.fileOps OpenRead) := by
      simp [archiveOps,last,show filled headOps = [] from rfl]
    rw [split]
    refine ((filledTable root).append later).trans ((List.perm_append_comm_assoc _ _ _).trans ?_)
    exact (keysWhole root.all).append_left _
  have unique := keysUnique distinct
  refine ⟨⟨by rw [marks]; exact front.nodup_iff.mpr unique,fills.nodup_iff.mpr unique,?_⟩,by rw [marks]; exact fills.trans front.symm⟩
  have known : filled (root.nameOps base ++ last ++ root.fileOps OpenRead) ⊆
      marked (headOps ++ root.recordOps ++ root.tableOps) ++ [] := by
    intro key mem
    rw [List.append_nil,front.mem_iff]
    rcases List.mem_append.mp (later.mem_iff.mp mem) with head | inside
    · exact List.mem_append_left _ head
    · exact List.mem_append_right _ ((keysWhole root.all).mem_iff.mp (List.mem_append_right _ inside))
  have split : archiveOps OpenRead base count root =
      headOps ++ root.recordOps ++ root.tableOps ++ (root.nameOps base ++ last ++ root.fileOps OpenRead) := by
    simp [archiveOps,last]
  rw [split,coveredAppend,coveredAppend,coveredAppend]
  refine ⟨⟨⟨coveredUnfilled rfl,coveredUnfilled (filledRecord root)⟩,coveredTable (fun key mem => ?_)⟩,coveredKnown known⟩
  have own : key ∈ marked root.recordOps :=
    (markedRecord root).mem_iff.mpr (by rw [keysSplit]; exact List.mem_append_left _ mem)
  rw [markedAppend]
  exact List.mem_append_left _ (List.mem_append_right _ own)

end Citizen.Packfile
