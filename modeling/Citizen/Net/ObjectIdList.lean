import Mathlib.Data.List.Basic
import Mathlib.Tactic.Ring

/-! Lists of object ids, as ranges with the gaps between them. -/
namespace Citizen.Net.ServerObjectIds

abbrev ObjectId := BitVec 16

structure IdEntry where
  gap : BitVec 16
  size : BitVec 16
  deriving DecidableEq

def SetIds.loop (gap size : BitVec 16) (last : ObjectId) : List ObjectId → List IdEntry
  | [] => [⟨gap,size⟩]
  | id :: rest =>
    if id.toNat ≠ last.toNat + 1 then ⟨gap,size⟩ :: SetIds.loop (BitVec.ofInt 16 (id.toNat - 2 - last.toNat)) 0 id rest
    else SetIds.loop gap (size + 1) id rest

def SetIds : List ObjectId → List IdEntry
  | [] => []
  | id :: rest => SetIds.loop (BitVec.ofInt 16 (id.toNat - 2 - -1)) 0 id rest

variable {σ : Type}

def forEntry (callback : σ → ObjectId → σ) (size : BitVec 16) : Nat → BitVec 16 → ObjectId → σ → Option (ObjectId × σ)
  | 0,_,_,_ => none
  | turns + 1,j,last,s => if j ≤ size then forEntry callback size turns (j + 1) (last + 1) (callback s last) else some (last,s)

def forEntries (callback : σ → ObjectId → σ) (turns : Nat) : ObjectId → List IdEntry → σ → Option σ
  | _,[],s => some s
  | last,entry :: rest,s =>
    (forEntry callback entry.size turns 0 (last + (entry.gap + 1)) s).bind (fun (last,s) =>
      forEntries callback turns last rest s)

def GetIds (turns : Nat) (ids : List IdEntry) (idsToRead : List ObjectId) : Option (List ObjectId) :=
  forEntries (fun idsToRead objectId => idsToRead ++ [objectId]) turns 0 ids idsToRead

def ForEachId (callback : σ → ObjectId → σ) (turns : Nat) (ids : List IdEntry) (s : σ) : Option σ :=
  forEntries callback turns 0 ids s

example : GetIds 5 (SetIds [0,1,2,7,65534,65535]) [] = some [0,1,2,7,65534,65535] := by decide

def consecutive : ObjectId → Nat → List ObjectId
  | _,0 => []
  | id,n + 1 => id :: consecutive (id + 1) n

def denoted : ObjectId → List IdEntry → List ObjectId
  | _,[] => []
  | last,entry :: rest =>
    let first := last + (entry.gap + 1)
    let count := entry.size.toNat + 1
    consecutive first count ++ denoted (first + BitVec.ofNat 16 count) rest

variable {callback : σ → ObjectId → σ} {size j last : BitVec 16} {s : σ} {turns n : Nat}

theorem consecutiveLength (id : ObjectId) (n : Nat) : (consecutive id n).length = n := by
  induction n generalizing id with
  | zero => rfl
  | succ n ih => simp [consecutive,ih]

theorem addNext (id : ObjectId) (n : Nat) : id + 1 + BitVec.ofNat 16 n = id + BitVec.ofNat 16 (n + 1) := by
  rw [Nat.add_comm n,BitVec.ofNat_add,BitVec.add_assoc]
  rfl

theorem nextToNat {id : BitVec 16} (below : id.toNat < 65535) : (id + 1).toNat = id.toNat + 1 := by
  rw [BitVec.toNat_add]
  exact Nat.mod_eq_of_lt (Nat.add_lt_of_lt_sub below)

theorem consecutiveSnoc (id : ObjectId) (n : Nat) :
    consecutive id (n + 1) = consecutive id n ++ [id + BitVec.ofNat 16 n] := by
  induction n generalizing id with
  | zero => simp [consecutive]
  | succ n ih =>
    rw [consecutive,ih,consecutive,List.cons_append]
    rw [addNext]

theorem forEntryEnds (left : j.toNat + n = size.toNat + 1) (small : size ≠ 65535) (enough : n < turns) :
    forEntry callback size turns j last s = some (last + BitVec.ofNat 16 n,(consecutive last n).foldl callback s) := by
  have bound : size.toNat < 65535 := by
    have differ : size.toNat ≠ 65535 := fun same => small (BitVec.eq_of_toNat_eq same)
    have := size.isLt
    omega
  induction n generalizing turns j last s with
  | zero =>
    obtain ⟨turns,rfl⟩ := Nat.exists_eq_add_one.mpr enough
    have past : ¬j ≤ size := by
      rw [BitVec.le_def]
      omega
    simp [forEntry,past,consecutive]
  | succ n ih =>
    obtain ⟨turns,rfl⟩ := Nat.exists_eq_add_one.mpr (Nat.zero_lt_of_lt enough)
    have inside : j ≤ size := by
      rw [BitVec.le_def]
      omega
    have next : (j + 1).toNat + n = size.toNat + 1 := by
      rw [nextToNat (by omega)]
      omega
    rw [forEntry,if_pos inside,ih next (by omega),consecutive,List.foldl_cons,addNext]

theorem forEntryNever (full : size = 65535) : forEntry callback size turns j last s = none := by
  induction turns generalizing j last s with
  | zero => rfl
  | succ turns ih =>
    have inside : j ≤ size := by
      rw [full,BitVec.le_def]
      exact Nat.le_of_lt_succ j.isLt
    rw [forEntry,if_pos inside,ih]

variable {entries : List IdEntry}

theorem forEntriesEnd (small : ∀ e ∈ entries, e.size ≠ 65535) (enough : 2 ^ 16 ≤ turns) :
    forEntries callback turns last entries s = some ((denoted last entries).foldl callback s) := by
  induction entries generalizing last s with
  | nil => rfl
  | cons entry rest ih =>
    obtain ⟨here,later⟩ := List.forall_mem_cons.mp small
    have count : entry.size.toNat + 1 < 2 ^ 16 := by
      have differ : entry.size.toNat ≠ 65535 := fun same => here (BitVec.eq_of_toNat_eq same)
      have := entry.size.isLt
      omega
    rw [forEntries,forEntryEnds (n := entry.size.toNat + 1) (by simp) here (by omega)]
    simp [ih later,denoted,List.foldl_append]

theorem forEntriesNever (full : ∃ e ∈ entries, e.size = 65535) : forEntries callback turns last entries s = none := by
  induction entries generalizing last s with
  | nil => simp at full
  | cons entry rest ih =>
    rw [forEntries]
    rcases (List.exists_mem_cons_iff _ _ _).mp full with here | later
    · rw [forEntryNever here]
      rfl
    · exact Option.bind_eq_none_iff.mpr (fun next _ => ih later)

theorem denotedLength {e : IdEntry} (mem : e ∈ entries) : e.size.toNat + 1 ≤ (denoted last entries).length := by
  induction entries generalizing last with
  | nil => cases mem
  | cons entry rest ih =>
    rw [denoted,List.length_append,consecutiveLength]
    rcases List.mem_cons.mp mem with rfl | later
    · exact Nat.le_add_right _ _
    · exact Nat.le_trans (ih later) (Nat.le_add_left _ _)

theorem gapBetween (id : ObjectId) (last : Int) :
    BitVec.ofInt 16 (last + 1) + (BitVec.ofInt 16 (id.toNat - 2 - last) + 1) = id := by
  have sum : last + 1 + (id.toNat - 2 - last + 1) = (id.toNat : Int) := by omega
  calc BitVec.ofInt 16 (last + 1) + (BitVec.ofInt 16 (id.toNat - 2 - last) + 1)
      = BitVec.ofInt 16 (last + 1 + (id.toNat - 2 - last + 1)) := by rw [BitVec.ofInt_add (last + 1),BitVec.ofInt_add (_ - last) 1]; rfl
    _ = id := by rw [sum,BitVec.ofInt_natCast,BitVec.ofNat_toNat,BitVec.setWidth_eq]

theorem runEnd {first last : ObjectId} {n : Nat} (run : first.toNat + n = last.toNat) :
    first + BitVec.ofNat 16 n = last := by
  apply BitVec.eq_of_toNat_eq
  have := last.isLt
  simp only [BitVec.toNat_add,BitVec.toNat_ofNat]
  omega

variable {ids : List ObjectId}

theorem denotedLoop {gap size : BitVec 16} {before first last : ObjectId}
    (ascending : (last :: ids).Pairwise (· < ·)) (start : before + (gap + 1) = first)
    (run : first.toNat + size.toNat = last.toNat) :
    denoted before (SetIds.loop gap size last ids) = consecutive first (size.toNat + 1) ++ ids := by
  induction ids generalizing gap size before first last with
  | nil => rw [SetIds.loop,denoted,start,denoted]
  | cons id rest ih =>
    obtain ⟨above,later⟩ := List.pairwise_cons.mp ascending
    rw [SetIds.loop]
    split
    · have next : first + BitVec.ofNat 16 (size.toNat + 1) = BitVec.ofInt 16 (last.toNat + 1) := by
        rw [← addNext,BitVec.add_assoc,BitVec.add_comm 1,← BitVec.add_assoc,runEnd run,BitVec.ofInt_add,
          BitVec.ofInt_natCast,BitVec.ofNat_toNat,BitVec.setWidth_eq]
        rfl
      rw [denoted,start]
      dsimp only
      rw [next,ih later (gapBetween id last.toNat) (by simp)]
      rfl
    · rename_i follows
      have follows : id.toNat = last.toNat + 1 := not_not.mp follows
      have grown : (size + 1).toNat = size.toNat + 1 := nextToNat (by omega)
      have here : first + BitVec.ofNat 16 (size.toNat + 1) = id := runEnd (by omega)
      rw [ih later start (by omega),grown,consecutiveSnoc,here,List.append_assoc]
      rfl

theorem denotedSetIds (ascending : ids.Pairwise (· < ·)) : denoted 0 (SetIds ids) = ids := by
  cases ids with
  | nil => rfl
  | cons id rest => exact denotedLoop ascending (by simpa using gapBetween id (-1)) (by simp)

theorem ascendingRoom {last : ObjectId} (ascending : (last :: ids).Pairwise (· < ·)) :
    last.toNat + ids.length ≤ 65535 := by
  induction ids generalizing last with
  | nil => exact Nat.le_of_lt_succ last.isLt
  | cons id rest ih =>
    obtain ⟨above,later⟩ := List.pairwise_cons.mp ascending
    have next : last.toNat < id.toNat := above id List.mem_cons_self
    have room := ih later
    rw [List.length_cons]
    omega

theorem loopFull {gap size : BitVec 16} {last : ObjectId} (ascending : (last :: ids).Pairwise (· < ·))
    (full : last.toNat + ids.length = 65535) :
    SetIds.loop gap size last ids = [⟨gap,size + BitVec.ofNat 16 ids.length⟩] := by
  induction ids generalizing size last with
  | nil => simp [SetIds.loop]
  | cons id rest ih =>
    obtain ⟨above,later⟩ := List.pairwise_cons.mp ascending
    have next : last.toNat < id.toNat := above id List.mem_cons_self
    have room := ascendingRoom later
    rw [List.length_cons] at full
    rw [SetIds.loop,if_neg (by omega),ih later (by omega),addNext]
    rfl

theorem setIdsFull (ascending : ids.Pairwise (· < ·)) : (∃ e ∈ SetIds ids, e.size = 65535) ↔ ids.length = 2 ^ 16 := by
  constructor
  · rintro ⟨e,mem,full⟩
    have long : e.size.toNat + 1 ≤ ids.length := by
      rw [← denotedSetIds ascending]
      exact denotedLength mem
    rw [full] at long
    cases ids with
    | nil => cases mem
    | cons id rest =>
      have room := ascendingRoom ascending
      exact Nat.le_antisymm (by rw [List.length_cons]; omega) long
  · intro full
    cases ids with
    | nil => cases full
    | cons id rest =>
      have room := ascendingRoom ascending
      have count : rest.length = 65535 := by simpa using full
      refine ⟨_,by rw [SetIds,loopFull ascending (by omega)]; exact List.mem_singleton_self _,?_⟩
      rw [count]
      rfl

def Terminates (entries : List IdEntry) : Prop :=
  (∀ idsToRead, ∃ turns, (GetIds turns entries idsToRead).isSome) ∧
  ∀ (σ : Type) (callback : σ → ObjectId → σ) (s : σ), ∃ turns, (ForEachId callback turns entries s).isSome

def Visits (entries : List IdEntry) (ids : List ObjectId) : Prop :=
  (∀ idsToRead, ∃ turns, GetIds turns entries idsToRead = some (idsToRead ++ ids)) ∧
  ∀ (σ : Type) (callback : σ → ObjectId → σ) (s : σ), ∃ turns, ForEachId callback turns entries s = some (ids.foldl callback s)

theorem visitsDenoted (small : ∀ e ∈ entries, e.size ≠ 65535) : Visits entries (denoted 0 entries) := by
  have appended (idsToRead ids : List ObjectId) :
      ids.foldl (fun idsToRead objectId => idsToRead ++ [objectId]) idsToRead = idsToRead ++ ids := by
    induction ids generalizing idsToRead with
    | nil => simp
    | cons id rest ih => simp [ih]
  refine ⟨fun idsToRead => ⟨2 ^ 16,?_⟩,fun σ callback s => ⟨2 ^ 16,forEntriesEnd small (Nat.le_refl _)⟩⟩
  rw [GetIds,forEntriesEnd small (Nat.le_refl _),appended]

theorem Visits.terminates (visits : Visits entries ids) : Terminates entries := by
  refine ⟨fun idsToRead => ?_,fun σ callback s => ?_⟩
  · obtain ⟨turns,ends⟩ := visits.1 idsToRead
    exact ⟨turns,by rw [ends]; rfl⟩
  · obtain ⟨turns,ends⟩ := visits.2 σ callback s
    exact ⟨turns,by rw [ends]; rfl⟩

theorem terminatesSmall : Terminates entries ↔ ∀ e ∈ entries, e.size ≠ 65535 := by
  constructor
  · intro ends e mem full
    obtain ⟨turns,isSome⟩ := ends.1 []
    rw [GetIds,forEntriesNever ⟨e,mem,full⟩] at isSome
    cases isSome
  · intro small
    exact (visitsDenoted small).terminates

theorem idListCodec (ascending : ids.Pairwise (· < ·)) (entries : List IdEntry) :
    (Visits (SetIds ids) ids ↔ ids.length ≠ 2 ^ 16) ∧ (Terminates entries ↔ ∀ e ∈ entries, e.size ≠ 65535) := by
  refine ⟨?_,terminatesSmall⟩
  constructor
  · intro visits full
    obtain ⟨e,mem,isFull⟩ := (setIdsFull ascending).mpr full
    exact terminatesSmall.mp visits.terminates e mem isFull
  · intro short
    have visits := visitsDenoted (fun e mem isFull => short ((setIdsFull ascending).mp ⟨e,mem,isFull⟩))
    rwa [denotedSetIds ascending] at visits

theorem idListCodecEnds : Visits (SetIds [0,1,65535]) [0,1,65535] ∧ Terminates [⟨65535,65534⟩] := by
  have codec := @idListCodec [0,1,65535] (by decide) [⟨65535,65534⟩]
  exact ⟨codec.1.mpr (by decide),codec.2.mpr (by decide)⟩

theorem endlessEntry : ¬Terminates [⟨0,65535⟩] := by
  intro ends
  exact terminatesSmall.mp ends ⟨0,65535⟩ (List.mem_singleton_self _) rfl

end Citizen.Net.ServerObjectIds
