import Citizen.State.Ownership
import Mathlib.Order.Interval.Finset.Nat

/-! The search of `GetFreeObjectIds` as it runs, with its counter of 16 bits: it grants ids of the id space as long as
there are enough of them, and no longer. -/
namespace Citizen.State
namespace Server

def roundToWord (val : Nat) : Nat := (val + 8 - 1) / 8 * 8

def idBits : Nat := roundToWord MaxObjectId

def isFree (s : Server) (id : Nat) : Bool := id ∉ s.objectIdsSent ∧ id ∉ s.objectIdsUsed

/-- The inner loop, in at most `steps` rounds: no result when these were not enough, and no id when it came to
the end of the bits. -/
def findFreeId (s : Server) : Nat → Nat → Option (Option Nat)
  | 0,_ => none
  | steps + 1,id =>
    if id < idBits then
      if s.isFree id then some (some id) else s.findFreeId steps ((id + 1) % 2 ^ 16)
    else some none

def grantId (s : Server) (client : ClientId) (id : Nat) : Server :=
  { s.modifyData client (fun d => { d with objectIds := insert id d.objectIds }) with
    objectIdsSent := insert id s.objectIdsSent }

def grantIds (steps : Nat) (client : ClientId) : Nat → Nat → Server → Option (List Nat × Server)
  | 0,_,s => some ([],s)
  | numIds + 1,id,s =>
    match s.findFreeId steps id with
    | none => none
    | some none => some ([],s)
    | some (some id) =>
      (grantIds steps client numIds id (s.grantId client id)).map (fun rest => (id :: rest.1,rest.2))

def idSpace (s : Server) : Finset Nat := Finset.Icc 1 (if s.lengthHack then MaxObjectId - 1 else 8191)

def freeIds (s : Server) : Finset Nat := s.idSpace.filter (fun id => s.isFree id)

structure Grants (s : Server) (numIds : Nat) (ids : List Nat) (s' : Server) : Prop where
  distinct : ids.Nodup
  inside : ∀ id ∈ ids, id ∈ s.idSpace
  free : ∀ id ∈ ids, id ∉ s.objectIdsSent ∧ id ∉ s.objectIdsUsed
  marked : s'.objectIdsSent = s.objectIdsSent ∪ ids.toFinset
  few : ids.length ≤ numIds
  all : ids.length < numIds → s'.freeIds = ∅

section
variable {s : Server} {client : ClientId} {steps id : Nat}

theorem idBitsWord : idBits = 2 ^ 16 := by decide

theorem isFreeGrant (k : Nat) : (s.grantId client k).isFree id = (s.isFree id && decide (id ≠ k)) := by
  simp only [isFree,grantId,modifyData,Finset.mem_insert,not_or]
  by_cases same : id = k <;> simp [same]

theorem findFreeIdWord (small : id < 2 ^ 16) : s.findFreeId steps id ≠ some none := by
  induction steps generalizing id with
  | zero => exact fun found => by cases found
  | succ steps ih =>
    rw [findFreeId,idBitsWord,if_pos small]
    split
    · exact fun found => by cases found
    · exact ih (Nat.mod_lt _ (by decide))

theorem findFreeIdFree {k : Nat} (small : id < 2 ^ 16) (found : s.findFreeId steps id = some (some k)) :
    s.isFree k = true ∧ k < 2 ^ 16 := by
  induction steps generalizing id with
  | zero => cases found
  | succ steps ih =>
    rw [findFreeId,idBitsWord,if_pos small] at found
    split at found
    · rename_i free
      cases found
      exact ⟨free,small⟩
    · exact ih (Nat.mod_lt _ (by decide)) found

theorem findFreeIdNext {k : Nat} (before : id ≤ k) (small : k < 2 ^ 16) (free : s.isFree k = true)
    (first : ∀ j, id ≤ j → j < k → s.isFree j = false) (enough : k < id + steps) :
    s.findFreeId steps id = some (some k) := by
  induction steps generalizing id with
  | zero => omega
  | succ steps ih =>
    rw [findFreeId,idBitsWord,if_pos (by omega)]
    rcases Nat.eq_or_lt_of_le before with rfl | earlier
    · rw [if_pos free]
    · rw [if_neg (by rw [first id (Nat.le_refl _) earlier]; decide),Nat.mod_eq_of_lt (by omega)]
      exact ih earlier (fun j from' => first j (by omega)) (by omega)

theorem grantIdsReturned {numIds : Nat} {ids : List Nat} {s' : Server} (small : id < 2 ^ 16)
    (returned : grantIds steps client numIds id s = some (ids,s')) :
    ids.length = numIds ∧ ids.Nodup ∧ (∀ k ∈ ids, s.isFree k = true) := by
  induction numIds generalizing id s ids with
  | zero =>
    cases returned
    exact ⟨rfl,List.nodup_nil,by simp⟩
  | succ numIds ih =>
    rw [grantIds] at returned
    split at returned
    · cases returned
    · rename_i found
      exact absurd found (findFreeIdWord small)
    · rename_i k found
      obtain ⟨free,small'⟩ := findFreeIdFree small found
      obtain ⟨⟨rest,last⟩,more,same⟩ := Option.map_eq_some_iff.mp returned
      cases same
      obtain ⟨length,distinct,each⟩ := ih small' more
      have later (j : Nat) (mem : j ∈ rest) : s.isFree j = true ∧ j ≠ k := by
        simpa [isFreeGrant] using each j mem
      refine ⟨by rw [List.length_cons,length],List.nodup_cons.mpr ⟨fun mem => (later k mem).2 rfl,distinct⟩,?_⟩
      exact List.forall_mem_cons.mpr ⟨free,fun j mem => (later j mem).1⟩

theorem memFreeIds : id ∈ s.freeIds ↔ id ∈ s.idSpace ∧ s.isFree id = true := Finset.mem_filter

theorem freeGrant (k : Nat) : (s.grantId client k).freeIds = s.freeIds.erase k := by
  ext j
  rw [Finset.mem_erase,memFreeIds,memFreeIds,isFreeGrant,Bool.and_eq_true,decide_eq_true_iff]
  change j ∈ s.idSpace ∧ _ ↔ _
  tauto

theorem spaceSmall (mem : id ∈ s.idSpace) : 1 ≤ id ∧ id < 2 ^ 16 := by
  obtain ⟨first,last⟩ := Finset.mem_Icc.mp mem
  have bound : (if s.lengthHack then MaxObjectId - 1 else 8191) < 2 ^ 16 := by split <;> decide
  exact ⟨first,Nat.lt_of_le_of_lt last bound⟩

def idsFrom (id : Nat) : List Nat := List.range' id (2 ^ 16 - id) ++ [0]

theorem idsFromStep (small : id < 2 ^ 16) : idsFrom id = id :: idsFrom (id + 1) := by
  rw [idsFrom,idsFrom,show 2 ^ 16 - id = 2 ^ 16 - (id + 1) + 1 by omega,List.range'_succ,List.cons_append]

theorem takeFreeIdsTaken {k : Nat} {rest : List Nat} (taken : s.isFree k = false) (count : Nat) :
    s.takeFreeIds client (k :: rest) count = s.takeFreeIds client rest count := by
  cases count with
  | zero => simp [takeFreeIds]
  | succ count => rw [takeFreeIds,if_neg (by simpa only [isFree,decide_eq_false_iff_not] using taken)]

theorem takeFreeIdsSkip {k count : Nat} (before : id ≤ k) (small : k < 2 ^ 16)
    (first : ∀ j, id ≤ j → j < k → s.isFree j = false) :
    s.takeFreeIds client (idsFrom id) count = s.takeFreeIds client (idsFrom k) count := by
  induction before using Nat.decreasingInduction with
  | self => rfl
  | of_succ id inside ih =>
    rw [← ih (fun j from' => first j (by omega)),idsFromStep (Nat.lt_trans inside small),
      takeFreeIdsTaken (first id (Nat.le_refl id) inside)]

theorem takeFreeIdsNext {k count : Nat} (before : id ≤ k) (small : k < 2 ^ 16) (free : s.isFree k = true)
    (first : ∀ j, id ≤ j → j < k → s.isFree j = false) : s.takeFreeIds client (idsFrom id) (count + 1) =
      (k :: ((s.grantId client k).takeFreeIds client (idsFrom k) count).1,
        ((s.grantId client k).takeFreeIds client (idsFrom k) count).2) := by
  have here : k ∉ s.objectIdsSent ∧ k ∉ s.objectIdsUsed := by simpa only [isFree,decide_eq_true_eq] using free
  have taken : (s.grantId client k).isFree k = false := by simp [isFreeGrant]
  rw [takeFreeIdsSkip before small first,idsFromStep small,takeFreeIds,if_pos here,takeFreeIdsTaken taken]
  rfl

theorem grantIdsGives {numIds : Nat} (enough : numIds ≤ s.freeIds.card) (ahead : ∀ j ∈ s.freeIds, id ≤ j) (some' : 1 ≤ id) :
    ∃ ids s', grantIds (2 ^ 16) client numIds id s = some (ids,s') ∧ (∀ k ∈ ids, k ∈ s.freeIds) ∧
      s'.objectIdsSent = s.objectIdsSent ∪ ids.toFinset ∧ s.takeFreeIds client (idsFrom id) numIds = (ids,s') := by
  induction numIds generalizing id s with
  | zero => exact ⟨[],s,rfl,by simp,by simp,by simp [takeFreeIds]⟩
  | succ numIds ih =>
    have nonempty : s.freeIds.Nonempty := Finset.card_pos.mp (by omega)
    obtain ⟨least,below⟩ : s.freeIds.min' nonempty ∈ s.freeIds ∧ ∀ j ∈ s.freeIds, s.freeIds.min' nonempty ≤ j :=
      ⟨Finset.min'_mem _ _,fun j mem => Finset.min'_le _ _ mem⟩
    generalize s.freeIds.min' nonempty = k at least below
    obtain ⟨space,free⟩ := memFreeIds.mp least
    obtain ⟨positive,small⟩ := spaceSmall space
    have first (j : Nat) (from' : id ≤ j) (before : j < k) : s.isFree j = false := by
      cases taken : s.isFree j with
      | false => rfl
      | true =>
        have inside : j ∈ s.idSpace := by
          obtain ⟨-,last⟩ := Finset.mem_Icc.mp space
          exact Finset.mem_Icc.mpr ⟨by omega,by omega⟩
        exact absurd (below j (memFreeIds.mpr ⟨inside,taken⟩)) (by omega)
    have found : s.findFreeId (2 ^ 16) id = some (some k) :=
      findFreeIdNext (ahead k least) small free first (by omega)
    have left : numIds ≤ (s.grantId client k).freeIds.card := by
      rw [freeGrant,Finset.card_erase_of_mem least]
      omega
    have ahead' : ∀ j ∈ (s.grantId client k).freeIds, k ≤ j := by
      intro j mem
      rw [freeGrant] at mem
      exact below j (Finset.mem_erase.mp mem).2
    obtain ⟨rest,s',granted,inside,marked,listed⟩ := ih left ahead' positive
    refine ⟨k :: rest,s',?_,List.forall_mem_cons.mpr ⟨least,fun j mem => ?_⟩,?_,?_⟩
    · simp only [grantIds,found]
      rw [granted]
      rfl
    · have kept := inside j mem
      rw [freeGrant] at kept
      exact (Finset.mem_erase.mp kept).2
    · rw [marked]
      ext j
      simp [grantId]
    · rw [takeFreeIdsNext (ahead k least) small free first,listed]

theorem grantIdsListed {numIds : Nat} (enough : numIds ≤ s.freeIds.card) :
    grantIds (2 ^ 16) client numIds 1 s = some (s.GetFreeObjectIds client numIds) := by
  have ahead : ∀ j ∈ s.freeIds, 1 ≤ j := fun j mem => (spaceSmall (memFreeIds.mp mem).1).1
  obtain ⟨ids,s',returned,-,-,listed⟩ := grantIdsGives enough ahead (Nat.le_refl 1)
  rw [returned,← listed]
  rfl

def gapped : Server := { ((Server.init true true).grantId 1 1).grantId 1 3 with objectIdsUsed := {4} }

theorem gapsListed : grantIds (2 ^ 16) 2 3 1 gapped = some (gapped.GetFreeObjectIds 2 3) ∧
      (grantIds (2 ^ 16) 2 3 1 gapped).map Prod.fst = some [2,5,6] := by
  have free : {2,5,6} ⊆ gapped.freeIds := by
    simp only [Finset.insert_subset_iff,Finset.singleton_subset_iff,memFreeIds,idSpace,Finset.mem_Icc]
    decide
  exact ⟨@grantIdsListed gapped 2 3 (Finset.card_le_card free),by decide +kernel⟩

theorem searchNeverEnds (full : ∀ j < 2 ^ 16, s.isFree j = false) (small : id < 2 ^ 16) : s.findFreeId steps id = none := by
  induction steps generalizing id with
  | zero => rfl
  | succ steps ih =>
    rw [findFreeId,idBitsWord,if_pos small,if_neg (by rw [full id small]; decide)]
    exact ih (Nat.mod_lt _ (by decide))

theorem objectIdsGranted (s : Server) (client : ClientId) (numIds : Nat) :
    (∃ steps ids s', grantIds steps client numIds 1 s = some (ids,s') ∧ Grants s numIds ids s') ↔
      numIds ≤ s.freeIds.card := by
  constructor
  · rintro ⟨steps,ids,s',returned,granted⟩
    obtain ⟨length,distinct,each⟩ := grantIdsReturned (by decide) returned
    have inside : ids.toFinset ⊆ s.freeIds := fun k mem =>
      memFreeIds.mpr ⟨granted.inside k (List.mem_toFinset.mp mem),each k (List.mem_toFinset.mp mem)⟩
    have card := Finset.card_le_card inside
    rwa [List.toFinset_card_of_nodup distinct,length] at card
  · intro enough
    have ahead : ∀ j ∈ s.freeIds, 1 ≤ j := fun j mem => (spaceSmall (memFreeIds.mp mem).1).1
    obtain ⟨ids,s',returned,inside,marked,-⟩ := grantIdsGives enough ahead (Nat.le_refl 1)
    obtain ⟨length,distinct,-⟩ := grantIdsReturned (by decide) returned
    refine ⟨2 ^ 16,ids,s',returned,distinct,fun k mem => (memFreeIds.mp (inside k mem)).1,fun k mem => ?_,marked,
      Nat.le_of_eq length,fun fewer => absurd fewer (by omega)⟩
    simpa [isFree] using (memFreeIds.mp (inside k mem)).2

def sentBelow (bound : Nat) : Server := { init false false with objectIdsSent := Finset.range bound }

theorem freeSentBelow (bound j : Nat) : (sentBelow bound).isFree j = decide (bound ≤ j) := by
  simp [isFree,sentBelow,init]

theorem idOutsideGranted :
    (∃ ids s', grantIds (2 ^ 16) 1 1 1 (sentBelow 8192) = some (ids,s') ∧ ∃ k ∈ ids, k ∉ (sentBelow 8192).idSpace) ∧
      ∀ steps, grantIds steps 1 1 1 (sentBelow (2 ^ 16)) = none := by
  constructor
  · have free : (sentBelow 8192).isFree 8192 = true := (freeSentBelow ..).trans (decide_eq_true (Nat.le_refl _))
    have found : (sentBelow 8192).findFreeId (2 ^ 16) 1 = some (some 8192) :=
      findFreeIdNext (by omega) (by omega) free
        (fun j _ before => (freeSentBelow ..).trans (decide_eq_false (Nat.not_le.mpr before))) (by omega)
    refine ⟨[8192],(sentBelow 8192).grantId 1 8192,?_,8192,List.mem_cons_self,fun mem => ?_⟩
    · rw [grantIds,found]
      rfl
    · obtain ⟨-,last⟩ := Finset.mem_Icc.mp mem
      change 8192 ≤ 8191 at last
      omega
  · intro steps
    have never : (sentBelow (2 ^ 16)).findFreeId steps 1 = none :=
      searchNeverEnds (fun j small => (freeSentBelow ..).trans (decide_eq_false (Nat.not_le.mpr small))) (by omega)
    rw [grantIds,never]

end
end Server
end Citizen.State
