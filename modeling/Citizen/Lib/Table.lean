import Mathlib.Data.Finset.Card
import Mathlib.Data.List.AList
import Mathlib.Algebra.BigOperators.Group.List.Basic
import Mathlib.Algebra.GroupWithZero.Nat

/-! Finite maps with unordered iteration: an association list without duplicate keys,
the in-place updates that a program makes through a reference to an entry, filtering,
and sums over the entries. -/
namespace Citizen

abbrev Table (κ ν : Type) := AList (fun _ : κ => ν)

namespace Table
variable {κ ν μ : Type} [DecidableEq κ]

def mapValues (f : κ → ν → μ) (t : Table κ ν) : Table κ μ where
  entries := t.entries.map (fun e => ⟨e.1,f e.1 e.2⟩)
  nodupKeys := by
    have keys := t.nodupKeys
    rw [List.NodupKeys,List.keys] at keys ⊢
    simpa [Function.comp_def] using keys

def adjust (k : κ) (f : ν → ν) (t : Table κ ν) : Table κ ν :=
  mapValues (fun k' v => if k' = k then f v else v) t

def keep (p : κ → ν → Bool) (t : Table κ ν) : Table κ ν where
  entries := t.entries.filter (fun e => p e.1 e.2)
  nodupKeys := List.Nodup.sublist (List.filter_sublist.map Sigma.fst) t.nodupKeys

def filterMapValues (f : κ → ν → Option μ) (t : Table κ ν) : Table κ μ where
  entries := t.entries.filterMap (fun e => (f e.1 e.2).map (Sigma.mk e.1))
  nodupKeys := by
    refine List.Nodup.sublist ?_ t.nodupKeys
    rw [List.keys,List.keys]
    induction t.entries with
    | nil => simp
    | cons e rest ih =>
      rw [List.filterMap_cons]
      cases f e.1 e.2 with
      | none => exact ih.cons _
      | some v => exact ih.cons_cons _

def total (g : ν → Nat) (t : Table κ ν) : Nat := (t.entries.map (fun e => g e.2)).sum

theorem lookupMapValues (f : κ → ν → μ) (t : Table κ ν) (k : κ) : (mapValues f t).lookup k = (t.lookup k).map (f k) :=
  List.dlookup_map₂ k

theorem lookupAdjustSelf (k : κ) (f : ν → ν) (t : Table κ ν) : (adjust k f t).lookup k = (t.lookup k).map f := by
  simp [adjust,lookupMapValues]

theorem lookupAdjustOther {k k' : κ} (other : k' ≠ k) (f : ν → ν) (t : Table κ ν) :
    (adjust k f t).lookup k' = t.lookup k' := by
  simp [adjust,lookupMapValues,other]

theorem lookupInsert (t : Table κ ν) (k k' : κ) (v : ν) :
    (t.insert k v).lookup k' = if k' = k then some v else t.lookup k' := by
  split
  · rename_i same
    rw [same,AList.lookup_insert]
  · rename_i other
    exact AList.lookup_insert_ne other

theorem lookupErase (t : Table κ ν) (k k' : κ) : (t.erase k).lookup k' = if k' = k then none else t.lookup k' := by
  split
  · rename_i same
    rw [same,AList.lookup_erase]
  · rename_i other
    exact AList.lookup_erase_ne other

theorem lookupErased {t : Table κ ν} {k k' : κ} {v : ν} (found : (t.erase k).lookup k' = some v) :
    k' ≠ k ∧ t.lookup k' = some v := by
  rw [lookupErase] at found
  split at found
  · cases found
  · rename_i other
    exact ⟨other,found⟩

theorem memEntries {t : Table κ ν} {k : κ} {v : ν} : t.lookup k = some v ↔ ⟨k,v⟩ ∈ t.entries :=
  AList.mem_lookup_iff

theorem lookupKeep (p : κ → ν → Bool) (t : Table κ ν) (k : κ) : (keep p t).lookup k = (t.lookup k).filter (p k) := by
  apply Option.ext
  intro v
  rw [memEntries,Option.filter_eq_some_iff,memEntries]
  simp [keep]

section
variable (g : ν → Nat)

theorem sumErase {entries : List (Σ _ : κ, ν)} {k : κ} {v : ν} (mem : v ∈ List.dlookup k entries) :
    (entries.map (fun e => g e.2)).sum = g v + ((List.kerase k entries).map (fun e => g e.2)).sum := by
  induction entries with
  | nil => simp at mem
  | cons e rest ih =>
    by_cases here : k = e.1
    · obtain ⟨key,value⟩ := e
      subst here
      rw [List.dlookup_cons_eq,Option.mem_some_iff] at mem
      subst mem
      simp
    · rw [List.dlookup_cons_ne _ _ here] at mem
      rw [List.kerase_cons_ne here]
      simp only [List.map_cons,List.sum_cons,ih mem]
      omega

theorem totalErase {t : Table κ ν} {k : κ} {v : ν} (found : t.lookup k = some v) :
    total g t = g v + total g (t.erase k) :=
  sumErase g found

theorem totalInsertNew {t : Table κ ν} {k : κ} (v : ν) (fresh : t.lookup k = none) :
    total g (t.insert k v) = g v + total g t := by
  have absent : k ∉ t.entries.keys := List.dlookup_eq_none.mp fresh
  simp [total,AList.insert,List.kinsert_def,List.kerase_of_notMem_keys absent]

theorem totalInsertOld {t : Table κ ν} {k : κ} {old : ν} (v : ν)
    (found : t.lookup k = some old) : total g (t.insert k v) + g old = total g t + g v := by
  have same : total g (t.insert k v) = g v + total g (t.erase k) := by
    simp only [total,AList.entries_insert,List.map_cons,List.sum_cons]
    rfl
  rw [same,totalErase g found]
  omega

theorem leTotal {t : Table κ ν} {k : κ} {v : ν} (found : t.lookup k = some v) : g v ≤ total g t := by
  rw [totalErase g found]
  omega

end

theorem lookupFilterMapValues (f : κ → ν → Option μ) (t : Table κ ν) (k : κ) :
    (filterMapValues f t).lookup k = (t.lookup k).bind (f k) := by
  apply Option.ext
  intro v
  rw [memEntries,Option.bind_eq_some_iff]
  constructor
  · intro mem
    obtain ⟨⟨k',old⟩,earlier,made⟩ := List.mem_filterMap.mp mem
    obtain ⟨new,eq,same⟩ := Option.map_eq_some_iff.mp made
    cases same
    exact ⟨old,memEntries.mpr earlier,eq⟩
  · rintro ⟨old,found,made⟩
    exact List.mem_filterMap.mpr ⟨⟨k,old⟩,memEntries.mp found,by simp [made]⟩

omit [DecidableEq κ] in
theorem totalEmpty (g : ν → Nat) : total g (∅ : Table κ ν) = 0 := rfl

theorem totalKeep (g : ν → Nat) {p : κ → ν → Bool} {t : Table κ ν}
    (dropped : ∀ k v, t.lookup k = some v → p k v = false → g v = 0) : total g (keep p t) = total g t := by
  have each : ∀ entries : List (Σ _ : κ, ν), (∀ e ∈ entries, p e.1 e.2 = false → g e.2 = 0) →
      ((entries.filter (fun e => p e.1 e.2)).map (fun e => g e.2)).sum =
        (entries.map (fun e => g e.2)).sum := by
    intro entries zero
    induction entries with
    | nil => rfl
    | cons e rest ih =>
      have tail := ih (fun e mem => zero e (List.mem_cons_of_mem _ mem))
      cases kept : p e.1 e.2 with
      | true => simp [kept,tail]
      | false => simp [kept,tail,zero e List.mem_cons_self kept]
  exact each t.entries (fun e mem => dropped e.1 e.2 (memEntries.mpr mem))

theorem totalCongr {g h : ν → Nat} {t : Table κ ν} (same : ∀ k v, t.lookup k = some v → g v = h v) :
    total g t = total h t :=
  congrArg List.sum (List.map_congr_left (fun e mem => same e.1 e.2 (memEntries.mpr mem)))

theorem totalEraseNone (g : ν → Nat) {t : Table κ ν} {k : κ} (absent : t.lookup k = none) :
    total g (t.erase k) = total g t := by
  have keys : k ∉ t.entries.keys := List.dlookup_eq_none.mp absent
  unfold total AList.erase
  dsimp only
  rw [List.kerase_of_notMem_keys keys]

theorem totalBound {g id : ν → Nat} {t : Table κ ν} {n : Nat} (small : ∀ v, g v ≤ 1)
    (below : ∀ k v, t.lookup k = some v → g v ≠ 0 → id v < n)
    (apart : ∀ k v k' v', t.lookup k = some v → t.lookup k' = some v' → g v ≠ 0 → g v' ≠ 0 → id v = id v' → k = k') :
    total g t ≤ n := by
  let counted := t.entries.filter (fun e => g e.2 ≠ 0)
  have inside (e : Σ _ : κ, ν) (mem : e ∈ counted) : t.lookup e.1 = some e.2 ∧ g e.2 ≠ 0 := by
    obtain ⟨earlier,nonzero⟩ := List.mem_filter.mp mem
    exact ⟨memEntries.mpr earlier,of_decide_eq_true nonzero⟩
  have length : ∀ entries : List (Σ _ : κ, ν),
      (entries.map (fun e => g e.2)).sum ≤ (entries.filter (fun e => g e.2 ≠ 0)).length := by
    intro entries
    induction entries with
    | nil => exact Nat.le_refl _
    | cons e rest ih =>
      have first := small e.2
      rw [List.map_cons,List.sum_cons,List.filter_cons]
      split
      · rw [List.length_cons]
        omega
      · rename_i zero
        have none : g e.2 = 0 := by simpa using zero
        omega
  have distinct : (counted.map (fun e => id e.2)).Nodup := by
    refine List.Nodup.map_on (fun e mem e' mem' same => ?_) (t.nodupKeys.nodup.filter _)
    obtain ⟨found,nonzero⟩ := inside e mem
    obtain ⟨found',nonzero'⟩ := inside e' mem'
    have key := apart e.1 e.2 e'.1 e'.2 found found' nonzero nonzero' same
    rw [key,found'] at found
    obtain ⟨k,v⟩ := e
    obtain ⟨k',v'⟩ := e'
    cases key
    cases found
    rfl
  have range : (counted.map (fun e => id e.2)).toFinset ⊆ Finset.range n := by
    intro i mem
    obtain ⟨e,member,rfl⟩ := List.mem_map.mp (List.mem_toFinset.mp mem)
    obtain ⟨found,nonzero⟩ := inside e member
    exact Finset.mem_range.mpr (below e.1 e.2 found nonzero)
  have card := Finset.card_le_card range
  rw [List.toFinset_card_of_nodup distinct,List.length_map,Finset.card_range] at card
  exact Nat.le_trans (length t.entries) card
end Table
end Citizen
