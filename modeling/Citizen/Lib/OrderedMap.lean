import Mathlib.Data.List.Lex
import Mathlib.Data.List.Sort

/-! Maps as lists in the order of their keys, the part of a map that lies under an embedding of keys,
and the keys with a prefix, which stand together. -/
namespace Citizen

structure OrderedMap (κ ν : Type) [LinearOrder κ] where
  entries : List (κ × ν)
  sorted : entries.Pairwise (fun a b => a.1 < b.1)

namespace OrderedMap
variable {κ κ' ν : Type} [LinearOrder κ] [LinearOrder κ']

def empty : OrderedMap κ ν := ⟨[],List.Pairwise.nil⟩

def find (m : OrderedMap κ ν) (k : κ) : Option ν := (m.entries.find? (fun e => e.1 = k)).map Prod.snd

def erase (m : OrderedMap κ ν) (k : κ) : OrderedMap κ ν :=
  ⟨m.entries.filter (fun e => e.1 ≠ k),m.sorted.filter _⟩

def insert (m : OrderedMap κ ν) (k : κ) (v : ν) : OrderedMap κ ν where
  entries := m.entries.filter (fun e => e.1 < k) ++ (k,v) :: m.entries.filter (fun e => k < e.1)
  sorted := by
    have below {e : κ × ν} (mem : e ∈ m.entries.filter (fun e => e.1 < k)) : e.1 < k :=
      of_decide_eq_true (List.mem_filter.mp mem).2
    have above {e : κ × ν} (mem : e ∈ m.entries.filter (fun e => k < e.1)) : k < e.1 :=
      of_decide_eq_true (List.mem_filter.mp mem).2
    refine List.pairwise_append.mpr ⟨m.sorted.filter _,
      List.pairwise_cons.mpr ⟨fun e mem => above mem,m.sorted.filter _⟩,fun a memA b memB => ?_⟩
    rcases List.mem_cons.mp memB with rfl | memB
    · exact below memA
    · exact lt_trans (below memA) (above memB)

def emplace (m : OrderedMap κ ν) (k : κ) (v : ν) : OrderedMap κ ν := if (m.find k).isSome then m else m.insert k v

def restrict (g : κ' → κ) (f : κ → Option κ') (monotone : StrictMono g)
    (inverse : ∀ k k', f k = some k' → k = g k') (m : OrderedMap κ ν) : OrderedMap κ' ν where
  entries := m.entries.filterMap (fun e => (f e.1).map (fun k => (k,e.2)))
  sorted := by
    refine List.pairwise_filterMap.mpr (m.sorted.imp (fun {a b} before a' ha b' hb => ?_))
    obtain ⟨k,isK,rfl⟩ := Option.map_eq_some_iff.mp ha
    obtain ⟨k',isK',rfl⟩ := Option.map_eq_some_iff.mp hb
    rw [inverse _ _ isK,inverse _ _ isK'] at before
    exact monotone.lt_iff_lt.mp before

variable {m m' : OrderedMap κ ν} {k : κ} {v : ν}

theorem findSome : m.find k = some v ↔ (k,v) ∈ m.entries := by
  constructor
  · intro found
    obtain ⟨e,here,rfl⟩ := Option.map_eq_some_iff.mp found
    have key : e.1 = k := by simpa using List.find?_some here
    rw [← key]
    exact List.mem_of_find?_eq_some here
  · intro mem
    have unique : ∀ l : List (κ × ν), l.Pairwise (fun a b => a.1 < b.1) → (k,v) ∈ l →
        l.find? (fun e => e.1 = k) = some (k,v) := by
      intro l sorted mem
      induction l with
      | nil => exact absurd mem List.not_mem_nil
      | cons e rest ih =>
        obtain ⟨first,later⟩ := List.pairwise_cons.mp sorted
        rcases List.mem_cons.mp mem with rfl | mem
        · simp
        · have other : e.1 ≠ k := ne_of_lt (first _ mem)
          simp [other,ih later mem]
    unfold find
    rw [unique m.entries m.sorted mem]
    rfl

theorem findInsert (m : OrderedMap κ ν) (k : κ) (v : ν) (k' : κ) :
    (m.insert k v).find k' = if k' = k then some v else m.find k' := by
  apply Option.ext
  intro w
  rw [findSome]
  have mem : (k',w) ∈ (m.insert k v).entries ↔ ((k',w) ∈ m.entries ∧ k' < k) ∨ (k' = k ∧ w = v) ∨
      ((k',w) ∈ m.entries ∧ k < k') := by
    simp [insert]
  rw [mem]
  split
  · rename_i same
    simp only [same,lt_irrefl,and_false,false_or,or_false,true_and,Option.some.injEq]
    exact eq_comm
  · rename_i other
    rw [findSome]
    have apart := lt_or_gt_of_ne other
    tauto

theorem findEmplace (m : OrderedMap κ ν) (k : κ) (v : ν) (k' : κ) :
    (m.emplace k v).find k' = (m.find k').or (if k' = k then some v else none) := by
  unfold emplace
  split
  · rename_i there
    obtain ⟨old,found⟩ := Option.isSome_iff_exists.mp there
    split
    · rename_i same
      rw [same,found,Option.some_or]
    · rw [Option.or_none]
  · rename_i absent
    rw [findInsert]
    split
    · rename_i same
      rw [same,Option.not_isSome_iff_eq_none.mp absent,Option.none_or]
    · rw [Option.or_none]

theorem findEmplaced (f : κ → ν) (keys : List κ) (m : OrderedMap κ ν) (k : κ) :
    (keys.foldl (fun m k => m.emplace k (f k)) m).find k = (m.find k).or (if k ∈ keys then some (f k) else none) := by
  induction keys generalizing m with
  | nil => simp
  | cons first rest ih =>
    rw [List.foldl_cons,ih,findEmplace,Option.or_assoc]
    congr 1
    by_cases same : k = first
    · simp [same]
    · simp [same]

theorem findErase (m : OrderedMap κ ν) (k k' : κ) : (m.erase k).find k' = if k' = k then none else m.find k' := by
  apply Option.ext
  intro w
  rw [findSome]
  have mem : (k',w) ∈ (m.erase k).entries ↔ (k',w) ∈ m.entries ∧ k' ≠ k := by
    simp [erase]
  rw [mem]
  split
  · rename_i same
    simp [same]
  · rename_i other
    rw [findSome]
    exact and_iff_left other

theorem extFind (same : ∀ k, m.find k = m'.find k) : m = m' := by
  have mem (e : κ × ν) : e ∈ m.entries ↔ e ∈ m'.entries := by
    obtain ⟨k,v⟩ := e
    rw [← findSome,← findSome,same]
  have distinct {l : List (κ × ν)} (sorted : l.Pairwise (fun a b => a.1 < b.1)) : l.Nodup :=
    sorted.imp (fun before same => absurd (congrArg Prod.fst same) (ne_of_lt before))
  have perm := (List.perm_ext_iff_of_nodup (distinct m.sorted) (distinct m'.sorted)).mpr mem
  have entries : m.entries = m'.entries :=
    perm.eq_of_pairwise (fun _ _ _ _ before after => absurd before (not_lt_of_gt after)) m.sorted m'.sorted
  cases m
  cases m'
  cases entries
  rfl

theorem firstLeast {p : κ → Bool} : m.entries.find? (fun e => p e.1) = some (k,v) ↔
    m.find k = some v ∧ p k = true ∧ ∀ q, m.find q ≠ none → p q = true → k ≤ q := by
  constructor
  · intro found
    obtain ⟨here,before,after,split,others⟩ := List.find?_eq_some_iff_append.mp found
    refine ⟨findSome.mpr (List.mem_of_find?_eq_some found),here,fun q known fits => ?_⟩
    obtain ⟨w,isW⟩ := Option.ne_none_iff_exists'.mp known
    have mem := findSome.mp isW
    have sorted := m.sorted
    rw [split] at mem sorted
    rcases List.mem_append.mp mem with earlier | later
    · have other := others _ earlier
      simp [fits] at other
    · rcases List.mem_cons.mp later with same | later
      · exact le_of_eq (congrArg Prod.fst same).symm
      · exact le_of_lt ((List.pairwise_cons.mp (List.pairwise_append.mp sorted).2.1).1 _ later)
  · rintro ⟨known,fits,least⟩
    cases found : m.entries.find? (fun e => p e.1) with
    | none => exact absurd fits (List.find?_eq_none.mp found _ (findSome.mp known))
    | some e =>
      have mem := List.mem_of_find?_eq_some found
      have here : p e.1 = true := by simpa using List.find?_some found
      obtain ⟨_,before,after,split,others⟩ := List.find?_eq_some_iff_append.mp found
      have above := least e.1 (by rw [findSome.mpr mem]; exact Option.some_ne_none _) here
      have sorted := m.sorted
      have mem' := findSome.mp known
      rw [split] at sorted mem'
      rcases List.mem_append.mp mem' with earlier | later
      · have other := others _ earlier
        simp [fits] at other
      · rcases List.mem_cons.mp later with same | later
        · exact congrArg some same.symm
        · have below := (List.pairwise_cons.mp (List.pairwise_append.mp sorted).2.1).1 _ later
          exact absurd above (not_le_of_gt below)

section
variable {g : κ' → κ} {f : κ → Option κ'} {monotone : StrictMono g} {inverse : ∀ k k', f k = some k' → k = g k'}

theorem findRestrict (left : ∀ k', f (g k') = some k') (m : OrderedMap κ ν) (k' : κ') :
    (m.restrict g f monotone inverse).find k' = m.find (g k') := by
  apply Option.ext
  intro w
  rw [findSome,findSome]
  constructor
  · intro mem
    obtain ⟨e,earlier,made⟩ := List.mem_filterMap.mp mem
    obtain ⟨k,isK,same⟩ := Option.map_eq_some_iff.mp made
    cases same
    rw [← inverse _ _ isK]
    exact earlier
  · intro mem
    exact List.mem_filterMap.mpr ⟨_,mem,by rw [left k']; rfl⟩

theorem restrictInsert (left : ∀ k', f (g k') = some k') (m : OrderedMap κ ν) (k' : κ') (v : ν) :
    (m.insert (g k') v).restrict g f monotone inverse = (m.restrict g f monotone inverse).insert k' v := by
  refine extFind (fun q => ?_)
  simp only [findRestrict left,findInsert,monotone.injective.eq_iff]

theorem restrictErase (left : ∀ k', f (g k') = some k') (m : OrderedMap κ ν) (k' : κ') :
    (m.erase (g k')).restrict g f monotone inverse = (m.restrict g f monotone inverse).erase k' := by
  refine extFind (fun q => ?_)
  simp only [findRestrict left,findErase,monotone.injective.eq_iff]

theorem restrictOutside (left : ∀ k', f (g k') = some k') (same : ∀ k', m.find (g k') = m'.find (g k')) :
    m.restrict g f monotone inverse = m'.restrict g f monotone inverse := by
  refine extFind (fun q => ?_)
  rw [findRestrict left,findRestrict left,same]

end

section
variable {α : Type} [LinearOrder α]

theorem prefixBelow {p k q : List α} (above : ¬k < p) (other : ¬p <+: k) (starts : p <+: q) : q < k := by
  induction p generalizing k q with
  | nil => exact absurd List.nil_prefix other
  | cons a p ih =>
    cases k with
    | nil => exact absurd (List.nil_lt_cons a p) above
    | cons b k =>
      obtain ⟨rest,rfl⟩ := starts
      rw [List.cons_append]
      rcases lt_trichotomy a b with less | rfl | more
      · exact List.Lex.rel less
      · have later : ¬k < p := fun below => above (List.Lex.cons below)
        have inner : ¬p <+: k := fun starts => other (List.cons_prefix_cons.mpr ⟨rfl,starts⟩)
        exact List.Lex.cons (ih later inner (List.prefix_append p rest))
      · exact absurd (List.Lex.rel more) above

theorem prefixNotAbove {p k : List α} (starts : p <+: k) : ¬k < p := by
  induction p generalizing k with
  | nil => exact List.not_lt_nil k
  | cons a p ih =>
    obtain ⟨rest,rfl⟩ := starts
    intro below
    cases below with
    | rel less => exact absurd less (lt_irrefl a)
    | cons less => exact ih (List.prefix_append p rest) less

theorem prefixRun [BEq α] [LawfulBEq α] {l : List (List α × ν)} (sorted : l.Pairwise (fun a b => a.1 < b.1)) (p : List α) :
    (l.dropWhile (fun e => e.1 < p)).takeWhile (fun e => p.isPrefixOf e.1) = l.filter (fun e => p.isPrefixOf e.1) := by
  induction l with
  | nil => rfl
  | cons e rest ih =>
    obtain ⟨first,later⟩ := List.pairwise_cons.mp sorted
    by_cases below : e.1 < p
    · have other : p.isPrefixOf e.1 = false := by
        by_contra starts
        rw [Bool.not_eq_false,List.isPrefixOf_iff_prefix] at starts
        exact absurd below (prefixNotAbove starts)
      rw [List.dropWhile_cons_of_pos (by simpa using below),List.filter_cons_of_neg (by simp [other])]
      exact ih later
    · have after (e' : List α × ν) (mem : e' ∈ rest) : ¬e'.1 < p := fun below' => below (lt_trans (first e' mem) below')
      rw [List.dropWhile_cons_of_neg (by simpa using below)]
      by_cases starts : p.isPrefixOf e.1 = true
      · rw [List.takeWhile_cons_of_pos (by exact starts),List.filter_cons_of_pos (by exact starts)]
        have whole : rest.dropWhile (fun e => e.1 < p) = rest := by
          cases rest with
          | nil => rfl
          | cons e' rest => exact List.dropWhile_cons_of_neg (by simpa using after e' List.mem_cons_self)
        have next := ih later
        rw [whole] at next
        rw [next]
      · rw [List.takeWhile_cons_of_neg (by exact starts),List.filter_cons_of_neg (by exact starts)]
        refine (List.filter_eq_nil_iff.mpr (fun e' mem starts' => ?_)).symm
        rw [List.isPrefixOf_iff_prefix] at starts starts'
        exact absurd (first e' mem) (not_lt_of_gt (prefixBelow below starts starts'))

end
end OrderedMap
end Citizen
