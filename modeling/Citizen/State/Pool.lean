import Citizen.Lib.Run
import Mathlib.Algebra.GroupWithZero.Nat

/-! The pool that script handles are made of: slots in blocks that are never given back, each with a byte that has a
free flag and a generation of seven bits. -/
namespace Citizen.Pool

structure tPoolObjectFlags where
  uID : BitVec 7
  bIsFreeSlot : Bool
  deriving DecidableEq, Repr

def tPoolObjectFlags.b (flags : tPoolObjectFlags) : BitVec 8 := BitVec.ofBool flags.bIsFreeSlot ++ flags.uID

abbrev Element := Nat × Nat

structure CPool where
  m_ByteMap : List tPoolObjectFlags
  m_Size : Nat
  m_nFirstFree : Nat
  m_blocks : List Nat
  deriving DecidableEq, Repr

inductive Allocation where
  | granted | noByteMap | noBlock
  deriving DecidableEq, Repr

namespace CPool

def flags (p : CPool) (i : Nat) : tPoolObjectFlags := p.m_ByteMap.getD i ⟨0,true⟩

def IsFreeSlotAtIndex (p : CPool) (idx : Nat) : Bool := (p.flags idx).bIsFreeSlot

def elementFrom (index : Nat) : List Nat → Nat → Nat → Option Element
  | [],_,_ => none
  | size :: rest,i,blockStart =>
    if blockStart ≤ index ∧ index < blockStart + size then some (i,index - blockStart)
    else elementFrom index rest (i + 1) (blockStart + size)

def GetElementAt (p : CPool) (index : Nat) : Option Element := elementFrom index p.m_blocks 0 0

def indexFrom : List Nat → Nat → Element → Option Nat
  | [],_,_ => none
  | size :: _,count,(0,place) => if place < size then some (count + place) else none
  | size :: rest,count,(block + 1,place) => indexFrom rest (count + size) (block,place)

def GetIndexFromElement (p : CPool) (e : Element) : Option Nat := indexFrom p.m_blocks 0 e

def ReallocByteMap (p : CPool) (size : Nat) : CPool :=
  { p with m_ByteMap := p.m_ByteMap.take p.m_Size ++ List.replicate (size - p.m_Size) ⟨0,true⟩ }

def ReallocBlockArray (p : CPool) (size : Nat) : CPool := { p with m_blocks := p.m_blocks ++ [size - p.m_Size] }

def MakeSureHasBlocks (p : CPool) (size : Nat) (allocation : Allocation) : CPool × Bool :=
  if p.m_Size < size then
    match allocation with
    | .noByteMap => (p,false)
    | .noBlock => (p.ReallocByteMap size,false)
    | .granted => ({ (p.ReallocByteMap size).ReallocBlockArray size with m_Size := size },true)
  else (p,true)

def MaxSize : Nat := 2 ^ 31 - 1

def Growt (p : CPool) (requires_ : Nat) : Nat :=
  if p.m_Size < requires_ then
    let half := p.m_Size / 2
    let size := if MaxSize - half < p.m_Size then 0 else p.m_Size + half
    if size < requires_ then requires_ else size
  else p.m_Size

def Grow (p : CPool) (allocation : Allocation) : CPool × Bool :=
  let (grown,done) := p.MakeSureHasBlocks (p.Growt (p.m_Size + 1)) allocation
  if done then ({ grown with m_nFirstFree := p.m_Size },true) else (grown,false)

def search (p : CPool) (nStartFree m_nFirstFree : Nat) (bReachedTop : Bool) : Except Nat Nat :=
  if p.m_Size ≤ m_nFirstFree then .error m_nFirstFree
  else if p.IsFreeSlotAtIndex m_nFirstFree then .ok m_nFirstFree
  else if p.m_Size ≤ m_nFirstFree + 1 then
    if bReachedTop then .error (m_nFirstFree + 1) else p.search nStartFree 0 true
  else if bReachedTop && m_nFirstFree + 1 = nStartFree then .error (m_nFirstFree + 1)
  else p.search nStartFree (m_nFirstFree + 1) bReachedTop
termination_by ((!bReachedTop).toNat,p.m_Size - m_nFirstFree)
decreasing_by
  · simp_all [Prod.lex_def]
  · simp [Prod.lex_def]
    omega

def take (p : CPool) (index : Nat) : CPool :=
  { p with
    m_nFirstFree := index + 1
    m_ByteMap := p.m_ByteMap.set index ⟨(p.flags index).uID + 1,false⟩ }

def findSlot (p : CPool) : Except Nat Nat :=
  if p.m_Size = 0 then .error p.m_nFirstFree
  else
    let m_nFirstFree := if p.m_Size ≤ p.m_nFirstFree then 0 else p.m_nFirstFree
    p.search m_nFirstFree m_nFirstFree false

def New : List Allocation → CPool → Option Element × CPool
  | allocations,p =>
    match p.findSlot with
    | .ok index => (p.GetElementAt index,p.take index)
    | .error m_nFirstFree =>
      let p := { p with m_nFirstFree := m_nFirstFree }
      match allocations with
      | [] => (none,p)
      | allocation :: rest =>
        let (grown,done) := p.Grow allocation
        if done then New rest grown else (none,grown)

def Delete (p : CPool) (pObject : Element) : CPool :=
  match p.GetIndexFromElement pObject with
  | none => p
  | some index =>
    { p with
      m_ByteMap := p.m_ByteMap.set index { p.flags index with bIsFreeSlot := true }
      m_nFirstFree := if index < p.m_nFirstFree then index else p.m_nFirstFree }

def GetIndex (p : CPool) (pObject : Element) : Option (BitVec 32) :=
  (p.GetIndexFromElement pObject).map (fun i => BitVec.ofNat 32 i <<< 8 ||| (p.flags i).b.setWidth 32)

def AtHandle (p : CPool) (handle : BitVec 32) : Option Element :=
  let nSlotIndex := (handle.sshiftRight 8).toInt
  if 0 ≤ nSlotIndex ∧ nSlotIndex < p.m_Size ∧ (p.flags nSlotIndex.toNat).b = handle.setWidth 8 then
    p.GetElementAt nSlotIndex.toNat
  else none

def Init (size : Nat) : CPool := (MakeSureHasBlocks ⟨[],0,0,[]⟩ size .granted).1


structure Extends (p q : CPool) : Prop where
  size : p.m_Size ≤ q.m_Size
  old : ∀ i < p.m_Size, q.flags i = p.flags i
  new : ∀ i, p.m_Size ≤ i → i < q.m_Size → q.flags i = ⟨0,true⟩
  index : ∀ e i, p.GetIndexFromElement e = some i → q.GetIndexFromElement e = some i
  within : ∀ e i, q.GetIndexFromElement e = some i → i < p.m_Size → p.GetIndexFromElement e = some i

structure Sized (p : CPool) : Prop where
  blocks : p.m_blocks.sum = p.m_Size
  bytes : p.m_Size ≤ p.m_ByteMap.length

variable {blocks : List Nat}

theorem indexBounds {count i : Nat} {e : Element} (found : indexFrom blocks count e = some i) :
    count ≤ i ∧ i < count + blocks.sum := by
  induction blocks generalizing count e with
  | nil => cases found
  | cons size rest ih =>
    rw [List.sum_cons]
    obtain ⟨_ | block,place⟩ := e
    · simp only [indexFrom,Option.ite_none_right_eq_some,Option.some.injEq] at found
      omega
    · have bounds := ih found
      omega

theorem indexAppend {size count : Nat} (e : Element) :
    indexFrom (blocks ++ [size]) count e =
      (indexFrom blocks count e).or (if e.1 = blocks.length ∧ e.2 < size then some (count + blocks.sum + e.2) else none) := by
  induction blocks generalizing count e with
  | nil =>
    obtain ⟨_ | block,place⟩ := e
    · simp [indexFrom]
    · simp [indexFrom]
  | cons first rest ih =>
    obtain ⟨_ | block,place⟩ := e
    · by_cases inside : place < first
      · simp [indexFrom,inside]
      · simp [indexFrom,inside]
    · simp only [List.cons_append,indexFrom,ih,List.length_cons,List.sum_cons,Nat.add_right_cancel_iff,Nat.add_assoc]

theorem elementIff {index : Nat} {i blockStart : Nat} {e : Element} (first : blockStart ≤ index) :
    elementFrom index blocks i blockStart = some e ↔
      ∃ block, e.1 = i + block ∧ indexFrom blocks blockStart (block,e.2) = some index := by
  induction blocks generalizing i blockStart with
  | nil => simp [elementFrom,indexFrom]
  | cons size rest ih =>
    unfold elementFrom
    split
    · rename_i inside
      constructor
      · intro found
        cases Option.some.inj found
        exact ⟨0,rfl,by simp only [indexFrom]; rw [if_pos (by omega)]; congr 1; omega⟩
      · rintro ⟨_ | block,here,found⟩
        · simp only [indexFrom,Option.ite_none_right_eq_some,Option.some.injEq] at found
          exact congrArg some (Prod.ext here.symm (by simp only; omega))
        · have bounds := indexBounds (show indexFrom rest (blockStart + size) (block,e.2) = some index from found)
          omega
    · rename_i outside
      rw [ih (by omega)]
      constructor
      · rintro ⟨block,here,found⟩
        exact ⟨block + 1,by omega,found⟩
      · rintro ⟨_ | block,here,found⟩
        · simp only [indexFrom,Option.ite_none_right_eq_some,Option.some.injEq] at found
          omega
        · exact ⟨block,by omega,found⟩

theorem elementAtIff {p : CPool} {index : Nat} {e : Element} :
    p.GetElementAt index = some e ↔ p.GetIndexFromElement e = some index := by
  rw [GetElementAt,elementIff (Nat.zero_le index)]
  constructor
  · rintro ⟨block,here,found⟩
    rwa [show block = e.1 by omega] at found
  · exact fun found => ⟨e.1,by omega,found⟩

theorem Sized.inside {p : CPool} (sized : Sized p) {e : Element} {i : Nat} (found : p.GetIndexFromElement e = some i) :
    i < p.m_Size := by
  have bounds := indexBounds found
  rw [sized.blocks] at bounds
  omega

theorem Extends.refl (p : CPool) : Extends p p :=
  ⟨Nat.le_refl _,fun _ _ => rfl,fun _ first last => absurd (Nat.lt_of_le_of_lt first last) (Nat.lt_irrefl _),
    fun _ _ found => found,fun _ _ found _ => found⟩

theorem Extends.trans {p q r : CPool} (first : Extends p q) (second : Extends q r) : Extends p r where
  size := Nat.le_trans first.size second.size
  old i inside := (second.old i (Nat.lt_of_lt_of_le inside first.size)).trans (first.old i inside)
  new i outside inside := by
    rcases Nat.lt_or_ge i q.m_Size with before | after
    · rw [second.old i before,first.new i outside before]
    · exact second.new i after inside
  index e i found := second.index e i (first.index e i found)
  within e i found inside := first.within e i (second.within e i found (Nat.lt_of_lt_of_le inside first.size)) inside

theorem Extends.moved {p q : CPool} (extends' : Extends p q) (m_nFirstFree : Nat) :
    Extends p { q with m_nFirstFree := m_nFirstFree } :=
  ⟨extends'.size,extends'.old,extends'.new,extends'.index,extends'.within⟩

section
variable {p : CPool}

theorem flagsRealloc (sized : Sized p) (size i : Nat) :
    (p.ReallocByteMap size).flags i = if i < p.m_Size then p.flags i else ⟨0,true⟩ := by
  have bytes := sized.bytes
  have length : (p.m_ByteMap.take p.m_Size).length = p.m_Size := List.length_take_of_le bytes
  simp only [flags,ReallocByteMap,List.getD_eq_getElem?_getD]
  split
  · rename_i inside
    rw [List.getElem?_append_left (by omega),List.getElem?_take_of_lt inside]
  · rename_i outside
    rw [List.getElem?_append_right (by omega),List.getElem?_replicate]
    split <;> rfl

theorem makeSureExtends (sized : Sized p) (size : Nat) (allocation : Allocation) :
    Extends p (p.MakeSureHasBlocks size allocation).1 ∧ Sized (p.MakeSureHasBlocks size allocation).1 := by
  unfold MakeSureHasBlocks
  split
  · rename_i grows
    have bytes : (p.ReallocByteMap size).m_ByteMap.length = size := by
      have kept := sized.bytes
      simp only [ReallocByteMap,List.length_append,List.length_take,List.length_replicate]
      omega
    cases allocation with
    | noByteMap => exact ⟨.refl p,sized⟩
    | noBlock =>
      have old (i : Nat) (inside : i < p.m_Size) : (p.ReallocByteMap size).flags i = p.flags i := by
        rw [flagsRealloc sized,if_pos inside]
      exact ⟨⟨Nat.le_refl _,old,fun i outside inside => absurd (Nat.lt_of_le_of_lt outside inside) (Nat.lt_irrefl _),
        fun _ _ found => found,fun _ _ found _ => found⟩,sized.blocks,by rw [bytes]; exact Nat.le_of_lt grows⟩
    | granted =>
      refine ⟨⟨Nat.le_of_lt grows,fun i inside => ?_,fun i outside _ => ?_,fun e i found => ?_,fun e i found inside => ?_⟩,?_,?_⟩
      · exact (flagsRealloc sized size i).trans (if_pos inside)
      · exact (flagsRealloc sized size i).trans (if_neg (Nat.not_lt.mpr outside))
      · change indexFrom (p.m_blocks ++ [size - p.m_Size]) 0 e = some i
        rw [indexAppend,show indexFrom p.m_blocks 0 e = some i from found,Option.some_or]
      · change indexFrom (p.m_blocks ++ [size - p.m_Size]) 0 e = some i at found
        rw [indexAppend,sized.blocks] at found
        cases before : indexFrom p.m_blocks 0 e with
        | some j =>
          rw [before,Option.some_or] at found
          exact before.trans found
        | none =>
          rw [before,Option.none_or,Option.ite_none_right_eq_some] at found
          have same := Option.some.inj found.2
          omega
      · change (p.m_blocks ++ [size - p.m_Size]).sum = size
        rw [List.sum_append,sized.blocks,List.sum_singleton]
        omega
      · exact Nat.le_of_eq bytes.symm
  · exact ⟨.refl p,sized⟩

theorem growExtends (sized : Sized p) (allocation : Allocation) :
    Extends p (p.Grow allocation).1 ∧ Sized (p.Grow allocation).1 := by
  obtain ⟨grown,kept⟩ := makeSureExtends sized (p.Growt (p.m_Size + 1)) allocation
  unfold Grow
  dsimp only
  split
  · exact ⟨grown.moved _,kept.blocks,kept.bytes⟩
  · exact ⟨grown,kept⟩

theorem searchFree {nStartFree m_nFirstFree index : Nat} {bReachedTop : Bool}
    (found : p.search nStartFree m_nFirstFree bReachedTop = .ok index) :
    index < p.m_Size ∧ p.IsFreeSlotAtIndex index = true := by
  fun_induction search p nStartFree m_nFirstFree bReachedTop with
  | case1 => cases found
  | case2 first _ inside free =>
    cases found
    exact ⟨Nat.lt_of_not_le inside,free⟩
  | case3 => cases found
  | case4 first _ inside taken last top ih => exact ih found
  | case5 => cases found
  | case6 first _ inside taken later again ih => exact ih found

theorem findSlotFree {index : Nat} (found : p.findSlot = .ok index) :
    index < p.m_Size ∧ p.IsFreeSlotAtIndex index = true := by
  unfold findSlot at found
  split at found
  · cases found
  · exact searchFree found

theorem newExact (sized : Sized p) (allocations : List Allocation) : ∃ q, Extends p q ∧ Sized q ∧
      ((∃ index, index < q.m_Size ∧ q.IsFreeSlotAtIndex index = true ∧
        p.New allocations = (q.GetElementAt index,q.take index)) ∨ p.New allocations = (none,q)) := by
  induction allocations generalizing p with
  | nil =>
    unfold New
    split
    · rename_i index found
      exact ⟨p,.refl p,sized,.inl ⟨index,(findSlotFree found).1,(findSlotFree found).2,rfl⟩⟩
    · rename_i m_nFirstFree stopped
      exact ⟨_,(Extends.refl p).moved m_nFirstFree,⟨sized.blocks,sized.bytes⟩,.inr rfl⟩
  | cons allocation rest ih =>
    unfold New
    split
    · rename_i index found
      exact ⟨p,.refl p,sized,.inl ⟨index,(findSlotFree found).1,(findSlotFree found).2,rfl⟩⟩
    · rename_i m_nFirstFree stopped
      let moved : CPool := { p with m_nFirstFree := m_nFirstFree }
      obtain ⟨grown,kept⟩ := growExtends (p := moved) ⟨sized.blocks,sized.bytes⟩ allocation
      have whole : Extends p (moved.Grow allocation).1 := ((Extends.refl p).moved m_nFirstFree).trans grown
      dsimp only
      split
      · obtain ⟨q,later,kept',outcome⟩ := ih kept
        exact ⟨q,whole.trans later,kept',outcome⟩
      · exact ⟨_,whole,kept,.inr rfl⟩

theorem flagsSet (sized : Sized p) {index : Nat} (inside : index < p.m_Size) (new : tPoolObjectFlags)
    (m_nFirstFree i : Nat) :
    flags { p with m_ByteMap := p.m_ByteMap.set index new, m_nFirstFree := m_nFirstFree } i =
      if i = index then new else p.flags i := by
  have bytes := sized.bytes
  simp only [flags,List.getD_eq_getElem?_getD,List.getElem?_set]
  split
  · rename_i here
    subst here
    rw [if_pos rfl,if_pos (Nat.lt_of_lt_of_le inside bytes),Option.getD_some]
  · rename_i other
    rw [if_neg (Ne.symm other)]

end

end CPool

structure Used where
  pool : CPool
  live : List Element
  given : Element → Nat

inductive Op where
  | new (allocations : List Allocation)
  | delete (pObject : Element)

namespace Used

def give (s : Used) : Option Element × CPool → Used
  | (some e,pool) => ⟨pool,e :: s.live,fun e' => if e' = e then s.given e' + 1 else s.given e'⟩
  | (none,pool) => ⟨pool,s.live,s.given⟩

def step (s : Used) : Op → Used
  | .new allocations => s.give (s.pool.New allocations)
  | .delete pObject => ⟨s.pool.Delete pObject,s.live.filter (· ≠ pObject),s.given⟩

def init (size : Nat) : Used := ⟨.Init size,[],fun _ => 0⟩

structure Kept (s : Used) : Prop where
  sized : s.pool.Sized
  flags : ∀ e i, s.pool.GetIndexFromElement e = some i →
    s.pool.flags i = ⟨BitVec.ofNat 7 (s.given e),decide (e ∉ s.live)⟩
  outside : ∀ e, s.pool.GetIndexFromElement e = none → s.given e = 0 ∧ e ∉ s.live

open CPool

theorem Kept.extend {s : Used} (kept : Kept s) {q : CPool} (extends' : s.pool.Extends q) (sized : q.Sized) :
    Kept ⟨q,s.live,s.given⟩ := by
  refine ⟨sized,fun e i found => ?_,fun e absent => ?_⟩
  · rcases Nat.lt_or_ge i s.pool.m_Size with before | after
    · exact (extends'.old i before).trans (kept.flags e i (extends'.within e i found before))
    · have absent : s.pool.GetIndexFromElement e = none := by
        cases old : s.pool.GetIndexFromElement e with
        | none => rfl
        | some j =>
          have same := Option.some.inj ((extends'.index e j old).symm.trans found)
          have inside := kept.sized.inside old
          omega
      obtain ⟨never,dead⟩ := kept.outside e absent
      rw [extends'.new i after (sized.inside found)]
      simp [never,dead]
  · cases old : s.pool.GetIndexFromElement e with
    | none => exact kept.outside e old
    | some j =>
      rw [extends'.index e j old] at absent
      cases absent

theorem indexUnique {p : CPool} {e e' : Element} {i : Nat} (found : p.GetIndexFromElement e = some i)
    (found' : p.GetIndexFromElement e' = some i) : e = e' :=
  Option.some.inj ((elementAtIff.mpr found).symm.trans (elementAtIff.mpr found'))

theorem elementFromSome {index : Nat} {blocks : List Nat} {i blockStart : Nat} (first : blockStart ≤ index)
    (last : index < blockStart + blocks.sum) : ∃ e, elementFrom index blocks i blockStart = some e := by
  induction blocks generalizing i blockStart with
  | nil =>
    rw [List.sum_nil] at last
    omega
  | cons size rest ih =>
    rw [List.sum_cons] at last
    unfold elementFrom
    split
    · exact ⟨_,rfl⟩
    · exact ih (by omega) (by omega)

theorem elementInside {p : CPool} (sized : p.Sized) {index : Nat} (inside : index < p.m_Size) :
    ∃ e, p.GetElementAt index = some e :=
  elementFromSome (Nat.zero_le index) (by rw [sized.blocks]; omega)

section
variable {s : Used} (kept : Kept s)
include kept

theorem Kept.newFresh (allocations : List Allocation) {e : Element} {pool : CPool}
    (made : s.pool.New allocations = (some e,pool)) :
    e ∉ s.live ∧ Kept ⟨pool,e :: s.live,fun e' => if e' = e then s.given e' + 1 else s.given e'⟩ := by
  obtain ⟨q,extends',sized,⟨index,inside,free,outcome⟩ | outcome⟩ := newExact kept.sized allocations
  · have grown := kept.extend extends' sized
    rw [outcome,Prod.mk.injEq] at made
    obtain ⟨place,rfl⟩ := made
    have here := elementAtIff.mp place
    have old := grown.flags e index here
    rw [IsFreeSlotAtIndex,old] at free
    refine ⟨of_decide_eq_true free,⟨sized.blocks,?_⟩,fun e' i found => ?_,fun e' absent => ?_⟩
    · simpa only [take,List.length_set] using sized.bytes
    · rw [take,flagsSet sized inside]
      split
      · rename_i same
        subst same
        obtain rfl := indexUnique here found
        simp [old,BitVec.ofNat_add]
      · rename_i other
        have apart : e' ≠ e := by
          rintro rfl
          exact other (Option.some.inj (found.symm.trans here))
        rw [grown.flags e' i found]
        simp [apart]
    · have apart : e' ≠ e := by
        rintro rfl
        rw [show (q.take index).GetIndexFromElement e' = q.GetIndexFromElement e' from rfl,here] at absent
        cases absent
      obtain ⟨never,dead⟩ := grown.outside e' absent
      exact ⟨(if_neg apart).trans never,fun mem => (List.mem_cons.mp mem).elim apart dead⟩
  · rw [outcome] at made
    cases made

theorem Kept.newNone (allocations : List Allocation) {pool : CPool}
    (made : s.pool.New allocations = (none,pool)) : Kept ⟨pool,s.live,s.given⟩ := by
  obtain ⟨q,extends',sized,⟨index,inside,free,outcome⟩ | outcome⟩ := newExact kept.sized allocations
  · obtain ⟨e,place⟩ := elementInside sized inside
    rw [outcome,place] at made
    cases made
  · rw [outcome] at made
    cases made
    exact kept.extend extends' sized

theorem Kept.delete (pObject : Element) : Kept (s.step (.delete pObject)) := by
  change Kept ⟨s.pool.Delete pObject,s.live.filter (· ≠ pObject),s.given⟩
  unfold CPool.Delete
  split
  · rename_i place
    have dead := (kept.outside pObject place).2
    have same : s.live.filter (· ≠ pObject) = s.live :=
      List.filter_eq_self.mpr (fun e mem => by simpa using fun other : e = pObject => dead (other ▸ mem))
    rw [same]
    exact kept
  · rename_i index place
    have inside := kept.sized.inside place
    refine ⟨⟨kept.sized.blocks,?_⟩,fun e i found => ?_,fun e absent => ?_⟩
    · simpa only [List.length_set] using kept.sized.bytes
    · rw [flagsSet kept.sized inside]
      split
      · rename_i same
        subst same
        obtain rfl := indexUnique place found
        rw [kept.flags pObject i place]
        simp
      · rename_i other
        have apart : e ≠ pObject := by
          rintro rfl
          exact other (Option.some.inj (found.symm.trans place))
        rw [kept.flags e i found]
        simp [apart]
    · obtain ⟨never,dead⟩ := kept.outside e absent
      exact ⟨never,fun mem => dead (List.mem_filter.mp mem).1⟩

theorem Kept.step (op : Op) : Kept (s.step op) := by
  cases op with
  | delete pObject => exact kept.delete pObject
  | new allocations =>
    change Kept (s.give (s.pool.New allocations))
    rcases made : s.pool.New allocations with ⟨_ | e,pool⟩
    · exact kept.newNone allocations made
    · exact (kept.newFresh allocations made).2

end

theorem keptInit (size : Nat) : Kept (init size) := by
  have empty : CPool.Sized ⟨[],0,0,[]⟩ := ⟨rfl,Nat.le_refl 0⟩
  have start : Kept ⟨⟨[],0,0,[]⟩,[],fun _ => 0⟩ :=
    ⟨empty,fun _ _ found => (by cases found),fun _ _ => ⟨rfl,List.not_mem_nil⟩⟩
  have grown := makeSureExtends empty size .granted
  exact start.extend grown.1 grown.2

theorem byteParts (flags : tPoolObjectFlags) : flags.b.setWidth 7 = flags.uID ∧ flags.b.getLsbD 7 = flags.bIsFreeSlot := by
  obtain ⟨uID,free⟩ := flags
  revert uID free
  decide

theorem handleByte {handle : BitVec 32} {flags : tPoolObjectFlags} (byte : handle.setWidth 8 = flags.b) :
    handle.setWidth 7 = flags.uID ∧ handle.getLsbD 7 = flags.bIsFreeSlot := by
  obtain ⟨generation,free⟩ := byteParts flags
  rw [← byte] at generation free
  refine ⟨?_,?_⟩
  · rw [← generation,BitVec.setWidth_setWidth_of_le _ (by decide)]
  · rw [← free]
    simp

theorem handleParts {i : Nat} (small : i < 2 ^ 23) (b : BitVec 8) :
    ((BitVec.ofNat 32 i <<< 8 ||| b.setWidth 32).sshiftRight 8).toInt = i ∧
      (BitVec.ofNat 32 i <<< 8 ||| b.setWidth 32).setWidth 8 = b := by
  have byte := b.isLt
  have value : (BitVec.ofNat 32 i <<< 8 ||| b.setWidth 32).toNat = i * 256 + b.toNat := by
    rw [BitVec.toNat_or,BitVec.toNat_shiftLeft,BitVec.toNat_setWidth,BitVec.toNat_ofNat,Nat.mod_eq_of_lt (a := i) (by omega),
      Nat.mod_eq_of_lt (a := b.toNat) (by omega),Nat.shiftLeft_eq,Nat.mod_eq_of_lt (by omega),← Nat.shiftLeft_eq i 8,
      ← Nat.shiftLeft_add_eq_or_of_lt byte,Nat.shiftLeft_eq]
  constructor
  · rw [BitVec.toInt_sshiftRight,BitVec.toInt_eq_toNat_of_lt (by omega),value,Int.shiftRight_eq_div_pow]
    omega
  · apply BitVec.eq_of_toNat_eq
    rw [BitVec.toNat_setWidth,value]
    omega

section
variable {s : Used} (kept : Kept s)
include kept

theorem Kept.live {e : Element} (mem : e ∈ s.live) :
    ∃ i, s.pool.GetIndexFromElement e = some i ∧ s.pool.flags i = ⟨BitVec.ofNat 7 (s.given e),false⟩ := by
  cases place : s.pool.GetIndexFromElement e with
  | none => exact absurd mem (kept.outside e place).2
  | some i => exact ⟨i,rfl,by simp [kept.flags e i place,mem]⟩

theorem Kept.found {handle : BitVec 32} {e : Element} (found : s.pool.AtHandle handle = some e) :
    (e ∈ s.live ↔ handle.getLsbD 7 = false) ∧ handle.setWidth 7 = BitVec.ofNat 7 (s.given e) := by
  simp only [AtHandle,Option.ite_none_right_eq_some] at found
  obtain ⟨⟨-,-,byte⟩,place⟩ := found
  obtain ⟨generation,free⟩ := handleByte byte.symm
  rw [kept.flags e _ (elementAtIff.mp place)] at generation free
  refine ⟨?_,generation⟩
  rw [free,decide_eq_false_iff_not,not_not]

section
variable (small : s.pool.m_Size ≤ 2 ^ 23) {e : Element} (mem : e ∈ s.live)
include small mem

theorem Kept.handle : ∃ i handle, s.pool.GetIndexFromElement e = some i ∧ s.pool.GetIndex e = some handle ∧
      (handle.sshiftRight 8).toInt = i ∧ handle.setWidth 8 = (s.pool.flags i).b ∧ handle.getLsbD 7 = false ∧
      handle.setWidth 7 = BitVec.ofNat 7 (s.given e) := by
  obtain ⟨i,place,flags⟩ := kept.live mem
  have inside := kept.sized.inside place
  obtain ⟨slot,byte⟩ := handleParts (i := i) (by omega) (s.pool.flags i).b
  obtain ⟨generation,free⟩ := handleByte byte
  refine ⟨i,_,place,by rw [GetIndex,place]; rfl,slot,byte,?_,?_⟩
  · exact free.trans (congrArg tPoolObjectFlags.bIsFreeSlot flags)
  · exact generation.trans (congrArg tPoolObjectFlags.uID flags)

theorem Kept.resolves :
    ∃ handle, s.pool.GetIndex e = some handle ∧ handle.getLsbD 7 = false ∧ s.pool.AtHandle handle = some e := by
  obtain ⟨i,handle,place,got,slot,byte,clear,-⟩ := kept.handle small mem
  have inside := kept.sized.inside place
  refine ⟨handle,got,clear,?_⟩
  simp only [AtHandle,slot,byte,Int.toNat_natCast]
  rw [if_pos ⟨by omega,by omega,trivial⟩]
  exact elementAtIff.mpr place

end

theorem Kept.indexStep (op : Op) {e : Element} {i : Nat}
    (place : s.pool.GetIndexFromElement e = some i) : (s.step op).pool.GetIndexFromElement e = some i := by
  cases op with
  | delete pObject =>
    change (s.pool.Delete pObject).GetIndexFromElement e = some i
    unfold CPool.Delete
    split
    · exact place
    · exact place
  | new allocations =>
    have pool : (s.step (.new allocations)).pool = (s.pool.New allocations).2 := by
      change (s.give (s.pool.New allocations)).pool = _
      rcases s.pool.New allocations with ⟨_ | e,pool⟩ <;> rfl
    obtain ⟨q,extends',-,⟨index,-,-,outcome⟩ | outcome⟩ := newExact kept.sized allocations
    · rw [pool,outcome]
      exact extends'.index e i place
    · rw [pool,outcome]
      exact extends'.index e i place

end

theorem givenStep (s : Used) (op : Op) (e : Element) :
    s.given e ≤ (s.step op).given e ∧ (e ∈ (s.step op).live → e ∈ s.live ∧ op ≠ .delete e ∨ s.given e < (s.step op).given e) := by
  cases op with
  | delete pObject =>
    refine ⟨Nat.le_refl _,fun mem => .inl ?_⟩
    obtain ⟨before,apart⟩ := List.mem_filter.mp mem
    exact ⟨before,fun same => by cases same; simp at apart⟩
  | new allocations =>
    change s.given e ≤ (s.give (s.pool.New allocations)).given e ∧
      (e ∈ (s.give (s.pool.New allocations)).live → _ ∨ s.given e < (s.give (s.pool.New allocations)).given e)
    rcases s.pool.New allocations with ⟨_ | made,pool⟩
    · exact ⟨Nat.le_refl _,fun mem => .inl ⟨mem,by simp⟩⟩
    · by_cases same : e = made
      · simp [give,same]
      · refine ⟨by simp [give,same],fun mem => .inl ⟨?_,by simp⟩⟩
        exact (List.mem_cons.mp mem).resolve_left same

theorem givenGrows (s : Used) (ops : List Op) (e : Element) : s.given e ≤ (run Used.step s ops).given e := by
  induction ops generalizing s with
  | nil => exact Nat.le_refl _
  | cons op rest ih => exact Nat.le_trans (givenStep s op e).1 (ih _)

theorem givenAgain {s : Used} {ops : List Op} {e : Element} (mem : e ∈ (run Used.step s ops).live)
    (gone : e ∉ s.live ∨ .delete e ∈ ops) : s.given e < (run Used.step s ops).given e := by
  induction ops generalizing s with
  | nil => exact absurd mem (gone.resolve_right List.not_mem_nil)
  | cons op rest ih =>
    obtain ⟨grows,again⟩ := givenStep s op e
    by_cases later : e ∉ (s.step op).live ∨ .delete e ∈ rest
    · exact Nat.lt_of_le_of_lt grows (ih mem later)
    · simp only [not_or,not_not] at later
      obtain ⟨live,kept⟩ := later
      have first : e ∉ s.live ∨ op = .delete e :=
        gone.imp_right (fun inside => ((List.mem_cons.mp inside).resolve_right kept).symm)
      rcases again live with ⟨before,other⟩ | more
      · exact absurd first (not_or.mpr ⟨not_not.mpr before,other⟩)
      · exact Nat.lt_of_lt_of_le more (givenGrows _ rest e)

/-- A handle finds its object while that lives, and nothing else until the object was given out 128 times. -/
structure Sound (s : Used) : Prop where
  resolves : ∀ e ∈ s.live, ∃ handle, s.pool.GetIndex e = some handle ∧ handle.getLsbD 7 = false ∧ s.pool.AtHandle handle = some e
  allocated : ∀ (handle : BitVec 32) (e : Element), s.pool.AtHandle handle = some e → (e ∈ s.live ↔ handle.getLsbD 7 = false)
  fresh : ∀ allocations e, (s.pool.New allocations).1 = some e → e ∉ s.live
  stale : ∀ e ∈ s.live, ∀ handle, s.pool.GetIndex e = some handle → ∀ later, .delete e ∈ later →
    (run Used.step s later).given e < s.given e + 128 → (run Used.step s later).pool.AtHandle handle = none

section
variable {s : Used} (kept : Kept s) (small : s.pool.m_Size ≤ 2 ^ 23)
include kept small

theorem Kept.stale {e : Element} (mem : e ∈ s.live)
    {handle : BitVec 32} (got : s.pool.GetIndex e = some handle) {later : List Op} (deleted : .delete e ∈ later)
    (few : (run Used.step s later).given e < s.given e + 128) : (run Used.step s later).pool.AtHandle handle = none := by
  obtain ⟨i,handle',place,got',slot,-,clear,generation⟩ := kept.handle small mem
  obtain rfl := Option.some.inj (got'.symm.trans got)
  have always : Kept (run Used.step s later) ∧ (run Used.step s later).pool.GetIndexFromElement e = some i :=
    runKeeps (fun s => Kept s ∧ s.pool.GetIndexFromElement e = some i)
      (fun s op both _ => ⟨both.1.step op,both.1.indexStep op both.2⟩) ⟨kept,place⟩ alongAlways
  cases found : (run Used.step s later).pool.AtHandle handle' with
  | none => rfl
  | some e' =>
    obtain ⟨alive,generation'⟩ := always.1.found found
    have here := found
    simp only [AtHandle,slot,Option.ite_none_right_eq_some,Int.toNat_natCast] at here
    obtain rfl := indexUnique always.2 (elementAtIff.mp here.2)
    have more := givenAgain (alive.mpr clear) (.inr deleted)
    have same := congrArg BitVec.toNat (generation.symm.trans generation')
    simp only [BitVec.toNat_ofNat] at same
    omega

theorem Kept.sound : Sound s where
  resolves _ mem := kept.resolves small mem
  allocated _ _ found := (kept.found found).1
  fresh allocations _ made := (kept.newFresh allocations (Prod.ext made rfl)).1
  stale _ mem _ got _ deleted few := kept.stale small mem got deleted few

end

theorem sizeSame (s : Used) {op : Op} (none' : ∀ allocations, op = .new allocations → allocations = []) :
    (s.step op).pool.m_Size = s.pool.m_Size := by
  cases op with
  | delete pObject =>
    change (s.pool.Delete pObject).m_Size = _
    unfold CPool.Delete
    split <;> rfl
  | new allocations =>
    cases none' allocations rfl
    have pool : (s.give (s.pool.New [])).pool = (s.pool.New []).2 := by
      rcases s.pool.New [] with ⟨_ | e,pool⟩ <;> rfl
    change (s.give (s.pool.New [])).pool.m_Size = _
    rw [pool,New]
    split <;> rfl

theorem poolHandles {size : Nat} {ops : List Op} (small : Throughout Used.step (fun s => s.pool.m_Size ≤ 2 ^ 23) (init size) ops) :
    Throughout Used.step Sound (init size) ops := by
  have kept : Throughout Used.step Kept (init size) ops :=
    throughoutOfKept Kept (fun s op kept _ => kept.step op) (keptInit size) alongAlways
  exact throughoutMono (fun s both => both.1.sound both.2) (throughoutAnd kept small)

theorem poolHandlesTwo : Throughout Used.step Sound (init 2) [.new [],.delete (0,0),.new []] := by
  apply poolHandles
  simp (disch := simp) only [Throughout,sizeSame]
  decide

theorem freeSlotFound : (init 2).pool.AtHandle 0x80 = some (0,0) ∧ (init 2).live = [] := by decide

end Used
end Citizen.Pool
