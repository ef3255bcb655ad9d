import Citizen.Lib.Interval
import Citizen.Lib.Run
import Mathlib.Data.List.Nodup

/-! `MemoryScriptBufferPool`: the pool that results of script calls are allocated from. -/
namespace Citizen.Scripting

structure Block where
  m_memory : Nat
  m_size : Nat
  deriving DecidableEq, Repr

def Block.stop (b : Block) : Nat := b.m_memory + b.m_size

structure MemoryScriptBufferPool where
  m_pool : Nat
  m_freeBlocks : List Block
  deriving DecidableEq, Repr

namespace MemoryScriptBufferPool

def create (m_pool size : Nat) : MemoryScriptBufferPool := ⟨m_pool,[⟨m_pool,size⟩]⟩

def neighbours (block size : Nat) : Nat → List Block → Option Nat → Option Nat → Option Nat × Option Nat
  | _,[],left,right => (left,right)
  | it,b :: rest,left,right =>
    if b.m_memory + b.m_size = block then neighbours block size (it + 1) rest (some it) right
    else if b.m_memory = block + size then neighbours block size (it + 1) rest left (some it)
    else neighbours block size (it + 1) rest left right

def FreeResultBuffer (s : MemoryScriptBufferPool) (block size : Nat) : MemoryScriptBufferPool :=
  let free := s.m_freeBlocks
  let at' (it : Nat) : Block := free.getD it ⟨0,0⟩
  match neighbours block size 0 free none none with
  | (some left,some right) =>
    -- the start gains the size of the block and the size of the end
    let joined := { at' left with m_size := (at' left).m_size + (size + (at' right).m_size) }
    { s with m_freeBlocks := (free.set left joined).eraseIdx right }
  | (some left,none) => { s with m_freeBlocks := free.set left { at' left with m_size := (at' left).m_size + size } }
  | (none,some right) => { s with m_freeBlocks := free.set right ⟨block,(at' right).m_size + size⟩ }
  | (none,none) => { s with m_freeBlocks := free ++ [⟨block,size⟩] }

def GetResultBuffer (s : MemoryScriptBufferPool) (size : Nat) : MemoryScriptBufferPool × Option Nat :=
  if size = 0 then (s,none)
  else
    match s.m_freeBlocks.findIdx? (fun b => size ≤ b.m_size) with
    | none => (s,none)
    | some i =>
      let block := s.m_freeBlocks.getD i ⟨0,0⟩
      let others := s.m_freeBlocks.eraseIdx i
      let rest := if size < block.m_size then [⟨block.m_memory + size,block.m_size - size⟩] else []
      ({ s with m_freeBlocks := others ++ rest },some block.m_memory)

end MemoryScriptBufferPool

inductive PoolCall where
  | GetResultBuffer (n : Nat)
  | FreeResultBuffer (b : Block)
  deriving DecidableEq, Repr

structure PoolUse where
  pool : MemoryScriptBufferPool
  live : List Block
  deriving DecidableEq, Repr

namespace PoolUse
open MemoryScriptBufferPool Citizen.Interval

def start (m_pool size : Nat) : PoolUse := ⟨create m_pool size,[]⟩

def step (s : PoolUse) : PoolCall → PoolUse
  | .GetResultBuffer n =>
    match s.pool.GetResultBuffer n with
    | (pool,none) => { s with pool := pool }
    | (pool,some block) => ⟨pool,⟨block,n⟩ :: s.live⟩
  | .FreeResultBuffer b => ⟨s.pool.FreeResultBuffer b.m_memory b.m_size,s.live.erase b⟩

def Allowed (s : PoolUse) : PoolCall → Prop
  | .GetResultBuffer n => 0 < n
  | .FreeResultBuffer b => b ∈ s.live

instance (s : PoolUse) (call : PoolCall) : Decidable (s.Allowed call) := by
  cases call <;> unfold Allowed <;> infer_instance

structure Sound (m_pool size : Nat) (s : PoolUse) : Prop where
  partition : Partition Block.m_memory Block.stop (s.pool.m_freeBlocks ++ s.live) m_pool (m_pool + size)
  apart : s.pool.m_freeBlocks.Pairwise (Apart Block.m_memory Block.stop)
  fails : ∀ n > 0, (s.pool.GetResultBuffer n).2 = none →
    ¬∃ a, ∀ p, a ≤ p → p < a + n → ∃ b ∈ s.pool.m_freeBlocks, b.m_memory ≤ p ∧ p < b.stop
  whole : s.live = [] → s.pool.m_freeBlocks = [⟨m_pool,size⟩]

structure Kept (low high : Nat) (free live : List Block) : Prop where
  partition : Partition Block.m_memory Block.stop (free ++ live) low high
  apart : free.Pairwise (Apart Block.m_memory Block.stop)
  nonempty : ∀ b ∈ free ++ live, 0 < b.m_size

variable {m_pool size : Nat}

theorem found {free : List Block} {block size it : Nat} {left right : Option Nat} {found : Option Nat × Option Nat}
    (scan : neighbours block size it free left right = found) :
    ((∀ i, found.1 = some i → left = some i ∨ ∃ b, free[i - it]? = some b ∧ it ≤ i ∧ b.stop = block) ∧
      ∀ j, found.2 = some j → right = some j ∨
        ∃ b, free[j - it]? = some b ∧ it ≤ j ∧ b.m_memory = block + size ∧ b.stop ≠ block) ∧
    (found.1 = none → left = none ∧ ∀ b ∈ free, b.stop ≠ block) ∧
      (found.2 = none → right = none ∧ ∀ b ∈ free, b.stop ≠ block → b.m_memory ≠ block + size) := by
  induction free generalizing it left right with
  | nil =>
    cases scan
    exact ⟨⟨fun _ => .inl,fun _ => .inl⟩,fun none => ⟨none,fun _ mem => absurd mem List.not_mem_nil⟩,
      fun none => ⟨none,fun _ mem => absurd mem List.not_mem_nil⟩⟩
  | cons b rest ih =>
    have later {i : Nat} {Q : Block → Prop} (some : ∃ c, rest[i - (it + 1)]? = some c ∧ it + 1 ≤ i ∧ Q c) :
        ∃ c, (b :: rest)[i - it]? = .some c ∧ it ≤ i ∧ Q c := by
      obtain ⟨c,here,above,holds⟩ := some
      have shift : i - it = i - (it + 1) + 1 := by omega
      exact ⟨c,by rw [shift]; exact here,by omega,holds⟩
    have now : (b :: rest)[it - it]? = some b := by rw [Nat.sub_self]; rfl
    unfold neighbours at scan
    split at scan
    · rename_i ends
      obtain ⟨⟨lefts,rights⟩,noLeft,noRight⟩ := ih scan
      refine ⟨⟨fun i is => ?_,fun j is => (rights j is).imp id later⟩,fun none => ?_,fun none => ?_⟩
      · rcases lefts i is with same | other
        · cases same
          exact .inr ⟨b,now,Nat.le_refl _,ends⟩
        · exact .inr (later other)
      · exact absurd (noLeft none).1 (by simp)
      · refine ⟨(noRight none).1,fun c mem => ?_⟩
        rcases List.mem_cons.mp mem with rfl | mem
        · exact fun other => absurd ends other
        · exact (noRight none).2 c mem
    · rename_i ends
      split at scan
      · rename_i starts
        obtain ⟨⟨lefts,rights⟩,noLeft,noRight⟩ := ih scan
        refine ⟨⟨fun i is => (lefts i is).imp id later,fun j is => ?_⟩,fun none => ?_,fun none => ?_⟩
        · rcases rights j is with same | other
          · cases same
            exact .inr ⟨b,now,Nat.le_refl _,starts,ends⟩
          · exact .inr (later other)
        · exact ⟨(noLeft none).1,List.forall_mem_cons.mpr ⟨ends,(noLeft none).2⟩⟩
        · exact absurd (noRight none).1 (by simp)
      · rename_i starts
        obtain ⟨⟨lefts,rights⟩,noLeft,noRight⟩ := ih scan
        exact ⟨⟨fun i is => (lefts i is).imp id later,fun j is => (rights j is).imp id later⟩,
          fun none => ⟨(noLeft none).1,List.forall_mem_cons.mpr ⟨ends,(noLeft none).2⟩⟩,
          fun none => ⟨(noRight none).1,List.forall_mem_cons.mpr ⟨fun _ => starts,(noRight none).2⟩⟩⟩

inductive Freed (free : List Block) (b : Block) : List Block → Prop where
  | both {l r : Block} {rest after} (before : free.Perm (l :: r :: rest))
      (joined : after.Perm (⟨l.m_memory,l.m_size + (b.m_size + r.m_size)⟩ :: rest))
      (left : l.stop = b.m_memory) (right : r.m_memory = b.stop) : Freed free b after
  | left {l : Block} {rest after} (before : free.Perm (l :: rest))
      (joined : after.Perm (⟨l.m_memory,l.m_size + b.m_size⟩ :: rest)) (left : l.stop = b.m_memory)
      (noRight : ∀ c ∈ free, c.stop ≠ b.m_memory → c.m_memory ≠ b.stop) : Freed free b after
  | right {r : Block} {rest after} (before : free.Perm (r :: rest))
      (joined : after.Perm (⟨b.m_memory,r.m_size + b.m_size⟩ :: rest)) (right : r.m_memory = b.stop)
      (noLeft : ∀ c ∈ free, c.stop ≠ b.m_memory) : Freed free b after
  | alone {after} (joined : after.Perm (b :: free)) (noLeft : ∀ c ∈ free, c.stop ≠ b.m_memory)
      (noRight : ∀ c ∈ free, c.m_memory ≠ b.stop) : Freed free b after

theorem setPerm {free : List Block} {i : Nat} {l : Block} (here : free[i]? = some l) (x : Block) :
    free.Perm (l :: free.eraseIdx i) ∧ (free.set i x).Perm (x :: free.eraseIdx i) := by
  obtain ⟨inside,same⟩ := List.getElem?_eq_some_iff.mp here
  rw [← same]
  exact ⟨(List.getElem_cons_eraseIdx_perm inside).symm,List.set_perm_cons_eraseIdx inside x⟩

theorem freed (s : MemoryScriptBufferPool) (b : Block) (positive : 0 < b.m_size) :
    Freed s.m_freeBlocks b (s.FreeResultBuffer b.m_memory b.m_size).m_freeBlocks := by
  unfold FreeResultBuffer
  dsimp only
  cases scan : neighbours b.m_memory b.m_size 0 s.m_freeBlocks none none with
  | mk left right =>
  obtain ⟨⟨lefts,rights⟩,noLeft,noRight⟩ := found scan
  simp only [reduceCtorEq,false_or,Nat.sub_zero,Nat.zero_le,true_and] at lefts rights noLeft noRight
  cases left with
  | none =>
    have none := noLeft rfl
    cases right with
    | none => exact .alone (List.perm_append_singleton _ _) none (fun c mem => noRight rfl c mem (none c mem))
    | some j =>
      obtain ⟨r,here,starts,_⟩ := rights j rfl
      simp only [List.getD_eq_getElem?_getD,here,Option.getD_some]
      exact .right (setPerm here r).1 (setPerm here _).2 starts none
  | some i =>
    obtain ⟨l,here,ends⟩ := lefts i rfl
    cases right with
    | none =>
      simp only [List.getD_eq_getElem?_getD,here,Option.getD_some]
      exact .left (setPerm here l).1 (setPerm here _).2 ends (noRight rfl)
    | some j =>
      obtain ⟨r,there,starts,apart⟩ := rights j rfl
      simp only [List.getD_eq_getElem?_getD,here,there,Option.getD_some]
      let joined : Block := ⟨l.m_memory,l.m_size + (b.m_size + r.m_size)⟩
      have other : i ≠ j := by
        rintro rfl
        cases here.symm.trans there
        exact apart ends
      have kept : (s.m_freeBlocks.set i joined)[j]? = some r := by rw [List.getElem?_set_ne other,there]
      have moved := ((setPerm kept r).1.symm.trans (setPerm here joined).2)
      have different : r ≠ joined := by
        intro same
        have size := congrArg Block.m_size same
        dsimp only [joined] at size
        omega
      have mem : r ∈ s.m_freeBlocks.eraseIdx i :=
        (List.mem_cons.mp (moved.subset List.mem_cons_self)).resolve_left different
      have rest := List.perm_cons_erase mem
      exact .both ((setPerm here l).1.trans (rest.cons l))
        ((List.perm_cons r).mp (moved.trans ((rest.cons joined).trans (List.Perm.swap r joined _)))) ends starts

theorem joinBlocks {l r : Block} {rest : List Block} {low high n : Nat}
    (whole : Partition Block.m_memory Block.stop (l :: r :: rest) low high) (adjacent : l.stop = r.m_memory)
    (size : n = l.m_size + r.m_size) : Partition Block.m_memory Block.stop (⟨l.m_memory,n⟩ :: rest) low high := by
  have ends : r.stop = Block.stop ⟨l.m_memory,n⟩ := by
    simp only [Block.stop] at adjacent ⊢
    omega
  exact (partitionCut (a := ⟨l.m_memory,n⟩) (b := l) (c := r) rfl adjacent ends
    ⟨Nat.le_add_right _ _,Nat.le_add_right _ _⟩).mp whole

variable {free after : List Block}

theorem freedBlocks {b : Block} (freed : Freed free b after) {live : List Block}
    {low high : Nat} (whole : Partition Block.m_memory Block.stop (free ++ b :: live) low high) :
    Partition Block.m_memory Block.stop (after ++ live) low high := by
  have first : Partition Block.m_memory Block.stop (b :: (free ++ live)) low high := whole.perm List.perm_middle
  cases freed with
  | @both l r rest _ before joined left right =>
    have placed := first.perm ((before.append_right live).cons b)
    have tail := joinBlocks (placed.perm ((List.Perm.swap r l _).cons b)) right.symm rfl
    exact (joinBlocks (tail.perm (List.Perm.swap l _ _)) left rfl).perm (joined.append_right live).symm
  | @left l rest _ before joined left noRight =>
    have placed := first.perm ((before.append_right live).cons b)
    exact (joinBlocks (placed.perm (List.Perm.swap l b _)) left rfl).perm (joined.append_right live).symm
  | @right r rest _ before joined right noLeft =>
    have placed := first.perm ((before.append_right live).cons b)
    exact (joinBlocks placed right.symm (Nat.add_comm _ _)).perm (joined.append_right live).symm
  | alone joined noLeft noRight => exact first.perm (joined.append_right live).symm

theorem freedApart {b : Block} (freed : Freed free b after) (positive : 0 < b.m_size)
    (apart : free.Pairwise (Apart Block.m_memory Block.stop)) : after.Pairwise (Apart Block.m_memory Block.stop) := by
  have : Std.Symm (Apart Block.m_memory Block.stop) := apartSymm
  cases freed with
  | @both l r rest _ before joined left right =>
    have earlier := before.pairwise_iff (fun h => symm h) |>.mp apart
    obtain ⟨lefts,later⟩ := List.pairwise_cons.mp earlier
    obtain ⟨rights,others⟩ := List.pairwise_cons.mp later
    refine (joined.pairwise_iff (fun h => symm h)).mpr (List.pairwise_cons.mpr ⟨fun c mem => ⟨?_,?_⟩,others⟩)
    · have ends : l.m_memory + (l.m_size + (b.m_size + r.m_size)) = r.stop := by
        simp only [Block.stop] at left right ⊢
        omega
      exact fun same => (rights c mem).1 (ends.symm.trans same)
    · exact (lefts c (List.mem_cons_of_mem _ mem)).2
  | @left l rest _ before joined left noRight =>
    have earlier := before.pairwise_iff (fun h => symm h) |>.mp apart
    obtain ⟨lefts,others⟩ := List.pairwise_cons.mp earlier
    refine (joined.pairwise_iff (fun h => symm h)).mpr (List.pairwise_cons.mpr ⟨fun c mem => ⟨?_,?_⟩,others⟩)
    · have ends : l.m_memory + (l.m_size + b.m_size) = b.stop := by
        simp only [Block.stop] at left ⊢
        omega
      intro same
      have starts : c.m_memory = b.stop := same.symm.trans ends
      have longer : c.stop ≠ b.m_memory := by
        simp only [Block.stop] at starts ⊢
        omega
      exact noRight c (before.symm.subset (List.mem_cons_of_mem _ mem)) longer starts
    · exact (lefts c mem).2
  | @right r rest _ before joined right noLeft =>
    have earlier := before.pairwise_iff (fun h => symm h) |>.mp apart
    obtain ⟨rights,others⟩ := List.pairwise_cons.mp earlier
    refine (joined.pairwise_iff (fun h => symm h)).mpr (List.pairwise_cons.mpr ⟨fun c mem => ⟨?_,?_⟩,others⟩)
    · have ends : b.m_memory + (r.m_size + b.m_size) = r.stop := by
        simp only [Block.stop] at right ⊢
        omega
      exact fun same => (rights c mem).1 (ends.symm.trans same)
    · exact noLeft c (before.symm.subset (List.mem_cons_of_mem _ mem))
  | alone joined noLeft noRight =>
    exact (joined.pairwise_iff (fun h => symm h)).mpr (List.pairwise_cons.mpr
      ⟨fun c mem => ⟨fun same => noRight c mem same.symm,noLeft c mem⟩,apart⟩)

inductive Taken (free : List Block) (n : Nat) : List Block → Option Nat → Prop where
  | failed (small : ∀ b ∈ free, b.m_size < n) : Taken free n free none
  | whole {b : Block} {rest after} (before : free.Perm (b :: rest)) (left : after.Perm rest)
      (size : b.m_size = n) : Taken free n after (some b.m_memory)
  | part {b : Block} {rest after} (before : free.Perm (b :: rest))
      (left : after.Perm (⟨b.m_memory + n,b.m_size - n⟩ :: rest)) (size : n < b.m_size) :
      Taken free n after (some b.m_memory)

theorem taken (s : MemoryScriptBufferPool) {n : Nat} (positive : 0 < n) :
    Taken s.m_freeBlocks n (s.GetResultBuffer n).1.m_freeBlocks (s.GetResultBuffer n).2 := by
  unfold GetResultBuffer
  rw [if_neg (Nat.ne_of_gt positive)]
  cases search : s.m_freeBlocks.findIdx? (fun b => n ≤ b.m_size) with
  | none =>
    have small := List.findIdx?_eq_none_iff.mp search
    exact .failed (fun b mem => by simpa using small b mem)
  | some i =>
    obtain ⟨inside,large,_⟩ := List.findIdx?_eq_some_iff_getElem.mp search
    have enough : n ≤ s.m_freeBlocks[i].m_size := of_decide_eq_true large
    have here : s.m_freeBlocks[i]? = some s.m_freeBlocks[i] := List.getElem?_eq_getElem inside
    simp only [List.getD_eq_getElem?_getD,here,Option.getD_some]
    split
    · rename_i less
      exact .part (setPerm here s.m_freeBlocks[i]).1 (List.perm_append_singleton _ _) less
    · rename_i full
      refine .whole (setPerm here s.m_freeBlocks[i]).1 ?_ (by omega)
      rw [List.append_nil]

theorem takenBlocks {free after live : List Block} {n block low high : Nat} (taken : Taken free n after (some block))
    (whole : Partition Block.m_memory Block.stop (free ++ live) low high) :
    Partition Block.m_memory Block.stop (after ++ ⟨block,n⟩ :: live) low high := by
  cases taken with
  | @whole b rest _ before left size =>
    have same : b = ⟨b.m_memory,n⟩ := by rw [← size]
    have placed := whole.perm (before.append_right live)
    rw [same] at placed
    exact (placed.perm ((left.append_right live).symm.cons _)).perm List.perm_middle.symm
  | @part b rest _ before left size =>
    have placed := whole.perm (before.append_right live)
    have cut := (partitionCut (a := b) (b := ⟨b.m_memory,n⟩) (c := ⟨b.m_memory + n,b.m_size - n⟩) rfl rfl
      (by simp only [Block.stop]; omega) ⟨Nat.le_add_right _ _,Nat.le_add_right _ _⟩).mpr placed
    exact (cut.perm ((left.append_right live).symm.cons _)).perm List.perm_middle.symm

theorem takenApart {n : Nat} {result : Option Nat} (taken : Taken free n after result)
    (apart : free.Pairwise (Apart Block.m_memory Block.stop)) (positive : 0 < n)
    (disjoint : Disjoint Block.m_memory Block.stop free) (nonempty : ∀ b ∈ free, 0 < b.m_size) :
    after.Pairwise (Apart Block.m_memory Block.stop) := by
  have : Std.Symm (Apart Block.m_memory Block.stop) := apartSymm
  cases taken with
  | failed small => exact apart
  | whole before left size =>
    have earlier := before.pairwise_iff (fun h => symm h) |>.mp apart
    exact (left.pairwise_iff (fun h => symm h)).mpr (List.pairwise_cons.mp earlier).2
  | @part b rest _ before left size =>
    have earlier := before.pairwise_iff (fun h => symm h) |>.mp apart
    obtain ⟨first,others⟩ := List.pairwise_cons.mp earlier
    refine (left.pairwise_iff (fun h => symm h)).mpr (List.pairwise_cons.mpr ⟨fun c mem => ⟨?_,?_⟩,others⟩)
    · have ends : Block.stop ⟨b.m_memory + n,b.m_size - n⟩ = b.stop := by
        simp only [Block.stop]
        omega
      exact fun same => (first c mem).1 (ends.symm.trans same)
    · -- a block that ends inside `b` would share a byte with it
      intro same
      have memB := before.symm.subset List.mem_cons_self
      have memC := before.symm.subset (List.mem_cons_of_mem _ mem)
      have some := nonempty c memC
      dsimp only [Block.stop] at same
      have shared : c = b := disjoint.unique (p := b.m_memory + n - 1) memC memB
        (by simp only [Block.stop]; omega) (by simp only [Block.stop]; omega)
      rw [shared] at same
      omega

theorem Kept.taken {low high n : Nat} {free live after : List Block} {block : Nat} (kept : Kept low high free live)
    (positive : 0 < n) (taken : Taken free n after (some block)) : Kept low high after (⟨block,n⟩ :: live) := by
  have nonempty (b : Block) (mem : b ∈ free) := kept.nonempty b (List.mem_append_left _ mem)
  have others (b : Block) (mem : b ∈ live) := kept.nonempty b (List.mem_append_right _ mem)
  refine ⟨takenBlocks taken kept.partition,takenApart taken kept.apart positive kept.partition.disjoint nonempty,
    List.forall_mem_append.mpr ⟨fun c mem => ?_,List.forall_mem_cons.mpr ⟨positive,others⟩⟩⟩
  cases taken with
  | whole before left _ => exact nonempty c (before.symm.subset (List.mem_cons_of_mem _ (left.subset mem)))
  | part before left size =>
    rcases List.mem_cons.mp (left.subset mem) with rfl | rest
    · exact Nat.sub_pos_of_lt size
    · exact nonempty c (before.symm.subset (List.mem_cons_of_mem _ rest))

theorem Kept.freed {low high : Nat} {free live after : List Block} {b : Block} (kept : Kept low high free live)
    (mem : b ∈ live) (freed : Freed free b after) : Kept low high after (live.erase b) := by
  have nonempty (c : Block) (mem : c ∈ free) := kept.nonempty c (List.mem_append_left _ mem)
  have others (c : Block) (mem : c ∈ live) := kept.nonempty c (List.mem_append_right _ mem)
  have positive := others b mem
  have owned := (List.perm_cons_erase mem).append_left free
  refine ⟨freedBlocks freed (kept.partition.perm owned),freedApart freed positive kept.apart,
    List.forall_mem_append.mpr ⟨fun c memC => ?_,fun c memC => others c (List.mem_of_mem_erase memC)⟩⟩
  have older {c : Block} {l : List Block} (before : free.Perm l) (memC : c ∈ l) := nonempty c (before.symm.subset memC)
  cases freed with
  | both before joined _ _ =>
    rcases List.mem_cons.mp (joined.subset memC) with rfl | rest
    · exact Nat.add_pos_right _ (Nat.add_pos_left positive _)
    · exact older before (List.mem_cons_of_mem _ (List.mem_cons_of_mem _ rest))
  | left before joined _ _ =>
    rcases List.mem_cons.mp (joined.subset memC) with rfl | rest
    · exact Nat.add_pos_right _ positive
    · exact older before (List.mem_cons_of_mem _ rest)
  | right before joined _ _ =>
    rcases List.mem_cons.mp (joined.subset memC) with rfl | rest
    · exact Nat.add_pos_right _ positive
    · exact older before (List.mem_cons_of_mem _ rest)
  | alone joined _ _ =>
    rcases List.mem_cons.mp (joined.subset memC) with rfl | rest
    · exact positive
    · exact nonempty c rest

theorem Kept.step {low high : Nat} {s : PoolUse} (kept : Kept low high s.pool.m_freeBlocks s.live) {call : PoolCall}
    (allowed : s.Allowed call) : Kept low high (s.step call).pool.m_freeBlocks (s.step call).live := by
  cases call with
  | GetResultBuffer n =>
    have positive : 0 < n := allowed
    have did := PoolUse.taken s.pool positive
    unfold PoolUse.step
    dsimp only
    split
    · rename_i pool failed
      rw [failed] at did
      dsimp only at did ⊢
      generalize pool.m_freeBlocks = after at did ⊢
      cases did
      exact kept
    · rename_i pool block given
      rw [given] at did
      exact kept.taken positive did
  | FreeResultBuffer b =>
    have mem : b ∈ s.live := allowed
    exact kept.freed mem (PoolUse.freed s.pool b (kept.nonempty b (List.mem_append_right _ mem)))

theorem Kept.sound {m_pool size : Nat} {s : PoolUse} (some : 0 < size)
    (kept : Kept m_pool (m_pool + size) s.pool.m_freeBlocks s.live) : s.Sound m_pool size := by
  refine ⟨kept.partition,kept.apart,fun n positive failed => ?_,fun none => ?_⟩
  · rintro ⟨a,covered⟩
    obtain ⟨m,rfl⟩ : ∃ m, n = m + 1 := ⟨n - 1,by omega⟩
    obtain ⟨b,mem,low,high⟩ := rangeInside kept.apart kept.partition.disjoint covered
    have did := PoolUse.taken s.pool positive
    rw [failed] at did
    generalize (s.pool.GetResultBuffer (m + 1)).1.m_freeBlocks = after at did
    cases did with
    | failed small =>
      have few := small b mem
      simp only [Block.stop] at high
      omega
  · have whole := kept.partition
    have nonempty := kept.nonempty
    rw [none,List.append_nil] at whole nonempty
    obtain ⟨b,only,first,stop⟩ := wholeRange kept.apart whole
      (fun b mem => Nat.lt_add_of_pos_right (nonempty b mem)) (Nat.lt_add_of_pos_right some)
    have same : b.m_size = size := by
      simp only [Block.stop] at stop
      omega
    rw [only,← first,← same]

theorem keptStart {m_pool size : Nat} (some : 0 < size) :
    Kept m_pool (m_pool + size) (start m_pool size).pool.m_freeBlocks (start m_pool size).live := by
  refine ⟨fun p => ?_,List.pairwise_singleton _ _,fun b mem => ?_⟩
  · have one := @countCons Block Block.m_memory Block.stop [] ⟨m_pool,size⟩ p
    rw [List.countP_nil,Nat.zero_add] at one
    exact one
  · cases List.mem_singleton.mp mem
    exact some

theorem emptyStays {m_pool : Nat} {call : PoolCall} (allowed : (start m_pool 0).Allowed call) :
    (start m_pool 0).step call = start m_pool 0 := by
  cases call with
  | GetResultBuffer n =>
    have positive : 0 < n := allowed
    have small : ¬n ≤ 0 := Nat.not_le.mpr positive
    simp [step,start,create,GetResultBuffer,small,Nat.ne_of_gt positive]
  | FreeResultBuffer b => exact absurd allowed List.not_mem_nil

theorem emptySound (m_pool : Nat) : (start m_pool 0).Sound m_pool 0 := by
  have outside (p : Nat) (here : m_pool ≤ p ∧ p < m_pool + 0) : False := by omega
  refine ⟨fun p => ?_,List.pairwise_singleton _ _,fun n positive _ => ?_,fun _ => rfl⟩
  · have none := @countCons Block Block.m_memory Block.stop [] ⟨m_pool,0⟩ p
    rw [List.countP_nil,Nat.zero_add] at none
    exact none
  · rintro ⟨a,covered⟩
    obtain ⟨b,mem,here⟩ := covered a (Nat.le_refl _) (by omega)
    cases List.mem_singleton.mp mem
    exact outside a here

theorem poolPartitioned (m_pool size : Nat) {calls : List PoolCall}
    (allowed : Along step Allowed (start m_pool size) calls) :
    Throughout step (Sound m_pool size) (start m_pool size) calls := by
  rcases Nat.eq_zero_or_pos size with rfl | some
  · have still := throughoutOfKept (fun s => s = start m_pool 0)
      (fun s call same ok => by rw [same] at ok ⊢; exact emptyStays ok) rfl allowed
    exact throughoutMono (fun s same => same ▸ emptySound m_pool) still
  · exact throughoutMono (fun s kept => kept.sound some)
      (throughoutOfKept (fun s => Kept m_pool (m_pool + size) s.pool.m_freeBlocks s.live)
        (fun s call kept ok => kept.step ok) (keptStart some) allowed)

def sampleCalls : List PoolCall :=
  [.GetResultBuffer 3,.GetResultBuffer 2,.GetResultBuffer 3,.FreeResultBuffer ⟨1024,3⟩,.FreeResultBuffer ⟨1029,3⟩,
    .FreeResultBuffer ⟨1027,2⟩]

theorem poolPartitionedSample : Throughout step (Sound 1024 8) (start 1024 8) sampleCalls :=
  poolPartitioned 1024 8 ⟨by decide,by decide,by decide,by decide,by decide,by decide,trivial⟩

end PoolUse
end Citizen.Scripting
