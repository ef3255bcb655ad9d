import Citizen.Lib.BitField
import Mathlib.Algebra.BigOperators.Group.Finset.Basic
import Mathlib.Order.Interval.Finset.Nat

/-! The loop of `FilesHttpHandler` that sends a file: reads and writes in turn, up to the announced size. -/
namespace Citizen.Http
open BitField (Byte)

def kFileSendSize : Nat := 128 * 1024

structure BufferFilter where
  Filter : List Byte → List Byte
  inPlace : ∀ buffer, (Filter buffer).length = buffer.length

inductive InFlight where
  | reading
  | writing
  deriving DecidableEq

structure Turn where
  result : Option (List Byte)
  fits : ∀ data, result = some data → data.length ≤ kFileSendSize
  filter : Option BufferFilter
  written : Bool
  /-- What is in flight when the cancel handler of the request is called. -/
  cancelled : Option InFlight

namespace Turn

def buffer (t : Turn) : List Byte :=
  t.result.elim [] (fun data => t.filter.elim data (fun filter => filter.Filter data))

def taken (t : Turn) : Nat := t.result.elim 0 List.length

def fails (t : Turn) : Prop := t.result = none ∨ t.written = false ∨ t.cancelled ≠ none

end Turn

structure FileServing where
  readCallback : Bool
  readOffset : BitVec 64
  reading : Bool
  body : List Byte
  ended : Bool

namespace FileServing

def start : FileServing := ⟨true,0,true,[],false⟩

def End (s : FileServing) : FileServing := { s with readCallback := false,ended := true }

def writeCallback (size : BitVec 64) (s : FileServing) (result : Bool) (length : Nat) : FileServing :=
  if s.readCallback = false then s
  else if result = false then s.End
  else
    let readOffset := s.readOffset + BitVec.ofNat 64 length
    if readOffset ≠ size then { s with readOffset := readOffset,reading := true }
    else { s with readOffset := readOffset }.End

def serve (size : BitVec 64) (s : FileServing) (t : Turn) : FileServing :=
  if s.reading = false then s
  else
    let s := if t.cancelled = some .reading then s.End else s
    match t.result with
    | none => { s with reading := false }.End
    | some data =>
      let s := { s with reading := false,body := s.body ++ t.buffer }
      let s := if t.cancelled = some .writing then s.End else s
      s.writeCallback size t.written data.length

def serving (size : BitVec 64) (turns : Nat → Turn) : Nat → FileServing
  | 0 => start
  | k + 1 => (serving size turns k).serve size (turns k)

end FileServing

def total (turns : Nat → Turn) (k : Nat) : Nat := ∑ i ∈ Finset.range k, (turns i).taken

def Served (size : BitVec 64) (turns : Nat → Turn) : Prop :=
  ∃ k, ((turns k).fails ∨ total turns (k + 1) = size.toNat) ∧ total turns (k + 1) ≤ size.toNat

namespace FileServing
variable {size : BitVec 64} {turns : Nat → Turn} {t : Turn} {s : FileServing} {k : Nat}

theorem takenBuffer (t : Turn) : t.buffer.length = t.taken := by
  unfold Turn.buffer Turn.taken
  cases t.result with
  | none => rfl
  | some data =>
    cases t.filter with
    | none => rfl
    | some filter => exact filter.inPlace data

theorem totalNext (turns : Nat → Turn) (k : Nat) : total turns (k + 1) = total turns k + (turns k).taken :=
  Finset.sum_range_succ _ k

theorem totalMono (turns : Nat → Turn) : Monotone (total turns) :=
  monotone_nat_of_le_succ (fun k => by rw [totalNext]; exact Nat.le_add_right _ _)

theorem serveIdle (idle : s.reading = false) : s.serve size t = s := if_pos idle

theorem serveBody (s : FileServing) (going : s.reading = true) : (s.serve size t).body = s.body ++ t.buffer := by
  unfold serve writeCallback End Turn.buffer
  simp only [going]
  cases t.result with
  | none => simp; split <;> rfl
  | some data => simp; grind

theorem writeCallbackStops {result : Bool} {length : Nat} (idle : s.reading = false)
    (last : s.readCallback = false ∨ result = false ∨ s.readOffset + BitVec.ofNat 64 length = size) :
    (s.writeCallback size result length).reading = false := by
  unfold writeCallback
  split
  · exact idle
  · rename_i there
    split
    · exact idle
    · rename_i written
      rw [if_neg (not_not.mpr ((last.resolve_left there).resolve_left written))]
      exact idle

theorem serveStops (going : s.reading = true) (last : t.fails ∨ s.readOffset + BitVec.ofNat 64 t.taken = size) :
    (s.serve size t).reading = false := by
  unfold Turn.fails Turn.taken at last
  unfold serve
  rw [if_neg (by simp [going])]
  cases result : t.result with
  | none => rfl
  | some data =>
    simp only [result,Option.elim_some,reduceCtorEq,false_or] at last
    cases cancelled : t.cancelled with
    | some flight => cases flight <;> exact writeCallbackStops rfl (.inl rfl)
    | none =>
      simp only [cancelled,ne_eq,not_true_eq_false,or_false] at last
      exact writeCallbackStops rfl (.inr last)

theorem serveGoesOn (going : s.reading = true) (there : s.readCallback = true) (fine : ¬t.fails)
    (short : s.readOffset + BitVec.ofNat 64 t.taken ≠ size) :
    (s.serve size t).reading = true ∧ (s.serve size t).readCallback = true ∧
      (s.serve size t).readOffset = s.readOffset + BitVec.ofNat 64 t.taken := by
  simp only [Turn.fails,not_or,not_not] at fine
  obtain ⟨some_,written,free⟩ := fine
  obtain ⟨data,result⟩ := Option.ne_none_iff_exists'.mp some_
  unfold Turn.taken at short ⊢
  simp only [result,Option.elim_some] at short ⊢
  simp [serve,writeCallback,going,there,result,free,written,short]

theorem servingReading (going : (serving size turns k).reading = true) : (serving size turns k).readCallback = true ∧
      (serving size turns k).readOffset = BitVec.ofNat 64 (total turns k) ∧
      (serving size turns k).body.length = total turns k ∧
      ∀ j < k, (serving size turns j).reading = true ∧ ¬(turns j).fails ∧ BitVec.ofNat 64 (total turns (j + 1)) ≠ size := by
  induction k with
  | zero => exact ⟨rfl,rfl,rfl,fun j below => absurd below (Nat.not_lt_zero j)⟩
  | succ k ih =>
    have before : (serving size turns k).reading = true := by
      by_contra idle
      rw [Bool.not_eq_true] at idle
      rw [serving,serveIdle idle,idle] at going
      cases going
    obtain ⟨there,offset,length,earlier⟩ := ih before
    have next : (serving size turns k).readOffset + BitVec.ofNat 64 (turns k).taken = BitVec.ofNat 64 (total turns (k + 1)) := by
      rw [offset,totalNext,BitVec.ofNat_add]
    have goesOn : ¬(turns k).fails ∧ BitVec.ofNat 64 (total turns (k + 1)) ≠ size := by
      rw [← next,← not_or]
      intro last
      rw [serving,serveStops before last] at going
      cases going
    obtain ⟨_,there',offset'⟩ := serveGoesOn before there goesOn.1 (next.trans_ne goesOn.2)
    refine ⟨there',offset'.trans next,?_,fun j below => ?_⟩
    · rw [serving,serveBody _ before,List.length_append,length,takenBuffer,totalNext]
    · rcases Nat.lt_succ_iff_lt_or_eq.mp below with below | rfl
      · exact earlier j below
      · exact ⟨before,goesOn⟩

theorem servingIdle (idle : (serving size turns k).reading = false) {j : Nat} (later : k ≤ j) :
    serving size turns j = serving size turns k := by
  induction later with
  | refl => rfl
  | step _ ih => rw [serving,serveIdle (ih ▸ idle),ih]

theorem servingBody (size : BitVec 64) (turns : Nat → Turn) (k : Nat) :
    (serving size turns k).body.length ≤ total turns k := by
  induction k with
  | zero => exact Nat.le_refl 0
  | succ k ih =>
    cases going : (serving size turns k).reading with
    | false =>
      rw [serving,serveIdle going]
      exact ih.trans (totalMono turns (Nat.le_succ k))
    | true =>
      rw [serving,serveBody _ going,List.length_append,takenBuffer,totalNext]
      exact Nat.add_le_add_right ih _

theorem idleAfter (last : (turns k).fails ∨ BitVec.ofNat 64 (total turns (k + 1)) = size) :
    (serving size turns (k + 1)).reading = false := by
  by_contra going
  rw [Bool.not_eq_false] at going
  obtain ⟨_,_,_,earlier⟩ := servingReading going
  obtain ⟨_,fine,short⟩ := earlier k (Nat.lt_succ_self k)
  exact last.elim fine short

end FileServing

open FileServing in
theorem servedWhole (size : BitVec 64) (turns : Nat → Turn) :
    ((∀ k, (serving size turns k).body.length ≤ size.toNat) ∧ (∀ k, (serving size turns k).reading = true →
        (serving size turns k).readOffset.toNat = (serving size turns k).body.length ∧
          (serving size turns (k + 1)).body = (serving size turns k).body ++ (turns k).buffer) ∧
      ∃ k, (serving size turns k).reading = false) ↔ Served size turns := by
  constructor
  · rintro ⟨within,_,k,idle⟩
    induction k with
    | zero => cases idle
    | succ k ih =>
      cases going : (serving size turns k).reading with
      | false => exact ih going
      | true =>
        obtain ⟨there,offset,length,_⟩ := servingReading going
        have room := within (k + 1)
        rw [serving,serveBody _ going,List.length_append,length,takenBuffer,← totalNext] at room
        refine ⟨k,?_,room⟩
        by_contra goesOn
        obtain ⟨fine,short⟩ := not_or.mp goesOn
        have short' : (serving size turns k).readOffset + BitVec.ofNat 64 (turns k).taken ≠ size := by
          rw [offset,← BitVec.ofNat_add,← totalNext]
          intro same
          refine short ?_
          rw [← same,BitVec.toNat_ofNat,Nat.mod_eq_of_lt (lt_of_le_of_lt room size.isLt)]
        obtain ⟨still,_⟩ := serveGoesOn going there fine short'
        rw [serving,still] at idle
        cases idle
  · rintro ⟨k,last,room⟩
    have idle : (serving size turns (k + 1)).reading = false :=
      idleAfter (last.imp_right (fun same => by rw [same,BitVec.ofNat_toNat,BitVec.setWidth_eq]))
    have within (j : Nat) : (serving size turns j).body.length ≤ total turns (k + 1) := by
      rcases Nat.le_total j (k + 1) with before | after
      · exact (servingBody size turns j).trans (totalMono turns before)
      · rw [servingIdle idle after]
        exact servingBody size turns (k + 1)
    refine ⟨fun j => (within j).trans room,fun j going => ⟨?_,?_⟩,k + 1,idle⟩
    · obtain ⟨_,offset,length,_⟩ := servingReading going
      rw [offset,length,BitVec.toNat_ofNat,Nat.mod_eq_of_lt]
      exact lt_of_le_of_lt (length ▸ within j) (lt_of_le_of_lt room size.isLt)
    · exact serveBody _ going

def Turn.gives (data : List Byte) (fits : data.length ≤ kFileSendSize) : Turn where
  result := some data
  fits _ same := Option.some.inj same ▸ fits
  filter := none
  written := true
  cancelled := none

theorem sizeChanged : (FileServing.serving 1 (fun _ => Turn.gives [0,0] (by decide)) 1).body.length = 2 ∧
      ¬∃ k, (FileServing.serving 1 (fun _ => Turn.gives [] (by decide)) k).reading = false := by
  refine ⟨by decide,?_⟩
  rintro ⟨k,idle⟩
  have same : FileServing.serving 1 (fun _ => Turn.gives [] (by decide)) k = .start := by
    clear idle
    induction k with
    | zero => rfl
    | succ k ih =>
      rw [FileServing.serving,ih]
      rfl
  rw [same] at idle
  cases idle

end Citizen.Http
