import Citizen.Lib.Text
import Mathlib.Data.List.TakeWhile

/-! Texts that end at their first zero byte. -/
namespace Citizen
open BitField (Byte)

attribute [local instance] byteOrder

def cString (t : Text) : Text := t.takeWhile (fun b => b ≠ 0)

def strcmp : Text → Text → Ordering
  | [],[] => .eq
  | [],b :: _ => if b = 0 then .eq else .lt
  | a :: _,[] => if a = 0 then .eq else .gt
  | a :: as,b :: bs => if a = b then if a = 0 then .eq else strcmp as bs else compare a.toNat b.toNat

def stricmp (a b : Text) : Bool := strcmp (a.map tolower) (b.map tolower) = .eq

def strncmp (n : Nat) (a b : Text) : Bool := cString (a.take n) = cString (b.take n)

def strnicmp (n : Nat) (a b : Text) : Bool := strncmp n (a.map tolower) (b.map tolower)

def sameUpToCase (a b : Text) : Prop := a.map tolower = b.map tolower

instance (a b : Text) : Decidable (sameUpToCase a b) := inferInstanceAs (Decidable (a.map tolower = b.map tolower))

variable {a b rest : Text}

theorem cStringFree (t : Text) : 0 ∉ cString t := fun mem => by simpa using List.mem_takeWhile_imp mem

theorem cStringCons (b : Byte) (rest : Text) : cString (b :: rest) = if b = 0 then [] else b :: cString rest := by
  rw [cString,List.takeWhile_cons]
  split
  · rename_i nonzero
    rw [if_neg (of_decide_eq_true nonzero)]
    rfl
  · rename_i zero
    rw [if_pos (not_not.mp (fun nonzero => zero (decide_eq_true nonzero)))]

theorem cStringAppend (free : 0 ∉ a) : cString (a ++ 0 :: rest) = a := by
  rw [cString,List.takeWhile_append_of_pos (fun b mem => by simpa using fun zero : b = 0 => free (zero ▸ mem))]
  simp

theorem cStringPlain (free : 0 ∉ a) : cString a = a :=
  List.takeWhile_eq_self_iff.mpr (fun b mem => by simpa using fun zero : b = 0 => free (zero ▸ mem))

theorem cStringTake (n : Nat) (t : Text) : cString (t.take n) = (cString t).take n := by
  induction t generalizing n with
  | nil => simp [cString]
  | cons b rest ih =>
    cases n with
    | zero => rfl
    | succ n =>
      rw [List.take_succ_cons,cStringCons,cStringCons]
      split
      · rfl
      · rw [ih,List.take_succ_cons]

theorem strncmpFewer {m n : Nat} (few : m ≤ n) (same : strncmp n a b = true) : strncmp m a b = true := by
  have cut (t : Text) : cString (t.take m) = (cString (t.take n)).take m := by
    rw [← cStringTake,List.take_take,min_eq_left few]
  simp only [strncmp,decide_eq_true_iff] at same ⊢
  rw [cut,cut,same]

theorem strcmpName (freeA : 0 ∉ a) (freeB : 0 ∉ b) :
    strcmp a (b ++ 0 :: rest) = if a < b then .lt else if a = b then .eq else .gt := by
  induction a generalizing b with
  | nil =>
    cases b with
    | nil => simp [strcmp]
    | cons b bs =>
      have nonzero : b ≠ 0 := fun zero => freeB (zero ▸ List.mem_cons_self)
      rw [List.cons_append,strcmp,if_neg nonzero,if_pos (List.nil_lt_cons b bs)]
  | cons a as ih =>
    have nonzero : a ≠ 0 := fun zero => freeA (zero ▸ List.mem_cons_self)
    cases b with
    | nil =>
      rw [List.nil_append,strcmp,if_neg nonzero,if_neg (List.not_lt_nil _),if_neg (List.cons_ne_nil a as)]
      exact compare_gt_iff_gt.mpr (Nat.pos_of_ne_zero (fun zero => nonzero (BitVec.eq_of_toNat_eq zero)))
    | cons b bs =>
      rw [List.cons_append,strcmp]
      simp only [List.cons_lt_cons_iff,List.cons.injEq]
      split
      · rename_i same
        subst same
        rw [ih (fun mem => freeA (List.mem_cons_of_mem _ mem)) (fun mem => freeB (List.mem_cons_of_mem _ mem))]
        simp
      · rename_i other
        simp only [other,false_and,or_false,if_false]
        split
        · rename_i less
          exact compare_lt_iff_lt.mpr less
        · rename_i more
          have apart : a.toNat ≠ b.toNat := fun same => other (BitVec.eq_of_toNat_eq same)
          exact compare_gt_iff_gt.mpr (by rw [BitVec.lt_def] at more; omega)

theorem tolowerZero (b : Byte) : tolower b = 0 ↔ b = 0 := by
  revert b
  decide

theorem loweredFree (free : 0 ∉ a) : 0 ∉ a.map tolower := by
  intro mem
  obtain ⟨b,inside,zero⟩ := List.mem_map.mp mem
  exact free ((tolowerZero b).mp zero ▸ inside)

theorem stricmpName (freeA : 0 ∉ a) (freeB : 0 ∉ b) : stricmp a (b ++ 0 :: rest) = true ↔ sameUpToCase a b := by
  have zero : tolower 0 = 0 := by decide
  rw [stricmp,decide_eq_true_iff,List.map_append,List.map_cons,zero,strcmpName (loweredFree freeA) (loweredFree freeB)]
  split
  · rename_i less
    exact iff_of_false (by simp) (fun same => List.lt_irrefl _ (same ▸ less))
  · split
    · rename_i same
      exact iff_of_true rfl same
    · rename_i other
      exact iff_of_false (by simp) other

end Citizen
