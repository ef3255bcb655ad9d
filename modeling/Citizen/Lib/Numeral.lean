import Citizen.Lib.Text
import Mathlib.Data.Nat.Digits.Lemmas

/-! Numerals of a base up to sixteen, and their reading. -/
namespace Citizen.Numeral
open BitField (Byte)

def digit (d : Nat) : Byte := BitVec.ofNat 8 (if d < 10 then 48 + d else 87 + d)

def hexValue (b : Byte) : Option Nat :=
  if byte '0' ≤ b ∧ b ≤ byte '9' then some (b.toNat - 48)
  else if byte 'a' ≤ tolower b ∧ tolower b ≤ byte 'f' then some ((tolower b).toNat - 87)
  else none

def digitValue (base : Nat) (b : Byte) : Option Nat := (hexValue b).filter (fun d => d < base)

def numeral (base n : Nat) : Text := if n = 0 then [digit 0] else (Nat.digits base n).reverse.map digit

def shift (base n : Nat) (b : Byte) : Option Nat := (digitValue base b).map (fun d => base * n + d)

def value (base : Nat) (t : Text) : Option Nat := if t = [] then none else t.foldlM (shift base) 0

variable {base : Nat}

theorem digitValueDigit {d : Nat} (small : d < base) (known : base ≤ 16) : digitValue base (digit d) = some d := by
  have read : ∀ d < 16, hexValue (digit d) = some d := by decide
  unfold digitValue
  rw [read d (by omega)]
  exact Option.filter_eq_some_iff.mpr ⟨rfl,decide_eq_true small⟩

theorem digitsValue (digits : List Nat) (small : ∀ d ∈ digits, d < base) (known : base ≤ 16) :
    (digits.reverse.map digit).foldlM (shift base) 0 = some (Nat.ofDigits base digits) := by
  induction digits with
  | nil => rfl
  | cons d rest ih =>
    obtain ⟨first,later⟩ := List.forall_mem_cons.mp small
    rw [List.reverse_cons,List.map_append,List.foldlM_append,ih later,Nat.ofDigits_cons]
    simp [shift,digitValueDigit first known,Nat.add_comm]

theorem numeralNonempty (base n : Nat) : numeral base n ≠ [] := by
  unfold numeral
  split
  · exact List.cons_ne_nil _ _
  · rename_i positive
    simpa [Nat.digits_eq_nil_iff_eq_zero] using positive

theorem valueNumeral (n : Nat) (large : 1 < base) (known : base ≤ 16) : value base (numeral base n) = some n := by
  unfold value
  rw [if_neg (numeralNonempty base n)]
  unfold numeral
  split
  · rename_i zero
    rw [zero]
    simp [shift,show digitValue base (digit 0) = some 0 from digitValueDigit (by omega) known]
  · rw [digitsValue _ (fun d mem => Nat.digits_lt_base large mem) known,Nat.ofDigits_digits]

theorem numeralDigits (n : Nat) (large : 1 < base) (known : base ≤ 16) {b : Byte} (mem : b ∈ numeral base n) :
    digitValue base b ≠ none := by
  have isDigit {d : Nat} (small : d < base) : digitValue base (digit d) ≠ none := by
    rw [digitValueDigit small known]
    exact Option.some_ne_none d
  unfold numeral at mem
  split at mem
  · rw [List.mem_singleton.mp mem]
    exact isDigit (by omega)
  · obtain ⟨d,inside,rfl⟩ := List.mem_map.mp mem
    exact isDigit (Nat.digits_lt_base large (List.mem_reverse.mp inside))

theorem numeralLength {n : Nat} (large : 1 < base) : (numeral base n).length = Nat.log base n + 1 := by
  unfold numeral
  split
  · rename_i zero
    rw [zero,Nat.log_zero_right]
    rfl
  · rename_i positive
    rw [List.length_map,List.length_reverse,Nat.length_digits base n large positive]

variable {t : Text}

theorem valueNone {b : Byte} (mem : b ∈ t) (other : digitValue base b = none) : value base t = none := by
  have folded (t : Text) (start : Nat) (mem : b ∈ t) : t.foldlM (shift base) start = none := by
    induction t generalizing start with
    | nil => exact absurd mem List.not_mem_nil
    | cons c rest ih =>
      rw [List.foldlM_cons]
      rcases List.mem_cons.mp mem with rfl | later
      · rw [shift,other]
        rfl
      · cases shift base start c with
        | none => rfl
        | some n => exact ih n later
  unfold value
  split
  · rfl
  · exact folded t 0 mem

theorem shiftedSome (known : ∀ b ∈ t, digitValue base b ≠ none) (start : Nat) :
    ∃ n, t.foldlM (shift base) start = some n := by
  induction t generalizing start with
  | nil => exact ⟨start,rfl⟩
  | cons b rest ih =>
    obtain ⟨here,later⟩ := List.forall_mem_cons.mp known
    obtain ⟨d,isD⟩ := Option.ne_none_iff_exists'.mp here
    obtain ⟨n,isN⟩ := ih later (base * start + d)
    exact ⟨n,by simp [shift,isD,isN]⟩

theorem valueSome (nonempty : t ≠ []) (known : ∀ b ∈ t, digitValue base b ≠ none) : (value base t).isSome := by
  obtain ⟨n,isN⟩ := shiftedSome known 0
  rw [value,if_neg nonempty,isN]
  rfl

theorem shiftedBelow {start n : Nat} (shifted : t.foldlM (shift base) start = some n) :
    n < (start + 1) * base ^ t.length := by
  induction t generalizing start with
  | nil =>
    cases shifted
    simp
  | cons b rest ih =>
    rw [List.foldlM_cons] at shifted
    obtain ⟨next,here,later⟩ := Option.bind_eq_some_iff.mp shifted
    obtain ⟨d,isD,rfl⟩ := Option.map_eq_some_iff.mp here
    have small : d < base := of_decide_eq_true (Option.filter_eq_some_iff.mp isD).2
    calc n < (base * start + d + 1) * base ^ rest.length := ih later
      _ ≤ ((start + 1) * base) * base ^ rest.length := Nat.mul_le_mul_right _ (by rw [Nat.add_mul,Nat.mul_comm start]; omega)
      _ = (start + 1) * base ^ (rest.length + 1) := by rw [Nat.mul_assoc,Nat.pow_succ,Nat.mul_comm base]

theorem valueBelow {n : Nat} (isN : value base t = some n) : n < base ^ t.length := by
  unfold value at isN
  split at isN
  · cases isN
  · simpa using shiftedBelow isN

end Citizen.Numeral
