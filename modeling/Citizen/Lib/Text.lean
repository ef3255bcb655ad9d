import Citizen.Lib.BitField

/-! Texts of bytes, as `std::string` has them. -/
namespace Citizen
open BitField (Byte)

abbrev Text := List Byte

@[reducible] def byteOrder : LinearOrder Byte where
  le_refl _ := BitVec.le_refl _
  le_trans _ _ _ := BitVec.le_trans
  le_antisymm _ _ := BitVec.le_antisymm
  le_total := BitVec.le_total
  lt_iff_le_not_ge _ _ := by bv_omega
  toDecidableLE := inferInstance
  toDecidableEq := inferInstance
  toDecidableLT := inferInstance

def byte (c : Char) : Byte := BitVec.ofNat 8 c.toNat

def text (s : String) : Text := s.toList.map byte

def tolower (b : Byte) : Byte := if byte 'A' ≤ b ∧ b ≤ byte 'Z' then b + 32 else b

theorem tolowerTwice (b : Byte) : tolower (tolower b) = tolower b := by
  revert b
  decide

theorem tolowerLowered (t : Text) : (t.map tolower).map tolower = t.map tolower := by
  rw [List.map_map]
  exact List.map_congr_left (fun b _ => tolowerTwice b)

def beforeLast (c : Byte) : Text → Option Text
  | [] => none
  | b :: rest =>
    match beforeLast c rest with
    | some front => some (b :: front)
    | none => if b = c then some [] else none

theorem beforeLastNone {c : Byte} {t : Text} : beforeLast c t = none ↔ c ∉ t := by
  induction t with
  | nil => exact ⟨fun _ => List.not_mem_nil,fun _ => rfl⟩
  | cons b rest ih =>
    unfold beforeLast
    cases before : beforeLast c rest with
    | some front =>
      have inside : c ∈ rest := by
        by_contra absent
        rw [ih.mpr absent] at before
        cases before
      simp [inside]
    | none =>
      have absent := ih.mp before
      by_cases here : b = c
      · simp [here]
      · simp [here,absent,Ne.symm here]

theorem beforeLastSome {c : Byte} {t front : Text} (before : beforeLast c t = some front) :
    ∃ rest, t = front ++ c :: rest ∧ c ∉ rest := by
  induction t generalizing front with
  | nil => cases before
  | cons b rest ih =>
    unfold beforeLast at before
    split at before
    · rename_i inner found
      cases before
      obtain ⟨tail,rfl,last⟩ := ih found
      exact ⟨tail,rfl,last⟩
    · rename_i absent
      split at before
      · rename_i here
        cases before
        exact ⟨rest,by rw [here]; rfl,beforeLastNone.mp absent⟩
      · cases before

end Citizen
