import Citizen.Lib.Numeral

/-! Percent-encoded texts, in which three bytes may stand for one. -/
namespace Citizen.Percent
open BitField (Byte)
open Numeral

def escape : Byte := byte '%'

def isHex (b : Byte) : Bool := (hexValue b).isSome

def denoted (hi lo : Byte) : Byte := BitVec.ofNat 8 (16 * (hexValue hi).getD 0 + (hexValue lo).getD 0)

def Exact (e : Text) : Prop := e.length = 2 ∧ ∀ b ∈ e, isHex b

instance (e : Text) : Decidable (Exact e) := inferInstanceAs (Decidable (_ ∧ _))

def Strict (t : Text) : Prop := ∀ front rest, t = front ++ escape :: rest → Exact (rest.take 2)

def plain (plus : Bool) (b : Byte) : Byte := if b = byte '+' ∧ plus then byte ' ' else b

def decoded (plus : Bool) : Text → Text
  | [] => []
  | b :: rest =>
    if b = escape then
      match rest with
      | hi :: lo :: rest => denoted hi lo :: decoded plus rest
      | _ => escape :: rest
    else plain plus b :: decoded plus rest

inductive Encodes (plus : Bool) : Text → Text → Prop where
  | nil : Encodes plus [] []
  | byte {b raw t} (other : b ≠ escape) (tail : Encodes plus raw t) : Encodes plus (plain plus b :: raw) (b :: t)
  | triple {hi lo raw t} (high : isHex hi) (low : isHex lo) (tail : Encodes plus raw t) :
      Encodes plus (denoted hi lo :: raw) (escape :: hi :: lo :: t)

def encodeByte (b : Byte) : Text := [escape,digit (b.toNat / 16),digit (b.toNat % 16)]

def encode (raw : Text) : Text := raw.flatMap encodeByte

theorem hexOther {b : Byte} (hex : isHex b) : b ≠ escape ∧ b ≠ byte '+' ∧ b ≠ byte '-' ∧ b ≠ byte ' ' := by
  revert hex
  revert b
  decide

theorem strictNil : Strict [] := by
  intro front rest split
  simp at split

theorem strictCons {b : Byte} {rest : Text} : Strict (b :: rest) ↔ (b = escape → Exact (rest.take 2)) ∧ Strict rest := by
  constructor
  · intro strict
    refine ⟨fun here => strict [] rest (by rw [here,List.nil_append]),fun front tail split => ?_⟩
    exact strict (b :: front) tail (by rw [split,List.cons_append])
  · rintro ⟨here,later⟩ front tail split
    cases front with
    | nil =>
      obtain ⟨rfl,rfl⟩ := List.cons.inj split
      exact here rfl
    | cons c front => exact later front tail (List.cons.inj split).2

theorem strictTriple {hi lo : Byte} {t : Text} :
    Strict (escape :: hi :: lo :: t) ↔ isHex hi ∧ isHex lo ∧ Strict t := by
  have exact : Exact [hi,lo] ↔ isHex hi ∧ isHex lo := by simp [Exact]
  have digits (high : isHex hi) (low : isHex lo) : Strict (hi :: lo :: t) ↔ Strict t := by
    simp [strictCons,(hexOther high).1,(hexOther low).1]
  rw [strictCons]
  simp only [List.take_succ_cons,List.take_zero,exact,true_implies]
  constructor
  · rintro ⟨⟨high,low⟩,rest⟩
    exact ⟨high,low,(digits high low).mp rest⟩
  · rintro ⟨high,low,rest⟩
    exact ⟨⟨high,low⟩,(digits high low).mpr rest⟩

variable {plus : Bool} {raw t : Text}

theorem decodedByte {b : Byte} (other : b ≠ escape) : decoded plus (b :: t) = plain plus b :: decoded plus t := by
  rw [decoded.eq_def]
  exact if_neg other

theorem decodedTriple (hi lo : Byte) : decoded plus (escape :: hi :: lo :: t) = denoted hi lo :: decoded plus t := by
  rw [decoded.eq_def]
  exact if_pos rfl

theorem encodesDecoded (encodes : Encodes plus raw t) : Strict t ∧ decoded plus t = raw := by
  induction encodes with
  | nil => exact ⟨strictNil,rfl⟩
  | byte other tail ih => exact ⟨strictCons.mpr ⟨fun here => absurd here other,ih.1⟩,by rw [decodedByte other,ih.2]⟩
  | triple high low tail ih => exact ⟨strictTriple.mpr ⟨high,low,ih.1⟩,by rw [decodedTriple,ih.2]⟩

theorem encodesStrict (plus : Bool) (strict : Strict t) : Encodes plus (decoded plus t) t := by
  fun_induction decoded plus t with
  | case1 => exact .nil
  | case2 hi lo tail ih =>
    obtain ⟨high,low,later⟩ := strictTriple.mp strict
    exact .triple high low (ih later)
  | case3 short cut =>
    obtain ⟨hi,lo,same⟩ := List.length_eq_two.mp ((strictCons.mp strict).1 rfl).1
    exact (cut hi lo (short.drop 2) (by rw [← List.take_append_drop 2 short,same]; simp)).elim
  | case4 b rest other ih => exact .byte other (ih (strictCons.mp strict).2)

theorem denotedDigits (b : Byte) : denoted (digit (b.toNat / 16)) (digit (b.toNat % 16)) = b := by
  revert b
  decide

theorem digitHex {d : Nat} (small : d < 16) : isHex (digit d) := by
  revert small
  revert d
  decide

theorem encodesEncode (raw : Text) : Encodes plus raw (encode raw) := by
  induction raw with
  | nil => exact .nil
  | cons b rest ih =>
    have high : isHex (digit (b.toNat / 16)) := digitHex (by omega)
    have low : isHex (digit (b.toNat % 16)) := digitHex (by omega)
    have here := Encodes.triple high low ih
    rwa [denotedDigits] at here

theorem encodesNil (encodes : Encodes plus raw t) : raw = [] ↔ t = [] := by
  cases encodes <;> simp

end Citizen.Percent
