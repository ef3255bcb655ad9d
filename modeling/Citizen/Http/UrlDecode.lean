import Citizen.Console.CommandBuffer
import Citizen.Lib.CString
import Citizen.Lib.Percent

/-! Decoding of percent-encoded texts. -/
namespace Citizen.Http
open BitField (Byte)
open Console (isspace)
open Numeral (value)
open Percent (escape isHex denoted Exact Strict Encodes)

def skipPrefix : Text → Text
  | zero :: x :: d :: rest => if zero = byte '0' ∧ tolower x = byte 'x' ∧ isHex d then d :: rest else zero :: x :: d :: rest
  | s => s

def digits (s : Text) : Option Nat := value 16 ((skipPrefix s).takeWhile isHex)

def signed : Text → Option Int
  | [] => none
  | b :: rest =>
    if b = byte '-' then (digits rest).map (fun n : Nat => -(n : Int))
    else if b = byte '+' then (digits rest).map Int.ofNat
    else (digits (b :: rest)).map Int.ofNat

def strtol (s : Text) : Option Int := signed ((cString s).dropWhile isspace)

def stoi (s : Text) : Option Int := (strtol s).filter (fun long => -2 ^ 31 ≤ long ∧ long < 2 ^ 31)

def UrlDecode.loop (replacePlus : Bool) : Text → Text → Bool × Text
  | [],out => (true,out)
  | b :: rest,out =>
    if b = byte '%' then
      match rest with
      | hi :: lo :: rest =>
        match stoi [hi,lo] with
        | some value => UrlDecode.loop replacePlus rest (out ++ [BitVec.ofInt 8 value])
        | none => (false,out)
      | _ => (false,out)
    else if b = byte '+' ∧ replacePlus then UrlDecode.loop replacePlus rest (out ++ [byte ' '])
    else UrlDecode.loop replacePlus rest (out ++ [b])

def UrlDecode (data : Text) (replacePlus : Bool) : Bool × Text := UrlDecode.loop replacePlus data []

def Loose (hi lo : Byte) : Prop := isHex hi ∨ (isspace hi ∨ hi = byte '-' ∨ hi = byte '+') ∧ isHex lo

example : (stoi (text "%1")).isNone ∧ stoi (text "0x") = some 0 ∧ stoi (text " f") = some 15 ∧ stoi (text "-1") = some (-1) := by
  decide

variable {b : Byte}

theorem hexKinds (hex : isHex b) : b ≠ 0 ∧ isspace b = false ∧ b ≠ byte '-' ∧ b ≠ byte '+' := by
  revert hex
  revert b
  decide

theorem spaceKinds (space : isspace b) : b ≠ 0 ∧ isHex b = false := by
  revert space
  revert b
  decide

theorem hexBelow (hex : isHex b) : ∃ d < 16, Numeral.hexValue b = some d := by
  revert hex
  revert b
  decide

theorem digitsTwo {hi lo : Byte} {a b : Nat} (smallA : a < 16) (smallB : b < 16) (high : Numeral.hexValue hi = some a)
    (low : Numeral.hexValue lo = some b) : digits [hi,lo] = some (16 * a + b) := by
  simp [digits,skipPrefix,isHex,value,Numeral.shift,Numeral.digitValue,high,low,Option.filter,smallA,smallB]

theorem skipPrefixHead (s : Text) :
    (∃ b rest, skipPrefix s = b :: rest ∧ isHex b) ↔ ∃ b rest, s = b :: rest ∧ isHex b := by
  unfold skipPrefix
  split
  · split
    · rename_i removed
      simp [removed.1,removed.2.2,show isHex (byte '0') from by decide]
    · rfl
  · rfl

theorem digitsSome (s : Text) : (digits s).isSome ↔ ∃ b rest, s = b :: rest ∧ isHex b := by
  have known {b : Byte} (hex : isHex b) : Numeral.digitValue 16 b ≠ none := by
    obtain ⟨d,small,isD⟩ := hexBelow hex
    simp [Numeral.digitValue,isD,Option.filter,small]
  rw [← skipPrefixHead,digits]
  cases skipPrefix s with
  | nil => simp [value]
  | cons b rest =>
    by_cases hex : isHex b
    · rw [List.takeWhile_cons_of_pos hex]
      have some := Numeral.valueSome (List.cons_ne_nil b (rest.takeWhile isHex)) (fun c mem => known (by
        rcases List.mem_cons.mp mem with rfl | later
        · exact hex
        · exact List.mem_takeWhile_imp later))
      simp [some,hex]
    · simp [hex,value]

theorem digitsBelow {s : Text} {n : Nat} (isN : digits s = some n) : n < 16 ^ s.length := by
  have skipped : (skipPrefix s).length ≤ s.length := by
    unfold skipPrefix
    split
    · split <;> simp
    · exact Nat.le_refl _
  exact Nat.lt_of_lt_of_le (Numeral.valueBelow isN) (Nat.pow_le_pow_right (by decide)
    (Nat.le_trans (List.takeWhile_sublist isHex).length_le skipped))

theorem signedSome (b : Byte) (rest : Text) :
    (signed (b :: rest)).isSome ↔ isHex b ∨ (b = byte '-' ∨ b = byte '+') ∧ ∃ c tail, rest = c :: tail ∧ isHex c := by
  rw [signed]
  split
  · rename_i minus
    simp [minus,digitsSome,show isHex (byte '-') = false from by decide]
  · rename_i minus
    split
    · rename_i plus
      simp [plus,digitsSome,show isHex (byte '+') = false from by decide]
    · rename_i plus
      simp [minus,plus,digitsSome]

theorem signedBelow {s : Text} {n : Int} (isN : signed s = some n) : n.natAbs < 16 ^ s.length := by
  have mapped {t : Text} {f : Nat → Int} (shorter : t.length ≤ s.length) (same : ∀ n, (f n).natAbs = n)
      (read : (digits t).map f = some n) : n.natAbs < 16 ^ s.length := by
    obtain ⟨m,isM,rfl⟩ := Option.map_eq_some_iff.mp read
    rw [same]
    exact Nat.lt_of_lt_of_le (digitsBelow isM) (Nat.pow_le_pow_right (by decide) shorter)
  unfold signed at isN
  split at isN
  · cases isN
  · split at isN
    · exact mapped (by simp) (fun n => by simp) isN
    · split at isN
      · exact mapped (by simp) (fun n => by simp) isN
      · exact mapped (Nat.le_refl _) (fun n => by simp) isN

theorem stoiTwo (hi lo : Byte) : stoi [hi,lo] = strtol [hi,lo] := by
  unfold stoi
  cases read : strtol [hi,lo] with
  | none => rfl
  | some n =>
    have short : ((cString [hi,lo]).dropWhile isspace).length ≤ 2 :=
      Nat.le_trans (List.dropWhile_sublist isspace).length_le (List.takeWhile_sublist _).length_le
    have below := Nat.lt_of_lt_of_le (signedBelow read) (Nat.pow_le_pow_right (by decide) short)
    simp only [Option.filter,decide_eq_true_eq]
    rw [if_pos (by omega)]

theorem stoiLoose (hi lo : Byte) : (stoi [hi,lo]).isSome ↔ Loose hi lo := by
  have zeroKinds : isHex 0#8 = false ∧ isspace 0#8 = false ∧ 0#8 ≠ byte '-' ∧ 0#8 ≠ byte '+' := by decide
  have last : (∃ c tail, cString [lo] = c :: tail ∧ isHex c) ↔ isHex lo := by
    rw [cStringCons]
    split
    · rename_i zero
      simp [zero,zeroKinds.1]
    · simp [cString]
  have behindSpace : (signed ((cString [lo]).dropWhile isspace)).isSome ↔ isHex lo := by
    rw [cStringCons]
    split
    · rename_i zero
      simp [zero,zeroKinds.1,signed]
    · by_cases space : isspace lo
      · simp [space,(spaceKinds space).2,cString,signed]
      · simp [space,cString,signedSome]
  rw [stoiTwo,strtol,cStringCons,Loose]
  split
  · rename_i zero
    simp [zero,signed,zeroKinds]
  · by_cases space : isspace hi
    · rw [List.dropWhile_cons_of_pos space,behindSpace]
      simp [space,(spaceKinds space).2]
    · rw [List.dropWhile_cons_of_neg space,signedSome,last]
      simp [space]

theorem stoiExact {hi lo : Byte} (high : isHex hi) (low : isHex lo) :
    ∃ n, stoi [hi,lo] = some n ∧ BitVec.ofInt 8 n = denoted hi lo := by
  obtain ⟨a,smallA,isA⟩ := hexBelow high
  obtain ⟨b,smallB,isB⟩ := hexBelow low
  obtain ⟨nonzero,notSpace,notMinus,notPlus⟩ := hexKinds high
  have plain : cString [hi,lo] = [hi,lo] := cStringPlain (by
    simp only [List.mem_cons,List.not_mem_nil,or_false,not_or]
    exact ⟨nonzero.symm,(hexKinds low).1.symm⟩)
  have read : strtol [hi,lo] = some ((16 * a + b : Nat) : Int) := by
    rw [strtol,plain,List.dropWhile_cons_of_neg (by simp [notSpace])]
    simp [signed,notMinus,notPlus,digitsTwo smallA smallB isA isB]
  refine ⟨(16 * a + b : Nat),?_,?_⟩
  · rw [stoi,read]
    simp [Option.filter]
    omega
  · simp only [denoted,isA,isB]
    rfl

def escapes : Text → List Text
  | [] => []
  | b :: rest =>
    if b = escape then
      match rest with
      | hi :: lo :: rest => [hi,lo] :: escapes rest
      | short => [short]
    else escapes rest

def Refused (e : Text) : Prop := ∀ hi lo, e = [hi,lo] → ¬Loose hi lo

theorem escapesByte (other : b ≠ escape) (t : Text) : escapes (b :: t) = escapes t := by
  rw [escapes.eq_def]
  exact if_neg other

theorem escapesTriple (hi lo : Byte) (t : Text) : escapes (escape :: hi :: lo :: t) = [hi,lo] :: escapes t := by
  rw [escapes.eq_def]
  exact if_pos rfl

theorem escapesCut {short : Text} (cut : ∀ hi lo rest, short = hi :: lo :: rest → False) :
    escapes (escape :: short) = [short] := by
  match short, cut with
  | [],_ => rfl
  | [b],_ => rfl
  | hi :: lo :: rest,cut => exact (cut hi lo rest rfl).elim

theorem strictEscapes (t : Text) : Strict t ↔ ∀ e ∈ escapes t, Exact e := by
  fun_induction escapes t with
  | case1 => simp [Percent.strictNil]
  | case2 hi lo rest ih =>
    rw [Percent.strictTriple,ih]
    simp [Exact,and_assoc]
  | case3 short cut =>
    have inexact {t : Text} (exact : Exact t) (front : t <+: short) : False := by
      obtain ⟨hi,lo,rfl⟩ := List.length_eq_two.mp exact.1
      obtain ⟨rest,rfl⟩ := front
      exact cut hi lo rest rfl
    rw [Percent.strictCons]
    simp only [List.forall_mem_singleton,true_implies]
    exact ⟨fun strict => (inexact strict.1 (List.take_prefix 2 short)).elim,fun exact => (inexact exact List.prefix_rfl).elim⟩
  | case4 b rest other ih =>
    rw [Percent.strictCons,ih]
    simp [other]

variable {replacePlus : Bool} {t out : Text}

theorem loopAccepts : (UrlDecode.loop replacePlus t out).1 = true ↔ ∀ e ∈ escapes t, ¬Refused e := by
  have number (hi lo : Byte) : ¬Refused [hi,lo] ↔ (stoi [hi,lo]).isSome := by simp [Refused,stoiLoose]
  fun_induction UrlDecode.loop replacePlus t out with
  | case1 out => simp [escapes]
  | case2 out hi lo rest value read ih =>
    refine ih.trans ?_
    rw [show byte '%' = escape from rfl,escapesTriple,List.forall_mem_cons,number,read]
    simp
  | case3 out hi lo rest read =>
    rw [show byte '%' = escape from rfl,escapesTriple,List.forall_mem_cons,number,read]
    simp
  | case4 short out cut =>
    rw [show byte '%' = escape from rfl,escapesCut cut]
    simp only [List.forall_mem_singleton,Bool.false_eq_true,false_iff,not_not]
    exact fun hi lo same => (cut hi lo [] same).elim
  | case5 out b rest other plus ih => rwa [escapesByte other]
  | case6 out b rest other plus ih => rwa [escapesByte other]

theorem strictNotCut {short : Text} (strict : Strict (byte '%' :: short))
    (cut : ∀ hi lo tail, short = hi :: lo :: tail → False) : False := by
  have exact := (Percent.strictCons.mp strict).1 rfl
  obtain ⟨hi,lo,same⟩ := List.length_eq_two.mp exact.1
  exact cut hi lo (short.drop 2) (by rw [← List.take_append_drop 2 short,same]; simp)

theorem loopDecoded (strict : Strict t) :
    UrlDecode.loop replacePlus t out = (true,out ++ Percent.decoded replacePlus t) := by
  fun_induction UrlDecode.loop replacePlus t out with
  | case1 out => simp [Percent.decoded]
  | case2 out hi lo rest value read ih =>
    obtain ⟨high,low,later⟩ := Percent.strictTriple.mp strict
    obtain ⟨n,isN,same⟩ := stoiExact high low
    cases isN.symm.trans read
    rw [ih later,show byte '%' = escape from rfl,Percent.decodedTriple,same,List.append_assoc]
    rfl
  | case3 out hi lo rest read =>
    obtain ⟨high,low,later⟩ := Percent.strictTriple.mp strict
    obtain ⟨n,isN,same⟩ := stoiExact high low
    cases isN.symm.trans read
  | case4 _ _ cut => exact (strictNotCut strict cut).elim
  | case5 out b rest other plus ih =>
    rw [ih (Percent.strictCons.mp strict).2,Percent.decodedByte other,Percent.plain,if_pos plus,List.append_assoc]
    rfl
  | case6 out b rest other plus ih =>
    rw [ih (Percent.strictCons.mp strict).2,Percent.decodedByte other,Percent.plain,if_neg plus,List.append_assoc]
    rfl

theorem urlDecodeEncoded {raw : Text} (encodes : Encodes replacePlus raw t) : UrlDecode t replacePlus = (true,raw) := by
  obtain ⟨strict,rfl⟩ := Percent.encodesDecoded encodes
  exact loopDecoded strict

def DecodesStrictly (t : Text) (replacePlus : Bool) : Prop :=
  ((UrlDecode t replacePlus).1 = true ↔ Strict t) ∧
  (Strict t → (UrlDecode t replacePlus).2 = Percent.decoded replacePlus t)

theorem decodesStrictly (t : Text) (replacePlus : Bool) :
    (DecodesStrictly t replacePlus ↔ (∀ e ∈ escapes t, Exact e) ∨ ∃ e ∈ escapes t, Refused e) ∧
    (∀ raw, Encodes replacePlus raw t → UrlDecode t replacePlus = (true,raw)) ∧
    ∀ raw, UrlDecode (Percent.encode raw) replacePlus = (true,raw) := by
  refine ⟨?_,fun raw => urlDecodeEncoded,fun raw => urlDecodeEncoded (Percent.encodesEncode raw)⟩
  have accepted : (UrlDecode t replacePlus).1 = true ↔ ¬∃ e ∈ escapes t, Refused e := by
    rw [UrlDecode,loopAccepts]
    simp
  have right (strict : Strict t) : UrlDecode t replacePlus = (true,Percent.decoded replacePlus t) := loopDecoded strict
  rw [← strictEscapes]
  constructor
  · rintro ⟨exactly,_⟩
    by_cases refused : ∃ e ∈ escapes t, Refused e
    · exact .inr refused
    · exact .inl (exactly.mp (accepted.mpr refused))
  · intro either
    refine ⟨⟨fun accepts => ?_,fun strict => by rw [right strict]⟩,fun strict => by rw [right strict]⟩
    exact either.resolve_right (accepted.mp accepts)

theorem looseEscape : ¬DecodesStrictly (text "a%1g") true := by
  intro strict
  have accepted : (UrlDecode (text "a%1g") true).1 = true := by decide
  have exact := (strictEscapes _).mp (strict.1.mp accepted) (text "1g") (by decide)
  exact absurd (exact.2 (byte 'g') (by decide)) (by decide)

end Citizen.Http
