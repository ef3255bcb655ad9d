import Citizen.Lib.Text

/-! UTF-8 between texts of bytes and code points. -/
namespace Citizen
open BitField (Byte)

def utf8Char (c : Char) : Text := (String.utf8EncodeChar c).map UInt8.toBitVec

def utf8 (cs : List Char) : Text := cs.flatMap utf8Char

def fromUtf8 (t : Text) : Option (List Char) :=
  ((t.map UInt8.ofBitVec).toByteArray.utf8Decode?).map Array.toList

@[simp] theorem utf8Nil : utf8 [] = [] := rfl
@[simp] theorem utf8Cons (c : Char) (cs : List Char) : utf8 (c :: cs) = utf8Char c ++ utf8 cs := rfl
@[simp] theorem utf8Append (cs ds : List Char) : utf8 (cs ++ ds) = utf8 cs ++ utf8 ds := List.flatMap_append

theorem utf8Bytes (cs : List Char) : ((utf8 cs).map UInt8.ofBitVec).toByteArray = cs.utf8Encode := by
  have same : (utf8 cs).map UInt8.ofBitVec = cs.flatMap String.utf8EncodeChar := by
    unfold utf8
    rw [List.map_flatMap]
    refine congrArg (fun f => cs.flatMap f) (funext (fun c => ?_))
    unfold utf8Char
    rw [List.map_map]
    exact List.map_id _
  rw [same]
  rfl

variable {cs : List Char}

theorem utf8Empty (none : utf8 cs = []) : cs = [] := by
  cases cs with
  | nil => rfl
  | cons c cs =>
    obtain ⟨first,_⟩ := List.append_eq_nil_iff.mp none
    exact absurd (List.map_eq_nil_iff.mp first) String.utf8EncodeChar_ne_nil

theorem fromUtf8Iff {t : Text} : fromUtf8 t = some cs ↔ t = utf8 cs := by
  constructor
  · intro found
    obtain ⟨array,decoded,rfl⟩ := Option.map_eq_some_iff.mp found
    have back := @ByteArray.utf8Encode_get_utf8Decode? _ (Option.isSome_of_eq_some decoded)
    simp only [decoded,Option.get_some] at back
    rw [← utf8Bytes,List.toByteArray_inj] at back
    have same := congrArg (List.map UInt8.toBitVec) back
    simpa [Function.comp_def] using same.symm
  · rintro rfl
    unfold fromUtf8
    rw [utf8Bytes,List.utf8Decode?_utf8Encode]
    rfl

theorem utf8Injective : Function.Injective utf8 := by
  intro cs ds same
  exact Option.some.inj ((fromUtf8Iff.mpr rfl).symm.trans (fromUtf8Iff.mpr same))

theorem utf8Ascii {c : Char} (low : c.toNat < 128) : utf8Char c = [byte c] := by
  have small : c.val.toNat ≤ 127 := Nat.le_of_lt_succ low
  unfold utf8Char String.utf8EncodeChar
  rw [if_pos small]
  rfl

theorem textUtf8 {s : String} (ascii : s.toList.all (fun c => c.toNat < 128) = true) : text s = utf8 s.toList := by
  have low : ∀ c ∈ s.toList, c.toNat < 128 := by simpa using ascii
  clear ascii
  unfold text
  generalize s.toList = cs at low
  induction cs with
  | nil => rfl
  | cons c cs ih =>
    rw [List.map_cons,utf8Cons,utf8Ascii (low c List.mem_cons_self)]
    rw [ih (fun d mem => low d (List.mem_cons_of_mem _ mem))]
    rfl

theorem highByte {n : Nat} (low : 128 ≤ n) (high : n < 256) : 128#8 ≤ (UInt8.ofNat n).toBitVec := by
  have value : (BitVec.ofNat 8 n).toNat = n := Nat.mod_eq_of_lt high
  rw [BitVec.le_def,UInt8.toBitVec_ofNat',value]
  exact low

theorem utf8High {c : Char} (high : 128 ≤ c.toNat) {b : Byte} (mem : b ∈ utf8Char c) : 128#8 ≤ b := by
  have large : ¬c.val.toNat ≤ 127 := Nat.not_le_of_lt high
  unfold utf8Char String.utf8EncodeChar at mem
  rw [if_neg large] at mem
  obtain ⟨u,inside,rfl⟩ := List.mem_map.mp mem
  have lead {n m k : Nat} (low : 128 ≤ k) (fits : m + k ≤ 256) (some_ : 0 < m) :
      128#8 ≤ (UInt8.ofNat (n % m + k)).toBitVec :=
    highByte (by omega) (by have below := Nat.mod_lt n some_; omega)
  split at inside
  · simp only [List.mem_cons,List.not_mem_nil,or_false] at inside
    rcases inside with rfl | rfl
    all_goals exact lead (by decide) (by decide) (by decide)
  · split at inside
    · simp only [List.mem_cons,List.not_mem_nil,or_false] at inside
      rcases inside with rfl | rfl | rfl
      all_goals exact lead (by decide) (by decide) (by decide)
    · simp only [List.mem_cons,List.not_mem_nil,or_false] at inside
      rcases inside with rfl | rfl | rfl | rfl
      all_goals exact lead (by decide) (by decide) (by decide)

theorem asciiByte {c a : Char} (low : a.toNat < 128) : byte a ∈ utf8Char c ↔ c = a := by
  constructor
  · intro mem
    rcases Nat.lt_or_ge c.toNat 128 with small | high
    · rw [utf8Ascii small,List.mem_singleton] at mem
      have same := congrArg BitVec.toNat mem
      unfold byte at same
      rw [BitVec.toNat_ofNat,BitVec.toNat_ofNat,Nat.mod_eq_of_lt (by omega),Nat.mod_eq_of_lt (by omega)] at same
      exact (Char.toNat_inj.mp same).symm
    · have above := BitVec.le_def.mp (utf8High high mem)
      unfold byte at above
      rw [BitVec.toNat_ofNat,BitVec.toNat_ofNat,Nat.mod_eq_of_lt (by omega),Nat.mod_eq_of_lt (by omega)] at above
      omega
  · rintro rfl
    rw [utf8Ascii low]
    exact List.mem_singleton_self _

theorem asciiMem {a : Char} (low : a.toNat < 128) : byte a ∈ utf8 cs ↔ a ∈ cs := by
  unfold utf8
  rw [List.mem_flatMap]
  constructor
  · rintro ⟨c,mem,inside⟩
    exact (asciiByte low).mp inside ▸ mem
  · exact fun mem => ⟨a,mem,(asciiByte low).mpr rfl⟩

theorem utf8Cut {front rest : Text} {a : Char} (low : a.toNat < 128) (cut : utf8 cs = front ++ byte a :: rest) :
    ∃ before after, cs = before ++ a :: after ∧ front = utf8 before ∧ rest = utf8 after := by
  induction cs generalizing front with
  | nil => exact absurd cut.symm (by simp)
  | cons c cs ih =>
    rw [utf8Cons] at cut
    by_cases here : byte a ∈ utf8Char c
    · cases (asciiByte low).mp here
      rw [utf8Ascii low] at cut
      cases front with
      | nil =>
        cases cut
        exact ⟨[],cs,rfl,rfl,rfl⟩
      | cons b front =>
        obtain ⟨same,later⟩ := List.cons.inj cut
        obtain ⟨before,after,rfl,rfl,rfl⟩ := ih later
        exact ⟨a :: before,after,rfl,by rw [utf8Cons,utf8Ascii low,same]; rfl,rfl⟩
    · rcases List.append_eq_append_iff.mp cut with ⟨mid,longer,later⟩ | ⟨mid,longer,later⟩
      · obtain ⟨before,after,rfl,rfl,rfl⟩ := ih later
        exact ⟨c :: before,after,rfl,longer,rfl⟩
      · cases mid with
        | nil =>
          rw [List.append_nil] at longer
          obtain ⟨before,after,rfl,empty,rfl⟩ := @ih [] later.symm
          refine ⟨c :: before,after,rfl,?_,rfl⟩
          rw [utf8Cons,← empty,List.append_nil,longer]
        | cons b mid =>
          cases later
          exact absurd (by rw [longer]; simp) here

end Citizen
