import Citizen.Net.SerializedSize

/-! The most and the least that a type can be encoded in. -/
namespace Citizen.Net
open BitField (Byte)

namespace Serializable

def most : {t : PacketType} → Serializable t → Nat
  | _,property type _ => type.sizeof
  | _,elements option _ sizeof _ _ => option.sizeofPrefix + option.maxSize * sizeof % 2 ^ 64
  | _,vector option _ _ m => option.1.sizeofPrefix + option.1.maxSize * most m
  | _,nil => 0
  | _,cons one two => most one + most two
  | _,optional m => 1 + most m
  | _,clientGameStateNAck => 1 + 8 + (8 + 8) + (1 + 255 * 10) + (1 + 255 * 2)

def least : {t : PacketType} → Serializable t → Nat
  | _,property type _ => type.sizeof
  | _,elements option _ sizeof _ _ => option.sizeofPrefix + option.Min * sizeof
  | _,vector option _ _ m => option.1.sizeofPrefix + option.1.Min * least m
  | _,nil => 0
  | _,cons one two => least one + least two
  | _,optional _ => 1
  | _,clientGameStateNAck => 1 + 8

theorem mostCounted {t : PacketType} (s : Serializable t) (n : Nat) :
    s.maxCount (counterAt n) = counterAt (n + s.most) := by
  induction s generalizing n with
  | property type bigEndian =>
    refine fieldAt n ?_
    cases type <;> decide
  | elements option bigEndian sizeof typed positive =>
    rw [maxCount,SerializableSizeOptionArea.countPrefixAt,contentAt,most,Nat.add_assoc]
  | vector option bigEndian typed m ih =>
    rw [maxCount,SerializableSizeOptionArea.countPrefixAt,iterateAt ih,most,Nat.add_assoc]
  | nil => rfl
  | cons one two first second => rw [maxCount,first,second,most,Nat.add_assoc]
  | optional m ih => rw [maxCount,fieldAt n (by decide),ih,most,Nat.add_assoc]
  | clientGameStateNAck =>
    simp only [maxCount,fieldAt _ (show 1 < 2 ^ 64 by decide),fieldAt _ (show 8 < 2 ^ 64 by decide),
      SerializableSizeOptionArea.countPrefixAt,contentAt,most]
    rfl

theorem contentTyped {option : SerializableSizeOptionArea} (typed : option.Typed) (sizeof : Fin (2^16)) :
    option.Min * sizeof < 2 ^ 64 := by
  have narrow : option.Min < 2 ^ 48 := by
    unfold SerializableSizeOptionArea.Typed at typed
    split at typed
    · omega
    · rename_i type _
      refine typed.1.trans_le ?_
      cases type <;> decide
  exact (Nat.mul_lt_mul'' narrow sizeof.isLt).trans_le (by decide)

section
variable {t : PacketType} (s : Serializable t)

theorem leastCounted (n : Nat) : s.minCount (counterAt n) = counterAt (n + s.least) := by
  induction s generalizing n with
  | property type bigEndian =>
    refine fieldAt n ?_
    cases type <;> decide
  | elements option bigEndian sizeof typed positive =>
    rw [minCount,SerializableSizeOptionArea.countPrefixAt,contentAt,SerializableSizeOptionArea.minSizeMin,
      Nat.mod_eq_of_lt (contentTyped typed sizeof),least,Nat.add_assoc]
  | vector option bigEndian typed m ih =>
    rw [minCount,SerializableSizeOptionArea.countPrefixAt,iterateAt ih,
      SerializableSizeOptionArea.minSizeMin,least,Nat.add_assoc]
  | nil => rfl
  | cons one two first second => rw [minCount,first,second,least,Nat.add_assoc]
  | optional m ih => exact fieldAt n (by decide)
  | clientGameStateNAck => rw [minCount,fieldAt n (by decide),fieldAt _ (by decide),least,Nat.add_assoc]

theorem maxSizeMost : s.GetMaxSize = counterAt s.most := by
  rw [GetMaxSize,← counterZero,mostCounted,Nat.zero_add]

theorem minSizeLeast : s.GetMinSize = counterAt s.least := by
  rw [GetMinSize,← counterZero,leastCounted,Nat.zero_add]

end

end Serializable

namespace PacketType

def Bounded (t : PacketType) (most : Nat) : Prop :=
  ∀ v : t.Value, t.valid v = true → (t.encode v).length < maxObject → (t.encode v).length ≤ most

theorem boundedProperty (type : Primitive) (bigEndian : Bool) : (property type bigEndian).Bounded type.sizeof :=
  fun v _ _ => (type.toBytesLength bigEndian v).le

variable {option : SerializableSizeOptionArea}

theorem maxContent (typed : option.Typed) {sizeof : Fin (2^16)}
    (positive : 0 < sizeof.val) : option.maxSize * sizeof % 2 ^ 64 = option.maxSize * sizeof ∨
      maxObject ≤ option.maxSize * sizeof % 2 ^ 64 := by
  have narrow := sizeof.isLt
  unfold SerializableSizeOptionArea.Typed at typed
  unfold SerializableSizeOptionArea.maxSize SerializableSizeOptionArea.numericLimit
  cases kind : option.elementType with
  | none =>
    simp only [kind] at typed ⊢
    split
    · refine .inl (Nat.mod_eq_of_lt ?_)
      exact (Nat.mul_lt_mul'' typed.2 narrow).trans_le (by decide)
    · right
      have wrapped : (2 ^ 64 - 1) * sizeof.val = 2 ^ 64 * (sizeof.val - 1) + (2 ^ 64 - sizeof.val) := by
        omega
      rw [wrapped,Nat.mul_add_mod,Nat.mod_eq_of_lt (by omega)]
      unfold maxObject
      omega
  | some type =>
    simp only [kind] at typed ⊢
    have width : 256 ^ type.sizeof ≤ 2 ^ 32 := by cases type <;> decide
    refine .inl (Nat.mod_eq_of_lt ?_)
    refine Nat.lt_of_lt_of_le (Nat.mul_lt_mul'' ?_ narrow) (show 2 ^ 32 * 2 ^ 16 ≤ 2 ^ 64 by decide)
    split <;> omega

theorem boundedElements (bigEndian : Bool) (typed : option.Typed)
    {sizeof : Fin (2^16)} (positive : 0 < sizeof.val) : (elements option bigEndian sizeof).Bounded
      (option.sizeofPrefix + option.maxSize * sizeof % 2 ^ 64) := by
  intro (es : List (Fin sizeof → Byte)) good small
  have length := elementsLength option bigEndian es
  rw [SerializableSizeOptionArea.lengthPrefixLength] at length
  have content : option.counted es.length ≤ option.counted es.length * sizeof :=
    Nat.le_mul_of_pos_right _ positive
  unfold maxObject at small
  have count : option.counted es.length ≤ option.maxSize :=
    SerializableSizeOptionArea.countedMost (by omega) good
  have scaled := Nat.mul_le_mul_right sizeof.val count
  rcases maxContent typed positive with exact | large
  · omega
  · unfold maxObject at large
    omega

theorem boundedCons {first rest : PacketType} {n m : Nat} (one : first.Bounded n) (two : rest.Bounded m) :
    (cons first rest).Bounded (n + m) := by
  intro both good small
  obtain ⟨v,vs⟩ := both
  obtain ⟨left,right⟩ := Bool.and_eq_true_iff.mp good
  rw [consLength] at small ⊢
  exact Nat.add_le_add (one v left (by omega)) (two vs right (by omega))

theorem boundedSum {member : PacketType} {most : Nat} (law : member.Bounded most)
    {vs : List member.Value} (good : vs.all (fun v => member.valid v) = true)
    (small : (vs.map (fun v => (member.encode v).length)).sum < maxObject) :
    (vs.map (fun v => (member.encode v).length)).sum ≤ vs.length * most := by
  induction vs with
  | nil => simp
  | cons v vs ih =>
    rw [List.all_cons,Bool.and_eq_true] at good
    rw [List.map_cons,List.sum_cons] at small ⊢
    have first := law v good.1 (by omega)
    have rest := ih good.2 (by omega)
    rw [List.length_cons,Nat.succ_mul]
    omega

theorem prefixedCount (prefixed : option.elementType ≠ none) (n : Nat) : option.counted n < 2 ^ 64 := by
  unfold SerializableSizeOptionArea.counted
  split
  · contradiction
  · rename_i type _
    refine (Nat.mod_lt _ (Nat.pow_pos (by decide))).trans_le ?_
    cases type <;> decide

theorem boundedVector (option : PrefixedSizeOption) (bigEndian : Bool) {member : PacketType} {most : Nat}
    (law : member.Bounded most) :
    (vector option bigEndian member).Bounded (option.1.sizeofPrefix + option.1.maxSize * most) := by
  intro (vs : List member.Value) good small
  have length := vectorLength option bigEndian vs
  obtain ⟨sized,all⟩ := Bool.and_eq_true_iff.mp good
  have sum := boundedSum law all (by omega)
  have count := SerializableSizeOptionArea.countedMost (prefixedCount option.2 _) sized
  have scaled := Nat.mul_le_mul_right most count
  rw [takeCounted] at sum
  omega

theorem boundedNil (most : Nat) : nil.Bounded most := fun _ _ _ => Nat.zero_le most

theorem Bounded.mono {t : PacketType} {n m : Nat} (bounded : t.Bounded n) (le : n ≤ m) : t.Bounded m :=
  fun v good small => (bounded v good small).trans le

theorem boundedChoose {type : Primitive} {rest : Fin type.range → PacketType} {most : Nat}
    (law : ∀ number, (rest number).Bounded most) : (choose type rest).Bounded (type.sizeof + most) := by
  intro chosen good small
  obtain ⟨number,v⟩ := chosen
  rw [chooseLength] at small ⊢
  exact Nat.add_le_add_left (law number v good (by omega)) _

theorem boundedOptional {property : PacketType} {most : Nat} (law : property.Bounded most) :
    (optional property).Bounded (1 + most) := by
  refine @boundedChoose .bool _ most (fun m_set => ?_)
  split
  · exact boundedNil most
  · exact law

section
variable {properties : List PacketType} {sizes : List Nat}

theorem boundedInOrder (each : List.Forall₂ Bounded properties sizes) : (propertiesInOrder properties).Bounded sizes.sum := by
  induction each with
  | nil => exact boundedNil 0
  | cons one _ ih =>
    rw [List.sum_cons]
    exact boundedCons one ih

theorem boundedWhen (flag : Prop) [Decidable flag]
    (each : List.Forall₂ Bounded properties sizes) :
    List.Forall₂ Bounded (if flag then properties else []) (if flag then sizes else []) := by
  split
  · exact each
  · exact .nil

end

theorem boundedNAck : ClientGameStateNAck.Bounded (1 + 8 + (8 + 8) + (1 + 255 * 10) + (1 + 255 * 2)) := by
  have number : u64.Bounded 8 := boundedProperty .uint64 false
  have ignored : (span SmallBytesArray sizeofIgnoreListEntry).Bounded 2551 :=
    @boundedElements SmallBytesArray false (by decide) _ (by decide)
  have recreated : (span SmallBytesArray 2).Bounded 511 :=
    @boundedElements SmallBytesArray false (by decide) _ (by decide)
  refine Bounded.mono (@boundedChoose .uint8 _ (8 + 16 + 2551 + 511) (fun flags => ?_)) (by decide)
  refine (boundedInOrder (List.rel_append (List.rel_append (List.rel_append (.cons number .nil)
    (boundedWhen _ (.cons number (.cons number .nil)))) (boundedWhen _ (.cons ignored .nil)))
    (boundedWhen _ (.cons recreated .nil)))).mono ?_
  split_ifs <;> simp

end PacketType

namespace Serializable
open PacketType

variable {t : PacketType} (s : Serializable t)

theorem bounded : t.Bounded s.most := by
  induction s with
  | property type bigEndian => exact boundedProperty type bigEndian
  | elements option bigEndian sizeof typed positive => exact boundedElements bigEndian typed positive
  | vector option bigEndian typed m ih => exact boundedVector option bigEndian ih
  | nil => exact boundedNil 0
  | cons one two first second => exact boundedCons first second
  | optional m ih => exact boundedOptional ih
  | clientGameStateNAck => exact boundedNAck

/-! Values as short as they can be. A list that its prefix cannot count is written as a shorter one. -/

def leastWritten : {t : PacketType} → Serializable t → Nat
  | _,property type _ => type.sizeof
  | _,elements option _ sizeof _ _ =>
    option.sizeofPrefix +
      (if option.elementType ≠ none ∧ option.Max = 0 then 0 else option.Min * sizeof)
  | _,vector option _ _ m =>
    option.1.sizeofPrefix + (if option.1.Max = 0 then 0 else option.1.Min * leastWritten m)
  | _,nil => 0
  | _,cons one two => leastWritten one + leastWritten two
  | _,optional _ => 1
  | _,clientGameStateNAck => 1 + 8

def Capped : {t : PacketType} → Serializable t → Prop
  | _,property _ _ => True
  | _,elements option _ _ _ _ => option.elementType = none ∨ option.Min = 0 ∨ 0 < option.Max
  | _,vector option _ _ m => option.1.Min = 0 ∨ least m = 0 ∨ (0 < option.1.Max ∧ Capped m)
  | _,nil => True
  | _,cons one two => Capped one ∧ Capped two
  | _,optional _ => True
  | _,clientGameStateNAck => True

theorem leastWrittenLe : s.leastWritten ≤ s.least := by
  induction s with
  | property type bigEndian => exact Nat.le_refl _
  | elements option bigEndian sizeof typed positive =>
    unfold leastWritten least
    split <;> omega
  | vector option bigEndian typed m ih =>
    have scaled := Nat.mul_le_mul_left option.1.Min ih
    unfold leastWritten least
    split <;> omega
  | nil => exact Nat.le_refl _
  | cons one two first second => exact Nat.add_le_add first second
  | optional m ih => exact Nat.le_refl _
  | clientGameStateNAck => exact Nat.le_refl _

theorem cappedIff : s.Capped ↔ s.leastWritten = s.least := by
  induction s with
  | property type bigEndian => exact iff_of_true trivial rfl
  | elements option bigEndian sizeof typed positive =>
    simp only [Capped,leastWritten,least]
    by_cases cut : option.elementType ≠ none ∧ option.Max = 0
    · have content : 0 = option.Min * sizeof.val ↔ option.Min = 0 := by
        rw [eq_comm,Nat.mul_eq_zero,or_iff_left (Nat.ne_of_gt positive)]
      rw [if_pos cut,Nat.add_left_cancel_iff,content]
      simp [cut.1,cut.2]
    · rw [if_neg cut]
      refine iff_of_true ?_ rfl
      rw [not_and_or,not_not] at cut
      exact cut.imp_right (fun greatest => .inr (Nat.pos_of_ne_zero greatest))
  | vector option bigEndian typed m ih =>
    have small := leastWrittenLe m
    simp only [Capped,leastWritten,least]
    rw [ih]
    by_cases cut : option.1.Max = 0
    · rw [if_pos cut,Nat.add_left_cancel_iff,eq_comm (a := 0),Nat.mul_eq_zero]
      simp [cut]
    · rw [if_neg cut,Nat.add_left_cancel_iff]
      rcases Nat.eq_zero_or_pos option.1.Min with none | some
      · simp [none]
      · rw [Nat.mul_right_inj (Nat.ne_of_gt some)]
        simp only [Nat.ne_of_gt some,Nat.pos_of_ne_zero cut,false_or,true_and]
        exact or_iff_right_of_imp (fun empty => by omega)
  | nil => exact iff_of_true trivial rfl
  | cons one two first second =>
    have left := leastWrittenLe one
    have right := leastWrittenLe two
    simp only [Capped,leastWritten,least]
    rw [first,second]
    omega
  | optional m ih => exact iff_of_true trivial rfl
  | clientGameStateNAck => exact iff_of_true trivial rfl

variable {option : SerializableSizeOptionArea}

theorem countedWhole (typed : option.Typed) {n : Nat}
    (valid : option.ValidateSize n = true) (whole : ¬ (option.elementType ≠ none ∧ option.Max = 0)) :
    option.counted n = n := by
  have bound := (SerializableSizeOptionArea.validIff n).mp valid
  unfold SerializableSizeOptionArea.Typed at typed
  unfold SerializableSizeOptionArea.counted
  cases kind : option.elementType with
  | none => rfl
  | some type =>
    simp only [kind] at typed ⊢
    rw [kind] at whole
    have greatest : option.Max ≠ 0 := fun none => whole ⟨by simp,none⟩
    exact Nat.mod_eq_of_lt (by omega)

theorem eachWritten {member : PacketType} {size : Nat}
    (law : ∀ v : member.Value, member.valid v = true → size ≤ (member.encode v).length)
    {vs : List member.Value} (good : vs.all (fun v => member.valid v) = true) :
    vs.length * size ≤ (vs.map (fun v => (member.encode v).length)).sum := by
  induction vs with
  | nil => simp
  | cons v vs ih =>
    rw [List.all_cons,Bool.and_eq_true] at good
    have first := law v good.1
    have rest := ih good.2
    rw [List.length_cons,List.map_cons,List.sum_cons,Nat.succ_mul]
    omega

theorem chooseAtLeast {type : Primitive} {rest : Fin type.range → PacketType} {size : Nat}
    (law : ∀ number (v : (rest number).Value), size ≤ ((rest number).encode v).length)
    (v : (choose type rest).Value) : type.sizeof + size ≤ ((choose type rest).encode v).length := by
  obtain ⟨number,fields⟩ := v
  rw [chooseLength]
  exact Nat.add_le_add_left (law number fields) _

theorem writtenLeast (v : t.Value) (good : t.valid v = true) : s.leastWritten ≤ (t.encode v).length := by
  induction s with
  | property type bigEndian => exact (type.toBytesLength bigEndian v).ge
  | elements option bigEndian sizeof typed positive =>
    have bound := ((SerializableSizeOptionArea.validIff _).mp good).1
    have length := elementsLength option bigEndian v
    rw [SerializableSizeOptionArea.lengthPrefixLength] at length
    rw [length,leastWritten]
    refine Nat.add_le_add_left ?_ _
    split
    · exact Nat.zero_le _
    · rename_i whole
      have whole := countedWhole typed good whole
      rw [whole]
      exact Nat.mul_le_mul_right _ bound
  | @vector option bigEndian member typed m ih =>
    have length := vectorLength option bigEndian v
    obtain ⟨sized,all⟩ := Bool.and_eq_true_iff.mp good
    have bound := ((SerializableSizeOptionArea.validIff _).mp sized).1
    have sum := eachWritten ih all
    rw [length,leastWritten]
    refine Nat.add_le_add_left ?_ _
    split
    · exact Nat.zero_le _
    · rename_i greatest
      have whole := countedWhole typed sized (fun cut => greatest cut.2)
      have counted := takeCounted option.1 (v : List member.Value)
      rw [whole] at counted
      rw [← counted] at bound
      rw [whole] at sum ⊢
      exact (Nat.mul_le_mul_right _ bound).trans sum
  | nil => exact Nat.zero_le _
  | cons one two first second =>
    obtain ⟨left,right⟩ := Bool.and_eq_true_iff.mp good
    exact (Nat.add_le_add (first v.1 left) (second v.2 right)).trans (consLength ..).ge
  | optional m ih => exact @chooseAtLeast .bool _ 0 (fun _ _ => Nat.zero_le _) v
  | clientGameStateNAck =>
    refine @chooseAtLeast .uint8 _ 8 (fun flags fields => ?_) v
    exact (Nat.le_add_right 8 _).trans (consLength u64 _ fields.1 fields.2).ge

theorem freshFlags : 8 < Primitive.range .uint8 := by decide
theorem freshFrame : 0 < Primitive.range .uint64 := by decide

def freshNAck : ClientGameStateNAck.Value := ⟨⟨8,freshFlags⟩,⟨0,freshFrame⟩,()⟩

theorem cutValid (typed : option.Typed) (cut : option.elementType ≠ none ∧ option.Max = 0) :
    ∃ n, option.ValidateSize n = true ∧ option.counted n = 0 := by
  obtain ⟨type,prefixed⟩ := Option.ne_none_iff_exists'.mp cut.1
  refine ⟨256 ^ type.sizeof,?_,?_⟩
  · simp only [SerializableSizeOptionArea.Typed,prefixed] at typed
    rw [SerializableSizeOptionArea.validIff]
    exact ⟨Nat.le_of_lt typed.1,.inl cut.2⟩
  · simp only [SerializableSizeOptionArea.counted,prefixed,Nat.mod_self]

section
variable {member : PacketType} (option : PrefixedSizeOption) (bigEndian : Bool)

theorem replicateLength (n : Nat) (v : member.Value) :
    ((PacketType.vector option bigEndian member).encode (List.replicate n v)).length =
      option.1.sizeofPrefix + option.1.counted n * (member.encode v).length := by
  have length := vectorLength option bigEndian (List.replicate n v)
  rw [length,List.length_replicate,List.take_replicate,Nat.min_eq_left (countedLe option.1 n),
    List.map_replicate,List.sum_replicate_nat]

theorem replicateValid {n : Nat} {v : member.Value} (sized : option.1.ValidateSize n = true)
    (good : option.1.counted n = 0 ∨ member.valid v = true) :
    (PacketType.vector option bigEndian member).valid (List.replicate n v) = true := by
  have length : (List.replicate n v).length = n := List.length_replicate
  refine Bool.and_eq_true_iff.mpr ⟨by rw [length]; exact sized,?_⟩
  rw [length,List.take_replicate,Nat.min_eq_left (countedLe option.1 n),List.all_eq_true]
  intro u mem
  rcases good with none | good
  · rw [none] at mem
    contradiction
  · rw [List.eq_of_mem_replicate mem]
    exact good

end

theorem leastAttained {t : PacketType} (s : Serializable t) (v : t.Value) (good : t.valid v = true) :
    ∃ v' : t.Value, t.valid v' = true ∧ (t.encode v').length = s.leastWritten := by
  induction s with
  | property type bigEndian => exact ⟨v,rfl,type.toBytesLength bigEndian v⟩
  | elements option bigEndian sizeof typed positive =>
    have length := fun n => elementsLength option bigEndian (List.replicate n (fun _ : Fin sizeof => (0 : Byte)))
    simp only [List.length_replicate,SerializableSizeOptionArea.lengthPrefixLength] at length
    have sized := fun n => congrArg option.ValidateSize
      (@List.length_replicate (Fin sizeof → Byte) n (fun _ => 0))
    rw [leastWritten]
    by_cases cut : option.elementType ≠ none ∧ option.Max = 0
    · obtain ⟨n,valid,none⟩ := cutValid typed cut
      refine ⟨List.replicate n (fun _ => 0),(sized n).trans valid,?_⟩
      rw [length,none,if_pos cut,Nat.zero_mul]
    · have valid := SerializableSizeOptionArea.validMin good
      refine ⟨List.replicate option.Min (fun _ => 0),(sized option.Min).trans valid,?_⟩
      rw [length,countedWhole typed valid cut,if_neg cut]
  | @vector option bigEndian member typed m ih =>
    obtain ⟨sized,all⟩ := Bool.and_eq_true_iff.mp good
    have valid := SerializableSizeOptionArea.validMin sized
    have bound := ((SerializableSizeOptionArea.validIff _).mp sized).1
    rw [leastWritten]
    cases v with
    | nil =>
      have none : option.1.Min = 0 := Nat.le_zero.mp bound
      refine ⟨[],good,?_⟩
      have length := vectorLength option bigEndian ([] : List member.Value)
      rw [length,none]
      simp
    | cons v vs =>
      by_cases cut : option.1.Max = 0
      · obtain ⟨n,long,none⟩ := cutValid typed ⟨option.2,cut⟩
        refine ⟨List.replicate n v,replicateValid option bigEndian long (.inl none),?_⟩
        rw [replicateLength,none,if_pos cut,Nat.zero_mul]
      · have whole := countedWhole typed sized (fun both => cut both.2)
        rw [whole] at all
        have first : member.valid v = true := by simpa using (List.all_eq_true.mp all) v (by simp)
        obtain ⟨v',good',length'⟩ := ih v first
        refine ⟨List.replicate option.1.Min v',replicateValid option bigEndian valid (.inr good'),?_⟩
        rw [replicateLength,length',countedWhole typed valid (fun both => cut both.2),if_neg cut]
  | nil => exact ⟨(),rfl,rfl⟩
  | cons one two first second =>
    obtain ⟨left,right⟩ := Bool.and_eq_true_iff.mp good
    obtain ⟨v₁,good₁,length₁⟩ := first v.1 left
    obtain ⟨v₂,good₂,length₂⟩ := second v.2 right
    refine ⟨(v₁,v₂),Bool.and_eq_true_iff.mpr ⟨good₁,good₂⟩,?_⟩
    rw [consLength,length₁,length₂,leastWritten]
  | optional m ih => exact ⟨⟨⟨0,by decide⟩,()⟩,rfl,rfl⟩
  | clientGameStateNAck => exact ⟨freshNAck,rfl,rfl⟩

end Serializable
end Citizen.Net
