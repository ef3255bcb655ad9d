import Citizen.Net.SizeBounds
import Mathlib.Order.Iterate

/-! How few bytes a type can be read from. A length prefix that is not all there takes its
size from memory that nobody wrote, so it may need fewer than its own width. -/
namespace Citizen.Net
open BitField (Byte)
open ByteReader (At Moved)

def starve (width content : Nat) : Nat := if content < width then content else width + content

theorem starveLe (width content : Nat) : starve width content ≤ width + content := by
  unfold starve
  split <;> omega

theorem starveGe (width content : Nat) : content ≤ starve width content := by
  unfold starve
  split <;> omega

theorem starveMono (width : Nat) : Monotone (starve width) := by
  intro content more le
  unfold starve
  split <;> split <;> omega

theorem starveIff {width content most : Nat} (_le : content ≤ most) :
    starve width content = width + most ↔ width ≤ most ∧ content = most := by
  unfold starve
  split <;> omega

theorem iterateGe {f : Nat → Nat} (grows : ∀ n, n ≤ f n) (k n : Nat) : n ≤ f^[k] n := by
  induction k with
  | zero => exact Nat.le_refl n
  | succ k ih =>
    rw [Function.iterate_succ_apply']
    exact ih.trans (grows _)

theorem iterateMore {f : Nat → Nat} (grows : ∀ n, n ≤ f n) {k l : Nat} (le : k ≤ l) (n : Nat) :
    f^[k] n ≤ f^[l] n := by
  obtain ⟨more,rfl⟩ := Nat.exists_eq_add_of_le' le
  rw [Function.iterate_add_apply]
  exact iterateGe grows more _

theorem iterateLe {f : Nat → Nat} {size : Nat} (slow : ∀ n, f n ≤ size + n) (k n : Nat) : f^[k] n ≤ k * size + n := by
  induction k with
  | zero => simp
  | succ k ih =>
    rw [Function.iterate_succ_apply',Nat.succ_mul]
    have step := slow (f^[k] n)
    omega

namespace Serializable

def leastRead : {t : PacketType} → Serializable t → Nat → Nat
  | _,property type _,after => type.sizeof + after
  | _,elements option _ sizeof _ _,after => starve option.sizeofPrefix (option.Min * sizeof + after)
  | _,vector option _ _ m,after => starve option.1.sizeofPrefix ((leastRead m)^[option.1.Min] after)
  | _,nil,after => after
  | _,cons one two,after => leastRead one (leastRead two after)
  | _,optional _,after => 1 + after
  | _,clientGameStateNAck,after => 1 + 8 + after

def Guarded : {t : PacketType} → Serializable t → Nat → Prop
  | _,property _ _,_ => True
  | _,elements option _ sizeof _ _,after => option.sizeofPrefix ≤ option.Min * sizeof + after
  | _,vector option _ _ m,after =>
    option.1.sizeofPrefix ≤ option.1.Min * least m + after ∧ (option.1.Min = 0 ∨ Guarded m after)
  | _,nil,_ => True
  | _,cons one two,after => Guarded one (least two + after) ∧ Guarded two after
  | _,optional _,_ => True
  | _,clientGameStateNAck,_ => True

section
variable {t : PacketType} (s : Serializable t)

theorem leastReadMono : Monotone s.leastRead := by
  induction s with
  | property type bigEndian => exact fun _ _ le => Nat.add_le_add_left le _
  | elements option bigEndian sizeof typed positive =>
    exact fun _ _ le => starveMono _ (Nat.add_le_add_left le _)
  | vector option bigEndian typed m ih => exact fun _ _ le => starveMono _ (ih.iterate _ le)
  | nil => exact monotone_id
  | cons one two first second => exact first.comp second
  | optional m ih => exact fun _ _ le => Nat.add_le_add_left le _
  | clientGameStateNAck => exact fun _ _ le => Nat.add_le_add_left le _

theorem leastReadGe (after : Nat) : after ≤ s.leastRead after := by
  induction s generalizing after with
  | property type bigEndian => exact Nat.le_add_left _ _
  | elements option bigEndian sizeof typed positive => exact (Nat.le_add_left _ _).trans (starveGe _ _)
  | vector option bigEndian typed m ih => exact (iterateGe ih _ _).trans (starveGe _ _)
  | nil => exact Nat.le_refl _
  | cons one two first second => exact (second after).trans (first _)
  | optional m ih => exact Nat.le_add_left _ _
  | clientGameStateNAck => exact Nat.le_add_left _ _

theorem leastReadLe (after : Nat) : s.leastRead after ≤ s.least + after := by
  induction s generalizing after with
  | property type bigEndian => exact Nat.le_refl _
  | elements option bigEndian sizeof typed positive =>
    rw [least,Nat.add_assoc]
    exact starveLe _ _
  | vector option bigEndian typed m ih =>
    rw [least,Nat.add_assoc]
    exact (starveMono _ (iterateLe ih _ _)).trans (starveLe _ _)
  | nil => exact (Nat.zero_add _).ge
  | cons one two first second =>
    rw [least,Nat.add_assoc]
    exact (first _).trans (Nat.add_le_add_left (second after) _)
  | optional m ih => exact Nat.le_refl _
  | clientGameStateNAck => exact Nat.le_refl _

theorem guardedMono {after more : Nat} (le : after ≤ more) (guarded : s.Guarded after) : s.Guarded more := by
  induction s generalizing after more with
  | property type bigEndian => trivial
  | elements option bigEndian sizeof typed positive => exact guarded.trans (Nat.add_le_add_left le _)
  | vector option bigEndian typed m ih =>
    exact ⟨guarded.1.trans (Nat.add_le_add_left le _),guarded.2.imp_right (ih le)⟩
  | nil => trivial
  | cons one two first second =>
    exact ⟨first (Nat.add_le_add_left le _) guarded.1,second le guarded.2⟩
  | optional m ih => trivial
  | clientGameStateNAck => trivial

end

theorem iterateGuarded {t : PacketType} {m : Serializable t}
    (law : ∀ after, m.Guarded after ↔ m.leastRead after = m.least + after) (k after : Nat) :
    m.leastRead^[k] after = k * m.least + after ↔ k = 0 ∨ m.Guarded after := by
  constructor
  · intro whole
    cases k with
    | zero => exact .inl rfl
    | succ k =>
      right
      rw [Function.iterate_succ_apply,Nat.succ_mul] at whole
      have rest := iterateLe m.leastReadLe k (m.leastRead after)
      have first := m.leastReadLe after
      exact (law after).mpr (by omega)
  · intro guarded
    rcases guarded with rfl | guarded
    · simp
    · induction k with
      | zero => simp
      | succ k ih =>
        rw [Function.iterate_succ_apply',ih,
          (law _).mp (m.guardedMono (Nat.le_add_left after (k * m.least)) guarded),Nat.succ_mul]
        omega

theorem guardedIff {t : PacketType} (s : Serializable t) (after : Nat) :
    s.Guarded after ↔ s.leastRead after = s.least + after := by
  induction s generalizing after with
  | property type bigEndian => exact iff_of_true trivial rfl
  | elements option bigEndian sizeof typed positive =>
    rw [leastRead,least,Nat.add_assoc,starveIff (Nat.le_refl _),Guarded]
    simp
  | vector option bigEndian typed m ih =>
    rw [leastRead,least,Nat.add_assoc,starveIff (iterateLe m.leastReadLe _ _),iterateGuarded ih,Guarded]
  | nil => exact iff_of_true trivial (Nat.zero_add _).symm
  | cons one two first second =>
    rw [leastRead,least,Guarded,first,second,Nat.add_assoc]
    constructor
    · intro both
      rw [both.2,both.1]
    · intro whole
      have outer := one.leastReadLe (two.leastRead after)
      have inner := two.leastReadLe after
      have same : two.leastRead after = two.least + after := by omega
      rw [same] at whole
      exact ⟨whole,same⟩
  | optional m ih => exact iff_of_true trivial rfl
  | clientGameStateNAck => exact iff_of_true trivial rfl

end Serializable

/-! What a success needed. -/

def Needs {α : Type} (f : Reading α) (need : Nat → Nat) : Prop :=
  ∀ r a r', r.Contained → f r = (.success a,r') →
    r'.Contained ∧ need r'.GetRemaining ≤ r.GetRemaining

section
variable {α β : Type} {need need' : Nat → Nat}
open Reading

variable {first : Reading α}

theorem andThenSuccess {next : α → Reading β} {r r' b} (found : first.andThen next r = (.success b,r')) :
    ∃ a r₁, first r = (.success a,r₁) ∧ next a r₁ = (.success b,r') := by
  unfold Reading.andThen at found
  split at found
  · rename_i a r₁ here
    exact ⟨a,r₁,here,found⟩
  · cases congrArg Prod.fst found
  · cases congrArg Prod.fst found

theorem needsDone (v : α) : Needs (done v) id := by
  intro r a r' contained found
  cases found
  exact ⟨contained,Nat.le_refl _⟩

theorem Needs.andThen {next : α → Reading β} (one : Needs first need)
    (mono : Monotone need) (two : ∀ a, Needs (next a) need') : Needs (first.andThen next) (need ∘ need') := by
  intro r b r' contained found
  obtain ⟨a,r₁,here,later⟩ := andThenSuccess found
  obtain ⟨inside,least⟩ := one r a r₁ contained here
  obtain ⟨inside',least'⟩ := two a r₁ b r' inside later
  exact ⟨inside',(mono least').trans least⟩

theorem Needs.mapped (one : Needs first need) (mono : Monotone need) (make : α → β) :
    Needs (first.andThen (fun a => done (make a))) need :=
  one.andThen mono (fun a => needsDone (make a))

theorem Needs.weaken {f : Reading α} (needs : Needs f need) (less : ∀ n, need' n ≤ need n) : Needs f need' :=
  fun r a r' contained found =>
    ⟨(needs r a r' contained found).1,(less _).trans (needs r a r' contained found).2⟩

section
variable {length : Nat} (small : length < 2 ^ 63)
include small

theorem needsField : Needs (field length) (length + ·) := by
  intro r bytes r' contained found
  unfold field at found
  cases got : r.Field length with
  | none =>
    rw [got] at found
    cases congrArg Prod.fst found
  | some both =>
    obtain ⟨value,next⟩ := both
    rw [got] at found
    cases found
    obtain ⟨inside,data,-,width⟩ := fieldContained small contained got
    refine ⟨inside,?_⟩
    have addressable := contained.addressable
    unfold maxObject at addressable
    unfold ByteReader.Field ByteReader.CanRead at got
    split at got
    · rename_i fits
      have fits := of_decide_eq_true fits
      have here := contained.inside
      cases got
      unfold ByteReader.GetRemaining
      dsimp only
      omega
    · contradiction

theorem needsFieldThen {next : List Byte → Reading β}
    (two : ∀ bytes, Needs (next bytes) need) : Needs ((field length).andThen next) ((length + ·) ∘ need) :=
  (needsField small).andThen (fun _ _ le => Nat.add_le_add_left le _) two

theorem fieldMissing {r : ByteReader} (contained : r.Contained)
    (missing : r.Field length = none) : r.GetRemaining < length := by
  have addressable := contained.addressable
  have inside := contained.inside
  unfold maxObject at addressable
  unfold ByteReader.Field ByteReader.CanRead at missing
  split at missing
  · contradiction
  · rename_i past
    rw [decide_eq_true_eq] at past
    unfold ByteReader.GetRemaining
    omega

end

theorem needsEach {element : Reading α} (one : Needs element need) (mono : Monotone need) (n : Nat) :
    Needs (each element n) need^[n] := by
  induction n with
  | zero => exact needsDone []
  | succ n ih =>
    rw [Function.iterate_succ']
    refine one.andThen mono (fun v => ?_)
    exact Needs.andThen ih (mono.iterate n) (fun rest => needsDone _)

end

theorem needsSize {option : SerializableSizeOptionArea} {bigEndian : Bool} {r r' : ByteReader} {size : Nat}
    (contained : r.Contained) (found : option.read bigEndian r = (.success size,r')) :
    r'.Contained ∧ option.ValidateSize size = true ∧
      ∀ content ≤ r'.GetRemaining, starve option.sizeofPrefix content ≤ r.GetRemaining := by
  have inside := (@SerializableSizeOptionArea.tameRead option bigEndian r contained).1
  rw [found] at inside
  refine ⟨inside,?_⟩
  unfold SerializableSizeOptionArea.read at found
  dsimp only at found
  split at found
  · rename_i good
    cases found
    refine ⟨good,fun content fits => ?_⟩
    unfold SerializableSizeOptionArea.received at fits
    unfold SerializableSizeOptionArea.sizeofPrefix
    cases kind : option.elementType with
    | none =>
      simp only [kind] at fits ⊢
      exact (starveLe 0 content).trans ((Nat.zero_add _).trans_le fits)
    | some type =>
      simp only [kind] at fits ⊢
      have small : type.sizeof < 2 ^ 63 := by cases type <;> decide
      cases got : r.Field type.sizeof with
      | none =>
        simp only [got] at fits
        have short := fieldMissing small contained got
        have kept : r.takeGarbage.2.GetRemaining = r.GetRemaining := rfl
        unfold starve
        split <;> omega
      | some both =>
        obtain ⟨bytes,next⟩ := both
        simp only [got] at fits
        have least := (needsField small r bytes next contained (by rw [Reading.field,got])).2
        have most := starveLe type.sizeof content
        dsimp only at least
        omega
  · cases congrArg Prod.fst found

namespace PacketType
open Reading

theorem needsElements (option : SerializableSizeOptionArea) (bigEndian : Bool) (sizeof : Fin (2^16)) :
    Needs (elements option bigEndian sizeof).read
      (fun after => starve option.sizeofPrefix (option.Min * sizeof + after)) := by
  intro r es r' contained found
  obtain ⟨size,r₁,sized,content⟩ := andThenSuccess found
  obtain ⟨inside,good,bound⟩ := needsSize contained sized
  have atLeast := ((SerializableSizeOptionArea.validIff size).mp good).1
  have narrow := (@tameContent sizeof size (SerializableSizeOptionArea.readBounded contained sized)).1
  have scaled := Nat.mul_le_mul_right sizeof.val atLeast
  have rest : r'.Contained ∧ size * sizeof + r'.GetRemaining ≤ r₁.GetRemaining := by
    split at content
    · rename_i none
      cases content
      rw [none,Nat.zero_mul,Nat.zero_add]
      exact ⟨inside,Nat.le_refl _⟩
    · rw [Nat.mod_eq_of_lt (Nat.lt_trans narrow (by decide))] at content
      exact needsFieldThen narrow (fun _ => needsDone _) r₁ es r' inside content
  exact ⟨rest.1,bound _ (by omega)⟩

theorem needsVector (option : PrefixedSizeOption) (bigEndian : Bool) {member : PacketType} {need : Nat → Nat}
    (one : Needs member.read need) (mono : Monotone need) (grows : ∀ n, n ≤ need n) :
    Needs (vector option bigEndian member).read
      (fun after => starve option.1.sizeofPrefix (need^[option.1.Min] after)) := by
  intro r vs r' contained found
  obtain ⟨size,r₁,sized,content⟩ := andThenSuccess found
  obtain ⟨inside,good,bound⟩ := needsSize contained sized
  have atLeast := ((SerializableSizeOptionArea.validIff size).mp good).1
  obtain ⟨inside',least⟩ := needsEach one mono size r₁ vs r' inside content
  exact ⟨inside',bound _ ((iterateMore grows atLeast _).trans least)⟩

theorem needsAny (t : PacketType) : Needs t.read id := by
  induction t with
  | property type bigEndian =>
    refine (needsFieldThen ?_ (fun _ => needsDone _)).weaken (fun n => Nat.le_add_left n _)
    cases type <;> decide
  | elements option bigEndian sizeof =>
    exact (needsElements option bigEndian sizeof).weaken
      (fun n => (Nat.le_add_left n _).trans (starveGe _ _))
  | vector option bigEndian member one =>
    exact (needsVector option bigEndian one monotone_id Nat.le_refl).weaken
      (fun n => (iterateGe Nat.le_refl _ n).trans (starveGe _ _))
  | nil => exact needsDone ()
  | cons first rest one two =>
    exact one.andThen monotone_id (fun _ => two.mapped monotone_id _)
  | choose type rest law =>
    refine (needsFieldThen ?_ (fun bytes => (law _).mapped monotone_id _)).weaken (fun n => Nat.le_add_left n _)
    cases type <;> decide

end PacketType

namespace Serializable
open PacketType Reading

theorem needs {t : PacketType} (s : Serializable t) : Needs t.read s.leastRead := by
  induction s with
  | property type bigEndian =>
    refine needsFieldThen ?_ (fun _ => needsDone _)
    cases type <;> decide
  | elements option bigEndian sizeof typed positive => exact needsElements option bigEndian sizeof
  | vector option bigEndian typed m ih => exact needsVector option bigEndian ih m.leastReadMono m.leastReadGe
  | nil => exact needsDone ()
  | cons one two first second =>
    exact first.andThen one.leastReadMono (fun _ => second.mapped two.leastReadMono _)
  | optional m ih =>
    exact needsFieldThen (by decide : 1 < 2 ^ 63) (fun _ => (needsAny _).mapped monotone_id _)
  | clientGameStateNAck =>
    have add : Monotone (8 + · : Nat → Nat) := fun _ _ le => Nat.add_le_add_left le _
    have number : Needs u64.read (8 + ·) := needsFieldThen (by decide : 8 < 2 ^ 63) (fun _ => needsDone _)
    have fields : ∀ rest : PacketType, Needs (PacketType.cons u64 rest).read (8 + ·) := fun rest =>
      number.andThen add (fun _ => (needsAny rest).mapped monotone_id _)
    have whole : Needs ClientGameStateNAck.read ((1 + ·) ∘ ((8 + ·) ∘ id)) :=
      needsFieldThen (by decide : 1 < 2 ^ 63) (fun _ => (fields _).mapped add _)
    exact whole.weaken (fun n => (Nat.add_assoc 1 8 n).le)

end Serializable
end Citizen.Net
