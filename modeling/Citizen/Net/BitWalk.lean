import Citizen.Net.MessageBufferCodec

/-! A writer of presence bits and bodies against a reader that walks what it left, when the buffer may run full:
a bit or a body that does not fit is dropped and the writer goes on. -/
namespace Citizen.Rl
open BitField

def MessageBuffer.take (b : MessageBuffer) (length : Nat) : List Bool × MessageBuffer :=
  ((List.range length).map (fun i => bitAt b.data (b.curBit + i)),b.setCurrentBit (b.curBit + length))

def MessageBuffer.full (b : MessageBuffer) : Nat := 8 * b.data.length

structure MessageBuffer.After (b b' : MessageBuffer) : Prop where
  sized : b'.Sized
  length : b'.data.length = b.data.length
  cursor : b.curBit ≤ b'.curBit
  bounded : b'.curBit ≤ b.full ∨ b'.curBit = b.curBit
  settled : ∀ p < b.curBit, bitAt b'.data p = bitAt b.data p

structure MessageBuffer.Copies (d b : MessageBuffer) : Prop where
  length : d.data.length = b.data.length
  same : ∀ p < b.curBit, bitAt d.data p = bitAt b.data p

abbrev Reader := MessageBuffer → List (List Bool) × MessageBuffer

def Reader.flagged (read : Reader) : Reader := fun d =>
  let (bit,d) := d.readBit
  if bit ≠ 0 then read d else ([],d)

def Reader.Stops (read : Reader) : Prop := ∀ d : MessageBuffer, d.full ≤ d.curBit → read d = ([],d)

structure Walk (write : MessageBuffer → MessageBuffer) (read : Reader) (sent : List (List Bool)) (width reach : Nat) : Prop where
  some : sent ≠ [] → 0 < reach
  within : reach ≤ width
  after : ∀ b : MessageBuffer, b.Sized → b.After (write b)
  moves : ∀ d : MessageBuffer, d.curBit ≤ (read d).2.curBit ∧ (read d).2.data = d.data
  fits : ∀ b d : MessageBuffer, b.Sized → b.curBit ≤ b.full → (sent ≠ [] → b.curBit + reach ≤ b.full) → d.Copies (write b) → d.curBit = b.curBit →
    (write b).curBit = min (b.curBit + width) b.full ∧ read d = (sent,d.setCurrentBit (write b).curBit)
  short : ∀ b d : MessageBuffer, b.Sized → b.curBit ≤ b.full → sent ≠ [] → b.full < b.curBit + reach → d.Copies (write b) → d.curBit = b.curBit →
    b.full < (read d).2.curBit ∨ (read d).2.curBit = b.full ∧ (read d).1.length < sent.length

theorem MessageBuffer.After.full {b b' : MessageBuffer} (after : b.After b') : b'.full = b.full := by
  rw [MessageBuffer.full,after.length,MessageBuffer.full]

theorem MessageBuffer.After.refl {b : MessageBuffer} (sized : b.Sized) : b.After b :=
  ⟨sized,rfl,Nat.le_refl _,.inr rfl,fun _ _ => rfl⟩

theorem MessageBuffer.After.trans {a b c : MessageBuffer} (former : a.After b) (latter : b.After c) : a.After c where
  sized := latter.sized
  length := latter.length.trans former.length
  cursor := former.cursor.trans latter.cursor
  bounded := by
    have same := former.full
    have := former.bounded
    have := latter.bounded
    omega
  settled p before := (latter.settled p (before.trans_le former.cursor)).trans (former.settled p before)

theorem MessageBuffer.Copies.earlier {b b' d : MessageBuffer} (copies : d.Copies b') (after : b.After b') : d.Copies b where
  length := copies.length.trans after.length
  same p before := (copies.same p (before.trans_le after.cursor)).trans (after.settled p before)

theorem MessageBuffer.Copies.at {b d : MessageBuffer} (copies : d.Copies b) (start : Nat) : (d.setCurrentBit start).Copies b :=
  ⟨copies.length,copies.same⟩

theorem MessageBuffer.Copies.full {b b' d : MessageBuffer} (copies : d.Copies b') (after : b.After b') : d.full = b.full := by
  rw [MessageBuffer.full,copies.length,after.length,MessageBuffer.full]

namespace Walk
variable {write later : MessageBuffer → MessageBuffer} {read next : Reader} {sent others : List (List Bool)} {width reach width' reach' : Nat}

theorem skip : Walk id (fun d => ([],d)) [] 0 0 where
  some sent := absurd rfl sent
  within := Nat.le_refl _
  after b sized := .refl sized
  moves d := ⟨Nat.le_refl _,rfl⟩
  fits b d sized inside _ _ start := ⟨by simp only [id]; omega,by simp only [id,← start]; rfl⟩
  short b d _ _ sent := absurd rfl sent

theorem append (first : Walk write read sent width reach) (second : Walk later next others width' reach') (stops : Reader.Stops next) :
    Walk (fun b => later (write b)) (fun d => ((read d).1 ++ (next (read d).2).1,(next (read d).2).2)) (sent ++ others)
      (width + width') (if others = [] then reach else width + reach') where
  some any := by
    split
    · rename_i empty
      exact first.some (by simpa [empty] using any)
    · rename_i more
      have := second.some more
      omega
  within := by
    have := first.within
    have := second.within
    split <;> omega
  after b sized := (first.after b sized).trans (second.after _ (first.after b sized).sized)
  moves d := ⟨(first.moves d).1.trans (second.moves _).1,(second.moves _).2.trans (first.moves d).2⟩
  fits b d sized inside room copies start := by
    have afterFirst := first.after b sized
    have same := afterFirst.full
    have within := first.within
    have roomFirst : sent ≠ [] → b.curBit + reach ≤ b.full := by
      intro some
      have := room (List.append_ne_nil_of_left_ne_nil some _)
      split at this <;> omega
    obtain ⟨cursor,got⟩ := first.fits b d sized inside roomFirst (copies.earlier (second.after _ afterFirst.sized)) start
    have roomSecond : others ≠ [] → (write b).curBit + reach' ≤ (write b).full := by
      intro more
      have := room (List.append_ne_nil_of_right_ne_nil _ more)
      rw [if_neg more] at this
      omega
    obtain ⟨cursor',got'⟩ := second.fits (write b) (d.setCurrentBit (write b).curBit) afterFirst.sized (by omega) roomSecond (copies.at _) rfl
    refine ⟨by rw [cursor',same]; omega,?_⟩
    rw [got,got']
    rfl
  short b d sized inside any finished copies start := by
    have afterFirst := first.after b sized
    have same := afterFirst.full
    have earlier := copies.earlier (second.after _ afterFirst.sized)
    by_cases roomFirst : sent ≠ [] → b.curBit + reach ≤ b.full
    · obtain ⟨cursor,got⟩ := first.fits b d sized inside roomFirst earlier start
      split at finished
      · rename_i empty
        have := roomFirst (by simpa [empty] using any)
        omega
      · rename_i more
        have positive := second.some more
        have behind := second.short (write b) (d.setCurrentBit (write b).curBit) afterFirst.sized (by omega) more (by omega)
          (copies.at _) rfl
        rw [got,List.length_append,List.length_append]
        dsimp only
        omega
    · rw [Classical.not_imp] at roomFirst
      have broken := first.short b d sized inside roomFirst.1 (by omega) earlier start
      have moved := second.moves (read d).2
      rw [List.length_append,List.length_append]
      dsimp only
      rcases broken with beyond | ⟨ended,fewer⟩
      · exact .inl (by omega)
      · have full : (read d).2.full = b.full := by
          rw [MessageBuffer.full,(first.moves d).2,earlier.length,afterFirst.length,MessageBuffer.full]
        rw [stops (read d).2 (by omega)]
        exact .inr ⟨ended,by simp only [List.length_nil]; omega⟩

theorem appendStops (first : Reader.Stops read) (second : Reader.Stops next) :
    Reader.Stops (fun d => ((read d).1 ++ (next (read d).2).1,(next (read d).2).2)) := by
  intro d full
  simp only [first d full,second d full,List.append_nil]

variable {b : MessageBuffer}

theorem writeBitInside (bit : Bool) (sized : b.Sized) (inside : b.curBit < b.full) :
    b.After (b.writeBit bit.toNat).2 ∧ (b.writeBit bit.toNat).2.curBit = b.curBit + 1 ∧ bitAt (b.writeBit bit.toNat).2.data b.curBit = bit := by
  unfold MessageBuffer.Sized at sized
  unfold MessageBuffer.full at inside
  obtain ⟨b',written,advanced,there⟩ := bitWritten bit (by omega) (show b.curBit + 1 ≤ b.maxBit by omega)
  rw [written]
  refine ⟨⟨?_,advanced.length,by rw [advanced.cursor]; omega,.inl ?_,fun p before => advanced.outside p (.inl before)⟩,advanced.cursor,there⟩
  · rw [MessageBuffer.Sized,advanced.maxBit,advanced.length,sized]
  · rw [advanced.cursor,MessageBuffer.full]
    omega

theorem writeBitFull (bit : Nat) (full : b.full ≤ b.curBit) : (b.writeBit bit).2 = b := by
  unfold MessageBuffer.full at full
  simp only [MessageBuffer.writeBit]
  rw [if_pos (by omega)]

theorem readBitInside {d : MessageBuffer} (inside : d.curBit < d.full) :
    d.readBit = ((bitAt d.data d.curBit).toNat,d.setCurrentBit (d.curBit + 1)) := by
  unfold MessageBuffer.full at inside
  unfold MessageBuffer.readBit
  rw [if_neg (by omega)]
  rfl

theorem readBitFull {d : MessageBuffer} (full : d.full ≤ d.curBit) : d.readBit = (0,d) := by
  unfold MessageBuffer.full at full
  unfold MessageBuffer.readBit
  rw [if_pos (by omega)]

theorem writeBitAfter (bit : Bool) (sized : b.Sized) : b.After (b.writeBit bit.toNat).2 := by
  by_cases inside : b.curBit < b.full
  · exact (writeBitInside bit sized inside).1
  · rw [writeBitFull bit.toNat (by omega)]
    exact .refl sized

theorem readBitMoves (d : MessageBuffer) : d.curBit ≤ d.readBit.2.curBit ∧ d.readBit.2.data = d.data := by
  by_cases inside : d.curBit < d.full
  · rw [readBitInside inside]
    exact ⟨Nat.le_succ _,rfl⟩
  · rw [readBitFull (by omega)]
    exact ⟨Nat.le_refl _,rfl⟩

theorem bitReadBack {b b' d : MessageBuffer} (bit : Bool) (sized : b.Sized) (space : b.curBit < b.full)
    (after : (b.writeBit bit.toNat).2.After b') (copies : d.Copies b') (start : d.curBit = b.curBit) :
    d.readBit = (bit.toNat,d.setCurrentBit (b.curBit + 1)) := by
  obtain ⟨aft,cursor,set⟩ := writeBitInside bit sized space
  have full := copies.full (aft.trans after)
  rw [readBitInside (by omega),start,(copies.earlier after).same _ (by omega),set]

section
variable (walk : Walk write read sent width reach) (bit : Bool) {b d : MessageBuffer} (sized : b.Sized)
  (space : b.curBit < b.full)
include walk sized space

theorem fitsBehind (room : sent ≠ [] → b.curBit + (1 + reach) ≤ b.full)
    (copies : d.Copies (write (b.writeBit bit.toNat).2)) :
    (write (b.writeBit bit.toNat).2).curBit = min (b.curBit + (1 + width)) b.full ∧
      read (d.setCurrentBit (b.curBit + 1)) = (sent,d.setCurrentBit (write (b.writeBit bit.toNat).2).curBit) := by
  obtain ⟨aft,cursor,-⟩ := writeBitInside bit sized space
  have same := aft.full
  obtain ⟨moved,got⟩ := walk.fits (b.writeBit bit.toNat).2 (d.setCurrentBit (b.curBit + 1)) aft.sized (by omega)
    (fun any => by have := room any; omega) (copies.at _) (by rw [cursor]; rfl)
  exact ⟨by rw [moved]; omega,got⟩

theorem shortBehind (any : sent ≠ []) (finished : b.full < b.curBit + (1 + reach))
    (copies : d.Copies (write (b.writeBit bit.toNat).2)) : b.full < (read (d.setCurrentBit (b.curBit + 1))).2.curBit ∨
      (read (d.setCurrentBit (b.curBit + 1))).2.curBit = b.full ∧
        (read (d.setCurrentBit (b.curBit + 1))).1.length < sent.length := by
  obtain ⟨aft,cursor,-⟩ := writeBitInside bit sized space
  have same := aft.full
  have broken := walk.short (b.writeBit bit.toNat).2 (d.setCurrentBit (b.curBit + 1)) aft.sized (by omega) any (by omega)
    (copies.at _) (by rw [cursor]; rfl)
  rwa [same] at broken

end

theorem mark (bit : Bool) (walk : Walk write read sent width reach) :
    Walk (fun b => write (b.writeBit bit.toNat).2) (fun d => read d.readBit.2) sent (1 + width) (1 + reach) where
  some any := by omega
  within := by
    have := walk.within
    omega
  after b sized := (writeBitAfter bit sized).trans (walk.after _ (writeBitAfter bit sized).sized)
  moves d := ⟨(readBitMoves d).1.trans (walk.moves _).1,(walk.moves _).2.trans (readBitMoves d).2⟩
  fits b d sized inside room copies start := by
    have aft := writeBitAfter bit sized
    have full := (copies.earlier (walk.after _ aft.sized)).full aft
    by_cases space : b.curBit < b.full
    · rw [bitReadBack bit sized space (walk.after _ aft.sized) copies start]
      exact walk.fitsBehind bit sized space room copies
    · rw [writeBitFull bit.toNat (by omega)] at copies ⊢
      rw [readBitFull (by omega)]
      obtain ⟨moved,got⟩ := walk.fits b d sized inside (fun any => by have := room any; omega) copies start
      exact ⟨by rw [moved]; omega,got⟩
  short b d sized inside any finished copies start := by
    have aft := writeBitAfter bit sized
    have full := (copies.earlier (walk.after _ aft.sized)).full aft
    by_cases space : b.curBit < b.full
    · rw [bitReadBack bit sized space (walk.after _ aft.sized) copies start]
      exact walk.shortBehind bit sized space any finished copies
    · have positive := walk.some any
      rw [writeBitFull bit.toNat (by omega)] at copies
      rw [readBitFull (by omega)]
      exact walk.short b d sized inside any (by omega) copies start

theorem markStops (stops : Reader.Stops read) : Reader.Stops (fun d => read d.readBit.2) := by
  intro d full
  simp only [readBitFull full,stops d full]

theorem flaggedStops (read : Reader) : Reader.Stops read.flagged := by
  intro d full
  simp [Reader.flagged,readBitFull full]

theorem flaggedMoves (moves : ∀ d : MessageBuffer, d.curBit ≤ (read d).2.curBit ∧ (read d).2.data = d.data) (d : MessageBuffer) :
    d.curBit ≤ (read.flagged d).2.curBit ∧ (read.flagged d).2.data = d.data := by
  obtain ⟨cursor,data⟩ := readBitMoves d
  simp only [Reader.flagged]
  split
  · exact ⟨cursor.trans (moves _).1,(moves _).2.trans data⟩
  · exact ⟨cursor,data⟩

theorem present (walk : Walk write read sent width reach) :
    Walk (fun b => write (b.writeBit true.toNat).2) read.flagged sent (1 + width) (1 + reach) where
  some any := by omega
  within := by
    have := walk.within
    omega
  after b sized := (writeBitAfter true sized).trans (walk.after _ (writeBitAfter true sized).sized)
  moves := flaggedMoves walk.moves
  fits b d sized inside room copies start := by
    have aft := writeBitAfter true sized
    have full := (copies.earlier (walk.after _ aft.sized)).full aft
    by_cases space : b.curBit < b.full
    · simp only [Reader.flagged,bitReadBack true sized space (walk.after _ aft.sized) copies start]
      rw [if_pos (by decide)]
      exact walk.fitsBehind true sized space room copies
    · have none : sent = [] := by
        by_contra any
        have := room any
        omega
      rw [writeBitFull true.toNat (by omega)] at copies ⊢
      have bounded := (walk.after b sized).bounded
      have forward := (walk.after b sized).cursor
      simp only [Reader.flagged,readBitFull (show d.full ≤ d.curBit by omega)]
      refine ⟨by omega,?_⟩
      rw [none,show (write b).curBit = d.curBit by omega]
      rfl
  short b d sized inside any finished copies start := by
    have aft := writeBitAfter true sized
    have full := (copies.earlier (walk.after _ aft.sized)).full aft
    by_cases space : b.curBit < b.full
    · simp only [Reader.flagged,bitReadBack true sized space (walk.after _ aft.sized) copies start]
      rw [if_pos (by decide)]
      exact walk.shortBehind true sized space any finished copies
    · simp only [Reader.flagged,readBitFull (show d.full ≤ d.curBit by omega)]
      exact .inr ⟨by simp only [ne_eq,not_true,if_false]; omega,List.length_pos_of_ne_nil any⟩

theorem absent (moves : ∀ d : MessageBuffer, d.curBit ≤ (read d).2.curBit ∧ (read d).2.data = d.data) :
    Walk (fun b => (b.writeBit false.toNat).2) read.flagged [] 1 0 where
  some any := absurd rfl any
  within := by omega
  after b sized := writeBitAfter false sized
  moves := flaggedMoves moves
  fits b d sized inside room copies start := by
    have aft := writeBitAfter false sized
    by_cases space : b.curBit < b.full
    · obtain ⟨-,cursor,-⟩ := writeBitInside false sized space
      simp only [Reader.flagged,bitReadBack false sized space (.refl aft.sized) copies start]
      rw [cursor]
      exact ⟨by omega,rfl⟩
    · have full := copies.full aft
      rw [writeBitFull false.toNat (by omega)]
      simp only [Reader.flagged,readBitFull (show d.full ≤ d.curBit by omega)]
      refine ⟨by omega,?_⟩
      rw [← start]
      rfl
  short b d _ _ any := absurd rfl any

theorem body (data : List Byte) {length : Nat} (positive : 0 < length) :
    Walk (fun b => (b.writeBits data length).2) (fun d => ([(d.take length).1],(d.take length).2))
      [(List.range length).map (bitAt data)] length length where
  some _ := positive
  within := Nat.le_refl _
  after b sized := by
    unfold MessageBuffer.Sized at sized
    by_cases room : b.curBit + length ≤ b.full
    · unfold MessageBuffer.full at room
      obtain ⟨b',written,advanced,-⟩ := bitsWritten data (by omega) (show b.curBit + length ≤ b.maxBit by omega)
      rw [written]
      refine ⟨?_,advanced.length,by rw [advanced.cursor]; omega,.inl ?_,fun p before => advanced.outside p (.inl before)⟩
      · rw [MessageBuffer.Sized,advanced.maxBit,advanced.length,sized]
      · rw [advanced.cursor,MessageBuffer.full]
        omega
    · unfold MessageBuffer.full at room
      rw [MessageBuffer.writeBits,if_pos (by omega)]
      exact .refl sized
  moves d := ⟨Nat.le_add_right _ _,rfl⟩
  fits b d sized inside room copies start := by
    have enough := room (List.cons_ne_nil _ _)
    unfold MessageBuffer.Sized at sized
    unfold MessageBuffer.full at enough
    obtain ⟨b',written,advanced,there⟩ := bitsWritten data (by omega) (show b.curBit + length ≤ b.maxBit by omega)
    rw [written] at copies ⊢
    refine ⟨by rw [advanced.cursor,MessageBuffer.full]; omega,?_⟩
    have same : (d.take length).1 = (List.range length).map (bitAt data) := by
      refine List.map_congr_left (fun i mem => ?_)
      have less := List.mem_range.mp mem
      rw [copies.same _ (by rw [advanced.cursor]; omega),start]
      exact there i less
    rw [same,MessageBuffer.take,start,← advanced.cursor]
  short b d sized inside any finished copies start := .inl (by simp only [MessageBuffer.take,MessageBuffer.setCurrentBit]; omega)

end Walk
end Citizen.Rl
