import Citizen.Lib.LittleEndian

/-! Decompression of a stream whose bytes are handed over in pieces. -/
namespace Citizen.Inflate
open BitField (Byte)
open LittleEndian (load)

inductive Code where
  | Z_OK
  | Z_STREAM_END
  | failed
  deriving DecidableEq

/-- What a call of `inflate` leaves: the stream, the number of bytes it took, those it put out. -/
structure Inflated (Stream : Type) where
  stream : Stream
  consumed : Nat
  output : List Byte
  code : Code

structure Decoder (Stream : Type) where
  fresh : Stream
  inflate : Stream → List Byte → Nat → Inflated Stream

variable {Stream : Type}

structure Serves (data content : List Byte) (i o : Nat) (input : List Byte) (availOut : Nat) (call : Inflated Stream) : Prop where
  consumed : call.consumed ≤ input.length
  produced : call.output = (content.drop o).take call.output.length
  room : call.output.length ≤ availOut
  whole : call.code = .Z_STREAM_END → i + call.consumed = data.length ∧ o + call.output.length = content.length
  progress : call.code = .Z_OK → 0 < call.consumed + call.output.length
  hungry : call.code = .failed → input = [] ∧ i < data.length
  last : i + input.length = data.length → call.output.length < availOut → call.code = .Z_STREAM_END

/-- The data are the compressed content: calls with the next of the data put out the next of the content, stop only for want of
data or of room, and make progress unless they have neither. -/
structure Decodes (decoder : Decoder Stream) (data content : List Byte) (At : Stream → Nat → Nat → Prop) : Prop where
  fresh : At decoder.fresh 0 0
  serves : ∀ {stream i o input availOut}, At stream i o → input <+: data.drop i → 0 < availOut →
    Serves data content i o input availOut (decoder.inflate stream input availOut)
  next : ∀ {stream i o input availOut}, At stream i o → input <+: data.drop i → 0 < availOut →
    At (decoder.inflate stream input availOut).stream (i + (decoder.inflate stream input availOut).consumed)
      (o + (decoder.inflate stream input availOut).output.length)

def storedBlock (content : List Byte) : List Byte :=
  1 :: LittleEndian.bytes 2 content.length ++ LittleEndian.bytes 2 (65535 - content.length) ++ content

def storedDecoder : Decoder (List Byte) where
  fresh := []
  inflate taken input availOut :=
    let header := input.take (5 - taken.length)
    let begun := taken ++ header
    if begun.length < 5 then ⟨begun,header.length,[],if header = [] then .failed else .Z_OK⟩
    else
      let left := load begun 1 2 - (begun.length - 5)
      let output := (input.drop header.length).take (min left availOut)
      ⟨begun ++ output,header.length + output.length,output,
        if output.length = left then .Z_STREAM_END else if header = [] ∧ output = [] then .failed else .Z_OK⟩

section
variable {content taken input : List Byte} {i o availOut : Nat}

theorem takeGoesOn {data piece : List Byte} (begins : piece <+: data.drop i) :
    data.take i ++ piece = data.take (i + piece.length) := by
  rw [List.take_add,← List.prefix_iff_eq_take.mp begins]

theorem storedLength (content : List Byte) : (storedBlock content).length = 5 + content.length := by
  simp [storedBlock]
  omega

theorem storedDrop (content : List Byte) : (storedBlock content).drop 5 = content :=
  List.drop_left' (by simp)

theorem storedLeft (small : content.length < 2 ^ 16) {p : Nat} (header : 5 ≤ p) :
    load ((storedBlock content).take p) 1 2 = content.length := by
  have field : (((storedBlock content).take p).drop 1).take 2 = LittleEndian.bytes 2 content.length := by
    rw [List.drop_take,List.take_take,min_eq_left (by omega)]
    exact List.take_left' (LittleEndian.bytesLength 2 _)
  rw [load,field,LittleEndian.valueBytesSmall small]

def StoredAt (content taken : List Byte) (i o : Nat) : Prop :=
  taken = (storedBlock content).take i ∧ i ≤ (storedBlock content).length ∧ o = i - 5

theorem storedBegun (at' : StoredAt content taken i o) (begins : input <+: (storedBlock content).drop i) :
    taken.length = i ∧ o = i - 5 ∧ i + input.length ≤ 5 + content.length ∧
      (input.take (5 - i)).length = min (5 - i) input.length ∧
      taken ++ input.take (5 - i) = (storedBlock content).take (i + (input.take (5 - i)).length) := by
  obtain ⟨rfl,inside,rfl⟩ := at'
  have more := begins.length_le
  rw [List.length_drop] at more
  rw [storedLength] at more inside
  refine ⟨List.length_take_of_le (by rw [storedLength]; omega),rfl,by omega,List.length_take,?_⟩
  exact takeGoesOn ((List.take_prefix _ input).trans begins)

theorem storedHeader (availOut : Nat) (at' : StoredAt content taken i o) (begins : input <+: (storedBlock content).drop i)
    (early : i + (input.take (5 - i)).length < 5) :
    Serves (storedBlock content) content i o input availOut (storedDecoder.inflate taken input availOut) ∧
      StoredAt content (storedDecoder.inflate taken input availOut).stream (i + (storedDecoder.inflate taken input availOut).consumed)
        (o + (storedDecoder.inflate taken input availOut).output.length) := by
  obtain ⟨taken',rfl,more,size,begun⟩ := storedBegun at' begins
  have total := storedLength content
  have call : storedDecoder.inflate taken input availOut = ⟨(storedBlock content).take (i + (input.take (5 - i)).length),
      (input.take (5 - i)).length,[],if input.take (5 - i) = [] then .failed else .Z_OK⟩ := by
    simp only [storedDecoder,taken',begun]
    rw [if_pos (by rw [List.length_take_of_le (by omega)]; exact early)]
  rw [call]
  have none' (header : input.take (5 - i) = []) : input = [] := by
    rw [header,List.length_nil] at size
    exact List.length_eq_zero_iff.mp (by omega)
  refine ⟨⟨by rw [size]; exact Nat.min_le_right _ _,rfl,Nat.zero_le _,?_,?_,?_,fun whole _ => by omega⟩,rfl,?_,?_⟩
  · intro ended
    split at ended <;> cases ended
  · intro went
    split at went
    · cases went
    · rename_i some'
      exact Nat.add_pos_left (List.length_pos_iff.mpr some') _
  · intro stuck
    split at stuck
    · rename_i header
      exact ⟨none' header,by omega⟩
    · cases stuck
  · change i + (input.take (5 - i)).length ≤ _
    omega
  · change i - 5 + 0 = i + (input.take (5 - i)).length - 5
    omega

theorem storedRest (begins : input <+: (storedBlock content).drop i) (late : 5 ≤ i + (input.take (5 - i)).length) :
    (storedBlock content).drop (i + (input.take (5 - i)).length) = content.drop (i - 5) ∧
      input.drop (input.take (5 - i)).length <+: content.drop (i - 5) := by
  have taken : (input.take (5 - i)).length = min (5 - i) input.length := List.length_take
  have body : (storedBlock content).drop (i + (input.take (5 - i)).length) = content.drop (i - 5) := by
    have split : i + (input.take (5 - i)).length = 5 + (i - 5) := by omega
    rw [split,← List.drop_drop,storedDrop]
  refine ⟨body,?_⟩
  obtain ⟨tail,whole⟩ := begins
  rw [← body,← List.drop_drop,← whole,List.drop_append_of_le_length (by omega)]
  exact List.prefix_append _ tail

section
variable (small : content.length < 2 ^ 16) (at' : StoredAt content taken i o)
  (begins : input <+: (storedBlock content).drop i)
include small at' begins

theorem storedCall {n : Nat} (header : (input.take (5 - i)).length = n) (late : 5 ≤ i + n)
    {output : List Byte} (rest : (input.drop n).take (min (content.length - (i + n - 5)) availOut) = output) :
    output <+: content.drop (i - 5) ∧
      storedDecoder.inflate taken input availOut = ⟨(storedBlock content).take (i + (n + output.length)),n + output.length,output,
        if output.length = content.length - (i + n - 5) then .Z_STREAM_END
        else if input.take (5 - i) = [] ∧ output = [] then .failed else .Z_OK⟩ := by
  obtain ⟨taken',rfl,more,size,begun⟩ := storedBegun at' begins
  obtain ⟨body,dropped⟩ := storedRest begins (header ▸ late)
  have total := storedLength content
  subst header
  have produced : output <+: content.drop (i - 5) := by
    rw [← rest]
    exact (List.take_prefix _ _).trans dropped
  have inside : i + (input.take (5 - i)).length ≤ (storedBlock content).length := by omega
  refine ⟨produced,?_⟩
  simp only [storedDecoder,taken',begun]
  rw [if_neg (by rw [List.length_take_of_le inside]; omega),storedLeft small late,List.length_take_of_le inside,rest,
    takeGoesOn (body.symm ▸ produced),Nat.add_assoc]

theorem storedBody (room : 0 < availOut) (late : 5 ≤ i + (input.take (5 - i)).length) :
    Serves (storedBlock content) content i o input availOut (storedDecoder.inflate taken input availOut) ∧
      StoredAt content (storedDecoder.inflate taken input availOut).stream (i + (storedDecoder.inflate taken input availOut).consumed)
        (o + (storedDecoder.inflate taken input availOut).output.length) := by
  generalize header : (input.take (5 - i)).length = n at late
  generalize rest : (input.drop n).take (min (content.length - (i + n - 5)) availOut) = output
  obtain ⟨produced,call⟩ := storedCall small at' begins header late rest
  obtain ⟨taken',rfl,more,size,begun⟩ := storedBegun at' begins
  have total := storedLength content
  rw [header] at size
  have outputLength : output.length = min (min (content.length - (i + n - 5)) availOut) (input.length - n) := by
    rw [← rest,List.length_take,List.length_drop]
  rw [call]
  refine ⟨⟨by simp only; omega,List.prefix_iff_eq_take.mp produced,by simp only; omega,?_,?_,?_,?_⟩,rfl,by simp only; omega,by simp only; omega⟩
  · intro ended
    split at ended
    · rename_i every
      exact ⟨by simp only; omega,by simp only; omega⟩
    · split at ended <;> cases ended
  · intro went
    split at went
    · cases went
    · split at went
      · cases went
      · rename_i some'
        rw [not_and_or] at some'
        rcases some' with nonempty | nonempty
        · have some' := List.length_pos_iff.mpr nonempty
          simp only
          omega
        · have some' := List.length_pos_iff.mpr nonempty
          simp only
          omega
  · intro stuck
    split at stuck
    · cases stuck
    · split at stuck
      · rename_i short neither
        rw [neither.1,List.length_nil] at header
        rw [neither.2,List.length_nil] at outputLength short
        exact ⟨List.length_eq_zero_iff.mp (by omega),by omega⟩
      · cases stuck
  · intro whole short
    rw [if_pos (by simp only at short; omega)]

end

theorem storedDecodes (small : content.length < 2 ^ 16) :
    Decodes storedDecoder (storedBlock content) content (StoredAt content) := by
  have call {taken input : List Byte} {i o availOut : Nat} (at' : StoredAt content taken i o)
      (begins : input <+: (storedBlock content).drop i) (room : 0 < availOut) :=
    (Nat.lt_or_ge (i + (input.take (5 - i)).length) 5).elim (fun early => storedHeader availOut at' begins early)
      (fun late => storedBody small at' begins room late)
  exact ⟨⟨rfl,Nat.zero_le _,rfl⟩,fun at' begins room => (call at' begins room).1,fun at' begins room => (call at' begins room).2⟩

end
end Citizen.Inflate
