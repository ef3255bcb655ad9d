import Citizen.Bags.StateBagWire
import Citizen.Net.MessageBufferBytes

/-! What `HandlePacket` reads from a packet, byte by byte: the announced strings, whether
they are there or cut, and the data behind them. -/
namespace Citizen.Bags.Wire
open BitField (Byte byteAt)
open Rl (MessageBuffer toInt word wordAt)

def readable (data : List Byte) : Nat := (toInt (8 * data.length)).toNat / 8

def announced (data : List Byte) (p : Nat) : Nat := if p + 2 ≤ readable data then wordAt data p else 0

def Cut (data : List Byte) (p : Nat) : Prop := readable data < p + 1 + announced data p

instance (data : List Byte) (p : Nat) : Decidable (Cut data p) := Nat.decLt _ _

def strAt (data : List Byte) (p : Nat) : List Byte :=
  if Cut data p then List.replicate (announced data p - 1) 0
  else (data.drop (p + 2)).take (announced data p - 1)

def nextAt (data : List Byte) (p : Nat) : Nat :=
  if announced data p = 0 then p + 2 else if Cut data p then p + 3 else p + 2 + announced data p

def keyAt (dataRaw : List Byte) : Nat := nextAt dataRaw 0

def dataAt (dataRaw : List Byte) : Nat := nextAt dataRaw (keyAt dataRaw)

theorem readableInside (data : List Byte) : readable data ≤ data.length := by
  have inside : toInt (8 * data.length) ≤ 8 * data.length := Rl.maxBitInside data
  unfold readable
  omega

section
variable {data : List Byte} {p : Nat}

section
variable (positive : announced data p ≠ 0)
include positive

theorem announcedInside : p + 2 ≤ readable data := by
  unfold announced at positive
  split at positive
  · assumption
  · contradiction

theorem announcedWord : announced data p = wordAt data p :=
  if_pos (announcedInside positive)

theorem nextAtWhole (whole : ¬Cut data p) : nextAt data p = p + 2 + announced data p := by
  rw [nextAt,if_neg positive,if_neg whole]

theorem nextAtCut (cut : Cut data p) : nextAt data p = p + 3 := by
  rw [nextAt,if_neg positive,if_pos cut]

end

theorem nextAtGrows : p ≤ nextAt data p := by
  unfold nextAt
  split
  · omega
  · split
    · omega
    · omega

theorem strAtLength : (strAt data p).length = announced data p - 1 := by
  have inside := readableInside data
  unfold strAt
  split
  · rw [List.length_replicate]
  · rename_i whole
    unfold Cut at whole
    rw [List.length_take,List.length_drop]
    omega

theorem readStrAt :
    readStr (.reader data (readable data) p) = (strAt data p,.reader data (readable data) (nextAt data p)) := by
  have inside := readableInside data
  have read := @Rl.readBytes data (readable data) (p + 2) (announced data p - 1) (announced data p - 1)
    inside (Nat.le_refl _)
  have length : (MessageBuffer.reader data (readable data) p).read false 16 =
      (announced data p,.reader data (readable data) (p + 2)) := Rl.readWord inside
  unfold readStr
  rw [length]
  dsimp only
  by_cases unnamed : announced data p = 0
  · have empty : strAt data p = [] := List.eq_nil_of_length_eq_zero (by rw [strAtLength,unnamed])
    rw [if_pos unnamed,empty,nextAt,if_pos unnamed]
  · have there := announcedInside unnamed
    rw [if_neg unnamed,read]
    unfold strAt
    by_cases cut : Cut data p
    · rw [if_pos cut,nextAtCut unnamed cut]
      unfold Cut at cut
      rw [if_neg (by omega)]
      dsimp only
      rw [Rl.readPast]
      rfl
    · rw [if_neg cut,nextAtWhole unnamed cut]
      unfold Cut at cut
      rw [if_pos (by omega)]
      dsimp only
      rw [Rl.readPast,Nat.sub_self,List.replicate_zero,List.append_nil]
      simp only [MessageBuffer.reader]
      rw [show 8 * (p + 2 + (announced data p - 1)) + 8 = 8 * (p + 2 + announced data p) by omega]

end

theorem toIntBytes (n : Nat) : toInt (8 * n) = 8 * (toInt (8 * n) / 8) := by
  rw [toInt,BitVec.toInt_ofNat',Int.bmod_def]
  omega

variable {data : List Byte}

theorem toIntReadable (visible : 0 ≤ toInt (8 * data.length)) :
    toInt (8 * data.length) = 8 * (readable data : Int) := by
  have bytes := toIntBytes data.length
  unfold readable
  omega

theorem readerOfData (visible : 0 ≤ toInt (8 * data.length)) :
    MessageBuffer.ofData data = .reader data (readable data) 0 := by
  rw [MessageBuffer.ofData,toIntReadable visible]
  rfl

theorem toIntRest {n seen p : Nat} (visible : toInt (8 * n) = 8 * (seen : Int)) (before : p < seen)
    (inside : seen ≤ n) : (toInt (8 * n - 8 * p)).toNat = (seen - p) * 8 := by
  have size : toInt (8 * n - 8 * p) = 8 * (seen - p : Nat) := by
    rw [toInt,BitVec.toInt_ofNat',Int.bmod_def] at visible ⊢
    omega
  rw [size]
  omega

theorem readPacketBytes (dataRaw : List Byte) :
    readPacket dataRaw =
      if strAt dataRaw 0 = [] then none
      else if strAt dataRaw (keyAt dataRaw) = [] then none
      else if readable dataRaw ≤ dataAt dataRaw then none
      else some (strAt dataRaw 0,strAt dataRaw (keyAt dataRaw),
        (dataRaw.drop (dataAt dataRaw)).take (readable dataRaw - dataAt dataRaw) ++
          List.replicate (dataRaw.length - readable dataRaw) 0) := by
  have inside := readableInside dataRaw
  by_cases visible : 0 ≤ toInt (8 * dataRaw.length)
  · have bits := toIntReadable visible
    have atEnd : (MessageBuffer.reader dataRaw (readable dataRaw) (dataAt dataRaw)).isAtEnd = true ↔
        readable dataRaw ≤ dataAt dataRaw := by
      rw [MessageBuffer.isAtEnd,decide_eq_true_eq]
      simp only [MessageBuffer.reader]
      omega
    unfold readPacket
    rw [readerOfData visible,readStrAt]
    dsimp only
    rw [show nextAt dataRaw 0 = keyAt dataRaw from rfl,readStrAt]
    dsimp only
    rw [show nextAt dataRaw (keyAt dataRaw) = dataAt dataRaw from rfl]
    simp only [atEnd]
    refine if_congr Iff.rfl rfl (if_congr Iff.rfl rfl ?_)
    by_cases past : readable dataRaw ≤ dataAt dataRaw
    · rw [if_pos past,if_pos past]
    · have count := toIntRest bits (Nat.lt_of_not_le past) inside
      have room : (8 * dataRaw.length - 8 * dataAt dataRaw + 7) / 8 = dataRaw.length - dataAt dataRaw := by omega
      have read := @Rl.readBytes dataRaw (readable dataRaw) (dataAt dataRaw) (readable dataRaw - dataAt dataRaw)
        (dataRaw.length - dataAt dataRaw) inside (by omega)
      rw [if_neg past,if_neg past]
      simp only [show (MessageBuffer.reader dataRaw (readable dataRaw) (dataAt dataRaw)).curBit =
        8 * dataAt dataRaw from rfl]
      rw [if_neg (by omega),room,count,read,if_pos (by omega),
        show dataRaw.length - dataAt dataRaw - (readable dataRaw - dataAt dataRaw) =
          dataRaw.length - readable dataRaw by omega]
  · have hidden : readable dataRaw = 0 := by
      unfold readable
      omega
    have unnamed : readStr (MessageBuffer.ofData dataRaw) =
        ([],{ MessageBuffer.ofData dataRaw with curBit := 16 }) := by
      have full := @Rl.readBitsSingleFails false (MessageBuffer.ofData dataRaw) 16
        (show toInt (8 * dataRaw.length) < ((0 : Nat) + 16 : Int) by omega)
      rw [readStr,MessageBuffer.read,full]
      rfl
    have empty : strAt dataRaw 0 = [] := by
      refine List.eq_nil_of_length_eq_zero ?_
      rw [strAtLength,announced,if_neg (by omega)]
    rw [readPacket,unnamed,if_pos empty]
    rfl

def named (str : List Byte) (terminator : Byte) : List Byte :=
  word (str.length + 1) ++ (str ++ [terminator])

@[simp] theorem namedLength (str : List Byte) (terminator : Byte) :
    (named str terminator).length = str.length + 3 := by
  simp only [named,word,List.length_append,List.length_cons,List.length_nil]
  omega

theorem strAtNamed {data front str rest : List Byte} {terminator : Byte}
    (bytes : data = front ++ (named str terminator ++ rest)) (short : str.length + 1 < 2 ^ 16)
    (whole : front.length + (str.length + 3) ≤ readable data) :
    strAt data front.length = str ∧ nextAt data front.length = front.length + (str.length + 3) := by
  have length : announced data front.length = str.length + 1 := by
    unfold announced
    rw [if_pos (by omega),bytes,named,List.append_assoc]
    exact Rl.wordAtAppend front _ short
  have there : ¬Cut data front.length := by
    unfold Cut
    omega
  have rest : data.drop (front.length + 2) = str ++ ([terminator] ++ rest) := by
    rw [← List.drop_drop,bytes,List.drop_left,named]
    simp [word]
  rw [nextAtWhole (by omega) there,strAt,if_neg there,rest,length,Nat.add_sub_cancel,List.take_left]
  exact ⟨rfl,by omega⟩

theorem dropNamed {p : Nat} (positive : wordAt data p ≠ 0) (whole : p + 2 + wordAt data p ≤ data.length) :
    data.drop p = named ((data.drop (p + 2)).take (wordAt data p - 1)) (byteAt data (p + 1 + wordAt data p)) ++
      data.drop (p + 2 + wordAt data p) := by
  have length : ((data.drop (p + 2)).take (wordAt data p - 1)).length = wordAt data p - 1 := by
    rw [List.length_take,List.length_drop]
    omega
  have split : data.drop (p + 2) = (data.drop (p + 2)).take (wordAt data p - 1) ++
      (byteAt data (p + 1 + wordAt data p) :: data.drop (p + 2 + wordAt data p)) := by
    have last := @BitField.dropByte data (p + 1 + wordAt data p) (by omega)
    have rest : data.drop (p + 1 + wordAt data p) = (data.drop (p + 2)).drop (wordAt data p - 1) := by
      rw [List.drop_drop,show p + 2 + (wordAt data p - 1) = p + 1 + wordAt data p by omega]
    rw [show p + 1 + wordAt data p + 1 = p + 2 + wordAt data p by omega] at last
    rw [← last,rest,List.take_append_drop]
  rw [named,length,Nat.sub_add_cancel (Nat.pos_of_ne_zero positive),Rl.wordOfWordAt]
  rw [BitField.dropByte (show p < data.length by omega),BitField.dropByte (show p + 1 < data.length by omega)]
  simp only [List.append_assoc,List.cons_append,List.nil_append]
  rw [← split]

theorem dropString {p : Nat} (long : 2 ≤ announced data p) (whole : ¬Cut data p)
    (more : nextAt data p ≤ readable data) :
    ∃ t, data.drop p = named (strAt data p) t ++ data.drop (nextAt data p) := by
  have positive : announced data p ≠ 0 := by omega
  have inside := readableInside data
  have next := nextAtWhole positive whole
  have same := announcedWord positive
  have bytes := @dropNamed data p (same ▸ positive) (by omega)
  unfold strAt
  rw [next,if_neg whole,same]
  exact ⟨_,bytes⟩

structure Announced (dataRaw id key value : List Byte) : Prop where
  idNamed : id ≠ []
  keyNamed : key ≠ []
  some : value ≠ []
  idShort : id.length + 1 < 2 ^ 16
  keyShort : key.length + 1 < 2 ^ 16
  bytes : ∃ t u, dataRaw = named id t ++ (named key u ++ value)

structure Read (dataRaw id key value : List Byte) : Prop where
  idLength : 2 ≤ announced dataRaw 0
  keyLength : 2 ≤ announced dataRaw (keyAt dataRaw)
  data : dataAt dataRaw < readable dataRaw
  id : id = strAt dataRaw 0
  key : key = strAt dataRaw (keyAt dataRaw)
  value : value = (dataRaw.drop (dataAt dataRaw)).take (readable dataRaw - dataAt dataRaw) ++
    List.replicate (dataRaw.length - readable dataRaw) 0

structure Misread (dataRaw : List Byte) : Prop where
  id : 2 ≤ announced dataRaw 0
  key : 2 ≤ announced dataRaw (keyAt dataRaw)
  data : dataAt dataRaw < readable dataRaw
  short : Cut dataRaw 0 ∨ Cut dataRaw (keyAt dataRaw) ∨ ∃ byte ∈ dataRaw.drop (readable dataRaw), byte ≠ 0

section
variable {dataRaw id key value : List Byte}

theorem Misread.read (misread : Misread dataRaw) : ∃ id key value, Read dataRaw id key value :=
  ⟨_,_,_,misread.id,misread.key,misread.data,rfl,rfl,rfl⟩

theorem readPacketIff : readPacket dataRaw = some (id,key,value) ↔ Read dataRaw id key value := by
  have empty : ∀ p, strAt dataRaw p = [] ↔ ¬2 ≤ announced dataRaw p := by
    intro p
    rw [← List.length_eq_zero_iff,strAtLength]
    omega
  rw [readPacketBytes]
  constructor
  · intro read
    split at read
    · contradiction
    · rename_i idNamed
      split at read
      · contradiction
      · rename_i keyNamed
        split at read
        · contradiction
        · rename_i before
          rw [empty,not_not] at idNamed keyNamed
          cases read
          exact ⟨idNamed,keyNamed,Nat.lt_of_not_le before,rfl,rfl,rfl⟩
  · intro read
    rw [if_neg (by rw [empty,not_not]; exact read.idLength),if_neg (by rw [empty,not_not]; exact read.keyLength),
      if_neg (Nat.not_le_of_lt read.data),read.id,read.key,read.value]

theorem Read.lengths (read : Read dataRaw id key value) :
    id.length + 1 = announced dataRaw 0 ∧ key.length + 1 = announced dataRaw (keyAt dataRaw) ∧
      value.length + dataAt dataRaw = dataRaw.length := by
  have inside := readableInside dataRaw
  have first := read.idLength
  have second := read.keyLength
  have third := read.data
  refine ⟨?_,?_,?_⟩
  · rw [read.id,strAtLength]
    omega
  · rw [read.key,strAtLength]
    omega
  · rw [read.value,List.length_append,List.length_take,List.length_drop,List.length_replicate]
    omega

theorem Read.nonempty (read : Read dataRaw id key value) : id ≠ [] ∧ key ≠ [] ∧ value ≠ [] := by
  have inside := readableInside dataRaw
  obtain ⟨idLength,keyLength,valueLength⟩ := read.lengths
  have first := read.idLength
  have second := read.keyLength
  have third := read.data
  refine ⟨?_,?_,?_⟩
  · exact List.ne_nil_of_length_pos (by omega)
  · exact List.ne_nil_of_length_pos (by omega)
  · exact List.ne_nil_of_length_pos (by omega)

theorem Announced.length (announced : Announced dataRaw id key value) :
    dataRaw.length = id.length + key.length + value.length + 6 := by
  obtain ⟨t,u,bytes⟩ := announced.bytes
  rw [bytes,List.length_append,List.length_append,namedLength,namedLength]
  omega

theorem Read.announced (read : Read dataRaw id key value) (sound : ¬Misread dataRaw) :
    Announced dataRaw id key value := by
  have misread := Misread.mk read.idLength read.keyLength read.data
  obtain ⟨idLength,keyLength,_⟩ := read.lengths
  have short : ∀ p, wordAt dataRaw p < 2 ^ 16 := Rl.wordAtLt dataRaw
  obtain ⟨idNamed,keyNamed,some⟩ := read.nonempty
  refine ⟨idNamed,keyNamed,some,?_,?_,?_⟩
  · rw [idLength,announcedWord (by omega)]
    exact short _
  · rw [keyLength,announcedWord (by omega)]
    exact short _
  · have later := Nat.le_of_lt read.data
    obtain ⟨t,first⟩ := dropString read.idLength (fun cut => sound (misread (.inl cut)))
      (nextAtGrows.trans later)
    obtain ⟨u,second⟩ := dropString read.keyLength (fun cut => sound (misread (.inr (.inl cut)))) later
    have zeros : dataRaw.drop (readable dataRaw) = List.replicate (dataRaw.length - readable dataRaw) 0 := by
      rw [List.eq_replicate_iff,List.length_drop]
      exact ⟨rfl,fun byte mem => not_not.mp (fun other => sound (misread (.inr (.inr ⟨byte,mem,other⟩))))⟩
    have rest : value = dataRaw.drop (dataAt dataRaw) := by
      have split : dataRaw.drop (readable dataRaw) =
          (dataRaw.drop (dataAt dataRaw)).drop (readable dataRaw - dataAt dataRaw) := by
        rw [List.drop_drop,Nat.add_sub_cancel' later]
      rw [read.value,← zeros,split,List.take_append_drop]
    rw [List.drop_zero] at first
    rw [show nextAt dataRaw 0 = keyAt dataRaw from rfl] at first
    rw [show nextAt dataRaw (keyAt dataRaw) = dataAt dataRaw from rfl] at second
    exact ⟨t,u,by rw [read.id,read.key,rest,← second,← first]⟩

theorem Read.unannounced (read : Read dataRaw id key value) (misread : Misread dataRaw) :
    ¬Announced dataRaw id key value := by
  intro whole
  obtain ⟨idLength,keyLength,valueLength⟩ := read.lengths
  have total := whole.length
  have idLong := read.idLength
  have keyLong := read.keyLength
  have later := read.data
  -- the reader has come as far as the strings are long only if both of them are there
  have idCut : Cut dataRaw 0 → keyAt dataRaw = 0 + 3 := nextAtCut (by omega)
  have idWhole : ¬Cut dataRaw 0 → keyAt dataRaw = 0 + 2 + Wire.announced dataRaw 0 := nextAtWhole (by omega)
  have keyCut : Cut dataRaw (keyAt dataRaw) → dataAt dataRaw = keyAt dataRaw + 3 := nextAtCut (by omega)
  have keyWhole : ¬Cut dataRaw (keyAt dataRaw) →
      dataAt dataRaw = keyAt dataRaw + 2 + Wire.announced dataRaw (keyAt dataRaw) := nextAtWhole (by omega)
  have idThere : ¬Cut dataRaw 0 := by
    intro cut
    have first := idCut cut
    by_cases keyShort : Cut dataRaw (keyAt dataRaw)
    · have second := keyCut keyShort
      omega
    · have second := keyWhole keyShort
      omega
  have first := idWhole idThere
  have keyThere : ¬Cut dataRaw (keyAt dataRaw) := by
    intro cut
    have second := keyCut cut
    omega
  have second := keyWhole keyThere
  obtain ⟨byte,mem,other⟩ := (misread.short.resolve_left idThere).resolve_left keyThere
  obtain ⟨t,u,bytes⟩ := whole.bytes
  have front : dataAt dataRaw = (named id t ++ named key u).length := by
    rw [List.length_append,namedLength,namedLength]
    omega
  have rest : dataRaw.drop (dataAt dataRaw) = value := by
    rw [front]
    nth_rewrite 1 [bytes]
    rw [← List.append_assoc,List.drop_left]
  have zeros : dataRaw.drop (readable dataRaw) = List.replicate (dataRaw.length - readable dataRaw) 0 := by
    have same := read.value
    rw [← rest] at same
    nth_rewrite 1 [← List.take_append_drop (readable dataRaw - dataAt dataRaw) (dataRaw.drop (dataAt dataRaw))] at same
    have tail := List.append_cancel_left same
    rw [List.drop_drop,Nat.add_sub_cancel' (Nat.le_of_lt later)] at tail
    exact tail
  rw [zeros] at mem
  exact other (List.eq_of_mem_replicate mem)

end
end Citizen.Bags.Wire
