import Citizen.Net.MessageBufferCodec
import Citizen.Lib.Run

/-! The data nodes of a sync tree: which of them a message has, and how the body of one is stored and sent on. -/
namespace Citizen.Sync
open BitField (bitAt)
open Rl

structure NodeIds where
  id1 : Nat
  id2 : Nat
  id3 : Nat
  canSendOnFirstUpdate : Bool := true

structure SyncParseState where
  buffer : MessageBuffer
  timestamp : Nat
  frameIndex : Nat
  lastFrameIndex : Nat

structure SyncUnparseState where
  buffer : MessageBuffer
  syncType : Nat
  objType : Nat
  timestamp : Nat
  lastFrameIndex : Nat
  isFirstUpdate : Bool

def shouldRead (syncType objType : Nat) (ids : NodeIds) (b : MessageBuffer) : Bool × MessageBuffer :=
  if ids.id1 &&& syncType = 0 then (false,b)
  else if ids.id3 ≠ 0 ∧ objType &&& ids.id3 = 0 then (false,b)
  else if ids.id2 &&& syncType ≠ 0 then
    let (bit,b) := b.readBit
    (decide (bit ≠ 0),b)
  else (true,b)

def shouldWrite (state : SyncUnparseState) (ids : NodeIds) (defaultValue : Bool) : Bool × SyncUnparseState :=
  if ids.id1 &&& state.syncType = 0 then (false,state)
  else if ids.id3 ≠ 0 ∧ state.objType &&& ids.id3 = 0 then (false,state)
  else if ids.id2 &&& state.syncType ≠ 0 then
    (defaultValue,{ state with buffer := (state.buffer.writeBit defaultValue.toNat).2 })
  else (true,state)

structure NodeWrapper (N : Type) where
  length : Nat
  node : N
  data : List BitField.Byte
  timestamp : Nat
  frameIndex : Nat

section
variable {N : Type}

def NodeWrapper.new (Length : Nat) (node : N) (timestamp frameIndex : Nat) : NodeWrapper N :=
  { length := 0, node, data := List.replicate Length 0, timestamp, frameIndex }

abbrev InnerParse (N : Type) := N → MessageBuffer → N × Nat

def NodeWrapper.parse (lengthHack : Bool) (inner : Option (InnerParse N)) (syncType objType : Nat) (ids : NodeIds)
    (n : NodeWrapper N) (state : SyncParseState) : NodeWrapper N × SyncParseState :=
  let (should,buffer) := shouldRead syncType objType ids state.buffer
  if should then
    let (length,buffer) := buffer.read lengthHack 13
    let endBit := buffer.curBit
    let leftoverByteLength := min (length / 8 + 1) 1024
    let data := if n.data.length < leftoverByteLength then n.data ++ List.replicate (leftoverByteLength - n.data.length) 0 else n.data
    let (_,data,buffer) := buffer.readBits data (min (data.length * 8) length)
    let (node,buffer) := match inner with
      | none => (n.node,buffer)
      | some parse =>
          let (node,curBit) := parse n.node (buffer.setCurrentBit endBit)
          (node,(buffer.setCurrentBit curBit).setCurrentBit (endBit + length))
    ({ length, node, data, timestamp := state.timestamp, frameIndex := state.frameIndex },
      { state with buffer, lastFrameIndex := max state.lastFrameIndex state.frameIndex })
  else (n,{ state with buffer })

def couldWrite (length frameIndex timestamp : Nat) (ids : NodeIds) (state : SyncUnparseState) : Bool :=
  let couldWrite := decide (0 < length ∧ (state.syncType = 1 ∨ state.lastFrameIndex < frameIndex))
  let couldWrite := if state.timestamp ≠ 0 ∧ state.timestamp ≠ timestamp then false else couldWrite
  if state.isFirstUpdate then
    let couldWrite := if ids.canSendOnFirstUpdate then couldWrite else false
    if ids.id3 &&& 1 = 0 then false else couldWrite
  else couldWrite

def NodeWrapper.unparse (ids : NodeIds) (n : NodeWrapper N) (state : SyncUnparseState) : Bool × SyncUnparseState :=
  let (should,state) := shouldWrite state ids (couldWrite n.length n.frameIndex n.timestamp ids state)
  if should then (true,{ state with buffer := (state.buffer.writeBits n.data n.length).2 })
  else (false,state)

def presence (ids : NodeIds) (syncType : Nat) : Nat := if ids.id2 &&& syncType ≠ 0 then 1 else 0

theorem shouldWriteTrue {state : SyncUnparseState} {ids : NodeIds} {value : Bool} (should : (shouldWrite state ids value).1 = true) :
    (presence ids state.syncType = 0 ∧ shouldWrite state ids value = (true,state)) ∨
      (presence ids state.syncType = 1 ∧ value = true ∧
        shouldWrite state ids value = (true,{ state with buffer := (state.buffer.writeBit 1).2 })) := by
  simp only [presence]
  unfold shouldWrite at should ⊢
  split at should
  · cases should
  · split at should
    · cases should
    · rename_i kind object
      rw [if_neg kind,if_neg object]
      split at should
      · rename_i bit
        cases should
        exact .inr ⟨if_pos bit,rfl,by rw [if_pos bit]; rfl⟩
      · rename_i plain
        exact .inl ⟨if_neg plain,if_neg plain⟩

theorem couldWriteSome {length frameIndex timestamp : Nat} {ids : NodeIds} {state : SyncUnparseState}
    (could : couldWrite length frameIndex timestamp ids state = true) : 0 < length := by
  unfold couldWrite at could
  grind

structure Exchange where
  syncType : Nat
  objType : Nat
  state : SyncParseState
  inside : state.buffer.maxBit ≤ 8 * state.buffer.data.length
  frameIndex : Nat
  timestamp : Nat
  later : SyncUnparseState
  laterInside : later.buffer.maxBit ≤ 8 * later.buffer.data.length

section
variable (lengthHack : Bool) (ids : NodeIds)

def Exchange.reads (e : Exchange) : Bool := (shouldRead e.syncType e.objType ids e.state.buffer).1

def Exchange.announced (e : Exchange) : Nat :=
  ((shouldRead e.syncType e.objType ids e.state.buffer).2.read lengthHack 13).1

def Exchange.body (e : Exchange) : Nat :=
  (shouldRead e.syncType e.objType ids e.state.buffer).2.curBit + hackLength lengthHack 13

def Exchange.Available (e : Exchange) : Prop := e.body lengthHack ids + e.announced lengthHack ids ≤ e.state.buffer.maxBit

def Exchange.writes (e : Exchange) : Bool :=
  (shouldWrite e.later ids (couldWrite (e.announced lengthHack ids) e.frameIndex e.timestamp ids e.later)).1

variable (inner : Option (InnerParse N)) (n : NodeWrapper N)

def Exchange.parsed (e : Exchange) : NodeWrapper N × SyncParseState :=
  n.parse lengthHack inner e.syncType e.objType ids e.state

def Exchange.sent (e : Exchange) : Bool × SyncUnparseState :=
  { (e.parsed lengthHack ids inner n).1 with frameIndex := e.frameIndex, timestamp := e.timestamp }.unparse ids e.later

structure Framed (e : Exchange) : Prop where
  cursor : e.reads ids = true → e.Available lengthHack ids →
    (e.parsed lengthHack ids inner n).2.buffer.curBit = e.body lengthHack ids + e.announced lengthHack ids
  sent : e.reads ids = true → e.Available lengthHack ids → (e.sent lengthHack ids inner n).1 = true →
    e.later.buffer.Advanced (e.sent lengthHack ids inner n).2.buffer (presence ids e.later.syncType + e.announced lengthHack ids) ∧
      ∀ i < e.announced lengthHack ids,
        bitAt (e.sent lengthHack ids inner n).2.buffer.data (e.later.buffer.curBit + presence ids e.later.syncType + i) =
          bitAt e.state.buffer.data (e.body lengthHack ids + i)
  stored : (e.parsed lengthHack ids inner n).1.length ≤ 8 * (e.parsed lengthHack ids inner n).1.data.length

structure Fitting (e : Exchange) : Prop where
  short : e.reads ids = true → e.announced lengthHack ids ≤ 8 * max n.data.length 1024
  room : e.reads ids = true → e.Available lengthHack ids → e.writes lengthHack ids = true → 0 < e.announced lengthHack ids →
    e.later.buffer.curBit + presence ids e.later.syncType + e.announced lengthHack ids ≤ e.later.buffer.maxBit

end

section
variable {lengthHack : Bool} {ids : NodeIds} {inner : Option (InnerParse N)} {n : NodeWrapper N} {e : Exchange}

theorem shouldReadKeeps (syncType objType : Nat) (ids : NodeIds) (b : MessageBuffer) :
    (shouldRead syncType objType ids b).2.data = b.data ∧ (shouldRead syncType objType ids b).2.maxBit = b.maxBit := by
  have bit : b.readBit.2.data = b.data ∧ b.readBit.2.maxBit = b.maxBit := by
    unfold MessageBuffer.readBit
    split <;> exact ⟨rfl,rfl⟩
  unfold shouldRead
  split
  · exact ⟨rfl,rfl⟩
  · split
    · exact ⟨rfl,rfl⟩
    · split
      · exact bit
      · exact ⟨rfl,rfl⟩

theorem readMoved (lengthHack : Bool) (b : MessageBuffer) (length : Nat) :
    (b.read lengthHack length).2 = { b with curBit := b.curBit + hackLength lengthHack length } := by
  unfold MessageBuffer.read MessageBuffer.readBitsSingle
  by_cases full : b.maxBit < b.curBit + hackLength lengthHack length
  · simp only [if_pos full]
  · simp only [if_neg full]

theorem bitsFound {b : MessageBuffer} {dest : List BitField.Byte} {length : Nat} (room : length ≤ 8 * dest.length)
    (fits : b.curBit + length ≤ b.maxBit) :
    let found := b.readBits dest length
    found.2.2 = { b with curBit := b.curBit + length } ∧ ∀ i < length, bitAt found.2.1 i = bitAt b.data (b.curBit + i) := by
  unfold MessageBuffer.readBits
  rcases Nat.eq_zero_or_pos length with rfl | positive
  · exact ⟨rfl,fun i none => absurd none (Nat.not_lt_zero i)⟩
  · rw [if_neg (by omega),if_neg (by omega)]
    refine ⟨rfl,fun i within => ?_⟩
    rw [bitAtCopyBits (.inr rfl) positive (by omega),if_pos (by omega),Nat.sub_zero]

theorem readBitsLength (b : MessageBuffer) (dest : List BitField.Byte) (length : Nat) :
    (b.readBits dest length).2.1.length = dest.length := by
  unfold MessageBuffer.readBits
  split
  · rfl
  · split
    · rfl
    · exact copyBitsLength ..

def stored (n : NodeWrapper N) (length : Nat) : Nat := max n.data.length (min (length / 8 + 1) 1024)

theorem parsedUnread (unread : e.reads ids = false) : (e.parsed lengthHack ids inner n).1 = n := by
  simp only [Exchange.parsed,NodeWrapper.parse]
  rw [if_neg (by rw [show (shouldRead e.syncType e.objType ids e.state.buffer).1 = false from unread]; decide)]

def grown (n : NodeWrapper N) (length : Nat) : List BitField.Byte :=
  if n.data.length < min (length / 8 + 1) 1024 then n.data ++ List.replicate (min (length / 8 + 1) 1024 - n.data.length) 0 else n.data

theorem grownLength (n : NodeWrapper N) (length : Nat) : (grown n length).length = stored n length := by
  unfold grown stored
  split
  · rw [List.length_append,List.length_replicate]
    omega
  · omega

theorem prefixRead (e : Exchange) : ((shouldRead e.syncType e.objType ids e.state.buffer).2.read lengthHack 13).2 =
    e.state.buffer.setCurrentBit (e.body lengthHack ids) := by
  obtain ⟨data,top⟩ := shouldReadKeeps e.syncType e.objType ids e.state.buffer
  rw [readMoved,MessageBuffer.setCurrentBit,data,top,Exchange.body]

section
variable (reads : e.reads ids = true)
include reads

theorem parsedReads :
    let length := e.announced lengthHack ids
    let found := (e.state.buffer.setCurrentBit (e.body lengthHack ids)).readBits (grown n length) (min ((grown n length).length * 8) length)
    let parsed := e.parsed lengthHack ids inner n
    parsed.1.length = length ∧ parsed.1.data = found.2.1 ∧
      parsed.2.buffer.curBit = if inner.isSome then e.body lengthHack ids + length else found.2.2.curBit := by
  simp only [Exchange.parsed,NodeWrapper.parse]
  rw [if_pos (show (shouldRead e.syncType e.objType ids e.state.buffer).1 = true from reads),prefixRead]
  cases inner <;> exact ⟨rfl,rfl,rfl⟩

theorem parsedStored : (e.parsed lengthHack ids inner n).1.length = e.announced lengthHack ids ∧
      (e.parsed lengthHack ids inner n).1.data.length = stored n (e.announced lengthHack ids) := by
  obtain ⟨length,data,-⟩ := @parsedReads N lengthHack ids inner n e reads
  exact ⟨length,by rw [data,readBitsLength,grownLength]⟩

theorem parsedBody (available : e.Available lengthHack ids)
    (short : e.announced lengthHack ids ≤ 8 * stored n (e.announced lengthHack ids)) :
    (e.parsed lengthHack ids inner n).2.buffer.curBit = e.body lengthHack ids + e.announced lengthHack ids ∧
      ∀ i < e.announced lengthHack ids,
        bitAt (e.parsed lengthHack ids inner n).1.data i = bitAt e.state.buffer.data (e.body lengthHack ids + i) := by
  obtain ⟨-,data,cursor⟩ := @parsedReads N lengthHack ids inner n e reads
  have whole : min ((grown n (e.announced lengthHack ids)).length * 8) (e.announced lengthHack ids) = e.announced lengthHack ids := by
    rw [grownLength]
    omega
  obtain ⟨buffer,bits⟩ := @bitsFound (e.state.buffer.setCurrentBit (e.body lengthHack ids)) (grown n (e.announced lengthHack ids))
    (e.announced lengthHack ids) (by rw [grownLength]; exact short) available
  rw [whole] at data cursor
  rw [data,cursor,buffer]
  exact ⟨ite_self _,bits⟩

theorem sentWrites : (e.sent lengthHack ids inner n).1 = e.writes lengthHack ids ∧ (e.writes lengthHack ids = true →
      ∃ b, (e.sent lengthHack ids inner n).2.buffer = (b.writeBits (e.parsed lengthHack ids inner n).1.data (e.announced lengthHack ids)).2 ∧
        (presence ids e.later.syncType = 0 ∧ b = e.later.buffer ∨
          presence ids e.later.syncType = 1 ∧ 0 < e.announced lengthHack ids ∧ b = (e.later.buffer.writeBit 1).2)) := by
  obtain ⟨length,-⟩ := @parsedStored N lengthHack ids inner n e reads
  simp only [Exchange.sent,Exchange.writes,NodeWrapper.unparse,length]
  generalize could : couldWrite (e.announced lengthHack ids) e.frameIndex e.timestamp ids e.later = value
  split
  · rename_i should
    refine ⟨should.symm,fun _ => ?_⟩
    rcases shouldWriteTrue should with ⟨plain,same⟩ | ⟨bit,yes,same⟩
    · exact ⟨e.later.buffer,by rw [same],.inl ⟨plain,rfl⟩⟩
    · rw [yes] at could
      exact ⟨(e.later.buffer.writeBit 1).2,by rw [same],.inr ⟨bit,couldWriteSome could,rfl⟩⟩
  · rename_i shouldNot
    exact ⟨(Bool.eq_false_iff.mpr shouldNot).symm,fun should => absurd should shouldNot⟩

end

theorem writeBitBound (b : MessageBuffer) (bit : Nat) :
    (b.writeBit bit).2.curBit ≤ b.curBit + 1 ∧ (b.writeBit bit).2.maxBit = b.maxBit := by
  unfold MessageBuffer.writeBit
  dsimp only
  split
  · exact ⟨Nat.le_succ _,rfl⟩
  · exact ⟨Nat.le_refl _,rfl⟩

theorem writeBitsCursor (b : MessageBuffer) (src : List BitField.Byte) (length : Nat) :
    (b.writeBits src length).2.curBit = if b.maxBit < b.curBit + length then b.curBit else b.curBit + length := by
  unfold MessageBuffer.writeBits
  split <;> rfl

theorem writeBitsNone (b : MessageBuffer) (src : List BitField.Byte) : (b.writeBits src 0).2 = b := by
  unfold MessageBuffer.writeBits
  split <;> rfl

theorem sentExact (reads : e.reads ids = true) (available : e.Available lengthHack ids)
    (short : e.announced lengthHack ids ≤ 8 * stored n (e.announced lengthHack ids)) (writes : e.writes lengthHack ids = true) :
    (e.later.buffer.Advanced (e.sent lengthHack ids inner n).2.buffer (presence ids e.later.syncType + e.announced lengthHack ids) ∧
      ∀ i < e.announced lengthHack ids,
        bitAt (e.sent lengthHack ids inner n).2.buffer.data (e.later.buffer.curBit + presence ids e.later.syncType + i) =
          bitAt e.state.buffer.data (e.body lengthHack ids + i)) ↔ (0 < e.announced lengthHack ids →
        e.later.buffer.curBit + presence ids e.later.syncType + e.announced lengthHack ids ≤ e.later.buffer.maxBit) := by
  obtain ⟨-,written⟩ := @sentWrites N lengthHack ids inner n e reads
  obtain ⟨b,same,before⟩ := written writes
  obtain ⟨-,body⟩ := @parsedBody N lengthHack ids inner n e reads available short
  have inside := e.laterInside
  rw [same]
  constructor
  · rintro ⟨advanced,-⟩ some
    have cursor := advanced.cursor
    rw [writeBitsCursor] at cursor
    rcases before with ⟨plain,rfl⟩ | ⟨bit,-,rfl⟩
    · split at cursor <;> omega
    · obtain ⟨bound,top⟩ := writeBitBound e.later.buffer 1
      split at cursor <;> omega
  · intro room
    rcases before with ⟨plain,rfl⟩ | ⟨bit,some,rfl⟩
    · rcases Nat.eq_zero_or_pos (e.announced lengthHack ids) with empty | some
      · rw [plain,empty,writeBitsNone]
        exact ⟨.refl _,fun i less => absurd less (Nat.not_lt_zero i)⟩
      · obtain ⟨b',wrote,advanced,there⟩ := @bitsWritten e.later.buffer (e.announced lengthHack ids)
          (e.parsed lengthHack ids inner n).1.data inside (by have := room some; omega)
        rw [wrote,plain,Nat.zero_add,Nat.add_zero]
        exact ⟨advanced,fun i less => (there i less).trans (body i less)⟩
    · have enough := room some
      obtain ⟨c,wrote,first,-⟩ := bitWritten true inside (by omega)
      have marked : (e.later.buffer.writeBit 1).2 = c := congrArg Prod.snd wrote
      obtain ⟨b',written',second,there⟩ := @bitsWritten c (e.announced lengthHack ids) (e.parsed lengthHack ids inner n).1.data
        (by rw [first.maxBit,first.length]; exact inside) (by rw [first.maxBit,first.cursor]; omega)
      rw [marked,written',bit]
      rw [first.cursor] at there
      exact ⟨first.trans second,fun i less => (there i less).trans (body i less)⟩

theorem framedIff (known : n.length ≤ 8 * n.data.length) : Framed lengthHack ids inner n e ↔ Fitting lengthHack ids n e := by
  cases reads : e.reads ids with
  | false =>
    have skipped : ¬e.reads ids = true := Bool.eq_false_iff.mp reads
    have kept := @parsedUnread N lengthHack ids inner n e reads
    constructor
    · intro _
      exact ⟨fun read => absurd read skipped,fun read => absurd read skipped⟩
    · intro _
      exact ⟨fun read => absurd read skipped,fun read => absurd read skipped,by rw [kept]; exact known⟩
  | true =>
    obtain ⟨length,size⟩ := @parsedStored N lengthHack ids inner n e reads
    have enough : e.announced lengthHack ids ≤ 8 * max n.data.length 1024 ↔
        e.announced lengthHack ids ≤ 8 * stored n (e.announced lengthHack ids) := by
      unfold stored
      omega
    obtain ⟨writes,-⟩ := @sentWrites N lengthHack ids inner n e reads
    constructor
    · intro framed
      have short := framed.stored
      rw [length,size] at short
      exact ⟨fun _ => enough.mpr short,fun _ available wrote =>
        (sentExact reads available short wrote).mp (framed.sent reads available (writes.trans wrote))⟩
    · intro fitting
      have short := enough.mp (fitting.short reads)
      exact ⟨fun _ available => (parsedBody reads available short).1,fun _ available wrote =>
          (sentExact reads available short (writes.symm.trans wrote)).mpr (fitting.room reads available (writes.symm.trans wrote)),
        by rw [length,size]; exact short⟩

end

theorem parsesFramed (lengthHack : Bool) (ids : NodeIds) (inner : Option (InnerParse N)) (Length : Nat) (node : N)
    (timestamp frameIndex : Nat) (exchanges : List Exchange) :
    Along (fun n e => (e.parsed lengthHack ids inner n).1) (Framed lengthHack ids inner) (.new Length node timestamp frameIndex) exchanges ↔
      Along (fun n e => (e.parsed lengthHack ids inner n).1) (Fitting lengthHack ids) (.new Length node timestamp frameIndex) exchanges :=
  alongIffKept (fun n => n.length ≤ 8 * n.data.length) (fun _ _ _ framed => framed.stored) (fun _ _ known => framedIff known)
    (Nat.zero_le _)

def longNode : Exchange where
  syncType := 1
  objType := 0
  state := { buffer := .ofData [0xFF,0xFF], timestamp := 5, frameIndex := 7, lastFrameIndex := 6 }
  inside := by decide
  frameIndex := 7
  timestamp := 5
  later := { buffer := .ofData [0,0], syncType := 1, objType := 0, timestamp := 0, lastFrameIndex := 0, isFirstUpdate := false }
  laterInside := by decide

theorem longNodeOverrun : ¬Framed true ⟨1,0,0,true⟩ none (NodeWrapper.new 14 () 0 0) longNode := by
  intro framed
  have short := (framedIff (Nat.zero_le _)).mp framed |>.short rfl
  exact absurd short (by decide)

end
end Citizen.Sync
