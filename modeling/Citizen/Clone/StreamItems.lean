import Citizen.Clone.CloneSync
import Citizen.Net.MessageBufferFields

/-! The records of a `msgPackedClones` packet as runs of fields, and what the client reads
from them. -/
namespace Citizen.Clone
open BitField Rl

inductive StreamItem where
  | time (low high : Nat)
  | clone (msg : MsgClone)
  | remove (msg : MsgRemove)

def MsgClone.header (typeWidth : Nat) (msg : MsgClone) : List (Nat × Nat) :=
  [(3,msg.syncType),(13,msg.objectId),(16,msg.clientId)] ++
    (if msg.syncType = 1 then [(typeWidth,msg.entityType),(32,msg.creationToken)] else []) ++
    [(16,msg.uniqifier),(32,msg.dependentFrameIndex >>> 32),(32,msg.dependentFrameIndex % 2^32),
      (32,msg.timestamp),(12,msg.cloneData.length)]

def StreamItem.fields (lengthHack : Bool) (typeWidth : Nat) : StreamItem → List (Nat × Nat)
  | .time low high => [(3,5),(32,low),(32,high)]
  | .clone msg => (msg.header typeWidth).map (hacked lengthHack) ++ byteFields msg.cloneData
  | .remove msg =>
      [(3,3),(1,msg.stillAlive.toNat),(hackLength lengthHack 13,msg.objectId),(16,msg.uniqifier)]

structure MsgClone.Fits (lengthHack : Bool) (typeWidth : Nat) (msg : MsgClone) : Prop where
  kind : msg.syncType = 1 ∨ msg.syncType = 2 ∧ msg.entityType = 0 ∧ msg.creationToken = 0
  objectId : msg.objectId < 2 ^ hackLength lengthHack 13
  clientId : msg.clientId < 2 ^ 16
  entityType : msg.entityType < 2 ^ typeWidth
  creationToken : msg.creationToken < 2 ^ 32
  uniqifier : msg.uniqifier < 2 ^ 16
  dependentFrameIndex : msg.dependentFrameIndex < 2 ^ 64
  timestamp : msg.timestamp < 2 ^ 32
  length : msg.cloneData.length < 2 ^ 12

def StreamItem.Fits (lengthHack : Bool) (typeWidth : Nat) : StreamItem → Prop
  | .time low high => low < 2 ^ 32 ∧ high < 2 ^ 32
  | .clone msg => msg.Fits lengthHack typeWidth
  | .remove msg => msg.objectId < 2 ^ hackLength lengthHack 13 ∧ msg.uniqifier < 2 ^ 16

def MsgPackedClones.add (msg : MsgPackedClones) : StreamItem → MsgPackedClones
  | .time _ _ => msg
  | .clone clone => { msg with clones := msg.clones ++ [clone] }
  | .remove remove => { msg with removes := msg.removes ++ [remove] }

theorem joinWords (n : Nat) : n >>> 32 <<< 32 ||| n % 2 ^ 32 = n := by
  rw [← Nat.shiftLeft_add_eq_or_of_lt (Nat.mod_lt _ (by decide)),Nat.shiftLeft_eq,
    Nat.shiftRight_eq_div_pow]
  exact Nat.div_add_mod' n (2 ^ 32)

section
variable {reader : Reader} {data : List Byte} {start : Nat}

theorem readCloneRest (lengthHack : Bool) {uniqifier high low timestamp : Nat} {cloneData : List Byte}
    (fields : Fields data start
      ([(16,uniqifier),(32,high),(32,low),(32,timestamp),(12,cloneData.length)] ++ byteFields cloneData))
    (room : start + 124 + 8 * cloneData.length ≤ 8 * data.length) (uniqFits : uniqifier < 2 ^ 16) (highFits : high < 2 ^ 32)
    (lowFits : low < 2 ^ 32) (timeFits : timestamp < 2 ^ 32) (lengthFits : cloneData.length < 2 ^ 12) :
    (MessageBuffer.seek data start).read lengthHack 16 = (uniqifier,.seek data (start + 16)) ∧
      (MessageBuffer.seek data (start + 16)).read lengthHack 32 = (high,.seek data (start + 16 + 32)) ∧
      (MessageBuffer.seek data (start + 16 + 32)).read lengthHack 32 = (low,.seek data (start + 16 + 32 + 32)) ∧
      (MessageBuffer.seek data (start + 16 + 32 + 32)).read lengthHack 32 = (timestamp,.seek data (start + 16 + 32 + 32 + 32)) ∧
      (MessageBuffer.seek data (start + 16 + 32 + 32 + 32)).read lengthHack 12 =
        (cloneData.length,.seek data (start + 16 + 32 + 32 + 32 + 12)) ∧
      (MessageBuffer.seek data (start + 16 + 32 + 32 + 32 + 12)).readBits (List.replicate cloneData.length 0)
          (cloneData.length * 8) =
        (true,cloneData,.seek data (start + 16 + 32 + 32 + 32 + 12 + 8 * cloneData.length)) := by
  obtain ⟨uniq,upper,lower,time,count,body⟩ := fields
  exact ⟨readSeekPlain lengthHack (by decide) (by decide) (by decide) (by omega) uniq uniqFits,
    readSeekPlain lengthHack (by decide) (by decide) (by decide) (by omega) upper highFits,
    readSeekPlain lengthHack (by decide) (by decide) (by decide) (by omega) lower lowFits,
    readSeekPlain lengthHack (by decide) (by decide) (by decide) (by omega) time timeFits,
    readSeekPlain lengthHack (by decide) (by decide) (by decide) (by omega) count lengthFits,
    readBytesSeek (by omega) body⟩

theorem readCloneWritten {msg : MsgClone} (typeBound : 0 < reader.kNetObjectTypeBitLength ∧
      reader.kNetObjectTypeBitLength ≤ 8) (fits : msg.Fits reader.lengthHack reader.kNetObjectTypeBitLength)
    (room : start + widthOf ((StreamItem.clone msg).fields reader.lengthHack reader.kNetObjectTypeBitLength) ≤
      8 * data.length) (fields : Fields data start
      ((StreamItem.clone msg).fields reader.lengthHack reader.kNetObjectTypeBitLength)) :
    readClone reader msg.syncType (.seek data (start + 3)) = (msg,.seek data (start + widthOf
      ((StreamItem.clone msg).fields reader.lengthHack reader.kNetObjectTypeBitLength))) := by
  obtain ⟨syncType,clientId,objectId,entityType,creationToken,uniqifier,frame,timestamp,cloneData⟩ := msg
  obtain ⟨kind,objectFits,clientFits,typeFits,tokenFits,uniqFits,frameFits,timeFits,lengthFits⟩ := fits
  have high : frame >>> 32 < 2 ^ 32 := by
    rw [Nat.shiftRight_eq_div_pow]
    exact Nat.div_lt_of_lt_mul frameFits
  have low : frame % 2 ^ 32 < 2 ^ 32 := Nat.mod_lt _ (by decide)
  have idWidth := @hackLengthId reader.lengthHack
  obtain ⟨idBits,idHack⟩ : ∃ idBits, hackLength reader.lengthHack 13 = idBits := ⟨_,rfl⟩
  have typeHack : hackLength reader.lengthHack reader.kNetObjectTypeBitLength = reader.kNetObjectTypeBitLength :=
    hackLengthOther (by omega)
  rw [idHack] at idWidth
  rcases kind with rfl | ⟨rfl,rfl,rfl⟩
  · simp only [StreamItem.fields,MsgClone.header,hacked,if_true,List.cons_append,List.nil_append,List.map_cons,
      List.map_nil,typeHack,hackLengthOther,idHack,ne_eq,Nat.reduceEqDiff,not_false_eq_true,widthOfCons,
      widthOfBytes,Fields] at fields room objectFits ⊢
    obtain ⟨-,object,client,type,token,rest⟩ := fields
    have readId := readSeek idHack (by omega) (by omega) (by omega) object objectFits
    have readClient := readSeekPlain reader.lengthHack (by decide) (by decide) (by decide) (by omega) client clientFits
    have readType := readSeekPlain reader.lengthHack (by omega) typeBound.1 (by omega) (by omega) type typeFits
    have readToken := readSeekPlain reader.lengthHack (by decide) (by decide) (by decide) (by omega) token tokenFits
    obtain ⟨readUniq,readUpper,readLower,readTime,readCount,readBody⟩ :=
      readCloneRest reader.lengthHack rest (by omega) uniqFits high low timeFits lengthFits
    simp only [readClone,if_true,readId,readClient,readType,readToken,readUniq,readUpper,readLower,readTime,
      readCount,readBody,joinWords]
    simp only [Nat.add_assoc]
  · simp only [StreamItem.fields,MsgClone.header,hacked,if_false,List.cons_append,List.nil_append,List.map_cons,
      List.map_nil,hackLengthOther,idHack,ne_eq,Nat.reduceEqDiff,not_false_eq_true,widthOfCons,
      widthOfBytes,Fields] at fields room objectFits ⊢
    obtain ⟨-,object,client,rest⟩ := fields
    have readId := readSeek idHack (by omega) (by omega) (by omega) object objectFits
    have readClient := readSeekPlain reader.lengthHack (by decide) (by decide) (by decide) (by omega) client clientFits
    obtain ⟨readUniq,readUpper,readLower,readTime,readCount,readBody⟩ :=
      readCloneRest reader.lengthHack rest (by omega) uniqFits high low timeFits lengthFits
    simp only [readClone,if_false,Nat.reduceEqDiff,readId,readClient,readUniq,readUpper,readLower,readTime,
      readCount,readBody,joinWords]
    simp only [Nat.add_assoc]

theorem itemWidth (item : StreamItem) (lengthHack : Bool) (typeWidth : Nat) :
    3 ≤ widthOf (item.fields lengthHack typeWidth) := by
  cases item with
  | clone msg =>
    simp [StreamItem.fields,MsgClone.header,hacked,hackLengthOther]
  | _ =>
    simp only [StreamItem.fields,widthOfCons]
    exact Nat.le_add_right _ _

theorem readItem {item : StreamItem} (typeBound : 0 < reader.kNetObjectTypeBitLength ∧
      reader.kNetObjectTypeBitLength ≤ 8) (fits : item.Fits reader.lengthHack reader.kNetObjectTypeBitLength)
    (room : start + widthOf (item.fields reader.lengthHack reader.kNetObjectTypeBitLength) ≤ 8 * data.length)
    (fields : Fields data start (item.fields reader.lengthHack reader.kNetObjectTypeBitLength))
    (rounds : Nat) (msg : MsgPackedClones) :
    readRecords reader (rounds + 1) (.seek data start) msg = readRecords reader rounds
      (.seek data (start + widthOf (item.fields reader.lengthHack reader.kNetObjectTypeBitLength))) (msg.add item) := by
  have wide := itemWidth item reader.lengthHack reader.kNetObjectTypeBitLength
  have open_ : (MessageBuffer.seek data start).isAtEnd = false := by
    rw [MessageBuffer.isAtEnd,MessageBuffer.seek,decide_eq_false_iff_not]
    simp only
    omega
  have readType : ∀ {value}, Field data start 3 value → value < 8 →
      (MessageBuffer.seek data start).read reader.lengthHack 3 = (value,.seek data (start + 3)) :=
    fun field small => readSeekPlain reader.lengthHack (by decide) (by decide) (by decide) (by omega) field small
  rw [readRecords,open_]
  cases item with
  | time low high =>
    obtain ⟨type,lower,upper,-⟩ := fields
    obtain ⟨lowFits,highFits⟩ := fits
    simp only [StreamItem.fields,widthOfCons,widthOfNil] at room ⊢
    have readLow := readSeekPlain reader.lengthHack (by decide) (by decide) (by decide) (by omega) lower lowFits
    have readHigh := readSeekPlain reader.lengthHack (by decide) (by decide) (by decide) (by omega) upper highFits
    simp only [Bool.false_eq_true,if_false,readType type (by decide),readLow,readHigh,
      MsgPackedClones.add,Nat.add_assoc]
  | clone clone =>
    have type : Field data start 3 clone.syncType := fields.1
    have read := readCloneWritten typeBound fits room fields
    have kind : clone.syncType = 1 ∨ clone.syncType = 2 := fits.kind.imp_right And.left
    simp only [Bool.false_eq_true,if_false,readType type (by omega)]
    rcases kind with create | update
    · rw [create] at read ⊢
      simp only [read,MsgPackedClones.add]
    · rw [update] at read ⊢
      simp only [read,MsgPackedClones.add]
  | remove remove =>
    obtain ⟨type,alive,object,uniq,-⟩ := fields
    obtain ⟨objectFits,uniqFits⟩ := fits
    have idWidth := @hackLengthId reader.lengthHack
    simp only [StreamItem.fields,widthOfCons,widthOfNil] at room ⊢
    have readAlive := readBitSeek (by omega) alive (Bool.toNat_lt remove.stillAlive)
    have readId := readSeek rfl (by omega) (by omega) (by omega) object objectFits
    have readUniq := readSeekPlain reader.lengthHack (by decide) (by decide) (by decide) (by omega) uniq uniqFits
    simp only [Bool.false_eq_true,if_false,readType type (by decide),readAlive,readId,readUniq,
      MsgPackedClones.add]
    rw [show (remove.stillAlive.toNat != 0) = remove.stillAlive by cases remove.stillAlive <;> rfl]
    simp only [Nat.add_assoc]

def MsgPackedClones.addAll (msg : MsgPackedClones) (items : List StreamItem) : MsgPackedClones :=
  items.foldl MsgPackedClones.add msg

def streamFields (lengthHack : Bool) (typeWidth : Nat) (items : List StreamItem) : List (Nat × Nat) :=
  items.flatMap (StreamItem.fields lengthHack typeWidth)

theorem streamWidth (lengthHack : Bool) (typeWidth : Nat) (items : List StreamItem) :
    3 * items.length ≤ widthOf (streamFields lengthHack typeWidth items) := by
  induction items with
  | nil => exact Nat.le_refl _
  | cons item rest ih =>
    have wide := itemWidth item lengthHack typeWidth
    rw [streamFields,List.flatMap_cons,widthOfAppend,List.length_cons]
    rw [streamFields] at ih
    omega

theorem readItems {items : List StreamItem} (typeBound : 0 < reader.kNetObjectTypeBitLength ∧
      reader.kNetObjectTypeBitLength ≤ 8)
    (fits : ∀ item ∈ items, item.Fits reader.lengthHack reader.kNetObjectTypeBitLength)
    (room : start + widthOf (streamFields reader.lengthHack reader.kNetObjectTypeBitLength items) + 3 ≤
      8 * data.length) (fields : Fields data start
      (streamFields reader.lengthHack reader.kNetObjectTypeBitLength items ++ [(3,7)]))
    {rounds : Nat} (enough : items.length < rounds) (msg : MsgPackedClones) :
    readRecords reader rounds (.seek data start) msg = msg.addAll items := by
  induction items generalizing start rounds msg with
  | nil =>
    cases rounds with
    | zero => contradiction
    | succ rounds =>
      have mark : Field data start 3 7 := fields.1
      have open_ : (MessageBuffer.seek data start).isAtEnd = false := by
        rw [MessageBuffer.isAtEnd,MessageBuffer.seek,decide_eq_false_iff_not]
        simp only
        omega
      have read := readSeekPlain reader.lengthHack (by decide) (by decide) (by decide) (by omega) mark (by decide)
      rw [readRecords,open_]
      simp only [Bool.false_eq_true,if_false,read]
      rfl
  | cons item rest ih =>
    cases rounds with
    | zero => contradiction
    | succ rounds =>
      rw [streamFields,List.flatMap_cons,List.append_assoc,fieldsAppend] at fields
      rw [streamFields,List.flatMap_cons,widthOfAppend] at room
      rw [readItem typeBound (fits item List.mem_cons_self) (by omega) fields.1,
        ih (fun other mem => fits other (List.mem_cons_of_mem _ mem)) (by rw [streamFields]; omega) fields.2
          (Nat.lt_of_succ_lt_succ enough)]
      rfl

end

theorem readPacket {reader : Reader} {packet : Sync.PackedClones} {data : List Byte} {items : List StreamItem}
    (typeBound : 0 < reader.kNetObjectTypeBitLength ∧ reader.kNetObjectTypeBitLength ≤ 8)
    (unpacked : reader.lz4Decompress packet.data = some data) (small : data.length < 2 ^ 28)
    (fits : ∀ item ∈ items, item.Fits reader.lengthHack reader.kNetObjectTypeBitLength)
    (room : widthOf (streamFields reader.lengthHack reader.kNetObjectTypeBitLength items) + 3 ≤ 8 * data.length)
    (fields : Fields data 0 (streamFields reader.lengthHack reader.kNetObjectTypeBitLength items ++ [(3,7)])) :
    MsgPackedClones.read reader packet = MsgPackedClones.addAll ⟨packet.frameIndex,[],[]⟩ items := by
  have sized : MessageBuffer.ofData data = .seek data 0 := by
    have top : (MessageBuffer.ofData data).maxBit = 8 * data.length := sizedOfData small
    rw [MessageBuffer.seek,← top]
    rfl
  have wide := streamWidth reader.lengthHack reader.kNetObjectTypeBitLength items
  rw [MsgPackedClones.read,unpacked]
  simp only
  rw [if_neg (by omega),sized]
  exact readItems typeBound fits (by omega) fields (by omega) _

end Citizen.Clone
