import Citizen.Net.MessageBufferBytes
import Citizen.Resources.EventReceive

/-! Fragments and the whole: which fragments a pending event holds, what the copies of
`HandleReceivedPacket` build from a full set, and what the two parsers read from it. -/
namespace Citizen.Resources
open BitField (Byte byteAt bitAt Field)
open Rl (MessageBuffer)

def heldFragments (bits : List Bool) (parts : Nat → List Byte) : List (Nat × List Byte) :=
  ((List.range bits.length).filter (fun i => bits.getD i false)).map (fun i => (i,parts i))

theorem insertFragmentMap {keys : List Nat} (sorted : keys.Pairwise (· < ·)) {p : Nat → Bool} {k : Nat}
    (member : k ∈ keys) (missing : p k = false) (parts : Nat → List Byte) (bytes : List Byte) :
    insertFragment k bytes ((keys.filter p).map (fun i => (i,parts i))) =
      (keys.filter (Function.update p k true)).map (fun i => (i,Function.update parts k bytes i)) := by
  induction keys with
  | nil => contradiction
  | cons a rest ih =>
    obtain ⟨least,tail⟩ := List.pairwise_cons.mp sorted
    by_cases here : k = a
    · subst here
      have same : rest.filter (Function.update p k true) = rest.filter p := by
        apply List.filter_congr
        intro i mem
        rw [Function.update_of_ne (Nat.ne_of_gt (least i mem))]
      have keep : ∀ i ∈ rest.filter p, (i,Function.update parts k bytes i) = (i,parts i) := by
        intro i mem
        rw [Function.update_of_ne (Nat.ne_of_gt (least i (List.mem_of_mem_filter mem)))]
      rw [List.filter_cons_of_neg (by simp [missing]),List.filter_cons_of_pos (by simp),same,
        List.map_cons,List.map_congr_left keep,Function.update_self]
      cases found : rest.filter p with
      | nil => rfl
      | cons b more =>
        have above : k < b := least b (List.mem_of_mem_filter (found ▸ List.mem_cons_self))
        simp [insertFragment,above]
    · have inRest : k ∈ rest := (List.mem_cons.mp member).resolve_left here
      have above := least k inRest
      have next := ih tail inRest
      cases set : p a with
      | false =>
        rw [List.filter_cons_of_neg (by simp [set]),
          List.filter_cons_of_neg (by simp [Function.update_of_ne (Ne.symm here),set]),next]
      | true =>
        rw [List.filter_cons_of_pos set,
          List.filter_cons_of_pos (by simp [Function.update_of_ne (Ne.symm here),set]),
          List.map_cons,List.map_cons,← next,insertFragment,if_neg (by omega),if_neg here,
          Function.update_of_ne (Ne.symm here)]

theorem insertHeld {bits : List Bool} {k : Nat} (inside : k < bits.length)
    (missing : bits.getD k false = false) (parts : Nat → List Byte) (bytes : List Byte) :
    insertFragment k bytes (heldFragments bits parts) =
      heldFragments (bits.set k true) (Function.update parts k bytes) := by
  have sorted : (List.range bits.length).Pairwise (· < ·) := List.pairwise_lt_range
  have set : (fun i => (bits.set k true).getD i false) =
      Function.update (fun i => bits.getD i false) k true := by
    funext i
    simp only [List.getD_eq_getElem?_getD,List.getElem?_set,Function.update_apply]
    by_cases same : k = i
    · subst same
      simp [inside]
    · simp [same,Ne.symm same]
  rw [heldFragments,heldFragments,List.length_set,set]
  exact insertFragmentMap sorted (List.mem_range.mpr inside) missing parts bytes

theorem heldAll {bits : List Bool} (all : bits.all id = true) (parts : Nat → List Byte) :
    heldFragments bits parts = (List.range bits.length).map (fun i => (i,parts i)) := by
  rw [heldFragments,List.filter_eq_self.mpr]
  intro i mem
  have inside := List.mem_range.mp mem
  have bit := List.all_eq_true.mp all _ (List.getElem_mem inside)
  simpa [List.getD_eq_getElem?_getD,inside] using bit

theorem heldNone (count : Nat) (parts : Nat → List Byte) : heldFragments (List.replicate count false) parts = [] := by
  rw [heldFragments,List.filter_eq_nil_iff.mpr,List.map_nil]
  intro i mem
  have inside : i < count := by simpa using mem
  simp [List.getD_eq_getElem?_getD,inside]

structure Filled (fragmentSize count : Nat) (parts : Nat → List Byte) : Prop where
  whole : ∀ i, i + 1 < count → (parts i).length = fragmentSize
  fits : ∀ i < count, (parts i).length ≤ fragmentSize

theorem memcpyAppend (front back src : List Byte) (s n : Nat) (room : n ≤ back.length) (inside : s + n ≤ src.length) :
    Rl.memcpy (front ++ back) front.length src s n = front ++ (src.drop s).take n ++ back.drop n := by
  induction n generalizing front back s with
  | zero => simp [Rl.memcpy]
  | succ n ih =>
    cases back with
    | nil => simp at room
    | cons b rest =>
      have byte := @BitField.dropByte src s (by omega)
      have store : (front ++ b :: rest).set front.length (byteAt src s) =
          (front ++ [byteAt src s]) ++ rest := by
        simp
      rw [Rl.memcpy,store,byte]
      have next := ih (front ++ [byteAt src s]) rest (s + 1) (by simpa using room) (by omega)
      rw [List.length_append,List.length_singleton] at next
      rw [next]
      simp

def joined (parts : Nat → List Byte) (count : Nat) : List Byte := (List.range count).flatMap parts

theorem joinedSucc (parts : Nat → List Byte) (count : Nat) :
    joined parts (count + 1) = joined parts count ++ parts count := by
  simp [joined,List.range_succ]

section
variable {fragmentSize count : Nat} {parts : Nat → List Byte} (filled : Filled fragmentSize count parts)
include filled

theorem joinedLength {n : Nat} (early : n < count) : (joined parts n).length = n * fragmentSize := by
  induction n with
  | zero => simp [joined]
  | succ n ih =>
    rw [joinedSucc,List.length_append,ih (by omega),filled.whole n early]
    ring

theorem joinedFits : (joined parts count).length ≤ count * fragmentSize := by
  cases count with
  | zero => simp [joined]
  | succ n =>
    rw [joinedSucc,List.length_append,joinedLength filled (Nat.lt_succ_self n)]
    have last := filled.fits n (Nat.lt_succ_self n)
    rw [Nat.add_mul,Nat.one_mul]
    exact Nat.add_le_add_left last _

theorem copiesJoin (offsets : count * fragmentSize ≤ 2 ^ 32) {n : Nat} (some : n ≤ count) :
    (((List.range n).map (fun i => (i,parts i))).map
        (fun packet => (packet.1 * fragmentSize % 2 ^ 32,packet.2))).foldl
      (fun payload copy => Rl.memcpy payload copy.1 copy.2 0 copy.2.length)
      (List.replicate (count * fragmentSize) 0) =
    joined parts n ++ List.replicate (count * fragmentSize - (joined parts n).length) 0 := by
  induction n with
  | zero => simp [joined]
  | succ n ih =>
    have before := joinedLength filled some
    have after : (joined parts (n + 1)).length ≤ count * fragmentSize := by
      rcases Nat.lt_or_ge (n + 1) count with early | last
      · rw [joinedLength filled early]
        exact Nat.mul_le_mul_right _ (Nat.le_of_lt early)
      · have whole : n + 1 = count := by omega
        rw [whole]
        exact joinedFits filled
    rw [joinedSucc,List.length_append] at after
    have offset : n * fragmentSize % 2 ^ 32 = (joined parts n).length := by
      rw [before]
      refine Nat.mod_eq_of_lt (Nat.lt_of_le_of_ne ?_ ?_)
      · exact (Nat.mul_le_mul_right _ (by omega)).trans offsets
      · intro top
        have below : n * fragmentSize ≤ count * fragmentSize := Nat.mul_le_mul_right _ (by omega)
        have zero : fragmentSize ≠ 0 := by
          rintro rfl
          simp at top
        have strict : n * fragmentSize < count * fragmentSize :=
          Nat.mul_lt_mul_of_pos_right some (Nat.pos_of_ne_zero zero)
        omega
    rw [List.range_succ,List.map_append,List.map_append,List.foldl_append,ih (by omega)]
    simp only [List.map_cons,List.map_nil,List.foldl_cons,List.foldl_nil,offset]
    rw [memcpyAppend _ _ _ _ _ (by rw [List.length_replicate]; omega) (by omega),joinedSucc,
      List.length_append,List.drop_zero,List.take_length,List.drop_replicate,Nat.sub_sub]

end

structure Assembled (fragmentSize : Nat) (parts : Nat → List Byte) (event : ReceiveEvent) : Prop where
  all : event.hasAll = true
  held : event.packetData = heldFragments event.ackedBits parts
  filled : Filled fragmentSize event.ackedBits.length parts
  offsets : event.ackedBits.length * fragmentSize ≤ 2 ^ 32

section
variable {fragmentSize parts event} (assembled : Assembled fragmentSize parts event)
include assembled

theorem Assembled.packetData : event.packetData = (List.range event.ackedBits.length).map (fun i => (i,parts i)) :=
  assembled.held.trans (heldAll assembled.all parts)

theorem Assembled.readSize : event.readSize = (joined parts event.ackedBits.length).length := by
  rw [ReceiveEvent.readSize,assembled.packetData,joined,List.length_flatMap,List.map_map]
  rfl

theorem Assembled.view : event.view fragmentSize = joined parts event.ackedBits.length := by
  have size := joinedFits assembled.filled
  have payload : event.eventPayload fragmentSize = _ :=
    congrArg (fun data => (data.map (fun packet : Nat × List Byte =>
      (packet.1 * fragmentSize % 2 ^ 32,packet.2))).foldl
        (fun payload copy => Rl.memcpy payload copy.1 copy.2 0 copy.2.length)
        (List.replicate (event.ackedBits.length * fragmentSize) 0)) assembled.packetData
  rw [ReceiveEvent.view,payload,copiesJoin assembled.filled assembled.offsets (le_refl _),
    assembled.readSize,ReceiveEvent.bufferSize,Nat.sub_eq_zero_of_le size]
  simp

theorem Assembled.copies :
    ∀ copy ∈ event.copies fragmentSize, copy.1 + copy.2.length ≤ event.bufferSize fragmentSize := by
  rw [ReceiveEvent.copies,assembled.packetData,List.map_map]
  intro copy mem
  obtain ⟨i,inRange,rfl⟩ := List.mem_map.mp mem
  have inside := List.mem_range.mp inRange
  have fits := assembled.filled.fits i inside
  have offset : i * fragmentSize % 2 ^ 32 ≤ i * fragmentSize := Nat.mod_le _ _
  have slot : (i + 1) * fragmentSize ≤ event.ackedBits.length * fragmentSize :=
    Nat.mul_le_mul_right _ inside
  simp only [Function.comp_apply,ReceiveEvent.bufferSize]
  rw [Nat.add_mul] at slot
  omega

end

/-! The parsers. -/

def announcedLength (v2 : Bool) (view : List Byte) : Nat :=
  if v2 then (byteAt view 0).toNat + 2 ^ 8 * (byteAt view 1).toNat
  else 2 ^ 8 * (byteAt view 0).toNat + (byteAt view 1).toNat

theorem fieldTwoBytes (view : List Byte) : Field view 0 16 (announcedLength false view) :=
  Rl.fieldWord view 0

theorem announcedLengthLt (v2 : Bool) (view : List Byte) : announcedLength v2 view < 2 ^ 16 := by
  have first := (byteAt view 0).isLt
  have second := (byteAt view 1).isLt
  rw [announcedLength]
  split <;> omega

theorem announcedPrefix {length : Nat} (short : length < 2 ^ 16) (rest : List Byte) :
    announcedLength false ([BitVec.ofNat 8 (length / 2 ^ 8),BitVec.ofNat 8 length] ++ rest) = length :=
  Rl.wordAtAppend [] rest short

theorem readAnnounced {view : List Byte} (small : view.length < 2 ^ 28) (room : 2 ≤ view.length) :
    (MessageBuffer.ofData view).read false 16 =
      (announcedLength false view,{ MessageBuffer.ofData view with curBit := 16 }) := by
  have bound := announcedLengthLt false view
  have field := @Rl.readField (MessageBuffer.ofData view) 16 (announcedLength false view)
    (Rl.sizedOfData small) (by omega) (by omega) (show 0 + 16 ≤ 8 * view.length by omega)
    (fieldTwoBytes view)
  rw [MessageBuffer.read,field]
  simp only [BitVec.toNat_ofNat]
  rw [Nat.mod_eq_of_lt bound,Nat.mod_eq_of_lt (by omega)]
  rfl

variable {eventName view : List Byte}

theorem parseEventSlices (static : eventName.length = 65536)
    (small : view.length < 2 ^ 28) (positive : 1 ≤ announcedLength false view)
    (inside : 2 + announcedLength false view ≤ view.length) :
    (parseEvent eventName view).nameLength = announcedLength false view ∧ (parseEvent eventName view).name =
        some ((view.drop 2).take (announcedLength false view - 1)) ∧
      (parseEvent eventName view).data = some (view.drop (2 + announcedLength false view)) := by
  have bound := announcedLengthLt false view
  have sized : (MessageBuffer.ofData view).Sized := Rl.sizedOfData small
  have read := readAnnounced small (by omega)
  have bits := fun p => @Rl.readBitsBits { MessageBuffer.ofData view with curBit := 16 }
    (announcedLength false view * 8) eventName p sized (by omega)
    (show 16 + announcedLength false view * 8 ≤ 8 * view.length by omega) (by omega)
  simp only [parseEvent,read,(bits 0).1]
  generalize announcedLength false view = n at *
  have cursor : (16 + n * 8) / 8 = 2 + n := by omega
  refine ⟨trivial,?_,?_⟩
  · rw [if_neg (by omega),Option.some.injEq,List.take_set_of_le (by omega)]
    apply BitField.eqOfBits
    · simp [Rl.copyBitsLength,static]
      omega
    · intro i hi
      have near : i < 8 * (n - 1) := by
        simp [Rl.copyBitsLength,static] at hi
        omega
      rw [BitField.bitAtTake _ _ near,BitField.bitAtTake _ _ near,BitField.bitAtDrop,(bits i).2,
        if_pos (by omega)]
      rfl
  · rw [cursor,if_neg (by omega)]

theorem parseEventStatic (static : eventName.length = 65536) :
    (parseEvent eventName view).eventName.length = 65536 := by
  simp only [parseEvent]
  rw [List.length_set]
  simp only [MessageBuffer.readBits]
  split
  · exact static
  · split
    · exact static
    · exact (Rl.copyBitsLength _ _ _ _ _).trans static

theorem parseEventV2Slices {uninitialised : Nat} (inside : 2 + announcedLength true view ≤ view.length) :
    (parseEventV2 uninitialised eventName view).nameLength = announcedLength true view ∧
      (parseEventV2 uninitialised eventName view).name = some ((view.drop 2).take (announcedLength true view)) ∧
      (parseEventV2 uninitialised eventName view).data = some (view.drop (2 + announcedLength true view)) := by
  rw [announcedLength,if_pos rfl] at inside ⊢
  simp only [parseEventV2,if_pos (show 2 ≤ view.length by omega),if_pos inside,and_self]

theorem eventNameStep {c : Component} (static : c.eventName.length = 65536) (op : Op) :
    (c.step op).eventName.length = 65536 := by
  cases delivers : op.fragment with
  | none =>
    rw [eventNameUndelivered delivers]
    exact static
  | some delivery =>
    obtain ⟨arrival,fragment⟩ := delivery
    have aside := asideReceive c arrival fragment
    simp only [Component.aside,Prod.mk.injEq] at aside
    have kept : (c.receive arrival fragment).component.eventName.length = 65536 := by
      rw [aside.2.2.2]
      exact static
    rw [stepFragment delivers]
    simp only [Component.finishReceipt]
    split
    · exact kept
    · rename_i event done
      have parsed : (if fragment.v2 then parseEventV2 arrival.nameLength
            (c.receive arrival fragment).component.eventName (event.view fragment.fragmentSize)
          else parseEvent (c.receive arrival fragment).component.eventName
            (event.view fragment.fragmentSize)).eventName.length = 65536 := by
        split
        · exact kept
        · exact parseEventStatic kept
      simp only [Component.handleReceivedPacket]
      split
      · exact parsed
      · split <;> exact parsed

theorem eventNameReachable {now : Int} {c : Component}
    (reachable : Reachable Component.step (.init now) c) : c.eventName.length = 65536 :=
  reachableKeeps (fun c => c.eventName.length = 65536) (fun _ op static => eventNameStep static op)
    List.length_replicate reachable

end Citizen.Resources
