import Citizen.Bags.StrictUpdates

/-! The way of an update from `SendKeyValue` to the bag of its receiver: which bytes come
into the fixed buffer, and what is read from them on the other side. -/
namespace Citizen.Bags.Wire
open BitField (Byte)
open Rl (MessageBuffer toInt word put)

def RoundTrips (role : StateBagRole) (id key value : List Byte) : Prop :=
  ∀ dataBuffer : List Byte, dataBuffer.length = capacity →
    ∀ packet, SendKeyValue role dataBuffer id key value = some packet →
    ∀ (handlers : OnStateBagChange) (c : Component) (source : Int), c.Writable source id →
      c.receive handlers source packet = some (c.applied handlers source id key value)

/-- There is room for both strings and the value, or for all but a key of the longest kind
behind an id of the longest kind, and the key is the zeros that are read instead. -/
def Fits (id key value : List Byte) : Prop :=
  id.length + key.length + value.length + 6 ≤ capacity ∨
    id.length = 65534 ∧ key = List.replicate 65534 0 ∧ value.length ≤ 65532

theorem putPrefix (size : Nat) (bytes more : List Byte) : ∃ rest, put size bytes more = bytes ++ rest := by
  unfold put
  split
  · exact ⟨more,rfl⟩
  · exact ⟨[],(List.append_nil _).symm⟩

theorem putInside {size : Nat} {bytes : List Byte} (inside : bytes.length ≤ size) (more : List Byte) :
    (put size bytes more).length ≤ size := by
  unfold put
  split
  · rw [List.length_append]
    assumption
  · exact inside

theorem putFits {size : Nat} {bytes more : List Byte} (fits : bytes.length + more.length ≤ size) :
    put size bytes more = bytes ++ more :=
  if_pos fits

theorem putFull {size : Nat} {bytes more : List Byte} (full : ¬bytes.length + more.length ≤ size) :
    put size bytes more = bytes :=
  if_neg full

theorem toIntSmall {n : Nat} (small : n < 2 ^ 28) : toInt (n * 8) = (n * 8 : Nat) := by
  rw [toInt,BitVec.toInt_ofNat',Int.bmod_def]
  omega

section
variable {b : MessageBuffer} {size : Nat} {bytes : List Byte}

theorem writeSizedHolds (holds : b.Holds size bytes) {src : List Byte} (small : src.length < 2 ^ 28) :
    ∃ b', writeSized b src = some b' ∧ b'.Holds size (put size bytes src) := by
  have bits := toIntSmall small
  refine ⟨(b.writeBits src (src.length * 8)).2,?_,holds.bits src⟩
  unfold writeSized
  simp only [bits]
  rw [if_pos (Int.natCast_nonneg _),Int.toNat_natCast]

theorem writeStrHolds (holds : b.Holds size bytes) {str : List Byte} (short : str.length < 65535) :
    ∃ b', writeStr b str = some b' ∧
      b'.Holds size (put size (put size (put size bytes (word (str.length + 1))) str) [0]) := by
  have length : (str.length + 1) % 2 ^ 16 = str.length + 1 := Nat.mod_eq_of_lt (by omega)
  have first := @MessageBuffer.Holds.word b size bytes holds (str.length + 1) (by omega)
  obtain ⟨b₁,written,second⟩ := writeSizedHolds first (show str.length < 2 ^ 28 by omega)
  refine ⟨_,?_,second.byte 0⟩
  rw [writeStr,length,written]
  rfl

end

def header (id key : List Byte) : List Byte :=
  put capacity (put capacity (named id 0 ++ word (key.length + 1)) key) [0]

section
variable {dataBuffer id key value : List Byte}

theorem writtenStrings (size : dataBuffer.length = capacity) (idShort : id.length < 65535)
    (keyShort : key.length < 65535) :
    ∃ b, (writeStr ((MessageBuffer.ofData dataBuffer).setCurrentBit 0) id).bind (fun b => writeStr b key) = some b ∧
      b.Holds capacity (header id key) := by
  have start : ((MessageBuffer.ofData dataBuffer).setCurrentBit 0).Holds capacity [] := by
    refine ⟨?_,size,rfl,rfl⟩
    have bits := Rl.sizedOfData (show dataBuffer.length < 2 ^ 28 by rw [size]; decide)
    rw [MessageBuffer.Sized,MessageBuffer.ofData,size] at bits
    rw [MessageBuffer.setCurrentBit,MessageBuffer.ofData,size]
    exact bits
  obtain ⟨b₁,first,idHolds⟩ := writeStrHolds start idShort
  obtain ⟨b₂,second,keyHolds⟩ := writeStrHolds idHolds keyShort
  have wordLength : ∀ n, (word n).length = 2 := fun _ => rfl
  have idPut : put capacity (put capacity (put capacity [] (word (id.length + 1))) id) [0] = named id 0 := by
    have length : put capacity [] (word (id.length + 1)) = word (id.length + 1) :=
      putFits (by rw [wordLength]; decide)
    have bytes : put capacity (word (id.length + 1)) id = word (id.length + 1) ++ id :=
      putFits (by rw [wordLength,capacity]; omega)
    rw [length,bytes,putFits (by rw [List.length_append,wordLength,List.length_singleton,capacity]; omega),
      named,List.append_assoc]
  have keyPut : put capacity (named id 0) (word (key.length + 1)) = named id 0 ++ word (key.length + 1) :=
    putFits (by rw [namedLength,wordLength,capacity]; omega)
  rw [idPut,keyPut] at keyHolds
  exact ⟨b₂,by rw [first]; exact second,keyHolds⟩

theorem headerKept (id key : List Byte) : ∃ rest, header id key = named id 0 ++ (word (key.length + 1) ++ rest) := by
  obtain ⟨first,same⟩ := putPrefix capacity (named id 0 ++ word (key.length + 1)) key
  obtain ⟨second,last⟩ := putPrefix capacity (named id 0 ++ word (key.length + 1) ++ first) [0]
  refine ⟨first ++ second,?_⟩
  rw [header,same,last]
  simp only [List.append_assoc]

theorem headerLong {id key : List Byte} (fits : id.length + 5 + key.length ≤ capacity) :
    id.length + 5 + key.length ≤ (header id key).length := by
  have length : (named id 0 ++ word (key.length + 1)).length = id.length + 5 := by
    rw [List.length_append,namedLength]
    rfl
  obtain ⟨rest,same⟩ := putPrefix capacity (named id 0 ++ word (key.length + 1) ++ key) [0]
  have keyPut : put capacity (named id 0 ++ word (key.length + 1)) key = named id 0 ++ word (key.length + 1) ++ key :=
    putFits (by rw [length]; exact fits)
  rw [header,keyPut,same,List.length_append,List.length_append,length]
  exact Nat.le_add_right ..

section
variable (size : dataBuffer.length = capacity) (idShort : id.length < 65535) (keyShort : key.length < 65535)
include size idShort keyShort

theorem sentView (small : value.length < 2 ^ 28) :
    (writeKeyValue dataBuffer id key value).map (fun b => b.data.take (b.curBit / 8)) =
      some (put capacity (header id key) value) := by
  obtain ⟨b,written,holds⟩ := @writtenStrings dataBuffer id key size idShort keyShort
  obtain ⟨b',last,done⟩ := writeSizedHolds holds small
  have whole : writeKeyValue dataBuffer id key value = some b' := by
    rw [writeKeyValue,← Option.bind_assoc,written]
    exact last
  rw [whole,Option.map_some,done.cursor,Nat.mul_div_cancel_left _ (by decide),done.taken]

theorem viewInside {data : List Byte}
    (sent : (writeKeyValue dataBuffer id key value).map (fun b => b.data.take (b.curBit / 8)) = some data) :
    data.length ≤ capacity := by
  obtain ⟨b,written,holds⟩ := @writtenStrings dataBuffer id key size idShort keyShort
  obtain ⟨b',last,view⟩ := Option.map_eq_some_iff.mp sent
  rw [writeKeyValue,← Option.bind_assoc,written,Option.bind_some] at last
  have kept : b'.data.length = b.data.length := by
    unfold writeSized at last
    simp only at last
    split at last
    · cases last
      rw [MessageBuffer.writeBits]
      split
      · rfl
      · exact Rl.copyBitsLength ..
    · split at last
      · cases last
        rfl
      · contradiction
  rw [← view,List.length_take,kept,holds.length]
  exact Nat.min_le_right ..

end
end

theorem readableAll {data : List Byte} (small : data.length < 2 ^ 28) : readable data = data.length := by
  have bits : toInt (8 * data.length) = 8 * data.length := Rl.sizedOfData small
  unfold readable
  omega

structure Starts (data id key : List Byte) : Prop where
  idThere : strAt data 0 = id
  idLength : announced data 0 = id.length + 1
  keyStart : keyAt data = id.length + 3
  keyLength : announced data (id.length + 3) = key.length + 1

section
variable {data id key value : List Byte}

theorem startsOf {rest : List Byte} (small : data.length < 2 ^ 28) (idNamed : id ≠ [])
    (idShort : id.length < 65535) (keyShort : key.length < 65535)
    (bytes : data = named id 0 ++ (word (key.length + 1) ++ rest)) : Starts data id key := by
  have all := readableAll small
  have wordLength : (word (key.length + 1)).length = 2 := rfl
  have length : data.length = id.length + 3 + (2 + rest.length) := by
    rw [bytes,List.length_append,List.length_append,namedLength,wordLength]
  have positive := List.length_pos_iff.mpr idNamed
  obtain ⟨here,next⟩ := @strAtNamed data [] id (word (key.length + 1) ++ rest) 0 bytes (by omega)
    (by rw [List.length_nil]; omega)
  rw [List.length_nil] at here next
  refine ⟨here,?_,?_,?_⟩
  · have same := @strAtLength data 0
    rw [here] at same
    omega
  · rw [keyAt,next]
    omega
  · have at' := @Rl.wordAtAppend (named id 0) rest (key.length + 1) (by omega)
    rw [namedLength,← bytes] at at'
    rw [announced,if_pos (by omega),at']

theorem Starts.read (starts : Starts data id key) (small : data.length < 2 ^ 28) (idNamed : id ≠ [])
    (keyNamed : key ≠ []) (keyThere : strAt data (id.length + 3) = key) (some : value ≠ [])
    (rest : data.drop (dataAt data) = value) : Read data id key value := by
  have idPositive := List.length_pos_iff.mpr idNamed
  have keyPositive := List.length_pos_iff.mpr keyNamed
  have before : dataAt data < data.length := by
    have length := congrArg List.length rest
    have positive := List.length_pos_iff.mpr some
    rw [List.length_drop] at length
    omega
  have all := readableAll small
  refine ⟨?_,?_,?_,starts.idThere.symm,?_,?_⟩
  · rw [starts.idLength]
    omega
  · rw [starts.keyStart,starts.keyLength]
    omega
  · rw [all]
    exact before
  · rw [starts.keyStart,keyThere]
  · rw [all,rest,Nat.sub_self,List.replicate_zero,List.append_nil,List.take_of_length_le]
    rw [← rest,List.length_drop]

theorem readFitting (idNamed : id ≠ []) (keyNamed : key ≠ []) (some : value ≠ []) (idShort : id.length < 65535)
    (keyShort : key.length < 65535) (fits : Fits id key value) :
    Read (put capacity (header id key) value) id key value := by
  have wordLength : (word (key.length + 1)).length = 2 := rfl
  rcases fits with room | ⟨idLength,keyZeros,valueShort⟩
  · have keyPut : put capacity (named id 0 ++ word (key.length + 1)) key = named id 0 ++ word (key.length + 1) ++ key :=
      putFits (by rw [List.length_append,namedLength,wordLength]; omega)
    have bytes : put capacity (header id key) value = named id 0 ++ (named key 0 ++ value) := by
      have length : (named id 0 ++ word (key.length + 1) ++ key).length = id.length + key.length + 5 := by
        rw [List.length_append,List.length_append,namedLength,wordLength]
        omega
      have last : header id key = named id 0 ++ word (key.length + 1) ++ key ++ [0] := by
        rw [header,keyPut]
        exact putFits (by rw [length,List.length_singleton]; omega)
      rw [last,putFits (by rw [List.length_append,length,List.length_singleton]; omega),named,named]
      simp only [List.append_assoc]
    rw [bytes]
    have total : (named id 0 ++ (named key 0 ++ value)).length = id.length + key.length + value.length + 6 := by
      rw [List.length_append,List.length_append,namedLength,namedLength]
      omega
    have small : (named id 0 ++ (named key 0 ++ value)).length < 2 ^ 28 := by
      rw [total]
      unfold capacity at room
      omega
    have starts := @startsOf _ id key (key ++ ([0] ++ value)) small idNamed idShort keyShort
      (by rw [named,named]; simp only [List.append_assoc])
    obtain ⟨here,next⟩ := @strAtNamed _ (named id 0) key value 0 rfl (by omega)
      (by rw [readableAll small,total,namedLength]; omega)
    rw [namedLength] at here next
    refine starts.read small idNamed keyNamed here some ?_
    rw [dataAt,starts.keyStart,next,← namedLength id 0,← namedLength key 0,← List.drop_drop,List.drop_left,List.drop_left]
  · subst keyZeros
    rw [List.length_replicate] at wordLength
    have front : (named id 0 ++ word (65534 + 1)).length = 65539 := by
      rw [List.length_append,namedLength,idLength,wordLength]
    have bytes : put capacity (header id (List.replicate 65534 0)) value =
        named id 0 ++ (word (65534 + 1) ++ ([0] ++ value)) := by
      have keyLost : put capacity (named id 0 ++ word ((List.replicate 65534 (0 : Byte)).length + 1))
          (List.replicate 65534 0) = named id 0 ++ word (65534 + 1) := by
        rw [List.length_replicate]
        exact putFull (by rw [front,List.length_replicate,capacity]; omega)
      have last : header id (List.replicate 65534 0) = named id 0 ++ word (65534 + 1) ++ [0] := by
        rw [header,keyLost]
        exact putFits (by rw [front,List.length_singleton,capacity]; omega)
      rw [last,putFits (by rw [List.length_append,front,List.length_singleton,capacity]; omega)]
      simp only [List.append_assoc]
    rw [bytes]
    have total : (named id 0 ++ (word (65534 + 1) ++ ([0] ++ value))).length = 65540 + value.length := by
      rw [← List.append_assoc,List.length_append,front,List.length_append,List.length_singleton]
      omega
    have small : (named id 0 ++ (word (65534 + 1) ++ ([0] ++ value))).length < 2 ^ 28 := by omega
    have all := readableAll small
    have starts := @startsOf _ id (List.replicate 65534 0) ([0] ++ value) small idNamed idShort keyShort
      (by rw [List.length_replicate])
    have length := starts.keyLength
    rw [List.length_replicate] at length
    have cut : Cut (named id 0 ++ (word (65534 + 1) ++ ([0] ++ value))) (id.length + 3) := by
      unfold Cut
      omega
    have next := nextAtCut (by omega) cut
    refine starts.read small idNamed keyNamed ?_ some ?_
    · rw [strAt,if_pos cut,length]
    · have place : id.length + 3 + 3 = (named id 0 ++ word (65534 + 1) ++ [0]).length := by
        rw [List.length_append,front,idLength,List.length_singleton]
      rw [dataAt,starts.keyStart,next,place]
      simp only [← List.append_assoc]
      exact List.drop_left

theorem fitsOfRead (idNamed : id ≠ []) (idShort : id.length < 65535)
    (keyShort : key.length < 65535) (read : Read (put capacity (header id key) value) id key value) :
    Fits id key value := by
  have inside : (header id key).length ≤ capacity := by
    have wordLength : (word (key.length + 1)).length = 2 := rfl
    refine putInside (putInside ?_ _) _
    rw [List.length_append,namedLength,wordLength,capacity]
    omega
  have whole := putInside inside value
  have long := @headerLong id key
  obtain ⟨rest,bytes⟩ := headerKept id key
  obtain ⟨more,grown⟩ := putPrefix capacity (header id key) value
  generalize put capacity (header id key) value = data at *
  have small : data.length < 2 ^ 28 := whole.trans_lt (by decide)
  have all := readableAll small
  have starts := @startsOf data id key (rest ++ more) small idNamed idShort keyShort
    (by rw [grown,bytes]; simp only [List.append_assoc])
  obtain ⟨_,_,total⟩ := read.lengths
  have length := starts.keyLength
  by_cases cut : Cut data (id.length + 3)
  · have next : dataAt data = id.length + 3 + 3 := by
      rw [dataAt,starts.keyStart]
      exact nextAtCut (by omega) cut
    have keyZeros := read.key
    rw [starts.keyStart,strAt,if_pos cut,length,Nat.add_sub_cancel] at keyZeros
    unfold Cut at cut
    have short : ¬id.length + 5 + key.length ≤ capacity := by
      intro fits
      have reached := long fits
      have kept := congrArg List.length grown
      rw [List.length_append] at kept
      omega
    unfold capacity at short whole
    have longest : id.length = 65534 ∧ key.length = 65534 := by omega
    rw [longest.2] at keyZeros
    exact .inr ⟨longest.1,keyZeros,by omega⟩
  · have next : dataAt data = id.length + 3 + 2 + (key.length + 1) := by
      rw [dataAt,starts.keyStart,← length]
      exact nextAtWhole (by omega) cut
    exact .inl (by omega)

end

section
variable {data id key value : List Byte}

theorem handledRead (read : Read data id key value) {c : Component} {source : Int}
    (writable : c.Writable source id) (handlers : OnStateBagChange) :
    (c.HandlePacket handlers source data).1 = c.applied handlers source id key value := by
  rw [Component.handlePacketRead read,Component.handleUpdateWritable writable]

theorem readHandled (keyNamed : key ≠ []) (some : value ≠ [])
    (handled : ((watching id key value).HandlePacket allow 0 data).1 =
      (watching id key value).applied allow 0 id key value) : Read data id key value := by
  cases read : readPacket data with
  | none =>
    rw [Component.HandlePacket,read] at handled
    exact absurd handled.symm (watchingChanged 0 keyNamed)
  | some update =>
    obtain ⟨id',key',value'⟩ := update
    have fields := readPacketIff.mp read
    rw [Component.handlePacketRead fields] at handled
    by_cases writable : (watching id key value).Writable 0 id'
    · rw [Component.handleUpdateWritable writable] at handled
      obtain ⟨rfl,rfl,rfl⟩ := watchingExact keyNamed some fields.nonempty.2.2 writable handled.symm
      exact fields
    · rw [Component.handleUpdateRefused writable] at handled
      exact absurd handled.symm (watchingChanged 0 keyNamed)

theorem roundTripsV2 (idNamed : id ≠ []) : RoundTrips .ClientV2 id key value := by
  intro dataBuffer _ packet sent handlers c source writable
  unfold SendKeyValue at sent
  split at sent
  · contradiction
  · rename_i some
    rw [if_pos rfl] at sent
    cases sent
    rw [Component.receive,Component.HandlePacketV2,if_neg (not_or.mpr ⟨idNamed,some⟩),
      Component.handleUpdateWritable writable]

section
variable {role : StateBagRole} (old : role ≠ .ClientV2)
include old

theorem sentOld (keyNamed : key ≠ []) (some : value ≠ [])
    (dataBuffer : List Byte) : SendKeyValue role dataBuffer id key value =
      .some (.stateBag ((writeKeyValue dataBuffer id key value).map (fun b => b.data.take (b.curBit / 8)))) := by
  rw [SendKeyValue,if_neg (not_or.mpr ⟨keyNamed,some⟩),if_neg old]

section
variable (idNamed : id ≠ []) (keyNamed : key ≠ []) (some : value ≠ []) (idShort : id.length < 65535)
  (keyShort : key.length < 65535)
include idNamed keyNamed some idShort keyShort

theorem roundTripsOfFits (fits : Fits id key value) : RoundTrips role id key value := by
  intro dataBuffer size packet sent handlers c source writable
  have small : value.length < 2 ^ 28 := by
    rcases fits with room | ⟨_,_,room⟩
    · unfold capacity at room
      omega
    · omega
  rw [sentOld old keyNamed some,sentView size idShort keyShort small] at sent
  cases sent
  rw [Component.receive,handledRead (readFitting idNamed keyNamed some idShort keyShort fits) writable]

theorem fitsOfRoundTrips (trips : RoundTrips role id key value) : Fits id key value := by
  have size : (List.replicate capacity (0 : Byte)).length = capacity := List.length_replicate
  generalize List.replicate capacity (0 : Byte) = dataBuffer at size
  have received := trips dataBuffer size _ (sentOld old keyNamed some dataBuffer) allow (watching id key value) 0
    (watchingWritable 0)
  cases sent : (writeKeyValue dataBuffer id key value).map (fun b => b.data.take (b.curBit / 8)) with
  | none =>
    rw [sent] at received
    contradiction
  | some data =>
    rw [sent,Component.receive,Option.some_inj] at received
    have read := readHandled keyNamed some received
    have inside := viewInside size idShort keyShort sent
    have small : value.length < 2 ^ 28 := by
      have total := read.lengths.2.2
      unfold capacity at inside
      omega
    rw [sentView size idShort keyShort small] at sent
    cases sent
    exact fitsOfRead idNamed idShort keyShort read

end
end

/-- An update is sent so that it is applied exactly where there is no value to send, the
receiver takes the newer packet, or everything fits into the buffer. -/
theorem updateDelivery (role : StateBagRole) {id key : List Byte} (value : List Byte) (idNamed : id ≠ [])
    (keyNamed : key ≠ []) (idShort : id.length < 65535) (keyShort : key.length < 65535) :
    RoundTrips role id key value ↔ value = [] ∨ role = .ClientV2 ∨ Fits id key value := by
  by_cases none : value = []
  · subst none
    refine iff_of_true (fun dataBuffer _ packet sent => ?_) (.inl rfl)
    rw [SendKeyValue,if_pos (.inr rfl)] at sent
    contradiction
  by_cases new : role = .ClientV2
  · subst new
    exact iff_of_true (roundTripsV2 idNamed) (.inr (.inl rfl))
  rw [or_iff_right none,or_iff_right new]
  exact ⟨fitsOfRoundTrips new idNamed keyNamed none idShort keyShort,
    roundTripsOfFits new idNamed keyNamed none idShort keyShort⟩

theorem updateDeliveryShort :
    RoundTrips .Server [65] [66] [1] ↔ ([1] : List Byte) = [] ∨ StateBagRole.Server = .ClientV2 ∨ Fits [65] [66] [1] :=
  @updateDelivery .Server [65] [66] [1] (by decide) (by decide) (by decide) (by decide)

end

theorem largeValueLost : ¬RoundTrips .Server [65] [66] (List.replicate 131072 1) := by
  have length := @List.length_replicate Byte 131072 1
  generalize List.replicate 131072 (1 : Byte) = value at length
  intro trips
  have some : value ≠ [] := List.ne_nil_of_length_pos (by omega)
  have fits := @fitsOfRoundTrips [65] [66] value .Server (by decide) (by decide) (by decide) some (by decide)
    (by decide) trips
  rcases fits with room | ⟨longest,_⟩
  · rw [length] at room
    exact absurd room (by decide)
  · exact absurd longest (by decide)

theorem textLength (bytes : List Byte) : (text bytes).length = bytes.length := by
  rw [text,String.length_ofList,List.length_map]

/-- A bag's packet carries a value exactly where it arrives with it; an id of the longest kind is left out. -/
theorem carriesIff {s : StateBag} {id key value : List Byte} (named : s.m_id = text id) (idNamed : id ≠ []) (keyNamed : key ≠ [])
    (some : value ≠ []) (idShort : id.length < 65534) (keyShort : key.length < 65535) :
    s.Carries (text key) (packed value) ↔ RoundTrips s.m_role id key value := by
  have length : (packed value).rest.length + 1 = value.length := by
    rw [packed,List.length_map,List.length_tail]
    exact Nat.sub_add_cancel (List.length_pos_iff.mpr some)
  unfold StateBag.Carries
  rw [named,textLength,textLength,length]
  by_cases new : s.m_role = .ClientV2
  · rw [new]
    exact iff_of_true (.inl rfl) (roundTripsV2 idNamed)
  rw [or_iff_right new]
  constructor
  · rintro ⟨_,_,room⟩
    exact roundTripsOfFits new idNamed keyNamed some (by omega) keyShort (.inl (by omega))
  · intro trips
    rcases fitsOfRoundTrips new idNamed keyNamed some (by omega) keyShort trips with room | ⟨longest,_⟩
    · exact ⟨by omega,keyShort,by omega⟩
    · exact absurd longest (by omega)

end Citizen.Bags.Wire
