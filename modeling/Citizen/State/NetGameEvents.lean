import Citizen.Net.SerializableSizes
import Citizen.Registry.RemovalFrame
import Citizen.Rpc.ServerRpc
import Citizen.State.ServerState

/-! `NetGameEventPacketHandlerV2`: the targets of a net game event of a client, and the copies that are sent of it. -/
namespace Citizen.State
open BitField (Byte)
open Citizen.Net Citizen.Registry

def roundToType (val : Nat) : Nat := (val + 8 - 1) / 8 * 8

structure EastlBitset where
  Bits : Type
  reset : Bits
  test : Bits → Nat → Bool
  set : Bits → Nat → Bits

namespace EastlBitset

structure Lawful (bitset : EastlBitset) (size : Nat) : Prop where
  testReset : ∀ i, i < size → bitset.test bitset.reset i = false
  testSet : ∀ bits i, i < size → bitset.test (bitset.set bits i) i = true
  testOther : ∀ bits i j, i < size → j < size → j ≠ i → bitset.test (bitset.set bits i) j = bitset.test bits j

theorem Lawful.testSetIff {bitset : EastlBitset} {size : Nat} (lawful : bitset.Lawful size) {bits : bitset.Bits} {i j : Nat}
    (insideI : i < size) (insideJ : j < size) :
    bitset.test (bitset.set bits i) j = false ↔ j ≠ i ∧ bitset.test bits j = false := by
  by_cases same : j = i
  · subst same
    rw [lawful.testSet _ _ insideI]
    simp
  · rw [lawful.testOther _ _ _ insideI insideJ same]
    exact ⟨fun unset => ⟨same,unset⟩,And.right⟩

def unchecked (size : Nat) : EastlBitset where
  Bits := Nat → Bool
  reset := fun _ => false
  test bits i := if i < size then bits i else false
  set bits i := if i < size then Function.update bits i true else bits

theorem uncheckedLawful (size : Nat) : (unchecked size).Lawful size where
  testReset i _ := ite_self _
  testSet bits i small :=
    (if_pos small).trans ((congrFun (if_pos small) i).trans (Function.update_self i true bits))
  testOther bits i j small within other := by
    refine (if_pos within).trans ((congrFun (if_pos small) j).trans ((Function.update_of_ne other true bits).trans ?_))
    exact (if_pos within).symm

end EastlBitset

structure ClientNetGameEventV2 where
  targetPlayers : List (BitVec 16)
  eventNameHash : BitVec 32
  eventId : BitVec 16
  isReply : Bool
  data : List Byte
  few : data.length ≤ 1025

structure ServerNetGameEventV2 where
  clientNetId : BitVec 16
  eventNameHash : BitVec 32
  eventId : BitVec 16
  isReply : Bool
  data : List Byte

namespace ServerNetGameEventV2
open PacketType (packet)

def number (type : Primitive) (n : Nat) : Fin type.range := ⟨n % type.range,Nat.mod_lt _ type.rangePositive⟩

def value (e : ServerNetGameEventV2) : (packet PacketType.ServerNetGameEventV2).Value :=
  (number .uint32 (Rpc.HashRageString (text "msgNetGameEventV2")).toNat,
    (number .uint16 e.clientNetId.toNat,number .uint32 e.eventNameHash.toNat,number .uint16 e.eventId.toNat,
      number .bool e.isReply.toNat,e.data.map (fun b (_ : Fin 1) => b),()),())

def serializable : Serializable (packet PacketType.ServerNetGameEventV2) :=
  .cons (.property .uint32 false)
    (.cons (.cons (.property .uint16 false) (.cons (.property .uint32 false) (.cons (.property .uint16 false)
      (.cons (.property .bool false) (.cons (.elements _ false _ (by decide) (by decide)) .nil))))) .nil)

def kServerMaxReplySize : Nat := serializable.GetMaxSize

def kServerMaxReplyCapacity : Fin maxObject := ⟨kServerMaxReplySize % maxObject,Nat.mod_lt _ (by decide)⟩

def routingBuffer (e : ServerNetGameEventV2) : Option (List Byte) :=
  ((packet PacketType.ServerNetGameEventV2).write e.value ⟨kServerMaxReplyCapacity,[]⟩).map ByteWriter.m_data

theorem valueLength (e : ServerNetGameEventV2) :
    ((packet PacketType.ServerNetGameEventV2).encode e.value).length = 13 + e.data.length := by
  have content := @PacketType.elementsLength (ConstrainedStreamTail 0 1025) false 1 (e.data.map (fun b _ => b))
  have whole : (packet PacketType.ServerNetGameEventV2).encode e.value =
      Primitive.toBytes .uint32 false (number .uint32 (Rpc.HashRageString (text "msgNetGameEventV2")).toNat) ++
        ((Primitive.toBytes .uint16 false (number .uint16 e.clientNetId.toNat) ++
          (Primitive.toBytes .uint32 false (number .uint32 e.eventNameHash.toNat) ++
            (Primitive.toBytes .uint16 false (number .uint16 e.eventId.toNat) ++
              (Primitive.toBytes .bool false (number .bool e.isReply.toNat) ++
                ((PacketType.elements (ConstrainedStreamTail 0 1025) false 1).encode (e.data.map (fun b _ => b)) ++ []))))) ++
          []) := rfl
  have counted : (ConstrainedStreamTail 0 1025).counted e.data.length = e.data.length := rfl
  have unprefixed : (ConstrainedStreamTail 0 1025).lengthPrefix false e.data.length = [] := rfl
  rw [List.length_map,counted,unprefixed] at content
  have single : ((1 : Fin (2 ^ 16)) : Nat) = 1 := rfl
  rw [whole]
  simp only [List.length_append,Primitive.toBytesLength,content,Primitive.sizeof,List.length_nil,single]
  omega

theorem routingBufferWritten {e : ServerNetGameEventV2} (few : e.data.length ≤ 1025) : ∃ data, e.routingBuffer = some data := by
  have good : (packet PacketType.ServerNetGameEventV2).valid e.value = true := by
    show (((ConstrainedStreamTail 0 1025).ValidateSize (e.data.map (fun b (_ : Fin 1) => b)).length && true) && true) = true
    have bounded : (ConstrainedStreamTail 0 1025).ValidateSize e.data.length = !decide (1025 < e.data.length) := rfl
    rw [List.length_map,Bool.and_true,Bool.and_true,bounded,decide_eq_false (Nat.not_lt.mpr few)]
    rfl
  have small : ((packet PacketType.ServerNetGameEventV2).encode e.value).length < maxObject := by
    have length := valueLength e
    unfold maxObject
    omega
  have fits : serializable.GetMaxSize ≤ kServerMaxReplyCapacity := by decide
  obtain ⟨w',written⟩ := serializable.maxEnough good small fits
  exact ⟨w'.m_data,by rw [routingBuffer,written]; rfl⟩

end ServerNetGameEventV2

structure GameStatePublic where
  blockedEvents : BitVec 32 → Bool
  GetClientRoutingBucket : Handle → BitVec 32
  relevantTo : Handle → Option (BitVec 32 → Bool)

def GameStatePublic.IsClientRelevantEntity (sgs : GameStatePublic) (client : Handle) (objectId : BitVec 32) : Bool :=
  match sgs.relevantTo client with
  | some relevantTo => relevantTo objectId
  | none => false

structure NetEventRouting where
  used : List Nat
  sent : List (Handle × List Byte)

namespace NetGameEvent
variable (bitset : EastlBitset) (sgs : GameStatePublic)

def accepts (s : ClientRegistry) (client : Handle) (player : BitVec 16) : Bool :=
  match s.GetClientByNetID (player.setWidth 32) with
  | none => false
  | some targetClient =>
    if sgs.GetClientRoutingBucket targetClient ≠ sgs.GetClientRoutingBucket client then false
    else sgs.IsClientRelevantEntity client (s.objects targetClient).m_slotId

def collect (accepts : BitVec 16 → Bool) : List (BitVec 16) → bitset.Bits → List (BitVec 16) × List Nat
  | [],_ => ([],[])
  | player :: rest,processed =>
    if bitset.test processed player.toNat then
      let later := collect accepts rest processed
      (later.1,player.toNat :: later.2)
    else
      let later := collect accepts rest (bitset.set processed player.toNat)
      (if accepts player then player :: later.1 else later.1,player.toNat :: player.toNat :: later.2)

def reaches (s : ClientRegistry) (player : BitVec 16) : Option Handle :=
  (s.GetClientByNetID (player.setWidth 32)).filter (fun targetClient => (s.objects targetClient).m_peer.isSome)

def RouteEvent (s : ClientRegistry) (targetPlayers : List (BitVec 16)) (data : List Byte) : List (Handle × List Byte) :=
  targetPlayers.filterMap (fun player => (reaches s player).map (fun targetClient => (targetClient,data)))

def serverNetEvent (s : ClientRegistry) (client : Handle) (clientNetEvent : ClientNetGameEventV2) : ServerNetGameEventV2 :=
  ⟨(s.objects client).m_netId.setWidth 16,clientNetEvent.eventNameHash,clientNetEvent.eventId,clientNetEvent.isReply,
    clientNetEvent.data⟩

/-- `eventHandler` is what `GetGameEventHandlerWithEvent` made of the event: what it answers on the main thread, and the
clients as they are then. -/
def ProcessNetEvent (s : ClientRegistry) (client : Handle) (clientNetEvent : ClientNetGameEventV2)
    (eventHandler : Option (Bool × ClientRegistry)) : NetEventRouting :=
  if sgs.blockedEvents clientNetEvent.eventNameHash then ⟨[],[]⟩
  else
    match (serverNetEvent s client clientNetEvent).routingBuffer with
    | none => ⟨[],[]⟩
    | some routingBuffer =>
      let (targetPlayers,used) := collect bitset (accepts sgs s client) clientNetEvent.targetPlayers bitset.reset
      match eventHandler with
      | some (true,later) => ⟨used,RouteEvent later targetPlayers routingBuffer⟩
      | some (false,_) => ⟨used,[]⟩
      | none => ⟨used,RouteEvent s targetPlayers routingBuffer⟩

def routing (s : ClientRegistry) (eventHandler : Option (Bool × ClientRegistry)) : Option ClientRegistry :=
  match eventHandler with
  | some (true,later) => some later
  | some (false,_) => none
  | none => some s

variable {bitset sgs} {accepts : BitVec 16 → Bool}

section Collecting
variable {size : Nat}

theorem collectUsed (players : List (BitVec 16)) (processed : bitset.Bits) :
    (∀ i ∈ (collect bitset accepts players processed).2, i < size) ↔ ∀ player ∈ players, player.toNat < size := by
  induction players generalizing processed with
  | nil => exact iff_of_true nofun nofun
  | cons player rest ih =>
    unfold collect
    split
    · simp only [List.forall_mem_cons,ih]
    · simp only [List.forall_mem_cons,ih]
      tauto

theorem collectOnce (lawful : bitset.Lawful size) {players : List (BitVec 16)} {processed : bitset.Bits}
    (inside : ∀ player ∈ players, player.toNat < size) :
    (collect bitset accepts players processed).1.Nodup ∧ ∀ player, player ∈ (collect bitset accepts players processed).1 ↔
      player ∈ players ∧ accepts player = true ∧ bitset.test processed player.toNat = false := by
  induction players generalizing processed with
  | nil => exact ⟨List.nodup_nil,fun player => by simp [collect]⟩
  | cons player rest ih =>
    obtain ⟨here,later⟩ := List.forall_mem_cons.mp inside
    unfold collect
    by_cases seen : bitset.test processed player.toNat = true
    · rw [if_pos seen]
      obtain ⟨nodup,kept⟩ := @ih processed later
      refine ⟨nodup,fun other => (kept other).trans ?_⟩
      constructor
      · exact fun ⟨mem,rest⟩ => ⟨List.mem_cons_of_mem _ mem,rest⟩
      · rintro ⟨mem,accepted,unseen⟩
        obtain rfl | mem := List.mem_cons.mp mem
        · cases seen.symm.trans unseen
        · exact ⟨mem,accepted,unseen⟩
    · rw [if_neg seen]
      obtain ⟨nodup,kept⟩ := @ih (bitset.set processed player.toNat) later
      have fresh : player ∉ (collect bitset accepts rest (bitset.set processed player.toNat)).1 := by
        intro mem
        exact ((lawful.testSetIff here here).mp ((kept player).mp mem).2.2).1 rfl
      have others (other : BitVec 16) : other ∈ (collect bitset accepts rest (bitset.set processed player.toNat)).1 ↔
          other ≠ player ∧ other ∈ rest ∧ accepts other = true ∧ bitset.test processed other.toNat = false := by
        constructor
        · intro mem
          obtain ⟨among,accepted,unset⟩ := (kept other).mp mem
          exact ⟨fun same => fresh (same ▸ mem),among,accepted,((lawful.testSetIff here (later other among)).mp unset).2⟩
        · rintro ⟨apart,among,accepted,unseen⟩
          exact (kept other).mpr ⟨among,accepted,(lawful.testSetIff here (later other among)).mpr
            ⟨fun same => apart (BitVec.eq_of_toNat_eq same),unseen⟩⟩
      dsimp only
      split
      · rename_i accepted
        refine ⟨List.nodup_cons.mpr ⟨fresh,nodup⟩,fun other => ?_⟩
        rw [List.mem_cons,List.mem_cons,others]
        by_cases same : other = player
        · subst same
          simp [accepted,seen]
        · simp [same]
      · rename_i refused
        refine ⟨nodup,fun other => ?_⟩
        rw [List.mem_cons,others]
        by_cases same : other = player
        · subst same
          simp [refused]
        · simp [same]

end Collecting

/-! Who is sent what. -/

def Wanted (sgs : GameStatePublic) (s : ClientRegistry) (client : Handle) (players : List (BitVec 16)) (player : BitVec 16)
    (c : Handle) : Prop :=
  player ∈ players ∧ s.GetClientByNetID (player.setWidth 32) = some c ∧
    sgs.GetClientRoutingBucket c = sgs.GetClientRoutingBucket client ∧
    sgs.IsClientRelevantEntity client (s.objects c).m_slotId = true

def Target (sgs : GameStatePublic) (s : ClientRegistry) (client : Handle) (clientNetEvent : ClientNetGameEventV2)
    (eventHandler : Option (Bool × ClientRegistry)) (c : Handle) : Prop :=
  sgs.blockedEvents clientNetEvent.eventNameHash = false ∧ ∃ later, routing s eventHandler = some later ∧
    ∃ player, Wanted sgs s client clientNetEvent.targetPlayers player c ∧ reaches later player = some c

structure RoutedOnce (sgs : GameStatePublic) (s : ClientRegistry) (client : Handle) (clientNetEvent : ClientNetGameEventV2)
    (eventHandler : Option (Bool × ClientRegistry)) (r : NetEventRouting) : Prop where
  inside : ∀ i ∈ r.used, i < roundToType MAX_CLIENTS
  target : ∀ c, Target sgs s client clientNetEvent eventHandler c → (r.sent.map Prod.fst).count c = 1
  other : ∀ c, ¬Target sgs s client clientNetEvent eventHandler c → (r.sent.map Prod.fst).count c = 0
  copies : ∀ copy ∈ r.sent, (serverNetEvent s client clientNetEvent).routingBuffer = some copy.2

/-- An id leads to the same client when the event is routed as when it was let through, and no other id that was let
through leads to it. -/
def Steady (sgs : GameStatePublic) (s : ClientRegistry) (client : Handle) (players : List (BitVec 16))
    (later : ClientRegistry) : Prop :=
  ∀ player c c', Wanted sgs s client players player c → reaches later player = some c' →
    c' = c ∧ ∀ player', Wanted sgs s client players player' c → reaches later player' = some c → player' = player

section Routing
variable {s later : ClientRegistry} {client c : Handle} {players : List (BitVec 16)} {data : List Byte}

theorem acceptsIff {player : BitVec 16} : NetGameEvent.accepts sgs s client player = true ↔
    ∃ c, s.GetClientByNetID (player.setWidth 32) = some c ∧
      sgs.GetClientRoutingBucket c = sgs.GetClientRoutingBucket client ∧
      sgs.IsClientRelevantEntity client (s.objects c).m_slotId = true := by
  unfold NetGameEvent.accepts
  cases s.GetClientByNetID (player.setWidth 32) with
  | none => simp
  | some targetClient =>
    by_cases same : sgs.GetClientRoutingBucket targetClient = sgs.GetClientRoutingBucket client <;> simp [same]

theorem routeCount (targets : List (BitVec 16)) : ((RouteEvent later targets data).map Prod.fst).count c =
    targets.countP (fun player => reaches later player = some c) := by
  unfold RouteEvent
  rw [List.map_filterMap,List.count_filterMap]
  refine List.countP_congr (fun player _ => ?_)
  cases reaches later player <;> simp

theorem countOnce {targets : List (BitVec 16)} (nodup : targets.Nodup) {p : BitVec 16 → Bool} {player : BitVec 16}
    (mem : player ∈ targets) (holds : p player = true) :
    targets.countP p = 1 ↔ ∀ player' ∈ targets, p player' = true → player' = player := by
  constructor
  · intro one player' mem' holds'
    rw [List.countP_eq_length_filter,List.length_eq_one_iff] at one
    obtain ⟨only,single⟩ := one
    have first : player ∈ targets.filter p := List.mem_filter.mpr ⟨mem,holds⟩
    have second : player' ∈ targets.filter p := List.mem_filter.mpr ⟨mem',holds'⟩
    rw [single,List.mem_singleton] at first second
    rw [first,second]
  · intro only
    have same : targets.countP p = targets.countP (fun player' => player' == player) :=
      List.countP_congr (fun player' mem' => by
        rw [beq_iff_eq]
        exact ⟨only player' mem',fun same => same ▸ holds⟩)
    exact same.trans (List.count_eq_one_of_mem nodup mem)

theorem routedSteady {targets : List (BitVec 16)} (nodup : targets.Nodup)
    (kept : ∀ player, player ∈ targets ↔ ∃ c, Wanted sgs s client players player c) :
    ((∀ c, (∃ player, Wanted sgs s client players player c ∧ reaches later player = some c) →
        ((RouteEvent later targets data).map Prod.fst).count c = 1) ∧
      ∀ c, (¬∃ player, Wanted sgs s client players player c ∧ reaches later player = some c) →
        ((RouteEvent later targets data).map Prod.fst).count c = 0) ↔ Steady sgs s client players later := by
  simp only [routeCount]
  constructor
  · rintro ⟨once,never⟩ player c c' wanted reached
    have mem : player ∈ targets := (kept player).mpr ⟨c,wanted⟩
    by_cases target : ∃ player, Wanted sgs s client players player c' ∧ reaches later player = some c'
    · obtain ⟨player',wanted',reached'⟩ := target
      have only := (countOnce nodup mem (decide_eq_true reached)).mp (once c' ⟨player',wanted',reached'⟩)
      have same := only player' ((kept player').mpr ⟨c',wanted'⟩) (decide_eq_true reached')
      have equal : c' = c := Option.some.inj ((same ▸ wanted'.2.1).symm.trans wanted.2.1)
      subst equal
      exact ⟨rfl,fun other wantedOther reachedOther =>
        only other ((kept other).mpr ⟨c',wantedOther⟩) (decide_eq_true reachedOther)⟩
    · have none := List.countP_eq_zero.mp (never c' target) player mem
      exact absurd (decide_eq_true reached) none
  · intro steady
    constructor
    · rintro c ⟨player,wanted,reached⟩
      refine (countOnce nodup ((kept player).mpr ⟨c,wanted⟩) (decide_eq_true reached)).mpr (fun player' mem' reached' => ?_)
      obtain ⟨c',wanted'⟩ := (kept player').mp mem'
      have same := (steady player' c' c wanted' (of_decide_eq_true reached')).1
      exact (steady player c c wanted reached).2 player' (same ▸ wanted') (of_decide_eq_true reached')
    · intro c nobody
      refine List.countP_eq_zero.mpr (fun player mem reached => nobody ?_)
      obtain ⟨c',wanted⟩ := (kept player).mp mem
      have same := (steady player c' c wanted (of_decide_eq_true reached)).1
      exact ⟨player,same ▸ wanted,of_decide_eq_true reached⟩

end Routing

section Processing
variable {s later : ClientRegistry} {client : Handle} {clientNetEvent : ClientNetGameEventV2}
  {eventHandler : Option (Bool × ClientRegistry)}

theorem processBlocked (blocked : sgs.blockedEvents clientNetEvent.eventNameHash = true) :
    RoutedOnce sgs s client clientNetEvent eventHandler (ProcessNetEvent bitset sgs s client clientNetEvent eventHandler) := by
  unfold ProcessNetEvent
  rw [if_pos blocked]
  refine ⟨nofun,fun c target => ?_,fun _ _ => rfl,nofun⟩
  cases blocked.symm.trans target.1

theorem processUnblocked (unblocked : sgs.blockedEvents clientNetEvent.eventNameHash = false) : ∃ data,
    (serverNetEvent s client clientNetEvent).routingBuffer = some data ∧
      ProcessNetEvent bitset sgs s client clientNetEvent eventHandler =
        ⟨(collect bitset (NetGameEvent.accepts sgs s client) clientNetEvent.targetPlayers bitset.reset).2,
          (routing s eventHandler).elim [] (fun later => RouteEvent later
            (collect bitset (NetGameEvent.accepts sgs s client) clientNetEvent.targetPlayers bitset.reset).1 data)⟩ := by
  obtain ⟨data,written⟩ : ∃ data, (serverNetEvent s client clientNetEvent).routingBuffer = some data :=
    ServerNetGameEventV2.routingBufferWritten clientNetEvent.few
  refine ⟨data,written,?_⟩
  unfold ProcessNetEvent
  rw [if_neg (by rw [unblocked]; exact Bool.false_ne_true),written]
  rcases eventHandler with _ | ⟨_ | _,later⟩ <;> rfl

theorem collectWanted (lawful : bitset.Lawful (roundToType MAX_CLIENTS)) {players : List (BitVec 16)}
    (inside : ∀ player ∈ players, player.toNat < roundToType MAX_CLIENTS) :
    (collect bitset (NetGameEvent.accepts sgs s client) players bitset.reset).1.Nodup ∧
      ∀ player, player ∈ (collect bitset (NetGameEvent.accepts sgs s client) players bitset.reset).1 ↔
        ∃ c, Wanted sgs s client players player c := by
  obtain ⟨nodup,kept⟩ := @collectOnce bitset (NetGameEvent.accepts sgs s client) _ lawful players bitset.reset inside
  refine ⟨nodup,fun player => (kept player).trans ?_⟩
  rw [acceptsIff]
  constructor
  · rintro ⟨mem,⟨c,found⟩,_⟩
    exact ⟨c,mem,found⟩
  · rintro ⟨c,mem,found⟩
    exact ⟨mem,⟨c,found⟩,lawful.testReset _ (inside player mem)⟩

theorem targetIff (unblocked : sgs.blockedEvents clientNetEvent.eventNameHash = false)
    (routes : routing s eventHandler = some later) {c : Handle} : Target sgs s client clientNetEvent eventHandler c ↔
      ∃ player, Wanted sgs s client clientNetEvent.targetPlayers player c ∧ reaches later player = some c := by
  constructor
  · rintro ⟨_,later',routes',target⟩
    cases routes.symm.trans routes'
    exact target
  · exact fun target => ⟨unblocked,later,routes,target⟩

end Processing

theorem eventsRoutedOnce (bitset : EastlBitset) (lawful : bitset.Lawful (roundToType MAX_CLIENTS)) (sgs : GameStatePublic)
    (s : ClientRegistry) (client : Handle) (clientNetEvent : ClientNetGameEventV2)
    (eventHandler : Option (Bool × ClientRegistry)) : RoutedOnce sgs s client clientNetEvent eventHandler
        (ProcessNetEvent bitset sgs s client clientNetEvent eventHandler) ↔
      sgs.blockedEvents clientNetEvent.eventNameHash = true ∨
        (∀ player ∈ clientNetEvent.targetPlayers, player.toNat < roundToType MAX_CLIENTS) ∧
          ∀ later, routing s eventHandler = some later → Steady sgs s client clientNetEvent.targetPlayers later := by
  cases unblocked : sgs.blockedEvents clientNetEvent.eventNameHash with
  | true => exact iff_of_true (processBlocked unblocked) (.inl rfl)
  | false =>
    obtain ⟨data,written,processed⟩ := @processUnblocked bitset sgs s client clientNetEvent eventHandler unblocked
    rw [processed]
    constructor
    · intro routed
      have inside := (collectUsed _ _).mp routed.inside
      obtain ⟨nodup,kept⟩ := @collectWanted bitset sgs s client lawful _ inside
      refine .inr ⟨inside,fun later routes => (@routedSteady sgs s later client _ data _ nodup kept).mp ⟨?_,?_⟩⟩
      · intro c target
        have once := routed.target c ((targetIff unblocked routes).mpr target)
        rwa [routes] at once
      · intro c nobody
        have never := routed.other c (fun target => nobody ((targetIff unblocked routes).mp target))
        rwa [routes] at never
    · rintro (blocked | ⟨inside,steady⟩)
      · cases blocked
      · have used := (@collectUsed bitset (NetGameEvent.accepts sgs s client) _ _ bitset.reset).mpr inside
        obtain ⟨nodup,kept⟩ := @collectWanted bitset sgs s client lawful _ inside
        cases routes : routing s eventHandler with
        | none =>
          refine ⟨used,?_,fun _ _ => rfl,nofun⟩
          rintro c ⟨_,later,routes',_⟩
          cases routes.symm.trans routes'
        | some later =>
          obtain ⟨once,never⟩ := (@routedSteady sgs s later client _ data _ nodup kept).mpr (steady later routes)
          refine ⟨used,fun c target => once c ((targetIff unblocked routes).mp target),
            fun c nobody => never c (fun target => nobody ((targetIff unblocked routes).mpr target)),?_⟩
          intro copy mem
          obtain ⟨player,_,sent⟩ := List.mem_filterMap.mp mem
          obtain ⟨c,_,rfl⟩ := Option.map_eq_some_iff.mp sent
          exact written

def processedBits : EastlBitset := .unchecked (roundToType MAX_CLIENTS)

theorem processedLawful : processedBits.Lawful (roundToType MAX_CLIENTS) := EastlBitset.uncheckedLawful _

def twoClients (netId : BitVec 16) : ClientRegistry :=
  { ClientRegistry.construct true true with
    objects := fun c => { Client.construct [] with
      m_netId := if c = 1 then netId.setWidth 32 else 1
      m_slotId := BitVec.ofNat 32 c
      m_peer := some c }
    held := {0,1}
    m_clientsByNetId := fun n => if n = netId.setWidth 32 then some 1 else none }

def allRelevant : GameStatePublic := ⟨fun _ => false,fun _ => 0,fun _ => some (fun _ => true)⟩

def namedTwice (netId : BitVec 16) : ClientNetGameEventV2 := ⟨[netId,netId],0,0,false,[],Nat.zero_le _⟩

theorem namedOnly {netId player : BitVec 16} (mem : player ∈ (namedTwice netId).targetPlayers) : player = netId := by
  simpa [namedTwice] using mem

theorem namedTwiceOnce : RoutedOnce allRelevant (twoClients 7) 0 (namedTwice 7) none
    (ProcessNetEvent processedBits allRelevant (twoClients 7) 0 (namedTwice 7) none) := by
  refine (eventsRoutedOnce processedBits processedLawful allRelevant (twoClients 7) 0 (namedTwice 7) none).mpr (.inr ⟨?_,?_⟩)
  · intro player mem
    rw [namedOnly mem]
    decide
  · rintro later same player c c' ⟨mem,found,_⟩ reached
    cases same
    exact ⟨Option.some.inj ((Option.filter_eq_some_iff.mp reached).1.symm.trans found),
      fun player' wanted _ => (namedOnly wanted.1).trans (namedOnly mem).symm⟩

theorem namedTwiceTwice : ∃ r,
    ProcessNetEvent processedBits allRelevant (twoClients 3000) 0 (namedTwice 3000) none = r ∧
    3000 ∈ r.used ∧ (r.sent.map Prod.fst).count 1 = 2 ∧
    ¬RoutedOnce allRelevant (twoClients 3000) 0 (namedTwice 3000) none r := by
  obtain ⟨data,_,processed⟩ := @processUnblocked processedBits allRelevant (twoClients 3000) 0
    (namedTwice 3000) none rfl
  have used : 3000 ∈ (collect processedBits (NetGameEvent.accepts allRelevant (twoClients 3000) 0)
      (namedTwice 3000).targetPlayers processedBits.reset).2 := by decide
  refine ⟨_,processed,used,?_,fun routed => absurd (routed.inside 3000 used) (by decide)⟩
  refine (routeCount _).trans ?_
  decide

end NetGameEvent
end Citizen.State
