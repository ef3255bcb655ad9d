import Citizen.Lib.Run
import Mathlib.Data.BitVec

/-! `GameServerNetImplENet`: how often and from where connection tokens are used, over the events of its hosts. -/
namespace Citizen.Registry

abbrev Address := BitVec 128

abbrev PeerPlace := Nat

inductive ENetPeerState where
  | disconnected
  | acknowledgingConnect
  | connected
  deriving DecidableEq

structure ENetPeer where
  state : ENetPeerState
  eventData : BitVec 32
  data : Nat

def ENetPeer.reset (peer : ENetPeer) : ENetPeer := { peer with state := .disconnected,eventData := 0 }

@[simp] theorem ENetPeer.resetState (peer : ENetPeer) : peer.reset.state = .disconnected := rfl

structure ConnectionUsage where
  address : Address
  count : Nat

structure GameServerNet where
  peers : PeerPlace → ENetPeer
  m_basePeerId : Nat
  m_peerHandles : Nat → Option PeerPlace
  m_peerData : Nat → Option (BitVec 32)
  m_connectionUsage : BitVec 32 → Option ConnectionUsage

namespace GameServerNet

def OnDisconnect (s : GameServerNet) (peer : PeerPlace) : GameServerNet :=
  let peerId := (s.peers peer).data
  let s := { s with m_peerHandles := Function.update s.m_peerHandles peerId none }
  match s.m_peerData peerId with
  | some data =>
    { s with
      m_connectionUsage := Function.update s.m_connectionUsage data none
      m_peerData := Function.update s.m_peerData peerId none }
  | none => s

def resetPeer (s : GameServerNet) (peer : PeerPlace) : GameServerNet :=
  { s with peers := Function.update s.peers peer (s.peers peer).reset }

def OnConnect (s : GameServerNet) (peer : PeerPlace) : GameServerNet :=
  let eventData := (s.peers peer).eventData
  let peerId := (s.m_basePeerId + 1) % 2 ^ 32
  let usage := (s.m_connectionUsage eventData).getD ⟨0,0⟩
  { peers := Function.update s.peers peer { s.peers peer with state := .connected,data := peerId }
    m_basePeerId := peerId
    m_peerHandles := if s.m_peerHandles peerId = none then Function.update s.m_peerHandles peerId (some peer)
      else s.m_peerHandles
    m_peerData := if s.m_peerData peerId = none then Function.update s.m_peerData peerId (some eventData) else s.m_peerData
    m_connectionUsage := Function.update s.m_connectionUsage eventData (some { usage with count := 9999 }) }

def OnValidateData (s : GameServerNet) (address : Address) (data : BitVec 32) (known : Bool) : Bool × GameServerNet :=
  if known then
    let usage := (s.m_connectionUsage data).getD ⟨0,0⟩
    let (valid,usage) :=
      if usage.count = 0 then (true,{ usage with address := address })
      else if 3 < usage.count then (false,usage)
      else if usage.address ≠ address then (false,usage)
      else (true,usage)
    (valid,{ s with m_connectionUsage :=
      Function.update s.m_connectionUsage data (some { usage with count := (usage.count + 1) % 2 ^ 64 }) })
  else (false,s)

def ResetPeer (s : GameServerNet) (peerId : Nat) : GameServerNet :=
  match s.m_peerHandles peerId with
  | some peer => (s.OnDisconnect peer).resetPeer peer
  | none => s

inductive Event where
  | validate (peer : PeerPlace) (address : Address) (data : BitVec 32) (known : Bool)
  | connect (peer : PeerPlace)
  | giveUp (peer : PeerPlace)
  | disconnect (peer : PeerPlace)
  | reset (peerId : Nat)

def validates (s : GameServerNet) (peer : PeerPlace) (address : Address) (data : BitVec 32) (known : Bool) : Bool :=
  (s.peers peer).state = .disconnected && (s.OnValidateData address data known).1

-- ENet asks for validation only when it has a free peer, and sends the events only of peers in these states.
def step (s : GameServerNet) : Event → GameServerNet
  | .validate peer address data known =>
    if (s.peers peer).state = .disconnected then
      let (valid,s) := s.OnValidateData address data known
      if valid then
        { s with peers := Function.update s.peers peer { s.peers peer with state := .acknowledgingConnect,eventData := data } }
      else s
    else s
  | .connect peer => if (s.peers peer).state = .acknowledgingConnect then s.OnConnect peer else s
  | .giveUp peer => if (s.peers peer).state = .acknowledgingConnect then s.resetPeer peer else s
  | .disconnect peer => if (s.peers peer).state = .connected then (s.OnDisconnect peer).resetPeer peer else s
  | .reset peerId => s.ResetPeer peerId

def fresh : GameServerNet := ⟨fun _ => ⟨.disconnected,0,0⟩,1,fun _ => none,fun _ => none,fun _ => none⟩

def ConnectedWith (s : GameServerNet) (data : BitVec 32) (peer : PeerPlace) : Prop :=
  (s.peers peer).state = .connected ∧ (s.peers peer).eventData = data

def releases (s : GameServerNet) : Event → Option (BitVec 32)
  | .disconnect peer => if (s.peers peer).state = .connected then some (s.peers peer).eventData else none
  | .reset peerId => (s.m_peerHandles peerId).map (fun peer => (s.peers peer).eventData)
  | _ => none

structure Linked (s : GameServerNet) : Prop where
  handled : ∀ id peer, s.m_peerHandles id = some peer → (s.peers peer).state = .connected ∧ (s.peers peer).data = id
  found : ∀ peer, (s.peers peer).state = .connected →
    s.m_peerHandles (s.peers peer).data = some peer ∧ s.m_peerData (s.peers peer).data = some (s.peers peer).eventData
  given : ∀ id, s.m_basePeerId < id → s.m_peerHandles id = none ∧ s.m_peerData id = none

variable {s : GameServerNet} {peer : PeerPlace}

theorem connectedUpdate {s' : GameServerNet} {other : PeerPlace} {idle : ENetPeer} {data : BitVec 32}
    (after : s'.peers = Function.update s.peers other idle) (unconnected : idle.state ≠ .connected)
    (connected : s'.ConnectedWith data peer) : peer ≠ other ∧ s.ConnectedWith data peer := by
  obtain ⟨state,own⟩ := connected
  rw [after] at state own
  have differs : peer ≠ other := by
    rintro rfl
    rw [Function.update_self] at state
    exact unconnected state
  rw [Function.update_of_ne differs] at state own
  exact ⟨differs,state,own⟩

theorem validatePeers (s : GameServerNet) (address : Address) (data : BitVec 32) (known : Bool) :
    (s.OnValidateData address data known).2.peers = s.peers := by
  cases known with
  | true => rfl
  | false => rfl

theorem endPeers (s : GameServerNet) (peer : PeerPlace) :
    ((s.OnDisconnect peer).resetPeer peer).peers = Function.update s.peers peer (s.peers peer).reset := by
  unfold OnDisconnect resetPeer
  dsimp only
  split
  · rfl
  · rfl

theorem connectPeers (pending : (s.peers peer).state = .acknowledgingConnect) :
    (s.step (.connect peer)).peers =
      Function.update s.peers peer { s.peers peer with state := .connected,data := (s.m_basePeerId + 1) % 2 ^ 32 } :=
  congrArg peers (if_pos pending)

theorem linkedFresh : fresh.Linked where
  handled _ _ handle := nomatch handle
  found _ connected := nomatch connected
  given _ _ := ⟨rfl,rfl⟩

section
variable (linked : s.Linked)
include linked

theorem Linked.ofIdle {idle : ENetPeer} (before : (s.peers peer).state ≠ .connected)
    (after : idle.state ≠ .connected) (usage) :
    Linked { s with peers := Function.update s.peers peer idle,m_connectionUsage := usage } where
  handled id other handle := by
    have kept := linked.handled id other handle
    have differs : other ≠ peer := by
      rintro rfl
      exact before kept.1
    dsimp only
    rw [Function.update_of_ne differs]
    exact kept
  found other connected := by
    dsimp only at connected ⊢
    have differs : other ≠ peer := by
      rintro rfl
      rw [Function.update_self] at connected
      exact after connected
    rw [Function.update_of_ne differs] at connected ⊢
    exact linked.found other connected
  given := linked.given

theorem Linked.dataFew (connected : (s.peers peer).state = .connected) : (s.peers peer).data ≤ s.m_basePeerId := by
  by_contra beyond
  have found := (linked.found peer connected).1
  rw [(linked.given _ (not_le.mp beyond)).1] at found
  cases found

theorem Linked.onConnectAfter (few : s.m_basePeerId + 1 < 2 ^ 31) (peer : PeerPlace) :
    s.OnConnect peer =
      { peers := Function.update s.peers peer { s.peers peer with state := .connected,data := s.m_basePeerId + 1 }
        m_basePeerId := s.m_basePeerId + 1
        m_peerHandles := Function.update s.m_peerHandles (s.m_basePeerId + 1) (some peer)
        m_peerData := Function.update s.m_peerData (s.m_basePeerId + 1) (some (s.peers peer).eventData)
        m_connectionUsage := Function.update s.m_connectionUsage (s.peers peer).eventData
          (some { (s.m_connectionUsage (s.peers peer).eventData).getD ⟨0,0⟩ with count := 9999 }) } := by
  obtain ⟨handle,data⟩ := linked.given _ (Nat.lt_succ_self s.m_basePeerId)
  have small : (s.m_basePeerId + 1) % 2 ^ 32 = s.m_basePeerId + 1 := Nat.mod_eq_of_lt (by omega)
  unfold OnConnect
  dsimp only
  rw [small,if_pos handle,if_pos data]

theorem Linked.onConnect (few : s.m_basePeerId + 1 < 2 ^ 31)
    (pending : (s.peers peer).state = .acknowledgingConnect) : (s.OnConnect peer).Linked := by
  rw [linked.onConnectAfter few peer]
  refine ⟨fun id other handle => ?_,fun other connected => ?_,fun id beyond => ?_⟩
  · dsimp only at handle ⊢
    by_cases new : id = s.m_basePeerId + 1
    · subst new
      rw [Function.update_self] at handle
      cases handle
      rw [Function.update_self]
      exact ⟨rfl,rfl⟩
    · rw [Function.update_of_ne new] at handle
      have kept := linked.handled id other handle
      have differs : other ≠ peer := by
        rintro rfl
        rw [pending] at kept
        cases kept.1
      rw [Function.update_of_ne differs]
      exact kept
  · dsimp only at connected ⊢
    by_cases own : other = peer
    · subst own
      rw [Function.update_self,Function.update_self,Function.update_self]
      exact ⟨rfl,rfl⟩
    · rw [Function.update_of_ne own] at connected ⊢
      have older : (s.peers other).data ≠ s.m_basePeerId + 1 := Nat.ne_of_lt (Nat.lt_succ_of_le (linked.dataFew connected))
      rw [Function.update_of_ne older,Function.update_of_ne older]
      exact linked.found other connected
  · dsimp only at beyond ⊢
    have older : id ≠ s.m_basePeerId + 1 := Nat.ne_of_gt beyond
    rw [Function.update_of_ne older,Function.update_of_ne older]
    exact linked.given id (Nat.lt_of_succ_lt beyond)

theorem Linked.endAfter (connected : (s.peers peer).state = .connected) :
    (s.OnDisconnect peer).resetPeer peer =
      { s with
        peers := Function.update s.peers peer (s.peers peer).reset
        m_peerHandles := Function.update s.m_peerHandles (s.peers peer).data none
        m_peerData := Function.update s.m_peerData (s.peers peer).data none
        m_connectionUsage := Function.update s.m_connectionUsage (s.peers peer).eventData none } := by
  unfold OnDisconnect resetPeer
  dsimp only
  rw [(linked.found peer connected).2]

theorem Linked.ended (connected : (s.peers peer).state = .connected) :
    ((s.OnDisconnect peer).resetPeer peer).Linked := by
  rw [linked.endAfter connected]
  refine ⟨fun id other handle => ?_,fun other still => ?_,fun id beyond => ?_⟩
  · dsimp only at handle ⊢
    by_cases own : id = (s.peers peer).data
    · rw [own,Function.update_self] at handle
      cases handle
    · rw [Function.update_of_ne own] at handle
      have kept := linked.handled id other handle
      have differs : other ≠ peer := by
        rintro rfl
        exact own kept.2.symm
      rw [Function.update_of_ne differs]
      exact kept
  · dsimp only at still ⊢
    have differs : other ≠ peer := by
      rintro rfl
      rw [Function.update_self] at still
      cases still
    rw [Function.update_of_ne differs] at still ⊢
    have found := linked.found other still
    have apart : (s.peers other).data ≠ (s.peers peer).data := by
      intro same
      rw [same,(linked.found peer connected).1] at found
      exact differs (Option.some.inj found.1).symm
    rw [Function.update_of_ne apart,Function.update_of_ne apart]
    exact found
  · dsimp only at beyond ⊢
    have older : id ≠ (s.peers peer).data := Nat.ne_of_gt (lt_of_le_of_lt (linked.dataFew connected) beyond)
    rw [Function.update_of_ne older,Function.update_of_ne older]
    exact linked.given id beyond

end

theorem askedStep {address : Address} {data : BitVec 32} {valid : Bool} {usage : BitVec 32 → Option ConnectionUsage}
    (free : (s.peers peer).state = .disconnected)
    (outcome : s.OnValidateData address data true = (valid,{ s with m_connectionUsage := usage })) :
    s.validates peer address data true = valid ∧
      s.step (.validate peer address data true) =
        { s with
          peers := Function.update s.peers peer
            (if valid then { s.peers peer with state := .acknowledgingConnect,eventData := data } else s.peers peer)
          m_connectionUsage := usage } := by
  constructor
  · unfold validates
    rw [outcome,decide_eq_true free]
    rfl
  · unfold step
    dsimp only
    rw [if_pos free,outcome]
    cases valid with
    | true => rfl
    | false =>
      have same : Function.update s.peers peer (s.peers peer) = s.peers := Function.update_eq_self peer _
      dsimp only
      rw [if_neg Bool.false_ne_true,if_neg Bool.false_ne_true,same]

theorem unusedValidates {data : BitVec 32} (free : (s.peers peer).state = .disconnected) (unused : s.m_connectionUsage data = none)
    (address : Address) : s.validates peer address data true = true := by
  unfold validates OnValidateData
  rw [decide_eq_true free,if_pos rfl,unused]
  rfl

theorem unaskedStep {known : Bool} (unasked : ¬((s.peers peer).state = .disconnected ∧ known = true)) (address : Address)
    (data : BitVec 32) :
    s.step (.validate peer address data known) = s ∧ s.validates peer address data known = false := by
  unfold step validates
  by_cases free : (s.peers peer).state = .disconnected
  · have unknown : known = false := Bool.eq_false_of_not_eq_true (fun known => unasked ⟨free,known⟩)
    subst unknown
    dsimp only
    rw [if_pos free,decide_eq_true free]
    exact ⟨rfl,rfl⟩
  · dsimp only
    rw [if_neg free,decide_eq_false free]
    exact ⟨rfl,rfl⟩

theorem Linked.releaser (linked : s.Linked) {e : Event} {data : BitVec 32} (released : s.releases e = some data) :
    ∃ peer, s.ConnectedWith data peer ∧ s.step e = (s.OnDisconnect peer).resetPeer peer := by
  cases e with
  | validate _ _ _ _ => cases released
  | connect _ => cases released
  | giveUp _ => cases released
  | disconnect peer =>
    unfold releases at released
    dsimp only at released
    split at released
    · rename_i connected
      cases released
      exact ⟨peer,⟨connected,rfl⟩,if_pos connected⟩
    · cases released
  | reset peerId =>
    obtain ⟨peer,handle,rfl⟩ := Option.map_eq_some_iff.mp released
    refine ⟨peer,⟨(linked.handled peerId peer handle).1,rfl⟩,?_⟩
    show s.ResetPeer peerId = _
    unfold ResetPeer
    rw [handle]

theorem connectedValidate {other : PeerPlace} {address : Address} {token data : BitVec 32} {known : Bool}
    (connected : (s.step (.validate other address token known)).ConnectedWith data peer) : s.ConnectedWith data peer := by
  by_cases free : (s.peers other).state = .disconnected
  · have after : (s.step (.validate other address token known)).peers =
        Function.update s.peers other (if (s.OnValidateData address token known).1 then
          { s.peers other with state := .acknowledgingConnect,eventData := token } else s.peers other) := by
      unfold step
      dsimp only
      rw [if_pos free]
      split
      · dsimp only
        rw [validatePeers]
      · rw [validatePeers]
        exact (Function.update_eq_self other s.peers).symm
    refine (connectedUpdate after ?_ connected).2
    split
    · show ENetPeerState.acknowledgingConnect ≠ _
      decide
    · rw [free]
      decide
  · have after : s.step (.validate other address token known) = s := if_neg free
    rwa [after] at connected

theorem connectedBefore {e : Event} {data : BitVec 32} (connected : (s.step e).ConnectedWith data peer) :
    s.ConnectedWith data peer ∨ e = .connect peer ∧ (s.peers peer).state = .acknowledgingConnect ∧
      (s.peers peer).eventData = data := by
  cases e with
  | validate other address token known => exact .inl (connectedValidate connected)
  | connect other =>
    by_cases pending : (s.peers other).state = .acknowledgingConnect
    · obtain ⟨state,own⟩ := connected
      rw [connectPeers pending] at state own
      by_cases same : peer = other
      · subst same
        rw [Function.update_self] at own
        exact .inr ⟨rfl,pending,own⟩
      · rw [Function.update_of_ne same] at state own
        exact .inl ⟨state,own⟩
    · have after : s.step (.connect other) = s := if_neg pending
      rw [after] at connected
      exact .inl connected
  | giveUp other =>
    refine .inl ?_
    by_cases pending : (s.peers other).state = .acknowledgingConnect
    · have after : (s.step (.giveUp other)).peers = Function.update s.peers other (s.peers other).reset :=
        congrArg peers (if_pos pending)
      exact (connectedUpdate after (by rw [ENetPeer.resetState]; decide) connected).2
    · have after : s.step (.giveUp other) = s := if_neg pending
      rwa [after] at connected
  | disconnect other =>
    refine .inl ?_
    by_cases still : (s.peers other).state = .connected
    · have after : (s.step (.disconnect other)).peers = Function.update s.peers other (s.peers other).reset :=
        (congrArg peers (if_pos still)).trans (endPeers s other)
      exact (connectedUpdate after (by rw [ENetPeer.resetState]; decide) connected).2
    · have after : s.step (.disconnect other) = s := if_neg still
      rwa [after] at connected
  | reset peerId =>
    refine .inl ?_
    change (s.ResetPeer peerId).ConnectedWith data peer at connected
    unfold ResetPeer at connected
    split at connected
    · rename_i other _
      exact (connectedUpdate (endPeers s other) (by rw [ENetPeer.resetState]; decide) connected).2
    · exact connected

end GameServerNet

structure TokenHistory where
  net : GameServerNet
  accepted : BitVec 32 → List Address
  ever : BitVec 32 → List Address

namespace TokenHistory
open GameServerNet (Event ConnectedWith)

def fresh : TokenHistory := ⟨.fresh,fun _ => [],fun _ => []⟩

def attempt (s : TokenHistory) : Event → Option (BitVec 32 × Address)
  | .validate peer address data known => if s.net.validates peer address data known then some (data,address) else none
  | _ => none

def step (s : TokenHistory) (e : Event) : TokenHistory where
  net := s.net.step e
  accepted data :=
    if s.net.releases e = some data then []
    else s.accepted data ++ ((s.attempt e).filter (fun attempt => attempt.1 = data)).toList.map Prod.snd
  ever data := s.ever data ++ ((s.attempt e).filter (fun attempt => attempt.1 = data)).toList.map Prod.snd

/-- An attempt is accepted only while no peer of its token is connected, from the address of the others since the token
was released, and as one of four. -/
def Meets (s : TokenHistory) (e : Event) : Prop :=
  ∀ data address, s.attempt e = some (data,address) →
    (∀ peer, ¬s.net.ConnectedWith data peer) ∧ (∀ a ∈ s.accepted data, a = address) ∧ (s.accepted data).length < 4

def Few (s : TokenHistory) : Event → Prop
  | .validate _ _ data _ => ∀ usage, s.net.m_connectionUsage data = some usage → usage.count + 1 < 2 ^ 64
  | .connect _ => s.net.m_basePeerId + 1 < 2 ^ 31
  | _ => True

def Single (s : TokenHistory) : Prop :=
  ∀ data peer other, s.net.ConnectedWith data peer → s.net.ConnectedWith data other → other = peer

def Lone (s : TokenHistory) (e : Event) : Prop :=
  ∀ data, s.net.releases e = some data → ∀ peer other, s.net.ConnectedWith data peer → s.net.ConnectedWith data other →
    other = peer

def Sole (s : TokenHistory) : Event → Prop
  | .connect peer => (s.net.peers peer).state = .acknowledgingConnect →
    ∀ other, ¬s.net.ConnectedWith (s.net.peers peer).eventData other
  | _ => True

def Returns (s : TokenHistory) (e : Event) : Prop :=
  ∀ data address, s.attempt e = some (data,address) → s.accepted data = [] → ∀ a ∈ s.ever data, a = address

def FromFirst (s : TokenHistory) (e : Event) : Prop :=
  ∀ data address, s.attempt e = some (data,address) → ∀ a ∈ s.ever data, a = address

def Recorded : Option ConnectionUsage → List Address → Prop
  | some usage,accepted =>
    0 < usage.count ∧ (usage.count ≤ 3 → accepted.length ≤ usage.count ∧ ∀ a ∈ accepted, a = usage.address)
  | none,accepted => accepted = []

structure Sound (s : TokenHistory) : Prop where
  linked : s.net.Linked
  used : ∀ data peer, s.net.ConnectedWith data peer → ∃ usage, s.net.m_connectionUsage data = some usage ∧ 3 < usage.count
  recorded : ∀ data, Recorded (s.net.m_connectionUsage data) (s.accepted data)

theorem soundFresh : fresh.Sound where
  linked := GameServerNet.linkedFresh
  used _ _ connected := nomatch connected.1
  recorded _ := rfl

section
variable {s : TokenHistory} {e : Event}

theorem stepPlain (kept : s.net.releases e = none) (refused : s.attempt e = none) :
    s.step e = { s with net := s.net.step e } := by
  unfold step
  rw [kept,refused]
  simp

theorem stepAccepted {data : BitVec 32} {address : Address} (kept : s.net.releases e = none)
    (attempt : s.attempt e = some (data,address)) (other : BitVec 32) :
    (s.step e).accepted other = if data = other then s.accepted other ++ [address] else s.accepted other := by
  unfold step
  rw [kept,attempt]
  by_cases same : data = other
  · simp [same]
  · simp [same]

theorem stepReleased {data : BitVec 32} (released : s.net.releases e = some data)
    (refused : s.attempt e = none) (other : BitVec 32) :
    (s.step e).accepted other = if data = other then [] else s.accepted other := by
  unfold step
  rw [released,refused]
  by_cases same : data = other
  · simp [same]
  · simp [same]

theorem refusedReleasing {data : BitVec 32} (released : s.net.releases e = some data) : s.attempt e = none := by
  cases e with
  | validate _ _ _ _ => cases released
  | connect _ => rfl
  | giveUp _ => rfl
  | disconnect _ => rfl
  | reset _ => rfl

end

theorem validatedUsage {net : GameServerNet} {data : BitVec 32} {accepted : List Address}
    (recorded : Recorded (net.m_connectionUsage data) accepted)
    (few : ∀ usage, net.m_connectionUsage data = some usage → usage.count + 1 < 2 ^ 64) (address : Address) :
    ∃ valid usage,
      net.OnValidateData address data true =
        (valid,{ net with m_connectionUsage := Function.update net.m_connectionUsage data (some usage) }) ∧
      (∀ earlier, net.m_connectionUsage data = some earlier → earlier.count < usage.count ∧ (valid = true → earlier.count ≤ 3)) ∧
      Recorded (some usage) (if valid then accepted ++ [address] else accepted) ∧
      (valid = true → (∀ a ∈ accepted, a = address) ∧ accepted.length < 4) := by
  cases record : net.m_connectionUsage data with
  | none =>
    rw [record] at recorded
    cases recorded
    refine ⟨true,⟨address,1⟩,?_,fun _ impossible => (nomatch impossible),?_,fun _ => ⟨fun _ mem => (nomatch mem),Nat.zero_lt_succ 3⟩⟩
    · unfold GameServerNet.OnValidateData
      rw [if_pos rfl,record,Option.getD_none]
      rfl
    · exact ⟨Nat.one_pos,fun _ => ⟨le_refl 1,fun a mem => List.mem_singleton.mp mem⟩⟩
  | some usage =>
    rw [record] at recorded
    obtain ⟨positive,addresses⟩ := recorded
    have small : (usage.count + 1) % 2 ^ 64 = usage.count + 1 := Nat.mod_eq_of_lt (few usage record)
    by_cases good : usage.count ≤ 3 ∧ usage.address = address
    · obtain ⟨retry,rfl⟩ := good
      obtain ⟨length,same⟩ := addresses retry
      refine ⟨true,{ usage with count := usage.count + 1 },?_,?_,?_,fun _ => ⟨same,Nat.lt_succ_of_le (length.trans retry)⟩⟩
      · unfold GameServerNet.OnValidateData
        rw [if_pos rfl,record,Option.getD_some]
        dsimp only
        rw [if_neg (Nat.ne_of_gt positive),if_neg (Nat.not_lt.mpr retry),if_neg (not_not_intro rfl)]
        dsimp only
        rw [small]
      · rintro earlier ⟨⟩
        exact ⟨Nat.lt_succ_self _,fun _ => retry⟩
      · refine ⟨Nat.succ_pos _,fun _ => ⟨?_,fun a mem => ?_⟩⟩
        · simpa using length
        · rcases List.mem_append.mp mem with older | newest
          · exact same a older
          · exact List.mem_singleton.mp newest
    · refine ⟨false,{ usage with count := usage.count + 1 },?_,?_,?_,fun impossible => (nomatch impossible)⟩
      · unfold GameServerNet.OnValidateData
        rw [if_pos rfl,record,Option.getD_some]
        dsimp only
        rw [if_neg (Nat.ne_of_gt positive)]
        by_cases many : 3 < usage.count
        · rw [if_pos many]
          dsimp only
          rw [small]
        · have elsewhere : usage.address ≠ address := fun same => good ⟨Nat.not_lt.mp many,same⟩
          rw [if_neg many,if_pos elsewhere]
          dsimp only
          rw [small]
      · rintro earlier ⟨⟩
        exact ⟨Nat.lt_succ_self _,fun impossible => (nomatch impossible)⟩
      · refine ⟨Nat.succ_pos _,fun retry => ?_⟩
        obtain ⟨length,same⟩ := addresses (Nat.le_of_succ_le retry)
        exact ⟨Nat.le_succ_of_le length,same⟩

section
variable {s : TokenHistory} {peer : PeerPlace}

theorem meetsRefused {e : Event} (refused : s.attempt e = none) : s.Meets e := by
  intro data address attempt
  rw [refused] at attempt
  cases attempt

theorem Sound.idle (sound : s.Sound) {idle : ENetPeer} (before : (s.net.peers peer).state ≠ .connected)
    (after : idle.state ≠ .connected) {usage : BitVec 32 → Option ConnectionUsage} {accepted : BitVec 32 → List Address}
    (ever) (more : ∀ data u, s.net.m_connectionUsage data = some u → 3 < u.count →
      ∃ u', usage data = some u' ∧ 3 < u'.count)
    (recorded : ∀ data, Recorded (usage data) (accepted data)) :
    Sound ⟨{ s.net with peers := Function.update s.net.peers peer idle,m_connectionUsage := usage },accepted,ever⟩ where
  linked := sound.linked.ofIdle before after usage
  used data other connected := by
    have earlier := (@GameServerNet.connectedUpdate s.net other _ peer idle data rfl after connected).2
    obtain ⟨u,found,many⟩ := sound.used data other earlier
    exact more data u found many
  recorded := recorded

theorem usedMore {table : BitVec 32 → Option ConnectionUsage} {data : BitVec 32} {usage : ConnectionUsage}
    (more : ∀ earlier, table data = some earlier → earlier.count < usage.count) (other : BitVec 32) (u : ConnectionUsage)
    (found : table other = some u) (many : 3 < u.count) :
    ∃ u', Function.update table data (some usage) other = some u' ∧ 3 < u'.count := by
  by_cases same : other = data
  · subst same
    exact ⟨usage,Function.update_self _ _ _,many.trans (more u found)⟩
  · exact ⟨u,(Function.update_of_ne same _ _).trans found,many⟩

section
variable (sound : s.Sound)
include sound

theorem Sound.validate {address : Address} {data : BitVec 32} {known : Bool}
    (few : ∀ usage, s.net.m_connectionUsage data = some usage → usage.count + 1 < 2 ^ 64) :
    (s.step (.validate peer address data known)).Sound ∧ s.Meets (.validate peer address data known) := by
  have kept : s.net.releases (.validate peer address data known) = none := rfl
  by_cases asked : (s.net.peers peer).state = .disconnected ∧ known = true
  · obtain ⟨free,rfl⟩ := asked
    obtain ⟨valid,usage,outcome,more,record,good⟩ := validatedUsage (sound.recorded data) few address
    obtain ⟨validates,after⟩ := GameServerNet.askedStep free outcome
    have idle : (s.net.peers peer).state ≠ .connected := by
      rw [free]
      decide
    have used := usedMore (fun u found => (more u found).1)
    have records : ∀ other, Recorded (Function.update s.net.m_connectionUsage data (some usage) other)
        (if data = other then (if valid then s.accepted other ++ [address] else s.accepted other) else s.accepted other) := by
      intro other
      by_cases own : data = other
      · subst own
        rw [Function.update_self,if_pos rfl]
        exact record
      · rw [Function.update_of_ne (Ne.symm own),if_neg own]
        exact sound.recorded other
    cases valid with
    | false =>
      have refused : s.attempt (.validate peer address data true) = none :=
        if_neg (by rw [validates]; exact Bool.false_ne_true)
      refine ⟨?_,meetsRefused refused⟩
      rw [stepPlain kept refused,after]
      refine sound.idle idle idle s.ever used (fun other => ?_)
      simpa using records other
    | true =>
      have accepted : s.attempt (.validate peer address data true) = some (data,address) := if_pos validates
      constructor
      · have net : (s.step (.validate peer address data true)).net = _ := after
        have taken : ({ s.net.peers peer with state := .acknowledgingConnect,eventData := data } : ENetPeer).state ≠ .connected := by
          dsimp only
          decide
        have whole := sound.idle idle taken (s.step (.validate peer address data true)).ever used
          (fun other => stepAccepted kept accepted other ▸ records other)
        exact ⟨net ▸ whole.linked,net ▸ whole.used,net ▸ whole.recorded⟩
      · intro token origin attempt
        rw [accepted] at attempt
        cases attempt
        refine ⟨fun other connected => ?_,good rfl⟩
        obtain ⟨u,found,many⟩ := sound.used data other connected
        exact absurd many (Nat.not_lt.mpr ((more u found).2 rfl))
  · obtain ⟨same,unvalidated⟩ := GameServerNet.unaskedStep asked address data
    have refused : s.attempt (.validate peer address data known) = none :=
      if_neg (by rw [unvalidated]; exact Bool.false_ne_true)
    refine ⟨?_,meetsRefused refused⟩
    rw [stepPlain kept refused,same]
    exact sound

theorem Sound.connect (few : s.net.m_basePeerId + 1 < 2 ^ 31) : (s.step (.connect peer)).Sound := by
  rw [stepPlain rfl rfl]
  unfold GameServerNet.step
  dsimp only
  by_cases pending : (s.net.peers peer).state = .acknowledgingConnect
  · rw [if_pos pending]
    refine ⟨sound.linked.onConnect few pending,fun data other connected => ?_,fun data => ?_⟩
    · rw [sound.linked.onConnectAfter few peer] at connected ⊢
      obtain ⟨state,token⟩ := connected
      dsimp only at state token ⊢
      by_cases own : data = (s.net.peers peer).eventData
      · rw [own,Function.update_self]
        exact ⟨_,rfl,(by decide : 3 < 9999)⟩
      · have differs : other ≠ peer := by
          rintro rfl
          rw [Function.update_self] at token
          exact own token.symm
        rw [Function.update_of_ne differs] at state token
        rw [Function.update_of_ne own]
        exact sound.used data other ⟨state,token⟩
    · rw [sound.linked.onConnectAfter few peer]
      dsimp only
      by_cases own : data = (s.net.peers peer).eventData
      · rw [own,Function.update_self]
        exact ⟨(by decide : 0 < 9999),fun retry => absurd retry (by decide : ¬9999 ≤ 3)⟩
      · rw [Function.update_of_ne own]
        exact sound.recorded data
  · rw [if_neg pending]
    exact sound

theorem Sound.giveUp : (s.step (.giveUp peer)).Sound := by
  rw [stepPlain rfl rfl]
  unfold GameServerNet.step
  dsimp only
  by_cases pending : (s.net.peers peer).state = .acknowledgingConnect
  · rw [if_pos pending]
    have idle : (s.net.peers peer).state ≠ .connected := by
      rw [pending]
      decide
    exact sound.idle idle (by rw [ENetPeer.resetState]; decide) s.ever (fun _ u found many => ⟨u,found,many⟩) sound.recorded
  · rw [if_neg pending]
    exact sound

theorem Sound.ended {e : Event} {data : BitVec 32} (released : s.net.releases e = some data) (lone : s.Lone e) :
    (s.step e).Sound := by
  obtain ⟨peer,connected,after⟩ := sound.linked.releaser released
  have accepted := stepReleased released (refusedReleasing released)
  obtain ⟨state,rfl⟩ := connected
  rw [sound.linked.endAfter state] at after
  have net : (s.step e).net = _ := after
  refine ⟨?_,fun token other still => ?_,fun token => ?_⟩
  · rw [net,← sound.linked.endAfter state]
    exact sound.linked.ended state
  · obtain ⟨differs,still⟩ := GameServerNet.connectedUpdate (congrArg GameServerNet.peers net)
      (by rw [ENetPeer.resetState]; decide) still
    have apart : token ≠ (s.net.peers peer).eventData := by
      rintro rfl
      exact differs (lone _ released peer other ⟨state,rfl⟩ still)
    rw [net]
    dsimp only
    rw [Function.update_of_ne apart]
    exact sound.used token other still
  · rw [net,accepted token]
    dsimp only
    by_cases same : token = (s.net.peers peer).eventData
    · rw [same,Function.update_self,if_pos rfl]
      rfl
    · rw [Function.update_of_ne same,if_neg (Ne.symm same)]
      exact sound.recorded token

theorem Sound.unreleased {e : Event} (plain : s.net.step e = s.net) (kept : s.net.releases e = none)
    (refused : s.attempt e = none) : (s.step e).Sound := by
  rw [stepPlain kept refused,plain]
  exact sound

theorem Sound.stepped {e : Event} (few : s.Few e) (lone : s.Lone e) : (s.step e).Sound ∧ s.Meets e := by
  cases e with
  | validate peer address data known => exact sound.validate few
  | connect peer => exact ⟨sound.connect few,meetsRefused rfl⟩
  | giveUp peer => exact ⟨sound.giveUp,meetsRefused rfl⟩
  | disconnect peer =>
    refine ⟨?_,meetsRefused rfl⟩
    by_cases connected : (s.net.peers peer).state = .connected
    · exact sound.ended (if_pos connected) lone
    · exact sound.unreleased (if_neg connected) (if_neg connected) rfl
  | reset peerId =>
    refine ⟨?_,meetsRefused rfl⟩
    cases handle : s.net.m_peerHandles peerId with
    | some peer => exact sound.ended (congrArg (Option.map _) handle) lone
    | none =>
      refine sound.unreleased ?_ (congrArg (Option.map _) handle) rfl
      show s.net.ResetPeer peerId = s.net
      unfold GameServerNet.ResetPeer
      rw [handle]

end

def Agreed (s : TokenHistory) : Prop := ∀ data, ∀ a ∈ s.accepted data, ∀ b ∈ s.ever data, b = a

theorem agreedStep {e : Event} (agreed : s.Agreed) (meets : s.Meets e) (returns : s.Returns e) :
    (s.step e).Agreed ∧ s.FromFirst e := by
  have first : s.FromFirst e := by
    intro data address attempt b everUsed
    cases older : s.accepted data with
    | nil => exact returns data address attempt older b everUsed
    | cons a rest =>
      have mem : a ∈ s.accepted data := older ▸ List.mem_cons_self
      exact (agreed data a mem b everUsed).trans ((meets data address attempt).2.1 a mem)
  refine ⟨fun data a accepted b everUsed => ?_,first⟩
  unfold step at accepted everUsed
  dsimp only at accepted everUsed
  split at accepted
  · cases accepted
  · cases attempt : (s.attempt e).filter (fun attempt => attempt.1 = data) with
    | none =>
      rw [attempt] at accepted everUsed
      simp only [Option.toList_none,List.map_nil,List.append_nil] at accepted everUsed
      exact agreed data a accepted b everUsed
    | some pair =>
      obtain ⟨token,address⟩ := pair
      rw [attempt] at accepted everUsed
      obtain ⟨made,own⟩ := Option.filter_eq_some_iff.mp attempt
      have own : token = data := of_decide_eq_true own
      subst own
      simp only [Option.toList_some,List.map_cons,List.map_nil,List.mem_append,List.mem_singleton] at accepted everUsed
      have fromA : a = address := accepted.elim (fun older => (meets token address made).2.1 a older) id
      have fromB : b = address := everUsed.elim (fun older => first token address made b older) id
      exact fromB.trans fromA.symm

theorem singleStep (single : s.Single) (e : Event) : (s.step e).Single ↔ s.Sole e := by
  constructor
  · intro after
    cases e with
    | connect peer =>
      intro pending other connected
      have differs : other ≠ peer := by
        rintro rfl
        have state := connected.1
        rw [pending] at state
        cases state
      have peers := GameServerNet.connectPeers pending
      refine differs (after (s.net.peers peer).eventData peer other ⟨?_,?_⟩ ⟨?_,?_⟩)
      · exact (congrArg ENetPeer.state (congrFun peers peer)).trans (by rw [Function.update_self])
      · exact (congrArg ENetPeer.eventData (congrFun peers peer)).trans (by rw [Function.update_self])
      · exact (congrArg ENetPeer.state (congrFun peers other)).trans (by rw [Function.update_of_ne differs]; exact connected.1)
      · exact (congrArg ENetPeer.eventData (congrFun peers other)).trans (by rw [Function.update_of_ne differs]; exact connected.2)
    | validate _ _ _ _ => trivial
    | giveUp _ => trivial
    | disconnect _ => trivial
    | reset _ => trivial
  · intro sole data peer other first second
    rcases GameServerNet.connectedBefore first with earlier | ⟨rfl,pending,rfl⟩
    · rcases GameServerNet.connectedBefore second with older | ⟨rfl,pending,rfl⟩
      · exact single data peer other earlier older
      · exact absurd earlier (sole pending peer)
    · rcases GameServerNet.connectedBefore second with older | ⟨same,_,_⟩
      · exact absurd older (sole pending other)
      · cases same
        rfl

theorem Single.lone (single : s.Single) (e : Event) : s.Lone e := fun data _ => single data

theorem Sound.releasedEarly (sound : s.Sound) {e : Event} (early : ¬s.Lone e) :
    ∃ data peer, ∀ address, ¬(s.step e).Meets (.validate peer address data true) := by
  unfold Lone at early
  push Not at early
  obtain ⟨data,released,first,second,firstOne,secondOne,differs⟩ := early
  obtain ⟨peer,⟨state,rfl⟩,after⟩ := sound.linked.releaser released
  obtain ⟨other,apart,connected⟩ : ∃ other, other ≠ peer ∧ s.net.ConnectedWith (s.net.peers peer).eventData other := by
    by_cases own : first = peer
    · exact ⟨second,own ▸ differs,secondOne⟩
    · exact ⟨first,own,firstOne⟩
  rw [sound.linked.endAfter state] at after
  have net : (s.step e).net = _ := after
  refine ⟨(s.net.peers peer).eventData,peer,fun address meets => ?_⟩
  have attempt : (s.step e).attempt (.validate peer address (s.net.peers peer).eventData true) =
      some ((s.net.peers peer).eventData,address) := by
    refine if_pos (GameServerNet.unusedValidates ?_ ?_ address)
    · rw [net]
      exact (congrArg ENetPeer.state (Function.update_self peer _ s.net.peers)).trans (ENetPeer.resetState _)
    · rw [net]
      exact Function.update_self _ _ s.net.m_connectionUsage
  refine (meets _ _ attempt).1 other ?_
  rw [net]
  unfold GameServerNet.ConnectedWith
  dsimp only
  rw [Function.update_of_ne apart]
  exact connected

theorem tokensUsedOnce (events : List Event) (few : Along step Few fresh events) :
    (Along step Lone fresh events → Along step Meets fresh events) ∧
    (Along step Sole fresh events ↔ Throughout step Single fresh events) ∧
    (Along step Sole fresh events → Along step Lone fresh events) ∧
    (Along step Lone fresh events → Along step Returns fresh events → Along step FromFirst fresh events) ∧
    (Along step Lone fresh events → ∀ e, ¬(run step fresh events).Lone e →
      ∃ data peer, ∀ address, ¬((run step fresh events).step e).Meets (.validate peer address data true)) := by
  have unconnected : fresh.Single := fun _ _ _ connected => nomatch connected.1
  have meets : Along step Lone fresh events → Along step Meets fresh events := fun lone =>
    alongOfKept Sound (fun _ _ sound right => sound.stepped right.1 right.2) soundFresh (alongAnd few lone)
  refine ⟨meets,?_,?_,?_,?_⟩
  · exact (throughoutIffAlong (fun _ => True) Single (fun _ _ _ => trivial) (fun _ e _ single => singleStep single e) trivial
      unconnected).symm
  · exact alongOfKept Single (fun _ e single sole => ⟨(singleStep single e).mpr sole,single.lone e⟩) unconnected
  · intro lone returns
    exact alongOfKept Agreed (fun _ _ agreed both => agreedStep agreed both.1 both.2) (fun _ _ accepted => nomatch accepted)
      (alongAnd (meets lone) returns)
  · intro lone e early
    have sound : (run step fresh events).Sound :=
      runKeeps Sound (fun _ _ sound right => (sound.stepped right.1 right.2).1) soundFresh (alongAnd few lone)
    exact sound.releasedEarly early

theorem reconnected :
    Along step Meets fresh [.validate 0 1 7 true,.validate 1 1 7 true,.connect 0,.giveUp 1,.disconnect 0,.validate 1 1 7 true] := by
  have few : Along step Few fresh
      [.validate 0 1 7 true,.validate 1 1 7 true,.connect 0,.giveUp 1,.disconnect 0,.validate 1 1 7 true] := by
    refine ⟨fun _ used => ?_,fun _ used => ?_,?_,trivial,trivial,fun _ used => ?_,trivial⟩
    · cases used
    · cases used
      decide
    · show 2 < 2 ^ 31
      decide
    · cases used
  have sole : Along step Sole fresh
      [.validate 0 1 7 true,.validate 1 1 7 true,.connect 0,.giveUp 1,.disconnect 0,.validate 1 1 7 true] := by
    refine ⟨trivial,trivial,fun _ other connected => ?_,trivial,trivial,trivial,trivial⟩
    rcases @GameServerNet.connectedBefore (GameServerNet.fresh.step (.validate 0 1 7 true)) other (.validate 1 1 7 true) _ connected with
      earlier | ⟨validated,_⟩
    · rcases @GameServerNet.connectedBefore GameServerNet.fresh other (.validate 0 1 7 true) _ earlier with first | ⟨validated,_⟩
      · cases first.1
      · cases validated
    · cases validated
  have all := tokensUsedOnce _ few
  exact all.1 (all.2.2.1 sole)

theorem releasedBesideOther :
    ¬Along step Meets fresh [.validate 0 1 7 true,.validate 1 1 7 true,.connect 0,.connect 1,.disconnect 1,.validate 1 2 7 true] := by
  intro along
  have accepted := along.2.2.2.2.2.1 7 2 rfl
  exact accepted.1 0 ⟨rfl,rfl⟩

end

end TokenHistory
end Citizen.Registry
