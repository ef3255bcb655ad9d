import Citizen.Registry.RemovalFrame
import Mathlib.Algebra.Order.Archimedean.Basic

/-! `HeHostPacketHandler`: the election of a host by vouches, and the majority that it asks for. -/
namespace Citizen.Registry
open ClientRegistry

structure Vouch where
  voter : Handle
  allegedNewId : BitVec 32
  newClient : Option Handle
  late : Bool

structure HostElection where
  server : GameServer
  m_hasRouted : Finset Handle
  m_netBase : Handle → BitVec 32
  m_hostNetId : BitVec 16
  voteCounts : BitVec 32 → Option Nat
  hostBroadcasts : List (BitVec 16 × BitVec 32)
  received : List Vouch

inductive HostEvent where
  | server (event : Event)
  | routed (c : Handle)
  | iHost (c : Handle) (baseNum : BitVec 32) (hostIsDead : Bool)
  | heHost (c : Handle) (allegedNewId baseNum : BitVec 32)

def GameServer.drops (s : GameServer) : Event → Option Handle
  | .initConnect guid _ _ _ true => (s.registry.m_clients.lookup guid).filter (fun c => !(s.registry.objects c).m_dropping)
  | .dropClient c true => if s.registry.Alive c then (some c).filter (fun c => !(s.registry.objects c).m_dropping) else none
  | .runCallback => s.m_mainThreadCallbacks.head?
  | _ => none

namespace HostElection

def construct (bigMode oneSync : Bool) : HostElection :=
  ⟨.construct bigMode oneSync,∅,fun _ => -1,-1,fun _ => none,[],[]⟩

def registry (s : HostElection) : ClientRegistry := s.server.registry

def GetHost (s : HostElection) : Option Handle :=
  if s.m_hostNetId = 0xFFFF then none else s.registry.GetClientByNetID (s.m_hostNetId.setWidth 32)

def SetHost (s : HostElection) : Option Handle → HostElection
  | none => { s with m_hostNetId := -1 }
  | some client =>
    if s.registry.oneSync = true then s
    else { s with m_hostNetId := (s.registry.objects client).m_netId.setWidth 16 }

def SetNetBase (s : HostElection) (client : Handle) (baseNum : BitVec 32) : HostElection :=
  { s with m_netBase := Function.update s.m_netBase client baseNum }

def broadcastHost (s : HostElection) (netId : BitVec 16) (baseNum : BitVec 32) : HostElection :=
  { s with hostBroadcasts := s.hostBroadcasts ++ [(netId,baseNum)] }

def makeHost (s : HostElection) (client : Handle) (baseNum : BitVec 32) : HostElection :=
  ((s.SetNetBase client baseNum).SetHost (some client)).broadcastHost
    ((s.registry.objects client).m_netId.setWidth 16) baseNum

def dropHost (s : HostElection) (client : Option Handle) : HostElection :=
  if client.isSome ∧ s.GetHost = client then (s.SetHost none).broadcastHost 0xFFFF 0xFFFF else s

def iHost (s : HostElection) (client : Handle) (baseNum : BitVec 32) (hostIsDead : Bool) : HostElection :=
  if s.registry.oneSync = true then s
  else if s.GetHost = none ∨ hostIsDead = true then s.makeHost client baseNum
  else s

def numClients (s : HostElection) : Nat :=
  s.registry.m_clients.total (fun c => if !(s.registry.objects c).m_dropping ∧ c ∈ s.m_hasRouted then 1 else 0)

def votesNeeded (numClients : Nat) : Nat :=
  let votesNeeded := (3 * numClients + 4) / 5
  if votesNeeded ≤ 0 then 1 else votesNeeded

def vouchesForHost (s : HostElection) (allegedNewId : BitVec 32) : Bool :=
  match s.GetHost with
  | none => false
  | some currentHost => (s.registry.objects currentHost).m_netId == allegedNewId

def newClient (s : HostElection) (allegedNewId : BitVec 32) : Option Handle :=
  if s.vouchesForHost allegedNewId = true then none else s.registry.GetClientByNetID allegedNewId

def vote (s : HostElection) (newClient : Handle) (allegedNewId baseNum : BitVec 32) : HostElection × Option Handle :=
  let votesNeeded := votesNeeded s.numClients
  let it := (s.voteCounts allegedNewId).getD 1
  let s := { s with voteCounts := Function.update s.voteCounts allegedNewId (some (it + 1)) }
  if votesNeeded ≤ it + 1 then
    ({ s with voteCounts := fun _ => none, received := [] }.makeHost newClient baseNum,some newClient)
  else (s,none)

def receive (s : HostElection) (client : Handle) (allegedNewId : BitVec 32) : HostElection :=
  { s with received := ⟨client,allegedNewId,s.registry.GetClientByNetID allegedNewId,s.vouchesForHost allegedNewId⟩ ::
      s.received }

def Process (s : HostElection) (client : Handle) (allegedNewId baseNum : BitVec 32) : HostElection × Option Handle :=
  if s.registry.oneSync = true then (s,none)
  else
    match s.newClient allegedNewId with
    | none => (s.receive client allegedNewId,none)
    | some newClient => (s.receive client allegedNewId).vote newClient allegedNewId baseNum

def step (s : HostElection) : HostEvent → HostElection
  | .server event => { s.dropHost (s.server.drops event) with server := s.server.step event }
  | .routed c => { s with m_hasRouted := insert c s.m_hasRouted }
  | .iHost c baseNum hostIsDead => s.iHost c baseNum hostIsDead
  | .heHost c allegedNewId baseNum => (s.Process c allegedNewId baseNum).1

def voters (s : HostElection) (c : Handle) : Finset Handle :=
  ((s.received.filter (fun vouch => vouch.newClient = some c)).map Vouch.voter).toFinset

def vouches (s : HostElection) (allegedNewId : BitVec 32) : Nat :=
  s.received.countP (fun vouch => vouch.allegedNewId == allegedNewId && vouch.newClient.isSome && !vouch.late)

noncomputable def majority (n : Nat) : Nat := ⌈(3 / 5 : ℚ) * max n 1⌉₊

def ByMajority (s : HostElection) : HostEvent → Prop
  | .heHost c allegedNewId baseNum =>
    ∀ elected, (s.Process c allegedNewId baseNum).2 = some elected →
      majority s.numClients ≤ ((s.receive c allegedNewId).voters elected).card
  | _ => True

def NotOvercounted (s : HostElection) : HostEvent → Prop
  | .heHost c allegedNewId _ =>
    s.registry.oneSync = false → ∀ client, s.newClient allegedNewId = some client →
      ¬(((s.receive c allegedNewId).voters client).card < majority s.numClients ∧
        majority s.numClients ≤ (s.receive c allegedNewId).vouches allegedNewId + 1)
  | _ => True

def VotesCounted (s : HostElection) : Prop :=
  ∀ id, s.voteCounts id = if s.vouches id = 0 then none else some (s.vouches id + 1)

variable {s : HostElection} {c client : Handle} {allegedNewId baseNum : BitVec 32}

theorem votesNeededMajority (n : Nat) : votesNeeded n = majority n := by
  unfold votesNeeded majority
  dsimp only
  split
  · rename_i none
    have zero : n = 0 := by omega
    subst zero
    symm
    rw [Nat.ceil_eq_iff one_ne_zero]
    norm_num
  · rename_i some
    have positive : 1 ≤ n := by omega
    rw [max_eq_left positive]
    symm
    rw [Nat.ceil_eq_iff (by omega)]
    have low : ((3 * n + 4) / 5 - 1) * 5 < 3 * n := by omega
    have high : 3 * n ≤ (3 * n + 4) / 5 * 5 := by omega
    have low' : ((((3 * n + 4) / 5 - 1 : ℕ) : ℚ)) * 5 < 3 * n := by exact_mod_cast low
    have high' : (3 * n : ℚ) ≤ (((3 * n + 4) / 5 : ℕ) : ℚ) * 5 := by exact_mod_cast high
    constructor
    · linarith
    · linarith

theorem newClientFound (found : s.newClient allegedNewId = some client) :
    s.registry.GetClientByNetID allegedNewId = some client ∧ s.vouchesForHost allegedNewId = false := by
  unfold newClient at found
  split at found
  · cases found
  · rename_i fresh
    exact ⟨found,Bool.not_eq_true _ ▸ fresh⟩

theorem newClientNone (none : s.newClient allegedNewId = none) :
    ((s.registry.GetClientByNetID allegedNewId).isSome && !s.vouchesForHost allegedNewId) = false := by
  unfold newClient at none
  split at none
  · rename_i late
    rw [late,Bool.not_true,Bool.and_false]
  · rw [none]
    rfl

theorem vouchesReceived (id : BitVec 32) : (s.receive c allegedNewId).vouches id =
    s.vouches id + if allegedNewId = id ∧ (s.newClient allegedNewId).isSome then 1 else 0 := by
  unfold vouches receive
  rw [List.countP_cons]
  congr 1
  cases found : s.newClient allegedNewId with
  | none =>
    have ignored := newClientNone found
    rw [Bool.and_assoc,ignored,Bool.and_false]
    simp
  | some client =>
    obtain ⟨present,fresh⟩ := newClientFound found
    simp [present,fresh]

theorem votesOf (counted : s.VotesCounted) (id : BitVec 32) : (s.voteCounts id).getD 1 = s.vouches id + 1 := by
  rw [counted id]
  split
  · rename_i zero
    rw [zero]
    rfl
  · rfl

theorem VotesCounted.receiveIgnored (counted : s.VotesCounted) (none : s.newClient allegedNewId = none) :
    (s.receive c allegedNewId).VotesCounted := by
  intro id
  have same : (s.receive c allegedNewId).vouches id = s.vouches id := by
    rw [vouchesReceived,none]
    simp
  rw [same]
  exact counted id

theorem VotesCounted.sameVotes {s' : HostElection} (counted : s.VotesCounted) (votes : s'.voteCounts = s.voteCounts)
    (received : s'.received = s.received) : s'.VotesCounted := by
  intro id
  unfold vouches
  rw [votes,received]
  exact counted id

theorem setHostVotes (host : Option Handle) :
    (s.SetHost host).voteCounts = s.voteCounts ∧ (s.SetHost host).received = s.received := by
  unfold SetHost
  split
  · exact ⟨rfl,rfl⟩
  · split
    · exact ⟨rfl,rfl⟩
    · exact ⟨rfl,rfl⟩

theorem makeHostVotes :
    (s.makeHost client baseNum).voteCounts = s.voteCounts ∧ (s.makeHost client baseNum).received = s.received :=
  setHostVotes (s := s.SetNetBase client baseNum) (some client)

theorem VotesCounted.voted (counted : s.VotesCounted) (found : s.newClient allegedNewId = some client) :
    ((s.receive c allegedNewId).vote client allegedNewId baseNum).1.VotesCounted := by
  unfold vote
  dsimp only
  split
  · have cleared : HostElection.VotesCounted { s.receive c allegedNewId with voteCounts := fun _ => none, received := [] } :=
      fun _ => rfl
    exact cleared.sameVotes makeHostVotes.1 makeHostVotes.2
  · intro id
    have votes : ((s.receive c allegedNewId).voteCounts allegedNewId).getD 1 = s.vouches allegedNewId + 1 :=
      votesOf counted allegedNewId
    have received : (s.receive c allegedNewId).vouches id = s.vouches id +
        if allegedNewId = id ∧ (s.newClient allegedNewId).isSome then 1 else 0 := vouchesReceived id
    rw [votes]
    change Function.update s.voteCounts allegedNewId _ id = if (s.receive c allegedNewId).vouches id = 0 then none else
      some ((s.receive c allegedNewId).vouches id + 1)
    by_cases same : id = allegedNewId
    · subst same
      rw [received,found,Function.update_self]
      simp
    · have other : (s.receive c allegedNewId).vouches id = s.vouches id := by
        rw [received]
        simp [Ne.symm same]
      rw [other,Function.update_of_ne same]
      exact counted id

theorem dropHostVotes (dropped : Option Handle) :
    (s.dropHost dropped).voteCounts = s.voteCounts ∧ (s.dropHost dropped).received = s.received := by
  unfold dropHost
  split
  · exact ⟨rfl,rfl⟩
  · exact ⟨rfl,rfl⟩

theorem VotesCounted.step (counted : s.VotesCounted) (event : HostEvent) : (s.step event).VotesCounted := by
  cases event with
  | server event => exact counted.sameVotes (dropHostVotes _).1 (dropHostVotes _).2
  | routed c => exact counted.sameVotes rfl rfl
  | iHost c baseNum hostIsDead =>
    unfold HostElection.step iHost
    dsimp only
    split
    · exact counted
    · split
      · exact counted.sameVotes makeHostVotes.1 makeHostVotes.2
      · exact counted
  | heHost c allegedNewId baseNum =>
    unfold HostElection.step Process
    dsimp only
    split
    · exact counted
    · split
      · rename_i none
        exact counted.receiveIgnored none
      · rename_i client found
        exact counted.voted found

theorem electsIff (counted : s.VotesCounted) (found : s.newClient allegedNewId = some client) (elected : Handle) :
    ((s.receive c allegedNewId).vote client allegedNewId baseNum).2 = some elected ↔
      elected = client ∧ majority s.numClients ≤ (s.receive c allegedNewId).vouches allegedNewId + 1 := by
  have votes : ((s.receive c allegedNewId).voteCounts allegedNewId).getD 1 = s.vouches allegedNewId + 1 :=
    votesOf counted allegedNewId
  have received : (s.receive c allegedNewId).vouches allegedNewId = s.vouches allegedNewId + 1 := by
    rw [vouchesReceived,found]
    simp
  have needed : votesNeeded (s.receive c allegedNewId).numClients = majority s.numClients := votesNeededMajority s.numClients
  unfold vote
  dsimp only
  rw [votes,received,needed]
  split
  · rename_i enough
    exact ⟨fun same => ⟨(Option.some.inj same).symm,enough⟩,fun both => congrArg some both.1.symm⟩
  · rename_i few
    exact ⟨fun same => (nomatch same),fun both => absurd both.2 few⟩

theorem byMajorityIff (counted : s.VotesCounted) (event : HostEvent) :
    s.ByMajority event ↔ s.NotOvercounted event := by
  cases event with
  | server event => exact Iff.rfl
  | routed c => exact Iff.rfl
  | iHost c baseNum hostIsDead => exact Iff.rfl
  | heHost c allegedNewId baseNum =>
    unfold ByMajority NotOvercounted Process
    dsimp only
    split
    · rename_i oneSync
      exact ⟨fun _ off => (nomatch oneSync.symm.trans off),fun _ _ same => (nomatch same)⟩
    · rename_i off
      rw [Bool.not_eq_true] at off
      cases found : s.newClient allegedNewId with
      | none => exact ⟨fun _ _ _ same => (nomatch same),fun _ _ same => (nomatch same)⟩
      | some client =>
        dsimp only
        constructor
        · rintro majority _ _ ⟨rfl⟩ ⟨few,enough⟩
          exact absurd (majority client ((electsIff counted found client).mpr ⟨rfl,enough⟩)) (by omega)
        · intro exact elected made
          obtain ⟨rfl,enough⟩ := (electsIff counted found elected).mp made
          exact Nat.le_of_not_lt (fun few => exact off elected rfl ⟨few,enough⟩)

theorem countedConstruct (bigMode oneSync : Bool) : (construct bigMode oneSync).VotesCounted := by
  intro id
  rfl

theorem electionsExact (bigMode oneSync : Bool) (events : List HostEvent) :
    Along step ByMajority (construct bigMode oneSync) events ↔
      Along step NotOvercounted (construct bigMode oneSync) events :=
  alongIffKept VotesCounted (fun _ event counted _ => counted.step event)
    (fun _ event counted => byMajorityIff counted event) (countedConstruct bigMode oneSync)

def twoClients : List HostEvent :=
  [.server (.initConnect [1] [1] [1] true true),.server (.allowClient 0),.server (.connect 1 [1] [1]),
    .server (.initConnect [2] [2] [2] true true),.server (.allowClient 1),.server (.connect 2 [2] [2]),
    .routed 0,.routed 1,.heHost 0 2 7]

theorem oneVouchElects : ¬Along step ByMajority (construct false false) twoClients := by
  intro along
  have last : _ ∧ Along step ByMajority (run step (construct false false) (twoClients.take 8)) (twoClients.drop 8) :=
    alongAppend.mp along
  have wanted := last.2.1 1 (by decide +kernel)
  rw [← votesNeededMajority] at wanted
  exact absurd wanted (by decide +kernel)

end HostElection
end Citizen.Registry
