import Citizen.Lib.Run
import Mathlib.Data.BitVec

/-! `TcpListenManager`: the connections that it counts for each host, and the limit that it holds them to. -/
namespace Citizen.Net

inductive PeerAddress where
  | inet (sin_addr : BitVec 32) (port : BitVec 16)
  | inet6 (sin6_addr : BitVec 128) (port : BitVec 16)
  | other
  deriving DecidableEq

abbrev Host := BitVec 128

def GetAddrByPeer : PeerAddress → Host
  | .inet sin_addr _ => sin_addr ++ (0 : BitVec 96)
  | .inet6 sin6_addr _ => sin6_addr
  | .other => 0

def IsLoopback : PeerAddress → Bool
  | .inet sin_addr _ => sin_addr &&& 0xFF000000 == 0x7F000000
  | _ => false

structure TcpListenManager (CIDRNetwork : Type) where
  g_networkList : List CIDRNetwork
  m_tcpLimit : BitVec 32
  m_tcpLimitByHost : Host → Option (BitVec 32)

structure Connection where
  peer : PeerAddress
  counted : Bool

structure TcpServer (CIDRNetwork : Type) where
  manager : TcpListenManager CIDRNetwork
  connections : List Connection
  blockedAt : Host → Option Nat

inductive TcpEvent (CIDRNetwork : Type) where
  | accept (peer : PeerAddress)
  | close (connection : Nat)
  | blockPeer (peer : PeerAddress)
  | setProxyRanges (networks : List CIDRNetwork)
  | setLimit (limit : BitVec 32)

section
variable {CIDRNetwork : Type} (inSubnet : PeerAddress → CIDRNetwork → Bool)

namespace TcpListenManager

def construct (networks : List CIDRNetwork) : TcpListenManager CIDRNetwork := ⟨networks,16,fun _ => none⟩

def IsProxyAddress (s : TcpListenManager CIDRNetwork) (peer : PeerAddress) : Bool :=
  match peer with
  | .other => false
  | _ => s.g_networkList.any (inSubnet peer)

def Uncounted (s : TcpListenManager CIDRNetwork) (peer : PeerAddress) : Bool :=
  s.IsProxyAddress inSubnet peer || IsLoopback peer

def counter (s : TcpListenManager CIDRNetwork) (host : Host) : BitVec 32 := (s.m_tcpLimitByHost host).getD 0

def setCounter (s : TcpListenManager CIDRNetwork) (host : Host) (it : BitVec 32) : TcpListenManager CIDRNetwork :=
  { s with m_tcpLimitByHost := Function.update s.m_tcpLimitByHost host (some it) }

def OnStartConnection (s : TcpListenManager CIDRNetwork) (peer : PeerAddress) : TcpListenManager CIDRNetwork × Bool :=
  if s.IsProxyAddress inSubnet peer = true then (s,true)
  else if IsLoopback peer = true then (s,true)
  else
    let host := GetAddrByPeer peer
    let it := s.counter host
    if s.m_tcpLimit.toInt ≤ it.toInt then (s.setCounter host (it + 1 - 1),false)
    else (s.setCounter host (it + 1),true)

def OnCloseConnection (s : TcpListenManager CIDRNetwork) (peer : PeerAddress) : TcpListenManager CIDRNetwork :=
  let host := GetAddrByPeer peer
  match s.m_tcpLimitByHost host with
  | none => s
  | some it => s.setCounter host (it - 1)

def BlockPeer (s : TcpListenManager CIDRNetwork) (peer : PeerAddress) : TcpListenManager CIDRNetwork :=
  s.setCounter (GetAddrByPeer peer) 0x3FFFFFFF

end TcpListenManager

def Connection.countsFor (host : Host) (connection : Connection) : Bool :=
  GetAddrByPeer connection.peer == host && connection.counted

namespace TcpServer

def construct (networks : List CIDRNetwork) : TcpServer CIDRNetwork := ⟨.construct networks,[],fun _ => none⟩

def counted (s : TcpServer CIDRNetwork) (host : Host) : Nat := s.connections.countP (Connection.countsFor host)

def Accept (s : TcpServer CIDRNetwork) (peer : PeerAddress) : TcpServer CIDRNetwork :=
  let started := s.manager.OnStartConnection inSubnet peer
  { s with
    manager := started.1
    connections := if started.2 = true then ⟨peer,!s.manager.Uncounted inSubnet peer⟩ :: s.connections else s.connections }

def close (s : TcpServer CIDRNetwork) (i : Nat) : TcpServer CIDRNetwork :=
  match s.connections[i]? with
  | none => s
  | some connection =>
    { s with manager := s.manager.OnCloseConnection connection.peer, connections := s.connections.eraseIdx i }

def BlockPeer (s : TcpServer CIDRNetwork) (peer : PeerAddress) : TcpServer CIDRNetwork :=
  let host := GetAddrByPeer peer
  { s with manager := s.manager.BlockPeer peer, blockedAt := Function.update s.blockedAt host (some (s.counted host)) }

def step (s : TcpServer CIDRNetwork) : TcpEvent CIDRNetwork → TcpServer CIDRNetwork
  | .accept peer => s.Accept inSubnet peer
  | .close connection => s.close connection
  | .blockPeer peer => s.BlockPeer peer
  | .setProxyRanges networks => { s with manager := { s.manager with g_networkList := networks } }
  | .setLimit limit => { s with manager := { s.manager with m_tcpLimit := limit } }

def Balanced (s : TcpServer CIDRNetwork) : Prop := ∀ host, (s.manager.counter host).toInt = s.counted host

structure Accounted (host : Host) (s : TcpServer CIDRNetwork) : Prop where
  counter : s.blockedAt host = none → (s.manager.counter host).toInt = s.counted host
  blocked : ∀ n, s.blockedAt host = some n →
    s.manager.counter host + BitVec.ofNat 32 n = 0x3FFFFFFF + BitVec.ofNat 32 (s.counted host)
  entry : s.blockedAt host ≠ none → s.manager.m_tcpLimitByHost host ≠ none

def Admits (host : Host) (s : TcpServer CIDRNetwork) : Prop :=
  s.blockedAt host = none → ∀ peer, GetAddrByPeer peer = host → s.manager.Uncounted inSubnet peer = false →
    ((s.manager.OnStartConnection inSubnet peer).2 = true ↔ (s.counted host : Int) < s.manager.m_tcpLimit.toInt)

def EndsCounted (host : Host) (s : TcpServer CIDRNetwork) : TcpEvent CIDRNetwork → Prop
  | .close i => ∀ connection, s.connections[i]? = some connection → GetAddrByPeer connection.peer = host →
      connection.counted = true ∨ s.manager.m_tcpLimitByHost host = none
  | _ => True

variable {inSubnet} {s : TcpServer CIDRNetwork} {host : Host} {peer : PeerAddress}

theorem addOne {it limit : BitVec 32} (below : it.toInt < limit.toInt) : (it + 1).toInt = it.toInt + 1 := by
  have high := BitVec.toInt_lt (x := limit)
  have low := BitVec.le_toInt (x := it)
  rw [BitVec.toInt_add,Int.bmod_eq_of_le]
  · rfl
  · simp at low ⊢
    omega
  · simp at high ⊢
    omega

theorem subOne {it : BitVec 32} (positive : 0 < it.toInt) : (it - 1).toInt = it.toInt - 1 := by
  have high := BitVec.toInt_lt (x := it)
  rw [BitVec.toInt_sub,Int.bmod_eq_of_le]
  · rfl
  · simp
    omega
  · simp at high ⊢
    omega

theorem counterSet (s : TcpListenManager CIDRNetwork) (own : Host) (it : BitVec 32) (host : Host) :
    (s.setCounter own it).counter host = if host = own then it else s.counter host := by
  unfold TcpListenManager.counter TcpListenManager.setCounter
  dsimp only
  by_cases same : host = own
  · rw [if_pos same,same,Function.update_self]
    rfl
  · rw [if_neg same,Function.update_of_ne same]

theorem entrySet (s : TcpListenManager CIDRNetwork) (own : Host) (it : BitVec 32) (host : Host) :
    (s.setCounter own it).m_tcpLimitByHost host = if host = own then some it else s.m_tcpLimitByHost host :=
  Function.update_apply ..

inductive Change (host : Host) (s s' : TcpServer CIDRNetwork) : Prop where
  | same (counter : s'.manager.counter host = s.manager.counter host) (counted : s'.counted host = s.counted host)
      (entry : s.manager.m_tcpLimitByHost host ≠ none → s'.manager.m_tcpLimitByHost host ≠ none)
      (blocked : s'.blockedAt host = s.blockedAt host)
  | opened (below : (s.manager.counter host).toInt < s.manager.m_tcpLimit.toInt)
      (counter : s'.manager.counter host = s.manager.counter host + 1) (counted : s'.counted host = s.counted host + 1)
      (entry : s'.manager.m_tcpLimitByHost host ≠ none) (blocked : s'.blockedAt host = s.blockedAt host)
  | ended (counter : s.manager.m_tcpLimitByHost host ≠ none → s'.manager.counter host = s.manager.counter host - 1)
      (counted : s'.counted host + 1 = s.counted host)
      (entry : s.manager.m_tcpLimitByHost host ≠ none → s'.manager.m_tcpLimitByHost host ≠ none)
      (blocked : s'.blockedAt host = s.blockedAt host)
  | blocked (counter : s'.manager.counter host = 0x3FFFFFFF) (entry : s'.manager.m_tcpLimitByHost host ≠ none)
      (blocked : s'.blockedAt host = some (s'.counted host))

theorem Accounted.change {s' : TcpServer CIDRNetwork} (accounted : s.Accounted host) (change : Change host s s') :
    s'.Accounted host := by
  cases change with
  | same counter counted entry blocked =>
    constructor
    · rw [counter,counted,blocked]
      exact accounted.counter
    · rw [counter,counted,blocked]
      exact accounted.blocked
    · rw [blocked]
      exact fun was => entry (accounted.entry was)
  | opened below counter counted entry blocked =>
    constructor
    · intro unblocked
      have before := accounted.counter (blocked ▸ unblocked)
      rw [counter,counted,addOne below,before]
      rfl
    · intro n at_n
      have before := accounted.blocked n (blocked ▸ at_n)
      rw [counter,counted,BitVec.ofNat_add]
      bv_omega
    · exact fun _ => entry
  | ended counter counted entry blocked =>
    constructor
    · intro unblocked
      have before := accounted.counter (blocked ▸ unblocked)
      have present : s.manager.m_tcpLimitByHost host ≠ none := by
        intro absent
        unfold TcpListenManager.counter at before
        rw [absent] at before
        simp at before
        omega
      rw [counter present,subOne (by omega)]
      omega
    · intro n at_n
      have before := accounted.blocked n (blocked ▸ at_n)
      rw [counter (accounted.entry (by rw [← blocked,at_n]; exact Option.some_ne_none n))]
      rw [← counted,BitVec.ofNat_add] at before
      bv_omega
    · exact fun was => entry (accounted.entry (blocked ▸ was))
  | blocked counter entry blocked =>
    constructor
    · intro unblocked
      rw [unblocked] at blocked
      cases blocked
    · intro n at_n
      rw [blocked] at at_n
      cases at_n
      rw [counter]
    · exact fun _ => entry

theorem countedAccept (peer : PeerAddress) (was : Bool) (s : TcpServer CIDRNetwork) (host : Host) :
    ((⟨peer,was⟩ :: s.connections : List Connection).countP (Connection.countsFor host)) =
      s.counted host + if GetAddrByPeer peer = host ∧ was = true then 1 else 0 := by
  rw [List.countP_cons]
  congr 1
  simp [Connection.countsFor]

theorem countedErase {i : Nat} {connection : Connection} (found : s.connections[i]? = some connection) :
    (s.connections.eraseIdx i).countP (Connection.countsFor host) + (if connection.countsFor host = true then 1 else 0) =
      s.counted host := by
  obtain ⟨bound,at_i⟩ := List.getElem?_eq_some_iff.mp found
  have perm := List.getElem_cons_eraseIdx_perm bound
  rw [at_i] at perm
  unfold counted
  rw [← perm.countP_eq,List.countP_cons]

theorem startUncounted (uncounted : s.manager.Uncounted inSubnet peer = true) :
    s.manager.OnStartConnection inSubnet peer = (s.manager,true) := by
  unfold TcpListenManager.OnStartConnection
  rcases (Bool.or_eq_true _ _).mp uncounted with proxy | loopback
  · rw [if_pos proxy]
  · rw [if_pos loopback,ite_self]

theorem startCounted (counted : s.manager.Uncounted inSubnet peer = false) :
    s.manager.OnStartConnection inSubnet peer =
      if s.manager.m_tcpLimit.toInt ≤ (s.manager.counter (GetAddrByPeer peer)).toInt then
        (s.manager.setCounter (GetAddrByPeer peer) (s.manager.counter (GetAddrByPeer peer)),false)
      else (s.manager.setCounter (GetAddrByPeer peer) (s.manager.counter (GetAddrByPeer peer) + 1),true) := by
  obtain ⟨proxy,loopback⟩ := Bool.or_eq_false_iff.mp counted
  unfold TcpListenManager.OnStartConnection
  rw [if_neg (Bool.eq_false_iff.mp proxy),if_neg (Bool.eq_false_iff.mp loopback)]
  dsimp only
  rw [BitVec.add_sub_cancel]

theorem acceptChange (peer : PeerAddress) (host : Host) : Change host s (s.Accept inSubnet peer) := by
  cases trusted : s.manager.Uncounted inSubnet peer with
  | true =>
    have after : s.Accept inSubnet peer = { s with connections := ⟨peer,false⟩ :: s.connections } := by
      unfold Accept
      rw [startUncounted trusted,trusted]
      rfl
    rw [after]
    refine .same rfl ?_ id rfl
    exact (countedAccept peer false s host).trans (by simp)
  | false =>
    by_cases full : s.manager.m_tcpLimit.toInt ≤ (s.manager.counter (GetAddrByPeer peer)).toInt
    · have after : s.Accept inSubnet peer =
          { s with manager := s.manager.setCounter (GetAddrByPeer peer) (s.manager.counter (GetAddrByPeer peer)) } := by
        unfold Accept
        rw [startCounted trusted,if_pos full]
        rfl
      rw [after]
      refine .same ?_ rfl ?_ rfl
      · rw [counterSet]
        split
        · rename_i own
          rw [own]
        · rfl
      · rw [entrySet]
        split
        · exact fun _ => Option.some_ne_none _
        · exact id
    · have after : s.Accept inSubnet peer =
          { s with
            manager := s.manager.setCounter (GetAddrByPeer peer) (s.manager.counter (GetAddrByPeer peer) + 1)
            connections := ⟨peer,true⟩ :: s.connections } := by
        unfold Accept
        rw [startCounted trusted,if_neg full,trusted]
        rfl
      rw [after]
      have counted := countedAccept peer true s host
      by_cases own : GetAddrByPeer peer = host
      · subst own
        refine .opened (Int.lt_of_not_ge full) ?_ ?_ ?_ rfl
        · rw [counterSet,if_pos rfl]
        · exact counted.trans (by simp)
        · rw [entrySet,if_pos rfl]
          exact Option.some_ne_none _
      · refine .same ?_ ?_ ?_ rfl
        · rw [counterSet,if_neg (Ne.symm own)]
        · exact counted.trans (by simp [own])
        · rw [entrySet,if_neg (Ne.symm own)]
          exact id

theorem closeOther {peer : PeerAddress} (other : GetAddrByPeer peer ≠ host) :
    (s.manager.OnCloseConnection peer).m_tcpLimitByHost host = s.manager.m_tcpLimitByHost host := by
  unfold TcpListenManager.OnCloseConnection
  dsimp only
  split
  · rfl
  · rw [entrySet,if_neg (Ne.symm other)]

theorem closeOwn : ((s.manager.OnCloseConnection peer).m_tcpLimitByHost (GetAddrByPeer peer)) =
    (s.manager.m_tcpLimitByHost (GetAddrByPeer peer)).map (· - 1) := by
  unfold TcpListenManager.OnCloseConnection
  dsimp only
  split
  · rename_i none
    rw [none]
    rfl
  · rename_i it found
    rw [entrySet,if_pos rfl,found]
    rfl

theorem closeChange (i : Nat) (host : Host) (ends : s.EndsCounted host (.close i)) : Change host s (s.close i) := by
  cases found : s.connections[i]? with
  | none =>
    have after : s.close i = s := by
      unfold close
      rw [found]
    rw [after]
    exact .same rfl rfl id rfl
  | some connection =>
    have after : s.close i =
        { s with manager := s.manager.OnCloseConnection connection.peer, connections := s.connections.eraseIdx i } := by
      unfold close
      rw [found]
    rw [after]
    have erased : (s.connections.eraseIdx i).countP (Connection.countsFor host) +
        (if connection.countsFor host = true then 1 else 0) = s.counted host := countedErase found
    by_cases own : GetAddrByPeer connection.peer = host
    · cases counted : connection.counted with
      | true =>
        have counts : connection.countsFor host = true := by
          unfold Connection.countsFor
          rw [own,counted,beq_self_eq_true,Bool.and_true]
        rw [if_pos counts] at erased
        subst own
        refine .ended ?_ erased ?_ rfl
        · intro present
          obtain ⟨it,some⟩ := Option.ne_none_iff_exists'.mp present
          unfold TcpListenManager.counter
          rw [closeOwn,some]
          rfl
        · rw [closeOwn]
          simp
      | false =>
        have uncounted : connection.countsFor host = false := by
          unfold Connection.countsFor
          rw [counted,Bool.and_false]
        rw [uncounted,if_neg Bool.false_ne_true,Nat.add_zero] at erased
        have absent := (ends connection found own).resolve_left (Bool.eq_false_iff.mp counted)
        subst own
        refine .same ?_ erased ?_ rfl
        · unfold TcpListenManager.counter
          rw [closeOwn,absent]
          rfl
        · exact fun present => absurd absent present
    · have uncounted : connection.countsFor host = false := by
        unfold Connection.countsFor
        rw [beq_eq_false_iff_ne.mpr own,Bool.false_and]
      rw [uncounted,if_neg Bool.false_ne_true,Nat.add_zero] at erased
      have same := closeOther (s := s) own
      refine .same ?_ erased (by rw [same]; exact id) rfl
      unfold TcpListenManager.counter
      rw [same]

theorem blockChange (peer : PeerAddress) (host : Host) : Change host s (s.BlockPeer peer) := by
  by_cases own : GetAddrByPeer peer = host
  · subst own
    refine .blocked ?_ ?_ (Function.update_self ..)
    · exact (counterSet ..).trans (if_pos rfl)
    · rw [show (s.BlockPeer peer).manager.m_tcpLimitByHost (GetAddrByPeer peer) = some 0x3FFFFFFF from
        (entrySet ..).trans (if_pos rfl)]
      exact Option.some_ne_none _
  · have entry : (s.BlockPeer peer).manager.m_tcpLimitByHost host = s.manager.m_tcpLimitByHost host :=
      (entrySet ..).trans (if_neg (Ne.symm own))
    exact .same ((counterSet ..).trans (if_neg (Ne.symm own))) rfl (by rw [entry]; exact id)
      (Function.update_of_ne (Ne.symm own) ..)

theorem stepChange (event : TcpEvent CIDRNetwork) (ends : s.EndsCounted host event) :
    Change host s (s.step inSubnet event) := by
  cases event with
  | accept peer => exact acceptChange peer host
  | close i => exact closeChange i host ends
  | blockPeer peer => exact blockChange peer host
  | setProxyRanges networks => exact .same rfl rfl id rfl
  | setLimit limit => exact .same rfl rfl id rfl

theorem accountedConstruct (networks : List CIDRNetwork) : (construct networks).Accounted host :=
  ⟨fun _ => rfl,fun _ blocked => (nomatch blocked),fun blocked => absurd rfl blocked⟩

theorem Accounted.admits (accounted : s.Accounted host) : s.Admits inSubnet host := by
  rintro unblocked peer rfl counted
  rw [startCounted counted,← accounted.counter unblocked]
  split
  · rename_i full
    exact ⟨fun admitted => (nomatch admitted),fun below => absurd full (Int.not_le.mpr below)⟩
  · rename_i below
    exact ⟨fun _ => Int.lt_of_not_ge below,fun _ => rfl⟩

theorem hostAccounting (inSubnet : PeerAddress → CIDRNetwork → Bool) (networks : List CIDRNetwork) (host : Host)
    (events : List (TcpEvent CIDRNetwork)) (ends : Along (step inSubnet) (EndsCounted host) (construct networks) events) :
    Throughout (step inSubnet) (fun s => s.Accounted host ∧ s.Admits inSubnet host) (construct networks) events :=
  throughoutMono (fun _ accounted => ⟨accounted,accounted.admits⟩)
    (throughoutOfKept (Accounted host) (fun _ event accounted ends => accounted.change (stepChange event ends))
      (accountedConstruct networks) ends)

def remote : PeerAddress := .inet 0x08080808 40000

theorem hostAccountingSmall :
    Throughout (step (fun _ (_ : Unit) => false)) (fun s => s.Accounted (GetAddrByPeer remote) ∧
        s.Admits (fun _ (_ : Unit) => false) (GetAddrByPeer remote)) (construct [])
      [.accept remote,.setLimit 1,.accept remote,.close 0,.blockPeer remote] :=
  hostAccounting (fun _ (_ : Unit) => false) [] (GetAddrByPeer remote) _
    ⟨trivial,trivial,trivial,fun _ found _ => .inl (Option.some.inj found ▸ rfl),trivial,trivial⟩

theorem blockedUnbalanced :
    ¬Throughout (step (fun _ (_ : Unit) => false)) Balanced (construct []) [.blockPeer remote] ∧
      (((construct ([] : List Unit)).BlockPeer remote).manager.OnStartConnection (fun _ _ => false) remote).2 = false := by
  constructor
  · intro balanced
    exact absurd (balanced.2 (GetAddrByPeer remote)) (by decide)
  · decide

end TcpServer
end
end Citizen.Net
