import Citizen.Lib.Run
import Citizen.Lib.Table
import Citizen.Lib.Text

/-! `ClientRegistry`: the clients, the tables that find them, and the ids they are given. -/
namespace Citizen.Registry
open BitField (Byte)

abbrev Handle := Nat

def HashString (string : Text) : BitVec 32 :=
  let mixed := string.foldl (fun (hash : BitVec 32) ch =>
    let hash := hash + (tolower ch).signExtend 32
    let hash := hash + (hash <<< 10)
    hash ^^^ (hash >>> 6)) 0
  let mixed := mixed + (mixed <<< 3)
  let mixed := mixed ^^^ (mixed >>> 11)
  mixed + (mixed <<< 15)

def cStr (string : Text) : Text := string.takeWhile (fun b => b ≠ 0)

structure Client where
  m_guid : Text
  m_netId : BitVec 32
  m_previousNetId : BitVec 32
  m_slotId : BitVec 32
  m_peer : Option Int
  m_connectionToken : Text
  m_tcpEndPoint : Text
  m_dropping : Bool
  passedValidation : Bool
  deriving DecidableEq

namespace Client

def construct (guid : Text) : Client := ⟨guid,0xFFFF,0xFFFF,-1,none,[],[],false,false⟩

def HasConnected (c : Client) : Prop := c.m_netId < 0xFFFF

instance (c : Client) : Decidable c.HasConnected := inferInstanceAs (Decidable (_ < _))

def HasPreviousNetId (c : Client) : Prop := c.m_previousNetId ≠ 0xFFFF

instance (c : Client) : Decidable c.HasPreviousNetId := inferInstanceAs (Decidable (_ ≠ _))

def HasSlotId (c : Client) : Prop := c.m_slotId ≠ 0xFFFFFFFF

instance (c : Client) : Decidable c.HasSlotId := inferInstanceAs (Decidable (_ ≠ _))

def GetPeer (c : Client) : Int := c.m_peer.getD 0

def SetNetId (c : Client) (netId : BitVec 32) : Client := { c with m_previousNetId := c.m_netId, m_netId := netId }

def SetPeer (c : Client) (peer : Int) : Client := { c with m_peer := some peer }

def SetSlotId (c : Client) (slotId : BitVec 32) : Client := { c with m_slotId := slotId }

def SetConnectionToken (c : Client) (value : Text) : Client := { c with m_connectionToken := value }

def SetTcpEndPoint (c : Client) (value : Text) : Client := { c with m_tcpEndPoint := value }

def SetDropping (c : Client) : Client := { c with m_dropping := true }

def SetPassedValidation (c : Client) : Client := { c with passedValidation := true }

end Client

/-- The tables hold weak references, which end with the last strong one: `m_clients` has one for each
entry, and `held` are the clients that have one elsewhere. -/
structure ClientRegistry where
  bigMode : Bool
  oneSync : Bool
  constructed : Nat
  objects : Handle → Client
  held : Finset Handle
  m_clients : Table Text Handle
  m_clientsByNetId : BitVec 32 → Option Handle
  m_clientsByTcpEndPoint : Text → Option Handle
  m_clientsByConnectionToken : Text → Option Handle
  m_clientsByConnectionTokenHash : BitVec 32 → Option Handle
  m_clientsByPeer : Int → Option Handle
  m_clientsBySlotId : Nat → Option Handle
  m_curNetId : BitVec 16
  m_amountConnectedClients : BitVec 32

namespace ClientRegistry

def construct (bigMode oneSync : Bool) : ClientRegistry :=
  ⟨bigMode,oneSync,0,fun _ => .construct [],∅,∅,fun _ => none,fun _ => none,fun _ => none,fun _ => none,
    fun _ => none,fun _ => none,1,0⟩

def slots (s : ClientRegistry) : Nat := if s.bigMode then 2049 else 129

def Registered (s : ClientRegistry) (c : Handle) : Prop := s.m_clients.lookup (s.objects c).m_guid = some c

instance (s : ClientRegistry) (c : Handle) : Decidable (s.Registered c) := inferInstanceAs (Decidable (_ = _))

def Alive (s : ClientRegistry) (c : Handle) : Prop := c ∈ s.held ∨ s.Registered c

instance (s : ClientRegistry) (c : Handle) : Decidable (s.Alive c) := inferInstanceAs (Decidable (_ ∨ _))

def lock (s : ClientRegistry) (weak : Option Handle) : Option Handle := weak.filter (fun c => s.Alive c)

def modify (s : ClientRegistry) (c : Handle) (f : Client → Client) : ClientRegistry :=
  { s with objects := Function.update s.objects c (f (s.objects c)) }

def MakeClient (s : ClientRegistry) (guid : Text) : ClientRegistry :=
  { s with
    constructed := s.constructed + 1
    objects := Function.update s.objects s.constructed (.construct guid)
    held := insert s.constructed s.held
    m_clients := if s.m_clients.lookup guid = none then s.m_clients.insert guid s.constructed else s.m_clients }

def SetNetId (s : ClientRegistry) (c : Handle) (netId : BitVec 32) : ClientRegistry :=
  { s.modify c (Client.SetNetId · netId) with
    m_clientsByNetId := Function.update s.m_clientsByNetId netId (some c) }

def SetConnectionToken (s : ClientRegistry) (c : Handle) (value : Text) : ClientRegistry :=
  { s.modify c (Client.SetConnectionToken · value) with
    m_clientsByConnectionToken := Function.update s.m_clientsByConnectionToken value (some c)
    m_clientsByConnectionTokenHash :=
      Function.update s.m_clientsByConnectionTokenHash (HashString (cStr value)) (some c) }

def SetTcpEndPoint (s : ClientRegistry) (c : Handle) (value : Text) : ClientRegistry :=
  { s.modify c (Client.SetTcpEndPoint · value) with
    m_clientsByTcpEndPoint := Function.update s.m_clientsByTcpEndPoint value (some c) }

def findSlot (s : ClientRegistry) : Nat → Option Nat
  | 0 => none
  | slot + 1 => if slot ≠ 31 ∧ s.lock (s.m_clientsBySlotId slot) = none then some slot else s.findSlot slot

def SetSlotId (s : ClientRegistry) (c : Handle) (slot : Nat) : ClientRegistry :=
  { s.modify c (Client.SetSlotId · (BitVec.ofNat 32 slot)) with
    m_clientsBySlotId := Function.update s.m_clientsBySlotId slot (some c) }

def assignSlot (s : ClientRegistry) (c : Handle) : ClientRegistry :=
  match s.findSlot s.slots with
  | none => s
  | some slot => s.SetSlotId c slot

def assignPeer (s : ClientRegistry) (c : Handle) (peer : Int) : ClientRegistry :=
  { s.modify c (Client.SetPeer · peer) with
    m_clientsByPeer := Function.update s.m_clientsByPeer peer (some c) }

def SetPeer (s : ClientRegistry) (c : Handle) (peer : Int) : ClientRegistry :=
  let s := s.assignPeer c peer
  if s.oneSync = false then s
  else if (s.objects c).HasSlotId then s
  else s.assignSlot c

def incrementId (m_curNetId : BitVec 16) : BitVec 16 := if m_curNetId + 1 = 0xFFFF then 1 else m_curNetId + 1

def findNetId (s : ClientRegistry) : Nat → BitVec 16 → Option (BitVec 16)
  | 0,_ => none
  | steps + 1,m_curNetId =>
    if s.lock (s.m_clientsByNetId (m_curNetId.setWidth 32)) = none then some m_curNetId
    else s.findNetId steps (incrementId m_curNetId)

def HandleConnectingClient (s : ClientRegistry) (c : Handle) : Option ClientRegistry :=
  (s.findNetId 65534 s.m_curNetId).map (fun netId =>
    { s.SetNetId c (netId.setWidth 32) with
      m_curNetId := incrementId netId
      m_amountConnectedClients := s.m_amountConnectedClients + 1 })

def RemoveClient (s : ClientRegistry) (c : Handle) : ClientRegistry :=
  let client := s.objects c
  let byNetId := Function.update s.m_clientsByNetId client.m_netId none
  let token := client.m_connectionToken
  { s with
    m_clientsByPeer := Function.update s.m_clientsByPeer client.GetPeer none
    m_clientsByNetId :=
      if client.HasPreviousNetId then Function.update byNetId client.m_previousNetId none else byNetId
    m_clientsByConnectionToken := Function.update s.m_clientsByConnectionToken token none
    m_clientsByConnectionTokenHash :=
      Function.update s.m_clientsByConnectionTokenHash (HashString (cStr token)) none
    m_clientsBySlotId :=
      if client.m_slotId.toNat < s.slots then Function.update s.m_clientsBySlotId client.m_slotId.toNat none
      else s.m_clientsBySlotId
    m_clients := s.m_clients.erase client.m_guid
    objects := Function.update s.objects c { client with m_slotId := -1 }
    m_amountConnectedClients :=
      if client.HasConnected then s.m_amountConnectedClients - 1 else s.m_amountConnectedClients }

def release (s : ClientRegistry) (c : Handle) : ClientRegistry := { s with held := s.held.erase c }

end ClientRegistry
end Citizen.Registry
