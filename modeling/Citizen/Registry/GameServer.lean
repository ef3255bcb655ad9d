import Citizen.Registry.ClientRegistry

/-! Where `GameServer` and `initConnect` make, connect and remove clients. -/
namespace Citizen.Registry
open ClientRegistry

/-- `m_mainThreadCallbacks` are the clients of queued `DropClientInternal` calls; `removed` are those that
`RemoveClient` has been called for. -/
structure GameServer where
  registry : ClientRegistry
  g_tempIds : BitVec 32
  clientHolders : Finset Handle
  m_mainThreadCallbacks : List Handle
  removed : Finset Handle

inductive Event where
  | initConnect (guid token tcpEndPoint : Text) (gameNameMatch onMainThread : Bool)
  | allowClient (c : Handle)
  | destroyClientHolder (c : Handle)
  | connect (peer : Int) (guid token : Text)
  | dropClient (c : Handle) (onMainThread : Bool)
  | runCallback
  | release (c : Handle)

namespace GameServer

def construct (bigMode oneSync : Bool) : GameServer := ⟨.construct bigMode oneSync,0,∅,[],∅⟩

def RemoveClient (s : GameServer) (c : Handle) : GameServer :=
  { s with registry := s.registry.RemoveClient c, removed := insert c s.removed }

def DropClientInternal (s : GameServer) (c : Handle) : GameServer := s.RemoveClient c

def DropClientv (s : GameServer) (c : Handle) (onMainThread : Bool) : GameServer :=
  if (s.registry.objects c).m_dropping = true then s
  else
    let s := { s with registry := s.registry.modify c Client.SetDropping }
    if onMainThread = true then s.DropClientInternal c
    else
      { s with
        registry := { s.registry with held := insert c s.registry.held }
        m_mainThreadCallbacks := s.m_mainThreadCallbacks ++ [c] }

def runCallback (s : GameServer) : GameServer :=
  match s.m_mainThreadCallbacks with
  | [] => s
  | c :: rest => { s with m_mainThreadCallbacks := rest }.DropClientInternal c

def dropOld (s : GameServer) (guid : Text) (onMainThread : Bool) : GameServer :=
  match s.registry.m_clients.lookup guid with
  | none => s
  | some oldClient => s.DropClientv oldClient onMainThread

def makeNew (s : GameServer) (guid token tcpEndPoint : Text) (gameNameMatch : Bool) : GameServer :=
  let client := s.registry.constructed
  let registry := s.registry.MakeClient guid
  let registry := registry.SetConnectionToken client token
  let registry := registry.SetTcpEndPoint client tcpEndPoint
  { s with
    registry := registry.SetNetId client (0x10000 + s.g_tempIds)
    g_tempIds := s.g_tempIds + 1
    clientHolders := if gameNameMatch = true then insert client s.clientHolders else s.clientHolders }

def initConnect (s : GameServer) (guid token tcpEndPoint : Text) (gameNameMatch onMainThread : Bool) : GameServer :=
  (s.dropOld guid onMainThread).makeNew guid token tcpEndPoint gameNameMatch

def allowClient (s : GameServer) (c : Handle) : GameServer :=
  if c ∈ s.clientHolders then
    { s with
      clientHolders := s.clientHolders.erase c
      registry := if s.registry.Alive c then s.registry.modify c Client.SetPassedValidation else s.registry }
  else s

def destroyClientHolder (s : GameServer) (c : Handle) : GameServer :=
  if c ∈ s.clientHolders then
    let s := { s with clientHolders := s.clientHolders.erase c }
    if s.registry.Alive c then s.RemoveClient c else s
  else s

def connectClient (s : GameServer) (c : Handle) (peer : Int) (token : Text) : GameServer :=
  if token ≠ (s.registry.objects c).m_connectionToken then s.RemoveClient c
  else if (s.registry.objects c).passedValidation = false then s.RemoveClient c
  else
    let s := { s with registry := s.registry.SetPeer c peer }
    if s.registry.oneSync = true ∧ ¬(s.registry.objects c).HasSlotId then s.RemoveClient c
    else if (s.registry.objects c).HasConnected then s
    else { s with registry := (s.registry.HandleConnectingClient c).getD s.registry }

def connect (s : GameServer) (peer : Int) (guid token : Text) : GameServer :=
  match s.registry.lock (s.registry.m_clientsByPeer peer) with
  | some _ => s
  | none =>
    match s.registry.m_clients.lookup guid with
    | none => s
    | some client => s.connectClient client peer token

def release (s : GameServer) (c : Handle) : GameServer :=
  if c ∈ s.m_mainThreadCallbacks then s else { s with registry := s.registry.release c }

def step (s : GameServer) : Event → GameServer
  | .initConnect guid token tcpEndPoint gameNameMatch onMainThread =>
    s.initConnect guid token tcpEndPoint gameNameMatch onMainThread
  | .allowClient c => s.allowClient c
  | .destroyClientHolder c => s.destroyClientHolder c
  | .connect peer guid token => s.connect peer guid token
  | .dropClient c onMainThread => if s.registry.Alive c then s.DropClientv c onMainThread else s
  | .runCallback => s.runCallback
  | .release c => s.release c

end GameServer
end Citizen.Registry
