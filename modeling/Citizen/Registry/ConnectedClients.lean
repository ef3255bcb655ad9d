import Citizen.Registry.ConnectedCount

/-! That `GameServer` keeps the count of connected clients right where its removals are orderly, and only there. -/
namespace Citizen.Registry.GameServer
open ClientRegistry

def connected (s : GameServer) : Nat :=
  s.registry.m_clients.total (fun c => if (s.registry.objects c).HasConnected ∧ c ∉ s.removed then 1 else 0)

def Counted (s : GameServer) : Prop := s.registry.m_amountConnectedClients.toNat = s.connected

def Removes (s : GameServer) : Event → Handle → Prop
  | .initConnect guid _ _ _ _,c => s.registry.m_clients.lookup guid = some c
  | .connect _ guid _,c => s.registry.m_clients.lookup guid = some c
  | .destroyClientHolder d,c => d = c ∧ c ∈ s.clientHolders ∧ s.registry.Alive c
  | .dropClient d onMainThread,c =>
    d = c ∧ onMainThread = true ∧ s.registry.Alive c ∧ (s.registry.objects c).m_dropping = false
  | .runCallback,c => s.m_mainThreadCallbacks.head? = some c
  | .allowClient _,_ => False
  | .release _,_ => False

def RemovedOnce (s : GameServer) (event : Event) : Prop :=
  ∀ c ∈ s.removed, s.Removes event c → Unchanged s.registry (s.step event).registry

def Orderly (s : GameServer) (event : Event) : Prop :=
  ∀ c, s.Removes event c → Removable s.removed s.registry c

def TempIdLeft (s : GameServer) : Event → Prop
  | .initConnect _ _ _ _ _ => ¬0x10000 + s.g_tempIds < 0xFFFF
  | _ => True

structure Sound (s : GameServer) : Prop where
  registry : s.registry.Sound s.removed
  queued : ∀ c ∈ s.m_mainThreadCallbacks, c < s.registry.constructed

variable {s : GameServer} {c : Handle}

theorem connectedRegistry (keyed : ∀ g c, s.registry.m_clients.lookup g = some c → (s.registry.objects c).m_guid = g)
    (gone : ∀ c ∈ s.removed, ¬s.registry.Registered c) : s.connected = s.registry.connected := by
  refine Table.totalCongr (fun g c found => ?_)
  have present : c ∉ s.removed := by
    intro removed
    refine gone c removed ?_
    unfold Registered
    rwa [keyed g c found]
  exact if_congr (and_iff_left present) rfl rfl

theorem Sound.counted (sound : s.Sound) : s.Counted := by
  unfold Counted
  rw [connectedRegistry sound.registry.keyed (fun c gone => (sound.registry.gone c gone).1)]
  exact sound.registry.counted

theorem removesCases {event : Event} (removes : s.Removes event c) : (∃ g, s.registry.m_clients.lookup g = some c) ∨
      (s.step event).removed = insert c s.removed ∧ ((s.step event).registry = s.registry.RemoveClient c ∨
          (s.step event).registry = (s.registry.RemoveClient c).modify c Client.SetDropping) := by
  cases event with
  | initConnect guid _ _ _ _ => exact .inl ⟨guid,removes⟩
  | connect _ guid _ => exact .inl ⟨guid,removes⟩
  | allowClient d => exact removes.elim
  | release d => exact removes.elim
  | destroyClientHolder d =>
    obtain ⟨rfl,holder,alive⟩ := removes
    have after : s.step (.destroyClientHolder d) =
        { s with clientHolders := s.clientHolders.erase d }.RemoveClient d := by
      unfold step destroyClientHolder
      dsimp only
      rw [if_pos holder,if_pos alive]
    rw [after]
    exact .inr ⟨rfl,.inl rfl⟩
  | dropClient d onMainThread =>
    obtain ⟨rfl,rfl,alive,undropped⟩ := removes
    have after : s.step (.dropClient d true) =
        { s with registry := s.registry.modify d Client.SetDropping }.RemoveClient d := by
      unfold step DropClientv
      dsimp only
      rw [if_pos alive,undropped,if_neg Bool.false_ne_true,if_pos rfl]
      rfl
    rw [after]
    exact .inr ⟨rfl,.inr (dropRemove s.registry d)⟩
  | runCallback =>
    refine .inr ?_
    unfold Removes at removes
    unfold step runCallback
    dsimp only
    split
    · rename_i none
      rw [none] at removes
      cases removes
    · rename_i d rest queue
      rw [queue] at removes
      cases removes
      exact ⟨rfl,.inl rfl⟩

section
variable (sound : s.Sound)
include sound

theorem Sound.removedOnce {event : Event} (orderly : s.Orderly event) : s.RemovedOnce event := by
  intro c gone removes
  rcases removesCases removes with ⟨g,found⟩ | ⟨_,after⟩
  · exact absurd (sound.registry.registered found) (sound.registry.gone c gone).1
  · have removable := orderly c removes
    unfold Removable at removable
    rw [if_pos gone] at removable
    have same := sound.registry.unchanged gone removable.1 removable.2
    rcases after with plain | dropped
    · rwa [plain]
    · rw [dropped]
      exact unchangedDropping.mpr same

theorem countRemoved {s' : GameServer} (removed : s'.removed = insert c s.removed)
    (after : s'.registry = s.registry.RemoveClient c ∨
      s'.registry = (s.registry.RemoveClient c).modify c Client.SetDropping) (counted : s'.Counted) :
    (s.registry.RemoveClient c).m_amountConnectedClients.toNat = (s.registry.RemoveClient c).connected := by
  have keyed := @keyedRemoved s.registry c sound.registry.keyed
  have gone := @goneRemoved s.registry c s.removed sound.registry.gone
  unfold Counted at counted
  rcases after with plain | dropped
  · have count := connectedRegistry (by rw [plain]; exact keyed) (fun d mem => by
      rw [plain]
      rw [removed] at mem
      exact (gone d mem).1)
    rwa [count,plain] at counted
  · have count := connectedRegistry (s := s') (fun g d found => by
      rw [dropped] at found ⊢
      rw [dropFrame.guid]
      exact keyed g d found) (fun d mem => by
      rw [dropped,dropFrame.registered]
      rw [removed] at mem
      exact (gone d mem).1)
    have same : ((s.registry.RemoveClient c).modify c Client.SetDropping).connected =
        (s.registry.RemoveClient c).connected :=
      Table.totalCongr (fun _ _ _ => oneSame (modifyField Client.SetDropping Client.m_netId (fun _ => rfl)))
    rw [count,dropped,same] at counted
    exact counted

theorem Sound.orderly {event : Event} (counted : (s.step event).Counted)
    (once : s.RemovedOnce event) : s.Orderly event := by
  intro c removes
  rcases removesCases removes with ⟨g,found⟩ | ⟨removed,after⟩
  · exact sound.registry.removable (sound.registry.registered found)
  · by_cases gone : c ∈ s.removed
    · unfold Removable
      rw [if_pos gone]
      have same := once c gone removes
      rcases after with plain | dropped
      · rw [plain] at same
        exact vacantOfUnchanged same
      · rw [dropped] at same
        exact vacantOfUnchanged (unchangedDropping.mp same)
    · exact sound.registry.removedOnce gone (countRemoved sound removed after counted)

theorem Sound.removing (made : c < s.registry.constructed)
    (removable : Removable s.removed s.registry c) : (s.RemoveClient c).Sound :=
  ⟨sound.registry.removing made removable,sound.queued⟩

theorem Sound.dropped (alive : s.registry.Alive c) {onMainThread : Bool}
    (removable : onMainThread = true → (s.registry.objects c).m_dropping = false → Removable s.removed s.registry c) :
    (s.DropClientv c onMainThread).Sound := by
  have made := sound.registry.fresh c (.inl alive)
  unfold DropClientv
  split
  · exact sound
  · rename_i undropped
    dsimp only
    split
    · rename_i here
      have orderly := removable here (Bool.eq_false_of_not_eq_true undropped)
      have after : (s.registry.modify c Client.SetDropping).RemoveClient c =
          (s.registry.RemoveClient c).modify c Client.SetDropping := dropRemove s.registry c
      refine ⟨?_,sound.queued⟩
      unfold DropClientInternal RemoveClient
      dsimp only
      rw [after]
      exact (sound.registry.removing made orderly).dropping
    · refine ⟨sound.registry.dropping.references (fun d held => ?_),fun d queued => ?_⟩
      · rcases Finset.mem_insert.mp held with rfl | earlier
        · exact made
        · exact sound.registry.fresh d (.inl (.inl earlier))
      · rcases List.mem_append.mp queued with earlier | last
        · exact sound.queued d earlier
        · rw [List.mem_singleton.mp last]
          exact made

theorem Sound.dropOld (guid : Text) (onMainThread : Bool) : (s.dropOld guid onMainThread).Sound := by
  unfold GameServer.dropOld
  split
  · exact sound
  · rename_i oldClient found
    have registered := sound.registry.registered found
    exact sound.dropped (.inr registered) (fun _ _ => sound.registry.removable registered)

theorem Sound.makeNew (guid token tcpEndPoint : Text) (gameNameMatch : Bool)
    (invalid : ¬0x10000 + s.g_tempIds < 0xFFFF) : (s.makeNew guid token tcpEndPoint gameNameMatch).Sound := by
  let client := s.registry.constructed
  let named := ((s.registry.MakeClient guid).SetConnectionToken client token).SetTcpEndPoint client tcpEndPoint
  have made : ClientRegistry.Sound s.removed named := ((sound.registry.made guid).token token).endPoint tcpEndPoint
  have object : named.objects client =
      ((Client.construct guid).SetConnectionToken token).SetTcpEndPoint tcpEndPoint := by
    have last : named.objects client = Client.SetTcpEndPoint
        (((s.registry.MakeClient guid).SetConnectionToken client token).objects client) tcpEndPoint :=
      Function.update_self _ _ _
    have first : ((s.registry.MakeClient guid).SetConnectionToken client token).objects client =
        Client.SetConnectionToken ((s.registry.MakeClient guid).objects client) token := Function.update_self _ _ _
    rw [last,first,objectMade]
  have without : ¬(named.objects client).HasConnected := by
    rw [object]
    exact unassigned
  exact ⟨made.temporary without invalid,fun c queued => Nat.lt_succ_of_lt (sound.queued c queued)⟩

end

theorem tempIdsDropped (guid : Text) (onMainThread : Bool) : (s.dropOld guid onMainThread).g_tempIds = s.g_tempIds := by
  unfold GameServer.dropOld DropClientv
  split
  · rfl
  · split
    · rfl
    · dsimp only
      split
      · rfl
      · rfl

theorem Sound.connectClient (sound : s.Sound) (registered : s.registry.Registered c) (peer : Int) (token : Text) :
    (s.connectClient c peer token).Sound := by
  have present : c ∉ s.removed := fun gone => (sound.registry.gone c gone).1 registered
  have made := sound.registry.fresh c (.inl (.inr registered))
  have removable := sound.registry.removable registered
  unfold GameServer.connectClient
  split
  · exact sound.removing made removable
  · split
    · exact sound.removing made removable
    · have peered := sound.registry.peer present peer
      have frame : Frame s.registry (s.registry.SetPeer c peer) := setPeerFrame
      have still : (s.registry.SetPeer c peer).Registered c := frame.registered.mpr registered
      have queued (d : Handle) (mem : d ∈ s.m_mainThreadCallbacks) : d < (s.registry.SetPeer c peer).constructed := by
        rw [setPeerConstructed]
        exact sound.queued d mem
      have first : { s with registry := s.registry.SetPeer c peer }.Sound := ⟨peered,queued⟩
      dsimp only
      split
      · exact first.removing (peered.fresh c (.inl (.inr still))) (peered.removable still)
      · split
        · exact first
        · rename_i without
          cases handled : (s.registry.SetPeer c peer).HandleConnectingClient c with
          | none => exact first
          | some registry =>
            refine ⟨peered.connecting still without handled,fun d mem => ?_⟩
            obtain ⟨netId,_,rfl⟩ := Option.map_eq_some_iff.mp handled
            exact queued d mem

theorem Sound.step (sound : s.Sound) {event : Event} (left : s.TempIdLeft event) (orderly : s.Orderly event) :
    (s.step event).Sound := by
  cases event with
  | initConnect guid token tcpEndPoint gameNameMatch onMainThread =>
    refine (sound.dropOld guid onMainThread).makeNew guid token tcpEndPoint gameNameMatch ?_
    rw [tempIdsDropped]
    exact left
  | allowClient c =>
    unfold GameServer.step allowClient
    dsimp only
    split
    · split
      · exact ⟨sound.registry.validated,sound.queued⟩
      · exact ⟨sound.registry,sound.queued⟩
    · exact sound
  | destroyClientHolder c =>
    have removable := orderly c
    unfold GameServer.step destroyClientHolder
    dsimp only
    split
    · rename_i holder
      have kept : { s with clientHolders := s.clientHolders.erase c }.Sound := ⟨sound.registry,sound.queued⟩
      split
      · rename_i alive
        exact kept.removing (sound.registry.fresh c (.inl alive)) (removable ⟨rfl,holder,alive⟩)
      · exact kept
    · exact sound
  | connect peer guid token =>
    unfold GameServer.step GameServer.connect
    dsimp only
    split
    · exact sound
    · split
      · exact sound
      · rename_i client found
        exact sound.connectClient (sound.registry.registered found) peer token
  | dropClient c onMainThread =>
    unfold GameServer.step
    dsimp only
    split
    · rename_i alive
      exact sound.dropped alive (fun here undropped => orderly c ⟨rfl,here,alive,undropped⟩)
    · exact sound
  | runCallback =>
    have removable := orderly
    unfold GameServer.step runCallback
    dsimp only
    split
    · exact sound
    · rename_i c rest queue
      have queued (d : Handle) (mem : d ∈ c :: rest) : d < s.registry.constructed :=
        sound.queued d (by rwa [queue])
      have kept : { s with m_mainThreadCallbacks := rest }.Sound :=
        ⟨sound.registry,fun d mem => queued d (List.mem_cons_of_mem _ mem)⟩
      exact kept.removing (queued c List.mem_cons_self) (removable c (congrArg List.head? queue))
  | release c =>
    unfold GameServer.step GameServer.release
    dsimp only
    split
    · exact sound
    · have made (d : Handle) (held : d ∈ s.registry.held.erase c) : d < s.registry.constructed :=
        sound.registry.fresh d (.inl (.inl (Finset.mem_of_mem_erase held)))
      exact ⟨sound.registry.references made,sound.queued⟩

theorem soundConstructed (bigMode oneSync : Bool) : (GameServer.construct bigMode oneSync).Sound := by
  refine ⟨⟨fun g c found => ?_,fun c either => ?_,fun c gone => ?_,fun c has _ => absurd has unassigned,netIdsConstructed,
    fun c => unassigned,rfl⟩,fun c queued => ?_⟩
  · cases found
  · rcases either with (held | registered) | gone
    · exact absurd held (Finset.notMem_empty _)
    · cases registered
    · exact absurd gone (Finset.notMem_empty _)
  · exact absurd gone (Finset.notMem_empty _)
  · cases queued

theorem connectedCounted (bigMode oneSync : Bool) (events : List Event) :
    (Along step (fun s event => s.TempIdLeft event ∧ s.Orderly event) (construct bigMode oneSync) events →
        Throughout step Counted (construct bigMode oneSync) events ∧
          Along step RemovedOnce (construct bigMode oneSync) events) ∧
      (Along step TempIdLeft (construct bigMode oneSync) events →
        Throughout step Counted (construct bigMode oneSync) events →
          Along step RemovedOnce (construct bigMode oneSync) events →
            Along step Orderly (construct bigMode oneSync) events) := by
  have base := soundConstructed bigMode oneSync
  generalize construct bigMode oneSync = s at base
  constructor
  · intro good
    have all := throughoutOfKept Sound (fun s e sound ok => sound.step ok.1 ok.2) base good
    exact ⟨throughoutMono (fun _ sound => sound.counted) all,
      alongOfKept Sound (fun s e sound ok => ⟨sound.step ok.1 ok.2,sound.removedOnce ok.2⟩) base good⟩
  · intro left counted once
    induction events generalizing s with
    | nil => trivial
    | cons e rest ih =>
      have next : (s.step e).Counted := throughoutFirst counted.2
      have orderly := base.orderly next once.1
      exact ⟨orderly,ih (s.step e) (base.step left.1 orderly) left.2 counted.2 once.2⟩

def timedOutWrongToken : List Event :=
  [.initConnect [103] [116] [] true false,.allowClient 0,.connect 5 [103] [116],.dropClient 0 false,
    .connect 6 [103] [117],.runCallback]

theorem countedBelowZero : ¬Throughout step Counted (construct false false) timedOutWrongToken := by
  intro all
  have last := throughoutLast all
  have count : (run step (construct false false) timedOutWrongToken).registry.m_amountConnectedClients.toNat =
      4294967295 := by decide +kernel
  have none : (run step (construct false false) timedOutWrongToken).connected = 0 := by decide +kernel
  unfold Counted at last
  rw [count,none] at last
  cases last

end Citizen.Registry.GameServer
