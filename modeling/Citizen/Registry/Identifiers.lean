import Citizen.Registry.ClientRegistry

/-! That no two clients hold a slot or a net id. -/
namespace Citizen.Registry.ClientRegistry

structure TempId where
  value : BitVec 32
  above : 0x10000#32 ≤ value

inductive Operation where
  | makeClient (guid : Text)
  | setConnectionToken (c : Handle) (value : Text)
  | setTcpEndPoint (c : Handle) (value : Text)
  | setTempId (c : Handle) (netId : TempId)
  | setPeer (c : Handle) (peer : Int)
  | handleConnectingClient (c : Handle)
  | handleConnectedClient (c : Handle)
  | removeClient (c : Handle)
  | release (c : Handle)

def step (s : ClientRegistry) : Operation → ClientRegistry
  | .makeClient guid => s.MakeClient guid
  | .setConnectionToken c value => if s.Alive c then s.SetConnectionToken c value else s
  | .setTcpEndPoint c value => if s.Alive c then s.SetTcpEndPoint c value else s
  | .setTempId c netId => if s.Alive c then s.SetNetId c netId.value else s
  | .setPeer c peer => if s.Alive c then s.SetPeer c peer else s
  | .handleConnectingClient c => if s.Alive c then (s.HandleConnectingClient c).getD s else s
  | .handleConnectedClient _ => s
  | .removeClient c => if s.Alive c then s.RemoveClient c else s
  | .release c => s.release c

structure SlotsApart (s : ClientRegistry) : Prop where
  distinct : ∀ c d, s.Alive c → s.Alive d → (s.objects c).HasSlotId →
    (s.objects c).m_slotId = (s.objects d).m_slotId → c = d
  inside : ∀ c, s.Alive c → (s.objects c).HasSlotId →
    (s.objects c).m_slotId.toNat < s.slots ∧ (s.objects c).m_slotId ≠ 31

structure NetIdsApart (s : ClientRegistry) : Prop where
  distinct : ∀ c d, s.Registered c → s.Registered d → (s.objects c).HasConnected →
    (s.objects c).m_netId = (s.objects d).m_netId → c = d
  valid : ∀ c, s.Registered c → (s.objects c).HasConnected →
    (s.objects c).m_netId ≠ 0 ∧ (s.objects c).m_netId ≠ 0xFFFF

def Apart (s : ClientRegistry) : Operation → Prop
  | .removeClient c => ∀ d, s.Registered d → d ≠ c → (s.objects d).HasConnected →
      (s.objects d).m_netId ≠ (s.objects c).m_netId ∧
        ((s.objects c).HasPreviousNetId → (s.objects d).m_netId ≠ (s.objects c).m_previousNetId)
  | _ => True

structure SlotsFound (s : ClientRegistry) : Prop where
  inside : ∀ c, s.Alive c → (s.objects c).HasSlotId →
    (s.objects c).m_slotId.toNat < s.slots ∧ (s.objects c).m_slotId ≠ 31
  found : ∀ c, s.Alive c → (s.objects c).HasSlotId → s.m_clientsBySlotId (s.objects c).m_slotId.toNat = some c

structure NetIdsFound (s : ClientRegistry) : Prop where
  found : ∀ c, s.Registered c → (s.objects c).HasConnected →
    s.m_clientsByNetId (s.objects c).m_netId = some c ∧ (s.objects c).m_netId ≠ 0
  next : s.m_curNetId ≠ 0 ∧ s.m_curNetId ≠ 0xFFFF

variable {s : ClientRegistry} {c d : Handle}

theorem SlotsFound.apart (slots : SlotsFound s) : SlotsApart s := by
  refine ⟨fun c d left right has same => ?_,slots.inside⟩
  have first := slots.found c left has
  have hasToo : (s.objects d).HasSlotId := by
    unfold Client.HasSlotId at has ⊢
    rwa [← same]
  have second := slots.found d right hasToo
  rw [← same] at second
  exact Option.some.inj (first.symm.trans second)

theorem NetIdsFound.apart (ids : NetIdsFound s) : NetIdsApart s := by
  refine ⟨fun c d left right has same => ?_,fun c registered has => ⟨(ids.found c registered has).2,fun invalid => ?_⟩⟩
  · have hasToo : (s.objects d).HasConnected := by
      unfold Client.HasConnected at has ⊢
      rwa [← same]
    have first := (ids.found c left has).1
    rw [same] at first
    exact Option.some.inj (first.symm.trans (ids.found d right hasToo).1)
  · unfold Client.HasConnected at has
    rw [invalid] at has
    exact absurd has (by decide)

theorem unassigned : ¬0xFFFF#32 < 0xFFFF#32 := by decide

theorem modifySelf {f : Client → Client} : (s.modify c f).objects c = f (s.objects c) := Function.update_self _ _ _

theorem modifyOther {f : Client → Client} (other : d ≠ c) : (s.modify c f).objects d = s.objects d :=
  Function.update_of_ne other _ _

theorem modifyField {α : Type} (f : Client → Client) (field : Client → α) (same : ∀ x, field (f x) = field x) :
    field ((s.modify c f).objects d) = field (s.objects d) := by
  by_cases here : d = c
  · rw [here,modifySelf,same]
  · rw [modifyOther here]

section Frames
variable {s' : ClientRegistry}

structure Frame (s s' : ClientRegistry) : Prop where
  guid : ∀ c, (s'.objects c).m_guid = (s.objects c).m_guid
  clients : s'.m_clients = s.m_clients
  held : s'.held = s.held

theorem Frame.registered (frame : Frame s s') : s'.Registered c ↔ s.Registered c := by
  unfold Registered
  rw [frame.guid,frame.clients]

theorem Frame.alive (frame : Frame s s') : s'.Alive c ↔ s.Alive c := by
  unfold Alive
  rw [frame.registered,frame.held]

theorem Frame.trans {s'' : ClientRegistry} (first : Frame s s') (second : Frame s' s'') : Frame s s'' :=
  ⟨fun c => (second.guid c).trans (first.guid c),second.clients.trans first.clients,second.held.trans first.held⟩

theorem SlotsFound.frame (slots : SlotsFound s) (alive : ∀ c, s'.Alive c → (s'.objects c).HasSlotId →
      s.Alive c ∧ (s'.objects c).m_slotId = (s.objects c).m_slotId)
    (size : s'.slots = s.slots) (table : s'.m_clientsBySlotId = s.m_clientsBySlotId) : SlotsFound s' := by
  have before (c : Handle) (here : s'.Alive c) (has : (s'.objects c).HasSlotId) : (s.objects c).HasSlotId := by
    unfold Client.HasSlotId at has ⊢
    rwa [← (alive c here has).2]
  refine ⟨fun c here has => ?_,fun c here has => ?_⟩
  · rw [(alive c here has).2,size]
    exact slots.inside c (alive c here has).1 (before c here has)
  · rw [(alive c here has).2,table]
    exact slots.found c (alive c here has).1 (before c here has)

theorem NetIdsFound.frame (ids : NetIdsFound s) (registered : ∀ c, s'.Registered c → (s'.objects c).HasConnected →
      s.Registered c ∧ (s'.objects c).m_netId = (s.objects c).m_netId)
    (table : ∀ n : BitVec 32, n < 0xFFFF → s'.m_clientsByNetId n = s.m_clientsByNetId n)
    (next : s'.m_curNetId = s.m_curNetId) : NetIdsFound s' := by
  refine ⟨fun c here has => ?_,by rw [next]; exact ids.next⟩
  obtain ⟨earlier,same⟩ := registered c here has
  unfold Client.HasConnected at has
  rw [same] at has ⊢
  rw [table _ has]
  exact ids.found c earlier has

theorem Frame.slots (frame : Frame s s') (slots : SlotsFound s)
    (same : ∀ c, (s'.objects c).m_slotId = (s.objects c).m_slotId) (size : s'.bigMode = s.bigMode)
    (table : s'.m_clientsBySlotId = s.m_clientsBySlotId) : SlotsFound s' :=
  slots.frame (fun c here _ => ⟨frame.alive.mp here,same c⟩)
    (congrArg (fun big => if big = true then 2049 else 129) size) table

theorem Frame.netIds (frame : Frame s s') (ids : NetIdsFound s)
    (same : ∀ c, (s'.objects c).m_netId = (s.objects c).m_netId) (table : s'.m_clientsByNetId = s.m_clientsByNetId)
    (next : s'.m_curNetId = s.m_curNetId) : NetIdsFound s' :=
  ids.frame (fun c here _ => ⟨frame.registered.mp here,same c⟩) (fun n _ => congrFun table n) next

end Frames

section Making

variable {guid : Text}

theorem registeredMade (registered : (s.MakeClient guid).Registered d) (other : d ≠ s.constructed) :
    s.Registered d := by
  unfold Registered MakeClient at registered
  dsimp only at registered
  rw [Function.update_of_ne other] at registered
  split at registered
  · by_cases same : (s.objects d).m_guid = guid
    · rw [same,AList.lookup_insert] at registered
      exact absurd (Option.some.inj registered).symm other
    · rwa [AList.lookup_insert_ne same] at registered
  · exact registered

theorem aliveMade (alive : (s.MakeClient guid).Alive d) (other : d ≠ s.constructed) : s.Alive d := by
  rcases alive with held | registered
  · exact .inl ((Finset.mem_insert.mp held).resolve_left other)
  · exact .inr (registeredMade registered other)

theorem objectMade : (s.MakeClient guid).objects s.constructed = .construct guid :=
  Function.update_self _ _ _

theorem objectBefore (other : d ≠ s.constructed) : (s.MakeClient guid).objects d = s.objects d :=
  Function.update_of_ne other _ _

theorem SlotsFound.made (slots : SlotsFound s) (guid : Text) : SlotsFound (s.MakeClient guid) := by
  refine slots.frame (fun c here has => ?_) rfl rfl
  have other : c ≠ s.constructed := by
    rintro rfl
    rw [objectMade] at has
    exact has rfl
  exact ⟨aliveMade here other,by rw [objectBefore other]⟩

theorem NetIdsFound.made (ids : NetIdsFound s) (guid : Text) : NetIdsFound (s.MakeClient guid) := by
  refine ids.frame (fun c here has => ?_) (fun _ _ => rfl) rfl
  have other : c ≠ s.constructed := by
    rintro rfl
    rw [objectMade] at has
    exact unassigned has
  exact ⟨registeredMade here other,by rw [objectBefore other]⟩

end Making

section Removing

theorem fieldRemoved {α : Type} (field : Client → α) (same : ∀ x, field { x with m_slotId := -1 } = field x) :
    field ((s.RemoveClient c).objects d) = field (s.objects d) := by
  unfold RemoveClient
  dsimp only
  by_cases here : d = c
  · rw [here,Function.update_self,same]
  · rw [Function.update_of_ne here]

theorem guidRemoved : ((s.RemoveClient c).objects d).m_guid = (s.objects d).m_guid :=
  fieldRemoved Client.m_guid (fun _ => rfl)

theorem registeredRemoved (registered : (s.RemoveClient c).Registered d) : d ≠ c ∧ s.Registered d := by
  unfold Registered at registered
  rw [guidRemoved] at registered
  have other : (s.objects d).m_guid ≠ (s.objects c).m_guid := by
    intro same
    unfold RemoveClient at registered
    dsimp only at registered
    rw [same,AList.lookup_erase] at registered
    cases registered
  refine ⟨fun same => other (by rw [same]),?_⟩
  unfold RemoveClient at registered
  dsimp only at registered
  rwa [AList.lookup_erase_ne other] at registered

theorem aliveRemoved (alive : (s.RemoveClient c).Alive d) : s.Alive d :=
  alive.imp id (fun registered => (registeredRemoved registered).2)

theorem objectRemoved (other : d ≠ c) : (s.RemoveClient c).objects d = s.objects d := Function.update_of_ne other _ _

theorem selfRemoved : (s.RemoveClient c).objects c = { s.objects c with m_slotId := -1 } := Function.update_self _ _ _

theorem SlotsFound.removed (slots : SlotsFound s) (alive : s.Alive c) : SlotsFound (s.RemoveClient c) := by
  have other (d : Handle) (has : ((s.RemoveClient c).objects d).HasSlotId) : d ≠ c := by
    rintro rfl
    unfold RemoveClient at has
    dsimp only at has
    rw [Function.update_self] at has
    exact has rfl
  refine ⟨fun d here has => ?_,fun d here has => ?_⟩
  · have apart := other d has
    rw [objectRemoved apart] at has ⊢
    exact slots.inside d (aliveRemoved here) has
  · have apart := other d has
    rw [objectRemoved apart] at has ⊢
    have found := slots.found d (aliveRemoved here) has
    unfold RemoveClient
    dsimp only
    split
    · rename_i below
      have different : (s.objects d).m_slotId.toNat ≠ (s.objects c).m_slotId.toNat := by
        intro same
        have equal := BitVec.eq_of_toNat_eq same
        have hasToo : (s.objects c).HasSlotId := by
          unfold Client.HasSlotId at has ⊢
          rwa [← equal]
        have second := slots.found c alive hasToo
        rw [← equal,found] at second
        exact apart (Option.some.inj second)
      rwa [Function.update_of_ne different]
    · exact found

theorem NetIdsFound.removed (ids : NetIdsFound s) (apart : Apart s (.removeClient c)) :
    NetIdsFound (s.RemoveClient c) := by
  refine ⟨fun d here has => ?_,ids.next⟩
  obtain ⟨other,registered⟩ := registeredRemoved here
  rw [objectRemoved other] at has ⊢
  obtain ⟨found,valid⟩ := ids.found d registered has
  obtain ⟨id,previous⟩ := apart d registered other has
  refine ⟨?_,valid⟩
  unfold RemoveClient
  dsimp only
  split
  · rename_i has
    rw [Function.update_of_ne (previous has),Function.update_of_ne id]
    exact found
  · rw [Function.update_of_ne id]
    exact found

end Removing

section Assigning

theorem lockAlive (alive : s.Alive c) : s.lock (some c) = some c := by
  unfold lock
  rw [Option.filter_some,if_pos (decide_eq_true alive)]

theorem findSlotFree {n slot : Nat} (found : s.findSlot n = some slot) :
    slot < n ∧ slot ≠ 31 ∧ s.lock (s.m_clientsBySlotId slot) = none := by
  induction n with
  | zero => cases found
  | succ n ih =>
    unfold findSlot at found
    split at found
    · rename_i free
      cases found
      exact ⟨Nat.lt_succ_self _,free⟩
    · obtain ⟨below,free⟩ := ih found
      exact ⟨Nat.lt_succ_of_lt below,free⟩

theorem slotsSmall : s.slots ≤ 2049 := by
  unfold slots
  split
  · exact Nat.le_refl _
  · decide

theorem slotFrame {slot : Nat} : Frame s (s.SetSlotId c slot) :=
  ⟨fun _ => modifyField (Client.SetSlotId · _) Client.m_guid (fun _ => rfl),rfl,rfl⟩

theorem peerFrame {peer : Int} : Frame s (s.assignPeer c peer) :=
  ⟨fun _ => modifyField (Client.SetPeer · peer) Client.m_guid (fun _ => rfl),rfl,rfl⟩

theorem assignCases (s : ClientRegistry) (c : Handle) :
    s.assignSlot c = s ∨ ∃ slot, s.findSlot s.slots = some slot ∧ s.assignSlot c = s.SetSlotId c slot := by
  unfold assignSlot
  split
  · exact .inl rfl
  · rename_i slot found
    exact .inr ⟨slot,found,rfl⟩

theorem peerCases (s : ClientRegistry) (c : Handle) (peer : Int) : s.SetPeer c peer = s.assignPeer c peer ∨
    s.SetPeer c peer = (s.assignPeer c peer).assignSlot c := by
  unfold SetPeer
  dsimp only
  split
  · exact .inl rfl
  · split
    · exact .inl rfl
    · exact .inr rfl

theorem assignKeeps {P : ClientRegistry → Prop} (kept : P s) (slotted : ∀ slot, P (s.SetSlotId c slot)) :
    P (s.assignSlot c) := by
  rcases assignCases s c with same | ⟨slot,_,same⟩
  · rwa [same]
  · rw [same]
    exact slotted slot

theorem peerKeeps {P : ClientRegistry → Prop} {peer : Int} (assigned : P (s.assignPeer c peer))
    (slotted : ∀ s slot, P s → P (s.SetSlotId c slot)) : P (s.SetPeer c peer) := by
  rcases peerCases s c peer with same | same
  · rwa [same]
  · rw [same]
    exact assignKeeps assigned (fun slot => slotted _ slot assigned)

theorem SlotsFound.assigned (slots : SlotsFound s) : SlotsFound (s.assignSlot c) := by
  rcases assignCases s c with same | ⟨slot,found,same⟩
  · rwa [same]
  · rw [same]
    obtain ⟨below,special,free⟩ := findSlotFree found
    have small : slot < 2 ^ 32 := by
      have bound := @slotsSmall s
      omega
    have value : (BitVec.ofNat 32 slot).toNat = slot := Nat.mod_eq_of_lt small
    have self : ((s.SetSlotId c slot).objects c).m_slotId = BitVec.ofNat 32 slot := 
      congrArg Client.m_slotId (@modifySelf s c (Client.SetSlotId · (BitVec.ofNat 32 slot)))
    refine ⟨fun d here has => ?_,fun d here has => ?_⟩
    · by_cases same : d = c
      · rw [same,self]
        refine ⟨value.symm ▸ below,fun wrong => special ?_⟩
        rw [← value,wrong]
        rfl
      · have object : (s.SetSlotId c slot).objects d = s.objects d := Function.update_of_ne same _ _
        rw [object] at has ⊢
        exact slots.inside d (slotFrame.alive.mp here) has
    · by_cases same : d = c
      · rw [same,self,value]
        exact Function.update_self _ _ _
      · have object : (s.SetSlotId c slot).objects d = s.objects d := Function.update_of_ne same _ _
        rw [object] at has ⊢
        have held := slots.found d (slotFrame.alive.mp here) has
        have other : (s.objects d).m_slotId.toNat ≠ slot := by
          intro taken
          rw [taken] at held
          rw [held,lockAlive (slotFrame.alive.mp here)] at free
          cases free
        exact (Function.update_of_ne other _ _).trans held

theorem SlotsFound.peer (slots : SlotsFound s) (peer : Int) : SlotsFound (s.SetPeer c peer) := by
  have first : SlotsFound (s.assignPeer c peer) :=
    peerFrame.slots slots (fun _ => modifyField (Client.SetPeer · peer) Client.m_slotId (fun _ => rfl)) rfl rfl
  rcases peerCases s c peer with same | same
  · rwa [same]
  · rw [same]
    exact first.assigned

theorem NetIdsFound.peer (ids : NetIdsFound s) (peer : Int) : NetIdsFound (s.SetPeer c peer) := by
  have first : NetIdsFound (s.assignPeer c peer) :=
    peerFrame.netIds ids (fun _ => modifyField (Client.SetPeer · peer) Client.m_netId (fun _ => rfl)) rfl rfl
  exact peerKeeps first (fun s slot ids =>
    slotFrame.netIds ids (fun _ => modifyField (Client.SetSlotId · _) Client.m_netId (fun _ => rfl)) rfl rfl)

variable {netId : BitVec 32}

theorem netIdFrame : Frame s (s.SetNetId c netId) :=
  ⟨fun _ => modifyField (Client.SetNetId · netId) Client.m_guid (fun _ => rfl),rfl,rfl⟩

theorem netIdObject : (s.SetNetId c netId).objects c = (s.objects c).SetNetId netId :=
  Function.update_self _ _ _

theorem netIdOther (other : d ≠ c) : (s.SetNetId c netId).objects d = s.objects d :=
  Function.update_of_ne other _ _

theorem TempId.invalid (netId : TempId) : ¬netId.value < 0xFFFF := by
  have above := netId.above
  bv_omega

theorem NetIdsFound.temporary (ids : NetIdsFound s) {netId : BitVec 32} (invalid : ¬netId < 0xFFFF) :
    NetIdsFound (s.SetNetId c netId) := by
  refine ids.frame (fun d here has => ?_) (fun n below => ?_) rfl
  · have other : d ≠ c := by
      rintro rfl
      rw [netIdObject] at has
      exact invalid has
    exact ⟨netIdFrame.registered.mp here,congrArg Client.m_netId (netIdOther other)⟩
  · exact Function.update_of_ne (fun same => invalid (by rwa [← same])) _ _

theorem incrementValid {n : BitVec 16} : incrementId n ≠ 0 ∧ incrementId n ≠ 0xFFFF ∨ n = 0xFFFF := by
  unfold incrementId
  split
  · exact .inl (by decide)
  · rename_i other
    by_cases last : n = 0xFFFF
    · exact .inr last
    · refine .inl ⟨fun zero => last ?_,other⟩
      bv_omega

theorem findNetIdFree {steps : Nat} {start netId : BitVec 16} (valid : start ≠ 0 ∧ start ≠ 0xFFFF)
    (found : s.findNetId steps start = some netId) :
    (netId ≠ 0 ∧ netId ≠ 0xFFFF) ∧ s.lock (s.m_clientsByNetId (netId.setWidth 32)) = none := by
  induction steps generalizing start with
  | zero => cases found
  | succ steps ih =>
    unfold findNetId at found
    split at found
    · rename_i free
      cases found
      exact ⟨valid,free⟩
    · exact ih (incrementValid.resolve_right valid.2) found

theorem NetIdsFound.connecting (ids : NetIdsFound s) {s' : ClientRegistry}
    (connected : s.HandleConnectingClient c = some s') : NetIdsFound s' := by
  obtain ⟨netId,found,rfl⟩ := Option.map_eq_some_iff.mp connected
  obtain ⟨valid,free⟩ := findNetIdFree ids.next found
  refine ⟨fun d here has => ?_,incrementValid.resolve_right valid.2⟩
  have registered : s.Registered d := netIdFrame.registered.mp here
  by_cases same : d = c
  · rw [same,netIdObject]
    refine ⟨Function.update_self _ _ _,fun zero => valid.1 ?_⟩
    unfold Client.SetNetId at zero
    bv_omega
  · rw [netIdOther same] at has ⊢
    obtain ⟨held,apart⟩ := ids.found d registered has
    have other : (s.objects d).m_netId ≠ netId.setWidth 32 := by
      intro taken
      rw [taken] at held
      rw [held,lockAlive (.inr registered)] at free
      cases free
    exact ⟨(Function.update_of_ne other _ _).trans held,apart⟩

theorem SlotsFound.connecting (slots : SlotsFound s) {s' : ClientRegistry}
    (connected : s.HandleConnectingClient c = some s') : SlotsFound s' := by
  obtain ⟨netId,_,rfl⟩ := Option.map_eq_some_iff.mp connected
  have frame : Frame s (s.SetNetId c (netId.setWidth 32)) := netIdFrame
  exact Frame.slots ⟨frame.guid,rfl,rfl⟩ slots
    (fun _ => modifyField (Client.SetNetId · _) Client.m_slotId (fun _ => rfl)) rfl rfl

theorem tokenFrame {value : Text} : Frame s (s.SetConnectionToken c value) :=
  ⟨fun _ => modifyField (Client.SetConnectionToken · value) Client.m_guid (fun _ => rfl),rfl,rfl⟩

theorem endPointFrame {value : Text} : Frame s (s.SetTcpEndPoint c value) :=
  ⟨fun _ => modifyField (Client.SetTcpEndPoint · value) Client.m_guid (fun _ => rfl),rfl,rfl⟩

end Assigning

theorem aliveReleased (alive : (s.release c).Alive d) : s.Alive d :=
  alive.imp Finset.mem_of_mem_erase id

theorem whenAlive {P : ClientRegistry → Prop} {s' : ClientRegistry} (kept : P s) (next : s.Alive c → P s') :
    P (if s.Alive c then s' else s) := by
  split
  · rename_i alive
    exact next alive
  · exact kept

theorem connectingKeeps {P : ClientRegistry → Prop} (kept : P s)
    (next : ∀ s', s.HandleConnectingClient c = some s' → P s') : P ((s.HandleConnectingClient c).getD s) := by
  cases connected : s.HandleConnectingClient c with
  | none => exact kept
  | some s' => exact next s' connected

theorem SlotsFound.kept (slots : SlotsFound s) (operation : Operation) : SlotsFound (s.step operation) := by
  cases operation with
  | makeClient guid => exact slots.made guid
  | setConnectionToken c value =>
    exact whenAlive slots (fun _ => tokenFrame.slots slots
      (fun _ => modifyField (Client.SetConnectionToken · value) Client.m_slotId (fun _ => rfl)) rfl rfl)
  | setTcpEndPoint c value =>
    exact whenAlive slots (fun _ => endPointFrame.slots slots
      (fun _ => modifyField (Client.SetTcpEndPoint · value) Client.m_slotId (fun _ => rfl)) rfl rfl)
  | setTempId c netId =>
    exact whenAlive slots (fun _ => netIdFrame.slots slots
      (fun _ => modifyField (Client.SetNetId · _) Client.m_slotId (fun _ => rfl)) rfl rfl)
  | setPeer c peer => exact whenAlive slots (fun _ => slots.peer peer)
  | handleConnectingClient c =>
    exact whenAlive slots (fun _ => connectingKeeps slots (fun _ connected => slots.connecting connected))
  | handleConnectedClient c => exact slots
  | removeClient c => exact whenAlive slots (fun alive => slots.removed alive)
  | release c => exact slots.frame (fun d here _ => ⟨aliveReleased here,rfl⟩) rfl rfl

theorem NetIdsFound.kept (ids : NetIdsFound s) (operation : Operation) (apart : Apart s operation) :
    NetIdsFound (s.step operation) := by
  cases operation with
  | makeClient guid => exact ids.made guid
  | setConnectionToken c value =>
    exact whenAlive ids (fun _ => tokenFrame.netIds ids
      (fun _ => modifyField (Client.SetConnectionToken · value) Client.m_netId (fun _ => rfl)) rfl rfl)
  | setTcpEndPoint c value =>
    exact whenAlive ids (fun _ => endPointFrame.netIds ids
      (fun _ => modifyField (Client.SetTcpEndPoint · value) Client.m_netId (fun _ => rfl)) rfl rfl)
  | setTempId c netId => exact whenAlive ids (fun _ => ids.temporary netId.invalid)
  | setPeer c peer => exact whenAlive ids (fun _ => ids.peer peer)
  | handleConnectingClient c =>
    exact whenAlive ids (fun _ => connectingKeeps ids (fun _ connected => ids.connecting connected))
  | handleConnectedClient c => exact ids
  | removeClient c => exact whenAlive ids (fun _ => ids.removed apart)
  | release c => exact ids.frame (fun d here _ => ⟨here,rfl⟩) (fun _ _ => rfl) rfl

theorem slotsConstructed {bigMode oneSync : Bool} : SlotsFound (construct bigMode oneSync) :=
  ⟨fun _ _ has => absurd rfl has,fun _ _ has => absurd rfl has⟩

theorem netIdsConstructed {bigMode oneSync : Bool} : NetIdsFound (construct bigMode oneSync) := by
  have first : (1#16 ≠ 0) ∧ 1#16 ≠ 0xFFFF := by decide
  refine ⟨fun c registered _ => ?_,first⟩
  unfold Registered construct at registered
  cases registered

theorem identifiersApart (bigMode oneSync : Bool) (operations : List Operation) :
    Throughout step SlotsApart (construct bigMode oneSync) operations ∧
      (Along step Apart (construct bigMode oneSync) operations →
        Throughout step NetIdsApart (construct bigMode oneSync) operations) := by
  constructor
  · have anyStep : Along step (fun _ _ => True) (construct bigMode oneSync) operations :=
      alongAlways
    have all := throughoutOfKept SlotsFound (fun s e slots _ => slots.kept e) slotsConstructed anyStep
    exact throughoutMono (fun _ slots => slots.apart) all
  · intro apart
    have all := throughoutOfKept NetIdsFound (fun s e ids ok => ids.kept e ok) netIdsConstructed apart
    exact throughoutMono (fun _ ids => ids.apart) all

end Citizen.Registry.ClientRegistry
