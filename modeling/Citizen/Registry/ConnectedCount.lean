import Citizen.Registry.GameServer
import Citizen.Registry.Identifiers

/-! That the registry counts its connected clients. -/
namespace Citizen.Registry
open ClientRegistry

namespace ClientRegistry

def one (s : ClientRegistry) (c : Handle) : Nat := if (s.objects c).HasConnected then 1 else 0

def connected (s : ClientRegistry) : Nat := s.m_clients.total s.one

variable {s s' : ClientRegistry} {c d : Handle} {removed : Finset Handle}

theorem oneConnected (has : (s.objects c).HasConnected) : s.one c = 1 := if_pos has

theorem oneUnconnected (has : ¬(s.objects c).HasConnected) : s.one c = 0 := if_neg has

theorem connectedSame {x y : Client} (same : x.m_netId = y.m_netId) : x.HasConnected ↔ y.HasConnected := by
  unfold Client.HasConnected
  rw [same]

theorem oneSame (same : (s'.objects c).m_netId = (s.objects c).m_netId) : s'.one c = s.one c :=
  if_congr (connectedSame same) rfl rfl

theorem oneCases (s : ClientRegistry) (c : Handle) :
    (s.objects c).HasConnected ∧ s.one c = 1 ∨ ¬(s.objects c).HasConnected ∧ s.one c = 0 := by
  by_cases has : (s.objects c).HasConnected
  · exact .inl ⟨has,oneConnected has⟩
  · exact .inr ⟨has,oneUnconnected has⟩

structure Sound (removed : Finset Handle) (s : ClientRegistry) : Prop where
  keyed : ∀ g c, s.m_clients.lookup g = some c → (s.objects c).m_guid = g
  fresh : ∀ c, s.Alive c ∨ c ∈ removed → c < s.constructed
  gone : ∀ c ∈ removed, ¬s.Registered c ∧ (s.objects c).m_slotId = -1
  joined : ∀ c, (s.objects c).HasConnected → c ∉ removed → s.Registered c
  ids : NetIdsFound s
  previous : ∀ c, ¬(s.objects c).m_previousNetId < 0xFFFF
  counted : s.m_amountConnectedClients.toNat = s.connected

theorem Sound.registered (sound : Sound removed s) {g : Text} (found : s.m_clients.lookup g = some c) :
    s.Registered c := by
  unfold Registered
  rw [sound.keyed g c found]
  exact found

theorem connectedBound (keyed : ∀ g c, s.m_clients.lookup g = some c → (s.objects c).m_guid = g)
    (ids : NetIdsFound s) : s.connected ≤ 65535 := by
  have registered {g : Text} {c : Handle} (found : s.m_clients.lookup g = some c) : s.Registered c := by
    unfold Registered
    rwa [keyed g c found]
  have has {c : Handle} (counts : s.one c ≠ 0) : (s.objects c).HasConnected :=
    Decidable.by_contra (fun without => counts (oneUnconnected without))
  refine @Table.totalBound Text Handle _ s.one (fun c => (s.objects c).m_netId.toNat) _ _ (fun c => ?_)
    (fun g c found counts => ?_) (fun g c g' d found found' counts counts' same => ?_)
  · rcases oneCases s c with ⟨_,one⟩ | ⟨_,none⟩
    · omega
    · omega
  · have below := has counts
    unfold Client.HasConnected at below
    bv_omega
  · have equal := ids.apart.distinct c d (registered found) (registered found') (has counts) (BitVec.eq_of_toNat_eq same)
    rw [← keyed g c found,← keyed g' d found',equal]

structure Still (s s' : ClientRegistry) : Prop where
  guid : ∀ c, (s'.objects c).m_guid = (s.objects c).m_guid
  netId : ∀ c, (s'.objects c).m_netId = (s.objects c).m_netId
  previous : ∀ c, (s'.objects c).m_previousNetId = (s.objects c).m_previousNetId
  clients : s'.m_clients = s.m_clients
  constructed : s'.constructed = s.constructed
  table : s'.m_clientsByNetId = s.m_clientsByNetId
  next : s'.m_curNetId = s.m_curNetId
  amount : s'.m_amountConnectedClients = s.m_amountConnectedClients

theorem Still.registered (still : Still s s') : s'.Registered c ↔ s.Registered c := by
  unfold Registered
  rw [still.guid,still.clients]

section
variable (sound : Sound removed s)
include sound

theorem Sound.still (still : Still s s') (alive : ∀ c, s'.Alive c → c < s.constructed)
    (slots : ∀ c ∈ removed, (s'.objects c).m_slotId = -1) : Sound removed s' where
  keyed g c found := by
    rw [still.guid]
    rw [still.clients] at found
    exact sound.keyed g c found
  fresh c either := by
    rw [still.constructed]
    exact either.elim (alive c) (fun gone => sound.fresh c (.inr gone))
  gone c gone := ⟨fun registered => (sound.gone c gone).1 (still.registered.mp registered),slots c gone⟩
  joined c has present := still.registered.mpr (sound.joined c ((connectedSame (still.netId c)).mp has) present)
  ids := sound.ids.frame (fun c registered _ => ⟨still.registered.mp registered,still.netId c⟩)
    (fun n _ => congrFun still.table n) still.next
  previous c := by
    rw [still.previous]
    exact sound.previous c
  counted := by
    have count : s'.connected = s.connected := by
      unfold connected
      rw [still.clients]
      exact Table.totalCongr (fun _ c _ => oneSame (still.netId c))
    rw [still.amount,count]
    exact sound.counted

theorem Sound.modified (f : Client → Client) (guid : ∀ x, (f x).m_guid = x.m_guid)
    (netId : ∀ x, (f x).m_netId = x.m_netId) (previous : ∀ x, (f x).m_previousNetId = x.m_previousNetId)
    (slot : ∀ x, (f x).m_slotId = x.m_slotId) (objects : s'.objects = (s.modify c f).objects)
    (rest : s' = { s with
      objects := s'.objects
      m_clientsByTcpEndPoint := s'.m_clientsByTcpEndPoint
      m_clientsByConnectionToken := s'.m_clientsByConnectionToken
      m_clientsByConnectionTokenHash := s'.m_clientsByConnectionTokenHash
      m_clientsByPeer := s'.m_clientsByPeer }) : Sound removed s' := by
  have field {α : Type} (field : Client → α) (same : ∀ x, field (f x) = field x) (d : Handle) :
      field (s'.objects d) = field (s.objects d) := by
    rw [objects]
    exact modifyField f field same
  have frame : Frame s s' := ⟨field _ guid,by rw [rest],by rw [rest]⟩
  refine sound.still ⟨field _ guid,field _ netId,field _ previous,frame.clients,?_,?_,?_,?_⟩
    (fun d alive => sound.fresh d (.inl (frame.alive.mp alive))) (fun d gone => ?_)
  · rw [rest]
  · rw [rest]
  · rw [rest]
  · rw [rest]
  · rw [field _ slot]
    exact (sound.gone d gone).2

theorem Sound.token (value : Text) : Sound removed (s.SetConnectionToken c value) :=
  sound.modified (Client.SetConnectionToken · value) (fun _ => rfl) (fun _ => rfl) (fun _ => rfl) (fun _ => rfl) rfl rfl

theorem Sound.endPoint (value : Text) : Sound removed (s.SetTcpEndPoint c value) :=
  sound.modified (Client.SetTcpEndPoint · value) (fun _ => rfl) (fun _ => rfl) (fun _ => rfl) (fun _ => rfl) rfl rfl

theorem Sound.dropping : Sound removed (s.modify c Client.SetDropping) :=
  sound.modified Client.SetDropping (fun _ => rfl) (fun _ => rfl) (fun _ => rfl) (fun _ => rfl) rfl rfl

theorem Sound.validated : Sound removed (s.modify c Client.SetPassedValidation) :=
  sound.modified Client.SetPassedValidation (fun _ => rfl) (fun _ => rfl) (fun _ => rfl) (fun _ => rfl) rfl rfl

theorem Sound.slotted (present : c ∉ removed) (slot : Nat) : Sound removed (s.SetSlotId c slot) := by
  have field {α : Type} (field : Client → α) (kept : ∀ x, field (x.SetSlotId (BitVec.ofNat 32 slot)) = field x)
      (d : Handle) : field ((s.SetSlotId c slot).objects d) = field (s.objects d) :=
    modifyField (Client.SetSlotId · _) field kept
  refine sound.still ⟨field _ (fun _ => rfl),field _ (fun _ => rfl),field _ (fun _ => rfl),rfl,rfl,rfl,rfl,rfl⟩
    (fun d alive => sound.fresh d (.inl (slotFrame.alive.mp alive))) (fun d gone => ?_)
  have other : d ≠ c := fun same => present (same ▸ gone)
  have object : (s.SetSlotId c slot).objects d = s.objects d := Function.update_of_ne other _ _
  rw [object]
  exact (sound.gone d gone).2

theorem Sound.peer (present : c ∉ removed) (peer : Int) : Sound removed (s.SetPeer c peer) := by
  have first : Sound removed (s.assignPeer c peer) :=
    sound.modified (Client.SetPeer · peer) (fun _ => rfl) (fun _ => rfl) (fun _ => rfl) (fun _ => rfl) rfl rfl
  exact peerKeeps first (fun _ slot sound => sound.slotted present slot)

end

theorem setPeerFrame {peer : Int} : Frame s (s.SetPeer c peer) :=
  @peerKeeps s c (Frame s) peer peerFrame (fun _ _ frame => frame.trans slotFrame)

theorem setPeerConstructed {peer : Int} : (s.SetPeer c peer).constructed = s.constructed :=
  @peerKeeps s c (fun s' => s'.constructed = s.constructed) peer rfl (fun _ _ same => same)

theorem Sound.references (sound : Sound removed s) {held : Finset Handle}
    (made : ∀ c ∈ held, c < s.constructed) : Sound removed { s with held := held } :=
  sound.still ⟨fun _ => rfl,fun _ => rfl,fun _ => rfl,rfl,rfl,rfl,rfl,rfl⟩
    (fun c alive => alive.elim (made c) (fun registered => sound.fresh c (.inl (.inr registered))))
    (fun c gone => (sound.gone c gone).2)

theorem Sound.made (sound : Sound removed s) (guid : Text) : Sound removed (s.MakeClient guid) := by
  have entries {g : Text} {d : Handle} (found : (s.MakeClient guid).m_clients.lookup g = some d) :
      d = s.constructed ∧ g = guid ∨ s.m_clients.lookup g = some d := by
    unfold MakeClient at found
    dsimp only at found
    split at found
    · by_cases same : g = guid
      · rw [same,AList.lookup_insert] at found
        exact .inl ⟨(Option.some.inj found).symm,same⟩
      · rw [AList.lookup_insert_ne same] at found
        exact .inr found
    · exact .inr found
  have before {d : Handle} (registered : s.Registered d) : d ≠ s.constructed :=
    Nat.ne_of_lt (sound.fresh d (.inl (.inr registered)))
  have still {d : Handle} (registered : s.Registered d) : (s.MakeClient guid).Registered d := by
    unfold Registered
    rw [objectBefore (before registered)]
    unfold MakeClient
    dsimp only
    split
    · rename_i absent
      have other : (s.objects d).m_guid ≠ guid := by
        intro same
        unfold Registered at registered
        rw [same,absent] at registered
        cases registered
      rwa [AList.lookup_insert_ne other]
    · exact registered
  have unconnected : ¬((s.MakeClient guid).objects s.constructed).HasConnected := by
    rw [objectMade]
    exact unassigned
  refine ⟨fun g d found => ?_,fun d either => ?_,fun d gone => ?_,fun d has present => ?_,sound.ids.made guid,
    fun d => ?_,?_⟩
  · rcases entries found with ⟨new,same⟩ | old
    · rw [new,objectMade,same]
      rfl
    · rw [objectBefore (before (sound.registered old))]
      exact sound.keyed g d old
  · by_cases new : d = s.constructed
    · rw [new]
      exact Nat.lt_succ_self _
    · exact Nat.lt_succ_of_lt (sound.fresh d (either.imp (fun alive => aliveMade alive new) id))
  · have other : d ≠ s.constructed := Nat.ne_of_lt (sound.fresh d (.inr gone))
    rw [objectBefore other]
    exact ⟨fun registered => (sound.gone d gone).1 (registeredMade registered other),(sound.gone d gone).2⟩
  · have other : d ≠ s.constructed := by
      rintro rfl
      exact unconnected has
    rw [objectBefore other] at has
    exact still (sound.joined d has present)
  · by_cases new : d = s.constructed
    · rw [new,objectMade]
      exact unassigned
    · rw [objectBefore new]
      exact sound.previous d
  · have old : s.m_clients.total (s.MakeClient guid).one = s.connected :=
      Table.totalCongr (fun g d found => oneSame (by rw [objectBefore (before (sound.registered found))]))
    have count : (s.MakeClient guid).connected = s.connected := by
      have clients : (s.MakeClient guid).m_clients =
          if s.m_clients.lookup guid = none then s.m_clients.insert guid s.constructed else s.m_clients := rfl
      unfold connected at old ⊢
      rw [clients]
      split
      · rename_i absent
        rw [Table.totalInsertNew _ _ absent,oneUnconnected unconnected,Nat.zero_add]
        exact old
      · exact old
    rw [count]
    exact sound.counted

theorem previousAssigned {netId : BitVec 32} (sound : Sound removed s) (without : ¬(s.objects c).HasConnected)
    (d : Handle) : ¬((s.SetNetId c netId).objects d).m_previousNetId < 0xFFFF := by
  by_cases same : d = c
  · rw [same,netIdObject]
    exact without
  · rw [netIdOther same]
    exact sound.previous d

theorem Sound.temporary (sound : Sound removed s) {netId : BitVec 32} (without : ¬(s.objects c).HasConnected)
    (invalid : ¬netId < 0xFFFF) : Sound removed (s.SetNetId c netId) := by
  have frame : Frame s (s.SetNetId c netId) := netIdFrame
  have connects (d : Handle) : ((s.SetNetId c netId).objects d).HasConnected ↔ (s.objects d).HasConnected := by
    by_cases same : d = c
    · rw [same,netIdObject]
      exact iff_of_false invalid without
    · rw [netIdOther same]
  have slot (d : Handle) : ((s.SetNetId c netId).objects d).m_slotId = (s.objects d).m_slotId :=
    modifyField (Client.SetNetId · netId) Client.m_slotId (fun _ => rfl)
  refine ⟨fun g d found => ?_,fun d either => ?_,fun d gone => ?_,fun d has present => ?_,
    sound.ids.temporary invalid,previousAssigned sound without,?_⟩
  · rw [frame.guid]
    exact sound.keyed g d found
  · exact sound.fresh d (either.imp frame.alive.mp id)
  · rw [frame.registered,slot]
    exact sound.gone d gone
  · exact frame.registered.mpr (sound.joined d ((connects d).mp has) present)
  · have count : (s.SetNetId c netId).connected = s.connected :=
      Table.totalCongr (fun _ d _ => if_congr (connects d) rfl rfl)
    rw [count]
    exact sound.counted

theorem Sound.connecting (sound : Sound removed s) (registered : s.Registered c)
    (without : ¬(s.objects c).HasConnected) (handled : s.HandleConnectingClient c = some s') : Sound removed s' := by
  have ids := sound.ids.connecting handled
  obtain ⟨netId,found,rfl⟩ := Option.map_eq_some_iff.mp handled
  have valid := (findNetIdFree sound.ids.next found).1
  let after := s.SetNetId c (netId.setWidth 32)
  have frame : Frame s after := netIdFrame
  have connects : (after.objects c).HasConnected := by
    have object : after.objects c = (s.objects c).SetNetId (netId.setWidth 32) := netIdObject
    rw [object]
    unfold Client.HasConnected Client.SetNetId
    bv_omega
  have slot (d : Handle) : (after.objects d).m_slotId = (s.objects d).m_slotId :=
    modifyField (Client.SetNetId · _) Client.m_slotId (fun _ => rfl)
  have keyed (g : Text) (d : Handle) (found : s.m_clients.lookup g = some d) : (after.objects d).m_guid = g := by
    rw [frame.guid]
    exact sound.keyed g d found
  have present : c ∉ removed := fun gone => (sound.gone c gone).1 registered
  refine ⟨keyed,fun d either => ?_,fun d gone => ?_,fun d has apart => ?_,ids,previousAssigned sound without,?_⟩
  · exact sound.fresh d (either.imp frame.alive.mp id)
  · exact ⟨fun still => (sound.gone d gone).1 (frame.registered.mp still),(slot d).trans (sound.gone d gone).2⟩
  · by_cases same : d = c
    · rw [same]
      exact frame.registered.mpr registered
    · have object : after.objects d = s.objects d := netIdOther same
      have before : (s.objects d).HasConnected := object ▸ has
      exact frame.registered.mpr (sound.joined d before apart)
  · have count : after.connected = s.connected + 1 := by
      unfold connected
      have clients : after.m_clients = s.m_clients := rfl
      have lookup : s.m_clients.lookup (s.objects c).m_guid = some c := registered
      have rest : Table.total after.one (s.m_clients.erase (s.objects c).m_guid) =
          Table.total s.one (s.m_clients.erase (s.objects c).m_guid) := by
        refine Table.totalCongr (fun g d found => oneSame ?_)
        have other : d ≠ c := by
          rintro rfl
          obtain ⟨apart,here⟩ := Table.lookupErased found
          exact apart (sound.keyed g d here).symm
        exact congrArg Client.m_netId (netIdOther other)
      rw [clients,Table.totalErase _ lookup,Table.totalErase s.one lookup,rest]
      rw [oneConnected connects,oneUnconnected without]
      omega
    have bound : after.connected ≤ 65535 := by
      have all := connectedBound (by exact keyed) ids
      exact all
    have counted := sound.counted
    have total : (s.m_amountConnectedClients + 1).toNat = after.connected := by
      rw [count] at bound ⊢
      bv_omega
    exact total

theorem clientsRemoved : (s.RemoveClient c).m_clients = s.m_clients.erase (s.objects c).m_guid := rfl

theorem keyedRemoved (keyed : ∀ g c, s.m_clients.lookup g = some c → (s.objects c).m_guid = g) (g : Text) (d : Handle)
    (found : (s.RemoveClient c).m_clients.lookup g = some d) : ((s.RemoveClient c).objects d).m_guid = g := by
  rw [guidRemoved]
  rw [clientsRemoved] at found
  exact keyed g d (Table.lookupErased found).2

theorem netIdRemoved : ((s.RemoveClient c).objects d).m_netId = (s.objects d).m_netId :=
  fieldRemoved Client.m_netId (fun _ => rfl)

theorem previousRemoved : ((s.RemoveClient c).objects d).m_previousNetId = (s.objects d).m_previousNetId :=
  fieldRemoved Client.m_previousNetId (fun _ => rfl)

theorem connectedRemoved : (s.RemoveClient c).connected +
    ((s.m_clients.lookup (s.objects c).m_guid).map s.one).getD 0 = s.connected := by
  have objects : Table.total (s.RemoveClient c).one (s.m_clients.erase (s.objects c).m_guid) =
      Table.total s.one (s.m_clients.erase (s.objects c).m_guid) :=
    Table.totalCongr (fun _ d _ => oneSame netIdRemoved)
  have clients : (s.RemoveClient c).connected =
      Table.total (s.RemoveClient c).one (s.m_clients.erase (s.objects c).m_guid) := rfl
  rw [clients,objects]
  unfold connected
  cases found : s.m_clients.lookup (s.objects c).m_guid with
  | none => exact Table.totalEraseNone _ found
  | some d =>
    rw [Table.totalErase s.one found]
    exact Nat.add_comm _ _

structure Vacant (s : ClientRegistry) (c : Handle) : Prop where
  guid : s.m_clients.lookup (s.objects c).m_guid = none
  netId : s.lock (s.m_clientsByNetId (s.objects c).m_netId) = none
  previous : (s.objects c).HasPreviousNetId → s.lock (s.m_clientsByNetId (s.objects c).m_previousNetId) = none
  token : s.lock (s.m_clientsByConnectionToken (s.objects c).m_connectionToken) = none
  hash : s.lock (s.m_clientsByConnectionTokenHash (HashString (cStr (s.objects c).m_connectionToken))) = none
  peer : s.lock (s.m_clientsByPeer (s.objects c).GetPeer) = none

def Removable (removed : Finset Handle) (s : ClientRegistry) (c : Handle) : Prop :=
  if c ∈ removed then ¬(s.objects c).HasConnected ∧ Vacant s c
  else ∀ d, s.Registered d → (s.objects d).m_guid = (s.objects c).m_guid → d ≠ c → ¬(s.objects d).HasConnected

theorem Sound.removable (sound : Sound removed s) (registered : s.Registered c) : Removable removed s c := by
  unfold Removable
  rw [if_neg (fun gone => (sound.gone c gone).1 registered)]
  intro d other same apart
  unfold Registered at registered other
  rw [same,registered] at other
  exact absurd (Option.some.inj other).symm apart

theorem Sound.onlySelf (sound : Sound removed s) (removable : Removable removed s c)
    (found : s.m_clients.lookup (s.objects c).m_guid = some d) (has : (s.objects d).HasConnected) :
    d = c ∧ c ∉ removed := by
  unfold Removable at removable
  split at removable
  · rw [removable.2.guid] at found
    cases found
  · rename_i present
    refine ⟨Decidable.by_contra (fun other => ?_),present⟩
    exact removable d (sound.registered found) (sound.keyed _ d found) other has

theorem Sound.counts (sound : Sound removed s) (removable : Removable removed s c) :
    ((s.m_clients.lookup (s.objects c).m_guid).map s.one).getD 0 = s.one c := by
  by_cases has : (s.objects c).HasConnected
  · have present : c ∉ removed := by
      intro gone
      unfold Removable at removable
      rw [if_pos gone] at removable
      exact removable.1 has
    have registered : s.m_clients.lookup (s.objects c).m_guid = some c := sound.joined c has present
    rw [registered]
    rfl
  · rw [oneUnconnected has]
    cases found : s.m_clients.lookup (s.objects c).m_guid with
    | none => rfl
    | some d =>
      refine oneUnconnected (fun other => has ?_)
      obtain ⟨rfl,_⟩ := sound.onlySelf removable found other
      exact other

theorem goneRemoved (gone : ∀ d ∈ removed, ¬s.Registered d ∧ (s.objects d).m_slotId = -1) :
    ∀ d ∈ insert c removed, ¬(s.RemoveClient c).Registered d ∧ ((s.RemoveClient c).objects d).m_slotId = -1 := by
  intro d either
  refine ⟨fun registered => ?_,?_⟩
  · obtain ⟨other,before⟩ := registeredRemoved registered
    exact (gone d ((Finset.mem_insert.mp either).resolve_left other)).1 before
  · by_cases same : d = c
    · rw [same,selfRemoved]
    · rw [objectRemoved same]
      exact (gone d ((Finset.mem_insert.mp either).resolve_left same)).2

theorem Sound.removing (sound : Sound removed s) (made : c < s.constructed) (removable : Removable removed s c) :
    Sound (insert c removed) (s.RemoveClient c) := by
  have apart : Apart s (.removeClient c) := by
    intro d registered other has
    refine ⟨fun same => other ?_,fun _ same => sound.previous c (by rwa [← same])⟩
    have connects := (connectedSame same).mp has
    have present : c ∉ removed := by
      intro gone
      unfold Removable at removable
      rw [if_pos gone] at removable
      exact removable.1 connects
    exact sound.ids.apart.distinct d c registered (sound.joined c connects present) has same
  refine ⟨keyedRemoved sound.keyed,fun d either => ?_,goneRemoved sound.gone,fun d has present => ?_,
    sound.ids.removed apart,fun d => ?_,?_⟩
  · rcases either with alive | gone
    · exact sound.fresh d (.inl (aliveRemoved alive))
    · rcases Finset.mem_insert.mp gone with rfl | earlier
      · exact made
      · exact sound.fresh d (.inr earlier)
  · have connects := (connectedSame netIdRemoved).mp has
    have registered := sound.joined d connects (fun gone => present (Finset.mem_insert_of_mem gone))
    have other : d ≠ c := fun same => present (same ▸ Finset.mem_insert_self _ _)
    unfold Registered
    rw [guidRemoved]
    have different : (s.objects d).m_guid ≠ (s.objects c).m_guid := by
      intro same
      have found : s.m_clients.lookup (s.objects c).m_guid = some d := by rwa [← same]
      exact other (sound.onlySelf removable found connects).1
    rw [clientsRemoved,AList.lookup_erase_ne different]
    exact registered
  · rw [previousRemoved]
    exact sound.previous d
  · have count := @connectedRemoved s c
    rw [sound.counts removable] at count
    have counted := sound.counted
    have amount : (s.RemoveClient c).m_amountConnectedClients =
        if (s.objects c).HasConnected then s.m_amountConnectedClients - 1 else s.m_amountConnectedClients := rfl
    rw [amount]
    split
    · rename_i has
      rw [oneConnected has] at count
      have bound : (s.m_amountConnectedClients - 1).toNat = s.m_amountConnectedClients.toNat - 1 := by
        bv_omega
      omega
    · rename_i has
      rw [oneUnconnected has] at count
      omega

theorem Sound.removedOnce (sound : Sound removed s) (present : c ∉ removed)
    (counted : (s.RemoveClient c).m_amountConnectedClients.toNat = (s.RemoveClient c).connected) :
    Removable removed s c := by
  unfold Removable
  rw [if_neg present]
  intro d registered same apart has
  have found : s.m_clients.lookup (s.objects c).m_guid = some d := by
    rw [← same]
    exact registered
  have without : ¬(s.objects c).HasConnected := by
    intro connects
    have self : s.m_clients.lookup (s.objects c).m_guid = some c := sound.joined c connects present
    rw [found] at self
    exact apart (Option.some.inj self)
  have amount : (s.RemoveClient c).m_amountConnectedClients = s.m_amountConnectedClients := if_neg without
  have count := @connectedRemoved s c
  have one : ((some d).map s.one).getD 0 = 1 := oneConnected has
  rw [found,one] at count
  have before := sound.counted
  rw [amount] at counted
  omega

structure Unchanged (s s' : ClientRegistry) : Prop where
  amount : s'.m_amountConnectedClients = s.m_amountConnectedClients
  guid : ∀ g, s'.m_clients.lookup g = s.m_clients.lookup g
  netId : ∀ n, s'.lock (s'.m_clientsByNetId n) = s.lock (s.m_clientsByNetId n)
  tcpEndPoint : ∀ e, s'.lock (s'.m_clientsByTcpEndPoint e) = s.lock (s.m_clientsByTcpEndPoint e)
  token : ∀ t, s'.lock (s'.m_clientsByConnectionToken t) = s.lock (s.m_clientsByConnectionToken t)
  hash : ∀ h, s'.lock (s'.m_clientsByConnectionTokenHash h) = s.lock (s.m_clientsByConnectionTokenHash h)
  peer : ∀ p, s'.lock (s'.m_clientsByPeer p) = s.lock (s.m_clientsByPeer p)
  slotId : ∀ slot, s'.lock (s'.m_clientsBySlotId slot) = s.lock (s.m_clientsBySlotId slot)

theorem lockSame (alive : ∀ d, s'.Alive d ↔ s.Alive d) (weak : Option Handle) : s'.lock weak = s.lock weak := by
  cases weak with
  | none => rfl
  | some d =>
    unfold lock
    rw [Option.filter_some,Option.filter_some]
    exact if_congr (by rw [decide_eq_true_iff,decide_eq_true_iff,alive]) rfl rfl

theorem lockReset {κ : Type} [DecidableEq κ] {table : κ → Option Handle} {key : κ} (vacant : s.lock (table key) = none)
    (other : κ) : s.lock (Function.update table key none other) = s.lock (table other) := by
  by_cases here : other = key
  · rw [here,Function.update_self,vacant]
    rfl
  · rw [Function.update_of_ne here]

theorem Sound.unchanged (sound : Sound removed s) (gone : c ∈ removed) (without : ¬(s.objects c).HasConnected)
    (vacant : Vacant s c) : Unchanged s (s.RemoveClient c) := by
  have guid (g : Text) : (s.RemoveClient c).m_clients.lookup g = s.m_clients.lookup g := by
    rw [clientsRemoved,Table.lookupErase]
    split
    · rename_i here
      rw [here,vacant.guid]
    · rfl
  have same := @lockSame s (s.RemoveClient c) (fun d => by
    unfold Alive Registered
    rw [guidRemoved,guid]
    exact Iff.rfl)
  refine ⟨if_neg without,guid,fun n => ?_,fun e => same _,fun t => ?_,fun h => ?_,fun p => ?_,fun slot => ?_⟩
  · rw [same]
    unfold RemoveClient
    dsimp only
    split
    · rename_i has
      have first (n : BitVec 32) := lockReset vacant.netId n
      rw [lockReset (by rw [first]; exact vacant.previous has),first]
    · exact lockReset vacant.netId n
  · rw [same]
    exact lockReset vacant.token t
  · rw [same]
    exact lockReset vacant.hash h
  · rw [same]
    exact lockReset vacant.peer p
  · rw [same]
    have outside : ¬(s.objects c).m_slotId.toNat < s.slots := by
      rw [(sound.gone c gone).2]
      have slots := @slotsSmall s
      have value : (-1 : BitVec 32).toNat = 4294967295 := by decide
      omega
    have table : (s.RemoveClient c).m_clientsBySlotId = s.m_clientsBySlotId := if_neg outside
    rw [table]

theorem netIdReset : (s.RemoveClient c).m_clientsByNetId (s.objects c).m_netId = none := by
  unfold RemoveClient
  dsimp only
  split
  · by_cases same : (s.objects c).m_netId = (s.objects c).m_previousNetId
    · rw [same,Function.update_self]
    · rw [Function.update_of_ne same,Function.update_self]
  · exact Function.update_self _ _ _

theorem previousReset (has : (s.objects c).HasPreviousNetId) :
    (s.RemoveClient c).m_clientsByNetId (s.objects c).m_previousNetId = none := by
  unfold RemoveClient
  dsimp only
  rw [if_pos has,Function.update_self]

theorem vacantOfUnchanged (same : Unchanged s (s.RemoveClient c)) : ¬(s.objects c).HasConnected ∧ Vacant s c := by
  have guid : (s.RemoveClient c).m_clients.lookup (s.objects c).m_guid = none := by
    rw [clientsRemoved,AList.lookup_erase]
  have token : (s.RemoveClient c).m_clientsByConnectionToken (s.objects c).m_connectionToken = none :=
    Function.update_self _ _ _
  have hash : (s.RemoveClient c).m_clientsByConnectionTokenHash
      (HashString (cStr (s.objects c).m_connectionToken)) = none := by
    unfold RemoveClient
    dsimp only
    rw [Function.update_self]
  have peer : (s.RemoveClient c).m_clientsByPeer (s.objects c).GetPeer = none := Function.update_self _ _ _
  refine ⟨fun has => ?_,⟨?_,?_,fun has => ?_,?_,?_,?_⟩⟩
  · have amount : (s.RemoveClient c).m_amountConnectedClients = s.m_amountConnectedClients - 1 := if_pos has
    have kept := same.amount
    rw [amount] at kept
    bv_omega
  · rw [← same.guid,guid]
  · rw [← same.netId,netIdReset]
    rfl
  · rw [← same.netId,previousReset has]
    rfl
  · rw [← same.token,token]
    rfl
  · rw [← same.hash,hash]
    rfl
  · rw [← same.peer,peer]
    rfl

theorem dropRemove (s : ClientRegistry) (c : Handle) :
    (s.modify c Client.SetDropping).RemoveClient c = (s.RemoveClient c).modify c Client.SetDropping := by
  have objects : ((s.modify c Client.SetDropping).RemoveClient c).objects =
      ((s.RemoveClient c).modify c Client.SetDropping).objects := by
    funext d
    by_cases same : d = c
    · rw [same,modifySelf,selfRemoved,selfRemoved,modifySelf]
      rfl
    · rw [modifyOther same,objectRemoved same,objectRemoved same,modifyOther same]
  have rest : (s.modify c Client.SetDropping).RemoveClient c =
      { s.RemoveClient c with objects := ((s.modify c Client.SetDropping).RemoveClient c).objects } := by
    have connects : ((s.objects c).SetDropping).HasConnected = (s.objects c).HasConnected := rfl
    have previous : ((s.objects c).SetDropping).HasPreviousNetId = (s.objects c).HasPreviousNetId := rfl
    have peer : ((s.objects c).SetDropping).GetPeer = (s.objects c).GetPeer := rfl
    unfold RemoveClient
    rw [modifySelf]
    simp only [connects,previous,peer]
    rfl
  rw [rest,objects]
  rfl

theorem dropFrame {s : ClientRegistry} : Frame s (s.modify c Client.SetDropping) :=
  ⟨fun _ => modifyField Client.SetDropping Client.m_guid (fun _ => rfl),rfl,rfl⟩

theorem unchangedDropping {s s' : ClientRegistry} : Unchanged s (s'.modify c Client.SetDropping) ↔ Unchanged s s' := by
  have same := @lockSame s' (s'.modify c Client.SetDropping) (fun d => dropFrame.alive)
  constructor
  · intro kept
    exact ⟨kept.amount,kept.guid,fun n => (same _).symm.trans (kept.netId n),
      fun e => (same _).symm.trans (kept.tcpEndPoint e),fun t => (same _).symm.trans (kept.token t),
      fun h => (same _).symm.trans (kept.hash h),fun p => (same _).symm.trans (kept.peer p),
      fun slot => (same _).symm.trans (kept.slotId slot)⟩
  · intro kept
    exact ⟨kept.amount,kept.guid,fun n => (same _).trans (kept.netId n),
      fun e => (same _).trans (kept.tcpEndPoint e),fun t => (same _).trans (kept.token t),
      fun h => (same _).trans (kept.hash h),fun p => (same _).trans (kept.peer p),
      fun slot => (same _).trans (kept.slotId slot)⟩

end ClientRegistry
end Citizen.Registry
