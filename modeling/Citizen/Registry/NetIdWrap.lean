import Citizen.Registry.Identifiers

/-! The net id counter going round, past clients that come and go. -/
namespace Citizen.Registry.ClientRegistry
variable {s : ClientRegistry} {c : Handle} {g : Text}

theorem incrementValue {n : BitVec 16} (valid : n ≠ 0 ∧ n ≠ 0xFFFF) :
    (incrementId n).toNat = n.toNat % 65534 + 1 := by
  unfold incrementId
  obtain ⟨nonzero,notLast⟩ := valid
  have below : n.toNat < 65535 := by bv_omega
  have above : 0 < n.toNat := by bv_omega
  split
  · rename_i last
    have value : n.toNat = 65534 := by bv_omega
    rw [value]
    rfl
  · rename_i other
    have value : n.toNat ≠ 65534 := by bv_omega
    have next : (n + 1).toNat = n.toNat + 1 := by bv_omega
    rw [next,Nat.mod_eq_of_lt (by omega)]

theorem iterateValue {n : BitVec 16} (valid : n ≠ 0 ∧ n ≠ 0xFFFF) (k : Nat) :
    (incrementId^[k] n).toNat = (n.toNat - 1 + k) % 65534 + 1 := by
  have inside : 0 < n.toNat ∧ n.toNat < 65535 := by
    obtain ⟨nonzero,notLast⟩ := valid
    constructor
    · bv_omega
    · bv_omega
  induction k with
  | zero =>
    rw [Function.iterate_zero_apply,Nat.add_zero,Nat.mod_eq_of_lt (by omega)]
    omega
  | succ k ih =>
    have bound := Nat.mod_lt (n.toNat - 1 + k) (by decide : 0 < 65534)
    have validNow : incrementId^[k] n ≠ 0 ∧ incrementId^[k] n ≠ 0xFFFF := by
      constructor
      · bv_omega
      · bv_omega
    rw [Function.iterate_succ_apply',incrementValue validNow,ih]
    omega

theorem findNetIdTried {steps : Nat} {start : BitVec 16} (none : s.findNetId steps start = none) :
    ∀ k < steps, s.lock (s.m_clientsByNetId ((incrementId^[k] start).setWidth 32)) ≠ .none := by
  induction steps generalizing start with
  | zero => exact fun k below => absurd below (Nat.not_lt_zero k)
  | succ steps ih =>
    unfold findNetId at none
    split at none
    · cases none
    · rename_i used
      intro k below
      cases k with
      | zero => exact used
      | succ k => exact ih none k (Nat.lt_of_succ_lt_succ below)

def NextValid (s : ClientRegistry) : Prop := s.m_curNetId ≠ 0 ∧ s.m_curNetId ≠ 0xFFFF

theorem allUsed (next : NextValid s) (forever : s.HandleConnectingClient c = none) (n : BitVec 16)
    (nonzero : n ≠ 0) (notLast : n ≠ 0xFFFF) : s.lock (s.m_clientsByNetId (n.setWidth 32)) ≠ none := by
  have tried := findNetIdTried (Option.map_eq_none_iff.mp forever)
  have inside : 0 < n.toNat ∧ n.toNat < 65535 := by
    constructor
    · bv_omega
    · bv_omega
  let k := (n.toNat - 1 + 65535 - s.m_curNetId.toNat) % 65534
  have reached : incrementId^[k] s.m_curNetId = n := by
    apply BitVec.eq_of_toNat_eq
    have ⟨first,last⟩ := next
    have current : 0 < s.m_curNetId.toNat ∧ s.m_curNetId.toNat < 65535 := by
      constructor
      · bv_omega
      · bv_omega
    rw [iterateValue next]
    omega
  have used := tried k (Nat.mod_lt _ (by decide))
  rwa [reached] at used

theorem NextValid.kept (next : NextValid s) (operation : Operation) : NextValid (s.step operation) := by
  cases operation with
  | makeClient | handleConnectedClient | release => exact next
  | setConnectionToken | setTcpEndPoint | setTempId | removeClient => exact whenAlive next (fun _ => next)
  | setPeer c peer =>
    refine whenAlive next fun _ => ?_
    unfold SetPeer assignSlot
    dsimp only
    split_ifs
    · exact next
    · exact next
    · split
      · exact next
      · exact next
  | handleConnectingClient c =>
    refine whenAlive next fun _ => connectingKeeps next ?_
    rintro s' connected
    obtain ⟨netId,found,rfl⟩ := Option.map_eq_some_iff.mp connected
    exact incrementValid.resolve_right (findNetIdFree next found).1.2

/-- In every state of a run a client that connects gets an id that nobody has, unless all are in use. -/
theorem idFound (bigMode oneSync : Bool) (operations : List Operation) :
    Throughout step (fun s => ∀ c, (∃ n : BitVec 16, n ≠ 0 ∧ n ≠ 0xFFFF ∧ s.lock (s.m_clientsByNetId (n.setWidth 32)) = none ∧
        ∃ s', s.HandleConnectingClient c = some s' ∧ (s'.objects c).m_netId = n.setWidth 32) ∨
      ∀ n : BitVec 16, n ≠ 0 → n ≠ 0xFFFF → s.lock (s.m_clientsByNetId (n.setWidth 32)) ≠ none)
      (construct bigMode oneSync) operations := by
  refine throughoutMono (fun s next c => ?_) (throughoutOfKept NextValid (fun s operation next _ => next.kept operation)
    netIdsConstructed.next alongAlways)
  cases connected : s.HandleConnectingClient c with
  | none => exact .inr (allUsed next connected)
  | some s' =>
    obtain ⟨netId,found,rfl⟩ := Option.map_eq_some_iff.mp connected
    obtain ⟨⟨nonzero,notLast⟩,free⟩ := findNetIdFree next found
    exact .inl ⟨netId,nonzero,notLast,free,_,rfl,congrArg Client.m_netId netIdObject⟩

theorem findNetIdHere {steps : Nat} {start : BitVec 16} (free : s.lock (s.m_clientsByNetId (start.setWidth 32)) = none) :
    s.findNetId (steps + 1) start = some start := by
  unfold findNetId
  rw [if_pos free]

def arrive (guid : Text) (c : Handle) : List Operation := [.makeClient guid,.handleConnectingClient c]

def visit (guid : Text) (c : Handle) : List Operation := arrive guid c ++ [.removeClient c,.release c]

def visits (guid : Text) : Nat → Handle → List Operation
  | 0,_ => []
  | k + 1,c => visit guid c ++ visits guid k (c + 1)

def arrived (s : ClientRegistry) (guid : Text) : ClientRegistry :=
  { (s.MakeClient guid).SetNetId s.constructed (s.m_curNetId.setWidth 32) with
    m_curNetId := incrementId s.m_curNetId
    m_amountConnectedClients := s.m_amountConnectedClients + 1 }

theorem runArrive (empty : s.m_clientsByNetId = fun _ => none) :
    run step s (arrive g s.constructed) = s.arrived g := by
  have alive : (s.MakeClient g).Alive s.constructed := .inl (Finset.mem_insert_self _ _)
  have table : (s.MakeClient g).m_clientsByNetId = fun _ => none := empty
  have free : (s.MakeClient g).findNetId 65534 (s.MakeClient g).m_curNetId = some s.m_curNetId := by
    refine @findNetIdHere _ 65533 _ ?_
    rw [table]
    rfl
  unfold arrive
  rw [runCons,runCons,runNil]
  unfold step
  dsimp only
  rw [if_pos alive]
  unfold HandleConnectingClient
  rw [free]
  rfl

theorem arrivedObject : (s.arrived g).objects s.constructed =
    (Client.construct g).SetNetId (s.m_curNetId.setWidth 32) := by
  unfold arrived SetNetId modify
  dsimp only
  rw [Function.update_self,objectMade]

theorem arrivedBefore (other : c ≠ s.constructed) : (s.arrived g).objects c = s.objects c := by
  unfold arrived SetNetId modify
  dsimp only
  rw [Function.update_of_ne other,objectBefore other]

theorem arrivedLookup (absent : s.m_clients.lookup g = none) :
    (s.arrived g).m_clients = s.m_clients.insert g s.constructed := if_pos absent

theorem arrivedTable (empty : s.m_clientsByNetId = fun _ => none) :
    (s.arrived g).m_clientsByNetId = Function.update (fun _ => none) (s.m_curNetId.setWidth 32) (some s.constructed) := by
  rw [← empty]
  rfl

theorem removedTable {n : BitVec 32} {entry : Option Handle} (id : (s.objects c).m_netId = n)
    (only : s.m_clientsByNetId = Function.update (fun _ => none) n entry) :
    (s.RemoveClient c).m_clientsByNetId = fun _ => none := by
  have rest : Function.update s.m_clientsByNetId (s.objects c).m_netId none = fun _ => none := by
    rw [id,only,Function.update_idem]
    exact Function.update_eq_self_iff.mpr rfl
  unfold RemoveClient
  dsimp only
  rw [rest]
  split
  · exact Function.update_eq_self_iff.mpr rfl
  · rfl

structure Past (s s' : ClientRegistry) : Prop where
  objects : ∀ c < s.constructed, s'.objects c = s.objects c
  held : ∀ c < s.constructed, c ∈ s.held → c ∈ s'.held
  lookup : ∀ guid, s'.m_clients.lookup guid = s.m_clients.lookup guid
  table : s'.m_clientsByNetId = fun _ => none

theorem runVisit (empty : s.m_clientsByNetId = fun _ => none) :
    run step s (visit g s.constructed) = ((s.arrived g).RemoveClient s.constructed).release s.constructed := by
  have alive : (s.arrived g).Alive s.constructed := .inl (Finset.mem_insert_self _ _)
  unfold visit
  rw [runAppend,runArrive empty,runCons,runCons,runNil]
  unfold step
  dsimp only
  rw [if_pos alive]

theorem visitPast (empty : s.m_clientsByNetId = fun _ => none) (absent : s.m_clients.lookup g = none) :
    Past s (run step s (visit g s.constructed)) := by
  rw [runVisit empty]
  have object := @arrivedObject s g
  refine ⟨fun c below => ?_,fun c below held => ?_,fun guid => ?_,?_⟩
  · have other := Nat.ne_of_lt below
    exact (objectRemoved other).trans (arrivedBefore other)
  · exact Finset.mem_erase_of_ne_of_mem (Nat.ne_of_lt below) (Finset.mem_insert_of_mem held)
  · have clients : (((s.arrived g).RemoveClient s.constructed).release s.constructed).m_clients =
        (s.m_clients.insert g s.constructed).erase g := by
      unfold release RemoveClient
      dsimp only
      rw [object,arrivedLookup absent]
      rfl
    rw [clients]
    by_cases same : guid = g
    · rw [same,AList.lookup_erase,absent]
    · rw [AList.lookup_erase_ne same,AList.lookup_insert_ne same]
  · exact removedTable (by rw [object]; rfl) (arrivedTable empty)

theorem Past.trans {first second : ClientRegistry} (later : Past first second) (past : Past s first)
    (count : s.constructed ≤ first.constructed) : Past s second where
  objects c below := (later.objects c (Nat.lt_of_lt_of_le below count)).trans (past.objects c below)
  held c below held := later.held c (Nat.lt_of_lt_of_le below count) (past.held c below held)
  lookup guid := (later.lookup guid).trans (past.lookup guid)
  table := later.table

theorem visitsPast (k : Nat) (empty : s.m_clientsByNetId = fun _ => none) (absent : s.m_clients.lookup g = none) :
    Past s (run step s (visits g k s.constructed)) ∧
      (run step s (visits g k s.constructed)).constructed = s.constructed + k ∧
      (run step s (visits g k s.constructed)).m_curNetId = incrementId^[k] s.m_curNetId := by
  induction k generalizing s with
  | zero => exact ⟨⟨fun _ _ => rfl,fun _ _ held => held,fun _ => rfl,empty⟩,rfl,rfl⟩
  | succ k ih =>
    unfold visits
    rw [runAppend]
    have past := visitPast empty absent
    have count : (run step s (visit g s.constructed)).constructed = s.constructed + 1 := by
      rw [runVisit empty]
      rfl
    have next : (run step s (visit g s.constructed)).m_curNetId = incrementId s.m_curNetId := by
      rw [runVisit empty]
      rfl
    obtain ⟨later,countLater,nextLater⟩ := ih past.table ((past.lookup g).trans absent)
    rw [count] at later countLater nextLater
    rw [next] at nextLater
    refine ⟨later.trans past ?_,?_,nextLater⟩
    · rw [count]
      exact Nat.le_succ _
    · rw [countLater,Nat.add_assoc,Nat.add_comm 1 k]

theorem roundVisits (next : s.m_curNetId = 2) (empty : s.m_clientsByNetId = fun _ => none)
    (absent : s.m_clients.lookup g = none) : Past s (run step s (visits g 65533 s.constructed)) ∧
      (run step s (visits g 65533 s.constructed)).constructed = s.constructed + 65533 ∧
      (run step s (visits g 65533 s.constructed)).m_curNetId = 1 := by
  obtain ⟨past,count,counter⟩ := visitsPast 65533 empty absent
  refine ⟨past,count,?_⟩
  have valid : s.m_curNetId ≠ 0 ∧ s.m_curNetId ≠ 0xFFFF := by
    rw [next]
    decide
  apply BitVec.eq_of_toNat_eq
  rw [counter,iterateValue valid,next]
  rfl

structure HasFirst (s : ClientRegistry) (c : Handle) (guid : Text) : Prop where
  id : (s.objects c).m_netId = 1
  guid : (s.objects c).m_guid = guid

theorem HasFirst.same {s' : ClientRegistry} (first : HasFirst s c g) (same : s'.objects c = s.objects c) :
    HasFirst s' c g := by
  refine ⟨?_,?_⟩
  · rw [same]
    exact first.id
  · rw [same]
    exact first.guid

structure Arrival (s s' : ClientRegistry) (guid : Text) : Prop where
  first : HasFirst s' s.constructed guid
  before : ∀ c < s.constructed, s'.objects c = s.objects c
  held : s'.held = insert s.constructed s.held
  self : s'.m_clients.lookup guid = some s.constructed
  lookup : ∀ other ≠ guid, s'.m_clients.lookup other = s.m_clients.lookup other
  table : s'.m_clientsByNetId = Function.update (fun _ => none) 1 (some s.constructed)
  count : s'.constructed = s.constructed + 1
  next : s'.m_curNetId = 2

theorem arriveFirst (next : s.m_curNetId = 1) (empty : s.m_clientsByNetId = fun _ => none)
    (absent : s.m_clients.lookup g = none) : Arrival s (run step s (arrive g s.constructed)) g := by
  rw [runArrive empty]
  have clients := arrivedLookup absent
  refine ⟨⟨?_,?_⟩,fun c below => arrivedBefore (Nat.ne_of_lt below),rfl,
    ?_,fun other apart => ?_,?_,rfl,?_⟩
  · rw [arrivedObject,next]
    rfl
  · rw [arrivedObject]
    rfl
  · rw [clients,AList.lookup_insert]
  · rw [clients,AList.lookup_insert_ne apart]
  · rw [arrivedTable empty,next]
    rfl
  · unfold arrived
    dsimp only
    rw [next]
    rfl

structure Departure (s s' : ClientRegistry) (c : Handle) (guid : Text) : Prop where
  first : HasFirst s' c guid
  before : ∀ d ≠ c, s'.objects d = s.objects d
  held : s'.held = s.held
  lookup : ∀ other ≠ guid, s'.m_clients.lookup other = s.m_clients.lookup other
  self : s'.m_clients.lookup guid = none
  table : s'.m_clientsByNetId = fun _ => none
  count : s'.constructed = s.constructed
  next : s'.m_curNetId = s.m_curNetId

theorem removeFirst {entry : Option Handle} (held : c ∈ s.held) (first : HasFirst s c g)
    (table : s.m_clientsByNetId = Function.update (fun _ => none) 1 entry) :
    Departure s (run step s [.removeClient c]) c g := by
  have alive : s.Alive c := .inl held
  have after : run step s [.removeClient c] = s.RemoveClient c := by
    rw [runCons,runNil]
    exact if_pos alive
  have clients : (s.RemoveClient c).m_clients = s.m_clients.erase g := by
    rw [← first.guid]
    rfl
  rw [after]
  refine ⟨⟨?_,?_⟩,fun d other => objectRemoved other,rfl,fun other apart => ?_,?_,removedTable first.id table,rfl,rfl⟩
  · rw [selfRemoved]
    exact first.id
  · rw [selfRemoved]
    exact first.guid
  · rw [clients,AList.lookup_erase_ne apart]
  · rw [clients,AList.lookup_erase]

def round (guid : Text) (c : Handle) : List Operation := visits [100] 65533 c ++ arrive guid (c + 65533)

structure Round (s s' : ClientRegistry) (guid : Text) : Prop where
  first : HasFirst s' (s.constructed + 65533) guid
  before : ∀ c < s.constructed, s'.objects c = s.objects c
  held : ∀ c < s.constructed, c ∈ s.held → c ∈ s'.held
  self : s'.m_clients.lookup guid = some (s.constructed + 65533)
  lookup : ∀ other ≠ guid, s'.m_clients.lookup other = s.m_clients.lookup other
  table : s'.m_clientsByNetId = Function.update (fun _ => none) 1 (some (s.constructed + 65533))
  count : s'.constructed = s.constructed + 65534
  next : s'.m_curNetId = 2

theorem runRound (next : s.m_curNetId = 2) (empty : s.m_clientsByNetId = fun _ => none)
    (visitor : s.m_clients.lookup [100] = none) (absent : s.m_clients.lookup g = none) :
    Round s (run step s (round g s.constructed)) g := by
  unfold round
  rw [runAppend]
  obtain ⟨past,count,back⟩ := roundVisits next empty visitor
  have arrival := arriveFirst back past.table ((past.lookup g).trans absent)
  rw [count] at arrival
  generalize run step s (visits [100] 65533 s.constructed) = between at past count arrival
  have first := arrival.first
  have self := arrival.self
  have table := arrival.table
  rw [count] at first self table
  refine ⟨first,fun c below => ?_,fun c below held => ?_,self,fun other apart => ?_,table,?_,arrival.next⟩
  · have still : c < between.constructed := by omega
    exact (arrival.before c still).trans (past.objects c below)
  · rw [arrival.held]
    exact Finset.mem_insert_of_mem (past.held c below held)
  · exact (arrival.lookup other apart).trans (past.lookup other)
  · rw [arrival.count,count]

def removedAgain : List Operation :=
  arrive [97] 0 ++ [.removeClient 0] ++ round [98] 1 ++ [.removeClient 0] ++ round [99] 65535

theorem netIdShared : ¬Throughout step NetIdsApart (construct true true) removedAgain := by
  intro all
  have last := throughoutLast all
  unfold removedAgain at last
  rw [runAppend,runAppend,runAppend,runAppend] at last
  have one : Arrival (construct true true) (run step (construct true true) (arrive [97] 0)) [97] :=
    arriveFirst rfl rfl rfl
  generalize run step (construct true true) (arrive [97] 0) = s₁ at one last
  have heldOne : 0 ∈ s₁.held := by
    rw [one.held]
    exact Finset.mem_insert_self _ _
  have two := removeFirst heldOne one.first one.table
  generalize run step s₁ [.removeClient 0] = s₂ at two last
  have countTwo : s₂.constructed = 1 := two.count.trans one.count
  have emptyTwo (guid : Text) : s₂.m_clients.lookup guid = none := by
    by_cases same : guid = [97]
    · rw [same]
      exact two.self
    · rw [two.lookup guid same,one.lookup guid same]
      rfl
  have three := runRound (two.next.trans one.next) two.table (emptyTwo [100]) (emptyTwo [98])
  rw [countTwo] at three
  generalize run step s₂ (round [98] 1) = s₃ at three last
  -- the first client has been gone since, but its id is the second one's now
  have heldThree : 0 ∈ s₃.held := three.held 0 (by rw [countTwo]; decide) (two.held ▸ heldOne)
  have firstThree : HasFirst s₃ 0 [97] := two.first.same (three.before 0 (by rw [countTwo]; decide))
  have four := removeFirst heldThree firstThree three.table
  generalize run step s₃ [.removeClient 0] = s₄ at four last
  have countFour : s₄.constructed = 65535 := by
    rw [four.count,three.count,countTwo]
  have emptyFour (guid : Text) (other : guid ≠ [97]) (apart : guid ≠ [98]) : s₄.m_clients.lookup guid = none := by
    rw [four.lookup guid other,three.lookup guid apart]
    exact emptyTwo guid
  have five := runRound (four.next.trans three.next) four.table (emptyFour [100] (by decide) (by decide))
    (emptyFour [99] (by decide) (by decide))
  rw [countFour] at five
  generalize run step s₄ (round [99] 65535) = s₅ at five last
  have secondFour : HasFirst s₄ 65534 [98] := by
    refine HasFirst.same ?_ (four.before 65534 (by decide))
    have second := three.first
    rwa [countTwo] at second
  have second : HasFirst s₅ 65534 [98] := secondFour.same (five.before 65534 (by rw [countFour]; decide))
  have handle : s₄.constructed + 65533 = 131068 := by omega
  have third := five.first
  rw [handle] at third
  have registeredSecond : s₅.Registered 65534 := by
    unfold Registered
    rw [second.guid,five.lookup [98] (by decide),four.lookup [98] (by decide),three.self,countTwo]
  have registeredThird : s₅.Registered 131068 := by
    unfold Registered
    rw [third.guid,five.self,handle]
  have connected : (s₅.objects 65534).HasConnected := by
    unfold Client.HasConnected
    rw [second.id]
    decide
  have shared := last.distinct 65534 131068 registeredSecond registeredThird connected (second.id.trans third.id.symm)
  exact absurd shared (by decide)

end Citizen.Registry.ClientRegistry
