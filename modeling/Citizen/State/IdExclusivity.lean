import Citizen.State.ObjectIds

/-! Runs of the server in which no create record takes an id that another client holds:
no two clients ever hold one id, and every granted id is free. -/
namespace Citizen.State
open Server

structure Safe (s : Server) : Prop where
  coherent : Coherent s.skeleton
  ids : IdsSafe s.ids

def Member (s : Server) (client : Option ClientId) : Prop :=
  ∀ c, client = some c → c ∈ s.skeleton.members

theorem Member.same {s s' : Server} {client} (member : Member s client)
    (eq : s'.skeleton = s.skeleton) : Member s' client := by
  rw [Member,eq]
  exact member

theorem memberNone (s : Server) : Member s none := by
  intro c found
  cases found

theorem memberOfRegistry {s : Server} {client} (mem : client ∈ s.registry) : Member s (some client) := by
  intro c found
  cases found
  exact List.mem_append_left _ mem

namespace Safe

theorem same {s s' : Server} (safe : Safe s) (eq : s'.ids = s.ids) : Safe s' :=
  ⟨safe.coherent.same (skeletonOfIds eq),safe.ids.same eq⟩

theorem dropped {s s' : Server} (safe : Safe s) (shape : Dropped s.ids s'.ids) : Safe s' := by
  obtain ⟨dropping,eq⟩ := shape
  refine ⟨(safe.coherent.restyled _ _ dropping).same (congrArg Ids.skeleton eq),?_⟩
  rw [eq]
  exact ⟨safe.ids.disjoint,safe.ids.backed,safe.ids.owned,safe.ids.owners⟩

section
variable {s : Server}

section
variable (s : Server) (o : Option ClientId) (id : Nat) (c : ClientId)

theorem heldErase :
    ((s.eraseObjectId o id).data c).objectIds =
      if o = some c then (s.data c).objectIds.erase id else (s.data c).objectIds := by
  cases o with
  | none => rfl
  | some client =>
    rw [eraseObjectId,dataModify]
    by_cases same : c = client
    · subst same
      simp
    · rw [if_neg same,if_neg (fun eq => same (Option.some.inj eq).symm)]

theorem heldInsert :
    ((s.insertObjectId o id).data c).objectIds =
      if o = some c then insert id (s.data c).objectIds else (s.data c).objectIds := by
  cases o with
  | none => rfl
  | some client =>
    rw [insertObjectId,dataModify]
    by_cases same : c = client
    · subst same
      simp
    · rw [if_neg same,if_neg (fun eq => same (Option.some.inj eq).symm)]

end

theorem idsReassignEntityInner {e : EntityRef} {handle : Nat} (now : Nat) (target : Option ClientId)
    (found : s.GetEntity handle = some e) (movable : (s.entity e).type ≠ .Player) :
    (ReassignEntityInner now target s handle).ids = s.ids.reassign e target handle := by
  unfold ReassignEntityInner
  rw [found]
  simp only
  rw [if_neg movable]
  generalize migratedEq : s.modifyEntity e (fun x => { x with
    lastMigratedAt := now, lastOwner := (s.entity e).client, client := target }) = migrated
  have owners : (fun e' => (migrated.entity e').owners) =
      Function.update (fun e' => (s.entity e').owners) e (target,(s.entity e).firstOwner) := by
    rw [← migratedEq]
    refine funext (fun e' => ?_)
    rw [entityModify]
    split
    · rename_i same
      rw [same,Function.update_self]
      rfl
    · rename_i other
      rw [Function.update_of_ne other]
  have skeleton : migrated.skeleton = s.skeleton := by
    rw [← migratedEq]
    exact skeletonModifyEntity _ _ (by intro _; rfl)
  have held : (fun c => (((migrated.eraseObjectId (s.entity e).client handle).insertObjectId
      target handle).data c).objectIds) = s.ids.heldAfter (s.entity e).client target handle := by
    refine funext (fun c => ?_)
    rw [heldInsert,heldErase,← migratedEq]
    rfl
  have moved : ((migrated.eraseObjectId (s.entity e).client handle).insertObjectId target handle).ids =
      ⟨migrated.skeleton,migrated.objectIdsSent,migrated.objectIdsStolen,
        fun e' => (migrated.entity e').owners,s.ids.heldAfter (s.entity e).client target handle⟩ := by
    rw [← held]
    cases (s.entity e).client <;> cases target <;> rfl
  generalize (migrated.eraseObjectId (s.entity e).client handle).insertObjectId target handle = t at *
  have resent : (t.allClients.foldl (forceResend e) t).ids = t.ids :=
    foldSame Server.ids (fun s' c => idsBlind.coarse.forceResend s' e c)
  rw [moved,skeleton,owners] at resent
  refine (congrArg (fun v : Ids => { v with stolen := insert handle v.stolen }) resent).trans ?_
  rw [← migratedEq]
  rfl

section
variable (safe : Safe s)
include safe

section
variable {target : Option ClientId} (member : Member s target) (now handle : Nat)
include member

theorem reassignInner : Safe (ReassignEntityInner now target s handle) := by
  refine ⟨safe.coherent.same (skeletonOwnerless.unowned.reassignEntityInner s now target handle),?_⟩
  cases found : s.GetEntity handle with
  | none =>
    rw [ReassignEntityInner,found]
    exact safe.ids
  | some e =>
    by_cases player : (s.entity e).type = .Player
    · rw [ReassignEntityInner,found]
      simp only
      rw [if_pos player]
      exact safe.ids
    · rw [idsReassignEntityInner now target found player]
      obtain ⟨listed,named⟩ := safe.coherent.known handle e found
      exact safe.ids.reassign listed named safe.coherent member

theorem reassign : Safe (ReassignEntity now target s handle) := by
  have moved := safe.reassignInner member now handle
  have still : Member (ReassignEntityInner now target s handle) target :=
    member.same (skeletonOwnerless.unowned.reassignEntityInner ..)
  unfold ReassignEntity
  simp only
  split
  · exact moved
  · refine (foldKeeps (fun s' => Safe s' ∧ Member s' target) (fun s' id _ both => ?_) ⟨moved,still⟩).1
    exact ⟨both.1.reassignInner both.2 now id,both.2.same (skeletonOwnerless.unowned.reassignEntityInner ..)⟩

end

theorem grant (client : ClientId) {id : Nat} (unsent : id ∉ s.objectIdsSent)
    (unused : id ∉ s.objectIdsUsed) :
    Safe { s.modifyData client (fun d => { d with objectIds := insert id d.objectIds }) with
      objectIdsSent := insert id s.objectIdsSent } := by
  refine ⟨safe.coherent,?_⟩
  have granted := @IdsSafe.grant s.ids safe.ids safe.coherent client id unsent unused
  have held : (fun c => ((s.modifyData client
      (fun d => { d with objectIds := insert id d.objectIds })).data c).objectIds) =
      Function.update s.ids.held client (insert id (s.ids.held client)) := by
    refine funext (fun c => ?_)
    rw [dataModify]
    split
    · rename_i same
      rw [same,Function.update_self]
      rfl
    · rename_i other
      rw [Function.update_of_ne other]
      rfl
  rw [Ids.grant,← held] at granted
  exact granted

theorem takeFreeIds (client : ClientId) (list : List Nat) (count : Nat) :
    Safe (takeFreeIds s client list count).2 := by
  induction list generalizing s count with
  | nil => cases count <;> exact safe
  | cons id rest ih =>
    cases count with
    | zero => exact safe
    | succ count =>
      unfold Server.takeFreeIds
      split
      · rename_i free
        exact ih (safe.grant client free.1 free.2) count
      · exact ih safe (count + 1)

theorem connect : Safe s.connectClient := by
  have fresh : s.nextNetId ∉ s.skeleton.members := fun mem =>
    Nat.lt_irrefl _ (safe.coherent.netIds _ mem)
  have members : ∀ c ∈ s.connectClient.skeleton.members,
      c = s.nextNetId ∨ (c ∈ s.skeleton.members ∧ s.connectClient.ids.held c = s.ids.held c) := by
    intro c mem
    by_cases new : c = s.nextNetId
    · exact .inl new
    · refine .inr ⟨?_,?_⟩
      · simpa [Skeleton.members,skeleton,connectClient,new] using mem
      · simp [Server.ids,connectClient,Function.update_of_ne new]
  have empty : s.connectClient.ids.held s.nextNetId = ∅ := by
    simp [Server.ids,connectClient,GameStateClientData.init]
  refine ⟨safe.coherent.connect,safe.ids.shrink ?_ ?_ (fun e mem => ⟨mem,rfl,fun c _ owner => owner⟩) ?_⟩
  · intro c mem id has
    rcases members c mem with rfl | ⟨was,eq⟩
    · rw [empty] at has
      cases has
    · rw [eq] at has
      exact ⟨was,has⟩
  · intro c mem id has
    rcases members c mem with rfl | ⟨was,eq⟩
    · rw [empty] at has
      cases has
    · rw [eq] at has
      exact safe.ids.backed c was id has
  · intro e mem c owner
    rcases List.mem_append.mp (safe.ids.owners e mem c owner) with registered | leaving
    · exact List.mem_append_left _ (List.mem_append_left _ registered)
    · exact List.mem_append_right _ leaving

theorem remove (client : ClientId) : Safe (s.RemoveClient client) := by
  refine ⟨safe.coherent.remove,?_⟩
  unfold RemoveClient
  split
  · rename_i mem
    exact safe.ids.transfer (fun c => (Coherent.removeMembers mem).mem_iff)
      (fun e listed => ⟨listed,rfl,rfl⟩) rfl rfl rfl rfl
  · exact safe.ids

theorem takeover {client : ClientId} (known : client ∈ s.inMemory)
    (now clientId objectId : Nat) : Safe (s.ProcessCloneTakeover now client clientId objectId) := by
  unfold ProcessCloneTakeover
  split
  · exact safe
  · simp only
    split
    · exact safe
    · rename_i target found
      have member : Member s (some target) := by
        split at found
        · exact memberOfRegistry (List.mem_of_find?_eq_some found)
        · cases found
          intro c eq
          cases eq
          exact known
      split
      · exact safe
      · split
        · exact safe
        · exact safe.reassign member now _

end

theorem finalizeKeeps (s : Server) (e e' : EntityRef) :
    ((s.FinalizeClone e).entity e').handle = (s.entity e').handle ∧
      ((s.FinalizeClone e).entity e').owners = (s.entity e').owners := by
  unfold FinalizeClone
  split
  · constructor
    · exact @entityModifyKeeps s e e' _ SyncEntityState.handle
        (fun x => { x with finalizing := true }) (fun _ => rfl)
    · exact @entityModifyKeeps s e e' _ SyncEntityState.owners
        (fun x => { x with finalizing := true }) (fun _ => rfl)
  · exact ⟨rfl,rfl⟩

theorem finalize (safe : Safe s) (e : EntityRef) : Safe (s.FinalizeClone e) := by
  have lists : (s.FinalizeClone e).skeleton.entityList = s.skeleton.entityList ∧
      (s.FinalizeClone e).skeleton.members = s.skeleton.members ∧
      (s.FinalizeClone e).skeleton.used = s.skeleton.used ∧
      (s.FinalizeClone e).ids.sent = s.ids.sent ∧ (s.FinalizeClone e).ids.stolen = s.ids.stolen ∧
      (s.FinalizeClone e).ids.held = s.ids.held := by
    unfold FinalizeClone
    split <;> exact ⟨rfl,rfl,rfl,rfl,rfl,rfl⟩
  obtain ⟨list,members,used,sent,stolen,held⟩ := lists
  refine ⟨safe.coherent.finalize e,safe.ids.transfer ?_ ?_ used sent stolen held⟩
  · intro c
    exact Iff.of_eq (congrArg (c ∈ ·) members)
  · intro e' listed
    obtain ⟨named,owners⟩ := finalizeKeeps s e e'
    rw [Server.ids,list] at listed
    exact ⟨listed,named,owners⟩

theorem relevantEntities (safe : Safe s) : Safe s.relevantEntities.1 :=
  foldKeeps (fun acc : Server × List EntityRef => Safe acc.1)
    (fun acc e _ kept => by
      unfold collect
      dsimp only
      repeat' split
      all_goals first
        | exact kept.finalize e
        | exact kept)
    safe

theorem steal (safe : Safe s) (id : Nat) :
    Safe { s with objectIdsStolen := insert id s.objectIdsStolen } :=
  ⟨safe.coherent,safe.ids.steal id⟩

theorem destroyEntity (safe : Safe s) (now : Nat) (client : ClientId) (slot : Slot) (objectId : Nat)
    (e : EntityRef) (outOfScope : Bool) : Safe (Server.destroyEntity now client slot s objectId e outOfScope) := by
  unfold Server.destroyEntity
  dsimp only
  have unseen : Safe (s.modifyEntity e (fun x => { x with relevantTo := x.relevantTo.erase slot })) :=
    safe.same (idsModifyEntity _ _ (by intro _; rfl) (by intro _; rfl))
  split
  · exact unseen.same (idsModifyEntity _ _ (by intro _; rfl) (by intro _; rfl))
  · have left := unseen.same (@idsModifyEntity _ e
      (fun x => { x with outOfScopeFor := insert slot x.outOfScopeFor })
      (by intro _; rfl) (by intro _; rfl))
    split
    · refine steal ?_ objectId
      split
      · exact left.reassign (memberNone _) ..
      · exact left
    · exact left

theorem destroyStep (input : TickInput) (client : ClientId) (slot : Slot) {acc : Frame}
    (safe : Safe acc.server) (entry) : Safe (Server.destroyStep input client slot acc entry).server := by
  unfold Server.destroyStep
  dsimp only
  split
  · exact safe
  · exact (safe.destroyEntity ..).same (idsBlind.leaveSlot ..)

theorem destroyPass (safe : Safe s) (input : TickInput) (client : ClientId) (slot : Slot) :
    Safe (Server.destroyPass input client slot s).server := by
  have destroyed : Safe (((s.moveDeleting client).data client).entitiesToDestroy.entries.foldl
      (Server.destroyStep input client slot) ⟨s.moveDeleting client,⟨∅,[]⟩,[]⟩).server :=
    foldKeeps (fun acc : Frame => Safe acc.server)
      (fun acc entry _ kept => destroyStep input client slot kept entry)
      (safe.same (idsBlind.coarse.moveDeleting ..))
  unfold Server.destroyPass
  dsimp only
  split
  · exact destroyed.same (idsBlind.coarse.setToDestroy ..)
  · exact destroyed

theorem yoink (safe : Safe s) {client : ClientId} (member : Member s (some client)) (now : Nat)
    (e : EntityRef) : Safe (Server.yoink now client s e) := by
  unfold Server.yoink
  split
  · have asked := safe.same (@idsModifyEntity s e (fun x => { x with wantsReassign := false })
      (by intro _; rfl) (by intro _; rfl))
    exact asked.reassign (member.same (skeletonModifyEntity _ _ (by intro _; rfl))) ..
  · exact safe

theorem entryStep (input : TickInput) {client : ClientId} (slot : Slot) {acc : Frame}
    (safe : Safe acc.server) (member : Member acc.server (some client)) (identPair : IdentPair) :
    Safe (Server.entryStep input client slot acc identPair).server := by
  unfold Server.entryStep
  split
  · exact safe
  · rename_i found _
    have owned := safe.yoink member input.curTime found.entity
    dsimp only
    split
    · exact owned
    · rename_i syncData _
      have ready := owned.same (idsBlind.createEntry _ client identPair syncData)
      split
      · rename_i eq
        rw [eq] at ready
        exact ready
      · rename_i eq
        rw [eq] at ready
        exact ready.same (idsBaseless.syncEntry ..)

theorem clientPass (safe : Safe s) (input : TickInput) (client : ClientId) :
    Safe (Server.clientPass input s client) := by
  unfold Server.clientPass
  split
  · exact safe
  · rename_i slot found
    have member : Member s (some client) := memberOfRegistry (safe.coherent.slotted _ _ found)
    have updated : Safe (updatePass input client slot s).server ∧
        Member (updatePass input client slot s).server (some client) := by
      refine foldKeeps (fun acc : Frame => Safe acc.server ∧ Member acc.server (some client))
        (fun acc identPair _ both => ?_)
        ⟨safe.destroyPass input client slot,member.same (skeletonOwnerless.destroyPass ..)⟩
      exact ⟨entryStep input slot both.1 both.2 identPair,both.2.same (skeletonBaseless.entryStep _ _ skeletonOwnerless _ _ _)⟩
    refine updated.1.same (Eq.trans ?_
      (idsSaveFrame _ input client (updatePass input client slot s).ces))
    exact foldSame Server.ids (fun s' command => idsBaseless.execute s' client slot input command)

theorem tick (safe : Safe s) (input : TickInput) : Safe (s.Tick input) := by
  have styled : Safe (s.setStyle input) :=
    ⟨safe.coherent.restyled _ _ _,safe.ids.disjoint,safe.ids.backed,safe.ids.owned,safe.ids.owners⟩
  have swept : Safe (s.relevancePhase input) := styled.relevantEntities.same (idsRelevancePhase s input)
  have updated : Safe ((s.relevancePhase input).updatePhase input) :=
    foldKeeps Safe (fun s' client _ kept => kept.clientPass input client) swept
  exact ⟨updated.coherent.restyled _ _ _,updated.ids.disjoint,updated.ids.backed,updated.ids.owned,
    updated.ids.owners⟩

theorem nearestMem {list : List (Nat × ClientId)} {c : ClientId} (found : nearest list = some c) :
    ∃ distance, (distance,c) ∈ list := by
  cases list with
  | nil => cases found
  | cons first rest =>
    have kept : rest.foldl (fun best next =>
        if next.1 < best.1 ∨ (next.1 = best.1 ∧ next.2 < best.2) then next else best) first ∈ first :: rest :=
      foldKeeps (fun best : Nat × ClientId => best ∈ first :: rest)
        (fun best next mem here => by
          split
          · exact List.mem_cons_of_mem _ mem
          · exact here)
        List.mem_cons_self
    cases found
    exact ⟨_,kept⟩

theorem candidatesRegistered {distance e leaving} {d : Nat} {c : ClientId}
    (mem : (d,c) ∈ s.candidates distance e leaving) : c ∈ s.registry := by
  unfold candidates at mem
  split at mem
  · cases mem
  · obtain ⟨c',taken,eq⟩ := List.mem_map.mp mem
    cases eq
    obtain ⟨bit,_,found⟩ := List.mem_filterMap.mp (List.mem_of_mem_take taken)
    exact (slotOfGetClient (Option.filter_eq_some_iff.mp found).1).1

theorem moveToCandidate (safe : Safe s) (now : Nat) (distance e client) :
    Safe (MoveEntityToCandidate now distance s e client).2 := by
  unfold MoveEntityToCandidate
  split
  · exact safe
  · split
    · exact safe
    · split
      · split
        · exact safe.reassign (memberNone s) ..
        · exact safe
      · rename_i candidate found
        obtain ⟨_,mem⟩ := nearestMem found
        exact safe.reassign (memberOfRegistry (candidatesRegistered mem)) ..

theorem dropFromEntity {acc : Server × List Nat} (safe : Safe acc.1) (now : Nat) (distance client slotId)
    {e : EntityRef} (listed : e ∈ acc.1.skeleton.entityList) :
    Safe (Server.dropFromEntity now distance client slotId acc e).1 := by
  have same : ((acc.1.firstOwnerLeft client e).clearSlot slotId e).ids = acc.1.ids :=
    (idsBaseless.clearSlot ..).trans (idsBlind.coarse.firstOwnerLeft ..)
  have cleared := safe.same same
  have first : Member ((acc.1.firstOwnerLeft client e).clearSlot slotId e)
      (((acc.1.firstOwnerLeft client e).clearSlot slotId e).entity e).firstOwner := by
    intro c owner
    rw [← skeletonOfIds same] at listed
    exact cleared.ids.owners e listed c (.inr owner)
  have moved := cleared.moveToCandidate now distance e client
  have still := skeletonOwnerless.unowned.moveEntityToCandidate
    ((acc.1.firstOwnerLeft client e).clearSlot slotId e) e client now distance
  unfold Server.dropFromEntity
  dsimp only
  split
  · exact cleared
  · split
    · rename_i eq
      rw [eq] at moved
      exact moved
    · rename_i eq
      rw [eq] at moved still
      split
      · exact moved.reassign (first.same still) ..
      · exact moved

theorem handleClientDrop (safe : Safe s) (now : Nat) (distance client slotId) :
    ∃ r : Server, Safe r ∧ r.skeleton = s.skeleton ∧
      Server.HandleClientDrop now distance s client slotId =
        { r with objectIdsSent := r.objectIdsSent \ (r.data client).objectIds } := by
  have left : (if s.bigMode then s.allClients.foldl (leaveScope client) s else s).ids = s.ids := by
    split
    · exact foldSame Server.ids (fun s' c => idsBlind.leaveScope s' c client)
    · rfl
  generalize leftEq : (if s.bigMode then s.allClients.foldl (leaveScope client) s else s) = l at left
  generalize droppedEq : l.entityList.foldl (Server.dropFromEntity now distance client slotId) (l,[]) = d
  have dropped : Safe d.1 ∧ d.1.skeleton = l.skeleton := by
    rw [← droppedEq]
    refine foldKeeps (fun acc : Server × List Nat => Safe acc.1 ∧ acc.1.skeleton = l.skeleton)
      (fun acc e mem both => ?_) ⟨safe.same left,rfl⟩
    refine ⟨both.1.dropFromEntity now distance client slotId ?_,
      (skeletonBaseless.dropFromEntity _ _ _ skeletonOwnerless.unowned _ _ _).trans both.2⟩
    rw [both.2]
    exact mem
  have removed : (d.2.foldl RemoveClone d.1).ids = d.1.ids :=
    foldSame Server.ids (fun s' id => idsBlind.coarse.removeClone s' id)
  refine ⟨d.2.foldl RemoveClone d.1,dropped.1.same removed,?_,?_⟩
  · exact (skeletonOfIds removed).trans (dropped.2.trans (skeletonOfIds left))
  · subst droppedEq leftEq
    rfl

theorem runDrop (safe : Safe s) (now : Nat) (distance) : Safe (s.runDrop now distance) := by
  refine ⟨safe.coherent.runDrop now distance,?_⟩
  unfold Server.runDrop
  split
  · exact safe.ids
  · rename_i client slotId rest queue
    obtain ⟨r,kept,skeleton,shape⟩ := safe.handleClientDrop now distance client slotId
    rw [shape]
    have drops : r.skeleton.drops = (client,slotId) :: rest := by
      rw [skeleton]
      exact queue
    have leaving : client ∈ r.skeleton.members := by
      rw [Skeleton.members,drops]
      exact List.mem_append_right _ List.mem_cons_self
    have members : ∀ c, c ∈ r.skeleton.registry ++ rest.map Prod.fst ↔ c ∈ r.skeleton.members ∧ c ≠ client := by
      have nodup := kept.coherent.membersNodup
      rw [Skeleton.members,drops,List.map_cons,List.nodup_middle,List.nodup_cons] at nodup
      intro c
      rw [Skeleton.members,drops,List.map_cons]
      constructor
      · intro mem
        refine ⟨?_,fun same => nodup.1 (same ▸ mem)⟩
        exact List.perm_middle.mem_iff.mpr (List.mem_cons_of_mem _ mem)
      · rintro ⟨mem,other⟩
        exact (List.mem_cons.mp (List.perm_middle.mem_iff.mp mem)).resolve_left other
    refine kept.ids.shrink ?_ ?_ ?_ ?_
    · intro c mem id has
      exact ⟨((members c).mp mem).1,has⟩
    · intro c mem id has
      obtain ⟨was,other⟩ := (members c).mp mem
      refine (kept.ids.backed c was id has).imp_left (fun sent => Finset.mem_sdiff.mpr ⟨sent,?_⟩)
      exact kept.ids.disjoint c was client leaving other id has
    · intro e listed
      refine ⟨listed,rfl,fun c mem owner => ?_⟩
      have stays : Option.filter (· != client) (some c) = some c := by
        simp [((members c).mp mem).2]
      rw [← stays,← owner]
      rfl
    · intro e listed c owner
      have filtered : ∀ o : Option ClientId, o.filter (· != client) = some c → o = some c ∧ c ≠ client := by
        intro o eq
        obtain ⟨here,other⟩ := Option.filter_eq_some_iff.mp eq
        exact ⟨here,by simpa using other⟩
      refine (members c).mpr ?_
      rcases owner with owner | owner
      · obtain ⟨here,other⟩ := filtered _ owner
        exact ⟨kept.ids.owners e listed c (.inl here),other⟩
      · obtain ⟨here,other⟩ := filtered _ owner
        exact ⟨kept.ids.owners e listed c (.inr here),other⟩

theorem idsDoRemove (s : Server) (e : EntityRef) : (s.doRemove e).ids =
      s.ids.release (s.doRemove e).skeleton (s.entity e).client (s.entity e).handle := by
  unfold Ids.release
  split
  · rename_i member
    have stolen : (s.entity e).handle ∈ s.objectIdsStolen := member
    have held : (fun c => ((s.doRemove e).data c).objectIds) = fun c =>
        if (s.entity e).client = some c then (s.data c).objectIds.erase (s.entity e).handle
        else (s.data c).objectIds := by
      refine funext (fun c => ?_)
      unfold doRemove
      dsimp only
      rw [if_pos stolen]
      exact heldErase ..
    have rest : (s.doRemove e).objectIdsSent = s.objectIdsSent.erase (s.entity e).handle ∧
        (s.doRemove e).objectIdsStolen = s.objectIdsStolen.erase (s.entity e).handle ∧
        (s.doRemove e).entity = s.entity := by
      unfold doRemove
      dsimp only
      rw [if_pos stolen]
      cases (s.entity e).client <;> exact ⟨rfl,rfl,rfl⟩
    rw [Server.ids,held,rest.1,rest.2.1,rest.2.2]
    rfl
  · rename_i member
    have kept : (s.entity e).handle ∉ s.objectIdsStolen := member
    unfold doRemove
    dsimp only
    rw [if_neg kept]
    rfl

theorem runRemoval (safe : Safe s) : Safe s.runRemoval := by
  refine ⟨safe.coherent.runRemoval,?_⟩
  unfold Server.runRemoval
  split
  · exact safe.ids
  · rename_i e rest queue
    have queued : s.skeleton.removals = e :: rest := queue
    have listed : e ∈ s.skeleton.entityList := by
      refine (safe.coherent.removing e ?_).1
      rw [queued]
      exact List.mem_cons_self
    have shape := Coherent.doRemoveShape s e
    have gone : IdsSafe (s.doRemove e).ids := by
      rw [idsDoRemove]
      refine safe.ids.release listed ?_ ?_ ?_
      · rw [shape]
        rfl
      · rw [shape]
        rfl
      · rw [shape]
        exact fun e' mem => ⟨List.mem_of_mem_erase mem,rfl⟩
    exact ⟨gone.disjoint,gone.backed,gone.owned,gone.owners⟩

theorem olderKept (safe : Safe s) {entity : EntityRef → SyncEntityState} {x : SyncEntityState}
    (same : entity = Function.update s.entity s.nextEntity x) {e : EntityRef} (mem : e ∈ s.entityList) :
    entity e = s.entity e := by
  rw [same]
  exact Function.update_of_ne (Nat.ne_of_lt (safe.coherent.allocated e mem)) ..

theorem createEntity (safe : Safe s) (type tree rand now) : Safe (s.CreateEntityFromTree type tree rand now) := by
  refine ⟨safe.coherent.createEntity type tree rand now,?_⟩
  unfold CreateEntityFromTree
  split
  · exact safe.ids
  · rename_i id found
    obtain ⟨unused,unsent⟩ := freeServerIdFree found
    generalize madeEq : Function.update s.entity s.nextEntity
      { SyncEntityState.fresh type id rand now tree with passedFilter := true, timestamp := now } = made
    have new : made s.nextEntity = { SyncEntityState.fresh type id rand now tree with
        passedFilter := true, timestamp := now } := by
      rw [← madeEq,Function.update_self]
    have named : (made s.nextEntity).handle = id := congrArg SyncEntityState.handle new
    have unowned : (made s.nextEntity).owners = (none,none) := congrArg SyncEntityState.owners new
    refine safe.ids.enlist rfl rfl (Finset.subset_insert _ _) (Finset.subset_insert _ _)
      (Finset.subset_insert _ _) rfl ?_ ?_ ?_
    · intro e' mem
      have old := safe.olderKept madeEq.symm mem
      exact ⟨congrArg SyncEntityState.handle old,congrArg SyncEntityState.owners old⟩
    · intro c mem has
      have held : id ∈ s.ids.held c := named ▸ has
      exact absurd held (safe.ids.heldByNobody unsent unused c mem)
    · intro c owner
      have either : (made s.nextEntity).owners.1 = some c ∨ (made s.nextEntity).owners.2 = some c := owner
      rw [unowned] at either
      simp at either

theorem idsEnlist (s : Server) (client : ClientId) (e : EntityRef) (packet : CloneData) :
    (s.enlist client e packet).ids = s.ids.enlist e packet.objectId := by
  have known : (s.modifyData client (fun d => { d with
      syncedEntities := d.syncedEntities.insert (packet.objectId,packet.uniqifier) ⟨0,10,e,false,true,false⟩
      pendingCreates := d.pendingCreates.erase (packet.objectId,packet.uniqifier) })).ids = s.ids :=
    idsModifyData _ _ (by intro _; rfl)
  exact congrArg (fun v : Ids => v.enlist e packet.objectId) known

theorem cloneCreate (safe : Safe s) {client : ClientId} (known : client ∈ s.inMemory) (now : Nat)
    (packet : CloneData) (own : s.Enlists client packet →
      ∀ c ∈ s.inMemory, c ≠ client → packet.objectId ∉ (s.data c).objectIds) :
    Safe (s.ProcessCloneCreate now client packet) := by
  refine ⟨safe.coherent.processCloneCreate now client packet,?_⟩
  have older : ∀ type, ∀ e ∈ s.skeleton.entityList,
      (s.constructEntity client packet type).skeleton.handle e = s.skeleton.handle e ∧
        (s.constructEntity client packet type).ids.owners e = s.ids.owners e := by
    intro type e mem
    have old : (s.constructEntity client packet type).entity e = s.entity e := safe.olderKept rfl mem
    exact ⟨congrArg SyncEntityState.handle old,congrArg SyncEntityState.owners old⟩
  rcases processCloneCreateCases s client now packet with same | ⟨type,free,same | ⟨ready,same,enlists,eq⟩⟩
  · rw [same]
    exact safe.ids
  · rw [same]
    exact safe.ids.transfer (fun c => Iff.rfl) (fun e mem => ⟨mem,older type e mem⟩) rfl rfl rfl rfl
  · have named : (s.constructEntity client packet type).skeleton.handle s.nextEntity = packet.objectId := by
      simp [Skeleton.handle,skeleton,SyncEntityState.core,constructEntity,SyncEntityState.fresh]
    have owned : (s.constructEntity client packet type).ids.owners s.nextEntity = (some client,some client) := by
      simp [Server.ids,SyncEntityState.owners,constructEntity]
    rw [eq,idsEnlist,same]
    refine safe.ids.enlist rfl rfl subset_rfl (Finset.subset_insert _ _) subset_rfl rfl
      (older type) ?_ ?_
    · intro c mem has
      have held : packet.objectId ∈ (s.data c).objectIds := named ▸ has
      by_cases sender : c = client
      · rw [sender]
        exact congrArg Prod.fst owned
      · exact absurd held (own enlists c mem sender)
    · intro c owner
      have either : ((s.constructEntity client packet type).ids.owners s.nextEntity).1 = some c ∨
        ((s.constructEntity client packet type).ids.owners s.nextEntity).2 = some c := owner
      rw [owned,or_self] at either
      cases either
      exact known

end
end Safe

def CreatesOwnId (s : Server) : Op → Prop
  | .fromClient client _ _ (.cloneCreate packet) => client ∈ s.inMemory → s.Enlists client packet →
      ∀ c ∈ s.inMemory, c ≠ client → packet.objectId ∉ (s.data c).objectIds
  | _ => True

variable {s : Server}

theorem Safe.step (safe : Safe s) (op : Op) (own : CreatesOwnId s op) : Safe (s.step op) := by
  cases op with
  | connect => exact safe.connect
  | drop client => exact safe.dropped ⟨insert client s.dropping,rfl⟩
  | remove client => exact safe.remove client
  | runDrop now distance => exact safe.runDrop now distance
  | runRemoval => exact safe.runRemoval
  | createEntity type tree rand now => exact safe.createEntity type tree rand now
  | deleteEntity e => exact safe.same (idsBlind.coarse.deleteEntity s e)
  | removeClone id => exact safe.same (idsBlind.coarse.removeClone s id)
  | passFilter e => exact safe.same (idsModifyEntity s e (by intro _; rfl) (by intro _; rfl))
  | setOrphanMode e mode => exact safe.same (idsModifyEntity s e (by intro _; rfl) (by intro _; rfl))
  | setEntityBucket e bucket => exact safe.same (idsModifyEntity s e (by intro _; rfl) (by intro _; rfl))
  | setClientBucket client bucket => exact safe.same (idsModifyData s client (by intro _; rfl))
  | tick input => exact safe.tick input
  | fromClient client now protect op =>
    unfold Server.step
    dsimp only
    split
    · rename_i known
      cases op with
      | requestObjectIds n => exact safe.takeFreeIds client _ n
      | cloneCreate packet => exact safe.cloneCreate known now packet (own known)
      | cloneSync packet => exact safe.same (idsBaseless.processCloneSync s client now packet)
      | cloneTakeover target id => exact safe.takeover known now target id
      | cloneRemove id uniq => exact safe.same (idsBlind.coarse.processCloneRemove s client protect id uniq)
      | timestamp ts => exact safe.same (idsBlind.coarse.setTimestamp s client ts)
      | frameIndex index => exact safe.same (idsModifyData s client (by intro _; rfl))
      | ackCreate id uniq => exact safe.same (idsBlind.coarse.ackCreate s client id uniq)
      | ackRemove id uniq => exact safe.same (idsBlind.coarse.ackRemove s client id uniq)
      | nack packet => exact safe.dropped (idsHandleGameStateNAck s client packet)
      | ack packet => exact safe.same (idsHandleGameStateAck s client packet)
    · exact safe

theorem Safe.init (bigMode lengthHack : Bool) : Safe (.init bigMode lengthHack) where
  coherent := .init bigMode lengthHack
  ids := ⟨(by intro c mem; cases mem),(by intro c mem; cases mem),(by intro c mem; cases mem),
    (by intro e mem; cases mem)⟩

theorem takenFree {client : ClientId} {list : List Nat} {count id : Nat}
    (taken : id ∈ (takeFreeIds s client list count).1) : id ∉ s.objectIdsSent ∧ id ∉ s.objectIdsUsed := by
  induction list generalizing s count with
  | nil => cases count <;> cases taken
  | cons first rest ih =>
    cases count with
    | zero => cases taken
    | succ count =>
      unfold takeFreeIds at taken
      split at taken
      · rename_i free
        rcases List.mem_cons.mp taken with rfl | later
        · exact free
        · obtain ⟨unsent,unused⟩ := ih later
          exact ⟨fun sent => unsent (Finset.mem_insert_of_mem sent),unused⟩
      · exact ih taken

def ExclusiveIds (s : Server) : Prop :=
  ∀ c ∈ s.registry, ∀ c' ∈ s.registry, c ≠ c' →
    ∀ id ∈ (s.data c).objectIds, id ∉ (s.data c').objectIds

def GrantsFree (s : Server) : Prop :=
  ∀ client numIds, ∀ id ∈ (s.GetFreeObjectIds client numIds).1,
    (∀ c ∈ s.registry, id ∉ (s.data c).objectIds) ∧
      s.GetEntity id = none ∧ ∀ e ∈ s.entityList, (s.entity e).handle ≠ id

theorem Safe.exclusive (safe : Safe s) : ExclusiveIds s :=
  fun c mem c' mem' => safe.ids.disjoint c (List.mem_append_left _ mem) c' (List.mem_append_left _ mem')

theorem Safe.grantsFree (safe : Safe s) : GrantsFree s := by
  intro client numIds id taken
  obtain ⟨unsent,unused⟩ := takenFree taken
  have unnamed : ∀ e ∈ s.entityList, (s.entity e).handle ≠ id := by
    rintro e mem rfl
    exact unused (safe.coherent.used e mem)
  refine ⟨fun c mem => safe.ids.heldByNobody unsent unused c (List.mem_append_left _ mem),?_,unnamed⟩
  cases found : s.GetEntity id with
  | none => rfl
  | some e =>
    obtain ⟨mem,named⟩ := safe.coherent.known id e found
    exact absurd named (unnamed e mem)

theorem objectIdsExclusive {bigMode lengthHack : Bool} {ops : List Op}
    (own : Along Server.step CreatesOwnId (.init bigMode lengthHack) ops) :
    Throughout Server.step (fun s => ExclusiveIds s ∧ GrantsFree s) (.init bigMode lengthHack) ops :=
  throughoutMono (fun _ safe => ⟨safe.exclusive,safe.grantsFree⟩)
    (throughoutOfKept Safe (fun _ op safe own => safe.step op own) (.init bigMode lengthHack) own)

def objectRecord : CloneData := ⟨1,7,some .Object,0,1,⟨0,false,false,none⟩,false,true,true⟩

def createdBy (sender : ClientId) : List Op :=
  [.connect,.connect,.connect,.fromClient 1 0 false (.requestObjectIds 1),
    .fromClient sender 0 false (.cloneCreate objectRecord),.fromClient sender 0 false (.cloneTakeover 3 1)]

theorem objectIdsExclusiveOwn :
    Throughout Server.step (fun s => ExclusiveIds s ∧ GrantsFree s) (.init false false) (createdBy 1) :=
  objectIdsExclusive ⟨trivial,trivial,trivial,trivial,fun _ _ => by decide +kernel,trivial,trivial⟩

theorem objectIdsShared :
    ¬ ∀ ops, Throughout Server.step (fun s => ExclusiveIds s ∧ GrantsFree s) (.init false false) ops := by
  intro all
  have last := (throughoutLast (all (createdBy 2))).1
  have first : 1 ∈ ((run Server.step (.init false false) (createdBy 2)).data 1).objectIds := by decide +kernel
  exact last 1 (by decide +kernel) 3 (by decide +kernel) (by decide) 1 first (by decide +kernel)

end Citizen.State
