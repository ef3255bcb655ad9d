import Citizen.State.Skeleton

/-! The entity list, the table by id, the registry and the queues agree in every state
that a run reaches. -/
namespace Citizen.State
open Server

def Skeleton.members (k : Skeleton) : List ClientId := k.registry ++ k.drops.map Prod.fst
def Skeleton.handle (k : Skeleton) (e : EntityRef) : Nat := (k.core e).1
def Skeleton.finalizing (k : Skeleton) (e : EntityRef) : Bool := (k.core e).2.2.2

structure Coherent (k : Skeleton) : Prop where
  listed : ∀ e ∈ k.entityList, k.entitiesById (k.handle e) = some e
  known : ∀ id e, k.entitiesById id = some e → e ∈ k.entityList ∧ k.handle e = id
  used : ∀ e ∈ k.entityList, k.handle e ∈ k.used
  allocated : ∀ e ∈ k.entityList, e < k.nextEntity
  listNodup : k.entityList.Nodup
  removing : ∀ e ∈ k.removals, e ∈ k.entityList ∧ k.finalizing e = true
  removalsNodup : k.removals.Nodup
  membersNodup : k.members.Nodup
  netIds : ∀ c ∈ k.members, c < k.nextNetId
  slotted : ∀ c slot, k.slotId c = some slot → c ∈ k.registry
  slots : ∀ c ∈ k.registry, ∀ c' ∈ k.registry, ∀ slot,
    k.slotId c = some slot → k.slotId c' = some slot → c = c'

namespace Coherent

theorem sameHandle {k : Skeleton} (coherent : Coherent k) {e e'} (mem : e ∈ k.entityList)
    (mem' : e' ∈ k.entityList) (same : k.handle e = k.handle e') : e = e' := by
  have here := coherent.listed e mem
  rw [same,coherent.listed e' mem'] at here
  exact (Option.some.inj here).symm

theorem init (bigMode lengthHack : Bool) : Coherent (Server.init bigMode lengthHack).skeleton where
  listed := by intro e mem; cases mem
  known := by intro id e found; cases found
  used := by intro e mem; cases mem
  allocated := by intro e mem; cases mem
  listNodup := List.nodup_nil
  removing := by intro e mem; cases mem
  removalsNodup := List.nodup_nil
  membersNodup := List.nodup_nil
  netIds := by intro c mem; cases mem
  slotted := by intro c slot found; cases found
  slots := by intro c mem; cases mem

theorem restyled {k : Skeleton} (coherent : Coherent k) (style : SyncStyle)
    (frame : Nat) (dropping : Finset ClientId) :
    Coherent { k with syncStyle := style, frameIndex := frame, dropping := dropping } :=
  ⟨coherent.listed,coherent.known,coherent.used,coherent.allocated,coherent.listNodup,coherent.removing,
    coherent.removalsNodup,coherent.membersNodup,coherent.netIds,coherent.slotted,coherent.slots⟩

theorem same {k k' : Skeleton} (coherent : Coherent k) (eq : k' = k) : Coherent k' :=
  eq.symm ▸ coherent

section
variable {s : Server}

theorem freeSlotUnused {limit slot} (found : s.freeSlot limit = some slot) :
    ∀ c ∈ s.registry, s.slotId c ≠ some slot := by
  induction limit with
  | zero => simp [freeSlot] at found
  | succ n ih =>
    unfold freeSlot at found
    split at found
    · rename_i free
      cases Option.some.inj found
      intro c mem has
      have none := free.2
      unfold GetClientBySlotID at none
      rw [List.find?_eq_none] at none
      exact none c mem (by simpa using has)
    · exact ih found

theorem connect (coherent : Coherent s.skeleton) :
    Coherent s.connectClient.skeleton where
  listed := coherent.listed
  known := coherent.known
  used := coherent.used
  allocated := coherent.allocated
  listNodup := coherent.listNodup
  removing := coherent.removing
  removalsNodup := coherent.removalsNodup
  membersNodup := by
    have fresh : s.nextNetId ∉ s.skeleton.members := fun mem =>
      Nat.lt_irrefl _ (coherent.netIds _ mem)
    have nodup := coherent.membersNodup
    simp only [Skeleton.members,List.mem_append,not_or] at fresh
    simp only [Skeleton.members,List.nodup_append'] at nodup
    change (s.registry ++ [s.nextNetId] ++ s.drops.map Prod.fst).Nodup
    rw [List.append_assoc,List.singleton_append,List.nodup_middle,List.nodup_cons,
      List.nodup_append']
    exact ⟨fun mem => (List.mem_append.mp mem).elim fresh.1 fresh.2,nodup⟩
  netIds := by
    intro c mem
    change c < s.nextNetId + 1
    simp only [Skeleton.members,skeleton,connectClient,List.mem_append,List.mem_singleton] at mem
    rcases mem with (mem | rfl) | mem
    · exact Nat.lt_succ_of_lt (coherent.netIds c (List.mem_append_left _ mem))
    · exact Nat.lt_succ_self _
    · exact Nat.lt_succ_of_lt (coherent.netIds c (List.mem_append_right _ mem))
  slotted := by
    intro c slot found
    by_cases new : c = s.nextNetId
    · subst new
      exact List.mem_append_right _ (List.mem_singleton_self _)
    · have old : s.slotId c = some slot := by
        simpa [skeleton,connectClient,Function.update_of_ne new] using found
      exact List.mem_append_left _ (coherent.slotted c slot old)
  slots := by
    have old : ∀ c, c ∈ s.registry → c ≠ s.nextNetId := fun c mem =>
      Nat.ne_of_lt (coherent.netIds c (List.mem_append_left _ mem))
    intro c mem c' mem' slot has has'
    simp only [skeleton,connectClient,List.mem_append,List.mem_singleton] at mem mem' has has'
    rcases mem with mem | rfl <;> rcases mem' with mem' | rfl
    · rw [Function.update_of_ne (old c mem)] at has
      rw [Function.update_of_ne (old c' mem')] at has'
      exact coherent.slots c mem c' mem' slot has has'
    · rw [Function.update_of_ne (old c mem)] at has
      rw [Function.update_self] at has'
      exact absurd has (freeSlotUnused has' c mem)
    · rw [Function.update_self] at has
      rw [Function.update_of_ne (old c' mem')] at has'
      exact absurd has' (freeSlotUnused has c' mem')
    · rfl

theorem removeMembers {client} (mem : client ∈ s.registry) :
    (s.registry.erase client ++ (s.drops ++ [(client,s.slotId client)]).map Prod.fst).Perm s.skeleton.members := by
  rw [List.map_append,List.map_singleton,← List.append_assoc]
  refine (List.perm_append_singleton client _).trans ?_
  rw [← List.cons_append]
  exact (List.perm_cons_erase mem).symm.append_right _

theorem remove {client} (coherent : Coherent s.skeleton) : Coherent (s.RemoveClient client).skeleton := by
  unfold RemoveClient
  split
  · rename_i mem
    have kept : ∀ c slot, Function.update s.slotId client none c = some slot →
        c ≠ client ∧ s.slotId c = some slot := by
      intro c slot has
      by_cases same : c = client
      · simp [same] at has
      · exact ⟨same,by simpa [Function.update_of_ne same] using has⟩
    refine ⟨coherent.listed,coherent.known,coherent.used,coherent.allocated,coherent.listNodup,
      coherent.removing,coherent.removalsNodup,
      (removeMembers mem).nodup_iff.mpr coherent.membersNodup,?_,?_,?_⟩
    · intro c member
      exact coherent.netIds c ((removeMembers mem).mem_iff.mp member)
    · intro c slot has
      obtain ⟨other,was⟩ := kept c slot has
      exact (List.mem_erase_of_ne other).mpr (coherent.slotted c slot was)
    · intro c memC c' memC' slot has has'
      exact coherent.slots c (List.mem_of_mem_erase memC) c' (List.mem_of_mem_erase memC') slot
        (kept c slot has).2 (kept c' slot has').2
  · exact coherent

theorem runDrop (now distance) (coherent : Coherent s.skeleton) : Coherent (s.runDrop now distance).skeleton := by
  unfold Server.runDrop
  split
  · exact coherent
  · rename_i client slotId rest queue
    have dropped : ((s.HandleClientDrop now distance client slotId).freeClient client).skeleton =
        s.skeleton := by
      rw [skeletonFreeClient,skeletonHandleClientDrop]
    have sub : (s.registry ++ rest.map Prod.fst).Sublist s.skeleton.members := by
      have list : s.skeleton.members = s.registry ++ client :: rest.map Prod.fst := by
        unfold Skeleton.members
        rw [show s.skeleton.drops = (client,slotId) :: rest from queue]
        rfl
      rw [list]
      exact (List.sublist_cons_self _ _).append_left _
    have shape : { (s.HandleClientDrop now distance client slotId).freeClient client with
        drops := rest }.skeleton = { s.skeleton with drops := rest } := by
      rw [← dropped]
      rfl
    rw [shape]
    exact ⟨coherent.listed,coherent.known,coherent.used,coherent.allocated,coherent.listNodup,
      coherent.removing,coherent.removalsNodup,coherent.membersNodup.sublist sub,
      fun c mem => coherent.netIds c (sub.subset mem),coherent.slotted,coherent.slots⟩

theorem construct (coherent : Coherent s.skeleton) (x : SyncEntityState) :
    Coherent { s with
      entity := Function.update s.entity s.nextEntity x, nextEntity := s.nextEntity + 1 }.skeleton := by
  have old : ∀ e ∈ s.entityList, (Function.update s.entity s.nextEntity x e).core =
      (s.entity e).core := by
    intro e mem
    have older : e ≠ s.nextEntity := Nat.ne_of_lt (coherent.allocated e mem)
    rw [Function.update_of_ne older]
  refine ⟨?_,?_,?_,fun e mem => Nat.lt_succ_of_lt (coherent.allocated e mem),coherent.listNodup,?_,
    coherent.removalsNodup,coherent.membersNodup,coherent.netIds,coherent.slotted,coherent.slots⟩
  · intro e mem
    have named : (Function.update s.entity s.nextEntity x e).handle = (s.entity e).handle :=
      congrArg Prod.fst (old e mem)
    exact (congrArg s.entitiesById named).trans (coherent.listed e mem)
  · intro id e found
    obtain ⟨mem,named⟩ := coherent.known id e found
    exact ⟨mem,(congrArg Prod.fst (old e mem)).trans named⟩
  · intro e mem
    have named : (Function.update s.entity s.nextEntity x e).handle = (s.entity e).handle :=
      congrArg Prod.fst (old e mem)
    have used : (s.entity e).handle ∈ s.objectIdsUsed := coherent.used e mem
    rw [← named] at used
    exact used
  · intro e mem
    obtain ⟨listed,finalizing⟩ := coherent.removing e mem
    exact ⟨listed,(congrArg (fun core => core.2.2.2) (old e listed)).trans finalizing⟩

end

theorem enlist {k : Skeleton} (coherent : Coherent k) {e : EntityRef} {id : Nat}
    (free : k.entitiesById id = none) (new : e ∉ k.entityList) (named : k.handle e = id)
    (allocated : e < k.nextEntity) :
    Coherent { k with
      entitiesById := Function.update k.entitiesById id (some e)
      used := insert id k.used
      entityList := k.entityList ++ [e] } := by
  have other : ∀ e' ∈ k.entityList, k.handle e' ≠ id := by
    intro e' mem same
    have found := coherent.listed e' mem
    rw [same,free] at found
    contradiction
  refine ⟨?_,?_,?_,?_,?_,?_,coherent.removalsNodup,coherent.membersNodup,coherent.netIds,
    coherent.slotted,coherent.slots⟩
  · intro e' mem
    change Function.update k.entitiesById id (some e) (k.handle e') = some e'
    rcases List.mem_append.mp mem with old | last
    · rw [Function.update_of_ne (other e' old)]
      exact coherent.listed e' old
    · cases List.mem_singleton.mp last
      rw [named,Function.update_self]
  · intro id' e' found
    change Function.update k.entitiesById id (some e) id' = some e' at found
    by_cases same : id' = id
    · subst same
      rw [Function.update_self] at found
      cases Option.some.inj found
      exact ⟨List.mem_append_right _ (List.mem_singleton_self _),named⟩
    · rw [Function.update_of_ne same] at found
      obtain ⟨mem,called⟩ := coherent.known id' e' found
      exact ⟨List.mem_append_left _ mem,called⟩
  · intro e' mem
    rcases List.mem_append.mp mem with old | last
    · exact Finset.mem_insert_of_mem (coherent.used e' old)
    · cases List.mem_singleton.mp last
      exact named.symm ▸ Finset.mem_insert_self id k.used
  · intro e' mem
    rcases List.mem_append.mp mem with old | last
    · exact coherent.allocated e' old
    · cases List.mem_singleton.mp last
      exact allocated
  · exact List.nodup_append'.mpr ⟨coherent.listNodup,List.nodup_singleton _,
      List.disjoint_singleton.mpr new⟩
  · intro e' mem
    obtain ⟨listed,finalizing⟩ := coherent.removing e' mem
    exact ⟨List.mem_append_left _ listed,finalizing⟩

theorem finalize {s : Server} (coherent : Coherent s.skeleton) (e : EntityRef) :
    Coherent (s.FinalizeClone e).skeleton := by
  unfold FinalizeClone
  split
  · rename_i may
    have marked : ∀ e', ((s.modifyEntity e (fun x => { x with finalizing := true })).entity e').handle
        = (s.entity e').handle :=
      fun e' => @entityModifyKeeps s e e' _ SyncEntityState.handle _ (fun _ => rfl)
    have still : ∀ e', (s.entity e').finalizing = true ∨ e' = e →
        ((s.modifyEntity e (fun x => { x with finalizing := true })).entity e').finalizing = true := by
      intro e' was
      rw [entityModify]
      split
      · rfl
      · rename_i other
        exact was.resolve_right other
    have absent : e ∉ s.removals := by
      intro mem
      have flag := (coherent.removing e mem).2
      rw [show s.skeleton.finalizing e = (s.entity e).finalizing from rfl,may.2] at flag
      contradiction
    refine ⟨?_,?_,?_,coherent.allocated,coherent.listNodup,?_,?_,coherent.membersNodup,
      coherent.netIds,coherent.slotted,coherent.slots⟩
    · intro e' mem
      exact (congrArg s.entitiesById (marked e')).trans (coherent.listed e' mem)
    · intro id e' found
      obtain ⟨mem,named⟩ := coherent.known id e' found
      exact ⟨mem,(marked e').trans named⟩
    · intro e' mem
      have used : (s.entity e').handle ∈ s.objectIdsUsed := coherent.used e' mem
      rw [← marked e'] at used
      exact used
    · intro e' mem
      rcases List.mem_append.mp mem with old | last
      · obtain ⟨listed,finalizing⟩ := coherent.removing e' old
        exact ⟨listed,still e' (.inl finalizing)⟩
      · cases List.mem_singleton.mp last
        exact ⟨(coherent.known _ _ may.1).1,still e (.inr rfl)⟩
    · exact List.nodup_append'.mpr ⟨coherent.removalsNodup,List.nodup_singleton _,
        List.disjoint_singleton.mpr absent⟩
  · exact coherent

theorem doRemoveShape (s : Server) (e : EntityRef) :
    (s.doRemove e).skeleton = { s.skeleton with
      entitiesById := Function.update s.entitiesById (s.entity e).handle none
      used := s.objectIdsUsed.erase (s.entity e).handle
      entityList := s.entityList.erase e } := by
  unfold doRemove
  dsimp only
  split
  · cases (s.entity e).client <;> rfl
  · rfl

section
variable {s : Server} (coherent : Coherent s.skeleton)
include coherent

theorem runRemoval : Coherent s.runRemoval.skeleton := by
  unfold Server.runRemoval
  split
  · exact coherent
  · rename_i e rest queue
    have shape : { s.doRemove e with removals := rest }.skeleton = { s.skeleton with
        entitiesById := Function.update s.entitiesById (s.entity e).handle none
        used := s.objectIdsUsed.erase (s.entity e).handle
        entityList := s.entityList.erase e
        removals := rest } :=
      congrArg (fun k : Skeleton => { k with removals := rest }) (doRemoveShape s e)
    have queued : s.skeleton.removals = e :: rest := queue
    have nodup := coherent.removalsNodup
    rw [queued,List.nodup_cons] at nodup
    have listed : e ∈ s.entityList := (coherent.removing e (by rw [queued]; exact List.mem_cons_self)).1
    rw [shape]
    have different : ∀ e', e' ≠ e → e' ∈ s.entityList → s.skeleton.handle e' ≠ (s.entity e).handle :=
      fun e' other old same => other (coherent.sameHandle old listed same)
    refine ⟨?_,?_,?_,fun e' mem => coherent.allocated e' (List.mem_of_mem_erase mem),
      coherent.listNodup.erase e,?_,nodup.2,coherent.membersNodup,coherent.netIds,
      coherent.slotted,coherent.slots⟩
    · intro e' mem
      obtain ⟨other,old⟩ := (coherent.listNodup.mem_erase_iff).mp mem
      exact (Function.update_of_ne (different e' other old) ..).trans (coherent.listed e' old)
    · intro id e' found
      change Function.update s.entitiesById (s.entity e).handle none id = some e' at found
      by_cases same : id = (s.entity e).handle
      · simp [same] at found
      · rw [Function.update_of_ne same] at found
        obtain ⟨mem,named⟩ := coherent.known id e' found
        refine ⟨(coherent.listNodup.mem_erase_iff).mpr ⟨?_,mem⟩,named⟩
        rintro rfl
        exact same named.symm
    · intro e' mem
      obtain ⟨other,old⟩ := (coherent.listNodup.mem_erase_iff).mp mem
      exact Finset.mem_erase.mpr ⟨different e' other old,coherent.used e' old⟩
    · intro e' mem
      obtain ⟨old,finalizing⟩ := coherent.removing e' (by rw [queued]; exact List.mem_cons_of_mem _ mem)
      exact ⟨(coherent.listNodup.mem_erase_iff).mpr ⟨fun same => nodup.1 (same ▸ mem),old⟩,finalizing⟩

theorem processCloneCreate (now client packet) : Coherent (s.ProcessCloneCreate now client packet).skeleton := by
  have built : ∀ type, Coherent (s.constructEntity client packet type).skeleton :=
    fun type => coherent.construct _
  rcases processCloneCreateCases s client now packet with same | ⟨type,free,same | ⟨ready,same,_,eq⟩⟩
  · rw [same]
    exact coherent
  · rw [skeletonOfIds same]
    exact built type
  · have skeleton := skeletonOfIds same
    have base := built type
    rw [← skeleton] at base
    rw [eq]
    refine base.enlist ?_ ?_ ?_ ?_
    · rw [skeleton]
      exact free
    · rw [skeleton]
      exact fun mem => Nat.lt_irrefl _ (coherent.allocated _ mem)
    · rw [skeleton]
      simp [Skeleton.handle,Server.skeleton,constructEntity,SyncEntityState.core,
        SyncEntityState.fresh]
    · rw [skeleton]
      exact Nat.lt_succ_self _

theorem createEntity (type tree rand now) : Coherent (s.CreateEntityFromTree type tree rand now).skeleton := by
  unfold CreateEntityFromTree
  split
  · exact coherent
  · rename_i id found
    have unused : id ∉ s.objectIdsUsed := (freeServerIdFree found).1
    have built := coherent.construct
      { SyncEntityState.fresh type id rand now tree with passedFilter := true, timestamp := now }
    refine built.enlist ?_ ?_ ?_ (Nat.lt_succ_self _)
    · cases taken : s.entitiesById id with
      | none => exact taken
      | some e =>
        obtain ⟨mem,named⟩ := coherent.known id e taken
        exact absurd (named ▸ coherent.used e mem) unused
    · exact fun mem => Nat.lt_irrefl _ (coherent.allocated _ mem)
    · simp [Skeleton.handle,Server.skeleton,SyncEntityState.core,SyncEntityState.fresh]

theorem relevantEntities : Coherent s.relevantEntities.1.skeleton :=
  foldKeeps (fun acc : Server × List EntityRef => Coherent acc.1.skeleton)
    (fun acc e _ base => by
      unfold collect
      dsimp only
      repeat' split
      all_goals first
        | exact base.finalize e
        | exact base)
    coherent

theorem tick (input : TickInput) : Coherent (s.Tick input).skeleton := by
  have styled : Coherent (s.setStyle input).skeleton := coherent.restyled _ _ _
  have collected : Coherent (s.swept input).1.skeleton := styled.relevantEntities
  have passed : ((s.relevancePhase input).updatePhase input).skeleton = (s.swept input).1.skeleton :=
    (skeletonUpdatePhase ..).trans (skeletonOfIds (idsRelevancePhase ..))
  rw [← passed] at collected
  exact collected.restyled _ _ _

theorem step (op : Op) : Coherent (s.step op).skeleton := by
  cases op with
  | connect => exact coherent.connect
  | drop client => exact coherent.restyled _ _ _
  | remove client => exact coherent.remove
  | runDrop now distance => exact coherent.runDrop now distance
  | runRemoval => exact coherent.runRemoval
  | createEntity type tree rand now => exact coherent.createEntity type tree rand now
  | deleteEntity e => exact coherent.same (skeletonOfIds (idsBlind.coarse.deleteEntity s e))
  | removeClone id => exact coherent.same (skeletonOfIds (idsBlind.coarse.removeClone s id))
  | passFilter e => exact coherent.same (skeletonModifyEntity s e (by intro _; rfl))
  | setOrphanMode e mode => exact coherent.same (skeletonModifyEntity s e (by intro _; rfl))
  | setEntityBucket e bucket => exact coherent.same (skeletonModifyEntity s e (by intro _; rfl))
  | setClientBucket client bucket => exact coherent
  | tick input => exact coherent.tick input
  | fromClient client now protect op =>
    unfold Server.step
    dsimp only
    split
    · cases op with
      | requestObjectIds n => exact coherent.same (skeletonOwnerless.unowned.takeFreeIds s client _ n)
      | cloneCreate packet => exact coherent.processCloneCreate now client packet
      | cloneSync packet => exact coherent.same (skeletonOfIds (idsBaseless.processCloneSync s client now packet))
      | cloneTakeover target id =>
        exact coherent.same (skeletonOwnerless.unowned.processCloneTakeover s client now target id)
      | cloneRemove id uniq =>
        exact coherent.same (skeletonOfIds (idsBlind.coarse.processCloneRemove s client protect id uniq))
      | timestamp ts => exact coherent.same (skeletonOfIds (idsBlind.coarse.setTimestamp s client ts))
      | frameIndex index => exact coherent
      | ackCreate id uniq => exact coherent.same (skeletonOfIds (idsBlind.coarse.ackCreate s client id uniq))
      | ackRemove id uniq => exact coherent.same (skeletonOfIds (idsBlind.coarse.ackRemove s client id uniq))
      | nack packet =>
        obtain ⟨dropping,shape⟩ := idsHandleGameStateNAck s client packet
        exact (coherent.restyled _ _ dropping).same (congrArg Ids.skeleton shape)
      | ack packet => exact coherent.same (skeletonOfIds (idsHandleGameStateAck s client packet))
    · exact coherent

end

end Coherent

/-- Whatever the clients send and in whatever order, the entity list, the table of ids, the removals and the slots agree. -/
theorem coherentThroughout (bigMode lengthHack : Bool) (ops : List Op) :
    Throughout Server.step (fun s : Server => Coherent s.skeleton) (.init bigMode lengthHack) ops :=
  throughoutOfKept (fun s : Server => Coherent s.skeleton) (fun _ op coherent _ => coherent.step op)
    (.init bigMode lengthHack) alongAlways

end Citizen.State
