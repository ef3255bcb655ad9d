import Citizen.State.TrainLinks

/-! The operations that go along a train: `ReassignEntity` and `DeleteEntity`. A traversal
that comes back to the train it began at calls its function on that one again. -/
namespace Citizen.State
namespace Server
open Chase

def reassigned (now : Nat) (targetClient : Option ClientId) (s : Server) (entityHandle : Nat) : List Nat :=
  let moved := s.ReassignEntityInner now targetClient entityHandle
  match moved.GetTrain entityHandle with
  | none => [entityHandle]
  | some train => entityHandle :: (moved.trainLinks train).map (fun link => (moved.entity link).handle)

def refused (IgnoreTrainChecks : Bool) (s : Server) (e : EntityRef) : Bool :=
  !IgnoreTrainChecks && (s.entity e).syncTree.trainState.any (fun train =>
    train.engineCarriage != 0 && train.engineCarriage != (s.entity e).handle)

def deleted (IgnoreTrainChecks : Bool) (s : Server) (e : EntityRef) : List Nat :=
  if (s.entity e).type = .Player then []
  else if s.refused IgnoreTrainChecks e then []
  else if (s.entity e).type = .Train then (e :: s.trainLinks e).map (fun link => (s.entity link).handle)
  else [(s.entity e).handle]

theorem reassignEntityReassigned (now : Nat) (targetClient : Option ClientId) (s : Server) (entityHandle : Nat) :
    s.ReassignEntity now targetClient entityHandle =
      (s.reassigned now targetClient entityHandle).foldl (ReassignEntityInner now targetClient) s := by
  unfold ReassignEntity reassigned
  dsimp only
  cases (ReassignEntityInner now targetClient s entityHandle).GetTrain entityHandle <;> rfl

theorem deleteEntityDeleted (s : Server) (e : EntityRef) :
    s.DeleteEntity e = (s.deleted false e).foldl RemoveClone s := by
  unfold DeleteEntity deleted refused
  rw [Bool.not_false,Bool.true_and]
  split
  · rfl
  · split
    · rfl
    · split <;> rfl

section Reassign
variable {s : Server} {now : Nat} {targetClient : Option ClientId}

theorem entityForceResend (e : EntityRef) (s : Server) (c : ClientId) : (forceResend e s c).entity = s.entity := by
  unfold forceResend
  split
  · rfl
  · split <;> rfl

theorem entityReassignInner {h : Nat} {e : EntityRef} (found : s.GetEntity h = some e)
    (movable : (s.entity e).type ≠ .Player) :
    (ReassignEntityInner now targetClient s h).entity = (s.modifyEntity e (fun x =>
      { x with lastMigratedAt := now, lastOwner := (s.entity e).client, client := targetClient })).entity := by
  unfold ReassignEntityInner
  rw [found]
  simp only
  rw [if_neg movable]
  refine (foldSame Server.entity (fun s' c => entityForceResend e s' c)).trans ?_
  cases (s.entity e).client <;> cases targetClient <;> rfl

theorem reassignInnerElse {h : Nat} (rest : ∀ e,s.GetEntity h = some e → (s.entity e).type = .Player) :
    ReassignEntityInner now targetClient s h = s := by
  unfold ReassignEntityInner
  split
  · rfl
  · rename_i e found
    rw [if_pos (rest e found)]

theorem reassignInnerKeeps {α : Type} (part : SyncEntityState → α)
    (kept : ∀ x : SyncEntityState,∀ at' last client,
      part { x with lastMigratedAt := at', lastOwner := last, client := client } = part x) (h : Nat) (e : EntityRef) :
    part ((ReassignEntityInner now targetClient s h).entity e) = part (s.entity e) := by
  by_cases moves : ∃ e,s.GetEntity h = some e ∧ (s.entity e).type ≠ .Player
  · obtain ⟨e',found,movable⟩ := moves
    rw [entityReassignInner found movable]
    exact entityModifyKeeps s e' e (fun x => kept x _ _ _)
  · rw [reassignInnerElse (fun e' found => by_contra (fun movable => moves ⟨e',found,movable⟩))]

theorem sameTrainsReassignInner (h : Nat) : SameTrains s (ReassignEntityInner now targetClient s h) where
  known := fun id => congrFun (congrArg Skeleton.entitiesById (skeletonOwnerless.unowned.reassignEntityInner s now targetClient h)) id
  types := reassignInnerKeeps SyncEntityState.type (fun _ _ _ _ => rfl) h
  handles := reassignInnerKeeps SyncEntityState.handle (fun _ _ _ _ => rfl) h
  links := reassignInnerKeeps (fun x => x.syncTree.trainState) (fun _ _ _ _ => rfl) h

def tenure (s : Server) (e : EntityRef) : Option ClientId × Option ClientId :=
  ((s.entity e).client,(s.entity e).lastOwner)

theorem tenureReassignInner {h : Nat} {e : EntityRef} (listed : s.Listed e) (movable : (s.entity e).type ≠ .Player)
    (named : h = s.handleOf e) :
    (ReassignEntityInner now targetClient s h).tenure e = (targetClient,(s.entity e).client) := by
  subst named
  unfold tenure
  rw [@entityReassignInner s now targetClient (s.handleOf e) e listed movable,entityModifySelf]

theorem tenureReassignOther (coherent : Coherent s.skeleton) {h : Nat} {e : EntityRef} (other : h ≠ s.handleOf e) :
    (ReassignEntityInner now targetClient s h).tenure e = s.tenure e := by
  by_cases moves : ∃ e,s.GetEntity h = some e ∧ (s.entity e).type ≠ .Player
  · obtain ⟨e',found,movable⟩ := moves
    have different : e ≠ e' := by
      rintro rfl
      exact other (coherent.known h e found).2.symm
    unfold tenure
    rw [entityReassignInner found movable,entityModifyOther s different]
  · rw [reassignInnerElse (fun e' found => by_contra (fun movable => moves ⟨e',found,movable⟩))]

theorem tenureReassignEach {handles : List Nat} (coherent : Coherent s.skeleton) (once : handles.Nodup) {e : EntityRef}
    (listed : s.Listed e) (movable : (s.entity e).type ≠ .Player) :
    (handles.foldl (ReassignEntityInner now targetClient) s).tenure e =
      if s.handleOf e ∈ handles then (targetClient,(s.entity e).client) else s.tenure e := by
  induction handles generalizing s with
  | nil => rfl
  | cons h rest ih =>
    have same : SameTrains s (ReassignEntityInner now targetClient s h) := sameTrainsReassignInner h
    have named : (ReassignEntityInner now targetClient s h).handleOf e = s.handleOf e := same.handles e
    have still : (ReassignEntityInner now targetClient s h).Listed e :=
      (congrArg _ (same.handles e)).trans ((same.known _).trans listed)
    obtain ⟨absent,once⟩ := List.nodup_cons.mp once
    rw [List.foldl_cons,ih (coherent.same (skeletonOwnerless.unowned.reassignEntityInner ..)) once still
      (by rw [same.types]; exact movable),named]
    by_cases here : h = s.handleOf e
    · rw [if_neg (here ▸ absent),if_pos (here ▸ List.mem_cons_self)]
      exact tenureReassignInner listed movable here
    · have elsewhere := @tenureReassignOther s now targetClient coherent h e here
      rw [elsewhere]
      have owner : ((ReassignEntityInner now targetClient s h).entity e).client = (s.entity e).client :=
        congrArg Prod.fst elsewhere
      rw [owner]
      simp only [List.mem_cons,Ne.symm here,false_or]

end Reassign

structure CalledOnce (s : Server) (initialTrain : EntityRef) : Prop where
  called : ∀ {σ : Type} (server : σ → Server) (fn : σ → EntityRef → Bool × σ) (st : σ) (callOnInitialEntity : Bool),
    Steady server fn → SameTrains s (server st) →
      ∃ calls last,IterateTrainLink server fn initialTrain callOnInitialEntity st = some (calls,last) ∧
        (calls.map (fun call => s.handleOf call.1)).Nodup ∧
        (callOnInitialEntity = false → s.handleOf initialTrain ∉ calls.map (fun call => s.handleOf call.1)) ∧
        (∀ call ∈ calls.dropLast,call.2 = true) ∧
        ((∀ call ∈ calls,call.2 = true) → ∀ e,
          s.Chain initialTrain e ∨ (callOnInitialEntity = true ∧ e = initialTrain) → e ∈ calls.map Prod.fst)
  migrated : ∀ now targetClient,s.GetTrain (s.handleOf initialTrain) = some initialTrain →
    ∀ e,s.Chain initialTrain e ∨ e = initialTrain →
      (s.reassigned now targetClient (s.handleOf initialTrain)).count (s.handleOf e) = 1 ∧
        (s.ReassignEntity now targetClient (s.handleOf initialTrain)).tenure e = (targetClient,(s.entity e).client)
  removed : ∀ IgnoreTrainChecks,(s.entity initialTrain).type = .Train → s.refused IgnoreTrainChecks initialTrain = false →
    ∀ e,s.Chain initialTrain e ∨ e = initialTrain →
      (s.deleted IgnoreTrainChecks initialTrain).count (s.handleOf e) = 1

def CalledEverywhere (s : Server) (linkedToForwardId : EntityRef → Nat) (initialTrain : EntityRef) : Prop :=
  ∀ {σ : Type} (server : σ → Server) (fn : σ → EntityRef → Bool × σ) (st last : σ) (callOnInitialEntity : Bool) calls,
    Steady server fn → SameTrains s (server st) →
      IterateTrainLink server fn initialTrain callOnInitialEntity st = some (calls,last) →
        (∀ call ∈ calls,call.2 = true) →
          ∀ e,Relation.ReflTransGen (s.Joined linkedToForwardId) initialTrain e →
            e = initialTrain ∨ e ∈ calls.map Prod.fst

section Claim
variable {s : Server} {initialTrain : EntityRef}

theorem getTrainType {id : Nat} {e : EntityRef} (found : s.GetTrain id = some e) : (s.entity e).type = .Train := by
  unfold GetTrain at found
  split at found
  · cases found
  · simpa using (Option.filter_eq_some_iff.mp found).2

theorem chainTrain {e : EntityRef} (chain : s.Chain initialTrain e) : (s.entity e).type = .Train := by
  have next {e link : EntityRef} (found : s.GetNextTrain e = some link) : (s.entity link).type = .Train := by
    unfold GetNextTrain at found
    split at found
    · cases found
    · exact getTrainType found
  cases chain with
  | engine linked carriage other found => exact getTrainType found
  | behind linked isEngine found => exact next found
  | next before found => exact next found

theorem nextJoined {linkedToForwardId : EntityRef → Nat} {e link : EntityRef} (found : s.GetNextTrain e = some link) :
    s.Joined linkedToForwardId e link := by
  unfold GetNextTrain at found
  split at found
  · cases found
  · rename_i train linked
    exact ⟨train,linked,.inr (.inl found)⟩

theorem chainJoined (linkedToForwardId : EntityRef → Nat) {e : EntityRef} (chain : s.Chain initialTrain e) :
    Relation.ReflTransGen (s.Joined linkedToForwardId) initialTrain e := by
  induction chain with
  | engine linked carriage other found => exact .single ⟨_,linked,.inl found⟩
  | behind linked isEngine found => exact .single (nextJoined found)
  | next before found ih => exact ih.tail (nextJoined found)

theorem visitedOnce (apart : ∀ e,s.Chain initialTrain e → s.handleOf e ≠ s.handleOf initialTrain)
    (callOnInitialEntity : Bool) : ((s.visited initialTrain callOnInitialEntity).map s.handleOf).Nodup := by
  unfold visited
  split
  · rw [List.map_cons,List.nodup_cons]
    refine ⟨fun mem => ?_,trainLinksOnce⟩
    obtain ⟨e,mem,same⟩ := List.mem_map.mp mem
    exact apart e (trainLinksChain mem) same
  · exact trainLinksOnce

theorem reassignedVisited (now : Nat) (targetClient : Option ClientId)
    (train : s.GetTrain (s.handleOf initialTrain) = some initialTrain) :
    s.reassigned now targetClient (s.handleOf initialTrain) =
      (initialTrain :: s.trainLinks initialTrain).map s.handleOf := by
  have same : SameTrains s (s.ReassignEntityInner now targetClient (s.handleOf initialTrain)) := sameTrainsReassignInner _
  unfold reassigned
  simp only [same.getTrain,train,same.trainLinks,same.handles]
  rfl

variable (coherent : Coherent s.skeleton) (bounded : ∀ id e,s.GetEntity id = some e → id < MaxObjectId)
include coherent bounded

section
variable (apart : ∀ e,s.Chain initialTrain e → s.handleOf e ≠ s.handleOf initialTrain)
include apart

theorem countVisited {e : EntityRef} (on : s.Chain initialTrain e ∨ e = initialTrain) :
    ((initialTrain :: s.trainLinks initialTrain).map s.handleOf).count (s.handleOf e) = 1 := by
  refine List.count_eq_one_of_mem (visitedOnce apart true) (List.mem_map_of_mem ?_)
  rcases on with chain | rfl
  · exact List.mem_cons_of_mem _ (chainTrainLinks coherent bounded chain)
  · exact List.mem_cons_self

theorem calledVisited {σ : Type}
    {server : σ → Server} {fn : σ → EntityRef → Bool × σ} {st : σ} (callOnInitialEntity : Bool)
    (steady : Steady server fn) (same : SameTrains s (server st)) :
    ∃ calls last,IterateTrainLink server fn initialTrain callOnInitialEntity st = some (calls,last) ∧
      (calls.map (fun call => s.handleOf call.1)).Nodup ∧
      (callOnInitialEntity = false → s.handleOf initialTrain ∉ calls.map (fun call => s.handleOf call.1)) ∧
      (∀ call ∈ calls.dropLast,call.2 = true) ∧ ((∀ call ∈ calls,call.2 = true) → ∀ e,
        s.Chain initialTrain e ∨ (callOnInitialEntity = true ∧ e = initialTrain) → e ∈ calls.map Prod.fst) := by
  have made := @callEachPrefix _ _ fn (s.visited initialTrain callOnInitialEntity) st
  have handles : ∀ calls : List (EntityRef × Bool),
      calls.map (fun call => s.handleOf call.1) = (calls.map Prod.fst).map s.handleOf := fun calls => by
    rw [List.map_map]
    rfl
  refine ⟨_,_,iterateTrainLinkEach coherent bounded steady same callOnInitialEntity,?_,?_,callEachGoesOn _ _,?_⟩
  · rw [handles]
    exact (visitedOnce apart callOnInitialEntity).sublist (made.sublist.map _)
  · rintro rfl
    rw [handles]
    intro mem
    obtain ⟨e,mem,named⟩ := List.mem_map.mp mem
    exact apart e (trainLinksChain (made.subset mem)) named
  · intro goesOn e on
    rw [callEachAll goesOn]
    unfold visited
    rcases on with chain | ⟨rfl,rfl⟩
    · have mem := chainTrainLinks coherent bounded chain
      split
      · exact List.mem_cons_of_mem _ mem
      · exact mem
    · exact List.mem_cons_self

end

theorem calledOnceIff : CalledOnce s initialTrain ↔
    ∀ e,s.Chain initialTrain e → s.handleOf e ≠ s.handleOf initialTrain := by
  constructor
  · intro once e chain same
    obtain ⟨calls,last,ran,-,apart,-,-⟩ := once.called id (fun s _ => (true,s)) s false (fun _ _ => .refl _) (.refl s)
    rw [iterateTrainLinkEach coherent bounded (fun _ _ => .refl _) (.refl s),
      @callEachAlways _ _ (fun s _ => s)] at ran
    cases ran
    refine apart rfl (List.mem_map.mpr ⟨(e,true),?_,same⟩)
    exact List.mem_map.mpr ⟨e,chainTrainLinks coherent bounded chain,rfl⟩
  · intro apart
    refine ⟨fun _ _ _ => calledVisited coherent bounded apart,fun now targetClient train e on => ?_,
      fun IgnoreTrainChecks train kept e on => ?_⟩
    · have counted := countVisited coherent bounded apart on
      have listed : s.Listed e := on.elim (chainListed coherent) (fun same => same ▸ (getTrainListed coherent train).1)
      have movable : (s.entity e).type ≠ .Player := by
        have isTrain : (s.entity e).type = .Train := on.elim chainTrain (fun same => same ▸ getTrainType train)
        simp [isTrain]
      have once : ((initialTrain :: s.trainLinks initialTrain).map s.handleOf).Nodup := visitedOnce apart true
      rw [reassignEntityReassigned,reassignedVisited now targetClient train]
      refine ⟨counted,?_⟩
      rw [tenureReassignEach coherent once listed movable,
        if_pos (List.count_pos_iff.mp (counted ▸ Nat.one_pos))]
    · have list : s.deleted IgnoreTrainChecks initialTrain = (initialTrain :: s.trainLinks initialTrain).map s.handleOf := by
        simp only [deleted,train,kept]
        rfl
      rw [list]
      exact countVisited coherent bounded apart on

theorem calledEverywhereIff (linkedToForwardId : EntityRef → Nat) :
    CalledEverywhere s linkedToForwardId initialTrain ↔
      ∀ e,e = initialTrain ∨ s.Chain initialTrain e → ∀ link,s.Joined linkedToForwardId e link →
        link = initialTrain ∨ s.Chain initialTrain link := by
  constructor
  · intro everywhere e on link joined
    have path : Relation.ReflTransGen (s.Joined linkedToForwardId) initialTrain e :=
      on.elim (fun same => same ▸ .refl) (chainJoined linkedToForwardId)
    have ran := everywhere id (fun s _ => (true,s)) s s false ((s.trainLinks initialTrain).map (·,true))
      (fun _ _ => .refl _) (.refl s) ?_ ?_ link (path.tail joined)
    · rcases ran with rfl | mem
      · exact .inl rfl
      · refine .inr (trainLinksChain ?_)
        simpa using mem
    · rw [iterateTrainLinkEach coherent bounded (fun _ _ => .refl _) (.refl s),
        @callEachAlways _ _ (fun s _ => s)]
      simp [visited]
    · simp
  · intro closed σ server fn st last callOnInitialEntity calls steady same ran goesOn e path
    have on : e = initialTrain ∨ s.Chain initialTrain e := by
      induction path with
      | refl => exact .inl rfl
      | tail _ joined ih => exact closed _ ih _ joined
    rw [iterateTrainLinkEach coherent bounded steady same] at ran
    have made : (callEach fn (s.visited initialTrain callOnInitialEntity) st).1 = calls :=
      congrArg Prod.fst (Option.some.inj ran)
    subst made
    rw [callEachAll goesOn]
    refine on.imp id (fun chain => ?_)
    have mem := chainTrainLinks coherent bounded chain
    unfold visited
    split
    · exact List.mem_cons_of_mem _ mem
    · exact mem

theorem trainsCalledOnce (linkedToForwardId : EntityRef → Nat) :
    (CalledOnce s initialTrain ↔ ∀ e,s.Chain initialTrain e → s.handleOf e ≠ s.handleOf initialTrain) ∧
    (CalledEverywhere s linkedToForwardId initialTrain ↔
      ∀ e,e = initialTrain ∨ s.Chain initialTrain e → ∀ link,s.Joined linkedToForwardId e link →
        link = initialTrain ∨ s.Chain initialTrain link) :=
  ⟨calledOnceIff coherent bounded,calledEverywhereIff coherent bounded linkedToForwardId⟩

end Claim

def engineTree (behind : Nat) : SyncTree := { SyncTree.empty with trainState := some ⟨true,0,behind⟩ }
def carriageTree (engine behind : Nat) : SyncTree := { SyncTree.empty with trainState := some ⟨false,engine,behind⟩ }

def shortTrain : Server :=
  ((Server.init false false).CreateEntityFromTree .Train (engineTree 8190) 0 0).CreateEntityFromTree
    .Train (carriageTree 8191 0) 0 0

theorem shortTrainCoherent : Coherent shortTrain.skeleton :=
  ((Coherent.init false false).createEntity _ _ _ _).createEntity _ _ _ _

theorem shortTrainBounded : ∀ id e,shortTrain.GetEntity id = some e → id < MaxObjectId := by
  intro id e found
  have ids : shortTrain.entitiesById =
      Function.update (Function.update (fun _ => none) 8191 (some 0)) 8190 (some 1) := by rfl
  rw [show shortTrain.GetEntity id = shortTrain.entitiesById id from rfl,ids] at found
  simp only [Function.update_apply] at found
  split at found
  · subst id
    decide
  · split at found
    · subst id
      decide
    · cases found

theorem shortTrainOnce : CalledOnce shortTrain 0 ∧ CalledEverywhere shortTrain (fun _ => 0) 0 := by
  have links : ∀ e,shortTrain.Chain 0 e → e = 1 := fun e chain => by
    have mem := chainTrainLinks shortTrainCoherent shortTrainBounded chain
    rw [show shortTrain.trainLinks 0 = [1] from rfl] at mem
    exact List.mem_singleton.mp mem
  obtain ⟨once,everywhere⟩ := @trainsCalledOnce _ 0 shortTrainCoherent shortTrainBounded (fun _ => 0)
  refine ⟨once.mpr (fun e chain => links e chain ▸ by decide),everywhere.mpr ?_⟩
  have behind : shortTrain.Chain 0 1 := .behind rfl rfl (by decide)
  rintro e on link ⟨train,linked,found⟩
  have known : ∀ id,shortTrain.GetTrain id = some link → link = 0 ∨ link = 1 := fun id found => by
    have listed := (shortTrainCoherent.known id link (getTrainEntity found).2).1
    have list : shortTrain.skeleton.entityList = [0,1] := rfl
    simpa [list] using listed
  have named : link = 0 ∨ link = 1 := by rcases found with found | found | found <;> exact known _ found
  rcases named with rfl | rfl
  · exact .inl rfl
  · exact .inr behind

theorem carriageCalledAgain :
    (IterateTrainLink id (fun s _ => (true,s)) 1 false shortTrain).map Prod.fst = some [(0,true),(1,true)] ∧
    shortTrain.reassigned 0 (some 2) 8190 = [8190,8191,8190] ∧
    ((shortTrain.ReassignEntity 0 (some 1) 8191).ReassignEntity 0 (some 2) 8190).tenure 1 = (some 2,some 2) ∧
    ¬ CalledOnce shortTrain 1 := by
  refine ⟨rfl,rfl,rfl,fun once => ?_⟩
  have train : shortTrain.GetTrain (shortTrain.handleOf 1) = some 1 := by decide
  have counted := (once.migrated 0 (some 2) train 1 (.inr rfl)).1
  rw [show shortTrain.reassigned 0 (some 2) (shortTrain.handleOf 1) = [8190,8191,8190] from rfl,
    show shortTrain.handleOf 1 = 8190 from rfl] at counted
  simp at counted

end Server
end Citizen.State
