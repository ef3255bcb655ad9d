import Citizen.Lib.Chase
import Citizen.State.Coherence

/-! `IterateTrainLink` over trains that are linked in any way, with a function that may stop
it. -/
namespace Citizen.State
namespace Server
open Chase

section Traversal
variable {σ : Type} (server : σ → Server) (fn : σ → EntityRef → Bool × σ)

def callThen (e : EntityRef) (rest : σ → Option (List (EntityRef × Bool) × σ)) (st : σ) :
    Option (List (EntityRef × Bool) × σ) :=
  let answer := fn st e
  if answer.1 then (rest answer.2).map (fun later => ((e,true) :: later.1,later.2))
  else some ([(e,false)],answer.2)

def callLinks : Nat → List Nat → Nat → Option EntityRef → σ → Option (List (EntityRef × Bool) × σ)
  | _,_,_,none,st => some ([],st)
  | 0,_,_,_,_ => none
  | fuel + 1,processedTrains,duplicateEntityIds,some link,st =>
    if ((server st).entity link).handle ∈ processedTrains then
      if duplicateEntityIds + 1 > kMaxDuplicateEntityIds then some ([],st)
      else callLinks fuel processedTrains (duplicateEntityIds + 1) ((server st).GetNextTrain link) st
    else callThen fn link (fun st' => callLinks fuel (((server st).entity link).handle :: processedTrains)
      duplicateEntityIds ((server st').GetNextTrain link) st') st

def callTrain (initialTrain : EntityRef) (st : σ) : Option (List (EntityRef × Bool) × σ) :=
  match ((server st).entity initialTrain).syncTree.trainState with
  | none => some ([],st)
  | some train =>
    if train.isEngine then callLinks server fn trainFuel [] 0 ((server st).GetNextTrain initialTrain) st
    else if train.engineCarriage ≠ 0 ∧
        train.engineCarriage ≠ ((server st).entity initialTrain).handle then
      match (server st).GetTrain train.engineCarriage with
      | none => some ([],st)
      | some engine =>
        callThen fn engine (fun st' => callLinks server fn trainFuel [((server st').entity engine).handle] 0
          ((server st').GetNextTrain engine) st') st
    else some ([],st)

def IterateTrainLink (initialTrain : EntityRef) (callOnInitialEntity : Bool) (st : σ) :
    Option (List (EntityRef × Bool) × σ) :=
  if callOnInitialEntity then callThen fn initialTrain (callTrain server fn initialTrain) st
  else callTrain server fn initialTrain st

end Traversal

structure SameTrains (s s' : Server) : Prop where
  known : ∀ id,s'.GetEntity id = s.GetEntity id
  types : ∀ e,(s'.entity e).type = (s.entity e).type
  handles : ∀ e,(s'.entity e).handle = (s.entity e).handle
  links : ∀ e,(s'.entity e).syncTree.trainState = (s.entity e).syncTree.trainState

namespace SameTrains
variable {s s' s'' : Server}

theorem refl (s : Server) : SameTrains s s :=
  ⟨fun _ => rfl,fun _ => rfl,fun _ => rfl,fun _ => rfl⟩

theorem trans (first : SameTrains s s') (second : SameTrains s' s'') : SameTrains s s'' where
  known := fun id => (second.known id).trans (first.known id)
  types := fun e => (second.types e).trans (first.types e)
  handles := fun e => (second.handles e).trans (first.handles e)
  links := fun e => (second.links e).trans (first.links e)

section
variable (same : SameTrains s s')
include same

theorem getTrain (id : Nat) : s'.GetTrain id = s.GetTrain id := by
  simp [GetTrain,same.known,same.types]

theorem next (e : EntityRef) : s'.GetNextTrain e = s.GetNextTrain e := by
  simp [GetNextTrain,same.links,same.getTrain]

theorem recurseTrain (fuel : Nat) (met : List Nat) (again : Nat) (start : Option EntityRef) :
    s'.recurseTrain fuel met again start = s.recurseTrain fuel met again start := by
  induction fuel generalizing met again start with
  | zero => rfl
  | succ fuel ih =>
    cases start with
    | none => rfl
    | some link => simp only [Server.recurseTrain,same.handles,same.next,ih]

theorem trainLinks (e : EntityRef) : s'.trainLinks e = s.trainLinks e := by
  simp only [Server.trainLinks,same.links,same.next,same.handles,same.getTrain,same.recurseTrain]

end

end SameTrains

def Steady {σ : Type} (server : σ → Server) (fn : σ → EntityRef → Bool × σ) : Prop :=
  ∀ st e,SameTrains (server st) (server (fn st e).2)

inductive Chain (s : Server) (initialTrain : EntityRef) : EntityRef → Prop where
  | engine {train : TrainState} {engine : EntityRef}
      (linked : (s.entity initialTrain).syncTree.trainState = some train) (carriage : train.isEngine = false)
      (other : train.engineCarriage ≠ (s.entity initialTrain).handle)
      (found : s.GetTrain train.engineCarriage = some engine) : Chain s initialTrain engine
  | behind {train : TrainState} {link : EntityRef}
      (linked : (s.entity initialTrain).syncTree.trainState = some train) (isEngine : train.isEngine = true)
      (found : s.GetNextTrain initialTrain = some link) : Chain s initialTrain link
  | next {e link : EntityRef} (before : Chain s initialTrain e) (found : s.GetNextTrain e = some link) :
      Chain s initialTrain link

def Joined (s : Server) (linkedToForwardId : EntityRef → Nat) (e link : EntityRef) : Prop :=
  ∃ train,(s.entity e).syncTree.trainState = some train ∧
    (s.GetTrain train.engineCarriage = some link ∨ s.GetTrain train.linkedToBackwardId = some link ∨
      s.GetTrain (linkedToForwardId e) = some link)

def Listed (s : Server) (e : EntityRef) : Prop := s.GetEntity (s.entity e).handle = some e

def handleOf (s : Server) (e : EntityRef) : Nat := (s.entity e).handle

section Links
variable {s : Server} {initialTrain : EntityRef}

theorem getTrainEntity {id : Nat} {e : EntityRef} (found : s.GetTrain id = some e) :
    id ≠ 0 ∧ s.GetEntity id = some e := by
  unfold GetTrain at found
  split at found
  · cases found
  · exact ⟨‹_›,(Option.filter_eq_some_iff.mp found).1⟩

section
variable (coherent : Coherent s.skeleton)
include coherent

theorem getTrainListed {id : Nat} {e : EntityRef}
    (found : s.GetTrain id = some e) : s.Listed e ∧ (s.entity e).handle = id := by
  have entity := (getTrainEntity found).2
  have named : (s.entity e).handle = id := (coherent.known id e entity).2
  exact ⟨(congrArg s.GetEntity named).trans entity,named⟩

theorem getNextTrainListed {e link : EntityRef} (found : s.GetNextTrain e = some link) : s.Listed link := by
  unfold GetNextTrain at found
  split at found
  · cases found
  · exact (getTrainListed coherent found).1

theorem linksNamed : Named s.GetNextTrain s.handleOf s.Listed where
  led := getNextTrainListed coherent
  same := fun {a b} listed listed' same => by
    have found : s.GetEntity (s.entity a).handle = some a := listed
    rw [show (s.entity a).handle = (s.entity b).handle from same,show s.GetEntity _ = some b from listed'] at found
    exact (Option.some.inj found).symm

end

theorem recurseTrainChase (fuel : Nat) (met : List Nat) (again : Nat) (start : Option EntityRef) :
    s.recurseTrain fuel met again start = chase s.GetNextTrain s.handleOf kMaxDuplicateEntityIds fuel met again start := by
  induction fuel generalizing met again start with
  | zero => cases start <;> rfl
  | succ fuel ih =>
    cases start with
    | none => rfl
    | some link =>
      unfold recurseTrain chase
      simp only [ih]
      rfl

theorem chainListed (coherent : Coherent s.skeleton) {e : EntityRef} (chain : s.Chain initialTrain e) : s.Listed e := by
  induction chain with
  | engine linked carriage other found => exact (getTrainListed coherent found).1
  | behind linked isEngine found => exact getNextTrainListed coherent found
  | next before found ih => exact getNextTrainListed coherent found

theorem Chain.led {e link : EntityRef} (chain : s.Chain initialTrain e)
    (path : Relation.ReflTransGen (Leads s.GetNextTrain) e link) : s.Chain initialTrain link := by
  induction path with
  | refl => exact chain
  | tail _ found ih => exact ih.next found

theorem trainFuelEnough (met : List Nat) :
    Visit.unseen (List.range MaxObjectId) met + (kMaxDuplicateEntityIds - 0) < trainFuel := by
  have most : Visit.unseen (List.range MaxObjectId) met ≤ MaxObjectId :=
    (List.length_filter_le _ _).trans_eq List.length_range
  simp only [trainFuel]
  omega

theorem trainLinksOnce : ((s.trainLinks initialTrain).map s.handleOf).Nodup := by
  unfold trainLinks
  split
  · exact List.nodup_nil
  · split
    · rw [recurseTrainChase]
      exact chaseFresh.2
    · split
      · split
        · exact List.nodup_nil
        · rename_i engine _
          rw [recurseTrainChase,List.map_cons,List.nodup_cons]
          refine ⟨fun mem => ?_,chaseFresh.2⟩
          obtain ⟨link,mem,same⟩ := List.mem_map.mp mem
          exact chaseFresh.1 link mem (List.mem_singleton.mpr same)
      · exact List.nodup_nil

theorem trainLinksChain {e : EntityRef} (mem : e ∈ s.trainLinks initialTrain) : s.Chain initialTrain e := by
  unfold trainLinks at mem
  split at mem
  · cases mem
  · rename_i train linked
    split at mem
    · rename_i isEngine
      rw [recurseTrainChase] at mem
      obtain ⟨first,found,path⟩ := chaseLed mem
      exact (Chain.behind linked isEngine found).led path
    · rename_i carriage
      split at mem
      · rename_i other
        split at mem
        · cases mem
        · rename_i engine found
          have front : s.Chain initialTrain engine := .engine linked (Bool.eq_false_of_not_eq_true carriage) other.2 found
          rcases List.mem_cons.mp mem with rfl | mem
          · exact front
          · rw [recurseTrainChase] at mem
            obtain ⟨first,found,path⟩ := chaseLed mem
            exact (front.next found).led path
      · cases mem

theorem trainLinksBehind {train : TrainState} (linked : (s.entity initialTrain).syncTree.trainState = some train)
    (isEngine : train.isEngine = true) :
    s.trainLinks initialTrain = s.recurseTrain trainFuel [] 0 (s.GetNextTrain initialTrain) := by
  simp [trainLinks,linked,isEngine]

theorem trainLinksEngine {train : TrainState} {engine : EntityRef}
    (linked : (s.entity initialTrain).syncTree.trainState = some train) (carriage : train.isEngine = false)
    (other : train.engineCarriage ≠ (s.entity initialTrain).handle)
    (found : s.GetTrain train.engineCarriage = some engine) : s.trainLinks initialTrain =
      engine :: s.recurseTrain trainFuel [(s.entity engine).handle] 0 (s.GetNextTrain engine) := by
  simp [trainLinks,linked,carriage,other,found,(getTrainEntity found).1]

variable (coherent : Coherent s.skeleton) (bounded : ∀ id e,s.GetEntity id = some e → id < MaxObjectId)
include coherent bounded

theorem chaseTrain {met : List Nat} {start : Option EntityRef}
    (trailed : Trailed s.GetNextTrain s.handleOf s.Listed met start) (starts : ∀ a,start = some a → s.Listed a) :
    Closed s.GetNextTrain s.handleOf s.Listed (met ++ (s.recurseTrain trainFuel met 0 start).map s.handleOf) ∧
      ∀ a,start = some a → s.handleOf a ∈ met ++ (s.recurseTrain trainFuel met 0 start).map s.handleOf := by
  have known : ∀ e,s.Listed e → s.handleOf e ∈ List.range MaxObjectId :=
    fun e listed => List.mem_range.mpr (bounded _ e listed)
  simp only [recurseTrainChase]
  exact chaseCovers (linksNamed coherent) known trailed starts (Nat.zero_le _) (trainFuelEnough met)

theorem chaseBehind : Closed s.GetNextTrain s.handleOf s.Listed
      ((s.recurseTrain trainFuel [] 0 (s.GetNextTrain initialTrain)).map s.handleOf) ∧
    ∀ a,s.GetNextTrain initialTrain = some a →
      s.handleOf a ∈ (s.recurseTrain trainFuel [] 0 (s.GetNextTrain initialTrain)).map s.handleOf :=
  @chaseTrain s coherent bounded [] _ (fun _ _ mem => nomatch mem) (fun _ => getNextTrainListed coherent)

theorem chaseEngine {engine : EntityRef} (listed : s.Listed engine) : Closed s.GetNextTrain s.handleOf s.Listed
    ((engine :: s.recurseTrain trainFuel [(s.entity engine).handle] 0 (s.GetNextTrain engine)).map s.handleOf) := by
  refine (@chaseTrain s coherent bounded [s.handleOf engine] _ (fun a isThing mem b led => ?_)
    (fun _ => getNextTrainListed coherent)).1
  rw [(linksNamed coherent).same isThing listed (List.mem_singleton.mp mem)] at led
  exact .inr led

theorem trainLinksClosed : Closed s.GetNextTrain s.handleOf s.Listed ((s.trainLinks initialTrain).map s.handleOf) := by
  unfold trainLinks
  split
  · exact fun _ _ mem => nomatch mem
  · split
    · exact (chaseBehind coherent bounded).1
    · split
      · split
        · exact fun _ _ mem => nomatch mem
        · rename_i engine found
          exact chaseEngine coherent bounded (getTrainListed coherent found).1
      · exact fun _ _ mem => nomatch mem

theorem chainTrainLinks {e : EntityRef} (chain : s.Chain initialTrain e) : e ∈ s.trainLinks initialTrain := by
  have met : s.handleOf e ∈ (s.trainLinks initialTrain).map s.handleOf := by
    induction chain with
    | engine linked carriage other found =>
      rw [trainLinksEngine linked carriage other found]
      exact List.mem_cons_self
    | behind linked isEngine found =>
      rw [trainLinksBehind linked isEngine]
      exact (chaseBehind coherent bounded).2 _ found
    | next before found ih => exact trainLinksClosed coherent bounded _ (chainListed coherent before) ih _ found
  obtain ⟨link,mem,same⟩ := List.mem_map.mp met
  have listed := chainListed coherent (trainLinksChain mem)
  exact (linksNamed coherent).same listed (chainListed coherent chain) same ▸ mem

end Links

section Calls
variable {σ : Type} {server : σ → Server} {fn : σ → EntityRef → Bool × σ} {s : Server} {initialTrain : EntityRef}

theorem callThenSome {e : EntityRef} {rest : σ → Option (List (EntityRef × Bool) × σ)}
    {later : σ → List (EntityRef × Bool) × σ} {st : σ} (ends : rest (fn st e).2 = some (later (fn st e).2)) :
    callThen fn e rest st = some (callOn fn e later st) := by
  unfold callThen callOn
  simp only [ends]
  split <;> rfl

section
variable (coherent : Coherent s.skeleton) (bounded : ∀ id e,s.GetEntity id = some e → id < MaxObjectId)
  (steady : Steady server fn)
include coherent bounded steady

theorem callLinksEach {fuel again : Nat} {met : List Nat} {start : Option EntityRef} {st : σ}
    (same : SameTrains s (server st)) (starts : ∀ e,start = some e → s.Listed e) (patient : again ≤ kMaxDuplicateEntityIds)
    (enough : Visit.unseen (List.range MaxObjectId) met + (kMaxDuplicateEntityIds - again) < fuel) :
    callLinks server fn fuel met again start st = some (callEach fn (s.recurseTrain fuel met again start) st) := by
  induction fuel generalizing met again start st with
  | zero => exact absurd enough (Nat.not_lt_zero _)
  | succ fuel ih =>
    cases start with
    | none => rfl
    | some link =>
      have led : ∀ e,s.GetNextTrain link = some e → s.Listed e := fun _ => getNextTrainListed coherent
      unfold callLinks recurseTrain
      rw [same.handles]
      split
      · split
        · rfl
        · rw [same.next]
          exact ih same led (by omega) (by omega)
      · rename_i new
        have fewer := Visit.unseenLess (List.mem_range.mpr (bounded _ link (starts link rfl))) new
        have still := same.trans (steady st link)
        refine callThenSome ?_
        rw [still.next]
        exact ih still led patient (by omega)

theorem callTrainEach {st : σ} (same : SameTrains s (server st)) :
    callTrain server fn initialTrain st = some (callEach fn (s.trainLinks initialTrain) st) := by
  have follow {met : List Nat} {e : EntityRef} {st : σ} (same : SameTrains s (server st)) :
      callLinks server fn trainFuel met 0 (s.GetNextTrain e) st =
        some (callEach fn (s.recurseTrain trainFuel met 0 (s.GetNextTrain e)) st) :=
    callLinksEach coherent bounded steady same (fun _ => getNextTrainListed coherent) (Nat.zero_le _) (trainFuelEnough met)
  unfold callTrain trainLinks
  simp only [same.links,same.handles,same.next,same.getTrain]
  cases (s.entity initialTrain).syncTree.trainState with
  | none => rfl
  | some train =>
    dsimp only
    split
    · exact follow same
    · split
      · cases s.GetTrain train.engineCarriage with
        | none => rfl
        | some engine =>
          have still := same.trans (steady st engine)
          refine callThenSome ?_
          rw [still.next,still.handles]
          exact follow still
      · rfl

end

def visited (s : Server) (initialTrain : EntityRef) (callOnInitialEntity : Bool) : List EntityRef :=
  if callOnInitialEntity then initialTrain :: s.trainLinks initialTrain else s.trainLinks initialTrain

theorem iterateTrainLinkEach (coherent : Coherent s.skeleton)
    (bounded : ∀ id e,s.GetEntity id = some e → id < MaxObjectId) (steady : Steady server fn) {st : σ}
    (same : SameTrains s (server st)) (callOnInitialEntity : Bool) :
    IterateTrainLink server fn initialTrain callOnInitialEntity st =
      some (callEach fn (s.visited initialTrain callOnInitialEntity) st) := by
  unfold IterateTrainLink visited
  split
  · exact callThenSome (callTrainEach coherent bounded steady (same.trans (steady st initialTrain)))
  · exact callTrainEach coherent bounded steady same

end Calls

end Server
end Citizen.State
