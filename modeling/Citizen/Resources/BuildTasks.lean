import Citizen.Lib.OrderedMap
import Citizen.Lib.Run
import Citizen.Resources.ResourceManager

/-! `ResourceBuildTasks`: the build tasks that a resource runs before it starts. A sequence goes on in the completion
callbacks of its providers, with iterators into the providers of the `BuildMap` that it was started with. -/
namespace Citizen.Resources.BuildTasks

attribute [local instance] byteOrder

inductive Frame where
  | first (m : Nat)
  | next
  deriving DecidableEq

/-- A provider of a sequence is named by the number of its `BuildMap` and its place there; `pending` are the calls of `Build` whose
callback has not been called yet, `undefined` tells that iterators of a map have been used that is gone. -/
structure State where
  m_state : ResourceState
  buildTaskFactories : OrderedMap Text Nat
  maps : List (List Nat)
  component : Option Nat
  stack : List Frame
  invoked : List (Nat × Nat)
  pending : List (Nat × Nat)
  succeeded : List (Nat × Nat)
  completed : List Nat
  undefined : Bool

/-- What the code around gives in a start: the handlers of `OnBeforeStart` before the build tasks', the provider of a
factory, whether a provider wants to build, and `OnStart`. -/
structure Answers where
  before : Bool
  make : Nat → Option Nat
  ShouldBuild : Nat → Bool
  OnStart : Bool

namespace State

def init : State := ⟨.Stopped,.empty,[],none,[],[],[],[],[],false⟩

def buildingProviders (s : State) (a : Answers) : List Nat :=
  (s.buildTaskFactories.entries.filterMap (fun factory => a.make factory.2)).filter a.ShouldBuild

def Build (s : State) (m pos : Nat) (frame : Frame) : State :=
  { s with invoked := s.invoked ++ [(m,pos)], pending := s.pending ++ [(m,pos)], stack := frame :: s.stack }

def start (s : State) (a : Answers) : State :=
  { s with m_state := if a.OnStart || s.m_state = .Started then .Started else .Stopped }

def TriggerBuild (s : State) (a : Answers) : State :=
  match s.buildingProviders a with
  | [] => s.start a
  | providers => Build { s with maps := s.maps ++ [providers], component := some s.maps.length } s.maps.length 0
      (.first s.maps.length)

def Start (s : State) (a : Answers) : State :=
  match s.m_state with
  | .Started => s
  | .Starting => s.start a
  | _ => if a.before then TriggerBuild { s with m_state := .Starting } a else { s with m_state := .Stopped }

def providers (s : State) (m : Nat) : List Nat := s.maps.getD m []

def alive (s : State) (m : Nat) : Bool := s.component = some m || s.stack.contains (.first m)

def TriggerBuildSequence (s : State) (m pos : Nat) (a : Answers) : State :=
  if s.alive m then
    if pos < (s.providers m).length then s.Build m pos .next
    else Start { s with completed := s.completed ++ [m] } a
  else { s with undefined := true }

def complete (s : State) (m pos : Nat) (success : Bool) (a : Answers) : State :=
  if success then
    TriggerBuildSequence { s with pending := s.pending.erase (m,pos), succeeded := s.succeeded ++ [(m,pos)] } m (pos + 1) a
  else { s with pending := s.pending.erase (m,pos) }

def returns (s : State) : State :=
  match s.stack with
  | [] => s
  | .next :: below => { s with stack := below }
  | .first _ :: below => { s with stack := below, m_state := if s.m_state = .Started then .Started else .Stopped }

def Stop (s : State) (OnStop : Bool) : State :=
  if s.m_state ≠ .Stopped ∧ OnStop then { s with m_state := .Stopped } else s

end State

inductive Event where
  | start (a : Answers)
  | complete (m pos : Nat) (success : Bool) (a : Answers)
  | returns
  | stop (OnStop : Bool)
  | register (id : Text) (factory : Nat)
  | unregister (id : Text)

def step (s : State) : Event → State
  | .start a => s.Start a
  | .complete m pos success a => if s.invoked.contains (m,pos) then s.complete m pos success a else s
  | .returns => s.returns
  | .stop OnStop => s.Stop OnStop
  | .register id factory => { s with buildTaskFactories := s.buildTaskFactories.insert id factory }
  | .unregister id => { s with buildTaskFactories := s.buildTaskFactories.erase id }

/-- At most one sequence waits for a provider, and each calls its own providers in order and once. -/
structure Correct (s : State) : Prop where
  one : s.pending.length ≤ 1
  inOrder : ∀ m,∃ k ≤ (s.providers m).length,(s.invoked.filter (fun p => p.1 = m)).map Prod.snd = List.range k
  own : s.undefined = false
  after : ∀ m ∈ s.completed,∀ pos < (s.providers m).length,(m,pos) ∈ s.succeeded

def Builds (s : State) (a : Answers) : Prop :=
  s.m_state ≠ .Started ∧ s.m_state ≠ .Starting ∧ a.before = true ∧ s.buildingProviders a ≠ []

/-- No sequence is begun while one waits for a provider, and a callback is called with success once, while its `BuildMap` is there. -/
def Allowed (s : State) : Event → Prop
  | .start a => Builds s a → s.pending = []
  | .complete m pos true a => (m,pos) ∈ s.invoked → s.alive m = true ∧
      if pos + 1 < (s.providers m).length then s.pending.erase (m,pos) = [] ∧ (m,pos + 1) ∉ s.invoked
      else Builds s a → s.pending.erase (m,pos) = []
  | _ => True

structure Kept (s : State) : Prop where
  inside : ∀ m pos,(m,pos) ∈ s.invoked → pos < (s.providers m).length
  behind : ∀ m pos,(m,pos + 1) ∈ s.invoked → (m,pos) ∈ s.succeeded
  called : ∀ p ∈ s.succeeded,p ∈ s.invoked
  after : ∀ m ∈ s.completed,∀ pos < (s.providers m).length,(m,pos) ∈ s.succeeded
  known : ∀ m ∈ s.completed,m < s.maps.length

theorem initKept : Kept State.init := ⟨nofun,nofun,nofun,nofun,nofun⟩

theorem initCorrect : Correct State.init :=
  ⟨Nat.zero_le 1,fun _ => ⟨0,Nat.zero_le _,rfl⟩,rfl,nofun⟩

theorem triggers (s : State) (a : Answers) :
    (s.TriggerBuild a).succeeded = s.succeeded ∧ (s.TriggerBuild a).completed = s.completed ∧
    (s.TriggerBuild a).undefined = s.undefined ∧
    (s.buildingProviders a = [] ∧ (s.TriggerBuild a).maps = s.maps ∧ (s.TriggerBuild a).invoked = s.invoked ∧
        (s.TriggerBuild a).pending = s.pending ∨
      s.buildingProviders a ≠ [] ∧ (s.TriggerBuild a).maps = s.maps ++ [s.buildingProviders a] ∧
        (s.TriggerBuild a).invoked = s.invoked ++ [(s.maps.length,0)] ∧
        (s.TriggerBuild a).pending = s.pending ++ [(s.maps.length,0)]) := by
  unfold State.TriggerBuild
  split
  · rename_i none
    exact ⟨rfl,rfl,rfl,.inl ⟨none,rfl,rfl,rfl⟩⟩
  · rename_i some
    exact ⟨rfl,rfl,rfl,.inr ⟨some,rfl,rfl,rfl⟩⟩

theorem starts (s : State) (a : Answers) : (s.Start a).succeeded = s.succeeded ∧ (s.Start a).completed = s.completed ∧
    (s.Start a).undefined = s.undefined ∧
    (¬ Builds s a ∧ (s.Start a).maps = s.maps ∧ (s.Start a).invoked = s.invoked ∧ (s.Start a).pending = s.pending ∨
      Builds s a ∧ (s.Start a).maps = s.maps ++ [s.buildingProviders a] ∧
        (s.Start a).invoked = s.invoked ++ [(s.maps.length,0)] ∧ (s.Start a).pending = s.pending ++ [(s.maps.length,0)]) := by
  unfold State.Start
  split
  · rename_i started
    exact ⟨rfl,rfl,rfl,.inl ⟨fun builds => builds.1 started,rfl,rfl,rfl⟩⟩
  · rename_i starting
    exact ⟨rfl,rfl,rfl,.inl ⟨fun builds => builds.2.1 starting,rfl,rfl,rfl⟩⟩
  · rename_i started starting
    split
    · rename_i before
      obtain ⟨succeeded,completed,undefined,either⟩ := triggers { s with m_state := .Starting } a
      refine ⟨succeeded,completed,undefined,either.imp ?_ ?_⟩
      · rintro ⟨none,same⟩
        exact ⟨fun builds => builds.2.2.2 none,same⟩
      · rintro ⟨some,begun⟩
        exact ⟨⟨started,starting,before,some⟩,begun⟩
    · rename_i refused
      exact ⟨rfl,rfl,rfl,.inl ⟨fun builds => refused builds.2.2.1,rfl,rfl,rfl⟩⟩

section
variable {s : State} {a : Answers} {m pos : Nat}

theorem providersAppend (s : State) (providers : List Nat) :
    (s.maps ++ [providers]).getD s.maps.length [] = providers ∧
      ∀ m ≠ s.maps.length,(s.maps ++ [providers]).getD m [] = s.providers m := by
  unfold State.providers
  refine ⟨by simp,fun m other => ?_⟩
  rw [List.getD_eq_getElem?_getD,List.getD_eq_getElem?_getD]
  rcases Nat.lt_or_gt_of_ne other with before | after
  · rw [List.getElem?_append_left before]
  · rw [List.getElem?_eq_none (by simpa using Nat.succ_le_of_lt after),List.getElem?_eq_none after.le]

section
variable (kept : Kept s)
include kept

theorem Kept.old (invoked : (m,pos) ∈ s.invoked) : m < s.maps.length := by
  by_contra beyond
  have inside := kept.inside m pos invoked
  rw [State.providers,List.getD_eq_getElem?_getD,List.getElem?_eq_none (Nat.not_lt.mp beyond)] at inside
  exact Nat.not_lt_zero pos inside

theorem Kept.start (a : Answers) : Kept (s.Start a) := by
  obtain ⟨succeeded,completed,-,⟨-,maps,invoked,-⟩ | ⟨⟨-,-,-,some⟩,maps,invoked,-⟩⟩ := starts s a
  · have providers (m : Nat) : (s.Start a).providers m = s.providers m := by rw [State.providers,maps,State.providers]
    refine ⟨fun m pos => ?_,fun m pos => ?_,fun p => ?_,fun m => ?_,fun m => ?_⟩
    · rw [invoked,providers]
      exact kept.inside m pos
    · rw [invoked,succeeded]
      exact kept.behind m pos
    · rw [invoked,succeeded]
      exact kept.called p
    · rw [completed,providers,succeeded]
      exact kept.after m
    · rw [completed,maps]
      exact kept.known m
  · obtain ⟨new,others⟩ := providersAppend s (s.buildingProviders a)
    have providers (m : Nat) (known : m < s.maps.length) : (s.Start a).providers m = s.providers m := by
      rw [State.providers,maps,others m known.ne]
    refine ⟨fun m pos mem => ?_,fun m pos mem => ?_,fun p mem => ?_,fun m mem => ?_,fun m mem => ?_⟩
    · rw [invoked] at mem
      rcases List.mem_append.mp mem with before | last
      · rw [providers m (kept.old before)]
        exact kept.inside m pos before
      · cases List.mem_singleton.mp last
        rw [State.providers,maps,new]
        exact List.length_pos_of_ne_nil some
    · rw [invoked] at mem
      rcases List.mem_append.mp mem with before | last
      · rw [succeeded]
        exact kept.behind m pos before
      · cases List.mem_singleton.mp last
    · rw [succeeded] at mem
      rw [invoked]
      exact List.mem_append_left _ (kept.called p mem)
    · rw [completed] at mem
      rw [providers m (kept.known m mem),succeeded]
      exact kept.after m mem
    · rw [completed] at mem
      rw [maps,List.length_append]
      exact (kept.known m mem).trans (Nat.lt_succ_self _)

theorem Kept.success (invoked : (m,pos) ∈ s.invoked) :
    Kept { s with pending := s.pending.erase (m,pos), succeeded := s.succeeded ++ [(m,pos)] } where
  inside := kept.inside
  behind m pos mem := List.mem_append_left _ (kept.behind m pos mem)
  called p mem := by
    rcases List.mem_append.mp mem with before | last
    · exact kept.called p before
    · exact List.mem_singleton.mp last ▸ invoked
  after m mem pos inside := List.mem_append_left _ (kept.after m mem pos inside)
  known := kept.known

theorem Kept.allBefore (done : (m,pos) ∈ s.succeeded) : ∀ earlier ≤ pos,(m,earlier) ∈ s.succeeded := by
  induction pos with
  | zero =>
    intro earlier before
    rwa [Nat.le_zero.mp before]
  | succ pos ih =>
    intro earlier before
    rcases Nat.lt_or_eq_of_le before with less | rfl
    · exact ih (kept.behind m pos (kept.called _ done)) earlier (Nat.le_of_lt_succ less)
    · exact done

theorem Kept.builds (inside : pos + 1 < (s.providers m).length) (done : (m,pos) ∈ s.succeeded) :
    Kept (s.Build m (pos + 1) .next) where
  inside m' pos' mem := by
    rcases List.mem_append.mp mem with before | last
    · exact kept.inside m' pos' before
    · cases List.mem_singleton.mp last
      exact inside
  behind m' pos' mem := by
    rcases List.mem_append.mp mem with before | last
    · exact kept.behind m' pos' before
    · cases List.mem_singleton.mp last
      exact done
  called p mem := List.mem_append_left _ (kept.called p mem)
  after := kept.after
  known := kept.known

theorem Kept.ends (done : (m,pos) ∈ s.succeeded) (last : ¬ pos + 1 < (s.providers m).length) :
    Kept { s with completed := s.completed ++ [m] } where
  inside := kept.inside
  behind := kept.behind
  called := kept.called
  after m' mem earlier inside := by
    rcases List.mem_append.mp mem with before | new
    · exact kept.after m' before earlier inside
    · cases List.mem_singleton.mp new
      have inside : earlier < (s.providers m).length := inside
      exact kept.allBefore done earlier (by omega)
  known m' mem := by
    rcases List.mem_append.mp mem with before | new
    · exact kept.known m' before
    · cases List.mem_singleton.mp new
      exact kept.old (kept.called _ done)

theorem Kept.step (e : Event) : Kept (BuildTasks.step s e) := by
  cases e with
  | start a => exact kept.start a
  | complete m pos success a =>
    unfold BuildTasks.step
    dsimp only
    split
    swap
    · exact kept
    rename_i made
    have invoked : (m,pos) ∈ s.invoked := by simpa using made
    cases success with
    | false => exact ⟨kept.inside,kept.behind,kept.called,kept.after,kept.known⟩
    | true =>
      have next := kept.success invoked
      have done : (m,pos) ∈ s.succeeded ++ [(m,pos)] := List.mem_append_right _ (List.mem_singleton_self _)
      change Kept (State.TriggerBuildSequence _ m (pos + 1) a)
      unfold State.TriggerBuildSequence
      split
      · split
        · rename_i inside
          exact next.builds inside done
        · rename_i last
          exact (next.ends done last).start a
      · exact ⟨next.inside,next.behind,next.called,next.after,next.known⟩
  | returns =>
    change Kept s.returns
    unfold State.returns
    split
    · exact kept
    · exact ⟨kept.inside,kept.behind,kept.called,kept.after,kept.known⟩
    · exact ⟨kept.inside,kept.behind,kept.called,kept.after,kept.known⟩
  | stop OnStop =>
    change Kept (s.Stop OnStop)
    unfold State.Stop
    split
    · exact ⟨kept.inside,kept.behind,kept.called,kept.after,kept.known⟩
    · exact kept
  | register id factory => exact ⟨kept.inside,kept.behind,kept.called,kept.after,kept.known⟩
  | unregister id => exact ⟨kept.inside,kept.behind,kept.called,kept.after,kept.known⟩

end

def called (invoked : List (Nat × Nat)) (m : Nat) : List Nat := (invoked.filter (fun p => p.1 = m)).map Prod.snd

theorem calledAppend (invoked : List (Nat × Nat)) (m pos : Nat) :
    called (invoked ++ [(m,pos)]) m = called invoked m ++ [pos] ∧
      ∀ m' ≠ m,called (invoked ++ [(m,pos)]) m' = called invoked m' := by
  refine ⟨by simp [called],fun m' other => ?_⟩
  simp [called,Ne.symm other]

theorem memCalled {invoked : List (Nat × Nat)} : pos ∈ called invoked m ↔ (m,pos) ∈ invoked := by
  simp [called]

theorem startExact (kept : Kept s) (correct : Correct s) (a : Answers) :
    Correct (s.Start a) ↔ (Builds s a → s.pending = []) := by
  obtain ⟨succeeded,completed,undefined,⟨still,maps,invoked,pending⟩ | ⟨builds,maps,invoked,pending⟩⟩ := starts s a
  · refine iff_of_true ⟨?_,fun m => ?_,undefined.trans correct.own,(kept.start a).after⟩ (fun builds => absurd builds still)
    · rw [pending]
      exact correct.one
    · rw [invoked,State.providers,maps]
      exact correct.inOrder m
  · constructor
    · intro after _
      have one := after.one
      rw [pending,List.length_append] at one
      exact List.eq_nil_of_length_eq_zero (Nat.le_zero.mp (Nat.le_of_succ_le_succ one))
    · intro alone
      obtain ⟨new,others⟩ := providersAppend s (s.buildingProviders a)
      obtain ⟨here,elsewhere⟩ := calledAppend s.invoked s.maps.length 0
      refine ⟨?_,fun m => ?_,undefined.trans correct.own,(kept.start a).after⟩
      · rw [pending,alone builds]
        exact Nat.le_refl 1
      · rw [invoked,State.providers,maps]
        by_cases is : m = s.maps.length
        · subst is
          have none : called s.invoked s.maps.length = [] := by
            refine List.eq_nil_iff_forall_not_mem.mpr (fun pos mem => ?_)
            exact Nat.lt_irrefl _ (kept.old (memCalled.mp mem))
          refine ⟨1,?_,here.trans (by rw [none]; rfl)⟩
          rw [new]
          exact List.length_pos_of_ne_nil builds.2.2.2
        · obtain ⟨k,inside,same⟩ := correct.inOrder m
          exact ⟨k,(others m is) ▸ inside,(elsewhere m is).trans same⟩

theorem buildExact (kept : Kept s) (correct : Correct s) (invoked : (m,pos) ∈ s.invoked)
    (inside : pos + 1 < (s.providers m).length) :
    Correct (s.Build m (pos + 1) .next) ↔ s.pending = [] ∧ (m,pos + 1) ∉ s.invoked := by
  obtain ⟨here,elsewhere⟩ := calledAppend s.invoked m (pos + 1)
  obtain ⟨k,bound,same⟩ := correct.inOrder m
  change called s.invoked m = List.range k at same
  constructor
  · intro after
    have one := after.one
    change (s.pending ++ [(m,pos + 1)]).length ≤ 1 at one
    rw [List.length_append] at one
    refine ⟨List.eq_nil_of_length_eq_zero (Nat.le_zero.mp (Nat.le_of_succ_le_succ one)),fun again => ?_⟩
    obtain ⟨k',-,range⟩ := after.inOrder m
    have distinct : (called s.invoked m ++ [pos + 1]).Nodup := (here.symm.trans range) ▸ List.nodup_range
    exact List.disjoint_of_nodup_append distinct (memCalled.mpr again) (List.mem_singleton_self _)
  · rintro ⟨alone,fresh⟩
    have counted : k = pos + 1 := by
      have low : pos ∈ List.range k := same ▸ memCalled.mpr invoked
      have high : pos + 1 ∉ List.range k := fun mem => fresh (memCalled.mp (same.symm ▸ mem))
      rw [List.mem_range] at low high
      omega
    refine ⟨?_,fun m' => ?_,correct.own,kept.after⟩
    · change (s.pending ++ [(m,pos + 1)]).length ≤ 1
      rw [alone]
      exact Nat.le_refl 1
    · by_cases is : m' = m
      · subst is
        refine ⟨k + 1,counted ▸ inside,here.trans ?_⟩
        rw [List.range_succ,← counted]
        exact congrArg (· ++ [k]) same
      · obtain ⟨k',inside,same⟩ := correct.inOrder m'
        exact ⟨k',inside,(elsewhere m' is).trans same⟩

theorem stepExact (s : State) (e : Event) (kept : Kept s) (correct : Correct s) : Correct (step s e) ↔ Allowed s e := by
  have same {s' : State} (maps : s'.maps = s.maps) (invoked : s'.invoked = s.invoked)
      (pending : s'.pending.length ≤ s.pending.length) (succeeded : s'.succeeded = s.succeeded) (completed : s'.completed = s.completed)
      (undefined : s'.undefined = s.undefined) : Correct s' := by
    refine ⟨pending.trans correct.one,fun m => ?_,undefined.trans correct.own,fun m => ?_⟩
    · rw [invoked,State.providers,maps]
      exact correct.inOrder m
    · rw [completed,State.providers,maps,succeeded]
      exact correct.after m
  cases e with
  | start a => exact startExact kept correct a
  | complete m pos success a =>
    unfold step
    dsimp only
    split
    swap
    · rename_i unmade
      refine iff_of_true correct ?_
      cases success with
      | false => trivial
      | true => exact fun invoked => absurd (List.contains_iff_mem.mpr invoked) unmade
    rename_i made
    have invoked : (m,pos) ∈ s.invoked := List.contains_iff_mem.mp made
    have erased : (s.pending.erase (m,pos)).length ≤ s.pending.length := List.length_erase_le
    cases success with
    | false => exact iff_of_true (same rfl rfl erased rfl rfl rfl) trivial
    | true =>
      have next := kept.success invoked
      have done : (m,pos) ∈ s.succeeded ++ [(m,pos)] := List.mem_append_right _ (List.mem_singleton_self _)
      have right : Correct { s with pending := s.pending.erase (m,pos), succeeded := s.succeeded ++ [(m,pos)] } :=
        ⟨erased.trans correct.one,correct.inOrder,correct.own,next.after⟩
      refine Iff.trans ?_ (forall_prop_of_true invoked).symm
      change Correct (State.TriggerBuildSequence _ m (pos + 1) a) ↔ _
      unfold State.TriggerBuildSequence
      split
      · rename_i alive
        refine Iff.trans ?_ (and_iff_right alive).symm
        split
        · rename_i inside
          have inside : pos + 1 < (s.providers m).length := inside
          rw [if_pos inside]
          exact buildExact next right invoked inside
        · rename_i last
          have ended := next.ends done last
          have last : ¬ pos + 1 < (s.providers m).length := last
          rw [if_neg last]
          exact startExact ended ⟨right.one,right.inOrder,right.own,ended.after⟩ a
      · rename_i gone
        exact iff_of_false (fun after => absurd after.own (by simp)) (fun allowed => gone allowed.1)
  | returns =>
    refine iff_of_true ?_ trivial
    change Correct s.returns
    unfold State.returns
    split
    · exact correct
    · exact same rfl rfl (Nat.le_refl _) rfl rfl rfl
    · exact same rfl rfl (Nat.le_refl _) rfl rfl rfl
  | stop OnStop =>
    refine iff_of_true ?_ trivial
    change Correct (s.Stop OnStop)
    unfold State.Stop
    split
    · exact same rfl rfl (Nat.le_refl _) rfl rfl rfl
    · exact correct
  | register id factory => exact iff_of_true (same rfl rfl (Nat.le_refl _) rfl rfl rfl) trivial
  | unregister id => exact iff_of_true (same rfl rfl (Nat.le_refl _) rfl rfl rfl) trivial

end

theorem sequenceExact (events : List Event) :
    Throughout step Correct State.init events ↔ Along step Allowed State.init events :=
  throughoutIffAlong Kept Correct (fun _ e kept => kept.step e) stepExact initKept initCorrect

/-- A callback is called with success only while the `BuildMap` is there that its iterators are of. -/
def Holds (s : State) : Event → Prop
  | .complete m pos true _ => (m,pos) ∈ s.invoked → s.alive m = true
  | _ => True

theorem definedStep {s : State} {e : Event} (holds : Holds s e) : (step s e).undefined = s.undefined := by
  cases e with
  | start a => exact (starts s a).2.2.1
  | complete m pos success a =>
    change (if s.invoked.contains (m,pos) then s.complete m pos success a else s).undefined = s.undefined
    split
    · rename_i given
      cases success with
      | false => rfl
      | true =>
        have there : ({ s with pending := s.pending.erase (m,pos), succeeded := s.succeeded ++ [(m,pos)] } : State).alive m = true :=
          holds (List.contains_iff_mem.mp given)
        unfold State.complete State.TriggerBuildSequence
        rw [if_pos rfl,if_pos there]
        split
        · rfl
        · exact (starts _ a).2.2.1
    · rfl
  | returns =>
    change s.returns.undefined = s.undefined
    unfold State.returns
    split <;> rfl
  | stop OnStop =>
    change (s.Stop OnStop).undefined = s.undefined
    unfold State.Stop
    split <;> rfl
  | register id factory => rfl
  | unregister id => rfl

/-- Also where sequences overlap, a provider is called behind a success of the one before it, and a sequence comes to start
the resource behind a success of each of its own. -/
theorem keptThroughout {events : List Event} (holds : Along step Holds State.init events) :
    Throughout step (fun s => Kept s ∧ s.undefined = false) State.init events :=
  throughoutOfKept (fun s => Kept s ∧ s.undefined = false)
    (fun _ e both holds => ⟨both.1.step e,(definedStep holds).trans both.2⟩) ⟨initKept,rfl⟩ holds

def building : Answers := ⟨true,some,fun _ => true,true⟩

theorem keptOverlapping : Throughout step (fun s => Kept s ∧ s.undefined = false) State.init
    [.register [] 0,.register [1] 1,.start building,.complete 0 0 true building,.complete 0 0 true building,
      .complete 0 1 true building,.returns,.complete 0 1 false building,.stop true] := by
  refine keptThroughout ⟨trivial,trivial,trivial,fun _ => ?_,fun _ => ?_,fun _ => ?_,trivial,trivial,trivial,trivial⟩
  · decide
  · decide
  · decide

theorem startedTwice : ¬ Throughout step Correct State.init
    [.register [] 0,.start building,.returns,.start building,.returns] := by
  intro correct
  exact absurd (throughoutLast correct).one (by decide)

end Citizen.Resources.BuildTasks
