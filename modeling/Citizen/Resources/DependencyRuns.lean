import Citizen.Resources.StartDependencies

/-! What stopping a resource does, as long as its dependants form no cycle. -/
namespace Citizen.Resources.ResourceManager
variable {manager : ResourceManager} {s s' : State} {name : Text}

def Stops (manager : ResourceManager) (s : State) (name other : Text) : Prop :=
  ∃ dependant, (name,dependant) ∈ s.resourceDependants ∧ manager.Answers dependant other ∧ other ≠ name ∧
    s.m_state other ≠ .Stopped

def Stoppable (manager : ResourceManager) (s : State) (name : Text) : Prop :=
  Acc (fun other name => manager.Stops s name other) name

structure Within (s : State) (m_state : Text → ResourceState) : Prop where
  states : ∀ name, m_state name = s.m_state name ∨ m_state name = .Stopped
  closed : ∀ name dependant, (name,dependant) ∈ s.resourceDependants → s.m_state name ≠ .Stopped →
    m_state name = .Stopped → m_state dependant = .Stopped

structure Halted (s s' : State) : Prop where
  within : Within s s'.m_state
  dependencies : s'.resourceDependencies = s.resourceDependencies
  subset : s'.resourceDependants ⊆ s.resourceDependants
  kept : ∀ name dependant, (name,dependant) ∈ s.resourceDependants → s'.m_state name ≠ .Stopped →
    (name,dependant) ∈ s'.resourceDependants
  history : ∃ new, s'.history = new ++ s.history ∧ ∀ m_state ∈ new, Within s m_state

theorem Halted.refl (s : State) : Halted s s :=
  ⟨⟨fun _ => .inl rfl,fun _ _ _ active stopped => absurd stopped active⟩,rfl,fun _ mem => mem,fun _ _ mem _ => mem,
    [],rfl,fun _ none => absurd none List.not_mem_nil⟩

theorem Halted.stays (halted : Halted s s') (stopped : s.m_state name = .Stopped) : s'.m_state name = .Stopped :=
  (halted.within.states name).elim (fun same => same.trans stopped) id

theorem Halted.later {s₁ s₂ : State} (first : Halted s₁ s₂) {m_state : Text → ResourceState}
    (second : Within s₂ m_state) : Within s₁ m_state := by
  refine ⟨fun name => ?_,fun name dependant mem active stopped => ?_⟩
  · rcases second.states name with same | stopped
    · rw [same]
      exact first.within.states name
    · exact .inr stopped
  · have still (name : Text) (stopped : s₂.m_state name = .Stopped) : m_state name = .Stopped :=
      (second.states name).elim (fun same => same.trans stopped) id
    by_cases early : s₂.m_state name = .Stopped
    · exact still dependant (first.within.closed name dependant mem active early)
    · exact second.closed name dependant (first.kept name dependant mem early) early stopped

theorem Halted.trans {s₁ s₂ s₃ : State} (first : Halted s₁ s₂) (second : Halted s₂ s₃) : Halted s₁ s₃ := by
  obtain ⟨early,before,earlyWithin⟩ := first.history
  obtain ⟨late,after,lateWithin⟩ := second.history
  refine ⟨first.later second.within,second.dependencies.trans first.dependencies,
    fun _ mem => first.subset (second.subset mem),fun name dependant mem active => ?_,late ++ early,?_,
    fun m_state mem => ?_⟩
  · have running : s₂.m_state name ≠ .Stopped := fun stopped => active (second.stays stopped)
    exact second.kept name dependant (first.kept name dependant mem running) active
  · rw [after,before,List.append_assoc]
  · rcases List.mem_append.mp mem with recent | old
    · exact first.later (lateWithin m_state recent)
    · exact earlyWithin m_state old

theorem Halted.stopping {s₁ : State} (halted : Halted s s₁)
    (dependants : ∀ dependant ∈ rangeOf s.resourceDependants name, dependant ≠ name →
      s₁.m_state dependant = .Stopped) : Halted s ((s₁.eraseDependants name).assign name .Stopped) := by
  have self : (Function.update s₁.m_state name .Stopped) name = .Stopped := Function.update_self _ _ _
  have within : Within s (Function.update s₁.m_state name .Stopped) := by
    refine ⟨fun other => ?_,fun other dependant mem active stopped => ?_⟩
    · by_cases same : other = name
      · rw [same]
        exact .inr self
      · rw [Function.update_of_ne same]
        exact halted.within.states other
    · by_cases itself : dependant = name
      · rw [itself]
        exact self
      · rw [Function.update_of_ne itself]
        by_cases same : other = name
        · rw [same] at mem
          exact dependants dependant (memRangeOf.mpr mem) itself
        · rw [Function.update_of_ne same] at stopped
          exact halted.within.closed other dependant mem active stopped
  obtain ⟨new,grown,inside⟩ := halted.history
  refine ⟨within,halted.dependencies,fun entry mem => halted.subset (List.mem_filter.mp mem).1,
    fun other dependant mem active => ?_,Function.update s₁.m_state name .Stopped :: new,?_,fun m_state mem => ?_⟩
  · have apart : other ≠ name := fun same => active (same ▸ self)
    have before : s₁.m_state other ≠ .Stopped := fun stopped => active ((Function.update_of_ne apart _ _).trans stopped)
    exact memErase.mpr ⟨halted.kept other dependant mem before,apart⟩
  · exact congrArg _ grown
  · rcases List.mem_cons.mp mem with rfl | earlier
    · exact within
    · exact inside m_state earlier

theorem stopEnds {start : State} (stoppable : manager.Stoppable start name) (s : State) (halted : Halted start s)
    (exist : ∀ name, start.m_state name ≠ .Stopped → name ∈ manager.m_resources) :
    ∃ depth s', manager.Stop depth s name = some s' ∧ Halted s s' ∧ s'.m_state name = .Stopped := by
  induction stoppable generalizing s with
  | intro name _ ih =>
    by_cases stopped : s.m_state name = .Stopped
    · exact ⟨1,s,if_pos stopped,Halted.refl s,stopped⟩
    · have loop := @Fuel.foldEnds State Text (fun depth => manager.stopDependant (manager.Stop depth) name)
        (fun depth _ _ _ result => stopDependantWider (stopMonotone depth) result) Halted
        (fun dependant s' => dependant ≠ name → s'.m_state dependant = .Stopped)
        Halted.refl Halted.trans (fun near done apart => near.stays (done apart)) s
        (rangeOf s.resourceDependants name) ?_ s (Halted.refl s)
      · obtain ⟨depth,s₁,looped,near,dependants⟩ := loop
        refine ⟨depth + 1,_,?_,near.stopping dependants,Function.update_self _ _ _⟩
        unfold Stop
        rw [if_neg stopped]
        unfold OnStop
        rw [looped]
        rfl
      · intro s₁ near dependant mem
        have since : Halted start s₁ := halted.trans near
        have recorded : (name,dependant) ∈ start.resourceDependants := halted.subset (memRangeOf.mp mem)
        have active {other : Text} (up : s₁.m_state other ≠ .Stopped) : start.m_state other ≠ .Stopped :=
          fun down => up (since.stays down)
        -- a dependant that is not stopped is found under its own name
        have itself (up : s₁.m_state dependant ≠ .Stopped) : manager.GetResource s₁ dependant = some dependant :=
          getResourceSelf (exist dependant (active up)) up
        have settled {s' : State} (after : Halted s₁ s')
            (own : manager.GetResource s₁ dependant = some dependant → dependant ≠ name → s'.m_state dependant = .Stopped)
            (apart : dependant ≠ name) : s'.m_state dependant = .Stopped := by
          by_cases down : s₁.m_state dependant = .Stopped
          · exact after.stays down
          · exact own (itself down) apart
        unfold stopDependant
        cases found : manager.GetResource s₁ dependant with
        | none =>
          refine ⟨0,s₁,rfl,Halted.refl s₁,settled (Halted.refl s₁) (fun own => ?_)⟩
          rw [found] at own
          cases own
        | some other =>
          dsimp only
          by_cases apart : other = name
          · refine ⟨0,s₁,if_neg (fun different => different apart),Halted.refl s₁,
              settled (Halted.refl s₁) (fun own different => ?_)⟩
            rw [found] at own
            cases own
            exact absurd apart different
          · by_cases down : s₁.m_state other = .Stopped
            · refine ⟨1,s₁,(if_pos apart).trans (if_pos down),Halted.refl s₁,settled (Halted.refl s₁) (fun own _ => ?_)⟩
              rw [found] at own
              cases own
              exact down
            · have stops : manager.Stops start name other :=
                ⟨dependant,recorded,getResourceAnswers found,apart,active down⟩
              obtain ⟨depth,s',result,after,gone⟩ := ih other stops s₁ since
              refine ⟨depth,s',(if_pos apart).trans result,after,settled after (fun own _ => ?_)⟩
              rw [found] at own
              cases own
              exact gone

/-! Resources that are started and stopped in any order, and what becomes of their dependencies. -/

def Dependant (s : State) : Text → Text → Prop :=
  Relation.TransGen (fun name dependant => (name,dependant) ∈ s.resourceDependants ∧ s.m_state dependant = .Started)

structure StoppedFirst (s : State) (name : Text) (s' : State) : Prop where
  stopped : s'.m_state name = .Stopped
  before : s.m_state name ≠ .Stopped → ∃ new, s'.history = new ++ s.history ∧
    ∀ m_state ∈ s'.m_state :: new, m_state name = .Stopped →
      ∀ dependant, Dependant s name dependant → m_state dependant = .Stopped

structure Served (manager : ResourceManager) (s : State) (command : Command) (s' : State) : Prop where
  satisfied : ∀ m_state ∈ s'.history, manager.Satisfied m_state
  recorded : manager.Recorded s'
  stopped : ∀ name, command = .stop name → name ∈ manager.m_resources → StoppedFirst s name s'

def Safe (manager : ResourceManager) : State → List Command → Prop
  | _,[] => True
  | s,command :: rest =>
    (∃ depth s', manager.execute depth s command = some s') ∧
      ∀ depth s', manager.execute depth s command = some s' → manager.Served s command s' ∧ Safe manager s' rest

def Allowed (manager : ResourceManager) (s : State) : Command → Prop
  | .start name => manager.Startable s name
  | .stop name => manager.Stoppable s name

def Orderly (manager : ResourceManager) : State → List Command → Prop
  | _,[] => True
  | s,command :: rest =>
    manager.Allowed s command ∧ ∀ depth s', manager.execute depth s command = some s' → Orderly manager s' rest

structure Idle (manager : ResourceManager) (s : State) : Prop where
  recorded : manager.Recorded s
  quiet : ∀ name, s.m_state name ≠ .Starting
  satisfied : ∀ m_state ∈ s.history, manager.Satisfied m_state

section
variable (recorded : manager.Recorded s) {m_state : Text → ResourceState} (within : Within s m_state)
include recorded within

theorem Within.found (up : m_state name = .Started) {dependency : Text} (mem : dependency ∈ manager.dependencies name)
    (unconstrained : ¬IsConstraint dependency) :
    ∃ other, manager.Answers dependency other ∧ m_state other = .Started ∧ (other,name) ∈ s.resourceDependants := by
  have before (x : Text) (running : m_state x ≠ .Stopped) : m_state x = s.m_state x :=
    (within.states x).resolve_right running
  have running : m_state name ≠ .Stopped := by
    rw [up]
    exact ResourceState.noConfusion
  obtain ⟨other,answers,started,entry⟩ :=
    recorded.found name ((before name running).symm.trans up) dependency mem unconstrained
  have active : s.m_state other ≠ .Stopped := by
    rw [started]
    exact ResourceState.noConfusion
  have still : m_state other ≠ .Stopped := fun stopped => running (within.closed other name entry active stopped)
  exact ⟨other,answers,(before other still).trans started,entry⟩

theorem Within.satisfied : manager.Satisfied m_state := by
  intro name up dependency mem unconstrained
  obtain ⟨other,answers,started,_⟩ := within.found recorded up mem unconstrained
  exact ⟨other,answers,started⟩

end

theorem Halted.recorded (halted : Halted s s') (recorded : manager.Recorded s) : manager.Recorded s' := by
  refine ⟨fun name active => recorded.exist name (fun stopped => active (halted.stays stopped)),
    fun name up dependency mem unconstrained => ?_⟩
  obtain ⟨other,answers,started,entry⟩ := halted.within.found recorded up mem unconstrained
  have still : s'.m_state other ≠ .Stopped := by
    rw [started]
    exact ResourceState.noConfusion
  exact ⟨other,answers,started,halted.kept other name entry still⟩

theorem Within.dependants {m_state : Text → ResourceState} (within : Within s m_state)
    (active : s.m_state name ≠ .Stopped) (stopped : m_state name = .Stopped) {dependant : Text}
    (depends : Dependant s name dependant) : m_state dependant = .Stopped := by
  have chain : s.m_state dependant = .Started ∧ m_state dependant = .Stopped := by
    induction depends with
    | single edge => exact ⟨edge.2,within.closed name _ edge.1 active stopped⟩
    | tail _ edge ih =>
      have running : s.m_state _ ≠ .Stopped := fun down => ResourceState.noConfusion (ih.1.symm.trans down)
      exact ⟨edge.2,within.closed _ _ edge.1 running ih.2⟩
  exact chain.2

theorem Idle.moved (idle : manager.Idle s) {reach : Text → Prop} (moved : manager.Moved reach s s') :
    manager.Idle s' := by
  refine ⟨moved.recorded,fun name starting => idle.quiet name (moved.quiet name starting),fun m_state mem => ?_⟩
  obtain ⟨new,grown,satisfied⟩ := moved.history
  rw [grown] at mem
  exact (List.mem_append.mp mem).elim (satisfied m_state) (idle.satisfied m_state)

theorem Idle.halted (idle : manager.Idle s) (halted : Halted s s') : manager.Idle s' := by
  refine ⟨halted.recorded idle.recorded,fun name starting => ?_,fun m_state mem => ?_⟩
  · rcases halted.within.states name with same | stopped
    · exact idle.quiet name (same.symm.trans starting)
    · exact ResourceState.noConfusion (stopped.symm.trans starting)
  · obtain ⟨new,grown,within⟩ := halted.history
    rw [grown] at mem
    rcases List.mem_append.mp mem with recent | old
    · exact (within m_state recent).satisfied idle.recorded
    · exact idle.satisfied m_state old

theorem executeMonotone (command : Command) (s : State) :
    ∀ depth s', manager.execute depth s command = some s' → manager.execute (depth + 1) s command = some s' := by
  intro depth s' done
  unfold execute at done ⊢
  cases command with
  | start name =>
    dsimp only at done ⊢
    split at done
    · rename_i exist
      obtain ⟨result,started,rfl⟩ := Option.map_eq_some_iff.mp done
      rw [if_pos exist,startMonotone depth s name result started]
      rfl
    · rename_i missing
      rwa [if_neg missing]
  | stop name =>
    dsimp only at done ⊢
    split at done
    · rename_i exist
      rw [if_pos exist]
      exact stopMonotone depth s name s' done
    · rename_i missing
      rwa [if_neg missing]

theorem Idle.executed (idle : manager.Idle s) {command : Command} (allowed : manager.Allowed s command) :
    ∃ depth s', manager.execute depth s command = some s' ∧ manager.Idle s' ∧ manager.Served s command s' := by
  cases command with
  | start name =>
    unfold execute
    dsimp only
    by_cases exist : name ∈ manager.m_resources
    · have started : ∃ depth s' ok reach, manager.Start depth s name = some (s',ok) ∧ manager.Moved reach s s' := by
        rcases allowed with up | ⟨accessible,unwaited⟩
        · have begun : manager.Begun (manager.Starts s) name s (s.assign name .Started) true :=
            Begun.again idle.recorded up
          exact ⟨1,_,true,_,if_pos up,begun.moved⟩
        · obtain ⟨depth,s',ok,result,begun⟩ := startEnds accessible s
            ⟨exist,idle.recorded,fun _ _ pair => pair,fun other _ => idle.quiet other,unwaited⟩
          exact ⟨depth,s',ok,_,result,begun.moved⟩
      obtain ⟨depth,s',ok,reach,result,moved⟩ := started
      have next := idle.moved moved
      refine ⟨depth,s',(if_pos exist).trans (congrArg _ result),next,next.satisfied,next.recorded,fun name wrong _ => ?_⟩
      cases wrong
    · refine ⟨0,s,if_neg exist,idle,idle.satisfied,idle.recorded,fun name wrong _ => ?_⟩
      cases wrong
  | stop name =>
    unfold execute
    dsimp only
    by_cases exist : name ∈ manager.m_resources
    · obtain ⟨depth,s',result,halted,stopped⟩ := stopEnds allowed s (Halted.refl s) idle.recorded.exist
      have next := idle.halted halted
      refine ⟨depth,s',(if_pos exist).trans result,next,next.satisfied,next.recorded,fun other same _ => ?_⟩
      cases same
      refine ⟨stopped,fun active => ?_⟩
      obtain ⟨new,grown,within⟩ := halted.history
      refine ⟨new,grown,fun m_state mem down dependant depends => ?_⟩
      rcases List.mem_cons.mp mem with rfl | recent
      · exact halted.within.dependants active down depends
      · exact (within m_state recent).dependants active down depends
    · refine ⟨0,s,if_neg exist,idle,idle.satisfied,idle.recorded,fun other same inside => ?_⟩
      cases same
      exact absurd inside exist

theorem Idle.safe (idle : manager.Idle s) {commands : List Command} (orderly : manager.Orderly s commands) :
    manager.Safe s commands := by
  induction commands generalizing s with
  | nil => trivial
  | cons command rest ih =>
    obtain ⟨allowed,later⟩ := orderly
    obtain ⟨depth,s',result,next,served⟩ := idle.executed allowed
    refine ⟨⟨depth,s',result⟩,fun other s'' result' => ?_⟩
    have same : s' = s'' := Fuel.Monotone.same (fun depth s s' => executeMonotone command s depth s') result result'
    rw [← same]
    exact ⟨served,ih next (later depth s' result)⟩

theorem idleLoaded : manager.Idle .loaded :=
  ⟨⟨fun _ active => absurd rfl active,fun _ up => ResourceState.noConfusion up⟩,
    fun _ starting => ResourceState.noConfusion starting,fun _ none => absurd none List.not_mem_nil⟩

theorem dependenciesKept (manager : ResourceManager) (commands : List Command)
    (orderly : manager.Orderly .loaded commands) : manager.Safe .loaded commands :=
  idleLoaded.safe orderly

def chained : ResourceManager := ⟨(AList.insert [98] ⟨[],[],[]⟩ ∅).insert [97] ⟨[[98]],[],[]⟩,fun _ => true⟩

theorem chainedAnswers {identifier other : Text} (answers : chained.Answers identifier other) : other = identifier := by
  have none : chained.m_resourceProvides = [] := by decide
  have nobody : chained.providers identifier = [] := by
    unfold providers
    rw [none]
    rfl
  refine answers.2.resolve_right (fun mem => ?_)
  rw [nobody] at mem
  exact List.not_mem_nil mem

theorem chainedOrderly : chained.Orderly .loaded [.start [97],.stop [98]] := by
  have ofFirst : chained.dependencies [97] = [[98]] := by decide
  have ofSecond : chained.dependencies [98] = [] := by decide
  have lowest : Acc (fun other name => chained.Starts .loaded name other) [98] := by
    refine Acc.intro _ (fun other pair => ?_)
    obtain ⟨⟨dependency,mem,_⟩,_⟩ := pair
    rw [ofSecond] at mem
    exact absurd mem List.not_mem_nil
  refine ⟨.inr ⟨Acc.intro _ (fun other pair => ?_),fun _ _ _ mem => absurd mem List.not_mem_nil⟩,fun depth s result => ?_⟩
  · obtain ⟨⟨dependency,mem,_,answers⟩,_⟩ := pair
    rw [ofFirst,List.mem_singleton] at mem
    rw [chainedAnswers answers,mem]
    exact lowest
  · have started : ∃ s, chained.execute 3 .loaded (.start [97]) = some s ∧ s.resourceDependants = [([98],[97])] :=
      ⟨_,rfl,rfl⟩
    obtain ⟨s',result',dependants⟩ := started
    have same : s' = s := Fuel.Monotone.same (fun depth s s' => executeMonotone (.start [97]) s depth s') result' result
    rw [same] at dependants
    refine ⟨Acc.intro _ (fun other pair => Acc.intro _ (fun last next => ?_)),fun _ _ _ => trivial⟩
    obtain ⟨dependant,mem,answers,_⟩ := pair
    rw [dependants,List.mem_singleton] at mem
    cases mem
    rw [chainedAnswers answers] at next
    obtain ⟨dependant,mem,_⟩ := next
    rw [dependants,List.mem_singleton] at mem
    cases mem

theorem chainedKept : chained.Safe .loaded [.start [97],.stop [98]] :=
  dependenciesKept chained [.start [97],.stop [98]] chainedOrderly

def circular : ResourceManager :=
  ⟨(AList.insert [98] ⟨[[97]],[],[]⟩ ∅).insert [97] ⟨[[98]],[],[]⟩,fun _ => true⟩

theorem stopForever {depth : Nat} {dependant : Text} {rest : List Text} (active : s.m_state name ≠ .Stopped)
    (range : rangeOf s.resourceDependants name = dependant :: rest)
    (found : manager.GetResource s dependant = some dependant) (apart : dependant ≠ name)
    (forever : manager.Stop depth s dependant = none) : manager.Stop (depth + 1) s name = none := by
  have step : manager.stopDependant (manager.Stop depth) name s dependant = none := by
    unfold stopDependant
    rw [found]
    exact (if_pos apart).trans forever
  unfold Stop OnStop
  rw [if_neg active,range,List.foldlM_cons,step]
  rfl

theorem stopCircular (depth : Nat) (first : s.m_state [97] = .Started) (second : s.m_state [98] = .Started)
    (dependants : s.resourceDependants = [([97],[98]),([98],[97])]) :
    circular.Stop depth s [97] = none ∧ circular.Stop depth s [98] = none := by
  have active {name : Text} (up : s.m_state name = .Started) : s.m_state name ≠ .Stopped := by
    rw [up]
    exact ResourceState.noConfusion
  have ofFirst : rangeOf s.resourceDependants [97] = [[98]] := by
    rw [dependants]
    decide
  have ofSecond : rangeOf s.resourceDependants [98] = [[97]] := by
    rw [dependants]
    decide
  have foundFirst : circular.GetResource s [97] = some [97] := getResourceSelf (by decide) (active first)
  have foundSecond : circular.GetResource s [98] = some [98] := getResourceSelf (by decide) (active second)
  induction depth with
  | zero => exact ⟨rfl,rfl⟩
  | succ depth ih =>
    exact ⟨stopForever (active first) ofFirst foundSecond (by decide) ih.2,
      stopForever (active second) ofSecond foundFirst (by decide) ih.1⟩

theorem circularNeverStops : ¬circular.Safe .loaded [.start [97],.stop [97]] := by
  intro safe
  have started : ∃ s, circular.execute 3 .loaded (.start [97]) = some s ∧ s.m_state [97] = .Started ∧
      s.m_state [98] = .Started ∧ s.resourceDependants = [([97],[98]),([98],[97])] := ⟨_,rfl,rfl,rfl,rfl⟩
  obtain ⟨s,result,first,second,dependants⟩ := started
  obtain ⟨depth,s',stopped⟩ := (safe.2 3 s result).2.1
  have exist : [97] ∈ circular.m_resources := by decide
  have forever := (stopCircular depth first second dependants).1
  unfold execute at stopped
  dsimp only at stopped
  rw [if_pos exist,forever] at stopped
  cases stopped

end Citizen.Resources.ResourceManager
