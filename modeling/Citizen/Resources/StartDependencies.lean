import Citizen.Resources.Dependencies

/-! What starting a resource does, as long as what it depends on forms no cycle and nothing waits for it. -/
namespace Citizen.Resources.ResourceManager
variable {manager : ResourceManager} {s s' : State} {name : Text}

def Starts (manager : ResourceManager) (s : State) (name other : Text) : Prop :=
  manager.DependsOn name other ∧ other ≠ name ∧ s.m_state other ≠ .Started

/-- The resource is started already; or neither it nor what it depends on, as far as that is not started, has
a dependant waiting for it, and there is no cycle among them. -/
def Startable (manager : ResourceManager) (s : State) (name : Text) : Prop :=
  s.m_state name = .Started ∨
    Acc (fun other name => manager.Starts s name other) name ∧
      ∀ other, Relation.ReflTransGen (manager.Starts s) name other →
        ∀ waiting, (other,waiting) ∉ s.resourceDependencies

structure Moved (manager : ResourceManager) (reach : Text → Prop) (s s' : State) : Prop where
  recorded : manager.Recorded s'
  started : ∀ other, s.m_state other = .Started → s'.m_state other = .Started
  outside : ∀ other, ¬reach other → s'.m_state other = s.m_state other
  quiet : ∀ other, s'.m_state other = .Starting → s.m_state other = .Starting
  dependants : s.resourceDependants ⊆ s'.resourceDependants
  history : ∃ new, s'.history = new ++ s.history ∧ ∀ m_state ∈ new, manager.Satisfied m_state

variable {reach wide : Text → Prop}

theorem Moved.refl (recorded : manager.Recorded s) : manager.Moved reach s s :=
  ⟨recorded,fun _ up => up,fun _ _ => rfl,fun _ up => up,fun _ mem => mem,[],rfl,
    fun _ none => absurd none List.not_mem_nil⟩

theorem Moved.trans {s₁ s₂ s₃ : State} (first : manager.Moved reach s₁ s₂) (second : manager.Moved reach s₂ s₃) :
    manager.Moved reach s₁ s₃ := by
  obtain ⟨early,before,earlySatisfied⟩ := first.history
  obtain ⟨late,after,lateSatisfied⟩ := second.history
  refine ⟨second.recorded,fun other up => second.started other (first.started other up),
    fun other out => (second.outside other out).trans (first.outside other out),
    fun other up => first.quiet other (second.quiet other up),fun _ mem => second.dependants (first.dependants mem),
    late ++ early,?_,fun m_state mem => ?_⟩
  · rw [after,before,List.append_assoc]
  · rcases List.mem_append.mp mem with recent | old
    · exact lateSatisfied m_state recent
    · exact earlySatisfied m_state old

theorem Moved.wider (moved : manager.Moved reach s s') (inside : ∀ other, reach other → wide other) :
    manager.Moved wide s s' :=
  ⟨moved.recorded,moved.started,fun other out => moved.outside other (fun within => out (inside other within)),
    moved.quiet,moved.dependants,moved.history⟩

theorem Moved.same {s₁ : State} (moved : manager.Moved reach s s₁) (states : s'.m_state = s₁.m_state)
    (dependants : s₁.resourceDependants ⊆ s'.resourceDependants) (history : s'.history = s₁.history) :
    manager.Moved reach s s' := by
  refine ⟨⟨?_,fun name up dependency mem unconstrained => ?_⟩,?_,?_,?_,fun _ mem => dependants (moved.dependants mem),?_⟩
  · rw [states]
    exact moved.recorded.exist
  · rw [states] at up ⊢
    obtain ⟨other,answers,running,entry⟩ := moved.recorded.found name up dependency mem unconstrained
    exact ⟨other,answers,running,dependants entry⟩
  · rw [states]
    exact moved.started
  · rw [states]
    exact moved.outside
  · rw [states]
    exact moved.quiet
  · rw [history]
    exact moved.history

def Loaded (manager : ResourceManager) (name : Text) (dependencies : List Text) (s : State) : Prop :=
  ∀ dependency ∈ dependencies, ¬IsConstraint dependency → ∃ other, manager.Answers dependency other ∧
    (other = name ∨ s.m_state other = .Started) ∧ (other,name) ∈ s.resourceDependants

theorem Recorded.assigned (recorded : manager.Recorded s) (exist : name ∈ manager.m_resources)
    (down : s.m_state name ≠ .Started) {state : ResourceState}
    (found : state = .Started → manager.Loaded name (manager.dependencies name) s) :
    manager.Recorded (s.assign name state) := by
  refine ⟨fun other active => ?_,fun other up dependency mem unconstrained => ?_⟩
  · by_cases same : other = name
    · rwa [same]
    · rw [assignedOther same] at active
      exact recorded.exist other active
  · by_cases same : other = name
    · rw [same] at up mem ⊢
      rw [assignedSelf] at up
      obtain ⟨answer,answers,running,entry⟩ := found up dependency mem unconstrained
      refine ⟨answer,answers,?_,entry⟩
      by_cases itself : answer = name
      · rw [itself,assignedSelf,up]
      · rw [assignedOther itself]
        exact running.resolve_left itself
    · rw [assignedOther same] at up
      obtain ⟨answer,answers,running,entry⟩ := recorded.found other up dependency mem unconstrained
      have apart : answer ≠ name := fun itself => down (itself ▸ running)
      exact ⟨answer,answers,(assignedOther apart).trans running,entry⟩

variable {below : Text → Text → Prop}

theorem Moved.through (exist : name ∈ manager.m_resources) (down : s.m_state name ≠ .Started)
    (recorded : manager.Recorded s) {s₂ : State} {state : ResourceState} (settled : state ≠ .Starting)
    (moved : manager.Moved (Relation.TransGen below name) (s.assign name .Starting) s₂)
    (self : s₂.m_state name = .Starting)
    (found : state = .Started → manager.Loaded name (manager.dependencies name) s₂) :
    manager.Moved (Relation.ReflTransGen below name) s (s₂.assign name state) := by
  have unstarted : s₂.m_state name ≠ .Started := by
    rw [self]
    exact ResourceState.noConfusion
  have starting : manager.Recorded (s.assign name .Starting) :=
    recorded.assigned exist down (fun same => ResourceState.noConfusion same)
  have last := moved.recorded.assigned exist unstarted found
  obtain ⟨new,grown,satisfied⟩ := moved.history
  refine ⟨last,fun other up => ?_,fun other out => ?_,fun other up => ?_,moved.dependants,
    (s₂.assign name state).m_state :: new ++ [(s.assign name .Starting).m_state],?_,fun m_state mem => ?_⟩
  · have apart : other ≠ name := fun same => down (same ▸ up)
    rw [assignedOther apart]
    exact moved.started other ((assignedOther apart).trans up)
  · have apart : other ≠ name := fun same => out (same ▸ .refl)
    rw [assignedOther apart,moved.outside other (fun inside => out inside.to_reflTransGen),assignedOther apart]
  · have apart : other ≠ name := by
      rintro rfl
      exact settled (assignedSelf.symm.trans up)
    rw [assignedOther apart] at up
    exact (assignedOther apart).symm.trans (moved.quiet other up)
  · have before : (s.assign name .Starting).history = (s.assign name .Starting).m_state :: s.history := rfl
    have after : (s₂.assign name state).history = (s₂.assign name state).m_state :: s₂.history := rfl
    rw [after,grown,before]
    simp
  · rcases List.mem_append.mp mem with recent | old
    · rcases List.mem_cons.mp recent with rfl | between
      · exact last.satisfied
      · exact satisfied m_state between
    · rw [List.mem_singleton.mp old]
      exact starting.satisfied

structure Ready (manager : ResourceManager) (below : Text → Text → Prop) (s : State) (name : Text) : Prop where
  exist : name ∈ manager.m_resources
  recorded : manager.Recorded s
  covers : ∀ first second, manager.Starts s first second → below first second
  idle : ∀ other, Relation.ReflTransGen below name other → s.m_state other ≠ .Starting
  unwaited : ∀ other, Relation.ReflTransGen below name other → ∀ waiting, (other,waiting) ∉ s.resourceDependencies

structure Begun (manager : ResourceManager) (below : Text → Text → Prop) (name : Text) (s s' : State) (ok : Bool) :
    Prop where
  moved : manager.Moved (Relation.ReflTransGen below name) s s'
  done : ok = true → s'.m_state name = .Started ∧ s'.resourceDependencies ⊆ s.resourceDependencies

theorem matchCases (manager : ResourceManager) (s : State) (expression : Text) :
    ¬IsConstraint expression ∧ manager.MatchConstraint s expression = (s,.NoConstraint) ∨
      IsConstraint expression ∧ (manager.MatchConstraint s expression = ({ s with asked := s.asked + 1 },.Pass) ∨
        manager.MatchConstraint s expression = ({ s with asked := s.asked + 1 },.Fail)) := by
  unfold MatchConstraint
  split
  · rename_i plain
    exact .inl ⟨plain,rfl⟩
  · rename_i constraint
    refine .inr ⟨Decidable.not_not.mp constraint,?_⟩
    unfold ask
    cases manager.outcomes s.asked with
    | true => exact .inl rfl
    | false => exact .inr rfl

theorem startDeeper {shallow deep : Nat} (le : shallow ≤ deep) (s : State) (name : Text) (result : State × Bool)
    (started : manager.Start shallow s name = some result) : manager.Start deep s name = some result := by
  have monotone : Fuel.Monotone (fun depth (input : State × Text) => manager.Start depth input.1 input.2) :=
    fun depth input result => startMonotone depth input.1 input.2 result
  exact monotone.le le (s,name) result started

theorem Loaded.cons {dependency : Text} {rest : List Text}
    (head : ¬IsConstraint dependency → ∃ other, manager.Answers dependency other ∧
      (other = name ∨ s.m_state other = .Started) ∧ (other,name) ∈ s.resourceDependants)
    (tail : manager.Loaded name rest s) : manager.Loaded name (dependency :: rest) s := by
  intro other mem unconstrained
  rcases List.mem_cons.mp mem with rfl | mem
  · exact head unconstrained
  · exact tail other mem unconstrained

section
variable (starts : ∀ other, below name other → ∀ s, manager.Ready below s other →
    ∃ depth s' ok, manager.Start depth s other = some (s',ok) ∧ manager.Begun below other s s' ok)
  {s₁ : State} (covers : ∀ first second, manager.Starts s₁ first second → below first second)
  (acyclic : ¬Relation.TransGen below name name) (self : s₁.m_state name = .Starting)
  (idle : ∀ other, Relation.TransGen below name other → s₁.m_state other ≠ .Starting)
  (unwaited : ∀ other, Relation.TransGen below name other → ∀ waiting, (other,waiting) ∉ s₁.resourceDependencies)

include starts covers acyclic self idle unwaited

theorem loadDepsEnds (dependencies : List Text) (declared : dependencies ⊆ manager.dependencies name) (success : Bool)
    {s₂ : State} (moved : manager.Moved (Relation.TransGen below name) s₁ s₂)
    (fewer : s₂.resourceDependencies ⊆ s₁.resourceDependencies) :
    ∃ depth s₃ ok, manager.loadDeps (manager.Start depth) name dependencies success s₂ = some (s₃,ok) ∧
      manager.Moved (Relation.TransGen below name) s₂ s₃ ∧
      (ok = true → s₃.resourceDependencies ⊆ s₂.resourceDependencies ∧ manager.Loaded name dependencies s₃) := by
  induction dependencies generalizing success s₂ with
  | nil =>
    exact ⟨0,s₂,success,rfl,.refl moved.recorded,fun _ =>
      ⟨fun _ mem => mem,fun _ none => absurd none List.not_mem_nil⟩⟩
  | cons dependency rest ih =>
    obtain ⟨here,others⟩ := List.cons_subset.mp declared
    unfold loadDeps
    rcases matchCases manager s₂ dependency with ⟨plain,matched⟩ | ⟨constraint,matched⟩
    · rw [matched]
      dsimp only
      cases found : manager.GetResource s₂ dependency with
      | none => exact ⟨0,s₂,false,rfl,.refl moved.recorded,fun fine => absurd fine Bool.false_ne_true⟩
      | some other =>
        have answers := getResourceAnswers found
        let noted : State := { s₂ with resourceDependants := (other,name) :: s₂.resourceDependants }
        have noting : manager.Moved (Relation.TransGen below name) s₂ noted :=
          (Moved.refl moved.recorded).same rfl (List.subset_cons_self _ _) rfl
        have still : s₂.m_state name = .Starting := (moved.outside name acyclic).trans self
        -- the head has been found, and the rest is loaded from a later state
        have continued {s' : State} (later : manager.Moved (Relation.TransGen below name) noted s')
            (kept : s'.resourceDependencies ⊆ s₂.resourceDependencies) (head : other = name ∨ s'.m_state other = .Started) :
            ∃ depth s₃ ok, manager.loadDeps (manager.Start depth) name rest success s' = some (s₃,ok) ∧
              manager.Moved (Relation.TransGen below name) s₂ s₃ ∧
              (ok = true → s₃.resourceDependencies ⊆ s₂.resourceDependencies ∧
                manager.Loaded name (dependency :: rest) s₃) := by
          obtain ⟨depth,s₃,ok,result,last,done⟩ := ih others success (moved.trans (noting.trans later))
            (fun _ mem => fewer (kept mem))
          refine ⟨depth,s₃,ok,result,(noting.trans later).trans last,fun fine =>
            ⟨fun _ mem => kept ((done fine).1 mem),?_⟩⟩
          have entry : (other,name) ∈ s₃.resourceDependants := last.dependants (later.dependants List.mem_cons_self)
          exact .cons (fun _ => ⟨other,answers,head.imp id (last.started other),entry⟩) (done fine).2
        have started₁ (down : s₂.m_state other ≠ .Started) : s₁.m_state other ≠ .Started :=
          fun up => down (moved.started other up)
        have depends : manager.DependsOn name other := ⟨dependency,here,plain,answers⟩
        dsimp only
        by_cases running : s₂.m_state other = .Starting ∨ s₂.m_state other = .Started
        · have head : other = name ∨ noted.m_state other = .Started := by
            rcases running with starting | up
            · refine .inl (Decidable.by_contra (fun apart => ?_))
              have down : s₁.m_state other ≠ .Started := started₁ (by rw [starting]; exact ResourceState.noConfusion)
              exact idle other (.single (covers name other ⟨depends,apart,down⟩)) (moved.quiet other starting)
            · exact .inr up
          obtain ⟨depth,s₃,ok,result,rest⟩ := continued (.refl noting.recorded) (fun _ mem => mem) head
          exact ⟨depth,s₃,ok,(if_pos running).trans result,rest⟩
        · have apart : other ≠ name := fun same => running (.inl (same ▸ still))
          have edge : below name other := covers name other ⟨depends,apart,started₁ (fun up => running (.inr up))⟩
          have under {x : Text} (path : Relation.ReflTransGen below other x) : Relation.TransGen below name x :=
            .head' edge path
          have ready : manager.Ready below noted other :=
            ⟨answers.1,noting.recorded,
              fun first second pair => covers first second ⟨pair.1,pair.2.1,fun up => pair.2.2 (moved.started second up)⟩,
              fun x path up => idle x (under path) (moved.quiet x up),
              fun x path waiting mem => unwaited x (under path) waiting (fewer mem)⟩
          obtain ⟨first,s',ok,result,begun⟩ := starts other edge noted ready
          have moving := begun.moved.wider (fun x path => under path)
          cases ok with
          | false =>
            refine ⟨first,{ s' with resourceDependencies := (other,name) :: s'.resourceDependencies },false,
              (if_neg running).trans ?_,?_,fun fine => absurd fine Bool.false_ne_true⟩
            · rw [result]
            · exact (noting.trans moving).same rfl (fun _ mem => mem) rfl
          | true =>
            obtain ⟨up,kept⟩ := begun.done rfl
            obtain ⟨second,s₃,ok,loaded,rest⟩ := continued moving kept (.inr up)
            refine ⟨max first second,s₃,ok,(if_neg running).trans ?_,rest⟩
            rw [startDeeper (Nat.le_max_left first second) _ _ _ result]
            exact loadDepsWider (startDeeper (Nat.le_max_right first second)) loaded
    · -- a constraint asks for no resource
      have asked : manager.Moved (Relation.TransGen below name) s₂ { s₂ with asked := s₂.asked + 1 } :=
        (Moved.refl moved.recorded).same rfl (fun _ mem => mem) rfl
      have skipped (success : Bool) :
          ∃ depth s₃ ok, manager.loadDeps (manager.Start depth) name rest success { s₂ with asked := s₂.asked + 1 } =
            some (s₃,ok) ∧ manager.Moved (Relation.TransGen below name) s₂ s₃ ∧
              (ok = true → s₃.resourceDependencies ⊆ s₂.resourceDependencies ∧
                manager.Loaded name (dependency :: rest) s₃) := by
        obtain ⟨depth,s₃,ok,result,later,done⟩ := ih others success (moved.trans asked) fewer
        exact ⟨depth,s₃,ok,result,asked.trans later,fun fine =>
          ⟨(done fine).1,.cons (fun unconstrained => absurd constraint unconstrained) (done fine).2⟩⟩
      rcases matched with pass | fail
      · rw [pass]
        exact skipped success
      · rw [fail]
        exact skipped false

end

theorem acyclicOf (accessible : Acc (fun other name => below name other) name) : ¬Relation.TransGen below name name := by
  intro cycle
  have swapped : Relation.TransGen (fun other name => below name other) name name :=
    Relation.transGen_swap.mpr cycle
  have whole := accessible.transGen
  induction whole with
  | intro name _ ih => exact ih name swapped accessible cycle swapped

theorem startCancelled {depth : Nat} (down : s.m_state name ≠ .Started) (idle : s.m_state name ≠ .Starting) {s₂ : State}
    (before : manager.OnBeforeStart (manager.Start depth) name (s.assign name .Starting) = some (s₂,false)) :
    manager.Start (depth + 1) s name = some (fail name s₂) := by
  unfold Start
  rw [if_neg down,if_neg idle,before]

theorem startHandled {depth : Nat} (ok : Bool) (down : s.m_state name ≠ .Started) (idle : s.m_state name ≠ .Starting)
    {s₂ s₃ : State}
    (before : manager.OnBeforeStart (manager.Start depth) name (s.assign name .Starting) = some (s₂,true))
    (after : manager.OnStart (manager.Start depth) name s₂ = some (s₃,ok)) :
    manager.Start (depth + 1) s name = some (if ok = true then (s₃.assign name .Started,true) else fail name s₃) := by
  unfold Start
  rw [if_neg down,if_neg idle,before]
  dsimp only
  rw [after]
  cases ok with
  | true => rfl
  | false => rfl

section
variable {start : State → Text → Option (State × Bool)}

theorem beforeCancelled (cancelled : manager.outcomes s.asked = false) :
    manager.OnBeforeStart start name s = some ({ s with asked := s.asked + 1 },false) := by
  unfold OnBeforeStart ask
  rw [cancelled]

theorem beforeLoaded {ok : Bool} (going : manager.outcomes s.asked = true)
    (loaded : manager.loadDeps start name (manager.dependencies name) true { s with asked := s.asked + 1 } =
      some (s',ok)) :
    manager.OnBeforeStart start name s = some (if ok = true then manager.ask s' else (s',false)) := by
  unfold OnBeforeStart
  have answer : manager.ask s = ({ s with asked := s.asked + 1 },true) := congrArg _ going
  rw [answer]
  dsimp only
  rw [loaded]
  cases ok with
  | true => rfl
  | false => rfl

theorem startUnwaited (unwaited : ∀ waiting, (name,waiting) ∉ s.resourceDependencies) :
    manager.startWaiting start name s = some (s.eraseDependencies name) := by
  have empty : rangeOf s.resourceDependencies name = [] :=
    List.eq_nil_iff_forall_not_mem.mpr (fun waiting mem => unwaited waiting (memRangeOf.mp mem))
  unfold startWaiting
  rw [empty]
  rfl

end

theorem Begun.again (recorded : manager.Recorded s) (up : s.m_state name = .Started) :
    manager.Begun below name s (s.assign name .Started) true := by
  have same : (s.assign name .Started).m_state = s.m_state := Function.update_eq_self_iff.mpr up.symm
  refine ⟨⟨⟨?_,?_⟩,?_,?_,?_,fun _ mem => mem,[(s.assign name .Started).m_state],rfl,?_⟩,
    fun _ => ⟨assignedSelf,fun _ mem => mem⟩⟩
  · rw [same]
    exact recorded.exist
  · rw [same]
    exact recorded.found
  · rw [same]
    exact fun _ running => running
  · rw [same]
    exact fun _ _ => rfl
  · rw [same]
    exact fun _ starting => starting
  · intro m_state mem
    rw [List.mem_singleton.mp mem,same]
    exact recorded.satisfied

section
variable (exist : name ∈ manager.m_resources) (down : s.m_state name ≠ .Started) (idle : s.m_state name ≠ .Starting)
  (recorded : manager.Recorded s) (acyclic : ¬Relation.TransGen below name name)

include exist down recorded acyclic

theorem startFailed {depth : Nat} {s₂ : State}
    (moved : manager.Moved (Relation.TransGen below name) (s.assign name .Starting) s₂)
    (failed : manager.Start (depth + 1) s name = some (fail name s₂)) :
    ∃ depth s' ok, manager.Start depth s name = some (s',ok) ∧ manager.Begun below name s s' ok := by
  have self : s₂.m_state name = .Starting := (moved.outside name acyclic).trans assignedSelf
  have unstarted : s₂.m_state name ≠ .Started := by
    rw [self]
    exact ResourceState.noConfusion
  have stopped : fail name s₂ = (s₂.assign name .Stopped,false) := if_pos unstarted
  exact ⟨depth + 1,s₂.assign name .Stopped,false,failed.trans (congrArg some stopped),
    moved.through exist down recorded ResourceState.noConfusion self (fun same => ResourceState.noConfusion same),
    fun fine => absurd fine Bool.false_ne_true⟩

include idle

theorem startLoaded {depth : Nat} {s₃ : State}
    (before : manager.OnBeforeStart (manager.Start depth) name (s.assign name .Starting) = some (manager.ask s₃))
    (moved : manager.Moved (Relation.TransGen below name) (s.assign name .Starting) s₃)
    (fewer : s₃.resourceDependencies ⊆ s.resourceDependencies)
    (found : manager.Loaded name (manager.dependencies name) s₃)
    (unwaited : ∀ waiting, (name,waiting) ∉ s.resourceDependencies) :
    ∃ depth s' ok, manager.Start depth s name = some (s',ok) ∧ manager.Begun below name s s' ok := by
  have built (n : Nat) : manager.Moved (Relation.TransGen below name) (s.assign name .Starting) { s₃ with asked := n } :=
    moved.same rfl (fun _ mem => mem) rfl
  have answer (ok : Bool) (building : manager.outcomes s₃.asked = ok) :
      manager.ask s₃ = ({ s₃ with asked := s₃.asked + 1 },ok) := congrArg _ building
  cases building : manager.outcomes s₃.asked with
  | false =>
    rw [answer false building] at before
    exact startFailed exist down recorded acyclic (built _) (startCancelled down idle before)
  | true =>
    rw [answer true building] at before
    cases handled : manager.outcomes (s₃.asked + 1) with
    | false =>
      refine startFailed exist down recorded acyclic (built (s₃.asked + 1 + 1)) (startHandled false down idle before ?_)
      unfold OnStart ask
      dsimp only
      rw [handled]
    | true =>
      let s₄ : State := { s₃ with asked := s₃.asked + 1 + 1 }
      have moved₄ : manager.Moved (Relation.TransGen below name) (s.assign name .Starting) (s₄.eraseDependencies name) :=
        moved.same rfl (fun _ mem => mem) rfl
      have none (waiting : Text) : (name,waiting) ∉ s₄.resourceDependencies := fun mem => unwaited waiting (fewer mem)
      have self : (s₄.eraseDependencies name).m_state name = .Starting := (moved₄.outside name acyclic).trans assignedSelf
      refine ⟨depth + 1,(s₄.eraseDependencies name).assign name .Started,true,startHandled true down idle before ?_,
        moved₄.through exist down recorded ResourceState.noConfusion self (fun _ => found),
        fun _ => ⟨assignedSelf,fun entry mem => fewer (List.mem_filter.mp mem).1⟩⟩
      unfold OnStart ask
      dsimp only
      rw [handled]
      dsimp only
      rw [startUnwaited none]
      rfl

end

theorem startEnds (accessible : Acc (fun other name => below name other) name) (s : State)
    (ready : manager.Ready below s name) :
    ∃ depth s' ok, manager.Start depth s name = some (s',ok) ∧ manager.Begun below name s s' ok := by
  induction accessible generalizing s with
  | intro name deeper ih =>
    have exist := ready.exist
    have acyclic := acyclicOf (Acc.intro name deeper)
    by_cases up : s.m_state name = .Started
    · exact ⟨1,s.assign name .Started,true,if_pos up,.again ready.recorded up⟩
    · have idle : s.m_state name ≠ .Starting := ready.idle name .refl
      -- `onResourceStarting` is asked first
      let s₁ : State := { s.assign name .Starting with asked := (s.assign name .Starting).asked + 1 }
      have starting : manager.Recorded (s.assign name .Starting) :=
        ready.recorded.assigned exist up (fun same => ResourceState.noConfusion same)
      have asked : manager.Moved (Relation.TransGen below name) (s.assign name .Starting) s₁ :=
        (Moved.refl starting).same rfl (fun _ mem => mem) rfl
      cases going : manager.outcomes s.asked with
      | false =>
        have cancelled := startCancelled up idle (@beforeCancelled manager _ name (manager.Start 0) going)
        exact startFailed exist up ready.recorded acyclic asked cancelled
      | true =>
        have other {x : Text} (path : Relation.TransGen below name x) : x ≠ name := fun same => acyclic (same ▸ path)
        have loop := @loadDepsEnds manager name below (fun other edge => ih other edge) s₁
          (fun first second pair => ready.covers first second ⟨pair.1,pair.2.1,fun run => pair.2.2 ?_⟩) acyclic
          assignedSelf (fun x path => ?_) (fun x path => ready.unwaited x path.to_reflTransGen)
          (manager.dependencies name) (List.Subset.refl _) true s₁ (.refl asked.recorded) (fun _ mem => mem)
        · obtain ⟨depth,s₃,ok,loaded,moved,done⟩ := loop
          have before := @beforeLoaded manager (s.assign name .Starting) s₃ name (manager.Start depth) ok going loaded
          cases ok with
          | false => exact startFailed exist up ready.recorded acyclic (asked.trans moved) (startCancelled up idle before)
          | true =>
            obtain ⟨fewer,found⟩ := done rfl
            exact startLoaded exist up idle ready.recorded acyclic before (asked.trans moved) fewer found
              (ready.unwaited name .refl)
        · by_cases same : second = name
          · rw [same] at run
            exact absurd run up
          · exact (assignedOther same).trans run
        · have before := ready.idle x path.to_reflTransGen
          have same : s₁.m_state x = s.m_state x := assignedOther (other path)
          rwa [same]

end Citizen.Resources.ResourceManager
