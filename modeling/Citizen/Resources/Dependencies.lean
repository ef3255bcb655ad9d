import Citizen.Lib.Fuel
import Citizen.Resources.ResourceManager

/-! What the declared dependencies of resources ask for, and that deeper calls change no result. -/
namespace Citizen.Resources

theorem memRangeOf {multimap : List (Text × Text)} {name value : Text} :
    value ∈ rangeOf multimap name ↔ (name,value) ∈ multimap := by
  unfold rangeOf
  rw [(List.perm_insertionSort _ _).mem_iff,List.mem_dedup,List.mem_map]
  constructor
  · rintro ⟨⟨key,_⟩,mem,rfl⟩
    obtain ⟨entry,same⟩ := List.mem_filter.mp mem
    rwa [← of_decide_eq_true same]
  · intro mem
    exact ⟨(name,value),List.mem_filter.mpr ⟨mem,decide_eq_true rfl⟩,rfl⟩

theorem memErase {multimap : List (Text × Text)} {name key value : Text} :
    (key,value) ∈ erase multimap name ↔ (key,value) ∈ multimap ∧ key ≠ name := by
  unfold erase
  rw [List.mem_filter,decide_eq_true_iff]

namespace ResourceManager
variable {manager : ResourceManager} {s : State} {name other identifier : Text}

theorem assignedSelf {state : ResourceState} : (s.assign name state).m_state name = state := Function.update_self _ _ _

theorem assignedOther {state : ResourceState} (apart : other ≠ name) :
    (s.assign name state).m_state other = s.m_state other := Function.update_of_ne apart _ _

def IsConstraint (expression : Text) : Prop := expression.head? = some (byte '/')

instance (expression : Text) : Decidable (IsConstraint expression) := inferInstanceAs (Decidable (_ = _))

def Answers (manager : ResourceManager) (identifier name : Text) : Prop :=
  name ∈ manager.m_resources ∧ (name = identifier ∨ name ∈ manager.providers identifier)

def DependsOn (manager : ResourceManager) (name other : Text) : Prop :=
  ∃ dependency ∈ manager.dependencies name, ¬IsConstraint dependency ∧ manager.Answers dependency other

def Satisfied (manager : ResourceManager) (m_state : Text → ResourceState) : Prop :=
  ∀ name, m_state name = .Started → ∀ dependency ∈ manager.dependencies name, ¬IsConstraint dependency →
    ∃ other, manager.Answers dependency other ∧ m_state other = .Started

structure Recorded (manager : ResourceManager) (s : State) : Prop where
  exist : ∀ name, s.m_state name ≠ .Stopped → name ∈ manager.m_resources
  found : ∀ name, s.m_state name = .Started → ∀ dependency ∈ manager.dependencies name, ¬IsConstraint dependency →
    ∃ other, manager.Answers dependency other ∧ s.m_state other = .Started ∧ (other,name) ∈ s.resourceDependants

theorem Recorded.satisfied (recorded : manager.Recorded s) : manager.Satisfied s.m_state := by
  intro name started dependency mem unconstrained
  obtain ⟨other,answers,up,_⟩ := recorded.found name started dependency mem unconstrained
  exact ⟨other,answers,up⟩

theorem providersExist (mem : name ∈ manager.providers identifier) : name ∈ manager.m_resources := by
  obtain ⟨⟨_,_⟩,inside,rfl⟩ := List.mem_map.mp mem
  obtain ⟨entry,here,made⟩ := List.mem_flatMap.mp (List.mem_filter.mp inside).1
  obtain ⟨_,_,same⟩ := List.mem_map.mp made
  cases same
  exact AList.mem_keys.mpr (List.mem_map_of_mem here)

theorem getResourceAnswers (found : manager.GetResource s identifier = some other) :
    manager.Answers identifier other := by
  have own : (if identifier ∈ manager.m_resources then some identifier else none) = some other →
      manager.Answers identifier other := by
    intro same
    split at same
    · rename_i mem
      cases same
      exact ⟨mem,.inl rfl⟩
    · cases same
  unfold GetResource at found
  dsimp only at found
  generalize (if identifier ∈ manager.m_resources then some identifier else none) = resource at found own
  split at found
  · rcases Option.or_eq_some_iff.mp found with provided | ⟨_,itself⟩
    · have mem := List.mem_of_find?_eq_some provided
      exact ⟨providersExist mem,.inr mem⟩
    · exact own itself
  · exact own found

theorem getResourceSelf (mem : name ∈ manager.m_resources) (active : s.m_state name ≠ .Stopped) :
    manager.GetResource s name = some name := by
  unfold GetResource
  dsimp only
  rw [if_pos mem,if_neg]
  rintro (none | stopped)
  · cases none
  · exact active stopped

theorem stopDependantWider {shallow deep : State → Text → Option State}
    (wider : ∀ s name s', shallow s name = some s' → deep s name = some s') {dependant : Text} {s' : State}
    (result : manager.stopDependant shallow name s dependant = some s') :
    manager.stopDependant deep name s dependant = some s' := by
  unfold stopDependant at result ⊢
  split at result
  · exact result
  · split at result
    · rename_i apart
      rw [if_pos apart]
      exact wider _ _ _ result
    · rename_i same
      rwa [if_neg same]

theorem stopMonotone (depth : Nat) (s : State) (name : Text) (s' : State)
    (stopped : manager.Stop depth s name = some s') : manager.Stop (depth + 1) s name = some s' := by
  induction depth generalizing s name s' with
  | zero => cases stopped
  | succ depth ih =>
    unfold Stop at stopped ⊢
    split at stopped
    · rename_i still
      rwa [if_pos still]
    · rename_i active
      rw [if_neg active]
      obtain ⟨last,handled,rfl⟩ := Option.map_eq_some_iff.mp stopped
      obtain ⟨between,looped,rfl⟩ := Option.map_eq_some_iff.mp handled
      refine Option.map_eq_some_iff.mpr ⟨_,Option.map_eq_some_iff.mpr ⟨between,?_,rfl⟩,rfl⟩
      exact Fuel.extendsFold (fun _ _ _ result => stopDependantWider ih result) _ s between looped

section
variable {shallow deep : State → Text → Option (State × Bool)}
  (wider : ∀ s name result, shallow s name = some result → deep s name = some result)

include wider

variable {result : State × Bool}

theorem loadDepsWider {dependencies : List Text} {success : Bool}
    (loaded : manager.loadDeps shallow name dependencies success s = some result) :
    manager.loadDeps deep name dependencies success s = some result := by
  induction dependencies generalizing success s with
  | nil => exact loaded
  | cons dependency rest ih =>
    unfold loadDeps at loaded ⊢
    split at loaded
    · exact ih loaded
    · exact ih loaded
    · split at loaded
      · exact loaded
      · dsimp only at loaded ⊢
        split at loaded
        · rename_i running
          rw [if_pos running]
          exact ih loaded
        · rename_i down
          rw [if_neg down]
          split at loaded
          · cases loaded
          · rename_i started
            rw [wider _ _ _ started]
            exact ih loaded
          · rename_i failed
            rw [wider _ _ _ failed]
            exact loaded

theorem onBeforeStartWider (ready : manager.OnBeforeStart shallow name s = some result) :
    manager.OnBeforeStart deep name s = some result := by
  unfold OnBeforeStart at ready ⊢
  split at ready
  · exact ready
  · split at ready
    · cases ready
    · rename_i failed
      rw [loadDepsWider wider failed]
      exact ready
    · rename_i loaded
      rw [loadDepsWider wider loaded]
      exact ready

theorem startDependantWider {dependant : Text} {s' : State}
    (result : manager.startDependant shallow s dependant = some s') :
    manager.startDependant deep s dependant = some s' := by
  unfold startDependant at result ⊢
  split at result
  · exact result
  · obtain ⟨inner,here,rfl⟩ := Option.map_eq_some_iff.mp result
    exact Option.map_eq_some_iff.mpr ⟨inner,wider _ _ _ here,rfl⟩

theorem onStartWider (started : manager.OnStart shallow name s = some result) :
    manager.OnStart deep name s = some result := by
  unfold OnStart at started ⊢
  split at started
  · exact started
  · obtain ⟨last,waited,rfl⟩ := Option.map_eq_some_iff.mp started
    obtain ⟨between,looped,rfl⟩ := Option.map_eq_some_iff.mp waited
    refine Option.map_eq_some_iff.mpr ⟨_,Option.map_eq_some_iff.mpr ⟨between,?_,rfl⟩,rfl⟩
    exact Fuel.extendsFold (fun _ _ _ result => startDependantWider wider result) _ _ between looped

end

theorem startMonotone (depth : Nat) (s : State) (name : Text) (result : State × Bool)
    (started : manager.Start depth s name = some result) : manager.Start (depth + 1) s name = some result := by
  induction depth generalizing s name result with
  | zero => cases started
  | succ depth ih =>
    unfold Start at started ⊢
    split at started
    · rename_i already
      rwa [if_pos already]
    · rename_i down
      rw [if_neg down]
      dsimp only at started ⊢
      have prepared {result : State × Bool} (ready : (if s.m_state name = .Starting then some (s,true) else
          manager.OnBeforeStart (manager.Start depth) name (s.assign name .Starting)) = some result) :
          (if s.m_state name = .Starting then some (s,true) else
            manager.OnBeforeStart (manager.Start (depth + 1)) name (s.assign name .Starting)) = some result := by
        split at ready
        · rename_i starting
          rwa [if_pos starting]
        · rename_i idle
          rw [if_neg idle]
          exact onBeforeStartWider ih ready
      split at started
      · cases started
      · rename_i failed
        rw [prepared failed]
        exact started
      · rename_i ready
        rw [prepared ready]
        dsimp only
        split at started
        · cases started
        · rename_i failed
          rw [onStartWider ih failed]
          exact started
        · rename_i done
          rw [onStartWider ih done]
          exact started

end ResourceManager
end Citizen.Resources
