import Citizen.Lib.Table
import Citizen.Lib.Text
import Mathlib.Data.List.Lex
import Mathlib.Data.List.Sort

/-! Starting and stopping resources, with the handlers of the dependency loader. -/
namespace Citizen.Resources

inductive ResourceState where
  | Uninitialized
  | Stopped
  | Starting
  | Started
  | Stopping
  deriving DecidableEq

inductive ConstraintMatchResult where
  | Pass
  | Fail
  | NoConstraint
  deriving DecidableEq

structure MetaData where
  dependency : List Text
  dependencie : List Text
  provide : List Text

structure ResourceManager where
  m_resources : Table Text MetaData
  outcomes : Nat → Bool

structure State where
  m_state : Text → ResourceState
  resourceDependencies : List (Text × Text)
  resourceDependants : List (Text × Text)
  asked : Nat
  history : List (Text → ResourceState)

def State.loaded : State := ⟨fun _ => .Stopped,[],[],0,[]⟩

def State.assign (s : State) (name : Text) (state : ResourceState) : State :=
  { s with
    m_state := Function.update s.m_state name state
    history := Function.update s.m_state name state :: s.history }

def rangeOf (multimap : List (Text × Text)) (name : Text) : List Text :=
  (((multimap.filter (fun entry => entry.1 = name)).map Prod.snd).dedup).insertionSort
    (fun first second => first.map BitVec.toNat ≤ second.map BitVec.toNat)

def erase (multimap : List (Text × Text)) (name : Text) : List (Text × Text) :=
  multimap.filter (fun entry => entry.1 ≠ name)

def State.eraseDependencies (s : State) (name : Text) : State :=
  { s with resourceDependencies := erase s.resourceDependencies name }

def State.eraseDependants (s : State) (name : Text) : State :=
  { s with resourceDependants := erase s.resourceDependants name }

namespace ResourceManager
variable (manager : ResourceManager)

def m_resourceProvides : List (Text × Text) :=
  manager.m_resources.entries.flatMap (fun e => e.2.provide.map (fun identifier => (identifier,e.1)))

def providers (identifier : Text) : List Text :=
  (manager.m_resourceProvides.filter (fun entry => entry.1 = identifier)).map Prod.snd

def GetResource (s : State) (identifier : Text) : Option Text :=
  let resource := if identifier ∈ manager.m_resources then some identifier else none
  if resource = none ∨ s.m_state identifier = .Stopped then
    ((manager.providers identifier).find? (fun provider => s.m_state provider = .Started ∨ resource = none)).or resource
  else resource

def dependencies (name : Text) : List Text :=
  match manager.m_resources.lookup name with
  | none => []
  | some metaData => metaData.dependency ++ metaData.dependencie

def ask (s : State) : State × Bool := ({ s with asked := s.asked + 1 },manager.outcomes s.asked)

def MatchConstraint (s : State) (constraintExpression : Text) : State × ConstraintMatchResult :=
  if constraintExpression.head? ≠ some (byte '/') then (s,.NoConstraint)
  else
    match manager.ask s with
    | (s,true) => (s,.Pass)
    | (s,false) => (s,.Fail)

section
variable (start : State → Text → Option (State × Bool)) (stop : State → Text → Option State)

def loadDeps (name : Text) : List Text → Bool → State → Option (State × Bool)
  | [],success,s => some (s,success)
  | dependency :: rest,success,s =>
    match manager.MatchConstraint s dependency with
    | (s,.Pass) => loadDeps name rest success s
    | (s,.Fail) => loadDeps name rest false s
    | (s,.NoConstraint) =>
      match manager.GetResource s dependency with
      | none => some (s,false)
      | some other =>
        let s := { s with resourceDependants := (other,name) :: s.resourceDependants }
        if s.m_state other = .Starting ∨ s.m_state other = .Started then loadDeps name rest success s
        else
          match start s other with
          | none => none
          | some (s,true) => loadDeps name rest success s
          | some (s,false) =>
            some ({ s with resourceDependencies := (other,name) :: s.resourceDependencies },false)

def OnBeforeStart (name : Text) (s : State) : Option (State × Bool) :=
  match manager.ask s with
  | (s,false) => some (s,false)
  | (s,true) =>
    match manager.loadDeps start name (manager.dependencies name) true s with
    | none => none
    | some (s,false) => some (s,false)
    | some (s,true) => some (manager.ask s)

def startDependant (s : State) (dependant : Text) : Option State :=
  match manager.GetResource s dependant with
  | none => some s
  | some dependant => (start s dependant).map Prod.fst

def startWaiting (name : Text) (s : State) : Option State :=
  ((rangeOf s.resourceDependencies name).foldlM (manager.startDependant start) s).map (State.eraseDependencies · name)

def OnStart (name : Text) (s : State) : Option (State × Bool) :=
  match manager.ask s with
  | (s,false) => some (s,false)
  | (s,true) => (manager.startWaiting start name s).map (fun s => (s,true))

def stopDependant (name : Text) (s : State) (dependant : Text) : Option State :=
  match manager.GetResource s dependant with
  | none => some s
  | some dependant => if dependant ≠ name then stop s dependant else some s

def OnStop (name : Text) (s : State) : Option State :=
  ((rangeOf s.resourceDependants name).foldlM (manager.stopDependant stop name) s).map (State.eraseDependants · name)

end

def fail (name : Text) (s : State) : State × Bool :=
  if s.m_state name ≠ .Started then (s.assign name .Stopped,false) else (s,false)

def Start : Nat → State → Text → Option (State × Bool)
  | 0,_,_ => none
  | depth + 1,s,name =>
    if s.m_state name = .Started then some (s.assign name .Started,true)
    else
      let ready :=
        if s.m_state name = .Starting then some (s,true)
        else manager.OnBeforeStart (Start depth) name (s.assign name .Starting)
      match ready with
      | none => none
      | some (s,false) => some (fail name s)
      | some (s,true) =>
        match manager.OnStart (Start depth) name s with
        | none => none
        | some (s,false) => some (fail name s)
        | some (s,true) => some (s.assign name .Started,true)

def Stop : Nat → State → Text → Option State
  | 0,_,_ => none
  | depth + 1,s,name =>
    if s.m_state name = .Stopped then some s
    else (manager.OnStop (Stop depth) name s).map (fun s => s.assign name .Stopped)

inductive Command where
  | start (name : Text)
  | stop (name : Text)

def execute (depth : Nat) (s : State) : Command → Option State
  | .start name => if name ∈ manager.m_resources then (manager.Start depth s name).map Prod.fst else some s
  | .stop name => if name ∈ manager.m_resources then manager.Stop depth s name else some s

end ResourceManager
end Citizen.Resources
