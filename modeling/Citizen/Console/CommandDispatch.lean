import Citizen.Console.Variables
import Citizen.Lib.CString
import Citizen.Lib.Numeral
import Citizen.Security.PrincipalStack

/-! `ConsoleCommandManager::InvokeDirect`: the overloads of a name, the privilege of the name, and which overload runs. -/
namespace Citizen.Console
open Citizen.Security

structure ConsoleExecutionContext where
  arguments : List Text
  contextRef : Text

/-- What a call of a `THandler` comes to; it returns `false` with a text in the error buffer, returns `true` after
it ran the command, or the command throws. -/
inductive Attempt where
  | refused (errorBuffer : Text)
  | completed
  | threw
  deriving DecidableEq

def Attempt.ran : Attempt → Bool
  | .refused _ => false
  | .completed | .threw => true

abbrev THandler := ConsoleExecutionContext → Option Attempt

namespace ConsoleCommandFunction
variable {V : Type}

inductive Parameter (V : Type) where
  | argument (typeName : Text) (Parse : Text → Option V)
  | ProgramArguments
  | ExternalContext

inductive Argument (V : Type) where
  | argument (value : V)
  | ProgramArguments (argList : List Text)
  | ExternalContext (contextRef : Text)

def Parameter.isProgramArguments : Parameter V → Bool
  | .ProgramArguments => true
  | _ => false

def NeedsArgumentCheck (parameters : List (Parameter V)) : Bool := !parameters.getLast?.any Parameter.isProgramArguments

def CallInternal (func : List (Argument V) → Bool) (context : ConsoleExecutionContext) :
    List (Parameter V) → (iterator argIterator : Nat) → (tuple : List (Argument V)) → Option Attempt
  | [],_,_,tuple => some (if func tuple then .completed else .threw)
  | .argument typeName Parse :: rest,iterator,argIterator,tuple => do
    let input ← context.arguments[argIterator]?
    match Parse input with
    | some value => CallInternal func context rest (iterator + 1) (argIterator + 1) (tuple ++ [.argument value])
    | none =>
      let shown ← context.arguments[iterator]?
      some (.refused (text "Could not convert argument " ++ Numeral.numeral 10 iterator ++ text " (" ++ shown ++
        text ") to " ++ typeName ++ text "\n"))
  | .ProgramArguments :: rest,iterator,argIterator,tuple =>
    CallInternal func context rest (iterator + 1) (argIterator + 1)
      (tuple ++ [.ProgramArguments (context.arguments.drop argIterator)])
  | .ExternalContext :: rest,iterator,argIterator,tuple =>
    CallInternal func context rest (iterator + 1) argIterator (tuple ++ [.ExternalContext context.contextRef])

def Call (parameters : List (Parameter V)) (func : List (Argument V) → Bool) : THandler := fun context =>
  if NeedsArgumentCheck parameters && parameters.length ≠ context.arguments.length then
    some (.refused (text "Argument count mismatch (passed " ++ Numeral.numeral 10 context.arguments.length ++
      text ", wanted " ++ Numeral.numeral 10 parameters.length ++ text ")\n"))
  else CallInternal func context parameters 0 0 []

end ConsoleCommandFunction

structure CommandEntry where
  name : Text
  function : THandler

structure ConsoleCommandManager where
  m_entries : List CommandEntry
  FallbackEvent : Text → List Text → Text → Bool
  AccessDeniedEvent : Text → Bool

structure Invocation where
  attempts : List (CommandEntry × Attempt)
  printed : Option Text

namespace ConsoleCommandManager

def equal_range (s : ConsoleCommandManager) (commandName : Text) : List CommandEntry :=
  s.m_entries.filter (fun e => key e.name = key commandName)

def tryOverloads (context : ConsoleExecutionContext) : List CommandEntry → Option (List (CommandEntry × Attempt))
  | [] => some []
  | e :: rest => do
    let attempt ← e.function context
    if attempt.ran then some [(e,attempt)]
    else (tryOverloads context rest).map ((e,attempt) :: ·)

def errorBuffer (attempts : List (CommandEntry × Attempt)) : Option Text :=
  match attempts.getLast? with
  | some (_,.refused buffer) => some buffer
  | _ => none

/-- Each manager as it is when the invocation comes to it; `fallbacks` are those of the fallback context, of that
one's, and so on. -/
def InvokeDirect (seCheckPrivilege : Text → Bool) (commandName : Text) (context : ConsoleExecutionContext)
    (s : ConsoleCommandManager) (fallbacks : List ConsoleCommandManager) : Option Invocation :=
  match s.equal_range commandName with
  | [] =>
    if s.FallbackEvent commandName context.arguments context.contextRef then
      match fallbacks with
      | fallbackContext :: rest => InvokeDirect seCheckPrivilege commandName context fallbackContext rest
      | [] =>
        some ⟨[],if context.contextRef = [] then
          some (text "No such command " ++ commandName.takeWhile (fun b => b ≠ 0) ++ text ".\n") else none⟩
    else some ⟨[],none⟩
  | functionAttempts =>
    if seCheckPrivilege (text "command." ++ commandName) then
      (tryOverloads context functionAttempts).map (fun attempts => ⟨attempts,errorBuffer attempts⟩)
    else
      some ⟨[],if s.AccessDeniedEvent commandName then some (text "Access denied for command " ++ commandName ++ text ".\n")
        else none⟩

end ConsoleCommandManager

def seCheckPrivilege (s : Security.Context) (g_principalStack : List StackEntry) (object : Text) : Bool :=
  s.CheckStack (s.m_principalInheritance.length + 1) g_principalStack (.of object) = some true

def Holds (s : Security.Context) (g_principalStack : List StackEntry) (object : Text) : Prop :=
  g_principalStack = [] ∧ s.Granted Context.everyone (.of object) ∨
    ∃ p ∈ Context.yielded g_principalStack, s.Granted p (.of object)

theorem seCheckPrivilegeHolds {s : Security.Context} {stack : List StackEntry} {object : Text} :
    seCheckPrivilege s stack object = true ↔ Holds s stack object := by
  obtain ⟨granted,ends,decides⟩ := Context.checkStack s stack (.of object)
  unfold seCheckPrivilege Holds
  rw [ends _ (Nat.lt_succ_self _),decide_eq_true_iff,Option.some_inj,decides]

def Attempt.refuses : Option Attempt → Bool
  | some attempt => !attempt.ran
  | none => false

def Invocation.ran (r : Invocation) : List CommandEntry := (r.attempts.filter (fun attempt => attempt.2.ran)).map Prod.fst

namespace ConsoleCommandManager

/-- The entries whose names the registry cannot tell from `commandName`. -/
def offering (commandName : Text) (s : ConsoleCommandManager) : List CommandEntry :=
  s.m_entries.filter (fun e => sameUpToCase (cString e.name) (cString commandName))

def managersBefore (commandName : Text) (managers : List ConsoleCommandManager) : List ConsoleCommandManager :=
  managers.takeWhile (fun s => (offering commandName s).isEmpty)

/-- The overloads of the first manager that has any, where those before it let it go on. -/
def candidates (commandName : Text) (context : ConsoleExecutionContext) (managers : List ConsoleCommandManager) :
    List CommandEntry :=
  if (managersBefore commandName managers).all (fun s =>
      s.FallbackEvent commandName context.arguments context.contextRef) then
    (managers.drop (managersBefore commandName managers).length).head?.elim [] (offering commandName)
  else []

def reached (context : ConsoleExecutionContext) (overloads : List CommandEntry) : Option CommandEntry :=
  overloads.find? (fun e => !Attempt.refuses (e.function context))

def Accepts (context : ConsoleExecutionContext) (e : CommandEntry) : Bool := (e.function context).any Attempt.ran

structure Authorised (holds : Text → Prop) (commandName : Text) (context : ConsoleExecutionContext)
    (overloads : List CommandEntry) (r : Invocation) : Prop where
  named : ∀ e ∈ r.ran, sameUpToCase (cString e.name) (cString commandName)
  privileged : ∀ e ∈ r.ran, holds (text "command." ++ e.name)
  granted : holds (text "command." ++ commandName) → r.ran = (overloads.find? (Accepts context)).toList
  denied : ¬holds (text "command." ++ commandName) → r.ran = []

section Dispatch
variable {context : ConsoleExecutionContext} {commandName : Text} {check : Text → Bool}

section
variable {e : CommandEntry} (rest : List CommandEntry) {attempt : Attempt}
  (called : e.function context = some attempt)
include called

theorem tryRefuses (refused : attempt.ran = false) : reached context (e :: rest) = reached context rest ∧
      tryOverloads context (e :: rest) = (tryOverloads context rest).map ((e,attempt) :: ·) ∧
      (e :: rest).find? (Accepts context) = rest.find? (Accepts context) := by
  refine ⟨List.find?_cons_of_neg ?_,?_,List.find?_cons_of_neg ?_⟩
  · simp [called,Attempt.refuses,refused]
  · simp [tryOverloads,called,refused]
  · simp [Accepts,called,refused]

theorem tryRuns (ran : attempt.ran = true) : reached context (e :: rest) = some e ∧
      tryOverloads context (e :: rest) = some [(e,attempt)] ∧ (e :: rest).find? (Accepts context) = some e := by
  refine ⟨List.find?_cons_of_pos ?_,?_,List.find?_cons_of_pos ?_⟩
  · simp [called,Attempt.refuses,ran]
  · simp [tryOverloads,called,ran]
  · simp [Accepts,called,ran]

end

variable {e : CommandEntry}

theorem tryMissing (rest : List CommandEntry) (called : e.function context = none) :
    reached context (e :: rest) = some e ∧ tryOverloads context (e :: rest) = none := by
  refine ⟨List.find?_cons_of_pos ?_,?_⟩
  · simp [called,Attempt.refuses]
  · simp [tryOverloads,called]

theorem tryRefused {overloads : List CommandEntry} (refused : reached context overloads = none) :
    ∃ attempts, tryOverloads context overloads = some attempts ∧ attempts.filter (fun attempt => attempt.2.ran) = [] ∧
      overloads.find? (Accepts context) = none := by
  induction overloads with
  | nil => exact ⟨[],rfl,rfl,rfl⟩
  | cons e rest ih =>
    cases called : e.function context with
    | none => cases refused.symm.trans (tryMissing rest called).1
    | some attempt =>
      cases ran : attempt.ran with
      | true => cases refused.symm.trans (tryRuns rest called ran).1
      | false =>
        obtain ⟨same,tried,accepts⟩ := tryRefuses rest called ran
        obtain ⟨attempts,later,nothing,none⟩ := ih (same ▸ refused)
        refine ⟨(e,attempt) :: attempts,by rw [tried,later]; rfl,?_,accepts.trans none⟩
        rw [List.filter_cons_of_neg (by simp [ran]),nothing]

theorem tryReached {overloads : List CommandEntry} (reach : reached context overloads = some e) :
    (tryOverloads context overloads).isSome = (e.function context).isSome ∧
      ∀ attempts, tryOverloads context overloads = some attempts →
        (attempts.filter (fun attempt => attempt.2.ran)).map Prod.fst = [e] ∧ overloads.find? (Accepts context) = some e := by
  induction overloads with
  | nil => cases reach
  | cons first rest ih =>
    cases called : first.function context with
    | none =>
      obtain ⟨here,undefined⟩ := tryMissing rest called
      cases reach.symm.trans here
      rw [undefined,called]
      exact ⟨rfl,nofun⟩
    | some attempt =>
      cases ran : attempt.ran with
      | true =>
        obtain ⟨here,tried,accepts⟩ := tryRuns rest called ran
        cases reach.symm.trans here
        rw [tried,called]
        refine ⟨rfl,fun attempts same => ?_⟩
        cases same
        exact ⟨by simp [ran],accepts⟩
      | false =>
        obtain ⟨same,tried,accepts⟩ := tryRefuses rest called ran
        obtain ⟨ends,runs⟩ := ih (same ▸ reach)
        rw [tried,Option.isSome_map,accepts]
        refine ⟨ends,fun attempts mapped => ?_⟩
        obtain ⟨later,there,rfl⟩ := Option.map_eq_some_iff.mp mapped
        rw [List.filter_cons_of_neg (by simp [ran])]
        exact runs later there

def Dispatched (check : Text → Bool) (commandName : Text) (context : ConsoleExecutionContext) (overloads : List CommandEntry)
    (r : Option Invocation) : Prop :=
  if overloads ≠ [] ∧ check (text "command." ++ commandName) then
    r = (tryOverloads context overloads).map (fun attempts => ⟨attempts,errorBuffer attempts⟩)
  else ∃ printed, r = some ⟨[],printed⟩

theorem offeringRange (s : ConsoleCommandManager) : s.equal_range commandName = offering commandName s :=
  List.filter_congr (fun _ _ => decide_eq_decide.mpr
    ⟨fun same => List.map_injective_iff.mpr (fun _ _ equal => BitVec.eq_of_toNat_eq equal) same,congrArg (List.map BitVec.toNat)⟩)

variable {s : ConsoleCommandManager} (fallbacks : List ConsoleCommandManager)

theorem candidatesHere
    (some : offering commandName s ≠ []) : candidates commandName context (s :: fallbacks) = offering commandName s := by
  have none : managersBefore commandName (s :: fallbacks) = [] :=
    List.takeWhile_cons_of_neg (by rwa [List.isEmpty_iff])
  rw [candidates,none]
  rfl

theorem candidatesLater (none : offering commandName s = []) :
    candidates commandName context (s :: fallbacks) =
      if s.FallbackEvent commandName context.arguments context.contextRef then candidates commandName context fallbacks
      else [] := by
  have one : managersBefore commandName (s :: fallbacks) = s :: managersBefore commandName fallbacks :=
    List.takeWhile_cons_of_pos (by rwa [List.isEmpty_iff])
  rw [candidates,one,List.all_cons]
  by_cases goesOn : s.FallbackEvent commandName context.arguments context.contextRef = true
  · rw [if_pos goesOn,goesOn,Bool.true_and]
    rfl
  · rw [if_neg goesOn,if_neg (fun both => goesOn (Bool.and_eq_true_iff.mp both).1)]

theorem candidateNamed {managers : List ConsoleCommandManager}
    (mem : e ∈ candidates commandName context managers) : sameUpToCase (cString e.name) (cString commandName) := by
  unfold candidates at mem
  split at mem
  · cases first : (managers.drop (managersBefore commandName managers).length).head? with
    | none =>
      rw [first] at mem
      cases mem
    | some s =>
      rw [first] at mem
      exact of_decide_eq_true (List.mem_filter.mp mem).2
  · cases mem

theorem invokeNothing (printed : Option Text) : Dispatched check commandName context [] (some ⟨[],printed⟩) := by
  unfold Dispatched
  rw [if_neg (fun both => both.1 rfl)]
  exact ⟨printed,rfl⟩

theorem invokeHere (here : offering commandName s ≠ []) :
    Dispatched check commandName context (candidates commandName context (s :: fallbacks))
      (s.InvokeDirect check commandName context fallbacks) := by
  rw [candidatesHere fallbacks here]
  obtain ⟨e,rest,first⟩ := List.exists_cons_of_ne_nil here
  unfold Dispatched InvokeDirect
  rw [offeringRange,first]
  dsimp only
  rw [← first]
  by_cases granted : check (text "command." ++ commandName) = true
  · rw [if_pos ⟨here,granted⟩,if_pos granted]
  · rw [if_neg (fun both => granted both.2),if_neg granted]
    exact ⟨_,rfl⟩

theorem invokeCandidates (s : ConsoleCommandManager) (fallbacks : List ConsoleCommandManager) :
    Dispatched check commandName context (candidates commandName context (s :: fallbacks))
      (s.InvokeDirect check commandName context fallbacks) := by
  induction fallbacks generalizing s with
  | nil =>
    by_cases none : offering commandName s = []
    · rw [candidatesLater [] none]
      unfold InvokeDirect
      rw [offeringRange,none]
      dsimp only
      split <;> exact invokeNothing _
    · exact invokeHere [] none
  | cons fallbackContext fallbacks ih =>
    by_cases none : offering commandName s = []
    · rw [candidatesLater _ none]
      unfold InvokeDirect
      rw [offeringRange,none]
      dsimp only
      split
      · exact ih fallbackContext
      · exact invokeNothing _
    · exact invokeHere (fallbackContext :: fallbacks) none

section Privileges
variable {holds : Text → Prop} {overloads : List CommandEntry}

/-- What the handlers must be like for the overload that is reached to run under its own privilege. -/
def Reaches (holds : Text → Prop) (commandName : Text) (context : ConsoleExecutionContext) (overloads : List CommandEntry) : Prop :=
  ∀ e, reached context overloads = some e →
    (e.function context).isSome ∧ (sameUpToCase e.name commandName ∨ holds (text "command." ++ e.name))

theorem triedAuthorised (granted : holds (text "command." ++ commandName))
    (cased : ∀ name, sameUpToCase name commandName → holds (text "command." ++ name))
    (named : ∀ e ∈ overloads, sameUpToCase (cString e.name) (cString commandName)) :
    (∃ r, (tryOverloads context overloads).map (fun attempts => (⟨attempts,errorBuffer attempts⟩ : Invocation)) = some r ∧
      Authorised holds commandName context overloads r) ↔ Reaches holds commandName context overloads := by
  cases reach : reached context overloads with
  | none =>
    obtain ⟨attempts,tried,nothing,none⟩ := tryRefused reach
    have ranNone : Invocation.ran ⟨attempts,errorBuffer attempts⟩ = [] := by rw [Invocation.ran,nothing]; rfl
    refine iff_of_true ⟨_,by rw [tried]; rfl,?_,?_,?_,?_⟩ (fun e there => by cases reach.symm.trans there)
    · rw [ranNone]
      exact nofun
    · rw [ranNone]
      exact nofun
    · rw [ranNone,none]
      exact fun _ => rfl
    · exact fun _ => ranNone
  | some e =>
    obtain ⟨ends,runs⟩ := tryReached reach
    constructor
    · rintro ⟨r,tried,authorised⟩ e' same
      cases reach.symm.trans same
      obtain ⟨attempts,there,rfl⟩ := Option.map_eq_some_iff.mp tried
      have ranIt : Invocation.ran ⟨attempts,errorBuffer attempts⟩ = [e] := (runs attempts there).1
      refine ⟨ends ▸ there ▸ rfl,.inr (authorised.privileged e ?_)⟩
      rw [ranIt]
      exact List.mem_singleton_self e
    · intro condition
      obtain ⟨defined,spelled⟩ := condition e reach
      have privileged : holds (text "command." ++ e.name) := spelled.elim (cased e.name) id
      obtain ⟨attempts,there⟩ := Option.isSome_iff_exists.mp (ends.trans defined)
      obtain ⟨ranIt,first⟩ := runs attempts there
      have ranOne : Invocation.ran ⟨attempts,errorBuffer attempts⟩ = [e] := ranIt
      refine ⟨_,by rw [there]; rfl,?_,?_,?_,?_⟩
      · rw [ranOne]
        intro e' mem
        rw [List.mem_singleton.mp mem]
        exact named e (List.mem_of_find?_eq_some reach)
      · rw [ranOne]
        intro e' mem
        rw [List.mem_singleton.mp mem]
        exact privileged
      · rw [ranOne,first]
        exact fun _ => rfl
      · exact fun refused => absurd granted refused

theorem invokedAuthorised (checks : ∀ object, check object = true ↔ holds object)
    (cased : ∀ name, sameUpToCase name commandName → holds (text "command." ++ commandName) → holds (text "command." ++ name))
    (s : ConsoleCommandManager) (fallbacks : List ConsoleCommandManager) :
    (∃ r, s.InvokeDirect check commandName context fallbacks = some r ∧
      Authorised holds commandName context (candidates commandName context (s :: fallbacks)) r) ↔
    (holds (text "command." ++ commandName) →
      Reaches holds commandName context (candidates commandName context (s :: fallbacks))) := by
  have dispatched : Dispatched check commandName context (candidates commandName context (s :: fallbacks))
      (s.InvokeDirect check commandName context fallbacks) := invokeCandidates s fallbacks
  unfold Dispatched at dispatched
  split at dispatched
  · rename_i both
    have granted := (checks _).mp both.2
    rw [dispatched,triedAuthorised granted (fun name same => cased name same granted) (fun _ mem => candidateNamed mem)]
    exact ⟨fun each _ => each,fun each => each granted⟩
  · rename_i neither
    obtain ⟨printed,dispatched⟩ := dispatched
    have nothing (granted : holds (text "command." ++ commandName)) : candidates commandName context (s :: fallbacks) = [] := by
      by_contra some
      exact neither ⟨some,(checks _).mpr granted⟩
    refine iff_of_true ⟨_,dispatched,nofun,nofun,fun granted => ?_,fun _ => rfl⟩ (fun granted e reach => ?_)
    · rw [nothing granted]
      rfl
    · rw [nothing granted] at reach
      cases reach

theorem casedObject {name : Text} (same : sameUpToCase name commandName) :
    Object.of (text "command." ++ name) = Object.of (text "command." ++ commandName) := by
  refine congrArg Object.mk (Subtype.ext ?_)
  show (text "command." ++ name).map tolower = (text "command." ++ commandName).map tolower
  rw [List.map_append,List.map_append,same]

end Privileges
end Dispatch

theorem dispatchAuthorised (acl : Security.Context) (stack : List StackEntry) (s : ConsoleCommandManager)
    (fallbacks : List ConsoleCommandManager) (commandName : Text) (context : ConsoleExecutionContext) :
    (∃ r, s.InvokeDirect (seCheckPrivilege acl stack) commandName context fallbacks = some r ∧
      Authorised (Holds acl stack) commandName context (candidates commandName context (s :: fallbacks)) r) ↔
    (Holds acl stack (text "command." ++ commandName) →
      Reaches (Holds acl stack) commandName context (candidates commandName context (s :: fallbacks))) := by
  refine invokedAuthorised (fun _ => seCheckPrivilegeHolds) (fun name same granted => ?_) s fallbacks
  unfold Holds at granted ⊢
  rwa [casedObject same]

def quitEntry : CommandEntry := ⟨text "quit",ConsoleCommandFunction.Call [] (fun (_ : List (ConsoleCommandFunction.Argument Text)) => true)⟩

def quitManager : ConsoleCommandManager := ⟨[quitEntry],fun _ _ _ => true,fun _ => true⟩

def quitDenied : Security.Context where
  m_aces := [⟨.of (text "command"),Context.everyone,.Allow⟩,⟨.of (text "command.quit"),Context.everyone,.Deny⟩]
  m_principalInheritance := []

theorem commandObjects {object : Text} (before : beforeLast (byte '.') (object.map tolower) = some (text "command")) :
    Context.objects (.of object) = [.of object,.of (text "command")] :=
  congrArg (_ :: ·) ((Context.objectParentsSome before).trans
    (congrArg (_ :: ·) (Context.objectParentsNone (by decide))))

theorem quitRefused : ¬Holds quitDenied [] (text "command.quit") := by
  rw [← seCheckPrivilegeHolds]
  unfold seCheckPrivilege Context.CheckStack Context.CheckPrivilege
  rw [commandObjects (by decide)]
  decide

theorem quitNulGranted : Holds quitDenied [] (text "command." ++ (text "quit" ++ [0])) := by
  rw [← seCheckPrivilegeHolds]
  unfold seCheckPrivilege Context.CheckStack Context.CheckPrivilege
  rw [commandObjects (by decide)]
  decide

theorem quitBehindNul : ∃ r,
    quitManager.InvokeDirect (seCheckPrivilege quitDenied []) (text "quit" ++ [0]) ⟨[],[]⟩ [] = some r ∧
    r.ran = [quitEntry] ∧ ¬Holds quitDenied [] (text "command." ++ quitEntry.name) := by
  refine ⟨⟨[(quitEntry,.completed)],none⟩,?_,rfl,quitRefused⟩
  have chosen : quitManager.equal_range (text "quit" ++ [0]) = [quitEntry] :=
    List.filter_cons_of_pos (by decide)
  unfold InvokeDirect
  rw [chosen]
  dsimp only
  rw [if_pos (seCheckPrivilegeHolds.mpr quitNulGranted)]
  rfl

end ConsoleCommandManager
end Citizen.Console
