import Citizen.Security.AccessDecision

/-! The principals in whose name code runs, and `CheckPrivilege` in their name. -/
namespace Citizen.Security

structure PrincipalSource where
  m_principals : List Principal
  deriving DecidableEq

inductive StackEntry where
  | ref (principal : Principal)
  | source (source : PrincipalSource)
  deriving DecidableEq

variable {σ : Type}

def PrincipalSource.GetPrincipals.loop (iterator : σ → Principal → Option (Bool × σ)) : List Principal → σ → Option σ
  | [],s => some s
  | p :: rest,s => (iterator s p).bind (fun (accepted,s) => if accepted then some s else loop iterator rest s)

def PrincipalSource.GetPrincipals (source : PrincipalSource) (iterator : σ → Principal → Option (Bool × σ)) (s : σ) :
    Option σ :=
  GetPrincipals.loop iterator source.m_principals s

-- What `func` says to a source ends that source only.
def LoopPrincipalStack (func : σ → Principal → Option (Bool × σ)) : List StackEntry → σ → Option σ
  | [],s => some s
  | .ref p :: rest,s => (func s p).bind (fun (accepted,s) => if accepted then some s else LoopPrincipalStack func rest s)
  | .source source :: rest,s => (source.GetPrincipals func s).bind (LoopPrincipalStack func rest)

namespace Context

def checkNext (s : Context) (depth : Nat) (object : Object) (privilege : Bool) (p : Principal) : Option (Bool × Bool) :=
  (s.CheckPrivilege depth p object).map (fun granted => if granted then (true,true) else (false,privilege))

def CheckStack (s : Context) (depth : Nat) (g_principalStack : List StackEntry) (object : Object) : Option Bool :=
  if g_principalStack = [] then s.CheckPrivilege depth everyone object
  else LoopPrincipalStack (s.checkNext depth object) g_principalStack false

def yielded (g_principalStack : List StackEntry) : List Principal :=
  g_principalStack.flatMap (fun entry =>
    match entry with
    | .ref p => [p]
    | .source source => source.m_principals)

def Granted (s : Context) (p : Principal) (o : Object) : Prop :=
  ∀ depth, s.m_principalInheritance.length < depth → s.CheckPrivilege depth p o = some true

def Answers (func : Bool → Principal → Option (Bool × Bool)) (granted : Principal → Bool) : Prop :=
  ∀ privilege p, func privilege p = some (if granted p then (true,true) else (false,privilege))

section Looping
variable {func : Bool → Principal → Option (Bool × Bool)} {granted : Principal → Bool}

theorem getPrincipals (answers : Answers func granted) (source : PrincipalSource) (privilege : Bool) :
    source.GetPrincipals func privilege = some (privilege || source.m_principals.any granted) := by
  unfold PrincipalSource.GetPrincipals
  induction source.m_principals generalizing privilege with
  | nil => simp [PrincipalSource.GetPrincipals.loop]
  | cons p rest ih =>
    rw [PrincipalSource.GetPrincipals.loop,answers]
    cases allowed : granted p with
    | true => simp [allowed]
    | false => simp [allowed,ih]

theorem loopPrincipalStack (answers : Answers func granted) (stack : List StackEntry) (privilege : Bool) :
    LoopPrincipalStack func stack privilege = some (privilege || (yielded stack).any granted) := by
  induction stack generalizing privilege with
  | nil => simp [LoopPrincipalStack,yielded]
  | cons entry rest ih =>
    cases entry with
    | ref p =>
      rw [LoopPrincipalStack,answers]
      cases allowed : granted p with
      | true => simp [allowed,yielded]
      | false => simp [allowed,yielded,ih]
    | source source =>
      rw [LoopPrincipalStack,getPrincipals answers]
      simp [yielded,ih,Bool.or_assoc]

end Looping

variable {s : Context} {o : Object}

theorem grantedDecides {p : Principal} :
    s.Granted p o ↔ s.Applies .Allow (s.Explored p) o ∧ ¬s.Applies .Deny (s.Explored p) o := by
  obtain ⟨granted,ended⟩ := checkEnds s p o
  have checked := ended _ (Nat.lt_succ_self _)
  rw [← checkDecides checked]
  constructor
  · intro all
    exact Option.some.inj (checked.symm.trans (all _ (Nat.lt_succ_self _)))
  · rintro rfl
    exact ended

theorem checkStack (s : Context) (stack : List StackEntry) (o : Object) : ∃ granted,
    (∀ depth, s.m_principalInheritance.length < depth → s.CheckStack depth stack o = some granted) ∧
      (granted = true ↔ stack = [] ∧ s.Granted everyone o ∨ ∃ p ∈ yielded stack, s.Granted p o) := by
  classical
  let one (p : Principal) : Bool := decide (s.Granted p o)
  have answer (p : Principal) (depth : Nat) (enough : s.m_principalInheritance.length < depth) :
      s.CheckPrivilege depth p o = some (one p) := by
    obtain ⟨granted,ended⟩ := checkEnds s p o
    rw [ended depth enough]
    congr 1
    rw [Bool.eq_iff_iff,decide_eq_true_iff,grantedDecides,checkDecides (ended _ (Nat.lt_succ_self _))]
  by_cases empty : stack = []
  · refine ⟨one everyone,fun depth enough => ?_,?_⟩
    · rw [CheckStack,if_pos empty,answer everyone depth enough]
    · simp [one,empty,yielded]
  · refine ⟨(yielded stack).any one,fun depth enough => ?_,?_⟩
    · have answers : Answers (s.checkNext depth o) one := fun privilege p => by
        rw [checkNext,answer p depth enough]
        rfl
      rw [CheckStack,if_neg empty,loopPrincipalStack answers,Bool.false_or]
    · simp [one,empty]

theorem stackDecided (s : Context) (stack : List StackEntry) (o : Object) (yields : stack = [] ∨ yielded stack ≠ []) :
    ∃ granted, (∀ depth, s.m_principalInheritance.length < depth → s.CheckStack depth stack o = some granted) ∧
      (granted = true ↔ stack = [] ∧ s.Granted everyone o ∨ ∃ p ∈ yielded stack, s.Granted p o) ∧
      (s.Granted everyone o → s.Applies .Allow (· = everyone) o →
        (∀ p ∈ yielded stack, ¬s.Applies .Deny (s.Explored p) o) → granted = true) := by
  obtain ⟨granted,ends,decides⟩ := checkStack s stack o
  refine ⟨granted,ends,decides,fun everyoneGranted own undenied => decides.mpr ?_⟩
  rcases yields with empty | someone
  · exact .inl ⟨empty,everyoneGranted⟩
  · obtain ⟨p,mem⟩ := List.exists_mem_of_ne_nil _ someone
    refine .inr ⟨p,mem,grantedDecides.mpr ⟨?_,undenied p mem⟩⟩
    obtain ⟨e,listed,kind,above,same⟩ := own
    exact ⟨e,listed,kind,above,.inl same⟩

def commandDenied : Context where
  m_aces := [⟨.of (text "command"),everyone,.Allow⟩,⟨.of (text "command"),.of (text "player"),.Deny⟩]
  m_principalInheritance := []

def adminStack : List StackEntry := [.source ⟨[]⟩,.ref (.of (text "admin"))]

theorem stackDecidedAdmin : ∃ granted,
    (∀ depth, 0 < depth → commandDenied.CheckStack depth adminStack (.of (text "command")) = some granted) ∧
    (granted = true ↔ adminStack = [] ∧ commandDenied.Granted everyone (.of (text "command")) ∨
      ∃ p ∈ yielded adminStack, commandDenied.Granted p (.of (text "command"))) ∧
    (commandDenied.Granted everyone (.of (text "command")) →
      commandDenied.Applies .Allow (· = everyone) (.of (text "command")) →
      (∀ p ∈ yielded adminStack, ¬commandDenied.Applies .Deny (commandDenied.Explored p) (.of (text "command"))) →
        granted = true) :=
  stackDecided commandDenied adminStack (.of (text "command")) (.inr (by decide))

theorem everyoneCommand : commandDenied.Granted everyone (.of (text "command")) := by
  obtain ⟨granted,ended⟩ := checkEnds commandDenied everyone (.of (text "command"))
  have allowed : commandDenied.CheckPrivilege 1 everyone (.of (text "command")) = some true := by
    unfold CheckPrivilege
    rw [commandWhole]
    decide
  rwa [← allowed.symm.trans (ended 1 (by decide))] at ended

theorem deniedOnStack : ¬∀ (s : Context) (stack : List StackEntry) (o : Object) (granted : Bool),
    (∀ depth, s.m_principalInheritance.length < depth → s.CheckStack depth stack o = some granted) →
      (granted = true ↔ s.Granted everyone o ∨ ∃ p ∈ yielded stack, s.Granted p o) := by
  intro claimed
  obtain ⟨granted,ends,_⟩ := checkStack commandDenied [.ref (.of (text "player"))] (.of (text "command"))
  have refused : commandDenied.CheckStack 1 [.ref (.of (text "player"))] (.of (text "command")) = some false := by
    unfold CheckStack LoopPrincipalStack checkNext CheckPrivilege
    rw [commandWhole]
    decide
  have taken := (claimed _ _ _ granted ends).mpr (.inl everyoneCommand)
  rw [taken] at ends
  cases (ends 1 (by decide)).symm.trans refused

end Context
end Citizen.Security
