import Citizen.Security.PrincipalStack

/-! The console commands `add_ace` and `remove_ace`, and whose entries they change. -/
namespace Citizen.Security.Context

def isSelf (g_principalStack : List StackEntry) (principal : Text) : Bool :=
  (LoopPrincipalStack (fun isSelf (principalRef : Principal) =>
    some (if principal = principalRef.m_identifier then (true,true) else (false,isSelf))) g_principalStack false).getD false

def accessType (allow : Text) : Option AccessType :=
  if allow = text "allow" then some .Allow
  else if allow = text "deny" then some .Deny
  else none

def changeAce (change : Context → Principal → Object → AccessType → Context) (s : Context)
    (g_principalStack : List StackEntry) (principal object allow : Text) : Context × Option Text :=
  match accessType allow with
  | none => (s,some (text "Access type needs to be 'allow' or 'deny'.\n"))
  | some type =>
    if isSelf g_principalStack principal then (s,some (text "Changing ones own access is not permitted.\n"))
    else (change s (.of principal) (.of object) type,none)

def addAce := changeAce AddAccessControlEntry

def removeAce := changeAce RemoveAccessControlEntry

def OwnKept (stack : List StackEntry) (s s' : Context) : Prop :=
  ∀ p ∈ yielded stack, ∀ e : AccessControlEntry, e.principal = p → (e ∈ s'.m_aces ↔ e ∈ s.m_aces)

section Guard
variable {s : Context} {stack : List StackEntry} {principal : Text} {object : Object} {type : AccessType}

theorem isSelfIff : isSelf stack principal = true ↔ ∃ p ∈ yielded stack, principal = p.m_identifier := by
  have answers : Answers (fun isSelf (principalRef : Principal) =>
      some (if principal = principalRef.m_identifier then (true,true) else (false,isSelf)))
      (fun p => decide (principal = p.m_identifier)) := by
    intro privilege p
    simp only [decide_eq_true_iff]
  unfold isSelf
  rw [loopPrincipalStack answers]
  simp

theorem isSelfOf : isSelf stack principal = true ↔
    principal.map tolower = principal ∧ Principal.of principal ∈ yielded stack := by
  rw [isSelfIff]
  constructor
  · rintro ⟨p,mem,rfl⟩
    have same : Principal.of p.m_identifier = p := congrArg Principal.mk (Subtype.ext p.m_identifier.2)
    exact ⟨p.m_identifier.2,by rwa [same]⟩
  · rintro ⟨lower,mem⟩
    exact ⟨_,mem,lower.symm⟩

theorem ownKeptIff {s' : Context} {e : AccessControlEntry} (others : ∀ other ≠ e, other ∈ s'.m_aces ↔ other ∈ s.m_aces) :
    OwnKept stack s s' ↔ e.principal ∉ yielded stack ∨ (e ∈ s'.m_aces ↔ e ∈ s.m_aces) := by
  constructor
  · intro kept
    by_cases mem : e.principal ∈ yielded stack
    · exact .inr (kept _ mem e rfl)
    · exact .inl mem
  · rintro (foreign | same) p mem other rfl
    · exact others other (fun equal => foreign (equal ▸ mem))
    · by_cases equal : other = e
      · rw [equal]
        exact same
      · exact others other equal

theorem addedKept : OwnKept stack s (s.AddAccessControlEntry (.of principal) object type) ↔
    Principal.of principal ∉ yielded stack ∨ ⟨object,.of principal,type⟩ ∈ s.m_aces := by
  rw [@ownKeptIff s stack _ ⟨object,.of principal,type⟩ (fun other distinct => by simp [AddAccessControlEntry,distinct])]
  simp [AddAccessControlEntry]

theorem removedKept : OwnKept stack s (s.RemoveAccessControlEntry (.of principal) object type) ↔
    Principal.of principal ∉ yielded stack ∨ ⟨object,.of principal,type⟩ ∉ s.m_aces := by
  have others (other : AccessControlEntry) (distinct : other ≠ ⟨object,.of principal,type⟩) :
      other ∈ (s.RemoveAccessControlEntry (.of principal) object type).m_aces ↔ other ∈ s.m_aces := by
    unfold RemoveAccessControlEntry
    rw [List.mem_filter,decide_eq_true_iff,and_iff_left]
    rintro ⟨rfl,same,rfl⟩
    exact distinct (by rw [← same])
  rw [ownKeptIff others]
  simp [RemoveAccessControlEntry]

theorem ownKeptSame : OwnKept stack s s := fun _ _ _ _ => Iff.rfl

theorem changeAceKept {change : Context → Principal → Object → AccessType → Context} {object allow : Text}
    {kept : AccessType → Prop} (changed : ∀ type, OwnKept stack s (change s (.of principal) (.of object) type) ↔
      Principal.of principal ∉ yielded stack ∨ kept type) :
    OwnKept stack s (changeAce change s stack principal object allow).1 ↔
      principal.map tolower = principal ∨ Principal.of principal ∉ yielded stack ∨
        ∀ type, accessType allow = some type → kept type := by
  unfold changeAce
  cases found : accessType allow with
  | none => exact iff_of_true ownKeptSame (.inr (.inr nofun))
  | some type =>
    dsimp only
    by_cases self : isSelf stack principal = true
    · rw [if_pos self]
      exact iff_of_true ownKeptSame (.inl (isSelfOf.mp self).1)
    · rw [if_neg self,changed]
      constructor
      · exact fun either => .inr (either.imp_right (fun here _ same => Option.some.inj same ▸ here))
      · rintro (lower | foreign | all)
        · exact .inl (fun mem => self (isSelfOf.mpr ⟨lower,mem⟩))
        · exact .inl foreign
        · exact .inr (all type rfl)

end Guard

theorem noSelfGranting (s : Context) (stack : List StackEntry) (principal object allow : Text) :
    (OwnKept stack s (addAce s stack principal object allow).1 ↔
      principal.map tolower = principal ∨ Principal.of principal ∉ yielded stack ∨
        ∀ type, accessType allow = some type → ⟨.of object,.of principal,type⟩ ∈ s.m_aces) ∧
    (OwnKept stack s (removeAce s stack principal object allow).1 ↔
      principal.map tolower = principal ∨ Principal.of principal ∉ yielded stack ∨
        ∀ type, accessType allow = some type → ⟨.of object,.of principal,type⟩ ∉ s.m_aces) :=
  ⟨changeAceKept (fun _ => addedKept),changeAceKept (fun _ => removedKept)⟩

def admin : Principal := .of (text "group.admin")

theorem selfGranted :
    ¬OwnKept [.ref admin] fresh (addAce fresh [.ref admin] (text "Group.admin") (text "command.quit") (text "allow")).1 := by
  have same : Principal.of (text "Group.admin") = admin :=
    congrArg Principal.mk (Subtype.ext (by decide))
  have chosen : accessType (text "allow") = some .Allow := by decide
  have spelled : (text "Group.admin").map tolower ≠ text "Group.admin" := by decide
  unfold addAce
  rw [changeAceKept (fun _ => addedKept),same]
  rintro (lower | foreign | all)
  · exact spelled lower
  · exact foreign List.mem_cons_self
  · exact absurd (all _ chosen) List.not_mem_nil

end Citizen.Security.Context
