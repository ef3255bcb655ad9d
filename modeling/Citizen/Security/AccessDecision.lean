import Citizen.Lib.Run
import Citizen.Lib.Text
import Citizen.Lib.Visit

/-! `se::Context`: access control entries, inheritance between principals, and `CheckPrivilege`. -/
namespace Citizen.Security

abbrev Lowered := {t : Text // t.map tolower = t}

def lowered (t : Text) : Lowered := ⟨t.map tolower,tolowerLowered t⟩

structure Principal where
  m_identifier : Lowered
  deriving DecidableEq

structure Object where
  m_identifier : Lowered
  deriving DecidableEq

def Principal.of (principal : Text) : Principal := ⟨lowered principal⟩

def Object.of (identifier : Text) : Object := ⟨lowered identifier⟩

inductive AccessType where
  | Allow | Unset | Deny
  deriving DecidableEq, Repr

structure AccessControlEntry where
  object : Object
  principal : Principal
  type : AccessType
  deriving DecidableEq

structure Context where
  m_aces : List AccessControlEntry
  m_principalInheritance : List (Principal × Principal)

namespace Context

def fresh : Context := ⟨[],[]⟩

def AddPrincipalInheritance (s : Context) (child parent : Principal) : Context :=
  { s with m_principalInheritance := s.m_principalInheritance ++ [(child,parent)] }

def RemovePrincipalInheritance (s : Context) (child parent : Principal) : Context :=
  { s with m_principalInheritance :=
      s.m_principalInheritance.filter (fun it => ¬(it.1 = child ∧ it.2 = parent)) }

def AddAccessControlEntry (s : Context) (principal : Principal) (object : Object) (type : AccessType) : Context :=
  { s with m_aces := s.m_aces ++ [⟨object,principal,type⟩] }

def RemoveAccessControlEntry (s : Context) (principal : Principal) (object : Object) (type : AccessType) : Context :=
  { s with m_aces :=
      s.m_aces.filter (fun it => ¬(it.object = object ∧ it.principal = principal ∧ it.type = type)) }

inductive Operation where
  | addPrincipalInheritance (child parent : Principal)
  | removePrincipalInheritance (child parent : Principal)
  | addAccessControlEntry (principal : Principal) (object : Object) (type : AccessType)
  | removeAccessControlEntry (principal : Principal) (object : Object) (type : AccessType)
  deriving DecidableEq

def step (s : Context) : Operation → Context
  | .addPrincipalInheritance child parent => s.AddPrincipalInheritance child parent
  | .removePrincipalInheritance child parent => s.RemovePrincipalInheritance child parent
  | .addAccessControlEntry principal object type => s.AddAccessControlEntry principal object type
  | .removeAccessControlEntry principal object type => s.RemoveAccessControlEntry principal object type

def parents (s : Context) (principal : Principal) : List Principal :=
  (s.m_principalInheritance.filter (fun parenting => parenting.1 = principal)).map Prod.snd

def AddPrincipals (s : Context) (depth : Nat) (principal : Principal) (set : List Principal) :
    Option (List Principal) :=
  Visit.visit s.parents depth principal set

def everyone : Principal := .of (text "builtin.everyone")

def objectParents (tempObject : Text) : List Object :=
  match _h : beforeLast (byte '.') tempObject with
  | none => []
  | some front => .of front :: objectParents front
termination_by tempObject.length
decreasing_by
  obtain ⟨rest,rfl,_⟩ := beforeLastSome _h
  rw [List.length_append,List.length_cons]
  omega

def objects (object : Object) : List Object := object :: objectParents object.m_identifier

def equalRange (s : Context) (object : Object) : List AccessControlEntry :=
  s.m_aces.filter (fun ace => ace.object = object)

def judge (principals : List Principal) : List AccessControlEntry → Bool → Bool
  | [],allowed => allowed
  | entry :: rest,allowed =>
    if entry.principal ∈ principals then
      match entry.type with
      | .Allow => judge principals rest true
      | .Deny => false
      | .Unset => judge principals rest allowed
    else judge principals rest allowed

def CheckPrivilege (s : Context) (depth : Nat) (principal : Principal) (object : Object) : Option Bool := do
  let principals ← s.AddPrincipals depth principal [principal,everyone]
  some (judge principals ((objects object).flatMap s.equalRange) false)

/-! What `CheckPrivilege` decides, against the entries that inheritance makes apply. -/

open BitField (Byte)

def Inherits (s : Context) (child parent : Principal) : Prop := (child,parent) ∈ s.m_principalInheritance

def Reached (s : Context) (p q : Principal) : Prop :=
  Relation.ReflTransGen s.Inherits p q ∨ Relation.ReflTransGen s.Inherits everyone q

def AncestorOrEqual (x o : Object) : Prop :=
  x = o ∨ ∃ rest, o.m_identifier.val = x.m_identifier.val ++ byte '.' :: rest

def Applies (s : Context) (type : AccessType) (who : Principal → Prop) (o : Object) : Prop :=
  ∃ e ∈ s.m_aces, e.type = type ∧ AncestorOrEqual e.object o ∧ who e.principal

def Entitled (s : Context) (p : Principal) (o : Object) : Prop :=
  s.Applies .Allow (s.Reached p) o ∧ ¬s.Applies .Deny (s.Reached p) o

def Explored (s : Context) (p q : Principal) : Prop :=
  q = everyone ∨ Relation.ReflTransGen (fun a b => s.Inherits a b ∧ (a = everyone → p = everyone)) p q

def Unexplored (s : Context) (p q : Principal) : Prop := s.Reached p q ∧ ¬s.Explored p q

def Missed (s : Context) (p : Principal) (o : Object) : Prop :=
  ¬s.Applies .Deny (s.Explored p) o ∧
    ((s.Applies .Allow (s.Explored p) o ∧ s.Applies .Deny (s.Unexplored p) o) ∨
      (¬s.Applies .Allow (s.Explored p) o ∧ s.Applies .Allow (s.Unexplored p) o ∧
        ¬s.Applies .Deny (s.Unexplored p) o))

section Reaching
variable {s : Context} {p q : Principal}

theorem memParents {a b : Principal} : b ∈ s.parents a ↔ s.Inherits a b := by
  simp [parents,Inherits]

theorem exploredReached (explored : s.Explored p q) : s.Reached p q := by
  rcases explored with rfl | path
  · exact .inr .refl
  · exact .inl (Relation.ReflTransGen.mono (fun _ _ => And.left) _ _ path)

theorem appliesReached {type : AccessType} {o : Object} : s.Applies type (s.Reached p) o ↔
    s.Applies type (s.Explored p) o ∨ s.Applies type (s.Unexplored p) o := by
  constructor
  · rintro ⟨e,mem,same,above,reached⟩
    by_cases explored : s.Explored p e.principal
    · exact .inl ⟨e,mem,same,above,explored⟩
    · exact .inr ⟨e,mem,same,above,reached,explored⟩
  · rintro (⟨e,mem,same,above,explored⟩ | ⟨e,mem,same,above,reached,_⟩)
    · exact ⟨e,mem,same,above,exploredReached explored⟩
    · exact ⟨e,mem,same,above,reached⟩

theorem principalsExplored {depth : Nat} {principals : List Principal}
    (found : s.AddPrincipals depth p [p,everyone] = some principals) : q ∈ principals ↔ s.Explored p q := by
  have covered := Visit.visitCovers found
  constructor
  · intro mem
    rcases covered.sound q mem with seeded | ⟨b,edge,unseen,path⟩
    · rcases List.mem_cons.mp seeded with rfl | rest
      · exact .inr .refl
      · exact .inl (List.mem_singleton.mp rest)
    · right
      have first : s.Inherits p b ∧ (p = everyone → p = everyone) := ⟨memParents.mp edge,id⟩
      refine .head first ?_
      have away : b ≠ everyone := fun same => unseen (by simp [same])
      clear first edge unseen mem
      induction path using Relation.ReflTransGen.head_induction_on with
      | refl => exact .refl
      | head step rest ih =>
        exact .head ⟨memParents.mp step.1,fun same => absurd same away⟩ (ih (fun same => step.2 (by simp [same])))
  · rintro (rfl | path)
    · exact covered.grows (by simp)
    · induction path with
      | refl => exact covered.grows (by simp)
      | tail path step reached =>
        rename_i a b
        have edge := memParents.mpr step.1
        by_cases start : a = p
        · exact covered.complete b (start ▸ edge)
        · have outside : a ∉ [p,everyone] := by
            intro seeded
            rcases List.mem_cons.mp seeded with same | rest
            · exact start same
            · have last := List.mem_singleton.mp rest
              exact start (last.trans (step.2 last).symm)
          exact covered.closed a reached outside b edge

theorem principalsFound {depth : Nat} {set : List Principal} (enough : s.m_principalInheritance.length < depth) :
    ∃ principals, s.AddPrincipals depth p set = some principals := by
  have known (a : Principal) : s.parents a ⊆ s.m_principalInheritance.map Prod.snd :=
    List.map_subset _ (List.filter_subset_self _)
  refine Visit.visitEnds known (Nat.lt_of_le_of_lt (List.length_filter_le _ _) ?_)
  rwa [List.length_map]

end Reaching

theorem lowerFront {t front rest : Text} {c : Byte} (low : t.map tolower = t) (split : t = front ++ c :: rest) :
    front.map tolower = front := by
  rw [split,List.map_append] at low
  exact List.append_inj_left low (List.length_map _)

theorem objectParentsNone {t : Text} (absent : beforeLast (byte '.') t = none) : objectParents t = [] := by
  unfold objectParents
  split
  · rfl
  · rename_i found
    rw [absent] at found
    cases found

theorem objectParentsSome {t front : Text} (before : beforeLast (byte '.') t = some front) :
    objectParents t = .of front :: objectParents front := by
  rw [objectParents]
  split
  · rename_i absent
    rw [before] at absent
    cases absent
  · rename_i front' before'
    cases before.symm.trans before'
    rfl

theorem memObjectParents {t : Text} (low : t.map tolower = t) {x : Object} : x ∈ objectParents t ↔
    ∃ rest, t = x.m_identifier.val ++ byte '.' :: rest := by
  induction t using objectParents.induct with
  | case1 t absent =>
    rw [objectParentsNone absent]
    refine ⟨nofun,?_⟩
    rintro ⟨rest,rfl⟩
    exact absurd (by simp) (beforeLastNone.mp absent)
  | case2 t front before ih =>
    obtain ⟨tail,split,last⟩ := beforeLastSome before
    have lowFront := lowerFront low split
    rw [objectParentsSome before,List.mem_cons,ih lowFront]
    constructor
    · rintro (rfl | ⟨rest,inner⟩)
      · exact ⟨tail,by rw [split]; exact congrArg (· ++ _) lowFront.symm⟩
      · exact ⟨rest ++ byte '.' :: tail,by rw [split,inner,List.append_assoc,List.cons_append]⟩
    · rintro ⟨rest,outer⟩
      have same (cut : x.m_identifier.val = front) : x = .of front :=
        congrArg Object.mk (Subtype.ext (cut.trans lowFront.symm))
      rw [split] at outer
      rcases List.append_eq_append_iff.mp outer with ⟨mid,longer,inner⟩ | ⟨mid,longer,inner⟩
      · cases mid with
        | nil => exact .inl (same (longer.trans (List.append_nil _)))
        | cons b mid =>
          cases inner
          exact absurd (by simp) last
      · cases mid with
        | nil => exact .inl (same (longer.trans (List.append_nil _)).symm)
        | cons b mid =>
          cases inner
          exact .inr ⟨mid,longer⟩

def Judged (principals : List Principal) (type : AccessType) (entries : List AccessControlEntry) : Prop :=
  ∃ e ∈ entries, e.type = type ∧ e.principal ∈ principals

theorem judgeDecides {principals : List Principal} {entries : List AccessControlEntry} {allowed : Bool} :
    judge principals entries allowed = true ↔
      (allowed = true ∨ Judged principals .Allow entries) ∧ ¬Judged principals .Deny entries := by
  induction entries generalizing allowed with
  | nil => simp [judge,Judged]
  | cons entry rest ih =>
    unfold judge
    split
    · rename_i concerned
      split
      · rename_i type
        rw [ih]
        simp [Judged,type,concerned]
      · rename_i type
        simp [Judged,type,concerned]
      · rename_i type
        rw [ih]
        simp [Judged,type]
    · rename_i unconcerned
      rw [ih]
      simp [Judged,unconcerned]

theorem memObjects {o x : Object} : x ∈ objects o ↔ AncestorOrEqual x o := by
  rw [objects,List.mem_cons,memObjectParents o.m_identifier.property]
  rfl

section Deciding
variable {s : Context} {p : Principal} {o : Object} {depth : Nat} {who : Principal → Prop}

theorem judgedApplies {principals : List Principal} {type : AccessType} (same : ∀ q, q ∈ principals ↔ who q) :
    Judged principals type ((objects o).flatMap s.equalRange) ↔ s.Applies type who o := by
  constructor
  · rintro ⟨e,mem,kind,concerned⟩
    obtain ⟨x,above,found⟩ := List.mem_flatMap.mp mem
    obtain ⟨listed,key⟩ := List.mem_filter.mp found
    refine ⟨e,listed,kind,?_,(same _).mp concerned⟩
    exact memObjects.mp (of_decide_eq_true key ▸ above)
  · rintro ⟨e,listed,kind,above,concerned⟩
    refine ⟨e,List.mem_flatMap.mpr ⟨e.object,memObjects.mpr above,?_⟩,kind,(same _).mpr concerned⟩
    exact List.mem_filter.mpr ⟨listed,decide_eq_true rfl⟩

theorem checkDecides {granted : Bool} (checked : s.CheckPrivilege depth p o = some granted) :
    granted = true ↔ s.Applies .Allow (s.Explored p) o ∧ ¬s.Applies .Deny (s.Explored p) o := by
  obtain ⟨principals,found,rest⟩ := Option.bind_eq_some_iff.mp checked
  cases rest
  have same (q : Principal) := @principalsExplored s p q _ _ found
  rw [judgeDecides,judgedApplies same,judgedApplies same]
  simp

theorem checkEnds (s : Context) (p : Principal) (o : Object) : ∃ granted, ∀ depth,
    s.m_principalInheritance.length < depth → s.CheckPrivilege depth p o = some granted := by
  classical
  refine ⟨decide (s.Applies .Allow (s.Explored p) o ∧ ¬s.Applies .Deny (s.Explored p) o),?_⟩
  intro depth enough
  obtain ⟨principals,found⟩ := @principalsFound s p depth [p,everyone] enough
  have checked : s.CheckPrivilege depth p o =
      some (judge principals ((objects o).flatMap s.equalRange) false) := by
    unfold CheckPrivilege
    rw [found]
    rfl
  rw [checked,Option.some.injEq,Bool.eq_iff_iff,checkDecides checked,decide_eq_true_iff]

theorem entitledUnlessMissed :
    ((s.Applies .Allow (s.Explored p) o ∧ ¬s.Applies .Deny (s.Explored p) o) ↔ s.Entitled p o) ↔ ¬s.Missed p o := by
  unfold Entitled Missed
  rw [appliesReached,appliesReached]
  tauto

theorem denyAdds {q : Principal} {x : Object} {type : AccessType}
    (held : s.Applies type who o) : (s.AddAccessControlEntry q x .Deny).Applies type who o := by
  obtain ⟨e,mem,rest⟩ := held
  exact ⟨e,List.mem_append_left _ mem,rest⟩

theorem denyAllowsNothing {q : Principal} {x : Object}
    (held : (s.AddAccessControlEntry q x .Deny).Applies .Allow who o) : s.Applies .Allow who o := by
  obtain ⟨e,mem,kind,rest⟩ := held
  rcases List.mem_append.mp mem with old | new
  · exact ⟨e,old,kind,rest⟩
  · cases List.mem_singleton.mp new
    cases kind

theorem denyKeepsRefusal {granted granted' : Bool} {depth' : Nat} {q : Principal} {x : Object}
    (before : s.CheckPrivilege depth p o = some granted)
    (after : (s.AddAccessControlEntry q x .Deny).CheckPrivilege depth' p o = some granted') :
    granted' = true → granted = true := by
  rw [checkDecides before,checkDecides after]
  exact fun both => ⟨denyAllowsNothing both.1,fun denied => both.2 (denyAdds denied)⟩

end Deciding

theorem privilegeDecided (operations : List Operation) (p : Principal) (o : Object) :
    let s := run step fresh operations
    ∃ granted, (∀ depth, s.m_principalInheritance.length < depth → s.CheckPrivilege depth p o = some granted) ∧
      ((granted = true ↔ s.Entitled p o) ↔ ¬s.Missed p o) ∧
      ∀ q x, ∃ granted', (∀ depth, s.m_principalInheritance.length < depth →
        (s.AddAccessControlEntry q x .Deny).CheckPrivilege depth p o = some granted') ∧
          (granted' = true → granted = true) := by
  intro s
  obtain ⟨granted,ended⟩ := checkEnds s p o
  have checked := ended _ (Nat.lt_succ_self _)
  refine ⟨granted,ended,?_,fun q x => ?_⟩
  · rw [checkDecides checked]
    exact entitledUnlessMissed
  · obtain ⟨granted',ended'⟩ := checkEnds (s.AddAccessControlEntry q x .Deny) p o
    exact ⟨granted',ended',denyKeepsRefusal checked (ended' _ (Nat.lt_succ_self _))⟩

def everyoneInherits : List Operation :=
  [.addPrincipalInheritance everyone (.of (text "group.member")),
    .addAccessControlEntry (.of (text "group.member")) (.of (text "command")) .Allow]

theorem commandWhole : objects (.of (text "command")) = [.of (text "command")] :=
  congrArg (_ :: ·) (objectParentsNone (by decide))

theorem everyoneCutShort : let s := run step fresh everyoneInherits
    s.Entitled (.of (text "player")) (.of (text "command")) ∧
      (∀ depth, s.m_principalInheritance.length < depth →
        s.CheckPrivilege depth (.of (text "player")) (.of (text "command")) = some false) ∧
      ∀ depth, s.m_principalInheritance.length < depth →
        s.CheckPrivilege depth everyone (.of (text "command")) = some true := by
  intro s
  refine ⟨⟨?_,?_⟩,?_,?_⟩
  · exact ⟨_,List.mem_singleton_self _,rfl,.inl rfl,.inr (.single (List.mem_singleton_self _))⟩
  · rintro ⟨e,mem,kind,_⟩
    cases List.mem_singleton.mp mem
    cases kind
  · obtain ⟨granted,ended⟩ := checkEnds s (.of (text "player")) (.of (text "command"))
    have refused : s.CheckPrivilege 2 (.of (text "player")) (.of (text "command")) = some false := by
      unfold CheckPrivilege
      rw [commandWhole]
      decide
    rwa [← refused.symm.trans (ended 2 (by decide)) ] at ended
  · obtain ⟨granted,ended⟩ := checkEnds s everyone (.of (text "command"))
    have allowed : s.CheckPrivilege 2 everyone (.of (text "command")) = some true := by
      unfold CheckPrivilege
      rw [commandWhole]
      decide
    rwa [← allowed.symm.trans (ended 2 (by decide))] at ended

end Context
end Citizen.Security
