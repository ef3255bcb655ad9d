import Citizen.Lib.Run
import Citizen.Resources.ResourceManager
import Mathlib.Data.List.Find

/-! The tables of the resource manager: resources by their names, and by the names they provide. -/
namespace Citizen.Resources

structure ResourceManagerImpl (ρ : Type) where
  m_resources : Table Text ρ
  m_resourceProvides : List (Text × ρ)
  m_state : ρ → ResourceState

namespace ResourceManagerImpl
variable {ρ : Type} [DecidableEq ρ] (GetName : ρ → Text)

def fresh : ResourceManagerImpl ρ := ⟨∅,[],fun _ => .Uninitialized⟩

def AddResourceInternal (s : ResourceManagerImpl ρ) (resource : ρ) : ResourceManagerImpl ρ :=
  { s with m_resources := s.m_resources.insert (GetName resource) resource }

def emplace (s : ResourceManagerImpl ρ) (position : Nat) (identifier : Text) (resource : ρ) : ResourceManagerImpl ρ :=
  { s with m_resourceProvides :=
      s.m_resourceProvides.take position ++ (identifier,resource) :: s.m_resourceProvides.drop position }

def provides (s : ResourceManagerImpl ρ) (identifier : Text) : List ρ :=
  (s.m_resourceProvides.filter (fun entry => entry.1 = identifier)).map Prod.snd

def GetResource (s : ResourceManagerImpl ρ) (identifier : Text) (withProvides : Bool) : Option ρ :=
  let resource := s.m_resources.lookup identifier
  if withProvides ∧ (resource.isNone ∨ resource.map s.m_state = some .Stopped) then
    ((s.provides identifier).find? (fun it => s.m_state it = .Started ∨ resource.isNone)).or resource
  else resource

def ForAllResources (s : ResourceManagerImpl ρ) : List ρ := s.m_resources.entries.map (fun entry => entry.2)

def destroy (s : ResourceManagerImpl ρ) (resource : ρ) : ResourceManagerImpl ρ :=
  { s with m_state := Function.update s.m_state resource .Uninitialized }

def ResetResources (s : ResourceManagerImpl ρ) : ResourceManagerImpl ρ :=
  { s.ForAllResources.foldl destroy s with m_resourceProvides := [],m_resources := ∅ }

def RemoveResource (s : ResourceManagerImpl ρ) (resource : ρ) : ResourceManagerImpl ρ :=
  let s := s.destroy resource
  { s with m_resources := s.m_resources.erase (GetName resource) }

inductive Operation (ρ : Type) where
  | addResourceInternal (resource : ρ)
  | emplace (position : Nat) (identifier : Text) (resource : ρ)
  | removeResource (resource : ρ)
  | resetResources
  | setState (resource : ρ) (state : ResourceState)

def step (s : ResourceManagerImpl ρ) : Operation ρ → ResourceManagerImpl ρ
  | .addResourceInternal resource => s.AddResourceInternal GetName resource
  | .emplace position identifier resource => s.emplace position identifier resource
  | .removeResource resource => s.RemoveResource GetName resource
  | .resetResources => s.ResetResources
  | .setState resource state => { s with m_state := Function.update s.m_state resource state }

end ResourceManagerImpl

structure Registrations (ρ : Type) where
  removed : ρ → Prop
  registered : ρ → Prop
  providing : Text → ρ → Prop

namespace Registrations
open ResourceManagerImpl (Operation)
variable {ρ : Type} (GetName : ρ → Text)

def none : Registrations ρ := ⟨fun _ => False,fun _ => False,fun _ _ => False⟩

def step (h : Registrations ρ) : Operation ρ → Registrations ρ
  | .addResourceInternal resource =>
    { h with
      removed := fun q => q ≠ resource ∧ h.removed q
      registered := fun q => q = resource ∨ GetName q ≠ GetName resource ∧ h.registered q }
  | .emplace _ identifier resource =>
    { h with providing := fun name q => name = identifier ∧ q = resource ∨ h.providing name q }
  | .removeResource resource =>
    ⟨fun q => q = resource ∨ h.removed q,fun q => q ≠ resource ∧ h.registered q,
      fun name q => q ≠ resource ∧ h.providing name q⟩
  | .resetResources => ⟨fun _ => True,fun _ => False,fun _ _ => False⟩
  | .setState _ _ => h

end Registrations

section
open ResourceManagerImpl (Operation)
variable {ρ : Type} [DecidableEq ρ] (GetName : ρ → Text)

structure Agrees (s : ResourceManagerImpl ρ) (h : Registrations ρ) : Prop where
  named : ∀ name q, s.m_resources.lookup name = some q ↔ GetName q = name ∧ h.registered q
  provided : ∀ name q, (name,q) ∈ s.m_resourceProvides ↔ h.providing name q
  present : ∀ q, h.registered q → ¬h.removed q
  provider : ∀ name q, h.providing name q → ¬h.removed q

/-- A resource is removed when it provides no name and no other stands under its own, and a name is provided by what
is not removed. -/
def Clean (x : ResourceManagerImpl ρ × Registrations ρ) : Operation ρ → Prop
  | .removeResource r => (∀ name, (name,r) ∉ x.1.m_resourceProvides) ∧ ∀ q, x.1.m_resources.lookup (GetName r) = some q → q = r
  | .emplace _ _ r => ¬x.2.removed r
  | _ => True

def both (x : ResourceManagerImpl ρ × Registrations ρ) (op : Operation ρ) : ResourceManagerImpl ρ × Registrations ρ :=
  (x.1.step GetName op,x.2.step GetName op)

variable {GetName} {s : ResourceManagerImpl ρ} {h : Registrations ρ}

omit [DecidableEq ρ] in
theorem agreesFresh : Agrees GetName ResourceManagerImpl.fresh Registrations.none :=
  ⟨fun _ _ => ⟨nofun,fun h => h.2.elim⟩,fun _ _ => ⟨nofun,nofun⟩,nofun,nofun⟩

section
variable (agrees : Agrees GetName s h)
include agrees

theorem agreesAdd (r : ρ) :
    Agrees GetName (s.step GetName (.addResourceInternal r)) (h.step GetName (.addResourceInternal r)) where
  named name q := by
    dsimp only [ResourceManagerImpl.step,ResourceManagerImpl.AddResourceInternal,Registrations.step]
    rw [Table.lookupInsert]
    by_cases same : name = GetName r
    · rw [if_pos same,same]
      constructor
      · rintro ⟨⟩
        exact ⟨rfl,.inl rfl⟩
      · rintro ⟨isName,rfl | other⟩
        · rfl
        · exact absurd isName other.1
    · rw [if_neg same,agrees.named]
      constructor
      · rintro ⟨rfl,registered⟩
        exact ⟨rfl,.inr ⟨same,registered⟩⟩
      · rintro ⟨rfl,rfl | other⟩
        · exact absurd rfl same
        · exact ⟨rfl,other.2⟩
  provided := agrees.provided
  present q registered removed := by
    rcases registered with rfl | other
    · exact removed.1 rfl
    · exact agrees.present q other.2 removed.2
  provider name q providing removed := agrees.provider name q providing removed.2

theorem agreesEmplace (position : Nat) (identifier : Text) {r : ρ} (there : ¬h.removed r) :
    Agrees GetName (s.step GetName (.emplace position identifier r)) (h.step GetName (.emplace position identifier r)) where
  named := agrees.named
  provided name q := by
    have kept : (name,q) ∈ s.m_resourceProvides ↔
        (name,q) ∈ s.m_resourceProvides.take position ∨ (name,q) ∈ s.m_resourceProvides.drop position := by
      rw [← List.mem_append,List.take_append_drop]
    dsimp only [ResourceManagerImpl.step,ResourceManagerImpl.emplace,Registrations.step]
    rw [List.mem_append,List.mem_cons,← agrees.provided,kept,Prod.mk.injEq]
    tauto
  present := agrees.present
  provider name q providing := by
    rcases providing with ⟨_,rfl⟩ | before
    · exact there
    · exact agrees.provider name q before

theorem agreesRemove {r : ρ} (clean : Clean GetName (s,h) (.removeResource r)) :
    Agrees GetName (s.step GetName (.removeResource r)) (h.step GetName (.removeResource r)) where
  named name q := by
    dsimp only [ResourceManagerImpl.step,ResourceManagerImpl.RemoveResource,ResourceManagerImpl.destroy,Registrations.step]
    by_cases same : name = GetName r
    · subst same
      rw [AList.lookup_erase]
      refine ⟨nofun,?_⟩
      rintro ⟨isName,other,registered⟩
      exact absurd (clean.2 q ((agrees.named _ q).mpr ⟨isName,registered⟩)) other
    · rw [AList.lookup_erase_ne same,agrees.named]
      constructor
      · rintro ⟨rfl,registered⟩
        exact ⟨rfl,fun isR => same (by rw [isR]),registered⟩
      · rintro ⟨isName,_,registered⟩
        exact ⟨isName,registered⟩
  provided name q := by
    refine (agrees.provided name q).trans ⟨fun providing => ⟨?_,providing⟩,And.right⟩
    rintro rfl
    exact clean.1 name ((agrees.provided name q).mpr providing)
  present q registered removed := by
    rcases removed with same | before
    · exact registered.1 same
    · exact agrees.present q registered.2 before
  provider name q providing removed := by
    rcases removed with same | before
    · exact providing.1 same
    · exact agrees.provider name q providing.2 before

end

theorem agreesReset : Agrees GetName (s.step GetName .resetResources) (h.step GetName .resetResources) :=
  ⟨fun _ _ => ⟨nofun,fun h => h.2.elim⟩,fun _ _ => ⟨nofun,nofun⟩,nofun,nofun⟩

theorem agreesStep {x : ResourceManagerImpl ρ × Registrations ρ} {op : Operation ρ} (agrees : Agrees GetName x.1 x.2)
    (clean : Clean GetName x op) : Agrees GetName (both GetName x op).1 (both GetName x op).2 := by
  cases op with
  | addResourceInternal r => exact agreesAdd agrees r
  | emplace position identifier r => exact agreesEmplace agrees position identifier clean
  | removeResource r => exact agreesRemove agrees clean
  | resetResources => exact agreesReset (h := x.2)
  | setState r state => exact ⟨agrees.named,agrees.provided,agrees.present,agrees.provider⟩

def offered (s : ResourceManagerImpl ρ) (identifier : Text) : List ρ :=
  (s.m_resources.lookup identifier).toList ++ s.provides identifier

omit [DecidableEq ρ] in
theorem memProvides {identifier : Text} {q : ρ} : q ∈ s.provides identifier ↔ (identifier,q) ∈ s.m_resourceProvides := by
  simp [ResourceManagerImpl.provides]

omit [DecidableEq ρ] in
theorem getResourceOffered {identifier : Text} {withProvides : Bool} {q : ρ}
    (found : s.GetResource identifier withProvides = some q) : q ∈ offered s identifier := by
  have own (found : s.m_resources.lookup identifier = some q) : q ∈ offered s identifier := by simp [offered,found]
  unfold ResourceManagerImpl.GetResource at found
  dsimp only at found
  split at found
  · rcases Option.or_eq_some_iff.mp found with provider | ⟨_,named⟩
    · exact List.mem_append_right _ (List.mem_of_find?_eq_some provider)
    · exact own named
  · exact own found

omit [DecidableEq ρ] in
theorem getResourceAnswers {identifier : Text} {q : ρ} (offers : q ∈ offered s identifier) :
    ∃ p, s.GetResource identifier true = some p := by
  unfold ResourceManagerImpl.GetResource
  dsimp only
  cases own : s.m_resources.lookup identifier with
  | some p =>
    split
    · exact Option.isSome_iff_exists.mp (by simp)
    · exact ⟨p,rfl⟩
  | none =>
    have provider : q ∈ s.provides identifier := by simpa [offered,own] using offers
    cases range : s.provides identifier with
    | nil => simp [range] at provider
    | cons p rest => exact ⟨p,by simp⟩

structure Lawful (GetName : ρ → Text) (s : ResourceManagerImpl ρ) (h : Registrations ρ) : Prop where
  removed : ∀ r, h.removed r → r ∉ s.ForAllResources ∧ ∀ identifier withProvides, s.GetResource identifier withProvides ≠ some r
  registered : ∀ q, h.registered q → q ∈ s.ForAllResources ∧ s.GetResource (GetName q) false = some q
  providing : ∀ identifier q, h.providing identifier q →
    q ∈ offered s identifier ∧ ∃ p ∈ offered s identifier, s.GetResource identifier true = some p

omit [DecidableEq ρ] in
theorem memForAll {q : ρ} : q ∈ s.ForAllResources ↔ ∃ name, s.m_resources.lookup name = some q := by
  simp only [ResourceManagerImpl.ForAllResources,List.mem_map]
  constructor
  · rintro ⟨⟨name,q⟩,mem,rfl⟩
    exact ⟨name,AList.mem_lookup_iff.mpr mem⟩
  · rintro ⟨name,found⟩
    exact ⟨⟨name,q⟩,AList.mem_lookup_iff.mp found,rfl⟩

omit [DecidableEq ρ] in
theorem lawful (agrees : Agrees GetName s h) : Lawful GetName s h where
  removed r removed := by
    have absent (name : Text) : s.m_resources.lookup name ≠ some r := fun found =>
      agrees.present r ((agrees.named name r).mp found).2 removed
    refine ⟨fun mem => ?_,fun identifier withProvides found => ?_⟩
    · obtain ⟨name,found⟩ := memForAll.mp mem
      exact absent name found
    · rcases List.mem_append.mp (getResourceOffered found) with named | provider
      · exact absent identifier (Option.mem_toList.mp named)
      · exact agrees.provider identifier r ((agrees.provided identifier r).mp (memProvides.mp provider)) removed
  registered q registered := by
    have found := (agrees.named (GetName q) q).mpr ⟨rfl,registered⟩
    exact ⟨memForAll.mpr ⟨GetName q,found⟩,by simp [ResourceManagerImpl.GetResource,found]⟩
  providing identifier q providing := by
    have offers : q ∈ offered s identifier :=
      List.mem_append_right _ (memProvides.mpr ((agrees.provided identifier q).mpr providing))
    obtain ⟨p,found⟩ := getResourceAnswers offers
    exact ⟨offers,p,getResourceOffered found,found⟩

theorem removeKeeps (agrees : Agrees GetName s h) {r : ρ} (clean : Clean GetName (s,h) (.removeResource r)) {identifier : Text}
    (other : identifier ≠ GetName r) (withProvides : Bool) :
    (s.RemoveResource GetName r).GetResource identifier withProvides = s.GetResource identifier withProvides := by
  have named : (s.RemoveResource GetName r).m_resources.lookup identifier = s.m_resources.lookup identifier :=
    AList.lookup_erase_ne other
  have state {q : ρ} (differs : q ≠ r) : (s.RemoveResource GetName r).m_state q = s.m_state q :=
    Function.update_of_ne differs _ _
  have ownState : (s.m_resources.lookup identifier).map (s.RemoveResource GetName r).m_state =
      (s.m_resources.lookup identifier).map s.m_state := by
    cases own : s.m_resources.lookup identifier with
    | none => rfl
    | some q => 
      have isName := ((agrees.named identifier q).mp own).1
      exact congrArg some (state (fun same => other (by rw [← isName,same])))
  have range : (s.RemoveResource GetName r).provides identifier = s.provides identifier := rfl
  have started : ∀ it ∈ s.provides identifier,
      (s.RemoveResource GetName r).m_state it = .Started ↔ s.m_state it = .Started := fun it mem => by
    rw [state (fun same => clean.1 identifier (memProvides.mp (same ▸ mem)))]
  unfold ResourceManagerImpl.GetResource
  rw [named,range]
  dsimp only
  rw [ownState,List.find?_congr (fun it mem => decide_eq_decide.mpr (or_congr (started it mem) Iff.rfl))]

def Untouched (GetName : ρ → Text) (x : ResourceManagerImpl ρ × Registrations ρ) : Operation ρ → Prop
  | .removeResource r => ∀ identifier ≠ GetName r, ∀ withProvides,
      (x.1.RemoveResource GetName r).GetResource identifier withProvides = x.1.GetResource identifier withProvides
  | _ => True

theorem removedUnreachable (GetName : ρ → Text) (operations : List (Operation ρ))
    (clean : Along (both GetName) (Clean GetName) (ResourceManagerImpl.fresh,Registrations.none) operations) :
    Throughout (both GetName) (fun x => Lawful GetName x.1 x.2) (ResourceManagerImpl.fresh,Registrations.none) operations ∧
      Along (both GetName) (Untouched GetName) (ResourceManagerImpl.fresh,Registrations.none) operations := by
  constructor
  · refine throughoutMono (fun x agrees => lawful agrees) (throughoutOfKept (fun x => Agrees GetName x.1 x.2) ?_ agreesFresh clean)
    exact fun x op agrees => agreesStep agrees
  · refine alongOfKept (fun x => Agrees GetName x.1 x.2) (fun x op agrees clean => ⟨agreesStep agrees clean,?_⟩) agreesFresh clean
    cases op with
    | removeResource r => exact fun identifier other withProvides => removeKeeps agrees clean other withProvides
    | _ => trivial

end

open ResourceManagerImpl (Operation)

def nameOf (n : Nat) : Text := if n = 0 then text "chat" else text "map"

def chatRemoved : List (Operation Nat) :=
  [.addResourceInternal 0,.addResourceInternal 1,.emplace 0 (text "spawn") 1,.removeResource 0]

theorem chatUnreachable :
    Throughout (both nameOf) (fun x => Lawful nameOf x.1 x.2) (ResourceManagerImpl.fresh,Registrations.none) chatRemoved ∧
      Along (both nameOf) (Untouched nameOf) (ResourceManagerImpl.fresh,Registrations.none) chatRemoved := by
  refine removedUnreachable nameOf chatRemoved ⟨trivial,trivial,?_,⟨fun name mem => ?_,fun q found => ?_⟩,trivial⟩
  · exact fun removed => removed.2.2
  · cases List.mem_singleton.mp mem
  · exact Option.some.inj (found.symm.trans (by decide))

theorem removedProvider : ¬∀ operations : List (Operation Nat),
    let x := run (both nameOf) (ResourceManagerImpl.fresh,Registrations.none) operations
    ∀ r, x.2.removed r → ∀ identifier withProvides, x.1.GetResource identifier withProvides ≠ some r := by
  intro claimed
  have found := claimed [.addResourceInternal 0,.emplace 0 (text "spawn") 0,.removeResource 0] 0 (.inl rfl) (text "spawn") true
  exact found rfl

end Citizen.Resources
