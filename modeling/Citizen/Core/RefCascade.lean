import Citizen.Lib.Run
import Mathlib.Data.Set.Card

/-! `fwRefContainer` and `fwRefCountable`: containers that refer to objects and objects that hold containers. -/
namespace Citizen.Core

abbrev Container := Nat
abbrev Object := Nat

/-- `owner` is the object that a container is a member of. `created` are all objects there ever were, and `held` those
that a container has referred to. -/
structure Heap where
  containers : Finset Container
  m_ref : Container → Option Object
  owner : Container → Option Object
  objects : Finset Object
  m_refCount : Object → BitVec 32
  members : Object → List Container
  created : Finset Object
  held : Finset Object

inductive RefEvent where
  | newObject (object : Object) (members : List Container)
  | construct (container : Container) (ref : Option Object)
  | copy (container rc : Container)
  | assign (container other : Container)
  | assignRef (container : Container) (ref : Option Object)
  | destroy (container : Container)

namespace Heap

def construct : Heap := ⟨∅,fun _ => none,fun _ => none,∅,fun _ => 0,fun _ => [],∅,∅⟩

def setRef (s : Heap) (c : Container) (ref : Option Object) : Heap := { s with m_ref := Function.update s.m_ref c ref }

def dropContainer (s : Heap) (c : Container) : Heap := { s with containers := s.containers.erase c }

def freeObject (s : Heap) (o : Object) : Heap := { s with objects := s.objects.erase o }

def fetchSub (s : Heap) (o : Object) : Heap := { s with m_refCount := Function.update s.m_refCount o (s.m_refCount o - 1) }

def destructors (s : Heap) (o : Object) : List Container := (s.members o).reverse

/-- The destructors that are still to run, the innermost call in front; `delete this` runs those of the object's
members first. `none` where freed memory is used. -/
def destroyAll (pending : List Container) (s : Heap) : Option Heap :=
  match pending with
  | [] => some s
  | c :: pending =>
    if _ : c ∈ s.containers then
      match s.m_ref c with
      | none => destroyAll pending (s.dropContainer c)
      | some o =>
        if o ∈ s.objects then
          if s.m_refCount o ≤ 1 then destroyAll (s.destructors o ++ pending) ((s.dropContainer c).freeObject o)
          else destroyAll pending ((s.dropContainer c).fetchSub o)
        else none
    else none
termination_by s.containers.card
decreasing_by
  all_goals exact Finset.card_erase_lt_of_mem ‹_›

def Release (s : Heap) (o : Object) : Option Heap :=
  if o ∈ s.objects then
    if s.m_refCount o ≤ 1 then destroyAll (s.destructors o) (s.freeObject o) else some (s.fetchSub o)
  else none

def fetchAdd (s : Heap) (o : Object) : Heap :=
  { s with m_refCount := Function.update s.m_refCount o (s.m_refCount o + 1), held := insert o s.held }

def AddRef (s : Heap) (o : Object) : Option Heap := if o ∈ s.objects then some (s.fetchAdd o) else none

def attach (s : Heap) (c : Container) (ref : Option Object) : Option Heap :=
  match ref with
  | none => some (s.setRef c none)
  | some o => (s.setRef c (some o)).AddRef o

def releaseOld (s : Heap) (c : Container) : Option Heap :=
  match s.m_ref c with
  | none => some s
  | some o => s.Release o

def assign (s : Heap) (c other : Container) : Option Heap :=
  (s.releaseOld c).bind (fun s => if other ∈ s.containers ∧ c ∈ s.containers then s.attach c (s.m_ref other) else none)

def assignRef (s : Heap) (c : Container) (ref : Option Object) : Option Heap :=
  (s.releaseOld c).bind (fun s => if c ∈ s.containers then s.attach c ref else none)

def newContainer (s : Heap) (c : Container) (owner : Option Object) : Heap :=
  { s with
    containers := insert c s.containers
    m_ref := Function.update s.m_ref c none
    owner := Function.update s.owner c owner }

def newObject (s : Heap) (o : Object) (members : List Container) : Heap :=
  { members.foldl (fun s c => s.newContainer c (some o)) s with
    objects := insert o s.objects
    m_refCount := Function.update s.m_refCount o 0
    members := Function.update s.members o members
    created := insert o s.created }

def step : Option Heap → RefEvent → Option Heap
  | none,_ => none
  | some s,.newObject o members =>
    if o ∉ s.created ∧ members.Nodup ∧ ∀ c ∈ members, c ∉ s.containers then some (s.newObject o members) else some s
  | some s,.construct c ref =>
    if c ∉ s.containers ∧ ∀ o ∈ ref, o ∈ s.objects then (s.newContainer c none).attach c ref else some s
  | some s,.copy c rc =>
    if c ∉ s.containers ∧ rc ∈ s.containers then (s.newContainer c none).attach c (s.m_ref rc) else some s
  | some s,.assign c other => if c ∈ s.containers ∧ other ∈ s.containers then s.assign c other else some s
  | some s,.assignRef c ref =>
    if c ∈ s.containers ∧ ∀ o ∈ ref, o ∈ s.objects then s.assignRef c ref else some s
  | some s,.destroy c => if c ∈ s.containers ∧ s.owner c = none then destroyAll [c] s else some s

def refs (s : Heap) (o : Object) : Nat := (s.containers.filter (fun c => s.m_ref c = some o)).card

/-- No container refers to a freed object, an object lives on until the last container that referred to it is gone, and
its count is the number of these containers. -/
structure Sound (s : Heap) : Prop where
  refers : ∀ c ∈ s.containers, ∀ o, s.m_ref c = some o → o ∈ s.objects
  lives : ∀ o ∈ s.created, o ∈ s.objects ↔ (o ∉ s.held ∨ ∃ c ∈ s.containers, s.m_ref c = some o)
  counts : ∀ o ∈ s.objects, (s.m_refCount o).toNat = s.refs o

def SoundAfter : Option Heap → Prop
  | none => False
  | some s => s.Sound

inductive Dies (s : Heap) (c : Container) : Object → Prop where
  | intro (o : Object) (held : ∃ d ∈ s.containers, s.m_ref d = some o)
      (root : ∀ d ∈ s.containers, s.m_ref d = some o → d ≠ c → s.owner d ≠ none)
      (inner : ∀ d ∈ s.containers, s.m_ref d = some o → d ≠ c → ∀ outer, s.owner d = some outer → s.Dies c outer) :
      s.Dies c o

def Survives (s : Heap) (c d : Container) : Prop := ∀ o, s.owner d = some o → ¬s.Dies c o

def remaining (s : Heap) (c : Container) (o : Object) : Set Container :=
  { d | d ∈ s.containers ∧ s.Survives c d ∧ d ≠ c ∧ s.m_ref d = some o }

def Fits (n : Nat) : Prop := n + 1 < 2 ^ 32

def Apart (s : Heap) (c : Container) (ref : Option Object) : Prop :=
  s.Survives c c ∧ ∀ o ∈ ref, ¬s.Dies c o ∧ Fits (s.remaining c o).ncard

def Safe : Option Heap → RefEvent → Prop
  | none,_ => True
  | some _,.newObject _ _ => True
  | some s,.construct c ref => c ∉ s.containers → ∀ o ∈ ref, o ∈ s.objects → Fits (s.refs o)
  | some s,.copy c rc => c ∉ s.containers → rc ∈ s.containers → ∀ o, s.m_ref rc = some o → Fits (s.refs o)
  | some s,.assign c other => c ∈ s.containers → other ∈ s.containers → s.Survives c other ∧ s.Apart c (s.m_ref other)
  | some s,.assignRef c ref => c ∈ s.containers → (∀ o ∈ ref, o ∈ s.objects) → s.Apart c ref
  | some _,.destroy _ => True

/-! What goes with a reference that is dropped: the objects that it kept alive, and no others. -/

structure Formed (s : Heap) : Prop where
  owned : ∀ d ∈ s.containers, ∀ o, s.owner d = some o → o ∈ s.objects ∧ d ∈ s.members o
  nodup : ∀ o ∈ s.objects, (s.members o).Nodup
  members : ∀ o ∈ s.objects, ∀ d ∈ s.members o, d ∈ s.containers ∧ s.owner d = some o
  created : s.objects ⊆ s.created
  heldCreated : s.held ⊆ s.created
  held : ∀ d ∈ s.containers, ∀ o, s.m_ref d = some o → o ∈ s.held

variable {base s s' : Heap} {c d : Container} {o : Object} {pending : List Container} {lost : Option Object}

theorem refsZero (zero : s.refs o = 0) (mem : d ∈ s.containers) : s.m_ref d ≠ some o := by
  intro refers
  have member : d ∈ s.containers.filter (fun c => s.m_ref c = some o) := Finset.mem_filter.mpr ⟨mem,refers⟩
  rw [Finset.card_eq_zero.mp zero] at member
  exact absurd member (Finset.notMem_empty d)

theorem refsPositive (mem : d ∈ s.containers) (refers : s.m_ref d = some o) : s.refs o ≠ 0 :=
  fun zero => refsZero zero mem refers

theorem refsDrop (mem : c ∈ s.containers) (o : Object) :
    (s.dropContainer c).refs o + (if s.m_ref c = some o then 1 else 0) = s.refs o := by
  unfold refs dropContainer
  dsimp only
  rw [Finset.filter_erase]
  split
  · rename_i refers
    exact Finset.card_erase_add_one (Finset.mem_filter.mpr ⟨mem,refers⟩)
  · rename_i other
    have absent : c ∉ s.containers.filter (fun d => s.m_ref d = some o) := fun member => other (Finset.mem_filter.mp member).2
    rw [Finset.erase_eq_of_notMem absent,Nat.add_zero]

theorem refsSet (ref : Option Object) (o : Object) : (s.setRef c ref).refs o =
    (s.dropContainer c).refs o + if c ∈ s.containers ∧ ref = some o then 1 else 0 := by
  have others : (s.containers.erase c).filter (fun d => Function.update s.m_ref c ref d = some o) =
      (s.containers.erase c).filter (fun d => s.m_ref d = some o) := by
    refine Finset.filter_congr (fun d mem => ?_)
    rw [Function.update_of_ne (Finset.ne_of_mem_erase mem)]
  by_cases mem : c ∈ s.containers
  · have set := refsDrop (s := s.setRef c ref) (c := c) mem o
    have same : ((s.setRef c ref).dropContainer c).refs o = (s.dropContainer c).refs o := congrArg Finset.card others
    have own : (s.setRef c ref).m_ref c = ref := Function.update_self ..
    rw [same,own] at set
    rw [← set]
    simp [mem]
  · rw [Finset.erase_eq_of_notMem mem] at others
    have same : (s.setRef c ref).refs o = s.refs o := congrArg Finset.card others
    have drop : (s.dropContainer c).refs o = s.refs o := by
      unfold refs dropContainer
      rw [Finset.erase_eq_of_notMem mem]
    rw [same,drop,if_neg (fun both => mem both.1)]
    rfl

structure Cascade (base : Heap) (c : Container) (pending : List Container) (lost : Option Object) (s : Heap) : Prop where
  m_ref : s.m_ref = Function.update base.m_ref c none
  owner : s.owner = base.owner
  members : s.members = base.members
  created : s.created = base.created
  held : s.held = base.held
  containers : s.containers ⊆ base.containers
  objects : s.objects ⊆ base.objects
  counts : ∀ o ∈ s.objects, (s.m_refCount o).toNat = s.refs o + if lost = some o then 1 else 0
  refers : ∀ d ∈ s.containers, ∀ o, s.m_ref d = some o → o ∈ s.objects
  nodup : pending.Nodup
  waiting : ∀ d ∈ pending, d ∈ s.containers ∧ ∃ o, s.owner d = some o ∧ o ∉ s.objects
  owned : ∀ d ∈ s.containers, ∀ o, s.owner d = some o → o ∈ s.objects ∨ d ∈ pending
  deadObjects : ∀ o ∈ base.objects, o ∉ s.objects → base.Dies c o
  deadContainers : ∀ d ∈ base.containers, d ∉ s.containers → ∃ o, s.owner d = some o ∧ o ∉ s.objects ∧ base.Dies c o
  losing : ∀ o, lost = some o → o ∈ s.objects ∧ ∃ d ∈ base.containers, base.m_ref d = some o
  zero : ∀ o ∈ s.objects, s.refs o = 0 → lost ≠ some o → base.refs o = 0

theorem Cascade.begin (sound : base.Sound) (formed : base.Formed) (mem : c ∈ base.containers) :
    Cascade base c [] (base.m_ref c) (base.setRef c none) where
  m_ref := rfl
  owner := rfl
  members := rfl
  created := rfl
  held := rfl
  containers := Finset.Subset.refl _
  objects := Finset.Subset.refl _
  counts o object := by
    have before := refsDrop mem o
    have after := refsSet (s := base) (c := c) none o
    rw [if_neg (fun both => nomatch both.2)] at after
    rw [after,Nat.add_zero,before]
    exact sound.counts o object
  refers d mem o refers := by
    by_cases own : d = c
    · subst own
      unfold setRef at refers
      dsimp only at refers
      rw [Function.update_self] at refers
      cases refers
    · unfold setRef at refers
      dsimp only at refers
      rw [Function.update_of_ne own] at refers
      exact sound.refers d mem o refers
  nodup := List.nodup_nil
  waiting _ mem := nomatch mem
  owned d mem o owner := .inl (formed.owned d mem o owner).1
  deadObjects o object gone := absurd object gone
  deadContainers d mem gone := absurd mem gone
  losing o refers := ⟨sound.refers c mem o refers,c,mem,refers⟩
  zero o object zero other := by
    have before := refsDrop mem o
    have after := refsSet (s := base) (c := c) none o
    rw [if_neg other] at before
    rw [if_neg (fun both => nomatch both.2)] at after
    omega

theorem Cascade.pop (formed : base.Formed) (cascade : Cascade base c (d :: pending) none s) :
    Cascade base c pending (s.m_ref d) (s.dropContainer d) := by
  obtain ⟨mem,outer,owner,gone⟩ := cascade.waiting d List.mem_cons_self
  obtain ⟨fresh,nodup⟩ := List.nodup_cons.mp cascade.nodup
  have inBase := cascade.containers mem
  have sub : s.containers.erase d ⊆ s.containers := Finset.erase_subset ..
  constructor
  · exact cascade.m_ref
  · exact cascade.owner
  · exact cascade.members
  · exact cascade.created
  · exact cascade.held
  · exact sub.trans cascade.containers
  · exact cascade.objects
  · intro o object
    rw [refsDrop mem o]
    exact cascade.counts o object
  · exact fun e member => cascade.refers e (sub member)
  · exact nodup
  · intro e member
    obtain ⟨alive,dead⟩ := cascade.waiting e (List.mem_cons_of_mem _ member)
    exact ⟨Finset.mem_erase.mpr ⟨fun same => fresh (same ▸ member),alive⟩,dead⟩
  · intro e member o owner
    refine (cascade.owned e (sub member) o owner).imp_right (fun waits => ?_)
    exact (List.mem_cons.mp waits).resolve_left (Finset.ne_of_mem_erase member)
  · exact cascade.deadObjects
  · intro e member absent
    by_cases own : e = d
    · subst own
      have inBase : outer ∈ base.objects := (formed.owned e member outer (cascade.owner ▸ owner)).1
      exact ⟨outer,owner,gone,cascade.deadObjects outer inBase gone⟩
    · exact cascade.deadContainers e member (fun alive => absent (Finset.mem_erase.mpr ⟨own,alive⟩))
  · intro o refers
    refine ⟨cascade.refers d mem o refers,d,inBase,?_⟩
    rw [cascade.m_ref] at refers
    by_cases own : d = c
    · subst own
      rw [Function.update_self] at refers
      cases refers
    · rwa [Function.update_of_ne own] at refers
  · intro o object zero other
    have before := refsDrop mem o
    rw [if_neg other] at before
    exact cascade.zero o object (by omega) (fun same => nomatch same)

theorem Cascade.diesNow (cascade : Cascade base c pending (some o) s) (zero : s.refs o = 0) : base.Dies c o := by
  have gone : ∀ d ∈ base.containers, base.m_ref d = some o → d ≠ c → d ∉ s.containers := by
    intro d mem refers other alive
    refine refsZero zero alive ?_
    rw [cascade.m_ref,Function.update_of_ne other]
    exact refers
  refine .intro o (cascade.losing o rfl).2 (fun d mem refers other root => ?_) (fun d mem refers other outer owner => ?_)
  · obtain ⟨_,owner,_⟩ := cascade.deadContainers d mem (gone d mem refers other)
    rw [cascade.owner,root] at owner
    cases owner
  · obtain ⟨outer',owner',_,dies⟩ := cascade.deadContainers d mem (gone d mem refers other)
    rw [cascade.owner,owner] at owner'
    cases owner'
    exact dies

theorem Cascade.free (formed : base.Formed) (cascade : Cascade base c pending (some o) s) (zero : s.refs o = 0) :
    Cascade base c (s.destructors o ++ pending) none (s.freeObject o) := by
  obtain ⟨object,_⟩ := cascade.losing o rfl
  have inBase := cascade.objects object
  have members : ∀ d ∈ s.members o, d ∈ s.containers ∧ s.owner d = some o := by
    intro d mem
    rw [cascade.members] at mem
    obtain ⟨alive,owner⟩ := formed.members o inBase d mem
    rw [cascade.owner]
    refine ⟨Decidable.byContradiction (fun gone => ?_),owner⟩
    obtain ⟨outer,owner',dead,_⟩ := cascade.deadContainers d alive gone
    rw [cascade.owner,owner] at owner'
    cases owner'
    exact dead object
  have sub : s.objects.erase o ⊆ s.objects := Finset.erase_subset ..
  constructor
  · exact cascade.m_ref
  · exact cascade.owner
  · exact cascade.members
  · exact cascade.created
  · exact cascade.held
  · exact cascade.containers
  · exact sub.trans cascade.objects
  · intro o' member
    have count := cascade.counts o' (sub member)
    rw [if_neg (fun same => Finset.ne_of_mem_erase member (Option.some.inj same).symm)] at count
    exact count
  · exact fun d mem o' refers =>
      Finset.mem_erase.mpr ⟨fun same => refsZero zero mem (same ▸ refers),cascade.refers d mem o' refers⟩
  · refine List.nodup_append.mpr ⟨?_,cascade.nodup,?_⟩
    · unfold destructors
      rw [List.nodup_reverse,cascade.members]
      exact formed.nodup o inBase
    · rintro d member _ waits rfl
      obtain ⟨_,outer,owner,dead⟩ := cascade.waiting d waits
      rw [(members d (List.mem_reverse.mp member)).2] at owner
      cases owner
      exact dead object
  · intro d member
    rcases List.mem_append.mp member with inner | waits
    · obtain ⟨alive,owner⟩ := members d (List.mem_reverse.mp inner)
      exact ⟨alive,o,owner,fun still => Finset.ne_of_mem_erase still rfl⟩
    · obtain ⟨alive,outer,owner,dead⟩ := cascade.waiting d waits
      exact ⟨alive,outer,owner,fun still => dead (sub still)⟩
  · intro d mem o' owner
    rcases cascade.owned d mem o' owner with lives | waits
    · by_cases own : o' = o
      · subst own
        change s.owner d = some o' at owner
        rw [cascade.owner] at owner
        refine .inr (List.mem_append_left _ (List.mem_reverse.mpr ?_))
        rw [cascade.members]
        exact (formed.owned d (cascade.containers mem) o' owner).2
      · exact .inl (Finset.mem_erase.mpr ⟨own,lives⟩)
    · exact .inr (List.mem_append_right _ waits)
  · intro o' before gone
    by_cases own : o' = o
    · subst own
      exact cascade.diesNow zero
    · exact cascade.deadObjects o' before (fun still => gone (Finset.mem_erase.mpr ⟨own,still⟩))
  · intro d mem absent
    obtain ⟨outer,owner,dead,dies⟩ := cascade.deadContainers d mem absent
    exact ⟨outer,owner,fun still => dead (sub still),dies⟩
  · exact fun _ other => nomatch other
  · intro o' member none _
    exact cascade.zero o' (sub member) none (fun same => Finset.ne_of_mem_erase member (Option.some.inj same).symm)

theorem Cascade.sub (cascade : Cascade base c pending (some o) s) (positive : s.refs o ≠ 0) :
    Cascade base c pending none (s.fetchSub o) := by
  constructor
  · exact cascade.m_ref
  · exact cascade.owner
  · exact cascade.members
  · exact cascade.created
  · exact cascade.held
  · exact cascade.containers
  · exact cascade.objects
  · intro o' object
    have count := cascade.counts o' object
    unfold fetchSub
    dsimp only
    by_cases own : o' = o
    · subst own
      rw [if_pos rfl] at count
      rw [Function.update_self,if_neg (fun same => nomatch same)]
      change (s.m_refCount o' - 1).toNat = s.refs o' + 0
      have small := (s.m_refCount o').isLt
      rw [BitVec.toNat_sub_of_le (by rw [BitVec.le_def]; simp; omega)]
      simp
      omega
    · rw [if_neg (fun same => own (Option.some.inj same).symm)] at count
      rw [Function.update_of_ne own,if_neg (fun same => nomatch same)]
      exact count
  · exact cascade.refers
  · exact cascade.nodup
  · exact cascade.waiting
  · exact cascade.owned
  · exact cascade.deadObjects
  · exact cascade.deadContainers
  · exact fun _ other => nomatch other
  · intro o' object none _
    by_cases own : o' = o
    · subst own
      exact absurd none positive
    · exact cascade.zero o' object none (fun same => own (Option.some.inj same).symm)

theorem Cascade.last (cascade : Cascade base c pending (some o) s) : s.m_refCount o ≤ 1 ↔ s.refs o = 0 := by
  obtain ⟨object,_⟩ := cascade.losing o rfl
  have count := cascade.counts o object
  rw [if_pos rfl] at count
  rw [BitVec.le_def,count]
  simp

theorem Cascade.run (formed : base.Formed) (cascade : Cascade base c pending none s) :
    ∃ s', destroyAll pending s = some s' ∧ Cascade base c [] none s' := by
  fun_induction destroyAll pending s with
  | case1 s => exact ⟨s,rfl,cascade⟩
  | case2 s d pending mem null ih =>
    have next := cascade.pop formed
    rw [null] at next
    exact ih next
  | case3 s d pending mem o refers object last ih =>
    have next := cascade.pop formed
    rw [refers] at next
    exact ih (next.free formed (next.last.mp last))
  | case4 s d pending mem o refers object more ih =>
    have next := cascade.pop formed
    rw [refers] at next
    exact ih (next.sub (fun zero => more (next.last.mpr zero)))
  | case5 s d pending mem o refers freed => exact absurd (cascade.refers d mem o refers) freed
  | case6 s d pending freed => exact absurd (cascade.waiting d List.mem_cons_self).1 freed

end Heap
end Citizen.Core
