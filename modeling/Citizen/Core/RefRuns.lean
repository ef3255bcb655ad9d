import Citizen.Core.RefCascade

/-! That containers never refer to a freed object where no assignment frees what it uses, and only there. -/
namespace Citizen.Core.Heap

variable {base s s' : Heap} {c d : Container} {o : Object} {pending : List Container}

structure Dropped (base : Heap) (c : Container) (s : Heap) : Prop where
  m_ref : s.m_ref = Function.update base.m_ref c none
  owner : s.owner = base.owner
  created : s.created = base.created
  sound : s.Sound
  formed : s.Formed
  containers : ∀ d, d ∈ s.containers ↔ d ∈ base.containers ∧ base.Survives c d
  objects : ∀ o, o ∈ s.objects ↔ o ∈ base.objects ∧ ¬base.Dies c o

theorem Cascade.notDies (cascade : Cascade base c [] none s) (dies : base.Dies c o) : o ∉ s.objects := by
  induction dies with
  | intro o held root inner ih =>
    intro object
    have zero : s.refs o = 0 := by
      refine Finset.card_eq_zero.mpr (Finset.filter_eq_empty_iff.mpr (fun d mem refers => ?_))
      rw [cascade.m_ref] at refers
      by_cases own : d = c
      · subst own
        rw [Function.update_self] at refers
        cases refers
      · rw [Function.update_of_ne own] at refers
        have inBase := cascade.containers mem
        obtain ⟨outer,owner⟩ := Option.ne_none_iff_exists'.mp (root d inBase refers own)
        have lives := (cascade.owned d mem outer (cascade.owner ▸ owner)).resolve_right List.not_mem_nil
        exact ih d inBase refers own outer owner lives
    obtain ⟨d,mem,refers⟩ := held
    exact refsPositive mem refers (cascade.zero o object zero (fun same => nomatch same))

theorem Cascade.dropped (sound : base.Sound) (formed : base.Formed) (cascade : Cascade base c [] none s) : Dropped base c s := by
  have objects : ∀ o, o ∈ s.objects ↔ o ∈ base.objects ∧ ¬base.Dies c o := by
    intro o
    refine ⟨fun object => ⟨cascade.objects object,fun dies => cascade.notDies dies object⟩,?_⟩
    rintro ⟨object,lives⟩
    exact Decidable.byContradiction (fun gone => lives (cascade.deadObjects o object gone))
  have owned : ∀ d ∈ s.containers, ∀ o, s.owner d = some o → o ∈ s.objects :=
    fun d mem o owner => (cascade.owned d mem o owner).resolve_right List.not_mem_nil
  have containers : ∀ d, d ∈ s.containers ↔ d ∈ base.containers ∧ base.Survives c d := by
    intro d
    constructor
    · intro mem
      refine ⟨cascade.containers mem,fun o owner => ?_⟩
      exact ((objects o).mp (owned d mem o (cascade.owner ▸ owner))).2
    · rintro ⟨mem,survives⟩
      refine Decidable.byContradiction (fun gone => ?_)
      obtain ⟨o,owner,_,dies⟩ := cascade.deadContainers d mem gone
      exact survives o (cascade.owner ▸ owner) dies
  have refersBase : ∀ d ∈ s.containers, ∀ o, s.m_ref d = some o → base.m_ref d = some o := by
    intro d _ o refers
    rw [cascade.m_ref] at refers
    by_cases own : d = c
    · subst own
      rw [Function.update_self] at refers
      cases refers
    · rwa [Function.update_of_ne own] at refers
  refine ⟨cascade.m_ref,cascade.owner,cascade.created,⟨cascade.refers,?_,?_⟩,?_,containers,objects⟩
  · intro o created
    rw [cascade.created] at created
    rw [cascade.held]
    constructor
    · intro object
      refine ((sound.lives o created).mp (cascade.objects object)).imp_right ?_
      rintro ⟨d,mem,refers⟩
      have positive : s.refs o ≠ 0 :=
        fun zero => refsPositive mem refers (cascade.zero o object zero (fun same => nomatch same))
      obtain ⟨e,member⟩ := Finset.card_ne_zero.mp positive
      exact ⟨e,Finset.mem_filter.mp member⟩
    · rintro (free | ⟨d,mem,refers⟩)
      · refine (objects o).mpr ⟨(sound.lives o created).mpr (.inl free),?_⟩
        rintro ⟨_,⟨d,mem,refers⟩,_,_⟩
        exact free (formed.held d mem o refers)
      · exact cascade.refers d mem o refers
  · intro o object
    have count := cascade.counts o object
    rwa [if_neg (fun same => nomatch same)] at count
  · constructor
    · intro d mem o owner
      refine ⟨owned d mem o owner,?_⟩
      rw [cascade.members]
      exact (formed.owned d (cascade.containers mem) o (cascade.owner ▸ owner)).2
    · intro o object
      rw [cascade.members]
      exact formed.nodup o (cascade.objects object)
    · intro o object d mem
      rw [cascade.members] at mem
      obtain ⟨alive,owner⟩ := formed.members o (cascade.objects object) d mem
      rw [cascade.owner]
      refine ⟨(containers d).mpr ⟨alive,fun o' owner' => ?_⟩,owner⟩
      cases owner.symm.trans owner'
      exact ((objects o).mp object).2
    · rw [cascade.created]
      exact cascade.objects.trans formed.created
    · rw [cascade.created,cascade.held]
      exact formed.heldCreated
    · intro d mem o refers
      rw [cascade.held]
      exact formed.held d (cascade.containers mem) o (refersBase d mem o refers)

def drop (base : Heap) (c : Container) : Option Heap :=
  match base.m_ref c with
  | none => some base
  | some o => (base.setRef c none).Release o

variable {ref : Option Object}

theorem setRefSame (same : s.m_ref c = ref) : s.setRef c ref = s := by
  unfold setRef
  rw [← same,Function.update_eq_self]

theorem setRefTwice (s : Heap) (c : Container) (first second : Option Object) :
    (s.setRef c first).setRef c second = s.setRef c second := by
  unfold setRef
  dsimp only
  rw [Function.update_idem]

theorem dropExists (sound : base.Sound) (formed : base.Formed) (mem : c ∈ base.containers) :
    ∃ s, base.drop c = some s ∧ Dropped base c s := by
  have cascade := Cascade.begin sound formed mem
  unfold drop
  split
  · rename_i null
    rw [null,setRefSame null] at cascade
    exact ⟨base,rfl,cascade.dropped sound formed⟩
  · rename_i o refers
    rw [refers] at cascade
    unfold Release
    rw [if_pos (cascade.losing o rfl).1]
    split
    · rename_i last
      have freed := cascade.free formed (cascade.last.mp last)
      rw [List.append_nil] at freed
      obtain ⟨s,run,ends⟩ := freed.run formed
      exact ⟨s,run,ends.dropped sound formed⟩
    · rename_i more
      exact ⟨_,rfl,(cascade.sub (fun zero => more (cascade.last.mpr zero))).dropped sound formed⟩

theorem destroyFewer (run : destroyAll pending s = some s') : s'.containers ⊆ s.containers := by
  fun_induction destroyAll pending s with
  | case1 s => exact Option.some.inj run ▸ Finset.Subset.refl _
  | case2 s d pending mem null ih => exact (ih run).trans (Finset.erase_subset ..)
  | case3 s d pending mem o refers object last ih => exact (ih run).trans (Finset.erase_subset ..)
  | case4 s d pending mem o refers object more ih => exact (ih run).trans (Finset.erase_subset ..)
  | case5 s d pending mem o refers freed => cases run
  | case6 s d pending freed => cases run

theorem popNull (mem : d ∈ s.containers) (null : s.m_ref d = none) :
    destroyAll (d :: pending) s = destroyAll pending (s.dropContainer d) := by
  rw [destroyAll,dif_pos mem]
  split
  · rfl
  · rename_i o refers
    cases null.symm.trans refers

theorem popRefers (mem : d ∈ s.containers) (refers : s.m_ref d = some o) : destroyAll (d :: pending) s =
    if o ∈ s.objects then
      if s.m_refCount o ≤ 1 then destroyAll (s.destructors o ++ pending) ((s.dropContainer d).freeObject o)
      else destroyAll pending ((s.dropContainer d).fetchSub o)
    else none := by
  rw [destroyAll,dif_pos mem]
  split
  · rename_i null
    cases refers.symm.trans null
  · rename_i o' refers'
    cases refers.symm.trans refers'
    rfl

theorem setRefOwn (s : Heap) (c : Container) (ref : Option Object) : (s.setRef c ref).m_ref c = ref := Function.update_self ..

theorem setRefOther (other : d ≠ c) : (s.setRef c ref).m_ref d = s.m_ref d := Function.update_of_ne other ..

theorem popDangling (mem : c ∈ s.containers) (freed : o ∉ s.objects) : destroyAll (c :: pending) (s.setRef c (some o)) = none := by
  have refers : (s.setRef c (some o)).m_ref c = some o := setRefOwn ..
  rw [popRefers (s := s.setRef c (some o)) mem refers]
  exact if_neg freed

theorem destroyDangling (run : destroyAll pending s = some s') (mem : c ∈ s.containers) (freed : o ∉ s.objects) :
    destroyAll pending (s.setRef c (some o)) = if c ∈ s'.containers then some (s'.setRef c (some o)) else none := by
  have gone : ∀ {t : Heap}, c ∉ t.containers → ∀ rest, destroyAll rest t = some s' →
      none = if c ∈ s'.containers then some (s'.setRef c (some o)) else none := by
    intro t absent rest run
    rw [if_neg (fun present => absent (destroyFewer run present))]
  fun_induction destroyAll pending s with
  | case1 s =>
    cases run
    rw [destroyAll,if_pos mem]
  | case2 s d pending alive null ih =>
    by_cases own : d = c
    · subst own
      rw [popDangling mem freed]
      exact gone (Finset.notMem_erase d s.containers) pending run
    · rw [popNull (s := s.setRef c (some o)) alive ((setRefOther own).trans null)]
      exact ih run (Finset.mem_erase.mpr ⟨Ne.symm own,mem⟩) freed
  | case3 s d pending alive o' refers object last ih =>
    by_cases own : d = c
    · subst own
      rw [popDangling mem freed]
      exact gone (Finset.notMem_erase d s.containers) _ run
    · rw [popRefers (s := s.setRef c (some o)) alive ((setRefOther own).trans refers)]
      rw [if_pos (show o' ∈ (s.setRef c (some o)).objects from object),if_pos (show (s.setRef c (some o)).m_refCount o' ≤ 1 from last)]
      exact ih run (Finset.mem_erase.mpr ⟨Ne.symm own,mem⟩) (fun still => freed (Finset.mem_of_mem_erase still))
  | case4 s d pending alive o' refers object more ih =>
    by_cases own : d = c
    · subst own
      rw [popDangling mem freed]
      exact gone (Finset.notMem_erase d s.containers) pending run
    · rw [popRefers (s := s.setRef c (some o)) alive ((setRefOther own).trans refers)]
      rw [if_pos (show o' ∈ (s.setRef c (some o)).objects from object),if_neg (show ¬(s.setRef c (some o)).m_refCount o' ≤ 1 from more)]
      exact ih run (Finset.mem_erase.mpr ⟨Ne.symm own,mem⟩) freed
  | case5 s d pending alive o' refers freed => cases run
  | case6 s d pending freed => cases run

def destroying (s : Heap) (c : Container) (ref : Option Object) : Heap := (s.dropContainer c).setRef c ref

theorem destroyingDrop (ref : Option Object) :
    (s.destroying c ref).dropContainer d = (s.dropContainer d).destroying c ref := by
  unfold destroying setRef dropContainer
  dsimp only
  rw [Finset.erase_right_comm]

theorem destroyingMem (other : d ≠ c) (mem : d ∈ s.containers) : d ∈ (s.destroying c ref).containers :=
  Finset.mem_erase.mpr ⟨other,mem⟩

theorem notPopped {t : Heap} {rest : List Container} (run : destroyAll rest t = some s') (stays : c ∈ s'.containers)
    (dropped : t.containers = s.containers.erase d) : d ≠ c := by
  rintro rfl
  have still := destroyFewer run stays
  rw [dropped] at still
  exact Finset.notMem_erase d s.containers still

theorem destroyApart (run : destroyAll pending s = some s') (stays : c ∈ s'.containers) :
    destroyAll pending (s.destroying c ref) = some (s'.destroying c ref) := by
  fun_induction destroyAll pending s with
  | case1 s =>
    cases run
    rw [destroyAll]
  | case2 s d pending alive null ih =>
    have own : d ≠ c := notPopped run stays rfl
    have reads : (s.destroying c ref).m_ref d = s.m_ref d := setRefOther own
    rw [popNull (destroyingMem own alive) (reads.trans null),destroyingDrop]
    exact ih run
  | case3 s d pending alive o refers object last ih =>
    have own : d ≠ c := notPopped run stays rfl
    have reads : (s.destroying c ref).m_ref d = s.m_ref d := setRefOther own
    rw [popRefers (destroyingMem own alive) (reads.trans refers),destroyingDrop]
    rw [if_pos (show o ∈ (s.destroying c ref).objects from object),if_pos (show (s.destroying c ref).m_refCount o ≤ 1 from last)]
    exact ih run
  | case4 s d pending alive o refers object more ih =>
    have own : d ≠ c := notPopped run stays rfl
    have reads : (s.destroying c ref).m_ref d = s.m_ref d := setRefOther own
    rw [popRefers (destroyingMem own alive) (reads.trans refers),destroyingDrop]
    rw [if_pos (show o ∈ (s.destroying c ref).objects from object),if_neg (show ¬(s.destroying c ref).m_refCount o ≤ 1 from more)]
    exact ih run
  | case5 s d pending alive o refers freed => cases run
  | case6 s d pending freed => cases run

theorem releaseOldDrop (sound : base.Sound) (mem : c ∈ base.containers) (dropped : base.drop c = some s) :
    base.releaseOld c = if c ∈ s.containers then some (s.setRef c (base.m_ref c)) else none := by
  unfold drop at dropped
  unfold releaseOld
  split at dropped
  · rename_i null
    cases dropped
    rw [null,setRefSame null,if_pos mem]
  · rename_i o refers
    have object := sound.refers c mem o refers
    have back : (base.setRef c none).setRef c (some o) = base := (setRefTwice ..).trans (setRefSame refers)
    simp only [refers]
    unfold Release at dropped ⊢
    rw [if_pos object] at ⊢
    rw [if_pos (show o ∈ (base.setRef c none).objects from object)] at dropped
    by_cases last : base.m_refCount o ≤ 1
    · rw [if_pos (show (base.setRef c none).m_refCount o ≤ 1 from last)] at dropped
      rw [if_pos last]
      have dangling := destroyDangling dropped (c := c) (o := o) mem (Finset.notMem_erase o base.objects)
      rw [← dangling]
      exact congrArg (fun heap => destroyAll (base.destructors o) (freeObject heap o)) back.symm
    · rw [if_neg (show ¬(base.setRef c none).m_refCount o ≤ 1 from last)] at dropped
      cases dropped
      rw [if_neg last,if_pos (show c ∈ ((base.setRef c none).fetchSub o).containers from mem)]
      exact congrArg (fun heap => some (fetchSub heap o)) back.symm

theorem destroyDrop (mem : c ∈ base.containers) (sound : base.Sound) (dropped : base.drop c = some s) (stays : c ∈ s.containers) :
    destroyAll [c] base = some (s.destroying c (base.m_ref c)) := by
  have back : ∀ {ref}, base.m_ref c = ref → (base.setRef c none).destroying c ref = base.dropContainer c := by
    rintro ref rfl
    unfold destroying
    exact (setRefTwice (base.dropContainer c) c none _).trans (setRefSame rfl)
  unfold drop at dropped
  split at dropped
  · rename_i null
    cases dropped
    rw [popNull mem null,destroyAll,null]
    unfold destroying
    rw [setRefSame (show (base.dropContainer c).m_ref c = none from null)]
  · rename_i o refers
    have object := sound.refers c mem o refers
    rw [popRefers mem refers,if_pos object,refers,List.append_nil]
    unfold Release at dropped
    rw [if_pos (show o ∈ (base.setRef c none).objects from object)] at dropped
    by_cases last : base.m_refCount o ≤ 1
    · rw [if_pos (show (base.setRef c none).m_refCount o ≤ 1 from last)] at dropped
      rw [if_pos last,← destroyApart dropped stays]
      exact congrArg (fun heap => destroyAll (base.destructors o) (freeObject heap o)) (back refers).symm
    · rw [if_neg (show ¬(base.setRef c none).m_refCount o ≤ 1 from last)] at dropped
      cases dropped
      rw [if_neg last,destroyAll]
      exact congrArg (fun heap => some (fetchSub heap o)) (back refers).symm

def SameHolders (s s' : Heap) : Prop :=
  ∀ d o, d ∈ s'.containers ∧ s'.m_ref d = some o ↔ d ∈ s.containers ∧ s.m_ref d = some o

theorem SameHolders.refs (same : SameHolders s s') (o : Object) : s'.refs o = s.refs o := by
  refine congrArg Finset.card (Finset.ext (fun d => ?_))
  rw [Finset.mem_filter,Finset.mem_filter]
  exact same d o

theorem SameHolders.sound (same : SameHolders s s') (objects : s'.objects = s.objects) (counts : s'.m_refCount = s.m_refCount)
    (created : s'.created = s.created) (held : s'.held = s.held) (sound : s.Sound) : s'.Sound where
  refers d mem o refers := by
    obtain ⟨mem,refers⟩ := (same d o).mp ⟨mem,refers⟩
    exact objects ▸ sound.refers d mem o refers
  lives o created' := by
    rw [objects,held,sound.lives o (created ▸ created')]
    exact or_congr_right (exists_congr (fun d => (same d o).symm))
  counts o object := by
    rw [counts,same.refs o]
    exact sound.counts o (objects ▸ object)

theorem newHolders (fresh : c ∉ s.containers) (owner : Option Object) : SameHolders s (s.newContainer c owner) := by
  intro d o
  unfold newContainer
  dsimp only
  by_cases own : d = c
  · subst own
    rw [Function.update_self]
    exact iff_of_false (fun both => nomatch both.2) (fun both => fresh both.1)
  · rw [Function.update_of_ne own,Finset.mem_insert,or_iff_right own]

theorem newRootFormed (formed : s.Formed) (fresh : c ∉ s.containers) : (s.newContainer c none).Formed where
  owned d mem o owner := by
    unfold newContainer at owner
    dsimp only at owner
    by_cases own : d = c
    · subst own
      rw [Function.update_self] at owner
      cases owner
    · rw [Function.update_of_ne own] at owner
      exact formed.owned d ((Finset.mem_insert.mp mem).resolve_left own) o owner
  nodup := formed.nodup
  members o object d mem := by
    obtain ⟨alive,owner⟩ := formed.members o object d mem
    have other : d ≠ c := fun same => fresh (same ▸ alive)
    exact ⟨Finset.mem_insert_of_mem alive,(Function.update_of_ne other ..).trans owner⟩
  created := formed.created
  heldCreated := formed.heldCreated
  held d mem o refers := by
    obtain ⟨mem,refers⟩ := (newHolders fresh none d o).mp ⟨mem,refers⟩
    exact formed.held d mem o refers

theorem newMembers (o : Object) (members : List Container) (s : Heap) :
    (members.foldl (fun s c => s.newContainer c (some o)) s) =
      { s with
        containers := s.containers ∪ members.toFinset
        m_ref := fun d => if d ∈ members then none else s.m_ref d
        owner := fun d => if d ∈ members then some o else s.owner d } := by
  induction members generalizing s with
  | nil => simp
  | cons c rest ih =>
    rw [List.foldl_cons,ih]
    unfold newContainer
    congr 1
    · ext d
      simp
    · funext d
      by_cases own : d = c
      · simp [own]
      · simp [own]
    · funext d
      by_cases own : d = c
      · simp [own]
      · simp [own]

variable {members : List Container}

theorem newObjectHolders (fresh : ∀ c ∈ members, c ∉ s.containers) : SameHolders s (s.newObject o members) := by
  intro d o'
  unfold newObject
  rw [newMembers]
  dsimp only
  rw [Finset.mem_union,List.mem_toFinset]
  by_cases own : d ∈ members
  · rw [if_pos own]
    exact iff_of_false (fun both => nomatch both.2) (fun both => fresh d own both.1)
  · rw [if_neg own,or_iff_left own]

theorem newObjectSound (sound : s.Sound) (formed : s.Formed) (fresh : o ∉ s.created)
    (unused : ∀ c ∈ members, c ∉ s.containers) : (s.newObject o members).Sound := by
  have same : SameHolders s (s.newObject o members) := newObjectHolders unused
  have objects : (s.newObject o members).objects = insert o s.objects := rfl
  have created : (s.newObject o members).created = insert o s.created := rfl
  have held : (s.newObject o members).held = s.held := by
    unfold newObject
    rw [newMembers]
  have counts : (s.newObject o members).m_refCount = Function.update s.m_refCount o 0 := by
    unfold newObject
    rw [newMembers]
  have unreferred : ∀ d ∈ s.containers, s.m_ref d ≠ some o :=
    fun d mem refers => fresh (formed.created (sound.refers d mem o refers))
  constructor
  · intro d mem o' refers
    obtain ⟨mem,refers⟩ := (same d o').mp ⟨mem,refers⟩
    exact Finset.mem_insert_of_mem (sound.refers d mem o' refers)
  · intro o' member
    rw [held,objects,exists_congr (fun d => same d o')]
    rw [created] at member
    rcases Finset.mem_insert.mp member with rfl | old
    · exact iff_of_true (Finset.mem_insert_self ..) (.inl (fun held => fresh (formed.heldCreated held)))
    · have other : o' ≠ o := fun own => fresh (own ▸ old)
      rw [Finset.mem_insert,or_iff_right other]
      exact sound.lives o' old
  · intro o' object
    rw [counts,same.refs o']
    rw [objects] at object
    rcases Finset.mem_insert.mp object with rfl | old
    · rw [Function.update_self]
      exact (Finset.card_eq_zero.mpr (Finset.filter_eq_empty_iff.mpr (fun d mem => unreferred d mem))).symm
    · have other : o' ≠ o := fun own => fresh (formed.created (own ▸ old))
      rw [Function.update_of_ne other]
      exact sound.counts o' old

theorem newObjectFormed (formed : s.Formed) (fresh : o ∉ s.created) (nodup : members.Nodup)
    (unused : ∀ c ∈ members, c ∉ s.containers) : (s.newObject o members).Formed := by
  have other : ∀ {o'}, o' ∈ s.objects → o' ≠ o := fun {_} object same => fresh (formed.created (same ▸ object))
  have same : SameHolders s (s.newObject o members) := newObjectHolders unused
  have fields : s.newObject o members =
      { s with
        containers := s.containers ∪ members.toFinset
        m_ref := fun d => if d ∈ members then none else s.m_ref d
        owner := fun d => if d ∈ members then some o else s.owner d
        objects := insert o s.objects
        m_refCount := Function.update s.m_refCount o 0
        members := Function.update s.members o members
        created := insert o s.created } := by
    unfold newObject
    rw [newMembers]
  constructor
  · rw [fields]
    intro d mem o' owner
    dsimp only at mem owner ⊢
    by_cases own : d ∈ members
    · rw [if_pos own] at owner
      cases owner
      rw [Function.update_self]
      exact ⟨Finset.mem_insert_self ..,own⟩
    · rw [if_neg own] at owner
      rw [Finset.mem_union,List.mem_toFinset,or_iff_left own] at mem
      obtain ⟨object,member⟩ := formed.owned d mem o' owner
      rw [Function.update_of_ne (other object)]
      exact ⟨Finset.mem_insert_of_mem object,member⟩
  · rw [fields]
    intro o' object
    dsimp only at object ⊢
    rcases Finset.mem_insert.mp object with rfl | old
    · rw [Function.update_self]
      exact nodup
    · rw [Function.update_of_ne (other old)]
      exact formed.nodup o' old
  · rw [fields]
    intro o' object d mem
    dsimp only at object mem ⊢
    rcases Finset.mem_insert.mp object with rfl | old
    · rw [Function.update_self] at mem
      rw [if_pos mem]
      exact ⟨Finset.mem_union_right _ (List.mem_toFinset.mpr mem),rfl⟩
    · rw [Function.update_of_ne (other old)] at mem
      obtain ⟨alive,owner⟩ := formed.members o' old d mem
      rw [if_neg (fun own => unused d own alive)]
      exact ⟨Finset.mem_union_left _ alive,owner⟩
  · exact Finset.insert_subset_insert o formed.created
  · rw [fields]
    exact formed.heldCreated.trans (Finset.subset_insert ..)
  · intro d mem o' refers
    obtain ⟨mem,refers⟩ := (same d o').mp ⟨mem,refers⟩
    rw [fields]
    exact formed.held d mem o' refers

theorem attachSet (s : Heap) (c : Container) (first ref : Option Object) : (s.setRef c first).attach c ref = s.attach c ref := by
  unfold attach
  split
  · rw [setRefTwice]
  · rw [setRefTwice]

theorem refsAttached (mem : c ∈ s.containers) (null : s.m_ref c = none) (ref : Option Object) (o : Object) :
    (s.setRef c ref).refs o = s.refs o + if ref = some o then 1 else 0 := by
  have before := refsDrop mem o
  rw [null,if_neg (fun same => nomatch same),Nat.add_zero] at before
  rw [refsSet,before]
  simp [mem]

theorem attachSome (object : o ∈ s.objects) : s.attach c (some o) = some ((s.setRef c (some o)).fetchAdd o) :=
  if_pos object

theorem attachedRefers {o' : Object} (refers : ((s.setRef c (some o)).fetchAdd o).m_ref d = some o') :
    d = c ∧ o = o' ∨ d ≠ c ∧ s.m_ref d = some o' := by
  by_cases own : d = c
  · subst own
    exact .inl ⟨rfl,Option.some.inj ((setRefOwn ..).symm.trans refers)⟩
  · exact .inr ⟨own,(setRefOther own).symm.trans refers⟩

section
variable (sound : s.Sound) (mem : c ∈ s.containers) (null : s.m_ref c = none)
include sound mem null

theorem attachedSound (object : o ∈ s.objects)
    (room : Fits (s.refs o)) : ((s.setRef c (some o)).fetchAdd o).Sound where
  refers d member o' refers := by
    rcases attachedRefers refers with ⟨_,rfl⟩ | ⟨_,old⟩
    · exact object
    · exact sound.refers d member o' old
  lives o' created := by
    constructor
    · intro object'
      by_cases own : o' = o
      · subst own
        exact .inr ⟨c,mem,setRefOwn ..⟩
      · refine ((sound.lives o' created).mp object').imp ?_ ?_
        · exact fun free held => free ((Finset.mem_insert.mp held).resolve_left own)
        · rintro ⟨d,member,refers⟩
          have other : d ≠ c := by
            rintro rfl
            exact nomatch null.symm.trans refers
          exact ⟨d,member,(setRefOther other).trans refers⟩
    · rintro (free | ⟨d,member,refers⟩)
      · exact (sound.lives o' created).mpr (.inl (fun held => free (Finset.mem_insert_of_mem held)))
      · rcases attachedRefers refers with ⟨_,rfl⟩ | ⟨_,old⟩
        · exact object
        · exact sound.refers d member o' old
  counts o' object' := by
    have total : ((s.setRef c (some o)).fetchAdd o).refs o' = s.refs o' + if some o = some o' then 1 else 0 :=
      refsAttached mem null (some o) o'
    rw [total]
    by_cases own : o' = o
    · subst own
      have count : (((s.setRef c (some o')).fetchAdd o').m_refCount o') = s.m_refCount o' + 1 := Function.update_self ..
      rw [count,if_pos rfl,BitVec.toNat_add,sound.counts o' object]
      exact Nat.mod_eq_of_lt room
    · have count : (((s.setRef c (some o)).fetchAdd o).m_refCount o') = s.m_refCount o' := Function.update_of_ne own ..
      rw [count,if_neg (fun same => own (Option.some.inj same).symm)]
      exact sound.counts o' object'

theorem attachSound (ref : Option Object) :
    SoundAfter (s.attach c ref) ↔ ∀ o ∈ ref, o ∈ s.objects ∧ Fits (s.refs o) := by
  cases ref with
  | none =>
    refine iff_of_true ?_ (fun _ none => nomatch none)
    unfold attach
    dsimp only
    rw [setRefSame null]
    exact sound
  | some o =>
    by_cases object : o ∈ s.objects
    · rw [attachSome object]
      constructor
      · rintro after _ ⟨rfl⟩
        refine ⟨object,?_⟩
        have now := Sound.counts after o object
        have total : ((s.setRef c (some o)).fetchAdd o).refs o = s.refs o + if some o = some o then 1 else 0 :=
          refsAttached mem null (some o) o
        rw [total,if_pos rfl] at now
        have small := (((s.setRef c (some o)).fetchAdd o).m_refCount o).isLt
        rwa [now] at small
      · intro fits
        exact attachedSound sound mem null object (fits o rfl).2
    · have failed : s.attach c (some o) = none := if_neg object
      rw [failed]
      exact iff_of_false id (fun fits => object (fits o rfl).1)

end

theorem attachFormed (formed : s.Formed) {ref : Option Object} (known : ∀ o ∈ ref, o ∈ s.created)
    (attached : s.attach c ref = some s') : s'.Formed := by
  cases ref with
  | none =>
    cases attached
    refine ⟨formed.owned,formed.nodup,formed.members,formed.created,formed.heldCreated,fun d mem o refers => ?_⟩
    by_cases own : d = c
    · subst own
      exact nomatch (setRefOwn ..).symm.trans refers
    · exact formed.held d mem o ((setRefOther own).symm.trans refers)
  | some o =>
    by_cases object : o ∈ s.objects
    · rw [attachSome object] at attached
      cases attached
      refine ⟨formed.owned,formed.nodup,formed.members,formed.created,?_,fun d mem o' refers => ?_⟩
      · exact Finset.insert_subset (known o rfl) formed.heldCreated
      · rcases attachedRefers refers with ⟨_,rfl⟩ | ⟨_,old⟩
        · exact Finset.mem_insert_self ..
        · exact Finset.mem_insert_of_mem (formed.held d mem o' old)
    · have failed : s.attach c (some o) = none := if_neg object
      rw [failed] at attached
      cases attached

section
variable (dropped : Dropped base c s)
include dropped

theorem Dropped.null : s.m_ref c = none := by
  rw [dropped.m_ref]
  exact Function.update_self ..

theorem Dropped.remaining (o : Object) : (base.remaining c o).ncard = s.refs o := by
  have same : base.remaining c o = ↑(s.containers.filter (fun d => s.m_ref d = some o)) := by
    ext d
    rw [Finset.coe_filter]
    change (d ∈ base.containers ∧ base.Survives c d ∧ d ≠ c ∧ base.m_ref d = some o) ↔ d ∈ s.containers ∧ s.m_ref d = some o
    rw [dropped.containers,and_assoc]
    refine and_congr_right (fun _ => and_congr_right (fun _ => ?_))
    rw [dropped.m_ref]
    by_cases own : d = c
    · subst own
      rw [Function.update_self]
      exact iff_of_false (fun both => both.1 rfl) (fun none => nomatch none)
    · rw [Function.update_of_ne own]
      exact and_iff_right own
  rw [same,Set.ncard_coe_finset]
  rfl

section
variable (mem : c ∈ base.containers) {ref : Option Object} (known : ∀ o ∈ ref, o ∈ base.objects)
include mem known

theorem Dropped.apart : base.Apart c ref ↔ c ∈ s.containers ∧ ∀ o ∈ ref, o ∈ s.objects ∧ Fits (s.refs o) := by
  unfold Apart
  rw [dropped.containers,and_iff_right mem]
  refine and_congr_right (fun _ => forall_congr' (fun o => forall_congr' (fun own => ?_)))
  rw [dropped.objects,and_iff_right (known o own),dropped.remaining]

theorem Dropped.attach :
    SoundAfter (if c ∈ s.containers then s.attach c ref else none) ↔ base.Apart c ref := by
  rw [dropped.apart mem known]
  split
  · rename_i stays
    rw [attachSound dropped.sound stays dropped.null ref,and_iff_right stays]
  · rename_i gone
    exact iff_of_false id (fun both => gone both.1)

end
end

section
variable (sound : base.Sound) (mem : c ∈ base.containers) (drops : base.drop c = some s)
include sound mem drops

theorem assignRefDropped (ref : Option Object) : base.assignRef c ref = if c ∈ s.containers then s.attach c ref else none := by
  unfold assignRef
  rw [releaseOldDrop sound mem drops]
  split
  · rename_i stays
    rw [Option.bind_some,if_pos (show c ∈ (s.setRef c (base.m_ref c)).containers from stays),attachSet]
  · rfl

theorem assignDropped (dropped : Dropped base c s)
    (other : Container) : base.assign c other =
      if other ∈ s.containers then if c ∈ s.containers then s.attach c (base.m_ref other) else none else none := by
  have reads : (s.setRef c (base.m_ref c)).m_ref = base.m_ref := by
    unfold setRef
    dsimp only
    rw [dropped.m_ref,Function.update_idem,Function.update_eq_self]
  unfold assign
  rw [releaseOldDrop sound mem drops]
  by_cases stays : c ∈ s.containers
  · rw [if_pos stays,if_pos stays,Option.bind_some,reads,attachSet]
    by_cases still : other ∈ s.containers
    · rw [if_pos still]
      exact if_pos ⟨still,stays⟩
    · rw [if_neg still]
      exact if_neg (fun both => still both.1)
  · rw [if_neg stays,if_neg stays,ite_self]
    rfl

end

theorem destroyingHolders (null : s.m_ref c = none) (ref : Option Object) : SameHolders s (s.destroying c ref) := by
  intro d o
  by_cases own : d = c
  · subst own
    exact iff_of_false (fun both => Finset.notMem_erase d s.containers both.1) (fun both => nomatch null.symm.trans both.2)
  · rw [show (s.destroying c ref).m_ref d = s.m_ref d from setRefOther own]
    exact and_congr_left (fun _ => Finset.mem_erase.trans (and_iff_right own))

theorem destroyingFormed (formed : s.Formed) (null : s.m_ref c = none) (root : s.owner c = none) (ref : Option Object) :
    (s.destroying c ref).Formed where
  owned d mem := formed.owned d (Finset.mem_of_mem_erase mem)
  nodup := formed.nodup
  members o object d mem := by
    obtain ⟨alive,owner⟩ := formed.members o object d mem
    have other : d ≠ c := by
      rintro rfl
      exact nomatch root.symm.trans owner
    exact ⟨Finset.mem_erase.mpr ⟨other,alive⟩,owner⟩
  created := formed.created
  heldCreated := formed.heldCreated
  held d mem o refers := by
    obtain ⟨mem,refers⟩ := (destroyingHolders null ref d o).mp ⟨mem,refers⟩
    exact formed.held d mem o refers

def FormedAfter (state : Option Heap) : Prop := ∀ s, state = some s → s.Formed

theorem destroyRoot (sound : base.Sound) (formed : base.Formed) (mem : c ∈ base.containers) (root : base.owner c = none) :
    ∃ s, destroyAll [c] base = some s ∧ s.Sound ∧ s.Formed := by
  obtain ⟨s,drops,dropped⟩ := dropExists sound formed mem
  have stays : c ∈ s.containers := (dropped.containers c).mpr ⟨mem,fun o owner => nomatch root.symm.trans owner⟩
  have rootLeft : s.owner c = none := by
    rw [dropped.owner]
    exact root
  exact ⟨_,destroyDrop mem sound drops stays,
    (destroyingHolders dropped.null _).sound rfl rfl rfl rfl dropped.sound,
    destroyingFormed dropped.formed dropped.null rootLeft _⟩

theorem newAttach (sound : s.Sound) (formed : s.Formed) (fresh : c ∉ s.containers) {ref : Option Object}
    (known : ∀ o ∈ ref, o ∈ s.objects) :
    (SoundAfter ((s.newContainer c none).attach c ref) ↔ ∀ o ∈ ref, Fits (s.refs o)) ∧
      FormedAfter ((s.newContainer c none).attach c ref) := by
  have holders := newHolders fresh none
  have sound' : (s.newContainer c none).Sound := holders.sound rfl rfl rfl rfl sound
  constructor
  · rw [attachSound sound' (Finset.mem_insert_self ..) (Function.update_self ..) ref]
    refine forall_congr' (fun o => forall_congr' (fun own => ?_))
    rw [holders.refs o]
    exact and_iff_right (known o own)
  · exact fun s' attached => attachFormed (newRootFormed formed fresh) (fun o own => formed.created (known o own)) attached

theorem Dropped.attachFormed (dropped : Dropped base c s) (formed : base.Formed) {ref : Option Object}
    (known : ∀ o ∈ ref, o ∈ base.objects) : FormedAfter (if c ∈ s.containers then s.attach c ref else none) := by
  intro s' attached
  split at attached
  · refine Heap.attachFormed dropped.formed (fun o own => ?_) attached
    rw [dropped.created]
    exact formed.created (known o own)
  · cases attached

theorem unchanged (sound : s.Sound) (formed : s.Formed) {ok : Prop} (safe : ok) :
    (SoundAfter (some s) ↔ ok) ∧ FormedAfter (some s) :=
  ⟨iff_of_true sound safe,fun _ same => Option.some.inj same ▸ formed⟩

theorem stepExact (sound : s.Sound) (formed : s.Formed) (event : RefEvent) :
    (SoundAfter (step (some s) event) ↔ Safe (some s) event) ∧ FormedAfter (step (some s) event) := by
  cases event with
  | newObject o members =>
    unfold step
    dsimp only
    split
    · rename_i new
      obtain ⟨fresh,nodup,unused⟩ := new
      exact unchanged (newObjectSound sound formed fresh unused) (newObjectFormed formed fresh nodup unused) trivial
    · exact unchanged sound formed trivial
  | construct c ref =>
    unfold step Safe
    dsimp only
    split
    · rename_i new
      obtain ⟨fresh,known⟩ := new
      obtain ⟨exact,kept⟩ := newAttach sound formed fresh known
      refine ⟨exact.trans ⟨fun fits _ o own _ => fits o own,fun fits o own => fits fresh o own (known o own)⟩,kept⟩
    · rename_i old
      refine unchanged sound formed (fun fresh o own object => absurd ⟨fresh,fun o' own' => ?_⟩ old)
      cases own.symm.trans own'
      exact object
  | copy c rc =>
    unfold step Safe
    dsimp only
    split
    · rename_i new
      obtain ⟨fresh,mem⟩ := new
      obtain ⟨exact,kept⟩ := newAttach sound formed fresh (fun o own => sound.refers rc mem o own)
      exact ⟨exact.trans ⟨fun fits _ _ o own => fits o own,fun fits o own => fits fresh mem o own⟩,kept⟩
    · rename_i old
      exact unchanged sound formed (fun fresh mem => absurd ⟨fresh,mem⟩ old)
  | assign c other =>
    unfold step Safe
    dsimp only
    split
    · rename_i both
      obtain ⟨mem,alive⟩ := both
      have known : ∀ o ∈ s.m_ref other, o ∈ s.objects := fun o own => sound.refers other alive o own
      obtain ⟨s',drops,dropped⟩ := dropExists sound formed mem
      have survives : s.Survives c other ↔ other ∈ s'.containers := by
        rw [dropped.containers]
        exact (and_iff_right alive).symm
      rw [assignDropped sound mem drops dropped other,survives]
      by_cases stays : other ∈ s'.containers
      · rw [if_pos stays,dropped.attach mem known]
        exact ⟨⟨fun apart _ _ => ⟨stays,apart⟩,fun safe => (safe mem alive).2⟩,dropped.attachFormed formed known⟩
      · rw [if_neg stays]
        exact ⟨iff_of_false id (fun safe => stays (safe mem alive).1),fun _ none => nomatch none⟩
    · rename_i gone
      exact unchanged sound formed (fun mem alive => absurd ⟨mem,alive⟩ gone)
  | assignRef c ref =>
    unfold step Safe
    dsimp only
    split
    · rename_i both
      obtain ⟨mem,known⟩ := both
      obtain ⟨s',drops,dropped⟩ := dropExists sound formed mem
      rw [assignRefDropped sound mem drops,dropped.attach mem known]
      exact ⟨⟨fun apart _ _ => apart,fun safe => safe mem known⟩,dropped.attachFormed formed known⟩
    · rename_i gone
      exact unchanged sound formed (fun mem known => absurd ⟨mem,known⟩ gone)
  | destroy c =>
    unfold step
    dsimp only
    split
    · rename_i both
      obtain ⟨mem,root⟩ := both
      obtain ⟨s',run,sound',formed'⟩ := destroyRoot sound formed mem root
      rw [run]
      exact unchanged sound' formed' trivial
    · exact unchanged sound formed trivial

theorem constructSound : construct.Sound :=
  ⟨fun _ mem => (nomatch mem),fun _ mem => (nomatch mem),fun _ mem => (nomatch mem)⟩

theorem constructFormed : construct.Formed :=
  ⟨fun _ mem => (nomatch mem),fun _ mem => (nomatch mem),fun _ mem => (nomatch mem),Finset.Subset.refl _,Finset.Subset.refl _,
    fun _ mem => (nomatch mem)⟩

theorem containersExact (events : List RefEvent) :
    Throughout step SoundAfter (some construct) events ↔ Along step Safe (some construct) events := by
  refine throughoutIffAlongKept FormedAfter SoundAfter (fun state event formed sound _ => ?_) (fun state event formed sound => ?_)
    (fun _ same => Option.some.inj same ▸ constructFormed) constructSound
  · cases state with
    | none => exact sound.elim
    | some s => exact (stepExact sound (formed s rfl) event).2
  · cases state with
    | none => exact sound.elim
    | some s => exact (stepExact sound (formed s rfl) event).1

theorem selfAssigned : ¬Throughout step SoundAfter (some construct) [.newObject 0 [],.construct 0 (some 0),.assign 0 0] := by
  intro all
  have last := throughoutLast all
  have freed : run step (some construct) [.newObject 0 [],.construct 0 (some 0),.assign 0 0] = none := by
    simp +decide [run,step,newObject,newContainer,attach,AddRef,fetchAdd,setRef,assign,releaseOld,Release,destructors,destroyAll,
      freeObject,construct]
  rw [freed] at last
  exact last

end Citizen.Core.Heap
