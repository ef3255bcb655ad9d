import Citizen.Resources.ServerResourceList

/-! What a second scan of the same file system does. -/
namespace Citizen.Resources.ServerResourceList

def found (disk : Disk) (root : Root) : List (List Text × List Node) → List (Text × ResPath)
  | [] => []
  | (_,[]) :: pathsToIterate => found disk root pathsToIterate
  | (thisPath,.file _ :: nodes) :: pathsToIterate => found disk root ((thisPath,nodes) :: pathsToIterate)
  | (thisPath,.directory name inside :: nodes) :: pathsToIterate =>
    if skipped disk root name then found disk root ((thisPath,nodes) :: pathsToIterate)
    else if isCategory name then found disk root ((thisPath,nodes) :: pathsToIterate ++ [(thisPath ++ [name],inside)])
    else (name,⟨root,thisPath ++ [name]⟩) :: found disk root ((thisPath,nodes) :: pathsToIterate)
termination_by pathsToIterate => (pathsToIterate.map (fun listing => sizeOf listing.2)).sum
decreasing_by all_goals (simp; try omega)

def foundIn (disk : Disk) (root : Root) : List (Text × ResPath) := found disk root [([],disk.nodes root)]

def firstPath (entries : List (Text × ResPath)) (name : Text) : Option ResPath :=
  (entries.find? (fun entry => entry.1 = name && !ignored name)).map Prod.snd

def Plain (url : Url) (disk : Disk) : Prop := ∀ root, ∀ entry ∈ foundIn disk root, url.fragment entry.1 = entry.1

def Apart (disk : Disk) (name : Text) : Prop := ∃ root, firstPath (foundIn disk root) name = none

def UnderCategory (path : ResPath) (category : Text) : Prop :=
  isCategory category = true ∧ ∃ above inside, path.below = above ++ category :: inside ∧ inside ≠ []

def Effect.name : Effect → Text
  | .unmounted name => name
  | .stopped name => name
  | .removed name => name
  | .reloaded name _ => name
  | .added name _ => name
  | .failed name _ => name
  | .duplicate_resource name _ _ => name

structure Kept (list : ServerResourceList) : Prop where
  scanned : ∀ name, list.m_resources name ≠ none →
    ∃ path, list.m_scanData name = some path ∧ isCategory name = false ∧ ∃ above, path.below = above ++ [name]
  components : ∀ name category, name ∈ list.m_resourcesByComponent category ↔
    ∃ path, list.m_resources name ≠ none ∧ list.m_scanData name = some path ∧ category ∈ path.below ∧ isCategory category = true

def SettledAt (url : Url) (disk : Disk) (list : ServerResourceList) (name : Text) (path : ResPath) : Prop :=
  list.m_scanData name = some path ∧ (list.m_resources name = none → disk.loads (url.pathname path) = false)

def Quiet (disk : Disk) (list : ServerResourceList) : Effect → Prop
  | .reloaded name path => list.m_resources name ≠ none ∧ list.m_scanData name = some path
  | .failed name path => list.m_resources name = none ∧ disk.loads path = false
  | .duplicate_resource _ _ _ => True
  | _ => False

def Same (list list' : ServerResourceList) (name : Text) : Prop :=
  list'.m_resources name = list.m_resources name ∧ list'.m_scanData name = list.m_scanData name

def afterScans (url : Url) (history : List Disk) : ServerResourceList :=
  history.foldl (fun list disk => (list.scanRoots url disk).1) Create

def scanEntries (url : Url) (disk : Disk) (entries : List (Text × ResPath)) (scan : Scan) : Scan :=
  entries.foldl (fun scan entry => scanResource url disk scan entry.1 entry.2) scan

variable {url : Url} {disk : Disk} {list list' : ServerResourceList} {scan scan' : Scan} {name other : Text} {path : ResPath}

theorem scanLoopEntries (url : Url) (disk : Disk) (root : Root) (pathsToIterate : List (List Text × List Node)) (scan : Scan) :
    scanLoop url disk root pathsToIterate scan = scanEntries url disk (found disk root pathsToIterate) scan := by
  fun_induction scanLoop with
  | case1 scan => rw [found]; rfl
  | case2 thisPath rest scan ih => rw [found,ih]
  | case3 scan thisPath file nodes rest ih => rw [found,ih]
  | case4 scan thisPath name inside nodes rest skips ih => rw [found,if_pos skips,ih]
  | case5 scan thisPath name inside nodes rest keeps category ih => rw [found,if_neg keeps,if_pos category,ih]
  | case6 scan thisPath name inside nodes rest keeps resource ih => rw [found,if_neg keeps,if_neg resource,ih]; rfl

theorem foundNamed {root : Root} {pathsToIterate : List (List Text × List Node)} {entry : Text × ResPath}
    (mem : entry ∈ found disk root pathsToIterate) : isCategory entry.1 = false ∧ ∃ above, entry.2.below = above ++ [entry.1] := by
  fun_induction found disk root pathsToIterate with
  | case1 => cases mem
  | case2 thisPath rest ih => exact ih mem
  | case3 thisPath file nodes rest ih => exact ih mem
  | case4 thisPath name inside nodes rest skips ih => exact ih mem
  | case5 thisPath name inside nodes rest keeps category ih => exact ih mem
  | case6 thisPath name inside nodes rest keeps resource ih =>
    rcases List.mem_cons.mp mem with rfl | mem
    · exact ⟨Bool.not_eq_true _ ▸ resource,thisPath,rfl⟩
    · exact ih mem

def recorded (list : ServerResourceList) (name : Text) (path : ResPath) : ServerResourceList :=
  { list with m_scanData := Function.update list.m_scanData name (some path) }

inductive Scanned (url : Url) (disk : Disk) (scan : Scan) (name : Text) (path : ResPath) : Scan → Prop where
  | passed (effects) (known : scan.scannedNow name ≠ none ∨ ignored name = true)
      (only : ∀ effect ∈ effects, ∃ scanned, effect = .duplicate_resource name path scanned) :
      Scanned url disk scan name path { scan with effects := scan.effects ++ effects }
  | reloaded (fresh : scan.scannedNow name = none) (plain : ignored name = false) (there : scan.list.m_resources name ≠ none)
      (unmoved : ∀ scanned, scan.list.m_scanData name = some scanned → scanned = path) :
      Scanned url disk scan name path
        ⟨scan.list,Function.update scan.scannedNow name (some path),scan.effects ++ [.reloaded name path]⟩
  | added (fresh : scan.scannedNow name = none) (plain : ignored name = false) (absent : scan.list.m_resources name = none) :
      Scanned url disk scan name path
        ⟨((scan.list.recorded name path).AddResource url disk name path).1,Function.update scan.scannedNow name (some path),
          scan.effects ++ [((scan.list.recorded name path).AddResource url disk name path).2]⟩
  | moved (scanned) (fresh : scan.scannedNow name = none) (plain : ignored name = false)
      (before : scan.list.m_scanData name = some scanned) (away : scanned ≠ path) :
      Scanned url disk scan name path
        ⟨(((scan.list.unload name).recorded name path).AddResource url disk name path).1,
          Function.update scan.scannedNow name (some path),
          scan.effects ++ [.unmounted name,.stopped name,.removed name] ++
            [(((scan.list.unload name).recorded name path).AddResource url disk name path).2]⟩

theorem scanResourceScanned (url : Url) (disk : Disk) (scan : Scan) (name : Text) (path : ResPath) :
    Scanned url disk scan name path (scanResource url disk scan name path) := by
  unfold scanResource
  cases fresh : scan.scannedNow name with
  | some scanned => exact .passed _ (.inl (by simp [fresh])) (by simp)
  | none =>
    cases plain : ignored name with
    | true =>
      have passed : Scanned url disk scan name path { scan with effects := scan.effects ++ [] } :=
        .passed [] (.inr plain) (by simp)
      rwa [List.append_nil] at passed
    | false =>
      cases there : scan.list.m_resources name with
      | none =>
        simpa [there,recorded] using (.added fresh plain there : Scanned url disk scan name path _)
      | some loaded =>
        cases before : scan.list.m_scanData name with
        | none =>
          have reloaded : Scanned url disk scan name path _ := .reloaded fresh plain (by simp [there]) (by simp [before])
          simpa [there,before] using reloaded
        | some scanned =>
          by_cases away : scanned = path
          · have reloaded : Scanned url disk scan name path _ := .reloaded fresh plain (by simp [there]) (by simp [before,away])
            simpa [there,before,away] using reloaded
          · simpa [there,before,away,recorded] using (.moved scanned fresh plain before away : Scanned url disk scan name path _)

theorem Kept.unload (kept : Kept list) (name : Text) : Kept (list.unload name) where
  scanned other there := by
    have same : other ≠ name := by
      rintro rfl
      simp [ServerResourceList.unload] at there
    simp only [ServerResourceList.unload,Function.update_of_ne same] at there ⊢
    exact kept.scanned other there
  components other category := by
    by_cases same : other = name
    · subst same
      simp [ServerResourceList.unload]
    · simp only [ServerResourceList.unload,Finset.mem_erase,Function.update_of_ne same]
      exact (and_iff_right same).trans (kept.components other category)

theorem addScanData (url : Url) (disk : Disk) (list : ServerResourceList) (name : Text) (path : ResPath) :
    (list.AddResource url disk name path).1.m_scanData = list.m_scanData := by
  unfold AddResource
  dsimp only
  split <;> rfl

theorem addResources (plain : url.fragment name = name) :
    (list.AddResource url disk name path).1.m_resources =
      Function.update list.m_resources name (if disk.loads (url.pathname path) then some (url.pathname path) else none) := by
  unfold AddResource
  rw [plain]
  dsimp only
  split <;> rfl

theorem addListed (plain : url.fragment name = name) (category : Text) :
    other ∈ (list.AddResource url disk name path).1.m_resourcesByComponent category ↔
      (disk.loads (url.pathname path) = true ∧ other = name ∧ category ∈ path.below ∧ isCategory category = true) ∨
        other ∈ list.m_resourcesByComponent category := by
  unfold AddResource
  rw [plain]
  dsimp only
  split
  next loads =>
    dsimp only
    split
    next listed => simp [loads,List.mem_filter.mp (List.contains_iff_mem.mp listed)]
    next unlisted =>
      rw [List.contains_iff_mem,List.mem_filter] at unlisted
      simp [unlisted]
  next fails => simp [fails]

theorem addEffect (plain : url.fragment name = name) :
    (list.AddResource url disk name path).2 =
      if disk.loads (url.pathname path) then .added name (url.pathname path) else .failed name (url.pathname path) := by
  unfold AddResource
  rw [plain]
  dsimp only
  split <;> rfl

theorem Kept.added (kept : Kept list) (plain : url.fragment name = name) (absent : list.m_resources name = none)
    (named : isCategory name = false ∧ ∃ above, path.below = above ++ [name]) :
    Kept ((list.recorded name path).AddResource url disk name path).1 where
  scanned other there := by
    simp only [addResources plain,addScanData,recorded] at there ⊢
    by_cases same : other = name
    · subst same
      exact ⟨path,Function.update_self ..,named⟩
    · rw [Function.update_of_ne same] at there ⊢
      exact kept.scanned other there
  components other category := by
    simp only [addListed plain,addResources plain,addScanData,recorded]
    by_cases same : other = name
    · subst same
      have unlisted : other ∉ list.m_resourcesByComponent category := by
        rw [kept.components,absent]
        simp
      simp [unlisted]
    · rw [Function.update_of_ne same,Function.update_of_ne same,← kept.components]
      simp [same]

theorem Same.trans {list'' : ServerResourceList} (first : Same list list' name) (second : Same list' list'' name) :
    Same list list'' name := ⟨second.1.trans first.1,second.2.trans first.2⟩

theorem SettledAt.same (settled : SettledAt url disk list name path) (same : Same list list' name) :
    SettledAt url disk list' name path := by
  unfold SettledAt
  rw [same.1,same.2]
  exact settled

theorem Quiet.same {effect : Effect} (quiet : Quiet disk list' effect) (same : Same list list' effect.name) :
    Quiet disk list effect := by
  cases effect with
  | reloaded name path => exact ⟨same.1 ▸ quiet.1,same.2 ▸ quiet.2⟩
  | failed name path => exact ⟨same.1 ▸ quiet.1,quiet.2⟩
  | duplicate_resource name path scanned => trivial
  | unmounted name => exact quiet
  | stopped name => exact quiet
  | removed name => exact quiet
  | added name path => exact quiet

section
variable (step : Scanned url disk scan name path scan')
include step

theorem Scanned.kept (plain : url.fragment name = name)
    (named : isCategory name = false ∧ ∃ above, path.below = above ++ [name]) (kept : Kept scan.list) : Kept scan'.list := by
  cases step with
  | passed effects known only => exact kept
  | reloaded fresh shown there unmoved => exact kept
  | added fresh shown absent => exact kept.added plain absent named
  | moved scanned fresh shown before away =>
    exact (kept.unload name).added plain (by simp [ServerResourceList.unload]) named

theorem Scanned.elsewhere (plain : url.fragment name = name) (away : other ≠ name) :
    Same scan.list scan'.list other ∧ scan'.scannedNow other = scan.scannedNow other := by
  cases step with
  | passed effects known only => exact ⟨⟨rfl,rfl⟩,rfl⟩
  | reloaded fresh shown there unmoved => exact ⟨⟨rfl,rfl⟩,Function.update_of_ne away ..⟩
  | added fresh shown absent =>
    refine ⟨⟨?_,?_⟩,Function.update_of_ne away ..⟩
    · rw [addResources plain,Function.update_of_ne away]
      rfl
    · rw [addScanData]
      exact Function.update_of_ne away ..
  | moved scanned fresh shown before moved =>
    refine ⟨⟨?_,?_⟩,Function.update_of_ne away ..⟩
    · rw [addResources plain,Function.update_of_ne away]
      exact Function.update_of_ne away ..
    · rw [addScanData]
      exact Function.update_of_ne away ..

theorem Scanned.known (known : scan.scannedNow name ≠ none ∨ ignored name = true) :
    scan'.list = scan.list ∧ scan'.scannedNow = scan.scannedNow := by
  cases step with
  | passed effects known only => exact ⟨rfl,rfl⟩
  | reloaded fresh shown there unmoved => simp [fresh,shown] at known
  | added fresh shown absent => simp [fresh,shown] at known
  | moved scanned fresh shown before away => simp [fresh,shown] at known

theorem Scanned.fresh (fresh : scan'.scannedNow name = none) : scan.scannedNow name = none ∧ ignored name = true := by
  cases step with
  | passed effects known only => exact ⟨fresh,known.resolve_left (not_not.mpr fresh)⟩
  | reloaded _ shown there unmoved => simp at fresh
  | added _ shown absent => simp at fresh
  | moved scanned _ shown before away => simp at fresh

theorem Scanned.settled (plain : url.fragment name = name) (kept : Kept scan.list)
    (fresh : scan.scannedNow name = none) (shown : ignored name = false) :
    SettledAt url disk scan'.list name path ∧ scan'.scannedNow name ≠ none := by
  cases step with
  | passed effects known only => simp [fresh,shown] at known
  | reloaded fresh shown there unmoved =>
    obtain ⟨scanned,before,_⟩ := kept.scanned name there
    exact ⟨⟨unmoved scanned before ▸ before,fun absent => absurd absent there⟩,by simp⟩
  | added fresh shown absent =>
    refine ⟨⟨?_,?_⟩,by simp⟩
    · rw [addScanData]
      exact Function.update_self ..
    · rw [addResources plain,Function.update_self]
      simp
  | moved scanned fresh shown before away =>
    refine ⟨⟨?_,?_⟩,by simp⟩
    · rw [addScanData]
      exact Function.update_self ..
    · rw [addResources plain,Function.update_self]
      simp

theorem Scanned.effectNames (plain : url.fragment name = name) {effect : Effect}
    (mem : effect ∈ scan'.effects) : effect ∈ scan.effects ∨ effect.name = name := by
  have added (list : ServerResourceList) : (list.AddResource url disk name path).2.name = name := by
    rw [addEffect plain]
    split <;> rfl
  cases step with
  | passed effects known only =>
    refine (List.mem_append.mp mem).imp_right fun mem => ?_
    obtain ⟨scanned,rfl⟩ := only effect mem
    rfl
  | reloaded fresh shown there unmoved =>
    refine (List.mem_append.mp mem).imp_right fun mem => ?_
    rw [List.mem_singleton.mp mem]
    rfl
  | added fresh shown absent =>
    refine (List.mem_append.mp mem).imp_right fun mem => ?_
    rw [List.mem_singleton.mp mem]
    exact added _
  | moved scanned fresh shown before away =>
    rw [List.append_assoc] at mem
    refine (List.mem_append.mp mem).imp_right fun mem => ?_
    simp only [List.cons_append,List.nil_append,List.mem_cons,List.not_mem_nil,or_false] at mem
    rcases mem with rfl | rfl | rfl | rfl
    · rfl
    · rfl
    · rfl
    · exact added _

theorem Scanned.quiet (plain : url.fragment name = name)
    (settled : scan.scannedNow name = none → ignored name = false → SettledAt url disk scan.list name path) :
    Same scan.list scan'.list name ∧ ∀ effect ∈ scan'.effects, effect ∈ scan.effects ∨ Quiet disk scan.list effect := by
  cases step with
  | passed effects known only =>
    refine ⟨⟨rfl,rfl⟩,fun effect mem => (List.mem_append.mp mem).imp_right fun mem => ?_⟩
    obtain ⟨scanned,rfl⟩ := only effect mem
    trivial
  | reloaded fresh shown there unmoved =>
    refine ⟨⟨rfl,rfl⟩,fun effect mem => (List.mem_append.mp mem).imp_right fun mem => ?_⟩
    rw [List.mem_singleton.mp mem]
    exact ⟨there,(settled fresh shown).1⟩
  | added fresh shown absent =>
    have before := settled fresh shown
    have fails := before.2 absent
    refine ⟨⟨?_,?_⟩,fun effect mem => (List.mem_append.mp mem).imp_right fun mem => ?_⟩
    · rw [addResources plain,fails,Function.update_self,absent]
      rfl
    · rw [addScanData,before.1]
      exact Function.update_self ..
    · rw [List.mem_singleton.mp mem,addEffect plain,fails]
      exact ⟨absent,fails⟩
  | moved scanned fresh shown before away =>
    have same := (settled fresh shown).1
    rw [before] at same
    exact absurd (Option.some.inj same) away

end

theorem Scanned.leaves (step : Scanned url disk scan other path scan') (plain : url.fragment other = other)
    (settled : scan.scannedNow name = none → other = name → ignored name = false → SettledAt url disk scan.list name path) :
    Same scan.list scan'.list name ∧
      (∀ effect ∈ scan'.effects, effect.name = name → effect ∈ scan.effects ∨ Quiet disk scan.list effect) ∧
      (scan'.scannedNow name = none → scan.scannedNow name = none ∧ ¬(other = name ∧ ignored name = false)) := by
  by_cases same : other = name
  · subst same
    have here := step.quiet plain (fun fresh shown => settled fresh rfl shown)
    refine ⟨here.1,fun effect mem _ => here.2 effect mem,fun fresh => ⟨(step.fresh fresh).1,fun shown => ?_⟩⟩
    simp [(step.fresh fresh).2] at shown
  · obtain ⟨before,now⟩ := step.elsewhere plain (Ne.symm same)
    refine ⟨before,fun effect mem named => .inl ?_,fun fresh => ⟨now ▸ fresh,fun here => same here.1⟩⟩
    exact (step.effectNames plain mem).resolve_right fun away => same (away.symm.trans named)

def Regular (url : Url) (entries : List (Text × ResPath)) : Prop :=
  ∀ entry ∈ entries, url.fragment entry.1 = entry.1 ∧ isCategory entry.1 = false ∧ ∃ above, entry.2.below = above ++ [entry.1]

variable {entry : Text × ResPath} {entries : List (Text × ResPath)}

theorem Plain.regular (plain : Plain url disk) (root : Root) : Regular url (foundIn disk root) :=
  fun entry mem => ⟨plain root entry mem,foundNamed mem⟩

theorem firstPathCons (entry : Text × ResPath) (entries : List (Text × ResPath)) (name : Text) :
    firstPath (entry :: entries) name =
      if entry.1 = name ∧ ignored name = false then some entry.2 else firstPath entries name := by
  unfold firstPath
  rw [List.find?_cons]
  by_cases same : entry.1 = name <;> cases hidden : ignored name <;> simp [same]

theorem keptEntries (scan : Scan) (regular : Regular url entries) (kept : Kept scan.list) : Kept (scanEntries url disk entries scan).list := by
  induction entries generalizing scan with
  | nil => exact kept
  | cons entry entries ih =>
    obtain ⟨⟨plain,named⟩,regular⟩ := List.forall_mem_cons.mp regular
    exact ih _ regular ((scanResourceScanned url disk scan entry.1 entry.2).kept plain named kept)

theorem elsewhereEntries (scan : Scan) (regular : Regular url entries)
    (passed : scan.scannedNow name ≠ none ∨ firstPath entries name = none) :
    Same scan.list (scanEntries url disk entries scan).list name := by
  induction entries generalizing scan with
  | nil => exact ⟨rfl,rfl⟩
  | cons entry entries ih =>
    obtain ⟨⟨plain,_⟩,regular⟩ := List.forall_mem_cons.mp regular
    have step := scanResourceScanned url disk scan entry.1 entry.2
    rw [firstPathCons] at passed
    by_cases same : entry.1 = name
    · subst same
      have known : scan.scannedNow entry.1 ≠ none ∨ ignored entry.1 = true := by
        refine passed.imp_right fun absent => ?_
        by_contra shown
        simp [Bool.not_eq_true _ ▸ shown] at absent
      have still := step.known known
      have rest := ih (scanResource url disk scan entry.1 entry.2) regular (by
        rw [still.2]
        refine passed.imp_right fun absent => ?_
        split at absent
        · cases absent
        · exact absent)
      rw [still.1] at rest
      exact rest
    · obtain ⟨before,now⟩ := step.elsewhere plain (Ne.symm same)
      refine before.trans (ih _ regular ?_)
      rw [now]
      simpa [same] using passed

theorem settledEntries (scan : Scan) (regular : Regular url entries) (kept : Kept scan.list) (fresh : scan.scannedNow name = none)
    (first : firstPath entries name = some path) : SettledAt url disk (scanEntries url disk entries scan).list name path := by
  induction entries generalizing scan with
  | nil => cases first
  | cons entry entries ih =>
    obtain ⟨⟨plain,named⟩,regular⟩ := List.forall_mem_cons.mp regular
    have step := scanResourceScanned url disk scan entry.1 entry.2
    rw [firstPathCons] at first
    by_cases here : entry.1 = name ∧ ignored name = false
    · rw [if_pos here,Option.some.injEq] at first
      obtain ⟨rfl,shown⟩ := here
      subst first
      obtain ⟨settled,known⟩ := step.settled plain kept fresh shown
      exact settled.same (elsewhereEntries _ regular (.inl known))
    · rw [if_neg here] at first
      refine ih _ regular (step.kept plain named kept) ?_ first
      by_cases same : entry.1 = name
      · subst same
        rw [(step.known (.inr (by simpa using here))).2]
        exact fresh
      · rw [(step.elsewhere plain (Ne.symm same)).2]
        exact fresh

theorem quietEntries (scan : Scan) (regular : Regular url entries)
    (settled : scan.scannedNow name = none → ∀ path, firstPath entries name = some path → SettledAt url disk scan.list name path) :
    Same scan.list (scanEntries url disk entries scan).list name ∧
      ∀ effect ∈ (scanEntries url disk entries scan).effects, effect.name = name →
        effect ∈ scan.effects ∨ Quiet disk scan.list effect := by
  induction entries generalizing scan with
  | nil => exact ⟨⟨rfl,rfl⟩,fun effect mem _ => .inl mem⟩
  | cons entry entries ih =>
    obtain ⟨⟨plain,_⟩,regular⟩ := List.forall_mem_cons.mp regular
    have step := scanResourceScanned url disk scan entry.1 entry.2
    simp only [firstPathCons] at settled
    obtain ⟨before,acts,later⟩ := step.leaves plain fun fresh here shown => settled fresh entry.2 (by simp [here,shown])
    obtain ⟨rest,acted⟩ := ih (scanResource url disk scan entry.1 entry.2) regular (fun fresh path first => by
      obtain ⟨earlier,here⟩ := later fresh
      exact (settled earlier path (by rw [if_neg here,first])).same before)
    refine ⟨before.trans rest,fun effect mem named => ?_⟩
    rcases acted effect mem named with earlier | quiet
    · exact acts effect earlier named
    · exact .inr (quiet.same (named ▸ before))

theorem scanResources (url : Url) (disk : Disk) (list : ServerResourceList) (root : Root) :
    list.ScanResources url disk root = ((scanEntries url disk (foundIn disk root) ⟨list,fun _ => none,[]⟩).list,
        (scanEntries url disk (foundIn disk root) ⟨list,fun _ => none,[]⟩).effects) := by
  unfold ScanResources
  rw [scanLoopEntries]
  rfl

theorem Kept.scanResources (kept : Kept list) (plain : Plain url disk) (root : Root) : Kept (list.ScanResources url disk root).1 := by
  rw [ServerResourceList.scanResources]
  exact keptEntries ⟨list,fun _ => none,[]⟩ (plain.regular root) kept

theorem Kept.scanRoots (kept : Kept list) (plain : Plain url disk) : Kept (list.scanRoots url disk).1 :=
  (kept.scanResources plain .resources).scanResources plain .system_resources

theorem createKept : Kept Create where
  scanned name there := absurd rfl there
  components name category := by simp [Create]

theorem afterScansKept {history : List Disk} (plain : ∀ disk ∈ history, Plain url disk) : Kept (afterScans url history) := by
  unfold afterScans
  induction history using List.reverseRecOn with
  | nil => exact createKept
  | append_singleton history disk ih =>
    rw [List.foldl_append]
    exact (ih fun earlier mem => plain earlier (by simp [mem])).scanRoots (plain disk (by simp))

theorem settledRoots (plain : Plain url disk) (kept : Kept list) (apart : Apart disk name) {root : Root}
    (first : firstPath (foundIn disk root) name = some path) :
    SettledAt url disk (list.scanRoots url disk).1 name path := by
  have one := kept.scanResources plain .resources
  simp only [scanRoots,scanResources] at one ⊢
  obtain ⟨empty,absent⟩ := apart
  cases root with
  | resources =>
    cases empty with
    | resources => simp [absent] at first
    | system_resources =>
      exact (settledEntries ⟨list,fun _ => none,[]⟩ (plain.regular _) kept rfl first).same
        (elsewhereEntries ⟨_,fun _ => none,[]⟩ (plain.regular _) (.inr absent))
  | system_resources => exact settledEntries ⟨_,fun _ => none,[]⟩ (plain.regular _) one rfl first

theorem quietRoots (plain : Plain url disk)
    (settled : ∀ root path, firstPath (foundIn disk root) name = some path → SettledAt url disk list name path) :
    Same list (list.scanRoots url disk).1 name ∧
      ∀ effect ∈ (list.scanRoots url disk).2, effect.name = name → Quiet disk list effect := by
  simp only [scanRoots,scanResources]
  obtain ⟨first,acts⟩ := quietEntries ⟨list,fun _ => none,[]⟩ (plain.regular .resources) (fun _ => settled .resources)
  obtain ⟨second,later⟩ := quietEntries ⟨_,fun _ => none,[]⟩ (plain.regular .system_resources)
    (fun _ path found => (settled .system_resources path found).same first)
  refine ⟨first.trans second,fun effect mem named => ?_⟩
  rcases List.mem_append.mp mem with mem | mem
  · exact (acts effect mem named).resolve_left List.not_mem_nil
  · exact ((later effect mem named).resolve_left List.not_mem_nil).same (named ▸ first)

theorem underCategory {category : Text} (named : isCategory name = false ∧ ∃ above, path.below = above ++ [name]) :
    UnderCategory path category ↔ category ∈ path.below ∧ isCategory category = true := by
  obtain ⟨plain,above,below⟩ := named
  constructor
  · rintro ⟨isCategory,before,inside,split,_⟩
    exact ⟨split ▸ by simp,isCategory⟩
  · rintro ⟨mem,isCategory⟩
    have mem : category ∈ above := by
      rw [below,List.mem_append,List.mem_singleton] at mem
      refine mem.resolve_right ?_
      rintro rfl
      rw [plain] at isCategory
      cases isCategory
    obtain ⟨before,inside,rfl⟩ := List.append_of_mem mem
    exact ⟨isCategory,before,inside ++ [name],by simp [below],by simp⟩

theorem Kept.underCategory (kept : Kept list) (category : Text) : name ∈ list.FindByPathComponent category ↔
    ∃ path, list.m_resources name ≠ none ∧ list.m_scanData name = some path ∧ UnderCategory path category := by
  unfold FindByPathComponent
  rw [kept.components]
  refine exists_congr fun path => and_congr_right fun there => and_congr_right fun scanned => ?_
  obtain ⟨path',scanned',named⟩ := kept.scanned name there
  cases scanned.symm.trans scanned'
  exact (ServerResourceList.underCategory named).symm

theorem Same.listed (same : Same list list' name) (kept : Kept list) (kept' : Kept list') (category : Text) :
    name ∈ list'.FindByPathComponent category ↔ name ∈ list.FindByPathComponent category := by
  rw [kept'.underCategory,kept.underCategory,same.1,same.2]

theorem afterScansAgain (url : Url) (history : List Disk) (disk : Disk) :
    afterScans url (history ++ [disk]) = ((afterScans url history).scanRoots url disk).1 := by
  simp [afterScans]

theorem rescanQuiet (url : Url) (history : List Disk) (disk : Disk) (plain : ∀ disk ∈ history ++ [disk], Plain url disk) :
    (∀ name, Apart disk name →
      Same (afterScans url (history ++ [disk])) (afterScans url (history ++ [disk] ++ [disk])) name ∧
      (∀ category, name ∈ (afterScans url (history ++ [disk] ++ [disk])).FindByPathComponent category ↔
        name ∈ (afterScans url (history ++ [disk])).FindByPathComponent category) ∧
      (∀ effect ∈ ((afterScans url (history ++ [disk])).scanRoots url disk).2, effect.name = name →
        Quiet disk (afterScans url (history ++ [disk])) effect) ∧
      ∀ root path, firstPath (foundIn disk root) name = some path →
        (afterScans url (history ++ [disk] ++ [disk])).m_scanData name = some path) ∧
    ∀ category name, name ∈ (afterScans url (history ++ [disk] ++ [disk])).FindByPathComponent category ↔
      ∃ path, (afterScans url (history ++ [disk] ++ [disk])).m_resources name ≠ none ∧
        (afterScans url (history ++ [disk] ++ [disk])).m_scanData name = some path ∧ UnderCategory path category := by
  have here : Plain url disk := plain disk (by simp)
  have before : Kept (afterScans url history) := afterScansKept fun earlier mem => plain earlier (by simp [mem])
  have first : Kept (afterScans url (history ++ [disk])) := afterScansAgain url history disk ▸ before.scanRoots here
  have second : Kept (afterScans url (history ++ [disk] ++ [disk])) :=
    afterScansAgain url (history ++ [disk]) disk ▸ first.scanRoots here
  refine ⟨fun name apart => ?_,fun category name => second.underCategory category⟩
  have settled (root path) (first : firstPath (foundIn disk root) name = some path) :
      SettledAt url disk (afterScans url (history ++ [disk])) name path :=
    afterScansAgain url history disk ▸ settledRoots here before apart first
  obtain ⟨same,quiet⟩ := quietRoots here settled
  rw [← afterScansAgain] at same
  exact ⟨same,same.listed first second,quiet,fun root path first => same.2.trans (settled root path first).1⟩

def plainUrl : Url := ⟨id,id⟩

def smallDisk : Disk where
  nodes
    | .resources => [.directory (text "[maps]") [.directory (text "town") [],.directory (text "broken") []]]
    | .system_resources => [.directory (text "chat") [],.directory (text "monitor") []]
  loads path := path.below.getLast? ≠ some (text "broken")
  resources_useSystemChat := false

theorem foundSmall (root : Root) : foundIn smallDisk root = match root with
    | .resources =>
      [(text "town",⟨.resources,[text "[maps]",text "town"]⟩),(text "broken",⟨.resources,[text "[maps]",text "broken"]⟩)]
    | .system_resources => [(text "monitor",⟨.system_resources,[text "monitor"]⟩)] := by
  cases root <;> simp +decide [foundIn,found,smallDisk]

theorem rescanQuietSmall :
    (∀ effect ∈ ((afterScans plainUrl [smallDisk]).scanRoots plainUrl smallDisk).2, effect.name = text "broken" →
      Quiet smallDisk (afterScans plainUrl [smallDisk]) effect) ∧
    (text "town" ∈ (afterScans plainUrl [smallDisk,smallDisk]).FindByPathComponent (text "[maps]") ↔
      ∃ path, (afterScans plainUrl [smallDisk,smallDisk]).m_resources (text "town") ≠ none ∧
        (afterScans plainUrl [smallDisk,smallDisk]).m_scanData (text "town") = some path ∧ UnderCategory path (text "[maps]")) := by
  have quiet := rescanQuiet plainUrl [] smallDisk (fun disk mem root entry _ => rfl)
  exact ⟨(quiet.1 (text "broken") ⟨.system_resources,by rw [foundSmall]; decide⟩).2.2.1,quiet.2 (text "[maps]") (text "town")⟩

def townIn (roots : List Root) : Disk where
  nodes root := if root ∈ roots then [.directory (text "town") []] else []
  loads _ := true
  resources_useSystemChat := false

theorem foundTown (roots : List Root) (root : Root) :
    foundIn (townIn roots) root = if root ∈ roots then [(text "town",⟨root,[text "town"]⟩)] else [] := by
  have kept (disk : Disk) : skipped disk root (text "town") = false := by simp +decide [skipped]
  by_cases mem : root ∈ roots <;> simp +decide [foundIn,found,townIn,mem,kept]

theorem rescanActs : ((afterScans plainUrl [townIn [.resources]]).scanRoots plainUrl (townIn [.resources])).2 =
      [.reloaded (text "town") ⟨.resources,[text "town"]⟩] ∧
    ((afterScans plainUrl [townIn [.resources,.system_resources]]).scanRoots plainUrl (townIn [.resources,.system_resources])).2 =
      [.unmounted (text "town"),.stopped (text "town"),.removed (text "town"),.added (text "town") ⟨.resources,[text "town"]⟩,
        .unmounted (text "town"),.stopped (text "town"),.removed (text "town"),
        .added (text "town") ⟨.system_resources,[text "town"]⟩] := by
  simp only [afterScans,List.foldl_cons,List.foldl_nil,scanRoots,scanResources,foundTown]
  decide

end Citizen.Resources.ServerResourceList
