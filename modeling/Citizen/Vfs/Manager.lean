import Citizen.Lib.CString
import Citizen.Lib.OrderedMap
import Citizen.Lib.Run
import Mathlib.Data.Prod.Lex

/-! `ManagerServer`: devices by mounted prefixes, and back from absolute paths to prefixes. -/
namespace Citizen.Vfs

attribute [local instance] byteOrder

structure MountPoint where
  path : Text
  deriving DecidableEq

namespace MountPoint

def key (m : MountPoint) : Lex (OrderDual Nat × Text) := toLex (OrderDual.toDual m.path.length,m.path)

theorem keyInjective : Function.Injective key := by
  rintro ⟨a⟩ ⟨b⟩ same
  exact congrArg MountPoint.mk (congrArg (fun k => (ofLex k).2) same)

/-- `MountPointComparator`: longer prefixes come first. -/
instance : LinearOrder MountPoint := LinearOrder.lift' key keyInjective

theorem leIff {a b : MountPoint} :
    a ≤ b ↔ b.path.length < a.path.length ∨ a.path.length = b.path.length ∧ a.path ≤ b.path := by
  have keys : a ≤ b ↔ a.key ≤ b.key := Iff.rfl
  rw [keys,Prod.Lex.le_iff]
  exact or_congr OrderDual.toDual_lt_toDual (and_congr_left' OrderDual.toDual_inj)

end MountPoint

def absolute (current path : Text) : Text :=
  if path.head? = some (byte '/') then path
  else if current.getLast? = some (byte '/') then current ++ path
  else current ++ byte '/' :: path

section
variable {device : Type} [DecidableEq device]

structure Devices (device : Type) where
  /-- `GetAbsolutePath`, which is empty for other devices. -/
  m_otherPrefix : device → Text
  opens : device → Text → Bool

structure ManagerServer (device : Type) where
  m_mounts : OrderedMap MountPoint (List device)
  m_pathPrefix : device → Text

inductive MountCall (device : Type) where
  | Mount (d : device) (path : Text)
  | Unmount (path : Text)

inductive FoundDevice (device : Type) where
  | memoryDevice
  | m_fallbackDevice
  | mounted (d : device)
  | null
  deriving DecidableEq

namespace ManagerServer

def start : ManagerServer device := ⟨.empty,fun _ => []⟩

def step (s : ManagerServer device) : MountCall device → ManagerServer device
  | .Mount d path =>
    { m_pathPrefix := Function.update s.m_pathPrefix d path
      m_mounts := s.m_mounts.insert ⟨path⟩ ((s.m_mounts.find ⟨path⟩).getD [] ++ [d]) }
  | .Unmount path => { s with m_mounts := s.m_mounts.erase ⟨path⟩ }

variable (known : Devices device)

def GetDevice (s : ManagerServer device) (path : Text) : FoundDevice device :=
  if strnicmp 7 path (text "memory:") then .memoryDevice
  else
    match s.m_mounts.entries.find? (fun mount => strncmp mount.1.path.length path mount.1.path) with
    | none => .m_fallbackDevice
    | some (_,[d]) => .mounted d
    | some (_,devices) => ((devices.find? (fun d => known.opens d path)).map .mounted).getD .null

def consider (current absoluteGenericString : Text) (best : Nat × Option (device × Text)) (mount : MountPoint × device) :
    Nat × Option (device × Text) :=
  if known.m_otherPrefix mount.2 = [] then best
  else
    let deviceAbsolutePath := absolute current (known.m_otherPrefix mount.2)
    if best.1 > deviceAbsolutePath.length then best
    else if deviceAbsolutePath.isPrefixOf absoluteGenericString then
      (deviceAbsolutePath.length,
        some (mount.2,mount.1.path ++ absoluteGenericString.drop deviceAbsolutePath.length))
    else best

def FindDevice (s : ManagerServer device) (current absolutePath : Text) : Option (device × Text) :=
  ((s.m_mounts.entries.flatMap (fun mount => mount.2.map (fun d => (mount.1,d)))).foldl
    (consider known current (absolute current absolutePath)) (0,none)).2

def TranslatePath (s : ManagerServer device) (d : device) (inPath : Text) : Option Text :=
  if (s.m_pathPrefix d).length ≤ inPath.length then
    some (known.m_otherPrefix d ++ inPath.drop (s.m_pathPrefix d).length)
  else none

end ManagerServer

def mountedStep (path : Text) (devices : List device) : MountCall device → List device
  | .Mount d other => if other = path then devices ++ [d] else devices
  | .Unmount other => if other = path then [] else devices

def mountedAt (path : Text) (calls : List (MountCall device)) : List device := calls.foldl (mountedStep path) []

def lastMountStep (d : device) (last : Text) : MountCall device → Text
  | .Mount other path => if other = d then path else last
  | .Unmount _ => last

def lastMount (d : device) (calls : List (MountCall device)) : Text := calls.foldl (lastMountStep d) []

def FirstPrefix (calls : List (MountCall device)) (path at_ : Text) : Prop :=
  mountedAt at_ calls ≠ [] ∧ strncmp at_.length path at_ = true ∧
    ∀ other, mountedAt other calls ≠ [] → strncmp other.length path other = true →
      other.length < at_.length ∨ at_.length = other.length ∧ at_ ≤ other

def RootOf (known : Devices device) (current path : Text) (d : device) : Prop :=
  known.m_otherPrefix d ≠ [] ∧ absolute current (known.m_otherPrefix d) <+: path

variable {known : Devices device} {calls : List (MountCall device)} {current path at_ : Text}

theorem mountsStep {s : ManagerServer device} {devices : List device}
    (same : (s.m_mounts.find ⟨path⟩).getD [] = devices ∧ s.m_mounts.find ⟨path⟩ ≠ some []) (call : MountCall device) :
    ((s.step call).m_mounts.find ⟨path⟩).getD [] = mountedStep path devices call ∧
      (s.step call).m_mounts.find ⟨path⟩ ≠ some [] := by
  cases call with
  | Mount d other =>
    dsimp only [ManagerServer.step,mountedStep]
    rw [OrderedMap.findInsert]
    by_cases own : other = path
    · subst own
      rw [if_pos rfl,if_pos rfl,same.1]
      simp
    · rw [if_neg (fun same => own (congrArg MountPoint.path same).symm),if_neg own]
      exact same
  | Unmount other =>
    dsimp only [ManagerServer.step,mountedStep]
    rw [OrderedMap.findErase]
    by_cases own : other = path
    · subst own
      rw [if_pos rfl,if_pos rfl]
      simp
    · rw [if_neg (fun same => own (congrArg MountPoint.path same).symm),if_neg own]
      exact same

theorem mountsAfter (path : Text) (calls : List (MountCall device)) :
    ((run ManagerServer.step .start calls).m_mounts.find ⟨path⟩).getD [] = mountedAt path calls ∧
      (run ManagerServer.step .start calls).m_mounts.find ⟨path⟩ ≠ some [] := by
  suffices step : ∀ (s : ManagerServer device) (devices : List device),
      ((s.m_mounts.find ⟨path⟩).getD [] = devices ∧ s.m_mounts.find ⟨path⟩ ≠ some []) →
      ((run ManagerServer.step s calls).m_mounts.find ⟨path⟩).getD [] = calls.foldl (mountedStep path) devices ∧
        (run ManagerServer.step s calls).m_mounts.find ⟨path⟩ ≠ some [] from step .start [] ⟨rfl,by simp [ManagerServer.start,OrderedMap.empty,OrderedMap.find]⟩
  induction calls with
  | nil => exact fun _ _ same => same
  | cons call rest ih => exact fun _ _ same => ih _ _ (mountsStep same call)

theorem pathPrefixAfter (d : device) (calls : List (MountCall device)) :
    (run ManagerServer.step .start calls).m_pathPrefix d = lastMount d calls := by
  suffices step : ∀ s : ManagerServer device, (run ManagerServer.step s calls).m_pathPrefix d =
      calls.foldl (lastMountStep d) (s.m_pathPrefix d) from step .start
  induction calls with
  | nil => exact fun _ => rfl
  | cons call rest ih =>
    intro s
    rw [runCons,ih,List.foldl_cons]
    congr 1
    cases call with
    | Mount other path =>
      dsimp only [ManagerServer.step,lastMountStep]
      by_cases own : other = d
      · subst own
        rw [Function.update_self,if_pos rfl]
      · rw [Function.update_of_ne (Ne.symm own),if_neg own]
    | Unmount path => rfl

variable {m : MountPoint}

theorem memMounted {devices : List device} :
    (m,devices) ∈ (run ManagerServer.step .start calls).m_mounts.entries ↔ mountedAt m.path calls = devices ∧ devices ≠ [] := by
  obtain ⟨listed,some_⟩ := mountsAfter m.path calls
  rw [← OrderedMap.findSome,← listed]
  cases found : (run ManagerServer.step .start calls).m_mounts.find m with
  | none => simp [eq_comm]
  | some held =>
    have nonempty : held ≠ [] := fun none_ => some_ (found.trans (congrArg some none_))
    simp only [Option.getD_some,Option.some.injEq]
    exact ⟨fun same => ⟨same,same ▸ nonempty⟩,And.left⟩

theorem mountedIff : (run ManagerServer.step .start calls).m_mounts.find m ≠ none ↔ mountedAt m.path calls ≠ [] := by
  rw [Option.ne_none_iff_exists']
  simp only [OrderedMap.findSome,memMounted]
  exact ⟨fun ⟨_,same,some_⟩ => same ▸ some_,fun some_ => ⟨_,rfl,some_⟩⟩

theorem firstPrefix : FirstPrefix calls path at_ ↔
    (run ManagerServer.step .start calls).m_mounts.entries.find? (fun mount => strncmp mount.1.path.length path mount.1.path) =
      some (⟨at_⟩,mountedAt at_ calls) := by
  rw [OrderedMap.firstLeast (p := fun m : MountPoint => strncmp m.path.length path m.path),OrderedMap.findSome,memMounted]
  unfold FirstPrefix
  constructor
  · rintro ⟨some_,fits,least⟩
    exact ⟨⟨rfl,some_⟩,fits,fun m there fits' => MountPoint.leIff.mpr (least m.path (mountedIff.mp there) fits')⟩
  · rintro ⟨⟨_,some_⟩,fits,least⟩
    exact ⟨some_,fits,fun other there fits' => MountPoint.leIff.mp (least ⟨other⟩ (mountedIff.mpr there) fits')⟩

theorem getDevice (plain : strnicmp 7 path (text "memory:") = false) (first : FirstPrefix calls path at_) :
    (∀ d, mountedAt at_ calls = [d] → (run ManagerServer.step .start calls).GetDevice known path = .mounted d) ∧
      ((mountedAt at_ calls).length ≠ 1 → (run ManagerServer.step .start calls).GetDevice known path =
        (((mountedAt at_ calls).find? (fun d => known.opens d path)).map .mounted).getD .null) := by
  have found := firstPrefix.mp first
  unfold ManagerServer.GetDevice
  rw [if_neg (by simp [plain]),found]
  constructor
  · intro d alone
    rw [alone]
  · intro several
    split
    · rename_i none_
      cases none_
    · rename_i d alone
      have one : mountedAt at_ calls = [d] := congrArg Prod.snd (Option.some.inj alone)
      rw [one] at several
      exact absurd rfl several
    · rename_i devices _ same
      cases same
      rfl

theorem getFallback (plain : strnicmp 7 path (text "memory:") = false)
    (none_ : ∀ other, mountedAt other calls ≠ [] → strncmp other.length path other = false) :
    (run ManagerServer.step .start calls).GetDevice known path = .m_fallbackDevice := by
  have absent : (run ManagerServer.step .start calls).m_mounts.entries.find?
      (fun mount => strncmp mount.1.path.length path mount.1.path) = none := by
    rw [List.find?_eq_none]
    rintro ⟨m,devices⟩ mem
    obtain ⟨rfl,some_⟩ := memMounted.mp mem
    simp [none_ m.path some_]
  unfold ManagerServer.GetDevice
  rw [if_neg (by simp [plain]),absent]

theorem absoluteAppend {root : Text} (some_ : root ≠ []) (current rest : Text) :
    absolute current (root ++ rest) = absolute current root ++ rest := by
  unfold absolute
  rw [List.head?_append_of_ne_nil root some_]
  split
  · rfl
  · split
    · exact (List.append_assoc ..).symm
    · rw [List.append_assoc,List.cons_append]

def Best (known : Devices device) (current path : Text) (seen : List (MountPoint × device))
    (best : Nat × Option (device × Text)) : Prop :=
  match best.2 with
  | none => best.1 = 0 ∧ ∀ mount ∈ seen, ¬RootOf known current path mount.2
  | some (d,transformed) => ∃ m, (m,d) ∈ seen ∧ RootOf known current path d ∧
      best.1 = (absolute current (known.m_otherPrefix d)).length ∧ transformed = m.path ++ path.drop best.1 ∧
      ∀ mount ∈ seen, RootOf known current path mount.2 →
        (absolute current (known.m_otherPrefix mount.2)).length ≤ best.1

omit [DecidableEq device] in
theorem considered {seen : List (MountPoint × device)} {best : Nat × Option (device × Text)}
    (before : Best known current path seen best) (mount : MountPoint × device) :
    Best known current path (seen ++ [mount]) (ManagerServer.consider known current path best mount) := by
  have kept (skipped : RootOf known current path mount.2 → best.2 ≠ none ∧
      (absolute current (known.m_otherPrefix mount.2)).length ≤ best.1) : Best known current path (seen ++ [mount]) best := by
    unfold Best at before ⊢
    split
    · rename_i none_
      rw [none_] at before
      refine ⟨before.1,List.forall_mem_append.mpr ⟨before.2,?_⟩⟩
      simpa using fun root => (skipped root).1 none_
    · rename_i d transformed found
      rw [found] at before
      obtain ⟨m,mem,root,length,isTransformed,most⟩ := before
      refine ⟨m,List.mem_append_left _ mem,root,length,isTransformed,List.forall_mem_append.mpr ⟨most,?_⟩⟩
      simpa using fun root => (skipped root).2
  unfold ManagerServer.consider
  split
  · rename_i empty
    exact kept (fun root => absurd empty root.1)
  · rename_i some_
    dsimp only
    split
    · rename_i longer
      refine kept (fun _ => ⟨fun none_ => ?_,le_of_lt longer⟩)
      unfold Best at before
      rw [none_] at before
      omega
    · rename_i enough
      split
      · rename_i starts
        have root : RootOf known current path mount.2 := ⟨some_,List.isPrefixOf_iff_prefix.mp starts⟩
        refine ⟨mount.1,List.mem_append_right _ List.mem_cons_self,root,rfl,rfl,
          List.forall_mem_append.mpr ⟨fun other mem root' => ?_,by simp⟩⟩
        unfold Best at before
        split at before
        · exact absurd root' (before.2 other mem)
        · obtain ⟨_,_,_,_,_,most⟩ := before
          exact (most other mem root').trans (not_lt.mp enough)
      · rename_i apart
        exact kept (fun root => absurd (List.isPrefixOf_iff_prefix.mpr root.2) apart)

omit [DecidableEq device] in
theorem consideredAll (known : Devices device) (current path : Text) (mounts : List (MountPoint × device)) :
    Best known current path mounts (mounts.foldl (ManagerServer.consider known current path) (0,none)) := by
  suffices rest : ∀ seen best, Best known current path seen best →
      Best known current path (seen ++ mounts) (mounts.foldl (ManagerServer.consider known current path) best) from
    rest [] (0,none) ⟨rfl,fun _ mem => absurd mem List.not_mem_nil⟩
  induction mounts with
  | nil =>
    intro seen best before
    rwa [List.append_nil]
  | cons mount mounts ih =>
    intro seen best before
    have next := ih _ _ (considered before mount)
    rwa [List.append_assoc] at next

theorem memDevices {d : device} :
    (m,d) ∈ (run ManagerServer.step .start calls).m_mounts.entries.flatMap (fun mount => mount.2.map (fun d => (mount.1,d))) ↔
      d ∈ mountedAt m.path calls := by
  rw [List.mem_flatMap]
  constructor
  · rintro ⟨⟨m',devices⟩,mem,inside⟩
    obtain ⟨d',mem',same⟩ := List.mem_map.mp inside
    cases same
    rw [(memMounted.mp mem).1]
    exact mem'
  · intro mem
    exact ⟨(m,mountedAt m.path calls),memMounted.mpr ⟨rfl,List.ne_nil_of_mem mem⟩,List.mem_map.mpr ⟨d,mem,rfl⟩⟩

theorem mountsResolved (known : Devices device) (calls : List (MountCall device)) (current path : Text) :
    (strnicmp 7 path (text "memory:") = true → (run ManagerServer.step .start calls).GetDevice known path = .memoryDevice) ∧
    (strnicmp 7 path (text "memory:") = false → (∀ at_, FirstPrefix calls path at_ →
        (∀ d, mountedAt at_ calls = [d] → (run ManagerServer.step .start calls).GetDevice known path = .mounted d) ∧
        ((mountedAt at_ calls).length ≠ 1 → (run ManagerServer.step .start calls).GetDevice known path =
          (((mountedAt at_ calls).find? (fun d => known.opens d path)).map .mounted).getD .null)) ∧
      ((∀ other, mountedAt other calls ≠ [] → strncmp other.length path other = false) →
        (run ManagerServer.step .start calls).GetDevice known path = .m_fallbackDevice)) ∧
    ((run ManagerServer.step .start calls).FindDevice known current path = none ↔
      ∀ at_, ∀ d ∈ mountedAt at_ calls, ¬RootOf known current (absolute current path) d) ∧
    ∀ d transformed, (run ManagerServer.step .start calls).FindDevice known current path = some (d,transformed) →
      ∃ at_ rest, d ∈ mountedAt at_ calls ∧ known.m_otherPrefix d ≠ [] ∧ transformed = at_ ++ rest ∧
        absolute current path = absolute current (known.m_otherPrefix d) ++ rest ∧
        (∀ other, ∀ d' ∈ mountedAt other calls, RootOf known current (absolute current path) d' →
          (absolute current (known.m_otherPrefix d')).length ≤ (absolute current (known.m_otherPrefix d)).length) ∧
        (lastMount d calls = at_ → ∃ translated,
          (run ManagerServer.step .start calls).TranslatePath known d transformed = some translated ∧
            absolute current translated = absolute current path) ∧
        (mountedAt at_ calls = [d] → FirstPrefix calls transformed at_ →
          strnicmp 7 transformed (text "memory:") = false →
          (run ManagerServer.step .start calls).GetDevice known transformed = .mounted d) := by
  refine ⟨fun memory => if_pos memory,fun plain => ⟨fun _ first => getDevice plain first,getFallback plain⟩,?_,?_⟩
  · have best := consideredAll known current (absolute current path)
      ((run ManagerServer.step .start calls).m_mounts.entries.flatMap (fun mount => mount.2.map (fun d => (mount.1,d))))
    unfold Best at best
    constructor
    · intro none_ at_ d mem
      rw [ManagerServer.FindDevice] at none_
      rw [none_] at best
      exact best.2 (⟨at_⟩,d) (memDevices.mpr mem)
    · intro all
      split at best
      · rename_i none_
        exact none_
      · obtain ⟨m,mem,root,_⟩ := best
        exact absurd root (all m.path _ (memDevices.mp mem))
  · intro d transformed found
    have best := consideredAll known current (absolute current path)
      ((run ManagerServer.step .start calls).m_mounts.entries.flatMap (fun mount => mount.2.map (fun d => (mount.1,d))))
    unfold Best at best
    rw [ManagerServer.FindDevice] at found
    rw [found] at best
    obtain ⟨m,mem,⟨some_,rest,whole⟩,length,isTransformed,most⟩ := best
    rw [length,← whole,List.drop_left] at isTransformed
    refine ⟨m.path,rest,memDevices.mp mem,some_,isTransformed,whole.symm,?_,?_,?_⟩
    · intro other d' mem' root
      rw [← length]
      exact most (⟨other⟩,d') (memDevices.mpr mem') root
    · intro last
      refine ⟨known.m_otherPrefix d ++ rest,?_,by rw [absoluteAppend some_,whole]⟩
      rw [ManagerServer.TranslatePath,pathPrefixAfter,last,isTransformed,if_pos (by rw [List.length_append]; omega),
        List.drop_left]
    · intro alone first plain
      exact (getDevice plain first).1 d alone

end

def twoRoots : Devices Bool where
  m_otherPrefix d := if d then text "/y/" else text "/x/"
  opens _ _ := true

theorem innerMount :
    let twice := run ManagerServer.step .start [.Mount false (text "@a/"),.Mount true (text "@a/")]
    let inside := run ManagerServer.step .start [.Mount false (text "@a/"),.Mount true (text "@a/b/")]
    twice.GetDevice twoRoots (text "@a/f") = .mounted false ∧
      inside.FindDevice twoRoots (text "/") (text "/x/b/f") = some (false,text "@a/b/f") ∧
      inside.GetDevice twoRoots (text "@a/b/f") = .mounted true ∧
      inside.TranslatePath twoRoots true (text "@a/b/f") = some (text "/y/f") := by
  decide

end Citizen.Vfs
