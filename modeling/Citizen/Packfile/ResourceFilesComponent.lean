import Citizen.Packfile.ResourceFileDatabase

/-! The archive of a resource set and its database, through builds that may fail and changes of the files. -/
namespace Citizen.Packfile
open ResourceFileDatabase (GetEntry Snapshot Load)

attribute [local instance] byteOrder

inductive SetFile where
  | written (fileSet : List Text) (files : FileSystem)
  | torn (contents : Text)

inductive Saving where
  | unopened
  | broken
  | saved

/-- What becomes of the database, the files for `AddFile` and for the packing, whether the packfile is created, and where writing stops. -/
structure Building where
  database : Saving
  added : FileSystem
  created : Bool
  packed : FileSystem
  stops : Bool
  left : Text

namespace ResourceFilesComponent

structure Disk where
  files : FileSystem
  fileNames : List Text
  setFile : Option SetFile
  database : Option DatabaseFile

variable (path : Text)

def backing (file : Text) : Text := path ++ byte '/' :: file

def fileSet (fileNames : List Text) : List Text := fileNames.dedup.mergeSort (fun left right => !decide (right < left))

def contentOf (files : FileSystem) (name : Text) : Option Text := (files name).map File.content

def builder (added : FileSystem) (fileSet : List Text) : PackfileBuilder :=
  fileSet.foldl (fun packfile file => packfile.AddFile (contentOf added) file (backing path file)) .new

def readable (files : FileSystem) (fileSet : List Text) : List Text := fileSet.filter (fun file => (files (backing path file)).isSome)

def written (building : Building) (fileSet : List Text) : SetFile :=
  let added := readable path building.added fileSet
  if building.stops ∨ ¬added.all (fun file => (building.packed (backing path file)).isSome) then .torn building.left
  else .written added building.packed

def BuildResourceSet (building : Building) (disk : Disk) : Disk :=
  let fileSet := fileSet disk.fileNames
  { disk with
    database :=
      match building.database with
      | .unopened => disk.database
      | .broken => some .broken
      | .saved => some (.saved (Snapshot disk.files (fileSet.map (backing path))))
    setFile := if building.created then some (written path building fileSet) else disk.setFile }

def ShouldBuildSet (disk : Disk) : Bool :=
  if disk.setFile.isNone then true
  else
    match Load disk.database with
    | none => true
    | some setDatabase => setDatabase.Check disk.files (disk.fileNames.map (backing path))

def contents : SetFile → Text
  | .written fileSet files => ((builder path files fileSet).Write (contentOf files) true).getD []
  | .torn contents => contents

def WrittenFrom (files : FileSystem) (fileNames : List Text) (setFile : SetFile) : Prop :=
  ∃ fileSet files', setFile = .written fileSet files' ∧
    (∀ file, file ∈ fileSet ↔ file ∈ fileNames ∧ (files (backing path file)).isSome = true) ∧
    ∀ file ∈ fileSet, GetEntry files' (backing path file) = GetEntry files (backing path file)

def Fresh (disk : Disk) : Prop :=
  ShouldBuildSet path disk = false → ∃ setFile, disk.setFile = some setFile ∧ WrittenFrom path disk.files disk.fileNames setFile

def StaysFresh (disk : Disk) : Prop := ∀ files fileNames, Fresh path { disk with files := files, fileNames := fileNames }

inductive Event where
  | change (files : FileSystem) (fileNames : List Text)
  | build (building : Building)

def apply (disk : Disk) : Event → Disk
  | .change files fileNames => { disk with files := files, fileNames := fileNames }
  | .build building => BuildResourceSet path building disk

def RunFresh (disk : Disk) : List Event → Prop
  | [] => StaysFresh path disk
  | event :: events => StaysFresh path disk ∧ RunFresh (apply path disk event) events

def PacksAs (building : Building) (fileNames : List Text) (files : FileSystem) (snapshotNames : List Text) : Prop :=
  building.stops = false ∧
    (∀ file, (file ∈ fileNames ∧ (building.added (backing path file)).isSome = true) ↔
      file ∈ snapshotNames ∧ (files (backing path file)).isSome = true) ∧
    ∀ file ∈ fileNames, (building.added (backing path file)).isSome = true →
      GetEntry building.packed (backing path file) = GetEntry files (backing path file)

/-- A build that saves its database writes the packfile to its end from the same files, or finds one that was; one that cannot open
the database leaves the packfile or writes it from the files of the older database. -/
def Meets (disk : Disk) (building : Building) : Prop :=
  match building.database with
  | .broken => True
  | .saved =>
    if building.created then PacksAs path building disk.fileNames disk.files disk.fileNames
    else ∀ setFile, disk.setFile = some setFile → WrittenFrom path disk.files disk.fileNames setFile
  | .unopened => building.created = true → ∀ files fileNames,
      disk.database = some (.saved (Snapshot files ((fileSet fileNames).map (backing path)))) →
        PacksAs path building disk.fileNames files fileNames

def RunMeets (disk : Disk) : List Event → Prop
  | [] => True
  | .change files fileNames :: events => RunMeets (apply path disk (.change files fileNames)) events
  | .build building :: events => Meets path disk building ∧ RunMeets (apply path disk (.build building)) events

def start (files : FileSystem) (fileNames : List Text) : Disk := ⟨files,fileNames,none,none⟩

variable {path} {files files' : FileSystem} {fileNames fileNames' : List Text} {disk : Disk} {building : Building}

theorem memFileSet {file : Text} : file ∈ fileSet fileNames ↔ file ∈ fileNames := by
  rw [fileSet,List.mem_mergeSort,List.mem_dedup]

theorem memReadable {file : Text} :
    file ∈ readable path files (fileSet fileNames) ↔ file ∈ fileNames ∧ (files (backing path file)).isSome = true := by
  rw [readable,List.mem_filter,memFileSet]

theorem memBacking (path file : Text) : backing path file ∈ fileNames.map (backing path) ↔ file ∈ fileNames :=
  List.mem_map_of_injective (fun _ _ same => (List.cons.inj (List.append_cancel_left same)).2)

theorem WrittenFrom.same {setFile : SetFile} (written : WrittenFrom path files' fileNames' setFile)
    (names : ∀ file, file ∈ fileNames ↔ file ∈ fileNames')
    (entries : ∀ file ∈ fileNames', GetEntry files (backing path file) = GetEntry files' (backing path file)) :
    WrittenFrom path files fileNames setFile := by
  obtain ⟨fileSet,packed,rfl,members,same⟩ := written
  refine ⟨fileSet,packed,rfl,fun file => ?_,fun file mem => ?_⟩
  · rw [members,names]
    exact and_congr_right (fun mem => by rw [ResourceFileDatabase.getEntrySome (entries file mem)])
  · rw [same file mem,entries file ((members file).mp mem).1]

theorem staysFreshSaved (database : disk.database = some (.saved (Snapshot files ((fileSet fileNames).map (backing path))))) :
    StaysFresh path disk ↔ ∀ setFile, disk.setFile = some setFile → WrittenFrom path files fileNames setFile := by
  have check (files' : FileSystem) (fileNames' : List Text) :
      (Snapshot files ((fileSet fileNames).map (backing path))).Check files' (fileNames'.map (backing path)) = false ↔
        (∀ file, file ∈ fileNames' ↔ file ∈ fileNames) ∧
          ∀ file ∈ fileNames, GetEntry files' (backing path file) = GetEntry files (backing path file) := by
    rw [ResourceFileDatabase.checkSnapshot]
    refine and_congr ⟨fun names file => ?_,fun names name => ?_⟩ ?_
    · rw [← memBacking path,names,memBacking,memFileSet]
    · simp only [List.mem_map,memFileSet,names]
    · simp only [List.forall_mem_map,memFileSet]
  constructor
  · intro stays setFile there
    have noBuild : ShouldBuildSet path { disk with files := files, fileNames := fileNames } = false := by
      simp only [ShouldBuildSet,there,database,Load]
      exact (check files fileNames).mpr ⟨fun _ => Iff.rfl,fun _ _ => rfl⟩
    obtain ⟨setFile',there',written⟩ := stays files fileNames noBuild
    cases there.symm.trans there'
    exact written
  · intro written files' fileNames' noBuild
    cases there : disk.setFile with
    | none =>
      simp only [ShouldBuildSet,there] at noBuild
      cases noBuild
    | some setFile =>
      simp only [ShouldBuildSet,there,database,Load] at noBuild
      obtain ⟨names,same⟩ := (check files' fileNames').mp noBuild
      exact ⟨setFile,rfl,(written setFile there).same names same⟩

def Dated (path : Text) (disk : Disk) : Prop := ∀ database, disk.database = some (.saved database) →
  ∃ files fileNames, database = Snapshot files ((fileSet fileNames).map (backing path))

theorem staysFreshUnread (unread : Load disk.database = none) : StaysFresh path disk := by
  intro files fileNames noBuild
  unfold ShouldBuildSet at noBuild
  simp only [unread] at noBuild
  split at noBuild <;> cases noBuild

theorem writtenPacks : WrittenFrom path files fileNames' (written path building (fileSet fileNames)) ↔
    PacksAs path building fileNames files fileNames' := by
  simp only [written]
  constructor
  · rintro ⟨added,packed,whole,members,same⟩
    split at whole
    · cases whole
    · rename_i ended
      rw [not_or,Bool.not_eq_true] at ended
      cases whole
      refine ⟨ended.1,fun file => ?_,fun file mem opens => same file (memReadable.mpr ⟨mem,opens⟩)⟩
      rw [← memReadable,members]
  · rintro ⟨ended,members,same⟩
    have packed : (readable path building.added (fileSet fileNames)).all (fun file => (building.packed (backing path file)).isSome) = true := by
      rw [List.all_eq_true]
      intro file mem
      obtain ⟨listed,opens⟩ := memReadable.mp mem
      rw [ResourceFileDatabase.getEntrySome (same file listed opens)]
      exact ((members file).mp ⟨listed,opens⟩).2
    rw [if_neg (by simp [ended,packed])]
    refine ⟨_,_,rfl,fun file => ?_,fun file mem => ?_⟩
    · rw [memReadable,members]
    · obtain ⟨listed,opens⟩ := memReadable.mp mem
      exact same file listed opens

theorem buildStays (dated : Dated path disk) (stays : StaysFresh path disk) (building : Building) :
    StaysFresh path (BuildResourceSet path building disk) ↔ Meets path disk building := by
  unfold Meets
  cases saving : building.database with
  | broken => exact iff_of_true (staysFreshUnread (by simp [BuildResourceSet,saving,Load])) trivial
  | saved =>
    have database : (BuildResourceSet path building disk).database =
        some (.saved (Snapshot disk.files ((fileSet disk.fileNames).map (backing path)))) := by simp only [BuildResourceSet,saving]
    rw [staysFreshSaved database]
    cases created : building.created with
    | true => simp [BuildResourceSet,created,writtenPacks]
    | false => simp [BuildResourceSet,created]
  | unopened =>
    cases created : building.created with
    | false =>
      have same : BuildResourceSet path building disk = disk := by simp [BuildResourceSet,saving,created]
      rw [same]
      exact iff_of_true stays (fun absurd' => absurd absurd' (by decide))
    | true =>
      cases loaded : Load disk.database with
      | none =>
        refine iff_of_true (staysFreshUnread (by simp [BuildResourceSet,saving,loaded])) (fun _ files fileNames database => ?_)
        rw [database] at loaded
        cases loaded
      | some database =>
        have database' : disk.database = some (.saved database) := by
          cases file : disk.database with
          | none =>
            rw [file] at loaded
            cases loaded
          | some file' =>
            rw [file] at loaded
            cases file' <;> cases loaded
            rfl
        obtain ⟨files,fileNames,rfl⟩ := dated database database'
        have packs {files : FileSystem} {fileNames : List Text}
            (database : disk.database = some (.saved (Snapshot files ((fileSet fileNames).map (backing path))))) :
            StaysFresh path (BuildResourceSet path building disk) ↔ PacksAs path building disk.fileNames files fileNames := by
          have kept : (BuildResourceSet path building disk).database =
              some (.saved (Snapshot files ((fileSet fileNames).map (backing path)))) := by simp only [BuildResourceSet,saving,database]
          rw [staysFreshSaved kept]
          simp [BuildResourceSet,created,writtenPacks]
        exact ⟨fun fresh _ files fileNames database => (packs database).mp fresh,
          fun meets => (packs database').mpr (meets rfl files fileNames database')⟩

theorem buildDated (dated : Dated path disk) (building : Building) : Dated path (BuildResourceSet path building disk) := by
  intro database there
  simp only [BuildResourceSet] at there
  split at there
  · exact dated database there
  · cases there
  · cases there
    exact ⟨disk.files,disk.fileNames,rfl⟩

theorem runAlike (dated : Dated path disk) (stays : StaysFresh path disk) (events : List Event) :
    RunFresh path disk events ↔ RunMeets path disk events := by
  induction events generalizing disk with
  | nil => exact iff_of_true stays trivial
  | cons event events ih =>
    cases event with
    | change files fileNames =>
      have later : StaysFresh path (apply path disk (.change files fileNames)) := fun files fileNames => stays files fileNames
      exact (and_iff_right stays).trans (ih dated later)
    | build building =>
      refine (and_iff_right stays).trans ?_
      by_cases meets : Meets path disk building
      · have fresh := (buildStays dated stays building).mpr meets
        exact (ih (buildDated dated building) fresh).trans (and_iff_right meets).symm
      · have stale := fun fresh => meets ((buildStays dated stays building).mp fresh)
        refine iff_of_false (fun fresh => stale ?_) (fun both => meets both.1)
        cases events with
        | nil => exact fresh
        | cons => exact fresh.1

theorem runFresh (path : Text) (files : FileSystem) (fileNames : List Text) (events : List Event) :
    RunFresh path (start files fileNames) events ↔ RunMeets path (start files fileNames) events :=
  runAlike (fun _ absurd' => absurd absurd' (Option.some_ne_none _ ·.symm)) (staysFreshUnread rfl) events

def oneFile (mtime : Int) (content : Text) (short : content.length < 2 ^ 64 - 1) : FileSystem :=
  fun name => if name = text "x/a" then some ⟨7,mtime,content,short⟩ else none

def before : FileSystem := oneFile 1 (text "1") (by decide)
def after : FileSystem := oneFile 2 (text "22") (by decide)

def complete : Building := ⟨.saved,before,true,before,false,[]⟩
def uncreated : Building := ⟨.saved,after,false,after,false,[]⟩
def stopped : Building := ⟨.saved,before,true,before,true,text "RPF2"⟩

theorem staleArchives : ¬RunFresh (text "x") (start before [text "a"]) [.build complete,.change after [text "a"],.build uncreated] ∧
    ¬RunFresh (text "x") (start before [text "a"]) [.build stopped] := by
  have dated : Dated (text "x") (start before [text "a"]) := fun _ absurd' => absurd absurd' (Option.some_ne_none _ ·.symm)
  have fresh : StaysFresh (text "x") (start before [text "a"]) := staysFreshUnread rfl
  rw [runAlike dated fresh,runAlike dated fresh]
  constructor
  · rintro ⟨-,uncreated,-⟩
    obtain ⟨packed,files,whole,members,same⟩ := uncreated _ rfl
    have mem : text "a" ∈ packed := (members _).mpr ⟨List.mem_singleton_self _,by decide⟩
    simp only [written] at whole
    split at whole
    · cases whole
    · cases whole
      exact absurd (same _ mem) (by decide)
  · rintro ⟨⟨ended,-⟩,-⟩
    cases ended

end ResourceFilesComponent
end Citizen.Packfile
