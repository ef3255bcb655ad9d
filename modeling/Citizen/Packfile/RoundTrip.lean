import Citizen.Packfile.EntrySearch
import Mathlib.Algebra.BigOperators.Group.List.Basic

/-! The archive that is written for a map of files serves these files: their contents and the directories they
stand in. -/
namespace Citizen.Packfile
open BitField (Byte)
open RagePackfile Entry
open Backfill (stop stopAppend)

def Child (files : Files) (q : List Text) (name : Text) : Prop := ∃ file ∈ files, q ++ [name] <+: file.1

def Directory (files : Files) (q : List Text) : Prop := q = [] ∨ ∃ file ∈ files, q <+: file.1 ∧ q ≠ file.1

def Selects (files : Files) (q : List Text) (key name : Text) : Prop :=
  Child files q name ∧ (name = cString key ∨ (¬Child files q (cString key) ∧ sameUpToCase (cString key) name))

inductive Leads (files : Files) : List Text → List Text → List Text → Prop where
  | here (q : List Text) : Leads files q [] q
  | into {q keys path : List Text} {key name : Text} (selects : Selects files q key name)
      (rest : Leads files (q ++ [name]) keys path) : Leads files q (key :: keys) path

def reads (packfile : RagePackfile) (handle : Nat) : List Nat → List (Option Text)
  | [] => []
  | size :: rest => (packfile.Read handle size).1 :: reads (packfile.Read handle size).2 handle rest

def portions (left : Text) : List Nat → List (Option Text)
  | [] => []
  | size :: rest => some (left.take size) :: portions (left.drop size) rest

def OpensAs (packfile : RagePackfile) (steps : Nat) (path held : Text) : Prop :=
  ∃ handle packfile', packfile.Open steps path true = some (some handle,packfile') ∧
    packfile'.GetLength handle = some held.length ∧ ∀ sizes, reads packfile' handle sizes = portions held sizes

inductive Lists : RagePackfile → Nat → List FindData → Prop where
  | last {packfile : RagePackfile} {handle : Nat} (finished : (packfile.FindNext handle).1 = none) : Lists packfile handle []
  | more {packfile : RagePackfile} {handle : Nat} {data : FindData} {rest : List FindData}
      (next : (packfile.FindNext handle).1 = some data) (later : Lists (packfile.FindNext handle).2 handle rest) :
      Lists packfile handle (data :: rest)

def Listing (packfile : RagePackfile) (steps : Nat) (folder : Text) (listed : List FindData) : Prop :=
  (packfile.FindFirst steps folder = some (none,packfile) ∧ listed = []) ∨
    ∃ handle data packfile' rest, packfile.FindFirst steps folder = some (some (handle,data),packfile') ∧
      Lists packfile' handle rest ∧ listed = data :: rest

structure ListsChildren (OpenRead : Text → Option Text) (files : Files) (q : List Text) (listed : List FindData) : Prop where
  once : (listed.map FindData.name).Nodup
  children : ∀ name, name ∈ listed.map FindData.name ↔ Child files q name
  file : ∀ data ∈ listed, ∀ backing held, (q ++ [data.name],backing) ∈ files → OpenRead backing = some held →
    data.attributes = 0 ∧ data.length = held.length
  directory : ∀ data ∈ listed, Directory files (q ++ [data.name]) → data.attributes = FILE_ATTRIBUTE_DIRECTORY

/-- The files of the map are served. A path opens nothing that its parts do not lead to, whatever follows a file's
path; what a path without a slash at its end opens where it leads to a directory is left open. -/
structure Serves (OpenRead : Text → Option Text) (files : Files) (steps : Nat) (packfile : RagePackfile) : Prop where
  ends : ∀ rest, (packfile.Open steps (packfile.m_pathPrefix ++ byte '/' :: rest) true).isSome = true
  opens : ∀ file ∈ files, ∀ held, OpenRead file.2 = some held →
    OpensAs packfile steps (packfile.m_pathPrefix ++ byte '/' :: joined file.1) held
  noOther : ∀ rest handle packfile',
    packfile.Open steps (packfile.m_pathPrefix ++ byte '/' :: rest) true = some (some handle,packfile') →
      (∃ file ∈ files, ∃ keys, keys <+: components rest ∧ Leads files [] keys file.1 ∧ ∀ held, OpenRead file.2 = some held →
        OpensAs packfile steps (packfile.m_pathPrefix ++ byte '/' :: rest) held) ∨
      ∃ q, Leads files [] (components rest) q ∧ Directory files q ∧
        (Closed rest → ∃ data, packfile'.GetHandle handle = some data ∧ data.entry.isDirectory = true)
  lists : ∀ q, Directory files q → ∃ listed, ListsChildren OpenRead files q listed ∧
    Listing packfile steps (packfile.m_pathPrefix ++ byte '/' :: slashed q) listed

section
variable {root : Entry} {files : Files}

theorem reachesAppend {a b c : Entry} {p q : List Text} (first : Reaches a p b) (second : Reaches b q c) : Reaches a (p ++ q) c := by
  induction first with
  | here => exact second
  | into mem rest ih => exact .into mem (ih second)

theorem reachesSplit {a c : Entry} {p q : List Text} (reaches : Reaches a (p ++ q) c) : ∃ b, Reaches a p b ∧ Reaches b q c := by
  induction p generalizing a with
  | nil => exact ⟨a,.here a,reaches⟩
  | cons name p ih =>
    cases reaches with
    | into mem rest =>
      obtain ⟨b,first,second⟩ := ih rest
      exact ⟨b,.into mem first,second⟩

section
variable (built : Built root files)
include built

theorem Built.unique {a b c : Entry} {p : List Text} (mem : a ∈ root.all) (first : Reaches a p b)
    (second : Reaches a p c) : b = c := by
  induction first with
  | here => cases second with | here => rfl
  | @into a sub b p inside rest ih =>
    generalize path : sub.m_name :: p = names at second
    cases second with
    | here => cases path
    | into inside' rest' =>
      obtain ⟨named,rfl⟩ := List.cons.inj path
      obtain rfl := List.inj_on_of_nodup_map (built.subs mem).1 inside inside' named
      exact ih (subMemAll mem inside) rest'

variable {d : Entry} {q : List Text}

section
variable (reaches : Reaches root q d)
include reaches

theorem Built.holdsSome (more : d.m_isDirectory = true → d.m_subEntries ≠ []) : ∃ rest b, (q ++ rest,b) ∈ files ∧ d.HoldsFile rest b := by
  obtain ⟨p,-,shaped,-⟩ := built.shaped.descend reaches.memAll
  obtain ⟨rest,b,holds⟩ := shaped.holdsSome more
  obtain ⟨file,below,isFile,same⟩ := holds
  exact ⟨rest,b,(built.holds _ _).mp ⟨file,reachesAppend reaches below,isFile,same⟩,file,below,isFile,same⟩

theorem Built.childIff {name : Text} :
    (∃ sub ∈ d.m_subEntries, sub.m_name = name) ↔ Child files q name ∧ d.m_isDirectory = true := by
  constructor
  · rintro ⟨sub,mem,rfl⟩
    obtain ⟨isDirectory,filled⟩ := built.parent reaches.memAll mem
    have below : Reaches root (q ++ [sub.m_name]) sub := reachesAppend reaches (.into mem (.here sub))
    obtain ⟨rest,b,inside,-⟩ := built.holdsSome below filled
    exact ⟨⟨_,inside,List.prefix_append _ _⟩,isDirectory⟩
  · rintro ⟨⟨file,mem,rest,whole⟩,isDirectory⟩
    obtain ⟨last,there,-⟩ := (built.holds file.1 file.2).mpr mem
    rw [← whole,List.append_assoc] at there
    obtain ⟨d',first,second⟩ := reachesSplit there
    obtain rfl := built.unique (selfMemAll root) first reaches
    cases second with
    | into inside rest => exact ⟨_,inside,rfl⟩

theorem Built.directory (isDirectory : d.m_isDirectory = true) : Directory files q := by
  rcases List.eq_nil_or_concat' q with rfl | ⟨init,name,rfl⟩
  · exact .inl rfl
  · obtain ⟨above,first,inside,-⟩ := reachesSnoc reaches
    obtain ⟨rest,b,mem,holds⟩ := built.holdsSome reaches (built.parent first.memAll inside).2
    obtain ⟨sub,-,rest',rfl,-⟩ := (holdsFileBelow isDirectory).mp holds
    exact .inr ⟨_,mem,List.prefix_append _ _,fun same => by simpa using congrArg List.length same⟩

end

theorem Built.ofDirectory (directory : Directory files q) : ∃ d, Reaches root q d ∧ d.m_isDirectory = true := by
  rcases directory with rfl | ⟨file,mem,⟨rest,whole⟩,other⟩
  · exact ⟨root,.here root,built.isDirectory⟩
  · obtain ⟨last,there,-⟩ := (built.holds file.1 file.2).mpr mem
    rw [← whole] at there
    obtain ⟨d,first,second⟩ := reachesSplit there
    cases second with
    | here => exact absurd (whole ▸ (List.append_nil q).symm) other
    | into inside rest => exact ⟨d,first,(built.parent first.memAll inside).1⟩

theorem Built.file (reaches : Reaches root q d)
    (isFile : d.m_isDirectory = false) : (q,d.m_backingFile) ∈ files := (built.holds _ _).mp ⟨d,reaches,isFile,rfl⟩

theorem Built.ofFile {b : Text} (mem : (q,b) ∈ files) {d : Entry}
    (reaches : Reaches root q d) : d.m_isDirectory = false ∧ d.m_backingFile = b := by
  obtain ⟨file,there,isFile,same⟩ := (built.holds q b).mpr mem
  obtain rfl := built.unique (selfMemAll root) there reaches
  exact ⟨isFile,same⟩

theorem Built.leads {d last : Entry} {q keys : List Text} (reaches : Reaches root q d)
    (follows : Follows d keys last) : ∃ path, Reaches root path last ∧ Leads files q keys path := by
  induction follows generalizing q with
  | here d => exact ⟨q,reaches,.here q⟩
  | @into d sub last key keys picks rest ih =>
    obtain ⟨mem,named⟩ := picks
    obtain ⟨path,there,leads⟩ := ih (reachesAppend reaches (.into mem (.here sub)))
    have child (name : Text) : _ ↔ Child files q name ∧ _ := built.childIff reaches
    have isDirectory := (built.parent reaches.memAll mem).1
    refine ⟨path,there,.into ⟨((child sub.m_name).mp ⟨sub,mem,rfl⟩).1,?_⟩ leads⟩
    rcases named with same | ⟨other,upToCase⟩
    · exact .inl same
    · refine .inr ⟨fun there => ?_,upToCase⟩
      obtain ⟨sub',mem',same⟩ := (child _).mpr ⟨there,isDirectory⟩
      exact other sub' mem' same

end
end

section
variable {packfile : RagePackfile} {handle : Nat}

def withHandles (packfile : RagePackfile) (m_handles : List HandleData) : RagePackfile := { packfile with m_handles := m_handles }

theorem allocateHandle (packfile : RagePackfile) (data : HandleData) (valid : data.valid = true) :
    ∃ handle m_handles, packfile.AllocateHandle data = (handle,withHandles packfile m_handles) ∧
      (withHandles packfile m_handles).GetHandle handle = some data := by
  unfold AllocateHandle
  split
  · rename_i i found
    obtain ⟨inside,-⟩ := List.findIdx?_eq_some_iff_getElem.mp found
    exact ⟨i,_,rfl,by simp [GetHandle,withHandles,inside,valid]⟩
  · exact ⟨_,_,rfl,by simp [GetHandle,withHandles,valid]⟩

theorem setHandle {m_handles : List HandleData} {old data : HandleData} (got : (withHandles packfile m_handles).GetHandle handle = some old)
    (valid : data.valid = true) : (withHandles packfile (m_handles.set handle data)).GetHandle handle = some data := by
  have inside : handle < m_handles.length := by
    obtain ⟨found,-⟩ := Option.filter_eq_some_iff.mp got
    exact (List.getElem?_eq_some_iff.mp found).1
  simp [GetHandle,withHandles,inside,valid]

variable {OpenRead : Text → Option Text} {root : Entry} {At : Nat → Entry → Prop}

theorem readsFile (image : Image OpenRead root packfile At) {k : Nat} {d : Entry} (place : At k d) (isFile : d.m_isDirectory = false)
    {m_handles : List HandleData} {cur : Nat} (inside : cur ≤ (content OpenRead d).length)
    (got : (withHandles packfile m_handles).GetHandle handle = some ⟨true,packfile.entryAt k,cur⟩) (sizes : List Nat) :
    reads (withHandles packfile m_handles) handle sizes = portions ((content OpenRead d).drop cur) sizes := by
  have length : (packfile.entryAt k).length = (content OpenRead d).length := by
    rw [image.length place,if_neg (by rw [isFile]; decide)]
  induction sizes generalizing m_handles cur with
  | nil => rfl
  | cons size rest ih =>
    rw [reads,portions]
    have step : (withHandles packfile m_handles).Read handle size =
        if (content OpenRead d).length ≤ cur then (some [],withHandles packfile m_handles)
        else (some (((content OpenRead d).drop cur).take size),withHandles packfile (m_handles.set handle
          ⟨true,packfile.entryAt k,cur + (((content OpenRead d).drop cur).take size).length⟩)) := by
      have data := image.data place isFile cur size
      simp only [Read,got,length]
      split
      · rfl
      · rw [← data]
        rfl
    rw [step]
    split
    · rename_i finished
      have empty : (content OpenRead d).drop cur = [] := List.drop_eq_nil_of_le finished
      have later := ih inside got
      rw [empty] at later ⊢
      simp [later]
    · rename_i more
      let read := ((content OpenRead d).drop cur).take size
      have got' : (withHandles packfile (m_handles.set handle ⟨true,packfile.entryAt k,cur + read.length⟩)).GetHandle handle =
          some ⟨true,packfile.entryAt k,cur + read.length⟩ := setHandle got rfl
      have short : read.length = min size ((content OpenRead d).length - cur) := by rw [List.length_take,List.length_drop]
      have next : (content OpenRead d).drop (cur + read.length) = ((content OpenRead d).drop cur).drop size := by
        rw [short,List.drop_drop]
        rcases Nat.le_total size ((content OpenRead d).length - cur) with fits | finished
        · rw [Nat.min_eq_left fits]
        · rw [Nat.min_eq_right finished,List.drop_eq_nil_of_le (by omega),List.drop_eq_nil_of_le (by omega)]
      rw [ih (by omega) got',next]

theorem openFound {steps k : Nat} {path : Text} (found : packfile.FindEntry steps path = some (some k)) :
    ∃ handle m_handles, packfile.Open steps path true = some (some handle,withHandles packfile m_handles) ∧
      (withHandles packfile m_handles).GetHandle handle = some ⟨true,packfile.entryAt k,0⟩ := by
  obtain ⟨handle,m_handles,allocated,got⟩ := allocateHandle packfile ⟨true,packfile.entryAt k,0⟩ rfl
  exact ⟨handle,m_handles,by simp [Open,found,allocated],got⟩

theorem opensFile (image : Image OpenRead root packfile At) {steps k : Nat} {path : Text} {d : Entry} (place : At k d)
    (isFile : d.m_isDirectory = false) (found : packfile.FindEntry steps path = some (some k)) :
    OpensAs packfile steps path (content OpenRead d) := by
  obtain ⟨handle,m_handles,opened,got⟩ := openFound found
  refine ⟨handle,_,opened,?_,readsFile image place isFile (Nat.zero_le _) got⟩
  rw [GetLength,got,Option.map_some,image.length place,if_neg (by rw [isFile]; decide)]

def describe (OpenRead : Text → Option Text) (sub : Entry) : FindData :=
  ⟨if sub.m_isDirectory then FILE_ATTRIBUTE_DIRECTORY else 0,
    if sub.m_isDirectory then sub.m_subEntries.length else (content OpenRead sub).length,sub.m_name⟩

section
variable (image : Image OpenRead root packfile At)
include image

theorem fillFindData {k : Nat} {sub : Entry} (place : At k sub) (valid : ValidName sub.m_name) :
    packfile.FillFindData (packfile.entryAt k) = describe OpenRead sub := by
  obtain ⟨rest,name⟩ := nameRead image place valid.nonempty
  rw [FillFindData,image.directory place,image.length place,name,cStringAppend valid.unterminated,describe]

theorem listsRest {k : Nat} {d : Entry} (place : At k d) (isDirectory : d.m_isDirectory = true)
    (valid : ∀ sub ∈ d.m_subEntries, ValidName sub.m_name) {m_handles : List HandleData} {cur : Nat}
    (got : (withHandles packfile m_handles).GetHandle handle = some ⟨true,packfile.entryAt k,cur⟩) :
    Lists (withHandles packfile m_handles) handle (((sorted d.m_subEntries).map (describe OpenRead)).drop (cur + 1)) := by
  have length : (packfile.entryAt k).length = (sorted d.m_subEntries).length := by
    rw [image.length place,if_pos isDirectory,(sortedPerm _).length_eq]
  induction left : (sorted d.m_subEntries).length - (cur + 1) generalizing m_handles cur with
  | zero =>
    rw [List.drop_eq_nil_of_le (by rw [List.length_map]; omega)]
    refine .last ?_
    simp only [FindNext,got,length]
    rw [if_pos (by omega)]
  | succ n ih =>
    have inside : cur + 1 < (sorted d.m_subEntries).length := by omega
    have child := image.children place isDirectory (List.getElem?_eq_getElem inside)
    have data := fillFindData image child (valid _ (memSorted.mp (List.getElem_mem inside)))
    have step : (withHandles packfile m_handles).FindNext handle = (some (describe OpenRead (sorted d.m_subEntries)[cur + 1]),
        withHandles packfile (m_handles.set handle ⟨true,packfile.entryAt k,cur + 1⟩)) := by
      simp only [FindNext,got,length]
      rw [if_neg (by omega),← data]
      rfl
    rw [List.drop_eq_getElem_cons (by rw [List.length_map]; exact inside),List.getElem_map]
    refine .more (by rw [step]) ?_
    rw [step]
    exact ih (setHandle got rfl) (by omega)

theorem listsDirectory {steps k : Nat} {path : Text} {d : Entry} (place : At k d)
    (isDirectory : d.m_isDirectory = true) (valid : ∀ sub ∈ d.m_subEntries, ValidName sub.m_name)
    (found : packfile.FindEntry steps path = some (some k)) :
    Listing packfile steps path ((sorted d.m_subEntries).map (describe OpenRead)) := by
  have length : (packfile.entryAt k).length = (sorted d.m_subEntries).length := by
    rw [image.length place,if_pos isDirectory,(sortedPerm _).length_eq]
  have here : (packfile.entryAt k).isDirectory = true := by rw [image.directory place,isDirectory]
  cases children : sorted d.m_subEntries with
  | nil =>
    rw [children] at length
    refine .inl ⟨?_,rfl⟩
    simp [FindFirst,found,length]
  | cons first rest =>
    rw [children] at length
    obtain ⟨handle,m_handles,allocated,got⟩ := allocateHandle packfile ⟨true,packfile.entryAt k,0⟩ rfl
    have child := image.children (j := 0) place isDirectory (by rw [children]; rfl)
    have data := fillFindData image child (valid _ (memSorted.mp (by rw [children]; exact List.mem_cons_self)))
    have later := listsRest image place isDirectory valid got
    rw [children] at later
    refine .inr ⟨handle,_,_,_,?_,later,rfl⟩
    rw [Nat.add_zero] at data
    simp [FindFirst,found,here,length,allocated,data]

end

theorem openInverse {steps : Nat} {path : Text} {packfile' : RagePackfile}
    (opened : packfile.Open steps path true = some (some handle,packfile')) :
    ∃ k, packfile.FindEntry steps path = some (some k) ∧ packfile'.GetHandle handle = some ⟨true,packfile.entryAt k,0⟩ := by
  simp only [Open,if_true,Option.map_eq_some_iff] at opened
  obtain ⟨entry,found,result⟩ := opened
  cases entry with
  | none => cases result
  | some k =>
    obtain ⟨handle',m_handles,allocated,got⟩ := allocateHandle packfile ⟨true,packfile.entryAt k,0⟩ rfl
    simp only [allocated,Prod.mk.injEq,Option.some.injEq] at result
    obtain ⟨rfl,rfl⟩ := result
    exact ⟨k,found,got⟩

theorem findEntryPrefixed (packfile : RagePackfile) (steps : Nat) (rest : Text) :
    packfile.FindEntry steps (packfile.m_pathPrefix ++ byte '/' :: rest) =
      packfile.findEntryLoop (byte '/' :: rest) steps 0 (skipSlashes (byte '/' :: rest) 1) := by
  simp [FindEntry]

theorem firstPart (rest : Text) :
    (byte '/' :: rest).drop (skipSlashes (byte '/' :: rest) 1) = rest.dropWhile (fun b => b = byte '/') :=
  skipSlashesDrop (byte '/' :: rest) 1

theorem reachesShort {d last : Entry} {q : List Text} (reaches : Reaches d q last) : q.length + last.all.length ≤ d.all.length := by
  induction reaches with
  | here d => simp
  | @into d sub last q mem rest ih =>
    have smaller := subSmaller mem
    rw [List.length_cons]
    omega

theorem serves {files : Files} (image : Image OpenRead root packfile At) (built : Built root files) (normalised : Normalised files)
    {steps : Nat} (enough : root.all.length ≤ steps) : Serves OpenRead files steps packfile where
  ends rest := by
    rw [Open,if_pos rfl,Option.isSome_map,findEntryPrefixed]
    exact loopEnds image built image.first enough
  opens := by
    intro file mem held read
    obtain ⟨last,there,isFile,same⟩ := (built.holds file.1 file.2).mpr mem
    have valid := normalised.valid file mem
    have short := reachesShort there
    have some' := List.length_pos_of_mem (selfMemAll last)
    have head : (joined file.1).head? ≠ some (byte '/') := by
      intro slash
      have start := joinedStart valid
      rw [List.getD_eq_getElem?_getD,← List.head?_eq_getElem?,slash] at start
      exact absurd start (by decide)
    have from' : (byte '/' :: joined file.1).drop (skipSlashes (byte '/' :: joined file.1) 1) = joined file.1 := by
      rw [firstPart,dropNoSlash head]
    obtain ⟨k,found,place⟩ := loopNamedFile image built image.first there isFile (normalised.nonempty file mem) valid from'
      (show file.1.length < steps by omega)
    have opens := opensFile image place isFile ((findEntryPrefixed packfile steps _).trans found)
    rwa [content,same,read] at opens
  noOther := by
    intro rest handle packfile' opened
    obtain ⟨k,found,got⟩ := openInverse opened
    have loop := found
    rw [findEntryPrefixed] at loop
    have head : ((byte '/' :: rest).drop (skipSlashes (byte '/' :: rest) 1)).head? ≠ some (byte '/') := by
      rw [firstPart]
      intro slash
      have kept := List.head?_dropWhile_not (fun b => decide (b = byte '/')) rest
      rw [slash] at kept
      simp at kept
    have follows := loopFollows image built image.first head loop
    rw [firstPart,componentsSkip] at follows
    rcases follows with ⟨consumed,left,file,split,follows,isFile,place⟩ | ⟨last,follows,isDirectory,closed⟩
    · obtain ⟨path,there,leads⟩ := built.leads (.here root) follows
      refine .inl ⟨_,built.file there isFile,consumed,⟨left,split.symm⟩,leads,fun held read => ?_⟩
      have opens := opensFile image place isFile found
      rwa [content,read] at opens
    · obtain ⟨path,there,leads⟩ := built.leads (.here root) follows
      refine .inr ⟨path,leads,built.directory there isDirectory,fun whole => ⟨_,got,?_⟩⟩
      exact (image.directory (closed whole.skip)).trans isDirectory
  lists := by
    intro q directory
    obtain ⟨d,there,isDirectory⟩ := built.ofDirectory directory
    obtain ⟨distinct,valid⟩ := built.subs there.memAll
    have names := built.validPath (selfMemAll root) there
    have short := reachesShort there
    have some' := List.length_pos_of_mem (selfMemAll d)
    have from' : (byte '/' :: slashed q).drop (skipSlashes (byte '/' :: slashed q) 1) = slashed q := by
      have head := slashedHead names (show ([] : Text).head? ≠ some (byte '/') by simp)
      rw [List.append_nil] at head
      rw [firstPart,dropNoSlash head]
    obtain ⟨k,found,place⟩ := loopDirectory image built image.first there names from' (show q.length < steps by omega)
    refine ⟨_,⟨?_,fun name => ?_,?_,?_⟩,listsDirectory image place isDirectory valid ((findEntryPrefixed packfile steps _).trans found)⟩
    · rw [List.map_map]
      exact ((sortedPerm _).map m_name).nodup_iff.mpr distinct
    · have child : (∃ sub ∈ d.m_subEntries, sub.m_name = name) ↔ Child files q name :=
        (built.childIff there).trans (and_iff_left isDirectory)
      rw [← child]
      simp [describe,memSorted]
    · intro data mem backing held file read
      obtain ⟨sub,inside,rfl⟩ := List.mem_map.mp mem
      have below := reachesAppend there (.into (memSorted.mp inside) (.here sub))
      obtain ⟨isFile,same⟩ := built.ofFile file below
      simp [describe,isFile,content,same,read]
    · intro data mem directory'
      obtain ⟨sub,inside,rfl⟩ := List.mem_map.mp mem
      have below := reachesAppend there (.into (memSorted.mp inside) (.here sub))
      obtain ⟨sub',there',isDirectory'⟩ := built.ofDirectory directory'
      obtain rfl := built.unique (selfMemAll root) there' below
      simp [describe,isDirectory']

end

variable {OpenRead : Text → Option Text}

theorem Image.sameArchive {root : Entry} {packfile : RagePackfile} {At : Nat → Entry → Prop}
    (image : Image OpenRead root packfile At) (m_pathPrefix : Text) (m_handles : List HandleData) :
    Image OpenRead root { packfile with m_pathPrefix := m_pathPrefix, m_handles := m_handles } At :=
  ⟨image.first,image.member,image.directory,image.length,image.children,image.name,image.data⟩

theorem paddingShort (alignment : Nat) (some' : 0 < alignment) (pos : Nat) : (padding alignment pos).length ≤ alignment := by
  rw [padding,List.length_replicate]
  split <;> omega

def Grows (ops : List Op) (n : Nat) : Prop := ∀ pos, stop 4 pos ops ≤ pos + n

theorem Grows.append {first second : List Op} {m n : Nat} (grows : Grows first m) (more : Grows second n) :
    Grows (first ++ second) (m + n) := by
  intro pos
  rw [stopAppend]
  have here := grows pos
  have later := more (stop 4 pos first)
  omega

theorem Grows.flatMap {entries : List Entry} {ops : Entry → List Op} {size : Entry → Nat}
    (each : ∀ d ∈ entries, Grows (ops d) (size d)) : Grows (entries.flatMap ops) (entries.map size).sum := by
  induction entries with
  | nil => exact fun pos => Nat.le_refl _
  | cons d rest ih =>
    obtain ⟨first,later⟩ := List.forall_mem_cons.mp each
    exact first.append (ih later)

theorem growsAll {own family : Entry → List Op} {size : Entry → Nat} {order : List Entry → List Entry}
    (perm : ∀ subs, (order subs).Perm subs) (split : ∀ d, family d = own d ++ (order d.m_subEntries).flatMap family)
    (each : ∀ d, Grows (own d) (size d)) (root : Entry) : Grows (family root) (root.all.map size).sum := by
  induction root using subInduction with
  | step root ih =>
    have below := Grows.flatMap (fun sub mem => ih sub ((perm root.m_subEntries).mem_iff.mp mem))
    have total : (root.all.map size).sum = size root +
        ((order root.m_subEntries).map (fun sub => (sub.all.map size).sum)).sum := by
      rw [allSplit,List.map_cons,List.sum_cons,((perm root.m_subEntries).map _).sum_eq,List.map_flatMap,List.flatMap_def,List.sum_flatten,List.map_map]
      rfl
    rw [split,total]
    exact (each root).append below

theorem growsChild (d : Entry) : Grows d.childOps (16 * d.m_subEntries.length) := by
  intro pos
  have records : (sorted d.m_subEntries).length = d.m_subEntries.length := List.length_mergeSort ..
  rw [childOps,stopAppend,stopRecords,records]
  split <;> exact Nat.le_refl _

theorem growsName (base : Nat) (d : Entry) : Grows (d.nameOp base) (d.m_name.length + 2) := by
  intro pos
  unfold nameOp
  split
  · simp only [stop,List.length_singleton]
    omega
  · simp only [stop,List.length_singleton]
    omega

theorem growsFile (OpenRead : Text → Option Text) (d : Entry) : Grows (d.fileOp OpenRead) ((content OpenRead d).length + 2048) := by
  intro pos
  unfold fileOp content
  split
  · have padded := paddingShort 2048 (by decide) (pos + ((OpenRead d.m_backingFile).getD []).length)
    simp only [stopAppend,stop,stopCopy]
    omega
  · exact Nat.le_add_right _ _

/-- What an entry takes at most: its record, its name with a terminator, and its content with what it is aligned by. -/
def room (OpenRead : Text → Option Text) (d : Entry) : Nat :=
  16 * d.m_subEntries.length + (d.m_name.length + 2) + ((content OpenRead d).length + 2048)

theorem archiveShort (OpenRead : Text → Option Text) {root : Entry} {files : Files} (built : Built root files) (base count : Nat) :
    (written OpenRead base count root).length ≤ 2 * tocStart + 16 + (root.all.map (room OpenRead)).sum := by
  have shown : ∀ d ∈ root.all, d.m_name = [] → d.m_fullName = [] := fun d mem unnamed => by
    obtain ⟨rfl,full⟩ := built.names mem unnamed
    exact full
  have orderly := (archiveOrderly OpenRead base count (built.shaped.distinct (by simp)) shown).1
  have drafted := Backfill.runDrafted codeFixed orderly
  have whole : (written OpenRead base count root).length = stop 4 0 (archiveOps OpenRead base count root) :=
    (drafted.length codeFixed).symm.trans drafted.pos
  have table := growsAll (fun subs => List.mergeSort_perm subs _) tableOpsSplit growsChild root
  have names := growsAll (fun subs => List.mergeSort_perm subs _) (nameOpsSplit base) (growsName base) root
  have contents := growsAll List.Perm.refl (fun d => fileOps.eq_1 OpenRead d) (growsFile OpenRead) root
  have total : (root.all.map (room OpenRead)).sum = (root.all.map (fun d => 16 * d.m_subEntries.length)).sum +
      (root.all.map (fun d => d.m_name.length + 2)).sum + (root.all.map (fun d => (content OpenRead d).length + 2048)).sum := by
    rw [← List.sum_map_add,← List.sum_map_add]
    rfl
  rw [whole,archiveOps,total]
  simp only [stopAppend,stopHead,stopRecord,stop]
  have first := table (tocStart + 16)
  generalize stop 4 (tocStart + 16) root.tableOps = tableEnd at first ⊢
  have second := names tableEnd
  generalize stop 4 tableEnd (root.nameOps base) = namesEnd at second ⊢
  have aligned := paddingShort 2048 (by decide) namesEnd
  have last := contents (namesEnd + (padding 2048 namesEnd).length)
  unfold tocStart at *
  omega

section
variable {files : Files} (normalised : Normalised files) (readable : Readable OpenRead files)
include normalised readable

theorem contentsShort : ((PackfileBuilder.of OpenRead files).writer OpenRead).m_stream.contents.length ≤
      2 * tocStart + 16 + ((PackfileBuilder.of OpenRead files).m_rootEntry.all.map (room OpenRead)).sum := by
  have built := builtOf normalised readable
  obtain ⟨base,count,state,-,-⟩ := writerRun OpenRead built.unnamed built.shaped.named
  have contents := congrArg (fun s : Backfill.State Text Byte => s.contents.length) state
  exact contents.le.trans (archiveShort OpenRead built base count)

theorem packfileRoundTrip {archive : Text}
    (written : (PackfileBuilder.of OpenRead files).Write OpenRead true = some archive) (small : archive.length < 2 ^ 31)
    (before : Text) :
    ∃ packfile, OpenArchive true (some (before ++ archive,before.length)) = .ok packfile ∧
      ∃ enough, ∀ steps, enough ≤ steps → ∀ m_pathPrefix m_handles,
        Serves OpenRead files steps { packfile with m_pathPrefix := m_pathPrefix, m_handles := m_handles } := by
  have built := builtOf normalised readable
  obtain ⟨V,count,toc,laid⟩ := laid built OpenRead
  obtain rfl := Option.some.inj written
  refine ⟨_,openLaid laid small before,(PackfileBuilder.of OpenRead files).m_rootEntry.all.length,
    fun steps enough m_pathPrefix m_handles => ?_⟩
  exact serves ((imageLaid laid small before).sameArchive m_pathPrefix m_handles) built normalised enough

end

def tree : Files := [([text "m"],text "m"),([text "s",text "b"],text "b"),([text "s",text "a"],text "a")]

def treeRead (backing : Text) : Option Text := some (backing ++ backing)

def treeRoot : Entry :=
  ⟨[],true,[⟨text "m",false,[],text "m",text "m"⟩,
    ⟨text "s",true,[⟨text "b",false,[],text "b",text "s/b"⟩,⟨text "a",false,[],text "a",text "s/a"⟩],[],text "s"⟩],[],[]⟩

theorem treeNormalised : Normalised tree where
  nonempty := by decide
  valid := by
    have each : ∀ name ∈ [text "m",text "s",text "a",text "b"], name ≠ [] ∧ (∀ b ∈ name, separator b = false) ∧ 0 ∉ name := by decide
    have names : ∀ file ∈ tree, ∀ name ∈ file.1, name ∈ [text "m",text "s",text "a",text "b"] := by decide
    intro file mem name inside
    obtain ⟨nonempty,plain,unterminated⟩ := each name (names file mem name inside)
    exact ⟨nonempty,plain,unterminated⟩
  apart := by decide

theorem treeReadable : Readable treeRead tree := fun _ _ => rfl

theorem addBelow {directory name backing : Text} (readable : (OpenRead backing).isSome = true)
    (valid : ValidName directory) (validName : ValidName name) (entry : Entry) :
    entry.AddFile OpenRead (joined [directory,name]) backing = atName directory ⟨directory,true,[],[],directory⟩
      (push ⟨name,false,[],backing,joined [directory,name]⟩) entry := by
  have found : ¬(OpenRead backing).isNone = true := by simpa [Option.isSome_iff_ne_none] using readable
  have whole : joined [directory,name] = directory ++ byte '/' :: name := joinedCons (List.cons_ne_nil _ _)
  have first : findSeparator (joined [directory,name]) 0 = some directory.length := by
    rw [whole]
    simpa using findSeparatorPlain [] valid.plain
  have last : ((joined [directory,name]).reverse.takeWhile (fun b => !separator b)).reverse = name := by
    rw [show [directory,name] = [directory] ++ [name] from rfl,joinedSnoc]
    exact lastAfterSlash (List.cons_ne_nil _ _) validName.plain
  have next : separator (name.getD 0 0) = false := by
    obtain ⟨b,rest,rfl⟩ := List.exists_cons_of_ne_nil validName.nonempty
    exact validName.plain b List.mem_cons_self
  have single : ¬name.any separator = true := by simpa using validName.plain
  unfold Entry.AddFile
  rw [if_neg found,first]
  dsimp only
  rw [last]
  rw [whole]
  refine (@findDirectoryName [] directory name _ valid.plain next entry).trans ?_
  simp only [if_neg single]
  rfl

theorem treeBuilt : (PackfileBuilder.of treeRead tree).m_rootEntry = treeRoot := by
  have valid : ∀ name ∈ [text "s",text "a",text "b"], ValidName name := fun name mem =>
    have each : ∀ name ∈ [text "s",text "a",text "b"], name ≠ [] ∧ (∀ b ∈ name, separator b = false) ∧ 0 ∉ name := by decide
    ⟨(each name mem).1,(each name mem).2.1,(each name mem).2.2⟩
  have below (name backing : Text) (mem : name ∈ [text "s",text "a",text "b"]) (entry : Entry) :
      entry.AddFile treeRead (joined [text "s",name]) backing = _ :=
    addBelow rfl (valid _ List.mem_cons_self) (valid name mem) entry
  have steps : (PackfileBuilder.of treeRead tree).m_rootEntry =
      (((⟨[],true,[],[],[]⟩ : Entry).AddFile treeRead (text "m") (text "m")).AddFile treeRead (joined [text "s",text "b"]) (text "b")).AddFile
        treeRead (joined [text "s",text "a"]) (text "a") := rfl
  rw [steps,below _ _ (by simp),below _ _ (by simp)]
  rfl

theorem treeServable : Built treeRoot tree := treeBuilt ▸ builtOf treeNormalised treeReadable

theorem treeSmall : ((PackfileBuilder.of treeRead tree).writer treeRead).m_stream.contents.length < 2 ^ 31 := by
  have short := contentsShort treeNormalised treeReadable
  have total : (((PackfileBuilder.of treeRead tree).m_rootEntry.all.map (room treeRead)).sum) ≤ 20000 := by
    rw [treeBuilt]
    simp [treeRoot,allSplit,room,content,treeRead,text]
  exact Nat.lt_of_le_of_lt (short.trans (Nat.add_le_add_left total _)) (by decide)

theorem treeServed : ∃ archive, (PackfileBuilder.of treeRead tree).Write treeRead true = some archive ∧ archive.length < 2 ^ 31 ∧
    ∃ packfile, OpenArchive true (some (text "head" ++ archive,(text "head").length)) = .ok packfile ∧
      ∃ enough, ∀ steps, enough ≤ steps → ∀ m_pathPrefix m_handles,
        Serves treeRead tree steps { packfile with m_pathPrefix := m_pathPrefix, m_handles := m_handles } :=
  ⟨_,rfl,treeSmall,packfileRoundTrip treeNormalised treeReadable rfl treeSmall (text "head")⟩

theorem upperOpens {root : Entry} {packfile : RagePackfile} {At : Nat → Entry → Prop}
    (image : Image OpenRead root packfile At) (same : root = treeRoot) :
    ∃ handle packfile', packfile.Open 2 (packfile.m_pathPrefix ++ text "/M") true = some (some handle,packfile') ∧
      ∃ data, packfile'.GetHandle handle = some data ∧ data.entry.isDirectory = false := by
  subst same
  have isDirectory := image.directory image.first
  have picks := findChildPicks image treeServable image.first rfl (text "M")
  cases found : packfile.findChild (packfile.entryAt 0) (text "M") with
  | none =>
    rw [found] at picks
    exact absurd (by decide) (picks _ List.mem_cons_self)
  | some k =>
    rw [found] at picks
    obtain ⟨sub,selected,place⟩ := picks
    have isFile : (packfile.entryAt k).isDirectory = false := by
      rw [image.directory place]
      rcases List.mem_cons.mp selected.1 with rfl | other
      · rfl
      · obtain rfl := List.mem_singleton.mp other
        exact absurd selected.2 (by decide)
    have loop : packfile.FindEntry 2 (packfile.m_pathPrefix ++ text "/M") = some (some k) := by
      refine (findEntryPrefixed packfile 2 (text "M")).trans ((loopLast 1 isDirectory (by decide) (by decide)).trans ?_)
      have key : (byte '/' :: text "M").drop (skipSlashes (byte '/' :: text "M") 1) = text "M" := by decide
      rw [key,found,Option.elim_some]
      exact loopFile 0 _ _ isFile
    obtain ⟨handle,m_handles,opened,got⟩ := openFound loop
    exact ⟨handle,_,opened,_,got,isFile⟩

theorem otherPathOpens : ∃ archive packfile, (PackfileBuilder.of treeRead tree).Write treeRead true = some archive ∧
    Normalised tree ∧ Readable treeRead tree ∧ archive.length < 2 ^ 31 ∧ OpenArchive true (some (archive,0)) = .ok packfile ∧
    (∀ file ∈ tree, joined file.1 ≠ text "M") ∧
    ∃ handle packfile', packfile.Open 2 (packfile.m_pathPrefix ++ text "/M") true = some (some handle,packfile') ∧
      ∃ data, packfile'.GetHandle handle = some data ∧ data.entry.isDirectory = false := by
  obtain ⟨V,count,toc,laid⟩ := laid (builtOf treeNormalised treeReadable) treeRead
  have opens := upperOpens (imageLaid laid treeSmall []) treeBuilt
  exact ⟨_,_,rfl,treeNormalised,treeReadable,treeSmall,openLaid laid treeSmall [],by decide,opens⟩

end Citizen.Packfile
