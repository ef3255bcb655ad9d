import Citizen.Lib.CString
import Citizen.Lib.OrderedMap
import Citizen.Lib.Run

/-! `ResourceStreamComponent`: the streaming list of a resource, its index by hashes, its links and its saved form. -/
namespace Citizen.Resources
open BitField (Byte)

attribute [local instance] byteOrder

def strncpy (n : Nat) (source : Text) : Text :=
  (cString source).take n ++ List.replicate (n - (cString source).length) 0

def hexDigit (d : Byte) : Byte := if d < 10 then byte '0' + d else byte 'a' + (d - 10)

def hexText (hash : Vector Byte 20) : Text :=
  hash.toList.flatMap (fun (b : Byte) => [hexDigit (b >>> (4 : Nat)),hexDigit (b &&& 15)])

structure StreamFiles where
  OpenRead : Text → Option Text
  sha1 : Text → Vector Byte 20

namespace ResourceStreamComponent

structure Entry where
  entryName : Text
  hashString : Text
  onDiskPath : Text
  sizes : entryName.length = 128 ∧ hashString.length = 128 ∧ onDiskPath.length = 512

structure RuntimeEntry extends Entry where
  isAutoScan : Bool
  loadDiskPath : Text

def Entry.name (e : Entry) : Text := cString (e.entryName ++ e.hashString ++ e.onDiskPath)
def Entry.hash (e : Entry) : Text := cString (e.hashString ++ e.onDiskPath)
def Entry.path (e : Entry) : Text := cString e.onDiskPath

def Entry.link (e : Entry) : Text := byte 'z' :: e.hash

end ResourceStreamComponent

open ResourceStreamComponent

/-- `links` are the names in the directory of the links, `sfl` is the saved list. `added` are the entries given to
`AddStreamingFile` since the lists were cleared. -/
structure ResourceStreamComponent where
  m_resourcePairs : OrderedMap Text RuntimeEntry
  m_hashPairs : OrderedMap Text Text
  links : List Text
  sfl : Option (List Entry)
  added : List Entry

inductive StreamEvent where
  | AddFile (fullPath : Text)
  | AddCached (entryName diskPath : Text) (hash : Option Text)
  | UpdateSet (files : List Text) (linked : Text → Bool) (created : Bool)
  | Reload (linked : Text → Bool)
  | OnStop

theorem strncpySize (n : Nat) (source : Text) : (strncpy n source).length = n := by
  simp [strncpy]
  omega

namespace ResourceStreamComponent

def start (links : List Text) (sfl : Option (List Entry)) : ResourceStreamComponent := ⟨.empty,.empty,links,sfl,[]⟩

def AddStreamingFile (s : ResourceStreamComponent) (entry : Entry) : ResourceStreamComponent :=
  { s with
    m_resourcePairs := s.m_resourcePairs.emplace entry.name ⟨entry,false,[]⟩
    m_hashPairs := s.m_hashPairs.insert entry.hash entry.name
    added := s.added ++ [entry] }

def fileName (fullPath : Text) : Text := (fullPath.reverse.takeWhile (fun b => b ≠ byte '/' && b ≠ byte '\\')).reverse

def fileEntry (files : StreamFiles) (fullPath : Text) : Option Entry :=
  if fullPath.tails.any (text ".stream_raw").isPrefixOf = true then none
  else
    (files.OpenRead fullPath).map (fun content =>
      ⟨strncpy 128 (fileName fullPath),strncpy 128 (hexText (files.sha1 content)),strncpy 512 fullPath,
        strncpySize ..,strncpySize ..,strncpySize ..⟩)

def cachedEntry (entryName diskPath : Text) (hash : Option Text) : Option Entry :=
  hash.map (fun hash =>
    ⟨strncpy 127 entryName ++ [0],strncpy 127 hash ++ [0],strncpy 511 diskPath ++ [0],
      by simp [strncpySize],by simp [strncpySize],by simp [strncpySize]⟩)

def autoScanned (linked : Text → Bool) (s : ResourceStreamComponent) (name : Text) : ResourceStreamComponent :=
  match s.m_resourcePairs.find name with
  | none => s
  | some file =>
    if linked file.link = true then
      { s with
        m_resourcePairs := s.m_resourcePairs.insert name { file with isAutoScan := true, loadDiskPath := file.link }
        links := file.link :: s.links }
    else { s with m_resourcePairs := s.m_resourcePairs.insert name { file with isAutoScan := true } }

def addScanned (linked : Text → Bool) (s : ResourceStreamComponent) (entry : Entry) : ResourceStreamComponent :=
  (s.AddStreamingFile entry).autoScanned linked entry.name

def clean (s : ResourceStreamComponent) : ResourceStreamComponent :=
  { s with
    links := s.links.filter (fun name =>
      !(name.length = 41 && name.head? = some (byte 'z') && (s.m_hashPairs.find (name.drop 1)).isNone)) }

def save (s : ResourceStreamComponent) (created : Bool) : ResourceStreamComponent :=
  if created = true then { s with sfl := some (s.m_resourcePairs.entries.map (fun pair => pair.2.toEntry)) } else s

def UpdateSet (files : StreamFiles) (s : ResourceStreamComponent) (scanned : List Text) (linked : Text → Bool)
    (created : Bool) : ResourceStreamComponent :=
  (((scanned.filterMap (fileEntry files)).foldl (addScanned linked) s).clean).save created

def Reload (s : ResourceStreamComponent) (linked : Text → Bool) : ResourceStreamComponent :=
  (s.sfl.getD []).foldl (addScanned linked) s

def step (files : StreamFiles) (s : ResourceStreamComponent) : StreamEvent → ResourceStreamComponent
  | .AddFile fullPath => (fileEntry files fullPath).elim s s.AddStreamingFile
  | .AddCached entryName diskPath hash => (cachedEntry entryName diskPath hash).elim s s.AddStreamingFile
  | .UpdateSet scanned linked created => s.UpdateSet files scanned linked created
  | .Reload linked => s.Reload linked
  | .OnStop => { s with m_resourcePairs := .empty, m_hashPairs := .empty, added := [] }

def Right (files : StreamFiles) (e : Entry) : Prop :=
  ∃ content, files.OpenRead e.path = some content ∧ hexText (files.sha1 content) = e.hash

def Terminated (e : Entry) : Prop := 0 ∈ e.entryName ∧ 0 ∈ e.hashString ∧ 0 ∈ e.onDiskPath

structure Coherent (files : StreamFiles) (s : ResourceStreamComponent) : Prop where
  index : ∀ hash name, s.m_hashPairs.find hash = some name →
    ∃ e, s.m_resourcePairs.find name = some e ∧ e.hash = hash ∧ Right files e.toEntry
  terminated : ∀ name e, s.m_resourcePairs.find name = some e → Terminated e.toEntry
  linked : ∀ name e, s.m_resourcePairs.find name = some e → e.loadDiskPath ≠ [] → e.loadDiskPath = e.link ∧ e.link ∈ s.links

def LinksKept (before after : ResourceStreamComponent) : Prop :=
  ∀ e ∈ before.added, e.link ∈ before.links → e.link ∈ after.links

def Promised (files : StreamFiles) (s : ResourceStreamComponent) : StreamEvent → Prop
  | .UpdateSet scanned linked created =>
    (s.UpdateSet files scanned linked created).Coherent files ∧
      LinksKept ((scanned.filterMap (fileEntry files)).foldl (addScanned linked) s) (s.UpdateSet files scanned linked created)
  | .Reload linked => (s.Reload linked).Coherent files
  | _ => True

def firstNamed (entries : List Entry) (name : Text) : Option Entry := entries.find? (fun e => e.name = name)
def lastHashed (entries : List Entry) (hash : Text) : Option Entry := entries.reverse.find? (fun e => e.hash = hash)

/-- What is given of a name first is terminated, and where a hash is given last under a name, what is given of that name
first has this hash as well, and the path of a file with that content. -/
structure Sound (files : StreamFiles) (entries : List Entry) : Prop where
  terminated : ∀ name e, firstNamed entries name = some e → Terminated e
  first : ∀ hash last, lastHashed entries hash = some last →
    ∃ e, firstNamed entries last.name = some e ∧ e.hash = hash ∧ Right files e

def Meets (files : StreamFiles) (s : ResourceStreamComponent) : StreamEvent → Prop
  | .UpdateSet scanned _ _ => Sound files (s.added ++ scanned.filterMap (fileEntry files))
  | .Reload _ => Sound files (s.added ++ s.sfl.getD [])
  | _ => True

structure Traced (s : ResourceStreamComponent) : Prop where
  pairs : ∀ name, (s.m_resourcePairs.find name).map RuntimeEntry.toEntry = firstNamed s.added name
  hashes : ∀ hash, s.m_hashPairs.find hash = (lastHashed s.added hash).map Entry.name
  linked : ∀ name e, s.m_resourcePairs.find name = some e → e.loadDiskPath ≠ [] → e.loadDiskPath = e.link ∧ e.link ∈ s.links

variable {files : StreamFiles} {s : ResourceStreamComponent} {entries : List Entry} {linked : Text → Bool}

theorem firstMem {name : Text} {e : Entry} (first : firstNamed entries name = some e) : e ∈ entries ∧ e.name = name :=
  ⟨List.mem_of_find?_eq_some first,by simpa using List.find?_some first⟩

theorem lastThere {e : Entry} (mem : e ∈ entries) : ∃ last, lastHashed entries e.hash = some last :=
  Option.isSome_iff_exists.mp (List.find?_isSome.mpr ⟨e,List.mem_reverse.mpr mem,decide_eq_true rfl⟩)

theorem firstAdd (entries : List Entry) (entry : Entry) (name : Text) :
    firstNamed (entries ++ [entry]) name = (firstNamed entries name).or (if name = entry.name then some entry else none) := by
  unfold firstNamed
  rw [List.find?_append]
  congr 1
  by_cases same : name = entry.name
  · rw [if_pos same]
    exact List.find?_cons_of_pos (decide_eq_true same.symm)
  · rw [if_neg same]
    exact List.find?_cons_of_neg (by simpa using Ne.symm same)

theorem lastAdd (entries : List Entry) (entry : Entry) (hash : Text) :
    lastHashed (entries ++ [entry]) hash = if hash = entry.hash then some entry else lastHashed entries hash := by
  unfold lastHashed
  rw [List.reverse_append]
  split
  · rename_i same
    exact List.find?_cons_of_pos (decide_eq_true same.symm)
  · rename_i other
    exact List.find?_cons_of_neg (by simpa using Ne.symm other)

theorem Traced.add (traced : s.Traced) (entry : Entry) : (s.AddStreamingFile entry).Traced where
  pairs name := by
    have found := OrderedMap.findEmplace s.m_resourcePairs entry.name (⟨entry,false,[]⟩ : RuntimeEntry) name
    have first := firstAdd s.added entry name
    rw [← traced.pairs] at first
    refine (congrArg (Option.map RuntimeEntry.toEntry) found).trans (Eq.trans ?_ first.symm)
    cases s.m_resourcePairs.find name with
    | some old => rfl
    | none =>
      rw [Option.none_or,Option.map_none,Option.none_or]
      split
      · rfl
      · rfl
  hashes hash := by
    refine (OrderedMap.findInsert ..).trans (Eq.trans ?_ (congrArg _ (lastAdd s.added entry hash)).symm)
    rw [traced.hashes]
    split
    · rfl
    · rfl
  linked name e found filled := by
    have found' := (OrderedMap.findEmplace s.m_resourcePairs entry.name (⟨entry,false,[]⟩ : RuntimeEntry) name).symm.trans found
    cases old : s.m_resourcePairs.find name with
    | some there =>
      rw [old,Option.some_or] at found'
      cases found'
      exact traced.linked name _ old filled
    | none =>
      rw [old,Option.none_or] at found'
      split at found'
      · cases found'
        exact absurd rfl filled
      · cases found'

theorem Traced.scanned (traced : s.Traced) (linked : Text → Bool) (name : Text) : (s.autoScanned linked name).Traced := by
  unfold autoScanned
  cases found : s.m_resourcePairs.find name with
  | none => exact traced
  | some file =>
    have same (file' : RuntimeEntry) (entry : file'.toEntry = file.toEntry) (k : Text) :
        ((s.m_resourcePairs.insert name file').find k).map RuntimeEntry.toEntry = firstNamed s.added k := by
      rw [OrderedMap.findInsert,← traced.pairs]
      split
      · rename_i here
        rw [here,found]
        exact congrArg some entry
      · rfl
    dsimp only
    split
    · refine ⟨same _ rfl,traced.hashes,fun k e here filled => ?_⟩
      rw [OrderedMap.findInsert] at here
      split at here
      · cases here
        exact ⟨rfl,List.mem_cons_self⟩
      · obtain ⟨path,mem⟩ := traced.linked k e here filled
        exact ⟨path,List.mem_cons_of_mem _ mem⟩
    · refine ⟨same _ rfl,traced.hashes,fun k e here filled => ?_⟩
      rw [OrderedMap.findInsert] at here
      split at here
      · cases here
        exact traced.linked name file found filled
      · exact traced.linked k e here filled

theorem addScannedAdded (linked : Text → Bool) (s : ResourceStreamComponent) (entry : Entry) :
    (s.addScanned linked entry).added = s.added ++ [entry] := by
  unfold addScanned autoScanned
  split
  · rfl
  · split
    · rfl
    · rfl

section
variable (traced : s.Traced)
include traced

theorem Traced.fold (linked : Text → Bool) (entries : List Entry) :
    (entries.foldl (addScanned linked) s).Traced ∧ (entries.foldl (addScanned linked) s).added = s.added ++ entries := by
  induction entries generalizing s with
  | nil => exact ⟨traced,(List.append_nil _).symm⟩
  | cons entry rest ih =>
    obtain ⟨kept,added⟩ := ih (s := s.addScanned linked entry) ((traced.add entry).scanned linked entry.name)
    rw [addScannedAdded,List.append_assoc] at added
    exact ⟨kept,added⟩

theorem Traced.linkStays {e : Entry} (given : e ∈ s.added) (there : e.link ∈ s.links) : e.link ∈ s.clean.links := by
  obtain ⟨last,found⟩ := lastThere given
  have indexed : s.m_hashPairs.find (e.link.drop 1) = some last.name := by
    rw [show e.link.drop 1 = e.hash from rfl,traced.hashes,found]
    rfl
  refine List.mem_filter.mpr ⟨there,?_⟩
  rw [indexed]
  simp

theorem Traced.given {name : Text} {e : RuntimeEntry} (found : s.m_resourcePairs.find name = some e) :
    firstNamed s.added name = some e.toEntry := by
  rw [← traced.pairs,found]
  rfl

theorem Traced.clean : s.clean.Traced where
  pairs := traced.pairs
  hashes := traced.hashes
  linked name e found filled := by
    obtain ⟨path,there⟩ := traced.linked name e found filled
    exact ⟨path,traced.linkStays (firstMem (traced.given found)).1 there⟩

end

theorem saveSame (s : ResourceStreamComponent) (created : Bool) :
    (s.save created).m_resourcePairs = s.m_resourcePairs ∧ (s.save created).m_hashPairs = s.m_hashPairs ∧
      (s.save created).links = s.links ∧ (s.save created).added = s.added := by
  unfold save
  split
  · exact ⟨rfl,rfl,rfl,rfl⟩
  · exact ⟨rfl,rfl,rfl,rfl⟩

section
variable (traced : s.Traced)
include traced

theorem Traced.save (created : Bool) : (s.save created).Traced := by
  obtain ⟨pairs,hashes,links,added⟩ := saveSame s created
  refine ⟨?_,?_,?_⟩
  · rw [pairs,added]
    exact traced.pairs
  · rw [hashes,added]
    exact traced.hashes
  · rw [pairs,links]
    exact traced.linked

theorem Traced.coherent : s.Coherent files ↔ Sound files s.added := by
  have stored {name : Text} {e : Entry} (first : firstNamed s.added name = some e) :
      ∃ r, s.m_resourcePairs.find name = some r ∧ r.toEntry = e := by
    rw [← traced.pairs] at first
    exact Option.map_eq_some_iff.mp first
  constructor
  · rintro ⟨index,terminated,-⟩
    refine ⟨fun name e first => ?_,fun hash last found => ?_⟩
    · obtain ⟨r,there,rfl⟩ := stored first
      exact terminated name r there
    · obtain ⟨r,there,same,right⟩ := index hash last.name (by rw [traced.hashes,found]; rfl)
      exact ⟨r.toEntry,traced.given there,same,right⟩
  · rintro ⟨terminated,first⟩
    refine ⟨fun hash name indexed => ?_,fun name e found => terminated name e.toEntry (traced.given found),traced.linked⟩
    rw [traced.hashes] at indexed
    obtain ⟨last,found,rfl⟩ := Option.map_eq_some_iff.mp indexed
    obtain ⟨e,given,same,right⟩ := first hash last found
    obtain ⟨r,there,rfl⟩ := stored given
    exact ⟨r,there,same,right⟩

theorem Traced.step (event : StreamEvent) : (s.step files event).Traced := by
  cases event with
  | AddFile fullPath =>
    change ((fileEntry files fullPath).elim s s.AddStreamingFile).Traced
    cases fileEntry files fullPath with
    | none => exact traced
    | some entry => exact traced.add entry
  | AddCached entryName diskPath hash =>
    change ((cachedEntry entryName diskPath hash).elim s s.AddStreamingFile).Traced
    cases cachedEntry entryName diskPath hash with
    | none => exact traced
    | some entry => exact traced.add entry
  | UpdateSet scanned linked created => exact (traced.fold linked _).1.clean.save created
  | Reload linked => exact (traced.fold linked _).1
  | OnStop => exact ⟨fun _ => rfl,fun _ => rfl,fun _ _ found => nomatch found⟩

theorem Traced.promised (event : StreamEvent) : s.Promised files event ↔ s.Meets files event := by
  cases event with
  | AddFile | AddCached | OnStop => exact Iff.rfl
  | UpdateSet scanned linked created =>
    obtain ⟨filled,added⟩ := traced.fold linked (scanned.filterMap (fileEntry files))
    obtain ⟨-,-,links,saved⟩ := saveSame (((scanned.filterMap (fileEntry files)).foldl (addScanned linked) s).clean) created
    have kept : LinksKept ((scanned.filterMap (fileEntry files)).foldl (addScanned linked) s)
        (s.UpdateSet files scanned linked created) := by
      intro e given there
      exact links ▸ filled.linkStays given there
    refine (and_iff_left kept).trans ((filled.clean.save created).coherent.trans ?_)
    rw [saved]
    exact iff_of_eq (congrArg (Sound files) added)
  | Reload linked =>
    obtain ⟨filled,added⟩ := traced.fold linked (s.sfl.getD [])
    exact filled.coherent.trans (iff_of_eq (congrArg (Sound files) added))

end

theorem strncpyTerminated (n : Nat) (source : Text) : 0 ∈ strncpy n source ↔ (cString source).length < n := by
  have free : 0 ∉ (cString source).take n := fun mem => cStringFree source (List.mem_of_mem_take mem)
  unfold strncpy
  rw [List.mem_append,or_iff_right free,List.mem_replicate]
  exact ⟨fun room => by omega,fun short => ⟨by omega,rfl⟩⟩

theorem strncpyReads {n : Nat} {source : Text} (short : (cString source).length < n) (rest : Text) :
    cString (strncpy n source ++ rest) = cString source := by
  obtain ⟨more,size⟩ : ∃ more, n - (cString source).length = more + 1 := ⟨n - (cString source).length - 1,by omega⟩
  unfold strncpy
  rw [List.take_of_length_le (by omega),size,List.replicate_succ,List.append_assoc]
  exact cStringAppend (cStringFree source)

theorem hexFree (hash : Vector Byte 20) : 0 ∉ hexText hash := by
  have digits : ∀ b : Byte, hexDigit (b >>> (4 : Nat)) ≠ 0 ∧ hexDigit (b &&& 15) ≠ 0 := by decide
  intro mem
  obtain ⟨b,-,digit⟩ := List.mem_flatMap.mp mem
  rcases List.mem_cons.mp digit with high | low
  · exact (digits b).1 high.symm
  · exact (digits b).2 (List.mem_singleton.mp low).symm

theorem hexSize (hash : Vector Byte 20) : (hexText hash).length = 40 := by
  unfold hexText
  rw [List.length_flatMap]
  simp

theorem fileReads {fullPath : Text} {e : Entry} (opened : fileEntry files fullPath = some e) (free : 0 ∉ fullPath) :
    ∃ content, files.OpenRead fullPath = some content ∧ e.hash = hexText (files.sha1 content) ∧
      ((fileName fullPath).length < 128 → e.name = fileName fullPath) ∧ (fullPath.length < 512 → e.path = fullPath) ∧
      (Terminated e ↔ (fileName fullPath).length < 128 ∧ fullPath.length < 512) := by
  unfold fileEntry at opened
  split at opened
  · cases opened
  · obtain ⟨content,isFile,rfl⟩ := Option.map_eq_some_iff.mp opened
    have nameFree : 0 ∉ fileName fullPath := by
      intro mem
      have part := (List.takeWhile_prefix (fun b => b ≠ byte '/' && b ≠ byte '\\')).subset (List.mem_reverse.mp mem)
      exact free (List.mem_reverse.mp part)
    have hashText : cString (hexText (files.sha1 content)) = hexText (files.sha1 content) := cStringPlain (hexFree _)
    have hashShort : (cString (hexText (files.sha1 content))).length < 128 := by
      rw [hashText,hexSize]
      decide
    refine ⟨content,isFile,(strncpyReads hashShort _).trans hashText,fun short => ?_,fun short => ?_,?_⟩
    · unfold Entry.name
      rw [List.append_assoc,strncpyReads (by rwa [cStringPlain nameFree]),cStringPlain nameFree]
    · have reads := strncpyReads (n := 512) (by rw [cStringPlain free]; exact short) []
      rwa [List.append_nil,cStringPlain free] at reads
    · unfold Terminated
      rw [strncpyTerminated,strncpyTerminated,strncpyTerminated,cStringPlain nameFree,cStringPlain free]
      exact and_congr_right (fun _ => and_iff_right hashShort)

theorem fileThere {fullPath content : Text} (plain : ¬fullPath.tails.any (text ".stream_raw").isPrefixOf = true)
    (isFile : files.OpenRead fullPath = some content) : ∃ e, fileEntry files fullPath = some e := by
  unfold fileEntry
  rw [if_neg plain,isFile]
  exact ⟨_,rfl⟩

theorem sameNameUnsound {first second : Entry} (name : first.name = second.name) (hash : first.hash ≠ second.hash) :
    ¬Sound files [first,second] := by
  intro sound
  have last : lastHashed [first,second] second.hash = some second := List.find?_cons_of_pos (decide_eq_true rfl)
  have named : firstNamed [first,second] second.name = some first := List.find?_cons_of_pos (decide_eq_true name)
  obtain ⟨e,isFirst,hashed,-⟩ := sound.first second.hash second last
  rw [named] at isFirst
  cases isFirst
  exact hash hashed

section
variable (files : StreamFiles) (links : List Text) (sfl : Option (List Entry)) (events : List StreamEvent)

theorem listExact :
    Along (step files) (Promised files) (start links sfl) events ↔ Along (step files) (Meets files) (start links sfl) events := by
  refine alongIffKept Traced (fun s event traced _ => traced.step event) (fun s event traced => traced.promised event) ?_
  exact ⟨fun _ => rfl,fun _ => rfl,fun _ _ found => nomatch found⟩

/-- In every state a name leads to the entry that was first added under it, and a hash to the name it was last added with. -/
theorem tracedThroughout : Throughout (step files) Traced (start links sfl) events :=
  throughoutOfKept Traced (fun _ event traced _ => traced.step event)
    ⟨fun _ => rfl,fun _ => rfl,fun _ _ found => nomatch found⟩ alongAlways

end

def sameNames : StreamFiles where
  OpenRead path :=
    if path = text "r/stream/a/x.ytd" then some (text "1") else if path = text "r/stream/b/x.ytd" then some (text "2") else none
  sha1 content :=
    if content = text "1" then
      #v[0x35,0x6a,0x19,0x2b,0x79,0x13,0xb0,0x4c,0x54,0x57,0x4d,0x18,0xc2,0x8d,0x46,0xe6,0x39,0x54,0x28,0xab]
    else #v[0xda,0x4b,0x92,0x37,0xba,0xcc,0xcd,0xf1,0x9c,0x07,0x60,0xca,0xb7,0xae,0xc4,0xa8,0x35,0x90,0x10,0xb0]

theorem secondLeadsToFirst : ¬Along (step sameNames) (Promised sameNames) (start [] none)
    [.UpdateSet [text "r/stream/a/x.ytd",text "r/stream/b/x.ytd"] (fun _ => true) true] := by
  rintro ⟨promised,-⟩
  have traced : (start [] none).Traced := ⟨fun _ => rfl,fun _ => rfl,fun _ _ found => nomatch found⟩
  have sound : Sound sameNames ([] ++ [text "r/stream/a/x.ytd",text "r/stream/b/x.ytd"].filterMap (fileEntry sameNames)) :=
    (traced.promised (.UpdateSet [text "r/stream/a/x.ytd",text "r/stream/b/x.ytd"] (fun _ => true) true)).mp promised
  have firstFile : sameNames.OpenRead (text "r/stream/a/x.ytd") = some (text "1") := by decide
  have secondFile : sameNames.OpenRead (text "r/stream/b/x.ytd") = some (text "2") := by decide
  obtain ⟨first,isFirst⟩ := fileThere (by decide) firstFile
  obtain ⟨second,isSecond⟩ := fileThere (by decide) secondFile
  have entries : [text "r/stream/a/x.ytd",text "r/stream/b/x.ytd"].filterMap (fileEntry sameNames) = [first,second] := by
    rw [List.filterMap_cons_some isFirst,List.filterMap_cons_some isSecond,List.filterMap_nil]
  rw [List.nil_append,entries] at sound
  obtain ⟨content,isContent,hash,name,-⟩ := fileReads isFirst (by decide)
  obtain ⟨content',isContent',hash',name',-⟩ := fileReads isSecond (by decide)
  refine sameNameUnsound ((name (by decide)).trans ((by decide : _ = _).trans (name' (by decide)).symm)) ?_ sound
  rw [hash,hash',Option.some.inj (isContent.symm.trans firstFile),Option.some.inj (isContent'.symm.trans secondFile)]
  decide

end ResourceStreamComponent
end Citizen.Resources
