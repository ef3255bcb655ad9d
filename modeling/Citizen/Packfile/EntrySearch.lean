import Citizen.Packfile.ArchiveImage
import Citizen.Packfile.EntryTable

/-! What a path finds in an archive: the walk over the tree of entries that the reader's loop does. -/
namespace Citizen.Packfile
open BitField (Byte)
open RagePackfile

attribute [local instance] byteOrder

namespace Entry

theorem sortedStrict {subEntries : List Entry} (distinct : (subEntries.map m_name).Nodup) :
    (sorted subEntries).Pairwise (fun a b => a.m_name < b.m_name) := by
  have ordered : (sorted subEntries).Pairwise (fun a b => (!decide (b.m_name < a.m_name)) = true) := by
    apply List.pairwise_mergeSort
    · intro a b c first second
      simp only [Bool.not_eq_true',decide_eq_false_iff_not,not_lt] at first second ⊢
      exact le_trans first second
    · intro a b
      simpa using le_total a.m_name b.m_name
  have apart : (sorted subEntries).Pairwise (fun a b => a.m_name ≠ b.m_name) :=
    List.pairwise_map.mp (((sortedPerm subEntries).map m_name).nodup_iff.mpr distinct)
  refine ordered.imp₂ (fun a b below other => ?_) apart
  simp only [Bool.not_eq_true',decide_eq_false_iff_not,not_lt] at below
  exact lt_of_le_of_ne below other

def Picks (key : Text) (d sub : Entry) : Prop :=
  sub ∈ d.m_subEntries ∧ (sub.m_name = cString key ∨
    ((∀ other ∈ d.m_subEntries, other.m_name ≠ cString key) ∧ sameUpToCase (cString key) sub.m_name))

inductive Follows : Entry → List Text → Entry → Prop where
  | here (d : Entry) : Follows d [] d
  | into {d sub last : Entry} {key : Text} {keys : List Text} (picks : Picks key d sub) (rest : Follows sub keys last) :
      Follows d (key :: keys) last

end Entry

open Entry

def components (path : Text) : List Text := (path.splitOn (byte '/')).filter (· ≠ [])

theorem componentsSlash {name rest : Text} (plain : byte '/' ∉ name) (some' : name ≠ []) :
    components (name ++ byte '/' :: rest) = name :: components rest := by
  rw [components,List.splitOn_append_cons_self_of_not_mem plain,List.filter_cons_of_pos (by simpa using some')]
  rfl

theorem componentsLast {name : Text} (plain : byte '/' ∉ name) (some' : name ≠ []) : components name = [name] := by
  rw [components,List.splitOn_eq_singleton plain,List.filter_cons_of_pos (by simpa using some'),List.filter_nil]

theorem componentsSkip (path : Text) : components (path.dropWhile (fun b => b = byte '/')) = components path := by
  induction path with
  | nil => rfl
  | cons b rest ih =>
    by_cases slash : b = byte '/'
    · subst slash
      rw [List.dropWhile_cons_of_pos (by simp),ih]
      have cut : ([] ++ byte '/' :: rest).splitOn (byte '/') = [] :: rest.splitOn (byte '/') :=
        List.splitOn_append_cons_self_of_not_mem List.not_mem_nil rest
      rw [components,components,← List.nil_append (byte '/' :: rest),cut]
      rfl
    · rw [List.dropWhile_cons_of_neg (by simpa using slash)]

theorem skipSlashesDrop (relativePath : Text) (pos : Nat) :
    relativePath.drop (skipSlashes relativePath pos) = (relativePath.drop pos).dropWhile (fun b => b = byte '/') := by
  have cut := List.takeWhile_append_dropWhile (p := fun b => decide (b = byte '/')) (l := relativePath.drop pos)
  rw [skipSlashes,← List.drop_drop]
  exact (congrArg (List.drop _) cut.symm).trans List.drop_left

theorem findSlashFound {relativePath name rest : Text} {pos : Nat} (from' : relativePath.drop pos = name ++ byte '/' :: rest)
    (plain : byte '/' ∉ name) : findSlash relativePath pos = some (pos + name.length) := by
  have found : (name ++ byte '/' :: rest).findIdx? (fun b => b = byte '/') = some name.length := by
    rw [List.findIdx?_eq_some_iff_getElem]
    refine ⟨by simp,by simp,fun j before => ?_⟩
    rw [List.getElem_append_left before]
    simpa using fun same : name[j] = byte '/' => plain (same ▸ List.getElem_mem before)
  rw [findSlash,from',found,Option.map_some,Nat.add_comm]

theorem findSlashNone {relativePath : Text} {pos : Nat} (plain : byte '/' ∉ relativePath.drop pos) :
    findSlash relativePath pos = none := by
  rw [findSlash,List.findIdx?_eq_none_iff.mpr (fun b mem => by simpa using fun same : b = byte '/' => plain (same ▸ mem))]
  rfl

section
variable {OpenRead : Text → Option Text} {root : Entry} {packfile : RagePackfile} {At : Nat → Entry → Prop} {files : Files}

theorem nameRead (image : Image OpenRead root packfile At) {i : Nat} {d : Entry} (place : At i d) (named : d.m_name ≠ []) :
    ∃ rest, packfile.nameAt (packfile.entryAt i) = d.m_name ++ 0 :: rest := by
  have name := image.name place
  rwa [shownName,if_pos named] at name

theorem Built.subs (built : Built root files) {d : Entry} (mem : d ∈ root.all) :
    (d.m_subEntries.map m_name).Nodup ∧ ∀ sub ∈ d.m_subEntries, ValidName sub.m_name := by
  obtain ⟨q,-,shaped,-⟩ := built.shaped.descend mem
  cases shaped with
  | file isFile alone full => simp [alone]
  | directory isDirectory full distinct valid => exact ⟨distinct,valid⟩

theorem Built.parent (built : Built root files) {d sub : Entry} (mem : d ∈ root.all) (inside : sub ∈ d.m_subEntries) :
    d.m_isDirectory = true ∧ (sub.m_isDirectory = true → sub.m_subEntries ≠ []) := by
  obtain ⟨q,-,shaped,-⟩ := built.shaped.descend mem
  cases shaped with
  | file isFile alone full =>
    rw [alone] at inside
    cases inside
  | directory isDirectory full distinct valid filled => exact ⟨isDirectory,filled sub inside⟩

theorem Built.validPath (built : Built root files) {d last : Entry} {q : List Text} (mem : d ∈ root.all) (reaches : Reaches d q last) :
    ∀ name ∈ q, ValidName name := by
  induction reaches with
  | here => simp
  | into inside rest ih => exact List.forall_mem_cons.mpr ⟨(built.subs mem).2 _ inside,ih (subMemAll mem inside)⟩

theorem childAt (image : Image OpenRead root packfile At) (built : Built root files) {i k : Nat} {d : Entry} (place : At i d)
    (isDirectory : d.m_isDirectory = true) (mem : k ∈ children (packfile.entryAt i)) :
    ∃ sub ∈ d.m_subEntries, At k sub ∧ ∃ rest, packfile.nameAt (packfile.entryAt k) = sub.m_name ++ 0 :: rest := by
  obtain ⟨j,inside,rfl⟩ := List.mem_map.mp mem
  rw [List.mem_range,image.length place,if_pos isDirectory,← (sortedPerm _).length_eq] at inside
  have child := image.children place isDirectory (List.getElem?_eq_getElem inside)
  have listed := memSorted.mp (List.getElem_mem inside)
  exact ⟨_,listed,child,nameRead image child ((built.subs (image.member place)).2 _ listed).nonempty⟩

theorem childNamed (built : Built root files) {k : Nat} {d sub : Entry} (mem : d ∈ root.all) (inside : sub ∈ d.m_subEntries)
    {rest : Text} (name : packfile.nameAt (packfile.entryAt k) = sub.m_name ++ 0 :: rest) : packfile.named k = sub.m_name := by
  rw [named,name,cStringAppend ((built.subs mem).2 sub inside).unterminated]

section
variable (image : Image OpenRead root packfile At) (built : Built root files) {i : Nat}
include image built

theorem childrenNamed {d : Entry} (place : At i d) (isDirectory : d.m_isDirectory = true) :
    (children (packfile.entryAt i)).map packfile.named = (sorted d.m_subEntries).map m_name := by
  have member := image.member place
  have size : (packfile.entryAt i).length = (sorted d.m_subEntries).length := by
    rw [image.length place,if_pos isDirectory,(sortedPerm _).length_eq]
  refine List.ext_getElem (by simp [children,size]) (fun j _ inside => ?_)
  rw [List.length_map] at inside
  have child := image.children place isDirectory (List.getElem?_eq_getElem inside)
  have listed := memSorted.mp (List.getElem_mem inside)
  obtain ⟨rest,name⟩ := nameRead image child ((built.subs member).2 _ listed).nonempty
  simpa [children] using childNamed built member listed name

theorem childListed {d sub : Entry} (place : At i d)
    (isDirectory : d.m_isDirectory = true) (mem : sub ∈ d.m_subEntries) : sub.m_name ∈ (children (packfile.entryAt i)).map packfile.named := by
  rw [childrenNamed image built place isDirectory]
  exact List.mem_map_of_mem (memSorted.mpr mem)

section
variable {d : Entry} (place : At i d) (isDirectory : d.m_isDirectory = true)
include place isDirectory

theorem searchableAt : packfile.Searchable (packfile.entryAt i) where
  terminated k mem := by
    obtain ⟨sub,-,-,rest,name⟩ := childAt image built place isDirectory mem
    rw [name]
    simp
  ordered := by
    rw [childrenNamed image built place isDirectory]
    exact List.pairwise_map.mpr (sortedStrict (built.subs (image.member place)).1)

theorem findChildPicks (key : Text) :
    match packfile.findChild (packfile.entryAt i) key with
    | some k => ∃ sub, Picks key d sub ∧ At k sub
    | none => ∀ sub ∈ d.m_subEntries, ¬sameUpToCase (cString key) sub.m_name := by
  have member := image.member place
  rw [findChildPick (searchableAt image built place isDirectory),pick]
  cases first : (children (packfile.entryAt i)).find? (fun k => packfile.named k = cString key) with
  | some k =>
    obtain ⟨sub,listed,there,rest,name⟩ := childAt image built place isDirectory (List.mem_of_find?_eq_some first)
    have same := List.find?_some first
    rw [decide_eq_true_iff,childNamed built member listed name] at same
    exact ⟨sub,⟨listed,.inl same⟩,there⟩
  | none =>
    have other : ∀ sub ∈ d.m_subEntries, sub.m_name ≠ cString key := by
      intro sub listed
      obtain ⟨k,mem,name⟩ := List.mem_map.mp (childListed image built place isDirectory listed)
      simpa [name] using List.find?_eq_none.mp first k mem
    cases second : (children (packfile.entryAt i)).find? (fun k => sameUpToCase (cString key) (packfile.named k)) with
    | some k =>
      obtain ⟨sub,listed,there,rest,name⟩ := childAt image built place isDirectory (List.mem_of_find?_eq_some second)
      have same := List.find?_some second
      rw [decide_eq_true_iff,childNamed built member listed name] at same
      exact ⟨sub,⟨listed,.inr ⟨other,same⟩⟩,there⟩
    | none =>
      intro sub listed
      obtain ⟨k,mem,name⟩ := List.mem_map.mp (childListed image built place isDirectory listed)
      simpa [name] using List.find?_eq_none.mp second k mem

end

theorem findChildNamed {d sub : Entry}
    (place : At i d) (isDirectory : d.m_isDirectory = true) (mem : sub ∈ d.m_subEntries) :
    ∃ k, packfile.findChild (packfile.entryAt i) sub.m_name = some k ∧ At k sub := by
  obtain ⟨distinct,valid⟩ := built.subs (image.member place)
  have plain := cStringPlain (valid sub mem).unterminated
  have picks := findChildPicks image built place isDirectory sub.m_name
  cases found : packfile.findChild (packfile.entryAt i) sub.m_name with
  | none =>
    rw [found,plain] at picks
    exact absurd rfl (picks sub mem)
  | some k =>
    rw [found,plain] at picks
    obtain ⟨sub',⟨mem',named | ⟨other,-⟩⟩,child⟩ := picks
    · rw [List.inj_on_of_nodup_map distinct mem' mem (named.trans plain)] at child
      exact ⟨k,rfl,child⟩
    · exact absurd plain.symm (other sub mem)

end

variable (steps : Nat)

theorem loopSlash {relativePath name rest : Text} {i pos : Nat} (isDirectory : (packfile.entryAt i).isDirectory = true)
    (from' : relativePath.drop pos = name ++ byte '/' :: rest) (plain : byte '/' ∉ name) (some' : name ≠ []) :
    ∃ pos', relativePath.drop pos' = rest.dropWhile (fun b => b = byte '/') ∧
      packfile.findEntryLoop relativePath (steps + 1) i pos =
        (packfile.findChild (packfile.entryAt i) name).elim (some none) (fun k => packfile.findEntryLoop relativePath steps k pos') := by
  have slash := findSlashFound from' plain
  have key : (relativePath.take (pos + name.length)).drop pos = name := by
    rw [List.drop_take,Nat.add_sub_cancel_left,from',List.take_left]
  have after : relativePath.drop (pos + name.length + 1) = rest := by
    rw [Nat.add_assoc,← List.drop_drop,from',← List.drop_drop,List.drop_left]
    rfl
  refine ⟨skipSlashes relativePath (pos + name.length + 1),by rw [skipSlashesDrop,after],?_⟩
  simp only [findEntryLoop,isDirectory,if_true,slash,key,some',if_false]
  cases packfile.findChild (packfile.entryAt i) name <;> rfl

theorem loopLast {relativePath : Text} {i pos : Nat} (isDirectory : (packfile.entryAt i).isDirectory = true)
    (plain : byte '/' ∉ relativePath.drop pos) (some' : relativePath.drop pos ≠ []) :
    packfile.findEntryLoop relativePath (steps + 1) i pos =
      (packfile.findChild (packfile.entryAt i) (relativePath.drop pos)).elim (some none)
        (fun k => packfile.findEntryLoop relativePath steps k (skipSlashes relativePath 0)) := by
  have slash := findSlashNone plain
  simp only [findEntryLoop,isDirectory,if_true,slash,some',if_false]
  cases packfile.findChild (packfile.entryAt i) (relativePath.drop pos) <;> rfl

theorem loopEnd {relativePath : Text} {steps i pos : Nat} (finished : relativePath.drop pos = []) :
    packfile.findEntryLoop relativePath (steps + 1) i pos = some (some i) := by
  have slash : findSlash relativePath pos = none := findSlashNone (by rw [finished]; exact List.not_mem_nil)
  simp [findEntryLoop,slash,finished]

theorem loopFile (relativePath : Text) {i : Nat} (pos : Nat) (isFile : (packfile.entryAt i).isDirectory = false) :
    packfile.findEntryLoop relativePath (steps + 1) i pos = some (some i) := by
  simp [findEntryLoop,isFile]

theorem subSmaller {d sub : Entry} (mem : sub ∈ d.m_subEntries) : sub.all.length < d.all.length := by
  have sublist : sub.all.length ≤ (d.m_subEntries.flatMap all).length := (infixFlatMap mem all).length_le
  rw [allSplit d,List.length_cons]
  omega

theorem loopEnds (image : Image OpenRead root packfile At) (built : Built root files) {relativePath : Text} {steps i pos : Nat}
    {d : Entry} (place : At i d) (enough : d.all.length ≤ steps) :
    (packfile.findEntryLoop relativePath steps i pos).isSome = true := by
  induction steps generalizing i pos d with
  | zero =>
    have some' := List.length_pos_of_mem (selfMemAll d)
    omega
  | succ steps ih =>
    unfold findEntryLoop
    split
    · rename_i isDirectory
      rw [image.directory place] at isDirectory
      extract_lets nextPos key
      have picks := findChildPicks image built place isDirectory key
      split
      · rfl
      · split
        · rfl
        · rename_i k found
          rw [found] at picks
          obtain ⟨sub,⟨mem,-⟩,child⟩ := picks
          have smaller := subSmaller mem
          exact ih child (by omega)
    · rfl

def Closed (path : Text) : Prop := ∀ b, path.getLast? = some b → b = byte '/'

theorem Closed.skip {path : Text} (closed : Closed path) : Closed (path.dropWhile (fun b => b = byte '/')) := by
  intro b last
  have cut := List.takeWhile_append_dropWhile (p := fun b => decide (b = byte '/')) (l := path)
  refine closed b ?_
  rw [← cut,List.getLast?_append,last]
  rfl

theorem Closed.rest {name rest : Text} (closed : Closed (name ++ byte '/' :: rest)) : Closed rest := by
  intro b last
  refine closed b ?_
  rw [List.getLast?_append,List.getLast?_cons,last]
  rfl

theorem slashesSkipped (path : Text) : (path.dropWhile (fun b => b = byte '/')).head? ≠ some (byte '/') := by
  intro same
  have kept := List.head?_dropWhile_not (fun b => decide (b = byte '/')) path
  rw [same] at kept
  simp at kept

theorem loopPart {relativePath : Text} {i pos : Nat} (isDirectory : (packfile.entryAt i).isDirectory = true)
    (head : (relativePath.drop pos).head? ≠ some (byte '/')) (slash : byte '/' ∈ relativePath.drop pos) :
    ∃ name pos', components (relativePath.drop pos) = name :: components (relativePath.drop pos') ∧
      (relativePath.drop pos').head? ≠ some (byte '/') ∧ (relativePath.drop pos').length < (relativePath.drop pos).length ∧
      (Closed (relativePath.drop pos) → Closed (relativePath.drop pos')) ∧
      packfile.findEntryLoop relativePath (steps + 1) i pos =
        (packfile.findChild (packfile.entryAt i) name).elim (some none) (fun k => packfile.findEntryLoop relativePath steps k pos') := by
  obtain ⟨name,rest,from',plain⟩ := List.eq_append_cons_of_mem slash
  have some' : name ≠ [] := by
    rintro rfl
    rw [from'] at head
    exact head rfl
  obtain ⟨pos',next,step⟩ := loopSlash steps isDirectory from' plain some'
  refine ⟨name,pos',?_,next ▸ slashesSkipped rest,?_,fun closed => ?_,step⟩
  · rw [from',componentsSlash plain some',next,componentsSkip]
  · have shorter : (relativePath.drop pos').length ≤ rest.length := next ▸ List.length_dropWhile_le _ rest
    rw [from',List.length_append,List.length_cons]
    omega
  · rw [from'] at closed
    rw [next]
    exact closed.rest.skip

theorem loopFollows (image : Image OpenRead root packfile At) (built : Built root files) {relativePath : Text} {steps i pos k : Nat}
    {d : Entry} (place : At i d) (head : (relativePath.drop pos).head? ≠ some (byte '/'))
    (found : packfile.findEntryLoop relativePath steps i pos = some (some k)) :
    (∃ consumed rest file, components (relativePath.drop pos) = consumed ++ rest ∧ Follows d consumed file ∧
        file.m_isDirectory = false ∧ At k file) ∨
      ∃ last, Follows d (components (relativePath.drop pos)) last ∧ last.m_isDirectory = true ∧
        (Closed (relativePath.drop pos) → At k last) := by
  induction steps generalizing i pos d with
  | zero => cases found
  | succ steps ih =>
    cases isDirectory : d.m_isDirectory with
    | false =>
      rw [loopFile steps relativePath pos (by rw [image.directory place,isDirectory])] at found
      cases found
      exact .inl ⟨[],_,d,rfl,.here d,isDirectory,place⟩
    | true =>
      have here : (packfile.entryAt i).isDirectory = true := by rw [image.directory place,isDirectory]
      by_cases slash : byte '/' ∈ relativePath.drop pos
      · obtain ⟨name,pos',parts,first,-,closing,step⟩ := loopPart steps here head slash
        have picks := findChildPicks image built place isDirectory name
        rw [step] at found
        cases child : packfile.findChild (packfile.entryAt i) name with
        | none =>
          rw [child] at found
          cases found
        | some j =>
          rw [child] at found picks
          obtain ⟨sub,picks,there⟩ := picks
          rw [parts]
          rcases ih there first found with ⟨consumed,left,file,split,follows,isFile,last⟩ | ⟨last,follows,isDirectory',closed⟩
          · exact .inl ⟨name :: consumed,left,file,by rw [split]; rfl,.into picks follows,isFile,last⟩
          · exact .inr ⟨last,.into picks follows,isDirectory',fun whole => closed (closing whole)⟩
      · by_cases finished : relativePath.drop pos = []
        · rw [loopEnd finished] at found
          cases found
          refine .inr ⟨d,?_,isDirectory,fun _ => place⟩
          rw [finished]
          exact .here d
        · have picks := findChildPicks image built place isDirectory (relativePath.drop pos)
          rw [loopLast steps here slash finished] at found
          cases child : packfile.findChild (packfile.entryAt i) (relativePath.drop pos) with
          | none =>
            rw [child] at found
            cases found
          | some j =>
            rw [child] at found picks
            obtain ⟨sub,picks,there⟩ := picks
            rw [componentsLast slash finished]
            cases isFile : sub.m_isDirectory with
            | false =>
              cases steps with
              | zero => cases found
              | succ steps =>
                rw [Option.elim_some,loopFile steps relativePath _ (by rw [image.directory there,isFile])] at found
                cases found
                exact .inl ⟨_,[],sub,(List.append_nil _).symm,.into picks (.here sub),isFile,there⟩
            | true =>
              refine .inr ⟨sub,.into picks (.here sub),isFile,fun closed => ?_⟩
              obtain ⟨b,last⟩ := Option.isSome_iff_exists.mp (List.getLast?_isSome.mpr finished)
              exact absurd (closed b last ▸ List.mem_of_getLast? last) slash

theorem dropNoSlash {path : Text} (head : path.head? ≠ some (byte '/')) : path.dropWhile (fun b => b = byte '/') = path := by
  cases path with
  | nil => rfl
  | cons b rest => exact List.dropWhile_cons_of_neg (by simpa using head)

theorem slashedHead {path : List Text} (valid : ∀ name ∈ path, ValidName name) {tail : Text}
    (head : tail.head? ≠ some (byte '/')) : (slashed path ++ tail).head? ≠ some (byte '/') := by
  cases path with
  | nil => exact head
  | cons name rest =>
    have first := valid name List.mem_cons_self
    cases name with
    | nil => exact absurd rfl first.nonempty
    | cons b name =>
      intro same
      have slash : b = byte '/' := by simpa [slashed] using same
      exact first.noSlash (slash ▸ List.mem_cons_self)

theorem loopDescends (image : Image OpenRead root packfile At) (built : Built root files) {relativePath tail : Text}
    {names : List Text} {i pos : Nat} {d last : Entry} (place : At i d) (reaches : Reaches d names last)
    (valid : ∀ name ∈ names, ValidName name) (head : tail.head? ≠ some (byte '/'))
    (from' : relativePath.drop pos = slashed names ++ tail) :
    ∃ k pos', packfile.findEntryLoop relativePath (steps + names.length) i pos = packfile.findEntryLoop relativePath steps k pos' ∧
      At k last ∧ relativePath.drop pos' = tail := by
  induction reaches generalizing i pos with
  | here d => exact ⟨i,pos,rfl,place,from'⟩
  | @into d sub last path mem rest ih =>
    obtain ⟨first,later⟩ := List.forall_mem_cons.mp valid
    have isDirectory := (built.parent (image.member place) mem).1
    have split : relativePath.drop pos = sub.m_name ++ byte '/' :: (slashed path ++ tail) := by
      rw [from']
      simp [slashed]
    obtain ⟨pos',next,step⟩ := loopSlash (steps + path.length) (by rw [image.directory place,isDirectory]) split first.noSlash
      first.nonempty
    obtain ⟨k,child,there⟩ := findChildNamed image built place isDirectory mem
    rw [dropNoSlash (slashedHead later head)] at next
    obtain ⟨j,pos'',end',found,finished⟩ := ih there later next
    refine ⟨j,pos'',?_,found,finished⟩
    rw [List.length_cons,← Nat.add_assoc,step,child,Option.elim_some,end']

theorem loopDirectory (image : Image OpenRead root packfile At) (built : Built root files) {relativePath : Text}
    {names : List Text} {steps i pos : Nat} {d last : Entry} (place : At i d) (reaches : Reaches d names last)
    (valid : ∀ name ∈ names, ValidName name) (from' : relativePath.drop pos = slashed names) (enough : names.length < steps) :
    ∃ k, packfile.findEntryLoop relativePath steps i pos = some (some k) ∧ At k last := by
  obtain ⟨more,rfl⟩ : ∃ more, steps = more + 1 + names.length := ⟨steps - names.length - 1,by omega⟩
  obtain ⟨k,pos',step,found,finished⟩ := loopDescends (more + 1) image built place reaches valid (by simp)
    (from'.trans (List.append_nil _).symm)
  exact ⟨k,step.trans (loopEnd finished),found⟩

theorem reachesSnoc {d last : Entry} {names : List Text} {name : Text} (reaches : Reaches d (names ++ [name]) last) :
    ∃ parent, Reaches d names parent ∧ last ∈ parent.m_subEntries ∧ last.m_name = name := by
  induction names generalizing d with
  | nil =>
    cases reaches with
    | into mem rest =>
      cases rest with
      | here => exact ⟨d,.here d,mem,rfl⟩
  | cons first names ih =>
    cases reaches with
    | into mem rest =>
      obtain ⟨parent,above,inside,named⟩ := ih rest
      exact ⟨parent,.into mem above,inside,named⟩

theorem loopNamedFile (image : Image OpenRead root packfile At) (built : Built root files) {relativePath : Text}
    {names : List Text} {steps i pos : Nat} {d file : Entry} (place : At i d) (reaches : Reaches d names file)
    (isFile : file.m_isDirectory = false) (some' : names ≠ []) (valid : ∀ name ∈ names, ValidName name)
    (from' : relativePath.drop pos = joined names) (enough : names.length < steps) :
    ∃ k, packfile.findEntryLoop relativePath steps i pos = some (some k) ∧ At k file := by
  rcases List.eq_nil_or_concat' names with rfl | ⟨init,name,rfl⟩
  · exact absurd rfl some'
  · rw [List.length_append,List.length_singleton] at enough
    obtain ⟨more,rfl⟩ : ∃ more, steps = more + 2 + init.length := ⟨steps - init.length - 2,by omega⟩
    obtain ⟨validInit,validName⟩ := List.forall_mem_append.mp valid
    have validName := List.forall_mem_singleton.mp validName
    obtain ⟨parent,above,inside,rfl⟩ := reachesSnoc reaches
    have head : file.m_name.head? ≠ some (byte '/') := by
      intro same
      exact validName.noSlash (List.mem_of_mem_head? same)
    obtain ⟨k,pos',step,found,finished⟩ := loopDescends (more + 2) image built place above validInit head
      (from'.trans (joinedSnoc init file.m_name))
    have isDirectory := (built.parent (image.member found) inside).1
    obtain ⟨j,child,there⟩ := findChildNamed image built found isDirectory inside
    have last := loopLast (more + 1) (by rw [image.directory found,isDirectory])
      (show byte '/' ∉ relativePath.drop pos' by rw [finished]; exact validName.noSlash) (by rw [finished]; exact validName.nonempty)
    rw [finished,child,Option.elim_some] at last
    have found' := loopFile more relativePath (skipSlashes relativePath 0) (by rw [image.directory there,isFile])
    exact ⟨j,step.trans (last.trans found'),there⟩

end
end Citizen.Packfile
