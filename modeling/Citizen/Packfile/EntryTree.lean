import Citizen.Packfile.PackfileBuilder
import Mathlib.Data.List.Induction

/-! The tree of entries after files with distinct paths were added: exactly these files, in directories that hold
nothing else. -/
namespace Citizen.Packfile
open BitField (Byte)

def joined : List Text → Text
  | [] => []
  | [name] => name
  | name :: rest => name ++ byte '/' :: joined rest

def slashed (path : List Text) : Text := path.flatMap (fun name => name ++ [byte '/'])

structure ValidName (name : Text) : Prop where
  nonempty : name ≠ []
  plain : ∀ b ∈ name, separator b = false
  unterminated : 0 ∉ name

theorem joinedCons {name : Text} {rest : List Text} (more : rest ≠ []) :
    joined (name :: rest) = name ++ byte '/' :: joined rest := by
  cases rest with
  | nil => exact absurd rfl more
  | cons next rest => rfl

theorem joinedAppend (path : List Text) {rest : List Text} (more : rest ≠ []) :
    joined (path ++ rest) = slashed path ++ joined rest := by
  induction path with
  | nil => rfl
  | cons name path ih =>
    rw [List.cons_append,joinedCons (List.append_ne_nil_of_right_ne_nil _ more),ih]
    simp [slashed]

theorem joinedSnoc (path : List Text) (name : Text) : joined (path ++ [name]) = slashed path ++ name :=
  joinedAppend path (List.cons_ne_nil _ _)

theorem ValidName.noSlash {name : Text} (valid : ValidName name) : byte '/' ∉ name := fun mem =>
  absurd (valid.plain _ mem) (by decide)

variable {path : List Text}

theorem joinedEmpty (valid : ∀ name ∈ path, ValidName name) (empty : joined path = []) : path = [] := by
  cases path with
  | nil => rfl
  | cons name rest =>
    cases rest with
    | nil => exact absurd empty (valid name List.mem_cons_self).nonempty
    | cons next rest => simp [joined] at empty

theorem slashSame {a b x y : Text} (plainA : byte '/' ∉ a) (plainB : byte '/' ∉ b)
    (same : a ++ byte '/' :: x = b ++ byte '/' :: y) : a = b ∧ x = y := by
  induction a generalizing b with
  | nil =>
    cases b with
    | nil => exact ⟨rfl,(List.cons.inj same).2⟩
    | cons c b => exact absurd (by rw [(List.cons.inj same).1]; exact List.mem_cons_self) plainB
  | cons c a ih =>
    obtain ⟨other,plainA⟩ := List.ne_and_not_mem_of_not_mem_cons plainA
    cases b with
    | nil => exact absurd (List.cons.inj same).1.symm other
    | cons d b =>
      obtain ⟨rfl,later⟩ := List.cons.inj same
      obtain ⟨rfl,rest⟩ := ih plainA (fun mem => plainB (List.mem_cons_of_mem _ mem)) later
      exact ⟨rfl,rest⟩

theorem joinedInjective {path path' : List Text} (valid : ∀ name ∈ path, ValidName name)
    (valid' : ∀ name ∈ path', ValidName name) (same : joined path = joined path') : path = path' := by
  induction path generalizing path' with
  | nil => exact (joinedEmpty valid' same.symm).symm
  | cons name rest ih =>
    obtain ⟨first,later⟩ := List.forall_mem_cons.mp valid
    cases path' with
    | nil => exact joinedEmpty valid same
    | cons name' rest' =>
      obtain ⟨first',later'⟩ := List.forall_mem_cons.mp valid'
      cases rest with
      | nil =>
        cases rest' with
        | nil => rw [show name = name' from same]
        | cons next' rest' =>
          rw [joinedCons (List.cons_ne_nil _ _)] at same
          exact absurd (show byte '/' ∈ name by rw [show name = _ from same]; simp) first.noSlash
      | cons next rest =>
        rw [joinedCons (List.cons_ne_nil _ _)] at same
        cases rest' with
        | nil => exact absurd (show byte '/' ∈ name' by rw [show name' = _ from same.symm]; simp) first'.noSlash
        | cons next' rest' =>
          rw [joinedCons (List.cons_ne_nil _ _)] at same
          obtain ⟨rfl,tail⟩ := slashSame first.noSlash first'.noSlash same
          rw [ih later later' tail]

theorem lastAfterSlash {last : Text} (some' : path ≠ []) (plain : ∀ b ∈ last, separator b = false) :
    ((slashed path ++ last).reverse.takeWhile (fun b => !separator b)).reverse = last := by
  rcases List.eq_nil_or_concat' path with rfl | ⟨init,name,rfl⟩
  · exact absurd rfl some'
  · have split : (slashed (init ++ [name]) ++ last).reverse = last.reverse ++ byte '/' :: (slashed init ++ name).reverse := by
      simp [slashed]
    rw [split,List.takeWhile_append_of_pos (fun b mem => by simp [plain b (List.mem_reverse.mp mem)]),
      List.takeWhile_cons_of_neg (by decide),List.append_nil,List.reverse_reverse]

theorem joinedStart (valid : ∀ name ∈ path, ValidName name) : separator ((joined path).getD 0 0) = false := by
  cases path with
  | nil => decide
  | cons name rest =>
    have first := valid name List.mem_cons_self
    cases name with
    | nil => exact absurd rfl first.nonempty
    | cons b name =>
      have plain := first.plain b List.mem_cons_self
      cases rest <;> simpa [joined] using plain

theorem findSeparatorPlain (front : Text) {name rest : Text} (plain : ∀ b ∈ name, separator b = false) :
    findSeparator (front ++ (name ++ byte '/' :: rest)) front.length = some (front.length + name.length) := by
  have found : (name ++ byte '/' :: rest).findIdx? separator = some name.length := by
    rw [List.findIdx?_eq_some_iff_getElem]
    refine ⟨by simp,?_,fun j before => ?_⟩
    · simp [separator]
    · simp [List.getElem_append_left before,plain]
  rw [findSeparator,List.drop_left,found,Option.map_some,Nat.add_comm]

theorem findSeparatorNone (front : Text) {rest : Text} (plain : ∀ b ∈ rest, separator b = false) :
    findSeparator (front ++ rest) front.length = none := by
  rw [findSeparator,List.drop_left,List.findIdx?_eq_none_iff.mpr plain,Option.map_none]

namespace Entry

inductive Shaped : List Text → Entry → Prop where
  | file {path : List Text} {entry : Entry} (isFile : entry.m_isDirectory = false) (alone : entry.m_subEntries = [])
      (full : entry.m_fullName = joined path) : Shaped path entry
  | directory {path : List Text} {entry : Entry} (isDirectory : entry.m_isDirectory = true)
      (full : entry.m_fullName = joined path) (distinct : (entry.m_subEntries.map m_name).Nodup)
      (valid : ∀ sub ∈ entry.m_subEntries, ValidName sub.m_name)
      (filled : ∀ sub ∈ entry.m_subEntries, sub.m_isDirectory = true → sub.m_subEntries ≠ [])
      (below : ∀ sub ∈ entry.m_subEntries, Shaped (path ++ [sub.m_name]) sub) : Shaped path entry

inductive Reaches : Entry → List Text → Entry → Prop where
  | here (entry : Entry) : Reaches entry [] entry
  | into {entry sub last : Entry} {path : List Text} (mem : sub ∈ entry.m_subEntries) (rest : Reaches sub path last) :
      Reaches entry (sub.m_name :: path) last

def HoldsFile (entry : Entry) (path : List Text) (backing : Text) : Prop :=
  ∃ file, Reaches entry path file ∧ file.m_isDirectory = false ∧ file.m_backingFile = backing

def Free (entry : Entry) (path : List Text) : Prop := ∀ q b, entry.HoldsFile q b → ¬q <+: path ∧ ¬path <+: q

variable {path rest : List Text} {entry sub : Entry} {name backing : Text}

theorem Shaped.full (shaped : Shaped path entry) : entry.m_fullName = joined path := by
  cases shaped with
  | file isFile alone full => exact full
  | directory isDirectory full => exact full

theorem holdsFileHere (isFile : entry.m_isDirectory = false) : entry.HoldsFile [] entry.m_backingFile :=
  ⟨entry,.here entry,isFile,rfl⟩

theorem holdsFileBelow (isDirectory : entry.m_isDirectory = true) :
    entry.HoldsFile path backing ↔ ∃ sub ∈ entry.m_subEntries, ∃ rest, path = sub.m_name :: rest ∧ sub.HoldsFile rest backing := by
  constructor
  · rintro ⟨file,reaches,isFile,same⟩
    cases reaches with
    | here => rw [isDirectory] at isFile; cases isFile
    | @into _ sub _ rest mem inside => exact ⟨sub,mem,rest,rfl,file,inside,isFile,same⟩
  · rintro ⟨sub,mem,rest,rfl,file,inside,isFile,same⟩
    exact ⟨file,.into mem inside,isFile,same⟩

theorem Shaped.holdsSome (shaped : Shaped path entry) (more : entry.m_isDirectory = true → entry.m_subEntries ≠ []) :
    ∃ q b, entry.HoldsFile q b := by
  induction shaped with
  | file isFile alone full => exact ⟨[],_,holdsFileHere isFile⟩
  | @directory path entry isDirectory full distinct valid filled below ih =>
    obtain ⟨sub,mem⟩ := List.exists_mem_of_ne_nil _ (more isDirectory)
    obtain ⟨q,b,inside⟩ := ih sub mem (filled sub mem)
    exact ⟨_,b,(holdsFileBelow isDirectory).mpr ⟨sub,mem,q,rfl,inside⟩⟩

theorem Free.noSub {last : Text} (free : Free entry [last]) (shaped : Shaped path entry) (isDirectory : entry.m_isDirectory = true)
    (mem : sub ∈ entry.m_subEntries) : sub.m_name ≠ last := by
  rintro rfl
  cases shaped with
  | file isFile => rw [isDirectory] at isFile; cases isFile
  | directory _ _ _ _ filled below =>
    obtain ⟨q,b,inside⟩ := (below sub mem).holdsSome (filled sub mem)
    exact (free _ b ((holdsFileBelow isDirectory).mpr ⟨sub,mem,q,rfl,inside⟩)).2 ⟨q,rfl⟩

section
variable (free : Free entry (sub.m_name :: rest)) (isDirectory : entry.m_isDirectory = true)
  (mem : sub ∈ entry.m_subEntries)
include free isDirectory mem

theorem Free.descend : Free sub rest := by
  intro q b inside
  have apart := free _ b ((holdsFileBelow isDirectory).mpr ⟨sub,mem,q,rfl,inside⟩)
  exact ⟨fun before => apart.1 (List.cons_prefix_cons.mpr ⟨rfl,before⟩),
    fun after => apart.2 (List.cons_prefix_cons.mpr ⟨rfl,after⟩)⟩

theorem Free.subDirectory : sub.m_isDirectory = true := by
  cases isFile : sub.m_isDirectory with
  | true => rfl
  | false =>
    have inside := (holdsFileBelow isDirectory).mpr ⟨sub,mem,[],rfl,holdsFileHere isFile⟩
    exact absurd (List.cons_prefix_cons.mpr ⟨rfl,List.nil_prefix⟩) (free _ _ inside).1

end

def Adds (path : List Text) (change : Entry → Entry) (rest : List Text) (backing : Text) : Prop :=
  ∀ entry, Shaped path entry → entry.m_isDirectory = true → Free entry rest →
    Shaped path (change entry) ∧ (change entry).m_isDirectory = true ∧ (change entry).m_name = entry.m_name ∧
      (change entry).m_subEntries ≠ [] ∧
      ∀ q b, (change entry).HoldsFile q b ↔ entry.HoldsFile q b ∨ (q = rest ∧ b = backing)

def atName (name : Text) (fresh : Entry) (change : Entry → Entry) (entry : Entry) : Entry :=
  match entry.m_subEntries.findIdx? (fun sub => sub.m_name = name) with
  | some i =>
    { entry with m_subEntries := entry.m_subEntries.modify i (fun sub => if sub.m_isDirectory then change sub else sub) }
  | none => { entry with m_subEntries := entry.m_subEntries ++ [change fresh] }

theorem replaceAdds {front back : List Entry} {new : Entry} (subs : entry.m_subEntries = front ++ sub :: back)
    (shaped : Shaped path entry) (isDirectory : entry.m_isDirectory = true) (newShaped : Shaped (path ++ [sub.m_name]) new)
    (newName : new.m_name = sub.m_name) (newFilled : new.m_subEntries ≠ [])
    (newHolds : ∀ q b, new.HoldsFile q b ↔ sub.HoldsFile q b ∨ (q = rest ∧ b = backing)) :
    Shaped path { entry with m_subEntries := front ++ new :: back } ∧
      ∀ q b, HoldsFile { entry with m_subEntries := front ++ new :: back } q b ↔
        entry.HoldsFile q b ∨ (q = sub.m_name :: rest ∧ b = backing) := by
  constructor
  · cases shaped with
    | file isFile => rw [isDirectory] at isFile; cases isFile
    | directory _ full distinct valid filled below =>
      rw [subs] at distinct valid filled below
      simp only [List.forall_mem_append,List.forall_mem_cons] at valid filled below
      refine .directory isDirectory full (by simpa [newName] using distinct) ?_ ?_ ?_
      · exact List.forall_mem_append.mpr ⟨valid.1,List.forall_mem_cons.mpr ⟨newName ▸ valid.2.1,valid.2.2⟩⟩
      · exact List.forall_mem_append.mpr ⟨filled.1,List.forall_mem_cons.mpr ⟨fun _ => newFilled,filled.2.2⟩⟩
      · exact List.forall_mem_append.mpr ⟨below.1,List.forall_mem_cons.mpr ⟨newName ▸ newShaped,below.2.2⟩⟩
  · intro q b
    have still : ({ entry with m_subEntries := front ++ new :: back } : Entry).m_isDirectory = true := isDirectory
    rw [holdsFileBelow still,holdsFileBelow isDirectory,subs]
    simp only [List.mem_append,List.mem_cons]
    constructor
    · rintro ⟨other,mem | rfl | mem,q',rfl,inside⟩
      · exact .inl ⟨other,.inl mem,q',rfl,inside⟩
      · rcases (newHolds q' b).mp inside with old | ⟨rfl,rfl⟩
        · exact .inl ⟨sub,.inr (.inl rfl),q',by rw [newName],old⟩
        · exact .inr ⟨by rw [newName],rfl⟩
      · exact .inl ⟨other,.inr (.inr mem),q',rfl,inside⟩
    · rintro (⟨other,mem | rfl | mem,q',rfl,inside⟩ | ⟨rfl,rfl⟩)
      · exact ⟨other,.inl mem,q',rfl,inside⟩
      · exact ⟨new,.inr (.inl rfl),q',by rw [newName],(newHolds q' b).mpr (.inl inside)⟩
      · exact ⟨other,.inr (.inr mem),q',rfl,inside⟩
      · exact ⟨new,.inr (.inl rfl),rest,by rw [newName],(newHolds rest b).mpr (.inr ⟨rfl,rfl⟩)⟩

theorem appendAdds {new : Entry} (fresh : ∀ sub ∈ entry.m_subEntries, sub.m_name ≠ new.m_name) (valid : ValidName new.m_name)
    (shaped : Shaped path entry) (isDirectory : entry.m_isDirectory = true) (newShaped : Shaped (path ++ [new.m_name]) new)
    (newFilled : new.m_isDirectory = true → new.m_subEntries ≠ [])
    (newHolds : ∀ q b, new.HoldsFile q b ↔ q = rest ∧ b = backing) :
    Shaped path { entry with m_subEntries := entry.m_subEntries ++ [new] } ∧
      ∀ q b, HoldsFile { entry with m_subEntries := entry.m_subEntries ++ [new] } q b ↔
        entry.HoldsFile q b ∨ (q = new.m_name :: rest ∧ b = backing) := by
  constructor
  · cases shaped with
    | file isFile => rw [isDirectory] at isFile; cases isFile
    | directory _ full distinct valid' filled below =>
      refine .directory isDirectory full ?_ ?_ ?_ ?_
      · rw [List.map_append,List.nodup_append]
        refine ⟨distinct,List.nodup_singleton _,?_⟩
        intro taken old name here
        obtain ⟨sub,inside,rfl⟩ := List.mem_map.mp old
        rw [List.map_singleton,List.mem_singleton] at here
        rw [here]
        exact fresh sub inside
      · exact List.forall_mem_append.mpr ⟨valid',List.forall_mem_singleton.mpr valid⟩
      · exact List.forall_mem_append.mpr ⟨filled,List.forall_mem_singleton.mpr newFilled⟩
      · exact List.forall_mem_append.mpr ⟨below,List.forall_mem_singleton.mpr newShaped⟩
  · intro q b
    have still : ({ entry with m_subEntries := entry.m_subEntries ++ [new] } : Entry).m_isDirectory = true := isDirectory
    rw [holdsFileBelow still,holdsFileBelow isDirectory]
    simp only [List.mem_append,List.mem_singleton]
    constructor
    · rintro ⟨sub,mem | rfl,q',rfl,inside⟩
      · exact .inl ⟨sub,mem,q',rfl,inside⟩
      · obtain ⟨rfl,rfl⟩ := (newHolds q' b).mp inside
        exact .inr ⟨rfl,rfl⟩
    · rintro (⟨sub,mem,q',rfl,inside⟩ | ⟨rfl,rfl⟩)
      · exact ⟨sub,.inl mem,q',rfl,inside⟩
      · exact ⟨new,.inr rfl,rest,rfl,(newHolds rest b).mpr ⟨rfl,rfl⟩⟩

theorem pushAdds (path : List Text) (backing : Text) (valid : ValidName name) :
    Adds path (push ⟨name,false,[],backing,joined (path ++ [name])⟩) [name] backing := by
  intro entry shaped isDirectory free
  have holds (q : List Text) (b : Text) :
      HoldsFile ⟨name,false,[],backing,joined (path ++ [name])⟩ q b ↔ q = [] ∧ b = backing := by
    constructor
    · rintro ⟨file,reaches,-,same⟩
      cases reaches with
      | here => exact ⟨rfl,same.symm⟩
      | into mem => cases mem
    · rintro ⟨rfl,rfl⟩
      exact holdsFileHere rfl
  obtain ⟨shaped',holds'⟩ := appendAdds (fun sub mem => free.noSub shaped isDirectory mem) valid shaped isDirectory
    (.file rfl rfl rfl) (fun other => by cases other) holds
  exact ⟨shaped',isDirectory,rfl,by simp [push],holds'⟩

theorem atNameAdds {change : Entry → Entry} (valid : ValidName name) (adds : Adds (path ++ [name]) change rest backing) :
    Adds path (atName name ⟨name,true,[],[],joined (path ++ [name])⟩ change) (name :: rest) backing := by
  intro entry shaped isDirectory free
  unfold atName
  split
  · rename_i i found
    obtain ⟨inside,named,-⟩ := List.findIdx?_eq_some_iff_getElem.mp found
    have named : entry.m_subEntries[i].m_name = name := of_decide_eq_true named
    have mem := List.getElem_mem inside
    subst name
    have below : Shaped (path ++ [entry.m_subEntries[i].m_name]) entry.m_subEntries[i] := by
      cases shaped with
      | file isFile => rw [isDirectory] at isFile; cases isFile
      | directory _ _ _ _ _ below => exact below _ mem
    have deeper := free.subDirectory isDirectory mem
    obtain ⟨newShaped,-,newName,newFilled,newHolds⟩ := adds _ below deeper (free.descend isDirectory mem)
    have split : entry.m_subEntries = entry.m_subEntries.take i ++ entry.m_subEntries[i] :: entry.m_subEntries.drop (i + 1) := by
      rw [← List.drop_eq_getElem_cons inside,List.take_append_drop]
    obtain ⟨shaped',holds'⟩ := replaceAdds split shaped isDirectory newShaped newName newFilled newHolds
    rw [List.modify_eq_take_cons_drop inside,if_pos deeper]
    exact ⟨shaped',isDirectory,rfl,by simp,holds'⟩
  · rename_i absent
    have fresh : ∀ sub ∈ entry.m_subEntries, sub.m_name ≠ name := by
      simpa using List.findIdx?_eq_none_iff.mp absent
    have empty : ∀ q b, ¬HoldsFile ⟨name,true,[],[],joined (path ++ [name])⟩ q b := by
      intro q b holds
      obtain ⟨sub,mem,-⟩ := (holdsFileBelow rfl).mp holds
      cases mem
    have start : Shaped (path ++ [name]) ⟨name,true,[],[],joined (path ++ [name])⟩ :=
      .directory rfl rfl List.nodup_nil (fun _ none => absurd none List.not_mem_nil) (fun _ none => absurd none List.not_mem_nil)
        (fun _ none => absurd none List.not_mem_nil)
    obtain ⟨newShaped,-,newName,newFilled,newHolds⟩ := adds _ start rfl (fun q b holds => absurd holds (empty q b))
    obtain ⟨shaped',holds'⟩ := appendAdds (by rw [newName]; exact fresh) (by rw [newName]; exact valid) shaped isDirectory
      (by rw [newName]; exact newShaped) (fun _ => newFilled) (fun q b => (newHolds q b).trans (or_iff_right (empty q b)))
    rw [newName] at holds'
    exact ⟨shaped',isDirectory,rfl,by simp,holds'⟩

theorem findDirectoryName {front name rest : Text} (change : Entry → Entry) (plain : ∀ b ∈ name, separator b = false)
    (next : separator (rest.getD 0 0) = false) (entry : Entry) :
    FindDirectory (front ++ (name ++ byte '/' :: rest)) change front.length entry =
      atName name ⟨name,true,[],[],front ++ name⟩
        (fun thisEntry =>
          if rest.any separator then
            FindDirectory (front ++ (name ++ byte '/' :: rest)) change (front ++ (name ++ [byte '/'])).length thisEntry
          else change thisEntry) entry := by
  have place : findSeparator (front ++ (name ++ byte '/' :: rest)) front.length = some (front.length + name.length) :=
    findSeparatorPlain front plain
  have after : (front ++ (name ++ byte '/' :: rest)).getD (front.length + name.length + 1) 0 = rest.getD 0 0 := by
    simp [List.getElem?_append_right,Nat.add_assoc]
  have own : (front ++ (name ++ byte '/' :: rest)).take (front.length + name.length) = front ++ name := by
    rw [← List.append_assoc,← List.length_append,List.take_left]
  have length : (front ++ (name ++ [byte '/'])).length = front.length + name.length + 1 := by simp [Nat.add_assoc]
  have more : (findSeparator (front ++ (name ++ byte '/' :: rest)) (front.length + name.length + 1)).isSome = rest.any separator := by
    rw [findSeparator,← length,show front ++ (name ++ byte '/' :: rest) = (front ++ (name ++ [byte '/'])) ++ rest by simp,
      List.drop_left,Option.isSome_map,List.findIdx?_isSome]
  rw [FindDirectory,atName,length]
  split
  · rename_i none
    rw [place] at none
    cases none
  · rename_i initialPos found
    rw [place] at found
    cases found
    cases there : entry.m_subEntries.findIdx? (fun sub => sub.m_name = name) <;>
      simp only [after,next,own,more,List.drop_left,there,Bool.false_eq_true,if_false]

theorem findDirectoryAdds {dirs : List Text} {last : Text} (some' : dirs ≠ []) (valid : ∀ name ∈ dirs, ValidName name)
    (validLast : ValidName last) (path : List Text) (backing : Text) :
    Adds path (FindDirectory (joined (path ++ (dirs ++ [last])))
      (push ⟨last,false,[],backing,joined (path ++ (dirs ++ [last]))⟩) (slashed path).length) (dirs ++ [last]) backing := by
  induction dirs generalizing path with
  | nil => exact absurd rfl some'
  | cons name rest ih =>
    obtain ⟨first,later⟩ := List.forall_mem_cons.mp valid
    have text : joined (path ++ (name :: rest ++ [last])) = slashed path ++ (name ++ byte '/' :: joined (rest ++ [last])) := by
      rw [joinedAppend path (List.append_ne_nil_of_left_ne_nil (List.cons_ne_nil _ _) _),List.cons_append,
        joinedCons (List.append_ne_nil_of_right_ne_nil _ (List.cons_ne_nil _ _))]
    have next : separator ((joined (rest ++ [last])).getD 0 0) = false :=
      joinedStart (List.forall_mem_append.mpr ⟨later,List.forall_mem_singleton.mpr validLast⟩)
    have own : slashed path ++ name = joined (path ++ [name]) := (joinedSnoc path name).symm
    have step : FindDirectory (joined (path ++ (name :: rest ++ [last])))
        (push ⟨last,false,[],backing,joined (path ++ (name :: rest ++ [last]))⟩) (slashed path).length =
        atName name ⟨name,true,[],[],joined (path ++ [name])⟩ (fun thisEntry =>
          if (joined (rest ++ [last])).any separator then
            FindDirectory (joined (path ++ (name :: rest ++ [last])))
              (push ⟨last,false,[],backing,joined (path ++ (name :: rest ++ [last]))⟩)
              (slashed path ++ (name ++ [byte '/'])).length thisEntry
          else push ⟨last,false,[],backing,joined (path ++ (name :: rest ++ [last]))⟩ thisEntry) := by
      funext entry
      rw [text,findDirectoryName _ first.plain next,own]
    rw [step]
    refine atNameAdds first ?_
    cases rest with
    | nil =>
      have plain : (joined ([] ++ [last])).any separator = false := by simpa [joined] using validLast.plain
      simp only [plain,Bool.false_eq_true,if_false]
      simpa using pushAdds (path ++ [name]) backing validLast
    | cons name' rest =>
      have more : (joined (name' :: rest ++ [last])).any separator = true := by
        rw [List.cons_append,joinedCons (List.append_ne_nil_of_right_ne_nil _ (List.cons_ne_nil _ _))]
        simp [separator]
      simp only [more,if_true]
      simpa [slashed] using ih (List.cons_ne_nil _ _) later (path ++ [name])

theorem addFileAdds {OpenRead : Text → Option Text} {backing : Text} (readable : (OpenRead backing).isSome = true) {file : List Text}
    (some' : file ≠ []) (valid : ∀ name ∈ file, ValidName name) :
    Adds [] (fun entry => entry.AddFile OpenRead (joined file) backing) file backing := by
  rcases List.eq_nil_or_concat' file with rfl | ⟨dirs,last,rfl⟩
  · exact absurd rfl some'
  · obtain ⟨validDirs,validLast⟩ := List.forall_mem_append.mp valid
    have validLast := List.forall_mem_singleton.mp validLast
    have found : ¬(OpenRead backing).isNone = true := by simpa [Option.isSome_iff_ne_none] using readable
    cases dirs with
    | nil =>
      have whole : findSeparator (joined [last]) 0 = none := findSeparatorNone [] validLast.plain
      have same : (fun entry : Entry => entry.AddFile OpenRead (joined ([] ++ [last])) backing) =
          push ⟨last,false,[],backing,joined ([] ++ [last])⟩ := by
        funext entry
        simp only [AddFile,if_neg found,List.nil_append,whole]
        rfl
      rw [same]
      exact pushAdds [] backing validLast
    | cons name rest =>
      have text : joined (name :: rest ++ [last]) = name ++ byte '/' :: joined (rest ++ [last]) := by
        rw [List.cons_append,joinedCons (List.append_ne_nil_of_right_ne_nil _ (List.cons_ne_nil _ _))]
      have whole : findSeparator (joined (name :: rest ++ [last])) 0 = some name.length := by
        rw [text]
        simpa using findSeparatorPlain [] (validDirs name List.mem_cons_self).plain
      have lastName : ((joined (name :: rest ++ [last])).reverse.takeWhile (fun b => !separator b)).reverse = last := by
        rw [joinedSnoc]
        exact lastAfterSlash (List.cons_ne_nil _ _) validLast.plain
      have same : (fun entry : Entry => entry.AddFile OpenRead (joined (name :: rest ++ [last])) backing) =
          FindDirectory (joined (name :: rest ++ [last])) (push ⟨last,false,[],backing,joined (name :: rest ++ [last])⟩) 0 := by
        funext entry
        simp only [AddFile,if_neg found,whole,lastName]
      rw [same]
      exact findDirectoryAdds (List.cons_ne_nil _ _) validDirs validLast [] backing

end Entry

abbrev Files := List (List Text × Text)

structure Normalised (files : Files) : Prop where
  nonempty : ∀ file ∈ files, file.1 ≠ []
  valid : ∀ file ∈ files, ∀ name ∈ file.1, ValidName name
  apart : files.Pairwise (fun a b => ¬a.1 <+: b.1 ∧ ¬b.1 <+: a.1)

def Readable (OpenRead : Text → Option Text) (files : Files) : Prop := ∀ file ∈ files, (OpenRead file.2).isSome = true

def PackfileBuilder.of (OpenRead : Text → Option Text) (files : Files) : PackfileBuilder :=
  files.foldl (fun builder file => builder.AddFile OpenRead (joined file.1) file.2) .new

open Entry

structure Built (root : Entry) (files : Files) : Prop where
  shaped : Shaped [] root
  isDirectory : root.m_isDirectory = true
  unnamed : root.m_name = []
  holds : ∀ path backing, root.HoldsFile path backing ↔ (path,backing) ∈ files

theorem builtOf {OpenRead : Text → Option Text} {files : Files} (normalised : Normalised files)
    (readable : Readable OpenRead files) : Built (PackfileBuilder.of OpenRead files).m_rootEntry files := by
  induction files using List.reverseRecOn with
  | nil =>
    refine ⟨.directory rfl rfl List.nodup_nil ?_ ?_ ?_,rfl,rfl,fun path backing => ?_⟩
    · exact fun _ none => absurd none List.not_mem_nil
    · exact fun _ none => absurd none List.not_mem_nil
    · exact fun _ none => absurd none List.not_mem_nil
    · refine iff_of_false (fun holds => ?_) List.not_mem_nil
      obtain ⟨sub,mem,-⟩ := (holdsFileBelow rfl).mp holds
      cases mem
  | append_singleton files file ih =>
    obtain ⟨nonempty,valid,apart⟩ := normalised
    simp only [List.forall_mem_append,List.forall_mem_singleton] at nonempty valid
    obtain ⟨apart,-,new⟩ := List.pairwise_append.mp apart
    have readable := List.forall_mem_append.mp readable
    have built := ih ⟨nonempty.1,valid.1,apart⟩ readable.1
    have free : Free (PackfileBuilder.of OpenRead files).m_rootEntry file.1 := fun q b holds =>
      new (q,b) ((built.holds q b).mp holds) file (List.mem_singleton_self file)
    obtain ⟨shaped,isDirectory,unnamed,-,holds⟩ := addFileAdds (readable.2 file (List.mem_singleton_self file)) nonempty.2 valid.2
      _ built.shaped built.isDirectory free
    have step : (PackfileBuilder.of OpenRead (files ++ [file])).m_rootEntry =
        (PackfileBuilder.of OpenRead files).m_rootEntry.AddFile OpenRead (joined file.1) file.2 := by
      rw [PackfileBuilder.of,List.foldl_append]
      rfl
    rw [step]
    refine ⟨shaped,isDirectory,unnamed.trans built.unnamed,fun path backing => (holds path backing).trans ?_⟩
    rw [built.holds,List.mem_append,List.mem_singleton,Prod.ext_iff]

end Citizen.Packfile
