import Citizen.Packfile.EntrySearch

/-! What `FindEntry` gives for a path in any table of entries. -/
namespace Citizen.Packfile
open RagePackfile

attribute [local instance] byteOrder

namespace RagePackfile
variable (packfile : RagePackfile)

def follow (child : Entry → Text → Option Nat) (i : Nat) : List Text → Option Nat
  | [] => some i
  | key :: keys =>
    if (packfile.entryAt i).isDirectory then (child (packfile.entryAt i) key).bind (fun k => follow child k keys) else some i

structure TableWellFormed : Prop where
  root : 0 < packfile.m_entries.length ∧ (packfile.entryAt 0).isDirectory = true
  inside : ∀ i < packfile.m_entries.length, (packfile.entryAt i).isDirectory = true →
    (packfile.entryAt i).dataOffset + (packfile.entryAt i).length ≤ packfile.m_entries.length
  searchable : ∀ i < packfile.m_entries.length, (packfile.entryAt i).isDirectory = true →
    packfile.Searchable (packfile.entryAt i)

def relative (path : Text) : Text := path.drop (packfile.m_pathPrefix.length + 1)

def Restarts (path : Text) : Prop :=
  ¬Closed (packfile.relative path) ∧
    ∃ k, packfile.follow packfile.findChild 0 (components (packfile.relative path)) = some k ∧ (packfile.entryAt k).isDirectory = true

variable {packfile}

theorem followFile (child : Entry → Text → Option Nat) {i : Nat} (isFile : (packfile.entryAt i).isDirectory = false) (keys : List Text) :
    packfile.follow child i keys = some i := by
  cases keys <;> simp [follow,isFile]

theorem followInto (child : Entry → Text → Option Nat) {i : Nat} (isDirectory : (packfile.entryAt i).isDirectory = true) (key : Text)
    (keys : List Text) :
    packfile.follow child i (key :: keys) = (child (packfile.entryAt i) key).bind (fun k => packfile.follow child k keys) := by
  rw [follow,if_pos isDirectory]

theorem pickInside {directory : Entry} {key : Text} {k : Nat} (picked : packfile.pick directory key = some k) :
    k < directory.dataOffset + directory.length := by
  have listed : k ∈ children directory := by
    rcases Option.or_eq_some_iff.mp picked with first | ⟨-,second⟩
    · exact List.mem_of_find?_eq_some first
    · exact List.mem_of_find?_eq_some second
  obtain ⟨j,inside,rfl⟩ := List.mem_map.mp listed
  have less := List.mem_range.mp inside
  omega

theorem followPick (wellFormed : packfile.TableWellFormed) {i : Nat} (inside : i < packfile.m_entries.length) (keys : List Text) :
    packfile.follow packfile.findChild i keys = packfile.follow packfile.pick i keys := by
  induction keys generalizing i with
  | nil => rfl
  | cons key keys ih =>
    cases isDirectory : (packfile.entryAt i).isDirectory with
    | false => rw [followFile _ isDirectory,followFile _ isDirectory]
    | true =>
      rw [followInto _ isDirectory,followInto _ isDirectory,findChildPick (wellFormed.searchable i inside isDirectory)]
      cases picked : packfile.pick (packfile.entryAt i) key with
      | none => rfl
      | some k => exact ih (lt_of_lt_of_le (pickInside picked) (wellFormed.inside i inside isDirectory))

theorem loopFollow {relativePath : Text} {steps i pos : Nat} (head : (relativePath.drop pos).head? ≠ some (byte '/'))
    (enough : (relativePath.drop pos).length < steps)
    (ends : ∀ k, packfile.follow packfile.findChild i (components (relativePath.drop pos)) = some k →
      (packfile.entryAt k).isDirectory = true → Closed (relativePath.drop pos)) :
    packfile.findEntryLoop relativePath steps i pos =
      some (packfile.follow packfile.findChild i (components (relativePath.drop pos))) := by
  induction steps generalizing i pos with
  | zero => cases enough
  | succ steps ih =>
    cases isDirectory : (packfile.entryAt i).isDirectory with
    | false => rw [loopFile steps relativePath pos isDirectory,followFile _ isDirectory]
    | true =>
      by_cases slash : byte '/' ∈ relativePath.drop pos
      · obtain ⟨name,pos',parts,first,shorter,closing,step⟩ := loopPart steps isDirectory head slash
        rw [parts,followInto _ isDirectory] at ends ⊢
        rw [step]
        cases child : packfile.findChild (packfile.entryAt i) name with
        | none => rfl
        | some k =>
          rw [child] at ends
          exact ih first (by omega) (fun j reached isDirectory' => closing (ends j reached isDirectory'))
      · by_cases finished : relativePath.drop pos = []
        · rw [loopEnd finished,finished]
          rfl
        · rw [loopLast steps isDirectory slash finished]
          rw [componentsLast slash finished,followInto _ isDirectory] at ends ⊢
          cases child : packfile.findChild (packfile.entryAt i) (relativePath.drop pos) with
          | none => rfl
          | some k =>
            rw [child] at ends
            have isFile : (packfile.entryAt k).isDirectory = false := by
              refine Bool.eq_false_iff.mpr (fun isDirectory' => ?_)
              obtain ⟨b,last⟩ := Option.isSome_iff_exists.mp (List.getLast?_isSome.mpr finished)
              exact slash (ends k rfl isDirectory' b last ▸ List.mem_of_getLast? last)
            obtain ⟨more,rfl⟩ : ∃ more, steps = more + 1 := by
              have some' := List.length_pos_iff.mpr finished
              exact ⟨steps - 1,by omega⟩
            exact loopFile more relativePath _ isFile

theorem FindEntryFollow {path : Text} (longer : packfile.m_pathPrefix.length < path.length) (ends : ¬packfile.Restarts path)
    {steps : Nat} (enough : path.length < steps) :
    packfile.FindEntry steps path = some (packfile.follow packfile.findChild 0 (components (packfile.relative path))) := by
  have next : (path.drop packfile.m_pathPrefix.length).drop (skipSlashes (path.drop packfile.m_pathPrefix.length) 1) =
      (packfile.relative path).dropWhile (fun b => b = byte '/') := by
    rw [skipSlashesDrop,List.drop_drop,relative]
  have shorter := List.length_dropWhile_le (fun b => decide (b = byte '/')) (packfile.relative path)
  have size : (packfile.relative path).length ≤ path.length := (List.drop_sublist _ path).length_le
  rw [FindEntry,if_neg (by omega),← componentsSkip (packfile.relative path),← next]
  refine loopFollow (next ▸ slashesSkipped _) ?_ (fun k reached isDirectory => ?_)
  · rw [next]
    omega
  · rw [next,componentsSkip] at reached
    rw [next]
    exact (Classical.not_not.mp (fun open' => ends ⟨open',k,reached,isDirectory⟩)).skip

theorem pathsFollowed (packfile : RagePackfile) {path : Text} (longer : packfile.m_pathPrefix.length < path.length)
    (ends : ¬packfile.Restarts path) :
    ∃ enough found, (∀ steps, enough ≤ steps → packfile.FindEntry steps path = some found) ∧
      (packfile.TableWellFormed → found = packfile.follow packfile.pick 0 (components (packfile.relative path))) :=
  ⟨path.length + 1,_,fun _ enough => FindEntryFollow longer ends enough,fun wellFormed => followPick wellFormed wellFormed.root.1 _⟩

def smallArchive : RagePackfile where
  parent := []
  m_parentPtr := 0
  m_pathPrefix := text "archive:"
  m_header := ⟨0x32465052,52,3,0,0⟩
  m_handles := []
  m_entries := [⟨1,2,1,true,0⟩,⟨0,5,2048,false,0⟩,⟨2,0,3,true,0⟩]
  m_nameTable := text "a" ++ 0 :: text "d" ++ [0]

def cyclicArchive : RagePackfile := { smallArchive with m_entries := [⟨0,1,0,true,0⟩] }

theorem smallWellFormed : smallArchive.TableWellFormed where
  root := by decide
  inside := by decide
  searchable i inside isDirectory := by
    have directories : ∀ i < 3, (smallArchive.entryAt i).isDirectory = true → i = 0 ∨ i = 2 := by decide
    rcases directories i inside isDirectory with rfl | rfl <;> exact ⟨by decide,by decide⟩

theorem smallDirectory : ¬smallArchive.Restarts (text "archive:/d//") := by
  rintro ⟨open',-⟩
  exact open' (by unfold Closed; decide)

theorem pathsFollowedSmall : ∃ enough, ∀ steps, enough ≤ steps → smallArchive.FindEntry steps (text "archive:/d//") = some (some 2) := by
  obtain ⟨enough,found,ends,leads⟩ := pathsFollowed smallArchive (by decide) smallDirectory
  have value : smallArchive.follow smallArchive.pick 0 (components (smallArchive.relative (text "archive:/d//"))) = some 2 := by decide
  exact ⟨enough,fun steps more => by rw [ends steps more,leads smallWellFormed,value]⟩

def exactly (packfile : RagePackfile) (i : Nat) : List Text → Option Nat
  | [] => some i
  | key :: keys =>
    if (packfile.entryAt i).isDirectory then
      ((children (packfile.entryAt i)).find? (fun k => packfile.named k = key)).bind (fun k => exactly packfile k keys)
    else none

theorem loopAgain (steps : Nat) {relativePath key : Text} {i k again : Nat} (searchable : packfile.Searchable (packfile.entryAt i))
    (isDirectory : (packfile.entryAt i).isDirectory = true) (key' : relativePath.drop 1 = key) (plain : byte '/' ∉ key) (some' : key ≠ [])
    (picked : packfile.pick (packfile.entryAt i) key = some k) (start : skipSlashes relativePath 0 = again) :
    packfile.findEntryLoop relativePath (steps + 1) i 1 = packfile.findEntryLoop relativePath steps k again := by
  rw [loopLast steps isDirectory (key' ▸ plain) (key' ▸ some'),key',findChildPick searchable,picked,start]
  rfl

theorem cyclicLoops (steps : Nat) : cyclicArchive.FindEntry steps (text "archive:/a") = none := by
  have searchable : cyclicArchive.Searchable (cyclicArchive.entryAt 0) := ⟨by decide,by decide⟩
  have round : cyclicArchive.findEntryLoop (text "/a") steps 0 1 = none := by
    induction steps with
    | zero => rfl
    | succ steps ih =>
      have key : (text "/a").drop 1 = text "a" := by decide
      rw [loopAgain steps searchable (by decide) key (by decide) (by decide) (by decide : _ = some 0) (by decide : _ = 1)]
      exact ih
  exact round

theorem smallOnce : smallArchive.FindEntry 20 (text "archive:/d") = some none := by
  have searchable (i : Nat) (inside : i = 0 ∨ i = 2) : smallArchive.Searchable (smallArchive.entryAt i) := by
    rcases inside with rfl | rfl <;> exact smallWellFormed.searchable _ (by decide) (by decide)
  have key : (text "/d").drop 1 = text "d" := by decide
  have first : smallArchive.findEntryLoop (text "/d") 20 0 1 = smallArchive.findEntryLoop (text "/d") 19 2 1 :=
    loopAgain 19 (searchable 0 (.inl rfl)) (by decide) key (by decide) (by decide) (by decide) (by decide)
  have absent : smallArchive.findChild (smallArchive.entryAt 2) (text "d") = none := by
    rw [findChildPick (searchable 2 (.inr rfl))]
    decide
  have second : smallArchive.findEntryLoop (text "/d") 19 2 1 = _ := loopLast 18 (by decide) (by decide) (by decide)
  rw [key,absent] at second
  exact first.trans second

theorem smallFound {path : Text} (longer : smallArchive.m_pathPrefix.length < path.length) (ends : ¬smallArchive.Restarts path)
    (enough : path.length < 20) :
    smallArchive.FindEntry 20 path = some (smallArchive.follow smallArchive.pick 0 (components (smallArchive.relative path))) := by
  rw [FindEntryFollow longer ends enough,followPick smallWellFormed (by decide)]

theorem lookupApart : smallArchive.TableWellFormed ∧ smallArchive.FindEntry 20 (text "archive:/a/b") = some (some 1) ∧
    smallArchive.exactly 0 (components (smallArchive.relative (text "archive:/a/b"))) = none ∧
    smallArchive.FindEntry 20 (text "archive:/A") = some (some 1) ∧
    smallArchive.exactly 0 (components (smallArchive.relative (text "archive:/A"))) = none ∧
    smallArchive.FindEntry 20 (text "archive:/d") = some none ∧
    smallArchive.exactly 0 (components (smallArchive.relative (text "archive:/d"))) = some 2 ∧
    ∀ steps, cyclicArchive.FindEntry steps (text "archive:/a") = none := by
  have file (path : Text) (leads : smallArchive.follow smallArchive.pick 0 (components (smallArchive.relative path)) = some 1) :
      ¬smallArchive.Restarts path := by
    rintro ⟨-,k,reached,isDirectory⟩
    rw [followPick smallWellFormed (by decide),leads] at reached
    cases reached
    cases isDirectory
  have suffix : smallArchive.follow smallArchive.pick 0 (components (smallArchive.relative (text "archive:/a/b"))) = some 1 := by decide
  have letters : smallArchive.follow smallArchive.pick 0 (components (smallArchive.relative (text "archive:/A"))) = some 1 := by decide
  refine ⟨smallWellFormed,?_,by decide,?_,by decide,smallOnce,by decide,cyclicLoops⟩
  · rw [smallFound (by decide) (file _ suffix) (by decide),suffix]
  · rw [smallFound (by decide) (file _ letters) (by decide),letters]

end RagePackfile
end Citizen.Packfile
