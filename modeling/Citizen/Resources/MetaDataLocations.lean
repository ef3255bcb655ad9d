import Citizen.Lib.Text
import Mathlib.Data.List.Induction

/-! `ResourceMetaDataComponent`: the values of a manifest, where they have been set, and which of them name no file. -/
namespace Citizen.Resources.ResourceMetaDataComponent

structure Location where
  file : Text
  line : BitVec 32
  deriving DecidableEq

abbrev Multimap (ν : Type) := List (Text × ν)

def Multimap.emplace {ν : Type} (m : Multimap ν) (key : Text) (value : ν) : Multimap ν := m ++ [(key,value)]

def Multimap.equal_range {ν : Type} (m : Multimap ν) (key : Text) : List ν := (m.filter (fun e => e.1 = key)).map Prod.snd

structure State where
  m_metaDataEntries : Multimap Text
  m_metaDataLocations : Multimap Location

structure Added where
  key : Text
  value : Text
  location : Location
  deriving DecidableEq

def AddMetaData (s : State) (a : Added) : State where
  m_metaDataEntries := s.m_metaDataEntries.emplace a.key a.value
  m_metaDataLocations := s.m_metaDataLocations.emplace a.key a.location

structure Loading where
  added : List Added
  error : Option Text

def LoadMetaData (loading : Loading) (s : State) : State × Option Text :=
  (loading.added.foldl AddMetaData { s with m_metaDataEntries := [] },loading.error)

structure MissingEntry where
  value : Text
  wasPrefix : Bool
  source : Location
  deriving DecidableEq

section
variable (glob : Text → List Text × Bool)

def missing (value : Text) (location : Location) : Option MissingEntry :=
  let (files,result) := glob value
  if files.length = 0 then some { value,wasPrefix := !result,source := location } else none

def GlobMissingEntries (key : Text) (s : State) : List MissingEntry :=
  ((s.m_metaDataEntries.equal_range key).zip (s.m_metaDataLocations.equal_range key)).filterMap
    (fun (value,location) => missing glob value location)

end

inductive Call where
  | load (loading : Loading)
  | add (a : Added)

def step (s : State) : Call → State
  | .load loading => (LoadMetaData loading s).1
  | .add a => AddMetaData s a

def run (calls : List Call) : State := calls.foldl step ⟨[],[]⟩

def latest (calls : List Call) : List Added :=
  calls.foldl (fun added call => match call with
    | .load loading => loading.added
    | .add a => added ++ [a]) []

def everything (calls : List Call) : List Added :=
  calls.flatMap (fun call => match call with
    | .load loading => loading.added
    | .add a => [a])

def under (key : Text) (added : List Added) : List Added := added.filter (fun a => a.key = key)

def MissingEntries (glob : Text → List Text × Bool) (key : Text) (calls : List Call) : List MissingEntry :=
  (under key (latest calls)).filterMap (fun a => missing glob a.value a.location)

structure Holds (s : State) (recent ever : List Added) : Prop where
  entries : s.m_metaDataEntries = recent.map (fun a => (a.key,a.value))
  locations : s.m_metaDataLocations = ever.map (fun a => (a.key,a.location))

theorem Holds.adds {s : State} {recent ever : List Added} (holds : Holds s recent ever) (added : List Added) :
    Holds (added.foldl AddMetaData s) (recent ++ added) (ever ++ added) := by
  induction added generalizing s recent ever with
  | nil => simpa using holds
  | cons a rest ih =>
    have first : Holds (AddMetaData s a) (recent ++ [a]) (ever ++ [a]) := by
      refine ⟨?_,?_⟩
      · simp [AddMetaData,Multimap.emplace,holds.entries]
      · simp [AddMetaData,Multimap.emplace,holds.locations]
    simpa using ih first

theorem runHolds (calls : List Call) : Holds (run calls) (latest calls) (everything calls) := by
  induction calls using List.reverseRecOn with
  | nil => exact ⟨rfl,rfl⟩
  | append_singleton calls call ih =>
    unfold run latest everything
    rw [List.foldl_concat,List.foldl_concat,List.flatMap_append,List.flatMap_singleton]
    cases call with
    | load loading =>
      have cleared : Holds { run calls with m_metaDataEntries := [] } [] (everything calls) := ⟨rfl,ih.locations⟩
      exact cleared.adds loading.added
    | add a => exact ih.adds [a]

theorem latestLast (calls : List Call) : ∃ older, everything calls = older ++ latest calls := by
  induction calls using List.reverseRecOn with
  | nil => exact ⟨[],rfl⟩
  | append_singleton calls call ih =>
    obtain ⟨older,same⟩ := ih
    unfold latest everything
    rw [List.foldl_concat,List.flatMap_append,List.flatMap_singleton]
    cases call with
    | load loading => exact ⟨everything calls,rfl⟩
    | add a => exact ⟨older,(congrArg (· ++ [a]) same).trans (List.append_assoc ..)⟩

theorem equalRange {ν : Type} (key : Text) (field : Added → ν) (added : List Added) :
    Multimap.equal_range (added.map (fun a => (a.key,field a))) key = (under key added).map field := by
  simp [Multimap.equal_range,under,List.filter_map,Function.comp_def]

theorem pairsAgree (glob : Text → List Text × Bool) (entries : List Added) (locations : List Location)
    (enough : entries.length ≤ locations.length) :
    ((entries.map Added.value).zip locations).filterMap (fun (value,location) => missing glob value location) =
        entries.filterMap (fun a => missing glob a.value a.location) ↔
      ∀ (i : Nat) (a : Added), entries[i]? = some a → (glob a.value).1.length = 0 → locations[i]? = some a.location := by
  induction entries generalizing locations with
  | nil => simp
  | cons a rest ih =>
    cases locations with
    | nil => simp at enough
    | cons location others =>
      have later := ih others (Nat.le_of_succ_le_succ enough)
      rw [List.map_cons,List.zip_cons_cons]
      by_cases absent : (glob a.value).1.length = 0
      · have found (location : Location) :
            missing glob a.value location = some { value := a.value,wasPrefix := !(glob a.value).2,source := location } := if_pos absent
        simp only [List.filterMap_cons,found]
        rw [List.cons_eq_cons,later]
        constructor
        · rintro ⟨same,others⟩ i b at_ gone
          cases i with
          | zero =>
            obtain rfl : a = b := Option.some.inj at_
            exact congrArg some (MissingEntry.mk.inj same).2.2
          | succ i => exact others i b at_ gone
        · intro agree
          have same : location = a.location := Option.some.inj (agree 0 a rfl absent)
          exact ⟨by rw [same],fun i b at_ gone => agree (i + 1) b at_ gone⟩
      · have found (location : Location) : missing glob a.value location = none := if_neg absent
        simp only [List.filterMap_cons,found]
        rw [later]
        constructor
        · intro others i b at_ gone
          cases i with
          | zero =>
            obtain rfl : a = b := Option.some.inj at_
            exact absurd gone absent
          | succ i => exact others i b at_ gone
        · exact fun agree i b at_ gone => agree (i + 1) b at_ gone

theorem missingExact (glob : Text → List Text × Bool) (key : Text) (calls : List Call) :
    GlobMissingEntries glob key (run calls) = MissingEntries glob key calls ↔
      ∀ (i : Nat) (a : Added), (under key (latest calls))[i]? = some a → (glob a.value).1.length = 0 →
        (under key (everything calls))[i]?.map Added.location = some a.location := by
  obtain ⟨entries,locations⟩ := runHolds calls
  obtain ⟨older,all⟩ := latestLast calls
  have enough : (under key (latest calls)).length ≤ ((under key (everything calls)).map Added.location).length := by
    rw [List.length_map,all,under,under,List.filter_append,List.length_append]
    exact Nat.le_add_left ..
  unfold GlobMissingEntries MissingEntries
  rw [entries,locations,equalRange,equalRange,pairsAgree glob _ _ enough]
  simp only [List.getElem?_map]

theorem staleLocation :
    let first : Added := ⟨text "file",text "a",⟨text "manifest",3⟩⟩
    let second : Added := ⟨text "file",text "b",⟨text "manifest",4⟩⟩
    let calls := [.load ⟨[first],none⟩,.load ⟨[second],none⟩]
    let glob := fun _ => ([],true)
    GlobMissingEntries glob (text "file") (run calls) = [⟨second.value,false,first.location⟩] ∧
      GlobMissingEntries glob (text "file") (run calls) ≠ MissingEntries glob (text "file") calls := by decide

end Citizen.Resources.ResourceMetaDataComponent
