import Citizen.Console.VariableReplication

/-! `SaveConfigurationIfNeeded`: when the configuration is written, and what the file holds from then on. -/
namespace Citizen.Console

variable {types : VariableTypes}

def Variable.Changes (v : Variable types) (value : Text) : Bool :=
  match (types.traitsOf v.kind).Parse value with
  | none => false
  | some newValue => (v.SetValue value).1 && !(types.traitsOf v.kind).Equal v.m_curValue newValue

def Variable.ClientSetValue (v : Variable types) (value : Text) (privileged : Bool) : Bool × Variable types :=
  if v.flags &&& ConVar_Replicated ≠ 0 ∧ privileged = false then (false,v) else v.SetValue value

/-- `m_offlineValue` has the texts of the offline values; `unmarked` are the variables with a flag they got since then without a mark. -/
structure SavedContext (types : VariableTypes) where
  manager : VariableManager types
  m_offlineValue : List Nat → Text
  m_variableModifiedFlags : Flags
  wasSavedBefore : Bool
  file : Option (List (Text × Text))
  unmarked : List (List Nat)

inductive AutosaveEvent where
  | Command (command : SetCommand) (name value : Text) (privileged : Bool)
  | SaveConfigurationIfNeeded (created : Bool)

namespace SavedContext

def SetVariableModifiedFlags (s : SavedContext types) (flags : Flags) : SavedContext types :=
  { s with m_variableModifiedFlags := s.m_variableModifiedFlags ||| flags }

def setEntry (s : SavedContext types) (entry : Variable types) (addFlags : Flags) (value : Text) (privileged : Bool) :
    SavedContext types :=
  let set := entry.ClientSetValue value privileged
  if set.1 = true then
    let s := if entry.Changes value = true then s.SetVariableModifiedFlags set.2.flags else s
    { s with manager := s.manager.put { set.2 with flags := set.2.flags ||| addFlags } }
  else { s with manager := s.manager.put set.2 }

def gainsUnmarked (entry : Variable types) (addFlags : Flags) (value : Text) (privileged : Bool) : Bool :=
  if (entry.ClientSetValue value privileged).1 = false then false
  else if entry.flags &&& ConVar_Archive = 0 then decide (addFlags &&& ConVar_Archive ≠ 0)
  else decide (entry.flags &&& ConVar_Replicated = 0 ∧ addFlags &&& ConVar_Replicated ≠ 0) && !entry.Changes value

def setCommand (s : SavedContext types) (addFlags : Flags) (name value : Text) (privileged : Bool) : SavedContext types :=
  match s.manager.find name with
  | some entry =>
    { s.setEntry entry addFlags value privileged with
      unmarked := if gainsUnmarked entry addFlags value privileged = true then key name :: s.unmarked else s.unmarked }
  | none =>
    let entry : Variable types := ⟨name,ConVar_Modified ||| addFlags,none,([] : Text),none⟩
    { s.setEntry entry 0 value privileged with
      m_offlineValue := Function.update s.m_offlineValue (key name) []
      unmarked := if addFlags &&& ConVar_Archive ≠ 0 ∧ value = [] then key name :: s.unmarked else s.unmarked }

def line (s : SavedContext types) (v : Variable types) : Text × Text :=
  (v.name,if v.flags &&& ConVar_Replicated ≠ 0 then s.m_offlineValue (key v.name) else v.GetValue)

def SaveConfiguration (s : SavedContext types) (created : Bool) : SavedContext types :=
  if created = true then { s with file := some ((s.manager.ForAllVariables ConVar_Archive).map s.line), unmarked := [] }
  else s

def SaveConfigurationIfNeeded (s : SavedContext types) (created : Bool) : SavedContext types :=
  if s.wasSavedBefore = false ∨ s.m_variableModifiedFlags &&& ConVar_Archive ≠ 0 then
    { s.SaveConfiguration created with
      wasSavedBefore := true
      m_variableModifiedFlags := s.m_variableModifiedFlags &&& ~~~ConVar_Archive }
  else s

def step (s : SavedContext types) : AutosaveEvent → SavedContext types
  | .Command command name value privileged => s.setCommand command.addFlags name value privileged
  | .SaveConfigurationIfNeeded created => s.SaveConfigurationIfNeeded created

def Current (v : Variable types) (value : Text) : Prop :=
  ∃ x, Relation.ReflTransGen (fun a b => (types.traitsOf v.kind).Equal a b = true) x v.m_curValue ∧
    value = (types.traitsOf v.kind).Unparse x

def Holds (s : SavedContext types) (v : Variable types) (value : Text) : Prop :=
  if v.flags &&& ConVar_Replicated ≠ 0 then value = s.m_offlineValue (key v.name) else Current v value

structure Matches (s : SavedContext types) (file : List (Text × Text)) : Prop where
  distinct : (file.map (fun line => key line.1)).Nodup
  saved : ∀ v, s.manager.find v.name = some v → v.flags &&& ConVar_Archive ≠ 0 → key v.name ∉ s.unmarked →
    ∃ value, (v.name,value) ∈ file ∧ s.Holds v value
  archived : ∀ line ∈ file, ∃ v, s.manager.find line.1 = some v ∧ v.name = line.1 ∧ v.flags &&& ConVar_Archive ≠ 0 ∧
    (key v.name ∉ s.unmarked → s.Holds v line.2)

def Saved (s : SavedContext types) : Prop := ∃ file, s.file = some file ∧ s.Matches file

def SavedAfter (s : SavedContext types) : AutosaveEvent → Prop
  | .SaveConfigurationIfNeeded created => (s.SaveConfigurationIfNeeded created).Saved
  | _ => True

def Created (_ : SavedContext types) : AutosaveEvent → Prop
  | .SaveConfigurationIfNeeded created => created = true
  | _ => True

def Kept (s : SavedContext types) : Prop :=
  s.wasSavedBefore = true → s.m_variableModifiedFlags &&& ConVar_Archive = 0 → s.Saved

variable {s : SavedContext types} {v entry : Variable types} {name value : Text} {addFlags : Flags} {privileged : Bool}

theorem archiveBit {flags : Flags} : flags &&& ConVar_Archive ≠ 0 ↔ flags.getLsbD 0 = true := by
  have bit : ConVar_Archive = BitVec.twoPow 32 0 := by decide
  rw [bit,BitVec.and_twoPow]
  cases flags.getLsbD 0 <;> decide

theorem archiveOr {a b : Flags} : (a ||| b) &&& ConVar_Archive ≠ 0 ↔ a &&& ConVar_Archive ≠ 0 ∨ b &&& ConVar_Archive ≠ 0 := by
  rw [archiveBit,archiveBit,archiveBit,BitVec.getLsbD_or,Bool.or_eq_true]

theorem currentSelf (v : Variable types) : Current v v.GetValue := ⟨v.m_curValue,.refl,rfl⟩

theorem distinctKeys (s : SavedContext types) :
    (((s.manager.ForAllVariables ConVar_Archive).map s.line).map (fun line => key line.1)).Nodup := by
  have keys : (s.manager.m_entries.entries.map Prod.snd).map (fun v => key v.name) = s.manager.m_entries.entries.map Prod.fst := by
    rw [List.map_map]
    exact List.map_congr_left (fun e mem => s.manager.named e.1 e.2 (OrderedMap.findSome.mpr mem))
  have distinct : (s.manager.m_entries.entries.map Prod.fst).Nodup :=
    List.pairwise_map.mpr (s.manager.m_entries.sorted.imp (fun less => ne_of_lt less))
  rw [← keys] at distinct
  rw [List.map_map]
  exact distinct.sublist (List.filter_sublist.map _)

theorem writtenMatches (s : SavedContext types) : Matches { s with unmarked := [] } ((s.manager.ForAllVariables ConVar_Archive).map s.line) where
  distinct := distinctKeys s
  saved v found archived _ := by
    refine ⟨(s.line v).2,List.mem_map_of_mem (VariableManager.memForAll found archived),?_⟩
    unfold Holds line
    dsimp only
    split
    · rfl
    · exact currentSelf v
  archived line mem := by
    obtain ⟨v,member,rfl⟩ := List.mem_map.mp mem
    refine ⟨v,VariableManager.forAllKnown member,rfl,?_,fun _ => ?_⟩
    · have flagged := of_decide_eq_true (List.mem_filter.mp member).2
      rcases flagged with archived | ⟨_,all⟩
      · exact archived
      · exact absurd all (by decide)
    · unfold Holds SavedContext.line
      dsimp only
      split
      · rfl
      · exact currentSelf v

theorem clientSet (entry : Variable types) (value : Text) (privileged : Bool) :
    entry.ClientSetValue value privileged = (false,entry) ∨
      ∃ newValue, (types.traitsOf entry.kind).Parse value = some newValue ∧
        entry.Changes value = !(types.traitsOf entry.kind).Equal entry.m_curValue newValue ∧
        entry.ClientSetValue value privileged = (true,{ entry with
          m_curValue := newValue
          flags := if (types.traitsOf entry.kind).Equal entry.m_curValue newValue then entry.flags
            else entry.flags ||| ConVar_Modified }) := by
  unfold Variable.ClientSetValue
  split
  · exact .inl rfl
  · rcases entry.setValue value with refused | ⟨newValue,parsed,inRange,_,_,set⟩
    · exact .inl refused
    · have raw := set
      unfold Variable.SetRawValue at raw
      rw [if_pos inRange] at raw
      refine .inr ⟨newValue,parsed,?_,raw⟩
      unfold Variable.Changes
      rw [parsed,raw]
      exact Bool.true_and _

section
variable {file : List (Text × Text)} (matches_ : s.Matches file)
include matches_

theorem Matches.put (w : Variable types) {s' : SavedContext types}
    (manager : s'.manager = s.manager.put w) (offline : ∀ k, k ≠ key w.name → s'.m_offlineValue k = s.m_offlineValue k)
    (unmarked : ∀ k ∈ s.unmarked, k ∈ s'.unmarked)
    (saved : w.flags &&& ConVar_Archive ≠ 0 → key w.name ∉ s'.unmarked → ∃ value, (w.name,value) ∈ file ∧ s'.Holds w value)
    (archived : ∀ line ∈ file, key line.1 = key w.name →
      w.name = line.1 ∧ w.flags &&& ConVar_Archive ≠ 0 ∧ (key w.name ∉ s'.unmarked → s'.Holds w line.2)) : s'.Matches file where
  distinct := matches_.distinct
  saved v found flagged fresh := by
    rw [manager,VariableManager.findPut] at found
    split at found
    · cases found
      exact saved flagged fresh
    · rename_i other
      obtain ⟨value,mem,holds⟩ := matches_.saved v found flagged (fun old => fresh (unmarked _ old))
      refine ⟨value,mem,?_⟩
      unfold Holds at holds ⊢
      rwa [offline _ other]
  archived line mem := by
    rw [manager,VariableManager.findPut]
    split
    · rename_i same
      obtain ⟨name,flagged,holds⟩ := archived line mem same
      exact ⟨w,rfl,name,flagged,holds⟩
    · rename_i other
      obtain ⟨v,found,name,flagged,holds⟩ := matches_.archived line mem
      refine ⟨v,found,name,flagged,fun fresh => ?_⟩
      have held := holds (fun old => fresh (unmarked _ old))
      unfold Holds at held ⊢
      rwa [offline _ (name ▸ other)]

theorem Matches.line (found : s.manager.find entry.name = some entry)
    {line : Text × Text} (mem : line ∈ file) (same : key line.1 = key entry.name) :
    entry.name = line.1 ∧ entry.flags &&& ConVar_Archive ≠ 0 ∧ (key entry.name ∉ s.unmarked → s.Holds entry line.2) := by
  obtain ⟨v,found',name,flagged,holds⟩ := matches_.archived line mem
  have own : s.manager.find line.1 = s.manager.find entry.name := by
    unfold VariableManager.find
    rw [same]
  rw [own,found] at found'
  cases found'
  exact ⟨name,flagged,holds⟩

theorem Matches.samePut (found : s.manager.find entry.name = some entry)
    {s' : SavedContext types} (manager : s'.manager = s.manager.put entry) (offline : s'.m_offlineValue = s.m_offlineValue)
    (unmarked : s'.unmarked = s.unmarked) : s'.Matches file := by
  have holds : ∀ v value, s.Holds v value → s'.Holds v value := by
    intro v value held
    unfold Holds at held ⊢
    rwa [offline]
  refine matches_.put entry manager (fun _ _ => by rw [offline]) (fun _ old => unmarked ▸ old) (fun flagged fresh => ?_)
    (fun line mem same => ?_)
  · obtain ⟨value,mem,held⟩ := matches_.saved entry found flagged (unmarked ▸ fresh)
    exact ⟨value,mem,holds entry value held⟩
  · obtain ⟨name,flagged,held⟩ := matches_.line found mem same
    exact ⟨name,flagged,fun fresh => holds entry _ (held (unmarked ▸ fresh))⟩

end

theorem Current.equal {newValue : types.typeOf v.kind} {flags : Flags} (current : Current v value)
    (equal : (types.traitsOf v.kind).Equal v.m_curValue newValue = true) :
    Current { v with m_curValue := newValue, flags := flags } value := by
  obtain ⟨x,chain,text⟩ := current
  exact ⟨x,chain.tail equal,text⟩

variable {file : List (Text × Text)}

theorem Matches.quietPut (matches_ : s.Matches file) (found : s.manager.find entry.name = some entry)
    (archived : entry.flags &&& ConVar_Archive ≠ 0) {newValue : types.typeOf entry.kind} {unmarked : List (List Nat)}
    (equal : (types.traitsOf entry.kind).Equal entry.m_curValue newValue = true)
    (gains : (∀ k ∈ s.unmarked, k ∈ unmarked) ∧ (entry.flags &&& ConVar_Replicated = 0 → addFlags &&& ConVar_Replicated ≠ 0 →
      key entry.name ∈ unmarked)) :
    Matches { s with
      manager := s.manager.put { entry with m_curValue := newValue, flags := entry.flags ||| addFlags }
      unmarked := unmarked } file := by
  have holds : ∀ value, key entry.name ∉ unmarked → s.Holds entry value →
      s.Holds { entry with m_curValue := newValue, flags := entry.flags ||| addFlags } value := by
    intro value fresh held
    unfold Holds at held ⊢
    dsimp only
    by_cases replicated : entry.flags &&& ConVar_Replicated = 0
    · have adds : addFlags &&& ConVar_Replicated = 0 := Decidable.byContradiction (fun adds => fresh (gains.2 replicated adds))
      have still : ¬(entry.flags ||| addFlags) &&& ConVar_Replicated ≠ 0 :=
        fun both => (replicatedOr.mp both).elim (fun old => old replicated) (fun new => new adds)
      rw [if_neg (fun other => other replicated)] at held
      rw [if_neg still]
      exact held.equal equal
    · rw [if_pos replicated] at held
      rwa [if_pos (replicatedOr.mpr (.inl replicated))]
  refine matches_.put _ rfl (fun _ _ => rfl) gains.1 (fun _ fresh => ?_) (fun line mem same => ?_)
  · obtain ⟨text,mem,held⟩ := matches_.saved entry found archived (fun old => fresh (gains.1 _ old))
    exact ⟨text,mem,holds text fresh held⟩
  · obtain ⟨name,_,held⟩ := matches_.line found mem same
    exact ⟨name,archiveOr.mpr (.inl archived),fun fresh => holds _ fresh (held (fun old => fresh (gains.1 _ old)))⟩

theorem setEntryPut {set : Variable types} (addFlags : Flags) (sets : entry.ClientSetValue value privileged = (true,set)) :
    (s.setEntry entry addFlags value privileged).manager = s.manager.put { set with flags := set.flags ||| addFlags } ∧
      (s.setEntry entry addFlags value privileged).m_offlineValue = s.m_offlineValue := by
  unfold setEntry
  rw [sets,if_pos rfl]
  dsimp only
  split
  · exact ⟨rfl,rfl⟩
  · exact ⟨rfl,rfl⟩

theorem gainsRefused (refused : entry.ClientSetValue value privileged = (false,entry)) :
    gainsUnmarked entry addFlags value privileged = false := by
  unfold gainsUnmarked
  rw [refused]
  rfl

theorem Matches.existing (matches_ : s.Matches file) (found : s.manager.find name = some entry)
    (clean : (s.setCommand addFlags name value privileged).m_variableModifiedFlags &&& ConVar_Archive = 0) :
    (s.setCommand addFlags name value privileged).Matches file := by
  have named := VariableManager.findName found
  have self := VariableManager.findSelf found
  unfold setCommand at clean ⊢
  rw [found] at clean ⊢
  dsimp only at clean ⊢
  rcases clientSet entry value privileged with refused | ⟨newValue,_,changes,set⟩
  · have same : s.setEntry entry addFlags value privileged = { s with manager := s.manager.put entry } := by
      unfold setEntry
      rw [refused]
      rfl
    rw [same,gainsRefused refused]
    exact matches_.samePut self rfl rfl rfl
  · by_cases archived : entry.flags &&& ConVar_Archive ≠ 0
    · have equal : (types.traitsOf entry.kind).Equal entry.m_curValue newValue = true := by
        refine Bool.not_eq_false _ ▸ fun different => ?_
        have marks : entry.Changes value = true := by
          rw [changes,different]
          rfl
        unfold setEntry at clean
        rw [set,if_pos rfl,if_pos marks] at clean
        refine (archiveOr.mpr (.inr ?_)) clean
        dsimp only
        rw [different,if_neg Bool.false_ne_true]
        exact archiveOr.mpr (.inl archived)
      have quiet : entry.Changes value = false := by
        rw [changes,equal]
        rfl
      have after : s.setEntry entry addFlags value privileged =
          { s with manager := s.manager.put { entry with m_curValue := newValue, flags := entry.flags ||| addFlags } } := by
        unfold setEntry
        rw [set,if_pos rfl,quiet,if_neg Bool.false_ne_true,equal]
        rfl
      have gains' : gainsUnmarked entry addFlags value privileged =
          decide (entry.flags &&& ConVar_Replicated = 0 ∧ addFlags &&& ConVar_Replicated ≠ 0) := by
        unfold gainsUnmarked
        rw [set,if_neg (fun same => nomatch same),if_neg archived,quiet]
        exact Bool.and_true _
      rw [after,gains']
      refine matches_.quietPut self archived equal ⟨fun k old => ?_,fun plain adds => ?_⟩
      · split
        · exact List.mem_cons_of_mem _ old
        · exact old
      · rw [if_pos (decide_eq_true ⟨plain,adds⟩),named]
        exact List.mem_cons_self
    · obtain ⟨manager,offline⟩ := setEntryPut (s := s) addFlags set
      have gains' : gainsUnmarked entry addFlags value privileged = decide (addFlags &&& ConVar_Archive ≠ 0) := by
        unfold gainsUnmarked
        rw [set,if_neg (fun same => nomatch same),if_pos (not_not.mp archived)]
      refine matches_.put _ manager (fun k _ => congrFun offline k) (fun k mem => ?_) (fun flagged fresh => ?_) (fun line mem same => ?_)
      · dsimp only
        split
        · exact List.mem_cons_of_mem _ mem
        · exact mem
      · have adds : addFlags &&& ConVar_Archive ≠ 0 := by
          refine (archiveOr.mp flagged).resolve_left ?_
          split
          · exact archived
          · exact fun both => (archiveOr.mp both).elim archived (by decide)
        refine absurd ?_ fresh
        dsimp only
        rw [gains',if_pos (decide_eq_true adds),named]
        exact List.mem_cons_self
      · exact absurd (matches_.line self mem same).2.1 archived

def newEntry (types : VariableTypes) (name : Text) (addFlags : Flags) : Variable types :=
  ⟨name,ConVar_Modified ||| addFlags,none,([] : Text),none⟩

theorem newMarked (filled : value ≠ []) : (s.setEntry (newEntry types name ConVar_Archive) 0 value privileged).m_variableModifiedFlags &&&
    ConVar_Archive ≠ 0 := by
  have different : ((types.traitsOf (none : Option types.Kind)).Equal ([] : Text) value) = false := decide_eq_false (Ne.symm filled)
  have unset : ∀ flag, (ConVar_Modified ||| ConVar_Archive) &&& flag = 0 → ¬(newEntry types name ConVar_Archive).flags &&& flag ≠ 0 :=
    fun _ none => not_not.mpr none
  have accepted : ((newEntry types name ConVar_Archive).ClientSetValue value privileged).1 = true := by
    unfold Variable.ClientSetValue Variable.SetValue
    rw [if_neg (fun both => unset ConVar_Replicated (by decide) both.1),if_neg (unset ConVar_Internal (by decide)),
      if_neg (unset ConVar_ReadOnly (by decide))]
    rfl
  rcases clientSet (newEntry types name ConVar_Archive) value privileged with refused | ⟨newValue,parsed,changes,set⟩
  · rw [refused] at accepted
    exact nomatch accepted
  · cases Option.some.inj parsed
    have marks : (newEntry types name ConVar_Archive).Changes value = true := changes.trans (congrArg not different)
    unfold setEntry
    rw [set,if_pos rfl,if_pos marks]
    refine archiveOr.mpr (.inr ?_)
    dsimp only
    split
    · exact archiveOr.mpr (.inr (by decide))
    · exact archiveOr.mpr (.inl (archiveOr.mpr (.inr (by decide))))

theorem Matches.new (matches_ : s.Matches file) (absent : s.manager.find name = none) (command : SetCommand)
    (clean : (s.setCommand command.addFlags name value privileged).m_variableModifiedFlags &&& ConVar_Archive = 0) :
    (s.setCommand command.addFlags name value privileged).Matches file := by
  have unsaved : ∀ line ∈ file, key line.1 ≠ key name := by
    intro line mem same
    obtain ⟨v,found,_⟩ := matches_.archived line mem
    unfold VariableManager.find at found absent
    rw [same,absent] at found
    cases found
  unfold setCommand at clean ⊢
  rw [absent] at clean ⊢
  dsimp only at clean ⊢
  obtain ⟨w,named,flags,manager⟩ : ∃ w : Variable types, w.name = name ∧
      (w.flags &&& ConVar_Archive ≠ 0 → command.addFlags &&& ConVar_Archive ≠ 0) ∧
      (s.setEntry (newEntry types name command.addFlags) 0 value privileged).manager = s.manager.put w := by
    have added : (newEntry types name command.addFlags).flags &&& ConVar_Archive ≠ 0 → command.addFlags &&& ConVar_Archive ≠ 0 :=
      fun both => (archiveOr.mp both).resolve_left (by decide)
    rcases clientSet (newEntry types name command.addFlags) value privileged with refused | ⟨newValue,_,_,set⟩
    · refine ⟨newEntry types name command.addFlags,rfl,added,?_⟩
      unfold setEntry
      rw [refused]
      rfl
    · refine ⟨_,?_,fun flagged => ?_,(setEntryPut (s := s) 0 set).1⟩
      · rfl
      · refine added ((archiveOr.mp flagged).elim (fun some => ?_) (fun none => absurd rfl none))
        dsimp only at some
        split at some
        · exact some
        · exact (archiveOr.mp some).resolve_right (by decide)
  refine matches_.put w manager (fun k other => Function.update_of_ne (named ▸ other) ..) (fun k mem => ?_)
    (fun flagged fresh => ?_) (fun line mem same => absurd (same.trans (congrArg key named)) (unsaved line mem))
  · dsimp only
    split
    · exact List.mem_cons_of_mem _ mem
    · exact mem
  · have adds := flags flagged
    have seta : command.addFlags = ConVar_Archive := by
      cases command with
      | set => exact absurd adds (by decide)
      | seta => rfl
      | sets => exact absurd adds (by decide)
      | setr => exact absurd adds (by decide)
    by_cases empty : value = []
    · refine absurd ?_ fresh
      dsimp only
      rw [if_pos ⟨adds,empty⟩,named]
      exact List.mem_cons_self
    · rw [seta] at clean
      exact absurd clean (newMarked empty)

theorem Matches.command (matches_ : s.Matches file) (command : SetCommand)
    (clean : (s.setCommand command.addFlags name value privileged).m_variableModifiedFlags &&& ConVar_Archive = 0) :
    (s.setCommand command.addFlags name value privileged).Matches file := by
  cases found : s.manager.find name with
  | some entry => exact matches_.existing found clean
  | none => exact matches_.new found command clean

theorem setEntrySaved (s : SavedContext types) (entry : Variable types) (addFlags : Flags) (value : Text) (privileged : Bool) :
    (s.setEntry entry addFlags value privileged).wasSavedBefore = s.wasSavedBefore ∧
      (s.setEntry entry addFlags value privileged).file = s.file ∧ (s.m_variableModifiedFlags &&& ConVar_Archive ≠ 0 →
        (s.setEntry entry addFlags value privileged).m_variableModifiedFlags &&& ConVar_Archive ≠ 0) := by
  unfold setEntry
  dsimp only
  split
  · split
    · exact ⟨rfl,rfl,fun marked => archiveOr.mpr (.inl marked)⟩
    · exact ⟨rfl,rfl,id⟩
  · exact ⟨rfl,rfl,id⟩

theorem commandSaved (s : SavedContext types) (addFlags : Flags) (name value : Text) (privileged : Bool) :
    (s.setCommand addFlags name value privileged).wasSavedBefore = s.wasSavedBefore ∧
      (s.setCommand addFlags name value privileged).file = s.file ∧
      (s.m_variableModifiedFlags &&& ConVar_Archive ≠ 0 →
        (s.setCommand addFlags name value privileged).m_variableModifiedFlags &&& ConVar_Archive ≠ 0) := by
  unfold setCommand
  cases s.manager.find name with
  | some entry => exact setEntrySaved s entry addFlags value privileged
  | none => exact setEntrySaved s _ 0 value privileged

theorem Kept.command (kept : s.Kept) (command : SetCommand) (name value : Text) (privileged : Bool) :
    (s.setCommand command.addFlags name value privileged).Kept := by
  intro saved clean
  obtain ⟨before,file,grows⟩ := commandSaved s command.addFlags name value privileged
  rw [before] at saved
  obtain ⟨written,is,matches_⟩ := kept saved (Decidable.byContradiction (fun marked => grows marked clean))
  exact ⟨written,file.trans is,matches_.command command clean⟩

theorem SaveConfigurationIfNeeded.saved (kept : s.Kept) : (s.SaveConfigurationIfNeeded true).Saved := by
  unfold SavedContext.SaveConfigurationIfNeeded
  split
  · have written := writtenMatches s
    exact ⟨_,rfl,written.distinct,written.saved,written.archived⟩
  · rename_i clean
    obtain ⟨before,unmarked⟩ := not_or.mp clean
    exact kept (Bool.eq_true_of_not_eq_false before) (not_not.mp unmarked)

theorem Kept.step (kept : s.Kept) (event : AutosaveEvent) (created : s.Created event) : (s.step event).Kept := by
  cases event with
  | Command command name value privileged => exact kept.command command name value privileged
  | SaveConfigurationIfNeeded made =>
    cases created
    exact fun _ _ => SaveConfigurationIfNeeded.saved kept

theorem savedCurrent (manager : VariableManager types) (m_offlineValue : List Nat → Text) (m_variableModifiedFlags : Flags)
    {events : List AutosaveEvent}
    (created : Along step Created ⟨manager,m_offlineValue,m_variableModifiedFlags,false,none,[]⟩ events) :
    Along step SavedAfter ⟨manager,m_offlineValue,m_variableModifiedFlags,false,none,[]⟩ events := by
  refine alongOfKept Kept (fun s event kept created => ⟨kept.step event created,?_⟩) (fun saved => nomatch saved) created
  cases event with
  | Command command name value privileged => trivial
  | SaveConfigurationIfNeeded made =>
    cases created
    exact SaveConfigurationIfNeeded.saved kept

def fresh : SavedContext Replication.textOnly := ⟨⟨.empty,VariableManager.emptyNamed⟩,fun _ => [],0,false,none,[]⟩

theorem savedCurrentSample : Along step SavedAfter fresh
    [.Command .seta (text "name") (text "a") false,.SaveConfigurationIfNeeded true,.Command .set (text "name") (text "b") false,
      .SaveConfigurationIfNeeded true] :=
  savedCurrent ⟨.empty,fun _ _ found => nomatch found⟩ (fun _ => []) 0 ⟨trivial,rfl,trivial,rfl,trivial⟩

theorem offlineSaved :
    ¬∃ file, (run step fresh [.Command .seta (text "name") (text "a") false,.Command .setr (text "name") (text "b") false,
        .SaveConfigurationIfNeeded true]).file = some file ∧
      ∀ v, (run step fresh [.Command .seta (text "name") (text "a") false,.Command .setr (text "name") (text "b") false,
          .SaveConfigurationIfNeeded true]).manager.find v.name = some v →
        v.flags &&& ConVar_Archive ≠ 0 → (v.name,v.GetValue) ∈ file := by
  rintro ⟨file,is,all⟩
  have mem := all ⟨text "name",11,none,text "b",none⟩ rfl (by decide)
  cases is
  revert mem
  decide

end SavedContext
end Citizen.Console
