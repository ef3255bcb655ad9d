import Citizen.Console.Variables
import Citizen.Lib.OrderedMap
import Citizen.Lib.Run

/-! Console variables of any type, and the lists of replicated variables that clients are sent. -/
namespace Citizen.Console

/-- `Compare` is the check of a value against a minimum and a maximum, which every value passes of a type that is not
arithmetic. -/
structure ConsoleArgumentTraits (T : Type) where
  Parse : Text → Option T
  Unparse : T → Text
  Equal : T → T → Bool
  Compare : T → T → T → Bool

structure VariableTypes where
  Kind : Type
  T : Kind → Type
  traits : (kind : Kind) → ConsoleArgumentTraits (T kind)

namespace VariableTypes

def typeOf (types : VariableTypes) : Option types.Kind → Type
  | none => Text
  | some kind => types.T kind

def traitsOf (types : VariableTypes) : (kind : Option types.Kind) → ConsoleArgumentTraits (types.typeOf kind)
  | none => ⟨fun input => some input,fun input => input,fun (a b : Text) => a = b,fun _ _ _ => true⟩
  | some kind => types.traits kind

end VariableTypes

variable {types : VariableTypes}

structure Variable (types : VariableTypes) where
  name : Text
  flags : Flags
  kind : Option types.Kind
  m_curValue : types.typeOf kind
  constraints : Option (types.typeOf kind × types.typeOf kind)

namespace Variable

def GetValue (v : Variable types) : Text := (types.traitsOf v.kind).Unparse v.m_curValue

def InRange (v : Variable types) (newValue : types.typeOf v.kind) : Bool :=
  match v.constraints with
  | none => true
  | some (m_minValue,m_maxValue) => (types.traitsOf v.kind).Compare newValue m_minValue m_maxValue

def SetRawValue (v : Variable types) (newValue : types.typeOf v.kind) : Bool × Variable types :=
  if v.InRange newValue then
    let equal := (types.traitsOf v.kind).Equal v.m_curValue newValue
    (true,{ v with m_curValue := newValue,flags := if equal then v.flags else v.flags ||| ConVar_Modified })
  else (false,v)

def SetValue (v : Variable types) (value : Text) : Bool × Variable types :=
  if v.flags &&& ConVar_Internal ≠ 0 then (false,v)
  else if v.flags &&& ConVar_ReadOnly ≠ 0 then (false,v)
  else
    match (types.traitsOf v.kind).Parse value with
    | none => (false,v)
    | some newValue => v.SetRawValue newValue

end Variable

structure VariableManager (types : VariableTypes) where
  m_entries : OrderedMap (List Nat) (Variable types)
  named : ∀ name v, m_entries.find name = some v → key v.name = name

namespace VariableManager

theorem emptyNamed (name : List Nat) (v : Variable types) (found : OrderedMap.empty.find name = some v) : key v.name = name :=
  nomatch found

def find (s : VariableManager types) (name : Text) : Option (Variable types) := s.m_entries.find (key name)

def put (s : VariableManager types) (v : Variable types) : VariableManager types where
  m_entries := s.m_entries.insert (key v.name) v
  named name w found := by
    rw [OrderedMap.findInsert] at found
    split at found
    · rename_i same
      cases found
      exact same.symm
    · exact s.named name w found

def setCommand (s : VariableManager types) (addFlags : Flags) (name value : Text) : VariableManager types :=
  match s.find name with
  | some entry =>
    let set := entry.SetValue value
    s.put (if set.1 then { set.2 with flags := set.2.flags ||| addFlags } else set.2)
  | none =>
    let entry : Variable types := ⟨name,ConVar_Modified ||| addFlags,none,([] : Text),none⟩
    s.put (entry.SetValue value).2

def RemoveEntryFlags (s : VariableManager types) (name : Text) (flags : Flags) : VariableManager types :=
  match s.find name with
  | some entry => s.put { entry with flags := entry.flags &&& ~~~flags }
  | none => s

def ForAllVariables (s : VariableManager types) (flagMask : Flags) : List (Variable types) :=
  (s.m_entries.entries.map Prod.snd).filter (fun v => v.flags &&& flagMask ≠ 0 ∨ (v.flags = 0 ∧ flagMask = -1))

end VariableManager

inductive SetCommand where
  | set
  | seta
  | sets
  | setr

def SetCommand.addFlags : SetCommand → Flags
  | .set => ConVar_None
  | .seta => ConVar_Archive
  | .sets => ConVar_ServerInfo
  | .setr => ConVar_Replicated

abbrev Replica := Text → Option Text

def receive (held : Replica) (list : List (Text × Text)) : Replica :=
  list.foldl (fun held e => Function.update held e.1 (some e.2)) held

structure Replication (types : VariableTypes) where
  manager : VariableManager types
  clients : List Replica

inductive ReplicationEvent (types : VariableTypes) where
  | Command (command : SetCommand) (name value : Text)
  | SetRawValue (name : Text) (newValue : (kind : Option types.Kind) × types.typeOf kind)
  | ConnectedClient (held : Replica)
  | Tick

namespace Replication

def SetRawValue [DecidableEq types.Kind] (s : Replication types) (name : Text)
    (newValue : (kind : Option types.Kind) × types.typeOf kind) : Replication types :=
  match s.manager.find name with
  | some entry =>
    if same : newValue.1 = entry.kind then { s with manager := s.manager.put (entry.SetRawValue (same ▸ newValue.2)).2 }
    else s
  | none => s

def OnConnectedClient (s : Replication types) (held : Replica) : Replication types :=
  let variableList := (s.manager.ForAllVariables ConVar_Replicated).map (fun v => (v.name,v.GetValue))
  { s with clients := s.clients ++ [receive held variableList] }

def OnTick (s : Replication types) : Replication types :=
  let both := ConVar_Replicated ||| ConVar_Modified
  let sent := (s.manager.ForAllVariables both).filter (fun v => v.flags &&& both = both)
  let variableList := sent.map (fun v => (v.name,v.GetValue))
  { manager := sent.foldl (fun manager v => manager.RemoveEntryFlags v.name ConVar_Modified) s.manager
    clients := if variableList = [] then s.clients else s.clients.map (fun held => receive held variableList) }

def step [DecidableEq types.Kind] (s : Replication types) : ReplicationEvent types → Replication types
  | .Command command name value => { s with manager := s.manager.setCommand command.addFlags name value }
  | .SetRawValue name newValue => s.SetRawValue name newValue
  | .ConnectedClient held => s.OnConnectedClient held
  | .Tick => s.OnTick

end Replication

/-! Clients hold the replicated variables after every tick, where no change goes unmarked. -/

def Variable.Has (v : Variable types) (flag : Flags) : Prop := v.flags &&& flag ≠ 0

variable {flags : Flags}

theorem replicatedBit : flags &&& ConVar_Replicated ≠ 0 ↔ flags.getLsbD 3 = true := by
  have bit : ConVar_Replicated = BitVec.twoPow 32 3 := by decide
  rw [bit,BitVec.and_twoPow]
  cases flags.getLsbD 3 <;> decide

theorem modifiedBit : flags &&& ConVar_Modified ≠ 0 ↔ flags.getLsbD 1 = true := by
  have bit : ConVar_Modified = BitVec.twoPow 32 1 := by decide
  rw [bit,BitVec.and_twoPow]
  cases flags.getLsbD 1 <;> decide

theorem replicatedOr {a b : Flags} :
    (a ||| b) &&& ConVar_Replicated ≠ 0 ↔ a &&& ConVar_Replicated ≠ 0 ∨ b &&& ConVar_Replicated ≠ 0 := by
  rw [replicatedBit,replicatedBit,replicatedBit,BitVec.getLsbD_or,Bool.or_eq_true]

theorem modifiedOr {a b : Flags} :
    (a ||| b) &&& ConVar_Modified ≠ 0 ↔ a &&& ConVar_Modified ≠ 0 ∨ b &&& ConVar_Modified ≠ 0 := by
  rw [modifiedBit,modifiedBit,modifiedBit,BitVec.getLsbD_or,Bool.or_eq_true]

theorem replicatedCleared :
    flags &&& ~~~ConVar_Modified &&& ConVar_Replicated ≠ 0 ↔ flags &&& ConVar_Replicated ≠ 0 := by
  have cleared : (~~~ConVar_Modified).getLsbD 3 = true := by decide
  rw [replicatedBit,replicatedBit,BitVec.getLsbD_and,cleared,Bool.and_true]

theorem bothFlags (replicated : flags &&& ConVar_Replicated ≠ 0) (modified : flags &&& ConVar_Modified ≠ 0) :
    flags &&& (ConVar_Replicated ||| ConVar_Modified) = ConVar_Replicated ||| ConVar_Modified := by
  rw [replicatedBit] at replicated
  rw [modifiedBit] at modified
  have bits : ConVar_Replicated ||| ConVar_Modified = BitVec.twoPow 32 3 ||| BitVec.twoPow 32 1 := by decide
  have split : flags &&& (BitVec.twoPow 32 3 ||| BitVec.twoPow 32 1) =
      (flags &&& BitVec.twoPow 32 3) ||| (flags &&& BitVec.twoPow 32 1) := by
    apply BitVec.eq_of_getLsbD_eq
    intro i _
    simp only [BitVec.getLsbD_and,BitVec.getLsbD_or,Bool.and_or_distrib_left]
  rw [bits,split,BitVec.and_twoPow,BitVec.and_twoPow,replicated,modified,if_pos rfl,if_pos rfl]

theorem Variable.setModified {v : Variable types} (modified : v.Has ConVar_Modified) (value : Text) :
    (v.SetValue value).2.Has ConVar_Modified := by
  unfold Variable.SetValue Variable.SetRawValue
  split
  · exact modified
  split
  · exact modified
  split
  · exact modified
  split
  · unfold Variable.Has
    dsimp only
    split
    · exact modified
    · exact modifiedOr.mpr (.inl modified)
  · exact modified

theorem Variable.setValue (v : Variable types) (value : Text) : v.SetValue value = (false,v) ∨
    ∃ newValue, (types.traitsOf v.kind).Parse value = some newValue ∧ v.InRange newValue = true ∧
      ¬v.Has ConVar_Internal ∧ ¬v.Has ConVar_ReadOnly ∧ v.SetValue value = v.SetRawValue newValue := by
  unfold Variable.SetValue
  by_cases internal : v.flags &&& ConVar_Internal ≠ 0
  · exact .inl (if_pos internal)
  by_cases readOnly : v.flags &&& ConVar_ReadOnly ≠ 0
  · rw [if_neg internal]
    exact .inl (if_pos readOnly)
  rw [if_neg internal,if_neg readOnly]
  cases parsed : (types.traitsOf v.kind).Parse value with
  | none => exact .inl rfl
  | some newValue =>
    by_cases inRange : v.InRange newValue = true
    · exact .inr ⟨newValue,rfl,inRange,internal,readOnly,rfl⟩
    · exact .inl (if_neg inRange)

namespace VariableManager
variable {s : VariableManager types} {v w : Variable types}

theorem findPut (name : Text) : (s.put v).find name = if key name = key v.name then some v else s.find name := by
  have found := OrderedMap.findInsert s.m_entries (key v.name) v (key name)
  unfold find put
  dsimp only
  rw [found]
  split <;> rfl

theorem findName {name : Text} (found : s.find name = some v) : key v.name = key name := s.named _ v found

theorem findSelf {name : Text} (found : s.find name = some v) : s.find v.name = some v := by
  have same := findName found
  unfold find at found ⊢
  rw [same]
  exact found

theorem memValues : v ∈ s.m_entries.entries.map Prod.snd ↔ s.find v.name = some v := by
  rw [List.mem_map]
  constructor
  · rintro ⟨⟨name,_⟩,mem,rfl⟩
    have found := OrderedMap.findSome.mpr mem
    unfold find
    rw [s.named _ _ found]
    exact found
  · intro found
    exact ⟨(key v.name,v),OrderedMap.findSome.mp found,rfl⟩

theorem memForAll {flagMask : Flags} (known : s.find v.name = some v) (flagged : v.flags &&& flagMask ≠ 0) :
    v ∈ s.ForAllVariables flagMask :=
  List.mem_filter.mpr ⟨memValues.mpr known,decide_eq_true (.inl flagged)⟩

theorem forAllKnown {flagMask : Flags} (mem : v ∈ s.ForAllVariables flagMask) : s.find v.name = some v :=
  memValues.mp (List.mem_filter.mp mem).1

end VariableManager

theorem received {held : Replica} {list : List (Text × Text)} {name value : Text}
    (only : ∀ e ∈ list, e.1 = name → e.2 = value) (start : (name,value) ∈ list ∨ held name = some value) :
    receive held list name = some value := by
  induction list generalizing held with
  | nil =>
    rcases start with mem | holds
    · cases mem
    · exact holds
  | cons e rest ih =>
    refine ih (fun e mem => only e (List.mem_cons_of_mem _ mem)) ?_
    dsimp only
    by_cases here : e.1 = name
    · right
      rw [← here,Function.update_self,only e List.mem_cons_self here]
    · rcases start with mem | holds
      · rcases List.mem_cons.mp mem with same | mem
        · exact absurd (congrArg Prod.fst same).symm here
        · exact .inl mem
      · right
        rw [Function.update_of_ne (Ne.symm here)]
        exact holds

namespace Replication
variable [DecidableEq types.Kind]

def Converged (s : Replication types) : Prop :=
  ∀ v, s.manager.find v.name = some v → v.Has ConVar_Replicated → ∀ held ∈ s.clients, held v.name = some v.GetValue

def Promised (s : Replication types) (e : ReplicationEvent types) : Prop :=
  match e with
  | .Tick => (s.step e).Converged
  | _ => True

def Marked (s : Replication types) (v : Variable types) (addFlags : Flags) (newValue : types.typeOf v.kind) : Prop :=
  (v.Has ConVar_Replicated ∨ addFlags &&& ConVar_Replicated ≠ 0) →
    v.Has ConVar_Modified ∨ (types.traitsOf v.kind).Equal v.m_curValue newValue = false ∨ s.clients = [] ∨
      (v.Has ConVar_Replicated ∧ (types.traitsOf v.kind).Unparse newValue = v.GetValue)

def Noticed (s : Replication types) : ReplicationEvent types → Prop
  | .Command command name value => ∀ v, s.manager.find name = some v →
    ¬v.Has ConVar_Internal → ¬v.Has ConVar_ReadOnly →
    ∀ newValue, (types.traitsOf v.kind).Parse value = some newValue → v.InRange newValue = true →
      s.Marked v command.addFlags newValue
  | .SetRawValue name newValue => ∀ v, s.manager.find name = some v → ∀ same : newValue.1 = v.kind,
    v.InRange (same ▸ newValue.2) = true → s.Marked v ConVar_None (same ▸ newValue.2)
  | _ => True

def Kept (s : Replication types) : Prop :=
  ∀ v, s.manager.find v.name = some v → v.Has ConVar_Replicated →
    v.Has ConVar_Modified ∨ ∀ held ∈ s.clients, held v.name = some v.GetValue

variable {s : Replication types}

omit [DecidableEq types.Kind] in
theorem Converged.kept (converged : s.Converged) : s.Kept := fun v known replicated => .inr (converged v known replicated)

omit [DecidableEq types.Kind] in
theorem Kept.put (kept : s.Kept) {w : Variable types} (new : w.Has ConVar_Replicated →
    w.Has ConVar_Modified ∨ ∀ held ∈ s.clients, held w.name = some w.GetValue) :
    Kept { s with manager := s.manager.put w } := by
  intro v known replicated
  dsimp only at known ⊢
  rw [VariableManager.findPut] at known
  split at known
  · cases known
    exact new replicated
  · exact kept v known replicated

omit [DecidableEq types.Kind] in
theorem Kept.changed (kept : s.Kept) {v : Variable types} (known : s.manager.find v.name = some v) {addFlags : Flags}
    {newValue : types.typeOf v.kind} (marked : s.Marked v addFlags newValue) (inRange : v.InRange newValue = true) :
    Kept { s with
      manager := s.manager.put
        { (v.SetRawValue newValue).2 with flags := (v.SetRawValue newValue).2.flags ||| addFlags } } := by
  unfold Variable.SetRawValue
  rw [if_pos inRange]
  refine kept.put (fun replicated => ?_)
  unfold Variable.Has at replicated ⊢
  dsimp only at replicated ⊢
  rw [replicatedOr] at replicated
  rw [modifiedOr]
  cases equal : (types.traitsOf v.kind).Equal v.m_curValue newValue with
  | false =>
    rw [if_neg Bool.false_ne_true,modifiedOr]
    exact .inl (.inl (.inr (by decide)))
  | true =>
    rw [equal,if_pos rfl] at replicated
    rw [if_pos rfl]
    rcases marked replicated with modified | differs | none | ⟨before,same⟩
    · exact .inl (.inl modified)
    · rw [equal] at differs
      cases differs
    · right
      intro held mem
      rw [none] at mem
      cases mem
    · refine (kept v known before).imp .inl (fun holds held mem => ?_)
      rw [holds held mem,← same]
      rfl

theorem Kept.command (kept : s.Kept) {command : SetCommand} {name value : Text}
    (noticed : s.Noticed (.Command command name value)) : (s.step (.Command command name value)).Kept := by
  unfold Replication.step VariableManager.setCommand
  dsimp only
  cases found : s.manager.find name with
  | none =>
    refine kept.put (fun _ => .inl (Variable.setModified ?_ value))
    exact modifiedOr.mpr (.inl (by decide))
  | some v =>
    have known := VariableManager.findSelf found
    dsimp only
    rcases v.setValue value with refused | ⟨newValue,parsed,inRange,internal,readOnly,set⟩
    · rw [refused]
      exact kept.put (fun replicated => kept v known replicated)
    · have marked := noticed v found internal readOnly newValue parsed inRange
      have accepted : (v.SetRawValue newValue).1 = true := by
        unfold Variable.SetRawValue
        rw [if_pos inRange]
      rw [set,if_pos accepted]
      exact kept.changed known marked inRange

theorem Kept.rawValue (kept : s.Kept) {name : Text} {newValue : (kind : Option types.Kind) × types.typeOf kind}
    (noticed : s.Noticed (.SetRawValue name newValue)) : (s.step (.SetRawValue name newValue)).Kept := by
  unfold Replication.step Replication.SetRawValue
  dsimp only
  cases found : s.manager.find name with
  | none => exact kept
  | some v =>
    have known := VariableManager.findSelf found
    dsimp only
    split
    · rename_i same
      by_cases inRange : v.InRange (same ▸ newValue.2) = true
      · have changed := kept.changed known (noticed v found same inRange) inRange
        have none (flags : Flags) : flags ||| ConVar_None = flags := BitVec.or_zero
        simp only [none] at changed
        exact changed
      · have refused : v.SetRawValue (same ▸ newValue.2) = (false,v) := if_neg inRange
        rw [refused]
        exact kept.put (fun replicated => kept v known replicated)
    · exact kept

omit [DecidableEq types.Kind] in
theorem listed {flagged : List (Variable types)} (known : ∀ w ∈ flagged, s.manager.find w.name = some w)
    {v : Variable types} (found : s.manager.find v.name = some v) :
    ∀ e ∈ flagged.map (fun w => (w.name,w.GetValue)), e.1 = v.name → e.2 = v.GetValue := by
  intro e mem same
  obtain ⟨w,inside,rfl⟩ := List.mem_map.mp mem
  have twice := known w inside
  dsimp only at same
  rw [same,found] at twice
  cases twice
  rfl

theorem Kept.connected (kept : s.Kept) (held : Replica) : (s.step (.ConnectedClient held)).Kept := by
  intro v known replicated
  refine (kept v known replicated).imp_right (fun holds held' mem => ?_)
  rcases List.mem_append.mp mem with earlier | new
  · exact holds held' earlier
  · cases List.mem_singleton.mp new
    have inside := VariableManager.memForAll known replicated
    exact received (listed (fun w mem => VariableManager.forAllKnown mem) known)
      (.inl (List.mem_map_of_mem inside))

omit [DecidableEq types.Kind] in
theorem tickedFind {sent : List (Variable types)} {manager : VariableManager types} {name : Text} {w : Variable types}
    (found : (sent.foldl (fun manager v => manager.RemoveEntryFlags v.name ConVar_Modified) manager).find name = some w) :
    ∃ v, manager.find name = some v ∧ w.name = v.name ∧ w.GetValue = v.GetValue ∧
      (w.Has ConVar_Replicated ↔ v.Has ConVar_Replicated) := by
  induction sent generalizing manager with
  | nil => exact ⟨w,found,rfl,rfl,Iff.rfl⟩
  | cons u rest ih =>
    obtain ⟨v,first,sameName,sameValue,sameFlag⟩ := ih found
    dsimp only at first
    unfold VariableManager.RemoveEntryFlags at first
    split at first
    · rename_i entry known
      rw [VariableManager.findPut] at first
      split at first
      · rename_i here
        cases first
        have old : manager.find name = some entry := by
          unfold VariableManager.find
          rw [here]
          exact VariableManager.findSelf known
        exact ⟨entry,old,sameName,sameValue,sameFlag.trans replicatedCleared⟩
      · exact ⟨v,first,sameName,sameValue,sameFlag⟩
    · exact ⟨v,first,sameName,sameValue,sameFlag⟩

theorem Kept.ticked (kept : s.Kept) : (s.step .Tick).Converged := by
  intro w known replicated held mem
  obtain ⟨v,found,sameName,sameValue,sameFlag⟩ := tickedFind known
  have before := sameFlag.mp replicated
  rw [sameName] at found ⊢
  rw [sameValue]
  have self := VariableManager.findSelf found
  let both := ConVar_Replicated ||| ConVar_Modified
  let sent := (s.manager.ForAllVariables both).filter (fun v => v.flags &&& both = both)
  have known' : ∀ u ∈ sent, s.manager.find u.name = some u :=
    fun u mem => VariableManager.forAllKnown (List.mem_filter.mp mem).1
  have only := listed known' self
  have marked (modified : v.Has ConVar_Modified) : (v.name,v.GetValue) ∈ sent.map (fun v => (v.name,v.GetValue)) := by
    have flags := bothFlags before modified
    have nonzero : v.flags &&& both ≠ 0 := by
      rw [flags]
      decide
    exact List.mem_map_of_mem
      (List.mem_filter.mpr ⟨VariableManager.memForAll self nonzero,decide_eq_true flags⟩)
  have clients : (s.step .Tick).clients = if sent.map (fun v => (v.name,v.GetValue)) = [] then s.clients
      else s.clients.map (fun held => receive held (sent.map (fun v => (v.name,v.GetValue)))) := rfl
  rw [clients] at mem
  split at mem
  · rename_i nothing
    refine (kept v self before).elim (fun modified => ?_) (fun holds => holds held mem)
    have inside := marked modified
    rw [nothing] at inside
    cases inside
  · obtain ⟨earlier,inside,rfl⟩ := List.mem_map.mp mem
    exact received only ((kept v self before).imp marked (fun holds => holds earlier inside))

theorem Kept.step {e : ReplicationEvent types} (kept : s.Kept) (noticed : s.Noticed e) :
    (s.step e).Kept ∧ s.Promised e := by
  cases e with
  | Command command name value => exact ⟨kept.command noticed,trivial⟩
  | SetRawValue name newValue => exact ⟨kept.rawValue noticed,trivial⟩
  | ConnectedClient held => exact ⟨kept.connected held,trivial⟩
  | Tick => exact ⟨kept.ticked.kept,kept.ticked⟩

theorem replicatedConverge (manager : VariableManager types) {events : List (ReplicationEvent types)}
    (noticed : Along Replication.step Noticed ⟨manager,[]⟩ events) :
    Along Replication.step Promised ⟨manager,[]⟩ events :=
  alongOfKept Kept (fun _ _ kept noticed => kept.step noticed) (fun _ _ _ => .inr (fun _ mem => absurd mem List.not_mem_nil))
    noticed

def textOnly : VariableTypes := ⟨Empty,fun _ => Empty,fun kind => kind.elim⟩

instance : DecidableEq textOnly.Kind := fun kind => kind.elim

def registered : VariableManager textOnly :=
  VariableManager.put ⟨.empty,VariableManager.emptyNamed⟩ ⟨text "motd",ConVar_None,none,text "hi",none⟩

theorem replicatedConvergeSample : Along Replication.step Promised ⟨registered,[]⟩
    [.Command .setr (text "motd") (text "hi"),.ConnectedClient (fun _ => none),
      .Command .setr (text "motd") (text "hello"),.Tick] := by
  refine replicatedConverge registered ⟨?_,trivial,?_,trivial,trivial⟩
  · intro v _ _ _ _ _ _ _
    exact .inr (.inr (.inl rfl))
  · intro v found _ _ newValue parsed _ _
    cases found
    cases parsed
    exact .inr (.inl rfl)

theorem unchangedNeverSent : ¬Along Replication.step Promised ⟨registered,[]⟩
    [.ConnectedClient (fun _ => none),.Command .setr (text "motd") (text "hi"),.Tick] := by
  rintro ⟨-,-,converged,-⟩
  have holds := converged ⟨text "motd",ConVar_Replicated,none,text "hi",none⟩ rfl
    (replicatedBit.mpr rfl) (fun _ => none) List.mem_cons_self
  cases holds

end Replication
end Citizen.Console
