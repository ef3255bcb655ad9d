import Citizen.Console.Variables
import Citizen.Lib.Numeral
import Citizen.Lib.Run

/-! `ConsoleVariableEntry<T>` with the variable of the program that it tracks, and what is told of its changes. -/
namespace Citizen.Console

structure TrackedType (T : Type) where
  Unparse : T → Text
  Parse : Text → Option T
  Less : T → T → Bool
  Greater : T → T → Bool
  Equal : T → T → Bool
  LessEqual : T → T → Bool
  is_arithmetic : Bool

def TrackedType.Compare {T : Type} (type : TrackedType T) (value minValue maxValue : T) : Bool :=
  if type.is_arithmetic then
    if type.Greater value maxValue then false
    else if type.Less value minValue then false
    else true
  else true

def TrackedType.ordered {T : Type} [LinearOrder T] (Unparse : T → Text) (Parse : Text → Option T) : TrackedType T where
  Unparse := Unparse
  Parse := Parse
  Less a b := a < b
  Greater a b := a > b
  Equal a b := a = b
  LessEqual a b := a ≤ b
  is_arithmetic := true

structure ConsoleVariableEntry (T : Type) where
  flags : Flags
  m_curValue : T
  m_trackingVar : Option T
  constraints : Option (T × T)

inductive TrackingOperation (T : Type) where
  | SetValue (value : Text) (setReplicated : Bool)
  | SetRawValue (newValue : T) (setReplicated : Bool)
  | write (value : T)
  | GetValue
  | UpdateTrackingVariable (setReplicated : Bool)

inductive TrackingOutput where
  | observed (value : Text)
  | OnConvarModified (flags : Flags)
  | updated
  deriving DecidableEq

namespace ConsoleVariableEntry
open TrackingOutput
variable {T : Type} (type : TrackedType T) (IS_FXSERVER : Bool)

def InConstraints (s : ConsoleVariableEntry T) (value : T) : Bool :=
  match s.constraints with
  | some (m_minValue,m_maxValue) => type.Compare value m_minValue m_maxValue
  | none => true

def SetRawValue (s : ConsoleVariableEntry T) (newValue : T) (setReplicated : Bool) :
    ConsoleVariableEntry T × List TrackingOutput :=
  if !s.InConstraints type newValue then (s,[])
  else if !IS_FXSERVER && s.flags &&& ConVar_Replicated ≠ 0 && !setReplicated then (s,[])
  else
    let set := { s with m_curValue := newValue,m_trackingVar := s.m_trackingVar.map (fun _ => newValue) }
    if type.Equal s.m_curValue newValue then (set,[])
    else ({ set with flags := s.flags ||| ConVar_Modified },[OnConvarModified (s.flags ||| ConVar_Modified)])

def SetValue (s : ConsoleVariableEntry T) (value : Text) (setReplicated : Bool) : ConsoleVariableEntry T × List TrackingOutput :=
  if s.flags &&& ConVar_Internal ≠ 0 then (s,[])
  else if s.flags &&& ConVar_ReadOnly ≠ 0 then (s,[])
  else
    match type.Parse value with
    | some newValue => s.SetRawValue type IS_FXSERVER newValue setReplicated
    | none => (s,[])

def GetValue (s : ConsoleVariableEntry T) : ConsoleVariableEntry T :=
  match s.m_trackingVar with
  | some tracked => if type.Equal tracked s.m_curValue then s else { s with m_curValue := tracked }
  | none => s

def UpdateTrackingVariable (s : ConsoleVariableEntry T) (setReplicated : Bool) :
    ConsoleVariableEntry T × List TrackingOutput :=
  match s.m_trackingVar with
  | some tracked => if type.Equal tracked s.m_curValue then (s,[]) else s.SetRawValue type IS_FXSERVER tracked setReplicated
  | none => (s,[])

def act (s : ConsoleVariableEntry T) : TrackingOperation T → ConsoleVariableEntry T × List TrackingOutput
  | .SetValue value setReplicated => s.SetValue type IS_FXSERVER value setReplicated
  | .SetRawValue newValue setReplicated => s.SetRawValue type IS_FXSERVER newValue setReplicated
  | .write value => ({ s with m_trackingVar := s.m_trackingVar.map (fun _ => value) },[])
  | .GetValue => (s.GetValue type,[observed (type.Unparse (s.GetValue type).m_curValue)])
  | .UpdateTrackingVariable setReplicated =>
    let update := s.UpdateTrackingVariable type IS_FXSERVER setReplicated
    (update.1,update.2 ++ [updated])

def step (s : ConsoleVariableEntry T) (op : TrackingOperation T) : ConsoleVariableEntry T := (s.act type IS_FXSERVER op).1

def outputs : ConsoleVariableEntry T → List (TrackingOperation T) → List TrackingOutput
  | _,[] => []
  | s,op :: ops => (s.act type IS_FXSERVER op).2 ++ outputs (s.step type IS_FXSERVER op) ops

end ConsoleVariableEntry

namespace TrackingOutput

def Silent (outputs : List TrackingOutput) : Prop := ∀ value, observed value ∉ outputs

def Told (outputs : List TrackingOutput) : Prop := ∃ flags, OnConvarModified flags ∈ outputs ∧ flags &&& ConVar_Modified ≠ 0

/-- Of two values observed one after the other that differ, the change is told after the first of them and before
the first update that follows the second is done. -/
def Announced (outputs : List TrackingOutput) : Prop :=
  ∀ before old between new after rest,
    outputs = before ++ observed old :: (between ++ observed new :: (after ++ updated :: rest)) → Silent between →
      updated ∉ after → old ≠ new → Told (between ++ after)

theorem behindSilent {first rest before after : List TrackingOutput} {value : Text} (silent : Silent first)
    (whole : first ++ rest = before ++ observed value :: after) :
    ∃ between, before = first ++ between ∧ rest = between ++ observed value :: after := by
  obtain ⟨between,rfl,rest⟩ | ⟨more,rfl,behind⟩ := List.append_eq_append_iff.mp whole
  · exact ⟨between,rfl,rest⟩
  · cases more with
    | nil => exact ⟨[],by simp,behind.symm⟩
    | cons output more =>
      cases (List.cons.inj behind).1
      exact absurd (List.mem_append_right _ List.mem_cons_self) (silent value)

theorem Told.before {first : List TrackingOutput} (told : Told first) (rest : List TrackingOutput) : Told (first ++ rest) := by
  obtain ⟨flags,mem,set⟩ := told
  exact ⟨flags,List.mem_append_left _ mem,set⟩

theorem Told.behind {rest : List TrackingOutput} (told : Told rest) (first : List TrackingOutput) : Told (first ++ rest) := by
  obtain ⟨flags,mem,set⟩ := told
  exact ⟨flags,List.mem_append_right _ mem,set⟩

end TrackingOutput

namespace ConsoleVariableEntry
open TrackingOutput
variable {T : Type} {type : TrackedType T} {IS_FXSERVER : Bool} {s : ConsoleVariableEntry T}

variable (type) in
def Within (s : ConsoleVariableEntry T) (value : T) : Prop :=
  ∀ min max, s.constraints = some (min,max) → type.LessEqual min value ∧ type.LessEqual value max

variable (type) in
def Settable (s : ConsoleVariableEntry T) (value : T) : Prop :=
  (s.InConstraints type value → s.Within type value) ∧
  (type.Equal s.m_curValue value → type.Unparse value = type.Unparse s.m_curValue)

variable (type) in
def Right (s : ConsoleVariableEntry T) : TrackingOperation T → Prop
  | .SetValue value _ => ∀ newValue, type.Parse value = some newValue → s.Settable type newValue
  | .SetRawValue newValue _ => s.Settable type newValue
  | .write _ => True
  | .GetValue => ∀ tracked, s.m_trackingVar = some tracked → type.Equal tracked s.m_curValue = false →
    type.Unparse tracked = type.Unparse s.m_curValue ∧ s.Within type tracked
  | .UpdateTrackingVariable _ => ∀ tracked, s.m_trackingVar = some tracked → type.Equal tracked s.m_curValue = false →
    s.Settable type tracked

structure Sets (type : TrackedType T) (s : ConsoleVariableEntry T) (r : ConsoleVariableEntry T × List TrackingOutput) :
    Prop where
  bounds : r.1.constraints = s.constraints
  silent : Silent r.2
  told : type.Unparse r.1.m_curValue = type.Unparse s.m_curValue ∨ Told r.2
  within : s.Within type s.m_curValue → s.Within type r.1.m_curValue

theorem modifiedSet (flags : Flags) : (flags ||| ConVar_Modified) &&& ConVar_Modified ≠ 0 := by
  have bit : ((flags ||| ConVar_Modified) &&& ConVar_Modified) = ConVar_Modified := by
    ext i _
    simp only [BitVec.getElem_and,BitVec.getElem_or]
    cases flags[i] <;> cases ConVar_Modified[i] <;> rfl
  rw [bit]
  decide

theorem orderedSettable [LinearOrder T] {Unparse : T → Text} {Parse : Text → Option T} (value : T) :
    s.Settable (.ordered Unparse Parse) value := by
  constructor
  · intro inside min max bounds
    rw [InConstraints,bounds] at inside
    simpa [TrackedType.Compare,TrackedType.ordered,and_comm] using inside
  · intro same
    rw [of_decide_eq_true same]

theorem setsNothing : Sets type s (s,[]) := ⟨rfl,fun _ mem => (nomatch mem),.inl rfl,fun within => within⟩

theorem setRawValueSets {newValue : T} (settable : s.Settable type newValue) (setReplicated : Bool) :
    Sets type s (s.SetRawValue type IS_FXSERVER newValue setReplicated) := by
  unfold SetRawValue
  split
  · exact setsNothing
  · rename_i inside
    have within : s.Within type newValue := settable.1 (by simpa using inside)
    split
    · exact setsNothing
    · dsimp only
      split
      · rename_i same
        exact ⟨rfl,fun _ mem => (nomatch mem),.inl (settable.2 same),fun _ => within⟩
      · exact ⟨rfl,fun _ mem => by simp at mem,.inr ⟨_,List.mem_cons_self,modifiedSet _⟩,fun _ => within⟩

theorem setValueSets {value : Text} (settable : ∀ newValue, type.Parse value = some newValue → s.Settable type newValue)
    (setReplicated : Bool) : Sets type s (s.SetValue type IS_FXSERVER value setReplicated) := by
  unfold SetValue
  split
  · exact setsNothing
  · split
    · exact setsNothing
    · cases parsed : type.Parse value with
      | none => exact setsNothing
      | some newValue => exact setRawValueSets (settable newValue parsed) setReplicated

theorem updateSets {setReplicated : Bool} (right : s.Right type (.UpdateTrackingVariable setReplicated)) :
    Sets type s (s.UpdateTrackingVariable type IS_FXSERVER setReplicated) := by
  unfold UpdateTrackingVariable
  cases tracking : s.m_trackingVar with
  | none => exact setsNothing
  | some tracked =>
    dsimp only
    split
    · exact setsNothing
    · rename_i apart
      exact setRawValueSets (right tracked tracking (Bool.not_eq_true _ ▸ apart)) setReplicated

theorem Sets.updated {r : ConsoleVariableEntry T × List TrackingOutput} (sets : Sets type s r) :
    Sets type s (r.1,r.2 ++ [TrackingOutput.updated]) where
  bounds := sets.bounds
  silent value mem := by
    obtain mem | mem := List.mem_append.mp mem
    · exact sets.silent value mem
    · simp at mem
  told := sets.told.imp id (fun told => told.before _)
  within := sets.within

theorem actSets {op : TrackingOperation T} (right : s.Right type op) (other : op ≠ .GetValue) :
    Sets type s (s.act type IS_FXSERVER op) := by
  cases op with
  | SetValue value setReplicated => exact setValueSets right setReplicated
  | SetRawValue newValue setReplicated => exact setRawValueSets right setReplicated
  | write value => exact ⟨rfl,fun _ mem => (nomatch mem),.inl rfl,fun within => within⟩
  | GetValue => exact absurd rfl other
  | UpdateTrackingVariable setReplicated => exact (updateSets right).updated

theorem getValueKeeps (right : s.Right type .GetValue) :
    (s.GetValue type).constraints = s.constraints ∧ type.Unparse (s.GetValue type).m_curValue = type.Unparse s.m_curValue ∧
      (s.Within type s.m_curValue → s.Within type (s.GetValue type).m_curValue) := by
  unfold GetValue
  cases tracking : s.m_trackingVar with
  | none => exact ⟨rfl,rfl,fun within => within⟩
  | some tracked =>
    dsimp only
    split
    · exact ⟨rfl,rfl,fun within => within⟩
    · rename_i apart
      obtain ⟨same,within⟩ := right tracked tracking (Bool.not_eq_true _ ▸ apart)
      exact ⟨rfl,same,fun _ => within⟩

theorem stepWithin {op : TrackingOperation T} (within : s.Within type s.m_curValue) (right : s.Right type op) :
    (s.step type IS_FXSERVER op).Within type (s.step type IS_FXSERVER op).m_curValue := by
  have keeps : (s.step type IS_FXSERVER op).constraints = s.constraints ∧
      s.Within type (s.step type IS_FXSERVER op).m_curValue := by
    by_cases get : op = .GetValue
    · subst get
      exact ⟨(getValueKeeps right).1,(getValueKeeps right).2.2 within⟩
    · exact ⟨(actSets right get).bounds,(actSets right get).within within⟩
  intro min max bounded
  exact keeps.2 min max (keeps.1 ▸ bounded)

theorem outputsGetValue (ops : List (TrackingOperation T)) : s.outputs type IS_FXSERVER (.GetValue :: ops) =
    observed (type.Unparse (s.GetValue type).m_curValue) :: (s.GetValue type).outputs type IS_FXSERVER ops := rfl

section
variable {ops : List (TrackingOperation T)} (along : Along (step type IS_FXSERVER) (Right type) s ops)
include along

theorem firstObserved {between rest : List TrackingOutput} {new : Text}
    (whole : s.outputs type IS_FXSERVER ops = between ++ observed new :: rest) (silent : Silent between) :
    new = type.Unparse s.m_curValue ∨ Told between := by
  induction ops generalizing s between with
  | nil => simp [outputs] at whole
  | cons op ops ih =>
    by_cases get : op = .GetValue
    · subst get
      rw [outputsGetValue] at whole
      cases between with
      | nil =>
        cases (List.cons.inj whole).1
        exact .inl (getValueKeeps along.1).2.1
      | cons output between =>
        cases (List.cons.inj whole).1
        exact absurd List.mem_cons_self (silent _)
    · have sets : Sets type s (s.act type IS_FXSERVER op) := actSets along.1 get
      obtain ⟨later,rfl,behind⟩ := behindSilent sets.silent whole
      obtain same | told := ih along.2 behind (fun value mem => silent value (List.mem_append_right _ mem))
      · exact sets.told.imp (fun kept => same.trans kept) (fun told => told.before _)
      · exact .inr (told.behind _)

theorem observedTold {before between rest : List TrackingOutput} {old new : Text}
    (whole : s.outputs type IS_FXSERVER ops = before ++ observed old :: (between ++ observed new :: rest))
    (silent : Silent between) : new = old ∨ Told between := by
  induction ops generalizing s before with
  | nil => simp [outputs] at whole
  | cons op ops ih =>
    by_cases get : op = .GetValue
    · subst get
      rw [outputsGetValue] at whole
      cases before with
      | nil =>
        obtain ⟨here,behind⟩ := List.cons.inj whole
        cases here
        exact firstObserved along.2 behind silent
      | cons output before => exact ih along.2 (List.cons.inj whole).2
    · have sets : Sets type s (s.act type IS_FXSERVER op) := actSets along.1 get
      obtain ⟨later,_,behind⟩ := behindSilent sets.silent whole
      exact ih along.2 behind

theorem changesAnnounced : Announced (observed (type.Unparse s.m_curValue) :: s.outputs type IS_FXSERVER ops) := by
  intro before old between new after rest whole silent _ apart
  have same : new = old ∨ Told between := by
    cases before with
    | nil =>
      obtain ⟨here,behind⟩ := List.cons.inj whole
      cases here
      exact firstObserved along behind silent
    | cons output before => exact observedTold along (List.cons.inj whole).2 silent
  exact (same.resolve_left (fun same => apart same.symm)).before after

end

theorem trackedChanges {ops : List (TrackingOperation T)} (within : s.Within type s.m_curValue)
    (along : Along (step type IS_FXSERVER) (Right type) s ops) :
    Announced (observed (type.Unparse s.m_curValue) :: s.outputs type IS_FXSERVER ops) ∧
      Throughout (step type IS_FXSERVER) (fun s => s.Within type s.m_curValue) s ops :=
  ⟨changesAnnounced along,throughoutOfKept _ (fun _ _ => stepWithin) within along⟩

def uint32 : TrackedType (Fin (2 ^ 32)) :=
  .ordered (fun value => Numeral.numeral 10 value) (fun input => (Numeral.value 10 input).map (Fin.ofNat (2 ^ 32)))

theorem writtenAnnounced : Announced (observed (text "1") :: outputs uint32 true ⟨0,1,some 1,some (0,9)⟩
      [.SetValue (text "5") false,.GetValue,.write 7,.UpdateTrackingVariable false,.GetValue,.UpdateTrackingVariable false]) ∧
    Throughout (step uint32 true) (fun s => s.Within uint32 s.m_curValue) ⟨0,1,some 1,some (0,9)⟩
      [.SetValue (text "5") false,.GetValue,.write 7,.UpdateTrackingVariable false,.GetValue,.UpdateTrackingVariable false] := by
  have along : Along (step uint32 true) (Right uint32) ⟨0,1,some 1,some (0,9)⟩
      [.SetValue (text "5") false,.GetValue,.write 7,.UpdateTrackingVariable false,.GetValue,
        .UpdateTrackingVariable false] := by
    refine ⟨fun _ _ => orderedSettable _,?_,trivial,fun _ _ _ => orderedSettable _,?_,fun _ _ _ => orderedSettable _,trivial⟩
    · intro tracked tracking apart
      cases tracking
      exact absurd apart (by decide)
    · intro tracked tracking apart
      cases tracking
      exact absurd apart (by decide)
  have within : Within uint32 (⟨0,1,some 1,some (0,9)⟩ : ConsoleVariableEntry (Fin (2 ^ 32))) 1 := by
    intro min max bounds
    cases bounds
    decide
  exact trackedChanges within along

theorem readBeforeUpdate : ¬ Announced (observed (text "1") :: outputs uint32 true ⟨0,1,some 1,some (0,9)⟩
      [.write 77,.GetValue,.UpdateTrackingVariable false]) ∧
    ¬ Throughout (step uint32 true) (fun s => s.Within uint32 s.m_curValue) ⟨0,1,some 1,some (0,9)⟩
      [.write 77,.GetValue,.UpdateTrackingVariable false] := by
  constructor
  · intro announced
    obtain ⟨flags,mem,_⟩ := announced [] (text "1") [] (text "77") [] [] (by decide) (fun _ mem => nomatch mem)
      List.not_mem_nil (by decide)
    cases mem
  · intro all
    exact absurd ((throughoutLast all) 0 9 rfl) (by decide)

end ConsoleVariableEntry
end Citizen.Console
