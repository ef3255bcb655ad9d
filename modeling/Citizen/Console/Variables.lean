import Citizen.Console.CommandBuffer
import Mathlib.Data.List.Lex

/-! `ConsoleVariableManager`: variables of texts, the commands that set them and `SaveConfiguration`. -/
namespace Citizen.Console
open BitField (Byte)

abbrev Flags := BitVec 32

def ConVar_None : Flags := 0x0
def ConVar_Archive : Flags := 0x1
def ConVar_Modified : Flags := 0x2
def ConVar_ServerInfo : Flags := 0x4
def ConVar_Replicated : Flags := 0x8
def ConVar_ReadOnly : Flags := 0x10
def ConVar_Internal : Flags := 0x40

def key (name : Text) : List Nat := ((name.takeWhile (fun b => b ≠ 0)).map tolower).map BitVec.toNat

structure Entry where
  name : Text
  defaultFlags : Flags
  flags : Flags
  m_curValue : Text
  m_offlineValue : Text
  token : Nat
  deriving DecidableEq

def Ordered (entries : List Entry) : Prop := entries.Pairwise (fun a b => key a.name < key b.name)

structure ConsoleVariableManager where
  m_entries : List Entry
  ordered : Ordered m_entries
  m_curToken : Nat

structure Environment where
  IS_FXSERVER : Bool
  seCheckPrivilege : Text → Bool
  other : Text → List Text → ConsoleVariableManager → ConsoleVariableManager

def insertEntry (e : Entry) : List Entry → List Entry
  | [] => [e]
  | a :: rest => if key e.name < key a.name then e :: a :: rest else a :: insertEntry e rest

theorem memInsert {e a : Entry} {entries : List Entry} : a ∈ insertEntry e entries ↔ a = e ∨ a ∈ entries := by
  induction entries with
  | nil => simp [insertEntry]
  | cons b rest ih =>
    unfold insertEntry
    split
    · rw [List.mem_cons]
    · rw [List.mem_cons,ih,List.mem_cons]
      tauto

theorem orderedInsert {e : Entry} {entries : List Entry} (ordered : Ordered entries)
    (new : ∀ a ∈ entries, key a.name ≠ key e.name) : Ordered (insertEntry e entries) := by
  induction entries with
  | nil => exact List.pairwise_singleton _ _
  | cons b rest ih =>
    obtain ⟨first,later⟩ := List.pairwise_cons.mp ordered
    unfold insertEntry
    split
    · rename_i before
      refine List.pairwise_cons.mpr ⟨fun a mem => ?_,ordered⟩
      rcases List.mem_cons.mp mem with rfl | mem
      · exact before
      · exact lt_trans before (first a mem)
    · rename_i after
      have above : key b.name < key e.name := lt_of_le_of_ne (not_lt.mp after) (new b List.mem_cons_self)
      refine List.pairwise_cons.mpr ⟨fun a mem => ?_,ih later (fun a mem => new a (List.mem_cons_of_mem _ mem))⟩
      rcases memInsert.mp mem with rfl | mem
      · exact above
      · exact first a mem

namespace ConsoleVariableManager

def fresh : ConsoleVariableManager := ⟨[],List.Pairwise.nil,0⟩

def find (s : ConsoleVariableManager) (name : Text) : Option Entry :=
  s.m_entries.find? (fun e => key e.name = key name)

def adjust (s : ConsoleVariableManager) (name : Text) (f : Entry → Entry) (named : ∀ e, (f e).name = e.name) :
    ConsoleVariableManager :=
  { s with
    m_entries := s.m_entries.map (fun e => if key e.name = key name then f e else e)
    ordered := by
      have same (e : Entry) : (if key e.name = key name then f e else e).name = e.name := by
        split
        · exact named e
        · rfl
      refine List.pairwise_map.mpr (s.ordered.imp (fun {a b} before => ?_))
      rw [same,same]
      exact before }

def Register (s : ConsoleVariableManager) (name : Text) (flags : Flags) (value : Text) : ConsoleVariableManager :=
  let others := s.m_entries.filter (fun e => key e.name ≠ key name)
  { m_entries := insertEntry ⟨name,flags,flags,value,value,s.m_curToken⟩ others
    ordered := orderedInsert (s.ordered.filter _) (fun _ mem => of_decide_eq_true (List.mem_filter.mp mem).2)
    m_curToken := s.m_curToken + 1 }

def GetEntryFlags (s : ConsoleVariableManager) (name : Text) : Flags :=
  match s.find name with
  | some e => e.flags
  | none => 0

def AddEntryFlags (s : ConsoleVariableManager) (name : Text) (flags : Flags) : ConsoleVariableManager :=
  s.adjust name (fun e => { e with flags := e.flags ||| flags }) (fun _ => rfl)

def SetRawValue (env : Environment) (s : ConsoleVariableManager) (m_name oldValue newValue : Text) :
    Bool × ConsoleVariableManager :=
  if env.IS_FXSERVER = false ∧ s.GetEntryFlags m_name &&& ConVar_Replicated ≠ 0 ∧
      env.seCheckPrivilege (text "builtin.setReplicated") = false then (false,s)
  else
    let s := s.adjust m_name (fun e => { e with m_curValue := newValue }) (fun _ => rfl)
    (true,if oldValue ≠ newValue then s.AddEntryFlags m_name ConVar_Modified else s)

def SetValue (env : Environment) (s : ConsoleVariableManager) (m_name oldValue value : Text) :
    Bool × ConsoleVariableManager :=
  if s.GetEntryFlags m_name &&& ConVar_Internal ≠ 0 then (false,s)
  else if s.GetEntryFlags m_name &&& ConVar_ReadOnly ≠ 0 then (false,s)
  else SetRawValue env s m_name oldValue value

def setCommand (env : Environment) (s : ConsoleVariableManager) (addFlags : Flags) (name value : Text) :
    ConsoleVariableManager :=
  match s.find name with
  | some entry =>
    let set := SetValue env s entry.name entry.m_curValue value
    if set.1 then set.2.AddEntryFlags entry.name addFlags else set.2
  | none => (SetValue env (s.Register name (ConVar_Modified ||| addFlags) []) name [] value).2

def setFlags (env : Environment) (commandName : Text) : Option Flags :=
  if key commandName = key (text "set") then some ConVar_None
  else if key commandName = key (text "seta") then some ConVar_Archive
  else if env.IS_FXSERVER ∧ key commandName = key (text "sets") then some ConVar_ServerInfo
  else if key commandName = key (text "setr") then some ConVar_Replicated
  else none

def InvokeDirect (env : Environment) (s : ConsoleVariableManager) (commandName : Text) (arguments : List Text) :
    ConsoleVariableManager :=
  match setFlags env commandName,arguments with
  | some addFlags,[name,value] =>
    if env.seCheckPrivilege (text "command." ++ commandName) then setCommand env s addFlags name value else s
  | _,_ => env.other commandName arguments s

def Invoke (env : Environment) (s : ConsoleVariableManager) : List Text → ConsoleVariableManager
  | [] => s
  | command :: arguments => InvokeDirect env s command arguments

def ForAllVariables (s : ConsoleVariableManager) (flagMask : Flags) : List Entry :=
  s.m_entries.filter (fun e => e.flags &&& flagMask ≠ 0 ∨ (e.flags = 0 ∧ flagMask = -1))

def savedLine (name value : Text) : Text :=
  text "seta " ++ byte quote :: (name ++ byte quote :: byte ' ' :: byte quote :: (value ++ [byte quote]))

def SaveConfiguration (s : ConsoleVariableManager) : List Text :=
  (s.ForAllVariables ConVar_Archive).map (fun e =>
    if e.flags &&& ConVar_Replicated ≠ 0 then savedLine e.name e.m_offlineValue else savedLine e.name e.m_curValue)

end ConsoleVariableManager
end Citizen.Console
