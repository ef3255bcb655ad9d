import Citizen.Console.SavedConfiguration

/-! The variables that a saved configuration brings back. -/
namespace Citizen.Console
open BitField (Byte)

namespace ConsoleVariableManager

section Creating
variable {env : Environment} {s : ConsoleVariableManager} {name value : Text}

theorem insertLast {e : Entry} {entries : List Entry} (last : ∀ a ∈ entries, key a.name < key e.name) :
    insertEntry e entries = entries ++ [e] := by
  induction entries with
  | nil => rfl
  | cons a rest ih =>
    rw [insertEntry,if_neg (not_lt_of_gt (last a List.mem_cons_self))]
    rw [ih (fun b mem => last b (List.mem_cons_of_mem _ mem))]
    rfl

theorem adjustLast {f : Entry → Entry} {named : ∀ e, (f e).name = e.name} {rest : List Entry} {e : Entry}
    (ends : s.m_entries = rest ++ [e]) (other : ∀ a ∈ rest, key a.name ≠ key name) (here : key e.name = key name) :
    (s.adjust name f named).m_entries = rest ++ [f e] := by
  have same : rest.map (fun a => if key a.name = key name then f a else a) = rest := by
    refine (List.map_congr_left (fun a mem => if_neg (other a mem))).trans (List.map_id _)
  unfold adjust
  dsimp only
  rw [ends,List.map_append,same,List.map_singleton,if_pos here]

theorem flagsLast {rest : List Entry} {e : Entry} (ends : s.m_entries = rest ++ [e])
    (other : ∀ a ∈ rest, key a.name ≠ key name) (here : key e.name = key name) : s.GetEntryFlags name = e.flags := by
  have found : s.find name = some e := by
    have absent : rest.find? (fun a => key a.name = key name) = none :=
      List.find?_eq_none.mpr (fun a mem same => other a mem (of_decide_eq_true same))
    unfold find
    rw [ends,List.find?_append,absent,Option.none_or]
    exact List.find?_cons_of_pos (by simpa using here)
  unfold GetEntryFlags
  rw [found]

theorem setValueLast {rest : List Entry} {e : Entry} {oldValue : Text} (ends : s.m_entries = rest ++ [e])
    (other : ∀ a ∈ rest, key a.name ≠ key name) (here : key e.name = key name)
    (free : e.flags = ConVar_Modified ||| ConVar_Archive) :
    (SetValue env s name oldValue value).2.m_entries = rest ++ [{ e with m_curValue := value }] := by
  have flags := (flagsLast ends other here).trans free
  unfold SetValue SetRawValue
  rw [flags,if_neg (by decide),if_neg (by decide),if_neg (fun all => absurd all.2.1 (by decide))]
  have written := @adjustLast s name (fun e => { e with m_curValue := value }) (fun _ => rfl) rest e ends other here
  dsimp only
  split
  · refine (adjustLast written other here).trans ?_
    rw [free]
    rfl
  · exact written

theorem invokeSeta : s.Invoke env (setaWords (name,value)) =
    if env.seCheckPrivilege (text "command.seta") then setCommand env s ConVar_Archive name value else s := by
  have archive : setFlags env (text "seta") = some ConVar_Archive := by
    unfold setFlags
    rw [if_neg (by decide),if_pos rfl]
  have privilege : text "command." ++ text "seta" = text "command.seta" := by decide
  unfold setaWords Invoke InvokeDirect
  simp only [archive,privilege]

theorem setaAppends (may : env.seCheckPrivilege (text "command.seta") = true)
    (last : ∀ a ∈ s.m_entries, key a.name < key name) :
    ∃ e, (s.Invoke env (setaWords (name,value))).m_entries = s.m_entries ++ [e] ∧ e.name = name ∧
      e.m_curValue = value ∧ e.flags &&& ConVar_Archive ≠ 0 := by
  have other (a : Entry) (mem : a ∈ s.m_entries) : key a.name ≠ key name := ne_of_lt (last a mem)
  have absent : s.find name = none :=
    List.find?_eq_none.mpr (fun a mem same => other a mem (of_decide_eq_true same))
  have registered : (s.Register name (ConVar_Modified ||| ConVar_Archive) []).m_entries =
      s.m_entries ++ [⟨name,ConVar_Modified ||| ConVar_Archive,ConVar_Modified ||| ConVar_Archive,[],[],s.m_curToken⟩] := by
    have all : s.m_entries.filter (fun e => key e.name ≠ key name) = s.m_entries :=
      List.filter_eq_self.mpr (fun a mem => decide_eq_true (other a mem))
    unfold Register
    dsimp only
    rw [all,insertLast last]
  have set : (setCommand env s ConVar_Archive name value).m_entries = s.m_entries ++
      [⟨name,ConVar_Modified ||| ConVar_Archive,ConVar_Modified ||| ConVar_Archive,value,[],s.m_curToken⟩] := by
    unfold setCommand
    rw [absent]
    exact setValueLast registered other rfl rfl
  have archived : (ConVar_Modified ||| ConVar_Archive) &&& ConVar_Archive ≠ 0 := by decide
  exact ⟨_,by rw [invokeSeta,if_pos may]; exact set,rfl,rfl,archived⟩

def Archived (e : Entry) : Prop := e.flags &&& ConVar_Archive ≠ 0

def named (e : Entry) : Text × Text := (e.name,e.m_curValue)

theorem setaCreates (may : env.seCheckPrivilege (text "command.seta") = true) {vs : List (Text × Text)}
    (sorted : vs.Pairwise (fun u v => key u.1 < key v.1)) (last : ∀ a ∈ s.m_entries, ∀ v ∈ vs, key a.name < key v.1) :
    ∃ es, ((vs.map setaWords).foldl (Invoke env) s).m_entries = s.m_entries ++ es ∧ es.map named = vs ∧
      ∀ e ∈ es, Archived e := by
  induction vs generalizing s with
  | nil => exact ⟨[],(List.append_nil _).symm,rfl,fun e mem => absurd mem List.not_mem_nil⟩
  | cons v vs ih =>
    obtain ⟨first,later⟩ := List.pairwise_cons.mp sorted
    obtain ⟨e,appended,name,value,archived⟩ := @setaAppends env s v.1 v.2 may (fun a mem => last a mem v List.mem_cons_self)
    obtain ⟨es,entries,names,each⟩ := @ih (s.Invoke env (setaWords v)) later (fun a mem u among => by
      rw [appended] at mem
      rcases List.mem_append.mp mem with old | new
      · exact last a old u (List.mem_cons_of_mem _ among)
      · rw [List.mem_singleton.mp new,name]
        exact first u among)
    refine ⟨e :: es,?_,?_,?_⟩
    · rw [List.map_cons,List.foldl_cons,entries,appended,List.append_assoc]
      rfl
    · rw [List.map_cons,names]
      exact congrArg (· :: vs) (Prod.ext name value)
    · intro a mem
      rcases List.mem_cons.mp mem with rfl | mem
      · exact archived
      · exact each a mem

theorem setaNothing (denied : env.seCheckPrivilege (text "command.seta") = false) (vs : List (Text × Text)) :
    (vs.map setaWords).foldl (Invoke env) s = s := by
  induction vs with
  | nil => rfl
  | cons v vs ih =>
    have stays : s.Invoke env (setaWords v) = s := invokeSeta.trans (by rw [denied]; rfl)
    rw [List.map_cons,List.foldl_cons,stays,ih]

end Creating
def archive (s : ConsoleVariableManager) : List Entry := s.ForAllVariables ConVar_Archive

theorem archiveSorted (s : ConsoleVariableManager) : (s.archive.map named).Pairwise (fun u v => key u.1 < key v.1) :=
  List.pairwise_map.mpr (s.ordered.filter _)

def addLines (eol : Eol) (lines : List Text) : Context :=
  lines.foldl (fun s line => s.AddToBuffer (line ++ eol.bytes)) ⟨[],0⟩

def loaded (json : NarrowJson) (wide : WideJson) (eol : Eol) (now : Nat) (s : ConsoleVariableManager) :
    List (List Text) :=
  invoked wide ((addLines eol s.SaveConfiguration).ExecuteBuffer json now).1

structure Restored (env : Environment) (commands : List (List Text)) (saved : List Entry) : Prop where
  executed : commands = saved.map (fun e => setaWords (named e))
  values : (commands.foldl (Invoke env) fresh).m_entries.map named = saved.map named
  archived : ∀ e ∈ (commands.foldl (Invoke env) fresh).m_entries, Archived e

section Loading
variable {json : NarrowJson} {wide : WideJson} {eol : Eol}

theorem addLinesBuffer (vs : List (Text × Text)) (before : Text) :
    ((vs.map (fun v => savedLine v.1 v.2)).foldl (fun (s : Context) line => s.AddToBuffer (line ++ eol.bytes)) ⟨before,0⟩) =
      ⟨before ++ savedText eol vs,0⟩ := by
  induction vs generalizing before with
  | nil => rw [savedText,List.append_nil]; rfl
  | cons v vs ih =>
    rw [List.map_cons,List.foldl_cons]
    refine (ih _).trans ?_
    rw [savedText,List.append_assoc,List.append_assoc]

theorem savedLocal {s : ConsoleVariableManager} (own : ∀ e ∈ s.archive, e.flags &&& ConVar_Replicated = 0) :
    s.SaveConfiguration = (s.archive.map named).map (fun v => savedLine v.1 v.2) := by
  unfold SaveConfiguration
  rw [List.map_map]
  exact List.map_congr_left (fun e mem => if_neg (fun replicated => replicated (own e mem)))

theorem loadedWords {now : Nat} {s : ConsoleVariableManager}
    (own : ∀ e ∈ s.archive, e.flags &&& ConVar_Replicated = 0) :
    loaded json wide eol now s = executedWords json wide (savedText eol (s.archive.map named)) := by
  unfold loaded addLines
  rw [savedLocal own,addLinesBuffer]
  rfl

theorem savedRestored (env : Environment) (json : NarrowJson) (wide : WideJson) (eol : Eol) (now : Nat)
    (s : ConsoleVariableManager) (own : ∀ e ∈ s.archive, e.flags &&& ConVar_Replicated = 0)
    (set : ∀ e ∈ s.archive, Settable e.name ∧ Settable e.m_curValue) :
    Restored env (loaded json wide eol now s) s.archive ↔
      (∀ e ∈ s.archive, CleanBytes e.name ∧ CleanBytes e.m_curValue) ∧
        (s.archive ≠ [] → env.seCheckPrivilege (text "command.seta") = true) := by
  have each : ∀ v ∈ s.archive.map named, Settable v.1 ∧ Settable v.2 := List.forall_mem_map.mpr set
  have words : s.archive.map (fun e => setaWords (named e)) = (s.archive.map named).map setaWords := by
    rw [List.map_map]
    rfl
  have executes := @savedExecuted json wide eol _ each
  rw [List.forall_mem_map] at executes
  rw [loadedWords own]
  constructor
  · rintro ⟨executed,values,_⟩
    rw [words] at executed
    refine ⟨executes.mp executed,fun some_ => ?_⟩
    cases may : env.seCheckPrivilege (text "command.seta") with
    | true => rfl
    | false =>
      rw [executed,setaNothing may] at values
      exact absurd (List.map_eq_nil_iff.mp values.symm) some_
  · rintro ⟨clean,may⟩
    have executed := executes.mpr clean
    by_cases some_ : s.archive = []
    · rw [some_] at executed ⊢
      rw [executed]
      exact ⟨rfl,rfl,fun e mem => absurd mem List.not_mem_nil⟩
    · obtain ⟨made,entries,names,archived⟩ := @setaCreates env fresh (may some_) _ s.archiveSorted
        (fun a mem => absurd mem List.not_mem_nil)
      rw [← executed] at entries
      refine ⟨executed.trans words.symm,?_,?_⟩
      · rw [entries]
        exact names
      · rw [entries]
        exact archived

end Loading

def single (name value : Text) : ConsoleVariableManager :=
  ⟨[⟨name,ConVar_Modified ||| ConVar_Archive,ConVar_Modified ||| ConVar_Archive,value,[],0⟩],
    List.pairwise_singleton _ _,1⟩

def console : Environment := ⟨false,fun _ => true,fun _ _ s => s⟩

theorem singleSet {name value : Text} (set : Settable name ∧ Settable value) :
    ∀ e ∈ (single name value).archive, Settable e.name ∧ Settable e.m_curValue := by
  intro e mem
  have inside : e ∈ (single name value).m_entries := (List.mem_filter.mp mem).1
  cases List.mem_singleton.mp inside
  exact set

theorem welcomeRestored : Restored console
    (loaded noJson noJson .crlf 5 (single (text "motd") (text "hello; {world}")))
      (single (text "motd") (text "hello; {world}")).archive :=
  (savedRestored console noJson noJson .crlf 5 (single (text "motd") (text "hello; {world}")) (by decide)
    (singleSet ⟨⟨⟨_,textUtf8 rfl⟩,by decide⟩,⟨⟨_,textUtf8 rfl⟩,by decide⟩⟩)).mpr
      ⟨by decide,fun _ => rfl⟩

def quotedValue : Text := text "say " ++ byte quote :: (text "hi" ++ [byte quote])

theorem quoteLost : Tokenize noJson (lineBytes [text "set",text "motd",quotedValue]) = [text "set",text "motd",quotedValue] ∧
    ¬Restored console (loaded noJson noJson .crlf 5 (single (text "motd") quotedValue))
      (single (text "motd") quotedValue).archive := by
  have encoded : Encoded quotedValue :=
    encodedAppend ⟨_,textUtf8 rfl⟩ (@encodedAppend [byte quote] (text "hi" ++ [byte quote]) ⟨[quote],rfl⟩
      (encodedAppend ⟨_,textUtf8 rfl⟩ ⟨[quote],rfl⟩))
  constructor
  · refine (tokenizeLine noJson (List.cons_ne_nil _ _) (by decide)).mpr ?_
    rintro w (_ | ⟨_,_ | ⟨_,_ | ⟨_,⟨⟩⟩⟩⟩)
    · exact ⟨_,textUtf8 rfl⟩
    · exact ⟨_,textUtf8 rfl⟩
    · exact encoded
  · rintro ⟨executed,_,_⟩
    have set : ∀ v ∈ [(text "motd",quotedValue)], Settable v.1 ∧ Settable v.2 := by
      rintro v (_ | ⟨_,⟨⟩⟩)
      exact ⟨⟨⟨_,textUtf8 rfl⟩,by decide⟩,⟨encoded,by decide⟩⟩
    rw [loadedWords (by decide)] at executed
    have clean := (@savedExecuted noJson noJson .crlf _ set).mp executed
    exact (clean _ (List.mem_singleton_self _)).2.1 (by decide)

end ConsoleVariableManager
end Citizen.Console
