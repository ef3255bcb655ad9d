import Citizen.Lib.PosixPath
import Citizen.Resources.ResourceManager

/-! `ScriptingFilesystemAllowWrite`: which files scripts may write, against the files that the paths denote. -/
namespace Citizen.Scripting
open PosixPath
open Resources (ResourceState)

inductive FilesystemPermission where
  | None
  | Read
  | Write
  deriving DecidableEq

structure Resource where
  name : Text
  state : ResourceState
  authors : Option (List Text)

structure ResourceManager where
  m_resources : Text → Option Resource
  m_resourceProvides : Text → List Resource

def ResourceManager.GetResource (s : ResourceManager) (identifier : Text) : Option Resource :=
  match s.m_resources identifier with
  | none => (s.m_resourceProvides identifier).head?
  | some resource =>
    if resource.state = .Stopped then
      ((s.m_resourceProvides identifier).find? (fun provider => provider.state = .Started)).or (some resource)
    else some resource

structure FileAccess where
  runtime : Option Resource
  manager : Option ResourceManager
  g_permissions : Text → Text → FilesystemPermission
  GetPath : Text → Option Text
  /-- Names of one file have one `fold`: the name itself, or what the file system compares of it. -/
  fold : Text → Text

def GetResourcePath (path : Text) : Text × Text :=
  match elements path with
  | [] => ([],[])
  | first :: rest =>
    match first with
    | [] => ([],[])
    | at_ :: resourceName => if at_ = byte '@' then (resourceName,rest.foldl append []) else ([],[])

def readonlyExtensions : List Text :=
  [text ".lua",text ".dll",text ".ts",text ".js",text ".mjs",text ".cjs",text ".cs"]

namespace FileAccess

def sameAuthor (resource currentResource : Resource) : Bool :=
  match resource.authors,currentResource.authors with
  | some (resourceAuthor :: _),some (currentResourceAuthor :: _) => resourceAuthor = currentResourceAuthor
  | _,_ => false

def modifies (s : FileAccess) (resourceName : Text) : Bool :=
  match s.runtime with
  | none => false
  | some currentResource =>
    if currentResource.name = resourceName then true
    else if s.g_permissions currentResource.name resourceName = .Write then
      match s.manager with
      | none => false
      | some manager =>
        match manager.GetResource resourceName with
        | none => true
        | some resource => if resource.state = .Uninitialized then true else sameAuthor resource currentResource
    else false

def ScriptingFilesystemAllowWrite (s : FileAccess) (path : Text) : Bool :=
  if (GetResourcePath path).1 = [] ∨ (GetResourcePath path).2 = [] then false
  else if readonlyExtensions.contains (extension path) = false then true
  else s.modifies (GetResourcePath path).1

def denotes (s : FileAccess) (path : Text) : Option (List Text) :=
  (s.GetPath (GetResourcePath path).1).map
    (fun root => resolve (root ++ byte '/' :: path.drop ((GetResourcePath path).1.length + 2)))

def Script (s : FileAccess) (root file : List Text) : Prop :=
  root.length < file.length ∧ root.map s.fold <+: file.map s.fold ∧
    ∃ name, file.getLast? = some name ∧ ∃ protectedExtension ∈ readonlyExtensions, s.fold (suffix name) = s.fold protectedExtension

def Foreign (s : FileAccess) (name : Text) : Prop :=
  ∀ currentResource, s.runtime = some currentResource →
    currentResource.name ≠ name ∧ s.g_permissions currentResource.name name ≠ .Write

def Harmless (s : FileAccess) (path : Text) : Prop :=
  ∀ file name root, s.denotes path = some file → s.GetPath name = some root → s.Foreign name → ¬s.Script (resolve root) file

def Addressed (path : Text) : Prop := (GetResourcePath path).1 ≠ [] ∧ (GetResourcePath path).2 ≠ []

/-- The path ends in a name, and the extension of the name is one of the list as it is written there. -/
def Spelled (path : Text) : Prop :=
  filename path ≠ [] ∧ filename path ≠ text "." ∧ filename path ≠ text ".." ∧ suffix (filename path) ∈ readonlyExtensions

def Author (resource : Resource) (author : Text) : Prop := ∃ others, resource.authors = some (author :: others)

/-- The runtime's own resource, and those that it was given for writing, by an author of its own as far as that is known. -/
def Entitled (s : FileAccess) (name : Text) : Prop :=
  ∃ currentResource, s.runtime = some currentResource ∧ (currentResource.name = name ∨
    s.g_permissions currentResource.name name = .Write ∧ ∃ manager, s.manager = some manager ∧
      ∀ resource, manager.GetResource name = some resource → resource.state ≠ .Uninitialized →
        ∃ author, Author resource author ∧ Author currentResource author)

/-- The path denotes a protected script of `name`, which the runtime may not write. -/
def Trespasses (s : FileAccess) (path name : Text) : Prop :=
  ∃ file root, s.denotes path = some file ∧ s.GetPath name = some root ∧ s.Foreign name ∧ s.Script (resolve root) file

def Hidden (s : FileAccess) (path : Text) : Prop := Addressed path ∧ (∃ name, s.Trespasses path name) ∧ ¬Spelled path

/-- The path leads out of a resource that the runtime may write, into another. -/
def Astray (s : FileAccess) (path : Text) : Prop :=
  Addressed path ∧ s.Entitled (GetResourcePath path).1 ∧ ∃ name, name ≠ (GetResourcePath path).1 ∧ s.Trespasses path name

variable {s : FileAccess} {path : Text}

theorem sameAuthorIff {resource currentResource : Resource} : sameAuthor resource currentResource = true ↔
    ∃ author, Author resource author ∧ Author currentResource author := by
  unfold sameAuthor
  constructor
  · intro agrees
    split at agrees
    · rename_i author others author' others' of of'
      exact ⟨author,⟨others,of⟩,⟨others',(of_decide_eq_true agrees).symm ▸ of'⟩⟩
    · cases agrees
  · rintro ⟨author,⟨others,of⟩,⟨others',of'⟩⟩
    rw [of,of']
    exact decide_eq_true rfl

theorem modifiesIff {name : Text} : s.modifies name = true ↔ s.Entitled name := by
  unfold modifies Entitled
  cases s.runtime with
  | none => exact iff_of_false (fun same => nomatch same) (fun ⟨_,running,_⟩ => nomatch running)
  | some currentResource =>
    simp only [Option.some.injEq,exists_eq_left']
    by_cases own : currentResource.name = name
    · rw [if_pos own]
      exact iff_of_true rfl (.inl own)
    rw [if_neg own,or_iff_right own]
    by_cases permitted : s.g_permissions currentResource.name name = .Write
    · rw [if_pos permitted,and_iff_right permitted]
      cases s.manager with
      | none => exact iff_of_false (fun same => nomatch same) (fun ⟨_,there,_⟩ => nomatch there)
      | some manager =>
        simp only [Option.some.injEq,exists_eq_left']
        cases manager.GetResource name with
        | none => exact iff_of_true rfl nofun
        | some resource =>
          simp only [Option.some.injEq,forall_eq']
          by_cases fresh : resource.state = .Uninitialized
          · rw [if_pos fresh]
            exact iff_of_true rfl (fun known => absurd fresh known)
          · rw [if_neg fresh,sameAuthorIff]
            exact ⟨fun author _ => author,fun each => each fresh⟩
    · rw [if_neg permitted]
      exact iff_of_false (fun same => nomatch same) (fun both => permitted both.1)

theorem foreignUnentitled {name : Text} (foreign : s.Foreign name) : ¬s.Entitled name := by
  rintro ⟨currentResource,running,own | permitted⟩
  · exact (foreign currentResource running).1 own
  · exact (foreign currentResource running).2 permitted.1

theorem spelledIff : Spelled path ↔ readonlyExtensions.contains (extension path) = true := by
  rw [List.contains_iff_mem]
  refine ⟨fun spelled => spelled.2.2.2,fun restricted => ?_⟩
  have named : ¬(filename path = [] ∨ filename path = text "." ∨ filename path = text "..") := by
    intro special
    rw [extension,suffixSpecial special] at restricted
    revert restricted
    decide
  obtain ⟨some_,dot,dots⟩ := not_or.mp named |>.imp_right not_or.mp
  exact ⟨some_,dot,dots,restricted⟩

theorem allowedIff : s.ScriptingFilesystemAllowWrite path = true ↔
    Addressed path ∧ (¬Spelled path ∨ s.Entitled (GetResourcePath path).1) := by
  unfold ScriptingFilesystemAllowWrite
  rw [spelledIff,← modifiesIff]
  by_cases addressed : Addressed path
  · rw [if_neg (not_or.mpr addressed),and_iff_right addressed]
    cases readonlyExtensions.contains (extension path) with
    | false => exact iff_of_true rfl (.inl (fun same => nomatch same))
    | true => exact (or_iff_right (fun unspelled => unspelled rfl)).symm
  · rw [if_pos (not_not.mp (fun invalid => addressed (not_or.mp invalid)))]
    exact iff_of_false (fun same => nomatch same) (fun both => addressed both.1)

theorem policyExact (s : FileAccess) (path : Text) :
    (s.ScriptingFilesystemAllowWrite path = true → s.Harmless path) ↔ ¬s.Hidden path ∧ ¬s.Astray path := by
  constructor
  · intro kept
    refine ⟨?_,?_⟩
    · rintro ⟨addressed,⟨name,file,root,denoted,rooted,foreign,script⟩,unspelled⟩
      exact kept (allowedIff.mpr ⟨addressed,.inl unspelled⟩) file name root denoted rooted foreign script
    · rintro ⟨addressed,entitled,name,-,file,root,denoted,rooted,foreign,script⟩
      exact kept (allowedIff.mpr ⟨addressed,.inr entitled⟩) file name root denoted rooted foreign script
  · rintro ⟨shown,straight⟩ allowed file name root denoted rooted foreign script
    obtain ⟨addressed,unspelled | entitled⟩ := allowedIff.mp allowed
    · exact shown ⟨addressed,⟨name,file,root,denoted,rooted,foreign,script⟩,unspelled⟩
    · refine straight ⟨addressed,entitled,name,fun same => ?_,file,root,denoted,rooted,foreign,script⟩
      exact foreignUnentitled foreign (same ▸ entitled)

def plainPath (resourceName : Text) (names : List Text) : Text := join ((byte '@' :: resourceName) :: names)

variable {resourceName : Text} {names : List Text}

theorem plainElements (unsplit : byte '/' ∉ resourceName) (plain : ∀ name ∈ names, Plain name) :
    elements (plainPath resourceName names) = (byte '@' :: resourceName) :: names := by
  refine elementsJoin (by simp) (List.forall_mem_cons.mpr ⟨⟨by simp,?_,?_,?_⟩,plain⟩)
  · exact fun same => absurd (List.cons.inj same).1 (by decide)
  · exact fun same => absurd (List.cons.inj same).1 (by decide)
  · exact fun mem => (List.mem_cons.mp mem).elim (by decide) unsplit

section
variable (some_ : names ≠ []) (unsplit : byte '/' ∉ resourceName) (plain : ∀ name ∈ names, Plain name)
include some_ unsplit plain

theorem plainDenotes :
    s.denotes (plainPath resourceName names) = (s.GetPath resourceName).map (fun root => resolve root ++ names) := by
  have named : (GetResourcePath (plainPath resourceName names)).1 = resourceName := by
    unfold GetResourcePath
    rw [plainElements unsplit plain]
    rfl
  have rest : (plainPath resourceName names).drop (resourceName.length + 2) = join names := by
    obtain ⟨name,later,rfl⟩ := List.exists_cons_of_ne_nil some_
    have cut : plainPath resourceName (name :: later) = (byte '@' :: resourceName ++ [byte '/']) ++ join (name :: later) := by
      simp [plainPath,join]
    rw [cut]
    exact List.drop_left' (by simp)
  unfold denotes
  rw [named,rest]
  refine Option.map_congr (fun root _ => ?_)
  rw [resolveAppend,partsJoin some_ plain,walkAll plain]

theorem plainFilename : ∃ front name, names = front ++ [name] ∧ filename (plainPath resourceName names) = name := by
  obtain ⟨front,name,rfl⟩ := List.eq_nil_or_concat' names |>.resolve_left some_
  refine ⟨front,name,rfl,?_⟩
  have whole : name ≠ [byte '/'] := fun same => (plain name (by simp)).2.2.2 (same ▸ List.mem_cons_self)
  unfold filename
  rw [plainElements unsplit plain,← List.cons_append,List.getLast?_concat]
  exact if_neg whole

theorem plainHarmless (apart : ∀ name other root otherRoot, s.GetPath name = some root → s.GetPath other = some otherRoot →
      (resolve root).map s.fold <+: (resolve otherRoot).map s.fold → name = other)
    (cased : ∀ name, ∀ protectedExtension ∈ readonlyExtensions, s.fold (suffix name) = s.fold protectedExtension →
      suffix name = protectedExtension)
    (allowed : s.ScriptingFilesystemAllowWrite (plainPath resourceName names) = true) :
    s.Harmless (plainPath resourceName names) := by
  rintro file name root denoted rooted foreign ⟨-,below,last,isLast,protectedExtension,listed,folded⟩
  have named : (GetResourcePath (plainPath resourceName names)).1 = resourceName := by
    unfold GetResourcePath
    rw [plainElements unsplit plain]
    rfl
  rw [plainDenotes some_ unsplit plain] at denoted
  obtain ⟨own,isOwn,rfl⟩ := Option.map_eq_some_iff.mp denoted
  have same : name = resourceName := by
    have ownBelow : (resolve own).map s.fold <+: (resolve own ++ names).map s.fold := by
      rw [List.map_append]
      exact List.prefix_append ..
    rcases List.prefix_or_prefix_of_prefix below ownBelow with above | above
    · exact apart name resourceName root own rooted isOwn above
    · exact (apart resourceName name own root isOwn rooted above).symm
  obtain ⟨front,final,rfl,isFinal⟩ := plainFilename some_ unsplit plain
  rw [← List.append_assoc,List.getLast?_concat] at isLast
  cases isLast
  obtain ⟨filled,dot,dots,-⟩ := plain last (by simp)
  obtain ⟨-,unspelled | entitled⟩ := allowedIff.mp allowed
  · refine unspelled ?_
    unfold Spelled
    rw [isFinal]
    exact ⟨filled,dot,dots,cased last protectedExtension listed folded ▸ listed⟩
  · rw [named,← same] at entitled
    exact foreignUnentitled foreign entitled

end

def twoResources : FileAccess where
  runtime := some ⟨text "a",.Started,none⟩
  manager := none
  g_permissions _ _ := .None
  GetPath name := if name = text "a" then some (text "/r/a") else if name = text "b" then some (text "/r/b") else none
  fold name := name

theorem ownScriptHarmless : twoResources.Harmless (plainPath (text "a") [text "s.lua"]) := by
  have mounted {name root : Text} (found : twoResources.GetPath name = some root) :
      name = text "a" ∧ root = text "/r/a" ∨ name = text "b" ∧ root = text "/r/b" := by
    simp only [twoResources] at found
    split at found
    · exact .inl ⟨by assumption,(Option.some.inj found).symm⟩
    split at found
    · exact .inr ⟨by assumption,(Option.some.inj found).symm⟩
    · cases found
  refine plainHarmless (List.cons_ne_nil _ _) (by decide) (fun name mem => ?_) ?_ (fun _ _ _ same => same) (by decide)
  · rw [List.mem_singleton.mp mem]
    exact ⟨by decide,by decide,by decide,by decide⟩
  · intro name other root otherRoot found found' below
    rcases mounted found with ⟨rfl,rfl⟩ | ⟨rfl,rfl⟩ <;> rcases mounted found' with ⟨rfl,rfl⟩ | ⟨rfl,rfl⟩
    · rfl
    · exact absurd below (by decide)
    · exact absurd below (by decide)
    · rfl

theorem neighbourWritten : twoResources.ScriptingFilesystemAllowWrite (text "@a/../b/s.lua") = true ∧
    ¬twoResources.Harmless (text "@a/../b/s.lua") := by
  refine ⟨by decide,fun harmless => ?_⟩
  refine harmless [text "r",text "b",text "s.lua"] (text "b") (text "/r/b") (by decide) (by decide) ?_ ?_
  · intro currentResource running
    cases running
    exact ⟨by decide,by decide⟩
  · exact ⟨by decide,by decide,text "s.lua",rfl,text ".lua",by decide,by decide⟩

end FileAccess
end Citizen.Scripting
