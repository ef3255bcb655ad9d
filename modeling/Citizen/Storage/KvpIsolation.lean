import Citizen.Lib.OrderedMap
import Citizen.Lib.Run
import Citizen.Lib.Text
import Mathlib.Data.List.FinRange

/-! The natives of the resource key-value store: one database for all resources, and a table of enumerations. -/
namespace Citizen.Storage
open BitField (Byte)

attribute [local instance] byteOrder

structure FindHandle (Value : Type) where
  dbIter : Option (List (Text × Value))
  key : Text

structure Kvs (Value : Type) where
  db : OrderedMap Text Value
  g_handles : Fin 64 → FindHandle Value

/-- The result of a native: `unset` when none is stored, so that the first argument stands where the result is
read, `crash` for a null pointer that is read through. -/
inductive Result (Value : Type) where
  | none
  | unset
  | handle (index : Int)
  | value (value : Option Value)
  | name (name : Option Text)
  | exception
  | crash
  deriving DecidableEq

inductive KvpCall (Value : Type) where
  | SetResourceKvp (key : Text) (value : Value)
  | DeleteResourceKvp (key : Text)
  | GetResourceKvp (key : Text)
  | StartFindKvp (key : Text)
  | FindKvp (handleIdx : Int)
  | EndFindKvp (handleIdx : Int)

def FormatKey (resName key : Text) : Text := text "res:" ++ (resName ++ (byte ':' :: key))

def handleAt (handleIdx : Int) : Option (Fin 64) :=
  if inside : 0 ≤ handleIdx ∧ handleIdx < 64 then some ⟨handleIdx.toNat,by omega⟩ else none

namespace Kvs
variable {Value : Type}

def fresh : Kvs Value := ⟨.empty,fun _ => ⟨none,[]⟩⟩

def GetFindHandle (s : Kvs Value) : Option (Fin 64) :=
  (List.finRange 64).find? (fun i => (s.g_handles i).dbIter.isNone)

def PutResourceKvp (s : Kvs Value) (resName key : Text) (value : Value) : Kvs Value :=
  { s with db := s.db.insert (FormatKey resName key) value }

def DeleteResourceKvp (s : Kvs Value) (resName key : Text) : Kvs Value :=
  { s with db := s.db.erase (FormatKey resName key) }

def GetResourceKvp (s : Kvs Value) (resName key : Text) : Result Value := .value (s.db.find (FormatKey resName key))

def StartFindKvp (s : Kvs Value) (resName key : Text) : Kvs Value × Result Value :=
  let key := FormatKey resName key
  match s.GetFindHandle with
  | none => (s,.handle (-1))
  | some handle =>
    let dbIter := s.db.entries.dropWhile (fun e => e.1 < key)
    ({ s with g_handles := Function.update s.g_handles handle ⟨some dbIter,key⟩ },.handle handle.val)

def FindKvp (s : Kvs Value) (resName : Text) (handleIdx : Int) : Kvs Value × Result Value :=
  match handleAt handleIdx with
  | none => (s,.unset)
  | some i =>
    match (s.g_handles i).dbIter with
    | none => (s,.crash)
    | some [] => (s,.name none)
    | some ((k,_) :: next) =>
      if (s.g_handles i).key.isPrefixOf k = false then (s,.name none)
      else if k.length < (FormatKey resName []).length then (s,.exception)
      else
        ({ s with g_handles := Function.update s.g_handles i { s.g_handles i with dbIter := some next } },
          .name (some (k.drop (FormatKey resName []).length)))

def EndFindKvp (s : Kvs Value) (handleIdx : Int) : Kvs Value :=
  match handleAt handleIdx with
  | none => s
  | some i => { s with g_handles := Function.update s.g_handles i { s.g_handles i with dbIter := none } }

def call (s : Kvs Value) (resName : Text) : KvpCall Value → Kvs Value × Result Value
  | .SetResourceKvp key value => (s.PutResourceKvp resName key value,.none)
  | .DeleteResourceKvp key => (s.DeleteResourceKvp resName key,.none)
  | .GetResourceKvp key => (s,s.GetResourceKvp resName key)
  | .StartFindKvp key => s.StartFindKvp resName key
  | .FindKvp handleIdx => s.FindKvp resName handleIdx
  | .EndFindKvp handleIdx => (s.EndFindKvp handleIdx,.none)

end Kvs

/-! Each resource has a store of its own in the shared database, and its own enumerations. -/

def unformat (resName k : Text) : Option Text :=
  if (FormatKey resName []).isPrefixOf k then some (k.drop (FormatKey resName []).length) else none

theorem formatSplit (resName key : Text) : FormatKey resName key = FormatKey resName [] ++ key := by
  simp [FormatKey]

theorem unformatSome {resName k key : Text} (found : unformat resName k = some key) : k = FormatKey resName key := by
  unfold unformat at found
  split at found
  · rename_i starts
    cases found
    obtain ⟨rest,rfl⟩ := List.isPrefixOf_iff_prefix.mp starts
    rw [List.drop_left,← formatSplit]
  · cases found

theorem unformatFormat (resName key : Text) : unformat resName (FormatKey resName key) = some key := by
  rw [formatSplit,unformat,if_pos (List.isPrefixOf_iff_prefix.mpr (List.prefix_append _ _)),List.drop_left]

theorem appendMono {p a b : Text} (less : a < b) : p ++ a < p ++ b := by
  induction p with
  | nil => exact less
  | cons c p ih => exact List.Lex.cons ih

theorem formatMono (resName : Text) : StrictMono (FormatKey resName) := by
  intro a b less
  rw [formatSplit resName a,formatSplit resName b]
  exact appendMono less

variable {Value : Type}

def part (db : OrderedMap Text Value) (resName : Text) : OrderedMap Text Value :=
  db.restrict (FormatKey resName) (unformat resName) (formatMono resName) (fun _ _ => unformatSome)

/-- The database beside what it is for: a map for each resource, and for each open enumeration the resource that
started it and the names that it has still to give. -/
structure Stores (Resource Value : Type) where
  kvs : Kvs Value
  own : Resource → OrderedMap Text Value
  opened : Fin 64 → Option (Resource × List Text)

namespace Stores
variable {Resource : Type} [DecidableEq Resource] (GetName : Resource → Text)

def start : Stores Resource Value := ⟨.fresh,fun _ => .empty,fun _ => none⟩

def answer (s : Stores Resource Value) (r : Resource) (c : KvpCall Value) : Result Value :=
  (s.kvs.call (GetName r) c).2

def ownNames (s : Stores Resource Value) (r : Resource) (key : Text) : List Text :=
  ((s.own r).entries.filter (fun e => key.isPrefixOf e.1)).map Prod.fst

def openedBy (s : Stores Resource Value) (r : Resource) (handleIdx : Int) : Option (Fin 64 × List Text) :=
  (handleAt handleIdx).bind (fun i => (s.opened i).bind (fun e => if e.1 = r then some (i,e.2) else none))

def track (s : Stores Resource Value) (r : Resource) : KvpCall Value → Stores Resource Value
  | .SetResourceKvp key value => { s with own := Function.update s.own r ((s.own r).insert key value) }
  | .DeleteResourceKvp key => { s with own := Function.update s.own r ((s.own r).erase key) }
  | .GetResourceKvp _ => s
  | .StartFindKvp key =>
    match s.answer GetName r (.StartFindKvp key) with
    | .handle handleIdx =>
      match handleAt handleIdx with
      | some i => { s with opened := Function.update s.opened i (some (r,s.ownNames r key)) }
      | none => s
    | _ => s
  | .FindKvp handleIdx =>
    match s.openedBy r handleIdx with
    | some (i,names) => { s with opened := Function.update s.opened i (some (r,names.tail)) }
    | none => s
  | .EndFindKvp handleIdx =>
    match s.openedBy r handleIdx with
    | some (i,_) => { s with opened := Function.update s.opened i none }
    | none => s

def step (s : Stores Resource Value) (c : Resource × KvpCall Value) : Stores Resource Value :=
  { s.track GetName c.1 c.2 with kvs := (s.kvs.call (GetName c.1) c.2).1 }

def Isolated (s : Stores Resource Value) (c : Resource × KvpCall Value) : Prop :=
  match c.2 with
  | .GetResourceKvp key => s.answer GetName c.1 c.2 = .value ((s.own c.1).find key)
  | .FindKvp handleIdx =>
    match s.openedBy c.1 handleIdx with
    | some (_,names) => s.answer GetName c.1 c.2 = .name names.head?
    | none => s.answer GetName c.1 c.2 = .name none ∧ (s.kvs.call (GetName c.1) c.2).1 = s.kvs
  | .EndFindKvp handleIdx => s.openedBy c.1 handleIdx = none → (s.kvs.call (GetName c.1) c.2).1 = s.kvs
  | _ => True

/-- Nothing is stored or deleted under a key that lies in the part of another resource too, and handles are used by
those who opened them. -/
def Careful (s : Stores Resource Value) (c : Resource × KvpCall Value) : Prop :=
  match c.2 with
  | .SetResourceKvp key _ => ∀ r, r ≠ c.1 → ¬FormatKey (GetName r) [] <+: FormatKey (GetName c.1) key
  | .DeleteResourceKvp key => (∀ r, r ≠ c.1 → ¬FormatKey (GetName r) [] <+: FormatKey (GetName c.1) key) ∨
      s.kvs.db.find (FormatKey (GetName c.1) key) = none
  | .FindKvp handleIdx => (s.openedBy c.1 handleIdx).isSome ∨
      ∃ i r, handleAt handleIdx = some i ∧ s.opened i = some (r,[])
  | .EndFindKvp handleIdx => (s.openedBy c.1 handleIdx).isSome ∨ ∀ i, handleAt handleIdx = some i → s.opened i = none
  | _ => True

def remaining (handle : FindHandle Value) (resName : Text) (rest : List (Text × Value)) : List Text :=
  (rest.takeWhile (fun e => handle.key.isPrefixOf e.1)).map (fun e => e.1.drop (FormatKey resName []).length)

inductive HandleKept (handle : FindHandle Value) : Option (Resource × List Text) → Prop where
  | closed (here : handle.dbIter = none) : HandleKept handle none
  | opened {r : Resource} {rest : List (Text × Value)} {key : Text} (here : handle.dbIter = some rest)
      (keyIs : handle.key = FormatKey (GetName r) key) :
      HandleKept handle (some (r,remaining handle (GetName r) rest))

structure Kept (s : Stores Resource Value) : Prop where
  parts : ∀ r, s.own r = part s.kvs.db (GetName r)
  handles : ∀ i, HandleKept GetName (s.kvs.g_handles i) (s.opened i)

variable {GetName} {s : Stores Resource Value} {r : Resource}

theorem findPart (db : OrderedMap Text Value) (resName key : Text) :
    (part db resName).find key = db.find (FormatKey resName key) :=
  OrderedMap.findRestrict (unformatFormat resName) db key

theorem partSame {db db' : OrderedMap Text Value} {resName : Text}
    (same : ∀ key, db.find (FormatKey resName key) = db'.find (FormatKey resName key)) :
    part db resName = part db' resName :=
  OrderedMap.restrictOutside (unformatFormat resName) same

theorem outsidePart {resName resName' key : Text} (outside : ¬FormatKey resName' [] <+: FormatKey resName key)
    (key' : Text) : FormatKey resName' key' ≠ FormatKey resName key := by
  intro same
  rw [← same,formatSplit resName' key'] at outside
  exact outside (List.prefix_append _ _)

theorem startedNames (db : OrderedMap Text Value) (resName key : Text) (dbIter : Option (List (Text × Value))) :
    remaining ⟨dbIter,FormatKey resName key⟩ resName (db.entries.dropWhile (fun e => e.1 < FormatKey resName key)) =
      ((part db resName).entries.filter (fun e => key.isPrefixOf e.1)).map Prod.fst := by
  have run : remaining ⟨dbIter,FormatKey resName key⟩ resName (db.entries.dropWhile (fun e => e.1 < FormatKey resName key)) =
      (db.entries.filter (fun e => (FormatKey resName key).isPrefixOf e.1)).map
        (fun e => e.1.drop (FormatKey resName []).length) :=
    congrArg (List.map _) (OrderedMap.prefixRun db.sorted (FormatKey resName key))
  rw [run]
  unfold part OrderedMap.restrict
  dsimp only
  generalize db.entries = entries
  induction entries with
  | nil => rfl
  | cons e rest ih =>
    rw [List.filterMap_cons]
    by_cases starts : (FormatKey resName key).isPrefixOf e.1 = true
    · obtain ⟨tail,whole⟩ := List.isPrefixOf_iff_prefix.mp starts
      have inner : e.1 = FormatKey resName (key ++ tail) := by
        rw [← whole,formatSplit resName key,formatSplit resName (key ++ tail),List.append_assoc]
      have own : key.isPrefixOf (key ++ tail) = true := List.isPrefixOf_iff_prefix.mpr (List.prefix_append _ _)
      rw [List.filter_cons_of_pos (by exact starts),List.map_cons,ih,inner,unformatFormat,Option.map_some]
      dsimp only
      rw [List.filter_cons_of_pos (by exact own),List.map_cons,formatSplit resName (key ++ tail),List.drop_left]
    · rw [List.filter_cons_of_neg (by exact starts),ih]
      cases found : unformat resName e.1 with
      | none => rfl
      | some k =>
        have other : ¬key.isPrefixOf k = true := by
          intro own
          obtain ⟨tail,rfl⟩ := List.isPrefixOf_iff_prefix.mp own
          refine starts (List.isPrefixOf_iff_prefix.mpr ⟨tail,?_⟩)
          rw [unformatSome found,formatSplit resName key,formatSplit resName (key ++ tail),List.append_assoc]
        rw [Option.map_some]
        dsimp only
        rw [List.filter_cons_of_neg (by exact other)]

omit [DecidableEq Resource] in
section
variable {kvs : Kvs Value} {handleIdx : Int} {i : Fin 64} {rest : List (Text × Value)}

theorem findOpened {key : Text}
    (at' : handleAt handleIdx = some i) (here : (kvs.g_handles i).dbIter = some rest)
    (keyIs : (kvs.g_handles i).key = FormatKey (GetName r) key) :
    (kvs.FindKvp (GetName r) handleIdx).2 = .name (remaining (kvs.g_handles i) (GetName r) rest).head? ∧
      ∃ rest', (kvs.FindKvp (GetName r) handleIdx).1 =
          { kvs with g_handles := Function.update kvs.g_handles i { kvs.g_handles i with dbIter := some rest' } } ∧
        remaining (kvs.g_handles i) (GetName r) rest' = (remaining (kvs.g_handles i) (GetName r) rest).tail := by
  have unchanged : kvs = { kvs with
      g_handles := Function.update kvs.g_handles i { kvs.g_handles i with dbIter := some rest } } := by
    rw [← here,Function.update_eq_self]
  unfold Kvs.FindKvp
  rw [at']
  dsimp only
  rw [here]
  cases rest with
  | nil => exact ⟨rfl,[],unchanged,rfl⟩
  | cons e next =>
    obtain ⟨k,v⟩ := e
    dsimp only
    by_cases starts : (kvs.g_handles i).key.isPrefixOf k = true
    · have enough : ¬k.length < (FormatKey (GetName r) []).length := by
        rw [keyIs,formatSplit] at starts
        have length := (List.isPrefixOf_iff_prefix.mp starts).length_le
        rw [List.length_append] at length
        omega
      have gives : remaining (kvs.g_handles i) (GetName r) ((k,v) :: next) =
          k.drop (FormatKey (GetName r) []).length :: remaining (kvs.g_handles i) (GetName r) next := by
        unfold remaining
        rw [List.takeWhile_cons_of_pos (by exact starts),List.map_cons]
      rw [if_neg (by rw [starts]; decide),if_neg enough,gives]
      exact ⟨rfl,next,rfl,rfl⟩
    · have gives : remaining (kvs.g_handles i) (GetName r) ((k,v) :: next) = [] := by
        unfold remaining
        rw [List.takeWhile_cons_of_neg (by exact starts),List.map_nil]
      rw [if_pos (Bool.not_eq_true _ ▸ starts),gives]
      exact ⟨rfl,(k,v) :: next,unchanged,gives⟩

theorem findExhausted {resName resName' : Text} (at' : handleAt handleIdx = some i) (here : (kvs.g_handles i).dbIter = some rest)
    (exhausted : remaining (kvs.g_handles i) resName' rest = []) :
    kvs.FindKvp resName handleIdx = (kvs,.name none) := by
  unfold Kvs.FindKvp
  rw [at']
  dsimp only
  rw [here]
  cases rest with
  | nil => rfl
  | cons e next =>
    obtain ⟨k,v⟩ := e
    have other : (kvs.g_handles i).key.isPrefixOf k = false := by
      by_contra starts
      rw [Bool.not_eq_false] at starts
      unfold remaining at exhausted
      rw [List.takeWhile_cons_of_pos (by exact starts)] at exhausted
      cases exhausted
    exact if_pos other

end

theorem Kept.stored (kept : Kept GetName s) {key : Text} {value : Value}
    (careful : Careful GetName s (r,.SetResourceKvp key value)) :
    Kept GetName (s.step GetName (r,.SetResourceKvp key value)) := by
  refine ⟨fun r' => ?_,kept.handles⟩
  have after : (s.step GetName (r,.SetResourceKvp key value)).own r' =
      Function.update s.own r ((s.own r).insert key value) r' := rfl
  have db : (s.step GetName (r,.SetResourceKvp key value)).kvs.db =
      s.kvs.db.insert (FormatKey (GetName r) key) value := rfl
  rw [after,db]
  by_cases mine : r' = r
  · rw [mine,Function.update_self,kept.parts]
    exact (OrderedMap.restrictInsert (unformatFormat (GetName r)) s.kvs.db key value).symm
  · rw [Function.update_of_ne mine,kept.parts]
    refine partSame (fun key' => ?_)
    rw [OrderedMap.findInsert,if_neg (outsidePart (careful r' mine) key')]

theorem Kept.deleted (kept : Kept GetName s) {key : Text} (careful : Careful GetName s (r,.DeleteResourceKvp key)) :
    Kept GetName (s.step GetName (r,.DeleteResourceKvp key)) := by
  refine ⟨fun r' => ?_,kept.handles⟩
  have after : (s.step GetName (r,.DeleteResourceKvp key)).own r' =
      Function.update s.own r ((s.own r).erase key) r' := rfl
  have db : (s.step GetName (r,.DeleteResourceKvp key)).kvs.db = s.kvs.db.erase (FormatKey (GetName r) key) := rfl
  rw [after,db]
  by_cases mine : r' = r
  · rw [mine,Function.update_self,kept.parts]
    exact (OrderedMap.restrictErase (unformatFormat (GetName r)) s.kvs.db key).symm
  · rw [Function.update_of_ne mine,kept.parts]
    refine partSame (fun key' => ?_)
    rw [OrderedMap.findErase]
    split
    · rename_i same
      rcases careful with outside | absent
      · exact absurd same (outsidePart (outside r' mine) key')
      · rw [same,absent]
    · rfl

theorem openedBySome {handleIdx : Int} {i : Fin 64} {names : List Text} :
    s.openedBy r handleIdx = some (i,names) ↔ handleAt handleIdx = some i ∧ s.opened i = some (r,names) := by
  simp only [openedBy,Option.bind_eq_some_iff]
  constructor
  · rintro ⟨i',at',⟨r',names'⟩,here,mine⟩
    split at mine
    · rename_i same
      cases mine
      cases same
      exact ⟨at',here⟩
    · cases mine
  · rintro ⟨at',here⟩
    exact ⟨i,at',(r,names),here,if_pos rfl⟩

omit [DecidableEq Resource] in
theorem Kept.closedAt (kept : Kept GetName s) {i : Fin 64} (closed : s.opened i = none) :
    (s.kvs.g_handles i).dbIter = none := by
  have handle := kept.handles i
  rw [closed] at handle
  cases handle with
  | closed here => exact here

omit [DecidableEq Resource] in
theorem Kept.openAt (kept : Kept GetName s) {i : Fin 64} {names : List Text} (opened : s.opened i = some (r,names)) :
    ∃ rest key, (s.kvs.g_handles i).dbIter = some rest ∧ (s.kvs.g_handles i).key = FormatKey (GetName r) key ∧
      names = remaining (s.kvs.g_handles i) (GetName r) rest := by
  have handle := kept.handles i
  rw [opened] at handle
  cases handle with
  | opened here keyIs => exact ⟨_,_,here,keyIs,rfl⟩

omit [DecidableEq Resource] in
theorem handlesUpdate {g_handles : Fin 64 → FindHandle Value} {opened : Fin 64 → Option (Resource × List Text)}
    (kept : ∀ i, HandleKept GetName (g_handles i) (opened i)) {i : Fin 64} {handle : FindHandle Value}
    {entry : Option (Resource × List Text)} (new : HandleKept GetName handle entry) (j : Fin 64) :
    HandleKept GetName (Function.update g_handles i handle j) (Function.update opened i entry j) := by
  by_cases same : j = i
  · rw [same,Function.update_self,Function.update_self]
    exact new
  · rw [Function.update_of_ne same,Function.update_of_ne same]
    exact kept j

theorem handleAtVal (i : Fin 64) : handleAt (i.val : Int) = some i := by
  have inside : 0 ≤ (i.val : Int) ∧ (i.val : Int) < 64 := by omega
  rw [handleAt,dif_pos inside]
  rfl

theorem Kept.started (kept : Kept GetName s) {key : Text} : Kept GetName (s.step GetName (r,.StartFindKvp key)) := by
  cases free : s.kvs.GetFindHandle with
  | none =>
    have same : s.step GetName (r,.StartFindKvp key) = s := by
      simp [step,track,answer,Kvs.call,Kvs.StartFindKvp,free,handleAt]
    rw [same]
    exact kept
  | some i =>
    have after : s.step GetName (r,.StartFindKvp key) =
        { s with
          kvs := { s.kvs with
            g_handles := Function.update s.kvs.g_handles i
              ⟨some (s.kvs.db.entries.dropWhile (fun e => e.1 < FormatKey (GetName r) key)),FormatKey (GetName r) key⟩ }
          opened := Function.update s.opened i (some (r,s.ownNames r key)) } := by
      simp [step,track,answer,Kvs.call,Kvs.StartFindKvp,free,handleAtVal]
    rw [after]
    refine ⟨kept.parts,handlesUpdate kept.handles ?_⟩
    rw [ownNames,kept.parts,← startedNames s.kvs.db (GetName r) key
      (some (s.kvs.db.entries.dropWhile (fun e => e.1 < FormatKey (GetName r) key)))]
    exact .opened rfl rfl

theorem Kept.found (kept : Kept GetName s) {handleIdx : Int} (careful : Careful GetName s (r,.FindKvp handleIdx)) :
    Kept GetName (s.step GetName (r,.FindKvp handleIdx)) ∧ Isolated GetName s (r,.FindKvp handleIdx) := by
  cases mine : s.openedBy r handleIdx with
  | some e =>
    obtain ⟨i,names⟩ := e
    obtain ⟨at',opened⟩ := openedBySome.mp mine
    obtain ⟨rest,key,here,keyIs,rfl⟩ := kept.openAt opened
    obtain ⟨gives,rest',leaves,left⟩ := findOpened at' here keyIs
    have after : s.step GetName (r,.FindKvp handleIdx) =
        { s with
          kvs := { s.kvs with
            g_handles := Function.update s.kvs.g_handles i { s.kvs.g_handles i with dbIter := some rest' } }
          opened := Function.update s.opened i
            (some (r,(remaining (s.kvs.g_handles i) (GetName r) rest).tail)) } := by
      simp only [step,track,mine,Kvs.call,leaves]
    constructor
    · rw [after,← left]
      refine ⟨kept.parts,handlesUpdate kept.handles ?_⟩
      exact @HandleKept.opened _ _ _ { s.kvs.g_handles i with dbIter := some rest' } _ _ _ rfl keyIs
    · simp only [Isolated,mine]
      exact gives
  | none =>
    obtain isOpen | ⟨i,r',at',opened⟩ := careful
    · rw [mine] at isOpen
      cases isOpen
    · have foreign : r' ≠ r := by
        rintro rfl
        rw [openedBySome.mpr ⟨at',opened⟩] at mine
        cases mine
      obtain ⟨rest,key,here,keyIs,exhausted⟩ := kept.openAt opened
      have nothing : s.kvs.FindKvp (GetName r) handleIdx = (s.kvs,.name none) := findExhausted at' here exhausted.symm
      have after : s.step GetName (r,.FindKvp handleIdx) = s := by
        simp only [step,track,mine,Kvs.call,nothing]
      rw [after]
      refine ⟨kept,?_⟩
      simp only [Isolated,mine,answer,Kvs.call,nothing]
      exact ⟨trivial,trivial⟩

theorem Kept.ended (kept : Kept GetName s) {handleIdx : Int} (careful : Careful GetName s (r,.EndFindKvp handleIdx)) :
    Kept GetName (s.step GetName (r,.EndFindKvp handleIdx)) ∧ Isolated GetName s (r,.EndFindKvp handleIdx) := by
  cases mine : s.openedBy r handleIdx with
  | some e =>
    obtain ⟨i,names⟩ := e
    obtain ⟨at',opened⟩ := openedBySome.mp mine
    have after : s.step GetName (r,.EndFindKvp handleIdx) =
        { s with
          kvs := { s.kvs with g_handles := Function.update s.kvs.g_handles i { s.kvs.g_handles i with dbIter := none } }
          opened := Function.update s.opened i none } := by
      simp only [step,track,mine,Kvs.call,Kvs.EndFindKvp,at']
    constructor
    · rw [after]
      exact ⟨kept.parts,handlesUpdate kept.handles (.closed rfl)⟩
    · intro closed
      rw [mine] at closed
      cases closed
  | none =>
    have unchanged : s.kvs.EndFindKvp handleIdx = s.kvs := by
      unfold Kvs.EndFindKvp
      cases at' : handleAt handleIdx with
      | none => rfl
      | some i =>
        obtain isOpen | closed := careful
        · rw [mine] at isOpen
          cases isOpen
        · have here := kept.closedAt (closed i at')
          dsimp only
          rw [← here,Function.update_eq_self]
    have after : s.step GetName (r,.EndFindKvp handleIdx) = s := by
      simp only [step,track,mine,Kvs.call,unchanged]
    rw [after]
    exact ⟨kept,fun _ => unchanged⟩

theorem Kept.step {c : Resource × KvpCall Value} (kept : Kept GetName s) (careful : Careful GetName s c) :
    Kept GetName (s.step GetName c) ∧ Isolated GetName s c := by
  obtain ⟨r,call⟩ := c
  cases call with
  | SetResourceKvp key value => exact ⟨kept.stored careful,trivial⟩
  | DeleteResourceKvp key => exact ⟨kept.deleted careful,trivial⟩
  | GetResourceKvp key =>
    refine ⟨⟨kept.parts,kept.handles⟩,?_⟩
    have answered : s.answer GetName r (.GetResourceKvp key) = .value (s.kvs.db.find (FormatKey (GetName r) key)) := rfl
    unfold Isolated
    dsimp only
    rw [answered,kept.parts,findPart]
  | StartFindKvp key => exact ⟨kept.started,trivial⟩
  | FindKvp handleIdx => exact kept.found careful
  | EndFindKvp handleIdx => exact kept.ended careful

omit [DecidableEq Resource] in
theorem keptStart : Kept GetName (start : Stores Resource Value) := by
  refine ⟨fun r => ?_,fun i => .closed rfl⟩
  exact OrderedMap.extFind (fun k => by rw [findPart]; rfl)

theorem kvpIsolated (GetName : Resource → Text) {calls : List (Resource × KvpCall Value)}
    (careful : Along (step GetName) (Careful GetName) (start : Stores Resource Value) calls) :
    Along (step GetName) (Isolated GetName) (start : Stores Resource Value) calls :=
  alongOfKept (Kept GetName) (fun _ _ kept careful => kept.step careful) keptStart careful

def twoNames (first second : String) : Bool → Text := fun r => cond r (text first) (text second)

theorem kvpIsolatedSample : Along (step (twoNames "a" "b")) (Isolated (twoNames "a" "b")) (start : Stores Bool Nat)
    [(true,.SetResourceKvp (text "k") 1),(false,.SetResourceKvp (text "k") 2),(true,.StartFindKvp []),
      (true,.FindKvp 0),(false,.FindKvp 0),(true,.EndFindKvp 0)] := by
  refine kvpIsolated _ ⟨?_,?_,trivial,?_,?_,?_,trivial⟩
  · show ∀ r, r ≠ true → ¬FormatKey (twoNames "a" "b" r) [] <+: FormatKey (text "a") (text "k")
    decide
  · show ∀ r, r ≠ false → ¬FormatKey (twoNames "a" "b" r) [] <+: FormatKey (text "b") (text "k")
    decide
  · exact .inl (by decide +kernel)
  · exact .inr ⟨0,true,by decide,by decide +kernel⟩
  · exact .inl (by decide +kernel)

theorem sharedKey : ¬Along (step (twoNames "a" "a:b")) (Isolated (twoNames "a" "a:b")) (start : Stores Bool Nat)
    [(true,.SetResourceKvp (text "b:c") 1),(false,.GetResourceKvp (text "c"))] := by
  rintro ⟨-,answered,-⟩
  have stored : (run (step (twoNames "a" "a:b")) (start : Stores Bool Nat)
      [(true,.SetResourceKvp (text "b:c") 1)]).answer (twoNames "a" "a:b") false (.GetResourceKvp (text "c")) =
        .value (some 1) := by decide +kernel
  have none := answered.symm.trans stored
  revert none
  decide +kernel

end Stores
end Citizen.Storage
