import Citizen.Console.Variables
import Citizen.Lib.CString
import Citizen.Lib.OrderedMap
import Citizen.Lib.Run

/-! `ConsoleVariableManager` as a map from names to registrations, each with its token. -/
namespace Citizen.Console

/-- Whose variable it is tells the number of the call of `Register`; `m_curToken` is an atomic `int`, so a token
is that number without its high bits. -/
structure Registration where
  name : Text
  flags : Flags
  number : Nat
  deriving DecidableEq

def Registration.token (e : Registration) : BitVec 32 := BitVec.ofNat 32 e.number

structure VariableRegistry where
  m_entries : OrderedMap (List Nat) Registration
  registered : Nat

namespace VariableRegistry

def fresh : VariableRegistry := ⟨.empty,0⟩

def FindEntryRaw (s : VariableRegistry) (name : Text) : Option Registration := s.m_entries.find (key name)

def Register (s : VariableRegistry) (name : Text) (flags : Flags) : VariableRegistry :=
  ⟨(s.m_entries.erase (key name)).insert (key name) ⟨name,flags,s.registered⟩,s.registered + 1⟩

def eraseFirst (s : VariableRegistry) (isIt : Registration → Bool) : VariableRegistry :=
  match s.m_entries.entries.find? (fun it => isIt it.2) with
  | some it => { s with m_entries := s.m_entries.erase it.1 }
  | none => s

def UnregisterToken (s : VariableRegistry) (token : BitVec 32) : VariableRegistry := s.eraseFirst (fun e => e.token = token)

def UnregisterName (s : VariableRegistry) (name : Text) : VariableRegistry := s.eraseFirst (fun e => e.name = name)

def adjustFlags (s : VariableRegistry) (name : Text) (f : Flags → Flags) : VariableRegistry :=
  match s.FindEntryRaw name with
  | some it => { s with m_entries := s.m_entries.insert (key name) { it with flags := f it.flags } }
  | none => s

def AddEntryFlags (s : VariableRegistry) (name : Text) (flags : Flags) : VariableRegistry :=
  s.adjustFlags name (fun old => old ||| flags)

def RemoveEntryFlags (s : VariableRegistry) (name : Text) (flags : Flags) : VariableRegistry :=
  s.adjustFlags name (fun old => old &&& ~~~flags)

def RemoveVariablesWithFlag (s : VariableRegistry) (flagMask : Flags) : VariableRegistry :=
  let iterationList := (s.m_entries.entries.filter (fun it => it.2.flags &&& flagMask ≠ 0)).map (fun it => it.2.token)
  iterationList.foldl UnregisterToken s

inductive Operation where
  | register (name : Text) (flags : Flags)
  | unregisterToken (token : BitVec 32)
  | unregisterName (name : Text)
  | addEntryFlags (name : Text) (flags : Flags)
  | removeEntryFlags (name : Text) (flags : Flags)
  | removeVariablesWithFlag (flagMask : Flags)

def step (s : VariableRegistry) : Operation → VariableRegistry
  | .register name flags => s.Register name flags
  | .unregisterToken token => s.UnregisterToken token
  | .unregisterName name => s.UnregisterName name
  | .addEntryFlags name flags => s.AddEntryFlags name flags
  | .removeEntryFlags name flags => s.RemoveEntryFlags name flags
  | .removeVariablesWithFlag flagMask => s.RemoveVariablesWithFlag flagMask

structure Standing where
  registered : Nat
  latest : Option (Nat × Flags)

def Standing.step (isIt : Text → Bool) (s : Standing) : Operation → Standing
  | .register name flags => ⟨s.registered + 1,if isIt name then some (s.registered,flags) else s.latest⟩
  | .unregisterToken token => { s with latest := s.latest.filter (fun e => BitVec.ofNat 32 e.1 ≠ token) }
  | .unregisterName name => if isIt name then { s with latest := none } else s
  | .addEntryFlags name flags => if isIt name then { s with latest := s.latest.map (fun e => (e.1,e.2 ||| flags)) } else s
  | .removeEntryFlags name flags =>
    if isIt name then { s with latest := s.latest.map (fun e => (e.1,e.2 &&& ~~~flags)) } else s
  | .removeVariablesWithFlag flagMask => { s with latest := s.latest.filter (fun e => e.2 &&& flagMask = 0) }

def sameKey (k : List Nat) (name : Text) : Bool := key name = k

def Operation.names : Operation → List Text
  | .register name _ | .unregisterName name | .addEntryFlags name _ | .removeEntryFlags name _ => [name]
  | .unregisterToken _ | .removeVariablesWithFlag _ => []

def view (s : VariableRegistry) (k : List Nat) : Standing :=
  ⟨s.registered,(s.m_entries.find k).map (fun e => (e.number,e.flags))⟩

def Sole (s : VariableRegistry) (token : BitVec 32) : Prop :=
  ∀ n m, n < s.registered → m < s.registered → BitVec.ofNat 32 n = token → BitVec.ofNat 32 m = token → n = m

def Right (s : VariableRegistry) : Operation → Prop
  | .unregisterToken token => s.Sole token
  | .unregisterName name => ∀ e, s.FindEntryRaw name = some e → e.name = name
  | .removeVariablesWithFlag flagMask => ∀ k e, s.m_entries.find k = some e → e.flags &&& flagMask ≠ 0 → s.Sole e.token
  | _ => True

structure Kept (s : VariableRegistry) : Prop where
  named : ∀ k e, s.m_entries.find k = some e → key e.name = k
  given : ∀ k e, s.m_entries.find k = some e → e.number < s.registered
  distinct : ∀ k e k' e', s.m_entries.find k = some e → s.m_entries.find k' = some e' → e.number = e'.number → k = k'

section Steps
variable {s s' : VariableRegistry} {k : List Nat}

theorem eraseFirstRegistered (isIt : Registration → Bool) : (s.eraseFirst isIt).registered = s.registered := by
  unfold eraseFirst
  split <;> rfl

theorem eraseFirstFind {isIt : Registration → Bool}
    (only : ∀ k e k' e', s.m_entries.find k = some e → s.m_entries.find k' = some e' → isIt e = true → isIt e' = true →
      k = k') : (s.eraseFirst isIt).m_entries.find k = (s.m_entries.find k).filter (fun e => !isIt e) := by
  unfold eraseFirst
  cases first : s.m_entries.entries.find? (fun it => isIt it.2) with
  | none =>
    dsimp only
    cases found : s.m_entries.find k with
    | none => rfl
    | some e =>
      have other := List.find?_eq_none.mp first _ (OrderedMap.findSome.mp found)
      simp [Option.filter_some,other]
  | some it =>
    have here : s.m_entries.find it.1 = some it.2 := OrderedMap.findSome.mpr (List.mem_of_find?_eq_some first)
    have isHere : isIt it.2 = true := by simpa using List.find?_some first
    dsimp only
    rw [OrderedMap.findErase]
    split
    · rename_i same
      rw [same,here]
      simp [Option.filter_some,isHere]
    · rename_i apart
      cases found : s.m_entries.find k with
      | none => rfl
      | some e =>
        have other : isIt e = false := by
          by_contra yes
          exact apart (only _ _ _ _ found here (Bool.not_eq_false _ ▸ yes) isHere)
        simp [Option.filter_some,other]

theorem registerFind (name : Text) (flags : Flags) : (s.Register name flags).m_entries.find k =
    if k = key name then some ⟨name,flags,s.registered⟩ else s.m_entries.find k := by
  unfold Register
  dsimp only
  rw [OrderedMap.findInsert,OrderedMap.findErase]
  split <;> rfl

theorem adjustFlagsFind (name : Text) (f : Flags → Flags) : (s.adjustFlags name f).m_entries.find k =
    if k = key name then (s.m_entries.find k).map (fun e => { e with flags := f e.flags }) else s.m_entries.find k := by
  unfold adjustFlags FindEntryRaw
  cases found : s.m_entries.find (key name) with
  | none =>
    dsimp only
    split
    · rename_i same
      rw [same,found]
      rfl
    · rfl
  | some e =>
    dsimp only
    rw [OrderedMap.findInsert]
    split
    · rename_i same
      rw [same,found]
      rfl
    · rfl

theorem soleOfFew (few : s.registered ≤ 2 ^ 32) (token : BitVec 32) : s.Sole token := by
  intro n m given given' same same'
  have values := congrArg BitVec.toNat (same.trans same'.symm)
  rw [BitVec.toNat_ofNat,BitVec.toNat_ofNat] at values
  omega

theorem adjustFlagsRegistered (name : Text) (f : Flags → Flags) : (s.adjustFlags name f).registered = s.registered := by
  unfold adjustFlags
  split <;> rfl

section
variable (kept : s.Kept)
include kept

theorem Kept.inherited (registered : s'.registered = s.registered)
    (from_ : ∀ k e', s'.m_entries.find k = some e' → ∃ e, s.m_entries.find k = some e ∧ e.name = e'.name ∧ e.number = e'.number) :
    s'.Kept where
  named k e' found := by
    obtain ⟨e,there,name,_⟩ := from_ k e' found
    rw [← name]
    exact kept.named k e there
  given k e' found := by
    obtain ⟨e,there,_,number⟩ := from_ k e' found
    rw [← number,registered]
    exact kept.given k e there
  distinct k e k' e' found found' same := by
    obtain ⟨a,there,_,number⟩ := from_ k e found
    obtain ⟨b,there',_,number'⟩ := from_ k' e' found'
    exact kept.distinct k a k' b there there' (by rw [number,number',same])

theorem Kept.erased {isIt : Registration → Bool}
    (only : ∀ k e k' e', s.m_entries.find k = some e → s.m_entries.find k' = some e' → isIt e = true → isIt e' = true →
      k = k') : (s.eraseFirst isIt).Kept := by
  refine kept.inherited (eraseFirstRegistered isIt) (fun k e' found => ?_)
  rw [eraseFirstFind only] at found
  exact ⟨e',(Option.filter_eq_some_iff.mp found).1,rfl,rfl⟩

theorem Kept.adjusted (name : Text) (f : Flags → Flags) : (s.adjustFlags name f).Kept := by
  refine kept.inherited (adjustFlagsRegistered name f) (fun k e' found => ?_)
  rw [adjustFlagsFind] at found
  split at found
  · obtain ⟨e,there,rfl⟩ := Option.map_eq_some_iff.mp found
    exact ⟨e,there,rfl,rfl⟩
  · exact ⟨e',found,rfl,rfl⟩

theorem Kept.registers (name : Text) (flags : Flags) : (s.Register name flags).Kept where
  named k e found := by
    rw [registerFind] at found
    split at found
    · rename_i same
      cases found
      exact same.symm
    · exact kept.named k e found
  given k e found := by
    rw [registerFind] at found
    split at found
    · cases found
      exact Nat.lt_succ_self _
    · exact Nat.lt_succ_of_lt (kept.given k e found)
  distinct k e k' e' found found' same := by
    rw [registerFind] at found found'
    split at found
    · rename_i here
      split at found'
      · rename_i here'
        exact here.trans here'.symm
      · cases found
        exact absurd same (Nat.ne_of_gt (kept.given k' e' found'))
    · split at found'
      · cases found'
        exact absurd same (Nat.ne_of_lt (kept.given k e found))
      · exact kept.distinct k e k' e' found found' same

theorem Kept.onlyToken {token : BitVec 32} (sole : s.Sole token) (k : List Nat) (e : Registration)
    (k' : List Nat) (e' : Registration) (found : s.m_entries.find k = some e) (found' : s.m_entries.find k' = some e')
    (same : decide (e.token = token) = true) (same' : decide (e'.token = token) = true) : k = k' :=
  kept.distinct k e k' e' found found' (sole _ _ (kept.given k e found) (kept.given k' e' found')
    (of_decide_eq_true same) (of_decide_eq_true same'))

theorem Kept.onlyName (name : Text) (k : List Nat) (e : Registration) (k' : List Nat)
    (e' : Registration) (found : s.m_entries.find k = some e) (found' : s.m_entries.find k' = some e')
    (same : decide (e.name = name) = true) (same' : decide (e'.name = name) = true) : k = k' := by
  rw [← kept.named k e found,← kept.named k' e' found',of_decide_eq_true same,of_decide_eq_true same']

theorem unregisterTokens {tokens : List (BitVec 32)} (sole : ∀ token ∈ tokens, s.Sole token) :
    (tokens.foldl UnregisterToken s).Kept ∧ (tokens.foldl UnregisterToken s).registered = s.registered ∧
      ∀ k, (tokens.foldl UnregisterToken s).m_entries.find k = (s.m_entries.find k).filter (fun e => e.token ∉ tokens) := by
  induction tokens generalizing s with
  | nil =>
    refine ⟨kept,rfl,fun k => ?_⟩
    rw [List.foldl_nil]
    cases s.m_entries.find k with
    | none => rfl
    | some e => simp [Option.filter_some]
  | cons token tokens ih =>
    have only := kept.onlyToken (sole token List.mem_cons_self)
    have still : ∀ other ∈ tokens, (s.UnregisterToken token).Sole other := by
      intro other mem n m
      rw [UnregisterToken,eraseFirstRegistered]
      exact sole other (List.mem_cons_of_mem _ mem) n m
    obtain ⟨later,registered,found⟩ := ih (kept.erased only) still
    refine ⟨later,registered.trans (eraseFirstRegistered _),fun k => ?_⟩
    rw [List.foldl_cons]
    refine (found k).trans ?_
    rw [eraseFirstFind only]
    cases s.m_entries.find k with
    | none => rfl
    | some e => by_cases here : e.token = token <;> simp [Option.filter_some,here]

end

theorem viewAdjusted (name : Text) (f : Flags → Flags) (k : List Nat) : (s.adjustFlags name f).view k =
    if sameKey k name then { s.view k with latest := (s.view k).latest.map (fun e => (e.1,f e.2)) } else s.view k := by
  unfold view sameKey
  rw [adjustFlagsRegistered,adjustFlagsFind]
  by_cases here : key name = k
  · rw [if_pos (decide_eq_true here),if_pos here.symm,Option.map_map,Option.map_map]
    rfl
  · rw [if_neg (mt of_decide_eq_true here),if_neg (fun same => here same.symm)]

theorem filterMap (f : Registration → Bool) (g : Nat × Flags → Bool) (o : Option Registration)
    (same : ∀ e, o = some e → f e = g (e.number,e.flags)) :
    (o.filter f).map (fun e => (e.number,e.flags)) = (o.map (fun e => (e.number,e.flags))).filter g := by
  cases o with
  | none => rfl
  | some e =>
    rw [Option.map_some,Option.filter_some,Option.filter_some,← same e rfl]
    split <;> rfl

theorem nameUnregistered (kept : s.Kept) {name : Text} (right : s.Right (.unregisterName name)) :
    (s.step (.unregisterName name)).Kept ∧
      ∀ k, (s.step (.unregisterName name)).view k = (s.view k).step (sameKey k) (.unregisterName name) := by
  have only := kept.onlyName name
  refine ⟨kept.erased only,fun k => ?_⟩
  unfold view step Standing.step UnregisterName sameKey
  dsimp only
  rw [eraseFirstRegistered,eraseFirstFind only]
  by_cases here : key name = k
  · subst here
    rw [if_pos (decide_eq_true rfl)]
    cases found : s.m_entries.find (key name) with
    | none => rfl
    | some e =>
      have spelled := right e found
      simp [Option.filter_some,spelled]
  · rw [if_neg (mt of_decide_eq_true here)]
    cases found : s.m_entries.find k with
    | none => rfl
    | some e =>
      have other : e.name ≠ name := fun same => here (same ▸ kept.named k e found)
      simp [Option.filter_some,other]

theorem flaggedRemoved (kept : s.Kept) {flagMask : Flags} (right : s.Right (.removeVariablesWithFlag flagMask)) :
    (s.step (.removeVariablesWithFlag flagMask)).Kept ∧ ∀ k, (s.step (.removeVariablesWithFlag flagMask)).view k =
      (s.view k).step (sameKey k) (.removeVariablesWithFlag flagMask) := by
  have sole : ∀ token ∈ (s.m_entries.entries.filter (fun it => it.2.flags &&& flagMask ≠ 0)).map
      (fun it => it.2.token), s.Sole token := by
    intro token mem
    obtain ⟨it,among,rfl⟩ := List.mem_map.mp mem
    obtain ⟨among,flagged⟩ := List.mem_filter.mp among
    exact right it.1 it.2 (OrderedMap.findSome.mpr among) (of_decide_eq_true flagged)
  obtain ⟨later,registered,found⟩ := unregisterTokens kept sole
  refine ⟨later,fun k => ?_⟩
  unfold view step Standing.step RemoveVariablesWithFlag
  dsimp only
  rw [registered,found,filterMap _ (fun e => decide (e.2 &&& flagMask = 0))]
  intro e here
  rw [Bool.eq_iff_iff,decide_eq_true_iff,decide_eq_true_iff,List.mem_map]
  constructor
  · intro unlisted
    by_contra flagged
    exact unlisted ⟨_,List.mem_filter.mpr ⟨OrderedMap.findSome.mp here,decide_eq_true flagged⟩,rfl⟩
  · rintro plain ⟨it,mem,same⟩
    obtain ⟨among,flagged⟩ := List.mem_filter.mp mem
    have there : s.m_entries.find it.1 = some it.2 := OrderedMap.findSome.mpr among
    have tokenSole := right it.1 it.2 there (of_decide_eq_true flagged)
    have equal := kept.onlyToken tokenSole _ _ _ _ there here (decide_eq_true rfl) (decide_eq_true same.symm)
    rw [equal] at there
    cases here.symm.trans there
    exact of_decide_eq_true flagged plain

theorem stepKept (kept : s.Kept) {op : Operation} (right : s.Right op) :
    (s.step op).Kept ∧ ∀ k, (s.step op).view k = (s.view k).step (sameKey k) op := by
  cases op with
  | register name flags =>
    refine ⟨kept.registers name flags,fun k => ?_⟩
    unfold view step Standing.step sameKey
    dsimp only
    rw [registerFind]
    by_cases here : key name = k
    · rw [if_pos (decide_eq_true here),if_pos here.symm]
      rfl
    · rw [if_neg (mt of_decide_eq_true here),if_neg (fun same => here same.symm)]
      rfl
  | unregisterToken token =>
    have only := kept.onlyToken right
    refine ⟨kept.erased only,fun k => ?_⟩
    unfold view step Standing.step UnregisterToken
    dsimp only
    rw [eraseFirstRegistered,eraseFirstFind only,filterMap _ (fun e => decide (BitVec.ofNat 32 e.1 ≠ token))]
    intro e _
    rw [decide_not]
    rfl
  | unregisterName name => exact nameUnregistered kept right
  | addEntryFlags name flags => exact ⟨kept.adjusted name (fun old => old ||| flags),viewAdjusted name _⟩
  | removeEntryFlags name flags => exact ⟨kept.adjusted name (fun old => old &&& ~~~flags),viewAdjusted name _⟩
  | removeVariablesWithFlag flagMask => exact flaggedRemoved kept right

theorem freshKept : fresh.Kept where
  named _ _ found := nomatch found
  given _ _ found := nomatch found
  distinct _ _ _ _ found := nomatch found

theorem runKept {ops : List Operation} (kept : s.Kept) (along : Along step Right s ops) :
    (run step s ops).Kept ∧ ∀ k, (run step s ops).view k = run (Standing.step (sameKey k)) (s.view k) ops := by
  induction ops generalizing s with
  | nil => exact ⟨kept,fun _ => rfl⟩
  | cons op ops ih =>
    obtain ⟨next,views⟩ := stepKept kept along.1
    obtain ⟨later,viewed⟩ := ih next along.2
    refine ⟨later,fun k => ?_⟩
    rw [runCons,runCons,viewed,views]

end Steps

section Superseded
variable {s : VariableRegistry} {n : Nat} {K : List Nat → Prop}

def OnlyUnder (s : VariableRegistry) (n : Nat) (K : List Nat → Prop) : Prop :=
  n < s.registered ∧ ∀ k e, s.m_entries.find k = some e → e.number = n → K k

theorem standingOrigin {t : Standing} {isIt : Text → Bool} {op : Operation} {e : Nat × Flags}
    (latest : (t.step isIt op).latest = some e) :
    (∃ old, t.latest = some old ∧ old.1 = e.1) ∨ e.1 = t.registered := by
  cases op with
  | register name flags =>
    simp only [Standing.step] at latest
    split at latest
    · cases latest
      exact .inr rfl
    · exact .inl ⟨e,latest,rfl⟩
  | unregisterToken token => exact .inl ⟨e,(Option.filter_eq_some_iff.mp latest).1,rfl⟩
  | unregisterName name =>
    simp only [Standing.step] at latest
    split at latest
    · cases latest
    · exact .inl ⟨e,latest,rfl⟩
  | addEntryFlags name flags | removeEntryFlags name flags =>
    simp only [Standing.step] at latest
    split at latest
    · obtain ⟨old,there,rfl⟩ := Option.map_eq_some_iff.mp latest
      exact .inl ⟨old,there,rfl⟩
    · exact .inl ⟨e,latest,rfl⟩
  | removeVariablesWithFlag flagMask => exact .inl ⟨e,(Option.filter_eq_some_iff.mp latest).1,rfl⟩

theorem standingRegistered (t : Standing) (isIt : Text → Bool) (op : Operation) :
    t.registered ≤ (t.step isIt op).registered := by
  cases op with
  | register name flags => exact Nat.le_succ _
  | unregisterToken token => exact Nat.le_refl _
  | unregisterName name | addEntryFlags name flags | removeEntryFlags name flags =>
    unfold Standing.step
    dsimp only
    split <;> exact Nat.le_refl _
  | removeVariablesWithFlag flagMask => exact Nat.le_refl _

theorem onlyUnderStep (kept : s.Kept) (only : s.OnlyUnder n K) {op : Operation} (right : s.Right op) :
    (s.step op).OnlyUnder n K := by
  obtain ⟨given,under⟩ := only
  have views := (stepKept kept right).2
  have grown : s.registered ≤ (s.step op).registered :=
    (standingRegistered (s.view []) (sameKey []) op).trans (congrArg Standing.registered (views [])).ge
  refine ⟨Nat.lt_of_lt_of_le given grown,fun k e found number => ?_⟩
  have latest : ((s.view k).step (sameKey k) op).latest = some (e.number,e.flags) := by
    rw [← views k,view,found]
    rfl
  obtain ⟨old,there,same⟩ | new := standingOrigin latest
  · obtain ⟨e0,found0,rfl⟩ := Option.map_eq_some_iff.mp there
    exact under k e0 found0 (same.trans number)
  · exact absurd (number.symm.trans new) (Nat.ne_of_lt given)

theorem onlyUnderRun (kept : s.Kept) (only : s.OnlyUnder n K) {ops : List Operation} (along : Along step Right s ops) :
    (run step s ops).OnlyUnder n K :=
  (runKeeps (fun s => s.Kept ∧ s.OnlyUnder n K)
    (fun _ _ both right => ⟨(stepKept both.1 right).1,onlyUnderStep both.1 both.2 right⟩) ⟨kept,only⟩ along).2

theorem onlyUnderRegister (kept : s.Kept) (name : Text) (flags : Flags) :
    (s.Register name flags).OnlyUnder s.registered (fun k => k = key name) := by
  refine ⟨Nat.lt_succ_self _,fun k e found number => ?_⟩
  rw [registerFind] at found
  split at found
  · assumption
  · exact absurd number (Nat.ne_of_lt (kept.given k e found))

theorem supersededGone {name : Text} (only : s.OnlyUnder n (fun k => k = key name)) (flags : Flags) :
    (s.Register name flags).OnlyUnder n (fun _ => False) := by
  refine ⟨Nat.lt_succ_of_lt only.1,fun k e found number => ?_⟩
  rw [registerFind] at found
  split at found
  · cases found
    exact Nat.ne_of_gt only.1 number
  · rename_i other
    exact other (only.2 k e found number)

theorem goneUnregister (kept : s.Kept) (gone : s.OnlyUnder n (fun _ => False)) (sole : s.Sole (BitVec.ofNat 32 n)) :
    s.UnregisterToken (BitVec.ofNat 32 n) = s := by
  unfold UnregisterToken eraseFirst
  have none : s.m_entries.entries.find? (fun it => decide (it.2.token = BitVec.ofNat 32 n)) = none := by
    rw [List.find?_eq_none]
    intro it mem same
    have found : s.m_entries.find it.1 = some it.2 := OrderedMap.findSome.mpr mem
    exact gone.2 _ _ found (sole _ _ (kept.given _ _ found) gone.1 (of_decide_eq_true same) rfl)
  rw [none]

end Superseded

section Names

theorem sameNameKey {name name' : Text} (same : sameUpToCase name name') : key name = key name' := by
  have zero : ((fun b => decide (b ≠ 0)) ∘ tolower) = fun b => decide (b ≠ 0) := by
    funext b
    exact decide_eq_decide.mpr (not_congr (tolowerZero b))
  have cut : ∀ t : Text, (t.takeWhile (fun b => b ≠ 0)).map tolower = (t.map tolower).takeWhile (fun b => b ≠ 0) := by
    intro t
    rw [List.takeWhile_map,zero]
  unfold key
  rw [cut,cut,same]

def Unmistaken (name : Text) (ops : List Operation) : Prop :=
  ∀ name' ∈ ops.flatMap Operation.names, key name = key name' → sameUpToCase name name'

instance (name : Text) (ops : List Operation) : Decidable (Unmistaken name ops) :=
  inferInstanceAs (Decidable (∀ name' ∈ ops.flatMap Operation.names, key name = key name' → sameUpToCase name name'))

theorem standingAgrees {isIt isIt' : Text → Bool} {ops : List Operation} {t : Standing}
    (agree : ∀ name ∈ ops.flatMap Operation.names, isIt name = isIt' name) :
    run (Standing.step isIt) t ops = run (Standing.step isIt') t ops := by
  induction ops generalizing t with
  | nil => rfl
  | cons op ops ih =>
    have here : t.step isIt op = t.step isIt' op := by
      have own : ∀ name ∈ op.names, isIt name = isIt' name :=
        fun name mem => agree name (List.mem_flatMap.mpr ⟨op,List.mem_cons_self,mem⟩)
      cases op with
      | register name _ | unregisterName name | addEntryFlags name _ | removeEntryFlags name _ =>
        simp only [Standing.step,own name List.mem_cons_self]
      | unregisterToken _ | removeVariablesWithFlag _ => rfl
    rw [runCons,runCons,here]
    exact ih (fun name mem => agree name (List.mem_append_right _ mem))

theorem findStanding {name : Text} {ops : List Operation} (along : Along step Right fresh ops) (clear : Unmistaken name ops) :
    ((run step fresh ops).FindEntryRaw name).map (fun e => (e.number,e.flags)) =
      (run (Standing.step (fun name' => sameUpToCase name name')) ⟨0,none⟩ ops).latest := by
  have viewed := congrArg Standing.latest ((runKept freshKept along).2 (key name))
  refine viewed.trans (congrArg Standing.latest (standingAgrees (fun name' mem => ?_)))
  refine decide_eq_decide.mpr ⟨fun same => clear name' mem same.symm,fun same => (sameNameKey same).symm⟩

theorem supersededToken {before between after : List Operation} {name name' : Text} {flags flags' : Flags}
    (along : Along step Right fresh (before ++ .register name flags :: (between ++ .register name' flags' :: after)))
    (same : sameUpToCase name name')
    (sole : (run step fresh (before ++ .register name flags :: (between ++ .register name' flags' :: after))).Sole
      (BitVec.ofNat 32 (run step fresh before).registered)) :
    (run step fresh (before ++ .register name flags :: (between ++ .register name' flags' :: after))).UnregisterToken
        (BitVec.ofNat 32 (run step fresh before).registered) =
      run step fresh (before ++ .register name flags :: (between ++ .register name' flags' :: after)) := by
  have ordered := (runKept freshKept along).1
  obtain ⟨first,_,rest⟩ := alongAppend.mp along
  obtain ⟨middle,_,last⟩ := alongAppend.mp rest
  have kept := (runKept freshKept first).1
  have registered := kept.registers name flags
  have only := onlyUnderRun registered (onlyUnderRegister kept name flags) middle
  rw [sameNameKey same] at only
  have again := (runKept registered middle).1
  have gone := onlyUnderRun (again.registers name' flags') (supersededGone only flags') last
  refine goneUnregister ordered ?_ sole
  rw [runAppend,runCons,runAppend,runCons]
  exact gone

end Names

theorem standingRegistrations {ops : List Operation} (along : Along step Right fresh ops) :
    (∀ name, Unmistaken name ops → ((run step fresh ops).FindEntryRaw name).map (fun e => (e.number,e.flags)) =
      (run (Standing.step (fun name' => sameUpToCase name name')) ⟨0,none⟩ ops).latest) ∧
    ∀ before name flags between name' flags' after,
      ops = before ++ .register name flags :: (between ++ .register name' flags' :: after) → sameUpToCase name name' →
        (run step fresh ops).Sole (BitVec.ofNat 32 (run step fresh before).registered) →
          (run step fresh ops).UnregisterToken (BitVec.ofNat 32 (run step fresh before).registered) = run step fresh ops := by
  refine ⟨fun name clear => findStanding along clear,?_⟩
  rintro before name flags between name' flags' after rfl same sole
  exact supersededToken along same sole

theorem twoOwners :
    ((run step fresh [.register (text "a") 1,.register (text "A") 3,.unregisterToken 0,.removeEntryFlags (text "a") 2]).FindEntryRaw
        (text "A")).map (fun e => (e.number,e.flags)) = some (1,1) ∧
    (run step fresh [.register (text "a") 1,.register (text "A") 3]).UnregisterToken 0 =
      run step fresh [.register (text "a") 1,.register (text "A") 3] := by
  constructor
  · have along : Along step Right fresh
        [.register (text "a") 1,.register (text "A") 3,.unregisterToken 0,.removeEntryFlags (text "a") 2] :=
      ⟨trivial,trivial,soleOfFew (by decide) 0,trivial,trivial⟩
    exact ((standingRegistrations along).1 (text "A") (by decide)).trans (by decide)
  · have along : Along step Right fresh [.register (text "a") 1,.register (text "A") 3] := ⟨trivial,trivial,trivial⟩
    exact (standingRegistrations along).2 [] (text "a") 1 [] (text "A") 3 [] rfl (by decide) (soleOfFew (by decide) 0)

theorem otherSpellingStays : sameUpToCase (text "sv_Name") (text "sv_name") ∧
    (run step fresh [.register (text "sv_Name") 0,.unregisterName (text "sv_name")]).FindEntryRaw (text "sv_name") =
      some ⟨text "sv_Name",0,0⟩ ∧ (run (Standing.step (fun name' => sameUpToCase (text "sv_name") name')) ⟨0,none⟩
      [.register (text "sv_Name") 0,.unregisterName (text "sv_name")]).latest = none := by
  decide

end VariableRegistry
end Citizen.Console
