import Citizen.Lib.Run
import Citizen.Lib.Table

/-! The registry of state bags: weak references by name, bags kept alive by their users or as
pre-created ones, and the names of destroyed bags that wait for a tick. -/
namespace Citizen.Bags

structure Registry where
  m_stateBags : Table String Nat
  m_erasureList : Finset String
  m_preCreatedStateBags : Finset Nat
  made : Nat
  m_id : Nat → String
  refs : Nat → Nat
  returned : Table String Nat
  resetAt : Nat

namespace Registry

def init : Registry := ⟨∅,∅,∅,0,fun _ => "",fun _ => 0,∅,0⟩

def alive (s : Registry) (bag : Nat) : Bool := 0 < s.refs bag || bag ∈ s.m_preCreatedStateBags

def GetStateBag (s : Registry) (id : String) : Option Nat :=
  (s.m_stateBags.lookup id).filter s.alive

def hold (s : Registry) (bag : Nat) : Registry :=
  { s with refs := Function.update s.refs bag (s.refs bag + 1) }

def UnregisterStateBag (s : Registry) (id : String) : Registry :=
  { s with m_erasureList := insert id s.m_erasureList }

-- The destructor of a bag that nothing refers to any more.
def release (s : Registry) (bag : Nat) : Registry :=
  if s.refs bag = 0 then s
  else
    let dropped := { s with refs := Function.update s.refs bag (s.refs bag - 1) }
    if dropped.alive bag then dropped else dropped.UnregisterStateBag (s.m_id bag)

def makeBag (s : Registry) (id : String) : Registry :=
  { s with m_stateBags := s.m_stateBags.insert id s.made, made := s.made + 1,
           m_id := Function.update s.m_id s.made id, refs := Function.update s.refs s.made 1,
           returned := s.returned.insert id s.made }

def RegisterStateBag (s : Registry) (id : String) : Registry × Nat :=
  let wasBeingErased := id ∈ s.m_erasureList
  let s := { s with m_erasureList := s.m_erasureList.erase id }
  match if wasBeingErased then none else s.GetStateBag id with
  | some bag =>
    ({ s.hold bag with
        m_preCreatedStateBags := s.m_preCreatedStateBags.erase bag
        returned := s.returned.insert id bag },bag)
  | none =>
    (s.makeBag id,s.made)

def PreCreateStateBag (s : Registry) (id : String) : Registry :=
  let (s,bag) := s.RegisterStateBag id
  { s with m_preCreatedStateBags := insert bag s.m_preCreatedStateBags }.release bag

def tick (s : Registry) : Registry :=
  { s with m_stateBags := s.m_stateBags.keep (fun id _ => id ∉ s.m_erasureList), m_erasureList := ∅ }

def Reset (s : Registry) : Registry :=
  let destroyed := s.m_preCreatedStateBags.filter (fun bag => s.refs bag = 0)
  { s with m_stateBags := ∅, m_preCreatedStateBags := ∅,
           m_erasureList := s.m_erasureList ∪ destroyed.image s.m_id, resetAt := s.made }

inductive Op where
  | register (id : String)
  | release (bag : Nat)
  | get (id : String)
  | packet (id : String)
  | tick
  | reset
  deriving DecidableEq, Repr

def step (s : Registry) : Op → Registry
  | .register id => (s.RegisterStateBag id).1
  | .release bag => s.release bag
  | .get id =>
    match s.GetStateBag id with
    | some bag => s.hold bag
    | none => s
  | .packet id => if (s.GetStateBag id).isSome then s else s.PreCreateStateBag id
  | .tick => s.tick
  | .reset => s.Reset

def Registered (s : Registry) : Prop :=
  ∀ id bag, s.returned.lookup id = some bag → s.alive bag → s.GetStateBag id = some bag

def RegisteredSinceReset (s : Registry) : Prop :=
  ∀ id bag, s.returned.lookup id = some bag → s.resetAt ≤ bag → s.alive bag →
    s.GetStateBag id = some bag

def KeepsOthers (s : Registry) (op : Op) : Prop :=
  op ≠ .reset → ∀ id bag, s.GetStateBag id = some bag → (s.step op).alive bag →
    (s.step op).GetStateBag id = some bag

def Spares (s : Registry) : Op → Prop
  | .release old => old < s.resetAt → s.refs old = 1 → old ∉ s.m_preCreatedStateBags →
    ∀ bag < s.made, s.resetAt ≤ bag → s.alive bag → s.m_id bag ≠ s.m_id old
  | _ => True

structure Kept (s : Registry) : Prop where
  unmade : ∀ bag, s.alive bag → bag < s.made
  sinceReset : s.resetAt ≤ s.made
  named : ∀ id bag, s.m_stateBags.lookup id = some bag →
    s.m_id bag = id ∧ s.resetAt ≤ bag ∧ bag < s.made
  current : ∀ bag, s.alive bag → s.resetAt ≤ bag → s.m_stateBags.lookup (s.m_id bag) = some bag
  erased : ∀ bag, s.alive bag → s.resetAt ≤ bag → s.m_id bag ∉ s.m_erasureList
  returned : ∀ id bag, s.returned.lookup id = some bag → bag < s.made ∧ s.m_id bag = id

variable {s : Registry}

theorem Kept.get (kept : Kept s) {bag : Nat} (alive : s.alive bag)
    (since : s.resetAt ≤ bag) : s.GetStateBag (s.m_id bag) = some bag := by
  unfold GetStateBag
  rw [kept.current bag alive since,Option.filter_some,if_pos alive]

theorem Kept.registered (kept : Kept s) : RegisteredSinceReset s := by
  intro id bag returned since alive
  have found := kept.get alive since
  rw [(kept.returned id bag returned).2] at found
  exact found

theorem getStateBag {id : String} {bag : Nat} (found : s.GetStateBag id = some bag) :
    s.m_stateBags.lookup id = some bag ∧ s.alive bag := by
  unfold GetStateBag at found
  exact Option.filter_eq_some_iff.mp found

theorem aliveOfHeld {bag : Nat} (held : s.refs bag ≠ 0) : s.alive bag := by
  simp [alive,Nat.pos_of_ne_zero held]

theorem Kept.fewer {s s' : Registry} (kept : Kept s) (alive : ∀ bag, s'.alive bag → s.alive bag)
    (erasure : s'.m_erasureList ⊆ s.m_erasureList) (map : s'.m_stateBags = s.m_stateBags)
    (made : s'.made = s.made) (names : s'.m_id = s.m_id) (reset : s'.resetAt = s.resetAt)
    (returned : ∀ id bag, s'.returned.lookup id = some bag → bag < s.made ∧ s.m_id bag = id) : Kept s' := by
  refine ⟨?_,?_,?_,?_,?_,?_⟩
  · exact fun bag live => made ▸ kept.unmade bag (alive bag live)
  · rw [made,reset]
    exact kept.sinceReset
  · rw [map,made,names,reset]
    exact kept.named
  · intro bag live since
    rw [map,names]
    exact kept.current bag (alive bag live) (reset ▸ since)
  · intro bag live since within
    exact kept.erased bag (alive bag live) (reset ▸ since) (names ▸ erasure within)
  · rw [made,names]
    exact returned

theorem aliveHold (s : Registry) (bag b : Nat) : (s.hold bag).alive b = (decide (b = bag) || s.alive b) := by
  unfold hold alive
  by_cases here : b = bag
  · subst here
    simp
  · simp [here]

theorem keptHold (kept : Kept s) {bag : Nat} (live : s.alive bag) : Kept (s.hold bag) := by
  refine kept.fewer (fun b held => ?_) subset_rfl rfl rfl rfl rfl kept.returned
  rw [aliveHold] at held
  rcases Bool.or_eq_true_iff.mp held with same | before
  · exact of_decide_eq_true same ▸ live
  · exact before

theorem aliveMake (s : Registry) (id : String) (b : Nat) :
    (s.makeBag id).alive b = (decide (b = s.made) || s.alive b) := by
  unfold makeBag alive
  by_cases here : b = s.made
  · subst here
    simp
  · simp [here]

section
variable {s : Registry} (kept : Kept s)
include kept

theorem keptMake {id : String} (unlisted : id ∉ s.m_erasureList)
    (unused : ∀ b, s.alive b → s.resetAt ≤ b → s.m_id b ≠ id) : Kept (s.makeBag id) := by
  have live : ∀ b, (s.makeBag id).alive b → b = s.made ∨ b < s.made ∧ s.alive b := by
    intro b held
    rw [aliveMake] at held
    rcases Bool.or_eq_true_iff.mp held with same | before
    · exact .inl (of_decide_eq_true same)
    · exact .inr ⟨kept.unmade b before,before⟩
  have older : ∀ b, b < s.made → (s.makeBag id).m_id b = s.m_id b :=
    fun b before => Function.update_of_ne (Nat.ne_of_lt before) ..
  have newest : (s.makeBag id).m_id s.made = id := Function.update_self ..
  refine ⟨?_,?_,?_,?_,?_,?_⟩
  · intro b held
    rcases live b held with rfl | ⟨before,_⟩
    · exact Nat.lt_succ_self _
    · exact Nat.lt_succ_of_lt before
  · exact Nat.le_succ_of_le kept.sinceReset
  · intro id' bag found
    rw [show (s.makeBag id).m_stateBags = s.m_stateBags.insert id s.made from rfl,
      Table.lookupInsert] at found
    split at found
    · rename_i same
      cases found
      exact ⟨newest.trans same.symm,kept.sinceReset,Nat.lt_succ_self _⟩
    · obtain ⟨name,since,before⟩ := kept.named id' bag found
      exact ⟨(older bag before).trans name,since,Nat.lt_succ_of_lt before⟩
  · intro b held since
    rw [show (s.makeBag id).m_stateBags = s.m_stateBags.insert id s.made from rfl,Table.lookupInsert]
    rcases live b held with rfl | ⟨before,held⟩
    · rw [newest,if_pos rfl]
    · rw [older b before,if_neg (unused b held since)]
      exact kept.current b held since
  · intro b held since
    rcases live b held with rfl | ⟨before,held⟩
    · rw [newest]
      exact unlisted
    · rw [older b before]
      exact kept.erased b held since
  · intro id' bag found
    rw [show (s.makeBag id).returned = s.returned.insert id s.made from rfl,Table.lookupInsert] at found
    split at found
    · rename_i same
      cases found
      exact ⟨Nat.lt_succ_self _,newest.trans same.symm⟩
    · obtain ⟨before,name⟩ := kept.returned id' bag found
      exact ⟨Nat.lt_succ_of_lt before,(older bag before).trans name⟩

theorem keptRegister (id : String) :
    Kept (s.RegisterStateBag id).1 ∧ (s.RegisterStateBag id).1.alive (s.RegisterStateBag id).2 := by
  have unlisted : Kept { s with m_erasureList := s.m_erasureList.erase id } :=
    kept.fewer (fun _ live => live) (Finset.erase_subset ..) rfl rfl rfl rfl kept.returned
  unfold RegisterStateBag
  simp only
  split
  · rename_i bag found
    have found : s.GetStateBag id = some bag := by
      split at found
      · contradiction
      · exact found
    obtain ⟨mapped,live⟩ := getStateBag found
    refine ⟨unlisted.fewer (fun b held => ?_) subset_rfl rfl rfl rfl rfl (fun id' bag' last => ?_),?_⟩
    · revert held
      unfold alive hold
      by_cases here : b = bag
      · subst here
        exact fun _ => live
      · simp [here]
    · rw [Table.lookupInsert] at last
      split at last
      · rename_i same
        cases last
        exact ⟨kept.unmade bag live,(kept.named id bag mapped).1.trans same.symm⟩
      · exact kept.returned id' bag' last
    · exact aliveOfHeld (by simp [hold])
  · rename_i absent
    refine ⟨keptMake unlisted (Finset.notMem_erase id s.m_erasureList) (fun b live since name => ?_),?_⟩
    · have mapped := kept.get live since
      have listed := kept.erased b live since
      rw [name] at mapped listed
      rw [if_neg listed] at absent
      exact Option.some_ne_none _ (mapped.symm.trans absent)
    · rw [aliveMake]
      simp

theorem keptRelease {bag : Nat} (spares : s.Spares (.release bag)) : Kept (s.release bag) := by
  have fewer : ∀ b, ({ s with refs := Function.update s.refs bag (s.refs bag - 1) } :
      Registry).alive b → s.alive b := by
    intro b
    unfold alive
    by_cases here : b = bag
    · subst here
      simp only [Function.update_self,Bool.or_eq_true,decide_eq_true_eq]
      exact Or.imp_left (fun still => by omega)
    · simp [here]
  have dropped : Kept { s with refs := Function.update s.refs bag (s.refs bag - 1) } :=
    kept.fewer fewer subset_rfl rfl rfl rfl rfl kept.returned
  unfold release
  split
  · exact kept
  · rename_i held
    simp only
    split
    · exact dropped
    · rename_i destroyed
      have gone := Bool.eq_false_of_not_eq_true destroyed
      simp only [alive,Function.update_self,Bool.or_eq_false_iff,decide_eq_false_iff_not] at gone
      refine ⟨dropped.unmade,dropped.sinceReset,dropped.named,dropped.current,?_,dropped.returned⟩
      intro b live since listed
      rcases Finset.mem_insert.mp listed with name | listed
      · by_cases old : bag < s.resetAt
        · exact spares old (by omega) gone.2 b (dropped.unmade b live) since (fewer b live) name
        · have here := kept.current bag (aliveOfHeld held) (Nat.le_of_not_lt old)
          have there := kept.current b (fewer b live) since
          rw [show s.m_id b = s.m_id bag from name,here] at there
          cases there
          exact destroyed live
      · exact dropped.erased b live since listed

theorem keptPreCreate (id : String) : Kept (s.PreCreateStateBag id) := by
  obtain ⟨registered,live⟩ := keptRegister kept id
  unfold PreCreateStateBag
  generalize s.RegisterStateBag id = made at registered live ⊢
  obtain ⟨s,bag⟩ := made
  have owned : Kept { s with m_preCreatedStateBags := insert bag s.m_preCreatedStateBags } := by
    refine registered.fewer (fun b held => ?_) subset_rfl rfl rfl rfl rfl registered.returned
    revert held
    unfold alive at live ⊢
    by_cases here : b = bag
    · subst here
      exact fun _ => live
    · simp [here]
  exact keptRelease owned (fun _ _ unowned => absurd (Finset.mem_insert_self ..) unowned)

theorem keptTick : Kept s.tick := by
  refine ⟨kept.unmade,kept.sinceReset,fun id bag found => ?_,fun bag live since => ?_,
    by simp [tick],kept.returned⟩
  · unfold tick at found
    rw [Table.lookupKeep,Option.filter_eq_some_iff] at found
    exact kept.named id bag found.1
  · unfold tick
    rw [Table.lookupKeep,kept.current bag live since,Option.filter_some,if_pos]
    simpa using kept.erased bag live since

theorem keptReset : Kept s.Reset := by
  have none : ∀ bag, s.Reset.alive bag → ¬s.made ≤ bag := by
    intro bag live
    refine Nat.not_le_of_lt (kept.unmade bag ?_)
    revert live
    unfold alive Reset
    simp +contextual
  refine ⟨fun bag live => Nat.lt_of_not_le (none bag live),le_rfl,by simp [Reset],?_,?_,kept.returned⟩
  · exact fun bag live since => absurd since (none bag live)
  · exact fun bag live since => absurd since (none bag live)

theorem keptStep {op : Op} (spares : s.Spares op) : Kept (s.step op) := by
  cases op with
  | register id => exact (keptRegister kept id).1
  | release bag => exact keptRelease kept spares
  | get id =>
    simp only [step]
    split
    · rename_i bag found
      exact keptHold kept (getStateBag found).2
    · exact kept
  | packet id =>
    simp only [step]
    split
    · exact kept
    · exact keptPreCreate kept id
  | tick => exact keptTick kept
  | reset => exact keptReset kept

end

structure Extends (s s' : Registry) : Prop where
  reset : s'.resetAt = s.resetAt
  names : ∀ bag < s.made, s'.m_id bag = s.m_id bag

theorem releaseSame (s : Registry) (bag : Nat) :
    (s.release bag).resetAt = s.resetAt ∧ (s.release bag).m_id = s.m_id := by
  unfold release
  split
  · exact ⟨rfl,rfl⟩
  · simp only
    split
    · exact ⟨rfl,rfl⟩
    · exact ⟨rfl,rfl⟩

theorem registerExtends (s : Registry) (id : String) : Extends s (s.RegisterStateBag id).1 := by
  unfold RegisterStateBag
  simp only
  split
  · exact ⟨rfl,fun _ _ => rfl⟩
  · exact ⟨rfl,fun bag before => Function.update_of_ne (Nat.ne_of_lt before) ..⟩

theorem preCreateExtends (s : Registry) (id : String) : Extends s (s.PreCreateStateBag id) := by
  have registered := registerExtends s id
  unfold PreCreateStateBag
  generalize s.RegisterStateBag id = made at registered ⊢
  obtain ⟨s',bag⟩ := made
  obtain ⟨reset,names⟩ := releaseSame
    { s' with m_preCreatedStateBags := insert bag s'.m_preCreatedStateBags } bag
  exact ⟨reset.trans registered.reset,fun b before =>
    (congrFun names b).trans (registered.names b before)⟩

theorem stepExtends (s : Registry) {op : Op} (noReset : op ≠ .reset) : Extends s (s.step op) := by
  cases op with
  | register id => exact registerExtends s id
  | release bag => exact ⟨(releaseSame s bag).1,fun b _ => congrFun (releaseSame s bag).2 b⟩
  | get id =>
    simp only [step]
    split
    · exact ⟨rfl,fun _ _ => rfl⟩
    · exact ⟨rfl,fun _ _ => rfl⟩
  | packet id =>
    simp only [step]
    split
    · exact ⟨rfl,fun _ _ => rfl⟩
    · exact preCreateExtends s id
  | tick => exact ⟨rfl,fun _ _ => rfl⟩
  | reset => exact absurd rfl noReset

theorem keepsOthers {s : Registry} (kept : Kept s) {op : Op} (spares : s.Spares op) : s.KeepsOthers op := by
  intro noReset id bag found live
  obtain ⟨mapped,_⟩ := getStateBag found
  obtain ⟨name,since,before⟩ := kept.named id bag mapped
  obtain ⟨reset,names⟩ := stepExtends s noReset
  have after := (keptStep kept spares).get live (reset ▸ since)
  rw [names bag before,name] at after
  exact after

theorem keptInit : Kept init :=
  ⟨by simp [init,alive],le_rfl,by simp [init],by simp [init,alive],by simp [init,alive],by simp [init]⟩

theorem registeredThroughout {ops : List Op} (spares : Along step Spares init ops) :
    Throughout step RegisteredSinceReset init ops ∧ Along step KeepsOthers init ops :=
  ⟨throughoutMono (fun _ kept => Kept.registered kept)
      (throughoutOfKept Kept (fun _ _ kept ok => keptStep kept ok) keptInit spares),
    alongOfKept Kept (fun _ _ kept ok => ⟨keptStep kept ok,keepsOthers kept ok⟩) keptInit spares⟩

theorem registeredThroughoutOnce : Throughout step RegisteredSinceReset init
        [.register "global",.reset,.release 0,.register "global",.tick] ∧
      Along step KeepsOthers init [.register "global",.reset,.release 0,.register "global",.tick] :=
  registeredThroughout ⟨trivial,trivial,fun _ _ _ => by decide +kernel,trivial,trivial,trivial⟩

theorem resetUnregisters : ¬ ∀ ops : List Op, Throughout step Registered init ops := by
  intro all
  have last := throughoutLast (all [.register "global",.reset]) "global" 0
    (by decide +kernel) (by decide +kernel)
  revert last
  decide +kernel

end Registry
end Citizen.Bags
