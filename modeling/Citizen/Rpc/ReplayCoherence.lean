import Citizen.Lib.Run
import Citizen.Rpc.ServerRpc

/-! What clients that join later are replayed, when deletions come after the calls they delete. -/
namespace Citizen.Rpc
open BitField (Byte)

inductive RpcEvent where
  | Native (native : Native) (ctx : ScriptContext)
  | SyncThread
  | CreatePed

structure Replays where
  rpc : RpcState
  calls : BitVec 32 → List SyncCallback
  deleted : BitVec 32 → Bool

def latest (calls : List SyncCallback) (nativeHash : BitVec 64) : Option Record :=
  ((calls.map SyncCallback.record).filter (fun r => r.1 = nativeHash)).getLast?

namespace Replays

def start : Replays := ⟨.fresh,fun _ => [],fun _ => false⟩

def pending (s : Replays) (object : BitVec 32) : List SyncCallback :=
  s.rpc.syncCallbacks.filter (fun c => c.object = object)

def recorded (s : Replays) (c : SyncCallback) : Replays :=
  { s with
    calls := Function.update s.calls c.object (s.calls c.object ++ [c])
    deleted := match c with
      | .pushBack creationToken _ _ => Function.update s.deleted creationToken false
      | .replace .. => s.deleted }

def track (s : Replays) (native : Native) (ctx : ScriptContext) : Replays :=
  match s.rpc.message native ctx with
  | none => s
  | some m =>
    let s := (s.rpc.callback native m).elim s s.recorded
    if m.delThis then
      { s with calls := Function.update s.calls m.delId [],deleted := Function.update s.deleted m.delId true }
    else s

def step (s : Replays) : RpcEvent → Replays
  | .Native native ctx => { s.track native ctx with rpc := (s.rpc.callNative native ctx).1 }
  | .SyncThread => { s with rpc := s.rpc.runCallback }
  | .CreatePed => s

def Coherent (s : Replays) : RpcEvent → Prop
  | .CreatePed =>
    (∀ object, s.deleted object = true → ∀ e ∈ s.rpc.OnCreatePed, e.1 ≠ object) ∧
    ∀ object nativeHash call, s.deleted object = false → latest (s.calls object) nativeHash = some call →
      (∀ c ∈ s.pending object, c.record.1 ≠ nativeHash) →
      s.rpc.OnCreatePed.filter (fun e => e.1 = object ∧ e.2.1 = nativeHash) = [(object,call)]
  | _ => True

/-- A new object gets the token of no other, calls name no deleted object, and a deletion comes when the sync thread
has applied the calls of its object. -/
def Settled (s : Replays) : RpcEvent → Prop
  | .Native native ctx => ∀ m, s.rpc.message native ctx = some m →
    match native.m_rpcType with
    | .ObjectCreate => s.calls s.rpc.creationToken = []
    | .EntityContext =>
      (m.replay = true → s.deleted m.delId = false) ∧ (m.delThis = true → s.pending m.delId = [])
  | _ => True

structure Kept (s : Replays) : Prop where
  applied : ∀ object, ∃ done, s.calls object = done ++ s.pending object ∧
    s.rpc.replayList object = done.foldl SyncCallback.apply []
  removed : ∀ object, s.deleted object = true → s.calls object = []
  first : ∀ object, ∀ c ∈ (s.calls object).tail, ∃ delId nativeHash buffer, c = .replace delId nativeHash buffer

theorem replaced (rl : List Record) (delId : BitVec 32) (nativeHash nativeHash' : BitVec 64) (buffer : List Byte) :
    (SyncCallback.apply rl (.replace delId nativeHash' buffer)).filter (fun r => r.1 = nativeHash) =
      if nativeHash' = nativeHash then [(nativeHash',buffer)] else rl.filter (fun r => r.1 = nativeHash) := by
  unfold SyncCallback.apply
  dsimp only
  rw [List.filter_append,List.filter_filter]
  split
  · rename_i same
    simp [same]
  · rename_i other
    have kept : rl.filter (fun r => r.1 = nativeHash && r.1 ≠ nativeHash') = rl.filter (fun r => r.1 = nativeHash) := by
      refine List.filter_congr (fun r _ => ?_)
      by_cases here : r.1 = nativeHash
      · simp [here,Ne.symm other]
      · simp [here]
    rw [kept]
    simp [other]

theorem latestConcat (calls : List SyncCallback) (c : SyncCallback) (nativeHash : BitVec 64) :
    latest (calls ++ [c]) nativeHash = if c.record.1 = nativeHash then some c.record else latest calls nativeHash := by
  unfold latest
  rw [List.map_append,List.filter_append]
  split
  · rename_i same
    simp [same]
  · rename_i other
    simp [other]

theorem appliedLatest {calls : List SyncCallback}
    (first : ∀ c ∈ calls.tail, ∃ delId nativeHash buffer, c = .replace delId nativeHash buffer)
    (nativeHash : BitVec 64) :
    (calls.foldl SyncCallback.apply []).filter (fun r => r.1 = nativeHash) = (latest calls nativeHash).toList := by
  induction calls using List.reverseRecOn with
  | nil => rfl
  | append_singleton calls c ih =>
    rw [List.foldl_append,List.foldl_cons,List.foldl_nil,latestConcat]
    cases c with
    | replace delId hash buffer =>
      have before := ih (fun c mem => first c (by cases calls with
        | nil => cases mem
        | cons d rest => exact List.mem_append_left _ mem))
      rw [replaced,before]
      unfold SyncCallback.record
      split <;> rfl
    | pushBack token hash buffer =>
      cases calls with
      | nil => by_cases same : hash = nativeHash <;> simp [SyncCallback.apply,SyncCallback.record,same,latest]
      | cons d rest =>
        obtain ⟨_,_,_,impossible⟩ := first (.pushBack token hash buffer) (by simp)
        cases impossible

theorem latestAppend {done rest : List SyncCallback} {nativeHash : BitVec 64}
    (others : ∀ c ∈ rest, c.record.1 ≠ nativeHash) : latest (done ++ rest) nativeHash = latest done nativeHash := by
  have none : (rest.map SyncCallback.record).filter (fun r => r.1 = nativeHash) = [] := by
    refine List.filter_eq_nil_iff.mpr (fun r mem => ?_)
    obtain ⟨c,earlier,rfl⟩ := List.mem_map.mp mem
    simpa using others c earlier
  rw [latest,List.map_append,List.filter_append,none,List.append_nil]
  rfl

theorem sentFor (s : RpcState) (object : BitVec 32) :
    s.OnCreatePed.filter (fun e => e.1 = object) = (s.replayList object).map (Prod.mk object) := by
  unfold RpcState.OnCreatePed RpcState.replayList AList.lookup
  have keys := s.g_replayList.nodupKeys
  revert keys
  generalize s.g_replayList.entries = entries
  intro keys
  induction entries with
  | nil => rfl
  | cons e rest ih =>
    obtain ⟨key,rl⟩ := e
    obtain ⟨absent,later⟩ := List.nodupKeys_cons.mp keys
    rw [List.flatMap_cons,List.filter_append,ih later]
    by_cases here : key = object
    · rw [here] at absent
      have none : rest.dlookup object = none := List.dlookup_eq_none.mpr absent
      subst here
      have all : (rl.map (Prod.mk key)).filter (fun e => e.1 = key) = rl.map (Prod.mk key) := by
        refine List.filter_eq_self.mpr (fun e mem => ?_)
        obtain ⟨r,_,rfl⟩ := List.mem_map.mp mem
        exact decide_eq_true rfl
      rw [none,List.dlookup_cons_eq,all]
      exact List.append_nil _
    · rw [List.dlookup_cons_ne _ _ (Ne.symm here)]
      have none : (rl.map (Prod.mk key)).filter (fun e => e.1 = object) = [] := by
        refine List.filter_eq_nil_iff.mpr (fun e mem => ?_)
        obtain ⟨r,_,rfl⟩ := List.mem_map.mp mem
        simpa using here
      rw [none,List.nil_append]

theorem writtenFlags {ctx : ScriptContext} {i : Nat} {types : List ArgumentType} {m m' : Message}
    (written : writeArguments ctx i types m = some m') : (m'.replay = true → m.replay = true ∨ .ObjRef ∈ types) ∧
      (m'.delThis = true → m.delThis = true ∨ .ObjDel ∈ types) := by
  induction types generalizing i m with
  | nil =>
    cases written
    exact ⟨.inl,.inl⟩
  | cons type rest ih =>
    obtain ⟨next,first,later⟩ := Option.bind_eq_some_iff.mp written
    obtain ⟨replay,delThis⟩ := ih later
    have flags : (next.replay = true → m.replay = true ∨ type = .ObjRef) ∧
        (next.delThis = true → m.delThis = true ∨ type = .ObjDel) := by
      cases type with
      | Entity | Player =>
        obtain ⟨_,_,rfl⟩ := Option.map_eq_some_iff.mp first
        exact ⟨.inl,.inl⟩
      | ObjRef =>
        cases first
        exact ⟨fun _ => .inr rfl,.inl⟩
      | ObjDel =>
        cases first
        exact ⟨.inl,fun _ => .inr rfl⟩
      | Float | Int | Bool | String | Hash | Vector3 =>
        cases first
        exact ⟨.inl,.inl⟩
    constructor
    · intro up
      rcases replay up with before | mem
      · exact (flags.1 before).imp_right (fun same => by rw [same]; exact List.mem_cons_self)
      · exact .inr (List.mem_cons_of_mem _ mem)
    · intro up
      rcases delThis up with before | mem
      · exact (flags.2 before).imp_right (fun same => by rw [same]; exact List.mem_cons_self)
      · exact .inr (List.mem_cons_of_mem _ mem)

theorem notBoth {s : RpcState} {native : Native} {ctx : ScriptContext} {m : Message}
    (made : s.message native ctx = some m) : (native.m_rpcType = .ObjectCreate → m.delThis = false) ∧
      (native.m_rpcType = .EntityContext → m.replay = true → m.delThis = false) := by
  obtain ⟨replay,delThis⟩ := writtenFlags made
  have objects := native.objects
  constructor
  · intro type
    rw [if_neg (by rw [type]; decide)] at objects
    by_contra up
    rcases delThis (by simpa using up) with before | mem
    · cases before
    · have inside : ArgumentType.ObjDel ∈ native.m_arguments.filter isObject := List.mem_filter.mpr ⟨mem,rfl⟩
      exact absurd (List.length_pos_of_mem inside) (Nat.not_lt_of_ge objects)
  · intro type up
    rw [if_pos type] at objects
    by_contra also
    rcases replay up with before | memRef
    · rw [type] at before
      cases before
    rcases delThis (by simpa using also) with before | memDel
    · cases before
    have both : [ArgumentType.ObjRef,.ObjDel] ⊆ native.m_arguments.filter isObject := by
      intro type mem
      rcases List.mem_cons.mp mem with rfl | mem
      · exact List.mem_filter.mpr ⟨memRef,rfl⟩
      · cases List.mem_singleton.mp mem
        exact List.mem_filter.mpr ⟨memDel,rfl⟩
    have two := (List.Nodup.subperm (by decide) both).length_le
    exact absurd objects (Nat.not_le_of_lt two)

variable {s : Replays}

theorem Kept.coherent (kept : Kept s) (e : RpcEvent) : Coherent s e := by
  cases e with
  | Native native ctx => trivial
  | SyncThread => trivial
  | CreatePed =>
    have sent (object : BitVec 32) : ∃ done, s.calls object = done ++ s.pending object ∧
        s.rpc.OnCreatePed.filter (fun e => e.1 = object) =
          (done.foldl SyncCallback.apply []).map (Prod.mk object) := by
      obtain ⟨done,calls,list⟩ := kept.applied object
      exact ⟨done,calls,by rw [sentFor,list]⟩
    constructor
    · intro object deleted e mem same
      obtain ⟨done,calls,sent⟩ := sent object
      rw [kept.removed object deleted] at calls
      rw [(List.append_eq_nil_iff.mp calls.symm).1] at sent
      have inside : e ∈ s.rpc.OnCreatePed.filter (fun e => e.1 = object) :=
        List.mem_filter.mpr ⟨mem,decide_eq_true same⟩
      rw [sent] at inside
      cases inside
    · intro object nativeHash call _ last settled
      obtain ⟨done,calls,sent⟩ := sent object
      have first : ∀ c ∈ done.tail, ∃ delId nativeHash buffer, c = .replace delId nativeHash buffer := by
        intro c mem
        refine kept.first object c ?_
        rw [calls]
        cases done with
        | nil => cases mem
        | cons d rest => exact List.mem_append_left _ mem
      rw [calls,latestAppend settled] at last
      have split : s.rpc.OnCreatePed.filter (fun e => e.1 = object ∧ e.2.1 = nativeHash) =
          (s.rpc.OnCreatePed.filter (fun e => e.1 = object)).filter (fun e => e.2.1 = nativeHash) := by
        rw [List.filter_filter]
        refine List.filter_congr (fun e _ => ?_)
        rw [Bool.decide_and,Bool.and_comm]
      have records := appliedLatest first nativeHash
      rw [last] at records
      rw [split,sent,List.filter_map]
      exact congrArg (List.map (Prod.mk object)) records

theorem keptStart : Kept start :=
  ⟨fun _ => ⟨[],rfl,rfl⟩,fun _ up => absurd up Bool.false_ne_true,fun _ _ mem => absurd mem List.not_mem_nil⟩

theorem replayListInsert (rpc : RpcState) (k object : BitVec 32) (rl : List Record) (token : Nat)
    (queue : List SyncCallback) : RpcState.replayList ⟨token,rpc.g_replayList.insert k rl,queue⟩ object =
      if object = k then rl else rpc.replayList object := by
  unfold RpcState.replayList
  dsimp only
  rw [Table.lookupInsert]
  split <;> rfl

section
variable (kept : Kept s)
include kept

theorem Kept.applies : Kept (s.step .SyncThread) := by
  cases queue : s.rpc.syncCallbacks with
  | nil =>
    have same : s.step .SyncThread = s := by
      simp only [step,RpcState.runCallback,queue]
    rw [same]
    exact kept
  | cons c rest =>
    have after : s.step .SyncThread = { s with
        rpc := ⟨s.rpc.g_objectToken,s.rpc.g_replayList.insert c.object (c.apply (s.rpc.replayList c.object)),rest⟩ } := by
      simp only [step,RpcState.runCallback,queue]
    rw [after]
    refine ⟨fun object => ?_,kept.removed,kept.first⟩
    obtain ⟨done,calls,list⟩ := kept.applied object
    unfold pending at calls ⊢
    rw [queue] at calls
    dsimp only
    rw [replayListInsert]
    by_cases mine : object = c.object
    · subst mine
      rw [List.filter_cons_of_pos (by simp)] at calls
      refine ⟨done ++ [c],?_,?_⟩
      · rw [calls,List.append_assoc]
        rfl
      · rw [if_pos rfl,list,List.foldl_append]
        rfl
    · rw [List.filter_cons_of_neg (by simpa using Ne.symm mine)] at calls
      exact ⟨done,calls,by rw [if_neg mine,list]⟩

theorem Kept.drawn (token : Nat) :
    Kept { s with rpc := ⟨token,s.rpc.g_replayList,s.rpc.syncCallbacks⟩ } :=
  ⟨kept.applied,kept.removed,kept.first⟩

theorem Kept.recorded {c : SyncCallback} (token : Nat)
    (settled : match c with
      | .pushBack creationToken _ _ => s.calls creationToken = []
      | .replace delId _ _ => s.deleted delId = false) :
    Kept { s.recorded c with
      rpc := ⟨token,s.rpc.g_replayList,s.rpc.syncCallbacks ++ [c]⟩ } := by
  refine ⟨fun object => ?_,fun object => ?_,fun object => ?_⟩
  · obtain ⟨done,calls,list⟩ := kept.applied object
    refine ⟨done,?_,list⟩
    unfold pending at calls ⊢
    unfold Replays.recorded
    dsimp only
    rw [List.filter_append]
    by_cases mine : object = c.object
    · subst mine
      rw [Function.update_self,calls,List.append_assoc,List.filter_cons_of_pos (by simp),List.filter_nil]
    · rw [Function.update_of_ne mine,calls,List.filter_cons_of_neg (by simpa using Ne.symm mine),List.filter_nil,
        List.append_nil]
  · intro deleted
    unfold Replays.recorded at deleted ⊢
    dsimp only at deleted ⊢
    by_cases mine : object = c.object
    · subst mine
      cases c with
      | pushBack creationToken nativeHash buffer =>
        dsimp only [SyncCallback.object] at deleted
        rw [Function.update_self] at deleted
        cases deleted
      | replace delId nativeHash buffer => exact absurd (settled.symm.trans deleted) Bool.false_ne_true
    · rw [Function.update_of_ne mine]
      refine kept.removed object ?_
      cases c with
      | pushBack creationToken nativeHash buffer => exact (Function.update_of_ne mine _ _).symm.trans deleted
      | replace delId nativeHash buffer => exact deleted
  · intro d mem
    unfold Replays.recorded at mem
    dsimp only at mem
    by_cases mine : object = c.object
    · subst mine
      rw [Function.update_self] at mem
      cases c with
      | pushBack creationToken nativeHash buffer =>
        have empty : s.calls creationToken = [] := settled
        dsimp only [SyncCallback.object] at mem
        rw [empty] at mem
        cases mem
      | replace delId nativeHash buffer =>
        cases calls : s.calls delId with
        | nil =>
          dsimp only [SyncCallback.object] at mem
          rw [calls] at mem
          cases mem
        | cons first rest =>
          dsimp only [SyncCallback.object] at mem
          rw [calls,List.cons_append,List.tail_cons] at mem
          rcases List.mem_append.mp mem with earlier | here
          · exact kept.first delId d (by rw [calls]; exact earlier)
          · exact ⟨_,_,_,List.mem_singleton.mp here⟩
    · rw [Function.update_of_ne mine] at mem
      exact kept.first object d mem

theorem Kept.cleared {delId : BitVec 32} (token : Nat) (settled : s.pending delId = []) :
    Kept { s with
      rpc := ⟨token,s.rpc.g_replayList.insert delId [],s.rpc.syncCallbacks⟩
      calls := Function.update s.calls delId []
      deleted := Function.update s.deleted delId true } := by
  refine ⟨fun object => ?_,fun object => ?_,fun object => ?_⟩
  · obtain ⟨done,calls,list⟩ := kept.applied object
    dsimp only
    rw [replayListInsert]
    by_cases mine : object = delId
    · subst mine
      exact ⟨[],by rw [Function.update_self]; exact settled.symm,if_pos rfl⟩
    · rw [Function.update_of_ne mine,if_neg mine]
      exact ⟨done,calls,list⟩
  · intro deleted
    dsimp only at deleted ⊢
    by_cases mine : object = delId
    · rw [mine,Function.update_self]
    · rw [Function.update_of_ne mine] at deleted ⊢
      exact kept.removed object deleted
  · intro d mem
    dsimp only at mem
    by_cases mine : object = delId
    · rw [mine,Function.update_self] at mem
      cases mem
    · rw [Function.update_of_ne mine] at mem
      exact kept.first object d mem

theorem Kept.calls {native : Native} {ctx : ScriptContext}
    (settled : Settled s (.Native native ctx)) : Kept (s.step (.Native native ctx)) := by
  cases made : s.rpc.message native ctx with
  | none =>
    unfold Replays.step track RpcState.callNative
    dsimp only
    rw [made]
    exact ⟨kept.applied,kept.removed,kept.first⟩
  | some m =>
    have settled := settled m made
    obtain ⟨creates,replays⟩ := notBoth made
    unfold Replays.step track RpcState.callNative
    dsimp only
    rw [made]
    dsimp only
    unfold RpcState.callback
    cases type : native.m_rpcType with
    | ObjectCreate =>
      rw [type] at settled
      rw [creates type]
      cases up : m.replay with
      | false => simpa using kept.drawn (nextToken s.rpc.g_objectToken)
      | true => exact kept.recorded (c := .pushBack s.rpc.creationToken native.m_gameHash m.buffer) _ settled
    | EntityContext =>
      rw [type] at settled
      cases up : m.replay with
      | true =>
        rw [replays type up]
        exact kept.recorded (c := .replace m.delId native.m_gameHash m.buffer) _ (settled.1 up)
      | false =>
        cases removes : m.delThis with
        | true => simpa using kept.cleared s.rpc.g_objectToken (settled.2 removes)
        | false => simpa using kept.drawn s.rpc.g_objectToken

end

theorem Kept.step {e : RpcEvent} (kept : Kept s) (settled : Settled s e) : Kept (s.step e) := by
  cases e with
  | Native native ctx => exact kept.calls settled
  | SyncThread => exact kept.applies
  | CreatePed => exact kept

theorem replayCoherent {events : List RpcEvent} (settled : Along step Settled start events) :
    Along step Coherent start events :=
  alongOfKept Kept (fun _ e kept settled => ⟨kept.step settled,kept.coherent e⟩) keptStart settled

def ADD_BLIP_FOR_COORD : Native := ⟨0x5A039BB0BCA604B6,.ObjectCreate,[.Float,.Float,.Float],by decide⟩

def SET_BLIP_SPRITE : Native := ⟨0xDF735600A4696DAF,.EntityContext,[.ObjRef,.Int],by decide⟩

def REMOVE_BLIP : Native := ⟨0x86A652570E5F25DD,.EntityContext,[.ObjDel],by decide⟩

def firstBlip : ScriptContext where
  resourceHash := 7
  GetArgument i := if i = 0 then 12820163 + 0x1000000 else 5
  CheckArgument _ := []
  entityBytes _ := none
  playerNetId _ := none

theorem replayCoherentSample : Along step Coherent start [.Native ADD_BLIP_FOR_COORD firstBlip,
    .Native SET_BLIP_SPRITE firstBlip,.SyncThread,.SyncThread,.CreatePed,.Native REMOVE_BLIP firstBlip,.CreatePed] := by
  refine replayCoherent ⟨?_,?_,trivial,trivial,trivial,?_,trivial,trivial⟩
  · intro m _
    exact rfl
  · intro m made
    cases made
    exact ⟨fun _ => by decide +kernel,fun removes => by cases removes⟩
  · intro m made
    cases made
    exact ⟨fun replays => (by cases replays),fun _ => by decide +kernel⟩

theorem deletedReplayed : ¬Along step Coherent start [.Native ADD_BLIP_FOR_COORD firstBlip,
    .Native REMOVE_BLIP firstBlip,.SyncThread,.CreatePed] := by
  rintro ⟨-,-,-,⟨none,-⟩,-⟩
  have deleted := none 12820163 (by decide +kernel)
  revert deleted
  decide +kernel

end Replays
end Citizen.Rpc
