import Citizen.Connect.ClientDeferral
import Citizen.Lib.Run

/-! A connecting client is admitted once, or rejected, and answered once. -/
namespace Citizen.Connect
open BitField (Byte)

attribute [local instance] byteOrder

inductive ConnectEvent where
  | callback (resource : Text) (call : Call)
  | triggerEvent
  | eventHandled (shouldAllow : Bool)
  | setKickReason (reason : Text)
  | cancel
  | dropClient

structure Admission where
  connection : Connection
  history : Text → List Call
  allowed : Bool

def Call.saysDone : Call → Bool
  | .done _ => true
  | _ => false

def Call.givesReason : Call → Bool
  | .done (some (.str _)) => true
  | _ => false

def Call.updates : Call → Bool
  | .defer | .update [.str _] | .done none | .done (some (.str _)) => true
  | _ => false

def Reply.isError : Reply → Bool
  | .error _ => true
  | _ => false

def heard (calls : List Call) (call : Call) : List Call := if call = .defer then [.defer] else calls ++ [call]

namespace Admission

def start : Admission := ⟨.start,fun _ => [],false⟩

def step (s : Admission) : ConnectEvent → Admission
  | .callback resource call =>
    { s with
      connection := s.connection.callback resource call
      history := if s.connection.phase = .posted then s.history
        else Function.update s.history resource (heard (s.history resource) call) }
  | .triggerEvent => { s with connection := s.connection.triggerEvent }
  | .eventHandled shouldAllow =>
    { s with
      connection := s.connection.eventHandled shouldAllow
      allowed := if s.connection.phase = .running then shouldAllow else s.allowed }
  | .setKickReason reason => { s with connection := s.connection.setKickReason reason }
  | .cancel => { s with connection := s.connection.cancel }
  | .dropClient => { s with connection := s.connection.dropClient }

def AllDone (s : Admission) : Prop :=
  ∀ resource, s.history resource ≠ [] →
    (s.history resource).any Call.saysDone = true ∧ (s.history resource).any Call.givesReason = false

end Admission

structure Safe (s : Connection) : Prop where
  once : s.admissions ≤ 1
  either : s.admissions = 1 → s.replies.any Reply.isError = false
  final : s.replies.count .null ≤ 1
  alive : s.crashed = false

namespace Admission

def Promised (s : Admission) (e : ConnectEvent) : Prop :=
  Safe (s.step e).connection ∧ ((s.step e).connection.admissions ≠ s.connection.admissions →
    (s.step e).allowed = true ∧ (s.step e).AllDone)

/-- When the event is handled, none has called `done` with a reason unless the request is cancelled, and a cancelled event leaves some
resource not done. -/
def Patient (s : Admission) : ConnectEvent → Prop
  | .eventHandled shouldAllow => s.connection.phase = .running →
    ((∃ resource, (s.history resource).any Call.givesReason = true) → s.connection.cbRef = false) ∧
      (shouldAllow = false → (∃ resource, ∃ call ∈ s.history resource, call.updates = true) → ¬s.AllDone) ∧
      (shouldAllow = true → (∀ resource, s.history resource = []) → s.connection.deferrals = true)
  | _ => True

structure Undecided (s : Connection) : Prop where
  admissions : s.admissions = 0
  errors : s.replies.any Reply.isError = false
  nulls : s.replies.count .null = 0
  alive : s.crashed = false

def Matched (states : OrderedMap Text DeferralState) (history : Text → List Call) : Prop :=
  ∀ resource, (states.find resource).map (fun ds => (ds.done,ds.rejected)) =
    if history resource = [] then none
    else some ((history resource).any Call.saysDone,(history resource).any Call.givesReason)

structure Early (s : Admission) : Prop where
  undecided : Undecided s.connection
  incomplete : s.connection.deferral.m_completed = false
  matched : Matched s.connection.deferral.m_deferralStates s.history
  client : s.connection.client = true
  unrejected : s.connection.earlyReject = false
  early : s.connection.deferral.m_ranEvents = false
  pending : s.connection.deferral.m_pending = true ↔
    ∃ resource, ∃ call ∈ s.history resource, call.updates = true

structure Waiting (s : Admission) : Prop where
  undecided : Undecided s.connection
  incomplete : s.connection.deferral.m_completed = false
  matched : Matched s.connection.deferral.m_deferralStates s.history
  ran : s.connection.deferral.m_ranEvents = true
  allowed : s.allowed = true

inductive Kept (s : Admission) : Prop where
  | posted (phase : s.connection.phase = .posted) (early : Early s) (silent : ∀ resource, s.history resource = [])
    (unheld : s.connection.deferralsRef = false)
  | running (phase : s.connection.phase = .running) (early : Early s) (held : s.connection.deferralsRef = true)
  | waiting (phase : s.connection.phase = .finished) (held : s.connection.deferrals = true)
    (unheld : s.connection.deferralsRef = false) (waiting : Waiting s)
  | closed (phase : s.connection.phase = .finished) (gone : s.connection.deferrals = false)
    (unheld : s.connection.deferralsRef = false) (safe : Safe s.connection)

end Admission

theorem scanCases (allDone : Bool) (progressMsg : Text) (states : List DeferralState) :
    (∃ message, scan allDone progressMsg states = .rejected message ∧ ∃ ds ∈ states, ds.rejected = true) ∨
    (scan allDone progressMsg states = .resolved ∧ allDone = true ∧ ∀ ds ∈ states, ds.done = true ∧ ds.rejected = false) ∨
    (∃ message, scan allDone progressMsg states = .waiting message ∧ (∀ ds ∈ states, ds.rejected = false) ∧
      (allDone = false ∨ ∃ ds ∈ states, ds.done = false)) := by
  induction states generalizing allDone progressMsg with
  | nil =>
    cases allDone with
    | true => exact .inr (.inl ⟨rfl,rfl,fun ds mem => absurd mem List.not_mem_nil⟩)
    | false => exact .inr (.inr ⟨_,rfl,fun ds mem => absurd mem List.not_mem_nil,.inl rfl⟩)
  | cons ds rest ih =>
    unfold scan
    dsimp only
    cases rejected : ds.rejected with
    | true => exact .inl ⟨_,rfl,ds,List.mem_cons_self,rejected⟩
    | false =>
      rw [if_neg Bool.false_ne_true]
      rcases ih (allDone && ds.done) _ with ⟨m,eq,ds',mem,up⟩ | ⟨eq,all,each⟩ | ⟨m,eq,none,some⟩
      · exact .inl ⟨m,eq,ds',List.mem_cons_of_mem _ mem,up⟩
      · obtain ⟨before,here⟩ := (Bool.and_eq_true _ _).mp all
        refine .inr (.inl ⟨eq,before,fun ds' mem => ?_⟩)
        rcases List.mem_cons.mp mem with rfl | mem
        · exact ⟨here,rejected⟩
        · exact each ds' mem
      · refine .inr (.inr ⟨m,eq,fun ds' mem => ?_,?_⟩)
        · rcases List.mem_cons.mp mem with rfl | mem
          · exact rejected
          · exact none ds' mem
        · rcases some with down | ⟨ds',mem,down⟩
          · rcases (Bool.and_eq_false_iff).mp down with before | here
            · exact .inl before
            · exact .inr ⟨ds,List.mem_cons_self,here⟩
          · exact .inr ⟨ds',List.mem_cons_of_mem _ mem,down⟩

namespace Admission

section
variable {states : OrderedMap Text DeferralState} {history : Text → List Call} (matched : Matched states history)
include matched

theorem Matched.known {resource : Text} {ds : DeferralState} (found : states.find resource = some ds) :
    history resource ≠ [] ∧ ds.done = (history resource).any Call.saysDone ∧
      ds.rejected = (history resource).any Call.givesReason := by
  have same := matched resource
  rw [found] at same
  split at same
  · cases same
  · rename_i called
    have flags := Option.some.inj same
    exact ⟨called,congrArg Prod.fst flags,congrArg Prod.snd flags⟩

theorem Matched.called {resource : Text} (called : history resource ≠ []) :
    ∃ ds, states.find resource = some ds ∧ ds ∈ states.entries.map Prod.snd := by
  have same := matched resource
  rw [if_neg called] at same
  obtain ⟨ds,found,_⟩ := Option.map_eq_some_iff.mp same
  exact ⟨ds,found,List.mem_map_of_mem (OrderedMap.findSome.mp found)⟩

theorem Matched.state {ds : DeferralState} (mem : ds ∈ states.entries.map Prod.snd) :
    ∃ resource, history resource ≠ [] ∧ ds.done = (history resource).any Call.saysDone ∧
      ds.rejected = (history resource).any Call.givesReason := by
  obtain ⟨⟨resource,_⟩,inside,rfl⟩ := List.mem_map.mp mem
  exact ⟨resource,matched.known (OrderedMap.findSome.mpr inside)⟩

theorem Matched.empty : states.entries = [] ↔ ∀ resource, history resource = [] := by
  constructor
  · intro none resource
    by_contra called
    obtain ⟨ds,_,mem⟩ := matched.called called
    rw [none] at mem
    cases mem
  · intro silent
    by_contra some
    obtain ⟨e,mem⟩ := List.exists_mem_of_ne_nil _ some
    obtain ⟨resource,called,_⟩ := matched.state (List.mem_map_of_mem mem)
    exact called (silent resource)

end

theorem scanSaid {s : Admission} (matched : Matched s.connection.deferral.m_deferralStates s.history) :
    (∃ message, scan true [] (s.connection.deferral.m_deferralStates.entries.map Prod.snd) = .rejected message ∧
      ∃ resource, (s.history resource).any Call.givesReason = true) ∨
    (scan true [] (s.connection.deferral.m_deferralStates.entries.map Prod.snd) = .resolved ∧ s.AllDone) ∨
    (∃ message, scan true [] (s.connection.deferral.m_deferralStates.entries.map Prod.snd) = .waiting message ∧
      (∀ resource, (s.history resource).any Call.givesReason = false) ∧ ¬s.AllDone) := by
  rcases scanCases true [] (s.connection.deferral.m_deferralStates.entries.map Prod.snd) with
    ⟨message,eq,ds,mem,rejected⟩ | ⟨eq,_,each⟩ | ⟨message,eq,none,open'⟩
  · obtain ⟨resource,_,_,reason⟩ := matched.state mem
    exact .inl ⟨message,eq,resource,reason.symm.trans rejected⟩
  · refine .inr (.inl ⟨eq,fun resource called => ?_⟩)
    obtain ⟨ds,found,mem⟩ := matched.called called
    obtain ⟨_,done,reason⟩ := matched.known found
    exact ⟨done.symm.trans (each ds mem).1,reason.symm.trans (each ds mem).2⟩
  · refine .inr (.inr ⟨message,eq,fun resource => ?_,fun all => ?_⟩)
    · by_cases called : s.history resource = []
      · rw [called]
        rfl
      · obtain ⟨ds,found,mem⟩ := matched.called called
        exact (matched.known found).2.2.symm.trans (none ds mem)
    · rcases open' with impossible | ⟨ds,mem,down⟩
      · cases impossible
      · obtain ⟨resource,called,done,_⟩ := matched.state mem
        rw [(all resource called).1,down] at done
        cases done

end Admission

def newState (ds : DeferralState) (deferralKey : Text) : Call → DeferralState
  | .defer => ⟨false,false,deferralKey,text "Deferring connection..."⟩
  | .update [.str message] => { ds with message := message }
  | .update _ => ds
  | .presentCard _ => ds
  | .done none => { ds with done := true }
  | .done (some (.str message)) => { ds with done := true,message := message,rejected := true }
  | .done (some .other) => { ds with done := true }

theorem callbackEq {s : Connection} (reachable : s.reachable = true) (deferralKey : Text) (call : Call) :
    (call.updates = true ∧ s.callback deferralKey call =
      (s.setState deferralKey (newState (s.stateOf deferralKey) deferralKey call)).UpdateDeferrals) ∨
    (call.updates = false ∧ (s.callback deferralKey call =
        s.setState deferralKey (newState (s.stateOf deferralKey) deferralKey call) ∨
      ∃ card, s.callback deferralKey call =
        (s.setState deferralKey (newState (s.stateOf deferralKey) deferralKey call)).PresentCard card)) := by
  unfold Connection.callback
  rw [reachable,if_neg (by decide)]
  cases call with
  | defer => exact .inl ⟨rfl,rfl⟩
  | update arguments =>
    match arguments with
    | [] => exact .inr ⟨rfl,.inl rfl⟩
    | [.str message] => exact .inl ⟨rfl,rfl⟩
    | [.other] => exact .inr ⟨rfl,.inl rfl⟩
    | .str _ :: _ :: _ => exact .inr ⟨rfl,.inl rfl⟩
    | .other :: _ :: _ => exact .inr ⟨rfl,.inl rfl⟩
  | presentCard card =>
    cases card with
    | none => exact .inr ⟨rfl,.inl rfl⟩
    | some card => exact .inr ⟨rfl,.inr ⟨card,rfl⟩⟩
  | done reason =>
    match reason with
    | none => exact .inl ⟨rfl,rfl⟩
    | some (.str message) => exact .inl ⟨rfl,rfl⟩
    | some .other => exact .inr ⟨rfl,.inl rfl⟩

theorem newStateSaid (ds : DeferralState) (deferralKey : Text) {calls : List Call} (call : Call)
    (done : ds.done = calls.any Call.saysDone) (rejected : ds.rejected = calls.any Call.givesReason) :
    (newState ds deferralKey call).done = (heard calls call).any Call.saysDone ∧
      (newState ds deferralKey call).rejected = (heard calls call).any Call.givesReason := by
  unfold heard
  cases call with
  | defer => exact ⟨rfl,rfl⟩
  | update arguments =>
    have same : (newState ds deferralKey (.update arguments)).done = ds.done ∧
        (newState ds deferralKey (.update arguments)).rejected = ds.rejected := by
      match arguments with
      | [] => exact ⟨rfl,rfl⟩
      | [.str message] => exact ⟨rfl,rfl⟩
      | [.other] => exact ⟨rfl,rfl⟩
      | .str _ :: _ :: _ => exact ⟨rfl,rfl⟩
      | .other :: _ :: _ => exact ⟨rfl,rfl⟩
    rw [same.1,same.2,done,rejected]
    simp [Call.saysDone,Call.givesReason]
  | presentCard card => simp [newState,done,rejected,Call.saysDone,Call.givesReason]
  | done reason =>
    match reason with
    | none => simp [newState,rejected,Call.saysDone,Call.givesReason]
    | some (.str message) => simp [newState,Call.saysDone,Call.givesReason]
    | some .other => simp [newState,rejected,Call.saysDone,Call.givesReason]

theorem heardSome (calls : List Call) (call : Call) : heard calls call ≠ [] := by
  unfold heard
  split
  · exact List.cons_ne_nil _ _
  · exact List.append_ne_nil_of_right_ne_nil _ (List.cons_ne_nil _ _)

namespace Admission

theorem Matched.heard {s : Connection} {history : Text → List Call} (matched : Matched s.deferral.m_deferralStates history)
    (resource : Text) (call : Call) :
    Matched (s.setState resource (newState (s.stateOf resource) resource call)).deferral.m_deferralStates
      (Function.update history resource (heard (history resource) call)) := by
  have flags : (s.stateOf resource).done = (history resource).any Call.saysDone ∧
      (s.stateOf resource).rejected = (history resource).any Call.givesReason := by
    unfold Connection.stateOf
    cases found : s.deferral.m_deferralStates.find resource with
    | none =>
      have same := matched resource
      rw [found] at same
      split at same
      · rename_i silent
        rw [silent]
        exact ⟨rfl,rfl⟩
      · cases same
    | some ds => exact (matched.known found).2
  have said := newStateSaid (s.stateOf resource) resource call flags.1 flags.2
  intro other
  unfold Connection.setState
  dsimp only
  rw [OrderedMap.findInsert]
  by_cases mine : other = resource
  · rw [if_pos mine,mine,Function.update_self,if_neg (heardSome _ _),Option.map_some,said.1,said.2]
  · rw [if_neg mine,Function.update_of_ne mine]
    exact matched other

variable {s : Admission} {c : Connection}

theorem Undecided.safe (undecided : Undecided c) : Safe c := by
  refine ⟨?_,fun _ => undecided.errors,?_,undecided.alive⟩
  · rw [undecided.admissions]
    exact Nat.zero_le 1
  · rw [undecided.nulls]
    exact Nat.zero_le 1

theorem Undecided.reply (undecided : Undecided c) {replies : List Reply}
    (errors : replies.any Reply.isError = false) (nulls : replies.count .null = 0) : Undecided (c.reply replies) := by
  unfold Connection.reply
  split
  · refine ⟨undecided.admissions,?_,?_,undecided.alive⟩
    · dsimp only
      rw [List.any_append,undecided.errors,errors,Bool.false_or]
    · dsimp only
      rw [List.count_append,undecided.nulls,nulls]
  · exact undecided

theorem resolveEq (c : Connection) : c.resolve = { c with
    admissions := c.admissions + (if c.client then 1 else 0)
    replies := c.replies ++ (if c.cbRef then [.data,.null] else [])
    cbRef := false
    deferrals := false } := by
  unfold Connection.resolve Connection.allowClient Connection.reply
  cases here : c.client with
  | false => cases up : c.cbRef <;> simp [here,up]
  | true => cases c.cbRef <;> simp

theorem rejectEq (c : Connection) (message : Text) : c.reject message = { c with
    noReason := if c.phase = .finished then c.noReason else message
    earlyReject := c.phase ≠ .finished || c.earlyReject
    replies := c.replies ++ (if c.client && c.cbRef then [.error message,.null] else [])
    cbRef := false
    deferrals := false } := by
  unfold Connection.reject Connection.reply
  by_cases finished : c.phase = .finished
  · cases here : c.client with
    | false => simp [finished,here]
    | true => cases up : c.cbRef <;> simp [finished,here,up]
  · cases c.client with
    | false => simp [finished]
    | true => cases c.cbRef <;> simp [finished]

theorem resolveSafe (undecided : Undecided c) : Safe c.resolve := by
  rw [resolveEq]
  have nulls := undecided.nulls
  refine ⟨?_,fun _ => ?_,?_,undecided.alive⟩
  · dsimp only
    rw [undecided.admissions]
    split <;> decide
  · dsimp only
    rw [List.any_append,undecided.errors]
    split <;> rfl
  · dsimp only
    rw [List.count_append,nulls]
    split <;> decide

theorem rejectSafe (undecided : Undecided c) (message : Text) : Safe (c.reject message) := by
  rw [rejectEq]
  have nulls := undecided.nulls
  refine ⟨?_,fun once => ?_,?_,undecided.alive⟩
  · dsimp only
    rw [undecided.admissions]
    decide
  · rw [undecided.admissions] at once
    cases once
  · dsimp only
    rw [List.count_append,nulls]
    split
    · rw [List.count_cons_of_ne (by simp)]
      decide
    · decide

theorem updateRan (ran : c.deferral.m_ranEvents = true) : c.UpdateDeferrals =
    match scan true [] (c.deferral.m_deferralStates.entries.map Prod.snd) with
    | .rejected rejectionMsg => Connection.reject { c with deferral := { c.deferral with m_completed := true } } rejectionMsg
    | .resolved => Connection.resolve { c with deferral := { c.deferral with m_completed := true } }
    | .waiting progressMsg => c.reply [.defer progressMsg] := by
  exact if_neg (by rw [ran]; decide)

theorem replyEq (c : Connection) (replies : List Reply) :
    c.reply replies = { c with replies := c.replies ++ if c.cbRef then replies else [] } := by
  unfold Connection.reply
  split
  · rfl
  · rw [List.append_nil]

theorem presentEq (c : Connection) (card : Text) : c.PresentCard card =
    if c.deferral.m_ranEvents = false then { c with deferral := { c.deferral with m_nextCard := card } }
    else c.reply [.card card] := rfl

theorem deferQuiet (message : Text) : [Reply.defer message].any Reply.isError = false ∧ [Reply.defer message].count .null = 0 :=
  ⟨rfl,by simp⟩

theorem callbackRunning (reachable : c.reachable = true) (early : c.deferral.m_ranEvents = false)
    (resource : Text) (call : Call) : ∃ nextCard, c.callback resource call = { c with
      deferral := {
        m_deferralStates := (c.setState resource (newState (c.stateOf resource) resource call)).deferral.m_deferralStates
        m_completed := c.deferral.m_completed
        m_ranEvents := false
        m_pending := call.updates || c.deferral.m_pending
        m_nextCard := nextCard } } := by
  have ran : (c.setState resource (newState (c.stateOf resource) resource call)).deferral.m_ranEvents = false := early
  rcases callbackEq reachable resource call with ⟨updates,eq⟩ | ⟨quiet,eq | ⟨card,eq⟩⟩
  · refine ⟨c.deferral.m_nextCard,?_⟩
    rw [eq,updates,Connection.UpdateDeferrals,if_pos ran,Bool.true_or,← early]
    rfl
  · refine ⟨c.deferral.m_nextCard,?_⟩
    rw [eq,quiet,Bool.false_or,← early]
    rfl
  · refine ⟨card,?_⟩
    rw [eq,quiet,presentEq,if_pos ran,Bool.false_or,← early]
    rfl

theorem pendingHeard {history : Text → List Call} {resource : Text} {call : Call} {pending : Bool}
    (before : pending = true ↔ ∃ resource, ∃ call ∈ history resource, call.updates = true) :
    (call.updates || pending) = true ↔ ∃ other, ∃ earlier ∈
      Function.update history resource (heard (history resource) call) other, earlier.updates = true := by
  rw [Bool.or_eq_true,before]
  constructor
  · rintro (updates | ⟨other,earlier,mem,updates⟩)
    · refine ⟨resource,call,?_,updates⟩
      rw [Function.update_self]
      unfold heard
      split
      · rename_i same
        exact same ▸ List.mem_cons_self
      · exact List.mem_append_right _ List.mem_cons_self
    · by_cases mine : other = resource
      · subst mine
        by_cases again : call = .defer
        · refine ⟨other,.defer,?_,rfl⟩
          rw [Function.update_self,heard,if_pos again]
          exact List.mem_cons_self
        · refine ⟨other,earlier,?_,updates⟩
          rw [Function.update_self,heard,if_neg again]
          exact List.mem_append_left _ mem
      · refine ⟨other,earlier,?_,updates⟩
        rw [Function.update_of_ne mine]
        exact mem
  · rintro ⟨other,earlier,mem,updates⟩
    by_cases mine : other = resource
    · subst mine
      rw [Function.update_self] at mem
      unfold heard at mem
      split at mem
      · rename_i again
        rw [again]
        exact .inl rfl
      · rcases List.mem_append.mp mem with old | new
        · exact .inr ⟨other,earlier,old,updates⟩
        · cases List.mem_singleton.mp new
          exact .inl updates
    · rw [Function.update_of_ne mine] at mem
      exact .inr ⟨other,earlier,mem,updates⟩

theorem promisedQuiet {e : ConnectEvent} (safe : Safe (s.step e).connection)
    (same : (s.step e).connection.admissions = s.connection.admissions) : Promised s e :=
  ⟨safe,fun changed => absurd same changed⟩

theorem Early.called (early : Early s) (running : s.connection.phase = .running) (held : s.connection.deferralsRef = true)
    (resource : Text) (call : Call) :
    Kept (s.step (.callback resource call)) ∧ Promised s (.callback resource call) := by
  have reachable : s.connection.reachable = true := by
    unfold Connection.reachable
    rw [running,held,early.incomplete]
    simp
  obtain ⟨nextCard,eq⟩ := callbackRunning reachable early.early resource call
  have after : s.step (.callback resource call) = ⟨s.connection.callback resource call,
      Function.update s.history resource (heard (s.history resource) call),s.allowed⟩ := by
    unfold Admission.step
    dsimp only
    rw [running,if_neg (by decide)]
  rw [eq] at after
  constructor
  · rw [after]
    refine .running running ⟨⟨early.undecided.1,early.undecided.2,early.undecided.3,early.undecided.4⟩,early.incomplete,
      early.matched.heard resource call,early.client,early.unrejected,rfl,pendingHeard early.pending⟩ held
  · refine promisedQuiet ?_ (by rw [after])
    rw [after]
    exact ⟨early.undecided.safe.1,early.undecided.safe.2,early.undecided.safe.3,early.undecided.safe.4⟩

theorem Waiting.called (waiting : Waiting s) (finished : s.connection.phase = .finished)
    (held : s.connection.deferrals = true) (unheld : s.connection.deferralsRef = false) (resource : Text) (call : Call) :
    Kept (s.step (.callback resource call)) ∧ Promised s (.callback resource call) := by
  have reachable : s.connection.reachable = true := by
    unfold Connection.reachable
    rw [finished,held,waiting.incomplete]
    simp
  let c := s.connection.setState resource (newState (s.connection.stateOf resource) resource call)
  let history := Function.update s.history resource (heard (s.history resource) call)
  have undecided : Undecided c :=
    ⟨waiting.undecided.1,waiting.undecided.2,waiting.undecided.3,waiting.undecided.4⟩
  have matched : Matched c.deferral.m_deferralStates history := waiting.matched.heard resource call
  have after : s.step (.callback resource call) = ⟨s.connection.callback resource call,history,s.allowed⟩ := by
    unfold Admission.step
    dsimp only
    rw [finished,if_neg (by decide)]
  have ran : c.deferral.m_ranEvents = true := waiting.ran
  have stays {c' : Connection} (undecided : Undecided c') (deferral : c'.deferral = c.deferral)
      (phase : c'.phase = .finished) (deferrals : c'.deferrals = true) (ref : c'.deferralsRef = false)
      (eq : s.connection.callback resource call = c') :
      Kept (s.step (.callback resource call)) ∧ Promised s (.callback resource call) := by
    rw [eq] at after
    have safe := undecided.safe
    refine ⟨?_,promisedQuiet (by rw [after]; exact safe) ?_⟩
    · rw [after]
      refine .waiting phase deferrals ref ⟨undecided,?_,?_,?_,waiting.allowed⟩
      · rw [deferral]
        exact waiting.incomplete
      · rw [deferral]
        exact matched
      · rw [deferral]
        exact ran
    · rw [after]
      exact undecided.admissions.trans waiting.undecided.admissions.symm
  have replied (reply : Reply) (errors : [reply].any Reply.isError = false) (nulls : [reply].count .null = 0)
      (eq : s.connection.callback resource call = c.reply [reply]) :
      Kept (s.step (.callback resource call)) ∧ Promised s (.callback resource call) := by
    have quiet := undecided.reply errors nulls
    rw [replyEq] at quiet eq
    exact stays quiet rfl finished held unheld eq
  rcases callbackEq reachable resource call with ⟨_,eq⟩ | ⟨_,eq | ⟨card,eq⟩⟩
  · rw [updateRan ran] at eq
    rcases scanSaid (s := ⟨c,history,s.allowed⟩) matched with ⟨message,scanned,_⟩ | ⟨scanned,all⟩ | ⟨message,scanned,_⟩
    · rw [scanned] at eq
      have safe := rejectSafe (c := { c with deferral := { c.deferral with m_completed := true } })
        ⟨undecided.1,undecided.2,undecided.3,undecided.4⟩ message
      dsimp only at eq
      rw [rejectEq] at eq safe
      rw [eq] at after
      refine ⟨?_,promisedQuiet (by rw [after]; exact safe) (by rw [after]; rfl)⟩
      rw [after]
      exact .closed finished rfl unheld safe
    · rw [scanned] at eq
      have safe := resolveSafe (c := { c with deferral := { c.deferral with m_completed := true } })
        ⟨undecided.1,undecided.2,undecided.3,undecided.4⟩
      dsimp only at eq
      rw [resolveEq] at eq safe
      rw [eq] at after
      rw [Promised,after]
      exact ⟨.closed finished rfl unheld safe,safe,fun _ => ⟨waiting.allowed,all⟩⟩
    · rw [scanned] at eq
      exact replied (.defer message) rfl (by simp) eq
  · exact stays undecided rfl finished held unheld eq
  · rw [presentEq,ran,if_neg (by decide)] at eq
    exact replied (.card card) rfl (by simp) eq

def pendingRun (c : Connection) : Connection :=
  let c := { c with deferral := { c.deferral with m_ranEvents := true } }
  if c.deferral.m_pending then
    let c := c.UpdateDeferrals
    { c with deferral := { c.deferral with m_pending := false } }
  else c

theorem ranEq (ran : (pendingRun c).deferral.m_ranEvents = true) : c.RanEvents = { pendingRun c with
    deferral := { (pendingRun c).deferral with m_nextCard := [] }
    replies := (pendingRun c).replies ++ if (pendingRun c).cbRef && (pendingRun c).deferral.m_nextCard ≠ [] then
      [.card (pendingRun c).deferral.m_nextCard] else [] } := by
  have split : c.RanEvents = if (pendingRun c).deferral.m_nextCard = [] then
      { pendingRun c with deferral := { (pendingRun c).deferral with m_nextCard := [] } }
    else Connection.PresentCard { pendingRun c with deferral := { (pendingRun c).deferral with m_nextCard := [] } }
      (pendingRun c).deferral.m_nextCard := rfl
  rw [split]
  by_cases none : (pendingRun c).deferral.m_nextCard = []
  · rw [if_pos none]
    simp [none]
  · rw [if_neg none,presentEq,if_neg (by dsimp only; rw [ran]; decide),replyEq]
    simp [none]

inductive Ran (s : Admission) (t : Connection) : Prop where
  | rejected (message : Text) (reason : ∃ resource, (s.history resource).any Call.givesReason = true)
    (early : t.earlyReject = true) (admissions : t.admissions = 0)
    (replies : t.replies = s.connection.replies ++ if s.connection.cbRef then [.error message,.null] else [])
  | resolved (noted : ∃ resource, ∃ call ∈ s.history resource, call.updates = true) (all : s.AllDone)
    (early : t.earlyReject = false) (admissions : t.admissions = 1)
    (replies : t.replies = s.connection.replies ++ if s.connection.cbRef then [.data,.null] else [])
    (gone : t.deferrals = false)
  | waiting (quiet : ∀ resource, (s.history resource).any Call.givesReason = false)
    (open' : ¬((∃ resource, ∃ call ∈ s.history resource, call.updates = true) ∧ s.AllDone))
    (early : t.earlyReject = false) (undecided : Undecided t) (incomplete : t.deferral.m_completed = false)
    (ran : t.deferral.m_ranEvents = true) (deferrals : t.deferrals = s.connection.deferrals)

theorem reasonUpdates {call : Call} (reason : call.givesReason = true) : call.updates = true := by
  unfold Call.givesReason at reason
  split at reason
  · rfl
  · cases reason

theorem Early.ran (early : Early s) (running : s.connection.phase = .running) :
    Ran s s.connection.RanEvents ∧ s.connection.RanEvents.crashed = false ∧ s.connection.RanEvents.client = true ∧
      s.connection.RanEvents.deferral.m_deferralStates = s.connection.deferral.m_deferralStates := by
  let c := s.connection
  let c1 : Connection := { c with deferral := { c.deferral with m_ranEvents := true } }
  have waits {t : Connection} (eq : pendingRun c = t) (ran : t.deferral.m_ranEvents = true) (undecided : Undecided t)
      (quiet : ∀ resource, (s.history resource).any Call.givesReason = false)
      (open' : ¬((∃ resource, ∃ call ∈ s.history resource, call.updates = true) ∧ s.AllDone))
      (unrejected : t.earlyReject = false) (incomplete : t.deferral.m_completed = false)
      (deferrals : t.deferrals = c.deferrals) (client : t.client = true)
      (states : t.deferral.m_deferralStates = c.deferral.m_deferralStates) :
      Ran s c.RanEvents ∧ c.RanEvents.crashed = false ∧ c.RanEvents.client = true ∧
        c.RanEvents.deferral.m_deferralStates = c.deferral.m_deferralStates := by
    rw [ranEq (by rw [eq]; exact ran),eq]
    refine ⟨.waiting quiet open' unrejected ⟨undecided.admissions,?_,?_,undecided.alive⟩ incomplete ran deferrals,
      undecided.alive,client,states⟩
    · dsimp only
      rw [List.any_append,undecided.errors]
      split <;> rfl
    · dsimp only
      rw [List.count_append,undecided.nulls]
      split <;> simp
  cases pending : c.deferral.m_pending with
  | false =>
    have eq : pendingRun c = c1 := if_neg (fun up => Bool.false_ne_true (pending.symm.trans up))
    have silent : ¬∃ resource, ∃ call ∈ s.history resource, call.updates = true := by
      rw [← early.pending]
      exact (Bool.not_eq_true _).mpr pending
    refine waits eq rfl ⟨early.undecided.1,early.undecided.2,early.undecided.3,early.undecided.4⟩ (fun resource => ?_)
      (fun both => silent both.1) early.unrejected early.incomplete rfl early.client rfl
    by_contra reason
    obtain ⟨call,mem,gives⟩ := List.any_eq_true.mp ((Bool.not_eq_false _).mp reason)
    exact silent ⟨resource,call,mem,reasonUpdates gives⟩
  | true =>
    have noted := early.pending.mp pending
    have eq : pendingRun c =
        { c1.UpdateDeferrals with deferral := { c1.UpdateDeferrals.deferral with m_pending := false } } := if_pos pending
    have updated := updateRan (c := c1) rfl
    rcases scanSaid early.matched with ⟨message,scanned,reason⟩ | ⟨scanned,all⟩ | ⟨message,scanned,quiet,open'⟩
    · have scanned' : scan true [] (c1.deferral.m_deferralStates.entries.map Prod.snd) = .rejected message := scanned
      rw [scanned'] at updated
      dsimp only at updated
      rw [rejectEq] at updated
      rw [updated] at eq
      rw [ranEq (by rw [eq]),eq]
      refine ⟨.rejected message reason ?_ early.undecided.admissions ?_,early.undecided.alive,early.client,rfl⟩
      · have unfinished : c1.phase ≠ .finished := by
          rw [running]
          decide
        simp [unfinished]
      · have sent : (s.connection.replies ++ if s.connection.client && s.connection.cbRef then [.error message,.null]
            else []) = s.connection.replies ++ if s.connection.cbRef then [.error message,.null] else [] := by
          rw [early.client,Bool.true_and]
        exact (List.append_nil _).trans sent
    · have scanned' : scan true [] (c1.deferral.m_deferralStates.entries.map Prod.snd) = .resolved := scanned
      rw [scanned'] at updated
      dsimp only at updated
      rw [resolveEq] at updated
      rw [updated] at eq
      rw [ranEq (by rw [eq]),eq]
      refine ⟨.resolved noted all early.unrejected ?_ ?_ rfl,early.undecided.alive,early.client,rfl⟩
      · dsimp only
        rw [early.undecided.admissions,early.client]
        rfl
      · exact List.append_nil _
    · have scanned' : scan true [] (c1.deferral.m_deferralStates.entries.map Prod.snd) = .waiting message := scanned
      rw [scanned'] at updated
      dsimp only at updated
      have undecided : Undecided c1 :=
        ⟨early.undecided.1,early.undecided.2,early.undecided.3,early.undecided.4⟩
      obtain ⟨errors,nulls⟩ := deferQuiet message
      have replied := undecided.reply errors nulls
      rw [replyEq] at updated replied
      rw [updated] at eq
      exact waits eq rfl ⟨replied.1,replied.2,replied.3,replied.4⟩ quiet (fun both => open' both.2) early.unrejected
        early.incomplete rfl early.client rfl

theorem allDoneQuiet (all : s.AllDone) (resource : Text) : (s.history resource).any Call.givesReason = false := by
  by_cases silent : s.history resource = []
  · rw [silent]
    rfl
  · exact (all resource silent).2

section
variable {t : Connection} {shouldAllow : Bool} {c : Connection}

theorem concludeRefuses (refused : shouldAllow = false ∨ c.RanEvents.earlyReject = true) :
    c.conclude shouldAllow = { c.RanEvents with
      deferrals := false
      replies := c.RanEvents.replies ++ [.error c.RanEvents.noReason,.null] } := by
  unfold Connection.conclude
  dsimp only
  cases shouldAllow with
  | false => rfl
  | true =>
    have early := refused.resolve_left (by decide)
    rw [if_neg (by decide),if_pos early]
    rfl

theorem concludeWaits (unrejected : c.RanEvents.earlyReject = false)
    (some : c.RanEvents.deferral.m_deferralStates.entries ≠ []) : c.conclude true = c.RanEvents := by
  unfold Connection.conclude
  dsimp only
  rw [if_neg (by decide),if_neg (by rw [unrejected]; decide),if_neg some]

theorem concludeAllows (unrejected : c.RanEvents.earlyReject = false)
    (none : c.RanEvents.deferral.m_deferralStates.entries = []) (client : c.RanEvents.client = true) :
    c.conclude true = if c.RanEvents.deferrals then
      { c.RanEvents with
        admissions := c.RanEvents.admissions + 1
        cbRef := false
        deferrals := false
        replies := c.RanEvents.replies ++ [.data,.null] }
      else { c.RanEvents with admissions := c.RanEvents.admissions + 1,crashed := true } := by
  unfold Connection.conclude Connection.allowClient
  dsimp only
  rw [if_neg (by decide),if_neg (by rw [unrejected]; decide),if_pos none,if_pos client]

end

theorem afterHandled (running : s.connection.phase = .running) (shouldAllow : Bool) :
    s.step (.eventHandled shouldAllow) =
      ⟨{ s.connection.conclude shouldAllow with phase := .finished,deferralsRef := false },s.history,shouldAllow⟩ := by
  unfold Admission.step Connection.eventHandled
  dsimp only
  rw [running,if_neg (by decide),if_pos rfl]

section
variable (early : Early s) (running : s.connection.phase = .running)
include early running

variable {shouldAllow : Bool}

theorem Early.refuses {message : Text} (reason : ∃ resource, (s.history resource).any Call.givesReason = true)
    (alive : s.connection.RanEvents.crashed = false)
    (rejected : s.connection.RanEvents.earlyReject = true) (admissions : s.connection.RanEvents.admissions = 0)
    (replies : s.connection.RanEvents.replies = s.connection.replies ++
      if s.connection.cbRef then [.error message,.null] else []) :
    (Promised s (.eventHandled shouldAllow) ↔ Patient s (.eventHandled shouldAllow)) ∧
      (Promised s (.eventHandled shouldAllow) → Kept (s.step (.eventHandled shouldAllow))) := by
  have notAll : ¬s.AllDone := by
    intro all
    obtain ⟨resource,gives⟩ := reason
    rw [allDoneQuiet all resource] at gives
    cases gives
  have after := afterHandled running shouldAllow
  rw [concludeRefuses (.inr rejected),replies] at after
  have count : (s.step (.eventHandled shouldAllow)).connection.replies.count .null =
      if s.connection.cbRef then 2 else 1 := by
    rw [after]
    dsimp only
    rw [List.count_append,List.count_append,early.undecided.nulls]
    split <;> simp
  constructor
  · constructor
    · rintro ⟨safe,-⟩ _
      refine ⟨fun _ => ?_,fun _ _ all => notAll all,fun _ silent => ?_⟩
      · have final := safe.final
        rw [count] at final
        by_contra up
        rw [if_pos ((Bool.not_eq_false _).mp up)] at final
        omega
      · obtain ⟨resource,gives⟩ := reason
        rw [silent resource] at gives
        cases gives
    · intro patient
      have cancelled := (patient running).1 reason
      refine promisedQuiet ⟨?_,fun once => ?_,?_,?_⟩ ?_
      · rw [after]
        exact admissions ▸ Nat.zero_le 1
      · rw [after] at once
        exact absurd (admissions.symm.trans once) (by decide)
      · rw [count,cancelled]
        decide
      · rw [after]
        exact alive
      · rw [after]
        exact admissions.trans early.undecided.admissions.symm
  · rintro ⟨safe,-⟩
    rw [after] at safe ⊢
    exact .closed rfl rfl rfl safe

theorem Early.resolves
    (noted : ∃ resource, ∃ call ∈ s.history resource, call.updates = true) (all : s.AllDone)
    (alive : s.connection.RanEvents.crashed = false) (unrejected : s.connection.RanEvents.earlyReject = false)
    (some : s.connection.RanEvents.deferral.m_deferralStates.entries ≠ [])
    (admissions : s.connection.RanEvents.admissions = 1)
    (replies : s.connection.RanEvents.replies = s.connection.replies ++ if s.connection.cbRef then [.data,.null] else [])
    (gone : s.connection.RanEvents.deferrals = false) :
    (Promised s (.eventHandled shouldAllow) ↔ Patient s (.eventHandled shouldAllow)) ∧
      (Promised s (.eventHandled shouldAllow) → Kept (s.step (.eventHandled shouldAllow))) := by
  have after := afterHandled running shouldAllow
  cases shouldAllow with
  | false =>
    rw [concludeRefuses (.inl rfl)] at after
    have both : ¬Safe (s.step (.eventHandled false)).connection := by
      intro safe
      rw [after] at safe
      have errors := safe.either admissions
      dsimp only at errors
      rw [List.any_append] at errors
      have error := ((Bool.or_eq_false_iff).mp errors).2
      cases error
    refine ⟨⟨fun promised => absurd promised.1 both,fun patient => ?_⟩,fun promised => absurd promised.1 both⟩
    exact absurd all ((patient running).2.1 rfl noted)
  | true =>
    rw [concludeWaits unrejected some] at after
    have safe : Safe (s.step (.eventHandled true)).connection := by
      rw [after]
      refine ⟨Nat.le_of_eq admissions,fun _ => ?_,?_,alive⟩
      · dsimp only
        rw [replies,List.any_append,early.undecided.errors]
        split <;> rfl
      · dsimp only
        rw [replies,List.count_append,early.undecided.nulls]
        split <;> decide
    refine ⟨⟨fun _ _ => ⟨fun reason => ?_,fun impossible => ?_,fun _ silent => ?_⟩,fun _ => ⟨safe,fun _ => ?_⟩⟩,fun _ => ?_⟩
    · obtain ⟨resource,gives⟩ := reason
      rw [allDoneQuiet all resource] at gives
      cases gives
    · cases impossible
    · obtain ⟨resource,call,mem,_⟩ := noted
      rw [silent resource] at mem
      cases mem
    · rw [after]
      exact ⟨rfl,all⟩
    · rw [after] at safe ⊢
      exact .closed rfl gone rfl safe

theorem Early.waits (quiet : ∀ resource, (s.history resource).any Call.givesReason = false)
    (open' : ¬((∃ resource, ∃ call ∈ s.history resource, call.updates = true) ∧ s.AllDone))
    (client : s.connection.RanEvents.client = true) (unrejected : s.connection.RanEvents.earlyReject = false)
    (undecided : Undecided s.connection.RanEvents) (incomplete : s.connection.RanEvents.deferral.m_completed = false)
    (ran : s.connection.RanEvents.deferral.m_ranEvents = true)
    (matched : Matched s.connection.RanEvents.deferral.m_deferralStates s.history)
    (deferrals : s.connection.RanEvents.deferrals = s.connection.deferrals) :
    (Promised s (.eventHandled shouldAllow) ↔ Patient s (.eventHandled shouldAllow)) ∧
      (Promised s (.eventHandled shouldAllow) → Kept (s.step (.eventHandled shouldAllow))) := by
  have after := afterHandled running shouldAllow
  have given (reason : ∃ resource, (s.history resource).any Call.givesReason = true) : s.connection.cbRef = false := by
    obtain ⟨resource,gives⟩ := reason
    rw [quiet resource] at gives
    cases gives
  have same := undecided.admissions.trans early.undecided.admissions.symm
  cases shouldAllow with
  | false =>
    rw [concludeRefuses (.inl rfl)] at after
    have safe : Safe (s.step (.eventHandled false)).connection := by
      rw [after]
      refine ⟨undecided.admissions ▸ Nat.zero_le 1,fun once => ?_,?_,undecided.alive⟩
      · exact absurd (undecided.admissions.symm.trans once) (by decide)
      · dsimp only
        rw [List.count_append,undecided.nulls]
        simp
    refine ⟨⟨fun _ _ => ⟨given,fun _ noted all => open' ⟨noted,all⟩,fun impossible => ?_⟩,
      fun _ => promisedQuiet safe (by rw [after]; exact same)⟩,fun _ => ?_⟩
    · cases impossible
    · rw [after] at safe ⊢
      exact .closed rfl rfl rfl safe
  | true =>
    by_cases none : s.connection.RanEvents.deferral.m_deferralStates.entries = []
    · have silent := matched.empty.mp none
      rw [concludeAllows unrejected none client,deferrals] at after
      by_cases held : s.connection.deferrals = true
      · rw [if_pos held] at after
        have safe : Safe (s.step (.eventHandled true)).connection := by
          rw [after]
          refine ⟨?_,fun _ => ?_,?_,undecided.alive⟩
          · dsimp only
            rw [undecided.admissions]
          · dsimp only
            rw [List.any_append,undecided.errors]
            rfl
          · dsimp only
            rw [List.count_append,undecided.nulls]
            decide
        refine ⟨⟨fun _ _ => ⟨given,fun impossible => ?_,fun _ _ => held⟩,fun _ => ⟨safe,fun _ => ?_⟩⟩,fun _ => ?_⟩
        · cases impossible
        · rw [after]
          exact ⟨rfl,fun resource called => absurd (silent resource) called⟩
        · rw [after] at safe ⊢
          exact .closed rfl rfl rfl safe
      · rw [if_neg held] at after
        have crashed : ¬Safe (s.step (.eventHandled true)).connection := by
          intro safe
          rw [after] at safe
          cases safe.alive
        exact ⟨⟨fun promised => absurd promised.1 crashed,fun patient => absurd ((patient running).2.2 rfl silent) held⟩,
          fun promised => absurd promised.1 crashed⟩
    · rw [concludeWaits unrejected none] at after
      have quietStep : Promised s (.eventHandled true) := by
        refine promisedQuiet ?_ (by rw [after]; exact same)
        rw [after]
        exact ⟨undecided.safe.1,undecided.safe.2,undecided.safe.3,undecided.safe.4⟩
      refine ⟨⟨fun _ _ => ⟨given,fun impossible => ?_,fun _ silent => ?_⟩,fun _ => quietStep⟩,fun promised => ?_⟩
      · cases impossible
      · exact absurd (matched.empty.mpr silent) none
      · have safe := promised.1
        rw [after] at safe ⊢
        cases held : s.connection.RanEvents.deferrals with
        | false => exact .closed rfl held rfl safe
        | true => exact .waiting rfl held rfl ⟨⟨undecided.1,undecided.2,undecided.3,undecided.4⟩,incomplete,matched,ran,rfl⟩

theorem Early.handled (shouldAllow : Bool) :
    (Promised s (.eventHandled shouldAllow) ↔ Patient s (.eventHandled shouldAllow)) ∧
      (Promised s (.eventHandled shouldAllow) → Kept (s.step (.eventHandled shouldAllow))) := by
  obtain ⟨ran,alive,client,states⟩ := early.ran running
  cases ran with
  | rejected message reason rejected admissions replies => exact early.refuses running reason alive rejected admissions replies
  | resolved noted all unrejected admissions replies gone =>
    refine early.resolves running noted all alive unrejected (fun none => ?_) admissions replies gone
    obtain ⟨resource,call,mem,_⟩ := noted
    rw [states] at none
    rw [early.matched.empty.mp none resource] at mem
    cases mem
  | waiting quiet open' unrejected undecided incomplete ran deferrals =>
    exact early.waits running quiet open' client unrejected undecided incomplete ran (states ▸ early.matched) deferrals

end

theorem Kept.safe (kept : Kept s) : Safe s.connection := by
  cases kept with
  | posted phase early silent unheld => exact early.undecided.safe
  | running phase early held => exact early.undecided.safe
  | waiting phase held unheld waiting => exact waiting.undecided.safe
  | closed phase gone unheld safe => exact safe

theorem Kept.unchanged (kept : Kept s) {e : ConnectEvent} (same : s.step e = s) : Kept (s.step e) ∧ Promised s e := by
  refine ⟨?_,promisedQuiet ?_ (by rw [same])⟩
  · rw [same]
    exact kept
  · rw [same]
    exact kept.safe

theorem Early.besides (early : Early s) {c : Connection} (same : c = { s.connection with
    phase := c.phase,deferrals := c.deferrals,deferralsRef := c.deferralsRef,cbRef := c.cbRef,noReason := c.noReason }) :
    Early { s with connection := c } := by
  have undecided := early.undecided
  rw [same]
  exact ⟨⟨undecided.1,undecided.2,undecided.3,undecided.4⟩,early.incomplete,early.matched,early.client,early.unrejected,
    early.early,early.pending⟩

theorem Waiting.besides (waiting : Waiting s) {c : Connection} (same : c = { s.connection with
    client := c.client,noReason := c.noReason }) : Waiting { s with connection := c } := by
  have undecided := waiting.undecided
  rw [same]
  exact ⟨⟨undecided.1,undecided.2,undecided.3,undecided.4⟩,waiting.incomplete,waiting.matched,waiting.ran,waiting.allowed⟩

section
variable (kept : Kept s)
include kept

theorem Kept.called (resource : Text) (call : Call) :
    Kept (s.step (.callback resource call)) ∧ Promised s (.callback resource call) := by
  have ignored (unreachable : s.connection.reachable = false) : s.connection.callback resource call = s.connection :=
    if_pos unreachable
  have whole := kept
  cases kept with
  | posted phase early silent unheld =>
    have same : s.step (.callback resource call) = s := by
      unfold Admission.step
      dsimp only
      rw [if_pos phase,ignored (by unfold Connection.reachable; rw [phase]; simp)]
    exact whole.unchanged same
  | running phase early held => exact early.called phase held resource call
  | waiting phase held unheld waiting => exact waiting.called phase held unheld resource call
  | closed phase gone unheld safe =>
    have same : (s.step (.callback resource call)).connection = s.connection :=
      ignored (by unfold Connection.reachable; rw [gone,unheld]; simp)
    exact ⟨.closed (same ▸ phase) (same ▸ gone) (same ▸ unheld) (same ▸ safe),promisedQuiet (same ▸ safe) (by rw [same])⟩

theorem Kept.triggered : Kept (s.step .triggerEvent) ∧ Promised s .triggerEvent := by
  have finished (started : s.connection.phase ≠ .posted) : s.step .triggerEvent = s := by
    unfold Admission.step Connection.triggerEvent
    dsimp only
    rw [if_pos started]
  have whole := kept
  cases kept with
  | posted phase early silent unheld =>
    by_cases held : s.connection.deferrals = true
    · have after : s.step .triggerEvent =
          { s with connection := { s.connection with phase := .running,deferralsRef := true } } := by
        unfold Admission.step Connection.triggerEvent
        dsimp only
        rw [if_neg (not_not.mpr phase),if_pos held]
      have kept : Kept (s.step .triggerEvent) := by
        rw [after]
        exact .running rfl (early.besides rfl) rfl
      exact ⟨kept,promisedQuiet kept.safe (by rw [after])⟩
    · have after : s.step .triggerEvent = { s with
          connection := { s.connection with
            phase := .finished
            replies := s.connection.replies ++ [.error s.connection.noReason,.null] } } := by
        unfold Admission.step Connection.triggerEvent
        dsimp only
        rw [if_neg (not_not.mpr phase),if_neg held]
        rfl
      have admissions := early.undecided.admissions
      have safe : Safe (s.step .triggerEvent).connection := by
        rw [after]
        refine ⟨admissions ▸ Nat.zero_le 1,fun once => ?_,?_,early.undecided.alive⟩
        · exact absurd (admissions.symm.trans once) (by decide)
        · dsimp only
          rw [List.count_append,early.undecided.nulls]
          simp
      refine ⟨?_,promisedQuiet safe (by rw [after])⟩
      rw [after] at safe ⊢
      exact .closed rfl ((Bool.not_eq_true _).mp held) unheld safe
  | running phase early held => exact whole.unchanged (finished (by rw [phase]; decide))
  | waiting phase held unheld waiting => exact whole.unchanged (finished (by rw [phase]; decide))
  | closed phase gone unheld safe => exact whole.unchanged (finished (by rw [phase]; decide))

theorem Kept.reasoned (reason : Text) : Kept (s.step (.setKickReason reason)) := by
  cases kept with
  | posted phase early silent unheld => exact .posted phase (early.besides rfl) silent unheld
  | running phase early held => exact .running phase (early.besides rfl) held
  | waiting phase held unheld waiting => exact .waiting phase held unheld (waiting.besides rfl)
  | closed phase gone unheld safe => exact .closed phase gone unheld ⟨safe.1,safe.2,safe.3,safe.4⟩

theorem Kept.cancelled : Kept (s.step .cancel) := by
  cases kept with
  | posted phase early silent unheld => exact .posted phase (early.besides rfl) silent unheld
  | running phase early held => exact .running phase (early.besides rfl) held
  | waiting phase held unheld waiting =>
    have safe := waiting.undecided.safe
    exact .closed phase rfl unheld ⟨safe.1,safe.2,safe.3,safe.4⟩
  | closed phase gone unheld safe => exact .closed phase rfl unheld ⟨safe.1,safe.2,safe.3,safe.4⟩

theorem Kept.dropped : Kept (s.step .dropClient) := by
  unfold Admission.step Connection.dropClient
  dsimp only
  by_cases finished : s.connection.phase = .finished
  · rw [if_pos finished]
    cases kept with
    | posted phase early silent unheld =>
      rw [phase] at finished
      cases finished
    | running phase early held =>
      rw [phase] at finished
      cases finished
    | waiting phase held unheld waiting => exact .waiting phase held unheld (waiting.besides rfl)
    | closed phase gone unheld safe => exact .closed phase gone unheld ⟨safe.1,safe.2,safe.3,safe.4⟩
  · rw [if_neg finished]
    exact kept

end

theorem Kept.step {e : ConnectEvent} (kept : Kept s) : (Promised s e ↔ Patient s e) ∧ (Promised s e → Kept (s.step e)) := by
  have always {e : ConnectEvent} (patient : Patient s e) (both : Kept (s.step e) ∧ Promised s e) :
      (Promised s e ↔ Patient s e) ∧ (Promised s e → Kept (s.step e)) :=
    ⟨⟨fun _ => patient,fun _ => both.2⟩,fun _ => both.1⟩
  cases e with
  | callback resource call => exact always trivial (kept.called resource call)
  | triggerEvent => exact always trivial kept.triggered
  | setKickReason reason =>
    have after := kept.reasoned reason
    exact always trivial ⟨after,promisedQuiet after.safe rfl⟩
  | cancel =>
    have after := kept.cancelled
    exact always trivial ⟨after,promisedQuiet after.safe rfl⟩
  | dropClient =>
    have after := kept.dropped
    refine always trivial ⟨after,promisedQuiet after.safe ?_⟩
    unfold Admission.step Connection.dropClient
    dsimp only
    split <;> rfl
  | eventHandled shouldAllow =>
    by_cases running : s.connection.phase = .running
    · cases kept with
      | running phase early held => exact early.handled running shouldAllow
      | posted phase early silent unheld =>
        rw [phase] at running
        cases running
      | waiting phase held unheld waiting =>
        rw [phase] at running
        cases running
      | closed phase gone unheld safe =>
        rw [phase] at running
        cases running
    · have same : s.step (.eventHandled shouldAllow) = s := by
        unfold Admission.step Connection.eventHandled
        dsimp only
        rw [if_pos running,if_neg running]
      exact always (fun still => absurd still running) (kept.unchanged same)

theorem admittedOnce (events : List ConnectEvent) : Along step Promised start events ↔ Along step Patient start events := by
  refine alongIffKept Kept (fun s e kept promised => kept.step.2 promised) (fun s e kept => kept.step.1) ?_
  refine .posted rfl ⟨⟨rfl,rfl,rfl,rfl⟩,rfl,fun _ => rfl,rfl,rfl,rfl,⟨fun up => ?_,fun some => ?_⟩⟩ (fun _ => rfl) rfl
  · cases up
  · obtain ⟨_,_,mem,_⟩ := some
    cases mem

theorem answeredTwice : ¬Along step Promised start [.triggerEvent,.callback (text "a") .defer,
    .callback (text "a") (.done (some (.str (text "full")))),.eventHandled true] := by
  rintro ⟨-,-,-,⟨safe,-⟩,-⟩
  have final := safe.final
  revert final
  decide +kernel

end Admission
end Citizen.Connect
