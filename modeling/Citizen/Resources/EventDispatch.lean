import Citizen.Resources.EventManager

/-! What holds of the deliveries and of the results of events in every run. -/
namespace Citizen.Resources.EventManager

variable {s : EventManager} {pairs : List (Text × Text)} {frame frame' : EventFrame} {handled : Bool}

theorem advanceOnce (kept : s.Kept) (ok : FrameOk s.m_eventResources frame) (once : frame.delivered.Nodup)
    (next : s.advance frame handled = some frame') : frame'.delivered.Nodup ↔ ∀ n i r, frame.phase = .named n i →
      (equalRange s.m_eventResources frame.eventName)[i]? = some r → s.HandleTriggerEvent r frame.eventName = true →
      ∀ j < n, (equalRange s.m_eventResources (text "*"))[j]? = some r → j ∈ frame.passed := by
  have advanced := advanced next
  have free : FrameOk s.m_eventResources frame' := ok.advance kept advanced
  cases advanced with
  | filtered r phase => exact ⟨fun _ _ _ _ other => (nomatch phase.symm.trans other),fun _ => free⟩
  | starts phase => exact ⟨fun _ _ _ _ other => (nomatch phase.symm.trans other),fun _ => once⟩
  | star n r phase found handles => exact ⟨fun _ _ _ _ other => (nomatch phase.symm.trans other),fun _ => free.2⟩
  | passed n phase bound => exact ⟨fun _ _ _ _ other => (nomatch phase.symm.trans other),fun _ => once⟩
  | starEnds n phase => exact ⟨fun _ _ _ _ other => (nomatch phase.symm.trans other),fun _ => once⟩
  | named n i r phase found =>
    unfold FrameOk at ok
    rw [phase] at ok
    have old := Visited.namedOld kept.pairs ok found
    change (s.deliver frame r).delivered.Nodup ↔ _
    rw [delivered]
    constructor
    · intro nodup n' i' r' phase' found' handles j small at_j
      cases phase.symm.trans phase'
      cases found.symm.trans found'
      rw [if_pos handles] at nodup
      refine Decidable.byContradiction (fun reached => ?_)
      exact (List.nodup_cons.mp nodup).1 (old.mpr ⟨j,small,at_j,reached⟩)
    · intro separate
      split
      · rename_i handles
        refine List.nodup_cons.mpr ⟨fun mem => ?_,once⟩
        obtain ⟨j,small,at_j,reached⟩ := old.mp mem
        exact reached (separate n i r phase found handles j small at_j)
      · exact once

theorem memFrames : frame ∈ s.frames ↔ frame ∈ s.g_eventCancelationStack ∨ ∃ returned, (frame,returned) ∈ s.finished := by
  unfold frames
  rw [List.mem_append,List.mem_map]
  refine or_congr Iff.rfl ⟨?_,?_⟩
  · rintro ⟨⟨frame,returned⟩,mem,rfl⟩
    exact ⟨returned,mem⟩
  · rintro ⟨returned,mem⟩
    exact ⟨(frame,returned),mem,rfl⟩

theorem Kept.finishedOther (kept : s.Kept) {returned : Bool} {id : Nat}
    (running : id ∈ s.g_eventCancelationStack.map EventFrame.id) (finished : (frame,returned) ∈ s.finished) : frame.id ≠ id := by
  have ids := kept.ids
  unfold frames at ids
  rw [List.map_append] at ids
  intro same
  exact (List.nodup_append.mp ids).2.2 id running frame.id
    (List.mem_map_of_mem (List.mem_map.mpr ⟨(frame,returned),finished,rfl⟩)) same.symm

theorem Kept.resources (kept : s.Kept) (resources : Text → Option EventResource) (pairs : List (Text × Text)) (nodup : pairs.Nodup)
    (grows : ∀ key, equalRange s.m_eventResources key <+: equalRange pairs key)
    (handled : ∀ r resource, resources r = some resource → ∀ name ∈ resource.m_eventsHandled, (name,r) ∈ pairs) :
    Kept { s with resources := resources, m_eventResources := pairs } where
  pairs := nodup
  handled := handled
  running frame mem := (kept.running frame mem).grow grows
  registered frame mem r old := (kept.registered frame mem r old).imp
    (fun pair => memRange.mp ((grows _).subset (memRange.mpr pair)))
    (fun pair => memRange.mp ((grows _).subset (memRange.mpr pair)))
  ids := kept.ids
  below := kept.below
  canceled := kept.canceled
  flags := kept.flags
  result := kept.result
  last := kept.last

theorem Kept.sameRegistrations (kept : s.Kept) (resources : Text → Option EventResource)
    (handled : ∀ r resource, resources r = some resource → ∀ name ∈ resource.m_eventsHandled, (name,r) ∈ s.m_eventResources) :
    Kept { s with resources := resources } :=
  kept.resources resources s.m_eventResources kept.pairs (fun _ => List.prefix_rfl) handled

theorem modifyFound {r r' : Text} {f : EventResource → EventResource} {resource : EventResource}
    (found : (s.modifyResource r f).resources r' = some resource) :
    ∃ before, s.resources r' = some before ∧ (resource = before ∨ r' = r ∧ resource = f before) := by
  unfold modifyResource at found
  dsimp only at found
  by_cases own : r' = r
  · subst own
    rw [Function.update_self] at found
    obtain ⟨before,at_r,rfl⟩ := Option.map_eq_some_iff.mp found
    exact ⟨before,at_r,.inr ⟨rfl,rfl⟩⟩
  · rw [Function.update_of_ne own] at found
    exact ⟨resource,found,.inl rfl⟩

theorem Kept.register (kept : s.Kept) (r name : Text) : (s.registerHandler r name).Kept := by
  refine kept.resources _ _ (addNodup kept.pairs name) (addPrefix s.m_eventResources r name) ?_
  intro r' resource found name' mem
  obtain ⟨before,at_r,rfl | ⟨rfl,rfl⟩⟩ := modifyFound found
  · exact addSubset (kept.handled r' resource at_r name' mem) ..
  · rcases List.mem_cons.mp mem with rfl | old
    · exact addOwn ..
    · exact addSubset (kept.handled r' before at_r name' old) ..

theorem Kept.trigger (kept : s.Kept) (name : Text) (filter : Option Text) : (s.TriggerEvent name filter).Kept where
  pairs := kept.pairs
  handled := kept.handled
  running frame mem := by
    rcases List.mem_cons.mp mem with rfl | old
    · exact ⟨Nat.zero_le _,fun _ mem => (nomatch mem),fun _ small => (nomatch small),fun _ mem => (nomatch mem)⟩
    · exact kept.running frame old
  registered frame mem := by
    rcases List.mem_cons.mp mem with rfl | old
    · exact fun _ mem => (nomatch mem)
    · exact kept.registered frame old
  ids := List.nodup_cons.mpr ⟨fun mem => by
    obtain ⟨frame,old,same⟩ := List.mem_map.mp mem
    exact absurd (kept.below frame old) (by rw [same]; exact Nat.lt_irrefl _),kept.ids⟩
  below frame mem := by
    rcases List.mem_cons.mp mem with rfl | old
    · exact Nat.lt_succ_self _
    · exact (kept.below frame old).trans (Nat.lt_succ_self _)
  canceled id mem := (kept.canceled id mem).trans (Nat.lt_succ_self _)
  flags frame mem := by
    rcases List.mem_cons.mp mem with rfl | old
    · exact ⟨fun flag => (nomatch flag),fun canceled => absurd (kept.canceled _ canceled) (Nat.lt_irrefl _)⟩
    · exact kept.flags frame old
  result := kept.result
  last := kept.last

theorem flagIds (id : Nat) : (s.setFlag id).g_eventCancelationStack.map EventFrame.id =
    s.g_eventCancelationStack.map EventFrame.id := by
  unfold setFlag
  rw [List.map_map]
  refine List.map_congr_left (fun frame _ => ?_)
  simp only [Function.comp_apply]
  split
  · rfl
  · rfl

theorem flagFrames (id : Nat) (mem : frame ∈ (s.setFlag id).frames) : ∃ before ∈ s.frames,
    frame.id = before.id ∧ frame.eventName = before.eventName ∧ frame.delivered = before.delivered := by
  rcases memFrames.mp mem with running | ⟨returned,finished⟩
  · obtain ⟨before,old,rfl⟩ := List.mem_map.mp running
    refine ⟨before,memFrames.mpr (.inl old),?_⟩
    split
    · exact ⟨rfl,rfl,rfl⟩
    · exact ⟨rfl,rfl,rfl⟩
  · exact ⟨frame,memFrames.mpr (.inr ⟨returned,finished⟩),rfl,rfl,rfl⟩

theorem flagCanceled (id : Nat) (other : frame.id ≠ id) : frame.id ∈ (s.setFlag id).canceled ↔ frame.id ∈ s.canceled := by
  unfold setFlag
  dsimp only
  split
  · rw [List.mem_cons]
    exact or_iff_right other
  · exact Iff.rfl

theorem FrameOk.flag (ok : FrameOk pairs frame) : FrameOk pairs { frame with eventCanceled := true } := by
  obtain ⟨id,name,filter,phase,flag,delivered,passed⟩ := frame
  cases phase with
  | globalHandlers => exact ⟨ok.bound,ok.sound,ok.complete,ok.passed⟩
  | filtered => exact ok
  | star n => exact ⟨⟨ok.1.bound,ok.1.sound,ok.1.complete,ok.1.passed⟩,ok.2⟩
  | named n i => exact ⟨ok.bound,ok.sound,ok.complete,ok.passed⟩

section
variable (kept : s.Kept)
include kept

theorem Kept.finishedCanceled {returned : Bool} (id : Nat) (finished : (frame,returned) ∈ s.finished) :
    frame.id ∈ (s.setFlag id).canceled ↔ frame.id ∈ s.canceled := by
  by_cases running : id ∈ s.g_eventCancelationStack.map EventFrame.id
  · exact flagCanceled id (kept.finishedOther running finished)
  · unfold setFlag
    dsimp only
    rw [List.contains_eq_mem,if_neg (by rw [decide_eq_true_eq]; exact running)]

theorem Kept.flag (id : Nat) : (s.setFlag id).Kept where
  pairs := kept.pairs
  handled := kept.handled
  running frame mem := by
    obtain ⟨before,old,rfl⟩ := List.mem_map.mp mem
    split
    · exact (kept.running before old).flag
    · exact kept.running before old
  registered frame mem := by
    obtain ⟨before,old,_,name,delivered⟩ := flagFrames id mem
    rw [name,delivered]
    exact kept.registered before old
  ids := by
    have ids := kept.ids
    unfold frames at ids ⊢
    rw [List.map_append] at ids ⊢
    rw [flagIds]
    exact ids
  below frame mem := by
    obtain ⟨before,old,same,_⟩ := flagFrames id mem
    rw [same]
    exact kept.below before old
  canceled id' mem := by
    unfold setFlag at mem
    dsimp only at mem
    split at mem
    · rename_i running
      rw [List.contains_eq_mem,decide_eq_true_eq] at running
      rcases List.mem_cons.mp mem with rfl | old
      · obtain ⟨frame,at_id,rfl⟩ := List.mem_map.mp running
        exact kept.below frame (memFrames.mpr (.inl at_id))
      · exact kept.canceled id' old
    · exact kept.canceled id' mem
  flags frame mem := by
    obtain ⟨before,old,rfl⟩ := List.mem_map.mp mem
    split
    · rename_i own
      refine iff_of_true rfl ?_
      have running : (s.g_eventCancelationStack.map EventFrame.id).contains id = true := by
        rw [List.contains_eq_mem,decide_eq_true_eq,← beq_iff_eq.mp own]
        exact List.mem_map_of_mem old
      unfold setFlag
      dsimp only
      rw [if_pos running,beq_iff_eq.mp own]
      exact List.mem_cons_self
    · rename_i other
      exact (kept.flags before old).trans (flagCanceled id (fun same => other (beq_iff_eq.mpr same))).symm
  result frame returned finished := (kept.result frame returned finished).trans (kept.finishedCanceled id finished).symm
  last := by
    rw [show (s.setFlag id).g_wasLastEventCanceled = s.g_wasLastEventCanceled from rfl,kept.last]
    refine exists_congr (fun frame => and_congr_right (fun head => ?_))
    exact (@Kept.finishedCanceled _ _ kept frame.2 id (List.mem_of_mem_head? head)).symm

variable {outer : List EventFrame}

theorem Kept.cancelEvent (stack : s.g_eventCancelationStack = frame :: outer) :
    s.CancelEvent = s.setFlag frame.id := by
  have ids := kept.ids
  unfold frames at ids
  rw [stack] at ids
  have fresh := (List.nodup_cons.mp ids).1
  have apart : outer.map (fun other => if other.id == frame.id then { other with eventCanceled := true } else other) = outer := by
    refine (List.map_congr_left (fun other mem => ?_)).trans (List.map_id _)
    refine if_neg (fun same => fresh ?_)
    rw [← beq_iff_eq.mp same]
    exact List.mem_map_of_mem (List.mem_append_left _ mem)
  have running : (s.g_eventCancelationStack.map EventFrame.id).contains frame.id = true := by
    rw [stack,List.contains_eq_mem,decide_eq_true_eq]
    exact List.mem_cons_self
  unfold CancelEvent setFlag
  rw [if_pos running,stack]
  dsimp only
  rw [List.map_cons,apart,if_pos (beq_self_eq_true _)]

theorem Kept.finish (stack : s.g_eventCancelationStack = frame :: outer) :
    Kept { s with
      g_eventCancelationStack := outer
      g_wasLastEventCanceled := frame.eventCanceled
      finished := (frame,!frame.eventCanceled) :: s.finished } := by
  have running : frame ∈ s.g_eventCancelationStack := by
    rw [stack]
    exact List.mem_cons_self
  have inner : ∀ other ∈ outer, other ∈ s.g_eventCancelationStack := by
    intro other mem
    rw [stack]
    exact List.mem_cons_of_mem _ mem
  have perm : List.Perm (outer ++ (frame :: s.finished.map Prod.fst)) s.frames := by
    unfold frames
    rw [stack]
    exact List.perm_middle
  have flag := kept.flags frame running
  constructor
  · exact kept.pairs
  · exact kept.handled
  · exact fun other mem => kept.running other (inner other mem)
  · exact fun other mem => kept.registered other (perm.mem_iff.mp mem)
  · exact (perm.map EventFrame.id).nodup_iff.mpr kept.ids
  · exact fun other mem => kept.below other (perm.mem_iff.mp mem)
  · exact kept.canceled
  · exact fun other mem => kept.flags other (inner other mem)
  · intro other returned mem
    rcases List.mem_cons.mp mem with same | old
    · cases same
      rw [← flag]
      cases frame.eventCanceled with
      | true => exact ⟨fun _ => rfl,fun _ => rfl⟩
      | false => exact ⟨fun other => (nomatch other),fun other => (nomatch other)⟩
    · exact kept.result other returned old
  · refine flag.trans ⟨fun canceled => ⟨_,rfl,canceled⟩,?_⟩
    rintro ⟨_,⟨rfl⟩,canceled⟩
    exact canceled

theorem Kept.next (stack : s.g_eventCancelationStack = frame :: outer)
    (advanced : Advanced s frame frame') : Kept { s with g_eventCancelationStack := frame' :: outer } := by
  obtain ⟨id,name,flag,delivered⟩ := advanced.same
  have running : frame ∈ s.g_eventCancelationStack := by
    rw [stack]
    exact List.mem_cons_self
  have frames : s.frames = frame :: (outer ++ s.finished.map Prod.fst) := by
    unfold EventManager.frames
    rw [stack]
    rfl
  have old : ∀ other ∈ outer ++ s.finished.map Prod.fst, other ∈ s.frames := by
    intro other mem
    rw [frames]
    exact List.mem_cons_of_mem _ mem
  have own : frame ∈ s.frames := by
    rw [frames]
    exact List.mem_cons_self
  constructor
  · exact kept.pairs
  · exact kept.handled
  · intro other mem
    rcases List.mem_cons.mp mem with rfl | inner
    · have ok := (kept.running frame running).advance kept advanced
      exact ok
    · exact kept.running other (by rw [stack]; exact List.mem_cons_of_mem _ inner)
  · intro other mem
    rcases List.mem_cons.mp mem with rfl | inner
    · intro r mem
      rw [name]
      exact (delivered r mem).elim (kept.registered frame own r) (handledRegistered kept)
    · exact kept.registered other (old other inner)
  · have ids := kept.ids
    rw [frames] at ids
    change (frame'.id :: (outer ++ s.finished.map Prod.fst).map EventFrame.id).Nodup
    rw [id]
    exact ids
  · intro other mem
    rcases List.mem_cons.mp mem with rfl | inner
    · rw [id]
      exact kept.below frame own
    · exact kept.below other (old other inner)
  · exact kept.canceled
  · intro other mem
    rcases List.mem_cons.mp mem with rfl | inner
    · rw [id,flag]
      exact kept.flags frame running
    · exact kept.flags other (by rw [stack]; exact List.mem_cons_of_mem _ inner)
  · exact kept.result
  · exact kept.last

theorem Kept.step (event : DispatchEvent) : (s.step event).Kept := by
  cases event with
  | makeResource r =>
    unfold EventManager.step
    dsimp only
    split
    · exact kept
    · refine kept.sameRegistrations _ (fun r' resource found name mem => ?_)
      by_cases own : r' = r
      · subst own
        rw [Function.update_self] at found
        cases found
        cases mem
      · rw [Function.update_of_ne own] at found
        exact kept.handled r' resource found name mem
  | removeResource r =>
    refine kept.sameRegistrations _ (fun r' resource found name mem => ?_)
    by_cases own : r' = r
    · subst own
      rw [Function.update_self] at found
      cases found
    · rw [Function.update_of_ne own] at found
      exact kept.handled r' resource found name mem
  | setListening r listening =>
    refine kept.sameRegistrations _ (fun r' resource found name mem => ?_)
    obtain ⟨before,at_r,rfl | ⟨rfl,rfl⟩⟩ := modifyFound found
    · exact kept.handled r' resource at_r name mem
    · exact kept.handled r' before at_r name mem
  | registerHandler r name =>
    unfold EventManager.step
    dsimp only
    split
    · exact kept.register r name
    · exact kept
  | trigger name filter => exact kept.trigger name filter
  | cancelEvent =>
    change s.CancelEvent.Kept
    cases stack : s.g_eventCancelationStack with
    | nil =>
      have after : s.CancelEvent = s := by
        unfold CancelEvent
        rw [stack]
      rw [after]
      exact kept
    | cons frame outer =>
      rw [kept.cancelEvent stack]
      exact kept.flag frame.id
  | setFlag id => exact kept.flag id
  | proceed handled =>
    unfold EventManager.step proceed
    dsimp only
    split
    · exact kept
    · rename_i frame outer stack
      split
      · rename_i next found
        exact kept.next stack (advanced found)
      · exact kept.finish stack

end

theorem keptConstruct : construct.Kept :=
  ⟨List.nodup_nil,fun _ _ found => (nomatch found),fun _ mem => (nomatch mem),fun _ mem => (nomatch mem),List.nodup_nil,
    fun _ mem => (nomatch mem),fun _ mem => (nomatch mem),fun _ mem => (nomatch mem),fun _ _ mem => (nomatch mem),
    ⟨fun canceled => (nomatch canceled),fun ⟨_,head,_⟩ => (nomatch head)⟩⟩

theorem onceSame {s' : EventManager} (deliveries : s'.frames.map EventFrame.delivered = s.frames.map EventFrame.delivered)
    (once : s.Once) : s'.Once := by
  intro frame mem
  have mapped := List.mem_map_of_mem (f := EventFrame.delivered) mem
  rw [deliveries] at mapped
  obtain ⟨before,old,same⟩ := List.mem_map.mp mapped
  rw [← same]
  exact once before old

theorem flagDelivered (id : Nat) : (s.setFlag id).frames.map EventFrame.delivered = s.frames.map EventFrame.delivered := by
  unfold frames
  rw [List.map_append,List.map_append]
  congr 1
  unfold setFlag
  rw [List.map_map]
  refine List.map_congr_left (fun frame _ => ?_)
  simp only [Function.comp_apply]
  split
  · rfl
  · rfl

theorem onceIff (kept : s.Kept) (once : s.Once) (event : DispatchEvent) : (s.step event).Once ↔ s.RegisteredOnce event := by
  cases event with
  | makeResource r =>
    unfold EventManager.step
    dsimp only
    split
    · exact iff_of_true once trivial
    · exact iff_of_true once trivial
  | removeResource r => exact iff_of_true once trivial
  | setListening r listening => exact iff_of_true once trivial
  | registerHandler r name =>
    unfold EventManager.step
    dsimp only
    split
    · exact iff_of_true once trivial
    · exact iff_of_true once trivial
  | trigger name filter =>
    refine iff_of_true (fun frame mem => ?_) trivial
    rcases List.mem_cons.mp mem with rfl | old
    · exact List.nodup_nil
    · exact once frame old
  | cancelEvent =>
    refine iff_of_true ?_ trivial
    change s.CancelEvent.Once
    cases stack : s.g_eventCancelationStack with
    | nil =>
      have after : s.CancelEvent = s := by
        unfold CancelEvent
        rw [stack]
      rw [after]
      exact once
    | cons frame outer =>
      rw [kept.cancelEvent stack]
      exact onceSame (flagDelivered frame.id) once
  | setFlag id => exact iff_of_true (onceSame (flagDelivered id) once) trivial
  | proceed handled =>
    unfold EventManager.step proceed RegisteredOnce
    dsimp only
    cases stack : s.g_eventCancelationStack with
    | nil => exact iff_of_true once (fun _ _ _ _ _ other => (nomatch other))
    | cons frame outer =>
      have running : frame ∈ s.g_eventCancelationStack := by
        rw [stack]
        exact List.mem_cons_self
      dsimp only
      cases found : s.advance frame handled with
      | none =>
        have ended : ∀ n i r, frame.phase = .named n i → (equalRange s.m_eventResources frame.eventName)[i]? ≠ some r := by
          intro n i r phase at_i
          unfold advance at found
          rw [phase] at found
          dsimp only at found
          rw [at_i] at found
          cases found
        refine iff_of_true (fun other mem => once other ?_) ?_
        · unfold frames at mem ⊢
          rw [stack]
          exact List.perm_middle.mem_iff.mp mem
        · rintro _ _ n i r ⟨rfl,rfl⟩ phase at_i
          exact absurd at_i (ended n i r phase)
      | some next =>
        have same := advanceOnce kept (kept.running frame running) (once frame (memFrames.mpr (.inl running))) found
        constructor
        · rintro distinct _ _ n i r ⟨rfl,rfl⟩ phase at_i
          exact same.mp (distinct next List.mem_cons_self) n i r phase at_i
        · intro separate other mem
          rcases List.mem_cons.mp mem with rfl | inner
          · exact same.mpr (fun n i r => separate frame outer n i r rfl)
          · refine once other ?_
            unfold frames
            rw [stack]
            exact List.mem_cons_of_mem _ inner

theorem dispatchExact (events : List DispatchEvent) :
    Throughout step Dispatched construct events ↔ Along step RegisteredOnce construct events := by
  have once : Throughout step Once construct events ↔ Along step RegisteredOnce construct events :=
    throughoutIffAlong Kept Once (fun _ event kept => kept.step event) (fun _ event kept once => onceIff kept once event)
      keptConstruct (fun _ mem => (nomatch mem))
  have kept : Throughout step Kept construct events :=
    @throughoutOfKept _ _ _ Kept (fun _ _ => True) (fun _ event kept _ => kept.step event) _ _ keptConstruct alongAlways
  refine Iff.trans ⟨throughoutMono (fun _ dispatched => dispatched.once),fun all => ?_⟩ once
  exact throughoutMono (fun _ both => ⟨both.2,both.1.registered,both.1.result,both.1.last⟩) (throughoutAnd kept all)

def registeredTwice : List DispatchEvent :=
  [.makeResource [1],.setListening [1] true,.registerHandler [1] (text "*"),.registerHandler [1] [2],
    .trigger [2] none,.proceed true,.proceed true,.proceed true,.proceed true]

theorem deliveredTwice : ¬Throughout step Dispatched construct registeredTwice := by
  intro all
  have last := throughoutLast all
  have running : ⟨0,[2],none,.named 1 1,false,[[1],[1]],[]⟩ ∈ (run step construct registeredTwice).frames := by
    rw [show (run step construct registeredTwice).frames = [⟨0,[2],none,.named 1 1,false,[[1],[1]],[]⟩] from by decide +kernel]
    exact List.mem_singleton_self _
  exact absurd (last.once _ running) (by decide)

end Citizen.Resources.EventManager
