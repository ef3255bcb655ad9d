import Citizen.Lib.Run
import Citizen.Lib.Text
import Mathlib.Data.List.Nodup

/-! `ResourceEventManagerComponent`: the delivery of events to resources, one inside another, and their cancellation. -/
namespace Citizen.Resources

structure EventResource where
  m_eventsHandled : List Text
  listening : Bool

inductive DispatchPhase where
  | globalHandlers
  | filtered
  | star (visited : Nat)
  | named (starVisited visited : Nat)
  deriving DecidableEq

/-- A running `TriggerEvent`. `delivered` are the resources that it was delivered to, `passed` the entries of the
loop over `*` that it was not delivered at. -/
structure EventFrame where
  id : Nat
  eventName : Text
  filter : Option Text
  phase : DispatchPhase
  eventCanceled : Bool
  delivered : List Text
  passed : List Nat
  deriving DecidableEq

/-- `finished` has the last event in front, with what `TriggerEvent` returned; `canceled` are the events that
were cancelled while they were the innermost one, or by the flag of a handler. -/
structure EventManager where
  resources : Text → Option EventResource
  m_eventResources : List (Text × Text)
  g_eventCancelationStack : List EventFrame
  g_wasLastEventCanceled : Bool
  triggered : Nat
  finished : List (EventFrame × Bool)
  canceled : List Nat

inductive DispatchEvent where
  | makeResource (resourceName : Text)
  | removeResource (resourceName : Text)
  | setListening (resourceName : Text) (listening : Bool)
  | registerHandler (resourceName eventName : Text)
  | trigger (eventName : Text) (filter : Option Text)
  | cancelEvent
  | setFlag (id : Nat)
  | proceed (handled : Bool)

namespace EventManager

def construct : EventManager := ⟨fun _ => none,[],[],false,0,[],[]⟩

def equalRange (m_eventResources : List (Text × Text)) (eventKey : Text) : List Text :=
  (m_eventResources.filter (fun pair => pair.1 == eventKey)).map Prod.snd

def AddResourceHandledEvent (m_eventResources : List (Text × Text)) (resourceName eventName : Text) : List (Text × Text) :=
  if (equalRange m_eventResources eventName).contains resourceName = true then m_eventResources
  else m_eventResources ++ [(eventName,resourceName)]

def modifyResource (s : EventManager) (resourceName : Text) (f : EventResource → EventResource) : EventManager :=
  { s with resources := Function.update s.resources resourceName ((s.resources resourceName).map f) }

def registerHandler (s : EventManager) (resourceName eventName : Text) : EventManager :=
  { s.modifyResource resourceName (fun resource => { resource with m_eventsHandled := eventName :: resource.m_eventsHandled }) with
    m_eventResources := AddResourceHandledEvent s.m_eventResources resourceName eventName }

def HandleTriggerEvent (s : EventManager) (resourceName eventName : Text) : Bool :=
  match s.resources resourceName with
  | none => false
  | some resource =>
    resource.listening && (resource.m_eventsHandled.contains eventName || resource.m_eventsHandled.contains (text "*"))

def deliver (s : EventManager) (frame : EventFrame) (resourceName : Text) : EventFrame :=
  if s.HandleTriggerEvent resourceName frame.eventName = true then
    { frame with delivered := resourceName :: frame.delivered }
  else frame

def advance (s : EventManager) (frame : EventFrame) (handled : Bool) : Option EventFrame :=
  match frame.phase with
  | .globalHandlers =>
    if handled = false then none
    else
      match frame.filter with
      | some resourceName => some { s.deliver frame resourceName with phase := .filtered }
      | none =>
        if (text "__cfx_nui:").isPrefixOf frame.eventName = true then none else some { frame with phase := .star 0 }
  | .filtered => none
  | .star i =>
    match (equalRange s.m_eventResources (text "*"))[i]? with
    | none => some { frame with phase := .named i 0 }
    | some resourceName =>
      if s.HandleTriggerEvent resourceName frame.eventName = true then
        some { s.deliver frame resourceName with phase := .star (i + 1) }
      else some { frame with phase := .star (i + 1), passed := i :: frame.passed }
  | .named n i =>
    match (equalRange s.m_eventResources frame.eventName)[i]? with
    | none => none
    | some resourceName => some { s.deliver frame resourceName with phase := .named n (i + 1) }

def TriggerEvent (s : EventManager) (eventName : Text) (filter : Option Text) : EventManager :=
  { s with
    g_eventCancelationStack := ⟨s.triggered,eventName,filter,.globalHandlers,false,[],[]⟩ :: s.g_eventCancelationStack
    triggered := s.triggered + 1 }

def proceed (s : EventManager) (handled : Bool) : EventManager :=
  match s.g_eventCancelationStack with
  | [] => s
  | frame :: outer =>
    match s.advance frame handled with
    | some frame => { s with g_eventCancelationStack := frame :: outer }
    | none =>
      { s with
        g_eventCancelationStack := outer
        g_wasLastEventCanceled := frame.eventCanceled
        finished := (frame,!frame.eventCanceled) :: s.finished }

def setFlag (s : EventManager) (id : Nat) : EventManager :=
  { s with
    g_eventCancelationStack := s.g_eventCancelationStack.map (fun frame =>
      if frame.id == id then { frame with eventCanceled := true } else frame)
    canceled := if (s.g_eventCancelationStack.map EventFrame.id).contains id = true then id :: s.canceled else s.canceled }

def CancelEvent (s : EventManager) : EventManager :=
  match s.g_eventCancelationStack with
  | [] => s
  | frame :: outer =>
    { s with
      g_eventCancelationStack := { frame with eventCanceled := true } :: outer
      canceled := frame.id :: s.canceled }

def step (s : EventManager) : DispatchEvent → EventManager
  | .makeResource resourceName =>
    if (s.resources resourceName).isSome then s
    else { s with resources := Function.update s.resources resourceName (some ⟨[],false⟩) }
  | .removeResource resourceName => { s with resources := Function.update s.resources resourceName none }
  | .setListening resourceName listening => s.modifyResource resourceName (fun resource => { resource with listening := listening })
  | .registerHandler resourceName eventName =>
    if (s.resources resourceName).isSome then s.registerHandler resourceName eventName else s
  | .trigger eventName filter => s.TriggerEvent eventName filter
  | .cancelEvent => s.CancelEvent
  | .setFlag id => s.setFlag id
  | .proceed handled => s.proceed handled

def frames (s : EventManager) : List EventFrame := s.g_eventCancelationStack ++ s.finished.map Prod.fst

def Once (s : EventManager) : Prop := ∀ frame ∈ s.frames, frame.delivered.Nodup

structure Dispatched (s : EventManager) : Prop where
  once : s.Once
  registered : ∀ frame ∈ s.frames, ∀ resourceName ∈ frame.delivered,
    (frame.eventName,resourceName) ∈ s.m_eventResources ∨ (text "*",resourceName) ∈ s.m_eventResources
  result : ∀ frame returned, (frame,returned) ∈ s.finished → (returned = false ↔ frame.id ∈ s.canceled)
  last : s.g_wasLastEventCanceled = true ↔ ∃ frame ∈ s.finished.head?, frame.1.id ∈ s.canceled

/-- A resource that the loop over the event's name comes to and that handles the event was not registered under
`*` in time for the loop over `*`, or was not there or did not handle the event then. -/
def RegisteredOnce (s : EventManager) : DispatchEvent → Prop
  | .proceed _ => ∀ frame outer n i resourceName, s.g_eventCancelationStack = frame :: outer → frame.phase = .named n i →
      (equalRange s.m_eventResources frame.eventName)[i]? = some resourceName →
      s.HandleTriggerEvent resourceName frame.eventName = true →
      ∀ j < n, (equalRange s.m_eventResources (text "*"))[j]? = some resourceName → j ∈ frame.passed
  | _ => True

structure Visited (pairs : List (Text × Text)) (frame : EventFrame) (n i : Nat) : Prop where
  bound : n ≤ (equalRange pairs (text "*")).length
  sound : ∀ r ∈ frame.delivered, (∃ j < n, (equalRange pairs (text "*"))[j]? = some r ∧ j ∉ frame.passed) ∨
    ∃ k < i, (equalRange pairs frame.eventName)[k]? = some r
  complete : ∀ j < n, j ∉ frame.passed → ∀ r, (equalRange pairs (text "*"))[j]? = some r → r ∈ frame.delivered
  passed : ∀ j ∈ frame.passed, j < n

def FrameOk (pairs : List (Text × Text)) (frame : EventFrame) : Prop :=
  match frame.phase with
  | .globalHandlers => Visited pairs frame 0 0
  | .filtered => frame.delivered.Nodup
  | .star n => Visited pairs frame n 0 ∧ frame.delivered.Nodup
  | .named n i => Visited pairs frame n i

structure Kept (s : EventManager) : Prop where
  pairs : s.m_eventResources.Nodup
  handled : ∀ r resource, s.resources r = some resource → ∀ name ∈ resource.m_eventsHandled, (name,r) ∈ s.m_eventResources
  running : ∀ frame ∈ s.g_eventCancelationStack, FrameOk s.m_eventResources frame
  registered : ∀ frame ∈ s.frames, ∀ r ∈ frame.delivered,
    (frame.eventName,r) ∈ s.m_eventResources ∨ (text "*",r) ∈ s.m_eventResources
  ids : (s.frames.map EventFrame.id).Nodup
  below : ∀ frame ∈ s.frames, frame.id < s.triggered
  canceled : ∀ id ∈ s.canceled, id < s.triggered
  flags : ∀ frame ∈ s.g_eventCancelationStack, (frame.eventCanceled = true ↔ frame.id ∈ s.canceled)
  result : ∀ frame returned, (frame,returned) ∈ s.finished → (returned = false ↔ frame.id ∈ s.canceled)
  last : s.g_wasLastEventCanceled = true ↔ ∃ frame ∈ s.finished.head?, frame.1.id ∈ s.canceled

variable {s : EventManager} {pairs : List (Text × Text)} {frame frame' : EventFrame} {n i : Nat} {handled : Bool} {r : Text}

theorem memRange {key : Text} : r ∈ equalRange pairs key ↔ (key,r) ∈ pairs := by
  unfold equalRange
  rw [List.mem_map]
  constructor
  · rintro ⟨⟨name,r'⟩,mem,rfl⟩
    obtain ⟨mem,same⟩ := List.mem_filter.mp mem
    exact (beq_iff_eq.mp same) ▸ mem
  · intro mem
    exact ⟨(key,r),List.mem_filter.mpr ⟨mem,beq_self_eq_true key⟩,rfl⟩

theorem rangeNodup (nodup : pairs.Nodup) (key : Text) : (equalRange pairs key).Nodup := by
  unfold equalRange
  refine (nodup.filter _).map_on ?_
  rintro ⟨name,r⟩ mem ⟨name',r'⟩ mem' same
  have own := beq_iff_eq.mp (List.mem_filter.mp mem).2
  have own' := beq_iff_eq.mp (List.mem_filter.mp mem').2
  exact Prod.ext (own.trans own'.symm) same

theorem rangeInjective (nodup : pairs.Nodup) {key : Text} {j k : Nat} (at_j : (equalRange pairs key)[j]? = some r)
    (at_k : (equalRange pairs key)[k]? = some r) : j = k := by
  obtain ⟨bound,_⟩ := List.getElem?_eq_some_iff.mp at_j
  exact (List.getElem?_inj bound (rangeNodup nodup key)).mp (at_j.trans at_k.symm)

theorem addNodup (nodup : pairs.Nodup) (name : Text) : (AddResourceHandledEvent pairs r name).Nodup := by
  unfold AddResourceHandledEvent
  split
  · exact nodup
  · rename_i absent
    rw [List.contains_eq_mem,decide_eq_true_eq,memRange] at absent
    exact List.nodup_append.mpr ⟨nodup,List.nodup_singleton _,fun a mem b only same =>
      absent ((List.mem_singleton.mp only) ▸ same ▸ mem)⟩

theorem addPrefix (pairs : List (Text × Text)) (r name key : Text) :
    equalRange pairs key <+: equalRange (AddResourceHandledEvent pairs r name) key := by
  unfold AddResourceHandledEvent
  split
  · exact List.prefix_rfl
  · unfold equalRange
    rw [List.filter_append,List.map_append]
    exact List.prefix_append ..

theorem addSubset {pair : Text × Text} (mem : pair ∈ pairs) (r name : Text) : pair ∈ AddResourceHandledEvent pairs r name :=
  memRange.mp ((addPrefix pairs r name pair.1).subset (memRange.mpr mem))

theorem addOwn (pairs : List (Text × Text)) (r name : Text) : (name,r) ∈ AddResourceHandledEvent pairs r name := by
  unfold AddResourceHandledEvent
  split
  · rename_i present
    rw [List.contains_eq_mem,decide_eq_true_eq] at present
    exact memRange.mp present
  · exact List.mem_append_right _ (List.mem_singleton_self _)

section
variable {first second : List Text} (before : first <+: second) {j : Nat}
include before

theorem prefixAt (small : j < first.length) : second[j]? = first[j]? := by
  obtain ⟨rest,rfl⟩ := before
  exact List.getElem?_append_left small

theorem prefixFound (found : first[j]? = some r) : second[j]? = some r :=
  (prefixAt before (List.getElem?_eq_some_iff.mp found).1).trans found

end

theorem Visited.grow {pairs' : List (Text × Text)} (visited : Visited pairs frame n i)
    (grows : ∀ key, equalRange pairs key <+: equalRange pairs' key) : Visited pairs' frame n i where
  bound := visited.bound.trans (grows _).length_le
  sound r mem := by
    rcases visited.sound r mem with ⟨j,small,found,reached⟩ | ⟨k,small,found⟩
    · exact .inl ⟨j,small,prefixFound (grows _) found,reached⟩
    · exact .inr ⟨k,small,prefixFound (grows _) found⟩
  complete j small reached r found :=
    visited.complete j small reached r ((prefixAt (grows _) (by have := visited.bound; omega)).symm.trans found)
  passed := visited.passed

theorem FrameOk.grow {pairs' : List (Text × Text)} (ok : FrameOk pairs frame)
    (grows : ∀ key, equalRange pairs key <+: equalRange pairs' key) : FrameOk pairs' frame := by
  unfold FrameOk at ok ⊢
  split
  · rename_i phase
    rw [phase] at ok
    exact Visited.grow ok grows
  · rename_i phase
    rw [phase] at ok
    exact ok
  · rename_i phase
    rw [phase] at ok
    exact ⟨ok.1.grow grows,ok.2⟩
  · rename_i phase
    rw [phase] at ok
    exact Visited.grow ok grows

theorem handledRegistered (kept : s.Kept) {name : Text} (handles : s.HandleTriggerEvent r name = true) :
    (name,r) ∈ s.m_eventResources ∨ (text "*",r) ∈ s.m_eventResources := by
  unfold HandleTriggerEvent at handles
  split at handles
  · cases handles
  · rename_i resource found
    obtain ⟨_,registered⟩ := Bool.and_eq_true_iff.mp handles
    rw [Bool.or_eq_true,List.contains_eq_mem,List.contains_eq_mem,decide_eq_true_eq,decide_eq_true_eq] at registered
    exact registered.imp (kept.handled r resource found name) (kept.handled r resource found (text "*"))

theorem deliverSame (frame : EventFrame) (r : Text) : (s.deliver frame r).id = frame.id ∧
    (s.deliver frame r).eventName = frame.eventName ∧ (s.deliver frame r).eventCanceled = frame.eventCanceled ∧
    (s.deliver frame r).passed = frame.passed := by
  unfold deliver
  split
  · exact ⟨rfl,rfl,rfl,rfl⟩
  · exact ⟨rfl,rfl,rfl,rfl⟩

theorem delivered (frame : EventFrame) (r : Text) : (s.deliver frame r).delivered =
    if s.HandleTriggerEvent r frame.eventName = true then r :: frame.delivered else frame.delivered := by
  unfold deliver
  split
  · rfl
  · rfl

inductive Advanced (s : EventManager) (frame : EventFrame) : EventFrame → Prop where
  | filtered (r : Text) (phase : frame.phase = .globalHandlers) :
      Advanced s frame { s.deliver frame r with phase := .filtered }
  | starts (phase : frame.phase = .globalHandlers) : Advanced s frame { frame with phase := .star 0 }
  | star (n : Nat) (r : Text) (phase : frame.phase = .star n)
      (found : (equalRange s.m_eventResources (text "*"))[n]? = some r)
      (handles : s.HandleTriggerEvent r frame.eventName = true) :
      Advanced s frame { frame with delivered := r :: frame.delivered, phase := .star (n + 1) }
  | passed (n : Nat) (phase : frame.phase = .star n) (bound : n < (equalRange s.m_eventResources (text "*")).length) :
      Advanced s frame { frame with phase := .star (n + 1), passed := n :: frame.passed }
  | starEnds (n : Nat) (phase : frame.phase = .star n) : Advanced s frame { frame with phase := .named n 0 }
  | named (n i : Nat) (r : Text) (phase : frame.phase = .named n i)
      (found : (equalRange s.m_eventResources frame.eventName)[i]? = some r) :
      Advanced s frame { s.deliver frame r with phase := .named n (i + 1) }

theorem advanced (next : s.advance frame handled = some frame') : Advanced s frame frame' := by
  unfold advance at next
  split at next
  · rename_i phase
    split at next
    · cases next
    · split at next
      · cases next
        exact .filtered _ phase
      · split at next
        · cases next
        · cases next
          exact .starts phase
  · cases next
  · rename_i n phase
    split at next
    · cases next
      exact .starEnds n phase
    · rename_i r found
      split at next
      · rename_i handles
        cases next
        have after : s.deliver frame r = { frame with delivered := r :: frame.delivered } := if_pos handles
        rw [after]
        exact .star n r phase found handles
      · cases next
        exact .passed n phase (List.getElem?_eq_some_iff.mp found).1
  · rename_i n i phase
    split at next
    · cases next
    · rename_i r found
      cases next
      exact .named n i r phase found

theorem Advanced.same (advanced : Advanced s frame frame') : frame'.id = frame.id ∧ frame'.eventName = frame.eventName ∧
    frame'.eventCanceled = frame.eventCanceled ∧
    ∀ r ∈ frame'.delivered, r ∈ frame.delivered ∨ s.HandleTriggerEvent r frame.eventName = true := by
  have delivers : ∀ r, ∀ r' ∈ (s.deliver frame r).delivered,
      r' ∈ frame.delivered ∨ s.HandleTriggerEvent r' frame.eventName = true := by
    intro r r' mem
    rw [delivered] at mem
    split at mem
    · rename_i handles
      rcases List.mem_cons.mp mem with rfl | old
      · exact .inr handles
      · exact .inl old
    · exact .inl mem
  cases advanced with
  | filtered r phase =>
    obtain ⟨id,name,flag,_⟩ := deliverSame (s := s) frame r
    exact ⟨id,name,flag,delivers r⟩
  | starts phase => exact ⟨rfl,rfl,rfl,fun _ mem => .inl mem⟩
  | star n r phase found handles =>
    refine ⟨rfl,rfl,rfl,fun r' mem => ?_⟩
    rcases List.mem_cons.mp mem with rfl | old
    · exact .inr handles
    · exact .inl old
  | passed n phase bound => exact ⟨rfl,rfl,rfl,fun _ mem => .inl mem⟩
  | starEnds n phase => exact ⟨rfl,rfl,rfl,fun _ mem => .inl mem⟩
  | named n i r phase found =>
    obtain ⟨id,name,flag,_⟩ := deliverSame (s := s) frame r
    exact ⟨id,name,flag,delivers r⟩

theorem Visited.starNew (pairs' : pairs.Nodup) (visited : Visited pairs frame n 0)
    (found : (equalRange pairs (text "*"))[n]? = some r) : r ∉ frame.delivered := by
  intro mem
  rcases visited.sound r mem with ⟨j,small,before,_⟩ | ⟨k,small,_⟩
  · exact absurd (rangeInjective pairs' before found) (by omega)
  · omega

theorem Visited.namedOld (pairs' : pairs.Nodup) (visited : Visited pairs frame n i)
    (found : (equalRange pairs frame.eventName)[i]? = some r) :
    r ∈ frame.delivered ↔ ∃ j < n, (equalRange pairs (text "*"))[j]? = some r ∧ j ∉ frame.passed := by
  constructor
  · intro mem
    rcases visited.sound r mem with star | ⟨k,small,before⟩
    · exact star
    · exact absurd (rangeInjective pairs' before found) (by omega)
  · rintro ⟨j,small,found,reached⟩
    exact visited.complete j small reached r found

theorem Visited.star (visited : Visited pairs frame n 0) (found : (equalRange pairs (text "*"))[n]? = some r) :
    Visited pairs { frame with delivered := r :: frame.delivered, phase := .star (n + 1) } (n + 1) 0 where
  bound := (List.getElem?_eq_some_iff.mp found).1
  sound r' mem := by
    rcases List.mem_cons.mp mem with rfl | old
    · exact .inl ⟨n,by omega,found,fun passed => absurd (visited.passed n passed) (by omega)⟩
    · refine (visited.sound r' old).imp ?_ id
      rintro ⟨j,small,rest⟩
      exact ⟨j,by omega,rest⟩
  complete j small reached r' at_j := by
    rcases Nat.lt_succ_iff_lt_or_eq.mp small with before | rfl
    · exact List.mem_cons_of_mem _ (visited.complete j before reached r' at_j)
    · have same := Option.some.inj (found.symm.trans at_j)
      subst same
      exact List.mem_cons_self
  passed j mem := by
    have := visited.passed j mem
    omega

theorem Visited.passedOne (visited : Visited pairs frame n 0) (bound : n < (equalRange pairs (text "*")).length) :
    Visited pairs { frame with phase := .star (n + 1), passed := n :: frame.passed } (n + 1) 0 where
  bound := bound
  sound r' mem := by
    refine (visited.sound r' mem).imp ?_ id
    rintro ⟨j,small,found,reached⟩
    refine ⟨j,by omega,found,fun passed => ?_⟩
    rcases List.mem_cons.mp passed with rfl | old
    · omega
    · exact reached old
  complete j small reached r' at_j := by
    have other : j ≠ n := fun same => reached (same ▸ List.mem_cons_self)
    exact visited.complete j (by omega) (fun old => reached (List.mem_cons_of_mem _ old)) r' at_j
  passed j mem := by
    rcases List.mem_cons.mp mem with rfl | old
    · omega
    · have := visited.passed j old
      omega

theorem Visited.named (visited : Visited s.m_eventResources frame n i)
    (found : (equalRange s.m_eventResources frame.eventName)[i]? = some r) :
    Visited s.m_eventResources { s.deliver frame r with phase := .named n (i + 1) } n (i + 1) := by
  obtain ⟨_,name,_,passed⟩ := deliverSame (s := s) frame r
  have old : ∀ r' ∈ frame.delivered, r' ∈ (s.deliver frame r).delivered := by
    intro r' mem
    rw [delivered]
    split
    · exact List.mem_cons_of_mem _ mem
    · exact mem
  constructor
  · exact visited.bound
  · intro r' mem
    dsimp only at mem ⊢
    rw [name,passed]
    have cases : r' = r ∨ r' ∈ frame.delivered := by
      rw [delivered] at mem
      split at mem
      · exact List.mem_cons.mp mem
      · exact .inr mem
    rcases cases with rfl | before
    · exact .inr ⟨i,by omega,found⟩
    · refine (visited.sound r' before).imp id ?_
      rintro ⟨k,small,rest⟩
      exact ⟨k,by omega,rest⟩
  · intro j small reached r' at_j
    dsimp only at reached
    rw [passed] at reached
    exact old r' (visited.complete j small reached r' at_j)
  · intro j mem
    dsimp only at mem
    rw [passed] at mem
    exact visited.passed j mem

theorem Visited.empty (visited : Visited pairs frame 0 0) : frame.delivered = [] := by
  refine List.eq_nil_iff_forall_not_mem.mpr (fun r mem => ?_)
  rcases visited.sound r mem with ⟨j,small,_⟩ | ⟨k,small,_⟩
  · omega
  · omega

theorem FrameOk.advance (kept : s.Kept) (ok : FrameOk s.m_eventResources frame) (advanced : Advanced s frame frame') :
    FrameOk s.m_eventResources frame' := by
  unfold FrameOk at ok
  cases advanced with
  | filtered r phase =>
    rw [phase] at ok
    change (s.deliver frame r).delivered.Nodup
    rw [delivered,Visited.empty ok]
    split
    · exact List.nodup_singleton r
    · exact List.nodup_nil
  | starts phase =>
    rw [phase] at ok
    exact ⟨⟨ok.bound,ok.sound,ok.complete,ok.passed⟩,by rw [Visited.empty ok]; exact List.nodup_nil⟩
  | star n r phase found handles =>
    rw [phase] at ok
    exact ⟨ok.1.star found,List.nodup_cons.mpr ⟨ok.1.starNew kept.pairs found,ok.2⟩⟩
  | passed n phase bound =>
    rw [phase] at ok
    exact ⟨ok.1.passedOne bound,ok.2⟩
  | starEnds n phase =>
    rw [phase] at ok
    exact ⟨ok.1.bound,ok.1.sound,ok.1.complete,ok.1.passed⟩
  | named n i r phase found =>
    rw [phase] at ok
    exact Visited.named ok found

end EventManager
end Citizen.Resources
