import Citizen.Scripting.Waits

/-! A `Cancel` completes the waits of its canceler, if none of their handlers that it comes to is for a time that has come. -/
namespace Citizen.Scripting
open Agenda

namespace Scheduler
variable {s s' : Scheduler}

inductive Turned (s s' : Scheduler) : Prop where
  | ended (phase : s'.phase = .idle) (log : s'.log = s.log) (scheduled : s'.scheduled = s.scheduled)
      (unscheduled : s'.unscheduled = s.unscheduled)
  | runs (p : Ran) (phase : s'.phase ≠ .idle) (log : s'.log = s.log ++ [p]) (scheduled : s'.scheduled = s.scheduled)
      (unscheduled : s'.unscheduled = s.unscheduled)

theorem runTimedTurned (s : Scheduler) (timeNow : TimePoint) (it : Option Node) : Turned s (s.runTimed timeNow it) := by
  unfold runTimed
  split
  · exact .ended rfl rfl rfl rfl
  split
  · split
    · exact .runs _ nofun rfl rfl rfl
    · exact .ended rfl rfl rfl rfl
  · exact .ended rfl rfl rfl rfl

theorem runNextFrameTurned (s : Scheduler) (timeNow : TimePoint) (rest : List Entry) :
    Turned s (s.runNextFrame timeNow rest) := by
  cases rest with
  | nil => exact runTimedTurned s timeNow s.s_queue.head?
  | cons entry rest => exact .runs _ nofun rfl rfl rfl

theorem Turned.from {t : Scheduler} (turned : Turned t s') (log : t.log = s.log) (scheduled : t.scheduled = s.scheduled)
    (unscheduled : t.unscheduled = s.unscheduled) : Turned s s' := by
  cases turned with
  | ended phase log' scheduled' unscheduled' =>
    exact .ended phase (log'.trans log) (scheduled'.trans scheduled) (unscheduled'.trans unscheduled)
  | runs p phase log' scheduled' unscheduled' =>
    exact .runs p phase (log ▸ log') (scheduled'.trans scheduled) (unscheduled'.trans unscheduled)

theorem tickTurned (idle : s.phase = .idle) (now hostTime : TimePoint) : Turned s (s.Tick now hostTime) := by
  unfold Tick
  split
  · exact .ended idle rfl rfl rfl
  · exact (runNextFrameTurned _ _ _).from rfl rfl rfl

theorem finishTurned (s : Scheduler) : Turned s s.finish := by
  unfold finish
  split
  · rename_i idle
    exact .ended idle rfl rfl rfl
  · exact runNextFrameTurned s _ _
  · exact runTimedTurned s _ _

section
variable (sound : s.Sound)
include sound

theorem Sound.nodup : s.scheduled.Nodup :=
  List.Nodup.of_map Entry.id (sound.kept.numbered ▸ List.nodup_range)

theorem Sound.pendingIff {e : Entry} :
    e ∈ s.pending ↔ e ∈ s.scheduled ∧ e ∉ s.log.map Ran.entry ∧ e ∉ s.unscheduled := by
  have once := sound.kept.once
  have apart := once.nodup_iff.mpr sound.nodup
  have here : e ∈ s.scheduled ↔ (e ∈ s.log.map Ran.entry ∨ e ∈ s.unscheduled) ∨ e ∈ s.pending := by
    rw [← once.mem_iff,List.mem_append,List.mem_append]
  constructor
  · intro mem
    have out := fun old => List.disjoint_of_nodup_append apart old mem
    exact ⟨here.mpr (.inr mem),fun ran => out (List.mem_append_left _ ran),fun left => out (List.mem_append_right _ left)⟩
  · rintro ⟨mem,unrun,kept⟩
    rcases here.mp mem with (ran | left) | mem
    · exact absurd ran unrun
    · exact absurd left kept
    · exact mem

section
variable (sound' : s'.Sound)
include sound'

theorem Sound.ran {p : Ran} (log : s'.log = s.log ++ [p])
    (scheduled : s'.scheduled = s.scheduled) (unscheduled : s'.unscheduled = s.unscheduled) :
    p.entry ∈ s.pending ∧ ∀ e,e ∈ s'.pending ↔ e ∈ s.pending ∧ e ≠ p.entry := by
  have apart := sound'.kept.once.nodup_iff.mpr sound'.nodup
  have known : p.entry ∈ s'.scheduled :=
    sound'.kept.once.subset (by simp [log])
  have parts := apart.of_append_left
  rw [log,List.map_append,List.append_assoc] at parts
  have unrun : p.entry ∉ s.log.map Ran.entry := fun old =>
    List.disjoint_of_nodup_append parts old (List.mem_append_left _ (List.mem_singleton_self _))
  have kept : p.entry ∉ s.unscheduled := fun old =>
    List.disjoint_of_nodup_append parts.of_append_right (List.mem_singleton_self _) (unscheduled ▸ old)
  refine ⟨sound.pendingIff.mpr ⟨scheduled ▸ known,unrun,kept⟩,fun e => ?_⟩
  rw [sound'.pendingIff,sound.pendingIff,log,scheduled,unscheduled,List.map_append,List.mem_append]
  simp
  tauto

theorem Sound.unmoved (log : s'.log = s.log) (scheduled : s'.scheduled = s.scheduled)
    (unscheduled : s'.unscheduled = s.unscheduled) (e : Entry) : e ∈ s'.pending ↔ e ∈ s.pending := by
  rw [sound'.pendingIff,sound.pendingIff,log,scheduled,unscheduled]

theorem Sound.left {entry : Entry} (log : s'.log = s.log)
    (scheduled : s'.scheduled = s.scheduled) (unscheduled : s'.unscheduled = s.unscheduled ++ [entry]) (e : Entry) :
    e ∈ s'.pending ↔ e ∈ s.pending ∧ e ≠ entry := by
  rw [sound'.pendingIff,sound.pendingIff,log,scheduled,unscheduled,List.mem_append,List.mem_singleton]
  tauto

theorem Sound.joined {entry : Entry} (log : s'.log = s.log)
    (scheduled : s'.scheduled = s.scheduled ++ [entry]) (unscheduled : s'.unscheduled = s.unscheduled) (e : Entry) :
    e ∈ s'.pending ↔ e ∈ s.pending ∨ e = entry := by
  have new : entry ∉ s.scheduled := fun old =>
    List.disjoint_of_nodup_append (scheduled ▸ sound'.nodup) old (List.mem_singleton_self _)
  have past := sound.kept.once.subset
  have unrun : entry ∉ s.log.map Ran.entry := fun old =>
    new (past (List.mem_append_left _ (List.mem_append_left _ old)))
  have kept : entry ∉ s.unscheduled := fun old =>
    new (past (List.mem_append_left _ (List.mem_append_right _ old)))
  rw [sound'.pendingIff,sound.pendingIff,log,scheduled,unscheduled,List.mem_append,List.mem_singleton]
  constructor
  · rintro ⟨old | rfl,rest⟩
    · exact .inl ⟨old,rest⟩
    · exact .inr rfl
  · rintro (⟨old,rest⟩ | rfl)
    · exact ⟨.inl old,rest⟩
    · exact ⟨.inr rfl,unrun,kept⟩

end
end

theorem scheduleAtJoins (s : Scheduler) (action : Nat) (time : TimePoint) :
    (s.ScheduleAt (some action) time).log = s.log ∧
      (s.ScheduleAt (some action) time).scheduled = s.scheduled ++ [s.newEntry action time] ∧
      (s.ScheduleAt (some action) time).unscheduled = s.unscheduled := by
  unfold ScheduleAt
  split
  · exact ⟨rfl,rfl,rfl⟩
  · dsimp only
    split
    · exact ⟨rfl,rfl,rfl⟩
    · split
      · exact ⟨rfl,rfl,rfl⟩
      · exact ⟨rfl,rfl,rfl⟩

theorem findNodeSome {q : List Node} (sorted : q.Pairwise (Before Entry.id)) {n : Node} (mem : n ∈ q) {time : TimePoint}
    (early : n.1 ≤ time) : ∃ it,findNode n.2.action time q = some it := by
  induction q with
  | nil => cases mem
  | cons first rest ih =>
    obtain ⟨before,sorted⟩ := List.pairwise_cons.mp sorted
    have reaches : first.1 ≤ time := by
      rcases List.mem_cons.mp mem with rfl | later
      · exact early
      · exact (before n later).le.trans early
    unfold findNode
    rw [if_neg (not_lt.mpr reaches)]
    split
    · exact ⟨first,rfl⟩
    · rename_i other
      rcases List.mem_cons.mp mem with rfl | later
      · exact absurd rfl other
      · exact ih sorted later

theorem Sound.queued (sound : s.Sound) {e : Entry} (mem : e ∈ s.pending) (ahead : s.CurrentTime < e.time) :
    ∃ n ∈ s.s_queue,n.2 = e ∧ n.1 = e.time := by
  rcases List.mem_append.mp mem with frame | queued
  · rcases List.mem_append.mp frame with coming | next
    · unfold Scheduler.coming at coming
      split at coming
      · rename_i timeNow rest here
        obtain ⟨common,entered,due⟩ := sound.nextFrame here
        exact absurd ((due.since e coming).2.trans (common.entered entered)) (not_le.mpr ahead)
      · cases coming
    · exact absurd (sound.common.since e next).2 (not_le.mpr ahead)
  · obtain ⟨n,there,rfl⟩ := List.mem_map.mp queued
    exact ⟨n,there,rfl,(sound.common.waits n there).1⟩

end Scheduler

namespace Waits
open World

theorem onWaitedInj {i j : Nat} (same : onWaited i = onWaited j) : i = j := Nat.mul_left_cancel Nat.two_pos same

theorem scriptedNe (action i : Nat) : scripted action ≠ onWaited i := by
  unfold scripted onWaited
  omega

def Open (waits : List Wait) (i : Nat) (wait : Wait) : Prop := waits[i]? = some wait ∧ wait.completed = false

theorem Open.same {waits : List Wait} {i : Nat} {a b : Wait} (first : Open waits i a) (second : waits[i]? = some b) : a = b :=
  Option.some.inj (first.1.symm.trans second)

structure Kept (w : World) : Prop where
  sound : w.scheduler.Sound
  silent : w.threw = false
  entry : ∀ i wait,Open w.waits i wait →
    ∃ e ∈ w.scheduler.pending,e.action = onWaited i ∧ e.time = wait.time ∧ e.since = wait.since
  only : ∀ e ∈ w.scheduler.pending,∀ i,e.action = onWaited i → ∃ wait,Open w.waits i wait ∧ e.time = wait.time
  unique : ∀ e ∈ w.scheduler.pending,∀ e' ∈ w.scheduler.pending,∀ i,e.action = onWaited i → e'.action = onWaited i → e = e'
  handlers : ∀ i wait,Open w.waits i wait → i ∈ (w.cancelers wait.canceler).OnCancel
  rest : ∀ c rest,.cancel c rest ∈ w.stack → ∀ i wait,Open w.waits i wait → wait.canceler = c → i ∈ rest
  canceled : ∀ c rest,.cancel c rest ∈ w.stack → (w.cancelers c).IsCanceled = true
  coming : ∀ i wait,Open w.waits i wait → (w.cancelers wait.canceler).IsCanceled = true →
    ∃ rest,.cancel wait.canceler rest ∈ w.stack
  done : ∀ i,.waited i ∈ w.stack → i < w.waits.length ∧ ∀ wait,¬ Open w.waits i wait
  returned : ∀ c ∈ w.returned,(w.cancelers c).IsCanceled = true ∧ ∀ i wait,Open w.waits i wait → wait.canceler ≠ c
  once : ∀ wait ∈ w.waits,wait.ran = if wait.completed then 1 else 0

theorem Kept.correct {w : World} (kept : Kept w) : Correct w where
  silent := kept.silent
  afterwards c mem i wait here onIt := by
    obtain ⟨-,none⟩ := kept.returned c mem
    have completed : wait.completed = true := by
      by_contra pending
      exact none i wait ⟨here,Bool.eq_false_iff.mpr pending⟩ onIt
    refine ⟨completed,fun n queued action => ?_⟩
    obtain ⟨other,isOpen,-⟩ := kept.only n.2 (List.mem_append_right _ (List.mem_map_of_mem queued)) i action
    exact absurd (isOpen.same here ▸ isOpen.2) (by simp [completed])
  once := kept.once
  inTime quiet wait mem pending u now since found := by
    obtain ⟨i,here⟩ := List.mem_iff_getElem?.mp mem
    obtain ⟨e,waits,-,time,since'⟩ := kept.entry i wait ⟨here,pending⟩
    obtain ⟨-,first⟩ := kept.sound.waits waits
    have idle : w.scheduler.phase = .idle := by
      simp only [World.quiet,Bool.and_eq_true,decide_eq_true_eq] at quiet
      exact quiet.2
    have all : w.scheduler.closed = w.scheduler.times.length := by
      unfold Scheduler.closed
      rw [idle]
    rw [← time]
    exact first u (all ▸ (List.getElem?_eq_some_iff.mp found).1) (since' ▸ since) now found

theorem initKept : Kept init where
  sound := Scheduler.initSound
  silent := rfl
  entry i wait isOpen := by simp [Open,init] at isOpen
  only := nofun
  unique := nofun
  handlers i wait isOpen := by simp [Open,init] at isOpen
  rest := nofun
  canceled := nofun
  coming i wait isOpen := by simp [Open,init] at isOpen
  done := nofun
  returned := nofun
  once := nofun

section Completes
variable {w : World} {s' : Scheduler} {i : Nat} {below : List Frame}

theorem completes (w : World) (i : Nat) (below : List Frame) :
    ∃ waits stack,w.Complete i below = { w with waits, stack } ∧ (stack = below ∨ stack = .user :: below) ∧
      (∀ j wait,Open waits j wait ↔ Open w.waits j wait ∧ j ≠ i) ∧ waits.length = w.waits.length ∧
      ((∀ wait ∈ w.waits,wait.ran = if wait.completed then 1 else 0) →
        ∀ wait ∈ waits,wait.ran = if wait.completed then 1 else 0) := by
  unfold Complete
  split
  · rename_i none
    refine ⟨w.waits,below,rfl,.inl rfl,fun j wait => ⟨fun isOpen => ⟨isOpen,?_⟩,And.left⟩,rfl,id⟩
    rintro rfl
    cases none.symm.trans isOpen.1
  rename_i wait here
  split
  · rename_i completed
    refine ⟨w.waits,below,rfl,.inl rfl,fun j other => ⟨fun isOpen => ⟨isOpen,?_⟩,And.left⟩,rfl,id⟩
    rintro rfl
    exact absurd (isOpen.same here ▸ isOpen.2) (by simp [completed])
  · rename_i pending
    refine ⟨_,_,rfl,.inr rfl,fun j other => ?_,List.length_set,fun once other mem => ?_⟩
    · unfold Open
      by_cases same : j = i
      · subst same
        have inside := (List.getElem?_eq_some_iff.mp here).1
        rw [List.getElem?_set_self inside]
        refine iff_of_false ?_ (fun both => both.2 rfl)
        rintro ⟨found,unfinished⟩
        cases found
        cases unfinished
      · rw [List.getElem?_set_ne (Ne.symm same)]
        exact ⟨fun isOpen => ⟨isOpen,same⟩,And.left⟩
    · rcases List.mem_or_eq_of_mem_set mem with old | rfl
      · exact once other old
      · have before := once wait (List.mem_of_getElem? here)
        rw [if_neg pending] at before
        simp [before]

theorem Kept.complete (kept : Kept w) (sound : s'.Sound)
    (left : ∀ e,e ∈ s'.pending ↔ e ∈ w.scheduler.pending ∧ e.action ≠ onWaited i)
    (rest : ∀ c rest,.cancel c rest ∈ below → ∀ j wait,Open w.waits j wait → j ≠ i → wait.canceler = c → j ∈ rest)
    (canceled : ∀ c rest,.cancel c rest ∈ below → (w.cancelers c).IsCanceled = true)
    (coming : ∀ c rest,.cancel c rest ∈ w.stack → ∃ rest',.cancel c rest' ∈ below)
    (done : ∀ j,.waited j ∈ below → j = i ∧ i < w.waits.length ∨ .waited j ∈ w.stack) :
    Kept (Complete { w with scheduler := s' } i below) := by
  obtain ⟨waits,stack,same,pushed,opens,length,once⟩ := completes { w with scheduler := s' } i below
  have frames (f : Frame) (other : f ≠ .user) : f ∈ stack ↔ f ∈ below := by
    rcases pushed with rfl | rfl
    · exact Iff.rfl
    · exact (List.mem_cons).trans (or_iff_right other)
  rw [same]
  refine ⟨sound,kept.silent,fun j wait isOpen => ?_,fun e mem j action => ?_,fun e mem e' mem' j => ?_,fun j wait isOpen => ?_,
    fun c rest' mem j wait isOpen => ?_,fun c rest' mem => ?_,fun j wait isOpen => ?_,fun j mem => ?_,
    fun c mem => ⟨(kept.returned c mem).1,fun j wait isOpen => ?_⟩,once kept.once⟩
  · obtain ⟨old,other⟩ := (opens j wait).mp isOpen
    obtain ⟨e,waits,action,entry⟩ := kept.entry j wait old
    exact ⟨e,(left e).mpr ⟨waits,fun same => other (onWaitedInj (action.symm.trans same))⟩,action,entry⟩
  · obtain ⟨old,kind⟩ := (left e).mp mem
    obtain ⟨wait,isOpen,time⟩ := kept.only e old j action
    refine ⟨wait,(opens j wait).mpr ⟨isOpen,?_⟩,time⟩
    rintro rfl
    exact kind action
  · exact kept.unique e ((left e).mp mem).1 e' ((left e').mp mem').1 j
  · exact kept.handlers j wait ((opens j wait).mp isOpen).1
  · obtain ⟨old,other⟩ := (opens j wait).mp isOpen
    exact rest c rest' ((frames _ (by nofun)).mp mem) j wait old other
  · exact canceled c rest' ((frames _ (by nofun)).mp mem)
  · intro isCanceled
    obtain ⟨rest',mem⟩ := kept.coming j wait ((opens j wait).mp isOpen).1 isCanceled
    obtain ⟨rest',mem⟩ := coming _ rest' mem
    exact ⟨rest',(frames _ (by nofun)).mpr mem⟩
  · rcases done j ((frames _ (by nofun)).mp mem) with ⟨rfl,inside⟩ | before
    · exact ⟨length ▸ inside,fun wait isOpen => ((opens j wait).mp isOpen).2 rfl⟩
    · obtain ⟨inside,completed⟩ := kept.done j before
      exact ⟨length ▸ inside,fun wait isOpen => completed wait ((opens j wait).mp isOpen).1⟩
  · exact (kept.returned c mem).2 j wait ((opens j wait).mp isOpen).1

end Completes

variable {w : World}

theorem Kept.scripts (kept : Kept w) {s' : Scheduler} {stack : List Frame} (sound : s'.Sound)
    (same : ∀ e i,e.action = onWaited i → (e ∈ s'.pending ↔ e ∈ w.scheduler.pending))
    (frames : ∀ f,f ≠ .user → (f ∈ stack ↔ f ∈ w.stack)) : Kept { w with scheduler := s', stack } where
  sound := sound
  silent := kept.silent
  entry i wait isOpen := by
    obtain ⟨e,waits,action,entry⟩ := kept.entry i wait isOpen
    exact ⟨e,(same e i action).mpr waits,action,entry⟩
  only e mem i action := kept.only e ((same e i action).mp mem) i action
  unique e mem e' mem' i action action' :=
    kept.unique e ((same e i action).mp mem) e' ((same e' i action').mp mem') i action action'
  handlers := kept.handlers
  rest c rest mem := kept.rest c rest ((frames _ (by nofun)).mp mem)
  canceled c rest mem := kept.canceled c rest ((frames _ (by nofun)).mp mem)
  coming i wait isOpen canceled := by
    obtain ⟨rest,mem⟩ := kept.coming i wait isOpen canceled
    exact ⟨rest,(frames _ (by nofun)).mpr mem⟩
  done i mem := kept.done i ((frames _ (by nofun)).mp mem)
  returned := kept.returned
  once := kept.once

theorem userFrames (stack : List Frame) (f : Frame) (other : f ≠ .user) : f ∈ .user :: stack ↔ f ∈ stack :=
  List.mem_cons.trans (or_iff_right other)

theorem Kept.begins (kept : Kept w) {s' : Scheduler} (sound : s'.Sound) (turned : w.scheduler.Turned s') :
    Kept (begin { w with scheduler := s' }) := by
  cases turned with
  | ended idle log scheduled unscheduled =>
    have still : begin { w with scheduler := s' } = { w with scheduler := s' } := by
      unfold begin
      rw [idle]
    rw [still]
    exact kept.scripts sound (fun e i _ => kept.sound.unmoved sound log scheduled unscheduled e) (fun f _ => Iff.rfl)
  | runs p phase log scheduled unscheduled =>
    obtain ⟨was,left⟩ := kept.sound.ran sound log scheduled unscheduled
    have started : begin { w with scheduler := s' } =
        if p.entry.action % 2 = 0 then World.OnWaited { w with scheduler := s' } (p.entry.action / 2)
        else { w with scheduler := s', stack := .user :: w.stack } := by
      unfold begin
      have last : s'.log.getLast? = some p := by rw [log,List.getLast?_concat]
      split
      · rename_i idle
        exact absurd idle phase
      · dsimp only
        rw [last]
    rw [started]
    split
    · rename_i even
      have action : p.entry.action = onWaited (p.entry.action / 2) := by
        unfold onWaited
        omega
      generalize p.entry.action / 2 = i at action
      refine kept.complete sound (fun e => (left e).trans (and_congr_right (fun mem => not_congr ?_))) ?_ ?_ ?_ ?_
      · exact ⟨fun same => same ▸ action,fun other => kept.unique e mem p.entry was i other action⟩
      · intro c rest mem j wait isOpen _
        exact kept.rest c rest ((List.mem_cons.mp mem).resolve_left nofun) j wait isOpen
      · exact fun c rest mem => kept.canceled c rest ((List.mem_cons.mp mem).resolve_left nofun)
      · exact fun c rest mem => ⟨rest,List.mem_cons_of_mem _ mem⟩
      · intro j mem
        rcases List.mem_cons.mp mem with same | old
        · cases same
          obtain ⟨wait,isOpen,-⟩ := kept.only p.entry was i action
          exact .inl ⟨rfl,(List.getElem?_eq_some_iff.mp isOpen.1).1⟩
        · exact .inr old
    · rename_i odd
      refine kept.scripts sound (fun e i kind => (left e).trans (and_iff_left ?_)) (userFrames w.stack)
      rintro rfl
      rw [kind] at odd
      exact odd (Nat.mul_mod_right 2 i)

theorem Kept.unscheduled (kept : Kept w) {i : Nat} {wait : Wait} (here : w.waits[i]? = some wait)
    (ahead : w.scheduler.CurrentTime < wait.time) : (w.scheduler.Unschedule (onWaited i) wait.time).Sound ∧
      ∀ e,e ∈ (w.scheduler.Unschedule (onWaited i) wait.time).pending ↔ e ∈ w.scheduler.pending ∧ e.action ≠ onWaited i := by
  have pends {n : Node} (mem : n ∈ w.scheduler.s_queue) : n.2 ∈ w.scheduler.pending :=
    List.mem_append_right _ (List.mem_map_of_mem mem)
  have sound : (w.scheduler.Unschedule (onWaited i) wait.time).Sound := by
    refine Scheduler.stepSound (.unschedule (onWaited i) wait.time) kept.sound (Scheduler.sparesOwnTime kept.sound ?_)
    intro n mem action
    obtain ⟨other,isOpen,time⟩ := kept.only n.2 (pends mem) i action
    rw [(kept.sound.common.waits n mem).1,time,isOpen.same here]
  refine ⟨sound,fun e => ?_⟩
  have ⟨unchanged,removed⟩ : (Scheduler.findNode (onWaited i) wait.time w.scheduler.s_queue = none →
        w.scheduler.Unschedule (onWaited i) wait.time = w.scheduler) ∧
      ∀ it,Scheduler.findNode (onWaited i) wait.time w.scheduler.s_queue = some it →
        w.scheduler.Unschedule (onWaited i) wait.time = { w.scheduler with
          s_queue := w.scheduler.s_queue.erase it, unscheduled := w.scheduler.unscheduled ++ [it.2] } := by
    constructor
    · intro found
      rw [Scheduler.Unschedule,if_pos ahead,found]
    · intro it found
      rw [Scheduler.Unschedule,if_pos ahead,found]
  cases found : Scheduler.findNode (onWaited i) wait.time w.scheduler.s_queue with
  | some it =>
    obtain ⟨mem,action⟩ := Scheduler.findNodeMem found
    have gone := removed it found
    refine (@Scheduler.Sound.left _ _ kept.sound sound it.2 ?_ ?_ ?_ e).trans (and_congr_right (fun waits => not_congr ?_))
    · rw [gone]
    · rw [gone]
    · rw [gone]
    · exact ⟨fun same => same ▸ action,fun other => kept.unique e waits it.2 (pends mem) i other action⟩
  | none =>
    rw [unchanged found]
    refine ⟨fun waits => ⟨waits,fun action => ?_⟩,And.left⟩
    -- its entry is in the queue, so it is found
    obtain ⟨other,isOpen,time⟩ := kept.only e waits i action
    obtain rfl := isOpen.same here
    obtain ⟨n,mem,rfl,due⟩ := kept.sound.queued waits (time ▸ ahead)
    obtain ⟨it,some⟩ := Scheduler.findNodeSome kept.sound.common.sorted mem (due.trans time).le
    rw [action,found] at some
    cases some

theorem Kept.setCanceler (kept : Kept w) (c : Nat) (canceler : Canceler)
    (same : canceler.IsCanceled = (w.cancelers c).IsCanceled)
    (handlers : ∀ i wait,Open w.waits i wait → wait.canceler = c → i ∈ canceler.OnCancel) : Kept (w.setCanceler c canceler) := by
  have canceled (c' : Nat) : (Function.update w.cancelers c canceler c').IsCanceled = (w.cancelers c').IsCanceled := by
    by_cases here : c' = c
    · subst here
      rw [Function.update_self,same]
    · rw [Function.update_of_ne here]
  refine { kept with handlers := fun i wait isOpen => ?_,canceled := ?_,coming := ?_,returned := ?_ }
  · change i ∈ (Function.update w.cancelers c canceler wait.canceler).OnCancel
    by_cases here : wait.canceler = c
    · rw [here,Function.update_self]
      exact handlers i wait isOpen here
    · rw [Function.update_of_ne here]
      exact kept.handlers i wait isOpen
  · exact fun c' rest mem => (canceled c').trans (kept.canceled c' rest mem)
  · exact fun i wait isOpen is => kept.coming i wait isOpen ((canceled _).symm.trans is)
  · exact fun c' mem => ⟨(canceled c').trans (kept.returned c' mem).1,(kept.returned c' mem).2⟩

theorem openAppend {waits : List Wait} {last : Wait} {i : Nat} {wait : Wait} :
    Open (waits ++ [last]) i wait ↔ Open waits i wait ∨ i = waits.length ∧ wait = last ∧ last.completed = false := by
  unfold Open
  rcases Nat.lt_trichotomy i waits.length with before | rfl | after
  · rw [List.getElem?_append_left before]
    exact ⟨.inl,fun either => either.resolve_right (fun is => Nat.ne_of_lt before is.1)⟩
  · rw [List.getElem?_concat_length,List.getElem?_eq_none (Nat.le_refl _)]
    constructor
    · rintro ⟨found,unfinished⟩
      cases found
      exact .inr ⟨rfl,rfl,unfinished⟩
    · rintro (⟨none,-⟩ | ⟨-,rfl,unfinished⟩)
      · cases none
      · exact ⟨rfl,unfinished⟩
  · rw [List.getElem?_eq_none (by simpa using Nat.succ_le_of_lt after),List.getElem?_eq_none after.le]
    refine iff_of_false (fun is => by cases is.1) ?_
    rintro (⟨none,-⟩ | ⟨same,-⟩)
    · cases none
    · exact Nat.ne_of_gt after same

section
variable {w : World} (kept : Kept w)
include kept

theorem Kept.waitsUntil (time : TimePoint) (c : Nat) : Kept (w.WaitUntil time c) := by
  unfold World.WaitUntil
  split
  · split
    · exact kept
    · have opens {i : Nat} {wait : Wait} : Open (w.waits ++ [⟨time,c,true,1,w.scheduler.times.length⟩]) i wait ↔ Open w.waits i wait :=
        openAppend.trans (or_iff_left (fun is => by cases is.2.2))
      refine { kept with
        entry := fun i wait isOpen => kept.entry i wait (opens.mp isOpen)
        only := fun e mem i action => ?_
        handlers := fun i wait isOpen => kept.handlers i wait (opens.mp isOpen)
        rest := fun c rest mem i wait isOpen => kept.rest c rest mem i wait (opens.mp isOpen)
        coming := fun i wait isOpen => kept.coming i wait (opens.mp isOpen)
        done := fun i mem => ?_
        returned := fun c mem => ⟨(kept.returned c mem).1,fun i wait isOpen => (kept.returned c mem).2 i wait (opens.mp isOpen)⟩
        once := fun wait mem => ?_ }
      · obtain ⟨wait,isOpen,time⟩ := kept.only e mem i action
        exact ⟨wait,opens.mpr isOpen,time⟩
      · obtain ⟨inside,completed⟩ := kept.done i mem
        exact ⟨inside.trans_le (by simp),fun wait isOpen => completed wait (opens.mp isOpen)⟩
      · rcases List.mem_append.mp mem with old | new
        · exact kept.once wait old
        · rw [List.mem_singleton.mp new]
          rfl
  rename_i going
  obtain ⟨log,scheduled,unscheduled⟩ := Scheduler.scheduleAtJoins w.scheduler (onWaited w.waits.length) time
  have sound : (w.scheduler.ScheduleAt (some (onWaited w.waits.length)) time).Sound :=
    Scheduler.stepSound (.scheduleAt (some (onWaited w.waits.length)) time) kept.sound trivial
  have joined := kept.sound.joined sound log scheduled unscheduled
  have fresh (e : Entry) (mem : e ∈ w.scheduler.pending) : e.action ≠ onWaited w.waits.length := by
    intro action
    obtain ⟨wait,isOpen,-⟩ := kept.only e mem _ action
    exact Nat.lt_irrefl _ (List.getElem?_eq_some_iff.mp isOpen.1).1
  have old := kept.setCanceler c { w.cancelers c with OnCancel := (w.cancelers c).OnCancel ++ [w.waits.length] } rfl
    (fun i wait isOpen here => List.mem_append_left _ (here ▸ kept.handlers i wait isOpen))
  have still : ((w.setCanceler c { w.cancelers c with OnCancel := (w.cancelers c).OnCancel ++ [w.waits.length] }).cancelers c).IsCanceled = false := by
    change (Function.update w.cancelers c _ c).IsCanceled = false
    rw [Function.update_self]
    exact Bool.eq_false_iff.mpr going
  refine { old with
    sound
    entry := fun i wait isOpen => ?_
    only := fun e mem i action => ?_
    unique := fun e mem e' mem' i action action' => ?_
    handlers := fun i wait isOpen => ?_
    rest := fun c' rest mem i wait isOpen here => ?_
    coming := fun i wait isOpen is => ?_
    done := fun i mem => ?_
    returned := fun c' mem => ⟨(old.returned c' mem).1,fun i wait isOpen here => ?_⟩
    once := fun wait mem => ?_ }
  · rcases openAppend.mp isOpen with before | ⟨rfl,rfl,-⟩
    · obtain ⟨e,waits,entry⟩ := kept.entry i wait before
      exact ⟨e,(joined e).mpr (.inl waits),entry⟩
    · exact ⟨_,(joined _).mpr (.inr rfl),rfl,rfl,rfl⟩
  · rcases (joined e).mp mem with before | rfl
    · obtain ⟨wait,isOpen,time⟩ := kept.only e before i action
      exact ⟨wait,openAppend.mpr (.inl isOpen),time⟩
    · obtain rfl := onWaitedInj action
      exact ⟨_,openAppend.mpr (.inr ⟨rfl,rfl,rfl⟩),rfl⟩
  · rcases (joined e).mp mem with before | rfl
    · rcases (joined e').mp mem' with before' | rfl
      · exact kept.unique e before e' before' i action action'
      · exact absurd (onWaitedInj action' ▸ action) (fresh e before)
    · rcases (joined e').mp mem' with before' | rfl
      · exact absurd (onWaitedInj action ▸ action') (fresh e' before')
      · rfl
  · rcases openAppend.mp isOpen with before | ⟨rfl,rfl,-⟩
    · exact old.handlers i wait before
    · change w.waits.length ∈ (Function.update w.cancelers c _ c).OnCancel
      rw [Function.update_self]
      exact List.mem_append_right _ (List.mem_singleton_self _)
  · rcases openAppend.mp isOpen with before | ⟨rfl,rfl,-⟩
    · exact old.rest c' rest mem i wait before here
    · cases here
      exact absurd (old.canceled c rest mem) (by simp [still])
  · rcases openAppend.mp isOpen with before | ⟨rfl,rfl,-⟩
    · exact old.coming i wait before is
    · exact absurd is (by simp [still])
  · obtain ⟨inside,completed⟩ := kept.done i mem
    refine ⟨inside.trans_le (by simp),fun wait isOpen => ?_⟩
    rcases openAppend.mp isOpen with before | ⟨rfl,-⟩
    · exact completed wait before
    · exact Nat.lt_irrefl _ inside
  · rcases openAppend.mp isOpen with before | ⟨rfl,rfl,-⟩
    · exact (old.returned c' mem).2 i wait before here
    · cases here
      exact absurd (old.returned c mem).1 (by simp [still])
  · rcases List.mem_append.mp mem with before | new
    · exact kept.once wait before
    · rw [List.mem_singleton.mp new]
      rfl

theorem Kept.cancels (c : Nat) : Kept (w.Cancel c) := by
  have handlers (c' : Nat) : (Function.update w.cancelers c { w.cancelers c with IsCanceled := true } c').OnCancel =
      (w.cancelers c').OnCancel := by
    by_cases here : c' = c
    · subst here
      rw [Function.update_self]
    · rw [Function.update_of_ne here]
  have canceled (c' : Nat) : (Function.update w.cancelers c { w.cancelers c with IsCanceled := true } c').IsCanceled = true ↔
      c' = c ∨ (w.cancelers c').IsCanceled = true := by
    by_cases here : c' = c
    · subst here
      rw [Function.update_self]
      exact iff_of_true rfl (.inl rfl)
    · rw [Function.update_of_ne here]
      exact (or_iff_right here).symm
  refine { kept with
    handlers := fun i wait isOpen => ?_
    rest := fun c' rest mem i wait isOpen here => ?_
    canceled := fun c' rest mem => ?_
    coming := fun i wait isOpen is => ?_
    done := fun i mem => kept.done i ((List.mem_cons.mp mem).resolve_left nofun)
    returned := fun c' mem => ⟨(canceled c').mpr (.inr (kept.returned c' mem).1),(kept.returned c' mem).2⟩ }
  · rw [World.Cancel,World.setCanceler,handlers]
    exact kept.handlers i wait isOpen
  · rcases List.mem_cons.mp mem with same | old
    · cases same
      exact here ▸ kept.handlers i wait isOpen
    · exact kept.rest c' rest old i wait isOpen here
  · rcases List.mem_cons.mp mem with same | old
    · cases same
      exact (canceled c).mpr (.inl rfl)
    · exact (canceled c').mpr (.inr (kept.canceled c' rest old))
  · rcases (canceled wait.canceler).mp is with same | before
    · rw [same]
      exact ⟨_,List.mem_cons_self⟩
    · obtain ⟨rest,mem⟩ := kept.coming i wait isOpen before
      exact ⟨rest,List.mem_cons_of_mem _ mem⟩

theorem Kept.goes (ahead : HandlersAhead w .go) : Kept w.go := by
  unfold World.go
  split
  · split
    · exact kept
    · exact kept.begins (Scheduler.stepSound (.finish false) kept.sound trivial) (Scheduler.finishTurned _)
  · exact kept
  · rename_i i below stack
    obtain ⟨inside,completed⟩ := kept.done i (stack ▸ List.mem_cons_self)
    have unregistered : Kept (w.unregister i) ∧ (w.unregister i).stack = w.stack := by
      unfold World.unregister
      split
      · exact ⟨kept,rfl⟩
      · rename_i wait here
        refine ⟨kept.setCanceler _ _ rfl (fun j other isOpen same => ?_),rfl⟩
        refine (List.mem_erase_of_ne ?_).mpr (same ▸ kept.handlers j other isOpen)
        rintro rfl
        exact completed other isOpen
    obtain ⟨kept,same⟩ := unregistered
    rw [stack] at same
    refine { kept with
      rest := fun c rest mem => kept.rest c rest (same ▸ List.mem_cons_of_mem _ mem)
      canceled := fun c rest mem => kept.canceled c rest (same ▸ List.mem_cons_of_mem _ mem)
      coming := fun j wait isOpen is => ?_
      done := fun j mem => kept.done j (same ▸ List.mem_cons_of_mem _ mem) }
    obtain ⟨rest,mem⟩ := kept.coming j wait isOpen is
    rw [same] at mem
    exact ⟨rest,(List.mem_cons.mp mem).resolve_left (by nofun)⟩
  · rename_i c below stack
    have none (i : Nat) (wait : Wait) (isOpen : Open w.waits i wait) : wait.canceler ≠ c := fun here =>
      absurd (kept.rest c [] (stack ▸ List.mem_cons_self) i wait isOpen here) List.not_mem_nil
    have canceled := kept.canceled c [] (stack ▸ List.mem_cons_self)
    have emptied := kept.setCanceler c { w.cancelers c with OnCancel := [] } rfl
      (fun i wait isOpen here => absurd here (none i wait isOpen))
    refine { emptied with
      rest := fun c' rest mem => emptied.rest c' rest (stack ▸ List.mem_cons_of_mem _ mem)
      canceled := fun c' rest mem => emptied.canceled c' rest (stack ▸ List.mem_cons_of_mem _ mem)
      coming := fun i wait isOpen is => ?_
      done := fun i mem => emptied.done i (stack ▸ List.mem_cons_of_mem _ mem)
      returned := fun c' mem => ?_ }
    · obtain ⟨rest,mem⟩ := emptied.coming i wait isOpen is
      refine ⟨rest,(List.mem_cons.mp (stack ▸ mem)).resolve_left (fun same => ?_)⟩
      cases same
      exact none i wait isOpen rfl
    · rcases List.mem_cons.mp mem with rfl | old
      · refine ⟨?_,none⟩
        change (Function.update w.cancelers c' _ c').IsCanceled = true
        rw [Function.update_self]
        exact canceled
      · exact emptied.returned c' old
  · rename_i c i rest below stack
    have frame {f : Frame} (mem : f ∈ below) : f ∈ w.stack := stack ▸ List.mem_cons_of_mem _ mem
    have here : .cancel c (i :: rest) ∈ w.stack := stack ▸ List.mem_cons_self
    have remaining (c' : Nat) (rest' : List Nat) (mem : .cancel c' rest' ∈ .cancel c rest :: below) (j : Nat) (wait : Wait)
        (isOpen : Open w.waits j wait) (other : j ≠ i) (on : wait.canceler = c') : j ∈ rest' := by
      rcases List.mem_cons.mp mem with same | old
      · cases same
        exact (List.mem_cons.mp (kept.rest c _ here j wait isOpen on)).resolve_left other
      · exact kept.rest c' rest' (frame old) j wait isOpen on
    have canceled (c' : Nat) (rest' : List Nat) (mem : .cancel c' rest' ∈ .cancel c rest :: below) :
        (w.cancelers c').IsCanceled = true := by
      rcases List.mem_cons.mp mem with same | old
      · cases same
        exact kept.canceled c _ here
      · exact kept.canceled c' rest' (frame old)
    have coming (c' : Nat) (rest' : List Nat) (mem : .cancel c' rest' ∈ w.stack) :
        ∃ rest'',.cancel c' rest'' ∈ .cancel c rest :: below := by
      rcases List.mem_cons.mp (stack ▸ mem) with same | old
      · cases same
        exact ⟨rest,List.mem_cons_self⟩
      · exact ⟨rest',List.mem_cons_of_mem _ old⟩
    have done (j : Nat) (mem : .waited j ∈ .cancel c rest :: below) : .waited j ∈ w.stack :=
      frame ((List.mem_cons.mp mem).resolve_left nofun)
    unfold World.OnCancel
    split
    · rename_i none
      have absent (wait : Wait) (isOpen : Open w.waits i wait) : False := by cases none.symm.trans isOpen.1
      refine { kept with
        rest := fun c' rest' mem j wait isOpen => remaining c' rest' mem j wait isOpen ?_
        canceled
        coming := fun j wait isOpen is => ?_
        done := fun j mem => kept.done j (done j mem) }
      · rintro rfl
        exact absent wait isOpen
      · obtain ⟨rest',mem⟩ := kept.coming j wait isOpen is
        exact coming _ rest' mem
    · rename_i wait found
      have due := ahead rfl c i rest below wait stack found
      obtain ⟨sound,left⟩ := kept.unscheduled found due
      rw [if_pos due]
      exact kept.complete sound left remaining canceled coming (fun j mem => .inr (done j mem))

theorem Kept.step (e : Event) (ahead : HandlersAhead w e) : Kept (Waits.step w e) := by
  cases e with
  | tick now hostTime =>
    unfold Waits.step
    dsimp only
    split
    · rename_i quiet
      have idle : w.scheduler.phase = .idle := by
        simp only [World.quiet,Bool.and_eq_true,decide_eq_true_eq] at quiet
        exact quiet.2
      have ticked : w.scheduler.step (.tick now hostTime) = w.scheduler.Tick now hostTime := if_pos idle
      rw [ticked]
      exact kept.begins (Scheduler.tickSound idle kept.sound now hostTime) (Scheduler.tickTurned idle now hostTime)
    · exact kept
  | callIn hostTime =>
    unfold Waits.step
    dsimp only
    split
    · exact kept.scripts ((Scheduler.callInMeanwhile w.scheduler hostTime).sound kept.sound) (fun e i _ => Iff.rfl)
        (userFrames w.stack)
    · exact kept
  | waitUntil time c =>
    unfold Waits.step
    dsimp only
    split
    · exact kept.waitsUntil time c
    · exact kept
  | cancel c =>
    unfold Waits.step
    dsimp only
    split
    · exact kept.cancels c
    · exact kept
  | throwOnCancelation c value =>
    unfold Waits.step
    dsimp only
    split
    · exact kept.setCanceler c _ rfl (fun i wait isOpen here => here ▸ kept.handlers i wait isOpen)
    · exact kept
  | schedule action =>
    unfold Waits.step
    dsimp only
    split
    · have sound := Scheduler.stepSound (.schedule (some (scripted action))) kept.sound trivial
      refine kept.scripts sound (fun e i kind => ?_) (fun f _ => Iff.rfl)
      refine (kept.sound.joined sound rfl rfl rfl e).trans (or_iff_left ?_)
      rintro rfl
      exact scriptedNe action i kind
    · exact kept
  | scheduleAt action time =>
    unfold Waits.step
    dsimp only
    split
    · have sound := Scheduler.stepSound (.scheduleAt (some (scripted action)) time) kept.sound trivial
      obtain ⟨log,scheduled,unscheduled⟩ := Scheduler.scheduleAtJoins w.scheduler (scripted action) time
      refine kept.scripts sound (fun e i kind => ?_) (fun f _ => Iff.rfl)
      refine (kept.sound.joined sound log scheduled unscheduled e).trans (or_iff_left ?_)
      rintro rfl
      exact scriptedNe action i kind
    · exact kept
  | returns =>
    unfold Waits.step
    dsimp only
    split
    · rename_i running
      obtain ⟨below,stack⟩ := List.head?_eq_some_iff.mp (of_decide_eq_true running)
      refine kept.scripts kept.sound (fun e i _ => Iff.rfl) (fun f other => ?_)
      rw [stack]
      exact (userFrames below f other).symm
    · exact kept
  | go => exact kept.goes ahead

end

theorem throwsDue {w : World} {e : Event} (due : ¬ HandlersAhead w e) : (step w e).threw = true := by
  simp only [HandlersAhead,not_forall] at due
  obtain ⟨rfl,c,i,rest,below,wait,stack,found,late⟩ := due
  have thrown : step w .go = { w with stack := below, threw := true } := by
    change w.go = _
    unfold World.go
    rw [stack]
    change w.OnCancel i c rest below = _
    unfold World.OnCancel
    rw [found]
    exact if_neg late
  rw [thrown]

theorem cancelExact (events : List Event) :
    Throughout step Correct init events ↔ Along step HandlersAhead init events := by
  refine throughoutIffAlongKept Kept Correct (fun w e kept _ ahead => kept.step e ahead) (fun w e kept _ => ?_)
    initKept initKept.correct
  constructor
  · intro correct
    by_contra due
    exact absurd ((throwsDue due).symm.trans correct.silent) (by decide)
  · intro ahead
    exact (kept.step e ahead).correct

theorem dueCancelled : ¬ Throughout step Correct init [.callIn 0,.waitUntil 10 0,.returns,.callIn 20,.cancel 0,.go] := by
  intro correct
  exact absurd (throughoutLast correct).silent (by decide)

end Waits
end Citizen.Scripting
