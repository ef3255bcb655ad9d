import Citizen.Scripting.Scheduler

/-! Runs of the scheduler: nothing is lost or run twice, everything runs in the first update that
it is due in and in order, and the native side is told in time. -/
namespace Citizen.Scripting
open Agenda

structure Ran.First (times : List TimePoint) (p : Ran) : Prop where
  after : p.entry.since ≤ p.update
  due : ∃ now,times[p.update]? = some now ∧ p.entry.time ≤ now
  first : ∀ u,p.entry.since ≤ u → u < p.update → ∀ now,times[u]? = some now → now < p.entry.time

def Ran.Sooner (p q : Ran) : Prop :=
  p.update < q.update ∨ (p.update = q.update ∧
    match p.timed,q.timed with
    | false,false => p.entry.id < q.entry.id
    | false,true => True
    | true,false => False
    | true,true => Before Entry.id (p.entry.time,p.entry) (q.entry.time,q.entry))

theorem Ran.First.known {times : List TimePoint} {p : Ran} (first : p.First times) : p.update < times.length := by
  obtain ⟨now,found,-⟩ := first.due
  exact (List.getElem?_eq_some_iff.mp found).1

theorem Ran.First.append {times : List TimePoint} {p : Ran} (first : p.First times) (now : TimePoint) :
    p.First (times ++ [now]) := by
  have known := first.known
  have same (u : Nat) (le : u ≤ p.update) : (times ++ [now])[u]? = times[u]? :=
    List.getElem?_append_left (Nat.lt_of_le_of_lt le known)
  refine ⟨first.after,?_,fun u low high => ?_⟩
  · rw [same _ le_rfl]
    exact first.due
  · rw [same u high.le]
    exact first.first u low high

namespace Scheduler
variable {s : Scheduler}

def Waits (times : List TimePoint) (closed : Nat) (entry : Entry) : Prop :=
  entry.since ≤ times.length ∧
    ∀ u < closed,entry.since ≤ u → ∀ now,times[u]? = some now → now < entry.time

structure Common (s : Scheduler) (rest : List Entry) (closed : Nat) : Prop where
  clock : s.CurrentTime ≤ s.clock
  past : ∀ t ∈ s.times,t ≤ s.CurrentTime
  once : (s.log.map Ran.entry ++ s.unscheduled ++ (rest ++ s.s_nextFrame ++ s.s_queue.map Prod.snd)).Perm s.scheduled
  numbered : s.scheduled.map Entry.id = List.range s.scheduled.length
  since : ∀ entry ∈ s.s_nextFrame,entry.since = s.times.length ∧ entry.time ≤ s.CurrentTime
  inTurn : s.s_nextFrame.Pairwise (fun a b => a.id < b.id)
  sorted : s.s_queue.Pairwise (Before Entry.id)
  waits : ∀ n ∈ s.s_queue,n.1 = n.2.time ∧ Waits s.times closed n.2
  wake : s.s_nextFrame ≠ [] → s.m_scheduledTime = 0
  ran : ∀ p ∈ s.log,p.First s.times
  ordered : s.log.Pairwise Ran.Sooner
  quiet : s.threw = false

structure Entered (s : Scheduler) (timeNow : TimePoint) : Prop where
  last : s.times.getLast? = some timeNow
  later : ∀ n ∈ s.s_queue,n.2.since = s.times.length → timeNow < n.1

structure Coming (s : Scheduler) (timeNow : TimePoint) (rest : List Entry) : Prop where
  since : ∀ entry ∈ rest,entry.since + 1 = s.times.length ∧ entry.time ≤ timeNow
  inTurn : rest.Pairwise (fun a b => a.id < b.id)
  ran : ∀ p ∈ s.log,p.update + 1 = s.times.length → p.timed = false ∧ ∀ entry ∈ rest,p.entry.id < entry.id

structure Cached (s : Scheduler) (timeNow : TimePoint) (it : Option Node) : Prop where
  due : ∀ n ∈ s.s_queue,n.1 ≤ timeNow → ∃ c,it = some c ∧ (c = n ∨ Before Entry.id c n)
  there : ∀ c,it = some c → c.1 ≤ timeNow → c ∈ s.s_queue
  wake : ∀ n ∈ s.s_queue,s.m_scheduledTime ≤ n.1 ∨ ∃ c,it = some c ∧ c.1 ≤ n.1
  ran : ∀ p ∈ s.log,p.update + 1 = s.times.length → p.timed = true → ∀ n ∈ s.s_queue,n.1 ≤ timeNow →
    Before Entry.id (p.entry.time,p.entry) n

def Sound (s : Scheduler) : Prop :=
  match s.phase with
  | .idle => s.Common [] s.times.length ∧ ∀ n ∈ s.s_queue,s.m_scheduledTime ≤ n.1
  | .nextFrame timeNow rest => s.Common rest (s.times.length - 1) ∧ s.Entered timeNow ∧ s.Coming timeNow rest
  | .timed timeNow it => s.Common [] (s.times.length - 1) ∧ s.Entered timeNow ∧ s.Cached timeNow it

theorem Sound.ofIdle (idle : s.phase = .idle) (common : s.Common [] s.times.length)
    (told : ∀ n ∈ s.s_queue,s.m_scheduledTime ≤ n.1) : s.Sound := by
  unfold Sound
  rw [idle]
  exact ⟨common,told⟩

theorem Sound.idle (sound : s.Sound) (idle : s.phase = .idle) :
    s.Common [] s.times.length ∧ ∀ n ∈ s.s_queue,s.m_scheduledTime ≤ n.1 := by
  unfold Sound at sound
  rw [idle] at sound
  exact sound

theorem Sound.nextFrame {timeNow : TimePoint} {rest : List Entry} (sound : s.Sound) (here : s.phase = .nextFrame timeNow rest) :
    s.Common rest (s.times.length - 1) ∧ s.Entered timeNow ∧ s.Coming timeNow rest := by
  unfold Sound at sound
  rw [here] at sound
  exact sound

theorem Sound.timed {timeNow : TimePoint} {it : Option Node} (sound : s.Sound) (here : s.phase = .timed timeNow it) :
    s.Common [] (s.times.length - 1) ∧ s.Entered timeNow ∧ s.Cached timeNow it := by
  unfold Sound at sound
  rw [here] at sound
  exact sound

theorem initSound : init.Sound := by
  refine ⟨⟨le_rfl,nofun,.refl _,rfl,nofun,.nil,.nil,nofun,fun some => absurd rfl some,nofun,.nil,rfl⟩,nofun⟩

section Operations
variable {rest : List Entry} {closed : Nat}

theorem Common.older (common : s.Common rest closed) {entry : Entry}
    (mem : entry ∈ rest ++ s.s_nextFrame ++ s.s_queue.map Prod.snd) : entry.id < s.scheduled.length := by
  have known : entry ∈ s.scheduled := common.once.subset (List.mem_append_right _ mem)
  exact List.mem_range.mp (common.numbered ▸ List.mem_map_of_mem known)

theorem Common.oneMore (common : s.Common rest closed) (action : Nat) (time : TimePoint) {pending : List Entry}
    (joins : pending.Perm (rest ++ s.s_nextFrame ++ s.s_queue.map Prod.snd ++ [s.newEntry action time])) :
    (s.log.map Ran.entry ++ s.unscheduled ++ pending).Perm (s.scheduled ++ [s.newEntry action time]) ∧
    (s.scheduled ++ [s.newEntry action time]).map Entry.id =
      List.range (s.scheduled ++ [s.newEntry action time]).length := by
  constructor
  · refine (joins.append_left _).trans ?_
    rw [← List.append_assoc]
    exact common.once.append_right _
  · rw [List.map_append,common.numbered,List.length_append]
    exact List.range_succ.symm

theorem moved (old after : List Entry) {pending left : List Entry} {entry : Entry} (leaves : pending.Perm (entry :: left)) :
    (old ++ entry :: after ++ left).Perm (old ++ after ++ pending) := by
  refine List.Perm.trans ?_ (leaves.symm.append_left _)
  simp only [List.append_assoc,List.cons_append]
  refine List.Perm.append_left _ ?_
  exact List.perm_middle.symm

theorem requestTickLe (s : Scheduler) (time : TimePoint) :
    (s.RequestTick time).m_scheduledTime ≤ s.m_scheduledTime ∧ (s.RequestTick time).m_scheduledTime ≤ time := by
  unfold RequestTick
  dsimp only
  split
  · rename_i earlier
    exact ⟨earlier.le,le_rfl⟩
  · rename_i late
    exact ⟨le_rfl,not_lt.mp late⟩

theorem scheduleAtCases (s : Scheduler) (coroutine : Option Nat) (time : TimePoint) :
    (time ≤ s.CurrentTime ∧ s.ScheduleAt coroutine time = s.ScheduleNextFrame time coroutine) ∨
    s.ScheduleAt coroutine time = s ∨
    ∃ action m,s.CurrentTime < time ∧ s.ScheduleAt coroutine time = { s with
        s_queue := insertBefore s.s_queue (time,s.newEntry action time)
        scheduled := s.scheduled ++ [s.newEntry action time]
        m_scheduledTime := m } ∧
      m ≤ s.m_scheduledTime ∧ (m ≤ time ∨ ∃ it ∈ s.s_queue,it.1 ≤ time) := by
  unfold ScheduleAt
  split
  · rename_i past
    exact .inl ⟨past,rfl⟩
  · rename_i ahead
    cases coroutine with
    | none => exact .inr (.inl rfl)
    | some action =>
      have asks := requestTickLe s time
      refine .inr (.inr ?_)
      dsimp only
      split
      · exact ⟨action,_,not_le.mp ahead,rfl,asks.1,.inl asks.2⟩
      · rename_i it rest queue
        split
        · exact ⟨action,_,not_le.mp ahead,rfl,asks.1,.inl asks.2⟩
        · rename_i later
          exact ⟨action,_,not_le.mp ahead,rfl,le_rfl,.inr ⟨it,queue ▸ List.mem_cons_self,not_lt.mp later⟩⟩

theorem findNodeMem {coroutine : Nat} {time : TimePoint} {q : List Node} {it : Node}
    (found : findNode coroutine time q = some it) : it ∈ q ∧ it.2.action = coroutine := by
  induction q with
  | nil => cases found
  | cons first rest ih =>
    unfold findNode at found
    split at found
    · cases found
    · split at found
      · rename_i same
        cases found
        exact ⟨List.mem_cons_self,same⟩
      · exact ⟨List.mem_cons_of_mem _ (ih found).1,(ih found).2⟩

theorem unscheduleCases (s : Scheduler) (coroutine : Nat) (time : TimePoint) : s.Unschedule coroutine time = s ∨
    ∃ it ∈ s.s_queue,s.CurrentTime < time ∧ it.2.action = coroutine ∧ s.Unschedule coroutine time =
      { s with s_queue := s.s_queue.erase it, unscheduled := s.unscheduled ++ [it.2] } := by
  unfold Unschedule
  split
  · rename_i ahead
    split
    · exact .inl rfl
    · rename_i it found
      obtain ⟨mem,action⟩ := findNodeMem found
      exact .inr ⟨it,mem,ahead,action,rfl⟩
  · exact .inl rfl

theorem Common.callIn (common : s.Common rest closed) (hostTime : TimePoint) :
    (s.callIn hostTime).Common rest closed := by
  have ahead : s.CurrentTime ≤ (s.callIn hostTime).CurrentTime := common.clock.trans (le_max_left _ _)
  exact { common with
    clock := le_rfl
    past := fun t mem => (common.past t mem).trans ahead
    since := fun entry mem => ⟨(common.since entry mem).1,(common.since entry mem).2.trans ahead⟩ }

theorem Common.schedule (common : s.Common rest closed) (coroutine : Option Nat) {time : TimePoint}
    (past : time ≤ s.CurrentTime) : (s.ScheduleNextFrame time coroutine).Common rest closed := by
  cases coroutine with
  | none => exact common
  | some action =>
    have joins : (rest ++ (s.s_nextFrame ++ [s.newEntry action time]) ++ s.s_queue.map Prod.snd).Perm
        (rest ++ s.s_nextFrame ++ s.s_queue.map Prod.snd ++ [s.newEntry action time]) := by
      simp only [List.append_assoc]
      exact List.Perm.append_left _ (List.Perm.append_left _ List.perm_append_comm)
    obtain ⟨once,numbered⟩ := common.oneMore action time joins
    refine { common with once, numbered, since := ?_, inTurn := ?_, wake := fun _ => rfl }
    · intro entry mem
      rcases List.mem_append.mp mem with old | new
      · exact common.since entry old
      · exact List.mem_singleton.mp new ▸ ⟨rfl,past⟩
    · refine List.pairwise_append.mpr ⟨common.inTurn,List.pairwise_singleton _ _,fun entry mem new last => ?_⟩
      rw [List.mem_singleton.mp last]
      exact common.older (List.mem_append_left _ (List.mem_append_right _ mem))

theorem Common.insert (common : s.Common rest closed) (finished : closed ≤ s.times.length) (action : Nat)
    (time : TimePoint) {m : TimePoint} (less : m ≤ s.m_scheduledTime) : Common { s with
      s_queue := insertBefore s.s_queue (time,s.newEntry action time)
      scheduled := s.scheduled ++ [s.newEntry action time]
      m_scheduledTime := m } rest closed := by
  have joins : (rest ++ s.s_nextFrame ++ (insertBefore s.s_queue (time,s.newEntry action time)).map Prod.snd).Perm
      (rest ++ s.s_nextFrame ++ s.s_queue.map Prod.snd ++ [s.newEntry action time]) := by
    rw [List.append_assoc _ _ [s.newEntry action time]]
    refine List.Perm.append_left _ ?_
    exact ((insertBeforePerm _ _).map Prod.snd).trans (List.perm_append_singleton _ _).symm
  obtain ⟨once,numbered⟩ := common.oneMore action time joins
  refine { common with once, numbered, sorted := ?_, waits := ?_, wake := ?_ }
  · refine insertBeforeSorted common.sorted (fun n mem => ?_)
    exact common.older (List.mem_append_right _ (List.mem_map_of_mem mem))
  · intro n mem
    rcases memInsertBefore.mp mem with rfl | old
    · refine ⟨rfl,le_rfl,fun u high low => ?_⟩
      exact absurd (Nat.lt_of_lt_of_le high finished) (Nat.not_lt.mpr low)
    · exact common.waits n old
  · intro some
    exact le_antisymm (less.trans (common.wake some).le) (Fin.zero_le _)

theorem leavesQueue {it : Node} (mem : it ∈ s.s_queue) (before : List Entry) :
    (before ++ s.s_queue.map Prod.snd).Perm (it.2 :: (before ++ (s.s_queue.erase it).map Prod.snd)) :=
  (((List.perm_cons_erase mem).map Prod.snd).append_left before).trans List.perm_middle

theorem Common.erase (common : s.Common rest closed) {it : Node} (mem : it ∈ s.s_queue) : Common { s with
    s_queue := s.s_queue.erase it, unscheduled := s.unscheduled ++ [it.2] } rest closed := by
  refine { common with
    once := ?_
    sorted := common.sorted.sublist List.erase_sublist
    waits := fun n member => common.waits n (List.mem_of_mem_erase member) }
  refine List.Perm.trans ?_ common.once
  have out := moved (s.log.map Ran.entry ++ s.unscheduled) [] (leavesQueue mem (rest ++ s.s_nextFrame))
  simpa only [List.append_assoc,List.append_nil] using out

end Operations

structure Meanwhile (s s' : Scheduler) : Prop where
  phase : s'.phase = s.phase
  times : s'.times = s.times
  log : s'.log = s.log
  asked : s'.m_scheduledTime ≤ s.m_scheduledTime
  joined : ∀ n ∈ s'.s_queue,n ∈ s.s_queue ∨
    (s.CurrentTime < n.1 ∧ (s'.m_scheduledTime ≤ n.1 ∨ ∃ it ∈ s.s_queue,it.1 ≤ n.1))
  stays : ∀ timeNow c,s.phase = .timed timeNow (some c) → c.1 ≤ timeNow → c ∈ s.s_queue → c ∈ s'.s_queue
  common : ∀ rest closed,closed ≤ s.times.length → s.Common rest closed → s'.Common rest closed

section Meanwhile
variable {s' : Scheduler} {timeNow : TimePoint}

theorem Common.entered {rest : List Entry} {closed : Nat} (common : s.Common rest closed) (entered : s.Entered timeNow) :
    timeNow ≤ s.CurrentTime :=
  common.past timeNow (List.mem_of_getLast? entered.last)

theorem Meanwhile.refl (s : Scheduler) : s.Meanwhile s where
  phase := rfl
  times := rfl
  log := rfl
  asked := le_rfl
  joined _ mem := .inl mem
  stays _ _ _ _ mem := mem
  common _ _ _ common := common

section
variable (meanwhile : s.Meanwhile s') {rest : List Entry}
include meanwhile

theorem Meanwhile.waited {closed : Nat} (common : s.Common rest closed)
    (entered : s.Entered timeNow) {n : Node} (mem : n ∈ s'.s_queue) (due : n.1 ≤ timeNow) : n ∈ s.s_queue := by
  rcases meanwhile.joined n mem with old | ⟨ahead,-⟩
  · exact old
  · exact absurd (due.trans (common.entered entered)) (not_le.mpr ahead)

theorem Meanwhile.entered {closed : Nat} (common : s.Common rest closed)
    (entered : s.Entered timeNow) : s'.Entered timeNow := by
  refine ⟨meanwhile.times ▸ entered.last,fun n mem new => ?_⟩
  rw [meanwhile.times] at new
  by_contra due
  exact due (entered.later n (meanwhile.waited common entered mem (not_lt.mp due)) new)

theorem Meanwhile.coming (coming : s.Coming timeNow rest) : s'.Coming timeNow rest := by
  obtain ⟨since,inTurn,ran⟩ := coming
  rw [← meanwhile.times] at since ran
  rw [← meanwhile.log] at ran
  exact ⟨since,inTurn,ran⟩

theorem Meanwhile.cached {closed : Nat} (common : s.Common rest closed)
    (entered : s.Entered timeNow) {it : Option Node} (here : s.phase = .timed timeNow it)
    (cached : s.Cached timeNow it) : s'.Cached timeNow it where
  due n mem due := cached.due n (meanwhile.waited common entered mem due) due
  there c found due := by
    subst found
    exact meanwhile.stays timeNow c here due (cached.there c rfl due)
  wake n mem := by
    rcases meanwhile.joined n mem with old | ⟨-,early | ⟨first,old,early⟩⟩
    · exact (cached.wake n old).imp_left meanwhile.asked.trans
    · exact .inl early
    · rcases cached.wake first old with told | ⟨c,found,before⟩
      · exact .inl (meanwhile.asked.trans (told.trans early))
      · exact .inr ⟨c,found,before.trans early⟩
  ran p mem now timed n waits due := by
    rw [meanwhile.log] at mem
    rw [meanwhile.times] at now
    exact cached.ran p mem now timed n (meanwhile.waited common entered waits due) due

end

theorem Meanwhile.sound (meanwhile : s.Meanwhile s') (sound : s.Sound) : s'.Sound := by
  unfold Sound
  rw [meanwhile.phase,meanwhile.times]
  cases here : s.phase with
  | idle =>
    obtain ⟨common,told⟩ := sound.idle here
    refine ⟨meanwhile.common _ _ le_rfl common,fun n mem => ?_⟩
    rcases meanwhile.joined n mem with old | ⟨-,early | ⟨first,old,early⟩⟩
    · exact meanwhile.asked.trans (told n old)
    · exact early
    · exact meanwhile.asked.trans ((told first old).trans early)
  | nextFrame timeNow rest =>
    obtain ⟨common,entered,coming⟩ := sound.nextFrame here
    exact ⟨meanwhile.common _ _ (Nat.sub_le _ _) common,meanwhile.entered common entered,meanwhile.coming coming⟩
  | timed timeNow it =>
    obtain ⟨common,entered,cached⟩ := sound.timed here
    exact ⟨meanwhile.common _ _ (Nat.sub_le _ _) common,meanwhile.entered common entered,
      meanwhile.cached common entered here cached⟩

end Meanwhile

section Updates
variable {timeNow : TimePoint} {rest : List Entry}

theorem Common.close (common : s.Common [] (s.times.length - 1)) (entered : s.Entered timeNow)
    (later : ∀ n ∈ s.s_queue,timeNow < n.1) : s.Common [] s.times.length := by
  refine { common with waits := fun n mem => ?_ }
  obtain ⟨same,known,waits⟩ := common.waits n mem
  refine ⟨same,known,fun u low high now found => ?_⟩
  rcases Nat.lt_or_eq_of_le (Nat.le_sub_one_of_lt low) with before | last
  · exact waits u before high now found
  · have this : s.times[u]? = some timeNow := last ▸ List.getLast?_eq_getElem? ▸ entered.last
    cases this.symm.trans found
    exact same ▸ later n mem

theorem Common.asked {closed : Nat} (common : s.Common rest closed) (time : TimePoint) :
    (s.RequestTick time).Common rest closed :=
  { common with wake := fun some => le_antisymm ((requestTickLe s time).1.trans (common.wake some).le) (Fin.zero_le _) }

theorem headCached (sorted : s.s_queue.Pairwise (Before Entry.id))
    (ran : ∀ p ∈ s.log,p.update + 1 = s.times.length → p.timed = true → ∀ n ∈ s.s_queue,n.1 ≤ timeNow →
      Before Entry.id (p.entry.time,p.entry) n) : s.Cached timeNow s.s_queue.head? where
  due n mem _ := headFirst sorted mem
  there c found _ := List.mem_of_head? found
  wake n mem := by
    obtain ⟨c,found,first⟩ := headFirst sorted mem
    refine .inr ⟨c,found,?_⟩
    exact first.elim (fun same => same ▸ le_rfl) Before.le
  ran

theorem Entered.first (entered : s.Entered timeNow) {entry : Entry} {timed : Bool}
    (since : entry.since < s.times.length) (due : entry.time ≤ timeNow)
    (waits : ∀ u < s.times.length - 1,entry.since ≤ u → ∀ now,s.times[u]? = some now → now < entry.time) :
    Ran.First s.times ⟨entry,timed,s.times.length - 1⟩ where
  after := Nat.le_sub_one_of_lt since
  due := ⟨timeNow,List.getLast?_eq_getElem? ▸ entered.last,due⟩
  first u low high now found := waits u high low now found

theorem Common.sooner {closed : Nat} (common : s.Common rest closed) {p : Ran} (now : p.update = s.times.length - 1)
    (after : ∀ q ∈ s.log,q.update + 1 = s.times.length → q.Sooner p) : (s.log ++ [p]).Pairwise Ran.Sooner := by
  refine List.pairwise_append.mpr ⟨common.ordered,List.pairwise_singleton _ _,fun q mem last only => ?_⟩
  rw [List.mem_singleton.mp only]
  have known := (common.ran q mem).known
  rcases Nat.lt_or_eq_of_le (Nat.le_sub_one_of_lt known) with before | same
  · exact .inl (now ▸ before)
  · exact after q mem (by omega)

theorem runDueSound {it : Node} (common : s.Common [] (s.times.length - 1)) (entered : s.Entered timeNow)
    (cached : s.Cached timeNow (some it)) (due : it.1 ≤ timeNow) : Sound
      (run { s with s_queue := s.s_queue.erase it } it.2 true (.timed timeNow (s.s_queue.erase it).head?)) := by
  have mem := cached.there it rfl due
  obtain ⟨same,known,waits⟩ := common.waits it mem
  have pair : it = (it.2.time,it.2) := Prod.ext same rfl
  have since : it.2.since < s.times.length := by
    refine Nat.lt_of_le_of_ne known (fun new => ?_)
    exact absurd due (not_le.mpr (entered.later it mem new))
  have sorted := common.sorted.sublist (List.erase_sublist (a := it))
  have first (n : Node) (left : n ∈ s.s_queue.erase it) (due : n.1 ≤ timeNow) : Before Entry.id it n := by
    obtain ⟨c,found,first⟩ := cached.due n (List.mem_of_mem_erase left) due
    cases found
    rcases first with same | before
    · exact absurd same ((sortedNodup common.sorted).mem_erase_iff.mp left).1.symm
    · exact before
  refine ⟨?_,⟨entered.last,fun n left => entered.later n (List.mem_of_mem_erase left)⟩,headCached sorted ?_⟩
  · refine { common with once := ?_, sorted, waits := ?_, ran := ?_, ordered := ?_ }
    · refine List.Perm.trans ?_ common.once
      have out := moved (s.log.map Ran.entry) s.unscheduled (leavesQueue mem ([] ++ s.s_nextFrame))
      simpa [run] using out
    · exact fun n left => common.waits n (List.mem_of_mem_erase left)
    · intro p ran
      rcases List.mem_append.mp ran with old | new
      · exact common.ran p old
      · rw [List.mem_singleton.mp new]
        exact entered.first since (same ▸ due) waits
    · refine common.sooner rfl (fun q old now => .inr ⟨Nat.eq_sub_of_add_eq now,?_⟩)
      cases kind : q.timed with
      | false => trivial
      | true =>
        have before := cached.ran q old now kind it mem due
        exact pair ▸ before
  · intro p ran now timed n left due
    rcases List.mem_append.mp ran with old | new
    · exact cached.ran p old now timed n (List.mem_of_mem_erase left) due
    · rw [List.mem_singleton.mp new]
      exact pair ▸ first n left due

theorem runTimedSound {it : Option Node} (common : s.Common [] (s.times.length - 1)) (entered : s.Entered timeNow)
    (cached : s.Cached timeNow it) : (s.runTimed timeNow it).Sound := by
  cases it with
  | none =>
    have later (n : Node) (mem : n ∈ s.s_queue) : timeNow < n.1 := by
      by_contra due
      obtain ⟨c,none,-⟩ := cached.due n mem (not_lt.mp due)
      cases none
    refine Sound.ofIdle rfl { common.close entered later with } (fun n mem => ?_)
    rcases cached.wake n mem with told | ⟨c,none,-⟩
    · exact told
    · cases none
  | some it =>
    by_cases due : it.1 ≤ timeNow
    · rw [runTimed,if_pos due,if_pos (cached.there it rfl due)]
      exact runDueSound common entered cached due
    · rw [runTimed,if_neg due]
      have later (n : Node) (mem : n ∈ s.s_queue) : timeNow < n.1 := by
        by_contra late
        obtain ⟨c,found,first⟩ := cached.due n mem (not_lt.mp late)
        cases found
        exact due ((first.elim (fun same => same ▸ le_rfl) Before.le).trans (not_lt.mp late))
      obtain ⟨less,early⟩ := requestTickLe s it.1
      refine Sound.ofIdle rfl { (common.close entered later).asked it.1 with } (fun n mem => ?_)
      rcases cached.wake n mem with told | ⟨c,found,before⟩
      · exact less.trans told
      · cases found
        exact early.trans before

theorem runNextFrameSound (common : s.Common rest (s.times.length - 1)) (entered : s.Entered timeNow)
    (coming : s.Coming timeNow rest) : (s.runNextFrame timeNow rest).Sound := by
  cases rest with
  | nil =>
    refine runTimedSound common entered (headCached common.sorted ?_)
    intro p ran now timed
    cases timed.symm.trans (coming.ran p ran now).1
  | cons entry rest =>
    obtain ⟨before,inTurn⟩ := List.pairwise_cons.mp coming.inTurn
    obtain ⟨since,due⟩ := coming.since entry List.mem_cons_self
    refine ⟨?_,⟨entered.last,entered.later⟩,?_⟩
    · refine { common with once := ?_, ran := ?_, ordered := ?_ }
      · refine List.Perm.trans ?_ common.once
        have out := moved (s.log.map Ran.entry) s.unscheduled
          (List.Perm.refl (entry :: (rest ++ s.s_nextFrame ++ s.s_queue.map Prod.snd)))
        simpa [runNextFrame,run] using out
      · intro p ran
        rcases List.mem_append.mp ran with old | new
        · exact common.ran p old
        · rw [List.mem_singleton.mp new]
          refine entered.first (Nat.lt_of_succ_le since.le) due (fun u low high => ?_)
          omega
      · refine common.sooner rfl (fun q old now => .inr ⟨Nat.eq_sub_of_add_eq now,?_⟩)
        obtain ⟨untimed,earlier⟩ := coming.ran q old now
        rw [untimed]
        exact earlier entry List.mem_cons_self
    · refine ⟨fun later mem => coming.since later (List.mem_cons_of_mem _ mem),inTurn,fun p ran now => ?_⟩
      rcases List.mem_append.mp ran with old | new
      · obtain ⟨untimed,earlier⟩ := coming.ran p old now
        exact ⟨untimed,fun later mem => earlier later (List.mem_cons_of_mem _ mem)⟩
      · rw [List.mem_singleton.mp new]
        exact ⟨rfl,before⟩

theorem updateSound (common : s.Common [] s.times.length) (m : TimePoint) :
    (Update { s with m_scheduledTime := m }).Sound := by
  have length : (s.times ++ [s.CurrentTime]).length = s.times.length + 1 := List.length_append
  refine runNextFrameSound ?_ ⟨List.getLast?_concat,fun n mem new => ?_⟩ ⟨?_,common.inTurn,?_⟩
  · refine { common with
      past := ?_
      once := ?_
      since := nofun
      inTurn := .nil
      waits := ?_
      wake := fun some => absurd rfl some
      ran := ?_ }
    · intro t mem
      rcases List.mem_append.mp mem with old | new
      · exact common.past t old
      · exact (List.mem_singleton.mp new).le
    · simpa using common.once
    · intro n mem
      obtain ⟨same,known,waits⟩ := common.waits n mem
      refine ⟨same,known.trans (by simp),fun u low high now found => ?_⟩
      have earlier : u < s.times.length := by simpa using low
      exact waits u earlier high now (List.getElem?_append_left earlier ▸ found)
    · exact fun p ran => (common.ran p ran).append _
  · have known := (common.waits n mem).2.1
    have new : n.2.since = s.times.length + 1 := new.trans length
    omega
  · intro entry mem
    obtain ⟨since,due⟩ := common.since entry mem
    exact ⟨(congrArg (· + 1) since).trans length.symm,due⟩
  · intro p ran now
    have known := (common.ran p ran).known
    have now : p.update + 1 = s.times.length + 1 := now.trans length
    omega

end Updates

section Steps

theorem callInMeanwhile (s : Scheduler) (hostTime : TimePoint) : s.Meanwhile (s.callIn hostTime) where
  phase := rfl
  times := rfl
  log := rfl
  asked := le_rfl
  joined _ mem := .inl mem
  stays _ _ _ _ mem := mem
  common _ _ _ common := common.callIn hostTime

theorem scheduleMeanwhile (coroutine : Option Nat) {time : TimePoint} (past : time ≤ s.CurrentTime) :
    s.Meanwhile (s.ScheduleNextFrame time coroutine) := by
  cases coroutine with
  | none => exact .refl s
  | some action =>
    refine ⟨rfl,rfl,rfl,Fin.zero_le _,fun _ mem => .inl mem,fun _ _ _ _ mem => mem,fun _ _ _ common => ?_⟩
    exact common.schedule (some action) past

theorem scheduleAtMeanwhile (s : Scheduler) (coroutine : Option Nat) (time : TimePoint) :
    s.Meanwhile (s.ScheduleAt coroutine time) := by
  rcases scheduleAtCases s coroutine time with ⟨past,same⟩ | same | ⟨action,m,ahead,same,less,asked⟩
  · rw [same]
    exact scheduleMeanwhile coroutine past
  · rw [same]
    exact .refl s
  · rw [same]
    refine ⟨rfl,rfl,rfl,less,fun n mem => ?_,fun _ _ _ _ mem => memInsertBefore.mpr (.inr mem),fun _ _ finished common => ?_⟩
    · rcases memInsertBefore.mp mem with rfl | old
      · exact .inr ⟨ahead,asked⟩
      · exact .inl old
    · exact common.insert finished action time less

def SparesNext (s : Scheduler) : Event → Prop
  | .unschedule coroutine time => ∀ timeNow it,s.phase = .timed timeNow (some it) → it.1 ≤ timeNow →
      s.CurrentTime < time → it.2.action ≠ coroutine
  | _ => True

theorem unscheduleMeanwhile {coroutine : Nat} {time : TimePoint} (spares : s.SparesNext (.unschedule coroutine time)) :
    s.Meanwhile (s.Unschedule coroutine time) := by
  rcases unscheduleCases s coroutine time with same | ⟨it,mem,ahead,action,same⟩
  · rw [same]
    exact .refl s
  · rw [same]
    refine ⟨rfl,rfl,rfl,le_rfl,fun n left => .inl (List.mem_of_mem_erase left),?_,fun _ _ _ common => common.erase mem⟩
    intro timeNow c here due there
    refine (List.mem_erase_of_ne ?_).mpr there
    rintro rfl
    exact spares timeNow c here due ahead action

theorem tickSound (idle : s.phase = .idle) (sound : s.Sound) (now hostTime : TimePoint) : (s.Tick now hostTime).Sound := by
  obtain ⟨common,told⟩ := sound.idle idle
  have common : Common { s with clock := max s.clock now } [] s.times.length :=
    { common with clock := common.clock.trans (le_max_left _ _) }
  unfold Tick
  split
  · exact Sound.ofIdle idle common told
  · exact updateSound (common.callIn hostTime) never

theorem stepSound (event : Event) (sound : s.Sound) (spares : s.SparesNext event) : (s.step event).Sound := by
  cases event with
  | callIn hostTime => exact (callInMeanwhile s hostTime).sound sound
  | schedule coroutine => exact (scheduleMeanwhile coroutine (Fin.zero_le _)).sound sound
  | scheduleAt coroutine time => exact (scheduleAtMeanwhile s coroutine time).sound sound
  | unschedule coroutine time => exact (unscheduleMeanwhile spares).sound sound
  | finish threw =>
    unfold step finish
    cases here : s.phase with
    | idle => exact sound
    | nextFrame timeNow rest =>
      obtain ⟨common,entered,coming⟩ := sound.nextFrame here
      exact runNextFrameSound common entered coming
    | timed timeNow it =>
      obtain ⟨common,entered,cached⟩ := sound.timed here
      exact runTimedSound common entered cached
  | tick now hostTime =>
    unfold step
    dsimp only
    split
    · rename_i idle
      exact tickSound idle sound now hostTime
    · exact sound

end Steps

section Runs

def closed (s : Scheduler) : Nat :=
  match s.phase with
  | .idle => s.times.length
  | _ => s.times.length - 1

/-- Each scheduled entry was run, in the first update for it and in order, was unscheduled or waits, and has missed no update that is over. -/
structure Kept (s : Scheduler) : Prop where
  once : (s.log.map Ran.entry ++ s.unscheduled ++ s.pending).Perm s.scheduled
  numbered : s.scheduled.map Entry.id = List.range s.scheduled.length
  ran : ∀ p ∈ s.log,p.First s.times
  ordered : s.log.Pairwise Ran.Sooner
  waits : ∀ entry ∈ s.pending,Waits s.times s.closed entry
  quiet : s.threw = false
  told : s.phase = .idle → (s.s_nextFrame ≠ [] → s.m_scheduledTime = 0) ∧ ∀ n ∈ s.s_queue,s.m_scheduledTime ≤ n.2.time

def Heard (s : Scheduler) : Event → Prop
  | .tick now hostTime => s.phase = .idle → ∀ entry ∈ s.pending,entry.time ≤ max s.clock now →
      (s.Tick now hostTime).times = s.times ++ [max (max s.clock now) hostTime]
  | _ => True

theorem waitsSince {entry : Entry} {times : List TimePoint} {closed : Nat} (known : entry.since ≤ times.length)
    (last : closed ≤ entry.since) : Waits times closed entry :=
  ⟨known,fun _ low high => absurd (Nat.lt_of_lt_of_le low last) (Nat.not_lt.mpr high)⟩

theorem Sound.common (sound : s.Sound) : s.Common s.coming s.closed := by
  unfold coming closed
  cases here : s.phase with
  | idle => exact (sound.idle here).1
  | nextFrame timeNow rest => exact (sound.nextFrame here).1
  | timed timeNow it => exact (sound.timed here).1

theorem Sound.comingSince (sound : s.Sound) {entry : Entry} (mem : entry ∈ s.coming) : entry.since + 1 = s.times.length := by
  unfold coming at mem
  cases here : s.phase with
  | idle =>
    rw [here] at mem
    cases mem
  | nextFrame timeNow rest =>
    rw [here] at mem
    exact ((sound.nextFrame here).2.2.since entry mem).1
  | timed timeNow it =>
    rw [here] at mem
    cases mem

theorem closedLe (s : Scheduler) : s.closed ≤ s.times.length := by
  unfold closed
  split
  · exact le_rfl
  · exact Nat.sub_le _ _

theorem Sound.waits (sound : s.Sound) {entry : Entry} (mem : entry ∈ s.pending) : Waits s.times s.closed entry := by
  rcases List.mem_append.mp mem with frame | queued
  · rcases List.mem_append.mp frame with coming | next
    · have since := sound.comingSince coming
      refine waitsSince (by omega) ?_
      unfold closed
      split
      · rename_i idle
        simp [Scheduler.coming,idle] at coming
      · omega
    · have since := (sound.common.since entry next).1
      exact waitsSince since.le (since ▸ closedLe s)
  · obtain ⟨n,there,rfl⟩ := List.mem_map.mp queued
    exact (sound.common.waits n there).2

theorem Sound.kept (sound : s.Sound) : s.Kept where
  once := sound.common.once
  numbered := sound.common.numbered
  ran := sound.common.ran
  ordered := sound.common.ordered
  waits _ := sound.waits
  quiet := sound.common.quiet
  told idle := by
    refine ⟨sound.common.wake,fun n mem => ?_⟩
    rw [← (sound.common.waits n mem).1]
    exact (sound.idle idle).2 n mem

theorem runTimedTimes (s : Scheduler) (timeNow : TimePoint) (it : Option Node) :
    (s.runTimed timeNow it).times = s.times := by
  unfold runTimed
  split
  · rfl
  · split
    · split <;> rfl
    · rfl

theorem updateTimes (s : Scheduler) : s.Update.times = s.times ++ [s.CurrentTime] := by
  unfold Update runNextFrame
  split
  · exact runTimedTimes _ _ _
  · rfl

theorem Sound.heard (sound : s.Sound) (event : Event) : s.Heard event := by
  cases event with
  | tick now hostTime =>
    intro idle entry mem due
    have early : s.m_scheduledTime ≤ max s.clock now := by
      have waits : entry ∈ s.s_nextFrame ++ s.s_queue.map Prod.snd := by
        simpa [pending,coming,idle] using mem
      obtain ⟨next,told⟩ := sound.kept.told idle
      rcases List.mem_append.mp waits with frame | queued
      · exact (next (List.ne_nil_of_mem frame)).le.trans (Fin.zero_le _)
      · obtain ⟨n,there,rfl⟩ := List.mem_map.mp queued
        exact (told n there).trans due
    unfold Tick
    rw [if_neg (not_lt.mpr early),updateTimes]
    rfl
  | _ => trivial

theorem runsInTime (events : List Event) (spares : Along step SparesNext init events) :
    Throughout step Kept init events ∧ Along step Heard init events := by
  constructor
  · refine throughoutMono (fun s => Sound.kept) (throughoutOfKept Sound ?_ initSound spares)
    exact fun s event sound spares => stepSound event sound spares
  · refine alongOfKept Sound (fun s event sound spares => ?_) initSound spares
    exact ⟨stepSound event sound spares,sound.heard event⟩

theorem sparingRun : Throughout step Kept init
      [.schedule (some 0),.scheduleAt (some 1) 10,.scheduleAt (some 2) 20,.tick 10 10,.finish true,.unschedule 2 20,.finish false] ∧
    Along step Heard init
      [.schedule (some 0),.scheduleAt (some 1) 10,.scheduleAt (some 2) 20,.tick 10 10,.finish true,.unschedule 2 20,.finish false] := by
  refine runsInTime _ ⟨trivial,trivial,trivial,trivial,trivial,?_,trivial,trivial⟩
  intro timeNow it here due
  cases here
  exact absurd due (by decide)

theorem nextUnscheduled : ¬ ∀ events,Throughout step Kept init events ∧ Along step Heard init events := by
  intro all
  obtain ⟨kept,heard⟩ := all [.scheduleAt (some 0) 10,.scheduleAt (some 1) 10,.scheduleAt (some 2) 10,.tick 10 10,
    .unschedule 1 11,.finish false,.tick 1000 1000]
  exact absurd (throughoutLast kept).quiet (by decide)

theorem sparesOwnTime (sound : s.Sound) {coroutine : Nat} {time : TimePoint}
    (own : ∀ n ∈ s.s_queue,n.2.action = coroutine → n.1 = time) : s.SparesNext (.unschedule coroutine time) := by
  intro timeNow it here due ahead action
  obtain ⟨common,entered,cached⟩ := sound.timed here
  have same := own it (cached.there it rfl due) action
  exact absurd (same ▸ due) (not_le.mpr ((common.entered entered).trans_lt ahead))

end Runs

end Scheduler
end Citizen.Scripting
