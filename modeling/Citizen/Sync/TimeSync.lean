import Mathlib.Tactic.Ring

/-! `netTimeSync`: how a client finds out by how much the clock of the server is ahead of its own. -/
namespace Citizen.Sync.TimeSync

structure NetTimeSync where
  m_timeDelta : BitVec 32
  m_nextSync : BitVec 32
  m_configMaxBackoff : BitVec 32
  m_effectiveTimeBetweenSyncs : BitVec 32
  m_lastRtt : BitVec 32
  m_retryCount : BitVec 32
  m_requestSequence : BitVec 32
  m_replySequence : BitVec 32
  m_lastTime : BitVec 32
  m_applyFlags : BitVec 8
  m_disabled : Bool
  deriving DecidableEq

structure TimeSyncRequest where
  requestTime : BitVec 32
  requestSequence : BitVec 32
  deriving DecidableEq

structure TimeSyncResponse where
  request : TimeSyncRequest
  serverTimeMillis : BitVec 32

def Update (serialized : Bool) (time : BitVec 32) (s : NetTimeSync) : NetTimeSync × Option TimeSyncRequest :=
  if s.m_disabled then (s,none)
  else if s.m_nextSync = 0 ∨ 0 ≤ (time - s.m_nextSync).toInt then
    let s := { s with m_requestSequence := s.m_requestSequence + 1 }
    if serialized then
      ({ s with m_nextSync := (time + s.m_effectiveTimeBetweenSyncs) ||| 1 },some ⟨time,s.m_requestSequence⟩)
    else (s,none)
  else (s,none)

def retry (s : NetTimeSync) : NetTimeSync := { s with m_nextSync := 0,m_retryCount := s.m_retryCount + 1 }

def accept (time timeDelta reqSequence : BitVec 32) (s : NetTimeSync) : NetTimeSync :=
  { s with
    m_timeDelta := timeDelta
    m_replySequence := reqSequence
    m_effectiveTimeBetweenSyncs :=
      if s.m_effectiveTimeBetweenSyncs < s.m_configMaxBackoff then
        if s.m_effectiveTimeBetweenSyncs * 2 < s.m_configMaxBackoff then s.m_effectiveTimeBetweenSyncs * 2
        else s.m_configMaxBackoff
      else s.m_effectiveTimeBetweenSyncs
    m_retryCount := 0
    m_lastTime := if s.m_applyFlags &&& 4 = 0 then timeDelta + time else s.m_lastTime
    m_applyFlags := s.m_applyFlags ||| 7 }

def within (rtt : BitVec 32) (s : NetTimeSync) : Option Bool :=
  if rtt ≤ 100 then some true
  else if s.m_lastRtt = 0 then none
  else some (decide (rtt / s.m_lastRtt < 2) || decide (10 ≤ s.m_retryCount))

def HandleTimeSync (time time' time'' : BitVec 32) (packet : TimeSyncResponse) (s : NetTimeSync) : Option NetTimeSync :=
  if s.m_disabled then some s
  else if (packet.request.requestSequence - s.m_replySequence).toInt ≤ 0 then some s
  else
    let rtt := time - packet.request.requestTime
    if rtt.toInt ≤ 0 then some s
    else
      let timeDelta := packet.serverTimeMillis + rtt / 2 - time'
      if rtt ≤ 300 ∨ 10 ≤ s.m_retryCount then
        let s := if s.m_lastRtt = 0 then { s with m_lastRtt := rtt } else s
        (within rtt s).map (fun near =>
          let s := if near then accept time'' timeDelta packet.request.requestSequence s else retry s
          { s with m_lastRtt := (rtt + s.m_lastRtt) / 2 })
      else some (retry s)

inductive Outcome (time time' : BitVec 32) (packet : TimeSyncResponse) (s s' : NetTimeSync) : Prop where
  | ignored (same : s' = s)
  | refused (newer : 0 < (packet.request.requestSequence - s.m_replySequence).toInt) (delta : s'.m_timeDelta = s.m_timeDelta)
      (reply : s'.m_replySequence = s.m_replySequence)
  | accepted (newer : 0 < (packet.request.requestSequence - s.m_replySequence).toInt)
      (passed : 0 < (time - packet.request.requestTime).toInt)
      (delta : s'.m_timeDelta = packet.serverTimeMillis + (time - packet.request.requestTime) / 2 - time')
      (reply : s'.m_replySequence = packet.request.requestSequence)

theorem handles (time time' time'' : BitVec 32) (packet : TimeSyncResponse) (s : NetTimeSync) :
    ∃ s', HandleTimeSync time time' time'' packet s = some s' ∧ s'.m_requestSequence = s.m_requestSequence ∧
      Outcome time time' packet s s' := by
  unfold HandleTimeSync
  split
  · exact ⟨s,rfl,rfl,.ignored rfl⟩
  split
  · exact ⟨s,rfl,rfl,.ignored rfl⟩
  rename_i newer
  dsimp only
  split
  · exact ⟨s,rfl,rfl,.ignored rfl⟩
  rename_i passed
  split
  · generalize averaged : (if s.m_lastRtt = 0 then { s with m_lastRtt := time - packet.request.requestTime } else s) = t
    have kept : t.m_timeDelta = s.m_timeDelta ∧ t.m_replySequence = s.m_replySequence ∧ t.m_requestSequence = s.m_requestSequence := by
      subst averaged
      split
      · exact ⟨rfl,rfl,rfl⟩
      · exact ⟨rfl,rfl,rfl⟩
    -- an average of zero has been replaced by a round trip time that is not
    have divisor : t.m_lastRtt ≠ 0 := by
      subst averaged
      split
      · intro zero
        change time - packet.request.requestTime = 0 at zero
        rw [zero] at passed
        exact passed (by decide)
      · assumption
    obtain ⟨near,found⟩ : ∃ near, within (time - packet.request.requestTime) t = some near := by
      unfold within
      split
      · exact ⟨true,rfl⟩
      · exact ⟨_,rfl⟩
    rw [found]
    cases near with
    | true => exact ⟨_,rfl,kept.2.2,.accepted (Int.not_le.mp newer) (Int.not_le.mp passed) rfl rfl⟩
    | false => exact ⟨_,rfl,kept.2.2,.refused (Int.not_le.mp newer) kept.1 kept.2.1⟩
  · exact ⟨retry s,rfl,rfl,.refused (Int.not_le.mp newer) rfl rfl⟩

theorem deltaError (offset : BitVec 32) (sent out back : Nat) (short : out + back < 2 ^ 31) :
    BitVec.ofNat 32 (sent + out) + offset + (BitVec.ofNat 32 (sent + out + back) - BitVec.ofNat 32 sent) / 2 -
      BitVec.ofNat 32 (sent + out + back) = offset + BitVec.ofInt 32 (((out + back) / 2 : Nat) - (back : Nat)) := by
  have trip : BitVec.ofNat 32 (sent + out + back) - BitVec.ofNat 32 sent = BitVec.ofNat 32 (out + back) := by
    rw [Nat.add_assoc,BitVec.ofNat_add,BitVec.add_comm,BitVec.add_sub_cancel]
  have half : BitVec.ofNat 32 (out + back) / 2 = BitVec.ofNat 32 ((out + back) / 2) := by
    have whole : (BitVec.ofNat 32 (out + back)).toNat = out + back := by
      rw [BitVec.toNat_ofNat,Nat.mod_eq_of_lt (by omega)]
    have two : (2 : BitVec 32).toNat = 2 := by decide
    refine BitVec.eq_of_toNat_eq ?_
    rw [BitVec.toNat_udiv,whole,two,BitVec.toNat_ofNat,Nat.mod_eq_of_lt (by omega)]
  have error : BitVec.ofInt 32 (((out + back) / 2 : Nat) - (back : Nat)) =
      BitVec.ofNat 32 ((out + back) / 2) - BitVec.ofNat 32 back := by
    rw [Int.sub_eq_add_neg,BitVec.ofInt_add,BitVec.ofInt_neg,BitVec.ofInt_natCast,BitVec.ofInt_natCast,← BitVec.sub_eq_add_neg]
  rw [trip,half,error,BitVec.ofNat_add (sent + out)]
  grind

structure Sent where
  number : Nat
  ms : Nat
  request : TimeSyncRequest

/-- A client at a millisecond of its own, how many requests it has made, those that it has sent, and the one whose response it
has accepted last, with the round trip time. -/
structure World where
  sync : NetTimeSync
  now : Nat
  made : Nat
  sent : List Sent
  last : Option (Sent × Nat)

def clock (ms : Nat) : BitVec 32 := BitVec.ofNat 32 ms

def answer (offset : BitVec 32) (request : TimeSyncRequest) (ms : Nat) : TimeSyncResponse := ⟨request,clock ms + offset⟩

def World.update (serialized : Bool) (w : World) : World :=
  let (sync,request) := Update serialized (clock w.now) w.sync
  let made := if sync.m_requestSequence ≠ w.sync.m_requestSequence then w.made + 1 else w.made
  { w with sync,made,sent := w.sent ++ (request.map (fun request => ⟨made,w.now,request⟩)).toList }

def World.respond (offset : BitVec 32) (r : Sent) (out back : Nat) (w : World) : Option World :=
  (HandleTimeSync (clock w.now) (clock w.now) (clock w.now) (answer offset r.request (r.ms + out)) w.sync).map (fun sync =>
    { w with sync,last := if sync.m_replySequence ≠ w.sync.m_replySequence then some (r,out + back) else w.last })

inductive Step (offset : BitVec 32) (w : World) : World → Prop where
  | pass (ms : Nat) : Step offset w { w with now := w.now + ms }
  | update (serialized : Bool) : Step offset w (w.update serialized)
  | respond {r out back w'} (sent : r ∈ w.sent) (shortOut : out < 2 ^ 30) (shortBack : back < 2 ^ 30)
      (arrives : r.ms + out + back = w.now) (handled : w.respond offset r out back = some w') : Step offset w w'

inductive Reach (offset : BitVec 32) (w : World) : World → Prop where
  | refl : Reach offset w w
  | tail {u v} (run : Reach offset w u) (step : Step offset u v) : Reach offset w v

def Near (offset : BitVec 32) (trip : Nat) (delta : BitVec 32) : Prop :=
  ∃ error : Int, delta = offset + BitVec.ofInt 32 error ∧ error.natAbs ≤ trip / 2 + 1

structure Stamped (first : BitVec 32) (r : Sent) : Prop where
  time : r.request.requestTime = clock r.ms
  sequence : r.request.requestSequence = first + clock r.number

structure Synchronised (first offset : BitVec 32) (w : World) : Prop where
  made : w.sync.m_requestSequence = first + clock w.made
  stamped : ∀ r ∈ w.sent, Stamped first r
  reply : ∀ r trip, w.last = some (r,trip) → w.sync.m_replySequence = first + clock r.number
  near : ∀ r trip, w.last = some (r,trip) → Near offset trip w.sync.m_timeDelta

inductive Updated (time : BitVec 32) (s s' : NetTimeSync) (request : Option TimeSyncRequest) : Prop where
  | nothing (same : s' = s) (none : request = none)
  | made (sequence : s'.m_requestSequence = s.m_requestSequence + 1) (delta : s'.m_timeDelta = s.m_timeDelta)
      (reply : s'.m_replySequence = s.m_replySequence) (content : ∀ r ∈ request, r = ⟨time,s.m_requestSequence + 1⟩)

theorem updates (serialized : Bool) (time : BitVec 32) (s : NetTimeSync) :
    Updated time s (Update serialized time s).1 (Update serialized time s).2 := by
  unfold Update
  split
  · exact .nothing rfl rfl
  split
  · cases serialized with
    | true => exact .made rfl rfl rfl (fun r same => (Option.some.inj same).symm)
    | false => exact .made rfl rfl rfl (fun r none => by cases none)
  · exact .nothing rfl rfl

section
variable {first offset : BitVec 32} {w w' : World} {r : Sent} {out back : Nat}

theorem answerNear {s s' : NetTimeSync} (stamped : Stamped first r) (shortOut : out < 2 ^ 30) (shortBack : back < 2 ^ 30)
    (outcome : Outcome (clock (r.ms + out + back)) (clock (r.ms + out + back)) (answer offset r.request (r.ms + out)) s s')
    (accepted : s'.m_replySequence ≠ s.m_replySequence) : Near offset (out + back) s'.m_timeDelta := by
  cases outcome with
  | ignored same => exact absurd (congrArg NetTimeSync.m_replySequence same) accepted
  | refused _ _ reply => exact absurd reply accepted
  | accepted _ _ delta _ =>
    refine ⟨((out + back) / 2 : Nat) - (back : Nat),?_,by omega⟩
    rw [delta]
    change clock (r.ms + out) + offset + (clock (r.ms + out + back) - r.request.requestTime) / 2 - clock (r.ms + out + back) = _
    rw [stamped.time]
    exact deltaError offset r.ms out back (by omega)

section
variable {time time' : BitVec 32} {packet : TimeSyncResponse} {s s' : NetTimeSync}
  (outcome : Outcome time time' packet s s')
include outcome

theorem unaccepted (kept : s'.m_replySequence = s.m_replySequence) : s'.m_timeDelta = s.m_timeDelta := by
  cases outcome with
  | ignored same => exact congrArg NetTimeSync.m_timeDelta same
  | refused _ delta _ => exact delta
  | accepted newer _ _ reply =>
    -- an accepted response has another sequence number than the last one
    rw [← reply,kept,BitVec.sub_self] at newer
    exact absurd newer (by decide)

theorem replied (accepted : s'.m_replySequence ≠ s.m_replySequence) :
    s'.m_replySequence = packet.request.requestSequence := by
  cases outcome with
  | ignored same => exact absurd (congrArg NetTimeSync.m_replySequence same) accepted
  | refused _ _ reply => exact absurd reply accepted
  | accepted _ _ _ reply => exact reply

end

theorem clockSucc (n : Nat) : clock (n + 1) = clock n + 1 := BitVec.ofNat_add ..

theorem Synchronised.update (before : Synchronised first offset w) (serialized : Bool) :
    Synchronised first offset (w.update serialized) := by
  cases updates serialized (clock w.now) w.sync with
  | nothing same none =>
    have still : w.update serialized = w := by
      unfold World.update
      rw [← Prod.eta (Update serialized (clock w.now) w.sync),same,none]
      simp
    rw [still]
    exact before
  | made sequence delta reply content =>
    have counted : (w.update serialized).made = w.made + 1 := by
      have moved : (Update serialized (clock w.now) w.sync).1.m_requestSequence ≠ w.sync.m_requestSequence := by
        rw [sequence]
        grind
      exact if_pos moved
    refine ⟨?_,fun r mem => ?_,fun r trip last => ?_,fun r trip last => ?_⟩
    · rw [counted,clockSucc,← BitVec.add_assoc,← before.made]
      exact sequence
    · rcases List.mem_append.mp mem with old | new
      · exact before.stamped r old
      · obtain ⟨request,found,rfl⟩ := Option.map_eq_some_iff.mp (Option.mem_toList.mp new)
        obtain rfl := content request found
        refine ⟨rfl,?_⟩
        change w.sync.m_requestSequence + 1 = first + clock (w.update serialized).made
        rw [counted,clockSucc,← BitVec.add_assoc,← before.made]
    · exact reply.trans (before.reply r trip last)
    · change Near offset trip (Update serialized (clock w.now) w.sync).1.m_timeDelta
      rw [delta]
      exact before.near r trip last

theorem Synchronised.respond (before : Synchronised first offset w) (sent : r ∈ w.sent) (shortOut : out < 2 ^ 30)
    (shortBack : back < 2 ^ 30) (arrives : r.ms + out + back = w.now) (handled : w.respond offset r out back = some w') :
    Synchronised first offset w' := by
  obtain ⟨sync,same,rfl⟩ := Option.map_eq_some_iff.mp handled
  obtain ⟨found,again,kept,outcome⟩ := handles (clock w.now) (clock w.now) (clock w.now) (answer offset r.request (r.ms + out)) w.sync
  obtain rfl : sync = found := Option.some.inj (same.symm.trans again)
  have stamp := before.stamped r sent
  refine ⟨kept.trans before.made,before.stamped,fun r' trip last => ?_,fun r' trip last => ?_⟩
  · by_cases accepted : sync.m_replySequence ≠ w.sync.m_replySequence
    · rw [if_pos accepted] at last
      cases last
      exact (replied outcome accepted).trans stamp.sequence
    · rw [if_neg accepted] at last
      exact (not_not.mp accepted).trans (before.reply r' trip last)
  · by_cases accepted : sync.m_replySequence ≠ w.sync.m_replySequence
    · rw [if_pos accepted] at last
      cases last
      rw [← arrives] at outcome
      exact answerNear stamp shortOut shortBack outcome accepted
    · rw [if_neg accepted] at last
      change Near offset trip sync.m_timeDelta
      rw [unaccepted outcome (not_not.mp accepted)]
      exact before.near r' trip last

theorem Reach.synchronised (run : Reach offset w w') (before : Synchronised first offset w) : Synchronised first offset w' := by
  induction run with
  | refl => exact before
  | tail _ step ih =>
    cases step with
    | pass ms => exact ⟨ih.made,ih.stamped,ih.reply,ih.near⟩
    | update serialized => exact ih.update serialized
    | respond sent shortOut shortBack arrives handled => exact ih.respond sent shortOut shortBack arrives handled

theorem notNewer {n m : Nat} (older : n ≤ m) (apart : m < n + 2 ^ 31) : ((first + clock n) - (first + clock m)).toInt ≤ 0 := by
  obtain ⟨k,rfl⟩ := Nat.exists_eq_add_of_le older
  have difference : (first + clock n) - (first + clock (n + k)) = - clock k := by
    unfold clock
    rw [BitVec.ofNat_add]
    grind
  have small : k < 2 ^ 31 := by omega
  have below : (- clock k).toNat = (2 ^ 32 - k) % 2 ^ 32 := by
    rw [BitVec.toNat_neg,clock,BitVec.toNat_ofNat]
    omega
  rw [difference,BitVec.toInt_eq_toNat_cond,below]
  split
  · omega
  · omega

end

theorem timeSynchronised (offset : BitVec 32) (start : NetTimeSync) (begin : Nat) {w : World}
    (run : Reach offset ⟨start,begin,0,[],none⟩ w) :
    (∀ r trip, w.last = some (r,trip) → Near offset trip w.sync.m_timeDelta) ∧
      ∀ r out back, r ∈ w.sent → out < 2 ^ 30 → back < 2 ^ 30 → r.ms + out + back = w.now →
        ∃ w', w.respond offset r out back = some w' ∧
          ((r.request.requestSequence - w.sync.m_replySequence).toInt ≤ 0 → w' = w) ∧
          (∀ last trip, w.last = some (last,trip) → r.number ≤ last.number → last.number < r.number + 2 ^ 31 → w' = w) ∧
          (w'.sync.m_replySequence ≠ w.sync.m_replySequence → Near offset (out + back) w'.sync.m_timeDelta) := by
  have known : Synchronised start.m_requestSequence offset w :=
    run.synchronised ⟨(BitVec.add_zero _).symm,fun _ mem => absurd mem List.not_mem_nil,nofun,nofun⟩
  refine ⟨known.near,fun r out back sent shortOut shortBack arrives => ?_⟩
  obtain ⟨sync,handled,-,outcome⟩ := handles (clock w.now) (clock w.now) (clock w.now) (answer offset r.request (r.ms + out)) w.sync
  have stamp := known.stamped r sent
  have older (notNewer : (r.request.requestSequence - w.sync.m_replySequence).toInt ≤ 0) : sync = w.sync := by
    cases outcome with
    | ignored same => exact same
    | refused newer _ _ => exact absurd notNewer (Int.not_le.mpr newer)
    | accepted newer _ _ _ => exact absurd notNewer (Int.not_le.mpr newer)
  have still (same : sync = w.sync) :
      { w with sync,last := if sync.m_replySequence ≠ w.sync.m_replySequence then some (r,out + back) else w.last } = w := by
    subst same
    rw [if_neg (fun differs => differs rfl)]
  refine ⟨_,congrArg (Option.map _) handled,fun behind => still (older behind),fun last trip latest order apart => ?_,
    fun accepted => ?_⟩
  · refine still (older ?_)
    rw [stamp.sequence,known.reply last trip latest]
    exact notNewer order apart
  · rw [← arrives] at outcome
    exact answerNear stamp shortOut shortBack outcome accepted

def askedTwice : World :=
  let asked := World.update true ⟨⟨0,0,60000,30,0,0,0,0,0,0,false⟩,2 ^ 32 - 50,0,[],none⟩
  { (World.update true { asked with now := asked.now + 60 }) with now := 2 ^ 32 + 110 }

def firstAsked : Sent := ⟨1,2 ^ 32 - 50,⟨clock (2 ^ 32 - 50),1⟩⟩
def secondAsked : Sent := ⟨2,2 ^ 32 + 10,⟨10,2⟩⟩

/-- The second request is answered first; the late answer to the first changes nothing. -/
theorem lateAnswerIgnored :
    ∃ w, askedTwice.respond 1000 secondAsked 60 40 = some w ∧ Near 1000 100 w.sync.m_timeDelta ∧
      World.respond 1000 firstAsked 200 60 { w with now := w.now + 100 } = some { w with now := w.now + 100 } := by
  have run : Reach 1000 ⟨⟨0,0,60000,30,0,0,0,0,0,0,false⟩,2 ^ 32 - 50,0,[],none⟩ askedTwice :=
    .tail (.tail (.tail (.tail .refl (.update true)) (.pass 60)) (.update true)) (.pass 100)
  have sent : askedTwice.sent = [firstAsked,secondAsked] := rfl
  obtain ⟨w,answered,-,-,near⟩ := (timeSynchronised 1000 _ _ run).2 secondAsked 60 40 (by simp [sent]) (by decide) (by decide) rfl
  have reply : (askedTwice.respond 1000 secondAsked 60 40).map (fun w => w.sync.m_replySequence) = some 2 := by decide +kernel
  rw [answered] at reply
  have accepted : w.sync.m_replySequence = 2 := Option.some.inj reply
  have next := Reach.tail (.tail run (.respond (by simp [sent]) (by decide) (by decide) rfl answered)) (.pass 100)
  obtain ⟨sync,-,rfl⟩ := Option.map_eq_some_iff.mp answered
  obtain ⟨w',late,older,-,-⟩ := (timeSynchronised 1000 _ _ next).2 firstAsked 200 60 (by simp [sent]) (by decide) (by decide) rfl
  refine ⟨_,answered,near (by rw [accepted]; decide +kernel),late.trans (congrArg some (older ?_))⟩
  change (firstAsked.request.requestSequence - sync.m_replySequence).toInt ≤ 0
  rw [show sync.m_replySequence = 2 from accepted]
  decide

end Citizen.Sync.TimeSync
