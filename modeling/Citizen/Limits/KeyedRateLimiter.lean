import Citizen.Limits.TokenBucket

/-! `KeyedRateLimiter`: a token bucket for each key and, with `Cooldown`, a second one for what the first refuses. -/
namespace Citizen.Limits
variable {TKey TMangledKey : Type} [DecidableEq TMangledKey]

structure KeyedRateLimiter (TMangledKey : Type) where
  m_genRate : Rat
  m_burstSize : Rat
  m_buckets : TMangledKey → Option TokenBucket
  m_cooldownBuckets : TMangledKey → Option TokenBucket
  m_cooldowns : TMangledKey → Option Int

def milliseconds (seconds : Rat) : Int := (seconds * 1000).num.tdiv (seconds * 1000).den

namespace KeyedRateLimiter

def create (genRate burstSize : Rat) : KeyedRateLimiter TMangledKey :=
  ⟨genRate,burstSize,fun _ => none,fun _ => none,fun _ => none⟩

def m_createTBucket (s : KeyedRateLimiter TMangledKey) : TokenBucket := .create s.m_genRate s.m_burstSize

def m_createTCooldownBucket (s : KeyedRateLimiter TMangledKey) : TokenBucket :=
  .create (s.m_genRate * (3 / 2)) (s.m_burstSize * (3 / 2))

def bucketOf (s : KeyedRateLimiter TMangledKey) (mangled : TMangledKey) : TokenBucket :=
  (s.m_buckets mangled).getD s.m_createTBucket

def cooldownBucketOf (s : KeyedRateLimiter TMangledKey) (mangled : TMangledKey) : TokenBucket :=
  (s.m_cooldownBuckets mangled).getD s.m_createTCooldownBucket

def cooling (s : KeyedRateLimiter TMangledKey) (mangled : TMangledKey) (now : Rat) : Bool :=
  match s.m_cooldowns mangled with
  | some cooldown => now * 1000 ≤ cooldown
  | none => false

structure Consumed where
  valid : Bool
  isCooldown : Bool
  deriving DecidableEq, Repr

def Consume (Cooldown : Bool) (s : KeyedRateLimiter TMangledKey) (mangled : TMangledKey) (n now : Rat) :
    KeyedRateLimiter TMangledKey × Consumed :=
  if Cooldown && s.cooling mangled now then (s,⟨false,true⟩)
  else
    let s := if Cooldown then { s with m_cooldowns := Function.update s.m_cooldowns mangled none } else s
    let bucket := (s.bucketOf mangled).consume n now
    if Cooldown && !bucket.2 then
      let cooldownBucket := s.cooldownBucketOf mangled
      -- `bucket` is a reference: the assignment replaces the bucket of the key, and it is this copy that is charged
      let bucket := cooldownBucket.consume n now
      let s := { s with
        m_buckets := Function.update s.m_buckets mangled (some bucket.1)
        m_cooldownBuckets := Function.update s.m_cooldownBuckets mangled (some cooldownBucket) }
      if bucket.2 then (s,⟨false,false⟩)
      else
        ({ s with m_cooldowns := Function.update s.m_cooldowns mangled (some (milliseconds (now + 15))) },⟨false,false⟩)
    else ({ s with m_buckets := Function.update s.m_buckets mangled (some bucket.1) },⟨bucket.2,false⟩)

end KeyedRateLimiter

structure ConsumeCall (TKey : Type) where
  key : TKey
  time : Rat
  deriving DecidableEq, Repr

structure Answered (TKey : Type) where
  key : TKey
  time : Rat
  granted : Bool
  exhausted : Bool
  deriving DecidableEq, Repr

/-- `second` are the second buckets as they are meant to be: of 1.5 times the rate and the burst. -/
structure Observed (TKey TMangledKey : Type) where
  limiter : KeyedRateLimiter TMangledKey
  second : TMangledKey → TokenBucket
  log : List (Answered TKey)

namespace Observed
open KeyedRateLimiter

def start (r b : Rat) : Observed TKey TMangledKey :=
  ⟨.create r b,fun _ => .create (r * (3 / 2)) (b * (3 / 2)),[]⟩

variable (mangle : TKey → TMangledKey) (Cooldown : Bool)

def answer (s : Observed TKey TMangledKey) (call : ConsumeCall TKey) : Consumed :=
  (s.limiter.Consume Cooldown (mangle call.key) 1 call.time).2

def step (s : Observed TKey TMangledKey) (call : ConsumeCall TKey) : Observed TKey TMangledKey :=
  let answer := s.answer mangle Cooldown call
  let charged := !answer.valid && !answer.isCooldown
  let second := (s.second (mangle call.key)).consume 1 call.time
  { limiter := (s.limiter.Consume Cooldown (mangle call.key) 1 call.time).1
    second := if charged then Function.update s.second (mangle call.key) second.1 else s.second
    log := s.log ++ [⟨call.key,call.time,answer.valid,charged && !second.2⟩] }

def grants [DecidableEq TKey] (log : List (Answered TKey)) (key : TKey) (begins length : Rat) : Nat :=
  log.countP (fun e => e.key = key && begins ≤ e.time && e.time ≤ begins + length && e.granted)

structure Limited [DecidableEq TKey] (r b : Rat) (s : Observed TKey TMangledKey) : Prop where
  bounded : ∀ key begins length, 0 ≤ length → (grants s.log key begins length : Rat) ≤ b + r * length
  cooled : Cooldown = true → s.log.Pairwise (fun e later =>
    e.exhausted = true → later.key = e.key → later.time ≤ e.time + 15 → later.granted = false)

def Unrefused (b : Rat) (s : Observed TKey TMangledKey) (call : ConsumeCall TKey) : Prop :=
  Cooldown = true → b * (3 / 2) < 1 ∨ 1 ≤ (s.limiter.bucketOf (mangle call.key)).available call.time

variable {mangle} {Cooldown} {r b : Rat} {s : Observed TKey TMangledKey} {call : ConsumeCall TKey}

theorem consumePlain {limiter : KeyedRateLimiter TMangledKey} {mangled : TMangledKey} {n now : Rat}
    (plain : Cooldown = true → limiter.m_cooldowns mangled = none ∧ ((limiter.bucketOf mangled).consume n now).2 = true) :
    limiter.Consume Cooldown mangled n now =
      ({ limiter with m_buckets :=
          Function.update limiter.m_buckets mangled (some ((limiter.bucketOf mangled).consume n now).1) },
        ⟨((limiter.bucketOf mangled).consume n now).2,false⟩) := by
  unfold Consume
  cases Cooldown with
  | false => rfl
  | true =>
    obtain ⟨cold,given⟩ := plain rfl
    have warm : limiter.cooling mangled now = false := by
      unfold cooling
      rw [cold]
    have same : Function.update limiter.m_cooldowns mangled none = limiter.m_cooldowns := by
      rw [← cold,Function.update_eq_self]
    have bucket : ({ limiter with m_cooldowns := limiter.m_cooldowns } : KeyedRateLimiter TMangledKey).bucketOf mangled =
        limiter.bucketOf mangled := rfl
    simp only [warm,same,Bool.and_false,Bool.false_eq_true,if_false,if_true,bucket,given,Bool.not_true]

def since (mangle : TKey → TMangledKey) (log : List (Answered TKey)) (mangled : TMangledKey) (begins : Rat) : Nat :=
  log.countP (fun e => mangle e.key = mangled && begins ≤ e.time && e.granted)

structure Kept [DecidableEq TKey] (mangle : TKey → TMangledKey) (Cooldown : Bool) (r b : Rat) (s : Observed TKey TMangledKey) : Prop where
  limits : s.limiter.m_genRate = r ∧ s.limiter.m_burstSize = b
  buckets : ∀ k, (s.limiter.bucketOf k).rate_ = r ∧ (s.limiter.bucketOf k).burstSize_ = b
  cold : Cooldown = true → ∀ k, s.limiter.m_cooldowns k = none
  paced : ∀ k begins, (s.limiter.bucketOf k).Paced begins (since mangle s.log k begins)
  limited : s.Limited Cooldown r b
  granted : Cooldown = true → ∀ e ∈ s.log, e.exhausted = false

theorem sinceAppend (log : List (Answered TKey)) (e : Answered TKey) (mangled : TMangledKey) (begins : Rat) :
    since mangle (log ++ [e]) mangled begins = since mangle log mangled begins +
      if mangle e.key = mangled ∧ begins ≤ e.time ∧ e.granted = true then 1 else 0 := by
  simp only [since,List.countP_append,List.countP_singleton,Bool.and_eq_true,decide_eq_true_eq,and_assoc]

theorem sinceNone {log : List (Answered TKey)} {mangled : TMangledKey} {begins : Rat}
    (before : ∀ e ∈ log, e.time < begins) : since mangle log mangled begins = 0 := by
  refine List.countP_eq_zero.mpr (fun e mem => ?_)
  have early : ¬begins ≤ e.time := not_le.mpr (before e mem)
  simp [early]

theorem grantsSince [DecidableEq TKey] {log : List (Answered TKey)} {key : TKey} {begins length : Rat} :
    grants log key begins length ≤ since mangle log (mangle key) begins := by
  refine List.countP_mono_left (fun e _ counted => ?_)
  simp only [Bool.and_eq_true,decide_eq_true_eq] at counted ⊢
  exact ⟨⟨congrArg mangle counted.1.1.1,counted.1.1.2⟩,counted.2⟩

theorem pacedStep {bucket : TokenBucket} {n : Nat} {begins : Rat} (paced : bucket.Paced begins n)
    (rate : 0 < bucket.rate_) (begun : begins ≤ call.time) :
    (bucket.consume 1 call.time).1.Paced begins
      (n + if (bucket.consume 1 call.time).2 = true then 1 else 0) := by
  cases given : (bucket.consume 1 call.time).2 with
  | false =>
    rw [TokenBucket.consumeRefused given]
    exact paced
  | true => exact (paced.consume rate begun given).1

structure Plain (mangle : TKey → TMangledKey) (Cooldown : Bool) (s : Observed TKey TMangledKey) (call : ConsumeCall TKey)
    (s' : Observed TKey TMangledKey) (e : Answered TKey) : Prop where
  same : s'.limiter.m_genRate = s.limiter.m_genRate ∧ s'.limiter.m_burstSize = s.limiter.m_burstSize ∧
    s'.limiter.m_cooldowns = s.limiter.m_cooldowns
  self : s'.limiter.bucketOf (mangle call.key) = ((s.limiter.bucketOf (mangle call.key)).consume 1 call.time).1
  others : ∀ k, k ≠ mangle call.key → s'.limiter.bucketOf k = s.limiter.bucketOf k
  logged : s'.log = s.log ++ [e]
  made : e.key = call.key ∧ e.time = call.time
  granted : e.granted = ((s.limiter.bucketOf (mangle call.key)).consume 1 call.time).2
  exhausted : Cooldown = true → e.exhausted = false

theorem Kept.plain [DecidableEq TKey] (kept : Kept mangle Cooldown r b s)
    (enough : Cooldown = true → 1 ≤ (s.limiter.bucketOf (mangle call.key)).available call.time) :
    ∃ e, Plain mangle Cooldown s call (s.step mangle Cooldown call) e := by
  let bucket := s.limiter.bucketOf (mangle call.key)
  have consumed (on : Cooldown = true) : (bucket.consume 1 call.time).2 = true :=
    (TokenBucket.consumeIff one_pos).mpr (enough on)
  have plain := @consumePlain _ _ Cooldown s.limiter (mangle call.key) 1 call.time (fun on => ⟨kept.cold on _,consumed on⟩)
  have after : (s.step mangle Cooldown call).limiter = { s.limiter with
      m_buckets := Function.update s.limiter.m_buckets (mangle call.key) (some (bucket.consume 1 call.time).1) } :=
    congrArg Prod.fst plain
  have answered : s.answer mangle Cooldown call = ⟨(bucket.consume 1 call.time).2,false⟩ := congrArg Prod.snd plain
  refine ⟨_,by rw [after]; exact ⟨rfl,rfl,rfl⟩,?_,fun k different => ?_,rfl,⟨rfl,rfl⟩,by rw [answered],fun on => ?_⟩
  · rw [after]
    simp only [bucketOf,Function.update_self,Option.getD_some]
    rfl
  · rw [after]
    simp only [bucketOf,Function.update_of_ne different]
    rfl
  · rw [answered,consumed on]
    rfl

variable {s' : Observed TKey TMangledKey} {e : Answered TKey}

section
variable [DecidableEq TKey] (kept : Kept mangle Cooldown r b s) (rate : 0 < r)
  (ordered : ∀ e ∈ s.log, e.time ≤ call.time)
include kept rate ordered

theorem Kept.pacedAfter (plain : Plain mangle Cooldown s call s' e) (k : TMangledKey)
    (begins : Rat) : (s'.limiter.bucketOf k).Paced begins (since mangle s'.log k begins) := by
  have positive : 0 < (s.limiter.bucketOf (mangle call.key)).rate_ := by
    rw [(kept.buckets (mangle call.key)).1]
    exact rate
  rw [plain.logged,sinceAppend,plain.made.1,plain.made.2,plain.granted]
  by_cases here : k = mangle call.key
  · rw [here,plain.self]
    by_cases begun : begins ≤ call.time
    · have next := pacedStep (kept.paced (mangle call.key) begins) positive begun
      simpa [begun] using next
    · have early : since mangle s.log (mangle call.key) begins = 0 :=
        sinceNone (fun e mem => lt_of_le_of_lt (ordered e mem) (not_le.mp begun))
      rw [early,if_neg (fun all => begun all.2.1)]
      exact fun some => absurd some (Nat.lt_irrefl 0)
  · rw [plain.others k here,if_neg (fun all => here all.1.symm)]
    exact kept.paced k begins

theorem Kept.boundedAfter (plain : Plain mangle Cooldown s call s' e) (key : TKey)
    {begins length : Rat} (some : 0 ≤ length) : (grants s'.log key begins length : Rat) ≤ b + r * length := by
  obtain ⟨rateOf,burstOf⟩ := kept.buckets (mangle call.key)
  have grown : grants s'.log key begins length = grants s.log key begins length +
      if e.key = key ∧ begins ≤ e.time ∧ e.time ≤ begins + length ∧ e.granted = true then 1 else 0 := by
    rw [plain.logged]
    simp only [grants,List.countP_append,List.countP_singleton,Bool.and_eq_true,decide_eq_true_eq,and_assoc]
  by_cases counted : e.key = key ∧ begins ≤ e.time ∧ e.time ≤ begins + length ∧ e.granted = true
  · obtain ⟨sameKey,begun,ended,given⟩ := counted
    have keyIs : mangle key = mangle call.key := by rw [← sameKey,plain.made.1]
    have nonzero : 0 < since mangle s'.log (mangle call.key) begins := by
      rw [plain.logged,sinceAppend,if_pos ⟨by rw [plain.made.1],begun,given⟩]
      exact Nat.succ_pos _
    rw [plain.granted] at given
    rw [plain.made.2] at begun ended
    have last := ((kept.paced (mangle call.key) begins).consume (rateOf.symm ▸ rate) begun given).2
    have limit := kept.pacedAfter rate ordered plain (mangle call.key) begins nonzero
    rw [plain.self,TokenBucket.consumeBurst,TokenBucket.consumeRate,rateOf,burstOf] at limit
    have few : (grants s'.log key begins length : Rat) ≤ since mangle s'.log (mangle call.key) begins := by
      rw [← keyIs]
      exact_mod_cast (grantsSince : _ ≤ since mangle s'.log (mangle key) begins)
    have window : r * (((s.limiter.bucketOf (mangle call.key)).consume 1 call.time).1.zeroTime_ - begins) ≤ r * length :=
      mul_le_mul_of_nonneg_left (by linarith) rate.le
    linarith
  · rw [grown,if_neg counted,Nat.add_zero]
    exact kept.limited.bounded key begins length some

theorem Kept.step (enough : Cooldown = true → 1 ≤ (s.limiter.bucketOf (mangle call.key)).available call.time) :
    Kept mangle Cooldown r b (s.step mangle Cooldown call) := by
  obtain ⟨e,plain⟩ := kept.plain enough
  have quiet : Cooldown = true → ∀ e ∈ (s.step mangle Cooldown call).log, e.exhausted = false := by
    intro on e' mem
    rw [plain.logged] at mem
    rcases List.mem_append.mp mem with mem | mem
    · exact kept.granted on e' mem
    · cases List.mem_singleton.mp mem
      exact plain.exhausted on
  obtain ⟨sameRate,sameBurst,sameCooldowns⟩ := plain.same
  refine ⟨⟨sameRate.trans kept.limits.1,sameBurst.trans kept.limits.2⟩,fun k => ?_,fun on k => ?_,
    kept.pacedAfter rate ordered plain,⟨fun key _ _ some => kept.boundedAfter rate ordered plain key some,
    fun on => ?_⟩,quiet⟩
  · by_cases here : k = mangle call.key
    · rw [here,plain.self,TokenBucket.consumeRate,TokenBucket.consumeBurst]
      exact kept.buckets (mangle call.key)
    · rw [plain.others k here]
      exact kept.buckets k
  · rw [sameCooldowns]
    exact kept.cold on k
  · refine List.pairwise_of_forall_mem_list (fun e mem _ _ exhausted => ?_)
    rw [quiet on e mem] at exhausted
    cases exhausted

end

theorem keptStart [DecidableEq TKey] (rate : 0 < r) (burst : 0 < b) :
    Kept mangle Cooldown r b (start r b : Observed TKey TMangledKey) := by
  refine ⟨⟨rfl,rfl⟩,fun _ => ⟨rfl,rfl⟩,fun _ _ => rfl,fun k begins some => absurd some (Nat.lt_irrefl 0),
    ⟨fun key begins length some => ?_,fun _ => List.Pairwise.nil⟩,fun _ e mem => absurd mem List.not_mem_nil⟩
  have product : 0 ≤ r * length := mul_nonneg rate.le some
  have none : grants ([] : List (Answered TKey)) key begins length = 0 := rfl
  rw [start,none]
  push_cast
  linarith

structure Tiny (limiter : KeyedRateLimiter TMangledKey) : Prop where
  bucket : ∀ k, (limiter.bucketOf k).burstSize_ < 1
  cooldownBucket : ∀ k, (limiter.cooldownBucketOf k).burstSize_ < 1
  created : limiter.m_createTBucket.burstSize_ < 1 ∧ limiter.m_createTCooldownBucket.burstSize_ < 1

section
variable {limiter : KeyedRateLimiter TMangledKey} (tiny : Tiny limiter) (k : TMangledKey)
include tiny k

theorem Tiny.update {bucket second : TokenBucket} (small : bucket.burstSize_ < 1 ∧ second.burstSize_ < 1)
    (cooldowns : TMangledKey → Option Int) :
    Tiny { limiter with
      m_buckets := Function.update limiter.m_buckets k (some bucket)
      m_cooldownBuckets := Function.update limiter.m_cooldownBuckets k (some second)
      m_cooldowns := cooldowns } := by
  refine ⟨fun k' => ?_,fun k' => ?_,tiny.created⟩
  · by_cases here : k' = k
    · rw [here]
      simp only [bucketOf,Function.update_self,Option.getD_some]
      exact small.1
    · have kept := tiny.bucket k'
      simp only [bucketOf,Function.update_of_ne here] at kept ⊢
      exact kept
  · by_cases here : k' = k
    · rw [here]
      simp only [cooldownBucketOf,Function.update_self,Option.getD_some]
      exact small.2
    · have kept := tiny.cooldownBucket k'
      simp only [cooldownBucketOf,Function.update_of_ne here] at kept ⊢
      exact kept

theorem Tiny.consume (now : Rat) :
    Tiny (limiter.Consume true k 1 now).1 ∧ (limiter.Consume true k 1 now).2.valid = false := by
  have first : ((limiter.bucketOf k).consume 1 now).2 = false := TokenBucket.consumeSmall (tiny.bucket k)
  have second : ((limiter.cooldownBucketOf k).consume 1 now).2 = false := TokenBucket.consumeSmall (tiny.cooldownBucket k)
  have bucket (cooldowns : TMangledKey → Option Int) :
      ({ limiter with m_cooldowns := cooldowns } : KeyedRateLimiter TMangledKey).bucketOf k = limiter.bucketOf k := rfl
  have cooldownBucket (cooldowns : TMangledKey → Option Int) :
      ({ limiter with m_cooldowns := cooldowns } : KeyedRateLimiter TMangledKey).cooldownBucketOf k =
        limiter.cooldownBucketOf k := rfl
  have charged : ((limiter.cooldownBucketOf k).consume 1 now).1.burstSize_ < 1 := by
    rw [TokenBucket.consumeBurst]
    exact tiny.cooldownBucket k
  unfold Consume
  cases limiter.cooling k now with
  | true => exact ⟨tiny,rfl⟩
  | false =>
    simp only [Bool.and_false,Bool.false_eq_true,if_false,if_true,bucket,cooldownBucket,first,second,Bool.not_false,
      Bool.and_true]
    exact ⟨tiny.update k ⟨charged,tiny.cooldownBucket k⟩ _,trivial⟩

end

omit [DecidableEq TMangledKey] in
theorem limitedRefused [DecidableEq TKey] (rate : 0 < r) (burst : 0 < b) (refused : ∀ e ∈ s.log, e.granted = false) :
    s.Limited Cooldown r b := by
  refine ⟨fun key begins length some => ?_,fun _ => List.pairwise_of_forall_mem_list
    (fun _ _ later mem _ _ _ => refused later mem)⟩
  have product : 0 ≤ r * length := mul_nonneg rate.le some
  have none : grants s.log key begins length = 0 := by
    refine List.countP_eq_zero.mpr (fun e mem => ?_)
    simp [refused e mem]
  rw [none]
  push_cast
  linarith

theorem orderedLog {ok : Observed TKey TMangledKey → ConsumeCall TKey → Prop} {calls : List (ConsumeCall TKey)}
    (ordered : calls.Pairwise (fun c later => c.time ≤ later.time))
    (before : ∀ e ∈ s.log, ∀ c ∈ calls, e.time ≤ c.time) (along : Along (step mangle Cooldown) ok s calls) :
    Along (step mangle Cooldown) (fun s c => (∀ e ∈ s.log, e.time ≤ c.time) ∧ ok s c) s calls := by
  induction calls generalizing s with
  | nil => trivial
  | cons call rest ih =>
    obtain ⟨first,later⟩ := List.pairwise_cons.mp ordered
    refine ⟨⟨fun e mem => before e mem call List.mem_cons_self,along.1⟩,ih later (fun e mem c memC => ?_) along.2⟩
    rcases List.mem_append.mp mem with mem | mem
    · exact before e mem c (List.mem_cons_of_mem _ memC)
    · cases List.mem_singleton.mp mem
      exact first c memC

theorem rateLimited [DecidableEq TKey] (mangle : TKey → TMangledKey) (Cooldown : Bool) {r b : Rat} (rate : 0 < r)
    (burst : 0 < b) {calls : List (ConsumeCall TKey)} (ordered : calls.Pairwise (fun c later => c.time ≤ later.time))
    (unrefused : Along (step mangle Cooldown) (Unrefused mangle Cooldown b) (start r b) calls) :
    Throughout (step mangle Cooldown) (Limited Cooldown r b) (start r b) calls := by
  by_cases tiny : Cooldown = true ∧ b * (3 / 2) < 1
  · obtain ⟨rfl,small⟩ := tiny
    refine throughoutMono (fun s kept => limitedRefused rate burst kept.2) (throughoutOfKept
      (fun s => Tiny s.limiter ∧ ∀ e ∈ s.log, e.granted = false) (fun s call kept _ => ?_) ?_ unrefused)
    · obtain ⟨next,refused⟩ := kept.1.consume (mangle call.key) call.time
      refine ⟨next,fun e mem => ?_⟩
      rcases List.mem_append.mp mem with mem | mem
      · exact kept.2 e mem
      · cases List.mem_singleton.mp mem
        exact refused
    · have below : b < 1 := by linarith
      exact ⟨⟨fun _ => below,fun _ => small,below,small⟩,fun e mem => absurd mem List.not_mem_nil⟩
  · have along := orderedLog (s := start r b) ordered (fun e mem => absurd mem List.not_mem_nil) unrefused
    refine throughoutMono (fun s kept => kept.limited) (throughoutOfKept (Kept mangle Cooldown r b)
      (fun s call kept ok => kept.step rate ok.1 (fun on => ?_)) (keptStart rate burst) along)
    exact (ok.2 on).resolve_left (fun small => tiny ⟨on,small⟩)

theorem rateLimitedSample : Throughout (step id true) (Limited true 1 2) (start 1 2 : Observed Nat Nat)
    [⟨0,100⟩,⟨0,100⟩,⟨0,101⟩] :=
  rateLimited id true (by decide) (by decide) (by decide) ⟨fun _ => .inr (by decide +kernel),
    fun _ => .inr (by decide +kernel),fun _ => .inr (by decide +kernel),trivial⟩

def refilled : List (ConsumeCall Nat) := [⟨0,100⟩,⟨0,100⟩,⟨0,100 + 1 / 3⟩]

theorem refusalRefills : ¬Throughout (step id true) (Limited true 1 1) (start 1 1 : Observed Nat Nat) refilled := by
  intro all
  have bounded := (throughoutLast all).bounded 0 100 (1 / 3) (by decide +kernel)
  have granted : grants (run (step id true) (start 1 1 : Observed Nat Nat) refilled).log 0 100 (1 / 3) = 2 := by
    decide +kernel
  rw [granted] at bounded
  norm_num at bounded

end Observed
end Citizen.Limits
