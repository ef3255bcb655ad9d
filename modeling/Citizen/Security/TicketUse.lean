import Citizen.Console.CommandBuffer
import Citizen.Lib.LittleEndian
import Citizen.Lib.Run
import Mathlib.Data.Finset.Option

/-! The tickets of connecting players: `VerifyTicket`, and how `initConnect` calls it. -/
namespace Citizen.Security
open BitField (Byte)

structure Botan (Key : Type) where
  base64_decode : Text → Except Text (List Byte)
  SHA_160 : List Byte → List Byte
  verify_message : Key → List Byte → List Byte → Bool

inductive VerifyTicketResult where
  | InvalidLength
  | InvalidLength2
  | Expired
  | MismatchingGUID
  | Reused
  | InvalidSignatureLength
  | InvalidSignature
  | Success
  deriving DecidableEq

def GetVerifyTicketErrorString : VerifyTicketResult → Text
  | .InvalidLength => text "Invalid ticket length."
  | .InvalidLength2 => text "Invalid ticket length. (2)"
  | .Expired => text "Ticket expired. Please check your server's system time."
  | .MismatchingGUID => text "Mismatching GUID."
  | .Reused => text "Reused ticket."
  | .InvalidSignatureLength => text "Invalid signature length."
  | .InvalidSignature => text "Invalid ticket signature."
  | .Success => []

abbrev TicketId := BitVec 64 × BitVec 64

structure Tickets where
  g_ticketList : Finset TicketId
  g_nextTicketGc : Int

structure Times where
  timeVal : BitVec 64
  msec : Int
  msecGc : Int

structure Verification (Key : Type) where
  guid : Text
  ticket : Text
  pk : Key
  times : Times

def isdigit (b : Byte) : Bool := byte '0' ≤ b && b ≤ byte '9'

def decimal (digits : Text) : Nat := digits.foldl (fun n b => 10 * n + (b.toNat - (byte '0').toNat)) 0

def strtoull (s : Text) : BitVec 64 :=
  let s := (s.takeWhile (fun b => b ≠ 0)).dropWhile Console.isspace
  let negative := s.head? = some (byte '-')
  let s := if negative ∨ s.head? = some (byte '+') then s.tail else s
  let value := decimal (s.takeWhile isdigit)
  if 2 ^ 64 ≤ value then -1
  else if negative then -BitVec.ofNat 64 value
  else BitVec.ofNat 64 value

def slice (data : List Byte) (start size : Nat) : List Byte := (data.drop start).take size

def uint32At (data : List Byte) (start : Nat) : BitVec 32 := BitVec.ofNat 32 (LittleEndian.value (slice data start 4))

def uint64At (data : List Byte) (start : Nat) : BitVec 64 := BitVec.ofNat 64 (LittleEndian.value (slice data start 8))

def checkTicket (guid : Text) (ticketData : List Byte) (timeVal : BitVec 64) : Except VerifyTicketResult TicketId :=
  if ticketData.length < 20 + 4 + 128 then .error .InvalidLength
  else if uint32At ticketData 0 ≠ 16 then .error .InvalidLength2
  else
    let ticketGuid := uint64At ticketData 4
    let ticketExpiry := uint64At ticketData 12
    if ticketExpiry < timeVal then .error .Expired
    else if strtoull guid ≠ ticketGuid then .error .MismatchingGUID
    else .ok (ticketExpiry,ticketGuid)

def Tickets.insert (s : Tickets) (id : TicketId) (times : Times) : Option Tickets :=
  if id ∈ s.g_ticketList then none
  else
    let s := if times.msec > s.g_nextTicketGc then ⟨∅,times.msecGc + 30 * 60 * 1000⟩ else s
    some { s with g_ticketList := Insert.insert id s.g_ticketList }

variable {Key : Type} (botan : Botan Key)

def checkSignature (ticketData : List Byte) (pk : Key) : VerifyTicketResult :=
  if uint32At ticketData (16 + 4) ≠ 128 then .InvalidSignatureLength
  else
    let msg := 2 :: botan.SHA_160 (slice ticketData 4 16)
    if botan.verify_message pk msg (slice ticketData (16 + 4 + 4) 128) = true then .Success else .InvalidSignature

def VerifyTicket (s : Tickets) (v : Verification Key) : Tickets × Except Text VerifyTicketResult :=
  match botan.base64_decode v.ticket with
  | .error what => (s,.error what)
  | .ok ticketData =>
    match checkTicket v.guid ticketData v.times.timeVal with
    | .error result => (s,.ok result)
    | .ok id =>
      match s.insert id v.times with
      | none => (s,.ok .Reused)
      | some s => (s,.ok (checkSignature botan ticketData v.pk))

structure Attempt (Key : Type) where
  first : Verification Key
  refetched : Option (Option Key)
  retryTimes : Times

def Attempt.retry (a : Attempt Key) (pk : Key) : Verification Key :=
  { a.first with pk := pk, times := a.retryTimes }

def answer : Except Text VerifyTicketResult → Option Text
  | .error what => some (text "Parsing error while verifying ticket. " ++ what)
  | .ok .Success => none
  | .ok result => some (text "Ticket authorization failed. " ++ GetVerifyTicketErrorString result)

def authorize (s : Tickets) (a : Attempt Key) : Tickets × Option Text :=
  match VerifyTicket botan s a.first with
  | (s,.ok .InvalidSignature) =>
    match a.refetched with
    | none => (s,answer (.ok .InvalidSignature))
    | some none => (s,some (text "public key request failed (2)."))
    | some (some pk) => ((VerifyTicket botan s (a.retry pk)).1,answer (VerifyTicket botan s (a.retry pk)).2)
  | (s,result) => (s,answer result)

/-! That a ticket is accepted once and that no rejection uses it up. -/

structure TicketHistory where
  tickets : Tickets
  accepted : Finset TicketId

namespace TicketHistory

def start : TicketHistory := ⟨⟨∅,0⟩,∅⟩

def presented (v : Verification Key) : Option TicketId :=
  match botan.base64_decode v.ticket with
  | .error _ => none
  | .ok ticketData => (checkTicket v.guid ticketData v.times.timeVal).toOption

def signed (v : Verification Key) : Prop :=
  match botan.base64_decode v.ticket with
  | .error _ => False
  | .ok ticketData => checkSignature botan ticketData v.pk = .Success

def result (s : TicketHistory) (v : Verification Key) : Except Text VerifyTicketResult :=
  (VerifyTicket botan s.tickets v).2

def verify (s : TicketHistory) (v : Verification Key) : TicketHistory where
  tickets := (VerifyTicket botan s.tickets v).1
  accepted := if s.result botan v = .ok .Success then s.accepted ∪ (presented botan v).toFinset else s.accepted

def calls (s : TicketHistory) (a : Attempt Key) : List (Verification Key) :=
  match s.result botan a.first,a.refetched with
  | .ok .InvalidSignature,some (some pk) => [a.first,a.retry pk]
  | _,_ => [a.first]

def step (s : TicketHistory) (a : Attempt Key) : TicketHistory := run (verify botan) s (s.calls botan a)

structure Right (s : TicketHistory) (v : Verification Key) : Prop where
  once : s.result botan v = .ok .Success → ∀ id, presented botan v = some id → id ∉ s.accepted
  kept : s.result botan v ≠ .ok .Success → s.result botan v ≠ .ok .Reused →
    (s.verify botan v).tickets.g_ticketList = s.tickets.g_ticketList
  genuine : s.result botan v = .ok .Reused → ∀ id, presented botan v = some id → id ∈ s.accepted

def RightAttempt (s : TicketHistory) (a : Attempt Key) : Prop := Along (verify botan) (Right botan) s (s.calls botan a)

def Honest (s : TicketHistory) (v : Verification Key) : Prop :=
  ∀ id, presented botan v = some id → id ∉ s.tickets.g_ticketList → signed botan v ∧ id ∉ s.accepted

/-- The tickets that pass the checks before the lock, each with the times at which it first did. -/
abbrev Presented := List (TicketId × Times)

def present (log : Presented) (a : Attempt Key) : Presented :=
  match presented botan a.first with
  | some id => if id ∈ log.map Prod.fst then log else log ++ [(id,a.first.times)]
  | none => log

/-- Half an hour from the last of them that came after the deadline before it. -/
def deadline (log : Presented) : Int :=
  log.foldl (fun deadline e => if e.2.msec > deadline then e.2.msecGc + 30 * 60 * 1000 else deadline) 0

/-- A later ticket came after the deadline that there was when the ticket was presented. -/
def Forgotten (log : Presented) (id : TicketId) : Prop :=
  ∃ before times after, log = before ++ (id,times) :: after ∧ ∃ e ∈ after, e.2.msec > deadline (before ++ [(id,times)])

def Timely (log : Presented) (a : Attempt Key) : Prop :=
  ∀ id, presented botan a.first = some id → if id ∈ log.map Prod.fst then ¬Forgotten log id else signed botan a.first

variable {botan} {s : TicketHistory} {v : Verification Key} {id : TicketId}

theorem checkTicketError {guid : Text} {ticketData : List Byte} {timeVal : BitVec 64} {r : VerifyTicketResult}
    (refused : checkTicket guid ticketData timeVal = .error r) :
    r ≠ .Success ∧ r ≠ .Reused ∧ r ≠ .InvalidSignature := by
  unfold checkTicket at refused
  dsimp only at refused
  split at refused
  · cases refused
    decide
  · split at refused
    · cases refused
      decide
    · split at refused
      · cases refused
        decide
      · split at refused
        · cases refused
          decide
        · cases refused

theorem checkTicketLater {guid : Text} {ticketData : List Byte} {early late : BitVec 64} {id : TicketId}
    (passed : checkTicket guid ticketData early = .ok id) :
    checkTicket guid ticketData late = .ok id ∨ checkTicket guid ticketData late = .error .Expired := by
  unfold checkTicket at passed ⊢
  dsimp only at passed ⊢
  split at passed
  · cases passed
  · rename_i long
    rw [if_neg long]
    split at passed
    · cases passed
    · rename_i length
      rw [if_neg length]
      split at passed
      · cases passed
      · split
        · exact .inr rfl
        · exact .inl passed

theorem insertCases (s : Tickets) (id : TicketId) (times : Times) : id ∈ s.g_ticketList ∧ s.insert id times = none ∨
    id ∉ s.g_ticketList ∧ ∃ s', s.insert id times = some s' := by
  unfold Tickets.insert
  by_cases used : id ∈ s.g_ticketList
  · exact .inl ⟨used,if_pos used⟩
  · exact .inr ⟨used,_,if_neg used⟩

theorem inserted {s s' : Tickets} {times : Times} (inserts : s.insert id times = some s') :
    s'.g_nextTicketGc = (if times.msec > s.g_nextTicketGc then times.msecGc + 30 * 60 * 1000 else s.g_nextTicketGc) ∧
      ∀ other, other ∈ s'.g_ticketList ↔
        other = id ∨ other ∈ s.g_ticketList ∧ times.msec ≤ s.g_nextTicketGc := by
  unfold Tickets.insert at inserts
  split at inserts
  · cases inserts
  · cases inserts
    dsimp only
    by_cases late : times.msec > s.g_nextTicketGc
    · rw [if_pos late,if_pos late]
      refine ⟨rfl,fun other => Finset.mem_insert.trans (or_congr_right ?_)⟩
      exact iff_of_false (Finset.notMem_empty _) (fun both => absurd late (not_lt_of_ge both.2))
    · rw [if_neg late,if_neg late]
      exact ⟨rfl,fun other => Finset.mem_insert.trans (or_congr_right (and_iff_left (le_of_not_gt late)).symm)⟩

inductive Verified (botan : Botan Key) (s : Tickets) (v : Verification Key) :
    Tickets × Except Text VerifyTicketResult → Prop where
  | refused {r : Except Text VerifyTicketResult} (absent : presented botan v = none) (success : r ≠ .ok .Success)
      (reused : r ≠ .ok .Reused) (signature : r ≠ .ok .InvalidSignature) : Verified botan s v (s,r)
  | reused {id : TicketId} (here : presented botan v = some id) (used : id ∈ s.g_ticketList) :
      Verified botan s v (s,.ok .Reused)
  | taken {id : TicketId} {s' : Tickets} {r : VerifyTicketResult} (here : presented botan v = some id)
      (unused : id ∉ s.g_ticketList) (inserts : s.insert id v.times = some s') (reused : r ≠ .Reused)
      (success : r = .Success ↔ signed botan v) : Verified botan s v (s',.ok r)

theorem signatureNotReused (ticketData : List Byte) (pk : Key) : checkSignature botan ticketData pk ≠ .Reused := by
  unfold checkSignature
  split
  · decide
  · dsimp only
    split
    · decide
    · decide

theorem verified (s : Tickets) (v : Verification Key) : Verified botan s v (VerifyTicket botan s v) := by
  unfold VerifyTicket
  cases decoded : botan.base64_decode v.ticket with
  | error what =>
    have absent : presented botan v = none := by
      unfold presented
      rw [decoded]
    exact .refused absent (fun same => by cases same) (fun same => by cases same) (fun same => by cases same)
  | ok ticketData =>
    dsimp only
    cases checked : checkTicket v.guid ticketData v.times.timeVal with
    | error r =>
      have absent : presented botan v = none := by
        unfold presented
        rw [decoded]
        dsimp only
        rw [checked]
        rfl
      obtain ⟨success,reused,signature⟩ := checkTicketError checked
      exact .refused absent (fun same => success (Except.ok.inj same)) (fun same => reused (Except.ok.inj same))
        (fun same => signature (Except.ok.inj same))
    | ok id =>
      have here : presented botan v = some id := by
        unfold presented
        rw [decoded]
        dsimp only
        rw [checked]
        rfl
      have genuine : checkSignature botan ticketData v.pk = .Success ↔ signed botan v := by
        unfold signed
        rw [decoded]
      dsimp only
      rcases insertCases s id v.times with ⟨used,none⟩ | ⟨unused,s',some⟩
      · rw [none]
        exact .reused here used
      · rw [some]
        exact .taken here unused some (signatureNotReused ticketData v.pk) genuine

theorem retryRefused (a : Attempt Key) (pk : Key) (refused : s.result botan a.first = .ok .InvalidSignature) :
    (s.verify botan a.first).result botan (a.retry pk) = .ok .Reused ∨
      (s.verify botan a.first).result botan (a.retry pk) = .ok .Expired := by
  have did := @verified Key botan s.tickets a.first
  have after : (s.verify botan a.first).tickets = (VerifyTicket botan s.tickets a.first).1 := rfl
  unfold result at refused ⊢
  rw [after]
  generalize VerifyTicket botan s.tickets a.first = first at did refused
  cases did with
  | refused _ _ _ signature => exact absurd refused signature
  | reused _ _ => cases refused
  | @taken id s' _ here _ inserts _ _ =>
    have again : (a.retry pk).ticket = a.first.ticket := rfl
    unfold presented at here
    unfold VerifyTicket
    rw [again]
    cases decoded : botan.base64_decode a.first.ticket with
    | error what =>
      rw [decoded] at here
      cases here
    | ok ticketData =>
      rw [decoded] at here
      dsimp only at here ⊢
      cases checked : checkTicket a.first.guid ticketData a.first.times.timeVal with
      | error r =>
        rw [checked] at here
        cases here
      | ok id' =>
        rw [checked] at here
        cases here
        have used : s'.insert id a.retryTimes = none := if_pos (((inserted inserts).2 id).mpr (.inl rfl))
        rcases @checkTicketLater _ _ _ a.retryTimes.timeVal _ checked with same | expired
        · have now : checkTicket (a.retry pk).guid ticketData (a.retry pk).times.timeVal = .ok id := same
          have times : (a.retry pk).times = a.retryTimes := rfl
          rw [now]
          dsimp only
          rw [times,used]
          exact .inl rfl
        · have now : checkTicket (a.retry pk).guid ticketData (a.retry pk).times.timeVal = .error .Expired := expired
          rw [now]
          exact .inr rfl

def Genuine (s : TicketHistory) : Prop := s.tickets.g_ticketList ⊆ s.accepted

theorem honestOfRight (right : Right botan s v) : Honest botan s v := by
  intro id here unused
  have kept := right.kept
  have once := right.once
  have did := @verified Key botan s.tickets v
  unfold verify at kept
  unfold result at kept once
  generalize VerifyTicket botan s.tickets v = after at did kept once
  cases did with
  | refused absent _ _ _ =>
    rw [here] at absent
    cases absent
  | reused here' used =>
    cases here.symm.trans here'
    exact absurd used unused
  | @taken _ s' r here' _ inserts reused success =>
    cases here.symm.trans here'
    have accepted : r = .Success := by
      by_contra rejected
      have same : s'.g_ticketList = s.tickets.g_ticketList :=
        kept (fun same => rejected (Except.ok.inj same)) (fun same => reused (Except.ok.inj same))
      exact unused (same ▸ ((inserted inserts).2 id).mpr (.inl rfl))
    exact ⟨success.mp accepted,once (congrArg _ accepted) id here⟩

theorem Genuine.right (genuine : s.Genuine) (honest : Honest botan s v) : Right botan s v := by
  have did := @verified Key botan s.tickets v
  have same : (s.verify botan v).tickets = (VerifyTicket botan s.tickets v).1 := rfl
  constructor
  · intro accepted id here
    unfold result at accepted
    generalize VerifyTicket botan s.tickets v = after at did accepted
    cases did with
    | refused absent success _ _ => exact absurd accepted success
    | reused here' used => cases accepted
    | taken here' unused _ _ _ =>
      cases here.symm.trans here'
      exact (honest _ here' unused).2
  · intro rejected reused
    rw [same]
    unfold result at rejected reused
    generalize VerifyTicket botan s.tickets v = after at did rejected reused
    cases did with
    | refused _ _ _ _ => rfl
    | reused _ _ => exact absurd rfl reused
    | taken here' unused _ _ success =>
      exact absurd (congrArg _ (success.mpr (honest _ here' unused).1)) rejected
  · intro reused id here
    unfold result at reused
    generalize VerifyTicket botan s.tickets v = after at did reused
    cases did with
    | refused _ _ other _ => exact absurd reused other
    | reused here' used =>
      cases here.symm.trans here'
      exact genuine used
    | taken _ _ _ other _ => exact absurd (Except.ok.inj reused) other

/-- The history against the tickets that were presented: each was accepted, and those are on the list that a clear
has not taken off it. -/
structure Follows (s : TicketHistory) (log : Presented) : Prop where
  apart : (log.map Prod.fst).Nodup
  accepted : ∀ id, id ∈ s.accepted ↔ id ∈ log.map Prod.fst
  deadline : s.tickets.g_nextTicketGc = deadline log
  listed : ∀ id, id ∈ s.tickets.g_ticketList ↔ id ∈ log.map Prod.fst ∧ ¬Forgotten log id

section Log
variable {log : Presented} {times : Times}

theorem deadlineSnoc : deadline (log ++ [(id,times)]) =
    if times.msec > deadline log then times.msecGc + 30 * 60 * 1000 else deadline log := List.foldl_append

theorem deadlineStays {after : Presented} (early : ∀ e ∈ after, e.2.msec ≤ deadline log) : deadline (log ++ after) = deadline log := by
  unfold deadline at early ⊢
  rw [List.foldl_append]
  refine foldKeeps (fun d => d = _) (fun d e mem same => ?_) rfl
  rw [same]
  exact if_neg (not_lt_of_ge (early e mem))

theorem forgottenSnoc {other : TicketId} (mem : other ∈ log.map Prod.fst) :
    Forgotten (log ++ [(id,times)]) other ↔ Forgotten log other ∨ times.msec > deadline log := by
  constructor
  · rintro ⟨before,at_,after,split,e,later,late⟩
    rcases List.eq_nil_or_concat' after with rfl | ⟨after,last,rfl⟩
    · cases later
    rw [← List.cons_append,← List.append_assoc] at split
    obtain ⟨front,isLast⟩ := List.append_inj' split rfl
    cases isLast
    by_contra kept
    obtain ⟨remembered,early⟩ := not_or.mp kept
    have stays : ∀ e ∈ after, e.2.msec ≤ deadline (before ++ [(other,at_)]) := fun e mem =>
      le_of_not_gt (fun late => remembered ⟨before,at_,after,front,e,mem,late⟩)
    have whole : deadline log = deadline (before ++ [(other,at_)]) := by
      rw [front,List.append_cons]
      exact deadlineStays stays
    rcases List.mem_append.mp later with among | isNew
    · exact absurd late (not_lt_of_ge (stays e among))
    · cases List.mem_singleton.mp isNew
      exact early (whole ▸ late)
  · rintro (⟨before,at_,after,split,e,later,late⟩ | late)
    · exact ⟨before,at_,after ++ [(id,times)],by rw [split]; simp,e,List.mem_append_left _ later,late⟩
    · obtain ⟨⟨named,at_⟩,there,rfl⟩ := List.mem_map.mp mem
      obtain ⟨before,after,split⟩ := List.append_of_mem there
      by_cases early : ∀ e ∈ after, e.2.msec ≤ deadline (before ++ [(named,at_)])
      · refine ⟨before,at_,after ++ [(id,times)],by rw [split]; simp,(id,times),List.mem_concat_self,?_⟩
        rwa [split,List.append_cons,deadlineStays early] at late
      · simp only [not_forall,not_le] at early
        obtain ⟨e,later,late⟩ := early
        exact ⟨before,at_,after ++ [(id,times)],by rw [split]; simp,e,List.mem_append_left _ later,late⟩

theorem forgottenNew (new : id ∉ log.map Prod.fst) : ¬Forgotten (log ++ [(id,times)]) id := by
  rintro ⟨before,at_,after,split,e,later,-⟩
  rcases List.eq_nil_or_concat' after with rfl | ⟨after,last,rfl⟩
  · cases later
  rw [← List.cons_append,← List.append_assoc] at split
  obtain ⟨front,-⟩ := List.append_inj' split rfl
  refine new (List.mem_map.mpr ⟨(id,at_),?_,rfl⟩)
  rw [front]
  simp

end Log

namespace Follows
variable {log : Presented} {a : Attempt Key}

theorem genuine (follows : Follows s log) : s.Genuine :=
  fun id mem => (follows.accepted id).mpr ((follows.listed id).mp mem).1

theorem honestIff (follows : Follows s log) : Honest botan s a.first ↔ Timely botan log a := by
  refine forall₂_congr (fun id _ => ?_)
  rw [follows.accepted,follows.listed]
  split
  · rename_i mem
    simp [mem]
  · rename_i new
    simp [new]

theorem begin : Follows start [] where
  apart := List.nodup_nil
  accepted _ := iff_of_false (Finset.notMem_empty _) List.not_mem_nil
  deadline := rfl
  listed _ := iff_of_false (Finset.notMem_empty _) (fun both => List.not_mem_nil both.1)

theorem taken (follows : Follows s log) {s' : Tickets} {times : Times} (new : id ∉ log.map Prod.fst)
    (inserts : s.tickets.insert id times = some s') :
    Follows ⟨s',s.accepted ∪ (some id).toFinset⟩ (log ++ [(id,times)]) := by
  obtain ⟨gc,list⟩ := inserted inserts
  have names : (log ++ [(id,times)]).map Prod.fst = log.map Prod.fst ++ [id] := List.map_append
  refine ⟨?_,fun other => ?_,?_,fun other => ?_⟩
  · rw [names]
    exact List.nodup_append.mpr ⟨follows.apart,List.nodup_singleton _,fun a mem b isNew same =>
      new (List.mem_singleton.mp isNew ▸ same ▸ mem)⟩
  · rw [names,List.mem_append,List.mem_singleton,← follows.accepted]
    exact Finset.mem_union.trans (or_congr_right (Option.mem_toFinset.trans (Option.mem_some_iff.trans eq_comm)))
  · rw [deadlineSnoc,← follows.deadline]
    exact gc
  · rw [list,names,List.mem_append,List.mem_singleton,follows.deadline,follows.listed]
    by_cases same : other = id
    · rw [same]
      exact iff_of_true (.inl rfl) ⟨.inr rfl,forgottenNew new⟩
    · rw [or_iff_right same,or_iff_left same,and_assoc]
      refine and_congr_right (fun mem => ?_)
      rw [forgottenSnoc mem,not_or,gt_iff_lt,not_lt]

end Follows

theorem callsHead (s : TicketHistory) (a : Attempt Key) : ∃ rest, s.calls botan a = a.first :: rest := by
  unfold calls
  split
  · exact ⟨_,rfl⟩
  · exact ⟨_,rfl⟩

theorem callsHonest (honest : Honest botan s a.first) : s.calls botan a = [a.first] := by
  unfold calls
  split
  · rename_i refused _
    have did := @verified Key botan s.tickets a.first
    unfold result at refused
    generalize VerifyTicket botan s.tickets a.first = after at did refused
    cases did with
    | refused _ _ _ signature => exact absurd refused signature
    | reused _ _ => cases refused
    | taken here unused _ _ success =>
      have accepted := success.mpr (honest _ here unused).1
      rw [accepted] at refused
      cases refused
  · rfl

theorem Genuine.rightAttempt (genuine : s.Genuine) (a : Attempt Key) :
    s.RightAttempt botan a ↔ Honest botan s a.first := by
  constructor
  · intro right
    unfold RightAttempt at right
    obtain ⟨rest,calls⟩ := @callsHead Key botan s a
    rw [calls] at right
    exact honestOfRight right.1
  · intro honest
    unfold RightAttempt
    rw [callsHonest honest]
    exact ⟨genuine.right honest,trivial⟩

theorem Follows.kept {log : Presented} {a : Attempt Key} (follows : Follows s log) (right : s.RightAttempt botan a) :
    Follows (s.step botan a) (present botan log a) := by
  have honest := (follows.genuine.rightAttempt a).mp right
  have did := @verified Key botan s.tickets a.first
  unfold step present
  rw [callsHonest honest]
  show Follows (s.verify botan a.first) _
  unfold verify result
  generalize VerifyTicket botan s.tickets a.first = after at did
  cases did with
  | refused absent success _ _ =>
    dsimp only
    rw [if_neg success,absent]
    exact follows
  | reused here used =>
    dsimp only
    rw [if_neg (fun same => by cases same),here]
    dsimp only
    rw [if_pos ((follows.listed _).mp used).1]
    exact follows
  | taken here unused inserts _ success =>
    obtain ⟨valid,fresh⟩ := honest _ here unused
    have new := fun mem => fresh ((follows.accepted _).mpr mem)
    dsimp only
    rw [if_pos (congrArg _ (success.mpr valid)),here]
    dsimp only
    rw [if_neg new]
    exact follows.taken new inserts

theorem unsignedTaken {a : Attempt Key} (here : presented botan a.first = some id) (unsigned : ¬signed botan a.first) :
    ¬Along (step botan) (RightAttempt botan) start [a] := by
  intro along
  have genuine : Genuine start := Finset.empty_subset _
  have honest : Honest botan start a.first := (genuine.rightAttempt a).mp along.1
  exact unsigned (honest id here (Finset.notMem_empty _)).1

theorem ticketsUsedOnce (botan : Botan Key) (attempts : List (Attempt Key)) :
    Along (step botan) (RightAttempt botan) start attempts ↔ Along (present botan) (Timely botan) [] attempts := by
  refine alongIffRelated Follows (fun s log a follows right => ?_) (fun s log a follows => ?_) .begin
  · exact follows.kept right
  · exact (follows.genuine.rightAttempt a).trans follows.honestIff

def afterRotation : Attempt Bool where
  first := {
    guid := text "1"
    ticket := text "EAAAAAEAAAAAAAAAAJQ1dwAAAACAAAAA" ++ List.replicate 171 (byte 'A') ++ [byte '=']
    pk := false
    times := ⟨1700000000,1700000000000,1700000000000⟩ }
  refetched := some (some true)
  retryTimes := ⟨1700000001,1700000001000,1700000001000⟩

def rotatedTicket : List Byte :=
  [16,0,0,0,1,0,0,0,0,0,0,0,0,148,53,119,0,0,0,0,128,0,0,0] ++ List.replicate 128 0

def rotated : Botan Bool where
  base64_decode ticket := if ticket = afterRotation.first.ticket then .ok rotatedTicket else .error []
  SHA_160 _ := [12,36,76,101,101,41,98,150,26,3,190,31,221,168,17,188,253,32,144,95]
  verify_message pk _ _ := pk

theorem retriedAfterRotation :
    (start.verify rotated afterRotation.first).result rotated (afterRotation.retry true) = .ok .Reused ∨
      (start.verify rotated afterRotation.first).result rotated (afterRotation.retry true) = .ok .Expired :=
  retryRefused afterRotation true (by decide +kernel)

theorem refusedAfterRotation :
    (authorize rotated start.tickets afterRotation).2 = some (text "Ticket authorization failed. Reused ticket.") ∧
      ¬Along (step rotated) (RightAttempt rotated) start [afterRotation] := by
  refine ⟨by decide +kernel,?_⟩
  have here : presented rotated afterRotation.first = some (2000000000,1) := by decide +kernel
  have unsigned : ¬signed rotated afterRotation.first := by
    have invalid : checkSignature rotated rotatedTicket false = .InvalidSignature := by decide +kernel
    have decoded : rotated.base64_decode afterRotation.first.ticket = .ok rotatedTicket := by
      simp only [rotated,if_true]
    unfold signed
    rw [decoded]
    intro valid
    cases invalid.symm.trans valid
  exact unsignedTaken here unsigned

end TicketHistory
end Citizen.Security
