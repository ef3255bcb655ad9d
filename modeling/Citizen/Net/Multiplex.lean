import Citizen.Lib.BitField

/-! `MultiplexTcpServer`: which of its servers a connection is handed to, by the bytes that have come in. -/
namespace Citizen.Net
open BitField (Byte)

inductive MultiplexPatternMatchResult where
  | NoMatch
  | Match
  | InsufficientData
  deriving DecidableEq

abbrev MultiplexPatternMatchFn := List Byte → Option MultiplexPatternMatchResult

namespace Multiplex
open MultiplexPatternMatchResult

inductive Detected (server : Type) where
  | attached (s : server)
  | close
  | wait
  deriving DecidableEq

section
variable {server : Type}

def detect (bytes : List Byte) (needMoreData : Bool) : List (server × MultiplexPatternMatchFn) → Option (Detected server)
  | [] => some (if needMoreData then .wait else .close)
  | (s,matchFunction) :: rest =>
    match matchFunction bytes with
    | none => none
    | some Match => some (.attached s)
    | some InsufficientData => detect bytes true rest
    | some NoMatch => detect bytes needMoreData rest

inductive Connection (server : Type) where
  | detecting (recvQueue : List Byte)
  | attached (s : server) (data : List Byte)
  | closed
  deriving DecidableEq

def Connection.servedBy : Connection server → Option server
  | attached s _ => some s
  | _ => none

variable (m_childServers : List (server × MultiplexPatternMatchFn))

def readCallback (c : Connection server) (data : List Byte) : Option (Connection server) :=
  match c with
  | .detecting recvQueue =>
    if data = [] then some c
    else (detect (recvQueue ++ data) false m_childServers).map (fun detected =>
      match detected with
      | .attached s => .attached s (recvQueue ++ data)
      | .close => .closed
      | .wait => .detecting (recvQueue ++ data))
  | .attached s given => some (.attached s (given ++ data))
  | .closed => some .closed

def receive (c : Connection server) (reads : List (List Byte)) : Option (Connection server) :=
  reads.foldlM (readCallback m_childServers) c

def Alike (bytes : List Byte) : Prop :=
  ∃ s : Option server, ∀ reads : List (List Byte), reads.flatten = bytes →
    ∃ c, receive m_childServers (.detecting []) reads = some c ∧ c.servedBy = s ∧ ∀ s' data, c = .attached s' data → data = bytes

def Settles (bytes : List Byte) (n : Nat) : Prop :=
  ∃ early, detect (bytes.take n) false m_childServers = some early ∧
    (early = .wait ∨ ∀ s, early = .attached s ↔ detect bytes false m_childServers = some (.attached s))

variable {m_childServers} {bytes : List Byte} {c : Connection server}

theorem receiveAttached {s : server} (given : List Byte) (reads : List (List Byte)) :
    receive m_childServers (.attached s given) reads = some (.attached s (given ++ reads.flatten)) := by
  induction reads generalizing given with
  | nil => simp [receive]
  | cons data reads ih =>
    rw [receive,List.foldlM_cons]
    exact (ih (given ++ data)).trans (by rw [List.flatten_cons,List.append_assoc])

theorem receiveClosed (reads : List (List Byte)) : receive m_childServers .closed reads = some .closed := by
  induction reads with
  | nil => rfl
  | cons data reads ih =>
    rw [receive,List.foldlM_cons]
    exact ih

def chosen (m_childServers : List (server × MultiplexPatternMatchFn)) (bytes : List Byte) : Option server :=
  if bytes = [] then none
  else
    match detect bytes false m_childServers with
    | some (.attached s) => some s
    | _ => none

theorem receiveSettled (settles : ∀ n, 0 < n → n ≤ bytes.length → Settles m_childServers bytes n)
    {recvQueue : List Byte} {reads : List (List Byte)} (whole : recvQueue ++ reads.flatten = bytes)
    (waiting : recvQueue = [] ∨ detect recvQueue false m_childServers = some .wait) :
    ∃ c, receive m_childServers (.detecting recvQueue) reads = some c ∧ c.servedBy = chosen m_childServers bytes ∧
      ∀ s data, c = .attached s data → data = bytes := by
  induction reads generalizing recvQueue with
  | nil =>
    rw [List.flatten_nil,List.append_nil] at whole
    subst whole
    refine ⟨.detecting recvQueue,rfl,?_,fun _ _ same => by cases same⟩
    unfold chosen
    split
    · rfl
    · rename_i some_
      rw [waiting.resolve_left some_]
      rfl
  | cons data reads ih =>
    rw [receive,List.foldlM_cons,readCallback]
    by_cases none_ : data = []
    · subst none_
      rw [if_pos rfl]
      exact ih (by simpa using whole) waiting
    · rw [if_neg none_]
      rw [List.flatten_cons,← List.append_assoc] at whole
      have some_ : bytes ≠ [] := by
        rintro rfl
        simp_all
      have front : bytes.take (recvQueue ++ data).length = recvQueue ++ data := by
        rw [← whole]
        exact List.take_left' rfl
      have positive : 0 < (recvQueue ++ data).length := List.length_pos_iff.mpr (by simp [none_])
      have few : (recvQueue ++ data).length ≤ bytes.length := by
        rw [← whole]
        exact (List.prefix_append _ _).length_le
      obtain ⟨early,detected,settled⟩ := settles _ positive few
      rw [front] at detected
      rw [detected]
      cases early with
      | wait => exact ih whole (.inr detected)
      | attached s =>
        have last := ((settled.resolve_left (by simp)) s).mp rfl
        refine ⟨_,receiveAttached _ reads,?_,fun _ _ same => ?_⟩
        · simp [chosen,some_,last,Connection.servedBy]
        · cases same
          exact whole
      | close =>
        refine ⟨_,receiveClosed reads,?_,fun _ _ same => by cases same⟩
        unfold chosen
        rw [if_neg some_]
        split
        · rename_i s last
          exact absurd (((settled.resolve_left (by simp)) s).mpr last) (by simp)
        · rfl

theorem receiveFirst {data : List Byte} (some_ : data ≠ []) (reads : List (List Byte)) :
    receive m_childServers (.detecting []) (data :: reads) = (detect data false m_childServers).bind (fun detected =>
      match detected with
      | .attached s => some (.attached s (data ++ reads.flatten))
      | .close => some .closed
      | .wait => receive m_childServers (.detecting data) reads) := by
  rw [receive,List.foldlM_cons,readCallback,if_neg some_,List.nil_append]
  cases detect data false m_childServers with
  | none => rfl
  | some detected =>
    cases detected with
    | attached s => exact receiveAttached _ reads
    | close => exact receiveClosed reads
    | wait => rfl

theorem alikeIff : Alike m_childServers bytes ↔ ∀ n, 0 < n → n ≤ bytes.length → Settles m_childServers bytes n := by
  constructor
  · rintro ⟨s,all⟩ n positive few
    have nonempty : bytes ≠ [] := List.length_pos_iff.mp (lt_of_lt_of_le positive few)
    have some_ : bytes.take n ≠ [] := List.length_pos_iff.mp (by rw [List.length_take]; omega)
    obtain ⟨whole,received,isServer,_⟩ := all [bytes] (by simp)
    obtain ⟨cut,received',isServer',_⟩ := all [bytes.take n,bytes.drop n] (by simp)
    rw [receiveFirst nonempty] at received
    rw [receiveFirst some_] at received'
    obtain ⟨last,detected,result⟩ := Option.bind_eq_some_iff.mp received
    obtain ⟨early,detected',result'⟩ := Option.bind_eq_some_iff.mp received'
    have atEnd (t : server) : whole.servedBy = some t ↔ last = .attached t := by
      cases last with
      | attached u =>
        cases Option.some.inj result
        simp [Connection.servedBy]
      | close =>
        cases Option.some.inj result
        simp [Connection.servedBy]
      | wait =>
        cases Option.some.inj (result : some _ = some whole)
        simp [Connection.servedBy]
    refine ⟨early,detected',?_⟩
    rw [detected]
    simp only [Option.some.injEq,← atEnd,isServer,← isServer']
    cases early with
    | wait => exact .inl rfl
    | attached t =>
      cases Option.some.inj result'
      exact .inr (fun u => by simp [Connection.servedBy])
    | close =>
      cases Option.some.inj result'
      exact .inr (fun u => by simp [Connection.servedBy])
  · exact fun settles => ⟨chosen m_childServers bytes,fun reads whole => receiveSettled settles whole (.inl rfl)⟩

end
end Multiplex
end Citizen.Net
