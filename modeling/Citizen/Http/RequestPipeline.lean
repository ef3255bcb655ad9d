import Citizen.Http.Http1Connection
import Mathlib.Data.List.TakeWhile

/-! However the requests of a connection are cut into reads, the handlers are given them with their bodies. -/
namespace Citizen.Http
open BitField (Byte)
open Numeral (value digitValue)

variable {δ : Type}

inductive RequestBody where
  | none
  | length (data : List Byte)
  | chunked (data coded : List Byte)

def RequestBody.wire : RequestBody → List Byte
  | .none => []
  | .length data => data
  | .chunked _ coded => coded

def RequestBody.data : RequestBody → Option (List Byte)
  | .none => Option.none
  | .length data => some data
  | .chunked data _ => some data

structure Sent where
  head : List Byte
  request : HttpRequest
  body : RequestBody

def wire (requests : List Sent) : List Byte := requests.flatMap (fun r => r.head ++ r.body.wire)

structure Decodes (parser : PicoHttp δ) (data coded : List Byte) (plain : List Byte → List Byte)
    (holds : δ → List Byte → Prop) : Prop where
  zero : holds parser.zero []
  nothing : plain [] = []
  filled : coded ≠ []
  more : ∀ {decoder : δ} {fed piece : List Byte}, holds decoder fed → piece ≠ [] → fed ++ piece <+: coded →
    (fed ++ piece).length < coded.length →
    ∃ decoder' buf bufsz, parser.decodeChunked decoder piece = .incomplete decoder' buf bufsz ∧
      holds decoder' (fed ++ piece) ∧ buf.length = piece.length ∧ bufsz ≤ buf.length ∧
      plain (fed ++ piece) = plain fed ++ buf.take bufsz
  last : ∀ {decoder : δ} {fed piece rest : List Byte}, holds decoder fed → fed.length < coded.length →
    fed ++ piece = coded ++ rest →
    ∃ buf bufsz, parser.decodeChunked decoder piece = .done buf bufsz rest.length ∧ buf.length = piece.length ∧
      bufsz ≤ buf.length ∧ plain fed ++ buf.take bufsz = data

structure Sent.Valid (parser : PicoHttp δ) (r : Sent) : Prop where
  filled : r.head ≠ []
  whole : ∀ later lastLength, lastLength < r.head.length →
    parser.parseRequest (r.head ++ later) lastLength = .request r.request r.head.length (List.length_pos_iff.mpr filled)
  part : ∀ part lastLength, part <+: r.head → part.length < r.head.length → part ≠ [] → lastLength ≤ part.length →
    parser.parseRequest part lastLength = .incomplete
  announced :
    let contentLength := r.request.headerList.find (text "content-length")
    let transferEncoding := r.request.headerList.find (text "transfer-encoding")
    match r.body with
    | .none => transferEncoding = none ∧ contentLength.elim True (fun t => value 10 t = some 0)
    | .length data => data ≠ [] ∧ transferEncoding = none ∧ ∃ t, contentLength = some t ∧ value 10 t = some data.length
    | .chunked data coded =>
      contentLength = none ∧ (∃ t, transferEncoding = some t ∧ t.map tolower = text "chunked") ∧
        ∃ plain holds, Decodes parser data coded plain holds

def Sent.Readable (r : Sent) : Prop :=
  match r.body with
  | .none => True
  | .length data => data.length < 2 ^ 31
  | .chunked _ _ => r.request.headerList.find (text "transfer-encoding") = some (text "chunked")

namespace Service

def start (parser : PicoHttp δ) (requests : List Sent) : Service δ := ⟨.accept parser,wire requests⟩

structure Faithful (requests : List Sent) (s : Service δ) : Prop where
  inOrder : s.connection.exchanges.map Exchange.request <+: requests.map Sent.request
  bodies : ∀ (i : Nat) (r : Sent) (x : Exchange), requests[i]? = some r → s.connection.exchanges[i]? = some x →
    x.delivered = [] ∨ ∃ data, r.body.data = some data ∧ x.delivered = [data]
  complete : s.unread = [] → s.connection.callback = none → (s.connection.scheduled = 0 ∨ s.connection.closed = true) →
    (∀ x ∈ s.connection.exchanges, x.ended = true) →
    s.connection.readBuffer = [] ∧ s.connection.exchanges.length = requests.length ∧
      ∀ (i : Nat) (r : Sent) (x : Exchange) data, requests[i]? = some r → s.connection.exchanges[i]? = some x → r.body.data = some data →
        x.installed = true → x.delivered = [data]

def chunkedBody (request : HttpRequest) : Bool :=
  decide (atoi (request.GetHeader (text "content-length") (text "0")) ≤ 0) &&
    decide (request.GetHeader (text "transfer-encoding") [] = text "chunked")

def Ready (parser : PicoHttp δ) (s : Service δ) : ServiceEvent → Prop
  | .read n => s.connection.closed = false → s.connection.callback = none →
    s.connection.readBuffer.length + (s.unread.take (n + 1)).length ≤ Connection.bufferLimit
  | .ping => s.connection.readBuffer.length ≤ Connection.bufferLimit
  | .iterate => s.connection.readState ≠ .Request →
    (s.connection.callback = some true → s.unread ≠ []) ∧
      (s.connection.callback = some false → s.connection.readState = .Chunked →
        (parser.decodeChunked s.connection.decoder
          (s.connection.readBuffer.drop s.connection.requestData.length)).atEnd = 0)
  | .SetDataHandler i => ∀ x, s.connection.exchanges[i]? = some x → x.installed = false → chunkedBody x.request = true →
    i + 1 = s.connection.exchanges.length ∧ s.connection.readState = .Chunked
  | .close i => (s.connection.exchanges[i]?).any Exchange.closes = true →
    s.unread = [] ∧ s.connection.readBuffer = [] ∧ s.connection.readState = .Request
  | _ => True

def Holds (bodyRead : Prop) (r : Sent) (x : Exchange) : Prop :=
  x.request = r.request ∧
    match r.body.data with
    | none => x.delivered = [] ∧ x.m_pendingData = none
    | some data =>
      (¬bodyRead → x.delivered = [] ∧ x.m_pendingData = none ∧ x.m_dataHandler = x.installed) ∧
        (bodyRead → x.installed = true → x.delivered = [data] ∧ x.m_pendingData = none) ∧
          (bodyRead → x.installed = false →
            x.delivered = [] ∧ x.m_pendingData = if chunkedBody r.request then none else some data)

def Located (parser : PicoHttp δ) (requests : List Sent) (s : Service δ) : Prop :=
  let c := s.connection
  let n := c.exchanges.length
  match c.readState with
  | .Request =>
    c.readBuffer ++ s.unread = wire (requests.drop n) ∧ c.requestData = [] ∧ c.lastLength ≤ c.readBuffer.length ∧
      ∀ r, requests[n]? = some r → c.lastLength < r.head.length ∧
        (c.callback = none → c.reqState.blocked = false → c.scheduled = 0 → c.readBuffer.length < r.head.length)
  | .Body => ∃ i r data, n = i + 1 ∧ requests[i]? = some r ∧ r.body = .length data ∧ data ≠ [] ∧
    c.readBuffer ++ s.unread = data ++ wire (requests.drop n) ∧ c.contentLength = data.length ∧ c.lastLength = 0 ∧
    c.requestData = []
  | .Chunked => ∃ i r data coded plain holds fed, n = i + 1 ∧ requests[i]? = some r ∧ r.body = .chunked data coded ∧
    Decodes parser data coded plain holds ∧ c.readBuffer ++ s.unread = coded ++ wire (requests.drop n) ∧
    fed <+: c.readBuffer ∧ fed.length < coded.length ∧ c.requestData.length = fed.length ∧ holds c.decoder fed ∧
    c.lastLength = (plain fed).length ∧ c.lastLength ≤ c.requestData.length ∧
    c.requestData.take c.lastLength = plain fed ∧ (c.callback = some false → fed.length < c.readBuffer.length)

structure Sound (parser : PicoHttp δ) (requests : List Sent) (s : Service δ) : Prop where
  valid : s.connection.invalid = false
  ping : s.connection.reqState.ping = true
  unended : s.connection.exchanges.countP (fun x => !x.ended) = if s.connection.reqState.blocked then 1 else 0
  few : s.connection.exchanges.length ≤ requests.length
  held : ∀ (i : Nat) (r : Sent) (x : Exchange), requests[i]? = some r → s.connection.exchanges[i]? = some x →
    Holds (i + 1 < s.connection.exchanges.length ∨ s.connection.readState = .Request) r x
  located : Located parser requests s
  waits : s.connection.callback = none → s.connection.readState ≠ .Request → s.unread ≠ []
  finished : s.connection.closed = true →
    s.unread = [] ∧ s.connection.readBuffer = [] ∧ s.connection.readState = .Request

end Service

theorem atoiValue {t : Text} {n : Nat} (digits : value 10 t = some n) (small : n < 2 ^ 31) : atoi t = n := by
  have each : ∀ b ∈ t, (digitValue 10 b).isSome = true := by
    intro b mem
    by_contra other
    rw [Numeral.valueNone mem (Option.not_isSome_iff_eq_none.mp other)] at digits
    cases digits
  have zero : t.takeWhile (fun b => b ≠ 0) = t := by
    have others : ∀ b, (digitValue 10 b).isSome = true → decide (b ≠ 0) = true := by decide
    exact List.takeWhile_eq_self_iff.mpr (fun b mem => others b (each b mem))
  have all : t.takeWhile (fun b => (digitValue 10 b).isSome) = t := List.takeWhile_eq_self_iff.mpr each
  have long : BitVec.ofInt 32 (min (n : Int) (2 ^ 63 - 1)) = BitVec.ofNat 32 n := by
    rw [Int.min_eq_left (by omega)]
    rfl
  cases t with
  | nil => cases digits
  | cons b rest =>
    have first : ∀ b, (digitValue 10 b).isSome = true → Console.isspace b = false ∧ b ≠ byte '-' ∧ b ≠ byte '+' := by
      decide
    obtain ⟨space,minus,plus⟩ := first b (each b List.mem_cons_self)
    unfold atoi
    rw [zero]
    simp only [List.dropWhile_cons_of_neg (by simp [space] : ¬Console.isspace b = true),List.head?_cons,Option.some_inj,
      minus,plus,or_self,if_false]
    rw [all,digits]
    simp only [Option.getD_some,long]
    rw [BitVec.toInt_ofNat',Int.bmod_eq_of_le (by omega) (by omega)]

theorem readAnnounced {parser : PicoHttp δ} {r : Sent} (valid : r.Valid parser) (readable : r.Readable) :
    let contentLength := atoi (r.request.GetHeader (text "content-length") (text "0"))
    match r.body with
    | .none => contentLength = 0 ∧ r.request.GetHeader (text "transfer-encoding") [] ≠ text "chunked"
    | .length data => contentLength = data.length ∧ data ≠ []
    | .chunked _ _ => contentLength = 0 ∧ r.request.GetHeader (text "transfer-encoding") [] = text "chunked" := by
  have announced := valid.announced
  have zero : atoi (text "0") = 0 := by decide
  unfold Sent.Readable at readable
  unfold HttpRequest.GetHeader
  cases body : r.body with
  | none =>
    rw [body] at announced
    obtain ⟨unencoded,length⟩ := announced
    constructor
    · cases found : r.request.headerList.find (text "content-length") with
      | none => exact zero
      | some t =>
        rw [found] at length
        exact atoiValue length (by decide)
    · rw [unencoded]
      decide
  | length data =>
    rw [body] at announced readable
    obtain ⟨filled,-,t,found,length⟩ := announced
    rw [found]
    exact ⟨atoiValue length readable,filled⟩
  | chunked data coded =>
    rw [body] at announced readable
    rw [announced.1,readable]
    exact ⟨zero,rfl⟩

namespace Service
variable {parser : PicoHttp δ} {requests : List Sent} {s : Service δ}

theorem wireDrop {i : Nat} {r : Sent} (here : requests[i]? = some r) :
    wire (requests.drop i) = r.head ++ (r.body.wire ++ wire (requests.drop (i + 1))) := by
  obtain ⟨inside,rfl⟩ := List.getElem?_eq_some_iff.mp here
  rw [List.drop_eq_getElem_cons inside,wire,List.flatMap_cons,List.append_assoc]
  rfl

theorem soundStart (valid : ∀ r ∈ requests, r.Valid parser) : Sound parser requests (start parser requests) where
  valid := rfl
  ping := rfl
  unended := rfl
  few := Nat.zero_le _
  held _ _ _ _ inside := by cases inside
  located := by
    refine ⟨rfl,rfl,Nat.le_refl _,fun r here => ?_⟩
    have filled : 0 < r.head.length := List.length_pos_iff.mpr (valid r (List.mem_of_getElem? here)).filled
    exact ⟨filled,fun _ _ _ => filled⟩
  waits _ other := absurd rfl other
  finished shut := by cases shut

theorem Sound.received (sound : Sound parser requests s) (open' : s.connection.closed = false) (m scheduled : Nat) :
    Sound parser requests ⟨{ s.connection with
      scheduled := scheduled
      readBuffer := s.connection.readBuffer ++ s.unread.take m
      callback := some (s.unread.take m = []) },s.unread.drop m⟩ := by
  have same : s.connection.readBuffer ++ s.unread.take m ++ s.unread.drop m = s.connection.readBuffer ++ s.unread := by
    rw [List.append_assoc,List.take_append_drop]
  refine ⟨sound.valid,sound.ping,sound.unended,sound.few,sound.held,?_,(fun none => nomatch none),
    (fun shut => absurd (open'.symm.trans shut) Bool.false_ne_true)⟩
  have located := sound.located
  unfold Located at located ⊢
  dsimp only at located ⊢
  rw [same]
  cases readState : s.connection.readState with
  | Request =>
    rw [readState] at located
    obtain ⟨stream,data,short,next⟩ := located
    refine ⟨stream,data,?_,fun r here => ⟨(next r here).1,fun none => nomatch none⟩⟩
    rw [List.length_append]
    exact Nat.le_add_right_of_le short
  | Body =>
    rw [readState] at located
    exact located
  | Chunked =>
    rw [readState] at located
    obtain ⟨i,r,data,coded,plain,holds,fed,last,here,body,decodes,stream,arrived,short,size,state,length,fits,taken,-⟩ :=
      located
    refine ⟨i,r,data,coded,plain,holds,fed,last,here,body,decodes,stream,arrived.trans (List.prefix_append _ _),short,size,
      state,length,fits,taken,fun nonempty => ?_⟩
    have filled : s.unread.take m ≠ [] := of_decide_eq_false (Option.some.inj nonempty)
    have more := List.length_pos_iff.mpr filled
    have before := arrived.length_le
    rw [List.length_append]
    omega

variable {l : List Exchange}

theorem countSame {i : Nat} {f : Exchange → Exchange} (kept : ∀ x, (f x).ended = x.ended) :
    (l.modify i f).countP (fun x => !x.ended) = l.countP (fun x => !x.ended) := by
  by_cases inside : i < l.length
  · obtain ⟨front,x,back,rfl,-,modified⟩ := List.exists_of_modify f inside
    rw [modified]
    simp [List.countP_cons,kept]
  · rw [List.modify_eq_self (Nat.le_of_not_lt inside)]

theorem countEnded {i : Nat} {x : Exchange} (here : l[i]? = some x) (goes : x.ended = false) :
    (l.modify i (fun x => { x with ended := true })).countP (fun x => !x.ended) + 1 = l.countP (fun x => !x.ended) := by
  obtain ⟨inside,rfl⟩ := List.getElem?_eq_some_iff.mp here
  obtain ⟨front,x,back,whole,size,modified⟩ := List.exists_of_modify (fun x : Exchange => { x with ended := true }) inside
  have same : l[i] = x := by
    subst whole
    simp [← size]
  rw [modified]
  rw [same] at goes
  rw [whole]
  simp [goes]
  omega

theorem modified {i j : Nat} {f : Exchange → Exchange} {x : Exchange}
    (here : (l.modify i f)[j]? = some x) : ∃ x', l[j]? = some x' ∧ x = if i = j then f x' else x' := by
  rw [List.getElem?_modify] at here
  obtain ⟨x',inside,rfl⟩ := Option.map_eq_some_iff.mp here
  exact ⟨x',inside,rfl⟩

theorem Located.handled (located : Located parser requests s) {exchanges : List Exchange} {reqState : HttpState}
    {scheduled : Nat} {closed : Bool} (size : exchanges.length = s.connection.exchanges.length)
    (asleep : reqState.blocked = false → scheduled = 0 →
      s.connection.reqState.blocked = false ∧ s.connection.scheduled = 0) :
    Located parser requests ⟨{ s.connection with
      exchanges := exchanges
      reqState := reqState
      scheduled := scheduled
      closed := closed },s.unread⟩ := by
  unfold Located at located ⊢
  dsimp only at located ⊢
  rw [size]
  cases readState : s.connection.readState with
  | Request =>
    rw [readState] at located
    obtain ⟨stream,data,short,next⟩ := located
    refine ⟨stream,data,short,fun r here => ⟨(next r here).1,fun idle free none => ?_⟩⟩
    obtain ⟨free',none'⟩ := asleep free none
    exact (next r here).2 idle free' none'
  | Body =>
    rw [readState] at located
    exact located
  | Chunked =>
    rw [readState] at located
    exact located

theorem Holds.set {bodyRead : Prop} {r : Sent} {x : Exchange} (held : Holds bodyRead r x) (fresh : x.installed = false)
    (unread : chunkedBody r.request = true → ¬bodyRead) : Holds bodyRead r x.SetDataHandler := by
  obtain ⟨request,held⟩ := held
  unfold Holds Exchange.SetDataHandler
  cases data : r.body.data with
  | none =>
    rw [data] at held
    rw [held.2]
    exact ⟨request,held.1,rfl⟩
  | some data' =>
    rw [data] at held
    obtain ⟨before,-,after⟩ := held
    by_cases read : bodyRead
    · obtain ⟨nothing,pending⟩ := after read fresh
      have plain : ¬chunkedBody r.request = true := fun chunked => unread chunked read
      rw [if_neg plain] at pending
      rw [pending]
      exact ⟨request,fun not => absurd read not,fun _ _ => ⟨by rw [nothing]; rfl,rfl⟩,fun _ no => nomatch no⟩
    · obtain ⟨nothing,pending,-⟩ := before read
      rw [pending]
      exact ⟨request,fun _ => ⟨nothing,rfl,rfl⟩,fun yes => absurd yes read,fun yes => absurd yes read⟩

section
variable (sound : Sound parser requests s)
include sound

theorem Sound.set {i : Nat} (ready : Ready parser s (.SetDataHandler i)) :
    Sound parser requests (s.step parser (.SetDataHandler i)) := by
  unfold Service.step
  dsimp only
  split
  · rename_i fresh
    have size : (s.connection.exchanges.modify i Exchange.SetDataHandler).length = s.connection.exchanges.length :=
      List.length_modify _ _ _
    refine ⟨sound.valid,sound.ping,?_,size.le.trans sound.few,fun j r x here inside => ?_,
      sound.located.handled size (fun free none => ⟨free,none⟩),sound.waits,sound.finished⟩
    · rw [countSame (fun x => by unfold Exchange.SetDataHandler; split <;> rfl)]
      exact sound.unended
    · obtain ⟨x',before,rfl⟩ := modified inside
      have held := sound.held j r x' here before
      dsimp only
      rw [size]
      split
      · rename_i same
        subst same
        have new : x'.installed = false := by
          rw [before] at fresh
          simpa using fresh
        refine held.set new (fun chunked bodyRead => ?_)
        rw [← held.1] at chunked
        obtain ⟨last,state⟩ := ready x' before new chunked
        rcases bodyRead with earlier | request
        · omega
        · rw [state] at request
          cases request
      · exact held
  · exact sound

theorem Sound.ended (i : Nat) : Sound parser requests (s.step parser (.End i)) := by
  unfold Service.step
  dsimp only
  split
  · rename_i open'
    obtain ⟨x,here,goes⟩ : ∃ x, s.connection.exchanges[i]? = some x ∧ x.ended = false := by
      cases here : s.connection.exchanges[i]? with
      | none =>
        rw [here] at open'
        cases open'
      | some x =>
        rw [here] at open'
        exact ⟨x,rfl,by simpa using open'⟩
    have fewer := countEnded here goes
    have blocked : s.connection.reqState.blocked = true := by
      have unended := sound.unended
      cases blocked : s.connection.reqState.blocked with
      | true => rfl
      | false =>
        rw [blocked] at unended
        rw [unended] at fewer
        exact absurd fewer (Nat.succ_ne_zero _)
    have unblocked : s.connection.reqState.unblock = ({ s.connection.reqState with blocked := false },true) := by
      rw [HttpState.unblock,if_pos blocked]
      exact congrArg (Prod.mk _) sound.ping
    have size : (s.connection.exchanges.modify i (fun x => { x with ended := true })).length =
        s.connection.exchanges.length := List.length_modify _ _ _
    have after : s.connection.endResponse i = { s.connection with
        exchanges := s.connection.exchanges.modify i (fun x => { x with ended := true })
        reqState := { s.connection.reqState with blocked := false }
        scheduled := s.connection.scheduled + 1 } := by
      rw [Connection.endResponse,unblocked]
      rfl
    rw [after]
    refine ⟨sound.valid,sound.ping,?_,size.le.trans sound.few,fun j r x here inside => ?_,
      sound.located.handled size (fun _ none => absurd none (Nat.succ_ne_zero _)),sound.waits,sound.finished⟩
    · have unended := sound.unended
      rw [blocked] at unended
      rw [unended] at fewer
      exact Nat.succ.inj fewer
    · obtain ⟨x',before,rfl⟩ := modified inside
      have held := sound.held j r x' here before
      dsimp only
      rw [size]
      split
      · exact held
      · exact held
  · exact sound

theorem Sound.shut {i : Nat} (ready : Ready parser s (.close i)) :
    Sound parser requests (s.step parser (.close i)) := by
  unfold Service.step
  dsimp only
  split
  · rename_i closes
    exact ⟨sound.valid,sound.ping,sound.unended,sound.few,sound.held,
      sound.located.handled rfl (fun free none => ⟨free,none⟩),sound.waits,fun _ => ready closes⟩
  · exact sound

end

end Service
end Citizen.Http
