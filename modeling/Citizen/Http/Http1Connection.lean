import Citizen.Console.CommandBuffer
import Citizen.Http.Http1Response
import Citizen.Lib.Run

/-! Connections of the HTTP/1 server: reads, requests and bodies, up to the handlers. -/
namespace Citizen.Http
open BitField (Byte)
open Numeral (value digitValue)

def atoi (s : Text) : Int :=
  let s := (s.takeWhile (fun b => b ≠ 0)).dropWhile Console.isspace
  let negative := s.head? = some (byte '-')
  let s := if negative ∨ s.head? = some (byte '+') then s.tail else s
  let digits : Int := (value 10 (s.takeWhile (fun b => (digitValue 10 b).isSome))).getD 0
  let long := if negative then max (-digits) (-2 ^ 63) else min digits (2 ^ 63 - 1)
  (BitVec.ofInt 32 long).toInt

inductive Parsed where
  | request (request : HttpRequest) (size : Nat) (positive : 0 < size)
  | bad
  | incomplete

/-- What `phr_decode_chunked` makes of a buffer: how many bytes at its front are data now, and when the chunks are
over how many behind them are left. -/
inductive Decoded (δ : Type) where
  | done (buf : List Byte) (bufsz left : Nat)
  | bad
  | incomplete (decoder : δ) (buf : List Byte) (bufsz : Nat)

def Decoded.atEnd {δ : Type} : Decoded δ → Nat
  | .done _ bufsz _ => bufsz
  | _ => 0

structure PicoHttp (δ : Type) where
  parseRequest : List Byte → Nat → Parsed
  zero : δ
  decodeChunked : δ → List Byte → Decoded δ

structure Exchange where
  request : HttpRequest
  disableKeepAlive : Bool
  m_dataHandler : Bool
  m_pendingData : Option (List Byte)
  installed : Bool
  delivered : List (List Byte)
  ended : Bool

namespace Exchange

def handed (request : HttpRequest) (disableKeepAlive : Bool) : Exchange :=
  ⟨request,disableKeepAlive,false,none,false,[],false⟩

def SetDataHandler (x : Exchange) : Exchange :=
  match x.m_pendingData with
  | some data => { x with installed := true,delivered := x.delivered ++ [data],m_pendingData := none }
  | none => { x with installed := true,m_dataHandler := true }

def callDataHandler (x : Exchange) (data : List Byte) : Exchange :=
  { x with m_dataHandler := false,delivered := x.delivered ++ [data] }

def bodyRead (x : Exchange) (data : List Byte) : Exchange :=
  if x.m_dataHandler then x.callDataHandler data else { x with m_pendingData := some data }

def chunksRead (x : Exchange) (data : List Byte) : Exchange :=
  if x.m_dataHandler then x.callDataHandler data else x

def closes (x : Exchange) : Bool := x.ended && !Http1Response.keepsAlive x.request x.disableKeepAlive

end Exchange

inductive ReadState where
  | Request
  | Body
  | Chunked
  deriving DecidableEq

structure Connection (δ : Type) where
  readState : ReadState
  readBuffer : List Byte
  requestData : List Byte
  lastLength : Nat
  decoder : δ
  contentLength : Int
  pipelineLength : Nat
  invalid : Bool
  reqState : HttpState
  exchanges : List Exchange
  callback : Option Bool
  scheduled : Nat
  closed : Bool

namespace Connection
variable {δ : Type}

def bufferLimit : Nat := 1024 * 1024 * 5

def accept (parser : PicoHttp δ) : Connection δ where
  readState := .Request
  readBuffer := []
  requestData := []
  lastLength := 0
  decoder := parser.zero
  contentLength := 0
  pipelineLength := 0
  invalid := false
  reqState := ⟨false,true⟩
  exchanges := []
  callback := none
  scheduled := 0
  closed := false

def readCallback (c : Connection δ) (data : List Byte) : Connection δ :=
  if c.invalid then c
  else if bufferLimit < c.readBuffer.length + data.length then
    { c with readBuffer := c.readBuffer ++ List.replicate data.length 0,closed := true }
  else { c with readBuffer := c.readBuffer ++ data,callback := some (data = []) }

def goOn (c : Connection δ) (empty : Bool) : Connection δ :=
  { c with callback := if c.readBuffer = [] then none else some empty }

def stop (c : Connection δ) : Connection δ := { c with callback := none }

def expectBody (parser : PicoHttp δ) (c : Connection δ) (request : HttpRequest) : Connection δ :=
  let contentLength := atoi (request.GetHeader (text "content-length") (text "0"))
  if 0 < contentLength then { c with contentLength := contentLength,readState := .Body }
  else if request.GetHeader (text "transfer-encoding") [] = text "chunked" then
    { c with contentLength := -1,lastLength := 0,readState := .Chunked,decoder := parser.zero }
  else c

def readRequest (parser : PicoHttp δ) (c : Connection δ) (empty : Bool) : Connection δ :=
  if c.reqState.blocked then c.stop
  else
    let c := { c with pipelineLength := c.pipelineLength + 1 }
    match if c.readBuffer = [] then .incomplete else parser.parseRequest c.readBuffer c.lastLength with
    | .request request size _ =>
      let c := { c with
        readBuffer := c.readBuffer.drop size
        lastLength := 0
        reqState := { c.reqState with blocked := true }
        exchanges := c.exchanges ++ [Exchange.handed request (10 < c.pipelineLength)] }
      (c.expectBody parser request).goOn empty
    | .bad => { c with invalid := true,closed := true }.stop
    | .incomplete => { c with lastLength := c.readBuffer.length }.stop

def current (c : Connection δ) (f : Exchange → Exchange) : List Exchange := c.exchanges.modify (c.exchanges.length - 1) f

def readBody (c : Connection δ) (empty : Bool) : Connection δ :=
  if empty then c.stop
  else if c.contentLength ≤ c.readBuffer.length then
    let requestData := c.readBuffer.take c.contentLength.toNat
    goOn { c with
      readBuffer := c.readBuffer.drop c.contentLength.toNat
      exchanges := c.current (fun x => x.bodyRead requestData)
      readState := .Request } empty
  else c.stop

def splice (data : List Byte) (start : Nat) (new : List Byte) : List Byte :=
  data.take start ++ new ++ data.drop (start + new.length)

def readChunks (parser : PicoHttp δ) (c : Connection δ) (empty : Bool) : Connection δ :=
  if empty then c.stop
  else
    let added := c.readBuffer.drop c.requestData.length
    let requestData := splice (c.requestData ++ List.replicate added.length 0) c.lastLength added
    match parser.decodeChunked c.decoder added with
    | .incomplete decoder buf bufsz =>
      { c with
        requestData := splice requestData c.lastLength buf
        decoder := decoder
        lastLength := c.lastLength + bufsz }.stop
    | .bad => { c with requestData := requestData,invalid := true,closed := true }.stop
    | .done buf _ left =>
      goOn { c with
        readBuffer := c.readBuffer.drop (c.readBuffer.length - left)
        exchanges := c.current (fun x => x.chunksRead ((splice requestData c.lastLength buf).take c.lastLength))
        requestData := []
        readState := .Request
        lastLength := 0 } empty

def iterate (parser : PicoHttp δ) (c : Connection δ) (empty : Bool) : Connection δ :=
  if c.invalid then c.stop
  else
    match c.readState with
    | .Request => c.readRequest parser empty
    | .Body => c.readBody empty
    | .Chunked => c.readChunks parser empty

def endResponse (c : Connection δ) (i : Nat) : Connection δ :=
  let (state,pings) := c.reqState.unblock
  { c with
    reqState := state
    exchanges := c.exchanges.modify i (fun x => { x with ended := true })
    scheduled := if pings then c.scheduled + 1 else c.scheduled }

end Connection

structure Service (δ : Type) where
  connection : Connection δ
  unread : List Byte

inductive ServiceEvent where
  | read (n : Nat)
  | ping
  | iterate
  | SetDataHandler (i : Nat)
  | End (i : Nat)
  | close (i : Nat)

namespace Connection
variable {δ : Type} {parser : PicoHttp δ} {c : Connection δ}

def toDo (c : Connection δ) : Nat := 2 * c.readBuffer.length + if c.readState = .Request then 0 else 1

theorem expectBodyBuffer (c : Connection δ) (request : HttpRequest) :
    (c.expectBody parser request).readBuffer = c.readBuffer := by
  unfold expectBody
  dsimp only
  split
  · rfl
  split <;> rfl

theorem toDoBounds (c : Connection δ) : 2 * c.readBuffer.length ≤ c.toDo ∧ c.toDo ≤ 2 * c.readBuffer.length + 1 := by
  unfold toDo
  split <;> omega

theorem toDoOther {after : Connection δ} (before : c.readState ≠ .Request) (state : after.readState = .Request)
    (shorter : after.readBuffer.length ≤ c.readBuffer.length) : after.toDo < c.toDo := by
  rw [toDo,toDo,if_pos state,if_neg before]
  omega

theorem toDoRequest {empty : Bool} (running : (c.readRequest parser empty).callback ≠ none) :
    (c.readRequest parser empty).toDo < c.toDo := by
  unfold readRequest at running ⊢
  split at running
  · exact absurd rfl running
  rename_i free
  rw [if_neg free]
  dsimp only at running ⊢
  split at running
  · rename_i request size positive parsed
    have filled : c.readBuffer ≠ [] := by
      intro none
      rw [if_pos none] at parsed
      cases parsed
    let after : Connection δ := { c with
      pipelineLength := c.pipelineLength + 1
      readBuffer := c.readBuffer.drop size
      lastLength := 0
      reqState := { c.reqState with blocked := true }
      exchanges := c.exchanges ++ [Exchange.handed request (10 < c.pipelineLength + 1)] }
    have left : ((after.expectBody parser request).goOn empty).readBuffer = c.readBuffer.drop size :=
      expectBodyBuffer after request
    have some := List.length_pos_iff.mpr filled
    have above := (toDoBounds ((after.expectBody parser request).goOn empty)).2
    have below := (toDoBounds c).1
    rw [left,List.length_drop] at above
    exact Nat.lt_of_le_of_lt above (by omega)
  · exact absurd rfl running
  · exact absurd rfl running

theorem toDoTurn {empty : Bool} (running : (c.iterate parser empty).callback ≠ none) :
    (c.iterate parser empty).toDo < c.toDo := by
  unfold iterate at running ⊢
  split at running
  · exact absurd rfl running
  rename_i usable
  rw [if_neg usable]
  cases state : c.readState with
  | Request =>
    rw [state] at running
    exact toDoRequest running
  | Body =>
    rw [state] at running
    have other : c.readState ≠ .Request := by rw [state]; exact ReadState.noConfusion
    dsimp only at running ⊢
    unfold readBody at running ⊢
    split at running
    · exact absurd rfl running
    rename_i nonempty
    rw [if_neg nonempty]
    split at running
    · rename_i there
      rw [if_pos there]
      refine toDoOther other rfl ?_
      change (c.readBuffer.drop c.contentLength.toNat).length ≤ _
      rw [List.length_drop]
      exact Nat.sub_le _ _
    · exact absurd rfl running
  | Chunked =>
    rw [state] at running
    have other : c.readState ≠ .Request := by rw [state]; exact ReadState.noConfusion
    dsimp only at running ⊢
    unfold readChunks at running ⊢
    split at running
    · exact absurd rfl running
    rename_i nonempty
    rw [if_neg nonempty]
    dsimp only at running ⊢
    split at running
    · exact absurd rfl running
    · exact absurd rfl running
    · refine toDoOther other rfl ?_
      change (c.readBuffer.drop _).length ≤ _
      rw [List.length_drop]
      exact Nat.sub_le _ _

end Connection

namespace Service
variable {δ : Type}

def step (parser : PicoHttp δ) (s : Service δ) (e : ServiceEvent) : Service δ :=
  let c := s.connection
  match e with
  | .read n =>
    if c.closed ∨ c.callback ≠ none ∨ s.unread = [] then s
    else ⟨c.readCallback (s.unread.take (n + 1)),s.unread.drop (n + 1)⟩
  | .ping =>
    if c.closed ∨ c.callback ≠ none ∨ c.scheduled = 0 then s
    else { s with connection := { c with scheduled := c.scheduled - 1 }.readCallback [] }
  | .iterate => c.callback.elim s (fun empty => { s with connection := c.iterate parser empty })
  | .SetDataHandler i =>
    if (c.exchanges[i]?).any (fun x => !x.installed) then
      { s with connection := { c with exchanges := c.exchanges.modify i Exchange.SetDataHandler } }
    else s
  | .End i =>
    if (c.exchanges[i]?).any (fun x => !x.ended) then { s with connection := c.endResponse i }
    else s
  | .close i =>
    if (c.exchanges[i]?).any Exchange.closes then { s with connection := { c with closed := true } }
    else s

variable {parser : PicoHttp δ} {s : Service δ}

theorem stepIterate (parser : PicoHttp δ) (s : Service δ) : s.step parser .iterate =
    s.connection.callback.elim s (fun empty => { s with connection := s.connection.iterate parser empty }) := rfl

theorem callbackReturns (s : Service δ) :
    (run (step parser) s (List.replicate (s.connection.toDo + 1) .iterate)).connection.callback = none := by
  have idle (n : Nat) {s : Service δ} (none : s.connection.callback = none) :
      run (step parser) s (List.replicate n .iterate) = s := by
    induction n with
    | zero => rfl
    | succ n ih =>
      have same : s.step parser .iterate = s := by
        rw [stepIterate,none]
        rfl
      rw [List.replicate_succ,runCons,same,ih]
  have bounded (n : Nat) (s : Service δ) (few : s.connection.toDo < n) :
      (run (step parser) s (List.replicate n .iterate)).connection.callback = none := by
    induction n generalizing s with
    | zero => exact absurd few (Nat.not_lt_zero _)
    | succ n ih =>
      rw [List.replicate_succ,runCons]
      by_cases finished : (s.step parser .iterate).connection.callback = none
      · rw [idle n finished]
        exact finished
      · refine ih _ (Nat.lt_of_lt_of_le ?_ (Nat.le_of_lt_succ few))
        cases running : s.connection.callback with
        | none =>
          have same : s.step parser .iterate = s := by
            rw [stepIterate,running]
            rfl
          rw [same] at finished
          exact absurd running finished
        | some empty =>
          have turn : s.step parser .iterate = { s with connection := s.connection.iterate parser empty } := by
            rw [stepIterate,running]
            rfl
          rw [turn] at finished ⊢
          exact Connection.toDoTurn finished
  exact bounded _ s (Nat.lt_succ_self _)

end Service
end Citizen.Http
