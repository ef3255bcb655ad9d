import Citizen.Http.Http1Response
import Citizen.Lib.Run

/-! A response of the HTTP/1 server tells its receiver where it ends. -/
namespace Citizen.Http
open BitField (Byte)
open HttpMessage Numeral

namespace Http1Response

def written (calls : List ResponseCall) : Text :=
  calls.flatMap (fun call => match call with | .Write data => data | _ => [])

def closes (r : Http1Response) : Bool :=
  r.m_clientStream.closed || (r.m_clientStream.ending && r.m_closeConnection)

def SelfDelimiting (method : Text) (r : Http1Response) (data : Text) : Prop :=
  ∃ head body found announced, r.m_clientStream.sent = head :: body ∧
    readHead (head ++ body.flatten) = some (found,body.flatten) ∧ framing method found = some announced ∧
    readBody r.closes body.flatten announced = some (data,[])

def start (request : HttpRequest) (reqState : HttpState) (disableKeepAlive : Bool) : Http1Response :=
  construct ⟨[],false,false,0⟩ request reqState disableKeepAlive

def writesHead : ResponseCall → Bool
  | .WriteHead _ _ _ | .Write _ => true
  | _ => false

def beforeHead (calls : List ResponseCall) : List ResponseCall := calls.takeWhile (fun call => !writesHead call)

def fromHead (calls : List ResponseCall) : List ResponseCall := calls.dropWhile (fun call => !writesHead call)

def statusCode (calls : List ResponseCall) : Int :=
  calls.foldl (fun code call => match call with | .SetStatusCode code => code | _ => code) 200

def ownHeaders (calls : List ResponseCall) : HeaderMap :=
  calls.foldl (fun headers call => match call with | .SetHeader name values => setHeader headers name values | _ => headers)
    .empty

def endPending (calls : List ResponseCall) : Bool :=
  calls.foldl (fun pending call => match call with | .End => true | .flushed => false | _ => pending) false

def framedHeaders (request : HttpRequest) (headers : HeaderMap) (length : Nat) : HeaderMap :=
  if unchunked request headers then
    (if headers.find (text "content-length") = none then setHeader headers (text "Content-Length") [to_string length]
      else headers).erase (text "transfer-encoding")
  else (setHeader headers (text "Transfer-Encoding") [text "chunked"]).erase (text "content-length")

structure HeadText where
  statusCode : Int
  reason : Text
  headers : HeaderMap

def headText (request : HttpRequest) (calls : List ResponseCall) : Option HeadText :=
  let own := ownHeaders (beforeHead calls)
  let code := statusCode (beforeHead calls)
  match fromHead calls with
  | .WriteHead code message headers :: _ =>
    some ⟨code,if message = [] then GetStatusMessage code else message,
      if headers.entries = [] then framedHeaders request own 0 else headers⟩
  | .Write data :: _ => some ⟨code,GetStatusMessage code,framedHeaders request own data.length⟩
  | _ => none

def headerText (header : Text × Text) : Text := header.1 ++ text ": " ++ header.2

def HeadText.lines (head : HeadText) : List Text :=
  (HttpMessage.lines [] head.reason).tail ++ (head.headers.entries.map headerText).flatMap (HttpMessage.lines [])

structure HeadText.Proper (head : HeadText) : Prop where
  status : 100 ≤ head.statusCode ∧ head.statusCode ≤ 999
  reason : ((HttpMessage.lines [] head.reason).headD []).any barred = false
  fields : ∀ line ∈ head.lines, (field line).isSome = true

def HeadText.framing (head : HeadText) (method : Text) : Option Framing :=
  HttpMessage.framing method ⟨head.statusCode.toNat,head.lines.filterMap field⟩

def carried (closing : Bool) : Bool → List ResponseCall → List ResponseCall
  | _,[] => []
  | pending,.flushed :: rest => if closing && pending then [] else carried closing false rest
  | _,.End :: rest => .End :: carried closing true rest
  | pending,call :: rest => call :: carried closing pending rest

def part : ResponseCall → Option (Option Text)
  | .Write data => some (some data)
  | .End => some none
  | _ => none

def emit (chunked : Bool) (parts : List (Option Text)) : Text := if chunked then coded parts else plain parts

section
variable (request : HttpRequest) (disableKeepAlive : Bool) (calls : List ResponseCall)

def closing : Bool := !keepsAlive request disableKeepAlive

def parts : List (Option Text) :=
  (carried (closing request disableKeepAlive) (endPending (beforeHead calls)) (fromHead calls)).filterMap part

def chunks : Bool := !unchunked request (ownHeaders (beforeHead calls))

def coding : Text := emit (chunks request calls) (parts request disableKeepAlive calls)

def toBeClosed : Bool :=
  closing request disableKeepAlive && (endPending (beforeHead calls) || (fromHead calls).any (fun call => part call = some none))

def Delimits : Prop :=
  ∃ head announced, headText request calls = some head ∧ head.Proper ∧
    head.framing request.requestMethod = some announced ∧
    match announced with
    | .bodyless => coding request disableKeepAlive calls = [] ∧ written calls = []
    | .chunked =>
      chunks request calls = true ∧ EndsOnce (parts request disableKeepAlive calls) ∧
        plain (parts request disableKeepAlive calls) = written calls
    | .length n => coding request disableKeepAlive calls = written calls ∧ n = (written calls).length
    | .close =>
      coding request disableKeepAlive calls = written calls ∧ toBeClosed request disableKeepAlive calls = true

end

variable {timeInfo : Option Tm} {request : HttpRequest} {disableKeepAlive : Bool} {r : Http1Response}

structure Unsent (request : HttpRequest) (disableKeepAlive : Bool) (calls : List ResponseCall) (r : Http1Response) :
    Prop where
  request : r.m_request = request
  disableKeepAlive : r.m_disableKeepAlive = disableKeepAlive
  statusCode : r.m_statusCode = statusCode calls
  headerList : r.m_headerList = ownHeaders calls
  sentHeaders : r.m_sentHeaders = false
  sentWriteHead : r.m_sentWriteHead = false
  chunked : r.m_chunked = false
  closeConnection : r.m_closeConnection = false
  sent : r.m_clientStream.sent = []
  closed : r.m_clientStream.closed = false
  ending : r.m_clientStream.ending = endPending calls

theorem Unsent.step {calls : List ResponseCall} (unsent : Unsent request disableKeepAlive calls r)
    {call : ResponseCall} (silent : writesHead call = false) :
    Unsent request disableKeepAlive (calls ++ [call]) (r.step timeInfo call) := by
  obtain ⟨request,disable,status,headers,sentHeaders,sentWriteHead,chunked,closeConnection,sent,closed,ending⟩ := unsent
  cases call with
  | WriteHead _ _ _ => cases silent
  | Write _ => cases silent
  | SetHeader name values =>
    exact ⟨request,disable,by simp [Http1Response.step,Http1Response.statusCode,status],
      by simp [Http1Response.step,ownHeaders,headers],sentHeaders,sentWriteHead,chunked,closeConnection,sent,closed,
      by simp [Http1Response.step,endPending,ending]⟩
  | SetStatusCode code =>
    exact ⟨request,disable,by simp [Http1Response.step,Http1Response.statusCode],
      by simp [Http1Response.step,ownHeaders,headers],sentHeaders,sentWriteHead,chunked,closeConnection,sent,closed,
      by simp [Http1Response.step,endPending,ending]⟩
  | End =>
    exact ⟨request,disable,by simp [Http1Response.step,End,Http1Response.statusCode,status],
      by simp [Http1Response.step,End,ownHeaders,headers],sentHeaders,sentWriteHead,chunked,closeConnection,
      by simp [Http1Response.step,End,Stream.Write,chunked,sent],
      by simp [Http1Response.step,End,Stream.Write,chunked,closed],
      by simp [Http1Response.step,End,endPending]⟩
  | flushed =>
    cases pending : r.m_clientStream.ending with
    | false =>
      have same : r.step timeInfo .flushed = r := by simp [Http1Response.step,flushed,pending]
      rw [same]
      exact ⟨request,disable,by simp [Http1Response.statusCode,status],by simp [ownHeaders,headers],sentHeaders,
        sentWriteHead,chunked,closeConnection,sent,closed,by simp [endPending,pending]⟩
    | true =>
      have same : r.step timeInfo .flushed =
          { r with m_clientStream := { r.m_clientStream with ending := false } } := by
        simp [Http1Response.step,flushed,pending,closeConnection]
      rw [same]
      exact ⟨request,disable,by simp [Http1Response.statusCode,status],by simp [ownHeaders,headers],sentHeaders,
        sentWriteHead,chunked,closeConnection,sent,closed,by simp [endPending]⟩

theorem unsentRun (reqState : HttpState) {calls : List ResponseCall} (silent : ∀ call ∈ calls, writesHead call = false) :
    Unsent request disableKeepAlive calls (run (step timeInfo) (start request reqState disableKeepAlive) calls) := by
  induction calls using List.reverseRecOn with
  | nil => exact ⟨rfl,rfl,rfl,rfl,rfl,rfl,rfl,rfl,rfl,rfl,rfl⟩
  | append_singleton calls call ih =>
    rw [runAppend]
    exact (ih (fun c mem => silent c (List.mem_append_left _ mem))).step
      (silent call (List.mem_append_right _ List.mem_cons_self))

theorem emitCons (chunked : Bool) (part : Option Text) (rest : List (Option Text)) :
    emit chunked (part :: rest) = emit chunked [part] ++ emit chunked rest := by
  cases chunked <;> simp [emit,coded,plain]

def Adds (stream stream' : Stream) (data : Text) : Prop :=
  stream'.ending = stream.ending ∧ stream'.closed = stream.closed ∧
    ∃ more, stream'.sent = stream.sent ++ more ∧ more.flatten = if stream.closed then [] else data

theorem Adds.trans {s s' s'' : Stream} {data data' : Text} (first : Adds s s' data) (second : Adds s' s'' data') :
    Adds s s'' (data ++ data') := by
  obtain ⟨ending,closed,more,sent,flat⟩ := first
  obtain ⟨ending',closed',more',sent',flat'⟩ := second
  refine ⟨ending'.trans ending,closed'.trans closed,more ++ more',by rw [sent',sent,List.append_assoc],?_⟩
  rw [List.flatten_append,flat,flat',closed]
  cases s.closed <;> rfl

theorem addsWrite (stream : Stream) (data : Text) : Adds stream (stream.Write data) data := by
  unfold Stream.Write
  split
  · rename_i nothing
    refine ⟨rfl,rfl,[],(List.append_nil _).symm,?_⟩
    rcases nothing with closed | empty
    · simp [closed]
    · simp [empty]
  · rename_i something
    rw [not_or] at something
    exact ⟨rfl,rfl,[data],rfl,by simp [something.1]⟩

theorem addsNothing (stream : Stream) : Adds stream stream [] := ⟨rfl,rfl,[],(List.append_nil _).symm,by simp⟩

theorem writeOut (r : Http1Response) (data : Text) :
    ∃ stream, r.WriteOut data = { r with m_clientStream := stream } ∧
      Adds r.m_clientStream stream (emit r.m_chunked [some data]) := by
  unfold WriteOut
  cases chunked : r.m_chunked with
  | false =>
    have plainly : emit false [some data] = data := by simp [emit,plain]
    rw [plainly]
    exact ⟨_,rfl,addsWrite _ _⟩
  | true =>
    have asChunk : emit true [some data] = chunk data := by simp [emit,coded]
    rw [asChunk,if_pos rfl]
    unfold chunk
    by_cases empty : data = []
    · rw [if_pos empty,if_neg (by simp [empty])]
      exact ⟨r.m_clientStream,by rw [← chunked],addsNothing _⟩
    · rw [if_neg empty,if_pos (List.length_pos_iff.mpr empty),List.append_assoc]
      exact ⟨_,rfl,(addsWrite _ _).trans ((addsWrite _ _).trans (addsWrite _ _))⟩

def Headed (r : Http1Response) : Prop := r.m_sentHeaders = true ∧ r.m_sentWriteHead = true

theorem stepHeaded (timeInfo : Option Tm) (headed : Headed r) (call : ResponseCall) :
    Headed (r.step timeInfo call) ∧ (r.step timeInfo call).m_chunked = r.m_chunked ∧
      (r.step timeInfo call).m_closeConnection = r.m_closeConnection ∧
      ∃ stream, Adds r.m_clientStream stream ((part call).elim [] (fun part => emit r.m_chunked [part])) ∧
        (r.step timeInfo call).m_clientStream.sent = stream.sent ∧
        (r.step timeInfo call).m_clientStream.ending =
          (match call with | .End => true | .flushed => false | _ => r.m_clientStream.ending) ∧
        (r.step timeInfo call).m_clientStream.closed =
          (match call with | .flushed => r.closes | _ => r.m_clientStream.closed) := by
  cases call with
  | SetHeader name values => exact ⟨headed,rfl,rfl,_,addsNothing _,rfl,rfl,rfl⟩
  | SetStatusCode code => exact ⟨headed,rfl,rfl,_,addsNothing _,rfl,rfl,rfl⟩
  | WriteHead code message headers =>
    have same : r.step timeInfo (.WriteHead code message headers) = r := if_pos headed.1
    rw [same]
    exact ⟨headed,rfl,rfl,_,addsNothing _,rfl,rfl,rfl⟩
  | Write data =>
    have same : r.step timeInfo (.Write data) = r.WriteOut data := by
      simp [Http1Response.step,Write,BeforeWriteHead,headed.1,headed.2]
    obtain ⟨stream,out,adds⟩ := writeOut r data
    rw [same,out]
    exact ⟨headed,rfl,rfl,stream,adds,rfl,adds.1,adds.2.1⟩
  | End =>
    refine ⟨headed,rfl,rfl,r.m_clientStream.Write (if r.m_chunked then lastChunk else []),?_,rfl,rfl,(addsWrite _ _).2.1⟩
    have last : (part .End).elim [] (fun part => emit r.m_chunked [part]) = if r.m_chunked then lastChunk else [] := by
      cases r.m_chunked <;> rfl
    rw [last]
    exact addsWrite _ _
  | flushed =>
    cases ending : r.m_clientStream.ending with
    | false =>
      have same : r.step timeInfo .flushed = r := by simp [Http1Response.step,flushed,ending]
      rw [same]
      exact ⟨headed,rfl,rfl,_,addsNothing _,rfl,ending,by simp [closes,ending]⟩
    | true =>
      have same : r.step timeInfo .flushed =
          { r with m_clientStream := { r.m_clientStream with ending := false,closed := r.closes } } := by
        simp [Http1Response.step,flushed,ending,closes]
      rw [same]
      exact ⟨headed,rfl,rfl,_,addsNothing _,rfl,rfl,rfl⟩

theorem carriedCons (chunked closing pending : Bool) (call : ResponseCall) (rest : List ResponseCall) :
    emit chunked ((carried closing pending (call :: rest)).filterMap part) =
      (part call).elim [] (fun part => emit chunked [part]) ++
        if (match call with | .flushed => closing && pending | _ => false) then []
        else emit chunked ((carried closing (match call with | .End => true | .flushed => false | _ => pending) rest).filterMap part) := by
  have nothing : emit chunked [] = [] := by cases chunked <;> rfl
  cases call with
  | End => exact emitCons chunked none _
  | Write data => exact emitCons chunked (some data) _
  | flushed => cases closing <;> cases pending <;> simp [carried,part,nothing]
  | _ => rfl

theorem runHeaded (timeInfo : Option Tm) (headed : Headed r) (calls : List ResponseCall) :
    ∃ more, (run (step timeInfo) r calls).m_clientStream.sent = r.m_clientStream.sent ++ more ∧
      more.flatten = (if r.m_clientStream.closed then []
        else emit r.m_chunked ((carried r.m_closeConnection r.m_clientStream.ending calls).filterMap part)) ∧
      (run (step timeInfo) r calls).closes =
        (r.closes || (r.m_closeConnection && calls.any (fun call => part call = some none))) := by
  induction calls generalizing r with
  | nil =>
    refine ⟨[],(List.append_nil _).symm,?_,by simp⟩
    cases r.m_clientStream.closed <;> cases r.m_chunked <;> rfl
  | cons call rest ih =>
    obtain ⟨headed',chunked,closeConnection,stream,adds,sent,ending,closed⟩ := stepHeaded timeInfo headed call
    obtain ⟨-,-,first,sent₁,flat₁⟩ := adds
    obtain ⟨later,sent₂,flat₂,closes₂⟩ := ih headed'
    refine ⟨first ++ later,?_,?_,?_⟩
    · rw [runCons,sent₂,sent,sent₁,List.append_assoc]
    · rw [List.flatten_append,flat₁,flat₂,chunked,closeConnection,ending,closed]
      cases shut : r.m_clientStream.closed with
      | true => cases call <;> simp [shut,closes]
      | false =>
        rw [carriedCons]
        cases call with
        | flushed =>
          rw [closes,shut]
          cases r.m_clientStream.ending <;> cases r.m_closeConnection <;> rfl
        | _ => rfl
    · rw [runCons,closes₂,closeConnection]
      have after : (r.step timeInfo call).closes = (r.closes || (r.m_closeConnection && decide (part call = some none))) := by
        unfold closes
        rw [ending,closed,closeConnection]
        unfold closes
        cases call <;> cases r.m_clientStream.closed <;> cases r.m_clientStream.ending <;>
          cases r.m_closeConnection <;> rfl
      rw [after,List.any_cons,Bool.or_assoc,Bool.and_or_distrib_left]

section
variable (timeInfo : Option Tm) (request : HttpRequest) (disableKeepAlive : Bool)

def statusStart (code : Int) : Text := version ++ to_string code ++ text " "

def dateTexts (head : HeadText) : List Text :=
  if head.headers.find (text "date") = none then (timeInfo.map (fun time => text "Date: " ++ putTime time)).toList else []

def connectionText : Text :=
  if keepsAlive request disableKeepAlive then text "Connection: keep-alive" else text "Connection: close"

def headTexts (head : HeadText) : List Text :=
  dateTexts timeInfo head ++ connectionText request disableKeepAlive :: head.headers.entries.map headerText

def headBytes (head : HeadText) : Text :=
  block ((statusStart head.statusCode ++ head.reason) :: headTexts timeInfo request disableKeepAlive head) ++ crlf

theorem headBytesSame (head : HeadText) :
    text "HTTP/1.1 " ++ to_string head.statusCode ++ text " " ++ head.reason ++ crlf ++
      (if head.headers.find (text "date") = none then dateHeader timeInfo else []) ++
      (if keepsAlive request disableKeepAlive then text "Connection: keep-alive" ++ crlf
        else text "Connection: close" ++ crlf) ++
      head.headers.entries.flatMap (fun header => header.1 ++ text ": " ++ header.2 ++ crlf) ++ crlf =
    headBytes timeInfo request disableKeepAlive head := by
  have dates : (if head.headers.find (text "date") = none then dateHeader timeInfo else []) =
      block (dateTexts timeInfo head) := by
    unfold dateTexts
    split
    · cases timeInfo with
      | none => rfl
      | some time => simp [dateHeader,block]
    · rfl
  have connection : (if keepsAlive request disableKeepAlive then text "Connection: keep-alive" ++ crlf
      else text "Connection: close" ++ crlf) = block [connectionText request disableKeepAlive] := by
    unfold connectionText
    split <;> simp [block]
  have own : head.headers.entries.flatMap (fun header => header.1 ++ text ": " ++ header.2 ++ crlf) =
      block (head.headers.entries.map headerText) := by
    rw [block,List.flatMap_map]
    rfl
  rw [dates,connection,own]
  simp [headBytes,headTexts,statusStart,block,version]

end

theorem beforeWriteHead {calls : List ResponseCall} (unsent : Unsent request disableKeepAlive calls r) (length : Nat) :
    r.BeforeWriteHead length = { r with
      m_sentWriteHead := true
      m_headerList := framedHeaders request (ownHeaders calls) length
      m_chunked := !unchunked request (ownHeaders calls) } := by
  unfold BeforeWriteHead framedHeaders
  rw [unsent.sentWriteHead,unsent.request,unsent.headerList,if_neg Bool.false_ne_true]
  cases unchunked request (ownHeaders calls) with
  | false => rfl
  | true => simp [unsent.chunked]

theorem writeHeadFramed (open' : r.m_sentHeaders = false) (code : Int) (message : Text) (headers : HeaderMap) :
    (r.BeforeWriteHead 0).WriteHead timeInfo code message headers = r.WriteHead timeInfo code message headers := by
  have framed : (r.BeforeWriteHead 0).m_sentWriteHead = true := by
    unfold BeforeWriteHead
    split
    · assumption
    split <;> rfl
  have same : (r.BeforeWriteHead 0).m_sentHeaders = false := by
    unfold BeforeWriteHead
    split
    · exact open'
    split <;> exact open'
  have twice : (r.BeforeWriteHead 0).BeforeWriteHead 0 = r.BeforeWriteHead 0 := if_pos framed
  unfold WriteHead
  rw [open',same,twice,if_neg Bool.false_ne_true,if_neg Bool.false_ne_true]

theorem writeHead (open' : r.m_sentHeaders = false) (framed : r.m_sentWriteHead = true)
    (fresh : r.m_clientStream.sent = []) (up : r.m_clientStream.closed = false) (code : Int) (message : Text)
    (headers : HeaderMap) :
    r.WriteHead timeInfo code message headers = { r with
      m_closeConnection := r.m_closeConnection || !keepsAlive r.m_request r.m_disableKeepAlive
      m_clientStream := { r.m_clientStream with
        sent := [headBytes timeInfo r.m_request r.m_disableKeepAlive
          ⟨code,if message = [] then GetStatusMessage code else message,
            if headers.entries = [] then r.m_headerList else headers⟩] }
      m_sentHeaders := true } := by
  have same : r.BeforeWriteHead 0 = r := if_pos framed
  have filled (head : HeadText) : headBytes timeInfo r.m_request r.m_disableKeepAlive head ≠ [] := by
    intro none
    exact absurd (List.append_eq_nil_iff.mp none).2 (by decide)
  unfold WriteHead
  rw [open',if_neg Bool.false_ne_true,same]
  dsimp only
  rw [headBytesSame timeInfo r.m_request r.m_disableKeepAlive
    ⟨code,if message = [] then GetStatusMessage code else message,
      if headers.entries = [] then r.m_headerList else headers⟩]
  simp [Stream.Write,up,fresh,filled]

theorem headWritten (timeInfo : Option Tm) {calls : List ResponseCall} (unsent : Unsent request disableKeepAlive calls r)
    (length : Nat) (code : Int) (message : Text) (headers : HeaderMap) :
    ∃ r', (r.BeforeWriteHead length).WriteHead timeInfo code message headers = r' ∧ Headed r' ∧
      r'.m_chunked = (!unchunked request (ownHeaders calls)) ∧ r'.m_closeConnection = closing request disableKeepAlive ∧
      r'.m_clientStream = { r.m_clientStream with
        sent := [headBytes timeInfo request disableKeepAlive
          ⟨code,if message = [] then GetStatusMessage code else message,
            if headers.entries = [] then framedHeaders request (ownHeaders calls) length else headers⟩] } := by
  let framed : Http1Response := { r with
    m_sentWriteHead := true
    m_headerList := framedHeaders request (ownHeaders calls) length
    m_chunked := !unchunked request (ownHeaders calls) }
  have before : r.BeforeWriteHead length = framed := beforeWriteHead unsent length
  refine ⟨_,rfl,?_⟩
  rw [before,writeHead (r := framed) unsent.sentHeaders rfl unsent.sent unsent.closed]
  refine ⟨⟨rfl,rfl⟩,rfl,?_,?_⟩
  · simp only [framed,unsent.closeConnection,unsent.request,unsent.disableKeepAlive]
    rfl
  · simp only [framed,unsent.request,unsent.disableKeepAlive]

theorem headStep {calls : List ResponseCall} (unsent : Unsent request disableKeepAlive (beforeHead calls) r)
    {call : ResponseCall} {rest : List ResponseCall} (writes : writesHead call = true)
    (from' : fromHead calls = call :: rest) :
    ∃ head r', headText request calls = some head ∧ Headed r' ∧
      r'.m_chunked = chunks request calls ∧ r'.m_closeConnection = closing request disableKeepAlive ∧
      r'.m_clientStream = { r.m_clientStream with sent := [headBytes timeInfo request disableKeepAlive head] } ∧
      r.step timeInfo call = r'.step timeInfo call := by
  unfold headText
  rw [from']
  cases call with
  | SetHeader _ _ => cases writes
  | SetStatusCode _ => cases writes
  | End => cases writes
  | flushed => cases writes
  | WriteHead code message headers =>
    obtain ⟨r',written,headed,chunked,closeConnection,stream⟩ :=
      headWritten timeInfo unsent 0 code message headers
    have step : r.step timeInfo (.WriteHead code message headers) = r' :=
      (writeHeadFramed unsent.sentHeaders code message headers).symm.trans written
    have again : r'.step timeInfo (.WriteHead code message headers) = r' := if_pos headed.1
    exact ⟨_,r',rfl,headed,chunked,closeConnection,stream,step.trans again.symm⟩
  | Write data =>
    obtain ⟨r',written,headed,chunked,closeConnection,stream⟩ :=
      headWritten timeInfo unsent data.length (statusCode (beforeHead calls)) [] .empty
    have step : r.step timeInfo (.Write data) = r'.WriteOut data := by
      rw [← written,← unsent.statusCode]
      simp [Http1Response.step,Write,beforeWriteHead unsent,unsent.sentHeaders]
    have again : r'.step timeInfo (.Write data) = r'.WriteOut data := by
      simp [Http1Response.step,Write,BeforeWriteHead,headed.1,headed.2]
    exact ⟨_,r',rfl,headed,chunked,closeConnection,stream,step.trans again.symm⟩

theorem toStringUnbarred (n : Int) : (to_string n).any barred = false := by
  unfold to_string
  split
  · rw [List.any_append,numeralUnbarred]
    decide
  · exact numeralUnbarred _

theorem toStringNoSpace (n : Int) : ∀ b ∈ to_string n, b ≠ 32 := by
  have digits (n : Nat) : ∀ b ∈ numeral 10 n, b ≠ 32 := by
    rintro b mem rfl
    exact numeralDigits n (by decide) (by decide) mem (by decide)
  unfold to_string
  split
  · have sign : ∀ b ∈ text "-", b ≠ 32 := by decide
    exact fun b mem => (List.mem_append.mp mem).elim (sign b) (digits _ b)
  · exact digits _

theorem toStringDigits {n : Int} {k : Nat} :
    (to_string n).length = 3 ∧ value 10 (to_string n) = some k ↔ (100 ≤ n ∧ n ≤ 999) ∧ k = n.toNat := by
  unfold to_string
  split
  · rename_i negative
    refine iff_of_false (fun both => ?_) (fun both => by omega)
    rw [valueNone (List.mem_append_left _ List.mem_cons_self : byte '-' ∈ text "-" ++ numeral 10 n.natAbs) (by decide)] at both
    exact nomatch both.2
  · rename_i positive
    rw [valueNumeral _ (by decide) (by decide),numeralLength (by decide),Option.some_inj]
    have three : Nat.log 10 n.natAbs + 1 = 3 ↔ 100 ≤ n.natAbs ∧ n.natAbs < 1000 := by
      rw [Nat.succ_inj,Nat.log_eq_iff (.inl (by decide))]
    rw [three]
    omega

theorem statusStarted {code : Int} {first : Text} {k : Nat} : status (statusStart code ++ first) = some k ↔
      ((100 ≤ code ∧ code ≤ 999) ∧ k = code.toNat) ∧ first.any barred = false := by
  have whole : statusStart code ++ first = version ++ (to_string code ++ 32 :: first) := by
    simp [statusStart,text,byte]
  have word : (to_string code ++ 32 :: first).takeWhile (fun b => b ≠ 32) = to_string code := by
    rw [List.takeWhile_append_of_pos (fun b mem => decide_eq_true (toStringNoSpace code b mem))]
    simp
  have fine : (version ++ (to_string code ++ 32 :: first)).any barred = first.any barred := by
    have start : version.any barred = false := by decide
    have space : barred 32 = false := by decide
    rw [List.any_append,List.any_append,List.any_cons,start,space,toStringUnbarred]
    rfl
  unfold status
  rw [whole,List.drop_left]
  dsimp only
  rw [word,fine,← toStringDigits]
  simp [and_assoc,and_comm]
  exact and_left_comm

theorem putTimeUnbarred (time : Tm) : (putTime time).any barred = false := by
  have days : ∀ d, (weekday d).any barred = false := by decide
  have months : ∀ m, (month m).any barred = false := by decide
  have two (n : Nat) : (twoDigits n).any barred = false := by
    unfold twoDigits
    split
    · rw [List.any_append,numeralUnbarred]
      decide
    · exact numeralUnbarred n
  have between : (text ", ").any barred = false ∧ (text " ").any barred = false ∧ (text ":").any barred = false ∧
      (text " GMT").any barred = false := by decide
  obtain ⟨comma,space,colon,gmt⟩ := between
  unfold putTime
  simp only [List.any_append,days,months,two,numeralUnbarred,comma,space,colon,gmt,Bool.or_self]

theorem addedFields (timeInfo : Option Tm) (request : HttpRequest) (disableKeepAlive : Bool) (head : HeadText) :
    ∀ t ∈ dateTexts timeInfo head ++ [connectionText request disableKeepAlive],
      lines [] t = [t] ∧ ∃ f, field t = some f ∧
        f.name ≠ text "transfer-encoding" ∧ f.name ≠ text "content-length" := by
  have named {name rest : Text} (some : name ≠ []) (printed : ∀ b ∈ name, 32 < b ∧ b ≠ byte ':')
      (fine : (name ++ rest).any barred = false)
      (other : name.map tolower ≠ text "transfer-encoding" ∧ name.map tolower ≠ text "content-length") :
      lines [] (name ++ byte ':' :: rest) = [name ++ byte ':' :: rest] ∧ ∃ f, field (name ++ byte ':' :: rest) = .some f ∧
        f.name ≠ text "transfer-encoding" ∧ f.name ≠ text "content-length" := by
    refine ⟨linesUnbarred ?_,_,fieldNamed some printed fine,other⟩
    rw [List.any_append] at fine ⊢
    exact fine
  intro t mem
  rcases List.mem_append.mp mem with date | connection
  · unfold dateTexts at date
    split at date
    · obtain ⟨time,rfl⟩ : ∃ time, t = text "Date" ++ byte ':' :: (byte ' ' :: putTime time) := by
        cases timeInfo with
        | none => exact absurd date List.not_mem_nil
        | some time => exact ⟨time,List.mem_singleton.mp date⟩
      refine named (by decide) (by decide) ?_ (by decide)
      have start : (text "Date").any barred = false := by decide
      rw [List.any_append,List.any_cons,start,putTimeUnbarred]
      rfl
    · exact absurd date List.not_mem_nil
  · obtain ⟨rest,rfl,fine⟩ : ∃ rest, t = text "Connection" ++ byte ':' :: rest ∧
        (text "Connection" ++ rest).any barred = false := by
      rw [List.mem_singleton.mp connection]
      unfold connectionText
      split
      · exact ⟨text " keep-alive",rfl,by decide⟩
      · exact ⟨text " close",rfl,by decide⟩
    exact named (by decide) (by decide) fine (by decide)

theorem headTextsLines (timeInfo : Option Tm) (request : HttpRequest) (disableKeepAlive : Bool) (head : HeadText) :
    (headTexts timeInfo request disableKeepAlive head).flatMap (lines []) =
      (dateTexts timeInfo head ++ [connectionText request disableKeepAlive]) ++
        (head.headers.entries.map headerText).flatMap (lines []) := by
  have single (texts : List Text) (each : ∀ t ∈ texts, lines [] t = [t]) : texts.flatMap (lines []) = texts := by
    induction texts with
    | nil => rfl
    | cons t rest ih =>
      obtain ⟨first,later⟩ := List.forall_mem_cons.mp each
      rw [List.flatMap_cons,first,ih later]
      rfl
  have split : headTexts timeInfo request disableKeepAlive head =
      (dateTexts timeInfo head ++ [connectionText request disableKeepAlive]) ++ head.headers.entries.map headerText := by
    simp [headTexts]
  rw [split,List.flatMap_append,single _ (fun t mem => (addedFields timeInfo request disableKeepAlive head t mem).1)]

theorem readHeadBytes (timeInfo : Option Tm) (request : HttpRequest) (disableKeepAlive : Bool) (head : HeadText)
    (method body : Text) (announced : Framing) :
    (∃ found, readHead (headBytes timeInfo request disableKeepAlive head ++ body) = some (found,body) ∧
      framing method found = some announced) ↔ head.Proper ∧ head.framing method = some announced := by
  have unbarred : (statusStart head.statusCode).any barred = false := by
    have ends : version.any barred = false ∧ (text " ").any barred = false := by decide
    rw [statusStart,List.any_append,List.any_append,ends.1,ends.2,toStringUnbarred]
    rfl
  have oneLine : lf ∉ statusStart head.statusCode := by
    intro mem
    have isBarred : barred lf = true := by decide
    rw [List.any_eq_true.mpr ⟨lf,mem,isBarred⟩] at unbarred
    cases unbarred
  have noCr : (statusStart head.statusCode).getLast? ≠ some cr := by
    have last : (text " ").getLast? = some 32 := by decide
    rw [statusStart,List.getLast?_append,last,Option.some_or]
    decide
  obtain ⟨first,later,reason,started⟩ := linesPrefix noCr [] head.reason
  rw [List.append_nil,← List.nil_append (statusStart head.statusCode),← linesStart oneLine] at started
  have whole : headBytes timeInfo request disableKeepAlive head ++ body =
      block ((statusStart head.statusCode ++ head.reason) :: headTexts timeInfo request disableKeepAlive head) ++
        (crlf ++ body) := List.append_assoc _ _ _
  let own := (head.headers.entries.map headerText).flatMap (lines [])
  let added := dateTexts timeInfo head ++ [connectionText request disableKeepAlive]
  have lines : head.lines = later ++ own := by
    rw [HeadText.lines,reason]
    rfl
  have others : ∀ f ∈ added.filterMap field, f.name ≠ text "transfer-encoding" ∧ f.name ≠ text "content-length" := by
    intro f mem
    obtain ⟨t,inside,isField⟩ := List.mem_filterMap.mp mem
    obtain ⟨-,f',isField',names⟩ := addedFields timeInfo request disableKeepAlive head t inside
    cases isField.symm.trans isField'
    exact names
  have announces : framing method ⟨head.statusCode.toNat,(later ++ (added ++ own)).filterMap field⟩ =
      head.framing method := by
    have split : (later ++ (added ++ own)).filterMap field =
        later.filterMap field ++ (added.filterMap field ++ own.filterMap field) :=
      (List.filterMap_append ..).trans (congrArg _ (List.filterMap_append ..))
    rw [split,framingOther others,HeadText.framing,lines,List.filterMap_append]
  have reads (found : Head) : readHead (headBytes timeInfo request disableKeepAlive head ++ body) = some (found,body) ↔
      head.Proper ∧ found = ⟨head.statusCode.toNat,(later ++ (added ++ own)).filterMap field⟩ := by
    rw [whole,readHeadBlock started,headTextsLines,List.nil_append,statusStarted,fieldsSome]
    constructor
    · rintro ⟨⟨⟨range,code⟩,clean⟩,each,all⟩
      refine ⟨⟨range,by rw [reason]; exact clean,fun line mem => each line ?_⟩,?_⟩
      · rw [lines] at mem
        rcases List.mem_append.mp mem with mem | mem
        · exact List.mem_append_left _ mem
        · exact List.mem_append_right _ (List.mem_append_right _ mem)
      · rw [← code,← all]
    · rintro ⟨⟨range,clean,each⟩,rfl⟩
      rw [reason] at clean
      refine ⟨⟨⟨range,rfl⟩,clean⟩,fun line mem => ?_,rfl⟩
      rw [lines] at each
      rcases List.mem_append.mp mem with mem | mem
      · exact each line (List.mem_append_left _ mem)
      rcases List.mem_append.mp mem with mem | mem
      · obtain ⟨-,f,isField,-⟩ := addedFields timeInfo request disableKeepAlive head line mem
        rw [isField]
        rfl
      · exact each line (List.mem_append_right _ mem)
  constructor
  · rintro ⟨found,read,framed⟩
    obtain ⟨proper,rfl⟩ := (reads found).mp read
    exact ⟨proper,announces.symm.trans framed⟩
  · rintro ⟨proper,framed⟩
    exact ⟨_,(reads _).mpr ⟨proper,rfl⟩,announces.trans framed⟩

theorem sentRun (reqState : HttpState) {calls : List ResponseCall} {call : ResponseCall} {rest : List ResponseCall}
    (from' : fromHead calls = call :: rest) : ∃ head body, headText request calls = some head ∧
      (run (step timeInfo) (start request reqState disableKeepAlive) calls).m_clientStream.sent =
        headBytes timeInfo request disableKeepAlive head :: body ∧
      body.flatten = coding request disableKeepAlive calls ∧
      (run (step timeInfo) (start request reqState disableKeepAlive) calls).closes =
        toBeClosed request disableKeepAlive calls := by
  let before := run (step timeInfo) (start request reqState disableKeepAlive) (beforeHead calls)
  have unsent : Unsent request disableKeepAlive (beforeHead calls) before :=
    unsentRun reqState (fun call mem => by simpa using List.all_eq_true.mp List.all_takeWhile call mem)
  have writes : writesHead call = true := by
    have some : calls.dropWhile (fun call => !writesHead call) ≠ [] := by
      change fromHead calls ≠ []
      rw [from']
      exact List.cons_ne_nil _ _
    have first : (calls.dropWhile (fun call => !writesHead call)).head some = call := by
      have heads : (fromHead calls).head? = Option.some call := by rw [from']; rfl
      exact Option.some.inj ((List.head?_eq_some_head some).symm.trans heads)
    have not := List.head_dropWhile_not (fun call => !writesHead call) some
    rw [first] at not
    simpa using not
  obtain ⟨head,r',text,headed,chunked,closeConnection,stream,same⟩ := headStep unsent writes from'
  obtain ⟨body,sent,flat,closes⟩ := runHeaded timeInfo headed (fromHead calls)
  have whole : run (step timeInfo) (start request reqState disableKeepAlive) calls = run (step timeInfo) r' (fromHead calls) := by
    have split : calls = beforeHead calls ++ fromHead calls := List.takeWhile_append_dropWhile.symm
    conv_lhs => rw [split]
    rw [runAppend,from',runCons,runCons]
    exact congrArg (fun r => run (step timeInfo) r rest) same
  have shut : r'.m_clientStream.closed = false := by
    rw [stream]
    exact unsent.closed
  have pending : r'.m_clientStream.ending = endPending (beforeHead calls) := by
    rw [stream]
    exact unsent.ending
  rw [whole]
  refine ⟨head,body,text,?_,?_,?_⟩
  · rw [sent,stream]
    rfl
  · rw [flat,shut,chunked,closeConnection,pending]
    rfl
  · rw [closes,Http1Response.closes,shut,pending,closeConnection,toBeClosed]
    cases closing request disableKeepAlive <;> cases endPending (beforeHead calls) <;> rfl

theorem carriedShorter (closing pending : Bool) (calls : List ResponseCall) :
    (plain ((carried closing pending calls).filterMap part)).length ≤ (written calls).length := by
  have longer (call : ResponseCall) (rest : List ResponseCall) : (written rest).length ≤ (written (call :: rest)).length := by
    simp [written]
  induction calls generalizing pending with
  | nil => exact Nat.le_refl 0
  | cons call rest ih =>
    cases call with
    | Write data =>
      have sum : plain ((carried closing pending (.Write data :: rest)).filterMap part) =
          data ++ plain ((carried closing pending rest).filterMap part) := rfl
      have all : written (.Write data :: rest) = data ++ written rest := rfl
      rw [sum,all,List.length_append,List.length_append]
      exact Nat.add_le_add_left (ih pending) _
    | flushed =>
      rw [carried]
      split
      · exact Nat.zero_le _
      · exact (ih false).trans (longer _ _)
    | End => exact (ih true).trans (longer _ _)
    | _ => exact (ih pending).trans (longer _ _)

theorem partsShorter (request : HttpRequest) (disableKeepAlive : Bool) (calls : List ResponseCall) :
    (plain (parts request disableKeepAlive calls)).length ≤ (written calls).length := by
  have split : calls = beforeHead calls ++ fromHead calls := List.takeWhile_append_dropWhile.symm
  have all : written calls = written (beforeHead calls) ++ written (fromHead calls) := by
    conv_lhs => rw [split]
    exact List.flatMap_append
  rw [all,List.length_append]
  exact (carriedShorter _ _ _).trans (Nat.le_add_left _ _)

theorem readEmitted (closes chunked : Bool) {parts : List (Option Text)} {data : Text}
    (shorter : (plain parts).length ≤ data.length) (announced : Framing) :
    readBody closes (emit chunked parts) announced = some (data,[]) ↔
      match announced with
      | .bodyless => emit chunked parts = [] ∧ data = []
      | .chunked => chunked = true ∧ EndsOnce parts ∧ plain parts = data
      | .length n => emit chunked parts = data ∧ n = data.length
      | .close => emit chunked parts = data ∧ closes = true := by
  cases announced with
  | bodyless =>
    change some ([],emit chunked parts) = some (data,[]) ↔ emit chunked parts = [] ∧ data = []
    rw [Option.some_inj,Prod.mk.injEq,and_comm,eq_comm (b := data)]
  | chunked =>
    cases chunked with
    | false =>
      refine iff_of_false (fun read => ?_) (fun both => Bool.false_ne_true both.1)
      have room : data.length + ([] : Text).length < (plain parts).length := readChunksShorter read
      rw [List.length_nil] at room
      omega
    | true =>
      rw [and_iff_right rfl]
      exact readCoded parts data
  | length n =>
    change (if n ≤ (emit chunked parts).length then
      some ((emit chunked parts).take n,(emit chunked parts).drop n) else none) = some (data,[]) ↔ _
    constructor
    · intro read
      split at read
      · rename_i fits
        obtain ⟨taken,left⟩ := Prod.mk.inj (Option.some.inj read)
        have size : n = data.length := by rw [← taken,List.length_take,Nat.min_eq_left fits]
        refine ⟨?_,size⟩
        rw [← List.take_append_drop n (emit chunked parts),taken,left,List.append_nil]
      · cases read
    · rintro ⟨rfl,rfl⟩
      simp
  | close => cases closes <;> simp [readBody]

theorem delimitsSame (timeInfo : Option Tm) (request : HttpRequest) (reqState : HttpState) (disableKeepAlive : Bool)
    (calls : List ResponseCall) :
    SelfDelimiting request.requestMethod (run (step timeInfo) (start request reqState disableKeepAlive) calls)
      (written calls) ↔ Delimits request disableKeepAlive calls := by
  cases from' : fromHead calls with
  | nil =>
    have whole : calls = beforeHead calls := by
      have split : beforeHead calls ++ fromHead calls = calls := List.takeWhile_append_dropWhile
      rw [from',List.append_nil] at split
      exact split.symm
    have unsent : Unsent request disableKeepAlive calls
        (run (step timeInfo) (start request reqState disableKeepAlive) calls) := by
      refine unsentRun reqState (fun call mem => ?_)
      rw [whole] at mem
      simpa using List.all_eq_true.mp List.all_takeWhile call mem
    refine iff_of_false ?_ ?_
    · rintro ⟨head,body,found,announced,sent,-⟩
      rw [unsent.sent] at sent
      cases sent
    · rintro ⟨head,announced,text,-⟩
      rw [headText,from'] at text
      cases text
  | cons call rest =>
    obtain ⟨head,body,text,sent,follows,closes⟩ :=
      @sentRun timeInfo request disableKeepAlive reqState _ _ _ from'
    have read (announced : Framing) := readEmitted (toBeClosed request disableKeepAlive calls) (chunks request calls)
      (partsShorter request disableKeepAlive calls) announced
    constructor
    · rintro ⟨head',body',found,announced,sent',found',framed,body''⟩
      rw [sent] at sent'
      cases sent'
      obtain ⟨proper,own⟩ := (readHeadBytes timeInfo request disableKeepAlive head _ _ _).mp ⟨found,found',framed⟩
      rw [follows,closes] at body''
      exact ⟨head,announced,text,proper,own,(read announced).mp body''⟩
    · rintro ⟨head',announced,text',proper,own,delimits⟩
      cases text.symm.trans text'
      obtain ⟨found,found',framed⟩ :=
        (readHeadBytes timeInfo request disableKeepAlive head _ body.flatten _).mpr ⟨proper,own⟩
      refine ⟨_,body,found,announced,sent,found',framed,?_⟩
      rw [follows,closes]
      exact (read announced).mpr delimits

theorem selfDelimiting (timeInfo : Option Tm) (request : HttpRequest) (reqState : HttpState) (disableKeepAlive : Bool)
    (calls : List ResponseCall) : (.End ∈ calls → SelfDelimiting request.requestMethod
      (run (step timeInfo) (start request reqState disableKeepAlive) calls) (written calls)) ↔
      (.End ∈ calls → Delimits request disableKeepAlive calls) :=
  imp_congr_right (fun _ => delimitsSame timeInfo request reqState disableKeepAlive calls)

theorem lastChunkUnannounced :
    let request : HttpRequest := ⟨(1,1),text "GET",text "/files/",.empty⟩
    let calls : List ResponseCall := [.WriteHead 400 [] (HeaderMap.empty.insert (text "Content-Length") (text "0")),.End]
    ¬(.End ∈ calls → SelfDelimiting request.requestMethod
      (run (step none) (start request ⟨true,true⟩ false) calls) (written calls)) := by
  intro request calls delimits
  have ended : .End ∈ calls := List.mem_cons_of_mem _ List.mem_cons_self
  obtain ⟨head,announced,text,-,framed,follows⟩ := (delimitsSame none request ⟨true,true⟩ false calls).mp (delimits ended)
  cases text
  have none : coding request false calls = lastChunk := by decide
  have length : announced = .length 0 := by
    refine Option.some.inj (framed.symm.trans ?_)
    decide
  rw [length,none] at follows
  exact absurd follows.1 (by decide)

end Http1Response
end Citizen.Http
