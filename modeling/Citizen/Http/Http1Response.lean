import Citizen.Http.HttpRequest

/-! Responses of the HTTP/1 server. -/
namespace Citizen.Http
open BitField (Byte)
open HttpMessage (crlf chunk lastChunk)
open Numeral (numeral)

structure Stream where
  sent : List Text
  ending : Bool
  closed : Bool
  scheduled : Nat

def Stream.Write (stream : Stream) (data : Text) : Stream :=
  if stream.closed ∨ data = [] then stream else { stream with sent := stream.sent ++ [data] }

structure Tm where
  wday : Fin 7
  mday : Fin 32
  mon : Fin 12
  year : Nat
  hour : Fin 24
  min : Fin 60
  sec : Fin 61

def weekday : Fin 7 → Text
  | 0 => text "Sun"
  | 1 => text "Mon"
  | 2 => text "Tue"
  | 3 => text "Wed"
  | 4 => text "Thu"
  | 5 => text "Fri"
  | 6 => text "Sat"

def month : Fin 12 → Text
  | 0 => text "Jan"
  | 1 => text "Feb"
  | 2 => text "Mar"
  | 3 => text "Apr"
  | 4 => text "May"
  | 5 => text "Jun"
  | 6 => text "Jul"
  | 7 => text "Aug"
  | 8 => text "Sep"
  | 9 => text "Oct"
  | 10 => text "Nov"
  | 11 => text "Dec"

def twoDigits (n : Nat) : Text := if n < 10 then text "0" ++ numeral 10 n else numeral 10 n

def putTime (time : Tm) : Text :=
  weekday time.wday ++ text ", " ++ twoDigits time.mday ++ text " " ++ month time.mon ++ text " " ++
    numeral 10 (1900 + time.year) ++ text " " ++ twoDigits time.hour ++ text ":" ++ twoDigits time.min ++ text ":" ++
    twoDigits time.sec ++ text " GMT"

def to_string (n : Int) : Text := if n < 0 then text "-" ++ numeral 10 n.natAbs else numeral 10 n.natAbs

def strnicmpEqual (left right : Text) (size : Nat) : Bool :=
  let compared (t : Text) := ((t.take size).takeWhile (fun b => b ≠ 0)).map tolower
  compared left = compared right

def httpStatuses : List (Int × String) := [
  (100,"Continue"),(101,"Switching Protocols"),(200,"OK"),(201,"Created"),(202,"Accepted"),
  (203,"Non-Authoritative Information"),(204,"No Content"),(205,"Reset Content"),(206,"Partial Content"),
  (300,"Multiple Choices"),(301,"Moved Permanently"),(302,"Found"),(303,"See Other"),(304,"Not Modified"),
  (305,"Use Proxy"),(307,"Temporary Redirect"),(400,"Bad Request"),(401,"Unauthorized"),(402,"Payment Required"),
  (403,"Forbidden"),(404,"Not Found"),(405,"Method Not Allowed"),(406,"Not Acceptable"),
  (407,"Proxy Authentication Required"),(408,"Request Time-out"),(409,"Conflict"),(410,"Gone"),(411,"Length Required"),
  (412,"Precondition Failed"),(413,"Request Entity Too Large"),(414,"Request-URI Too Large"),
  (415,"Unsupported Media Type"),(416,"Requested Range not Satisfiable"),(417,"Expectation Failed"),
  (422,"Unprocessable Entity"),(429,"Too Many Requests"),(500,"Internal Server Error"),(501,"Not Implemented"),
  (502,"Bad Gateway"),(503,"Service Unavailable"),(504,"Gateway Time-out"),(505,"HTTP Version not Supported")]

def GetStatusMessage (statusCode : Int) : Text :=
  ((httpStatuses.find? (fun status => status.1 = statusCode)).map (fun status => text status.2)).getD []

structure Http1Response where
  m_request : HttpRequest
  m_requestState : HttpState
  m_clientStream : Stream
  m_statusCode : Int
  m_headerList : HeaderMap
  m_sentHeaders : Bool
  m_closeConnection : Bool
  m_chunked : Bool
  m_sentWriteHead : Bool
  m_disableKeepAlive : Bool

namespace Http1Response

def construct (clientStream : Stream) (request : HttpRequest) (reqState : HttpState) (disableKeepAlive : Bool) :
    Http1Response where
  m_request := request
  m_requestState := reqState
  m_clientStream := clientStream
  m_statusCode := 200
  m_headerList := .empty
  m_sentHeaders := false
  m_closeConnection := false
  m_chunked := false
  m_sentWriteHead := false
  m_disableKeepAlive := disableKeepAlive

def setHeader (headers : HeaderMap) (name : Text) (values : List Text) : HeaderMap :=
  values.foldl (fun headers value => headers.insert name value) (headers.erase name)

def unchunked (request : HttpRequest) (headers : HeaderMap) : Bool :=
  request.httpVersion = (1,0) || decide (text "rockstargames.com" <:+: request.GetHeader (text "host") []) ||
    decide (text "identity" <:+: (headers.find (text "transfer-encoding")).getD [])

def BeforeWriteHead (r : Http1Response) (length : Nat) : Http1Response :=
  if r.m_sentWriteHead then r
  else if unchunked r.m_request r.m_headerList then
    let headers :=
      if r.m_headerList.find (text "content-length") = none then
        setHeader r.m_headerList (text "Content-Length") [to_string length]
      else r.m_headerList
    { r with m_sentWriteHead := true,m_headerList := headers.erase (text "transfer-encoding") }
  else
    let headers := setHeader r.m_headerList (text "Transfer-Encoding") [text "chunked"]
    { r with m_sentWriteHead := true,m_headerList := headers.erase (text "content-length"),m_chunked := true }

def dateHeader (timeInfo : Option Tm) : Text :=
  timeInfo.elim [] (fun time => text "Date: " ++ putTime time ++ crlf)

def keepsAlive (request : HttpRequest) (disableKeepAlive : Bool) : Bool :=
  let requestConnection := request.GetHeader (text "connection") (text "keep-alive")
  strnicmpEqual requestConnection (text "keep-alive") requestConnection.length && !disableKeepAlive

def WriteHead (timeInfo : Option Tm) (r : Http1Response) (statusCode : Int) (statusMessage : Text)
    (headers : HeaderMap) : Http1Response :=
  if r.m_sentHeaders then r
  else
    let r := r.BeforeWriteHead 0
    let statusMessage := if statusMessage = [] then GetStatusMessage statusCode else statusMessage
    let usedHeaders := if headers.entries = [] then r.m_headerList else headers
    let alive := keepsAlive r.m_request r.m_disableKeepAlive
    let outData := text "HTTP/1.1 " ++ to_string statusCode ++ text " " ++ statusMessage ++ crlf ++
      (if usedHeaders.find (text "date") = none then dateHeader timeInfo else []) ++
      (if alive then text "Connection: keep-alive" ++ crlf else text "Connection: close" ++ crlf) ++
      usedHeaders.entries.flatMap (fun header => header.1 ++ text ": " ++ header.2 ++ crlf) ++ crlf
    { r with
      m_closeConnection := r.m_closeConnection || !alive
      m_clientStream := r.m_clientStream.Write outData
      m_sentHeaders := true }

def WriteOut (r : Http1Response) (data : Text) : Http1Response :=
  if r.m_chunked then
    if 0 < data.length then
      let stream := r.m_clientStream.Write (numeral 16 data.length ++ crlf)
      { r with m_clientStream := (stream.Write data).Write crlf }
    else r
  else { r with m_clientStream := r.m_clientStream.Write data }

def Write (timeInfo : Option Tm) (r : Http1Response) (data : Text) : Http1Response :=
  let r := r.BeforeWriteHead data.length
  let r := if r.m_sentHeaders then r else r.WriteHead timeInfo r.m_statusCode [] .empty
  r.WriteOut data

def End (r : Http1Response) : Http1Response :=
  let stream := r.m_clientStream.Write (if r.m_chunked then lastChunk else [])
  let (state,pings) := r.m_requestState.unblock
  { r with
    m_requestState := state
    m_clientStream := { stream with
      ending := true
      scheduled := if pings then stream.scheduled + 1 else stream.scheduled } }

def flushed (r : Http1Response) : Http1Response :=
  let stream := r.m_clientStream
  if stream.ending then
    { r with m_clientStream := { stream with ending := false,closed := stream.closed || r.m_closeConnection } }
  else r

end Http1Response

inductive ResponseCall where
  | SetHeader (name : Text) (values : List Text)
  | SetStatusCode (statusCode : Int)
  | WriteHead (statusCode : Int) (statusMessage : Text) (headers : HeaderMap)
  | Write (data : Text)
  | End
  | flushed

namespace Http1Response

def step (timeInfo : Option Tm) (r : Http1Response) : ResponseCall → Http1Response
  | .SetHeader name values => { r with m_headerList := setHeader r.m_headerList name values }
  | .SetStatusCode statusCode => { r with m_statusCode := statusCode }
  | .WriteHead statusCode statusMessage headers => r.WriteHead timeInfo statusCode statusMessage headers
  | .Write data => r.Write timeInfo data
  | .End => r.End
  | .flushed => r.flushed

end Http1Response
end Citizen.Http
