import Mathlib.Data.List.Basic
import Sylar.Http.Execute

/- `HttpRequest` and `HttpResponse` of `sylar/http/http.h`, and the parsers of
   `sylar/http/http_parser.cc` that fill them from the callbacks of `http_parser`.

   The two parser classes have the same members and most callbacks in common, so
   both are a `MessageParser`; what differs is the URL, the status, what
   `on_headers_complete` stores, and that only the request parser looks at
   `upgrade`. The parameters and cookies of a request, which are derived from the
   other members on demand, are in `Sylar.Http.Params`, and `HttpStatus` is its number. -/
namespace Sylar.Http
open Sylar.Lib

/-! ## Messages -/

/-- `tolower` on an ASCII character. -/
def tolower (c : UInt8) : UInt8 := if chr 'A' ≤ c ∧ c ≤ chr 'Z' then c + 32 else c

/-- What `strcasecmp` compares of a `std::string`: up to the first NUL, in lower case. -/
def folded (s : Bytes) : Bytes := (s.takeWhile (· ≠ 0)).map tolower

/-- `CaseInsensitiveLess::operator()`. -/
def caseInsensitiveLess (lhs rhs : Bytes) : Bool := folded lhs < folded rhs

/-- `MapType`, in the order of its comparison. -/
abbrev MapType := List (Bytes × Bytes)

/-- `m[key] = val`: the key that is there keeps its spelling. -/
def MapType.set (key val : Bytes) : MapType → MapType
  | [] => [(key, val)]
  | (k, v) :: rest =>
    if caseInsensitiveLess k key then (k, v) :: MapType.set key val rest
    else if caseInsensitiveLess key k then (key, val) :: (k, v) :: rest
    else (k, val) :: rest

/-- `find`. -/
def MapType.get (key : Bytes) (m : MapType) : Option Bytes :=
  (m.find? fun (k, _) => !caseInsensitiveLess k key && !caseInsensitiveLess key k).map (·.2)

structure HttpRequest where
  method : HttpMethod := .GET
  version : UInt8 := 0x11
  close : Bool := true
  websocket : Bool := false
  path : Bytes := ascii "/"
  query : Bytes := []
  fragment : Bytes := []
  body : Bytes := []
  headers : MapType := []
  deriving DecidableEq, Repr

structure HttpResponse where
  status : Nat := 200
  version : UInt8 := 0x11
  close : Bool := true
  websocket : Bool := false
  body : Bytes := []
  reason : Bytes := []
  headers : MapType := []
  cookies : List Bytes := []
  deriving DecidableEq, Repr

def HttpRequest.setHeader (r : HttpRequest) (key val : Bytes) : HttpRequest :=
  { r with headers := r.headers.set key val }

def HttpResponse.setHeader (r : HttpResponse) (key val : Bytes) : HttpResponse :=
  { r with headers := r.headers.set key val }

def HttpRequest.appendBody (r : HttpRequest) (v : Bytes) : HttpRequest := { r with body := r.body ++ v }

def HttpResponse.appendBody (r : HttpResponse) (v : Bytes) : HttpResponse := { r with body := r.body ++ v }

/-- `HttpRequest::init`, with `getHeader("connection")` in it. -/
def HttpRequest.init (r : HttpRequest) : HttpRequest :=
  let conn := (r.headers.get (ascii "connection")).getD []
  if conn = [] then r
  else if folded conn = folded (ascii "keep-alive") then { r with close := false }
  else { r with close := true }

/-! ## Callbacks -/

/-- The members of a parser object that its callbacks write. -/
structure Handler (δ : Type) where
  data : δ
  finished : Bool := false
  field : Bytes := []
  deriving DecidableEq, Repr

section
variable {δ : Type}

/-- `on_request_message_begin_cb`, `on_request_chunk_header_cb`, `on_request_chunk_complete_cb` and
those of the response, which only log. -/
def onLog : HttpCb (Handler δ) := fun _ h => (0, h)

/-- `on_request_status_cb` and `on_response_url_cb`, which only log. -/
def onLogData : HttpDataCb (Handler δ) := fun _ _ h => (0, h)

/-- `on_request_message_complete_cb` and `on_response_message_complete_cb`. -/
def onMessageComplete : HttpCb (Handler δ) := fun _ h => (0, { h with finished := true })

/-- `on_request_header_field_cb` and `on_response_header_field_cb`. -/
def onHeaderField : HttpDataCb (Handler δ) := fun _ buf h => (0, { h with field := buf })

/-- `on_request_header_value_cb` and `on_response_header_value_cb`. -/
def onHeaderValue (setHeader : δ → Bytes → Bytes → δ) : HttpDataCb (Handler δ) :=
  fun _ buf h => (0, { h with data := setHeader h.data h.field buf })

/-- `on_request_body_cb` and `on_response_body_cb`. -/
def onBody (appendBody : δ → Bytes → δ) : HttpDataCb (Handler δ) :=
  fun _ buf h => (0, { h with data := appendBody h.data buf })

end

/-- `((p->http_major) << 0x4) | (p->http_minor)`. -/
def packVersion (p : Fields) : UInt8 := UInt8.ofNat (p.httpMajor <<< 4 ||| p.httpMinor)

def onRequestHeadersComplete : HttpCb (Handler HttpRequest) := fun p h =>
  (0, { h with data := { h.data with version := packVersion p, method := p.method } })

def onRequestUrl : HttpDataCb (Handler HttpRequest) := fun _ buf h =>
  match httpParserParseUrl buf false with
  | none => (1, h)
  | some u =>
    (0, { h with
          data := { h.data with
            path := (u.text .UF_PATH buf).getD h.data.path
            query := (u.text .UF_QUERY buf).getD h.data.query
            fragment := (u.text .UF_FRAGMENT buf).getD h.data.fragment } })

def onResponseHeadersComplete : HttpCb (Handler HttpResponse) := fun p h =>
  (0, { h with data := { h.data with version := packVersion p, status := p.statusCode } })

def onResponseStatus : HttpDataCb (Handler HttpResponse) := fun p _ h =>
  (0, { h with data := { h.data with status := p.statusCode } })

/-- `s_request_settings`. -/
def requestSettings : Settings (Handler HttpRequest) where
  onMessageBegin := onLog
  onHeadersComplete := onRequestHeadersComplete
  onMessageComplete := onMessageComplete
  onChunkHeader := onLog
  onChunkComplete := onLog
  onData
    | .url => onRequestUrl
    | .status => onLogData
    | .header_field => onHeaderField
    | .header_value => onHeaderValue HttpRequest.setHeader
    | .body => onBody HttpRequest.appendBody

/-- `s_response_settings`. -/
def responseSettings : Settings (Handler HttpResponse) where
  onMessageBegin := onLog
  onHeadersComplete := onResponseHeadersComplete
  onMessageComplete := onMessageComplete
  onChunkHeader := onLog
  onChunkComplete := onLog
  onData
    | .url => onLogData
    | .status => onResponseStatus
    | .header_field => onHeaderField
    | .header_value => onHeaderValue HttpResponse.setHeader
    | .body => onBody HttpResponse.appendBody

/-! ## The parsers -/

/-- `HttpRequestParser` and `HttpResponseParser`. -/
structure MessageParser (δ : Type) extends Handler δ where
  parser : HttpParser
  error : HttpErrno := .HPE_OK
  deriving DecidableEq, Repr

abbrev HttpRequestParser := MessageParser HttpRequest
abbrev HttpResponseParser := MessageParser HttpResponse

/-- `isFinished()`. -/
def MessageParser.isFinished {δ : Type} (p : MessageParser δ) : Bool := p.finished

/-- `hasError()`. -/
def MessageParser.hasError {δ : Type} (p : MessageParser δ) : Bool := p.error ≠ .HPE_OK

/-- `getData()`. -/
def MessageParser.getData {δ : Type} (p : MessageParser δ) : δ := p.data

/-- `HttpRequestParser::HttpRequestParser()`. -/
def HttpRequestParser.new : HttpRequestParser where
  data := {}
  parser := httpParserInit .HTTP_REQUEST

/-- `HttpResponseParser::HttpResponseParser()`. -/
def HttpResponseParser.new : HttpResponseParser where
  data := {}
  parser := httpParserInit .HTTP_RESPONSE

/-- `m_error` after a call that left the parser with `parser`, and which was `error` before. -/
def requestError (parser : HttpParser) (error : HttpErrno) : HttpErrno :=
  if parser.upgrade then .HPE_UNKNOWN
  else if parser.httpErrno ≠ .HPE_OK then parser.httpErrno
  else error

def responseError (parser : HttpParser) (error : HttpErrno) : HttpErrno :=
  if parser.httpErrno ≠ .HPE_OK then parser.httpErrno else error

/-- `execute`, by the callbacks and by what it makes an error: the bytes parsed and the parser
after it. What it moves to the front of the buffer is `data` without the bytes parsed. -/
def MessageParser.executeWith {δ : Type} (st : Settings (Handler δ))
    (setError : HttpParser → HttpErrno → HttpErrno) (p : MessageParser δ) (data : Bytes) :
    Nat × MessageParser δ :=
  let (nparsed, parser, h) := httpParserExecute st p.parser p.toHandler data
  (nparsed, { h with parser := parser, error := setError parser p.error })

/-- `HttpRequestParser::execute`. -/
def HttpRequestParser.execute : HttpRequestParser → Bytes → Nat × HttpRequestParser :=
  MessageParser.executeWith requestSettings requestError

/-- `HttpResponseParser::execute`. -/
def HttpResponseParser.execute : HttpResponseParser → Bytes → Nat × HttpResponseParser :=
  MessageParser.executeWith responseSettings responseError

end Sylar.Http
