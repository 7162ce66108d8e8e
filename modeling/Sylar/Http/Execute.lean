import Mathlib.Data.List.Basic
import Sylar.Lib.Stream
import Sylar.Http.Url

/- `http_parser_execute` of `http-parser/http_parser.c`.

   The body of the loop over the buffer is `step`, one byte at a time. Where the
   source looks ahead in the buffer the byte-wise form does the same work:

   * the inner loops of `s_header_field` and `s_header_value` run over several bytes
     and count them for the header limit only when they end; `run` is the number of
     bytes such a loop has taken (`p - start`), 0 outside of one. `scanned` is how far
     the innermost loop of `h_general` has come towards its bound
     `pe = p + MIN(left, max_header_size)`; at `pe` it hands back to the loop around
     it, which steps over the byte there;
   * the body states take `MIN(content_length, left)` bytes at once.

   A mark is a pointer to where the data of a callback began: `marks` holds the
   bytes from there up to `p`, and `advance` is the `p++` of the loop. `REEXECUTE()`
   is a call of the function of the new state.

   `p_state`, `nread` and the `h_state` of `s_header_value` are locals that the source
   writes back before the parser is used again; here they are the parser's own
   fields. The callbacks can look at the parser and have a state `σ` of their own;
   none of those under `sylar/` writes to the parser. The assertions are left out. -/
namespace Sylar.Http
open Sylar.Lib

/-! ## The parser -/

/-- `max_header_size`. -/
def maxHeaderSize : UInt32 := 80 * 1024

def ULLONG_MAX : UInt64 := 0xFFFFFFFFFFFFFFFF

/-- `struct http_parser` without `http_errno` and `data`. -/
structure Fields where
  type : ParserType
  flags : Flags := {}
  state : State
  headerState : HeaderState := .h_general
  index : Nat := 0
  lenientHttpHeaders : Bool := false
  nread : UInt32 := 0
  contentLength : UInt64 := 0
  httpMajor : Nat := 0
  httpMinor : Nat := 0
  statusCode : Nat := 0
  method : HttpMethod := .DELETE
  upgrade : Bool := false
  deriving DecidableEq, Repr

structure HttpParser extends Fields where
  httpErrno : HttpErrno := .HPE_OK
  deriving DecidableEq, Repr

/-- A parser without an error. -/
def Fields.ok (p : Fields) : HttpParser := { toFields := p, httpErrno := .HPE_OK }

def httpParserInit (t : ParserType) : HttpParser where
  type := t
  state := if t = .HTTP_REQUEST then .s_start_req
    else if t = .HTTP_RESPONSE then .s_start_res else .s_start_req_or_res

/-- Does the parser need to see an EOF to find the end of the message? -/
def httpMessageNeedsEof (parser : Fields) : Bool :=
  if parser.type = .HTTP_REQUEST then false
  else if parser.statusCode / 100 = 1 ∨ parser.statusCode = 204 ∨ parser.statusCode = 304
      ∨ parser.flags.skipbody then false
  else if parser.flags.chunked ∨ parser.contentLength ≠ ULLONG_MAX then false
  else true

def httpShouldKeepAlive (parser : Fields) : Bool :=
  if 0 < parser.httpMajor ∧ 0 < parser.httpMinor then
    if parser.flags.connectionClose then false else !httpMessageNeedsEof parser
  else if !parser.flags.connectionKeepAlive then false
  else !httpMessageNeedsEof parser

/-- `NEW_MESSAGE()`. -/
def newMessage (parser : Fields) : State :=
  if httpShouldKeepAlive parser then
    if parser.type = .HTTP_REQUEST then .s_start_req else .s_start_res
  else .s_dead

/-! ## Callbacks and the locals of a call -/

/-- What the marks and the data callbacks are about. -/
inductive Mark where
  | header_field | header_value | url | body | status
  deriving DecidableEq, Repr

/-- `HPE_CB_##FOR`. -/
def Mark.errno : Mark → HttpErrno
  | .header_field => .HPE_CB_header_field
  | .header_value => .HPE_CB_header_value
  | .url => .HPE_CB_url
  | .body => .HPE_CB_body
  | .status => .HPE_CB_status

abbrev HttpCb (σ : Type) := Fields → σ → Int × σ
abbrev HttpDataCb (σ : Type) := Fields → Bytes → σ → Int × σ

/-- `http_parser_settings`; `onData` has the five data callbacks. -/
structure Settings (σ : Type) where
  onMessageBegin : HttpCb σ
  onHeadersComplete : HttpCb σ
  onMessageComplete : HttpCb σ
  onChunkHeader : HttpCb σ
  onChunkComplete : HttpCb σ
  onData : Mark → HttpDataCb σ

/-- The locals of `http_parser_execute`. -/
structure Loop (σ : Type) extends Fields where
  user : σ
  marks : Mark → Option Bytes
  run : Nat := 0
  scanned : Nat := 0

/-- A return from inside the loop, with the number of bytes from `p` on that it leaves unread. -/
structure Stop (σ : Type) where
  parser : HttpParser
  user : σ
  unread : Nat

section
variable {σ : Type}

def Loop.stop (l : Loop σ) (e : HttpErrno) (unread : Nat) : Except (Stop σ) (Loop σ) :=
  .error { parser := { l.toFields with httpErrno := e }, user := l.user, unread := unread }

/-- `SET_ERRNO(e); goto error;`. -/
def Loop.fail (l : Loop σ) (e : HttpErrno) : Except (Stop σ) (Loop σ) := l.stop e 1

/-- `STRICT_CHECK(ch != c); UPDATE_STATE(s);`. -/
def Loop.expect (l : Loop σ) (ch c : UInt8) (s : State) : Except (Stop σ) (Loop σ) :=
  if ch ≠ c then l.fail .HPE_STRICT else .ok { l with state := s }

def Loop.setMark (l : Loop σ) (m : Mark) (d : Option Bytes) : Loop σ :=
  { l with marks := fun k => if k = m then d else l.marks k }

/-- `MARK(FOR)`. -/
def Loop.mark (l : Loop σ) (m : Mark) : Loop σ := l.setMark m (some ((l.marks m).getD []))

/-- `p++`. -/
def Loop.advance (l : Loop σ) (ch : UInt8) : Loop σ :=
  { l with marks := fun m => (l.marks m).map (· ++ [ch]) }

/-- `COUNT_HEADER_SIZE(v)`. -/
def Loop.countHeaderSize (l : Loop σ) (v : Nat) : Except (Stop σ) (Loop σ) :=
  let l := { l with nread := l.nread + UInt32.ofNat v }
  if maxHeaderSize < l.nread then l.fail .HPE_HEADER_OVERFLOW else .ok l

/-- `CALLBACK_NOTIFY_`. -/
def Loop.notify (l : Loop σ) (cb : HttpCb σ) (er : HttpErrno) (unread : Nat) : Except (Stop σ) (Loop σ) :=
  let (rc, user) := cb l.toFields l.user
  let l := { l with user := user }
  if rc = 0 then .ok l else l.stop er unread

/-- `CALLBACK_DATA_`. -/
def Loop.callback (l : Loop σ) (st : Settings σ) (m : Mark) (unread : Nat) : Except (Stop σ) (Loop σ) :=
  match l.marks m with
  | none => .ok l
  | some d =>
    let (rc, user) := st.onData m l.toFields d l.user
    let l := { l with user := user }
    if rc = 0 then .ok (l.setMark m none) else l.stop m.errno unread

/-! ## The start line -/

def dead (ch : UInt8) (l : Loop σ) : Except (Stop σ) (Loop σ) :=
  if ch = CR ∨ ch = LF then .ok l else l.fail .HPE_CLOSED_CONNECTION

/-- The method a first letter stands for until the next one says otherwise. -/
def firstMethod (ch : UInt8) : Option HttpMethod :=
  ([('A', .ACL), ('B', .BIND), ('C', .CONNECT), ('D', .DELETE), ('G', .GET), ('H', .HEAD), ('L', .LOCK),
    ('M', .MKCOL), ('N', .NOTIFY), ('O', .OPTIONS), ('P', .POST), ('R', .REPORT), ('S', .SUBSCRIBE),
    ('T', .TRACE), ('U', .UNLOCK)] : List (Char × HttpMethod)).findSome?
    fun (c, m) => if ch = chr c then some m else none

def startReq (st : Settings σ) (ch : UInt8) (l : Loop σ) : Except (Stop σ) (Loop σ) :=
  if ch = CR ∨ ch = LF then .ok l
  else
    let l := { l with flags := {}, contentLength := ULLONG_MAX }
    if !isAlpha ch then l.fail .HPE_INVALID_METHOD
    else
      match firstMethod ch with
      | none => { l with method := .DELETE, index := 1 }.fail .HPE_INVALID_METHOD
      | some m =>
        { l with method := m, index := 1, state := .s_req_method }.notify
          st.onMessageBegin .HPE_CB_message_begin 0

/-- The lines `XX(meth, pos, ch, new_meth)` of `s_req_method`. -/
def nextMethod (m : HttpMethod) (pos : Nat) (ch : UInt8) : Option HttpMethod :=
  ([(.POST, 1, 'U', .PUT), (.POST, 1, 'A', .PATCH), (.POST, 1, 'R', .PROPFIND), (.PUT, 2, 'R', .PURGE),
    (.CONNECT, 1, 'H', .CHECKOUT), (.CONNECT, 2, 'P', .COPY), (.MKCOL, 1, 'O', .MOVE),
    (.MKCOL, 1, 'E', .MERGE), (.MKCOL, 1, '-', .MSEARCH), (.MKCOL, 2, 'A', .MKACTIVITY),
    (.MKCOL, 3, 'A', .MKCALENDAR), (.SUBSCRIBE, 1, 'E', .SEARCH), (.SUBSCRIBE, 1, 'O', .SOURCE),
    (.REPORT, 2, 'B', .REBIND), (.PROPFIND, 4, 'P', .PROPPATCH), (.LOCK, 1, 'I', .LINK),
    (.UNLOCK, 2, 'S', .UNSUBSCRIBE), (.UNLOCK, 2, 'B', .UNBIND), (.UNLOCK, 3, 'I', .UNLINK)]
    : List (HttpMethod × Nat × Char × HttpMethod)).findSome?
    fun (meth, i, c, new) => if meth = m ∧ i = pos ∧ ch = chr c then some new else none

def reqMethod (ch : UInt8) (l : Loop σ) : Except (Stop σ) (Loop σ) :=
  if ch = 0 then l.fail .HPE_INVALID_METHOD
  else
    let c := (ascii l.method.string).getD l.index 0
    if ch = chr ' ' ∧ c = 0 then .ok { l with state := .s_req_spaces_before_url, index := l.index + 1 }
    else if ch = c then .ok { l with index := l.index + 1 }
    else if (chr 'A' ≤ ch ∧ ch ≤ chr 'Z') ∨ ch = chr '-' then
      match nextMethod l.method l.index ch with
      | some m => .ok { l with method := m, index := l.index + 1 }
      | none => l.fail .HPE_INVALID_METHOD
    else l.fail .HPE_INVALID_METHOD

/-- `UPDATE_STATE(parse_url_char(CURRENT_STATE(), ch))` with its check. -/
def urlChar (ch : UInt8) (l : Loop σ) : Except (Stop σ) (Loop σ) :=
  let l := { l with state := parseUrlChar l.state ch }
  if l.state = .s_dead then l.fail .HPE_INVALID_URL else .ok l

def reqSpacesBeforeUrl (ch : UInt8) (l : Loop σ) : Except (Stop σ) (Loop σ) :=
  if ch = chr ' ' then .ok l
  else
    let l := l.mark .url
    urlChar ch { l with state := if l.method = .CONNECT then .s_req_server_start else l.state }

/-- `s_req_schema` to `s_req_server_start`, where no blank is allowed. -/
def reqServerStart (ch : UInt8) (l : Loop σ) : Except (Stop σ) (Loop σ) :=
  if ch = chr ' ' ∨ ch = CR ∨ ch = LF then l.fail .HPE_INVALID_URL else urlChar ch l

/-- `s_req_server` to `s_req_fragment`, where the URL may end. -/
def reqUrl (st : Settings σ) (ch : UInt8) (l : Loop σ) : Except (Stop σ) (Loop σ) :=
  if ch = chr ' ' then { l with state := .s_req_http_start }.callback st .url 0
  else if ch = CR ∨ ch = LF then
    { l with
      httpMajor := 0, httpMinor := 9
      state := if ch = CR then .s_req_line_almost_done else .s_header_field_start }.callback st .url 0
  else urlChar ch l

def reqHttpStart (ch : UInt8) (l : Loop σ) : Except (Stop σ) (Loop σ) :=
  if ch = chr ' ' then .ok l
  else if ch = chr 'H' then .ok { l with state := .s_req_http_H }
  else if ch = chr 'I' ∧ l.method = .SOURCE then .ok { l with state := .s_req_http_I }
  else l.fail .HPE_INVALID_CONSTANT

/-- `s_req_http_major` and `s_res_http_major`. -/
def httpMajor (s : State) (ch : UInt8) (l : Loop σ) : Except (Stop σ) (Loop σ) :=
  if !isNum ch then l.fail .HPE_INVALID_VERSION
  else .ok { l with httpMajor := (ch - chr '0').toNat, state := s }

/-- `s_req_http_dot`, `s_res_http_dot` and `s_res_http_end`. -/
def httpPunct (c : UInt8) (s : State) (ch : UInt8) (l : Loop σ) : Except (Stop σ) (Loop σ) :=
  if ch ≠ c then l.fail .HPE_INVALID_VERSION else .ok { l with state := s }

/-- `s_req_http_minor` and `s_res_http_minor`. -/
def httpMinor (s : State) (ch : UInt8) (l : Loop σ) : Except (Stop σ) (Loop σ) :=
  if !isNum ch then l.fail .HPE_INVALID_VERSION
  else .ok { l with httpMinor := (ch - chr '0').toNat, state := s }

def reqHttpEnd (ch : UInt8) (l : Loop σ) : Except (Stop σ) (Loop σ) :=
  if ch = CR then .ok { l with state := .s_req_line_almost_done }
  else if ch = LF then .ok { l with state := .s_header_field_start }
  else l.fail .HPE_INVALID_VERSION

def reqLineAlmostDone (ch : UInt8) (l : Loop σ) : Except (Stop σ) (Loop σ) :=
  if ch ≠ LF then l.fail .HPE_LF_EXPECTED else .ok { l with state := .s_header_field_start }

def startRes (st : Settings σ) (ch : UInt8) (l : Loop σ) : Except (Stop σ) (Loop σ) :=
  if ch = CR ∨ ch = LF then .ok l
  else
    let l := { l with flags := {}, contentLength := ULLONG_MAX }
    if ch = chr 'H' then
      { l with state := .s_res_H }.notify st.onMessageBegin .HPE_CB_message_begin 0
    else l.fail .HPE_INVALID_CONSTANT

def resFirstStatusCode (ch : UInt8) (l : Loop σ) : Except (Stop σ) (Loop σ) :=
  if !isNum ch then if ch = chr ' ' then .ok l else l.fail .HPE_INVALID_STATUS
  else .ok { l with statusCode := (ch - chr '0').toNat, state := .s_res_status_code }

def resStatus (st : Settings σ) (ch : UInt8) (l : Loop σ) : Except (Stop σ) (Loop σ) :=
  if ch = CR then { l with state := .s_res_line_almost_done }.callback st .status 0
  else if ch = LF then { l with state := .s_header_field_start }.callback st .status 0
  else .ok l

def resStatusStart (st : Settings σ) (ch : UInt8) (l : Loop σ) : Except (Stop σ) (Loop σ) :=
  let l := { l.mark .status with state := .s_res_status, index := 0 }
  if ch = CR ∨ ch = LF then resStatus st ch l else .ok l

def resStatusCode (st : Settings σ) (ch : UInt8) (l : Loop σ) : Except (Stop σ) (Loop σ) :=
  if !isNum ch then
    if ch = chr ' ' then .ok { l with state := .s_res_status_start }
    else if ch = CR ∨ ch = LF then resStatusStart st ch { l with state := .s_res_status_start }
    else l.fail .HPE_INVALID_STATUS
  else
    let l := { l with statusCode := l.statusCode * 10 + (ch - chr '0').toNat }
    if 999 < l.statusCode then l.fail .HPE_INVALID_STATUS else .ok l

def startReqOrRes (st : Settings σ) (ch : UInt8) (l : Loop σ) : Except (Stop σ) (Loop σ) :=
  if ch = CR ∨ ch = LF then .ok l
  else
    let l := { l with flags := {}, contentLength := ULLONG_MAX }
    if ch = chr 'H' then
      { l with state := .s_res_or_resp_H }.notify st.onMessageBegin .HPE_CB_message_begin 0
    else startReq st ch { l with type := .HTTP_REQUEST, state := .s_start_req }

def resOrRespH (ch : UInt8) (l : Loop σ) : Except (Stop σ) (Loop σ) :=
  if ch = chr 'T' then .ok { l with type := .HTTP_RESPONSE, state := .s_res_HT }
  else if ch ≠ chr 'E' then l.fail .HPE_INVALID_CONSTANT
  else .ok { l with type := .HTTP_REQUEST, method := .HEAD, index := 2, state := .s_req_method }

/-! ## The end of a message -/

/-- `UPDATE_STATE(NEW_MESSAGE()); CALLBACK_NOTIFY(message_complete);`. -/
def messageComplete (st : Settings σ) (l : Loop σ) : Except (Stop σ) (Loop σ) :=
  { l with state := newMessage l.toFields }.notify st.onMessageComplete .HPE_CB_message_complete 0

def messageDone (st : Settings σ) (l : Loop σ) : Except (Stop σ) (Loop σ) := do
  let l ← messageComplete st l
  -- exit, the rest of the message is in a different protocol
  if l.upgrade then l.stop .HPE_OK 0 else .ok l

def headersDone (st : Settings σ) (ch : UInt8) (l : Loop σ) : Except (Stop σ) (Loop σ) :=
  if ch ≠ LF then l.fail .HPE_STRICT
  else
    let l := { l with nread := 0 }
    let hasBody := l.flags.chunked || (0 < l.contentLength && l.contentLength != ULLONG_MAX)
    if l.upgrade ∧ (l.method = .CONNECT ∨ l.flags.skipbody ∨ !hasBody) then do
      let l ← messageComplete st l
      l.stop .HPE_OK 0
    else if l.flags.skipbody then messageComplete st l
    else if l.flags.chunked then .ok { l with state := .s_chunk_size_start }
    else if l.contentLength = 0 then messageComplete st l
    else if l.contentLength ≠ ULLONG_MAX then .ok { l with state := .s_body_identity }
    else if !httpMessageNeedsEof l.toFields then messageComplete st l
    else .ok { l with state := .s_body_identity_eof }

/-- The call of `on_headers_complete`, whose result is not only an error code. -/
def headersComplete (st : Settings σ) (l : Loop σ) : Except (Stop σ) (Loop σ) :=
  let (rc, user) := st.onHeadersComplete l.toFields l.user
  let l := { l with user := user }
  if rc = 0 then .ok l
  else if rc = 2 then .ok { l with upgrade := true, flags := { l.flags with skipbody := true } }
  else if rc = 1 then .ok { l with flags := { l.flags with skipbody := true } }
  else l.stop .HPE_CB_headers_complete 1

def headersAlmostDone (st : Settings σ) (ch : UInt8) (l : Loop σ) : Except (Stop σ) (Loop σ) :=
  if ch ≠ LF then l.fail .HPE_STRICT
  else if l.flags.trailing then do
    let l ← { l with state := .s_message_done }.notify st.onChunkComplete .HPE_CB_chunk_complete 1
    messageDone st l
  else if l.flags.chunked ∧ l.flags.contentlength then l.fail .HPE_UNEXPECTED_CONTENT_LENGTH
  else do
    let upgrade :=
      if l.flags.upgrade ∧ l.flags.connectionUpgrade then
        l.type = .HTTP_REQUEST || l.statusCode = 101
      else l.method = .CONNECT
    let l ← headersComplete st { l with state := .s_headers_done, upgrade := upgrade }
    headersDone st ch l

/-! ## Headers -/

/-- One more character of a word that the header state is matching. -/
def Loop.matching (l : Loop σ) (word : String) (c : UInt8) (found other : HeaderState) : Loop σ :=
  let index := l.index + 1
  { l with
    index := index
    headerState :=
      if word.length < index ∨ c ≠ (ascii word).getD index 0 then other
      else if index = word.length - 1 then found
      else l.headerState }

/-- The state a header's name is matched from, by its first letter. -/
def firstHeaderState (c : UInt8) : HeaderState :=
  if c = chr 'c' then .h_C
  else if c = chr 'p' then .h_matching_proxy_connection
  else if c = chr 't' then .h_matching_transfer_encoding
  else if c = chr 'u' then .h_matching_upgrade
  else .h_general

def headerFieldStart (st : Settings σ) (ch : UInt8) (l : Loop σ) : Except (Stop σ) (Loop σ) :=
  if ch = CR then .ok { l with state := .s_headers_almost_done }
  else if ch = LF then headersAlmostDone st ch { l with state := .s_headers_almost_done }
  else if token ch = 0 then l.fail .HPE_INVALID_HEADER_TOKEN
  else
    .ok { l.mark .header_field with
          index := 0, state := .s_header_field, headerState := firstHeaderState (token ch) }

/-- The `switch (parser->header_state)` of `s_header_field`. -/
def fieldChar (ch : UInt8) (l : Loop σ) : Loop σ :=
  let c := token ch
  match l.headerState with
  | .h_C => { l with index := l.index + 1, headerState := if c = chr 'o' then .h_CO else .h_general }
  | .h_CO => { l with index := l.index + 1, headerState := if c = chr 'n' then .h_CON else .h_general }
  | .h_CON =>
    { l with
      index := l.index + 1
      headerState :=
        if c = chr 'n' then .h_matching_connection
        else if c = chr 't' then .h_matching_content_length
        else .h_general }
  | .h_matching_connection => l.matching "connection" c .h_connection .h_general
  | .h_matching_proxy_connection => l.matching "proxy-connection" c .h_connection .h_general
  | .h_matching_content_length => l.matching "content-length" c .h_content_length .h_general
  | .h_matching_transfer_encoding => l.matching "transfer-encoding" c .h_transfer_encoding .h_general
  | .h_matching_upgrade => l.matching "upgrade" c .h_upgrade .h_general
  | .h_connection | .h_content_length | .h_transfer_encoding | .h_upgrade =>
    if ch ≠ chr ' ' then { l with headerState := .h_general } else l
  | _ => l

def headerField (st : Settings σ) (ch : UInt8) (l : Loop σ) : Except (Stop σ) (Loop σ) :=
  if token ch ≠ 0 then
    let l := fieldChar ch l
    .ok { l with run := l.run + 1 }
  else do
    let l ← { l with run := 0 }.countHeaderSize l.run
    if ch = chr ':' then
      ({ l with state := .s_header_value_discard_ws } : Loop σ).callback st .header_field 0
    else l.fail .HPE_INVALID_HEADER_TOKEN

def headerValueStart (ch : UInt8) (l : Loop σ) : Except (Stop σ) (Loop σ) :=
  let l := { l.mark .header_value with state := .s_header_value, index := 0 }
  let c := lower ch
  match l.headerState with
  | .h_upgrade => .ok { l with flags := { l.flags with upgrade := true }, headerState := .h_general }
  | .h_transfer_encoding =>
    .ok { l with
          headerState := if c = chr 'c' then .h_matching_transfer_encoding_chunked else .h_general }
  | .h_content_length =>
    if !isNum ch then l.fail .HPE_INVALID_CONTENT_LENGTH
    else if l.flags.contentlength then l.fail .HPE_UNEXPECTED_CONTENT_LENGTH
    else
      .ok { l with
            flags := { l.flags with contentlength := true }
            contentLength := (ch - chr '0').toUInt64
            headerState := .h_content_length_num }
  | .h_content_length_ws => .ok l
  | .h_connection =>
    .ok { l with
          headerState :=
            if c = chr 'k' then .h_matching_connection_keep_alive
            else if c = chr 'c' then .h_matching_connection_close
            else if c = chr 'u' then .h_matching_connection_upgrade
            else .h_matching_connection_token }
  | .h_matching_connection_token_start => .ok l
  | _ => .ok { l with headerState := .h_general }

def headerValueDiscardWs (ch : UInt8) (l : Loop σ) : Except (Stop σ) (Loop σ) :=
  if ch = chr ' ' ∨ ch = 9 then .ok l
  else if ch = CR then .ok { l with state := .s_header_value_discard_ws_almost_done }
  else if ch = LF then .ok { l with state := .s_header_value_discard_lws }
  else headerValueStart ch l

/-- The flag that a header's value has earned once the header is finished. -/
def headerFlags (l : Loop σ) : Flags :=
  match l.headerState with
  | .h_connection_keep_alive => { l.flags with connectionKeepAlive := true }
  | .h_connection_close => { l.flags with connectionClose := true }
  | .h_transfer_encoding_chunked => { l.flags with chunked := true }
  | .h_connection_upgrade => { l.flags with connectionUpgrade := true }
  | _ => l.flags

/-- A digit of `content-length`. -/
def contentLengthNum (ch : UInt8) (l : Loop σ) : Except (Stop σ) (Loop σ) :=
  if ch = chr ' ' then .ok { l with headerState := .h_content_length_ws }
  else if !isNum ch then l.fail .HPE_INVALID_CONTENT_LENGTH
  else if (ULLONG_MAX - 10) / 10 < l.contentLength then l.fail .HPE_INVALID_CONTENT_LENGTH
  else .ok { l with contentLength := l.contentLength * 10 + (ch - chr '0').toUInt64 }

/-- The `switch (h_state)` of `s_header_value`. -/
def valueChar (ch : UInt8) (l : Loop σ) : Except (Stop σ) (Loop σ) :=
  let c := lower ch
  match l.headerState with
  | .h_general => .ok { l with scanned := l.scanned + 1 }
  | .h_connection | .h_transfer_encoding => .ok l
  | .h_content_length =>
    if ch = chr ' ' then .ok l
    else contentLengthNum ch { l with headerState := .h_content_length_num }
  | .h_content_length_num => contentLengthNum ch l
  | .h_content_length_ws => if ch = chr ' ' then .ok l else l.fail .HPE_INVALID_CONTENT_LENGTH
  | .h_matching_transfer_encoding_chunked =>
    .ok (l.matching "chunked" c .h_transfer_encoding_chunked .h_general)
  | .h_matching_connection_token_start =>
    .ok { l with
          headerState :=
            if c = chr 'k' then .h_matching_connection_keep_alive
            else if c = chr 'c' then .h_matching_connection_close
            else if c = chr 'u' then .h_matching_connection_upgrade
            else if token c ≠ 0 then .h_matching_connection_token
            else if c = chr ' ' ∨ c = 9 then l.headerState
            else .h_general }
  | .h_matching_connection_keep_alive =>
    .ok (l.matching "keep-alive" c .h_connection_keep_alive .h_matching_connection_token)
  | .h_matching_connection_close =>
    .ok (l.matching "close" c .h_connection_close .h_matching_connection_token)
  | .h_matching_connection_upgrade =>
    .ok (l.matching "upgrade" c .h_connection_upgrade .h_matching_connection_token)
  | .h_matching_connection_token =>
    if ch = chr ',' then .ok { l with headerState := .h_matching_connection_token_start, index := 0 }
    else .ok l
  | .h_transfer_encoding_chunked =>
    if ch ≠ chr ' ' then .ok { l with headerState := .h_general } else .ok l
  | .h_connection_keep_alive | .h_connection_close | .h_connection_upgrade =>
    if ch = chr ',' then
      .ok { l with
            flags := headerFlags l
            headerState := .h_matching_connection_token_start, index := 0 }
    else if ch ≠ chr ' ' then .ok { l with headerState := .h_matching_connection_token }
    else .ok l
  | _ => .ok { l with state := .s_header_value, headerState := .h_general }

def headerAlmostDone (ch : UInt8) (l : Loop σ) : Except (Stop σ) (Loop σ) :=
  if ch ≠ LF then l.fail .HPE_LF_EXPECTED else .ok { l with state := .s_header_value_lws }

def headerValue (st : Settings σ) (ch : UInt8) (l : Loop σ) : Except (Stop σ) (Loop σ) :=
  -- the byte at `pe` is stepped over without a look at it
  if l.scanned = maxHeaderSize.toNat then .ok { l with run := l.run + 1, scanned := 0 }
  else if ch = CR then do
    let n := l.run
    let l ← { l with state := .s_header_almost_done, run := 0, scanned := 0 }.callback st .header_value 0
    l.countHeaderSize n
  else if ch = LF then do
    let l ← { l with state := .s_header_almost_done, run := 0, scanned := 0 }.countHeaderSize l.run
    let l ← l.callback st .header_value 1
    headerAlmostDone ch l
  else if !l.lenientHttpHeaders ∧ !isHeaderChar ch then l.fail .HPE_INVALID_HEADER_TOKEN
  else do
    let l ← valueChar ch l
    .ok { l with run := l.run + 1 }

def headerValueLws (st : Settings σ) (ch : UInt8) (l : Loop σ) : Except (Stop σ) (Loop σ) :=
  if ch = chr ' ' ∨ ch = 9 then
    -- treat obsolete line folding as space
    headerValueStart ch
      { l with
        headerState :=
          if l.headerState = .h_content_length_num then .h_content_length_ws else l.headerState
        state := .s_header_value_start }
  else headerFieldStart st ch { l with flags := headerFlags l, state := .s_header_field_start }

def headerValueDiscardLws (st : Settings σ) (ch : UInt8) (l : Loop σ) : Except (Stop σ) (Loop σ) :=
  if ch = chr ' ' ∨ ch = 9 then .ok { l with state := .s_header_value_discard_ws }
  -- do not allow empty content length
  else if l.headerState = .h_content_length then l.fail .HPE_INVALID_CONTENT_LENGTH
  else do
    -- header value was empty
    let l ← ({ l with flags := headerFlags l, state := .s_header_field_start }.mark
      .header_value).callback st .header_value 1
    headerFieldStart st ch l

/-! ## Bodies -/

def bodyIdentity (st : Settings σ) (ch : UInt8) (l : Loop σ) : Except (Stop σ) (Loop σ) :=
  let l := { l.mark .body with contentLength := l.contentLength - 1 }
  if l.contentLength = 0 then do
    -- the last byte belongs to the data of this callback
    let l ← ({ l with state := .s_message_done }.setMark .body
      ((l.marks .body).map (· ++ [ch]))).callback st .body 1
    messageDone st l
  else .ok l

def bodyIdentityEof (l : Loop σ) : Except (Stop σ) (Loop σ) := .ok (l.mark .body)

def chunkSizeStart (ch : UInt8) (l : Loop σ) : Except (Stop σ) (Loop σ) :=
  match unhex ch with
  | none => l.fail .HPE_INVALID_CHUNK_SIZE
  | some v => .ok { l with contentLength := v, state := .s_chunk_size }

def chunkSize (ch : UInt8) (l : Loop σ) : Except (Stop σ) (Loop σ) :=
  if ch = CR then .ok { l with state := .s_chunk_size_almost_done }
  else
    match unhex ch with
    | none =>
      if ch = chr ';' ∨ ch = chr ' ' then .ok { l with state := .s_chunk_parameters }
      else l.fail .HPE_INVALID_CHUNK_SIZE
    | some v =>
      if (ULLONG_MAX - 16) / 16 < l.contentLength then l.fail .HPE_INVALID_CONTENT_LENGTH
      else .ok { l with contentLength := l.contentLength * 16 + v }

def chunkParameters (ch : UInt8) (l : Loop σ) : Except (Stop σ) (Loop σ) :=
  if ch = CR then .ok { l with state := .s_chunk_size_almost_done } else .ok l

def chunkSizeAlmostDone (st : Settings σ) (ch : UInt8) (l : Loop σ) : Except (Stop σ) (Loop σ) :=
  if ch ≠ LF then l.fail .HPE_STRICT
  else
    let l := { l with nread := 0 }
    let l :=
      if l.contentLength = 0 then
        { l with flags := { l.flags with trailing := true }, state := .s_header_field_start }
      else { l with state := .s_chunk_data }
    l.notify st.onChunkHeader .HPE_CB_chunk_header 0

def chunkData (l : Loop σ) : Except (Stop σ) (Loop σ) :=
  let l := { l.mark .body with contentLength := l.contentLength - 1 }
  if l.contentLength = 0 then .ok { l with state := .s_chunk_data_almost_done } else .ok l

def chunkDataAlmostDone (st : Settings σ) (ch : UInt8) (l : Loop σ) : Except (Stop σ) (Loop σ) :=
  if ch ≠ CR then l.fail .HPE_STRICT
  else { l with state := .s_chunk_data_done }.callback st .body 0

def chunkDataDone (st : Settings σ) (ch : UInt8) (l : Loop σ) : Except (Stop σ) (Loop σ) :=
  if ch ≠ LF then l.fail .HPE_STRICT
  else
    { l with nread := 0, state := .s_chunk_size_start }.notify st.onChunkComplete .HPE_CB_chunk_complete 0

/-! ## The loop -/

/-- The `switch (CURRENT_STATE())`. -/
def dispatch (st : Settings σ) (ch : UInt8) (l : Loop σ) : Except (Stop σ) (Loop σ) :=
  match l.state with
  | .s_dead => dead ch l
  | .s_start_req_or_res => startReqOrRes st ch l
  | .s_res_or_resp_H => resOrRespH ch l
  | .s_start_res => startRes st ch l
  | .s_res_H => l.expect ch (chr 'T') .s_res_HT
  | .s_res_HT => l.expect ch (chr 'T') .s_res_HTT
  | .s_res_HTT => l.expect ch (chr 'P') .s_res_HTTP
  | .s_res_HTTP => l.expect ch (chr '/') .s_res_http_major
  | .s_res_http_major => httpMajor .s_res_http_dot ch l
  | .s_res_http_dot => httpPunct (chr '.') .s_res_http_minor ch l
  | .s_res_http_minor => httpMinor .s_res_http_end ch l
  | .s_res_http_end => httpPunct (chr ' ') .s_res_first_status_code ch l
  | .s_res_first_status_code => resFirstStatusCode ch l
  | .s_res_status_code => resStatusCode st ch l
  | .s_res_status_start => resStatusStart st ch l
  | .s_res_status => resStatus st ch l
  | .s_res_line_almost_done => l.expect ch LF .s_header_field_start
  | .s_start_req => startReq st ch l
  | .s_req_method => reqMethod ch l
  | .s_req_spaces_before_url => reqSpacesBeforeUrl ch l
  | .s_req_schema | .s_req_schema_slash | .s_req_schema_slash_slash | .s_req_server_start =>
    reqServerStart ch l
  | .s_req_server | .s_req_server_with_at | .s_req_path | .s_req_query_string_start
  | .s_req_query_string | .s_req_fragment_start | .s_req_fragment => reqUrl st ch l
  | .s_req_http_start => reqHttpStart ch l
  | .s_req_http_H => l.expect ch (chr 'T') .s_req_http_HT
  | .s_req_http_HT => l.expect ch (chr 'T') .s_req_http_HTT
  | .s_req_http_HTT => l.expect ch (chr 'P') .s_req_http_HTTP
  | .s_req_http_I => l.expect ch (chr 'C') .s_req_http_IC
  -- treat "ICE" as "HTTP"
  | .s_req_http_IC => l.expect ch (chr 'E') .s_req_http_HTTP
  | .s_req_http_HTTP => l.expect ch (chr '/') .s_req_http_major
  | .s_req_http_major => httpMajor .s_req_http_dot ch l
  | .s_req_http_dot => httpPunct (chr '.') .s_req_http_minor ch l
  | .s_req_http_minor => httpMinor .s_req_http_end ch l
  | .s_req_http_end => reqHttpEnd ch l
  | .s_req_line_almost_done => reqLineAlmostDone ch l
  | .s_header_field_start => headerFieldStart st ch l
  | .s_header_field => headerField st ch l
  | .s_header_value_discard_ws => headerValueDiscardWs ch l
  | .s_header_value_discard_ws_almost_done => l.expect ch LF .s_header_value_discard_lws
  | .s_header_value_discard_lws => headerValueDiscardLws st ch l
  | .s_header_value_start => headerValueStart ch l
  | .s_header_value => headerValue st ch l
  | .s_header_value_lws => headerValueLws st ch l
  | .s_header_almost_done => headerAlmostDone ch l
  | .s_chunk_size_start => chunkSizeStart ch l
  | .s_chunk_size => chunkSize ch l
  | .s_chunk_parameters => chunkParameters ch l
  | .s_chunk_size_almost_done => chunkSizeAlmostDone st ch l
  | .s_headers_almost_done => headersAlmostDone st ch l
  | .s_headers_done => headersDone st ch l
  | .s_chunk_data => chunkData l
  | .s_chunk_data_almost_done => chunkDataAlmostDone st ch l
  | .s_chunk_data_done => chunkDataDone st ch l
  | .s_body_identity => bodyIdentity st ch l
  | .s_body_identity_eof => bodyIdentityEof l
  | .s_message_done => messageDone st l

/-- The head of the loop. A byte that an inner loop has reached does not pass here and is counted
when that loop ends. -/
def Loop.countByte (l : Loop σ) : Except (Stop σ) (Loop σ) :=
  if l.state.parsingHeader ∧ l.run = 0 then l.countHeaderSize 1 else .ok l

/-- One round of `for (p=data; p != data + len; p++)`. -/
def step (st : Settings σ) (ch : UInt8) (l : Loop σ) : Except (Stop σ) (Loop σ) := do
  let l ← l.countByte
  let l ← dispatch st ch l
  .ok (l.advance ch)

/-- The mark that a call starts with, by the state the last one ended in. -/
def State.marked : State → Option Mark
  | .s_header_field => some .header_field
  | .s_header_value => some .header_value
  | .s_req_path | .s_req_schema | .s_req_schema_slash | .s_req_schema_slash_slash
  | .s_req_server_start | .s_req_server | .s_req_server_with_at | .s_req_query_string_start
  | .s_req_query_string | .s_req_fragment_start | .s_req_fragment => some .url
  | .s_res_status => some .status
  | _ => none

/-- The locals before the first byte. -/
def enter (parser : Fields) (user : σ) : Loop σ :=
  { parser with user := user, marks := fun m => if parser.state.marked = some m then some [] else none }

/-- An inner loop that reaches the end of the buffer steps back to its last byte, which has been
counted. -/
def Loop.endRun (l : Loop σ) : Except (Stop σ) (Loop σ) :=
  if l.run = 0 then .ok l else { l with run := 0, scanned := 0 }.countHeaderSize (l.run - 1)

/-- The end of the buffer: the data that is marked goes to its callback. -/
def leave (st : Settings σ) (l : Loop σ) : Except (Stop σ) (Loop σ) := do
  let l ← l.endRun
  let l ← l.callback st .header_field 0
  let l ← l.callback st .header_value 0
  let l ← l.callback st .url 0
  let l ← l.callback st .body 0
  l.callback st .status 0

/-- A call with `len == 0`, the end of the stream. -/
def executeEof (st : Settings σ) (parser : HttpParser) (user : σ) : Nat × HttpParser × σ :=
  match parser.state with
  | .s_body_identity_eof =>
    let (rc, user) := st.onMessageComplete parser.toFields user
    (0, if rc = 0 then parser else { parser with httpErrno := .HPE_CB_message_complete }, user)
  | .s_dead | .s_start_req_or_res | .s_start_res | .s_start_req => (0, parser, user)
  | _ => (1, { parser with httpErrno := .HPE_INVALID_EOF_STATE }, user)

/-- The loop over `data` and what follows it: the bytes left unread, the parser and the state of
the callbacks. -/
def consume (st : Settings σ) (data : Bytes) (l : Loop σ) : Nat × HttpParser × σ :=
  match scan (step st) data l with
  | .error (s, n) => (s.unread + n, s.parser, s.user)
  | .ok l =>
    match leave st l with
    | .error s => (s.unread, s.parser, s.user)
    | .ok l => (0, l.toFields.ok, l.user)

/-- `http_parser_execute`: the bytes parsed, the parser and the state of the callbacks. -/
def httpParserExecute (st : Settings σ) (parser : HttpParser) (user : σ) (data : Bytes) :
    Nat × HttpParser × σ :=
  if parser.httpErrno ≠ .HPE_OK then (0, parser, user)
  else if data = [] then executeEof st parser user
  else
    let (unread, parser, user) := consume st data (enter parser.toFields user)
    (data.length - unread, parser, user)

end

end Sylar.Http
