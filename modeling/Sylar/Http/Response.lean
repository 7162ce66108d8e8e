import Mathlib.Algebra.Order.Ring.Nat
import Mathlib.Data.List.Basic
import Sylar.Http.Dump
import Sylar.Http.HeadLimit
import Sylar.Http.Session

/- `HttpResponse::dump` of `sylar/http/http.cc`, received by `HttpConnection::recvResponse`
   of `sylar/http/http_connection.cc`.

   `dump` writes `content-length` for a body only. A response without one ends, for
   `http_parser`, with the stream, unless its status allows no body; but the loop of
   `recvResponse` takes the end of the stream for an error and does not tell the parser.
   So an empty body comes back with the statuses 204 and 304 alone, and any other
   response when its head is within the limit of the parser
   (`response_round_trip_iff`).

   `HttpConnection` reads through the `SocketStream` that `HttpSession` is as well, so
   `recvResponse` is about the same stream. -/
namespace Sylar.Http
open Sylar.Lib

/-! ## The client -/

/-- `HTTP_STATUS_MAP` of `http_parser.h`. -/
def httpStatusMap : List (Nat × String) :=
  [(100, "Continue"), (101, "Switching Protocols"), (102, "Processing"), (200, "OK"), (201, "Created"),
    (202, "Accepted"), (203, "Non-Authoritative Information"), (204, "No Content"), (205, "Reset Content"),
    (206, "Partial Content"), (207, "Multi-Status"), (208, "Already Reported"), (226, "IM Used"),
    (300, "Multiple Choices"), (301, "Moved Permanently"), (302, "Found"), (303, "See Other"),
    (304, "Not Modified"), (305, "Use Proxy"), (307, "Temporary Redirect"), (308, "Permanent Redirect"),
    (400, "Bad Request"), (401, "Unauthorized"), (402, "Payment Required"), (403, "Forbidden"),
    (404, "Not Found"), (405, "Method Not Allowed"), (406, "Not Acceptable"),
    (407, "Proxy Authentication Required"), (408, "Request Timeout"), (409, "Conflict"), (410, "Gone"),
    (411, "Length Required"), (412, "Precondition Failed"), (413, "Payload Too Large"), (414, "URI Too Long"),
    (415, "Unsupported Media Type"), (416, "Range Not Satisfiable"), (417, "Expectation Failed"),
    (421, "Misdirected Request"), (422, "Unprocessable Entity"), (423, "Locked"), (424, "Failed Dependency"),
    (426, "Upgrade Required"), (428, "Precondition Required"), (429, "Too Many Requests"),
    (431, "Request Header Fields Too Large"), (451, "Unavailable For Legal Reasons"),
    (500, "Internal Server Error"), (501, "Not Implemented"), (502, "Bad Gateway"), (503, "Service Unavailable"),
    (504, "Gateway Timeout"), (505, "HTTP Version Not Supported"), (506, "Variant Also Negotiates"),
    (507, "Insufficient Storage"), (508, "Loop Detected"), (510, "Not Extended"),
    (511, "Network Authentication Required")]

/-- `HttpStatusToString`. -/
def httpStatusToString (s : Nat) : String := (httpStatusMap.lookup s).getD "<unknown>"

/-- A header that the loop over `m_headers` does not skip. -/
def HttpResponse.dumps (r : HttpResponse) (kv : Bytes × Bytes) : Bool :=
  !(!r.websocket && sameName kv.1 (ascii "connection"))

/-- What stands behind the status. -/
def HttpResponse.reasonText (r : HttpResponse) : Bytes :=
  if r.reason = [] then ascii (httpStatusToString r.status) else r.reason

/-- `HttpResponse::dump`, the text that `HttpSession::sendResponse` writes. -/
def HttpResponse.dump (r : HttpResponse) : Bytes :=
  ascii "HTTP/" ++ decimalText (r.version >>> 4).toNat ++ ascii "." ++ decimalText (r.version &&& 0x0F).toNat ++
    ascii " " ++ decimalText r.status ++ ascii " " ++ r.reasonText ++ ascii "\r\n" ++
    ((r.headers.filter r.dumps).flatMap fun kv => kv.1 ++ ascii ": " ++ kv.2 ++ ascii "\r\n") ++
    (r.cookies.flatMap fun c => ascii "Set-Cookie: " ++ c ++ ascii "\r\n") ++
    (if !r.websocket then
      ascii "connection: " ++ ascii (if r.close then "close" else "keep-alive") ++ ascii "\r\n"
    else []) ++
    (if r.body ≠ [] then
      ascii "content-length: " ++ decimalText r.body.length ++ ascii "\r\n\r\n" ++ r.body
    else ascii "\r\n")

/-- The loop of `recvResponse`: `left` is what is in the buffer, `offset` its length. Each round
reads at least one byte, so the bytes there are bound the rounds. -/
def HttpConnection.recvLoop (buff_size : Nat) : Nat → HttpSession → HttpResponseParser → Bytes →
    Option HttpResponse × HttpSession
  | 0, s, _, _ => (none, s.close)
  | fuel + 1, s, parser, left =>
    match s.read (buff_size - left.length) with
    | (none, s) => (none, s.close)
    | (some x, s) =>
      let data := left ++ x
      let (nparse, parser) := HttpResponseParser.execute parser data
      let left := data.drop nparse
      if parser.hasError then (none, s.close)
      else if left.length = buff_size then (none, s.close)
      else if parser.isFinished then (some parser.getData, s)
      else recvLoop buff_size fuel s parser left

/-- `HttpConnection::recvResponse` with a buffer of `buff_size` bytes; `none` is the null pointer. -/
def HttpConnection.recvResponse (buff_size : Nat) (s : HttpSession) : Option HttpResponse × HttpSession :=
  recvLoop buff_size (s.incoming.flatten.length + 1) s HttpResponseParser.new []

/-! ## What is sent -/

/-- A response whose text is HTTP, the reason apart. Every `HttpStatus` from 200 on is below 1000. -/
structure SendableResponse (r : HttpResponse) : Prop where
  status : 200 ≤ r.status ∧ r.status ≤ 999
  version : r.version = 0x10 ∨ r.version = 0x11
  websocket : r.websocket = false
  cookies : r.cookies = []
  sorted : OrderedSet.Sorted keyLess r.headers
  headers : ∀ kv ∈ r.headers, IsHeader kv
  noBody : r.status = 204 ∨ r.status = 304 → r.body = []

def HttpResponse.connection (r : HttpResponse) : Bytes × Bytes :=
  (ascii "connection", ascii (if r.close then "close" else "keep-alive"))

def HttpResponse.contentLength (r : HttpResponse) : Bytes × Bytes :=
  (ascii "content-length", decimalText r.body.length)

/-- The headers that are not written anew. -/
def HttpResponse.others (r : HttpResponse) : MapType :=
  r.headers.filter fun kv => !sameName kv.1 (ascii "connection")

/-- The headers of the response that arrives: `connection` says whether it is to be closed, and with a
body `content-length` its size. -/
def HttpResponse.sentHeaders (r : HttpResponse) : MapType :=
  let h := r.others.set r.connection.1 r.connection.2
  if r.body = [] then h else h.set r.contentLength.1 r.contentLength.2

/-- The response, with the headers that `dump` sets, is what `recvResponse` returns when its text is
all that the stream has and comes in one read. -/
def HttpResponse.CameBack (buff_size : Nat) (r : HttpResponse) : Prop :=
  ∃ rsp, (HttpConnection.recvResponse buff_size { incoming := [r.dump] }).1 = some rsp ∧
    rsp.status = r.status ∧ rsp.version = r.version ∧ rsp.body = r.body ∧ rsp.headers = r.sentHeaders

/-- The text says where the response ends. -/
def HttpResponse.Delimited (r : HttpResponse) : Prop := r.body ≠ [] ∨ r.status = 204 ∨ r.status = 304

instance (r : HttpResponse) : Decidable r.Delimited := inferInstanceAs (Decidable (_ ∨ _))

/-- The text without the body. -/
def HttpResponse.headLength (r : HttpResponse) : Nat := r.dump.length - r.body.length

/-- The digit of the minor version. -/
def HttpResponse.minor (r : HttpResponse) : UInt8 := if r.version = 0x10 then chr '0' else chr '1'

/-- The lines behind the first one, but for the length of the body. -/
def HttpResponse.lines (r : HttpResponse) : MapType := r.others ++ [r.connection]

/-- The first line. -/
def HttpResponse.firstLine (r : HttpResponse) : Bytes := statusLine r.minor (decimalText r.status) r.reasonText

section
variable {r : HttpResponse}

theorem replyVersion_eq (hv : r.version = 0x10 ∨ r.version = 0x11) :
    ascii "HTTP/" ++ decimalText (r.version >>> 4).toNat ++ ascii "." ++ decimalText (r.version &&& 0x0F).toNat ++
      ascii " " = ascii "HTTP/1." ++ [r.minor, chr ' '] := by
  unfold HttpResponse.minor
  rcases hv with hv | hv
  · rw [hv]
    rfl
  · rw [hv]
    rfl

/-- The text of a response, line by line. -/
theorem SendableResponse.dump_eq (h : SendableResponse r) :
    r.dump = r.firstLine ++ (r.lines.flatMap dumpLine ++
      if r.body = [] then [CR, LF] else dumpLine r.contentLength ++ ([CR, LF] ++ r.body)) := by
  have hname : ascii "connection: " = ascii "connection" ++ ascii ": " := rfl
  have hconn : ascii "connection: " ++ ascii (if r.close then "close" else "keep-alive") ++ ascii "\r\n" =
      dumpLine r.connection := by
    rw [hname]
    exact line_eq r.connection
  have hlines : (fun kv : Bytes × Bytes => kv.1 ++ ascii ": " ++ kv.2 ++ ascii "\r\n") = dumpLine := funext line_eq
  have hfilter : r.headers.filter r.dumps = r.others := by
    refine List.filter_congr ?_
    intro kv _
    simp [HttpResponse.dumps, h.websocket]
  have hversion := replyVersion_eq h.version
  unfold HttpResponse.dump
  rw [if_pos (by simp [h.websocket]), hconn, hlines, hfilter, h.cookies, dumpEnd_eq, hversion]
  simp only [HttpResponse.firstLine, HttpResponse.lines, HttpResponse.contentLength, statusLine,
    List.flatMap_append, List.flatMap_cons, List.flatMap_nil, List.append_assoc, List.append_nil]
  rfl

/-! ## The headers that arrive -/

theorem isHeader_replyConnection (r : HttpResponse) : IsHeader r.connection := by
  have hboth : ∀ b : Bool, IsName (ascii "connection") ∧ Ordinary (ascii "connection") ∧
      IsValue (ascii (if b then "close" else "keep-alive")) := by decide +kernel
  obtain ⟨hname, hordinary, hvalue⟩ := hboth r.close
  exact ⟨hname, hordinary, hvalue⟩

theorem SendableResponse.isHeader (h : SendableResponse r) : ∀ kv ∈ r.lines, IsHeader kv := by
  intro kv hkv
  rcases List.mem_append.mp hkv with hkv | hkv
  · exact h.headers kv (List.mem_filter.mp hkv).1
  · rw [List.mem_singleton.mp hkv]
    exact isHeader_replyConnection r

theorem foldl_setReplyHeader : ∀ (kvs : MapType) (d : HttpResponse),
    kvs.foldl (fun d kv => d.setHeader kv.1 kv.2) d =
      { d with headers := kvs.foldl (fun m kv => MapType.set kv.1 kv.2 m) d.headers } := by
  intro kvs
  induction kvs with
  | nil => intro d; rfl
  | cons kv rest ih =>
    intro d
    rw [List.foldl_cons, ih]
    rfl

/-- The lines of a map, set one after another, give the map. -/
theorem foldl_set_sorted {m : MapType} (hs : OrderedSet.Sorted keyLess m) :
    m.foldl (fun m kv => MapType.set kv.1 kv.2 m) [] = m := by
  obtain ⟨hs', hmem⟩ := foldl_set_fresh m [] List.Pairwise.nil (pairwise_ne hs)
    (fun kv _ x hx => absurd hx List.not_mem_nil)
  refine OrderedSet.sorted_ext keyLess_irrefl keyLess_trans hs' hs ?_
  intro kv
  rw [hmem]
  simp

theorem SendableResponse.foldl_lines (h : SendableResponse r) :
    r.lines.foldl (fun m kv => MapType.set kv.1 kv.2 m) [] = r.others.set r.connection.1 r.connection.2 := by
  have hs : OrderedSet.Sorted keyLess r.others := OrderedSet.sorted_of_sublist h.sorted List.filter_sublist
  rw [HttpResponse.lines, List.foldl_append, foldl_set_sorted hs]
  rfl

/-! ## Reading it back -/

theorem takesResponse : TakesHeaders responseSettings HttpResponse.setHeader := ⟨rfl, rfl⟩

theorem takesResponseBody : TakesBody responseSettings HttpResponse.appendBody := ⟨rfl, rfl⟩

/-- The loop before the first byte of the text. -/
def startReply : Loop (Handler HttpResponse) :=
  enter HttpResponseParser.new.parser.toFields HttpResponseParser.new.toHandler

theorem startReply_atReply : AtReply startReply := ⟨rfl, rfl, rfl, rfl, rfl⟩

theorem replyMinor_isNum (r : HttpResponse) : isNum r.minor = true := by
  unfold HttpResponse.minor
  split
  · decide
  · decide

theorem packVersion_replyMinor {p : Fields} (hv : r.version = 0x10 ∨ r.version = 0x11) (hmajor : p.httpMajor = 1)
    (hminor : p.httpMinor = (r.minor - chr '0').toNat) : packVersion p = r.version := by
  unfold packVersion
  rw [hmajor, hminor, HttpResponse.minor]
  rcases hv with hv | hv
  · rw [hv]
    decide
  · rw [hv]
    decide

/-- A reason that is written is one line: the text of a status has no line ends in it. -/
theorem reasonText_clean (hreason : ∀ c ∈ r.reason, ReasonChar c) :
    r.reasonText ≠ [] ∧ ∀ c ∈ r.reasonText, ReasonChar c := by
  have htexts : ∀ e ∈ httpStatusMap, ascii e.2 ≠ [] ∧ (ascii e.2).all (fun c => decide (ReasonChar c)) = true := by
    decide +kernel
  have hunknown : ascii "<unknown>" ≠ [] ∧ (ascii "<unknown>").all (fun c => decide (ReasonChar c)) = true := by
    decide +kernel
  unfold HttpResponse.reasonText
  by_cases hempty : r.reason = []
  · rw [if_pos hempty]
    have htext : ascii (httpStatusToString r.status) ≠ [] ∧
        (ascii (httpStatusToString r.status)).all (fun c => decide (ReasonChar c)) = true := by
      unfold httpStatusToString
      cases hlookup : httpStatusMap.lookup r.status with
      | none => exact hunknown
      | some text =>
        obtain ⟨before, rest, hmap, -⟩ := List.lookup_eq_some_iff.mp hlookup
        exact htexts (r.status, text) (by rw [hmap]; simp)
    exact ⟨htext.1, fun c hc => of_decide_eq_true (List.all_eq_true.mp htext.2 c hc)⟩
  · rw [if_neg hempty]
    exact ⟨hempty, hreason⟩

/-- The loop at the end of the lines, with `m` as the headers so far. -/
structure HeadRead (r : HttpResponse) (m : MapType) (l : Loop (Handler HttpResponse)) : Prop where
  lines : EndsLines l
  response : l.type = .HTTP_RESPONSE
  status : l.statusCode = r.status
  version : packVersion l.toFields = r.version
  data : l.user.data = { status := r.status, headers := m }

/-- The head of a response, up to the lines of its headers. -/
theorem SendableResponse.reads_head (h : SendableResponse r) (hreason : ∀ c ∈ r.reason, ReasonChar c)
    (hroom : r.firstLine.length + (r.lines.flatMap dumpLine).length ≤ maxHeaderSize.toNat) :
    ∃ l, HeadRead r (r.others.set r.connection.1 r.connection.2) l ∧
      ReadsLine responseSettings (r.firstLine ++ r.lines.flatMap dumpLine) startReply l ∧
      l.contentLength = ULLONG_MAX ∧ l.flags.contentlength = false ∧
      l.nread.toNat = r.firstLine.length + (r.lines.flatMap dumpLine).length := by
  obtain ⟨hne, hclean⟩ := reasonText_clean hreason
  have hzero : startReply.nread.toNat = 0 := rfl
  have hdecimal : decimal (decimalText r.status) ≤ 999 := by
    rw [decimal_decimalText]
    exact h.status.2
  obtain ⟨l₁, hstart, hreplied⟩ := reads_statusLine startReply_atReply rfl (replyMinor_isNum r)
    (decimalText_isLength r.status) hdecimal hne hclean
    (by rw [HttpResponse.firstLine] at hroom; omega)
  have hnread : l₁.nread.toNat = startReply.nread.toNat + r.firstLine.length := hreplied.nread_eq
  have hstatus : l₁.statusCode = r.status := hreplied.status_eq.trans (decimal_decimalText r.status)
  obtain ⟨kv, kvs, hcons⟩ : ∃ kv kvs, r.lines = kv :: kvs := by
    cases hlines : r.lines with
    | nil => exact absurd hlines (by simp [HttpResponse.lines])
    | cons kv kvs => exact ⟨kv, kvs, rfl⟩
  obtain ⟨l, hlines⟩ := reads_lines takesResponse kvs kv l₁ hreplied.atLine
    (by show l₁.user.finished = false; rw [hreplied.user_eq]; rfl) (by rw [← hcons]; exact h.isHeader)
    (by rw [← hcons]; omega)
  rw [← hcons] at hlines
  have hflags := hlines.flags_same
  rw [hreplied.flags_eq] at hflags
  have hmajor : l.httpMajor = 1 := hlines.head.major_eq.trans hreplied.major_eq
  have hminor : l.httpMinor = (r.minor - chr '0').toNat := hlines.head.minor_eq.trans hreplied.minor_eq
  have hmethod : l.method = .DELETE := (hlines.head.method_eq.trans hreplied.method_eq).trans rfl
  have hends : EndsLines l :=
    { atLine := hlines.atLine
      unfinished := hlines.unfinished
      method := by rw [hmethod]; decide
      chunked := hflags.chunked
      trailing := hflags.trailing
      upgrade := hflags.upgrade
      skipbody := hflags.skipbody }
  refine ⟨l, ⟨hends, ?_, hlines.head.status_eq.trans hstatus, packVersion_replyMinor h.version hmajor hminor, ?_⟩,
    ?_, hlines.length_eq.trans hreplied.length_eq, hflags.contentlength, ?_⟩
  · exact (hlines.head.type_eq.trans hreplied.type_eq).trans rfl
  · rw [hlines.data_eq, hreplied.user_eq, foldl_setReplyHeader, ← h.foldl_lines, decimal_decimalText]
    rfl
  · obtain ⟨m, hm, hrest⟩ := hlines.lines
    exact ⟨m, hstart.append hm, hrest⟩
  · rw [hlines.nread_eq, hnread, hzero, Nat.zero_add]

/-- The members of the response when its head has been read. -/
def HttpResponse.headOf (r : HttpResponse) (m : MapType) : HttpResponse :=
  { status := r.status, version := r.version, headers := m }

theorem HeadRead.onHeaders {m : MapType} {l : Loop (Handler HttpResponse)} (h : HeadRead r m l) (p : Fields)
    (hp : { p with nread := l.nread, state := l.state, upgrade := l.upgrade } = l.toFields) :
    responseSettings.onHeadersComplete p l.user = (0, { l.user with data := r.headOf m }) := by
  have hversion : packVersion p = r.version := by
    rw [← h.version, ← hp]
    rfl
  have hstatus : p.statusCode = r.status := by
    rw [← h.status, ← hp]
  show onResponseHeadersComplete p l.user = _
  unfold onResponseHeadersComplete
  rw [hversion, hstatus, h.data]
  rfl

/-- The line with the length, behind the other lines. -/
theorem HeadRead.reads_length {m : MapType} {bytes : Bytes} {l₀ l : Loop (Handler HttpResponse)} (h : HeadRead r m l)
    (hbody : r.body.length < 2 ^ 63) (hline : ReadsLine responseSettings bytes l₀ l)
    (hflag : l.flags.contentlength = false)
    (hroom : l.nread.toNat + (dumpLine r.contentLength).length ≤ maxHeaderSize.toNat) :
    ∃ l', HeadRead r (m.set r.contentLength.1 r.contentLength.2) l' ∧
      ReadsLine responseSettings (bytes ++ dumpLine r.contentLength) l₀ l' ∧
      l'.contentLength.toNat = r.body.length ∧
      l'.nread.toNat = l.nread.toNat + (dumpLine r.contentLength).length := by
  obtain ⟨l', hends, hhead, hline', hlength, hnread, hdata⟩ :=
    reads_lengthLine takesResponse hbody h.lines hline hflag hroom
  have hversion : packVersion l'.toFields = packVersion l.toFields := by
    unfold packVersion
    rw [hhead.major_eq, hhead.minor_eq]
  refine ⟨l', ⟨hends, hhead.type_eq.trans h.response, hhead.status_eq.trans h.status, hversion.trans h.version, ?_⟩,
    hline', hlength, hnread⟩
  rw [hdata, h.data]
  rfl

/-- The response that is read: with the reason that `dump` writes, and the headers that it sets. -/
def HttpResponse.arrived (r : HttpResponse) : HttpResponse := { r.headOf r.sentHeaders with body := r.body }

/-- The whole text has been read. -/
structure TextRead (r : HttpResponse) (t : Loop (Handler HttpResponse)) : Prop where
  clear : Clear t
  finished : t.user.finished = true ↔ r.Delimited
  data : t.user.data = r.arrived

theorem needsEof_iff {p : Fields} (hr : p.type = .HTTP_RESPONSE) (hs : 200 ≤ p.statusCode)
    (hk : p.flags.skipbody = false) (hc : p.flags.chunked = false) (hl : p.contentLength = ULLONG_MAX) :
    httpMessageNeedsEof p = true ↔ ¬ (p.statusCode = 204 ∨ p.statusCode = 304) := by
  have hhundred : p.statusCode / 100 ≠ 1 := by omega
  unfold httpMessageNeedsEof
  rw [hr, if_neg (by decide)]
  by_cases hstatus : p.statusCode = 204 ∨ p.statusCode = 304
  · rw [if_pos (Or.inr (hstatus.imp_right Or.inl))]
    simp [hstatus]
  · have hother : ¬ (p.statusCode / 100 = 1 ∨ p.statusCode = 204 ∨ p.statusCode = 304 ∨ p.flags.skipbody = true) := by
      rw [hk]
      simpa [hhundred] using hstatus
    rw [if_neg hother, if_neg (by simp [hc, hl])]
    simpa using hstatus

/-- An empty line behind lines that gave no length: the status decides whether it ends the response. -/
theorem HeadRead.reads_bare {l : Loop (Handler HttpResponse)} (h : SendableResponse r) (hread : HeadRead r r.sentHeaders l)
    (hl : l.contentLength = ULLONG_MAX) (hbody : r.body = []) (hroom : l.nread.toNat + 2 ≤ maxHeaderSize.toNat) :
    ∃ t, Reads responseSettings [CR, LF] l t ∧ TextRead r t := by
  have hlines := hread.lines
  let l' : Loop (Handler HttpResponse) :=
    Loop.headersRead l.counted.counted { l.user with data := r.headOf r.sentHeaders }
  have hdata : r.headOf r.sentHeaders = r.arrived := by
    unfold HttpResponse.arrived
    rw [hbody]
    rfl
  have heof := needsEof_iff (p := { l'.toFields with nread := 0 }) hread.response
    (by show 200 ≤ l.statusCode; rw [hread.status]; exact h.status.1) hlines.skipbody hlines.chunked hl
  have hstatus : ({ l'.toFields with nread := 0 } : Fields).statusCode = r.status := hread.status
  rw [hstatus] at heof
  have hbare : headersDone responseSettings LF l' = _ :=
    headersDone_bare (l := l') rfl hlines.chunked hlines.skipbody hl
  have hcr := step_endCr responseSettings hlines.atLine (by omega)
  have hlf : ∀ t, t.marks = noMarks → headersDone responseSettings LF l' = .ok t →
      step responseSettings LF { l.counted with state := .s_headers_almost_done } = .ok t :=
    fun t ht => step_endLf hlines hroom hread.onHeaders ht
  by_cases hnone : r.status = 204 ∨ r.status = 304
  · have hends : httpMessageNeedsEof { l'.toFields with nread := 0 } = false := by
      rw [← Bool.not_eq_true, heof]
      exact not_not.mpr hnone
    rw [hends] at hbare
    have hdone := hbare.trans (messageComplete_eq takesResponseBody _)
    refine ⟨_, Leads.cons hlines.unfinished hcr (Leads.single hlines.unfinished
      (hlf _ (by exact hlines.atLine.marks) hdone)), ⟨?_, ?_, hdata⟩⟩
    · exact ⟨fun m => congrFun hlines.atLine.marks m, hlines.atLine.run, hlines.atLine.scanned, newMessage_marked _⟩
    · exact iff_of_true rfl (Or.inr hnone)
  · have hwaits : httpMessageNeedsEof { l'.toFields with nread := 0 } = true := heof.mpr hnone
    rw [hwaits] at hbare
    refine ⟨_, Leads.cons hlines.unfinished hcr (Leads.single hlines.unfinished
      (hlf _ (by exact hlines.atLine.marks) hbare)), ⟨?_, ?_, hdata⟩⟩
    · exact ⟨fun m => congrFun hlines.atLine.marks m, hlines.atLine.run, hlines.atLine.scanned, rfl⟩
    · refine iff_of_false ?_ (fun hd => hd.elim (fun hne => hne hbody) hnone)
      intro hfin
      exact absurd (hlines.unfinished.symm.trans hfin) (by decide)

/-- The whole text of a response is read when its head is within the limit. -/
theorem SendableResponse.reads_dump (h : SendableResponse r) (hreason : ∀ c ∈ r.reason, ReasonChar c)
    (hbody : r.body.length < 2 ^ 63) (hhead : r.headLength ≤ maxHeaderSize.toNat) :
    ∃ t, Reads responseSettings r.dump startReply t ∧ TextRead r t := by
  have hblank : ¬(CR = chr ' ' ∨ CR = 9) := by decide
  unfold HttpResponse.headLength at hhead
  rw [h.dump_eq] at hhead ⊢
  rw [List.length_append, List.length_append] at hhead
  by_cases hempty : r.body = []
  · rw [if_pos hempty] at hhead ⊢
    rw [hempty, List.length_nil, List.length_cons, List.length_cons, List.length_nil] at hhead
    obtain ⟨l, hread, hline, hlength, -, hnread⟩ := h.reads_head hreason (by omega)
    have hsent : r.sentHeaders = r.others.set r.connection.1 r.connection.2 := by
      unfold HttpResponse.sentHeaders
      exact if_pos hempty
    rw [← hsent] at hread
    obtain ⟨t, hreads, htext⟩ := hread.reads_bare h hlength hempty (by omega)
    refine ⟨t, ?_, htext⟩
    rw [← List.append_assoc]
    exact hline.reads hblank (by omega) hreads
  · obtain ⟨b, bs, hcons⟩ := List.exists_cons_of_ne_nil hempty
    rw [if_neg hempty] at hhead ⊢
    rw [List.length_append, List.length_append, List.length_cons, List.length_cons, List.length_nil] at hhead
    obtain ⟨l, hread, hline, -, hflag, hnread⟩ := h.reads_head hreason (by omega)
    obtain ⟨l', hread', hline', hlength, hnread'⟩ := hread.reads_length hbody hline hflag (by omega)
    have hsent : r.sentHeaders =
        (r.others.set r.connection.1 r.connection.2).set r.contentLength.1 r.contentLength.2 := by
      unfold HttpResponse.sentHeaders
      exact if_neg hempty
    rw [← hsent] at hread'
    have hmax := length_ne_max hlength hbody
    rw [hcons, List.length_cons] at hlength
    obtain ⟨t, hreads, hend⟩ := reads_lineBody (u := { l'.user with data := r.headOf r.sentHeaders })
      takesResponseBody hread'.lines (b := b) hlength hmax (by omega) hread'.lines.unfinished hread'.onHeaders
    refine ⟨t, ?_, ⟨hend.clear, iff_of_true hend.finished (Or.inl hempty), ?_⟩⟩
    · rw [← hcons] at hreads
      rw [← List.append_assoc, ← List.append_assoc]
      exact hline'.reads hblank (by omega) hreads
    · rw [hend.data_eq, ← hcons]
      rfl

/-! ## Receiving -/

/-- `execute` of a new parser on a text that is read to its end. -/
theorem execute_reply {data : Bytes} (hne : data ≠ []) {t : Loop (Handler HttpResponse)}
    (hreads : Reads responseSettings data startReply t) (hclear : Clear t) :
    ∃ p, HttpResponseParser.execute HttpResponseParser.new data = (data.length, p) ∧
      p.hasError = false ∧ p.isFinished = t.user.finished ∧ p.getData = t.user.data := by
  have hconsume : consume responseSettings data startReply = (0, t.toFields.ok, t.user) := by
    unfold consume
    rw [hreads.scan_eq]
    dsimp only
    rw [leave_clear hclear]
  refine ⟨.after (0, t.toFields.ok, t.user) responseError, ?_, rfl, rfl, rfl⟩
  unfold HttpResponseParser.execute
  rw [executeWith_eq rfl rfl hne]
  have hstart : enter HttpResponseParser.new.parser.toFields HttpResponseParser.new.toHandler = startReply := rfl
  rw [hstart, hconsume, Nat.sub_zero]

/-- `execute` of a new parser on a text that completes no message. -/
theorem execute_kept {data : Bytes} (hne : data ≠ []) (h : Kept Unfinished (scan (step responseSettings) data startReply)) :
    (HttpResponseParser.execute HttpResponseParser.new data).2.isFinished = false := by
  unfold HttpResponseParser.execute
  rw [executeWith_eq rfl rfl hne]
  exact consume_unfinished h

/-- A text that leaves the parser unfinished: the next read finds the end of the stream. -/
theorem recvResponse_unfinished {buff_size : Nat} {data : Bytes} (hne : data ≠ []) (hfit : data.length ≤ buff_size)
    (h : (HttpResponseParser.execute HttpResponseParser.new data).2.isFinished = false) :
    (HttpConnection.recvResponse buff_size { incoming := [data] }).1 = none := by
  have hend : ∀ (fuel : Nat) (parser : HttpResponseParser) (left : Bytes),
      (HttpConnection.recvLoop buff_size fuel { incoming := [] } parser left).1 = none := by
    intro fuel parser left
    cases fuel with
    | zero => rfl
    | succ fuel => rfl
  unfold HttpConnection.recvResponse HttpConnection.recvLoop
  rw [List.length_nil, Nat.sub_zero, read_piece hne hfit]
  dsimp only
  rw [List.nil_append, h]
  split
  · rfl
  · split
    · rfl
    · exact hend _ _ _

/-- A text that finishes the parser with its last byte. -/
theorem recvResponse_finished {buff_size : Nat} {data : Bytes} (hne : data ≠ []) (hfit : data.length ≤ buff_size)
    {p : HttpResponseParser} (hexecute : HttpResponseParser.execute HttpResponseParser.new data = (data.length, p))
    (herror : p.hasError = false) (hfinished : p.isFinished = true) :
    (HttpConnection.recvResponse buff_size { incoming := [data] }).1 = some p.getData := by
  have hpos : 0 < data.length := List.length_pos_iff.mpr hne
  have hleft : ¬ (data.drop data.length).length = buff_size := by
    rw [List.drop_length, List.length_nil]
    omega
  unfold HttpConnection.recvResponse HttpConnection.recvLoop
  rw [List.length_nil, Nat.sub_zero, read_piece hne hfit]
  dsimp only
  rw [List.nil_append, hexecute]
  dsimp only
  rw [herror, hfinished, if_neg (by decide), if_neg hleft]
  rfl

/-! ## Heads that are too long -/

theorem isLine_statusLine {x : UInt8} {status reason : Bytes} (hx : isNum x = true) (hs : IsLength status)
    (hreason : ∀ c ∈ reason, ReasonChar c) : IsLine (statusLine x status reason) := by
  have hnum : ∀ d, isNum d = true → d ≠ LF := by
    apply forall_byte
    decide +kernel
  have hword : ∀ b ∈ ascii "TTP/1.", b ≠ LF := by
    intro b hb
    exact of_decide_eq_true (List.all_eq_true.mp (by decide : (ascii "TTP/1.").all (fun b => decide (b ≠ LF)) = true) b hb)
  refine ⟨chr 'H', ascii "TTP/1." ++ [x, chr ' '] ++ (status ++ [chr ' '] ++ (reason ++ [CR])), ?_, by decide, by decide,
    ?_⟩
  · simp only [statusLine, List.append_assoc]
    rfl
  · intro b hb
    simp only [List.mem_append, List.mem_cons, List.not_mem_nil, or_false] at hb
    rcases hb with (hb | rfl | rfl) | (hb | rfl) | (hb | rfl)
    · exact hword b hb
    · exact hnum b hx
    · decide
    · exact hnum b (hs.2 b hb)
    · decide
    · exact (hreason b hb).2
    · decide

theorem isLine_dumpLine {kv : Bytes × Bytes} (hn : IsName kv.1) (hv : IsValue kv.2) : IsLine (dumpLine kv) := by
  have htoken : ∀ c, token c ≠ 0 → c ≠ CR ∧ c ≠ LF := by
    apply forall_byte
    decide +kernel
  obtain ⟨c, cs, hname⟩ := List.exists_cons_of_ne_nil hn.1
  have hchars : ∀ b ∈ c :: cs, b ≠ CR ∧ b ≠ LF := by
    intro b hb
    rw [← hname] at hb
    exact htoken b (hn.2 b hb)
  obtain ⟨hc, hcs⟩ := List.forall_mem_cons.mp hchars
  refine ⟨c, cs ++ [chr ':', chr ' '] ++ kv.2 ++ [CR], by simp [dumpLine, headerLine, hname], hc.1, hc.2, ?_⟩
  intro b hb
  simp only [List.mem_append, List.mem_cons, List.not_mem_nil, or_false] at hb
  rcases hb with ((hb | rfl | rfl) | hb) | rfl
  · exact (hcs b hb).2
  · decide
  · decide
  · exact (hv.1 b hb).2.2
  · decide

/-- The lines of the head, and what is behind them. -/
theorem SendableResponse.dump_lines (h : SendableResponse r) (hreason : ∀ c ∈ r.reason, ReasonChar c) :
    ∃ lines : List Bytes, (∀ x ∈ lines, IsLine x) ∧ r.dump = lines.flatten ++ ([CR, LF] ++ r.body) := by
  have hfirst : IsLine r.firstLine :=
    isLine_statusLine (replyMinor_isNum r) (decimalText_isLength r.status) (reasonText_clean hreason).2
  have hlines : ∀ x ∈ r.lines.map dumpLine, IsLine x := by
    intro x hx
    obtain ⟨kv, hkv, rfl⟩ := List.mem_map.mp hx
    exact isLine_dumpLine (h.isHeader kv hkv).name (h.isHeader kv hkv).value
  have hflat : (r.lines.map dumpLine).flatten = r.lines.flatMap dumpLine := rfl
  rw [h.dump_eq]
  by_cases hempty : r.body = []
  · refine ⟨r.firstLine :: r.lines.map dumpLine, List.forall_mem_cons.mpr ⟨hfirst, hlines⟩, ?_⟩
    rw [if_pos hempty, List.flatten_cons, hflat, hempty, List.append_nil, List.append_assoc]
  · have hlength : IsLine (dumpLine r.contentLength) :=
      isLine_dumpLine (show IsName (ascii "content-length") by decide) (decimalText_isLength r.body.length).isValue
    refine ⟨r.firstLine :: (r.lines.map dumpLine ++ [dumpLine r.contentLength]), ?_, ?_⟩
    · refine List.forall_mem_cons.mpr ⟨hfirst, ?_⟩
      intro x hx
      rcases List.mem_append.mp hx with hx | hx
      · exact hlines x hx
      · rw [List.mem_singleton.mp hx]
        exact hlength
    · rw [if_neg hempty, List.flatten_cons, List.flatten_append, hflat]
      simp only [List.flatten_cons, List.flatten_nil, List.append_nil, List.append_assoc]

theorem startReply_inHead : InHead 0 startReply := ⟨rfl, by decide, rfl, rfl, fun hne => absurd rfl hne⟩

/-- The parser is not finished with a response whose head is longer than it allows. -/
theorem SendableResponse.execute_long (h : SendableResponse r) (hreason : ∀ c ∈ r.reason, ReasonChar c)
    (hne : r.dump ≠ []) (hint : r.dump.length < 2 ^ 31) (hlong : maxHeaderSize.toNat < r.headLength) :
    (HttpResponseParser.execute HttpResponseParser.new r.dump).2.isFinished = false := by
  obtain ⟨lines, hlines, hdump⟩ := h.dump_lines hreason
  have hlen : r.dump.length = lines.flatten.length + (2 + r.body.length) := by
    rw [hdump, List.length_append, List.length_append]
    rfl
  unfold HttpResponse.headLength at hlong
  refine execute_kept hne ?_
  rw [hdump]
  exact scan_long hlines startReply_inHead (Or.inl rfl) (by omega) (by omega)

/-! ## Round trips -/

theorem SendableResponse.dump_ne_nil (h : SendableResponse r) : r.dump ≠ [] := by
  rw [h.dump_eq]
  exact List.cons_ne_nil _ _

/-- What `recvResponse` returns of a text whose head is within the limit. -/
theorem SendableResponse.received (h : SendableResponse r) (hreason : ∀ c ∈ r.reason, ReasonChar c) {buff_size : Nat}
    (hfit : r.dump.length ≤ buff_size) (hbody : r.body.length < 2 ^ 63) (hhead : r.headLength ≤ maxHeaderSize.toNat) :
    (r.Delimited → (HttpConnection.recvResponse buff_size { incoming := [r.dump] }).1 = some r.arrived) ∧
      (¬ r.Delimited → (HttpConnection.recvResponse buff_size { incoming := [r.dump] }).1 = none) := by
  obtain ⟨t, hreads, htext⟩ := h.reads_dump hreason hbody hhead
  obtain ⟨p, hexecute, herror, hfinished, hdata⟩ := execute_reply h.dump_ne_nil hreads htext.clear
  constructor
  · intro hdelimited
    rw [recvResponse_finished h.dump_ne_nil hfit hexecute herror (hfinished.trans (htext.finished.mpr hdelimited)),
      hdata, htext.data]
  · intro hopen
    have hunfinished : t.user.finished = false := by
      rw [← Bool.not_eq_true]
      exact fun hfin => hopen (htext.finished.mp hfin)
    refine recvResponse_unfinished h.dump_ne_nil hfit ?_
    rw [hexecute]
    exact hfinished.trans hunfinished

/-- **A response whose reason is one line comes back exactly when its text says where it ends and its
head is within the limit of the parser.** -/
theorem response_round_trip_iff (buff_size : Nat) (r : HttpResponse) (h : SendableResponse r)
    (hreason : ∀ c ∈ r.reason, ReasonChar c) (hfit : r.dump.length ≤ buff_size) (hint : r.dump.length < 2 ^ 31) :
    r.CameBack buff_size ↔ r.Delimited ∧ r.headLength ≤ maxHeaderSize.toNat := by
  have hbody : r.body.length < 2 ^ 63 := by
    obtain ⟨lines, -, hdump⟩ := h.dump_lines hreason
    rw [hdump, List.length_append, List.length_append] at hint
    omega
  constructor
  · intro hback
    obtain ⟨rsp, hsome, -⟩ := hback
    have hhead : r.headLength ≤ maxHeaderSize.toNat := by
      by_contra hlong
      have hunfinished := h.execute_long hreason h.dump_ne_nil hint (Nat.not_le.mp hlong)
      rw [recvResponse_unfinished h.dump_ne_nil hfit hunfinished] at hsome
      cases hsome
    refine ⟨?_, hhead⟩
    by_contra hopen
    rw [(h.received hreason hfit hbody hhead).2 hopen] at hsome
    cases hsome
  · intro hcond
    obtain ⟨hdelimited, hhead⟩ := hcond
    exact ⟨r.arrived, (h.received hreason hfit hbody hhead).1 hdelimited, rfl, rfl, rfl, rfl⟩

end

/-- `404` with a header, a body and a connection that is kept. -/
def notFoundResponse : HttpResponse where
  status := 404
  close := false
  headers := [(ascii "Content-Type", ascii "text/html"), (ascii "Server", ascii "sylar")]
  body := ascii "404"

theorem notFoundResponse_sendable : SendableResponse notFoundResponse where
  status := by decide
  version := Or.inr rfl
  websocket := rfl
  cookies := rfl
  sorted := by unfold OrderedSet.Sorted; decide +kernel
  headers := by
    intro kv hkv
    rcases List.mem_cons.mp hkv with rfl | hkv
    · exact ⟨by decide, by decide, by decide⟩
    · rw [List.mem_singleton.mp hkv]
      exact ⟨by decide, by decide, by decide⟩
  noBody := by decide

theorem notFoundResponse_came_back : notFoundResponse.CameBack 4096 :=
  (response_round_trip_iff 4096 notFoundResponse notFoundResponse_sendable
    (fun c hc => absurd hc List.not_mem_nil) (by decide +kernel) (by decide +kernel)).mpr
    ⟨Or.inl (by decide), by decide +kernel⟩

/-- `200` without a body. -/
def emptyResponse : HttpResponse := {}

theorem emptyResponse_sendable : SendableResponse emptyResponse where
  status := by decide
  version := Or.inr rfl
  websocket := rfl
  cookies := rfl
  sorted := List.Pairwise.nil
  headers := fun kv hkv => absurd hkv List.not_mem_nil
  noBody := fun _ => rfl

/-- Its text is what `sendResponse` writes, and `recvResponse` returns the null pointer for it. -/
theorem emptyResponse_lost : SendableResponse emptyResponse ∧ ¬ emptyResponse.CameBack 4096 := by
  refine ⟨emptyResponse_sendable, ?_⟩
  intro hback
  obtain ⟨rsp, hsome, -⟩ := hback
  have hfit : emptyResponse.dump.length ≤ 4096 := by decide +kernel
  have hnone := (emptyResponse_sendable.received (fun c hc => absurd hc List.not_mem_nil) hfit (by decide)
    (by decide +kernel)).2 (by decide)
  rw [hnone] at hsome
  cases hsome

end Sylar.Http
