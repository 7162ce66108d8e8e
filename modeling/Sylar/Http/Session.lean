import Mathlib.Data.List.Basic
import Mathlib.Data.List.Forall2
import Sylar.Lib.Receiver
import Sylar.Http.Chunking

/- `HttpSession::recvRequest` of `sylar/http/http_session.cc`.

   The socket is what it has for the reader: `incoming` lists what the next calls
   of `recv` find, each call taking at most the room there is in the buffer; when the
   list is used up the peer has closed. A result that is not positive is `none`.

   Every call of `recvRequest` starts with a new parser and an empty buffer. The
   parser does not stop at the end of a request: `http_parser_execute` goes on with the
   next message in the same buffer, into the same `HttpRequest`. So a read that holds
   the end of one request and the beginning of the next merges the two and loses what
   it has read of the second (`requests_merged`). `requests_framed` says when the
   requests come out as they were sent: when no read holds bytes of two of them, and
   the reads of each are cut where the parser can be interrupted. -/
namespace Sylar.Http
open Sylar.Lib

structure HttpSession where
  incoming : List Bytes
  connected : Bool := true
  deriving DecidableEq, Repr

/-- `SocketStream::close`. -/
def HttpSession.close (s : HttpSession) : HttpSession := { s with connected := false }

/-- `SocketStream::read` with room for `length` bytes. -/
def HttpSession.read (s : HttpSession) (length : Nat) : Option Bytes × HttpSession :=
  if s.connected then
    match s.incoming with
    | [] => (none, s)
    | x :: rest =>
      if x = [] ∨ length = 0 then (none, s)
      else if x.length ≤ length then (some x, { s with incoming := rest })
      else (some (x.take length), { s with incoming := x.drop length :: rest })
  else (none, s)

/-- The loop of `recvRequest`: `left` is what is in the buffer, `offset` its length. Each round
reads at least one byte, so the bytes there are bound the rounds. -/
def HttpSession.recvLoop (buff_size : Nat) : Nat → HttpSession → HttpRequestParser → Bytes →
    Option HttpRequest × HttpSession
  | 0, s, _, _ => (none, s.close)
  | fuel + 1, s, parser, left =>
    match s.read (buff_size - left.length) with
    | (none, s) => (none, s.close)
    | (some x, s) =>
      let data := left ++ x
      let (nparse, parser) := HttpRequestParser.execute parser data
      let left := data.drop nparse
      if parser.hasError then (none, s.close)
      else if left.length = buff_size then (none, s.close)
      else if parser.isFinished then (some parser.getData.init, s)
      else s.recvLoop buff_size fuel parser left

/-- `HttpSession::recvRequest` with a buffer of `buff_size` bytes; `none` is the null pointer. -/
def HttpSession.recvRequest (buff_size : Nat) (s : HttpSession) : Option HttpRequest × HttpSession :=
  s.recvLoop buff_size (s.incoming.flatten.length + 1) HttpRequestParser.new []

/-- `n` calls of `recvRequest`, one after another. -/
def HttpSession.recvRequests (buff_size : Nat) : Nat → HttpSession → List (Option HttpRequest) × HttpSession
  | 0, s => ([], s)
  | n + 1, s =>
    let (r, s) := s.recvRequest buff_size
    let (rs, s) := s.recvRequests buff_size n
    (r :: rs, s)

/-! ## The parser as a consumer -/

section
variable {δ : Type}

def requestConsumer : Consumer UInt8 HttpRequestParser where
  execute := HttpRequestParser.execute
  failed := MessageParser.hasError
  finished := MessageParser.isFinished

theorem requestConsumer_execute : requestConsumer.execute = HttpRequestParser.execute := rfl

/-- A cut where a parser can be interrupted, in bytes that are parsed without an error. -/
theorem interruptible_of_cutOk {st : Settings (Handler δ)} {setError : HttpParser → HttpErrno → HttpErrno}
    {p : MessageParser δ} {f g : Nat → Bytes → Handler δ → Handler δ} (hf : Cumulative (st.onData .body) f)
    (hg : Cumulative (st.onData .status) g) (hp : p.parser.httpErrno = .HPE_OK) (he : p.error = .HPE_OK)
    {c : Consumer UInt8 (MessageParser δ)} (hexecute : c.execute = fun p => p.executeWith st setError)
    (hfailed : c.failed = MessageParser.hasError) {pre post : Bytes} (hpre : pre ≠ [])
    (hok : (p.executeWith st setError (pre ++ post)).2.hasError = false) (hcut : CutOk st setError p pre post) :
    c.Interruptible p pre post := by
  unfold CutOk at hcut
  split at hcut
  · rename_i s n hscan
    have hstop := executeWith_stopped setError hp he hpre hscan post
    rw [hstop] at hok
    simp [MessageParser.hasError] at hok
    exact absurd hok hcut
  · rename_i l hscan
    obtain ⟨q, hq, hrunning, hrest⟩ := executeWith_resume hf hg hp he hpre hscan hcut.1 hcut.2
    refine ⟨?_, ?_, ?_⟩
    · rw [hexecute]
      exact congrArg Prod.fst hq
    · rw [hexecute, hfailed]
      dsimp only
      rw [hq]
      exact hrunning
    · intro y z hyz hy
      obtain ⟨unread, r, hnext, hwhole⟩ := hrest y z hyz hy
      refine ⟨unread, r, ?_, ?_⟩
      · rw [hexecute]
        dsimp only
        rw [hq]
        exact hnext
      · rw [hexecute]
        exact hwhole

/-- Every cut of a message that is parsed without an error. -/
theorem cuts_interruptible {c : Consumer UInt8 (MessageParser δ)} {p : MessageParser δ} {ok : Bytes → Bytes → Prop}
    {reads : List Bytes} (hne : ∀ x ∈ reads, x ≠ []) (hcuts : Cuts ok reads)
    (hinterruptible : ∀ pre post, pre ++ post = reads.flatten → pre ≠ [] → ok pre post → c.Interruptible p pre post) :
    Cuts (c.Interruptible p) reads := by
  intro before after heq hb ha
  refine hinterruptible _ _ ?_ ?_ (hcuts before after heq hb ha)
  · rw [← List.flatten_append, heq]
  · obtain ⟨x, rest, rfl⟩ := List.exists_cons_of_ne_nil hb
    have hx : x ≠ [] := hne x (by rw [← heq]; simp)
    rw [List.flatten_cons]
    exact List.append_ne_nil_of_left_ne_nil hx _

end

theorem request_interruptible {reads : List Bytes} (hne : ∀ x ∈ reads, x ≠ []) (hcuts : Cuts RequestCut reads)
    (hdone : requestConsumer.CompletedBy HttpRequestParser.new reads.flatten) :
    Cuts (requestConsumer.Interruptible HttpRequestParser.new) reads := by
  refine cuts_interruptible hne hcuts ?_
  intro pre post hwhole hpre hcut
  refine @interruptible_of_cutOk _ requestSettings requestError _ _ _ (onBody_cumulative _ request_appendBody)
    onLogData_cumulative rfl rfl _ rfl rfl _ _ hpre ?_ hcut
  rw [hwhole]
  exact hdone.running

/-! ## The loop -/

/-- What a read finds on a socket that is connected. -/
theorem read_eq_readPiece (n : Nat) (incoming : List Bytes) :
    ({ incoming := incoming } : HttpSession).read n =
      match readPiece n incoming with
      | none => (none, { incoming := incoming })
      | some (x, rest) => (some x, { incoming := rest }) := by
  cases incoming with
  | nil => rfl
  | cons x rest =>
    unfold HttpSession.read readPiece
    simp only [if_true, List.isEmpty_iff]
    split
    · rfl
    · split
      · rfl
      · rfl

theorem recvLoop_eq_receive (buff_size : Nat) : ∀ (fuel : Nat) (incoming : List Bytes) (parser : HttpRequestParser)
    (left : Bytes),
    ({ incoming := incoming } : HttpSession).recvLoop buff_size fuel parser left =
      match requestConsumer.receive buff_size fuel incoming parser left with
      | (some p, rest) => (some p.getData.init, { incoming := rest })
      | (none, rest) => (none, { incoming := rest, connected := false })
  | 0, _, _, _ => rfl
  | fuel + 1, incoming, parser, left => by
    rw [HttpSession.recvLoop, Consumer.receive, read_eq_readPiece]
    cases readPiece (buff_size - left.length) incoming with
    | none => rfl
    | some found =>
      obtain ⟨x, rest⟩ := found
      dsimp only
      have hnext := recvLoop_eq_receive buff_size fuel rest (HttpRequestParser.execute parser (left ++ x)).2
        ((left ++ x).drop (HttpRequestParser.execute parser (left ++ x)).1)
      rw [hnext]
      unfold requestConsumer
      dsimp only
      split
      · rfl
      · split
        · rfl
        · split
          · rfl
          · rfl

theorem read_piece {y : Bytes} {rest : List Bytes} {n : Nat} (hy : y ≠ []) (hn : y.length ≤ n) :
    ({ incoming := y :: rest } : HttpSession).read n = (some y, { incoming := rest }) := by
  rw [read_eq_readPiece, readPiece_fits hy hn]

/-- The bound on the rounds of the loop is no restriction. -/
theorem recvLoop_fuel (buff_size fuel : Nat) (incoming : List Bytes) (parser : HttpRequestParser) (left : Bytes)
    (h : incoming.flatten.length < fuel) :
    ({ incoming := incoming } : HttpSession).recvLoop buff_size (fuel + 1) parser left =
      ({ incoming := incoming } : HttpSession).recvLoop buff_size fuel parser left := by
  rw [recvLoop_eq_receive, recvLoop_eq_receive, Consumer.receive_fuel fuel incoming parser left h]

/-- `e` is the text of one request, `r`, on a connection that is kept alive: given `e`, a new
parser takes all of it, has no error, is finished with the last byte and not before, and holds
`r`. -/
structure Encodes (e : Bytes) (r : HttpRequest) : Prop where
  parsed : (HttpRequestParser.execute HttpRequestParser.new e).1 = e.length
  noError : (HttpRequestParser.execute HttpRequestParser.new e).2.hasError = false
  finished : (HttpRequestParser.execute HttpRequestParser.new e).2.isFinished = true
  unfinished : ∀ k, k < e.length →
    (HttpRequestParser.execute HttpRequestParser.new (e.take k)).2.isFinished = false
  data : (HttpRequestParser.execute HttpRequestParser.new e).2.getData.init = r
  keepAlive : r.close = false

/-- The text of a request: it completes a new parser, which then holds `r`. -/
structure CarriesRequest (e : Bytes) (r : HttpRequest) : Prop where
  completed : requestConsumer.CompletedBy HttpRequestParser.new e
  data : (HttpRequestParser.execute HttpRequestParser.new e).2.getData.init = r

theorem Encodes.carries {e : Bytes} {r : HttpRequest} (h : Encodes e r) : CarriesRequest e r where
  completed :=
    { nonempty := by
        rintro rfl
        exact absurd h.finished (by decide)
      takes := h.parsed
      running := h.noError
      finished := h.finished
      unfinished := h.unfinished }
  data := h.data

/-- The rounds that the loops may make are enough for the reads of a message. -/
theorem reads_le_fuel {reads : List Bytes} (more : List Bytes) (hne : ∀ x ∈ reads, x ≠ []) :
    reads.length ≤ (reads ++ more).flatten.length + 1 := by
  have hlen := Consumer.length_le_flatten hne
  rw [List.flatten_append, List.length_append]
  omega

/-- `recvRequest` takes the reads of one request and returns it, whether or not the connection is kept. -/
theorem recvRequest_carries {buff_size : Nat} {r : HttpRequest} {reads : List Bytes} (more : List Bytes)
    (hne : ∀ x ∈ reads, x ≠ []) (hfit : ∀ x ∈ reads, x.length ≤ buff_size) (hcuts : Cuts RequestCut reads)
    (h : CarriesRequest reads.flatten r) :
    ({ incoming := reads ++ more } : HttpSession).recvRequest buff_size = (some r, { incoming := more }) := by
  have hreceive := Consumer.receive_reads more (reads_le_fuel more hne) hne hfit
    (request_interruptible hne hcuts h.completed) h.completed
  unfold HttpSession.recvRequest
  rw [recvLoop_eq_receive, hreceive]
  dsimp only
  rw [← h.data]
  rfl

/-! ## A connection -/

/-- The reads bring the texts `es` one after another: no read has bytes of two of them, and those of
each are cut where the parser can be interrupted. -/
abbrev Aligned : List Bytes → List Bytes → Prop := Alignment RequestCut

theorem recvRequests_eq_calls (buff_size : Nat) : ∀ (n : Nat) (s : HttpSession),
    s.recvRequests buff_size n = calls (HttpSession.recvRequest buff_size) n s
  | 0, _ => rfl
  | n + 1, s => by
    rw [HttpSession.recvRequests, calls]
    dsimp only
    rw [recvRequests_eq_calls buff_size n]

/-- Aligned reads, none of them empty: a call of `recvRequest` for each text. -/
theorem recvRequests_aligned {buff_size : Nat} {es incoming : List Bytes} {rs : List HttpRequest}
    (halign : Aligned es incoming) (hcarry : List.Forall₂ CarriesRequest es rs) (hne : ∀ x ∈ incoming, x ≠ [])
    (hfit : ∀ x ∈ incoming, x.length ≤ buff_size) :
    ({ incoming := incoming } : HttpSession).recvRequests buff_size rs.length =
      (rs.map some, { incoming := [] }) := by
  rw [recvRequests_eq_calls]
  exact halign.calls (g := fun incoming => ({ incoming := incoming } : HttpSession)) recvRequest_carries hcarry
    hne hfit

/-- The requests sent on a connection come out of `recvRequest` one by one and in order when the
reads are aligned with them; nothing is left on the connection then. -/
theorem requests_framed (buff_size : Nat) (es : List Bytes) (rs : List HttpRequest) (incoming : List Bytes)
    (henc : List.Forall₂ Encodes es rs) (hcut : Cutting es.flatten incoming)
    (hfit : ∀ x ∈ incoming, x.length ≤ buff_size) (halign : Aligned es incoming) :
    ({ incoming := incoming } : HttpSession).recvRequests buff_size rs.length =
      (rs.map some, { incoming := [] }) :=
  recvRequests_aligned halign (henc.imp fun _ _ h => h.carries) hcut.nonempty hfit

/-- The text of a request for `path`. -/
def getText (path : String) : Bytes :=
  ascii "GET " ++ ascii path ++ ascii " HTTP/1.1\r\nconnection: keep-alive\r\n\r\n"

/-- That request, as `recvRequest` returns it. -/
def getRequest (path : String) : HttpRequest where
  path := ascii path
  headers := [(ascii "connection", ascii "keep-alive")]
  close := false

theorem getText_encodes_a : Encodes (getText "/a") (getRequest "/a") :=
  ⟨by decide +kernel, by decide +kernel, by decide +kernel, by decide +kernel, by decide +kernel,
    by decide +kernel⟩

theorem getText_encodes_b : Encodes (getText "/b") (getRequest "/b") :=
  ⟨by decide +kernel, by decide +kernel, by decide +kernel, by decide +kernel, by decide +kernel,
    by decide +kernel⟩

/-- Two requests, the first in two reads. -/
theorem requests_framed_two :
    ({ incoming := [(getText "/a").take 16, (getText "/a").drop 16, getText "/b"] } :
        HttpSession).recvRequests 4096 2 =
      ([some (getRequest "/a"), some (getRequest "/b")], { incoming := [] }) := by
  have halign : Aligned [getText "/a", getText "/b"]
      [(getText "/a").take 16, (getText "/a").drop 16, getText "/b"] := by
    have hb : Aligned [getText "/b"] [getText "/b"] := by
      simpa using Alignment.cons (cuts_singleton (getText "/b")) Alignment.nil
    have ha : RequestCut ((getText "/a").take 16) ((getText "/a").drop 16) := by decide +kernel
    simpa using Alignment.cons (cuts_pair ha) hb
  exact requests_framed 4096 [getText "/a", getText "/b"] [getRequest "/a", getRequest "/b"] _
    (.cons getText_encodes_a (.cons getText_encodes_b .nil)) ⟨by decide +kernel, by decide +kernel⟩
    (by decide +kernel) halign

/-- Both requests in one read: the first call returns the second one, the second call nothing. -/
theorem requests_merged :
    ¬∀ (buff_size : Nat) (es : List Bytes) (rs : List HttpRequest) (incoming : List Bytes),
      List.Forall₂ Encodes es rs → Cutting es.flatten incoming → (∀ x ∈ incoming, x.length ≤ buff_size) →
      (({ incoming := incoming } : HttpSession).recvRequests buff_size rs.length).1 = rs.map some := by
  intro h
  have hboth := h 4096 [getText "/a", getText "/b"] [getRequest "/a", getRequest "/b"]
    [getText "/a" ++ getText "/b"] (.cons getText_encodes_a (.cons getText_encodes_b .nil))
    ⟨by decide +kernel, by decide +kernel⟩ (by decide +kernel)
  have hgot : (({ incoming := [getText "/a" ++ getText "/b"] } : HttpSession).recvRequests 4096 2).1 =
      [some (getRequest "/b"), none] := by decide +kernel
  exact absurd (hgot.symm.trans hboth) (by decide +kernel)

end Sylar.Http
