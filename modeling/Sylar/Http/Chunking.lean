import Mathlib.Data.List.Basic
import Sylar.Lib.Stream
import Sylar.Http.Resume
import Sylar.Http.Parsers

/- How the result of the parsers depends on the pieces in which a message arrives.

   `http_parser` may hand over a URL, a header field or a header value in several
   calls, one for each piece of the stream, but the callbacks of `http_parser.cc`
   for these three take each call for the whole: `on_request_url_cb` parses its
   argument as a URL, `setField` and `setHeader` replace what an earlier call has
   stored. Only `on_request_body_cb` appends. So a piece that ends inside one of
   them gives another result than the whole (`chunking_dependent`).

   `CutOk` says which cuts are harmless: those where the parser has failed before,
   and those where it can be resumed and has not seen the head of an upgrade, which
   the request parser reports as an error as soon as a piece ends. With such cuts only,
   the pieces have the effect of one call (`feed_request`, `feed_response`). -/
namespace Sylar.Http
open Sylar.Lib

/-! ## The callbacks that accept pieces -/

section
variable {δ : Type}

theorem onBody_cumulative (appendBody : δ → Bytes → δ)
    (happend : ∀ d x y, appendBody d (x ++ y) = appendBody (appendBody d x) y) :
    Cumulative (onBody appendBody) fun _ buf h => { h with data := appendBody h.data buf } where
  eq := fun _ _ _ => rfl
  append := by
    intro _ x y h
    rw [happend]

theorem onLogData_cumulative : Cumulative (@onLogData δ) fun _ _ h => h where
  eq := fun _ _ _ => rfl
  append := fun _ _ _ _ => rfl

end

theorem onResponseStatus_cumulative :
    Cumulative onResponseStatus fun c _ h => { h with data := { h.data with status := c } } where
  eq := fun _ _ _ => rfl
  append := fun _ _ _ _ => rfl

theorem request_appendBody (r : HttpRequest) (x y : Bytes) :
    r.appendBody (x ++ y) = (r.appendBody x).appendBody y := by
  simp [HttpRequest.appendBody]

theorem response_appendBody (r : HttpResponse) (x y : Bytes) :
    r.appendBody (x ++ y) = (r.appendBody x).appendBody y := by
  simp [HttpResponse.appendBody]

/-! ## Cuts -/

section
variable {δ : Type} (st : Settings (Handler δ)) (setError : HttpParser → HttpErrno → HttpErrno)
  (p : MessageParser δ)

/-- A piece may end after `pre` when the rest is `post`. -/
def CutOk (pre post : Bytes) : Prop :=
  match scan (step st) pre (enter p.parser.toFields p.toHandler) with
  | .error (s, _) => setError s.parser .HPE_OK ≠ .HPE_OK
  | .ok l => setError l.toFields.ok .HPE_OK = .HPE_OK ∧ Resumable l.toFields post

instance (pre post : Bytes) : Decidable (CutOk st setError p pre post) := by
  unfold CutOk
  split <;> infer_instance

variable {st setError p} {f g : Nat → Bytes → Handler δ → Handler δ}

/-- The parser after a call whose loop ended with `r`. -/
def MessageParser.after (r : Nat × HttpParser × Handler δ) (setError : HttpParser → HttpErrno → HttpErrno) :
    MessageParser δ :=
  { r.2.2 with parser := r.2.1, error := setError r.2.1 .HPE_OK }

/-- `execute` on a parser without an error. -/
theorem executeWith_eq (hp : p.parser.httpErrno = .HPE_OK) (he : p.error = .HPE_OK) {data : Bytes}
    (hne : data ≠ []) :
    p.executeWith st setError data =
      (data.length - (consume st data (enter p.parser.toFields p.toHandler)).1,
        .after (consume st data (enter p.parser.toFields p.toHandler)) setError) := by
  simp [MessageParser.executeWith, httpParserExecute, MessageParser.after, hp, he, hne]

/-- A call that ends where the parser can be resumed takes all its bytes and leaves a parser that
does with what follows what the first one does with everything, up to the bytes left unread. -/
theorem executeWith_resume (hf : Cumulative (st.onData .body) f) (hg : Cumulative (st.onData .status) g)
    (hp : p.parser.httpErrno = .HPE_OK) (he : p.error = .HPE_OK) {pre post : Bytes} (hpre : pre ≠ [])
    {l : Loop (Handler δ)} (hscan : scan (step st) pre (enter p.parser.toFields p.toHandler) = .ok l)
    (hok : setError l.toFields.ok .HPE_OK = .HPE_OK) (hr : Resumable l.toFields post) :
    ∃ q, p.executeWith st setError pre = (pre.length, q) ∧ q.hasError = false ∧
      ∀ y z, y ++ z = post → y ≠ [] → ∃ unread r,
        q.executeWith st setError y = (y.length - unread, r) ∧
          p.executeWith st setError (pre ++ y) = ((pre ++ y).length - unread, r) := by
  have htidy : Tidy l := scan_tidy st _ _ pre l hscan
  obtain ⟨u, hleave, -⟩ := resume hf hg htidy hr
  have hconsume : consume st pre (enter p.parser.toFields p.toHandler) = (0, l.toFields.ok, u) := by
    rw [consume, hscan]
    dsimp only
    rw [hleave]
    rfl
  refine ⟨{ u with parser := l.toFields.ok, error := .HPE_OK }, ?_, ?_, ?_⟩
  · rw [executeWith_eq hp he hpre, MessageParser.after, hconsume, hok]
    rfl
  · simp [MessageParser.hasError]
  · rintro y z rfl hy
    obtain ⟨u', hleave', hrest⟩ := resume hf hg htidy hr.take
    have hu : u = u' := congrArg Loop.user (Except.ok.inj (hleave.symm.trans hleave'))
    refine ⟨_, _, executeWith_eq rfl rfl hy, ?_⟩
    rw [executeWith_eq hp he (List.append_ne_nil_of_left_ne_nil hpre y), consume_append hscan, ← hrest, ← hu]
    rfl

variable (setError) in
/-- A call that has stopped stops in the same place with more bytes. -/
theorem executeWith_stopped (hp : p.parser.httpErrno = .HPE_OK) (he : p.error = .HPE_OK) {pre : Bytes}
    (hpre : pre ≠ []) {s : Stop (Handler δ)} {n : Nat}
    (hscan : scan (step st) pre (enter p.parser.toFields p.toHandler) = .error (s, n)) (post : Bytes) :
    (p.executeWith st setError (pre ++ post)).2 =
      { s.user with parser := s.parser, error := setError s.parser .HPE_OK } := by
  rw [executeWith_eq hp he (List.append_ne_nil_of_left_ne_nil hpre post), consume, scan_append, hscan]
  rfl

/-- A cut that is `CutOk` is seamless. -/
theorem CutOk.seamless (hf : Cumulative (st.onData .body) f) (hg : Cumulative (st.onData .status) g)
    (hp : p.parser.httpErrno = .HPE_OK) (he : p.error = .HPE_OK) {pre post : Bytes} (hpre : pre ≠ [])
    (h : CutOk st setError p pre post) :
    Seamless (fun q data => (q.executeWith st setError data).2) MessageParser.hasError p pre post := by
  unfold CutOk at h
  cases hscan : scan (step st) pre (enter p.parser.toFields p.toHandler) with
  | error stop =>
    obtain ⟨s, n⟩ := stop
    rw [hscan] at h
    have hstop := executeWith_stopped setError hp he hpre hscan
    have hpre' := hstop []
    rw [List.append_nil] at hpre'
    have hfail : ((p.executeWith st setError pre).2).hasError = true := by
      rw [hpre']
      simpa [MessageParser.hasError] using h
    rw [Seamless, if_pos hfail, hstop post, hpre']
  | ok l =>
    rw [hscan] at h
    obtain ⟨q, hfirst, hnot, hrest⟩ := executeWith_resume hf hg hp he hpre hscan h.1 h.2
    rw [Seamless, hfirst, hnot, if_neg Bool.false_ne_true]
    intro y z hyz hy
    obtain ⟨n, r, hq, hwhole⟩ := hrest y z hyz hy
    rw [hq, hwhole]

/-- Pieces whose cuts are all `CutOk` have the effect of one call. -/
theorem feed_executeWith (hf : Cumulative (st.onData .body) f) (hg : Cumulative (st.onData .status) g)
    (hp : p.parser.httpErrno = .HPE_OK) (he : p.error = .HPE_OK) {pieces : List Bytes}
    (hnil : pieces ≠ []) (hne : ∀ x ∈ pieces, x ≠ []) (hcuts : Cuts (CutOk st setError p) pieces) :
    feed (fun q data => (q.executeWith st setError data).2) MessageParser.hasError pieces p =
      (p.executeWith st setError pieces.flatten).2 := by
  apply feed_eq_call _ hnil hne
  · intro before after heq hb ha
    have hpre : before.flatten ≠ [] := by
      obtain ⟨x, rest, rfl⟩ := List.exists_cons_of_ne_nil hb
      have hx : x ≠ [] := hne x (by rw [← heq]; exact List.mem_cons_self)
      rw [List.flatten_cons]
      exact List.append_ne_nil_of_left_ne_nil hx _
    exact (hcuts before after heq hb ha).seamless hf hg hp he hpre
  · simp [MessageParser.hasError, he]

end

/-! ## The two parsers -/

/-- A stream of pieces, given to a new request parser. -/
def feedRequest (pieces : List Bytes) : HttpRequestParser :=
  feed (fun p data => (HttpRequestParser.execute p data).2) MessageParser.hasError pieces
    HttpRequestParser.new

/-- A stream of pieces, given to a new response parser. -/
def feedResponse (pieces : List Bytes) : HttpResponseParser :=
  feed (fun p data => (HttpResponseParser.execute p data).2) MessageParser.hasError pieces
    HttpResponseParser.new

/-- A piece of a request may end after `pre`. -/
def RequestCut : Bytes → Bytes → Prop := CutOk requestSettings requestError HttpRequestParser.new

/-- A piece of a response may end after `pre`. -/
def ResponseCut : Bytes → Bytes → Prop := CutOk responseSettings responseError HttpResponseParser.new

instance (pre post : Bytes) : Decidable (RequestCut pre post) :=
  inferInstanceAs (Decidable (CutOk _ _ _ pre post))

instance (pre post : Bytes) : Decidable (ResponseCut pre post) :=
  inferInstanceAs (Decidable (CutOk _ _ _ pre post))

theorem feed_request {pieces : List Bytes} (hnil : pieces ≠ []) (hne : ∀ x ∈ pieces, x ≠ [])
    (hcuts : Cuts RequestCut pieces) :
    feedRequest pieces = (HttpRequestParser.execute HttpRequestParser.new pieces.flatten).2 :=
  feed_executeWith (onBody_cumulative _ request_appendBody) onLogData_cumulative rfl rfl hnil hne hcuts

theorem feed_response {pieces : List Bytes} (hnil : pieces ≠ []) (hne : ∀ x ∈ pieces, x ≠ [])
    (hcuts : Cuts ResponseCut pieces) :
    feedResponse pieces = (HttpResponseParser.execute HttpResponseParser.new pieces.flatten).2 :=
  feed_executeWith (onBody_cumulative _ response_appendBody) onResponseStatus_cumulative rfl rfl hnil hne
    hcuts

/-- `b`, cut into non-empty pieces. -/
structure Cutting (b : Bytes) (pieces : List Bytes) : Prop where
  flatten : pieces.flatten = b
  nonempty : ∀ x ∈ pieces, x ≠ []

theorem Cutting.nil_iff {b : Bytes} {pieces : List Bytes} (h : Cutting b pieces) : pieces = [] ↔ b = [] := by
  constructor
  · rintro rfl
    rw [← h.flatten]
    rfl
  · intro hb
    cases pieces with
    | nil => rfl
    | cons x rest =>
      have hflat := h.flatten
      rw [hb, List.flatten_cons] at hflat
      exact absurd (List.append_eq_nil_iff.mp hflat).1 (h.nonempty x List.mem_cons_self)

/-- Two parsers that a caller cannot tell apart. -/
structure SameResult {δ : Type} (p q : MessageParser δ) : Prop where
  hasError : p.hasError = q.hasError
  isFinished : p.isFinished = q.isFinished
  getData : p.getData = q.getData

instance {δ : Type} [DecidableEq δ] (p q : MessageParser δ) : Decidable (SameResult p q) :=
  decidable_of_iff (p.hasError = q.hasError ∧ p.isFinished = q.isFinished ∧ p.getData = q.getData)
    ⟨fun ⟨a, b, c⟩ => ⟨a, b, c⟩, fun ⟨a, b, c⟩ => ⟨a, b, c⟩⟩

/-- Two ways of cutting a stream give the same result when no cut of either is a bad one. -/
theorem chunking_independent (b : Bytes) (ps qs : List Bytes) (hp : Cutting b ps) (hq : Cutting b qs) :
    (Cuts RequestCut ps → Cuts RequestCut qs → SameResult (feedRequest ps) (feedRequest qs)) ∧
      (Cuts ResponseCut ps → Cuts ResponseCut qs → SameResult (feedResponse ps) (feedResponse qs)) := by
  by_cases hb : b = []
  · rw [hp.nil_iff.mpr hb, hq.nil_iff.mpr hb]
    exact ⟨fun _ _ => ⟨rfl, rfl, rfl⟩, fun _ _ => ⟨rfl, rfl, rfl⟩⟩
  · have hps : ps ≠ [] := mt hp.nil_iff.mp hb
    have hqs : qs ≠ [] := mt hq.nil_iff.mp hb
    constructor
    · intro hcp hcq
      rw [feed_request hps hp.nonempty hcp, feed_request hqs hq.nonempty hcq, hp.flatten, hq.flatten]
      exact ⟨rfl, rfl, rfl⟩
    · intro hcp hcq
      rw [feed_response hps hp.nonempty hcp, feed_response hqs hq.nonempty hcq, hp.flatten, hq.flatten]
      exact ⟨rfl, rfl, rfl⟩

/-- A request and a response whose bodies arrive in two pieces. -/
theorem chunking_independent_body :
    SameResult
        (feedRequest [ascii "PUT / HTTP/1.1\r\ncontent-length:2\r\n\r\na", ascii "b"])
        (feedRequest [ascii "PUT / HTTP/1.1\r\ncontent-length:2\r\n\r\nab"]) ∧
      SameResult
        (feedResponse [ascii "HTTP/1.1 200 O", ascii "K\r\ncontent-length:1\r\n\r\na"])
        (feedResponse [ascii "HTTP/1.1 200 OK\r\ncontent-length:1\r\n\r\na"]) :=
  ⟨(chunking_independent (ascii "PUT / HTTP/1.1\r\ncontent-length:2\r\n\r\nab") _ _
      ⟨by decide, by decide⟩ ⟨by decide, by decide⟩).1 (cuts_pair (by decide)) (cuts_singleton _),
    (chunking_independent (ascii "HTTP/1.1 200 OK\r\ncontent-length:1\r\n\r\na") _ _
      ⟨by decide, by decide⟩ ⟨by decide, by decide⟩).2 (cuts_pair (by decide)) (cuts_singleton _)⟩

/-- A piece that ends in the URL: the whole is a request in the making, the pieces are an error. -/
theorem chunking_dependent :
    ¬∀ (b : Bytes) (ps qs : List Bytes), Cutting b ps → Cutting b qs →
      SameResult (feedRequest ps) (feedRequest qs) ∧ SameResult (feedResponse ps) (feedResponse qs) := by
  intro h
  have hsame := (h (ascii "GET /a") [ascii "GET /a"] [ascii "GET /", ascii "a"] ⟨by decide, by decide⟩
    ⟨by decide, by decide⟩).1
  exact absurd hsame (by decide)

end Sylar.Http
