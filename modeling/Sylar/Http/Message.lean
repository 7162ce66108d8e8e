import Mathlib.Data.List.Basic
import Sylar.Http.Head
import Sylar.Http.Chunking

/- How `http_parser_execute` reads the end of a message's head and the body behind it.

   The empty line ends the head: `on_headers_complete` stores what the start line said,
   and then the length that the header lines gave decides. With one that many bytes
   follow, which go to `on_body` at once and end the message (`reads_lineBody`). Without
   one a request ends here (`reads_end_empty`). -/
namespace Sylar.Http
open Sylar.Lib

section
variable {δ : Type} {l : Loop (Handler δ)} {st : Settings (Handler δ)} {appendBody : δ → Bytes → δ}

/-- The callbacks for the body and for the end of the message are those of the parsers. -/
structure TakesBody (st : Settings (Handler δ)) (appendBody : δ → Bytes → δ) : Prop where
  body : st.onData .body = onBody appendBody
  complete : st.onMessageComplete = onMessageComplete

/-- The loop at the end of the lines of a head: a message that is neither chunked nor followed by
another protocol. -/
structure EndsLines (l : Loop (Handler δ)) : Prop where
  atLine : AtLine l
  unfinished : Unfinished l
  method : l.method ≠ .CONNECT
  chunked : l.flags.chunked = false
  trailing : l.flags.trailing = false
  upgrade : l.flags.upgrade = false
  skipbody : l.flags.skipbody = false

/-! ## The empty line -/

/-- What `on_headers_complete` leaves, when it has made `u` of the parser object. -/
def Loop.headersRead (l : Loop (Handler δ)) (u : Handler δ) : Loop (Handler δ) :=
  { l with state := .s_headers_done, upgrade := false, user := u }

theorem headersAlmostDone_plain (hm : l.method ≠ .CONNECT) (hc : l.flags.chunked = false)
    (ht : l.flags.trailing = false) (hu : l.flags.upgrade = false) {u : Handler δ}
    (hcb : st.onHeadersComplete { l.toFields with state := .s_headers_done, upgrade := false } l.user = (0, u)) :
    headersAlmostDone st LF l = headersDone st LF (l.headersRead u) := by
  have hcomplete : headersComplete st { l with state := .s_headers_done, upgrade := false } = .ok (l.headersRead u) := by
    unfold headersComplete
    rw [hcb]
    rfl
  unfold headersAlmostDone
  simp only [ne_eq, not_true_eq_false, if_false, ht, hc, hu, hm, Bool.false_eq_true, false_and, decide_false]
  rw [hcomplete]
  rfl

theorem headersDone_body (hu : l.upgrade = false) (hc : l.flags.chunked = false)
    (hk : l.flags.skipbody = false) (hz : l.contentLength ≠ 0) (hl : l.contentLength ≠ ULLONG_MAX) :
    headersDone st LF l = .ok { l with nread := 0, state := .s_body_identity } := by
  unfold headersDone
  simp only [ne_eq, not_true_eq_false, if_false, hu, hc, hk, hz, hl, Bool.false_eq_true, false_and,
    not_false_eq_true, if_true]

/-- Without a length it is `http_message_needs_eof` that decides. -/
theorem headersDone_bare (hu : l.upgrade = false) (hc : l.flags.chunked = false) (hk : l.flags.skipbody = false)
    (hl : l.contentLength = ULLONG_MAX) :
    headersDone st LF l =
      if !httpMessageNeedsEof { l.toFields with nread := 0 } then messageComplete st { l with nread := 0 }
      else .ok { l with nread := 0, state := .s_body_identity_eof } := by
  have hz : l.contentLength ≠ 0 := by
    rw [hl]
    decide
  have hmax : ¬ l.contentLength ≠ ULLONG_MAX := not_not.mpr hl
  unfold headersDone
  simp only [ne_eq, not_true_eq_false, if_false, hu, hc, hk, hz, Bool.false_eq_true, false_and]
  rw [if_neg hmax]

theorem messageComplete_eq (hst : TakesBody st appendBody) (l : Loop (Handler δ)) :
    messageComplete st l = .ok { l with
      state := newMessage l.toFields, user := { l.user with finished := true } } := by
  unfold messageComplete Loop.notify
  rw [hst.complete]
  rfl

/-- The CR of the empty line. -/
theorem step_endCr (st : Settings (Handler δ)) (h : AtLine l) (hroom : l.nread.toNat + 1 ≤ maxHeaderSize.toNat) :
    step st CR l = .ok { l.counted with state := .s_headers_almost_done } := by
  refine step_head (by rw [h.state]; rfl) h.run hroom ?_ h.marks
  have hd : dispatch st CR l.counted = headerFieldStart st CR l.counted := by
    rw [dispatch, show l.counted.state = _ from h.state]
  rw [hd]
  rfl

/-- The LF of the empty line, as far as `headersDone` says what it does. -/
theorem step_endLf (h : EndsLines l) (hroom : l.nread.toNat + 2 ≤ maxHeaderSize.toNat) {u : Handler δ}
    (hcb : ∀ p : Fields, { p with nread := l.nread, state := l.state, upgrade := l.upgrade } = l.toFields →
      st.onHeadersComplete p l.user = (0, u))
    {t : Loop (Handler δ)} (ht : t.marks = noMarks)
    (hdone : headersDone st LF (Loop.headersRead l.counted.counted u) = .ok t) :
    step st LF { l.counted with state := .s_headers_almost_done } = .ok t := by
  have hnread : (l.nread + 1).toNat = l.nread.toNat + 1 := nread_succ (by omega)
  refine step_head rfl h.atLine.run (by show (l.nread + 1).toNat + 1 ≤ _; omega) ?_ ht
  rw [← hdone]
  exact headersAlmostDone_plain (l := { l.counted.counted with state := .s_headers_almost_done }) h.method
    h.chunked h.trailing h.upgrade (hcb _ rfl)

/-- The end of a message: no error, finished, and its members as given. -/
structure Ends (t : Loop (Handler δ)) (data : δ) : Prop where
  clear : Clear t
  upgrade : t.upgrade = false
  finished : t.user.finished = true
  data_eq : t.user.data = data

/-! ## The body -/

theorem messageDone_plain (hst : TakesBody st appendBody) (hu : l.upgrade = false) :
    messageDone st l = .ok { l with
      state := newMessage l.toFields, user := { l.user with finished := true } } := by
  unfold messageDone
  rw [messageComplete_eq hst]
  exact if_neg (by simp [hu])

/-- A byte of the body that is not the last one. -/
theorem step_body_more (st : Settings (Handler δ)) (hs : l.state = .s_body_identity) (e : Option Bytes)
    (b : UInt8) (hl : l.contentLength - 1 ≠ 0) (hm : l.marks = noMarks) :
    step st b (l.setMark .body e) =
      .ok ({ l with contentLength := l.contentLength - 1 }.setMark .body (some (e.getD [] ++ [b]))) := by
  rw [step_bodyIdentity st b (by exact hs), bodyIdentity_eq, if_neg hl]
  show Except.ok (Loop.advance (Loop.setMark { l with contentLength := l.contentLength - 1 } .body _) b) = _
  congr 1
  unfold Loop.advance Loop.setMark
  dsimp only
  congr 1
  funext k
  by_cases hk : k = .body
  · simp [hk]
  · simp [hk, hm, noMarks]

/-- The last byte of the body. -/
theorem step_body_last (hst : TakesBody st appendBody) (hs : l.state = .s_body_identity) (e : Option Bytes)
    (b : UInt8) (hl : l.contentLength - 1 = 0) (hu : l.upgrade = false) (hm : l.marks = noMarks) :
    ∃ s, s.marked = none ∧ step st b (l.setMark .body e) = .ok { l with
      contentLength := l.contentLength - 1, state := s
      user := { l.user with data := appendBody l.user.data (e.getD [] ++ [b]), finished := true } } := by
  let last : Loop (Handler δ) :=
    { l with contentLength := l.contentLength - 1, state := .s_message_done, marks := oneMark .body (e.getD [] ++ [b]) }
  have hlast : ({ l with contentLength := l.contentLength - 1, state := .s_message_done }.setMark .body
      (some (e.getD [] ++ [b]))) = last := by
    unfold Loop.setMark
    dsimp only
    rw [hm]
    rfl
  have hcb : last.callback st .body 1 = .ok { last with
      marks := noMarks, user := { l.user with data := appendBody l.user.data (e.getD [] ++ [b]) } } := by
    refine callback_oneMark rfl ?_ 1
    rw [hst.body]
    rfl
  refine ⟨newMessage last.toFields, newMessage_marked _, ?_⟩
  rw [step_bodyIdentity st b (by exact hs), bodyIdentity_eq, if_pos hl, hlast, hcb]
  show (messageDone st _ >>= _) = _
  rw [messageDone_plain hst (by exact hu)]
  show Except.ok (Loop.advance _ b) = _
  rw [advance_noMarks rfl]
  congr 2
  exact hm.symm

/-- The body, from any place in it on: `e` is what has been read. -/
theorem reads_body (hst : TakesBody st appendBody) : ∀ (bs : Bytes) (b : UInt8) (e : Option Bytes)
    (l : Loop (Handler δ)), Unfinished l → l.state = .s_body_identity →
    l.contentLength.toNat = bs.length + 1 → l.upgrade = false → l.marks = noMarks → l.run = 0 → l.scanned = 0 →
    ∃ t, Reads st (b :: bs) (l.setMark .body e) t ∧ Ends t (appendBody l.user.data (e.getD [] ++ b :: bs)) := by
  intro bs
  induction bs with
  | nil =>
    intro b e l hp hs hl hu hm hrun hscanned
    have hlast : l.contentLength - 1 = 0 := by
      have hone : l.contentLength = 1 := UInt64.toNat_inj.mp hl
      rw [hone]
      rfl
    obtain ⟨s, hmarked, hstep⟩ := step_body_last hst hs e b hlast hu hm
    exact ⟨_, Leads.single (by exact hp) hstep, ⟨fun m => congrFun hm m, hrun, hscanned, hmarked⟩, hu, rfl, rfl⟩
  | cons b' rest ih =>
    intro b e l hp hs hl hu hm hrun hscanned
    have hne : l.contentLength ≠ 0 := by
      intro h
      rw [h] at hl
      cases hl
    have hpred := pred_toNat hne
    rw [List.length_cons] at hl
    have hmore : l.contentLength - 1 ≠ 0 := by
      intro h
      rw [h, show (0 : UInt64).toNat = 0 from rfl] at hpred
      omega
    obtain ⟨t, hreads, hends⟩ := ih b' (some (e.getD [] ++ [b])) { l with contentLength := l.contentLength - 1 }
      hp hs (by show (l.contentLength - 1).toNat = _; omega) hu hm hrun hscanned
    refine ⟨t, Leads.cons (by exact hp) (step_body_more st hs e b hmore hm) hreads, ?_⟩
    rw [Option.getD_some, List.append_assoc] at hends
    exact hends

/-- An empty line behind lines that gave the length of the body, and the body. -/
theorem reads_lineBody (hst : TakesBody st appendBody) (h : EndsLines l) {b : UInt8} {bs : Bytes}
    (hl : l.contentLength.toNat = bs.length + 1) (hmax : l.contentLength ≠ ULLONG_MAX)
    (hroom : l.nread.toNat + 2 ≤ maxHeaderSize.toNat) {u : Handler δ} (hu : u.finished = false)
    (hcb : ∀ p : Fields, { p with nread := l.nread, state := l.state, upgrade := l.upgrade } = l.toFields →
      st.onHeadersComplete p l.user = (0, u)) :
    ∃ t, Reads st ([CR, LF] ++ b :: bs) l t ∧ Ends t (appendBody u.data (b :: bs)) := by
  have hz : l.contentLength ≠ 0 := by
    intro h
    rw [h] at hl
    cases hl
  have hdone : headersDone st LF (Loop.headersRead l.counted.counted u) = _ :=
    headersDone_body (l := Loop.headersRead l.counted.counted u) rfl h.chunked h.skipbody hz hmax
  obtain ⟨t, hreads, hends⟩ := reads_body hst bs b none
    { Loop.headersRead l.counted.counted u with nread := 0, state := .s_body_identity }
    hu rfl hl rfl h.atLine.marks h.atLine.run h.atLine.scanned
  have hmarks : Loop.setMark { Loop.headersRead l.counted.counted u with nread := 0, state := .s_body_identity }
      .body none = { Loop.headersRead l.counted.counted u with nread := 0, state := .s_body_identity } := by
    unfold Loop.setMark
    congr 1
    funext k
    by_cases hk : k = .body
    · rw [if_pos hk]
      exact (congrFun h.atLine.marks k).symm
    · rw [if_neg hk]
  rw [hmarks] at hreads
  exact ⟨t, Leads.cons h.unfinished (step_endCr st h.atLine (by omega)) (Leads.cons h.unfinished
    (step_endLf h hroom hcb (by exact h.atLine.marks) hdone) hreads), hends⟩

end

/-! ## Requests -/

/-- The callbacks of the request parser's members. -/
theorem takesRequest : TakesHeaders requestSettings HttpRequest.setHeader := ⟨rfl, rfl⟩

theorem takesRequestBody : TakesBody requestSettings HttpRequest.appendBody := ⟨rfl, rfl⟩

/-- The loop of a request at the end of its head: a message that is neither chunked nor followed by
another protocol. -/
structure EndsHead (l : Loop (Handler HttpRequest)) : Prop where
  atLine : AtLine l
  unfinished : Unfinished l
  request : l.type = .HTTP_REQUEST
  method : l.method ≠ .CONNECT
  chunked : l.flags.chunked = false
  trailing : l.flags.trailing = false
  upgrade : l.flags.upgrade = false
  skipbody : l.flags.skipbody = false

section
variable {l : Loop (Handler HttpRequest)}

theorem EndsHead.lines (h : EndsHead l) : EndsLines l :=
  ⟨h.atLine, h.unfinished, h.method, h.chunked, h.trailing, h.upgrade, h.skipbody⟩

theorem EndsLines.endsHead (h : EndsLines l) (hr : l.type = .HTTP_REQUEST) : EndsHead l :=
  ⟨h.atLine, h.unfinished, hr, h.method, h.chunked, h.trailing, h.upgrade, h.skipbody⟩

/-- The members of the request when its head has been read. -/
def Loop.headData (l : Loop (Handler HttpRequest)) : HttpRequest :=
  { l.user.data with version := packVersion l.toFields, method := l.method }

/-- What `on_request_headers_complete_cb` stores does not depend on how far the head has been read. -/
theorem onRequestHeaders (l : Loop (Handler HttpRequest)) (p : Fields)
    (hp : { p with nread := l.nread, state := l.state, upgrade := l.upgrade } = l.toFields) :
    requestSettings.onHeadersComplete p l.user = (0, { l.user with data := l.headData }) := by
  have hversion : packVersion p = packVersion l.toFields := by
    rw [← hp]
    rfl
  have hmethod : p.method = l.method := by
    rw [← hp]
  show onRequestHeadersComplete p l.user = _
  unfold onRequestHeadersComplete
  rw [hversion, hmethod]
  rfl

/-- An empty line behind lines that gave no length. -/
theorem reads_end_empty (h : EndsHead l) (hl : l.contentLength = ULLONG_MAX)
    (hroom : l.nread.toNat + 2 ≤ maxHeaderSize.toNat) :
    ∃ t, Reads requestSettings [CR, LF] l t ∧ Ends t l.headData := by
  let l' : Loop (Handler HttpRequest) :=
    Loop.headersRead l.counted.counted { l.user with data := l.headData }
  have heof : httpMessageNeedsEof { l'.toFields with nread := 0 } = false := if_pos h.request
  have hdone : headersDone requestSettings LF l' = .ok { l' with
      nread := 0, state := newMessage { l'.toFields with nread := 0 }, user := { l'.user with finished := true } } := by
    rw [headersDone_bare (l := l') rfl h.chunked h.skipbody hl, heof]
    exact messageComplete_eq takesRequestBody _
  refine ⟨_, Leads.cons h.unfinished (step_endCr requestSettings h.atLine (by omega)) (Leads.single h.unfinished
    (step_endLf h.lines hroom (onRequestHeaders l) (by exact h.atLine.marks) hdone)), ⟨?_, rfl, rfl, rfl⟩⟩
  exact ⟨fun m => congrFun h.atLine.marks m, h.atLine.run, h.atLine.scanned, newMessage_marked _⟩

/-- An empty line behind lines that gave the length of the body, and the body. -/
theorem reads_end_body (h : EndsHead l) {b : UInt8} {bs : Bytes} (hl : l.contentLength.toNat = bs.length + 1)
    (hmax : l.contentLength ≠ ULLONG_MAX) (hroom : l.nread.toNat + 2 ≤ maxHeaderSize.toNat) :
    ∃ t, Reads requestSettings ([CR, LF] ++ b :: bs) l t ∧ Ends t (l.headData.appendBody (b :: bs)) :=
  reads_lineBody (u := { l.user with data := l.headData }) takesRequestBody h.lines hl hmax hroom h.unfinished
    (onRequestHeaders l)

end

end Sylar.Http
