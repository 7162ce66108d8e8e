import Mathlib.Data.List.Basic
import Sylar.Http.Message

/- How `http_parser_execute` reads the line `METHOD URL HTTP/1.x` that starts a request.

   The method is guessed from its first letter and corrected at the letters where the
   guess fails; `methodStep` is that automaton and `reads_method` what it makes of every
   method. Of the URL every byte goes through `parse_url_char`, and the whole of it to
   `on_request_url_cb`. -/
namespace Sylar.Http
open Sylar.Lib

section
variable {δ : Type} {l : Loop (Handler δ)} {st : Settings (Handler δ)}

/-- The loop in state `s`, `k` bytes further on. -/
def Loop.at {σ : Type} (l : Loop σ) (s : State) (k : Nat) : Loop σ :=
  { l with state := s, nread := l.nread + UInt32.ofNat k }

theorem at_counted {σ : Type} (l : Loop σ) (s : State) (k : Nat) : (l.at s k).counted = l.at s (k + 1) := by
  have h : l.nread + UInt32.ofNat k + 1 = l.nread + UInt32.ofNat (k + 1) := add_ofNat l.nread k 1
  unfold Loop.counted Loop.at
  rw [h]

/-- A byte between the parts of the line. -/
theorem step_at {l' : Loop (Handler δ)} {s s' : State} {ch : UInt8} {k : Nat} (hrun : l.run = 0)
    (hs : s.parsingHeader = true) (hroom : l.nread.toNat + (k + 1) ≤ maxHeaderSize.toNat)
    (hd : dispatch st ch (l.at s (k + 1)) = .ok (l'.at s' (k + 1))) (hm : l'.marks = noMarks) :
    step st ch (l.at s k) = .ok (l'.at s' (k + 1)) := by
  refine step_head hs hrun ?_ (by rw [at_counted]; exact hd) hm
  show (l.nread + UInt32.ofNat k).toNat + 1 ≤ _
  rw [nread_add (by omega)]
  exact hroom

/-! ## The method -/

/-- What a letter makes of the method read so far and its length. -/
def methodStep (s : HttpMethod × Nat) (ch : UInt8) : Option (HttpMethod × Nat) :=
  if ch = 0 then none
  else if ch = (ascii s.1.string).getD s.2 0 then some (s.1, s.2 + 1)
  else if (chr 'A' ≤ ch ∧ ch ≤ chr 'Z') ∨ ch = chr '-' then
    (nextMethod s.1 s.2 ch).map fun m => (m, s.2 + 1)
  else none

theorem reqMethod_letter {σ : Type} {l : Loop σ} {ch : UInt8} {m : HttpMethod} {i : Nat}
    (h : methodStep (l.method, l.index) ch = some (m, i)) :
    reqMethod ch l = .ok { l with method := m, index := i } := by
  unfold methodStep at h
  unfold reqMethod
  by_cases hz : ch = 0
  · simp [hz] at h
  · rw [if_neg hz] at h ⊢
    have hblank : ¬(ch = chr ' ' ∧ (ascii l.method.string).getD l.index 0 = 0) := by
      rintro ⟨rfl, hc⟩
      have hne : chr ' ' ≠ (ascii l.method.string).getD l.index 0 := by
        rw [hc]
        decide
      rw [if_neg hne, if_neg (by decide)] at h
      cases h
    rw [if_neg hblank]
    by_cases hc : ch = (ascii l.method.string).getD l.index 0
    · rw [if_pos hc] at h ⊢
      cases h
      rfl
    · rw [if_neg hc] at h ⊢
      by_cases hletter : (chr 'A' ≤ ch ∧ ch ≤ chr 'Z') ∨ ch = chr '-'
      · rw [if_pos hletter] at h ⊢
        cases hnext : nextMethod l.method l.index ch with
        | none =>
          rw [hnext] at h
          cases h
        | some m' =>
          rw [hnext] at h
          cases h
          rfl
      · rw [if_neg hletter] at h
        cases h

/-- The letters of a method lead from the guess of the first one to the method. -/
theorem methodStep_method {m : HttpMethod} (hknown : m ≠ .INVALID_METHOD) :
    ∃ c cs m₀, ascii m.string = c :: cs ∧ ¬(c = CR ∨ c = LF) ∧ isAlpha c = true ∧ firstMethod c = some m₀ ∧
      cs.foldlM methodStep (m₀, 1) = some (m, (ascii m.string).length) := by
  cases m with
  | INVALID_METHOD => exact absurd rfl hknown
  | _ => exact ⟨_, _, _, rfl, by decide, by decide, rfl, by decide⟩

/-- The loop before the first byte of a message. -/
structure AtStart {σ : Type} (l : Loop σ) : Prop where
  state : l.state = .s_start_req
  marks : l.marks = noMarks
  run : l.run = 0
  scanned : l.scanned = 0
  lenient : l.lenientHttpHeaders = false

/-- The loop in a method, with a guess and its length. -/
def Loop.inMethod {σ : Type} (l : Loop σ) (m : HttpMethod) (i : Nat) : Loop σ :=
  { l with flags := {}, contentLength := ULLONG_MAX, method := m, index := i }

theorem reads_letters (st : Settings (Handler δ)) (h : AtStart l) (hp : Unfinished l) :
    ∀ (cs : Bytes) (m m' : HttpMethod) (i i' k : Nat), cs.foldlM methodStep (m, i) = some (m', i') →
      l.nread.toNat + (k + cs.length) ≤ maxHeaderSize.toNat →
      Reads st cs ((l.inMethod m i).at .s_req_method k) ((l.inMethod m' i').at .s_req_method (k + cs.length)) := by
  intro cs
  induction cs with
  | nil =>
    intro m m' i i' k hm _
    cases hm
    exact Leads.nil
  | cons c cs ih =>
    intro m m' i i' k hm hroom
    rw [List.length_cons] at hroom
    rw [List.foldlM_cons] at hm
    cases hone : methodStep (m, i) c with
    | none =>
      rw [hone] at hm
      cases hm
    | some s =>
      rw [hone] at hm
      have hrest := ih s.1 m' s.2 i' (k + 1) hm (by omega)
      rw [Nat.add_assoc, Nat.add_comm 1] at hrest
      have hstep : step st c ((l.inMethod m i).at .s_req_method k) =
          .ok ((l.inMethod s.1 s.2).at .s_req_method (k + 1)) :=
        step_at h.run rfl (by show l.nread.toNat + _ ≤ _; omega) (reqMethod_letter hone) h.marks
      exact Leads.cons hp hstep hrest

/-- A method and the blank behind it. -/
theorem reads_method (st : Settings (Handler δ)) (hbegin : st.onMessageBegin = onLog) (h : AtStart l)
    (hp : Unfinished l) {m : HttpMethod} (hknown : m ≠ .INVALID_METHOD)
    (hroom : l.nread.toNat + ((ascii m.string).length + 1) ≤ maxHeaderSize.toNat) :
    Reads st (ascii m.string ++ [chr ' ']) l
      ((l.inMethod m ((ascii m.string).length + 1)).at .s_req_spaces_before_url ((ascii m.string).length + 1)) := by
  obtain ⟨c, cs, m₀, hcons, hline, halpha, hfirst, hfold⟩ := methodStep_method hknown
  have hlen : (ascii m.string).length = 1 + cs.length := by
    rw [hcons, List.length_cons, Nat.add_comm]
  have hstart : step st c l = .ok ((l.inMethod m₀ 1).at .s_req_method 1) := by
    refine step_head (by rw [h.state]; rfl) h.run (by omega) ?_ h.marks
    have hd : dispatch st c l.counted = startReq st c l.counted := by
      rw [dispatch, show l.counted.state = _ from h.state]
    rw [hd, startReq, if_neg hline, if_neg (by simp [halpha]), hfirst]
    dsimp only
    unfold Loop.notify
    rw [hbegin]
    rfl
  have hletters := reads_letters st h hp cs m₀ m 1 _ 1 hfold (by omega)
  rw [← hlen] at hletters
  have hblank : step st (chr ' ') ((l.inMethod m (ascii m.string).length).at .s_req_method (ascii m.string).length) =
      .ok ((l.inMethod m ((ascii m.string).length + 1)).at .s_req_spaces_before_url
        ((ascii m.string).length + 1)) := by
    refine step_at h.run rfl hroom ?_ h.marks
    have hend : (ascii m.string).getD (ascii m.string).length 0 = 0 := by simp
    show reqMethod (chr ' ') _ = _
    unfold reqMethod
    exact (if_neg (by decide)).trans (if_pos ⟨rfl, hend⟩)
  have hbytes : ascii m.string ++ [chr ' '] = c :: (cs ++ [chr ' ']) := by
    rw [hcons]
    rfl
  rw [hbytes]
  exact Leads.cons hp hstart (hletters.append (Leads.single (by exact hp) hblank))

/-! ## The URL -/

/-- The states of a URL behind its first slash. -/
def State.inUrl : State → Bool
  | .s_req_path | .s_req_query_string_start | .s_req_query_string | .s_req_fragment_start | .s_req_fragment => true
  | _ => false

/-- `parse_url_char` on byte after byte. -/
def urlRun (s : State) (us : Bytes) : Option State :=
  us.foldlM (fun s ch => if (parseUrlChar s ch).inUrl then some (parseUrlChar s ch) else none) s

theorem parsingHeader_of_inUrl {s : State} (hs : s.inUrl = true) : s.parsingHeader = true := by
  cases s
  all_goals first | rfl | cases hs

theorem dispatch_inUrl (st : Settings (Handler δ)) (ch : UInt8) (hs : l.state.inUrl = true) :
    dispatch st ch l = reqUrl st ch l := by
  unfold dispatch
  cases hstate : l.state
  all_goals first | rfl | (rw [hstate] at hs; cases hs)

theorem reqUrl_char {s : State} {ch : UInt8} (hs : s.inUrl = true) (h : (parseUrlChar s ch).inUrl = true)
    (hstate : l.state = s) : dispatch st ch l = .ok { l with state := parseUrlChar s ch } := by
  have hd : dispatch st ch l = reqUrl st ch l := dispatch_inUrl st ch (by rw [hstate]; exact hs)
  -- what `reqUrl` takes for the end of the URL is dead for `parse_url_char`
  have hblank : ¬(ch = chr ' ') := by
    rintro rfl
    have hdead : parseUrlChar s (chr ' ') = .s_dead := if_pos (Or.inl rfl)
    rw [hdead] at h
    cases h
  have hline : ¬(ch = CR ∨ ch = LF) := by
    intro hc
    have hdead : parseUrlChar s ch = .s_dead := if_pos (Or.inr hc)
    rw [hdead] at h
    cases h
  have hlive : parseUrlChar s ch ≠ .s_dead := by
    intro hdead
    rw [hdead] at h
    cases h
  rw [hd, reqUrl, if_neg hblank, if_neg hline, urlChar]
  dsimp only
  rw [hstate]
  exact if_neg hlive

/-- The bytes of a URL behind the slash. -/
theorem reads_url (st : Settings (Handler δ)) (hp : Unfinished l) (hrun : l.run = 0) :
    ∀ (us d : Bytes) (s s' : State) (k : Nat), s.inUrl = true → urlRun s us = some s' →
      l.nread.toNat + (k + us.length) ≤ maxHeaderSize.toNat →
      s'.inUrl = true ∧ Reads st us ({ l with marks := oneMark .url d }.at s k)
        ({ l with marks := oneMark .url (d ++ us) }.at s' (k + us.length)) := by
  intro us
  induction us with
  | nil =>
    intro d s s' k hs h _
    cases h
    rw [List.append_nil]
    exact ⟨hs, Leads.nil⟩
  | cons u us ih =>
    intro d s s' k hs h hroom
    rw [List.length_cons] at hroom
    unfold urlRun at h
    rw [List.foldlM_cons] at h
    by_cases hone : (parseUrlChar s u).inUrl = true
    · rw [if_pos hone] at h
      obtain ⟨hs', hrest⟩ := ih (d ++ [u]) (parseUrlChar s u) s' (k + 1) hone h (by omega)
      rw [List.append_assoc, Nat.add_assoc, Nat.add_comm 1] at hrest
      refine ⟨hs', Leads.cons hp ?_ hrest⟩
      have hcount : (l.nread + UInt32.ofNat k).toNat + 1 ≤ maxHeaderSize.toNat := by
        rw [nread_add (by omega)]
        omega
      have hchar : dispatch st u (({ l with marks := oneMark .url d }.at s k).counted) =
          .ok ({ l with marks := oneMark .url d }.at (parseUrlChar s u) (k + 1)) := by
        rw [at_counted]
        exact reqUrl_char hs hone rfl
      exact step_head_marked (by exact parsingHeader_of_inUrl hs) (by exact hrun) (by exact hcount) hchar rfl
    · rw [if_neg hone] at h
      cases h

/-- The slash a URL starts with. -/
theorem step_slash (st : Settings (Handler δ)) (hm : l.marks = noMarks) (hrun : l.run = 0)
    (hmethod : l.method ≠ .CONNECT) {k : Nat} (hroom : l.nread.toNat + (k + 1) ≤ maxHeaderSize.toNat) :
    step st (chr '/') (l.at .s_req_spaces_before_url k) =
      .ok ({ l with marks := oneMark .url [chr '/'] }.at .s_req_path (k + 1)) := by
  have hchar : dispatch st (chr '/') (l.at .s_req_spaces_before_url k).counted =
      .ok ({ l with marks := oneMark .url [] }.at .s_req_path (k + 1)) := by
    rw [at_counted]
    show reqSpacesBeforeUrl (chr '/') _ = _
    unfold reqSpacesBeforeUrl
    rw [if_neg (by decide), mark_noMarks (by exact hm)]
    dsimp only
    rw [if_neg (by exact hmethod)]
    rfl
  refine step_head_marked rfl (by exact hrun) ?_ hchar rfl
  show (l.nread + UInt32.ofNat k).toNat + 1 ≤ _
  rw [nread_add (by omega)]
  omega

/-- The blank behind a URL hands the URL over. -/
theorem step_urlEnd {s : State} (hs : s.inUrl = true) (hrun : l.run = 0) {url : Bytes} {u : Handler δ} {k : Nat}
    (hcb : ∀ p, st.onData .url p url l.user = (0, u)) (hroom : l.nread.toNat + (k + 1) ≤ maxHeaderSize.toNat) :
    step st (chr ' ') ({ l with marks := oneMark .url url }.at s k) =
      .ok ({ l with marks := noMarks, user := u }.at .s_req_http_start (k + 1)) := by
  have hblank : dispatch st (chr ' ') ({ l with marks := oneMark .url url }.at s (k + 1)) =
      .ok ({ l with marks := noMarks, user := u }.at .s_req_http_start (k + 1)) := by
    rw [dispatch_inUrl st _ (by exact hs), reqUrl, if_pos rfl]
    exact callback_oneMark (by rfl) (by exact hcb _) 0
  exact step_at (by exact hrun) (parsingHeader_of_inUrl hs) hroom hblank rfl

/-! ## The version -/

/-- A byte that moves the loop from one state to another, the marks being empty. -/
theorem reads_at {l₁ l₂ : Loop (Handler δ)} {ch : UInt8} {s s' : State} {k : Nat}
    (hp : Unfinished l₁) (hrun : l₁.run = 0) (hm : l₂.marks = noMarks) (hs : s.parsingHeader = true)
    (hroom : l₁.nread.toNat + (k + 1) ≤ maxHeaderSize.toNat)
    (hd : dispatch st ch (l₁.at s (k + 1)) = .ok (l₂.at s' (k + 1))) :
    Reads st [ch] (l₁.at s k) (l₂.at s' (k + 1)) :=
  Leads.single hp (step_at hrun hs hroom hd hm)

/-- `HTTP/1.x` and the end of the line. -/
theorem reads_version (st : Settings (Handler δ)) (hp : Unfinished l) (hm : l.marks = noMarks) (hrun : l.run = 0)
    {x : UInt8} (hx : isNum x = true) {k : Nat} (hroom : l.nread.toNat + (k + 10) ≤ maxHeaderSize.toNat) :
    Reads st (ascii "HTTP/1." ++ [x, CR, LF]) (l.at .s_req_http_start k)
      ({ l with httpMajor := 1, httpMinor := (x - chr '0').toNat }.at .s_header_field_start (k + 10)) := by
  -- every byte is one step, the `i`-th from `k + i` to `k + i + 1`
  have hone : ∀ (l₁ l₂ : Loop (Handler δ)) (ch : UInt8) (s s' : State) (i : Nat), Unfinished l₁ → l₁.run = 0 →
      l₁.nread = l.nread → l₂.marks = noMarks → s.parsingHeader = true → i < 10 →
      dispatch st ch (l₁.at s (k + i + 1)) = .ok (l₂.at s' (k + i + 1)) →
      Reads st [ch] (l₁.at s (k + i)) (l₂.at s' (k + i + 1)) := by
    intro l₁ l₂ ch s s' i hp₁ hrun₁ hnread hm₂ hs hi hd
    exact reads_at hp₁ hrun₁ hm₂ hs (by rw [hnread]; omega) hd
  let l₁ : Loop (Handler δ) := { l with httpMajor := 1 }
  let l₂ : Loop (Handler δ) := { l with httpMajor := 1, httpMinor := (x - chr '0').toNat }
  have hH := hone l l (chr 'H') .s_req_http_start .s_req_http_H 0 hp hrun rfl hm rfl (by omega) rfl
  have hT := hone l l (chr 'T') .s_req_http_H .s_req_http_HT 1 hp hrun rfl hm rfl (by omega) rfl
  have hTT := hone l l (chr 'T') .s_req_http_HT .s_req_http_HTT 2 hp hrun rfl hm rfl (by omega) rfl
  have hP := hone l l (chr 'P') .s_req_http_HTT .s_req_http_HTTP 3 hp hrun rfl hm rfl (by omega) rfl
  have hslash := hone l l (chr '/') .s_req_http_HTTP .s_req_http_major 4 hp hrun rfl hm rfl (by omega) rfl
  have hmajor := hone l l₁ (chr '1') .s_req_http_major .s_req_http_dot 5 hp hrun rfl hm rfl (by omega) rfl
  have hdot := hone l₁ l₁ (chr '.') .s_req_http_dot .s_req_http_minor 6 hp hrun rfl hm rfl (by omega) rfl
  have hminor := hone l₁ l₂ x .s_req_http_minor .s_req_http_end 7 hp hrun rfl hm rfl (by omega)
    (by exact if_neg (by simp [hx]))
  have hcr := hone l₂ l₂ CR .s_req_http_end .s_req_line_almost_done 8 hp hrun rfl hm rfl (by omega) rfl
  have hlf := hone l₂ l₂ LF .s_req_line_almost_done .s_header_field_start 9 hp hrun rfl hm rfl (by omega) rfl
  exact hH.append (hT.append (hTT.append (hP.append (hslash.append (hmajor.append (hdot.append
    (hminor.append (hcr.append hlf))))))))

/-! ## The line -/

/-- The line that starts a request, for a minor version with one digit. -/
def startLine (m : HttpMethod) (url : Bytes) (x : UInt8) : Bytes :=
  ascii m.string ++ [chr ' '] ++ url ++ [chr ' '] ++ (ascii "HTTP/1." ++ [x, CR, LF])

theorem length_startLine (m : HttpMethod) (url : Bytes) (x : UInt8) :
    (startLine m url x).length = (ascii m.string).length + url.length + 12 := by
  have hword : (ascii "HTTP/1.").length = 7 := rfl
  simp only [startLine, List.length_append, List.length_cons, List.length_nil, hword]
  omega

/-- What the first line leaves for the lines behind it. -/
structure Started (l : Loop (Handler δ)) (m : HttpMethod) (minor : Nat) (u : Handler δ) (n : Nat)
    (l' : Loop (Handler δ)) : Prop where
  atLine : AtLine l'
  type_eq : l'.type = l.type
  flags_eq : l'.flags = {}
  length_eq : l'.contentLength = ULLONG_MAX
  method_eq : l'.method = m
  major_eq : l'.httpMajor = 1
  minor_eq : l'.httpMinor = minor
  user_eq : l'.user = u
  nread_eq : l'.nread.toNat = l.nread.toNat + n

/-- What stands behind the method: a URL that starts with a slash and is accepted by the callback, and
the version. -/
theorem reads_urlLine (st : Settings (Handler δ)) (hp : Unfinished l) (hm : l.marks = noMarks) (hrun : l.run = 0)
    (hmethod : l.method ≠ .CONNECT) {us : Bytes} {s : State} (hurl : urlRun .s_req_path us = some s)
    {u : Handler δ} (hcb : ∀ p, st.onData .url p (chr '/' :: us) l.user = (0, u)) (hu : u.finished = false)
    {x : UInt8} (hx : isNum x = true) {k : Nat}
    (hroom : l.nread.toNat + (k + us.length + 12) ≤ maxHeaderSize.toNat) :
    Reads st (chr '/' :: (us ++ chr ' ' :: (ascii "HTTP/1." ++ [x, CR, LF]))) (l.at .s_req_spaces_before_url k)
      ({ l with marks := noMarks, user := u, httpMajor := 1, httpMinor := (x - chr '0').toNat }.at
        .s_header_field_start (k + us.length + 12)) := by
  have hslash := step_slash st hm hrun hmethod (k := k) (by omega)
  obtain ⟨hs, hrest⟩ := reads_url st hp hrun us [chr '/'] .s_req_path s (k + 1) rfl hurl (by omega)
  have hend := step_urlEnd hs hrun hcb (k := k + 1 + us.length) (by omega)
  have hversion := reads_version (l := { l with marks := noMarks, user := u }) st hu rfl hrun hx
    (k := k + 1 + us.length + 1) (by show l.nread.toNat + _ ≤ _; omega)
  have hk : k + us.length + 12 = k + 1 + us.length + 1 + 10 := by omega
  rw [hk]
  exact Leads.cons hp hslash (hrest.append (Leads.cons hp hend hversion))

/-- A first line. -/
theorem reads_startLine (st : Settings (Handler δ)) (hbegin : st.onMessageBegin = onLog) (h : AtStart l)
    (hp : Unfinished l) {m : HttpMethod} (hmethod : m ≠ .CONNECT) (hknown : m ≠ .INVALID_METHOD) {us : Bytes}
    {s : State} (hurl : urlRun .s_req_path us = some s) {u : Handler δ}
    (hcb : ∀ p, st.onData .url p (chr '/' :: us) l.user = (0, u)) (hu : u.finished = false)
    {x : UInt8} (hx : isNum x = true)
    (hroom : l.nread.toNat + (startLine m (chr '/' :: us) x).length ≤ maxHeaderSize.toNat) :
    ∃ l', Reads st (startLine m (chr '/' :: us) x) l l' ∧
      Started l m (x - chr '0').toNat u (startLine m (chr '/' :: us) x).length l' := by
  have hlen := length_startLine m (chr '/' :: us) x
  rw [List.length_cons] at hlen
  have hname := reads_method st hbegin h hp hknown (by omega)
  have hrest := reads_urlLine (l := l.inMethod m ((ascii m.string).length + 1)) st hp h.marks h.run hmethod
    hurl hcb hu hx (k := (ascii m.string).length + 1) (by show l.nread.toNat + _ ≤ _; omega)
  have hline : (ascii m.string ++ [chr ' ']) ++ (chr '/' :: (us ++ chr ' ' :: (ascii "HTTP/1." ++ [x, CR, LF]))) =
      startLine m (chr '/' :: us) x := by simp [startLine]
  have hreads := hname.append hrest
  rw [hline] at hreads
  refine ⟨_, hreads, ⟨⟨rfl, rfl, h.run, h.scanned, h.lenient⟩, rfl, rfl, rfl, rfl, rfl, rfl, rfl, ?_⟩⟩
  show (l.nread + UInt32.ofNat ((ascii m.string).length + 1 + us.length + 12)).toNat = _
  rw [nread_add (by omega)]
  omega

end

end Sylar.Http
