import Mathlib.Data.List.Basic
import Sylar.Http.StatusLine

/- A response whose head is longer than `max_header_size` is never finished.

   Every byte of a head is counted once: at the top of the loop, or, for the bytes of an
   inner loop, when that loop ends. `InHead` says how far the count is after `n` bytes;
   an inner loop that has taken too many bytes is `Doomed`: it can only go on or
   stop at the limit. An empty line is what ends a head, and the lines of a response
   have none before its end (`Place` follows where a line starts), so the count has no
   occasion to start anew. -/
namespace Sylar.Http
open Sylar.Lib

section
variable {l : Loop (Handler HttpResponse)} {n : Nat} {ch : UInt8}

/-! ## Results -/

/-- A state with `P`, or a stop before any message has been completed. -/
def Stays (P : Loop (Handler HttpResponse) → Prop) :
    Except (Stop (Handler HttpResponse)) (Loop (Handler HttpResponse)) → Prop
  | .ok l => P l
  | .error s => s.user.finished = false

theorem Stays.bind {P Q : Loop (Handler HttpResponse) → Prop}
    {r : Except (Stop (Handler HttpResponse)) (Loop (Handler HttpResponse))}
    {f : Loop (Handler HttpResponse) → Except (Stop (Handler HttpResponse)) (Loop (Handler HttpResponse))}
    (hr : Stays P r) (hf : ∀ l, P l → Stays Q (f l)) : Stays Q (r >>= f) := by
  cases r with
  | error s => exact hr
  | ok l => exact hf l hr

theorem Stays.mono {P Q : Loop (Handler HttpResponse) → Prop}
    {r : Except (Stop (Handler HttpResponse)) (Loop (Handler HttpResponse))} (hr : Stays P r) (h : ∀ l, P l → Q l) :
    Stays Q r := by
  cases r with
  | error s => exact hr
  | ok l => exact h l hr

theorem stays_fail {P : Loop (Handler HttpResponse) → Prop} {e : HttpErrno} (hp : Unfinished l) :
    Stays P (l.fail e) := hp

/-- A callback for data completes no message. -/
theorem onResponseData_finished (m : Mark) (p : Fields) (d : Bytes) (h : Handler HttpResponse) :
    (responseSettings.onData m p d h).2.finished = h.finished := by
  cases m with
  | url => rfl
  | status => rfl
  | header_field => rfl
  | header_value => rfl
  | body => rfl

theorem stays_callback {P : Loop (Handler HttpResponse) → Prop} (hp : Unfinished l)
    (h : ∀ u marks, u.finished = false → P { l with user := u, marks := marks }) (m : Mark) (k : Nat) :
    Stays P (l.callback responseSettings m k) := by
  unfold Loop.callback
  split
  · exact h l.user l.marks hp
  · rename_i d _
    have hdata := (onResponseData_finished m l.toFields d l.user).trans hp
    dsimp only
    split
    · exact h _ _ hdata
    · exact hdata

theorem stays_count {P : Loop (Handler HttpResponse) → Prop} (hp : Unfinished l) {v : Nat}
    (hv : l.nread.toNat + v < 4294967296)
    (h : ∀ k : UInt32, k.toNat = l.nread.toNat + v → k.toNat ≤ maxHeaderSize.toNat → P { l with nread := k }) :
    Stays P (l.countHeaderSize v) := by
  have hsum : (l.nread + UInt32.ofNat v).toNat = l.nread.toNat + v := by
    rw [UInt32.toNat_add, UInt32.toNat_ofNat']
    omega
  unfold Loop.countHeaderSize
  dsimp only
  split
  · exact hp
  · next hle =>
    rw [UInt32.lt_iff_toNat_lt] at hle
    exact h _ hsum (Nat.not_lt.mp hle)

/-! ## The count -/

/-- The loop behind `n` bytes of a head. The byte that an inner loop will end at has been counted. -/
structure InHead (n : Nat) (l : Loop (Handler HttpResponse)) : Prop where
  unfinished : Unfinished l
  fits : l.nread.toNat ≤ maxHeaderSize.toNat
  count : l.nread.toNat + l.run = if l.run = 0 then n else n + 1
  header : l.state.parsingHeader = true
  inner : l.run ≠ 0 → l.state = .s_header_field ∨ l.state = .s_header_value

/-- The states inside a line of a response's head. -/
def State.inReply : State → Bool
  | .s_start_res | .s_res_H | .s_res_HT | .s_res_HTT | .s_res_HTTP | .s_res_http_major | .s_res_http_dot
  | .s_res_http_minor | .s_res_http_end | .s_res_first_status_code | .s_res_status_code | .s_res_status_start
  | .s_res_status | .s_res_line_almost_done | .s_header_field | .s_header_value_discard_ws
  | .s_header_value_discard_ws_almost_done | .s_header_value | .s_header_almost_done => true
  | _ => false

/-- The states in which a line starts. -/
def State.lineStart : State → Bool
  | .s_header_field_start | .s_header_value_discard_lws | .s_header_value_lws => true
  | _ => false

theorem parsingHeader_of_inReply {s : State} (hs : s.inReply = true) : s.parsingHeader = true := by
  cases s
  all_goals first | rfl | cases hs

theorem parsingHeader_of_lineStart {s : State} (hs : s.lineStart = true) : s.parsingHeader = true := by
  cases s
  all_goals first | rfl | cases hs

/-- A line starts only where one has ended. -/
def Place (ended : Prop) (l : Loop (Handler HttpResponse)) : Prop :=
  l.state.inReply = true ∨ ended ∧ l.state.lineStart = true

/-- The loop behind `n` bytes, the last of which is `ch`. -/
def Next (n : Nat) (ch : UInt8) (l : Loop (Handler HttpResponse)) : Prop := InHead n l ∧ Place (ch = LF) l

/-- The loop when the `n`-th byte has been counted. -/
structure Ready (n : Nat) (l : Loop (Handler HttpResponse)) : Prop where
  unfinished : Unfinished l
  fits : l.nread.toNat ≤ maxHeaderSize.toNat
  count : l.nread.toNat + l.run = n
  small : n < 4294967296

theorem Ready.inHead (h : Ready n l) (hrun : l.run = 0) {l' : Loop (Handler HttpResponse)} (hp : Unfinished l')
    (hn : l'.nread = l.nread) (hr : l'.run = l.run) (hs : l'.state.parsingHeader = true) : InHead n l' := by
  have hzero : l'.run = 0 := hr.trans hrun
  refine ⟨hp, by rw [hn]; exact h.fits, ?_, hs, fun hne => absurd hzero hne⟩
  rw [if_pos hzero, hn, hr]
  exact h.count

/-- A byte outside the inner loops. -/
theorem Ready.next (h : Ready n l) (hrun : l.run = 0) {l' : Loop (Handler HttpResponse)} (hp : Unfinished l')
    (hn : l'.nread = l.nread) (hr : l'.run = l.run)
    (hs : l'.state.inReply = true ∨ ch = LF ∧ l'.state.lineStart = true) : Next n ch l' := by
  have hheader : l'.state.parsingHeader = true := by
    rcases hs with hs | hs
    · exact parsingHeader_of_inReply hs
    · exact parsingHeader_of_lineStart hs.2
  exact ⟨h.inHead hrun hp hn hr hheader, hs⟩

/-- A byte that an inner loop takes. -/
theorem Ready.more (h : Ready n l) {l' : Loop (Handler HttpResponse)} (hp : Unfinished l')
    (hn : l'.nread = l.nread) (hr : l'.run = l.run + 1) (hs : l'.state = .s_header_field ∨ l'.state = .s_header_value) :
    Next n ch l' := by
  have hne : l'.run ≠ 0 := by omega
  have hcount := h.count
  have hreply : l'.state.inReply = true := by
    rcases hs with hs | hs
    · rw [hs]; rfl
    · rw [hs]; rfl
  refine ⟨⟨hp, by rw [hn]; exact h.fits, ?_, parsingHeader_of_inReply hreply, fun _ => hs⟩, Or.inl hreply⟩
  rw [if_neg hne, hn, hr]
  omega

theorem Ready.same (h : Ready n l) {l' : Loop (Handler HttpResponse)} (hu : Unfinished l') (hn : l'.nread = l.nread)
    (hr : l'.run = l.run) : Ready n l' :=
  ⟨hu, by rw [hn]; exact h.fits, by rw [hn, hr]; exact h.count, h.small⟩

/-! ## The status line -/

theorem expect_next (h : Ready n l) (hrun : l.run = 0) {c : UInt8} {s : State}
    (hs : s.inReply = true ∨ c = LF ∧ s.lineStart = true) : Stays (Next n ch) (l.expect ch c s) := by
  unfold Loop.expect
  split
  · exact stays_fail h.unfinished
  · next heq =>
    rw [not_not] at heq
    rw [← heq] at hs
    exact h.next hrun h.unfinished rfl rfl hs

theorem startRes_next (h : Ready n l) (hrun : l.run = 0) (hs : l.state = .s_start_res) :
    Stays (Next n ch) (startRes responseSettings ch l) := by
  unfold startRes
  split
  · exact h.next hrun h.unfinished rfl rfl (Or.inl (by rw [hs]; rfl))
  · dsimp only
    split
    · exact h.next hrun h.unfinished rfl rfl (Or.inl rfl)
    · exact stays_fail h.unfinished

theorem httpMajor_next (h : Ready n l) (hrun : l.run = 0) {s : State} (hs : s.inReply = true) :
    Stays (Next n ch) (httpMajor s ch l) := by
  unfold httpMajor
  split
  · exact stays_fail h.unfinished
  · exact h.next hrun h.unfinished rfl rfl (Or.inl hs)

theorem httpMinor_next (h : Ready n l) (hrun : l.run = 0) {s : State} (hs : s.inReply = true) :
    Stays (Next n ch) (httpMinor s ch l) := by
  unfold httpMinor
  split
  · exact stays_fail h.unfinished
  · exact h.next hrun h.unfinished rfl rfl (Or.inl hs)

theorem httpPunct_next (h : Ready n l) (hrun : l.run = 0) {c : UInt8} {s : State} (hs : s.inReply = true) :
    Stays (Next n ch) (httpPunct c s ch l) := by
  unfold httpPunct
  split
  · exact stays_fail h.unfinished
  · exact h.next hrun h.unfinished rfl rfl (Or.inl hs)

theorem resFirstStatusCode_next (h : Ready n l) (hrun : l.run = 0) (hs : l.state = .s_res_first_status_code) :
    Stays (Next n ch) (resFirstStatusCode ch l) := by
  unfold resFirstStatusCode
  split
  · split
    · exact h.next hrun h.unfinished rfl rfl (Or.inl (by rw [hs]; rfl))
    · exact stays_fail h.unfinished
  · exact h.next hrun h.unfinished rfl rfl (Or.inl rfl)

theorem resStatus_next (h : Ready n l) (hrun : l.run = 0) (hs : l.state = .s_res_status) :
    Stays (Next n ch) (resStatus responseSettings ch l) := by
  unfold resStatus
  split
  · apply stays_callback
    · exact h.unfinished
    · intro u marks hu
      exact h.next hrun hu rfl rfl (Or.inl rfl)
  · split
    · next hlf =>
      apply stays_callback
      · exact h.unfinished
      · intro u marks hu
        exact h.next hrun hu rfl rfl (Or.inr ⟨hlf, rfl⟩)
    · exact h.next hrun h.unfinished rfl rfl (Or.inl (by rw [hs]; rfl))

theorem resStatusStart_next (h : Ready n l) (hrun : l.run = 0) :
    Stays (Next n ch) (resStatusStart responseSettings ch l) := by
  have h' : Ready n { l.mark .status with state := .s_res_status, index := 0 } := h.same h.unfinished rfl rfl
  unfold resStatusStart
  dsimp only
  split
  · exact resStatus_next h' hrun rfl
  · exact h'.next hrun h'.unfinished rfl rfl (Or.inl rfl)

theorem resStatusCode_next (h : Ready n l) (hrun : l.run = 0) (hs : l.state = .s_res_status_code) :
    Stays (Next n ch) (resStatusCode responseSettings ch l) := by
  unfold resStatusCode
  split
  · split
    · exact h.next hrun h.unfinished rfl rfl (Or.inl rfl)
    · split
      · exact resStatusStart_next (h.same h.unfinished rfl rfl) hrun
      · exact stays_fail h.unfinished
  · dsimp only
    split
    · exact stays_fail h.unfinished
    · exact h.next hrun h.unfinished rfl rfl (Or.inl (by rw [hs]; rfl))

/-! ## The header lines -/

theorem fieldChar_counts (ch : UInt8) (l : Loop (Handler HttpResponse)) :
    (fieldChar ch l).nread = l.nread ∧ (fieldChar ch l).run = l.run ∧ (fieldChar ch l).user = l.user ∧
      (fieldChar ch l).state = l.state := by
  rw [fieldChar_eq]
  exact ⟨rfl, rfl, rfl, rfl⟩

theorem headerField_next (h : Ready n l) (hs : l.state = .s_header_field) :
    Stays (Next n ch) (headerField responseSettings ch l) := by
  unfold headerField
  split
  · obtain ⟨hn, hr, hu, hstate⟩ := fieldChar_counts ch l
    refine h.more ?_ hn (congrArg (· + 1) hr) (Or.inl (hstate.trans hs))
    show (fieldChar ch l).user.finished = false
    rw [hu]
    exact h.unfinished
  · have hcount := h.count
    have hsmall := h.small
    refine Stays.bind (P := fun l' => Ready n l' ∧ l'.run = 0)
      (stays_count (by exact h.unfinished) (by show l.nread.toNat + l.run < _; omega) ?_) ?_
    · intro k hk hfits
      exact ⟨⟨h.unfinished, hfits, hk.trans hcount, hsmall⟩, rfl⟩
    · intro l' hl'
      obtain ⟨h', hrun'⟩ := hl'
      split
      · apply stays_callback
        · exact h'.unfinished
        · intro u marks hu
          exact h'.next hrun' hu rfl rfl (Or.inl rfl)
      · exact stays_fail h'.unfinished

theorem headerValueStart_next (h : Ready n l) (hrun : l.run = 0) : Stays (Next n ch) (headerValueStart ch l) := by
  have hgo : ∀ l' : Loop (Handler HttpResponse), l'.user = l.user → l'.nread = l.nread → l'.run = l.run →
      l'.state = .s_header_value → Next n ch l' := by
    intro l' hu hn hr hs
    have hp : Unfinished l' := by
      show l'.user.finished = false
      rw [hu]
      exact h.unfinished
    exact h.next hrun hp hn hr (Or.inl (by rw [hs]; rfl))
  unfold headerValueStart
  dsimp only
  split
  case h_3 =>
    split
    · exact stays_fail h.unfinished
    · split
      · exact stays_fail h.unfinished
      · exact hgo _ rfl rfl rfl rfl
  all_goals exact hgo _ rfl rfl rfl rfl

theorem headerValueDiscardWs_next (h : Ready n l) (hrun : l.run = 0) (hs : l.state = .s_header_value_discard_ws) :
    Stays (Next n ch) (headerValueDiscardWs ch l) := by
  unfold headerValueDiscardWs
  split
  · exact h.next hrun h.unfinished rfl rfl (Or.inl (by rw [hs]; rfl))
  · split
    · exact h.next hrun h.unfinished rfl rfl (Or.inl rfl)
    · split
      · next hlf => exact h.next hrun h.unfinished rfl rfl (Or.inr ⟨hlf, rfl⟩)
      · exact headerValueStart_next h hrun

/-- What the body of the loop over a value leaves alone. -/
def SameCount (l l' : Loop (Handler HttpResponse)) : Prop :=
  l'.nread = l.nread ∧ l'.run = l.run ∧ l'.user = l.user ∧ l'.state = .s_header_value

theorem contentLengthNum_counts (hp : Unfinished l) (hs : l.state = .s_header_value) :
    Stays (SameCount l) (contentLengthNum ch l) := by
  unfold contentLengthNum
  split
  · exact ⟨rfl, rfl, rfl, hs⟩
  · split
    · exact stays_fail hp
    · split
      · exact stays_fail hp
      · exact ⟨rfl, rfl, rfl, hs⟩

theorem valueChar_counts (hp : Unfinished l) (hs : l.state = .s_header_value) :
    Stays (SameCount l) (valueChar ch l) := by
  unfold valueChar
  dsimp only
  split
  case h_4 =>
    split
    · exact ⟨rfl, rfl, rfl, hs⟩
    · exact contentLengthNum_counts hp hs
  case h_5 => exact contentLengthNum_counts hp hs
  all_goals repeat' split
  all_goals first
    | exact ⟨rfl, rfl, rfl, hs⟩
    | exact ⟨rfl, rfl, rfl, rfl⟩
    | exact stays_fail hp

theorem headerAlmostDone_next (h : Ready n l) (hrun : l.run = 0) : Stays (Next n ch) (headerAlmostDone ch l) := by
  unfold headerAlmostDone
  split
  · exact stays_fail h.unfinished
  · next hlf => exact h.next hrun h.unfinished rfl rfl (Or.inr ⟨not_not.mp hlf, rfl⟩)

theorem headerValue_next (h : Ready n l) (hs : l.state = .s_header_value) :
    Stays (Next n ch) (headerValue responseSettings ch l) := by
  have hcount := h.count
  have hsmall := h.small
  unfold headerValue
  split
  · exact h.more (by exact h.unfinished) rfl rfl (Or.inr hs)
  · split
    · -- the CR: the value is handed over, then its bytes are counted
      refine Stays.bind (P := fun l' => Unfinished l' ∧ l'.nread = l.nread ∧ l'.run = 0 ∧
        l'.state = .s_header_almost_done) ?_ ?_
      · apply stays_callback
        · exact h.unfinished
        · intro u marks hu
          exact ⟨hu, rfl, rfl, rfl⟩
      · intro l' hl'
        obtain ⟨hp, hn, hr, hstate⟩ := hl'
        refine stays_count hp (by rw [hn]; omega) ?_
        intro k hk hfits
        have h' : Ready n { l' with nread := k } := ⟨hp, hfits, by rw [hr, hk, hn]; omega, hsmall⟩
        exact h'.next hr hp rfl rfl (Or.inl (by rw [hstate]; rfl))
    · split
      · -- the LF: the other way round
        refine Stays.bind (P := fun l' => Ready n l' ∧ l'.run = 0)
          (stays_count (by exact h.unfinished) (by show l.nread.toNat + l.run < _; omega) ?_) ?_
        · intro k hk hfits
          exact ⟨⟨h.unfinished, hfits, hk.trans hcount, hsmall⟩, rfl⟩
        · intro l' hl'
          obtain ⟨h', hr⟩ := hl'
          refine Stays.bind (P := fun l'' => Ready n l'' ∧ l''.run = 0) ?_ ?_
          · apply stays_callback
            · exact h'.unfinished
            · intro u marks hu
              exact ⟨h'.same hu rfl rfl, hr⟩
          · intro l'' hl''
            obtain ⟨h'', hr'⟩ := hl''
            exact headerAlmostDone_next h'' hr'
      · split
        · exact stays_fail h.unfinished
        · refine Stays.bind (valueChar_counts h.unfinished hs) ?_
          intro l' hl'
          obtain ⟨hn, hr, hu, hstate⟩ := hl'
          refine h.more ?_ hn (congrArg (· + 1) hr) (Or.inr hstate)
          show l'.user.finished = false
          rw [hu]
          exact h.unfinished

/-- Every byte inside a line. -/
theorem dispatch_inReply (h : Ready n l) (hinner : l.run ≠ 0 → l.state = .s_header_field ∨ l.state = .s_header_value)
    (hs : l.state.inReply = true) : Stays (Next n ch) (dispatch responseSettings ch l) := by
  have hrun : ∀ {s}, l.state = s → s ≠ .s_header_field → s ≠ .s_header_value → l.run = 0 := by
    intro s hs hf hv
    by_contra hne
    rcases hinner hne with heq | heq
    · exact hf (hs.symm.trans heq)
    · exact hv (hs.symm.trans heq)
  unfold dispatch
  cases hstate : l.state
  case s_start_res => exact startRes_next h (hrun hstate nofun nofun) hstate
  case s_res_H | s_res_HT | s_res_HTT | s_res_HTTP | s_header_value_discard_ws_almost_done | s_res_line_almost_done =>
    first
    | exact expect_next h (hrun hstate nofun nofun) (Or.inl rfl)
    | exact expect_next h (hrun hstate nofun nofun) (Or.inr ⟨rfl, rfl⟩)
  case s_res_http_major => exact httpMajor_next h (hrun hstate nofun nofun) rfl
  case s_res_http_minor => exact httpMinor_next h (hrun hstate nofun nofun) rfl
  case s_res_http_dot | s_res_http_end => exact httpPunct_next h (hrun hstate nofun nofun) rfl
  case s_res_first_status_code => exact resFirstStatusCode_next h (hrun hstate nofun nofun) hstate
  case s_res_status_code => exact resStatusCode_next h (hrun hstate nofun nofun) hstate
  case s_res_status_start => exact resStatusStart_next h (hrun hstate nofun nofun)
  case s_res_status => exact resStatus_next h (hrun hstate nofun nofun) hstate
  case s_header_field => exact headerField_next h hstate
  case s_header_value_discard_ws => exact headerValueDiscardWs_next h (hrun hstate nofun nofun) hstate
  case s_header_value => exact headerValue_next h hstate
  case s_header_almost_done => exact headerAlmostDone_next h (hrun hstate nofun nofun)
  all_goals
    rw [hstate] at hs
    cases hs

/-- What a byte at the start of a line leads to, an empty line apart. -/
def Begun (n : Nat) (ch : UInt8) (l : Loop (Handler HttpResponse)) : Prop :=
  InHead n l ∧ (ch ≠ CR → Place (ch = LF) l)

theorem Next.begun (h : Next n ch l) : Begun n ch l := ⟨h.1, fun _ => h.2⟩

theorem headerFieldStart_begun (h : Ready n l) (hrun : l.run = 0) (hlf : ch ≠ LF) :
    Stays (Begun n ch) (headerFieldStart responseSettings ch l) := by
  unfold headerFieldStart
  rw [if_neg hlf]
  split
  · next hcr => exact ⟨h.inHead hrun h.unfinished rfl rfl rfl, fun hne => absurd hcr hne⟩
  · split
    · exact stays_fail h.unfinished
    · exact Next.begun (h.next hrun h.unfinished rfl rfl (Or.inl rfl))

theorem dispatch_lineStart (h : Ready n l) (hrun : l.run = 0) (hs : l.state.lineStart = true) (hlf : ch ≠ LF) :
    Stays (Begun n ch) (dispatch responseSettings ch l) := by
  unfold dispatch
  cases hstate : l.state
  case s_header_field_start => exact headerFieldStart_begun h hrun hlf
  case s_header_value_lws =>
    show Stays _ (headerValueLws responseSettings ch l)
    unfold headerValueLws
    split
    · refine Stays.mono (headerValueStart_next ?_ hrun) fun _ => Next.begun
      exact h.same h.unfinished rfl rfl
    · exact headerFieldStart_begun (h.same h.unfinished rfl rfl) hrun hlf
  case s_header_value_discard_lws =>
    show Stays _ (headerValueDiscardLws responseSettings ch l)
    unfold headerValueDiscardLws
    split
    · exact Next.begun (h.next hrun h.unfinished rfl rfl (Or.inl rfl))
    · split
      · exact stays_fail h.unfinished
      · refine Stays.bind (P := fun l' => Ready n l' ∧ l'.run = 0) ?_ ?_
        · apply stays_callback
          · exact h.unfinished
          · intro u marks hu
            exact ⟨h.same hu rfl rfl, hrun⟩
        · intro l' hl'
          obtain ⟨h', hrun'⟩ := hl'
          exact headerFieldStart_begun h' hrun' hlf
  all_goals
    rw [hstate] at hs
    cases hs

/-! ## Steps -/

theorem countByte_ready (h : InHead n l) (hn : n + 1 < 4294967296) :
    Stays (fun l' => Ready (n + 1) l' ∧ l'.state = l.state ∧ l'.run = l.run) l.countByte := by
  have hcount := h.count
  unfold Loop.countByte
  by_cases hrun : l.run = 0
  · rw [if_pos ⟨h.header, hrun⟩]
    rw [if_pos hrun] at hcount
    refine stays_count h.unfinished (by omega) ?_
    intro k hk hfits
    exact ⟨⟨h.unfinished, hfits, by show k.toNat + l.run = _; omega, hn⟩, rfl, rfl⟩
  · rw [if_neg fun hc => hrun hc.2]
    rw [if_neg hrun] at hcount
    exact ⟨⟨h.unfinished, h.fits, hcount, hn⟩, rfl, rfl⟩

theorem InHead.advance (h : InHead n l) (ch : UInt8) : InHead n (l.advance ch) :=
  ⟨h.unfinished, h.fits, h.count, h.header, h.inner⟩

/-- A byte inside a line. -/
theorem step_inReply (h : InHead n l) (hs : l.state.inReply = true) (hn : n + 1 < 4294967296) :
    Stays (Next (n + 1) ch) (step responseSettings ch l) := by
  unfold step
  refine Stays.bind (countByte_ready h hn) ?_
  intro l' hl'
  obtain ⟨h', hstate, hrun⟩ := hl'
  refine Stays.bind (dispatch_inReply h' (by rw [hstate, hrun]; exact h.inner) (by rw [hstate]; exact hs)) ?_
  intro l'' h''
  exact ⟨h''.1.advance ch, h''.2⟩

/-- A byte at the start of a line. -/
theorem step_begun (h : InHead n l) (hs : Place True l) (hlf : ch ≠ LF) (hn : n + 1 < 4294967296) :
    Stays (Begun (n + 1) ch) (step responseSettings ch l) := by
  rcases hs with hs | ⟨-, hs⟩
  · exact (step_inReply h hs hn).mono fun _ => Next.begun
  · have hrun : l.run = 0 := by
      by_contra hne
      rcases h.inner hne with heq | heq
      · rw [heq] at hs
        exact nomatch hs
      · rw [heq] at hs
        exact nomatch hs
    unfold step
    refine Stays.bind (countByte_ready h hn) ?_
    intro l' hl'
    obtain ⟨h', hstate, hrun'⟩ := hl'
    refine Stays.bind (dispatch_lineStart h' (hrun'.trans hrun) (by rw [hstate]; exact hs) hlf) ?_
    intro l'' h''
    exact ⟨h''.1.advance ch, h''.2⟩

theorem InHead.inReply (h : InHead n l) (hrun : l.run ≠ 0) : l.state.inReply = true := by
  rcases h.inner hrun with heq | heq
  · rw [heq]; rfl
  · rw [heq]; rfl

/-- At the limit another byte stops the loop or is taken by an inner loop. -/
theorem step_over (h : InHead n l) (hmax : maxHeaderSize.toNat ≤ n) (hn : n + 1 < 4294967296) :
    Stays (InHead (n + 1)) (step responseSettings ch l) := by
  by_cases hrun : l.run = 0
  · have hcount := h.count
    rw [if_pos hrun] at hcount
    have hsize : maxHeaderSize.toNat = 81920 := rfl
    unfold step
    refine Stays.bind (P := fun _ => False) ?_ (fun _ hfalse => hfalse.elim)
    unfold Loop.countByte
    rw [if_pos ⟨h.header, hrun⟩]
    refine stays_count h.unfinished (by omega) ?_
    intro k hk hfits
    omega
  · exact (step_inReply h (h.inReply hrun) hn).mono fun _ h' => h'.1

/-! ## Stretches of bytes -/

/-- A stretch of bytes leads to a state with `P`, or stops before any message has been completed. -/
def Kept (P : Loop (Handler HttpResponse) → Prop) :
    Except (Stop (Handler HttpResponse) × Nat) (Loop (Handler HttpResponse)) → Prop
  | .ok l => P l
  | .error (s, _) => s.user.finished = false

theorem kept_append {P Q : Loop (Handler HttpResponse) → Prop} {xs ys : Bytes}
    (hxs : Kept P (scan (step responseSettings) xs l))
    (hys : ∀ l', P l' → Kept Q (scan (step responseSettings) ys l')) :
    Kept Q (scan (step responseSettings) (xs ++ ys) l) := by
  rw [scan_append]
  cases hscan : scan (step responseSettings) xs l with
  | ok l' =>
    rw [hscan] at hxs
    exact hys l' hxs
  | error e =>
    rw [hscan] at hxs
    exact hxs

theorem kept_cons {P Q : Loop (Handler HttpResponse) → Prop} {rest : Bytes}
    (hstep : Stays P (step responseSettings ch l))
    (hrest : ∀ l', P l' → Kept Q (scan (step responseSettings) rest l')) :
    Kept Q (scan (step responseSettings) (ch :: rest) l) := by
  rw [scan]
  cases hone : step responseSettings ch l with
  | ok l' =>
    rw [hone] at hstep
    exact hrest l' hstep
  | error s =>
    rw [hone] at hstep
    exact hstep

/-- Behind the limit nothing completes a message any more. -/
theorem scan_over : ∀ (bytes : Bytes) (n : Nat) (l : Loop (Handler HttpResponse)), InHead n l →
    maxHeaderSize.toNat < n → n + bytes.length < 4294967296 →
    Kept Unfinished (scan (step responseSettings) bytes l) := by
  intro bytes
  induction bytes with
  | nil => intro n l h _ _; exact h.unfinished
  | cons b rest ih =>
    intro n l h hmax hsmall
    rw [List.length_cons] at hsmall
    refine kept_cons (step_over h (by omega) (by omega)) ?_
    intro l' h'
    exact ih (n + 1) l' h' (by omega) (by omega)

/-- The bytes of a line, once it has begun. -/
theorem scan_inReply : ∀ (bytes : Bytes) (n : Nat) (l : Loop (Handler HttpResponse)), InHead n l →
    l.state.inReply = true → (∀ b ∈ bytes, b ≠ LF) → n + bytes.length < 4294967296 →
    Kept (fun l' => InHead (n + bytes.length) l' ∧ l'.state.inReply = true)
      (scan (step responseSettings) bytes l) := by
  intro bytes
  induction bytes with
  | nil => intro n l h hs _ _; exact ⟨h, hs⟩
  | cons b rest ih =>
    intro n l h hs hlf hsmall
    rw [List.length_cons] at hsmall ⊢
    obtain ⟨hb, hrest⟩ := List.forall_mem_cons.mp hlf
    refine kept_cons (step_inReply h hs (by omega)) ?_
    intro l' hl'
    obtain ⟨h', hplace⟩ := hl'
    have hs' : l'.state.inReply = true := hplace.resolve_right fun hend => hb hend.1
    rw [← Nat.add_assoc, Nat.add_right_comm]
    exact ih (n + 1) l' h' hs' hrest (by omega)

/-- A line that is not empty, with its LF. -/
def IsLine (bytes : Bytes) : Prop :=
  ∃ c cs, bytes = c :: (cs ++ [LF]) ∧ c ≠ CR ∧ c ≠ LF ∧ ∀ b ∈ cs, b ≠ LF

theorem scan_line {bytes : Bytes} (hline : IsLine bytes) (h : InHead n l) (hs : Place True l)
    (hsmall : n + bytes.length < 4294967296) :
    Kept (fun l' => InHead (n + bytes.length) l' ∧ Place True l') (scan (step responseSettings) bytes l) := by
  obtain ⟨c, cs, rfl, hcr, hlf, hcs⟩ := hline
  rw [List.length_cons, List.length_append, List.length_singleton] at hsmall ⊢
  refine kept_cons (step_begun h hs hlf (by omega)) ?_
  intro l₁ hl₁
  obtain ⟨h₁, hplace⟩ := hl₁
  have hs₁ : l₁.state.inReply = true := (hplace hcr).resolve_right fun hend => hlf hend.1
  refine kept_append (scan_inReply cs (n + 1) l₁ h₁ hs₁ hcs (by omega)) ?_
  intro l₂ hl₂
  obtain ⟨h₂, hs₂⟩ := hl₂
  refine kept_cons (step_inReply h₂ hs₂ (by omega)) ?_
  intro l₃ hl₃
  obtain ⟨h₃, hplace₃⟩ := hl₃
  have hlen : n + (cs.length + 1 + 1) = n + 1 + cs.length + 1 := by omega
  rw [hlen]
  exact ⟨h₃, hplace₃.imp_right fun hend => ⟨trivial, hend.2⟩⟩

theorem scan_lines : ∀ (lines : List Bytes) (n : Nat) (l : Loop (Handler HttpResponse)), (∀ x ∈ lines, IsLine x) →
    InHead n l → Place True l → n + lines.flatten.length < 4294967296 →
    Kept (fun l' => InHead (n + lines.flatten.length) l' ∧ Place True l')
      (scan (step responseSettings) lines.flatten l) := by
  intro lines
  induction lines with
  | nil => intro n l _ h hs _; exact ⟨h, hs⟩
  | cons line rest ih =>
    intro n l hlines h hs hsmall
    obtain ⟨hline, hrest⟩ := List.forall_mem_cons.mp hlines
    rw [List.flatten_cons, List.length_append] at hsmall ⊢
    refine kept_append (scan_line hline h hs (by omega)) ?_
    intro l' hl'
    obtain ⟨h', hs'⟩ := hl'
    rw [← Nat.add_assoc]
    exact ih (n + line.length) l' hrest h' hs' (by omega)

/-- A head that is too long completes no message, whatever comes behind it. -/
theorem scan_long {lines : List Bytes} {body : Bytes} (hlines : ∀ x ∈ lines, IsLine x) (h : InHead 0 l)
    (hs : Place True l) (hmax : maxHeaderSize.toNat < lines.flatten.length + 2)
    (hsmall : lines.flatten.length + 2 + body.length < 4294967296) :
    Kept Unfinished (scan (step responseSettings) (lines.flatten ++ ([CR, LF] ++ body)) l) := by
  refine kept_append (scan_lines lines 0 l hlines h hs (by omega)) ?_
  intro l₁ hl₁
  obtain ⟨h₁, hs₁⟩ := hl₁
  rw [Nat.zero_add] at h₁
  -- the empty line: the CR may begin it, the LF does not fit any more
  refine kept_cons (step_begun h₁ hs₁ (by decide) (by omega)) ?_
  intro l₂ hl₂
  obtain ⟨h₂, -⟩ := hl₂
  refine kept_cons (step_over h₂ (by omega) (by omega)) ?_
  intro l₃ h₃
  exact scan_over body _ l₃ h₃ hmax hsmall

/-! ## The end of the buffer -/

theorem leave_stays (h : Unfinished l) : Stays Unfinished (leave responseSettings l) := by
  have hcb : ∀ (m : Mark) (l : Loop (Handler HttpResponse)), Unfinished l →
      Stays Unfinished (l.callback responseSettings m 0) := by
    intro m l h
    exact stays_callback h (fun _ _ hu => hu) m 0
  have hend : Stays Unfinished l.endRun := by
    unfold Loop.endRun
    split
    · exact h
    · unfold Loop.countHeaderSize
      dsimp only
      split
      · exact h
      · exact h
  unfold leave
  refine hend.bind fun l h => ?_
  refine (hcb .header_field l h).bind fun l h => ?_
  refine (hcb .header_value l h).bind fun l h => ?_
  refine (hcb .url l h).bind fun l h => ?_
  refine (hcb .body l h).bind fun l h => ?_
  exact hcb .status l h

theorem consume_unfinished {data : Bytes} (h : Kept Unfinished (scan (step responseSettings) data l)) :
    (consume responseSettings data l).2.2.finished = false := by
  unfold consume
  cases hscan : scan (step responseSettings) data l with
  | error e =>
    rw [hscan] at h
    exact h
  | ok l' =>
    rw [hscan] at h
    have hleave := leave_stays h
    dsimp only
    cases hl : leave responseSettings l' with
    | ok l'' =>
      rw [hl] at hleave
      exact hleave
    | error s =>
      rw [hl] at hleave
      exact hleave

end

end Sylar.Http
