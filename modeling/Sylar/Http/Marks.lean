import Mathlib.Data.List.Basic
import Sylar.Lib.Stream
import Sylar.Http.Execute

/- Which marks can be set in which state of `http_parser_execute`.

   `Tidy` says that the mark the head of a call would set is set, that no other is
   but the one of the body in the states that read a body, and that the inner
   loops run in their own states only. It holds when a call starts
   (`tidy_enter`) and every byte keeps it (`step_tidy`), so at the end of the buffer
   at most one mark is set, as the source asserts there. -/
namespace Sylar.Http
open Sylar.Lib

/-- The states that collect data for `on_body`. -/
def State.inBody : State → Bool
  | .s_chunk_data | .s_chunk_data_almost_done | .s_body_identity | .s_body_identity_eof => true
  | _ => false

section
variable {σ : Type} {l : Loop σ} {st : Settings σ} {ch : UInt8}

structure Tidy (l : Loop σ) : Prop where
  set : ∀ m, l.state.marked = some m → (l.marks m).isSome
  unset : ∀ m, (l.marks m).isSome → l.state.marked = some m ∨ m = .body ∧ l.state.inBody
  run : l.run ≠ 0 → l.state = .s_header_field ∨ l.state = .s_header_value
  scanned : l.scanned ≠ 0 → l.state = .s_header_value

/-- No inner loop runs, and no mark but `m` is set. -/
structure Only (m : Mark) (l : Loop σ) : Prop where
  marks : ∀ k, k ≠ m → l.marks k = none
  run : l.run = 0
  scanned : l.scanned = 0

/-- No inner loop runs, no mark is set, and the state does not want one. -/
structure Clear (l : Loop σ) : Prop where
  marks : ∀ m, l.marks m = none
  run : l.run = 0
  scanned : l.scanned = 0
  marked : l.state.marked = none

theorem Clear.tidy (h : Clear l) : Tidy l where
  set := by simp [h.marked]
  unset := by simp [h.marks]
  run := by simp [h.run]
  scanned := by simp [h.scanned]

theorem Clear.only (h : Clear l) (m : Mark) : Only m l where
  marks := fun k _ => h.marks k
  run := h.run
  scanned := h.scanned

theorem Only.tidy {m : Mark} (h : Only m l) (hset : (l.marks m).isSome) (hm : l.state.marked = some m) :
    Tidy l where
  set := by
    intro k hk
    rw [hm, Option.some_inj] at hk
    rwa [← hk]
  unset := by
    intro k hk
    by_cases hkm : k = m
    · exact Or.inl (by rw [hm, hkm])
    · simp [h.marks k hkm] at hk
  run := by simp [h.run]
  scanned := by simp [h.scanned]

theorem Only.tidy_body (h : Only .body l) (hb : l.state.inBody = true) : Tidy l where
  set := by
    intro k hk
    cases hs : l.state <;> rw [hs] at hk hb <;> simp_all [State.marked, State.inBody]
  unset := by
    intro k hk
    by_cases hkm : k = .body
    · exact Or.inr ⟨hkm, hb⟩
    · simp [h.marks k hkm] at hk
  run := by simp [h.run]
  scanned := by simp [h.scanned]

/-- A state's own mark is the only one that is set in it. -/
theorem Tidy.others (h : Tidy l) {m : Mark} (hm : l.state.marked = some m) :
    ∀ k, k ≠ m → l.marks k = none := by
  intro k hk
  by_contra hne
  have hsome : (l.marks k).isSome := Option.isSome_iff_ne_none.mpr hne
  rcases h.unset k hsome with hs | ⟨rfl, hb⟩
  · rw [hm, Option.some_inj] at hs
    exact hk hs.symm
  · cases hs : l.state <;> rw [hs] at hm hb <;> simp_all [State.marked, State.inBody]

theorem Tidy.still (h : Tidy l) (hf : l.state ≠ .s_header_field) (hv : l.state ≠ .s_header_value) :
    l.run = 0 ∧ l.scanned = 0 := by
  constructor
  · by_contra hr
    rcases h.run hr with hs | hs
    · exact hf hs
    · exact hv hs
  · by_contra hr
    exact hv (h.scanned hr)

theorem Tidy.only (h : Tidy l) {m : Mark} (hm : l.state.marked = some m)
    (hf : l.state ≠ .s_header_field) (hv : l.state ≠ .s_header_value) : Only m l where
  marks := h.others hm
  run := (h.still hf hv).1
  scanned := (h.still hf hv).2

theorem Tidy.only_body (h : Tidy l) (hm : l.state.marked = none) : Only .body l where
  marks := by
    intro k hk
    by_contra hne
    rcases h.unset k (Option.isSome_iff_ne_none.mpr hne) with hs | ⟨hb, -⟩
    · rw [hm] at hs
      cases hs
    · exact hk hb
  run := (h.still (by rintro hs; rw [hs] at hm; cases hm) (by rintro hs; rw [hs] at hm; cases hm)).1
  scanned := (h.still (by rintro hs; rw [hs] at hm; cases hm) (by rintro hs; rw [hs] at hm; cases hm)).2

theorem Tidy.clear (h : Tidy l) (hm : l.state.marked = none) (hb : l.state.inBody = false) : Clear l where
  marks := by
    intro m
    by_cases hmb : m = .body
    · by_contra hne
      rcases h.unset m (Option.isSome_iff_ne_none.mpr hne) with hs | ⟨-, hb'⟩
      · rw [hm] at hs
        cases hs
      · rw [hb] at hb'
        cases hb'
    · exact (h.only_body hm).marks m hmb
  run := (h.only_body hm).run
  scanned := (h.only_body hm).scanned
  marked := hm

theorem tidy_enter (parser : Fields) (user : σ) : Tidy (enter parser user) where
  set := by
    intro m hm
    have hm : parser.state.marked = some m := hm
    simp [enter, hm]
  unset := by
    intro m hm
    by_cases hs : parser.state.marked = some m
    · exact Or.inl hs
    · simp [enter, hs] at hm
  run := by simp [enter]
  scanned := by simp [enter]

/-! ## The macros -/

@[simp] theorem yields_stop {P : Loop σ → Prop} {e : HttpErrno} {n : Nat} : Yields P (l.stop e n) :=
  yields_error

@[simp] theorem yields_fail {P : Loop σ → Prop} {e : HttpErrno} : Yields P (l.fail e) := yields_error

theorem Clear.update (h : Clear l) {l' : Loop σ} (hmarks : l'.marks = l.marks) (hrun : l'.run = l.run)
    (hscanned : l'.scanned = l.scanned) (hm : l'.state.marked = none) : Clear l' where
  marks := by rw [hmarks]; exact h.marks
  run := by rw [hrun]; exact h.run
  scanned := by rw [hscanned]; exact h.scanned
  marked := hm

theorem Clear.notify (h : Clear l) (cb : HttpCb σ) (er : HttpErrno) (n : Nat) :
    Yields Clear (l.notify cb er n) := by
  unfold Loop.notify
  dsimp only
  split
  · exact yields_ok.mpr (h.update rfl rfl rfl h.marked)
  · exact yields_stop

theorem Clear.expect (h : Clear l) {c : UInt8} {s : State} (hs : s.marked = none) :
    Yields Clear (l.expect ch c s) := by
  unfold Loop.expect
  split
  · exact yields_fail
  · exact yields_ok.mpr (h.update rfl rfl rfl hs)

theorem countHeaderSize_yields {P : Loop σ → Prop} (h : ∀ n, P { l with nread := n }) (v : Nat) :
    Yields P (l.countHeaderSize v) := by
  unfold Loop.countHeaderSize
  dsimp only
  split
  · exact yields_fail
  · exact yields_ok.mpr (h _)

/-- A callback clears its mark. -/
theorem Only.callback {m : Mark} (h : Only m l) (hm : l.state.marked = none) (n : Nat) :
    Yields Clear (l.callback st m n) := by
  unfold Loop.callback
  split
  · rename_i hnone
    refine yields_ok.mpr ⟨?_, h.run, h.scanned, hm⟩
    intro k
    by_cases hk : k = m
    · rw [hk, hnone]
    · exact h.marks k hk
  · dsimp only
    split
    · refine yields_ok.mpr ⟨?_, h.run, h.scanned, hm⟩
      intro k
      by_cases hk : k = m
      · simp [Loop.setMark, hk]
      · simp [Loop.setMark, hk, h.marks k hk]
    · exact yields_stop

theorem Only.callback_tidy {m : Mark} {n : Nat} (h : Only m l) (hm : l.state.marked = none) :
    Yields Tidy (l.callback st m n) := (h.callback hm n).mono fun _ => Clear.tidy

theorem Only.mark {m : Mark} (h : Only m l) : Only m (l.mark m) where
  marks := by
    intro k hk
    simp [Loop.mark, Loop.setMark, hk, h.marks k hk]
  run := h.run
  scanned := h.scanned

theorem Only.update {m : Mark} (h : Only m l) {l' : Loop σ} (hmarks : l'.marks = l.marks)
    (hrun : l'.run = l.run) (hscanned : l'.scanned = l.scanned) : Only m l' where
  marks := by rw [hmarks]; exact h.marks
  run := by rw [hrun]; exact h.run
  scanned := by rw [hscanned]; exact h.scanned

@[simp] theorem mark_isSome (l : Loop σ) (m : Mark) : ((l.mark m).marks m).isSome := by
  simp [Loop.mark, Loop.setMark]

theorem advance_tidy (h : Tidy l) : Tidy (l.advance ch) where
  set := fun m hm => by simpa [Loop.advance] using h.set m hm
  unset := fun m hm => h.unset m (by simpa [Loop.advance] using hm)
  run := h.run
  scanned := h.scanned

/-! ## The start line -/

theorem dead_clear (h : Clear l) : Yields Clear (dead ch l) := by
  unfold dead
  split
  · exact yields_ok.mpr h
  · exact yields_fail

theorem startReq_clear (h : Clear l) : Yields Clear (startReq st ch l) := by
  unfold startReq
  split
  · exact yields_ok.mpr h
  · dsimp only
    split
    · exact yields_fail
    · split
      · exact yields_fail
      · apply Clear.notify
        exact h.update rfl rfl rfl rfl

theorem startRes_clear (h : Clear l) : Yields Clear (startRes st ch l) := by
  unfold startRes
  split
  · exact yields_ok.mpr h
  · dsimp only
    split
    · apply Clear.notify
      exact h.update rfl rfl rfl rfl
    · exact yields_fail

theorem startReqOrRes_clear (h : Clear l) : Yields Clear (startReqOrRes st ch l) := by
  unfold startReqOrRes
  split
  · exact yields_ok.mpr h
  · dsimp only
    split
    · apply Clear.notify
      exact h.update rfl rfl rfl rfl
    · exact startReq_clear (h.update rfl rfl rfl rfl)

theorem resOrRespH_clear (h : Clear l) : Yields Clear (resOrRespH ch l) := by
  unfold resOrRespH
  split
  · exact yields_ok.mpr (h.update rfl rfl rfl rfl)
  · split
    · exact yields_fail
    · exact yields_ok.mpr (h.update rfl rfl rfl rfl)

theorem reqMethod_clear (h : Clear l) : Yields Clear (reqMethod ch l) := by
  unfold reqMethod
  split
  · exact yields_fail
  · dsimp only
    split
    · exact yields_ok.mpr (h.update rfl rfl rfl rfl)
    · split
      · exact yields_ok.mpr (h.update rfl rfl rfl h.marked)
      · split
        · split
          · exact yields_ok.mpr (h.update rfl rfl rfl h.marked)
          · exact yields_fail
        · exact yields_fail

theorem reqHttpStart_clear (h : Clear l) : Yields Clear (reqHttpStart ch l) := by
  unfold reqHttpStart
  split
  · exact yields_ok.mpr h
  · split
    · exact yields_ok.mpr (h.update rfl rfl rfl rfl)
    · split
      · exact yields_ok.mpr (h.update rfl rfl rfl rfl)
      · exact yields_fail

theorem httpMajor_clear (h : Clear l) {s : State} (hs : s.marked = none) :
    Yields Clear (httpMajor s ch l) := by
  unfold httpMajor
  split
  · exact yields_fail
  · exact yields_ok.mpr (h.update rfl rfl rfl hs)

theorem httpPunct_clear (h : Clear l) {c : UInt8} {s : State} (hs : s.marked = none) :
    Yields Clear (httpPunct c s ch l) := by
  unfold httpPunct
  split
  · exact yields_fail
  · exact yields_ok.mpr (h.update rfl rfl rfl hs)

theorem httpMinor_clear (h : Clear l) {s : State} (hs : s.marked = none) :
    Yields Clear (httpMinor s ch l) := by
  unfold httpMinor
  split
  · exact yields_fail
  · exact yields_ok.mpr (h.update rfl rfl rfl hs)

theorem reqHttpEnd_clear (h : Clear l) : Yields Clear (reqHttpEnd ch l) := by
  unfold reqHttpEnd
  split
  · exact yields_ok.mpr (h.update rfl rfl rfl rfl)
  · split
    · exact yields_ok.mpr (h.update rfl rfl rfl rfl)
    · exact yields_fail

theorem reqLineAlmostDone_clear (h : Clear l) : Yields Clear (reqLineAlmostDone ch l) := by
  unfold reqLineAlmostDone
  split
  · exact yields_fail
  · exact yields_ok.mpr (h.update rfl rfl rfl rfl)

theorem resFirstStatusCode_clear (h : Clear l) : Yields Clear (resFirstStatusCode ch l) := by
  unfold resFirstStatusCode
  split
  · split
    · exact yields_ok.mpr h
    · exact yields_fail
  · exact yields_ok.mpr (h.update rfl rfl rfl rfl)

theorem resStatus_tidy (h : Only .status l) (hset : (l.marks .status).isSome)
    (hs : l.state = .s_res_status) : Yields Tidy (resStatus st ch l) := by
  unfold resStatus
  split
  · apply Only.callback_tidy
    · exact h.update rfl rfl rfl
    · rfl
  · split
    · apply Only.callback_tidy
      · exact h.update rfl rfl rfl
      · rfl
    · exact yields_ok.mpr (h.tidy hset (by rw [hs]; rfl))

theorem resStatusStart_tidy (h : Clear l) : Yields Tidy (resStatusStart st ch l) := by
  have hm : Only .status { l.mark .status with state := .s_res_status, index := 0 } :=
    (h.only .status).mark.update rfl rfl rfl
  unfold resStatusStart
  dsimp only
  split
  · exact resStatus_tidy hm (mark_isSome l .status) rfl
  · exact yields_ok.mpr (hm.tidy (mark_isSome l .status) rfl)

theorem resStatusCode_tidy (h : Clear l) : Yields Tidy (resStatusCode st ch l) := by
  unfold resStatusCode
  split
  · split
    · exact yields_ok.mpr (Clear.tidy (h.update rfl rfl rfl rfl))
    · split
      · exact resStatusStart_tidy (h.update rfl rfl rfl rfl)
      · exact yields_fail
  · dsimp only
    split
    · exact yields_fail
    · exact yields_ok.mpr (Clear.tidy (h.update rfl rfl rfl h.marked))

/-- The states of a URL are those in which its mark is set. -/
theorem parseUrlChar_marked (s : State) (ch : UInt8) :
    parseUrlChar s ch = .s_dead ∨ (parseUrlChar s ch).marked = some .url := by
  unfold parseUrlChar
  repeat' split
  all_goals simp [State.marked]

theorem urlChar_tidy (h : Only .url l) (hset : (l.marks .url).isSome) : Yields Tidy (urlChar ch l) := by
  unfold urlChar
  dsimp only
  split
  · exact yields_fail
  · rename_i hd
    refine yields_ok.mpr (Only.tidy ?_ hset ?_)
    · exact h.update rfl rfl rfl
    · exact (parseUrlChar_marked l.state ch).resolve_left hd

theorem reqSpacesBeforeUrl_tidy (h : Clear l) : Yields Tidy (reqSpacesBeforeUrl ch l) := by
  unfold reqSpacesBeforeUrl
  split
  · exact yields_ok.mpr h.tidy
  · exact urlChar_tidy ((h.only .url).mark.update rfl rfl rfl) (mark_isSome l .url)

theorem reqServerStart_tidy (h : Only .url l) (hset : (l.marks .url).isSome) :
    Yields Tidy (reqServerStart ch l) := by
  unfold reqServerStart
  split
  · exact yields_fail
  · exact urlChar_tidy h hset

theorem reqUrl_tidy (h : Only .url l) (hset : (l.marks .url).isSome) : Yields Tidy (reqUrl st ch l) := by
  unfold reqUrl
  split
  · apply Only.callback_tidy
    · exact h.update rfl rfl rfl
    · rfl
  · split
    · apply Only.callback_tidy
      · exact h.update rfl rfl rfl
      · dsimp only
        split <;> rfl
    · exact urlChar_tidy h hset

/-! ## The end of a message -/

theorem newMessage_marked (parser : Fields) : (newMessage parser).marked = none := by
  unfold newMessage
  split
  · split <;> rfl
  · rfl

theorem messageComplete_clear (h : Clear l) : Yields Clear (messageComplete st l) := by
  unfold messageComplete
  apply Clear.notify
  exact h.update rfl rfl rfl (newMessage_marked _)

theorem messageDone_clear (h : Clear l) : Yields Clear (messageDone st l) := by
  unfold messageDone
  refine (messageComplete_clear h).bind ?_
  intro l h
  split
  · exact yields_stop
  · exact yields_ok.mpr h

theorem headersDone_clear (h : Clear l) : Yields Clear (headersDone st ch l) := by
  have h0 : Clear { l with nread := 0 } := h.update rfl rfl rfl h.marked
  unfold headersDone
  split
  · exact yields_fail
  · dsimp only
    split
    · refine (messageComplete_clear h0).bind ?_
      intro l _
      exact yields_stop
    · split
      · exact messageComplete_clear h0
      · split
        · exact yields_ok.mpr (h.update rfl rfl rfl rfl)
        · split
          · exact messageComplete_clear h0
          · split
            · exact yields_ok.mpr (h.update rfl rfl rfl rfl)
            · split
              · exact messageComplete_clear h0
              · exact yields_ok.mpr (h.update rfl rfl rfl rfl)

theorem headersComplete_clear (h : Clear l) : Yields Clear (headersComplete st l) := by
  unfold headersComplete
  dsimp only
  split
  · exact yields_ok.mpr (h.update rfl rfl rfl h.marked)
  · split
    · exact yields_ok.mpr (h.update rfl rfl rfl h.marked)
    · split
      · exact yields_ok.mpr (h.update rfl rfl rfl h.marked)
      · exact yields_stop

theorem headersAlmostDone_clear (h : Clear l) : Yields Clear (headersAlmostDone st ch l) := by
  unfold headersAlmostDone
  split
  · exact yields_fail
  · split
    · refine Yields.bind (Clear.notify ?_ _ _ _) fun _ => messageDone_clear
      exact h.update rfl rfl rfl rfl
    · split
      · exact yields_fail
      · refine Yields.bind (headersComplete_clear ?_) fun _ => headersDone_clear
        exact h.update rfl rfl rfl rfl

/-! ## Headers -/

theorem headerFieldStart_tidy (h : Clear l) : Yields Tidy (headerFieldStart st ch l) := by
  unfold headerFieldStart
  split
  · exact yields_ok.mpr (Clear.tidy (h.update rfl rfl rfl rfl))
  · split
    · refine (headersAlmostDone_clear ?_).mono fun _ => Clear.tidy
      exact h.update rfl rfl rfl rfl
    · split
      · exact yields_fail
      · refine yields_ok.mpr (Only.tidy ?_ (mark_isSome l .header_field) rfl)
        exact (h.only .header_field).mark.update rfl rfl rfl

theorem fieldChar_same (ch : UInt8) (l : Loop σ) :
    (fieldChar ch l).state = l.state ∧ (fieldChar ch l).marks = l.marks ∧
      (fieldChar ch l).scanned = l.scanned := by
  unfold fieldChar
  dsimp only
  split <;> (try split) <;> exact ⟨rfl, rfl, rfl⟩

theorem headerField_tidy (h : Tidy l) (hs : l.state = .s_header_field) :
    Yields Tidy (headerField st ch l) := by
  unfold headerField
  split
  · obtain ⟨hstate, hmarks, hscanned⟩ := fieldChar_same ch l
    refine yields_ok.mpr ⟨?_, ?_, ?_, ?_⟩
    · intro m hm
      dsimp only at hm ⊢
      rw [hstate] at hm
      rw [hmarks]
      exact h.set m hm
    · intro m hm
      dsimp only at hm ⊢
      rw [hmarks] at hm
      rw [hstate]
      exact h.unset m hm
    · intro _
      exact Or.inl (hstate.trans hs)
    · intro hsc
      dsimp only at hsc ⊢
      rw [hscanned] at hsc
      rw [hstate]
      exact h.scanned hsc
  · have hsc : l.scanned = 0 := by
      by_contra hsc
      have := h.scanned hsc
      rw [hs] at this
      cases this
    have hm : ∀ k, k ≠ .header_field → l.marks k = none := h.others (by rw [hs]; rfl)
    refine Yields.bind (countHeaderSize_yields (P := Only .header_field) ?_ _) ?_
    · intro n
      exact ⟨hm, rfl, hsc⟩
    · intro l h
      split
      · apply Only.callback_tidy
        · exact h.update rfl rfl rfl
        · rfl
      · exact yields_fail

theorem headerValueStart_tidy (h : Clear l) : Yields Tidy (headerValueStart ch l) := by
  have hm : Only .header_value { l.mark .header_value with state := .s_header_value, index := 0 } :=
    (h.only .header_value).mark.update rfl rfl rfl
  unfold headerValueStart
  dsimp only
  split
  case h_3 =>
    split
    · exact yields_fail
    · split
      · exact yields_fail
      · exact yields_ok.mpr (Only.tidy (hm.update rfl rfl rfl) (mark_isSome l .header_value) rfl)
  all_goals exact yields_ok.mpr (Only.tidy (hm.update rfl rfl rfl) (mark_isSome l .header_value) rfl)

theorem headerValueDiscardWs_tidy (h : Clear l) : Yields Tidy (headerValueDiscardWs ch l) := by
  unfold headerValueDiscardWs
  split
  · exact yields_ok.mpr h.tidy
  · split
    · exact yields_ok.mpr (Clear.tidy (h.update rfl rfl rfl rfl))
    · split
      · exact yields_ok.mpr (Clear.tidy (h.update rfl rfl rfl rfl))
      · exact headerValueStart_tidy h

/-- The body of the loop over a header's value leaves the marks alone and stays in its state. -/
def InValue (l l' : Loop σ) : Prop := l'.state = l.state ∧ l'.marks = l.marks

theorem contentLengthNum_inValue : Yields (InValue l) (contentLengthNum ch l) := by
  unfold contentLengthNum
  split
  · exact yields_ok.mpr ⟨rfl, rfl⟩
  · split
    · exact yields_fail
    · split
      · exact yields_fail
      · exact yields_ok.mpr ⟨rfl, rfl⟩

theorem valueChar_inValue (hs : l.state = .s_header_value) : Yields (InValue l) (valueChar ch l) := by
  unfold valueChar
  dsimp only
  split
  case h_4 =>
    split
    · exact yields_ok.mpr ⟨rfl, rfl⟩
    · exact contentLengthNum_inValue
  case h_5 => exact contentLengthNum_inValue
  all_goals repeat' split
  all_goals first
    | exact yields_ok.mpr ⟨rfl, rfl⟩
    | exact yields_ok.mpr ⟨hs.symm, rfl⟩
    | exact yields_fail

theorem headerAlmostDone_clear (h : Clear l) : Yields Clear (headerAlmostDone ch l) := by
  unfold headerAlmostDone
  split
  · exact yields_fail
  · exact yields_ok.mpr (h.update rfl rfl rfl rfl)

theorem headerValue_tidy (h : Tidy l) (hs : l.state = .s_header_value) :
    Yields Tidy (headerValue st ch l) := by
  have hm : ∀ k, k ≠ .header_value → l.marks k = none := h.others (by rw [hs]; rfl)
  -- a loop that goes on has its marks and its state as before
  have hgo : ∀ l' : Loop σ, InValue l l' → Tidy l' := by
    rintro l' ⟨hstate, hmarks⟩
    refine ⟨?_, ?_, fun _ => Or.inr (hstate.trans hs), fun _ => hstate.trans hs⟩
    · rw [hstate, hmarks]
      exact h.set
    · rw [hstate, hmarks]
      exact h.unset
  unfold headerValue
  split
  · exact yields_ok.mpr (hgo _ ⟨rfl, rfl⟩)
  · split
    · refine Yields.bind (Only.callback ?_ rfl 0) ?_
      · exact ⟨hm, rfl, rfl⟩
      · intro l h
        apply countHeaderSize_yields
        exact fun n => Clear.tidy (h.update rfl rfl rfl h.marked)
    · split
      · refine Yields.bind (countHeaderSize_yields (P := fun l => Only .header_value l ∧
          l.state.marked = none) ?_ _) ?_
        · exact fun n => ⟨⟨hm, rfl, rfl⟩, rfl⟩
        · rintro l ⟨h, hmk⟩
          refine (h.callback hmk 1).bind ?_
          intro l h
          exact (headerAlmostDone_clear h).mono fun _ => Clear.tidy
      · split
        · exact yields_fail
        · refine (valueChar_inValue hs).bind ?_
          intro l' hl'
          exact yields_ok.mpr (hgo _ ⟨hl'.1, hl'.2⟩)

theorem headerValueLws_tidy (h : Clear l) : Yields Tidy (headerValueLws st ch l) := by
  unfold headerValueLws
  split
  · apply headerValueStart_tidy
    exact h.update rfl rfl rfl rfl
  · apply headerFieldStart_tidy
    exact h.update rfl rfl rfl rfl

theorem headerValueDiscardLws_tidy (h : Clear l) : Yields Tidy (headerValueDiscardLws st ch l) := by
  unfold headerValueDiscardLws
  split
  · exact yields_ok.mpr (Clear.tidy (h.update rfl rfl rfl rfl))
  · split
    · exact yields_fail
    · refine Yields.bind (Only.callback (Only.mark ?_) rfl 1) fun _ => headerFieldStart_tidy
      exact (h.only .header_value).update rfl rfl rfl

/-! ## Bodies -/

theorem bodyIdentity_tidy (h : Only .body l) (hs : l.state = .s_body_identity) :
    Yields Tidy (bodyIdentity st ch l) := by
  unfold bodyIdentity
  dsimp only
  split
  · refine Yields.bind (Only.callback ?_ rfl 1) ?_
    · refine ⟨?_, h.run, h.scanned⟩
      intro k hk
      simp [Loop.setMark, Loop.mark, hk, h.marks k hk]
    · intro l h
      exact (messageDone_clear h).mono fun _ => Clear.tidy
  · refine yields_ok.mpr (Only.tidy_body (h.mark.update rfl rfl rfl) ?_)
    show l.state.inBody = true
    rw [hs]
    rfl

theorem bodyIdentityEof_tidy (h : Only .body l) (hs : l.state = .s_body_identity_eof) :
    Yields Tidy (bodyIdentityEof l) := by
  refine yields_ok.mpr (Only.tidy_body h.mark ?_)
  show l.state.inBody = true
  rw [hs]
  rfl

theorem chunkSizeStart_clear (h : Clear l) : Yields Clear (chunkSizeStart ch l) := by
  unfold chunkSizeStart
  split
  · exact yields_fail
  · exact yields_ok.mpr (h.update rfl rfl rfl rfl)

theorem chunkSize_clear (h : Clear l) : Yields Clear (chunkSize ch l) := by
  unfold chunkSize
  split
  · exact yields_ok.mpr (h.update rfl rfl rfl rfl)
  · split
    · split
      · exact yields_ok.mpr (h.update rfl rfl rfl rfl)
      · exact yields_fail
    · split
      · exact yields_fail
      · exact yields_ok.mpr (h.update rfl rfl rfl h.marked)

theorem chunkParameters_clear (h : Clear l) : Yields Clear (chunkParameters ch l) := by
  unfold chunkParameters
  split
  · exact yields_ok.mpr (h.update rfl rfl rfl rfl)
  · exact yields_ok.mpr h

theorem chunkSizeAlmostDone_clear (h : Clear l) : Yields Clear (chunkSizeAlmostDone st ch l) := by
  unfold chunkSizeAlmostDone
  split
  · exact yields_fail
  · dsimp only
    apply Clear.notify
    split
    · exact h.update rfl rfl rfl rfl
    · exact h.update rfl rfl rfl rfl

theorem chunkData_tidy (h : Only .body l) (hs : l.state = .s_chunk_data) : Yields Tidy (chunkData l) := by
  unfold chunkData
  dsimp only
  split
  · exact yields_ok.mpr (Only.tidy_body (h.mark.update rfl rfl rfl) rfl)
  · refine yields_ok.mpr (Only.tidy_body (h.mark.update rfl rfl rfl) ?_)
    show l.state.inBody = true
    rw [hs]
    rfl

theorem chunkDataAlmostDone_tidy (h : Only .body l) : Yields Tidy (chunkDataAlmostDone st ch l) := by
  unfold chunkDataAlmostDone
  split
  · exact yields_fail
  · apply Only.callback_tidy
    · exact h.update rfl rfl rfl
    · rfl

theorem chunkDataDone_clear (h : Clear l) : Yields Clear (chunkDataDone st ch l) := by
  unfold chunkDataDone
  split
  · exact yields_fail
  · apply Clear.notify
    exact h.update rfl rfl rfl rfl

/-! ## The loop -/

theorem dispatch_tidy (h : Tidy l) : Yields Tidy (dispatch st ch l) := by
  have lift : ∀ {r : Except (Stop σ) (Loop σ)}, Yields Clear r → Yields Tidy r :=
    fun hr => hr.mono fun _ => Clear.tidy
  have clear : ∀ {s}, l.state = s → s.marked = none → s.inBody = false → Clear l := by
    rintro s rfl hm hb
    exact h.clear hm hb
  have body : ∀ {s}, l.state = s → s.marked = none → Only .body l := by
    rintro s rfl hm
    exact h.only_body hm
  have own : ∀ {s m}, l.state = s → s.marked = some m → s ≠ .s_header_field → s ≠ .s_header_value →
      Only m l ∧ (l.marks m).isSome := by
    rintro s m rfl hm hf hv
    exact ⟨h.only hm hf hv, h.set m hm⟩
  unfold dispatch
  cases hs : l.state with
  | s_dead => exact lift (dead_clear (clear hs rfl rfl))
  | s_start_req_or_res => exact lift (startReqOrRes_clear (clear hs rfl rfl))
  | s_res_or_resp_H => exact lift (resOrRespH_clear (clear hs rfl rfl))
  | s_start_res => exact lift (startRes_clear (clear hs rfl rfl))
  | s_res_H => exact lift ((clear hs rfl rfl).expect rfl)
  | s_res_HT => exact lift ((clear hs rfl rfl).expect rfl)
  | s_res_HTT => exact lift ((clear hs rfl rfl).expect rfl)
  | s_res_HTTP => exact lift ((clear hs rfl rfl).expect rfl)
  | s_res_http_major => exact lift (httpMajor_clear (clear hs rfl rfl) rfl)
  | s_res_http_dot => exact lift (httpPunct_clear (clear hs rfl rfl) rfl)
  | s_res_http_minor => exact lift (httpMinor_clear (clear hs rfl rfl) rfl)
  | s_res_http_end => exact lift (httpPunct_clear (clear hs rfl rfl) rfl)
  | s_res_first_status_code => exact lift (resFirstStatusCode_clear (clear hs rfl rfl))
  | s_res_status_code => exact resStatusCode_tidy (clear hs rfl rfl)
  | s_res_status_start => exact resStatusStart_tidy (clear hs rfl rfl)
  | s_res_status => exact resStatus_tidy (own hs rfl nofun nofun).1 (own hs rfl nofun nofun).2 hs
  | s_res_line_almost_done => exact lift ((clear hs rfl rfl).expect rfl)
  | s_start_req => exact lift (startReq_clear (clear hs rfl rfl))
  | s_req_method => exact lift (reqMethod_clear (clear hs rfl rfl))
  | s_req_spaces_before_url => exact reqSpacesBeforeUrl_tidy (clear hs rfl rfl)
  | s_req_schema => exact reqServerStart_tidy (own hs rfl nofun nofun).1 (own hs rfl nofun nofun).2
  | s_req_schema_slash => exact reqServerStart_tidy (own hs rfl nofun nofun).1 (own hs rfl nofun nofun).2
  | s_req_schema_slash_slash => exact reqServerStart_tidy (own hs rfl nofun nofun).1 (own hs rfl nofun nofun).2
  | s_req_server_start => exact reqServerStart_tidy (own hs rfl nofun nofun).1 (own hs rfl nofun nofun).2
  | s_req_server => exact reqUrl_tidy (own hs rfl nofun nofun).1 (own hs rfl nofun nofun).2
  | s_req_server_with_at => exact reqUrl_tidy (own hs rfl nofun nofun).1 (own hs rfl nofun nofun).2
  | s_req_path => exact reqUrl_tidy (own hs rfl nofun nofun).1 (own hs rfl nofun nofun).2
  | s_req_query_string_start => exact reqUrl_tidy (own hs rfl nofun nofun).1 (own hs rfl nofun nofun).2
  | s_req_query_string => exact reqUrl_tidy (own hs rfl nofun nofun).1 (own hs rfl nofun nofun).2
  | s_req_fragment_start => exact reqUrl_tidy (own hs rfl nofun nofun).1 (own hs rfl nofun nofun).2
  | s_req_fragment => exact reqUrl_tidy (own hs rfl nofun nofun).1 (own hs rfl nofun nofun).2
  | s_req_http_start => exact lift (reqHttpStart_clear (clear hs rfl rfl))
  | s_req_http_H => exact lift ((clear hs rfl rfl).expect rfl)
  | s_req_http_HT => exact lift ((clear hs rfl rfl).expect rfl)
  | s_req_http_HTT => exact lift ((clear hs rfl rfl).expect rfl)
  | s_req_http_HTTP => exact lift ((clear hs rfl rfl).expect rfl)
  | s_req_http_I => exact lift ((clear hs rfl rfl).expect rfl)
  | s_req_http_IC => exact lift ((clear hs rfl rfl).expect rfl)
  | s_req_http_major => exact lift (httpMajor_clear (clear hs rfl rfl) rfl)
  | s_req_http_dot => exact lift (httpPunct_clear (clear hs rfl rfl) rfl)
  | s_req_http_minor => exact lift (httpMinor_clear (clear hs rfl rfl) rfl)
  | s_req_http_end => exact lift (reqHttpEnd_clear (clear hs rfl rfl))
  | s_req_line_almost_done => exact lift (reqLineAlmostDone_clear (clear hs rfl rfl))
  | s_header_field_start => exact headerFieldStart_tidy (clear hs rfl rfl)
  | s_header_field => exact headerField_tidy h hs
  | s_header_value_discard_ws => exact headerValueDiscardWs_tidy (clear hs rfl rfl)
  | s_header_value_discard_ws_almost_done => exact lift ((clear hs rfl rfl).expect rfl)
  | s_header_value_discard_lws => exact headerValueDiscardLws_tidy (clear hs rfl rfl)
  | s_header_value_start => exact headerValueStart_tidy (clear hs rfl rfl)
  | s_header_value => exact headerValue_tidy h hs
  | s_header_value_lws => exact headerValueLws_tidy (clear hs rfl rfl)
  | s_header_almost_done => exact lift (headerAlmostDone_clear (clear hs rfl rfl))
  | s_chunk_size_start => exact lift (chunkSizeStart_clear (clear hs rfl rfl))
  | s_chunk_size => exact lift (chunkSize_clear (clear hs rfl rfl))
  | s_chunk_parameters => exact lift (chunkParameters_clear (clear hs rfl rfl))
  | s_chunk_size_almost_done => exact lift (chunkSizeAlmostDone_clear (clear hs rfl rfl))
  | s_headers_almost_done => exact lift (headersAlmostDone_clear (clear hs rfl rfl))
  | s_headers_done => exact lift (headersDone_clear (clear hs rfl rfl))
  | s_chunk_data => exact chunkData_tidy (body hs rfl) hs
  | s_chunk_data_almost_done => exact chunkDataAlmostDone_tidy (body hs rfl)
  | s_chunk_data_done => exact lift (chunkDataDone_clear (clear hs rfl rfl))
  | s_body_identity => exact bodyIdentity_tidy (body hs rfl) hs
  | s_body_identity_eof => exact bodyIdentityEof_tidy (body hs rfl) hs
  | s_message_done => exact lift (messageDone_clear (clear hs rfl rfl))

theorem Tidy.count (h : Tidy l) (v : Nat) : Yields Tidy (l.countHeaderSize v) :=
  countHeaderSize_yields (fun _ => ⟨h.set, h.unset, h.run, h.scanned⟩) v

/-- Every byte keeps the marks in order. -/
theorem step_tidy (st : Settings σ) (ch : UInt8) (l : Loop σ) (h : Tidy l) : Yields Tidy (step st ch l) := by
  have hcount : Yields Tidy l.countByte := by
    unfold Loop.countByte
    split
    · exact h.count 1
    · exact yields_ok.mpr h
  unfold step
  refine hcount.bind ?_
  intro l h
  refine (dispatch_tidy h).bind ?_
  intro l h
  exact yields_ok.mpr (advance_tidy h)

/-- And so does every stretch of a buffer. -/
theorem scan_tidy (st : Settings σ) (parser : Fields) (user : σ) (data : Bytes) :
    Yields Tidy (scan (step st) data (enter parser user)) :=
  scan_yields (step_tidy st) data _ (tidy_enter parser user)

end

end Sylar.Http
