import Mathlib.Data.List.Basic
import Sylar.Lib.Stream
import Sylar.Http.Marks

/- Interrupting `http_parser_execute` between two bytes.

   A call that reaches the end of its buffer hands the data it has marked to the
   callback, and the next call marks what is left of it anew. `resume` says where
   this has no effect: everywhere but inside a URL, a header field or a header value,
   provided that the callbacks for the body and for the status are `Cumulative`, that
   is, cannot tell two calls in a row from one with both pieces. Even then the data
   handed over at the interruption must not be data that an uninterrupted call would
   have dropped because of an error further on: this is what `Resumable` asks of a
   chunk, which must end in CR, and of a status line, which must not exceed the limit
   for headers.

   The proof runs the interrupted and the uninterrupted loop side by side (`cut` and
   `uncut`) until the callback for the data is made, after which they are the same. -/
namespace Sylar.Http
open Sylar.Lib

section
variable {σ : Type}

/-- Where the locals of a call can be dropped and found again in the parser, `post` being the
bytes still to come. -/
def Resumable (p : Fields) (post : Bytes) : Prop :=
  match p.state with
  | .s_chunk_data => ∀ c ∈ post[(p.contentLength - 1).toNat + 1]?, c = CR
  | .s_chunk_data_almost_done => ∀ c ∈ post[0]?, c = CR
  | .s_res_status =>
    p.nread.toNat + min post.length ((post.takeWhile fun c => c ≠ CR ∧ c ≠ LF).length + 1) ≤
      maxHeaderSize.toNat
  | s => s.marked = none

instance (p : Fields) (post : Bytes) : Decidable (Resumable p post) := by
  unfold Resumable
  split
  · exact Option.decidableForallMem _
  · exact Option.decidableForallMem _
  · exact Nat.decLe _ _
  · infer_instance

theorem resumable_status {p : Fields} {post : Bytes} (hs : p.state = .s_res_status) :
    Resumable p post ↔
      p.nread.toNat + min post.length ((post.takeWhile fun c => c ≠ CR ∧ c ≠ LF).length + 1) ≤
        maxHeaderSize.toNat := by
  rw [Resumable, hs]

/-- What may follow may also be less. -/
theorem Resumable.take {p : Fields} {y z : Bytes} (h : Resumable p (y ++ z)) : Resumable p y := by
  have hget : ∀ {i : Nat} {c : UInt8}, y[i]? = some c → (y ++ z)[i]? = some c := by
    intro i c hi
    obtain ⟨hlt, -⟩ := List.getElem?_eq_some_iff.mp hi
    rw [List.getElem?_append_left hlt, hi]
  revert h
  unfold Resumable
  split
  · exact fun h c hc => h c (hget hc)
  · exact fun h c hc => h c (hget hc)
  · intro h
    have htake : (y.takeWhile fun c => c ≠ CR ∧ c ≠ LF).length ≤
        ((y ++ z).takeWhile fun c => c ≠ CR ∧ c ≠ LF).length := by
      rw [List.takeWhile_append]
      split
      · rename_i heq
        rw [List.length_append, heq]
        omega
      · exact Nat.le_refl _
    rw [List.length_append] at h
    omega
  · exact id

/-- A data callback that always succeeds and to which its data may come in several pieces; of the
parser it sees at most the status code. -/
structure Cumulative (cb : HttpDataCb σ) (f : Nat → Bytes → σ → σ) : Prop where
  eq : ∀ p d u, cb p d u = (0, f p.statusCode d u)
  append : ∀ c x y u, f c (x ++ y) u = f c y (f c x u)

/-! ## The two loops -/

/-- The loop that was not interrupted: `x` was marked then, `y` is what has been since. -/
def Loop.uncut (l : Loop σ) (m : Mark) (x : Bytes) (y : Option Bytes) : Loop σ :=
  l.setMark m (some (x ++ y.getD []))

/-- The one that was: `x` has gone to the callback. -/
def Loop.cut (l : Loop σ) (f : Nat → Bytes → σ → σ) (m : Mark) (x : Bytes) (y : Option Bytes) : Loop σ :=
  { l with user := f l.statusCode x l.user }.setMark m y

@[simp] theorem setMark_self (l : Loop σ) (m : Mark) (d : Option Bytes) : (l.setMark m d).marks m = d := by
  simp [Loop.setMark]

@[simp] theorem setMark_setMark (l : Loop σ) (m : Mark) (d e : Option Bytes) :
    (l.setMark m d).setMark m e = l.setMark m e := by
  unfold Loop.setMark
  congr 1
  funext k
  by_cases hk : k = m <;> simp [hk]

theorem setMark_user (l : Loop σ) (m : Mark) (d e : Option Bytes) (u : σ) :
    ({ l.setMark m d with user := u } : Loop σ).setMark m e = { l with user := u }.setMark m e :=
  setMark_setMark { l with user := u } m d e

variable {st : Settings σ} {f : Nat → Bytes → σ → σ} {l : Loop σ} {m : Mark} {x : Bytes}
  {y : Option Bytes} {ch : UInt8}

theorem Only.setMark (h : Only m l) (d : Option Bytes) : Only m (l.setMark m d) where
  marks := by
    intro k hk
    simp [Loop.setMark, hk, h.marks k hk]
  run := h.run
  scanned := h.scanned

/-- After the callback there is no difference. -/
theorem callback_cut (hf : Cumulative (st.onData m) f) (n : Nat) :
    (l.uncut m x y).callback st m n = (l.cut f m x y).callback st m n := by
  have huncut : (l.uncut m x y).callback st m n =
      .ok ({ l with user := f l.statusCode (x ++ y.getD []) l.user }.setMark m none) := by
    simp only [Loop.callback, Loop.uncut, setMark_self, hf.eq, if_true, setMark_user]
    rfl
  rw [huncut]
  cases y with
  | none => simp [Loop.callback, Loop.cut]
  | some d =>
    simp only [Loop.callback, Loop.cut, setMark_self, hf.eq, if_true, setMark_user, Option.getD_some,
      hf.append]
    rfl

theorem callback_unset {k : Mark} (h : l.marks k = none) (n : Nat) : l.callback st k n = .ok l := by
  simp [Loop.callback, h]

theorem endRun_of_run (h : l.run = 0) : l.endRun = .ok l := if_pos h

/-- The end of a buffer where only `m` can be set. -/
theorem leave_body (h : Only .body l) : leave st l = (l.callback st .body 0 >>= (·.callback st .status 0)) := by
  simp only [leave, endRun_of_run h.run, callback_unset (h.marks .header_field nofun),
    callback_unset (h.marks .header_value nofun), callback_unset (h.marks .url nofun), bind, Except.bind]

theorem leave_status (h : Only .status l) : leave st l = l.callback st .status 0 := by
  simp only [leave, endRun_of_run h.run, callback_unset (h.marks .header_field nofun),
    callback_unset (h.marks .header_value nofun), callback_unset (h.marks .url nofun),
    callback_unset (h.marks .body nofun), bind, Except.bind]

theorem consume_cons (st : Settings σ) (ch : UInt8) (rest : Bytes) (l : Loop σ) :
    consume st (ch :: rest) l =
      match step st ch l with
      | .ok l => consume st rest l
      | .error s => (s.unread + rest.length, s.parser, s.user) := by
  rw [consume, scan]
  cases step st ch l with
  | ok l => rfl
  | error s => rfl

theorem consume_append {pre post : Bytes} {l l' : Loop σ} (h : scan (step st) pre l = .ok l') :
    consume st (pre ++ post) l = consume st post l' := by
  rw [consume, scan_append, h, consume]

/-! ## Inside a body -/

/-- The data that `m` marks goes on with `ch`. -/
theorem advance_uncut (h : Only m l) (d : Bytes) :
    (l.uncut m x (some d)).advance ch = l.uncut m x (some (d ++ [ch])) := by
  unfold Loop.uncut Loop.advance Loop.setMark
  congr 1
  funext k
  by_cases hk : k = m
  · simp [hk]
  · simp [hk, h.marks k hk]

theorem advance_cut (h : Only m l) (d : Bytes) :
    (l.cut f m x (some d)).advance ch = l.cut f m x (some (d ++ [ch])) := by
  unfold Loop.cut Loop.advance Loop.setMark
  congr 1
  funext k
  by_cases hk : k = m
  · simp [hk]
  · simp [hk, h.marks k hk]

theorem mark_setMark (l : Loop σ) (m : Mark) (e : Option Bytes) :
    (l.setMark m e).mark m = l.setMark m (some (e.getD [])) := by
  simp [Loop.mark]

/-- What a byte can do to the two loops: they become the same, or go on side by side. -/
def Parallel (f : Nat → Bytes → σ → σ) (m : Mark) (x : Bytes) (P : Loop σ → Prop)
    (r₁ r₂ : Except (Stop σ) (Loop σ)) : Prop :=
  r₁ = r₂ ∨ ∃ l d, Only m l ∧ P l ∧ r₁ = .ok (l.uncut m x (some d)) ∧ r₂ = .ok (l.cut f m x (some d))

theorem Parallel.go {P : Loop σ → Prop} (h : Only m l) (hP : P l) (d : Bytes) :
    Parallel f m x P (.ok ((l.uncut m x (some d)).advance ch)) (.ok ((l.cut f m x (some d)).advance ch)) :=
  Or.inr ⟨l, d ++ [ch], h, hP, by rw [advance_uncut h], by rw [advance_cut h]⟩

/-- `bodyIdentity` where the data so far is `e`. -/
theorem bodyIdentity_eq (l : Loop σ) (e : Option Bytes) :
    bodyIdentity st ch (l.setMark .body e) =
      if l.contentLength - 1 = 0 then
        ({ l with contentLength := l.contentLength - 1, state := .s_message_done }.setMark .body
          (some (e.getD [] ++ [ch]))).callback st .body 1 >>= messageDone st
      else .ok ({ l with contentLength := l.contentLength - 1 }.setMark .body (some (e.getD []))) := by
  unfold bodyIdentity
  rw [mark_setMark]
  by_cases hz : l.contentLength - 1 = 0
  · refine (if_pos hz).trans (Eq.trans ?_ (if_pos hz).symm)
    exact congrArg (fun l : Loop σ => l.callback st .body 1 >>= messageDone st)
      (setMark_setMark { l with contentLength := l.contentLength - 1, state := .s_message_done } .body
        (some (e.getD [])) (some (e.getD [] ++ [ch])))
  · exact (if_neg hz).trans (if_neg hz).symm

theorem bodyIdentity_parallel (ch : UInt8) (hf : Cumulative (st.onData .body) f) (h : Only .body l)
    (hs : l.state = .s_body_identity) :
    Parallel f .body x (fun l' => l'.state = .s_body_identity)
      (bodyIdentity st ch (l.uncut .body x y) >>= fun l => .ok (l.advance ch))
      (bodyIdentity st ch (l.cut f .body x y) >>= fun l => .ok (l.advance ch)) := by
  rw [Loop.uncut, Loop.cut, bodyIdentity_eq, bodyIdentity_eq]
  dsimp only
  by_cases hz : l.contentLength - 1 = 0
  · rw [if_pos hz, if_pos hz, Option.getD_some, List.append_assoc]
    left
    exact congrArg (fun r => (r >>= messageDone st) >>= fun l => Except.ok (l.advance ch))
      (callback_cut (y := some (y.getD [] ++ [ch])) hf 1)
  · rw [if_neg hz, if_neg hz]
    have h' : Only .body { l with contentLength := l.contentLength - 1 } := h.update rfl rfl rfl
    exact Parallel.go h' hs (y.getD [])

theorem bodyIdentityEof_parallel (ch : UInt8) (h : Only .body l) (hs : l.state = .s_body_identity_eof) :
    Parallel f .body x (fun l' => l'.state = .s_body_identity_eof)
      (bodyIdentityEof (l.uncut .body x y) >>= fun l => .ok (l.advance ch))
      (bodyIdentityEof (l.cut f .body x y) >>= fun l => .ok (l.advance ch)) := by
  rw [Loop.uncut, Loop.cut, bodyIdentityEof, bodyIdentityEof, mark_setMark, mark_setMark]
  exact Parallel.go h hs (y.getD [])

/-- `chunkData` where the data so far is `e`. -/
theorem chunkData_eq (l : Loop σ) (e : Option Bytes) :
    chunkData (l.setMark .body e) =
      .ok ({ l with
              contentLength := l.contentLength - 1
              state := if l.contentLength - 1 = 0 then .s_chunk_data_almost_done else l.state }.setMark
            .body (some (e.getD []))) := by
  unfold chunkData
  rw [mark_setMark]
  by_cases hz : l.contentLength - 1 = 0
  · rw [if_pos hz]
    exact if_pos hz
  · rw [if_neg hz]
    exact if_neg hz

theorem chunkData_parallel (ch : UInt8) (h : Only .body l) :
    Parallel f .body x (fun l' => l'.contentLength = l.contentLength - 1 ∧
        l'.state = if l.contentLength - 1 = 0 then .s_chunk_data_almost_done else l.state)
      (chunkData (l.uncut .body x y) >>= fun l => .ok (l.advance ch))
      (chunkData (l.cut f .body x y) >>= fun l => .ok (l.advance ch)) := by
  rw [Loop.uncut, Loop.cut, chunkData_eq, chunkData_eq]
  have h' : Only .body { l with
      contentLength := l.contentLength - 1
      state := if l.contentLength - 1 = 0 then .s_chunk_data_almost_done else l.state } :=
    h.update rfl rfl rfl
  exact Parallel.go h' ⟨rfl, rfl⟩ (y.getD [])

theorem chunkDataAlmostDone_parallel (hf : Cumulative (st.onData .body) f) :
    chunkDataAlmostDone st CR (l.uncut .body x y) = chunkDataAlmostDone st CR (l.cut f .body x y) :=
  callback_cut (l := { l with state := .s_chunk_data_done }) hf 0

/-- A step in a state that is not counted as part of the head. -/
theorem step_body (hp : l.state.parsingHeader = false) :
    step st ch l = dispatch st ch l >>= fun l => .ok (l.advance ch) := by
  have hc : l.countByte = .ok l := if_neg (by simp [hp])
  rw [step, hc]
  rfl

theorem step_chunkData (st : Settings σ) (ch : UInt8) (hs : l.state = .s_chunk_data) :
    step st ch l = chunkData l >>= fun l => .ok (l.advance ch) := by
  rw [step_body (by rw [hs]; rfl), dispatch, hs]

theorem step_chunkDataAlmostDone (st : Settings σ) (ch : UInt8) (hs : l.state = .s_chunk_data_almost_done) :
    step st ch l = chunkDataAlmostDone st ch l >>= fun l => .ok (l.advance ch) := by
  rw [step_body (by rw [hs]; rfl), dispatch, hs]

theorem step_bodyIdentity (st : Settings σ) (ch : UInt8) (hs : l.state = .s_body_identity) :
    step st ch l = bodyIdentity st ch l >>= fun l => .ok (l.advance ch) := by
  rw [step_body (by rw [hs]; rfl), dispatch, hs]

theorem step_bodyIdentityEof (st : Settings σ) (ch : UInt8) (hs : l.state = .s_body_identity_eof) :
    step st ch l = bodyIdentityEof l >>= fun l => .ok (l.advance ch) := by
  rw [step_body (by rw [hs]; rfl), dispatch, hs]

theorem pred_toNat {a : UInt64} (h : a ≠ 0) : (a - 1).toNat + 1 = a.toNat := by
  have hpos : a.toNat ≠ 0 := fun h0 => h (UInt64.toNat_inj.mp h0)
  have hle : (1 : UInt64) ≤ a := by
    rw [UInt64.le_iff_toNat_le]
    exact Nat.one_le_iff_ne_zero.mpr hpos
  rw [UInt64.toNat_sub_of_le a 1 hle, UInt64.toNat_one]
  omega

theorem consume_parallel {P : Loop σ → Prop} {l₁ l₂ : Loop σ} {rest : Bytes}
    (h : Parallel f m x P (step st ch l₁) (step st ch l₂))
    (hgo : ∀ l d, Only m l → P l →
      consume st rest (l.uncut m x (some d)) = consume st rest (l.cut f m x (some d))) :
    consume st (ch :: rest) l₁ = consume st (ch :: rest) l₂ := by
  rw [consume_cons, consume_cons]
  rcases h with heq | ⟨l, d, ho, hP, h₁, h₂⟩
  · rw [heq]
  · rw [h₁, h₂]
    exact hgo l d ho hP

/-- An interruption inside a body has no effect on what follows. The induction is on the bytes
that follow; the loops stay side by side until the data is delivered. -/
theorem consume_body (hf : Cumulative (st.onData .body) f) : ∀ (post : Bytes) (l : Loop σ)
    (y : Option Bytes), Only .body l → l.state.inBody = true → Resumable l.toFields post →
    consume st post (l.uncut .body x y) = consume st post (l.cut f .body x y)
  | [], l, y, ho, _, _ => by
    have hleave : leave st (l.uncut .body x y) = leave st (l.cut f .body x y) := by
      have hu : Only .body (l.uncut .body x y) := ho.setMark _
      have hc : Only .body (l.cut f .body x y) := by
        apply Only.setMark
        exact ho.update rfl rfl rfl
      rw [leave_body hu, leave_body hc, callback_cut hf]
    rw [consume, consume, scan, scan]
    dsimp only
    rw [hleave]
  | ch :: rest, l, y, ho, hb, hr => by
    have hu : (l.uncut .body x y).state = l.state := rfl
    have hc : (l.cut f .body x y).state = l.state := rfl
    cases hs : l.state with
    | s_chunk_data =>
      rw [hs] at hu hc
      rw [Resumable, hs] at hr
      have hpar := chunkData_parallel (f := f) (x := x) (y := y) ch ho
      rw [← step_chunkData st ch hu, ← step_chunkData st ch hc] at hpar
      apply consume_parallel hpar
      rintro l' d ho' ⟨hlen, hstate⟩
      by_cases hz : l.contentLength - 1 = 0
      · rw [if_pos hz] at hstate
        apply consume_body hf rest l' (some d) ho' (by rw [hstate]; rfl)
        rw [Resumable, hstate]
        simpa [hz] using hr
      · rw [if_neg hz, hs] at hstate
        apply consume_body hf rest l' (some d) ho' (by rw [hstate]; rfl)
        have hpred : (l'.contentLength - 1).toNat + 1 = (l.contentLength - 1).toNat := by
          rw [hlen]
          exact pred_toNat hz
        rw [Resumable, hstate]
        simpa [hpred] using hr
    | s_chunk_data_almost_done =>
      rw [hs] at hu hc
      rw [Resumable, hs] at hr
      have hcr : ch = CR := hr ch rfl
      rw [consume_cons, consume_cons, step_chunkDataAlmostDone st ch hu, step_chunkDataAlmostDone st ch hc, hcr,
        chunkDataAlmostDone_parallel hf]
    | s_body_identity =>
      rw [hs] at hu hc
      have hpar := bodyIdentity_parallel (x := x) (y := y) ch hf ho hs
      rw [← step_bodyIdentity st ch hu, ← step_bodyIdentity st ch hc] at hpar
      apply consume_parallel hpar
      intro l' d ho' hstate
      apply consume_body hf rest l' (some d) ho' (by rw [hstate]; rfl)
      rw [Resumable, hstate]
      rfl
    | s_body_identity_eof =>
      rw [hs] at hu hc
      have hpar := bodyIdentityEof_parallel (f := f) (x := x) (y := y) ch ho hs
      rw [← step_bodyIdentityEof st ch hu, ← step_bodyIdentityEof st ch hc] at hpar
      apply consume_parallel hpar
      intro l' d ho' hstate
      apply consume_body hf rest l' (some d) ho' (by rw [hstate]; rfl)
      rw [Resumable, hstate]
      rfl
    | _ =>
      rw [hs] at hb
      cases hb

/-! ## Inside a status line -/

/-- One more byte of the head has been counted. -/
def Loop.counted (l : Loop σ) : Loop σ := { l with nread := l.nread + 1 }

theorem nread_succ {n : UInt32} (h : n.toNat + 1 ≤ maxHeaderSize.toNat) : (n + 1).toNat = n.toNat + 1 := by
  have hmax : maxHeaderSize.toNat = 81920 := rfl
  rw [UInt32.toNat_add, UInt32.toNat_one]
  omega

/-- A byte of the status line that the limit allows. -/
theorem step_resStatus (st : Settings σ) (ch : UInt8) (hs : l.state = .s_res_status) (hrun : l.run = 0)
    (hfit : l.nread.toNat + 1 ≤ maxHeaderSize.toNat) :
    step st ch l = resStatus st ch l.counted >>= fun l => .ok (l.advance ch) := by
  have hcount : l.countByte = .ok l.counted := by
    unfold Loop.countByte Loop.countHeaderSize
    rw [if_pos ⟨by rw [hs]; rfl, hrun⟩]
    refine if_neg ?_
    show ¬maxHeaderSize < l.nread + 1
    rw [UInt32.lt_iff_toNat_lt, nread_succ hfit]
    omega
  have hdispatch : ∀ l : Loop σ, l.state = .s_res_status → dispatch st ch l = resStatus st ch l := by
    intro l hs
    rw [dispatch, hs]
  rw [step, hcount]
  exact congrArg (fun r => r >>= fun l => Except.ok (l.advance ch))
    (hdispatch l.counted hs)

theorem resStatus_parallel (ch : UInt8) (hf : Cumulative (st.onData .status) f) (h : Only .status l)
    (d : Bytes) :
    Parallel f .status x (fun l' => l' = l ∧ ch ≠ CR ∧ ch ≠ LF)
      (resStatus st ch (l.uncut .status x (some d)) >>= fun l => .ok (l.advance ch))
      (resStatus st ch (l.cut f .status x (some d)) >>= fun l => .ok (l.advance ch)) := by
  unfold resStatus
  by_cases hcr : ch = CR
  · left
    rw [if_pos hcr, if_pos hcr]
    exact congrArg (fun r => r >>= fun l => Except.ok (l.advance ch))
      (callback_cut (l := { l with state := .s_res_line_almost_done }) hf 0)
  · rw [if_neg hcr, if_neg hcr]
    by_cases hlf : ch = LF
    · left
      rw [if_pos hlf, if_pos hlf]
      exact congrArg (fun r => r >>= fun l => Except.ok (l.advance ch))
        (callback_cut (l := { l with state := .s_header_field_start }) hf 0)
    · rw [if_neg hlf, if_neg hlf]
      exact Parallel.go h ⟨rfl, hcr, hlf⟩ d

/-- An interruption inside the status line has no effect on what follows. -/
theorem consume_status (hf : Cumulative (st.onData .status) f) : ∀ (post : Bytes) (l : Loop σ) (d : Bytes),
    Only .status l → l.state = .s_res_status → Resumable l.toFields post →
    consume st post (l.uncut .status x (some d)) = consume st post (l.cut f .status x (some d))
  | [], l, d, ho, _, _ => by
    have hleave : leave st (l.uncut .status x (some d)) = leave st (l.cut f .status x (some d)) := by
      have hu : Only .status (l.uncut .status x (some d)) := ho.setMark _
      have hc : Only .status (l.cut f .status x (some d)) := by
        apply Only.setMark
        exact ho.update rfl rfl rfl
      rw [leave_status hu, leave_status hc, callback_cut hf]
    rw [consume, consume, scan, scan]
    dsimp only
    rw [hleave]
  | ch :: rest, l, d, ho, hs, hr => by
    rw [resumable_status hs] at hr
    have hfit : l.nread.toNat + 1 ≤ maxHeaderSize.toNat := by
      rw [List.length_cons] at hr
      omega
    have ho' : Only .status l.counted := ho.update rfl rfl rfl
    have hu : step st ch (l.uncut .status x (some d)) =
        resStatus st ch (l.counted.uncut .status x (some d)) >>= fun l => .ok (l.advance ch) :=
      step_resStatus st ch hs ho.run hfit
    have hc : step st ch (l.cut f .status x (some d)) =
        resStatus st ch (l.counted.cut f .status x (some d)) >>= fun l => .ok (l.advance ch) :=
      step_resStatus st ch hs ho.run hfit
    have hpar := resStatus_parallel (x := x) ch hf ho' d
    rw [← hu, ← hc] at hpar
    apply consume_parallel hpar
    rintro l' e ho'' ⟨rfl, hcr, hlf⟩
    apply consume_status hf rest _ e ho'' hs
    have hs' : l.counted.state = .s_res_status := hs
    rw [resumable_status hs']
    show (l.nread + 1).toNat + _ ≤ _
    rw [nread_succ hfit]
    rw [List.takeWhile_cons_of_pos (by simp [hcr, hlf]), List.length_cons, List.length_cons] at hr
    omega

/-! ## Anywhere -/

theorem Clear.marks_eq (h : Clear l) : l.marks = fun _ => none := funext h.marks

theorem leave_clear (h : Clear l) : leave st l = .ok l := by
  rw [leave_body (h.only .body), callback_unset (h.marks .body)]
  exact callback_unset (h.marks .status) 0

theorem enter_clear (h : Clear l) : enter l.toFields l.user = l := by
  have hmarks : (fun m => if l.state.marked = some m then some [] else none) = l.marks := by
    funext m
    simp [h.marked, h.marks m]
  have hrun := h.run
  have hscanned := h.scanned
  cases l
  unfold enter
  simp_all

theorem uncut_self (hx : l.marks m = some (x ++ y.getD [])) : l.uncut m x y = l := by
  have hmarks : (fun k => if k = m then some (x ++ y.getD []) else l.marks k) = l.marks := by
    funext k
    by_cases hk : k = m
    · simp [hk, hx]
    · simp [hk]
  rw [Loop.uncut, Loop.setMark, hmarks]

/-- The marked data has gone to its callback. -/
def Loop.delivered (l : Loop σ) (u : σ) : Loop σ := { l with user := u, marks := fun _ => none }

/-- The callback for the data before the end of the buffer. -/
theorem callback_set (hf : Cumulative (st.onData m) f) (h : Only m l) (hx : l.marks m = some x) (n : Nat) :
    l.callback st m n = .ok (l.delivered (f l.statusCode x l.user)) := by
  have hmarks : (fun k => if k = m then none else l.marks k) = fun _ => none := by
    funext k
    by_cases hk : k = m
    · simp [hk]
    · simp [hk, h.marks k hk]
  simp [Loop.callback, hx, hf.eq, Loop.setMark, hmarks, Loop.delivered]

/-- The next call, in the state that this one has left. -/
theorem enter_cut (h : Only m l) (e : Option Bytes)
    (he : ∀ k, (if l.state.marked = some k then some [] else none) = if k = m then e else none) (u : σ) :
    enter l.toFields u = { l with user := u }.setMark m e := by
  have hmarks : (fun k => if l.state.marked = some k then some [] else none) =
      fun k => if k = m then e else l.marks k := by
    funext k
    rw [he k]
    by_cases hk : k = m
    · rw [if_pos hk, if_pos hk]
    · rw [if_neg hk, if_neg hk, h.marks k hk]
  unfold enter Loop.setMark
  rw [hmarks, h.run, h.scanned]

/-- An interruption where the parser is `Resumable` has no effect: the call ends, and the next one
does with the rest what this one would have done. -/
theorem resume {g : Nat → Bytes → σ → σ} (hf : Cumulative (st.onData .body) f)
    (hg : Cumulative (st.onData .status) g) (h : Tidy l) {post : Bytes} (hr : Resumable l.toFields post) :
    ∃ u, leave st l = .ok (l.delivered u) ∧
      consume st post (enter l.toFields u) = consume st post l := by
  by_cases hs : l.state = .s_res_status
  · -- in a status line
    have hm : l.state.marked = some .status := by rw [hs]; rfl
    have ho : Only .status l := h.only hm (by rw [hs]; nofun) (by rw [hs]; nofun)
    obtain ⟨x, hx⟩ := Option.isSome_iff_exists.mp (h.set .status hm)
    refine ⟨g l.statusCode x l.user, ?_, ?_⟩
    · rw [leave_status ho, callback_set hg ho hx]
    · rw [enter_cut ho (some [])]
      · have huncut : l.uncut .status x (some []) = l := uncut_self (by simp [hx])
        have hrun := consume_status (x := x) hg post l [] ho hs hr
        rw [huncut] at hrun
        exact hrun.symm
      · intro k
        rw [hm]
        by_cases hk : k = .status
        · simp [hk]
        · simp [hk, Ne.symm hk]
  · have hm : l.state.marked = none := by
      unfold Resumable at hr
      split at hr <;> simp_all [State.marked]
    have ho : Only .body l := h.only_body hm
    cases hx : l.marks .body with
    | none =>
      -- no data is marked
      have hc : Clear l := by
        refine ⟨?_, ho.run, ho.scanned, hm⟩
        intro k
        by_cases hk : k = .body
        · rw [hk, hx]
        · exact ho.marks k hk
      refine ⟨l.user, ?_, ?_⟩
      · rw [leave_clear hc, Loop.delivered, ← hc.marks_eq]
      · rw [enter_clear hc]
    | some x =>
      -- in a body
      have hb : l.state.inBody = true := by
        rcases h.unset .body (by rw [hx]; rfl) with hb | ⟨-, hb⟩
        · rw [hm] at hb
          cases hb
        · exact hb
      refine ⟨f l.statusCode x l.user, ?_, ?_⟩
      · rw [leave_body ho, callback_set hf ho hx]
        show (l.delivered _).callback st .status 0 = _
        exact callback_unset rfl 0
      · rw [enter_cut ho none]
        · have huncut : l.uncut .body x none = l := uncut_self (by simp [hx])
          have hrun := consume_body (x := x) hf post l none ho hb hr
          rw [huncut] at hrun
          exact hrun.symm
        · intro k
          simp [hm]

end

end Sylar.Http
