import Mathlib.Data.List.Basic
import Sylar.Hook.DoIo
import Sylar.Hook.Nonblock
import Sylar.Hook.Timeout
import Sylar.IOManager.Table
import Sylar.Timer.Expiry

/- When `do_io` hides `EAGAIN`.

   A socket under management is non-blocking in the kernel, so its system calls answer
   `EAGAIN` where the user expects them to block; the loop of `do_io` is there to wait
   instead. It does so exactly on threads that have the hook enabled, that belong to an
   IOManager, and whose event is free to be registered (`eagain_hidden_iff`); without an
   IOManager the loop calls a null pointer, and an event that is registered already fails
   the assertion of `addEvent`. `Scheduler::run` disables the hook, while `accept` makes a
   managed socket in either case.

   `Hides` is what keeps `EAGAIN` from being returned, `Runs` what keeps the call from
   getting stuck anywhere but in its wait. -/
namespace Sylar.Hook
open Sylar.IOManager (Event Caller Has State toInt)
open Sylar.Timer (TimerManager)

def Hidden : Result → Prop
  | .count _ => True
  | .error errno => errno ≠ EAGAIN

instance (r : Result) : Decidable (Hidden r) :=
  match r with
  | .count _ => inferInstanceAs (Decidable True)
  | .error _ => inferInstanceAs (Decidable (_ ≠ _))

/-- What holds in every state of a call that has entered the loop. -/
structure Hides (s : Sys) : Prop where
  looping : s.pc ≠ .direct
  cancelled : s.cancelled = 0 ∨ s.cancelled = ETIMEDOUT
  failed : ∀ timer errno, s.pc = .failed timer errno → errno ≠ EAGAIN
  done : ∀ r, s.pc = .done r → Hidden r

section
variable {c : Call} {s s' : Sys} {act : Act}

theorem ctlError_ne (e : CtlError) : e.errno ≠ EAGAIN := by
  cases e <;> decide

/-- A step that leaves the fiber where it is and stores nothing but `ETIMEDOUT`. -/
theorem Hides.of_frame (h : Hides s) (hpc : s'.pc = s.pc)
    (hcancelled : s'.cancelled = s.cancelled ∨ s'.cancelled = ETIMEDOUT) : Hides s' := by
  refine ⟨by rw [hpc]; exact h.looping, ?_, by rw [hpc]; exact h.failed, by rw [hpc]; exact h.done⟩
  rcases hcancelled with heq | heq
  · rw [heq]
    exact h.cancelled
  · exact Or.inr heq

/-- A step of the fiber to a place where nothing is returned. -/
theorem Hides.of_move (h : Hides s) (hcancelled : s'.cancelled = s.cancelled) (hdirect : s'.pc ≠ .direct)
    (hfailed : ∀ timer errno, s'.pc ≠ .failed timer errno) (hdone : ∀ r, s'.pc ≠ .done r) : Hides s' := by
  refine ⟨hdirect, by rw [hcancelled]; exact h.cancelled, ?_, ?_⟩
  · intro timer errno hpc
    exact absurd hpc (hfailed timer errno)
  · intro r hpc
    exact absurd hpc (hdone r)

theorem Hides.of_done (h : Hides s) (hcancelled : s'.cancelled = s.cancelled) {r : Result}
    (hpc : s'.pc = .done r) (hr : Hidden r) : Hides s' := by
  refine ⟨by rw [hpc]; simp, by rw [hcancelled]; exact h.cancelled, ?_, ?_⟩
  · intro timer errno hfailed
    rw [hpc] at hfailed
    cases hfailed
  · intro r' hdone
    rw [hpc] at hdone
    cases hdone
    exact hr

theorem Hides.step (h : Hides s) (hstep : c.step s act = some s') : Hides s' := by
  cases act with
  | sysCall r =>
    rcases step_sysCall hstep with ⟨hpc, -⟩ | ⟨hpc, rfl | rfl | ⟨hr, rfl⟩⟩
    · exact absurd hpc h.looping
    · exact h
    · exact h.of_move rfl (by simp) (by simp) (by simp)
    · refine h.of_done rfl rfl ?_
      cases r with
      | count n => exact trivial
      | error errno => exact fun heq => hr (by rw [heq])
  | arm a now =>
    obtain ⟨-, ⟨-, -, rfl⟩ | ⟨-, rfl⟩⟩ := step_arm hstep <;>
      exact h.of_move rfl (by simp) (by simp) (by simp)
  | addEvent fails error =>
    obtain ⟨timer, -, io, rfl | rfl⟩ := step_addEvent hstep
    · refine ⟨by simp, h.cancelled, ?_, by simp⟩
      rintro timer' errno heq
      cases heq
      exact ctlError_ne error
    · exact h.of_move rfl (by simp) (by simp) (by simp)
  | yield =>
    obtain ⟨timer, -, rfl⟩ := step_yield hstep
    exact h.of_move rfl (by simp) (by simp) (by simp)
  | resume =>
    obtain ⟨timer, -, rfl⟩ := step_resume hstep
    exact h.of_move rfl (by simp) (by simp) (by simp)
  | cancelTimer =>
    obtain ⟨timer, timers, -, ⟨-, rfl⟩ | ⟨errno, hpc, rfl⟩⟩ := step_cancelTimer hstep
    · exact h.of_move rfl (by simp) (by simp) (by simp)
    · exact h.of_done rfl rfl (h.failed timer errno hpc)
  | test =>
    obtain ⟨-, ⟨hc, rfl⟩ | ⟨-, rfl⟩⟩ := step_test hstep
    · refine h.of_done rfl rfl ?_
      rw [h.cancelled.resolve_left hc]
      decide
    · exact h.of_move rfl (by simp) (by simp) (by simp)
  | expire now tmp => obtain rfl := step_expire hstep; exact h.of_frame rfl (Or.inl rfl)
  | callbackTest a =>
    rcases step_callbackTest hstep with ⟨-, rfl⟩ | ⟨-, rfl⟩ <;> exact h.of_frame rfl (Or.inl rfl)
  | callbackStore a => obtain rfl := step_callbackStore hstep; exact h.of_frame rfl (Or.inr rfl)
  | callbackCancel a fails =>
    obtain ⟨-, r, io, -, rfl⟩ := step_callbackCancel hstep
    exact h.of_frame rfl (Or.inl rfl)
  | dispatch p mask fails =>
    obtain ⟨io, -, rfl⟩ := step_dispatch hstep
    exact h.of_frame rfl (Or.inl rfl)
  | cancelAll fails =>
    obtain ⟨r, io, -, rfl⟩ := step_cancelAll hstep
    exact h.of_frame rfl (Or.inl rfl)
  | closeF => obtain rfl := step_closeF hstep; exact h.of_frame rfl (Or.inl rfl)
  | other op =>
    obtain ⟨timers, -, rfl⟩ := step_other hstep
    exact h.of_frame rfl (Or.inl rfl)

theorem Hides.reached {ok : Sys → Act → Prop} {s₀ : Sys} (h : Hides s₀) (hrun : c.Reached ok s₀ s) :
    Hides s := by
  induction hrun with
  | start => exact h
  | step act _ _ _ hstep ih => exact ih.step hstep

end

/-! ## `addEvent` on a free slot -/

/-- The states that any operations leave, with any answers of the kernel, which forgets what was registered for a
descriptor that is closed. -/
inductive Visited : State → Prop where
  | init : Visited IOManager.init
  | exec {io io' : State} (op : IOManager.IoOp) (fails : Bool) : Visited io → op.exec fails io = .ok io' → Visited io'
  | close {io : State} (fd : Nat) : Visited io → Visited (io.register fd none)

/-- The table has an entry for the descriptor, or `fd * 1.5` makes room for one. -/
def Room (io : State) (fd : Nat) : Prop := (fd : Int) < toInt io.fdContexts.length ∨ 2 ≤ fd

instance (io : State) (fd : Nat) : Decidable (Room io fd) := inferInstanceAs (Decidable (_ ∨ _))

section
variable {io io' : State} {p fd : Nat} {e : Event} {cb : Option Nat} {caller : Caller} {fails : Bool}

theorem has_set_of_ne {m : BitVec 32} {e' : Event} (h : e ≠ e') : Has (m ||| e.bit) e' ↔ Has m e' := by
  have hbit : e.bit &&& e'.bit = 0 := by
    cases e <;> cases e' <;> first | exact absurd rfl h | rfl
  unfold Has
  rw [BitVec.and_or_distrib_right, hbit]
  simp

theorem has_set_self (m : BitVec 32) : Has (m ||| e.bit) e := by
  have hself : (m ||| e.bit) &&& e.bit = e.bit := by
    cases e <;> simp only [Event.bit] <;> ext i hi <;> simp +contextual
  unfold Has
  rw [hself]
  cases e <;> decide

theorem Emptied.of_context (h : Emptied io) (hctx : io'.context = io.context) : Emptied io' := by
  intro q e'
  rw [hctx]
  exact h q e'

theorem Emptied.setContext (h : Emptied io) {c : IOManager.FdContext}
    (hc : ∀ e', ¬ Has c.events e' → c.getEventContext e' = {}) : Emptied (io.setContext p c) := by
  intro q e'
  by_cases hlt : p < io.heap.length
  · have hw : IOManager.Wrote io (io.setContext p c) p c := ⟨rfl, rfl, rfl, rfl⟩
    by_cases hq : q = p
    · rw [hq, hw.context_same hlt]
      exact hc e'
    · rw [hw.context_other hq]
      exact h q e'
  · have hsame : (io.setContext p c).context q = io.context q := by
      simp only [State.context, State.setContext, List.set_eq_of_length_le (Nat.le_of_not_lt hlt)]
    rw [hsame]
    exact h q e'

/-- A new context is fresh, the others stay as they are. -/
theorem contextResize_context (n : Nat) (io : State) (q : Nat) :
    (IOManager.contextResize n io).context q = io.context q ∨
      ∃ fd, (IOManager.contextResize n io).context q = { fd := fd } := by
  by_cases hq : q < io.heap.length
  · left
    simp only [State.context, IOManager.contextResize, List.getElem?_append_left hq]
  · right
    simp only [State.context, IOManager.contextResize, List.getElem?_append_right (Nat.le_of_not_lt hq),
      IOManager.newContexts_getElem?]
    split
    · exact ⟨_, rfl⟩
    · exact ⟨0, rfl⟩

theorem fresh_empty {fd : Int} (e : Event) : ¬ Has ({ fd := fd } : IOManager.FdContext).events e ∧
    ({ fd := fd } : IOManager.FdContext).getEventContext e = {} := by
  cases e
  · exact ⟨by simp only; decide, rfl⟩
  · exact ⟨by simp only; decide, rfl⟩

theorem Emptied.contextResize (h : Emptied io) (n : Nat) : Emptied (IOManager.contextResize n io) := by
  intro q e' hno
  rcases contextResize_context n io q with heq | ⟨fd, heq⟩
  · rw [heq] at hno ⊢
    exact h q e' hno
  · rw [heq]
    exact (fresh_empty e').2

variable (cb caller fails) in
/-- The event is armed with its slot, or the kernel refuses. -/
theorem addLocked_free (h : Emptied io) (hno : ¬ Has (io.context p).events e) (fd : Int) :
    ∃ rt io', IOManager.addLocked p fd e cb caller fails io = .ok (rt, io') ∧ Emptied io' ∧
      io'.fdContexts = io.fdContexts ∧ (rt ≠ 0 → io'.context = io.context) := by
  unfold IOManager.addLocked
  dsimp only
  rw [if_neg hno]
  split
  · exact ⟨_, _, rfl, h.of_context rfl, rfl, fun _ => rfl⟩
  · rename_i io₁ hctl
    have hfewer := epollCtl_fewer hctl
    rw [if_neg (not_not.mpr (h p e hno))]
    refine ⟨_, _, rfl, ?_, hfewer.table, fun hrt => absurd rfl hrt⟩
    apply Emptied.setContext (hfewer.emptied h)
    intro e' he'
    rw [IOManager.arm_events] at he'
    rw [IOManager.arm_getEventContext]
    by_cases hee : e = e'
    · subst hee
      exact absurd (has_set_self _) he'
    · rw [has_set_of_ne hee] at he'
      rw [if_neg hee]
      exact h p e' he'

theorem contextAt_of_get {q : Nat} (h : io.fdContexts[fd]? = some q) : io.contextAt fd = io.context q := by
  rw [State.contextAt, h]
  rfl

theorem entry_of_get {q : Nat} (h : io.fdContexts[fd]? = some q) : IOManager.entry fd io = .ok q := by
  simp [IOManager.entry, h]

variable (e cb caller fails) in
/-- Within the table `addEvent` works on the entry of the descriptor. -/
theorem addEvent_within (hlt : (fd : Int) < toInt io.fdContexts.length) :
    ∃ q, io.fdContexts[fd]? = some q ∧
      IOManager.addEvent fd e cb caller fails io = IOManager.addLocked q fd e cb caller fails io := by
  have hlength : fd < io.fdContexts.length := by
    have hle := IOManager.toInt_le io.fdContexts.length
    omega
  refine ⟨_, List.getElem?_eq_getElem hlength, ?_⟩
  unfold IOManager.addEvent IOManager.findContext
  rw [if_pos (by omega), entry_of_get (List.getElem?_eq_getElem hlength)]
  rfl

variable (e cb caller fails) in
/-- Behind the table it works on an entry of the grown one, which is the old entry or that of a fresh context. -/
theorem addEvent_behind (hge : ¬ (fd : Int) < toInt io.fdContexts.length) (htwo : 2 ≤ fd) :
    ∃ n q, (IOManager.contextResize n io).fdContexts[fd]? = some q ∧
      (io.fdContexts[fd]? = some q ∨ io.fdContexts[fd]? = none ∧ io.heap.length ≤ q) ∧
      IOManager.addEvent fd e cb caller fails io =
        IOManager.addLocked q fd e cb caller fails (IOManager.contextResize n io) := by
  have hlength : fd < (IOManager.contextResize (fd * 3 / 2) io).fdContexts.length := by
    rw [IOManager.contextResize_length]
    omega
  have hget := List.getElem?_eq_getElem hlength
  refine ⟨fd * 3 / 2, _, hget, ?_, ?_⟩
  · simp only [IOManager.contextResize] at hget ⊢
    by_cases hkept : fd < io.fdContexts.length
    · rw [List.getElem?_append_left (by rw [List.length_take]; omega), List.getElem?_take, if_pos (by omega)] at hget
      exact .inl hget
    · rw [List.getElem?_append_right (by rw [List.length_take]; omega)] at hget
      exact .inr ⟨List.getElem?_eq_none (by omega), (List.mem_range'_1.mp (List.mem_of_getElem? hget)).1⟩
  · have hgrow : IOManager.growContexts fd io = .ok ((IOManager.contextResize (fd * 3 / 2) io).fdContexts[fd],
        IOManager.contextResize (fd * 3 / 2) io) := by
      unfold IOManager.growContexts
      rw [if_neg (by omega), Int.toNat_natCast]
      dsimp only
      rw [entry_of_get hget]
      rfl
    unfold IOManager.addEvent IOManager.findContext
    rw [if_neg (by omega)]
    show (do
      let x ← IOManager.growContexts fd io
      IOManager.addLocked x.1 fd e cb caller fails x.2) = _
    rw [hgrow]
    rfl

/-- What the grown table has at the entry is what the old one had at the descriptor. -/
theorem has_resized {n q : Nat} (hq : io.fdContexts[fd]? = some q ∨ io.fdContexts[fd]? = none ∧ io.heap.length ≤ q) :
    Has ((IOManager.contextResize n io).context q).events e ↔ Has (io.contextAt fd).events e := by
  have hnew : ∀ q, io.heap.length ≤ q → ¬ Has ((IOManager.contextResize n io).context q).events e := by
    intro q hge
    rcases contextResize_context n io q with heq | ⟨m, heq⟩
    · rw [heq, IOManager.context_of_ge hge]
      exact (fresh_empty e).1
    · rw [heq]
      exact (fresh_empty e).1
  rcases hq with hold | ⟨hnone, hge⟩
  · rw [contextAt_of_get hold]
    by_cases hlt : q < io.heap.length
    · simp only [State.context, IOManager.contextResize, List.getElem?_append_left hlt]
    · have hge := Nat.le_of_not_lt hlt
      rw [IOManager.context_of_ge hge]
      exact iff_of_false (hnew q hge) (fresh_empty e).1
  · rw [State.contextAt, hnone]
    exact iff_of_false (hnew q hge) (fresh_empty e).1

variable (cb caller fails) in
/-- `addEvent` of an event that is free neither fails an assertion nor leaves the table. -/
theorem addEvent_free (h : Emptied io) (hroom : Room io fd) (hno : ¬ Has (io.contextAt fd).events e) :
    ∃ rt io', IOManager.addEvent fd e cb caller fails io = .ok (rt, io') ∧ Emptied io' ∧ Room io' fd ∧
      (rt ≠ 0 → ¬ Has (io'.contextAt fd).events e) := by
  by_cases hlt : (fd : Int) < toInt io.fdContexts.length
  · obtain ⟨q, hget, heq⟩ := addEvent_within e cb caller fails hlt
    rw [contextAt_of_get hget] at hno
    obtain ⟨rt, io', hrun, hempty, htable, hfail⟩ := addLocked_free cb caller fails h hno fd
    refine ⟨rt, io', heq.trans hrun, hempty, .inl (by rw [htable]; exact hlt), ?_⟩
    intro hrt
    rw [contextAt_of_get (by rw [htable]; exact hget), hfail hrt]
    exact hno
  · have htwo : 2 ≤ fd := hroom.resolve_left hlt
    obtain ⟨n, q, hget, hq, heq⟩ := addEvent_behind e cb caller fails hlt htwo
    have hno' : ¬ Has ((IOManager.contextResize n io).context q).events e := fun hhas => hno ((has_resized hq).mp hhas)
    obtain ⟨rt, io', hrun, hempty, htable, hfail⟩ := addLocked_free cb caller fails (h.contextResize n) hno' fd
    refine ⟨rt, io', heq.trans hrun, hempty, .inr htwo, ?_⟩
    intro hrt
    rw [contextAt_of_get (by rw [htable]; exact hget), hfail hrt]
    exact hno'

variable (cb caller fails) in
/-- Of an event that is registered, or of a descriptor without room, it ends the program. -/
theorem addEvent_stuck (h : ¬ (Room io fd ∧ ¬ Has (io.contextAt fd).events e)) :
    ∃ fault, IOManager.addEvent fd e cb caller fails io = .error fault := by
  have htwice : ∀ {s : State} {q : Nat}, Has (s.context q).events e →
      IOManager.addLocked q fd e cb caller fails s = .error .addedTwice := by
    intro s q hhas
    simp [IOManager.addLocked, hhas]
  by_cases hlt : (fd : Int) < toInt io.fdContexts.length
  · have hhas : Has (io.contextAt fd).events e := by
      by_contra hno
      exact h ⟨.inl hlt, hno⟩
    obtain ⟨q, hget, heq⟩ := addEvent_within e cb caller fails hlt
    rw [contextAt_of_get hget] at hhas
    exact ⟨_, heq.trans (htwice hhas)⟩
  · by_cases htwo : 2 ≤ fd
    · have hhas : Has (io.contextAt fd).events e := by
        by_contra hno
        exact h ⟨.inr htwo, hno⟩
      obtain ⟨n, q, hget, hq, heq⟩ := addEvent_behind e cb caller fails hlt htwo
      exact ⟨_, heq.trans (htwice ((has_resized hq).mpr hhas))⟩
    · -- `fd * 1.5` is no more than `fd`
      have hout : IOManager.entry fd (IOManager.contextResize (fd * 3 / 2) io) = .error .outOfRange := by
        have hnone : (IOManager.contextResize (fd * 3 / 2) io).fdContexts[fd]? = none := by
          rw [List.getElem?_eq_none_iff, IOManager.contextResize_length]
          omega
        simp [IOManager.entry, hnone]
      have hgrow : IOManager.growContexts fd io = .error .outOfRange := by
        unfold IOManager.growContexts
        rw [if_neg (by omega), Int.toNat_natCast]
        dsimp only
        rw [hout]
        rfl
      refine ⟨.outOfRange, ?_⟩
      unfold IOManager.addEvent IOManager.findContext
      rw [if_neg (by omega)]
      show (do
        let x ← IOManager.growContexts fd io
        IOManager.addLocked x.1 fd e cb caller fails x.2) = _
      rw [hgrow]
      rfl

theorem Emptied.addLocked (h : Emptied io) {rt : Int} {q : Nat} {fd : Int}
    (hrun : IOManager.addLocked q fd e cb caller fails io = .ok (rt, io')) : Emptied io' := by
  by_cases hhas : Has (io.context q).events e
  · simp [IOManager.addLocked, hhas] at hrun
  · obtain ⟨rt', io₁, hok, hempty, -⟩ := addLocked_free cb caller fails h hhas fd
    rw [hok] at hrun
    cases hrun
    exact hempty

theorem Emptied.addEvent (h : Emptied io) {rt : Int} {fd : Int}
    (hrun : IOManager.addEvent fd e cb caller fails io = .ok (rt, io')) : Emptied io' := by
  unfold IOManager.addEvent at hrun
  cases hfind : IOManager.findContext fd io with
  | error f => rw [hfind] at hrun; cases hrun
  | ok found =>
    rw [hfind] at hrun
    cases found with
    | some q => exact h.addLocked hrun
    | none =>
      -- the table grows first
      replace hrun : (do
        let x ← IOManager.growContexts fd io
        IOManager.addLocked x.1 fd e cb caller fails x.2) = .ok (rt, io') := hrun
      cases hgrow : IOManager.growContexts fd io with
      | error f =>
        rw [hgrow] at hrun
        cases hrun
      | ok x =>
        rw [hgrow] at hrun
        have hx : x.2 = IOManager.contextResize (fd.toNat * 3 / 2) io := by
          unfold IOManager.growContexts at hgrow
          split at hgrow
          · cases hgrow
          · cases hentry : IOManager.entry fd (IOManager.contextResize (fd.toNat * 3 / 2) io) with
            | error f =>
              dsimp only at hgrow
              rw [hentry] at hgrow
              cases hgrow
            | ok q =>
              dsimp only at hgrow
              rw [hentry] at hgrow
              cases hgrow
              rfl
        have hempty : Emptied x.2 := by
          rw [hx]
          exact h.contextResize _
        exact hempty.addLocked hrun

theorem Emptied.delLocked (h : Emptied io) {r : Bool} {q : Nat} {fd : Int}
    (hrun : IOManager.delLocked q fd e fails io = .ok (r, io')) : Emptied io' := by
  unfold IOManager.delLocked at hrun
  dsimp only at hrun
  split at hrun
  · cases hrun
    exact h
  · split at hrun
    · cases hrun
      exact h.of_context rfl
    · rename_i io₁ hctl
      cases hrun
      apply Emptied.setContext ((epollCtl_fewer hctl).emptied h)
      intro e' he'
      rw [IOManager.FdContext.resetEventContext, IOManager.setEventContext_events] at he'
      rw [IOManager.FdContext.resetEventContext, IOManager.getEventContext_setEventContext]
      split
      · rfl
      · exact h q e' he'

theorem Emptied.withContext (h : Emptied io) {r : Bool} {fd : Int}
    {body : Nat → State → Except IOManager.Fault (Bool × State)}
    (hbody : ∀ q, body q io = .ok (r, io') → Emptied io') (hrun : IOManager.withContext fd body io = .ok (r, io')) :
    Emptied io' := by
  unfold IOManager.withContext at hrun
  split at hrun
  · cases hrun
    exact h
  · cases hentry : IOManager.entry fd io with
    | error f => rw [hentry] at hrun; cases hrun
    | ok q =>
      rw [hentry] at hrun
      exact hbody q hrun

theorem map_snd_ok {α : Type} {r : Except IOManager.Fault (α × State)} (h : Prod.snd <$> r = .ok io') :
    ∃ a, r = .ok (a, io') := by
  cases r with
  | error f => cases h
  | ok x =>
    cases h
    exact ⟨x.1, rfl⟩

/-- Every operation keeps the slots of what is not registered empty, `delEvent` included. -/
theorem Emptied.exec (h : Emptied io) {op : IOManager.IoOp} (hrun : op.exec fails io = .ok io') : Emptied io' := by
  cases op with
  | addEvent fd event cb caller =>
    obtain ⟨rt, hok⟩ := map_snd_ok hrun
    exact h.addEvent hok
  | delEvent fd event =>
    obtain ⟨r, hok⟩ := map_snd_ok hrun
    exact h.withContext (fun q hq => h.delLocked hq) hok
  | cancelEvent fd event =>
    obtain ⟨r, hok⟩ := map_snd_ok hrun
    exact (withContext_fewer (fun q hq => cancelLocked_fewer hq) hok).emptied h
  | cancelAll fd =>
    obtain ⟨r, hok⟩ := map_snd_ok hrun
    exact (withContext_fewer (fun q hq => cancelAllLocked_fewer hq) hok).emptied h
  | dispatch p mask => exact (dispatch_fewer hrun).emptied h

theorem Visited.emptied (h : Visited io) : Emptied io := by
  induction h with
  | init =>
    apply Emptied.contextResize
    intro q e' _
    cases e' <;> rfl
  | exec op fails _ hrun ih => exact ih.exec hrun
  | close fd _ ih => exact ih.of_context rfl

end

/-! ## The call goes on -/

/-- The timer that the fiber has in its hands. -/
def Pc.timer : Pc → Option Nat
  | .addEvent timer | .yield timer | .parked timer | .resumed timer | .failed timer _ => timer
  | _ => none

/-- The fiber is in its wait, or about to be. -/
def Pc.waits : Pc → Bool
  | .yield _ | .parked _ => true
  | _ => false

/-- `cancel` of the timer finds it, or finds its callback gone. -/
structure Cancellable (timers : TimerManager) (a : Nat) : Prop where
  single : (timers.at a).recurring = false
  found : (timers.at a).cb = none ∨ a ∈ timers.timers

/-- The fiber is never stuck: it goes on from where it is, whatever the environment answers, except in its wait
while its event is registered. -/
structure GoesOn (c : Call) (s : Sys) : Prop where
  called : s.pc = .retry → ∀ r, ∃ s', c.step s (.sysCall r) = some s' ∧
    s'.pc = if r = .error EINTR then .retry else if r = .error EAGAIN then .arm else .done r
  armed : s.pc = .arm → ∀ a now, s.timers.heap a = none →
    ∃ s' timer, c.step s (.arm a now) = some s' ∧ s'.pc = .addEvent timer
  added : ∀ timer, s.pc = .addEvent timer → ∀ fails error,
    ∃ s', c.step s (.addEvent fails error) = some s' ∧ (s'.pc = .yield timer ∨ s'.pc = .failed timer error.errno)
  yields : ∀ timer, s.pc = .yield timer → ∃ s', c.step s .yield = some s' ∧ s'.pc = .parked timer
  wakes : ∀ timer, s.pc = .parked timer → ¬ Registered c s →
    ∃ s', c.step s .resume = some s' ∧ s'.pc = .resumed timer
  woken : ∀ timer, s.pc = .resumed timer → ∃ s', c.step s .cancelTimer = some s' ∧ s'.pc = .test
  tested : s.pc = .test → ∃ s', c.step s .test = some s' ∧ (s'.pc = .retry ∨ ∃ r, s'.pc = .done r)
  fails : ∀ timer errno, s.pc = .failed timer errno →
    ∃ s', c.step s .cancelTimer = some s' ∧ s'.pc = .done (.error errno)

/-- What keeps the call from getting stuck. -/
structure Running (c : Call) (s : Sys) : Prop where
  timers : Timer.Inv s.timers
  exist : ∀ a ∈ s.armed, (s.timers.heap a).isSome
  timer : ∀ a, s.pc.timer = some a → a ∈ s.armed ∧ Cancellable s.timers a
  emptied : Emptied s.io
  room : Room s.io c.fd
  free : s.pc.waits = false → ¬ Registered c s

section
variable {c : Call} {s s' : Sys} {act : Act}

theorem Cancellable.cancel {timers : TimerManager} (hinv : Timer.Inv timers) {a : Nat} (h : Cancellable timers a) :
    ∃ r timers', timers.cancel a = .ok (r, timers') := by
  rcases Timer.cancel_cases hinv a with ⟨-, heq⟩ | ⟨hcb, hout, -⟩ | ⟨-, -, l, heq, -⟩
  · exact ⟨_, _, heq⟩
  · rcases h.found with hnone | hin
    · rw [hnone] at hcb
      cases hcb
    · exact absurd hin hout
  · exact ⟨_, _, heq⟩

theorem Running.cancelTimer (h : Running c s) : ∃ timers, s.cancelTimer s.pc.timer = some timers := by
  unfold Sys.cancelTimer
  cases htimer : s.pc.timer with
  | none => exact ⟨_, rfl⟩
  | some a =>
    obtain ⟨r, timers, heq⟩ := (h.timer a htimer).2.cancel h.timers
    exact ⟨timers, by simp only [heq]⟩

theorem Running.goesOn (h : Running c s) (hiom : c.iom = true) : GoesOn c s where
  called hpc r := by
    simp only [Call.step, Call.fiberStep, hpc]
    split
    · exact ⟨s, rfl, hpc⟩
    · split
      · exact ⟨_, rfl, rfl⟩
      · exact ⟨_, rfl, rfl⟩
  armed hpc a now hfree := by
    simp only [Call.step, Call.fiberStep, hpc, hiom, and_self, if_true, hfree]
    split
    · exact ⟨_, _, rfl, rfl⟩
    · exact ⟨_, _, rfl, rfl⟩
  added timer hpc fails error := by
    -- the event is free whenever the fiber does not wait
    have hno : ¬ Registered c s := h.free (by rw [hpc]; rfl)
    obtain ⟨rt, io, hrun, -⟩ :=
      addEvent_free none c.caller fails h.emptied h.room hno
    simp only [Call.step, Call.fiberStep, hpc, hrun]
    split
    · exact ⟨_, rfl, .inr rfl⟩
    · exact ⟨_, rfl, .inl rfl⟩
  yields timer hpc := by
    simp only [Call.step, Call.fiberStep, hpc]
    exact ⟨_, rfl, rfl⟩
  wakes timer hpc hno := by
    unfold Registered at hno
    simp only [Call.step, Call.fiberStep, hpc]
    rw [if_neg hno]
    exact ⟨_, rfl, rfl⟩
  woken timer hpc := by
    -- the timer of this round can be cancelled
    obtain ⟨timers, hcancel⟩ := h.cancelTimer
    rw [hpc] at hcancel
    simp only [Call.step, Call.fiberStep, hpc]
    exact ⟨_, by rw [show s.cancelTimer timer = _ from hcancel]; rfl, rfl⟩
  tested hpc := by
    simp only [Call.step, Call.fiberStep, hpc]
    split
    · exact ⟨_, rfl, .inr ⟨_, rfl⟩⟩
    · exact ⟨_, rfl, .inl rfl⟩
  fails timer errno hpc := by
    obtain ⟨timers, hcancel⟩ := h.cancelTimer
    rw [hpc] at hcancel
    simp only [Call.step, Call.fiberStep, hpc]
    exact ⟨_, by rw [show s.cancelTimer timer = _ from hcancel]; rfl, rfl⟩

/-- A step that leaves the timers, the registrations and what the fiber has in its hands. -/
theorem Running.of_move (h : Running c s) (hio : s'.io = s.io) (htimers : s'.timers = s.timers)
    (harmed : s'.armed = s.armed) (htimer : ∀ a, s'.pc.timer = some a → s.pc.timer = some a)
    (hfree : s'.pc.waits = false → s.pc.waits = false ∨ ¬ Registered c s) : Running c s' := by
  refine ⟨by rw [htimers]; exact h.timers, by rw [htimers, harmed]; exact h.exist, ?_, by rw [hio]; exact h.emptied,
    by rw [hio]; exact h.room, ?_⟩
  · intro a ha
    rw [htimers, harmed]
    exact h.timer a (htimer a ha)
  · intro hpc
    rw [Registered, hio]
    rcases hfree hpc with hbefore | hno
    · exact h.free hbefore
    · exact hno

/-- A step of the others on the registrations. -/
theorem Running.of_fewer (h : Running c s) {io : State} (hio : Fewer s.io io) : Running c { s with io := io } := by
  refine ⟨h.timers, h.exist, h.timer, hio.emptied h.emptied, ?_, fun hpc hreg => h.free hpc (hio.contextAt hreg)⟩
  rw [Room, hio.table]
  exact h.room

/-- A step of the others on the timers. -/
theorem Running.of_timers (h : Running c s) {timers : TimerManager} (hinv : Timer.Inv timers)
    (hexist : ∀ a ∈ s.armed, (timers.heap a).isSome)
    (hkeep : ∀ a ∈ s.armed, Cancellable s.timers a → Cancellable timers a) : Running c { s with timers := timers } where
  timers := hinv
  exist := hexist
  timer a ha := ⟨(h.timer a ha).1, hkeep a (h.timer a ha).1 (h.timer a ha).2⟩
  emptied := h.emptied
  room := h.room
  free := h.free

theorem Running.arm (h : Running c s) {a : Nat} {now : UInt64} (hstep : c.step s (.arm a now) = some s') :
    Running c s' := by
  obtain ⟨hpc, ⟨-, hfree, rfl⟩ | ⟨-, rfl⟩⟩ := step_arm hstep
  · have hat : (s.timers.addTimer a s.timeout (some a) false now).at a =
        { recurring := false, ms := s.timeout, next := now + s.timeout, cb := some a } := Timer.at_put_self _ a _
    refine ⟨h.timers.addTimer _ _ _ _, ?_, ?_, h.emptied, h.room, fun _ => h.free (by rw [hpc]; rfl)⟩
    · intro b hb
      rcases List.mem_cons.mp hb with rfl | hb
      · exact Timer.put_heap _ _ _
      · exact Timer.isSome_put _ (h.exist b hb)
    · intro b hb
      cases hb
      exact ⟨List.mem_cons_self, by rw [hat], .inr (Timer.mem_addLocked.mpr (.inl rfl))⟩
  · exact h.of_move rfl rfl rfl (by simp [Pc.timer]) (fun _ => .inl (by rw [hpc]; rfl))

theorem Running.addEvent (h : Running c s) {fails : Bool} {error : CtlError}
    (hstep : c.step s (.addEvent fails error) = some s') : Running c s' := by
  simp only [Call.step, Call.fiberStep] at hstep
  split at hstep
  · rename_i timer hpc
    have hno : ¬ Registered c s := h.free (by rw [hpc]; rfl)
    obtain ⟨rt, io, hrun, hempty, hroom, hfail⟩ :=
      addEvent_free none c.caller fails h.emptied h.room hno
    have htimer : ∀ a, timer = some a → a ∈ s.armed ∧ Cancellable s.timers a := by
      intro a ha
      exact h.timer a (by rw [hpc]; exact ha)
    rw [hrun] at hstep
    dsimp only at hstep
    split at hstep
    · rename_i hrt
      cases hstep
      exact ⟨h.timers, h.exist, htimer, hempty, hroom, fun _ => hfail hrt⟩
    · cases hstep
      exact ⟨h.timers, h.exist, htimer, hempty, hroom, fun hfalse => by cases hfalse⟩
  · cases hstep

theorem Running.cancelled (h : Running c s) (hstep : c.step s .cancelTimer = some s') : Running c s' := by
  obtain ⟨timer, timers, hcancel, hrest⟩ := step_cancelTimer hstep
  have hkeep : Timer.Inv timers ∧ ∀ a ∈ s.armed, (timers.heap a).isSome := by
    unfold Sys.cancelTimer at hcancel
    split at hcancel
    · cases hcancel
      exact ⟨h.timers, h.exist⟩
    · rename_i b
      split at hcancel
      · rename_i r timers' hrun
        cases hcancel
        have hcall : Timer.Call.cancel.run s.timers b = .ok (r, timers) := hrun
        exact ⟨h.timers.call hcall, fun a ha => heap_call h.timers (h.exist a ha) hcall⟩
      · cases hcancel
  rcases hrest with ⟨hpc, rfl⟩ | ⟨errno, hpc, rfl⟩ <;>
    exact ⟨hkeep.1, hkeep.2, by simp [Pc.timer], h.emptied, h.room, fun _ => h.free (by rw [hpc]; rfl)⟩

theorem Running.expire (h : Running c s) {now : UInt64} {tmp : Nat}
    (hstep : c.step s (.expire now tmp) = some s') : Running c s' := by
  obtain rfl := step_expire hstep
  have hnext := h.of_timers (h.timers.listExpiredCb now tmp) (fun a ha => Timer.listExpiredCb_heap tmp (h.exist a ha))
    (fun a _ ha => by
      -- a timer that has fired has lost its callback, and another stays where it was
      by_cases hexp : a ∈ s.timers.expired now tmp
      · have hat := Timer.listExpiredCb_at_mem h.timers hexp
        rw [Timer.afterFiring, ha.single] at hat
        exact ⟨by simp [hat], .inl (by simp [hat])⟩
      · have hat := Timer.listExpiredCb_at_of_not_mem hexp
        refine ⟨by rw [hat]; exact ha.single, ?_⟩
        rw [hat]
        exact ha.found.imp id fun hin => (Timer.mem_expired_or_listExpiredCb tmp hin).resolve_left hexp)
  exact ⟨hnext.timers, hnext.exist, hnext.timer, hnext.emptied, hnext.room, hnext.free⟩

theorem Running.other (h : Running c s) {op : Timer.Op} (hallow : (Act.other op).Allowed s)
    (hstep : c.step s (.other op) = some s') : Running c s' := by
  obtain ⟨timers, hrun, rfl⟩ := step_other hstep
  have hkept : ∀ {timers : TimerManager} {a : Nat}, timers.at a = s.timers.at a →
      (a ∈ s.timers.timers → a ∈ timers.timers) → Cancellable s.timers a → Cancellable timers a := by
    intro timers a hat hin ha
    exact ⟨by rw [hat]; exact ha.single, by rw [hat]; exact ha.found.imp id hin⟩
  cases op with
  | addTimer b ms cb recurring now =>
    cases hrun
    refine h.of_timers (h.timers.addTimer ms cb recurring now) (fun a ha => Timer.isSome_put _ (h.exist a ha)) ?_
    intro a ha
    have hab : a ≠ b := by
      intro heq
      have hsome := h.exist a ha
      rw [heq, show s.timers.heap b = none from hallow] at hsome
      cases hsome
    exact hkept (Timer.at_put_of_ne hab _) fun hm => Timer.mem_addLocked.mpr (.inr hm)
  | call b call =>
    obtain ⟨r, hcall⟩ := Timer.step_call hrun
    refine h.of_timers (h.timers.call hcall) (fun a ha => heap_call h.timers (h.exist a ha) hcall) ?_
    intro a ha
    have hab : a ≠ b := fun heq => hallow.1 (heq ▸ ha)
    have hat : timers.at a = s.timers.at a := by
      rcases Timer.call_cases h.timers hcall with rfl | ⟨-, l, rfl, -⟩ | ⟨-, t, rfl | rfl⟩
      · rfl
      · rfl
      · exact Timer.at_put_of_ne hab t
      · exact Timer.at_put_of_ne hab t
    exact hkept hat fun hm => mem_call_of_ne h.timers hab hm hcall
  | getNextTimer now =>
    cases hrun
    rw [Timer.getNextTimer_snd]
    exact h.of_timers ⟨h.timers.sorted, h.timers.exists_of_mem⟩ h.exist fun a _ ha => ⟨ha.single, ha.found⟩
  | listExpiredCb now tmp => exact absurd hallow id
  | release b =>
    cases hrun
    have hheap : ∀ a ∈ s.armed, (s.timers.release b).heap a = s.timers.heap a := by
      intro a ha
      have hab : a ≠ b := fun heq => hallow.1 (heq ▸ ha)
      simp only [TimerManager.release, Function.update_of_ne hab]
    refine h.of_timers (h.timers.release hallow.2) (fun a ha => by rw [hheap a ha]; exact h.exist a ha) ?_
    intro a ha
    exact hkept (by simp only [TimerManager.at, hheap a ha]) id

theorem Running.step (h : Running c s) (hallow : act.Allowed s) (hstep : c.step s act = some s') : Running c s' := by
  cases act with
  | sysCall r =>
    rcases step_sysCall hstep with ⟨hpc, rfl⟩ | ⟨hpc, rfl | rfl | ⟨-, rfl⟩⟩
    · exact h.of_move rfl rfl rfl (by simp [Pc.timer]) (fun _ => .inl (by rw [hpc]; rfl))
    · exact h
    · exact h.of_move rfl rfl rfl (by simp [Pc.timer]) (fun _ => .inl (by rw [hpc]; rfl))
    · exact h.of_move rfl rfl rfl (by simp [Pc.timer]) (fun _ => .inl (by rw [hpc]; rfl))
  | arm a now => exact h.arm hstep
  | addEvent fails error => exact h.addEvent hstep
  | yield =>
    obtain ⟨timer, hpc, rfl⟩ := step_yield hstep
    exact h.of_move rfl rfl rfl (by simp [Pc.timer, hpc]) (fun hfalse => by cases hfalse)
  | resume =>
    -- the trigger that woke the fiber has cleared the event
    have hno : ¬ Registered c s := by
      simp only [Call.step, Call.fiberStep] at hstep
      split at hstep
      · intro hreg
        unfold Registered at hreg
        rw [if_pos hreg] at hstep
        cases hstep
      · cases hstep
    obtain ⟨timer, hpc, rfl⟩ := step_resume hstep
    exact h.of_move rfl rfl rfl (by simp [Pc.timer, hpc]) (fun _ => .inr hno)
  | cancelTimer => exact h.cancelled hstep
  | test =>
    obtain ⟨hpc, ⟨-, rfl⟩ | ⟨-, rfl⟩⟩ := step_test hstep <;>
      exact h.of_move rfl rfl rfl (by simp [Pc.timer]) (fun _ => .inl (by rw [hpc]; rfl))
  | expire now tmp => exact h.expire hstep
  | callbackTest a =>
    rcases step_callbackTest hstep with ⟨-, rfl⟩ | ⟨-, rfl⟩ <;>
      exact h.of_move rfl rfl rfl (fun _ ha => ha) (fun hpc => .inl hpc)
  | callbackStore a =>
    obtain rfl := step_callbackStore hstep
    exact h.of_move rfl rfl rfl (fun _ ha => ha) (fun hpc => .inl hpc)
  | callbackCancel a fails =>
    obtain ⟨-, r, io, hrun, rfl⟩ := step_callbackCancel hstep
    have hnext := h.of_fewer (withContext_fewer (fun p hp => cancelLocked_fewer hp) hrun)
    exact ⟨hnext.timers, hnext.exist, hnext.timer, hnext.emptied, hnext.room, hnext.free⟩
  | dispatch p mask fails =>
    obtain ⟨io, hrun, rfl⟩ := step_dispatch hstep
    exact h.of_fewer (dispatch_fewer hrun)
  | cancelAll fails =>
    obtain ⟨r, io, hrun, rfl⟩ := step_cancelAll hstep
    exact h.of_fewer (withContext_fewer (fun p hp => cancelAllLocked_fewer hp) hrun)
  | closeF =>
    obtain rfl := step_closeF hstep
    exact h.of_fewer ⟨rfl, fun _ _ he => he, id⟩
  | other op => exact h.other hallow hstep

theorem Running.reached {ok : Sys → Act → Prop} {s₀ : Sys} (h : Running c s₀) (hrun : c.Reached ok s₀ s) :
    Running c s := by
  induction hrun with
  | start => exact h
  | step act _ hallow _ hstep ih => exact ih.step hallow hstep

end

/-! ## Every run -/

/-- Nothing `do_io` returns is `EAGAIN`; and it is never stuck, so that it returns an answer of the system call
other than `EINTR` and `EAGAIN`, and after an `EAGAIN` waits for its event, fails, or calls again. -/
def HidesEagain (c : Call) (s₀ : Sys) : Prop :=
  ∀ s, c.Reached (fun _ _ => True) s₀ s → (∀ r, s.pc = .done r → Hidden r) ∧ GoesOn c s

/-- The loop of `do_io` can wait: the hook is on, there is an `IOManager`, and the event of the call is free
to be registered. -/
structure Call.CanWait (c : Call) (io : State) : Prop where
  hook_enable : c.hook_enable = true
  iom : c.iom = true
  room : Room io c.fd
  free : ¬ Has (io.contextAt c.fd).events c.event

section
variable {c : Call} {p : Process} {io : State} {timers : TimerManager} {ctx : FdCtx}

variable (io timers) in
theorem start_pc (hctx : (p.get c.fd false).1 = some ctx) (hsock : ctx.isSocket = true) (hopen : ctx.isClosed = false)
    (huser : ctx.userNonblock = false) (hon : c.hook_enable = true) : (c.start p io timers).pc = .retry := by
  simp [Call.start, Call.enter, hon, hctx, hsock, hopen, huser]

/-- The first system call answers `EAGAIN`. -/
theorem reached_arm (hpc : (c.start p io timers).pc = .retry) :
    c.Reached (fun _ _ => True) (c.start p io timers) { c.start p io timers with pc := .arm } := by
  have hstep : c.step (c.start p io timers) (.sysCall (.error EAGAIN)) =
      some { c.start p io timers with pc := .arm } := by
    simp only [Call.step, Call.fiberStep, hpc]
    rfl
  exact .step (.sysCall (.error EAGAIN)) .start trivial trivial hstep

/-- Without an `IOManager` the fiber goes no further. -/
theorem stuck_without_iom (hiom : c.iom = false) {s : Sys} (hpc : s.pc = .arm) {a : Nat}
    (hfree : s.timers.heap a = none) : ¬ GoesOn c s := by
  intro h
  obtain ⟨s', timer, hstep, -⟩ := h.armed hpc a 0 hfree
  simp [Call.step, Call.fiberStep, hiom] at hstep

/-- Where the event is registered already, or has no room, `addEvent` ends the program. -/
theorem stuck_when_taken {s : Sys} (hstuck : ¬ (Room s.io c.fd ∧ ¬ Registered c s)) {timer : Option Nat}
    (hpc : s.pc = .addEvent timer) : ¬ GoesOn c s := by
  intro h
  obtain ⟨s', hstep, -⟩ := h.added timer hpc false .EPERM
  obtain ⟨fault, hrun⟩ := addEvent_stuck none c.caller false hstuck
  simp [Call.step, Call.fiberStep, hpc, hrun] at hstep

end

/-- **`EAGAIN` is hidden from user-blocking sockets exactly where the loop can wait**: for a call on
a descriptor whose `FdCtx` is an open socket that the user has not made non-blocking, from any registrations and
timers that operations leave, whatever the system call answers, and whatever wake-ups, timeouts and `close` do
meanwhile. -/
theorem eagain_hidden_iff (c : Call) (p : Process) (io : State) (timers : TimerManager)
    (hio : Visited io) (htimers : Timer.Visited timers)
    (ctx : FdCtx) (hctx : (p.get c.fd false).1 = some ctx) (hsock : ctx.isSocket = true)
    (hopen : ctx.isClosed = false) (huser : ctx.userNonblock = false) :
    HidesEagain c (c.start p io timers) ↔ c.CanWait io := by
  constructor
  · intro h
    -- without the hook the first answer of the kernel goes to the caller
    have hon : c.hook_enable = true := by
      by_contra hoff
      have hfalse : c.hook_enable = false := by simpa using hoff
      have hpc : (c.start p io timers).pc = .direct := by
        simp [Call.start, Call.enter, hfalse]
      have hstep : c.step (c.start p io timers) (.sysCall (.error EAGAIN)) =
          some { c.start p io timers with pc := .done (.error EAGAIN) } := by
        simp only [Call.step, Call.fiberStep, hpc]
      have hbad := (h _ (.step (.sysCall (.error EAGAIN)) .start trivial trivial hstep)).1 _ rfl
      exact hbad rfl
    have harm := reached_arm (start_pc io timers hctx hsock hopen huser hon)
    obtain ⟨a, hfree⟩ := htimers.exists_free
    have hiom : c.iom = true := by
      by_contra hnone
      exact stuck_without_iom (by simpa using hnone) rfl hfree (h _ harm).2
    -- and with an event that is taken, or has no room, the program ends in `addEvent`
    have hfit : Room io c.fd ∧ ¬ Has (io.contextAt c.fd).events c.event := by
      by_contra hstuck
      obtain ⟨s', timer, hstep, hpc'⟩ := (h _ harm).2.armed rfl a 0 hfree
      have hio' : s'.io = io := by
        obtain ⟨-, ⟨-, -, rfl⟩ | ⟨-, rfl⟩⟩ := step_arm hstep <;> rfl
      have hnext := h _ (.step (.arm a 0) harm trivial trivial hstep)
      exact stuck_when_taken (by rw [Registered, hio']; exact hstuck) hpc' hnext.2
    exact ⟨hon, hiom, hfit.1, hfit.2⟩
  · intro hwait s hrun
    have hpc := start_pc io timers hctx hsock hopen huser hwait.hook_enable
    have hhides : Hides (c.start p io timers) := by
      refine ⟨by rw [hpc]; simp, Or.inl rfl, ?_, ?_⟩
      · rw [hpc]
        simp
      · rw [hpc]
        simp
    have hruns : Running c (c.start p io timers) := by
      refine ⟨htimers.inv, fun a ha => absurd ha List.not_mem_nil, ?_, hio.emptied, hwait.room, fun _ => hwait.free⟩
      rw [hpc]
      simp [Pc.timer]
    exact ⟨(hhides.reached hrun).done, (hruns.reached hrun).goesOn hwait.iom⟩

/-! ## Accepted sockets -/

/-- `accept` after `do_io` has returned a descriptor. -/
def Process.accepted (p : Process) (fd : Nat) : Process := (p.get fd true).2

/-- The descriptor `accept` returns is a user-blocking socket under management, and non-blocking in
the kernel, whether or not the thread has the hook enabled. -/
theorem accepted_ctx (p : Process) (fd : Nat) (hsock : p.stat fd = some true) (hnew : p.ctx fd = none) :
    ∃ ctx, ((p.accepted fd).get fd false).1 = some ctx ∧ ctx.isSocket = true ∧ ctx.isClosed = false ∧
      ctx.userNonblock = false ∧ (p.accepted fd).flags fd &&& O_NONBLOCK ≠ 0 := by
  obtain ⟨hctx, hset, -⟩ := create_ctx hsock
  have hlt := lt_of_ctx hctx
  refine ⟨{ isInit := true, isSocket := true, sysNonblock := true, fd := fd }, ?_, rfl, rfl, rfl, ?_⟩
  · rw [Process.accepted, get_new hnew, Process.get, if_neg (Nat.not_le.mpr hlt), if_pos (Or.inr rfl)]
    exact hctx
  · rw [Process.accepted, get_new hnew]
    exact hset

/-- `set_hook_enable(false)` at the head of `Scheduler::run`. -/
def runHookEnable : Bool := false

/-- `read` on a socket that `accept` returned, in a fiber of a scheduler. -/
def readAccepted (hook_enable : Bool) : Call where
  hook_enable := hook_enable
  iom := true
  fd := 7
  event := .READ
  timeout_so := .SO_RCVTIMEO
  caller := { scheduler := some 1, fiber := 1 }

/-- With the hook enabled `EAGAIN` is hidden. -/
theorem eagain_hidden_hooked :
    HidesEagain (readAccepted true)
      ((readAccepted true).start (sockets.accepted 7) IOManager.init (Timer.new 100)) := by
  obtain ⟨ctx, hctx, hsock, hopen, huser, -⟩ := accepted_ctx sockets 7 rfl (by decide)
  exact (eagain_hidden_iff (readAccepted true) _ _ _ .init ⟨100, .refl⟩ ctx hctx hsock hopen huser).mpr
    ⟨rfl, rfl, by decide, by decide⟩

/-- On a thread of `Scheduler::run` it is returned. -/
theorem eagain_returned :
    ((sockets.accepted 7).flags 7 &&& O_NONBLOCK ≠ 0) ∧
      (∃ s, (readAccepted runHookEnable).Reached (fun _ _ => True)
        ((readAccepted runHookEnable).start (sockets.accepted 7) IOManager.init (Timer.new 100)) s ∧
        s.pc = .done (.error EAGAIN)) ∧
      ¬ HidesEagain (readAccepted runHookEnable)
        ((readAccepted runHookEnable).start (sockets.accepted 7) IOManager.init (Timer.new 100)) := by
  have hrun : ∃ s, (readAccepted runHookEnable).Reached (fun _ _ => True)
      ((readAccepted runHookEnable).start (sockets.accepted 7) IOManager.init (Timer.new 100)) s ∧
      s.pc = .done (.error EAGAIN) :=
    ⟨_, .step (.sysCall (.error EAGAIN)) .start trivial trivial rfl, rfl⟩
  refine ⟨by decide, hrun, ?_⟩
  intro h
  obtain ⟨s, hs, hpc⟩ := hrun
  exact (h s hs).1 _ hpc rfl

end Sylar.Hook
