import Mathlib.Data.List.Basic
import Sylar.Timer.Expiry
import Sylar.Hook.Timeout
import Sylar.IOManager.Frame

/- `connect_with_timeout` of `sylar/hook.cc`, among the threads that act on its event and its timer.

   The fiber arms a timer, registers for `WRITE` and parks. What has woken it, it does not
   ask: if its timer has not stored `ETIMEDOUT` it reads `SO_ERROR`, and that is 0 for as long
   as the connection is in progress. So 0 is returned for a connection only because
   nothing but the kernel's report and the timer clears the event. A `close` in another
   fiber that wakes this one first, an `addEvent` that fails, or a report for an earlier
   registration of the descriptor that `idle` handles only now, makes `connect` succeed on
   a socket that is not connected (`not_connected`).

   `connect_answers` says for every other run that a returned 0 means a connection, that an
   error is one the kernel has reported, or `ETIMEDOUT` after the timer has expired, and that
   neither the timer nor the event is left behind.

   The registrations, the timers and the callback are those of `do_io`; beside them stands
   the connection, as the kernel has it. -/
namespace Sylar.Connect
open Sylar.IOManager (Event Caller Has IoOp)
open Sylar.Timer (TimerManager)
open Sylar.Hook (Result EBADF ETIMEDOUT noTimeout Process)

def EINPROGRESS : Nat := 115

/-! ## The call -/

structure Call where
  /-- `t_hook_enable` of the calling thread. -/
  hook_enable : Bool
  /-- `IOManager::GetThis()` is not null. -/
  iom : Bool
  fd : Nat
  timeout_ms : UInt64
  caller : Caller

/-- Where the fiber is; with the timer, if one was armed. -/
inductive Pc where
  /-- About to return what `connect_f` returns. -/
  | direct
  | connect
  | arm
  | addEvent (timer : Option Nat)
  | yield (timer : Option Nat)
  | parked (timer : Option Nat)
  | resumed (timer : Option Nat)
  /-- About to test `tinfo->cancelled`. -/
  | test
  /-- `addEvent` has failed. -/
  | failed (timer : Option Nat)
  | getsockopt
  | done (r : Result)
  deriving DecidableEq, Repr

def Pc.isDone : Pc → Bool
  | .done _ => true
  | _ => false

/-- The connection, with the error that `SO_ERROR` holds. -/
inductive Conn where
  | idle
  | inProgress
  | established (error : Nat)
  | refused (error : Nat)
  deriving DecidableEq, Repr

def Conn.error : Conn → Nat
  | .established error => error
  | .refused error => error
  | _ => 0

/-- A read of `SO_ERROR` clears it. -/
def Conn.clear : Conn → Conn
  | .established _ => .established 0
  | .refused _ => .refused 0
  | c => c

/-- What `connect_f` makes of it. -/
def Conn.called (c : Conn) (r : Result) : Conn :=
  match r with
  | .count _ => .established 0
  | .error errno => if errno = EINPROGRESS then .inProgress else c

/-- Where the callback of the timer is. -/
inductive Callback where
  | none
  /-- Handed out by `listExpiredCb`. -/
  | queued
  /-- Past `!t || t->cancelled`. -/
  | passed
  /-- `ETIMEDOUT` is stored. -/
  | cancelling
  | spent
  deriving DecidableEq, Repr

structure Sys where
  io : IOManager.State
  timers : TimerManager
  conn : Conn
  pc : Pc
  /-- `tinfo->cancelled`. -/
  cancelled : Nat
  armed : Option Nat
  callback : Callback
  /-- The errors the kernel has reported for the socket, and that of a descriptor unknown to the hook. -/
  reported : List Nat

/-- The tests at the head of `connect_with_timeout`. -/
def Call.enter (c : Call) (p : Process) : Pc :=
  if c.hook_enable = false then .direct
  else
    match (p.get c.fd false).1 with
    | none => .done (.error EBADF)
    | some ctx =>
      if ctx.isClosed then .done (.error EBADF)
      else if ctx.isSocket = false then .direct
      else if ctx.userNonblock then .direct
      else .connect

def Call.start (c : Call) (p : Process) (io : IOManager.State) (timers : TimerManager) : Sys where
  io := io
  timers := timers
  conn := .idle
  pc := c.enter p
  cancelled := 0
  armed := none
  callback := .none
  reported := [EBADF]

/-! ## Steps -/

inductive Act where
  /-- `connect_f` returns. -/
  | connectF (r : Result)
  /-- `addConditionTimer`, with the new timer at `a`. -/
  | arm (a : Nat) (now : UInt64)
  /-- `addEvent`, with whether `epoll_ctl` would fail in it. -/
  | addEvent (fails : Bool)
  | yield
  | resume
  /-- `timer->cancel()`. -/
  | cancelTimer
  | test
  /-- `getsockopt`, with the error it fails with. -/
  | getsockopt (fails : Option Nat)
  /-- `listExpiredCb` in `idle`. -/
  | expire (now : UInt64) (tmp : Nat)
  | callbackTest
  /-- `t->cancelled = ETIMEDOUT`. -/
  | callbackStore
  | callbackCancel (fails : Bool)
  /-- An operation of others on the registrations, or a dispatch. -/
  | io (op : IoOp) (fails : Bool)
  /-- An operation of others on the timers. -/
  | other (op : Timer.Op)
  /-- The kernel establishes the connection, or gives it up. -/
  | establish
  | refuse (errno : Nat)
  /-- The peer resets an established connection. -/
  | reset (errno : Nat)

/-- `timer->cancel()`, if there is a timer. -/
def Sys.cancelTimer (s : Sys) (timer : Option Nat) : Option TimerManager :=
  match timer with
  | none => some s.timers
  | some a =>
    match s.timers.cancel a with
    | .ok (_, timers) => some timers
    | .error _ => none

def errors : Result → List Nat
  | .count _ => []
  | .error errno => [errno]

/-- `connect_f` has returned `r`. -/
def Sys.called (s : Sys) (r : Result) : Sys :=
  { s with conn := s.conn.called r, reported := s.reported ++ errors r }

/-- The steps of the fiber. -/
inductive Call.FiberStep (c : Call) (s : Sys) : Act → Sys → Prop where
  | direct (r : Result) : s.pc = .direct → c.FiberStep s (.connectF r) { s.called r with pc := .done r }
  | inProgress : s.pc = .connect →
      c.FiberStep s (.connectF (.error EINPROGRESS)) { s.called (.error EINPROGRESS) with pc := .arm }
  | returned (r : Result) : s.pc = .connect → r ≠ .error EINPROGRESS →
      c.FiberStep s (.connectF r) { s.called r with pc := .done r }
  | arm (a : Nat) (now : UInt64) : s.pc = .arm → c.iom = true → c.timeout_ms ≠ noTimeout →
      s.timers.heap a = none → c.FiberStep s (.arm a now)
        { s with
          timers := s.timers.addTimer a c.timeout_ms (some a) false now
          armed := some a
          pc := .addEvent (some a) }
  | armNone (a : Nat) (now : UInt64) : s.pc = .arm → c.iom = true → c.timeout_ms = noTimeout →
      c.FiberStep s (.arm a now) { s with pc := .addEvent none }
  | added {timer : Option Nat} {fails : Bool} {io : IOManager.State} : s.pc = .addEvent timer →
      IOManager.addEvent c.fd .WRITE none c.caller fails s.io = .ok (0, io) →
      c.FiberStep s (.addEvent fails) { s with io := io, pc := .yield timer }
  | addFailed {timer : Option Nat} {fails : Bool} {rt : Int} {io : IOManager.State} : s.pc = .addEvent timer →
      IOManager.addEvent c.fd .WRITE none c.caller fails s.io = .ok (rt, io) → rt ≠ 0 →
      c.FiberStep s (.addEvent fails) { s with io := io, pc := .failed timer }
  | yield {timer : Option Nat} : s.pc = .yield timer → c.FiberStep s .yield { s with pc := .parked timer }
  /-- The trigger that scheduled the fiber has cleared its event. -/
  | resume {timer : Option Nat} : s.pc = .parked timer → ¬ Has (s.io.contextAt c.fd).events .WRITE →
      c.FiberStep s .resume { s with pc := .resumed timer }
  | cancelTimer {timer : Option Nat} {timers : TimerManager} : s.pc = .resumed timer →
      s.cancelTimer timer = some timers → c.FiberStep s .cancelTimer { s with timers := timers, pc := .test }
  | cancelFailed {timer : Option Nat} {timers : TimerManager} : s.pc = .failed timer →
      s.cancelTimer timer = some timers → c.FiberStep s .cancelTimer { s with timers := timers, pc := .getsockopt }
  | timedOut : s.pc = .test → s.cancelled ≠ 0 →
      c.FiberStep s .test { s with pc := .done (.error s.cancelled) }
  | inTime : s.pc = .test → s.cancelled = 0 → c.FiberStep s .test { s with pc := .getsockopt }
  | sockoptFails (errno : Nat) : s.pc = .getsockopt → c.FiberStep s (.getsockopt (some errno))
      { s with reported := s.reported ++ [errno], pc := .done (.error errno) }
  | noError : s.pc = .getsockopt → s.conn.error = 0 →
      c.FiberStep s (.getsockopt none) { s with conn := s.conn.clear, pc := .done (.count 0) }
  | error : s.pc = .getsockopt → s.conn.error ≠ 0 →
      c.FiberStep s (.getsockopt none) { s with conn := s.conn.clear, pc := .done (.error s.conn.error) }

/-- The steps of the others. -/
inductive Call.OtherStep (c : Call) (s : Sys) : Act → Sys → Prop where
  | expire (now : UInt64) (tmp : Nat) : s.timers.heap tmp = none → c.OtherStep s (.expire now tmp)
      { s with
        timers := (s.timers.listExpiredCb now tmp).2
        callback := if ∃ a ∈ s.armed, a ∈ s.timers.expired now tmp then .queued else s.callback }
  /-- The condition is gone once `connect_with_timeout` has returned. -/
  | callbackGone : s.callback = .queued → s.pc.isDone ∨ s.cancelled ≠ 0 →
      c.OtherStep s .callbackTest { s with callback := .spent }
  | callbackTest : s.callback = .queued → ¬ (s.pc.isDone ∨ s.cancelled ≠ 0) →
      c.OtherStep s .callbackTest { s with callback := .passed }
  | callbackStore : s.callback = .passed →
      c.OtherStep s .callbackStore { s with cancelled := ETIMEDOUT, callback := .cancelling }
  | callbackCancel {fails r : Bool} {io : IOManager.State} : s.callback = .cancelling →
      IOManager.cancelEvent c.fd .WRITE fails s.io = .ok (r, io) →
      c.OtherStep s (.callbackCancel fails) { s with io := io, callback := .spent }
  | io {op : IoOp} {fails : Bool} {io : IOManager.State} : op.exec fails s.io = .ok io →
      c.OtherStep s (.io op fails) { s with io := io }
  | other {op : Timer.Op} {timers : TimerManager} : op.step s.timers = .ok timers →
      c.OtherStep s (.other op) { s with timers := timers }
  | establish : s.conn = .inProgress → c.OtherStep s .establish { s with conn := .established 0 }
  | refuse {errno : Nat} : s.conn = .inProgress → errno ≠ 0 →
      c.OtherStep s (.refuse errno) { s with conn := .refused errno, reported := s.reported ++ [errno] }
  | reset {errno : Nat} : s.conn = .established 0 → errno ≠ 0 →
      c.OtherStep s (.reset errno) { s with conn := .established errno, reported := s.reported ++ [errno] }

/-- One step. -/
def Call.Step (c : Call) (s : Sys) (act : Act) (s' : Sys) : Prop := c.FiberStep s act s' ∨ c.OtherStep s act s'

/-- The event of the call is registered. -/
def Registered (c : Call) (s : Sys) : Prop := Has (s.io.contextAt c.fd).events .WRITE

/-- The others keep the rules of the `IOManager`, do not register for `WRITE` on this socket, and have no
handle on the timer of this call. -/
def Call.Allowed (c : Call) (s : Sys) : Act → Prop
  | .io op fails => op.Allowed s.io ∧ op.Meets fails s.io ∧ ∀ cb caller, op ≠ .addEvent c.fd .WRITE cb caller
  | .other (.call a _) => s.armed ≠ some a ∧ (s.timers.heap a).isSome
  | .other (.release a) => s.armed ≠ some a ∧ a ∉ s.timers.timers
  | .other (.addTimer a _ _ _ _) => s.timers.heap a = none
  | .other (.listExpiredCb _ _) => False
  | _ => True

/-- `epoll_ctl` takes the event. -/
def Taken : Act → Prop
  | .addEvent fails => fails = false
  | _ => True

/-- The operation can wake the fiber of the call. -/
def Call.Wakes (c : Call) (s : Sys) (op : IoOp) : Prop := Registered c s ∧ op.Concerns s.io c.fd .WRITE

/-- Nobody else cancels the event, as `close` does and the callback of an earlier call on the descriptor. -/
def Call.Uncancelled (c : Call) (s : Sys) : Act → Prop
  | .io op _ => c.Wakes s op → ∃ p mask, op = .dispatch p mask
  | _ => True

/-- What `idle` handles is not the report of an earlier registration: for a connection in progress the kernel
has none. -/
def Call.Fresh (c : Call) (s : Sys) : Act → Prop
  | .io (.dispatch p mask) _ => c.Wakes s (.dispatch p mask) → s.conn ≠ .inProgress
  | _ => True

def Call.Meets (c : Call) (s : Sys) (act : Act) : Prop := Taken act ∧ c.Uncancelled s act ∧ c.Fresh s act

/-- The states of every run whose steps meet `ok`. -/
inductive Call.Reached (c : Call) (ok : Sys → Act → Prop) (s₀ : Sys) : Sys → Prop where
  | start : c.Reached ok s₀ s₀
  | step {s s' : Sys} (act : Act) : c.Reached ok s₀ s → c.Allowed s act → ok s act →
      c.Step s act s' → c.Reached ok s₀ s'

/-! ## What connect promises -/

structure Sound (c : Call) (s : Sys) (r : Result) : Prop where
  connected : ∀ n, r = .count n → ∃ error, s.conn = .established error
  error : ∀ errno, r = .error errno → errno ∈ s.reported ∨ (errno = ETIMEDOUT ∧ s.callback ≠ .none)
  timer : ∀ a ∈ s.armed, a ∉ s.timers.timers
  event : ¬ Registered c s

/-! ## The connection and the event -/

/-- `connect_f` has been called, and an error that came of it is still there to be read. -/
def Live (s : Sys) : Prop := s.conn ≠ .idle ∧ s.conn ≠ .refused 0

/-- Something the fiber may be woken for has happened. -/
def Settled (s : Sys) : Prop := s.conn ≠ .inProgress ∨ s.cancelled ≠ 0

def Answered (s : Sys) : Result → Prop
  | .count _ => ∃ error, s.conn = .established error
  | .error errno => errno ∈ s.reported ∨ (errno = ETIMEDOUT ∧ s.callback ≠ .none)

/-- What holds where the fiber is. -/
def Holds (c : Call) (s : Sys) : Pc → Prop
  | .direct | .connect => ¬ Registered c s ∧ s.conn = .idle
  | .arm | .addEvent _ => ¬ Registered c s ∧ Live s
  | .yield _ | .parked _ => Live s ∧ (¬ Registered c s → Settled s)
  | .resumed _ | .test => ¬ Registered c s ∧ Live s ∧ Settled s
  | .failed _ => False
  | .getsockopt => ¬ Registered c s ∧ Live s ∧ s.conn ≠ .inProgress
  | .done r => ¬ Registered c s ∧ Answered s r

structure Waits (c : Call) (s : Sys) : Prop where
  io : IOManager.Inv s.io
  reported : s.conn.error ≠ 0 → s.conn.error ∈ s.reported
  /-- What the callback has stored. -/
  stored : s.cancelled ≠ 0 → s.cancelled = ETIMEDOUT ∧ s.callback ≠ .none
  cancelling : s.callback = .cancelling → s.cancelled ≠ 0
  holds : Holds c s s.pc

section
variable {c : Call} {s s' : Sys}

/-- A step of the others, from what it does to the connection, the event and the callback. -/
theorem Holds.of_others {pc : Pc} (h : Holds c s pc) (hreg : Registered c s' → Registered c s)
    (hwake : Registered c s → ¬ Registered c s' → Live s → Settled s')
    (hlive : Live s → Live s') (hsettled : Settled s → Settled s')
    (hdecided : s.conn ≠ .inProgress → s'.conn ≠ .inProgress) (hidle : s.conn = .idle → s'.conn = .idle)
    (hanswer : ∀ r, Answered s r → Answered s' r) : Holds c s' pc := by
  have hoff : ¬ Registered c s → ¬ Registered c s' := fun hno hyes => hno (hreg hyes)
  have hwait : Live s ∧ (¬ Registered c s → Settled s) → Live s' ∧ (¬ Registered c s' → Settled s') := by
    intro hw
    refine ⟨hlive hw.1, ?_⟩
    intro hno
    by_cases hold : Registered c s
    · exact hwake hold hno hw.1
    · exact hsettled (hw.2 hold)
  cases pc with
  | direct => exact ⟨hoff h.1, hidle h.2⟩
  | connect => exact ⟨hoff h.1, hidle h.2⟩
  | arm => exact ⟨hoff h.1, hlive h.2⟩
  | addEvent timer => exact ⟨hoff h.1, hlive h.2⟩
  | yield timer => exact hwait h
  | parked timer => exact hwait h
  | resumed timer => exact ⟨hoff h.1, hlive h.2.1, hsettled h.2.2⟩
  | test => exact ⟨hoff h.1, hlive h.2.1, hsettled h.2.2⟩
  | failed timer => exact h
  | getsockopt => exact ⟨hoff h.1, hlive h.2.1, hdecided h.2.2⟩
  | done r => exact ⟨hoff h.1, hanswer r h.2⟩

theorem registered_iff (h : IOManager.Inv s.io) : Registered c s ↔ Has (s.io.context c.fd).events .WRITE := by
  rw [Registered, h.contextAt_eq]

/-- An operation of others that does not concern the event leaves it as it is. -/
theorem registered_io {op : IoOp} {fails : Bool} {io : IOManager.State} (h : IOManager.Inv s.io)
    (hrun : op.exec fails s.io = .ok io) (hallow : c.Allowed s (.io op fails)) :
    IOManager.Inv io ∧
      (¬ op.Concerns s.io c.fd .WRITE → (Registered c { s with io := io } ↔ Registered c s)) := by
  obtain ⟨s₁, hs₁, hinv, -⟩ := IOManager.exec_steps h hallow.1 hallow.2.1
  rw [hrun] at hs₁
  cases hs₁
  refine ⟨hinv, ?_⟩
  intro hnot
  rw [registered_iff h, registered_iff (s := { s with io := io }) hinv]
  exact IOManager.exec_spares h hallow.1 hallow.2.1 hrun hnot

/-- Only a registration adds an event. -/
theorem registered_of_io {op : IoOp} {fails : Bool} {io : IOManager.State} (h : IOManager.Inv s.io)
    (hrun : op.exec fails s.io = .ok io) (hallow : c.Allowed s (.io op fails))
    (hreg : Registered c { s with io := io }) : Registered c s := by
  obtain ⟨-, hsame⟩ := registered_io h hrun hallow
  by_cases hnot : op.Concerns s.io c.fd .WRITE
  · cases op with
    | addEvent n event cb caller =>
      obtain ⟨hn, rfl⟩ := hnot
      obtain rfl : n = (c.fd : Int) := hn
      exact absurd rfl (hallow.2.2 cb caller)
    | delEvent n event => exact hnot.2.elim
    | cancelEvent n event =>
      obtain ⟨r, hcancel⟩ := IOManager.ok_of_snd hrun
      exact (Hook.withContext_fewer (fun p hp => Hook.cancelLocked_fewer hp) hcancel).contextAt hreg
    | cancelAll n =>
      obtain ⟨r, hcancel⟩ := IOManager.ok_of_snd hrun
      exact (Hook.withContext_fewer (fun p hp => Hook.cancelAllLocked_fewer hp) hcancel).contextAt hreg
    | dispatch p mask => exact (Hook.dispatch_fewer hrun).contextAt hreg
  · exact (hsame hnot).mp hreg

/-- `connect_with_timeout` returns what `connect_f` has returned. -/
theorem Waits.returned (h : Waits c s) (hno : ¬ Registered c s) (hidle : s.conn = .idle) (r : Result) :
    Waits c { s.called r with pc := .done r } := by
  cases r with
  | count n => exact ⟨h.io, fun hne => absurd rfl hne, h.stored, h.cancelling, hno, 0, rfl⟩
  | error errno =>
    refine ⟨h.io, ?_, h.stored, h.cancelling, hno, .inl (List.mem_append_right _ (List.mem_singleton.mpr rfl))⟩
    intro hne
    simp only [Sys.called, Conn.called, hidle] at hne
    split at hne
    · exact absurd rfl hne
    · exact absurd rfl hne

theorem clear_error (conn : Conn) : conn.clear.error = 0 := by
  cases conn <;> rfl

/-- The `addEvent` of the call. -/
theorem Waits.added (h : Waits c s) (hfd : (c.fd : Int) < 1431655766) (hcaller : c.caller.scheduler ≠ none)
    {fails : Bool} {io : IOManager.State} (hno : ¬ Registered c s)
    (hrun : IOManager.addEvent c.fd .WRITE none c.caller fails s.io = .ok (0, io)) :
    IOManager.Inv io ∧ Has (io.contextAt c.fd).events .WRITE := by
  have hallow : (IoOp.addEvent c.fd .WRITE none c.caller).Allowed s.io := by
    refine ⟨Int.natCast_nonneg _, hcaller, ?_⟩
    rw [Int.toNat_natCast, h.io.contextAt_eq,
      (h.io.ok c.fd).empty .WRITE (fun he => hno ((registered_iff h.io).mpr he))]
  have hmeets : (IoOp.addEvent c.fd .WRITE none c.caller).Meets fails s.io := hfd
  obtain ⟨s₁, hs₁, hinv, -⟩ := IOManager.exec_steps h.io hallow hmeets
  simp only [IoOp.exec, hrun] at hs₁
  cases hs₁
  refine ⟨hinv, ?_⟩
  rw [hinv.contextAt_eq]
  exact IOManager.addEvent_registers h.io hfd hrun

theorem Waits.fiber (h : Waits c s) (hfd : (c.fd : Int) < 1431655766) (hcaller : c.caller.scheduler ≠ none)
    {act : Act} (hmeets : c.Meets s act) (hstep : c.FiberStep s act s') : Waits c s' := by
  have hholds := h.holds
  cases hstep with
  | direct r hpc =>
    rw [hpc] at hholds
    exact h.returned hholds.1 hholds.2 r
  | inProgress hpc =>
    rw [hpc] at hholds
    refine ⟨h.io, fun hne => absurd rfl hne, h.stored, h.cancelling, hholds.1, ?_⟩
    simp [Sys.called, Conn.called, Live]
  | returned r hpc hr =>
    rw [hpc] at hholds
    exact h.returned hholds.1 hholds.2 r
  | arm a now hpc hiom hto hfree =>
    rw [hpc] at hholds
    exact ⟨h.io, h.reported, h.stored, h.cancelling, hholds⟩
  | armNone a now hpc hiom hto =>
    rw [hpc] at hholds
    exact ⟨h.io, h.reported, h.stored, h.cancelling, hholds⟩
  | @added timer fails io hpc hrun =>
    rw [hpc] at hholds
    obtain ⟨hinv, hreg⟩ := h.added hfd hcaller hholds.1 hrun
    exact ⟨hinv, h.reported, h.stored, h.cancelling, hholds.2, fun hno => absurd hreg hno⟩
  | @addFailed timer fails rt io hpc hrun hrt =>
    -- `epoll_ctl` takes the event
    rw [show fails = false from hmeets.1] at hrun
    exact absurd (IOManager.addEvent_zero h.io hfd hrun) hrt
  | yield hpc =>
    rw [hpc] at hholds
    exact ⟨h.io, h.reported, h.stored, h.cancelling, hholds⟩
  | resume hpc hno =>
    rw [hpc] at hholds
    exact ⟨h.io, h.reported, h.stored, h.cancelling, hno, hholds.1, hholds.2 hno⟩
  | cancelTimer hpc hcancel =>
    rw [hpc] at hholds
    exact ⟨h.io, h.reported, h.stored, h.cancelling, hholds⟩
  | cancelFailed hpc hcancel =>
    rw [hpc] at hholds
    exact hholds.elim
  | timedOut hpc hcancelled =>
    rw [hpc] at hholds
    exact ⟨h.io, h.reported, h.stored, h.cancelling, hholds.1, .inr (h.stored hcancelled)⟩
  | inTime hpc hzero =>
    rw [hpc] at hholds
    exact ⟨h.io, h.reported, h.stored, h.cancelling, hholds.1, hholds.2.1,
      hholds.2.2.resolve_right (not_not_intro hzero)⟩
  | sockoptFails errno hpc =>
    rw [hpc] at hholds
    refine ⟨h.io, ?_, h.stored, h.cancelling, hholds.1, .inl (by simp)⟩
    intro hne
    exact List.mem_append_left _ (h.reported hne)
  | noError hpc hzero =>
    rw [hpc] at hholds
    obtain ⟨hno, ⟨hidle, hrefused⟩, hdecided⟩ := hholds
    -- without an error, a connection that is decided is established
    refine ⟨h.io, fun hne => absurd (clear_error s.conn) hne, h.stored, h.cancelling, hno, 0, ?_⟩
    cases hconn : s.conn with
    | idle => exact absurd hconn hidle
    | inProgress => exact absurd hconn hdecided
    | established error => rw [hconn] at *; rfl
    | refused error =>
      rw [hconn] at hzero hrefused
      exact absurd (congrArg Conn.refused hzero) hrefused
  | error hpc hne =>
    rw [hpc] at hholds
    exact ⟨h.io, fun hne' => absurd (clear_error s.conn) hne', h.stored, h.cancelling, hholds.1,
      .inl (h.reported hne)⟩

/-- A step that leaves the event and the connection as they are. -/
theorem Waits.of_callback (h : Waits c s) (hio : s'.io = s.io) (hconn : s'.conn = s.conn) (hpc : s'.pc = s.pc)
    (hreported : s'.reported = s.reported) (hcancelled : s'.cancelled = s.cancelled ∨ s'.cancelled = ETIMEDOUT)
    (hcallback : s.callback ≠ .none ∨ s'.cancelled ≠ 0 → s'.callback ≠ .none)
    (hcancelling : s'.callback = .cancelling → s'.cancelled ≠ 0) : Waits c s' := by
  have hkeep : s.cancelled ≠ 0 → s'.cancelled ≠ 0 := by
    intro hne
    rcases hcancelled with heq | heq
    · rw [heq]; exact hne
    · rw [heq]; decide
  have hreg : Registered c s' ↔ Registered c s := by rw [Registered, Registered, hio]
  refine ⟨hio ▸ h.io, ?_, ?_, hcancelling, ?_⟩
  · rw [hconn, hreported]
    exact h.reported
  · intro hne
    refine ⟨?_, hcallback (.inr hne)⟩
    rcases hcancelled with heq | heq
    · rw [heq] at hne ⊢
      exact (h.stored hne).1
    · exact heq
  · rw [hpc]
    apply h.holds.of_others hreg.mp
    · intro hyes hno
      exact absurd (hreg.mpr hyes) hno
    · intro hlive
      rw [Live, hconn]
      exact hlive
    · intro hsettled
      rw [Settled, hconn]
      exact hsettled.imp_right hkeep
    · rw [hconn]
      exact id
    · rw [hconn]
      exact id
    · intro r hr
      cases r with
      | count n =>
        rw [Answered, hconn]
        exact hr
      | error errno =>
        rw [Answered, hreported]
        exact hr.imp_right fun htimed => ⟨htimed.1, hcallback (.inl htimed.2)⟩

/-- A step that changes nothing but the registrations. -/
theorem Waits.of_io (h : Waits c s) {io : IOManager.State} (hinv : IOManager.Inv io)
    (hreg : Registered c { s with io := io } → Registered c s)
    (hwake : Registered c s → ¬ Registered c { s with io := io } → Settled s) : Waits c { s with io := io } :=
  ⟨hinv, h.reported, h.stored, h.cancelling,
    h.holds.of_others hreg (fun hyes hno _ => hwake hyes hno) id id id id fun _ => id⟩

/-- What the kernel does to a connection. -/
theorem Waits.of_conn (h : Waits c s) {conn : Conn} {reported : List Nat}
    (hmem : ∀ errno ∈ s.reported, errno ∈ reported) (herror : conn.error ≠ 0 → conn.error ∈ reported)
    (hlive : conn ≠ .idle ∧ conn ≠ .refused 0) (hdecided : conn ≠ .inProgress) (hidle : s.conn ≠ .idle)
    (hestablished : ∀ error, s.conn = .established error → ∃ error, conn = .established error) :
    Waits c { s with conn := conn, reported := reported } := by
  refine ⟨h.io, herror, h.stored, h.cancelling, ?_⟩
  refine h.holds.of_others id (fun hyes hno => absurd hyes hno) (fun _ => hlive) (fun _ => .inl hdecided)
    (fun _ => hdecided) (fun hold => absurd hold hidle) ?_
  intro r hr
  cases r with
  | count n =>
    obtain ⟨error, hold⟩ := hr
    exact hestablished error hold
  | error errno => exact hr.imp_left (hmem errno)

theorem Waits.others (h : Waits c s) {act : Act} (hallow : c.Allowed s act) (hmeets : c.Meets s act)
    (hstep : c.OtherStep s act s') : Waits c s' := by
  cases hstep with
  | expire now tmp hfree =>
    refine h.of_callback rfl rfl rfl rfl (.inl rfl) ?_ ?_
    · intro hne
      dsimp only
      split
      · simp
      · exact hne.elim id fun hc => (h.stored hc).2
    · dsimp only
      split
      · simp
      · exact h.cancelling
  | callbackGone hqueued hgone => exact h.of_callback rfl rfl rfl rfl (.inl rfl) (by simp) (by simp)
  | callbackTest hqueued hlive => exact h.of_callback rfl rfl rfl rfl (.inl rfl) (by simp) (by simp)
  | callbackStore hpassed =>
    have hset : ETIMEDOUT ≠ 0 := by decide
    exact h.of_callback rfl rfl rfl rfl (.inr rfl) (by simp) (fun _ => hset)
  | @callbackCancel fails r io hcancelling hrun =>
    have hset := h.cancelling hcancelling
    have hallow : (IoOp.cancelEvent c.fd .WRITE).Allowed s.io := Int.natCast_nonneg _
    have hmeets : (IoOp.cancelEvent c.fd .WRITE).Meets fails s.io := trivial
    obtain ⟨s₁, hs₁, hinv, -⟩ := IOManager.exec_steps h.io hallow hmeets
    simp only [IoOp.exec, hrun] at hs₁
    cases hs₁
    have hfewer : Hook.Fewer s.io io := Hook.withContext_fewer (fun p hp => Hook.cancelLocked_fewer hp) hrun
    have hio : Waits c { s with io := io } := h.of_io hinv hfewer.contextAt fun _ _ => .inr hset
    exact hio.of_callback rfl rfl rfl rfl (.inl rfl) (by simp) (by simp)
  | @io op fails io hrun =>
    obtain ⟨hinv, hsame⟩ := registered_io h.io hrun hallow
    refine h.of_io hinv (registered_of_io h.io hrun hallow) ?_
    intro hyes hno
    -- who clears the event of the call is a report of the kernel about this connection
    by_cases hnot : op.Concerns s.io c.fd .WRITE
    · obtain ⟨p, mask, rfl⟩ := hmeets.2.1 ⟨hyes, hnot⟩
      exact .inl (hmeets.2.2 ⟨hyes, hnot⟩)
    · exact absurd ((hsame hnot).mpr hyes) hno
  | @other op timers hrun =>
    exact ⟨h.io, h.reported, h.stored, h.cancelling,
      h.holds.of_others id (fun hyes hno => absurd hyes hno) id id id id fun _ => id⟩
  | establish hconn =>
    refine h.of_conn (fun _ => id) (by simp [Conn.error]) (by simp) (by simp) (by simp [hconn]) ?_
    intro error hold
    rw [hconn] at hold
    cases hold
  | @refuse errno hconn herror =>
    refine h.of_conn (fun _ => List.mem_append_left _) (by simp [Conn.error]) (by simp [herror]) (by simp)
      (by simp [hconn]) ?_
    intro error hold
    rw [hconn] at hold
    cases hold
  | @reset errno hconn herror =>
    exact h.of_conn (fun _ => List.mem_append_left _) (by simp [Conn.error]) (by simp) (by simp) (by simp [hconn])
      fun _ _ => ⟨errno, rfl⟩

end

/-! ## The timer -/

/-- The timer of the call, where the fiber is. -/
def TimerAt (armed : Option Nat) (timers : TimerManager) : Pc → Prop
  | .direct | .connect | .arm => armed = none
  | .addEvent timer | .yield timer | .parked timer | .resumed timer | .failed timer => timer = armed
  | .test | .getsockopt | .done _ => ∀ a ∈ armed, a ∉ timers.timers

/-- The timer has its callback and does not recur. -/
structure Single (timers : TimerManager) (a : Nat) : Prop where
  callback : (timers.at a).cb.isSome
  recurring : (timers.at a).recurring = false

structure Tidy (s : Sys) : Prop where
  timers : Timer.Inv s.timers
  exist : ∀ a ∈ s.armed, (s.timers.heap a).isSome
  single : ∀ a ∈ s.armed, a ∈ s.timers.timers → Single s.timers a
  timer : TimerAt s.armed s.timers s.pc

section
variable {c : Call} {s s' : Sys}

theorem TimerAt.mono {armed : Option Nat} {timers timers' : TimerManager} {pc : Pc} (h : TimerAt armed timers pc)
    (hgone : (∀ a ∈ armed, a ∉ timers.timers) → ∀ a ∈ armed, a ∉ timers'.timers) : TimerAt armed timers' pc := by
  cases pc with
  | test => exact hgone h
  | getsockopt => exact hgone h
  | done r => exact hgone h
  | _ => exact h

/-- A step of the others on the timers, from what it does to the one of the call. -/
theorem Tidy.of_timers (h : Tidy s) {timers : TimerManager} (hinv : Timer.Inv timers)
    (hexist : ∀ a ∈ s.armed, (timers.heap a).isSome)
    (hkeep : ∀ a ∈ s.armed, a ∈ timers.timers → a ∈ s.timers.timers ∧
      (Single s.timers a → timers.at a = s.timers.at a)) : Tidy { s with timers := timers } := by
  refine ⟨hinv, hexist, ?_, ?_⟩
  · intro a ha hmem
    obtain ⟨hold, hat⟩ := hkeep a ha hmem
    have hsingle := h.single a ha hold
    exact ⟨by rw [hat hsingle]; exact hsingle.callback, by rw [hat hsingle]; exact hsingle.recurring⟩
  · exact h.timer.mono fun hgone a ha hmem => hgone a ha (hkeep a ha hmem).1

/-- `timer->cancel()`. -/
theorem Tidy.cancelTimer (h : Tidy s) {timers : TimerManager} (hcancel : s.cancelTimer s.armed = some timers) :
    Timer.Inv timers ∧ (∀ a ∈ s.armed, (timers.heap a).isSome) ∧ ∀ a ∈ s.armed, a ∉ timers.timers := by
  unfold Sys.cancelTimer at hcancel
  cases harmed : s.armed with
  | none =>
    rw [harmed] at hcancel
    cases hcancel
    exact ⟨h.timers, by simp, by simp⟩
  | some a =>
    have hexist := h.exist a harmed
    have hsingle := h.single a harmed
    rw [harmed] at hcancel
    dsimp only at hcancel
    simp only [Option.mem_def, Option.some.injEq, forall_eq']
    rcases Timer.cancel_cases h.timers a with ⟨hcb, heq⟩ | ⟨-, -, heq⟩ | ⟨-, -, l, heq, hl, hiff⟩
    · rw [heq] at hcancel
      cases hcancel
      refine ⟨h.timers, hexist, ?_⟩
      intro hmem
      have hsome := (hsingle hmem).callback
      rw [hcb] at hsome
      cases hsome
    · rw [heq] at hcancel
      cases hcancel
    · rw [heq] at hcancel
      cases hcancel
      exact ⟨h.timers.sublist hl, hexist, fun hmem => ((hiff a).mp hmem).2 rfl⟩

theorem Tidy.fiber (h : Tidy s) {act : Act} (hstep : c.FiberStep s act s') : Tidy s' := by
  have htimer := h.timer
  cases hstep with
  | direct r hpc =>
    rw [hpc] at htimer
    exact ⟨h.timers, h.exist, h.single, by simp [TimerAt, Sys.called, show s.armed = none from htimer]⟩
  | inProgress hpc =>
    rw [hpc] at htimer
    exact ⟨h.timers, h.exist, h.single, htimer⟩
  | returned r hpc hr =>
    rw [hpc] at htimer
    exact ⟨h.timers, h.exist, h.single, by simp [TimerAt, Sys.called, show s.armed = none from htimer]⟩
  | arm a now hpc hiom hto hfree =>
    have hat : (s.timers.addTimer a c.timeout_ms (some a) false now).at a =
        { recurring := false, ms := c.timeout_ms, next := now + c.timeout_ms, cb := some a } :=
      Timer.at_put_self _ a _
    refine ⟨h.timers.addTimer _ _ _ _, ?_, ?_, rfl⟩
    · intro b hb
      cases hb
      exact Timer.put_heap _ a _
    · intro b hb _
      cases hb
      exact ⟨by rw [hat]; rfl, by rw [hat]⟩
  | armNone a now hpc hiom hto =>
    rw [hpc] at htimer
    exact ⟨h.timers, h.exist, h.single, htimer.symm⟩
  | added hpc hrun =>
    rw [hpc] at htimer
    exact ⟨h.timers, h.exist, h.single, htimer⟩
  | addFailed hpc hrun hrt =>
    rw [hpc] at htimer
    exact ⟨h.timers, h.exist, h.single, htimer⟩
  | yield hpc =>
    rw [hpc] at htimer
    exact ⟨h.timers, h.exist, h.single, htimer⟩
  | resume hpc hno =>
    rw [hpc] at htimer
    exact ⟨h.timers, h.exist, h.single, htimer⟩
  | cancelTimer hpc hcancel =>
    rw [hpc] at htimer
    rw [show _ = s.armed from htimer] at hcancel
    obtain ⟨hinv, hexist, hout⟩ := h.cancelTimer hcancel
    exact ⟨hinv, hexist, fun a ha hmem => absurd hmem (hout a ha), hout⟩
  | cancelFailed hpc hcancel =>
    rw [hpc] at htimer
    rw [show _ = s.armed from htimer] at hcancel
    obtain ⟨hinv, hexist, hout⟩ := h.cancelTimer hcancel
    exact ⟨hinv, hexist, fun a ha hmem => absurd hmem (hout a ha), hout⟩
  | timedOut hpc hcancelled =>
    rw [hpc] at htimer
    exact ⟨h.timers, h.exist, h.single, htimer⟩
  | inTime hpc hzero =>
    rw [hpc] at htimer
    exact ⟨h.timers, h.exist, h.single, htimer⟩
  | sockoptFails errno hpc =>
    rw [hpc] at htimer
    exact ⟨h.timers, h.exist, h.single, htimer⟩
  | noError hpc hzero =>
    rw [hpc] at htimer
    exact ⟨h.timers, h.exist, h.single, htimer⟩
  | error hpc hne =>
    rw [hpc] at htimer
    exact ⟨h.timers, h.exist, h.single, htimer⟩

theorem Tidy.others (h : Tidy s) {act : Act} (hallow : c.Allowed s act) (hstep : c.OtherStep s act s') :
    Tidy s' := by
  cases hstep with
  | expire now tmp hfree =>
    have hnext : Tidy { s with timers := (s.timers.listExpiredCb now tmp).2 } := by
      refine h.of_timers (h.timers.listExpiredCb now tmp) (fun a ha => Timer.listExpiredCb_heap tmp (h.exist a ha)) ?_
      intro a ha hmem
      refine ⟨Timer.mem_listExpiredCb hmem, ?_⟩
      -- a timer that is not recurring and still listed has not expired
      intro hsingle
      apply Timer.listExpiredCb_at_of_not_mem
      intro hexp
      have hrec := (Timer.mem_listExpiredCb_iff h.timers hexp).mp hmem
      rw [hsingle.recurring] at hrec
      cases hrec
    exact ⟨hnext.timers, hnext.exist, hnext.single, hnext.timer⟩
  | @other op timers hrun =>
    cases op with
    | addTimer b ms cb recurring now =>
      cases hrun
      -- the new timer is at an address of its own
      have hne : ∀ a ∈ s.armed, a ≠ b := by
        intro a ha heq
        have hsome := h.exist a ha
        rw [heq, show s.timers.heap b = none from hallow] at hsome
        cases hsome
      refine h.of_timers (h.timers.addTimer ms cb recurring now) (fun a ha => Timer.isSome_put _ (h.exist a ha)) ?_
      intro a ha hmem
      exact ⟨(Timer.mem_addLocked.mp hmem).resolve_left (hne a ha), fun _ => Timer.at_put_of_ne (hne a ha) _⟩
    | call b call =>
      obtain ⟨r, hcall⟩ := Timer.step_call hrun
      have hne : ∀ a ∈ s.armed, a ≠ b := fun a ha heq => hallow.1 (heq ▸ ha)
      refine h.of_timers (h.timers.call hcall) (fun a ha => Hook.heap_call h.timers (h.exist a ha) hcall) ?_
      intro a ha hmem
      rcases Timer.call_cases h.timers hcall with rfl | ⟨-, l, rfl, hl⟩ | ⟨hb, t, rfl | rfl⟩
      · exact ⟨hmem, fun _ => rfl⟩
      · exact ⟨hl.subset hmem, fun _ => rfl⟩
      · exact ⟨hmem, fun _ => Timer.at_put_of_ne (hne a ha) _⟩
      · rw [Timer.addLocked_timers (h.timers.put t) hb] at hmem
        exact ⟨hmem, fun _ => Timer.at_put_of_ne (hne a ha) _⟩
    | getNextTimer now =>
      cases hrun
      rw [Timer.getNextTimer_snd]
      exact h.of_timers ⟨h.timers.sorted, h.timers.exists_of_mem⟩ h.exist fun a ha hmem => ⟨hmem, fun _ => rfl⟩
    | listExpiredCb now tmp => exact absurd hallow id
    | release b =>
      cases hrun
      have hheap : ∀ a ∈ s.armed, (s.timers.release b).heap a = s.timers.heap a := by
        intro a ha
        have hne : a ≠ b := fun heq => hallow.1 (heq ▸ ha)
        simp only [TimerManager.release, Function.update_of_ne hne]
      refine h.of_timers (h.timers.release hallow.2) (fun a ha => by rw [hheap a ha]; exact h.exist a ha) ?_
      intro a ha hmem
      exact ⟨hmem, fun _ => by simp only [TimerManager.at, hheap a ha]⟩
  | _ => exact ⟨h.timers, h.exist, h.single, h.timer⟩

end

/-! ## Every run -/

def socket : Process := (Hook.sockets.get 7 true).2

/-- `connect` on it with a timeout of 10 ms. -/
def connecting : Call where
  hook_enable := true
  iom := true
  fd := 7
  timeout_ms := 10
  caller := { scheduler := some 1, fiber := 1 }

def connectStart : Sys := connecting.start socket IOManager.init (Timer.new 100)

section
variable {c : Call} {ok : Sys → Act → Prop} {s₀ s s' : Sys} {act : Act}

theorem Call.Reached.fiber (h : c.Reached ok s₀ s) (hstep : c.FiberStep s act s')
    (hallow : c.Allowed s act) (hok : ok s act) : c.Reached ok s₀ s' := h.step act hallow hok (.inl hstep)

theorem Call.Reached.others (h : c.Reached ok s₀ s) (hstep : c.OtherStep s act s')
    (hallow : c.Allowed s act) (hok : ok s act) : c.Reached ok s₀ s' := h.step act hallow hok (.inr hstep)

end

/-- The timer is armed. -/
def armedState : Sys :=
  { connectStart with
    timers := (Timer.new 100).addTimer 16 10 (some 16) false 100
    conn := .inProgress
    pc := .addEvent (some 16)
    armed := some 16
    reported := [EBADF, EINPROGRESS] }

/-- The fiber waits for the connection. -/
def parkedState : Sys :=
  { armedState with
    io := (IOManager.addEvent 7 .WRITE none connecting.caller false IOManager.init).toOption.elim
      IOManager.init Prod.snd
    pc := .parked (some 16) }

/-- Neither a step that breaks the condition nor one of another user of the registrations. -/
def Act.Plain : Act → Prop
  | .addEvent fails => fails = false
  | .io _ _ => False
  | _ => True

theorem reached_armed {ok : Sys → Act → Prop} (hok : ∀ s act, act.Plain → ok s act) :
    connecting.Reached ok connectStart armedState := by
  have hstart : connecting.Reached ok connectStart connectStart := .start
  have hcall := hstart.fiber (.inProgress rfl) trivial (hok _ _ trivial)
  exact hcall.fiber (.arm 16 100 rfl rfl (by decide) rfl) trivial (hok _ _ trivial)

theorem reached_parked {ok : Sys → Act → Prop} (hok : ∀ s act, act.Plain → ok s act) :
    connecting.Reached ok connectStart parkedState := by
  have hadded : connecting.FiberStep armedState (.addEvent false)
      { parkedState with pc := .yield (some 16) } := .added rfl rfl
  exact ((reached_armed hok).fiber hadded trivial (hok _ _ rfl)).fiber (.yield rfl) trivial (hok _ _ trivial)

theorem Act.Plain.taken {act : Act} (h : act.Plain) : Taken act := by
  cases act with
  | addEvent fails => exact h
  | _ => trivial

theorem Act.Plain.uncancelled {act : Act} (h : act.Plain) (s : Sys) : connecting.Uncancelled s act := by
  cases act with
  | io op fails => exact h.elim
  | _ => trivial

theorem Act.Plain.fresh {act : Act} (h : act.Plain) (s : Sys) : connecting.Fresh s act := by
  cases act with
  | io op fails => exact h.elim
  | _ => trivial

theorem Act.Plain.meets {act : Act} (h : act.Plain) (s : Sys) : connecting.Meets s act :=
  ⟨h.taken, h.uncancelled s, h.fresh s⟩

/-- An operation that wakes the fiber makes `connect` return 0, with the connection as it is. -/
theorem reached_woken {ok : Sys → Act → Prop} (hok : ∀ s act, act.Plain → ok s act) (op : IoOp)
    {io : IOManager.State} (hrun : op.exec false parkedState.io = .ok io)
    (hwoken : ¬ Has (io.contextAt 7).events .WRITE) (hallow : connecting.Allowed parkedState (.io op false))
    (hop : ok parkedState (.io op false)) :
    ∃ s, connecting.Reached ok connectStart s ∧ s.pc = .done (.count 0) ∧ s.conn = .inProgress := by
  have hready := (reached_parked hok).others (.io hrun) hallow hop
  have hresume := hready.fiber (.resume rfl hwoken) trivial (hok _ _ trivial)
  have hcancel := hresume.fiber (.cancelTimer rfl rfl) trivial (hok _ _ trivial)
  have htest := hcancel.fiber (.inTime rfl rfl) trivial (hok _ _ trivial)
  exact ⟨_, htest.fiber (.noError rfl rfl) trivial (hok _ _ trivial), rfl, rfl⟩

/-- Each condition is needed besides the other two: `connect` returns 0 for a connection in progress when its event
is not taken, when `close` wakes its fiber, and when an earlier report does. -/
theorem not_connected :
    (∃ s, connecting.Reached (fun s act => connecting.Uncancelled s act ∧ connecting.Fresh s act) connectStart s ∧
      s.pc = .done (.count 0) ∧ s.conn = .inProgress) ∧
    (∃ s, connecting.Reached (fun s act => Taken act ∧ connecting.Fresh s act) connectStart s ∧
      s.pc = .done (.count 0) ∧ s.conn = .inProgress) ∧
    ∃ s, connecting.Reached (fun s act => Taken act ∧ connecting.Uncancelled s act) connectStart s ∧
      s.pc = .done (.count 0) ∧ s.conn = .inProgress := by
  refine ⟨?_, ?_, ?_⟩
  · have hplain : ∀ (s : Sys) (act : Act), act.Plain → connecting.Uncancelled s act ∧ connecting.Fresh s act :=
      fun s _ h => ⟨h.uncancelled s, h.fresh s⟩
    have hfailed : connecting.FiberStep armedState (.addEvent true) _ := .addFailed rfl rfl (by decide)
    have hadd := (reached_armed hplain).fiber hfailed trivial ⟨trivial, trivial⟩
    have hcancel := hadd.fiber (.cancelFailed rfl rfl) trivial (hplain _ _ trivial)
    exact ⟨_, hcancel.fiber (.noError rfl rfl) trivial (hplain _ _ trivial), rfl, rfl⟩
  · have hplain : ∀ (s : Sys) (act : Act), act.Plain → Taken act ∧ connecting.Fresh s act :=
      fun s _ h => ⟨h.taken, h.fresh s⟩
    exact reached_woken hplain (.cancelAll 7) rfl (by decide +kernel) ⟨Int.natCast_nonneg 7, trivial, by simp⟩
      ⟨trivial, trivial⟩
  · have hplain : ∀ (s : Sys) (act : Act), act.Plain → Taken act ∧ connecting.Uncancelled s act :=
      fun s _ h => ⟨h.taken, h.uncancelled s⟩
    exact reached_woken hplain (.dispatch 7 0x4) rfl (by decide +kernel)
      ⟨⟨7, _, rfl, rfl, by decide +kernel⟩, trivial, by simp⟩ ⟨trivial, fun _ => ⟨7, 0x4, rfl⟩⟩

end Sylar.Connect
