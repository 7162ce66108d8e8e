import Mathlib.Data.List.Basic
import Mathlib.Logic.Relation
import Sylar.Hook.Fd
import Sylar.IOManager.Runs
import Sylar.Timer.Handles

/- `do_io` of `sylar/hook.cc`, among the threads that act on its event and its timer.

   One call of `do_io` is a fiber that moves through `Pc`; beside it stand the
   registrations (`IOManager.State`) and the timers (`TimerManager`) it shares with
   everyone else, and its `timer_info`. A step (`Act`) is one of the fiber, one of a
   callback of a timer the call has armed, one of `idle` (`expire`, `dispatch`), one of
   `close` in another fiber, or an operation of others on timers of their own.

   A callback is known by the address of its timer. It is `queued` from the
   `listExpiredCb` that hands it out until it tests `cancelled`, `passed` until it stores
   `ETIMEDOUT`, and `cancelling` until its `cancelEvent`.

   What the system call returns, which wake-up comes, and what `epoll_ctl` refuses are
   choices of the environment, carried by the steps. A step that is not possible, or that
   ends the program, has no result. -/
namespace Sylar.Hook
open Sylar.IOManager (Event Caller Has)
open Sylar.Timer (TimerManager)

/-! ## Results -/

def EINTR : Nat := 4
def EBADF : Nat := 9
def EAGAIN : Nat := 11
def ETIMEDOUT : Nat := 110

/-- The errors `epoll_ctl` reports. -/
inductive CtlError where
  | EPERM | ENOENT | EBADF | ENOMEM | EEXIST | EINVAL | ENOSPC | ELOOP
  deriving DecidableEq, Repr

def CtlError.errno : CtlError → Nat
  | .EPERM => 1
  | .ENOENT => 2
  | .EBADF => Hook.EBADF
  | .ENOMEM => 12
  | .EEXIST => 17
  | .EINVAL => 22
  | .ENOSPC => 28
  | .ELOOP => 40

/-- A count, or -1 with an `errno`. -/
inductive Result where
  | count (n : Nat)
  | error (errno : Nat)
  deriving DecidableEq, Repr

/-! ## The call -/

structure Call where
  /-- `t_hook_enable` of the calling thread. -/
  hook_enable : Bool
  /-- `IOManager::GetThis()` is not null. -/
  iom : Bool
  fd : Nat
  event : Event
  timeout_so : TimeoutType
  caller : Caller

/-- Where the fiber is; with the timer of this round, if one was armed. -/
inductive Pc where
  /-- About to call the original function and return what it returns. -/
  | direct
  /-- At `retry`. -/
  | retry
  /-- The function has returned `EAGAIN`. -/
  | arm
  | addEvent (timer : Option Nat)
  | yield (timer : Option Nat)
  | parked (timer : Option Nat)
  /-- `yield` has returned. -/
  | resumed (timer : Option Nat)
  /-- About to test `tinfo->cancelled`. -/
  | test
  /-- `addEvent` has failed. -/
  | failed (timer : Option Nat) (errno : Nat)
  | done (r : Result)
  deriving DecidableEq, Repr

def Pc.isDone : Pc → Bool
  | .done _ => true
  | _ => false

structure Sys where
  io : IOManager.State
  timers : TimerManager
  pc : Pc
  /-- `to`. -/
  timeout : UInt64
  /-- `tinfo->cancelled`. -/
  cancelled : Nat
  /-- The timers this call has armed. -/
  armed : List Nat
  queued : List Nat
  passed : List Nat
  cancelling : List Nat

/-- `(uint64_t)-1`. -/
def noTimeout : UInt64 := -1

/-- The tests at the head of `do_io`. -/
def Call.enter (c : Call) (p : Process) : Pc × UInt64 :=
  if c.hook_enable = false then (.direct, noTimeout)
  else
    match (p.get c.fd false).1 with
    | none => (.direct, noTimeout)
    | some ctx =>
      if ctx.isClosed then (.done (.error EBADF), noTimeout)
      else if ctx.isSocket = false ∨ ctx.userNonblock then (.direct, noTimeout)
      else (.retry, ctx.getTimeout c.timeout_so)

def Call.start (c : Call) (p : Process) (io : IOManager.State) (timers : TimerManager) : Sys where
  io := io
  timers := timers
  pc := (c.enter p).1
  timeout := (c.enter p).2
  cancelled := 0
  armed := []
  queued := []
  passed := []
  cancelling := []

/-! ## Steps -/

inductive Act where
  /-- The system call returns. -/
  | sysCall (r : Result)
  /-- `addConditionTimer`, with the new timer at `a`. -/
  | arm (a : Nat) (now : UInt64)
  /-- `addEvent`, with whether and how `epoll_ctl` would fail in it. -/
  | addEvent (fails : Bool) (error : CtlError)
  | yield
  | resume
  /-- `timer->cancel()`. -/
  | cancelTimer
  | test
  /-- `listExpiredCb` in `idle`. -/
  | expire (now : UInt64) (tmp : Nat)
  /-- `!t || t->cancelled` in the callback of the timer at `a`. -/
  | callbackTest (a : Nat)
  /-- `t->cancelled = ETIMEDOUT`. -/
  | callbackStore (a : Nat)
  | callbackCancel (a : Nat) (fails : Bool)
  | dispatch (p : Nat) (mask : BitVec 32) (fails : Bool)
  /-- `cancelAll(fd)` in `close`. -/
  | cancelAll (fails : Bool)
  /-- `close_f(fd)`: the kernel forgets what was registered for the descriptor. -/
  | closeF
  /-- An operation of others on the timers. -/
  | other (op : Timer.Op)

def Sys.cancelTimer (s : Sys) (timer : Option Nat) : Option TimerManager :=
  match timer with
  | none => some s.timers
  | some a =>
    match s.timers.cancel a with
    | .ok (_, timers) => some timers
    | .error _ => none

/-- The steps of the fiber. -/
def Call.fiberStep (c : Call) (s : Sys) : Act → Option Sys
  | .sysCall r =>
    match s.pc with
    | .direct => some { s with pc := .done r }
    | .retry =>
      if r = .error EINTR then some s
      else if r = .error EAGAIN then some { s with pc := .arm }
      else some { s with pc := .done r }
    | _ => none
  | .arm a now =>
    if s.pc = .arm ∧ c.iom = true then
      if s.timeout ≠ noTimeout then
        if s.timers.heap a = none then
          some { s with
            timers := s.timers.addTimer a s.timeout (some a) false now
            armed := a :: s.armed
            pc := .addEvent (some a) }
        else none
      else some { s with pc := .addEvent none }
    else none
  | .addEvent fails error =>
    match s.pc with
    | .addEvent timer =>
      match IOManager.addEvent c.fd c.event none c.caller fails s.io with
      | .error _ => none
      | .ok (rt, io) =>
        if rt ≠ 0 then some { s with io := io, pc := .failed timer error.errno }
        else some { s with io := io, pc := .yield timer }
    | _ => none
  | .yield =>
    match s.pc with
    | .yield timer => some { s with pc := .parked timer }
    | _ => none
  | .resume =>
    match s.pc with
    | .parked timer =>
      -- the fiber was scheduled by the trigger that cleared its event
      if Has (s.io.contextAt c.fd).events c.event then none
      else some { s with pc := .resumed timer }
    | _ => none
  | .cancelTimer =>
    match s.pc with
    | .resumed timer => (s.cancelTimer timer).map fun timers => { s with timers := timers, pc := .test }
    | .failed timer errno =>
      (s.cancelTimer timer).map fun timers => { s with timers := timers, pc := .done (.error errno) }
    | _ => none
  | .test =>
    match s.pc with
    | .test =>
      if s.cancelled ≠ 0 then some { s with pc := .done (.error s.cancelled) }
      else some { s with pc := .retry }
    | _ => none
  | _ => none

/-- The steps of the others. -/
def Call.otherStep (c : Call) (s : Sys) : Act → Option Sys
  | .expire now tmp =>
    if s.timers.heap tmp = none then
      some { s with
        timers := (s.timers.listExpiredCb now tmp).2
        queued := s.queued ++ (s.timers.expired now tmp).filter (· ∈ s.armed) }
    else none
  | .callbackTest a =>
    if a ∈ s.queued then
      let s' := { s with queued := s.queued.erase a }
      -- the condition is gone once `do_io` has returned
      if s.pc.isDone ∨ s.cancelled ≠ 0 then some s'
      else some { s' with passed := a :: s.passed }
    else none
  | .callbackStore a =>
    if a ∈ s.passed then
      some { s with passed := s.passed.erase a, cancelled := ETIMEDOUT, cancelling := a :: s.cancelling }
    else none
  | .callbackCancel a fails =>
    if a ∈ s.cancelling then
      match IOManager.cancelEvent c.fd c.event fails s.io with
      | .error _ => none
      | .ok (_, io) => some { s with io := io, cancelling := s.cancelling.erase a }
    else none
  | .dispatch p mask fails =>
    match IOManager.dispatch p mask fails s.io with
    | .error _ => none
    | .ok io => some { s with io := io }
  | .cancelAll fails =>
    match IOManager.cancelAll c.fd fails s.io with
    | .error _ => none
    | .ok (_, io) => some { s with io := io }
  | .closeF => some { s with io := s.io.register c.fd none }
  | .other op =>
    match op.step s.timers with
    | .error _ => none
    | .ok timers => some { s with timers := timers }
  | _ => none

def Call.step (c : Call) (s : Sys) (act : Act) : Option Sys :=
  match act with
  | .sysCall _ | .arm _ _ | .addEvent _ _ | .yield | .resume | .cancelTimer | .test => c.fiberStep s act
  | _ => c.otherStep s act

/-- Others have no handle on the timers of this call, and report expired ones as `idle` does. -/
def Act.Allowed (s : Sys) : Act → Prop
  | .other (.call a _) => a ∉ s.armed ∧ (s.timers.heap a).isSome
  | .other (.release a) => a ∉ s.armed ∧ a ∉ s.timers.timers
  | .other (.addTimer a _ _ _ _) => s.timers.heap a = none
  | .other (.listExpiredCb _ _) => False
  | _ => True

/-- The states of every run whose steps meet `ok`. -/
inductive Call.Reached (c : Call) (ok : Sys → Act → Prop) (s₀ : Sys) : Sys → Prop where
  | start : c.Reached ok s₀ s₀
  | step {s s' : Sys} (act : Act) : c.Reached ok s₀ s → act.Allowed s → ok s act →
      c.step s act = some s' → c.Reached ok s₀ s'

/-! ## What a step does -/

section
variable {c : Call} {s s' : Sys}

-- what each step does is read off its equation here, once
attribute [local simp] Call.step Call.fiberStep Call.otherStep

theorem step_sysCall {r : Result} (h : c.step s (.sysCall r) = some s') :
    (s.pc = .direct ∧ s' = { s with pc := .done r }) ∨
    (s.pc = .retry ∧ (s' = s ∨ s' = { s with pc := .arm } ∨
      (r ≠ .error EAGAIN ∧ s' = { s with pc := .done r }))) := by
  simp only [Call.step, Call.fiberStep] at h
  split at h
  · rename_i hpc
    cases h
    exact Or.inl ⟨hpc, rfl⟩
  · rename_i hpc
    refine Or.inr ⟨hpc, ?_⟩
    split at h
    · cases h
      exact Or.inl rfl
    · split at h
      · cases h
        exact Or.inr (Or.inl rfl)
      · rename_i hagain
        cases h
        exact Or.inr (Or.inr ⟨hagain, rfl⟩)
  · cases h

theorem step_arm {a : Nat} {now : UInt64} (h : c.step s (.arm a now) = some s') : s.pc = .arm ∧
    ((s.timeout ≠ noTimeout ∧ s.timers.heap a = none ∧
        s' = { s with
          timers := s.timers.addTimer a s.timeout (some a) false now
          armed := a :: s.armed
          pc := .addEvent (some a) }) ∨
      (s.timeout = noTimeout ∧ s' = { s with pc := .addEvent none })) := by
  simp only [Call.step, Call.fiberStep, Option.ite_none_right_eq_some] at h
  obtain ⟨⟨hpc, -⟩, h⟩ := h
  refine ⟨hpc, ?_⟩
  split at h
  · rename_i hto
    rw [Option.ite_none_right_eq_some] at h
    obtain ⟨hfree, h⟩ := h
    cases h
    exact Or.inl ⟨hto, hfree, rfl⟩
  · rename_i hto
    cases h
    exact Or.inr ⟨not_not.mp hto, rfl⟩

theorem step_addEvent {fails : Bool} {error : CtlError} (h : c.step s (.addEvent fails error) = some s') :
    ∃ timer, s.pc = .addEvent timer ∧ ∃ io, (s' = { s with io := io, pc := .failed timer error.errno } ∨
      s' = { s with io := io, pc := .yield timer }) := by
  simp only [Call.step, Call.fiberStep] at h
  split at h
  · rename_i timer hpc
    refine ⟨timer, hpc, ?_⟩
    split at h
    · cases h
    · rename_i rt io hrun
      refine ⟨io, ?_⟩
      split at h
      · cases h
        exact Or.inl rfl
      · cases h
        exact Or.inr rfl
  · cases h

theorem step_yield (h : c.step s .yield = some s') :
    ∃ timer, s.pc = .yield timer ∧ s' = { s with pc := .parked timer } := by
  simp only [Call.step, Call.fiberStep] at h
  split at h
  · rename_i timer hpc
    cases h
    exact ⟨timer, hpc, rfl⟩
  · cases h

theorem step_resume (h : c.step s .resume = some s') :
    ∃ timer, s.pc = .parked timer ∧ s' = { s with pc := .resumed timer } := by
  simp only [Call.step, Call.fiberStep] at h
  split at h
  · rename_i timer hpc
    split at h
    · cases h
    · cases h
      exact ⟨timer, hpc, rfl⟩
  · cases h

theorem step_cancelTimer (h : c.step s .cancelTimer = some s') : ∃ timer timers,
    s.cancelTimer timer = some timers ∧
    ((s.pc = .resumed timer ∧ s' = { s with timers := timers, pc := .test }) ∨
      (∃ errno, s.pc = .failed timer errno ∧
        s' = { s with timers := timers, pc := .done (.error errno) })) := by
  simp only [Call.step, Call.fiberStep] at h
  split at h
  · rename_i timer hpc
    obtain ⟨timers, hcancel, rfl⟩ := Option.map_eq_some_iff.mp h
    exact ⟨timer, timers, hcancel, Or.inl ⟨hpc, rfl⟩⟩
  · rename_i timer errno hpc
    obtain ⟨timers, hcancel, rfl⟩ := Option.map_eq_some_iff.mp h
    exact ⟨timer, timers, hcancel, Or.inr ⟨errno, hpc, rfl⟩⟩
  · cases h

theorem step_test (h : c.step s .test = some s') : s.pc = .test ∧
    ((s.cancelled ≠ 0 ∧ s' = { s with pc := .done (.error s.cancelled) }) ∨
      (s.cancelled = 0 ∧ s' = { s with pc := .retry })) := by
  simp only [Call.step, Call.fiberStep] at h
  split at h
  · rename_i hpc
    refine ⟨hpc, ?_⟩
    split at h
    · rename_i hc
      cases h
      exact Or.inl ⟨hc, rfl⟩
    · rename_i hc
      cases h
      exact Or.inr ⟨not_not.mp hc, rfl⟩
  · cases h

theorem step_expire {now : UInt64} {tmp : Nat} (h : c.step s (.expire now tmp) = some s') :
    s' = { s with
      timers := (s.timers.listExpiredCb now tmp).2
      queued := s.queued ++ (s.timers.expired now tmp).filter (· ∈ s.armed) } := by
  simp only [Call.step, Call.otherStep, Option.ite_none_right_eq_some] at h
  cases h.2
  rfl

theorem step_callbackTest {a : Nat} (h : c.step s (.callbackTest a) = some s') :
    ((s.pc.isDone ∨ s.cancelled ≠ 0) ∧ s' = { s with queued := s.queued.erase a }) ∨
      (s.cancelled = 0 ∧ s' = { s with queued := s.queued.erase a, passed := a :: s.passed }) := by
  simp only [Call.step, Call.otherStep, Option.ite_none_right_eq_some] at h
  replace h := h.2
  split at h
  · rename_i hgone
    cases h
    exact Or.inl ⟨hgone, rfl⟩
  · rename_i hlive
    cases h
    rw [not_or, not_not] at hlive
    exact Or.inr ⟨hlive.2, rfl⟩

theorem step_callbackStore {a : Nat} (h : c.step s (.callbackStore a) = some s') :
    s' = { s with
      passed := s.passed.erase a, cancelled := ETIMEDOUT, cancelling := a :: s.cancelling } := by
  simp only [Call.step, Call.otherStep, Option.ite_none_right_eq_some] at h
  cases h.2
  rfl

theorem step_callbackCancel {a : Nat} {fails : Bool} (h : c.step s (.callbackCancel a fails) = some s') :
    a ∈ s.cancelling ∧ ∃ r io, IOManager.cancelEvent c.fd c.event fails s.io = .ok (r, io) ∧
      s' = { s with io := io, cancelling := s.cancelling.erase a } := by
  simp only [Call.step, Call.otherStep, Option.ite_none_right_eq_some] at h
  obtain ⟨hin, h⟩ := h
  refine ⟨hin, ?_⟩
  split at h
  · cases h
  · rename_i r io hrun
    cases h
    exact ⟨r, io, hrun, rfl⟩

theorem step_dispatch {p : Nat} {mask : BitVec 32} {fails : Bool}
    (h : c.step s (.dispatch p mask fails) = some s') :
    ∃ io, IOManager.dispatch p mask fails s.io = .ok io ∧ s' = { s with io := io } := by
  simp only [Call.step, Call.otherStep] at h
  split at h
  · cases h
  · rename_i io hrun
    cases h
    exact ⟨io, hrun, rfl⟩

theorem step_cancelAll {fails : Bool} (h : c.step s (.cancelAll fails) = some s') :
    ∃ r io, IOManager.cancelAll c.fd fails s.io = .ok (r, io) ∧ s' = { s with io := io } := by
  simp only [Call.step, Call.otherStep] at h
  split at h
  · cases h
  · rename_i r io hrun
    cases h
    exact ⟨r, io, hrun, rfl⟩

theorem step_closeF (h : c.step s .closeF = some s') : s' = { s with io := s.io.register c.fd none } := by
  simpa using h.symm

theorem step_other {op : Timer.Op} (h : c.step s (.other op) = some s') :
    ∃ timers, op.step s.timers = .ok timers ∧ s' = { s with timers := timers } := by
  simp only [Call.step, Call.otherStep] at h
  split at h
  · cases h
  · rename_i timers hrun
    cases h
    exact ⟨timers, hrun, rfl⟩

end

end Sylar.Hook
