import Mathlib.Data.List.Basic
import Mathlib.Algebra.Order.Ring.Nat
import Sylar.Lib.Narrow
import Sylar.Timer.Basic
import Sylar.Timer.Earliest

/- The timeout `IOManager::idle()` passes to `epoll_wait`.

   `next_timeout` is the `uint64_t` that `getNextTimer()` returned. Each round of the
   `do` loop narrows it to `int`, caps it at `MAX_TIMEOUT` and widens it again, sign and
   all; an interrupted `epoll_wait` goes round once more, with the variable as the round
   before left it. The cap comes after the narrowing, so what counts is the low half of
   the wait: from 2^31 on it is negative and the wait has no end, and a wait that is a
   multiple of 2^32 does not wait at all. -/
namespace Sylar.IOManager
open Sylar.Lib Sylar.Timer

/-! ## The loop -/

/-- `MAX_TIMEOUT`. -/
def maxTimeout : Int32 := 5000

/-- `std::min`, which returns its first argument unless the second is less. -/
def stdMin (a b : Int32) : Int32 := if b < a then b else a

/-- `next_timeout` behind the `if` of one round. -/
def capTimeout (next_timeout : UInt64) : UInt64 :=
  if next_timeout ≠ noTimer then widened (stdMin (narrowed next_timeout) maxTimeout)
  else widened maxTimeout

/-- `next_timeout` at the call of `epoll_wait` that comes after so many interrupted ones. -/
def waitingFor (next_timeout : UInt64) : Nat → UInt64
  | 0 => capTimeout next_timeout
  | interrupted + 1 => capTimeout (waitingFor next_timeout interrupted)

/-- `stopping(next_timeout)`; `drained` is the rest of its condition. -/
def stoppingAt (next_timeout : UInt64) (drained : Bool) : Bool := next_timeout == noTimer && drained

/-- The last argument of `epoll_wait` in an iteration of `idle()` that reads the clock at
`now`, after so many interrupted calls; `none` where `idle()` leaves its loop instead. -/
def idleTimeout (s : TimerManager) (now : UInt64) (drained : Bool) (interrupted : Nat) : Option Int32 :=
  let next_timeout := (s.getNextTimer now).1
  if stoppingAt next_timeout drained then none else some (narrowed (waitingFor next_timeout interrupted))

/-! ## The rounds -/

theorem stdMin_toInt (a b : Int32) : (stdMin a b).toInt = min a.toInt b.toInt := by
  unfold stdMin
  by_cases h : b < a
  · have hlt := Int32.lt_iff_toInt_lt.mp h
    rw [if_pos h]
    omega
  · have hlt : ¬ b.toInt < a.toInt := fun hlt => h (Int32.lt_iff_toInt_lt.mpr hlt)
    rw [if_neg h]
    omega

theorem maxTimeout_toInt : maxTimeout.toInt = 5000 := by decide

/-- A timeout that is in range stays as it is at every retry. -/
theorem waitingFor_inRange {next_timeout : UInt64} {t : Int32} (hcap : capTimeout next_timeout = widened t)
    (hpos : 0 ≤ t.toInt) (hmax : t.toInt ≤ 5000) : ∀ interrupted, waitingFor next_timeout interrupted = widened t := by
  intro interrupted
  induction interrupted with
  | zero => exact hcap
  | succ interrupted ih =>
    have hne : widened t ≠ noTimer := by
      intro heq
      have hnat := widened_toNat hpos
      rw [heq] at hnat
      have hbig : noTimer.toNat = 2 ^ 64 - 1 := by decide
      omega
    have hmin : stdMin t maxTimeout = t := by
      unfold stdMin
      rw [if_neg]
      intro hlt
      have := Int32.lt_iff_toInt_lt.mp hlt
      rw [maxTimeout_toInt] at this
      omega
    rw [waitingFor, ih, capTimeout, if_pos hne, narrowed_widened, hmin]

/-- What is promised of a timeout, given what `getNextTimer` returned. -/
structure InRange (next_timeout : UInt64) (timeout : Int32) : Prop where
  nonneg : 0 ≤ timeout.toInt
  capped : timeout.toInt ≤ 5000
  within : timeout.toInt ≤ next_timeout.toNat
  zero : timeout.toInt = 0 → next_timeout = 0

/-- The wait until `next_timeout` reads as a wait: it is none, `~0ull`, or one whose low half
is a positive `int`. -/
def Readable (wait : Nat) : Prop :=
  wait = 0 ∨ wait = 2 ^ 64 - 1 ∨ (0 < wait % 2 ^ 32 ∧ wait % 2 ^ 32 < 2 ^ 31)

theorem waits_inRange_iff (v : UInt64) :
    (∀ interrupted, InRange v (narrowed (waitingFor v interrupted))) ↔ Readable v.toNat := by
  have hlt := v.toNat_lt
  by_cases hnone : v = noTimer
  · have hbig : v.toNat = 2 ^ 64 - 1 := by rw [hnone]; decide
    have hcap : capTimeout v = widened maxTimeout := by simp [capTimeout, hnone]
    have hall := waitingFor_inRange hcap (by decide) (by decide)
    constructor
    · intro _
      exact Or.inr (Or.inl hbig)
    · intro _ interrupted
      rw [hall, narrowed_widened]
      constructor
      · rw [maxTimeout_toInt]; omega
      · rw [maxTimeout_toInt]
      · rw [maxTimeout_toInt, hbig]; omega
      · rw [maxTimeout_toInt]; omega
  · have hcap : capTimeout v = widened (stdMin (narrowed v) maxTimeout) := by simp [capTimeout, hnone]
    have hmin := stdMin_toInt (narrowed v) maxTimeout
    have hbig : v.toNat ≠ 2 ^ 64 - 1 := fun h => hnone ((eq_noTimer_iff v).mpr h)
    rw [maxTimeout_toInt] at hmin
    constructor
    · intro h
      -- the first call decides
      have hfirst := h 0
      rw [waitingFor, hcap, narrowed_widened] at hfirst
      obtain ⟨hnonneg, -, -, hzero⟩ := hfirst
      unfold Readable
      rcases narrowed_cases v with ⟨hlow, hval⟩ | ⟨hlow, hval⟩
      · by_cases hv : v.toNat % 2 ^ 32 = 0
        · left
          rw [hzero (by omega)]
          simp
        · exact Or.inr (Or.inr ⟨by omega, hlow⟩)
      · omega
    · intro h interrupted
      have hval : (narrowed v).toInt = (v.toNat % 2 ^ 32 : Nat) := by
        rcases narrowed_cases v with ⟨-, hval⟩ | ⟨hlow, -⟩
        · exact hval
        · rcases h with hzero | hmax | ⟨-, hhalf⟩ <;> omega
      have hall := waitingFor_inRange hcap (by omega) (by omega)
      rw [hall, narrowed_widened]
      constructor
      · omega
      · omega
      · omega
      · intro hzero
        rw [← UInt64.toNat_inj]
        rcases h with h | h | h
        · simpa using h
        · exact absurd h hbig
        · omega

/-- **The timeout of `epoll_wait`** is in range at every call and retry if and only if the wait
for the first pending timer, if there is one, reads as a wait. -/
theorem idle_timeout_iff (s : TimerManager) (now : UInt64) :
    (∀ drained interrupted timeout, idleTimeout s now drained interrupted = some timeout →
      InRange (s.getNextTimer now).1 timeout) ↔
    ∀ a rest, s.timers = a :: rest → Readable (s.deadline a - now.toNat) := by
  have hwaits : (∀ drained interrupted timeout, idleTimeout s now drained interrupted = some timeout →
      InRange (s.getNextTimer now).1 timeout) ↔
      ∀ interrupted, InRange (s.getNextTimer now).1 (narrowed (waitingFor (s.getNextTimer now).1 interrupted)) := by
    constructor
    · intro h interrupted
      apply h false interrupted
      simp [idleTimeout, stoppingAt]
    · intro h drained interrupted timeout heq
      unfold idleTimeout at heq
      dsimp only at heq
      split at heq
      · cases heq
      · cases heq
        exact h interrupted
  rw [hwaits, waits_inRange_iff]
  cases htimers : s.timers with
  | nil =>
    have hnone : (s.getNextTimer now).1.toNat = 2 ^ 64 - 1 := by
      simp [TimerManager.getNextTimer, htimers, noTimer]
    simp [hnone, Readable]
  | cons a rest =>
    rw [getNextTimer_cons now htimers]
    simp

/-- A timer 2^32 ms ahead, and one 2^31 ms ahead: the first makes `epoll_wait` return at once,
the second makes it wait without end. -/
theorem distant_timer_timeouts :
    idleTimeout ((new 0).addTimer 16 0x100000000 (some 1) false 0) 0 false 0 = some 0 ∧
      idleTimeout ((new 0).addTimer 16 0x80000000 (some 1) false 0) 0 false 0 = some (-0x80000000) ∧
      ¬ (∀ (s : TimerManager) (now : UInt64) drained interrupted timeout,
        idleTimeout s now drained interrupted = some timeout → InRange (s.getNextTimer now).1 timeout) := by
  have hzero : idleTimeout ((new 0).addTimer 16 0x100000000 (some 1) false 0) 0 false 0 = some 0 := by
    decide +kernel
  refine ⟨hzero, by decide +kernel, ?_⟩
  intro h
  have hbad := (h _ 0 false 0 0 hzero).zero (by decide)
  revert hbad
  decide +kernel

end Sylar.IOManager
