import Mathlib.Data.List.Basic
import Mathlib.Algebra.Order.Ring.Nat
import Sylar.Lib.Narrow

/- `sleep`, `usleep` and `nanosleep` of `sylar/hook.cc`.

   Each turns its argument into milliseconds for `addTimer` and yields. The three take
   different ways there: a product of `unsigned int`s that wraps, a quotient that cuts
   off the rest, and a sum of `long`s narrowed to `int` and widened to `uint64_t`.
   `sleeps_long_enough_iff` says for which arguments the delay is not below what was
   asked for; a `timeout_ms` that comes out negative widens to almost 2^64 and is not. -/
namespace Sylar.Hook
open Sylar.Lib

/-- What a call does: it calls the original function, or it adds a timer that schedules the
fiber on any thread, and yields. -/
inductive SleepCall where
  | original
  | addTimer (ms : UInt64) (fiber : Nat) (thread : Int)
  deriving DecidableEq, Repr

structure Timespec where
  tv_sec : Int64
  tv_nsec : Int64
  deriving DecidableEq, Repr

/-- A duration. -/
structure Timespec.Valid (req : Timespec) : Prop where
  sec : 0 ≤ req.tv_sec.toInt
  nsec : 0 ≤ req.tv_nsec.toInt
  below : req.tv_nsec.toInt < 1000000000

section
variable (hook_enable : Bool) (fiber : Nat)

def sleep (seconds : UInt32) : SleepCall :=
  if hook_enable = false then .original
  else .addTimer (seconds * 1000).toUInt64 fiber (-1)

def usleep (usec : UInt32) : SleepCall :=
  if hook_enable = false then .original
  else .addTimer (usec / 1000).toUInt64 fiber (-1)

/-- `none` where the arithmetic on `long`s overflows, which is undefined. -/
def nanosleep (req : Timespec) : Option SleepCall :=
  if hook_enable = false then some .original
  else do
    let ms ← addLong (← mulLong req.tv_sec 1000) (req.tv_nsec / 1000 / 1000)
    let timeout_ms := ms.toInt32
    return .addTimer (widened timeout_ms) fiber (-1)

end

/-! ## The delays -/

/-- A timer is added, for at least `ns` nanoseconds. -/
def LongEnough (ns : Int) : SleepCall → Prop
  | .original => False
  | .addTimer ms _ _ => ns ≤ ms.toNat * 1000000

theorem sleep_long_enough_iff (fiber : Nat) (seconds : UInt32) :
    LongEnough (seconds.toNat * 1000000000) (sleep true fiber seconds) ↔ seconds.toNat * 1000 < 2 ^ 32 := by
  have hms : (seconds * 1000).toUInt64.toNat = seconds.toNat * 1000 % 2 ^ 32 := by
    rw [UInt32.toNat_toUInt64, UInt32.toNat_mul]
    rfl
  show (seconds.toNat * 1000000000 : Int) ≤ (seconds * 1000).toUInt64.toNat * 1000000 ↔ _
  rw [hms]
  omega

theorem usleep_long_enough_iff (fiber : Nat) (usec : UInt32) :
    LongEnough (usec.toNat * 1000) (usleep true fiber usec) ↔ usec.toNat % 1000 = 0 := by
  have hms : (usec / 1000).toUInt64.toNat = usec.toNat / 1000 := by
    rw [UInt32.toNat_toUInt64, UInt32.toNat_div]
    rfl
  show (usec.toNat * 1000 : Int) ≤ (usec / 1000).toUInt64.toNat * 1000000 ↔ _
  rw [hms]
  omega

/-- The whole milliseconds of a duration. -/
def Timespec.millis (req : Timespec) : Int := req.tv_sec.toInt * 1000 + req.tv_nsec.toInt / 1000000

/-- `timeout_ms` is negative, or the milliseconds are an `int` and nothing is cut off. -/
def Timespec.Fits (req : Timespec) : Prop :=
  req.millis < 2 ^ 63 ∧
    (2 ^ 31 ≤ req.millis % 2 ^ 32 ∨ (req.millis < 2 ^ 31 ∧ req.tv_nsec.toInt % 1000000 = 0))

/-- The call adds a timer as long as the milliseconds are a `long`. -/
theorem nanosleep_eq (fiber : Nat) {req : Timespec} (h : req.Valid) :
    nanosleep true fiber req =
      (long req.millis).map fun ms => SleepCall.addTimer (widened ms.toInt32) fiber (-1) := by
  obtain ⟨hsec, hnsec, hbelow⟩ := h
  have hrest : (req.tv_nsec / 1000 / 1000).toInt = req.tv_nsec.toInt / 1000000 := by
    have hk : (1000 : Int64).toInt = 1000 := by decide
    rw [Int64.toInt_div_of_ne_right _ _ (by decide), Int64.toInt_div_of_ne_right _ _ (by decide), hk,
      Int.tdiv_eq_ediv_of_nonneg hnsec, Int.tdiv_eq_ediv_of_nonneg (by omega)]
    omega
  have hthousand : (1000 : Int64).toInt = 1000 := by decide
  unfold nanosleep Timespec.millis
  rw [if_neg (by decide)]
  cases hmul : mulLong req.tv_sec 1000 with
  | none =>
    unfold mulLong at hmul
    rw [hthousand, long_eq_none_iff] at hmul
    have hnone : long (req.tv_sec.toInt * 1000 + req.tv_nsec.toInt / 1000000) = none :=
      long_eq_none_iff.mpr (by omega)
    rw [hnone]
    rfl
  | some product =>
    unfold mulLong at hmul
    rw [hthousand, long_eq_some_iff] at hmul
    have hadd : addLong product (req.tv_nsec / 1000 / 1000) =
        long (req.tv_sec.toInt * 1000 + req.tv_nsec.toInt / 1000000) := by
      rw [addLong, hmul, hrest]
    simp only [Option.bind_eq_bind, Option.bind_some, hadd]
    cases long (req.tv_sec.toInt * 1000 + req.tv_nsec.toInt / 1000000) <;> rfl

theorem nanosleep_long_enough_iff (fiber : Nat) {req : Timespec} (h : req.Valid) :
    (∃ call, nanosleep true fiber req = some call ∧
      LongEnough (req.tv_sec.toInt * 1000000000 + req.tv_nsec.toInt) call) ↔ req.Fits := by
  have heq := nanosleep_eq fiber h
  obtain ⟨hsec, hnsec, hbelow⟩ := h
  have hmillis : req.millis = req.tv_sec.toInt * 1000 + req.tv_nsec.toInt / 1000000 := rfl
  unfold Timespec.Fits
  cases hlong : long req.millis with
  | none =>
    rw [hlong] at heq
    rw [long_eq_none_iff] at hlong
    constructor
    · rintro ⟨call, hcall, -⟩
      rw [heq] at hcall
      cases hcall
    · intro hfits
      omega
  | some ms =>
    rw [hlong] at heq
    rw [long_eq_some_iff] at hlong
    have hlt := ms.toInt_lt
    have hdelay := widened_toInt32 ms
    rw [hlong] at hdelay
    have hcalls : (∃ call, nanosleep true fiber req = some call ∧
        LongEnough (req.tv_sec.toInt * 1000000000 + req.tv_nsec.toInt) call) ↔
        req.tv_sec.toInt * 1000000000 + req.tv_nsec.toInt ≤ (widened ms.toInt32).toNat * 1000000 := by
      rw [heq]
      simp [LongEnough]
    rw [hcalls, hdelay]
    -- a delay below 2^31 is the low half of the milliseconds, any other is beyond every `long`
    split <;> omega

/-- **Sleeps that are long enough.** The delay of a hooked sleep covers what was asked for exactly
when the `unsigned int` product does not wrap, when the microseconds are whole milliseconds, and
when the `timespec` fits. -/
theorem sleeps_long_enough_iff (fiber : Nat) :
    (∀ seconds : UInt32, LongEnough (seconds.toNat * 1000000000) (sleep true fiber seconds) ↔
      seconds.toNat ≤ 4294967) ∧
    (∀ usec : UInt32, LongEnough (usec.toNat * 1000) (usleep true fiber usec) ↔ usec.toNat % 1000 = 0) ∧
    ∀ req : Timespec, req.Valid →
      ((∃ call, nanosleep true fiber req = some call ∧
        LongEnough (req.tv_sec.toInt * 1000000000 + req.tv_nsec.toInt) call) ↔ req.Fits) := by
  refine ⟨?_, usleep_long_enough_iff fiber, fun req h => nanosleep_long_enough_iff fiber h⟩
  intro seconds
  rw [sleep_long_enough_iff]
  omega

/-- A `nanosleep` of three seconds and five milliseconds. -/
theorem nanosleep_three_seconds :
    ∃ call, nanosleep true 1 ⟨3, 5000000⟩ = some call ∧ LongEnough (3 * 1000000000 + 5000000) call :=
  ((sleeps_long_enough_iff 1).2.2 ⟨3, 5000000⟩ ⟨by decide, by decide, by decide⟩).mpr
    ⟨by decide, Or.inr ⟨by decide, by decide⟩⟩

/-- 4294968 s come out as 704 ms, 1999 µs as one, a nanosecond as none. -/
theorem short_sleeps :
    sleep true 1 4294968 = .addTimer 704 1 (-1) ∧ usleep true 1 1999 = .addTimer 1 1 (-1) ∧
      nanosleep true 1 ⟨0, 1⟩ = some (.addTimer 0 1 (-1)) ∧
      ¬ (∀ seconds : UInt32, LongEnough (seconds.toNat * 1000000000) (sleep true 1 seconds)) ∧
      ¬ (∀ usec : UInt32, LongEnough (usec.toNat * 1000) (usleep true 1 usec)) ∧
      ¬ ∀ req : Timespec, req.Valid → ∃ call, nanosleep true 1 req = some call ∧
        LongEnough (req.tv_sec.toInt * 1000000000 + req.tv_nsec.toInt) call := by
  refine ⟨by decide, by decide, by decide, ?_, ?_, ?_⟩
  · intro h
    exact absurd ((sleep_long_enough_iff 1 4294968).mp (h 4294968)) (by decide)
  · intro h
    exact absurd ((usleep_long_enough_iff 1 1999).mp (h 1999)) (by decide)
  · intro h
    have hvalid : (⟨0, 1⟩ : Timespec).Valid := ⟨by decide, by decide, by decide⟩
    obtain ⟨-, hbig | ⟨-, hrest⟩⟩ := (nanosleep_long_enough_iff 1 hvalid).mp (h ⟨0, 1⟩ hvalid)
    · exact absurd hbig (by decide)
    · exact absurd hrest (by decide)

end Sylar.Hook
