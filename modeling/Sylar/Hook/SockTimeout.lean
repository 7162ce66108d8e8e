import Mathlib.Data.List.Basic
import Mathlib.Algebra.Order.Ring.Nat
import Mathlib.Logic.Function.Basic
import Sylar.Lib.Machine
import Sylar.Lib.Narrow
import Sylar.Hook.DoIo
import Sylar.Hook.Nonblock

/- `SO_RCVTIMEO` and `SO_SNDTIMEO` between the kernel and `do_io`.

   The hooked `setsockopt` writes the milliseconds of a `timeval` to the `FdCtx` before it
   asks the kernel, and `do_io` reads them there. The kernel takes {0, 0}, which is also
   what it starts with, for no timeout; `do_io` takes the word -1. So the two agree as
   long as no accepted `timeval` is {0, 0} or has a part of a millisecond, and no refused
   one differs from the last accepted (`timeouts_match_iff`).

   `Socket::setRecvTimeout` and `setSendTimeout` make the `timeval` from milliseconds,
   through two `int`s. -/
namespace Sylar.Hook
open Sylar.Lib

/-! ## Setting a timeout -/

structure Timeval where
  tv_sec : Int64
  tv_usec : Int64
  deriving DecidableEq, Repr

/-- `v->tv_sec * 1000 + v->tv_usec / 1000`; `none` where it overflows, which is undefined. -/
def Timeval.millis (v : Timeval) : Option Int64 := do
  addLong (← mulLong v.tv_sec 1000) (v.tv_usec / 1000)

/-- The process, and the timeouts the kernel holds of one socket. -/
structure Sock where
  p : Process
  kernel : TimeoutType → Timeval

/-- A call of `setsockopt` for `SOL_SOCKET`, and whether the kernel accepts it. -/
structure SetOpt where
  optname : TimeoutType
  tv : Timeval
  accepted : Bool
  deriving DecidableEq, Repr

def Sock.setsockoptF (s : Sock) (c : SetOpt) : Sock :=
  if c.accepted then { s with kernel := Function.update s.kernel c.optname c.tv } else s

def Sock.setsockopt (hook_enable : Bool) (sockfd : Nat) (s : Sock) (c : SetOpt) : Option Sock :=
  if hook_enable = false then some (s.setsockoptF c)
  else
    match (s.p.get sockfd false).1 with
    | none => some (s.setsockoptF c)
    | some ctx => do
      let v ← c.tv.millis
      let s := { s with p := s.p.put sockfd (some (ctx.setTimeout c.optname v.toUInt64)) }
      return s.setsockoptF c

/-! ## Socket -/

/-- The `timeval` of `setSendTimeout` and `setRecvTimeout`. -/
def timevalOf (v : Int64) : Timeval where
  tv_sec := (v / 1000).toInt32.toInt64
  tv_usec := (v % 1000 * 1000).toInt32.toInt64

section
variable (hook_enable : Bool) (m_sock : Nat) (s : Sock)

def Sock.setSendTimeout (v : Int64) (accepted : Bool) : Option Sock :=
  s.setsockopt hook_enable m_sock ⟨.SO_SNDTIMEO, timevalOf v, accepted⟩

def Sock.setRecvTimeout (v : Int64) (accepted : Bool) : Option Sock :=
  s.setsockopt hook_enable m_sock ⟨.SO_RCVTIMEO, timevalOf v, accepted⟩

def Sock.getTimeout (type : TimeoutType) : Int64 :=
  match (s.p.get m_sock false).1 with
  | none => -1
  | some ctx => (ctx.getTimeout type).toInt64

def Sock.getSendTimeout : Int64 := s.getTimeout m_sock .SO_SNDTIMEO

def Sock.getRecvTimeout : Int64 := s.getTimeout m_sock .SO_RCVTIMEO

end

/-! ## What is promised -/

/-- A timeout of `do_io` against one of the kernel. -/
def Matches (tv : Timeval) (timeout : UInt64) : Prop :=
  if tv = ⟨0, 0⟩ then timeout = noTimeout
  else timeout ≠ noTimeout ∧ tv.tv_sec.toInt * 1000000 + tv.tv_usec.toInt ≤ timeout.toNat * 1000

/-- Every hooked call on the descriptor waits with a timeout that matches the kernel's. -/
def Sock.Agrees (fd : Nat) (s : Sock) : Prop :=
  ∀ c : Call, c.hook_enable = true → c.fd = fd →
    (c.enter s.p).1 = .retry ∧ Matches (s.kernel c.timeout_so) (c.enter s.p).2

/-- A socket `do_io` takes care of. -/
def Sock.Managed (fd : Nat) (s : Sock) : Prop :=
  ∃ ctx, s.p.ctx fd = some ctx ∧ ctx.isSocket = true ∧ ctx.isClosed = false ∧ ctx.userNonblock = false

/-- No timeout has been set. -/
structure Sock.Fresh (fd : Nat) (s : Sock) : Prop where
  managed : s.Managed fd
  timeouts : ∀ ctx type, s.p.ctx fd = some ctx → ctx.getTimeout type = noTimeout
  kernel : ∀ type, s.kernel type = ⟨0, 0⟩

/-- What is promised of the call `c` behind the calls `pre`. -/
def Sock.Keeps (fd : Nat) (s : Sock) (pre : List SetOpt) (c : SetOpt) : Prop :=
  ∃ s₁ s₂, after (Sock.setsockopt true fd) pre s = some s₁ ∧ s₁.setsockopt true fd c = some s₂ ∧
    s₂.Agrees fd ∧ (c.accepted = false → s₂ = s₁)

/-! ## The condition -/

/-- The last `timeval` that was accepted for a direction. -/
def lastAccepted (type : TimeoutType) (calls : List SetOpt) : Option Timeval :=
  ((calls.filter fun c => c.accepted && c.optname == type).getLast?).map SetOpt.tv

/-- What the `FdCtx` should hold for it. -/
def lastMillis (type : TimeoutType) (calls : List SetOpt) : Option Int64 :=
  match lastAccepted type calls with
  | none => some (-1)
  | some tv => tv.millis

/-- Not {0, 0}, and nothing is lost on the way to milliseconds. -/
def Timeval.Whole (tv : Timeval) : Prop :=
  tv ≠ ⟨0, 0⟩ ∧ ∃ v, tv.millis = some v ∧ v ≠ -1 ∧
    (0 ≤ v.toInt → tv.tv_usec.toInt ≤ tv.tv_usec.toInt.tdiv 1000 * 1000)

/-- An accepted call is whole; a refused one has the milliseconds that are there already. -/
def SetOpt.Meets (pre : List SetOpt) (c : SetOpt) : Prop :=
  if c.accepted then c.tv.Whole else ∃ v, c.tv.millis = some v ∧ lastMillis c.optname pre = some v

/-! ## One call -/

/-- What `do_io` reads. -/
def Sock.timeout (fd : Nat) (s : Sock) (type : TimeoutType) : UInt64 :=
  match s.p.ctx fd with
  | none => noTimeout
  | some ctx => ctx.getTimeout type

theorem getTimeout_setTimeout (ctx : FdCtx) (type t : TimeoutType) (v : UInt64) :
    (ctx.setTimeout type v).getTimeout t = if t = type then v else ctx.getTimeout t := by
  cases type <;> cases t <;> rfl

theorem setTimeout_getTimeout (ctx : FdCtx) (type : TimeoutType) :
    ctx.setTimeout type (ctx.getTimeout type) = ctx := by
  cases type <;> rfl

theorem put_same {p : Process} {fd : Nat} {ctx : FdCtx} (h : p.ctx fd = some ctx) : p.put fd (some ctx) = p := by
  have hlt := lt_of_ctx h
  have hat : p.datas[fd] = some ctx := by simpa [Process.ctx, hlt] using h
  have hset : p.datas.set fd (some ctx) = p.datas := by
    rw [← hat]
    exact List.set_getElem_self hlt
  simp [Process.put, hset]

section
variable {fd : Nat} {s s' : Sock} {c : SetOpt}

theorem get_false (p : Process) (fd : Nat) : (p.get fd false).1 = p.ctx fd := by
  unfold Process.get
  split
  · rename_i hle
    simp [Process.ctx, List.getElem?_eq_none hle]
  · simp

/-- What `do_io` does first on a managed socket. -/
theorem enter_managed (h : s.Managed fd) {call : Call} (hhook : call.hook_enable = true) (hfd : call.fd = fd) :
    call.enter s.p = (.retry, s.timeout fd call.timeout_so) := by
  obtain ⟨ctx, hctx, hsock, hopen, huser⟩ := h
  simp [Call.enter, hhook, hfd, get_false, hctx, hsock, hopen, huser, Sock.timeout]

theorem agrees_iff (h : s.Managed fd) :
    s.Agrees fd ↔ ∀ type, Matches (s.kernel type) (s.timeout fd type) := by
  constructor
  · intro hall type
    have hcall := hall ⟨true, true, fd, .READ, type, { scheduler := some 1, fiber := 1 }⟩ rfl rfl
    rw [enter_managed h rfl rfl] at hcall
    exact hcall.2
  · intro hall call hhook hfd
    rw [enter_managed h hhook hfd]
    exact ⟨rfl, hall call.timeout_so⟩

/-- The hooked call is undefined where the milliseconds are. -/
theorem setsockopt_undefined (h : s.Managed fd) (hv : c.tv.millis = none) : s.setsockopt true fd c = none := by
  obtain ⟨ctx, hctx, -⟩ := h
  simp [Sock.setsockopt, get_false, hctx, hv]

/-- Elsewhere it sets the timeout of one direction here, and in the kernel if that accepts it. -/
theorem setsockopt_managed (h : s.Managed fd) {v : Int64} (hv : c.tv.millis = some v) :
    ∃ s', s.setsockopt true fd c = some s' ∧ s'.Managed fd ∧
      (∀ type, s'.timeout fd type = if type = c.optname then v.toUInt64 else s.timeout fd type) ∧
      (∀ type, s'.kernel type =
        if type = c.optname ∧ c.accepted = true then c.tv else s.kernel type) ∧
      (c.accepted = false → s.timeout fd c.optname = v.toUInt64 → s' = s) := by
  obtain ⟨ctx, hctx, hsock, hopen, huser⟩ := h
  have hput := ctx_put_self (some (ctx.setTimeout c.optname v.toUInt64)) (lt_of_ctx hctx)
  refine ⟨{ s with p := s.p.put fd (some (ctx.setTimeout c.optname v.toUInt64)) }.setsockoptF c,
    by simp [Sock.setsockopt, get_false, hctx, hv], ?_⟩
  generalize hnew : Sock.setsockoptF { s with p := s.p.put fd (some (ctx.setTimeout c.optname v.toUInt64)) } c = s'
  have hp : s'.p = s.p.put fd (some (ctx.setTimeout c.optname v.toUInt64)) := by
    rw [← hnew, Sock.setsockoptF]
    split <;> rfl
  refine ⟨⟨_, by rw [hp]; exact hput, ?_⟩, ?_, ?_, ?_⟩
  · cases c.optname <;> exact ⟨hsock, hopen, huser⟩
  · intro type
    simp only [Sock.timeout, hp, hput, hctx]
    exact getTimeout_setTimeout ctx c.optname type v.toUInt64
  · intro type
    rw [← hnew, Sock.setsockoptF]
    by_cases hacc : c.accepted = true
    · by_cases htype : type = c.optname
      · simp [hacc, htype]
      · simp [hacc, htype]
    · simp [hacc]
  · intro hrefused hsame
    have hget : ctx.getTimeout c.optname = v.toUInt64 := by simpa [Sock.timeout, hctx] using hsame
    have hput : s.p.put fd (some (ctx.setTimeout c.optname v.toUInt64)) = s.p := by
      rw [← hget, setTimeout_getTimeout]
      exact put_same hctx
    rw [← hnew, Sock.setsockoptF, hrefused, hput]
    rfl

end

/-! ## One `timeval` -/

theorem millis_toInt {tv : Timeval} {v : Int64} (h : tv.millis = some v) :
    v.toInt = tv.tv_sec.toInt * 1000 + tv.tv_usec.toInt.tdiv 1000 := by
  have hthousand : (1000 : Int64).toInt = 1000 := by decide
  obtain ⟨product, hmul, hadd⟩ := Option.bind_eq_some_iff.mp h
  have hproduct := long_eq_some_iff.mp hmul
  have hsum := long_eq_some_iff.mp hadd
  rw [hsum, hproduct, hthousand, Int64.toInt_div_of_ne_right _ _ (by decide), hthousand]

theorem toUInt64_inj {x y : Int64} (h : x.toUInt64 = y.toUInt64) : x = y := by
  rw [← Int64.toInt64_toUInt64 x, h, Int64.toInt64_toUInt64]

theorem matches_iff {tv : Timeval} {v : Int64} (h : tv.millis = some v) : Matches tv v.toUInt64 ↔ tv.Whole := by
  have hint := millis_toInt h
  have hnat := toUInt64_toNat_emod v
  have hlo := v.le_toInt
  have hhi := v.toInt_lt
  have hnone : v.toUInt64 = noTimeout ↔ v = -1 :=
    ⟨fun heq => toUInt64_inj (heq.trans (by decide : noTimeout = (-1 : Int64).toUInt64)), fun heq => by rw [heq]; decide⟩
  have hwhole : tv.Whole ↔
      tv ≠ ⟨0, 0⟩ ∧ v ≠ -1 ∧ (0 ≤ v.toInt → tv.tv_usec.toInt ≤ tv.tv_usec.toInt.tdiv 1000 * 1000) := by
    simp [Timeval.Whole, h]
  rw [hwhole]
  unfold Matches
  by_cases hzero : tv = ⟨0, 0⟩
  · -- {0, 0} is 0 ms, and 0 is not -1
    have hv : v = 0 := by
      apply Int64.toInt_inj.mp
      rw [hint, hzero]
      decide
    have hne : v.toUInt64 ≠ noTimeout := by
      rw [hv]
      decide
    simp [hzero, hne]
  · rw [if_neg hzero, Ne, hnone]
    simp only [Ne, hzero, not_false_iff, true_and]
    apply and_congr_right
    intro hv
    have hcut : tv.tv_usec.toInt - tv.tv_usec.toInt.tdiv 1000 * 1000 < 1000 := by
      have := Int.tmod_add_tdiv_mul tv.tv_usec.toInt 1000
      have := Int.tmod_lt_of_pos tv.tv_usec.toInt (by decide : (0 : Int) < 1000)
      omega
    rw [hnat]
    by_cases hpos : 0 ≤ v.toInt <;> omega

/-! ## The calls before -/

section
variable (type : TimeoutType) (pre : List SetOpt) (c : SetOpt)

theorem lastAccepted_concat :
    lastAccepted type (pre ++ [c]) =
      if type = c.optname ∧ c.accepted = true then some c.tv else lastAccepted type pre := by
  unfold lastAccepted
  rw [List.filter_append, List.filter_singleton]
  by_cases h : type = c.optname ∧ c.accepted = true
  · obtain ⟨rfl, hacc⟩ := h
    simp [hacc]
  · have hno : (c.accepted && c.optname == type) = false := by
      cases hacc : c.accepted with
      | false => rfl
      | true =>
        have hne : ¬ c.optname = type := fun heq => h ⟨heq.symm, hacc⟩
        simp [hne]
    rw [if_neg h, hno]
    simp

theorem lastMillis_concat :
    lastMillis type (pre ++ [c]) =
      if type = c.optname ∧ c.accepted = true then c.tv.millis else lastMillis type pre := by
  unfold lastMillis
  rw [lastAccepted_concat]
  by_cases h : type = c.optname ∧ c.accepted = true
  · rw [if_pos h, if_pos h]
  · rw [if_neg h, if_neg h]

end

/-! ## Runs -/

section
variable {fd : Nat} {s : Sock}

/-- The state behind the calls `pre`, as long as they meet the condition: the kernel holds what it
accepted last, and the `FdCtx` its milliseconds. -/
structure Sock.Follows (fd : Nat) (pre : List SetOpt) (s : Sock) : Prop where
  managed : s.Managed fd
  kernel : ∀ type, s.kernel type = (lastAccepted type pre).getD ⟨0, 0⟩
  cached : ∀ type, ∃ v, lastMillis type pre = some v ∧ s.timeout fd type = v.toUInt64
  agrees : ∀ type, Matches (s.kernel type) (s.timeout fd type)

theorem follows_nil (h : s.Fresh fd) : s.Follows fd [] := by
  obtain ⟨ctx, hctx, -⟩ := h.managed
  have htimeout : ∀ type, s.timeout fd type = noTimeout := by
    intro type
    simp only [Sock.timeout, hctx]
    exact h.timeouts ctx type hctx
  refine ⟨h.managed, h.kernel, ?_, ?_⟩
  · intro type
    exact ⟨-1, rfl, (htimeout type).trans (by decide)⟩
  · intro type
    rw [h.kernel, htimeout, Matches, if_pos rfl]

/-- A call that meets the condition. -/
theorem Sock.Follows.meets {pre : List SetOpt} {c : SetOpt} (h : s.Follows fd pre) (hc : c.Meets pre) :
    ∃ s', s.setsockopt true fd c = some s' ∧ s'.Follows fd (pre ++ [c]) ∧ (c.accepted = false → s' = s) := by
  by_cases hacc : c.accepted = true
  · rw [SetOpt.Meets, if_pos hacc] at hc
    obtain ⟨v, hv, -⟩ := hc.2
    obtain ⟨s', hset, hmanaged, htimeout, hkernel, -⟩ := setsockopt_managed h.managed hv
    refine ⟨s', hset, ⟨hmanaged, ?_, ?_, ?_⟩, fun hno => absurd (hacc.symm.trans hno) (by decide)⟩
    · intro type
      rw [hkernel, lastAccepted_concat, h.kernel]
      split <;> rfl
    · intro type
      rw [lastMillis_concat, htimeout]
      by_cases htype : type = c.optname
      · simp [htype, hacc, hv]
      · simp only [htype, false_and, if_false]
        exact h.cached type
    · intro type
      rw [hkernel, htimeout]
      by_cases htype : type = c.optname
      · simp only [htype, hacc, and_self, if_true]
        exact (matches_iff hv).mpr hc
      · simp only [htype, false_and, if_false]
        exact h.agrees type
  · rw [SetOpt.Meets, if_neg hacc] at hc
    obtain ⟨v, hv, hlast⟩ := hc
    obtain ⟨s', hset, -, -, -, hsame⟩ := setsockopt_managed h.managed hv
    obtain ⟨w, hw, hcached⟩ := h.cached c.optname
    have hrefused : c.accepted = false := Bool.eq_false_iff.mpr hacc
    rw [hlast] at hw
    cases hw
    have heq := hsame hrefused hcached
    rw [heq] at hset
    refine ⟨s, hset, ⟨h.managed, ?_, ?_, h.agrees⟩, fun _ => rfl⟩
    · intro type
      rw [lastAccepted_concat, hrefused]
      simpa using h.kernel type
    · intro type
      rw [lastMillis_concat, hrefused]
      simpa using h.cached type

/-- A call that keeps what is promised meets the condition. -/
theorem Sock.Follows.meets_of_keeps {pre : List SetOpt} {c : SetOpt} {s' : Sock} (h : s.Follows fd pre)
    (hset : s.setsockopt true fd c = some s') (hagrees : s'.Agrees fd) (hrefused : c.accepted = false → s' = s) :
    c.Meets pre := by
  cases hv : c.tv.millis with
  | none =>
    rw [setsockopt_undefined h.managed hv] at hset
    cases hset
  | some v =>
    obtain ⟨t, ht, hmanaged, htimeout, hkernel, -⟩ := setsockopt_managed h.managed hv
    cases hset.symm.trans ht
    by_cases hacc : c.accepted = true
    · rw [SetOpt.Meets, if_pos hacc, ← matches_iff hv]
      have hmatch := (agrees_iff hmanaged).mp hagrees c.optname
      rw [hkernel, htimeout, if_pos ⟨rfl, hacc⟩, if_pos rfl] at hmatch
      exact hmatch
    · rw [SetOpt.Meets, if_neg hacc]
      obtain ⟨w, hw, hcached⟩ := h.cached c.optname
      have hat := htimeout c.optname
      rw [hrefused (Bool.eq_false_iff.mpr hacc), if_pos rfl, hcached] at hat
      rw [toUInt64_inj hat] at hw
      exact ⟨v, hv, hw⟩

theorem keeps_iff {s₁ : Sock} {pre : List SetOpt} (hrun : after (Sock.setsockopt true fd) pre s = some s₁)
    (h : s₁.Follows fd pre) (c : SetOpt) : s.Keeps fd pre c ↔ c.Meets pre := by
  constructor
  · rintro ⟨t, s₂, ht, hset, hagrees, hrefused⟩
    cases hrun.symm.trans ht
    exact h.meets_of_keeps hset hagrees hrefused
  · intro hc
    obtain ⟨s₂, hset, hfollows, hrefused⟩ := h.meets hc
    exact ⟨s₁, s₂, hrun, hset, (agrees_iff hfollows.managed).mpr hfollows.agrees, hrefused⟩

/-- The calls of a run keep what is promised, each of them, when each of them meets the condition. -/
theorem run_keeps_iff (h : s.Fresh fd) (calls : List SetOpt) :
    (∀ pre c post, calls = pre ++ c :: post → s.Keeps fd pre c) ↔
      ∀ pre c post, calls = pre ++ c :: post → c.Meets pre := by
  -- with it goes that the run is possible and ends where it should
  have hboth : ((∀ pre c post, calls = pre ++ c :: post → s.Keeps fd pre c) ↔
      ∀ pre c post, calls = pre ++ c :: post → c.Meets pre) ∧
      ((∀ pre c post, calls = pre ++ c :: post → c.Meets pre) →
        ∃ s', after (Sock.setsockopt true fd) calls s = some s' ∧ s'.Follows fd calls) := by
    induction calls using List.reverseRecOn with
    | nil => exact ⟨by simp, fun _ => ⟨s, rfl, follows_nil h⟩⟩
    | append_singleton calls c ih =>
      obtain ⟨hiff, hfollows⟩ := ih
      rw [forall_split_concat, forall_split_concat, hiff]
      constructor
      · apply and_congr_right
        intro hall
        obtain ⟨s₁, hrun, hs₁⟩ := hfollows hall
        exact keeps_iff hrun hs₁ c
      · rintro ⟨hall, hc⟩
        obtain ⟨s₁, hrun, hs₁⟩ := hfollows hall
        obtain ⟨s₂, hset, hs₂, -⟩ := hs₁.meets hc
        exact ⟨s₂, after_concat.mpr ⟨s₁, hrun, hset⟩, hs₂⟩
  exact hboth.1

end

/-! ## The setters of Socket -/

theorem timevalOf_millis {v : Int64} (hv : 0 ≤ v.toInt) :
    ∃ w, (timevalOf v).millis = some w ∧ w.toInt = (v.toInt / 1000).bmod (2 ^ 32) * 1000 + v.toInt % 1000 := by
  have hthousand : (1000 : Int64).toInt = 1000 := by decide
  have hhi := v.toInt_lt
  have hdiv : (v / 1000).toInt = v.toInt / 1000 := by
    rw [Int64.toInt_div_of_ne_right _ _ (by decide), hthousand, Int.tdiv_eq_ediv_of_nonneg hv]
  have hmod : (v % 1000).toInt = v.toInt % 1000 := by
    rw [Int64.toInt_mod, hthousand, Int.tmod_eq_emod_of_nonneg hv]
  have hsec : (timevalOf v).tv_sec.toInt = (v.toInt / 1000).bmod (2 ^ 32) := by
    rw [timevalOf, Int32.toInt_toInt64, Int64.toInt_toInt32, hdiv]
  have husec : (timevalOf v).tv_usec.toInt = v.toInt % 1000 * 1000 := by
    rw [timevalOf, Int32.toInt_toInt64, Int64.toInt_toInt32, Int64.toInt_mul, hmod, hthousand,
      Int.bmod_def, Int.bmod_def]
    omega
  have hms : ((timevalOf v).tv_usec / 1000).toInt = v.toInt % 1000 := by
    rw [Int64.toInt_div_of_ne_right _ _ (by decide), hthousand, husec, Int.mul_tdiv_cancel _ (by decide)]
  have hrange : -2 ^ 31 ≤ (v.toInt / 1000).bmod (2 ^ 32) ∧ (v.toInt / 1000).bmod (2 ^ 32) < 2 ^ 31 := by
    rw [Int.bmod_def]
    omega
  obtain ⟨product, hmul⟩ : ∃ x, mulLong (timevalOf v).tv_sec 1000 = some x := by
    apply Option.ne_none_iff_exists'.mp
    rw [mulLong, Ne, long_eq_none_iff, hsec, hthousand]
    omega
  have hproduct := long_eq_some_iff.mp hmul
  rw [hsec, hthousand] at hproduct
  obtain ⟨w, hadd⟩ : ∃ x, addLong product ((timevalOf v).tv_usec / 1000) = some x := by
    apply Option.ne_none_iff_exists'.mp
    rw [addLong, Ne, long_eq_none_iff, hproduct, hms]
    omega
  refine ⟨w, by simp [Timeval.millis, hmul, hadd], ?_⟩
  rw [long_eq_some_iff.mp hadd, hproduct, hms]

/-- A timeout set through a `Socket` is read back as it was given as long as its seconds are an `int`. -/
theorem setTimeout_read_iff {fd : Nat} {s : Sock} (h : s.Managed fd) (type : TimeoutType) {v : Int64} (hv : 1 ≤ v.toInt) :
    (∃ s', s.setsockopt true fd ⟨type, timevalOf v, true⟩ = some s' ∧ s'.getTimeout fd type = v) ↔
      v.toInt < 2147483648000 := by
  have hhi := v.toInt_lt
  obtain ⟨w, hw, hval⟩ := timevalOf_millis (v := v) (by omega)
  obtain ⟨s', hset, hmanaged, htimeout, -⟩ :=
    setsockopt_managed (c := ⟨type, timevalOf v, true⟩) h hw
  have hget : s'.getTimeout fd type = w := by
    obtain ⟨ctx, hctx, -⟩ := hmanaged
    have hat := htimeout type
    simp only [Sock.timeout, hctx, if_true] at hat
    simp only [Sock.getTimeout, get_false, hctx, hat]
    exact Int64.toInt64_toUInt64 w
  have hread : (∃ s', s.setsockopt true fd ⟨type, timevalOf v, true⟩ = some s' ∧ s'.getTimeout fd type = v) ↔ w = v := by
    rw [hset]
    simp [hget]
  rw [hread, ← Int64.toInt_inj, hval, Int.bmod_def]
  omega

/-- **The timeouts of `do_io` and of the kernel** match behind every call of a run, and a refused call
changes nothing, if and only if each call that is accepted is whole and each that is refused has the
milliseconds of the last one accepted; and a timeout set through a `Socket` is read back if and only if
its seconds are an `int`. -/
theorem timeouts_match_iff (fd : Nat) (s : Sock) :
    (s.Fresh fd → s.Agrees fd ∧ ∀ calls : List SetOpt,
      ((∀ pre c post, calls = pre ++ c :: post → s.Keeps fd pre c) ↔
        ∀ pre c post, calls = pre ++ c :: post → c.Meets pre)) ∧
    (s.Managed fd → ∀ v : Int64, 1 ≤ v.toInt →
      ((∃ s', s.setSendTimeout true fd v true = some s' ∧ s'.getSendTimeout fd = v) ↔ v.toInt < 2147483648000) ∧
      ((∃ s', s.setRecvTimeout true fd v true = some s' ∧ s'.getRecvTimeout fd = v) ↔ v.toInt < 2147483648000)) := by
  constructor
  · intro h
    exact ⟨(agrees_iff h.managed).mpr (follows_nil h).agrees, run_keeps_iff h⟩
  · intro h v hv
    exact ⟨setTimeout_read_iff h .SO_SNDTIMEO hv, setTimeout_read_iff h .SO_RCVTIMEO hv⟩

/-- A socket that was just created. -/
def newSock : Sock where
  p := (sockets.get 7 true).2
  kernel := fun _ => ⟨0, 0⟩

theorem newSock_fresh : newSock.Fresh 7 where
  managed := ⟨_, rfl, rfl, rfl, rfl⟩
  timeouts := by
    intro ctx type hctx
    cases hctx
    cases type <;> rfl
  kernel := fun _ => rfl

/-- 2.5 s for receiving, and 1500 ms through `setRecvTimeout`. -/
theorem timeouts_match_newSock :
    newSock.Keeps 7 [] ⟨.SO_RCVTIMEO, ⟨2, 500000⟩, true⟩ ∧
      ∃ s', newSock.setRecvTimeout true 7 1500 true = some s' ∧ s'.getRecvTimeout 7 = 1500 := by
  constructor
  · have hrun := ((timeouts_match_iff 7 newSock).1 newSock_fresh).2 [⟨.SO_RCVTIMEO, ⟨2, 500000⟩, true⟩]
    refine hrun.mpr ?_ [] _ [] rfl
    intro pre c post heq
    have hc : c = ⟨.SO_RCVTIMEO, ⟨2, 500000⟩, true⟩ := by
      have hmem : c ∈ [(⟨.SO_RCVTIMEO, ⟨2, 500000⟩, true⟩ : SetOpt)] := by simp [heq]
      exact List.mem_singleton.mp hmem
    rw [hc]
    exact ⟨by decide, 2500, by decide, by decide, by decide⟩
  · exact (((timeouts_match_iff 7 newSock).2 newSock_fresh.managed 1500 (by decide)).2).mpr (by decide)

/-- An accepted {0, 0} gives `do_io` a timeout of 0, a refused call gives it one that the kernel has not,
and a `setRecvTimeout` of 2^31 s makes the next read negative. -/
theorem timeouts_differ :
    (∃ s', newSock.setsockopt true 7 ⟨.SO_RCVTIMEO, ⟨0, 0⟩, true⟩ = some s' ∧ s'.timeout 7 .SO_RCVTIMEO = 0) ∧
      (∃ s', newSock.setsockopt true 7 ⟨.SO_RCVTIMEO, ⟨0, 2000000⟩, false⟩ = some s' ∧
        s'.timeout 7 .SO_RCVTIMEO = 2000) ∧
      (∃ s', newSock.setRecvTimeout true 7 2147483648000 true = some s' ∧
        s'.getRecvTimeout 7 = -2147483648000) ∧
      ¬ (∀ (s : Sock) pre c, s.Fresh 7 → s.Keeps 7 pre c) ∧
      ¬ (∀ (s : Sock) (v : Int64), s.Managed 7 → 1 ≤ v.toInt →
        ∃ s', s.setRecvTimeout true 7 v true = some s' ∧ s'.getRecvTimeout 7 = v) := by
  refine ⟨⟨_, rfl, by decide⟩, ⟨_, rfl, by decide⟩, ⟨_, rfl, by decide⟩, ?_, ?_⟩
  · intro h
    have hzero := h newSock [] ⟨.SO_RCVTIMEO, ⟨0, 0⟩, true⟩ newSock_fresh
    have hmeets := (keeps_iff rfl (follows_nil newSock_fresh) _).mp hzero
    exact hmeets.1 rfl
  · intro h
    exact absurd ((setTimeout_read_iff newSock_fresh.managed .SO_RCVTIMEO (by decide)).mp
      (h newSock 2147483648000 newSock_fresh.managed (by decide))) (by decide)

end Sylar.Hook
