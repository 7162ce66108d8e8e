import Mathlib.Data.List.Basic
import Sylar.IOManager.Basic
import Sylar.Lib.Slots

/- The four records of a registration kept in step.

   A registered event is recorded in `FdContext.events`, in its `EventContext`, in
   `m_pendingEventCount` and in the kernel. `Core` says that the first three
   agree; `Inv` adds the kernel. `triggerIf_core` and `addLocked_spec` say what one
   trigger and one registration do to `Core`; the operations update the kernel
   first and then trigger, so between the two only `Core` holds. -/
namespace Sylar.IOManager

/-! ## Event masks -/

/-- The mask has no other bits than those of the two events. -/
def Clean (mask : BitVec 32) : Prop :=
  mask = NONE ∨ mask = Event.READ.bit ∨ mask = Event.WRITE.bit ∨
    mask = Event.READ.bit ||| Event.WRITE.bit

theorem Clean.set {m : BitVec 32} (h : Clean m) (e : Event) : Clean (m ||| e.bit) := by
  rcases h with rfl | rfl | rfl | rfl <;> cases e <;> unfold Clean <;> decide

theorem Clean.clear {m : BitVec 32} (h : Clean m) (e : Event) : Clean (m &&& ~~~e.bit) := by
  rcases h with rfl | rfl | rfl | rfl <;> cases e <;> unfold Clean <;> decide

theorem Clean.has_set {m : BitVec 32} (h : Clean m) (e e' : Event) :
    Has (m ||| e.bit) e' ↔ Has m e' ∨ e = e' := by
  rcases h with rfl | rfl | rfl | rfl <;> cases e <;> cases e' <;> decide

theorem Clean.has_clear {m : BitVec 32} (h : Clean m) (e e' : Event) :
    Has (m &&& ~~~e.bit) e' ↔ Has m e' ∧ e ≠ e' := by
  rcases h with rfl | rfl | rfl | rfl <;> cases e <;> cases e' <;> decide

/-- `EPOLLET` is not one of the two events. -/
theorem Clean.strip {m : BitVec 32} (h : Clean m) : (EPOLLET ||| m) &&& ~~~EPOLLET = m := by
  rcases h with rfl | rfl | rfl | rfl <;> decide

theorem realEvents_clean (mask events : BitVec 32) : Clean (realEvents mask events) := by
  unfold realEvents Clean
  split <;> split <;> decide

/-- Clearing the events of a clean mask one after the other clears the mask. -/
theorem Clean.clear_both {r : BitVec 32} (h : Clean r) (m : BitVec 32) :
    (if Has r .WRITE then (if Has r .READ then m &&& ~~~Event.READ.bit else m) &&& ~~~Event.WRITE.bit
      else if Has r .READ then m &&& ~~~Event.READ.bit else m) = m &&& ~~~r := by
  rcases h with rfl | rfl | rfl | rfl
  · rw [if_neg (by decide), if_neg (by decide)]
    exact (BitVec.and_allOnes).symm
  · rw [if_neg (by decide), if_pos (by decide)]
  · rw [if_pos (by decide), if_neg (by decide)]
  · rw [if_pos (by decide), if_pos (by decide), BitVec.and_assoc]
    rfl

/-- A mask within another has no bit the other lacks. -/
theorem and_eq_zero_of_within {m k f : BitVec 32} (h : m &&& ~~~k = 0) (hf : k &&& f = 0) :
    m &&& f = 0 := by
  have hm : m = m &&& k := by
    calc m = m &&& (k ||| ~~~k) := by rw [BitVec.or_not_self, BitVec.and_allOnes]
      _ = (m &&& k) ||| (m &&& ~~~k) := by rw [BitVec.and_or_distrib_left]
      _ = m &&& k := by rw [h]; exact BitVec.or_zero
  rw [hm, BitVec.and_assoc, hf]
  exact BitVec.and_zero

/-! ## One context -/

/-- The slot is filled: a scheduler, and exactly one of a callback and a fiber. -/
def EventContext.Armed (ctx : EventContext) : Prop :=
  ctx.scheduler ≠ none ∧ ((ctx.cb ≠ none ∧ ctx.fiber = none) ∨ (ctx.cb = none ∧ ctx.fiber ≠ none))

/-- The mask and the slots of a context agree. -/
structure FdContext.Ok (c : FdContext) : Prop where
  clean : Clean c.events
  armed : ∀ e, Has c.events e → (c.getEventContext e).Armed
  empty : ∀ e, ¬ Has c.events e → c.getEventContext e = {}

/-- The event cleared if the mask has it. -/
def FdContext.clearIf (c : FdContext) (mask : BitVec 32) (e : Event) : FdContext :=
  if Has mask e then c.clear e else c

/-- The number of events whose bit is set. -/
def FdContext.weight (c : FdContext) : Nat :=
  [Event.READ, Event.WRITE].countP fun e => decide (Has c.events e)

section
variable {c : FdContext} {e e' : Event} {ctx : EventContext}

@[simp] theorem setEventContext_events : (c.setEventContext e ctx).events = c.events := by
  cases e <;> rfl

@[simp] theorem setEventContext_fd : (c.setEventContext e ctx).fd = c.fd := by
  cases e <;> rfl

theorem getEventContext_setEventContext :
    (c.setEventContext e ctx).getEventContext e' = if e = e' then ctx else c.getEventContext e' := by
  cases e <;> cases e' <;> rfl

@[simp] theorem clear_events : (c.clear e).events = c.events &&& ~~~e.bit := setEventContext_events

@[simp] theorem clear_fd : (c.clear e).fd = c.fd := setEventContext_fd

theorem clear_getEventContext :
    (c.clear e).getEventContext e' = if e = e' then {} else c.getEventContext e' := by
  rw [FdContext.clear, FdContext.resetEventContext, getEventContext_setEventContext]
  cases e' <;> rfl

theorem clearIf_events (mask : BitVec 32) :
    (c.clearIf mask e).events = if Has mask e then c.events &&& ~~~e.bit else c.events := by
  unfold FdContext.clearIf
  split
  · exact clear_events
  · rfl

theorem FdContext.Ok.new (fd : Int) : FdContext.Ok { fd := fd } where
  clean := Or.inl rfl
  armed := by
    intro e he
    cases e with
    | READ => exact absurd he (show ¬ Has NONE .READ by decide)
    | WRITE => exact absurd he (show ¬ Has NONE .WRITE by decide)
  empty := by intro e _; cases e <;> rfl

theorem FdContext.Ok.clear (h : c.Ok) (e : Event) : (c.clear e).Ok where
  clean := by rw [clear_events]; exact h.clean.clear e
  armed := by
    intro e' he
    rw [clear_events, h.clean.has_clear] at he
    rw [clear_getEventContext, if_neg he.2]
    exact h.armed e' he.1
  empty := by
    intro e' he
    rw [clear_events, h.clean.has_clear] at he
    rw [clear_getEventContext]
    by_cases hee : e = e'
    · rw [if_pos hee]
    · rw [if_neg hee]
      exact h.empty e' fun hm => he ⟨hm, hee⟩

@[simp] theorem arm_events : (c.arm e ctx).events = c.events ||| e.bit := setEventContext_events

@[simp] theorem arm_fd : (c.arm e ctx).fd = c.fd := setEventContext_fd

theorem arm_getEventContext :
    (c.arm e ctx).getEventContext e' = if e = e' then ctx else c.getEventContext e' := by
  rw [FdContext.arm, getEventContext_setEventContext]
  cases e' <;> rfl

theorem FdContext.Ok.arm (h : c.Ok) (ha : ctx.Armed) : (c.arm e ctx).Ok where
  clean := by rw [arm_events]; exact h.clean.set e
  armed := by
    intro e' he
    rw [arm_events, h.clean.has_set] at he
    rw [arm_getEventContext]
    by_cases hee : e = e'
    · rw [if_pos hee]; exact ha
    · rw [if_neg hee]
      exact h.armed e' (he.resolve_right hee)
  empty := by
    intro e' he
    rw [arm_events, h.clean.has_set, not_or] at he
    rw [arm_getEventContext, if_neg he.2]
    exact h.empty e' he.1

theorem FdContext.Ok.weight_clear (h : c.Ok) (he : Has c.events e) :
    c.weight = (c.clear e).weight + 1 := by
  unfold FdContext.weight
  rw [clear_events]
  revert he
  rcases h.clean with hm | hm | hm | hm <;> rw [hm] <;> cases e <;> decide

theorem FdContext.Ok.weight_arm (h : c.Ok) (he : ¬ Has c.events e) :
    (c.arm e ctx).weight = c.weight + 1 := by
  unfold FdContext.weight
  rw [arm_events]
  revert he
  rcases h.clean with hm | hm | hm | hm <;> rw [hm] <;> cases e <;> decide

theorem fill_armed {caller : Caller} (h : caller.scheduler ≠ none) (cb : Option Nat) :
    (caller.fill cb).Armed := by
  cases cb with
  | some cb => exact ⟨h, Or.inl ⟨Option.some_ne_none cb, rfl⟩⟩
  | none => exact ⟨h, Or.inr ⟨rfl, Option.some_ne_none _⟩⟩

end

theorem weight_le (c : FdContext) : c.weight ≤ 2 :=
  List.countP_le_length

/-! ## The whole table -/

/-- What the kernel keeps for a context at `p` with `events`. -/
def registration (p : Nat) (events : BitVec 32) : Option EpollEvent :=
  if events = 0 then none else some { events := EPOLLET ||| events, ptr := p }

/-- Masks, slots and counter agree, and the table is one context per index. -/
structure Core (s : State) : Prop where
  table : s.fdContexts = List.range s.heap.length
  enough : 32 ≤ s.heap.length
  small : s.heap.length < 2 ^ 31
  fd_eq : ∀ p, p < s.heap.length → (s.context p).fd = p
  ok : ∀ p, (s.context p).Ok
  count : s.pendingEventCount = BitVec.ofNat 64 (s.heap.map FdContext.weight).sum

/-- The kernel agrees too. -/
structure Inv (s : State) : Prop extends Core s where
  kernel_eq : ∀ fd : Int, s.kernel fd =
    if 0 ≤ fd then registration fd.toNat (s.context fd.toNat).events else none

/-- `s'` is `s` with the context `c` at `p` and perhaps another counter and other tasks. -/
structure Wrote (s s' : State) (p : Nat) (c : FdContext) : Prop where
  heap : s'.heap = s.heap.set p c
  table : s'.fdContexts = s.fdContexts
  kernel : s'.kernel = s.kernel
  errors : s'.errors = s.errors

section
variable {s s' : State} {p : Nat} {c : FdContext}

theorem context_of_lt (hp : p < s.heap.length) : s.heap[p]? = some (s.context p) := by
  rw [State.context, List.getElem?_eq_getElem hp]
  rfl

theorem context_of_ge (hp : s.heap.length ≤ p) : s.context p = {} := by
  rw [State.context, List.getElem?_eq_none hp]
  rfl

theorem Wrote.context_same (h : Wrote s s' p c) (hp : p < s.heap.length) : s'.context p = c := by
  rw [State.context, h.heap, List.getElem?_set_self hp]
  rfl

theorem Wrote.context_other (h : Wrote s s' p c) {q : Nat} (hq : q ≠ p) :
    s'.context q = s.context q := by
  rw [State.context, h.heap, List.getElem?_set_ne (Ne.symm hq), State.context]

theorem Wrote.refl (hp : p < s.heap.length) : Wrote s s p (s.context p) := by
  refine ⟨?_, rfl, rfl, rfl⟩
  apply List.ext_getElem?
  intro q
  by_cases hq : p = q
  · subst hq
    rw [List.getElem?_set_self hp, context_of_lt hp]
  · rw [List.getElem?_set_ne hq]

theorem Wrote.trans {s'' : State} {c' : FdContext} (h₁ : Wrote s s' p c) (h₂ : Wrote s' s'' p c') :
    Wrote s s'' p c' := by
  refine ⟨?_, h₂.table.trans h₁.table, h₂.kernel.trans h₁.kernel, h₂.errors.trans h₁.errors⟩
  rw [h₂.heap, h₁.heap, List.set_set]

theorem wrote_incPending (s : State) (p : Nat) (c : FdContext) :
    Wrote s (s.incPending.setContext p c) p c := ⟨rfl, rfl, rfl, rfl⟩

/-- Replacing one context by one that agrees with itself keeps the agreement, if the
counter moves by the difference. -/
theorem Core.replace (h : Core s) (hp : p < s.heap.length) (hw : Wrote s s' p c)
    (hfd : c.fd = p) (hok : c.Ok)
    (hcount : s'.pendingEventCount + BitVec.ofNat 64 (s.context p).weight =
      s.pendingEventCount + BitVec.ofNat 64 c.weight) : Core s' := by
  have hlen : s'.heap.length = s.heap.length := by rw [hw.heap, List.length_set]
  have hsum := Lib.sum_map_set FdContext.weight (context_of_lt hp) c
  refine ⟨?_, by rw [hlen]; exact h.enough, by rw [hlen]; exact h.small, ?_, ?_, ?_⟩
  · rw [hw.table, hlen]; exact h.table
  · intro q hq
    by_cases hqp : q = p
    · subst hqp; rw [hw.context_same hp]; exact hfd
    · rw [hw.context_other hqp]; exact h.fd_eq q (by rw [← hlen]; exact hq)
  · intro q
    by_cases hqp : q = p
    · subst hqp; rw [hw.context_same hp]; exact hok
    · rw [hw.context_other hqp]; exact h.ok q
  · -- both sides plus the old weight are the old count plus the new weight
    rw [h.count, ← BitVec.ofNat_add, ← hsum, ← hw.heap, BitVec.ofNat_add] at hcount
    exact (BitVec.add_left_inj _).mp hcount

end

/-! ## Triggers -/

section
variable {s : State} {p : Nat} {e : Event}

/-- Triggering a registered event schedules its task and clears it. -/
theorem triggerEvent_ok (hok : (s.context p).Ok) (he : Has (s.context p).events e) :
    ∃ scheduler task, triggerEvent p e s =
      .ok ((s.schedule scheduler task).setContext p ((s.context p).clear e)) := by
  obtain ⟨hsched, -⟩ := hok.armed e he
  unfold triggerEvent
  rw [if_neg (not_not_intro he)]
  cases hs : ((s.context p).getEventContext e).scheduler with
  | none => exact absurd hs hsched
  | some scheduler =>
    refine ⟨scheduler, ((s.context p).getEventContext e).task, ?_⟩
    simp only [hs]

/-- A trigger and the decrement behind it. -/
theorem triggerEvent_core (h : Core s) (hp : p < s.heap.length) (he : Has (s.context p).events e) :
    ∃ s', triggerEvent p e s = .ok s' ∧ Core s'.decPending ∧
      Wrote s s'.decPending p ((s.context p).clear e) := by
  obtain ⟨scheduler, task, hrun⟩ := triggerEvent_ok (h.ok p) he
  have hw : Wrote s ((s.schedule scheduler task).setContext p ((s.context p).clear e)).decPending p
      ((s.context p).clear e) := ⟨rfl, rfl, rfl, rfl⟩
  refine ⟨_, hrun, ?_, hw⟩
  apply h.replace hp hw (by rw [clear_fd]; exact h.fd_eq p hp) ((h.ok p).clear e)
  -- the counter goes down by one, and so does the weight
  rw [(h.ok p).weight_clear he, Nat.add_comm, BitVec.ofNat_add, ← BitVec.add_assoc]
  show s.pendingEventCount - 1 + 1 + _ = _
  rw [BitVec.sub_add_cancel]

/-- One guarded trigger of `cancelAll` or `idle`, for an event that is registered. -/
theorem triggerIf_core {mask : BitVec 32} (h : Core s) (hp : p < s.heap.length)
    (hin : Has mask e → Has (s.context p).events e) :
    ∃ s', triggerIf mask p e s = .ok s' ∧ Core s' ∧
      Wrote s s' p ((s.context p).clearIf mask e) := by
  unfold triggerIf FdContext.clearIf
  by_cases hm : Has mask e
  · obtain ⟨s₁, hrun, hcore, hw⟩ := triggerEvent_core h hp (hin hm)
    rw [if_pos hm, if_pos hm, hrun]
    exact ⟨s₁.decPending, rfl, hcore, hw⟩
  · rw [if_neg hm, if_neg hm]
    exact ⟨s, rfl, h, Wrote.refl hp⟩

end

/-! ## The kernel -/

section
variable {s s' : State} {p : Nat}

theorem register_kernel (fd : Int) (r : Option EpollEvent) :
    (s.register fd r).kernel = Function.update s.kernel fd r := rfl

theorem epollCtl_refused (op : CtlOp) (fd : Int) (ev : EpollEvent) :
    epollCtl op fd ev true s = none := by
  cases op <;> rfl

theorem Inv.kernel_at (h : Inv s) (p : Nat) :
    s.kernel p = registration p (s.context p).events := by
  rw [h.kernel_eq, if_pos (Int.natCast_nonneg p), Int.toNat_natCast]

/-- The call that registers one more event. -/
theorem epollCtl_add (h : Inv s) (ev : EpollEvent) :
    epollCtl (if (s.context p).events ≠ 0 then .EPOLL_CTL_MOD else .EPOLL_CTL_ADD) p ev false s =
      some (s.register p (some ev)) := by
  have hk := h.kernel_at p
  unfold registration at hk
  unfold epollCtl
  by_cases hz : (s.context p).events = 0
  · rw [if_pos hz] at hk
    rw [if_neg (not_not_intro hz), hk]
  · rw [if_neg hz] at hk
    rw [if_pos hz, hk]

/-- The call that leaves `left` of the registered events. -/
theorem epollCtl_left (h : Inv s) (hne : (s.context p).events ≠ 0) (left : BitVec 32) :
    epollCtl (if left ≠ 0 then .EPOLL_CTL_MOD else .EPOLL_CTL_DEL) p
        { events := EPOLLET ||| left, ptr := p } false s =
      some (s.register p (registration p left)) := by
  have hk := h.kernel_at p
  unfold registration at hk ⊢
  unfold epollCtl
  rw [if_neg hne] at hk
  by_cases hz : left = 0
  · rw [if_neg (not_not_intro hz), if_pos hz, hk]
  · rw [if_pos hz, if_neg hz, hk]

/-- The contexts catch up with what the kernel was told. -/
theorem Inv.close {c : FdContext} {r : Option EpollEvent} (h : Inv s) (hcore : Core s')
    (hp : p < s.heap.length) (hr : r = registration p c.events) (hw : Wrote (s.register p r) s' p c) :
    Inv s' := by
  subst hr
  refine ⟨hcore, ?_⟩
  intro fd
  rw [hw.kernel, register_kernel]
  by_cases hfd : fd = p
  · subst hfd
    rw [Function.update_self, if_pos (Int.natCast_nonneg p), Int.toNat_natCast, hw.context_same hp]
  · rw [Function.update_of_ne hfd, h.kernel_eq]
    by_cases hpos : 0 ≤ fd
    · rw [if_pos hpos, if_pos hpos, hw.context_other (by omega)]
      rfl
    · rw [if_neg hpos, if_neg hpos]

theorem Core.register (h : Core s) (fd : Int) (r : Option EpollEvent) : Core (s.register fd r) :=
  ⟨h.table, h.enough, h.small, h.fd_eq, h.ok, h.count⟩

theorem Inv.logError (h : Inv s) (op : CtlOp) (fd : Int) (ev : EpollEvent) :
    Inv (s.logError op fd ev) :=
  ⟨⟨h.table, h.enough, h.small, h.fd_eq, h.ok, h.count⟩, h.kernel_eq⟩

end

/-! ## Operations on a context -/

/-- What a call leaves: the invariant, and no change beyond the log when `epoll_ctl`
failed. -/
structure Kept (s s' : State) : Prop where
  inv : Inv s'
  failed : s'.errors ≠ s.errors → ∃ op fd ev, s' = s.logError op fd ev

section
variable {s : State} {p : Nat} {e : Event}

theorem Inv.kept (h : Inv s) : Kept s s := ⟨h, fun hne => absurd rfl hne⟩

theorem Inv.kept_logError (h : Inv s) (op : CtlOp) (fd : Int) (ev : EpollEvent) :
    Kept s (s.logError op fd ev) := ⟨h.logError op fd ev, fun _ => ⟨op, fd, ev, rfl⟩⟩

/-- A call that the kernel took and that brought contexts and kernel back together. -/
theorem Inv.kept_close {s' : State} {c : FdContext} {r : Option EpollEvent} (h : Inv s)
    (hcore : Core s') (hp : p < s.heap.length) (hr : r = registration p c.events)
    (hw : Wrote (s.register p r) s' p c) : Kept s s' :=
  ⟨h.close hcore hp hr hw, fun hne => absurd hw.errors hne⟩

theorem addLocked_spec (h : Inv s) (hp : p < s.heap.length) (hnew : ¬ Has (s.context p).events e)
    (cb : Option Nat) {caller : Caller} (hcaller : caller.scheduler ≠ none) (fails : Bool) :
    ∃ r s', addLocked p p e cb caller fails s = .ok (r, s') ∧ Kept s s' := by
  have hok := h.ok p
  unfold addLocked
  dsimp only
  rw [if_neg hnew]
  cases fails with
  | true =>
    rw [epollCtl_refused]
    exact ⟨_, _, rfl, h.kept_logError _ _ _⟩
  | false =>
    rw [epollCtl_add h]
    simp only [if_neg (not_not_intro (hok.empty e hnew))]
    have hne : (s.context p).events ||| e.bit ≠ 0 := by
      intro hz
      have hset := (hok.clean.has_set e e).mpr (Or.inr rfl)
      rw [hz] at hset
      exact hset BitVec.zero_and
    have hreg : some { events := EPOLLET ||| (s.context p).events ||| e.bit, ptr := p } =
        registration p ((s.context p).arm e (caller.fill cb)).events := by
      rw [registration, arm_events, if_neg hne, BitVec.or_assoc]
    refine ⟨0, _, rfl, h.kept_close ?_ hp hreg ⟨rfl, rfl, rfl, rfl⟩⟩
    apply (h.toCore.register p _).replace hp (wrote_incPending _ p _)
      (by rw [arm_fd]; exact h.fd_eq p hp) (hok.arm (fill_armed hcaller cb))
    rw [hok.weight_arm hnew, Nat.add_comm (s.context p).weight, BitVec.ofNat_add, ← BitVec.add_assoc]
    rfl

theorem Has.ne_zero {m : BitVec 32} (h : Has m e) : m ≠ 0 := by
  rintro rfl
  exact h BitVec.zero_and

/-- A delete that does not get through, because nothing is registered or the kernel
refuses. -/
theorem delLocked_spec (h : Inv s) {fails : Bool} (hnot : fails = true ∨ ¬ Has (s.context p).events e) :
    ∃ r s', delLocked p p e fails s = .ok (r, s') ∧ Kept s s' := by
  unfold delLocked
  dsimp only
  by_cases he : Has (s.context p).events e
  · rw [if_neg (not_not_intro he), hnot.resolve_right (not_not_intro he), epollCtl_refused]
    exact ⟨_, _, rfl, h.kept_logError _ _ _⟩
  · rw [if_pos he]
    exact ⟨_, _, rfl, h.kept⟩

theorem cancelLocked_spec (h : Inv s) (hp : p < s.heap.length) (fails : Bool) :
    ∃ r s', cancelLocked p p e fails s = .ok (r, s') ∧ Kept s s' := by
  unfold cancelLocked
  dsimp only
  by_cases he : Has (s.context p).events e
  · rw [if_neg (not_not_intro he)]
    cases fails with
    | true =>
      rw [epollCtl_refused]
      exact ⟨_, _, rfl, h.kept_logError _ _ _⟩
    | false =>
      rw [epollCtl_left h he.ne_zero]
      obtain ⟨s₁, hrun, hcore, hw⟩ :=
        triggerEvent_core (h.toCore.register p (registration p ((s.context p).events &&& ~~~e.bit))) hp he
      dsimp only
      rw [hrun]
      exact ⟨true, s₁.decPending, rfl, h.kept_close hcore hp (by rw [clear_events]; rfl) hw⟩
  · rw [if_pos he]
    exact ⟨_, _, rfl, h.kept⟩

/-- The two triggers of one dispatch or one `cancelAll`, the second with a mask that may
depend on the first. -/
theorem trigger_both (mask mask' : BitVec 32) (h : Core s) (hp : p < s.heap.length)
    (hr : Has mask .READ → Has (s.context p).events .READ)
    (hw : Has mask' .WRITE → Has (s.context p).events .WRITE) :
    ∃ s₁ s₂, triggerIf mask p .READ s = .ok s₁ ∧ triggerIf mask' p .WRITE s₁ = .ok s₂ ∧
      s₁.context p = (s.context p).clearIf mask .READ ∧ Core s₂ ∧
      Wrote s s₂ p (((s.context p).clearIf mask .READ).clearIf mask' .WRITE) := by
  obtain ⟨s₁, hrun₁, hcore₁, hw₁⟩ := triggerIf_core h hp hr
  have hctx := hw₁.context_same hp
  have hlen : s₁.heap.length = s.heap.length := by rw [hw₁.heap, List.length_set]
  have hw' : Has mask' .WRITE → Has (s₁.context p).events .WRITE := by
    intro hm
    rw [hctx, clearIf_events]
    split
    · rw [(h.ok p).clean.has_clear]
      exact ⟨hw hm, by decide⟩
    · exact hw hm
  obtain ⟨s₂, hrun₂, hcore₂, hw₂⟩ := triggerIf_core hcore₁ (hlen ▸ hp) hw'
  rw [hctx] at hw₂
  exact ⟨s₁, s₂, hrun₁, hrun₂, hctx, hcore₂, hw₁.trans hw₂⟩

theorem dispatch_spec {mask : BitVec 32} (h : Inv s) (hp : p < s.heap.length)
    (hin : ∀ e, Has (realEvents mask (s.context p).events) e → Has (s.context p).events e)
    (fails : Bool) : ∃ s', dispatch p mask fails s = .ok s' ∧ Kept s s' := by
  unfold dispatch
  dsimp only
  rw [h.fd_eq p hp]
  by_cases hnone : (s.context p).events &&& realEvents mask (s.context p).events = NONE
  · rw [if_pos hnone]
    exact ⟨s, rfl, h.kept⟩
  · rw [if_neg hnone]
    cases fails with
    | true =>
      rw [epollCtl_refused]
      exact ⟨_, rfl, h.kept_logError _ _ _⟩
    | false =>
      have hne : (s.context p).events ≠ 0 := by
        intro hz
        rw [hz] at hnone
        exact hnone BitVec.zero_and
      rw [epollCtl_left h hne]
      dsimp only
      -- after both triggers exactly the events the kernel was told to keep are left
      have hcore := h.toCore.register p (registration p
        ((s.context p).events &&& ~~~realEvents mask (s.context p).events))
      obtain ⟨s₁, s₂, hrun₁, hrun₂, -, hcore₂, hw₂⟩ := trigger_both _ _ hcore hp (hin .READ) (hin .WRITE)
      rw [hrun₁]
      refine ⟨s₂, hrun₂, h.kept_close hcore₂ hp ?_ hw₂⟩
      have hboth := (realEvents_clean mask (s.context p).events).clear_both (s.context p).events
      rw [clearIf_events, clearIf_events]
      exact congrArg (registration p) hboth.symm

/-- `cancelAll` leaves nothing registered, so its last assertion holds. -/
theorem cancelAllLocked_spec (h : Inv s) (hp : p < s.heap.length) (fails : Bool) :
    ∃ r s', cancelAllLocked p p fails s = .ok (r, s') ∧ Kept s s' := by
  unfold cancelAllLocked
  dsimp only
  by_cases hz : (s.context p).events = 0
  · rw [if_pos hz]
    exact ⟨_, _, rfl, h.kept⟩
  · rw [if_neg hz]
    cases fails with
    | true =>
      rw [epollCtl_refused]
      exact ⟨_, _, rfl, h.kept_logError _ _ _⟩
    | false =>
      have hk : s.kernel p = some { events := EPOLLET ||| (s.context p).events, ptr := p } := by
        rw [h.kernel_at, registration, if_neg hz]
      have hctl : epollCtl .EPOLL_CTL_DEL p { events := 0, ptr := p } false s =
          some (s.register p none) := by
        unfold epollCtl
        rw [hk]
      rw [hctl]
      dsimp only
      have hclean := (h.ok p).clean
      -- the second mask is what the first trigger left, so it has WRITE exactly as before
      have hsecond : Has ((s.context p).clearIf (s.context p).events .READ).events .WRITE →
          Has (s.context p).events .WRITE := by
        rw [clearIf_events]
        split
        · rw [hclean.has_clear]; exact And.left
        · exact id
      obtain ⟨s₁, s₂, hrun₁, hrun₂, hctx, hcore₂, hw₂⟩ := trigger_both
        (s.context p).events _ (h.toCore.register p none) hp id hsecond
      have hgone : (((s.context p).clearIf (s.context p).events .READ).clearIf
          ((s.context p).clearIf (s.context p).events .READ).events .WRITE).events = 0 := by
        rw [clearIf_events, clearIf_events]
        rcases hclean with hm | hm | hm | hm <;> rw [hm] <;> decide
      have hrun₂' : triggerIf (s₁.context p).events p .WRITE s₁ = .ok s₂ := by
        rw [hctx]; exact hrun₂
      have hlast : (s₂.context p).events = 0 := by
        rw [hw₂.context_same hp]; exact hgone
      refine ⟨true, s₂, ?_, h.kept_close hcore₂ hp (congrArg (registration p) hgone).symm hw₂⟩
      rw [show (s.register p none).context p = s.context p from rfl, hrun₁]
      show (do
        let s ← triggerIf (s₁.context p).events p .WRITE s₁
        if (s.context p).events ≠ 0 then .error .eventsLeft else return (true, s)) = _
      rw [hrun₂']
      show (if (s₂.context p).events ≠ 0 then _ else _) = _
      rw [if_neg (not_not_intro hlast)]
      rfl

end

/-! ## Lookups and growth -/

section
variable {s : State}

theorem toInt_of_lt {n : Nat} (h : n < 2 ^ 31) : toInt n = n := by
  unfold toInt
  rw [BitVec.toInt_eq_toNat_of_lt (by rw [BitVec.toNat_ofNat]; omega), BitVec.toNat_ofNat,
    Nat.mod_eq_of_lt (by omega)]

theorem Core.length_eq (h : Core s) : s.fdContexts.length = s.heap.length := by
  rw [h.table, List.length_range]

theorem Core.entry_eq (h : Core s) {fd : Nat} (hfd : fd < s.heap.length) :
    entry fd s = .ok fd := by
  unfold entry
  rw [if_pos (Int.natCast_nonneg fd), Int.toNat_natCast, h.table, List.getElem?_range hfd]

theorem Core.withContext_eq (h : Core s) (fd : Nat)
    (body : Nat → State → Except Fault (Bool × State)) :
    withContext fd body s = if fd < s.heap.length then body fd s else .ok (false, s) := by
  unfold withContext
  rw [h.length_eq, toInt_of_lt h.small]
  by_cases hfd : fd < s.heap.length
  · rw [if_pos hfd, if_neg (by omega), h.entry_eq hfd]
    rfl
  · rw [if_neg hfd, if_pos (by omega)]

/-- A lookup that returns false or goes on to a body that keeps the invariant. -/
theorem Inv.withContext_kept (h : Inv s) (fd : Nat)
    {body : Nat → State → Except Fault (Bool × State)}
    (hbody : fd < s.heap.length → ∃ r s', body fd s = .ok (r, s') ∧ Kept s s') :
    ∃ r s', withContext fd body s = .ok (r, s') ∧ Kept s s' := by
  rw [h.withContext_eq]
  split
  · rename_i hfd
    exact hbody hfd
  · exact ⟨_, _, rfl, h.kept⟩

theorem newContexts_getElem? (i count j : Nat) :
    (newContexts i count)[j]? = if j < count then some { fd := toInt (i + j) } else none := by
  unfold newContexts
  rw [List.getElem?_map]
  by_cases hj : j < count
  · rw [if_pos hj, List.getElem?_range hj]; rfl
  · rw [if_neg hj, List.getElem?_eq_none (by rw [List.length_range]; omega)]; rfl

@[simp] theorem newContexts_length (i count : Nat) : (newContexts i count).length = count := by
  simp [newContexts]

theorem sum_weight_newContexts (i count : Nat) :
    ((newContexts i count).map FdContext.weight).sum = 0 := by
  rw [List.sum_eq_zero]
  intro w hw
  obtain ⟨c, hc, rfl⟩ := List.mem_map.mp hw
  obtain ⟨j, -, rfl⟩ := List.mem_map.mp hc
  show [Event.READ, Event.WRITE].countP (fun e => decide (Has NONE e)) = 0
  decide

/-- Growth appends empty contexts to a table of one context per index. -/
theorem contextResize_of_table (htable : s.fdContexts = List.range s.heap.length) {n : Nat}
    (hn : s.heap.length ≤ n) :
    contextResize n s = { s with
      heap := s.heap ++ newContexts s.heap.length (n - s.heap.length)
      fdContexts := List.range n } := by
  unfold contextResize
  have hkept : s.fdContexts.take n = List.range s.heap.length := by
    rw [List.take_of_length_le (by rw [htable, List.length_range]; exact hn), htable]
  simp only [hkept, List.length_range]
  have hrange : List.range s.heap.length ++ List.range' s.heap.length (n - s.heap.length) =
      List.range n := by
    rw [List.range_eq_range', List.range_eq_range']
    have happ := @List.range'_append 0 s.heap.length (n - s.heap.length) 1
    rw [Nat.one_mul, Nat.zero_add] at happ
    rw [happ]
    congr 1
    omega
  rw [hrange]

theorem context_of_table (htable : s.fdContexts = List.range s.heap.length) {n : Nat}
    (hn : s.heap.length ≤ n) (p : Nat) :
    (contextResize n s).context p =
      if s.heap.length ≤ p ∧ p < n then { fd := toInt p } else s.context p := by
  rw [contextResize_of_table htable hn]
  unfold State.context
  dsimp only
  by_cases hp : p < s.heap.length
  · rw [List.getElem?_append_left hp, if_neg (by omega)]
  · rw [List.getElem?_append_right (by omega), newContexts_getElem?]
    by_cases hpn : p < n
    · rw [if_pos (by omega), if_pos (by omega), Nat.add_sub_cancel' (by omega)]
      rfl
    · rw [if_neg (by omega), if_neg (by omega), List.getElem?_eq_none (by omega)]

theorem Core.contextResize_eq (h : Core s) {n : Nat} (hn : s.heap.length ≤ n) :
    contextResize n s = { s with
      heap := s.heap ++ newContexts s.heap.length (n - s.heap.length)
      fdContexts := List.range n } :=
  contextResize_of_table h.table hn

theorem Core.context_contextResize (h : Core s) {n : Nat} (hn : s.heap.length ≤ n) (p : Nat) :
    (contextResize n s).context p =
      if s.heap.length ≤ p ∧ p < n then { fd := toInt p } else s.context p :=
  context_of_table h.table hn p

theorem Inv.resized (h : Inv s) {n : Nat} (hn : s.heap.length ≤ n) (hsmall : n < 2 ^ 31) :
    Inv (contextResize n s) := by
  have hlen : (contextResize n s).heap.length = n := by
    rw [h.contextResize_eq hn, List.length_append, newContexts_length]
    omega
  have henough := h.enough
  refine ⟨⟨?_, by omega, by omega, ?_, ?_, ?_⟩, ?_⟩
  · rw [hlen, h.contextResize_eq hn]
  · intro p hp
    rw [h.context_contextResize hn]
    split
    · exact toInt_of_lt (by omega)
    · exact h.fd_eq p (by omega)
  · intro p
    rw [h.context_contextResize hn]
    split
    · exact FdContext.Ok.new _
    · exact h.ok p
  · rw [h.contextResize_eq hn]
    dsimp only
    rw [List.map_append, List.sum_append, sum_weight_newContexts, Nat.add_zero]
    exact h.count
  · intro fd
    rw [h.context_contextResize hn]
    have hk : (contextResize n s).kernel fd = s.kernel fd := by
      rw [h.contextResize_eq hn]
    rw [hk, h.kernel_eq]
    split
    · split
      · rename_i hpos hp
        rw [context_of_ge hp.1]
      · rfl
    · rfl

end

end Sylar.IOManager
