import Mathlib.Data.List.Basic
import Sylar.IOManager.Runs

/- The assertion of `triggerEvent` when threads interleave.

   The events one `epoll_wait` returns are handled later, one critical section at a
   time, while other threads register and cancel. `Sys` is the registrations
   together with the reports not handled yet; its steps are the critical sections,
   in any order. A critical section works on the context its lookup found, and
   contexts are never freed, so any context ever allocated may be the one.

   `idle` goes on when some reported event is still registered, and then triggers
   every reported one. `trigger_asserts_hold` proves that nothing goes wrong in a
   run where no report is half stale; `dispatch_stale` that a half stale one, once
   the kernel takes the `epoll_ctl`, always fails the assertion. -/
namespace Sylar.IOManager

/-! ## Contexts that agree with themselves -/

/-- In every context the mask and the slots agree. -/
def AllOk (s : State) : Prop := ∀ p, (s.context p).Ok

/-- The call neither fails the assertion of `triggerEvent` nor schedules through a null
scheduler, and what it returns satisfies `Q`. -/
def Safe {α : Type} (Q : α → Prop) : Except Fault α → Prop
  | .ok a => Q a
  | .error f => f ≠ .notRegistered ∧ f ≠ .nullScheduler

section
variable {s : State} {p : Nat} {e : Event}

theorem AllOk.setContext {c : FdContext} (h : AllOk s) (hc : c.Ok) : AllOk (s.setContext p c) := by
  intro q
  show (((s.heap.set p c)[q]?).getD {}).Ok
  by_cases hq : p = q
  · subst hq
    by_cases hp : p < s.heap.length
    · rw [List.getElem?_set_self hp]; exact hc
    · rw [List.getElem?_eq_none (by rw [List.length_set]; omega)]; exact FdContext.Ok.new 0
  · rw [List.getElem?_set_ne hq]; exact h q

theorem lt_of_has (he : Has (s.context p).events e) : p < s.heap.length := by
  by_contra hge
  rw [context_of_ge (by omega)] at he
  exact he.ne_zero rfl

theorem Safe.bind {α β : Type} {Q : α → Prop} {R : β → Prop} {r : Except Fault α}
    {f : α → Except Fault β} (hr : Safe Q r) (hf : ∀ a, Q a → Safe R (f a)) : Safe R (r >>= f) := by
  cases r with
  | ok a => exact hf a hr
  | error fault => exact hr

theorem Safe.mono {α : Type} {Q R : α → Prop} {r : Except Fault α} (hr : Safe Q r)
    (h : ∀ a, Q a → R a) : Safe R r := by
  cases r with
  | ok a => exact h a hr
  | error fault => exact hr

/-- A trigger leaves the other event as it was. -/
def Spared (s : State) (p : Nat) (e : Event) (s' : State) : Prop :=
  AllOk s' ∧ ∀ e', e ≠ e' → Has (s.context p).events e' → Has (s'.context p).events e'

theorem triggerEvent_safe (h : AllOk s) (he : Has (s.context p).events e) :
    Safe (Spared s p e) (triggerEvent p e s) := by
  obtain ⟨scheduler, task, hrun⟩ := triggerEvent_ok (h p) he
  rw [hrun]
  refine ⟨AllOk.setContext (s := s.schedule scheduler task) h ((h p).clear e), ?_⟩
  intro e' hne he'
  have hw : Wrote s ((s.schedule scheduler task).setContext p ((s.context p).clear e)) p
      ((s.context p).clear e) := ⟨rfl, rfl, rfl, rfl⟩
  rw [hw.context_same (lt_of_has he), clear_events, (h p).clean.has_clear]
  exact ⟨he', hne⟩

theorem triggerIf_safe {mask : BitVec 32} (h : AllOk s)
    (hin : Has mask e → Has (s.context p).events e) : Safe (Spared s p e) (triggerIf mask p e s) := by
  unfold triggerIf
  split
  · rename_i hm
    exact (triggerEvent_safe h (hin hm)).bind fun s' h' => h'
  · exact ⟨h, fun e' _ he' => he'⟩

/-- The kernel changes no context. -/
theorem epollCtl_context {op : CtlOp} {fd : Int} {ev : EpollEvent} {fails : Bool} {s' : State}
    (hctl : epollCtl op fd ev fails s = some s') : s'.context = s.context ∧ s'.heap = s.heap := by
  unfold epollCtl at hctl
  split at hctl
  all_goals first
    | (cases hctl; exact ⟨rfl, rfl⟩)
    | cases hctl

theorem allOk_of_context {s' : State} (h : AllOk s) (hctx : s'.context = s.context) : AllOk s' := by
  intro q
  rw [hctx]
  exact h q

end

/-! ## The critical sections -/

section
variable {s : State} {p : Nat} {fd : Int} {e : Event} {fails : Bool}

theorem addLocked_safe (h : AllOk s) {cb : Option Nat} {caller : Caller}
    (hcaller : caller.scheduler ≠ none) :
    Safe (fun x => AllOk x.2) (addLocked p fd e cb caller fails s) := by
  unfold addLocked
  dsimp only
  split
  · exact ⟨by decide, by decide⟩
  · split
    · exact h
    · rename_i s₁ hctl
      split
      · exact ⟨by decide, by decide⟩
      · have h₁ := allOk_of_context h (epollCtl_context hctl).1
        exact AllOk.setContext (s := s₁.incPending) h₁ ((h p).arm (fill_armed hcaller cb))

theorem cancelLocked_safe (h : AllOk s) :
    Safe (fun x => AllOk x.2) (cancelLocked p fd e fails s) := by
  unfold cancelLocked
  dsimp only
  split
  · exact h
  · rename_i he
    split
    · exact h
    · rename_i s₁ hctl
      obtain ⟨hctx, -⟩ := epollCtl_context hctl
      have he₁ : Has (s₁.context p).events e := by rw [hctx]; exact not_not.mp he
      exact (triggerEvent_safe (allOk_of_context h hctx) he₁).bind fun s₂ h₂ => h₂.1

theorem cancelAllLocked_safe (h : AllOk s) :
    Safe (fun x => AllOk x.2) (cancelAllLocked p fd fails s) := by
  unfold cancelAllLocked
  dsimp only
  split
  · exact h
  · split
    · exact h
    · rename_i s₁ hctl
      have h₁ := allOk_of_context h (epollCtl_context hctl).1
      -- each mask is read from the context it is used on
      apply (triggerIf_safe h₁ (e := .READ) id).bind
      intro s₂ h₂
      apply (triggerIf_safe h₂.1 (e := .WRITE) id).bind
      intro s₃ h₃
      split
      · exact ⟨by decide, by decide⟩
      · exact h₃.1

/-- Some reported events are registered and some are not. -/
def HalfStale (mask events : BitVec 32) : Prop :=
  (∃ e, Has (realEvents mask events) e ∧ Has events e) ∧
    ∃ e, Has (realEvents mask events) e ∧ ¬ Has events e

instance (mask events : BitVec 32) : Decidable (HalfStale mask events) :=
  decidable_of_iff
    (((Has (realEvents mask events) .READ ∧ Has events .READ) ∨
        (Has (realEvents mask events) .WRITE ∧ Has events .WRITE)) ∧
      ((Has (realEvents mask events) .READ ∧ ¬ Has events .READ) ∨
        (Has (realEvents mask events) .WRITE ∧ ¬ Has events .WRITE))) (by
    unfold HalfStale
    constructor
    · rintro ⟨h | h, h' | h'⟩ <;> exact ⟨⟨_, h⟩, ⟨_, h'⟩⟩
    · rintro ⟨⟨e, h⟩, ⟨e', h'⟩⟩
      constructor
      · cases e
        · exact Or.inl h
        · exact Or.inr h
      · cases e'
        · exact Or.inl h'
        · exact Or.inr h')

/-- A report shares an event with what is registered. -/
theorem Clean.exists_common {m r : BitVec 32} (hm : Clean m) (hr : Clean r) (h : m &&& r ≠ NONE) :
    ∃ e, Has r e ∧ Has m e := by
  revert h
  rcases hm with rfl | rfl | rfl | rfl <;> rcases hr with rfl | rfl | rfl | rfl <;> intro h
  all_goals first
    | exact absurd (by decide) h
    | exact ⟨.READ, by decide, by decide⟩
    | exact ⟨.WRITE, by decide, by decide⟩

theorem dispatch_safe {mask : BitVec 32} (h : AllOk s)
    (hfresh : fails = true ∨ ¬ HalfStale mask (s.context p).events) :
    Safe AllOk (dispatch p mask fails s) := by
  unfold dispatch
  dsimp only
  split
  · exact h
  · rename_i hsome
    split
    · exact h
    · rename_i s₁ hctl
      obtain ⟨hctx, -⟩ := epollCtl_context hctl
      have hnot : ¬ HalfStale mask (s.context p).events := by
        rcases hfresh with hfails | hnot
        · rw [hfails, epollCtl_refused] at hctl
          cases hctl
        · exact hnot
      -- something reported is registered, so everything reported is
      have hin : ∀ e, Has (realEvents mask (s.context p).events) e → Has (s.context p).events e := by
        intro e he
        by_contra hno
        exact hnot ⟨(h p).clean.exists_common (realEvents_clean _ _) hsome, e, he, hno⟩
      rw [← hctx] at hin ⊢
      apply (triggerIf_safe (allOk_of_context h hctx) (hin .READ)).bind
      intro s₂ h₂
      have hwrite := fun hw => h₂.2 .WRITE (by decide) (hin .WRITE hw)
      exact (triggerIf_safe h₂.1 hwrite).mono fun s₃ h₃ => h₃.1

theorem epollCtl_known (hk : s.kernel fd ≠ none) (left : BitVec 32) (ev : EpollEvent) :
    ∃ r, epollCtl (if left ≠ 0 then .EPOLL_CTL_MOD else .EPOLL_CTL_DEL) fd ev false s =
      some (s.register fd r) := by
  obtain ⟨old, hold⟩ := Option.ne_none_iff_exists'.mp hk
  unfold epollCtl
  rw [hold]
  by_cases hz : left = 0
  · rw [if_neg (not_not_intro hz)]
    exact ⟨none, rfl⟩
  · rw [if_pos hz]
    exact ⟨some ev, rfl⟩

theorem triggerIf_fails {mask : BitVec 32} (hm : Has mask e) (hno : ¬ Has (s.context p).events e) :
    triggerIf mask p e s = .error .notRegistered := by
  unfold triggerIf triggerEvent
  rw [if_pos hm]
  dsimp only
  rw [if_pos hno]
  rfl

/-- A half stale report fails the assertion as soon as the kernel takes the `epoll_ctl`. -/
theorem dispatch_stale {mask : BitVec 32} (hok : (s.context p).Ok)
    (hk : s.kernel (s.context p).fd ≠ none) (hstale : HalfStale mask (s.context p).events) :
    dispatch p mask false s = .error .notRegistered := by
  obtain ⟨⟨e, he, hreg⟩, e', he', hno⟩ := hstale
  have hsome : (s.context p).events &&& realEvents mask (s.context p).events ≠ NONE := by
    intro hz
    apply hreg
    refine and_eq_zero_of_within (k := ~~~realEvents mask (s.context p).events) ?_ ?_
    · rw [BitVec.not_not]; exact hz
    · revert he
      rcases realEvents_clean mask (s.context p).events with hr | hr | hr | hr <;> rw [hr] <;>
        cases e <;> decide
  obtain ⟨r, hr⟩ := epollCtl_known hk
    ((s.context p).events &&& ~~~realEvents mask (s.context p).events)
    { events := EPOLLET ||| ((s.context p).events &&& ~~~realEvents mask (s.context p).events), ptr := p }
  unfold dispatch
  dsimp only
  rw [if_neg hsome, hr]
  dsimp only
  obtain ⟨s₁, hs₁⟩ : ∃ s₁, s₁ = s.register (s.context p).fd r := ⟨_, rfl⟩
  have hctx : s₁.context p = s.context p := by rw [hs₁]; rfl
  rw [← hs₁]
  cases e' with
  | READ =>
    rw [triggerIf_fails he' (by rw [hctx]; exact hno)]
    rfl
  | WRITE =>
    -- READ is the registered one: it is triggered, and WRITE is next
    have hread : e = .READ := by
      cases e with
      | READ => rfl
      | WRITE => exact absurd hreg hno
    subst hread
    rw [← hctx] at hok hreg hno
    obtain ⟨scheduler, task, hrun⟩ := triggerEvent_ok hok hreg
    have hfirst : triggerIf (realEvents mask (s.context p).events) p .READ s₁ =
        .ok ((s₁.schedule scheduler task).setContext p ((s₁.context p).clear .READ)).decPending := by
      unfold triggerIf
      rw [if_pos he, hrun]
      rfl
    have hw : Wrote s₁ ((s₁.schedule scheduler task).setContext p
        ((s₁.context p).clear .READ)).decPending p ((s₁.context p).clear .READ) := ⟨rfl, rfl, rfl, rfl⟩
    rw [hfirst]
    refine triggerIf_fails he' ?_
    rw [hw.context_same (lt_of_has hreg), clear_events, hok.clean.has_clear]
    exact fun h => hno h.1

end

/-! ## Interleavings -/

/-- The registrations and the reports that `epoll_wait` returned and no thread has handled. -/
structure Sys where
  io : State
  reports : List (Nat × BitVec 32)

/-- A critical section, with the context its lookup found, or the return of one
`epoll_wait`. -/
inductive Act where
  | growContexts (fd : Int)
  | addEvent (p : Nat) (fd : Int) (event : Event) (cb : Option Nat) (caller : Caller) (fails : Bool)
  | cancelEvent (p : Nat) (fd : Int) (event : Event) (fails : Bool)
  | cancelAll (p : Nat) (fd : Int) (fails : Bool)
  | wait (reported : List (Nat × BitVec 32))
  | dispatch (p : Nat) (mask : BitVec 32) (fails : Bool)

def Sys.step (σ : Sys) : Act → Except Fault Sys
  | .growContexts fd => do return { σ with io := (← IOManager.growContexts fd σ.io).2 }
  | .addEvent p fd event cb caller fails => do
    return { σ with io := (← addLocked p fd event cb caller fails σ.io).2 }
  | .cancelEvent p fd event fails => do
    return { σ with io := (← cancelLocked p fd event fails σ.io).2 }
  | .cancelAll p fd fails => do return { σ with io := (← cancelAllLocked p fd fails σ.io).2 }
  | .wait reported => .ok { σ with reports := σ.reports ++ reported }
  | .dispatch p mask fails => do
    return { io := ← IOManager.dispatch p mask fails σ.io, reports := σ.reports.erase (p, mask) }

/-- What the kernel and the threads do: `epoll_wait` reports masks within the interest masks,
errors and hang-ups aside, and a thread handles a report it was given. -/
def Act.Allowed (σ : Sys) : Act → Prop
  | .wait reported => ∀ r ∈ reported, ∃ fd ev, σ.io.kernel fd = some ev ∧ ev.ptr = r.1 ∧
      r.2 &&& ~~~(σ.io.interest fd ||| EPOLLERR ||| EPOLLHUP) = 0
  | .dispatch p mask _ => (p, mask) ∈ σ.reports
  | _ => True

/-- The step does not reach the defect: `addEvent` runs on a scheduler's thread, and the
report that is handled is not half stale, or the kernel refuses the `epoll_ctl`. -/
def Act.Meets (σ : Sys) : Act → Prop
  | .addEvent _ _ _ _ caller _ => caller.scheduler ≠ none
  | .dispatch p mask fails => fails = true ∨ ¬ HalfStale mask (σ.io.context p).events
  | _ => True

/-- The states of the interleavings whose steps all meet the condition. -/
inductive Sys.Reached : Sys → Prop where
  | init : Sys.Reached { io := IOManager.init, reports := [] }
  | step {σ σ' : Sys} (act : Act) : Sys.Reached σ → act.Allowed σ → act.Meets σ →
      σ.step act = .ok σ' → Sys.Reached σ'

theorem allOk_contextResize {s : State} (h : AllOk s) (n : Nat) : AllOk (contextResize n s) := by
  intro p
  unfold State.context contextResize
  dsimp only
  by_cases hp : p < s.heap.length
  · rw [List.getElem?_append_left hp]
    exact h p
  · rw [List.getElem?_append_right (by omega), newContexts_getElem?]
    split
    · exact FdContext.Ok.new _
    · exact FdContext.Ok.new 0

theorem growContexts_safe {s : State} (h : AllOk s) (fd : Int) :
    Safe (fun x => AllOk x.2) (growContexts fd s) := by
  unfold growContexts
  split
  · exact ⟨by decide, by decide⟩
  · have hentry : Safe (fun _ => True) (entry fd (contextResize (fd.toNat * 3 / 2) s)) := by
      unfold entry
      split
      · split
        · exact trivial
        · exact ⟨by decide, by decide⟩
      · exact ⟨by decide, by decide⟩
    exact hentry.bind fun p _ => allOk_contextResize h _

theorem step_safe {σ : Sys} (h : AllOk σ.io) {act : Act} (hm : act.Meets σ) :
    Safe (fun σ' => AllOk σ'.io) (σ.step act) := by
  cases act with
  | growContexts fd => exact (growContexts_safe h fd).bind fun _ h' => h'
  | addEvent p fd event cb caller fails => exact (addLocked_safe h hm).bind fun _ h' => h'
  | cancelEvent p fd event fails => exact (cancelLocked_safe h).bind fun _ h' => h'
  | cancelAll p fd fails => exact (cancelAllLocked_safe h).bind fun _ h' => h'
  | wait reported => exact h
  | dispatch p mask fails => exact (dispatch_safe h hm).bind fun _ h' => h'

theorem Sys.Reached.allOk {σ : Sys} (h : σ.Reached) : AllOk σ.io := by
  induction h with
  | init => exact inv_init.ok
  | step act _ _ hm hrun ih =>
    have hs := step_safe ih hm
    rw [hrun] at hs
    exact hs

/-- **The assertion of `triggerEvent` holds** in every interleaving whose steps meet the
condition: no step fails it, and none schedules through a null scheduler. -/
theorem trigger_asserts_hold (σ : Sys) (h : σ.Reached) (act : Act) (hm : act.Meets σ) :
    σ.step act ≠ .error .notRegistered ∧ σ.step act ≠ .error .nullScheduler := by
  have hs := step_safe h.allOk hm
  constructor
  · intro hf
    rw [hf] at hs
    exact hs.1 rfl
  · intro hf
    rw [hf] at hs
    exact hs.2 rfl

/-- READ registered for descriptor 3, reported, and handled at once. -/
theorem trigger_asserts_hold_fresh :
    ∃ σ : Sys, [Act.addEvent 3 3 .READ (some 7) ⟨some 0, 1⟩ false, .wait [(3, 1)]].foldlM Sys.step
        { io := init, reports := [] } = .ok σ ∧
      σ.step (.dispatch 3 1 false) ≠ .error .notRegistered ∧
      σ.step (.dispatch 3 1 false) ≠ .error .nullScheduler := by
  have h₁ := Sys.Reached.init.step (.addEvent 3 3 .READ (some 7) ⟨some 0, 1⟩ false) trivial
    (Option.some_ne_none 0) rfl
  have h₂ := h₁.step (.wait [(3, 1)]) (by
    intro r hr
    obtain rfl := List.mem_singleton.mp hr
    exact ⟨3, _, rfl, rfl, by decide⟩) trivial rfl
  exact ⟨_, rfl, trigger_asserts_hold _ h₂ (.dispatch 3 1 false) (Or.inr (by decide))⟩

/-- READ and WRITE registered for descriptor 3 and reported together; before the report is
handled, another thread cancels WRITE. -/
theorem trigger_assert_fails :
    ∃ σ : Sys, [Act.addEvent 3 3 .READ (some 7) ⟨some 0, 1⟩ false,
        .addEvent 3 3 .WRITE (some 8) ⟨some 0, 1⟩ false].foldlM Sys.step
          { io := init, reports := [] } = .ok σ ∧
      (Act.wait [(3, EPOLLIN ||| EPOLLOUT)]).Allowed σ ∧
      [Act.wait [(3, EPOLLIN ||| EPOLLOUT)], .cancelEvent 3 3 .WRITE false,
        .dispatch 3 (EPOLLIN ||| EPOLLOUT) false].foldlM Sys.step σ = .error .notRegistered := by
  refine ⟨_, rfl, ?_, by rfl⟩
  intro r hr
  obtain rfl := List.mem_singleton.mp hr
  exact ⟨3, _, rfl, rfl, by decide⟩

end Sylar.IOManager
