import Mathlib.Data.List.Basic
import Sylar.Hook.DoIo
import Sylar.Hook.Nonblock
import Sylar.IOManager.Frame

/- When the timeout of a hooked call is kept.

   `do_io` arms its timer before it registers its event, and the callback of the timer
   wakes the fiber through that event. A callback that comes in between finds nothing to
   cancel, and with `cancelled` set every later callback returns at once; the fiber then
   parks without a timeout. The other way to lose it is a `cancelEvent` that `epoll_ctl`
   refuses, as after a `close_f` of a descriptor that was registered again behind
   `cancelAll`: the event stays, and the callback is spent.

   `Good` is what holds in every state of a run that takes neither step (`Meets`). -/
namespace Sylar.Hook
open Sylar.IOManager (Event Caller Has toInt State)
open Sylar.Timer (TimerManager)

/-! ## What the others do to a registration -/

/-- The slot of an event that is not registered is empty. -/
def Emptied (s : State) : Prop :=
  ∀ p e, ¬ Has (s.context p).events e → (s.context p).getEventContext e = {}

/-- No event is added, and a slot is emptied with its event. -/
structure Fewer (s s' : State) : Prop where
  table : s'.fdContexts = s.fdContexts
  has : ∀ p e, Has (s'.context p).events e → Has (s.context p).events e
  emptied : Emptied s → Emptied s'

section
variable {s s' s'' : State} {p : Nat} {e : Event}

theorem Fewer.refl (s : State) : Fewer s s := ⟨rfl, fun _ _ h => h, id⟩

theorem Fewer.trans (h : Fewer s s') (h' : Fewer s' s'') : Fewer s s'' :=
  ⟨h'.table.trans h.table, fun p e he => h.has p e (h'.has p e he), h'.emptied ∘ h.emptied⟩

theorem Fewer.contextAt (h : Fewer s s') {fd : Nat} (he : Has (s'.contextAt fd).events e) :
    Has (s.contextAt fd).events e := by
  unfold State.contextAt at *
  rw [h.table] at he
  cases hfd : s.fdContexts[fd]? with
  | none => rw [hfd] at he; exact he
  | some p => rw [hfd] at he; exact h.has p e he

theorem has_of_clear {m k : BitVec 32} (h : Has (m &&& ~~~k) e) : Has m e := by
  intro hz
  apply h
  rw [BitVec.and_assoc, BitVec.and_comm (~~~k), ← BitVec.and_assoc, hz]
  exact BitVec.zero_and

theorem not_has_clear (m : BitVec 32) : ¬ Has (m &&& ~~~e.bit) e := by
  unfold Has
  rw [BitVec.and_assoc, BitVec.and_comm (~~~e.bit), BitVec.and_not_self]
  simp

/-- A trigger clears its event and no other. -/
theorem triggerEvent_fewer (h : IOManager.triggerEvent p e s = .ok s') :
    Fewer s s' ∧ ¬ Has (s'.context p).events e := by
  unfold IOManager.triggerEvent at h
  dsimp only at h
  split at h
  · cases h
  · rename_i he
    split at h
    · cases h
    · rename_i scheduler _
      cases h
      have hw : IOManager.Wrote s ((s.schedule scheduler ((s.context p).getEventContext e).task).setContext p
          ((s.context p).clear e)) p ((s.context p).clear e) := ⟨rfl, rfl, rfl, rfl⟩
      have hlt := IOManager.lt_of_has (not_not.mp he)
      refine ⟨⟨rfl, ?_, ?_⟩, ?_⟩
      · intro q e' he'
        by_cases hq : q = p
        · subst hq
          rw [hw.context_same hlt, IOManager.clear_events] at he'
          exact has_of_clear he'
        · rw [hw.context_other hq] at he'
          exact he'
      · intro hempty q e' he'
        by_cases hq : q = p
        · subst hq
          rw [hw.context_same hlt] at he' ⊢
          rw [IOManager.clear_getEventContext]
          split
          · rfl
          · rename_i hne
            rw [IOManager.clear_events, IOManager.has_clear_of_ne hne] at he'
            exact hempty q e' he'
        · rw [hw.context_other hq] at he' ⊢
          exact hempty q e' he'
      · rw [hw.context_same hlt, IOManager.clear_events]
        exact not_has_clear _

theorem triggerIf_fewer {mask : BitVec 32} (h : IOManager.triggerIf mask p e s = .ok s') : Fewer s s' := by
  unfold IOManager.triggerIf at h
  split at h
  · cases hrun : IOManager.triggerEvent p e s with
    | error f => rw [hrun] at h; cases h
    | ok s₁ =>
      rw [hrun] at h
      cases h
      obtain ⟨hfewer, -⟩ := triggerEvent_fewer hrun
      exact ⟨hfewer.table, hfewer.has, hfewer.emptied⟩
  · cases h
    exact Fewer.refl s

theorem epollCtl_fewer {op : IOManager.CtlOp} {fd : Int} {ev : IOManager.EpollEvent} {fails : Bool}
    (h : IOManager.epollCtl op fd ev fails s = some s') : Fewer s s' := by
  unfold IOManager.epollCtl at h
  split at h
  · cases h; exact ⟨rfl, fun _ _ he => he, id⟩
  · cases h; exact ⟨rfl, fun _ _ he => he, id⟩
  · cases h; exact ⟨rfl, fun _ _ he => he, id⟩
  · cases h

theorem dispatch_fewer {mask : BitVec 32} {fails : Bool} (h : IOManager.dispatch p mask fails s = .ok s') :
    Fewer s s' := by
  unfold IOManager.dispatch at h
  dsimp only at h
  split at h
  · cases h
    exact Fewer.refl s
  · split at h
    · cases h
      exact ⟨rfl, fun _ _ he => he, id⟩
    · rename_i s₁ hctl
      cases hrun : IOManager.triggerIf (IOManager.realEvents mask (s.context p).events) p .READ s₁ with
      | error f => rw [hrun] at h; cases h
      | ok s₂ =>
        rw [hrun] at h
        exact ((epollCtl_fewer hctl).trans (triggerIf_fewer hrun)).trans (triggerIf_fewer h)

/-- The lookup adds nothing either. -/
theorem withContext_fewer {fd : Int} {body : Nat → State → Except IOManager.Fault (Bool × State)} {r : Bool}
    (hbody : ∀ p, body p s = .ok (r, s') → Fewer s s') (h : IOManager.withContext fd body s = .ok (r, s')) :
    Fewer s s' := by
  unfold IOManager.withContext at h
  split at h
  · cases h
    exact Fewer.refl s
  · cases hentry : IOManager.entry fd s with
    | error f => rw [hentry] at h; cases h
    | ok p =>
      rw [hentry] at h
      exact hbody p h

theorem cancelLocked_fewer {fd : Int} {fails : Bool} {r : Bool}
    (h : IOManager.cancelLocked p fd e fails s = .ok (r, s')) : Fewer s s' := by
  unfold IOManager.cancelLocked at h
  dsimp only at h
  split at h
  · cases h
    exact Fewer.refl s
  · split at h
    · cases h
      exact ⟨rfl, fun _ _ he => he, id⟩
    · rename_i s₁ hctl
      cases hrun : IOManager.triggerEvent p e s₁ with
      | error f => rw [hrun] at h; cases h
      | ok s₂ =>
        rw [hrun] at h
        cases h
        obtain ⟨hfewer, -⟩ := triggerEvent_fewer hrun
        have hall := (epollCtl_fewer hctl).trans hfewer
        exact ⟨hall.table, hall.has, hall.emptied⟩

theorem cancelAllLocked_fewer {fd : Int} {fails : Bool} {r : Bool}
    (h : IOManager.cancelAllLocked p fd fails s = .ok (r, s')) : Fewer s s' := by
  unfold IOManager.cancelAllLocked at h
  dsimp only at h
  split at h
  · cases h
    exact Fewer.refl s
  · split at h
    · cases h
      exact ⟨rfl, fun _ _ he => he, id⟩
    · rename_i s₁ hctl
      cases hread : IOManager.triggerIf (s₁.context p).events p .READ s₁ with
      | error f => rw [hread] at h; cases h
      | ok s₂ =>
        rw [hread] at h
        change (do
          let s ← IOManager.triggerIf (s₂.context p).events p .WRITE s₂
          if (s.context p).events ≠ 0 then .error .eventsLeft else return (true, s)) = _ at h
        cases hwrite : IOManager.triggerIf (s₂.context p).events p .WRITE s₂ with
        | error f => rw [hwrite] at h; cases h
        | ok s₃ =>
          rw [hwrite] at h
          change (if (s₃.context p).events ≠ 0 then Except.error IOManager.Fault.eventsLeft
            else Except.ok (true, s₃)) = _ at h
          split at h
          · cases h
          · cases h
            exact ((epollCtl_fewer hctl).trans (triggerIf_fewer hread)).trans (triggerIf_fewer hwrite)

/-- A `cancelEvent` that finds the descriptor and that the kernel takes clears the event. -/
theorem cancelEvent_clears {fd : Nat} {r : Bool} (hin : (fd : Int) < toInt s.fdContexts.length)
    (hk : s.kernel fd ≠ none) (h : IOManager.cancelEvent fd e false s = .ok (r, s')) :
    ¬ Has (s'.contextAt fd).events e := by
  unfold IOManager.cancelEvent IOManager.withContext at h
  rw [if_neg (by omega)] at h
  cases hentry : IOManager.entry fd s with
  | error f => rw [hentry] at h; cases h
  | ok p =>
    have hp : s.fdContexts[fd]? = some p := by
      unfold IOManager.entry at hentry
      rw [if_pos (Int.natCast_nonneg fd), Int.toNat_natCast] at hentry
      cases hget : s.fdContexts[fd]? with
      | none => rw [hget] at hentry; cases hentry
      | some q => rw [hget] at hentry; cases hentry; rfl
    rw [hentry] at h
    replace h : IOManager.cancelLocked p fd e false s = .ok (r, s') := h
    have htable := (cancelLocked_fewer h).table
    have hat : s'.contextAt fd = s'.context p := by
      rw [State.contextAt, htable, hp]
      rfl
    rw [hat]
    unfold IOManager.cancelLocked at h
    dsimp only at h
    split at h
    · rename_i hno
      cases h
      exact hno
    · obtain ⟨reg, hctl⟩ := IOManager.epollCtl_known hk ((s.context p).events &&& ~~~e.bit)
        { events := IOManager.EPOLLET ||| ((s.context p).events &&& ~~~e.bit), ptr := p }
      rw [hctl] at h
      dsimp only at h
      cases hrun : IOManager.triggerEvent p e (s.register fd reg) with
      | error f => rw [hrun] at h; cases h
      | ok s₂ =>
        rw [hrun] at h
        cases h
        exact (triggerEvent_fewer hrun).2

end

/-! ## What the others do to a timer -/

section
variable {s s' : TimerManager} {a : Nat}

/-- A call on another handle leaves a pending timer pending. -/
theorem mem_call_of_ne {b : Nat} {call : Timer.Call} {r : Bool} (h : Timer.Inv s) (hab : a ≠ b)
    (ha : a ∈ s.timers) (hrun : call.run s b = .ok (r, s')) : a ∈ s'.timers := by
  cases call with
  | cancel =>
    rcases Timer.cancel_cases h b with ⟨-, heq⟩ | ⟨-, -, heq⟩ | ⟨-, -, l, heq, -, hiff⟩ <;>
      rw [Timer.Call.run, heq] at hrun <;> cases hrun
    · exact ha
    · exact (hiff a).mpr ⟨ha, hab⟩
  | refresh now =>
    rcases Timer.refresh_cases h b now with ⟨-, heq⟩ | ⟨-, -, heq⟩ <;>
      rw [Timer.Call.run, heq] at hrun <;> cases hrun <;> exact ha
  | reset ms from_now now =>
    rcases Timer.reset_cases h b ms from_now now with ⟨-, heq⟩ | ⟨-, -, heq⟩ | ⟨-, -, hb, heq⟩ <;>
      rw [Timer.Call.run, heq] at hrun <;> cases hrun
    · exact ha
    · exact ha
    · exact Timer.mem_addLocked.mpr (Or.inr ha)

theorem heap_call {b : Nat} {call : Timer.Call} {r : Bool} (h : Timer.Inv s) (ha : (s.heap a).isSome)
    (hrun : call.run s b = .ok (r, s')) : (s'.heap a).isSome := by
  rcases Timer.call_cases h hrun with rfl | ⟨-, l, rfl, -⟩ | ⟨-, t, rfl | rfl⟩
  · exact ha
  · exact ha
  · exact Timer.isSome_put t ha
  · exact Timer.isSome_put t ha

end

/-! ## The law and its condition -/

/-- The event of the call is registered. -/
def Registered (c : Call) (s : Sys) : Prop := Has (s.io.contextAt c.fd).events c.event

/-- While the fiber is parked with its event registered, its timer is pending, or its callback has not
yet begun, or a callback of this call has still to perform its `cancelEvent`. -/
def TimeoutKept (c : Call) (s : Sys) : Prop :=
  ∀ timer, s.pc = .parked timer → Registered c s → ∃ a, timer = some a ∧
    (a ∈ s.timers.timers ∨ a ∈ s.queued ∨ ∃ b, b ∈ s.passed ∨ b ∈ s.cancelling)

/-- The event is not registered behind a callback that has already stored `ETIMEDOUT` and called
`cancelEvent`; and the `cancelEvent` of a callback, when the event is registered, finds the
descriptor in the table and is taken by the kernel. -/
def Call.Meets (c : Call) (s : Sys) : Act → Prop
  | .addEvent _ _ => s.cancelled = 0 ∨ s.passed ≠ [] ∨ s.cancelling ≠ []
  | .callbackCancel _ fails => Registered c s →
      fails = false ∧ s.io.kernel c.fd ≠ none ∧ (c.fd : Int) < toInt s.io.fdContexts.length
  | _ => True

/-- A callback that will reach `cancelEvent` is on its way, or can still get there. -/
def Alive (s : Sys) (a : Nat) : Prop :=
  (s.cancelled = 0 ∧ (a ∈ s.timers.timers ∨ a ∈ s.queued)) ∨ s.passed ≠ [] ∨ s.cancelling ≠ []

structure Good (c : Call) (s : Sys) : Prop where
  timers : Timer.Inv s.timers
  finite : s.timeout ≠ noTimeout
  exist : ∀ a ∈ s.armed, (s.timers.heap a).isSome
  stored : s.cancelling ≠ [] → s.cancelled ≠ 0
  waiting : ∀ timer, s.pc = .addEvent timer →
    ∃ a ∈ s.armed, timer = some a ∧ (s.cancelled ≠ 0 ∨ Alive s a)
  registered : ∀ timer, s.pc = .yield timer ∨ s.pc = .parked timer →
    ∃ a ∈ s.armed, timer = some a ∧ (Registered c s → Alive s a)

theorem Good.timeoutKept {c : Call} {s : Sys} (h : Good c s) : TimeoutKept c s := by
  intro timer hpc hreg
  obtain ⟨a, -, rfl, halive⟩ := h.registered timer (Or.inr hpc)
  refine ⟨a, rfl, ?_⟩
  rcases halive hreg with ⟨-, hmem | hmem⟩ | hne | hne
  · exact Or.inl hmem
  · exact Or.inr (Or.inl hmem)
  · obtain ⟨b, hb⟩ := List.exists_mem_of_ne_nil _ hne
    exact Or.inr (Or.inr ⟨b, Or.inl hb⟩)
  · obtain ⟨b, hb⟩ := List.exists_mem_of_ne_nil _ hne
    exact Or.inr (Or.inr ⟨b, Or.inr hb⟩)

/-! ## One step -/

section
variable {c : Call} {s s' : Sys}

/-- A step of the fiber to a place where it waits for nothing. -/
theorem Good.of_move (h : Good c s) (htimers : Timer.Inv s'.timers)
    (hexist : ∀ a ∈ s'.armed, (s'.timers.heap a).isSome) (hto : s'.timeout = s.timeout)
    (hstored : s'.cancelling ≠ [] → s'.cancelled ≠ 0) (hadd : ∀ timer, s'.pc ≠ .addEvent timer)
    (hyield : ∀ timer, s'.pc ≠ .yield timer) (hpark : ∀ timer, s'.pc ≠ .parked timer) : Good c s' := by
  refine ⟨htimers, by rw [hto]; exact h.finite, hexist, hstored, ?_, ?_⟩
  · intro timer hpc
    exact absurd hpc (hadd timer)
  · rintro timer (hpc | hpc)
    · exact absurd hpc (hyield timer)
    · exact absurd hpc (hpark timer)

/-- A step of the others, from what it does to the timers, the event and the callbacks. -/
theorem Good.of_others (h : Good c s) (hpc : s'.pc = s.pc) (hto : s'.timeout = s.timeout)
    (harmed : s'.armed = s.armed) (htimers : Timer.Inv s'.timers)
    (hexist : ∀ a ∈ s'.armed, (s'.timers.heap a).isSome)
    (hstored : s'.cancelling ≠ [] → s'.cancelled ≠ 0)
    (hwaiting : ∀ a ∈ s.armed, s.cancelled ≠ 0 ∨ Alive s a → s'.cancelled ≠ 0 ∨ Alive s' a)
    (halive : ∀ a ∈ s.armed, Registered c s' → Registered c s ∧ (Alive s a → Alive s' a)) : Good c s' := by
  refine ⟨htimers, by rw [hto]; exact h.finite, hexist, hstored, ?_, ?_⟩
  · intro timer hpc'
    rw [hpc] at hpc'
    obtain ⟨a, ha, htimer, hw⟩ := h.waiting timer hpc'
    exact ⟨a, harmed ▸ ha, htimer, hwaiting a ha hw⟩
  · intro timer hpc'
    rw [hpc] at hpc'
    obtain ⟨a, ha, htimer, hr⟩ := h.registered timer hpc'
    refine ⟨a, harmed ▸ ha, htimer, ?_⟩
    intro hreg
    obtain ⟨hold, hkeep⟩ := halive a ha hreg
    exact hkeep (hr hold)

/-- A step that changes nothing but the registrations, and adds none. -/
theorem Good.of_fewer (h : Good c s) {io : State} (hio : Fewer s.io io) : Good c { s with io := io } :=
  h.of_others rfl rfl rfl h.timers h.exist h.stored (fun _ _ hw => hw)
    (fun _ _ hreg => ⟨hio.contextAt hreg, fun ha => ha⟩)

/-- A step that changes nothing but the timers, and leaves those of this call as they are. -/
theorem Good.of_timers (h : Good c s) {timers : TimerManager} (hinv : Timer.Inv timers)
    (hexist : ∀ a ∈ s.armed, (timers.heap a).isSome)
    (hmem : ∀ a ∈ s.armed, a ∈ s.timers.timers → a ∈ timers.timers) : Good c { s with timers := timers } := by
  have hkeep : ∀ a ∈ s.armed, Alive s a → Alive { s with timers := timers } a := by
    rintro a ha (⟨hzero, hm | hm⟩ | hrest)
    · exact Or.inl ⟨hzero, Or.inl (hmem a ha hm)⟩
    · exact Or.inl ⟨hzero, Or.inr hm⟩
    · exact Or.inr hrest
  exact h.of_others rfl rfl rfl hinv hexist h.stored (fun a ha hw => hw.imp_right (hkeep a ha))
    (fun a ha hreg => ⟨hreg, hkeep a ha⟩)

theorem Good.arm (h : Good c s) {a : Nat} {now : UInt64} (hstep : c.step s (.arm a now) = some s') :
    Good c s' := by
  obtain ⟨-, ⟨-, hfree, rfl⟩ | ⟨hto, -⟩⟩ := step_arm hstep
  · refine ⟨h.timers.addTimer _ _ _ _, h.finite, ?_, h.stored, ?_, ?_⟩
    · intro b hb
      rcases List.mem_cons.mp hb with rfl | hb
      · exact Timer.put_heap _ _ _
      · exact Timer.isSome_put _ (h.exist b hb)
    · intro timer hpc
      cases hpc
      refine ⟨a, List.mem_cons_self, rfl, ?_⟩
      by_cases hzero : s.cancelled = 0
      · exact Or.inr (Or.inl ⟨hzero, Or.inl (Timer.mem_addLocked.mpr (Or.inl rfl))⟩)
      · exact Or.inl hzero
    · rintro timer (hpc | hpc) <;> cases hpc
  · exact absurd hto h.finite

theorem Good.addEvent (h : Good c s) {fails : Bool} {error : CtlError}
    (hmeets : c.Meets s (.addEvent fails error)) (hstep : c.step s (.addEvent fails error) = some s') :
    Good c s' := by
  obtain ⟨timer, hpc, io, rfl | rfl⟩ := step_addEvent hstep
  · exact h.of_move h.timers h.exist rfl h.stored (by simp) (by simp) (by simp)
  · obtain ⟨a, ha, htimer, hw⟩ := h.waiting timer hpc
    -- no callback has come and gone, so one can still come
    have halive : Alive s a := by
      rcases hw with hcancelled | halive
      · exact Or.inr (hmeets.resolve_left hcancelled)
      · exact halive
    refine ⟨h.timers, h.finite, h.exist, h.stored, ?_, ?_⟩
    · intro timer' hpc'
      cases hpc'
    · rintro timer' (hpc' | hpc') <;> cases hpc'
      exact ⟨a, ha, htimer, fun _ => halive⟩

theorem Good.yield (h : Good c s) (hstep : c.step s .yield = some s') : Good c s' := by
  obtain ⟨timer, hpc, rfl⟩ := step_yield hstep
  refine ⟨h.timers, h.finite, h.exist, h.stored, ?_, ?_⟩
  · intro timer' hpc'
    cases hpc'
  · rintro timer' (hpc' | hpc') <;> cases hpc'
    exact h.registered timer (Or.inl hpc)

theorem Good.cancelTimer (h : Good c s) (hstep : c.step s .cancelTimer = some s') : Good c s' := by
  obtain ⟨timer, timers, hcancel, hrest⟩ := step_cancelTimer hstep
  have hkeep : Timer.Inv timers ∧ ∀ a ∈ s.armed, (timers.heap a).isSome := by
    unfold Sys.cancelTimer at hcancel
    split at hcancel
    · cases hcancel
      exact ⟨h.timers, h.exist⟩
    · rename_i b
      split at hcancel
      · rename_i r timers' hrun
        cases hcancel
        have hcall : Timer.Call.cancel.run s.timers b = .ok (r, timers) := hrun
        exact ⟨h.timers.call hcall, fun a ha => heap_call h.timers (h.exist a ha) hcall⟩
      · cases hcancel
  rcases hrest with ⟨-, rfl⟩ | ⟨errno, -, rfl⟩ <;>
    exact h.of_move hkeep.1 hkeep.2 rfl h.stored (by simp) (by simp) (by simp)

theorem Good.expire (h : Good c s) {now : UInt64} {tmp : Nat}
    (hstep : c.step s (.expire now tmp) = some s') : Good c s' := by
  obtain rfl := step_expire hstep
  have hkeep : ∀ a ∈ s.armed, Alive s a → Alive { s with
      timers := (s.timers.listExpiredCb now tmp).2
      queued := s.queued ++ (s.timers.expired now tmp).filter (· ∈ s.armed) } a := by
    rintro a ha (⟨hzero, hm | hm⟩ | hrest)
    · left
      refine ⟨hzero, ?_⟩
      rcases Timer.mem_expired_or_listExpiredCb tmp hm with hexp | hpend
      · right
        exact List.mem_append_right _ (List.mem_filter.mpr ⟨hexp, by simpa using ha⟩)
      · exact Or.inl hpend
    · exact Or.inl ⟨hzero, Or.inr (List.mem_append_left _ hm)⟩
    · exact Or.inr hrest
  exact h.of_others rfl rfl rfl (h.timers.listExpiredCb now tmp)
    (fun a ha => Timer.listExpiredCb_heap tmp (h.exist a ha)) h.stored
    (fun a ha hw => hw.imp_right (hkeep a ha)) (fun a ha hreg => ⟨hreg, hkeep a ha⟩)

theorem Good.callbackTest (h : Good c s) {a : Nat} (hstep : c.step s (.callbackTest a) = some s') :
    Good c s' := by
  rcases step_callbackTest hstep with ⟨hgone, rfl⟩ | ⟨-, rfl⟩
  · by_cases hdone : s.pc.isDone = true
    · refine h.of_move h.timers h.exist rfl h.stored ?_ ?_ ?_ <;>
        (intro timer hpc; rw [show s.pc = _ from hpc] at hdone; cases hdone)
    · -- `cancelled` is set, so this callback was not the one to count on
      have hcancelled := hgone.resolve_left hdone
      refine h.of_others rfl rfl rfl h.timers h.exist h.stored (fun _ _ _ => Or.inl hcancelled) ?_
      intro b _ hreg
      refine ⟨hreg, ?_⟩
      rintro (⟨hzero, -⟩ | hrest)
      · exact absurd hzero hcancelled
      · exact Or.inr hrest
  · have hpassed : ∀ b, Alive { s with queued := s.queued.erase a, passed := a :: s.passed } b :=
      fun b => Or.inr (Or.inl (List.cons_ne_nil _ _))
    exact h.of_others rfl rfl rfl h.timers h.exist h.stored (fun b _ _ => Or.inr (hpassed b))
      (fun b _ hreg => ⟨hreg, fun _ => hpassed b⟩)

theorem Good.callbackStore (h : Good c s) {a : Nat} (hstep : c.step s (.callbackStore a) = some s') :
    Good c s' := by
  obtain rfl := step_callbackStore hstep
  have hset : ETIMEDOUT ≠ 0 := by decide
  refine h.of_others rfl rfl rfl h.timers h.exist (fun _ => hset) (fun b _ _ => Or.inl hset) ?_
  intro b _ hreg
  exact ⟨hreg, fun _ => Or.inr (Or.inr (List.cons_ne_nil _ _))⟩

theorem Good.callbackCancel (h : Good c s) {a : Nat} {fails : Bool}
    (hmeets : c.Meets s (.callbackCancel a fails)) (hstep : c.step s (.callbackCancel a fails) = some s') :
    Good c s' := by
  obtain ⟨hin, r, io, hrun, rfl⟩ := step_callbackCancel hstep
  have hcancelled := h.stored (List.ne_nil_of_mem hin)
  refine h.of_others rfl rfl rfl h.timers h.exist (fun _ => hcancelled) (fun _ _ _ => Or.inl hcancelled) ?_
  intro b _ hreg
  -- a callback that finds the event registered has cleared it
  have hfewer : Fewer s.io io := withContext_fewer (fun p hp => cancelLocked_fewer hp) hrun
  have hbefore : Registered c s := hfewer.contextAt hreg
  obtain ⟨rfl, hk, hlt⟩ := hmeets hbefore
  exact absurd hreg (cancelEvent_clears hlt hk hrun)

theorem Good.other (h : Good c s) {op : Timer.Op} (hallow : (Act.other op).Allowed s)
    (hstep : c.step s (.other op) = some s') : Good c s' := by
  obtain ⟨timers, hrun, rfl⟩ := step_other hstep
  cases op with
  | addTimer b ms cb recurring now =>
    cases hrun
    exact h.of_timers (h.timers.addTimer ms cb recurring now)
      (fun a ha => Timer.isSome_put _ (h.exist a ha)) (fun a _ hm => Timer.mem_addLocked.mpr (Or.inr hm))
  | call b call =>
    obtain ⟨r, hcall⟩ := Timer.step_call hrun
    refine h.of_timers (h.timers.call hcall) (fun a ha => heap_call h.timers (h.exist a ha) hcall) ?_
    intro a ha hm
    have hab : a ≠ b := fun heq => hallow.1 (heq ▸ ha)
    exact mem_call_of_ne h.timers hab hm hcall
  | getNextTimer now =>
    cases hrun
    rw [Timer.getNextTimer_snd]
    exact h.of_timers ⟨h.timers.sorted, h.timers.exists_of_mem⟩ h.exist (fun _ _ hm => hm)
  | listExpiredCb now tmp => exact absurd hallow id
  | release b =>
    cases hrun
    refine h.of_timers (h.timers.release hallow.2) ?_ (fun _ _ hm => hm)
    intro a ha
    have hab : a ≠ b := fun heq => hallow.1 (heq ▸ ha)
    simp only [TimerManager.release, Function.update_of_ne hab]
    exact h.exist a ha

theorem Good.step (h : Good c s) {act : Act} (hallow : act.Allowed s) (hmeets : c.Meets s act)
    (hstep : c.step s act = some s') : Good c s' := by
  cases act with
  | sysCall r =>
    rcases step_sysCall hstep with ⟨-, rfl⟩ | ⟨-, rfl | rfl | ⟨-, rfl⟩⟩
    · exact h.of_move h.timers h.exist rfl h.stored (by simp) (by simp) (by simp)
    · exact h
    · exact h.of_move h.timers h.exist rfl h.stored (by simp) (by simp) (by simp)
    · exact h.of_move h.timers h.exist rfl h.stored (by simp) (by simp) (by simp)
  | arm a now => exact h.arm hstep
  | addEvent fails error => exact h.addEvent hmeets hstep
  | yield => exact h.yield hstep
  | resume =>
    obtain ⟨timer, -, rfl⟩ := step_resume hstep
    exact h.of_move h.timers h.exist rfl h.stored (by simp) (by simp) (by simp)
  | cancelTimer => exact h.cancelTimer hstep
  | test =>
    obtain ⟨-, ⟨-, rfl⟩ | ⟨-, rfl⟩⟩ := step_test hstep <;>
      exact h.of_move h.timers h.exist rfl h.stored (by simp) (by simp) (by simp)
  | expire now tmp => exact h.expire hstep
  | callbackTest a => exact h.callbackTest hstep
  | callbackStore a => exact h.callbackStore hstep
  | callbackCancel a fails => exact h.callbackCancel hmeets hstep
  | dispatch p mask fails =>
    obtain ⟨io, hrun, rfl⟩ := step_dispatch hstep
    exact h.of_fewer (dispatch_fewer hrun)
  | cancelAll fails =>
    obtain ⟨r, io, hrun, rfl⟩ := step_cancelAll hstep
    exact h.of_fewer (withContext_fewer (fun p hp => cancelAllLocked_fewer hp) hrun)
  | closeF =>
    obtain rfl := step_closeF hstep
    exact h.of_fewer ⟨rfl, fun _ _ he => he, id⟩
  | other op => exact h.other hallow hstep

end

/-! ## Every run -/

theorem good_start (c : Call) (p : Process) (io : State) {timers : TimerManager} (h : Timer.Visited timers)
    (hfinite : (c.enter p).2 ≠ noTimeout) : Good c (c.start p io timers) := by
  have hpc : ∀ pc, (c.start p io timers).pc = pc → pc = (c.enter p).1 := fun pc hpc => hpc.symm
  have hentry : (c.enter p).1 = .direct ∨ (c.enter p).1 = .done (.error EBADF) ∨ (c.enter p).1 = .retry := by
    unfold Call.enter
    split
    · exact Or.inl rfl
    · split
      · exact Or.inl rfl
      · split
        · exact Or.inr (Or.inl rfl)
        · split
          · exact Or.inl rfl
          · exact Or.inr (Or.inr rfl)
  refine ⟨h.inv, hfinite, fun a ha => absurd ha List.not_mem_nil, fun hne => absurd rfl hne, ?_, ?_⟩
  · intro timer htimer
    have heq := hpc _ htimer
    rcases hentry with h' | h' | h' <;> rw [h'] at heq <;> cases heq
  · rintro timer (htimer | htimer) <;>
    · have heq := hpc _ htimer
      rcases hentry with h' | h' | h' <;> rw [h'] at heq <;> cases heq

/-- **A hooked timeout is kept**: in every run of a call with a finite timeout, from any registrations
and timers, whose steps meet the condition, no state has the fiber parked on its event with the
timeout spent. -/
theorem timeout_kept (c : Call) (p : Process) (io : State) (timers : TimerManager)
    (htimers : Timer.Visited timers) (hfinite : (c.enter p).2 ≠ noTimeout) (s : Sys)
    (hrun : c.Reached c.Meets (c.start p io timers) s) : TimeoutKept c s := by
  have hgood : Good c s := by
    induction hrun with
    | start => exact good_start c p io htimers hfinite
    | step act _ hallow hmeets hstep ih => exact ih.step hallow hmeets hstep
  exact hgood.timeoutKept

/-! ## Runs on one socket -/

/-- A socket with a receive timeout of 10 ms. -/
def timedSocket : Process :=
  (sockets.get 7 true).2.put 7 ((sockets.get 7 true).1.map (·.setTimeout .SO_RCVTIMEO 10))

/-- `read` on it. -/
def timedRead : Call where
  hook_enable := true
  iom := true
  fd := 7
  event := .READ
  timeout_so := .SO_RCVTIMEO
  caller := { scheduler := some 1, fiber := 1 }

def timedStart : Sys := timedRead.start timedSocket IOManager.init (Timer.new 100)

/-- The state some steps lead to. -/
def Call.run (c : Call) : List Act → Sys → Option Sys
  | [], s => some s
  | act :: rest, s => (c.step s act).bind (c.run rest)

theorem reached_run {c : Call} {s₀ : Sys} : ∀ (acts : List Act) {s s' : Sys},
    (∀ act ∈ acts, ∀ s, act.Allowed s) → c.Reached (fun _ _ => True) s₀ s → c.run acts s = some s' →
    c.Reached (fun _ _ => True) s₀ s' := by
  intro acts
  induction acts with
  | nil =>
    intro s s' _ hs hrun
    cases hrun
    exact hs
  | cons act rest ih =>
    intro s s' hallow hs hrun
    obtain ⟨s₁, hstep, hrest⟩ := Option.bind_eq_some_iff.mp hrun
    exact ih (fun act' hmem => hallow act' (List.mem_cons_of_mem act hmem))
      (hs.step act (hallow act List.mem_cons_self s) trivial hstep) hrest

/-- Parked on its event, with no timer and no callback left. -/
def Sys.stranded (c : Call) (s : Sys) : Bool :=
  (match s.pc with | .parked _ => true | _ => false) && decide (Has (s.io.contextAt c.fd).events c.event) &&
    s.timers.timers.isEmpty && s.queued.isEmpty && s.passed.isEmpty && s.cancelling.isEmpty

theorem stranded_not_kept {c : Call} {s : Sys} (h : s.stranded c = true) : ¬ TimeoutKept c s := by
  simp only [Sys.stranded, Bool.and_eq_true, List.isEmpty_iff, decide_eq_true_eq] at h
  obtain ⟨⟨⟨⟨⟨hpc, hreg⟩, htimers⟩, hqueued⟩, hpassed⟩, hcancelling⟩ := h
  intro hkept
  split at hpc
  · rename_i timer hparked
    obtain ⟨a, -, hrest⟩ := hkept timer hparked hreg
    rw [htimers, hqueued, hpassed, hcancelling] at hrest
    simp at hrest
  · cases hpc

theorem lost_of_run {c : Call} {s₀ : Sys} {acts : List Act} (hallow : ∀ act ∈ acts, ∀ s, act.Allowed s)
    (h : (c.run acts s₀).any (Sys.stranded c) = true) :
    ∃ s, c.run acts s₀ = some s ∧ c.Reached (fun _ _ => True) s₀ s ∧ ¬ TimeoutKept c s := by
  cases hrun : c.run acts s₀ with
  | none => rw [hrun] at h; cases h
  | some s =>
    rw [hrun] at h
    exact ⟨s, rfl, reached_run acts hallow .start hrun, stranded_not_kept h⟩

/-- The callback comes between the arming of the timer and `addEvent`. -/
def earlyCallback : List Act :=
  [.sysCall (.error EAGAIN), .arm 16 100, .expire 110 32, .callbackTest 16, .callbackStore 16,
    .callbackCancel 16 false, .addEvent false .EEXIST, .yield]

/-- `close` wakes the fiber, which registers again before the descriptor is closed. -/
def lateClose : List Act :=
  [.sysCall (.error EAGAIN), .arm 16 100, .addEvent false .EEXIST, .yield, .cancelAll false, .resume,
    .cancelTimer, .test, .sysCall (.error EAGAIN), .arm 48 102, .addEvent false .EEXIST, .yield, .closeF,
    .expire 112 64, .callbackTest 48, .callbackStore 48, .callbackCancel 48 false]

/-- In both runs the fiber is left parked with its timeout spent. -/
theorem timeout_lost :
    (∃ s, timedRead.run earlyCallback timedStart = some s ∧
      timedRead.Reached (fun _ _ => True) timedStart s ∧ ¬ TimeoutKept timedRead s) ∧
    ∃ s, timedRead.run lateClose timedStart = some s ∧
      timedRead.Reached (fun _ _ => True) timedStart s ∧ ¬ TimeoutKept timedRead s :=
  ⟨lost_of_run (by simp [earlyCallback, Act.Allowed]) (by decide +kernel),
    lost_of_run (by simp [lateClose, Act.Allowed]) (by decide +kernel)⟩

/-- The fiber parks before its timer expires. -/
theorem timeout_kept_parked :
    ∃ s, timedRead.Reached timedRead.Meets timedStart s ∧ s.pc = .parked (some 16) ∧
      s.timers.timers = [16] ∧ TimeoutKept timedRead s := by
  have hrun : ∃ s, timedRead.Reached timedRead.Meets timedStart s ∧ s.pc = .parked (some 16) ∧
      s.timers.timers = [16] := by
    refine ⟨_, (((Call.Reached.start.step (.sysCall (.error EAGAIN)) trivial trivial rfl).step
      (.arm 16 100) trivial trivial rfl).step (.addEvent false .EEXIST) trivial (Or.inl rfl) rfl).step .yield
      trivial trivial rfl, ?_, ?_⟩
    · rfl
    · rfl
  obtain ⟨s, hs, hpc, htimers⟩ := hrun
  exact ⟨s, hs, hpc, htimers, timeout_kept timedRead timedSocket IOManager.init (Timer.new 100)
    ⟨100, .refl⟩ (by decide +kernel) s hs⟩

end Sylar.Hook
