import Mathlib.Data.List.Basic
import Mathlib.Algebra.Order.BigOperators.Group.List
import Mathlib.Algebra.Order.Ring.Nat
import Sylar.IOManager.Coupling

/- Runs of the registration operations.

   `Coupled` is what every state of a run should satisfy: the counter is the number
   of registered (descriptor, event) pairs, a bit is set exactly when its slot is
   filled, and the kernel's mask is the context's. `registrations_coupled` proves it
   of every run in which no `delEvent` gets through and no `addEvent` makes the
   table longer than an `int` counts; `delEvent_uncouples` says that a `delEvent`
   that gets through always breaks it: it resets the slot and tells the kernel, and
   keeps the bit. -/
namespace Sylar.IOManager

/-! ## What a run should keep -/

/-- The context `m_fdContexts[fd]`, an empty one where the table has none. -/
def State.contextAt (s : State) (fd : Nat) : FdContext := ((s.fdContexts[fd]?).map s.context).getD {}

/-- The kernel's interest mask for a descriptor. -/
def State.interest (s : State) (fd : Int) : BitVec 32 :=
  ((s.kernel fd).map fun ev => ev.events &&& ~~~EPOLLET).getD NONE

/-- The number of (descriptor, event) pairs whose bit is set. -/
def State.registeredPairs (s : State) : Nat :=
  ((List.range s.fdContexts.length).map fun fd => (s.contextAt fd).weight).sum

structure Coupled (s : State) : Prop where
  count : s.pendingEventCount.toNat = s.registeredPairs
  slots : ∀ fd e, Has (s.contextAt fd).events e ↔ ((s.contextAt fd).getEventContext e).Armed
  kernel : ∀ fd : Nat, s.interest fd = (s.contextAt fd).events

/-- Events, slots and counter are as before. -/
structure Unchanged (s s' : State) : Prop where
  count : s'.pendingEventCount = s.pendingEventCount
  events : ∀ fd, (s'.contextAt fd).events = (s.contextAt fd).events
  slots : ∀ fd e, (s'.contextAt fd).getEventContext e = (s.contextAt fd).getEventContext e

section
variable {s s' : State}

theorem Core.contextAt_eq (h : Core s) (fd : Nat) : s.contextAt fd = s.context fd := by
  unfold State.contextAt
  rw [h.table]
  by_cases hfd : fd < s.heap.length
  · rw [List.getElem?_range hfd]; rfl
  · rw [List.getElem?_eq_none (by rw [List.length_range]; omega), context_of_ge (by omega)]
    rfl

theorem Core.registeredPairs_eq (h : Core s) :
    s.registeredPairs = (s.heap.map FdContext.weight).sum := by
  unfold State.registeredPairs
  congr 1
  apply List.ext_getElem?
  intro p
  rw [List.getElem?_map, List.getElem?_map, h.length_eq]
  by_cases hp : p < s.heap.length
  · rw [List.getElem?_range hp, context_of_lt hp, Option.map_some, Option.map_some, h.contextAt_eq]
  · rw [List.getElem?_eq_none (by rw [List.length_range]; omega), List.getElem?_eq_none (by omega)]
    rfl

theorem Core.count_toNat (h : Core s) : s.pendingEventCount.toNat = s.registeredPairs := by
  have hle : (s.heap.map FdContext.weight).sum ≤ (s.heap.map FdContext.weight).length • 2 := by
    apply List.sum_le_card_nsmul
    intro w hw
    obtain ⟨c, -, rfl⟩ := List.mem_map.mp hw
    exact weight_le c
  have hsmall := h.small
  rw [List.length_map, Nat.nsmul_eq_mul] at hle
  rw [h.count, h.registeredPairs_eq, BitVec.toNat_ofNat, Nat.mod_eq_of_lt (by omega)]

theorem Inv.coupled (h : Inv s) : Coupled s := by
  refine ⟨h.count_toNat, ?_, ?_⟩
  · intro fd e
    rw [h.contextAt_eq]
    constructor
    · exact (h.ok fd).armed e
    · intro ha
      by_contra hno
      rw [(h.ok fd).empty e hno] at ha
      exact ha.1 rfl
  · intro fd
    unfold State.interest
    rw [h.kernel_at, h.contextAt_eq, registration]
    split
    · rename_i hz
      exact hz.symm
    · exact (h.ok fd).clean.strip

theorem Unchanged.refl (s : State) : Unchanged s s := ⟨rfl, fun _ => rfl, fun _ _ => rfl⟩

theorem Unchanged.logError (h : Unchanged s s') (op : CtlOp) (fd : Int) (ev : EpollEvent) :
    Unchanged s (s'.logError op fd ev) := ⟨h.count, h.events, h.slots⟩

/-- Growth adds nothing that is registered. -/
theorem Inv.unchanged_resized (h : Inv s) {n : Nat} (hn : s.heap.length ≤ n)
    (hsmall : n < 2 ^ 31) : Unchanged s (contextResize n s) := by
  have h' := h.resized hn hsmall
  have hctx : ∀ fd, (contextResize n s).contextAt fd = s.contextAt fd ∨
      (s.contextAt fd = {} ∧ (contextResize n s).contextAt fd = { fd := toInt fd }) := by
    intro fd
    rw [h'.contextAt_eq, h.contextAt_eq, h.context_contextResize hn]
    split
    · rename_i hfd
      exact Or.inr ⟨context_of_ge hfd.1, rfl⟩
    · exact Or.inl rfl
  refine ⟨by rw [h.contextResize_eq hn], ?_, ?_⟩
  · intro fd
    rcases hctx fd with heq | ⟨hold, hnew⟩
    · rw [heq]
    · rw [hold, hnew]
  · intro fd e
    rcases hctx fd with heq | ⟨hold, hnew⟩
    · rw [heq]
    · rw [hold, hnew]
      cases e <;> rfl

end

/-! ## The operations as steps -/

inductive IoOp where
  | addEvent (fd : Int) (event : Event) (cb : Option Nat) (caller : Caller)
  | delEvent (fd : Int) (event : Event)
  | cancelEvent (fd : Int) (event : Event)
  | cancelAll (fd : Int)
  | dispatch (p : Nat) (mask : BitVec 32)

/-- One call, its result dropped. -/
def IoOp.exec (fails : Bool) (s : State) : IoOp → Except Fault State
  | .addEvent fd event cb caller => Prod.snd <$> IOManager.addEvent fd event cb caller fails s
  | .delEvent fd event => Prod.snd <$> IOManager.delEvent fd event fails s
  | .cancelEvent fd event => Prod.snd <$> IOManager.cancelEvent fd event fails s
  | .cancelAll fd => Prod.snd <$> IOManager.cancelAll fd fails s
  | .dispatch p mask => IOManager.dispatch p mask fails s

/-- What callers and kernel promise: descriptors are not negative, `addEvent` is called on a
scheduler's thread and for an event that is not waiting, and a reported mask lies within the
interest mask of its descriptor, errors and hang-ups aside. -/
def IoOp.Allowed (s : State) : IoOp → Prop
  | .addEvent fd event _ caller =>
    0 ≤ fd ∧ caller.scheduler ≠ none ∧
      ((s.contextAt fd.toNat).getEventContext event).scheduler = none
  | .delEvent fd _ => 0 ≤ fd
  | .cancelEvent fd _ => 0 ≤ fd
  | .cancelAll fd => 0 ≤ fd
  | .dispatch p mask => ∃ fd ev, s.kernel fd = some ev ∧ ev.ptr = p ∧
      mask &&& ~~~(s.interest fd ||| EPOLLERR ||| EPOLLHUP) = 0

/-- The step does not reach a defect: `fd * 1.5` fits an `int`, and a `delEvent` finds
nothing registered or is refused by the kernel. -/
def IoOp.Meets (fails : Bool) (s : State) : IoOp → Prop
  | .addEvent fd _ _ _ => fd < 1431655766
  | .delEvent fd event => fails = true ∨ ¬ Has (s.contextAt fd.toNat).events event
  | .cancelEvent _ _ => True
  | .cancelAll _ => True
  | .dispatch _ _ => True

/-- The states of the runs whose steps all meet the condition. -/
inductive Reached : State → Prop where
  | init : Reached init
  | step {s s' : State} (op : IoOp) (fails : Bool) : Reached s → op.Allowed s →
      op.Meets fails s → op.exec fails s = .ok s' → Reached s'

/-! ## Every step -/

/-- A step keeps the invariant, and changes nothing when `epoll_ctl` failed in it. -/
def Steps (s : State) (r : Except Fault State) : Prop :=
  ∃ s', r = .ok s' ∧ Inv s' ∧ (s'.errors ≠ s.errors → Unchanged s s')

section
variable {s s' : State}

theorem Kept.unchanged (h : Kept s s') (hne : s'.errors ≠ s.errors) : Unchanged s s' := by
  obtain ⟨op, fd, ev, rfl⟩ := h.failed hne
  exact (Unchanged.refl s).logError op fd ev

theorem steps_of_kept {α : Type} {x : Except Fault (α × State)}
    (h : ∃ r s', x = .ok (r, s') ∧ Kept s s') : Steps s (Prod.snd <$> x) := by
  obtain ⟨r, s', rfl, hk⟩ := h
  exact ⟨s', rfl, hk.inv, hk.unchanged⟩

theorem addEvent_steps (h : Inv s) {fd : Nat} (hfd : (fd : Int) < 1431655766) {e : Event}
    (cb : Option Nat) {caller : Caller} (hcaller : caller.scheduler ≠ none)
    (hnew : ((s.contextAt fd).getEventContext e).scheduler = none) (fails : Bool) :
    Steps s (Prod.snd <$> addEvent fd e cb caller fails s) := by
  rw [h.contextAt_eq] at hnew
  have hnot : ∀ s₁ : State, (s₁.context fd).Ok → ((s₁.context fd).getEventContext e).scheduler = none →
      ¬ Has (s₁.context fd).events e := by
    intro s₁ hok hnone he
    exact (hok.armed e he).1 hnone
  unfold addEvent findContext
  rw [h.length_eq, toInt_of_lt h.small]
  by_cases hin : fd < s.heap.length
  · rw [if_pos (by omega), h.entry_eq hin]
    exact steps_of_kept (addLocked_spec h hin (hnot s (h.ok fd) hnew) cb hcaller fails)
  · -- the table grows first, by empty contexts
    have henough := h.enough
    have hn : s.heap.length ≤ fd * 3 / 2 := by omega
    have hsmall : fd * 3 / 2 < 2 ^ 31 := by omega
    have h₁ := h.resized hn hsmall
    have hlen : (contextResize (fd * 3 / 2) s).heap.length = fd * 3 / 2 := by
      rw [h.contextResize_eq hn, List.length_append, newContexts_length]
      omega
    have hin₁ : fd < (contextResize (fd * 3 / 2) s).heap.length := by omega
    have hnew₁ : (((contextResize (fd * 3 / 2) s).context fd).getEventContext e).scheduler = none := by
      rw [h.context_contextResize hn, if_pos (by omega)]
      cases e <;> rfl
    obtain ⟨r, s', hrun, hk⟩ :=
      addLocked_spec h₁ hin₁ (hnot _ (h₁.ok fd) hnew₁) cb hcaller fails
    have hgrow : growContexts fd s = .ok (fd, contextResize (fd * 3 / 2) s) := by
      unfold growContexts
      rw [if_neg (by omega), Int.toNat_natCast]
      show (do let p ← entry fd (contextResize (fd * 3 / 2) s); return (p, _)) = _
      rw [h₁.entry_eq hin₁]
      rfl
    have herr : (contextResize (fd * 3 / 2) s).errors = s.errors := by
      rw [h.contextResize_eq hn]
    rw [if_neg (by omega)]
    refine ⟨s', ?_, hk.inv, ?_⟩
    · show Prod.snd <$> (do let r ← growContexts fd s; addLocked r.1 fd e cb caller fails r.2) = _
      rw [hgrow]
      show Prod.snd <$> addLocked fd fd e cb caller fails (contextResize (fd * 3 / 2) s) = _
      rw [hrun]
      rfl
    · intro hne
      obtain ⟨op, fd', ev, rfl⟩ := hk.failed (by rw [herr]; exact hne)
      exact (h.unchanged_resized hn hsmall).logError op fd' ev

/-- The event a dispatch triggers is one that was reported, or registered. -/
theorem has_realEvents (mask events : BitVec 32) (e : Event) :
    Has (realEvents mask events) e ↔ Has (widen mask events) e := by
  unfold realEvents
  cases e with
  | READ =>
    show _ ↔ widen mask events &&& EPOLLIN ≠ 0
    by_cases hr : widen mask events &&& EPOLLIN ≠ 0
    · rw [if_pos hr]
      refine ⟨fun _ => hr, fun _ => ?_⟩
      split <;> decide
    · rw [if_neg hr]
      refine ⟨fun h => absurd h ?_, fun h => absurd h hr⟩
      split <;> decide
  | WRITE =>
    show _ ↔ widen mask events &&& EPOLLOUT ≠ 0
    by_cases hw : widen mask events &&& EPOLLOUT ≠ 0
    · rw [if_pos hw]
      refine ⟨fun _ => hw, fun _ => ?_⟩
      split <;> decide
    · rw [if_neg hw]
      refine ⟨fun h => absurd h ?_, fun h => absurd h hw⟩
      split <;> decide

/-- A mask within the registered events makes no other event happen. -/
theorem realEvents_within {mask events : BitVec 32} (hclean : Clean events)
    (hin : mask &&& ~~~(events ||| EPOLLERR ||| EPOLLHUP) = 0) (e : Event)
    (he : Has (realEvents mask events) e) : Has events e := by
  rw [has_realEvents] at he
  by_contra hno
  have hk : (events ||| EPOLLERR ||| EPOLLHUP) &&& e.bit = 0 := by
    revert hno
    rcases hclean with hm | hm | hm | hm <;> rw [hm] <;> cases e <;> decide
  have hmask : mask &&& e.bit = 0 := and_eq_zero_of_within hin hk
  have hev : events &&& e.bit = 0 := not_not.mp hno
  apply he
  unfold widen
  split
  · rw [BitVec.and_or_distrib_right, hmask, BitVec.and_assoc, hev]
    simp
  · exact hmask

theorem dispatch_steps (h : Inv s) {p : Nat} {mask : BitVec 32} (ha : (IoOp.dispatch p mask).Allowed s)
    (fails : Bool) : Steps s (dispatch p mask fails s) := by
  obtain ⟨fd, ev, hk, hptr, hin⟩ := ha
  have hreg := h.kernel_eq fd
  rw [hk] at hreg
  by_cases hfd : 0 ≤ fd
  · obtain ⟨n, rfl⟩ := Int.eq_ofNat_of_zero_le hfd
    rw [if_pos hfd, Int.toNat_natCast, registration] at hreg
    have hne : (s.context n).events ≠ 0 := by
      intro hz
      rw [if_pos hz] at hreg
      cases hreg
    rw [if_neg hne] at hreg
    cases hreg
    subst hptr
    have hlen : n < s.heap.length := by
      by_contra hge
      rw [context_of_ge (by omega)] at hne
      exact hne rfl
    have hint : s.interest n = (s.context n).events := by
      rw [h.coupled.kernel, h.contextAt_eq]
    rw [hint] at hin
    obtain ⟨s', hrun, hkept⟩ := dispatch_spec h hlen
      (realEvents_within (h.ok n).clean hin) fails
    exact ⟨s', hrun, hkept.inv, hkept.unchanged⟩
  · rw [if_neg hfd] at hreg
    cases hreg

theorem exec_steps (h : Inv s) {op : IoOp} {fails : Bool} (ha : op.Allowed s)
    (hm : op.Meets fails s) : Steps s (op.exec fails s) := by
  cases op with
  | addEvent fd event cb caller =>
    obtain ⟨hfd, hcaller, hnew⟩ := ha
    obtain ⟨n, rfl⟩ := Int.eq_ofNat_of_zero_le hfd
    exact addEvent_steps h hm cb hcaller hnew fails
  | delEvent fd event =>
    obtain ⟨n, rfl⟩ := Int.eq_ofNat_of_zero_le ha
    have hnot : fails = true ∨ ¬ Has (s.context n).events event := by
      rw [← h.contextAt_eq]; exact hm
    exact steps_of_kept (h.withContext_kept n fun _ => delLocked_spec h hnot)
  | cancelEvent fd event =>
    obtain ⟨n, rfl⟩ := Int.eq_ofNat_of_zero_le ha
    exact steps_of_kept (h.withContext_kept n fun hfd => cancelLocked_spec h hfd fails)
  | cancelAll fd =>
    obtain ⟨n, rfl⟩ := Int.eq_ofNat_of_zero_le ha
    exact steps_of_kept (h.withContext_kept n fun hfd => cancelAllLocked_spec h hfd fails)
  | dispatch p mask => exact dispatch_steps h ha fails

end

/-! ## Every run -/

theorem inv_init : Inv init := by
  have hctx : ∀ p, init.context p = if p < 32 then { fd := toInt p } else {} := by
    intro p
    show ((newContexts 0 32)[p]?).getD {} = _
    rw [newContexts_getElem?, Nat.zero_add]
    split <;> rfl
  refine ⟨⟨rfl, Nat.le_refl 32, by decide, ?_, ?_, ?_⟩, ?_⟩
  · intro p hp
    have h32 : p < 32 := hp
    rw [hctx, if_pos h32]
    exact toInt_of_lt (by omega)
  · intro p
    rw [hctx]
    split
    · exact FdContext.Ok.new _
    · exact FdContext.Ok.new 0
  · show (0 : BitVec 64) = BitVec.ofNat 64 ((newContexts 0 32).map FdContext.weight).sum
    rw [sum_weight_newContexts]
    rfl
  · intro fd
    rw [hctx]
    split
    · split <;> rfl
    · rfl

theorem Reached.inv {s : State} (h : Reached s) : Inv s := by
  induction h with
  | init => exact inv_init
  | step op fails _ ha hm hrun ih =>
    obtain ⟨s', hs', hinv, -⟩ := exec_steps ih ha hm
    rw [hrun] at hs'
    cases hs'
    exact hinv

/-- **The four records agree** in every state of every run whose steps meet the condition,
no step of such a run ends the program, and a step whose `epoll_ctl` fails changes no
event, no slot and not the counter. -/
theorem registrations_coupled (s : State) (h : Reached s) :
    Coupled s ∧ ∀ op fails, IoOp.Allowed s op → IoOp.Meets fails s op →
      ∃ s', op.exec fails s = .ok s' ∧ Coupled s' ∧ (s'.errors ≠ s.errors → Unchanged s s') := by
  refine ⟨h.inv.coupled, ?_⟩
  intro op fails ha hm
  obtain ⟨s', hrun, hinv, hfail⟩ := exec_steps h.inv ha hm
  exact ⟨s', hrun, hinv.coupled, hfail⟩

/-- A READ registered for descriptor 3 with a callback, then cancelled. -/
theorem registrations_coupled_cancelled :
    ∃ s₁ s₂, (IoOp.addEvent 3 .READ (some 7) ⟨some 0, 1⟩).exec false init = .ok s₁ ∧
      (IoOp.cancelEvent 3 .READ).exec false s₁ = .ok s₂ ∧ Coupled s₂ := by
  have ha : (IoOp.addEvent 3 .READ (some 7) ⟨some 0, 1⟩).Allowed init := ⟨by decide, by decide, by decide⟩
  obtain ⟨s₁, hrun₁, -, -⟩ :=
    (registrations_coupled init Reached.init).2 _ false ha (show (3 : Int) < 1431655766 by decide)
  have h₁ : Reached s₁ := Reached.init.step _ false ha (show (3 : Int) < 1431655766 by decide) hrun₁
  obtain ⟨s₂, hrun₂, hc, -⟩ :=
    (registrations_coupled s₁ h₁).2 (.cancelEvent 3 .READ) false (show (0 : Int) ≤ 3 by decide) trivial
  exact ⟨s₁, s₂, hrun₁, hrun₂, hc⟩

/-- A `delEvent` that gets through breaks the agreement, whatever the state: the bit stays
set over an empty slot. -/
theorem delEvent_uncouples {s : State} (h : Inv s) {fd : Nat} {e : Event}
    (he : Has (s.contextAt fd).events e) :
    ∃ s', (IoOp.delEvent fd e).exec false s = .ok s' ∧ ¬ Coupled s' := by
  rw [h.contextAt_eq] at he
  have hfd : fd < s.heap.length := by
    by_contra hge
    rw [context_of_ge (by omega)] at he
    exact he.ne_zero rfl
  obtain ⟨s', hs'⟩ : ∃ s', s' = ((s.register fd (registration fd
      ((s.context fd).events &&& ~~~e.bit))).decPending).setContext fd
        ((s.context fd).resetEventContext e) := ⟨_, rfl⟩
  refine ⟨s', ?_, ?_⟩
  · have hrun : delLocked fd fd e false s = .ok (true, s') := by
      unfold delLocked
      dsimp only
      rw [if_neg (not_not_intro he), epollCtl_left h he.ne_zero, hs']
    show Prod.snd <$> withContext fd _ s = _
    rw [h.withContext_eq, if_pos hfd, hrun]
    rfl
  · intro hc
    have hslot := (hc.slots fd e).mp
    have hctx : s'.contextAt fd = (s.context fd).resetEventContext e := by
      subst hs'
      unfold State.contextAt State.context
      show ((s.fdContexts[fd]?).map fun p =>
        ((s.heap.set fd ((s.context fd).resetEventContext e))[p]?).getD {}).getD {} = _
      rw [h.table, List.getElem?_range hfd, Option.map_some, List.getElem?_set_self hfd]
      rfl
    rw [hctx, FdContext.resetEventContext, setEventContext_events, getEventContext_setEventContext,
      if_pos rfl] at hslot
    exact (hslot he).1 rfl

/-- READ registered for descriptor 3 and deleted again, `epoll_ctl` succeeding both times:
the counter is 0 and the bit is still set. -/
theorem registrations_not_coupled :
    ∃ s₁ s₂, (IoOp.addEvent 3 .READ (some 7) ⟨some 0, 1⟩).Allowed init ∧
      (IoOp.addEvent 3 .READ (some 7) ⟨some 0, 1⟩).exec false init = .ok s₁ ∧
      (IoOp.delEvent 3 .READ).Allowed s₁ ∧ (IoOp.delEvent 3 .READ).exec false s₁ = .ok s₂ ∧
      s₂.pendingEventCount = 0 ∧ Has (s₂.contextAt 3).events .READ ∧ s₂.interest 3 = 0 ∧
      ¬ Coupled s₂ := by
  refine ⟨_, _, ⟨by decide, by decide, by decide⟩, rfl, (show (0 : Int) ≤ 3 by decide), rfl, by decide,
    by decide, by decide, ?_⟩
  intro hc
  have hk := hc.kernel 3
  exact absurd hk (by decide)

end Sylar.IOManager
