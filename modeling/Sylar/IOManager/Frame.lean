import Mathlib.Data.List.Basic
import Sylar.IOManager.Dispatch
import Sylar.IOManager.Runs

/- What an operation on an event leaves of the others.

   Every operation writes the context of its own descriptor and no other, apart from the growth
   of the table, which adds contexts with no event, and there the bit of its own event.
   `exec_spares` says so for all of them at once, `addEvent_registers` what the one that
   registers has done. -/
namespace Sylar.IOManager

/-- Only the context at `p` is written. -/
def Elsewhere (p : Nat) (s s' : State) : Prop := ∀ q, q ≠ p → s'.context q = s.context q

section
variable {s s' s'' : State} {p : Nat} {e : Event} {fd : Int}

theorem Elsewhere.refl (p : Nat) (s : State) : Elsewhere p s s := fun _ _ => rfl

theorem Elsewhere.trans (h : Elsewhere p s s') (h' : Elsewhere p s' s'') : Elsewhere p s s'' :=
  fun q hq => (h' q hq).trans (h q hq)

theorem elsewhere_of_context (h : s'.context = s.context) : Elsewhere p s s' := fun q _ => by rw [h]

theorem elsewhere_setContext (c : FdContext) : Elsewhere p s (s.setContext p c) := by
  intro q hq
  unfold State.setContext State.context
  rw [List.getElem?_set_ne (Ne.symm hq)]

theorem epollCtl_elsewhere {op : CtlOp} {ev : EpollEvent} {fails : Bool}
    (h : epollCtl op fd ev fails s = some s') : Elsewhere p s s' :=
  elsewhere_of_context (epollCtl_context h).1

theorem triggerEvent_elsewhere (h : triggerEvent p e s = .ok s') : Elsewhere p s s' := by
  unfold triggerEvent at h
  dsimp only at h
  split at h
  · cases h
  · split at h
    · cases h
    · cases h
      exact elsewhere_setContext _

theorem triggerIf_elsewhere {mask : BitVec 32} (h : triggerIf mask p e s = .ok s') : Elsewhere p s s' := by
  unfold triggerIf at h
  split at h
  · cases hrun : triggerEvent p e s with
    | error f => rw [hrun] at h; cases h
    | ok s₁ =>
      rw [hrun] at h
      cases h
      exact Elsewhere.trans (triggerEvent_elsewhere hrun) (elsewhere_of_context rfl)
  · cases h
    exact Elsewhere.refl p s

theorem addLocked_elsewhere {cb : Option Nat} {caller : Caller} {fails : Bool} {r : Int}
    (h : addLocked p fd e cb caller fails s = .ok (r, s')) : Elsewhere p s s' := by
  unfold addLocked at h
  dsimp only at h
  split at h
  · cases h
  · split at h
    · cases h
      exact Elsewhere.refl p s
    · rename_i s₁ hctl
      split at h
      · cases h
      · cases h
        exact (epollCtl_elsewhere hctl).trans (elsewhere_setContext _)

theorem delLocked_elsewhere {fails r : Bool} (h : delLocked p fd e fails s = .ok (r, s')) :
    Elsewhere p s s' := by
  unfold delLocked at h
  dsimp only at h
  split at h
  · cases h
    exact Elsewhere.refl p s
  · split at h
    · cases h
      exact Elsewhere.refl p s
    · rename_i s₁ hctl
      cases h
      exact (epollCtl_elsewhere hctl).trans (elsewhere_setContext _)

theorem cancelLocked_elsewhere {fails r : Bool} (h : cancelLocked p fd e fails s = .ok (r, s')) :
    Elsewhere p s s' := by
  unfold cancelLocked at h
  dsimp only at h
  split at h
  · cases h
    exact Elsewhere.refl p s
  · split at h
    · cases h
      exact Elsewhere.refl p s
    · rename_i s₁ hctl
      cases hrun : triggerEvent p e s₁ with
      | error f => rw [hrun] at h; cases h
      | ok s₂ =>
        rw [hrun] at h
        cases h
        exact ((epollCtl_elsewhere hctl).trans (triggerEvent_elsewhere hrun)).trans (elsewhere_of_context rfl)

theorem cancelAllLocked_elsewhere {fails r : Bool} (h : cancelAllLocked p fd fails s = .ok (r, s')) :
    Elsewhere p s s' := by
  unfold cancelAllLocked at h
  dsimp only at h
  split at h
  · cases h
    exact Elsewhere.refl p s
  · split at h
    · cases h
      exact Elsewhere.refl p s
    · rename_i s₁ hctl
      cases hread : triggerIf (s₁.context p).events p .READ s₁ with
      | error f => rw [hread] at h; cases h
      | ok s₂ =>
        rw [hread] at h
        change (do
          let s ← triggerIf (s₂.context p).events p .WRITE s₂
          if (s.context p).events ≠ 0 then .error .eventsLeft else return (true, s)) = _ at h
        cases hwrite : triggerIf (s₂.context p).events p .WRITE s₂ with
        | error f => rw [hwrite] at h; cases h
        | ok s₃ =>
          rw [hwrite] at h
          change (if (s₃.context p).events ≠ 0 then Except.error Fault.eventsLeft
            else Except.ok (true, s₃)) = _ at h
          split at h
          · cases h
          · cases h
            exact ((epollCtl_elsewhere hctl).trans (triggerIf_elsewhere hread)).trans (triggerIf_elsewhere hwrite)

theorem dispatch_elsewhere {mask : BitVec 32} {fails : Bool} (h : dispatch p mask fails s = .ok s') :
    Elsewhere p s s' := by
  unfold dispatch at h
  dsimp only at h
  split at h
  · cases h
    exact Elsewhere.refl p s
  · split at h
    · cases h
      exact Elsewhere.refl p s
    · rename_i s₁ hctl
      cases hrun : triggerIf (realEvents mask (s.context p).events) p .READ s₁ with
      | error f => rw [hrun] at h; cases h
      | ok s₂ =>
        rw [hrun] at h
        exact ((epollCtl_elsewhere hctl).trans (triggerIf_elsewhere hrun)).trans (triggerIf_elsewhere h)

/-! ## The other event of a descriptor -/

/-- The event is registered as it was. -/
def Spares (p : Nat) (e : Event) (s s' : State) : Prop := Has (s'.context p).events e ↔ Has (s.context p).events e

variable {e' : Event}

theorem Spares.refl (p : Nat) (e : Event) (s : State) : Spares p e s s := Iff.rfl

theorem Spares.trans (h : Spares p e s s') (h' : Spares p e s' s'') : Spares p e s s'' := Iff.trans h' h

theorem spares_of_context (h : s'.context = s.context) : Spares p e s s' := by rw [Spares, h]

theorem spares_setContext {c : FdContext} (h : Has c.events e ↔ Has (s.context p).events e) :
    Spares p e s (s.setContext p c) := by
  have hw : Wrote s (s.setContext p c) p c := ⟨rfl, rfl, rfl, rfl⟩
  by_cases hp : p < s.heap.length
  · rw [Spares, hw.context_same hp, h]
  · have hold := context_of_ge (s := s) (Nat.le_of_not_lt hp)
    have hnew : (s.setContext p c).context p = {} := context_of_ge (by
      rw [hw.heap, List.length_set]
      exact Nat.le_of_not_lt hp)
    rw [Spares, hold, hnew]

/-- Clearing one event leaves the bit of the other. -/
theorem has_clear_of_ne {m : BitVec 32} (h : e ≠ e') : Has (m &&& ~~~e.bit) e' ↔ Has m e' := by
  have hbit : ~~~e.bit &&& e'.bit = e'.bit := by
    cases e <;> cases e' <;> first | exact absurd rfl h | rfl
  unfold Has
  rw [BitVec.and_assoc, hbit]

theorem epollCtl_spares {op : CtlOp} {ev : EpollEvent} {fails : Bool} (h : epollCtl op fd ev fails s = some s') :
    Spares p e s s' := spares_of_context (epollCtl_context h).1

theorem triggerEvent_spares (hne : e ≠ e') (h : triggerEvent p e s = .ok s') : Spares p e' s s' := by
  unfold triggerEvent at h
  dsimp only at h
  split at h
  · cases h
  · split at h
    · cases h
    · cases h
      refine spares_setContext ?_
      rw [clear_events]
      exact has_clear_of_ne hne

theorem triggerIf_spares {mask : BitVec 32} (hne : Has mask e → e ≠ e') (h : triggerIf mask p e s = .ok s') :
    Spares p e' s s' := by
  unfold triggerIf at h
  split at h
  · rename_i hmask
    cases hrun : triggerEvent p e s with
    | error f => rw [hrun] at h; cases h
    | ok s₁ =>
      rw [hrun] at h
      cases h
      exact (triggerEvent_spares (hne hmask) hrun).trans (spares_of_context rfl)
  · cases h
    exact Spares.refl p e' s

theorem addLocked_spares (hclean : Clean (s.context p).events) (hne : e ≠ e') {cb : Option Nat} {caller : Caller}
    {fails : Bool} {r : Int} (h : addLocked p fd e cb caller fails s = .ok (r, s')) : Spares p e' s s' := by
  unfold addLocked at h
  dsimp only at h
  split at h
  · cases h
  · split at h
    · cases h
      exact Spares.refl p e' s
    · rename_i s₁ hctl
      split at h
      · cases h
      · cases h
        refine (epollCtl_spares hctl).trans (spares_setContext ?_)
        rw [arm_events, hclean.has_set]
        show _ ↔ Has (s₁.context p).events e'
        rw [(epollCtl_context hctl).1]
        exact or_iff_left hne

/-- `delEvent` leaves every event in the mask. -/
theorem delLocked_spares {fails r : Bool} (h : delLocked p fd e fails s = .ok (r, s')) : Spares p e' s s' := by
  unfold delLocked at h
  dsimp only at h
  split at h
  · cases h
    exact Spares.refl p e' s
  · split at h
    · cases h
      exact Spares.refl p e' s
    · rename_i s₁ hctl
      cases h
      refine (epollCtl_spares hctl).trans (spares_setContext ?_)
      rw [FdContext.resetEventContext, setEventContext_events]
      show _ ↔ Has (s₁.context p).events e'
      rw [(epollCtl_context hctl).1]

theorem cancelLocked_spares (hne : e ≠ e') {fails r : Bool} (h : cancelLocked p fd e fails s = .ok (r, s')) :
    Spares p e' s s' := by
  unfold cancelLocked at h
  dsimp only at h
  split at h
  · cases h
    exact Spares.refl p e' s
  · split at h
    · cases h
      exact Spares.refl p e' s
    · rename_i s₁ hctl
      cases hrun : triggerEvent p e s₁ with
      | error f => rw [hrun] at h; cases h
      | ok s₂ =>
        rw [hrun] at h
        cases h
        exact ((epollCtl_spares hctl).trans (triggerEvent_spares hne hrun)).trans (spares_of_context rfl)

theorem dispatch_spares {mask : BitVec 32} (hnot : ¬ Has (realEvents mask (s.context p).events) e') {fails : Bool}
    (h : dispatch p mask fails s = .ok s') : Spares p e' s s' := by
  have hne : ∀ e, Has (realEvents mask (s.context p).events) e → e ≠ e' := by
    rintro e he rfl
    exact hnot he
  unfold dispatch at h
  dsimp only at h
  split at h
  · cases h
    exact Spares.refl p e' s
  · split at h
    · cases h
      exact Spares.refl p e' s
    · rename_i s₁ hctl
      cases hrun : triggerIf (realEvents mask (s.context p).events) p .READ s₁ with
      | error f => rw [hrun] at h; cases h
      | ok s₂ =>
        rw [hrun] at h
        exact ((epollCtl_spares hctl).trans (triggerIf_spares (hne .READ) hrun)).trans (triggerIf_spares (hne .WRITE) h)

end

/-! ## Descriptors -/

/-- The descriptor an operation is about; the context at `p` is that of descriptor `p`. -/
def IoOp.on : IoOp → Int
  | .addEvent fd _ _ _ => fd
  | .delEvent fd _ => fd
  | .cancelEvent fd _ => fd
  | .cancelAll fd => fd
  | .dispatch p _ => p

/-- The operation sets the bit of the event or may clear it; `delEvent` does neither. -/
def IoOp.Concerns (s : State) (op : IoOp) (fd : Nat) (e : Event) : Prop :=
  op.on = fd ∧
    match op with
    | .addEvent _ event _ _ | .cancelEvent _ event => event = e
    | .delEvent _ _ => False
    | .cancelAll _ => True
    | .dispatch p mask => Has (realEvents mask (s.context p).events) e

section
variable {s s' : State} {fails : Bool}

theorem withContext_elsewhere (h : Inv s) {n : Nat} {body : Nat → State → Except Fault (Bool × State)} {r : Bool}
    (hbody : body n s = .ok (r, s') → Elsewhere n s s') (hrun : withContext n body s = .ok (r, s')) :
    Elsewhere n s s' := by
  rw [h.withContext_eq] at hrun
  split at hrun
  · exact hbody hrun
  · cases hrun
    exact Elsewhere.refl n s

/-- `addEvent` is its critical section, in a table that may have grown. -/
theorem addEvent_eq (h : Inv s) {fd : Nat} (hfd : (fd : Int) < 1431655766) {e : Event} {cb : Option Nat}
    {caller : Caller} {rt : Int} (hrun : addEvent fd e cb caller fails s = .ok (rt, s')) :
    ∃ s₁, Inv s₁ ∧ (∀ q, (s₁.context q).events = (s.context q).events) ∧ fd < s₁.heap.length ∧
      addLocked fd fd e cb caller fails s₁ = .ok (rt, s') := by
  unfold addEvent findContext at hrun
  rw [h.length_eq, toInt_of_lt h.small] at hrun
  by_cases hin : fd < s.heap.length
  · rw [if_pos (by omega), h.entry_eq hin] at hrun
    exact ⟨s, h, fun _ => rfl, hin, hrun⟩
  · have henough := h.enough
    have hn : s.heap.length ≤ fd * 3 / 2 := by omega
    have h₁ := h.resized hn (by omega)
    have hlen : (contextResize (fd * 3 / 2) s).heap.length = fd * 3 / 2 := by
      rw [h.contextResize_eq hn, List.length_append, newContexts_length]
      omega
    have hin₁ : fd < (contextResize (fd * 3 / 2) s).heap.length := by omega
    have hgrow : growContexts fd s = .ok (fd, contextResize (fd * 3 / 2) s) := by
      unfold growContexts
      rw [if_neg (by omega), Int.toNat_natCast]
      show (do let p ← entry fd (contextResize (fd * 3 / 2) s); return (p, _)) = _
      rw [h₁.entry_eq hin₁]
      rfl
    rw [if_neg (by omega)] at hrun
    replace hrun : (do let r ← growContexts fd s; addLocked r.1 fd e cb caller fails r.2) = .ok (rt, s') := hrun
    rw [hgrow] at hrun
    refine ⟨contextResize (fd * 3 / 2) s, h₁, ?_, hin₁, hrun⟩
    intro q
    have hq := (h.unchanged_resized hn (by omega)).events q
    rwa [h₁.contextAt_eq, h.contextAt_eq] at hq

/-- A registration that succeeds. -/
theorem addEvent_registers (h : Inv s) {fd : Nat} (hfd : (fd : Int) < 1431655766) {e : Event} {cb : Option Nat}
    {caller : Caller} (hrun : addEvent fd e cb caller fails s = .ok (0, s')) : Has (s'.context fd).events e := by
  obtain ⟨s₁, h₁, -, hin, hlocked⟩ := addEvent_eq h hfd hrun
  unfold addLocked at hlocked
  dsimp only at hlocked
  split at hlocked
  · cases hlocked
  · split at hlocked
    · cases hlocked
    · rename_i s₂ hctl
      split at hlocked
      · cases hlocked
      · cases hlocked
        have hlen : fd < s₂.heap.length := by
          rw [(epollCtl_context hctl).2]
          exact hin
        rw [(wrote_incPending s₂ fd _).context_same hlen, arm_events]
        exact ((h₁.ok fd).clean.has_set e e).mpr (Or.inr rfl)

/-- The kernel takes what it is given unless `fails`. -/
theorem addEvent_zero (h : Inv s) {fd : Nat} (hfd : (fd : Int) < 1431655766) {e : Event} {cb : Option Nat}
    {caller : Caller} {rt : Int} (hrun : addEvent fd e cb caller false s = .ok (rt, s')) : rt = 0 := by
  obtain ⟨s₁, h₁, -, hin, hlocked⟩ := addEvent_eq h hfd hrun
  unfold addLocked at hlocked
  dsimp only at hlocked
  split at hlocked
  · cases hlocked
  · rw [epollCtl_add h₁] at hlocked
    dsimp only at hlocked
    split at hlocked
    · cases hlocked
    · cases hlocked
      rfl

theorem ok_of_snd {α : Type} {x : Except Fault (α × State)} (h : Prod.snd <$> x = .ok s') :
    ∃ r, x = .ok (r, s') := by
  cases x with
  | error f => cases h
  | ok v =>
    cases h
    exact ⟨v.1, rfl⟩

theorem withContext_spares (h : Inv s) {n : Nat} {e : Event} {body : Nat → State → Except Fault (Bool × State)}
    {r : Bool} (hbody : body n s = .ok (r, s') → Spares n e s s') (hrun : withContext n body s = .ok (r, s')) :
    Spares n e s s' := by
  rw [h.withContext_eq] at hrun
  split at hrun
  · exact hbody hrun
  · cases hrun
    exact Spares.refl n e s

/-- The events of descriptors that an operation is not about are as they were. -/
theorem exec_elsewhere (h : Inv s) {op : IoOp} (ha : op.Allowed s) (hm : op.Meets fails s)
    (hrun : op.exec fails s = .ok s') {fd : Nat} (hne : op.on ≠ fd) :
    (s'.context fd).events = (s.context fd).events := by
  cases op with
  | addEvent n e cb caller =>
    obtain ⟨n, rfl⟩ := Int.eq_ofNat_of_zero_le ha.1
    obtain ⟨r, hadd⟩ := ok_of_snd hrun
    obtain ⟨s₁, -, hevents, -, hlocked⟩ := addEvent_eq h hm hadd
    have hq : fd ≠ n := fun heq => hne (by rw [heq]; rfl)
    rw [addLocked_elsewhere hlocked fd hq, hevents]
  | delEvent n e =>
    obtain ⟨n, rfl⟩ := Int.eq_ofNat_of_zero_le ha
    obtain ⟨r, hdel⟩ := ok_of_snd hrun
    have hq : fd ≠ n := fun heq => hne (by rw [heq]; rfl)
    rw [withContext_elsewhere h delLocked_elsewhere hdel fd hq]
  | cancelEvent n e =>
    obtain ⟨n, rfl⟩ := Int.eq_ofNat_of_zero_le ha
    obtain ⟨r, hcancel⟩ := ok_of_snd hrun
    have hq : fd ≠ n := fun heq => hne (by rw [heq]; rfl)
    rw [withContext_elsewhere h cancelLocked_elsewhere hcancel fd hq]
  | cancelAll n =>
    obtain ⟨n, rfl⟩ := Int.eq_ofNat_of_zero_le ha
    obtain ⟨r, hcancel⟩ := ok_of_snd hrun
    have hq : fd ≠ n := fun heq => hne (by rw [heq]; rfl)
    rw [withContext_elsewhere h cancelAllLocked_elsewhere hcancel fd hq]
  | dispatch p mask =>
    have hq : fd ≠ p := fun heq => hne (by rw [heq]; rfl)
    rw [dispatch_elsewhere hrun fd hq]

/-- An event that an operation does not concern is registered as it was. -/
theorem exec_spares (h : Inv s) {op : IoOp} (ha : op.Allowed s) (hm : op.Meets fails s)
    (hrun : op.exec fails s = .ok s') {fd : Nat} {e : Event} (hnot : ¬ op.Concerns s fd e) : Spares fd e s s' := by
  by_cases hon : op.on = fd
  · cases op with
    | addEvent n event cb caller =>
      obtain rfl : n = (fd : Int) := hon
      obtain ⟨r, hadd⟩ := ok_of_snd hrun
      obtain ⟨s₁, h₁, hevents, -, hlocked⟩ := addEvent_eq h hm hadd
      have hfirst : Spares fd e s s₁ := by rw [Spares, hevents]
      exact hfirst.trans (addLocked_spares (h₁.ok fd).clean (fun heq => hnot ⟨rfl, heq⟩) hlocked)
    | delEvent n event =>
      obtain rfl : n = (fd : Int) := hon
      obtain ⟨r, hdel⟩ := ok_of_snd hrun
      exact withContext_spares h delLocked_spares hdel
    | cancelEvent n event =>
      obtain rfl : n = (fd : Int) := hon
      obtain ⟨r, hcancel⟩ := ok_of_snd hrun
      exact withContext_spares h (cancelLocked_spares fun heq => hnot ⟨rfl, heq⟩) hcancel
    | cancelAll n => exact absurd ⟨hon, trivial⟩ hnot
    | dispatch p mask =>
      obtain rfl : p = fd := Int.ofNat_inj.mp hon
      exact dispatch_spares (fun hreal => hnot ⟨rfl, hreal⟩) hrun
  · rw [Spares, exec_elsewhere h ha hm hrun hon]

end

end Sylar.IOManager
