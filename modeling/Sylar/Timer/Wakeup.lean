import Mathlib.Algebra.Order.Ring.Nat
import Mathlib.Data.List.Basic
import Sylar.Timer.Handles

/- When an earlier deadline wakes the idle loop.

   The idle loop sleeps on what `getNextTimer` told it, and is woken through
   `onTimerInsertedAtFront()`. `Watch` keeps, beside the queue, the last reading of the
   clock and the deadlines that were pending at the last `getNextTimer`. Steps are the
   critical sections of the operations, in any order.

   `refresh` and the recurring timers of `listExpiredCb` start their period anew and so
   never come nearer (`Good.started`). `addTimer` and `reset` may, and ask whether the
   timer is the first of the set, which is a question about its address. So a nearer
   deadline is announced exactly when no pending timer is at a lower address
   (`Announces`), and `no_lost_wakeup` follows for runs of such steps. -/
namespace Sylar.Timer
open Sylar.Lib

structure Watch where
  manager : TimerManager
  /-- The latest reading of `GetCurrentMS()`. -/
  clock : Nat
  /-- The deadlines pending at the last `getNextTimer`. -/
  asked : Option (List Nat)
  /-- How often `onTimerInsertedAtFront()` had been called then. -/
  rung : Nat

def Watch.new (now : UInt64) : Watch where
  manager := Timer.new now
  clock := now.toNat
  asked := none
  rung := 0

/-- The reading of the clock an operation makes. -/
def Op.reading : Op → Option UInt64
  | .addTimer _ _ _ _ now => some now
  | .call _ .cancel => none
  | .call _ (.refresh now) => some now
  | .call _ (.reset _ from_now now) => if from_now then some now else none
  | .getNextTimer now => some now
  | .listExpiredCb now _ => some now
  | .release _ => none

def Watch.step (op : Op) (w : Watch) : Except Fault Watch :=
  (op.step w.manager).map fun s =>
    { manager := s
      clock := max w.clock ((op.reading.map UInt64.toNat).getD 0)
      asked := match op with
        | .getNextTimer _ => some (w.manager.timers.map w.manager.deadline)
        | _ => w.asked
      rung := match op with
        | .getNextTimer _ => w.manager.fronts
        | _ => w.rung }

/-- Readings do not go back. A new timer reads the clock before it takes the lock, so its reading
may be older. -/
def Op.InOrder (op : Op) (w : Watch) : Prop :=
  match op with
  | .addTimer _ _ _ _ _ => True
  | _ => ∀ now ∈ op.reading, w.clock ≤ now.toNat

/-- No deadline wraps. -/
def Op.NoWrap (op : Op) (s : TimerManager) : Prop :=
  match op with
  | .addTimer _ ms _ _ now => now.toNat + ms.toNat < 2 ^ 64
  | .call a (.refresh now) => now.toNat + (s.at a).ms.toNat < 2 ^ 64
  | .call a (.reset ms from_now now) =>
    (if from_now then now.toNat else s.deadline a - (s.at a).ms.toNat) + ms.toNat < 2 ^ 64
  | .listExpiredCb now tmp =>
    ∀ a ∈ s.expired now tmp, (s.at a).recurring = true → now.toNat + (s.at a).ms.toNat < 2 ^ 64
  | _ => True

structure Op.Admitted (op : Op) (w : Watch) : Prop where
  enabled : op.Enabled w.manager
  inOrder : op.InOrder w
  noWrap : op.NoWrap w.manager

/-- A pending timer that is nearer than all that were pending at the last `getNextTimer` has been
announced since. -/
def NoLostWakeup (w : Watch) : Prop :=
  ∀ ds, w.asked = some ds → (∃ a ∈ w.manager.timers, ∀ d ∈ ds, w.manager.deadline a < d) →
    w.manager.tickled = true ∧ w.rung < w.manager.fronts

/-- The timer to which an operation gives a deadline of its choice, and the deadline. -/
def Op.places (op : Op) (s : TimerManager) : Option (Nat × UInt64) :=
  match op with
  | .addTimer a ms _ _ now => some (a, now + ms)
  | .call a (.reset ms from_now now) =>
    if ¬ (ms = (s.at a).ms ∧ from_now = false) ∧ (s.at a).cb.isSome ∧ a ∈ s.timers then
      some (a, s.resetNext a ms from_now now)
    else none
  | _ => none

/-- If the operation sets a deadline nearer than all that were pending at the last `getNextTimer`
while `m_tickled` is clear, then every other pending timer is at a higher address. -/
def Op.Announces (op : Op) (w : Watch) : Prop :=
  ∀ a d, op.places w.manager = some (a, d) → ∀ ds, w.asked = some ds → (∀ n ∈ ds, d.toNat < n) →
    w.manager.tickled = false → ∀ b ∈ w.manager.timers, b ≠ a → a < b

/-! ## What a step does to the deadlines -/

/-- The timer began its period at a reading not after `clock`. -/
def StartedBy (clock : Nat) (s : TimerManager) (a : Nat) : Prop :=
  ∃ start ≤ clock, s.deadline a = start + (s.at a).ms.toNat

/-- The queue is in order, and a pending timer began its period at a reading of the clock. -/
structure Good (w : Watch) : Prop where
  inv : Inv w.manager
  started : ∀ a ∈ w.manager.timers, StartedBy w.clock w.manager a
  rung_le : w.rung ≤ w.manager.fronts
  rung_lt : w.asked.isSome → w.manager.tickled = true → w.rung < w.manager.fronts

/-- No timer comes in or nearer, and nothing is announced. -/
structure Quiet (clock : Nat) (s s' : TimerManager) : Prop where
  tickled_eq : s'.tickled = s.tickled
  fronts_eq : s'.fronts = s.fronts
  later : ∀ b ∈ s'.timers, b ∈ s.timers ∧ s.deadline b ≤ s'.deadline b ∧ StartedBy clock s' b

section
variable {w : Watch} {s' : TimerManager} {clock : Nat} {a : Nat}

theorem StartedBy.mono {s : TimerManager} {n m : Nat} (h : StartedBy n s a) (hnm : n ≤ m) : StartedBy m s a := by
  obtain ⟨start, hle, heq⟩ := h
  exact ⟨start, Nat.le_trans hle hnm, heq⟩

/-- A timer whose object is unchanged. -/
theorem later_of_at_eq (hg : Good w) (hclock : w.clock ≤ clock) {b : Nat} (hb : b ∈ w.manager.timers)
    (hat : s'.at b = w.manager.at b) :
    b ∈ w.manager.timers ∧ w.manager.deadline b ≤ s'.deadline b ∧ StartedBy clock s' b := by
  have hd : s'.deadline b = w.manager.deadline b := by simp only [TimerManager.deadline, hat]
  obtain ⟨start, hle, heq⟩ := hg.started b hb
  exact ⟨hb, Nat.le_of_eq hd.symm, start, Nat.le_trans hle hclock, by rw [hd, hat]; exact heq⟩

/-- A timer that starts its period anew at a reading not before the last one. -/
theorem later_of_restart (hg : Good w) {now : UInt64} (hnow : w.clock ≤ now.toNat) {b : Nat}
    (hb : b ∈ w.manager.timers) (hwrap : now.toNat + (w.manager.at b).ms.toNat < 2 ^ 64)
    (hms : (s'.at b).ms = (w.manager.at b).ms) (hnext : (s'.at b).next = now + (w.manager.at b).ms) :
    b ∈ w.manager.timers ∧ w.manager.deadline b ≤ s'.deadline b ∧ StartedBy now.toNat s' b := by
  have hd : s'.deadline b = now.toNat + (w.manager.at b).ms.toNat := by
    rw [TimerManager.deadline, hnext, UInt64.toNat_add, Nat.mod_eq_of_lt hwrap]
  obtain ⟨start, hle, heq⟩ := hg.started b hb
  refine ⟨hb, ?_, now.toNat, Nat.le_refl _, by rw [hd, hms]⟩
  omega

theorem quiet_self (hg : Good w) (hclock : w.clock ≤ clock) : Quiet clock w.manager w.manager :=
  ⟨rfl, rfl, fun _ hb => later_of_at_eq hg hclock hb rfl⟩

theorem quiet_cancel (hg : Good w) (hclock : w.clock ≤ clock) {r : Bool}
    (hrun : w.manager.cancel a = .ok (r, s')) : Quiet clock w.manager s' := by
  rcases cancel_cases hg.inv a with ⟨-, heq⟩ | ⟨-, -, heq⟩ | ⟨-, -, l, heq, hl, -⟩ <;>
    rw [heq] at hrun <;> cases hrun
  · exact quiet_self hg hclock
  · exact ⟨rfl, rfl, fun b hb => later_of_at_eq hg hclock (hl.subset hb) rfl⟩

theorem quiet_refresh (hg : Good w) {now : UInt64} (hnow : w.clock ≤ now.toNat)
    (hwrap : now.toNat + (w.manager.at a).ms.toNat < 2 ^ 64) :
    Quiet now.toNat w.manager (w.manager.refresh a now).2 := by
  rcases refresh_cases hg.inv a now with ⟨-, heq⟩ | ⟨-, ha, heq⟩ <;> rw [heq]
  · exact quiet_self hg hnow
  · refine ⟨rfl, rfl, ?_⟩
    intro b hb
    by_cases hba : b = a
    · subst hba
      exact later_of_restart hg hnow hb hwrap (by rw [at_put_self]) (by rw [at_put_self])
    · exact later_of_at_eq hg hnow hb (at_put_of_ne hba _)

theorem quiet_listExpiredCb (hg : Good w) {now : UInt64} {tmp : Nat} (hnow : w.clock ≤ now.toNat)
    (hwrap : (Op.listExpiredCb now tmp).NoWrap w.manager) :
    Quiet now.toNat w.manager (w.manager.listExpiredCb now tmp).2 := by
  obtain ⟨htick, hfronts⟩ := listExpiredCb_quiet w.manager now tmp
  refine ⟨htick, hfronts, ?_⟩
  intro b hb
  have hold := mem_listExpiredCb hb
  have hat := listExpiredCb_at w.manager now tmp b
  by_cases hexp : b ∈ w.manager.expired now tmp
  · rcases hat.next_cases with hn | ⟨hr, hn⟩
    · obtain ⟨start, hle, heq⟩ := hg.started b hold
      have hd : (w.manager.listExpiredCb now tmp).2.deadline b = w.manager.deadline b := by
        simp only [TimerManager.deadline, hn]
      refine ⟨hold, Nat.le_of_eq hd.symm, start, Nat.le_trans hle hnow, ?_⟩
      rw [hd, hat.ms_eq]
      exact heq
    · exact later_of_restart hg hnow hold (hwrap b hexp hr) hat.ms_eq hn
  · exact later_of_at_eq hg hnow hold (listExpiredCb_at_of_not_mem hexp)

theorem quiet_release (hg : Good w) (hclock : w.clock ≤ clock) (ha : a ∉ w.manager.timers) :
    Quiet clock w.manager (w.manager.release a) := by
  refine ⟨rfl, rfl, ?_⟩
  intro b hb
  have hba : b ≠ a := fun heq => ha (heq ▸ hb)
  refine later_of_at_eq hg hclock hb ?_
  simp [TimerManager.at, TimerManager.release, Function.update_of_ne hba]

/-- `reset` that does not go through. -/
theorem quiet_reset (hg : Good w) (hclock : w.clock ≤ clock) {ms now : UInt64} {from_now : Bool}
    (hplace : (Op.call a (.reset ms from_now now)).places w.manager = none) :
    Quiet clock w.manager (w.manager.reset a ms from_now now).2 := by
  rcases reset_cases hg.inv a ms from_now now with ⟨-, heq⟩ | ⟨-, -, heq⟩ | ⟨hsame, hcb, ha, -⟩
  · rw [heq]
    exact quiet_self hg hclock
  · rw [heq]
    exact quiet_self hg hclock
  · simp only [Op.places, if_pos (And.intro hsame (And.intro hcb ha))] at hplace
    cases hplace

/-- A step that places no timer is quiet. -/
theorem quiet_step (hg : Good w) {op : Op} (had : op.Admitted w) (hplace : op.places w.manager = none)
    (hask : ∀ now, op ≠ .getNextTimer now) (hrun : op.step w.manager = .ok s') :
    Quiet (max w.clock ((op.reading.map UInt64.toNat).getD 0)) w.manager s' := by
  cases op with
  | addTimer a ms cb recurring now => cases hplace
  | getNextTimer now => exact absurd rfl (hask now)
  | release a => cases hrun; exact quiet_release hg (Nat.le_max_left _ _) had.enabled
  | listExpiredCb now tmp =>
    cases hrun
    have hnow : w.clock ≤ now.toNat := had.inOrder now rfl
    have hmax : max w.clock now.toNat = now.toNat := Nat.max_eq_right hnow
    show Quiet (max w.clock now.toNat) _ _
    rw [hmax]
    exact quiet_listExpiredCb hg hnow had.noWrap
  | call a c =>
    obtain ⟨r, hc⟩ := step_call hrun
    cases c with
    | cancel => exact quiet_cancel hg (Nat.le_max_left _ _) hc
    | refresh now =>
      have hs : (w.manager.refresh a now).2 = s' := congrArg Prod.snd (Except.ok.inj hc)
      rw [← hs]
      have hnow : w.clock ≤ now.toNat := had.inOrder now rfl
      have hmax : max w.clock now.toNat = now.toNat := Nat.max_eq_right hnow
      show Quiet (max w.clock now.toNat) _ _
      rw [hmax]
      exact quiet_refresh hg hnow had.noWrap
    | reset ms from_now now =>
      have hs : (w.manager.reset a ms from_now now).2 = s' := congrArg Prod.snd (Except.ok.inj hc)
      rw [← hs]
      exact quiet_reset hg (Nat.le_max_left _ _) hplace

/-- A timer was written at `a` with the deadline `d` and put into the set. -/
structure Placed (clock : Nat) (s s' : TimerManager) (a : Nat) (d : UInt64) : Prop where
  mem_iff : ∀ b, b ∈ s'.timers ↔ b = a ∨ b ∈ s.timers
  deadline_self : s'.deadline a = d.toNat
  at_of_ne : ∀ b, b ≠ a → s'.at b = s.at b
  started : StartedBy clock s' a
  /-- It is announced when it is the first and `m_tickled` is clear. -/
  announced : (s'.tickled = true ↔ s.tickled = true ∨ ∀ b ∈ s.timers, b ≠ a → a < b)
  fronts_eq : s'.fronts = s.fronts + if s'.tickled = true ∧ s.tickled = false then 1 else 0

/-- The timer put into the set is the first exactly when no other is at a lower address. -/
theorem head_addLocked {s : TimerManager} (h : Inv s) (ha : (s.heap a).isSome) :
    (s.addLocked a).timers.head? = some a ↔ ∀ b ∈ s.timers, b ≠ a → a < b := by
  have hadd := h.addLocked ha
  constructor
  · intro hhead b hb hba
    have hb' : b ∈ (s.addLocked a).timers := mem_addLocked.mpr (Or.inr hb)
    rcases OrderedSet.head_le hadd.sorted hhead hb' with heq | hlt
    · exact absurd heq hba
    · simpa [byAddress] using hlt
  · intro hlow
    have ha' : a ∈ (s.addLocked a).timers := mem_addLocked.mpr (Or.inl rfl)
    cases hl : (s.addLocked a).timers with
    | nil => rw [hl] at ha'; cases ha'
    | cons f rest =>
      have hf : f ∈ (s.addLocked a).timers := by rw [hl]; exact List.mem_cons_self
      have hfa : f ≤ a := hadd.lowest hl a ha'
      rcases mem_addLocked.mp hf with rfl | hf
      · rfl
      · by_cases heq : f = a
        · rw [heq]; rfl
        · exact absurd (hlow f hf heq) (by omega)

theorem placed_addLocked {s : TimerManager} (h : Inv s) (t : Timer)
    (hstart : ∃ start ≤ clock, t.next.toNat = start + t.ms.toNat) :
    Placed clock s ((s.put a t).addLocked a) a t.next := by
  have hput := h.put (a := a) t
  have hat : ((s.put a t).addLocked a).at a = t := at_put_self s a t
  have hd : ((s.put a t).addLocked a).deadline a = t.next.toNat := by
    rw [TimerManager.deadline, hat]
  have hhead := head_addLocked hput (put_heap s a t)
  have htick : ((s.put a t).addLocked a).tickled = if ((s.put a t).addLocked a).timers.head? = some a ∧
      s.tickled = false then true else s.tickled := rfl
  have hfronts : ((s.put a t).addLocked a).fronts = if ((s.put a t).addLocked a).timers.head? = some a ∧
      s.tickled = false then s.fronts + 1 else s.fronts := rfl
  refine ⟨fun b => mem_addLocked, hd, fun b hb => at_put_of_ne hb t, ?_, ?_, ?_⟩
  · obtain ⟨start, hle, heq⟩ := hstart
    exact ⟨start, hle, by rw [hd, hat]; exact heq⟩
  · have hhead' : ((s.put a t).addLocked a).timers.head? = some a ↔ ∀ b ∈ s.timers, b ≠ a → a < b := hhead
    rw [← hhead', htick]
    cases s.tickled <;> simp
  · rw [hfronts, htick]
    cases s.tickled with
    | true => simp
    | false => split <;> simp_all

/-- The period that `reset` sets begins now or where the old one began. -/
theorem resetNext_started (hg : Good w) (ha : a ∈ w.manager.timers) {ms now : UInt64} {from_now : Bool}
    (hwrap : (Op.call a (.reset ms from_now now)).NoWrap w.manager) :
    ∃ start ≤ max w.clock (((Op.call a (.reset ms from_now now)).reading.map UInt64.toNat).getD 0),
      (w.manager.resetNext a ms from_now now).toNat = start + ms.toNat := by
  unfold TimerManager.resetNext
  cases from_now with
  | true =>
    have hlt : now.toNat + ms.toNat < 2 ^ 64 := hwrap
    refine ⟨now.toNat, Nat.le_max_right _ _, ?_⟩
    rw [if_pos rfl, UInt64.toNat_add, Nat.mod_eq_of_lt hlt]
  | false =>
    obtain ⟨start, hle, hstart⟩ := hg.started a ha
    have hms : (w.manager.at a).ms.toNat ≤ (w.manager.at a).next.toNat := by
      rw [TimerManager.deadline] at hstart
      omega
    have hsub : ((w.manager.at a).next - (w.manager.at a).ms).toNat = start := by
      rw [UInt64.toNat_sub_of_le _ _ (UInt64.le_iff_toNat_le.mpr hms)]
      rw [TimerManager.deadline] at hstart
      omega
    have hlt : w.manager.deadline a - (w.manager.at a).ms.toNat + ms.toNat < 2 ^ 64 := hwrap
    refine ⟨start, Nat.le_trans hle (Nat.le_max_left _ _), ?_⟩
    rw [if_neg Bool.false_ne_true, UInt64.toNat_add, hsub]
    apply Nat.mod_eq_of_lt
    omega

/-- A step that places a timer. -/
theorem placed_step (hg : Good w) {op : Op} (had : op.Admitted w) {d : UInt64}
    (hplace : op.places w.manager = some (a, d)) (hrun : op.step w.manager = .ok s') :
    Placed (max w.clock ((op.reading.map UInt64.toNat).getD 0)) w.manager s' a d := by
  cases op with
  | addTimer b ms cb recurring now =>
    cases hplace
    cases hrun
    refine placed_addLocked hg.inv _ ⟨now.toNat, Nat.le_max_right _ _, ?_⟩
    have hwrap : now.toNat + ms.toNat < 2 ^ 64 := had.noWrap
    show (now + ms).toNat = _
    rw [UInt64.toNat_add, Nat.mod_eq_of_lt hwrap]
  | getNextTimer now => cases hplace
  | listExpiredCb now tmp => cases hplace
  | release b => cases hplace
  | call b c =>
    cases c with
    | cancel => cases hplace
    | refresh now => cases hplace
    | reset ms from_now now =>
      simp only [Op.places] at hplace
      split at hplace
      · rename_i hgo
        obtain ⟨hsame, hcb, hb⟩ := hgo
        obtain ⟨rfl, rfl⟩ := Prod.mk.inj (Option.some.inj hplace)
        obtain ⟨r, hc⟩ := step_call hrun
        rcases reset_cases hg.inv b ms from_now now with ⟨hs, -⟩ | ⟨-, hno, -⟩ | ⟨-, -, -, heq⟩
        · exact absurd hs hsame
        · exact absurd ⟨hcb, hb⟩ hno
        · rw [Call.run, heq] at hc
          cases hc
          refine placed_addLocked hg.inv _ ?_
          exact resetNext_started hg hb had.noWrap
      · cases hplace

end

/-! ## Steps and runs of the watch -/

section
variable {w w' : Watch} {op : Op}

theorem step_manager (hstep : w.step op = .ok w') :
    op.step w.manager = .ok w'.manager ∧ w'.clock = max w.clock ((op.reading.map UInt64.toNat).getD 0) := by
  unfold Watch.step at hstep
  cases hop : op.step w.manager with
  | error e =>
    rw [hop] at hstep
    cases hstep
  | ok s =>
    rw [hop] at hstep
    cases hstep
    exact ⟨rfl, rfl⟩

/-- Only `getNextTimer` asks. -/
theorem step_asked (hask : ∀ now, op ≠ .getNextTimer now) (hstep : w.step op = .ok w') :
    w'.asked = w.asked ∧ w'.rung = w.rung := by
  unfold Watch.step at hstep
  rw [(step_manager hstep).1] at hstep
  have heq := Except.ok.inj hstep
  cases op with
  | getNextTimer now => exact absurd rfl (hask now)
  | addTimer | call | listExpiredCb | release =>
    exact ⟨(congrArg Watch.asked heq).symm, (congrArg Watch.rung heq).symm⟩

theorem step_getNextTimer {now : UInt64} (hstep : w.step (.getNextTimer now) = .ok w') :
    w'.manager = { w.manager with tickled := false } ∧
      w'.asked = some (w.manager.timers.map w.manager.deadline) ∧ w'.rung = w.manager.fronts := by
  refine ⟨?_, ?_⟩
  · have hm := (step_manager hstep).1
    rw [Op.step, getNextTimer_snd] at hm
    exact (Except.ok.inj hm).symm
  · cases hstep
    exact ⟨rfl, rfl⟩

theorem Good.step (hg : Good w) (had : op.Admitted w) (hstep : w.step op = .ok w') : Good w' := by
  obtain ⟨hrun, hclock⟩ := step_manager hstep
  have hinv := hg.inv.step had.enabled hrun
  by_cases hask : ∃ now, op = .getNextTimer now
  · obtain ⟨now, rfl⟩ := hask
    obtain ⟨hm, -, hrung⟩ := step_getNextTimer hstep
    -- it only clears `m_tickled`, and counts the announcements from here on
    refine ⟨hinv, ?_, ?_, ?_⟩
    · rw [hm, hclock]
      intro a ha
      exact StartedBy.mono (hg.started a ha) (Nat.le_max_left _ _)
    · rw [hm, hrung]
    · rw [hm]
      intro _ htick
      cases htick
  · have hask' : ∀ now, op ≠ .getNextTimer now := fun now heq => hask ⟨now, heq⟩
    obtain ⟨hasked, hrung⟩ := step_asked hask' hstep
    cases hplace : op.places w.manager with
    | none =>
      have hq := quiet_step hg had hplace hask' hrun
      rw [← hclock] at hq
      refine ⟨hinv, fun a ha => (hq.later a ha).2.2, ?_, ?_⟩
      · rw [hrung, hq.fronts_eq]
        exact hg.rung_le
      · rw [hasked, hrung, hq.tickled_eq, hq.fronts_eq]
        exact hg.rung_lt
    | some p =>
      have hp := placed_step hg had hplace hrun
      rw [← hclock] at hp
      have hfronts := hp.fronts_eq
      have hle := hg.rung_le
      refine ⟨hinv, ?_, by omega, ?_⟩
      · intro b hb
        by_cases hba : b = p.1
        · rw [hba]
          exact hp.started
        · have hb' : b ∈ w.manager.timers := ((hp.mem_iff b).mp hb).resolve_left hba
          have hle : w.clock ≤ w'.clock := by rw [hclock]; exact Nat.le_max_left _ _
          exact (later_of_at_eq hg hle hb' (hp.at_of_ne b hba)).2.2
      · rw [hasked, hrung]
        intro hsome htick
        -- a clear flag that is set now has been counted
        cases hold : w.manager.tickled with
        | true =>
          have hlt := hg.rung_lt hsome hold
          omega
        | false =>
          rw [if_pos ⟨htick, hold⟩] at hfronts
          omega

/-- In a good state only `m_tickled` is left to say. -/
theorem Good.noLostWakeup_iff (hg : Good w) : NoLostWakeup w ↔ ∀ ds, w.asked = some ds →
    (∃ a ∈ w.manager.timers, ∀ d ∈ ds, w.manager.deadline a < d) → w.manager.tickled = true := by
  constructor
  · intro h ds hds hnear
    exact (h ds hds hnear).1
  · intro h ds hds hnear
    have htick := h ds hds hnear
    exact ⟨htick, hg.rung_lt (by rw [hds]; rfl) htick⟩

/-- Right after `getNextTimer` no pending timer is nearer than itself. -/
theorem noLostWakeup_getNextTimer {now : UInt64} (hstep : w.step (.getNextTimer now) = .ok w') :
    NoLostWakeup w' := by
  obtain ⟨hm, hasked, -⟩ := step_getNextTimer hstep
  intro ds hds hnear
  rw [hasked] at hds
  cases hds
  obtain ⟨a, ha, hlt⟩ := hnear
  rw [hm] at ha hlt
  have hself := hlt (w.manager.deadline a) (List.mem_map_of_mem ha)
  exact absurd hself (Nat.lt_irrefl _)

/-- A step keeps the law exactly when it announces what it must. -/
theorem noLostWakeup_step (hg : Good w) (hno : NoLostWakeup w) (had : op.Admitted w)
    (hstep : w.step op = .ok w') : NoLostWakeup w' ↔ op.Announces w := by
  have hg' := hg.step had hstep
  obtain ⟨hrun, -⟩ := step_manager hstep
  by_cases hask : ∃ now, op = .getNextTimer now
  · obtain ⟨now, rfl⟩ := hask
    refine ⟨fun _ a d hplace => ?_, fun _ => noLostWakeup_getNextTimer hstep⟩
    cases hplace
  have hask' : ∀ now, op ≠ .getNextTimer now := fun now heq => hask ⟨now, heq⟩
  obtain ⟨hasked, -⟩ := step_asked hask' hstep
  rw [hg'.noLostWakeup_iff, hasked]
  cases hplace : op.places w.manager with
  | none =>
    have hq := quiet_step hg had hplace hask' hrun
    refine ⟨fun _ a d hsome => ?_, fun _ ds hds hnear => ?_⟩
    · rw [hplace] at hsome
      cases hsome
    · obtain ⟨a, ha, hlt⟩ := hnear
      obtain ⟨ha', hle, -⟩ := hq.later a ha
      rw [hq.tickled_eq]
      exact (hno ds hds ⟨a, ha', fun d hd => Nat.lt_of_le_of_lt hle (hlt d hd)⟩).1
  | some p =>
    have hp := placed_step hg had hplace hrun
    constructor
    · intro h a d hsome ds hds hnear hclear
      rw [hplace] at hsome
      cases hsome
      -- the timer just placed is the near one
      have htick := h ds hds ⟨a, (hp.mem_iff a).mpr (Or.inl rfl), by rw [hp.deadline_self]; exact hnear⟩
      rcases hp.announced.mp htick with hold | hlow
      · rw [hclear] at hold
        cases hold
      · exact hlow
    · intro h ds hds hnear
      obtain ⟨b, hb, hlt⟩ := hnear
      rw [hp.announced]
      by_cases hclear : w.manager.tickled = true
      · exact Or.inl hclear
      have hfalse : w.manager.tickled = false := by simpa using hclear
      -- a near timer that was there before would have been announced already
      by_cases hba : b = p.1
      · rw [hba, hp.deadline_self] at hlt
        exact Or.inr (h p.1 p.2 hplace ds hds hlt hfalse)
      · have hb' : b ∈ w.manager.timers := ((hp.mem_iff b).mp hb).resolve_left hba
        have hd : w'.manager.deadline b = w.manager.deadline b := by
          simp only [TimerManager.deadline, hp.at_of_ne b hba]
        rw [hd] at hlt
        exact Or.inl (hno ds hds ⟨b, hb', hlt⟩).1

end

/-- The states of every run in which each step announces what it must: the operations of any threads
in any order, at addresses of any order. -/
inductive Watched : Watch → Prop where
  | new (now : UInt64) : Watched (Watch.new now)
  | step {w w' : Watch} (op : Op) : Watched w → op.Admitted w → op.Announces w →
      w.step op = .ok w' → Watched w'

theorem good_new (now : UInt64) : Good (Watch.new now) := by
  refine ⟨inv_new now, ?_, Nat.le_refl _, ?_⟩
  · intro a ha
    cases ha
  · intro hsome
    cases hsome

theorem Watched.good {w : Watch} (h : Watched w) : Good w ∧ NoLostWakeup w := by
  induction h with
  | new now =>
    refine ⟨good_new now, ?_⟩
    intro ds hds
    cases hds
  | step op _ had hann hstep ih =>
    exact ⟨ih.1.step had hstep, (noLostWakeup_step ih.1 ih.2 had hstep).mpr hann⟩

/-- **No lost wake-up**: in every run whose steps announce what they must, every state has announced
a timer that is nearer than those the idle loop was told of; and the first step that does not
announce it leaves it unannounced. -/
theorem no_lost_wakeup (w : Watch) (h : Watched w) :
    NoLostWakeup w ∧ ∀ op w', op.Admitted w → w.step op = .ok w' → (NoLostWakeup w' ↔ op.Announces w) :=
  ⟨h.good.2, fun _ _ had hstep => noLostWakeup_step h.good.1 h.good.2 had hstep⟩

/-- A timer of 1000 ms at address `a` is pending when the idle loop asks. -/
def asleep (a : Nat) : Watch where
  manager := ((new 100).addTimer a 1000 (some 1) false 100).getNextTimer 100 |>.2
  clock := 100
  asked := some [1100]
  rung := 1

theorem admitted_addTimer {w : Watch} {a : Nat} {ms now : UInt64} {cb : Option Nat} {recurring : Bool}
    (ha : w.manager.heap a = none) (hwrap : now.toNat + ms.toNat < 2 ^ 64) :
    (Op.addTimer a ms cb recurring now).Admitted w := ⟨ha, trivial, hwrap⟩

theorem admitted_getNextTimer {w : Watch} {now : UInt64} (hnow : w.clock ≤ now.toNat) :
    (Op.getNextTimer now).Admitted w := by
  refine ⟨trivial, ?_, trivial⟩
  intro n hn
  cases hn
  exact hnow

theorem watched_asleep : Watched (asleep 32) := by
  refine ((Watched.new 100).step (.addTimer 32 1000 (some 1) false 100)
    (admitted_addTimer rfl (by decide)) ?_ rfl).step (.getNextTimer 100)
    (admitted_getNextTimer (by decide)) ?_ rfl
  · intro a d _ ds hds
    cases hds
  · intro a d hplace
    cases hplace

/-- A timer of 10 ms at a lower address is announced. -/
theorem wakeup_announced :
    ∃ w, (asleep 32).step (.addTimer 16 10 (some 2) false 100) = .ok w ∧ NoLostWakeup w ∧
      w.manager.deadline 16 = 110 ∧ w.manager.tickled = true := by
  refine ⟨_, rfl, ?_, by rfl, by rfl⟩
  refine ((no_lost_wakeup (asleep 32) watched_asleep).2 (.addTimer 16 10 (some 2) false 100) _
    (admitted_addTimer rfl (by decide)) rfl).mpr ?_
  intro a d hplace ds hds hnear hclear b hb hba
  cases hplace
  obtain rfl := List.mem_singleton.mp (show b ∈ [32] from hb)
  decide

/-- A timer of 10 ms at a higher address is not. -/
theorem wakeup_lost :
    ∃ w₁ w₂ w₃,
      (Op.addTimer 16 1000 (some 1) false 100).Admitted (Watch.new 100) ∧
      (Watch.new 100).step (.addTimer 16 1000 (some 1) false 100) = .ok w₁ ∧
      (Op.getNextTimer 100).Admitted w₁ ∧ w₁.step (.getNextTimer 100) = .ok w₂ ∧
      (Op.addTimer 32 10 (some 2) false 100).Admitted w₂ ∧
      w₂.step (.addTimer 32 10 (some 2) false 100) = .ok w₃ ∧
      w₃.manager.deadline 32 = 110 ∧ w₃.manager.tickled = false ∧ ¬ NoLostWakeup w₃ := by
  refine ⟨_, _, _, admitted_addTimer rfl (by decide), rfl, admitted_getNextTimer (by decide), rfl,
    admitted_addTimer rfl (by decide), rfl, by rfl, by rfl, ?_⟩
  intro hno
  have hlost := hno [1100] rfl ⟨32, by decide, by decide⟩
  exact absurd hlost.1 (by decide)

end Sylar.Timer
