import Mathlib.Data.List.Basic
import Mathlib.Logic.Relation
import Sylar.Timer.Earliest

/- What `cancel`, `refresh` and `reset` do through a handle.

   Whether a timer is pending is written down twice, as membership in `m_timers` and as
   a callback in `m_cb`, and the two come apart: `cancel` leaves `m_cb` in place and does
   not look whether `find` found anything, a timer may be added with an empty callback,
   and `reset` to the same period returns before it looks at either. `works_iff` says of
   every call in every reachable state exactly when it keeps the contract.

   The address of an object may be given out again once the object is gone
   (`Op.release`); a run that keeps a handle never releases its timer. -/
namespace Sylar.Timer
open Sylar.Lib

/-! ## What one operation does -/

section
variable {s : TimerManager} {a : Nat}

@[simp] theorem put_timers (s : TimerManager) (a : Nat) (t : Timer) : (s.put a t).timers = s.timers := rfl

@[simp] theorem at_put_self (s : TimerManager) (a : Nat) (t : Timer) : (s.put a t).at a = t := by
  simp [TimerManager.at, TimerManager.put]

theorem heap_put_of_ne {b : Nat} (hb : b ≠ a) (t : Timer) : (s.put a t).heap b = s.heap b := by
  simp [TimerManager.put, Function.update_of_ne hb]

theorem isSome_put {b : Nat} (t : Timer) (hb : (s.heap b).isSome) : ((s.put a t).heap b).isSome := by
  by_cases hba : b = a
  · subst hba
    exact put_heap s b t
  · rw [heap_put_of_ne hba]
    exact hb

theorem at_put_of_ne {b : Nat} (hb : b ≠ a) (t : Timer) : (s.put a t).at b = s.at b := by
  simp only [TimerManager.at, heap_put_of_ne hb]

theorem Inv.find_none (h : Inv s) (ha : a ∉ s.timers) : OrderedSet.find s.less a s.timers = none := by
  rw [less_eq, OrderedSet.find_eq_none_iff byAddress_strict h.sorted]
  exact ha

theorem Inv.find_some (h : Inv s) (ha : a ∈ s.timers) :
    ∃ it, OrderedSet.find s.less a s.timers = some it ∧
      (∀ b, b ∈ s.timers.eraseIdx it ↔ b ∈ s.timers ∧ b ≠ a) ∧
      OrderedSet.insert byAddress a (s.timers.eraseIdx it) = s.timers := by
  rw [less_eq]
  obtain ⟨it, hfind, -⟩ := OrderedSet.find_of_mem byAddress_strict a s.timers h.sorted ha
  exact ⟨it, hfind, OrderedSet.mem_erase_found byAddress_strict h.sorted hfind,
    OrderedSet.insert_erase_found byAddress_strict h.sorted hfind⟩

/-- `cancel` fails, faults or takes the timer out. -/
theorem cancel_cases (h : Inv s) (a : Nat) :
    ((s.at a).cb = none ∧ s.cancel a = .ok (false, s)) ∨
    ((s.at a).cb.isSome ∧ a ∉ s.timers ∧ s.cancel a = .error .eraseEnd) ∨
    ((s.at a).cb.isSome ∧ a ∈ s.timers ∧ ∃ l, s.cancel a = .ok (true, { s with timers := l }) ∧
      l.Sublist s.timers ∧ ∀ b, b ∈ l ↔ b ∈ s.timers ∧ b ≠ a) := by
  unfold TimerManager.cancel
  cases hcb : (s.at a).cb with
  | none => exact Or.inl ⟨rfl, rfl⟩
  | some cb =>
    right
    by_cases ha : a ∈ s.timers
    · obtain ⟨it, hfind, hmem, -⟩ := h.find_some ha
      refine Or.inr ⟨rfl, ha, s.timers.eraseIdx it, ?_, List.eraseIdx_sublist _ _, hmem⟩
      simp [hfind]
    · refine Or.inl ⟨rfl, ha, ?_⟩
      simp [h.find_none ha]

/-- `refresh` moves the deadline of a pending timer with a callback. -/
theorem refresh_cases (h : Inv s) (a : Nat) (now : UInt64) :
    (¬ ((s.at a).cb.isSome ∧ a ∈ s.timers) ∧ s.refresh a now = (false, s)) ∨
    ((s.at a).cb.isSome ∧ a ∈ s.timers ∧
      s.refresh a now = (true, s.put a { s.at a with next := now + (s.at a).ms })) := by
  unfold TimerManager.refresh
  cases hcb : (s.at a).cb with
  | none => left; simp
  | some cb =>
    by_cases ha : a ∈ s.timers
    · -- taken out and put back, the timer is where it was
      obtain ⟨it, hfind, -, hback⟩ := h.find_some ha
      refine Or.inr ⟨rfl, ha, ?_⟩
      rw [hfind]
      dsimp only [Option.isNone_some, Bool.false_eq_true, if_false]
      rw [if_neg Bool.false_ne_true, less_eq, put_timers, hback]
      rfl
    · left
      simp [h.find_none ha, ha]

/-- The deadline of a timer whose period becomes `ms`. -/
def TimerManager.resetNext (s : TimerManager) (a : Nat) (ms : UInt64) (from_now : Bool) (now : UInt64) : UInt64 :=
  (if from_now then now else (s.at a).next - (s.at a).ms) + ms

/-- Inserting a timer that is in the set leaves the set as it is. -/
theorem addLocked_timers (h : Inv s) (ha : a ∈ s.timers) : (s.addLocked a).timers = s.timers := by
  show OrderedSet.insert s.less a s.timers = s.timers
  rw [less_eq]
  apply OrderedSet.eq_of_mem_iff byAddress_strict
    (OrderedSet.sorted_insert byAddress_strict a _ h.sorted) h.sorted
  intro b
  rw [OrderedSet.mem_insert byAddress_strict]
  constructor
  · rintro (rfl | hb)
    · exact ha
    · exact hb
  · exact Or.inr

/-- `reset` returns at once, fails, or moves the deadline of a pending timer and announces it. -/
theorem reset_cases (h : Inv s) (a : Nat) (ms : UInt64) (from_now : Bool) (now : UInt64) :
    ((ms = (s.at a).ms ∧ from_now = false) ∧ s.reset a ms from_now now = (true, s)) ∨
    (¬ (ms = (s.at a).ms ∧ from_now = false) ∧ ¬ ((s.at a).cb.isSome ∧ a ∈ s.timers) ∧
      s.reset a ms from_now now = (false, s)) ∨
    (¬ (ms = (s.at a).ms ∧ from_now = false) ∧ (s.at a).cb.isSome ∧ a ∈ s.timers ∧
      s.reset a ms from_now now =
        (true, (s.put a { s.at a with ms := ms, next := s.resetNext a ms from_now now }).addLocked a)) := by
  unfold TimerManager.reset
  by_cases hsame : ms = (s.at a).ms ∧ from_now = false
  · exact Or.inl ⟨hsame, if_pos hsame⟩
  · right
    rw [if_neg hsame]
    cases hcb : (s.at a).cb with
    | none => left; simp [hsame]
    | some cb =>
      by_cases ha : a ∈ s.timers
      · obtain ⟨it, hfind, -, hback⟩ := h.find_some ha
        refine Or.inr ⟨hsame, rfl, ha, ?_⟩
        rw [hfind]
        have hkeep : OrderedSet.insert byAddress a s.timers = s.timers := by
          have hadd := addLocked_timers h ha
          rw [← less_eq s]
          exact hadd
        simp only [Option.isNone_some, Bool.false_eq_true, if_false, TimerManager.addLocked, less_eq,
          put_timers, hback, hkeep, TimerManager.resetNext]
        rfl
      · left
        simp [h.find_none ha, ha, hsame]

end

/-- `getNextTimer` clears `m_tickled` and changes nothing else. -/
theorem getNextTimer_snd (s : TimerManager) (now : UInt64) :
    (s.getNextTimer now).2 = { s with tickled := false } := by
  unfold TimerManager.getNextTimer
  dsimp only
  split
  · rfl
  · split <;> rfl

/-! ## What `listExpiredCb` reports -/

/-- The timers `listExpiredCb` takes out and reports. -/
def TimerManager.expired (s : TimerManager) (now_ms : UInt64) (tmp : Nat) : List Nat :=
  match s.timers with
  | [] => []
  | first :: _ =>
    let (rollover, s) := s.detectClockRollover now_ms
    if rollover = false ∧ (s.at first).next > now_ms then []
    else s.timers.take (s.expiredCount now_ms tmp rollover)

/-- The loop of `listExpiredCb` runs over the expired timers, with the others left in the set. -/
theorem listExpiredCb_eq (s : TimerManager) (now_ms : UInt64) (tmp : Nat) :
    ∃ p rest, s.timers = s.expired now_ms tmp ++ rest ∧ s.listExpiredCb now_ms tmp =
      TimerManager.expireAll now_ms { s with previousTime := p, timers := rest } (s.expired now_ms tmp) := by
  obtain ⟨heap, timers, tickled, previousTime, fronts⟩ := s
  unfold TimerManager.listExpiredCb TimerManager.expired
  cases timers with
  | nil => exact ⟨previousTime, [], rfl, rfl⟩
  | cons first others =>
    dsimp only
    split
    · exact ⟨now_ms, first :: others, rfl, rfl⟩
    · exact ⟨now_ms, _, (List.take_append_drop _ _).symm, rfl⟩

/-- What the loop may do to an object: its period stays, and its deadline stays or, for a recurring
timer, is one period from now. -/
structure Expired (now_ms : UInt64) (t t' : Timer) : Prop where
  ms_eq : t'.ms = t.ms
  recurring_eq : t'.recurring = t.recurring
  next_cases : t'.next = t.next ∨ t.recurring = true ∧ t'.next = now_ms + t.ms

section
variable {s : TimerManager} {now_ms : UInt64}

theorem Expired.refl (t : Timer) : Expired now_ms t t := ⟨rfl, rfl, Or.inl rfl⟩

theorem Expired.trans {t t' t'' : Timer} (h : Expired now_ms t t') (h' : Expired now_ms t' t'') :
    Expired now_ms t t'' := by
  refine ⟨h'.ms_eq.trans h.ms_eq, h'.recurring_eq.trans h.recurring_eq, ?_⟩
  rcases h'.next_cases with hn | ⟨hr, hn⟩
  · rw [hn]
    exact h.next_cases
  · right
    rw [hn, h.ms_eq, ← h.recurring_eq]
    exact ⟨hr, rfl⟩

/-- One round of the loop writes the object and puts it back or not. -/
theorem expire_cases (s : TimerManager) (now_ms : UInt64) (a : Nat) :
    ∃ t l, s.expire now_ms a = ((s.at a).cb, { s.put a t with timers := l }) ∧
      Expired now_ms (s.at a) t ∧ (∀ b ∈ l, b = a ∨ b ∈ s.timers) ∧ ∀ b ∈ s.timers, b ∈ l := by
  unfold TimerManager.expire
  dsimp only
  split
  · rename_i hr
    refine ⟨_, _, rfl, ⟨rfl, rfl, Or.inr ⟨hr, rfl⟩⟩, ?_, ?_⟩
    · intro b hb
      rw [less_eq] at hb
      exact (OrderedSet.mem_insert byAddress_strict a _ b).mp hb
    · intro b hb
      rw [less_eq]
      exact (OrderedSet.mem_insert byAddress_strict a _ b).mpr (Or.inr hb)
  · exact ⟨_, s.timers, rfl, ⟨rfl, rfl, Or.inl rfl⟩, fun b hb => Or.inr hb, fun b hb => hb⟩

theorem expire_at_of_ne {a b : Nat} (hb : b ≠ a) : (s.expire now_ms a).2.at b = s.at b := by
  obtain ⟨t, l, hrun, -⟩ := expire_cases s now_ms a
  rw [hrun]
  exact at_put_of_ne hb t

theorem expire_at (a b : Nat) : Expired now_ms (s.at b) ((s.expire now_ms a).2.at b) := by
  by_cases hb : b = a
  · subst hb
    obtain ⟨t, l, hrun, ht, -⟩ := expire_cases s now_ms b
    have hat : (s.expire now_ms b).2.at b = t := by
      rw [hrun]
      exact at_put_self s b t
    rw [hat]
    exact ht
  · rw [expire_at_of_ne hb]
    exact Expired.refl _

theorem expire_heap {a b : Nat} (hb : (s.heap b).isSome) : ((s.expire now_ms a).2.heap b).isSome := by
  obtain ⟨t, l, hrun, -⟩ := expire_cases s now_ms a
  rw [hrun]
  exact isSome_put t hb

theorem mem_expire {a b : Nat} (hb : b ∈ (s.expire now_ms a).2.timers) : b = a ∨ b ∈ s.timers := by
  obtain ⟨t, l, hrun, -, hl, -⟩ := expire_cases s now_ms a
  rw [hrun] at hb
  exact hl b hb

theorem mem_expire_of_mem {a b : Nat} (hb : b ∈ s.timers) : b ∈ (s.expire now_ms a).2.timers := by
  obtain ⟨t, l, hrun, -, -, hl⟩ := expire_cases s now_ms a
  rw [hrun]
  exact hl b hb

theorem expireAll_at (b : Nat) (l : List Nat) (s : TimerManager) :
    Expired now_ms (s.at b) ((s.expireAll now_ms l).2.at b) := by
  apply expireAll_keeps (P := fun s' => Expired now_ms (s.at b) (s'.at b))
  · intro s' a h
    exact h.trans (expire_at a b)
  · exact Expired.refl _

theorem expireAll_at_of_not_mem {b : Nat} : ∀ (l : List Nat) (s : TimerManager), b ∉ l →
    (s.expireAll now_ms l).2.at b = s.at b := by
  intro l
  induction l with
  | nil => intro s _; rfl
  | cons a rest ih =>
    intro s hb
    rw [List.mem_cons, not_or] at hb
    exact (ih _ hb.2).trans (expire_at_of_ne hb.1)

theorem expireAll_heap {b : Nat} (l : List Nat) (s : TimerManager) (hb : (s.heap b).isSome) :
    ((s.expireAll now_ms l).2.heap b).isSome :=
  expireAll_keeps (P := fun s => (s.heap b).isSome) (fun _ _ hb => expire_heap hb) l s hb

theorem expireAll_heap_of_not_mem {b : Nat} : ∀ (l : List Nat) (s : TimerManager), b ∉ l →
    (s.expireAll now_ms l).2.heap b = s.heap b := by
  intro l
  induction l with
  | nil => intro s _; rfl
  | cons a rest ih =>
    intro s hb
    rw [List.mem_cons, not_or] at hb
    obtain ⟨t, l, hrun, -⟩ := expire_cases s now_ms a
    have hone : (s.expire now_ms a).2.heap b = s.heap b := by
      rw [hrun]
      exact heap_put_of_ne hb.1 t
    exact (ih _ hb.2).trans hone

/-- The loop announces nothing. -/
theorem expireAll_quiet (l : List Nat) (s : TimerManager) :
    (s.expireAll now_ms l).2.tickled = s.tickled ∧ (s.expireAll now_ms l).2.fronts = s.fronts := by
  apply expireAll_keeps (P := fun s' => s'.tickled = s.tickled ∧ s'.fronts = s.fronts)
  · intro s' a h
    obtain ⟨t, l, hrun, -⟩ := expire_cases s' now_ms a
    rw [hrun]
    exact h
  · exact ⟨rfl, rfl⟩

theorem mem_expireAll {b : Nat} : ∀ (l : List Nat) (s : TimerManager),
    b ∈ (s.expireAll now_ms l).2.timers → b ∈ l ∨ b ∈ s.timers := by
  intro l
  induction l with
  | nil => intro s hb; exact Or.inr hb
  | cons a rest ih =>
    intro s hb
    rcases ih _ hb with hb | hb
    · exact Or.inl (List.mem_cons_of_mem a hb)
    · rcases mem_expire hb with rfl | hb
      · exact Or.inl List.mem_cons_self
      · exact Or.inr hb

theorem mem_expireAll_of_mem {b : Nat} (l : List Nat) (s : TimerManager) (hb : b ∈ s.timers) :
    b ∈ (s.expireAll now_ms l).2.timers :=
  expireAll_keeps (P := fun s => b ∈ s.timers) (fun _ _ hb => mem_expire_of_mem hb) l s hb

/-- The callbacks appended are those of the timers taken out, as they were. -/
theorem expireAll_callbacks : ∀ (l : List Nat) (s : TimerManager), l.Nodup →
    (s.expireAll now_ms l).1 = l.map fun a => (s.at a).cb := by
  intro l
  induction l with
  | nil => intro s _; rfl
  | cons a rest ih =>
    intro s hl
    obtain ⟨ha, hrest⟩ := List.nodup_cons.mp hl
    have hcb : (s.expire now_ms a).1 = (s.at a).cb := by
      obtain ⟨t, l, hrun, -⟩ := expire_cases s now_ms a
      rw [hrun]
    have hsame : (rest.map fun b => ((s.expire now_ms a).2.at b).cb) = rest.map fun b => (s.at b).cb := by
      apply List.map_congr_left
      intro b hb
      have hba : b ≠ a := fun h => ha (h ▸ hb)
      rw [expire_at_of_ne hba]
    show (s.expire now_ms a).1 :: ((s.expire now_ms a).2.expireAll now_ms rest).1 = _
    rw [ih _ hrest, hsame, hcb]
    rfl

theorem listExpiredCb_at (s : TimerManager) (now_ms : UInt64) (tmp b : Nat) :
    Expired now_ms (s.at b) ((s.listExpiredCb now_ms tmp).2.at b) := by
  obtain ⟨p, rest, -, hrun⟩ := listExpiredCb_eq s now_ms tmp
  rw [hrun]
  exact expireAll_at b _ { s with previousTime := p, timers := rest }

theorem listExpiredCb_at_of_not_mem {tmp b : Nat} (hb : b ∉ s.expired now_ms tmp) :
    (s.listExpiredCb now_ms tmp).2.at b = s.at b := by
  obtain ⟨p, rest, -, hrun⟩ := listExpiredCb_eq s now_ms tmp
  rw [hrun]
  exact expireAll_at_of_not_mem _ { s with previousTime := p, timers := rest } hb

theorem listExpiredCb_heap {b : Nat} (tmp : Nat) (hb : (s.heap b).isSome) :
    ((s.listExpiredCb now_ms tmp).2.heap b).isSome := by
  obtain ⟨p, rest, -, hrun⟩ := listExpiredCb_eq s now_ms tmp
  rw [hrun]
  exact expireAll_heap _ { s with previousTime := p, timers := rest } hb

theorem listExpiredCb_quiet (s : TimerManager) (now_ms : UInt64) (tmp : Nat) :
    (s.listExpiredCb now_ms tmp).2.tickled = s.tickled ∧ (s.listExpiredCb now_ms tmp).2.fronts = s.fronts := by
  obtain ⟨p, rest, -, hrun⟩ := listExpiredCb_eq s now_ms tmp
  rw [hrun]
  exact expireAll_quiet _ { s with previousTime := p, timers := rest }

theorem mem_listExpiredCb {tmp b : Nat} (hb : b ∈ (s.listExpiredCb now_ms tmp).2.timers) : b ∈ s.timers := by
  obtain ⟨p, rest, hs, hrun⟩ := listExpiredCb_eq s now_ms tmp
  rw [hrun] at hb
  rw [hs, List.mem_append]
  exact mem_expireAll _ { s with previousTime := p, timers := rest } hb

/-- A pending timer is reported or stays pending. -/
theorem mem_expired_or_listExpiredCb {b : Nat} (tmp : Nat) (hb : b ∈ s.timers) :
    b ∈ s.expired now_ms tmp ∨ b ∈ (s.listExpiredCb now_ms tmp).2.timers := by
  obtain ⟨p, rest, hs, hrun⟩ := listExpiredCb_eq s now_ms tmp
  rw [hs, List.mem_append] at hb
  rcases hb with hb | hb
  · exact Or.inl hb
  · rw [hrun]
    exact Or.inr (mem_expireAll_of_mem _ { s with previousTime := p, timers := rest } hb)

theorem mem_of_mem_expired {tmp b : Nat} (hb : b ∈ s.expired now_ms tmp) : b ∈ s.timers := by
  obtain ⟨p, rest, hs, -⟩ := listExpiredCb_eq s now_ms tmp
  rw [hs]
  exact List.mem_append_left _ hb

theorem Inv.expired_nodup (h : Inv s) (now_ms : UInt64) (tmp : Nat) : (s.expired now_ms tmp).Nodup := by
  obtain ⟨p, rest, hs, -⟩ := listExpiredCb_eq s now_ms tmp
  have hall := OrderedSet.nodup_of_sorted byAddress_strict h.sorted
  rw [hs] at hall
  exact (List.nodup_append.mp hall).1

/-- `listExpiredCb` reports the callbacks of the timers `expired` names. -/
theorem listExpiredCb_reports (h : Inv s) (now_ms : UInt64) (tmp : Nat) :
    (s.listExpiredCb now_ms tmp).1 = (s.expired now_ms tmp).map fun a => (s.at a).cb := by
  obtain ⟨p, rest, hs, hrun⟩ := listExpiredCb_eq s now_ms tmp
  rw [hrun, expireAll_callbacks _ _ (h.expired_nodup now_ms tmp)]
  rfl

end

/-! ## Runs -/

/-- A call through a handle. -/
inductive Call where
  | cancel
  | refresh (now : UInt64)
  | reset (ms : UInt64) (from_now : Bool) (now : UInt64)
  deriving DecidableEq, Repr

def Call.run : Call → TimerManager → Nat → Except Fault (Bool × TimerManager)
  | .cancel, s, a => s.cancel a
  | .refresh now, s, a => .ok (s.refresh a now)
  | .reset ms from_now now, s, a => .ok (s.reset a ms from_now now)

/-- What may happen to the queue; `release` is the end of an object to which no handle and no
queue points. -/
inductive Op where
  | addTimer (a : Nat) (ms : UInt64) (cb : Option Nat) (recurring : Bool) (now : UInt64)
  | call (a : Nat) (c : Call)
  | getNextTimer (now : UInt64)
  | listExpiredCb (now : UInt64) (tmp : Nat)
  | release (a : Nat)
  deriving DecidableEq, Repr

def TimerManager.release (s : TimerManager) (a : Nat) : TimerManager :=
  { s with heap := Function.update s.heap a none }

def Op.step : Op → TimerManager → Except Fault TimerManager
  | .addTimer a ms cb recurring now, s => .ok (s.addTimer a ms cb recurring now)
  | .call a c, s => (c.run s a).map Prod.snd
  | .getNextTimer now, s => .ok (s.getNextTimer now).2
  | .listExpiredCb now tmp, s => .ok (s.listExpiredCb now tmp).2
  | .release a, s => .ok (s.release a)

/-- New objects are at free addresses, and calls go to objects that exist. -/
def Op.Enabled : Op → TimerManager → Prop
  | .addTimer a _ _ _ _, s => s.heap a = none
  | .call a _, s => (s.heap a).isSome
  | .getNextTimer _, _ => True
  | .listExpiredCb _ tmp, s => s.heap tmp = none
  | .release a, s => a ∉ s.timers

/-- One operation that `ok` admits. -/
def Steps (ok : Op → Prop) (s s' : TimerManager) : Prop :=
  ∃ op, ok op ∧ op.Enabled s ∧ op.step s = .ok s'

/-- Any number of operations that `ok` admits. -/
abbrev Runs (ok : Op → Prop) : TimerManager → TimerManager → Prop := Relation.ReflTransGen (Steps ok)

/-- The states of every sequence of operations, on any handles and at any readings of the clock,
up to the first fault. -/
def Visited (s : TimerManager) : Prop := ∃ now, Runs (fun _ => True) (new now) s

section
variable {s s' : TimerManager} {a : Nat} {c : Call} {ok : Op → Prop}

/-- A call leaves the queue as it was, takes its timer out, or moves its deadline. -/
theorem call_cases (h : Inv s) {r : Bool} (hrun : c.run s a = .ok (r, s')) :
    s' = s ∨ (c = .cancel ∧ ∃ l, s' = { s with timers := l } ∧ l.Sublist s.timers) ∨
      (a ∈ s.timers ∧ ∃ t, s' = s.put a t ∨ s' = (s.put a t).addLocked a) := by
  cases c with
  | cancel =>
    rcases cancel_cases h a with ⟨-, heq⟩ | ⟨-, -, heq⟩ | ⟨-, -, l, heq, hl, -⟩ <;>
      rw [Call.run, heq] at hrun <;> cases hrun
    · exact Or.inl rfl
    · exact Or.inr (Or.inl ⟨rfl, l, rfl, hl⟩)
  | refresh now =>
    rcases refresh_cases h a now with ⟨-, heq⟩ | ⟨-, ha, heq⟩ <;>
      rw [Call.run, heq] at hrun <;> cases hrun
    · exact Or.inl rfl
    · exact Or.inr (Or.inr ⟨ha, _, Or.inl rfl⟩)
  | reset ms from_now now =>
    rcases reset_cases h a ms from_now now with ⟨-, heq⟩ | ⟨-, -, heq⟩ | ⟨-, -, ha, heq⟩ <;>
      rw [Call.run, heq] at hrun <;> cases hrun
    · exact Or.inl rfl
    · exact Or.inl rfl
    · exact Or.inr (Or.inr ⟨ha, _, Or.inr rfl⟩)

theorem step_call (hrun : (Op.call a c).step s = .ok s') : ∃ r, c.run s a = .ok (r, s') := by
  simp only [Op.step] at hrun
  cases hc : c.run s a with
  | error e => rw [hc] at hrun; cases hrun
  | ok p =>
    rw [hc] at hrun
    cases hrun
    exact ⟨p.1, rfl⟩

theorem Inv.release (h : Inv s) (ha : a ∉ s.timers) : Inv (s.release a) := by
  refine ⟨h.sorted, ?_⟩
  intro b hb
  have hba : b ≠ a := fun heq => ha (heq ▸ hb)
  show (Function.update s.heap a none b).isSome
  rw [Function.update_of_ne hba]
  exact h.exists_of_mem b hb

theorem Inv.call (h : Inv s) {r : Bool} (hrun : c.run s a = .ok (r, s')) : Inv s' := by
  rcases call_cases h hrun with rfl | ⟨-, l, rfl, hl⟩ | ⟨ha, t, rfl | rfl⟩
  · exact h
  · exact h.sublist hl
  · exact h.put t
  · exact (h.put t).addLocked (put_heap s a t)

theorem Inv.step {op : Op} (h : Inv s) (hen : op.Enabled s) (hrun : op.step s = .ok s') : Inv s' := by
  cases op with
  | addTimer a ms cb recurring now => cases hrun; exact h.addTimer ms cb recurring now
  | call a c =>
    obtain ⟨r, hc⟩ := step_call hrun
    exact h.call hc
  | getNextTimer now => cases hrun; exact h.getNextTimer now
  | listExpiredCb now tmp => cases hrun; exact h.listExpiredCb now tmp
  | release a => cases hrun; exact h.release hen

theorem Runs.inv (h : Inv s) (hrun : Runs ok s s') : Inv s' := by
  induction hrun with
  | refl => exact h
  | tail _ hstep ih =>
    obtain ⟨op, -, hen, hop⟩ := hstep
    exact ih.step hen hop

theorem Visited.inv (h : Visited s) : Inv s := by
  obtain ⟨now, hrun⟩ := h
  exact Runs.inv (inv_new now) hrun

/-! ## Free addresses -/

/-- The objects are below some address. -/
def Bounded (s : TimerManager) : Prop := ∃ n, ∀ a, n ≤ a → s.heap a = none

theorem Bounded.put (h : Bounded s) (a : Nat) (t : Timer) : Bounded (s.put a t) := by
  obtain ⟨n, hn⟩ := h
  refine ⟨max n (a + 1), ?_⟩
  intro b hb
  rw [heap_put_of_ne (by omega)]
  exact hn b (by omega)

theorem Bounded.step {op : Op} (h : Bounded s) (hinv : Inv s) (hrun : op.step s = .ok s') : Bounded s' := by
  cases op with
  | addTimer a ms cb recurring now =>
    cases hrun
    exact h.put a _
  | call a c =>
    obtain ⟨r, hc⟩ := step_call hrun
    rcases call_cases hinv hc with rfl | ⟨-, l, rfl, -⟩ | ⟨-, t, rfl | rfl⟩
    · exact h
    · exact h
    · exact h.put a t
    · exact h.put a t
  | getNextTimer now =>
    cases hrun
    rw [getNextTimer_snd]
    exact h
  | listExpiredCb now tmp =>
    cases hrun
    obtain ⟨n, hn⟩ := h
    refine ⟨n, ?_⟩
    intro b hb
    obtain ⟨p, rest, -, hrun⟩ := listExpiredCb_eq s now tmp
    have hout : b ∉ s.expired now tmp := by
      intro hmem
      have hsome := hinv.exists_of_mem b (mem_of_mem_expired hmem)
      rw [hn b hb] at hsome
      cases hsome
    rw [hrun, expireAll_heap_of_not_mem _ _ hout]
    exact hn b hb
  | release a =>
    cases hrun
    obtain ⟨n, hn⟩ := h
    refine ⟨n, ?_⟩
    intro b hb
    by_cases hba : b = a
    · simp [TimerManager.release, hba]
    · simp only [TimerManager.release, Function.update_of_ne hba]
      exact hn b hb

/-- There is always room for another timer. -/
theorem Visited.exists_free (h : Visited s) : ∃ a, s.heap a = none := by
  obtain ⟨now, hrun⟩ := h
  have hboth : Inv s ∧ Bounded s := by
    induction hrun with
    | refl => exact ⟨inv_new now, 0, fun _ _ => rfl⟩
    | tail _ hstep ih =>
      obtain ⟨op, -, hen, hop⟩ := hstep
      exact ⟨ih.1.step hen hop, ih.2.step ih.1 hop⟩
  obtain ⟨n, hn⟩ := hboth.2
  exact ⟨n, hn n (Nat.le_refl n)⟩

/-! ## A timer that is out stays out -/

/-- The object exists and is not in the queue. -/
def Out (s : TimerManager) (a : Nat) : Prop := (s.heap a).isSome ∧ a ∉ s.timers

theorem mem_addLocked {b : Nat} : b ∈ (s.addLocked a).timers ↔ b = a ∨ b ∈ s.timers := by
  show b ∈ OrderedSet.insert s.less a s.timers ↔ _
  rw [less_eq]
  exact OrderedSet.mem_insert byAddress_strict a _ b

/-- An operation that does not release the object leaves it out of the queue. -/
theorem Out.step {op : Op} (h : Out s a) (hinv : Inv s) (hne : op ≠ .release a) (hen : op.Enabled s)
    (hrun : op.step s = .ok s') : Out s' a := by
  obtain ⟨hsome, hout⟩ := h
  cases op with
  | addTimer b ms cb recurring now =>
    cases hrun
    -- the new object is elsewhere, its address being free
    have hab : a ≠ b := by
      rintro rfl
      rw [Op.Enabled] at hen
      rw [hen] at hsome
      cases hsome
    refine ⟨isSome_put _ hsome, ?_⟩
    rw [TimerManager.addTimer, mem_addLocked]
    rintro (hb | hb)
    · exact hab hb
    · exact hout hb
  | call b c =>
    obtain ⟨r, hc⟩ := step_call hrun
    rcases call_cases hinv hc with rfl | ⟨-, l, rfl, hl⟩ | ⟨hb, t, rfl | rfl⟩
    · exact ⟨hsome, hout⟩
    · exact ⟨hsome, fun hmem => hout (hl.subset hmem)⟩
    · exact ⟨isSome_put t hsome, hout⟩
    · refine ⟨isSome_put t hsome, ?_⟩
      rw [addLocked_timers (hinv.put t) hb]
      exact hout
  | getNextTimer now =>
    cases hrun
    rw [getNextTimer_snd]
    exact ⟨hsome, hout⟩
  | listExpiredCb now tmp =>
    cases hrun
    exact ⟨listExpiredCb_heap tmp hsome, fun hmem => hout (mem_listExpiredCb hmem)⟩
  | release b =>
    cases hrun
    have hab : a ≠ b := by
      rintro rfl
      exact hne rfl
    refine ⟨?_, hout⟩
    show (Function.update s.heap b none a).isSome
    rw [Function.update_of_ne hab]
    exact hsome

theorem Out.runs (h : Out s a) (hinv : Inv s) (hrun : Runs (· ≠ .release a) s s') : Out s' a := by
  induction hrun with
  | refl => exact h
  | tail hprev hstep ih =>
    obtain ⟨op, hne, hen, hop⟩ := hstep
    exact ih.step (Runs.inv hinv hprev) hne hen hop

end

/-! ## The contract -/

/-- `s'` is `s` without the timer at `a`, which no later `listExpiredCb` reports. -/
structure Removed (s s' : TimerManager) (a : Nat) : Prop where
  heap_eq : s'.heap = s.heap
  mem_iff : ∀ b, b ∈ s'.timers ↔ b ∈ s.timers ∧ b ≠ a
  not_reported : ∀ s'', Runs (· ≠ .release a) s' s'' → ∀ now tmp, a ∉ s''.expired now tmp

/-- `s'` has the pending timers of `s`, and differs in the deadline and period of the one at `a`. -/
structure Moved (s s' : TimerManager) (a : Nat) : Prop where
  mem_iff : ∀ b, b ∈ s'.timers ↔ b ∈ s.timers
  others : ∀ b, b ≠ a → s'.heap b = s.heap b
  self : s'.at a = { s.at a with next := (s'.at a).next, ms := (s'.at a).ms }

/-- What a call that returns true has done. -/
def Call.Effect (c : Call) (s s' : TimerManager) (a : Nat) : Prop :=
  match c with
  | .cancel => Removed s s' a
  | .refresh _ => Moved s s' a ∧ (s'.at a).ms = (s.at a).ms
  | .reset _ _ _ => Moved s s' a

/-- The call does not fault, returns true exactly for a pending timer and then has its effect, and
otherwise changes nothing. -/
def Works (c : Call) (s : TimerManager) (a : Nat) : Prop :=
  ∃ r s', c.run s a = .ok (r, s') ∧ (r = true ↔ a ∈ s.timers) ∧ (r = false → s' = s) ∧
    (r = true → c.Effect s s' a)

/-- For `cancel`, the callback is there exactly while the timer is pending; for `refresh`, a pending
timer has a callback; for `reset` likewise, and a call that asks for the period the timer has, without
`from_now`, is on a pending timer. -/
def Agrees (c : Call) (s : TimerManager) (a : Nat) : Prop :=
  match c with
  | .cancel => (s.at a).cb.isSome ↔ a ∈ s.timers
  | .refresh _ => a ∈ s.timers → (s.at a).cb.isSome
  | .reset ms from_now _ =>
    if ms = (s.at a).ms ∧ from_now = false then a ∈ s.timers
    else a ∈ s.timers → (s.at a).cb.isSome

section
variable {s : TimerManager} {a : Nat}

/-- A call with the answer `false`. -/
theorem works_false {c : Call} (hrun : c.run s a = .ok (false, s)) : Works c s a ↔ a ∉ s.timers := by
  constructor
  · rintro ⟨r, s', hrun', htrue, -, -⟩ ha
    rw [hrun] at hrun'
    cases hrun'
    cases htrue.mpr ha
  · intro ha
    exact ⟨false, s, hrun, by simp [ha], fun _ => rfl, by simp⟩

/-- A call with the answer `true`. -/
theorem works_true {c : Call} {s' : TimerManager} (hrun : c.run s a = .ok (true, s'))
    (heff : a ∈ s.timers → c.Effect s s' a) : Works c s a ↔ a ∈ s.timers := by
  constructor
  · rintro ⟨r, s'', hrun', htrue, -, -⟩
    rw [hrun] at hrun'
    cases hrun'
    exact htrue.mp rfl
  · intro ha
    exact ⟨true, s', hrun, by simp [ha], by simp, fun _ => heff ha⟩

theorem moved_refl (s : TimerManager) (a : Nat) : Moved s s a := ⟨fun _ => Iff.rfl, fun _ _ => rfl, rfl⟩

theorem moved_put (ms next : UInt64) : Moved s (s.put a { s.at a with ms := ms, next := next }) a := by
  refine ⟨fun _ => Iff.rfl, fun b hb => heap_put_of_ne hb _, ?_⟩
  rw [at_put_self]

theorem moved_addLocked (h : Inv s) (ha : a ∈ s.timers) (ms next : UInt64) :
    Moved s ((s.put a { s.at a with ms := ms, next := next }).addLocked a) a := by
  have hm : Moved s (s.put a { s.at a with ms := ms, next := next }) a := moved_put ms next
  refine ⟨?_, hm.others, hm.self⟩
  rw [addLocked_timers (h.put _) ha]
  exact hm.mem_iff

theorem works_cancel (h : Inv s) (ha : (s.heap a).isSome) : Works .cancel s a ↔ Agrees .cancel s a := by
  simp only [Agrees]
  rcases cancel_cases h a with ⟨hcb, hrun⟩ | ⟨hcb, hout, hrun⟩ | ⟨hcb, hmem, l, hrun, hl, hiff⟩
  · rw [works_false (c := .cancel) hrun, hcb]
    simp
  · -- `erase(end())`: no result at all
    constructor
    · rintro ⟨r, s', hrun', -⟩
      rw [Call.run, hrun] at hrun'
      cases hrun'
    · intro hiff
      exact absurd (hiff.mp hcb) hout
  · rw [works_true (c := .cancel) hrun]
    · simp [hcb]
    · intro _
      refine ⟨rfl, hiff, ?_⟩
      intro s'' hlater now tmp hrep
      have hout : Out { s with timers := l } a := ⟨ha, fun hal => ((hiff a).mp hal).2 rfl⟩
      exact (hout.runs (h.sublist hl) hlater).2 (mem_of_mem_expired hrep)

theorem works_refresh (h : Inv s) (now : UInt64) :
    Works (.refresh now) s a ↔ Agrees (.refresh now) s a := by
  simp only [Agrees]
  rcases refresh_cases h a now with ⟨hno, hrun⟩ | ⟨hcb, hmem, hrun⟩
  · rw [works_false (c := .refresh now) (congrArg Except.ok hrun)]
    tauto
  · rw [works_true (c := .refresh now) (congrArg Except.ok hrun)]
    · tauto
    · intro _
      exact ⟨moved_put _ _, by rw [at_put_self]⟩

theorem works_reset (h : Inv s) (ms : UInt64) (from_now : Bool) (now : UInt64) :
    Works (.reset ms from_now now) s a ↔ Agrees (.reset ms from_now now) s a := by
  simp only [Agrees]
  rcases reset_cases h a ms from_now now with ⟨hsame, hrun⟩ | ⟨hsame, hno, hrun⟩ | ⟨hsame, hcb, hmem, hrun⟩
  · rw [if_pos hsame, works_true (c := .reset ms from_now now) (congrArg Except.ok hrun)]
    intro _
    exact moved_refl s a
  · rw [if_neg hsame, works_false (c := .reset ms from_now now) (congrArg Except.ok hrun)]
    tauto
  · rw [if_neg hsame, works_true (c := .reset ms from_now now) (congrArg Except.ok hrun)]
    · tauto
    · intro _
      exact moved_addLocked h hmem _ _

end

/-- **Timer handles**: in every state any sequence of operations reaches, a call through a handle keeps
the contract exactly when the two records of whether its timer is pending agree for it. -/
theorem works_iff (s : TimerManager) (h : Visited s) (a : Nat) (ha : (s.heap a).isSome) (c : Call) :
    Works c s a ↔ Agrees c s a := by
  cases c with
  | cancel => exact works_cancel h.inv ha
  | refresh now => exact works_refresh h.inv now
  | reset ms from_now now => exact works_reset h.inv ms from_now now

/-- One timer of 10 ms at address 16. -/
def oneTimer : TimerManager := (new 100).addTimer 16 10 (some 1) false 100

theorem visited_oneTimer : Visited oneTimer :=
  ⟨100, .single ⟨.addTimer 16 10 (some 1) false 100, trivial, rfl, rfl⟩⟩

/-- Cancelling a pending timer keeps the contract. -/
theorem works_once : Visited oneTimer ∧ (oneTimer.heap 16).isSome ∧ Works .cancel oneTimer 16 := by
  refine ⟨visited_oneTimer, by rfl, (works_iff oneTimer visited_oneTimer 16 (by rfl) .cancel).mpr ?_⟩
  exact ⟨fun _ => by decide, fun _ => by rfl⟩

/-- Cancelling it again erases the end of the set; and `reset` to the same period of a timer that
was cancelled returns true. -/
theorem cancel_twice :
    ∃ s, oneTimer.cancel 16 = .ok (true, s) ∧ Visited s ∧ (s.heap 16).isSome ∧
      s.cancel 16 = .error .eraseEnd ∧ ¬ Works .cancel s 16 ∧
      (s.reset 16 10 false 105).1 = true ∧ 16 ∉ s.timers ∧ ¬ Works (.reset 10 false 105) s 16 := by
  refine ⟨{ oneTimer with timers := [] }, by rfl, ?_, by rfl, by rfl, ?_, by rfl, by decide, ?_⟩
  · obtain ⟨now, hrun⟩ := visited_oneTimer
    exact ⟨now, hrun.tail ⟨.call 16 .cancel, trivial, by rfl, by rfl⟩⟩
  · rintro ⟨r, s', hrun, -⟩
    cases hrun
  · rintro ⟨r, s', hrun, htrue, -⟩
    cases hrun
    cases htrue.mp rfl

end Sylar.Timer
