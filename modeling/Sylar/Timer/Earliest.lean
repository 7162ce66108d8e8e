import Mathlib.Data.List.Basic
import Mathlib.Order.Bounds.Basic
import Mathlib.Data.Finset.Max
import Sylar.Timer.Basic

/- When `getNextTimer` answers for the earliest deadline.

   `Timer::Comparator` compares `lhs->m_next` with itself, so the set is ordered by
   address alone (`comparator_eq`), and its first element is the pending timer at the
   lowest address (`Inv`, kept by every operation). `getNextTimer` reads that one.
   `next_timer_iff` says exactly when its answer is the law's. -/
namespace Sylar.Timer
open Sylar.Lib

/-! ## The order of the set -/

/-- The comparison does not look at the deadlines. -/
theorem comparator_eq (next : Nat → UInt64) (a b : Nat) :
    comparator next (some a) (some b) = decide (a < b) := by
  have hirrefl : ¬ next a < next a := UInt64.lt_irrefl _
  unfold comparator
  dsimp only
  rw [if_neg hirrefl, if_neg hirrefl]

def byAddress (a b : Nat) : Bool := decide (a < b)

theorem less_eq (s : TimerManager) : s.less = byAddress := by
  funext a b
  exact comparator_eq _ a b

theorem byAddress_strict : OrderedSet.Strict byAddress where
  irrefl := by intro a; simp [byAddress]
  trans := by
    intro a b c hab hbc
    simp only [byAddress, decide_eq_true_eq] at *
    omega
  total := by
    intro a b hab hba
    simp only [byAddress, decide_eq_false_iff_not] at *
    omega

/-! ## The set in every reachable state -/

/-- The set is in the order of addresses, and every timer in it exists. -/
structure Inv (s : TimerManager) : Prop where
  sorted : OrderedSet.Sorted byAddress s.timers
  exists_of_mem : ∀ a ∈ s.timers, (s.heap a).isSome

section
variable {s : TimerManager} {a : Nat}

theorem inv_new (now : UInt64) : Inv (new now) := by
  refine ⟨List.Pairwise.nil, ?_⟩
  intro a ha
  cases ha

/-- Erasing leaves a set in order. -/
theorem Inv.sublist (h : Inv s) {l : List Nat} (hl : l.Sublist s.timers) :
    Inv { s with timers := l } :=
  ⟨OrderedSet.sorted_of_sublist h.sorted hl, fun a ha => h.exists_of_mem a (hl.subset ha)⟩

theorem Inv.put (h : Inv s) (t : Timer) : Inv (s.put a t) := by
  refine ⟨h.sorted, ?_⟩
  intro b hb
  show (Function.update s.heap a (some t) b).isSome
  by_cases hba : b = a
  · subst hba; rw [Function.update_self]; rfl
  · rw [Function.update_of_ne hba]; exact h.exists_of_mem b hb

theorem put_heap (s : TimerManager) (a : Nat) (t : Timer) : ((s.put a t).heap a).isSome := by
  show (Function.update s.heap a (some t) a).isSome
  rw [Function.update_self]
  rfl

theorem Inv.insert (h : Inv s) (ha : (s.heap a).isSome) :
    Inv { s with timers := OrderedSet.insert s.less a s.timers } := by
  rw [less_eq]
  refine ⟨OrderedSet.sorted_insert byAddress_strict a _ h.sorted, ?_⟩
  intro b hb
  rcases (OrderedSet.mem_insert byAddress_strict a s.timers b).mp hb with rfl | hb
  · exact ha
  · exact h.exists_of_mem b hb

theorem Inv.addLocked (h : Inv s) (ha : (s.heap a).isSome) : Inv (s.addLocked a) :=
  ⟨(h.insert ha).sorted, (h.insert ha).exists_of_mem⟩

theorem Inv.addTimer (h : Inv s) (ms : UInt64) (cb : Option Nat) (recurring : Bool) (now : UInt64) :
    Inv (s.addTimer a ms cb recurring now) :=
  (h.put _).addLocked (put_heap s a _)

theorem Inv.refresh (h : Inv s) (now : UInt64) : Inv (s.refresh a now).2 := by
  unfold TimerManager.refresh
  split
  · exact h
  · split
    · exact h
    · exact ((h.sublist (List.eraseIdx_sublist _ _)).put _).insert (put_heap _ a _)

theorem Inv.reset (h : Inv s) (ms : UInt64) (from_now : Bool) (now : UInt64) :
    Inv (s.reset a ms from_now now).2 := by
  unfold TimerManager.reset
  split
  · exact h
  · split
    · exact h
    · split
      · exact h
      · exact ((h.sublist (List.eraseIdx_sublist _ _)).put _).addLocked (put_heap _ a _)

/-- A pending timer is found, so `cancel` erases it. -/
theorem Inv.cancel (h : Inv s) (ha : a ∈ s.timers) :
    ∃ r s', s.cancel a = .ok (r, s') ∧ Inv s' := by
  obtain ⟨it, hfind, -⟩ := OrderedSet.find_of_mem byAddress_strict a s.timers h.sorted ha
  unfold TimerManager.cancel
  rw [less_eq, hfind]
  split
  · exact ⟨true, _, rfl, h.sublist (List.eraseIdx_sublist _ _)⟩
  · exact ⟨false, s, rfl, h⟩

theorem Inv.expire (h : Inv s) (now : UInt64) : Inv (s.expire now a).2 := by
  unfold TimerManager.expire
  dsimp only
  split
  · exact (h.put _).insert (put_heap s a _)
  · exact h.put _

/-- What one round of the loop of `listExpiredCb` keeps, the loop keeps. -/
theorem expireAll_keeps {now : UInt64} {P : TimerManager → Prop} (hstep : ∀ s a, P s → P (s.expire now a).2) :
    ∀ (expired : List Nat) (s : TimerManager), P s → P (s.expireAll now expired).2 := by
  intro expired
  induction expired with
  | nil => intro s h; exact h
  | cons a rest ih =>
    intro s h
    exact ih _ (hstep s a h)

theorem Inv.expireAll (now : UInt64) (expired : List Nat) (s : TimerManager) (h : Inv s) :
    Inv (s.expireAll now expired).2 :=
  expireAll_keeps (fun _ _ h => h.expire now) expired s h

theorem Inv.listExpiredCb (h : Inv s) (now : UInt64) (tmp : Nat) :
    Inv (s.listExpiredCb now tmp).2 := by
  unfold TimerManager.listExpiredCb
  split
  · exact h
  · have h' : Inv (s.detectClockRollover now).2 := ⟨h.sorted, h.exists_of_mem⟩
    dsimp only
    split
    · exact h'
    · exact Inv.expireAll now _ _ (h'.sublist (List.drop_sublist _ _))

theorem Inv.getNextTimer (h : Inv s) (now : UInt64) : Inv (s.getNextTimer now).2 := by
  have h' : Inv { s with tickled := false } := ⟨h.sorted, h.exists_of_mem⟩
  unfold TimerManager.getNextTimer
  dsimp only
  split
  · exact h'
  · split <;> exact h'

end

/-- The states of every sequence of operations: each new timer at an address not in use,
`refresh` and `reset` through any handle, `cancel` of pending timers, at any readings of the
clock. -/
inductive Reached : TimerManager → Prop where
  | new (now : UInt64) : Reached (new now)
  | addTimer {s : TimerManager} {a : Nat} (ms : UInt64) (cb : Option Nat) (recurring : Bool)
      (now : UInt64) : Reached s → s.heap a = none → Reached (s.addTimer a ms cb recurring now)
  | cancel {s s' : TimerManager} {a : Nat} {r : Bool} : Reached s → a ∈ s.timers →
      s.cancel a = .ok (r, s') → Reached s'
  | refresh {s : TimerManager} {a : Nat} (now : UInt64) : Reached s → (s.heap a).isSome →
      Reached (s.refresh a now).2
  | reset {s : TimerManager} {a : Nat} (ms : UInt64) (from_now : Bool) (now : UInt64) : Reached s →
      (s.heap a).isSome → Reached (s.reset a ms from_now now).2
  | listExpiredCb {s : TimerManager} {tmp : Nat} (now : UInt64) : Reached s → s.heap tmp = none →
      Reached (s.listExpiredCb now tmp).2
  | getNextTimer {s : TimerManager} (now : UInt64) : Reached s → Reached (s.getNextTimer now).2

theorem Reached.inv {s : TimerManager} (h : Reached s) : Inv s := by
  induction h with
  | new now => exact inv_new now
  | addTimer ms cb recurring now _ _ ih => exact ih.addTimer ms cb recurring now
  | cancel _ ha hrun ih =>
    obtain ⟨r', s'', hrun', hinv⟩ := ih.cancel ha
    rw [hrun] at hrun'
    cases hrun'
    exact hinv
  | refresh now _ _ ih => exact ih.refresh now
  | reset ms from_now now _ _ ih => exact ih.reset ms from_now now
  | listExpiredCb now _ _ ih => exact ih.listExpiredCb now _
  | getNextTimer now _ ih => exact ih.getNextTimer now

/-! ## The law -/

/-- `m_next` of a timer. -/
def TimerManager.deadline (s : TimerManager) (a : Nat) : Nat := (s.at a).next.toNat

/-- `getNextTimer` at `now` returns `~0ull` exactly when nothing is pending, and otherwise how
long it is to the least deadline. -/
def MeetsLaw (s : TimerManager) (now : UInt64) : Prop :=
  ((s.getNextTimer now).1 = noTimer ↔ s.timers = []) ∧
    ∀ m, IsLeast {n | ∃ a ∈ s.timers, s.deadline a = n} m →
      (s.getNextTimer now).1.toNat = m - now.toNat

/-- The pending timer at the lowest address is due or is the earliest, and its wait is not
the one that reads as `~0ull`. -/
def LowestIsEarliest (s : TimerManager) (now : UInt64) : Prop :=
  ∀ a ∈ s.timers, (∀ b ∈ s.timers, a ≤ b) →
    (s.deadline a ≤ now.toNat ∨ ∀ b ∈ s.timers, s.deadline a ≤ s.deadline b) ∧
      ¬ (now.toNat = 0 ∧ s.deadline a = 2 ^ 64 - 1)

section
variable {s : TimerManager} {now : UInt64}

theorem getNextTimer_cons (now : UInt64) {a : Nat} {rest : List Nat} (hs : s.timers = a :: rest) :
    (s.getNextTimer now).1.toNat = s.deadline a - now.toNat := by
  have hget : (s.getNextTimer now).1 =
      if now > (s.at a).next then 0 else (s.at a).next - now := by
    unfold TimerManager.getNextTimer
    dsimp only
    rw [hs]
    show (if now > (s.at a).next then ((0 : UInt64), _) else (_, _)).1 = _
    split <;> rfl
  rw [hget]
  by_cases hlt : now > (s.at a).next
  · have hnat : (s.at a).next.toNat < now.toNat := UInt64.lt_iff_toNat_lt.mp hlt
    rw [if_pos hlt]
    show 0 = s.deadline a - now.toNat
    unfold TimerManager.deadline
    omega
  · rw [if_neg hlt]
    exact UInt64.toNat_sub_of_le _ _ (UInt64.not_lt.mp hlt)

theorem deadline_lt (s : TimerManager) (a : Nat) : s.deadline a < 2 ^ 64 := UInt64.toNat_lt _

theorem eq_noTimer_iff (r : UInt64) : r = noTimer ↔ r.toNat = 2 ^ 64 - 1 := by
  rw [← UInt64.toNat_inj]
  exact Iff.rfl

/-- Two waits until `now` agree exactly when the times do or both have passed. -/
theorem wait_eq_iff {n m now : Nat} (h : m ≤ n) : n - now = m - now ↔ n ≤ now ∨ n = m := by
  omega

/-- The first timer of the set is the one at the lowest address. -/
theorem Inv.lowest {a : Nat} {rest : List Nat} (h : Inv s) (hs : s.timers = a :: rest) :
    ∀ b ∈ s.timers, a ≤ b := by
  intro b hb
  have hhead : s.timers.head? = some a := by rw [hs]; rfl
  rcases OrderedSet.head_le h.sorted hhead hb with rfl | hlt
  · exact Nat.le_refl _
  · simp only [byAddress, decide_eq_true_eq] at hlt
    omega

end

/-- **When `getNextTimer` keeps the law**: in every reachable state and at every reading of the
clock, exactly when the pending timer at the lowest address is due or the earliest, and does not
wait `~0ull`. -/
theorem next_timer_iff (s : TimerManager) (h : Reached s) (now : UInt64) :
    MeetsLaw s now ↔ LowestIsEarliest s now := by
  have hinv := h.inv
  cases hs : s.timers with
  | nil =>
    refine ⟨fun _ a ha => ?_, fun _ => ⟨?_, ?_⟩⟩
    · rw [hs] at ha; cases ha
    · have hr : (s.getNextTimer now).1 = noTimer := by
        unfold TimerManager.getNextTimer
        dsimp only
        rw [hs]
      exact ⟨fun _ => hs, fun _ => hr⟩
    · rintro m ⟨⟨a, ha, -⟩, -⟩
      rw [hs] at ha
      cases ha
  | cons a rest =>
    have ha : a ∈ s.timers := by rw [hs]; exact List.mem_cons_self
    have hlow := hinv.lowest hs
    have hr := getNextTimer_cons now hs
    have hlt := deadline_lt s a
    -- the answer reads as `~0ull` only for the last deadline at clock 0
    have hlast : (s.getNextTimer now).1 = noTimer ↔ now.toNat = 0 ∧ s.deadline a = 2 ^ 64 - 1 := by
      rw [eq_noTimer_iff, hr]
      omega
    have hne : s.timers ≠ [] := by rw [hs]; exact List.cons_ne_nil _ _
    constructor
    · rintro ⟨hnone, hmin⟩ b hb hb'
      have hba : b = a := Nat.le_antisymm (hb' a ha) (hlow b hb)
      subst hba
      refine ⟨?_, fun hcorner => hne (hnone.mp (hlast.mpr hcorner))⟩
      by_cases hdue : s.deadline b ≤ now.toNat
      · exact Or.inl hdue
      · right
        -- the least deadline is the one that was answered for
        obtain ⟨c, hc, hleast'⟩ := s.timers.toFinset.exists_min_image s.deadline
          ⟨b, List.mem_toFinset.mpr hb⟩
        rw [List.mem_toFinset] at hc
        have hleast : ∀ d ∈ s.timers, s.deadline c ≤ s.deadline d :=
          fun d hd => hleast' d (List.mem_toFinset.mpr hd)
        have hcb := hleast b hb
        have hm := hmin (s.deadline c) ⟨⟨c, hc, rfl⟩, by rintro n ⟨d, hd, rfl⟩; exact hleast d hd⟩
        rw [hr] at hm
        have heq := ((wait_eq_iff hcb).mp hm).resolve_left hdue
        intro d hd
        rw [heq]
        exact hleast d hd
    · intro hcond
      obtain ⟨hearly, hcorner⟩ := hcond a ha hlow
      refine ⟨⟨fun hr' => absurd (hlast.mp hr') hcorner, fun hnil => absurd hnil hne⟩, ?_⟩
      rintro m ⟨⟨c, hc, rfl⟩, hleast⟩
      have hca : s.deadline c ≤ s.deadline a := hleast ⟨a, ha, rfl⟩
      rw [hr, wait_eq_iff hca]
      rcases hearly with hdue | hmin
      · exact Or.inl hdue
      · exact Or.inr (Nat.le_antisymm (hmin c hc) hca)

/-- A timer of 10 ms at address 16 and one of 1000 ms at address 32, asked for 4 ms later. -/
theorem next_timer_two :
    ((((new 100).addTimer 16 10 (some 1) false 100).addTimer 32 1000 (some 2) false 100).getNextTimer
        104).1 = 6 ∧
      MeetsLaw (((new 100).addTimer 16 10 (some 1) false 100).addTimer 32 1000 (some 2) false 100)
        104 := by
  refine ⟨by rfl, (next_timer_iff _ (((Reached.new 100).addTimer 10 (some 1) false 100 rfl).addTimer 1000
    (some 2) false 100 rfl) 104).mpr ?_⟩
  intro a ha hlow
  have hmem : a ∈ [16, 32] := ha
  rw [List.mem_pair] at hmem
  rcases hmem with rfl | rfl
  · refine ⟨Or.inr ?_, by decide⟩
    intro b hb
    have hmem : b ∈ [16, 32] := hb
    rw [List.mem_pair] at hmem
    rcases hmem with rfl | rfl <;> decide
  · exact absurd (hlow 16 (by decide)) (by decide)

/-- A timer of 1000 ms at address 16 and one of 10 ms at address 32: the answer is 1000. -/
theorem next_timer_late :
    Reached (((new 100).addTimer 16 1000 (some 1) false 100).addTimer 32 10 (some 2) false 100) ∧
      ((((new 100).addTimer 16 1000 (some 1) false 100).addTimer 32 10 (some 2) false 100).getNextTimer
        100).1 = 1000 ∧
      ¬ MeetsLaw (((new 100).addTimer 16 1000 (some 1) false 100).addTimer 32 10 (some 2) false 100)
        100 := by
  refine ⟨((Reached.new 100).addTimer 1000 (some 1) false 100 rfl).addTimer 10 (some 2) false 100 rfl,
    by rfl, ?_⟩
  rintro ⟨-, hmin⟩
  have hm := hmin 110 ⟨⟨32, by decide, by rfl⟩, ?_⟩
  · exact absurd hm (by decide)
  · rintro n ⟨a, ha, rfl⟩
    have hmem : a ∈ [16, 32] := ha
    rw [List.mem_pair] at hmem
    rcases hmem with rfl | rfl <;> decide

end Sylar.Timer
