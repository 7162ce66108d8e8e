import Mathlib.Data.List.Basic
import Sylar.Timer.Handles

/- Which timers `listExpiredCb` fires.

   It erases everything before the lower bound of a temporary timer for `now_ms`, and
   then on over timers for exactly `now_ms`. The set being in the order of addresses,
   that is: the timers below the temporary one in memory, whatever their deadlines, and
   the row of timers for `now_ms` right above it (`mem_expired_iff`); nothing at all when
   the timer at the lowest address is not due. So a timer fires early, fires late or is
   cut off by where the allocator put the objects, and `exact_expiry_iff` says for which
   addresses and deadlines exactly the due timers fire.

   What becomes of a timer that fires does not depend on that: the loop clears its
   callback or starts its period anew (`expireAll_at_mem`, `mem_expireAll_iff`). -/
namespace Sylar.Timer
open Sylar.Lib

/-! ## What becomes of the timers that fire -/

/-- A timer after it fired. -/
def afterFiring (now_ms : UInt64) (t : Timer) : Timer :=
  if t.recurring then { t with next := now_ms + t.ms } else { t with cb := none }

section
variable {s : TimerManager} {now_ms : UInt64}

theorem expire_at_self (a : Nat) : (s.expire now_ms a).2.at a = afterFiring now_ms (s.at a) := by
  unfold TimerManager.expire afterFiring
  dsimp only
  split
  · exact at_put_self s a _
  · exact at_put_self s a _

theorem mem_expire_iff {a b : Nat} :
    b ∈ (s.expire now_ms a).2.timers ↔ (b = a ∧ (s.at a).recurring = true) ∨ b ∈ s.timers := by
  unfold TimerManager.expire
  dsimp only
  cases hr : (s.at a).recurring with
  | true =>
    simp only [if_true, less_eq, and_true]
    exact OrderedSet.mem_insert byAddress_strict a _ b
  | false => simp

/-- Each timer that fires is written once. -/
theorem expireAll_at_mem {b : Nat} : ∀ (l : List Nat) (s : TimerManager), l.Nodup → b ∈ l →
    (s.expireAll now_ms l).2.at b = afterFiring now_ms (s.at b) := by
  intro l
  induction l with
  | nil => intro s _ hb; cases hb
  | cons a rest ih =>
    intro s hl hb
    obtain ⟨ha, hrest⟩ := List.nodup_cons.mp hl
    rcases List.mem_cons.mp hb with rfl | hb
    · exact (expireAll_at_of_not_mem rest _ ha).trans (expire_at_self b)
    · have hba : b ≠ a := fun heq => ha (heq ▸ hb)
      have hkept : (s.expire now_ms a).2.at b = s.at b := expire_at_of_ne hba
      rw [← hkept]
      exact ih _ hrest hb

/-- Recurring timers are put back, and the others are not. -/
theorem mem_expireAll_iff {b : Nat} : ∀ (l : List Nat) (s : TimerManager), l.Nodup →
    (b ∈ (s.expireAll now_ms l).2.timers ↔ (b ∈ l ∧ (s.at b).recurring = true) ∨ b ∈ s.timers) := by
  intro l
  induction l with
  | nil => intro s _; simp [TimerManager.expireAll]
  | cons a rest ih =>
    intro s hl
    obtain ⟨ha, hrest⟩ := List.nodup_cons.mp hl
    have hkept : b ∈ rest → (s.expire now_ms a).2.at b = s.at b := by
      intro hb
      exact expire_at_of_ne fun heq => ha (heq ▸ hb)
    show b ∈ ((s.expire now_ms a).2.expireAll now_ms rest).2.timers ↔ _
    rw [ih _ hrest, mem_expire_iff, List.mem_cons]
    constructor
    · intro h
      rcases h with ⟨hb, hr⟩ | ⟨rfl, hr⟩ | hb
      · rw [hkept hb] at hr
        exact Or.inl ⟨Or.inr hb, hr⟩
      · exact Or.inl ⟨Or.inl rfl, hr⟩
      · exact Or.inr hb
    · intro h
      rcases h with ⟨rfl | hb, hr⟩ | hb
      · exact Or.inr (Or.inl ⟨rfl, hr⟩)
      · refine Or.inl ⟨hb, ?_⟩
        rw [hkept hb]
        exact hr
      · exact Or.inr (Or.inr hb)

/-- A timer that fires. -/
theorem listExpiredCb_at_mem (h : Inv s) {tmp a : Nat} (ha : a ∈ s.expired now_ms tmp) :
    (s.listExpiredCb now_ms tmp).2.at a = afterFiring now_ms (s.at a) := by
  obtain ⟨p, rest, -, hrun⟩ := listExpiredCb_eq s now_ms tmp
  rw [hrun]
  exact expireAll_at_mem _ { s with previousTime := p, timers := rest } (h.expired_nodup now_ms tmp) ha

/-- It is pending afterwards exactly when it is recurring. -/
theorem mem_listExpiredCb_iff (h : Inv s) {tmp a : Nat} (ha : a ∈ s.expired now_ms tmp) :
    a ∈ (s.listExpiredCb now_ms tmp).2.timers ↔ (s.at a).recurring = true := by
  obtain ⟨p, rest, hs, hrun⟩ := listExpiredCb_eq s now_ms tmp
  have hout : a ∉ rest := by
    have hall := OrderedSet.nodup_of_sorted byAddress_strict h.sorted
    rw [hs] at hall
    intro hrest
    exact (List.nodup_append.mp hall).2.2 a ha a hrest rfl
  rw [hrun, mem_expireAll_iff _ _ (h.expired_nodup now_ms tmp)]
  constructor
  · intro hor
    rcases hor with ⟨-, hr⟩ | hrest
    · exact hr
    · exact absurd hrest hout
  · intro hr
    exact Or.inl ⟨ha, hr⟩

end

/-! ## Which timers fire -/

/-- `m_next` of the timer has come. -/
def TimerManager.Due (s : TimerManager) (now_ms : UInt64) (a : Nat) : Prop := (s.at a).next ≤ now_ms

instance (s : TimerManager) (now_ms : UInt64) (a : Nat) : Decidable (s.Due now_ms a) :=
  inferInstanceAs (Decidable ((s.at a).next ≤ now_ms))

section
variable {s : TimerManager} {now_ms : UInt64} {tmp : Nat}

/-- The temporary timer is in nobody's place. -/
theorem Inv.ne_of_free (h : Inv s) (htmp : s.heap tmp = none) {a : Nat} (ha : a ∈ s.timers) : a ≠ tmp := by
  intro heq
  have hsome := h.exists_of_mem a ha
  rw [heq, htmp] at hsome
  cases hsome

theorem Inv.exists_lowest (h : Inv s) {a : Nat} (ha : a ∈ s.timers) :
    ∃ low ∈ s.timers, ∀ c ∈ s.timers, low ≤ c := by
  cases hs : s.timers with
  | nil =>
    rw [hs] at ha
    cases ha
  | cons low rest =>
    have hlow := h.lowest hs
    rw [hs] at hlow
    exact ⟨low, List.mem_cons_self, hlow⟩

/-- What is erased: the timers below the temporary one, and above it those in a row for `now_ms`. -/
theorem mem_take_expiredCount (h : Inv s) (htmp : s.heap tmp = none) {a : Nat} :
    a ∈ s.timers.take (s.expiredCount now_ms tmp false) ↔
      a ∈ s.timers ∧ (a < tmp ∨ ∀ b ∈ s.timers, tmp < b → b ≤ a → (s.at b).next = now_ms) := by
  have hdrop : OrderedSet.Sorted byAddress (s.timers.drop (OrderedSet.lowerBound byAddress tmp s.timers)) :=
    OrderedSet.sorted_of_sublist h.sorted (List.drop_sublist _ _)
  have hnext : ∀ b ∈ s.timers, ((s.put tmp { next := now_ms }).at b).next = (s.at b).next := by
    intro b hb
    rw [at_put_of_ne (h.ne_of_free htmp hb)]
  simp only [TimerManager.expiredCount, less_eq, put_timers, Bool.false_eq_true, if_false]
  rw [List.take_add, List.mem_append, OrderedSet.mem_take_lowerBound byAddress_strict h.sorted,
    ← List.prefix_iff_eq_take.mp (List.takeWhile_prefix _), OrderedSet.mem_takeWhile byAddress_strict _ hdrop]
  simp only [OrderedSet.mem_drop_lowerBound byAddress_strict h.sorted, byAddress, decide_eq_true_eq,
    decide_eq_false_iff_not, Nat.not_lt]
  constructor
  · intro hmem
    rcases hmem with ⟨ha, hlt⟩ | ⟨⟨ha, -⟩, hrow⟩
    · exact ⟨ha, Or.inl hlt⟩
    · refine ⟨ha, Or.inr ?_⟩
      intro b hb htb hba
      rw [← hnext b hb]
      exact hrow b ⟨hb, Nat.le_of_lt htb⟩ hba
  · intro hmem
    obtain ⟨ha, hor⟩ := hmem
    by_cases hlt : a < tmp
    · exact Or.inl ⟨ha, hlt⟩
    · refine Or.inr ⟨⟨ha, by omega⟩, ?_⟩
      intro b hb hba
      rw [hnext b hb.1]
      have hne := h.ne_of_free htmp hb.1
      exact hor.resolve_left hlt b hb.1 (by omega) hba

theorem expired_cons {first : Nat} {rest : List Nat} (hs : s.timers = first :: rest)
    (hroll : (s.detectClockRollover now_ms).1 = false) :
    s.expired now_ms tmp =
      if s.Due now_ms first then s.timers.take (s.expiredCount now_ms tmp false) else [] := by
  have hnot : (s.at first).next > now_ms ↔ ¬ s.Due now_ms first := UInt64.not_le.symm
  have hunfold : s.expired now_ms tmp =
      if (s.detectClockRollover now_ms).1 = false ∧ (s.at first).next > now_ms then []
      else s.timers.take (s.expiredCount now_ms tmp (s.detectClockRollover now_ms).1) := by
    obtain ⟨heap, timers, tickled, previousTime, fronts⟩ := s
    subst hs
    rfl
  rw [hunfold, hroll]
  by_cases hdue : s.Due now_ms first
  · rw [if_neg (fun hc => hnot.mp hc.2 hdue), if_pos hdue]
  · rw [if_pos ⟨rfl, hnot.mpr hdue⟩, if_neg hdue]

/-- Without a rollover, nothing fires unless the timer at the lowest address is due, and then what was
erased fires. -/
theorem mem_expired_iff (h : Inv s) (htmp : s.heap tmp = none)
    (hroll : (s.detectClockRollover now_ms).1 = false) {a : Nat} :
    a ∈ s.expired now_ms tmp ↔
      a ∈ s.timers ∧ (∀ b ∈ s.timers, (∀ c ∈ s.timers, b ≤ c) → s.Due now_ms b) ∧
        (a < tmp ∨ ∀ b ∈ s.timers, tmp < b → b ≤ a → (s.at b).next = now_ms) := by
  cases hs : s.timers with
  | nil =>
    constructor
    · intro ha
      rw [← hs]
      have hmem := mem_of_mem_expired ha
      rw [hs] at hmem
      cases hmem
    · intro ha
      cases ha.1
  | cons first rest =>
    have hfirst : first ∈ s.timers := by simp [hs]
    have hlow := h.lowest hs
    have hdue : (∀ b ∈ s.timers, (∀ c ∈ s.timers, b ≤ c) → s.Due now_ms b) ↔ s.Due now_ms first := by
      constructor
      · intro hall
        exact hall first hfirst hlow
      · intro hd b hb hb'
        have hbf : b = first := Nat.le_antisymm (hb' first hfirst) (hlow b hb)
        rw [hbf]
        exact hd
    rw [← hs, expired_cons hs hroll, hdue]
    by_cases hd : s.Due now_ms first
    · rw [if_pos hd, mem_take_expiredCount h htmp]
      simp [hd]
    · rw [if_neg hd]
      simp [hd]

end

/-! ## Exact expiry -/

/-- `listExpiredCb` at `now_ms`, its temporary timer at `tmp`, appends the callbacks of the pending timers
that are due, each once, and fires no other; those that do not recur are out and without their callback, the
recurring ones are pending for one period from now, and those that are not due are pending as they were. -/
structure ExactExpiry (s : TimerManager) (now_ms : UInt64) (tmp : Nat) : Prop where
  callbacks : (s.listExpiredCb now_ms tmp).1.Perm
    ((s.timers.filter fun a => s.Due now_ms a).map fun a => (s.at a).cb)
  fired : ∀ a ∈ s.timers, a ∈ s.expired now_ms tmp ↔ s.Due now_ms a
  single : ∀ a ∈ s.timers, s.Due now_ms a → (s.at a).recurring = false →
    a ∉ (s.listExpiredCb now_ms tmp).2.timers ∧ ((s.listExpiredCb now_ms tmp).2.at a).cb = none
  recurring : ∀ a ∈ s.timers, s.Due now_ms a → (s.at a).recurring = true →
    a ∈ (s.listExpiredCb now_ms tmp).2.timers ∧
      ((s.listExpiredCb now_ms tmp).2.at a).next = now_ms + (s.at a).ms
  later : ∀ a ∈ s.timers, ¬ s.Due now_ms a →
    a ∈ (s.listExpiredCb now_ms tmp).2.timers ∧ (s.listExpiredCb now_ms tmp).2.at a = s.at a

/-- Nothing is due; or every pending timer below the temporary one in memory is due, and for a due one above it
the pending timers from there up to it are all for exactly `now_ms`. -/
def ProbeDivides (s : TimerManager) (now_ms : UInt64) (tmp : Nat) : Prop :=
  (∀ a ∈ s.timers, ¬ s.Due now_ms a) ∨
    ∀ a ∈ s.timers, (a < tmp → s.Due now_ms a) ∧
      (tmp < a → s.Due now_ms a → ∀ b ∈ s.timers, tmp < b → b ≤ a → (s.at b).next = now_ms)

section
variable {s : TimerManager} {now_ms : UInt64} {tmp : Nat}

/-- Once the timers that fire are the due ones, the rest follows from what becomes of them. -/
theorem exactExpiry_of_fired (h : Inv s) (hfired : ∀ a ∈ s.timers, a ∈ s.expired now_ms tmp ↔ s.Due now_ms a) :
    ExactExpiry s now_ms tmp := by
  have hperm : (s.expired now_ms tmp).Perm (s.timers.filter fun a => s.Due now_ms a) := by
    rw [List.perm_ext_iff_of_nodup (h.expired_nodup now_ms tmp)
      ((OrderedSet.nodup_of_sorted byAddress_strict h.sorted).filter _)]
    intro a
    rw [List.mem_filter, decide_eq_true_eq]
    constructor
    · intro ha
      have hmem := mem_of_mem_expired ha
      exact ⟨hmem, (hfired a hmem).mp ha⟩
    · intro ha
      exact (hfired a ha.1).mpr ha.2
  refine ⟨?_, hfired, ?_, ?_, ?_⟩
  · rw [listExpiredCb_reports h]
    exact hperm.map _
  · intro a ha hdue hr
    have hexp := (hfired a ha).mpr hdue
    rw [mem_listExpiredCb_iff h hexp, listExpiredCb_at_mem h hexp, afterFiring, hr]
    simp
  · intro a ha hdue hr
    have hexp := (hfired a ha).mpr hdue
    rw [mem_listExpiredCb_iff h hexp, listExpiredCb_at_mem h hexp, afterFiring, hr]
    simp
  · intro a ha hdue
    have hexp : a ∉ s.expired now_ms tmp := fun hexp => hdue ((hfired a ha).mp hexp)
    exact ⟨(mem_expired_or_listExpiredCb tmp ha).resolve_left hexp, listExpiredCb_at_of_not_mem hexp⟩

/-- When exactly the due timers fire, the probe divides them. -/
theorem probeDivides_of_fired (h : Inv s) (htmp : s.heap tmp = none)
    (hroll : (s.detectClockRollover now_ms).1 = false)
    (hfired : ∀ a ∈ s.timers, a ∈ s.expired now_ms tmp ↔ s.Due now_ms a) : ProbeDivides s now_ms tmp := by
  by_cases hnone : ∀ a ∈ s.timers, ¬ s.Due now_ms a
  · exact Or.inl hnone
  · right
    -- some timer is due, so the one at the lowest address is
    have hlowest : ∀ b ∈ s.timers, (∀ c ∈ s.timers, b ≤ c) → s.Due now_ms b := by
      simp only [not_forall, not_not] at hnone
      obtain ⟨d, hd, hdue⟩ := hnone
      exact ((mem_expired_iff h htmp hroll).mp ((hfired d hd).mpr hdue)).2.1
    intro a ha
    constructor
    · intro hlt
      exact (hfired a ha).mp ((mem_expired_iff h htmp hroll).mpr ⟨ha, hlowest, Or.inl hlt⟩)
    · intro hlt hdue
      have hexp := (mem_expired_iff h htmp hroll).mp ((hfired a ha).mpr hdue)
      exact hexp.2.2.resolve_left (by omega)

/-- The due timers are those that fire exactly when the temporary timer divides them from the others. -/
theorem fired_iff (h : Inv s) (htmp : s.heap tmp = none) (hroll : (s.detectClockRollover now_ms).1 = false) :
    (∀ a ∈ s.timers, a ∈ s.expired now_ms tmp ↔ s.Due now_ms a) ↔ ProbeDivides s now_ms tmp := by
  constructor
  · exact probeDivides_of_fired h htmp hroll
  · intro hdiv a ha
    obtain ⟨low, hlow, hleast⟩ := h.exists_lowest ha
    rw [mem_expired_iff h htmp hroll]
    rcases hdiv with hnone | hdiv
    · constructor
      · intro hexp
        exact absurd (hexp.2.1 low hlow hleast) (hnone low hlow)
      · intro hdue
        exact absurd hdue (hnone a ha)
    · have hat : ∀ b, (s.at b).next = now_ms → s.Due now_ms b := by
        intro b hb
        exact UInt64.le_of_eq hb
      constructor
      · intro hexp
        rcases hexp.2.2 with hlt | hrow
        · exact (hdiv a ha).1 hlt
        · have hne := h.ne_of_free htmp ha
          by_cases hlt : a < tmp
          · exact (hdiv a ha).1 hlt
          · exact hat a (hrow a ha (by omega) (Nat.le_refl a))
      · intro hdue
        refine ⟨ha, ?_, ?_⟩
        · intro b hb hb'
          have hne := h.ne_of_free htmp hb
          by_cases hlt : b < tmp
          · exact (hdiv b hb).1 hlt
          · have hba := hb' a ha
            exact hat b ((hdiv a ha).2 (by omega) hdue b hb (by omega) hba)
        · have hne := h.ne_of_free htmp ha
          by_cases hlt : a < tmp
          · exact Or.inl hlt
          · exact Or.inr ((hdiv a ha).2 (by omega) hdue)

end

/-- **Exact expiry**: in every state any sequence of operations reaches, at every reading of the clock that is
no rollover and for every address of the temporary timer, exactly the due timers fire exactly when the
temporary timer divides them from the others in memory. -/
theorem exact_expiry_iff (s : TimerManager) (h : Visited s) (now_ms : UInt64) (tmp : Nat)
    (htmp : s.heap tmp = none) (hroll : (s.detectClockRollover now_ms).1 = false) :
    ExactExpiry s now_ms tmp ↔ ProbeDivides s now_ms tmp := by
  rw [← fired_iff h.inv htmp hroll]
  constructor
  · intro hexact
    exact hexact.fired
  · intro hfired
    exact exactExpiry_of_fired h.inv hfired

/-- Behind it a timer of 1000 ms at address 24. -/
def twoTimers : TimerManager := oneTimer.addTimer 24 1000 (some 2) false 100

theorem visited_twoTimers : Visited twoTimers := by
  obtain ⟨now, hrun⟩ := visited_oneTimer
  exact ⟨now, hrun.tail ⟨.addTimer 24 1000 (some 2) false 100, trivial, by rfl, by rfl⟩⟩

/-- The timer of 10 ms at address 16 fires 10 ms later and the other does not, with the temporary timer between
them. -/
theorem exact_expiry_two : (twoTimers.listExpiredCb 110 20).1 = [some 1] ∧ ExactExpiry twoTimers 110 20 := by
  refine ⟨by rfl, (exact_expiry_iff twoTimers visited_twoTimers 110 20 (by rfl) (by rfl)).mpr (Or.inr ?_)⟩
  intro a ha
  have hmem : a ∈ [16, 24] := ha
  rw [List.mem_pair] at hmem
  rcases hmem with rfl | rfl
  · exact ⟨fun _ => by decide, fun hlt => absurd hlt (by decide)⟩
  · exact ⟨fun hlt => absurd hlt (by decide), fun _ hdue => absurd hdue (by decide)⟩

/-- With the temporary timer above both, the timer of 1000 ms fires 990 ms early; with it below both, the timer
of 10 ms does not fire at 111. -/
theorem exact_expiry_fails : Visited twoTimers ∧
    (twoTimers.listExpiredCb 110 32).1 = [some 1, some 2] ∧ ¬ ExactExpiry twoTimers 110 32 ∧
    (twoTimers.listExpiredCb 111 8).1 = [] ∧ ¬ ExactExpiry twoTimers 111 8 := by
  refine ⟨visited_twoTimers, by rfl, ?_, by rfl, ?_⟩
  · intro hexact
    exact absurd ((hexact.fired 24 (by decide)).mp (by decide)) (by decide)
  · intro hexact
    exact absurd ((hexact.fired 16 (by decide)).mpr (by decide)) (by decide)

end Sylar.Timer
