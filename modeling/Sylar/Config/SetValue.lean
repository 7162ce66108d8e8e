import Mathlib.Data.List.Basic
import Mathlib.Logic.Function.Basic

/- `ConfigVar::setValue` of `sylar/config.h`, called by any threads at any time.

   A call compares and runs the listeners under the read lock, then stores under the
   write lock; between the two it holds no lock. Readers may overlap, so listeners are
   called one at a time, and the calls of several threads mix. `received` is what each
   listener was given.

   Two calls that both find a change before either has stored give a listener two pairs
   with the same old value, and may store in the other order. Runs in which no call
   starts to notify before the last change is stored (`Alone`) keep listeners and value
   together (`updates_agree`). -/
namespace Sylar.Config

section
variable {α : Type}

/-- The value, and the ids of the listeners in the order of the map. -/
structure ConfigVar (α : Type) where
  val : α
  cbs : List Nat
  nodup : cbs.Nodup

/-- Where a thread is in `setValue`. -/
inductive Pc (α : Type) where
  | idle
  /-- Under the read lock, with these listeners still to call. -/
  | notify (v : α) (rest : List Nat)
  /-- Between the two locks. -/
  | store (v : α)

structure Sys (α : Type) where
  var : ConfigVar α
  /-- How many threads hold the read lock. -/
  readers : Nat
  threads : Nat → Pc α
  received : Nat → List (α × α)

def Sys.start (var : ConfigVar α) : Sys α where
  var := var
  readers := 0
  threads := fun _ => .idle
  received := fun _ => []

inductive Act (α : Type) where
  /-- `setValue(v)`: the read lock and the comparison. -/
  | setValue (i : Nat) (v : α)
  /-- `i.second(m_val, v)` for the next listener. -/
  | notify (i : Nat)
  /-- The end of the read lock. -/
  | unlock (i : Nat)
  /-- `m_val = v` under the write lock. -/
  | store (i : Nat)

def Sys.step [BEq α] (s : Sys α) : Act α → Option (Sys α)
  | .setValue i v =>
    match s.threads i with
    | .idle =>
      if v == s.var.val then some s
      else some { s with
        readers := s.readers + 1
        threads := Function.update s.threads i (.notify v s.var.cbs) }
    | _ => none
  | .notify i =>
    match s.threads i with
    | .notify v (l :: rest) => some { s with
        threads := Function.update s.threads i (.notify v rest)
        received := Function.update s.received l (s.received l ++ [(s.var.val, v)]) }
    | _ => none
  | .unlock i =>
    match s.threads i with
    | .notify v [] => some { s with
        readers := s.readers - 1
        threads := Function.update s.threads i (.store v) }
    | _ => none
  | .store i =>
    match s.threads i with
    | .store v =>
      if s.readers = 0 then some { s with
        var := { s.var with val := v }
        threads := Function.update s.threads i .idle }
      else none
    | _ => none

/-- The states of every run whose steps meet `ok`. -/
inductive Sys.Reached [BEq α] (ok : Sys α → Act α → Prop) (s₀ : Sys α) : Sys α → Prop where
  | start : Sys.Reached ok s₀ s₀
  | step {s s' : Sys α} (act : Act α) : Sys.Reached ok s₀ s → ok s act → s.step act = some s' →
      Sys.Reached ok s₀ s'

/-! ## The law -/

/-- The pairs lead from `a` to `b`. -/
def Chain (a b : α) : List (α × α) → Prop
  | [] => a = b
  | p :: rest => p.1 = a ∧ Chain p.2 b rest

/-- Every listener was last given the stored value, and its pairs lead to it from the first value. -/
def Agree (a : α) (s : Sys α) : Prop :=
  ∀ l ∈ s.var.cbs, (∀ p, (s.received l).getLast? = some p → p.2 = s.var.val) ∧
    Chain a s.var.val (s.received l)

/-- A call that finds a change finds no other between its comparison and its store. -/
def Alone [BEq α] (s : Sys α) : Act α → Prop
  | .setValue _ v => (v == s.var.val) = true ∨ ∀ j, s.threads j = .idle
  | _ => True

theorem Chain.snoc {a b : α} (c : α) : ∀ {ps : List (α × α)}, Chain a b ps → Chain a c (ps ++ [(b, c)])
  | [], h => ⟨h.symm, rfl⟩
  | _ :: _, h => ⟨h.1, Chain.snoc c h.2⟩

theorem Chain.last {a b : α} : ∀ {ps : List (α × α)}, Chain a b ps → ∀ p, ps.getLast? = some p → p.2 = b
  | [], _, _, hp => by cases hp
  | [_], h, _, hp => by
    cases hp
    exact h.2
  | _ :: q :: rest, h, p, hp => by
    rw [List.getLast?_cons_cons] at hp
    have htail : Chain _ b (q :: rest) := h.2
    exact htail.last p hp

/-! ## Runs without overlap -/

/-- At most one call is under way, and every listener has been led to the stored value, or to the
new one if the call has reached it. -/
inductive Phase (a : α) (s : Sys α) : Prop where
  | idle (hidle : ∀ j, s.threads j = .idle) (hchain : ∀ l ∈ s.var.cbs, Chain a s.var.val (s.received l))
  | notify (i : Nat) (v : α) (rest : List Nat) (hi : s.threads i = .notify v rest)
      (hothers : ∀ j, j ≠ i → s.threads j = .idle) (hnodup : rest.Nodup)
      (hrest : ∀ l ∈ rest, Chain a s.var.val (s.received l))
      (hdone : ∀ l ∈ s.var.cbs, l ∉ rest → Chain a v (s.received l))
  | store (i : Nat) (v : α) (hi : s.threads i = .store v) (hothers : ∀ j, j ≠ i → s.threads j = .idle)
      (hchain : ∀ l ∈ s.var.cbs, Chain a v (s.received l))

variable {a : α} {s s' : Sys α}

/-- In a state where all but `i` are idle, an active thread is `i`. -/
theorem active_eq {i j : Nat} (hothers : ∀ j, j ≠ i → s.threads j = .idle) (hj : s.threads j ≠ .idle) : j = i := by
  by_contra hne
  exact hj (hothers j hne)

theorem others_update {i : Nat} (pc : Pc α) (hothers : ∀ j, j ≠ i → s.threads j = .idle) :
    ∀ j, j ≠ i → Function.update s.threads i pc j = .idle := by
  intro j hj
  rw [Function.update_of_ne hj]
  exact hothers j hj

theorem Phase.setValue [BEq α] {i : Nat} {v : α} (h : Phase a s) (hok : Alone s (.setValue i v))
    (hstep : s.step (.setValue i v) = some s') : Phase a s' := by
  simp only [Sys.step] at hstep
  split at hstep
  · split at hstep
    · cases hstep
      exact h
    · rename_i hne
      cases hstep
      have hidle := hok.resolve_left hne
      cases h with
      | idle _ hchain =>
        refine .notify i v s.var.cbs (Function.update_self _ _ _) (others_update _ fun j _ => hidle j)
          s.var.nodup hchain ?_
        intro l hl hnot
        exact absurd hl hnot
      | notify j _ _ hj => rw [hidle j] at hj; cases hj
      | store j _ hj => rw [hidle j] at hj; cases hj
  · cases hstep

/-- A thread that notifies is the only one under way. -/
theorem Phase.of_notify {i : Nat} {v : α} {rest : List Nat} (h : Phase a s) (hi : s.threads i = .notify v rest) :
    (∀ j, j ≠ i → s.threads j = .idle) ∧ rest.Nodup ∧ (∀ l ∈ rest, Chain a s.var.val (s.received l)) ∧
      ∀ l ∈ s.var.cbs, l ∉ rest → Chain a v (s.received l) := by
  have hactive : s.threads i ≠ .idle := by rw [hi]; simp
  cases h with
  | idle hidle => exact absurd (hidle i) hactive
  | notify j w others hj hothers hnodup hrest hdone =>
    obtain rfl := active_eq hothers hactive
    rw [hi] at hj
    cases hj
    exact ⟨hothers, hnodup, hrest, hdone⟩
  | store j w hj hothers =>
    obtain rfl := active_eq hothers hactive
    rw [hi] at hj
    cases hj

/-- So is one that is about to store, and every listener has its value. -/
theorem Phase.of_store {i : Nat} {v : α} (h : Phase a s) (hi : s.threads i = .store v) :
    (∀ j, j ≠ i → s.threads j = .idle) ∧ ∀ l ∈ s.var.cbs, Chain a v (s.received l) := by
  have hactive : s.threads i ≠ .idle := by rw [hi]; simp
  cases h with
  | idle hidle => exact absurd (hidle i) hactive
  | notify j w others hj hothers =>
    obtain rfl := active_eq hothers hactive
    rw [hi] at hj
    cases hj
  | store j w hj hothers hchain =>
    obtain rfl := active_eq hothers hactive
    rw [hi] at hj
    cases hj
    exact ⟨hothers, hchain⟩

theorem Phase.notifyStep [BEq α] {i : Nat} (h : Phase a s) (hstep : s.step (.notify i) = some s') :
    Phase a s' := by
  simp only [Sys.step] at hstep
  split at hstep
  · rename_i v l rest hi
    cases hstep
    obtain ⟨hothers, hnodup, hrest, hdone⟩ := h.of_notify hi
    obtain ⟨hl, hnodup'⟩ := List.nodup_cons.mp hnodup
    refine .notify i v rest (Function.update_self _ _ _) (others_update _ hothers) hnodup' ?_ ?_
    · intro m hm
      -- each listener is called once, so those still to come have not moved
      have hml : m ≠ l := fun heq => hl (heq ▸ hm)
      show Chain a s.var.val (Function.update s.received l _ m)
      rw [Function.update_of_ne hml]
      exact hrest m (List.mem_cons_of_mem l hm)
    · intro m hm hnot
      show Chain a v (Function.update s.received l _ m)
      by_cases hml : m = l
      · subst hml
        rw [Function.update_self]
        exact (hrest m List.mem_cons_self).snoc v
      · rw [Function.update_of_ne hml]
        exact hdone m hm (fun hmem => (List.mem_cons.mp hmem).elim hml hnot)
  · cases hstep

theorem Phase.unlock [BEq α] {i : Nat} (h : Phase a s) (hstep : s.step (.unlock i) = some s') :
    Phase a s' := by
  simp only [Sys.step] at hstep
  split at hstep
  · rename_i v hi
    cases hstep
    obtain ⟨hothers, -, -, hdone⟩ := h.of_notify hi
    exact .store i v (Function.update_self _ _ _) (others_update _ hothers)
      (fun l hl => hdone l hl List.not_mem_nil)
  · cases hstep

theorem Phase.storeStep [BEq α] {i : Nat} (h : Phase a s) (hstep : s.step (.store i) = some s') :
    Phase a s' := by
  simp only [Sys.step] at hstep
  split at hstep
  · rename_i v hi
    rw [Option.ite_none_right_eq_some] at hstep
    obtain ⟨-, hstep⟩ := hstep
    cases hstep
    obtain ⟨hothers, hchain⟩ := h.of_store hi
    refine .idle ?_ hchain
    intro j
    by_cases hji : j = i
    · subst hji
      exact Function.update_self _ _ _
    · exact others_update _ hothers j hji
  · cases hstep

theorem Phase.step [BEq α] {act : Act α} (h : Phase a s) (hok : Alone s act) (hstep : s.step act = some s') :
    Phase a s' := by
  cases act with
  | setValue i v => exact h.setValue hok hstep
  | notify i => exact h.notifyStep hstep
  | unlock i => exact h.unlock hstep
  | store i => exact h.storeStep hstep

end

theorem Sys.Reached.phase {α : Type} [BEq α] {var : ConfigVar α} {s : Sys α}
    (h : Sys.Reached Alone (Sys.start var) s) : Phase var.val s := by
  induction h with
  | start => exact .idle (fun _ => rfl) (fun _ _ => rfl)
  | step act _ hok hstep ih => exact ih.step hok hstep

/-- **Updates and listeners agree**: in every run of any calls by any threads in which no call starts
to notify between the comparison and the store of another, whenever all calls have returned, each
listener was last given the stored value and its pairs lead to it from the first one. -/
theorem updates_agree {α : Type} [BEq α] (var : ConfigVar α) (s : Sys α)
    (h : Sys.Reached Alone (Sys.start var) s) (hreturned : ∀ i, s.threads i = .idle) : Agree var.val s := by
  cases h.phase with
  | idle _ hchain => exact fun l hl => ⟨(hchain l hl).last, hchain l hl⟩
  | notify i _ _ hi => rw [hreturned i] at hi; cases hi
  | store i _ hi => rw [hreturned i] at hi; cases hi

/-- A variable with one listener. -/
def watched : ConfigVar Nat where
  val := 0
  cbs := [1]
  nodup := by decide

/-- Two calls, one after the other. -/
theorem updates_agree_twice :
    ∃ s, Sys.Reached Alone (Sys.start watched) s ∧ s.received 1 = [(0, 5), (5, 7)] ∧ Agree 0 s := by
  have hrun : ∃ s, Sys.Reached Alone (Sys.start watched) s ∧ (∀ i, s.threads i = .idle) ∧
      s.received 1 = [(0, 5), (5, 7)] := by
    refine ⟨_, (((((((Sys.Reached.start.step (.setValue 3 5) (Or.inr fun _ => rfl) rfl).step (.notify 3)
      trivial rfl).step (.unlock 3) trivial rfl).step (.store 3) trivial rfl).step (.setValue 4 7)
      (Or.inr ?_) rfl).step (.notify 4) trivial rfl).step (.unlock 4) trivial rfl).step (.store 4) trivial
      rfl, ?_, rfl⟩
    · intro j
      by_cases hj : j = 3 <;> simp [Sys.start, Function.update, hj]
    · intro j
      by_cases hj : j = 3 <;> by_cases hj' : j = 4 <;> simp [Sys.start, Function.update, hj, hj']
  obtain ⟨s, hs, hidle, hreceived⟩ := hrun
  exact ⟨s, hs, hreceived, updates_agree watched s hs hidle⟩

/-- Two calls that both notify before either stores: the listener ends with 2, the variable with 1. -/
theorem updates_diverge :
    ∃ s, Sys.Reached (fun _ _ => True) (Sys.start watched) s ∧ (∀ i, s.threads i = .idle) ∧ s.var.val = 1 ∧
      s.received 1 = [(0, 1), (0, 2)] ∧ ¬ Agree 0 s := by
  have hrun : ∃ s, Sys.Reached (fun _ _ => True) (Sys.start watched) s ∧ (∀ i, s.threads i = .idle) ∧
      s.var.val = 1 ∧ s.received 1 = [(0, 1), (0, 2)] ∧ s.var.cbs = [1] := by
    refine ⟨_, (((((((Sys.Reached.start.step (.setValue 3 1) trivial rfl).step (.setValue 4 2) trivial
      rfl).step (.notify 3) trivial rfl).step (.notify 4) trivial rfl).step (.unlock 3) trivial rfl).step
      (.unlock 4) trivial rfl).step (.store 4) trivial rfl).step (.store 3) trivial rfl, ?_, rfl, rfl, rfl⟩
    intro j
    by_cases hj : j = 3 <;> by_cases hj' : j = 4 <;> simp [Sys.start, Function.update, hj, hj']
  obtain ⟨s, hs, hidle, hval, hreceived, hcbs⟩ := hrun
  refine ⟨s, hs, hidle, hval, hreceived, ?_⟩
  intro hagree
  have hlast := (hagree 1 (by rw [hcbs]; exact List.mem_singleton_self 1)).1 (0, 2) (by rw [hreceived]; rfl)
  rw [hval] at hlast
  cases hlast

end Sylar.Config
