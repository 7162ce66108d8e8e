import Mathlib.Data.List.Basic
import Mathlib.Data.List.TakeWhile

/- Deterministic automata with a dead state, run by `List.foldl`.

   A run is accepted when it does not end in the dead state, from which nothing leads
   away. `exists_run` splits the inputs of an accepted run where the automaton leaves a set
   of states; the splits of one state after another make the grammar of what is
   accepted. -/
namespace Sylar.Lib

section
variable {α σ : Type} {next : σ → α → σ} {dead : σ}

theorem foldl_dead (hdead : ∀ a, next dead a = dead) (xs : List α) : xs.foldl next dead = dead := by
  induction xs with
  | nil => rfl
  | cons x xs ih => rw [List.foldl_cons, hdead, ih]

/-- No step of an accepted run is dead. -/
theorem live_step (hdead : ∀ a, next dead a = dead) {s : σ} {x : α} {xs : List α}
    (h : (x :: xs).foldl next s ≠ dead) : next s x ≠ dead := by
  intro hx
  rw [List.foldl_cons, hx] at h
  exact h (foldl_dead hdead xs)

/-- The inputs up to the first one that is not in a class which keeps the automaton in a set of
states. -/
theorem exists_run (hdead : ∀ a, next dead a = dead) (inside : α → Bool) {T : σ → Prop}
    (hT : ∀ s a, T s → inside a = true → next s a ≠ dead → T (next s a)) : ∀ (xs : List α) (s : σ), T s →
    xs.foldl next s ≠ dead →
    ∃ run rest, xs = run ++ rest ∧ (∀ a ∈ run, inside a = true) ∧ T (run.foldl next s) ∧
      ∀ a more, rest = a :: more → inside a = false := by
  intro xs
  induction xs with
  | nil =>
    intro s hs _
    exact ⟨[], [], rfl, by simp, hs, by simp⟩
  | cons x xs ih =>
    intro s hs hlive
    cases hx : inside x with
    | false =>
      refine ⟨[], x :: xs, rfl, by simp, hs, ?_⟩
      intro a more heq
      cases heq
      exact hx
    | true =>
      have hnext := hT s x hs hx (live_step hdead hlive)
      obtain ⟨run, rest, rfl, hrun, hend, hrest⟩ := ih (next s x) hnext hlive
      exact ⟨x :: run, rest, rfl, List.forall_mem_cons.mpr ⟨hx, hrun⟩, hend, hrest⟩

/-- The inputs up to the first one that is not in a class which keeps the state. -/
theorem exists_run_stay (hdead : ∀ a, next dead a = dead) (inside : α → Bool) {s : σ}
    (hstay : ∀ a, inside a = true → next s a = s) {xs : List α} (h : xs.foldl next s ≠ dead) :
    ∃ run rest, xs = run ++ rest ∧ (∀ a ∈ run, inside a = true) ∧ xs.foldl next s = rest.foldl next s ∧
      ∀ a more, rest = a :: more → inside a = false := by
  have hT : ∀ t a, t = s → inside a = true → next t a ≠ dead → next t a = s := by
    rintro t a rfl ha _
    exact hstay a ha
  obtain ⟨run, rest, rfl, hrun, hend, hrest⟩ := exists_run hdead inside (T := fun t => t = s) hT xs s rfl h
  refine ⟨run, rest, rfl, hrun, ?_, hrest⟩
  rw [List.foldl_append, hend]

/-- What every input of an accepted run within a set of states has. -/
theorem forall_of_live (hdead : ∀ a, next dead a = dead) {T : σ → Prop} {P Q : α → Prop}
    (hT : ∀ s a, T s → P a → next s a ≠ dead → T (next s a) ∧ Q a) : ∀ {xs : List α} {s : σ}, T s →
    (∀ a ∈ xs, P a) → xs.foldl next s ≠ dead → ∀ a ∈ xs, Q a := by
  intro xs
  induction xs with
  | nil => simp
  | cons x xs ih =>
    intro s hs hP h
    obtain ⟨hx, hxs⟩ := List.forall_mem_cons.mp hP
    obtain ⟨hnext, hQ⟩ := hT s x hs hx (live_step hdead h)
    exact List.forall_mem_cons.mpr ⟨hQ, ih hnext hxs h⟩

end

end Sylar.Lib
