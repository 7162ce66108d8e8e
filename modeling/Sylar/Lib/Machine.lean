import Mathlib.Data.List.Basic
import Mathlib.Data.List.Induction

/- Deterministic machines: a step takes an input and a state to an output and the
   next state, a run folds it over a list of inputs.

   `final_inv` is the invariant rule over whole runs (an invariant of the first
   state that every admitted step keeps holds at the end), and `trace_eq_of_sim`
   the lockstep simulation rule (two machines whose related states answer alike
   and stay related have the same trace). `trace_eq_iff` compares two traces answer by
   answer.

   A partial machine has steps that are not always possible. `Reached` are the states
   of its runs in which every step meets a condition, `Reached.inv` is the invariant
   rule for them, `after_variant` the rule for steps that take something off a measure,
   and `after_iff` the rule for a record that the steps keep: when it is as it should
   be, step by step. -/
namespace Sylar.Lib

variable {ι ο σ τ : Type}

/-- The outputs of a run. -/
def trace (step : ι → σ → ο × σ) : List ι → σ → List ο
  | [], _ => []
  | i :: rest, s => (step i s).1 :: trace step rest (step i s).2

/-- The state a run ends in. -/
def final (step : ι → σ → ο × σ) : List ι → σ → σ
  | [], s => s
  | i :: rest, s => final step rest (step i s).2

/-- The invariant rule: `ok` says which inputs the run may take in which state. -/
theorem final_inv {step : ι → σ → ο × σ} {ok : ι → Prop} {P : σ → Prop}
    (hstep : ∀ i s, ok i → P s → P (step i s).2) :
    ∀ (ops : List ι) (s : σ), (∀ i ∈ ops, ok i) → P s → P (final step ops s)
  | [], _, _, h => h
  | i :: rest, s, hok, h =>
    final_inv hstep rest _ (fun j hj => hok j (List.mem_cons_of_mem i hj))
      (hstep i s (hok i List.mem_cons_self) h)

/-- The simulation rule. -/
theorem trace_eq_of_sim {step₁ : ι → σ → ο × σ} {step₂ : ι → τ → ο × τ} (ok : ι → Prop)
    {R : σ → τ → Prop}
    (hstep : ∀ i s t, ok i → R s t →
      (step₁ i s).1 = (step₂ i t).1 ∧ R (step₁ i s).2 (step₂ i t).2) :
    ∀ (ops : List ι) (s : σ) (t : τ), (∀ i ∈ ops, ok i) → R s t →
      trace step₁ ops s = trace step₂ ops t
  | [], _, _, _, _ => rfl
  | i :: rest, s, t, hok, h => by
    obtain ⟨hout, hnext⟩ := hstep i s t (hok i List.mem_cons_self) h
    simp only [trace, hout]
    rw [trace_eq_of_sim ok hstep rest _ _ (fun j hj => hok j (List.mem_cons_of_mem i hj)) hnext]

/-- Two machines have the same trace when after every part of the run they answer the next input alike. -/
theorem trace_eq_iff {step₁ : ι → σ → ο × σ} {step₂ : ι → τ → ο × τ} (ops : List ι) (s : σ) (t : τ) :
    trace step₁ ops s = trace step₂ ops t ↔
      ∀ pre i post, ops = pre ++ i :: post →
        (step₁ i (final step₁ pre s)).1 = (step₂ i (final step₂ pre t)).1 := by
  induction ops generalizing s t with
  | nil => simp [trace]
  | cons op rest ih =>
    rw [trace, trace, List.cons.injEq, ih]
    constructor
    · intro h pre i post heq
      cases pre with
      | nil =>
        obtain ⟨rfl, rfl⟩ : op = i ∧ rest = post := by simpa using heq
        exact h.1
      | cons x pre =>
        obtain ⟨rfl, hrest⟩ : op = x ∧ rest = pre ++ i :: post := by simpa using heq
        exact h.2 pre i post hrest
    · intro h
      refine ⟨h [] op rest rfl, ?_⟩
      intro pre i post heq
      exact h (op :: pre) i post (by rw [heq]; rfl)

/-! ## Partial machines -/

/-- The states of every run from `s₀` whose steps meet `ok`. -/
inductive Reached (step : σ → ι → Option σ) (ok : σ → ι → Prop) (s₀ : σ) : σ → Prop where
  | start : Reached step ok s₀ s₀
  | step {s s' : σ} (i : ι) : Reached step ok s₀ s → ok s i → step s i = some s' → Reached step ok s₀ s'

/-- The invariant rule for partial machines. -/
theorem Reached.inv {step : σ → ι → Option σ} {ok : σ → ι → Prop} {s₀ s : σ} {P : σ → Prop}
    (hstart : P s₀) (hstep : ∀ s i s', P s → ok s i → step s i = some s' → P s')
    (h : Reached step ok s₀ s) : P s := by
  induction h with
  | start => exact hstart
  | step i _ hok heq ih => exact hstep _ i _ ih hok heq

/-- A run given as a list of inputs. -/
def after (step : σ → ι → Option σ) : List ι → σ → Option σ
  | [], s => some s
  | i :: rest, s => (step s i).bind (after step rest)

theorem after_append (step : σ → ι → Option σ) (acts more : List ι) (s : σ) :
    after step (acts ++ more) s = (after step acts s).bind (after step more) := by
  induction acts generalizing s with
  | nil => rfl
  | cons i rest ih =>
    rw [List.cons_append, after, after, Option.bind_assoc]
    congr 1
    funext t
    exact ih t

/-- A run and one more step. -/
theorem after_concat {step : σ → ι → Option σ} {acts : List ι} {i : ι} {s s' : σ} :
    after step (acts ++ [i]) s = some s' ↔ ∃ t, after step acts s = some t ∧ step t i = some s' := by
  simp [after_append, after, Option.bind_eq_some_iff]

/-- A property of each input and what came before it, for one more input. -/
theorem forall_split_concat {α : Type} {l : List α} {a : α} {Q : List α → α → Prop} :
    (∀ pre x post, l ++ [a] = pre ++ x :: post → Q pre x) ↔
      (∀ pre x post, l = pre ++ x :: post → Q pre x) ∧ Q l a := by
  constructor
  · intro h
    refine ⟨?_, h l a [] rfl⟩
    intro pre x post heq
    exact h pre x (post ++ [a]) (by simp [heq])
  · rintro ⟨hinit, hlast⟩ pre x post heq
    -- the input is the last one, or one of those before it
    rcases List.eq_nil_or_concat post with hnil | ⟨post, y, hpost⟩
    · rw [hnil] at heq
      obtain ⟨rfl, hax⟩ := List.append_inj' heq rfl
      cases hax
      exact hlast
    · rw [hpost, List.concat_eq_append, ← List.cons_append, ← List.append_assoc] at heq
      exact hinit pre x post (List.append_inj' heq rfl).1

/-- What a state says of the whole run: where a step adds what `ok` says of it to `P`, the run has `P`
when each of its steps meets `ok`. `I` is an invariant. -/
theorem after_iff {step : σ → ι → Option σ} {ok : σ → ι → Prop} {I P : σ → Prop} {s₀ : σ} (hI : I s₀) (hP : P s₀)
    (hkeep : ∀ s i s', I s → step s i = some s' → I s')
    (hstep : ∀ s i s', I s → step s i = some s' → (P s' ↔ P s ∧ ok s i)) {acts : List ι} {s : σ}
    (h : after step acts s₀ = some s) :
    P s ↔ ∀ pre i post t, acts = pre ++ i :: post → after step pre s₀ = some t → ok t i := by
  have hboth : I s ∧ (P s ↔ ∀ pre i post t, acts = pre ++ i :: post → after step pre s₀ = some t → ok t i) := by
    induction acts using List.reverseRecOn generalizing s with
    | nil =>
      cases h
      simp [hI, hP]
    | append_singleton acts i ih =>
      obtain ⟨t, ht, hlast⟩ := after_concat.mp h
      obtain ⟨hIt, hPt⟩ := ih ht
      refine ⟨hkeep t i s hIt hlast, ?_⟩
      have hlastOk : (∀ u, after step acts s₀ = some u → ok u i) ↔ ok t i := by
        simp [ht]
      rw [hstep t i s hIt hlast, hPt, ← hlastOk]
      have hsplit := forall_split_concat (l := acts) (a := i)
        (Q := fun pre j => ∀ u, after step pre s₀ = some u → ok u j)
      constructor
      · rintro ⟨hrun, hok⟩ pre j post u heq hu
        exact hsplit.mpr ⟨fun pre j post heq u => hrun pre j post u heq, hok⟩ pre j post heq u hu
      · intro hrun
        obtain ⟨hinit, hok⟩ := hsplit.mp fun pre j post heq u => hrun pre j post u heq
        exact ⟨fun pre j post u heq => hinit pre j post heq u, hok⟩
  exact hboth.2

theorem Reached.after {step : σ → ι → Option σ} {ok : σ → ι → Prop} (hok : ∀ s i, ok s i) {s₀ s s' : σ}
    (h : Reached step ok s₀ s) (acts : List ι) (heq : Lib.after step acts s = some s') :
    Reached step ok s₀ s' := by
  induction acts generalizing s with
  | nil => cases heq; exact h
  | cons i rest ih =>
    rw [Lib.after, Option.bind_eq_some_iff] at heq
    obtain ⟨t, ht, hrest⟩ := heq
    exact ih (h.step i (hok s i) ht) hrest

/-- A run given as a list of inputs, each checked against the condition before it is taken. -/
theorem Reached.checked {step : σ → ι → Option σ} {ok : σ → ι → Prop} [∀ s i, Decidable (ok s i)] {s₀ s s' : σ}
    (h : Reached step ok s₀ s) (acts : List ι)
    (heq : Lib.after (fun s i => if ok s i then step s i else none) acts s = some s') :
    Reached step ok s₀ s' := by
  induction acts generalizing s with
  | nil => cases heq; exact h
  | cons i rest ih =>
    rw [Lib.after, Option.bind_eq_some_iff] at heq
    obtain ⟨t, ht, hrest⟩ := heq
    by_cases hok : ok s i
    · rw [if_pos hok] at ht
      exact ih (h.step i hok ht) hrest
    · rw [if_neg hok] at ht
      cases ht

end Sylar.Lib
