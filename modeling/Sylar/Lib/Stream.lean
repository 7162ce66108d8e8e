import Mathlib.Data.List.Basic

/- Consumers of a stream that arrives in pieces.

   `scan` folds a step that may stop over one piece and says how much of the piece
   was left when it stopped; `Yields P r` says that a computation that does not stop
   ends in a state with `P`, and `scan_yields` is the invariant rule. `Leads` is the
   other direction: given inputs do lead from one state to another, and a property
   holds at every state before the last. `feed` gives the pieces one after another to a
   consumer, until it has failed. `feed_eq_call` is the rule for a consumer whose
   answer is to depend on the bytes alone: when every cut between two pieces is
   seamless, the pieces have the effect of one call with all of them. -/
namespace Sylar.Lib

section
variable {ι σ ε : Type}

/-- Folds `step`; a stop comes with the number of inputs after the one it happened at. -/
def scan (step : ι → σ → Except ε σ) : List ι → σ → Except (ε × Nat) σ
  | [], s => .ok s
  | i :: rest, s =>
    match step i s with
    | .ok s => scan step rest s
    | .error e => .error (e, rest.length)

theorem scan_append (step : ι → σ → Except ε σ) (xs ys : List ι) (s : σ) :
    scan step (xs ++ ys) s =
      match scan step xs s with
      | .ok s => scan step ys s
      | .error (e, n) => .error (e, n + ys.length) := by
  induction xs generalizing s with
  | nil => rfl
  | cons i rest ih =>
    rw [List.cons_append, scan, scan]
    cases step i s with
    | ok s => exact ih s
    | error e => simp only [List.length_append]

/-- Partial correctness: a result, if there is one, has `P`. -/
def Yields {α : Type} (P : α → Prop) (r : Except ε α) : Prop := ∀ a, r = .ok a → P a

@[simp] theorem yields_ok {α : Type} {P : α → Prop} {a : α} :
    Yields P (.ok a : Except ε α) ↔ P a := by
  constructor
  · intro h
    exact h a rfl
  · rintro h b ⟨⟩
    exact h

@[simp] theorem yields_error {α : Type} {P : α → Prop} {e : ε} : Yields P (.error e : Except ε α) := by
  intro a h
  cases h

theorem Yields.bind {α β : Type} {P : α → Prop} {Q : β → Prop} {r : Except ε α} {f : α → Except ε β}
    (hr : Yields P r) (hf : ∀ a, P a → Yields Q (f a)) : Yields Q (r >>= f) := by
  cases r with
  | error e => exact yields_error
  | ok a => exact hf a (hr a rfl)

theorem Yields.mono {α : Type} {P Q : α → Prop} {r : Except ε α} (hr : Yields P r)
    (h : ∀ a, P a → Q a) : Yields Q r := fun a ha => h a (hr a ha)

theorem scan_yields {step : ι → σ → Except ε σ} {P : σ → Prop}
    (hstep : ∀ i s, P s → Yields P (step i s)) :
    ∀ (xs : List ι) (s : σ), P s → Yields P (scan step xs s)
  | [], s, h => yields_ok.mpr h
  | i :: rest, s, h => by
    have hi := hstep i s h
    rw [scan]
    cases hs : step i s with
    | ok s' => exact scan_yields hstep rest s' (hi s' hs)
    | error e => exact yields_error

/-- The inputs lead from one state to another, and `P` holds before each of them. -/
inductive Leads (step : ι → σ → Except ε σ) (P : σ → Prop) : List ι → σ → σ → Prop where
  | nil {s : σ} : Leads step P [] s s
  | cons {i : ι} {rest : List ι} {s s' t : σ} : P s → step i s = .ok s' → Leads step P rest s' t →
      Leads step P (i :: rest) s t

variable {step : ι → σ → Except ε σ} {P : σ → Prop}

theorem Leads.single {i : ι} {s t : σ} (hp : P s) (h : step i s = .ok t) : Leads step P [i] s t :=
  .cons hp h .nil

theorem Leads.append {xs ys : List ι} {s t u : σ} (h : Leads step P xs s t)
    (h' : Leads step P ys t u) : Leads step P (xs ++ ys) s u := by
  induction h with
  | nil => exact h'
  | cons hp hstep _ ih => exact .cons hp hstep (ih h')

theorem Leads.scan_eq {xs : List ι} {s t : σ} (h : Leads step P xs s t) :
    scan step xs s = .ok t := by
  induction h with
  | nil => rfl
  | cons _ hstep _ ih => rw [scan, hstep]; exact ih

/-- A part of the inputs leads to a state with `P`. -/
theorem Leads.scan_take {xs : List ι} {s t : σ} (h : Leads step P xs s t) :
    ∀ k, k < xs.length → ∃ m, scan step (xs.take k) s = .ok m ∧ P m := by
  induction h with
  | nil => intro k hk; exact absurd hk (Nat.not_lt_zero k)
  | cons hp hstep _ ih =>
    intro k hk
    cases k with
    | zero => exact ⟨_, rfl, hp⟩
    | succ k =>
      obtain ⟨m, hm, hpm⟩ := ih k (Nat.lt_of_succ_lt_succ hk)
      exact ⟨m, by rw [List.take_succ_cons, scan, hstep]; exact hm, hpm⟩

end

section
variable {ι π : Type} (call : π → List ι → π) (failed : π → Bool)

/-- The pieces one after another, up to the first failure. -/
def feed : List (List ι) → π → π
  | [], p => p
  | piece :: rest, p => if failed p then p else feed rest (call p piece)

/-- The stream can be cut after `pre` when what is left is `post`: a consumer that has failed
would have failed with more as well, and one that has not goes on as if it had not been
interrupted. -/
def Seamless (p : π) (pre post : List ι) : Prop :=
  if failed (call p pre) then call p (pre ++ post) = call p pre
  else ∀ y z, y ++ z = post → y ≠ [] → call (call p pre) y = call p (pre ++ y)

/-- Every cut between two of the pieces is as `ok` says, given what is before and after it. -/
def Cuts (ok : List ι → List ι → Prop) (pieces : List (List ι)) : Prop :=
  ∀ before after, before ++ after = pieces → before ≠ [] → after ≠ [] → ok before.flatten after.flatten

variable {call failed}

theorem Cuts.mono {ok ok' : List ι → List ι → Prop} {pieces : List (List ι)} (h : Cuts ok pieces)
    (himp : ∀ pre post, ok pre post → ok' pre post) : Cuts ok' pieces :=
  fun before after heq hb ha => himp _ _ (h before after heq hb ha)

theorem cuts_singleton {ok : List ι → List ι → Prop} (piece : List ι) : Cuts ok [piece] := by
  intro before after heq hb ha
  have hlen : before.length + after.length = 1 := by
    rw [← List.length_append, heq]
    rfl
  have := List.length_pos_iff.mpr hb
  have := List.length_pos_iff.mpr ha
  omega

theorem cuts_pair {ok : List ι → List ι → Prop} {x y : List ι} (h : ok x y) : Cuts ok [x, y] := by
  intro before after heq hb ha
  obtain ⟨b, bs, rfl⟩ := List.exists_cons_of_ne_nil hb
  rw [List.cons_append, List.cons.injEq] at heq
  obtain ⟨rfl, heq⟩ := heq
  cases bs with
  | nil =>
    rw [List.nil_append] at heq
    subst heq
    simpa using h
  | cons c cs =>
    rw [List.cons_append, List.cons.injEq] at heq
    exact absurd (List.append_eq_nil_iff.mp heq.2).2 ha

/-- The pieces after the first have the effect of a longer first piece. -/
theorem feed_call {p : π} : ∀ (after before : List (List ι)), before ≠ [] → (∀ x ∈ after, x ≠ []) →
    Cuts (Seamless call failed p) (before ++ after) →
    feed call failed after (call p before.flatten) = call p (before ++ after).flatten
  | [], before, _, _, _ => by rw [feed, List.append_nil]
  | piece :: rest, before, hb, hne, hcuts => by
    have hcut := hcuts before (piece :: rest) rfl hb (List.cons_ne_nil piece rest)
    rw [feed, List.flatten_append]
    by_cases hf : failed (call p before.flatten) = true
    · rw [Seamless, if_pos hf] at hcut
      rw [if_pos hf, hcut]
    · rw [Seamless, if_neg hf] at hcut
      rw [if_neg hf, hcut piece rest.flatten rfl (hne piece List.mem_cons_self)]
      have hih := feed_call rest (before ++ [piece]) (by simp)
        (fun x hx => hne x (List.mem_cons_of_mem piece hx)) (by simpa using hcuts)
      simpa using hih

/-- Pieces with seamless cuts have the effect of one call. -/
theorem feed_eq_call {p : π} (hp : failed p = false) {pieces : List (List ι)} (hnil : pieces ≠ [])
    (hne : ∀ x ∈ pieces, x ≠ []) (hcuts : Cuts (Seamless call failed p) pieces) :
    feed call failed pieces p = call p pieces.flatten := by
  obtain ⟨piece, rest, rfl⟩ := List.exists_cons_of_ne_nil hnil
  have hcall := feed_call rest [piece] (List.cons_ne_nil piece [])
    (fun x hx => hne x (List.mem_cons_of_mem piece hx)) hcuts
  rw [feed, if_neg (by simp [hp])]
  simpa using hcall

end

end Sylar.Lib
