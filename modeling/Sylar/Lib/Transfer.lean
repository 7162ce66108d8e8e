import Mathlib.Data.List.Basic
import Mathlib.Algebra.Order.Ring.Nat

/- Transfers that go through in parts.

   A transfer of `n` units asks for all of them, and then again for those that are left,
   until none are or a request is not served. `Script` is what the requests are answered,
   each with at most the units it asked for, or with zero or less when nothing was moved.
   `Answers` are the amounts moved one after another.

   `resume` is the loop over any operation that asks once. `resume_spec` is its rule: an
   invariant indexed by the units moved so far, kept by each answer, holds at the end with
   the amounts moved, and the loop ends either with all of them or at the first answer that
   moved nothing. -/
namespace Sylar.Lib

/-- What each call answers to a request. -/
structure Script where
  result : Nat → Nat → Int
  le : ∀ call n, result call n ≤ n

/-- From a call on, a request for `n` and the requests for what is left move these amounts. -/
inductive Answers (s : Script) : Nat → Nat → List Nat → Prop where
  | nil {call n : Nat} : Answers s call n []
  | cons {call n k : Nat} {rest : List Nat} : 0 < k → s.result call n = k → Answers s (call + 1) (n - k) rest →
      Answers s call n (k :: rest)

/-- The first answer that moves nothing comes before all is moved. -/
def StopsShort (s : Script) (n : Nat) : Prop :=
  ∃ amounts, Answers s 0 n amounts ∧ amounts.sum < n ∧ s.result amounts.length (n - amounts.sum) ≤ 0

theorem Answers.sum_le {s : Script} {call n : Nat} {amounts : List Nat} (h : Answers s call n amounts) :
    amounts.sum ≤ n := by
  induction h with
  | nil => simp
  | @cons call n k rest hpos hresult _ ih =>
    have hle := s.le call n
    rw [List.sum_cons]
    omega

theorem Answers.append {s : Script} {call n : Nat} {amounts more : List Nat} (h : Answers s call n amounts)
    (hmore : Answers s (call + amounts.length) (n - amounts.sum) more) :
    Answers s call n (amounts ++ more) := by
  induction h with
  | nil => simpa using hmore
  | @cons call n k rest hpos hresult _ ih =>
    refine .cons hpos hresult (ih ?_)
    have hcall : call + 1 + rest.length = call + (k :: rest).length := by
      rw [List.length_cons]
      omega
    have hleft : n - k - rest.sum = n - (k :: rest).sum := by
      rw [List.sum_cons]
      omega
    rw [hcall, hleft]
    exact hmore

/-- The answers are determined: a transfer that moves all does not stop short. -/
theorem Answers.all_or_short {s : Script} {call n : Nat} {amounts : List Nat} (h : Answers s call n amounts)
    (hsum : amounts.sum = n) {short : List Nat} (hshort : Answers s call n short) (hlt : short.sum < n) :
    0 < s.result (call + short.length) (n - short.sum) := by
  induction hshort generalizing amounts with
  | nil =>
    cases h with
    | nil => simp at hlt hsum; omega
    | cons hpos hresult _ =>
      simp only [List.length_nil, Nat.add_zero, List.sum_nil, Nat.sub_zero]
      omega
  | @cons call n k rest hpos hresult _ ih =>
    rw [List.sum_cons] at hlt
    cases h with
    | nil => simp at hsum; omega
    | @cons _ _ k' rest' hpos' hresult' hrest' =>
      have hk : k' = k := by
        have heq := hresult.symm.trans hresult'
        omega
      subst hk
      rw [List.sum_cons] at hsum
      have hnext := ih hrest' (by omega) (by omega)
      have hcall : call + 1 + rest.length = call + (k' :: rest).length := by
        rw [List.length_cons]
        omega
      have hleft : n - k' - rest.sum = n - (k' :: rest).sum := by
        rw [List.sum_cons]
        omega
      rwa [hcall, hleft] at hnext

theorem Answers.not_stopsShort {s : Script} {n : Nat} {amounts : List Nat} (h : Answers s 0 n amounts)
    (hsum : amounts.sum = n) : ¬ StopsShort s n := by
  intro hstops
  obtain ⟨short, hshort, hlt, hstop⟩ := hstops
  have hpos := h.all_or_short hsum hshort hlt
  rw [Nat.zero_add] at hpos
  omega

section
variable {ε τ : Type}

/-- How a loop of requests ended: its result, `none` when nothing was left to ask for, the
state, and the number of calls. -/
structure Ended (ε τ : Type) where
  result : Except ε (Option Int)
  state : τ
  calls : Nat

/-- Asks for what is left until nothing is, or an answer moves nothing. `op` is given the
number of the call, the units moved before it and those left. -/
def resume (op : Nat → Nat → Nat → τ → Except ε Int × τ) (call moved : Nat) (left : Nat) (t : τ) : Ended ε τ :=
  if 0 < left then
    match op call moved left t with
    | (.error e, t) => { result := .error e, state := t, calls := call + 1 }
    | (.ok len, t) =>
      if len ≤ 0 then { result := .ok (some len), state := t, calls := call + 1 }
      else resume op (call + 1) (moved + len.toNat) (left - len.toNat) t
  else { result := .ok none, state := t, calls := call }
termination_by left
decreasing_by omega

/-- What an operation that asks once does: it answers as the script says, and the invariant goes
on by the units moved. -/
def Asks (s : Script) (n : Nat) (P : Nat → τ → Prop) (op : Nat → Nat → Nat → τ → Except ε Int × τ) : Prop :=
  ∀ call moved t, moved < n → P moved t → ∃ t', op call moved (n - moved) t = (.ok (s.result call (n - moved)), t') ∧
    P (moved + (s.result call (n - moved)).toNat) t'

/-- All was moved, or the first answer that moved nothing is the result. -/
inductive Finished (s : Script) (n : Nat) (P : Nat → τ → Prop) (r : Ended ε τ) : Prop where
  | all (amounts : List Nat) (h : Answers s 0 n amounts) (hsum : amounts.sum = n) (hP : P n r.state)
      (hresult : r.result = .ok none) (hcalls : r.calls = amounts.length)
  | stopped (amounts : List Nat) (h : Answers s 0 n amounts) (hsum : amounts.sum < n) (hP : P amounts.sum r.state)
      (hstop : s.result amounts.length (n - amounts.sum) ≤ 0)
      (hresult : r.result = .ok (some (s.result amounts.length (n - amounts.sum))))
      (hcalls : r.calls = amounts.length + 1)

/-- The loop from any point of the transfer. -/
theorem resume_from {s : Script} {n : Nat} {P : Nat → τ → Prop} {op : Nat → Nat → Nat → τ → Except ε Int × τ}
    (hop : Asks s n P op) : ∀ (left : Nat) (amounts : List Nat) (t : τ), left = n - amounts.sum →
      Answers s 0 n amounts → P amounts.sum t → Finished s n P (resume op amounts.length amounts.sum left t) := by
  intro left
  induction left using Nat.strongRecOn with
  | ind left ih =>
    intro amounts t hleft hanswers hP
    have hle := hanswers.sum_le
    rw [resume]
    by_cases hpos : 0 < left
    · rw [if_pos hpos]
      obtain ⟨t', hrun, hP'⟩ := hop amounts.length amounts.sum t (by omega) hP
      rw [hleft, hrun]
      dsimp only
      have hbound := s.le amounts.length (n - amounts.sum)
      by_cases hstop : s.result amounts.length (n - amounts.sum) ≤ 0
      · rw [if_pos hstop]
        rw [Int.toNat_of_nonpos hstop, Nat.add_zero] at hP'
        exact .stopped amounts hanswers (by omega) hP' hstop rfl rfl
      · rw [if_neg hstop]
        -- one more amount, and less left
        generalize hk : s.result amounts.length (n - amounts.sum) = len at hstop hP' hbound
        have hsnoc : Answers s 0 n (amounts ++ [len.toNat]) := by
          refine hanswers.append (.cons (by omega) ?_ .nil)
          rw [Nat.zero_add, hk]
          omega
        have hsum : (amounts ++ [len.toNat]).sum = amounts.sum + len.toNat := by simp
        have hlength : (amounts ++ [len.toNat]).length = amounts.length + 1 := by simp
        have hnext := ih (n - amounts.sum - len.toNat) (by omega) (amounts ++ [len.toNat]) t' (by omega) hsnoc
          (by rw [hsum]; exact hP')
        rw [hsum, hlength] at hnext
        exact hnext
    · rw [if_neg hpos]
      have hsum : amounts.sum = n := by omega
      rw [hsum] at hP
      exact .all amounts hanswers hsum hP rfl rfl

/-- **The rule of the loop.** -/
theorem resume_spec {s : Script} {n : Nat} {P : Nat → τ → Prop} {op : Nat → Nat → Nat → τ → Except ε Int × τ}
    (hop : Asks s n P op) {t : τ} (hP : P 0 t) : Finished s n P (resume op 0 0 n t) :=
  resume_from hop n [] t rfl .nil hP

end

end Sylar.Lib
