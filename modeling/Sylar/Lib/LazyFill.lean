import Mathlib.Data.List.Basic
import Mathlib.Data.List.Induction

/- Tables that are filled when they are first read.

   Each table has entries and pending ones, which the first read of the table takes
   in; an entry that is there is kept. A write goes to the entries alone. Compared with
   tables that were filled before the first access (`eager`), only one thing can
   differ: a key removed before its table was first read comes back
   (`Forgotten`). `run_forgotten` and `run_eager` say so for every sequence of
   accesses: what is seen under a key is the same in both unless its last write is such a
   removal, and then it is what was pending. -/
namespace Sylar.Lib.LazyFill

/-- A read, or a write of a value or of nothing. -/
inductive Access (κ ν : Type) where
  | read (key : κ)
  | write (key : κ) (val : Option ν)

/-- Entries and pending entries, by table and key. -/
structure State (γ κ ν : Type) where
  map : γ → κ → Option ν
  pending : γ → κ → Option ν

section
variable {γ κ ν : Type}

/-- What a read sees: an entry, or else a pending one. -/
def State.view (s : State γ κ ν) (g : γ) (k : κ) : Option ν := (s.map g k).or (s.pending g k)

/-- Every table filled. -/
def State.eager (s : State γ κ ν) : State γ κ ν where
  map := s.view
  pending := fun _ _ => none

/-- The last write of `k` removed it, and its table had not been read by then. -/
def Forgotten (ops : List (γ × Access κ ν)) (g : γ) (k : κ) : Prop :=
  ∃ a b, ops = a ++ (g, .write k none) :: b ∧ (∀ k', (g, .read k') ∉ a) ∧ ∀ v, (g, .write k v) ∉ b

@[simp] theorem view_eager (s : State γ κ ν) (g : γ) (k : κ) : s.eager.view g k = s.view g k := by
  simp [State.eager, State.view]

variable [DecidableEq γ] [DecidableEq κ]

/-- A read fills its table, a write changes one key of it. -/
def State.step (s : State γ κ ν) : γ × Access κ ν → State γ κ ν
  | (g, .read _) =>
    { map := fun g' => if g' = g then s.view g else s.map g'
      pending := fun g' => if g' = g then fun _ => none else s.pending g' }
  | (g, .write k v) => { s with map := fun g' k' => if g' = g ∧ k' = k then v else s.map g' k' }

def State.run (s : State γ κ ν) (ops : List (γ × Access κ ν)) : State γ κ ν := ops.foldl State.step s

theorem run_concat (s : State γ κ ν) (ops : List (γ × Access κ ν)) (op : γ × Access κ ν) :
    s.run (ops ++ [op]) = (s.run ops).step op := by
  simp [State.run]

/-! ## One access -/

/-- Filling a table cannot be seen in it. -/
theorem view_read (s : State γ κ ν) (g g' : γ) (k k' : κ) : (s.step (g', .read k')).view g k = s.view g k := by
  by_cases hg : g = g'
  · simp [State.step, State.view, hg]
  · simp [State.step, State.view, hg]

theorem view_write_self (s : State γ κ ν) (g : γ) (k : κ) (v : Option ν) :
    (s.step (g, .write k v)).view g k = v.or (s.pending g k) := by
  simp [State.step, State.view]

theorem view_write_ne (s : State γ κ ν) {g g' : γ} {k k' : κ} (hne : ¬ (g = g' ∧ k = k')) (v : Option ν) :
    (s.step (g', .write k' v)).view g k = s.view g k := by
  simp [State.step, State.view, hne]

theorem pending_write (s : State γ κ ν) (g : γ) (k : κ) (v : Option ν) :
    (s.step (g, .write k v)).pending = s.pending := rfl

/-! ## Removals -/

omit [DecidableEq γ] [DecidableEq κ] in
/-- One more access: it is the removal itself, or leaves the last write of the key what it was. -/
theorem forgotten_concat (ops : List (γ × Access κ ν)) (op : γ × Access κ ν) (g : γ) (k : κ) :
    Forgotten (ops ++ [op]) g k ↔
      (op = (g, .write k none) ∧ ∀ k', (g, .read k') ∉ ops) ∨
        (Forgotten ops g k ∧ ∀ v, op ≠ (g, .write k v)) := by
  constructor
  · intro h
    obtain ⟨a, b, heq, hread, hwrite⟩ := h
    rcases List.eq_nil_or_concat b with rfl | ⟨b', x, rfl⟩
    · obtain ⟨rfl, hop⟩ := List.append_inj' heq rfl
      exact Or.inl ⟨by simpa using hop, hread⟩
    · rw [List.concat_eq_append, ← List.cons_append, ← List.append_assoc] at heq
      obtain ⟨rfl, hop⟩ := List.append_inj' heq rfl
      obtain rfl : op = x := by simpa using hop
      refine Or.inr ⟨⟨a, b', rfl, hread, ?_⟩, ?_⟩
      · intro v hv
        exact hwrite v (by simp [hv])
      · intro v hv
        exact hwrite v (by simp [hv])
  · intro h
    rcases h with ⟨rfl, hread⟩ | ⟨⟨a, b, rfl, hread, hwrite⟩, hop⟩
    · exact ⟨ops, [], rfl, hread, by simp⟩
    · refine ⟨a, b ++ [op], by simp, hread, ?_⟩
      intro v hv
      rcases List.mem_append.mp hv with hv | hv
      · exact hwrite v hv
      · exact hop v (List.mem_singleton.mp hv).symm

/-! ## Whole runs -/

/-- What was pending still is, until the table is read. -/
theorem run_pending (s : State γ κ ν) (ops : List (γ × Access κ ν)) (g : γ) :
    ((∀ k', (g, .read k') ∉ ops) → (s.run ops).pending g = s.pending g) ∧
      ((∃ k', (g, .read k') ∈ ops) → (s.run ops).pending g = fun _ => none) := by
  induction ops using List.reverseRecOn with
  | nil => simp [State.run]
  | append_singleton ops op ih =>
    rw [run_concat]
    match op with
    | (g', .write k v) =>
      rw [pending_write]
      simpa using ih
    | (g', .read k) =>
      by_cases hg : g = g'
      · subst hg
        refine ⟨fun h => absurd (List.mem_append_right ops (List.mem_singleton_self _)) (h k), fun _ => ?_⟩
        simp [State.step]
      · simpa [State.step, hg] using ih

theorem run_eager_pending (s : State γ κ ν) (ops : List (γ × Access κ ν)) (g : γ) :
    (s.eager.run ops).pending g = fun _ => none := by
  by_cases hread : ∃ k', (g, Access.read k') ∈ ops
  · exact (run_pending s.eager ops g).2 hread
  · exact (run_pending s.eager ops g).1 (by simpa using hread)

/-- Under a forgotten key the eager tables have nothing, the lazy ones what was pending. -/
theorem run_forgotten (s : State γ κ ν) {ops : List (γ × Access κ ν)} {g : γ} {k : κ} (h : Forgotten ops g k) :
    (s.eager.run ops).view g k = none ∧ (s.run ops).view g k = s.pending g k := by
  induction ops using List.reverseRecOn with
  | nil => simp [Forgotten] at h
  | append_singleton ops op ih =>
    rw [run_concat, run_concat]
    rcases (forgotten_concat ops op g k).mp h with ⟨rfl, hread⟩ | ⟨hold, hop⟩
    · rw [view_write_self, view_write_self, run_eager_pending, (run_pending s ops g).1 hread]
      simp
    · match op with
      | (g', .read k') =>
        rw [view_read, view_read]
        exact ih hold
      | (g', .write k' v) =>
        have hne : ¬ (g = g' ∧ k = k') := by
          intro hsame
          exact hop v (by rw [hsame.1, hsame.2])
        rw [view_write_ne _ hne, view_write_ne _ hne]
        exact ih hold

/-- Under any other key they show the same. -/
theorem run_eager (s : State γ κ ν) {ops : List (γ × Access κ ν)} {g : γ} {k : κ} (h : ¬ Forgotten ops g k) :
    (s.eager.run ops).view g k = (s.run ops).view g k := by
  induction ops using List.reverseRecOn with
  | nil => simp [State.run]
  | append_singleton ops op ih =>
    rw [forgotten_concat, not_or] at h
    rw [run_concat, run_concat]
    match op with
    | (g', .read k') =>
      rw [view_read, view_read]
      exact ih (fun hold => h.2 ⟨hold, by simp⟩)
    | (g', .write k' v) =>
      by_cases hsame : g = g' ∧ k = k'
      · obtain ⟨rfl, rfl⟩ := hsame
        rw [view_write_self, view_write_self, run_eager_pending]
        cases v with
        | some v => simp
        | none =>
          -- a removal that is not forgotten comes after a read
          have hread : ∃ k', (g, Access.read k') ∈ ops := by
            by_contra hno
            exact h.1 ⟨rfl, by simpa using hno⟩
          rw [(run_pending s ops g).2 hread]
      · rw [view_write_ne _ hsame, view_write_ne _ hsame]
        apply ih
        intro hold
        refine h.2 ⟨hold, ?_⟩
        intro v' heq
        have hinj := Prod.mk.inj heq
        exact hsame ⟨hinj.1.symm, (Access.write.inj hinj.2).1.symm⟩

end

end Sylar.Lib.LazyFill
