import Mathlib.Data.List.Basic
import Mathlib.Data.List.Induction
import Mathlib.Logic.Function.Basic
import Sylar.Lib.Machine

/- The fibers of one thread and its `t_fiber`, from `sylar/fiber.cc`.

   A context holds the code that was executing when it was saved, and `swapcontext` saves
   what executes now and goes on with what another context holds. `exec` is the fiber whose
   code executes, as that comes out of the saved contexts; `t_fiber` and `m_state` are what
   the source writes by hand on each side of a switch. A switch is one action.

   The thread has its main fiber and the scheduler's: the main fiber itself on a worker
   thread, or `m_rootFiber` on the thread that made the scheduler (`use_caller`). `chain`
   records the resumes that have not returned.

   The states always agree with the chain (`Inv`). `yield` puts the main fiber into
   `t_fiber` whichever fiber it switches to, so on the caller's thread, after a task, the
   scheduler's code executes under the main fiber's name. `current_iff` says that this is
   the only way the pointer goes wrong.

   Correspondence (C++ ↔ Lean):
     `Fiber::resume`, `Fiber::yield`      ↔ `Thread.resume`, `Thread.yield`
     `cur` of `Fiber::MainFunc`           ↔ `Thread.cur`, set where the code starts
     `t_threadFiber`, `GetMainFiber()`    ↔ `main`, `Thread.sched` -/
namespace Sylar.Fiber

/-! ## Model -/

inductive State where
  | READY
  | RUNNING
  | TERM
  deriving DecidableEq, Repr

/-- The thread's main fiber. -/
def main : Nat := 0

structure Thread where
  /-- The scheduler's fiber. -/
  sched : Nat
  /-- `t_fiber`. -/
  current : Nat
  state : Nat → State
  /-- The code each `m_ctx` holds, by its fiber. -/
  ctx : Nat → Nat
  exec : Nat
  /-- What `GetThis()` gave `MainFunc` at the start of a fiber's code. -/
  cur : Nat → Option Nat
  chain : List Nat

/-- A thread whose main fiber was just made. -/
def Thread.init (sched : Nat) : Thread where
  sched := sched
  current := main
  state := fun f => if f = main then .RUNNING else .READY
  ctx := fun f => f
  exec := main
  cur := fun _ => none
  chain := [main]

/-- `m_runInSchedule`: all but the main fiber and the scheduler's. -/
def Thread.runInSchedule (s : Thread) (f : Nat) : Prop := f ≠ main ∧ f ≠ s.sched

instance (s : Thread) (f : Nat) : Decidable (s.runInSchedule f) := inferInstanceAs (Decidable (_ ∧ _))

/-- The fiber `resume` saves its caller in and `yield` goes back to. -/
def Thread.back (s : Thread) (f : Nat) : Nat := if s.runInSchedule f then s.sched else main

/-- `swapcontext(&save->m_ctx, &load->m_ctx)`. -/
def Thread.swapcontext (s : Thread) (save load : Nat) : Thread :=
  let ctx := Function.update s.ctx save s.exec
  { s with ctx := ctx, exec := ctx load }

def Thread.setState (s : Thread) (f : Nat) (v : State) : Thread :=
  { s with state := Function.update s.state f v }

/-- `Fiber::resume`; `none` is a failed assertion. -/
def Thread.resume (s : Thread) (f : Nat) : Option Thread :=
  if s.state f ≠ .RUNNING ∧ s.state f ≠ .TERM then
    let s := { s with current := f }
    some ((s.setState f .RUNNING).swapcontext (s.back f) f)
  else none

/-- `Fiber::yield`. -/
def Thread.yield (s : Thread) (f : Nat) : Option Thread :=
  if s.state f = .RUNNING ∨ s.state f = .TERM then
    let s := { s with current := main }
    let s := if s.state f ≠ .TERM then s.setState f .READY else s
    some (s.swapcontext f (s.back f))
  else none

/-- The start of `MainFunc`, where the code that now executes has not started yet. -/
def Thread.start (s : Thread) : Thread :=
  match s.cur s.exec with
  | none => { s with cur := Function.update s.cur s.exec (some s.current) }
  | some _ => s

inductive Act where
  /-- The main fiber resumes the scheduler's, or this one a task. -/
  | resume (f : Nat)
  /-- The executing fiber yields. -/
  | yield
  /-- The executing fiber's callback returns to `MainFunc`. -/
  | finish
  /-- `Fiber::reset`, for a fiber that has finished. -/
  | reset (f : Nat)
  deriving DecidableEq, Repr

/-- Who may resume whom. -/
def Thread.MayResume (s : Thread) (f : Nat) : Prop :=
  (s.exec = main ∧ f = s.sched ∧ f ≠ main) ∨ (s.exec = s.sched ∧ s.runInSchedule f)

instance (s : Thread) (f : Nat) : Decidable (s.MayResume f) := inferInstanceAs (Decidable (_ ∨ _))

def Thread.step (s : Thread) : Act → Option Thread
  | .resume f =>
    if s.MayResume f then (s.resume f).map fun s' => { s'.start with chain := f :: s.chain } else none
  | .yield =>
    if s.exec ≠ main then (s.yield s.exec).map fun s' => { s' with chain := s.chain.tail } else none
  | .finish =>
    if s.exec ≠ main then
      match s.cur s.exec with
      | none => none
      | some c => ((s.setState c .TERM).yield c).map fun s' => { s' with chain := s.chain.tail }
    else none
  | .reset f =>
    if f ≠ main ∧ s.state f = .TERM then
      some { s with
        ctx := Function.update s.ctx f f
        cur := Function.update s.cur f none
        state := Function.update s.state f .READY }
    else none

/-! ## The law -/

/-- `t_fiber` is the fiber that executes, and the fibers that run are those on the chain. -/
structure Right (s : Thread) : Prop where
  current : s.current = s.exec
  chain : s.chain.head? = some s.exec ∧ s.chain.getLast? = some main
  running : ∀ f, s.state f = .RUNNING ↔ f ∈ s.chain

/-- A switch out of a task goes back to the main fiber. -/
def Returns (s : Thread) : Act → Prop
  | .yield | .finish => s.exec = s.sched ∨ s.sched = main
  | _ => True

/-! ## Chains -/

/-- The chain while the scheduler's code executes. -/
def base (sched : Nat) : List Nat := if sched = main then [main] else [sched, main]

/-- The main fiber alone, the scheduler's on top of it, or a task on top of that. -/
def Chain (sched : Nat) (chain : List Nat) : Prop :=
  chain = [main] ∨ chain = base sched ∨ ∃ f, f ≠ main ∧ f ≠ sched ∧ chain = f :: base sched

theorem head_base (sched : Nat) : (base sched).head? = some sched := by
  unfold base
  split
  · next h => rw [h]; rfl
  · rfl

theorem mem_base {sched f : Nat} : f ∈ base sched ↔ f = main ∨ f = sched := by
  unfold base
  split
  · next h => simp [h]
  · simp [or_comm]

/-- Where the main fiber may resume the scheduler's. -/
theorem Chain.of_main {sched : Nat} {chain : List Nat} (h : Chain sched chain) (hhead : chain.head? = some main)
    (hsched : sched ≠ main) : chain = [main] := by
  rcases h with rfl | rfl | ⟨f, hf, -, rfl⟩
  · rfl
  · rw [head_base] at hhead
    exact absurd (Option.some.inj hhead) hsched
  · exact absurd (Option.some.inj hhead) hf

/-- Where the scheduler's fiber may resume a task. -/
theorem Chain.of_sched {sched : Nat} {chain : List Nat} (h : Chain sched chain)
    (hhead : chain.head? = some sched) : chain = base sched := by
  rcases h with rfl | rfl | ⟨f, -, hf, rfl⟩
  · have heq : main = sched := Option.some.inj hhead
    rw [base, if_pos heq.symm]
  · rfl
  · exact absurd (Option.some.inj hhead) hf

/-- Where a fiber other than the main one executes: it is on top of the fiber it goes back to. -/
theorem Chain.of_other {s : Thread} (h : Chain s.sched s.chain) (hhead : s.chain.head? = some s.exec)
    (hexec : s.exec ≠ main) :
    ∃ rest, s.chain = s.exec :: rest ∧ s.exec ∉ rest ∧ rest.head? = some (s.back s.exec) ∧ Chain s.sched rest := by
  rcases h with hc | hc | ⟨f, hf, hfs, hc⟩
  · rw [hc] at hhead
    exact absurd (Option.some.inj hhead).symm hexec
  · rw [hc, head_base] at hhead
    have hsched : s.sched = s.exec := Option.some.inj hhead
    have hne : s.sched ≠ main := by rw [hsched]; exact hexec
    have hback : s.back s.exec = main := if_neg (fun hrun => hrun.2 hsched.symm)
    refine ⟨[main], ?_, by simpa using hexec, by rw [hback]; rfl, Or.inl rfl⟩
    rw [hc, base, if_neg hne, hsched]
  · rw [hc] at hhead
    have hf' : f = s.exec := Option.some.inj hhead
    subst hf'
    have hback : s.back s.exec = s.sched := if_pos ⟨hf, hfs⟩
    refine ⟨base s.sched, hc, ?_, by rw [hback, head_base], Or.inr (Or.inl rfl)⟩
    rw [mem_base]
    exact fun hmem => hmem.elim hf hfs

theorem Chain.last {sched : Nat} {chain : List Nat} (h : Chain sched chain) : chain.getLast? = some main := by
  have hbase : (base sched).getLast? = some main := by
    unfold base
    split
    · rfl
    · rfl
  rcases h with rfl | rfl | ⟨f, -, -, rfl⟩
  · rfl
  · exact hbase
  · rw [List.getLast?_cons, hbase]
    rfl

/-! ## Steps -/

structure Inv (s : Thread) : Prop where
  ctx : ∀ f, s.ctx f = f
  head : s.chain.head? = some s.exec
  shape : Chain s.sched s.chain
  running : ∀ f, s.state f = .RUNNING ↔ f ∈ s.chain
  cur : ∀ f c, s.cur f = some c → c = f

theorem inv_init (sched : Nat) : Inv (Thread.init sched) where
  ctx f := rfl
  head := rfl
  shape := Or.inl rfl
  running f := by
    simp only [Thread.init, List.mem_singleton]
    split
    · next h => simp [h]
    · next h => simp [h]
  cur f c h := by cases h

section
variable {s : Thread}

/-- The executing code is saved under its own name, so each context keeps its fiber's code. -/
theorem swapcontext_eq (hctx : ∀ f, s.ctx f = f) {save : Nat} (hsave : save = s.exec) (load : Nat) :
    s.swapcontext save load = { s with exec := load } := by
  have hupdate : Function.update s.ctx save s.exec = s.ctx := by
    rw [hsave]
    exact Function.update_eq_self_iff.mpr (hctx s.exec).symm
  rw [Thread.swapcontext, hupdate, hctx]

theorem back_eq {f : Nat} (hmay : s.MayResume f) : s.back f = s.exec := by
  rcases hmay with ⟨hexec, hf, hne⟩ | ⟨hexec, hrun⟩
  · rw [Thread.back, if_neg (fun hrun => hrun.2 hf), hexec]
  · rw [Thread.back, if_pos hrun, hexec]

theorem resume_eq (h : Inv s) {f : Nat} {s' : Thread} (hmay : s.MayResume f) (hresume : s.resume f = some s') :
    s' = { s with current := f, state := Function.update s.state f .RUNNING, exec := f } := by
  rw [Thread.resume] at hresume
  split at hresume
  · cases hresume
    exact swapcontext_eq (s := Thread.setState { s with current := f } f .RUNNING) h.ctx (back_eq hmay) f
  · cases hresume

theorem yield_eq (hctx : ∀ f, s.ctx f = f) {s' : Thread} (hyield : s.yield s.exec = some s') :
    s' = { s with
      current := main
      state := if s.state s.exec ≠ .TERM then Function.update s.state s.exec .READY else s.state
      exec := s.back s.exec } := by
  rw [Thread.yield] at hyield
  split at hyield
  · cases hyield
    by_cases hterm : s.state s.exec ≠ .TERM
    · simp only [if_pos hterm]
      exact swapcontext_eq (s := Thread.setState { s with current := main } s.exec .READY) hctx rfl _
    · simp only [if_neg hterm]
      exact swapcontext_eq (s := { s with current := main }) hctx rfl _
  · cases hyield

/-- The chain grows by the fiber that is resumed. -/
theorem Inv.shape_resume (h : Inv s) {f : Nat} (hmay : s.MayResume f) : Chain s.sched (f :: s.chain) := by
  rcases hmay with ⟨hexec, hf, hne⟩ | ⟨hexec, hrun⟩
  · have hsched : s.sched ≠ main := by rw [← hf]; exact hne
    have hchain := h.shape.of_main (by rw [h.head, hexec]) hsched
    rw [hchain, hf]
    exact Or.inr (Or.inl (by rw [base, if_neg hsched]))
  · have hchain := h.shape.of_sched (by rw [h.head, hexec])
    rw [hchain]
    exact Or.inr (Or.inr ⟨f, hrun.1, hrun.2, rfl⟩)

/-- A resume: the resumed fiber executes, and `t_fiber` is that fiber. -/
theorem resume_spec (h : Inv s) {f : Nat} {s' : Thread} (hstep : s.step (.resume f) = some s') :
    Inv s' ∧ s'.current = s'.exec ∧ s'.sched = s.sched := by
  simp only [Thread.step] at hstep
  split at hstep
  · next hmay =>
    obtain ⟨s₁, hresume, rfl⟩ := Option.map_eq_some_iff.mp hstep
    have hs₁ := resume_eq h hmay hresume
    have hfields : s₁.start.ctx = s.ctx ∧ s₁.start.exec = f ∧ s₁.start.sched = s.sched ∧
        s₁.start.state = Function.update s.state f .RUNNING ∧ s₁.start.current = f := by
      rw [Thread.start]
      split
      · rw [hs₁]; exact ⟨rfl, rfl, rfl, rfl, rfl⟩
      · rw [hs₁]; exact ⟨rfl, rfl, rfl, rfl, rfl⟩
    obtain ⟨hctx, hexec, hsched, hstate, hcurrent⟩ := hfields
    have hcur : ∀ f' c, s₁.start.cur f' = some c → c = f' := by
      intro f' c hc
      rw [Thread.start] at hc
      split at hc
      · -- The code starts here: `GetThis()` is the fiber that was just resumed.
        rw [hs₁] at hc
        by_cases hff : f' = f
        · subst hff
          simpa using hc.symm
        · simp only [Function.update_of_ne hff] at hc
          exact h.cur f' c hc
      · rw [hs₁] at hc
        exact h.cur f' c hc
    refine ⟨⟨?_, ?_, ?_, ?_, hcur⟩, ?_, hsched⟩
    · intro f'
      rw [hctx]
      exact h.ctx f'
    · rw [hexec]
      rfl
    · rw [hsched]
      exact h.shape_resume hmay
    · intro f'
      simp only [hstate, List.mem_cons]
      by_cases hff : f' = f
      · simp [hff]
      · simp only [Function.update_of_ne hff, hff, false_or]
        exact h.running f'
    · rw [hcurrent, hexec]
  · cases hstep

/-- A switch out of the executing fiber, whatever state that leaves it in. -/
theorem Inv.left (h : Inv s) (hexec : s.exec ≠ main) {state : Nat → State}
    (hself : state s.exec ≠ .RUNNING) (hothers : ∀ f, f ≠ s.exec → state f = s.state f) :
    Inv { s with current := main, state := state, exec := s.back s.exec, chain := s.chain.tail } := by
  obtain ⟨rest, hchain, hnot, hhead, hshape⟩ := h.shape.of_other h.head hexec
  have htail : s.chain.tail = rest := by rw [hchain]; rfl
  refine ⟨h.ctx, ?_, ?_, ?_, h.cur⟩
  · simpa only [htail] using hhead
  · simpa only [htail] using hshape
  · intro f
    simp only [htail]
    by_cases hf : f = s.exec
    · subst hf
      exact iff_of_false hself hnot
    · rw [hothers f hf, h.running f, hchain, List.mem_cons]
      simp [hf]

theorem yield_spec (h : Inv s) {s' : Thread} (hstep : s.step .yield = some s') :
    Inv s' ∧ s'.sched = s.sched ∧ s.exec ≠ main ∧ s'.current = main ∧ s'.exec = s.back s.exec := by
  simp only [Thread.step] at hstep
  split at hstep
  · next hexec =>
    obtain ⟨s₁, hyield, rfl⟩ := Option.map_eq_some_iff.mp hstep
    rw [yield_eq h.ctx hyield]
    refine ⟨h.left hexec ?_ ?_, rfl, hexec, rfl, rfl⟩
    · split
      · simp
      · next hterm => simpa using fun hrun => absurd hrun (by simp [not_not.mp hterm])
    · intro f hf
      split
      · exact Function.update_of_ne hf _ _
      · rfl
  · cases hstep

theorem finish_spec (h : Inv s) {s' : Thread} (hstep : s.step .finish = some s') :
    Inv s' ∧ s'.sched = s.sched ∧ s.exec ≠ main ∧ s'.current = main ∧ s'.exec = s.back s.exec := by
  simp only [Thread.step] at hstep
  split at hstep
  · next hexec =>
    split at hstep
    · cases hstep
    · next c hc =>
      -- `cur` is the fiber whose code this is.
      have hcur := h.cur s.exec c hc
      subst hcur
      obtain ⟨s₁, hyield, rfl⟩ := Option.map_eq_some_iff.mp hstep
      rw [yield_eq (s := s.setState s.exec .TERM) h.ctx hyield]
      have hterm : (s.setState s.exec .TERM).state s.exec = .TERM := Function.update_self _ _ _
      have hstays : ¬ (s.setState s.exec .TERM).state (s.setState s.exec .TERM).exec ≠ .TERM :=
        fun hne => hne hterm
      rw [if_neg hstays]
      refine ⟨h.left hexec ?_ ?_, rfl, hexec, rfl, rfl⟩
      · rw [hterm]
        exact fun hrun => nomatch hrun
      · intro f hf
        exact Function.update_of_ne hf _ _
  · cases hstep

theorem reset_spec (h : Inv s) {f : Nat} {s' : Thread} (hstep : s.step (.reset f) = some s') :
    Inv s' ∧ s'.sched = s.sched ∧ s'.current = s.current ∧ s'.exec = s.exec := by
  simp only [Thread.step] at hstep
  split at hstep
  · next hterm =>
    cases hstep
    refine ⟨⟨?_, h.head, h.shape, ?_, ?_⟩, rfl, rfl, rfl⟩
    · intro f'
      by_cases hf : f' = f
      · simp [hf]
      · simpa [Function.update_of_ne hf] using h.ctx f'
    · intro f'
      by_cases hf : f' = f
      · subst hf
        have hrun := h.running f'
        rw [hterm.2] at hrun
        simpa using hrun
      · simpa only [Function.update_of_ne hf] using h.running f'
    · intro f' c hc
      by_cases hf : f' = f
      · subst hf
        simp at hc
      · simp only [Function.update_of_ne hf] at hc
        exact h.cur f' c hc
  · cases hstep

theorem step_inv (h : Inv s) {act : Act} {s' : Thread} (hstep : s.step act = some s') :
    Inv s' ∧ s'.sched = s.sched := by
  cases act with
  | resume f =>
    have hspec := resume_spec h hstep
    exact ⟨hspec.1, hspec.2.2⟩
  | yield =>
    have hspec := yield_spec h hstep
    exact ⟨hspec.1, hspec.2.1⟩
  | finish =>
    have hspec := finish_spec h hstep
    exact ⟨hspec.1, hspec.2.1⟩
  | reset f =>
    have hspec := reset_spec h hstep
    exact ⟨hspec.1, hspec.2.1⟩

/-- The fiber a switch goes back to is the main one, except from a task to a scheduler's fiber
of its own. -/
theorem back_eq_main (hexec : s.exec ≠ main) : main = s.back s.exec ↔ s.exec = s.sched ∨ s.sched = main := by
  unfold Thread.back
  by_cases hrun : s.runInSchedule s.exec
  · rw [if_pos hrun]
    constructor
    · intro heq
      exact Or.inr heq.symm
    · rintro (heq | heq)
      · exact absurd heq hrun.2
      · exact heq.symm
  · rw [if_neg hrun]
    have hsched : s.exec = s.sched := Decidable.byContradiction fun hne => hrun ⟨hexec, hne⟩
    exact iff_of_true rfl (Or.inl hsched)

/-- A step leaves `t_fiber` right if and only if it is no switch out of a task to a scheduler's
fiber other than the main one. -/
theorem step_current_iff (h : Inv s) (hright : s.current = s.exec) {act : Act} {s' : Thread}
    (hstep : s.step act = some s') : s'.current = s'.exec ↔ Returns s act := by
  cases act with
  | resume f => exact iff_of_true (resume_spec h hstep).2.1 trivial
  | yield =>
    obtain ⟨-, -, hexec, hcurrent, hback⟩ := yield_spec h hstep
    rw [hcurrent, hback]
    exact back_eq_main hexec
  | finish =>
    obtain ⟨-, -, hexec, hcurrent, hback⟩ := finish_spec h hstep
    rw [hcurrent, hback]
    exact back_eq_main hexec
  | reset f =>
    obtain ⟨-, -, hcurrent, hback⟩ := reset_spec h hstep
    rw [hcurrent, hback]
    exact iff_of_true hright trivial

theorem Inv.right (h : Inv s) (hcurrent : s.current = s.exec) : Right s :=
  ⟨hcurrent, ⟨h.head, h.shape.last⟩, h.running⟩

end

/-! ## Runs -/

/-- Every state of a run is right. -/
def RightThroughout (sched : Nat) (acts : List Act) : Prop :=
  ∀ before rest s, acts = before ++ rest → Lib.after Thread.step before (Thread.init sched) = some s → Right s

/-- Every step of a run that is taken goes back to the right fiber. -/
def ReturnsThroughout (sched : Nat) (acts : List Act) : Prop :=
  ∀ before act rest s, acts = before ++ act :: rest →
    Lib.after Thread.step before (Thread.init sched) = some s → (s.step act).isSome → Returns s act

theorem after_inv {sched : Nat} {acts : List Act} {s : Thread}
    (hs : Lib.after Thread.step acts (Thread.init sched) = some s) : Inv s :=
  (Lib.Reached.start.after (fun _ _ => trivial) acts hs : Lib.Reached Thread.step (fun _ _ => True) _ s).inv
    (inv_init sched) fun _ _ _ h _ hstep => (step_inv h hstep).1

/-- In every run the states are those of the chain; `t_fiber` is right throughout if and only if
no task yields or finishes under a scheduler's fiber that is not the main one. -/
theorem current_iff (sched : Nat) (acts : List Act) :
    RightThroughout sched acts ↔ ReturnsThroughout sched acts := by
  constructor
  · intro hright before act rest s hacts hs hsome
    obtain ⟨s', hstep⟩ := Option.isSome_iff_exists.mp hsome
    have hnow := hright before (act :: rest) s hacts hs
    have hnext := hright (before ++ [act]) rest s' (by rw [hacts]; simp) (Lib.after_concat.mpr ⟨s, hs, hstep⟩)
    exact (step_current_iff (after_inv hs) hnow.current hstep).mp hnext.current
  · intro hreturns before
    induction before using List.reverseRecOn with
    | nil =>
      intro rest s _ hs
      cases hs
      exact (inv_init sched).right rfl
    | append_singleton before act ih =>
      intro rest s' hacts hs'
      obtain ⟨s, hs, hstep⟩ := Lib.after_concat.mp hs'
      rw [List.append_assoc, List.singleton_append] at hacts
      have hnow := ih (act :: rest) s hacts hs
      have hgoes := hreturns before act rest s hacts hs (by rw [hstep]; rfl)
      apply (after_inv hs').right
      exact (step_current_iff (after_inv hs) hnow.current hstep).mpr hgoes

/-- On the caller's thread the scheduler's fiber 1 resumes task 2, which yields: the scheduler's
code executes, and `t_fiber` is the main fiber. -/
theorem current_wrong : ¬ RightThroughout 1 [.resume 1, .resume 2, .yield] := by
  intro hright
  have hend : (Lib.after Thread.step [.resume 1, .resume 2, .yield] (Thread.init 1)).map
      (fun s => (s.current, s.exec)) = some (0, 1) := by decide
  obtain ⟨s, hs, heq⟩ := Option.map_eq_some_iff.mp hend
  simp only [Prod.mk.injEq] at heq
  have hcurrent := (hright [.resume 1, .resume 2, .yield] [] s rfl hs).current
  rw [heq.1, heq.2] at hcurrent
  cases hcurrent

end Sylar.Fiber
