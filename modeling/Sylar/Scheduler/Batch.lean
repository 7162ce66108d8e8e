import Mathlib.Data.List.Basic
import Sylar.Scheduler.Basic

/- The batch form `schedule(begin, end)` of `sylar/scheduler.h`.

   The loop runs under `m_mutex` while `begin != end`, and each round hands
   `scheduleNoLock` the address of the element at `begin`: the constructor of
   `ScheduleTask` swaps the element out, so the range is left with an empty one in its
   place. `begin` is not incremented. A range that is not empty therefore never ends:
   its first element is queued once, and every later round makes an empty task, which
   is dropped.

   The loop is a function of a number of rounds, `none` when they do not suffice; it
   terminates when some number does. -/
namespace Sylar.Scheduler

/-! ## The loop -/

/-- What the range holds: `Fiber::ptr` or `std::function<void()>`. -/
inductive Kind where
  | fiber
  | callback
  deriving DecidableEq, Repr

/-- An element of the range, empty or not. -/
abbrev Element := Option Nat

/-- The loop's variables: the range with `begin` in it, the scheduler and `need_tickle`. -/
structure Batch where
  begin : Nat
  range : List Element
  sched : State
  need_tickle : Bool
  deriving DecidableEq, Repr

/-- `scheduleNoLock(&*begin)` on the element's content. -/
def State.scheduleElement (s : State) (kind : Kind) (content : Element) : State :=
  match kind with
  | .fiber => s.scheduleNoLock content none (-1)
  | .callback => s.scheduleNoLock none content (-1)

/-- One round: the element is swapped into the task, the queue's emptiness is what
`scheduleNoLock` returns, and `begin` stays. -/
def Batch.round (kind : Kind) (b : Batch) : Batch where
  begin := b.begin
  range := b.range.set b.begin none
  sched := b.sched.scheduleElement kind (b.range[b.begin]?.getD none)
  need_tickle := b.sched.tasks.isEmpty || b.need_tickle

/-- `while (begin != end)`, for a number of rounds. -/
def Batch.loop (kind : Kind) : Nat → Batch → Option Batch
  | 0, b => if b.begin = b.range.length then some b else none
  | rounds + 1, b => if b.begin = b.range.length then some b else Batch.loop kind rounds (b.round kind)

/-- `schedule(begin, end)`: the scheduler after the call and whether `tickle()` was called. -/
def State.scheduleRange (s : State) (kind : Kind) (range : List Element) (rounds : Nat) :
    Option (State × Bool) :=
  (Batch.loop kind rounds { begin := 0, range := range, sched := s, need_tickle := false }).map
    fun b => (b.sched, b.need_tickle)

/-! ## What the call is for -/

/-- The task of an element that is not empty. -/
def Kind.task (kind : Kind) (id : Nat) (content : Nat) : Task :=
  match kind with
  | .fiber => { id := id, fiber := some content, cb := none, thread := -1 }
  | .callback => { id := id, fiber := none, cb := some content, thread := -1 }

/-- The tasks of a range in its order, numbered from `id` on. -/
def Kind.tasksOf (kind : Kind) (id : Nat) (range : List Element) : List Task :=
  (range.filterMap fun content => content).mapIdx fun i content => kind.task (id + i) content

/-- The call returns, with a task queued for each element that is not empty, in order, and
`tickle()` called exactly if the queue was empty and the range is not. -/
def Schedules (s : State) (kind : Kind) (range : List Element) : Prop :=
  ∃ rounds s' tickled, s.scheduleRange kind range rounds = some (s', tickled) ∧
    s'.tasks = s.tasks ++ kind.tasksOf s.scheduled.length range ∧
    (tickled = true ↔ s.tasks = [] ∧ range ≠ [])

/-! ## The rounds -/

section
variable {kind : Kind} {b : Batch}

@[simp] theorem Batch.round_begin : (b.round kind).begin = b.begin := rfl

@[simp] theorem Batch.round_range : (b.round kind).range = b.range.set b.begin none := rfl

theorem State.scheduleElement_none (s : State) (kind : Kind) : s.scheduleElement kind none = s := by
  cases kind with
  | fiber => simp [State.scheduleElement, State.scheduleNoLock]
  | callback => simp [State.scheduleElement, State.scheduleNoLock]

theorem State.scheduleElement_some (s : State) (kind : Kind) (content : Nat) :
    (s.scheduleElement kind (some content)).tasks =
      s.tasks ++ [kind.task s.scheduled.length content] := by
  cases kind with
  | fiber => simp [State.scheduleElement, State.scheduleNoLock, Kind.task]
  | callback => simp [State.scheduleElement, State.scheduleNoLock, Kind.task]

/-- A round does not move `begin` nor the end, so a loop not done is not done after it. -/
theorem Batch.loop_stuck : ∀ (rounds : Nat) (b : Batch), b.begin ≠ b.range.length →
    Batch.loop kind rounds b = none := by
  intro rounds
  induction rounds with
  | zero =>
    intro b h
    simp [Batch.loop, h]
  | succ rounds ih =>
    intro b h
    rw [Batch.loop, if_neg h]
    apply ih
    simpa using h

end

/-- The rounds of the loop one after another. -/
def Batch.rounds (kind : Kind) : Nat → Batch → Batch
  | 0, b => b
  | n + 1, b => Batch.rounds kind n (b.round kind)

/-- Once the element at `begin` is swapped out, nothing more is queued. -/
theorem Batch.rounds_swapped (kind : Kind) : ∀ (n : Nat) (b : Batch), b.range[b.begin]?.getD none = none →
    (Batch.rounds kind n b).sched = b.sched := by
  intro n
  induction n with
  | zero => intro b _; simp [Batch.rounds]
  | succ n ih =>
    intro b h
    have hnext : (b.round kind).range[(b.round kind).begin]?.getD none = none := by
      by_cases hlt : b.begin < b.range.length
      · simp [hlt]
      · simp [Nat.le_of_not_lt hlt]
    rw [Batch.rounds, ih _ hnext]
    simp [Batch.round, h, State.scheduleElement_none]

/-- What a range that is not empty does to the queue, however long its loop has run: its
first element is there once, the others are not. -/
theorem Batch.rounds_tasks (kind : Kind) (s : State) (first : Element) (rest : List Element) (n : Nat) :
    (Batch.rounds kind (n + 1)
      { begin := 0, range := first :: rest, sched := s, need_tickle := false }).sched.tasks =
        s.tasks ++ kind.tasksOf s.scheduled.length [first] := by
  rw [Batch.rounds, Batch.rounds_swapped]
  · cases first with
    | none => simp [Batch.round, State.scheduleElement_none, Kind.tasksOf]
    | some content => simp [Batch.round, State.scheduleElement_some, Kind.tasksOf]
  · simp

/-- **Batch scheduling.** The call does what it is for if and only if the range is empty: on
every other range it never returns. -/
theorem schedules_range_iff (s : State) (kind : Kind) (range : List Element) :
    Schedules s kind range ↔ range = [] := by
  constructor
  · intro h
    obtain ⟨rounds, s', tickled, hcall, -, -⟩ := h
    by_contra hne
    have hbegin : 0 ≠ range.length := by
      intro hlen
      exact hne (List.length_eq_zero_iff.mp hlen.symm)
    rw [State.scheduleRange, Batch.loop_stuck rounds _ hbegin] at hcall
    simp at hcall
  · intro h
    subst h
    refine ⟨0, s, false, ?_, ?_, ?_⟩
    · simp [State.scheduleRange, Batch.loop]
    · simp [Kind.tasksOf]
    · simp

/-- One callback, for a fresh scheduler: the call does not return. -/
theorem schedule_one_callback_hangs :
    ¬ Schedules (init [1]) .callback [some 7] := by
  intro h
  obtain ⟨rounds, s', tickled, hcall, -, -⟩ := h
  rw [State.scheduleRange, Batch.loop_stuck rounds _ (by decide)] at hcall
  simp at hcall

end Sylar.Scheduler
