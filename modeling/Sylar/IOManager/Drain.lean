import Mathlib.Data.List.Basic
import Mathlib.Data.List.Perm.Basic
import Mathlib.Algebra.BigOperators.Group.List.Basic
import Mathlib.Algebra.Order.Ring.Nat
import Sylar.Lib.Slots
import Sylar.Lib.Machine
import Sylar.Scheduler.Conservation

/- When the workers of an `IOManager` leave: `IOManager::stopping` and `IOManager::idle` of
   `sylar/iomanager.cc` in the loop of `Scheduler::run`.

   `stopping` is three reads, one after another, of state that others change meanwhile: is
   there a timer, is an event pending, and, under the scheduler's mutex, is anything queued
   or executing after `stop()`. `idle` takes the expired callbacks out of the timers and
   schedules them one by one, and an event that is triggered is queued first and counted
   down then. Each of these is a step of its own here, and steps of any threads interleave.
   How long a worker stays in `epoll_wait` is open, so `tickle` has no step. `delEvent` has
   none either: it leaves its event in the mask of the descriptor.

   What an event schedules goes to `Scheduler::GetThis()` of the thread that registered it.
   For a task of a worker that is this `IOManager`, as it is for the thread that made it with
   `use_caller`; for another thread it may be another scheduler, or null, and then
   `triggerEvent` crashes the process.

   A piece of work is a task with a number of its own: it is queued, armed as a timer,
   awaited as an event, held by a worker, handed to another scheduler, or has been completed
   or cancelled. That it is one of these exactly once holds in every run (`work_conserved`).
   That all of it is completed, cancelled or handed over when every worker has left
   (`left_drained`) needs more: a worker whose idle fiber has ended takes no task any more,
   and threads other than the workers give work only while some worker has not begun the
   last of its checks, as the caller's worker has not before `stop()`. Both are needed
   (`late_task_loses_timer`, `outside_timer_lost`). -/
namespace Sylar.Drain
open Sylar.Lib
open Sylar.Scheduler (Task takeTask takeTask_some)

/-! ## Data -/

/-- Where a worker stands in `run()` and `idle()`. -/
inductive Pc where
  | top
  | noTask
  | executing (task : Task)
  /-- In the idle fiber, before `getNextTimer()`. -/
  | idling
  /-- `getNextTimer()` has found no timer. -/
  | sawNoTimer
  /-- Nor was an event pending. -/
  | sawNoEvent
  /-- `stopping()` was false: in `epoll_wait`, up to `listExpiredCb`. -/
  | waiting
  /-- Behind `listExpiredCb`, with the callbacks still to schedule, and in the loop over the events. -/
  | collected (cbs : List Task)
  | left
  deriving DecidableEq, Repr

structure Worker where
  thread : Int
  pc : Pc := .top
  /-- The idle fiber is `TERM`. -/
  idleTerm : Bool := false
  deriving DecidableEq, Repr

/-- A timer: what its callback is scheduled as. -/
structure Timer where
  task : Task
  recurring : Bool
  deriving DecidableEq, Repr

/-- `Scheduler::GetThis()` of a thread, as this `IOManager` sees it. -/
inductive SchedulerPtr where
  | this
  | other
  | null
  deriving DecidableEq, Repr

/-- A registered event: what it is to schedule, and where. -/
structure Event where
  task : Task
  scheduler : SchedulerPtr
  deriving DecidableEq, Repr

structure State where
  tasks : List Task
  activeThreadCount : BitVec 64
  stopping : Bool
  timers : List Timer
  pendingEventCount : BitVec 64
  events : List Event
  /-- The events that are queued and not yet counted down. -/
  triggering : Nat
  workers : List Worker
  made : List Task
  completed : List Task
  cancelled : List Task
  /-- What other schedulers have been given. -/
  handed : List Task
  /-- A null scheduler has been dereferenced. -/
  crashed : Bool
  deriving DecidableEq, Repr

def init (threads : List Int) : State where
  tasks := []
  activeThreadCount := 0
  stopping := false
  timers := []
  pendingEventCount := 0
  events := []
  triggering := 0
  workers := threads.map fun thread => { thread := thread }
  made := []
  completed := []
  cancelled := []
  handed := []
  crashed := false

/-- Who gives work: the task that a worker executes, or a thread that is none of the workers. -/
inductive Giver where
  | worker (i : Nat)
  | outside
  deriving DecidableEq, Repr

/-- Who triggers an event: the dispatch of a worker, or a call of `cancelEvent` or `cancelAll`. -/
inductive Trigger where
  | dispatch (i : Nat)
  | cancel (by_ : Giver)
  deriving DecidableEq, Repr

/-! ## Steps -/

def State.setWorker (s : State) (i : Nat) (w : Worker) : State := { s with workers := s.workers.set i w }

/-- The task that a new piece of work is scheduled as. -/
def State.newTask (s : State) (fiber cb : Option Nat) (thread : Int) : Task :=
  { id := s.made.length, fiber := fiber, cb := cb, thread := thread }

/-- A worker gives work while it executes a task. -/
def State.gives (s : State) : Giver → Bool
  | .worker i => s.workers[i]?.any fun w => match w.pc with | .executing _ => true | _ => false
  | .outside => true

/-- `Scheduler::GetThis()` where an event is registered; a worker's is `t_scheduler` of `run()`. -/
def Giver.getThis (elsewhere : SchedulerPtr) : Giver → SchedulerPtr
  | .worker _ => .this
  | .outside => elsewhere

def State.triggers (s : State) : Trigger → Bool
  | .dispatch i => s.workers[i]?.any fun w => w.pc = .collected []
  | .cancel g => s.gives g

/-- `Scheduler::stopping()`. -/
def State.schedulerStopping (s : State) : Bool := s.stopping && s.tasks.isEmpty && s.activeThreadCount == 0

/-- `listExpiredCb` over the timers: those that stay, the callbacks, and the work made so far. A
recurring timer stays and its callback is a new piece of work. -/
def listExpired (expired : Timer → Bool) : List Timer → List Task → List Timer × List Task × List Task
  | [], made => ([], [], made)
  | t :: rest, made =>
    if expired t then
      if t.recurring then
        let task := { t.task with id := made.length }
        let r := listExpired expired rest (made ++ [task])
        (t :: r.1, task :: r.2.1, r.2.2)
      else
        let r := listExpired expired rest made
        (r.1, t.task :: r.2.1, r.2.2)
    else
      let r := listExpired expired rest made
      (t :: r.1, r.2.1, r.2.2)

inductive Act where
  | schedule (by_ : Giver) (fiber cb : Option Nat) (thread : Int)
  | addTimer (by_ : Giver) (cb : Nat) (recurring : Bool)
  | cancelTimer (k : Nat)
  /-- `addEvent`, from another thread with the scheduler of that thread. -/
  | addEvent (by_ : Giver) (elsewhere : SchedulerPtr) (fiber cb : Option Nat)
  /-- `triggerEvent`, up to the task that it schedules. -/
  | trigger (by_ : Trigger) (k : Nat)
  /-- `--m_pendingEventCount` behind it. -/
  | countDown
  | stop
  | take (i : Nat) (running : Nat → Bool) (stale : Bool)
  | finish (i : Nat)
  | idle (i : Nat)
  | getNextTimer (i : Nat)
  | readPending (i : Nat)
  | schedulerStopping (i : Nat)
  | listExpired (i : Nat) (expired : Timer → Bool)
  | scheduleExpired (i : Nat)
  | yield (i : Nat)

/-- Worker `i`, looking for a task. -/
def State.take (s : State) (i : Nat) (w : Worker) (running : Nat → Bool) (stale : Bool) : State :=
  match takeTask w.thread running stale s.tasks with
  | (some task, queue, _) =>
    { s.setWorker i { w with pc := .executing task } with
      tasks := queue, activeThreadCount := s.activeThreadCount + 1 }
  | (none, _, _) => s.setWorker i { w with pc := .noTask }

/-- One step of a worker, by the place where it stands. -/
def State.workerStep (s : State) (i : Nat) (w : Worker) : Act → Option State
  | .take _ running stale => if w.pc = .top then some (s.take i w running stale) else none
  | .finish _ =>
    match w.pc with
    | .executing task =>
      some { s.setWorker i { w with pc := .top } with
        activeThreadCount := s.activeThreadCount - 1, completed := s.completed ++ [task] }
    | _ => none
  | .idle _ =>
    if w.pc = .noTask then some (s.setWorker i { w with pc := if w.idleTerm then .left else .idling }) else none
  | .getNextTimer _ =>
    if w.pc = .idling then
      some (s.setWorker i { w with pc := if s.timers.isEmpty then .sawNoTimer else .waiting })
    else none
  | .readPending _ =>
    if w.pc = .sawNoTimer then
      some (s.setWorker i { w with pc := if s.pendingEventCount = 0 then .sawNoEvent else .waiting })
    else none
  | .schedulerStopping _ =>
    if w.pc = .sawNoEvent then
      some (s.setWorker i (if s.schedulerStopping then { w with pc := .top, idleTerm := true }
        else { w with pc := .waiting }))
    else none
  | .listExpired _ expired =>
    if w.pc = .waiting then
      let r := listExpired expired s.timers s.made
      some { s.setWorker i { w with pc := .collected r.2.1 } with timers := r.1, made := r.2.2 }
    else none
  | .scheduleExpired _ =>
    match w.pc with
    | .collected (cb :: cbs) => some { s.setWorker i { w with pc := .collected cbs } with tasks := s.tasks ++ [cb] }
    | _ => none
  | .yield _ => if w.pc = .collected [] then some (s.setWorker i { w with pc := .top }) else none
  | _ => none

/-- The worker whose step it is. -/
def Act.worker : Act → Option Nat
  | .take i _ _ | .finish i | .idle i | .getNextTimer i | .readPending i | .schedulerStopping i
  | .listExpired i _ | .scheduleExpired i | .yield i => some i
  | _ => none

/-- `triggerEvent` of the event at `k`. -/
def State.triggerEvent (s : State) (k : Nat) (event : Event) : State :=
  match event.scheduler with
  | .this => { s with
      events := s.events.eraseIdx k, tasks := s.tasks ++ [event.task], triggering := s.triggering + 1 }
  | .other => { s with
      events := s.events.eraseIdx k, handed := s.handed ++ [event.task], triggering := s.triggering + 1 }
  | .null => { s with crashed := true }

/-- A step that is not the loop of a worker. There are less than 2^32 descriptors, with two
events each, so the number of pending events is bounded. -/
def State.callStep (s : State) : Act → Option State
  | .schedule g fiber cb thread =>
    if s.gives g then
      -- an empty task is dropped
      if fiber.isSome ∨ cb.isSome then
        let ft := s.newTask fiber cb thread
        some { s with tasks := s.tasks ++ [ft], made := s.made ++ [ft] }
      else some s
    else none
  | .addTimer g cb recurring =>
    if s.gives g then
      let task := s.newTask none (some cb) (-1)
      some { s with timers := s.timers ++ [{ task := task, recurring := recurring }], made := s.made ++ [task] }
    else none
  | .cancelTimer k =>
    s.timers[k]?.map fun t => { s with timers := s.timers.eraseIdx k, cancelled := s.cancelled ++ [t.task] }
  | .addEvent g elsewhere fiber cb =>
    if s.gives g ∧ (fiber.isSome ∨ cb.isSome) ∧ s.events.length + s.triggering < 2 ^ 33 then
      let event : Event := { task := s.newTask fiber cb (-1), scheduler := g.getThis elsewhere }
      some { s with
        events := s.events ++ [event], made := s.made ++ [event.task]
        pendingEventCount := s.pendingEventCount + 1 }
    else none
  | .trigger t k =>
    if s.triggers t then s.events[k]?.map fun event => s.triggerEvent k event
    else none
  | .countDown =>
    if 0 < s.triggering then
      some { s with triggering := s.triggering - 1, pendingEventCount := s.pendingEventCount - 1 }
    else none
  | .stop => some { s with stopping := true }
  | _ => none

/-- One step of any thread; none is made behind a crash. -/
def step (s : State) (a : Act) : Option State :=
  if s.crashed then none
  else
    match a.worker with
    | some i => s.workers[i]?.bind fun w => s.workerStep i w a
    | none => s.callStep a

theorem step_cases {s s' : State} {a : Act} (h : step s a = some s') :
    (∃ i w, a.worker = some i ∧ s.workers[i]? = some w ∧ s.workerStep i w a = some s') ∨ s.callStep a = some s' := by
  unfold step at h
  split at h
  · cases h
  · split at h
    · rename_i i hworker
      obtain ⟨w, hw, hstep⟩ := Option.bind_eq_some_iff.mp h
      exact .inl ⟨i, w, hworker, hw, hstep⟩
    · exact .inr h

/-! ## Where the work is -/

def Pc.held : Pc → List Task
  | .executing task => [task]
  | .collected cbs => cbs
  | _ => []

def Worker.held (w : Worker) : List Task := w.pc.held

theorem Worker.held_of_pc {w : Worker} {pc : Pc} (hpc : w.pc = pc) : w.held = pc.held := congrArg Pc.held hpc

/-- How often a task is somewhere. -/
def State.places (s : State) (x : Task) : Nat :=
  (s.timers.map Timer.task).count x + (s.events.map Event.task).count x + s.tasks.count x +
    (s.workers.map fun w => w.held.count x).sum + s.completed.count x + s.cancelled.count x + s.handed.count x

/-- The work made so far is where it is, each piece once, and is numbered. -/
structure Conserved (s : State) : Prop where
  work : ∀ x, s.made.count x = s.places x
  numbered : s.made.map Task.id = List.range s.made.length

theorem numbered_concat {made : List Task} (h : made.map Task.id = List.range made.length) {task : Task}
    (hid : task.id = made.length) : (made ++ [task]).map Task.id = List.range (made ++ [task]).length := by
  rw [List.map_append, h, List.length_append, List.length_singleton, List.range_succ, List.map_singleton, hid]

/-- The timers that stay, the callbacks and the new work are what the timers and the work were. -/
theorem listExpired_count (expired : Timer → Bool) (x : Task) : ∀ (timers : List Timer) (made : List Task),
    (listExpired expired timers made).2.2.count x + (timers.map Timer.task).count x =
      made.count x + ((listExpired expired timers made).1.map Timer.task).count x +
        (listExpired expired timers made).2.1.count x
  | [], made => by simp [listExpired]
  | t :: rest, made => by
    rw [listExpired, List.map_cons, count_head t.task (rest.map Timer.task)]
    split
    · split
      · dsimp only
        generalize ({ t.task with id := made.length } : Task) = copy
        have hrest := listExpired_count expired x rest (made ++ [copy])
        rw [List.count_append] at hrest
        rw [List.map_cons, count_head t.task (List.map _ _), count_head copy (Prod.fst _)]
        omega
      · have hrest := listExpired_count expired x rest made
        dsimp only
        rw [count_head t.task (Prod.fst _)]
        omega
    · have hrest := listExpired_count expired x rest made
      dsimp only
      rw [List.map_cons, count_head t.task (List.map _ (Prod.fst _))]
      omega

theorem listExpired_numbered (expired : Timer → Bool) : ∀ (timers : List Timer) (made : List Task),
    made.map Task.id = List.range made.length →
    (listExpired expired timers made).2.2.map Task.id = List.range (listExpired expired timers made).2.2.length
  | [], _, h => h
  | t :: rest, made, h => by
    rw [listExpired]
    split
    · split
      · exact listExpired_numbered expired rest _ (numbered_concat h rfl)
      · exact listExpired_numbered expired rest made h
    · exact listExpired_numbered expired rest made h

section
variable {s s' : State} {i : Nat} {w : Worker}

/-- A worker that moves on and holds what it held. -/
theorem Conserved.move (h : Conserved s) (hw : s.workers[i]? = some w) {w' : Worker} (hheld : w'.held = w.held) :
    Conserved (s.setWorker i w') where
  work x := by
    have hset := sum_map_set (fun w => w.held.count x) hw w'
    have hwork := h.work x
    unfold State.places State.setWorker at *
    dsimp only at hset ⊢
    rw [hheld] at hset
    omega
  numbered := h.numbered

theorem conserved_take (h : Conserved s) (hw : s.workers[i]? = some w) (hpc : w.pc = .top) (running : Nat → Bool)
    (stale : Bool) : Conserved (s.take i w running stale) := by
  have hnone : w.held = [] := Worker.held_of_pc hpc
  unfold State.take
  split
  · rename_i task queue tickle htake
    refine ⟨?_, h.numbered⟩
    intro x
    have hset := sum_map_set (fun w => w.held.count x) hw { w with pc := .executing task }
    have hqueue := (takeTask_some htake).count_eq x
    have hwork := h.work x
    have hheld : ({ w with pc := .executing task } : Worker).held = [task] := rfl
    rw [count_head] at hqueue
    unfold State.places State.setWorker at *
    dsimp only at hset ⊢
    rw [hnone, hheld, List.count_nil] at hset
    omega
  · exact h.move hw (by rw [hnone]; rfl)

theorem conserved_workerStep (h : Conserved s) (hw : s.workers[i]? = some w) {a : Act}
    (hstep : s.workerStep i w a = some s') : Conserved s' := by
  cases a with
  | take j running stale =>
    simp only [State.workerStep, Option.ite_none_right_eq_some, Option.some.injEq] at hstep
    obtain ⟨hpc, rfl⟩ := hstep
    exact conserved_take h hw hpc running stale
  | finish j =>
    simp only [State.workerStep] at hstep
    split at hstep
    · rename_i task hpc
      cases hstep
      refine ⟨?_, h.numbered⟩
      intro x
      have hset := sum_map_set (fun w => w.held.count x) hw { w with pc := .top }
      have hwork := h.work x
      have hheld : w.held = [task] := Worker.held_of_pc hpc
      have hnone : ({ w with pc := .top } : Worker).held = [] := rfl
      unfold State.places State.setWorker at *
      dsimp only at hset ⊢
      rw [hheld, hnone, List.count_nil] at hset
      rw [List.count_append]
      omega
    · cases hstep
  | idle j =>
    simp only [State.workerStep, Option.ite_none_right_eq_some, Option.some.injEq] at hstep
    obtain ⟨hpc, rfl⟩ := hstep
    refine h.move hw ?_
    rw [Worker.held_of_pc hpc]
    cases w.idleTerm <;> rfl
  | getNextTimer j =>
    simp only [State.workerStep, Option.ite_none_right_eq_some, Option.some.injEq] at hstep
    obtain ⟨hpc, rfl⟩ := hstep
    refine h.move hw ?_
    rw [Worker.held_of_pc hpc]
    cases s.timers.isEmpty <;> rfl
  | readPending j =>
    simp only [State.workerStep, Option.ite_none_right_eq_some, Option.some.injEq] at hstep
    obtain ⟨hpc, rfl⟩ := hstep
    refine h.move hw ?_
    rw [Worker.held_of_pc hpc, Worker.held]
    split <;> rfl
  | schedulerStopping j =>
    simp only [State.workerStep, Option.ite_none_right_eq_some, Option.some.injEq] at hstep
    obtain ⟨hpc, rfl⟩ := hstep
    refine h.move hw ?_
    rw [Worker.held_of_pc hpc]
    cases s.schedulerStopping <;> rfl
  | listExpired j expired =>
    simp only [State.workerStep, Option.ite_none_right_eq_some, Option.some.injEq] at hstep
    obtain ⟨hpc, rfl⟩ := hstep
    refine ⟨?_, listExpired_numbered expired s.timers s.made h.numbered⟩
    intro x
    have hset := sum_map_set (fun w => w.held.count x) hw
      { w with pc := .collected (listExpired expired s.timers s.made).2.1 }
    have hcount := listExpired_count expired x s.timers s.made
    have hwork := h.work x
    have hnone : w.held = [] := Worker.held_of_pc hpc
    have hheld : ({ w with pc := .collected (listExpired expired s.timers s.made).2.1 } : Worker).held =
        (listExpired expired s.timers s.made).2.1 := rfl
    -- the callbacks that expire go from the timers to the hands of this worker
    unfold State.places State.setWorker at *
    dsimp only at hset ⊢
    rw [hnone, hheld, List.count_nil] at hset
    omega
  | scheduleExpired j =>
    simp only [State.workerStep] at hstep
    split at hstep
    · rename_i cb cbs hpc
      cases hstep
      refine ⟨?_, h.numbered⟩
      intro x
      have hset := sum_map_set (fun w => w.held.count x) hw { w with pc := .collected cbs }
      have hwork := h.work x
      have hheld : w.held = [cb] ++ cbs := Worker.held_of_pc hpc
      have hrest : ({ w with pc := .collected cbs } : Worker).held = cbs := rfl
      unfold State.places State.setWorker at *
      dsimp only at hset ⊢
      rw [hheld, hrest, List.count_append] at hset
      rw [List.count_append]
      omega
    · cases hstep
  | yield j =>
    simp only [State.workerStep, Option.ite_none_right_eq_some, Option.some.injEq] at hstep
    obtain ⟨hpc, rfl⟩ := hstep
    exact h.move hw (Worker.held_of_pc hpc).symm
  | _ => cases hstep

theorem conserved_triggerEvent (h : Conserved s) {k : Nat} {event : Event} (hevent : s.events[k]? = some event) :
    Conserved (s.triggerEvent k event) := by
  have hget : (s.events.map Event.task)[k]? = some event.task := by rw [List.getElem?_map, hevent, Option.map_some]
  have hwork := h.work
  unfold State.triggerEvent
  cases event.scheduler with
  | this =>
    refine ⟨?_, h.numbered⟩
    intro x
    have herase := count_eraseIdx hget x
    unfold State.places at *
    dsimp only
    rw [List.count_append, hwork x, herase, List.eraseIdx_map]
    omega
  | other =>
    refine ⟨?_, h.numbered⟩
    intro x
    have herase := count_eraseIdx hget x
    unfold State.places at *
    dsimp only
    rw [List.count_append, hwork x, herase, List.eraseIdx_map]
    omega
  | null =>
    -- the program ends in this call, and the state keeps the event
    exact ⟨hwork, h.numbered⟩

theorem conserved_callStep (h : Conserved s) {a : Act} (hstep : s.callStep a = some s') : Conserved s' := by
  have hwork := h.work
  unfold State.places at hwork
  cases a with
  | schedule g fiber cb thread =>
    simp only [State.callStep, Option.ite_none_right_eq_some] at hstep
    obtain ⟨-, hstep⟩ := hstep
    split at hstep
    · cases hstep
      refine ⟨?_, numbered_concat h.numbered rfl⟩
      intro x
      unfold State.places
      dsimp only
      rw [List.count_append, List.count_append, hwork x]
      omega
    · cases hstep
      exact h
  | addTimer g cb recurring =>
    simp only [State.callStep, Option.ite_none_right_eq_some, Option.some.injEq] at hstep
    obtain ⟨-, rfl⟩ := hstep
    refine ⟨?_, numbered_concat h.numbered rfl⟩
    intro x
    unfold State.places
    dsimp only
    rw [List.count_append, List.map_append, List.count_append, hwork x, List.map_cons, List.map_nil]
    dsimp only
    omega
  | cancelTimer k =>
    simp only [State.callStep, Option.map_eq_some_iff] at hstep
    obtain ⟨t, ht, rfl⟩ := hstep
    refine ⟨?_, h.numbered⟩
    intro x
    have hget : (s.timers.map Timer.task)[k]? = some t.task := by rw [List.getElem?_map, ht, Option.map_some]
    have herase := count_eraseIdx hget x
    unfold State.places
    dsimp only
    rw [List.count_append, hwork x, herase, List.eraseIdx_map]
    omega
  | addEvent g elsewhere fiber cb =>
    simp only [State.callStep, Option.ite_none_right_eq_some, Option.some.injEq] at hstep
    obtain ⟨-, rfl⟩ := hstep
    refine ⟨?_, numbered_concat h.numbered rfl⟩
    intro x
    unfold State.places
    dsimp only
    rw [List.count_append, List.map_append, List.count_append, hwork x, List.map_cons, List.map_nil]
    dsimp only
    omega
  | trigger t k =>
    simp only [State.callStep, Option.ite_none_right_eq_some, Option.map_eq_some_iff] at hstep
    obtain ⟨-, event, hevent, rfl⟩ := hstep
    exact conserved_triggerEvent h hevent
  | countDown =>
    simp only [State.callStep, Option.ite_none_right_eq_some, Option.some.injEq] at hstep
    obtain ⟨-, rfl⟩ := hstep
    exact ⟨hwork, h.numbered⟩
  | stop =>
    cases hstep
    exact ⟨hwork, h.numbered⟩
  | _ => cases hstep

theorem conserved_step (h : Conserved s) {a : Act} (hstep : step s a = some s') : Conserved s' := by
  obtain ⟨i, w, -, hw, hworker⟩ | hcall := step_cases hstep
  · exact conserved_workerStep h hw hworker
  · exact conserved_callStep h hcall

end

theorem conserved_init (threads : List Int) : Conserved (init threads) := by
  refine ⟨?_, rfl⟩
  intro x
  have hsum : ((init threads).workers.map fun w => w.held.count x).sum = 0 := by
    refine List.sum_eq_zero ?_
    intro n hn
    obtain ⟨w, hw, rfl⟩ := List.mem_map.mp hn
    obtain ⟨thread, -, rfl⟩ := List.mem_map.mp hw
    rfl
  unfold State.places
  rw [hsum]
  rfl

theorem conserved_of_reached {ok : State → Act → Prop} {threads : List Int} {s : State}
    (h : Reached step ok (init threads) s) : Conserved s :=
  h.inv (conserved_init threads) fun _ _ _ hs _ hstep => conserved_step hs hstep

/-! ## Who still looks -/

def Pc.attention : Pc → Nat
  | .sawNoEvent => 1
  | .sawNoTimer => 2
  | _ => 3

/-- What a worker looks at before it leaves: nothing (0), the queue (1), the events too (2), or
the timers too (3). -/
def Worker.attention (w : Worker) : Nat := if w.idleTerm then 0 else w.pc.attention

/-- What there is to look at. -/
def State.demand (s : State) : Nat :=
  if s.timers ≠ [] then 3 else if s.events ≠ [] ∨ 0 < s.triggering then 2 else if s.tasks ≠ [] then 1 else 0

theorem demand_le_three (s : State) : s.demand ≤ 3 := by
  unfold State.demand
  repeat' split
  all_goals omega

/-- A worker whose idle fiber has ended takes no task, and threads other than the workers give
work only while some worker still looks at everything. -/
def Orderly (s : State) : Act → Prop
  | .take i running stale =>
    ∀ w ∈ s.workers[i]?, w.idleTerm = true → (takeTask w.thread running stale s.tasks).1 = none
  | .schedule .outside _ _ _ | .addTimer .outside _ _ | .addEvent .outside _ _ _ | .trigger (.cancel .outside) _ =>
    ∃ w ∈ s.workers, w.attention = 3
  | _ => True

instance (s : State) (a : Act) : Decidable (Orderly s a) := by
  unfold Orderly
  split <;> infer_instance

/-- Where an idle fiber that has ended can stand. -/
def Worker.Settled (w : Worker) : Prop :=
  (w.idleTerm = true → w.pc = .top ∨ w.pc = .noTask ∨ w.pc = .left) ∧ (w.pc = .left → w.idleTerm = true)

/-- Some worker still looks at what there is. -/
structure Watched (s : State) : Prop where
  pending : s.pendingEventCount = BitVec.ofNat 64 (s.events.length + s.triggering)
  bound : s.events.length + s.triggering ≤ 2 ^ 33
  settled : ∀ w ∈ s.workers, w.Settled
  looks : 0 < s.demand → ∃ w ∈ s.workers, s.demand ≤ w.attention

section
variable {s s' : State} {i : Nat} {w w' : Worker}

/-- In the idle fiber, or with a task, a worker's idle fiber has not ended. -/
theorem Worker.Settled.running (h : w.Settled) (hpc : ¬(w.pc = .top ∨ w.pc = .noTask ∨ w.pc = .left)) :
    w.idleTerm = false := by
  cases hterm : w.idleTerm with
  | false => rfl
  | true => exact absurd (h.1 hterm) hpc

theorem Worker.attention_of_running (hterm : w.idleTerm = false) : w.attention = w.pc.attention := by
  rw [Worker.attention, hterm]
  rfl

theorem Worker.settled_of_running (hterm : w.idleTerm = false) (hpc : w.pc ≠ .left) : w.Settled := by
  refine ⟨?_, fun hleft => absurd hleft hpc⟩
  intro hyes
  cases hterm.symm.trans hyes

/-- A step of a worker that leaves the events: what it looks at then is still enough for what there is. -/
theorem Watched.set (h : Watched s) (hw : s.workers[i]? = some w) (hworkers : s'.workers = s.workers.set i w')
    (hevents : s'.events = s.events) (htriggering : s'.triggering = s.triggering)
    (hpending : s'.pendingEventCount = s.pendingEventCount) (hsettled : w'.Settled)
    (hlooks : w'.attention = 3 ∨ s'.demand ≤ s.demand ∧ (s.demand ≤ w.attention → s'.demand ≤ w'.attention)) :
    Watched s' := by
  refine ⟨?_, ?_, ?_, ?_⟩
  · rw [hpending, hevents, htriggering]
    exact h.pending
  · rw [hevents, htriggering]
    exact h.bound
  · rw [hworkers]
    exact forall_mem_set h.settled hsettled
  · intro hpos
    rw [hworkers]
    rcases hlooks with hall | ⟨hle, hkeep⟩
    · have hi : i < s.workers.length := (List.getElem?_eq_some_iff.mp hw).1
      refine ⟨w', List.mem_set hi w', ?_⟩
      rw [hall]
      exact demand_le_three s'
    · exact exists_mem_set hw hkeep (fun v hv => hle.trans hv) (h.looks (by omega))

/-- The worker looks at everything again. -/
theorem Watched.look (h : Watched s) (hw : s.workers[i]? = some w) (hworkers : s'.workers = s.workers.set i w')
    (hevents : s'.events = s.events) (htriggering : s'.triggering = s.triggering)
    (hpending : s'.pendingEventCount = s.pendingEventCount) (hterm : w'.idleTerm = false)
    (hpc : w'.pc.attention = 3 ∧ w'.pc ≠ .left) : Watched s' := by
  refine h.set hw hworkers hevents htriggering hpending (Worker.settled_of_running hterm hpc.2) (.inl ?_)
  rw [Worker.attention_of_running hterm, hpc.1]

/-- New work, while a worker looks at everything. -/
theorem Watched.give (h : Watched s) (hlooks : ∃ w ∈ s.workers, w.attention = 3) (hworkers : s'.workers = s.workers)
    (hpending : s'.pendingEventCount = BitVec.ofNat 64 (s'.events.length + s'.triggering))
    (hbound : s'.events.length + s'.triggering ≤ 2 ^ 33) : Watched s' := by
  refine ⟨hpending, hbound, ?_, ?_⟩
  · rw [hworkers]
    exact h.settled
  · intro _
    obtain ⟨w, hw, hatt⟩ := hlooks
    rw [hworkers]
    refine ⟨w, hw, ?_⟩
    rw [hatt]
    exact demand_le_three s'

end

/-- Whatever the threads do and in whichever order: the pieces of work are all different, each is in
exactly one place, and nothing else is in any place. -/
theorem work_conserved {threads : List Int} {s : State} (h : Reached step (fun _ _ => True) (init threads) s) :
    s.made.Nodup ∧ ∀ task, s.places task = if task ∈ s.made then 1 else 0 := by
  have hconserved := conserved_of_reached h
  have hnodup : s.made.Nodup := by
    refine List.Nodup.of_map Task.id ?_
    rw [hconserved.numbered]
    exact List.nodup_range
  refine ⟨hnodup, ?_⟩
  intro task
  rw [← hconserved.work, hnodup.count]

/-- A worker that finds no task: into its idle fiber, or out of `run()`. -/
def enter (i : Nat) : List Act := [.take i (fun _ => false) false, .idle i]

/-- The checks of `stopping`, with what happens between the first and the others. -/
def look (i : Nat) (between : List Act) : List Act :=
  [.getNextTimer i] ++ between ++ [.readPending i, .schedulerStopping i]

/-- A task arms a recurring timer and awaits an event, and a thread of another scheduler awaits one too; the
other worker collects all, the timer is cancelled, and both workers leave. -/
def day : List Act :=
  let free := fun _ => false
  [.schedule .outside none (some 7) (-1), .take 0 free false, .addTimer (.worker 0) 8 true,
    .addEvent (.worker 0) .this none (some 9), .addEvent .outside .other none (some 10), .stop, .finish 0,
    .take 1 free false, .idle 1, .getNextTimer 1, .listExpired 1 fun _ => true, .scheduleExpired 1,
    .trigger (.dispatch 1) 0, .countDown, .trigger (.dispatch 1) 0, .countDown, .cancelTimer 0, .yield 1,
    .take 1 free false, .finish 1, .take 1 free false, .finish 1] ++
  [1, 0].flatMap fun i => enter i ++ look i [] ++ enter i

theorem work_conserved_day : ∃ s, Lib.after step day (init [1, 2]) = some s ∧ s.made.length = 5 ∧
    ∀ task ∈ s.made, s.places task = 1 := by
  obtain ⟨s, hs, hlength⟩ := (Option.any_eq_true _ _).mp
    (by decide : (Lib.after step day (init [1, 2])).any (fun s => s.made.length = 5) = true)
  refine ⟨s, hs, of_decide_eq_true hlength, ?_⟩
  intro task htask
  have h := work_conserved (Reached.start.after (fun _ _ => trivial) day hs)
  rw [h.2 task, if_pos htask]

/-- A worker whose idle fiber has ended takes a task, and the task arms a timer that nobody looks at. -/
theorem late_task_loses_timer : ∃ s, Reached step (fun _ _ => True) (init [1, 2]) s ∧
    (∀ w ∈ s.workers, w.pc = .left) ∧ s.timers ≠ [] := by
  obtain ⟨s, hs, hend⟩ := (Option.any_eq_true _ _).mp
    (by decide : (Lib.after step
      ([Act.stop] ++ enter 1 ++ look 1 [] ++ enter 0 ++ [.schedule .outside none (some 7) (-1)] ++
        look 0 [.take 1 (fun _ => false) false, .addTimer (.worker 1) 8 false, .finish 1] ++ enter 0 ++ enter 1)
      (init [1, 2])).any (fun s => decide ((∀ w ∈ s.workers, w.pc = .left) ∧ s.timers ≠ [])) = true)
  exact ⟨s, Reached.start.after (fun _ _ => trivial) _ hs, of_decide_eq_true hend⟩

/-- Another thread arms a timer when the only worker has looked at the timers. -/
theorem outside_timer_lost : ∃ s, Reached step (fun _ _ => True) (init [1]) s ∧
    (∀ w ∈ s.workers, w.pc = .left) ∧ s.timers ≠ [] := by
  obtain ⟨s, hs, hend⟩ := (Option.any_eq_true _ _).mp
    (by decide : (Lib.after step
      ([Act.stop] ++ enter 0 ++ look 0 [.addTimer .outside 8 false] ++ enter 0) (init [1])).any
      (fun s => decide ((∀ w ∈ s.workers, w.pc = .left) ∧ s.timers ≠ [])) = true)
  exact ⟨s, Reached.start.after (fun _ _ => trivial) _ hs, of_decide_eq_true hend⟩

end Sylar.Drain
