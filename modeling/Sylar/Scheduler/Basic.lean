import Mathlib.Data.List.Basic

/- The scheduler of `sylar/scheduler.h` and `sylar/scheduler.cc`.

   A worker is a thread in `run()`. The atomic steps are the source's critical
   sections and the accesses to its atomic counter: `schedule` under `m_mutex`, the
   scan for a task under `m_mutex`, the decrement after a task's `resume`,
   `m_stopping = true` in `stop()`, and the call of `stopping()` in `idle()`. Between
   them a worker is at one of the places of `Pc`. A worker that has not entered
   `run()` yet, as the caller's before `stop()` resumes it, is at the top of the loop
   and has made no step.

   Tasks are numbered as `schedule` takes them in, and `scheduled`, `taken` and
   `completed` keep the record of what happened to them; the program does not read
   it. Which fibers run is an input of the scan. What `tickle()` does is not
   modelled: in this class it only logs.

   After `m_tasks.erase(it)` the scan increments the erased iterator and compares it
   with the end. What that comparison gives is an input (`stale`); it can only reach
   `tickle_me`. -/
namespace Sylar.Scheduler

/-! ## Data -/

/-- `ScheduleTask`, with the number of the `schedule` call that made it. -/
structure Task where
  id : Nat
  fiber : Option Nat
  cb : Option Nat
  thread : Int
  deriving DecidableEq, Repr

/-- Where a worker stands in `run()`. -/
inductive Pc where
  /-- Before the scan of the task queue. -/
  | top
  /-- The scan found no task. -/
  | noTask
  /-- In the `resume` of a task, up to the decrement behind it. -/
  | executing (task : Task)
  /-- In the idle fiber, before its call of `stopping()`. -/
  | idling
  /-- Out of `run()`. -/
  | left
  deriving DecidableEq, Repr

structure Worker where
  thread : Int
  pc : Pc := .top
  /-- The idle fiber is `TERM`: its `stopping()` returned true. -/
  idleTerm : Bool := false
  deriving DecidableEq, Repr

structure State where
  tasks : List Task
  activeThreadCount : BitVec 64
  stopping : Bool
  workers : List Worker
  scheduled : List Task
  taken : List (Nat × Task)
  completed : List Task
  deriving DecidableEq, Repr

/-- A scheduler whose workers have the given thread ids. -/
def init (threads : List Int) : State where
  tasks := []
  activeThreadCount := 0
  stopping := false
  workers := threads.map fun thread => { thread := thread }
  scheduled := []
  taken := []
  completed := []

/-! ## The scan -/

/-- The loop of `run()` over the queue, with `tickle_me` as it goes: the first task that
is for any thread or for this one and whose fiber, if it has one, is not running. -/
def scan (thread : Int) (running : Nat → Bool) :
    List Task → Bool → Bool × Option (Task × List Task)
  | [], tickle_me => (tickle_me, none)
  | it :: rest, tickle_me =>
    if it.thread ≠ -1 ∧ it.thread ≠ thread then
      let (tickle_me, found) := scan thread running rest true
      (tickle_me, found.map fun (task, queue) => (task, it :: queue))
    else if it.fiber.any running then
      let (tickle_me, found) := scan thread running rest tickle_me
      (tickle_me, found.map fun (task, queue) => (task, it :: queue))
    else (tickle_me, some (it, rest))

/-- The critical section: the task taken, the queue left, and whether to tickle. -/
def takeTask (thread : Int) (running : Nat → Bool) (stale : Bool) (tasks : List Task) :
    Option Task × List Task × Bool :=
  match scan thread running tasks true with
  | (tickle_me, some (task, queue)) => (some task, queue, tickle_me || stale)
  | (tickle_me, none) => (none, tasks, tickle_me)

/-! ## Steps -/

/-- `Scheduler::stopping()`. -/
def State.stoppingNow (s : State) : Bool :=
  s.stopping && s.tasks.isEmpty && s.activeThreadCount == 0

def State.setWorker (s : State) (i : Nat) (w : Worker) : State :=
  { s with workers := s.workers.set i w }

/-- `scheduleNoLock`: an empty task is dropped. -/
def State.scheduleNoLock (s : State) (fiber cb : Option Nat) (thread : Int) : State :=
  let ft : Task := { id := s.scheduled.length, fiber := fiber, cb := cb, thread := thread }
  if fiber.isSome ∨ cb.isSome then
    { s with tasks := s.tasks ++ [ft], scheduled := s.scheduled ++ [ft] }
  else s

/-- Worker `i`, at `w`, looks for a task and takes it if there is one. -/
def State.take (s : State) (i : Nat) (w : Worker) (running : Nat → Bool) (stale : Bool) : State :=
  match takeTask w.thread running stale s.tasks with
  | (some task, queue, _) =>
    { s.setWorker i { w with pc := .executing task } with
      tasks := queue
      activeThreadCount := s.activeThreadCount + 1
      taken := s.taken ++ [(i, task)] }
  | (none, _, _) => s.setWorker i { w with pc := .noTask }

/-- The task of worker `i` returns from `resume`. -/
def State.finish (s : State) (i : Nat) (w : Worker) (task : Task) : State :=
  { s.setWorker i { w with pc := .top } with
    activeThreadCount := s.activeThreadCount - 1
    completed := s.completed ++ [task] }

/-- `stop()`, up to `m_stopping = true`. -/
def State.stop (s : State) : State := if s.stoppingNow then s else { s with stopping := true }

/-- Worker `i`, without a task, resumes its idle fiber, or leaves if that is `TERM`. -/
def State.idle (s : State) (i : Nat) (w : Worker) : State :=
  s.setWorker i { w with pc := if w.idleTerm then .left else .idling }

/-- The idle fiber of worker `i` calls `stopping()`: it ends when that is true, and yields
when it is not. -/
def State.check (s : State) (i : Nat) (w : Worker) : State :=
  s.setWorker i { w with pc := .top, idleTerm := s.stoppingNow }

/-- A task that executes. -/
def State.Executes (s : State) (task : Task) : Prop := ∃ w ∈ s.workers, w.pc = .executing task

/-- One atomic step, by any thread. A task that is not empty is scheduled before `stop()` or
by a task that executes. -/
inductive Step : State → State → Prop where
  | schedule {s : State} (fiber cb : Option Nat) (thread : Int)
      (h : (fiber = none ∧ cb = none) ∨ s.stopping = false ∨ ∃ caller, s.Executes caller) :
      Step s (s.scheduleNoLock fiber cb thread)
  | take {s : State} {i : Nat} {w : Worker} (running : Nat → Bool) (stale : Bool)
      (hw : s.workers[i]? = some w) (hpc : w.pc = .top) : Step s (s.take i w running stale)
  | finish {s : State} {i : Nat} {w : Worker} {task : Task}
      (hw : s.workers[i]? = some w) (hpc : w.pc = .executing task) : Step s (s.finish i w task)
  | stop {s : State} : Step s s.stop
  | idle {s : State} {i : Nat} {w : Worker}
      (hw : s.workers[i]? = some w) (hpc : w.pc = .noTask) : Step s (s.idle i w)
  | check {s : State} {i : Nat} {w : Worker}
      (hw : s.workers[i]? = some w) (hpc : w.pc = .idling) : Step s (s.check i w)

end Sylar.Scheduler
