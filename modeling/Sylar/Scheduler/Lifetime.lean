import Mathlib.Data.List.Basic
import Mathlib.Logic.Function.Basic
import Sylar.Lib.Machine
import Sylar.Scheduler.Resume

/- When the fibers of a scheduler are destroyed.

   A `Fiber` object goes with its last `Fiber::ptr`. Those are the handles of user code (in its
   variables, in the callbacks it has given away, in the events of an `IOManager`), those of the
   tasks in the queue, the `task` or the `cb_fiber` of a worker in `run()`, and `cur`, which
   `MainFunc` keeps on the fiber's own stack from the first `resume` until the fiber's function has
   returned. `Fiber::~Fiber` frees the stack and asserts that the fiber has ended.

   Nothing is ever done to a destroyed fiber, and a worker is inside a fiber by a handle of its own,
   so the stack is there also between `cur.reset()` and the switch back. A fiber that has yielded and that
   nobody else holds stays for ever. The assertion fails only where user code drops the last handle
   to a fiber that never began.

   All this as long as a fiber is not resumed or reset while a worker is on its stack still, between the store of
   its state and the switch (`Memory.apart`). A fiber that schedules itself before it yields may be taken in
   between. Where its context is that of the beginning still, `MainFunc` is entered again, and the second `cur`
   takes the place of the first, whose handle is never given back (`entered_twice`).

   The main fibers of the threads, `idle_fiber` and `m_rootFiber` are held by their threads and
   are left out.

   Correspondence (C++ ↔ Lean):
     `cur` of `Fiber::MainFunc`                ↔ `Memory.cur`, how many handles it has made and not given back
     `m_ctx`                                   ↔ `Memory.saved`, whether it is behind the beginning of `MainFunc`
     `task.fiber`, `cb_fiber` of a worker      ↔ `System.holding`
     `Fiber::~Fiber` with its assertion        ↔ `Memory.collect` -/
namespace Sylar.Scheduler

/-! ## Model -/

/-- A task of the queue has a handle. -/
def System.queued (s : System) (f : Nat) : Bool := s.sched.tasks.any fun task => task.fiber == some f

/-- The fiber that worker `i` has a handle to: its task's, or the one made for its callback. -/
def System.holding (s : System) (i : Nat) : Option Nat :=
  (s.sched.workers[i]?.bind Worker.task).bind fun task =>
    match task.fiber with
    | some f => some f
    | none => (s.inside i).or (s.leaving i)

structure Memory where
  sys : System
  /-- How many handles user code has. -/
  user : Nat → Nat
  cur : Nat → Nat
  saved : Nat → Bool
  alive : Nat → Bool
  /-- The assertion of a destructor has failed. -/
  failed : Bool

def Memory.init (threads : List Int) : Memory where
  sys := System.init threads
  user := fun _ => 0
  cur := fun _ => 0
  saved := fun _ => false
  alive := fun _ => false
  failed := false

/-- Some handle is left. -/
def Memory.held (s : Memory) (f : Nat) : Bool :=
  s.user f != 0 || s.sys.queued f ||
    (List.range s.sys.sched.workers.length).any (fun i => s.sys.holding i == some f) || s.cur f != 0

/-- Destroys the fibers whose last handle is gone. -/
def Memory.collect (s : Memory) : Memory :=
  { s with
    alive := fun f => s.alive f && s.held f
    failed := s.failed ||
      (List.range s.sys.next).any fun f => s.alive f && !s.held f && s.sys.fibers f != .TERM }

inductive Use where
  | sys (a : SystemAct)
  /-- User code copies a handle, or gets one to the fiber it executes in from `GetThis()`. -/
  | copy (f : Nat)
  | drop (f : Nat)
  deriving DecidableEq, Repr

/-- User code has a handle to the fiber it names. -/
def Memory.allows (s : Memory) : SystemAct → Bool
  | .schedule (some f) _ _ => s.user f != 0
  | .reset f => s.user f != 0
  | _ => true

/-- `cur`, behind a step that leads to `t`: a fiber that is entered at the beginning makes it, and gives it back
when its function returns. -/
def Memory.curAfter (s : Memory) (t : System) (a : SystemAct) (f : Nat) : Nat :=
  match a with
  | .resume i => if t.inside i = some f ∧ s.saved f = false then s.cur f + 1 else s.cur f
  | .finish i => if s.sys.inside i = some f then s.cur f - 1 else s.cur f
  | _ => s.cur f

/-- `m_ctx`, which the switch back saves and `Fiber::reset` makes anew. -/
def Memory.savedAfter (s : Memory) (a : SystemAct) (f : Nat) : Bool :=
  match a with
  | .back i => s.saved f || s.sys.leaving i == some f
  | .reset g => s.saved f && g != f
  | _ => s.saved f

/-- The handles that the code of a step makes. -/
def Memory.userAfter (s : Memory) : SystemAct → Nat → Nat
  | .create => Function.update s.user s.sys.next 1
  | _ => s.user

def Memory.after (s : Memory) (a : SystemAct) (t : System) : Memory :=
  { s with
    sys := t
    user := s.userAfter a
    cur := s.curAfter t a
    saved := s.savedAfter a
    alive := fun f => s.alive f || (decide (s.sys.next ≤ f) && decide (f < t.next)) }

/-- A step, before anything is destroyed. -/
def Memory.act (s : Memory) : Use → Option Memory
  | .sys a => if s.allows a then (s.sys.step a).map (s.after a) else none
  | .copy f =>
    if s.user f ≠ 0 ∨ s.sys.fibers f = .RUNNING then
      some { s with user := Function.update s.user f (s.user f + 1) }
    else none
  | .drop f => if s.user f ≠ 0 then some { s with user := Function.update s.user f (s.user f - 1) } else none

def Memory.step (s : Memory) (u : Use) : Option Memory :=
  if s.failed then none else (s.act u).map Memory.collect

/-- No worker is on the stack of `f` still. -/
def Memory.off (s : Memory) (f : Nat) : Bool :=
  (List.range s.sys.sched.workers.length).all fun i => s.sys.leaving i != some f

/-- What is resumed or reset is on nobody's stack. -/
def Memory.apart (s : Memory) : Use → Bool
  | .sys (.resume i) => (s.sys.holding i).all s.off
  | .sys (.reset f) => s.off f
  | _ => true

def Memory.stepApart (s : Memory) (u : Use) : Option Memory := if s.apart u then s.step u else none

/-! ## Handles of the queue and of the workers -/

section
variable {s s' : System} {i : Nat}

theorem queued_iff {f : Nat} : s.queued f = true ↔ ∃ task ∈ s.sched.tasks, task.fiber = some f := by
  simp [System.queued]

theorem holding_eq {w : Worker} {task : Task} (hw : s.sched.workers[i]? = some w) (htask : w.task = some task) :
    s.holding i = match task.fiber with | some f => some f | none => (s.inside i).or (s.leaving i) := by
  simp only [System.holding, hw, Option.bind_some, htask]

theorem holding_none {w : Worker} (hw : s.sched.workers[i]? = some w) (htask : w.task = none) :
    s.holding i = none := by
  simp only [System.holding, hw, Option.bind_some, htask, Option.bind_none]

/-- A step of worker `i` leaves the handles of the others. -/
theorem holding_other {w' : Worker} (hworkers : s'.sched.workers = s.sched.workers.set i w')
    {j : Nat} (hj : j ≠ i) (hinside : s'.inside j = s.inside j) (hleaving : s'.leaving j = s.leaving j) :
    s'.holding j = s.holding j := by
  simp only [System.holding, hworkers, List.getElem?_set_ne (Ne.symm hj), hinside, hleaving]

theorem holding_same (hworkers : s'.sched.workers = s.sched.workers) {j : Nat} (hinside : s'.inside j = s.inside j)
    (hleaving : s'.leaving j = s.leaving j) : s'.holding j = s.holding j := by
  simp only [System.holding, hworkers, hinside, hleaving]

theorem holding_lt {f : Nat} (h : s.holding i = some f) : i < s.sched.workers.length := by
  obtain ⟨task, htask, -⟩ := Option.bind_eq_some_iff.mp h
  obtain ⟨w, hw, -⟩ := Option.bind_eq_some_iff.mp htask
  exact (List.getElem?_eq_some_iff.mp hw).1

end

theorem held_iff {s : Memory} {f : Nat} :
    s.held f = true ↔
      s.user f ≠ 0 ∨ s.sys.queued f = true ∨ (∃ i, s.sys.holding i = some f) ∨ s.cur f ≠ 0 := by
  have hany : (List.range s.sys.sched.workers.length).any (fun i => s.sys.holding i == some f) = true ↔
      ∃ i, s.sys.holding i = some f := by
    rw [List.any_eq_true]
    constructor
    · rintro ⟨i, -, hi⟩
      exact ⟨i, by simpa using hi⟩
    · rintro ⟨i, hi⟩
      exact ⟨i, List.mem_range.mpr (holding_lt hi), by simpa using hi⟩
  simp only [Memory.held, Bool.or_eq_true, bne_iff_ne, ne_eq, hany, or_assoc]

/-! ## What a step of the scheduler does to the handles -/

/-- A worker has a handle to the fiber whose stack it is on, and no fiber runs that no worker is inside. -/
structure Entered (s : System) : Prop where
  holding : ∀ i f, s.inside i = some f → s.holding i = some f
  leaving : ∀ i f, s.leaving i = some f → s.holding i = some f
  running : ∀ f, s.fibers f = .RUNNING → ∃ i, s.inside i = some f

/-- Where the handles behind a step come from, and what becomes of those before it. -/
structure Handles (s : System) (a : SystemAct) (s' : System) : Prop where
  next : s.next ≤ s'.next
  new : ∀ f, s.next ≤ f → f < s'.next → a = .create ∨ ∃ i, s'.holding i = some f
  queued : ∀ f, s'.queued f = true → s.queued f = true ∨ ∃ cb thread, a = .schedule (some f) cb thread
  holding : ∀ i f, s'.holding i = some f → s.holding i = some f ∨ s.queued f = true ∨ s.next ≤ f ∧ f < s'.next
  inside : ∀ i f, s'.inside i = some f → s'.holding i = some f ∧ (s.inside i = some f ∨ a = .resume i)
  leaving : ∀ i f, s'.leaving i = some f → s'.holding i = some f ∧
    (s.leaving i = some f ∨ s.inside i = some f ∧ (a = .yield i ∨ a = .finish i))
  running : ∀ f, s'.fibers f = .RUNNING → ∃ i, s'.inside i = some f
  fibers : ∀ f, f < s.next → s'.fibers f = s.fibers f ∨ (∃ i, s.holding i = some f) ∨ a = .reset f
  ended : ∀ f, s'.fibers f = .TERM → s.fibers f = .TERM ∨ ∃ i, a = .finish i ∧ s.inside i = some f
  queuedStays : ∀ f, s.queued f = true → s'.queued f = true ∨ ∃ i, s'.holding i = some f
  holdingStays : ∀ i f, s.holding i = some f →
    s'.holding i = some f ∨ s.leaving i = some f ∧ a = .back i ∧ s'.fibers f = s.fibers f

section
variable {s s' : System} {a : SystemAct}

/-- A step that the queue, the tasks of the workers and the fibers have no part in. -/
theorem Handles.same (h : Entered s) (htasks : s'.sched.tasks = s.sched.tasks) (hholding : s'.holding = s.holding)
    (hinside : s'.inside = s.inside) (hleaving : s'.leaving = s.leaving) (hfibers : s'.fibers = s.fibers)
    (hnext : s'.next = s.next) : Handles s a s' where
  next := Nat.le_of_eq hnext.symm
  new f hge hlt := by omega
  queued f hf := .inl (by rwa [System.queued, htasks] at hf)
  holding i f hi := .inl (by rwa [hholding] at hi)
  inside i f hi := by
    rw [hinside] at hi
    rw [hholding]
    exact ⟨h.holding i f hi, .inl hi⟩
  leaving i f hi := by
    rw [hleaving] at hi
    rw [hholding]
    exact ⟨h.leaving i f hi, .inl hi⟩
  running f hf := by
    rw [hinside]
    rw [hfibers] at hf
    exact h.running f hf
  fibers f _ := .inl (by rw [hfibers])
  ended f hf := .inl (by rwa [hfibers] at hf)
  queuedStays f hf := .inl (by rwa [System.queued, htasks])
  holdingStays i f hi := .inl (by rwa [hholding])

theorem Handles.create (h : Entered s) : Handles s .create s.create where
  next := Nat.le_succ _
  new _ _ _ := .inl rfl
  queued f hf := .inl hf
  holding i f hi := .inl hi
  inside i f hi := ⟨h.holding i f hi, .inl hi⟩
  leaving i f hi := ⟨h.leaving i f hi, .inl hi⟩
  running f hf := by
    by_cases hnew : f = s.next
    · simp [System.create, hnew] at hf
    · simp only [System.create, Function.update_of_ne hnew] at hf
      exact h.running f hf
  fibers f hf := .inl (Function.update_of_ne (Nat.ne_of_lt hf) _ _)
  ended f hf := by
    by_cases hnew : f = s.next
    · simp [System.create, hnew] at hf
    · exact .inl (by simpa only [System.create, Function.update_of_ne hnew] using hf)
  queuedStays f hf := .inl hf
  holdingStays i f hi := .inl hi

theorem Handles.schedule (h : Entered s) (fiber cb : Option Nat) (thread : Int) :
    Handles s (.schedule fiber cb thread) { s with sched := s.sched.scheduleNoLock fiber cb thread } := by
  have hworkers : (s.sched.scheduleNoLock fiber cb thread).workers = s.sched.workers := by
    unfold State.scheduleNoLock
    dsimp only
    split <;> rfl
  have hholding : ∀ i, System.holding { s with sched := s.sched.scheduleNoLock fiber cb thread } i = s.holding i :=
    fun i => holding_same hworkers rfl rfl
  have htasks : ∀ task ∈ (s.sched.scheduleNoLock fiber cb thread).tasks,
      task ∈ s.sched.tasks ∨ task.fiber = fiber := by
    unfold State.scheduleNoLock
    dsimp only
    split
    · intro task htask
      rcases List.mem_append.mp htask with hold | hnew
      · exact .inl hold
      · exact .inr (by rw [List.mem_singleton.mp hnew])
    · exact fun task htask => .inl htask
  have hstays : ∀ task ∈ s.sched.tasks, task ∈ (s.sched.scheduleNoLock fiber cb thread).tasks := by
    unfold State.scheduleNoLock
    dsimp only
    split
    · exact fun task htask => List.mem_append_left _ htask
    · exact fun task htask => htask
  constructor
  · exact Nat.le_refl _
  · intro f hge hlt
    exact absurd hlt (Nat.not_lt.mpr hge)
  · -- the new task has the handle of its caller
    intro f hf
    obtain ⟨task, htask, hfiber⟩ := queued_iff.mp hf
    rcases htasks task htask with hold | hnew
    · exact .inl (queued_iff.mpr ⟨task, hold, hfiber⟩)
    · exact .inr ⟨cb, thread, by rw [← hnew, hfiber]⟩
  · exact fun i f hi => .inl (by rwa [hholding] at hi)
  · intro i f hi
    rw [hholding]
    exact ⟨h.holding i f hi, .inl hi⟩
  · intro i f hi
    rw [hholding]
    exact ⟨h.leaving i f hi, .inl hi⟩
  · exact h.running
  · exact fun f _ => .inl rfl
  · exact fun f hf => .inl hf
  · intro f hf
    obtain ⟨task, htask, hfiber⟩ := queued_iff.mp hf
    exact .inl (queued_iff.mpr ⟨task, hstays task htask, hfiber⟩)
  · exact fun i f hi => .inl (by rwa [hholding])

/-- A worker that scans has no task, and gets the handle of the task it takes. -/
theorem Handles.take (h : Entered s) {i : Nat} {w : Worker} (stale : Bool)
    (hw : s.sched.workers[i]? = some w) (hpc : w.pc = .top) (hout : s.inside i = none) (hoff : s.leaving i = none) :
    Handles s (.take i stale) { s with sched := s.sched.take i w s.running stale } := by
  have hnone := holding_none hw (Worker.task_of_pc hpc (by simp))
  have hi := (List.getElem?_eq_some_iff.mp hw).1
  cases hreach : reached w.thread s.running s.sched.tasks with
  | nil =>
    -- no task is for this thread, and the worker goes to its idle fiber
    rw [take_of_nothing hreach]
    refine Handles.same h rfl ?_ rfl rfl rfl rfl
    funext j
    by_cases hj : j = i
    · rw [hj, hnone]
      exact holding_none (List.getElem?_set_self hi) rfl
    · exact holding_other rfl hj rfl rfl
  | cons task rest =>
    rw [take_of_reached hreach]
    have hsplit := skipped_append_reached w.thread s.running s.sched.tasks
    rw [hreach] at hsplit
    have hmem : ∀ t, t ∈ s.sched.tasks ↔ t = task ∨ t ∈ skipped w.thread s.running s.sched.tasks ++ rest := by
      intro t
      have hparts : t ∈ s.sched.tasks ↔ t ∈ skipped w.thread s.running s.sched.tasks ++ task :: rest := by rw [hsplit]
      rw [hparts, List.mem_append, List.mem_cons, List.mem_append, or_left_comm]
    generalize hs' : ({ s with sched := _ } : System) = s'
    have htasks : s'.sched.tasks = skipped w.thread s.running s.sched.tasks ++ rest := by rw [← hs']
    have hworkers : s'.sched.workers = s.sched.workers.set i { w with pc := .executing task } := by rw [← hs']; rfl
    have hinside : s'.inside = s.inside := by rw [← hs']
    have hleaving : s'.leaving = s.leaving := by rw [← hs']
    have hself : s'.holding i = task.fiber := by
      have hget : s'.sched.workers[i]? = some { w with pc := .executing task } := by
        rw [hworkers, List.getElem?_set_self hi]
      rw [holding_eq hget rfl, hinside, hleaving, hout, hoff]
      cases task.fiber <;> rfl
    have hothers : ∀ j, j ≠ i → s'.holding j = s.holding j :=
      fun j hj => holding_other hworkers hj (by rw [hinside]) (by rw [hleaving])
    have hfibers : s'.fibers = s.fibers ∧ s'.next = s.next := by rw [← hs']; exact ⟨rfl, rfl⟩
    constructor
    · exact Nat.le_of_eq hfibers.2.symm
    · intro f hge hlt
      rw [hfibers.2] at hlt
      exact absurd hlt (Nat.not_lt.mpr hge)
    · intro f hf
      obtain ⟨t, ht, hfiber⟩ := queued_iff.mp hf
      rw [htasks] at ht
      exact .inl (queued_iff.mpr ⟨t, (hmem t).mpr (.inr ht), hfiber⟩)
    · intro j f hf
      by_cases hj : j = i
      · rw [hj, hself] at hf
        exact .inr (.inl (queued_iff.mpr ⟨task, (hmem task).mpr (.inl rfl), hf⟩))
      · exact .inl (by rwa [hothers j hj] at hf)
    · intro j f hf
      rw [hinside] at hf
      have hj : j ≠ i := by
        intro heq
        rw [heq, hout] at hf
        cases hf
      rw [hothers j hj]
      exact ⟨h.holding j f hf, .inl hf⟩
    · intro j f hf
      rw [hleaving] at hf
      have hj : j ≠ i := by
        intro heq
        rw [heq, hoff] at hf
        cases hf
      rw [hothers j hj]
      exact ⟨h.leaving j f hf, .inl hf⟩
    · rw [hfibers.1, hinside]
      exact h.running
    · exact fun f _ => .inl (by rw [hfibers.1])
    · exact fun f hf => .inl (by rwa [hfibers.1] at hf)
    · -- the handle of the task that is taken goes from the queue to the worker
      intro f hf
      obtain ⟨t, ht, hfiber⟩ := queued_iff.mp hf
      rcases (hmem t).mp ht with rfl | ht
      · exact .inr ⟨i, by rw [hself, hfiber]⟩
      · exact .inl (queued_iff.mpr ⟨t, by rwa [htasks], hfiber⟩)
    · intro j f hf
      have hj : j ≠ i := by
        intro heq
        rw [heq, hnone] at hf
        cases hf
      exact .inl (by rwa [hothers j hj])

/-- A worker without a task goes on to a place without one. -/
theorem Handles.move (h : Entered s) {i : Nat} {w w' : Worker} (hw : s.sched.workers[i]? = some w)
    (hnone : w.task = none) (hnone' : w'.task = none) (hworkers : s'.sched.workers = s.sched.workers.set i w')
    (htasks : s'.sched.tasks = s.sched.tasks) (hinside : s'.inside = s.inside) (hleaving : s'.leaving = s.leaving)
    (hfibers : s'.fibers = s.fibers) (hnext : s'.next = s.next) : Handles s a s' := by
  refine Handles.same h htasks ?_ hinside hleaving hfibers hnext
  funext j
  by_cases hj : j = i
  · have hget : s'.sched.workers[i]? = some w' := by
      rw [hworkers, List.getElem?_set_self (List.getElem?_eq_some_iff.mp hw).1]
    rw [hj, holding_none hw hnone, holding_none hget hnone']
  · exact holding_other hworkers hj (by rw [hinside]) (by rw [hleaving])

/-- A worker enters the fiber of its task, or a new one. -/
theorem Handles.enter (h : Entered s) {i f : Nat} (hout : s.inside i = none) (hoff : s.leaving i = none)
    (hsched : s'.sched = s.sched) (hinside : s'.inside = Function.update s.inside i (some f))
    (hleaving : s'.leaving = s.leaving) (hfibers : s'.fibers = Function.update s.fibers f .RUNNING)
    (hself : s'.holding i = some f)
    (hbefore : s.holding i = some f ∧ s'.next = s.next ∨ s.holding i = none ∧ f = s.next ∧ s'.next = s.next + 1) :
    Handles s (.resume i) s' := by
  have hother : ∀ j, j ≠ i → s'.inside j = s.inside j ∧ s'.holding j = s.holding j := by
    intro j hj
    have hsame : s'.inside j = s.inside j := by rw [hinside, Function.update_of_ne hj]
    exact ⟨hsame, holding_same (by rw [hsched]) hsame (by rw [hleaving])⟩
  have hold : ∀ g, g ≠ f → s'.fibers g = s.fibers g := fun g hg => by rw [hfibers, Function.update_of_ne hg]
  have hrunning : s'.fibers f = .RUNNING := by rw [hfibers, Function.update_self]
  constructor
  · rcases hbefore with ⟨-, hnext⟩ | ⟨-, -, hnext⟩ <;> omega
  · intro g hge hlt
    rcases hbefore with ⟨-, hnext⟩ | ⟨-, hf, hnext⟩
    · omega
    · obtain rfl : g = f := by omega
      exact .inr ⟨i, hself⟩
  · exact fun g hg => .inl (by rwa [System.queued, hsched] at hg)
  · -- a fiber that the worker makes for a `cb` is new
    intro j g hg
    by_cases hj : j = i
    · rw [hj, hself] at hg
      cases hg
      rcases hbefore with ⟨hheld, -⟩ | ⟨-, hf, hnext⟩
      · exact .inl (hj ▸ hheld)
      · exact .inr (.inr (by omega))
    · exact .inl (by rwa [(hother j hj).2] at hg)
  · intro j g hg
    by_cases hj : j = i
    · rw [hj, hinside, Function.update_self] at hg
      cases hg
      exact ⟨hj ▸ hself, .inr (by rw [hj])⟩
    · rw [(hother j hj).1] at hg
      rw [(hother j hj).2]
      exact ⟨h.holding j g hg, .inl hg⟩
  · intro j g hg
    rw [hleaving] at hg
    have hj : j ≠ i := by
      intro heq
      rw [heq, hoff] at hg
      cases hg
    rw [(hother j hj).2]
    exact ⟨h.leaving j g hg, .inl hg⟩
  · intro g hg
    by_cases hgf : g = f
    · exact ⟨i, by rw [hinside, Function.update_self, hgf]⟩
    · rw [hold g hgf] at hg
      obtain ⟨j, hj⟩ := h.running g hg
      have hji : j ≠ i := by
        intro heq
        rw [heq, hout] at hj
        cases hj
      exact ⟨j, by rw [(hother j hji).1, hj]⟩
  · intro g hg
    by_cases hgf : g = f
    · rcases hbefore with ⟨hheld, -⟩ | ⟨-, hf, -⟩
      · exact .inr (.inl ⟨i, hgf ▸ hheld⟩)
      · omega
    · exact .inl (hold g hgf)
  · intro g hg
    have hgf : g ≠ f := by
      intro heq
      rw [heq, hrunning] at hg
      cases hg
    exact .inl (by rwa [hold g hgf] at hg)
  · exact fun g hg => .inl (by rwa [System.queued, hsched])
  · -- nobody lets go of a handle
    intro j g hg
    by_cases hj : j = i
    · rcases hbefore with ⟨hheld, -⟩ | ⟨hnone, -, -⟩
      · rw [hj, hheld] at hg
        exact .inl (by rw [hj, hself, hg])
      · rw [hj, hnone] at hg
        cases hg
    · exact .inl (by rwa [(hother j hj).2])

theorem Handles.resume (h : Entered s) {i : Nat} {w : Worker} {task : Task} (hw : s.sched.workers[i]? = some w)
    (htask : w.task = some task) (hout : s.inside i = none) (hoff : s.leaving i = none) :
    Handles s (.resume i) (s.resume i task) := by
  have hheld := holding_eq hw htask
  unfold System.resume
  split
  · rename_i f hf
    rw [hf] at hheld
    unfold System.switchTo
    split
    · refine Handles.enter h hout hoff rfl rfl rfl rfl ?_ (.inl ⟨hheld, rfl⟩)
      simp only [System.holding, hw, Option.bind_some, htask, hf]
    · exact Handles.same h rfl rfl rfl rfl rfl rfl
  · -- the task is a `cb`, and the fiber is made for it
    rename_i hf
    rw [hf, hout, hoff] at hheld
    have hready : s.create.fibers s.next ≠ .RUNNING ∧ s.create.fibers s.next ≠ .TERM := by simp [System.create]
    rw [System.switchTo, if_pos hready]
    refine Handles.enter h hout hoff rfl rfl rfl (by simp [System.create]) ?_ (.inr ⟨hheld, rfl, rfl⟩)
    simp only [System.holding, System.create, hw, Option.bind_some, htask, hf, Function.update_self, Option.some_or]

/-- A fiber stores its state; its worker is on its stack still, and keeps its handle. -/
theorem Handles.store (h : Entered s) {i f : Nat} {v : Fiber.State} (hin : s.inside i = some f)
    (hoff : s.leaving i = none) (ha : a = .yield i ∧ v = .READY ∨ a = .finish i ∧ v = .TERM) :
    Handles s a (s.store i f v) := by
  have hholding : ∀ j, (s.store i f v).holding j = s.holding j := by
    intro j
    by_cases hj : j = i
    · simp only [System.holding, System.store, hj, Function.update_self, hin, hoff, Option.none_or, Option.or_none]
    · have hinside : (s.store i f v).inside j = s.inside j := Function.update_of_ne hj _ _
      have hleaving : (s.store i f v).leaving j = s.leaving j := Function.update_of_ne hj _ _
      have hworkers : (s.store i f v).sched.workers = s.sched.workers := rfl
      exact holding_same hworkers hinside hleaving
  have hfiber : (s.store i f v).fibers f = v := Function.update_self ..
  have hold : ∀ g, g ≠ f → (s.store i f v).fibers g = s.fibers g := fun g hg => Function.update_of_ne hg _ _
  have hv : v ≠ .RUNNING := by rcases ha with ⟨-, rfl⟩ | ⟨-, rfl⟩ <;> simp
  constructor
  · exact Nat.le_refl _
  · exact fun g hge hlt => absurd hlt (Nat.not_lt.mpr hge)
  · exact fun g hg => .inl hg
  · exact fun j g hg => .inl (by rwa [hholding] at hg)
  · intro j g hg
    have hj : j ≠ i := by
      intro heq
      simp [System.store, heq] at hg
    simp only [System.store, Function.update_of_ne hj] at hg
    rw [hholding]
    exact ⟨h.holding j g hg, .inl hg⟩
  · intro j g hg
    rw [hholding]
    by_cases hj : j = i
    · simp only [System.store, hj, Function.update_self, Option.some.injEq] at hg
      subst hj hg
      exact ⟨h.holding j f hin, .inr ⟨hin, ha.imp And.left And.left⟩⟩
    · simp only [System.store, Function.update_of_ne hj] at hg
      exact ⟨h.leaving j g hg, .inl hg⟩
  · -- another fiber that runs is inside a worker still
    intro g hg
    have hgf : g ≠ f := by
      intro heq
      rw [heq, hfiber] at hg
      exact hv hg
    rw [hold g hgf] at hg
    obtain ⟨j, hj⟩ := h.running g hg
    have hji : j ≠ i := by
      intro heq
      rw [heq, hin] at hj
      exact hgf (Option.some.inj hj).symm
    exact ⟨j, by simpa only [System.store, Function.update_of_ne hji] using hj⟩
  · intro g _
    by_cases hgf : g = f
    · exact .inr (.inl ⟨i, by rw [hgf, h.holding i f hin]⟩)
    · exact .inl (hold g hgf)
  · intro g hg
    by_cases hgf : g = f
    · rw [hgf, hfiber] at hg
      rcases ha with ⟨-, hready⟩ | ⟨ha, -⟩
      · rw [hready] at hg
        cases hg
      · exact .inr ⟨i, ha, by rw [hgf, hin]⟩
    · exact .inl (by rwa [hold g hgf] at hg)
  · exact fun g hg => .inl hg
  · exact fun j g hg => .inl (by rwa [hholding])

/-- A worker is back from the fiber, and drops its handle. -/
theorem Handles.leave (h : Entered s) {i f : Nat} {w : Worker} (hw : s.sched.workers[i]? = some w) (task : Task)
    (hout : s.inside i = none) (hon : s.leaving i = some f) : Handles s (.back i) (s.leave i w task) := by
  have hi := (List.getElem?_eq_some_iff.mp hw).1
  have hself : (s.leave i w task).holding i = none :=
    holding_none (w := { w with pc := .top }) (List.getElem?_set_self hi) rfl
  have hother : ∀ j, j ≠ i → (s.leave i w task).leaving j = s.leaving j ∧
      (s.leave i w task).holding j = s.holding j := by
    intro j hj
    have hsame : (s.leave i w task).leaving j = s.leaving j := Function.update_of_ne hj _ _
    exact ⟨hsame, holding_other rfl hj rfl hsame⟩
  constructor
  · exact Nat.le_refl _
  · exact fun g hge hlt => absurd hlt (Nat.not_lt.mpr hge)
  · exact fun g hg => .inl hg
  · intro j g hg
    by_cases hj : j = i
    · rw [hj, hself] at hg
      cases hg
    · exact .inl (by rwa [(hother j hj).2] at hg)
  · intro j g hg
    have hnow : s.inside j = some g := hg
    have hj : j ≠ i := by
      intro heq
      rw [heq, hout] at hnow
      cases hnow
    rw [(hother j hj).2]
    exact ⟨h.holding j g hnow, .inl hnow⟩
  · intro j g hg
    have hj : j ≠ i := by
      intro heq
      simp [System.leave, heq] at hg
    rw [(hother j hj).1] at hg
    rw [(hother j hj).2]
    exact ⟨h.leaving j g hg, .inl hg⟩
  · exact h.running
  · exact fun g _ => .inl rfl
  · exact fun g hg => .inl hg
  · exact fun g hg => .inl hg
  · -- the handle that is dropped is to the fiber the worker is back from
    intro j g hg
    by_cases hj : j = i
    · rw [hj, h.leaving i f hon] at hg
      cases hg
      exact .inr ⟨by rw [hj, hon], by rw [hj], rfl⟩
    · exact .inl (by rwa [(hother j hj).2])

theorem Handles.reset (h : Entered s) {f : Nat} :
    Handles s (.reset f) { s with fibers := Function.update s.fibers f .READY } where
  next := Nat.le_refl _
  new g hge hlt := absurd hlt (Nat.not_lt.mpr hge)
  queued g hg := .inl hg
  holding i g hg := .inl hg
  inside i g hg := ⟨h.holding i g hg, .inl hg⟩
  leaving i g hg := ⟨h.leaving i g hg, .inl hg⟩
  running g hg := by
    by_cases hgf : g = f
    · simp [hgf] at hg
    · simp only [Function.update_of_ne hgf] at hg
      exact h.running g hg
  fibers g _ := by
    by_cases hgf : g = f
    · exact .inr (.inr (by rw [hgf]))
    · exact .inl (Function.update_of_ne hgf _ _)
  ended g hg := by
    by_cases hgf : g = f
    · simp [hgf] at hg
    · exact .inl (by simpa only [Function.update_of_ne hgf] using hg)
  queuedStays g hg := .inl hg
  holdingStays i g hg := .inl hg

theorem SystemStep.handles (h : Entered s) (hworkers : WorkersOk s) (hinside : InsideOk s)
    (hstep : SystemStep s a s') : Handles s a s' := by
  cases hstep with
  | create => exact .create h
  | schedule fiber cb thread => exact .schedule h fiber cb thread
  | @take i w stale hw hpc =>
    obtain ⟨hout, hnone⟩ := (hworkers.worker i w hw).outside (Worker.task_of_pc hpc (by simp))
    exact .take h stale hw hpc hout hnone
  | resume hw htask hin hon => exact .resume h hw htask hin hon
  | yield hw htask hin => exact .store h hin (hinside.not_leaving hin) (.inl ⟨rfl, rfl⟩)
  | finish hw htask hin => exact .store h hin (hinside.not_leaving hin) (.inr ⟨rfl, rfl⟩)
  | back hw htask hon => exact .leave h hw _ (hinside.left _ _ hon) hon
  | @idle i w hw hpc =>
    have hnone : w.task = none := Worker.task_of_pc hpc (by simp)
    have hnone' : ∀ pc : Pc, (∀ task, pc ≠ .executing task) → ({ w with pc := pc } : Worker).task = none :=
      fun pc h => Worker.task_of_pc rfl h
    have hleft : ({ w with pc := if w.idleTerm then .left else .idling } : Worker).task = none :=
      hnone' _ (by cases w.idleTerm <;> simp)
    unfold System.idle
    split
    · exact .move h hw hnone hleft rfl rfl rfl rfl rfl rfl
    · exact .move h hw hnone hleft rfl rfl rfl rfl rfl rfl
    · exact .same h rfl rfl rfl rfl rfl rfl
  | check hw hpc => exact .move h hw (Worker.task_of_pc hpc (by simp)) rfl rfl rfl rfl rfl rfl rfl
  | stop =>
    obtain ⟨hworkers, htasks⟩ := stop_queue s.sched
    exact .same h htasks (funext fun j => holding_same hworkers rfl rfl) rfl rfl rfl rfl
  | reset => exact .reset h

end

/-! ## Fibers and their handles -/

section
variable {s s' : Memory} {t : System} {a : SystemAct} {f : Nat}

theorem curAfter_cases (h : s.curAfter t a f ≠ 0) : s.cur f ≠ 0 ∨ ∃ i, a = .resume i ∧ t.inside i = some f := by
  unfold Memory.curAfter at h
  split at h
  · rename_i i
    split at h
    · rename_i hin
      exact .inr ⟨i, rfl, hin.1⟩
    · exact .inl h
  · split at h
    · exact .inl (by omega)
    · exact .inl h
  · exact .inl h

theorem curAfter_of_cur (h : s.cur f ≠ 0) :
    s.curAfter t a f ≠ 0 ∨ ∃ i, a = .finish i ∧ s.sys.inside i = some f := by
  unfold Memory.curAfter
  split
  · split
    · exact .inl (by omega)
    · exact .inl h
  · rename_i i
    by_cases hin : s.sys.inside i = some f
    · exact .inr ⟨i, rfl, hin⟩
    · exact .inl (by rwa [if_neg hin])
  · exact .inl h

theorem userAfter_cases (h : s.userAfter a f ≠ 0) : s.user f ≠ 0 ∨ a = .create ∧ f = s.sys.next := by
  unfold Memory.userAfter at h
  split at h
  · by_cases hf : f = s.sys.next
    · exact .inr ⟨rfl, hf⟩
    · exact .inl (by rwa [Function.update_of_ne hf] at h)
  · exact .inl h

theorem userAfter_of_lt (h : f < s.sys.next) : s.userAfter a f = s.user f := by
  unfold Memory.userAfter
  split
  · exact Function.update_of_ne (Nat.ne_of_lt h) _ _
  · rfl

/-- A fiber that has begun and not ended has its `cur`, and no other. -/
structure Memory.Curs (s : Memory) : Prop where
  single : ∀ f, s.cur f ≤ 1
  inside : ∀ i f, s.sys.inside i = some f → s.cur f = 1
  ended : ∀ f, s.cur f ≠ 0 → s.sys.fibers f ≠ .TERM
  kept : ∀ f, s.saved f = true ∨ (∃ i, s.sys.leaving i = some f) → s.sys.fibers f ≠ .TERM → s.cur f = 1
  known : ∀ f, s.cur f ≠ 0 →
    s.saved f = true ∨ (∃ i, s.sys.inside i = some f) ∨ ∃ i, s.sys.leaving i = some f
  fresh : ∀ f, s.sys.next ≤ f → s.saved f = false ∧ s.cur f = 0

/-- A step that no fiber begins or ends at. -/
theorem Memory.Curs.same (h : s.Curs) (hinside : s'.sys.inside = s.sys.inside)
    (hleaving : s'.sys.leaving = s.sys.leaving) (hfibers : ∀ f, f < s.sys.next → s'.sys.fibers f = s.sys.fibers f)
    (hnext : s.sys.next ≤ s'.sys.next) (hcur : s'.cur = s.cur) (hsaved : s'.saved = s.saved)
    (hlt : ∀ i f, s.sys.leaving i = some f → f < s.sys.next) : s'.Curs where
  single f := by rw [hcur]; exact h.single f
  inside i f hin := by
    rw [hinside] at hin
    rw [hcur]
    exact h.inside i f hin
  ended f hf := by
    rw [hcur] at hf
    have hbelow : f < s.sys.next := by
      by_contra hge
      exact hf (h.fresh f (Nat.le_of_not_lt hge)).2
    rw [hfibers f hbelow]
    exact h.ended f hf
  kept f hf hterm := by
    rw [hsaved, hleaving] at hf
    have hbelow : f < s.sys.next := by
      rcases hf with hf | ⟨i, hi⟩
      · by_contra hge
        rw [(h.fresh f (Nat.le_of_not_lt hge)).1] at hf
        cases hf
      · exact hlt i f hi
    rw [hfibers f hbelow] at hterm
    rw [hcur]
    exact h.kept f hf hterm
  known f hf := by
    rw [hcur] at hf
    rw [hsaved, hinside, hleaving]
    exact h.known f hf
  fresh f hf := by
    rw [hcur, hsaved]
    exact h.fresh f (Nat.le_trans hnext hf)

/-- A worker enters `f`. -/
theorem Memory.Curs.enter (h : s.Curs) {i : Nat} (hout : s.sys.inside i = none)
    (hinside : s'.sys.inside = Function.update s.sys.inside i (some f)) (hleaving : s'.sys.leaving = s.sys.leaving)
    (hrunning : s'.sys.fibers f = .RUNNING) (hfibers : ∀ g, g ≠ f → s'.sys.fibers g = s.sys.fibers g)
    (hone : s'.cur f = 1) (hcur : ∀ g, g ≠ f → s'.cur g = s.cur g) (hsaved : s'.saved = s.saved)
    (hnext : s.sys.next ≤ s'.sys.next) (hlt : f < s'.sys.next) : s'.Curs where
  single g := by
    by_cases hgf : g = f
    · rw [hgf, hone]
    · rw [hcur g hgf]
      exact h.single g
  inside j g hg := by
    by_cases hgf : g = f
    · rw [hgf, hone]
    · have hj : j ≠ i := by
        intro heq
        rw [hinside, heq, Function.update_self] at hg
        exact hgf (Option.some.inj hg).symm
      rw [hinside, Function.update_of_ne hj] at hg
      rw [hcur g hgf]
      exact h.inside j g hg
  ended g hg := by
    by_cases hgf : g = f
    · rw [hgf, hrunning]
      simp
    · rw [hcur g hgf] at hg
      rw [hfibers g hgf]
      exact h.ended g hg
  kept g hg hterm := by
    by_cases hgf : g = f
    · rw [hgf, hone]
    · rw [hsaved, hleaving] at hg
      rw [hfibers g hgf] at hterm
      rw [hcur g hgf]
      exact h.kept g hg hterm
  known g hg := by
    rw [hsaved, hinside, hleaving]
    by_cases hgf : g = f
    · exact .inr (.inl ⟨i, by rw [hgf, Function.update_self]⟩)
    · rw [hcur g hgf] at hg
      rcases h.known g hg with hknown | ⟨j, hj⟩ | hknown
      · exact .inl hknown
      · have hji : j ≠ i := by
          intro heq
          rw [heq, hout] at hj
          cases hj
        exact .inr (.inl ⟨j, by rw [Function.update_of_ne hji, hj]⟩)
      · exact .inr (.inr hknown)
  fresh g hg := by
    have hgf : g ≠ f := by omega
    rw [hcur g hgf, hsaved]
    exact h.fresh g (Nat.le_trans hnext hg)

/-- The fiber that worker `i` is inside yields or ends. -/
theorem Memory.Curs.store (h : s.Curs) (hok : InsideOk s.sys) {i : Nat} {v : Fiber.State}
    (hin : s.sys.inside i = some f) (hoff : s.sys.leaving i = none) (hsys : s'.sys = s.sys.store i f v)
    (hself : v = .TERM ∧ s'.cur f = 0 ∨ v ≠ .TERM ∧ s'.cur f = 1) (hcur : ∀ g, g ≠ f → s'.cur g = s.cur g)
    (hsaved : s'.saved = s.saved) : s'.Curs where
  single g := by
    by_cases hgf : g = f
    · rw [hgf]
      omega
    · rw [hcur g hgf]
      exact h.single g
  inside j g hg := by
    have hj : j ≠ i := by
      intro heq
      simp [hsys, System.store, heq] at hg
    simp only [hsys, System.store, Function.update_of_ne hj] at hg
    have hgf : g ≠ f := by
      intro heq
      rw [heq] at hg
      exact hj (hok.single j i f hg hin)
    rw [hcur g hgf]
    exact h.inside j g hg
  ended g hg := by
    simp only [hsys, System.store]
    by_cases hgf : g = f
    · rw [hgf] at hg ⊢
      rw [Function.update_self]
      rcases hself with ⟨-, hzero⟩ | ⟨hv, -⟩
      · exact absurd hzero hg
      · exact hv
    · rw [hcur g hgf] at hg
      rw [Function.update_of_ne hgf]
      exact h.ended g hg
  kept g hg hterm := by
    simp only [hsys, System.store] at hg hterm
    by_cases hgf : g = f
    · rw [hgf, Function.update_self] at hterm
      rw [hgf]
      exact (hself.resolve_left fun hboth => hterm hboth.1).2
    · rw [Function.update_of_ne hgf] at hterm
      rw [hcur g hgf]
      apply h.kept g ?_ hterm
      rcases hg with hg | ⟨j, hj⟩
      · exact .inl (by rwa [hsaved] at hg)
      · have hji : j ≠ i := by
          intro heq
          rw [heq, Function.update_self] at hj
          exact hgf (Option.some.inj hj).symm
        rw [Function.update_of_ne hji] at hj
        exact .inr ⟨j, hj⟩
  known g hg := by
    simp only [hsys, System.store, hsaved]
    by_cases hgf : g = f
    -- the context of `f` is not saved yet, but its worker is leaving it
    · exact .inr (.inr ⟨i, by rw [hgf, Function.update_self]⟩)
    · rw [hcur g hgf] at hg
      rcases h.known g hg with hknown | ⟨j, hj⟩ | ⟨j, hj⟩
      · exact .inl hknown
      · have hji : j ≠ i := by
          intro heq
          rw [heq, hin] at hj
          exact hgf (Option.some.inj hj).symm
        exact .inr (.inl ⟨j, by rw [Function.update_of_ne hji, hj]⟩)
      · have hji : j ≠ i := by
          intro heq
          rw [heq, hoff] at hj
          cases hj
        exact .inr (.inr ⟨j, by rw [Function.update_of_ne hji, hj]⟩)
  fresh g hg := by
    have hnext : s'.sys.next = s.sys.next := by rw [hsys]; rfl
    rw [hnext] at hg
    have hgf : g ≠ f := by
      have hlt := (hok.runs i f hin).1
      omega
    rw [hcur g hgf, hsaved]
    exact h.fresh g hg

/-- Worker `i` is back from `f`, whose context is saved. -/
theorem Memory.Curs.leave (h : s.Curs) {i : Nat} {w : Worker} {task : Task} (hon : s.sys.leaving i = some f)
    (hlt : f < s.sys.next) (hsys : s'.sys = s.sys.leave i w task) (hcur : s'.cur = s.cur)
    (hsaved : ∀ g, s'.saved g = (s.saved g || s.sys.leaving i == some g)) : s'.Curs where
  single g := by rw [hcur]; exact h.single g
  inside j g hg := by
    rw [hsys] at hg
    rw [hcur]
    exact h.inside j g hg
  ended g hg := by
    rw [hcur] at hg
    rw [hsys]
    exact h.ended g hg
  kept g hg hterm := by
    rw [hsys] at hg hterm
    rw [hcur]
    apply h.kept g ?_ hterm
    rcases hg with hg | ⟨j, hj⟩
    · rw [hsaved, Bool.or_eq_true, beq_iff_eq] at hg
      exact hg.imp_right fun hnow => ⟨i, hnow⟩
    · have hji : j ≠ i := by
        intro heq
        simp [System.leave, heq] at hj
      simp only [System.leave, Function.update_of_ne hji] at hj
      exact .inr ⟨j, hj⟩
  known g hg := by
    rw [hcur] at hg
    rw [hsaved, hsys]
    rcases h.known g hg with hknown | hknown | ⟨j, hj⟩
    · exact .inl (by simp [hknown])
    · exact .inr (.inl hknown)
    · by_cases hji : j = i
      -- the switch that the worker is back from has saved it
      · rw [hji] at hj
        exact .inl (by simp [hj])
      · exact .inr (.inr ⟨j, by simpa only [System.leave, Function.update_of_ne hji] using hj⟩)
  fresh g hg := by
    have hnext : s'.sys.next = s.sys.next := by rw [hsys]; rfl
    rw [hnext] at hg
    have hgf : f ≠ g := by omega
    rw [hcur, hsaved, hon]
    simpa [hgf] using h.fresh g hg

/-- `Fiber::reset` of a fiber that has ended and is on nobody's stack. -/
theorem Memory.Curs.reset (h : s.Curs) (hterm : s.sys.fibers f = .TERM) (hoff : ∀ i, s.sys.leaving i ≠ some f)
    (hsys : s'.sys = { s.sys with fibers := Function.update s.sys.fibers f .READY }) (hcur : s'.cur = s.cur)
    (hsaved : ∀ g, s'.saved g = (s.saved g && f != g)) : s'.Curs where
  single g := by rw [hcur]; exact h.single g
  inside j g hg := by
    rw [hsys] at hg
    rw [hcur]
    exact h.inside j g hg
  ended g hg := by
    rw [hcur] at hg
    have hgf : g ≠ f := fun heq => h.ended g hg (by rw [heq, hterm])
    simpa only [hsys, Function.update_of_ne hgf] using h.ended g hg
  kept g hg hnot := by
    rw [hsys] at hg hnot
    have hgf : g ≠ f := by
      intro heq
      rcases hg with hg | ⟨j, hj⟩
      · simp [hsaved, heq] at hg
      · exact hoff j (by rw [← heq]; exact hj)
    simp only [Function.update_of_ne hgf] at hnot
    rw [hcur]
    apply h.kept g ?_ hnot
    rcases hg with hg | hg
    · rw [hsaved, Bool.and_eq_true] at hg
      exact .inl hg.1
    · exact .inr hg
  known g hg := by
    rw [hcur] at hg
    have hgf : f ≠ g := fun heq => h.ended g hg (by rw [← heq, hterm])
    rw [hsaved, hsys]
    exact (h.known g hg).imp_left fun hnow => by simp [hnow, hgf]
  fresh g hg := by
    have hnext : s'.sys.next = s.sys.next := by rw [hsys]
    rw [hnext] at hg
    obtain ⟨hsave, hzero⟩ := h.fresh g hg
    rw [hcur, hsaved, hsave]
    exact ⟨rfl, hzero⟩

/-- No handle is to a fiber that is gone. -/
structure Memory.Ok (s : Memory) : Prop where
  workers : WorkersOk s.sys
  inside : InsideOk s.sys
  entered : Entered s.sys
  curs : s.Curs
  live : ∀ f, s.held f = true → s.alive f = true
  below : ∀ f, s.alive f = true → f < s.sys.next
  dead : ∀ f, f < s.sys.next → s.alive f = false → s.failed = false → s.sys.fibers f = .TERM

/-- And no fiber is left that has no handle. -/
structure Memory.Inv (s : Memory) : Prop extends s.Ok where
  kept : ∀ f, s.alive f = true → s.held f = true

theorem Memory.Ok.collect (h : s.Ok) : s.collect.Inv where
  workers := h.workers
  inside := h.inside
  entered := h.entered
  curs := ⟨h.curs.single, h.curs.inside, h.curs.ended, h.curs.kept, h.curs.known, h.curs.fresh⟩
  live f hf := Bool.and_eq_true_iff.mpr ⟨h.live f hf, hf⟩
  below f hf := h.below f (Bool.and_eq_true_iff.mp hf).1
  dead f hlt hdead hok := by
    obtain ⟨hfailed, hany⟩ := Bool.or_eq_false_iff.mp hok
    by_cases halive : s.alive f = true
    · have hheld : s.held f = false := by simpa [Memory.collect, halive] using hdead
      have hassert := List.any_eq_false.mp hany f (List.mem_range.mpr hlt)
      show s.sys.fibers f = .TERM
      simpa [halive, hheld] using hassert
    · exact h.dead f hlt (Bool.eq_false_iff.mpr halive) hfailed
  kept f hf := (Bool.and_eq_true_iff.mp hf).2

theorem Memory.Inv.init (threads : List Int) : (Memory.init threads).Inv where
  workers := workersOk_init threads
  inside := insideOk_init threads
  entered := by
    constructor
    · intro i f hin
      cases hin
    · intro i f hon
      cases hon
    · intro f hrun
      cases hrun
  curs :=
    { single := fun _ => Nat.zero_le _
      inside := fun i f hin => nomatch hin
      ended := fun f hf => absurd rfl hf
      kept := fun f hf => by
        rcases hf with hf | ⟨i, hi⟩
        · cases hf
        · cases hi
      known := fun f hf => absurd rfl hf
      fresh := fun _ _ => ⟨rfl, rfl⟩ }
  live f hf := by
    rcases held_iff.mp hf with huser | hqueued | ⟨i, hi⟩ | hstarted
    · exact absurd rfl huser
    · exact nomatch hqueued
    · obtain ⟨task, htask, hfiber⟩ := Option.bind_eq_some_iff.mp hi
      obtain ⟨w, hw, hpc⟩ := Option.bind_eq_some_iff.mp htask
      obtain ⟨thread, -, rfl⟩ := List.mem_map.mp (List.mem_of_getElem? hw)
      cases hpc
    · exact absurd rfl hstarted
  below f hf := nomatch hf
  dead f hlt := absurd hlt (Nat.not_lt_zero f)
  kept f hf := nomatch hf

theorem Memory.allows_schedule {cb : Option Nat} {thread : Int} (h : s.allows (.schedule (some f) cb thread) = true) :
    s.user f ≠ 0 := by
  simpa [Memory.allows] using h

theorem Memory.allows_reset (h : s.allows (.reset f) = true) : s.user f ≠ 0 := by
  simpa [Memory.allows] using h

theorem held_user (h : s.user f ≠ 0) : s.held f = true := held_iff.mpr (.inl h)

theorem held_holding {i : Nat} (h : s.sys.holding i = some f) : s.held f = true :=
  held_iff.mpr (.inr (.inr (.inl ⟨i, h⟩)))

theorem off_iff : s.off f = true ↔ ∀ i, i < s.sys.sched.workers.length → s.sys.leaving i ≠ some f := by
  simp [Memory.off]

/-- A fiber that is on nobody's stack. -/
theorem Memory.Ok.off (h : s.Ok) (hoff : s.off f = true) (i : Nat) : s.sys.leaving i ≠ some f := by
  intro hon
  exact off_iff.mp hoff i (holding_lt (h.entered.leaving i f hon)) hon

theorem Memory.Ok.lt_of_leaving (h : s.Ok) {i : Nat} (hon : s.sys.leaving i = some f) : f < s.sys.next :=
  h.below f (h.live f (held_holding (h.entered.leaving i f hon)))

/-- The fiber that a worker enters has one `cur` then. -/
theorem Memory.Ok.cur_entered (h : s.Ok) {i : Nat} (hready : s.sys.fibers f = .READY)
    (hoff : ∀ j, s.sys.leaving j ≠ some f) (hin : t.inside i = some f) : s.curAfter t (.resume i) f = 1 := by
  simp only [Memory.curAfter, hin, true_and]
  split
  · rename_i hsaved
    -- nobody is inside a fiber that is ready
    have hzero : s.cur f = 0 := by
      by_contra hcur
      rcases h.curs.known f hcur with hknown | ⟨j, hj⟩ | ⟨j, hj⟩
      · rw [hsaved] at hknown
        cases hknown
      · have hrun := (h.inside.runs j f hj).2
        rw [hready] at hrun
        cases hrun
      · exact hoff j hj
    rw [hzero]
  · rename_i hsaved
    exact h.curs.kept f (.inl (by simpa using hsaved)) (by rw [hready]; simp)

theorem Memory.Ok.resume (h : s.Ok) {i : Nat} {w : Worker} {task : Task} (hw : s.sys.sched.workers[i]? = some w)
    (htask : w.task = some task) (hin : s.sys.inside i = none)
    (hapart : s.apart (.sys (.resume i)) = true) : (s.after (.resume i) (s.sys.resume i task)).Curs := by
  have hheld := holding_eq hw htask
  have hsame : s.sys.inside i = none →
      (s.after (.resume i) { s.sys with aborted := true }).Curs := by
    intro hout
    refine h.curs.same rfl rfl (fun _ _ => rfl) (Nat.le_refl _) ?_ rfl fun j g hj => h.lt_of_leaving hj
    funext g
    simp [Memory.after, Memory.curAfter, hout]
  unfold System.resume
  split
  · rename_i f hf
    rw [hf] at hheld
    have hoff : ∀ j, s.sys.leaving j ≠ some f := by
      apply h.off
      simpa [Memory.apart, hheld] using hapart
    unfold System.switchTo
    split
    · rename_i hstate
      have hready : s.sys.fibers f = .READY := by
        cases hfiber : s.sys.fibers f <;> simp_all
      refine h.curs.enter (f := f) hin rfl rfl (Function.update_self ..) ?_ ?_ ?_ rfl (Nat.le_refl _) ?_
      · exact fun g hg => Function.update_of_ne hg _ _
      · exact h.cur_entered hready hoff (Function.update_self ..)
      · intro g hg
        simp [Memory.after, Memory.curAfter, Ne.symm hg]
      · exact (h.workers.worker i w hw).known task f htask hf
    · exact hsame hin
  · rename_i hf
    have hready : s.sys.create.fibers s.sys.next ≠ .RUNNING ∧ s.sys.create.fibers s.sys.next ≠ .TERM := by
      simp [System.create]
    rw [System.switchTo, if_pos hready]
    obtain ⟨hsaved, hzero⟩ := h.curs.fresh s.sys.next (Nat.le_refl _)
    refine h.curs.enter (f := s.sys.next) hin rfl rfl (Function.update_self ..) ?_ ?_ ?_ rfl (Nat.le_succ _)
      (Nat.lt_succ_self _)
    · intro g hg
      simp [Memory.after, System.create, hg]
    · simp [Memory.after, Memory.curAfter, hsaved, hzero]
    · intro g hg
      simp [Memory.after, Memory.curAfter, System.create, Ne.symm hg]

/-- A step in which no fiber is resumed or reset that is on a worker's stack. -/
theorem Memory.Ok.step_curs (h : s.Ok) (hapart : s.apart (.sys a) = true) (hstep : SystemStep s.sys a t) :
    (s.after a t).Curs := by
  have hlt : ∀ i f, s.sys.leaving i = some f → f < s.sys.next := fun i f hi => h.lt_of_leaving hi
  cases hstep with
  | create =>
    refine h.curs.same rfl rfl ?_ (Nat.le_succ _) rfl rfl hlt
    exact fun f hf => Function.update_of_ne (Nat.ne_of_lt hf) _ _
  | schedule => exact h.curs.same rfl rfl (fun _ _ => rfl) (Nat.le_refl _) rfl rfl hlt
  | take => exact h.curs.same rfl rfl (fun _ _ => rfl) (Nat.le_refl _) rfl rfl hlt
  | resume hw htask hin hon => exact h.resume hw htask hin hapart
  | @yield i f w task hw htask hin =>
    exact h.curs.store h.inside hin (h.inside.not_leaving hin) rfl (.inr ⟨by simp, h.curs.inside i f hin⟩)
      (fun _ _ => rfl) rfl
  | @finish i f w task hw htask hin =>
    have hone := h.curs.inside i f hin
    refine h.curs.store h.inside hin (h.inside.not_leaving hin) rfl (.inl ⟨rfl, ?_⟩) ?_ rfl
    · simp [Memory.after, Memory.curAfter, hin, hone]
    · intro g hg
      simp [Memory.after, Memory.curAfter, hin, Ne.symm hg]
  | @back i f w task hw htask hon => exact h.curs.leave hon (hlt i f hon) rfl rfl fun _ => rfl
  | @idle i w hw hpc =>
    unfold System.idle
    split <;> exact h.curs.same rfl rfl (fun _ _ => rfl) (Nat.le_refl _) rfl rfl hlt
  | check => exact h.curs.same rfl rfl (fun _ _ => rfl) (Nat.le_refl _) rfl rfl hlt
  | stop => exact h.curs.same rfl rfl (fun _ _ => rfl) (Nat.le_refl _) rfl rfl hlt
  | @reset f hf hterm => exact h.curs.reset hterm (h.off hapart) rfl rfl fun _ => rfl

/-- A step of the scheduler makes no handle but from another or to a new fiber. -/
theorem Memory.Inv.sys (h : s.Inv) (hallow : s.allows a = true) (hapart : s.apart (.sys a) = true)
    (hstep : s.sys.step a = some t) : (s.after a t).Ok := by
  obtain ⟨-, hstep⟩ := System.step_cases hstep
  have H := hstep.handles h.entered h.workers h.inside
  obtain ⟨hworkers, hinside⟩ := hstep.ok h.workers h.inside
  have halive : ∀ g, s.alive g = true → (s.after a t).alive g = true := fun g hg => by simp [Memory.after, hg]
  have hnew : ∀ g, s.sys.next ≤ g → g < t.next → (s.after a t).alive g = true :=
    fun g hge hlt => by simp [Memory.after, hge, hlt]
  have hholding : ∀ i g, t.holding i = some g → (s.after a t).alive g = true := by
    intro i g hg
    -- a worker holds what it held, what it took from the queue, or a fiber it has made
    rcases H.holding i g hg with hold | hqueued | ⟨hge, hlt⟩
    · exact halive g (h.live g (held_holding hold))
    · exact halive g (h.live g (held_iff.mpr (.inr (.inl hqueued))))
    · exact hnew g hge hlt
  constructor
  · exact hworkers
  · exact hinside
  · exact ⟨fun i g hg => (H.inside i g hg).1, fun i g hg => (H.leaving i g hg).1, H.running⟩
  · exact h.step_curs hapart hstep
  · intro g hg
    rcases held_iff.mp hg with huser | hqueued | ⟨i, hi⟩ | hstarted
    · rcases userAfter_cases huser with huser | ⟨ha, hlast⟩
      · exact halive g (h.live g (held_user huser))
      · rw [ha] at hstep
        cases hstep
        exact hnew g (Nat.le_of_eq hlast.symm) (hlast ▸ Nat.lt_succ_self _)
    · rcases H.queued g hqueued with hold | ⟨cb, thread, ha⟩
      · exact halive g (h.live g (held_iff.mpr (.inr (.inl hold))))
      · rw [ha] at hallow
        exact halive g (h.live g (held_user (Memory.allows_schedule hallow)))
    · exact hholding i g hi
    · rcases curAfter_cases hstarted with hold | ⟨i, -, hin⟩
      · exact halive g (h.live g (held_iff.mpr (.inr (.inr (.inr hold)))))
      · exact hholding i g (H.inside i g hin).1
  · intro g hg
    rcases Bool.or_eq_true_iff.mp hg with hold | hnew
    · exact Nat.lt_of_lt_of_le (h.below g hold) H.next
    · simp only [Bool.and_eq_true, decide_eq_true_eq] at hnew
      exact hnew.2
  · intro g hlt hdead hok
    obtain ⟨hold, hrange⟩ := Bool.or_eq_false_iff.mp hdead
    have hlt' : g < s.sys.next := by
      simp only [Bool.and_eq_false_iff, decide_eq_false_iff_not] at hrange
      have hlt : g < t.next := hlt
      omega
    have hnone : s.held g ≠ true := fun hheld => by simp [h.live g hheld] at hold
    -- nobody holds a dead fiber, so no step writes its state
    rcases H.fibers g hlt' with hsame | ⟨i, hi⟩ | ha
    · exact hsame.trans (h.dead g hlt' hold hok)
    · exact absurd (held_holding hi) hnone
    · rw [ha] at hallow
      exact absurd (held_user (Memory.allows_reset hallow)) hnone

/-- User code that changes only its own handles, to a fiber that it or a worker has one to. -/
theorem Memory.Inv.setUser (h : s.Inv) {n : Nat} (hf : n ≠ 0 → s.alive f = true) :
    Memory.Ok { s with user := Function.update s.user f n } where
  workers := h.workers
  inside := h.inside
  entered := h.entered
  curs := ⟨h.curs.single, h.curs.inside, h.curs.ended, h.curs.kept, h.curs.known, h.curs.fresh⟩
  live g hg := by
    rcases held_iff.mp hg with huser | hrest
    · by_cases hgf : g = f
      · rw [hgf]
        exact hf (by simpa [hgf] using huser)
      · simp only [Function.update_of_ne hgf] at huser
        exact h.live g (held_user huser)
    · exact h.live g (held_iff.mpr (.inr hrest))
  below := h.below
  dead := h.dead

/-- A fiber that executes is held by the worker that is inside it. -/
theorem Memory.Ok.running (h : s.Ok) (hrun : s.sys.fibers f = .RUNNING) : ∃ i, s.sys.holding i = some f := by
  obtain ⟨i, hi⟩ := h.entered.running f hrun
  exact ⟨i, h.entered.holding i f hi⟩

theorem Memory.Inv.act (h : s.Inv) {u : Use} (hapart : s.apart u = true) (hact : s.act u = some s') : s'.Ok := by
  cases u with
  | sys a =>
    simp only [Memory.act, Option.ite_none_right_eq_some, Option.map_eq_some_iff] at hact
    obtain ⟨hallow, t, hstep, rfl⟩ := hact
    exact h.sys hallow hapart hstep
  | copy f =>
    simp only [Memory.act, Option.ite_none_right_eq_some, Option.some.injEq] at hact
    obtain ⟨hhandle, rfl⟩ := hact
    apply h.setUser
    intro _
    rcases hhandle with huser | hrun
    · exact h.live f (held_user huser)
    · obtain ⟨i, hi⟩ := h.running hrun
      exact h.live f (held_holding hi)
  | drop f =>
    simp only [Memory.act, Option.ite_none_right_eq_some, Option.some.injEq] at hact
    obtain ⟨huser, rfl⟩ := hact
    exact h.setUser fun _ => h.live f (held_user huser)

theorem Memory.step_cases {u : Use} (hstep : s.step u = some s') :
    s.failed = false ∧ ∃ t, s.act u = some t ∧ s' = t.collect := by
  unfold Memory.step at hstep
  split at hstep
  · cases hstep
  · rename_i hfailed
    obtain ⟨t, ht, rfl⟩ := Option.map_eq_some_iff.mp hstep
    exact ⟨Bool.eq_false_iff.mpr hfailed, t, ht, rfl⟩

theorem Memory.stepApart_some {u : Use} (hstep : s.stepApart u = some s') :
    s.apart u = true ∧ s.step u = some s' := by
  unfold Memory.stepApart at hstep
  split at hstep
  · rename_i hapart
    exact ⟨hapart, hstep⟩
  · cases hstep

theorem Memory.Inv.step (h : s.Inv) {u : Use} (hstep : s.stepApart u = some s') : s'.Inv := by
  obtain ⟨hapart, hstep⟩ := Memory.stepApart_some hstep
  obtain ⟨-, t, hact, rfl⟩ := Memory.step_cases hstep
  exact (h.act hapart hact).collect

/-! ## The assertion of the destructor -/

/-- The last handle to a fiber that never began, since it was made or reset, is not dropped by user code. -/
def Memory.Proper (s : Memory) : Use → Prop
  | .drop f => 1 < s.user f ∨ s.sys.queued f = true ∨ (∃ i, s.sys.holding i = some f) ∨ s.cur f ≠ 0 ∨
      s.sys.fibers f = .TERM
  | _ => True

/-- A fiber has yielded and only its own stack has a handle to it. -/
def Memory.Stranded (s : Memory) (f : Nat) : Prop :=
  s.cur f ≠ 0 ∧ s.user f = 0 ∧ s.sys.queued f = false ∧ ∀ i, s.sys.holding i ≠ some f

theorem Memory.Inv.stranded_step (h : s.Inv) {u : Use} (hstep : s.stepApart u = some s') (hf : s.Stranded f) :
    s'.Stranded f := by
  obtain ⟨-, t, hact, rfl⟩ := Memory.step_cases (Memory.stepApart_some hstep).2
  obtain ⟨hstarted, huser, hqueued, hholding⟩ := hf
  have hlt : f < s.sys.next := h.below f (h.live f (held_iff.mpr (.inr (.inr (.inr hstarted)))))
  have hnotRunning : s.sys.fibers f ≠ .RUNNING := by
    intro hrun
    obtain ⟨i, hi⟩ := h.running hrun
    exact hholding i hi
  have hother : ∀ g n, (n ≠ 0 → s.user g ≠ 0 ∨ s.sys.fibers g = .RUNNING) →
      Memory.Stranded { s with user := Function.update s.user g n } f := by
    intro g n hg
    refine ⟨hstarted, ?_, hqueued, hholding⟩
    show Function.update s.user g n f = 0
    by_cases hgf : f = g
    · subst hgf
      rw [Function.update_self]
      by_contra hn
      rcases hg hn with h' | h'
      · exact h' huser
      · exact hnotRunning h'
    · rw [Function.update_of_ne hgf, huser]
  cases u with
  | sys a =>
    simp only [Memory.act, Option.ite_none_right_eq_some, Option.map_eq_some_iff] at hact
    obtain ⟨hallow, t, hsys, rfl⟩ := hact
    obtain ⟨-, hsys⟩ := System.step_cases hsys
    have H := hsys.handles h.entered h.workers h.inside
    refine ⟨?_, ?_, ?_, ?_⟩
    · rcases curAfter_of_cur (t := t) (a := a) hstarted with hstill | ⟨i, -, hin⟩
      · exact hstill
      · exact absurd (h.entered.holding i f hin) (hholding i)
    · exact (userAfter_of_lt hlt).trans huser
    · rw [← Bool.not_eq_true]
      intro hnow
      rcases H.queued f hnow with hold | ⟨cb, thread, ha⟩
      · rw [hqueued] at hold
        cases hold
      · rw [ha] at hallow
        exact Memory.allows_schedule hallow huser
    · intro i hi
      rcases H.holding i f hi with hold | hold | ⟨hge, -⟩
      · exact hholding i hold
      · rw [hqueued] at hold
        cases hold
      · omega
  | copy g =>
    -- nobody copies a handle to `f`: there is none, and it does not run
    simp only [Memory.act, Option.ite_none_right_eq_some, Option.some.injEq] at hact
    obtain ⟨hhandle, rfl⟩ := hact
    exact hother g _ fun _ => hhandle
  | drop g =>
    simp only [Memory.act, Option.ite_none_right_eq_some, Option.some.injEq] at hact
    obtain ⟨hhandle, rfl⟩ := hact
    exact hother g _ fun _ => .inl hhandle

end

/-! ## Every run -/

/-- What holds of the fibers in every state. -/
structure Memory.Sound (s : Memory) : Prop where
  /-- Every handle is to a fiber that is there, and every fiber that is there has one. -/
  alive : ∀ f, s.alive f = true ↔ s.held f = true
  /-- A worker has a handle of its own to the fiber whose stack it is on, or that it is about to resume. -/
  inside : ∀ i f, s.sys.inside i = some f ∨ s.sys.leaving i = some f ∨ s.sys.Holds i f →
    s.sys.holding i = some f ∧ s.alive f = true
  /-- A fiber that has begun and not ended is there, with its stack and one `cur`. -/
  begun : ∀ f, s.cur f ≠ 0 → s.cur f = 1 ∧ s.alive f = true ∧ s.sys.fibers f ≠ .TERM
  /-- A destroyed fiber had ended, unless the assertion has failed. -/
  destroyed : ∀ f, f < s.sys.next → s.alive f = false → s.failed = false → s.sys.fibers f = .TERM

theorem Memory.Inv.sound {s : Memory} (h : s.Inv) : s.Sound where
  alive f := ⟨h.kept f, h.live f⟩
  inside i f hin := by
    have hholding : s.sys.holding i = some f := by
      rcases hin with hin | hon | ⟨w, task, hw, htask, hf, -⟩
      · exact h.entered.holding i f hin
      · exact h.entered.leaving i f hon
      · rw [holding_eq hw htask, hf]
    exact ⟨hholding, h.live f (held_holding hholding)⟩
  begun f hf := by
    have hone := h.curs.single f
    exact ⟨by omega, h.live f (held_iff.mpr (.inr (.inr (.inr hf)))), h.curs.ended f hf⟩
  destroyed := h.dead

theorem Memory.Inv.stranded {s s' : Memory} (h : s.Inv) {uses : List Use}
    (hrun : Lib.after Memory.stepApart uses s = some s') {f : Nat} (hf : s.Stranded f) :
    s'.alive f = true ∧ ∀ i, s'.sys.inside i ≠ some f := by
  induction uses generalizing s with
  | nil =>
    cases hrun
    refine ⟨h.live f (held_iff.mpr (.inr (.inr (.inr hf.1)))), ?_⟩
    exact fun i hi => hf.2.2.2 i (h.entered.holding i f hi)
  | cons u rest ih =>
    obtain ⟨t, hstep, hrest⟩ := Option.bind_eq_some_iff.mp hrun
    exact ih (h.step hstep) hrest (h.stranded_step hstep hf)

/-- A fiber that is made and dropped. -/
theorem unbegun_dropped :
    (Lib.after Memory.stepApart [.sys .create, .drop 0] (Memory.init [1])).map Memory.failed = some true := by
  decide

/-- Two workers. The fiber schedules itself and yields; the second worker enters it, at its beginning, before the
first has left its stack. When it has ended and nobody has a handle, a `cur` is left that keeps it for ever. -/
theorem entered_twice : (Lib.after Memory.step
    [.sys .create, .sys (.schedule (some 0) none (-1)), .drop 0, .sys (.take 0 false), .sys (.resume 0), .copy 0,
      .sys (.schedule (some 0) none (-1)), .drop 0, .sys (.yield 0), .sys (.take 1 false), .sys (.resume 1),
      .sys (.back 0), .sys (.finish 1), .sys (.back 1)] (Memory.init [1, 2])).map
      (fun s => (s.sys.fibers 0, [s.user 0, s.cur 0], [s.sys.queued 0, s.alive 0],
        [s.sys.holding 0, s.sys.holding 1])) =
    some (.TERM, [0, 1], [false, true], [none, none]) := by
  decide

end Sylar.Scheduler
