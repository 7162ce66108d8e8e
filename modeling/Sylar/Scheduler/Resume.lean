import Mathlib.Data.List.Basic
import Mathlib.Logic.Function.Basic
import Sylar.Lib.Machine
import Sylar.Fiber.Current
import Sylar.Scheduler.Basic
import Sylar.Scheduler.Selection

/- Which fibers `Scheduler::run` resumes.

   The scheduler of `Scheduler.Basic` with the states of its fibers. A worker that has
   taken a task stands before its `resume` until `inside` says which fiber it has
   switched to: the task's, or the one made for a callback. Between the two other
   workers go on, so what the scan read of the fiber may be out of date.

   `yield` stores `READY` before it switches, and `MainFunc` stores `TERM`. Until the switch
   the worker is on the fiber's stack still (`leaving`), while another worker may take the
   fiber. What the end of `MainFunc` stores and what `yield` then tests is one step.

   `Fiber::resume` asserts that the fiber neither runs nor has ended; `aborted` records
   a failed assertion, after which nothing happens. The scan leaves out only fibers
   that run. A fiber that ended while another task for it was queued is taken and
   resumed, and a fiber that is ready and queued twice can be taken by two workers
   before either resumes it. In a run where no worker takes such a fiber, every fiber
   resumed is ready (`resumes_only_ready`).

   Correspondence (C++ ↔ Lean):
     `task.fiber->resume()`, `cb_fiber->resume()`  ↔ `System.resume`
     `idle_fiber`                                  ↔ `System.idles`, one for each worker
     the end of `Fiber::MainFunc`, `Fiber::yield`  ↔ `System.store`, then `System.leave` -/
namespace Sylar.Scheduler

/-! ## Model -/

structure System where
  sched : State
  /-- `m_state` of the fibers made so far, by number. -/
  fibers : Nat → Fiber.State
  next : Nat
  /-- The fiber each worker has switched to for its task. -/
  inside : Nat → Option Nat
  /-- The fiber that has stored its state and has not switched back to the worker yet. -/
  leaving : Nat → Option Nat
  /-- `m_state` of each worker's `idle_fiber`. -/
  idles : Nat → Fiber.State
  aborted : Bool

def System.init (threads : List Int) : System where
  sched := Scheduler.init threads
  fibers := fun _ => .READY
  next := 0
  inside := fun _ => none
  leaving := fun _ => none
  idles := fun _ => .READY
  aborted := false

inductive SystemAct where
  /-- `new Fiber(cb)` in user code. -/
  | create
  | schedule (fiber cb : Option Nat) (thread : Int)
  | take (i : Nat) (stale : Bool)
  /-- The `resume` of the task that worker `i` took. -/
  | resume (i : Nat)
  /-- The fiber that worker `i` is inside yields: it is `READY`. -/
  | yield (i : Nat)
  /-- The fiber that worker `i` is inside ends: it is `TERM`. -/
  | finish (i : Nat)
  /-- It switches back, and the worker is done with its task. -/
  | back (i : Nat)
  | idle (i : Nat)
  | check (i : Nat)
  | stop
  /-- `Fiber::reset` in user code. -/
  | reset (f : Nat)
  deriving DecidableEq, Repr

/-- A fiber that runs, as the scan asks. -/
def System.running (s : System) (f : Nat) : Bool := s.fibers f == .RUNNING

/-- A new fiber is ready. -/
def System.create (s : System) : System :=
  { s with fibers := Function.update s.fibers s.next .READY, next := s.next + 1 }

/-- `Fiber::resume` of `f` by worker `i`, with its assertion. -/
def System.switchTo (s : System) (i f : Nat) : System :=
  if s.fibers f ≠ .RUNNING ∧ s.fibers f ≠ .TERM then
    { s with
      fibers := Function.update s.fibers f .RUNNING
      inside := Function.update s.inside i (some f) }
  else { s with aborted := true }

/-- The worker's task is resumed: its fiber, or a new one for its callback. -/
def System.resume (s : System) (i : Nat) (task : Task) : System :=
  match task.fiber with
  | some f => s.switchTo i f
  | none => s.create.switchTo i s.next

/-- The fiber `f` that worker `i` is inside is done, for now or for good. -/
def System.store (s : System) (i f : Nat) (v : Fiber.State) : System :=
  { s with
    fibers := Function.update s.fibers f v
    inside := Function.update s.inside i none
    leaving := Function.update s.leaving i (some f) }

/-- Worker `i` returns from its `resume`. -/
def System.leave (s : System) (i : Nat) (w : Worker) (task : Task) : System :=
  { s with
    sched := s.sched.finish i w task
    leaving := Function.update s.leaving i none }

/-- Worker `i` found no task: it leaves if its idle fiber has ended, and resumes it if not. -/
def System.idle (s : System) (i : Nat) (w : Worker) : System :=
  match s.idles i with
  | .TERM => { s with sched := s.sched.idle i w }
  | .READY => { s with sched := s.sched.idle i w, idles := Function.update s.idles i .RUNNING }
  | .RUNNING => { s with aborted := true }

/-- The idle fiber of worker `i` ends on a true `stopping()`, and yields on a false one. -/
def System.check (s : System) (i : Nat) (w : Worker) : System :=
  { s with
    sched := s.sched.check i w
    idles := Function.update s.idles i (if s.sched.stoppingNow then .TERM else .READY) }

/-- One step of the program; `none` where it is not possible. -/
def System.step (s : System) (a : SystemAct) : Option System :=
  if s.aborted then none
  else match a with
  | .create => some s.create
  | .schedule fiber cb thread =>
    if fiber.all (· < s.next) then some { s with sched := s.sched.scheduleNoLock fiber cb thread }
    else none
  | .take i stale =>
    match s.sched.workers[i]? with
    | some w => if w.pc = .top then some { s with sched := s.sched.take i w s.running stale } else none
    | none => none
  | .resume i =>
    match s.sched.workers[i]?, s.inside i, s.leaving i with
    | some w, none, none => w.task.map (s.resume i)
    | _, _, _ => none
  | .yield i =>
    match s.sched.workers[i]?, s.inside i with
    | some w, some f => w.task.map fun _ => s.store i f .READY
    | _, _ => none
  | .finish i =>
    match s.sched.workers[i]?, s.inside i with
    | some w, some f => w.task.map fun _ => s.store i f .TERM
    | _, _ => none
  | .back i =>
    match s.sched.workers[i]?, s.leaving i with
    | some w, some _ => w.task.map (s.leave i w)
    | _, _ => none
  | .idle i =>
    match s.sched.workers[i]? with
    | some w => if w.pc = .noTask then some (s.idle i w) else none
    | none => none
  | .check i =>
    match s.sched.workers[i]? with
    | some w => if w.pc = .idling then some (s.check i w) else none
    | none => none
  | .stop => some { s with sched := s.sched.stop }
  | .reset f =>
    if f < s.next ∧ s.fibers f = .TERM then
      some { s with fibers := Function.update s.fibers f .READY }
    else none

/-! ## The steps, one by one -/

/-- What each possible step does. -/
inductive SystemStep (s : System) : SystemAct → System → Prop where
  | create : SystemStep s .create s.create
  | schedule (fiber cb : Option Nat) (thread : Int) (h : ∀ f, fiber = some f → f < s.next) :
      SystemStep s (.schedule fiber cb thread)
        { s with sched := s.sched.scheduleNoLock fiber cb thread }
  | take {i : Nat} {w : Worker} (stale : Bool) (hw : s.sched.workers[i]? = some w) (hpc : w.pc = .top) :
      SystemStep s (.take i stale) { s with sched := s.sched.take i w s.running stale }
  | resume {i : Nat} {w : Worker} {task : Task} (hw : s.sched.workers[i]? = some w)
      (htask : w.task = some task) (hin : s.inside i = none) (hon : s.leaving i = none) :
      SystemStep s (.resume i) (s.resume i task)
  | yield {i f : Nat} {w : Worker} {task : Task} (hw : s.sched.workers[i]? = some w)
      (htask : w.task = some task) (hin : s.inside i = some f) :
      SystemStep s (.yield i) (s.store i f .READY)
  | finish {i f : Nat} {w : Worker} {task : Task} (hw : s.sched.workers[i]? = some w)
      (htask : w.task = some task) (hin : s.inside i = some f) :
      SystemStep s (.finish i) (s.store i f .TERM)
  | back {i f : Nat} {w : Worker} {task : Task} (hw : s.sched.workers[i]? = some w)
      (htask : w.task = some task) (hon : s.leaving i = some f) :
      SystemStep s (.back i) (s.leave i w task)
  | idle {i : Nat} {w : Worker} (hw : s.sched.workers[i]? = some w) (hpc : w.pc = .noTask) :
      SystemStep s (.idle i) (s.idle i w)
  | check {i : Nat} {w : Worker} (hw : s.sched.workers[i]? = some w) (hpc : w.pc = .idling) :
      SystemStep s (.check i) (s.check i w)
  | stop : SystemStep s .stop { s with sched := s.sched.stop }
  | reset {f : Nat} (hf : f < s.next) (hterm : s.fibers f = .TERM) :
      SystemStep s (.reset f) { s with fibers := Function.update s.fibers f .READY }

theorem System.step_cases {s s' : System} {a : SystemAct} (h : s.step a = some s') :
    s.aborted = false ∧ SystemStep s a s' := by
  unfold System.step at h
  by_cases habort : s.aborted = true
  · rw [if_pos habort] at h
    cases h
  · rw [if_neg habort] at h
    refine ⟨by simpa using habort, ?_⟩
    cases a with
    | create =>
      cases h
      exact .create
    | schedule fiber cb thread =>
      dsimp only at h
      split at h
      · rename_i hall
        cases h
        refine .schedule fiber cb thread ?_
        intro f hf
        simpa [hf] using hall
      · cases h
    | take i stale =>
      dsimp only at h
      split at h
      · rename_i w hw
        split at h
        · rename_i hpc
          cases h
          exact .take stale hw hpc
        · cases h
      · cases h
    | resume i =>
      dsimp only at h
      split at h
      · rename_i w hw hin hon
        obtain ⟨task, htask, heq⟩ := Option.map_eq_some_iff.mp h
        subst heq
        exact .resume hw htask hin hon
      · cases h
    | yield i =>
      dsimp only at h
      split at h
      · rename_i w f hw hin
        obtain ⟨task, htask, heq⟩ := Option.map_eq_some_iff.mp h
        subst heq
        exact .yield hw htask hin
      · cases h
    | finish i =>
      dsimp only at h
      split at h
      · rename_i w f hw hin
        obtain ⟨task, htask, heq⟩ := Option.map_eq_some_iff.mp h
        subst heq
        exact .finish hw htask hin
      · cases h
    | back i =>
      dsimp only at h
      split at h
      · rename_i w f hw hon
        obtain ⟨task, htask, heq⟩ := Option.map_eq_some_iff.mp h
        subst heq
        exact .back hw htask hon
      · cases h
    | idle i =>
      dsimp only at h
      split at h
      · rename_i w hw
        split at h
        · rename_i hpc
          cases h
          exact .idle hw hpc
        · cases h
      · cases h
    | check i =>
      dsimp only at h
      split at h
      · rename_i w hw
        split at h
        · rename_i hpc
          cases h
          exact .check hw hpc
        · cases h
      · cases h
    | stop =>
      cases h
      exact .stop
    | reset f =>
      dsimp only at h
      split at h
      · rename_i hreset
        cases h
        exact .reset hreset.1 hreset.2
      · cases h

/-! ## The fibers the workers are inside -/

/-- Every fiber a worker is inside runs, and no two workers are inside the same. -/
structure InsideOk (s : System) : Prop where
  runs : ∀ i f, s.inside i = some f → f < s.next ∧ s.fibers f = .RUNNING
  single : ∀ i j f, s.inside i = some f → s.inside j = some f → i = j
  left : ∀ i f, s.leaving i = some f → s.inside i = none

section
variable {s s' : System}

/-- A worker that is inside a fiber is not leaving one. -/
theorem InsideOk.not_leaving (h : InsideOk s) {i f : Nat} (hin : s.inside i = some f) : s.leaving i = none := by
  cases hon : s.leaving i with
  | none => rfl
  | some g =>
    rw [h.left i g hon] at hin
    cases hin

theorem InsideOk.create (h : InsideOk s) : InsideOk s.create := by
  refine ⟨?_, h.single, h.left⟩
  intro i f hin
  obtain ⟨hlt, hrun⟩ := h.runs i f hin
  refine ⟨Nat.lt_succ_of_lt hlt, ?_⟩
  simp [System.create, Function.update_of_ne (Nat.ne_of_lt hlt), hrun]

/-- A fiber that is entered did not run, so nobody was inside it. -/
theorem InsideOk.switchTo (h : InsideOk s) {i f : Nat} (hf : f < s.next) (hon : s.leaving i = none) :
    InsideOk (s.switchTo i f) := by
  unfold System.switchTo
  split
  · rename_i hready
    have hout : ∀ j, s.inside j ≠ some f := by
      intro j hj
      exact hready.1 (h.runs j f hj).2
    constructor
    · intro j g hin
      dsimp only at hin ⊢
      by_cases hji : j = i
      · subst hji
        rw [Function.update_self] at hin
        cases hin
        exact ⟨hf, Function.update_self ..⟩
      · rw [Function.update_of_ne hji] at hin
        obtain ⟨hlt, hrun⟩ := h.runs j g hin
        by_cases hgf : g = f
        · exact ⟨hlt, by rw [hgf, Function.update_self]⟩
        · exact ⟨hlt, by rw [Function.update_of_ne hgf, hrun]⟩
    · intro j k g hj hk
      dsimp only at hj hk
      by_cases hji : j = i
      · by_cases hki : k = i
        · rw [hji, hki]
        · rw [hji, Function.update_self] at hj
          rw [Function.update_of_ne hki, ← hj] at hk
          exact absurd hk (hout k)
      · rw [Function.update_of_ne hji] at hj
        by_cases hki : k = i
        · rw [hki, Function.update_self] at hk
          rw [← hk] at hj
          exact absurd hj (hout j)
        · rw [Function.update_of_ne hki] at hk
          exact h.single j k g hj hk
    · intro j g hg
      have hji : j ≠ i := by
        intro hji
        rw [hji, hon] at hg
        cases hg
      dsimp only
      rw [Function.update_of_ne hji]
      exact h.left j g hg
  · exact ⟨h.runs, h.single, h.left⟩

theorem InsideOk.resume (h : InsideOk s) {i : Nat} {task : Task} (hf : ∀ f, task.fiber = some f → f < s.next)
    (hon : s.leaving i = none) : InsideOk (s.resume i task) := by
  unfold System.resume
  split
  · rename_i f hfiber
    exact h.switchTo (hf f hfiber) hon
  · exact h.create.switchTo (Nat.lt_succ_self s.next) hon

theorem InsideOk.store (h : InsideOk s) {i f : Nat} (v : Fiber.State) (hin : s.inside i = some f) :
    InsideOk (s.store i f v) := by
  have hold : ∀ j g, (s.store i f v).inside j = some g → j ≠ i ∧ s.inside j = some g := by
    intro j g hj
    by_cases hji : j = i
    · simp [System.store, hji] at hj
    · simp only [System.store, Function.update_of_ne hji] at hj
      exact ⟨hji, hj⟩
  constructor
  · intro j g hj
    obtain ⟨hji, hj⟩ := hold j g hj
    obtain ⟨hlt, hrun⟩ := h.runs j g hj
    have hgf : g ≠ f := by
      intro hgf
      rw [hgf] at hj
      exact hji (h.single j i f hj hin)
    exact ⟨hlt, by simp [System.store, Function.update_of_ne hgf, hrun]⟩
  · intro j k g hj hk
    exact h.single j k g (hold j g hj).2 (hold k g hk).2
  · intro j g hg
    by_cases hji : j = i
    · simp [System.store, hji]
    · simp only [System.store, Function.update_of_ne hji] at hg ⊢
      exact h.left j g hg

theorem InsideOk.leave (h : InsideOk s) {i : Nat} (w : Worker) (task : Task) : InsideOk (s.leave i w task) where
  runs := h.runs
  single := h.single
  left j g hg := by
    by_cases hji : j = i
    · simp [System.leave, hji] at hg
    · simp only [System.leave, Function.update_of_ne hji] at hg
      exact h.left j g hg

theorem InsideOk.reset (h : InsideOk s) {f : Nat} (hterm : s.fibers f = .TERM) :
    InsideOk { s with fibers := Function.update s.fibers f .READY } := by
  refine ⟨?_, h.single, h.left⟩
  intro i g hin
  obtain ⟨hlt, hrun⟩ := h.runs i g hin
  have hgf : g ≠ f := by
    intro hgf
    rw [hgf, hterm] at hrun
    cases hrun
  exact ⟨hlt, by simp [Function.update_of_ne hgf, hrun]⟩

/-! ## The workers -/

/-- A worker is on no fiber's stack unless it executes a task, and its idle fiber runs exactly
while the worker is in it. -/
structure WorkerOk (s : System) (i : Nat) (w : Worker) : Prop where
  outside : w.task = none → s.inside i = none ∧ s.leaving i = none
  known : ∀ task f, w.task = some task → task.fiber = some f → f < s.next
  idle : s.idles i = if w.pc = .idling then .RUNNING else if w.idleTerm then .TERM else .READY

structure WorkersOk (s : System) : Prop where
  worker : ∀ i w, s.sched.workers[i]? = some w → WorkerOk s i w
  queued : ∀ task ∈ s.sched.tasks, ∀ f, task.fiber = some f → f < s.next

theorem worker_set {l : List Worker} {i j : Nat} {w v : Worker} (h : (l.set i w)[j]? = some v) :
    (j = i ∧ v = w) ∨ (j ≠ i ∧ l[j]? = some v) := by
  by_cases hji : j = i
  · subst hji
    left
    rw [List.getElem?_set] at h
    split at h
    · split at h
      · exact ⟨rfl, (Option.some.inj h).symm⟩
      · cases h
    · contradiction
  · right
    rw [List.getElem?_set_ne (Ne.symm hji)] at h
    exact ⟨hji, h⟩

/-- A step of worker `i` leaves the others as they were. -/
theorem WorkersOk.move (h : WorkersOk s) {i : Nat} {w' : Worker}
    (hworkers : s'.sched.workers = s.sched.workers.set i w')
    (htasks : ∀ task ∈ s'.sched.tasks, task ∈ s.sched.tasks) (hnext : s'.next = s.next)
    (hinside : ∀ j, j ≠ i → s'.inside j = s.inside j) (hleaving : ∀ j, j ≠ i → s'.leaving j = s.leaving j)
    (hidles : ∀ j, j ≠ i → s'.idles j = s.idles j) (hok : WorkerOk s' i w') : WorkersOk s' := by
  constructor
  · intro j v hv
    rw [hworkers] at hv
    rcases worker_set hv with ⟨hji, hvw⟩ | ⟨hji, hold⟩
    · rw [hji, hvw]; exact hok
    · obtain ⟨hout, hknown, hidle⟩ := h.worker j v hold
      constructor
      · rw [hinside j hji, hleaving j hji]; exact hout
      · rw [hnext]; exact hknown
      · rw [hidles j hji]; exact hidle
  · intro task htask
    rw [hnext]
    exact h.queued task (htasks task htask)

/-- More fibers, and another worker inside one. -/
theorem WorkersOk.grow (h : WorkersOk s) (hsched : s'.sched = s.sched) (hnext : s.next ≤ s'.next)
    (hinside : ∀ j v, s.sched.workers[j]? = some v → v.task = none → s'.inside j = s.inside j)
    (hleaving : ∀ j v, s.sched.workers[j]? = some v → v.task = none → s'.leaving j = s.leaving j)
    (hidles : s'.idles = s.idles) : WorkersOk s' := by
  constructor
  · intro j v hv
    rw [hsched] at hv
    obtain ⟨hout, hknown, hidle⟩ := h.worker j v hv
    constructor
    · intro hnone
      rw [hinside j v hv hnone, hleaving j v hv hnone]
      exact hout hnone
    · intro task f htask hf
      exact Nat.lt_of_lt_of_le (hknown task f htask hf) hnext
    · rw [hidles]; exact hidle
  · intro task htask f hf
    rw [hsched] at htask
    exact Nat.lt_of_lt_of_le (h.queued task htask f hf) hnext

theorem Worker.task_of_pc {w : Worker} {pc : Pc} (h : w.pc = pc) (hpc : ∀ task, pc ≠ .executing task) :
    w.task = none := by
  apply Worker.task_none
  intro task hex
  exact hpc task (h.symm.trans hex)

theorem Worker.pc_of_task {w : Worker} {task : Task} (h : w.task = some task) : w.pc = .executing task := by
  unfold Worker.task at h
  split at h
  · cases h; assumption
  · cases h

theorem WorkersOk.schedule (h : WorkersOk s) {fiber : Option Nat} (cb : Option Nat) (thread : Int)
    (hf : ∀ f, fiber = some f → f < s.next) :
    WorkersOk { s with sched := s.sched.scheduleNoLock fiber cb thread } := by
  unfold State.scheduleNoLock
  dsimp only
  split
  · refine ⟨?_, ?_⟩
    · intro i w hw
      obtain ⟨hout, hknown, hidle⟩ := h.worker i w hw
      exact ⟨hout, hknown, hidle⟩
    · intro task htask f hfiber
      rcases List.mem_append.mp htask with hold | hnew
      · exact h.queued task hold f hfiber
      · rw [List.mem_singleton.mp hnew] at hfiber
        exact hf f hfiber
  · exact h

theorem WorkersOk.take (h : WorkersOk s) {i : Nat} {w : Worker} (stale : Bool)
    (hw : s.sched.workers[i]? = some w) (hpc : w.pc = .top) :
    WorkersOk { s with sched := s.sched.take i w s.running stale } := by
  obtain ⟨hout, -, hidle⟩ := h.worker i w hw
  have hnone : w.task = none := Worker.task_of_pc hpc (by simp)
  cases hreach : reached w.thread s.running s.sched.tasks with
  | nil =>
    rw [take_of_nothing hreach]
    refine h.move rfl (fun task htask => htask) rfl (fun j _ => rfl) (fun j _ => rfl) (fun j _ => rfl) ?_
    refine ⟨fun _ => hout hnone, ?_, by simpa [hpc] using hidle⟩
    intro task f htask
    cases htask
  | cons task rest =>
    rw [take_of_reached hreach]
    have hsplit := skipped_append_reached w.thread s.running s.sched.tasks
    rw [hreach] at hsplit
    have hmem : ∀ t, t = task ∨ t ∈ skipped w.thread s.running s.sched.tasks ++ rest →
        t ∈ s.sched.tasks := by
      intro t ht
      rw [← hsplit]
      simp only [List.mem_append, List.mem_cons] at ht ⊢
      tauto
    refine h.move rfl (fun t ht => hmem t (Or.inr ht)) rfl (fun j _ => rfl) (fun j _ => rfl) (fun j _ => rfl) ?_
    refine ⟨fun _ => hout hnone, ?_, by simpa [hpc] using hidle⟩
    intro task' f htask' hf
    cases htask'
    exact h.queued task (hmem task (Or.inl rfl)) f hf

theorem switchTo_sched (s : System) (i f : Nat) : (s.switchTo i f).sched = s.sched := by
  unfold System.switchTo
  split <;> rfl

theorem switchTo_next (s : System) (i f : Nat) : (s.switchTo i f).next = s.next := by
  unfold System.switchTo
  split <;> rfl

theorem switchTo_idles (s : System) (i f : Nat) : (s.switchTo i f).idles = s.idles := by
  unfold System.switchTo
  split <;> rfl

theorem switchTo_leaving (s : System) (i f : Nat) : (s.switchTo i f).leaving = s.leaving := by
  unfold System.switchTo
  split <;> rfl

theorem switchTo_inside (s : System) (i f : Nat) {j : Nat} (h : j ≠ i) :
    (s.switchTo i f).inside j = s.inside j := by
  unfold System.switchTo
  split
  · exact Function.update_of_ne h _ _
  · rfl

/-- A worker without a task is not one that has a task. -/
theorem worker_ne {i j : Nat} {w v : Worker} {task : Task} (hw : s.sched.workers[i]? = some w)
    (htask : w.task = some task) (hv : s.sched.workers[j]? = some v) (hnone : v.task = none) : j ≠ i := by
  intro hji
  rw [hji, hw] at hv
  cases hv
  rw [hnone] at htask
  cases htask

theorem WorkersOk.resume (h : WorkersOk s) {i : Nat} {w : Worker} {task : Task}
    (hw : s.sched.workers[i]? = some w) (htask : w.task = some task) :
    WorkersOk (s.resume i task) := by
  have hother : ∀ j v, s.sched.workers[j]? = some v → v.task = none → j ≠ i :=
    fun j v hv hnone => worker_ne hw htask hv hnone
  unfold System.resume
  split
  · rename_i f hf
    refine h.grow (switchTo_sched s i f) (Nat.le_of_eq (switchTo_next s i f).symm) ?_ ?_
      (switchTo_idles s i f)
    · intro j v hv hnone
      exact switchTo_inside s i f (hother j v hv hnone)
    · intro j v _ _
      rw [switchTo_leaving]
  · refine h.grow (switchTo_sched s.create i s.next) ?_ ?_ ?_ (switchTo_idles s.create i s.next)
    · rw [switchTo_next]
      exact Nat.le_succ s.next
    · intro j v hv hnone
      exact switchTo_inside s.create i s.next (hother j v hv hnone)
    · intro j v _ _
      rw [switchTo_leaving]
      rfl

theorem WorkersOk.store (h : WorkersOk s) {i : Nat} {w : Worker} {task : Task} (f : Nat)
    (v : Fiber.State) (hw : s.sched.workers[i]? = some w) (htask : w.task = some task) :
    WorkersOk (s.store i f v) := by
  refine h.grow rfl (Nat.le_refl s.next) ?_ ?_ rfl
  · intro j v' hv hnone
    exact Function.update_of_ne (worker_ne hw htask hv hnone) _ _
  · intro j v' hv hnone
    exact Function.update_of_ne (worker_ne hw htask hv hnone) _ _

theorem WorkersOk.leave (h : WorkersOk s) {i : Nat} {w : Worker} {task : Task}
    (hw : s.sched.workers[i]? = some w) (htask : w.task = some task) (hin : s.inside i = none) :
    WorkersOk (s.leave i w task) := by
  obtain ⟨-, -, hidle⟩ := h.worker i w hw
  refine h.move rfl (fun t ht => ht) rfl (fun j _ => rfl) ?_ (fun j _ => rfl) ?_
  · intro j hj
    exact Function.update_of_ne hj _ _
  · refine ⟨fun _ => ⟨hin, Function.update_self ..⟩, ?_, ?_⟩
    · intro task' g htask'
      cases htask'
    · simpa [System.leave, Worker.pc_of_task htask] using hidle

theorem WorkersOk.idle (h : WorkersOk s) {i : Nat} {w : Worker} (hw : s.sched.workers[i]? = some w)
    (hpc : w.pc = .noTask) : WorkersOk (s.idle i w) ∧ (s.idle i w).aborted = s.aborted := by
  obtain ⟨hout, -, hidle⟩ := h.worker i w hw
  have hin := hout (Worker.task_of_pc hpc (by simp))
  rw [hpc] at hidle
  cases hterm : w.idleTerm with
  | true =>
    simp only [hterm, reduceCtorEq, if_false, if_true] at hidle
    simp only [System.idle, hidle, State.idle, hterm, if_true]
    refine ⟨h.move rfl (fun t ht => ht) rfl (fun j _ => rfl) (fun j _ => rfl) (fun j _ => rfl) ?_, trivial⟩
    refine ⟨fun _ => hin, ?_, by simpa [hterm] using hidle⟩
    intro task f htask
    cases htask
  | false =>
    simp only [hterm, reduceCtorEq, Bool.false_eq_true, if_false] at hidle
    simp only [System.idle, hidle, State.idle, hterm, Bool.false_eq_true, if_false]
    refine ⟨h.move rfl (fun t ht => ht) rfl (fun j _ => rfl) (fun j _ => rfl) ?_ ?_, trivial⟩
    · intro j hj
      exact Function.update_of_ne hj _ _
    · refine ⟨fun _ => hin, ?_, by simp⟩
      intro task f htask
      cases htask

theorem WorkersOk.check (h : WorkersOk s) {i : Nat} {w : Worker} (hw : s.sched.workers[i]? = some w)
    (hpc : w.pc = .idling) : WorkersOk (s.check i w) := by
  obtain ⟨hout, -, -⟩ := h.worker i w hw
  refine h.move rfl (fun t ht => ht) rfl (fun j _ => rfl) (fun j _ => rfl) ?_ ?_
  · intro j hj
    exact Function.update_of_ne hj _ _
  · refine ⟨fun _ => hout (Worker.task_of_pc hpc (by simp)), ?_, ?_⟩
    · intro task f htask
      cases htask
    · simp [System.check]

theorem stop_queue (s : State) : s.stop.workers = s.workers ∧ s.stop.tasks = s.tasks := by
  unfold State.stop
  split
  · simp
  · simp

theorem WorkersOk.stop (h : WorkersOk s) : WorkersOk { s with sched := s.sched.stop } := by
  obtain ⟨hworkers, htasks⟩ := stop_queue s.sched
  constructor
  · intro i w hw
    rw [hworkers] at hw
    obtain ⟨hout, hknown, hidle⟩ := h.worker i w hw
    exact ⟨hout, hknown, hidle⟩
  · intro task htask
    rw [htasks] at htask
    exact h.queued task htask

/-- Every step keeps both, and only a `resume` of a task can abort. -/
theorem SystemStep.ok {a : SystemAct} (hworkers : WorkersOk s) (hinside : InsideOk s)
    (hstep : SystemStep s a s') : WorkersOk s' ∧ InsideOk s' := by
  have hsame : ∀ {t : System}, t.inside = s.inside → t.leaving = s.leaving → t.fibers = s.fibers →
      t.next = s.next → InsideOk t := by
    intro t hin hleaving hfibers hnext
    refine ⟨?_, ?_, ?_⟩
    · rw [hin, hfibers, hnext]; exact hinside.runs
    · rw [hin]; exact hinside.single
    · rw [hin, hleaving]; exact hinside.left
  cases hstep with
  | create =>
    exact ⟨hworkers.grow rfl (Nat.le_succ s.next) (fun j v _ _ => rfl) (fun j v _ _ => rfl) rfl, hinside.create⟩
  | schedule fiber cb thread hf => exact ⟨hworkers.schedule cb thread hf, hsame rfl rfl rfl rfl⟩
  | take stale hw hpc => exact ⟨hworkers.take stale hw hpc, hsame rfl rfl rfl rfl⟩
  | @resume i w task hw htask hin hon =>
    refine ⟨hworkers.resume hw htask, hinside.resume ?_ hon⟩
    intro f hf
    exact (hworkers.worker i w hw).known task f htask hf
  | @yield i f w task hw htask hin => exact ⟨hworkers.store f _ hw htask, hinside.store _ hin⟩
  | @finish i f w task hw htask hin => exact ⟨hworkers.store f _ hw htask, hinside.store _ hin⟩
  | @back i f w task hw htask hon => exact ⟨hworkers.leave hw htask (hinside.left i f hon), hinside.leave w task⟩
  | @idle i w hw hpc =>
    refine ⟨(hworkers.idle hw hpc).1, ?_⟩
    unfold System.idle
    split <;> exact hsame rfl rfl rfl rfl
  | check hw hpc => exact ⟨hworkers.check hw hpc, hsame rfl rfl rfl rfl⟩
  | stop => exact ⟨hworkers.stop, hsame rfl rfl rfl rfl⟩
  | reset hf hterm =>
    exact ⟨hworkers.grow rfl (Nat.le_refl s.next) (fun j v _ _ => rfl) (fun j v _ _ => rfl) rfl,
      hinside.reset hterm⟩

/-! ## Taken and not yet resumed -/

/-- Worker `i` has taken a task with the fiber `f`, and stands before its `resume`. -/
def System.Holds (s : System) (i f : Nat) : Prop :=
  ∃ w task, s.sched.workers[i]? = some w ∧ w.task = some task ∧ task.fiber = some f ∧ s.inside i = none ∧
    s.leaving i = none

/-- What a worker that looks for a task takes has not ended and stands before no other
worker's `resume`. -/
def TakesFree (s : System) : SystemAct → Prop
  | .take i _ => ∀ w pre task post f, s.sched.workers[i]? = some w →
      s.sched.tasks = pre ++ task :: post → (∀ t ∈ pre, t.eligible w.thread s.running = false) →
      task.eligible w.thread s.running = true → task.fiber = some f →
        s.fibers f ≠ .TERM ∧ ∀ j, ¬ s.Holds j f
  | _ => True

/-- Every fiber that is about to be resumed is ready, and one worker's alone. -/
structure Free (s : System) : Prop where
  live : s.aborted = false
  ready : ∀ i f, s.Holds i f → s.fibers f = .READY
  alone : ∀ i j f, s.Holds i f → s.Holds j f → i = j

theorem WorkersOk.holds_lt (h : WorkersOk s) {i f : Nat} (hold : s.Holds i f) : f < s.next := by
  obtain ⟨w, task, hw, htask, hf, -⟩ := hold
  exact (h.worker i w hw).known task f htask hf

theorem Free.keep (h : Free s) (hlive : s'.aborted = false) (hholds : ∀ j f, s'.Holds j f → s.Holds j f)
    (hfibers : ∀ j f, s'.Holds j f → s'.fibers f = s.fibers f) : Free s' := by
  refine ⟨hlive, ?_, ?_⟩
  · intro i f hold
    rw [hfibers i f hold]
    exact h.ready i f (hholds i f hold)
  · intro i j f hi hj
    exact h.alone i j f (hholds i f hi) (hholds j f hj)

/-- A worker that moves to a place without a task holds nothing there. -/
theorem holds_of_move {i : Nat} {w' : Worker} (hworkers : s'.sched.workers = s.sched.workers.set i w')
    (hnone : w'.task = none) (hinside : ∀ j, j ≠ i → s'.inside j = s.inside j)
    (hleaving : ∀ j, j ≠ i → s'.leaving j = s.leaving j) {j f : Nat}
    (h : s'.Holds j f) : j ≠ i ∧ s.Holds j f := by
  obtain ⟨v, task, hv, htask, hf, hin, hon⟩ := h
  rw [hworkers] at hv
  rcases worker_set hv with ⟨-, hvw⟩ | ⟨hji, hold⟩
  · rw [hvw, hnone] at htask
    cases htask
  · rw [hinside j hji] at hin
    rw [hleaving j hji] at hon
    exact ⟨hji, v, task, hold, htask, hf, hin, hon⟩

theorem Free.move (h : Free s) {i : Nat} {w' : Worker} (hlive : s'.aborted = s.aborted)
    (hworkers : s'.sched.workers = s.sched.workers.set i w') (hnone : w'.task = none)
    (hinside : s'.inside = s.inside) (hleaving : ∀ j, j ≠ i → s'.leaving j = s.leaving j)
    (hfibers : s'.fibers = s.fibers) : Free s' := by
  refine h.keep (hlive.trans h.live) ?_ ?_
  · intro j f hold
    exact (holds_of_move hworkers hnone (fun j _ => by rw [hinside]) hleaving hold).2
  · intro j f _
    rw [hfibers]

/-- A fiber ready to be entered is not held by the others. -/
theorem Free.switchTo (h : Free s) {i f : Nat}
    (hothers : ∀ j, j ≠ i → ¬ s.Holds j f) (t : System) (hsched : t.sched = s.sched)
    (hlive : t.aborted = s.aborted) (hinside : t.inside = s.inside) (hleaving : t.leaving = s.leaving)
    (hf : t.fibers f = .READY) (hsame : ∀ j g, s.Holds j g → t.fibers g = s.fibers g) : Free (t.switchTo i f) := by
  have hent : t.switchTo i f = { t with
      fibers := Function.update t.fibers f .RUNNING
      inside := Function.update t.inside i (some f) } := by
    unfold System.switchTo
    rw [if_pos (by simp [hf])]
  rw [hent]
  have hback : ∀ j g, System.Holds { t with
      fibers := Function.update t.fibers f .RUNNING
      inside := Function.update t.inside i (some f) } j g → j ≠ i ∧ s.Holds j g := by
    intro j g hold
    obtain ⟨v, task, hv, htask, hg, hin, hon⟩ := hold
    dsimp only at hv hin hon
    have hji : j ≠ i := by
      intro hji
      rw [hji, Function.update_self] at hin
      cases hin
    rw [Function.update_of_ne hji, hinside] at hin
    rw [hsched] at hv
    rw [hleaving] at hon
    exact ⟨hji, v, task, hv, htask, hg, hin, hon⟩
  refine h.keep (hlive.trans h.live) (fun j g hold => (hback j g hold).2) ?_
  intro j g hold
  obtain ⟨hji, hold⟩ := hback j g hold
  have hgf : g ≠ f := by
    intro hgf
    rw [hgf] at hold
    exact hothers j hji hold
  dsimp only
  rw [Function.update_of_ne hgf]
  exact hsame j g hold

theorem Free.resume (h : Free s) (hok : WorkersOk s) {i : Nat} {w : Worker} {task : Task}
    (hw : s.sched.workers[i]? = some w) (htask : w.task = some task) (hin : s.inside i = none)
    (hon : s.leaving i = none) : Free (s.resume i task) := by
  unfold System.resume
  split
  · rename_i f hf
    have hold : s.Holds i f := ⟨w, task, hw, htask, hf, hin, hon⟩
    refine h.switchTo ?_ s rfl rfl rfl rfl (h.ready i f hold) (fun j g _ => rfl)
    intro j hji hj
    exact hji (h.alone j i f hj hold)
  · -- the new fiber has a number nobody knows
    refine h.switchTo ?_ s.create rfl rfl rfl rfl (by simp [System.create]) ?_
    · intro j _ hj
      exact absurd (hok.holds_lt hj) (Nat.lt_irrefl _)
    · intro j g hold
      simp [System.create, Function.update_of_ne (Nat.ne_of_lt (hok.holds_lt hold))]

theorem Free.store (h : Free s) (hinside : InsideOk s) {i f : Nat} (v : Fiber.State) (hin : s.inside i = some f) :
    Free (s.store i f v) := by
  have hback : ∀ j g, (s.store i f v).Holds j g → s.Holds j g := by
    intro j g hold
    obtain ⟨w, task, hw, htask, hg, hout, hon⟩ := hold
    -- the worker is on the stack of `f` still
    have hji : j ≠ i := by
      intro hji
      simp [System.store, hji] at hon
    simp only [System.store, Function.update_of_ne hji] at hout hon
    exact ⟨w, task, hw, htask, hg, hout, hon⟩
  refine h.keep h.live hback ?_
  intro j g hold
  have hready := h.ready j g (hback j g hold)
  have hgf : g ≠ f := by
    intro hgf
    rw [hgf, (hinside.runs i f hin).2] at hready
    cases hready
  simp [System.store, Function.update_of_ne hgf]

/-- A task taken from the queue: its fiber was not running, had not ended, and was nobody's. -/
theorem Free.take (h : Free s) {i : Nat} {w : Worker} {stale : Bool}
    (hw : s.sched.workers[i]? = some w) (hfree : TakesFree s (.take i stale)) :
    Free { s with sched := s.sched.take i w s.running stale } := by
  cases hreach : reached w.thread s.running s.sched.tasks with
  | nil =>
    rw [take_of_nothing hreach]
    exact h.move rfl rfl rfl rfl (fun j _ => rfl) rfl
  | cons task rest =>
    rw [take_of_reached hreach]
    have hsplit := skipped_append_reached w.thread s.running s.sched.tasks
    rw [hreach] at hsplit
    have helig := eligible_of_reached hreach
    have hpicked : ∀ f, task.fiber = some f → s.fibers f = .READY ∧ ∀ j, ¬ s.Holds j f := by
      intro f hf
      obtain ⟨hterm, hnobody⟩ := hfree w _ task rest f hw hsplit.symm
        (fun t ht => not_eligible_of_mem_skipped ht) helig hf
      have hrun := (Task.eligible_iff.mp helig).2
      rw [hf] at hrun
      refine ⟨?_, hnobody⟩
      cases hstate : s.fibers f with
      | READY => rfl
      | RUNNING => simp [System.running, hstate] at hrun
      | TERM => exact absurd hstate hterm
    -- the workers hold what they held, and this one the task's fiber
    have hback : ∀ j f, System.Holds { s with sched := { s.sched.setWorker i
          { w with pc := .executing task } with
            tasks := skipped w.thread s.running s.sched.tasks ++ rest
            activeThreadCount := s.sched.activeThreadCount + 1
            taken := s.sched.taken ++ [(i, task)] } } j f →
        (j = i ∧ task.fiber = some f) ∨ (j ≠ i ∧ s.Holds j f) := by
      intro j f hold
      obtain ⟨v, task', hv, htask', hf, hin, hon⟩ := hold
      rcases worker_set hv with ⟨hji, hvw⟩ | ⟨hji, hold⟩
      · rw [hvw] at htask'
        cases htask'
        exact Or.inl ⟨hji, hf⟩
      · exact Or.inr ⟨hji, v, task', hold, htask', hf, hin, hon⟩
    refine ⟨h.live, ?_, ?_⟩
    · intro j f hold
      rcases hback j f hold with ⟨-, hf⟩ | ⟨-, hold⟩
      · exact (hpicked f hf).1
      · exact h.ready j f hold
    · intro j k f hj hk
      rcases hback j f hj with ⟨hji, hf⟩ | ⟨hji, hj⟩
      · rcases hback k f hk with ⟨hki, -⟩ | ⟨-, hk⟩
        · rw [hji, hki]
        · exact absurd hk ((hpicked f hf).2 k)
      · rcases hback k f hk with ⟨-, hf⟩ | ⟨-, hk⟩
        · exact absurd hj ((hpicked f hf).2 j)
        · exact h.alone j k f hj hk

theorem SystemStep.free {a : SystemAct} (h : Free s) (hworkers : WorkersOk s) (hinside : InsideOk s)
    (hfree : TakesFree s a) (hstep : SystemStep s a s') : Free s' := by
  cases hstep with
  | create =>
    refine h.keep h.live (fun j f hold => hold) ?_
    intro j f hold
    have hlt : f < s.next := hworkers.holds_lt (i := j) hold
    simp [System.create, Function.update_of_ne (Nat.ne_of_lt hlt)]
  | schedule fiber cb thread hf =>
    refine h.keep h.live ?_ (fun j f _ => rfl)
    intro j f hold
    unfold State.scheduleNoLock at hold
    dsimp only at hold
    split at hold
    · exact hold
    · exact hold
  | take stale hw hpc => exact h.take hw hfree
  | resume hw htask hin hon => exact h.resume hworkers hw htask hin hon
  | yield hw htask hin => exact h.store hinside _ hin
  | finish hw htask hin => exact h.store hinside _ hin
  | back hw htask hon =>
    exact h.move rfl rfl rfl rfl (fun j hj => Function.update_of_ne hj _ _) rfl
  | @idle i w hw hpc =>
    have hlive := (hworkers.idle hw hpc).2
    have hnone : Worker.task { w with pc := if w.idleTerm then .left else .idling } = none := by
      cases w.idleTerm <;> rfl
    have hmoves : (s.idle i w).aborted = true ∨ (s.idle i w).sched = s.sched.idle i w ∧
        (s.idle i w).inside = s.inside ∧ (s.idle i w).leaving = s.leaving ∧ (s.idle i w).fibers = s.fibers := by
      unfold System.idle
      split <;> simp
    rcases hmoves with habort | ⟨hsched, hin, hleaving, hfibers⟩
    · rw [hlive, h.live] at habort
      cases habort
    · exact h.move hlive (by rw [hsched]; rfl) hnone hin (fun j _ => by rw [hleaving]) hfibers
  | check hw hpc => exact h.move rfl rfl rfl rfl (fun j _ => rfl) rfl
  | stop =>
    refine h.keep h.live ?_ (fun j f _ => rfl)
    intro j f hold
    obtain ⟨v, task, hv, hrest⟩ := hold
    rw [(stop_queue s.sched).1] at hv
    exact ⟨v, task, hv, hrest⟩
  | @reset g hg hterm =>
    refine h.keep h.live (fun j f hold => hold) ?_
    intro j f hold
    have hready : s.fibers f = .READY := h.ready j f hold
    have hfg : f ≠ g := by
      intro hfg
      rw [hfg, hterm] at hready
      cases hready
    simp [Function.update_of_ne hfg]

end

/-! ## Every run -/

theorem workersOk_init (threads : List Int) : WorkersOk (System.init threads) := by
  constructor
  · intro i w hw
    obtain ⟨thread, -, rfl⟩ := List.mem_map.mp (List.mem_of_getElem? hw)
    refine ⟨fun _ => ⟨rfl, rfl⟩, ?_, rfl⟩
    intro task f htask
    cases htask
  · intro task htask
    cases htask

theorem insideOk_init (threads : List Int) : InsideOk (System.init threads) := by
  constructor
  · intro i f hin
    cases hin
  · intro i j f hin
    cases hin
  · intro i f hon
    cases hon

theorem free_init (threads : List Int) : Free (System.init threads) := by
  have hnone : ∀ i f, ¬ (System.init threads).Holds i f := by
    intro i f hold
    obtain ⟨w, task, hw, htask, -, -, -⟩ := hold
    obtain ⟨thread, -, rfl⟩ := List.mem_map.mp (List.mem_of_getElem? hw)
    cases htask
  refine ⟨rfl, ?_, ?_⟩
  · intro i f hold
    exact absurd hold (hnone i f)
  · intro i j f hold
    exact absurd hold (hnone i f)

/-- In every run, whatever it takes. -/
theorem reached_ok {threads : List Int} {ok : System → SystemAct → Prop} {s : System}
    (r : Lib.Reached System.step ok (System.init threads) s) : WorkersOk s ∧ InsideOk s := by
  refine Lib.Reached.inv (P := fun t => WorkersOk t ∧ InsideOk t)
    ⟨workersOk_init threads, insideOk_init threads⟩ ?_ r
  intro t a t' h _ hstep
  exact (System.step_cases hstep).2.ok h.1 h.2

/-- **Only resumable fibers are resumed**, in every run in which no worker takes a task whose
fiber has ended or stands before another worker's `resume`: no assertion of `resume` has
failed, and none can fail at the next step. -/
theorem resumes_only_ready (threads : List Int) (s : System)
    (r : Lib.Reached System.step TakesFree (System.init threads) s) :
    s.aborted = false ∧ (∀ i f, s.Holds i f → s.fibers f ≠ .RUNNING ∧ s.fibers f ≠ .TERM) ∧
      ∀ i s', s.step (.resume i) = some s' → s'.aborted = false := by
  have h : (WorkersOk s ∧ InsideOk s) ∧ Free s := by
    refine Lib.Reached.inv (P := fun t => (WorkersOk t ∧ InsideOk t) ∧ Free t)
      ⟨⟨workersOk_init threads, insideOk_init threads⟩, free_init threads⟩ ?_ r
    intro t a t' h hfree hstep
    obtain ⟨-, hstep⟩ := System.step_cases hstep
    exact ⟨hstep.ok h.1.1 h.1.2, hstep.free h.2 h.1.1 h.1.2 hfree⟩
  obtain ⟨⟨hworkers, hinside⟩, hfree⟩ := h
  refine ⟨hfree.live, ?_, ?_⟩
  · intro i f hold
    rw [hfree.ready i f hold]
    simp
  · intro i s' hstep
    have hany : TakesFree s (.resume i) := trivial
    exact ((System.step_cases hstep).2.free hfree hworkers hinside hany).live

/-- A fiber made, scheduled and taken by the only worker, which is about to resume it. -/
theorem resumes_only_ready_one :
    ∃ s, Lib.Reached System.step TakesFree (System.init [1]) s ∧ s.Holds 0 0 ∧
      s.fibers 0 ≠ .RUNNING ∧ s.fibers 0 ≠ .TERM := by
  have r₁ : Lib.Reached System.step TakesFree (System.init [1]) _ :=
    .step SystemAct.create .start trivial rfl
  have r₂ : Lib.Reached System.step TakesFree (System.init [1]) _ :=
    .step (SystemAct.schedule (some 0) none (-1)) r₁ trivial rfl
  have hfree : ∀ s : System, s.sched.workers = [{ thread := 1 }] → (∀ f, s.fibers f ≠ .TERM) →
      TakesFree s (.take 0 false) := by
    intro s hworkers hterm w pre task post f _ _ _ _ _
    refine ⟨hterm f, ?_⟩
    intro j hold
    obtain ⟨v, task', hv, htask', -, -, -⟩ := hold
    rw [hworkers] at hv
    rw [List.mem_singleton.mp (List.mem_of_getElem? hv)] at htask'
    cases htask'
  have r₃ : Lib.Reached System.step TakesFree (System.init [1]) _ :=
    .step (SystemAct.take 0 false) r₂ (hfree _ rfl (by simp [System.create, System.init])) rfl
  refine ⟨_, r₃, ⟨_, _, rfl, rfl, rfl, rfl, rfl⟩, ?_⟩
  exact (resumes_only_ready [1] _ r₃).2.1 0 0 ⟨_, _, rfl, rfl, rfl, rfl, rfl⟩

theorem System.step_resume {s : System} {i f : Nat} (hlive : s.aborted = false) (hold : s.Holds i f) :
    s.step (.resume i) = some (s.switchTo i f) := by
  obtain ⟨w, task, hw, htask, hf, hin, hon⟩ := hold
  simp [System.step, hlive, hw, hin, hon, htask, System.resume, hf]

/-- The assertion of `resume` at a fiber that is not ready. -/
theorem System.switchTo_aborted {s : System} (i : Nat) {f : Nat} (h : s.fibers f ≠ .READY) :
    (s.switchTo i f).aborted = true := by
  unfold System.switchTo
  rw [if_neg]
  intro hboth
  cases hstate : s.fibers f with
  | READY => exact h hstate
  | RUNNING => exact hboth.1 hstate
  | TERM => exact hboth.2 hstate

/-- A fiber about to be resumed that is not ready, or is another worker's too, can make an
assertion fail. -/
theorem System.Holds.aborts {s : System} {i f : Nat} (hlive : s.aborted = false) (hold : s.Holds i f)
    (hbad : s.fibers f ≠ .READY ∨ ∃ j, j ≠ i ∧ s.Holds j f) :
    ∃ acts s', Lib.after System.step acts s = some s' ∧ s'.aborted = true := by
  by_cases hready : s.fibers f = .READY
  · -- the other worker goes first, and this one finds the fiber running
    obtain ⟨j, hji, hother⟩ := hbad.resolve_left (not_not_intro hready)
    have hentered : (s.switchTo j f).aborted = false ∧ (s.switchTo j f).fibers f = .RUNNING := by
      simp [System.switchTo, hready, hlive]
    have hstill : (s.switchTo j f).Holds i f := by
      obtain ⟨w, task, hw, htask, hf, hin, hon⟩ := hold
      refine ⟨w, task, ?_, htask, hf, ?_, ?_⟩
      · rw [switchTo_sched]; exact hw
      · rw [switchTo_inside s j f (Ne.symm hji)]; exact hin
      · rw [switchTo_leaving]; exact hon
    refine ⟨[.resume j, .resume i], _, ?_, System.switchTo_aborted i (by rw [hentered.2]; simp)⟩
    simp [Lib.after, System.step_resume hlive hother, System.step_resume hentered.1 hstill]
  · refine ⟨[.resume i], _, ?_, System.switchTo_aborted i hready⟩
    simp [Lib.after, System.step_resume hlive hold]

/-- The condition is exact: when a worker takes a task against it, the run can go on to an
assertion that fails. -/
theorem unfree_take_aborts {threads : List Int} {ok : System → SystemAct → Prop} {s s₁ : System}
    {i : Nat} {stale : Bool} (r : Lib.Reached System.step ok (System.init threads) s)
    (hstep : s.step (.take i stale) = some s₁) (hnot : ¬ TakesFree s (.take i stale)) :
    ∃ acts s₂, Lib.after System.step acts s₁ = some s₂ ∧ s₂.aborted = true := by
  obtain ⟨hworkers, -⟩ := reached_ok r
  obtain ⟨hlive, hstep⟩ := System.step_cases hstep
  cases hstep with
  | @take _ w _ hw hpc =>
    have htop : w.task = none := Worker.task_of_pc hpc (by simp)
    simp only [TakesFree, not_forall] at hnot
    obtain ⟨w', pre, task, post, f, hw', hsplit, hpre, helig, hf, hbad⟩ := hnot
    rw [hw] at hw'
    cases hw'
    obtain ⟨-, -, hset, -⟩ := (take_selectsFirst s.sched i w s.running stale).found pre task post hsplit hpre helig
    -- worker `i` now stands before the `resume` of `f`
    obtain ⟨hin, hon⟩ := (hworkers.worker i w hw).outside htop
    have hilt := (List.getElem?_eq_some_iff.mp hw).1
    refine System.Holds.aborts (i := i) (f := f) hlive ?_ ?_
    · refine ⟨{ w with pc := .executing task }, task, ?_, rfl, hf, hin, hon⟩
      dsimp only
      rw [hset]
      exact List.getElem?_set_self hilt
    · by_cases hready : s.fibers f = .READY
      · right
        have hother : ∃ j, s.Holds j f := by
          by_contra hnone
          apply hbad
          rw [hready]
          exact ⟨by simp, fun j hj => hnone ⟨j, hj⟩⟩
        obtain ⟨j, v, task', hv, htask', hf', hinj, honj⟩ := hother
        have hji : j ≠ i := by
          intro hji
          rw [hji, hw] at hv
          cases hv
          rw [htop] at htask'
          cases htask'
        refine ⟨j, hji, v, task', ?_, htask', hf', hinj, honj⟩
        dsimp only
        rw [hset, List.getElem?_set_ne (Ne.symm hji)]
        exact hv
      · exact Or.inl hready

/-- A fiber queued twice that ends on its first task: the second `resume` fails. -/
theorem ended_fiber_resumed :
    ¬ ∀ s, Lib.Reached System.step (fun _ _ => True) (System.init [1]) s → s.aborted = false := by
  intro h
  have r : Lib.Reached System.step (fun _ _ => True) (System.init [1]) _ :=
    Lib.Reached.after (fun _ _ => trivial) .start
      [.create, .schedule (some 0) none (-1), .schedule (some 0) none (-1), .take 0 false, .resume 0,
        .finish 0, .back 0, .take 0 false, .resume 0] rfl
  have hlive := h _ r
  cases hlive

end Sylar.Scheduler
