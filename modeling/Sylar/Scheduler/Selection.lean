import Mathlib.Data.List.TakeWhile
import Mathlib.Logic.Relation
import Sylar.Scheduler.Basic
import Sylar.Scheduler.Conservation

/- Which task the scan of `run()` takes, and when the loop tickles.

   `scan_eq` says it once: the scan walks past the tasks the worker may not take and
   takes the next one. What one pass does to the queue and the counter, the order in
   which a run takes its tasks, and the value of `tickle_me` are read off from there.

   The loop's `SYLAR_ASSERT(it->fiber || it->cb)` stands in `scanAsserted`; the queue
   holds no empty task, so it does not fire and the scan is `scan`. -/
namespace Sylar.Scheduler

/-! ## Eligible tasks -/

/-- For any thread, or for this one. -/
def Task.forThread (thread : Int) (task : Task) : Bool := task.thread == -1 || task.thread == thread

/-- A task the worker of `thread` may take: for its thread, with no running fiber. -/
def Task.eligible (thread : Int) (running : Nat → Bool) (task : Task) : Bool :=
  task.forThread thread && !task.fiber.any running

/-- `it->fiber || it->cb`. -/
def Task.real (task : Task) : Bool := task.fiber.isSome || task.cb.isSome

/-- The loop of `run()` with its assertion; `none` is a failed one. -/
def scanAsserted (thread : Int) (running : Nat → Bool) :
    List Task → Bool → Option (Bool × Option (Task × List Task))
  | [], tickle_me => some (tickle_me, none)
  | it :: rest, tickle_me =>
    if it.thread ≠ -1 ∧ it.thread ≠ thread then
      (scanAsserted thread running rest true).map fun (tickle_me, found) =>
        (tickle_me, found.map fun (task, queue) => (task, it :: queue))
    else if it.real = false then none
    else if it.fiber.any running then
      (scanAsserted thread running rest tickle_me).map fun (tickle_me, found) =>
        (tickle_me, found.map fun (task, queue) => (task, it :: queue))
    else some (tickle_me, some (it, rest))

section
variable {thread : Int} {running : Nat → Bool}

theorem Task.forThread_eq_false {task : Task} :
    task.forThread thread = false ↔ task.thread ≠ -1 ∧ task.thread ≠ thread := by
  simp [Task.forThread]

theorem Task.eligible_iff {task : Task} :
    task.eligible thread running = true ↔
      task.forThread thread = true ∧ task.fiber.any running = false := by
  simp [Task.eligible]

/-- With no empty task in the queue the assertion passes at every task it is tried at. -/
theorem scanAsserted_eq : ∀ (tasks : List Task) (tickle_me : Bool),
    (∀ task ∈ tasks, task.real = true) →
      scanAsserted thread running tasks tickle_me = some (scan thread running tasks tickle_me) := by
  intro tasks
  induction tasks with
  | nil => intro tickle_me _; simp [scanAsserted, scan]
  | cons it rest ih =>
    intro tickle_me hreal
    have hit : it.real = true := hreal it (by simp)
    have hrest : ∀ task ∈ rest, task.real = true := by
      intro task htask
      exact hreal task (by simp [htask])
    unfold scanAsserted scan
    rw [ih true hrest, ih tickle_me hrest]
    by_cases hpin : it.thread ≠ -1 ∧ it.thread ≠ thread
    · simp [hpin]
    · rw [if_neg hpin, if_neg hpin]
      by_cases hrun : it.fiber.any running = true
      · simp [hit, hrun]
      · simp [hit, hrun]

/-! ## The scan -/

/-- The tasks the scan walks past. -/
def skipped (thread : Int) (running : Nat → Bool) (tasks : List Task) : List Task :=
  tasks.takeWhile fun task => !task.eligible thread running

/-- The first task the worker may take, and what stands behind it. -/
def reached (thread : Int) (running : Nat → Bool) (tasks : List Task) : List Task :=
  tasks.dropWhile fun task => !task.eligible thread running

theorem skipped_cons_of_eligible {it : Task} (rest : List Task) (h : it.eligible thread running = true) :
    skipped thread running (it :: rest) = [] ∧ reached thread running (it :: rest) = it :: rest := by
  simp [skipped, reached, h]

theorem skipped_cons_of_not {it : Task} (rest : List Task) (h : it.eligible thread running = false) :
    skipped thread running (it :: rest) = it :: skipped thread running rest ∧
      reached thread running (it :: rest) = reached thread running rest := by
  simp [skipped, reached, h]

theorem skipped_append_reached (thread : Int) (running : Nat → Bool) (tasks : List Task) :
    skipped thread running tasks ++ reached thread running tasks = tasks :=
  List.takeWhile_append_dropWhile

/-- The scan takes the first eligible task, and its flag is set by every pinned task it
walks past. -/
theorem scan_eq : ∀ (tasks : List Task) (tickle_me : Bool),
    scan thread running tasks tickle_me =
      (tickle_me || (skipped thread running tasks).any fun task => !task.forThread thread,
        match reached thread running tasks with
        | [] => none
        | task :: rest => some (task, skipped thread running tasks ++ rest)) := by
  intro tasks
  induction tasks with
  | nil => intro tickle_me; simp [scan, skipped, reached]
  | cons it rest ih =>
    intro tickle_me
    unfold scan
    by_cases hpin : it.thread ≠ -1 ∧ it.thread ≠ thread
    · have hfor : it.forThread thread = false := Task.forThread_eq_false.mpr hpin
      obtain ⟨hskip, hreach⟩ := skipped_cons_of_not rest
        (by simp [Task.eligible, hfor] : it.eligible thread running = false)
      rw [if_pos hpin, ih true, hskip, hreach]
      cases reached thread running rest with
      | nil => simp [hfor]
      | cons task post => simp [hfor]
    · have hfor : it.forThread thread = true := by
        cases hf : it.forThread thread with
        | true => simp
        | false => exact absurd (Task.forThread_eq_false.mp hf) hpin
      rw [if_neg hpin]
      by_cases hrun : it.fiber.any running = true
      · obtain ⟨hskip, hreach⟩ := skipped_cons_of_not rest
          (by simp [Task.eligible, hrun] : it.eligible thread running = false)
        rw [if_pos hrun, ih tickle_me, hskip, hreach]
        cases reached thread running rest with
        | nil => simp [hfor]
        | cons task post => simp [hfor]
      · obtain ⟨hskip, hreach⟩ := skipped_cons_of_eligible rest
          (by simp [Task.eligible, hfor, hrun] : it.eligible thread running = true)
        rw [if_neg hrun, hskip, hreach]
        simp

/-- With nothing eligible the scan takes nothing. -/
theorem reached_eq_nil {tasks : List Task} (h : ∀ task ∈ tasks, task.eligible thread running = false) :
    reached thread running tasks = [] := by
  unfold reached
  rw [List.dropWhile_eq_nil_iff]
  intro task htask
  simp [h task htask]

theorem not_eligible_of_mem_skipped {tasks : List Task} {task : Task}
    (h : task ∈ skipped thread running tasks) : task.eligible thread running = false := by
  have hnot := List.mem_takeWhile_imp h
  simpa using hnot

theorem eligible_of_reached {tasks rest : List Task} {task : Task}
    (h : reached thread running tasks = task :: rest) : task.eligible thread running = true := by
  have hhead := List.head?_dropWhile_not (fun task : Task => !task.eligible thread running) tasks
  unfold reached at h
  rw [h] at hhead
  simpa using hhead

/-- The cut of the queue at its first eligible task. -/
theorem cut_eq {tasks pre post : List Task} {task : Task} (htasks : tasks = pre ++ task :: post)
    (hpre : ∀ t ∈ pre, t.eligible thread running = false)
    (htask : task.eligible thread running = true) :
    skipped thread running tasks = pre ∧ reached thread running tasks = task :: post := by
  subst htasks
  have hall : ∀ t ∈ pre, (!t.eligible thread running) = true := by
    intro t ht
    simp [hpre t ht]
  constructor
  · unfold skipped
    rw [List.takeWhile_append_of_pos hall]
    simp [htask]
  · unfold reached
    rw [List.dropWhile_append_of_pos hall]
    simp [htask]

end

/-! ## One pass -/

theorem takeTask_eq (thread : Int) (running : Nat → Bool) (stale : Bool) (tasks : List Task) :
    takeTask thread running stale tasks =
      match reached thread running tasks with
      | [] => (none, tasks, true)
      | task :: rest => (some task, skipped thread running tasks ++ rest, true) := by
  unfold takeTask
  rw [scan_eq]
  cases reached thread running tasks with
  | nil => simp
  | cons task rest => simp

section
variable {s : State} {i : Nat} {w : Worker} {running : Nat → Bool} {stale : Bool}

/-- A pass that takes a task. -/
theorem take_of_reached {task : Task} {rest : List Task}
    (h : reached w.thread running s.tasks = task :: rest) :
    s.take i w running stale =
      { s.setWorker i { w with pc := .executing task } with
        tasks := skipped w.thread running s.tasks ++ rest
        activeThreadCount := s.activeThreadCount + 1
        taken := s.taken ++ [(i, task)] } := by
  unfold State.take
  rw [takeTask_eq, h]

/-- A pass that takes none. -/
theorem take_of_nothing (h : reached w.thread running s.tasks = []) :
    s.take i w running stale = s.setWorker i { w with pc := .noTask } := by
  unfold State.take
  rw [takeTask_eq, h]

/-- What one pass of the loop does to the state: it takes the first eligible task, or none. -/
structure SelectsFirst (s : State) (i : Nat) (w : Worker) (running : Nat → Bool) (s' : State) :
    Prop where
  /-- The first eligible task leaves the queue, the others stay in their order. -/
  found : ∀ pre task post, s.tasks = pre ++ task :: post →
    (∀ t ∈ pre, t.eligible w.thread running = false) → task.eligible w.thread running = true →
      s'.tasks = pre ++ post ∧ s'.activeThreadCount = s.activeThreadCount + 1 ∧
      s'.workers = s.workers.set i { w with pc := .executing task } ∧
      s'.taken = s.taken ++ [(i, task)]
  /-- Without one nothing is taken and nothing runs. -/
  missed : (∀ t ∈ s.tasks, t.eligible w.thread running = false) →
    s'.tasks = s.tasks ∧ s'.activeThreadCount = s.activeThreadCount ∧
      s'.workers = s.workers.set i { w with pc := .noTask } ∧ s'.taken = s.taken
  /-- The rest of the record is as it was. -/
  kept : s'.scheduled = s.scheduled ∧ s'.completed = s.completed ∧ s'.stopping = s.stopping

theorem take_selectsFirst (s : State) (i : Nat) (w : Worker) (running : Nat → Bool) (stale : Bool) :
    SelectsFirst s i w running (s.take i w running stale) := by
  constructor
  · intro pre task post htasks hpre htask
    obtain ⟨hskip, hreach⟩ := cut_eq htasks hpre htask
    rw [take_of_reached hreach, hskip]
    simp [State.setWorker]
  · intro hnone
    rw [take_of_nothing (reached_eq_nil hnone)]
    simp [State.setWorker]
  · cases hreach : reached w.thread running s.tasks with
    | nil => rw [take_of_nothing hreach]; simp [State.setWorker]
    | cons task rest => rw [take_of_reached hreach]; simp [State.setWorker]

end

/-! ## The order of a run -/

/-- `x` was scheduled before `y`, may be taken wherever `y` may, and its fiber is one of
those that do not run. -/
structure Precedes (threads : List Int) (calm : Nat → Prop) (x y : Task) : Prop where
  earlier : x.id < y.id
  wherever : ∀ thread ∈ threads, y.forThread thread = true → x.forThread thread = true
  calm : ∀ f, x.fiber = some f → calm f

/-- A step in which the fibers of `calm` do not run while a worker takes a task. Every other
step takes none. -/
inductive CalmStep (calm : Nat → Prop) : State → State → Prop where
  | take {s : State} {i : Nat} {w : Worker} (running : Nat → Bool) (stale : Bool)
      (hw : s.workers[i]? = some w) (hpc : w.pc = .top) (hcalm : ∀ f, calm f → running f = false) :
      CalmStep calm s (s.take i w running stale)
  | other {s s' : State} (hstep : Step s s') (htaken : s'.taken = s.taken) : CalmStep calm s s'

abbrev CalmRuns (calm : Nat → Prop) : State → State → Prop := Relation.ReflTransGen (CalmStep calm)

theorem map_thread_set {s : State} {i : Nat} {w w' : Worker} (hw : s.workers[i]? = some w)
    (hthread : w'.thread = w.thread) :
    (s.workers.set i w').map Worker.thread = s.workers.map Worker.thread := by
  apply List.ext_getElem?
  intro j
  rw [List.getElem?_map, List.getElem?_map]
  by_cases hj : i = j
  · subst hj
    rw [List.getElem?_set_self (List.getElem?_eq_some_iff.mp hw).1, hw]
    simp [hthread]
  · rw [List.getElem?_set_ne hj]

/-- What a step does to the queue, the record of what was scheduled and that of what was
taken: nothing, or one task joins the queue, or the pass of a worker. -/
theorem Step.queue_cases {s s' : State} (hstep : Step s s') :
    s'.workers.map Worker.thread = s.workers.map Worker.thread ∧
      ((s'.tasks = s.tasks ∧ s'.scheduled = s.scheduled ∧ s'.taken = s.taken) ∨
      (∃ task, task.id = s.scheduled.length ∧ task.real = true ∧ s'.tasks = s.tasks ++ [task] ∧
        s'.scheduled = s.scheduled ++ [task] ∧ s'.taken = s.taken) ∨
      ∃ i w running, s.workers[i]? = some w ∧ SelectsFirst s i w running s') := by
  cases hstep with
  | schedule fiber cb thread hcaller =>
    by_cases hreal : fiber.isSome ∨ cb.isSome
    · refine ⟨by simp [State.scheduleNoLock, hreal], Or.inr (Or.inl ?_)⟩
      refine ⟨{ id := s.scheduled.length, fiber := fiber, cb := cb, thread := thread }, rfl, ?_, ?_⟩
      · simpa [Task.real] using hreal
      · simp [State.scheduleNoLock, hreal]
    · refine ⟨by simp [State.scheduleNoLock, hreal], Or.inl ?_⟩
      simp [State.scheduleNoLock, hreal]
  | @take i w running stale hw hpc =>
    refine ⟨?_, Or.inr (Or.inr ⟨i, w, running, hw, take_selectsFirst s i w running stale⟩)⟩
    cases hreach : reached w.thread running s.tasks with
    | nil => rw [take_of_nothing hreach]; exact map_thread_set hw rfl
    | cons task rest => rw [take_of_reached hreach]; exact map_thread_set hw rfl
  | finish hw hpc => exact ⟨map_thread_set hw rfl, Or.inl (by simp [State.finish, State.setWorker])⟩
  | stop =>
    unfold State.stop
    split
    · simp
    · simp
  | idle hw hpc => exact ⟨map_thread_set hw rfl, Or.inl (by simp [State.idle, State.setWorker])⟩
  | check hw hpc => exact ⟨map_thread_set hw rfl, Or.inl (by simp [State.check, State.setWorker])⟩

/-- A queue with an eligible task splits at the first one. -/
theorem first_eligible (thread : Int) (running : Nat → Bool) (tasks : List Task) :
    (∀ t ∈ tasks, t.eligible thread running = false) ∨
      ∃ pre task post, tasks = pre ++ task :: post ∧
        (∀ t ∈ pre, t.eligible thread running = false) ∧ task.eligible thread running = true := by
  cases hreach : reached thread running tasks with
  | nil =>
    left
    intro t ht
    have hsplit := skipped_append_reached thread running tasks
    rw [hreach, List.append_nil] at hsplit
    rw [← hsplit] at ht
    exact not_eligible_of_mem_skipped ht
  | cons task rest =>
    right
    refine ⟨skipped thread running tasks, task, rest, ?_, ?_, eligible_of_reached hreach⟩
    · rw [← hreach, skipped_append_reached]
    · intro t ht
      exact not_eligible_of_mem_skipped ht

/-- The queue is in the order of scheduling, and nothing left in it or taken later precedes a
task that was taken. -/
structure InOrder (threads : List Int) (calm : Nat → Prop) (s : State) : Prop where
  workers : s.workers.map Worker.thread = threads
  real : ∀ task ∈ s.tasks, task.real = true
  sorted : s.tasks.Pairwise fun x y => x.id < y.id
  located : ∀ task ∈ s.scheduled, task ∈ s.tasks ∨ task ∈ s.taken.map Prod.snd
  numbered : ∀ task, (task ∈ s.tasks ∨ task ∈ s.taken.map Prod.snd) → task.id < s.scheduled.length
  left : ∀ x ∈ s.tasks, ∀ y ∈ s.taken, ¬ Precedes threads calm x y.2
  taken : s.taken.Pairwise fun y x => ¬ Precedes threads calm x.2 y.2

section
variable {threads : List Int} {calm : Nat → Prop} {s s' : State}

theorem inOrder_init : InOrder threads calm (init threads) := by
  constructor <;> simp [init, Function.comp_def]

theorem InOrder.same (h : InOrder threads calm s)
    (hworkers : s'.workers.map Worker.thread = s.workers.map Worker.thread) (htasks : s'.tasks = s.tasks)
    (hscheduled : s'.scheduled = s.scheduled) (htaken : s'.taken = s.taken) :
    InOrder threads calm s' := by
  obtain ⟨hw, hreal, hsorted, hlocated, hnumbered, hleft, horder⟩ := h
  constructor
  · rw [hworkers]; exact hw
  · rw [htasks]; exact hreal
  · rw [htasks]; exact hsorted
  · rw [htasks, hscheduled, htaken]; exact hlocated
  · rw [htasks, hscheduled, htaken]; exact hnumbered
  · rw [htasks, htaken]; exact hleft
  · rw [htaken]; exact horder

/-- A task that joins the queue has the largest number, and precedes none. -/
theorem InOrder.join (h : InOrder threads calm s) {task : Task}
    (hworkers : s'.workers.map Worker.thread = s.workers.map Worker.thread)
    (hid : task.id = s.scheduled.length) (hreal : task.real = true)
    (htasks : s'.tasks = s.tasks ++ [task]) (hscheduled : s'.scheduled = s.scheduled ++ [task])
    (htaken : s'.taken = s.taken) : InOrder threads calm s' := by
  constructor
  · rw [hworkers]; exact h.workers
  · rw [htasks]
    intro t ht
    rcases List.mem_append.mp ht with hold | hnew
    · exact h.real t hold
    · rw [List.mem_singleton.mp hnew]; exact hreal
  · rw [htasks, List.pairwise_append]
    refine ⟨h.sorted, List.pairwise_singleton _ _, ?_⟩
    intro x hx y hy
    rw [List.mem_singleton.mp hy, hid]
    exact h.numbered x (Or.inl hx)
  · rw [htasks, hscheduled, htaken]
    intro t ht
    rcases List.mem_append.mp ht with hold | hnew
    · rcases h.located t hold with hq | htk
      · exact Or.inl (List.mem_append_left _ hq)
      · exact Or.inr htk
    · exact Or.inl (List.mem_append_right _ hnew)
  · rw [htasks, hscheduled, htaken]
    intro t ht
    have hlen : (s.scheduled ++ [task]).length = s.scheduled.length + 1 := by simp
    rw [hlen]
    rcases ht with hq | htk
    · rcases List.mem_append.mp hq with hold | hnew
      · have := h.numbered t (Or.inl hold)
        omega
      · rw [List.mem_singleton.mp hnew]
        omega
    · have := h.numbered t (Or.inr htk)
      omega
  · rw [htasks, htaken]
    intro x hx y hy hprec
    rcases List.mem_append.mp hx with hold | hnew
    · exact h.left x hold y hy hprec
    · have hlt := h.numbered y.2 (Or.inr (List.mem_map_of_mem hy))
      have := hprec.earlier
      rw [List.mem_singleton.mp hnew] at this
      omega
  · rw [htaken]; exact h.taken

/-- No task of the queue precedes the first one that a worker may take: it would have been
eligible too, and stood before it. -/
theorem not_precedes_first (hsorted : s.tasks.Pairwise fun x y => x.id < y.id) {w : Worker} {running : Nat → Bool}
    (hthread : w.thread ∈ threads) (hcalm : ∀ f, calm f → running f = false) {pre post : List Task} {task : Task}
    (htasks : s.tasks = pre ++ task :: post) (hpre : ∀ t ∈ pre, t.eligible w.thread running = false)
    (htask : task.eligible w.thread running = true) : ∀ x ∈ pre ++ post, ¬ Precedes threads calm x task := by
  intro x hx hprec
  have hfor := hprec.wherever w.thread hthread (Task.eligible_iff.mp htask).1
  have hrun : x.fiber.any running = false := by
    cases hf : x.fiber with
    | none => simp
    | some f => simp [hcalm f (hprec.calm f hf)]
  rcases List.mem_append.mp hx with hbefore | hbehind
  · have hnot := hpre x hbefore
    rw [Task.eligible_iff.mpr ⟨hfor, hrun⟩] at hnot
    exact absurd hnot (by simp)
  · rw [htasks, List.pairwise_append, List.pairwise_cons] at hsorted
    have hlt := hsorted.2.1.1 x hbehind
    have := hprec.earlier
    omega

/-- The pass of a worker keeps the order. -/
theorem InOrder.pass (h : InOrder threads calm s) {i : Nat} {w : Worker} {running : Nat → Bool}
    (hw : s.workers[i]? = some w) (hcalm : ∀ f, calm f → running f = false)
    (hworkers : s'.workers.map Worker.thread = s.workers.map Worker.thread)
    (hpass : SelectsFirst s i w running s') : InOrder threads calm s' := by
  rcases first_eligible w.thread running s.tasks with hnone | ⟨pre, task, post, htasks, hpre, htask⟩
  · obtain ⟨hq, -, -, htk⟩ := hpass.missed hnone
    exact h.same hworkers hq hpass.kept.1 htk
  · obtain ⟨hq, -, -, htk⟩ := hpass.found pre task post htasks hpre htask
    have hsorted := h.sorted
    rw [htasks, List.pairwise_append, List.pairwise_cons] at hsorted
    obtain ⟨hpresorted, ⟨-, hpostsorted⟩, hbetween⟩ := hsorted
    have hmem : ∀ t, t ∈ s.tasks ↔ t = task ∨ t ∈ s'.tasks := by
      intro t
      rw [htasks, hq]
      simp only [List.mem_append, List.mem_cons]
      tauto
    have hthread : w.thread ∈ threads := by
      rw [← h.workers]
      exact List.mem_map_of_mem (List.mem_of_getElem? hw)
    have hfirst : ∀ x ∈ s'.tasks, ¬ Precedes threads calm x task := by
      rw [hq]
      exact not_precedes_first h.sorted hthread hcalm htasks hpre htask
    constructor
    · rw [hworkers]; exact h.workers
    · intro t ht
      exact h.real t ((hmem t).mpr (Or.inr ht))
    · rw [hq, List.pairwise_append]
      refine ⟨hpresorted, hpostsorted, ?_⟩
      intro x hx y hy
      exact hbetween x hx y (List.mem_cons_of_mem task hy)
    · rw [hpass.kept.1, htk, List.map_append]
      intro t ht
      rcases h.located t ht with hold | hold
      · rcases (hmem t).mp hold with rfl | hstay
        · exact Or.inr (by simp)
        · exact Or.inl hstay
      · exact Or.inr (List.mem_append_left _ hold)
    · rw [hpass.kept.1, htk, List.map_append]
      intro t ht
      rcases ht with hold | hold
      · exact h.numbered t (Or.inl ((hmem t).mpr (Or.inr hold)))
      · rcases List.mem_append.mp hold with hold | hnew
        · exact h.numbered t (Or.inr hold)
        · rw [List.mem_singleton.mp hnew]
          exact h.numbered task (Or.inl ((hmem task).mpr (Or.inl rfl)))
    · rw [htk]
      intro x hx y hy
      rcases List.mem_append.mp hy with hold | hnew
      · exact h.left x ((hmem x).mpr (Or.inr hx)) y hold
      · rw [List.mem_singleton.mp hnew]
        exact hfirst x hx
    · rw [htk, List.pairwise_append]
      refine ⟨h.taken, List.pairwise_singleton _ _, ?_⟩
      intro y hy x hx
      rw [List.mem_singleton.mp hx]
      exact h.left task ((hmem task).mpr (Or.inl rfl)) y hy

theorem CalmStep.inOrder (h : InOrder threads calm s) (hstep : CalmStep calm s s') :
    InOrder threads calm s' := by
  cases hstep with
  | @take i w running stale hw hpc hcalm =>
    have hworkers := (Step.queue_cases (Step.take running stale hw hpc)).1
    exact h.pass hw hcalm hworkers (take_selectsFirst s i w running stale)
  | other hstep htaken =>
    obtain ⟨hworkers, hcases⟩ := hstep.queue_cases
    rcases hcases with ⟨hq, hs, htk⟩ | ⟨task, hid, hreal, hq, hs, htk⟩ | ⟨i, w, running, hw, hpass⟩
    · exact h.same hworkers hq hs htk
    · exact h.join hworkers hid hreal hq hs htk
    · rcases first_eligible w.thread running s.tasks with hnone | ⟨pre, task, post, hsplit, hpre, htask⟩
      · obtain ⟨hq, -, -, htk⟩ := hpass.missed hnone
        exact h.same hworkers hq hpass.kept.1 htk
      · -- a pass that takes a task is in the record
        have hrec := (hpass.found pre task post hsplit hpre htask).2.2.2
        rw [htaken] at hrec
        exact absurd (congrArg List.length hrec) (by simp)

theorem CalmRuns.inOrder (h : InOrder threads calm s) (r : CalmRuns calm s s') :
    InOrder threads calm s' := by
  induction r with
  | refl => exact h
  | tail _ hstep ih => exact hstep.inOrder ih

/-- Read at places of the record: what precedes a task taken was taken before it. -/
theorem InOrder.before (h : InOrder threads calm s) {x y : Task} {q i : Nat} (hx : x ∈ s.scheduled)
    (hprec : Precedes threads calm x y) (hy : s.taken[q]? = some (i, y)) :
    ∃ p < q, ∃ j, s.taken[p]? = some (j, x) := by
  have hymem : (i, y) ∈ s.taken := List.mem_of_getElem? hy
  rcases h.located x hx with hqueued | htaken
  · exact absurd hprec (h.left x hqueued (i, y) hymem)
  · obtain ⟨⟨j, x'⟩, hmem, heq⟩ := List.mem_map.mp htaken
    obtain ⟨p, hp⟩ := List.mem_iff_getElem?.mp hmem
    dsimp only at heq
    subst heq
    refine ⟨p, ?_, j, hp⟩
    obtain ⟨hplt, hpget⟩ := List.getElem?_eq_some_iff.mp hp
    obtain ⟨hqlt, hqget⟩ := List.getElem?_eq_some_iff.mp hy
    rcases Nat.lt_trichotomy p q with hlt | heq | hgt
    · exact hlt
    · subst heq
      rw [hp] at hy
      cases hy
      exact absurd hprec.earlier (Nat.lt_irrefl _)
    · have hnot := List.pairwise_iff_getElem.mp h.taken q p hqlt hplt hgt
      rw [hpget, hqget] at hnot
      exact absurd hprec hnot

end

/-- **Task selection.** One pass of the loop takes the first task that is for any thread or
the worker's and has no running fiber, leaves the others in their order and counts one more
active thread; without such a task it changes neither queue nor counter and runs nothing; and
its assertion passes at every queue `schedule` can make. So in every run, a task that was
scheduled before another, may be taken by every worker that may take the other, and carries
no running fiber, is taken before it. -/
theorem tasks_taken_in_order :
    (∀ (s : State) (i : Nat) (w : Worker) (running : Nat → Bool) (stale : Bool),
      SelectsFirst s i w running (s.take i w running stale) ∧
      ((∀ task ∈ s.tasks, task.real = true) →
        scanAsserted w.thread running s.tasks true = some (scan w.thread running s.tasks true))) ∧
    ∀ (threads : List Int) (calm : Nat → Prop) (s : State), CalmRuns calm (init threads) s →
      (∀ task ∈ s.tasks, task.real = true) ∧
      ∀ (x y : Task) (q i : Nat), x ∈ s.scheduled → Precedes threads calm x y →
        s.taken[q]? = some (i, y) → ∃ p < q, ∃ j, s.taken[p]? = some (j, x) := by
  constructor
  · intro s i w running stale
    exact ⟨take_selectsFirst s i w running stale, scanAsserted_eq s.tasks true⟩
  · intro threads calm s r
    have h := CalmRuns.inOrder inOrder_init r
    refine ⟨h.real, ?_⟩
    intro x y q i hx hprec hy
    exact h.before hx hprec hy

/-- Two workers, two callbacks for any thread: the second pass finds the first one gone. -/
theorem tasks_taken_in_order_two :
    ∃ s, CalmRuns (fun _ => True) (init [1, 2]) s ∧ s.taken.length = 2 ∧
      ∃ p < 1, ∃ j, s.taken[p]? = some (j, { id := 0, fiber := none, cb := some 7, thread := -1 }) := by
  have r₁ : CalmRuns (fun _ => True) (init [1, 2]) _ :=
    .tail .refl (.other (.schedule none (some 7) (-1) (Or.inr (Or.inl rfl))) rfl)
  have r₂ := r₁.tail (.other (.schedule none (some 8) (-1) (Or.inr (Or.inl rfl))) rfl)
  have r₃ := r₂.tail (.take (i := 1) (fun _ => false) false rfl rfl (by simp))
  have r₄ := r₃.tail (.take (i := 0) (fun _ => false) false rfl rfl (by simp))
  refine ⟨_, r₄, rfl, ?_⟩
  have horder := (tasks_taken_in_order.2 [1, 2] (fun _ => True) _ r₄).2
  refine horder _ { id := 1, fiber := none, cb := some 8, thread := -1 } 1 0 ?_ ?_ rfl
  · decide
  · exact ⟨by decide, by decide, by simp⟩

/-! ## Tickling -/

/-- One iteration of `run()` calls `tickle()`. -/
def tickles (thread : Int) (running : Nat → Bool) (stale : Bool) (tasks : List Task) : Bool :=
  (takeTask thread running stale tasks).2.2

/-- The scan left work for another worker: it walked past a task pinned to another thread,
or it took a task with others behind it. -/
def LeftWork (thread : Int) (running : Nat → Bool) (tasks : List Task) : Prop :=
  (∃ task ∈ skipped thread running tasks, task.forThread thread = false) ∨
    (reached thread running tasks).tail ≠ []

/-- A pinned task stands before the first task the worker may take, or that one is not the
last: a condition on the queue alone. -/
def WorkForOthers (thread : Int) (running : Nat → Bool) (tasks : List Task) : Prop :=
  (∃ pre task post, tasks = pre ++ task :: post ∧ task.thread ≠ -1 ∧ task.thread ≠ thread ∧
    ∀ t ∈ pre, t.eligible thread running = false) ∨
  ∃ pre task post, tasks = pre ++ task :: post ∧ task.eligible thread running = true ∧ post ≠ []

theorem tickles_always (thread : Int) (running : Nat → Bool) (stale : Bool) (tasks : List Task) :
    tickles thread running stale tasks = true := by
  unfold tickles
  rw [takeTask_eq]
  cases reached thread running tasks with
  | nil => simp
  | cons task rest => simp

/-- The pinned task of the first case is one the scan walks past. -/
theorem mem_skipped_of_split {thread : Int} {running : Nat → Bool} {tasks pre post : List Task}
    {task : Task} (hsplit : tasks = pre ++ task :: post)
    (hpre : ∀ t ∈ pre, t.eligible thread running = false)
    (htask : task.eligible thread running = false) : task ∈ skipped thread running tasks := by
  subst hsplit
  have hall : ∀ t ∈ pre, (!t.eligible thread running) = true := by
    intro t ht
    simp [hpre t ht]
  unfold skipped
  rw [List.takeWhile_append_of_pos hall]
  simp [htask]

theorem leftWork_iff (thread : Int) (running : Nat → Bool) (tasks : List Task) :
    LeftWork thread running tasks ↔ WorkForOthers thread running tasks := by
  constructor
  · intro h
    rcases h with ⟨task, hmem, hpin⟩ | hbehind
    · left
      obtain ⟨pre, post, hsplit⟩ := List.append_of_mem hmem
      have hthread := Task.forThread_eq_false.mp hpin
      refine ⟨pre, task, post ++ reached thread running tasks, ?_, hthread.1, hthread.2, ?_⟩
      · calc tasks = skipped thread running tasks ++ reached thread running tasks :=
              (skipped_append_reached thread running tasks).symm
          _ = (pre ++ task :: post) ++ reached thread running tasks := by rw [← hsplit]
          _ = pre ++ task :: (post ++ reached thread running tasks) := by simp
      · intro t ht
        apply not_eligible_of_mem_skipped
        rw [hsplit]
        exact List.mem_append_left _ ht
    · right
      cases hreach : reached thread running tasks with
      | nil => rw [hreach] at hbehind; simp at hbehind
      | cons task rest =>
        rw [hreach] at hbehind
        refine ⟨skipped thread running tasks, task, rest, ?_, eligible_of_reached hreach, ?_⟩
        · rw [← hreach, skipped_append_reached]
        · simpa using hbehind
  · intro h
    rcases h with ⟨pre, task, post, hsplit, hany, hother, hpre⟩ | ⟨pre, task, post, hsplit, htask, hpost⟩
    · left
      have hpin : task.forThread thread = false := Task.forThread_eq_false.mpr ⟨hany, hother⟩
      refine ⟨task, mem_skipped_of_split hsplit hpre ?_, hpin⟩
      simp [Task.eligible, hpin]
    · right
      -- the first eligible task stands no further than this one
      rcases first_eligible thread running pre with hnone | ⟨pre', first, rest, hpre, hskip, hfirst⟩
      · rw [(cut_eq hsplit hnone htask).2]
        simpa using hpost
      · have hcut : tasks = pre' ++ first :: (rest ++ task :: post) := by simp [hsplit, hpre]
        rw [(cut_eq hcut hskip hfirst).2]
        simp

/-- **Tickling.** `tickle_me` starts out true, so every iteration tickles: it tickles exactly
for the work it leaves if and only if it leaves some. -/
theorem tickles_for_work_iff (thread : Int) (running : Nat → Bool) (stale : Bool) (tasks : List Task) :
    (tickles thread running stale tasks = true ↔ LeftWork thread running tasks) ↔
      WorkForOthers thread running tasks := by
  rw [tickles_always, leftWork_iff]
  simp

/-- A worker that finds the queue empty tickles. -/
theorem idle_worker_tickles :
    ¬ (tickles 1 (fun _ => false) false [] = true ↔ LeftWork 1 (fun _ => false) []) := by
  intro h
  have hleft := h.mp (tickles_always 1 (fun _ => false) false [])
  simp [LeftWork, skipped, reached] at hleft

end Sylar.Scheduler
