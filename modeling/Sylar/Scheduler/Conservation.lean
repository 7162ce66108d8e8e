import Mathlib.Data.List.Perm.Basic
import Mathlib.Algebra.Order.Ring.Nat
import Mathlib.Data.List.Nodup
import Mathlib.Logic.Relation
import Sylar.Lib.Slots
import Sylar.Scheduler.Basic

/- No task is lost, none runs twice, and stopping waits for all of them.

   `Inv` says that the tasks scheduled are those queued, executing and completed,
   that the active counter is the number of executing tasks, and that a worker whose
   idle fiber has ended has seen the last of them: the queue is empty, nothing
   executes, and so nobody is left who may schedule. Each step keeps it
   (`step_inv`), and `tasks_conserved` reads the results off for every
   interleaving. -/
namespace Sylar.Scheduler
open Sylar.Lib

/-! ## What the workers hold -/

def Worker.task (w : Worker) : Option Task :=
  match w.pc with
  | .executing task => some task
  | _ => none

/-- The tasks taken and not completed. -/
def State.executing (s : State) : List Task := s.workers.filterMap Worker.task

theorem Worker.task_executing {w : Worker} {task : Task} (h : w.pc = .executing task) :
    w.task = some task := by
  unfold Worker.task
  rw [h]

theorem Worker.task_none {w : Worker} (h : ∀ task, w.pc ≠ .executing task) : w.task = none := by
  unfold Worker.task
  split
  · rename_i task hpc
    exact absurd hpc (h task)
  · rfl

theorem mem_executing {s : State} {task : Task} : task ∈ s.executing ↔ s.Executes task := by
  unfold State.executing State.Executes
  rw [List.mem_filterMap]
  constructor
  · rintro ⟨w, hw, ht⟩
    refine ⟨w, hw, ?_⟩
    unfold Worker.task at ht
    split at ht
    · cases ht; assumption
    · cases ht
  · rintro ⟨w, hw, hpc⟩
    exact ⟨w, hw, Worker.task_executing hpc⟩

/-! ## The scan takes one task out of the queue -/

theorem scan_perm (thread : Int) (running : Nat → Bool) : ∀ (tasks : List Task) (tickle : Bool)
    (task : Task) (queue : List Task), (scan thread running tasks tickle).2 = some (task, queue) →
    tasks.Perm (task :: queue) := by
  intro tasks
  induction tasks with
  | nil => intro tickle task queue h; cases h
  | cons it rest ih =>
    intro tickle task queue h
    have skip : ∀ tickle', (scan thread running rest tickle').2.map
        (fun found => (found.1, it :: found.2)) = some (task, queue) →
        (it :: rest).Perm (task :: queue) := by
      intro tickle' hmap
      obtain ⟨⟨task', queue'⟩, hfound, heq⟩ := Option.map_eq_some_iff.mp hmap
      cases heq
      exact ((ih tickle' task' queue' hfound).cons it).trans (List.Perm.swap task' it queue')
    unfold scan at h
    split at h
    · exact skip true h
    · split at h
      · exact skip tickle h
      · cases h
        exact List.Perm.refl _

theorem takeTask_some {thread : Int} {running : Nat → Bool} {stale tickle : Bool}
    {tasks queue : List Task} {task : Task}
    (h : takeTask thread running stale tasks = (some task, queue, tickle)) :
    tasks.Perm (task :: queue) := by
  unfold takeTask at h
  split at h
  · rename_i tickle' task' queue' hscan
    cases h
    exact scan_perm thread running tasks true task queue (by rw [hscan])
  · cases h

/-! ## The invariant -/

structure Inv (s : State) : Prop where
  small : s.workers.length < 2 ^ 64
  conserved : s.scheduled.Perm (s.tasks ++ (s.executing ++ s.completed))
  numbered : s.scheduled.map Task.id = List.range s.scheduled.length
  recorded : (s.taken.map Prod.snd).Perm (s.executing ++ s.completed)
  nonempty : ∀ task ∈ s.tasks, task.fiber.isSome ∨ task.cb.isSome
  count : s.activeThreadCount = BitVec.ofNat 64 s.executing.length
  finished : ∀ w ∈ s.workers, w.idleTerm = true →
    s.stopping = true ∧ s.tasks = [] ∧ s.executing = []
  gone : ∀ w ∈ s.workers, w.pc = .left → w.idleTerm = true

section
variable {s : State} {i : Nat} {w : Worker}

theorem executing_length_le (s : State) : s.executing.length ≤ s.workers.length :=
  List.length_filterMap_le _ _

theorem mem_workers_set {w' : Worker} {v : Worker} (h : v ∈ s.workers.set i w') :
    v = w' ∨ v ∈ s.workers := by
  rcases List.mem_or_eq_of_mem_set h with h | h
  · exact Or.inr h
  · exact Or.inl h

/-- A worker that stays leaves nothing to say about those that are gone. -/
theorem Inv.gone_set (h : Inv s) {w' : Worker} (hpc : w'.pc ≠ .left) :
    ∀ v ∈ s.workers.set i w', v.pc = .left → v.idleTerm = true := by
  intro v hv hleft
  rcases mem_workers_set hv with rfl | hold
  · exact absurd hleft hpc
  · exact h.gone v hold hleft

/-- While a task is around no worker has terminated, nor does one by taking or finishing it. -/
theorem not_finished_set {P : Prop} {w' : Worker} (hmem : w ∈ s.workers) (hterm : w'.idleTerm = w.idleTerm)
    (hbusy : ∀ v ∈ s.workers, v.idleTerm ≠ true) : ∀ v ∈ s.workers.set i w', v.idleTerm = true → P := by
  intro v hv hv'
  rcases mem_workers_set hv with rfl | hold
  · exact absurd (hterm.symm.trans hv') (hbusy w hmem)
  · exact absurd hv' (hbusy v hold)

/-- A worker that moves without taking or giving back a task. -/
theorem executing_setWorker {w' : Worker} (hw : s.workers[i]? = some w) (h : w.task = w'.task) :
    (s.setWorker i w').executing = s.executing :=
  held_keep Worker.task s.workers i w w' hw h

theorem perm_push {l q r : List Task} (task : Task) (h : l.Perm (q ++ r)) :
    (l ++ [task]).Perm (q ++ [task] ++ r) := by
  have hcons := (List.perm_append_singleton task l).trans (h.cons task)
  rw [List.append_assoc, List.singleton_append]
  exact hcons.trans List.perm_middle.symm

/-- With nothing queued and nothing executing after `stop()`, only empty tasks come. -/
theorem inv_schedule (h : Inv s) {fiber cb : Option Nat} (thread : Int)
    (hcaller : (fiber = none ∧ cb = none) ∨ s.stopping = false ∨ ∃ caller, s.Executes caller) :
    Inv (s.scheduleNoLock fiber cb thread) := by
  unfold State.scheduleNoLock
  dsimp only
  split
  · rename_i hft
    -- a worker has seen the end: then nobody may schedule
    have hopen : ∀ w ∈ s.workers, w.idleTerm ≠ true := by
      intro w hw hterm
      obtain ⟨hstop, -, hexec⟩ := h.finished w hw hterm
      rcases hcaller with ⟨rfl, rfl⟩ | hrun | ⟨caller, hcaller⟩
      · simp at hft
      · rw [hstop] at hrun; cases hrun
      · rw [← mem_executing, hexec] at hcaller
        cases hcaller
    refine ⟨h.small, perm_push _ h.conserved, ?_, h.recorded, ?_, h.count, ?_, h.gone⟩
    · show (s.scheduled ++ [_]).map Task.id = List.range (s.scheduled ++ [_]).length
      rw [List.map_append, h.numbered, List.length_append, List.length_singleton, List.range_succ]
      rfl
    · intro task htask
      rcases List.mem_append.mp htask with hold | hnew
      · exact h.nonempty task hold
      · obtain rfl := List.mem_singleton.mp hnew
        exact hft
    · intro w hw hterm
      exact absurd hterm (hopen w hw)
  · exact h

theorem inv_take (h : Inv s) (running : Nat → Bool) (stale : Bool) (hw : s.workers[i]? = some w)
    (hpc : w.pc = .top) : Inv (s.take i w running stale) := by
  have hmem : w ∈ s.workers := List.mem_of_getElem? hw
  have hidle : w.task = none := Worker.task_none fun task hex => by rw [hpc] at hex; cases hex
  unfold State.take
  split
  · rename_i task queue tickle htake
    have hqueue := takeTask_some htake
    have hbusy : ∀ v ∈ s.workers, v.idleTerm ≠ true := by
      intro v hv hterm
      rw [(h.finished v hv hterm).2.1] at hqueue
      exact absurd hqueue.length_eq (by simp)
    -- what executes is what did, and the task
    have hexec : ((s.workers.set i { w with pc := .executing task }).filterMap Worker.task).Perm
        (task :: s.executing) :=
      held_fill Worker.task s.workers i w _ task hw hidle rfl
    refine ⟨by simpa [State.setWorker] using h.small, ?_, h.numbered, ?_, ?_, ?_, ?_, ?_⟩
    · refine h.conserved.trans ?_
      refine (hqueue.append_right _).trans ?_
      refine (List.perm_middle.symm).trans ?_
      exact (hexec.symm.append_right s.completed).append_left queue
    · show ((s.taken ++ [(i, task)]).map Prod.snd).Perm _
      rw [List.map_append]
      refine (List.perm_append_singleton task _).trans ?_
      exact (h.recorded.cons task).trans (hexec.symm.append_right s.completed)
    · intro t ht
      exact h.nonempty t (hqueue.mem_iff.mpr (List.mem_cons_of_mem task ht))
    · show s.activeThreadCount + 1 = BitVec.ofNat 64
        ((s.workers.set i { w with pc := .executing task }).filterMap Worker.task).length
      rw [hexec.length_eq, List.length_cons, BitVec.ofNat_add, h.count]
      rfl
    · exact not_finished_set hmem rfl hbusy
    · exact h.gone_set (by simp)
  · have hexec : (s.setWorker i { w with pc := .noTask }).executing = s.executing :=
      executing_setWorker hw (by rw [hidle]; rfl)
    refine ⟨by simpa [State.setWorker] using h.small, ?_, h.numbered, ?_, h.nonempty, ?_, ?_, ?_⟩
    · rw [hexec]; exact h.conserved
    · rw [hexec]; exact h.recorded
    · rw [hexec]; exact h.count
    · intro v hv hterm
      rw [hexec]
      rcases mem_workers_set hv with rfl | hold
      · exact h.finished w hmem hterm
      · exact h.finished v hold hterm
    · exact h.gone_set (by simp)

theorem inv_finish (h : Inv s) {task : Task} (hw : s.workers[i]? = some w)
    (hpc : w.pc = .executing task) : Inv (s.finish i w task) := by
  have hmem : w ∈ s.workers := List.mem_of_getElem? hw
  have hexec : s.executing.Perm
      (task :: (s.workers.set i { w with pc := .top }).filterMap Worker.task) :=
    held_empty Worker.task s.workers i w _ task hw (Worker.task_executing hpc) rfl
  have hbusy : ∀ v ∈ s.workers, v.idleTerm ≠ true := by
    intro v hv hterm
    rw [(h.finished v hv hterm).2.2] at hexec
    exact absurd hexec.length_eq (by simp)
  -- the task moves from what executes to what is completed
  have hmove : (s.executing ++ s.completed).Perm
      ((s.workers.set i { w with pc := .top }).filterMap Worker.task ++ (s.completed ++ [task])) := by
    refine (hexec.append_right _).trans ?_
    rw [← List.append_assoc]
    exact (List.perm_append_singleton task _).symm
  refine ⟨by simpa [State.finish, State.setWorker] using h.small, ?_, h.numbered, ?_, h.nonempty, ?_,
    ?_, ?_⟩
  · exact h.conserved.trans (hmove.append_left s.tasks)
  · exact h.recorded.trans hmove
  · show s.activeThreadCount - 1 = BitVec.ofNat 64
      ((s.workers.set i { w with pc := .top }).filterMap Worker.task).length
    rw [h.count, hexec.length_eq, List.length_cons, BitVec.ofNat_add]
    exact BitVec.add_sub_cancel _ _
  · exact not_finished_set hmem rfl hbusy
  · exact h.gone_set (by simp)

theorem inv_stop (h : Inv s) : Inv s.stop := by
  unfold State.stop
  split
  · exact h
  · refine ⟨h.small, h.conserved, h.numbered, h.recorded, h.nonempty, h.count, ?_, h.gone⟩
    intro v hv hterm
    obtain ⟨-, htasks, hexec⟩ := h.finished v hv hterm
    exact ⟨rfl, htasks, hexec⟩

/-- What a true `stopping()` says. -/
theorem Inv.stoppingNow (h : Inv s) (hs : s.stoppingNow = true) :
    s.stopping = true ∧ s.tasks = [] ∧ s.executing = [] := by
  unfold State.stoppingNow at hs
  simp only [Bool.and_eq_true, beq_iff_eq, List.isEmpty_iff] at hs
  obtain ⟨⟨hstop, htasks⟩, hcount⟩ := hs
  refine ⟨hstop, htasks, ?_⟩
  have hzero := congrArg BitVec.toNat (h.count.symm.trans hcount)
  have hle := executing_length_le s
  have hsmall := h.small
  rw [BitVec.toNat_ofNat, Nat.mod_eq_of_lt (by omega)] at hzero
  exact List.length_eq_zero_iff.mp hzero

/-- A step of a worker that holds no task before and after, and ends its idle fiber only on
a true `stopping()`. -/
theorem inv_move (h : Inv s) (hw : s.workers[i]? = some w) {w' : Worker} (ht : w.task = none)
    (ht' : w'.task = none) (hterm : w'.idleTerm = true → w.idleTerm = true ∨ s.stoppingNow = true)
    (hleft : w'.pc = .left → w'.idleTerm = true) : Inv (s.setWorker i w') := by
  have hmem : w ∈ s.workers := List.mem_of_getElem? hw
  have hexec : (s.setWorker i w').executing = s.executing := executing_setWorker hw (ht.trans ht'.symm)
  refine ⟨by simpa [State.setWorker] using h.small, ?_, h.numbered, ?_, h.nonempty, ?_, ?_, ?_⟩
  · rw [hexec]; exact h.conserved
  · rw [hexec]; exact h.recorded
  · rw [hexec]; exact h.count
  · intro v hv hv'
    rw [hexec]
    rcases mem_workers_set hv with rfl | hold
    · rcases hterm hv' with hold | hnow
      · exact h.finished w hmem hold
      · exact h.stoppingNow hnow
    · exact h.finished v hold hv'
  · intro v hv hv'
    rcases mem_workers_set hv with rfl | hold
    · exact hleft hv'
    · exact h.gone v hold hv'

theorem step_inv {s' : State} (h : Inv s) (hstep : Step s s') : Inv s' := by
  cases hstep with
  | schedule fiber cb thread hcaller => exact inv_schedule h thread hcaller
  | take running stale hw hpc => exact inv_take h running stale hw hpc
  | finish hw hpc => exact inv_finish h hw hpc
  | stop => exact inv_stop h
  | @idle i w hw hpc =>
    refine inv_move h hw (Worker.task_none fun task hex => by rw [hpc] at hex; cases hex) ?_
      (fun hterm => Or.inl hterm) ?_
    · apply Worker.task_none
      intro task hex
      dsimp only at hex
      split at hex <;> cases hex
    · intro hleft
      dsimp only at hleft
      split at hleft
      · assumption
      · cases hleft
  | @check i w hw hpc =>
    exact inv_move h hw (Worker.task_none fun task hex => by rw [hpc] at hex; cases hex) rfl
      (fun hterm => Or.inr hterm) (fun hleft => by cases hleft)

end

/-! ## Every interleaving -/

theorem inv_init {threads : List Int} (h : threads.length < 2 ^ 64) : Inv (init threads) := by
  have hexec : (init threads).executing = [] := by
    unfold State.executing
    rw [List.filterMap_eq_nil_iff]
    intro w hw
    obtain ⟨thread, -, rfl⟩ := List.mem_map.mp hw
    rfl
  refine ⟨by simpa [init] using h, ?_, rfl, ?_, ?_, ?_, ?_, ?_⟩
  · rw [hexec]; exact List.Perm.refl _
  · rw [hexec]; exact List.Perm.refl _
  · intro task htask; cases htask
  · rw [hexec]; rfl
  · intro w hw hterm
    obtain ⟨thread, -, rfl⟩ := List.mem_map.mp hw
    cases hterm
  · intro w hw hleft
    obtain ⟨thread, -, rfl⟩ := List.mem_map.mp hw
    cases hleft

/-- The interleavings from a state. -/
abbrev Runs : State → State → Prop := Relation.ReflTransGen Step

theorem Runs.inv {s s' : State} (h : Inv s) (r : Runs s s') : Inv s' := by
  induction r with
  | refl => exact h
  | tail _ hstep ih => exact step_inv ih hstep

theorem setWorker_length (s : State) (i : Nat) (w : Worker) :
    (s.setWorker i w).workers.length = s.workers.length := List.length_set

/-- Overwriting worker `i` keeps that some idle fiber has ended, if it keeps that of
worker `i`. -/
theorem idleTerm_setWorker {s : State} {i : Nat} {w w' : Worker} (hw : s.workers[i]? = some w)
    (hkeep : w.idleTerm = true → w'.idleTerm = true) (h : ∃ v ∈ s.workers, v.idleTerm = true) :
    ∃ v ∈ (s.setWorker i w').workers, v.idleTerm = true := by
  obtain ⟨v, hv, hterm⟩ := h
  obtain ⟨j, hj⟩ := List.mem_iff_getElem?.mp hv
  by_cases hji : j = i
  · subst hji
    rw [hw] at hj
    cases hj
    exact ⟨w', List.mem_of_getElem? (List.getElem?_set_self (List.getElem?_eq_some_iff.mp hw).1),
      hkeep hterm⟩
  · exact ⟨v, List.mem_of_getElem? ((List.getElem?_set_ne (Ne.symm hji)).trans hj), hterm⟩

/-- An idle fiber that has ended stays ended, and no worker comes or goes. -/
theorem step_workers {s s' : State} (h : Inv s) (hstep : Step s s') :
    s'.workers.length = s.workers.length ∧
      ((∃ v ∈ s.workers, v.idleTerm = true) → ∃ v ∈ s'.workers, v.idleTerm = true) := by
  cases hstep with
  | schedule fiber cb thread hcaller =>
    unfold State.scheduleNoLock
    dsimp only
    split
    · exact ⟨rfl, id⟩
    · exact ⟨rfl, id⟩
  | take running stale hw hpc =>
    unfold State.take
    split
    · exact ⟨setWorker_length s _ _, idleTerm_setWorker hw id⟩
    · exact ⟨setWorker_length s _ _, idleTerm_setWorker hw id⟩
  | finish hw hpc => exact ⟨setWorker_length s _ _, idleTerm_setWorker hw id⟩
  | stop =>
    unfold State.stop
    split
    · exact ⟨rfl, id⟩
    · exact ⟨rfl, id⟩
  | idle hw hpc => exact ⟨setWorker_length s _ _, idleTerm_setWorker hw id⟩
  | @check i w hw hpc =>
    refine ⟨setWorker_length s _ _, ?_⟩
    rintro ⟨v, hv, hterm⟩
    -- some worker has seen the end, so this call of `stopping()` sees it too
    obtain ⟨hstop, htasks, hexec⟩ := h.finished v hv hterm
    have hcount := h.count
    rw [hexec] at hcount
    have hnow : s.stoppingNow = true := by
      unfold State.stoppingNow
      rw [hstop, htasks, hcount]
      rfl
    exact idleTerm_setWorker hw (fun _ => hnow) ⟨v, hv, hterm⟩

theorem Runs.workers {s s' : State} (h : Inv s) (r : Runs s s') :
    s'.workers.length = s.workers.length ∧
      ((∃ v ∈ s.workers, v.idleTerm = true) → ∃ v ∈ s'.workers, v.idleTerm = true) := by
  induction r with
  | refl => exact ⟨rfl, id⟩
  | tail r hstep ih =>
    obtain ⟨hlen, hkeep⟩ := step_workers (Runs.inv h r) hstep
    exact ⟨hlen.trans ih.1, fun hv => hkeep (ih.2 hv)⟩

/-- **No task is lost and none runs twice.** In every interleaving: the tasks scheduled are
the queued, the executing and the completed ones; no task is taken twice; the active counter
is the number of executing tasks; once a `stopping()` has returned true nothing is queued and
nothing executes, then and ever after; and when all workers have left, every task scheduled
has been executed. -/
theorem tasks_conserved (threads : List Int) (hsome : threads ≠ []) (hsize : threads.length < 2 ^ 64)
    (s : State) (r : Runs (init threads) s) :
    s.scheduled.Perm (s.tasks ++ (s.executing ++ s.completed)) ∧
    (s.taken.map fun x => x.2.id).Nodup ∧
    (s.taken.map Prod.snd).Perm (s.executing ++ s.completed) ∧
    s.activeThreadCount.toNat = s.executing.length ∧
    ((∃ w ∈ s.workers, w.idleTerm = true) →
      ∀ s', Runs s s' → s'.tasks = [] ∧ s'.executing = []) ∧
    ((∀ w ∈ s.workers, w.pc = .left) → s.scheduled.Perm s.completed) := by
  have hinit := inv_init hsize
  have h := Runs.inv hinit r
  have hlen := (Runs.workers hinit r).1
  refine ⟨h.conserved, ?_, h.recorded, ?_, ?_, ?_⟩
  · -- the numbers of the tasks taken are among the numbers of those scheduled
    have hids : (s.scheduled.map Task.id).Nodup := by rw [h.numbered]; exact List.nodup_range
    have hperm := h.conserved.map Task.id
    rw [List.map_append] at hperm
    have htaken := (List.nodup_append.mp (hperm.nodup_iff.mp hids)).2.1
    have hrec := h.recorded.map Task.id
    rw [List.map_map] at hrec
    exact hrec.nodup_iff.mpr htaken
  · have hle := executing_length_le s
    have hsmall := h.small
    rw [h.count, BitVec.toNat_ofNat, Nat.mod_eq_of_lt (by omega)]
  · intro hterm s' r'
    obtain ⟨v, hv, hv'⟩ := (Runs.workers h r').2 hterm
    exact ((Runs.inv h r').finished v hv hv').2
  · intro hleft
    have hpos : 0 < s.workers.length := by
      rw [hlen]
      simpa [init] using List.length_pos_of_ne_nil hsome
    have hw := List.getElem_mem hpos
    obtain ⟨-, htasks, hexec⟩ := h.finished _ hw (h.gone _ hw (hleft _ hw))
    have hperm := h.conserved
    rw [htasks, hexec] at hperm
    exact hperm

/-- One worker, one callback: scheduled, `stop()`, taken, finished; the worker finds nothing,
sees `stopping()` true, finds nothing again and leaves. -/
theorem tasks_conserved_one :
    ∃ s, Runs (init [1]) s ∧ s.scheduled.length = 1 ∧ (∀ w ∈ s.workers, w.pc = .left) ∧
      s.scheduled.Perm s.completed := by
  have r₁ : Runs (init [1]) _ := .tail .refl (.schedule none (some 7) (-1) (Or.inr (Or.inl rfl)))
  have r₂ := r₁.tail .stop
  have r₃ := r₂.tail (.take (i := 0) (fun _ => false) false rfl rfl)
  have r₄ := r₃.tail (.finish (i := 0) rfl rfl)
  have r₅ := r₄.tail (.take (i := 0) (fun _ => false) false rfl rfl)
  have r₆ := r₅.tail (.idle (i := 0) rfl rfl)
  have r₇ := r₆.tail (.check (i := 0) rfl rfl)
  have r₈ := r₇.tail (.take (i := 0) (fun _ => false) false rfl rfl)
  have r₉ := r₈.tail (.idle (i := 0) rfl rfl)
  have hleft : ∀ w ∈ [({ thread := 1, pc := .left, idleTerm := true } : Worker)], w.pc = .left := by
    intro w hw
    obtain rfl := List.mem_singleton.mp hw
    rfl
  exact ⟨_, r₉, rfl, hleft, (tasks_conserved [1] (by decide) (by decide) _ r₉).2.2.2.2.2 hleft⟩

end Sylar.Scheduler
