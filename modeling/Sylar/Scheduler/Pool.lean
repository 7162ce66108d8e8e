import Mathlib.Data.List.Basic
import Mathlib.Data.List.Range
import Mathlib.Logic.Function.Basic
import Sylar.Fiber.Current
import Sylar.Lib.Machine
import Sylar.Thread.Lifecycle

/- The threads of a `Scheduler`: `start` and `stop` of `sylar/scheduler.cc`.

   `start` holds `m_mutex` while it makes the threads, and each of them waits in its constructor for a thread
   whose callback is `Scheduler::run`, which needs `m_mutex`. That goes well because a thread notifies before
   its callback; and it is why `getId` has the thread's id when `start` records it.

   `stop` swaps the threads out and joins them without the lock. Whoever swaps them out owns them; another `stop`
   finds nothing and returns at once, perhaps before the threads have ended.

   With `use_caller` the `stop` resumes `m_rootFiber`, which executes `run` in the thread of the constructor until
   it ends, for good: a second `stop` that finds work again fails the assertion of `Fiber::resume`.

   What `run` does with the lock is any number of sections, and it ends only when `stopping()` may be true.
   Any number of threads call `start` and `stop`, tasks in the scheduler's threads too, and others use the lock, in
   `schedule` or `stopping`.

   `m_threads` is resized before the threads are made. A constructor that throws leaves it with null pointers
   that `stop` follows, a `start` too many fails its assertion, as a `stop` in the wrong thread does, and a task that
   calls `stop` finds `m_rootFiber` running or joins its own thread; the runs considered have none of these. -/
namespace Sylar.ThreadPool
open Sylar.Lib

/-! ## Model -/

/-- Who calls: a thread that is none of the scheduler's, by its id; the `n`th of those that it makes; or what
`m_rootFiber` executes. -/
inductive Caller where
  | outside (id : Nat)
  | worker (n : Nat)
  | root
  deriving DecidableEq, Repr

inductive Holder where
  | caller (c : Caller)
  | worker (n : Nat)
  | other
  deriving DecidableEq, Repr

/-- Where a call of `start` or of `stop` is. -/
inductive Pc where
  | idle
  | lock
  | check
  | make (i : Nat)
  /-- In the constructor of the `i`th thread, whose number is `n`. -/
  | wait (i n : Nat)
  | record (i : Nat)
  | test
  | mark
  | root
  /-- `m_rootFiber->resume()` has not returned. -/
  | resumed
  | swap
  | join (thrs rest : List (Option Nat))
  /-- The destructor of `thrs`. -/
  | drop (rest : List (Option Nat))
  deriving DecidableEq, Repr

structure State where
  threads : Threads.State
  m_mutex : Option Holder
  m_stopping : Bool
  m_threads : List (Option Nat)
  m_threadIds : List (Option Nat)
  m_threadCount : Nat
  m_useCaller : Bool
  /-- The id of the thread of the constructor, where that is -1 otherwise. -/
  m_rootThread : Option Nat
  /-- `m_state` of the fiber. -/
  m_rootFiber : Option Fiber.State
  m_name : List UInt8
  caller : Caller → Pc
  /-- `start` has been called. -/
  started : Bool
  /-- An assertion has failed, or a null pointer was followed. -/
  failed : Bool

/-- The constructor, which asserts that `threads` is not 0, with the id of the caller's thread where `use_caller`
is set. -/
def init (m_name : List UInt8) (threads : Nat) (use_caller : Option Nat) : State where
  threads := Threads.State.init
  m_mutex := none
  m_stopping := false
  m_threads := []
  m_threadIds := (use_caller.map some).toList
  m_threadCount := if use_caller.isSome then threads - 1 else threads
  m_useCaller := use_caller.isSome
  m_rootThread := use_caller
  m_rootFiber := use_caller.map fun _ => .READY
  m_name := m_name
  caller := fun _ => .idle
  started := false
  failed := false

def threadName (m_name : List UInt8) (i : Nat) : List UInt8 :=
  m_name ++ [0x5f] ++ (Nat.toDigits 10 i).map fun c => UInt8.ofNat c.toNat

/-- `GetThis() == this` in the thread of the caller. -/
def State.inside (s : State) : Caller → Bool
  | .outside id => s.m_rootThread == some id
  | .worker _ | .root => true

/-- The thread of the scheduler that the caller is. -/
def Caller.thread : Caller → Option Nat
  | .worker n => some n
  | .outside _ | .root => none

def State.goes (s : State) (c : Caller) (pc : Pc) : State := { s with caller := Function.update s.caller c pc }

/-- The call returns and its guard gives `m_mutex` back. -/
def State.unlock (s : State) (c : Caller) : State := { s.goes c .idle with m_mutex := none }

/-- The next step of a call. `created` and `interrupted` are the answers of the system to a constructor of a
thread, and `quiet` is what `stopping()` reads of the tasks. -/
def State.go (s : State) (c : Caller) (created interrupted quiet : Bool) : Option State :=
  match s.caller c with
  | .idle => none
  | .lock => if s.m_mutex = none then some { s.goes c .check with m_mutex := some (.caller c) } else none
  | .check =>
    if s.m_stopping then some (s.unlock c)
    else if s.m_threads ≠ [] then some { s with failed := true }
    else some { s.goes c (.make 0) with m_threads := List.replicate s.m_threadCount none }
  | .make i =>
    if i < s.m_threadCount then
      if created then
        (Threads.step s.threads (.construct 0 (threadName s.m_name i) true)).map fun t =>
          { s.goes c (.wait i s.threads.next) with threads := t }
      else some (s.unlock c)
    else some (s.unlock c)
  | .wait i n =>
    (Threads.step s.threads (.wait n interrupted)).map fun t =>
      if interrupted then { s.unlock c with threads := t }
      else { s.goes c (.record i) with threads := t, m_threads := s.m_threads.set i (some n) }
  | .record i =>
    let m_id := (s.m_threads[i]?.join.bind s.threads.object).bind Threads.Thread.m_id
    some { s.goes c (.make (i + 1)) with m_threadIds := s.m_threadIds ++ [m_id] }
  | .test =>
    if s.m_mutex = none then some (if s.m_stopping && quiet then s.goes c .idle else s.goes c .mark) else none
  | .mark =>
    if s.inside c = s.m_useCaller then
      some { s.goes c (if s.m_rootFiber.isSome then .root else .swap) with m_stopping := true }
    else some { s with m_stopping := true, failed := true }
  | .root =>
    -- the assertion of `Fiber::resume`
    if s.m_rootFiber = some .READY then some { s.goes c .resumed with m_rootFiber := some .RUNNING }
    else some { s with failed := true }
  | .resumed =>
    -- `run` has returned in the fiber, and no task of it is in a call
    if s.caller .root = .idle then some { s.goes c .swap with m_rootFiber := some .TERM } else none
  | .swap =>
    if s.m_mutex = none then some { s.goes c (.join s.m_threads s.m_threads) with m_threads := [] } else none
  | .join thrs [] => some (s.goes c (.drop thrs))
  | .join thrs (some n :: rest) =>
    -- `join` throws in the thread itself, and nothing catches it
    if c.thread = some n then some { s with failed := true }
    else (Threads.step s.threads (.join n c.thread)).map fun t => { s.goes c (.join thrs rest) with threads := t }
  | .join _ (none :: _) => some { s with failed := true }
  | .drop [] => some (s.goes c .idle)
  | .drop (some n :: rest) =>
    (Threads.step s.threads (.destroy n)).map fun t => { s.goes c (.drop rest) with threads := t }
  | .drop (none :: rest) => some (s.goes c (.drop rest))

inductive Act where
  | start (c : Caller)
  | stop (c : Caller)
  | go (c : Caller) (created interrupted quiet : Bool)
  | line (n : Nat)
  | call (n : Nat)
  /-- `run` takes the lock, gives it back, and returns. -/
  | take (n : Nat)
  | give (n : Nat)
  | leave (n : Nat)
  | borrow
  | back
  deriving DecidableEq, Repr

/-- The thread is in `Scheduler::run`. -/
def State.runs (s : State) (n : Nat) : Prop := n < s.threads.next ∧ (s.threads.stack n).pc = .running

instance (s : State) (n : Nat) : Decidable (s.runs n) := inferInstanceAs (Decidable (_ ∧ _))

def step (s : State) : Act → Option State
  | .start c => if s.caller c = .idle then some { s.goes c .lock with started := true } else none
  | .stop c => if s.caller c = .idle then some (s.goes c .test) else none
  | .go c created interrupted quiet => s.go c created interrupted quiet
  | .line n => (Threads.step s.threads (.line n)).map fun t => { s with threads := t }
  | .call n => (Threads.step s.threads (.call n)).map fun t => { s with threads := t }
  | .take n => if s.runs n ∧ s.m_mutex = none then some { s with m_mutex := some (.worker n) } else none
  | .give n => if s.m_mutex = some (.worker n) then some { s with m_mutex := none } else none
  | .leave n =>
    if s.m_stopping ∧ s.m_mutex ≠ some (.worker n) ∧ s.caller (.worker n) = .idle then
      (Threads.step s.threads (.finish n)).map fun t => { s with threads := t }
    else none
  | .borrow => if s.m_mutex = none then some { s with m_mutex := some .other } else none
  | .back => if s.m_mutex = some .other then some { s with m_mutex := none } else none

def Caller.isOutside : Caller → Bool
  | .outside _ => true
  | .worker _ | .root => false

/-- The system makes the threads and interrupts no constructor. No task calls `start` or `stop`; `start` is called
once, or when the scheduler is stopped already, and `stop` where it asserts to be. When `m_rootFiber` has ended
there is no work any more. -/
def Orderly (s : State) : Act → Prop
  | .start c => c.isOutside = true ∧ (s.started = false ∨ s.m_stopping = true)
  | .stop c => c.isOutside = true ∧ s.inside c = s.m_useCaller
  | .go c created interrupted quiet =>
    created = true ∧ interrupted = false ∧ (s.caller c = .test → s.m_rootFiber = some .TERM → quiet = true)
  | _ => True

instance (s : State) (a : Act) : Decidable (Orderly s a) := by
  cases a <;> unfold Orderly <;> infer_instance

/-! ## Whose the threads are -/

def Pc.starting : Pc → Bool
  | .lock | .check => true
  | _ => false

def Pc.locked : Pc → Bool
  | .check | .make _ | .wait _ _ | .record _ => true
  | _ => false

def Pc.stopped : Pc → Bool
  | .root | .resumed | .swap | .join _ _ | .drop _ => true
  | _ => false

/-- A call of `stop`. -/
def Pc.ending : Pc → Bool
  | .test | .mark | .root | .resumed | .swap | .join _ _ | .drop _ => true
  | _ => false

/-- What a call knows of `m_rootFiber`. -/
def Pc.fits : Pc → Option Fiber.State → Prop
  | .mark, f => f = none ∨ f = some .READY
  | .root, f => f = some .READY
  | .resumed, f => f = some .RUNNING
  | _, _ => True

/-- The call has no threads in its hands. -/
def Pc.passive : Pc → Bool
  | .make _ | .wait _ _ | .record _ => false
  | .join thrs rest => thrs.isEmpty && rest.isEmpty
  | .drop rest => rest.isEmpty
  | _ => true

/-- What of the thread `n` decides whose it is: `m_thread` of its object if there is one, whether its constructor has
returned, and whether it has been joined. -/
def shape (t : Threads.State) (n : Nat) : Option (Option Nat) × Bool × Bool :=
  ((t.object n).map Threads.Thread.m_thread, t.returned n, (t.stack n).joined)

def unjoined (n : Nat) : Option (Option Nat) × Bool × Bool := (some (some n), true, false)

def joinedShape : Option (Option Nat) × Bool × Bool := (some none, true, true)

def droppedShape : Option (Option Nat) × Bool × Bool := (none, true, true)

/-- The pointers to the objects from `k` on, up to `n`. -/
def pointers (k n : Nat) : List (Option Nat) := (List.range' k (n - k)).map some

section
variable {t t' : Threads.State} {n m : Nat}

theorem construct_shape {cb : Nat} {name : List UInt8} (hinv : Threads.Inv t)
    (heq : Threads.step t (.construct cb name true) = some t') :
    t'.next = t.next + 1 ∧ shape t' t.next = (some (some t.next), false, false) ∧
      ∀ m, m ≠ t.next → shape t' m = shape t m := by
  simp only [Threads.step, if_true] at heq
  cases heq
  refine ⟨rfl, ?_, ?_⟩
  · simp [shape, Threads.State.put, Threads.Stack.new, hinv.unborn t.next (Nat.le_refl _)]
  · intro m hm
    simp [shape, Threads.State.put, hm]

theorem shape_some {m_thread : Option Nat} {returned joined : Bool}
    (h : shape t n = (some m_thread, returned, joined)) :
    ∃ thread, t.object n = some thread ∧ thread.m_thread = m_thread ∧ t.returned n = returned ∧
      (t.stack n).joined = joined := by
  simp only [shape, Prod.mk.injEq, Option.map_eq_some_iff] at h
  obtain ⟨⟨thread, ho, hthread⟩, hreturned, hjoined⟩ := h
  exact ⟨thread, ho, hthread, hreturned, hjoined⟩

theorem line_joined {thread : Threads.Thread} {k : Threads.Stack} {r : Threads.Thread × Threads.Stack}
    (h : Threads.line n thread k = some r) : r.1.m_thread = thread.m_thread ∧ r.2.joined = k.joined := by
  unfold Threads.line at h
  split at h <;> cases h <;> exact ⟨rfl, rfl⟩

/-- What changes of a thread otherwise leaves whose it is. -/
theorem shape_put {object : Option Threads.Thread} {k : Threads.Stack}
    (hobject : object.map Threads.Thread.m_thread = (t.object n).map Threads.Thread.m_thread)
    (hjoined : k.joined = (t.stack n).joined) (m : Nat) : shape (t.put n object k) m = shape t m := by
  by_cases hm : m = n
  · subst hm
    simp [shape, Threads.State.put, hobject, hjoined]
  · simp [shape, Threads.State.put, hm]

theorem line_shape (heq : Threads.step t (.line n) = some t') : t'.next = t.next ∧ ∀ m, shape t' m = shape t m := by
  simp only [Threads.step] at heq
  split at heq
  · split at heq
    · rename_i thread ho
      obtain ⟨r, hr, rfl⟩ := Option.map_eq_some_iff.mp heq
      obtain ⟨hthread, hjoined⟩ := line_joined hr
      exact ⟨rfl, shape_put (by simp [ho, hthread]) hjoined⟩
    · rename_i ho
      obtain ⟨r, hr, rfl⟩ := Option.map_eq_some_iff.mp heq
      obtain ⟨-, hjoined⟩ := line_joined hr
      exact ⟨rfl, shape_put (by simp [ho]) hjoined⟩
  · cases heq

theorem call_shape (heq : Threads.step t (.call n) = some t') :
    t'.next = t.next ∧ (∀ m, shape t' m = shape t m) ∧ (t.stack n).pc = .notified ∧
      ∀ m, m ≠ n → t'.stack m = t.stack m := by
  simp only [Threads.step] at heq
  split at heq
  · rename_i hnotified
    split at heq
    · cases heq
      exact ⟨rfl, shape_put rfl rfl, hnotified.2, fun m hm => by simp [Threads.State.put, hm]⟩
    · cases heq
  · cases heq

theorem finish_shape (heq : Threads.step t (.finish n) = some t') :
    t'.next = t.next ∧ ∀ m, shape t' m = shape t m := by
  simp only [Threads.step] at heq
  split at heq
  · cases heq
    exact ⟨rfl, shape_put rfl rfl⟩
  · cases heq

theorem wait_shape (hshape : shape t n = (some (some n), false, false))
    (heq : Threads.step t (.wait n false) = some t') :
    t'.next = t.next ∧ shape t' n = unjoined n ∧ ∀ m, m ≠ n → shape t' m = shape t m := by
  obtain ⟨thread, ho, hthread, hreturned, hjoined⟩ := shape_some hshape
  simp only [Threads.step, ho, hreturned] at heq
  split at heq
  · cases heq
  · split at heq
    · cases heq
    · cases heq
      refine ⟨rfl, ?_, ?_⟩
      · simp [shape, Threads.State.put, unjoined, hthread, hjoined]
      · intro m hm
        simp [shape, Threads.State.put, hm]

theorem join_shape (hshape : shape t n = unjoined n) (heq : Threads.step t (.join n none) = some t') :
    t'.next = t.next ∧ shape t' n = joinedShape ∧ ∀ m, m ≠ n → shape t' m = shape t m := by
  obtain ⟨thread, ho, hthread, hreturned, -⟩ := shape_some hshape
  simp only [Threads.step, ho, hreturned, hthread, if_true, reduceCtorEq, if_false] at heq
  split at heq
  · cases heq
    refine ⟨rfl, ?_, ?_⟩
    · simp [shape, Threads.State.put, joinedShape, hreturned]
    · intro m hm
      simp [shape, Threads.State.put, hm]
  · cases heq

theorem finish_pc (heq : Threads.step t (.finish n) = some t') (hm : m ≠ n) : t'.stack m = t.stack m := by
  simp only [Threads.step] at heq
  split at heq
  · cases heq
    simp [Threads.State.put, hm]
  · cases heq

theorem join_pc (heq : Threads.step t (.join n none) = some t') (m : Nat) : (t'.stack m).pc = (t.stack m).pc := by
  simp only [Threads.step, Threads.State.put] at heq
  repeat' split at heq
  all_goals cases heq
  all_goals simp only [Function.update_apply]
  all_goals grind

theorem destroy_pc (heq : Threads.step t (.destroy n) = some t') (m : Nat) : (t'.stack m).pc = (t.stack m).pc := by
  simp only [Threads.step, Threads.State.put] at heq
  repeat' split at heq
  all_goals cases heq
  all_goals simp only [Function.update_apply]
  all_goals grind

theorem destroy_shape (hshape : shape t n = joinedShape) (heq : Threads.step t (.destroy n) = some t') :
    t'.next = t.next ∧ shape t' n = droppedShape ∧ ∀ m, m ≠ n → shape t' m = shape t m := by
  obtain ⟨thread, ho, hthread, hreturned, hjoined⟩ := shape_some hshape
  simp only [Threads.step, ho, hreturned, hthread] at heq
  split at heq
  · cases heq
    refine ⟨rfl, ?_, ?_⟩
    · simp [shape, Threads.State.put, droppedShape, hreturned, hjoined]
    · intro m hm
      simp [shape, Threads.State.put, hm]
  · cases heq

end

/-- The threads while no call has them in its hands: there are none yet, the scheduler has them, or they are gone.
`ids` are the ids that there were before. -/
inductive Rest (ids : List (Option Nat)) (s : State) : Prop where
  | fresh : s.threads.next = 0 → s.m_threads = [] → s.m_threadIds = ids → Rest ids s
  | kept : 0 < s.m_threadCount → s.threads.next = s.m_threadCount → s.m_threads = pointers 0 s.m_threadCount →
      s.m_threadIds = ids ++ pointers 0 s.m_threadCount → (∀ n < s.m_threadCount, shape s.threads n = unjoined n) →
      Rest ids s
  | done : s.threads.next = s.m_threadCount → s.m_threads = [] → s.m_threadIds = ids ++ pointers 0 s.m_threadCount →
      (∀ n < s.m_threadCount, shape s.threads n = droppedShape) → Rest ids s

/-- What the call at `pc` has in its hands. -/
def Held (ids : List (Option Nat)) (s : State) : Pc → Prop
  | .make i => i ≤ s.m_threadCount ∧ s.threads.next = i ∧
      s.m_threads = pointers 0 i ++ List.replicate (s.m_threadCount - i) none ∧ s.m_threadIds = ids ++ pointers 0 i ∧
      ∀ n < i, shape s.threads n = unjoined n
  | .wait i n => i < s.m_threadCount ∧ s.threads.next = i + 1 ∧ n = i ∧
      s.m_threads = pointers 0 i ++ List.replicate (s.m_threadCount - i) none ∧ s.m_threadIds = ids ++ pointers 0 i ∧
      (∀ n < i, shape s.threads n = unjoined n) ∧ shape s.threads i = (some (some i), false, false)
  | .record i => i < s.m_threadCount ∧ s.threads.next = i + 1 ∧
      s.m_threads = pointers 0 (i + 1) ++ List.replicate (s.m_threadCount - (i + 1)) none ∧
      s.m_threadIds = ids ++ pointers 0 i ∧ ∀ n < i + 1, shape s.threads n = unjoined n
  | .join thrs rest => ∃ j ≤ s.m_threadCount, s.threads.next = s.m_threadCount ∧ s.m_threads = [] ∧
      s.m_threadIds = ids ++ pointers 0 s.m_threadCount ∧ thrs = pointers 0 s.m_threadCount ∧
      rest = pointers j s.m_threadCount ∧ (∀ n < j, shape s.threads n = joinedShape) ∧
      ∀ n, j ≤ n → n < s.m_threadCount → shape s.threads n = unjoined n
  | .drop rest => ∃ j ≤ s.m_threadCount, s.threads.next = s.m_threadCount ∧ s.m_threads = [] ∧
      s.m_threadIds = ids ++ pointers 0 s.m_threadCount ∧ rest = pointers j s.m_threadCount ∧
      (∀ n < j, shape s.threads n = droppedShape) ∧
      ∀ n, j ≤ n → n < s.m_threadCount → shape s.threads n = joinedShape
  | _ => False

/-- One call at most has threads in its hands. -/
inductive Stage (ids : List (Option Nat)) (s : State) : Prop where
  | resting : (∀ c, (s.caller c).passive = true) → Rest ids s → Stage ids s
  | active (c : Caller) : (s.caller c).passive = false → (∀ d, d ≠ c → (s.caller d).passive = true) →
      Held ids s (s.caller c) → Stage ids s

section
variable {s s' : State} {ids : List (Option Nat)}

/-- The parts of the state that say whose the threads are. -/
structure Same (s s' : State) : Prop where
  next : s'.threads.next = s.threads.next
  shape : ∀ m, ThreadPool.shape s'.threads m = ThreadPool.shape s.threads m
  m_threads : s'.m_threads = s.m_threads
  m_threadIds : s'.m_threadIds = s.m_threadIds
  m_threadCount : s'.m_threadCount = s.m_threadCount

theorem Rest.frame (h : Rest ids s) (hsame : Same s s') : Rest ids s' := by
  obtain ⟨hnext, hshape, hthreads, hids, hcount⟩ := hsame
  cases h with
  | fresh hn hm hid => exact .fresh (by rw [hnext, hn]) (by rw [hthreads, hm]) (by rw [hids, hid])
  | kept hpos hn hm hid hwhole =>
    apply Rest.kept
    · rw [hcount]; exact hpos
    · rw [hnext, hcount, hn]
    · rw [hthreads, hcount, hm]
    · rw [hids, hcount, hid]
    · intro n hlt; rw [hshape, hwhole n (by rw [← hcount]; exact hlt)]
  | done hn hm hid hdropped =>
    apply Rest.done
    · rw [hnext, hcount, hn]
    · rw [hthreads, hm]
    · rw [hids, hcount, hid]
    · intro n hlt; rw [hshape, hdropped n (by rw [← hcount]; exact hlt)]

theorem Held.frame {pc : Pc} (h : Held ids s pc) (hsame : Same s s') : Held ids s' pc := by
  obtain ⟨hnext, hshape, hthreads, hids, hcount⟩ := hsame
  cases pc <;> simp only [Held, hnext, hshape, hthreads, hids, hcount] at h ⊢ <;> exact h

/-- What the active call has in its hands stays when only other calls move. -/
theorem Stage.frame (h : Stage ids s) (hsame : Same s s')
    (hcaller : ∀ c, s'.caller c = s.caller c ∨ (s.caller c).passive = true ∧ (s'.caller c).passive = true) :
    Stage ids s' := by
  have hpassive : ∀ c, (s.caller c).passive = true → (s'.caller c).passive = true := by
    intro c hc
    rcases hcaller c with heq | ⟨-, hc'⟩
    · rw [heq]
      exact hc
    · exact hc'
  cases h with
  | resting hall hrest => exact .resting (fun c => hpassive c (hall c)) (hrest.frame hsame)
  | active c hbusy hothers hheld =>
    have heq : s'.caller c = s.caller c := by
      rcases hcaller c with heq | ⟨hfalse, -⟩
      · exact heq
      · rw [hbusy] at hfalse
        cases hfalse
    exact .active c (by rw [heq, hbusy]) (fun d hd => hpassive d (hothers d hd)) (by rw [heq]; exact hheld.frame hsame)

theorem Stage.of_busy (h : Stage ids s) {c : Caller} (hc : (s.caller c).passive = false) :
    Held ids s (s.caller c) ∧ ∀ d, d ≠ c → (s.caller d).passive = true := by
  cases h with
  | resting hall hrest =>
    rw [hall c] at hc
    cases hc
  | active c' hbusy hothers hheld =>
    by_cases hsame : c = c'
    · subst hsame
      exact ⟨hheld, hothers⟩
    · rw [hothers c hsame] at hc
      cases hc

/-- Which calls there are beside the one that has the threads. -/
structure Calls (s : State) : Prop where
  mutex : ∀ c, (s.caller c).locked = true ↔ s.m_mutex = some (.caller c)
  worker : ∀ n, s.m_mutex = some (.worker n) → s.runs n
  starters : ∀ c d, (s.caller c).starting = true → (s.caller d).starting = true → c = d ∨ s.m_stopping = true
  later : ∀ c, (s.caller c).starting = true →
    0 < s.threads.next ∨ (∃ d, (s.caller d).passive = false) → s.m_stopping = true
  begun : s.started = false →
    s.threads.next = 0 ∧ ∀ c, (s.caller c).passive = true ∧ (s.caller c).starting = false
  marked : ∀ c, (s.caller c).stopped = true → s.m_stopping = true

structure Inv (ids : List (Option Nat)) (s : State) : Prop where
  threads : Threads.Inv s.threads
  stage : Stage ids s
  calls : Calls s
  failed : s.failed = false
  dangling : s.threads.dangling = false

theorem update_starting {c : Caller} {pc : Pc} (hstarting : pc.starting = true → (s.caller c).starting = true)
    (d : Caller)
    (hd : (Function.update s.caller c pc d).starting = true) : (s.caller d).starting = true := by
  by_cases hdc : d = c
  · subst hdc
    rw [Function.update_self] at hd
    exact hstarting hd
  · rwa [Function.update_of_ne hdc] at hd

/-- A call that is not the active one goes on, or another thread takes the lock or gives it back. -/
theorem Calls.move (h : Calls s) {c : Caller} {pc : Pc} {m_mutex : Option Holder} {m_stopping : Bool}
    (hnew : pc.passive = true)
    (hmutex : ∀ d, ((Function.update s.caller c pc d).locked = true ↔ m_mutex = some (.caller d)))
    (hworker : ∀ n, m_mutex = some (.worker n) → s.runs n)
    (hstarting : pc.starting = true → (s.caller c).starting = true)
    (hstopping : s.m_stopping = true → m_stopping = true)
    (hmarked : pc.stopped = true → m_stopping = true) :
    Calls { s.goes c pc with m_mutex := m_mutex, m_stopping := m_stopping } where
  mutex := hmutex
  worker := hworker
  starters a b ha hb := by
    have hback := update_starting hstarting
    exact (h.starters a b (hback a ha) (hback b hb)).imp id hstopping
  later a ha hlate := by
    apply hstopping
    apply h.later a (update_starting hstarting a ha)
    rcases hlate with hnext | ⟨d, hd⟩
    · exact .inl hnext
    · have hbusy : (Function.update s.caller c pc d).passive = false := hd
      by_cases hdc : d = c
      · subst hdc
        rw [Function.update_self, hnew] at hbusy
        cases hbusy
      · rw [Function.update_of_ne hdc] at hbusy
        exact .inr ⟨d, hbusy⟩
  begun hstarted := by
    obtain ⟨hnext, hall⟩ := h.begun hstarted
    refine ⟨hnext, ?_⟩
    intro d
    by_cases hdc : d = c
    · subst hdc
      simp only [State.goes, Function.update_self]
      refine ⟨hnew, ?_⟩
      by_contra hstart
      rw [Bool.not_eq_false] at hstart
      have hbefore := hstarting hstart
      rw [(hall d).2] at hbefore
      cases hbefore
    · simpa only [State.goes, Function.update_of_ne hdc] using hall d
  marked a ha := by
    have hstopped : (Function.update s.caller c pc a).stopped = true := ha
    by_cases hac : a = c
    · subst hac
      rw [Function.update_self] at hstopped
      exact hmarked hstopped
    · rw [Function.update_of_ne hac] at hstopped
      exact hstopping (h.marked a hstopped)

/-- The frame of the stage for a call that is not the active one. -/
theorem Stage.move (h : Stage ids s) {c : Caller} {pc : Pc} (m_mutex : Option Holder) (m_stopping : Bool)
    (hold : (s.caller c).passive = true) (hnew : pc.passive = true) :
    Stage ids { s.goes c pc with m_mutex := m_mutex, m_stopping := m_stopping } := by
  apply h.frame
  · exact ⟨rfl, fun _ => rfl, rfl, rfl, rfl⟩
  intro d
  by_cases hdc : d = c
  · subst hdc
    right
    simpa [State.goes] using ⟨hold, hnew⟩
  · left
    simp [State.goes, hdc]

theorem Inv.move (h : Inv ids s) (c : Caller) (pc : Pc) (m_mutex : Option Holder) (m_stopping : Bool)
    (hold : (s.caller c).passive = true) (hnew : pc.passive = true)
    (hmutex : ∀ d, ((Function.update s.caller c pc d).locked = true ↔ m_mutex = some (.caller d)))
    (hworker : ∀ n, m_mutex = some (.worker n) → s.runs n)
    (hstarting : pc.starting = true → (s.caller c).starting = true)
    (hstopping : s.m_stopping = true → m_stopping = true)
    (hmarked : pc.stopped = true → m_stopping = true) :
    Inv ids { s.goes c pc with m_mutex := m_mutex, m_stopping := m_stopping } :=
  ⟨h.threads, h.stage.move m_mutex m_stopping hold hnew,
    h.calls.move hnew hmutex hworker hstarting hstopping hmarked, h.failed, h.dangling⟩

/-- A call that neither had the lock nor takes it. -/
theorem Calls.unlocked (h : Calls s) {c : Caller} {pc : Pc} (hold : (s.caller c).locked = false)
    (hnew : pc.locked = false) (d : Caller) :
    ((Function.update s.caller c pc d).locked = true ↔ s.m_mutex = some (.caller d)) := by
  by_cases hdc : d = c
  · subst hdc
    rw [Function.update_self, hnew, ← h.mutex d, hold]
  · rw [Function.update_of_ne hdc]
    exact h.mutex d

/-- A call that takes the lock, which nobody has. -/
theorem Calls.taken (h : Calls s) {c : Caller} {pc : Pc} (hfree : s.m_mutex = none) (hnew : pc.locked = true)
    (d : Caller) :
    ((Function.update s.caller c pc d).locked = true ↔ some (Holder.caller c) = some (.caller d)) := by
  by_cases hdc : d = c
  · subst hdc
    simp [hnew]
  · have hno : (s.caller d).locked = false := by
      by_contra hlocked
      rw [Bool.not_eq_false, h.mutex d, hfree] at hlocked
      cases hlocked
    simp [hdc, hno, Ne.symm hdc]

/-- A call that has the lock gives it back. -/
theorem Calls.given (h : Calls s) {c : Caller} {pc : Pc} (hold : (s.caller c).locked = true) (hnew : pc.locked = false)
    (d : Caller) : ((Function.update s.caller c pc d).locked = true ↔ (none : Option Holder) = some (.caller d)) := by
  by_cases hdc : d = c
  · subst hdc
    simp [hnew]
  · have hno : (s.caller d).locked = false := by
      by_contra hlocked
      rw [Bool.not_eq_false, h.mutex d, (h.mutex c).mp hold] at hlocked
      exact hdc (Holder.caller.inj (Option.some.inj hlocked)).symm
    simp [hdc, hno]

/-- A call that has the lock keeps it. -/
theorem Calls.kept (h : Calls s) {c : Caller} {pc : Pc} (hold : (s.caller c).locked = true) (hnew : pc.locked = true)
    (d : Caller) : ((Function.update s.caller c pc d).locked = true ↔ s.m_mutex = some (.caller d)) := by
  by_cases hdc : d = c
  · subst hdc
    rw [Function.update_self, hnew, ← h.mutex d, hold]
  · rw [Function.update_of_ne hdc]
    exact h.mutex d

/-- The active call goes on, or a call becomes the active one. -/
theorem Calls.active (h : Calls s) (c : Caller) (pc : Pc) (hcaller : s'.caller = Function.update s.caller c pc)
    (hmutex : ∀ d, ((Function.update s.caller c pc d).locked = true ↔ s'.m_mutex = some (.caller d)))
    (hworker : ∀ n, s'.m_mutex = some (.worker n) → s'.runs n) (hstart : pc.starting = false)
    (hothers : ∀ d, d ≠ c → (s.caller d).starting = true → s.m_stopping = true)
    (hstopping : s'.m_stopping = s.m_stopping) (hmarked : pc.stopped = true → s.m_stopping = true)
    (hstarted : s'.started = true) : Calls s' := by
  have hstarters : ∀ d, (s'.caller d).starting = true → s'.m_stopping = true := by
    intro d hd
    rw [hcaller] at hd
    rw [hstopping]
    by_cases hdc : d = c
    · subst hdc
      rw [Function.update_self, hstart] at hd
      cases hd
    · rw [Function.update_of_ne hdc] at hd
      exact hothers d hdc hd
  constructor
  · rw [hcaller]
    exact hmutex
  · exact hworker
  · exact fun a _ ha _ => .inr (hstarters a ha)
  · exact fun a ha _ => hstarters a ha
  · intro hfalse
    rw [hstarted] at hfalse
    cases hfalse
  · intro a ha
    rw [hcaller] at ha
    rw [hstopping]
    by_cases hac : a = c
    · subst hac
      rw [Function.update_self] at ha
      exact hmarked ha
    · rw [Function.update_of_ne hac] at ha
      exact h.marked a ha

/-- A call that is active has been started, and no other `start` is on its way unless the scheduler stops. -/
theorem Calls.busy (h : Calls s) {c : Caller} (hc : (s.caller c).passive = false) :
    s.started = true ∧ ∀ d, (s.caller d).starting = true → s.m_stopping = true := by
  constructor
  · by_contra hstarted
    rw [Bool.not_eq_true] at hstarted
    have hpassive := ((h.begun hstarted).2 c).1
    rw [hc] at hpassive
    cases hpassive
  · exact fun d hd => h.later d hd (.inr ⟨c, hc⟩)

/-- A call that has the lock: no thread has it. -/
theorem Calls.mine (h : Calls s) {c : Caller} (hc : (s.caller c).locked = true) (n : Nat) :
    s.m_mutex ≠ some (.worker n) := by
  intro hn
  rw [(h.mutex c).mp hc] at hn
  cases hn

/-- The call in the loop of `start` goes on in it. -/
theorem Calls.loops (h : Calls s) {c : Caller} {pc : Pc} (hc : (s.caller c).locked = true)
    (hbusy : (s.caller c).passive = false) (hlocked : pc.locked = true) (hstarting : pc.starting = false)
    (t : Threads.State) (m_threads m_threadIds : List (Option Nat)) :
    Calls { s.goes c pc with threads := t, m_threads := m_threads, m_threadIds := m_threadIds } := by
  obtain ⟨hstarted, hlater⟩ := h.busy hbusy
  apply h.active c pc
  · rfl
  · exact h.kept hc hlocked
  · exact fun n hn => absurd hn (h.mine hc n)
  · exact hstarting
  · exact fun d _ hd => hlater d hd
  · rfl
  · intro hstopped
    cases pc <;> simp_all [Pc.locked, Pc.stopped]
  · exact hstarted

/-- The call that has swapped the threads out goes on; it starts and ends none of them. -/
theorem Calls.stops (h : Calls s) {c : Caller} {pc : Pc} (hc : (s.caller c).stopped = true)
    (hbusy : (s.caller c).passive = false) (hstopped : pc.stopped = true) {t : Threads.State}
    (hnext : t.next = s.threads.next) (hpc : ∀ m, (t.stack m).pc = (s.threads.stack m).pc) :
    Calls { s.goes c pc with threads := t } := by
  obtain ⟨hstarted, hlater⟩ := h.busy hbusy
  have hunlocked : ∀ {pc : Pc}, pc.stopped = true → pc.locked = false ∧ pc.starting = false := by
    intro pc hpc
    cases pc <;> simp_all [Pc.stopped, Pc.locked, Pc.starting]
  apply h.active c pc
  · rfl
  · exact h.unlocked (hunlocked hc).1 (hunlocked hstopped).1
  · -- joining and destroying move no thread, so who has the lock is still in `run`
    intro n hholder
    obtain ⟨hn, hrunning⟩ := h.worker n hholder
    exact ⟨Nat.lt_of_lt_of_eq hn hnext.symm, (hpc n).trans hrunning⟩
  · exact (hunlocked hstopped).2
  · exact fun d _ hd => hlater d hd
  · rfl
  · exact fun _ => h.marked c hc
  · exact hstarted

theorem Calls.begins (h : Calls s) {c : Caller} (hc : (s.caller c).starting = true) : s.started = true := by
  by_contra hstarted
  rw [Bool.not_eq_true] at hstarted
  have hfalse := ((h.begun hstarted).2 c).2
  rw [hc] at hfalse
  cases hfalse

/-! ## The steps of `start` -/

theorem Inv.busy (h : Inv ids s) {c : Caller} {pc : Pc} (hc : s.caller c = pc) (hpc : pc.passive = false) :
    Held ids s pc ∧ (∀ d, d ≠ c → (s.caller d).passive = true) ∧ s.started = true ∧
      ∀ d, (s.caller d).starting = true → s.m_stopping = true := by
  have hbusy : (s.caller c).passive = false := by rw [hc, hpc]
  obtain ⟨hheld, hothers⟩ := h.stage.of_busy hbusy
  rw [hc] at hheld
  exact ⟨hheld, hothers, h.calls.busy hbusy⟩

/-- The others are passive also when the call has moved. -/
theorem passive_others {c : Caller} (hothers : ∀ d, d ≠ c → (s.caller d).passive = true) (pc : Pc) :
    ∀ d, d ≠ c → ((Function.update s.caller c pc) d).passive = true := by
  intro d hd
  rw [Function.update_of_ne hd]
  exact hothers d hd

theorem Inv.check (h : Inv ids s) {c : Caller} (hc : s.caller c = .check) {created interrupted quiet : Bool}
    (heq : s.go c created interrupted quiet = some s') : Inv ids s' := by
  have hold : (s.caller c).passive = true := by rw [hc]; rfl
  have hlocked : (s.caller c).locked = true := by rw [hc]; rfl
  have hstarting : (s.caller c).starting = true := by rw [hc]; rfl
  rw [State.go, hc] at heq
  dsimp only at heq
  split at heq
  · cases heq
    exact h.move c .idle none s.m_stopping hold rfl (h.calls.given hlocked rfl) (fun _ hn => by cases hn)
      (fun hfalse => by cases hfalse) id
      (fun hfalse => by cases hfalse)
  · rename_i hrunning
    -- nobody has threads in its hands while one may start that the scheduler has not been stopped for
    have hrest : Rest ids s ∧ ∀ d, (s.caller d).passive = true := by
      cases h.stage with
      | resting hall hrest => exact ⟨hrest, hall⟩
      | active d hbusy _ _ => exact absurd (h.calls.later c hstarting (.inr ⟨d, hbusy⟩)) hrunning
    have hnone : s.threads.next = 0 := by
      by_contra hsome
      exact hrunning (h.calls.later c hstarting (.inl (Nat.pos_of_ne_zero hsome)))
    have hempty : s.m_threads = [] ∧ s.m_threadIds = ids := by
      cases hrest.1 with
      | fresh hn hm hid => exact ⟨hm, hid⟩
      | kept hpos hn hm hid hwhole => omega
      | done hn hm hid hdropped =>
        rw [← hn, hnone] at hid
        exact ⟨hm, by simpa [pointers] using hid⟩
    split at heq
    · rename_i hsome
      exact absurd hempty.1 hsome
    · cases heq
      refine ⟨h.threads, ?_, ?_, h.failed, h.dangling⟩
      · apply Stage.active c
        · simp [State.goes, Pc.passive]
        · exact passive_others (fun d _ => hrest.2 d) _
        · simp only [State.goes, Function.update_self, Held]
          exact ⟨Nat.zero_le _, hnone, by simp [pointers], by simp [pointers, hempty.2],
            fun n hn => absurd hn (Nat.not_lt_zero n)⟩
      · apply h.calls.active c (.make 0)
        · rfl
        · exact h.calls.kept hlocked rfl
        · intro n hn
          rw [State.goes, (h.calls.mutex c).mp hlocked] at hn
          cases hn
        · rfl
        · intro d hd hstart
          rcases h.calls.starters c d hstarting hstart with hsame | hstopping
          · exact absurd hsame.symm hd
          · exact hstopping
        · rfl
        · exact fun hfalse => by cases hfalse
        · exact h.calls.begins hstarting

theorem pointers_length (i : Nat) : (pointers 0 i).length = i := by simp [pointers]

theorem pointers_succ (i : Nat) : pointers 0 (i + 1) = pointers 0 i ++ [some i] := by
  simp [pointers, List.range'_1_concat]

/-- The thread that is made takes the place of the first null pointer. -/
theorem pointers_set {i k : Nat} (h : i < k) :
    (pointers 0 i ++ List.replicate (k - i) none).set i (some i) =
      pointers 0 (i + 1) ++ List.replicate (k - (i + 1)) none := by
  have hlength := pointers_length i
  obtain ⟨m, hm⟩ : ∃ m, k - i = m + 1 := ⟨k - i - 1, by omega⟩
  have hrest : k - (i + 1) = m := by omega
  rw [hm, hrest, pointers_succ, List.set_append_right _ _ (by omega), hlength, Nat.sub_self, List.replicate_succ,
    List.set_cons_zero, List.append_assoc]
  rfl

theorem pointers_last (i : Nat) (rest : List (Option Nat)) : (pointers 0 (i + 1) ++ rest)[i]? = some (some i) := by
  have hlength := pointers_length i
  rw [pointers_succ, List.append_assoc, List.getElem?_append_right (by omega), hlength, Nat.sub_self]
  rfl

theorem Inv.make (h : Inv ids s) {c : Caller} {i : Nat} (hc : s.caller c = .make i) {interrupted quiet : Bool}
    (heq : s.go c true interrupted quiet = some s') : Inv ids s' := by
  obtain ⟨⟨hi, hn, hm, hid, hwhole⟩, hothers, hstarted, hlater⟩ := h.busy hc rfl
  have hlocked : (s.caller c).locked = true := by rw [hc]; rfl
  rw [State.go, hc] at heq
  dsimp only at heq
  split at heq
  · rename_i hlt
    rw [if_pos rfl] at heq
    obtain ⟨t, ht, rfl⟩ := Option.map_eq_some_iff.mp heq
    obtain ⟨hnext, hlast, hsame⟩ := construct_shape h.threads ht
    refine ⟨h.threads.step ht, ?_, ?_, h.failed, ?_⟩
    · apply Stage.active c
      · simp [State.goes, Pc.passive]
      · exact passive_others hothers _
      · simp only [State.goes, Function.update_self, Held]
        refine ⟨hlt, by rw [hnext, hn], hn, hm, hid, ?_, ?_⟩
        · intro n hni
          rw [hsame n (by omega), hwhole n hni]
        · rw [← hn, hlast]
    · exact h.calls.loops hlocked (by rw [hc]; rfl) rfl rfl t s.m_threads s.m_threadIds
    · rw [← h.dangling]
      exact Threads.step_keeps (by simp) (by simp) ht
  · rename_i hge
    cases heq
    -- the loop has ended, and the threads are the scheduler's
    have hall : i = s.m_threadCount := by omega
    have hunlocked := h.calls.given hlocked (show Pc.idle.locked = false from rfl)
    have hrest : Rest ids s := by
      subst hall
      rcases Nat.eq_zero_or_pos s.m_threadCount with hzero | hpos
      · apply Rest.fresh
        · rw [hn, hzero]
        · simpa [hzero, pointers] using hm
        · simpa [hzero, pointers] using hid
      · exact .kept hpos hn (by simpa using hm) hid hwhole
    refine ⟨h.threads, ?_, ?_, h.failed, h.dangling⟩
    · apply Stage.resting
      · intro d
        by_cases hd : d = c
        · simp [State.unlock, State.goes, hd, Pc.passive]
        · exact passive_others hothers .idle d hd
      · exact hrest.frame ⟨rfl, fun _ => rfl, rfl, rfl, rfl⟩
    · apply h.calls.active c .idle
      · rfl
      · exact hunlocked
      · exact fun n hn => by cases hn
      · rfl
      · exact fun d _ hd => hlater d hd
      · rfl
      · exact fun hfalse => by cases hfalse
      · exact hstarted

theorem Inv.wait (h : Inv ids s) {c : Caller} {i n : Nat} (hc : s.caller c = .wait i n) {created quiet : Bool}
    (heq : s.go c created false quiet = some s') : Inv ids s' := by
  obtain ⟨⟨hi, hn, rfl, hm, hid, hwhole, hlast⟩, hothers, -⟩ := h.busy hc rfl
  have hlocked : (s.caller c).locked = true := by rw [hc]; rfl
  rw [State.go, hc] at heq
  simp only [Bool.false_eq_true, if_false] at heq
  obtain ⟨t, ht, rfl⟩ := Option.map_eq_some_iff.mp heq
  obtain ⟨hnext, hnow, hsame⟩ := wait_shape hlast ht
  refine ⟨h.threads.step ht, ?_, ?_, h.failed, ?_⟩
  · apply Stage.active c
    · simp [State.goes, Pc.passive]
    · exact passive_others hothers _
    · simp only [State.goes, Function.update_self, Held, hm, pointers_set hi]
      refine ⟨hi, by rw [hnext, hn], trivial, hid, ?_⟩
      intro m hlt
      by_cases hmn : m = n
      · rw [hmn, hnow]
      · rw [hsame m hmn, hwhole m (by omega)]
  · exact h.calls.loops hlocked (by rw [hc]; rfl) rfl rfl t _ s.m_threadIds
  · rw [← h.dangling]
    exact Threads.step_keeps (by simp) (by simp) ht

/-- `getId` gives the number of the thread, which has notified. -/
theorem Inv.record (h : Inv ids s) {c : Caller} {i : Nat} (hc : s.caller c = .record i)
    {created interrupted quiet : Bool} (heq : s.go c created interrupted quiet = some s') : Inv ids s' := by
  obtain ⟨⟨hi, hn, hm, hid, hwhole⟩, hothers, -⟩ := h.busy hc rfl
  have hlocked : (s.caller c).locked = true := by rw [hc]; rfl
  rw [State.go, hc] at heq
  have hobject : (s.m_threads[i]?.join.bind s.threads.object).bind Threads.Thread.m_id = some i := by
    obtain ⟨thread, ho, -, hreturned, -⟩ := shape_some (hwhole i (Nat.lt_succ_self i))
    have hid := (h.threads.sound.constructed i thread ho hreturned).1
    rw [hm, pointers_last]
    simp [ho, hid]
  dsimp only at heq
  rw [hobject] at heq
  cases heq
  refine ⟨h.threads, ?_, ?_, h.failed, h.dangling⟩
  · apply Stage.active c
    · simp [State.goes, Pc.passive]
    · exact passive_others hothers _
    · simp only [State.goes, Function.update_self, Held]
      exact ⟨hi, hn, hm, by rw [hid, pointers_succ, List.append_assoc], hwhole⟩
  · exact h.calls.loops hlocked (by rw [hc]; rfl) rfl rfl s.threads s.m_threads _

/-! ## The steps of `stop` -/

theorem pointers_cons {j n : Nat} {x : Option Nat} {rest : List (Option Nat)} (h : x :: rest = pointers j n) :
    j < n ∧ x = some j ∧ rest = pointers (j + 1) n := by
  have hlt : j < n := by
    by_contra hle
    rw [pointers, Nat.sub_eq_zero_of_le (Nat.le_of_not_lt hle)] at h
    cases h
  obtain ⟨k, hk⟩ : ∃ k, n - j = k + 1 := ⟨n - j - 1, by omega⟩
  have hrest : n - (j + 1) = k := by omega
  rw [pointers, hk, List.range'_succ, List.map_cons] at h
  cases h
  exact ⟨hlt, rfl, by rw [pointers, hrest]⟩

theorem pointers_nil {j n : Nat} (h : [] = pointers j n) : n ≤ j := by
  by_contra hlt
  obtain ⟨k, hk⟩ : ∃ k, n - j = k + 1 := ⟨n - j - 1, by omega⟩
  rw [pointers, hk, List.range'_succ] at h
  cases h

theorem pointers_self (n : Nat) : pointers n n = [] := by simp [pointers]

theorem pointers_ne_nil {n : Nat} (h : 0 < n) : pointers 0 n ≠ [] := by
  intro hnil
  have hle := pointers_nil hnil.symm
  omega

/-- A call that has no threads goes on, without the lock. -/
theorem Inv.passes (h : Inv ids s) (c : Caller) (pc : Pc) (hold : (s.caller c).passive = true)
    (hnew : pc.passive = true) (hunlocked : (s.caller c).locked = false) (hfree : pc.locked = false)
    (hstarting : pc.starting = false) (hmarked : pc.stopped = true → s.m_stopping = true) : Inv ids (s.goes c pc) := by
  apply h.move c pc s.m_mutex s.m_stopping hold hnew (h.calls.unlocked hunlocked hfree) h.calls.worker
  · intro hstarts
    rw [hstarting] at hstarts
    cases hstarts
  · exact id
  · exact hmarked

/-- While the lock is free and the scheduler has threads, they are in no call's hands. -/
theorem Inv.resting (h : Inv ids s) (hfree : s.m_mutex = none) (hsome : s.m_threads ≠ []) :
    Rest ids s ∧ ∀ d, (s.caller d).passive = true := by
  cases h.stage with
  | resting hall hrest => exact ⟨hrest, hall⟩
  | active d hbusy hothers hheld =>
    have hunlocked : (s.caller d).locked = false := by
      by_contra hlocked
      rw [Bool.not_eq_false, h.calls.mutex d, hfree] at hlocked
      cases hlocked
    cases hc : s.caller d with
    | join thrs rest =>
      rw [hc] at hheld
      obtain ⟨j, -, -, hm, -⟩ := hheld
      exact absurd hm hsome
    | drop rest =>
      rw [hc] at hheld
      obtain ⟨j, -, -, hm, -⟩ := hheld
      exact absurd hm hsome
    | _ => simp_all [Pc.passive, Pc.locked]

/-- Whoever swaps the threads out has them, or there are none. -/
theorem Inv.swap (h : Inv ids s) {c : Caller} (hc : s.caller c = .swap) {created interrupted quiet : Bool}
    (heq : s.go c created interrupted quiet = some s') : Inv ids s' := by
  have hold : (s.caller c).passive = true := by rw [hc]; rfl
  have hunlocked : (s.caller c).locked = false := by rw [hc]; rfl
  have hmarked := h.calls.marked c (by rw [hc]; rfl)
  rw [State.go, hc] at heq
  dsimp only at heq
  split at heq
  · rename_i hfree
    cases heq
    by_cases hempty : s.m_threads = []
    · -- another `stop` has been here before, or there never was a thread
      have hself : { s.goes c (.join [] []) with m_threads := [] } = s.goes c (.join [] []) := by
        cases s
        simp only at hempty
        subst hempty
        rfl
      rw [hempty, hself]
      exact h.passes c (.join [] []) hold rfl hunlocked rfl rfl (fun _ => hmarked)
    · obtain ⟨hrest, hall⟩ := h.resting hfree hempty
      cases hrest with
      | fresh hn hm hid => exact absurd hm hempty
      | done hn hm hid hdropped => exact absurd hm hempty
      | kept hpos hn hm hid hwhole =>
        have hstarted : s.started = true := by
          by_contra hnot
          rw [Bool.not_eq_true] at hnot
          have hzero := (h.calls.begun hnot).1
          omega
        refine ⟨h.threads, ?_, ?_, h.failed, h.dangling⟩
        · apply Stage.active c
          · simp [State.goes, Pc.passive, hempty]
          · exact passive_others (fun d _ => hall d) _
          · simp only [State.goes, Function.update_self, Held]
            exact ⟨0, Nat.zero_le _, hn, trivial, hid, hm, hm, fun n hn => absurd hn (Nat.not_lt_zero n),
              fun n _ hlt => hwhole n hlt⟩
        · apply h.calls.active c (.join s.m_threads s.m_threads)
          · rfl
          · exact h.calls.unlocked hunlocked rfl
          · exact h.calls.worker
          · rfl
          · exact fun d _ hd => h.calls.later d hd (.inl (by omega))
          · rfl
          · exact fun _ => hmarked
          · exact hstarted
  · cases heq

theorem Inv.join (h : Inv ids s) {c : Caller} {thrs rest : List (Option Nat)} (hc : s.caller c = .join thrs rest)
    (hthread : c.thread = none) {created interrupted quiet : Bool} (heq : s.go c created interrupted quiet = some s') :
    Inv ids s' := by
  have hunlocked : (s.caller c).locked = false := by rw [hc]; rfl
  have hmarked := h.calls.marked c (by rw [hc]; rfl)
  rw [State.go.eq_def, hc] at heq
  cases hbusy : (Pc.join thrs rest).passive with
  | true =>
    -- nothing was swapped out
    obtain ⟨rfl, rfl⟩ : thrs = [] ∧ rest = [] := by simpa [Pc.passive] using hbusy
    dsimp only at heq
    cases heq
    exact h.passes c (.drop []) (by rw [hc]; rfl) rfl hunlocked rfl rfl (fun _ => hmarked)
  | false =>
    obtain ⟨⟨j, hj, hn, hm, hid, hthrs, hrest, hbelow, habove⟩, hothers, -⟩ := h.busy hc hbusy
    cases rest with
    | nil =>
      have hall : j = s.m_threadCount := by
        have hle := pointers_nil hrest
        omega
      have hne : thrs ≠ [] := by simpa [Pc.passive] using hbusy
      dsimp only at heq
      cases heq
      refine ⟨h.threads, ?_, ?_, h.failed, h.dangling⟩
      · apply Stage.active c
        · simp [State.goes, Pc.passive, hne]
        · exact passive_others hothers _
        · simp only [State.goes, Function.update_self, Held]
          exact ⟨0, Nat.zero_le _, hn, hm, hid, hthrs, fun n hlt => absurd hlt (Nat.not_lt_zero n),
            fun n _ hlt => hbelow n (by omega)⟩
      · exact h.calls.stops (by rw [hc]; rfl) (by rw [hc, hbusy]) rfl rfl (fun _ => rfl)
    | cons x rest =>
      obtain ⟨hlt, rfl, htail⟩ := pointers_cons hrest
      dsimp only at heq
      rw [hthread, if_neg (by simp)] at heq
      obtain ⟨t, ht, rfl⟩ := Option.map_eq_some_iff.mp heq
      obtain ⟨hnext, hnow, hsame⟩ := join_shape (habove j (Nat.le_refl j) hlt) ht
      have hne : thrs ≠ [] := by
        rw [hthrs]
        exact pointers_ne_nil (by omega)
      refine ⟨h.threads.step ht, ?_, ?_, h.failed, ?_⟩
      · apply Stage.active c
        · simp [State.goes, Pc.passive, hne]
        · exact passive_others hothers _
        · simp only [State.goes, Function.update_self, Held]
          refine ⟨j + 1, hlt, by rw [hnext, hn], hm, hid, hthrs, htail, ?_, ?_⟩
          · intro n hle
            by_cases hnj : n = j
            · rw [hnj, hnow]
            · rw [hsame n hnj, hbelow n (by omega)]
          · intro n hle hn
            rw [hsame n (by omega), habove n (by omega) hn]
      · exact h.calls.stops (by rw [hc]; rfl) (by rw [hc, hbusy]) rfl hnext (join_pc ht)
      · rw [← h.dangling]
        exact Threads.step_keeps (by simp) (by simp) ht

theorem Inv.drop (h : Inv ids s) {c : Caller} {rest : List (Option Nat)} (hc : s.caller c = .drop rest)
    {created interrupted quiet : Bool} (heq : s.go c created interrupted quiet = some s') :
    Inv ids s' := by
  have hunlocked : (s.caller c).locked = false := by rw [hc]; rfl
  rw [State.go.eq_def, hc] at heq
  cases rest with
  | nil =>
    dsimp only at heq
    cases heq
    exact h.passes c .idle (by rw [hc]; rfl) rfl hunlocked rfl rfl (fun hfalse => by cases hfalse)
  | cons x rest =>
    obtain ⟨⟨j, hj, hn, hm, hid, hrest, hbelow, habove⟩, hothers, -⟩ := h.busy hc rfl
    obtain ⟨hlt, rfl, htail⟩ := pointers_cons hrest
    obtain ⟨t, ht, rfl⟩ := Option.map_eq_some_iff.mp heq
    obtain ⟨hnext, hnow, hsame⟩ := destroy_shape (habove j (Nat.le_refl j) hlt) ht
    have hdropped : ∀ n < j + 1, shape t n = droppedShape := by
      intro n hle
      by_cases hnj : n = j
      · rw [hnj, hnow]
      · rw [hsame n hnj, hbelow n (by omega)]
    refine ⟨h.threads.step ht, ?_, ?_, h.failed, ?_⟩
    · -- with the last object the call has nothing left in its hands
      by_cases hlast : j + 1 = s.m_threadCount
      · apply Stage.resting
        · intro d
          by_cases hd : d = c
          · rw [htail, hlast, pointers_self]
            simp [State.goes, hd, Pc.passive]
          · exact passive_others hothers (.drop rest) d hd
        · refine .done (hnext.trans hn) hm hid ?_
          intro n hn
          exact hdropped n (by rw [hlast]; exact hn)
      · have hne : rest ≠ [] := by
          intro hnil
          rw [hnil] at htail
          have hle := pointers_nil htail
          omega
        apply Stage.active c
        · simp [State.goes, Pc.passive, hne]
        · exact passive_others hothers _
        · simp only [State.goes, Function.update_self, Held]
          refine ⟨j + 1, hlt, by rw [hnext, hn], hm, hid, htail, hdropped, ?_⟩
          intro n hle hn
          rw [hsame n (by omega), habove n (by omega) hn]
    · exact h.calls.stops (by rw [hc]; rfl) (by rw [hc]; rfl) rfl hnext (destroy_pc ht)
    · rw [← h.dangling]
      exact Threads.step_keeps (by simp) (by simp) ht

/-! ## `m_rootFiber` -/

/-- Who calls `stop`, and what `m_rootFiber` does meanwhile. -/
structure Roots (s : State) : Prop where
  outside : ∀ c, s.caller c ≠ .idle → c.isOutside = true
  useCaller : s.m_useCaller = s.m_rootThread.isSome
  rootFiber : s.m_rootFiber.isSome = s.m_rootThread.isSome
  ending : ∀ c, (s.caller c).ending = true → s.inside c = s.m_useCaller
  fits : ∀ c, (s.caller c).fits s.m_rootFiber
  running : s.m_rootFiber = some .RUNNING → ∃ c, s.caller c = .resumed
  ended : s.m_rootFiber = some .TERM → s.m_stopping = true
  ready : s.m_rootFiber = some .READY → s.m_stopping = true → ∃ c, s.caller c = .root

theorem fits_of_not_ending {pc : Pc} (h : pc.ending = false) (f : Option Fiber.State) : pc.fits f := by
  cases pc with
  | mark => cases h
  | root => cases h
  | resumed => cases h
  | _ => trivial

/-- A call is in no thread of the scheduler. -/
theorem Roots.thread (h : Roots s) {c : Caller} (hc : s.caller c ≠ .idle) : c.thread = none := by
  cases c with
  | outside id => rfl
  | worker n => cases h.outside _ hc
  | root => rfl

/-- Who comes to the root fiber finds it ready. -/
theorem Roots.at_root (h : Roots s) {c : Caller} (hc : s.caller c = .root) : s.m_rootFiber = some .READY := by
  have hfits := h.fits c
  rwa [hc] at hfits

theorem Roots.outside_of (h : Roots s) {c : Caller} (hc : (s.caller c).ending = true) : c.isOutside = true := by
  apply h.outside c
  intro hidle
  rw [hidle] at hc
  cases hc

/-- With a root fiber one call of `stop` is on its way at most. -/
theorem Roots.only (h : Roots s) {c d : Caller} {f : Fiber.State} (hf : s.m_rootFiber = some f)
    (hc : (s.caller c).ending = true) (hd : (s.caller d).ending = true) : d = c := by
  have huse : s.m_useCaller = true := by
    rw [h.useCaller, ← h.rootFiber, hf]
    rfl
  have hinside : ∀ e, (s.caller e).ending = true → ∃ id, e = .outside id ∧ s.m_rootThread = some id := by
    intro e he
    have hhere := h.ending e he
    cases e with
    | outside id => exact ⟨id, rfl, by simpa [State.inside, huse] using hhere⟩
    | worker n => cases h.outside_of he
    | root => cases h.outside_of he
  obtain ⟨i, rfl, hi⟩ := hinside c hc
  obtain ⟨j, rfl, hj⟩ := hinside d hd
  rw [hi] at hj
  cases hj
  rfl

/-- A step that the calls and the root fiber have no part in. -/
theorem Roots.same (h : Roots s) (hcaller : s'.caller = s.caller) (huse : s'.m_useCaller = s.m_useCaller)
    (hthread : s'.m_rootThread = s.m_rootThread) (hfiber : s'.m_rootFiber = s.m_rootFiber)
    (hstopping : s'.m_stopping = s.m_stopping) : Roots s' := by
  have hinside : s'.inside = s.inside := by
    funext c
    cases c <;> simp [State.inside, hthread]
  constructor
  · simpa only [hcaller] using h.outside
  · simpa only [huse, hthread] using h.useCaller
  · simpa only [hfiber, hthread] using h.rootFiber
  · simpa only [hcaller, huse, hinside] using h.ending
  · simpa only [hcaller, hfiber] using h.fits
  · simpa only [hcaller, hfiber] using h.running
  · simpa only [hfiber, hstopping] using h.ended
  · simpa only [hcaller, hfiber, hstopping] using h.ready

/-- A call goes on, to a place where it knows what there is to know. -/
theorem Roots.goes (h : Roots s) {c : Caller} {pc : Pc} (hc : c.isOutside = true)
    (hending : pc.ending = true → s.inside c = s.m_useCaller) (hfits : pc.fits s.m_rootFiber)
    (hrunning : s.m_rootFiber = some .RUNNING → s.caller c ≠ .resumed)
    (hready : s.m_rootFiber = some .READY → s.caller c ≠ .root) : Roots (s.goes c pc) := by
  have hstays : ∀ d, d ≠ c → (s.goes c pc).caller d = s.caller d := fun d hd => Function.update_of_ne hd _ _
  have hself : (s.goes c pc).caller c = pc := Function.update_self ..
  have hother : ∀ d, s.caller d ≠ s.caller c → (s.goes c pc).caller d = s.caller d := by
    intro d hd
    exact hstays d fun hdc => hd (by rw [hdc])
  constructor
  · intro d hd
    by_cases hdc : d = c
    · rw [hdc, hc]
    · rw [hstays d hdc] at hd
      exact h.outside d hd
  · exact h.useCaller
  · exact h.rootFiber
  · intro d hd
    by_cases hdc : d = c
    · rw [hdc, hself] at hd
      rw [hdc]
      exact hending hd
    · rw [hstays d hdc] at hd
      exact h.ending d hd
  · intro d
    by_cases hdc : d = c
    · rw [hdc, hself]
      exact hfits
    · rw [hstays d hdc]
      exact h.fits d
  · intro hf
    obtain ⟨d, hd⟩ := h.running hf
    exact ⟨d, (hother d (fun heq => hrunning hf (heq ▸ hd))).trans hd⟩
  · exact h.ended
  · intro hf hstopping
    obtain ⟨d, hd⟩ := h.ready hf hstopping
    exact ⟨d, (hother d (fun heq => hready hf (heq ▸ hd))).trans hd⟩

/-- A call of `stop` that goes on with the root fiber in another state. -/
theorem Roots.turn (h : Roots s) {c : Caller} {pc : Pc} {f f' : Fiber.State} (hc : (s.caller c).ending = true)
    (hf : s.m_rootFiber = some f) (hfits : pc.fits (some f')) (hready : f' = .READY → pc = .root)
    (hrunning : f' = .RUNNING → pc = .resumed) :
    Roots { s.goes c pc with m_rootFiber := some f', m_stopping := true } := by
  have hself : Function.update s.caller c pc c = pc := Function.update_self ..
  have hhere := h.ending c hc
  constructor
  · intro d hd
    by_cases hdc : d = c
    · rw [hdc]
      exact h.outside_of hc
    · exact h.outside d (by simpa [State.goes, hdc] using hd)
  · exact h.useCaller
  · have hsome := h.rootFiber
    rw [hf] at hsome
    exact hsome
  · intro d hd
    by_cases hdc : d = c
    · rw [hdc]
      exact hhere
    · exact h.ending d (by simpa [State.goes, hdc] using hd)
  · intro d
    by_cases hdc : d = c
    · simpa [State.goes, hdc] using hfits
    · -- the other call is none of `stop`
      have hother : (s.caller d).ending = false := by
        by_contra hd
        exact hdc (h.only hf hc (by simpa using hd))
      simpa [State.goes, hdc] using fits_of_not_ending hother (some f')
  · intro hnow
    exact ⟨c, hself.trans (hrunning (Option.some.inj hnow))⟩
  · exact fun _ => rfl
  · intro hnow _
    exact ⟨c, hself.trans (hready (Option.some.inj hnow))⟩

/-- A call that is not in `stop`, or that has not come to the root fiber or has left it, goes on so. -/
theorem Roots.plain (h : Roots s) {c : Caller} {pc : Pc} (hc : s.caller c ≠ .idle)
    (hending : pc.ending = true → (s.caller c).ending = true) (hfits : pc.fits s.m_rootFiber)
    (hroot : s.caller c ≠ .root) (hresumed : s.caller c ≠ .resumed) : Roots (s.goes c pc) :=
  h.goes (h.outside c hc) (fun hnew => h.ending c (hending hnew)) hfits (fun _ => hresumed) (fun _ => hroot)

/-- The other steps of a call leave `m_rootFiber` to itself. -/
theorem go_rest {c : Caller} {created interrupted quiet : Bool} (htest : s.caller c ≠ .test)
    (hmark : s.caller c ≠ .mark) (hroot : s.caller c ≠ .root) (hresumed : s.caller c ≠ .resumed)
    (heq : s.go c created interrupted quiet = some s') :
    s'.m_useCaller = s.m_useCaller ∧ s'.m_rootThread = s.m_rootThread ∧ s'.m_rootFiber = s.m_rootFiber ∧
      s'.m_stopping = s.m_stopping ∧ (s'.caller = s.caller ∨ ∃ pc, s'.caller = Function.update s.caller c pc ∧
        (pc.ending = true → (s.caller c).ending = true) ∧ ∀ f, pc.fits f) := by
  rw [State.go.eq_def] at heq
  cases hpc : s.caller c with
  | test => exact absurd hpc htest
  | mark => exact absurd hpc hmark
  | root => exact absurd hpc hroot
  | resumed => exact absurd hpc hresumed
  | idle =>
    rw [hpc] at heq
    cases heq
  | lock =>
    rw [hpc] at heq
    dsimp only at heq
    split at heq
    · cases heq
      exact ⟨rfl, rfl, rfl, rfl, .inr ⟨.check, rfl, by simp [Pc.ending], fun _ => trivial⟩⟩
    · cases heq
  | check =>
    rw [hpc] at heq
    dsimp only at heq
    split at heq
    · cases heq
      exact ⟨rfl, rfl, rfl, rfl, .inr ⟨.idle, rfl, by simp [Pc.ending], fun _ => trivial⟩⟩
    · split at heq
      · cases heq
        exact ⟨rfl, rfl, rfl, rfl, .inl rfl⟩
      · cases heq
        exact ⟨rfl, rfl, rfl, rfl, .inr ⟨.make 0, rfl, by simp [Pc.ending], fun _ => trivial⟩⟩
  | make i =>
    rw [hpc] at heq
    dsimp only at heq
    repeat' split at heq
    · obtain ⟨t, -, rfl⟩ := Option.map_eq_some_iff.mp heq
      exact ⟨rfl, rfl, rfl, rfl, .inr ⟨.wait i _, rfl, by simp [Pc.ending], fun _ => trivial⟩⟩
    all_goals
      cases heq
      exact ⟨rfl, rfl, rfl, rfl, .inr ⟨.idle, rfl, by simp [Pc.ending], fun _ => trivial⟩⟩
  | wait i n =>
    rw [hpc] at heq
    obtain ⟨t, -, rfl⟩ := Option.map_eq_some_iff.mp heq
    split
    · exact ⟨rfl, rfl, rfl, rfl, .inr ⟨.idle, rfl, by simp [Pc.ending], fun _ => trivial⟩⟩
    · exact ⟨rfl, rfl, rfl, rfl, .inr ⟨.record i, rfl, by simp [Pc.ending], fun _ => trivial⟩⟩
  | record i =>
    rw [hpc] at heq
    cases heq
    exact ⟨rfl, rfl, rfl, rfl, .inr ⟨.make (i + 1), rfl, by simp [Pc.ending], fun _ => trivial⟩⟩
  | swap =>
    -- `m_threads` changes hands, not the fiber
    rw [hpc] at heq
    dsimp only at heq
    split at heq
    · cases heq
      exact ⟨rfl, rfl, rfl, rfl, .inr ⟨.join _ _, rfl, by simp [Pc.ending], fun _ => trivial⟩⟩
    · cases heq
  | join thrs rest =>
    rw [hpc] at heq
    rcases rest with _ | ⟨_ | n, rest⟩
    · cases heq
      exact ⟨rfl, rfl, rfl, rfl, .inr ⟨.drop thrs, rfl, by simp [Pc.ending], fun _ => trivial⟩⟩
    · cases heq
      exact ⟨rfl, rfl, rfl, rfl, .inl rfl⟩
    · dsimp only at heq
      split at heq
      · cases heq
        exact ⟨rfl, rfl, rfl, rfl, .inl rfl⟩
      · obtain ⟨t, -, rfl⟩ := Option.map_eq_some_iff.mp heq
        exact ⟨rfl, rfl, rfl, rfl, .inr ⟨.join thrs rest, rfl, by simp [Pc.ending], fun _ => trivial⟩⟩
  | drop rest =>
    rw [hpc] at heq
    rcases rest with _ | ⟨_ | n, rest⟩
    · cases heq
      exact ⟨rfl, rfl, rfl, rfl, .inr ⟨.idle, rfl, by simp [Pc.ending], fun _ => trivial⟩⟩
    · cases heq
      exact ⟨rfl, rfl, rfl, rfl, .inr ⟨.drop rest, rfl, by simp [Pc.ending], fun _ => trivial⟩⟩
    · obtain ⟨t, -, rfl⟩ := Option.map_eq_some_iff.mp heq
      exact ⟨rfl, rfl, rfl, rfl, .inr ⟨.drop rest, rfl, by simp [Pc.ending], fun _ => trivial⟩⟩

theorem Roots.go (h : Roots s) {c : Caller} {created interrupted quiet : Bool}
    (hmarked : (s.caller c).stopped = true → s.m_stopping = true)
    (hquiet : s.caller c = .test → s.m_rootFiber = some .TERM → quiet = true)
    (hgo : s.go c created interrupted quiet = some s') : Roots s' := by
  have heq := hgo
  rw [State.go.eq_def] at heq
  cases hpc : s.caller c with
  | test =>
    rw [hpc] at heq
    dsimp only at heq
    split at heq
    · cases heq
      split
      · exact h.plain (by simp [hpc]) (by simp [Pc.ending]) trivial (by simp [hpc]) (by simp [hpc])
      · rename_i hwork
        refine h.plain (by simp [hpc]) (by simp [hpc, Pc.ending]) ?_ (by simp [hpc]) (by simp [hpc])
        cases hf : s.m_rootFiber with
        | none => exact .inl rfl
        | some f =>
          cases f with
          | READY => exact .inr rfl
          | RUNNING =>
            -- it would run in another call of `stop`
            obtain ⟨d, hd⟩ := h.running hf
            have hdc : d = c := h.only hf (by rw [hpc]; rfl) (by rw [hd]; rfl)
            rw [hdc, hpc] at hd
            cases hd
          | TERM => exact absurd (by rw [h.ended hf, hquiet hpc hf]; rfl) hwork
    · cases heq
  | mark =>
    rw [hpc] at heq
    dsimp only at heq
    rw [if_pos (h.ending c (by rw [hpc]; rfl))] at heq
    cases heq
    have hfits := h.fits c
    rw [hpc] at hfits
    rcases hfits with hf | hf
    · -- without a root fiber the call goes on to the swap
      have hplain : Roots (s.goes c .swap) :=
        h.plain (by simp [hpc]) (by simp [hpc, Pc.ending]) trivial (by simp [hpc]) (by simp [hpc])
      have hnone : ∀ f, (s.goes c .swap).m_rootFiber ≠ some f := by
        intro f hsome
        rw [State.goes, hf] at hsome
        cases hsome
      rw [hf]
      exact
        { outside := hplain.outside, useCaller := hplain.useCaller, rootFiber := hplain.rootFiber
          ending := hplain.ending, fits := hplain.fits, running := hplain.running
          ended := fun _ => rfl
          ready := fun hsome _ => absurd hsome (hnone _) }
    · have hturn : Roots { s.goes c .root with m_rootFiber := some .READY, m_stopping := true } :=
        h.turn (by rw [hpc]; rfl) hf rfl (fun _ => rfl) (fun hfalse => by cases hfalse)
      rw [hf]
      exact hturn.same rfl rfl rfl hf rfl
  | root =>
    have hf := h.at_root hpc
    have hstopping := hmarked (by rw [hpc]; rfl)
    rw [hpc] at heq
    dsimp only at heq
    rw [if_pos hf] at heq
    cases heq
    have hturn : Roots { s.goes c .resumed with m_rootFiber := some .RUNNING, m_stopping := true } :=
      h.turn (by rw [hpc]; rfl) hf rfl (fun hfalse => by cases hfalse) (fun _ => rfl)
    exact hturn.same rfl rfl rfl rfl hstopping
  | resumed =>
    have hf : s.m_rootFiber = some .RUNNING := by
      have hfits := h.fits c
      rwa [hpc] at hfits
    have hstopping := hmarked (by rw [hpc]; rfl)
    rw [hpc] at heq
    dsimp only at heq
    obtain ⟨-, heq⟩ := Option.ite_none_right_eq_some.mp heq
    cases heq
    have hturn : Roots { s.goes c .swap with m_rootFiber := some .TERM, m_stopping := true } :=
      h.turn (by rw [hpc]; rfl) hf trivial (fun hfalse => by cases hfalse) (fun hfalse => by cases hfalse)
    exact hturn.same rfl rfl rfl rfl hstopping
  | idle =>
    rw [hpc] at heq
    cases heq
  | _ =>
    -- the other places leave the fiber to itself
    obtain ⟨huse, hthread, hfiber, hstopping, hstays | ⟨pc, hcaller, hending, hfits⟩⟩ :=
      go_rest (by rw [hpc]; simp) (by rw [hpc]; simp) (by rw [hpc]; simp) (by rw [hpc]; simp) hgo
    · exact h.same hstays huse hthread hfiber hstopping
    · have hplain : Roots (s.goes c pc) :=
        h.plain (by simp [hpc]) hending (hfits _) (by simp [hpc]) (by simp [hpc])
      exact hplain.same hcaller huse hthread hfiber hstopping

/-- `m_rootFiber` has no part in whose the threads are. -/
theorem Inv.fiber (h : Inv ids s) (f : Option Fiber.State) : Inv ids { s with m_rootFiber := f } where
  threads := h.threads
  stage := h.stage.frame ⟨rfl, fun _ => rfl, rfl, rfl, rfl⟩ fun _ => .inl rfl
  calls :=
    { mutex := h.calls.mutex, worker := h.calls.worker, starters := h.calls.starters, later := h.calls.later
      begun := h.calls.begun, marked := h.calls.marked }
  failed := h.failed
  dangling := h.dangling

theorem Inv.go (h : Inv ids s) (hroots : Roots s) {c : Caller} {quiet : Bool}
    (heq : s.go c true false quiet = some s') : Inv ids s' := by
  cases hc : s.caller c with
  | check => exact h.check hc heq
  | make i => exact h.make hc heq
  | wait i n => exact h.wait hc heq
  | record i => exact h.record hc heq
  | swap => exact h.swap hc heq
  | join thrs rest => exact h.join hc (hroots.thread (by simp [hc])) heq
  | drop rest => exact h.drop hc heq
  | idle =>
    rw [State.go, hc] at heq
    cases heq
  | lock =>
    rw [State.go, hc] at heq
    dsimp only at heq
    split at heq
    · rename_i hfree
      cases heq
      exact h.move c .check _ s.m_stopping (by rw [hc]; rfl) rfl (h.calls.taken hfree rfl) (fun _ hn => by cases hn)
        (fun _ => by rw [hc]; rfl) id (fun hfalse => by cases hfalse)
    · cases heq
  | test =>
    rw [State.go, hc] at heq
    dsimp only at heq
    split at heq
    · cases heq
      split
      · exact h.passes c .idle (by rw [hc]; rfl) rfl (by rw [hc]; rfl) rfl rfl
          (fun hfalse => by cases hfalse)
      · exact h.passes c .mark (by rw [hc]; rfl) rfl (by rw [hc]; rfl) rfl rfl
          (fun hfalse => by cases hfalse)
    · cases heq
  | mark =>
    rw [State.go, hc] at heq
    dsimp only at heq
    rw [if_pos (hroots.ending c (by rw [hc]; rfl))] at heq
    cases heq
    have hunlocked : (s.caller c).locked = false := by rw [hc]; rfl
    cases hroot : s.m_rootFiber.isSome with
    | true =>
      exact h.move c .root s.m_mutex true (by rw [hc]; rfl) rfl (h.calls.unlocked hunlocked rfl) h.calls.worker
        (fun hfalse => by cases hfalse) (fun _ => rfl) (fun _ => rfl)
    | false =>
      exact h.move c .swap s.m_mutex true (by rw [hc]; rfl) rfl (h.calls.unlocked hunlocked rfl) h.calls.worker
        (fun hfalse => by cases hfalse) (fun _ => rfl) (fun _ => rfl)
  | root =>
    have hmarked := h.calls.marked c (by rw [hc]; rfl)
    rw [State.go, hc] at heq
    dsimp only at heq
    rw [if_pos (hroots.at_root hc)] at heq
    cases heq
    have hpasses : Inv ids (s.goes c .resumed) :=
      h.passes c .resumed (by rw [hc]; rfl) rfl (by rw [hc]; rfl) rfl rfl (fun _ => hmarked)
    exact hpasses.fiber _
  | resumed =>
    have hmarked := h.calls.marked c (by rw [hc]; rfl)
    rw [State.go, hc] at heq
    dsimp only at heq
    obtain ⟨-, heq⟩ := Option.ite_none_right_eq_some.mp heq
    cases heq
    have hpasses : Inv ids (s.goes c .swap) :=
      h.passes c .swap (by rw [hc]; rfl) rfl (by rw [hc]; rfl) rfl rfl (fun _ => hmarked)
    exact hpasses.fiber _

/-! ## The steps of the threads -/

/-- A thread's own step leaves whose it is. -/
theorem Inv.thread (h : Inv ids s) {t : Threads.State} {a : Threads.Act} (ht : Threads.step s.threads a = some t)
    (hnext : t.next = s.threads.next) (hshape : ∀ m, shape t m = shape s.threads m)
    (hworker : ∀ n, s.m_mutex = some (.worker n) → (t.stack n).pc = .running)
    (hdangling : t.dangling = false) : Inv ids { s with threads := t } where
  threads := h.threads.step ht
  stage := h.stage.frame ⟨hnext, hshape, rfl, rfl, rfl⟩ fun _ => .inl rfl
  calls :=
    { mutex := h.calls.mutex
      worker := fun n hn => ⟨Nat.lt_of_lt_of_eq (h.calls.worker n hn).1 hnext.symm, hworker n hn⟩
      starters := h.calls.starters
      later := fun c hc hlate => h.calls.later c hc (by rwa [hnext] at hlate)
      begun := fun hstarted => by rw [hnext]; exact h.calls.begun hstarted
      marked := h.calls.marked }
  failed := h.failed
  dangling := hdangling

/-- The lock changes hands among the threads. -/
theorem Inv.lock (h : Inv ids s) {m_mutex : Option Holder} (hold : ∀ c, s.m_mutex ≠ some (.caller c))
    (hnew : ∀ c, m_mutex ≠ some (.caller c)) (hworker : ∀ n, m_mutex = some (.worker n) → s.runs n) :
    Inv ids { s with m_mutex := m_mutex } where
  threads := h.threads
  stage := h.stage.frame ⟨rfl, fun _ => rfl, rfl, rfl, rfl⟩ fun _ => .inl rfl
  calls :=
    { mutex := fun c => by
        have hunlocked : ¬ (s.caller c).locked = true := fun hlocked => hold c ((h.calls.mutex c).mp hlocked)
        exact ⟨fun hlocked => absurd hlocked hunlocked, fun hc => absurd hc (hnew c)⟩
      worker := hworker
      starters := h.calls.starters
      later := h.calls.later
      begun := h.calls.begun
      marked := h.calls.marked }
  failed := h.failed
  dangling := h.dangling

theorem Held.shapes {pc : Pc} (h : Held ids s pc) {n : Nat} (hn : n < s.threads.next) :
    shape s.threads n = unjoined n ∨ shape s.threads n = (some (some n), false, false) ∨
      shape s.threads n = joinedShape ∨ shape s.threads n = droppedShape := by
  cases pc with
  | make i =>
    obtain ⟨-, hnext, -, -, hwhole⟩ := h
    exact .inl (hwhole n (by omega))
  | wait i m =>
    obtain ⟨-, hnext, -, -, -, hwhole, hlast⟩ := h
    by_cases hni : n = i
    · exact .inr (.inl (by rw [hni, hlast]))
    · exact .inl (hwhole n (by omega))
  | record i =>
    obtain ⟨-, hnext, -, -, hwhole⟩ := h
    exact .inl (hwhole n (by omega))
  | join thrs rest =>
    obtain ⟨j, -, hnext, -, -, -, -, hbelow, habove⟩ := h
    by_cases hnj : n < j
    · exact .inr (.inr (.inl (hbelow n hnj)))
    · exact .inl (habove n (by omega) (by omega))
  | drop rest =>
    obtain ⟨j, -, hnext, -, -, -, hbelow, habove⟩ := h
    by_cases hnj : n < j
    · exact .inr (.inr (.inr (hbelow n hnj)))
    · exact .inr (.inr (.inl (habove n (by omega) (by omega))))
  | _ => exact False.elim h

theorem Stage.shapes (h : Stage ids s) {n : Nat} (hn : n < s.threads.next) :
    shape s.threads n = unjoined n ∨ shape s.threads n = (some (some n), false, false) ∨
      shape s.threads n = joinedShape ∨ shape s.threads n = droppedShape := by
  cases h with
  | resting _ hrest =>
    cases hrest with
    | fresh hnext => omega
    | kept _ hnext _ _ hwhole => exact .inl (hwhole n (by omega))
    | done hnext _ _ hdropped => exact .inr (.inr (.inr (hdropped n (by omega))))
  | active _ _ _ hheld => exact hheld.shapes hn

/-- No constructor has thrown. -/
theorem Inv.unthrown (h : Inv ids s) {n : Nat} (hn : n < s.threads.next) : ¬ s.threads.thrown n := by
  rintro ⟨ho, hreturned⟩
  have hshape : shape s.threads n = (none, false, (s.threads.stack n).joined) := by simp [shape, ho, hreturned]
  rcases h.stage.shapes hn with heq | heq | heq | heq <;> rw [hshape] at heq <;>
    simp [unjoined, joinedShape, droppedShape] at heq

/-- A call of `start`, the first or one that will find `m_stopping`. -/
theorem Inv.start (h : Inv ids s) {c : Caller} (hc : s.caller c = .idle)
    (horderly : s.started = false ∨ s.m_stopping = true) : Inv ids { s.goes c .lock with started := true } := by
  have hold : (s.caller c).passive = true := by rw [hc]; rfl
  have hunlocked : (s.caller c).locked = false := by rw [hc]; rfl
  refine ⟨h.threads, ?_, ?_, h.failed, h.dangling⟩
  · apply h.stage.frame
    · exact ⟨rfl, fun _ => rfl, rfl, rfl, rfl⟩
    · intro d
      by_cases hd : d = c
      · right
        rw [hd]
        exact ⟨hold, by simp [State.goes, Pc.passive]⟩
      · left
        simp [State.goes, hd]
  · constructor
    · exact h.calls.unlocked hunlocked rfl
    · exact h.calls.worker
    · intro a b ha hb
      rcases horderly with hfirst | hstopping
      · have honly : ∀ d, (Function.update s.caller c .lock d).starting = true → d = c := by
          intro d hd
          by_contra hdc
          rw [Function.update_of_ne hdc, ((h.calls.begun hfirst).2 d).2] at hd
          cases hd
        exact .inl ((honly a ha).trans (honly b hb).symm)
      · exact .inr hstopping
    · intro a ha hlate
      rcases horderly with hfirst | hstopping
      · obtain ⟨hnext, hall⟩ := h.calls.begun hfirst
        rcases hlate with hpos | ⟨d, hd⟩
        · exact absurd hnext (Nat.ne_of_gt hpos)
        · have hbusy : (Function.update s.caller c .lock d).passive = false := hd
          by_cases hdc : d = c
          · rw [hdc, Function.update_self] at hbusy
            cases hbusy
          · rw [Function.update_of_ne hdc, (hall d).1] at hbusy
            cases hbusy
      · exact hstopping
    · intro hfalse
      cases hfalse
    · intro a ha
      have hstopped : (Function.update s.caller c .lock a).stopped = true := ha
      by_cases hac : a = c
      · rw [hac, Function.update_self] at hstopped
        cases hstopped
      · rw [Function.update_of_ne hac] at hstopped
        exact h.calls.marked a hstopped

theorem Inv.step (h : Inv ids s) (hroots : Roots s) {a : Act} (horderly : Orderly s a)
    (heq : step s a = some s') : Inv ids s' := by
  cases a with
  | start c =>
    simp only [ThreadPool.step] at heq
    split at heq
    · rename_i hc
      cases heq
      exact h.start hc horderly.2
    · cases heq
  | stop c =>
    simp only [ThreadPool.step] at heq
    split at heq
    · rename_i hc
      cases heq
      exact h.passes c .test (by rw [hc]; rfl) rfl (by rw [hc]; rfl) rfl rfl
        (fun hfalse => by cases hfalse)
    · cases heq
  | go c created interrupted quiet =>
    obtain ⟨rfl, rfl, -⟩ := horderly
    exact h.go hroots heq
  | line n =>
    obtain ⟨t, ht, rfl⟩ := Option.map_eq_some_iff.mp heq
    obtain ⟨hnext, hshape⟩ := line_shape ht
    obtain ⟨hn, thread, r, hr, -, hstack⟩ := Threads.line_step ht
    apply h.thread ht hnext hshape
    · -- who has the lock is in `run`, past its lines, so this is another thread
      intro m hm
      have hpc := (h.calls.worker m hm).2
      have hmn : m ≠ n := by
        intro hmn
        have hearly := (Threads.line_rank hr).1
        rw [← hmn, hpc] at hearly
        exact absurd hearly (by decide)
      rw [hstack, Function.update_of_ne hmn]
      exact hpc
    · exact (Threads.step_dangling h.threads ht).mpr ⟨h.dangling, fun hthrown => absurd hthrown (h.unthrown hn)⟩
  | call n =>
    obtain ⟨t, ht, rfl⟩ := Option.map_eq_some_iff.mp heq
    obtain ⟨hnext, hshape, hpc, hothers⟩ := call_shape ht
    apply h.thread ht hnext hshape
    · -- the thread is not in `run` yet
      intro m hm
      have hrunning := (h.calls.worker m hm).2
      have hmn : m ≠ n := by
        intro hmn
        rw [hmn, hpc] at hrunning
        cases hrunning
      rw [hothers m hmn]
      exact hrunning
    · rw [← h.dangling]
      exact Threads.step_keeps (by simp) (by simp) ht
  | take n =>
    simp only [ThreadPool.step] at heq
    split at heq
    · rename_i hruns
      cases heq
      apply h.lock
      · intro c hc
        rw [hruns.2] at hc
        cases hc
      · exact fun c hc => by cases hc
      · intro m hm
        cases hm
        exact hruns.1
    · cases heq
  | give n =>
    simp only [ThreadPool.step] at heq
    split at heq
    · rename_i hmine
      cases heq
      apply h.lock
      · intro c hc
        rw [hmine] at hc
        cases hc
      · exact fun c hc => by cases hc
      · exact fun m hm => by cases hm
    · cases heq
  | leave n =>
    simp only [ThreadPool.step] at heq
    split at heq
    · rename_i hleave
      obtain ⟨t, ht, rfl⟩ := Option.map_eq_some_iff.mp heq
      obtain ⟨hnext, hshape⟩ := finish_shape ht
      apply h.thread ht hnext hshape
      · intro m hm
        have hmn : m ≠ n := fun hmn => hleave.2.1 (by rw [← hmn, hm])
        rw [finish_pc ht hmn]
        exact (h.calls.worker m hm).2
      · rw [← h.dangling]
        exact Threads.step_keeps (by simp) (by simp) ht
    · cases heq
  | borrow =>
    simp only [ThreadPool.step] at heq
    split at heq
    · rename_i hfree
      cases heq
      apply h.lock
      · intro c hc
        rw [hfree] at hc
        cases hc
      · exact fun c hc => by cases hc
      · exact fun m hm => by cases hm
    · cases heq
  | back =>
    simp only [ThreadPool.step] at heq
    split at heq
    · rename_i hother
      cases heq
      apply h.lock
      · intro c hc
        rw [hother] at hc
        cases hc
      · exact fun c hc => by cases hc
      · exact fun m hm => by cases hm
    · cases heq

theorem Roots.step (h : Roots s) (hmarked : ∀ c, (s.caller c).stopped = true → s.m_stopping = true) {a : Act}
    (horderly : Orderly s a) (heq : step s a = some s') : Roots s' := by
  cases a with
  | start c =>
    simp only [ThreadPool.step] at heq
    split at heq
    · rename_i hc
      cases heq
      have hgoes : Roots (s.goes c .lock) :=
        h.goes horderly.1 (by simp [Pc.ending]) trivial (fun _ => by simp [hc]) (fun _ => by simp [hc])
      exact hgoes.same rfl rfl rfl rfl rfl
    · cases heq
  | stop c =>
    simp only [ThreadPool.step] at heq
    split at heq
    · rename_i hc
      cases heq
      exact h.goes horderly.1 (fun _ => horderly.2) trivial (fun _ => by simp [hc]) (fun _ => by simp [hc])
    · cases heq
  | go c created interrupted quiet => exact h.go (hmarked c) horderly.2.2 heq
  | line n =>
    obtain ⟨t, -, rfl⟩ := Option.map_eq_some_iff.mp heq
    exact h.same rfl rfl rfl rfl rfl
  | call n =>
    obtain ⟨t, -, rfl⟩ := Option.map_eq_some_iff.mp heq
    exact h.same rfl rfl rfl rfl rfl
  | leave n =>
    simp only [ThreadPool.step] at heq
    split at heq
    · obtain ⟨t, -, rfl⟩ := Option.map_eq_some_iff.mp heq
      exact h.same rfl rfl rfl rfl rfl
    · cases heq
  | _ =>
    simp only [ThreadPool.step] at heq
    split at heq
    · cases heq
      exact h.same rfl rfl rfl rfl rfl
    · cases heq

theorem Roots.init (m_name : List UInt8) (threads : Nat) (use_caller : Option Nat) :
    Roots (init m_name threads use_caller) where
  outside c hc := absurd rfl hc
  useCaller := rfl
  rootFiber := by cases use_caller <;> rfl
  ending c hfalse := by cases hfalse
  fits c := trivial
  running hfalse := by cases use_caller <;> cases hfalse
  ended hfalse := by cases use_caller <;> cases hfalse
  ready _ hfalse := by cases hfalse

structure Lives (ids : List (Option Nat)) (s : State) : Prop where
  inv : Inv ids s
  roots : Roots s

theorem Lives.step (h : Lives ids s) {a : Act} (horderly : Orderly s a) (heq : step s a = some s') : Lives ids s' :=
  ⟨h.inv.step h.roots horderly heq, h.roots.step h.inv.calls.marked horderly heq⟩

theorem Inv.init (m_name : List UInt8) (threads : Nat) (use_caller : Option Nat) :
    Inv (use_caller.map some).toList (init m_name threads use_caller) where
  threads := Threads.Inv.init
  stage := .resting (fun _ => rfl) (.fresh rfl rfl rfl)
  calls :=
    { mutex := fun c => ⟨fun hfalse => (by cases hfalse), fun hfalse => (by cases hfalse)⟩
      worker := fun n hfalse => by cases hfalse
      starters := fun c d hfalse => by cases hfalse
      later := fun c hfalse => by cases hfalse
      begun := fun _ => ⟨rfl, fun _ => ⟨rfl, rfl⟩⟩
      marked := fun c hfalse => by cases hfalse }
  failed := rfl
  dangling := rfl

/-! ## Nobody waits for ever -/

/-- A step of a call that is on its way, or of a thread that has the lock, is on its way or may leave. -/
def Act.goesOn : Act → Bool
  | .go .. | .line _ | .call _ | .give _ | .leave _ | .back => true
  | _ => false

theorem orderly_go (c : Caller) : Orderly s (.go c true false true) := ⟨rfl, rfl, fun _ _ => rfl⟩

theorem released {holder : Holder} (hm : s.m_mutex = some holder)
    (hcaller : ∀ c, holder = .caller c → ∃ a, a.goesOn = true ∧ Orderly s a ∧ (ThreadPool.step s a).isSome = true) :
    ∃ a, a.goesOn = true ∧ Orderly s a ∧ (ThreadPool.step s a).isSome = true := by
  cases holder with
  | caller c => exact hcaller c rfl
  | worker n => exact ⟨.give n, rfl, trivial, by simp [ThreadPool.step, hm]⟩
  | other => exact ⟨.back, rfl, trivial, by simp [ThreadPool.step, hm]⟩

/-- A call in the loop of `start` goes on, or the thread that it waits for does. -/
theorem Inv.starts (h : Inv ids s) {c : Caller} (hc : (s.caller c).locked = true) :
    ∃ a, a.goesOn = true ∧ Orderly s a ∧ (ThreadPool.step s a).isSome = true := by
  cases hpc : s.caller c with
  | check =>
    refine ⟨.go c true false true, rfl, orderly_go c, ?_⟩
    simp only [ThreadPool.step, State.go, hpc]
    split
    · rfl
    · split <;> rfl
  | make i =>
    refine ⟨.go c true false true, rfl, orderly_go c, ?_⟩
    simp only [ThreadPool.step, State.go, hpc]
    split
    · simp [Threads.step]
    · rfl
  | record i => exact ⟨.go c true false true, rfl, orderly_go c, by simp [ThreadPool.step, State.go, hpc]⟩
  | wait i n =>
    obtain ⟨⟨-, -, rfl, -, -, -, hlast⟩, -⟩ := h.busy hpc rfl
    obtain ⟨thread, ho, -, hreturned, -⟩ := shape_some hlast
    rcases h.threads.sound.waiting n thread ho hreturned with hwait | hline
    · refine ⟨.go c true false true, rfl, orderly_go c, ?_⟩
      simp only [ThreadPool.step, State.go, hpc]
      simpa using hwait
    · exact ⟨.line n, rfl, trivial, by simpa [ThreadPool.step] using hline⟩
  | _ =>
    rw [hpc] at hc
    cases hc

theorem Inv.goesOn (h : Inv ids s) (hroots : Roots s) {c : Caller} (hc : s.caller c ≠ .idle) :
    ∃ a, a.goesOn = true ∧ Orderly s a ∧ (ThreadPool.step s a).isSome = true := by
  by_cases hlocked : (s.caller c).locked = true
  · exact h.starts hlocked
  -- whoever has the lock can go on, and if nobody has it the call itself can, or the thread that it joins
  have hfree : (∃ a : Act, a.goesOn = true ∧ Orderly s a ∧ (ThreadPool.step s a).isSome = true) ∨ s.m_mutex = none := by
    cases hm : s.m_mutex with
    | none => exact .inr rfl
    | some holder =>
      apply Or.inl
      apply released hm
      rintro d rfl
      exact h.starts ((h.calls.mutex d).mpr hm)
  rcases hfree with hdone | hfree
  · exact hdone
  cases hpc : s.caller c with
  | idle => exact absurd hpc hc
  | lock =>
    refine ⟨.go c true false true, rfl, orderly_go c, ?_⟩
    simp [ThreadPool.step, State.go, hpc, hfree]
  | test =>
    refine ⟨.go c true false true, rfl, orderly_go c, ?_⟩
    simp [ThreadPool.step, State.go, hpc, hfree]
  | mark =>
    have hhere := hroots.ending c (by rw [hpc]; rfl)
    exact ⟨.go c true false true, rfl, orderly_go c, by simp [ThreadPool.step, State.go, hpc, hhere]⟩
  | root =>
    have hready := hroots.at_root hpc
    exact ⟨.go c true false true, rfl, orderly_go c, by simp [ThreadPool.step, State.go, hpc, hready]⟩
  | resumed =>
    have hroot : s.caller .root = .idle := by
      by_contra hbusy
      cases hroots.outside _ hbusy
    exact ⟨.go c true false true, rfl, orderly_go c, by simp [ThreadPool.step, State.go, hpc, hroot]⟩
  | swap =>
    refine ⟨.go c true false true, rfl, orderly_go c, ?_⟩
    simp [ThreadPool.step, State.go, hpc, hfree]
  | drop rest =>
    refine ⟨.go c true false true, rfl, orderly_go c, ?_⟩
    cases rest with
    | nil => simp [ThreadPool.step, State.go, hpc]
    | cons x rest =>
      obtain ⟨⟨j, -, -, -, -, hrest, -, habove⟩, -⟩ := h.busy hpc rfl
      obtain ⟨hlt, rfl, -⟩ := pointers_cons hrest
      obtain ⟨thread, ho, hthread, hreturned, -⟩ := shape_some (habove j (Nat.le_refl j) hlt)
      simp [ThreadPool.step, State.go, hpc, Threads.step, ho, hthread, hreturned]
  | join thrs rest =>
    cases rest with
    | nil => exact ⟨.go c true false true, rfl, orderly_go c, by simp [ThreadPool.step, State.go, hpc]⟩
    | cons x rest =>
      obtain ⟨⟨j, -, hnext, -, -, -, hrest, -, habove⟩, -⟩ := h.busy hpc (by simp [Pc.passive])
      obtain ⟨hlt, rfl, -⟩ := pointers_cons hrest
      obtain ⟨thread, ho, hthread, hreturned, -⟩ := shape_some (habove j (Nat.le_refl j) hlt)
      have hnotified := (h.threads.living ho).notified hreturned
      by_cases hended : (s.threads.stack j).pc = .ended
      · refine ⟨.go c true false true, rfl, orderly_go c, ?_⟩
        have hcaller : c.thread = none := hroots.thread (by simp [hpc])
        simp [ThreadPool.step, State.go, hpc, hcaller, Threads.step, ho, hthread, hreturned, hended]
      · have hj : j < s.threads.next := by omega
        have hlater : (s.threads.stack j).pc = .notified ∨ (s.threads.stack j).pc = .running := by
          cases hj : (s.threads.stack j).pc <;> simp_all [Threads.Pc.rank]
        rcases hlater with hbefore | hrunning
        · -- the thread goes on to `run`
          have hcall := (h.threads.calls hj hbefore).resolve_right fun hthrown => h.unthrown hj hthrown.1
          exact ⟨.call j, rfl, trivial, by simpa [ThreadPool.step] using hcall⟩
        · -- the thread is in `run` and calls nothing, the lock is free, and the scheduler stops
          have hmarked := h.calls.marked c (by rw [hpc]; rfl)
          have hidle : s.caller (.worker j) = .idle := by
            by_contra hbusy
            cases hroots.outside _ hbusy
          refine ⟨.leave j, rfl, trivial, ?_⟩
          simp [ThreadPool.step, Threads.step, hmarked, hfree, hidle, hj, hrunning]
  | _ =>
    rw [hpc] at hlocked
    exact absurd rfl hlocked

/-! ## How long `start` takes -/

def Pc.making : Pc → Bool
  | .make _ | .wait _ _ | .record _ => true
  | _ => false

/-- The steps that a call in the loop of `start` has still before it, its own and the lines of its threads. -/
def State.left (s : State) (c : Caller) : Nat :=
  match s.caller c with
  | .make i => 9 * (s.m_threadCount - i)
  | .wait i n => 9 * (s.m_threadCount - i - 1) + 2 + (6 - min 6 (s.threads.stack n).pc.rank)
  | .record i => 9 * (s.m_threadCount - i - 1) + 1
  | _ => 0

/-- A step of the call, or a line of a thread. -/
def Act.brings (c : Caller) : Act → Bool
  | .go d _ _ _ => d = c
  | .line _ => true
  | _ => false

/-- An orderly step while the call is in the loop of `start`. -/
def during (c : Caller) (s : State) (a : Act) : Option State :=
  if Orderly s a then (step s a).filter fun t => (t.caller c).making else none

/-- A passive call that goes on makes nothing of the threads. -/
theorem go_passive {d : Caller} (hd : (s.caller d).passive = true) {quiet : Bool}
    (hcheck : s.caller d ≠ .check) (hswap : s.caller d ≠ .swap) (heq : s.go d true false quiet = some s') :
    s'.threads = s.threads ∧ s'.m_threadCount = s.m_threadCount ∧ ∀ e, e ≠ d → s'.caller e = s.caller e := by
  have hmove : ∀ pc e, e ≠ d → (s.goes d pc).caller e = s.caller e := fun pc e he => Function.update_of_ne he _ _
  rw [State.go.eq_def] at heq
  cases hpc : s.caller d with
  | check => exact absurd hpc hcheck
  | swap => exact absurd hpc hswap
  | join thrs rest =>
    -- a passive call has swapped out nothing
    rw [hpc] at hd
    obtain ⟨rfl, rfl⟩ : thrs = [] ∧ rest = [] := by simpa [Pc.passive] using hd
    rw [hpc] at heq
    cases heq
    exact ⟨rfl, rfl, hmove _⟩
  | drop rest =>
    rw [hpc] at hd
    obtain rfl : rest = [] := by simpa [Pc.passive] using hd
    rw [hpc] at heq
    cases heq
    exact ⟨rfl, rfl, hmove _⟩
  | lock =>
    rw [hpc] at heq
    dsimp only at heq
    split at heq
    · cases heq
      exact ⟨rfl, rfl, hmove _⟩
    · cases heq
  | test =>
    rw [hpc] at heq
    dsimp only at heq
    split at heq
    · cases heq
      split <;> exact ⟨rfl, rfl, hmove _⟩
    · cases heq
  | mark =>
    rw [hpc] at heq
    dsimp only at heq
    split at heq
    · cases heq
      exact ⟨rfl, rfl, hmove _⟩
    · cases heq
      exact ⟨rfl, rfl, fun _ _ => rfl⟩
  | root =>
    rw [hpc] at heq
    dsimp only at heq
    split at heq
    · cases heq
      exact ⟨rfl, rfl, hmove _⟩
    · cases heq
      exact ⟨rfl, rfl, fun _ _ => rfl⟩
  | resumed =>
    rw [hpc] at heq
    dsimp only at heq
    obtain ⟨-, heq⟩ := Option.ite_none_right_eq_some.mp heq
    cases heq
    exact ⟨rfl, rfl, hmove _⟩
  | idle =>
    rw [hpc] at heq
    cases heq
  | _ =>
    rw [hpc] at hd
    cases hd

theorem left_eq {c : Caller} (hcaller : s'.caller c = s.caller c) (hcount : s'.m_threadCount = s.m_threadCount)
    (hrank : ∀ i n, s.caller c = .wait i n →
      min 6 (s'.threads.stack n).pc.rank = min 6 (s.threads.stack n).pc.rank) : s'.left c = s.left c := by
  unfold State.left
  rw [hcaller, hcount]
  cases hc : s.caller c with
  | wait i n => simp only [hrank i n hc]
  | _ => rfl

theorem left_threads {c : Caller} (hcaller : s'.caller c = s.caller c) (hcount : s'.m_threadCount = s.m_threadCount)
    (hthreads : s'.threads = s.threads) : s'.left c = s.left c :=
  left_eq hcaller hcount fun i n _ => by rw [hthreads]

/-- A step of the call itself. -/
theorem Inv.left_go (h : Inv ids s) {c : Caller} {quiet : Bool} (hc : (s.caller c).making = true)
    (heq : s.go c true false quiet = some s') (hc' : (s'.caller c).making = true) :
    s'.left c + 1 = s.left c := by
  cases hpc : s.caller c with
  | make i =>
    rw [State.go, hpc] at heq
    dsimp only at heq
    split at heq
    · rename_i hlt
      rw [if_pos rfl] at heq
      obtain ⟨t, ht, rfl⟩ := Option.map_eq_some_iff.mp heq
      have hnew : (t.stack s.threads.next).pc.rank = 0 := by
        simp only [Threads.step, if_true] at ht
        cases ht
        simp [Threads.State.put, Threads.Stack.new, Threads.Pc.rank]
      simp only [State.left, State.goes, Function.update_self, hpc, hnew]
      omega
    · cases heq
      simp [State.unlock, State.goes, Pc.making] at hc'
  | wait i n =>
    obtain ⟨⟨hi, -, rfl, -, -, -, hlast⟩, -⟩ := h.busy hpc rfl
    obtain ⟨thread, ho, -, hreturned, -⟩ := shape_some hlast
    rw [State.go, hpc] at heq
    simp only [Bool.false_eq_true, if_false] at heq
    obtain ⟨t, ht, rfl⟩ := Option.map_eq_some_iff.mp heq
    -- the wait has returned, so the thread has notified and its six lines are behind it
    have hrank : 6 ≤ (s.threads.stack n).pc.rank := by
      by_contra hearly
      have hzero := (h.threads.living ho).semaphore
      rw [if_neg (fun hboth => hearly hboth.1)] at hzero
      simp [Threads.step, ho, hreturned, hzero] at ht
    simp only [State.left, State.goes, Function.update_self, hpc]
    omega
  | record i =>
    obtain ⟨⟨hi, -⟩, -⟩ := h.busy hpc rfl
    rw [State.go, hpc] at heq
    cases heq
    simp only [State.left, State.goes, Function.update_self, hpc]
    omega
  | _ =>
    rw [hpc] at hc
    cases hc

/-- A line is one of the thread that the constructor waits for. -/
theorem Inv.left_line (h : Inv ids s) {c : Caller} {n : Nat} (hc : (s.caller c).making = true)
    (heq : ThreadPool.step s (.line n) = some s') : s'.left c + 1 = s.left c := by
  obtain ⟨t, ht, rfl⟩ := Option.map_eq_some_iff.mp heq
  obtain ⟨hn, thread, r, hr, hnext, hstack⟩ := Threads.line_step ht
  obtain ⟨hearly, -⟩ := Threads.line_rank hr
  -- a thread whose constructor has returned has no lines left
  have hwhole : shape s.threads n ≠ unjoined n := by
    intro hshape
    obtain ⟨other, ho, -, hreturned, -⟩ := shape_some hshape
    have hnotified := (h.threads.living ho).notified hreturned
    omega
  cases hpc : s.caller c with
  | make i =>
    obtain ⟨⟨-, hnext, -, -, hall⟩, -⟩ := h.busy hpc rfl
    exact absurd (hall n (by omega)) hwhole
  | record i =>
    obtain ⟨⟨-, hnext, -, -, hall⟩, -⟩ := h.busy hpc rfl
    exact absurd (hall n (by omega)) hwhole
  | wait i m =>
    obtain ⟨⟨-, hnext, rfl, -, -, hall, -⟩, -⟩ := h.busy hpc rfl
    have hlast : n = m := by
      by_contra hne
      exact hwhole (hall n (by omega))
    subst hlast
    have hrank := Threads.step_rank hn ht
    rw [if_pos rfl] at hrank
    simp only [State.left, hpc]
    omega
  | _ =>
    rw [hpc] at hc
    cases hc

theorem during_some {c : Caller} {a : Act} (heq : during c s a = some s') :
    Orderly s a ∧ step s a = some s' ∧ (s'.caller c).making = true := by
  unfold during at heq
  split at heq
  · rename_i horderly
    obtain ⟨hstep, hmaking⟩ := Option.filter_eq_some_iff.mp heq
    exact ⟨horderly, hstep, hmaking⟩
  · cases heq

theorem making_locked {pc : Pc} (h : pc.making = true) : pc.locked = true ∧ pc.passive = false := by
  cases pc <;> simp_all [Pc.making, Pc.locked, Pc.passive]

/-- What a thread does behind its lines. -/
theorem Inv.left_thread (h : Inv ids s) (c : Caller) {t : Threads.State} {a : Threads.Act}
    (hline : ∀ n, a ≠ .line n) (ht : Threads.step s.threads a = some t) :
    State.left { s with threads := t } c = s.left c := by
  apply left_eq
  · rfl
  · rfl
  · intro i m hpc
    obtain ⟨⟨-, hnext, rfl, -⟩, -⟩ := h.busy hpc rfl
    have hrank := Threads.step_rank (show m < s.threads.next by omega) ht
    simpa [hline m] using hrank

/-- A step of another call. -/
theorem Inv.left_other (h : Inv ids s) {c d : Caller} (hc : (s.caller c).making = true) (hd : d ≠ c) {quiet : Bool}
    (heq : s.go d true false quiet = some s') : s'.left c = s.left c := by
  obtain ⟨hlocked, hbusy⟩ := making_locked hc
  have hmutex := (h.calls.mutex c).mp hlocked
  have hpassive := (h.stage.of_busy hbusy).2 d hd
  -- the call in the loop has the lock, so the other is behind no guard and swaps nothing out
  have hcheck : s.caller d ≠ .check := by
    intro hcheck
    have hother := (h.calls.mutex d).mp (by rw [hcheck]; rfl)
    rw [hmutex] at hother
    exact hd (Holder.caller.inj (Option.some.inj hother)).symm
  have hswap : s.caller d ≠ .swap := by
    intro hswap
    simp [State.go, hswap, hmutex] at heq
  obtain ⟨hthreads, hcount, hcaller⟩ := go_passive hpassive hcheck hswap heq
  exact left_threads (hcaller c (Ne.symm hd)) hcount hthreads

theorem Inv.left_step (h : Inv ids s) {c : Caller} {a : Act} (hc : (s.caller c).making = true)
    (heq : during c s a = some s') : s'.left c + (if a.brings c = true then 1 else 0) = s.left c := by
  obtain ⟨horderly, hstep, hc'⟩ := during_some heq
  have hidle : s.caller c ≠ .idle := by
    intro hidle
    rw [hidle] at hc
    cases hc
  cases a with
  | start d =>
    simp only [ThreadPool.step] at hstep
    split at hstep
    · rename_i hd
      cases hstep
      have hcd : c ≠ d := fun hcd => hidle (by rw [hcd, hd])
      exact left_threads (Function.update_of_ne hcd _ _) rfl rfl
    · cases hstep
  | stop d =>
    simp only [ThreadPool.step] at hstep
    split at hstep
    · rename_i hd
      cases hstep
      have hcd : c ≠ d := fun hcd => hidle (by rw [hcd, hd])
      exact left_threads (Function.update_of_ne hcd _ _) rfl rfl
    · cases hstep
  | go d created interrupted quiet =>
    obtain ⟨rfl, rfl, -⟩ := horderly
    by_cases hd : d = c
    · subst hd
      simpa [Act.brings] using h.left_go hc hstep hc'
    · simpa [Act.brings, hd] using h.left_other hc hd hstep
  | line n => exact h.left_line hc hstep
  | call n =>
    -- `cb()` is behind the lines that are counted
    obtain ⟨t, ht, rfl⟩ := Option.map_eq_some_iff.mp hstep
    simpa [Act.brings] using h.left_thread c (by simp) ht
  | leave n =>
    simp only [ThreadPool.step] at hstep
    split at hstep
    · obtain ⟨t, ht, rfl⟩ := Option.map_eq_some_iff.mp hstep
      simpa [Act.brings] using h.left_thread c (by simp) ht
    · cases hstep
  | _ =>
    simp only [ThreadPool.step] at hstep
    split at hstep
    · cases hstep
      exact left_threads rfl rfl rfl
    · cases hstep

/-- The steps of a run in which the call stays in the loop of `start`. -/
theorem Lives.left_after {c : Caller} {acts : List Act} (h : Lives ids s) (hc : (s.caller c).making = true)
    (hrun : after (during c) acts s = some s') :
    acts.countP (Act.brings c) + s'.left c = s.left c := by
  induction acts generalizing s with
  | nil =>
    cases hrun
    simp
  | cons a rest ih =>
    obtain ⟨t, ht, hrest⟩ := Option.bind_eq_some_iff.mp hrun
    obtain ⟨horderly, hstep, hmaking⟩ := during_some ht
    have hone := h.inv.left_step hc ht
    have hmore := ih (h.step horderly hstep) hmaking hrest
    rw [List.countP_cons]
    omega

end

/-! ## The threads of a scheduler -/

structure Sound (ids : List (Option Nat)) (s : State) : Prop where
  /-- No assertion has failed, no null pointer was followed and no object was used when it was gone. -/
  failed : s.failed = false ∧ s.threads.dangling = false
  /-- While nobody starts, the ids are those of all threads, in their order; there is none or there are all. -/
  ids : (∀ c, (s.caller c).making = false) → s.m_threadIds = ids ++ pointers 0 s.threads.next ∧
    (s.threads.next = 0 ∨ s.threads.next = s.m_threadCount)
  /-- What `m_threads` points to are the threads, all of them and each of them whole, or nothing. -/
  m_threads : (∀ c, (s.caller c).making = false) → s.m_threads = [] ∨
    s.m_threads = pointers 0 s.m_threadCount ∧ ∀ n < s.m_threadCount, shape s.threads n = unjoined n
  /-- When the calls have returned and `m_threads` is empty, every thread has ended and was joined, and no
  object is left. -/
  joined : (∀ c, s.caller c = .idle) → s.m_threads = [] → ∀ n < s.threads.next,
    s.threads.object n = none ∧ (s.threads.stack n).joined = true ∧ (s.threads.stack n).pc = .ended
  /-- Behind a `stop` there is no `m_rootFiber` that has not ended. -/
  rootFiber : (∀ c, s.caller c = .idle) → s.m_stopping = true → s.m_rootFiber = none ∨ s.m_rootFiber = some .TERM

theorem Roots.rests {s : State} (h : Roots s) (hidle : ∀ c, s.caller c = .idle) (hstopping : s.m_stopping = true) :
    s.m_rootFiber = none ∨ s.m_rootFiber = some .TERM := by
  cases hf : s.m_rootFiber with
  | none => exact .inl rfl
  | some f =>
    cases f with
    | READY =>
      obtain ⟨c, hc⟩ := h.ready hf hstopping
      rw [hidle c] at hc
      cases hc
    | RUNNING =>
      obtain ⟨c, hc⟩ := h.running hf
      rw [hidle c] at hc
      cases hc
    | TERM => exact .inr rfl

theorem Inv.sound {ids : List (Option Nat)} {s : State} (h : Inv ids s) (hroots : Roots s) : Sound ids s where
  failed := ⟨h.failed, h.dangling⟩
  ids hnone := by
    cases h.stage with
    | resting _ hrest =>
      cases hrest with
      | fresh hn hm hid => exact ⟨by rw [hn, hid]; simp [pointers], .inl hn⟩
      | kept _ hn hm hid _ => exact ⟨by rw [hn, hid], .inr hn⟩
      | done hn hm hid _ => exact ⟨by rw [hn, hid], .inr hn⟩
    | active c hbusy _ hheld =>
      have hc := hnone c
      cases hpc : s.caller c with
      | join thrs rest =>
        rw [hpc] at hheld
        obtain ⟨j, -, hn, -, hid, -⟩ := hheld
        exact ⟨by rw [hn, hid], .inr hn⟩
      | drop rest =>
        rw [hpc] at hheld
        obtain ⟨j, -, hn, -, hid, -⟩ := hheld
        exact ⟨by rw [hn, hid], .inr hn⟩
      | _ => simp_all [Pc.passive, Pc.making]
  m_threads hnone := by
    cases h.stage with
    | resting _ hrest =>
      cases hrest with
      | fresh hn hm hid => exact .inl hm
      | kept _ hn hm hid hwhole => exact .inr ⟨hm, hwhole⟩
      | done hn hm hid _ => exact .inl hm
    | active c hbusy _ hheld =>
      have hc := hnone c
      cases hpc : s.caller c with
      | join thrs rest =>
        rw [hpc] at hheld
        obtain ⟨j, -, -, hm, -⟩ := hheld
        exact .inl hm
      | drop rest =>
        rw [hpc] at hheld
        obtain ⟨j, -, -, hm, -⟩ := hheld
        exact .inl hm
      | _ => simp_all [Pc.passive, Pc.making]
  joined hidle hempty n hn := by
    cases h.stage with
    | resting _ hrest =>
      cases hrest with
      | fresh hnext => omega
      | kept hpos _ hm =>
        rw [hempty] at hm
        exact absurd hm.symm (pointers_ne_nil hpos)
      | done hnext _ _ hdropped =>
        have hshape := hdropped n (by omega)
        simp only [shape, droppedShape, Prod.mk.injEq, Option.map_eq_none_iff] at hshape
        exact ⟨hshape.1, hshape.2.2, (h.threads.sound.joined n hn hshape.2.2).1⟩
    | active c hbusy =>
      rw [hidle c] at hbusy
      cases hbusy
  rootFiber := hroots.rests

/-- **The threads of a scheduler**, in every state of an orderly run: they are as `Sound` says; as long as some call
of `start` or `stop` has not returned, some call or thread can go on; and a `start` that makes threads takes nine
steps for each, its own and those of the thread, in whatever order the others go on. -/
theorem pool_lives {m_name : List UInt8} {threads : Nat} {use_caller : Option Nat} {s : State}
    (h : Reached step Orderly (init m_name threads use_caller) s) :
    Sound (use_caller.map some).toList s ∧
      (∀ c, s.caller c ≠ .idle → ∃ a, a.goesOn = true ∧ Orderly s a ∧ (step s a).isSome = true) ∧
      ∀ c, (s.caller c).making = true → ∀ acts s', after (during c) acts s = some s' →
        acts.countP (Act.brings c) + s'.left c = s.left c := by
  have hlives : Lives (use_caller.map some).toList s :=
    h.inv ⟨Inv.init m_name threads use_caller, Roots.init m_name threads use_caller⟩
      fun t a t' ht horderly hstep => ht.step horderly hstep
  exact ⟨hlives.inv.sound hlives.roots, fun c hc => hlives.inv.goesOn hlives.roots hc,
    fun c hc acts s' hrun => hlives.left_after hc hrun⟩

/-- `start` in the constructor of the first of two threads. -/
def begun : List Act := [.start (.outside 0)] ++ List.replicate 3 (.go (.outside 0) true false true)

/-- From there to the end of its loop; the first thread asks for the lock meanwhile, and another call stops. -/
def goingOn : List Act :=
  List.replicate 6 (.line 0) ++ [.call 0, .go (.outside 0) true false true, .stop (.outside 1)] ++
    List.replicate 2 (.go (.outside 0) true false true) ++ List.replicate 6 (.line 1) ++
    List.replicate 2 (.go (.outside 0) true false true)

theorem pool_lives_two : ∃ s s', Sound [] s ∧ s.left (.outside 0) = 17 ∧
    after (during (.outside 0)) goingOn s = some s' ∧ s'.caller (.outside 0) = .make 2 ∧
    s'.m_threadIds = [some 0, some 1] ∧ 17 + s'.left (.outside 0) = s.left (.outside 0) := by
  have hrun : (after (fun s a => if Orderly s a then step s a else none) begun (init [] 2 none)).map
      (fun s => ((s.caller (.outside 0)).making, s.left (.outside 0),
        (after (during (.outside 0)) goingOn s).map fun s' => (s'.caller (.outside 0), s'.m_threadIds))) =
        some (true, 17, some (.make 2, [some 0, some 1])) := by decide +kernel
  obtain ⟨s, hs, heq⟩ := Option.map_eq_some_iff.mp hrun
  simp only [Prod.mk.injEq] at heq
  obtain ⟨hmaking, hleft, hafter⟩ := heq
  obtain ⟨s', hs', heq'⟩ := Option.map_eq_some_iff.mp hafter
  simp only [Prod.mk.injEq] at heq'
  obtain ⟨hsound, -, hcount⟩ := pool_lives (Reached.start.checked begun hs)
  exact ⟨s, s', hsound, hleft, hs', heq'.1, heq'.2, hcount (.outside 0) hmaking goingOn s' hs'⟩

/-- After a thread was refused `stop` follows a null pointer. -/
example : (after step ([.start (.outside 0)] ++ List.replicate 2 (.go (.outside 0) true false true) ++
    [.go (.outside 0) false false true, .stop (.outside 1)] ++ List.replicate 4 (.go (.outside 1) true false true))
      (init [] 1 none)).map State.failed = some true := by
  decide +kernel

/-- A second `stop` that finds work fails the assertion of `Fiber::resume`. -/
theorem stopped_twice : (after step ([.stop (.outside 3)] ++ List.replicate 7 (.go (.outside 3) true false false) ++
    [.stop (.outside 3)] ++ List.replicate 3 (.go (.outside 3) true false false)) (init [] 1 (some 3))).map
      (fun s => (s.m_rootFiber, s.failed)) = some (some .TERM, true) := by
  decide +kernel

/-- A task that calls `stop` while no other call has resumed `m_rootFiber` comes to join its own thread. -/
theorem stopped_within : (after step ([.start (.outside 3)] ++ List.replicate 3 (.go (.outside 3) true false true) ++
    List.replicate 6 (.line 0) ++ List.replicate 3 (.go (.outside 3) true false true) ++
    [.call 0, .stop (.worker 0)] ++ List.replicate 6 (.go (.worker 0) true false false)) (init [] 2 (some 3))).map
      (fun s => (s.caller (.outside 3), s.failed)) = some (.idle, true) := by
  decide +kernel

end Sylar.ThreadPool
