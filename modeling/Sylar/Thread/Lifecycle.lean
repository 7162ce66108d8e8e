import Mathlib.Data.List.Basic
import Mathlib.Logic.Function.Basic
import Sylar.Lib.Machine

/- The life of the `Thread` objects.

   The constructor gives the new thread a plain pointer to the object and waits on its semaphore. The thread takes
   its name and the callback from the object, writes its id into it, notifies, and does not come back
   to the object, except in `SetName`, which goes through `t_thread`. So the constructor may return before the
   callback begins. The object may be destroyed before that, or while the callback executes: then the thread is
   detached.

   So an object is used after it is gone in two ways only: the callback calls `SetName`, or the wait of the
   constructor was interrupted by a signal, so that it threw with the new thread still on its way.

   An object is used by one thread at a time, beside the one that it stands for. That the system has refused
   a thread leaves nothing: the constructor throws.

   Correspondence (C++ ↔ Lean):
     `Thread::Thread`          ↔ `Act.construct`, then `Act.wait`
     `Thread::run`             ↔ `line`, one call for each line up to the notification, then `Act.call`
     `Thread::SetName`         ↔ `Act.setName`
     `Thread::join`, `~Thread` ↔ `Act.join`, `Act.destroy`
     `Semaphore`               ↔ `Thread.m_semaphore` -/
namespace Sylar.Threads
open Sylar.Lib

/-! ## Model -/

/-- The object. A `pthread_t` and a thread's id are its number, and a callback is one too. -/
structure Thread where
  m_id : Option Nat := none
  m_thread : Option Nat := none
  m_cb : Option Nat
  m_name : List UInt8
  m_semaphore : Nat := 0
  deriving DecidableEq, Repr

/-- The last line of `Thread::run` that is done. -/
inductive Pc where
  | created
  | this
  | named
  | identified
  | titled
  | taken
  | notified
  | running
  | ended
  deriving DecidableEq, Repr

def Pc.rank : Pc → Nat
  | .created => 0
  | .this => 1
  | .named => 2
  | .identified => 3
  | .titled => 4
  | .taken => 5
  | .notified => 6
  | .running => 7
  | .ended => 8

def unknow : List UInt8 := [0x55, 0x4e, 0x4b, 0x4e, 0x4f, 0x57]

/-- A thread of the system in `Thread::run`. -/
structure Stack where
  pc : Pc
  t_thread_name : List UInt8
  /-- What `pthread_setname_np` was told. -/
  title : List UInt8
  cb : Option Nat
  /-- The callbacks that it has called. -/
  called : List Nat
  joined : Bool
  detached : Bool
  /-- What the constructor was given. -/
  given : Nat
  deriving DecidableEq, Repr

structure State where
  next : Nat
  /-- The objects that there are; the `n`th was made with the `n`th thread. -/
  object : Nat → Option Thread
  stack : Nat → Stack
  /-- The constructor has returned. -/
  returned : Nat → Bool
  /-- An object was used when it was gone. -/
  dangling : Bool

def Stack.new (cb : Nat) : Stack := ⟨.created, unknow, [], none, [], false, false, cb⟩

def State.init : State where
  next := 0
  object := fun _ => none
  stack := fun _ => Stack.new 0
  returned := fun _ => false
  dangling := false

/-- The next line of `Thread::run` with the object `thread`, or `none` when the thread has notified. -/
def line (n : Nat) (thread : Thread) (k : Stack) : Option (Thread × Stack) :=
  match k.pc with
  | .created => some (thread, { k with pc := .this })
  | .this => some (thread, { k with pc := .named, t_thread_name := thread.m_name })
  | .named => some ({ thread with m_id := some n }, { k with pc := .identified })
  | .identified => some (thread, { k with pc := .titled, title := thread.m_name.take 15 })
  | .titled => some ({ thread with m_cb := k.cb }, { k with pc := .taken, cb := thread.m_cb })
  | .taken => some ({ thread with m_semaphore := thread.m_semaphore + 1 }, { k with pc := .notified })
  | .notified | .running | .ended => none

inductive Act where
  /-- The constructor up to its wait. -/
  | construct (cb : Nat) (name : List UInt8) (created : Bool)
  /-- `m_semaphore.wait()` of the constructor, which throws when a signal has woken it. -/
  | wait (n : Nat) (interrupted : Bool)
  | line (n : Nat)
  /-- `cb()`, which is the thread's own by now. -/
  | call (n : Nat)
  /-- `Thread::SetName` in the callback of a thread. -/
  | setName (n : Nat) (name : List UInt8)
  | finish (n : Nat)
  /-- `join` in the callback of a thread, or in some other thread. -/
  | join (n : Nat) (caller : Option Nat)
  | destroy (n : Nat)
  deriving DecidableEq, Repr

def State.put (s : State) (n : Nat) (thread : Option Thread) (k : Stack) : State :=
  { s with object := Function.update s.object n thread, stack := Function.update s.stack n k }

def step (s : State) : Act → Option State
  | .construct cb name created =>
    if created then
      let thread : Thread := { m_thread := some s.next, m_cb := some cb, m_name := if name = [] then unknow else name }
      some { s.put s.next (some thread) (Stack.new cb) with next := s.next + 1 }
    else some s
  | .wait n interrupted =>
    match s.object n with
    | some thread =>
      if s.returned n then none
      else if thread.m_semaphore = 0 then
        if interrupted then some (s.put n none (s.stack n)) else none
      else if interrupted then none
      else
        let waited := { thread with m_semaphore := thread.m_semaphore - 1 }
        some { s.put n (some waited) (s.stack n) with returned := Function.update s.returned n true }
    | none => none
  | .line n =>
    if n < s.next then
      match s.object n with
      | some thread => (line n thread (s.stack n)).map fun r => s.put n (some r.1) r.2
      | none =>
        -- the memory of the object holds anything now
        (line n { m_cb := none, m_name := [] } (s.stack n)).map fun r =>
          { s.put n none r.2 with dangling := s.dangling || (s.stack n).pc != .created }
    else none
  | .call n =>
    if n < s.next ∧ (s.stack n).pc = .notified then
      match (s.stack n).cb with
      | some cb => some (s.put n (s.object n) { s.stack n with pc := .running, called := (s.stack n).called ++ [cb] })
      -- what was no callback throws, and nothing catches it
      | none => none
    else none
  | .setName n name =>
    if n < s.next ∧ (s.stack n).pc = .running then
      if name = [] then some s
      else
        let k := { s.stack n with t_thread_name := name }
        match s.object n with
        | some thread => some (s.put n (some { thread with m_name := name }) k)
        | none => some { s.put n none k with dangling := true }
    else none
  | .finish n =>
    if n < s.next ∧ (s.stack n).pc = .running then some (s.put n (s.object n) { s.stack n with pc := .ended }) else none
  | .join n caller =>
    match s.object n with
    | some thread =>
      if s.returned n then
        match thread.m_thread with
        | none => some s
        | some m_thread =>
          -- `pthread_join` of the thread itself is an error, and `join` throws
          if caller = some m_thread then some s
          else if (s.stack m_thread).pc = .ended then
            some { s.put n (some { thread with m_thread := none }) (s.stack n) with
              stack := Function.update s.stack m_thread { s.stack m_thread with joined := true } }
          else none
      else none
    | none => none
  | .destroy n =>
    match s.object n with
    | some thread =>
      if s.returned n then
        match thread.m_thread with
        | none => some (s.put n none (s.stack n))
        | some m_thread =>
          some { s.put n none (s.stack n) with
            stack := Function.update s.stack m_thread { s.stack m_thread with detached := true } }
      else none
    | none => none

/-! ## What is true of each thread -/

/-- Of a thread whose object is there. -/
structure Living (n : Nat) (returned : Bool) (thread : Thread) (k : Stack) : Prop where
  id : thread.m_id = if 3 ≤ k.pc.rank then some n else none
  cb : thread.m_cb = if 5 ≤ k.pc.rank then none else some k.given
  taken : k.cb = if 5 ≤ k.pc.rank then some k.given else none
  called : k.called = if 7 ≤ k.pc.rank then [k.given] else []
  name : 2 ≤ k.pc.rank → k.t_thread_name = thread.m_name
  semaphore : thread.m_semaphore = if 6 ≤ k.pc.rank ∧ returned = false then 1 else 0
  notified : returned = true → 6 ≤ k.pc.rank
  detached : k.detached = false
  joined : thread.m_thread = some n ∧ k.joined = false ∨
    thread.m_thread = none ∧ k.joined = true ∧ k.pc = .ended ∧ returned = true

/-- Of a thread whose object has been destroyed, or whose constructor has thrown. -/
structure Gone (returned : Bool) (k : Stack) : Prop where
  notified : returned = true → 6 ≤ k.pc.rank ∧ k.cb = some k.given
  called : k.called = if 7 ≤ k.pc.rank then [k.given] else []
  cleaned : returned = true →
    k.joined = true ∧ k.detached = false ∧ k.pc = .ended ∨ k.joined = false ∧ k.detached = true
  thrown : returned = false → k.joined = false ∧ k.detached = false
  taken : k.cb = none ∨ k.cb = some k.given

def Fits (n : Nat) (object : Option Thread) (returned : Bool) (k : Stack) : Prop :=
  match object with
  | some thread => Living n returned thread k
  | none => Gone returned k

structure Inv (s : State) : Prop where
  fresh : ∀ n, s.next ≤ n → s.object n = none
  unborn : ∀ n, s.next ≤ n → s.returned n = false
  fits : ∀ n < s.next, Fits n (s.object n) (s.returned n) (s.stack n)

theorem Inv.init : Inv State.init where
  fresh _ _ := rfl
  unborn _ _ := rfl
  fits n hn := absurd hn (Nat.not_lt_zero n)

section
variable {s s' : State} {n m : Nat} {thread : Thread} {k : Stack} {returned : Bool}

theorem Inv.lt (h : Inv s) (ho : s.object n = some thread) : n < s.next := by
  by_contra hn
  have hnone := h.fresh n (Nat.le_of_not_lt hn)
  rw [ho] at hnone
  cases hnone

theorem Inv.living (h : Inv s) (ho : s.object n = some thread) : Living n (s.returned n) thread (s.stack n) := by
  have hfits := h.fits n (h.lt ho)
  rw [ho] at hfits
  exact hfits

theorem Inv.gone (h : Inv s) (hn : n < s.next) (ho : s.object n = none) : Gone (s.returned n) (s.stack n) := by
  have hfits := h.fits n hn
  rw [ho] at hfits
  exact hfits

/-- A step that concerns one thread only. -/
theorem Inv.change (h : Inv s) (hn : n < s.next) (hnext : s'.next = s.next)
    (hothers : ∀ m, m ≠ n → s'.object m = s.object m ∧ s'.returned m = s.returned m ∧ s'.stack m = s.stack m)
    (hfits : Fits n (s'.object n) (s'.returned n) (s'.stack n)) : Inv s' where
  fresh m hm := by
    have hne : m ≠ n := by omega
    rw [(hothers m hne).1]
    exact h.fresh m (by omega)
  unborn m hm := by
    have hne : m ≠ n := by omega
    rw [(hothers m hne).2.1]
    exact h.unborn m (by omega)
  fits m hm := by
    by_cases hne : m = n
    · rw [hne]
      exact hfits
    · obtain ⟨hobject, hreturned, hstack⟩ := hothers m hne
      rw [hobject, hreturned, hstack]
      exact h.fits m (by omega)

/-! ## The lines of `Thread::run` -/

/-- A line that is executed raises the rank by one, up to that of the callback. -/
theorem line_rank {r : Thread × Stack} (h : line n thread k = some r) :
    k.pc.rank < 6 ∧ r.2.pc.rank = k.pc.rank + 1 := by
  unfold line at h
  split at h <;> rename_i hpc <;> cases h <;> simp [hpc, Pc.rank]

theorem line_isSome : (line n thread k).isSome = true ↔ k.pc.rank < 6 := by
  unfold line
  cases hpc : k.pc <;> simp [Pc.rank]

theorem Living.line {r : Thread × Stack} (h : Living n returned thread k) (hline : line n thread k = some r) :
    Living n returned r.1 r.2 := by
  obtain ⟨hrank, -⟩ := line_rank hline
  -- the thread has not notified yet, so its constructor is in its wait
  have hreturned : returned = false := by
    cases returned with
    | false => rfl
    | true => exact absurd (h.notified rfl) (by omega)
  subst hreturned
  obtain ⟨hid, hcb, htaken, hcalled, hname, hsemaphore, hnotified, hdetached, hjoined⟩ := h
  have hsystem : thread.m_thread = some n ∧ k.joined = false := by
    rcases hjoined with hjoined | ⟨-, -, -, hfalse⟩
    · exact hjoined
    · cases hfalse
  unfold Threads.line at hline
  split at hline <;> rename_i hpc <;> cases hline <;>
    simp only [hpc, Pc.rank] at hid hcb htaken hcalled hname hsemaphore <;> constructor <;> simp_all [Pc.rank]

theorem Gone.line {r : Thread × Stack} (h : Gone returned k)
    (hline : line n { m_cb := none, m_name := [] } k = some r) :
    Gone returned r.2 := by
  obtain ⟨hrank, -⟩ := line_rank hline
  have hreturned : returned = false := by
    cases returned with
    | false => rfl
    | true => exact absurd (h.notified rfl).1 (by omega)
  subst hreturned
  obtain ⟨-, hcalled, -, hthrown, htaken⟩ := h
  unfold Threads.line at hline
  split at hline <;> rename_i hpc <;> cases hline <;> simp only [hpc, Pc.rank] at hcalled <;>
    constructor <;> simp_all [Pc.rank]

/-! ## One step -/

theorem Inv.put (h : Inv s) (hn : n < s.next) {object : Option Thread} (hfits : Fits n object (s.returned n) k) :
    Inv (s.put n object k) := by
  apply h.change hn
  · rfl
  · intro m hm
    simp [State.put, hm]
  · simpa [State.put] using hfits

theorem Inv.constructed (h : Inv s) (cb : Nat) (name : List UInt8) :
    Inv { s.put s.next (some { m_thread := some s.next, m_cb := some cb, m_name := name }) (Stack.new cb) with
      next := s.next + 1 } where
  fresh m hm := by
    have hlt : s.next < m := hm
    have hne : m ≠ s.next := by omega
    simpa [State.put, hne] using h.fresh m (by omega)
  unborn m hm := by
    have hlt : s.next < m := hm
    exact h.unborn m (by omega)
  fits m hm := by
    have hle : m < s.next + 1 := hm
    by_cases hne : m = s.next
    · have hreturned := h.unborn s.next (Nat.le_refl _)
      subst hne
      simp only [State.put, Function.update_self, hreturned, Fits]
      constructor <;> simp [Stack.new, Pc.rank]
    · simpa [State.put, hne] using h.fits m (by omega)

theorem Living.held (h : Living n returned thread k) : k.cb = none ∨ k.cb = some k.given := by
  rw [h.taken]
  split
  · exact .inr rfl
  · exact .inl rfl

theorem Living.whole (h : Living n true thread k) : 6 ≤ k.pc.rank ∧ k.cb = some k.given := by
  have hrank := h.notified rfl
  exact ⟨hrank, by rw [h.taken, if_pos (by omega)]⟩

/-- The wait of the constructor returns. -/
theorem Living.waited (h : Living n false thread k) (hsemaphore : thread.m_semaphore ≠ 0) :
    Living n true { thread with m_semaphore := thread.m_semaphore - 1 } k := by
  have hnotified : 6 ≤ k.pc.rank := by
    by_contra hlt
    rw [h.semaphore, if_neg (fun hboth => hlt hboth.1)] at hsemaphore
    exact hsemaphore rfl
  have hone : thread.m_semaphore = 1 := by rw [h.semaphore, if_pos ⟨hnotified, rfl⟩]
  exact
    { id := h.id, cb := h.cb, taken := h.taken, called := h.called, name := h.name
      semaphore := by simp [hone]
      notified := fun _ => hnotified
      detached := h.detached
      joined := by
        rcases h.joined with hjoined | ⟨-, -, -, hfalse⟩
        · exact .inl hjoined
        · cases hfalse }

/-- The wait throws. -/
theorem Living.thrown (h : Living n false thread k) : Gone false k := by
  have hjoined : k.joined = false := by
    rcases h.joined with hjoined | ⟨-, -, -, hfalse⟩
    · exact hjoined.2
    · cases hfalse
  constructor
  · intro hfalse
    cases hfalse
  · exact h.called
  · intro hfalse
    cases hfalse
  · exact fun _ => ⟨hjoined, h.detached⟩
  · exact h.held

theorem Living.setName (h : Living n returned thread k) (name : List UInt8) :
    Living n returned { thread with m_name := name } { k with t_thread_name := name } :=
  { id := h.id, cb := h.cb, taken := h.taken, called := h.called, name := fun _ => rfl, semaphore := h.semaphore
    notified := h.notified, detached := h.detached, joined := h.joined }

theorem Gone.setName (h : Gone returned k) (name : List UInt8) : Gone returned { k with t_thread_name := name } :=
  { notified := h.notified, called := h.called, cleaned := h.cleaned, thrown := h.thrown, taken := h.taken }

theorem Living.call (h : Living n returned thread k) (hpc : k.pc = .notified) {cb : Nat} (hcb : k.cb = some cb) :
    Living n returned thread { k with pc := .running, called := k.called ++ [cb] } := by
  obtain ⟨hid, hcbNone, htaken, hcalled, hname, hsemaphore, hnotified, hdetached, hjoined⟩ := h
  simp only [hpc, Pc.rank] at hid hcbNone htaken hcalled hname hsemaphore
  constructor <;> simp_all [Pc.rank]

theorem Gone.call (h : Gone returned k) (hpc : k.pc = .notified) {cb : Nat} (hcb : k.cb = some cb) :
    Gone returned { k with pc := .running, called := k.called ++ [cb] } := by
  obtain ⟨hnotified, hcalled, hcleaned, hthrown, htaken⟩ := h
  simp only [hpc, Pc.rank] at hnotified hcalled hcleaned
  constructor <;> simp_all [Pc.rank]

/-- The callback returns. -/
theorem Living.finish (h : Living n returned thread k) (hpc : k.pc = .running) :
    Living n returned thread { k with pc := .ended } := by
  obtain ⟨hid, hcb, htaken, hcalled, hname, hsemaphore, hnotified, hdetached, hjoined⟩ := h
  simp only [hpc, Pc.rank] at hid hcb htaken hcalled hname hsemaphore
  constructor <;> simp_all [Pc.rank]

theorem Gone.finish (h : Gone returned k) (hpc : k.pc = .running) : Gone returned { k with pc := .ended } := by
  obtain ⟨hnotified, hcalled, hcleaned, hthrown, htaken⟩ := h
  simp only [hpc, Pc.rank] at hnotified hcalled
  constructor <;> simp_all [Pc.rank]

theorem Living.join (h : Living n true thread k) (hpc : k.pc = .ended) :
    Living n true { thread with m_thread := none } { k with joined := true } :=
  { id := h.id, cb := h.cb, taken := h.taken, called := h.called, name := h.name, semaphore := h.semaphore
    notified := h.notified, detached := h.detached, joined := .inr ⟨rfl, rfl, hpc, rfl⟩ }

/-- The destructor of an object that was joined. -/
theorem Living.destroyed (h : Living n true thread k) (hthread : thread.m_thread = none) : Gone true k := by
  have hjoined : k.joined = true ∧ k.pc = .ended := by
    rcases h.joined with ⟨hsome, -⟩ | ⟨-, hjoined, hpc, -⟩
    · rw [hthread] at hsome
      cases hsome
    · exact ⟨hjoined, hpc⟩
  constructor
  · exact fun _ => h.whole
  · exact h.called
  · exact fun _ => .inl ⟨hjoined.1, h.detached, hjoined.2⟩
  · intro hfalse
    cases hfalse
  · exact h.held

/-- The destructor of an object that was not joined. -/
theorem Living.detach (h : Living n true thread k) (hthread : thread.m_thread ≠ none) :
    Gone true { k with detached := true } := by
  have hjoined : k.joined = false := by
    rcases h.joined with ⟨-, hjoined⟩ | ⟨hnone, -⟩
    · exact hjoined
    · exact absurd hnone hthread
  constructor
  · exact fun _ => h.whole
  · exact h.called
  · exact fun _ => .inr ⟨hjoined, rfl⟩
  · intro hfalse
    cases hfalse
  · exact h.held

/-- An object that has not been joined is that of its own thread. -/
theorem Inv.own (h : Inv s) (ho : s.object n = some thread) (hthread : thread.m_thread = some m) : m = n := by
  rcases (h.living ho).joined with ⟨hsome, -⟩ | ⟨hnone, -⟩
  · rw [hthread] at hsome
    exact Option.some.inj hsome
  · rw [hthread] at hnone
    cases hnone

/-- The flag is the only thing else. -/
theorem Inv.flag (h : Inv s) (dangling : Bool) : Inv { s with dangling := dangling } := ⟨h.fresh, h.unborn, h.fits⟩

theorem Inv.wait (h : Inv s) {interrupted : Bool} (heq : step s (.wait n interrupted) = some s') : Inv s' := by
  simp only [step] at heq
  split at heq
  · rename_i thread ho
    have hliving := h.living ho
    split at heq
    · cases heq
    · rename_i hreturned
      rw [Bool.not_eq_true] at hreturned
      rw [hreturned] at hliving
      split at heq
      · split at heq
        · cases heq
          apply h.put (h.lt ho)
          rw [hreturned]
          exact hliving.thrown
        · cases heq
      · rename_i hsemaphore
        split at heq
        · cases heq
        · cases heq
          apply h.change (h.lt ho)
          · rfl
          · intro m hm
            simp [State.put, hm]
          · simpa [State.put, Fits] using hliving.waited hsemaphore
  · cases heq

theorem Inv.line (h : Inv s) (heq : step s (.line n) = some s') : Inv s' := by
  simp only [step] at heq
  split at heq
  · rename_i hn
    split at heq
    · rename_i thread ho
      obtain ⟨r, hr, rfl⟩ := Option.map_eq_some_iff.mp heq
      exact h.put hn ((h.living ho).line hr)
    · rename_i ho
      obtain ⟨r, hr, rfl⟩ := Option.map_eq_some_iff.mp heq
      have hgone : Fits n none (s.returned n) r.2 := (h.gone hn ho).line hr
      exact (h.put hn hgone).flag _
  · cases heq

theorem Inv.call (h : Inv s) (heq : step s (.call n) = some s') : Inv s' := by
  simp only [step] at heq
  split at heq
  · rename_i hnotified
    obtain ⟨hn, hpc⟩ := hnotified
    split at heq
    · rename_i cb hcb
      cases heq
      apply h.put hn
      cases ho : s.object n with
      | some thread => exact (h.living ho).call hpc hcb
      | none => exact (h.gone hn ho).call hpc hcb
    · cases heq
  · cases heq

theorem Inv.setName (h : Inv s) {name : List UInt8} (heq : step s (.setName n name) = some s') : Inv s' := by
  simp only [step] at heq
  split at heq
  · rename_i hrunning
    split at heq
    · cases heq
      exact h
    · split at heq
      · rename_i thread ho
        cases heq
        exact h.put hrunning.1 ((h.living ho).setName name)
      · rename_i ho
        cases heq
        have hgone : Fits n none (s.returned n) { s.stack n with t_thread_name := name } :=
          (h.gone hrunning.1 ho).setName name
        exact (h.put hrunning.1 hgone).flag true
  · cases heq

theorem Inv.finish (h : Inv s) (heq : step s (.finish n) = some s') : Inv s' := by
  simp only [step] at heq
  split at heq
  · rename_i hrunning
    obtain ⟨hn, hpc⟩ := hrunning
    cases heq
    apply h.put hn
    cases ho : s.object n with
    | some thread => exact (h.living ho).finish hpc
    | none => exact (h.gone hn ho).finish hpc
  · cases heq

theorem Inv.join (h : Inv s) {caller : Option Nat} (heq : step s (.join n caller) = some s') : Inv s' := by
  simp only [step] at heq
  split at heq
  · rename_i thread ho
    split at heq
    · rename_i hreturned
      split at heq
      · cases heq
        exact h
      · rename_i m_thread hthread
        -- the thread that is joined is the object's own, so the step concerns one thread only
        have hown := h.own ho hthread
        subst hown
        have hliving := h.living ho
        rw [hreturned] at hliving
        split at heq
        · cases heq
          exact h
        · split at heq
          · rename_i hpc
            cases heq
            apply h.change (h.lt ho)
            · rfl
            · intro m hm
              simp [State.put, hm]
            · simpa [State.put, Fits, hreturned] using hliving.join hpc
          · cases heq
    · cases heq
  · cases heq

theorem Inv.destroy (h : Inv s) (heq : step s (.destroy n) = some s') : Inv s' := by
  simp only [step] at heq
  split at heq
  · rename_i thread ho
    split at heq
    · rename_i hreturned
      have hliving := h.living ho
      rw [hreturned] at hliving
      split at heq
      · rename_i hthread
        cases heq
        apply h.put (h.lt ho)
        rw [hreturned]
        exact hliving.destroyed hthread
      · rename_i m_thread hthread
        have hown := h.own ho hthread
        subst hown
        cases heq
        apply h.change (h.lt ho)
        · rfl
        · intro m hm
          simp [State.put, hm]
        · simpa [State.put, Fits, hreturned] using hliving.detach (by rw [hthread]; simp)
    · cases heq
  · cases heq

theorem Inv.step (h : Inv s) {a : Act} (heq : step s a = some s') : Inv s' := by
  cases a with
  | construct cb name created =>
    simp only [Threads.step] at heq
    split at heq
    · cases heq
      exact h.constructed cb _
    · cases heq
      exact h
  | wait n interrupted => exact h.wait heq
  | line n => exact h.line heq
  | call n => exact h.call heq
  | setName n name => exact h.setName heq
  | finish n => exact h.finish heq
  | join n caller => exact h.join heq
  | destroy n => exact h.destroy heq

/-! ## Objects that are gone -/

/-- The constructor of the `n`th object was interrupted. -/
def State.thrown (s : State) (n : Nat) : Prop := s.object n = none ∧ s.returned n = false

/-- The step uses no object that is gone. -/
def State.Proper (s : State) : Act → Prop
  | .line n => s.thrown n → (s.stack n).pc = .created
  | .setName n name => name ≠ [] → s.object n ≠ none
  | _ => True

/-- The other steps use no object that may be gone. -/
theorem step_keeps {a : Act} (hline : ∀ n, a ≠ .line n) (hname : ∀ n name, a ≠ .setName n name)
    (heq : step s a = some s') : s'.dangling = s.dangling := by
  cases a with
  | line n => exact absurd rfl (hline n)
  | setName n name => exact absurd rfl (hname n name)
  | _ =>
    simp only [step] at heq
    grind [State.put]

theorem step_dangling (h : Inv s) {a : Act} (heq : step s a = some s') :
    s'.dangling = false ↔ s.dangling = false ∧ s.Proper a := by
  cases a with
  | line n =>
    simp only [step] at heq
    split at heq
    · rename_i hn
      split at heq
      · rename_i thread ho
        obtain ⟨r, -, rfl⟩ := Option.map_eq_some_iff.mp heq
        simp [State.put, State.Proper, State.thrown, ho]
      · rename_i ho
        obtain ⟨r, hr, rfl⟩ := Option.map_eq_some_iff.mp heq
        -- a constructor that has returned leaves a thread that has no lines before it
        have hthrown : s.thrown n := by
          refine ⟨ho, ?_⟩
          by_contra hreturned
          rw [Bool.not_eq_false] at hreturned
          have hnotified := ((h.gone hn ho).notified hreturned).1
          have hearly := (line_rank hr).1
          omega
        simp [State.Proper, hthrown]
    · cases heq
  | setName n name =>
    simp only [step] at heq
    split at heq
    · split at heq
      · rename_i hname
        cases heq
        simp [State.Proper, hname]
      · rename_i hname
        split at heq
        · rename_i thread ho
          cases heq
          simp [State.put, State.Proper, ho]
        · rename_i ho
          cases heq
          simp [State.Proper, ho, hname]
    · cases heq
  | construct cb name created => simp [State.Proper, step_keeps (by simp) (by simp) heq]
  | wait n interrupted => simp [State.Proper, step_keeps (by simp) (by simp) heq]
  | call n => simp [State.Proper, step_keeps (by simp) (by simp) heq]
  | finish n => simp [State.Proper, step_keeps (by simp) (by simp) heq]
  | join n caller => simp [State.Proper, step_keeps (by simp) (by simp) heq]
  | destroy n => simp [State.Proper, step_keeps (by simp) (by simp) heq]

/-! ## How far a thread is -/

theorem line_step (heq : step s (.line n) = some s') :
    n < s.next ∧ ∃ thread r, line n thread (s.stack n) = some r ∧ s'.next = s.next ∧
      s'.stack = Function.update s.stack n r.2 := by
  simp only [step] at heq
  split at heq
  · rename_i hn
    split at heq
    · rename_i thread _
      obtain ⟨r, hr, rfl⟩ := Option.map_eq_some_iff.mp heq
      exact ⟨hn, thread, r, hr, rfl, rfl⟩
    · obtain ⟨r, hr, rfl⟩ := Option.map_eq_some_iff.mp heq
      exact ⟨hn, _, r, hr, rfl, rfl⟩
  · cases heq

/-- The other steps leave a thread where it is, or come behind its notification. -/
theorem step_pc {a : Act} (hline : ∀ m, a ≠ .line m) (hn : n < s.next) (heq : step s a = some s') :
    (s'.stack n).pc = (s.stack n).pc ∨ 6 ≤ (s.stack n).pc.rank ∧ 6 ≤ (s'.stack n).pc.rank := by
  cases a with
  | line m => exact absurd rfl (hline m)
  | construct cb name created =>
    simp only [step] at heq
    split at heq
    · cases heq
      simp [State.put, Nat.ne_of_lt hn]
    · cases heq
      exact .inl rfl
  | _ =>
    simp only [step] at heq
    repeat' split at heq
    all_goals cases heq
    all_goals simp only [State.put, Function.update_apply]
    all_goals grind [Pc.rank]

/-- Only its own lines bring a thread on to its notification. -/
theorem step_rank {a : Act} (hn : n < s.next) (heq : step s a = some s') :
    min 6 (s'.stack n).pc.rank = min 6 (s.stack n).pc.rank + if a = .line n then 1 else 0 := by
  by_cases hline : ∃ m, a = .line m
  · obtain ⟨m, rfl⟩ := hline
    obtain ⟨-, thread, r, hr, -, hstack⟩ := line_step heq
    obtain ⟨hearly, hrank⟩ := line_rank hr
    rw [hstack]
    by_cases hm : m = n
    · subst hm
      rw [Function.update_self, if_pos rfl]
      omega
    · rw [Function.update_of_ne (Ne.symm hm), if_neg (by simpa using hm)]
      omega
  · rw [if_neg (fun hm => hline ⟨n, hm⟩)]
    rcases step_pc (fun m hm => hline ⟨m, hm⟩) hn heq with hpc | ⟨hbefore, hbehind⟩
    · rw [hpc, Nat.add_zero]
    · omega

structure Sound (s : State) : Prop where
  /-- What the constructor gives: the id, and a callback that the thread has taken out. -/
  constructed : ∀ n thread, s.object n = some thread → s.returned n = true →
    thread.m_id = some n ∧ thread.m_cb = none ∧ (s.stack n).cb = some (s.stack n).given
  named : ∀ n thread, s.object n = some thread → s.returned n = true → (s.stack n).t_thread_name = thread.m_name
  /-- The callback is called once and is all that is called, and a thread that has ended has called it. -/
  once : ∀ n < s.next, (s.stack n).called = if 7 ≤ (s.stack n).pc.rank then [(s.stack n).given] else []
  /-- A thread that has notified can go on to its callback, unless its constructor was interrupted before it took
  the callback. -/
  calls : ∀ n < s.next, (s.stack n).pc = .notified →
    (step s (.call n)).isSome = true ∨ s.thrown n ∧ (s.stack n).cb = none
  /-- A thread is joined when it has ended, and is not joined and detached. -/
  joined : ∀ n < s.next, (s.stack n).joined = true → (s.stack n).pc = .ended ∧ (s.stack n).detached = false
  /-- The system keeps nothing of a thread whose object has been destroyed. -/
  cleaned : ∀ n < s.next, s.object n = none → s.returned n = true →
    (s.stack n).joined = true ∨ (s.stack n).detached = true
  /-- A constructor that waits will return, or its thread goes on. -/
  waiting : ∀ n thread, s.object n = some thread → s.returned n = false →
    (step s (.wait n false)).isSome = true ∨ (step s (.line n)).isSome = true

theorem Inv.waiting (h : Inv s) (ho : s.object n = some thread) (hreturned : s.returned n = false) :
    (Threads.step s (.wait n false)).isSome = true ∨ (Threads.step s (.line n)).isSome = true := by
  have hliving := h.living ho
  by_cases hrank : 6 ≤ (s.stack n).pc.rank
  · have hone : thread.m_semaphore = 1 := by rw [hliving.semaphore, if_pos ⟨hrank, hreturned⟩]
    exact .inl (by simp [Threads.step, ho, hreturned, hone])
  · have hline : (Threads.line n thread (s.stack n)).isSome = true := line_isSome.mpr (by omega)
    exact .inr (by simpa [Threads.step, ho, h.lt ho] using hline)

theorem Inv.called (h : Inv s) (hn : n < s.next) :
    (s.stack n).called = if 7 ≤ (s.stack n).pc.rank then [(s.stack n).given] else [] := by
  cases ho : s.object n with
  | some thread => exact (h.living ho).called
  | none => exact (h.gone hn ho).called

/-- A callback that was taken is called. -/
theorem call_isSome {cb : Nat} (hn : n < s.next) (hpc : (s.stack n).pc = .notified) (hcb : (s.stack n).cb = some cb) :
    (Threads.step s (.call n)).isSome = true := by
  simp only [Threads.step, hn, hpc, hcb]
  rfl

theorem Inv.calls (h : Inv s) (hn : n < s.next) (hpc : (s.stack n).pc = .notified) :
    (Threads.step s (.call n)).isSome = true ∨ s.thrown n ∧ (s.stack n).cb = none := by
  cases ho : s.object n with
  | some thread =>
    have htaken := (h.living ho).taken
    rw [hpc, if_pos (by decide)] at htaken
    exact .inl (call_isSome hn hpc htaken)
  | none =>
    have hgone := h.gone hn ho
    cases hreturned : s.returned n with
    | true => exact .inl (call_isSome hn hpc (hgone.notified hreturned).2)
    | false =>
      rcases hgone.taken with hnone | hgiven
      · exact .inr ⟨⟨ho, hreturned⟩, hnone⟩
      · exact .inl (call_isSome hn hpc hgiven)

theorem Inv.sound (h : Inv s) : Sound s where
  constructed n thread ho hreturned := by
    have hliving := h.living ho
    have hrank := hliving.notified hreturned
    refine ⟨?_, ?_, ?_⟩
    · rw [hliving.id, if_pos (by omega)]
    · rw [hliving.cb, if_pos (by omega)]
    · rw [hliving.taken, if_pos (by omega)]
  named n thread ho hreturned := by
    have hrank := (h.living ho).notified hreturned
    exact (h.living ho).name (by omega)
  once n hn := h.called hn
  calls n hn hpc := h.calls hn hpc
  joined n hn hjoined := by
    cases ho : s.object n with
    | some thread =>
      rcases (h.living ho).joined with ⟨-, hfalse⟩ | ⟨-, -, hpc, -⟩
      · rw [hjoined] at hfalse
        cases hfalse
      · exact ⟨hpc, (h.living ho).detached⟩
    | none =>
      cases hreturned : s.returned n with
      | false =>
        have hfalse := ((h.gone hn ho).thrown hreturned).1
        rw [hjoined] at hfalse
        cases hfalse
      | true =>
        rcases (h.gone hn ho).cleaned hreturned with ⟨-, hdetached, hpc⟩ | ⟨hfalse, -⟩
        · exact ⟨hpc, hdetached⟩
        · rw [hjoined] at hfalse
          cases hfalse
  cleaned n hn ho hreturned := ((h.gone hn ho).cleaned hreturned).imp And.left And.right
  waiting n thread ho hreturned := h.waiting ho hreturned

end

/-- A constructor that is interrupted leaves a thread on its way with a pointer to nothing. -/
example : (after step [.construct 7 [] true, .line 0, .wait 0 true, .line 0] State.init).map State.dangling =
    some true := by decide

end Sylar.Threads
