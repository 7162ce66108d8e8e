import Mathlib.Data.List.Basic
import Mathlib.Logic.Function.Basic

/- The event registrations of `sylar/iomanager.cc`.

   `heap` holds every `FdContext` ever allocated, and a pointer to one is its
   index there: `m_fdContexts` and the `data.ptr` of the kernel's registrations
   are such pointers. A context that leaves the table when the table is made
   shorter is not freed, as in the source.

   The kernel is a map from a descriptor to what is registered for it.
   `epoll_ctl` refuses to add what is there and to modify or delete what is not
   (`EEXIST`, `ENOENT`); beyond that each call is given, as `fails`, whether the
   kernel refuses it for a reason of its own. A refused call is logged, which is
   what `errors` records.

   `scheduler->schedule(...)` is an entry of `scheduled`. The caller of `addEvent`
   is its `Scheduler::GetThis()` and its `Fiber::GetThis()`; that fiber is the one
   that runs, so the assertion on its state holds and is left out.

   Each function below is one of the source, in the order of the source; the part
   of `addEvent` under the fd's mutex is `addLocked`, and the body of the loop of
   `idle` over the events of one `epoll_wait` is `dispatch`. The test for the
   tickle descriptor in that loop is left out: such an event touches no context. -/
namespace Sylar.IOManager

/-! ## Data -/

/-- `IOManager::Event` without `NONE`. -/
inductive Event where
  | READ
  | WRITE
  deriving DecidableEq, Repr

def NONE : BitVec 32 := 0x0

def Event.bit : Event → BitVec 32
  | .READ => 0x1
  | .WRITE => 0x4

/-- `mask & event`. -/
def Has (mask : BitVec 32) (event : Event) : Prop := mask &&& event.bit ≠ 0

instance (mask : BitVec 32) (event : Event) : Decidable (Has mask event) :=
  inferInstanceAs (Decidable (_ ≠ _))

def EPOLLIN : BitVec 32 := 0x1
def EPOLLOUT : BitVec 32 := 0x4
def EPOLLERR : BitVec 32 := 0x8
def EPOLLHUP : BitVec 32 := 0x10
def EPOLLET : BitVec 32 := 0x80000000

/-- `FdContext::EventContext`. Schedulers, fibers and callbacks are names. -/
structure EventContext where
  scheduler : Option Nat := none
  fiber : Option Nat := none
  cb : Option Nat := none
  deriving DecidableEq, Repr

structure FdContext where
  read : EventContext := {}
  write : EventContext := {}
  fd : Int := 0
  events : BitVec 32 := NONE
  deriving DecidableEq, Repr

inductive CtlOp where
  | EPOLL_CTL_ADD
  | EPOLL_CTL_MOD
  | EPOLL_CTL_DEL
  deriving DecidableEq, Repr

/-- `epoll_event`: what the kernel keeps for a descriptor. -/
structure EpollEvent where
  events : BitVec 32
  ptr : Nat
  deriving DecidableEq, Repr

/-- What `Scheduler::schedule` is called with. -/
inductive Task where
  | cb (name : Nat)
  | fiber (name : Nat)
  deriving DecidableEq, Repr

structure Caller where
  scheduler : Option Nat
  fiber : Nat
  deriving DecidableEq, Repr

/-- How a call ends the program: a failed `SYLAR_ASSERT`, a call through a null
scheduler, or an index or a size outside the table. -/
inductive Fault where
  /-- `SYLAR_ASSERT(!(fd_ctx->events & event))` in `addEvent`. -/
  | addedTwice
  /-- `SYLAR_ASSERT(!event_ctx.scheduler && ...)` in `addEvent`. -/
  | contextInUse
  /-- `SYLAR_ASSERT(events & event)` in `triggerEvent`. -/
  | notRegistered
  | nullScheduler
  /-- `SYLAR_ASSERT(fd_ctx->events == 0)` in `cancelAll`. -/
  | eventsLeft
  | outOfRange
  deriving DecidableEq, Repr

structure State where
  heap : List FdContext
  fdContexts : List Nat
  pendingEventCount : BitVec 64
  kernel : Int → Option EpollEvent
  scheduled : List (Nat × Task)
  errors : List (CtlOp × Int × BitVec 32)

/-- The context behind a pointer. -/
def State.context (s : State) (p : Nat) : FdContext := (s.heap[p]?).getD {}

def State.setContext (s : State) (p : Nat) (c : FdContext) : State :=
  { s with heap := s.heap.set p c }

def State.schedule (s : State) (scheduler : Nat) (task : Option Task) : State :=
  { s with scheduled := s.scheduled ++ (task.map (scheduler, ·)).toList }

def State.incPending (s : State) : State := { s with pendingEventCount := s.pendingEventCount + 1 }

def State.decPending (s : State) : State := { s with pendingEventCount := s.pendingEventCount - 1 }

def State.register (s : State) (fd : Int) (r : Option EpollEvent) : State :=
  { s with kernel := Function.update s.kernel fd r }

/-! ## The kernel -/

def epollCtl (op : CtlOp) (fd : Int) (event : EpollEvent) (fails : Bool) (s : State) : Option State :=
  match fails, op, s.kernel fd with
  | false, .EPOLL_CTL_ADD, none => some (s.register fd (some event))
  | false, .EPOLL_CTL_MOD, some _ => some (s.register fd (some event))
  | false, .EPOLL_CTL_DEL, some _ => some (s.register fd none)
  | _, _, _ => none

def State.logError (s : State) (op : CtlOp) (fd : Int) (event : EpollEvent) : State :=
  { s with errors := s.errors ++ [(op, fd, event.events)] }

/-! ## The table -/

/-- A `size_t` converted to `int`. -/
def toInt (n : Nat) : Int := (BitVec.ofNat 32 n).toInt

/-- `count` new contexts for the indices from `i` on. -/
def newContexts (i count : Nat) : List FdContext :=
  (List.range count).map fun j => { fd := toInt (i + j) }

/-- `IOManager::contextResize`. -/
def contextResize (size : Nat) (s : State) : State :=
  let kept := s.fdContexts.take size
  let missing := size - kept.length
  { s with
    heap := s.heap ++ newContexts kept.length missing
    fdContexts := kept ++ List.range' s.heap.length missing }

/-- What the constructor leaves. -/
def init : State :=
  contextResize 32
    { heap := [], fdContexts := [], pendingEventCount := 0, kernel := fun _ => none,
      scheduled := [], errors := [] }

/-- `m_fdContexts[fd]`. -/
def entry (fd : Int) (s : State) : Except Fault Nat :=
  if 0 ≤ fd then
    match s.fdContexts[fd.toNat]? with
    | some p => .ok p
    | none => .error .outOfRange
  else .error .outOfRange

/-- The read-locked half of the lookup in `addEvent`: `none` when the table is too short. -/
def findContext (fd : Int) (s : State) : Except Fault (Option Nat) :=
  if toInt s.fdContexts.length > fd then some <$> entry fd s else .ok none

/-- The write-locked half: `contextResize(fd * 1.5)`. A negative product has no `size_t`. -/
def growContexts (fd : Int) (s : State) : Except Fault (Nat × State) :=
  if fd < 0 then .error .outOfRange
  else do
    let s := contextResize (fd.toNat * 3 / 2) s
    let p ← entry fd s
    return (p, s)

/-! ## Contexts -/

def FdContext.getEventContext (c : FdContext) : Event → EventContext
  | .READ => c.read
  | .WRITE => c.write

def FdContext.setEventContext (c : FdContext) (event : Event) (ctx : EventContext) : FdContext :=
  match event with
  | .READ => { c with read := ctx }
  | .WRITE => { c with write := ctx }

def FdContext.resetEventContext (c : FdContext) (event : Event) : FdContext :=
  c.setEventContext event {}

/-- The task of `ctx.cb ? schedule(ctx.cb) : schedule(ctx.fiber)`; scheduling an empty
fiber schedules nothing. -/
def EventContext.task (ctx : EventContext) : Option Task :=
  match ctx.cb with
  | some cb => some (.cb cb)
  | none => ctx.fiber.map .fiber

/-- What `triggerEvent` makes of a context: the bit cleared, then the slot reset. -/
def FdContext.clear (c : FdContext) (event : Event) : FdContext :=
  { c with events := c.events &&& ~~~event.bit }.resetEventContext event

/-- `FdContext::triggerEvent`. -/
def triggerEvent (p : Nat) (event : Event) (s : State) : Except Fault State :=
  let c := s.context p
  if ¬ Has c.events event then .error .notRegistered
  else
    let ctx := c.getEventContext event
    match ctx.scheduler with
    | none => .error .nullScheduler
    | some scheduler => .ok ((s.schedule scheduler ctx.task).setContext p (c.clear event))

/-! ## Operations -/

/-- What `addEvent` puts into the slot: the callback, or the calling fiber. -/
def Caller.fill (caller : Caller) (cb : Option Nat) : EventContext :=
  match cb with
  | some cb => { scheduler := caller.scheduler, cb := some cb }
  | none => { scheduler := caller.scheduler, fiber := some caller.fiber }

/-- What `addEvent` makes of a context: the bit set, then the slot filled. -/
def FdContext.arm (c : FdContext) (event : Event) (ctx : EventContext) : FdContext :=
  { c with events := c.events ||| event.bit }.setEventContext event ctx

/-- `addEvent` once it has the context: 0 on success, -1 when `epoll_ctl` fails. -/
def addLocked (p : Nat) (fd : Int) (event : Event) (cb : Option Nat) (caller : Caller)
    (fails : Bool) (s : State) : Except Fault (Int × State) :=
  let c := s.context p
  if Has c.events event then .error .addedTwice
  else
    let op := if c.events ≠ 0 then CtlOp.EPOLL_CTL_MOD else CtlOp.EPOLL_CTL_ADD
    let epevent := { events := EPOLLET ||| c.events ||| event.bit, ptr := p }
    match epollCtl op fd epevent fails s with
    | none => .ok (-1, s.logError op fd epevent)
    | some s =>
      if c.getEventContext event ≠ {} then .error .contextInUse
      else .ok (0, s.incPending.setContext p (c.arm event (caller.fill cb)))

def addEvent (fd : Int) (event : Event) (cb : Option Nat) (caller : Caller) (fails : Bool)
    (s : State) : Except Fault (Int × State) := do
  match ← findContext fd s with
  | some p => addLocked p fd event cb caller fails s
  | none =>
    let (p, s) ← growContexts fd s
    addLocked p fd event cb caller fails s

/-- `delEvent` once it has the context. It does not store `new_events`. -/
def delLocked (p : Nat) (fd : Int) (event : Event) (fails : Bool) (s : State) :
    Except Fault (Bool × State) :=
  let c := s.context p
  if ¬ Has c.events event then .ok (false, s)
  else
    let new_events := c.events &&& ~~~event.bit
    let op := if new_events ≠ 0 then CtlOp.EPOLL_CTL_MOD else CtlOp.EPOLL_CTL_DEL
    let epevent := { events := EPOLLET ||| new_events, ptr := p }
    match epollCtl op fd epevent fails s with
    | none => .ok (false, s.logError op fd epevent)
    | some s => .ok (true, s.decPending.setContext p (c.resetEventContext event))

/-- `cancelEvent` once it has the context. -/
def cancelLocked (p : Nat) (fd : Int) (event : Event) (fails : Bool) (s : State) :
    Except Fault (Bool × State) :=
  let c := s.context p
  if ¬ Has c.events event then .ok (false, s)
  else
    let new_events := c.events &&& ~~~event.bit
    let op := if new_events ≠ 0 then CtlOp.EPOLL_CTL_MOD else CtlOp.EPOLL_CTL_DEL
    let epevent := { events := EPOLLET ||| new_events, ptr := p }
    match epollCtl op fd epevent fails s with
    | none => .ok (false, s.logError op fd epevent)
    | some s => do
      let s ← triggerEvent p event s
      return (true, s.decPending)

/-- `if (mask & event) { triggerEvent(event); --m_pendingEventCount; }`. -/
def triggerIf (mask : BitVec 32) (p : Nat) (event : Event) (s : State) : Except Fault State :=
  if Has mask event then do
    let s ← triggerEvent p event s
    return s.decPending
  else .ok s

/-- `cancelAll` once it has the context: the second test reads the events the first
trigger left. -/
def cancelAllLocked (p : Nat) (fd : Int) (fails : Bool) (s : State) : Except Fault (Bool × State) :=
  let c := s.context p
  if c.events = 0 then .ok (false, s)
  else
    let epevent := { events := 0, ptr := p }
    match epollCtl .EPOLL_CTL_DEL fd epevent fails s with
    | none => .ok (false, s.logError .EPOLL_CTL_DEL fd epevent)
    | some s => do
      let s ← triggerIf (s.context p).events p .READ s
      let s ← triggerIf (s.context p).events p .WRITE s
      if (s.context p).events ≠ 0 then .error .eventsLeft
      else return (true, s)

/-- The lookup of `delEvent`, `cancelEvent` and `cancelAll`, which return false for a
descriptor the table does not have. -/
def withContext (fd : Int) (body : Nat → State → Except Fault (Bool × State)) (s : State) :
    Except Fault (Bool × State) :=
  if toInt s.fdContexts.length ≤ fd then .ok (false, s)
  else do
    let p ← entry fd s
    body p s

def delEvent (fd : Int) (event : Event) (fails : Bool) (s : State) : Except Fault (Bool × State) :=
  withContext fd (fun p => delLocked p fd event fails) s

def cancelEvent (fd : Int) (event : Event) (fails : Bool) (s : State) :
    Except Fault (Bool × State) :=
  withContext fd (fun p => cancelLocked p fd event fails) s

def cancelAll (fd : Int) (fails : Bool) (s : State) : Except Fault (Bool × State) :=
  withContext fd (fun p => cancelAllLocked p fd fails) s

/-- An error or a hang-up counts as every event registered. -/
def widen (mask events : BitVec 32) : BitVec 32 :=
  if mask &&& (EPOLLERR ||| EPOLLHUP) ≠ 0 then mask ||| ((EPOLLIN ||| EPOLLOUT) &&& events)
  else mask

/-- `real_events` of a reported `mask` on a context with `events`. -/
def realEvents (mask events : BitVec 32) : BitVec 32 :=
  (if widen mask events &&& EPOLLIN ≠ 0 then Event.READ.bit else NONE) |||
    (if widen mask events &&& EPOLLOUT ≠ 0 then Event.WRITE.bit else NONE)

/-- The body of the loop of `idle` over reported events, for one of them. -/
def dispatch (p : Nat) (mask : BitVec 32) (fails : Bool) (s : State) : Except Fault State :=
  let c := s.context p
  let real_events := realEvents mask c.events
  if c.events &&& real_events = NONE then .ok s
  else
    let left_events := c.events &&& ~~~real_events
    let op := if left_events ≠ 0 then CtlOp.EPOLL_CTL_MOD else CtlOp.EPOLL_CTL_DEL
    let event := { events := EPOLLET ||| left_events, ptr := p }
    match epollCtl op c.fd event fails s with
    | none => .ok (s.logError op c.fd event)
    | some s => do
      let s ← triggerIf real_events p .READ s
      triggerIf real_events p .WRITE s

end Sylar.IOManager
