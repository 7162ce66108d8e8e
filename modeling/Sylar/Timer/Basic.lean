import Mathlib.Data.List.Basic
import Mathlib.Logic.Function.Basic
import Sylar.Lib.OrderedSet

/- The timer queue of `sylar/timer.h` and `sylar/timer.cc`.

   A `Timer` object is named by its address; `heap` says what is at an address. The
   addresses the allocator gives out, and the readings of `GetCurrentMS()`, are
   arguments of the operations that use them. `m_timers` is an ordered set of
   addresses under `Timer::Comparator`, which sees the objects through `heap`.

   `cancel` erases what `find` returns without looking whether it found anything;
   erasing the end of the set is the one fault here.

   `fronts` counts the calls of `onTimerInsertedAtFront()`. `addConditionTimer` adds a
   timer whose callback tests its condition, so it is `addTimer` here. -/
namespace Sylar
open Sylar.Lib

/-- `Timer`, without the pointer to its manager. -/
structure Timer where
  recurring : Bool := false
  ms : UInt64 := 0
  next : UInt64 := 0
  cb : Option Nat := none
  deriving DecidableEq, Repr

namespace Timer

structure TimerManager where
  heap : Nat → Option Timer
  timers : List Nat
  tickled : Bool
  previousTime : UInt64
  fronts : Nat

/-- `erase(end())`. -/
inductive Fault where
  | eraseEnd
  deriving DecidableEq, Repr

/-- The object at an address. -/
def TimerManager.at (s : TimerManager) (a : Nat) : Timer := (s.heap a).getD {}

def TimerManager.put (s : TimerManager) (a : Nat) (t : Timer) : TimerManager :=
  { s with heap := Function.update s.heap a (some t) }

/-- `Timer::Comparator::operator()`, on pointers that may be null. -/
def comparator (next : Nat → UInt64) (lhs rhs : Option Nat) : Bool :=
  match lhs, rhs with
  | none, none => false
  | none, some _ => true
  | some _, none => false
  | some lhs, some rhs =>
    if next lhs < next lhs then true
    else if next lhs > next lhs then false
    else decide (lhs < rhs)

/-- The comparison of two objects in the set. -/
def TimerManager.less (s : TimerManager) (a b : Nat) : Bool :=
  comparator (fun a => (s.at a).next) (some a) (some b)

/-- `TimerManager::TimerManager()` at clock `now`. -/
def new (now : UInt64) : TimerManager where
  heap := fun _ => none
  timers := []
  tickled := false
  previousTime := now
  fronts := 0

/-- `addTimer(timer, lock)`. -/
def TimerManager.addLocked (s : TimerManager) (a : Nat) : TimerManager :=
  let timers := OrderedSet.insert s.less a s.timers
  let at_front := timers.head? = some a ∧ s.tickled = false
  { s with
    timers := timers
    tickled := if at_front then true else s.tickled
    fronts := if at_front then s.fronts + 1 else s.fronts }

/-- `addTimer(ms, cb, recurring)` with the new object at `a`. -/
def TimerManager.addTimer (s : TimerManager) (a : Nat) (ms : UInt64) (cb : Option Nat) (recurring : Bool)
    (now : UInt64) : TimerManager :=
  (s.put a { recurring := recurring, ms := ms, next := now + ms, cb := cb }).addLocked a

def TimerManager.cancel (s : TimerManager) (a : Nat) : Except Fault (Bool × TimerManager) :=
  if (s.at a).cb.isSome then
    match OrderedSet.find s.less a s.timers with
    | some it => .ok (true, { s with timers := s.timers.eraseIdx it })
    | none => .error .eraseEnd
  else .ok (false, s)

def TimerManager.refresh (s : TimerManager) (a : Nat) (now : UInt64) : Bool × TimerManager :=
  if (s.at a).cb.isNone then (false, s)
  else
    match OrderedSet.find s.less a s.timers with
    | none => (false, s)
    | some it =>
      let s := { s with timers := s.timers.eraseIdx it }
      let s := s.put a { s.at a with next := now + (s.at a).ms }
      (true, { s with timers := OrderedSet.insert s.less a s.timers })

def TimerManager.reset (s : TimerManager) (a : Nat) (ms : UInt64) (from_now : Bool) (now : UInt64) :
    Bool × TimerManager :=
  if ms = (s.at a).ms ∧ from_now = false then (true, s)
  else if (s.at a).cb.isNone then (false, s)
  else
    match OrderedSet.find s.less a s.timers with
    | none => (false, s)
    | some it =>
      let s := { s with timers := s.timers.eraseIdx it }
      let start := if from_now then now else (s.at a).next - (s.at a).ms
      let s := s.put a { s.at a with ms := ms, next := start + ms }
      (true, s.addLocked a)

/-- `~0ull`. -/
def noTimer : UInt64 := 0xFFFFFFFFFFFFFFFF

def TimerManager.getNextTimer (s : TimerManager) (now_ms : UInt64) : UInt64 × TimerManager :=
  let s := { s with tickled := false }
  match s.timers with
  | [] => (noTimer, s)
  | next :: _ =>
    if now_ms > (s.at next).next then (0, s)
    else ((s.at next).next - now_ms, s)

def TimerManager.detectClockRollover (s : TimerManager) (now_ms : UInt64) : Bool × TimerManager :=
  let rollover := now_ms < s.previousTime ∧ now_ms < s.previousTime - 60 * 60 * 1000
  (decide rollover, { s with previousTime := now_ms })

/-- The last loop of `listExpiredCb`, for one expired timer: its callback, and the queue. -/
def TimerManager.expire (now_ms : UInt64) (s : TimerManager) (a : Nat) : Option Nat × TimerManager :=
  let timer := s.at a
  if timer.recurring then
    let s := s.put a { timer with next := now_ms + timer.ms }
    (timer.cb, { s with timers := OrderedSet.insert s.less a s.timers })
  else (timer.cb, s.put a { timer with cb := none })

def TimerManager.expireAll (now_ms : UInt64) : TimerManager → List Nat → List (Option Nat) × TimerManager
  | s, [] => ([], s)
  | s, a :: rest =>
    let (cb, s) := s.expire now_ms a
    let (cbs, s) := s.expireAll now_ms rest
    (cb :: cbs, s)

/-- How far `listExpiredCb` erases: the lower bound of a timer for `now_ms` at the address
`tmp`, then on over the timers for exactly `now_ms`. -/
def TimerManager.expiredCount (s : TimerManager) (now_ms : UInt64) (tmp : Nat) (rollover : Bool) : Nat :=
  let s := s.put tmp { next := now_ms }
  let it := if rollover then s.timers.length else OrderedSet.lowerBound s.less tmp s.timers
  it + ((s.timers.drop it).takeWhile fun a => (s.at a).next = now_ms).length

/-- `listExpiredCb`: the callbacks appended, with the address of its temporary timer. -/
def TimerManager.listExpiredCb (s : TimerManager) (now_ms : UInt64) (tmp : Nat) :
    List (Option Nat) × TimerManager :=
  match s.timers with
  | [] => ([], s)
  | first :: _ =>
    let (rollover, s) := s.detectClockRollover now_ms
    if rollover = false ∧ (s.at first).next > now_ms then ([], s)
    else
      let it := s.expiredCount now_ms tmp rollover
      let expired := s.timers.take it
      TimerManager.expireAll now_ms { s with timers := s.timers.drop it } expired

end Timer

end Sylar
