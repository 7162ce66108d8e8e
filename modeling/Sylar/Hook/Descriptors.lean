import Mathlib.Data.List.Basic
import Mathlib.Algebra.Order.Ring.Nat
import Sylar.Lib.Machine
import Sylar.Hook.Fd
import Sylar.Hook.FdTable
import Sylar.IOManager.Basic
import Sylar.IOManager.Coupling
import Sylar.IOManager.Table

/- How descriptors index `m_datas` of `sylar/fdmanager.cc` and `m_fdContexts` of
   `sylar/iomanager.cc`, for every `int` and any threads at any time.

   Each operation compares the descriptor with the size read as an `int`, on one side
   only: a negative one passes and indexes in front of the table. `FdManager::get` alone
   tests for -1. The two operations that make room, `get` with `auto_create` and
   `addEvent`, resize to `fd * 1.5`, which is not enough for 0 and 1; they get there only
   when the size as an `int` is no larger than those, that is when it has wrapped.

   A call is cut where it lets go of its lock. An index outside the table, or a size
   from a negative product, is `Fault.outOfRange`. `indexes_inside` says at each step
   when that happens, and that it never does as long as the descriptors are those the
   kernel gives out, up to the largest one whose room an `int` can measure. -/
namespace Sylar.Hook
open Sylar.IOManager (Fault Event Caller State toInt toInt_of_lt)

/-! ## Model -/

/-- What is done with a context once it is found. -/
inductive EventOp where
  | add (event : Event) (cb : Option Nat) (caller : Caller)
  | del (event : Event)
  | cancel (event : Event)
  | cancelAll
  deriving DecidableEq, Repr

/-- The part of each operation under the context's mutex. -/
def EventOp.locked (op : EventOp) (p : Nat) (fd : Int) (fails : Bool) (io : State) : Except Fault State :=
  match op with
  | .add event cb caller => Prod.snd <$> IOManager.addLocked p fd event cb caller fails io
  | .del event => Prod.snd <$> IOManager.delLocked p fd event fails io
  | .cancel event => Prod.snd <$> IOManager.cancelLocked p fd event fails io
  | .cancelAll => Prod.snd <$> IOManager.cancelAllLocked p fd fails io

/-- Where a thread is in a call. -/
inductive TablePc where
  | idle
  /-- In `FdManager::get`, between its two locks. -/
  | create (fd : Int)
  /-- In `addEvent`, between its two locks. -/
  | grow (fd : Int) (op : EventOp)
  /-- With the context for `fd`, outside the table's lock. -/
  | locked (p : Nat) (fd : Int) (op : EventOp)
  deriving DecidableEq, Repr

structure Tables where
  datas : List (Option Nat)
  objects : List FdCtx
  io : State
  threads : Nat → TablePc

/-- What the two constructors leave. -/
def Tables.init : Tables where
  datas := List.replicate 64 none
  objects := []
  io := IOManager.init
  threads := fun _ => .idle

inductive TableAct where
  /-- The read-locked half of `FdManager::get`. -/
  | get (t : Nat) (fd : Int) (auto_create : Bool)
  /-- Its write-locked half. -/
  | create (t : Nat) (kernel : Process)
  /-- `FdManager::del`. -/
  | del (fd : Int)
  /-- The read-locked half of `addEvent`. -/
  | find (t : Nat) (fd : Int) (event : Event) (cb : Option Nat) (caller : Caller)
  /-- Its write-locked half. -/
  | grow (t : Nat)
  /-- The lookup of `delEvent`, `cancelEvent` and `cancelAll`. -/
  | lookup (t : Nat) (fd : Int) (op : EventOp)
  /-- The rest of the four operations. -/
  | finish (t : Nat) (fails : Bool)
  /-- An event that `idle` reports; it comes with the pointer. -/
  | dispatch (p : Nat) (mask : BitVec 32) (fails : Bool)

/-- `m_datas[fd]` as a place: its index. -/
def indexOf (size : Nat) (fd : Int) : Except Fault Nat :=
  if 0 ≤ fd ∧ fd.toNat < size then .ok fd.toNat else .error .outOfRange

/-- `m_datas.resize(fd * 1.5)` if the table is too short for `fd`. -/
def Tables.roomFor (s : Tables) (fd : Int) : Except Fault (List (Option Nat)) :=
  if fd ≥ toInt s.datas.length then
    if fd < 0 then .error .outOfRange else .ok (resizeDatas (fd.toNat * 3 / 2) s.datas)
  else .ok s.datas

def Tables.setPc (s : Tables) (t : Nat) (pc : TablePc) : Tables :=
  { s with threads := Function.update s.threads t pc }

/-- `FdManager::get` up to its first unlock. -/
def Tables.get (s : Tables) (t : Nat) (fd : Int) (auto_create : Bool) : Except Fault Tables :=
  if fd = -1 then .ok s
  else if toInt s.datas.length ≤ fd then
    if auto_create = false then .ok s else .ok (s.setPc t (.create fd))
  else do
    let i ← indexOf s.datas.length fd
    if (s.datas[i]?.getD none).isSome ∨ auto_create = false then return s
    else return s.setPc t (.create fd)

/-- The rest of it, for a new context. -/
def Tables.create (s : Tables) (t : Nat) (fd : Int) (kernel : Process) : Except Fault Tables := do
  let datas ← s.roomFor fd
  let i ← indexOf datas.length fd
  return { s with
    datas := datas.set i (some s.objects.length)
    objects := s.objects ++ [(FdCtx.new fd.toNat kernel).1]
    threads := Function.update s.threads t .idle }

/-- `FdManager::del`. -/
def Tables.del (s : Tables) (fd : Int) : Except Fault Tables :=
  if toInt s.datas.length ≤ fd then .ok s
  else do
    let i ← indexOf s.datas.length fd
    return { s with datas := s.datas.set i none }

/-- `addEvent` up to its first unlock. -/
def Tables.find (s : Tables) (t : Nat) (fd : Int) (op : EventOp) : Except Fault Tables := do
  match ← IOManager.findContext fd s.io with
  | some p => return s.setPc t (.locked p fd op)
  | none => return s.setPc t (.grow fd op)

/-- `contextResize(fd * 1.5)` and the index behind it. -/
def Tables.grow (s : Tables) (t : Nat) (fd : Int) (op : EventOp) : Except Fault Tables := do
  let (p, io) ← IOManager.growContexts fd s.io
  return { s with io := io, threads := Function.update s.threads t (.locked p fd op) }

/-- The lookup of the other three operations. -/
def Tables.lookup (s : Tables) (t : Nat) (fd : Int) (op : EventOp) : Except Fault Tables :=
  if toInt s.io.fdContexts.length ≤ fd then .ok s
  else do
    let p ← IOManager.entry fd s.io
    return s.setPc t (.locked p fd op)

/-- One step; `none` where the thread stands elsewhere. -/
def Tables.step (s : Tables) : TableAct → Option (Except Fault Tables)
  | .get t fd auto_create =>
    match s.threads t with
    | .idle => some (s.get t fd auto_create)
    | _ => none
  | .create t kernel =>
    match s.threads t with
    | .create fd => some (s.create t fd kernel)
    | _ => none
  | .del fd => some (s.del fd)
  | .find t fd event cb caller =>
    match s.threads t with
    | .idle => some (s.find t fd (.add event cb caller))
    | _ => none
  | .grow t =>
    match s.threads t with
    | .grow fd op => some (s.grow t fd op)
    | _ => none
  | .lookup t fd op =>
    match s.threads t with
    | .idle => some (s.lookup t fd op)
    | _ => none
  | .finish t fails =>
    match s.threads t with
    | .locked p fd op =>
      some do
        let io ← op.locked p fd fails s.io
        return { s with io := io, threads := Function.update s.threads t .idle }
    | _ => none
  | .dispatch p mask fails =>
    some do
      let io ← IOManager.dispatch p mask fails s.io
      return { s with io := io }

/-- The state a step leads to, when it does not end the program. -/
def Tables.next (s : Tables) (a : TableAct) : Option Tables := (s.step a).bind Except.toOption

/-! ## Sockets -/

/-- `Socket`, as far as its cancellations look. -/
structure Socket where
  sock : Int
  deriving DecidableEq, Repr

/-- A socket that was closed, or never opened. -/
def Socket.closed : Socket := { sock := -1 }

def Socket.cancelRead (s : Socket) (t : Nat) : TableAct := .lookup t s.sock (.cancel .READ)

def Socket.cancelWrite (s : Socket) (t : Nat) : TableAct := .lookup t s.sock (.cancel .WRITE)

def Socket.cancelAccept (s : Socket) (t : Nat) : TableAct := .lookup t s.sock (.cancel .READ)

def Socket.cancelAll (s : Socket) (t : Nat) : TableAct := .lookup t s.sock .cancelAll

/-! ## What happens under a context's mutex stays off the table -/

/-- `x` does not index the table outside its size, and leaves the table it found. -/
def OffTable {α : Type} (io : State) (table : α → State) (x : Except Fault α) : Prop :=
  x ≠ .error .outOfRange ∧ ∀ r, x = .ok r → (table r).fdContexts = io.fdContexts

section
variable {io : State} {α β : Type} {table : α → State}

theorem OffTable.ok {r : α} (h : (table r).fdContexts = io.fdContexts) : OffTable io table (.ok r) := by
  refine ⟨by simp, ?_⟩
  intro r' heq
  cases heq
  exact h

theorem OffTable.error {f : Fault} (h : f ≠ .outOfRange) : OffTable io table (.error f) := by
  refine ⟨?_, ?_⟩
  · intro heq
    cases heq
    exact h rfl
  · intro r heq
    cases heq

theorem OffTable.bind {table' : β → State} {x : Except Fault α} {f : α → Except Fault β}
    (hx : OffTable io table x)
    (hf : ∀ r, (table r).fdContexts = io.fdContexts → OffTable (table r) table' (f r)) :
    OffTable io table' (x >>= f) := by
  obtain ⟨hrange, hok⟩ := hx
  cases x with
  | error e => exact OffTable.error (fun he => hrange (congrArg Except.error he))
  | ok r =>
    obtain ⟨hrange', hok'⟩ := hf r (hok r rfl)
    refine ⟨hrange', ?_⟩
    intro r' heq
    exact (hok' r' heq).trans (hok r rfl)

theorem OffTable.map {table' : β → State} {x : Except Fault α} {f : α → β} (hx : OffTable io table x)
    (hf : ∀ r, (table' (f r)).fdContexts = (table r).fdContexts) : OffTable io table' (f <$> x) := by
  obtain ⟨hrange, hok⟩ := hx
  cases x with
  | error e => exact OffTable.error (fun he => hrange (congrArg Except.error he))
  | ok r => exact OffTable.ok ((hf r).trans (hok r rfl))

end

section
variable {io io' : State} {p : Nat} {fd : Int} {event : Event} {fails : Bool}

theorem offTable_triggerEvent : OffTable io id (IOManager.triggerEvent p event io) := by
  unfold IOManager.triggerEvent
  dsimp only
  split
  · exact OffTable.error (by simp)
  · split
    · exact OffTable.error (by simp)
    · exact OffTable.ok (by simp [State.setContext, State.schedule])

theorem offTable_triggerIf (mask : BitVec 32) : OffTable io id (IOManager.triggerIf mask p event io) := by
  unfold IOManager.triggerIf
  split
  · refine OffTable.bind offTable_triggerEvent ?_
    intro r _
    exact OffTable.ok (by simp [State.decPending])
  · exact OffTable.ok (by simp)

/-- A call of `epoll_ctl` between what comes before and after. -/
theorem OffTable.closed {α : Type} {table : α → State} {op : IOManager.CtlOp} {ev : IOManager.EpollEvent}
    {refused : α} {f : State → Except Fault α} (hrefused : (table refused).fdContexts = io.fdContexts)
    (hf : ∀ s, s.fdContexts = io.fdContexts → OffTable s table (f s)) :
    OffTable io table (match IOManager.epollCtl op fd ev fails io with
      | none => .ok refused
      | some s => f s) := by
  split
  · exact OffTable.ok hrefused
  · next s hctl =>
    have htable := (IOManager.sameTable_epollCtl hctl).table
    obtain ⟨hrange, hok⟩ := hf s htable
    refine ⟨hrange, ?_⟩
    intro r heq
    exact (hok r heq).trans htable

theorem offTable_addLocked (cb : Option Nat) (caller : Caller) :
    OffTable io Prod.snd (IOManager.addLocked p fd event cb caller fails io) := by
  unfold IOManager.addLocked
  dsimp only
  split
  · exact OffTable.error (by simp)
  · refine OffTable.closed (by simp [State.logError]) ?_
    intro s _
    split
    · exact OffTable.error (by simp)
    · exact OffTable.ok (by simp [State.setContext, State.incPending])

theorem offTable_delLocked : OffTable io Prod.snd (IOManager.delLocked p fd event fails io) := by
  unfold IOManager.delLocked
  dsimp only
  split
  · exact OffTable.ok (by simp)
  · refine OffTable.closed (by simp [State.logError]) ?_
    intro s _
    exact OffTable.ok (by simp [State.setContext, State.decPending])

theorem offTable_cancelLocked : OffTable io Prod.snd (IOManager.cancelLocked p fd event fails io) := by
  unfold IOManager.cancelLocked
  dsimp only
  split
  · exact OffTable.ok (by simp)
  · refine OffTable.closed (by simp [State.logError]) ?_
    intro s _
    refine OffTable.bind offTable_triggerEvent ?_
    intro r _
    exact OffTable.ok (by simp [State.decPending])

theorem offTable_cancelAllLocked : OffTable io Prod.snd (IOManager.cancelAllLocked p fd fails io) := by
  unfold IOManager.cancelAllLocked
  dsimp only
  split
  · exact OffTable.ok (by simp)
  · refine OffTable.closed (by simp [State.logError]) ?_
    intro s _
    refine OffTable.bind (offTable_triggerIf _) ?_
    intro r _
    refine OffTable.bind (offTable_triggerIf _) ?_
    intro r' _
    split
    · exact OffTable.error (by simp)
    · exact OffTable.ok (by simp)

theorem offTable_dispatch (mask : BitVec 32) : OffTable io id (IOManager.dispatch p mask fails io) := by
  unfold IOManager.dispatch
  dsimp only
  split
  · exact OffTable.ok (by simp)
  · refine OffTable.closed (by simp [State.logError]) ?_
    intro s _
    refine OffTable.bind (offTable_triggerIf _) ?_
    intro r _
    exact offTable_triggerIf _

theorem offTable_locked (op : EventOp) : OffTable io id (op.locked p fd fails io) := by
  cases op with
  | add event cb caller => exact (offTable_addLocked cb caller).map (fun r => rfl)
  | del event => exact offTable_delLocked.map (fun r => rfl)
  | cancel event => exact offTable_cancelLocked.map (fun r => rfl)
  | cancelAll => exact offTable_cancelAllLocked.map (fun r => rfl)

end

/-! ## When an index is inside -/

theorem indexOf_ok {size : Nat} {fd : Int} (h : 0 ≤ fd) (hlt : fd.toNat < size) :
    indexOf size fd = .ok fd.toNat := by
  simp [indexOf, h, hlt]

theorem indexOf_error {size : Nat} {fd : Int} (h : ¬ (0 ≤ fd ∧ fd.toNat < size)) :
    indexOf size fd = .error .outOfRange := by
  simp only [indexOf, h, if_false]

theorem entry_ok {io : State} {fd : Int} (h : 0 ≤ fd) (hlt : fd.toNat < io.fdContexts.length) :
    IOManager.entry fd io = .ok io.fdContexts[fd.toNat] := by
  simp [IOManager.entry, h, List.getElem?_eq_getElem hlt]

theorem entry_error {io : State} {fd : Int} (h : ¬ (0 ≤ fd ∧ fd.toNat < io.fdContexts.length)) :
    IOManager.entry fd io = .error .outOfRange := by
  unfold IOManager.entry
  split
  · next hpos =>
    have hge : io.fdContexts.length ≤ fd.toNat := Nat.not_lt.mp fun hlt => h ⟨hpos, hlt⟩
    rw [List.getElem?_eq_none hge]
  · rfl

/-- A descriptor below the size as an `int` is inside when it is not negative. -/
theorem inside_of_lt {n : Nat} {fd : Int} (hpos : 0 ≤ fd) (hlt : fd < toInt n) : fd.toNat < n := by
  have := IOManager.toInt_le n
  omega

/-- `fd * 1.5` makes room for `fd` exactly from 2 on. -/
theorem room_iff {fd : Int} (hpos : 0 ≤ fd) : fd.toNat < fd.toNat * 3 / 2 ↔ 2 ≤ fd := by
  omega

theorem resizeDatas_length (n : Nat) (datas : List (Option Nat)) : (resizeDatas n datas).length = n := by
  simp only [resizeDatas, List.length_append, List.length_take, List.length_replicate]
  omega

/-- The condition at each step: the test of the size sends a negative descriptor away, or it
is none; and room is made for 2 and above. -/
def Indexable (s : Tables) : TableAct → Prop
  | .get t fd _ => s.threads t = .idle → fd = -1 ∨ 0 ≤ fd ∨ toInt s.datas.length ≤ fd
  | .create t _ => ∀ fd, s.threads t = .create fd → 0 ≤ fd ∧ (2 ≤ fd ∨ fd < toInt s.datas.length)
  | .del fd => 0 ≤ fd ∨ toInt s.datas.length ≤ fd
  | .find t fd _ _ _ => s.threads t = .idle → 0 ≤ fd ∨ toInt s.io.fdContexts.length ≤ fd
  | .grow t => ∀ fd op, s.threads t = .grow fd op → 2 ≤ fd
  | .lookup t fd _ => s.threads t = .idle → 0 ≤ fd ∨ toInt s.io.fdContexts.length ≤ fd
  | .finish _ _ => True
  | .dispatch _ _ _ => True

section
variable {s : Tables} {t : Nat} {fd : Int}

/-- What comes behind an index does not fail. -/
theorem bind_error_iff {α β : Type} {x : Except Fault α} {f : α → β} {e : Fault} :
    (do let a ← x; return f a : Except Fault β) = .error e ↔ x = .error e := by
  cases x with
  | error e' => simp [bind, Except.bind]
  | ok a => simp [bind, Except.bind, pure, Except.pure]

/-- A sequence that ends has a first part that ended. -/
theorem bind_eq_ok {α β : Type} {x : Except Fault α} {f : α → Except Fault β} {b : β} (h : x >>= f = .ok b) :
    ∃ a, x = .ok a ∧ f a = .ok b := by
  cases x with
  | error e => cases h
  | ok a => exact ⟨a, rfl, h⟩

/-- Below the size as an `int` only a negative descriptor is outside. -/
theorem indexOf_outOfRange_iff {size : Nat} (hlt : fd < toInt size) :
    indexOf size fd = .error .outOfRange ↔ ¬ 0 ≤ fd := by
  by_cases hpos : 0 ≤ fd
  · simp [indexOf_ok hpos (inside_of_lt hpos hlt), hpos]
  · simp [indexOf_error (fun h => hpos h.1), hpos]

theorem entry_outOfRange_iff {io : State} (hlt : fd < toInt io.fdContexts.length) :
    IOManager.entry fd io = .error .outOfRange ↔ ¬ 0 ≤ fd := by
  by_cases hpos : 0 ≤ fd
  · simp [entry_ok hpos (inside_of_lt hpos hlt), hpos]
  · simp [entry_error (fun h => hpos h.1), hpos]

theorem get_outOfRange_iff (auto_create : Bool) :
    s.get t fd auto_create = .error .outOfRange ↔
      ¬ (fd = -1 ∨ 0 ≤ fd ∨ toInt s.datas.length ≤ fd) := by
  unfold Tables.get
  by_cases hnone : fd = -1
  · simp [hnone]
  rw [if_neg hnone]
  by_cases hshort : toInt s.datas.length ≤ fd
  · rw [if_pos hshort]
    cases auto_create <;> simp [hshort]
  rw [if_neg hshort]
  by_cases hpos : 0 ≤ fd
  · rw [indexOf_ok hpos (inside_of_lt hpos (by omega))]
    simp only [bind, Except.bind]
    constructor
    · intro h
      split at h <;> cases h
    · intro h
      exact absurd (Or.inr (Or.inl hpos)) h
  · rw [indexOf_error (fun h => hpos h.1)]
    simp [bind, Except.bind, hnone, hshort]
    omega

theorem create_outOfRange_iff (kernel : Process) :
    s.create t fd kernel = .error .outOfRange ↔ ¬ (0 ≤ fd ∧ (2 ≤ fd ∨ fd < toInt s.datas.length)) := by
  unfold Tables.create Tables.roomFor
  by_cases hshort : fd ≥ toInt s.datas.length
  · rw [if_pos hshort]
    by_cases hneg : fd < 0
    · rw [if_pos hneg]
      simp [bind, Except.bind]
      omega
    · rw [if_neg hneg]
      have hroom := room_iff (Int.not_lt.mp hneg)
      by_cases hlt : fd.toNat < fd.toNat * 3 / 2
      · simp only [bind, Except.bind]
        rw [indexOf_ok (Int.not_lt.mp hneg) (by rw [resizeDatas_length]; exact hlt)]
        simp [pure, Except.pure]
        omega
      · simp only [bind, Except.bind]
        rw [indexOf_error (by rw [resizeDatas_length]; exact fun h => hlt h.2)]
        simp
        omega
  · rw [if_neg hshort]
    by_cases hneg : fd < 0
    · simp only [bind, Except.bind]
      rw [indexOf_error (by omega)]
      simp
      omega
    · simp only [bind, Except.bind]
      rw [indexOf_ok (Int.not_lt.mp hneg) (inside_of_lt (Int.not_lt.mp hneg) (by omega))]
      simp [pure, Except.pure]
      omega

theorem del_outOfRange_iff :
    s.del fd = .error .outOfRange ↔ ¬ (0 ≤ fd ∨ toInt s.datas.length ≤ fd) := by
  unfold Tables.del
  by_cases hshort : toInt s.datas.length ≤ fd
  · simp [hshort]
  · rw [if_neg hshort, bind_error_iff, indexOf_outOfRange_iff (by omega)]
    omega

theorem find_outOfRange_iff (op : EventOp) :
    s.find t fd op = .error .outOfRange ↔ ¬ (0 ≤ fd ∨ toInt s.io.fdContexts.length ≤ fd) := by
  unfold Tables.find IOManager.findContext
  by_cases hlong : toInt s.io.fdContexts.length > fd
  · rw [if_pos hlong]
    by_cases hpos : 0 ≤ fd
    · rw [entry_ok hpos (inside_of_lt hpos hlong)]
      simp [bind, Except.bind, pure, Except.pure, Functor.map, Except.map]
      omega
    · rw [entry_error (fun h => hpos h.1)]
      simp [bind, Except.bind, Functor.map, Except.map]
      omega
  · rw [if_neg hlong]
    simp [bind, Except.bind, pure, Except.pure]
    omega

theorem grow_outOfRange_iff (op : EventOp) : s.grow t fd op = .error .outOfRange ↔ ¬ 2 ≤ fd := by
  unfold Tables.grow IOManager.growContexts
  by_cases hneg : fd < 0
  · rw [if_pos hneg]
    simp [bind, Except.bind]
    omega
  · rw [if_neg hneg]
    dsimp only
    have hroom := room_iff (Int.not_lt.mp hneg)
    by_cases hlt : fd.toNat < fd.toNat * 3 / 2
    · rw [entry_ok (Int.not_lt.mp hneg) (by rw [IOManager.contextResize_length]; exact hlt)]
      simp [bind, Except.bind, pure, Except.pure]
      omega
    · rw [entry_error (by rw [IOManager.contextResize_length]; exact fun h => hlt h.2)]
      simp [bind, Except.bind]
      omega

theorem lookup_outOfRange_iff (op : EventOp) :
    s.lookup t fd op = .error .outOfRange ↔ ¬ (0 ≤ fd ∨ toInt s.io.fdContexts.length ≤ fd) := by
  unfold Tables.lookup
  by_cases hshort : toInt s.io.fdContexts.length ≤ fd
  · simp [hshort]
  · rw [if_neg hshort, bind_error_iff, entry_outOfRange_iff (by omega)]
    omega

/-- **At each step**: the index, or the size, is outside exactly when the condition fails. -/
theorem step_outOfRange_iff (s : Tables) (a : TableAct) :
    s.step a = some (.error .outOfRange) ↔ ¬ Indexable s a := by
  cases a with
  | get t fd auto_create =>
    cases hpc : s.threads t with
    | idle => simp only [Tables.step, Indexable, hpc, Option.some.injEq, get_outOfRange_iff, forall_const]
    | _ => simp [Tables.step, Indexable, hpc]
  | create t kernel =>
    cases hpc : s.threads t with
    | create fd =>
      simp only [Tables.step, Indexable, hpc, Option.some.injEq, create_outOfRange_iff, TablePc.create.injEq,
        forall_eq']
    | _ => simp [Tables.step, Indexable, hpc]
  | del fd => simp only [Tables.step, Indexable, Option.some.injEq, del_outOfRange_iff]
  | find t fd event cb caller =>
    cases hpc : s.threads t with
    | idle => simp only [Tables.step, Indexable, hpc, Option.some.injEq, find_outOfRange_iff, forall_const]
    | _ => simp [Tables.step, Indexable, hpc]
  | grow t =>
    cases hpc : s.threads t with
    | grow fd op => simp [Tables.step, Indexable, hpc, grow_outOfRange_iff]
    | _ => simp [Tables.step, Indexable, hpc]
  | lookup t fd op =>
    cases hpc : s.threads t with
    | idle => simp only [Tables.step, Indexable, hpc, Option.some.injEq, lookup_outOfRange_iff, forall_const]
    | _ => simp [Tables.step, Indexable, hpc]
  | finish t fails =>
    cases hpc : s.threads t with
    | locked p fd op =>
      have hoff : OffTable s.io id (op.locked p fd fails s.io) := offTable_locked op
      simp only [Tables.step, Indexable, hpc, Option.some.injEq, bind_error_iff, not_true_eq_false, iff_false]
      exact hoff.1
    | _ => simp [Tables.step, Indexable, hpc]
  | dispatch p mask fails =>
    have hoff : OffTable s.io id (IOManager.dispatch p mask fails s.io) := offTable_dispatch mask
    simp only [Tables.step, Indexable, Option.some.injEq, bind_error_iff, not_true_eq_false, iff_false]
    exact hoff.1

end

/-! ## Runs -/

/-- The largest descriptor whose room, `fd * 1.5`, an `int` can measure. -/
def maxFd : Int := 1431655765

/-- A descriptor that a call may be given: one the kernel gives out, at most `maxFd` where
room may be made for it; `get` also takes -1. -/
def DescriptorOk : TableAct → Prop
  | .get _ fd auto_create => fd = -1 ∨ (0 ≤ fd ∧ (auto_create = true → fd ≤ maxFd))
  | .del fd => 0 ≤ fd
  | .find _ fd _ _ _ => 0 ≤ fd ∧ fd ≤ maxFd
  | .lookup _ fd _ => 0 ≤ fd
  | _ => True

/-- The sizes an `int` can measure, with room for the small descriptors, and what the threads
between two locks are about to make room for. -/
structure Sized (s : Tables) : Prop where
  datas : 64 ≤ s.datas.length ∧ s.datas.length < 2 ^ 31
  contexts : 32 ≤ s.io.fdContexts.length ∧ s.io.fdContexts.length < 2 ^ 31
  creating : ∀ t fd, s.threads t = .create fd → 0 ≤ fd ∧ fd ≤ maxFd
  growing : ∀ t fd op, s.threads t = .grow fd op → 32 ≤ fd ∧ fd ≤ maxFd

section
variable {s s' : Tables}

theorem sized_init : Sized Tables.init := by
  constructor
  · simp [Tables.init]
  · have hlen := IOManager.contextResize_length 32
      { heap := [], fdContexts := [], pendingEventCount := 0, kernel := fun _ => none, scheduled := [], errors := [] }
    have hio : Tables.init.io.fdContexts.length = 32 := hlen
    omega
  · intro t fd hpc
    cases hpc
  · intro t fd op hpc
    cases hpc

/-- Given descriptors that are right, every step indexes inside. -/
theorem Sized.indexable (h : Sized s) {a : TableAct} (hfd : DescriptorOk a) : Indexable s a := by
  obtain ⟨hdatas, hcontexts, hcreate, hgrow⟩ := h
  cases a with
  | get t fd auto_create =>
    intro _
    rcases hfd with hnone | ⟨hpos, -⟩
    · exact Or.inl hnone
    · exact Or.inr (Or.inl hpos)
  | create t kernel =>
    intro fd hpc
    obtain ⟨hpos, -⟩ := hcreate t fd hpc
    have hsize := toInt_of_lt hdatas.2
    exact ⟨hpos, by omega⟩
  | del fd => exact Or.inl hfd
  | find t fd event cb caller =>
    intro _
    exact Or.inl hfd.1
  | grow t =>
    intro fd op hpc
    have := (hgrow t fd op hpc).1
    omega
  | lookup t fd op =>
    intro _
    exact Or.inl hfd
  | finish t fails => trivial
  | dispatch p mask fails => trivial

/-- A thread that moves on keeps the bounds of the others. -/
theorem Sized.setPc (h : Sized s) (t : Nat) (pc : TablePc)
    (hcreate : ∀ fd, pc = .create fd → 0 ≤ fd ∧ fd ≤ maxFd)
    (hgrow : ∀ fd op, pc = .grow fd op → 32 ≤ fd ∧ fd ≤ maxFd) : Sized (s.setPc t pc) := by
  refine ⟨h.datas, h.contexts, ?_, ?_⟩
  · intro u fd hpc
    by_cases hut : u = t
    · rw [hut] at hpc
      simp only [Tables.setPc, Function.update_self] at hpc
      exact hcreate fd hpc
    · simp only [Tables.setPc, Function.update_of_ne hut] at hpc
      exact h.creating u fd hpc
  · intro u fd op hpc
    by_cases hut : u = t
    · rw [hut] at hpc
      simp only [Tables.setPc, Function.update_self] at hpc
      exact hgrow fd op hpc
    · simp only [Tables.setPc, Function.update_of_ne hut] at hpc
      exact h.growing u fd op hpc

/-- Tables of the same kind of size. -/
theorem Sized.resized (h : Sized s) (hdatas : 64 ≤ s'.datas.length ∧ s'.datas.length < 2 ^ 31)
    (hcontexts : 32 ≤ s'.io.fdContexts.length ∧ s'.io.fdContexts.length < 2 ^ 31)
    (hthreads : s'.threads = s.threads) : Sized s' := by
  refine ⟨hdatas, hcontexts, ?_, ?_⟩
  · rw [hthreads]; exact h.creating
  · rw [hthreads]; exact h.growing

theorem next_eq_some {a : TableAct} (h : s.next a = some s') : s.step a = some (.ok s') := by
  unfold Tables.next at h
  cases hstep : s.step a with
  | none => simp [hstep] at h
  | some r =>
    cases r with
    | error f => simp [hstep, Except.toOption] at h
    | ok t =>
      simp only [hstep, Option.bind_some, Except.toOption, Option.some.injEq] at h
      rw [h]

theorem Sized.get (h : Sized s) {t : Nat} {fd : Int} {auto_create : Bool}
    (hfd : DescriptorOk (.get t fd auto_create)) (hstep : s.get t fd auto_create = .ok s') : Sized s' := by
  have hpc : fd ≠ -1 → auto_create ≠ false → Sized (s.setPc t (.create fd)) := by
    intro hnone hcreate
    refine h.setPc t _ ?_ ?_
    · intro fd' heq
      cases heq
      rcases hfd with hminus | ⟨hpos, hmax⟩
      · exact absurd hminus hnone
      · exact ⟨hpos, hmax (by simpa using hcreate)⟩
    · intro fd' op heq
      cases heq
  unfold Tables.get at hstep
  by_cases hnone : fd = -1
  · rw [if_pos hnone] at hstep
    cases hstep
    exact h
  rw [if_neg hnone] at hstep
  split at hstep
  · split at hstep
    · cases hstep
      exact h
    · next hcreate =>
      cases hstep
      exact hpc hnone hcreate
  · obtain ⟨i, -, hrest⟩ := bind_eq_ok hstep
    split at hrest
    · cases hrest
      exact h
    · next hcreate =>
      cases hrest
      exact hpc hnone (fun hfalse => hcreate (Or.inr hfalse))

/-- The room made for a descriptor in bounds can be measured. -/
theorem room_lt {fd : Int} (hpos : 32 ≤ fd) (hmax : fd ≤ maxFd) :
    32 ≤ fd.toNat * 3 / 2 ∧ fd.toNat * 3 / 2 < 2 ^ 31 := by
  unfold maxFd at hmax
  omega

theorem Sized.roomFor (h : Sized s) {fd : Int} (hmax : fd ≤ maxFd) {datas : List (Option Nat)}
    (hroom : s.roomFor fd = .ok datas) : 64 ≤ datas.length ∧ datas.length < 2 ^ 31 := by
  unfold Tables.roomFor at hroom
  split at hroom
  · next hshort =>
    split at hroom
    · cases hroom
    · cases hroom
      rw [toInt_of_lt h.datas.2] at hshort
      rw [resizeDatas_length]
      have hlow := h.datas.1
      have hbound := room_lt (by omega) hmax
      omega
  · cases hroom
    exact h.datas

theorem Sized.create (h : Sized s) {t : Nat} {fd : Int} {kernel : Process} (hmax : fd ≤ maxFd)
    (hstep : s.create t fd kernel = .ok s') : Sized s' := by
  obtain ⟨datas, hroom, hrest⟩ := bind_eq_ok hstep
  obtain ⟨i, -, hend⟩ := bind_eq_ok hrest
  cases hend
  have hpc := h.setPc t .idle (fun fd heq => by cases heq) (fun fd op heq => by cases heq)
  refine hpc.resized ?_ h.contexts rfl
  simpa using h.roomFor hmax hroom

theorem Sized.find (h : Sized s) {t : Nat} {fd : Int} (op : EventOp) (hmax : fd ≤ maxFd)
    (hstep : s.find t fd op = .ok s') : Sized s' := by
  obtain ⟨found, hfound, hrest⟩ := bind_eq_ok hstep
  cases found with
  | some p =>
    cases hrest
    exact h.setPc t _ (fun fd heq => by cases heq) (fun fd op heq => by cases heq)
  | none =>
    cases hrest
    refine h.setPc t _ (fun fd heq => by cases heq) ?_
    intro fd' op' heq
    cases heq
    unfold IOManager.findContext at hfound
    split at hfound
    · cases hentry : IOManager.entry fd s.io with
      | error f => simp [hentry, Functor.map, Except.map] at hfound
      | ok p => simp [hentry, Functor.map, Except.map] at hfound
    · next hshort =>
      rw [toInt_of_lt h.contexts.2] at hshort
      have hlow := h.contexts.1
      exact ⟨by omega, hmax⟩

theorem Sized.grow (h : Sized s) {t : Nat} {fd : Int} (op : EventOp) (hpos : 32 ≤ fd) (hmax : fd ≤ maxFd)
    (hstep : s.grow t fd op = .ok s') : Sized s' := by
  obtain ⟨⟨p, io⟩, hgrown, hend⟩ := bind_eq_ok hstep
  cases hend
  unfold IOManager.growContexts at hgrown
  split at hgrown
  · cases hgrown
  · obtain ⟨p', -, hrest⟩ := bind_eq_ok hgrown
    cases hrest
    have hpc := h.setPc t (.locked p fd op) (fun fd heq => by cases heq) (fun fd op heq => by cases heq)
    refine hpc.resized h.datas ?_ rfl
    dsimp only
    rw [IOManager.contextResize_length]
    exact room_lt hpos hmax

/-- Every step of the program keeps the sizes. -/
theorem Sized.next (h : Sized s) {a : TableAct} (hfd : DescriptorOk a) (hnext : s.next a = some s') :
    Sized s' := by
  have hstep := next_eq_some hnext
  have hkeep : ∀ {io : State} {t : Nat} {x : Except Fault State}, OffTable s.io id x → x = .ok io →
      Sized { s with io := io, threads := Function.update s.threads t .idle } ∧ Sized { s with io := io } := by
    intro io t x hoff hx
    have htable : io.fdContexts = s.io.fdContexts := hoff.2 io hx
    have hpc := h.setPc t .idle (fun fd heq => by cases heq) (fun fd op heq => by cases heq)
    have hsize : 32 ≤ io.fdContexts.length ∧ io.fdContexts.length < 2 ^ 31 := by
      rw [htable]
      exact h.contexts
    exact ⟨hpc.resized h.datas hsize rfl, h.resized h.datas hsize rfl⟩
  cases a with
  | get t fd auto_create =>
    cases hpc : s.threads t with
    | idle =>
      simp only [Tables.step, hpc, Option.some.injEq] at hstep
      exact h.get hfd hstep
    | _ => simp [Tables.step, hpc] at hstep
  | create t kernel =>
    cases hpc : s.threads t with
    | create fd =>
      simp only [Tables.step, hpc, Option.some.injEq] at hstep
      exact h.create (h.creating t fd hpc).2 hstep
    | _ => simp [Tables.step, hpc] at hstep
  | del fd =>
    simp only [Tables.step, Option.some.injEq, Tables.del] at hstep
    split at hstep
    · cases hstep
      exact h
    · obtain ⟨i, -, hrest⟩ := bind_eq_ok hstep
      cases hrest
      exact h.resized (by simpa using h.datas) h.contexts rfl
  | find t fd event cb caller =>
    cases hpc : s.threads t with
    | idle =>
      simp only [Tables.step, hpc, Option.some.injEq] at hstep
      exact h.find _ hfd.2 hstep
    | _ => simp [Tables.step, hpc] at hstep
  | grow t =>
    cases hpc : s.threads t with
    | grow fd op =>
      simp only [Tables.step, hpc, Option.some.injEq] at hstep
      obtain ⟨hpos, hmax⟩ := h.growing t fd op hpc
      exact h.grow op hpos hmax hstep
    | _ => simp [Tables.step, hpc] at hstep
  | lookup t fd op =>
    cases hpc : s.threads t with
    | idle =>
      simp only [Tables.step, hpc, Option.some.injEq, Tables.lookup] at hstep
      split at hstep
      · cases hstep
        exact h
      · obtain ⟨p, -, hrest⟩ := bind_eq_ok hstep
        cases hrest
        exact h.setPc t _ (fun fd heq => by cases heq) (fun fd op heq => by cases heq)
    | _ => simp [Tables.step, hpc] at hstep
  | finish t fails =>
    cases hpc : s.threads t with
    | locked p fd op =>
      simp only [Tables.step, hpc, Option.some.injEq] at hstep
      obtain ⟨io, hlocked, hrest⟩ := bind_eq_ok hstep
      cases hrest
      exact (hkeep (offTable_locked op) hlocked).1
    | _ => simp [Tables.step, hpc] at hstep
  | dispatch p mask fails =>
    simp only [Tables.step, Option.some.injEq] at hstep
    obtain ⟨io, hdispatch, hrest⟩ := bind_eq_ok hstep
    cases hrest
    exact (hkeep (t := 0) (offTable_dispatch mask) hdispatch).2

end

/-- **Descriptor indexing.** In every run whose calls are given descriptors from 0 to `maxFd`
(any that are not negative where no room is made, and -1 for `get`), no step indexes a table
outside its size. And in every state, a step does exactly when the test of the size lets a
negative descriptor through, or room is made for 0 or 1. -/
theorem indexes_inside (s : Tables) (a : TableAct) :
    (Lib.Reached Tables.next (fun _ a => DescriptorOk a) Tables.init s → DescriptorOk a →
      s.step a ≠ some (.error .outOfRange)) ∧
    (s.step a ≠ some (.error .outOfRange) ↔ Indexable s a) := by
  constructor
  · intro r hfd
    have h : Sized s := by
      refine Lib.Reached.inv (P := Sized) sized_init ?_ r
      intro t i t' h hok hnext
      exact h.next hok hnext
    rw [ne_eq, step_outOfRange_iff]
    exact not_not_intro (h.indexable hfd)
  · rw [ne_eq, step_outOfRange_iff, not_not]

/-- `cancelRead` of a closed socket indexes `m_fdContexts[-1]`. -/
theorem closed_socket_indexes_outside :
    ¬ ∀ s, Lib.Reached Tables.next (fun _ _ => True) Tables.init s →
      ∀ a, s.step a ≠ some (.error .outOfRange) := by
  intro h
  apply h Tables.init .start (Socket.closed.cancelRead 0)
  rw [step_outOfRange_iff]
  simp only [Socket.cancelRead, Indexable, Socket.closed]
  decide +kernel

end Sylar.Hook
