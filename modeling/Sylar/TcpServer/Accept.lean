import Mathlib.Data.List.Nodup
import Mathlib.Data.List.Perm.Basic
import Mathlib.Algebra.BigOperators.Group.List.Basic
import Mathlib.Algebra.Order.Ring.Nat
import Sylar.TcpServer.Bind
import Sylar.Hook.SockTimeout
import Sylar.Lib.Machine
import Sylar.Lib.Slots

/- The life of a `TcpServer`: `bind`, `start`, `startAccept`, `stop`, `handleClient` and the
   destructor of `sylar/tcp_server.cc`.

   The `Socket` objects that `bind` has put into `m_socks` are counted; `m_socks` and the accept
   loops hold them by number. `start` schedules an accept loop for each, `stop` sets `m_isStop`
   and schedules a function that closes the sockets one by one and then clears `m_socks`. Any
   worker may run any of these, so every read of `m_isStop`, every read of `m_sock` and every
   return from `accept` is a step of its own, and the steps of all of them interleave. An object
   that neither `m_socks` nor a loop holds is destroyed, which closes its descriptor (`reap`). The
   server is destroyed when no loop, no function of `stop` and no client holds it.

   The hook is on in the workers, as their tasks have to set it (`Scheduler::run` turns it off), and
   the sockets are non-blocking in the kernel. The hooked `accept` has the number of the descriptor
   and not the object, and the kernel gives the number of a closed descriptor out again. Where
   `accept_f` has no client yet, `accept` registers the descriptor and parks; a report of the kernel
   wakes it, or a `cancelAll`, and it calls `accept_f` again without a look at `m_isStop`.
   `Socket::cancelAll` and the hooked `close` both wake it before `close_f`, and no `accept` that
   parks behind the second is ever woken again (`parked_for_good`). Which clients come, and what
   `accept_f` answers, is open. `handleClient` is virtual and runs as one step; what it does with
   the connection is in `Http/Server`.

   `start` looks at nothing but `m_isStop`, so a server that is stopped and started again has to be
   let come to rest in between (`Orderly`); `restart_too_soon` are runs that do without. -/
namespace Sylar.TcpServer
open Sylar.Lib (sum_map_set forall_mem_set)
open Sylar.Hook (Timeval timevalOf timevalOf_millis)

/-- Where an accept loop stands. -/
inductive Phase where
  /-- In the queue of `m_acceptWorker`. -/
  | scheduled
  /-- At `while(!m_isStop)`. -/
  | testing
  /-- At the call of `sock->accept()`. -/
  | calling
  /-- At the call of `accept_f`, with the `m_sock` that `accept` was called with. -/
  | accepting (m_sock : Option Nat)
  /-- Parked, with the descriptor registered for `READ`. -/
  | parked (m_sock : Nat)
  deriving DecidableEq, Repr

/-- A `startAccept` and the number of its socket. -/
structure Loop where
  sock : Nat
  phase : Phase
  deriving DecidableEq, Repr

/-- The descriptor in the hands of `accept`. -/
def Phase.fd : Phase → Option Nat
  | .accepting m_sock => m_sock
  | .parked m_sock => some m_sock
  | _ => none

/-- A connection, with what `setRecvTimeout` has given to `setsockopt`. -/
structure Client where
  sock : Nat
  recvTimeout : Timeval
  deriving DecidableEq, Repr

/-- A function of `stop` that runs. -/
structure Closing where
  /-- The sockets it has still to close. -/
  socks : List Nat
  /-- How many calls of `cancelAll` there have been for the first: by `Socket::cancelAll`, by the hooked `close`. -/
  cancels : Nat
  deriving DecidableEq, Repr

structure State where
  m_recvTimeout : UInt64
  m_isStop : Bool
  m_socks : List Nat
  /-- The `Socket` objects ever put into `m_socks`. -/
  objects : List Socket
  loops : List Loop
  /-- The functions of `stop` in the queue of `m_acceptWorker`. -/
  stops : Nat
  closing : List Closing
  accepted : List Client
  /-- The clients in the queue of `m_ioWorker`. -/
  waiting : List Client
  handled : List Client
  /-- The server is not destroyed. -/
  alive : Bool
  deriving DecidableEq, Repr

/-- A server as constructed. -/
def init (recvTimeout : UInt64) : State where
  m_recvTimeout := recvTimeout
  m_isStop := true
  m_socks := []
  objects := []
  loops := []
  stops := 0
  closing := []
  accepted := []
  waiting := []
  handled := []
  alive := true

inductive Act where
  | bind (addrs : List (Address × Answers))
  | start
  | stop
  /-- A worker takes loop `i`. -/
  | enter (i : Nat)
  /-- Loop `i` reads `m_isStop`. -/
  | test (i : Nat)
  /-- Loop `i` calls `accept`. -/
  | call (i : Nat)
  /-- `accept_f` has a client for loop `i`, or fails. -/
  | answer (i : Nat) (client : Option Nat)
  /-- `accept_f` has none yet, and loop `i` registers the descriptor. -/
  | park (i : Nat)
  /-- The kernel's report wakes loop `i`. -/
  | report (i : Nat)
  /-- A worker takes a function of `stop`. -/
  | beginClose
  /-- A `cancelAll` for the socket at hand. -/
  | cancelNext (j : Nat)
  /-- `close_f` for it. -/
  | closeNext (j : Nat)
  | clear (j : Nat)
  /-- `handleClient` of the client at `k`. -/
  | handle (k : Nat)
  | destroy
  deriving DecidableEq, Repr

/-! ## Objects -/

/-- `Socket::close`. -/
def Socket.close (s : Socket) : Socket := { s with sock := none, listening := false }

/-- The descriptor of a socket, while it is open. -/
def State.fd (s : State) (k : Nat) : Option Nat := s.objects[k]?.bind Socket.sock

def State.held (s : State) (k : Nat) : Bool := s.m_socks.contains k || (s.loops.map Loop.sock).contains k

/-- Destroys the objects that nobody holds. -/
def State.reap (s : State) : State :=
  { s with objects := s.objects.mapIdx fun k sock => if s.held k then sock else sock.close }

def State.close (s : State) (k : Nat) : State := { s with objects := s.objects.modify k Socket.close }

def State.setPhase (s : State) (i : Nat) (l : Loop) (phase : Phase) : State :=
  { s with loops := s.loops.set i { l with phase := phase } }

/-- The parked loop, with the descriptor registered, is woken. -/
def Loop.wake (fd : Option Nat) (l : Loop) : Loop :=
  match l.phase with
  | .parked n => if fd = some n then { l with phase := .accepting (some n) } else l
  | _ => l

/-- `IOManager::cancelAll` for the descriptor of socket `k`. -/
def State.cancelAll (s : State) (k : Nat) : State := { s with loops := s.loops.map (Loop.wake (s.fd k)) }

/-- Nothing is to wake a loop of the socket any more before it is closed. -/
def State.late (s : State) (k : Nat) : Bool := s.closing.any fun c => c.cancels == 2 && c.socks.head? == some k

/-- No function of `stop` is queued or runs. -/
def State.quiet (s : State) : Bool := s.stops == 0 && s.closing.isEmpty

/-! ## Steps -/

/-- New objects at the end of `m_socks`. -/
def State.add (s : State) (socks : List Socket) : State :=
  { s with
    m_socks := s.m_socks ++ (List.range socks.length).map (s.objects.length + ·)
    objects := s.objects ++ socks }

/-- `bind(addrs, fails)`; those that a call with a failure has opened are destroyed at once. -/
def State.bind (s : State) (addrs : List (Address × Answers)) : State :=
  match TcpServer.bind [] addrs [] with
  | (true, socks, _) => s.add socks
  | (false, _, _) => { s with m_socks := [] }.reap

def State.start (s : State) : State :=
  if s.m_isStop then
    { s with m_isStop := false, loops := s.loops ++ s.m_socks.map fun k => { sock := k, phase := .scheduled } }
  else s

/-- A step of an accept loop. -/
def State.loopStep (s : State) (i : Nat) (l : Loop) : Act → Option State
  | .enter _ => if l.phase = .scheduled then some (s.setPhase i l .testing) else none
  | .test _ =>
    if l.phase = .testing then
      some (if s.m_isStop then { s with loops := s.loops.eraseIdx i }.reap else s.setPhase i l .calling)
    else none
  | .call _ => if l.phase = .calling then some (s.setPhase i l (.accepting (s.fd l.sock))) else none
  | .answer _ client =>
    match l.phase, client with
    | .accepting (some _), some sock =>
      let client := { sock := sock, recvTimeout := timevalOf s.m_recvTimeout.toInt64 }
      some { s.setPhase i l .testing with accepted := s.accepted ++ [client], waiting := s.waiting ++ [client] }
    | .accepting _, none => some (s.setPhase i l .testing)
    | _, _ => none
  | .park _ =>
    match l.phase with
    | .accepting (some n) => some (s.setPhase i l (.parked n))
    | _ => none
  | .report _ =>
    match l.phase with
    | .parked n => some (s.setPhase i l (.accepting (some n)))
    | _ => none
  | _ => none

/-- The loop whose step it is. -/
def Act.loop : Act → Option Nat
  | .enter i | .test i | .call i | .answer i _ | .park i | .report i => some i
  | _ => none

/-- A step that is none of an accept loop. -/
def State.serverStep (s : State) : Act → Option State
  | .bind addrs => if s.alive then some (s.bind addrs) else none
  | .start => if s.alive then some s.start else none
  | .stop => if s.alive then some { s with m_isStop := true, stops := s.stops + 1 } else none
  | .beginClose =>
    if 0 < s.stops then
      some { s with stops := s.stops - 1, closing := s.closing ++ [{ socks := s.m_socks, cancels := 0 }] }
    else none
  | .cancelNext j =>
    match s.closing[j]? with
    | some ⟨k :: rest, cancels⟩ =>
      if cancels < 2 then some { s.cancelAll k with closing := s.closing.set j ⟨k :: rest, cancels + 1⟩ } else none
    | _ => none
  | .closeNext j =>
    match s.closing[j]? with
    | some ⟨k :: rest, 2⟩ => some { s.close k with closing := s.closing.set j ⟨rest, 0⟩ }
    | _ => none
  | .clear j =>
    match s.closing[j]? with
    | some ⟨[], _⟩ => some { s with m_socks := [], closing := s.closing.eraseIdx j }.reap
    | _ => none
  | .handle k =>
    s.waiting[k]?.map fun c => { s with waiting := s.waiting.eraseIdx k, handled := s.handled ++ [c] }
  | .destroy =>
    if s.alive ∧ s.loops = [] ∧ s.quiet ∧ s.waiting = [] then
      some { s with m_socks := [], alive := false }.reap
    else none
  | _ => none

def step (s : State) (a : Act) : Option State :=
  match a.loop with
  | some i => s.loops[i]?.bind fun l => s.loopStep i l a
  | none => s.serverStep a

theorem step_cases {s s' : State} {a : Act} (h : step s a = some s') :
    (∃ i l, a.loop = some i ∧ s.loops[i]? = some l ∧ s.loopStep i l a = some s') ∨ s.serverStep a = some s' := by
  unfold step at h
  split at h
  · rename_i i hloop
    obtain ⟨l, hl, hstep⟩ := Option.bind_eq_some_iff.mp h
    exact .inl ⟨i, l, hloop, hl, hstep⟩
  · exact .inr h

/-! ## What closes a socket -/

theorem fd_close (s : State) (k k' : Nat) : (s.close k).fd k' = if k = k' then none else s.fd k' := by
  unfold State.fd State.close
  rw [List.getElem?_modify]
  cases s.objects[k']? <;> split <;> simp [Socket.close]

theorem fd_reap (s : State) (k : Nat) : s.reap.fd k = if s.held k then s.fd k else none := by
  unfold State.fd State.reap
  rw [List.getElem?_mapIdx]
  cases s.objects[k]? <;> split <;> simp [Socket.close, *]

/-- Nothing is destroyed while `m_socks` holds every open socket. -/
theorem fd_reap_owned {s : State} (h : ∀ k, s.fd k ≠ none → k ∈ s.m_socks) : s.reap.fd = s.fd := by
  funext k
  rw [fd_reap]
  by_cases hk : s.fd k = none
  · simp [hk]
  · simp [State.held, h k hk]

theorem fd_add_old {s : State} {k : Nat} (hk : k < s.objects.length) (socks : List Socket) :
    (s.add socks).fd k = s.fd k := by
  simp [State.fd, State.add, List.getElem?_append_left hk]

theorem fd_add_new {s : State} {socks : List Socket} {j : Nat} (hj : j < socks.length) :
    (s.add socks).fd (s.objects.length + j) = socks[j].sock := by
  simp [State.fd, State.add, hj]

/-- An open socket is an old one or one of those added. -/
theorem open_add {s : State} {socks : List Socket} {k : Nat} (hk : (s.add socks).fd k ≠ none) :
    k < s.objects.length ∨ ∃ j, j < socks.length ∧ k = s.objects.length + j := by
  rcases Nat.lt_or_ge k s.objects.length with hlt | hge
  · exact .inl hlt
  · refine .inr ⟨k - s.objects.length, ?_, by omega⟩
    by_contra hout
    exact hk (by
      simp [State.fd, State.add, List.getElem?_append_right hge, List.getElem?_eq_none (Nat.le_of_not_lt hout)])

@[simp] theorem length_reap (s : State) : s.reap.objects.length = s.objects.length := by
  simp [State.reap]

/-- A successful `bind` has a listening socket for each address. -/
theorem bind_cases (s : State) (addrs : List (Address × Answers)) :
    ((∀ x ∈ addrs, ¬ Failing x) ∧ s.bind addrs = s.add (addrs.map listener)) ∨
      s.bind addrs = { s with m_socks := [] }.reap := by
  unfold State.bind TcpServer.bind
  rw [bindLoop_eq]
  by_cases hall : ∀ x ∈ addrs, ¬ Failing x
  · have hfilter : (addrs.filter fun x => ¬ Failing x) = addrs :=
      List.filter_eq_self.mpr fun x hx => decide_eq_true (hall x hx)
    have hfails : (addrs.filter fun x => Failing x) = [] := by simpa using hall
    refine .inl ⟨hall, ?_⟩
    simp only [hfilter, hfails, List.map_nil, List.nil_append, ne_eq, not_true_eq_false, if_false]
  · have hfails : ((addrs.filter fun x => Failing x).map Prod.fst) ≠ [] := by simpa using hall
    refine .inr ?_
    simp only [List.nil_append, hfails, ne_eq, not_false_eq_true, if_true]

/-- The kernel gives no descriptor that is open. -/
def State.fresh (s : State) (addrs : List (Address × Answers)) : Prop :=
  let fds := (addrs.filter fun x => ¬ Failing x).map fun x => x.2.socket
  fds.Nodup ∧ ∀ sock ∈ s.objects, sock.sock ≠ none → sock.sock ∉ fds

instance (s : State) (addrs : List (Address × Answers)) : Decidable (s.fresh addrs) :=
  inferInstanceAs (Decidable (_ ∧ _))

/-- An `accept` that parks is still to be woken: its socket is open, and not in the `close_f` of `close`. -/
def State.mayPark (s : State) (l : Loop) : Bool := l.phase.fd == s.fd l.sock && !s.late l.sock

/-- How a server is to be used: sockets are bound while it is stopped, it is stopped when the last
`stop` is through, and started when its loops have ended as well. And what must not happen: that an
`accept` parks between the wake-up of `close` and its `close_f`, or behind it. -/
def Orderly (s : State) : Act → Prop
  | .bind addrs => s.m_isStop = true ∧ s.quiet = true ∧ s.fresh addrs
  | .start => s.m_isStop = true → s.quiet = true ∧ s.loops = []
  | .stop => s.quiet = true
  | .park i => ∀ l ∈ s.loops[i]?, s.mayPark l = true
  | _ => True

instance (s : State) : ∀ a, Decidable (Orderly s a)
  | .bind addrs => inferInstanceAs (Decidable (s.m_isStop = true ∧ s.quiet = true ∧ s.fresh addrs))
  | .start => inferInstanceAs (Decidable (s.m_isStop = true → s.quiet = true ∧ s.loops = []))
  | .stop => inferInstanceAs (Decidable (s.quiet = true))
  | .park i => inferInstanceAs (Decidable (∀ l ∈ s.loops[i]?, s.mayPark l = true))
  | .enter _ | .test _ | .call _ | .answer _ _ | .report _ | .beginClose | .cancelNext _ | .closeNext _ | .clear _
  | .handle _ | .destroy => isTrue trivial

/-! ## Sockets and loops -/

/-- `m_socks` holds every open socket, once, and no two have one descriptor. -/
structure Sockets (m_socks : List Nat) (known : Nat) (fd : Nat → Option Nat) : Prop where
  nodup : m_socks.Nodup
  below : ∀ k ∈ m_socks, k < known
  owned : ∀ k, fd k ≠ none → k ∈ m_socks
  apart : ∀ k k', fd k ≠ none → fd k = fd k' → k = k'

/-- What a loop has: its socket, and the descriptor in the hands of `accept`. -/
def Loop.holds (l : Loop) : Nat × Option Nat := (l.sock, l.phase.fd)

/-- A socket has one loop, and a descriptor is in the hands of one loop. -/
structure Loops (loops : List (Nat × Option Nat)) (known : Nat) (fd : Nat → Option Nat) : Prop where
  nodup : (loops.map Prod.fst).Nodup
  below : ∀ k ∈ loops.map Prod.fst, k < known
  /-- The descriptor in its hands is no other loop's. -/
  own : ∀ l ∈ loops, ∀ n, l.2 = some n → ∀ k ∈ loops.map Prod.fst, fd k = some n → k = l.1
  waiter : ∀ l ∈ loops, ∀ n, l.2 = some n → ∀ l' ∈ loops, l'.2 = some n → l' = l

/-- Sockets are closed. -/
theorem Sockets.shrink {m_socks : List Nat} {known : Nat} {fd fd' : Nat → Option Nat} (h : Sockets m_socks known fd)
    (hfd : ∀ k, fd' k ≠ none → fd' k = fd k) : Sockets m_socks known fd' where
  nodup := h.nodup
  below := h.below
  owned k hk := h.owned k (hfd k hk ▸ hk)
  apart k k' hk heq := by
    have hk' : fd' k' ≠ none := heq ▸ hk
    exact h.apart k k' (hfd k hk ▸ hk) (by rw [← hfd k hk, ← hfd k' hk', heq])

/-- The sockets of the loops are closed or stay as they are. -/
theorem Loops.mono {loops : List (Nat × Option Nat)} {known known' : Nat} {fd fd' : Nat → Option Nat}
    (h : Loops loops known fd) (hknown : known ≤ known')
    (hfd : ∀ k ∈ loops.map Prod.fst, fd' k ≠ none → fd' k = fd k) : Loops loops known' fd' where
  nodup := h.nodup
  below k hk := Nat.lt_of_lt_of_le (h.below k hk) hknown
  own l hl n hn k hk heq := h.own l hl n hn k hk (by rw [← hfd k hk (by simp [heq]), heq])
  waiter := h.waiter

/-- A loop ends. -/
theorem Loops.sublist {loops loops' : List (Nat × Option Nat)} {known : Nat} {fd : Nat → Option Nat}
    (h : Loops loops known fd) (hsub : loops'.Sublist loops) : Loops loops' known fd where
  nodup := h.nodup.sublist (hsub.map Prod.fst)
  below k hk := h.below k ((hsub.map Prod.fst).mem hk)
  own l hl n hn k hk := h.own l (hsub.mem hl) n hn k ((hsub.map Prod.fst).mem hk)
  waiter l hl n hn l' hl' := h.waiter l (hsub.mem hl) n hn l' (hsub.mem hl')

/-- A loop keeps its socket. -/
theorem map_fst_set {loops : List (Nat × Option Nat)} {i : Nat} {l : Nat × Option Nat} (hl : loops[i]? = some l)
    (fd : Option Nat) : (loops.set i (l.1, fd)).map Prod.fst = loops.map Prod.fst := by
  obtain ⟨hi, rfl⟩ := List.getElem?_eq_some_iff.mp hl
  rw [List.map_set]
  apply List.ext_getElem
  · simp
  · intro j hj hj'
    by_cases hij : i = j
    · subst hij; simp
    · simp [hij]

/-- A loop goes on. It takes the descriptor of its socket into its hands only. -/
theorem Loops.set {loops : List (Nat × Option Nat)} {known : Nat} {m_socks : List Nat} {fd : Nat → Option Nat}
    (h : Loops loops known fd) (hs : Sockets m_socks known fd) {i : Nat} {l : Nat × Option Nat}
    (hl : loops[i]? = some l) {m_sock : Option Nat} (htake : ∀ n, m_sock = some n → l.2 = none ∧ fd l.1 = some n) :
    Loops (loops.set i (l.1, m_sock)) known fd := by
  have hmem : l ∈ loops := List.mem_of_getElem? hl
  have hold : ∀ x ∈ loops.set i (l.1, m_sock), x = (l.1, m_sock) ∨ x ∈ loops :=
    fun x hx => (List.mem_or_eq_of_mem_set hx).symm
  -- nobody else has what the loop at hand takes
  have hother : ∀ n, m_sock = some n → ∀ x ∈ loops, x.2 = some n → False := by
    intro n hn x hx hxn
    obtain ⟨hnone, hfd⟩ := htake n hn
    have hsock : l.1 = x.1 := h.own x hx n hxn l.1 (List.mem_map_of_mem hmem) hfd
    have heq : l = x := List.inj_on_of_nodup_map h.nodup hmem hx hsock
    rw [← heq, hnone] at hxn
    cases hxn
  constructor
  · rw [map_fst_set hl]
    exact h.nodup
  · rw [map_fst_set hl]
    exact h.below
  · intro x hx n hn k hk hfd
    rw [map_fst_set hl] at hk
    rcases hold x hx with rfl | hx
    · exact hs.apart k l.1 (by simp [hfd]) (by rw [hfd, (htake n hn).2])
    · exact h.own x hx n hn k hk hfd
  · intro x hx n hn y hy hyn
    rcases hold x hx with rfl | hx <;> rcases hold y hy with rfl | hy
    · rfl
    · exact (hother n hn y hy hyn).elim
    · exact (hother n hyn x hx hn).elim
    · exact h.waiter x hx n hn y hy hyn

theorem map_sock {loops : List Loop} : (loops.map Loop.holds).map Prod.fst = loops.map Loop.sock := by
  rw [List.map_map]
  rfl

/-- What is woken has what it had. -/
@[simp] theorem wake_holds (fd : Option Nat) (l : Loop) : (l.wake fd).holds = l.holds := by
  unfold Loop.wake
  split
  · split
    · simp only [Loop.holds, Phase.fd, *]
    · rfl
  · rfl

theorem map_holds_wake (fd : Option Nat) (loops : List Loop) :
    (loops.map (Loop.wake fd)).map Loop.holds = loops.map Loop.holds := by
  rw [List.map_map]
  exact List.map_congr_left fun l _ => wake_holds fd l

theorem map_holds_set {loops : List Loop} {i : Nat} (l : Loop) (phase : Phase) :
    (loops.set i { l with phase := phase }).map Loop.holds = (loops.map Loop.holds).set i (l.sock, phase.fd) :=
  List.map_set

theorem getElem?_holds {loops : List Loop} {i : Nat} {l : Loop} (hl : loops[i]? = some l) :
    (loops.map Loop.holds)[i]? = some l.holds := by
  rw [List.getElem?_map, hl]
  rfl

theorem map_sock_set {loops : List Loop} {i : Nat} {l : Loop} (hl : loops[i]? = some l) (phase : Phase) :
    (loops.set i { l with phase := phase }).map Loop.sock = loops.map Loop.sock := by
  rw [← map_sock, ← map_sock, map_holds_set]
  exact map_fst_set (getElem?_holds hl) phase.fd

/-! ## The invariant -/

/-- What holds of a server that is used in order. -/
structure Inv (s : State) : Prop where
  sockets : Sockets s.m_socks s.objects.length s.fd
  loops : Loops (s.loops.map Loop.holds) s.objects.length s.fd
  once : s.stops + s.closing.length ≤ 1
  stopping : s.quiet = false → s.m_isStop = true
  watched : s.m_isStop = false → s.loops.map Loop.sock = s.m_socks
  opened : s.quiet = true → ∀ k ∈ s.m_socks, s.fd k ≠ none
  remaining : ∀ c ∈ s.closing, ∀ k, s.fd k ≠ none → k ∈ c.socks
  rested : s.m_isStop = true → s.quiet = true → ∀ k ∈ s.loops.map Loop.sock, s.fd k = none
  /-- A parked loop is still to be woken. -/
  parked : ∀ l ∈ s.loops, ∀ n, l.phase = .parked n → s.fd l.sock = some n ∧ s.late l.sock = false
  cancels : ∀ c ∈ s.closing, c.cancels ≤ 2
  handed : s.accepted.Perm (s.waiting ++ s.handled)
  timeouts : ∀ c ∈ s.accepted, c.recvTimeout = timevalOf s.m_recvTimeout.toInt64
  destroyed : s.alive = false → s.m_socks = [] ∧ s.loops = []

theorem inv_init (recvTimeout : UInt64) : Inv (init recvTimeout) := by
  constructor
  · constructor <;> simp [init, State.fd]
  · constructor <;> simp [init]
  all_goals simp [init, State.quiet, State.fd]

section Steps
variable {s s' : State}

/-- A loop goes on. -/
theorem Inv.setPhase (h : Inv s) {i : Nat} {l : Loop} (hl : s.loops[i]? = some l) {phase : Phase}
    (htake : phase.fd ≠ l.phase.fd → ∀ n, phase.fd = some n → l.phase.fd = none ∧ s.fd l.sock = some n)
    (hpark : ∀ n, phase = .parked n → s.fd l.sock = some n ∧ s.late l.sock = false) :
    Inv (s.setPhase i l phase) where
  sockets := h.sockets
  loops := by
    have hat := getElem?_holds hl
    show Loops ((s.loops.set i { l with phase := phase }).map Loop.holds) s.objects.length s.fd
    rw [map_holds_set]
    by_cases hsame : phase.fd = l.phase.fd
    · obtain ⟨hi, heq⟩ := List.getElem?_eq_some_iff.mp hat
      have hkeep : (l.sock, phase.fd) = (s.loops.map Loop.holds)[i] := by
        rw [heq, hsame]
        rfl
      rw [hkeep, List.set_getElem_self]
      exact h.loops
    · exact h.loops.set h.sockets hat (htake hsame)
  once := h.once
  stopping := h.stopping
  watched hrun := by
    rw [State.setPhase, map_sock_set hl]
    exact h.watched hrun
  opened := h.opened
  remaining := h.remaining
  rested hstop hquiet := by
    rw [State.setPhase, map_sock_set hl]
    exact h.rested hstop hquiet
  parked := forall_mem_set h.parked hpark
  cancels := h.cancels
  handed := h.handed
  timeouts := h.timeouts
  destroyed hdead := by
    obtain ⟨hsocks, hloops⟩ := h.destroyed hdead
    exact ⟨hsocks, by simp [State.setPhase, hloops]⟩

/-- Once `m_isStop` is set, a loop ends. -/
theorem Inv.endLoop (h : Inv s) (hstop : s.m_isStop = true) (i : Nat) :
    Inv { s with loops := s.loops.eraseIdx i }.reap := by
  have hfd := fd_reap_owned (s := { s with loops := s.loops.eraseIdx i }) h.sockets.owned
  have hsub := List.eraseIdx_sublist s.loops i
  constructor
  · rw [hfd, length_reap]
    exact h.sockets
  · rw [hfd, length_reap]
    exact h.loops.sublist (hsub.map Loop.holds)
  · exact h.once
  · exact h.stopping
  · intro hrun
    exact absurd hstop (by simp only [State.reap] at hrun; simp [hrun])
  · rw [hfd]
    exact h.opened
  · rw [hfd]
    exact h.remaining
  · rw [hfd]
    exact fun _ hquiet k hk => h.rested hstop hquiet k ((hsub.map Loop.sock).mem hk)
  · rw [hfd]
    exact fun l hl => h.parked l (hsub.mem hl)
  · exact h.cancels
  · exact h.handed
  · exact h.timeouts
  · intro hdead
    obtain ⟨hsocks, hloops⟩ := h.destroyed hdead
    exact ⟨hsocks, by simp [State.reap, hloops]⟩

theorem inv_loopStep (h : Inv s) {i : Nat} {l : Loop} {a : Act} (ha : a.loop = some i) (hl : s.loops[i]? = some l)
    (horderly : Orderly s a) (hstep : s.loopStep i l a = some s') : Inv s' := by
  cases a with
  | enter =>
    simp only [State.loopStep, Option.ite_none_right_eq_some, Option.some.injEq] at hstep
    obtain ⟨-, rfl⟩ := hstep
    exact h.setPhase hl (by simp [Phase.fd]) (by simp)
  | test =>
    simp only [State.loopStep, Option.ite_none_right_eq_some, Option.some.injEq] at hstep
    obtain ⟨-, rfl⟩ := hstep
    by_cases hstop : s.m_isStop = true
    · -- the loop ends, and with it its handle of the socket
      rw [if_pos hstop]
      exact h.endLoop hstop i
    · rw [if_neg hstop]
      exact h.setPhase hl (by simp [Phase.fd]) (by simp)
  | call =>
    simp only [State.loopStep, Option.ite_none_right_eq_some, Option.some.injEq] at hstep
    obtain ⟨hphase, rfl⟩ := hstep
    exact h.setPhase hl (by simp [Phase.fd, hphase]) (by simp)
  | answer j client =>
    simp only [State.loopStep] at hstep
    split at hstep
    · -- the connection goes to the io worker
      cases hstep
      have hnext : Inv (s.setPhase i l .testing) := h.setPhase hl (by simp [Phase.fd]) (by simp)
      refine { hnext with handed := ?_, timeouts := ?_ }
      · have hperm := h.handed.append_right [Client.mk ‹Nat› (timevalOf s.m_recvTimeout.toInt64)]
        refine hperm.trans ?_
        simp only [List.append_assoc]
        exact List.perm_append_comm.append_left s.waiting
      · intro c hc
        rcases List.mem_append.mp hc with hc | hc
        · exact h.timeouts c hc
        · rw [List.mem_singleton.mp hc]
          rfl
    · cases hstep
      exact h.setPhase hl (by simp [Phase.fd]) (by simp)
    · cases hstep
  | park j =>
    cases ha
    simp only [State.loopStep] at hstep
    split at hstep
    · rename_i n hphase
      cases hstep
      refine h.setPhase hl (by simp [Phase.fd, hphase]) ?_
      intro n' hn
      cases hn
      have hmay := horderly l hl
      simp only [State.mayPark, hphase, Phase.fd, Bool.and_eq_true, beq_iff_eq, Bool.not_eq_true'] at hmay
      exact ⟨hmay.1.symm, hmay.2⟩
    · cases hstep
  | report j =>
    simp only [State.loopStep] at hstep
    split at hstep
    · rename_i n hphase
      cases hstep
      exact h.setPhase hl (by simp [Phase.fd, hphase]) (by simp)
    · cases hstep
  | _ => cases hstep

theorem quiet_iff : s.quiet = true ↔ s.stops = 0 ∧ s.closing = [] := by
  simp [State.quiet]

/-- Nothing is open once `m_socks` is empty and the loops have closed sockets only. -/
theorem fd_reap_cleared (hsocks : s.m_socks = []) (hloops : ∀ k ∈ s.loops.map Loop.sock, s.fd k = none) :
    s.reap.fd = fun _ => none := by
  funext k
  rw [fd_reap]
  split
  · rename_i hheld
    exact hloops k (by simpa [State.held, hsocks] using hheld)
  · rfl

/-- `m_socks` is cleared and no socket is open any more. -/
theorem Inv.cleared (h : Inv s) {closing : List Closing} {alive : Bool}
    (hclosed : ∀ k ∈ s.loops.map Loop.sock, s.fd k = none) (hrun : s.m_isStop = false → s.loops = [])
    (honce : s.stops + closing.length ≤ 1) (hstopping : s.stops ≠ 0 ∨ closing ≠ [] → s.m_isStop = true)
    (hcancels : ∀ c ∈ closing, c.cancels ≤ 2) (hdead : alive = false → s.loops = []) :
    Inv { s with m_socks := [], closing := closing, alive := alive }.reap := by
  have hfd := fd_reap_cleared (s := { s with m_socks := [], closing := closing, alive := alive }) rfl hclosed
  constructor
  · rw [hfd]
    constructor <;> simp [State.reap]
  · rw [hfd, length_reap]
    exact h.loops.mono (Nat.le_refl _) (by simp)
  · exact honce
  · intro hquiet
    apply hstopping
    rw [← Bool.not_eq_true, quiet_iff] at hquiet
    exact not_and_or.mp hquiet
  · intro hstart
    simp [State.reap, hrun hstart]
  · simp [State.reap]
  · simp [hfd]
  · simp [hfd]
  · -- a parked loop would have an open socket
    intro l hl n hn
    have hopen := (h.parked l hl n hn).1
    rw [hclosed l.sock (List.mem_map_of_mem hl)] at hopen
    cases hopen
  · exact hcancels
  · exact h.handed
  · exact h.timeouts
  · exact fun halive => ⟨rfl, hdead halive⟩

theorem Inv.start (h : Inv s) (halive : s.alive = true)
    (horderly : s.m_isStop = true → s.quiet = true ∧ s.loops = []) : Inv s.start := by
  by_cases hstop : s.m_isStop = true
  · -- nothing of the last run is left, and each socket gets its loop
    obtain ⟨hquiet, hloops⟩ := horderly hstop
    have hmap : (s.start.loops).map Loop.sock = s.m_socks := by
      simp [State.start, hstop, hloops, Function.comp_def]
    have hscheduled : ∀ l ∈ s.start.loops, l.phase = .scheduled := by
      simp [State.start, hstop, hloops]
    have hstart : s.start = { s with m_isStop := false, loops := s.start.loops } := by
      simp [State.start, hstop]
    rw [hstart]
    have hempty : ∀ x ∈ s.start.loops.map Loop.holds, x.2 = none := by
      intro x hx
      obtain ⟨l, hl, rfl⟩ := List.mem_map.mp hx
      simp [Loop.holds, hscheduled l hl, Phase.fd]
    refine
      { h with
        loops := ?_, stopping := ?_, watched := fun _ => hmap, rested := ?_, parked := ?_, destroyed := ?_ }
    · constructor
      · rw [map_sock, hmap]
        exact h.sockets.nodup
      · rw [map_sock, hmap]
        exact h.sockets.below
      · intro l hl n hn
        cases (hempty l hl).symm.trans hn
      · intro l hl n hn
        cases (hempty l hl).symm.trans hn
    · exact fun hq => absurd hquiet (Bool.eq_false_iff.mp hq)
    · exact fun hs => nomatch hs
    · intro l hl n hn
      cases (hscheduled l hl).symm.trans hn
    · exact fun hdead => absurd halive (Bool.eq_false_iff.mp hdead)
  · rw [State.start, if_neg hstop]
    exact h

/-- The kernel has given each new socket a descriptor of its own. -/
theorem Sockets.add (h : Sockets s.m_socks s.objects.length s.fd) {socks : List Socket}
    (hnodup : (socks.map Socket.sock).Nodup) (hfree : ∀ k, s.fd k ≠ none → s.fd k ∉ socks.map Socket.sock) :
    Sockets (s.add socks).m_socks (s.add socks).objects.length (s.add socks).fd := by
  have hapart : ∀ k j, (hj : j < socks.length) → s.fd k ≠ none → s.fd k = socks[j].sock → False := by
    intro k j hj hk heq
    exact hfree k hk (heq ▸ List.mem_map_of_mem (List.getElem_mem hj))
  have hlen : (s.add socks).objects.length = s.objects.length + socks.length := by simp [State.add]
  constructor
  · refine h.nodup.append (List.nodup_range.map fun a b => by simp) ?_
    intro k hk hk'
    have hlt := h.below k hk
    simp at hk'
    omega
  · intro k hk
    rw [hlen]
    rcases List.mem_append.mp hk with hk | hk
    · exact Nat.lt_of_lt_of_le (h.below k hk) (Nat.le_add_right _ _)
    · simp at hk
      omega
  · intro k hk
    rcases open_add hk with hlt | ⟨j, hj, rfl⟩
    · exact List.mem_append_left _ (h.owned k (fd_add_old hlt socks ▸ hk))
    · exact List.mem_append_right _ (by simp [hj])
  · intro k k' hk heq
    have hk' : (s.add socks).fd k' ≠ none := heq ▸ hk
    rcases open_add hk with hlt | ⟨j, hj, rfl⟩ <;> rcases open_add hk' with hlt' | ⟨j', hj', rfl⟩
    · rw [fd_add_old hlt] at hk heq
      rw [fd_add_old hlt'] at heq
      exact h.apart k k' hk heq
    · rw [fd_add_old hlt] at hk heq
      rw [fd_add_new hj'] at heq
      exact (hapart k j' hj' hk heq).elim
    · rw [fd_add_old hlt'] at hk' heq
      rw [fd_add_new hj] at heq
      exact (hapart k' j hj hk' heq.symm).elim
    · rw [fd_add_new hj, fd_add_new hj'] at heq
      have hmap : j < (socks.map Socket.sock).length := by simpa using hj
      have hmap' : j' < (socks.map Socket.sock).length := by simpa using hj'
      have hsame : (socks.map Socket.sock)[j] = (socks.map Socket.sock)[j'] := by simpa using heq
      rw [hnodup.getElem_inj_iff.mp hsame]

/-- A successful `bind`. -/
theorem Inv.bound (h : Inv s) (halive : s.alive = true) {addrs : List (Address × Answers)}
    (hstop : s.m_isStop = true) (hquiet : s.quiet = true) (hfresh : s.fresh addrs) (hall : ∀ x ∈ addrs, ¬ Failing x) :
    Inv (s.add (addrs.map listener)) := by
  have hfilter : (addrs.filter fun x => ¬ Failing x) = addrs :=
    List.filter_eq_self.mpr fun x hx => decide_eq_true (hall x hx)
  obtain ⟨hnodup, hfree⟩ := hfresh
  have hfds : (addrs.map listener).map Socket.sock = addrs.map fun x => x.2.socket := by
    simp [listener, Function.comp_def]
  rw [hfilter, ← hfds] at hnodup hfree
  have hfree : ∀ k, s.fd k ≠ none → s.fd k ∉ (addrs.map listener).map Socket.sock := by
    intro k hk
    obtain ⟨sock, hget, hsock⟩ := Option.bind_eq_some_iff.mp (Option.ne_none_iff_exists'.mp hk).choose_spec
    have heq : s.fd k = sock.sock := by simp [State.fd, hget]
    rw [heq] at hk ⊢
    exact hfree sock (List.mem_of_getElem? hget) hk
  have hold : ∀ k ∈ s.loops.map Loop.sock, (s.add (addrs.map listener)).fd k = s.fd k :=
    fun k hk => fd_add_old (h.loops.below k (map_sock.symm ▸ hk)) _
  obtain ⟨-, hclosing⟩ := quiet_iff.mp hquiet
  constructor
  · exact h.sockets.add hnodup hfree
  · exact h.loops.mono (by simp [State.add]) fun k hk _ => hold k (map_sock ▸ hk)
  · exact h.once
  · exact fun _ => hstop
  · exact fun hrun => absurd hstop (Bool.eq_false_iff.mp hrun)
  · intro _ k hk
    rcases List.mem_append.mp hk with hk | hk
    · rw [fd_add_old (h.sockets.below k hk)]
      exact h.opened hquiet k hk
    · obtain ⟨j, hj, rfl⟩ := List.mem_map.mp hk
      have hj := List.mem_range.mp hj
      rw [fd_add_new hj]
      have haddr : j < addrs.length := by simpa using hj
      simpa [listener] using fun hnone => hall _ (List.getElem_mem haddr) (.inl hnone)
  · intro rest hrest
    simp [State.add, hclosing] at hrest
  · exact fun _ _ k hk => (hold k hk).trans (h.rested hstop hquiet k hk)
  · intro l hl n hn
    obtain ⟨hfd, hlate⟩ := h.parked l hl n hn
    exact ⟨(hold l.sock (List.mem_map_of_mem hl)).trans hfd, hlate⟩
  · exact h.cancels
  · exact h.handed
  · exact h.timeouts
  · exact fun hdead => absurd halive (Bool.eq_false_iff.mp hdead)

/-- Only one function of `stop` runs. -/
theorem Inv.closing_eq (h : Inv s) {j : Nat} {c : Closing} (hj : s.closing[j]? = some c) :
    s.m_isStop = true ∧ j = 0 ∧ s.closing = [c] := by
  have honce := h.once
  match hclosing : s.closing, j with
  | [], _ => simp [hclosing] at hj
  | [only], 0 =>
    have honly : only = c := by simpa [hclosing] using hj
    exact ⟨h.stopping (by simp [State.quiet, hclosing]), rfl, by rw [honly]⟩
  | [only], j + 1 => simp [hclosing] at hj
  | _ :: _ :: more, _ => simp [hclosing] at honce; omega

/-- What is parked behind a wake-up was parked, on another descriptor. -/
theorem parked_of_wake {fd : Option Nat} {l : Loop} {n : Nat} (hn : (l.wake fd).phase = .parked n) :
    l.wake fd = l ∧ l.phase = .parked n ∧ fd ≠ some n := by
  unfold Loop.wake at hn ⊢
  split at hn
  · rename_i m hphase
    split at hn
    · cases hn
    · rename_i hne
      have hm : m = n := by simpa [hphase] using hn
      rw [← hm]
      simp only [hphase, if_neg hne]
      exact ⟨trivial, trivial, hne⟩
  · rename_i hother
    exact absurd hn (hother n)

/-- A `cancelAll` of the function of `stop`. -/
theorem Inv.cancelAll (h : Inv s) (hstop : s.m_isStop = true) {k : Nat} {rest : List Nat} {cancels : Nat}
    (hless : cancels < 2) (hclosing : s.closing = [⟨k :: rest, cancels⟩]) :
    Inv { s.cancelAll k with closing := s.closing.set 0 ⟨k :: rest, cancels + 1⟩ } := by
  have hholds : (s.cancelAll k).loops.map Loop.holds = s.loops.map Loop.holds := map_holds_wake _ _
  constructor
  · exact h.sockets
  · show Loops ((s.cancelAll k).loops.map Loop.holds) s.objects.length s.fd
    rw [hholds]
    exact h.loops
  · show s.stops + (s.closing.set 0 _).length ≤ 1
    rw [List.length_set]
    exact h.once
  · exact fun _ => hstop
  · exact fun hrun => absurd hstop (Bool.eq_false_iff.mp hrun)
  · exact fun hq => by simp [quiet_iff, hclosing] at hq
  · intro c hc
    obtain rfl : c = ⟨k :: rest, cancels + 1⟩ := by simpa [hclosing] using hc
    exact h.remaining ⟨k :: rest, cancels⟩ (by simp [hclosing])
  · exact fun _ hq => by simp [quiet_iff, hclosing] at hq
  · -- nobody is parked on the descriptor that is cancelled
    intro l hl n hn
    obtain ⟨l, hold, rfl⟩ := List.mem_map.mp hl
    obtain ⟨hsame, hparked, hne⟩ := parked_of_wake hn
    have hopen : s.fd l.sock = some n := (h.parked l hold n hparked).1
    have hother : k ≠ l.sock := by
      rintro rfl
      exact hne hopen
    rw [hsame]
    refine ⟨hopen, ?_⟩
    simp [State.late, hclosing, hother]
  · intro c hc
    obtain rfl : c = ⟨k :: rest, cancels + 1⟩ := by simpa [hclosing] using hc
    exact hless
  · exact h.handed
  · exact h.timeouts
  · intro hdead
    obtain ⟨hsocks, hloops⟩ := h.destroyed hdead
    exact ⟨hsocks, by simp [State.cancelAll, hloops]⟩

theorem inv_serverStep (h : Inv s) {a : Act} (horderly : Orderly s a) (hstep : s.serverStep a = some s') : Inv s' := by
  cases a with
  | bind addrs =>
    simp only [State.serverStep, Option.ite_none_right_eq_some, Option.some.injEq] at hstep
    obtain ⟨halive, rfl⟩ := hstep
    obtain ⟨hstop, hquiet, hfresh⟩ := horderly
    obtain ⟨hstops, hclosing⟩ := quiet_iff.mp hquiet
    rcases bind_cases s addrs with ⟨hall, heq⟩ | heq
    · rw [heq]
      exact h.bound halive hstop hquiet hfresh hall
    · rw [heq]
      exact h.cleared (h.rested hstop hquiet) (by simp [hstop]) h.once (by simp [hstop]) h.cancels (by simp [halive])
  | start =>
    simp only [State.serverStep, Option.ite_none_right_eq_some, Option.some.injEq] at hstep
    obtain ⟨halive, rfl⟩ := hstep
    exact h.start halive horderly
  | stop =>
    simp only [State.serverStep, Option.ite_none_right_eq_some, Option.some.injEq] at hstep
    obtain ⟨halive, rfl⟩ := hstep
    obtain ⟨hstops, hclosing⟩ := quiet_iff.mp horderly
    refine { h with once := ?_, stopping := fun _ => rfl, watched := ?_, opened := ?_, rested := ?_ }
    · simp [hstops, hclosing]
    · exact fun hs => nomatch hs
    · exact fun hq => by simp [quiet_iff] at hq
    · exact fun _ hq => by simp [quiet_iff] at hq
  | beginClose =>
    simp only [State.serverStep, Option.ite_none_right_eq_some, Option.some.injEq] at hstep
    obtain ⟨hpos, rfl⟩ := hstep
    have honce := h.once
    have hclosing : s.closing = [] := List.length_eq_zero_iff.mp (by omega)
    have hstop : s.m_isStop = true := h.stopping (by simp [State.quiet]; omega)
    refine
      { h with
        once := ?_, stopping := fun _ => hstop, opened := ?_, remaining := ?_, rested := ?_, parked := ?_
        cancels := ?_ }
    · simp [hclosing]
      omega
    · exact fun hq => by simp [quiet_iff] at hq
    · -- the function of `stop` has all of `m_socks` before it
      intro c hc
      obtain rfl : c = ⟨s.m_socks, 0⟩ := by simpa [hclosing] using hc
      exact h.sockets.owned
    · exact fun _ hq => by simp [quiet_iff] at hq
    · intro l hl n hn
      exact ⟨(h.parked l hl n hn).1, by simp [State.late, hclosing]⟩
    · simp [hclosing]
  | cancelNext j =>
    simp only [State.serverStep] at hstep
    split at hstep
    · rename_i k rest cancels hj
      rw [Option.ite_none_right_eq_some, Option.some.injEq] at hstep
      obtain ⟨hless, rfl⟩ := hstep
      obtain ⟨hstop, rfl, hclosing⟩ := h.closing_eq hj
      exact h.cancelAll hstop hless hclosing
    · cases hstep
  | closeNext j =>
    simp only [State.serverStep] at hstep
    split at hstep
    · rename_i k rest hj
      cases hstep
      obtain ⟨hstop, rfl, hclosing⟩ := h.closing_eq hj
      have hfd : ∀ k', (s.close k).fd k' ≠ none → k ≠ k' ∧ (s.close k).fd k' = s.fd k' := by
        intro k' hk'
        rw [fd_close] at hk' ⊢
        split at hk'
        · exact absurd rfl hk'
        · exact ⟨‹_›, if_neg ‹_›⟩
      have hlen : (s.close k).objects.length = s.objects.length := by simp [State.close]
      constructor
      · show Sockets s.m_socks (s.close k).objects.length (s.close k).fd
        rw [hlen]
        exact h.sockets.shrink fun k' hk' => (hfd k' hk').2
      · show Loops (s.loops.map Loop.holds) (s.close k).objects.length (s.close k).fd
        exact h.loops.mono (Nat.le_of_eq hlen.symm) fun k' _ hk' => (hfd k' hk').2
      · show s.stops + (s.closing.set 0 ⟨rest, 0⟩).length ≤ 1
        rw [List.length_set]
        exact h.once
      · exact fun _ => hstop
      · exact fun hrun => absurd hstop (Bool.eq_false_iff.mp hrun)
      · exact fun hq => by simp [quiet_iff, hclosing] at hq
      · -- the sockets that are still open are among the rest
        intro c hc k' hk'
        obtain rfl : c = ⟨rest, 0⟩ := by simpa [hclosing] using hc
        obtain ⟨hne, heq⟩ := hfd k' hk'
        have hmem := h.remaining ⟨k :: rest, 2⟩ (by simp [hclosing]) k' (heq ▸ hk')
        exact (List.mem_cons.mp hmem).resolve_left (Ne.symm hne)
      · exact fun _ hq => by simp [quiet_iff, hclosing] at hq
      · -- no loop is parked on the socket that is closed: both events have been cancelled
        intro l hl n hn
        obtain ⟨hopen, hlate⟩ := h.parked l hl n hn
        have hne : k ≠ l.sock := by simpa [State.late, hclosing] using hlate
        refine ⟨?_, by simp [State.late, hclosing]⟩
        show (s.close k).fd l.sock = some n
        rw [fd_close, if_neg hne]
        exact hopen
      · simp [hclosing]
      · exact h.handed
      · exact h.timeouts
      · exact h.destroyed
    · cases hstep
  | clear j =>
    simp only [State.serverStep] at hstep
    split at hstep
    · rename_i hj
      cases hstep
      obtain ⟨hstop, rfl, hclosing⟩ := h.closing_eq hj
      -- what is open is among the rest, and nothing is left of it
      have hclosed : ∀ k, s.fd k = none := by
        intro k
        by_contra hk
        exact absurd (h.remaining _ (List.mem_of_getElem? hj) k hk) (List.not_mem_nil)
      exact h.cleared (fun k _ => hclosed k) (by simp [hstop])
        (Nat.le_trans (Nat.add_le_add_left (List.length_eraseIdx_le ..) _) h.once) (fun _ => hstop)
        (fun c hc => h.cancels c (List.mem_of_mem_eraseIdx hc))
        (fun hdead => (h.destroyed hdead).2)
    · cases hstep
  | handle k =>
    simp only [State.serverStep, Option.map_eq_some_iff] at hstep
    obtain ⟨c, hc, rfl⟩ := hstep
    refine { h with handed := ?_ }
    -- the connection goes from those that wait to those that are handled
    obtain ⟨hk, rfl⟩ := List.getElem?_eq_some_iff.mp hc
    have hperm := (List.getElem_cons_eraseIdx_perm hk).symm.append_right s.handled
    refine h.handed.trans (hperm.trans ?_)
    rw [← List.append_assoc]
    exact (List.perm_append_singleton _ _).symm
  | destroy =>
    simp only [State.serverStep, Option.ite_none_right_eq_some, Option.some.injEq] at hstep
    obtain ⟨⟨-, hloops, hquiet, -⟩, rfl⟩ := hstep
    obtain ⟨hstops, hclosing⟩ := quiet_iff.mp hquiet
    exact h.cleared (by simp [hloops]) (fun _ => hloops) h.once (by simp [hstops, hclosing]) h.cancels
      (fun _ => hloops)
  | _ => cases hstep

end Steps

theorem inv_step {s s' : State} (h : Inv s) {a : Act} (horderly : Orderly s a) (hstep : step s a = some s') :
    Inv s' := by
  rcases step_cases hstep with ⟨i, l, ha, hl, hstep⟩ | hstep
  · exact inv_loopStep h ha hl horderly hstep
  · exact inv_serverStep h horderly hstep

/-- The server has been stopped and the last `stop` is through. -/
def State.stopped (s : State) : Bool := s.m_isStop && s.quiet

/-- What a user of the server relies on. -/
structure Sound (s : State) : Prop where
  /-- No two loops accept from one socket. -/
  one_loop : (s.loops.map Loop.sock).Nodup
  /-- Nor have two one descriptor in hand, which would make `IOManager::addEvent` assert. -/
  one_waiter : ∀ (i j n : Nat) (l l' : Loop), s.loops[i]? = some l → l.phase.fd = some n → s.loops[j]? = some l' →
    l'.phase.fd = some n → i = j
  /-- A server that runs has a loop for each of its sockets and no other, and all are open. -/
  running : s.m_isStop = false → s.loops.map Loop.sock = s.m_socks ∧ ∀ k ∈ s.m_socks, s.fd k ≠ none
  /-- `stop` and the destructor find every open socket. -/
  owned : ∀ k, s.fd k ≠ none → k ∈ s.m_socks
  /-- A loop that has not ended when the last `stop` is through has a closed socket, and is not parked. -/
  closed : s.stopped = true → ∀ l ∈ s.loops, s.fd l.sock = none ∧ ∀ n, l.phase ≠ .parked n
  /-- Every connection is given to `handleClient` once, with the time-out of the server as a `timeval`; in
  milliseconds that is the time-out, if its seconds are an `int`. -/
  handed : s.accepted.Perm (s.waiting ++ s.handled) ∧ ∀ c ∈ s.accepted,
    c.recvTimeout = timevalOf s.m_recvTimeout.toInt64 ∧
      (s.m_recvTimeout.toNat < 2147483648000 → c.recvTimeout.millis = some s.m_recvTimeout.toInt64)
  /-- A destroyed server leaves nothing open. -/
  destroyed : s.alive = false → ∀ k, s.fd k = none

theorem millis_recvTimeout {v : UInt64} (h : v.toNat < 2147483648000) :
    (timevalOf v.toInt64).millis = some v.toInt64 := by
  have hv : v.toInt64.toInt = v.toNat := by
    have hbits : v.toInt64.toInt = v.toBitVec.toInt := rfl
    have hnat : v.toBitVec.toNat = v.toNat := rfl
    rw [hbits, BitVec.toInt_eq_toNat_of_lt (by omega), hnat]
  obtain ⟨w, hw, hval⟩ := timevalOf_millis (v := v.toInt64) (by omega)
  have heq : w = v.toInt64 := by
    rw [← Int64.toInt_inj, hval, hv, Int.bmod_def]
    omega
  rw [hw, heq]

theorem Inv.sound {s : State} (h : Inv s) : Sound s where
  one_loop := map_sock ▸ h.loops.nodup
  one_waiter i j n l l' hi hn hj hn' := by
    have hi := getElem?_holds hi
    have hj := getElem?_holds hj
    have heq := h.loops.waiter _ (List.mem_of_getElem? hi) n hn _ (List.mem_of_getElem? hj) hn'
    refine (List.getElem?_inj ?_ (List.Nodup.of_map Prod.fst h.loops.nodup)).mp (by rw [hi, hj, heq])
    exact (List.getElem?_eq_some_iff.mp hi).1
  running hrun := by
    have hquiet : s.quiet = true := by
      by_contra hq
      exact absurd (h.stopping (Bool.eq_false_iff.mpr hq)) (by simp [hrun])
    exact ⟨h.watched hrun, h.opened hquiet⟩
  owned := h.sockets.owned
  closed hstopped l hl := by
    obtain ⟨hstop, hquiet⟩ := Bool.and_eq_true_iff.mp hstopped
    have hclosed := h.rested hstop hquiet l.sock (List.mem_map_of_mem hl)
    refine ⟨hclosed, ?_⟩
    intro n hn
    rw [(h.parked l hl n hn).1] at hclosed
    cases hclosed
  handed := by
    refine ⟨h.handed, ?_⟩
    intro c hc
    have htimeout := h.timeouts c hc
    refine ⟨htimeout, ?_⟩
    intro hsmall
    rw [htimeout]
    exact millis_recvTimeout hsmall
  destroyed hdead k := by
    by_contra hk
    have hmem := h.sockets.owned k hk
    rw [(h.destroyed hdead).1] at hmem
    cases hmem

/-! ## A stopped server comes to rest -/

/-- The steps that are taken without a user, a client or a report of the kernel. -/
def Act.own : Act → Bool
  | .enter _ | .test _ | .call _ | .answer _ _ | .park _ | .beginClose | .cancelNext _ | .closeNext _ | .clear _ => true
  | _ => false

/-- How many steps a loop has still to take, after `m_isStop` is set; a parked one ends only when woken. -/
def Phase.left : Phase → Nat
  | .scheduled => 2
  | .testing => 1
  | .calling => 3
  | .accepting _ => 2
  | .parked _ => 1

/-- Five for a socket: a `cancelAll` counts for the loop that it wakes as well. -/
def Closing.left : Closing → Nat
  | ⟨[], _⟩ => 1
  | ⟨_ :: rest, cancels⟩ => 5 * rest.length + 6 - 2 * cancels

/-- A bound on the steps of its own that a stopped server has still to take. -/
def State.left (s : State) : Nat :=
  (s.loops.map fun l => l.phase.left).sum + (s.closing.map Closing.left).sum + s.stops * (5 * s.m_socks.length + 2)

theorem left_closing (socks : List Nat) : Closing.left ⟨socks, 0⟩ = 5 * socks.length + 1 := by
  cases socks with
  | nil => rfl
  | cons k rest =>
    rw [Closing.left, List.length_cons]
    omega

theorem left_eraseIdx {loops : List Loop} {i : Nat} {l : Loop} (hl : loops[i]? = some l) :
    ((loops.eraseIdx i).map fun l => l.phase.left).sum + l.phase.left =
      (loops.map fun l => l.phase.left).sum := by
  obtain ⟨hi, rfl⟩ := List.getElem?_eq_some_iff.mp hl
  rw [← ((List.getElem_cons_eraseIdx_perm hi).map fun l => l.phase.left).sum_nat, List.map_cons, List.sum_cons]
  exact Nat.add_comm _ _

theorem wake_cases (fd : Option Nat) (l : Loop) :
    l.wake fd = l ∨ ∃ n, l.phase = .parked n ∧ fd = some n ∧ l.wake fd = { l with phase := .accepting (some n) } := by
  unfold Loop.wake
  cases hphase : l.phase with
  | parked n =>
    by_cases hfd : fd = some n
    · exact .inr ⟨n, rfl, hfd, if_pos hfd⟩
    · exact .inl (if_neg hfd)
  | _ => exact .inl rfl

/-- A `cancelAll` wakes one loop at most: those that it could wake have one socket. -/
theorem left_wake (fd : Option Nat) (k : Nat) : ∀ loops : List Loop, (loops.map Loop.sock).Nodup →
    (∀ l ∈ loops, ∀ n, l.phase = .parked n → fd = some n → l.sock = k) →
    ((loops.map (Loop.wake fd)).map fun l => l.phase.left).sum ≤ (loops.map fun l => l.phase.left).sum + 1
  | [], _, _ => Nat.zero_le _
  | l :: rest, hnodup, hsock => by
    obtain ⟨hnew, hnodup⟩ := List.nodup_cons.mp hnodup
    obtain ⟨hone, hothers⟩ := List.forall_mem_cons.mp hsock
    simp only [List.map_cons, List.sum_cons]
    rcases wake_cases fd l with hsame | ⟨n, hphase, hfd, hwoken⟩
    · have hrest := left_wake fd k rest hnodup hothers
      rw [hsame]
      omega
    · have hasleep : rest.map (Loop.wake fd) = rest := by
        refine (List.map_congr_left fun l' hl' => ?_).trans (List.map_id rest)
        rcases wake_cases fd l' with hsame | ⟨m, hphase', hfd', -⟩
        · exact hsame
        · have hboth : l'.sock = l.sock := (hothers l' hl' m hphase' hfd').trans (hone n hphase hfd).symm
          exact absurd (hboth ▸ List.mem_map_of_mem hl') hnew
      rw [hwoken, hphase, hasleep]
      simp only [Phase.left]
      omega

section
variable {s s' : State}

theorem left_setPhase {i : Nat} {l : Loop} (hl : s.loops[i]? = some l) (phase : Phase)
    (hlt : phase.left < l.phase.left) : (s.setPhase i l phase).left < s.left := by
  have hset := sum_map_set (fun l : Loop => l.phase.left) hl { l with phase := phase }
  simp only [State.left, State.setPhase] at hset ⊢
  omega

/-- A step of a loop, with `m_isStop` set. -/
theorem left_loopStep (hstop : s.m_isStop = true) {i : Nat} {l : Loop} {a : Act} (hown : a.own = true)
    (hl : s.loops[i]? = some l) (hstep : s.loopStep i l a = some s') : s'.m_isStop = true ∧ s'.left < s.left := by
  cases a with
  | enter =>
    simp only [State.loopStep, Option.ite_none_right_eq_some, Option.some.injEq] at hstep
    obtain ⟨hphase, rfl⟩ := hstep
    exact ⟨hstop, left_setPhase hl _ (by simp [hphase, Phase.left])⟩
  | test =>
    simp only [State.loopStep, Option.ite_none_right_eq_some, Option.some.injEq] at hstep
    obtain ⟨hphase, rfl⟩ := hstep
    have herase := left_eraseIdx hl
    rw [hphase] at herase
    rw [if_pos hstop]
    refine ⟨hstop, ?_⟩
    simp only [State.left, State.reap, Phase.left] at herase ⊢
    omega
  | call =>
    simp only [State.loopStep, Option.ite_none_right_eq_some, Option.some.injEq] at hstep
    obtain ⟨hphase, rfl⟩ := hstep
    exact ⟨hstop, left_setPhase hl _ (by simp [hphase, Phase.left])⟩
  | answer j client =>
    simp only [State.loopStep] at hstep
    split at hstep
    · rename_i hphase
      cases hstep
      exact ⟨hstop, left_setPhase hl .testing (by simp [hphase, Phase.left])⟩
    · rename_i hphase
      cases hstep
      exact ⟨hstop, left_setPhase hl _ (by simp [hphase, Phase.left])⟩
    · cases hstep
  | park j =>
    simp only [State.loopStep] at hstep
    split at hstep
    · rename_i n hphase
      cases hstep
      exact ⟨hstop, left_setPhase hl _ (by simp [hphase, Phase.left])⟩
    · cases hstep
  | report j => cases hown
  | _ => cases hstep

/-- A step of the function of `stop`. -/
theorem left_serverStep (h : Inv s) (hstop : s.m_isStop = true) {a : Act} (hown : a.own = true)
    (hstep : s.serverStep a = some s') : s'.m_isStop = true ∧ s'.left < s.left := by
  cases a with
  | beginClose =>
    simp only [State.serverStep, Option.ite_none_right_eq_some, Option.some.injEq] at hstep
    obtain ⟨hpos, rfl⟩ := hstep
    have honce := h.once
    obtain ⟨hone, hnone⟩ : s.stops = 1 ∧ s.closing = [] := ⟨by omega, List.length_eq_zero_iff.mp (by omega)⟩
    refine ⟨hstop, ?_⟩
    simp only [State.left, hone, hnone, List.nil_append, List.map_cons, List.map_nil, List.sum_cons, List.sum_nil,
      left_closing]
    omega
  | cancelNext j =>
    simp only [State.serverStep] at hstep
    split at hstep
    · rename_i k rest cancels hj
      rw [Option.ite_none_right_eq_some, Option.some.injEq] at hstep
      obtain ⟨hless, rfl⟩ := hstep
      refine ⟨hstop, ?_⟩
      -- the cancel counts for two, and the loop that it wakes has one step more
      have hset := sum_map_set Closing.left hj ⟨k :: rest, cancels + 1⟩
      have hwake := left_wake (s.fd k) k s.loops (map_sock ▸ h.loops.nodup) (by
        intro l hl n hn hfd
        have hopen := (h.parked l hl n hn).1
        exact h.sockets.apart l.sock k (by simp [hopen]) (hopen.trans hfd.symm))
      simp only [State.left, State.cancelAll, Closing.left] at hset ⊢
      omega
    · cases hstep
  | closeNext j =>
    simp only [State.serverStep] at hstep
    split at hstep
    · rename_i k rest hj
      cases hstep
      refine ⟨hstop, ?_⟩
      have hset := sum_map_set Closing.left hj ⟨rest, 0⟩
      rw [left_closing] at hset
      simp only [State.left, State.close, Closing.left] at hset ⊢
      omega
    · cases hstep
  | clear j =>
    simp only [State.serverStep] at hstep
    split at hstep
    · rename_i cancels hj
      cases hstep
      obtain ⟨-, rfl, hclosing⟩ := h.closing_eq hj
      have honce := h.once
      have hnone : s.stops = 0 := by
        rw [hclosing, List.length_singleton] at honce
        omega
      refine ⟨hstop, ?_⟩
      simp [State.left, State.reap, hclosing, hnone, Closing.left]
    · cases hstep
  | bind | start | stop | handle | destroy => cases hown
  | _ => cases hstep

/-- A step of its own, with `m_isStop` set. -/
theorem left_step (h : Inv s) (hstop : s.m_isStop = true) {a : Act} (hown : a.own = true)
    (hstep : step s a = some s') : s'.m_isStop = true ∧ s'.left < s.left := by
  rcases step_cases hstep with ⟨i, l, -, hl, hloop⟩ | hserver
  · exact left_loopStep hstop hown hl hloop
  · exact left_serverStep h hstop hown hserver

end

/-! ## The life of a server -/

/-- The kernel gives descriptor `fd` for an address. -/
def listens (address : Address) (fd : Nat) : Address × Answers := (address, ⟨some fd, false, false, false⟩)

/-- The function of `stop`, and the loops that it wakes. -/
def closed : List Act :=
  [.beginClose, .cancelNext 0, .park 0, .cancelNext 0, .answer 0 none, .closeNext 0, .cancelNext 0, .call 1,
    .cancelNext 0, .closeNext 0, .clear 0, .answer 1 none, .test 1, .test 0]

/-- An `accept` that parks between the wake-up of `close` and its `close_f` is left, with its loop, on a descriptor
that is no more. -/
theorem parked_for_good :
    (Lib.after step [.bind [listens port80 5], .start, .enter 0, .test 0, .call 0, .park 0, .stop, .beginClose,
        .cancelNext 0, .cancelNext 0, .park 0, .closeNext 0, .clear 0] (init 0)).map
      (fun s => (s.m_isStop, s.quiet, s.loops, s.fd 0)) = some (true, true, [⟨0, .parked 5⟩], none) := by
  decide

/-- What comes of starting a server again before the sockets are closed (two loops accept from one
socket), and before the loops have ended (the kernel has given the descriptor out again and two loops
wait for it), and of binding while it runs (nobody accepts). -/
theorem restart_too_soon :
    (Lib.after step [.bind [listens port80 5], .start, .enter 0, .test 0, .call 0, .stop, .start] (init 0)).map
        State.loops = some [⟨0, .accepting (some 5)⟩, ⟨0, .scheduled⟩] ∧
      (Lib.after step [.bind [listens port80 5], .start, .enter 0, .test 0, .call 0, .stop, .beginClose, .cancelNext 0,
          .cancelNext 0, .closeNext 0, .clear 0, .bind [listens port80 5], .start, .enter 1, .test 1, .call 1]
          (init 0)).map
        State.loops = some [⟨0, .accepting (some 5)⟩, ⟨1, .accepting (some 5)⟩] ∧
      (Lib.after step [.start, .bind [listens port80 5], .start] (init 0)).map
        (fun s => (s.m_socks, s.loops)) = some ([0], []) := by
  decide

end Sylar.TcpServer
