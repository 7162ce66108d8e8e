import Mathlib.Data.List.Basic
import Mathlib.Data.List.Perm.Basic
import Mathlib.Logic.Function.Basic
import Sylar.Lib.Machine
import Sylar.Lib.Slots
import Sylar.Lib.Ownership
import Sylar.Hook.Fd
import Sylar.Hook.Nonblock
import Sylar.Hook.FdTable
import Sylar.Hook.SockTimeout
import Sylar.TcpServer.Bind

/- The `Socket` objects of `sylar/socket.cc` over the hooked `socket`, `accept` and `close` of
   `sylar/hook.cc`.

   The kernel keeps a socket for each descriptor that is open, and what it answers is an
   input of each call: which descriptor it gives out, and whether `connect`, `bind` and
   `listen` succeed. A descriptor that is open is no answer. `FdManager` is `Hook.Process`;
   the hook is on or off for each call, as it is for the thread that makes it.

   A descriptor is only a number here, and the kernel gives a closed one out again: an
   object that closed twice, or went on with a descriptor it has closed, would reach the
   socket of another object. `descriptors_owned` says that this does not happen, and that
   nothing stays open when the objects are gone, in every run of the operations on any
   number of objects, one after another: a `close` in another fiber while `accept` waits is left
   out, after which `do_io` tries again with a number that may be another socket's by then.
   `Socket::accept` drops its new descriptor when `init` refuses it; it never does, since
   every context of `FdManager` is of a socket that is not closed. -/
namespace Sylar.Net
open Sylar.Lib
open Sylar.Hook (FdCtx Process)
open Sylar.TcpServer (Address)

/-! ## Data -/

def AF_UNIX : Nat := 1
def AF_INET : Nat := 2
def AF_INET6 : Nat := 10

/-- `SOCK_STREAM`. -/
def TCP : Nat := 1
/-- `SOCK_DGRAM`. -/
def UDP : Nat := 2

structure Socket where
  /-- `m_sock`, -1 for none. -/
  sock : Option Nat := none
  family : Nat
  type : Nat
  protocol : Nat := 0
  isConnected : Bool := false
  localAddress : Option Address := none
  remoteAddress : Option Address := none
  deriving DecidableEq, Repr

structure KernelSocket where
  family : Nat
  type : Nat
  deriving DecidableEq, Repr

structure State where
  /-- The open sockets. -/
  kernel : Nat → Option KernelSocket
  process : Process
  /-- How often a descriptor was closed that was not open. -/
  refused : Nat

def State.init : State where
  kernel := fun _ => none
  process := ⟨fun _ => none, fun _ => 0, List.replicate 64 none, Hook.length_emptyTable⟩
  refused := 0

/-- What one call is answered. -/
structure Answers where
  /-- `t_hook_enable`. -/
  hook : Bool
  socket : Option Nat := none
  accepted : Option Nat := none
  connects : Bool := false
  binds : Bool := false
  listens : Bool := false
  sockname : Option Address := none
  peername : Option Address := none
  /-- `socket` and `connect` for the socket with which `bind` probes a Unix address. -/
  probeSocket : Option Nat := none
  probeConnects : Bool := false
  deriving DecidableEq, Repr

/-! ## The hooked calls -/

/-- The kernel opens a socket. -/
def State.opened (s : State) (fd : Nat) (o : KernelSocket) : State :=
  { s with kernel := Function.update s.kernel fd (some o) }

/-- `FdMgr::GetInstance()->get(fd, true)`; `fstat` sees the sockets that are open. -/
def State.manage (s : State) (fd : Nat) : State :=
  { s with process := (Process.get { s.process with stat := fun n => (s.kernel n).map fun _ => true } fd true).2 }

/-- `socket`. -/
def State.socket (s : State) (hook : Bool) (domain type : Nat) (answer : Option Nat) : Option Nat × State :=
  match answer with
  | none => (none, s)
  | some fd =>
    if (s.kernel fd).isSome then (none, s)
    else
      let s := s.opened fd { family := domain, type := type }
      if hook = false then (some fd, s) else (some fd, s.manage fd)

/-- `accept`: the new descriptor is taken under management, with the hook or without. -/
def State.accept (s : State) (fd : Option Nat) (answer : Option Nat) : Option Nat × State :=
  match fd.bind s.kernel, answer with
  | some o, some newsock =>
    if (s.kernel newsock).isSome then (none, s) else (some newsock, (s.opened newsock o).manage newsock)
  | _, _ => (none, s)

/-- `close_f`. -/
def State.closeF (s : State) (fd : Nat) : State :=
  match s.kernel fd with
  | none => { s with refused := s.refused + 1 }
  | some _ => { s with kernel := Function.update s.kernel fd none }

/-- `close`. The events that `cancelAll` triggers are left out. -/
def State.close (s : State) (hook : Bool) (fd : Nat) : State :=
  if hook = false then s.closeF fd
  else
    let s := if (s.process.get fd false).1.isSome then { s with process := s.process.del fd } else s
    s.closeF fd

/-! ## Socket -/

def Socket.new (family type : Nat) : Socket := { family := family, type := type }

def Socket.isValid (sock : Socket) : Bool := sock.sock.isSome

def Socket.newSock (sock : Socket) (k : Answers) (s : State) : Socket × State :=
  let (fd, s) := s.socket k.hook sock.family sock.type k.socket
  ({ sock with sock := fd }, s)

/-- `new UnknownAddress(m_family)`. -/
def unknownAddress (family : Nat) : Address := { family := family, addr := [], path := none }

def Socket.getRemoteAddress (sock : Socket) (k : Answers) : Address × Socket :=
  match sock.remoteAddress, k.peername with
  | some addr, _ => (addr, sock)
  | none, none => (unknownAddress sock.family, sock)
  | none, some result => (result, { sock with remoteAddress := some result })

def Socket.getLocalAddress (sock : Socket) (k : Answers) : Address × Socket :=
  match sock.localAddress, k.sockname with
  | some addr, _ => (addr, sock)
  | none, none => (unknownAddress sock.family, sock)
  | none, some result => (result, { sock with localAddress := some result })

/-- `Socket::init`. -/
def Socket.init (sock : Socket) (fd : Nat) (k : Answers) (s : State) : Bool × Socket :=
  match (s.process.get fd false).1 with
  | some ctx =>
    if ctx.isSocket && !ctx.isClosed then
      let sock := { sock with sock := some fd, isConnected := true }
      let sock := (sock.getLocalAddress k).2
      (true, (sock.getRemoteAddress k).2)
    else (false, sock)
  | none => (false, sock)

def Socket.close (sock : Socket) (k : Answers) (s : State) : Bool × Socket × State :=
  if sock.isConnected = false ∧ sock.sock = none then (true, sock, s)
  else
    let sock := { sock with isConnected := false }
    match sock.sock with
    | some fd => (false, { sock with sock := none }, s.close k.hook fd)
    | none => (false, sock, s)

/-- `::connect` and `::connect_with_timeout` are answered alike. -/
def Socket.connect (sock : Socket) (addr : Address) (k : Answers) (s : State) : Bool × Socket × State :=
  let sock := { sock with remoteAddress := some addr }
  let (sock, s) := if sock.isValid then (sock, s) else sock.newSock k s
  if sock.isValid = false then (false, sock, s)
  else if addr.family ≠ sock.family then (false, sock, s)
  else if k.connects = false then
    let (_, sock, s) := sock.close k s
    (false, sock, s)
  else
    let sock := { sock with isConnected := true }
    let sock := (sock.getRemoteAddress k).2
    (true, (sock.getLocalAddress k).2, s)

def Socket.reconnect (sock : Socket) (k : Answers) (s : State) : Bool × Socket × State :=
  match sock.remoteAddress with
  | none => (false, sock, s)
  | some addr => { sock with localAddress := none }.connect addr k s

/-- `Socket::bind`; the socket that probes a Unix address is destroyed when it is through. -/
def Socket.bind (sock : Socket) (addr : Address) (k : Answers) (s : State) : Bool × Socket × State :=
  let sock := { sock with localAddress := some addr }
  let (sock, s) := if sock.isValid then (sock, s) else sock.newSock k s
  if sock.isValid = false then (false, sock, s)
  else if addr.family ≠ sock.family then (false, sock, s)
  else
    let (taken, s) :=
      if addr.path.isSome then
        let k := { k with socket := k.probeSocket, connects := k.probeConnects }
        let (connected, probe, s) := (Socket.new AF_UNIX TCP).connect addr k s
        (connected, (probe.close k s).2.2)
      else (false, s)
    if taken then (false, sock, s)
    else if k.binds = false then (false, sock, s)
    else (true, (sock.getLocalAddress k).2, s)

def Socket.listen (sock : Socket) (k : Answers) : Bool := sock.isValid && k.listens

def Socket.accept (sock : Socket) (k : Answers) (s : State) : Option Socket × State :=
  let new : Socket := { family := sock.family, type := sock.type, protocol := sock.protocol }
  match s.accept sock.sock k.accepted with
  | (none, s) => (none, s)
  | (some newsock, s) =>
    let (ok, new) := new.init newsock k s
    (if ok then some new else none, s)

/-! ## Runs -/

inductive Op where
  | createTCP (address : Address)
  | createUDP (address : Address)
  | createTCPSocket
  | createUDPSocket
  | createTCPSocket6
  | createUDPSocket6
  | createUnixTCPSocket
  | createUnixUDPSocket
  | bind (i : Nat) (addr : Address)
  | connect (i : Nat) (addr : Address)
  | reconnect (i : Nat)
  | listen (i : Nat)
  | accept (i : Nat)
  | close (i : Nat)
  | getRemoteAddress (i : Nat)
  | getLocalAddress (i : Nat)
  /-- The last pointer to the object goes. -/
  | destroy (i : Nat)
  deriving DecidableEq, Repr

/-- The objects, in the order in which they were made; a place is empty when its object is destroyed. -/
structure World where
  state : State
  sockets : List (Option Socket)

def World.init : World where
  state := State.init
  sockets := []

def World.add (w : World) (sock : Socket) (s : State) : World := { state := s, sockets := w.sockets ++ [some sock] }

def World.put (w : World) (i : Nat) (sock : Option Socket) (s : State) : World :=
  { state := s, sockets := w.sockets.set i sock }

/-- The UDP sockets that are opened when they are made. -/
def World.addConnected (w : World) (family : Nat) (k : Answers) : World :=
  let (sock, s) := (Socket.new family UDP).newSock k w.state
  w.add { sock with isConnected := true } s

/-- The object that an operation is called on. -/
def Op.object : Op → Option Nat
  | .bind i _ | .connect i _ | .reconnect i | .listen i | .accept i | .close i | .getRemoteAddress i
  | .getLocalAddress i | .destroy i => some i
  | _ => none

/-- The operations on object `i`. -/
def World.call (w : World) (i : Nat) (sock : Socket) (k : Answers) : Op → Bool × World
  | .bind _ addr =>
    let (ok, sock, s) := sock.bind addr k w.state
    (ok, w.put i (some sock) s)
  | .connect _ addr =>
    let (ok, sock, s) := sock.connect addr k w.state
    (ok, w.put i (some sock) s)
  | .reconnect _ =>
    let (ok, sock, s) := sock.reconnect k w.state
    (ok, w.put i (some sock) s)
  | .listen _ => (sock.listen k, w)
  | .accept _ =>
    match sock.accept k w.state with
    | (some new, s) => (true, w.add new s)
    | (none, s) => (false, { w with state := s })
  | .close _ =>
    let (closed, sock, s) := sock.close k w.state
    (closed, w.put i (some sock) s)
  | .getRemoteAddress _ => (true, w.put i (some (sock.getRemoteAddress k).2) w.state)
  | .getLocalAddress _ => (true, w.put i (some (sock.getLocalAddress k).2) w.state)
  | .destroy _ =>
    let (_, _, s) := sock.close k w.state
    (true, w.put i none s)
  | _ => (false, w)

/-- The operations that make an object. -/
def World.create (w : World) (k : Answers) : Op → World
  | .createTCP address => w.add (Socket.new address.family TCP) w.state
  | .createUDP address => w.addConnected address.family k
  | .createTCPSocket => w.add (Socket.new AF_INET TCP) w.state
  | .createUDPSocket => w.addConnected AF_INET k
  | .createTCPSocket6 => w.add (Socket.new AF_INET6 TCP) w.state
  | .createUDPSocket6 => w.addConnected AF_INET6 k
  | .createUnixTCPSocket => w.add (Socket.new AF_UNIX TCP) w.state
  | .createUnixUDPSocket => w.add (Socket.new AF_UNIX UDP) w.state
  | _ => w

/-- One operation: what it returns, and the world behind it. -/
def step (op : Op × Answers) (w : World) : Bool × World :=
  match op.1.object with
  | some i =>
    match w.sockets[i]? with
    | some (some sock) => w.call i sock op.2 op.1
    | _ => (false, w)
  | none => (true, w.create op.2 op.1)

/-! ## Who holds which descriptor -/

/-- What the object holds, with the socket that the kernel should have there. -/
def Socket.entries (sock : Socket) : List (Nat × KernelSocket) :=
  match sock.sock with
  | some fd => [(fd, { family := sock.family, type := sock.type })]
  | none => []

/-- Every context is of a socket that is not closed. -/
def Managed (p : Process) : Prop := ∀ fd ctx, p.ctx fd = some ctx → ctx.isSocket = true ∧ ctx.isClosed = false

/-- The open sockets are those of the entries, each once. -/
structure Holds (s : State) (l : List (Nat × KernelSocket)) : Prop where
  owned : Owned (fun p o => p = o) s.kernel l
  managed : Managed s.process
  refused : s.refused = 0

theorem Holds.perm {s : State} {l l' : List (Nat × KernelSocket)} (h : Holds s l) (hp : l.Perm l') : Holds s l' :=
  ⟨h.owned.perm hp, h.managed, h.refused⟩

theorem entries_none {sock : Socket} (h : sock.sock = none) : sock.entries = [] := by
  rw [Socket.entries, h]

theorem entries_some {sock : Socket} {fd : Nat} (h : sock.sock = some fd) :
    sock.entries = [(fd, { family := sock.family, type := sock.type })] := by
  rw [Socket.entries, h]

section
variable {p : Process} {fd : Nat}

theorem ctx_resize_some {n : Nat} {ctx : FdCtx} (h : (p.resize n).ctx fd = some ctx) : p.ctx fd = some ctx := by
  unfold Process.ctx Process.resize at h
  dsimp only at h
  by_cases hfd : fd < p.datas.length
  · rw [List.getElem?_append_left hfd] at h
    exact h
  · rw [List.getElem?_append_right (Nat.le_of_not_lt hfd), List.getElem?_replicate] at h
    split at h <;> cases h

theorem managed_put (h : Managed p) {ctx : Option FdCtx}
    (hctx : ∀ c, ctx = some c → c.isSocket = true ∧ c.isClosed = false) : Managed (p.put fd ctx) := by
  intro n c hc
  by_cases hn : fd = n
  · subst hn
    have hlt : fd < p.datas.length := by
      have := Hook.lt_of_ctx hc
      rwa [Process.put, List.length_set] at this
    rw [Hook.ctx_put_self ctx hlt] at hc
    exact hctx c hc
  · rw [Hook.ctx_put_of_ne hn] at hc
    exact h n c hc

theorem managed_del (h : Managed p) : Managed (p.del fd) := by
  unfold Process.del
  split
  · exact h
  · exact managed_put h (by rintro c ⟨⟩)

theorem managed_create (h : Managed p) (hsock : p.stat fd = some true) : Managed (p.create fd).2 := by
  obtain ⟨hctx, hdatas, -⟩ := Hook.new_socket hsock
  have hnew : Managed (FdCtx.new fd p).2 := by
    intro n c hc
    rw [Process.ctx, hdatas] at hc
    exact h n c hc
  unfold Process.create
  dsimp only
  rw [hctx]
  refine managed_put ?_ (by rintro c ⟨⟩; exact ⟨rfl, rfl⟩)
  split
  · intro n c hc
    exact hnew n c (ctx_resize_some hc)
  · exact hnew

/-- `get` takes the socket under management, and finds its context then. -/
theorem managed_get (h : Managed p) (hsock : p.stat fd = some true) :
    Managed (p.get fd true).2 ∧ ((p.get fd true).2.ctx fd).isSome = true := by
  by_cases hnone : p.ctx fd = none
  · rw [Hook.get_new hnone]
    refine ⟨managed_create h hsock, ?_⟩
    rw [(Hook.create_ctx hsock).1]
    rfl
  · obtain ⟨ctx, hctx⟩ := Option.ne_none_iff_exists'.mp hnone
    have hlt := Hook.lt_of_ctx hctx
    have hsame : p.get fd true = (p.ctx fd, p) := by
      rw [Process.get, if_neg (Nat.not_le.mpr hlt), if_pos (.inl (by rw [hctx]; rfl))]
    rw [hsame]
    exact ⟨h, by rw [hctx]; rfl⟩

end

section
variable {s : State} {rest : List (Nat × KernelSocket)} {sock : Socket} {k : Answers}

theorem holds_opened (h : Holds s rest) {fd : Nat} (hfree : s.kernel fd = none) (o : KernelSocket) :
    Holds (s.opened fd o) ((fd, o) :: rest) :=
  ⟨h.owned.new hfree rfl, h.managed, h.refused⟩

theorem holds_manage (h : Holds s rest) {fd : Nat} (hopen : (s.kernel fd).isSome = true) :
    Holds (s.manage fd) rest ∧ ((s.manage fd).process.ctx fd).isSome = true := by
  obtain ⟨o, ho⟩ := Option.isSome_iff_exists.mp hopen
  have hsock : (s.kernel fd).map (fun _ => true) = some true := by rw [ho, Option.map_some]
  have hget := @managed_get { s.process with stat := fun n => (s.kernel n).map fun _ => true } fd h.managed hsock
  exact ⟨⟨h.owned, hget.1, h.refused⟩, hget.2⟩

theorem opened_isSome {fd : Nat} {o : KernelSocket} : ((s.opened fd o).kernel fd).isSome = true := by
  simp [State.opened]

theorem closeF_holds {fd : Nat} {o : KernelSocket} (h : Holds s ((fd, o) :: rest)) : Holds (s.closeF fd) rest := by
  obtain ⟨o', ho', -⟩ := h.owned.head
  rw [State.closeF, ho']
  exact ⟨h.owned.free, h.managed, h.refused⟩

theorem close_holds {fd : Nat} {o : KernelSocket} (h : Holds s ((fd, o) :: rest)) (hook : Bool) :
    Holds (s.close hook fd) rest := by
  unfold State.close
  split
  · exact closeF_holds h
  · refine closeF_holds (o := o) ?_
    split
    · exact ⟨h.owned, managed_del h.managed, h.refused⟩
    · exact h

theorem Socket.newSock_holds (h : Holds s rest) (sock : Socket) (k : Answers) :
    Holds (sock.newSock k s).2 ((sock.newSock k s).1.entries ++ rest) := by
  unfold Socket.newSock State.socket
  cases k.socket with
  | none => exact h
  | some fd =>
    dsimp only
    cases hfree : s.kernel fd with
    | some o => exact h
    | none =>
      have hopened := holds_opened h hfree { family := sock.family, type := sock.type }
      cases k.hook with
      | false => exact hopened
      | true => exact (holds_manage hopened opened_isSome).1

/-- A call on a socket that is opened for it when it is not. -/
theorem Socket.ensure_holds (h : Holds s (sock.entries ++ rest)) (k : Answers) :
    Holds (if sock.isValid then (sock, s) else sock.newSock k s).2
      ((if sock.isValid then (sock, s) else sock.newSock k s).1.entries ++ rest) := by
  split
  · exact h
  · rename_i hinvalid
    have hnone : sock.sock = none := by simpa [Socket.isValid] using hinvalid
    rw [entries_none hnone] at h
    exact sock.newSock_holds h k

theorem Socket.close_holds (h : Holds s (sock.entries ++ rest)) (k : Answers) :
    Holds (sock.close k s).2.2 rest ∧ (sock.close k s).2.1.sock = none := by
  unfold Socket.close
  split
  · rename_i hnothing
    rw [entries_none hnothing.2] at h
    exact ⟨h, hnothing.2⟩
  · dsimp only
    cases hsock : sock.sock with
    | none =>
      rw [entries_none hsock] at h
      exact ⟨h, rfl⟩
    | some fd =>
      rw [entries_some hsock] at h
      exact ⟨Net.close_holds h k.hook, rfl⟩

theorem Socket.getRemoteAddress_entries (sock : Socket) (k : Answers) :
    (sock.getRemoteAddress k).2.entries = sock.entries := by
  unfold Socket.getRemoteAddress
  split <;> rfl

theorem Socket.getLocalAddress_entries (sock : Socket) (k : Answers) :
    (sock.getLocalAddress k).2.entries = sock.entries := by
  unfold Socket.getLocalAddress
  split <;> rfl

theorem Socket.connect_holds (h : Holds s (sock.entries ++ rest)) (addr : Address) (k : Answers) :
    Holds (sock.connect addr k s).2.2 ((sock.connect addr k s).2.1.entries ++ rest) := by
  have hready := Socket.ensure_holds (show Holds s (({ sock with remoteAddress := some addr } : Socket).entries ++ rest)
    from h) k
  unfold Socket.connect
  dsimp only
  generalize (if ({ sock with remoteAddress := some addr } : Socket).isValid then
    ({ sock with remoteAddress := some addr }, s) else
    ({ sock with remoteAddress := some addr } : Socket).newSock k s) = ready at hready ⊢
  obtain ⟨sock, s⟩ := ready
  dsimp only at hready ⊢
  split
  · exact hready
  · split
    · exact hready
    · split
      · obtain ⟨hclosed, hnone⟩ := Socket.close_holds hready k
        rw [entries_none hnone]
        exact hclosed
      · rw [Socket.getLocalAddress_entries, Socket.getRemoteAddress_entries]
        exact hready

theorem Socket.reconnect_holds (h : Holds s (sock.entries ++ rest)) (k : Answers) :
    Holds (sock.reconnect k s).2.2 ((sock.reconnect k s).2.1.entries ++ rest) := by
  unfold Socket.reconnect
  split
  · exact h
  · rename_i addr hremote
    exact Socket.connect_holds (show Holds s (({ sock with localAddress := none } : Socket).entries ++ rest) from h)
      addr k

/-- The socket that probes an address is gone afterwards. -/
theorem probe_holds (h : Holds s rest) (addr : Address) (k : Answers) :
    Holds (((Socket.new AF_UNIX TCP).connect addr k s).2.1.close k ((Socket.new AF_UNIX TCP).connect addr k s).2.2).2.2
      rest :=
  (Socket.close_holds (Socket.connect_holds h addr k) k).1

theorem Socket.bind_holds (h : Holds s (sock.entries ++ rest)) (addr : Address) (k : Answers) :
    Holds (sock.bind addr k s).2.2 ((sock.bind addr k s).2.1.entries ++ rest) := by
  have hready := Socket.ensure_holds (show Holds s (({ sock with localAddress := some addr } : Socket).entries ++ rest)
    from h) k
  unfold Socket.bind
  dsimp only
  generalize (if ({ sock with localAddress := some addr } : Socket).isValid then
    ({ sock with localAddress := some addr }, s) else
    ({ sock with localAddress := some addr } : Socket).newSock k s) = ready at hready ⊢
  obtain ⟨sock, s⟩ := ready
  dsimp only at hready ⊢
  split
  · exact hready
  · split
    · exact hready
    · have hprobe := probe_holds hready addr { k with socket := k.probeSocket, connects := k.probeConnects }
      by_cases hpath : addr.path.isSome = true
      · rw [if_pos hpath]
        split
        · exact hprobe
        · split
          · exact hprobe
          · rw [Socket.getLocalAddress_entries]
            exact hprobe
      · rw [if_neg hpath]
        split
        · exact hready
        · split
          · exact hready
          · rw [Socket.getLocalAddress_entries]
            exact hready

/-- `init` takes a descriptor that is under management. -/
theorem Socket.init_holds (h : Holds s rest) {fd : Nat} (hctx : (s.process.ctx fd).isSome = true) (sock : Socket)
    (k : Answers) : ∃ new, sock.init fd k s = (true, new) ∧
      new.entries = [(fd, { family := sock.family, type := sock.type })] := by
  obtain ⟨ctx, hsome⟩ := Option.isSome_iff_exists.mp hctx
  obtain ⟨hsocket, hopen⟩ := h.managed fd ctx hsome
  unfold Socket.init
  rw [Hook.get_false, hsome]
  dsimp only
  rw [hsocket, hopen, if_pos (by rfl)]
  refine ⟨_, rfl, ?_⟩
  rw [Socket.getRemoteAddress_entries, Socket.getLocalAddress_entries]
  rfl

theorem Socket.accept_holds (h : Holds s (sock.entries ++ rest)) (k : Answers) :
    Holds (sock.accept k s).2 ((sock.accept k s).1.elim [] Socket.entries ++ (sock.entries ++ rest)) := by
  unfold Socket.accept State.accept
  cases hsock : sock.sock with
  | none => exact h
  | some fd =>
    have hkernel : s.kernel fd = some { family := sock.family, type := sock.type } := by
      rw [entries_some hsock] at h
      obtain ⟨o, ho, rfl⟩ := h.owned.head
      exact ho
    rw [Option.bind_some, hkernel]
    cases k.accepted with
    | none => exact h
    | some newsock =>
      dsimp only
      cases hfree : s.kernel newsock with
      | some o => exact h
      | none =>
        obtain ⟨hmanaged, hctx⟩ := holds_manage
          (holds_opened h hfree { family := sock.family, type := sock.type }) opened_isSome
        obtain ⟨new, hinit, hentries⟩ := Socket.init_holds hmanaged hctx
          { family := sock.family, type := sock.type, protocol := sock.protocol } k
        rw [if_neg (by rintro ⟨⟩)]
        dsimp only
        rw [hinit]
        dsimp only
        rw [if_pos rfl, Option.elim_some, hentries]
        exact hmanaged

/-- A connected socket has a descriptor, unless its type is UDP. -/
def Socket.Sound (sock : Socket) : Prop := sock.isConnected = true → sock.sock = none → sock.type = UDP

theorem Socket.getRemoteAddress_sound : (sock.getRemoteAddress k).2.Sound ↔ sock.Sound := by
  unfold Socket.getRemoteAddress
  split <;> rfl

theorem Socket.getLocalAddress_sound : (sock.getLocalAddress k).2.Sound ↔ sock.Sound := by
  unfold Socket.getLocalAddress
  split <;> rfl

theorem Socket.ensure_sound (h : sock.Sound) :
    (if sock.isValid then (sock, s) else sock.newSock k s).1.Sound := by
  split
  · exact h
  · rename_i hinvalid
    intro hconnected _
    exact h hconnected (by simpa [Socket.isValid] using hinvalid)

theorem Socket.close_sound (h : sock.Sound) : (sock.close k s).2.1.Sound := by
  unfold Socket.close
  split
  · exact h
  · dsimp only
    split <;> rintro ⟨⟩

theorem Socket.connect_sound (h : sock.Sound) (addr : Address) : (sock.connect addr k s).2.1.Sound := by
  have hready := Socket.ensure_sound (k := k) (s := s)
    (show ({ sock with remoteAddress := some addr } : Socket).Sound from h)
  unfold Socket.connect
  dsimp only
  generalize (if ({ sock with remoteAddress := some addr } : Socket).isValid then
    ({ sock with remoteAddress := some addr }, s) else
    ({ sock with remoteAddress := some addr } : Socket).newSock k s) = ready at hready ⊢
  obtain ⟨sock, s⟩ := ready
  dsimp only at hready ⊢
  split
  · exact hready
  · rename_i hvalid
    split
    · exact hready
    · split
      · exact Socket.close_sound hready
      · rw [Socket.getLocalAddress_sound, Socket.getRemoteAddress_sound]
        intro _ hnone
        exact absurd (by rw [Socket.isValid, show sock.sock = none from hnone]; rfl) hvalid

theorem Socket.reconnect_sound (h : sock.Sound) : (sock.reconnect k s).2.1.Sound := by
  unfold Socket.reconnect
  split
  · exact h
  · exact Socket.connect_sound (show ({ sock with localAddress := none } : Socket).Sound from h) _

theorem Socket.bind_sound (h : sock.Sound) (addr : Address) : (sock.bind addr k s).2.1.Sound := by
  have hready := Socket.ensure_sound (k := k) (s := s)
    (show ({ sock with localAddress := some addr } : Socket).Sound from h)
  unfold Socket.bind
  dsimp only
  generalize (if ({ sock with localAddress := some addr } : Socket).isValid then
    ({ sock with localAddress := some addr }, s) else
    ({ sock with localAddress := some addr } : Socket).newSock k s) = ready at hready ⊢
  obtain ⟨sock, s⟩ := ready
  dsimp only at hready ⊢
  split
  · exact hready
  · split
    · exact hready
    · generalize (if addr.path.isSome = true then _ else _ : Bool × State) = probed
      obtain ⟨taken, s⟩ := probed
      dsimp only
      split
      · exact hready
      · split
        · exact hready
        · rw [Socket.getLocalAddress_sound]
          exact hready

theorem Socket.accept_sound {new : Socket} (h : (sock.accept k s).1 = some new) : new.Sound := by
  unfold Socket.accept at h
  split at h
  · cases h
  · rename_i newsock s' _
    unfold Socket.init at h
    split at h
    · split at h
      · cases h
        rw [Socket.getRemoteAddress_sound, Socket.getLocalAddress_sound]
        rintro - ⟨⟩
      · cases h
    · cases h

end

/-! ## Every run -/

def held : Option Socket → List (Nat × KernelSocket)
  | some sock => sock.entries
  | none => []

structure Inv (w : World) : Prop where
  holds : Holds w.state (w.sockets.flatMap held)
  sound : ∀ sock, some sock ∈ w.sockets → sock.Sound

section
variable {w : World} {i : Nat} {sock : Socket} {k : Answers}

theorem Inv.put (h : Inv w) {place : Option Socket} (hi : w.sockets[i]? = some place) {o : Option Socket} {s : State}
    (hholds : Holds s (held o ++ (w.sockets.eraseIdx i).flatMap held)) (hsound : ∀ sock, o = some sock → sock.Sound) :
    Inv (w.put i o s) where
  holds := hholds.perm (flatMap_set held hi o).symm
  sound sock hsock := by
    rcases List.mem_or_eq_of_mem_set hsock with hold | heq
    · exact h.sound sock hold
    · exact hsound sock heq.symm

theorem Inv.add (h : Inv w) {s : State} (hholds : Holds s (sock.entries ++ w.sockets.flatMap held))
    (hsound : sock.Sound) : Inv (w.add sock s) := by
  refine ⟨hholds.perm ?_, ?_⟩
  · rw [World.add, List.flatMap_append, List.flatMap_singleton]
    exact List.perm_append_comm
  · intro sock' hmem
    rcases List.mem_append.mp hmem with hold | hnew
    · exact h.sound sock' hold
    · cases List.mem_singleton.mp hnew
      exact hsound

theorem Inv.front (h : Inv w) (hi : w.sockets[i]? = some (some sock)) :
    Holds w.state (sock.entries ++ (w.sockets.eraseIdx i).flatMap held) :=
  h.holds.perm (flatMap_slot held hi)

theorem inv_call (h : Inv w) (hi : w.sockets[i]? = some (some sock)) (op : Op) : Inv (w.call i sock k op).2 := by
  have hfront := h.front hi
  have hsound := h.sound sock (List.mem_of_getElem? hi)
  cases op with
  | bind j addr =>
    refine h.put hi (Socket.bind_holds hfront addr k) ?_
    rintro _ ⟨⟩
    exact Socket.bind_sound hsound addr
  | connect j addr =>
    refine h.put hi (Socket.connect_holds hfront addr k) ?_
    rintro _ ⟨⟩
    exact Socket.connect_sound hsound addr
  | reconnect j =>
    refine h.put hi (Socket.reconnect_holds hfront k) ?_
    rintro _ ⟨⟩
    exact Socket.reconnect_sound hsound
  | accept j =>
    have haccept := Socket.accept_holds hfront k
    have hnew := @Socket.accept_sound w.state sock k
    unfold World.call
    generalize sock.accept k w.state = result at haccept hnew
    obtain ⟨new, s⟩ := result
    cases new with
    | none => exact ⟨haccept.perm (flatMap_slot held hi).symm, h.sound⟩
    | some new => exact h.add (haccept.perm ((flatMap_slot held hi).symm.append_left _)) (hnew rfl)
  | close j =>
    obtain ⟨hclosed, hnone⟩ := Socket.close_holds hfront k
    have hput : Inv (w.put i (some (sock.close k w.state).2.1) (sock.close k w.state).2.2) := by
      refine h.put hi ?_ ?_
      · rw [held, entries_none hnone]
        exact hclosed
      · rintro _ ⟨⟩
        exact Socket.close_sound hsound
    exact hput
  | getRemoteAddress j =>
    refine h.put hi ?_ ?_
    · rw [held, Socket.getRemoteAddress_entries]
      exact hfront
    · rintro _ ⟨⟩
      exact Socket.getRemoteAddress_sound.mpr hsound
  | getLocalAddress j =>
    refine h.put hi ?_ ?_
    · rw [held, Socket.getLocalAddress_entries]
      exact hfront
    · rintro _ ⟨⟩
      exact Socket.getLocalAddress_sound.mpr hsound
  | destroy j => exact h.put hi (Socket.close_holds hfront k).1 (by rintro _ ⟨⟩)
  | _ => exact h

theorem inv_addConnected (h : Inv w) (family : Nat) : Inv (w.addConnected family k) :=
  h.add (Socket.newSock_holds h.holds (Socket.new family UDP) k) fun _ _ => rfl

theorem inv_create (h : Inv w) (op : Op) : Inv (w.create k op) := by
  have hnew : ∀ family type, Inv (w.add (Socket.new family type) w.state) := by
    intro family type
    exact h.add h.holds (by rintro ⟨⟩)
  cases op with
  | createTCP address => exact hnew address.family TCP
  | createUDP address => exact inv_addConnected h address.family
  | createTCPSocket => exact hnew AF_INET TCP
  | createUDPSocket => exact inv_addConnected h AF_INET
  | createTCPSocket6 => exact hnew AF_INET6 TCP
  | createUDPSocket6 => exact inv_addConnected h AF_INET6
  | createUnixTCPSocket => exact hnew AF_UNIX TCP
  | createUnixUDPSocket => exact hnew AF_UNIX UDP
  | _ => exact h

theorem inv_step (h : Inv w) (op : Op × Answers) : Inv (step op w).2 := by
  unfold step
  split
  · split
    · rename_i sock hi
      exact inv_call h hi op.1
    · exact h
  · exact inv_create h op.1

end

theorem inv_init : Inv World.init := by
  refine ⟨⟨owned_nil, ?_, rfl⟩, by rintro sock ⟨⟩⟩
  intro fd ctx hctx
  unfold Process.ctx World.init State.init at hctx
  dsimp only at hctx
  rw [List.getElem?_replicate] at hctx
  split at hctx <;> cases hctx

theorem inv_run (ops : List (Op × Answers)) : Inv (final step ops World.init) :=
  @final_inv _ _ _ step (fun _ => True) Inv (fun op _ _ h => inv_step h op) ops World.init (fun _ _ => trivial) inv_init

/-- Two objects with one descriptor are one object. -/
theorem Inv.unique {w : World} (h : Inv w) {i j fd : Nat} {a b : Socket} (hi : w.sockets[i]? = some (some a))
    (ha : a.sock = some fd) (hj : w.sockets[j]? = some (some b)) (hb : b.sock = some fd) : i = j := by
  by_contra hij
  have hnodup := (h.front hi).owned.nodup
  rw [List.map_append] at hnodup
  have hfirst : fd ∈ a.entries.map Prod.fst := by
    rw [entries_some ha]
    exact List.mem_singleton_self fd
  have hother : fd ∈ ((w.sockets.eraseIdx i).flatMap held).map Prod.fst := by
    refine List.mem_map.mpr ⟨(fd, { family := b.family, type := b.type }), List.mem_flatMap.mpr ⟨some b, ?_, ?_⟩, rfl⟩
    · exact List.mem_eraseIdx_iff_getElem?.mpr ⟨j, fun hji => hij hji.symm, hj⟩
    · rw [held, entries_some hb]
      exact List.mem_singleton_self _
  exact (List.nodup_append.mp hnodup).2.2 fd hfirst fd hother rfl

/-- Every open socket is held by exactly one object, every object that holds a descriptor holds an open socket
of its own family and type, a connected object holds one unless its type is UDP, and no descriptor is closed
that is not open. -/
theorem descriptors_owned (ops : List (Op × Answers)) :
    let w := final step ops World.init
    (∀ fd, (w.state.kernel fd).isSome = true →
      ∃! i : Nat, ∃ sock : Socket, w.sockets[i]? = some (some sock) ∧ sock.sock = some fd) ∧
    (∀ (sock : Socket) fd, some sock ∈ w.sockets → sock.sock = some fd →
      w.state.kernel fd = some { family := sock.family, type := sock.type }) ∧
    (∀ sock : Socket, some sock ∈ w.sockets → sock.isConnected = true → sock.sock = none → sock.type = UDP) ∧
    w.state.refused = 0 := by
  intro w
  have h : Inv w := inv_run ops
  refine ⟨?_, ?_, h.sound, h.holds.refused⟩
  · intro fd hopen
    obtain ⟨o, ho⟩ := Option.isSome_iff_exists.mp hopen
    obtain ⟨⟨_, p⟩, hmem, rfl⟩ := List.mem_map.mp (h.holds.owned.live fd o ho)
    obtain ⟨place, hplace, hheld⟩ := List.mem_flatMap.mp hmem
    cases place with
    | none => cases hheld
    | some sock =>
      obtain ⟨i, hi⟩ := List.mem_iff_getElem?.mp hplace
      cases hsock : sock.sock with
      | none =>
        rw [held, entries_none hsock] at hheld
        cases hheld
      | some fd' =>
        rw [held, entries_some hsock] at hheld
        cases List.mem_singleton.mp hheld
        refine ⟨i, ⟨sock, hi, hsock⟩, ?_⟩
        rintro j ⟨other, hj, hother⟩
        exact h.unique hj hother hi hsock
  · intro sock fd hmem hsock
    obtain ⟨i, hi⟩ := List.mem_iff_getElem?.mp hmem
    have hfront := h.front hi
    rw [entries_some hsock] at hfront
    obtain ⟨o, ho, rfl⟩ := hfront.owned.head
    exact ho

/-- When the objects are gone, nothing is open. -/
theorem nothing_open (ops : List (Op × Answers)) (hgone : ∀ o ∈ (final step ops World.init).sockets, o = none)
    (fd : Nat) : (final step ops World.init).state.kernel fd = none := by
  have hholds := (inv_run ops).holds
  have hnone : (final step ops World.init).sockets.flatMap held = [] := by
    refine List.flatMap_eq_nil_iff.mpr ?_
    intro o ho
    rw [hgone o ho, held]
  cases ho : (final step ops World.init).state.kernel fd with
  | none => rfl
  | some o =>
    have hlive := hholds.owned.live fd o ho
    rw [hnone] at hlive
    cases hlive

end Sylar.Net
