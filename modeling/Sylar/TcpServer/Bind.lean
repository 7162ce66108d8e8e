import Mathlib.Data.List.Basic

/- `TcpServer::bind` of `sylar/tcp_server.cc`, with `Socket::bind` and `Socket::listen`.

   What the kernel answers for an address is an input (`Answers`): whether `socket`
   returns a descriptor, whether the `connect` that probes a Unix address gets through,
   and whether `bind` and `listen` fail. The file that `Socket::bind` unlinks and what is
   logged are left out.

   One call appends a listening socket for each address that does not fail and notes the
   others (`bindLoop_eq`). A call with a failure then clears `m_socks`, with what earlier
   calls have put there, so the call is all or nothing when there was nothing before or
   nothing fails (`bind_atomic_iff`). -/
namespace Sylar.TcpServer

structure Address where
  family : Nat
  /-- `getAddr()`. -/
  addr : List UInt8
  /-- The path, of a `UnixAddress`. -/
  path : Option (List UInt8)
  deriving DecidableEq, Repr

structure Socket where
  /-- `m_sock`, -1 for none. -/
  sock : Option Nat
  family : Nat
  localAddress : Option Address
  /-- The kernel takes connections for it. -/
  listening : Bool
  deriving DecidableEq, Repr

/-- What the kernel answers for one address. -/
structure Answers where
  /-- `socket()`, -1 for none. -/
  socket : Option Nat
  /-- The probing `connect` to a Unix address gets through. -/
  connects : Bool
  bindFails : Bool
  listenFails : Bool
  deriving DecidableEq, Repr

/-- `Socket::CreateTCP`. -/
def Socket.createTCP (address : Address) : Socket where
  sock := none
  family := address.family
  localAddress := none
  listening := false

def Socket.isValid (s : Socket) : Bool := s.sock.isSome

def Socket.newSock (s : Socket) (k : Answers) : Socket := { s with sock := k.socket }

def Socket.bind (s : Socket) (addr : Address) (k : Answers) : Bool × Socket :=
  let s := { s with localAddress := some addr }
  let s := if s.isValid then s else s.newSock k
  if s.isValid = false then (false, s)
  else if addr.family ≠ s.family then (false, s)
  else if addr.path.isSome ∧ k.connects then (false, s)
  else if k.bindFails then (false, s)
  else (true, s)

def Socket.listen (s : Socket) (k : Answers) : Bool × Socket :=
  if s.isValid = false then (false, s)
  else if k.listenFails then (false, s)
  else (true, { s with listening := true })

/-- The loop over the addresses, with `m_socks` and `fails`. -/
def bindLoop : List (Address × Answers) → List Socket → List Address → List Socket × List Address
  | [], m_socks, fails => (m_socks, fails)
  | (addr, k) :: rest, m_socks, fails =>
    let sock := Socket.createTCP addr
    let (bound, sock) := sock.bind addr k
    if bound = false then bindLoop rest m_socks (fails ++ [addr])
    else
      let (listens, sock) := sock.listen k
      if listens = false then bindLoop rest m_socks (fails ++ [addr])
      else bindLoop rest (m_socks ++ [sock]) fails

/-- `TcpServer::bind(addrs, fails)`: what it returns, `m_socks` and `fails`. -/
def bind (m_socks : List Socket) (addrs : List (Address × Answers)) (fails : List Address) :
    Bool × List Socket × List Address :=
  let (m_socks, fails) := bindLoop addrs m_socks fails
  if fails ≠ [] then (false, [], fails) else (true, m_socks, fails)

/-! ## The loop -/

/-- The address gets no listening socket. -/
def Failing (x : Address × Answers) : Prop :=
  x.2.socket = none ∨ (x.1.path ≠ none ∧ x.2.connects = true) ∨ x.2.bindFails = true ∨ x.2.listenFails = true

instance (x : Address × Answers) : Decidable (Failing x) := inferInstanceAs (Decidable (_ ∨ _))

/-- The socket that listens on an address. -/
def listener (x : Address × Answers) : Socket where
  sock := x.2.socket
  family := x.1.family
  localAddress := some x.1
  listening := true

/-- One address. -/
theorem bindLoop_cons (x : Address × Answers) (rest : List (Address × Answers)) (m_socks : List Socket)
    (fails : List Address) :
    bindLoop (x :: rest) m_socks fails =
      if Failing x then bindLoop rest m_socks (fails ++ [x.1])
      else bindLoop rest (m_socks ++ [listener x]) fails := by
  obtain ⟨addr, socket, connects, bindFails, listenFails⟩ := x
  cases socket with
  | none => simp [bindLoop, Socket.bind, Socket.createTCP, Socket.newSock, Socket.isValid, Failing]
  | some fd =>
    cases hpath : addr.path <;> cases connects <;> cases bindFails <;> cases listenFails <;>
      simp [bindLoop, Socket.bind, Socket.listen, Socket.createTCP, Socket.newSock, Socket.isValid, Failing,
        listener, hpath]

theorem bindLoop_eq (addrs : List (Address × Answers)) (m_socks : List Socket) (fails : List Address) :
    bindLoop addrs m_socks fails =
      (m_socks ++ (addrs.filter fun x => ¬ Failing x).map listener,
        fails ++ (addrs.filter fun x => Failing x).map Prod.fst) := by
  induction addrs generalizing m_socks fails with
  | nil => simp [bindLoop]
  | cons x rest ih =>
    rw [bindLoop_cons]
    by_cases hx : Failing x
    · simp [hx, ih]
    · simp [hx, ih]

/-! ## All or nothing -/

/-- What is promised of one call: without success `m_socks` is as before and `fails` has the failing
addresses; with it there is one more listening socket for each address. -/
def Atomic (m_socks : List Socket) (addrs : List (Address × Answers)) : Prop :=
  match bind m_socks addrs [] with
  | (false, socks, fails) => socks = m_socks ∧ fails = (addrs.filter fun x => Failing x).map Prod.fst
  | (true, socks, _) => ∃ more, socks = m_socks ++ more ∧
      more.map Socket.localAddress = addrs.map (fun x => some x.1) ∧
      ∀ s ∈ more, s.isValid = true ∧ s.listening = true

/-- **All-or-nothing bind**: a call keeps what is promised if and only if no socket was there before or no
address fails. -/
theorem bind_atomic_iff (m_socks : List Socket) (addrs : List (Address × Answers)) :
    Atomic m_socks addrs ↔ m_socks = [] ∨ ∀ x ∈ addrs, ¬ Failing x := by
  have hnone : ((addrs.filter fun x => Failing x).map Prod.fst = []) ↔ ∀ x ∈ addrs, ¬ Failing x := by
    simp
  unfold Atomic bind
  rw [bindLoop_eq]
  by_cases hall : ∀ x ∈ addrs, ¬ Failing x
  · have hfilter : (addrs.filter fun x => ¬ Failing x) = addrs :=
      List.filter_eq_self.mpr fun x hx => decide_eq_true (hall x hx)
    simp only [hnone.mpr hall, hfilter, List.nil_append, ne_eq, not_true_eq_false, if_false]
    refine iff_of_true ⟨addrs.map listener, rfl, by simp [listener, Function.comp_def], ?_⟩ (Or.inr hall)
    intro s hs
    obtain ⟨x, hx, rfl⟩ := List.mem_map.mp hs
    refine ⟨?_, rfl⟩
    rw [Socket.isValid, listener, Option.isSome_iff_ne_none]
    exact fun hsock => hall x hx (Or.inl hsock)
  · have hsome := mt hnone.mp hall
    simp only [List.nil_append, ne_eq, hsome, not_false_iff, if_true, and_true]
    rw [or_iff_left hall, eq_comm]

/-- Two addresses of one family. -/
def port80 : Address := ⟨2, [0, 80], none⟩
def port8080 : Address := ⟨2, [31, 144], none⟩

/-- The second call fails and takes the socket of the first away. -/
theorem failed_bind_clears :
    bind [] [(port80, ⟨some 5, false, false, false⟩)] [] =
        (true, [listener (port80, ⟨some 5, false, false, false⟩)], []) ∧
      bind [listener (port80, ⟨some 5, false, false, false⟩)] [(port8080, ⟨some 6, false, true, false⟩)] [] =
        (false, [], [port8080]) ∧
      ¬ ∀ m_socks addrs, Atomic m_socks addrs := by
  refine ⟨by decide, by decide, ?_⟩
  intro h
  have hbad := (bind_atomic_iff _ _).mp
    (h [listener (port80, ⟨some 5, false, false, false⟩)] [(port8080, ⟨some 6, false, true, false⟩)])
  revert hbad
  decide

end Sylar.TcpServer
