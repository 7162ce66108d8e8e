import Mathlib.Data.BitVec
import Sylar.Lib.Machine
import Sylar.Lib.Ownership

/- `HttpConnectionPool` of `http/http_connection.cc`, with any number of calls going on at once.

   `getConnection` searches the idle list under the lock, deletes what it discarded and
   corrects `m_total` outside it, and where it found nothing connects anew. `ReleasePtr`
   deletes the connection or puts it back. Between two of these steps of one call any
   other call may go on: the steps of a call are one action each, only the locked parts
   are one action as a whole. What comes from outside is in the action: the clock,
   whether a connection is still connected when it is asked, the outcome of lookup,
   socket and connect, and the address `new` returns.

   A connection has one owner all the time: the idle list, a caller, or a call. `Inv` says
   so, and that `m_total` is the number of owned connections that a call has not still to
   add or subtract. `pool_accounting` is what it means where no call is in progress. -/
namespace Sylar.Http

open Sylar.Lib

/-! ## Model -/

/-- The members `ReleasePtr` and `getConnection` read, and (`handed`, which the source
does not have) how often the object was handed out. `m_createTime` is never assigned. -/
structure HttpConnection where
  createTime : UInt64 := 0
  request : UInt64 := 0
  handed : Nat := 0
  deriving DecidableEq, Repr

/-- `m_maxAliveTime` and `m_maxRequest`. -/
structure PoolConfig where
  maxAliveTime : UInt32
  maxRequest : UInt32

/-- A call in progress, by the step it takes next. -/
inductive PoolCall where
  /-- `getConnection` after the search: deletes `pending`, then subtracts `n`. -/
  | discard (ptr : Option Nat) (pending : List Nat) (n : Nat)
  /-- `getConnection` without an idle connection. -/
  | create
  /-- `getConnection` before `++m_total`. -/
  | count (ptr : Nat)
  /-- `getConnection` before its return. -/
  | handOut (ptr : Nat)
  /-- `ReleasePtr` after `++ptr->m_request`. -/
  | test (ptr : Nat)
  /-- `ReleasePtr` before `delete ptr`. -/
  | drop (ptr : Nat)
  /-- `ReleasePtr` before `--pool->m_total`. -/
  | uncount
  /-- `ReleasePtr` before the lock and `push_back`. -/
  | push (ptr : Nat)
  deriving DecidableEq, Repr

/-- The pool, the objects by address, the connections callers hold and the calls in
progress. `m_total` is an `int32_t`. -/
structure Pool where
  conns : List Nat
  total : BitVec 32
  heap : Nat → Option HttpConnection
  out : List Nat
  calls : List PoolCall

def Pool.init : Pool where
  conns := []
  total := 0#32
  heap := fun _ => none
  out := []
  calls := []

/-- How the second half of `getConnection` ends. -/
inductive CreateOutcome where
  | lookupFails
  | createTCPFails
  | connectFails
  | connected (addr : Nat)
  deriving DecidableEq, Repr

inductive PoolAct where
  | getConnection (now : UInt64) (connected : Nat → Bool)
  /-- The next step of a call, where it takes nothing from outside. -/
  | next (k : Nat)
  | create (k : Nat) (outcome : CreateOutcome)
  /-- A caller's last reference goes: `ReleasePtr` starts. -/
  | release (ptr : Nat)
  | test (k : Nat) (connected : Bool) (now : UInt64)

/-- The search of `getConnection` under the lock: what is left of `m_conns`, the
connection it takes and `invalid_conns`. `none`: it reads a deleted object. -/
def PoolConfig.search (cfg : PoolConfig) (heap : Nat → Option HttpConnection) (now : UInt64)
    (connected : Nat → Bool) : List Nat → List Nat → Option (List Nat × Option Nat × List Nat)
  | [], invalid => some ([], none, invalid)
  | conn :: rest, invalid =>
    match heap conn with
    | none => none
    | some c =>
      if connected conn = false then cfg.search heap now connected rest (invalid ++ [conn])
      else if c.createTime + cfg.maxAliveTime.toUInt64 > now then
        cfg.search heap now connected rest (invalid ++ [conn])
      else some (rest, some conn, invalid)

/-- The next step of a call that takes nothing from outside; `k` is its place in `calls`. -/
def Pool.next (s : Pool) (k : Nat) : PoolCall → Option Pool
  | .discard ptr (i :: pending) n => some { s with
      heap := Function.update s.heap i none
      calls := s.calls.set k (.discard ptr pending n) }
  | .discard (some ptr) [] n => some { s with
      total := s.total - BitVec.ofNat 32 n
      calls := s.calls.set k (.handOut ptr) }
  | .discard none [] n => some { s with
      total := s.total - BitVec.ofNat 32 n
      calls := s.calls.set k .create }
  | .count ptr => some { s with
      total := s.total + 1#32
      calls := s.calls.set k (.handOut ptr) }
  | .handOut ptr =>
    match s.heap ptr with
    | none => none
    | some c => some { s with
        heap := Function.update s.heap ptr (some { c with handed := c.handed + 1 })
        out := ptr :: s.out
        calls := s.calls.eraseIdx k }
  | .drop ptr => some { s with
      heap := Function.update s.heap ptr none
      calls := s.calls.set k .uncount }
  | .uncount => some { s with
      total := s.total - 1#32
      calls := s.calls.eraseIdx k }
  | .push ptr => some { s with
      conns := s.conns ++ [ptr]
      calls := s.calls.eraseIdx k }
  | .create => none
  | .test _ => none

/-- One action. `none`: it is not possible in this state. -/
def Pool.step (cfg : PoolConfig) (s : Pool) : PoolAct → Option Pool
  | .getConnection now connected =>
    match cfg.search s.heap now connected s.conns [] with
    | none => none
    | some (rest, ptr, invalid) => some { s with
        conns := rest
        calls := .discard ptr invalid invalid.length :: s.calls }
  | .next k => (s.calls[k]?).bind (s.next k)
  | .create k outcome =>
    if s.calls[k]? = some .create then
      match outcome with
      | .lookupFails | .createTCPFails | .connectFails => some { s with calls := s.calls.eraseIdx k }
      | .connected addr =>
        -- `new` returns an address that no object has.
        if s.heap addr = none then some { s with
          heap := Function.update s.heap addr (some {})
          calls := s.calls.set k (.count addr) }
        else none
    else none
  | .release ptr =>
    if ptr ∈ s.out then
      match s.heap ptr with
      | none => none
      | some c => some { s with
          heap := Function.update s.heap ptr (some { c with request := c.request + 1 })
          out := s.out.erase ptr
          calls := .test ptr :: s.calls }
    else none
  | .test k connected now =>
    match s.calls[k]? with
    | some (.test ptr) =>
      match s.heap ptr with
      | none => none
      | some c =>
        if connected = false ∨ c.createTime + cfg.maxAliveTime.toUInt64 ≥ now
            ∨ c.request ≥ cfg.maxRequest.toUInt64 then
          some { s with calls := s.calls.set k (.drop ptr) }
        else some { s with calls := s.calls.set k (.push ptr) }
    | _ => none

/-- The states of every run. -/
abbrev Pool.Reached (cfg : PoolConfig) : Pool → Prop :=
  Lib.Reached (Pool.step cfg) (fun _ _ => True) Pool.init

/-! ## Owners -/

/-- Who owns a connection, by what its counters then say. -/
inductive Owner where
  /-- On the way to a caller: used less than `m_maxRequest` times, or new. -/
  | idle
  /-- Handed out: this use is not counted yet. -/
  | held
  /-- Coming back from a caller. -/
  | spent
  deriving DecidableEq, Repr

def Owner.Ok (cfg : PoolConfig) (o : Owner) (c : HttpConnection) : Prop :=
  match o with
  | .idle => c.request.toNat = c.handed ∧ (c.handed = 0 ∨ c.handed < cfg.maxRequest.toNat)
  | .held => c.request.toNat + 1 = c.handed ∧ c.handed ≤ max 1 cfg.maxRequest.toNat
  | .spent => c.request.toNat = c.handed ∧ c.handed ≤ max 1 cfg.maxRequest.toNat

/-- The connections a call owns. -/
def PoolCall.owns : PoolCall → List (Nat × Owner)
  | .discard ptr pending _ => (pending ++ ptr.toList).map fun a => (a, Owner.idle)
  | .count ptr | .handOut ptr | .push ptr => [(ptr, .idle)]
  | .test ptr | .drop ptr => [(ptr, .spent)]
  | .create | .uncount => []

/-- What a call contributes to `m_total`: the connections it hands on and the ones it has
still to subtract. -/
def PoolCall.weight : PoolCall → Nat
  | .discard ptr _ n => ptr.toList.length + n
  | .create | .count _ => 0
  | .handOut _ | .test _ | .drop _ | .uncount | .push _ => 1

def owners (calls : List PoolCall) (conns out : List Nat) : List (Nat × Owner) :=
  calls.flatMap PoolCall.owns ++ (conns.map (fun a => (a, Owner.idle)) ++ out.map fun a => (a, Owner.held))

def weight (calls : List PoolCall) (conns out : List Nat) : Nat :=
  (calls.map PoolCall.weight).sum + (conns.length + out.length)

structure Pool.Inv (cfg : PoolConfig) (s : Pool) : Prop where
  owned : Owned (Owner.Ok cfg) s.heap (owners s.calls s.conns s.out)
  total : s.total = BitVec.ofNat 32 (weight s.calls s.conns s.out)

theorem inv_init (cfg : PoolConfig) : Pool.init.Inv cfg := ⟨owned_nil, rfl⟩

/-! ## Moves between owners -/

theorem owners_cons (c : PoolCall) (calls : List PoolCall) (conns out : List Nat) :
    owners (c :: calls) conns out = c.owns ++ owners calls conns out := by
  simp [owners]

theorem weight_cons (c : PoolCall) (calls : List PoolCall) (conns out : List Nat) :
    weight (c :: calls) conns out = c.weight + weight calls conns out := by
  simp [weight, Nat.add_assoc]

/-- A caller's connection among the owned ones. -/
theorem owners_out (calls : List PoolCall) (conns : List Nat) (ptr : Nat) (out : List Nat) :
    (owners calls conns (ptr :: out)).Perm ((ptr, .held) :: owners calls conns out) := by
  simp only [owners, List.map_cons, ← List.append_assoc]
  exact List.perm_middle

/-- The youngest idle connection among the owned ones. -/
theorem owners_push (calls : List PoolCall) (conns : List Nat) (ptr : Nat) (out : List Nat) :
    (owners calls (conns ++ [ptr]) out).Perm ((ptr, .idle) :: owners calls conns out) := by
  simp only [owners, List.map_append, List.map_singleton, List.append_assoc, List.singleton_append]
  rw [← List.append_assoc, ← List.append_assoc]
  exact List.perm_middle

theorem ofNat_add_sub (w n : Nat) : BitVec.ofNat 32 (w + n) - BitVec.ofNat 32 n = BitVec.ofNat 32 w := by
  rw [BitVec.ofNat_add, BitVec.add_sub_cancel]

section
variable {cfg : PoolConfig} {s : Pool} {rest : List PoolCall} {ptr : Nat}

/-- The order of the calls does not matter. -/
theorem Pool.Inv.perm (h : s.Inv cfg) {calls : List PoolCall} (hp : s.calls.Perm calls) :
    Pool.Inv cfg { s with calls := calls } where
  owned := h.owned.perm (List.Perm.append_right _ (hp.flatMap_right _))
  total := by
    have hsum := (hp.map PoolCall.weight).sum_nat
    rw [h.total, weight, weight, hsum]

/-- The search moves connections from `m_conns` to its call. -/
theorem inv_search {left invalid : List Nat} {found : Option Nat} (h : s.Inv cfg)
    (hconns : s.conns = invalid ++ found.toList ++ left) :
    Pool.Inv cfg { s with conns := left, calls := .discard found invalid invalid.length :: s.calls } where
  owned := by
    apply h.owned.perm
    rw [owners_cons, owners, owners, hconns, PoolCall.owns, List.map_append, List.append_assoc]
    exact List.perm_append_comm_assoc _ _ _
  total := by
    simp only [h.total, weight, hconns, List.map_cons, List.sum_cons, PoolCall.weight, List.length_append]
    congr 1
    omega

theorem inv_delete {found : Option Nat} {i n : Nat} {pending : List Nat}
    (h : Pool.Inv cfg { s with calls := .discard found (i :: pending) n :: rest }) :
    Pool.Inv cfg { s with
      heap := Function.update s.heap i none
      calls := .discard found pending n :: rest } where
  owned := h.owned.free
  total := h.total

/-- The subtraction takes away what the discarded connections had added. -/
theorem inv_subtract {found : Option Nat} {n : Nat} {c : PoolCall}
    (h : Pool.Inv cfg { s with calls := .discard found [] n :: rest })
    (howns : c.owns = found.toList.map fun a => (a, Owner.idle)) (hweight : c.weight = found.toList.length) :
    Pool.Inv cfg { s with total := s.total - BitVec.ofNat 32 n, calls := c :: rest } where
  owned := by
    have howned := h.owned
    rw [owners_cons] at howned ⊢
    rw [howns]
    exact howned
  total := by
    have htotal := h.total
    have hmove : found.toList.length + n + weight rest s.conns s.out
        = found.toList.length + weight rest s.conns s.out + n := by omega
    simp only [weight_cons, PoolCall.weight, hmove] at htotal
    simp only [weight_cons, hweight]
    rw [htotal, ofNat_add_sub]

theorem inv_count (h : Pool.Inv cfg { s with calls := .count ptr :: rest }) :
    Pool.Inv cfg { s with total := s.total + 1#32, calls := .handOut ptr :: rest } where
  owned := h.owned
  total := by
    have htotal := h.total
    simp only [weight_cons, PoolCall.weight, Nat.zero_add] at htotal ⊢
    rw [htotal, Nat.add_comm, BitVec.ofNat_add]

theorem inv_handOut {c : HttpConnection} (h : Pool.Inv cfg { s with calls := .handOut ptr :: rest })
    (hheap : s.heap ptr = some c) :
    Pool.Inv cfg { s with
      heap := Function.update s.heap ptr (some { c with handed := c.handed + 1 })
      out := ptr :: s.out
      calls := rest } where
  owned := by
    have howned := h.owned
    rw [owners_cons] at howned
    obtain ⟨c', hc', hrequest, hhanded⟩ := howned.head
    cases hheap.symm.trans hc'
    have hheld : Owner.Ok cfg .held { c with handed := c.handed + 1 } := by
      refine ⟨by simp only [hrequest], ?_⟩
      simp only
      omega
    exact (howned.write hheld).perm (owners_out rest s.conns ptr s.out).symm
  total := by
    have htotal := h.total
    simp only [weight_cons, PoolCall.weight] at htotal
    simp only [htotal, weight, List.length_cons]
    congr 1
    omega

theorem inv_drop (h : Pool.Inv cfg { s with calls := .drop ptr :: rest }) :
    Pool.Inv cfg { s with heap := Function.update s.heap ptr none, calls := .uncount :: rest } where
  owned := h.owned.free
  total := h.total

theorem inv_uncount (h : Pool.Inv cfg { s with calls := .uncount :: rest }) :
    Pool.Inv cfg { s with total := s.total - 1#32, calls := rest } where
  owned := h.owned
  total := by
    have htotal := h.total
    simp only [weight_cons, PoolCall.weight] at htotal
    simp only [htotal]
    rw [Nat.add_comm]
    exact ofNat_add_sub _ 1

theorem inv_push (h : Pool.Inv cfg { s with calls := .push ptr :: rest }) :
    Pool.Inv cfg { s with conns := s.conns ++ [ptr], calls := rest } where
  owned := by
    have howned := h.owned
    rw [owners_cons] at howned
    exact howned.perm (owners_push rest s.conns ptr s.out).symm
  total := by
    have htotal := h.total
    simp only [weight_cons, PoolCall.weight] at htotal
    simp only [htotal, weight, List.length_append, List.length_singleton]
    congr 1
    omega

theorem inv_connected (h : Pool.Inv cfg { s with calls := .create :: rest }) (hfresh : s.heap ptr = none) :
    Pool.Inv cfg { s with heap := Function.update s.heap ptr (some {}), calls := .count ptr :: rest } where
  owned := h.owned.new hfresh ⟨rfl, Or.inl rfl⟩
  total := h.total

/-- A use is counted when the caller lets go of the connection. -/
theorem inv_release {c : HttpConnection} (h : s.Inv cfg) (hout : ptr ∈ s.out) (hheap : s.heap ptr = some c) :
    Pool.Inv cfg { s with
      heap := Function.update s.heap ptr (some { c with request := c.request + 1 })
      out := s.out.erase ptr
      calls := .test ptr :: s.calls } where
  owned := by
    have hsplit : (owners s.calls s.conns s.out).Perm (owners s.calls s.conns (ptr :: s.out.erase ptr)) :=
      List.Perm.append_left _ (List.Perm.append_left _ ((List.perm_cons_erase hout).map _))
    have howned := h.owned.perm (hsplit.trans (owners_out s.calls s.conns ptr (s.out.erase ptr)))
    obtain ⟨c', hc', hrequest, hhanded⟩ := howned.head
    cases hheap.symm.trans hc'
    have hspent : Owner.Ok cfg .spent { c with request := c.request + 1 } := by
      have hmax := cfg.maxRequest.toNat_lt
      have hrequests : (c.request + 1).toNat = c.request.toNat + 1 := by
        rw [UInt64.toNat_add]
        simp only [UInt64.toNat_one]
        omega
      exact ⟨hrequests.trans hrequest, hhanded⟩
    exact howned.write hspent
  total := by
    have hlength := List.length_erase_of_mem hout
    have hpos := List.length_pos_of_mem hout
    simp only [h.total, weight, List.map_cons, List.sum_cons, PoolCall.weight, hlength]
    congr 1
    omega

/-- A connection that is dropped: nothing more is asked of it. -/
theorem inv_test_drop (h : Pool.Inv cfg { s with calls := .test ptr :: rest }) :
    Pool.Inv cfg { s with calls := .drop ptr :: rest } where
  owned := h.owned
  total := h.total

/-- A connection that goes back has been used less than `m_maxRequest` times. -/
theorem inv_test_push {c : HttpConnection} (h : Pool.Inv cfg { s with calls := .test ptr :: rest })
    (hheap : s.heap ptr = some c) (hfew : ¬ c.request ≥ cfg.maxRequest.toUInt64) :
    Pool.Inv cfg { s with calls := .push ptr :: rest } where
  owned := by
    apply h.owned.pass
    intro c' hc' hspent
    cases hheap.symm.trans hc'
    refine ⟨hspent.1, Or.inr ?_⟩
    rw [← hspent.1]
    simpa [UInt64.le_iff_toNat_le] using hfew
  total := h.total

/-- A call at its place, taken out of the others. -/
theorem calls_perm {l : List PoolCall} {k : Nat} {c : PoolCall} (hk : l[k]? = some c) :
    l.Perm (c :: l.eraseIdx k) := by
  obtain ⟨hlt, rfl⟩ := List.getElem?_eq_some_iff.mp hk
  exact (List.getElem_cons_eraseIdx_perm hlt).symm

/-- A call that goes on: what its step keeps with the call first, it keeps with the call at its place. -/
theorem Pool.Inv.at {k : Nat} {c : PoolCall} (h : s.Inv cfg) (hk : s.calls[k]? = some c) :
    Pool.Inv cfg { s with calls := c :: s.calls.eraseIdx k } :=
  h.perm (calls_perm hk)

theorem Pool.Inv.set {l : List PoolCall} {k : Nat} {c c' : PoolCall} (h : s.Inv cfg) (hk : l[k]? = some c)
    (hcalls : s.calls = c' :: l.eraseIdx k) : Pool.Inv cfg { s with calls := l.set k c' } := by
  obtain ⟨hlt, rfl⟩ := List.getElem?_eq_some_iff.mp hk
  apply h.perm
  rw [hcalls]
  exact (List.set_perm_cons_eraseIdx hlt c').symm

/-- What the search takes out of `m_conns` it returns, in the same order. -/
theorem search_eq {heap : Nat → Option HttpConnection} {now : UInt64} {connected : Nat → Bool} :
    ∀ {conns invalid left invalid' : List Nat} {found : Option Nat},
      cfg.search heap now connected conns invalid = some (left, found, invalid') →
        invalid ++ conns = invalid' ++ found.toList ++ left := by
  intro conns
  induction conns with
  | nil =>
    intro invalid left invalid' found h
    cases h
    simp
  | cons conn conns ih =>
    intro invalid left invalid' found h
    rw [PoolConfig.search] at h
    have happend : invalid ++ conn :: conns = (invalid ++ [conn]) ++ conns := by simp
    split at h
    · cases h
    · split at h
      · rw [happend, ih h]
      · split at h
        · rw [happend, ih h]
        · cases h
          simp

/-- A step of a call that takes nothing from outside. -/
theorem next_keeps {k : Nat} {c : PoolCall} {s' : Pool} (h : s.Inv cfg) (hk : s.calls[k]? = some c)
    (hnext : s.next k c = some s') : s'.Inv cfg := by
  have hat := h.at hk
  cases c with
  | discard found pending n =>
    cases pending with
    | cons i pending =>
      cases hnext
      exact (inv_delete hat).set hk rfl
    | nil =>
      cases found with
      | none =>
        cases hnext
        exact (inv_subtract (c := .create) hat rfl rfl).set hk rfl
      | some ptr =>
        cases hnext
        exact (inv_subtract (c := .handOut ptr) hat rfl rfl).set hk rfl
  | count ptr =>
    cases hnext
    exact (inv_count hat).set hk rfl
  | handOut ptr =>
    cases hheap : s.heap ptr with
    | none =>
      simp only [Pool.next, hheap] at hnext
      cases hnext
    | some c =>
      simp only [Pool.next, hheap] at hnext
      cases hnext
      exact inv_handOut hat hheap
  | drop ptr =>
    cases hnext
    exact (inv_drop hat).set hk rfl
  | uncount =>
    cases hnext
    exact inv_uncount hat
  | push ptr =>
    cases hnext
    exact inv_push hat
  | create => cases hnext
  | test ptr => cases hnext

theorem create_keeps {k : Nat} {outcome : CreateOutcome} {s' : Pool} (h : s.Inv cfg)
    (hstep : s.step cfg (.create k outcome) = some s') : s'.Inv cfg := by
  simp only [Pool.step] at hstep
  split at hstep
  · next hk =>
    have hat := h.at hk
    -- A failed lookup, socket or connect leaves a pool without the call.
    have hgone : Pool.Inv cfg { s with calls := s.calls.eraseIdx k } := ⟨hat.owned, by
      simpa only [weight_cons, PoolCall.weight, Nat.zero_add] using hat.total⟩
    cases outcome with
    | lookupFails => cases hstep; exact hgone
    | createTCPFails => cases hstep; exact hgone
    | connectFails => cases hstep; exact hgone
    | connected addr =>
      simp only at hstep
      split at hstep
      · next hfresh =>
        cases hstep
        exact (inv_connected hat hfresh).set hk rfl
      · cases hstep
  · cases hstep

theorem test_keeps {k : Nat} {connected : Bool} {now : UInt64} {s' : Pool} (h : s.Inv cfg)
    (hstep : s.step cfg (.test k connected now) = some s') : s'.Inv cfg := by
  rw [Pool.step] at hstep
  split at hstep
  · next ptr hk =>
    have hat := h.at hk
    split at hstep
    · cases hstep
    · next c hheap =>
      split at hstep
      · cases hstep
        exact (inv_test_drop hat).set hk rfl
      · next hgood =>
        cases hstep
        exact (inv_test_push hat hheap (fun hmany => hgood (Or.inr (Or.inr hmany)))).set hk rfl
  · cases hstep

theorem step_keeps {act : PoolAct} {s' : Pool} (h : s.Inv cfg) (hstep : s.step cfg act = some s') :
    s'.Inv cfg := by
  cases act with
  | getConnection now connected =>
    rw [Pool.step] at hstep
    split at hstep
    · cases hstep
    · next left found invalid hsearch =>
      cases hstep
      exact inv_search h (by simpa using search_eq hsearch)
  | next k =>
    rw [Pool.step, Option.bind_eq_some_iff] at hstep
    obtain ⟨c, hk, hnext⟩ := hstep
    exact next_keeps h hk hnext
  | create k outcome => exact create_keeps h hstep
  | release ptr =>
    rw [Pool.step] at hstep
    split at hstep
    · next hout =>
      split at hstep
      · cases hstep
      · next c hheap =>
        cases hstep
        exact inv_release h hout hheap
    · cases hstep
  | test k connected now => exact test_keeps h hstep

theorem Pool.Reached.inv (r : Pool.Reached cfg s) : s.Inv cfg :=
  Lib.Reached.inv (inv_init cfg) (fun _ _ _ h _ hstep => step_keeps h hstep) r

end

/-! ## The pool between calls -/

/-- Any number a connection was handed out, whoever owns it. -/
theorem handed_le {cfg : PoolConfig} {o : Owner} {c : HttpConnection} (h : o.Ok cfg c) :
    c.handed ≤ max 1 cfg.maxRequest.toNat := by
  cases o with
  | idle =>
    obtain ⟨-, hhanded⟩ := h
    omega
  | held => exact h.2
  | spent => exact h.2

/-- In every state of every run no connection was handed out more than `max 1 m_maxRequest`
times. Where no call is in progress, `m_total` is the number of idle connections and of
connections handed out, these are all different, and they are the objects that exist. -/
theorem pool_accounting (cfg : PoolConfig) (s : Pool) (r : Pool.Reached cfg s) :
    (∀ ptr c, s.heap ptr = some c → c.handed ≤ max 1 cfg.maxRequest.toNat) ∧
      (s.calls = [] →
        s.total = BitVec.ofNat 32 (s.conns.length + s.out.length) ∧
          (s.conns.length + s.out.length < 2 ^ 31 → s.total.toInt = s.conns.length + s.out.length) ∧
          s.conns.Nodup ∧ s.out.Nodup ∧ (∀ ptr ∈ s.conns, ptr ∉ s.out) ∧
          ∀ ptr, (s.heap ptr).isSome ↔ ptr ∈ s.conns ∨ ptr ∈ s.out) := by
  have h := r.inv
  constructor
  · intro ptr c hheap
    obtain ⟨⟨ptr', o⟩, hmem, rfl⟩ := List.mem_map.mp (h.owned.live ptr c hheap)
    obtain ⟨c', hc', hok⟩ := h.owned.ok ptr' o hmem
    cases hheap.symm.trans hc'
    exact handed_le hok
  · intro hcalls
    have haddrs : (owners s.calls s.conns s.out).map Prod.fst = s.conns ++ s.out := by
      simp [owners, hcalls, Function.comp_def]
    have htotal : s.total = BitVec.ofNat 32 (s.conns.length + s.out.length) := by
      rw [h.total, hcalls]
      simp [weight]
    have hnodup := h.owned.nodup
    rw [haddrs, List.nodup_append] at hnodup
    refine ⟨htotal, ?_, hnodup.1, hnodup.2.1, ?_, ?_⟩
    · intro hsmall
      have hnat : s.total.toNat = s.conns.length + s.out.length := by
        rw [htotal, BitVec.toNat_ofNat]
        omega
      rw [BitVec.toInt_eq_toNat_of_lt (by omega), hnat]
      simp
    · intro ptr hconns hout
      exact hnodup.2.2 ptr hconns ptr hout rfl
    · intro ptr
      rw [← List.mem_append, ← haddrs, Option.isSome_iff_exists]
      constructor
      · intro hconn
        obtain ⟨c, hc⟩ := hconn
        exact h.owned.live ptr c hc
      · intro haddr
        obtain ⟨⟨ptr', o⟩, hmem, rfl⟩ := List.mem_map.mp haddr
        obtain ⟨c, hc, -⟩ := h.owned.ok ptr' o hmem
        exact ⟨c, hc⟩

/-- One connection is made, handed out, released and put back. -/
def onceAndBack : List PoolAct :=
  [.getConnection 5 (fun _ => true), .next 0, .create 0 (.connected 100), .next 0, .next 0, .release 100,
    .test 0 true 5, .next 0]

theorem pool_accounting_one :
    ∃ s, Lib.after (Pool.step ⟨0, 2⟩) onceAndBack Pool.init = some s ∧ s.conns = [100] ∧ s.total.toInt = 1 := by
  have hend : (Lib.after (Pool.step ⟨0, 2⟩) onceAndBack Pool.init).map (fun s => (s.calls, s.conns, s.out))
      = some ([], [100], []) := by decide
  obtain ⟨s, hs, heq⟩ := Option.map_eq_some_iff.mp hend
  simp only [Prod.mk.injEq] at heq
  obtain ⟨hcalls, hconns, hout⟩ := heq
  have hreached : Pool.Reached ⟨0, 2⟩ s := Lib.Reached.start.after (fun _ _ => trivial) onceAndBack hs
  have htotal := ((pool_accounting ⟨0, 2⟩ s hreached).2 hcalls).2.1
  rw [hconns, hout] at htotal
  exact ⟨s, hs, hconns, htotal (by decide)⟩

theorem search_isSome {cfg : PoolConfig} {heap : Nat → Option HttpConnection} {now : UInt64}
    {connected : Nat → Bool} : ∀ conns invalid : List Nat, (∀ ptr ∈ conns, (heap ptr).isSome) →
      (cfg.search heap now connected conns invalid).isSome := by
  intro conns
  induction conns with
  | nil => intro _ _; rfl
  | cons conn conns ih =>
    intro invalid hlive
    obtain ⟨c, hc⟩ := Option.isSome_iff_exists.mp (hlive conn List.mem_cons_self)
    have hrest := fun inv => ih inv (fun ptr hptr => hlive ptr (List.mem_cons_of_mem conn hptr))
    simp only [PoolConfig.search, hc]
    split
    · exact hrest _
    · split
      · exact hrest _
      · rfl

theorem Pool.Inv.live {cfg : PoolConfig} {s : Pool} (h : s.Inv cfg) {ptr : Nat} {o : Owner}
    (hmem : (ptr, o) ∈ owners s.calls s.conns s.out) : ∃ c, s.heap ptr = some c := by
  obtain ⟨c, hc, -⟩ := h.owned.ok ptr o hmem
  exact ⟨c, hc⟩

/-- What a call owns is owned. -/
theorem mem_owners_of_call {s : Pool} {k : Nat} {call : PoolCall} (hk : s.calls[k]? = some call) {ptr : Nat} {o : Owner}
    (ho : (ptr, o) ∈ call.owns) : (ptr, o) ∈ owners s.calls s.conns s.out :=
  List.mem_append_left _ (List.mem_flatMap.mpr ⟨call, List.mem_of_getElem? hk, ho⟩)

/-- No call reads a deleted connection: in every state of every run the steps that read one
are possible. -/
theorem pool_defined (cfg : PoolConfig) (s : Pool) (r : Pool.Reached cfg s) :
    (∀ now connected, (s.step cfg (.getConnection now connected)).isSome) ∧
      (∀ ptr ∈ s.out, (s.step cfg (.release ptr)).isSome) ∧
      (∀ k ptr, s.calls[k]? = some (.handOut ptr) → (s.step cfg (.next k)).isSome) ∧
      ∀ k ptr connected now, s.calls[k]? = some (.test ptr) →
        (s.step cfg (.test k connected now)).isSome := by
  have h := r.inv
  refine ⟨?_, ?_, ?_, ?_⟩
  · intro now connected
    have hlive : ∀ ptr ∈ s.conns, (s.heap ptr).isSome := by
      intro ptr hptr
      have hmem : (ptr, Owner.idle) ∈ owners s.calls s.conns s.out := by simp [owners, hptr]
      exact Option.isSome_iff_exists.mpr (h.live hmem)
    have hsearch : (cfg.search s.heap now connected s.conns []).isSome := search_isSome s.conns [] hlive
    obtain ⟨⟨left, found, invalid⟩, hfound⟩ := Option.isSome_iff_exists.mp hsearch
    simp only [Pool.step, hfound, Option.isSome_some]
  · intro ptr hptr
    have hmem : (ptr, Owner.held) ∈ owners s.calls s.conns s.out := by simp [owners, hptr]
    obtain ⟨c, hc⟩ := h.live hmem
    simp only [Pool.step, if_pos hptr, hc, Option.isSome_some]
  · intro k ptr hk
    obtain ⟨c, hc⟩ := h.live (mem_owners_of_call hk (List.mem_singleton_self (ptr, Owner.idle)))
    simp only [Pool.step, hk, Option.bind_some, Pool.next, hc, Option.isSome_some]
  · intro k ptr connected now hk
    obtain ⟨c, hc⟩ := h.live (mem_owners_of_call hk (List.mem_singleton_self (ptr, Owner.spent)))
    simp only [Pool.step, hk, hc]
    split
    · rfl
    · rfl

end Sylar.Http
