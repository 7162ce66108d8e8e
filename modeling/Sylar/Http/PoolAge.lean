import Sylar.Http.Pool

/- The age of the connections in `HttpConnectionPool`.

   `m_createTime` is compared with the clock where a connection is taken from `m_conns` and
   where it comes back, and it is never assigned (`Unborn.step`). A `TimedPool` is the
   pool beside what the source does not have: the clock at which each connection was made,
   and a record of what was taken and what came back. `pool_age_iff` says of every run when
   the record is as it should be. -/
namespace Sylar.Http
open Sylar.Lib

/-! ## Model -/

/-- What the steps that look at an age do. -/
inductive PoolEvent where
  /-- `getConnection` takes a connection from `m_conns`. -/
  | taken (connected : Bool) (age : Int)
  /-- `ReleasePtr` has decided whether the connection goes back; it was handed out `handed` times. -/
  | released (connected : Bool) (age : Int) (handed : Nat) (back : Bool)
  deriving DecidableEq, Repr

/-- The pool, the clock at the creation of the connection at each address, and the record, the latest first. -/
structure TimedPool where
  pool : Pool
  born : Nat → UInt64
  log : List PoolEvent

def TimedPool.init : TimedPool where
  pool := Pool.init
  born := fun _ => 0
  log := []

/-- The time since the connection was created; the clock may have been set back. -/
def TimedPool.age (t : TimedPool) (ptr : Nat) (now : UInt64) : Int := now.toNat - (t.born ptr).toNat

/-- What a step that led to `s` does. -/
def TimedPool.events (t : TimedPool) (s : Pool) : PoolAct → List PoolEvent
  | .getConnection now connected =>
    match s.calls.head? with
    | some (.discard (some ptr) _ _) => [.taken (connected ptr) (t.age ptr now)]
    | _ => []
  | .test k connected now =>
    match t.pool.calls[k]? with
    | some (.test ptr) =>
      match t.pool.heap ptr with
      | some c => [.released connected (t.age ptr now) c.handed (decide (s.calls[k]? = some (.push ptr)))]
      | none => []
    | _ => []
  | _ => []

/-- A connection that is made is born at that clock. -/
def TimedPool.bornAfter (t : TimedPool) (clock : UInt64) : PoolAct → Nat → UInt64
  | .create _ (.connected addr) => Function.update t.born addr clock
  | _ => t.born

/-- One action of the pool and the clock at that time, which `getConnection` and `ReleasePtr` read themselves. -/
def TimedPool.step (cfg : PoolConfig) (t : TimedPool) (i : UInt64 × PoolAct) : Option TimedPool :=
  (t.pool.step cfg i.2).map fun s =>
    { pool := s, born := t.bornAfter i.1 i.2, log := t.events s i.2 ++ t.log }

/-! ## The rule -/

/-- What is taken is connected and not too old; what is connected, young and not used up goes back. -/
def PoolEvent.Good (cfg : PoolConfig) : PoolEvent → Prop
  | .taken connected age => connected = true ∧ age ≤ cfg.maxAliveTime.toNat
  | .released connected age handed back =>
    connected = true → age < cfg.maxAliveTime.toNat → handed < cfg.maxRequest.toNat → back = true

/-- The first idle connection that is connected is young enough, or the clock still below the limit; and a
connection that comes back does so at a clock above the limit, or should not stay. -/
def TimedPool.InTime (cfg : PoolConfig) (t : TimedPool) (i : UInt64 × PoolAct) : Prop :=
  match i.2 with
  | .getConnection now connected => now.toNat < cfg.maxAliveTime.toNat ∨
      ∀ ptr, t.pool.conns.find? connected = some ptr → t.age ptr now ≤ cfg.maxAliveTime.toNat
  | .test k connected now => cfg.maxAliveTime.toNat < now.toNat ∨
      ∀ ptr c, t.pool.calls[k]? = some (.test ptr) → t.pool.heap ptr = some c →
        ¬(connected = true ∧ t.age ptr now < cfg.maxAliveTime.toNat ∧ c.handed < cfg.maxRequest.toNat)
  | _ => True

/-! ## The creation time -/

/-- What a step does to the objects: nothing, or it deletes one, counts on one or makes one. -/
inductive HeapStep (heap : Nat → Option HttpConnection) : (Nat → Option HttpConnection) → Prop where
  | same : HeapStep heap heap
  | delete (ptr : Nat) : HeapStep heap (Function.update heap ptr none)
  | count (ptr : Nat) (c : HttpConnection) (request : UInt64) (handed : Nat) (h : heap ptr = some c) :
      HeapStep heap (Function.update heap ptr (some { c with request := request, handed := handed }))
  | make (addr : Nat) : HeapStep heap (Function.update heap addr (some {}))

section
variable {cfg : PoolConfig} {s s' : Pool}

theorem heapStep_next {k : Nat} {c : PoolCall} (hnext : s.next k c = some s') : HeapStep s.heap s'.heap := by
  cases c with
  | discard found pending n =>
    cases pending with
    | cons i pending => cases hnext; exact .delete i
    | nil =>
      cases found with
      | none => cases hnext; exact .same
      | some ptr => cases hnext; exact .same
  | count ptr => cases hnext; exact .same
  | handOut ptr =>
    cases hheap : s.heap ptr with
    | none => simp [Pool.next, hheap] at hnext
    | some c =>
      simp only [Pool.next, hheap] at hnext
      cases hnext
      exact .count ptr c c.request (c.handed + 1) hheap
  | drop ptr => cases hnext; exact .delete ptr
  | uncount => cases hnext; exact .same
  | push ptr => cases hnext; exact .same
  | create => cases hnext
  | test ptr => cases hnext

theorem heapStep_step {act : PoolAct} (hstep : s.step cfg act = some s') : HeapStep s.heap s'.heap := by
  cases act with
  | getConnection now connected =>
    rw [Pool.step] at hstep
    split at hstep
    · cases hstep
    · cases hstep; exact .same
  | next k =>
    rw [Pool.step, Option.bind_eq_some_iff] at hstep
    obtain ⟨c, -, hnext⟩ := hstep
    exact heapStep_next hnext
  | create k outcome =>
    simp only [Pool.step] at hstep
    split at hstep
    · cases outcome with
      | lookupFails => cases hstep; exact .same
      | createTCPFails => cases hstep; exact .same
      | connectFails => cases hstep; exact .same
      | connected addr =>
        simp only at hstep
        split at hstep
        · cases hstep; exact .make addr
        · cases hstep
    · cases hstep
  | release ptr =>
    rw [Pool.step] at hstep
    split at hstep
    · split at hstep
      · cases hstep
      · next c hheap =>
        cases hstep
        exact .count ptr c (c.request + 1) c.handed hheap
    · cases hstep
  | test k connected now =>
    rw [Pool.step] at hstep
    split at hstep
    · split at hstep
      · cases hstep
      · split at hstep
        · cases hstep; exact .same
        · cases hstep; exact .same
    · cases hstep

end

/-- `m_createTime` of every object is what the class definition says. -/
def Unborn (heap : Nat → Option HttpConnection) : Prop := ∀ ptr c, heap ptr = some c → c.createTime = 0

section
variable {heap heap' : Nat → Option HttpConnection}

theorem Unborn.update (h : Unborn heap) (ptr : Nat) {new : Option HttpConnection}
    (hnew : ∀ c, new = some c → c.createTime = 0) : Unborn (Function.update heap ptr new) := by
  intro ptr' c hc
  by_cases heq : ptr' = ptr
  · rw [heq, Function.update_self] at hc
    exact hnew c hc
  · rw [Function.update_of_ne heq] at hc
    exact h ptr' c hc

/-- No step assigns a creation time. -/
theorem Unborn.step (h : Unborn heap) (hstep : HeapStep heap heap') : Unborn heap' := by
  cases hstep with
  | same => exact h
  | delete ptr =>
    apply h.update
    simp
  | count ptr c request handed hc =>
    apply h.update
    simpa using h ptr c hc
  | make addr =>
    apply h.update
    simp

end

/-! ## What the two comparisons come to -/

/-- The search discards every connection below the limit, and from there on takes the first that is connected. -/
theorem search_found {cfg : PoolConfig} {heap : Nat → Option HttpConnection} {now : UInt64}
    {connected : Nat → Bool} (h : Unborn heap) :
    ∀ {conns invalid left invalid' : List Nat} {found : Option Nat},
      cfg.search heap now connected conns invalid = some (left, found, invalid') →
        found = if now.toNat < cfg.maxAliveTime.toNat then none else conns.find? connected := by
  intro conns
  induction conns with
  | nil =>
    intro invalid left invalid' found hsearch
    cases hsearch
    simp
  | cons conn rest ih =>
    intro invalid left invalid' found hsearch
    rw [PoolConfig.search] at hsearch
    split at hsearch
    · cases hsearch
    · next c hheap =>
      simp only [h conn c hheap, UInt64.zero_add, gt_iff_lt, UInt64.lt_iff_toNat_lt, UInt32.toNat_toUInt64] at hsearch
      split at hsearch
      · -- not connected: discarded, whatever the clock
        next hclosed =>
        rw [ih hsearch, List.find?_cons_of_neg (by simp [hclosed])]
      · next hopen =>
        split at hsearch
        · -- the clock is below the limit, for this one as for all behind it
          next hlow =>
          rw [ih hsearch, if_pos hlow, if_pos hlow]
        · next hhigh =>
          cases hsearch
          rw [if_neg hhigh, List.find?_cons_of_pos (by simpa using hopen)]

section
variable {cfg : PoolConfig} {t : TimedPool} {s : Pool}

/-- The search takes the first connected one, whatever its age, unless the clock is below the limit. -/
theorem events_getConnection (h : Unborn t.pool.heap) {now : UInt64} {connected : Nat → Bool}
    (hstep : t.pool.step cfg (.getConnection now connected) = some s) :
    t.events s (.getConnection now connected) = if now.toNat < cfg.maxAliveTime.toNat then [] else
      ((t.pool.conns.find? connected).map fun ptr => PoolEvent.taken true (t.age ptr now)).toList := by
  rw [Pool.step] at hstep
  split at hstep
  · cases hstep
  · next left found invalid hsearch =>
    cases hstep
    have hfound := search_found h hsearch
    unfold TimedPool.events
    simp only [List.head?_cons]
    by_cases hlow : now.toNat < cfg.maxAliveTime.toNat
    · rw [if_pos hlow] at hfound
      simp [hfound, hlow]
    · rw [if_neg hlow] at hfound
      rw [if_neg hlow]
      cases hfind : t.pool.conns.find? connected with
      | none => simp [hfound, hfind]
      | some ptr =>
        have hconn : connected ptr = true := List.find?_some hfind
        simp [hfound, hfind, hconn]

/-- Where a connection comes back, `m_request` counts the times it was handed out. -/
theorem Pool.Inv.spent_request (h : s.Inv cfg) {k ptr : Nat} {c : HttpConnection}
    (hk : s.calls[k]? = some (.test ptr)) (hc : s.heap ptr = some c) : c.request.toNat = c.handed := by
  have hmem := mem_owners_of_call hk (List.mem_singleton_self (ptr, Owner.spent))
  obtain ⟨c', hc', hok⟩ := h.owned.ok ptr Owner.spent hmem
  cases hc.symm.trans hc'
  exact hok.1

/-- A connection goes back that is connected and not used up, at a clock above the limit. -/
theorem events_test (hinv : t.pool.Inv cfg) (h : Unborn t.pool.heap) {k : Nat} {connected : Bool} {now : UInt64}
    (hstep : t.pool.step cfg (.test k connected now) = some s) :
    ∃ ptr c, t.pool.calls[k]? = some (.test ptr) ∧ t.pool.heap ptr = some c ∧
      t.events s (.test k connected now) = [.released connected (t.age ptr now) c.handed
        (decide (connected = true ∧ cfg.maxAliveTime.toNat < now.toNat ∧ c.handed < cfg.maxRequest.toNat))] := by
  rw [Pool.step] at hstep
  split at hstep
  · next ptr hk =>
    split at hstep
    · cases hstep
    · next c hheap =>
      have hlt : k < t.pool.calls.length := (List.getElem?_eq_some_iff.mp hk).1
      have hspent := hinv.spent_request hk hheap
      refine ⟨ptr, c, hk, hheap, ?_⟩
      simp only [h ptr c hheap, UInt64.zero_add, ge_iff_le, UInt64.le_iff_toNat_le, UInt32.toNat_toUInt64,
        hspent] at hstep
      unfold TimedPool.events
      simp only [hk, hheap]
      split at hstep
      · next hbad =>
        cases hstep
        have hno : ¬(connected = true ∧ cfg.maxAliveTime.toNat < now.toNat ∧ c.handed < cfg.maxRequest.toNat) := by
          intro hgood
          obtain ⟨hconn, hclock, hfew⟩ := hgood
          rw [hconn] at hbad
          simp only [reduceCtorEq, false_or] at hbad
          omega
        simp [hlt, hno]
      · next hgood =>
        cases hstep
        obtain ⟨hconn, hrest⟩ := not_or.mp hgood
        obtain ⟨hclock, hfew⟩ := not_or.mp hrest
        simp only [Bool.not_eq_false] at hconn
        have hyes : connected = true ∧ cfg.maxAliveTime.toNat < now.toNat ∧ c.handed < cfg.maxRequest.toNat :=
          ⟨hconn, by omega, by omega⟩
        simp [hlt, hyes]
  · cases hstep

/-- What a step adds to the record is as it should be exactly when the step is in time. -/
theorem events_good_iff (hinv : t.pool.Inv cfg) (h : Unborn t.pool.heap) {i : UInt64 × PoolAct}
    (hstep : t.pool.step cfg i.2 = some s) : (∀ e ∈ t.events s i.2, e.Good cfg) ↔ t.InTime cfg i := by
  obtain ⟨clock, act⟩ := i
  cases act with
  | getConnection now connected =>
    rw [events_getConnection h hstep]
    unfold TimedPool.InTime
    by_cases hlow : now.toNat < cfg.maxAliveTime.toNat
    · simp [hlow]
    · simp [hlow, PoolEvent.Good]
  | test k connected now =>
    obtain ⟨ptr, c, hk, hheap, hevents⟩ := events_test hinv h hstep
    rw [hevents]
    unfold TimedPool.InTime
    simp only [List.forall_mem_singleton, PoolEvent.Good, decide_eq_true_eq]
    constructor
    · intro hgood
      by_cases hclock : cfg.maxAliveTime.toNat < now.toNat
      · exact Or.inl hclock
      · refine Or.inr ?_
        -- it is deleted at this clock, so it must not be one to keep
        intro ptr' c' hptr hc hyoung
        cases hk.symm.trans hptr
        cases hheap.symm.trans hc
        exact hclock (hgood hyoung.1 hyoung.2.1 hyoung.2.2).2.1
    · intro hintime hconn hage hfew
      rcases hintime with hclock | hold
      · exact ⟨hconn, hclock, hfew⟩
      · exact absurd ⟨hconn, hage, hfew⟩ (hold ptr c hk hheap)
  | next k => simp [TimedPool.events, TimedPool.InTime]
  | create k outcome => simp [TimedPool.events, TimedPool.InTime]
  | release ptr => simp [TimedPool.events, TimedPool.InTime]

end

/-! ## Every run -/

/-- The decision to put a connection back is carried out: the next step of the call does it. -/
theorem push_goes_back (cfg : PoolConfig) (s : Pool) {k ptr : Nat} (hk : s.calls[k]? = some (.push ptr)) :
    s.step cfg (.next k) = some { s with conns := s.conns ++ [ptr], calls := s.calls.eraseIdx k } := by
  simp [Pool.step, hk, Pool.next]

/-- **In every run, every connection that was taken was connected and at most `m_maxAliveTime` old, and every
one that came back connected, younger and not used up was put back, exactly when each of its steps was
in time**; and what was decided to go back goes back to `m_conns`. -/
theorem pool_age_iff (cfg : PoolConfig) (acts : List (UInt64 × PoolAct)) (t : TimedPool)
    (hrun : after (TimedPool.step cfg) acts TimedPool.init = some t) :
    ((∀ e ∈ t.log, e.Good cfg) ↔ ∀ pre i post u, acts = pre ++ i :: post →
      after (TimedPool.step cfg) pre TimedPool.init = some u → u.InTime cfg i) ∧
    ∀ k ptr, t.pool.calls[k]? = some (.push ptr) → t.pool.step cfg (.next k) =
      some { t.pool with conns := t.pool.conns ++ [ptr], calls := t.pool.calls.eraseIdx k } := by
  refine ⟨?_, fun k ptr hk => push_goes_back cfg t.pool hk⟩
  have hinit : TimedPool.init.pool.Inv cfg ∧ Unborn TimedPool.init.pool.heap := by
    refine ⟨inv_init cfg, ?_⟩
    intro ptr c hc
    cases hc
  apply after_iff (I := fun t => t.pool.Inv cfg ∧ Unborn t.pool.heap) (P := fun t => ∀ e ∈ t.log, e.Good cfg)
    hinit (by simp [TimedPool.init]) ?_ ?_ hrun
  · intro u i u' hu hstep
    obtain ⟨s, hs, rfl⟩ := Option.map_eq_some_iff.mp hstep
    exact ⟨step_keeps hu.1 hs, hu.2.step (heapStep_step hs)⟩
  · intro u i u' hu hstep
    obtain ⟨s, hs, rfl⟩ := Option.map_eq_some_iff.mp hstep
    rw [← events_good_iff hu.1 hu.2 hs]
    simp only [List.forall_mem_append]
    exact and_comm

/-- A connection is made, used once and put back at clock 5000, and taken again at `again`. -/
def takenAgain (again : UInt64) : List (UInt64 × PoolAct) :=
  [.getConnection 5000 (fun _ => true), .next 0, .create 0 (.connected 100), .next 0, .next 0, .release 100,
    .test 0 true 5000, .next 0].map (fun act => (5000, act)) ++ [(again, .getConnection again fun _ => true)]

theorem pool_age_young :
    ∃ t, after (TimedPool.step ⟨1000, 2⟩) (takenAgain 5100) TimedPool.init = some t ∧
      ∀ pre i post u, takenAgain 5100 = pre ++ i :: post →
        after (TimedPool.step ⟨1000, 2⟩) pre TimedPool.init = some u → u.InTime ⟨1000, 2⟩ i := by
  have hlog : (after (TimedPool.step ⟨1000, 2⟩) (takenAgain 5100) TimedPool.init).map TimedPool.log =
      some [.taken true 100, .released true 0 1 true] := by
    decide +kernel
  obtain ⟨t, ht, heq⟩ := Option.map_eq_some_iff.mp hlog
  refine ⟨t, ht, (pool_age_iff ⟨1000, 2⟩ (takenAgain 5100) t ht).1.mp ?_⟩
  rw [heq]
  simp [PoolEvent.Good]

/-- With a limit of 1000 ms a connection of 2000 ms is taken. -/
theorem old_connection_taken :
    ∃ t, after (TimedPool.step ⟨1000, 2⟩) (takenAgain 7000) TimedPool.init = some t ∧
      .taken true 2000 ∈ t.log ∧ ¬ ∀ e ∈ t.log, e.Good ⟨1000, 2⟩ := by
  have hlog : (after (TimedPool.step ⟨1000, 2⟩) (takenAgain 7000) TimedPool.init).map TimedPool.log =
      some [.taken true 2000, .released true 0 1 true] := by
    decide +kernel
  obtain ⟨t, ht, heq⟩ := Option.map_eq_some_iff.mp hlog
  refine ⟨t, ht, by simp [heq], ?_⟩
  rw [heq]
  simp [PoolEvent.Good]

end Sylar.Http
