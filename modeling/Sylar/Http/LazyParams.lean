import Sylar.Http.Params
import Sylar.Lib.LazyFill
import Sylar.Lib.Machine

/- Parsing on demand, seen from outside.

   A run is a sequence of `getParam`, `hasParam`, `setParam`, `delParam` and the four
   calls for cookies, in any order. The reference (`eagerStep`) has two plain maps that
   were filled before the first call, the parameters from the query and then the body.
   `lazy_unobservable_iff` says for every request and every run when the answers are
   those of the reference: always, but for a key that was deleted before its map was
   first read (`Stale`), which the parser then puts back.

   Both sides are runs of the lazily filled tables of `LazyFill`, whose keys are the
   names as `CaseInsensitiveLess` sees them (`Abstracts`, `final_abstracts`). -/
namespace Sylar.Http
open Sylar.Lib

/-! ## Calls -/

inductive Table where
  | params
  | cookies
  deriving DecidableEq, Repr

/-- `getParam`, `hasParam`, `setParam` and `delParam`, or those of the cookies. -/
inductive ParamCall where
  | get (key default : Bytes)
  | has (key : Bytes) (val : Option Bytes)
  | set (key val : Bytes)
  | del (key : Bytes)
  deriving DecidableEq, Repr

/-- What a call returns, with what it writes through `val`. -/
inductive ParamResult where
  | text (v : Bytes)
  | found (b : Bool) (val : Option Bytes)
  | done
  deriving DecidableEq, Repr

namespace LazyRequest

/-- One call of the request. -/
def step : Table × ParamCall → LazyRequest → ParamResult × LazyRequest
  | (.params, .get key default), r => (.text (r.getParam key default).1, (r.getParam key default).2)
  | (.params, .has key val), r =>
    (.found (r.hasParam key val).1.1 (r.hasParam key val).1.2, (r.hasParam key val).2)
  | (.params, .set key val), r => (.done, r.setParam key val)
  | (.params, .del key), r => (.done, r.delParam key)
  | (.cookies, .get key default), r => (.text (r.getCookie key default).1, (r.getCookie key default).2)
  | (.cookies, .has key val), r =>
    (.found (r.hasCookie key val).1.1 (r.hasCookie key val).1.2, (r.hasCookie key val).2)
  | (.cookies, .set key val), r => (.done, r.setCookie key val)
  | (.cookies, .del key), r => (.done, r.delCookie key)

/-- The maps of the reference: the parameters from the query and then the body, the cookies from their header. -/
def eager (r : LazyRequest) : Table → ParamMap
  | .params => r.initQueryParam.initBodyParam.params
  | .cookies => r.initCookies.cookies

end LazyRequest

/-- What a call answers when this is found under its key. -/
def ParamCall.answer (found : Option Bytes) : ParamCall → ParamResult
  | .get _ default => .text (found.getD default)
  | .has _ val => .found found.isSome (LazyRequest.written found val)
  | .set _ _ => .done
  | .del _ => .done

def ParamCall.key : ParamCall → Bytes
  | .get key _ => key
  | .has key _ => key
  | .set key _ => key
  | .del key => key

/-- What a call does to a map that is not filled on demand. -/
def ParamCall.apply (m : ParamMap) : ParamCall → ParamMap
  | .get _ _ => m
  | .has _ _ => m
  | .set key val => m.set key val
  | .del key => m.erase key

/-- One call of the reference. -/
def eagerStep (c : Table × ParamCall) (m : Table → ParamMap) : ParamResult × (Table → ParamMap) :=
  (c.2.answer ((m c.1).get c.2.key), Function.update m c.1 (c.2.apply (m c.1)))

/-! ## When it shows -/

/-- A call as an access to a table under the folded key. -/
def ParamCall.access : ParamCall → LazyFill.Access Bytes Bytes
  | .get key _ => .read (folded key)
  | .has key _ => .read (folded key)
  | .set key val => .write (folded key) (some val)
  | .del key => .write (folded key) none

/-- The calls as accesses. -/
def accesses (calls : List (Table × ParamCall)) : List (Table × LazyFill.Access Bytes Bytes) :=
  calls.map fun c => (c.1, c.2.access)

/-- The pairs a table has still to take in. -/
def LazyRequest.pendingPairs (r : LazyRequest) : Table → List (Bytes × Bytes)
  | .params => r.pendingQuery ++ r.pendingBody
  | .cookies => r.pendingCookies

/-- The value that parsing would give a key. -/
def LazyRequest.pendingValue (r : LazyRequest) (t : Table) (key : Bytes) : Option Bytes :=
  (OrderedMap.lookup nameOrder key (r.pendingPairs t)).map Prod.snd

/-- The answer tells a parsed value from none: it is not the very default. -/
def ParamCall.Shows (v : Bytes) : ParamCall → Prop
  | .get _ default => default ≠ v
  | .has _ _ => True
  | .set _ _ => False
  | .del _ => False

/-- After `pre`, the call reads a key whose last write was a deletion before the first read of its table, and
which the texts of the request have. -/
def Stale (r : LazyRequest) (pre : List (Table × ParamCall)) (c : Table × ParamCall) : Prop :=
  LazyFill.Forgotten (accesses pre) c.1 (folded c.2.key) ∧ ∃ v, r.pendingValue c.1 c.2.key = some v ∧ c.2.Shows v

/-! ## The two maps of a request -/

namespace LazyRequest

def table (r : LazyRequest) : Table → ParamMap
  | .params => r.params
  | .cookies => r.cookies

def setTable (r : LazyRequest) (m : ParamMap) : Table → LazyRequest
  | .params => { r with params := m }
  | .cookies => { r with cookies := m }

/-- What a read does first. -/
def fillTable (r : LazyRequest) : Table → LazyRequest
  | .params => r.initQueryParam.initBodyParam
  | .cookies => r.initCookies

theorem table_setTable (r : LazyRequest) (m : ParamMap) (t t' : Table) :
    (r.setTable m t).table t' = if t' = t then m else r.table t' := by
  cases t <;> cases t' <;> rfl

theorem pendingPairs_setTable (r : LazyRequest) (m : ParamMap) (t : Table) :
    (r.setTable m t).pendingPairs = r.pendingPairs := by
  funext t'
  cases t <;> cases t' <;> rfl

/-- Marking one text done says nothing about the others. -/
theorem flag_bits (f : UInt8) :
    (f ||| 0x1) &&& 0x1 ≠ 0 ∧ (f ||| 0x1) &&& 0x2 = f &&& 0x2 ∧ (f ||| 0x1) &&& 0x4 = f &&& 0x4 ∧
    (f ||| 0x2) &&& 0x1 = f &&& 0x1 ∧ (f ||| 0x2) &&& 0x2 ≠ 0 ∧ (f ||| 0x2) &&& 0x4 = f &&& 0x4 ∧
    (f ||| 0x4) &&& 0x1 = f &&& 0x1 ∧ (f ||| 0x4) &&& 0x2 = f &&& 0x2 ∧ (f ||| 0x4) &&& 0x4 ≠ 0 := by
  revert f
  apply forall_byte
  decide +kernel

theorem pending_initQueryParam (r : LazyRequest) :
    r.initQueryParam.pendingQuery = [] ∧ r.initQueryParam.pendingBody = r.pendingBody ∧
      r.initQueryParam.pendingCookies = r.pendingCookies := by
  obtain ⟨h1, h2, h4, _⟩ := flag_bits r.parserParamFlag
  rw [r.initQueryParam_eq]
  refine ⟨if_pos h1, ?_, ?_⟩
  · simp only [pendingBody, h2]
    rfl
  · simp only [pendingCookies, h4]
    rfl

theorem pending_initBodyParam (r : LazyRequest) :
    r.initBodyParam.pendingQuery = r.pendingQuery ∧ r.initBodyParam.pendingBody = [] ∧
      r.initBodyParam.pendingCookies = r.pendingCookies := by
  obtain ⟨_, _, _, h1, h2, h4, _⟩ := flag_bits r.parserParamFlag
  rw [r.initBodyParam_eq]
  refine ⟨?_, if_pos (Or.inl h2), ?_⟩
  · simp only [pendingQuery, h1]
  · simp only [pendingCookies, h4]
    rfl

theorem pending_initCookies (r : LazyRequest) :
    r.initCookies.pendingQuery = r.pendingQuery ∧ r.initCookies.pendingBody = r.pendingBody ∧
      r.initCookies.pendingCookies = [] := by
  obtain ⟨_, _, _, _, _, _, h1, h2, h4⟩ := flag_bits r.parserParamFlag
  rw [r.initCookies_eq]
  refine ⟨?_, ?_, if_pos h4⟩
  · simp only [pendingQuery, h1]
  · simp only [pendingBody, h2]
    rfl

/-- Filling a table takes in what it has pending, the query before the body, and leaves the other alone. -/
theorem table_fillTable (r : LazyRequest) (t t' : Table) :
    (r.fillTable t).table t' = if t' = t then (r.table t).fill (r.pendingPairs t) else r.table t' := by
  cases t with
  | params =>
    have hbody := r.pending_initQueryParam.2.1
    cases t' with
    | params =>
      simp only [fillTable, table, pendingPairs, if_true, OrderedMap.fill_append]
      rw [initBodyParam_eq, hbody, initQueryParam_eq]
    | cookies =>
      simp only [fillTable, table]
      rw [initBodyParam_eq, initQueryParam_eq]
      rfl
  | cookies =>
    cases t' with
    | params =>
      simp only [fillTable, table]
      rw [initCookies_eq]
      rfl
    | cookies =>
      simp only [fillTable, table, pendingPairs, if_true]
      rw [initCookies_eq]

theorem pendingPairs_fillTable (r : LazyRequest) (t t' : Table) :
    (r.fillTable t).pendingPairs t' = if t' = t then [] else r.pendingPairs t' := by
  obtain ⟨hq, hb, hc⟩ := r.pending_initQueryParam
  obtain ⟨hq', hb', hc'⟩ := r.initQueryParam.pending_initBodyParam
  obtain ⟨hq'', hb'', hc''⟩ := r.pending_initCookies
  cases t with
  | params => cases t' with
    | params => simp [fillTable, pendingPairs, hq', hq, hb']
    | cookies => simp [fillTable, pendingPairs, hc', hc]
  | cookies => cases t' with
    | params => simp [fillTable, pendingPairs, hq'', hb'']
    | cookies => simp [fillTable, pendingPairs, hc'']

/-- A read fills its table and looks into it. -/
theorem step_read (r : LazyRequest) (t : Table) {c : ParamCall} (hread : c.access = .read (folded c.key)) :
    step (t, c) r = (c.answer (((r.fillTable t).table t).get c.key), r.fillTable t) := by
  cases c with
  | get key default => cases t <;> rfl
  | has key val => cases t <;> rfl
  | set key val => cases hread
  | del key => cases hread

theorem step_set (r : LazyRequest) (t : Table) (key val : Bytes) :
    step (t, .set key val) r = (.done, r.setTable ((r.table t).set key val) t) := by
  cases t <;> rfl

theorem step_del (r : LazyRequest) (t : Table) (key : Bytes) :
    step (t, .del key) r = (.done, r.setTable ((r.table t).erase key) t) := by
  cases t <;> rfl

end LazyRequest

/-! ## As lazily filled tables -/

theorem tolower_ne_zero (c : UInt8) : (c ≠ 0 → tolower c ≠ 0) ∧ tolower (tolower c) = tolower c := by
  revert c
  apply forall_byte
  decide +kernel

theorem folded_folded (key : Bytes) : folded (folded key) = folded key := by
  have hplain : ∀ c ∈ folded key, c ≠ 0 := by
    intro c hc
    obtain ⟨x, hx, rfl⟩ := List.mem_map.mp hc
    exact (tolower_ne_zero x).1 (by simpa using List.mem_takeWhile_imp hx)
  rw [folded_ascii _ hplain]
  simp [folded, (tolower_ne_zero _).2]

/-- The tables of a request, found under folded keys. -/
structure Abstracts (r : LazyRequest) (s : LazyFill.State Table Bytes Bytes) : Prop where
  get : ∀ t key, (r.table t).get key = s.map t (folded key)
  pending : ∀ t key, r.pendingValue t key = s.pending t (folded key)

/-- The maps of the reference, which has nothing pending. -/
structure AbstractsEager (m : Table → ParamMap) (s : LazyFill.State Table Bytes Bytes) : Prop where
  get : ∀ t key, (m t).get key = s.view t (folded key)
  pending : ∀ t, s.pending t = fun _ => none

def LazyRequest.state (r : LazyRequest) : LazyFill.State Table Bytes Bytes where
  map := fun t key => (r.table t).get key
  pending := r.pendingValue

theorem same_folded (key : Bytes) : nameOrder.same key (folded key) = true :=
  (nameOrder_same _ _).mpr (folded_folded key).symm

theorem abstracts_state (r : LazyRequest) : Abstracts r r.state where
  get t key := by
    simp only [LazyRequest.state, OrderedMap.get, OrderedMap.find]
    rw [OrderedMap.lookup_congr (same_folded key)]
  pending t key := by
    simp only [LazyRequest.state, LazyRequest.pendingValue]
    rw [OrderedMap.lookup_congr (same_folded key)]

theorem Abstracts.view {r : LazyRequest} {s : LazyFill.State Table Bytes Bytes} (h : Abstracts r s) (t : Table)
    (key : Bytes) : ((r.fillTable t).table t).get key = s.view t (folded key) := by
  rw [r.table_fillTable, if_pos rfl, OrderedMap.get_fill, h.get]
  exact congrArg (Option.or _) (h.pending t key)

theorem abstractsEager_state (r : LazyRequest) : AbstractsEager r.eager r.state.eager where
  get t key := by
    have hfill : r.eager t = (r.fillTable t).table t := by cases t <;> rfl
    rw [hfill, (abstracts_state r).view, LazyFill.view_eager]
  pending t := rfl

/-- `m[key] = val` and `m.erase(key)`, under the folded key. -/
theorem get_write {m m' : ParamMap} {key : Bytes} {val : Option Bytes}
    (hget : ∀ k, m'.get k = if nameOrder.same k key then val else m.get k) (k : Bytes) :
    m'.get k = if folded k = folded key then val else m.get k := by
  rw [hget]
  simp only [nameOrder_same]

/-- A write, on both sides. -/
theorem Abstracts.write {r : LazyRequest} {s : LazyFill.State Table Bytes Bytes} (h : Abstracts r s) (t : Table)
    {m : ParamMap} {key : Bytes} {val : Option Bytes}
    (hget : ∀ k, m.get k = if nameOrder.same k key then val else (r.table t).get k) :
    Abstracts (r.setTable m t) (s.step (t, .write (folded key) val)) where
  get t' k := by
    rw [r.table_setTable]
    by_cases ht : t' = t
    · subst ht
      rw [if_pos rfl, get_write hget, h.get]
      simp [LazyFill.State.step]
    · rw [if_neg ht, h.get]
      simp [LazyFill.State.step, ht]
  pending t' k := by
    rw [LazyFill.pending_write, ← h.pending]
    simp only [LazyRequest.pendingValue, r.pendingPairs_setTable]

theorem Abstracts.read {r : LazyRequest} {s : LazyFill.State Table Bytes Bytes} (h : Abstracts r s) (t : Table)
    (key : Bytes) : Abstracts (r.fillTable t) (s.step (t, .read (folded key))) where
  get t' k := by
    by_cases ht : t' = t
    · subst ht
      rw [h.view]
      simp [LazyFill.State.step]
    · rw [r.table_fillTable, if_neg ht, h.get]
      simp [LazyFill.State.step, ht]
  pending t' k := by
    rw [LazyRequest.pendingValue, r.pendingPairs_fillTable]
    by_cases ht : t' = t
    · simp [LazyFill.State.step, ht]
    · rw [if_neg ht]
      simpa [LazyFill.State.step, ht, LazyRequest.pendingValue] using h.pending t' k

/-- One call: its answer is that of what the tables show, and it is one access to them. -/
theorem Abstracts.step {r : LazyRequest} {s : LazyFill.State Table Bytes Bytes} (h : Abstracts r s)
    (t : Table) (c : ParamCall) :
    (LazyRequest.step (t, c) r).1 = c.answer (s.view t (folded c.key)) ∧
      Abstracts (LazyRequest.step (t, c) r).2 (s.step (t, c.access)) := by
  cases c with
  | get key default =>
    rw [r.step_read t rfl, h.view]
    exact ⟨rfl, h.read t key⟩
  | has key val =>
    rw [r.step_read t rfl, h.view]
    exact ⟨rfl, h.read t key⟩
  | set key val =>
    rw [r.step_set]
    exact ⟨rfl, h.write t (OrderedMap.get_set _ key val)⟩
  | del key =>
    rw [r.step_del]
    exact ⟨rfl, h.write t (OrderedMap.get_erase _ key)⟩

theorem AbstractsEager.write {m : Table → ParamMap} {s : LazyFill.State Table Bytes Bytes}
    (h : AbstractsEager m s) (t : Table) {m' : ParamMap} {key : Bytes} {val : Option Bytes}
    (hget : ∀ k, m'.get k = if nameOrder.same k key then val else (m t).get k) :
    AbstractsEager (Function.update m t m') (s.step (t, .write (folded key) val)) where
  get t' k := by
    by_cases hsame : t' = t ∧ folded k = folded key
    · obtain ⟨rfl, hkey⟩ := hsame
      rw [Function.update_self, get_write hget, if_pos hkey, hkey, LazyFill.view_write_self, h.pending]
      simp
    · rw [LazyFill.view_write_ne _ hsame, ← h.get]
      by_cases ht : t' = t
      · subst ht
        rw [Function.update_self, get_write hget, if_neg (fun hkey => hsame ⟨rfl, hkey⟩)]
      · rw [Function.update_of_ne ht]
  pending t' := h.pending t'

theorem AbstractsEager.read {m : Table → ParamMap} {s : LazyFill.State Table Bytes Bytes}
    (h : AbstractsEager m s) (t : Table) (key : Bytes) : AbstractsEager m (s.step (t, .read (folded key))) where
  get t' k := by rw [LazyFill.view_read, h.get]
  pending t' := by
    by_cases ht : t' = t
    · simp [LazyFill.State.step, ht]
    · simpa [LazyFill.State.step, ht] using h.pending t'

theorem AbstractsEager.step {m : Table → ParamMap} {s : LazyFill.State Table Bytes Bytes}
    (h : AbstractsEager m s) (t : Table) (c : ParamCall) :
    (eagerStep (t, c) m).1 = c.answer (s.view t (folded c.key)) ∧
      AbstractsEager (eagerStep (t, c) m).2 (s.step (t, c.access)) := by
  refine ⟨by simp only [eagerStep, h.get], ?_⟩
  cases c with
  | get key default =>
    simp only [eagerStep, ParamCall.apply, Function.update_eq_self]
    exact h.read t key
  | has key val =>
    simp only [eagerStep, ParamCall.apply, Function.update_eq_self]
    exact h.read t key
  | set key val => exact h.write t (OrderedMap.get_set _ key val)
  | del key => exact h.write t (OrderedMap.get_erase _ key)

/-- Whole runs, on both sides. -/
theorem final_abstracts (calls : List (Table × ParamCall)) {r : LazyRequest} {s : LazyFill.State Table Bytes Bytes}
    (h : Abstracts r s) : Abstracts (final LazyRequest.step calls r) (s.run (accesses calls)) := by
  induction calls generalizing r s with
  | nil => exact h
  | cons c calls ih => exact ih (h.step c.1 c.2).2

theorem final_abstractsEager (calls : List (Table × ParamCall)) {m : Table → ParamMap}
    {s : LazyFill.State Table Bytes Bytes} (h : AbstractsEager m s) :
    AbstractsEager (final eagerStep calls m) (s.run (accesses calls)) := by
  induction calls generalizing m s with
  | nil => exact h
  | cons c calls ih => exact ih (h.step c.1 c.2).2

/-! ## When laziness shows -/

/-- An answer is the same with nothing found when nothing is, or when the call does not show it. -/
theorem answer_eq_none_iff (c : ParamCall) (found : Option Bytes) :
    c.answer found = c.answer none ↔ ¬ ∃ v, found = some v ∧ c.Shows v := by
  cases found with
  | none => simp
  | some v => cases c with
    | get key default => simp [ParamCall.answer, ParamCall.Shows, eq_comm]
    | has key val => simp [ParamCall.answer, ParamCall.Shows]
    | set key val => simp [ParamCall.answer, ParamCall.Shows]
    | del key => simp [ParamCall.answer, ParamCall.Shows]

/-- The call after `pre` answers as the reference does, unless it is stale. -/
theorem answer_eq_iff (r : LazyRequest) (pre : List (Table × ParamCall)) (c : Table × ParamCall) :
    (LazyRequest.step c (final LazyRequest.step pre r)).1 = (eagerStep c (final eagerStep pre r.eager)).1 ↔
      ¬ Stale r pre c := by
  have hlazy := ((final_abstracts pre (abstracts_state r)).step c.1 c.2).1
  have heager := ((final_abstractsEager pre (abstractsEager_state r)).step c.1 c.2).1
  rw [hlazy, heager]
  by_cases hlost : LazyFill.Forgotten (accesses pre) c.1 (folded c.2.key)
  · obtain ⟨hnone, hback⟩ := LazyFill.run_forgotten r.state hlost
    rw [hnone, hback, ← (abstracts_state r).pending, answer_eq_none_iff]
    simp only [Stale, hlost, true_and]
  · rw [LazyFill.run_eager r.state hlost]
    simp [Stale, hlost]

/-- For every request and every sequence of calls, the answers are those of maps filled before the first call
exactly when no call reads a key that was deleted before its map was first read and that the texts have. -/
theorem lazy_unobservable_iff (r : LazyRequest) (calls : List (Table × ParamCall)) :
    trace LazyRequest.step calls r = trace eagerStep calls r.eager ↔
      ∀ pre c post, calls = pre ++ c :: post → ¬ Stale r pre c := by
  rw [trace_eq_iff]
  constructor
  · intro h pre c post heq
    exact (answer_eq_iff r pre c).mp (h pre c post heq)
  · intro h pre c post heq
    exact (answer_eq_iff r pre c).mpr (h pre c post heq)

/-- Deleted and then asked for, a parameter of the query is back. -/
theorem lazy_unobservable_fails :
    ¬ ∀ (r : LazyRequest) (calls : List (Table × ParamCall)),
      trace LazyRequest.step calls r = trace eagerStep calls r.eager := by
  intro h
  have hrun := h { query := ascii "a=1" } [(.params, .del (ascii "a")), (.params, .has (ascii "a") none)]
  have hanswer := (trace_eq_iff _ _ _).mp hrun [(.params, .del (ascii "a"))] (.params, .has (ascii "a") none) [] rfl
  apply (answer_eq_iff _ _ _).mp hanswer
  refine ⟨⟨[], [], rfl, by simp, by simp⟩, ascii "1", ?_, trivial⟩
  decide +kernel

end Sylar.Http
