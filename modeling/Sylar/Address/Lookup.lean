import Mathlib.Data.List.Basic
import Mathlib.Data.List.TakeWhile
import Sylar.Http.Tables

/- `Address::Lookup` in `sylar/address.cc`: how a host is split for `getaddrinfo`.

   A pointer into the string is its index; the byte behind the last one is 0 and ends every
   C string made of it. Two scans share `node` and `service`. The second points `service`
   at the first colon before it has looked for another one, and where there is one it stays
   there: a bare IPv6 address is looked up with its own text from that colon on as the
   service (`lookupCall_two`). -/
namespace Sylar.Address
open Sylar.Http

/-- `memchr(s + p, c, n)` within `s`, as an index into `s`. -/
def memchr (s : Bytes) (p : Nat) (c : UInt8) (n : Nat) : Option Nat :=
  if c ∈ (s.drop p).take n then some (p + ((s.drop p).take n).idxOf c) else none

/-- The C string that starts at `p`. -/
def cString (s : Bytes) (p : Nat) : Bytes := (s.drop p).takeWhile (· ≠ 0)

/-- What `Lookup` sets of an `addrinfo`; the other fields are 0. -/
structure Hints where
  ai_flags : Int
  ai_family : Int
  ai_socktype : Int
  ai_protocol : Int
  deriving DecidableEq, Repr

def lookupHints (family type protocol : Int) : Hints where
  ai_flags := 0
  ai_family := family
  ai_socktype := type
  ai_protocol := protocol

/-- The arguments of `getaddrinfo`. -/
structure Call where
  node : Bytes
  /-- `NULL` or a C string. -/
  service : Option Bytes
  hints : Hints
  deriving DecidableEq, Repr

section
variable (host : Bytes)

/-- An IPv6 address in brackets, with a service or without. -/
def checkBrackets : Bytes × Option Nat :=
  if host ≠ [] ∧ host.head? = some (chr '[') then
    match memchr host 1 (chr ']') (host.length - 1) with
    | some endipv6 =>
      ((host.drop 1).take (endipv6 - 1), if host.getD (endipv6 + 1) 0 = chr ':' then some (endipv6 + 2) else none)
    | none => ([], none)
  else ([], none)

/-- A node and a service around a colon. -/
def checkColon (r : Bytes × Option Nat) : Bytes × Option Nat :=
  if r.1 = [] then
    match memchr host 0 (chr ':') host.length with
    | some service =>
      match memchr host (service + 1) (chr ':') (host.length - service - 1) with
      | none => (host.take service, some (service + 1))
      -- `service` keeps pointing at the colon
      | some _ => (r.1, some service)
    | none => (r.1, none)
  else r

variable (family type protocol : Int)

/-- `Lookup` up to `getaddrinfo`. -/
def lookupCall : Call :=
  let r := checkColon host (checkBrackets host)
  let node := if r.1 = [] then host else r.1
  { node := cString node 0
    service := r.2.map (cString host)
    hints := lookupHints family type protocol }

/-- `Lookup`, for a `getaddrinfo` that gives an error and otherwise a list of addresses. -/
def lookup {σ α : Type} (getaddrinfo : Call → Int × List σ) (create : σ → α) (result : List α) : Bool × List α :=
  let (error, results) := getaddrinfo (lookupCall host family type protocol)
  if error ≠ 0 then (false, result)
  else
    let result := results.foldl (fun result next => result ++ [create next]) result
    (!result.isEmpty, result)

end

/-- `getaddrinfo` is asked for this one call. -/
theorem lookup_congr {σ α : Type} {getaddrinfo getaddrinfo' : Call → Int × List σ} (host : Bytes)
    (family type protocol : Int) (create : σ → α) (result : List α)
    (h : getaddrinfo (lookupCall host family type protocol) = getaddrinfo' (lookupCall host family type protocol)) :
    lookup host family type protocol getaddrinfo create result =
      lookup host family type protocol getaddrinfo' create result := by
  rw [lookup, lookup, h]

/-! ## Scans -/

/-- Both scans go to the end of the string. -/
theorem memchr_rest (s : Bytes) (p : Nat) (c : UInt8) {n : Nat} (hn : n = s.length - p) :
    memchr s p c n = if c ∈ s.drop p then some (p + (s.drop p).idxOf c) else none := by
  rw [memchr, List.take_of_length_le (by rw [List.length_drop]; omega)]

theorem checkBrackets_other {host : Bytes} (hopen : host.head? ≠ some (chr '[')) : checkBrackets host = ([], none) :=
  if_neg fun h => hopen h.2

theorem memchr_found {s pre : Bytes} {p : Nat} {c : UInt8} {post : Bytes} (hs : s.drop p = pre ++ c :: post)
    (hpre : c ∉ pre) {n : Nat} (hn : n = s.length - p) : memchr s p c n = some (p + pre.length) := by
  rw [memchr_rest s p c hn, hs, if_pos (by simp), List.idxOf_append_of_notMem hpre, List.idxOf_cons_self]
  rfl

theorem memchr_none {s : Bytes} {p : Nat} {c : UInt8} (hs : c ∉ s.drop p) {n : Nat} (hn : n = s.length - p) :
    memchr s p c n = none := by
  rw [memchr_rest s p c hn, if_neg hs]

theorem cString_drop {s : Bytes} (hs : 0 ∉ s) (p : Nat) : cString s p = s.drop p := by
  apply List.takeWhile_eq_self_iff.mpr
  intro c hc
  have hmem := List.mem_of_mem_drop hc
  simpa using fun h : c = 0 => hs (h ▸ hmem)

theorem cString_zero {s : Bytes} (hs : 0 ∉ s) : cString s 0 = s := cString_drop hs 0

/-! ## The shapes of a host -/

section
variable {host : Bytes} (hnul : 0 ∉ host) (family type protocol : Int)
include hnul

/-- `[A]` and what stands behind it: a colon begins the service. -/
theorem lookupCall_brackets {A behind : Bytes} (hhost : host = chr '[' :: (A ++ chr ']' :: behind)) (hA : A ≠ [])
    (hclose : chr ']' ∉ A) :
    lookupCall host family type protocol =
      { node := A
        service := if behind.head? = some (chr ':') then some behind.tail else none
        hints := lookupHints family type protocol } := by
  have hfrom : host.drop 1 = A ++ chr ']' :: behind := by
    rw [hhost]
    rfl
  have hscan : memchr host 1 (chr ']') (host.length - 1) = some (1 + A.length) := memchr_found hfrom hclose rfl
  have hrest : host.drop (1 + A.length + 1) = behind := by
    rw [hhost, show 1 + A.length + 1 = A.length + 1 + 1 by omega, List.drop_succ_cons, ← List.drop_drop,
      List.drop_left]
    rfl
  have hnext : host.getD (1 + A.length + 1) 0 = behind.headD 0 := by
    rw [List.getD_eq_getElem?_getD, ← hrest, List.headD_eq_head?_getD, List.head?_drop]
  have hnode : (host.drop 1).take (1 + A.length - 1) = A := by
    rw [hfrom, Nat.add_sub_cancel_left, List.take_left]
  have hopen : host ≠ [] ∧ host.head? = some (chr '[') := by
    rw [hhost]
    exact ⟨List.cons_ne_nil _ _, rfl⟩
  have hnul' : 0 ∉ A := by
    intro hmem
    apply hnul
    rw [hhost]
    exact List.mem_cons_of_mem _ (List.mem_append_left _ hmem)
  rw [lookupCall, checkBrackets, if_pos hopen]
  simp only [hscan, hnode, hnext, checkColon, hA, if_false, cString_zero hnul']
  cases behind with
  | nil => rfl
  | cons c behind =>
    have hservice : host.drop (1 + A.length + 2) = behind := by
      rw [show 1 + A.length + 2 = (1 + A.length + 1) + 1 by omega, ← List.drop_drop, hrest]
      rfl
    rw [List.headD_cons, List.head?_cons, List.tail_cons]
    by_cases hc : c = chr ':'
    · rw [if_pos hc, if_pos (congrArg some hc), Option.map_some, cString_drop hnul, hservice]
    · rw [if_neg hc, if_neg (fun h => hc (Option.some.inj h)), Option.map_none]

/-- Without a colon. -/
theorem lookupCall_none (hopen : host.head? ≠ some (chr '[')) (hcolon : chr ':' ∉ host) :
    lookupCall host family type protocol =
      { node := host
        service := none
        hints := lookupHints family type protocol } := by
  have hscan : memchr host 0 (chr ':') host.length = none := memchr_none hcolon rfl
  rw [lookupCall, checkBrackets_other hopen]
  simp only [checkColon, hscan, if_true, Option.map_none, cString_zero hnul]

/-- Around the only colon. -/
theorem lookupCall_one {before after : Bytes} (hhost : host = before ++ chr ':' :: after)
    (hopen : host.head? ≠ some (chr '[')) (hne : before ≠ []) (hbefore : chr ':' ∉ before) (hafter : chr ':' ∉ after) :
    lookupCall host family type protocol =
      { node := before
        service := some after
        hints := lookupHints family type protocol } := by
  have hrest : host.drop (0 + before.length + 1) = after := by
    rw [hhost, Nat.zero_add, ← List.drop_drop, List.drop_left]
    rfl
  have hscan : memchr host 0 (chr ':') host.length = some (0 + before.length) :=
    memchr_found (s := host) (p := 0) hhost hbefore rfl
  have hsecond : memchr host (0 + before.length + 1) (chr ':') (host.length - (0 + before.length) - 1) = none :=
    memchr_none (by rw [hrest]; exact hafter) (by omega)
  have hnode : 0 ∉ before := by
    intro hmem
    apply hnul
    rw [hhost]
    exact List.mem_append_left _ hmem
  have htake : host.take (0 + before.length) = before := by
    rw [hhost, Nat.zero_add, List.take_left]
  rw [lookupCall, checkBrackets_other hopen]
  simp only [checkColon, hscan, hsecond, htake, hne, if_true, if_false, Option.map_some, cString_drop hnul, hrest,
    cString_zero hnode]

/-- With two colons or more the service is the text from the first one on. -/
theorem lookupCall_two {before after : Bytes} (hhost : host = before ++ chr ':' :: after)
    (hopen : host.head? ≠ some (chr '[')) (hbefore : chr ':' ∉ before) (hafter : chr ':' ∈ after) :
    lookupCall host family type protocol =
      { node := host
        service := some (chr ':' :: after)
        hints := lookupHints family type protocol } := by
  have hfrom : host.drop (0 + before.length) = chr ':' :: after := by
    rw [hhost, Nat.zero_add, List.drop_left]
  have hrest : host.drop (0 + before.length + 1) = after := by
    rw [← List.drop_drop, hfrom]
    rfl
  have hscan : memchr host 0 (chr ':') host.length = some (0 + before.length) :=
    memchr_found (s := host) (p := 0) hhost hbefore rfl
  obtain ⟨l, r, hsplit, hl⟩ := List.eq_append_cons_of_mem hafter
  have hsecond : memchr host (0 + before.length + 1) (chr ':') (host.length - (0 + before.length) - 1) =
      some (0 + before.length + 1 + l.length) :=
    memchr_found (by rw [hrest]; exact hsplit) hl (by omega)
  rw [lookupCall, checkBrackets_other hopen]
  simp only [checkColon, hscan, hsecond, if_true, Option.map_some, cString_drop hnul, hfrom, List.drop_zero]

end

/-! ## Splitting -/

/-- What is promised of a host, by its shape. -/
structure SplitRight (host : Bytes) (call : Call) : Prop where
  bracketsService : ∀ A S, host = chr '[' :: (A ++ chr ']' :: chr ':' :: S) → A ≠ [] → chr ']' ∉ A →
    call.node = A ∧ call.service = some S
  brackets : ∀ A, host = chr '[' :: (A ++ [chr ']']) → A ≠ [] → chr ']' ∉ A →
    call.node = A ∧ call.service = none
  one : ∀ before after, host = before ++ chr ':' :: after → host.head? ≠ some (chr '[') → before ≠ [] →
    chr ':' ∉ before → chr ':' ∉ after → call.node = before ∧ call.service = some after
  whole : host.head? ≠ some (chr '[') → host.count (chr ':') = 0 ∨ 2 ≤ host.count (chr ':') →
    call.node = host ∧ call.service = none

/-- **The host is split right** if and only if it starts with `[` or has fewer than two colons. -/
theorem lookup_splits_iff (host : Bytes) (hnul : 0 ∉ host) (family type protocol : Int) :
    SplitRight host (lookupCall host family type protocol) ↔
      host.head? = some (chr '[') ∨ host.count (chr ':') < 2 := by
  constructor
  · intro h
    by_contra hbare
    rw [not_or, Nat.not_lt] at hbare
    obtain ⟨hopen, htwo⟩ := hbare
    have hcolon : chr ':' ∈ host := List.count_pos_iff.mp (by omega)
    obtain ⟨before, after, hhost, hbefore⟩ := List.eq_append_cons_of_mem hcolon
    have hafter : chr ':' ∈ after := by
      rw [hhost, List.count_append, List.count_cons_self, List.count_eq_zero_of_not_mem hbefore] at htwo
      exact List.count_pos_iff.mp (by omega)
    have hservice := (h.whole hopen (Or.inr htwo)).2
    rw [lookupCall_two hnul family type protocol hhost hopen hbefore hafter] at hservice
    cases hservice
  · intro hshape
    refine ⟨?_, ?_, ?_, ?_⟩
    · intro A S hhost hA hclose
      rw [lookupCall_brackets hnul family type protocol hhost hA hclose]
      refine ⟨rfl, ?_⟩
      simp only [List.head?_cons, if_true, List.tail_cons]
    · intro A hhost hA hclose
      rw [lookupCall_brackets hnul family type protocol hhost hA hclose]
      refine ⟨rfl, ?_⟩
      simp only [List.head?_nil, reduceCtorEq, if_false]
    · intro before after hhost hopen hne hbefore hafter
      rw [lookupCall_one hnul family type protocol hhost hopen hne hbefore hafter]
      exact ⟨rfl, rfl⟩
    · intro hopen hcount
      have hfew : host.count (chr ':') < 2 := hshape.resolve_left hopen
      have hcolon : chr ':' ∉ host := List.count_eq_zero.mp (by omega)
      rw [lookupCall_none hnul family type protocol hopen hcolon]
      exact ⟨rfl, rfl⟩

/-- `[::1]:80`. -/
theorem lookup_splits_brackets : SplitRight (ascii "[::1]:80") (lookupCall (ascii "[::1]:80") 2 1 0) :=
  (lookup_splits_iff (ascii "[::1]:80") (by decide) 2 1 0).mpr (by decide)

/-- `fe80::1` is looked up with the service `::1`. -/
theorem lookup_bare_address :
    (lookupCall (ascii "fe80::1") 2 1 0).node = ascii "fe80::1" ∧
      (lookupCall (ascii "fe80::1") 2 1 0).service = some (ascii "::1") ∧
      ¬ ∀ host : Bytes, 0 ∉ host → ∀ family type protocol : Int,
        SplitRight host (lookupCall host family type protocol) := by
  refine ⟨by decide, by decide, ?_⟩
  intro h
  have hsplit := h (ascii "fe80::1") (by decide) 2 1 0
  exact absurd (hsplit.whole (by decide) (by decide)).2 (by decide)

end Sylar.Address
