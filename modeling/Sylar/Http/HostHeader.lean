import Sylar.Http.Params
import Sylar.Uri.Basic

/- The requests that a client is asked to make (`sylar/http/http_connection.cc`).

   `HttpConnection::DoRequest` and `HttpConnectionPool::doRequest` fill a request from the
   headers of the caller with one and the same loop (`headerRound`), and give it a default
   `Host` unless `has_host` says that there is one. The caller's map tells spellings of a
   name apart, the map of the request does not: there the last spelling has overwritten the
   others, while `has_host` stays set once a value was not empty. `LoopDone` is what
   both know after some of the headers; `host_header_iff` says for which maps they agree. -/
namespace Sylar.Http
open Sylar.Lib

/-! ## The caller's headers -/

/-- The order of the keys of a `std::map<std::string, std::string>`. -/
def stringOrder : WeakOrder Bytes where
  less a b := a < b
  irrefl a := by simp
  trans a b c hab hbc := by
    simp only [decide_eq_true_eq] at hab hbc ⊢
    exact List.lt_trans hab hbc
  cotrans a b c hac := by
    simp only [decide_eq_true_eq] at hac ⊢
    by_contra h
    obtain ⟨hab, hbc⟩ := not_or.mp h
    have hca : c ≤ a := List.le_trans hbc hab
    exact hca hac

abbrev StringMap := OrderedMap stringOrder Bytes

/-- One round of the loop over the caller's headers, with `has_host`. -/
def headerRound (s : HttpRequest × Bool) (i : Bytes × Bytes) : HttpRequest × Bool :=
  if sameName i.1 (ascii "connection") then
    -- `continue`: this header is never copied
    (if sameName i.2 (ascii "keep-alive") then { s.1 with close := false } else s.1, s.2)
  else
    -- once the flag is set no later value is looked at, but each is copied
    let has_host := if !s.2 && sameName i.1 (ascii "host") then decide (i.2 ≠ []) else s.2
    (s.1.setHeader i.1 i.2, has_host)

/-- The part that both functions have in common: `req` filled from the headers, the default host and the body. -/
def fillRequest (req : HttpRequest) (headers : StringMap) (host body : Bytes) : HttpRequest :=
  let s := headers.entries.foldl headerRound (req, false)
  let req := if !s.2 then s.1.setHeader (ascii "Host") host else s.1
  { req with body := body }

/-- The request that `HttpConnection::DoRequest(method, uri, ...)` sends. -/
def HttpConnection.doRequest (method : HttpMethod) (uri : Uri) (headers : StringMap) (body : Bytes) : HttpRequest :=
  fillRequest { path := uri.getPath, query := uri.query, fragment := uri.fragment, method := method }
    headers uri.host body

/-- The members of `HttpConnectionPool` that its requests are made from. -/
structure HttpConnectionPool where
  host : Bytes
  vhost : Bytes

def HttpConnectionPool.defaultHost (pool : HttpConnectionPool) : Bytes :=
  if pool.vhost = [] then pool.host else pool.vhost

/-- The request that `HttpConnectionPool::doRequest(method, url, ...)` sends. -/
def HttpConnectionPool.doRequest (pool : HttpConnectionPool) (method : HttpMethod) (url : Bytes)
    (headers : StringMap) (body : Bytes) : HttpRequest :=
  fillRequest { path := url, method := method } headers pool.defaultHost body

/-! ## What is promised -/

/-- A header of the caller that names the host. -/
def isHost (kv : Bytes × Bytes) : Bool := sameName kv.1 (ascii "host")

/-- The hosts that the caller has given. -/
def givenHosts (headers : StringMap) : List Bytes :=
  ((headers.entries.filter isHost).map Prod.snd).filter (· ≠ [])

/-- The request has a host: one that was given, or else the default. -/
def HasHost (headers : StringMap) (host : Bytes) (req : HttpRequest) : Prop :=
  ∃ v, req.headers.get (ascii "Host") = some v ∧ v ≠ [] ∧
    if givenHosts headers = [] then v = host else v ∈ givenHosts headers

/-- Two requests with the same headers, those that `dump` adds included. -/
structure SameHeaders (a b : HttpRequest) : Prop where
  headers : a.headers = b.headers
  close : a.close = b.close
  websocket : a.websocket = b.websocket

/-- No host is given, or the spelling of `host` that comes last has one. -/
def LastHostGiven (headers : StringMap) : Prop :=
  givenHosts headers = [] ∨ ∃ kv, (headers.entries.filter isHost).getLast? = some kv ∧ kv.2 ≠ []

/-! ## The loop -/

/-- What the request and `has_host` say of the host after the headers `done`. -/
structure LoopDone (done : List (Bytes × Bytes)) (s : HttpRequest × Bool) : Prop where
  inOrder : OrderedMap.InOrder nameOrder s.1.headers
  host : s.1.headers.get (ascii "Host") = (done.filter isHost).getLast?.map Prod.snd
  hasHost : s.2 = done.any fun kv => isHost kv && decide (kv.2 ≠ [])

section
variable {s t : HttpRequest × Bool} {done : List (Bytes × Bytes)}

theorem headerRound_done (h : LoopDone done s) (i : Bytes × Bytes) : LoopDone (done ++ [i]) (headerRound s i) := by
  have hname : sameName (ascii "Host") i.1 = isHost i := by
    have hcase : folded (ascii "Host") = folded (ascii "host") := by decide
    simp [sameName, isHost, hcase, eq_comm]
  unfold headerRound
  split
  · rename_i hconnection
    -- a name that is `connection` is not `host`
    have hother : isHost i = false := by
      simp only [sameName, decide_eq_true_eq] at hconnection
      have hne : folded (ascii "connection") ≠ folded (ascii "host") := by decide
      simp [isHost, sameName, hconnection, hne]
    constructor
    · split
      · exact h.inOrder
      · exact h.inOrder
    · have hheaders : (if sameName i.2 (ascii "keep-alive") then { s.1 with close := false } else s.1).headers =
          s.1.headers := by
        split
        · rfl
        · rfl
      rw [hheaders, h.host]
      simp [List.filter_append, hother]
    · simp [h.hasHost, hother]
  · constructor
    · exact inOrder_set _ _ h.inOrder
    · have hget := get_set i.1 i.2 h.inOrder (ascii "Host")
      rw [hname] at hget
      cases hi : isHost i with
      | false => simp [HttpRequest.setHeader, hget, hi, h.host, List.filter_append]
      | true => simp [HttpRequest.setHeader, hget, hi, List.filter_append]
    · have htest : sameName i.1 (ascii "host") = isHost i := rfl
      rw [htest, List.any_append, ← h.hasHost]
      cases hi : isHost i with
      | false => simp [hi]
      | true =>
        cases s.2 with
        | false => simp [hi]
        | true => simp

/-- After the whole loop, from a new request. -/
theorem loop_done {req : HttpRequest} (hnew : req.headers = []) (kvs : List (Bytes × Bytes)) :
    LoopDone kvs (kvs.foldl headerRound (req, false)) := by
  -- from the back, as the last header is the one of the last round
  induction kvs using List.reverseRecOn with
  | nil => exact ⟨by simp [hnew, OrderedMap.InOrder], by simp [hnew, MapType.get], by simp⟩
  | append_singleton kvs i ih =>
    rw [List.foldl_append]
    exact headerRound_done ih i

/-- A round looks at nothing of the request. -/
theorem headerRound_same (h : SameHeaders s.1 t.1) (hflag : s.2 = t.2) (i : Bytes × Bytes) :
    SameHeaders (headerRound s i).1 (headerRound t i).1 ∧ (headerRound s i).2 = (headerRound t i).2 := by
  unfold headerRound
  split
  · refine ⟨?_, hflag⟩
    dsimp only
    split
    · exact ⟨h.headers, rfl, h.websocket⟩
    · exact h
  · refine ⟨⟨?_, h.close, h.websocket⟩, by simp [hflag]⟩
    simp [HttpRequest.setHeader, h.headers]

theorem loop_same (h : SameHeaders s.1 t.1) (hflag : s.2 = t.2) (kvs : List (Bytes × Bytes)) :
    SameHeaders (kvs.foldl headerRound s).1 (kvs.foldl headerRound t).1 ∧
      (kvs.foldl headerRound s).2 = (kvs.foldl headerRound t).2 := by
  induction kvs generalizing s t with
  | nil => exact ⟨h, hflag⟩
  | cons i rest ih =>
    obtain ⟨hround, hflag'⟩ := headerRound_same h hflag i
    exact ih hround hflag'

end

/-! ## The host of the request -/

section
variable {req other : HttpRequest} {headers : StringMap} {host : Bytes}

/-- The requests that are filled from the same headers have the same headers. -/
theorem fillRequest_same (h : SameHeaders req other) (headers : StringMap) (host body body' : Bytes) :
    SameHeaders (fillRequest req headers host body) (fillRequest other headers host body') := by
  obtain ⟨hsame, hflag⟩ := loop_same (s := (req, false)) (t := (other, false)) h rfl headers.entries
  unfold fillRequest
  dsimp only
  rw [hflag]
  split
  · refine ⟨?_, hsame.close, hsame.websocket⟩
    simp [HttpRequest.setHeader, hsame.headers]
  · exact ⟨hsame.headers, hsame.close, hsame.websocket⟩

theorem givenHosts_eq_nil (headers : StringMap) :
    givenHosts headers = [] ↔ (headers.entries.any fun kv => isHost kv && decide (kv.2 ≠ [])) = false := by
  simp only [givenHosts, List.filter_eq_nil_iff, List.forall_mem_map, List.any_eq_false, List.mem_filter]
  simp

/-- The host of the request: the default when none was given, else what the last spelling says. -/
theorem fillRequest_host (hnew : req.headers = []) (headers : StringMap) (host body : Bytes) :
    (fillRequest req headers host body).headers.get (ascii "Host") =
      if givenHosts headers = [] then some host else (headers.entries.filter isHost).getLast?.map Prod.snd := by
  have hdone := loop_done hnew headers.entries
  unfold fillRequest
  dsimp only
  by_cases hnone : givenHosts headers = []
  · -- the flag is not set, and the default overwrites what empty values have left
    have hflag := hdone.hasHost.trans ((givenHosts_eq_nil headers).mp hnone)
    have hself : sameName (ascii "Host") (ascii "Host") = true := by decide
    simp [hflag, hnone, HttpRequest.setHeader, get_set _ _ hdone.inOrder, hself]
  · have hflag := hdone.hasHost.trans (Bool.eq_true_of_not_eq_false fun h => hnone ((givenHosts_eq_nil headers).mpr h))
    simp only [hflag, Bool.not_true, Bool.false_eq_true, if_false, if_neg hnone]
    exact hdone.host

theorem hasHost_iff (hnew : req.headers = []) (hhost : host ≠ []) (headers : StringMap) (body : Bytes) :
    HasHost headers host (fillRequest req headers host body) ↔ LastHostGiven headers := by
  unfold HasHost LastHostGiven
  rw [fillRequest_host hnew]
  by_cases hnone : givenHosts headers = []
  · simp [hnone, hhost]
  · simp only [hnone, if_false, false_or]
    constructor
    · intro h
      obtain ⟨v, hv, hne, -⟩ := h
      obtain ⟨kv, hlast, hkv⟩ := Option.map_eq_some_iff.mp hv
      exact ⟨kv, hlast, by rw [hkv]; exact hne⟩
    · intro h
      obtain ⟨kv, hlast, hne⟩ := h
      refine ⟨kv.2, by simp [hlast], hne, ?_⟩
      have hmem := List.mem_of_getLast? hlast
      apply List.mem_filter.mpr
      exact ⟨List.mem_map_of_mem hmem, by simpa using hne⟩

end

/-- **Both functions send a host, one that was given or else the default, and the same headers, exactly for
the maps where no host is given or the last spelling of `host` has one.** -/
theorem host_header_iff (method method' : HttpMethod) (uri : Uri) (pool : HttpConnectionPool) (url : Bytes)
    (headers : StringMap) (body body' : Bytes) (host : Bytes) (hhost : host ≠ []) (huri : uri.host = host)
    (hpool : pool.defaultHost = host) :
    (HasHost headers host (HttpConnection.doRequest method uri headers body) ∧
      HasHost headers host (pool.doRequest method' url headers body') ∧
      SameHeaders (HttpConnection.doRequest method uri headers body) (pool.doRequest method' url headers body')) ↔
    LastHostGiven headers := by
  unfold HttpConnection.doRequest HttpConnectionPool.doRequest
  rw [huri, hpool, hasHost_iff rfl hhost, hasHost_iff rfl hhost]
  constructor
  · intro h
    exact h.1
  · intro h
    refine ⟨h, h, ?_⟩
    apply fillRequest_same
    exact ⟨rfl, rfl, rfl⟩

/-- A caller that gives the host `b`, and two defaults that are the same. -/
theorem host_header_given :
    let headers : StringMap := ⟨[(ascii "host", ascii "b")], List.pairwise_singleton _ _⟩
    let sent := HttpConnection.doRequest .GET { host := ascii "d" } headers []
    let pooled := HttpConnectionPool.doRequest { host := ascii "c", vhost := ascii "d" } .GET (ascii "/") headers []
    HasHost headers (ascii "d") sent ∧ HasHost headers (ascii "d") pooled ∧ SameHeaders sent pooled :=
  (host_header_iff .GET .GET { host := ascii "d" } { host := ascii "c", vhost := ascii "d" } (ascii "/")
    ⟨[(ascii "host", ascii "b")], List.pairwise_singleton _ _⟩ [] [] (ascii "d") (by decide) rfl
    (by decide)).mpr (Or.inr ⟨(ascii "host", ascii "b"), by decide, by decide⟩)

/-- `HOST: a` and an empty `host`. -/
def twoSpellings : StringMap where
  entries := [(ascii "HOST", ascii "a"), (ascii "host", [])]
  inOrder := by simp [OrderedMap.InOrder, stringOrder]; decide

/-- The empty one is sent. -/
theorem empty_host_sent :
    (HttpConnection.doRequest .GET { host := ascii "d" } twoSpellings []).headers = [(ascii "HOST", [])] ∧
      givenHosts twoSpellings = [ascii "a"] ∧
      ¬ HasHost twoSpellings (ascii "d") (HttpConnection.doRequest .GET { host := ascii "d" } twoSpellings []) := by
  have hheaders : (HttpConnection.doRequest .GET { host := ascii "d" } twoSpellings []).headers =
      [(ascii "HOST", [])] := by
    decide +kernel
  refine ⟨hheaders, by decide +kernel, ?_⟩
  intro h
  obtain ⟨v, hget, hne, -⟩ := h
  have hempty : MapType.get (ascii "Host") [(ascii "HOST", [])] = some [] := by
    decide +kernel
  rw [hheaders, hempty] at hget
  exact hne (Option.some.inj hget).symm

end Sylar.Http
