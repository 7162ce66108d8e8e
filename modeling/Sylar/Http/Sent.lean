import Mathlib.Data.List.Basic
import Mathlib.Data.List.Forall2
import Sylar.Lib.Stream
import Sylar.Http.Session
import Sylar.Http.Dump
import Sylar.Http.Params

/- What `recvRequest` returns of what `dump` has written.

   The text of a request is one that a new parser is finished with at its last byte and
   not before (`Sendable.encodes`): no callback but the one for the end of the message
   finishes it, the calls at the end of a buffer included. So the requests of a client
   that keeps the connection, written with `dump` one after another, come out of the
   calls of `recvRequest` in order, each as it was but for the headers that `dump` sets
   (`sent_received`). -/
namespace Sylar.Http
open Sylar.Lib

/-! ## Before the last byte -/

/-- The callbacks' state in the loop, or where it has stopped. -/
def outcome {σ : Type} : Except (Stop σ) (Loop σ) → σ
  | .ok l => l.user
  | .error s => s.user

section
variable {r : Except (Stop (Handler HttpRequest)) (Loop (Handler HttpRequest))}
  {f : Loop (Handler HttpRequest) → Except (Stop (Handler HttpRequest)) (Loop (Handler HttpRequest))}
  {l : Loop (Handler HttpRequest)}

theorem unfinished_bind (hr : (outcome r).finished = false)
    (hf : ∀ l, Unfinished l → (outcome (f l)).finished = false) : (outcome (r >>= f)).finished = false := by
  cases r with
  | error s => exact hr
  | ok l => exact hf l hr

/-- A callback for data completes no message. -/
theorem onData_finished (m : Mark) (p : Fields) (d : Bytes) (h : Handler HttpRequest) :
    (requestSettings.onData m p d h).2.finished = h.finished := by
  cases m with
  | url =>
    show (onRequestUrl p d h).2.finished = h.finished
    unfold onRequestUrl
    split
    · rfl
    · rfl
  | status => rfl
  | header_field => rfl
  | header_value => rfl
  | body => rfl

theorem callback_unfinished (m : Mark) (n : Nat) (h : Unfinished l) :
    (outcome (l.callback requestSettings m n)).finished = false := by
  unfold Loop.callback
  split
  · exact h
  · rename_i d _
    have hdata := (onData_finished m l.toFields d l.user).trans h
    dsimp only
    split
    · exact hdata
    · exact hdata

theorem endRun_unfinished (h : Unfinished l) : (outcome l.endRun).finished = false := by
  unfold Loop.endRun
  split
  · exact h
  · unfold Loop.countHeaderSize
    dsimp only
    split
    · exact h
    · exact h

/-- The end of a buffer completes no message. -/
theorem leave_unfinished (h : Unfinished l) : (outcome (leave requestSettings l)).finished = false := by
  refine unfinished_bind (endRun_unfinished h) ?_
  intro l h
  refine unfinished_bind (callback_unfinished .header_field 0 h) ?_
  intro l h
  refine unfinished_bind (callback_unfinished .header_value 0 h) ?_
  intro l h
  refine unfinished_bind (callback_unfinished .url 0 h) ?_
  intro l h
  refine unfinished_bind (callback_unfinished .body 0 h) ?_
  intro l h
  exact callback_unfinished .status 0 h

theorem consume_outcome {data : Bytes} {m : Loop (Handler HttpRequest)}
    (hscan : scan (step requestSettings) data l = .ok m) :
    (consume requestSettings data l).2.2 = outcome (leave requestSettings m) := by
  unfold consume
  rw [hscan]
  dsimp only
  cases leave requestSettings m with
  | ok l => rfl
  | error s => rfl

/-- A new parser that is given a part of the text is not finished. -/
theorem execute_unfinished {data : Bytes} {t : Loop (Handler HttpRequest)}
    (hreads : Reads requestSettings data startLoop t) {k : Nat} (hk : k < data.length) :
    (HttpRequestParser.execute HttpRequestParser.new (data.take k)).2.isFinished = false := by
  obtain ⟨m, hscan, hm⟩ := hreads.scan_take k hk
  by_cases hzero : k = 0
  · rw [hzero]
    rfl
  · have hne : data.take k ≠ [] := by
      apply List.ne_nil_of_length_pos
      rw [List.length_take]
      omega
    unfold HttpRequestParser.execute
    rw [executeWith_eq rfl rfl hne]
    show (consume requestSettings (data.take k) startLoop).2.2.finished = false
    rw [consume_outcome hscan]
    exact leave_unfinished hm

end

/-! ## What arrives -/

/-- The map holds a key once, so a search finds what is there. -/
theorem get_of_mem {key val : Bytes} {m : MapType} (hs : OrderedSet.Sorted keyLess m) (hmem : (key, val) ∈ m) :
    m.get key = some val := by
  have horder : OrderedMap.InOrder nameOrder m := hs
  have hfound := (OrderedMap.mem_iff_lookup horder.distinct (key, val)).mp hmem
  dsimp only at hfound
  rw [get_eq_lookup, hfound]
  simp

section
variable {r : HttpRequest}

/-- `content-length` is another key than `connection` and than those that are kept. -/
theorem Sendable.length_fresh (h : Sendable r) :
    Fresh r.contentLength.1 (r.others.set r.connection.1 r.connection.2) := by
  obtain ⟨-, hmem⟩ := set_fresh r.connection.1 r.connection.2 (others_sorted h) (others_fresh r)
  intro kv hkv
  rcases (hmem kv).mp hkv with rfl | hkv
  · show folded (ascii "connection") ≠ folded (ascii "content-length")
    decide
  · exact (h.headers kv (List.mem_filter.mp hkv).1).not_length

/-- `connection` is among the headers that are sent. -/
theorem Sendable.get_connection (h : Sendable r) :
    r.sentHeaders.get (ascii "connection") = some (ascii (if r.close then "close" else "keep-alive")) := by
  obtain ⟨hs, hmem⟩ := set_fresh r.connection.1 r.connection.2 (others_sorted h) (others_fresh r)
  have hconn : r.connection ∈ r.others.set r.connection.1 r.connection.2 := (hmem _).mpr (Or.inl rfl)
  unfold HttpRequest.sentHeaders
  dsimp only
  split
  · exact get_of_mem hs hconn
  · obtain ⟨hs', hmem'⟩ := set_fresh r.contentLength.1 r.contentLength.2 hs h.length_fresh
    exact get_of_mem hs' ((hmem' _).mpr (Or.inr hconn))

/-- `init` on what arrives of a request that keeps the connection. -/
theorem Sendable.arrived_init (h : Sendable r) (hclose : r.close = false) :
    r.arrived.init = { r.arrived with close := false } := by
  have hget := h.get_connection
  rw [if_neg (by simp [hclose])] at hget
  have hheaders : r.arrived.headers = r.sentHeaders := rfl
  unfold HttpRequest.init
  rw [hheaders, hget]
  rfl

/-- What arrives of a request whose URL fits is the request, with the headers that `dump` sets. -/
theorem Sendable.received (h : Sendable r) (hclose : r.close = false) (hfits : r.UrlFits) :
    r.arrived.init = { r with headers := r.sentHeaders } := by
  obtain ⟨hpath, hquery, hfragment⟩ := (arrived_url_iff r).mpr hfits
  have hws := h.websocket
  rw [h.arrived_init hclose]
  cases r with
  | mk method version close websocket path query fragment body headers =>
    simp only [HttpRequest.arrived] at hpath hquery hfragment hclose hws ⊢
    rw [hpath, hquery, hfragment, hclose, hws]
    rfl

/-- The text of a request that keeps the connection encodes what arrives of it. -/
theorem Sendable.encodes (h : Sendable r) (hclose : r.close = false) : Encodes r.dump r.arrived.init := by
  obtain ⟨t, hreads, hend⟩ := h.reads_dump
  obtain ⟨p, hexecute, herror, hfinished, hdata⟩ := execute_ends h.dump_ne_nil hreads hend
  refine ⟨?_, ?_, ?_, fun k hk => execute_unfinished hreads hk, ?_, ?_⟩
  · rw [hexecute]
  · rw [hexecute]
    exact herror
  · rw [hexecute]
    exact hfinished
  · rw [hexecute, hdata]
  · rw [h.arrived_init hclose]

end

/-! ## A connection -/

/-- **The requests that a client writes with `dump` on a connection it keeps are the ones that
`recvRequest` returns**, in order and each with the headers that `dump` sets, when the reads are
aligned with the texts. -/
theorem sent_received {buff_size : Nat} {rs : List HttpRequest} {incoming : List Bytes}
    (hsend : ∀ r ∈ rs, Sendable r ∧ r.close = false ∧ r.UrlFits)
    (halign : Aligned (rs.map HttpRequest.dump) incoming) (hne : ∀ x ∈ incoming, x ≠ [])
    (hfit : ∀ x ∈ incoming, x.length ≤ buff_size) :
    ({ incoming := incoming } : HttpSession).recvRequests buff_size rs.length =
      (rs.map fun r => some { r with headers := r.sentHeaders }, { incoming := [] }) := by
  have henc : List.Forall₂ Encodes (rs.map HttpRequest.dump)
      (rs.map fun r => { r with headers := r.sentHeaders }) := by
    rw [List.forall₂_map_left_iff, List.forall₂_map_right_iff, List.forall₂_same]
    intro r hr
    obtain ⟨h, hclose, hfits⟩ := hsend r hr
    have hencodes := h.encodes hclose
    rwa [h.received hclose hfits] at hencodes
  have hrecv := recvRequests_aligned halign (henc.imp fun _ _ h => h.carries) hne hfit
  rwa [List.length_map, List.map_map] at hrecv

end Sylar.Http
