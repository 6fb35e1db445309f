import MiniNet.HttpServer.Segmentation
import MiniNet.HttpParser.Rendering

/-!
# Pipelined requests

A client may send several requests at once.  `onMessage` hands each of them
to the handler before it looks at the next one, and stops early when the
request or the response asks for the connection to be closed.
`onMessage_rendered_iff` says when all requests of a chunk reach the handler.
-/

namespace MiniNet

open Bytes

namespace HttpServer

/-- The request of a call of the handler. -/
def Call.request? : Call → Option HttpRequest
  | .handler req => some req
  | _ => none

/-- The requests the handler has been called with, in order. -/
def handled (calls : List Call) : List HttpRequest := calls.filterMap Call.request?

section

variable {σ : Type}

/-- The responses of a handler to these requests, one after the other. -/
def answers (handle : Handler σ) : σ → List HttpRequest → List HttpResponse
  | _, [] => []
  | state, req :: reqs =>
      let answered := handle state req { keepAlive := req.keepAlive }
      answered.2 :: answers handle answered.1 reqs

/-- A connection between two requests, with nothing left to read. -/
structure Idle (session : Session σ) : Prop where
  open_ : session.shut = false
  fresh : session.conn.parser = {}
  drained : session.conn.inBuf.readable = []

theorem idle_new (state : σ) : Idle ({ state } : Session σ) :=
  ⟨rfl, rfl, by simp⟩

theorem handled_append (first second : List Call) :
    handled (first ++ second) = handled first ++ handled second :=
  List.filterMap_append

/-! ## One turn of the loop -/

variable {handler : Option (Handler σ)}

theorem serve_of_needMore {state : σ} {conn : HttpConn} {q : HttpParser} {rest : Buffer}
    (waiting : HttpParser.parse conn.parser conn.inBuf = (.needMore, q, rest)) :
    serve handler state conn =
      { calls := [], state, conn := { inBuf := rest, parser := q }, shut := false } := by
  have taken : turn handler state conn = .needMore { inBuf := rest, parser := q } := by
    rw [turn, waiting]
  rw [serve, taken]

theorem serve_of_complete {state later : σ} {conn : HttpConn} {q : HttpParser}
    {rest : Buffer} {resp : HttpResponse}
    (finished : HttpParser.parse conn.parser conn.inBuf = (.complete, q, rest))
    (answered : respond handler state q.req = (later, resp)) :
    serve handler state conn =
      if !q.req.keepAlive || !resp.keepAlive then
        { calls := [Call.handler q.req, .send resp.serialize] ++ [Call.shutdown]
          state := later
          conn := { inBuf := rest, parser := q }
          shut := true }
      else
        let tail := serve handler later { inBuf := rest, parser := {} }
        { tail with calls := [Call.handler q.req, .send resp.serialize] ++ tail.calls } := by
  have taken : turn handler state conn =
      .respond { inBuf := rest, parser := q } later resp := by
    rw [turn, finished]
    simp only [answered]
  rw [serve, taken]
  rfl

/-- Nothing to read on a connection between two requests. -/
theorem parse_nothing {buf : Buffer} (drained : buf.readable = []) :
    HttpParser.parse {} buf = (.needMore, {}, buf) := by
  have nothing : buf.readableBytes = 0 := by
    rw [← Buffer.length_readable, drained]
    rfl
  have absent : buf.findEOL = none := by
    rcases buf.findEOL_cases with ⟨absent, _⟩ | ⟨_, _, _, _, cut, _⟩
    · exact absent
    · rw [drained] at cut
      cases cut
  rw [HttpParser.parse, HttpParser.parseLoop_requestLine _ _ _ _ rfl,
    HttpParser.parseRequestLine, absent]
  simp [nothing, HttpParser.kMaxHeaderBytes, HttpParser.andThen]

/-! ## A chunk of requests -/

private theorem forall_mem_dropLast_cons {α : Type} {p : α → Prop} {first : α}
    {rest : List α} :
    (∀ a ∈ (first :: rest).dropLast, p a) ↔
      (rest ≠ [] → p first) ∧ ∀ a ∈ rest.dropLast, p a := by
  cases rest with
  | nil => simp
  | cons second rest => simp

theorem answers_cons {handle : Handler σ} {state later : σ} {req : HttpRequest}
    {resp : HttpResponse} (reqs : List HttpRequest)
    (answered : respond (some handle) state req = (later, resp)) :
    answers handle state (req :: reqs) = resp :: answers handle later reqs := by
  have called : handle state req { keepAlive := req.keepAlive } = (later, resp) := answered
  rw [answers, called]

theorem answers_eq_nil {handle : Handler σ} {state : σ} {reqs : List HttpRequest} :
    answers handle state reqs = [] ↔ reqs = [] := by
  cases reqs with
  | nil => simp [answers]
  | cons req reqs => simp [answers]

/-- The loop on the rendering of a list of requests. -/
theorem serve_rendered {handle : Handler σ} {requests : List HttpParser.ClientRequest}
    {state : σ} {conn : HttpConn} (fresh : conn.parser = {})
    (queue : conn.inBuf.readable = requests.flatMap (·.render))
    (persistent : ∀ r ∈ requests.dropLast, r.keepAlive = true) :
    (handled (serve (some handle) state conn).calls = requests.map (·.request) ∧
        (serve (some handle) state conn).conn.inBuf.readable = []) ↔
      ∀ resp ∈ (answers handle state (requests.map (·.request))).dropLast,
        resp.keepAlive = true := by
  induction requests generalizing state conn with
  | nil =>
      have waiting := parse_nothing queue
      rw [← fresh] at waiting
      rw [serve_of_needMore waiting]
      simpa [handled, answers] using queue
  | cons r requests ih =>
      rw [List.flatMap_cons] at queue
      obtain ⟨q, rest, finished, left, req⟩ := r.complete queue
      rw [← fresh] at finished
      rcases answered : respond (some handle) state r.request with ⟨later, resp⟩
      obtain ⟨first, others⟩ := forall_mem_dropLast_cons.mp persistent
      rw [List.map_cons, answers_cons _ answered, forall_mem_dropLast_cons, ne_eq,
        answers_eq_nil, List.map_eq_nil_iff]
      rw [← req] at answered
      rw [serve_of_complete finished answered, req]
      have call : handled [.handler r.request, .send resp.serialize] = [r.request] := rfl
      have last : handled [.shutdown] = [] := rfl
      by_cases closing : (!r.request.keepAlive || !resp.keepAlive) = true
      · -- the loop ends here, so there must be no other request
        simp only [if_pos closing, handled_append, left, call, last, List.append_nil,
          List.cons.injEq, true_and]
        by_cases single : requests = []
        · subst single
          simp [answers]
        · have open_ : r.request.keepAlive = true := first single
          have cleared : resp.keepAlive = false := by simpa [open_] using closing
          refine iff_of_false ?_ ?_
          · rintro ⟨same, _⟩
            exact single (List.map_eq_nil_iff.mp same.symm)
          · rintro ⟨kept, _⟩
            rw [cleared] at kept
            cases kept single
      · have open_ : resp.keepAlive = true := by
          simp only [Bool.or_eq_true, not_or, Bool.not_eq_true, Bool.not_eq_false'] at closing
          exact closing.2
        have tail := @ih later { inBuf := rest, parser := {} } rfl left others
        simp only [if_neg closing, handled_append, call, List.singleton_append,
          List.cons.injEq, true_and, tail]
        simp only [open_, implies_true, true_and]

/-- Every request of a chunk reaches the handler, in order and as it was meant,
and all of the chunk is read, exactly when the handler keeps the connection
open in its responses to all but the last of them. -/
theorem onMessage_rendered_iff {handle : Handler σ} {session : Session σ}
    {requests : List HttpParser.ClientRequest} (idle : Idle session)
    (persistent : ∀ r ∈ requests.dropLast, r.keepAlive = true) :
    let after := onMessage (some handle) session (requests.flatMap (·.render))
    (handled after.calls = handled session.calls ++ requests.map (·.request) ∧
        after.conn.inBuf.readable = []) ↔
      ∀ resp ∈ (answers handle session.state (requests.map (·.request))).dropLast,
        resp.keepAlive = true := by
  have arrived : (session.conn.inBuf.append (requests.flatMap (·.render))).readable =
      requests.flatMap (·.render) := by
    rw [Buffer.readable_append, idle.drained, List.nil_append]
  have served := @serve_rendered σ handle requests session.state
    { session.conn with inBuf := session.conn.inBuf.append (requests.flatMap (·.render)) }
    idle.fresh arrived persistent
  simp only [onMessage, idle.open_, Bool.false_eq_true, if_false, handled_append,
    List.append_cancel_left_eq]
  exact served

end

private def getLink : HttpParser.ClientRequest where
  method := lit "GET"
  target := lit "/a?b=c"
  version := lit "HTTP/1.1"
  headers := [(lit "Host", lit "localhost")]
  body := []
  method_word := by decide
  target_word := by decide
  version_known := by decide
  headers_plain := by decide
  no_coding := by decide
  one_length := fun some_octet => absurd rfl some_octet
  no_length := fun _ => by decide
  section_fits := by decide
  body_fits := by decide

/-- Its body looks like another request. -/
private def postGet : HttpParser.ClientRequest where
  method := lit "POST"
  target := lit "/"
  version := lit "HTTP/1.0"
  headers := [(lit "CONTENT-length", lit "016"), (lit "Connection", lit "close")]
  body := lit "GET / HTTP/1.1\r\n"
  method_word := by decide
  target_word := by decide
  version_known := by decide
  headers_plain := by decide
  no_coding := by decide
  one_length := fun _ => ⟨lit "016", by decide, by decide⟩
  no_length := fun nothing => absurd nothing (by decide)
  section_fits := by decide
  body_fits := by decide

private def echo : Handler Unit := fun state req resp => (state, { resp with body := req.body })

theorem onMessage_rendered_echo :
    let after := onMessage (some echo) { state := () }
      ([getLink, getLink, postGet].flatMap (·.render))
    handled after.calls = [getLink.request, getLink.request, postGet.request] ∧
      after.conn.inBuf.readable = [] :=
  (onMessage_rendered_iff (idle_new ()) (by decide)).mpr (by decide)

private def hangUp : Handler Unit := fun state _ resp => (state, { resp with keepAlive := false })

/-- A handler may close the connection; the next request of the chunk is then
left unread. -/
theorem onMessage_hangUp :
    let after := onMessage (some hangUp) { state := () }
      ([getLink, getLink].flatMap (·.render))
    (∀ r ∈ [getLink, getLink].dropLast, r.keepAlive = true) ∧
      handled after.calls ≠ [getLink, getLink].map (·.request) ∧
      after.conn.inBuf.readable = getLink.render := by
  have arrived : ((Buffer.create 1024).append
      ([getLink, getLink].flatMap (·.render))).readable =
      getLink.render ++ getLink.render := by
    simp
  obtain ⟨q, rest, finished, left, req⟩ := getLink.complete arrived
  have answered : respond (some hangUp) () q.req = ((), { keepAlive := false }) := rfl
  have served := @serve_of_complete Unit _ _ _
    { inBuf := (Buffer.create 1024).append _, parser := {} } _ _ _ finished answered
  simp only [Bool.not_false, Bool.or_true, if_true] at served
  refine ⟨by decide, ?_⟩
  simp only [onMessage, Bool.false_eq_true, if_false, List.nil_append, served]
  refine ⟨?_, left⟩
  intro both
  cases congrArg List.length both

end HttpServer

end MiniNet
