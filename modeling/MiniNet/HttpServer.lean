import MiniNet.HttpParser.Stream

/-!
# The HTTP server on one connection

`HttpServer::onMessage` appends a chunk to the connection's buffer and then
alternates between parsing and answering until the parser asks for more bytes
or the connection is shut down.  The calls it makes on its surroundings (the
handler, `TcpServer::send`, `TcpServer::shutdown`) are recorded in order; what
the transport does with them is the subject of the `TcpServer` modules.

A handler may keep a state of its own, so that it can be any application.
-/

namespace MiniNet

open Bytes

namespace HttpServer

structure HttpConn where
  inBuf : Buffer := Buffer.create 1024
  parser : HttpParser := {}
  deriving DecidableEq

/-- `HttpServer::Handler`: it reads the request and fills in the response. -/
abbrev Handler (σ : Type) := σ → HttpRequest → HttpResponse → σ × HttpResponse

/-- A call made by `onMessage`.  `error` is the call of `handleError`, whose
own `send` and `shutdown` follow it. -/
inductive Call where
  | handler (req : HttpRequest)
  | error (err : HttpParser.Error)
  | send (data : Bytes)
  | shutdown
  deriving DecidableEq

def jsonError (code detail : Bytes) : Bytes :=
  lit "\x7b\"error\":\"" ++ code ++ lit "\",\"detail\":\"" ++ detail ++ lit "\"\x7d"

/-- The response `handleError` sends before it closes the connection. -/
def errorResponse (err : HttpParser.Error) : HttpResponse :=
  let resp : HttpResponse := { status := err.status, keepAlive := false }
  resp.setJson (jsonError err.code err.detail)

section

variable {σ : Type} (handler : Option (Handler σ))

/-- Run the handler on a complete request, or answer 404 without one. -/
def respond (state : σ) (req : HttpRequest) : σ × HttpResponse :=
  let resp : HttpResponse := { keepAlive := req.keepAlive }
  match handler with
  | some handle => handle state req resp
  | none =>
      let resp := { resp with status := 404 }
      (state, resp.setJson (jsonError (lit "not_found") (lit "没有设置 handler")))

/-- One turn of the loop of `onMessage`, up to the point where it sends. -/
inductive Turn (σ : Type) where
  | needMore (conn : HttpConn)
  | error (conn : HttpConn) (err : HttpParser.Error)
  | respond (conn : HttpConn) (state : σ) (resp : HttpResponse)

def turn (state : σ) (conn : HttpConn) : Turn σ :=
  match HttpParser.parse conn.parser conn.inBuf with
  | (.needMore, parser, inBuf) => .needMore { inBuf, parser }
  | (.error err, parser, inBuf) => .error { inBuf, parser } err
  | (.complete, parser, inBuf) =>
      let (state, resp) := respond handler state parser.req
      .respond { inBuf, parser } state resp

/-- What a call of `onMessage` has done when it returns. -/
structure Served (σ : Type) where
  calls : List Call
  state : σ
  conn : HttpConn
  shut : Bool

/-- An upper bound on the turns of the loop. -/
def turnsLeft (conn : HttpConn) : Nat :=
  2 * conn.inBuf.readableBytes +
    (1 - HttpParser.Stream.State.readsLine conn.parser.state)

theorem turnsLeft_turn {state later : σ} {conn rest : HttpConn}
    {resp : HttpResponse}
    (answered : turn handler state conn = .respond rest later resp) :
    turnsLeft { rest with parser := rest.parser.reset } < turnsLeft conn := by
  unfold turn at answered
  split at answered
  · cases answered
  · cases answered
  · rename_i parser inBuf finished
    cases answered
    have shorter := HttpParser.readableBytes_parse finished
    have atMost : HttpParser.Stream.State.readsLine conn.parser.state ≤ 1 := by
      cases conn.parser.state <;> decide
    have fresh : HttpParser.Stream.State.readsLine parser.reset.state = 1 := rfl
    simp only [turnsLeft, fresh]
    omega

/-- The loop of `onMessage`. -/
def serve (state : σ) (conn : HttpConn) : Served σ :=
  match _taken : turn handler state conn with
  | .needMore conn => { calls := [], state, conn, shut := false }
  | .error conn err =>
      { calls := [.error err, .send (errorResponse err).serialize, .shutdown]
        state
        conn
        shut := true }
  | .respond conn state resp =>
      let calls := [.handler conn.parser.req, .send resp.serialize]
      if !conn.parser.req.keepAlive || !resp.keepAlive then
        { calls := calls ++ [.shutdown], state, conn, shut := true }
      else
        let rest := serve state { conn with parser := conn.parser.reset }
        { rest with calls := calls ++ rest.calls }
termination_by turnsLeft conn
decreasing_by exact turnsLeft_turn handler ‹_›

/-- The history of one connection as seen from `HttpServer`. -/
structure Session (σ : Type) where
  state : σ
  conn : HttpConn := {}
  calls : List Call := []
  shut : Bool := false

/-- A chunk arrives.  Nothing is delivered once the connection is shut. -/
def onMessage (session : Session σ) (data : Bytes) : Session σ :=
  if session.shut then session
  else
    let served := serve handler session.state
      { session.conn with inBuf := session.conn.inBuf.append data }
    { state := served.state
      conn := served.conn
      calls := session.calls ++ served.calls
      shut := served.shut }

/-- A new connection receives these chunks. -/
def receive (state : σ) (chunks : List Bytes) : Session σ :=
  chunks.foldl (onMessage handler) { state }

end

/-- The call is the report of a 431. -/
def Call.tooLarge : Call → Bool
  | .error err => err.status == 431
  | _ => false

/-- No call reported a 431. -/
def Fits (calls : List Call) : Prop := ∀ call ∈ calls, call.tooLarge = false

instance (calls : List Call) : Decidable (Fits calls) :=
  inferInstanceAs (Decidable (∀ call ∈ calls, call.tooLarge = false))

end HttpServer

end MiniNet
