import MiniNet.HttpServer
import MiniNet.TcpServer.WritePath
import Mathlib.Data.List.AList

/-!
# The HTTP server on one IO loop

`HttpServer` as the callbacks of `TcpServer`, on one of the IO loops.  A
callback runs to its end before the next one starts, and each of its steps is
what the source does up to the next `::send`, whose result is an input.  In
particular `onMessage` holds on to a pointer into the shard tables while it
sends, and sending may close the connection, which takes it out of them.

Other loops serve other connections.  All that they share with this one is the
application, whose state they may change at any time, and the supply of
connection ids.  `TcpServer` is entered through the descriptor; that it stands
for the right connection is the subject of `TcpServer.Identity`.
-/

namespace MiniNet

open Bytes TcpServer

namespace HttpServer

namespace Loop

/-- An entry of `conns_`, and what has been written to it. -/
structure Entry where
  id : Nat
  path : WritePath.State
  /-- All that was passed to `TcpServer::send`. -/
  given : Bytes := []
  /-- The result of the last `::send`. -/
  lastSend : Option SendResult := none

/-- An entry of the shard tables.  Objects are numbered as they are made. -/
structure Slot where
  object : Nat
  conn : HttpConn

/-- A call of `onMessage`, with the pointer that it has from `findOrCreate`. -/
structure Activation where
  fd : Nat
  id : Nat
  object : Nat
  deriving DecidableEq

/-- Who waits for `flushWrite` to return. -/
inductive Caller where
  | onMessage (call : Activation) (resp : HttpResponse)
  | handleError (fd : Nat)
  | handleEvent (fd : Nat)

/-- What the loop does next. -/
inductive Control where
  | poll
  | parse (call : Activation)
  | send (data : Bytes) (caller : Caller)
  | flushWrite (caller : Caller)
  | keepAlive (call : Activation) (resp : HttpResponse)
  | shutdown (fd : Nat)
  /-- A freed object has been used. -/
  | undefined

namespace Caller

/-- The descriptor that is written to. -/
def fd : Caller → Nat
  | .onMessage call _ => call.fd
  | .handleError fd | .handleEvent fd => fd

def resume : Caller → Control
  | .onMessage call resp => .keepAlive call resp
  | .handleError fd => .shutdown fd
  | .handleEvent _ => .poll

end Caller

inductive Event where
  /-- `onMessage` used what its pointer points to; was it still there? -/
  | access (call : Activation) (held : Bool)
  /-- `HttpServer` closed a connection: what it had passed to `send`, and what
  the kernel had accepted. -/
  | shutdown (id : Nat) (given accepted : Bytes)
  deriving DecidableEq

structure State (σ : Type) where
  app : σ
  conns : AList fun _ : Nat => Entry := ∅
  shards : AList fun _ : Nat => Slot := ∅
  nextConnId : Nat := 1
  nextObject : Nat := 0
  requests : Nat := 0
  errors : Nat := 0
  control : Control := .poll

/-- The events of the loop, one more step of the callback that runs, and what
other loops do. -/
inductive Action (σ : Type) where
  | connected (fd id : Nat) (now : Int)
  | message (fd : Nat) (data : Bytes)
  | writable (fd : Nat)
  | close (fd : Nat)
  | run (result : Option SendResult) (now : Int)
  | elsewhere (app : σ)

namespace State

variable {σ : Type}

def findOrCreate (s : State σ) (id : Nat) : State σ × Nat :=
  match s.shards.lookup id with
  | some slot => (s, slot.object)
  | none =>
      ({ s with
        shards := s.shards.insert id { object := s.nextObject, conn := {} }
        nextObject := s.nextObject + 1 }, s.nextObject)

def drop (s : State σ) (id : Nat) : State σ :=
  { s with shards := s.shards.erase id }

/-- What the pointer of `onMessage` points to, if that is still there. -/
def access (s : State σ) (call : Activation) : Option HttpConn :=
  match s.shards.lookup call.id with
  | some slot => if slot.object = call.object then some slot.conn else none
  | none => none

def store (s : State σ) (call : Activation) (conn : HttpConn) : State σ :=
  { s with shards := s.shards.insert call.id { object := call.object, conn } }

/-- Go on with what the pointer points to. -/
def touch (s : State σ) (call : Activation) (next : HttpConn → State σ) :
    State σ × List Event :=
  match s.access call with
  | some conn => (next conn, [.access call true])
  | none => ({ s with control := .undefined }, [.access call false])

/-- `closeConnInLoop`, whose call of `onConnection` drops the parser state. -/
def closeConnInLoop (s : State σ) (fd : Nat) (entry : Entry) : State σ :=
  { s with conns := s.conns.erase fd }.drop entry.id

/-- Within `flushWrite` or on return from it. -/
def goOn (s : State σ) (caller : Caller) (entry : Entry) : State σ :=
  { s with
    conns := s.conns.insert caller.fd entry
    control := if entry.path.flushing then .flushWrite caller else caller.resume }

end State

section

variable {σ : Type} (handler : Option (Handler σ))

/-- One turn of the loop of `onMessage`, up to the call of `send`. -/
def parseStep (s : State σ) (call : Activation) (conn : HttpConn) : State σ :=
  match turn handler s.app conn with
  | .needMore conn => { s.store call conn with control := .poll }
  | .error conn err =>
      { s.store call conn with
        errors := s.errors + 1
        control := .send (errorResponse err).serialize (.handleError call.fd) }
  | .respond conn app resp =>
      { s.store call conn with
        app
        requests := s.requests + 1
        control := .send resp.serialize (.onMessage call resp) }

/-- `TcpServer::send`; the loop is that of the connection. -/
def sendStep (s : State σ) (data : Bytes) (caller : Caller) (now : Int) :
    Option (State σ) :=
  match s.conns.lookup caller.fd with
  | none => some { s with control := caller.resume }
  | some entry =>
      (WritePath.step entry.path (.appendAndFlush data now)).map fun (path, _) =>
        s.goOn caller { entry with path, given := entry.given ++ data }

/-- One turn of the loop of `flushWrite`. -/
def flushStep (s : State σ) (caller : Caller) (result : Option SendResult) :
    Option (State σ) :=
  (s.conns.lookup caller.fd).bind fun entry =>
    if result = some .error then
      if entry.path.conn.out = [] then none
      else some { s.closeConnInLoop caller.fd entry with control := caller.resume }
    else
      (WritePath.step entry.path (.flush result)).map fun (path, _) =>
        s.goOn caller { entry with path, lastSend := result <|> entry.lastSend }

/-- After `send`: the test of `keep_alive`, and `parser.reset()`. -/
def keepAliveStep (s : State σ) (call : Activation) (resp : HttpResponse)
    (conn : HttpConn) : State σ :=
  if !conn.parser.req.keepAlive || !resp.keepAlive then
    { s with control := .shutdown call.fd }
  else
    { s.store call { conn with parser := conn.parser.reset } with
      control := .parse call }

def shutdownStep (s : State σ) (fd : Nat) : State σ × List Event :=
  match s.conns.lookup fd with
  | none => ({ s with control := .poll }, [])
  | some entry =>
      ({ s.closeConnInLoop fd entry with control := .poll },
        [.shutdown entry.id entry.given entry.path.accepted])

def step (s : State σ) (action : Action σ) : Option (State σ × List Event) :=
  match s.control, action with
  | _, .elsewhere app => some ({ s with app }, [])
  | .poll, .connected fd id now =>
      if s.conns.lookup fd = none ∧ s.nextConnId ≤ id then
        let s := { s with
          conns := s.conns.insert fd { id, path := WritePath.start now }
          nextConnId := id + 1 }
        some (s.drop id, [])
      else none
  | .poll, .message fd data =>
      (s.conns.lookup fd).map fun entry =>
        let (s, object) := s.findOrCreate entry.id
        let call : Activation := { fd, id := entry.id, object }
        s.touch call fun conn =>
          { s.store call { conn with inBuf := conn.inBuf.append data } with
            control := .parse call }
  | .poll, .writable fd =>
      (s.conns.lookup fd).bind fun entry =>
        (WritePath.step entry.path .writable).map fun (path, _) =>
          (s.goOn (.handleEvent fd) { entry with path }, [])
  | .poll, .close fd =>
      (s.conns.lookup fd).map fun entry => (s.closeConnInLoop fd entry, [])
  | .parse call, .run none _ => some (s.touch call (parseStep handler s call))
  | .send data caller, .run none now =>
      (sendStep s data caller now).map fun s => (s, [])
  | .flushWrite caller, .run result _ =>
      (flushStep s caller result).map fun s => (s, [])
  | .keepAlive call resp, .run none _ => some (s.touch call (keepAliveStep s call resp))
  | .shutdown fd, .run none _ => some (shutdownStep s fd)
  | _, _ => none

/-- Everything that the steps of a run have shown. -/
def events (trace : List (Action σ × List Event)) : List Event :=
  trace.flatMap Prod.snd

end

end Loop

end HttpServer

end MiniNet
