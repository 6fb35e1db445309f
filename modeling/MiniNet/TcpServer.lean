import MiniNet.TcpServer.Conn
import MiniNet.Lib.Machine
import MiniNet.Lib.Threads
import Mathlib.Data.List.AList

/-!
# The server and its threads

Any number of threads run the base loop, the IO loops and code of the
application.  A thread's stack holds what it still has to do; each frame is
what the source does up to and including the next system call or critical
section of `conns_mtx_`, so that one step of the machine is atomic.  Results of
system calls, the clock and the calls that the application makes inside its
callbacks are inputs.  `accept4` may return any descriptor that is not open.

A connection is the object that the source shares by pointer: `fd`, `id` and
owner loop never change, its mutable parts are looked up by the object.  The
kernel's table says which accepted connection an open descriptor belongs to,
and every byte that is read carries the connection whose socket it came from.
-/

namespace MiniNet

open Bytes Threads

namespace TcpServer

structure Conn (ι : Type) where
  fd : Nat
  id : Nat
  ownerLoop : ι
  deriving DecidableEq

inductive Reason where
  | peerClosed
  | readError
  | writeError
  | active
  | peerClosedOrError
  | idle
  deriving DecidableEq

/-- The calls that are open to the application, from any thread. -/
inductive Api where
  | send (fd : Nat) (data : Bytes)
  | shutdown (fd : Nat)
  deriving DecidableEq

/-- What is sent to another loop with `runInLoop`. -/
inductive Task (ι : Type) where
  | addConnection (conn : Conn ι)
  | appendAndFlush (conn : Conn ι) (data : Bytes)
  | closeConnInLoop (conn : Conn ι) (reason : Reason)
  deriving DecidableEq

/-- What a thread still has to do.  A callback of a channel holds its
connection only weakly; every other frame owns the connections it names. -/
inductive Frame (ι : Type) where
  | accept
  | runInLoop (loop : ι) (task : Task ι)
  | addConnection (conn : Conn ι)
  | insert (conn : Conn ι)
  | connected (conn : Conn ι)
  | callback (which : Channel.Callback) (conn : Conn ι)
  | read (conn : Conn ι)
  | message (conn : Conn ι) (n : Nat)
  | retrieve (conn : Conn ι) (n : Nat)
  | app
  | call (api : Api)
  | appendAndFlush (conn : Conn ι) (data : Bytes)
  | flushWrite (conn : Conn ι)
  | closeConn (conn : Conn ι) (reason : Reason)
  | closeConnInLoop (conn : Conn ι) (reason : Reason)
  | disableAll (conn : Conn ι)
  | disconnected (conn : Conn ι)
  | close (conn : Conn ι)
  | sweepIdle
  | closeExpired (conns : List (Conn ι))
  deriving DecidableEq

variable {ι : Type}

namespace Task

/-- The connections that a queued task keeps alive. -/
def refs : Task ι → List (Conn ι)
  | .addConnection conn => [conn]
  | .appendAndFlush conn _ => [conn]
  | .closeConnInLoop conn _ => [conn]

/-- Running the task. -/
def frame : Task ι → Frame ι
  | .addConnection conn => .addConnection conn
  | .appendAndFlush conn data => .appendAndFlush conn data
  | .closeConnInLoop conn reason => .closeConnInLoop conn reason

end Task

/-- The connections that a frame keeps alive. -/
def Frame.refs : Frame ι → List (Conn ι)
  | .accept | .callback _ _ | .app | .call _ | .sweepIdle => []
  | .runInLoop _ task => task.refs
  | .addConnection conn | .insert conn | .connected conn | .read conn
  | .message conn _ | .retrieve conn _ | .appendAndFlush conn _
  | .flushWrite conn | .closeConn conn _ | .closeConnInLoop conn _
  | .disableAll conn | .disconnected conn | .close conn => [conn]
  | .closeExpired conns => conns

/-- What a step shows to an observer. -/
inductive Event (ι : Type) where
  /-- `accept4` returned a new connection. -/
  | accepted (conn : Conn ι)
  /-- `on_connection_(fd, id, true)`. -/
  | connected (conn : Conn ι)
  /-- `readFd` for `conn` read `data` from the socket accepted as `socket`. -/
  | read (conn socket : Conn ι) (data : Bytes)
  /-- `on_message_(fd, id, data, len)`, with the origin of each byte. -/
  | message (conn : Conn ι) (data : List (Conn ι × UInt8))
  /-- `::send` for `conn` wrote `data` to the socket accepted as `socket`. -/
  | wrote (conn socket : Conn ι) (data : Bytes)
  /-- `closeConnInLoop(conn)` erased `entry` from `conns_`. -/
  | erased (conn entry : Conn ι)
  /-- `on_connection_(fd, id, false)`. -/
  | disconnected (conn : Conn ι)
  /-- `::close(fd)` by `closeConnInLoop(conn)`, and whose socket that was. -/
  | closed (conn : Conn ι) (socket : Option (Conn ι))
  deriving DecidableEq

/-- The memory that the threads share, and the kernel. -/
structure Shared (ι : Type) where
  conns : AList fun _ : Nat => Conn ι := ∅
  nextConnId : Nat := 1
  kernel : Nat → Option (Conn ι) := fun _ => none
  state : Conn ι → ConnState := fun _ => {}
  inBuf : Conn ι → List (Conn ι × UInt8) := fun _ => []
  connCount : Nat := 0
  recvBytes : Nat := 0
  closedIdle : Nat := 0

structure State (ι : Type) where
  shared : Shared ι := {}
  pool : Pool ι (Frame ι) (Task ι) := fun _ => {}

structure Config (ι : Type) where
  baseLoop : ι
  idleTimeoutS : Int := 30

/-- The result of a system call, or the next thing the application does. -/
inductive Input (ι : Type) where
  | none
  | accepted (fd : Nat) (loop : ι)
  | acceptIntr
  | acceptFailed
  | data (bytes : Bytes)
  | endOfStream
  | readAgain
  | readIntr
  | readError
  | send (result : SendResult)
  | call (api : Api)
  | return
  deriving DecidableEq

/-- What one step of a thread does: the shared memory afterwards, the frames
that take the place of the one that ran, and a task for another loop. -/
structure Effect (ι : Type) where
  shared : Shared ι
  next : List (Frame ι) := []
  queued : Option (ι × Task ι) := none
  events : List (Event ι) := []

variable [DecidableEq ι]

namespace Shared

def setState (shared : Shared ι) (conn : Conn ι) (state : ConnState) : Shared ι :=
  { shared with state := Function.update shared.state conn state }

def setInBuf (shared : Shared ι) (conn : Conn ι)
    (bytes : List (Conn ι × UInt8)) : Shared ι :=
  { shared with inBuf := Function.update shared.inBuf conn bytes }

/-- The entries that `sweepIdle` finds expired. -/
def expired (shared : Shared ι) (now limit : Int) : List (Conn ι) :=
  (shared.conns.entries.map (·.2)).filter fun conn =>
    now - (shared.state conn).lastActiveMs ≥ limit

end Shared

/-- Some thread holds the connection: `weak.lock()` succeeds for it even when
it is no longer in `conns_`. -/
def Referenced (s : State ι) (conn : Conn ι) : Prop :=
  ¬All (conn ∉ Frame.refs ·) (conn ∉ Task.refs ·) s.pool

def Alive (s : State ι) (conn : Conn ι) : Prop :=
  s.shared.conns.lookup conn.fd = some conn ∨ Referenced s conn

instance [Fintype ι] (s : State ι) (conn : Conn ι) : Decidable (Alive s conn) :=
  inferInstanceAs (Decidable (_ ∨ ¬All _ _ _))

/-! ## One step of one thread -/

section

variable [Fintype ι]

/-- The callback of a channel, once it holds its connection. -/
def callbackFrame (conn : Conn ι) : Channel.Callback → Frame ι
  | .read => .read conn
  | .write => .flushWrite conn
  | .close => .closeConn conn .peerClosedOrError

def execRead (shared : Shared ι) (conn : Conn ι) (now : Int) :
    Input ι → Option (Effect ι)
  | .data bytes =>
      match shared.kernel conn.fd with
      | some socket =>
          if bytes = [] then none
          else
            let received := shared.inBuf conn ++ bytes.map (socket, ·)
            let shared := (shared.setInBuf conn received).setState conn
              { shared.state conn with lastActiveMs := now }
            some {
              shared := { shared with recvBytes := shared.recvBytes + bytes.length }
              next := [.message conn bytes.length]
              events := [.read conn socket bytes] }
      | none => none
  | .endOfStream =>
      if (shared.kernel conn.fd).isSome then
        some { shared, next := [.closeConnInLoop conn .peerClosed] }
      else none
  | .readAgain =>
      if (shared.kernel conn.fd).isSome then some { shared } else none
  | .readIntr => some { shared, next := [.read conn] }
  | .readError => some { shared, next := [.closeConnInLoop conn .readError] }
  | _ => none

def flushFrames (conn : Conn ι) : Flush → List (Frame ι)
  | .loop => [.flushWrite conn]
  | .return => []
  | .closeConn => [.closeConnInLoop conn .writeError]

/-- `::send` on a descriptor that is not open fails. -/
def execFlush (shared : Shared ι) (conn : Conn ι) (result : Option SendResult) :
    Option (Effect ι) :=
  ((shared.state conn).flushTurn result).bind fun (state, flush) =>
    let later := shared.setState conn state
    let next := flushFrames conn flush
    match result, shared.kernel conn.fd with
    | some (.sent n), some socket =>
        some {
          shared := later
          next
          events := [.wrote conn socket ((shared.state conn).out.take n)] }
    | some (.sent _), none | some .again, none | some .intr, none => none
    | _, _ => some { shared := later, next }

def exec (cfg : Config ι) (s : State ι) (t : ι) (now : Int) :
    Frame ι → Input ι → Option (Effect ι)
  | .accept, .accepted fd loop =>
      if s.shared.kernel fd = none then
        let conn : Conn ι := { fd, id := s.shared.nextConnId, ownerLoop := loop }
        some {
          shared := { s.shared with
            nextConnId := s.shared.nextConnId + 1
            kernel := Function.update s.shared.kernel fd (some conn) }
          next := [.runInLoop loop (.addConnection conn), .accept]
          events := [.accepted conn] }
      else none
  | .accept, .acceptIntr => some { shared := s.shared, next := [.accept] }
  | .accept, .acceptFailed => some { shared := s.shared }
  | .runInLoop loop task, .none =>
      if loop = t then some { shared := s.shared, next := [task.frame] }
      else some { shared := s.shared, queued := some (loop, task) }
  | .addConnection conn, .none =>
      some {
        shared := (s.shared.setState conn (.opened now)).setInBuf conn []
        next := [.insert conn] }
  | .insert conn, .none =>
      some {
        shared := { s.shared with conns := s.shared.conns.insert conn.fd conn }
        next := [.connected conn] }
  | .connected conn, .none =>
      some {
        shared := { s.shared with connCount := s.shared.connCount + 1 }
        next := [.app]
        events := [.connected conn] }
  | .callback which conn, .none =>
      if Alive s conn then some { shared := s.shared, next := [callbackFrame conn which] }
      else some { shared := s.shared }
  | .read conn, input => execRead s.shared conn now input
  | .message conn n, .none =>
      some {
        shared := s.shared
        next := [.app, .retrieve conn n]
        events := [.message conn ((s.shared.inBuf conn).take n)] }
  | .retrieve conn n, .none =>
      some {
        shared := s.shared.setInBuf conn ((s.shared.inBuf conn).drop n)
        next := [.read conn] }
  | .app, .call api => some { shared := s.shared, next := [.call api, .app] }
  | .app, .return => some { shared := s.shared }
  | .call (.send fd data), .none =>
      match s.shared.conns.lookup fd with
      | none => some { shared := s.shared }
      | some conn =>
          some {
            shared := s.shared
            next := [.runInLoop conn.ownerLoop (.appendAndFlush conn data)] }
  | .call (.shutdown fd), .none =>
      match s.shared.conns.lookup fd with
      | none => some { shared := s.shared }
      | some conn =>
          some {
            shared := s.shared
            next := [.runInLoop conn.ownerLoop (.closeConnInLoop conn .active)] }
  | .appendAndFlush conn data, .none =>
      let state := (s.shared.state conn).append data now
      some {
        shared := s.shared.setState conn state
        next := if state.writing then [] else [.flushWrite conn] }
  | .flushWrite conn, .none => execFlush s.shared conn none
  | .flushWrite conn, .send result => execFlush s.shared conn (some result)
  | .closeConn conn reason, .none =>
      if conn.ownerLoop = t then
        some { shared := s.shared, next := [.closeConnInLoop conn reason] }
      else
        some {
          shared := s.shared
          next := [.runInLoop conn.ownerLoop (.closeConnInLoop conn reason)] }
  | .closeConnInLoop conn _, .none =>
      match s.shared.conns.lookup conn.fd with
      | none => some { shared := s.shared }
      | some entry =>
          some {
            shared := { s.shared with conns := s.shared.conns.erase conn.fd }
            next := [.disableAll conn]
            events := [.erased conn entry] }
  | .disableAll conn, .none =>
      let state := s.shared.state conn
      some {
        shared := s.shared.setState conn { state with channel := state.channel.disableAll }
        next := [.disconnected conn] }
  | .disconnected conn, .none =>
      some {
        shared := s.shared
        next := [.app, .close conn]
        events := [.disconnected conn] }
  | .close conn, .none =>
      some {
        shared := { s.shared with
          kernel := Function.update s.shared.kernel conn.fd none }
        events := [.closed conn (s.shared.kernel conn.fd)] }
  | .sweepIdle, .none =>
      if cfg.idleTimeoutS ≤ 0 then some { shared := s.shared }
      else
        some {
          shared := s.shared
          next := [.closeExpired (s.shared.expired now (cfg.idleTimeoutS * 1000))] }
  | .closeExpired [], .none => some { shared := s.shared }
  | .closeExpired (conn :: conns), .none =>
      some {
        shared := { s.shared with closedIdle := s.shared.closedIdle + 1 }
        next := [.closeConn conn .idle, .closeExpired conns] }
  | _, _ => none

/-! ## The machine -/

/-- A thread goes on with its top frame, or, when it has none, starts
something new: the base loop accepts and sweeps, a loop runs a queued task or
an event of one of its channels, and code of the application runs anywhere. -/
inductive Action (ι : Type) where
  | run (thread : ι) (now : Int) (input : Input ι)
  | handleAccept
  | sweepIdle
  | doPendingFunctor (thread : ι)
  | handleEvent (conn : Conn ι) (revents : UInt32)
  | app (thread : ι)
  deriving DecidableEq

def apply (t : ι) (rest : Pool ι (Frame ι) (Task ι)) (effect : Effect ι) : State ι :=
  let pool := push t effect.next rest
  match effect.queued with
  | none => { shared := effect.shared, pool }
  | some (loop, task) => { shared := effect.shared, pool := enqueue loop task pool }

/-- An idle thread starts with these frames. -/
def begin (s : State ι) (t : ι) (frames : List (Frame ι)) :
    Option (State ι × List (Event ι)) :=
  if (s.pool t).frames = [] then some ({ s with pool := push t frames s.pool }, [])
  else none

def step (cfg : Config ι) (s : State ι) :
    Action ι → Option (State ι × List (Event ι))
  | .run t now input =>
      (pop t s.pool).bind fun (frame, rest) =>
        (exec cfg s t now frame input).map fun effect =>
          (apply t rest effect, effect.events)
  | .handleAccept => begin s cfg.baseLoop [.accept]
  | .sweepIdle => begin s cfg.baseLoop [.sweepIdle]
  | .doPendingFunctor t =>
      if (s.pool t).frames = [] then
        (poll t s.pool).map fun (task, rest) =>
          ({ s with pool := push t [task.frame] rest }, [])
      else none
  | .handleEvent conn revents =>
      if Alive s conn then
        begin s conn.ownerLoop
          ((Channel.handleEvent revents).map fun which => .callback which conn)
      else none
  | .app t => begin s t [.app]

end

end TcpServer

end MiniNet
