import MiniNet.TcpServer.Placement

/-!
# The destruction of the server

The members of an `HttpServer` are destroyed in the reverse order of their
declaration: first `shards_`, then `handler_`, and only then `server_`, whose
destructor stops the IO threads one after the other and clears `conns_`.  The
IO threads go on until they are stopped.  A loop lives on the stack of its
thread and ends with it; the base loop belongs to the caller and outlives the
server.  A connection ends when neither `conns_` nor a thread holds it any
more, and its channel is then taken out of the poller of its loop.

What the poller answers when a channel is registered or removed is an input.
-/

namespace MiniNet

open Bytes Threads TcpServer

namespace HttpServer

variable {ι : Type}

/-- The loops of a started server: the thread that destroys it runs the base
loop, the other loops run on threads of the pool. -/
structure Plant (ι : Type) extends Config ι where
  ioLoops : List ι
  separate : baseLoop ∉ ioLoops

/-- What `EventLoopThreadPool::nextLoop` may return. -/
def Plant.nextLoops (plant : Plant ι) : List ι :=
  if plant.ioLoops = [] then [plant.baseLoop] else plant.ioLoops

/-- The loop that a new connection is given to. -/
def acceptor? : Input ι → Option ι
  | .accepted _ loop => some loop
  | _ => none

/-- How far the destructor has come. -/
inductive Stage (ι : Type) where
  | serving
  | shardsGone
  /-- `EventLoopThreadPool::stop` has these threads left to stop. -/
  | stopping (threads : List ι)
  | cleared
  deriving DecidableEq

namespace Stage

/-- `shards_` exists. -/
def shards : Stage ι → Bool
  | .serving => true
  | _ => false

/-- `handler_` exists. -/
def handler : Stage ι → Bool
  | .serving | .shardsGone => true
  | _ => false

end Stage

structure Teardown (ι : Type) where
  server : State ι := {}
  /-- `in_poller_` of the channel of each connection. -/
  inPoller : Conn ι → Bool := fun _ => false
  stage : Stage ι := .serving
  /-- The loops that exist. -/
  loops : ι → Bool := fun _ => true
  /-- The loops that have been told to quit. -/
  quit : ι → Bool := fun _ => false

inductive TeardownAction (ι : Type) where
  /-- A step of the server, and what the poller answers in it. -/
  | server (action : Action ι) (answer : Bool)
  | destroyShards
  | destroyHandler
  /-- `loop_->quit()` for the next thread of the pool. -/
  | quit
  /-- `threadFunc` returns, and with it goes the loop. -/
  | exit (thread : ι)
  /-- `thread_.join()` for the next thread of the pool. -/
  | join
  /-- The descriptors of `conns_` are closed and the table is cleared. -/
  | clear
  deriving DecidableEq

/-- The frame runs `onMessage` or `onConnection`. -/
def InCallback : Frame ι → Prop
  | .connected _ | .message _ _ | .disconnected _ | .app | .call _ => True
  | _ => False

namespace Teardown

variable [DecidableEq ι]

/-- IO threads run as long as their loops exist, the others until the
destruction begins. -/
def Runs (plant : Plant ι) (s : Teardown ι) (t : ι) : Prop :=
  if t ∈ plant.ioLoops then s.loops t = true else s.stage = .serving

instance (plant : Plant ι) (s : Teardown ι) (t : ι) : Decidable (s.Runs plant t) :=
  inferInstanceAs (Decidable (ite _ _ _))

/-- The steps of the server that may be taken.  On the IO threads code of the
application runs inside of callbacks only. -/
def Takes (plant : Plant ι) (s : Teardown ι) : Action ι → Prop
  | .run t _ input => s.Runs plant t ∧ ∀ loop ∈ acceptor? input, loop ∈ plant.nextLoops
  | .doPendingFunctor t => s.Runs plant t
  | .handleEvent conn _ => s.Runs plant conn.ownerLoop
  | .handleAccept | .sweepIdle => s.Runs plant plant.baseLoop
  | .app t => t ∉ plant.ioLoops ∧ s.Runs plant t

instance (plant : Plant ι) (s : Teardown ι) : ∀ a, Decidable (s.Takes plant a)
  | .run _ _ _ | .app _ => inferInstanceAs (Decidable (_ ∧ _))
  | .doPendingFunctor _ | .handleEvent _ _ | .handleAccept | .sweepIdle =>
      inferInstanceAs (Decidable (s.Runs plant _))

/-- `in_poller_` after a step of the thread `t` to `m`: `epoll_ctl` may succeed
for an open descriptor when the channel is updated, and `removeChannel` may
find the descriptor. -/
def register (s : Teardown ι) (m : State ι) (t : ι) (answer : Bool) : Conn ι → Bool :=
  match (s.server.pool t).frames.head? with
  | some (.addConnection conn) =>
      Function.update s.inPoller conn
        (answer && (s.server.shared.kernel conn.fd).isSome)
  | some (.flushWrite conn) =>
      if (m.shared.state conn).writing = (s.server.shared.state conn).writing then
        s.inPoller
      else
        Function.update s.inPoller conn
          (s.inPoller conn || (answer && (s.server.shared.kernel conn.fd).isSome))
  | some (.disableAll conn) =>
      Function.update s.inPoller conn (s.inPoller conn && !answer)
  | _ => s.inPoller

/-- Close the descriptors of all entries, then drop the entries. -/
def clearConns (shared : Shared ι) : Shared ι :=
  { shared with
    conns := ∅
    kernel := fun fd => if fd ∈ shared.conns then none else shared.kernel fd }

variable [Fintype ι]

def registerIn (s : Teardown ι) (m : State ι) (answer : Bool) : Action ι → Conn ι → Bool
  | .run t _ _ => s.register m t answer
  | _ => s.inPoller

def step (plant : Plant ι) (s : Teardown ι) :
    TeardownAction ι → Option (Teardown ι × List (Event ι))
  | .server action answer =>
      if s.Takes plant action then
        (TcpServer.step plant.toConfig s.server action).map fun (server, events) =>
          ({ s with server, inPoller := s.registerIn server answer action }, events)
      else none
  | .destroyShards =>
      if s.stage = .serving ∧ ∀ t, t ∉ plant.ioLoops → (s.server.pool t).frames = [] then
        some ({ s with stage := .shardsGone }, [])
      else none
  | .destroyHandler =>
      if s.stage = .shardsGone then
        some ({ s with stage := .stopping plant.ioLoops }, [])
      else none
  | .quit =>
      match s.stage with
      | .stopping (t :: _) => some ({ s with quit := Function.update s.quit t true }, [])
      | _ => none
  | .exit t =>
      if t ∈ plant.ioLoops ∧ s.loops t = true ∧ s.quit t = true ∧
          (s.server.pool t).frames = [] then
        some ({ s with
          loops := Function.update s.loops t false
          server := { s.server with pool := Function.update s.server.pool t {} } }, [])
      else none
  | .join =>
      match s.stage with
      | .stopping (t :: threads) =>
          if s.loops t = false then some ({ s with stage := .stopping threads }, [])
          else none
      | _ => none
  | .clear =>
      if s.stage = .stopping [] then
        some ({ s with
          stage := .cleared
          server := { s.server with shared := clearConns s.server.shared } }, [])
      else none

/-- The frame that the action runs. -/
def frame? (s : Teardown ι) : TeardownAction ι → Option (Frame ι)
  | .server (.run t _ _) _ => (s.server.pool t).frames.head?
  | _ => none

/-- The step to `m` calls `disableAll` for a channel in its poller: itself, or
because the connection and with it the channel is destroyed. -/
def Removes (s : Teardown ι) (a : TeardownAction ι) (m : Teardown ι) (conn : Conn ι) :
    Prop :=
  s.inPoller conn = true ∧
    (s.frame? a = some (.disableAll conn) ∨
      (Alive s.server conn ∧ ¬Alive m.server conn))

/-- The step from `s` to `m` uses no object that is gone.  A loop whose destructor
has begun counts as gone. -/
structure UsesLive (s : Teardown ι) (a : TeardownAction ι) (m : Teardown ι) : Prop where
  members : ∀ f ∈ s.frame? a, InCallback f →
    s.stage.shards = true ∧ s.stage.handler = true
  loops : ∀ conn, s.Removes a m conn → m.loops conn.ownerLoop = true

end Teardown

/-! ## Connections that are over -/

/-- The descriptor that a thread closes next. -/
def closing : List (Frame ι) → Option Nat
  | .close conn :: _ => some conn.fd
  | _ => none

theorem close_of_closing {frames : List (Frame ι)} {fd : Nat}
    (closes : closing frames = some fd) : ∃ conn, .close conn ∈ frames.head? ∧ conn.fd = fd := by
  unfold closing at closes
  split at closes
  · cases closes
    exact ⟨_, rfl, rfl⟩
  · cases closes

theorem closing_eq_none {frames : List (Frame ι)} {f : Frame ι} (top : f ∈ frames.head?)
    (other : ∀ conn, f ≠ .close conn) : closing frames = none := by
  refine Option.eq_none_iff_forall_ne_some.mpr fun fd closes => ?_
  obtain ⟨conn, closer, -⟩ := close_of_closing closes
  exact other conn (Option.mem_unique top closer)

namespace Teardown

/-- The connection is closed: its channel is out of the poller, the table has no
entry for its descriptor, and the descriptor is not open. -/
def Over (s : Teardown ι) (conn : Conn ι) : Prop :=
  s.inPoller conn = false ∧ s.server.shared.conns.lookup conn.fd = none ∧
    s.server.shared.kernel conn.fd = none

/-- The connection is closed, or the thread `t` is about to close its descriptor. -/
def Ending (s : Teardown ι) (t : ι) (conn : Conn ι) : Prop :=
  s.inPoller conn = false ∧ s.server.shared.conns.lookup conn.fd = none ∧
    (s.server.shared.kernel conn.fd = none ∨
      closing (s.server.pool t).frames = some conn.fd)

/-- The frame is left over from a connection that is closed. -/
def Spent (s : Teardown ι) (t : ι) : Frame ι → Prop
  | .runInLoop _ (.appendAndFlush conn _) | .runInLoop _ (.closeConnInLoop conn _)
  | .closeConn conn _ => s.Over conn
  | .callback _ conn | .read conn | .retrieve conn _ | .appendAndFlush conn _
  | .flushWrite conn | .closeConnInLoop conn _ => s.Ending t conn
  | .close conn => s.inPoller conn = false
  | _ => False

def SpentTask (s : Teardown ι) (t : ι) : TcpServer.Task ι → Prop
  | .appendAndFlush conn _ | .closeConnInLoop conn _ => s.Ending t conn
  | .addConnection _ => False

def AllSpent (plant : Plant ι) (s : Teardown ι)
    (pool : Pool ι (Frame ι) (TcpServer.Task ι)) : Prop :=
  AllAt (fun t f => t ∈ plant.ioLoops → s.Spent t f)
    (fun t k => t ∈ plant.ioLoops → s.SpentTask t k) pool

/-- The IO loops have no connection left, and their threads nothing to do but to
finish with connections that are closed. -/
def Quiet (plant : Plant ι) (s : Teardown ι) : Prop :=
  (∀ entry ∈ s.server.shared.conns.entries, entry.2.ownerLoop ∉ plant.ioLoops) ∧
    s.AllSpent plant s.server.pool

/-- The destruction begins only when the IO loops are quiet. -/
def Calm (plant : Plant ι) (s : Teardown ι) : TeardownAction ι → Prop
  | .destroyShards => s.Quiet plant
  | _ => True

section

variable [DecidableEq ι]

instance (s : Teardown ι) (conn : Conn ι) : Decidable (s.Over conn) :=
  inferInstanceAs (Decidable (_ ∧ _ ∧ _))

instance (s : Teardown ι) (t : ι) (conn : Conn ι) : Decidable (s.Ending t conn) :=
  inferInstanceAs (Decidable (_ ∧ _ ∧ (_ ∨ _)))

instance (s : Teardown ι) (t : ι) : DecidablePred (s.Spent t)
  | .runInLoop _ (.appendAndFlush conn _) | .runInLoop _ (.closeConnInLoop conn _)
  | .closeConn conn _ => inferInstanceAs (Decidable (s.Over conn))
  | .callback _ conn | .read conn | .retrieve conn _ | .appendAndFlush conn _
  | .flushWrite conn | .closeConnInLoop conn _ =>
      inferInstanceAs (Decidable (s.Ending t conn))
  | .close _ => inferInstanceAs (Decidable (_ = _))
  | .accept | .runInLoop _ (.addConnection _) | .addConnection _ | .insert _ | .connected _
  | .message _ _ | .app | .call _ | .disableAll _ | .disconnected _ | .sweepIdle
  | .closeExpired _ => isFalse id

instance (s : Teardown ι) (t : ι) : DecidablePred (s.SpentTask t)
  | .appendAndFlush conn _ | .closeConnInLoop conn _ =>
      inferInstanceAs (Decidable (s.Ending t conn))
  | .addConnection _ => isFalse id

instance [Fintype ι] (plant : Plant ι) (s : Teardown ι) : ∀ a, Decidable (s.Calm plant a)
  | .destroyShards => inferInstanceAs (Decidable (_ ∧ AllAt _ _ _))
  | .server _ _ | .destroyHandler | .quit | .exit _ | .join | .clear => isTrue trivial

end

variable {s m : Teardown ι} {t : ι} {f : Frame ι} {conn : Conn ι}

theorem Over.ending (ended : s.Over conn) : s.Ending t conn :=
  ⟨ended.1, ended.2.1, .inl ended.2.2⟩

theorem Ending.isOver (ending : s.Ending t conn)
    (none : closing (s.server.pool t).frames = none) : s.Over conn := by
  obtain ⟨removed, erased, closed | closes⟩ := ending
  · exact ⟨removed, erased, closed⟩
  · rw [none] at closes
    cases closes

theorem Spent.not_inCallback (spent : s.Spent t f) : ¬InCallback f := by
  cases f <;> first | exact id | exact absurd spent id

theorem Spent.removed (spent : s.Spent t f) (member : conn ∈ f.refs) :
    s.inPoller conn = false := by
  cases f with
  | runInLoop loop task =>
      rw [Frame.refs, Task.refs_eq, List.mem_singleton] at member
      subst member
      cases task with
      | addConnection => exact absurd spent id
      | appendAndFlush | closeConnInLoop => exact spent.1
  | close other =>
      cases List.mem_singleton.mp member
      exact spent
  | callback => cases member
  | closeConn | read | retrieve | appendAndFlush | flushWrite | closeConnInLoop =>
      cases List.mem_singleton.mp member
      exact spent.1
  | _ => exact absurd spent id

/-- A frame of a thread with another owner is left over only once the connection
is closed. -/
theorem Spent.over_of_ne (spent : s.Spent t f) (placed : f.Placed t)
    (member : conn ∈ f.refs) (other : conn.ownerLoop ≠ t) : s.Over conn := by
  cases f with
  | runInLoop loop task =>
      rw [Frame.refs, Task.refs_eq, List.mem_singleton] at member
      subst member
      cases task with
      | addConnection => exact absurd spent id
      | appendAndFlush | closeConnInLoop => exact spent
  | closeConn =>
      cases List.mem_singleton.mp member
      exact spent
  | callback => cases member
  | close | read | retrieve | appendAndFlush | flushWrite | closeConnInLoop =>
      cases List.mem_singleton.mp member
      exact absurd placed other
  | _ => exact absurd spent id

theorem SpentTask.ending {k : TcpServer.Task ι} (spent : s.SpentTask t k) :
    s.Ending t k.conn := by
  cases k with
  | addConnection => exact absurd spent id
  | appendAndFlush | closeConnInLoop => exact spent

theorem SpentTask.frame {k : TcpServer.Task ι} (spent : s.SpentTask t k) :
    s.Spent t k.frame := by
  cases k with
  | addConnection => exact absurd spent id
  | appendAndFlush | closeConnInLoop => exact spent

/-- What a frame leads to is left over from the same connection. -/
theorem Spent.leads {g : Frame ι} {input : Input ι} (spent : s.Spent t f)
    (ended : ∀ conn, s.Ending t conn → s.Over conn)
    (led : Leads s.server t input f g) : s.Spent t g := by
  cases led with
  | inLoop task =>
      cases task with
      | addConnection => exact absurd spent id
      | appendAndFlush | closeConnInLoop => exact Over.ending spent
  | callback which conn =>
      cases which with
      | read | write => exact spent
      | close => exact ended conn spent
  | received conn n open_ => exact absurd (ended conn spent).2.2 open_
  | erased conn reason found => exact absurd (ended conn spent).2.1 found
  | closeHere conn reason here => exact Over.ending spent
  | closeThere | interrupted | readClosed | readOn | flush | flushOn | writeError =>
      exact spent
  | _ => exact absurd spent id

/-- What a step may do to the connections once the destruction has begun. -/
structure Fades (s m : Teardown ι) : Prop where
  removed : ∀ conn, s.inPoller conn = false → m.inPoller conn = false
  erased : ∀ fd, s.server.shared.conns.lookup fd = none →
    m.server.shared.conns.lookup fd = none
  closed : ∀ fd, s.server.shared.kernel fd = none → m.server.shared.kernel fd = none
  closes : ∀ t fd, closing (s.server.pool t).frames = some fd →
    m.server.shared.kernel fd = none ∨ closing (m.server.pool t).frames = some fd

namespace Fades

theorem isOver (fades : Fades s m) (ended : s.Over conn) : m.Over conn :=
  ⟨fades.removed conn ended.1, fades.erased conn.fd ended.2.1, fades.closed conn.fd ended.2.2⟩

theorem ending (fades : Fades s m) (ending : s.Ending t conn) : m.Ending t conn := by
  obtain ⟨removed, erased, closed | closes⟩ := ending
  · exact ⟨fades.removed conn removed, fades.erased _ erased, .inl (fades.closed _ closed)⟩
  · exact ⟨fades.removed conn removed, fades.erased _ erased, fades.closes t _ closes⟩

theorem spent (fades : Fades s m) (spent : s.Spent t f) : m.Spent t f := by
  cases f with
  | runInLoop loop task =>
      cases task with
      | addConnection => exact absurd spent id
      | appendAndFlush | closeConnInLoop => exact fades.isOver spent
  | closeConn => exact fades.isOver spent
  | callback | read | retrieve | appendAndFlush | flushWrite | closeConnInLoop =>
      exact fades.ending spent
  | close conn => exact fades.removed conn spent
  | _ => exact absurd spent id

theorem allSpent {plant : Plant ι} {pool : Pool ι (Frame ι) (TcpServer.Task ι)}
    (fades : Fades s m) (all : s.AllSpent plant pool) : m.AllSpent plant pool := by
  refine all.mono (fun t f spent io => fades.spent (spent io)) fun t k spent io => ?_
  cases k with
  | addConnection => exact absurd (spent io) id
  | appendAndFlush | closeConnInLoop => exact fades.ending (spent io)

/-- The table and the descriptors stay as they are, and no thread that is about to
close a descriptor does anything. -/
theorem of_shared (inPoller : m.inPoller = s.inPoller)
    (shared : m.server.shared = s.server.shared)
    (frames : ∀ t, closing (s.server.pool t).frames = none ∨
      (m.server.pool t).frames = (s.server.pool t).frames) : Fades s m := by
  constructor
  · rw [inPoller]
    exact fun _ removed => removed
  · rw [shared]
    exact fun _ erased => erased
  · rw [shared]
    exact fun _ closed => closed
  · intro t fd closes
    rcases frames t with none | same
    · rw [none] at closes
      cases closes
    · rw [same]
      exact .inr closes

end Fades

/-- What holds once the destruction has begun. -/
structure Sealed (plant : Plant ι) (s : Teardown ι) : Prop where
  entries : ∀ fd conn, s.server.shared.conns.lookup fd = some conn →
    conn.ownerLoop ∉ plant.ioLoops
  idle : ∀ t, t ∉ plant.ioLoops → (s.server.pool t).frames = []
  spent : s.AllSpent plant s.server.pool

namespace Sealed

variable {plant : Plant ι}

/-- A connection that still has its channel in a poller belongs to a loop that
outlives the server. -/
theorem owner_of_alive [DecidableEq ι] (sealed : Sealed plant s)
    (placed : Placed s.server.pool) (alive : Alive s.server conn)
    (registered : s.inPoller conn = true) : conn.ownerLoop ∉ plant.ioLoops := by
  intro io
  rcases alive with stored | referenced
  · exact sealed.entries conn.fd conn stored io
  · refine referenced fun u => ⟨fun f member holds => ?_, fun k member holds => ?_⟩
    · by_cases own : u ∈ plant.ioLoops
      · rw [((sealed.spent u).1 f member own).removed holds] at registered
        cases registered
      · rw [sealed.idle u own] at member
        cases member
    · rw [Task.refs_eq, List.mem_singleton] at holds
      subst holds
      have owner := (placed u).2 k member
      rw [owner] at io
      rw [((sealed.spent u).2 k member io).ending.1] at registered
      cases registered

/-- Whatever still holds a connection of an idle IO thread, the connection is
closed. -/
theorem over_of_alive [DecidableEq ι] (sealed : Sealed plant s)
    (placed : Placed s.server.pool) (alive : Alive s.server conn)
    (io : conn.ownerLoop ∈ plant.ioLoops)
    (idle : (s.server.pool conn.ownerLoop).frames = []) : s.Over conn := by
  rcases alive with stored | referenced
  · exact absurd io (sealed.entries conn.fd conn stored)
  · by_contra living
    refine referenced fun u => ⟨fun f member holds => ?_, fun k member holds => ?_⟩
    · by_cases own : u ∈ plant.ioLoops
      · refine living (((sealed.spent u).1 f member own).over_of_ne ((placed u).1 f member)
          holds fun same => ?_)
        rw [← same, idle] at member
        cases member
      · rw [sealed.idle u own] at member
        cases member
    · rw [Task.refs_eq, List.mem_singleton] at holds
      subst holds
      have owner := (placed u).2 k member
      rw [owner] at io idle
      refine living (((sealed.spent u).2 k member io).ending.isOver ?_)
      rw [idle]
      rfl

theorem clear (sealed : Sealed plant s) (stage : Stage ι) :
    Sealed plant { s with
      stage
      server := { s.server with shared := clearConns s.server.shared } } := by
  refine ⟨fun fd conn found => ?_, sealed.idle, ?_⟩
  · cases found
  · apply Fades.allSpent (s := s) _ sealed.spent
    refine ⟨fun _ removed => removed, fun _ _ => rfl, fun fd closed => ?_,
      fun t fd closes => .inr closes⟩
    change (if fd ∈ s.server.shared.conns then none else s.server.shared.kernel fd) = none
    rw [closed, ite_self]

variable [DecidableEq ι]

/-- An idle IO thread starts with frames that are left over. -/
theorem push (sealed : Sealed plant s) {frames : List (Frame ι)}
    {rest : Pool ι (Frame ι) (TcpServer.Task ι)} (io : t ∈ plant.ioLoops)
    (same : ∀ u, (rest u).frames = (s.server.pool u).frames)
    (idle : (s.server.pool t).frames = []) (others : s.AllSpent plant rest)
    (spent : ∀ f ∈ frames, s.Spent t f) :
    Sealed plant { s with server := { s.server with pool := push t frames rest } } := by
  have fades : Fades s
      { s with server := { s.server with pool := Threads.push t frames rest } } := by
    refine .of_shared rfl rfl fun u => ?_
    by_cases here : u = t
    · rw [here, idle]
      exact .inl rfl
    · refine .inr ?_
      rw [← same u]
      exact frames_push_of_ne here
  refine ⟨sealed.entries, fun u other => ?_, ?_⟩
  · have away : u ≠ t := fun here => other (here ▸ io)
    exact (frames_push_of_ne away).trans ((same u).trans (sealed.idle u other))
  · exact allAt_push.mpr ⟨fun f member _ => fades.spent (spent f member), fades.allSpent others⟩

theorem exit (sealed : Sealed plant s) (idle : (s.server.pool t).frames = [])
    (loops : ι → Bool) :
    Sealed plant { s with
      loops
      server := { s.server with pool := Function.update s.server.pool t {} } } := by
  have frames : ∀ u, (Function.update s.server.pool t {} u).frames =
      (s.server.pool u).frames := by
    intro u
    by_cases here : u = t
    · rw [here, idle, Function.update_self]
    · rw [Function.update_of_ne here]
  refine ⟨sealed.entries, fun u other => (frames u).trans (sealed.idle u other), ?_⟩
  apply Fades.allSpent (s := s) _ (allAt_end sealed.spent)
  exact .of_shared rfl rfl fun u => .inr (frames u)

/-- The poller keeps what it has when a frame is left over. -/
theorem register_eq (top : f ∈ (s.server.pool t).frames.head?) (spent : s.Spent t f)
    (later : State ι) (answer : Bool) : s.register later t answer = s.inPoller := by
  unfold Teardown.register
  rw [Option.mem_def.mp top]
  cases f with
  | flushWrite conn =>
      have ended : s.Over conn :=
        Ending.isOver spent (closing_eq_none top fun _ same => (by cases same))
      dsimp only
      split
      · rfl
      · rw [ended.2.2, Option.isSome_none, Bool.and_false, Bool.or_false,
          Function.update_eq_self]
  | addConnection | disableAll => exact absurd spent id
  | _ => rfl

variable [Fintype ι] {now : Int} {input : Input ι} {effect : Effect ι}

theorem conns_eq (top : f ∈ (s.server.pool t).frames.head?) (spent : s.Spent t f)
    (done : exec plant.toConfig s.server t now f input = some effect) :
    effect.shared.conns = s.server.shared.conns := by
  rcases conns_exec done with same | ⟨conn, rfl, -⟩ | ⟨conn, reason, entry, rfl, found, -⟩
  · exact same
  · exact absurd spent id
  · have ended : s.Over conn :=
      Ending.isOver spent (closing_eq_none top fun _ same => (by cases same))
    rw [ended.2.1] at found
    cases found

/-- A step of an IO thread closes descriptors at most. -/
theorem fades_run {rest : Pool ι (Frame ι) (TcpServer.Task ι)}
    (popped : pop t s.server.pool = some (f, rest)) (spent : s.Spent t f)
    (done : exec plant.toConfig s.server t now f input = some effect) :
    Fades s { s with server := TcpServer.apply t rest effect } := by
  have top := head_of_pop popped
  refine ⟨fun _ removed => removed, fun fd erased => ?_, fun fd closed => ?_,
    fun u fd closes => ?_⟩
  · rw [shared_apply, conns_eq top spent done]
    exact erased
  · rw [shared_apply]
    rcases kernel_exec done with ⟨same, -⟩ | rfl | ⟨conn, rfl, updated⟩
    · rw [same]
      exact closed
    · exact absurd spent id
    · rw [updated, Function.update_apply, closed, ite_self]
  · by_cases here : u = t
    · subst here
      obtain ⟨conn, closer, rfl⟩ := close_of_closing closes
      cases Option.mem_unique closer top
      rcases kernel_exec done with ⟨-, other⟩ | accepts | ⟨conn, same, updated⟩
      · exact absurd rfl (other _)
      · cases accepts
      · cases same
        refine .inl ?_
        rw [shared_apply, updated, Function.update_self]
    · refine .inr ?_
      rw [frames_apply_of_ne popped here]
      exact closes

theorem run {rest : Pool ι (Frame ι) (TcpServer.Task ι)} (sealed : Sealed plant s)
    (io : t ∈ plant.ioLoops) (popped : pop t s.server.pool = some (f, rest))
    (done : exec plant.toConfig s.server t now f input = some effect) :
    Sealed plant { s with server := TcpServer.apply t rest effect } := by
  obtain ⟨here, others⟩ := (allAt_pop popped).mp sealed.spent
  have top := head_of_pop popped
  have fades := fades_run popped (here io) done
  refine ⟨?_, fun u other => ?_, ?_⟩
  · rw [shared_apply, conns_eq top (here io) done]
    exact sealed.entries
  · have away : u ≠ t := fun same => other (same ▸ io)
    rw [frames_apply_of_ne popped away]
    exact sealed.idle u other
  · refine allAt_apply.mpr ⟨fun g member _ => ?_, fun x member _ => ?_, fades.allSpent others⟩
    · have led := leads_exec done g member
      refine fades.spent ((here io).leads (fun conn ending => ending.isOver ?_) led)
      refine closing_eq_none top fun conn same => ?_
      subst same
      cases led
    · obtain ⟨rfl, -⟩ := queued_exec done member
      have spent := fades.spent (here io)
      generalize x.2 = task at spent ⊢
      cases task with
      | addConnection => exact absurd spent id
      | appendAndFlush | closeConnInLoop => exact Over.ending spent

end Sealed

/-! ## Whole runs -/

/-- What holds in the runs in which the destruction begins when the IO loops are
quiet. -/
structure Orderly (plant : Plant ι) (s : Teardown ι) : Prop where
  placed : Placed s.server.pool
  outlives : ∀ t, t ∉ plant.ioLoops → s.loops t = true
  serving : s.stage = .serving → ∀ t, s.loops t = true ∧ s.quit t = false
  sealed : s.stage ≠ .serving → Sealed plant s

namespace Orderly

variable {plant : Plant ι}

theorem init : Orderly plant ({} : Teardown ι) :=
  ⟨placed_init, fun _ _ => rfl, fun _ _ => ⟨rfl, rfl⟩, fun begun => absurd rfl begun⟩

/-- The destructor goes on and leaves the server as it is. -/
theorem goesOn (orderly : Orderly plant s) (begun : s.stage ≠ .serving)
    (server : m.server = s.server) (inPoller : m.inPoller = s.inPoller)
    (loops : m.loops = s.loops) (later : m.stage ≠ .serving) : Orderly plant m := by
  obtain ⟨entries, idle, spent⟩ := orderly.sealed begun
  have fades : Fades s m :=
    .of_shared inPoller (by rw [server]) fun t => .inr (by rw [server])
  refine ⟨?_, ?_, fun serving => absurd serving later, fun _ => ⟨?_, ?_, ?_⟩⟩
  · rw [server]
    exact orderly.placed
  · rw [loops]
    exact orderly.outlives
  · rw [server]
    exact entries
  · rw [server]
    exact idle
  · rw [server]
    exact fades.allSpent spent

variable [DecidableEq ι]

/-- After the destruction has begun only IO threads run. -/
theorem mem_ioLoops (begun : s.stage ≠ .serving) (runs : s.Runs plant t) :
    t ∈ plant.ioLoops := by
  unfold Runs at runs
  split at runs
  · assumption
  · exact absurd runs begun

theorem spent_frame (orderly : Orderly plant s) (begun : s.stage ≠ .serving) {now : Int}
    {input : Input ι} (takes : s.Takes plant (.run t now input))
    (top : f ∈ (s.server.pool t).frames.head?) : s.Spent t f := by
  have io := mem_ioLoops begun takes.1
  exact ((orderly.sealed begun).spent t).1 f (List.mem_of_mem_head? top) io

variable [Fintype ι] {a : TeardownAction ι} {events : List (Event ι)}

/-- What the server does after the destruction has begun. -/
theorem sealed_server (orderly : Orderly plant s) (begun : s.stage ≠ .serving)
    {action : Action ι} {server : State ι} {answer : Bool}
    (takes : s.Takes plant action)
    (stepped : TcpServer.step plant.toConfig s.server action = some (server, events)) :
    Sealed plant { s with server, inPoller := s.registerIn server answer action } := by
  have sealed := orderly.sealed begun
  cases action with
  | run t now input =>
      have io := mem_ioLoops begun takes.1
      obtain ⟨⟨f, rest⟩, popped, continued⟩ := Option.bind_eq_some_iff.mp stepped
      obtain ⟨effect, done, result⟩ := Option.map_eq_some_iff.mp continued
      cases result
      have spent := ((allAt_pop popped).mp sealed.spent).1 io
      rw [registerIn, Sealed.register_eq (head_of_pop popped) spent]
      exact sealed.run io popped done
  | handleAccept | sweepIdle =>
      exact absurd (mem_ioLoops begun takes) plant.separate
  | doPendingFunctor t =>
      have io := mem_ioLoops begun takes
      simp only [TcpServer.step] at stepped
      split at stepped
      · rename_i idle
        obtain ⟨⟨task, rest⟩, polled, result⟩ := Option.map_eq_some_iff.mp stepped
        cases result
        obtain ⟨here, others⟩ := (allAt_poll polled).mp sealed.spent
        refine sealed.push io (fun u => frames_poll polled) idle others ?_
        exact List.forall_mem_singleton.mpr (here io).frame
      · cases stepped
  | handleEvent conn revents =>
      have io := mem_ioLoops begun takes
      simp only [TcpServer.step] at stepped
      split at stepped
      · rename_i alive
        unfold TcpServer.begin at stepped
        split at stepped
        · rename_i idle
          cases stepped
          refine sealed.push io (fun u => rfl) idle sealed.spent fun f member => ?_
          obtain ⟨which, -, rfl⟩ := List.mem_map.mp member
          exact (sealed.over_of_alive orderly.placed alive io idle).ending
        · cases stepped
      · cases stepped
  | app t => exact absurd (mem_ioLoops begun takes.2) takes.1

theorem step (orderly : Orderly plant s) (calm : s.Calm plant a)
    (stepped : Teardown.step plant s a = some (m, events)) : Orderly plant m := by
  cases a with
  | server action answer =>
      simp only [Teardown.step] at stepped
      split at stepped
      · rename_i takes
        obtain ⟨⟨server, log⟩, continued, result⟩ := Option.map_eq_some_iff.mp stepped
        cases result
        exact ⟨placed_step orderly.placed continued, orderly.outlives, orderly.serving,
          fun begun => orderly.sealed_server begun takes continued⟩
      · cases stepped
  | destroyShards =>
      simp only [Teardown.step] at stepped
      split at stepped
      · rename_i allowed
        cases stepped
        refine ⟨orderly.placed, orderly.outlives, fun serving => (by cases serving),
          fun _ => ⟨fun fd conn found => ?_, allowed.2, ?_⟩⟩
        · exact calm.1 _ (AList.mem_lookup_iff.mp found)
        · exact Fades.allSpent (s := s) (.of_shared rfl rfl fun t => .inr rfl) calm.2
      · cases stepped
  | destroyHandler =>
      simp only [Teardown.step] at stepped
      split at stepped
      · rename_i stage
        cases stepped
        have begun : s.stage ≠ .serving := by simp [stage]
        exact orderly.goesOn begun rfl rfl rfl fun serving => (by cases serving)
      · cases stepped
  | quit =>
      simp only [Teardown.step] at stepped
      split at stepped
      · rename_i t threads stage
        cases stepped
        have begun : s.stage ≠ .serving := by simp [stage]
        exact orderly.goesOn begun rfl rfl rfl begun
      · cases stepped
  | exit t =>
      simp only [Teardown.step] at stepped
      split at stepped
      · rename_i allowed
        obtain ⟨io, -, quits, idle⟩ := allowed
        cases stepped
        have begun : s.stage ≠ .serving := by
          intro serving
          rw [(orderly.serving serving t).2] at quits
          cases quits
        refine ⟨allAt_end orderly.placed, fun u other => ?_,
          fun serving => absurd serving begun, fun _ => (orderly.sealed begun).exit idle _⟩
        have away : u ≠ t := fun same => other (same ▸ io)
        exact (Function.update_of_ne away _ _).trans (orderly.outlives u other)
      · cases stepped
  | join =>
      simp only [Teardown.step] at stepped
      split at stepped
      · rename_i t threads stage
        split at stepped
        · cases stepped
          have begun : s.stage ≠ .serving := by simp [stage]
          exact orderly.goesOn begun rfl rfl rfl fun serving => (by cases serving)
        · cases stepped
      · cases stepped
  | clear =>
      simp only [Teardown.step] at stepped
      split at stepped
      · rename_i stage
        cases stepped
        have begun : s.stage ≠ .serving := by simp [stage]
        exact ⟨orderly.placed, orderly.outlives, fun serving => (by cases serving),
          fun _ => (orderly.sealed begun).clear _⟩
      · cases stepped

/-- Before the destruction begins no loop ends. -/
theorem loops_step (orderly : Orderly plant s) (serving : s.stage = .serving)
    (stepped : Teardown.step plant s a = some (m, events)) : m.loops t = true := by
  have running := orderly.serving serving
  cases a with
  | server action answer =>
      simp only [Teardown.step] at stepped
      split at stepped
      · obtain ⟨_, _, result⟩ := Option.map_eq_some_iff.mp stepped
        cases result
        exact (running t).1
      · cases stepped
  | destroyShards =>
      simp only [Teardown.step] at stepped
      split at stepped
      · cases stepped
        exact (running t).1
      · cases stepped
  | exit u =>
      simp only [Teardown.step] at stepped
      split at stepped
      · rename_i allowed
        rw [(running u).2] at allowed
        cases allowed.2.2.1
      · cases stepped
  | destroyHandler | clear =>
      simp only [Teardown.step, serving] at stepped
      cases stepped
  | quit | join =>
      simp only [Teardown.step, serving] at stepped
      cases stepped

theorem usesLive (orderly : Orderly plant s) (calm : s.Calm plant a)
    (stepped : Teardown.step plant s a = some (m, events)) : UsesLive s a m := by
  by_cases serving : s.stage = .serving
  · refine ⟨fun f _ _ => ?_, fun conn _ => orderly.loops_step serving stepped⟩
    rw [serving]
    exact ⟨rfl, rfl⟩
  · have frame : ∀ f ∈ s.frame? a, ∃ t, s.Spent t f := by
      intro f running
      unfold frame? at running
      split at running
      · rename_i t now input answer
        simp only [Teardown.step] at stepped
        split at stepped
        · rename_i takes
          exact ⟨t, orderly.spent_frame serving takes running⟩
        · cases stepped
      · cases running
    refine ⟨fun f running callback => ?_, fun conn removes => ?_⟩
    · obtain ⟨t, spent⟩ := frame f running
      exact absurd callback spent.not_inCallback
    · obtain ⟨registered, disables | ⟨alive, -⟩⟩ := removes
      · obtain ⟨t, spent⟩ := frame _ disables
        exact absurd spent id
      · apply (orderly.step calm stepped).outlives
        exact (orderly.sealed serving).owner_of_alive orderly.placed alive registered

end Orderly

/-- If the destruction begins only when the IO loops are quiet, no step of a run
uses an object that is gone. -/
theorem usesLive_of_run [DecidableEq ι] [Fintype ι] {plant : Plant ι}
    {actions : List (TeardownAction ι)} {a : TeardownAction ι}
    {trace : List (TeardownAction ι × List (Event ι))} {events : List (Event ι)}
    (calm : Machine.Along (step plant) (Calm plant) {} actions)
    (ran : Machine.run (step plant) {} actions = some (s, trace))
    (calmNow : s.Calm plant a) (stepped : step plant s a = some (m, events)) :
    UsesLive s a m := by
  have orderly : Orderly plant s := by
    refine Machine.run_along (motive := fun _ s => Orderly plant s) ?_ .init calm ran
    intro _ s a m events orderly calm stepped
    exact orderly.step calm stepped
  exact orderly.usesLive calmNow stepped

/-! ## One connection -/

/-- `false` is the thread of the base loop, `true` the only IO thread. -/
def oneThread : Plant Bool :=
  { baseLoop := false, ioLoops := [true], separate := by decide }

def onlyConn : Conn Bool := { fd := 7, id := 1, ownerLoop := true }

def serves (actions : List (Action Bool)) : List (TeardownAction Bool) :=
  actions.map (.server · true)

/-- A connection is accepted and given to the IO thread. -/
def connectOnly : List (TeardownAction Bool) :=
  serves [.handleAccept, .run false 0 (.accepted 7 true), .run false 0 .none, .run false 0 .acceptFailed,
    .doPendingFunctor true, .run true 0 .none, .run true 0 .none, .run true 0 .none, .run true 0 .return]

/-- The application shuts it down twice, and the IO thread closes it. -/
def shutdownTwice : List (TeardownAction Bool) :=
  serves [.app false, .run false 0 (.call (.shutdown 7)), .run false 0 .none, .run false 0 .none,
    .run false 0 (.call (.shutdown 7)), .run false 0 .none, .run false 0 .none, .run false 0 .return,
    .doPendingFunctor true, .run true 0 .none, .run true 0 .none, .run true 0 .none, .run true 0 .return,
    .run true 0 .none]

/-- The second task runs while the members are being destroyed. -/
def destroyQuiet : List (TeardownAction Bool) :=
  [.destroyShards] ++ serves [.doPendingFunctor true] ++ [.destroyHandler, .quit] ++
    serves [.run true 0 .none] ++ [.exit true, .join]

theorem usesLive_of_shutdownTwice :
    ∃ s trace m events, Machine.run (step oneThread) {}
        (connectOnly ++ shutdownTwice ++ destroyQuiet) = some (s, trace) ∧
      step oneThread s .clear = some (m, events) ∧ s.loops true = false ∧
      UsesLive s .clear m := by
  have ends : ((Machine.run (step oneThread) {}
      (connectOnly ++ shutdownTwice ++ destroyQuiet)).any fun r =>
        (step oneThread r.1 .clear).isSome && !r.1.loops true) = true := by
    decide +kernel
  obtain ⟨r, ran, ends⟩ := (Option.any_eq_true _ _).mp ends
  obtain ⟨cleared, gone⟩ := (Bool.and_eq_true _ _).mp ends
  obtain ⟨⟨m, events⟩, stepped⟩ := Option.isSome_iff_exists.mp cleared
  have calm : Machine.Along (step oneThread) (Calm oneThread) {}
      (connectOnly ++ shutdownTwice ++ destroyQuiet) := by
    decide +kernel
  exact ⟨r.1, r.2, m, events, ran, stepped, by simpa using gone,
    usesLive_of_run calm ran trivial stepped⟩

/-- Data comes in after `shards_` is gone, and `onMessage` is next. -/
def receiveLate : List (TeardownAction Bool) :=
  [.destroyShards] ++ serves [.handleEvent onlyConn Channel.epollIn, .run true 0 .none,
    .run true 0 (.data [0x61])]

/-- The IO thread is stopped, and `conns_` still has the connection. -/
def destroyOpen : List (TeardownAction Bool) :=
  [.destroyShards, .destroyHandler, .quit, .exit true, .join]

/-- With a connection that is open `onMessage` uses the shards that are gone, and
the channel is removed from a loop that is gone. -/
theorem not_usesLive_openConn :
    (¬∀ s trace m events,
      Machine.run (step oneThread) {} (connectOnly ++ receiveLate) = some (s, trace) →
      step oneThread s (.server (.run true 0 .none) true) = some (m, events) →
        UsesLive s (.server (.run true 0 .none) true) m) ∧
    ¬∀ s trace m events,
      Machine.run (step oneThread) {} (connectOnly ++ destroyOpen) = some (s, trace) →
      step oneThread s .clear = some (m, events) → UsesLive s .clear m := by
  constructor
  · intro live
    have ends : ((Machine.run (step oneThread) {} (connectOnly ++ receiveLate)).any fun r =>
        (step oneThread r.1 (.server (.run true 0 .none) true)).isSome &&
          decide (r.1.frame? (.server (.run true 0 .none) true) = some (.message onlyConn 1) ∧
            r.1.stage = .shardsGone)) = true := by
      decide +kernel
    obtain ⟨r, ran, ends⟩ := (Option.any_eq_true _ _).mp ends
    obtain ⟨taken, there⟩ := (Bool.and_eq_true _ _).mp ends
    obtain ⟨⟨m, events⟩, stepped⟩ := Option.isSome_iff_exists.mp taken
    obtain ⟨top, gone⟩ := of_decide_eq_true there
    have exist := ((live r.1 r.2 m events ran stepped).members _ top trivial).1
    rw [gone] at exist
    cases exist
  · intro live
    have ends : ((Machine.run (step oneThread) {} (connectOnly ++ destroyOpen)).any fun r =>
        (step oneThread r.1 .clear).any fun x =>
          decide (r.1.inPoller onlyConn = true ∧ Alive r.1.server onlyConn ∧
            ¬Alive x.1.server onlyConn ∧ x.1.loops true = false)) = true := by
      decide +kernel
    obtain ⟨r, ran, ends⟩ := (Option.any_eq_true _ _).mp ends
    obtain ⟨x, stepped, there⟩ := (Option.any_eq_true _ _).mp ends
    obtain ⟨registered, alive, destroyed, gone⟩ := of_decide_eq_true there
    have exists_ := (live r.1 r.2 x.1 x.2 ran stepped).loops onlyConn
      ⟨registered, .inr ⟨alive, destroyed⟩⟩
    exact absurd (gone.symm.trans exists_) Bool.false_ne_true

end Teardown

end HttpServer

end MiniNet
