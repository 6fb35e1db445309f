import MiniNet.HttpServer.Lifetime

/-!
# A connection of the loop is a session of its own

The loop serves many connections, one step at a time; other loops change the
application in between; a `::send` takes any number of turns and may fail.  On
each connection this looks like `receive`: the loop has passed to `send` what
`onMessage` sends when the same chunks arrive at a server with this one
connection, whose handler gives the same responses.

For each connection the chunks and the responses of the handler are recorded.
-/

namespace MiniNet

open Bytes TcpServer

namespace HttpServer

/-- A handler that gives these responses, one after the other. -/
def replay : Handler (List HttpResponse) := fun replies _ resp =>
  match replies with
  | [] => ([], resp)
  | reply :: rest => (rest, reply)

def Call.sent : Call → Bytes
  | .send data => data
  | _ => []

/-- All bytes that the calls pass to `send`. -/
def sends (calls : List Call) : Bytes := calls.flatMap Call.sent

@[simp]
theorem sends_append (first second : List Call) :
    sends (first ++ second) = sends first ++ sends second :=
  List.flatMap_append

/-! ## One turn with recorded responses -/

section

variable {σ : Type} {handler : Option (Handler σ)} {state : σ} {conn rest : HttpConn}
  {more : List HttpResponse}

theorem serve_of_turn_needMore (taken : turn handler state conn = .needMore rest) :
    serve handler state conn = { calls := [], state, conn := rest, shut := false } := by
  rw [serve, taken]

theorem serve_of_turn_error {err : HttpParser.Error}
    (taken : turn handler state conn = .error rest err) :
    serve handler state conn =
      { calls := [.error err, .send (errorResponse err).serialize, .shutdown]
        state
        conn := rest
        shut := true } := by
  rw [serve, taken]

theorem serve_of_turn_respond {later : σ} {resp : HttpResponse}
    (taken : turn handler state conn = .respond rest later resp) :
    serve handler state conn =
      if !rest.parser.req.keepAlive || !resp.keepAlive then
        { calls := [.handler rest.parser.req, .send resp.serialize] ++ [.shutdown]
          state := later
          conn := rest
          shut := true }
      else
        let tail := serve handler later { rest with parser := rest.parser.reset }
        { tail with
          calls := [.handler rest.parser.req, .send resp.serialize] ++ tail.calls } := by
  rw [serve, taken]

theorem turn_replay_needMore (taken : turn handler state conn = .needMore rest) :
    turn (some replay) more conn = .needMore rest := by
  unfold turn at taken ⊢
  split at taken <;> cases taken
  rfl

theorem turn_replay_error {err : HttpParser.Error}
    (taken : turn handler state conn = .error rest err) :
    turn (some replay) more conn = .error rest err := by
  unfold turn at taken ⊢
  split at taken <;> cases taken
  rfl

theorem turn_replay_respond {later : σ} {resp : HttpResponse}
    (taken : turn handler state conn = .respond rest later resp) :
    turn (some replay) (resp :: more) conn = .respond rest more resp := by
  unfold turn at taken ⊢
  split at taken <;> cases taken
  rfl

end

/-! ## How far a session is -/

/-- Where `onMessage` is on a connection. -/
inductive Phase where
  /-- It has returned. -/
  | waiting (conn : HttpConn)
  /-- At the start of a turn of its loop. -/
  | parsing (conn : HttpConn)
  /-- After a response of the handler. -/
  | answered (conn : HttpConn) (resp : HttpResponse)
  /-- Before the call of `shutdown`. -/
  | closing (conn : HttpConn)

namespace Phase

/-- The session when `onMessage` has gone on from here, given the responses to
come. -/
def session (past : List Call) (more : List HttpResponse) :
    Phase → Session (List HttpResponse)
  | .waiting conn => { state := more, conn, calls := past, shut := false }
  | .parsing conn =>
      let served := serve (some replay) more conn
      { served with calls := past ++ served.calls }
  | .answered conn resp =>
      if !conn.parser.req.keepAlive || !resp.keepAlive then
        { state := more, conn, calls := past ++ [.shutdown], shut := true }
      else
        let served := serve (some replay) more { conn with parser := conn.parser.reset }
        { served with calls := past ++ served.calls }
  | .closing conn => { state := more, conn, calls := past ++ [.shutdown], shut := true }

end Phase

/-- What has come in on a connection, what the handler was called with and what
it has answered. -/
structure Log where
  chunks : List Bytes := []
  requests : List HttpRequest := []
  replies : List HttpResponse := []

namespace Log

def message (log : Log) (data : Bytes) : Log := { log with chunks := log.chunks ++ [data] }

def answer (log : Log) (req : HttpRequest) (resp : HttpResponse) : Log :=
  { log with requests := log.requests ++ [req], replies := log.replies ++ [resp] }

/-- The session with these chunks and responses. -/
def session (log : Log) (more : List HttpResponse) : Session (List HttpResponse) :=
  receive (some replay) (log.replies ++ more) log.chunks

/-- Whatever the handler is going to answer, the session is in this phase, and
has sent these bytes. -/
def At (log : Log) (given : Bytes) (phase : Phase) : Prop :=
  ∃ past, sends past = given ∧ ∀ more, log.session more = phase.session past more

theorem at_start : ({} : Log).At [] (.waiting {}) := ⟨[], rfl, fun _ => rfl⟩

theorem At.message {log : Log} {given : Bytes} {conn : HttpConn}
    (reached : log.At given (.waiting conn)) (data : Bytes) :
    (log.message data).At given (.parsing { conn with inBuf := conn.inBuf.append data }) := by
  obtain ⟨past, sent, same⟩ := reached
  refine ⟨past, sent, fun more => ?_⟩
  have before := same more
  rw [session] at before
  rw [session, Log.message, receive, List.foldl_append, ← receive, before]
  rfl

theorem At.needMore {σ : Type} {handler : Option (Handler σ)} {state : σ} {log : Log}
    {given : Bytes} {conn rest : HttpConn} (reached : log.At given (.parsing conn))
    (taken : turn handler state conn = .needMore rest) : log.At given (.waiting rest) := by
  obtain ⟨past, sent, same⟩ := reached
  refine ⟨past, sent, fun more => ?_⟩
  rw [same]
  simp only [Phase.session]
  rw [serve_of_turn_needMore (turn_replay_needMore taken), List.append_nil]

theorem At.error {σ : Type} {handler : Option (Handler σ)} {state : σ} {log : Log}
    {given : Bytes} {conn rest : HttpConn} {err : HttpParser.Error}
    (reached : log.At given (.parsing conn))
    (taken : turn handler state conn = .error rest err) :
    log.At (given ++ (errorResponse err).serialize) (.closing rest) := by
  obtain ⟨past, rfl, same⟩ := reached
  refine ⟨past ++ [.error err, .send (errorResponse err).serialize], by simp [sends, Call.sent],
    fun more => ?_⟩
  rw [same]
  simp only [Phase.session]
  rw [serve_of_turn_error (turn_replay_error taken), List.append_assoc]
  rfl

theorem At.respond {σ : Type} {handler : Option (Handler σ)} {state later : σ} {log : Log}
    {given : Bytes} {conn rest : HttpConn} {resp : HttpResponse}
    (reached : log.At given (.parsing conn))
    (taken : turn handler state conn = .respond rest later resp) :
    (log.answer rest.parser.req resp).At (given ++ resp.serialize) (.answered rest resp) := by
  obtain ⟨past, rfl, same⟩ := reached
  refine ⟨past ++ [.handler rest.parser.req, .send resp.serialize], by simp [sends, Call.sent],
    fun more => ?_⟩
  have before := same (resp :: more)
  rw [session] at before ⊢
  rw [Log.answer, List.append_assoc, List.singleton_append, before]
  simp only [Phase.session]
  rw [serve_of_turn_respond (turn_replay_respond taken)]
  split <;> simp

theorem At.close {log : Log} {given : Bytes} {conn : HttpConn} {resp : HttpResponse}
    (reached : log.At given (.answered conn resp))
    (closing : (!conn.parser.req.keepAlive || !resp.keepAlive) = true) :
    log.At given (.closing conn) := by
  obtain ⟨past, sent, same⟩ := reached
  refine ⟨past, sent, fun more => ?_⟩
  rw [same]
  simp only [Phase.session]
  rw [if_pos closing]

theorem At.next {log : Log} {given : Bytes} {conn : HttpConn} {resp : HttpResponse}
    (reached : log.At given (.answered conn resp))
    (staying : (!conn.parser.req.keepAlive || !resp.keepAlive) ≠ true) :
    log.At given (.parsing { conn with parser := conn.parser.reset }) := by
  obtain ⟨past, sent, same⟩ := reached
  refine ⟨past, sent, fun more => ?_⟩
  rw [same]
  simp only [Phase.session]
  rw [if_neg staying]

/-- A session that has ended: what it has sent, and no response is left. -/
def Ended (log : Log) (given : Bytes) : Prop :=
  (log.session []).shut = true ∧ (log.session []).state = [] ∧
    sends (log.session []).calls = given

theorem At.ended {log : Log} {given : Bytes} {conn : HttpConn}
    (reached : log.At given (.closing conn)) : log.Ended given := by
  obtain ⟨past, rfl, same⟩ := reached
  rw [Ended, same, Phase.session]
  exact ⟨rfl, rfl, by simp [sends, Call.sent]⟩

end Log

/-- What a connection can come to, one turn of `onMessage` after the other.  The
application may be in any state when the handler is called. -/
inductive Reached {σ : Type} (handler : Option (Handler σ)) : Log → Bytes → Phase → Prop where
  | start : Reached handler {} [] (.waiting {})
  | message {log : Log} {given : Bytes} {conn : HttpConn}
      (reached : Reached handler log given (.waiting conn)) (data : Bytes) :
      Reached handler (log.message data) given
        (.parsing { conn with inBuf := conn.inBuf.append data })
  | needMore {log : Log} {given : Bytes} {conn rest : HttpConn} {state : σ}
      (reached : Reached handler log given (.parsing conn))
      (taken : turn handler state conn = .needMore rest) :
      Reached handler log given (.waiting rest)
  | error {log : Log} {given : Bytes} {conn rest : HttpConn} {state : σ}
      {err : HttpParser.Error} (reached : Reached handler log given (.parsing conn))
      (taken : turn handler state conn = .error rest err) :
      Reached handler log (given ++ (errorResponse err).serialize) (.closing rest)
  | respond {log : Log} {given : Bytes} {conn rest : HttpConn} {state later : σ}
      {resp : HttpResponse} (reached : Reached handler log given (.parsing conn))
      (taken : turn handler state conn = .respond rest later resp) :
      Reached handler (log.answer rest.parser.req resp) (given ++ resp.serialize)
        (.answered rest resp)
  | close {log : Log} {given : Bytes} {conn : HttpConn} {resp : HttpResponse}
      (reached : Reached handler log given (.answered conn resp))
      (closing : (!conn.parser.req.keepAlive || !resp.keepAlive) = true) :
      Reached handler log given (.closing conn)
  | next {log : Log} {given : Bytes} {conn : HttpConn} {resp : HttpResponse}
      (reached : Reached handler log given (.answered conn resp))
      (staying : (!conn.parser.req.keepAlive || !resp.keepAlive) ≠ true) :
      Reached handler log given (.parsing { conn with parser := conn.parser.reset })

/-- Where a connection is says what its session has sent and what it will do. -/
theorem Reached.session {σ : Type} {handler : Option (Handler σ)} {log : Log} {given : Bytes}
    {phase : Phase} (reached : Reached handler log given phase) : log.At given phase := by
  induction reached with
  | start => exact Log.at_start
  | message _ data ih => exact ih.message data
  | needMore _ taken ih => exact ih.needMore taken
  | error _ taken ih => exact ih.error taken
  | respond _ taken ih => exact ih.respond taken
  | close _ closing ih => exact ih.close closing
  | next _ staying ih => exact ih.next staying

namespace Loop

variable {σ : Type} {handler : Option (Handler σ)}

/-! ## The loop with its records -/

/-- The loop, and a log for each connection id. -/
structure Watched (σ : Type) where
  loop : State σ
  logs : Nat → Log := fun _ => {}

def Control.about : Control → Option Nat
  | .parse call | .keepAlive call _ => some call.fd
  | .send _ caller | .flushWrite caller => some caller.fd
  | .shutdown fd => some fd
  | .poll | .undefined => none

namespace State

/-- The connection whose log the step continues. -/
def noted (s : State σ) : Action σ → Option Nat
  | .message fd _ => (s.conns.lookup fd).map (·.id)
  | .run _ _ =>
      match s.control with
      | .parse call => some call.id
      | _ => none
  | _ => none

/-- The log after the step: a message adds its chunk, and a turn of the loop of
`onMessage` the response of the handler, if there is one. -/
def note (handler : Option (Handler σ)) (s : State σ) (log : Log) : Action σ → Log
  | .message _ data => log.message data
  | .run _ _ =>
      match s.control with
      | .parse call =>
          match (s.access call).map (turn handler s.app) with
          | some (.respond rest _ resp) => log.answer rest.parser.req resp
          | _ => log
      | _ => log
  | _ => log

/-- The parser state of a connection, which is made when it is first needed. -/
def conn (s : State σ) (id : Nat) : HttpConn :=
  match s.shards.lookup id with
  | some slot => slot.conn
  | none => {}

end State

namespace Watched

def step (handler : Option (Handler σ)) (w : Watched σ) (action : Action σ) :
    Option (Watched σ × List Event) :=
  (Loop.step handler w.loop action).map fun (loop, events) =>
    ({ loop
       logs := match w.loop.noted action with
         | some id => Function.update w.logs id (w.loop.note handler (w.logs id) action)
         | none => w.logs }, events)

end Watched

/-! ## What is being done for a connection -/

/-- What has been reached when a call of `flushWrite` returns to its caller. -/
inductive Pending (handler : Option (Handler σ)) (s : State σ) (log : Log) (given : Bytes)
    (id : Nat) : Caller → Prop where
  | onMessage {call : Activation} {resp : HttpResponse} {conn : HttpConn}
      (sameId : call.id = id) (stored : s.access call = some conn)
      (reached : Reached handler log given (.answered conn resp)) :
      Pending handler s log given id (.onMessage call resp)
  | handleError {fd : Nat} {conn : HttpConn} (reached : Reached handler log given (.closing conn)) :
      Pending handler s log given id (.handleError fd)
  | handleEvent {fd : Nat} (reached : Reached handler log given (.waiting (s.conn id))) :
      Pending handler s log given id (.handleEvent fd)

/-- Where the loop is with the connection on `fd`. -/
inductive Doing (handler : Option (Handler σ)) (s : State σ) (log : Log) (fd : Nat)
    (entry : Entry) : Prop where
  | nothing (elsewhere : s.control.about ≠ some fd)
      (reached : Reached handler log entry.given (.waiting (s.conn entry.id)))
  | parsing {call : Activation} {conn : HttpConn} (control : s.control = .parse call)
      (sameFd : call.fd = fd) (sameId : call.id = entry.id)
      (stored : s.access call = some conn) (reached : Reached handler log entry.given (.parsing conn))
  | sending {data : Bytes} {caller : Caller} (control : s.control = .send data caller)
      (sameFd : caller.fd = fd)
      (pending : Pending handler s log (entry.given ++ data) entry.id caller)
  | flushing {caller : Caller} (control : s.control = .flushWrite caller)
      (sameFd : caller.fd = fd) (pending : Pending handler s log entry.given entry.id caller)
  | answered {call : Activation} {resp : HttpResponse} {conn : HttpConn}
      (control : s.control = .keepAlive call resp)
      (sameFd : call.fd = fd) (sameId : call.id = entry.id)
      (stored : s.access call = some conn)
      (reached : Reached handler log entry.given (.answered conn resp))
  | closing {conn : HttpConn} (control : s.control = .shutdown fd)
      (reached : Reached handler log entry.given (.closing conn))

namespace Doing

variable {s : State σ} {log : Log} {fd : Nat} {entry : Entry}

/-- For a connection that the callback is not about, nothing is done. -/
theorem waiting (doing : Doing handler s log fd entry) (elsewhere : s.control.about ≠ some fd) :
    Reached handler log entry.given (.waiting (s.conn entry.id)) := by
  cases doing with
  | nothing _ reached => exact reached
  | parsing control sameFd | sending control sameFd | flushing control sameFd
  | answered control sameFd =>
      rw [control, ← sameFd] at elsewhere
      exact absurd rfl elsewhere
  | closing control =>
      rw [control] at elsewhere
      exact absurd rfl elsewhere

/-- What a call on the connection is going to use is there. -/
theorem stored {call : Activation} (doing : Doing handler s log fd entry)
    (calling : s.control.call? = some call) (about : s.control.about = some fd) :
    ∃ conn, s.access call = some conn := by
  cases doing with
  | nothing elsewhere => exact absurd about elsewhere
  | parsing control _ _ stored | answered control _ _ stored =>
      rw [control] at calling
      cases calling
      exact ⟨_, stored⟩
  | sending control _ pending | flushing control _ pending =>
      rw [control] at calling
      cases pending with
      | onMessage _ stored =>
          cases calling
          exact ⟨_, stored⟩
      | handleError | handleEvent => cases calling
  | closing control =>
      rw [control] at calling
      cases calling

theorem of_parse {call : Activation} {conn : HttpConn} (doing : Doing handler s log call.fd entry)
    (control : s.control = .parse call) (stored : s.access call = some conn) :
    Reached handler log entry.given (.parsing conn) := by
  cases doing with
  | nothing elsewhere =>
      rw [control] at elsewhere
      exact absurd rfl elsewhere
  | parsing control' _ _ stored' reached =>
      cases control.symm.trans control'
      cases stored.symm.trans stored'
      exact reached
  | sending control' | flushing control' | answered control' | closing control' =>
      cases control.symm.trans control'

theorem of_send {data : Bytes} {caller : Caller} (doing : Doing handler s log caller.fd entry)
    (control : s.control = .send data caller) :
    Pending handler s log (entry.given ++ data) entry.id caller := by
  cases doing with
  | nothing elsewhere =>
      rw [control] at elsewhere
      exact absurd rfl elsewhere
  | sending control' _ pending =>
      cases control.symm.trans control'
      exact pending
  | parsing control' | flushing control' | answered control' | closing control' =>
      cases control.symm.trans control'

theorem of_flushWrite {caller : Caller} (doing : Doing handler s log caller.fd entry)
    (control : s.control = .flushWrite caller) :
    Pending handler s log entry.given entry.id caller := by
  cases doing with
  | nothing elsewhere =>
      rw [control] at elsewhere
      exact absurd rfl elsewhere
  | flushing control' _ pending =>
      cases control.symm.trans control'
      exact pending
  | parsing control' | sending control' | answered control' | closing control' =>
      cases control.symm.trans control'

theorem of_keepAlive {call : Activation} {resp : HttpResponse} {conn : HttpConn}
    (doing : Doing handler s log call.fd entry) (control : s.control = .keepAlive call resp)
    (stored : s.access call = some conn) : Reached handler log entry.given (.answered conn resp) := by
  cases doing with
  | nothing elsewhere =>
      rw [control] at elsewhere
      exact absurd rfl elsewhere
  | answered control' _ _ stored' reached =>
      cases control.symm.trans control'
      cases stored.symm.trans stored'
      exact reached
  | parsing control' | sending control' | flushing control' | closing control' =>
      cases control.symm.trans control'

theorem of_shutdown (doing : Doing handler s log fd entry) (control : s.control = .shutdown fd) :
    log.Ended entry.given := by
  cases doing with
  | nothing elsewhere =>
      rw [control] at elsewhere
      exact absurd rfl elsewhere
  | closing _ reached => exact reached.session.ended
  | parsing control' | sending control' | flushing control' | answered control' =>
      cases control.symm.trans control'

end Doing

/-- The connections and their logs: ids are not used twice, each connection is
a session as far as it has got, and those that were shut down have ended. -/
structure Follows (handler : Option (Handler σ)) (past : List Event) (w : Watched σ) : Prop where
  fresh : ∀ id, w.loop.nextConnId ≤ id → w.logs id = {}
  given : ∀ fd entry, w.loop.conns.lookup fd = some entry → entry.id < w.loop.nextConnId
  distinct : ∀ fd fd' entry entry', w.loop.conns.lookup fd = some entry →
    w.loop.conns.lookup fd' = some entry' → entry.id = entry'.id → fd = fd'
  held : ∀ call, w.loop.control.call? = some call →
    (∃ entry, w.loop.conns.lookup call.fd = some entry ∧ entry.id = call.id) ∨
      w.loop.access call = none
  doing : ∀ fd entry, w.loop.conns.lookup fd = some entry →
    Doing handler w.loop (w.logs entry.id) fd entry
  ended : ∀ id given accepted, .shutdown id given accepted ∈ past →
    id < w.loop.nextConnId ∧ (w.logs id).Ended given ∧
      ∀ fd entry, w.loop.conns.lookup fd = some entry → entry.id ≠ id

/-- Between callbacks every connection waits. -/
theorem Follows.idle {past : List Event} {w : Watched σ} {fd : Nat} {entry : Entry}
    (follows : Follows handler past w) (control : w.loop.control = .poll)
    (found : w.loop.conns.lookup fd = some entry) :
    Reached handler (w.logs entry.id) entry.given (.waiting (w.loop.conn entry.id)) := by
  refine (follows.doing fd entry found).waiting ?_
  rw [control]
  exact (Option.some_ne_none fd).symm

/-- A step that is about the connection on `fd`, and leaves the others alone. -/
structure Touches (w m : Watched σ) (fd id : Nat) : Prop where
  next : m.loop.nextConnId = w.loop.nextConnId
  open_ : ∃ entry, w.loop.conns.lookup fd = some entry ∧ entry.id = id
  sameId : ∀ entry, m.loop.conns.lookup fd = some entry → entry.id = id
  conns : ∀ fd', fd' ≠ fd → m.loop.conns.lookup fd' = w.loop.conns.lookup fd'
  shards : ∀ id', id' ≠ id → m.loop.shards.lookup id' = w.loop.shards.lookup id'
  logs : ∀ id', id' ≠ id → m.logs id' = w.logs id'
  before : ∀ fd', w.loop.control.about = some fd' → fd' = fd
  after : ∀ fd', m.loop.control.about = some fd' → fd' = fd

theorem conn_congr {s m : State σ} {id : Nat}
    (same : m.shards.lookup id = s.shards.lookup id) : m.conn id = s.conn id := by
  rw [State.conn, State.conn, same]

theorem Follows.touch {past : List Event} {w m : Watched σ} {fd id : Nat}
    (follows : Follows handler past w) (touches : Touches w m fd id)
    (held : ∀ call, m.loop.control.call? = some call →
      (∃ entry, m.loop.conns.lookup call.fd = some entry ∧ entry.id = call.id) ∨
        m.loop.access call = none)
    (doing : ∀ entry, m.loop.conns.lookup fd = some entry →
      Doing handler m.loop (m.logs entry.id) fd entry) : Follows handler past m := by
  obtain ⟨next, ⟨entry₀, found, rfl⟩, sameId, conns, shards, logs, before, after⟩ := touches
  -- every entry was there before, with the same id
  have old {fd' : Nat} {entry : Entry} (stored : m.loop.conns.lookup fd' = some entry) :
      ∃ entry', w.loop.conns.lookup fd' = some entry' ∧ entry'.id = entry.id := by
    by_cases here : fd' = fd
    · subst here
      exact ⟨entry₀, found, (sameId entry stored).symm⟩
    · exact ⟨entry, (conns fd' here).symm.trans stored, rfl⟩
  refine ⟨?_, ?_, ?_, held, ?_, ?_⟩
  · intro id late
    rw [next] at late
    have other : id ≠ entry₀.id :=
      Nat.ne_of_gt (Nat.lt_of_lt_of_le (follows.given fd entry₀ found) late)
    rw [logs id other]
    exact follows.fresh id late
  · intro fd' entry stored
    obtain ⟨entry', stored', same⟩ := old stored
    rw [next, ← same]
    exact follows.given fd' entry' stored'
  · intro fd₁ fd₂ entry₁ entry₂ stored₁ stored₂ same
    obtain ⟨first, old₁, id₁⟩ := old stored₁
    obtain ⟨second, old₂, id₂⟩ := old stored₂
    exact follows.distinct fd₁ fd₂ first second old₁ old₂ (id₁.trans (same.trans id₂.symm))
  · intro fd' entry stored
    by_cases here : fd' = fd
    · subst here
      exact doing entry stored
    · have stored' := (conns fd' here).symm.trans stored
      have other : entry.id ≠ entry₀.id := fun same =>
        here (follows.distinct fd' fd entry entry₀ stored' found same)
      have waiting := (follows.doing fd' entry stored').waiting fun about =>
        here (before fd' about)
      refine .nothing (fun about => here (after fd' about)) ?_
      rwa [logs _ other, conn_congr (shards _ other)]
  · intro id given accepted member
    obtain ⟨known, ended, closed⟩ := follows.ended id given accepted member
    have other : id ≠ entry₀.id := fun same => closed fd entry₀ found same.symm
    refine ⟨next ▸ known, logs id other ▸ ended, fun fd' entry stored => ?_⟩
    obtain ⟨entry', stored', same⟩ := old stored
    exact same ▸ closed fd' entry' stored'

/-- A step for a connection that is not there. -/
theorem Follows.absent {past : List Event} {w : Watched σ} {control : Control} {fd : Nat}
    (follows : Follows handler past w) (missing : w.loop.conns.lookup fd = none)
    (before : ∀ fd', w.loop.control.about = some fd' → fd' = fd)
    (after : ∀ fd', control.about = some fd' → fd' = fd)
    (call : ∀ call, control.call? = some call → w.loop.control.call? = some call) :
    Follows handler past { w with loop := { w.loop with control } } where
  fresh := follows.fresh
  given := follows.given
  distinct := follows.distinct
  held current same := follows.held current (call current same)
  doing fd' entry stored := by
    have other : fd' ≠ fd := by
      rintro rfl
      cases missing.symm.trans stored
    exact .nothing (fun about => other (after fd' about))
      ((follows.doing fd' entry stored).waiting fun about => other (before fd' about))
  ended := follows.ended

/-! ## The steps of the loop -/

/-- `flushWrite` is entered, goes on or returns. -/
theorem Follows.goOn {past : List Event} {w : Watched σ} {caller : Caller}
    {entry later : Entry} (follows : Follows handler past w)
    (found : w.loop.conns.lookup caller.fd = some entry) (sameId : later.id = entry.id)
    (before : ∀ fd, w.loop.control.about = some fd → fd = caller.fd)
    (pending : Pending handler w.loop (w.logs entry.id) later.given entry.id caller) :
    Follows handler past { w with loop := w.loop.goOn caller later } := by
  have inside : (w.loop.goOn caller later).conns.lookup caller.fd = some later :=
    AList.lookup_insert _
  have flushing : Pending handler (w.loop.goOn caller later) (w.logs later.id) later.given later.id
      caller := by
    rw [sameId]
    cases pending with
    | onMessage id stored reached => exact .onMessage id stored reached
    | handleError reached => exact .handleError reached
    | handleEvent reached => exact .handleEvent reached
  have touches : Touches w { w with loop := w.loop.goOn caller later } caller.fd entry.id := by
    refine ⟨rfl, ⟨entry, found, rfl⟩, ?_, fun fd other => AList.lookup_insert_ne other,
      fun _ _ => rfl, fun _ _ => rfl, before, ?_⟩
    · intro entry' stored
      cases inside.symm.trans stored
      exact sameId
    · intro fd about
      unfold State.goOn at about
      dsimp only at about
      split at about
      · exact (Option.some.inj about).symm
      · cases caller <;> cases about <;> rfl
  refine follows.touch touches ?_ ?_
  · intro call calling
    have same : ∃ resp, caller = .onMessage call resp := by
      unfold State.goOn at calling
      dsimp only at calling
      split at calling
      all_goals
        cases caller with
        | onMessage call' resp =>
            cases calling
            exact ⟨resp, rfl⟩
        | handleError fd => cases calling
        | handleEvent fd => cases calling
    obtain ⟨resp, rfl⟩ := same
    cases pending with
    | onMessage id => exact .inl ⟨later, inside, sameId.trans id.symm⟩
  · intro entry' stored
    cases inside.symm.trans stored
    by_cases running : later.path.flushing = true
    · exact .flushing (if_pos running) rfl flushing
    · have control : (w.loop.goOn caller later).control = caller.resume := if_neg running
      cases flushing with
      | onMessage id held reached => exact .answered control rfl id held reached
      | handleError reached => exact .closing control reached
      | handleEvent reached =>
          refine .nothing ?_ reached
          rw [control]
          exact nofun

/-- The connection is closed, and whoever was called goes on. -/
theorem Follows.close {past : List Event} {w : Watched σ} {fd : Nat} {entry : Entry}
    {control : Control} (follows : Follows handler past w)
    (found : w.loop.conns.lookup fd = some entry)
    (before : ∀ fd', w.loop.control.about = some fd' → fd' = fd)
    (after : ∀ fd', control.about = some fd' → fd' = fd)
    (calling : ∀ call, control.call? = some call → call.id = entry.id) :
    Follows handler past { w with loop := { w.loop.closeConnInLoop fd entry with control } } := by
  have outside : (w.loop.conns.erase fd).lookup fd = none := AList.lookup_erase _ _
  refine follows.touch (m := { w with
    loop := { w.loop.closeConnInLoop fd entry with control } }) ⟨rfl, ⟨entry, found, rfl⟩, ?_,
      fun fd' other => AList.lookup_erase_ne other, fun id other => AList.lookup_erase_ne other,
      fun _ _ => rfl, before, after⟩ ?_ ?_
  · intro entry' stored
    cases outside.symm.trans stored
  · intro call current
    refine .inr ?_
    rw [← access_drop w.loop call, calling call current]
    exact access_congr rfl call
  · intro entry' stored
    cases outside.symm.trans stored

/-- The parser state of the connection is stored again. -/
theorem Follows.store {past : List Event} {w m : Watched σ} {call : Activation}
    {entry : Entry} (follows : Follows handler past w)
    (found : w.loop.conns.lookup call.fd = some entry) (sameId : entry.id = call.id)
    (next : m.loop.nextConnId = w.loop.nextConnId) (conns : m.loop.conns = w.loop.conns)
    (shards : ∀ id, id ≠ call.id → m.loop.shards.lookup id = w.loop.shards.lookup id)
    (logs : ∀ id, id ≠ call.id → m.logs id = w.logs id)
    (before : ∀ fd, w.loop.control.about = some fd → fd = call.fd)
    (after : ∀ fd, m.loop.control.about = some fd → fd = call.fd)
    (calling : ∀ call', m.loop.control.call? = some call' → call' = call)
    (doing : Doing handler m.loop (m.logs call.id) call.fd entry) : Follows handler past m := by
  have same {entry' : Entry} (stored : m.loop.conns.lookup call.fd = some entry') :
      entry' = entry := by
    rw [conns, found] at stored
    exact (Option.some.inj stored).symm
  refine follows.touch ⟨next, ⟨entry, found, sameId⟩, fun entry' stored => same stored ▸ sameId,
    fun fd _ => congrArg _ conns, shards, logs, before, after⟩ ?_ ?_
  · intro call' current
    cases calling call' current
    exact .inl ⟨entry, conns ▸ found, sameId⟩
  · intro entry' stored
    cases same stored
    exact sameId ▸ doing

theorem access_findOrCreate (s : State σ) (fd id : Nat) :
    (s.findOrCreate id).1.access { fd, id, object := (s.findOrCreate id).2 } =
      some (s.conn id) := by
  unfold State.findOrCreate State.conn
  cases stored : s.shards.lookup id with
  | some slot => simp [State.access, stored]
  | none => simp [State.access]

theorem lookup_findOrCreate_of_ne (s : State σ) {id id' : Nat} (other : id' ≠ id) :
    (s.findOrCreate id).1.shards.lookup id' = s.shards.lookup id' := by
  unfold State.findOrCreate
  split
  · rfl
  · exact AList.lookup_insert_ne other

theorem findOrCreate_fields (s : State σ) (id : Nat) :
    (s.findOrCreate id).1.conns = s.conns ∧
      (s.findOrCreate id).1.nextConnId = s.nextConnId := by
  unfold State.findOrCreate
  split <;> exact ⟨rfl, rfl⟩

theorem conn_store (s : State σ) (call : Activation) (conn : HttpConn) :
    (s.store call conn).conn call.id = conn := by
  simp [State.conn, State.store]

theorem touch_of_access {s : State σ} {call : Activation} {conn : HttpConn}
    (stored : s.access call = some conn) (next : HttpConn → State σ) :
    s.touch call next = (next conn, [.access call true]) := by
  rw [State.touch, stored]

theorem touch_of_none {s : State σ} {call : Activation} (missing : s.access call = none)
    (next : HttpConn → State σ) :
    s.touch call next = ({ s with control := .undefined }, [.access call false]) := by
  rw [State.touch, missing]

/-- Events that are not about the end of a connection. -/
theorem Follows.events {past more : List Event} {w : Watched σ} (follows : Follows handler past w)
    (none : ∀ id given accepted, .shutdown id given accepted ∉ more) :
    Follows handler (past ++ more) w :=
  { follows with
    ended := fun id given accepted member =>
      follows.ended id given accepted
        ((List.mem_append.mp member).resolve_right (none id given accepted)) }

theorem not_shutdown_of_access {call : Activation} {held : Bool} (id : Nat)
    (given accepted : Bytes) : Event.shutdown id given accepted ∉ [Event.access call held] :=
  fun member => by cases List.mem_singleton.mp member

theorem Follows.message {past : List Event} {w : Watched σ} {fd : Nat} {entry : Entry}
    (follows : Follows handler past w) (control : w.loop.control = .poll)
    (found : w.loop.conns.lookup fd = some entry) (data : Bytes) :
    let s := (w.loop.findOrCreate entry.id).1
    let call : Activation := { fd, id := entry.id, object := (w.loop.findOrCreate entry.id).2 }
    let conn := w.loop.conn entry.id
    let log := w.logs entry.id
    Follows handler past
      { loop := { s.store call { conn with inBuf := conn.inBuf.append data } with
          control := .parse call }
        logs := Function.update w.logs entry.id (log.message data) } := by
  intro s call conn log
  obtain ⟨conns, next⟩ := findOrCreate_fields w.loop entry.id
  have poll : w.loop.control.about = none := by
    rw [control]
    rfl
  have waiting := follows.idle control found
  refine follows.store (show w.loop.conns.lookup call.fd = some entry from found) rfl next conns ?_ ?_ ?_ ?_ ?_ ?_
  · intro id other
    exact (AList.lookup_insert_ne other).trans (lookup_findOrCreate_of_ne w.loop other)
  · intro id other
    exact Function.update_of_ne other _ _
  · intro fd' about
    rw [poll] at about
    cases about
  · intro fd' about
    exact (Option.some.inj about).symm
  · intro call' calling
    exact (Option.some.inj calling).symm
  · refine .parsing rfl rfl rfl (access_store s call _) ?_
    change Reached handler (Function.update w.logs entry.id _ entry.id) _ _
    rw [Function.update_self]
    exact waiting.message data

theorem Follows.connected {past : List Event} {w : Watched σ} {fd id : Nat} {now : Int}
    (follows : Follows handler past w) (control : w.loop.control = .poll)
    (new : w.loop.nextConnId ≤ id) :
    Follows handler past { w with
      loop := { w.loop with
        conns := w.loop.conns.insert fd { id, path := WritePath.start now }
        nextConnId := id + 1 }.drop id } := by
  have inside : (w.loop.conns.insert fd
      { id, path := WritePath.start now }).lookup fd =
        some { id, path := WritePath.start now } := AList.lookup_insert _
  have old {fd' : Nat} {entry : Entry} (other : fd' ≠ fd)
      (stored : (w.loop.conns.insert fd { id, path := WritePath.start now }).lookup fd' =
        some entry) : w.loop.conns.lookup fd' = some entry :=
    (AList.lookup_insert_ne other).symm.trans stored
  have before {fd' : Nat} {entry : Entry} (stored : w.loop.conns.lookup fd' = some entry) :
      entry.id < id := Nat.lt_of_lt_of_le (follows.given fd' entry stored) new
  have poll : w.loop.control.about = none := by
    rw [control]
    rfl
  refine ⟨?_, ?_, ?_, ?_, ?_, ?_⟩
  · intro id' late
    exact follows.fresh id' (Nat.le_trans new (Nat.le_of_lt late))
  · intro fd' entry stored
    by_cases here : fd' = fd
    · subst here
      cases inside.symm.trans stored
      exact Nat.lt_succ_self id
    · exact Nat.lt_succ_of_lt (before (old here stored))
  · intro fd₁ fd₂ entry₁ entry₂ stored₁ stored₂ same
    by_cases first : fd₁ = fd <;> by_cases second : fd₂ = fd
    · exact first.trans second.symm
    · subst first
      cases inside.symm.trans stored₁
      exact absurd same.symm (Nat.ne_of_lt (before (old second stored₂)))
    · subst second
      cases inside.symm.trans stored₂
      exact absurd same (Nat.ne_of_lt (before (old first stored₁)))
    · exact follows.distinct _ _ _ _ (old first stored₁) (old second stored₂) same
  · intro call calling
    change w.loop.control.call? = some call at calling
    rw [control] at calling
    cases calling
  · intro fd' entry stored
    refine .nothing (by rw [State.drop, poll]; exact (Option.some_ne_none fd').symm) ?_
    by_cases here : fd' = fd
    · subst here
      cases inside.symm.trans stored
      have empty : (w.loop.shards.erase id).lookup id = none := AList.lookup_erase _ _
      rw [follows.fresh id new, State.conn, State.drop, empty]
      exact .start
    · have stored' := old here stored
      have waiting := follows.idle control stored'
      have kept : (w.loop.shards.erase id).lookup entry.id = w.loop.shards.lookup entry.id :=
        AList.lookup_erase_ne (Nat.ne_of_lt (before stored'))
      rw [State.conn] at waiting ⊢
      rwa [State.drop, kept]
  · intro id' given accepted member
    obtain ⟨known, ended, closed⟩ := follows.ended id' given accepted member
    refine ⟨Nat.lt_succ_of_lt (Nat.lt_of_lt_of_le known new), ended, fun fd' entry stored => ?_⟩
    by_cases here : fd' = fd
    · subst here
      cases inside.symm.trans stored
      exact Nat.ne_of_gt (Nat.lt_of_lt_of_le known new)
    · exact closed fd' entry (old here stored)

section

variable {past : List Event} {w : Watched σ}

/-- A turn of the loop of `onMessage`. -/
theorem Follows.parse {call : Activation} {conn : HttpConn} {entry : Entry}
    (follows : Follows handler past w) (control : w.loop.control = .parse call)
    (found : w.loop.conns.lookup call.fd = some entry) (sameId : entry.id = call.id)
    (stored : w.loop.access call = some conn) (now : Int) :
    Follows handler past
      { loop := parseStep handler w.loop call conn
        logs := Function.update w.logs call.id
          (w.loop.note handler (w.logs call.id) (.run none now)) } := by
  have reached := (follows.doing call.fd entry found).of_parse control stored
  rw [sameId] at reached
  have before (fd : Nat) (about : w.loop.control.about = some fd) : fd = call.fd := by
    rw [control] at about
    exact (Option.some.inj about).symm
  have logs (id : Nat) (other : id ≠ call.id) :
      Function.update w.logs call.id (w.loop.note handler (w.logs call.id) (.run none now)) id =
        w.logs id := Function.update_of_ne other _ _
  have others (later : HttpConn) (id : Nat) (other : id ≠ call.id) :
      (w.loop.store call later).shards.lookup id = w.loop.shards.lookup id :=
    AList.lookup_insert_ne other
  unfold parseStep
  unfold State.note at logs ⊢
  simp only [control, stored, Option.map_some] at logs ⊢
  cases taken : turn handler w.loop.app conn with
  | needMore rest =>
      simp only [taken] at logs ⊢
      refine follows.store found sameId rfl rfl (others rest) logs before nofun nofun ?_
      have kept : State.conn { w.loop.store call rest with control := .poll } call.id = rest :=
        conn_store w.loop call rest
      refine .nothing nofun ?_
      change Reached handler (Function.update w.logs call.id _ call.id) _ (.waiting
        (State.conn { w.loop.store call rest with control := .poll } entry.id))
      rw [Function.update_self, sameId, kept]
      exact reached.needMore taken
  | error rest err =>
      simp only [taken] at logs ⊢
      refine follows.store found sameId rfl rfl (others rest) logs before
        (fun fd about => (Option.some.inj about).symm) nofun ?_
      have failed := reached.error taken
      rw [← Function.update_self call.id (w.logs call.id) w.logs] at failed
      exact .sending rfl rfl (.handleError failed)
  | respond rest later resp =>
      simp only [taken] at logs ⊢
      refine follows.store found sameId rfl rfl (others rest) logs before
        (fun fd about => (Option.some.inj about).symm)
        (fun call' calling => (Option.some.inj calling).symm) ?_
      refine .sending rfl rfl (.onMessage sameId.symm (access_store w.loop call rest) ?_)
      change Reached handler (Function.update w.logs call.id _ call.id) _ _
      rw [Function.update_self]
      exact reached.respond taken

/-- `keep_alive` is tested, and the next request is parsed. -/
theorem Follows.keepAlive {call : Activation} {resp : HttpResponse} {conn : HttpConn}
    {entry : Entry} (follows : Follows handler past w) (control : w.loop.control = .keepAlive call resp)
    (found : w.loop.conns.lookup call.fd = some entry) (sameId : entry.id = call.id)
    (stored : w.loop.access call = some conn) :
    Follows handler past { w with loop := keepAliveStep w.loop call resp conn } := by
  have reached := (follows.doing call.fd entry found).of_keepAlive control stored
  have before (fd : Nat) (about : w.loop.control.about = some fd) : fd = call.fd := by
    rw [control] at about
    exact (Option.some.inj about).symm
  unfold keepAliveStep
  split
  · rename_i closing
    refine follows.store found sameId rfl rfl (fun _ _ => rfl) (fun _ _ => rfl) before
      (fun fd about => (Option.some.inj about).symm) nofun ?_
    exact .closing rfl (sameId ▸ reached.close closing)
  · rename_i staying
    refine follows.store found sameId rfl rfl (fun id other => AList.lookup_insert_ne other)
      (fun _ _ => rfl) before (fun fd about => (Option.some.inj about).symm)
      (fun call' calling => (Option.some.inj calling).symm) ?_
    exact .parsing rfl rfl sameId.symm (access_store w.loop call _)
      (sameId ▸ reached.next staying)

/-- `flushWrite` gets a result. -/
theorem Follows.flush {caller : Caller} {result : Option SendResult} {m : State σ}
    (follows : Follows handler past w) (control : w.loop.control = .flushWrite caller)
    (flushed : flushStep w.loop caller result = some m) :
    Follows handler past { w with loop := m } := by
  have before (fd : Nat) (about : w.loop.control.about = some fd) : fd = caller.fd := by
    rw [control] at about
    exact (Option.some.inj about).symm
  obtain ⟨entry, found, continued⟩ := Option.bind_eq_some_iff.mp flushed
  have pending := (follows.doing caller.fd entry found).of_flushWrite control
  split at continued
  · split at continued
    · cases continued
    · cases continued
      refine follows.close found before ?_ ?_
      · intro fd about
        cases caller <;> cases about <;> rfl
      · intro call calling
        cases pending with
        | onMessage sameId =>
            cases calling
            exact sameId
        | handleError | handleEvent => cases calling
  · obtain ⟨⟨path, _⟩, _, rfl⟩ := Option.map_eq_some_iff.mp continued
    exact follows.goOn found rfl before pending

/-- The connection is shut down, and its session has ended. -/
theorem Follows.shutdown {fd : Nat} {m : State σ} {events : List Event}
    (follows : Follows handler past w) (control : w.loop.control = .shutdown fd)
    (closed : shutdownStep w.loop fd = (m, events)) :
    Follows handler (past ++ events) { w with loop := m } := by
  have before (fd' : Nat) (about : w.loop.control.about = some fd') : fd' = fd := by
    rw [control] at about
    exact (Option.some.inj about).symm
  unfold shutdownStep at closed
  split at closed
  · rename_i missing
    cases closed
    rw [List.append_nil]
    exact follows.absent missing before nofun nofun
  · rename_i entry found
    cases closed
    have after : Follows handler past
        { w with loop := { w.loop.closeConnInLoop fd entry with control := .poll } } :=
      follows.close found before nofun nofun
    refine { after with ended := ?_ }
    intro id given accepted member
    rcases List.mem_append.mp member with old | new
    · exact after.ended id given accepted old
    · cases List.mem_singleton.mp new
      refine ⟨follows.given fd entry found,
        (follows.doing fd entry found).of_shutdown control, fun fd' entry' stored same => ?_⟩
      have other : fd' ≠ fd := by
        rintro rfl
        cases (AList.lookup_erase _ _).symm.trans stored
      exact other (follows.distinct fd' fd entry' entry
        ((AList.lookup_erase_ne other).symm.trans stored) found same)

/-- `send` is called, for a connection that may be gone. -/
theorem Follows.send {data : Bytes} {caller : Caller} {now : Int} {m : State σ}
    (follows : Follows handler past w) (control : w.loop.control = .send data caller)
    (sent : sendStep w.loop data caller now = some m) : Follows handler past { w with loop := m } := by
  have before (fd : Nat) (about : w.loop.control.about = some fd) : fd = caller.fd := by
    rw [control] at about
    exact (Option.some.inj about).symm
  unfold sendStep at sent
  split at sent
  · rename_i missing
    cases sent
    refine follows.absent missing before ?_ ?_
    · intro fd about
      cases caller <;> cases about <;> rfl
    · intro call calling
      rw [control]
      cases caller <;> cases calling
      rfl
  · rename_i entry found
    obtain ⟨⟨path, _⟩, _, rfl⟩ := Option.map_eq_some_iff.mp sent
    exact follows.goOn found rfl before
      ((follows.doing caller.fd entry found).of_send control)

/-- The pointer of `onMessage` is used, for a connection that may be gone. -/
theorem Follows.touched {call : Activation} {next : HttpConn → State σ} {m : State σ}
    {events : List Event} {logs : Nat → Log} (follows : Follows handler past w)
    (calling : w.loop.control.call? = some call)
    (about : w.loop.control.about = some call.fd)
    (touched : w.loop.touch call next = (m, events))
    (missing : w.loop.access call = none → logs = w.logs)
    (stored : ∀ conn entry, w.loop.access call = some conn →
      w.loop.conns.lookup call.fd = some entry → entry.id = call.id →
        Follows handler past { loop := next conn, logs }) :
    Follows handler (past ++ events) { loop := m, logs } := by
  cases found : w.loop.access call with
  | some conn =>
      rw [touch_of_access found] at touched
      cases touched
      obtain ⟨entry, live, sameId⟩ := (follows.held call calling).resolve_right (by
        rw [found]
        exact nofun)
      exact (stored conn entry found live sameId).events not_shutdown_of_access
  | none =>
      rw [touch_of_none found] at touched
      cases touched
      rw [missing found]
      refine Follows.events ?_ not_shutdown_of_access
      have absent : w.loop.conns.lookup call.fd = none := by
        cases live : w.loop.conns.lookup call.fd with
        | none => rfl
        | some entry =>
            obtain ⟨conn, stored⟩ := (follows.doing call.fd entry live).stored calling about
            cases found.symm.trans stored
      refine follows.absent absent (fun fd here => ?_) nofun nofun
      exact Option.some.inj (here.symm.trans about)

/-- Another loop changes the application. -/
theorem Follows.elsewhere (follows : Follows handler past w) (app : σ) :
    Follows handler past { w with loop := { w.loop with app } } where
  fresh := follows.fresh
  given := follows.given
  distinct := follows.distinct
  held := follows.held
  doing fd entry stored := by
    cases follows.doing fd entry stored with
    | nothing elsewhere reached => exact .nothing elsewhere reached
    | parsing control sameFd sameId held reached =>
        exact .parsing control sameFd sameId held reached
    | sending control sameFd pending =>
        refine .sending control sameFd ?_
        cases pending with
        | onMessage id held reached => exact .onMessage id held reached
        | handleError reached => exact .handleError reached
        | handleEvent reached => exact .handleEvent reached
    | flushing control sameFd pending =>
        refine .flushing control sameFd ?_
        cases pending with
        | onMessage id held reached => exact .onMessage id held reached
        | handleError reached => exact .handleError reached
        | handleEvent reached => exact .handleEvent reached
    | answered control sameFd sameId held reached =>
        exact .answered control sameFd sameId held reached
    | closing control reached => exact .closing control reached
  ended := follows.ended

theorem Follows.step {m : Watched σ} {action : Action σ} {events : List Event}
    (follows : Follows handler past w) (stepped : w.step handler action = some (m, events)) :
    Follows handler (past ++ events) m := by
  obtain ⟨⟨loop, _⟩, taken, result⟩ := Option.map_eq_some_iff.mp stepped
  cases result
  have quiet (result : Option SendResult) (now : Int)
      (other : ∀ call, w.loop.control ≠ .parse call) :
      w.loop.noted (.run result now) = none := by
    unfold State.noted
    dsimp only
    split
    · rename_i call control
      exact absurd control (other call)
    · rfl
  unfold Loop.step at taken
  split at taken
  · cases taken
    rw [List.append_nil]
    exact follows.elsewhere _
  · rename_i control
    split at taken
    · rename_i new
      cases taken
      rw [List.append_nil]
      exact follows.connected control new.2
    · cases taken
  · rename_i fd data control
    obtain ⟨entry, found, touched⟩ := Option.map_eq_some_iff.mp taken
    have noted : w.loop.noted (.message fd data) = some entry.id := by
      rw [State.noted, found]
      rfl
    have stored := access_findOrCreate w.loop fd entry.id
    cases (touch_of_access stored _).symm.trans touched
    simp only [noted]
    exact (follows.message control found data).events not_shutdown_of_access
  · rename_i fd control
    obtain ⟨entry, found, continued⟩ := Option.bind_eq_some_iff.mp taken
    obtain ⟨⟨path, _⟩, _, result⟩ := Option.map_eq_some_iff.mp continued
    cases result
    rw [List.append_nil]
    have poll : w.loop.control.about = none := by rw [control, Control.about]
    refine follows.goOn found rfl (fun fd' about => ?_) (.handleEvent (follows.idle control found))
    cases poll.symm.trans about
  · rename_i fd control
    obtain ⟨entry, found, result⟩ := Option.map_eq_some_iff.mp taken
    cases result
    rw [List.append_nil]
    have closed : Follows handler past
        { w with loop := { w.loop.closeConnInLoop fd entry with control := .poll } } :=
      follows.close found (fun fd' about => by
        rw [control] at about
        cases about) nofun nofun
    rw [← control] at closed
    exact closed
  · rename_i call now control
    have noted : w.loop.noted (.run none now) = some call.id := by
      unfold State.noted
      simp only [control]
    simp only [noted]
    refine follows.touched (by rw [control]; rfl) (by rw [control]; rfl)
      (Option.some.inj taken) ?_ fun conn entry stored found sameId =>
        follows.parse control found sameId stored now
    intro missing
    have same : w.loop.note handler (w.logs call.id) (.run none now) = w.logs call.id := by
      unfold State.note
      simp only [control, missing, Option.map_none]
    rw [same, Function.update_eq_self]
  · rename_i data caller now control
    obtain ⟨m, sent, result⟩ := Option.map_eq_some_iff.mp taken
    cases result
    rw [List.append_nil]
    simp only [quiet none now (by rw [control]; exact nofun)]
    exact follows.send control sent
  · rename_i caller result now control
    obtain ⟨m, flushed, same⟩ := Option.map_eq_some_iff.mp taken
    cases same
    rw [List.append_nil]
    simp only [quiet result now (by rw [control]; exact nofun)]
    exact follows.flush control flushed
  · rename_i call resp now control
    simp only [quiet none now (by rw [control]; exact nofun)]
    refine follows.touched (by rw [control]; rfl) (by rw [control]; rfl)
      (Option.some.inj taken) (fun _ => rfl) fun conn entry stored found sameId => ?_
    exact follows.keepAlive control found sameId stored
  · rename_i fd now control
    simp only [quiet none now (by rw [control]; exact nofun)]
    exact follows.shutdown control (Option.some.inj taken)
  · cases taken

end

/-! ## Every run -/

theorem follows_start (app : σ) : Follows handler [] { loop := { app } } where
  fresh _ _ := rfl
  given fd _ found := by cases (AList.lookup_empty fd).symm.trans found
  distinct fd _ _ _ found := by cases (AList.lookup_empty fd).symm.trans found
  held _ calling := by cases calling
  doing fd _ found := by cases (AList.lookup_empty fd).symm.trans found
  ended _ _ _ member := absurd member List.not_mem_nil

theorem follows_run {handler : Option (Handler σ)} {app : σ} {actions : List (Action σ)}
    {w : Watched σ} {trace : List (Action σ × List Event)}
    (ran : Machine.run (Watched.step handler) { loop := { app } } actions = some (w, trace)) :
    Follows handler (events trace) w := by
  refine Machine.run_induct (motive := fun trace w => Follows handler (events trace) w) ?_
    (follows_start app) ran
  intro past w action m output follows stepped
  have grown : events (past ++ [(action, output)]) = events past ++ output := by
    simp [events]
  rw [grown]
  exact follows.step stepped

/-- In every run, between callbacks, each connection is as if it were the only
one and the handler gave the recorded responses: `send` has been called with
the same bytes, and the parser and its buffer are the same.  And when
`HttpServer` closes a connection, all that the session sends has been sent.

A descriptor is taken to stand for its connection: the reads for a connection
that is closed and the sends to another one, which `TcpServer.Identity` shows to
be possible, are not among the actions of this loop. -/
theorem run_sessions (handler : Option (Handler σ)) (app : σ) (actions : List (Action σ))
    (w : Watched σ) (trace : List (Action σ × List Event))
    (ran : Machine.run (Watched.step handler) { loop := { app } } actions = some (w, trace)) :
    (w.loop.control = .poll → ∀ fd entry, w.loop.conns.lookup fd = some entry →
      let session := (w.logs entry.id).session []
      session.shut = false ∧ session.state = [] ∧ sends session.calls = entry.given ∧
        session.conn = w.loop.conn entry.id) ∧
      ∀ id given accepted, .shutdown id given accepted ∈ events trace →
        let session := (w.logs id).session []
        session.shut = true ∧ session.state = [] ∧ sends session.calls = given := by
  have follows := follows_run ran
  constructor
  · intro control fd entry found
    obtain ⟨past, sent, same⟩ := (follows.idle control found).session
    rw [same]
    exact ⟨rfl, rfl, sent, rfl⟩
  · intro id given accepted member
    exact (follows.ended id given accepted member).2.1

def Control.polls : Control → Bool
  | .poll => true
  | _ => false

theorem Control.eq_poll {control : Control} (polls : control.polls = true) :
    control = .poll := by
  cases control with
  | poll => rfl
  | _ => cases polls

/-- Two connections.  The first one has two requests in three chunks, between
which the second one has one and the application changes. -/
def twoSessions : List (Action Nat) :=
  let answer : List (Action Nat) :=
    [.run none 0, .run none 0, .run (some (.sent 40)) 0, .run (some .again) 0, .run none 0,
      .run none 0]
  [.connected 5 1 0, .message 5 (lit "GET / HTTP/1.1\r\n"), .run none 0, .connected 6 2 0,
    .message 6 (lit "GET / HTTP/1.0\r\n\r\n")] ++ answer.dropLast ++ [.elsewhere 7, .run none 0] ++
    [.message 5 (lit "\r\nGET / HT")] ++ answer ++
    [.message 5 (lit "TP/1.1\r\n\r\n"), .run none 0, .run none 0, .run none 0, .run none 0]

/-- A handler that numbers its responses. -/
def numbered : Handler Nat := fun count _ resp =>
  (count + 1, { resp with body := decimal count })

theorem run_sessions_twoSessions :
    ∃ w trace, Machine.run (Watched.step (some numbered)) { loop := { app := 0 } } twoSessions =
        some (w, trace) ∧
      (w.logs 1).replies.map (·.body) = [lit "7", lit "8"] ∧
      (∀ fd entry, w.loop.conns.lookup fd = some entry →
        let session := (w.logs entry.id).session []
        session.shut = false ∧ session.state = [] ∧ sends session.calls = entry.given ∧
          session.conn = w.loop.conn entry.id) ∧
      ∀ id given accepted, .shutdown id given accepted ∈ events trace →
        let session := (w.logs id).session []
        session.shut = true ∧ session.state = [] ∧ sends session.calls = given := by
  have ends : ((Machine.run (Watched.step (some numbered)) { loop := { app := 0 } }
      twoSessions).any fun r => decide (r.1.loop.control.polls = true ∧
        (r.1.logs 1).replies.map (·.body) = [lit "7", lit "8"])) = true := by
    decide +kernel
  obtain ⟨⟨w, trace⟩, ran, ends⟩ := (Option.any_eq_true _ _).mp ends
  obtain ⟨polls, numbers⟩ := of_decide_eq_true ends
  obtain ⟨live, ended⟩ := run_sessions (some numbered) 0 twoSessions w trace ran
  exact ⟨w, trace, ran, numbers, live (Control.eq_poll polls), ended⟩

end Loop

end HttpServer

end MiniNet
