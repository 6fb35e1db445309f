import MiniNet.TcpServer.Placement

/-!
# Closing idle connections

`sweepIdle` decides on the base loop which connections are idle, and counts
them; each is closed later, on its own loop.  What has happened to a connection
in between does not enter into it.  The sweep is right as long as nothing
happens to a connection while its idle close is under way.
-/

namespace MiniNet

open Bytes Threads

namespace TcpServer

variable {ι : Type}

/-- The server with the time, and the connections that were closed for the idle
reason, each with the time since its last activity. -/
structure Sweeping (ι : Type) where
  server : State ι := {}
  clock : Int
  idleClosed : List (Conn ι × Int) := []

/-! ## Idle closes under way -/

/-- Whether the input is the data that a read returns. -/
def Input.isData : Input ι → Bool
  | .data _ => true
  | _ => false

/-- An idle close that `closed_idle_` includes. -/
def Task.counted : Task ι → Nat
  | .closeConnInLoop _ reason => if reason = .idle then 1 else 0
  | _ => 0

def Frame.counted : Frame ι → Nat
  | .runInLoop _ task => task.counted
  | .closeConn _ reason | .closeConnInLoop _ reason => if reason = .idle then 1 else 0
  | _ => 0

/-- The frame has nothing to do with an idle close. -/
def Frame.Plain : Frame ι → Prop
  | .runInLoop _ (.closeConnInLoop _ reason) | .closeConn _ reason
  | .closeConnInLoop _ reason => reason ≠ .idle
  | .sweepIdle | .closeExpired _ => False
  | _ => True

theorem Leads.plain {s : State ι} {t : ι} {input : Input ι} {f g : Frame ι}
    (led : Leads s t input f g) (plain : f.Plain) :
    g.Plain := by
  cases led with
  | inLoop task =>
      cases task with
      | closeConnInLoop => exact plain
      | addConnection | appendAndFlush => trivial
  | callback which conn =>
      cases which with
      | close => exact fun idle => (by cases idle)
      | read | write => trivial
  | readClosed conn reason ended => exact ended
  | shutdown | writeError => exact fun idle => (by cases idle)
  | closeHere | closeThere => exact plain
  | swept | expired | expiredOn => exact absurd plain id
  | _ => trivial

/-- A weight of the idle closes, the same for a task where it is queued and where
it runs. -/
structure IdleWeight (w : Frame ι → Nat) (v : Task ι → Nat) : Prop where
  plain : ∀ f, f.Plain → w f = 0
  queued : ∀ loop task, w (.runInLoop loop task) = v task
  running : ∀ task, w task.frame = v task
  closing : ∀ conn reason, w (.closeConn conn reason) = w (.closeConnInLoop conn reason)

theorem idleWeight_counted : IdleWeight (@Frame.counted ι) Task.counted where
  plain f plain := by
    cases f with
    | runInLoop loop task =>
        cases task with
        | closeConnInLoop => exact if_neg plain
        | addConnection | appendAndFlush => rfl
    | closeConn | closeConnInLoop => exact if_neg plain
    | closeExpired | sweepIdle => exact absurd plain id
    | _ => rfl
  queued _ _ := rfl
  running task := by cases task <;> rfl
  closing _ _ := rfl

section

variable [DecidableEq ι]

/-- Whether the task is an idle close of the connection. -/
def Task.idles (conn : Conn ι) : Task ι → Nat
  | .closeConnInLoop other reason => if reason = .idle then same conn other else 0
  | _ => 0

/-- How often the frame is going to close the connection for the idle reason. -/
def Frame.idles (conn : Conn ι) : Frame ι → Nat
  | .runInLoop _ task => task.idles conn
  | .closeConn other reason | .closeConnInLoop other reason =>
      if reason = .idle then same conn other else 0
  | .closeExpired conns => conns.count conn
  | _ => 0

theorem idleWeight_idles (conn : Conn ι) : IdleWeight (Frame.idles conn) (Task.idles conn) where
  plain f plain := by
    cases f with
    | runInLoop loop task =>
        cases task with
        | closeConnInLoop => exact if_neg plain
        | addConnection | appendAndFlush => rfl
    | closeConn | closeConnInLoop => exact if_neg plain
    | closeExpired | sweepIdle => exact absurd plain id
    | _ => rfl
  queued _ _ := rfl
  running task := by cases task <;> rfl
  closing _ _ := rfl

theorem Task.counted_eq_zero {task : Task ι} (none : ∀ conn, task.idles conn = 0) :
    task.counted = 0 := by
  cases task with
  | closeConnInLoop conn reason =>
      refine if_neg fun idle => ?_
      have counted := none conn
      rw [Task.idles, if_pos idle, same_self] at counted
      cases counted
  | _ => rfl

theorem Frame.counted_eq_zero {f : Frame ι} (none : ∀ conn, f.idles conn = 0) :
    f.counted = 0 := by
  cases f with
  | runInLoop loop task => exact Task.counted_eq_zero none
  | closeConn conn reason | closeConnInLoop conn reason =>
      refine if_neg fun idle => ?_
      have counted := none conn
      rw [Frame.idles, if_pos idle, same_self] at counted
      cases counted
  | _ => rfl

theorem lastActive_setState (shared : Shared ι) (conn other : Conn ι) {state : ConnState}
    (kept : conn = other → state.lastActiveMs = (shared.state other).lastActiveMs) :
    ((shared.setState other state).state conn).lastActiveMs =
      (shared.state conn).lastActiveMs := by
  by_cases same : conn = other
  · subst same
    simp only [Shared.setState, Function.update_self]
    exact kept rfl
  · simp only [Shared.setState, Function.update_of_ne same]

theorem lastActive_flush {shared : Shared ι} {other : Conn ι} {effect : Effect ι}
    {result : Option SendResult}
    (done : execFlush shared other result = some effect) (conn : Conn ι) :
    (effect.shared.state conn).lastActiveMs = (shared.state conn).lastActiveMs := by
  obtain ⟨⟨state, flush⟩, turned, continued⟩ := Option.bind_eq_some_iff.mp done
  have kept : state.lastActiveMs = (shared.state other).lastActiveMs := by
    rcases ConnState.flushTurn_cases turned with ⟨_, _, rfl, _⟩ | ⟨_, rest⟩
    · unfold ConnState.flushed
      split <;> rfl
    · rcases rest with ⟨n, _, _, _, rfl, _⟩ | ⟨_, rfl, _⟩ | ⟨_, rfl, _⟩ | ⟨_, rfl, _⟩
      · rfl
      · unfold ConnState.awaitWritable
        split <;> rfl
      · rfl
      · rfl
  have later := lastActive_setState shared conn other fun _ => kept
  dsimp only at continued
  split at continued <;> cases continued <;> exact later

theorem lastActive_read {shared : Shared ι} {other : Conn ι} {now : Int}
    {input : Input ι} {effect : Effect ι}
    (done : execRead shared other now input = some effect) (conn : Conn ι) :
    (effect.shared.state conn).lastActiveMs = (shared.state conn).lastActiveMs ∨
      (conn = other ∧ ∃ bytes, input = .data bytes) := by
  by_cases same : conn = other
  · unfold execRead at done
    split at done
    case h_1 => exact .inr ⟨same, _, rfl⟩
    all_goals (try split at done) <;> cases done <;> exact .inl rfl
  · unfold execRead at done
    split at done
    · split at done
      · split at done <;> cases done
        exact .inl (congrArg ConnState.lastActiveMs (Function.update_of_ne same _ _))
      · cases done
    all_goals (try split at done) <;> cases done <;> exact .inl rfl

variable [Fintype ι]

/-- The idle closes of the connection that are queued or in progress. -/
def underWay (conn : Conn ι) (pool : Pool ι (Frame ι) (Task ι)) : Nat :=
  weight (Frame.idles conn) (Task.idles conn) pool

namespace Sweeping

/-- The connection that a step closes for the idle reason. -/
def closesIdle (s : State ι) : Action ι → List (Conn ι × Int)
  | .run t now _ =>
      match (s.pool t).frames.head? with
      | some (.closeConnInLoop conn .idle) =>
          if (s.shared.conns.lookup conn.fd).isSome then
            [(conn, now - (s.shared.state conn).lastActiveMs)]
          else []
      | _ => []
  | _ => []

def time (s : Sweeping ι) : Action ι → Int
  | .run _ now _ => now
  | _ => s.clock

/-- A step of the server; the clock does not go back. -/
def step (cfg : Config ι) (s : Sweeping ι) (a : Action ι) :
    Option (Sweeping ι × List (Event ι)) :=
  if s.clock ≤ s.time a then
    (TcpServer.step cfg s.server a).map fun (server, events) =>
      ({ server
         clock := s.time a
         idleClosed := s.idleClosed ++ closesIdle s.server a }, events)
  else none

/-- Whoever was closed for the idle reason had been idle for long enough, and
when no idle close is under way, `closed_idle_` counts them. -/
structure SweptRight (cfg : Config ι) (s : Sweeping ι) : Prop where
  waited : ∀ x ∈ s.idleClosed, cfg.idleTimeoutS * 1000 ≤ x.2
  counted : (∀ conn, underWay conn s.server.pool = 0) →
    s.server.shared.closedIdle = (s.idleClosed.map Prod.fst).dedup.length

/-- A step of this frame leaves the connections alone whose idle close is under
way: it reads nothing from them and sends nothing to them, does not close or
replace them for another reason, and no further sweep finds them. -/
def UndisturbedBy (cfg : Config ι) (s : State ι) (now : Int) (input : Input ι) :
    Frame ι → Prop
  | .read conn => input.isData = true → underWay conn s.pool = 0
  | .appendAndFlush conn _ => underWay conn s.pool = 0
  | .insert conn =>
      ∀ entry ∈ s.shared.conns.lookup conn.fd, underWay entry s.pool = 0
  | .closeConnInLoop conn reason =>
      reason ≠ .idle →
        ∀ entry ∈ s.shared.conns.lookup conn.fd, underWay entry s.pool = 0
  | .sweepIdle =>
      0 < cfg.idleTimeoutS →
        ∀ conn ∈ s.shared.expired now (cfg.idleTimeoutS * 1000),
          underWay conn s.pool = 0
  | _ => True

def Undisturbed (cfg : Config ι) (s : Sweeping ι) : Action ι → Prop
  | .run t now input =>
      ∀ f ∈ (s.server.pool t).frames.head?, UndisturbedBy cfg s.server now input f
  | _ => True

instance (cfg : Config ι) (s : State ι) (now : Int) (input : Input ι) :
    ∀ f, Decidable (UndisturbedBy cfg s now input f)
  | .read _ | .closeConnInLoop _ _ | .sweepIdle => inferInstanceAs (Decidable (_ → _))
  | .appendAndFlush _ _ => inferInstanceAs (Decidable (_ = _))
  | .insert _ => inferInstanceAs (Decidable (∀ entry ∈ _, _ = _))
  | .accept | .runInLoop _ _ | .addConnection _ | .connected _ | .callback _ _
  | .message _ _ | .retrieve _ _ | .app | .call _ | .flushWrite _ | .closeConn _ _
  | .disableAll _ | .disconnected _ | .close _ | .closeExpired _ => isTrue trivial

instance (cfg : Config ι) (s : Sweeping ι) : ∀ a, Decidable (Undisturbed cfg s a)
  | .run _ _ _ => inferInstanceAs (Decidable (∀ f ∈ _, UndisturbedBy _ _ _ _ f))
  | .handleAccept | .sweepIdle | .doPendingFunctor _ | .handleEvent _ _ | .app _ =>
      isTrue trivial

end Sweeping

/-! ## What a step does to the idle closes -/

variable {cfg : Config ι} {s : State ι} {t : ι} {now : Int} {f : Frame ι}
  {input : Input ι} {effect : Effect ι}

/-- Between the sweep and the close a step carries the weight on. -/
theorem IdleWeight.exec {w : Frame ι → Nat} {v : Task ι → Nat} (idleWeight : IdleWeight w v)
    (done : exec cfg s t now f input = some effect) (notSweep : f ≠ .sweepIdle)
    (notExpired : ∀ conns, f ≠ .closeExpired conns)
    (notClose : ∀ conn, f ≠ .closeConnInLoop conn .idle) :
    (effect.next.map w).sum + (effect.queued.elim 0 fun x => v x.2) = w f := by
  by_cases plain : f.Plain
  · have next : (effect.next.map w).sum = 0 :=
      sum_map_eq_zero fun g left => idleWeight.plain g ((leads_exec done g left).plain plain)
    rw [next, idleWeight.plain f plain, Nat.zero_add]
    cases queued : effect.queued with
    | none => rfl
    | some x =>
        obtain ⟨rfl, -⟩ := queued_exec done queued
        exact (idleWeight.queued _ _).symm.trans (idleWeight.plain _ plain)
  · cases f with
    | runInLoop loop task =>
        rw [idleWeight.queued]
        cases input with
        | none =>
            rw [TcpServer.exec] at done
            split at done
            · cases done
              exact idleWeight.running task
            · cases done
              exact Nat.zero_add _
        | _ => cases done
    | closeConn conn reason =>
        rw [idleWeight.closing]
        cases input with
        | none =>
            rw [TcpServer.exec] at done
            split at done
            · cases done
              rfl
            · cases done
              exact (idleWeight.queued _ _).trans (idleWeight.running _).symm
        | _ => cases done
    | closeConnInLoop conn reason =>
        refine absurd (fun idle => ?_) plain
        exact notClose conn (congrArg (Frame.closeConnInLoop conn) idle)
    | closeExpired conns => exact absurd rfl (notExpired conns)
    | sweepIdle => exact absurd rfl notSweep
    | _ => exact absurd trivial plain

/-- The last activity of a connection changes when it is set up, when data comes
from it and when data is sent to it. -/
theorem lastActive_exec (done : exec cfg s t now f input = some effect) (conn : Conn ι) :
    (effect.shared.state conn).lastActiveMs = (s.shared.state conn).lastActiveMs ∨
      f = .addConnection conn ∨ (∃ data, f = .appendAndFlush conn data) ∨
      (f = .read conn ∧ ∃ bytes, input = .data bytes) := by
  unfold exec at done
  split at done
  case h_5 other =>
    cases done
    by_cases same : conn = other
    · exact .inr (.inl (congrArg Frame.addConnection same.symm))
    · exact .inl (lastActive_setState s.shared conn other fun equal => absurd equal same)
  case h_9 other =>
    rcases lastActive_read done conn with kept | ⟨rfl, data⟩
    · exact .inl kept
    · exact .inr (.inr (.inr ⟨rfl, data⟩))
  case h_16 other data =>
    cases done
    by_cases same : conn = other
    · exact .inr (.inr (.inl ⟨data, congrArg (Frame.appendAndFlush · data) same.symm⟩))
    · exact .inl (lastActive_setState s.shared conn other fun equal => absurd equal same)
  case h_17 => exact .inl (lastActive_flush done conn)
  case h_18 => exact .inl (lastActive_flush done conn)
  case h_21 other =>
    cases done
    exact .inl (lastActive_setState s.shared conn other fun _ => rfl)
  all_goals (try split at done) <;> cases done <;> exact .inl rfl

/-- A connection is added once after it was accepted. -/
theorem adds_exec (done : exec cfg s t now f input = some effect) (conn : Conn ι)
    (notAccepted : f = .accept → ∀ fd loop, input ≠ .accepted fd loop)
    (notInsert : f ≠ .insert conn) :
    (effect.next.map (Frame.adds conn)).sum +
      (effect.queued.elim 0 fun x => x.2.adds conn) = f.adds conn := by
  have quiet (zero : f.adds conn = 0) (stays : ∀ loop task, f ≠ .runInLoop loop task)
      (none : ∀ g, Leads s t input f g → g.adds conn = 0) :
      (effect.next.map (Frame.adds conn)).sum +
        (effect.queued.elim 0 fun x => x.2.adds conn) = f.adds conn := by
    rw [queued_eq_none done stays, zero,
      sum_map_eq_zero fun g left => none g (leads_exec done g left)]
    rfl
  cases f with
  | runInLoop loop task =>
      cases input with
      | none =>
          rw [exec] at done
          split at done
          · cases done
            cases task <;> rfl
          · cases done
            exact Nat.zero_add _
      | _ => cases done
  | addConnection other =>
      cases input with
      | none =>
          cases done
          rfl
      | _ => cases done
  | insert other =>
      have different : conn ≠ other := fun equal => notInsert (congrArg Frame.insert equal.symm)
      refine quiet (same_of_ne different) (fun _ _ same => (by cases same)) fun g led => ?_
      cases led
      rfl
  | accept =>
      cases input with
      | accepted fd loop => exact absurd rfl (notAccepted rfl fd loop)
      | acceptIntr | acceptFailed =>
          cases done
          rfl
      | _ => cases done
  | callback which other =>
      refine quiet rfl (fun _ _ same => (by cases same)) fun g led => ?_
      cases led
      cases which <;> rfl
  | _ =>
      refine quiet rfl (fun _ _ same => (by cases same)) fun g led => ?_
      cases led <;> rfl

/-- How a step changes a weight of the pool. -/
theorem weight_step {w : Frame ι → Nat} {v : Task ι → Nat}
    {rest : Pool ι (Frame ι) (Task ι)} (popped : pop t s.pool = some (f, rest)) :
    weight w v (TcpServer.apply t rest effect).pool + w f =
      weight w v s.pool + ((effect.next.map w).sum +
        (effect.queued.elim 0 fun x => v x.2)) := by
  rw [weight_apply, weight_pop popped]
  omega

theorem underWay_step {rest : Pool ι (Frame ι) (Task ι)}
    (popped : pop t s.pool = some (f, rest))
    (done : exec cfg s t now f input = some effect) (conn : Conn ι)
    (notSweep : f ≠ .sweepIdle) (notClose : ∀ other, f ≠ .closeConnInLoop other .idle) :
    underWay conn (TcpServer.apply t rest effect).pool = underWay conn s.pool := by
  have changed := @weight_step _ _ _ s t f effect (Frame.idles conn) (Task.idles conn) rest popped
  have carried : (effect.next.map (Frame.idles conn)).sum +
      (effect.queued.elim 0 fun x => x.2.idles conn) = f.idles conn := by
    by_cases expired : ∃ conns, f = .closeExpired conns
    · obtain ⟨conns, rfl⟩ := expired
      cases input with
      | none =>
          cases conns with
          | nil =>
              cases done
              rfl
          | cons first rest =>
              cases done
              simp only [List.map_cons, List.map_nil, List.sum_cons, List.sum_nil,
                Frame.idles, if_true, same, List.count_cons, beq_iff_eq, Option.elim_none]
              omega
      | _ => cases conns <;> cases done
    · exact (idleWeight_idles conn).exec done notSweep (not_exists.mp expired) notClose
  rw [underWay, underWay]
  omega

theorem counted_step {rest : Pool ι (Frame ι) (Task ι)}
    (popped : pop t s.pool = some (f, rest))
    (done : exec cfg s t now f input = some effect)
    (notClose : ∀ other, f ≠ .closeConnInLoop other .idle) :
    effect.shared.closedIdle + weight Frame.counted Task.counted s.pool =
      s.shared.closedIdle +
        weight Frame.counted Task.counted (TcpServer.apply t rest effect).pool := by
  have changed := @weight_step _ _ _ s t f effect Frame.counted Task.counted rest popped
  cases f with
  | sweepIdle =>
      cases input with
      | none =>
          rw [exec] at done
          split at done
          · cases done
            exact congrArg (s.shared.closedIdle + ·) changed.symm
          · cases done
            exact congrArg (s.shared.closedIdle + ·) changed.symm
      | _ => cases done
  | closeExpired conns =>
      cases input with
      | none =>
          cases conns with
          | nil =>
              cases done
              exact congrArg (s.shared.closedIdle + ·) changed.symm
          | cons first later =>
              cases done
              change _ + 0 = _ + ((1 + (0 + 0)) + 0) at changed
              change _ + 1 + _ = _
              omega
      | _ => cases conns <;> cases done
  | _ =>
      have same := (closedIdle_exec done).resolve_right
        (by rintro ⟨first, later, equal⟩; cases equal)
      have carried := idleWeight_counted.exec done (fun equal => (by cases equal))
        (fun _ equal => (by cases equal)) notClose
      omega

end

end TcpServer

end MiniNet
