import MiniNet.HttpServer.Replies

/-!
# What the handler has answered

The state of the handler changes when it is called, and by what other loops do.
Facts about each of its calls are facts about every answer that a loop records.
-/

namespace MiniNet

open Bytes TcpServer

namespace HttpServer

namespace Loop

variable {σ : Type} {handler : Option (Handler σ)}

theorem turn_respond {state later : σ} {conn rest : HttpConn} {resp : HttpResponse}
    (taken : turn handler state conn = .respond rest later resp) :
    (later, resp) = respond handler state rest.parser.req := by
  unfold turn at taken
  split at taken
  · cases taken
  · cases taken
  · cases taken
    rfl

theorem app_findOrCreate (s : State σ) (id : Nat) : (s.findOrCreate id).1.app = s.app := by
  unfold State.findOrCreate
  split <;> rfl

theorem app_touch {s m : State σ} {call : Activation} {next : HttpConn → State σ}
    {events : List Event} (touched : s.touch call next = (m, events))
    (same : ∀ conn, (next conn).app = s.app) : m.app = s.app := by
  unfold State.touch at touched
  split at touched <;> cases touched
  · exact same _
  · rfl

theorem app_flushStep {s m : State σ} {caller : Caller} {result : Option SendResult}
    (flushed : flushStep s caller result = some m) : m.app = s.app := by
  obtain ⟨entry, _, continued⟩ := Option.bind_eq_some_iff.mp flushed
  split at continued
  · split at continued <;> cases continued
    rfl
  · obtain ⟨_, _, rfl⟩ := Option.map_eq_some_iff.mp continued
    rfl

theorem app_sendStep {s m : State σ} {data : Bytes} {caller : Caller} {now : Int}
    (sent : sendStep s data caller now = some m) : m.app = s.app := by
  unfold sendStep at sent
  split at sent
  · cases sent
    rfl
  · obtain ⟨_, _, rfl⟩ := Option.map_eq_some_iff.mp sent
    rfl

/-- A step that is neither a turn of the loop of `onMessage` nor one of another
loop leaves the state of the handler. -/
theorem app_step {s m : State σ} {action : Action σ} {events : List Event}
    (here : ∀ app, action ≠ .elsewhere app) (noTurn : ∀ call, s.control ≠ .parse call)
    (stepped : Loop.step handler s action = some (m, events)) : m.app = s.app := by
  unfold Loop.step at stepped
  split at stepped
  · exact absurd rfl (here _)
  · split at stepped <;> cases stepped
    rfl
  · obtain ⟨entry, _, touched⟩ := Option.map_eq_some_iff.mp stepped
    exact (app_touch touched fun _ => rfl).trans (app_findOrCreate s entry.id)
  · obtain ⟨entry, _, continued⟩ := Option.bind_eq_some_iff.mp stepped
    obtain ⟨_, _, result⟩ := Option.map_eq_some_iff.mp continued
    cases result
    rfl
  · obtain ⟨entry, _, result⟩ := Option.map_eq_some_iff.mp stepped
    cases result
    rfl
  · rename_i control
    exact absurd control (noTurn _)
  · obtain ⟨later, sent, result⟩ := Option.map_eq_some_iff.mp stepped
    cases result
    exact app_sendStep sent
  · obtain ⟨later, flushed, result⟩ := Option.map_eq_some_iff.mp stepped
    cases result
    exact app_flushStep flushed
  · refine app_touch (Option.some.inj stepped) fun conn => ?_
    unfold keepAliveStep
    split <;> rfl
  · have closed := Option.some.inj stepped
    unfold shutdownStep at closed
    split at closed <;> cases closed <;> rfl
  · cases stepped

namespace Watched

variable {w m : Watched σ} {action : Action σ} {events : List Event}

/-- The handler is called on this connection. -/
structure Answers (handler : Option (Handler σ)) (w m : Watched σ) (id : Nat)
    (req : HttpRequest) : Prop where
  app : m.loop.app = (respond handler w.loop.app req).1
  here : m.logs id = (w.logs id).answer req (respond handler w.loop.app req).2
  elsewhere : ∀ other, other ≠ id → m.logs other = w.logs other

/-- Nothing is answered. -/
structure Silent (w m : Watched σ) : Prop where
  requests : ∀ id, (m.logs id).requests = (w.logs id).requests
  replies : ∀ id, (m.logs id).replies = (w.logs id).replies

theorem Silent.of_note (stepped : w.step handler action = some (m, events))
    (kept : ∀ log : Log, (w.loop.note handler log action).requests = log.requests ∧
      (w.loop.note handler log action).replies = log.replies) : Silent w m := by
  have each (id : Nat) : (m.logs id).requests = (w.logs id).requests ∧
      (m.logs id).replies = (w.logs id).replies := by
    rw [logs_step stepped id]
    split
    · exact kept (w.logs id)
    · exact ⟨rfl, rfl⟩
  exact ⟨fun id => (each id).1, fun id => (each id).2⟩

/-- A turn of the loop of `onMessage`. -/
theorem answers_turn {call : Activation} {result : Option SendResult} {now : Int}
    (control : w.loop.control = .parse call)
    (stepped : w.step handler (.run result now) = some (m, events)) :
    (m.loop.app = w.loop.app ∧ Silent w m) ∨ ∃ id req, Answers handler w m id req := by
  have taken := loop_step stepped
  cases result with
  | some result => simp [Loop.step, control] at taken
  | none =>
      simp only [Loop.step, control] at taken
      have touched := Option.some.inj taken
      cases access : w.loop.access call with
      | none =>
          rw [touch_of_none access] at touched
          refine .inl ⟨(congrArg (·.1.app) touched).symm, .of_note stepped fun log => ?_⟩
          simp only [State.note, control, access, Option.map_none, and_self]
      | some conn =>
          rw [touch_of_access access] at touched
          have app : m.loop.app = (parseStep handler w.loop call conn).app :=
            (congrArg (·.1.app) touched).symm
          unfold parseStep at app
          cases turned : turn handler w.loop.app conn with
          | needMore rest =>
              rw [turned] at app
              refine .inl ⟨app, .of_note stepped fun log => ?_⟩
              simp only [State.note, control, access, Option.map_some, turned, and_self]
          | error rest err =>
              rw [turned] at app
              refine .inl ⟨app, .of_note stepped fun log => ?_⟩
              simp only [State.note, control, access, Option.map_some, turned, and_self]
          | respond rest later resp =>
              rw [turned] at app
              have answer := turn_respond turned
              have noted : w.loop.noted (.run none now) = some call.id := by
                simp only [State.noted, control]
              refine .inr ⟨call.id, rest.parser.req, ?_, ?_, fun other different => ?_⟩
              · rw [app, ← answer]
              · rw [logs_step stepped, if_pos noted, ← answer]
                simp only [State.note, control, access, Option.map_some, turned]
              · rw [logs_step stepped, noted, if_neg fun same =>
                  different (Option.some.inj same).symm]

/-- What a step does to the state of the handler and to its answers. -/
theorem answers_step (stepped : w.step handler action = some (m, events)) :
    (∃ app, action = .elsewhere app ∧ m.loop.app = app ∧ Silent w m) ∨
      (m.loop.app = w.loop.app ∧ Silent w m) ∨ ∃ id req, Answers handler w m id req := by
  cases action with
  | elsewhere app =>
      have same : some (({ w.loop with app } : State σ), ([] : List Event)) =
          some (m.loop, events) := by
        rw [← loop_step stepped]
        unfold Loop.step
        rfl
      exact .inl ⟨app, rfl, congrArg (·.1.app) (Option.some.inj same).symm,
        .of_note stepped fun _ => ⟨rfl, rfl⟩⟩
  | run result now =>
      refine .inr ?_
      by_cases turned : ∃ call, w.loop.control = .parse call
      · obtain ⟨call, control⟩ := turned
        exact answers_turn control stepped
      · have noTurn (call : Activation) : w.loop.control ≠ .parse call := fun same =>
          turned ⟨call, same⟩
        refine .inl ⟨app_step (fun _ same => by cases same) noTurn (loop_step stepped),
          .of_note stepped fun log => ?_⟩
        unfold State.note
        dsimp only
        split
        · rename_i control
          exact absurd control (noTurn _)
        · exact ⟨rfl, rfl⟩
  | _ =>
      have noTurn (call : Activation) : w.loop.control ≠ .parse call := fun control => by
        have taken := loop_step stepped
        simp [Loop.step, control] at taken
      exact .inr (.inl ⟨app_step (fun _ same => by cases same) noTurn (loop_step stepped),
        .of_note stepped fun _ => ⟨rfl, rfl⟩⟩)

/-- If every call of the handler keeps `inv` and gives a `good` answer to what may be
`asked`, and other loops keep `inv`, then all answers to such requests are good. -/
theorem good_step {inv : σ → Prop} {asked : HttpRequest → Prop} {good : HttpResponse → Prop}
    (each : ∀ state req, inv state → asked req →
      inv (respond handler state req).1 ∧ good (respond handler state req).2)
    (stepped : w.step handler action = some (m, events))
    (others : ∀ app, action = .elsewhere app → inv app)
    (asks : ∀ id, ∀ req ∈ (m.logs id).requests, asked req)
    (before : inv w.loop.app ∧ ∀ id, ∀ resp ∈ (w.logs id).replies, good resp) :
    inv m.loop.app ∧ ∀ id, ∀ resp ∈ (m.logs id).replies, good resp := by
  rcases answers_step stepped with ⟨app, elsewhere, same, silent⟩ | ⟨same, silent⟩ |
    ⟨id, req, answers⟩
  · refine ⟨same ▸ others app elsewhere, fun id resp member => ?_⟩
    rw [silent.replies] at member
    exact before.2 id resp member
  · refine ⟨same ▸ before.1, fun id resp member => ?_⟩
    rw [silent.replies] at member
    exact before.2 id resp member
  · have now : asked req := by
      refine asks id req ?_
      rw [answers.here]
      exact List.mem_append_right _ (List.mem_singleton_self req)
    obtain ⟨kept, answer⟩ := each w.loop.app req before.1 now
    refine ⟨answers.app ▸ kept, fun other resp member => ?_⟩
    by_cases here : other = id
    · subst here
      rw [answers.here] at member
      rcases List.mem_append.mp member with earlier | last
      · exact before.2 other resp earlier
      · rw [List.mem_singleton.mp last]
        exact answer
    · rw [answers.elsewhere other here] at member
      exact before.2 other resp member

/-- What the handler has been asked stays in the record. -/
theorem requests_step (stepped : w.step handler action = some (m, events)) (id : Nat) :
    (w.logs id).requests <+: (m.logs id).requests := by
  rcases answers_step stepped with ⟨_, _, _, silent⟩ | ⟨_, silent⟩ | ⟨other, req, answers⟩
  · rw [silent.requests]
  · rw [silent.requests]
  · by_cases here : id = other
    · rw [here, answers.here]
      exact List.prefix_append _ _
    · rw [answers.elsewhere id here]

theorem requests_run {actions : List (Action σ)} {trace : List (Action σ × List Event)}
    (ran : Machine.run (step handler) w actions = some (m, trace)) (id : Nat) :
    (w.logs id).requests <+: (m.logs id).requests := by
  induction actions generalizing w trace with
  | nil =>
      cases ran
      exact List.prefix_rfl
  | cons action actions ih =>
      obtain ⟨next, _, rest, stepped, continued, rfl⟩ := Machine.run_cons_eq_some.mp ran
      exact (requests_step stepped id).trans (ih continued)

theorem good_run {inv : σ → Prop} {asked : HttpRequest → Prop} {good : HttpResponse → Prop}
    {actions : List (Action σ)} {trace : List (Action σ × List Event)}
    (each : ∀ state req, inv state → asked req →
      inv (respond handler state req).1 ∧ good (respond handler state req).2)
    (ran : Machine.run (step handler) w actions = some (m, trace))
    (others : ∀ app, .elsewhere app ∈ actions → inv app)
    (asks : ∀ id, ∀ req ∈ (m.logs id).requests, asked req)
    (before : inv w.loop.app ∧ ∀ id, ∀ resp ∈ (w.logs id).replies, good resp) :
    inv m.loop.app ∧ ∀ id, ∀ resp ∈ (m.logs id).replies, good resp := by
  induction actions generalizing w trace with
  | nil =>
      cases ran
      exact before
  | cons action actions ih =>
      obtain ⟨next, _, rest, stepped, continued, rfl⟩ := Machine.run_cons_eq_some.mp ran
      refine ih continued (fun app member => others app (List.mem_cons_of_mem _ member)) ?_
      refine good_step each stepped (fun app same => others app (same ▸ List.mem_cons_self ..))
        (fun id req member => ?_) before
      exact asks id req ((requests_run continued id).subset member)

end Watched

end Loop

end HttpServer

end MiniNet
