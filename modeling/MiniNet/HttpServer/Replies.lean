import MiniNet.HttpServer.Exchange

/-!
# What comes back on a connection

A connection on which rendered requests arrive is sent a response for each of
the first of them, and then perhaps one error.  What the kernel has accepted
of this stays, also when the connection is closed before the rest is sent.
-/

namespace MiniNet

open Bytes TcpServer

namespace HttpServer

/-- `handleError` writes what a client can read. -/
theorem plain_errorResponse {err : HttpParser.Error} (known : err ∈ HttpParser.errors) :
    ∃ r : Bench.PlainResponse, r.toHttpResponse = errorResponse err := by
  have statuses : ∀ err ∈ HttpParser.errors, 100 ≤ err.status ∧ err.status ≤ 599 := by decide
  have sections : ∀ err ∈ HttpParser.errors,
      (errorResponse err).serialize.length ≤ 64 * 1024 := by
    decide +kernel
  have bodies : ∀ err ∈ HttpParser.errors, (errorResponse err).body.length < 2 ^ 63 := by
    decide +kernel
  have noExtra : (errorResponse err).extraHeaders = [] := rfl
  have json : (errorResponse err).contentType = lit "application/json; charset=utf-8" := rfl
  exact ⟨{ errorResponse err with
    status_valid := statuses err known
    contentType_oneLine := by
      rw [json]
      decide
    extra_plain := fun header member => by
      rw [noExtra] at member
      cases member
    section_fits := Nat.le_add_right_of_le (sections err known)
    body_fits := bodies err known }, rfl⟩

/-- What has been passed to `send` on a connection that receives these requests. -/
structure Replied (requests : List HttpParser.ClientRequest) (log : Log) (given : Bytes)
    (errs : List HttpParser.Error) : Prop where
  handled : log.requests = (requests.take log.replies.length).map (·.request)
  asked : log.replies.length + errs.length ≤ requests.length
  once : errs.length ≤ 1
  known : ∀ err ∈ errs, err ∈ HttpParser.errors
  sent : given = (log.replies ++ errs.map errorResponse).flatMap (·.serialize)

section

variable {σ : Type} {handler : Option (Handler σ)} {requests : List HttpParser.ClientRequest}
  {log : Log} {given unread missing : Bytes} {done rest : List HttpParser.ClientRequest}

theorem Answered.replied (answered : Answered requests log given unread missing done rest) :
    Replied requests log given [] where
  handled := by
    rw [answered.handled, answered.all, answered.number, List.take_left]
  asked := by
    rw [answered.all, answered.number, List.length_append]
    exact Nat.le_add_right _ _
  once := Nat.zero_le _
  known := fun _ member => by cases member
  sent := by
    rw [List.map_nil, List.append_nil]
    exact answered.sent

/-- An error within a request. -/
theorem Answered.replied_error (answered : Answered requests log given unread missing done rest)
    (some_octet : unread ≠ []) {err : HttpParser.Error} (known : err ∈ HttpParser.errors) :
    Replied requests log (given ++ (errorResponse err).serialize) [err] where
  handled := answered.replied.handled
  asked := by
    have another : rest ≠ [] := by
      rintro rfl
      exact some_octet (List.append_eq_nil_iff.mp answered.stream).1
    have positive := List.length_pos_iff.mpr another
    rw [answered.all, answered.number, List.length_append, List.length_singleton]
    omega
  once := Nat.le_refl 1
  known := fun err' member => by
    cases List.mem_singleton.mp member
    exact known
  sent := by
    rw [answered.sent, List.flatMap_append, List.map_singleton, List.flatMap_singleton]

/-- Wherever a connection gets to, it has answered the first of its requests. -/
theorem Reached.replied {phase : Phase} (reached : Reached handler log given phase)
    (arrived : log.chunks.flatten <+: requests.flatMap (·.render)) :
    ∃ errs, Replied requests log given errs := by
  obtain ⟨missing, stream⟩ := arrived
  have exchanging := reached.exchanging stream
  cases phase with
  | waiting conn =>
      obtain ⟨_, _, _, answered, _⟩ := exchanging
      exact ⟨[], answered.replied⟩
  | parsing conn =>
      obtain ⟨_, _, _, answered, _⟩ := exchanging
      exact ⟨[], answered.replied⟩
  | answered conn resp =>
      obtain ⟨_, _, answered⟩ := exchanging
      exact ⟨[], answered.replied⟩
  | closing conn =>
      obtain ⟨_, _, _, _, answered, rfl | ⟨some_octet, err, known, rfl⟩⟩ := exchanging
      · exact ⟨[], answered.replied⟩
      · exact ⟨[err], answered.replied_error some_octet known⟩

end

namespace Loop

variable {σ : Type} {handler : Option (Handler σ)}

/-- All that a connection has been sent belongs to its session. -/
theorem Doing.reached {s : State σ} {log : Log} {fd : Nat} {entry : Entry}
    (doing : Doing handler s log fd entry) :
    ∃ given phase, Reached handler log given phase ∧ entry.given <+: given := by
  cases doing with
  | nothing _ reached => exact ⟨_, _, reached, List.prefix_rfl⟩
  | parsing _ _ _ _ reached => exact ⟨_, _, reached, List.prefix_rfl⟩
  | sending _ _ pending =>
      cases pending with
      | onMessage _ _ reached => exact ⟨_, _, reached, List.prefix_append _ _⟩
      | handleError reached => exact ⟨_, _, reached, List.prefix_append _ _⟩
      | handleEvent reached => exact ⟨_, _, reached, List.prefix_append _ _⟩
  | flushing _ _ pending =>
      cases pending with
      | onMessage _ _ reached => exact ⟨_, _, reached, List.prefix_rfl⟩
      | handleError reached => exact ⟨_, _, reached, List.prefix_rfl⟩
      | handleEvent reached => exact ⟨_, _, reached, List.prefix_rfl⟩
  | answered _ _ _ _ reached => exact ⟨_, _, reached, List.prefix_rfl⟩
  | closing _ reached => exact ⟨_, _, reached, List.prefix_rfl⟩

/-! ## The table of connections -/

theorem accepted_step {path later : WritePath.State} {action : WritePath.Action}
    (stepped : WritePath.step path action = some (later, ())) :
    path.accepted <+: later.accepted := by
  cases action with
  | appendAndFlush data now =>
      simp only [WritePath.step] at stepped
      split at stepped <;> cases stepped
      exact List.prefix_rfl
  | writable =>
      simp only [WritePath.step] at stepped
      split at stepped <;> cases stepped
      exact List.prefix_rfl
  | flush result =>
      simp only [WritePath.step] at stepped
      split at stepped
      · split at stepped <;> cases stepped
        · exact List.prefix_append _ _
        · exact List.prefix_append _ _
      · cases stepped

/-- Every entry was there before, and the kernel has not taken bytes back. -/
def Grown (before later : AList fun _ : Nat => Entry) : Prop :=
  ∀ fd entry, later.lookup fd = some entry → ∃ old, before.lookup fd = some old ∧
    old.id = entry.id ∧ old.path.accepted <+: entry.path.accepted

theorem Grown.refl (conns : AList fun _ : Nat => Entry) : Grown conns conns :=
  fun _ entry found => ⟨entry, found, rfl, List.prefix_rfl⟩

theorem Grown.of_eq {before later : AList fun _ : Nat => Entry} (same : later = before) :
    Grown before later := same ▸ Grown.refl before

theorem Grown.erase (conns : AList fun _ : Nat => Entry) (fd : Nat) :
    Grown conns (conns.erase fd) := by
  intro other entry found
  by_cases here : other = fd
  · subst other
    rw [AList.lookup_erase] at found
    cases found
  · rw [AList.lookup_erase_ne here] at found
    exact ⟨entry, found, rfl, List.prefix_rfl⟩

theorem Grown.insert {conns : AList fun _ : Nat => Entry} {fd : Nat} {old later : Entry}
    (found : conns.lookup fd = some old) (sameId : old.id = later.id)
    (accepted : old.path.accepted <+: later.path.accepted) :
    Grown conns (conns.insert fd later) := by
  intro other entry stored
  by_cases here : other = fd
  · subst other
    cases (AList.lookup_insert _).symm.trans stored
    exact ⟨old, found, sameId, accepted⟩
  · rw [AList.lookup_insert_ne here] at stored
    exact ⟨entry, stored, rfl, List.prefix_rfl⟩

/-- A step that accepts no connection. -/
structure Keeps (s m : State σ) : Prop where
  next : m.nextConnId = s.nextConnId
  entries : Grown s.conns m.conns

theorem Keeps.touch {s m : State σ} {call : Activation} {next : HttpConn → State σ}
    {events : List Event} (touched : s.touch call next = (m, events))
    (keeps : ∀ conn, Keeps s (next conn)) : Keeps s m := by
  cases found : s.access call with
  | some conn =>
      rw [touch_of_access found] at touched
      cases touched
      exact keeps conn
  | none =>
      rw [touch_of_none found] at touched
      cases touched
      exact ⟨rfl, Grown.refl _⟩

theorem Keeps.parse (s : State σ) (call : Activation) (conn : HttpConn) :
    Keeps s (parseStep handler s call conn) := by
  refine ⟨?_, Grown.of_eq (conns_parseStep s call conn)⟩
  unfold parseStep
  split <;> rfl

theorem Keeps.keepAlive (s : State σ) (call : Activation) (resp : HttpResponse)
    (conn : HttpConn) : Keeps s (keepAliveStep s call resp conn) := by
  refine ⟨?_, Grown.of_eq (conns_keepAliveStep s call resp conn)⟩
  unfold keepAliveStep
  split <;> rfl

theorem Keeps.send {s m : State σ} {data : Bytes} {caller : Caller} {now : Int}
    (sent : sendStep s data caller now = some m) : Keeps s m := by
  unfold sendStep at sent
  split at sent
  · cases sent
    exact ⟨rfl, Grown.refl _⟩
  · rename_i entry found
    obtain ⟨⟨path, _⟩, stepped, rfl⟩ := Option.map_eq_some_iff.mp sent
    exact ⟨rfl, Grown.insert found rfl (accepted_step stepped)⟩

theorem Keeps.flush {s m : State σ} {caller : Caller} {result : Option SendResult}
    (flushed : flushStep s caller result = some m) : Keeps s m := by
  obtain ⟨entry, found, continued⟩ := Option.bind_eq_some_iff.mp flushed
  split at continued
  · split at continued <;> cases continued
    exact ⟨rfl, Grown.erase _ _⟩
  · obtain ⟨⟨path, _⟩, stepped, rfl⟩ := Option.map_eq_some_iff.mp continued
    exact ⟨rfl, Grown.insert found rfl (accepted_step stepped)⟩

/-- A step that accepts one. -/
structure Accepts (s m : State σ) (fd id : Nat) (now : Int) : Prop where
  fresh : s.nextConnId ≤ id
  next : m.nextConnId = id + 1
  conns : m.conns = s.conns.insert fd { id, path := WritePath.start now }

theorem accepts_step {s m : State σ} {fd id : Nat} {now : Int} {events : List Event}
    (stepped : Loop.step handler s (.connected fd id now) = some (m, events)) :
    Accepts s m fd id now := by
  cases control : s.control with
  | poll =>
      simp only [Loop.step, control] at stepped
      split at stepped
      · rename_i new
        cases stepped
        exact ⟨new.2, rfl, rfl⟩
      · cases stepped
  | _ => simp [Loop.step, control] at stepped

theorem keeps_step {s m : State σ} {action : Action σ} {events : List Event}
    (other : ∀ fd id now, action ≠ .connected fd id now)
    (stepped : Loop.step handler s action = some (m, events)) : Keeps s m := by
  unfold Loop.step at stepped
  split at stepped
  · cases stepped
    exact ⟨rfl, Grown.refl _⟩
  · exact absurd rfl (other _ _ _)
  · obtain ⟨entry, found, touched⟩ := Option.map_eq_some_iff.mp stepped
    obtain ⟨conns, next⟩ := findOrCreate_fields s entry.id
    obtain ⟨later, entries⟩ := Keeps.touch touched fun _ => ⟨rfl, Grown.refl _⟩
    exact ⟨later.trans next, conns ▸ entries⟩
  · obtain ⟨entry, found, continued⟩ := Option.bind_eq_some_iff.mp stepped
    obtain ⟨⟨path, _⟩, taken, result⟩ := Option.map_eq_some_iff.mp continued
    cases result
    exact ⟨rfl, Grown.insert found rfl (accepted_step taken)⟩
  · obtain ⟨entry, found, result⟩ := Option.map_eq_some_iff.mp stepped
    cases result
    exact ⟨rfl, Grown.erase _ _⟩
  · exact Keeps.touch (Option.some.inj stepped) (Keeps.parse s _)
  · obtain ⟨later, sent, result⟩ := Option.map_eq_some_iff.mp stepped
    cases result
    exact Keeps.send sent
  · obtain ⟨later, flushed, same⟩ := Option.map_eq_some_iff.mp stepped
    cases same
    exact Keeps.flush flushed
  · exact Keeps.touch (Option.some.inj stepped) (Keeps.keepAlive s _ _)
  · have closed := Option.some.inj stepped
    unfold shutdownStep at closed
    split at closed <;> cases closed
    · exact ⟨rfl, Grown.refl _⟩
    · exact ⟨rfl, Grown.erase _ _⟩
  · cases stepped

theorem nextConnId_step {s m : State σ} {action : Action σ} {events : List Event}
    (stepped : Loop.step handler s action = some (m, events)) : s.nextConnId ≤ m.nextConnId := by
  cases action with
  | connected fd id now =>
      have accepts := accepts_step stepped
      rw [accepts.next]
      exact Nat.le_succ_of_le accepts.fresh
  | _ =>
      have keeps := keeps_step (fun _ _ _ same => by cases same) stepped
      exact keeps.next.ge

/-- An entry whose id is not new was there before. -/
theorem old_step {s m : State σ} {action : Action σ} {events : List Event}
    (stepped : Loop.step handler s action = some (m, events)) {fd : Nat} {entry : Entry}
    (found : m.conns.lookup fd = some entry) (given : entry.id < s.nextConnId) :
    ∃ old, s.conns.lookup fd = some old ∧ old.id = entry.id ∧
      old.path.accepted <+: entry.path.accepted := by
  cases action with
  | connected fd' id now =>
      have accepts := accepts_step stepped
      rw [accepts.conns] at found
      by_cases here : fd = fd'
      · subst here
        cases (AList.lookup_insert _).symm.trans found
        exact absurd given (Nat.not_lt.mpr accepts.fresh)
      · rw [AList.lookup_insert_ne here] at found
        exact ⟨entry, found, rfl, List.prefix_rfl⟩
  | _ =>
      have keeps := keeps_step (fun _ _ _ same => by cases same) stepped
      exact keeps.entries fd entry found

/-! ## The logs -/

namespace Watched

variable {w m : Watched σ} {action : Action σ} {events : List Event}

theorem loop_step (stepped : w.step handler action = some (m, events)) :
    Loop.step handler w.loop action = some (m.loop, events) := by
  obtain ⟨⟨loop, _⟩, taken, result⟩ := Option.map_eq_some_iff.mp stepped
  cases result
  exact taken

theorem logs_step (stepped : w.step handler action = some (m, events)) (id : Nat) :
    m.logs id =
      if w.loop.noted action = some id then w.loop.note handler (w.logs id) action
      else w.logs id := by
  obtain ⟨⟨loop, _⟩, _, result⟩ := Option.map_eq_some_iff.mp stepped
  cases result
  cases noted : w.loop.noted action with
  | none => rfl
  | some id' =>
      by_cases same : id' = id
      · subst same
        rw [if_pos rfl]
        exact Function.update_self _ _ _
      · rw [if_neg fun here => same (Option.some.inj here)]
        exact Function.update_of_ne (Ne.symm same) _ _

/-- Only a message adds to the chunks. -/
theorem chunks_step (stepped : w.step handler action = some (m, events)) (id : Nat) :
    (m.logs id).chunks = (w.logs id).chunks ∨
      ∃ fd data entry, action = .message fd data ∧ w.loop.conns.lookup fd = some entry ∧
        entry.id = id ∧ (m.logs id).chunks = (w.logs id).chunks ++ [data] := by
  rw [logs_step stepped id]
  split
  · rename_i noted
    cases action with
    | message fd data =>
        obtain ⟨entry, found, same⟩ := Option.map_eq_some_iff.mp noted
        exact .inr ⟨fd, data, entry, rfl, found, same, rfl⟩
    | run result now =>
        refine .inl ?_
        unfold State.note
        dsimp only
        split
        · split <;> rfl
        · rfl
    | _ => cases noted
  · exact .inl rfl

/-- A response that was given stays given. -/
theorem replies_step (stepped : w.step handler action = some (m, events)) (id : Nat) :
    (w.logs id).replies <+: (m.logs id).replies := by
  rw [logs_step stepped id]
  split
  · unfold State.note
    split
    · exact List.prefix_rfl
    · split
      · split
        · exact List.prefix_append _ _
        · exact List.prefix_rfl
      · exact List.prefix_rfl
    · exact List.prefix_rfl
  · exact List.prefix_rfl

/-- A step that adds to a log leaves the table as it is. -/
theorem conns_of_noted {s m : State σ} {id : Nat} (noted : s.noted action = some id)
    (stepped : Loop.step handler s action = some (m, events)) : m.conns = s.conns := by
  cases action with
  | message fd data =>
      cases control : s.control with
      | poll =>
          simp only [Loop.step, control] at stepped
          obtain ⟨entry, _, touched⟩ := Option.map_eq_some_iff.mp stepped
          have kept : m.conns = (s.findOrCreate entry.id).1.conns := by
            refine (touch_conns ?_ touched).1
            exact fun _ => rfl
          exact kept.trans (findOrCreate_fields s entry.id).1
      | _ => simp [Loop.step, control] at stepped
  | run result now =>
      cases control : s.control with
      | parse call =>
          cases result with
          | none =>
              simp only [Loop.step, control] at stepped
              exact (touch_conns (conns_parseStep s call) (Option.some.inj stepped)).1
          | some result => simp [Loop.step, control] at stepped
      | _ => simp [State.noted, control] at noted
  | _ => cases noted

/-- The log of a connection that is closed does not change. -/
theorem logs_of_closed {past : List Event} (follows : Follows handler past w)
    (stepped : w.step handler action = some (m, events)) {id : Nat}
    (closed : ∀ fd entry, m.loop.conns.lookup fd = some entry → entry.id ≠ id) :
    m.logs id = w.logs id := by
  rw [logs_step stepped id]
  split
  · rename_i noted
    rw [conns_of_noted noted (loop_step stepped)] at closed
    cases action with
    | message fd data =>
        obtain ⟨entry, found, same⟩ := Option.map_eq_some_iff.mp noted
        exact absurd same (closed fd entry found)
    | run result now =>
        unfold State.noted at noted
        dsimp only at noted
        split at noted
        · rename_i call control
          cases noted
          -- the freed parser state is all that `onMessage` could have used
          have missing : w.loop.access call = none :=
            (follows.held call (by rw [control]; rfl)).resolve_left
              fun ⟨entry, found, same⟩ => closed _ entry found same
          unfold State.note
          simp only [control, missing, Option.map_none]
        · cases noted
    | _ => cases noted
  · rfl

end Watched

end Loop

end HttpServer

end MiniNet
