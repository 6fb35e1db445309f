import MiniNet.HttpServer.Loop

/-!
# Responses and the end of a connection

`HttpServer` shuts a connection down right after it has passed the last
response to `send`.  What the kernel has not accepted by then is discarded.
So everything is delivered exactly when the connection does not wait for
`EPOLLOUT` at that time: when its last `::send` has not returned `EAGAIN`.
-/

namespace MiniNet

open Bytes TcpServer

namespace HttpServer

namespace Loop

/-! ## One connection -/

/-- The bytes are all there, and the connection waits for `EPOLLOUT` exactly
after an `EAGAIN`. -/
structure Tracks (entry : Entry) : Prop where
  intact : WritePath.Intact entry.given entry.path
  idle : entry.path.flushing = false →
    (entry.path.conn.writing = true ↔ entry.lastSend = some .again)
  busy : entry.path.flushing = true → entry.lastSend = some .again →
    entry.path.conn.out ≠ []

theorem tracks_start (id : Nat) (now : Int) :
    Tracks { id, path := WritePath.start now } where
  intact := WritePath.intact_start now
  idle _ := iff_of_false Bool.false_ne_true fun again => by cases again
  busy flushing := by cases flushing

theorem Tracks.append {entry : Entry} (tracks : Tracks entry) {data : Bytes}
    {now : Int} {path : WritePath.State}
    (stepped : WritePath.step entry.path (.appendAndFlush data now) =
      some (path, ())) :
    Tracks { entry with path, given := entry.given ++ data } := by
  have intact := tracks.intact.step stepped
  rw [WritePath.appended, List.flatMap_singleton] at intact
  simp only [WritePath.step] at stepped
  split at stepped
  · cases stepped
  · rename_i idle
    have waits := tracks.idle (Bool.eq_false_iff.mpr idle)
    cases stepped
    refine ⟨intact, fun _ => waits, fun flushing again => ?_⟩
    have writing : entry.path.conn.writing = false := by
      simpa [ConnState.append] using flushing
    rw [waits.mpr again] at writing
    cases writing

theorem Tracks.writable {entry : Entry} (tracks : Tracks entry)
    {path : WritePath.State}
    (stepped : WritePath.step entry.path .writable = some (path, ())) :
    Tracks { entry with path } := by
  have intact := tracks.intact.step stepped
  have same : entry.given ++ WritePath.appended [.writable] = entry.given :=
    List.append_nil _
  rw [same] at intact
  simp only [WritePath.step] at stepped
  split at stepped
  · cases stepped
  · rename_i ready
    have idle : entry.path.flushing = false := by
      simpa using fun flushing => ready (.inl flushing)
    cases stepped
    refine ⟨intact, fun stopped => (by cases stopped), fun _ again => ?_⟩
    exact (tracks.intact.waits idle).mp ((tracks.idle idle).mpr again)

theorem Tracks.flush {entry : Entry} (tracks : Tracks entry)
    {result : Option SendResult} {path : WritePath.State}
    (stepped : WritePath.step entry.path (.flush result) = some (path, ())) :
    Tracks { entry with path, lastSend := result <|> entry.lastSend } := by
  have intact := tracks.intact.step stepped
  have same : entry.given ++ WritePath.appended [.flush result] = entry.given :=
    List.append_nil _
  rw [same] at intact
  simp only [WritePath.step] at stepped
  split at stepped
  swap
  · cases stepped
  rename_i flushing
  have inStep := tracks.intact.inStep
  split at stepped
  · rename_i conn turned
    cases stepped
    refine ⟨intact, fun idle => ?_, fun _ again => ?_⟩
    · rw [flushing] at idle
      cases idle
    · rcases ConnState.flushTurn_cases turned with
        ⟨_, _, _, next⟩ | ⟨_, ⟨n, rfl, _⟩ | ⟨_, _, next⟩ | ⟨rfl, _⟩ | ⟨_, _, next⟩⟩
      · cases next
      · cases again
      · cases next
      · cases again
      · cases next
  · rename_i conn turned
    cases stepped
    refine ⟨intact, fun _ => ?_, fun running => (by cases running)⟩
    rcases ConnState.flushTurn_cases turned with
      ⟨rfl, empty, rfl, _⟩ | ⟨_, ⟨_, _, _, _, _, next⟩ | ⟨rfl, rfl, _⟩ |
        ⟨_, _, next⟩ | ⟨_, _, next⟩⟩
    · apply iff_of_false
      · exact Bool.eq_false_iff.mp inStep.flushed.2.1
      · exact fun again => tracks.busy flushing again empty
    · cases next
    · exact iff_of_true inStep.awaitWritable.2.1 rfl
    · cases next
    · cases next
  · cases stepped

/-- Between callbacks nothing is left unless the last `::send` blocked. -/
theorem Tracks.delivered_iff {entry : Entry} (tracks : Tracks entry)
    (idle : entry.path.flushing = false) :
    entry.path.accepted = entry.given ↔ entry.lastSend ≠ some .again := by
  have left : entry.path.accepted = entry.given ↔ entry.path.conn.out = [] := by
    rw [← tracks.intact.stream]
    exact List.self_eq_append_right
  rw [left, Ne, ← tracks.idle idle, tracks.intact.waits idle, not_not]

/-! ## All connections of the loop -/

/-- No `flushWrite` is running. -/
def Quiet (conns : AList fun _ : Nat => Entry) : Prop :=
  ∀ fd entry, conns.lookup fd = some entry → Tracks entry ∧ entry.path.flushing = false

theorem Quiet.erase {conns : AList fun _ : Nat => Entry} (quiet : Quiet conns)
    (fd : Nat) : Quiet (conns.erase fd) := by
  intro other entry found
  by_cases here : other = fd
  · subst other
    rw [AList.lookup_erase] at found
    cases found
  · rw [AList.lookup_erase_ne here] at found
    exact quiet other entry found

theorem Quiet.insert {conns : AList fun _ : Nat => Entry} (quiet : Quiet conns)
    {fd : Nat} {entry : Entry} (tracks : Tracks entry)
    (idle : entry.path.flushing = false) : Quiet (conns.insert fd entry) := by
  intro other found stored
  by_cases here : other = fd
  · subst other
    cases (AList.lookup_insert _).symm.trans stored
    exact ⟨tracks, idle⟩
  · exact quiet other found ((AList.lookup_insert_ne here).symm.trans stored)

variable {σ : Type}

structure Steady (s : State σ) : Prop where
  tracks : ∀ fd entry, s.conns.lookup fd = some entry → Tracks entry
  flushing : ∀ fd entry, s.conns.lookup fd = some entry → entry.path.flushing = true →
    ∃ caller, s.control = .flushWrite caller ∧ caller.fd = fd

theorem steady_of_quiet {s : State σ} (quiet : Quiet s.conns) : Steady s where
  tracks fd entry found := (quiet fd entry found).1
  flushing fd entry found running := by
    rw [(quiet fd entry found).2] at running
    cases running

theorem Steady.quiet {s : State σ} (steady : Steady s)
    (elsewhere : ∀ caller, s.control ≠ .flushWrite caller) : Quiet s.conns := by
  intro fd entry found
  refine ⟨steady.tracks fd entry found, ?_⟩
  by_contra running
  obtain ⟨caller, control, -⟩ :=
    steady.flushing fd entry found (Bool.not_eq_false _ ▸ running)
  exact elsewhere caller control

/-- All connections but the one that `flushWrite` is about are quiet. -/
theorem Steady.quiet_erase {s : State σ} (steady : Steady s) {caller : Caller}
    (control : s.control = .flushWrite caller) : Quiet (s.conns.erase caller.fd) := by
  intro fd entry found
  by_cases here : fd = caller.fd
  · subst fd
    rw [AList.lookup_erase] at found
    cases found
  · rw [AList.lookup_erase_ne here] at found
    refine ⟨steady.tracks fd entry found, ?_⟩
    by_contra running
    obtain ⟨other, control', sameFd⟩ :=
      steady.flushing fd entry found (Bool.not_eq_false _ ▸ running)
    rw [control] at control'
    cases control'
    exact here sameFd.symm

theorem steady_goOn {s : State σ} {caller : Caller} {entry : Entry}
    (others : Quiet (s.conns.erase caller.fd)) (tracks : Tracks entry) :
    Steady (s.goOn caller entry) := by
  constructor
  · intro fd found stored
    by_cases here : fd = caller.fd
    · subst fd
      cases (AList.lookup_insert _).symm.trans stored
      exact tracks
    · apply (others fd found _).1
      rw [AList.lookup_erase_ne here]
      exact (AList.lookup_insert_ne here).symm.trans stored
  · intro fd found stored running
    by_cases here : fd = caller.fd
    · subst fd
      cases (AList.lookup_insert _).symm.trans stored
      exact ⟨caller, if_pos running, rfl⟩
    · have quiet := (others fd found (by
        rw [AList.lookup_erase_ne here]
        exact (AList.lookup_insert_ne here).symm.trans stored)).2
      rw [running] at quiet
      cases quiet

/-- The connection that the next step of the loop shuts down. -/
def State.closing? (s : State σ) : Option Entry :=
  match s.control with
  | .shutdown fd => s.conns.lookup fd
  | _ => none

/-- `HttpServer` does not close a connection whose last `::send` has returned
`EAGAIN`. -/
def Unblocked (s : State σ) : Action σ → Prop
  | .run none _ => ∀ entry ∈ s.closing?, entry.lastSend ≠ some .again
  | _ => True

instance (s : State σ) : ∀ action : Action σ, Decidable (Unblocked s action)
  | .run none _ => inferInstanceAs (Decidable (∀ entry ∈ s.closing?, _))
  | .run (some _) _ | .connected _ _ _ | .message _ _ | .writable _ | .close _
  | .elsewhere _ => isTrue trivial

/-- What was passed to `send` has been accepted by the kernel. -/
def Event.Delivered : Event → Prop
  | .shutdown _ given accepted => accepted = given
  | .access _ _ => True

/-! ## Steps -/

section

variable {handler : Option (Handler σ)}

@[simp]
theorem conns_findOrCreate (s : State σ) (id : Nat) :
    (s.findOrCreate id).1.conns = s.conns := by
  unfold State.findOrCreate
  split <;> rfl

theorem conns_parseStep (s : State σ) (call : Activation) (conn : HttpConn) :
    (parseStep handler s call conn).conns = s.conns := by
  unfold parseStep
  split <;> rfl

theorem conns_keepAliveStep (s : State σ) (call : Activation) (resp : HttpResponse)
    (conn : HttpConn) : (keepAliveStep s call resp conn).conns = s.conns := by
  unfold keepAliveStep
  split <;> rfl

/-- A use of the parser state has nothing to do with the connections. -/
theorem touch_conns {s m : State σ} {call : Activation}
    {next : HttpConn → State σ} (same : ∀ conn, (next conn).conns = s.conns)
    {events : List Event} (touched : s.touch call next = (m, events)) :
    m.conns = s.conns ∧ ∀ event ∈ events, event.Delivered := by
  unfold State.touch at touched
  split at touched <;> cases touched
  · rename_i conn _
    refine ⟨same conn, ?_⟩
    intro event member
    cases List.mem_singleton.mp member
    trivial
  · refine ⟨rfl, ?_⟩
    intro event member
    cases List.mem_singleton.mp member
    trivial

theorem Quiet.sendStep {s m : State σ} (quiet : Quiet s.conns) {data : Bytes}
    {caller : Caller} {now : Int} (sent : sendStep s data caller now = some m) :
    Steady m := by
  unfold Loop.sendStep at sent
  split at sent
  · cases sent
    exact steady_of_quiet quiet
  · rename_i entry found
    obtain ⟨⟨path, _⟩, stepped, rfl⟩ := Option.map_eq_some_iff.mp sent
    exact steady_goOn (quiet.erase _) ((quiet _ entry found).1.append stepped)

theorem Steady.flushStep {s m : State σ} (steady : Steady s) {caller : Caller}
    (control : s.control = .flushWrite caller) {result : Option SendResult}
    (flushed : flushStep s caller result = some m) : Steady m := by
  have others := steady.quiet_erase control
  obtain ⟨entry, found, continued⟩ := Option.bind_eq_some_iff.mp flushed
  split at continued
  · split at continued
    · cases continued
    · cases continued
      exact steady_of_quiet others
  · obtain ⟨⟨path, _⟩, stepped, rfl⟩ := Option.map_eq_some_iff.mp continued
    exact steady_goOn others ((steady.tracks _ entry found).flush stepped)

private theorem unblocked_of_not_closing {s : State σ} (none : s.closing? = none)
    (action : Action σ) : Unblocked s action := by
  unfold Unblocked
  split
  · rw [none]
    exact fun entry member => by cases member
  · trivial

private theorem delivered_nil : ∀ event ∈ ([] : List Event), event.Delivered := by
  intro event member
  cases member

/-- One step of the loop: a connection is closed with everything delivered
exactly if its last `::send` has not blocked. -/
theorem Steady.step {s m : State σ} (steady : Steady s) {action : Action σ}
    {events : List Event} (stepped : step handler s action = some (m, events)) :
    Steady m ∧ (Unblocked s action ↔ ∀ event ∈ events, event.Delivered) := by
  unfold Loop.step at stepped
  split at stepped
  · cases stepped
    exact ⟨⟨steady.tracks, steady.flushing⟩, iff_of_true trivial delivered_nil⟩
  · rename_i control
    have quiet := steady.quiet (by simp [control])
    split at stepped
    · cases stepped
      refine ⟨steady_of_quiet ?_, iff_of_true trivial delivered_nil⟩
      exact quiet.insert (tracks_start _ _) rfl
    · cases stepped
  · rename_i control
    have quiet := steady.quiet (by simp [control])
    obtain ⟨entry, found, touched⟩ := Option.map_eq_some_iff.mp stepped
    obtain ⟨conns, delivered⟩ : m.conns = (s.findOrCreate entry.id).1.conns ∧
        ∀ event ∈ events, event.Delivered := by
      refine touch_conns ?_ touched
      exact fun conn => rfl
    rw [conns_findOrCreate] at conns
    exact ⟨steady_of_quiet (conns ▸ quiet), iff_of_true trivial delivered⟩
  · rename_i control
    have quiet := steady.quiet (by simp [control])
    obtain ⟨entry, found, continued⟩ := Option.bind_eq_some_iff.mp stepped
    obtain ⟨⟨path, _⟩, armed, result⟩ := Option.map_eq_some_iff.mp continued
    cases result
    refine ⟨steady_goOn (quiet.erase _) ?_, iff_of_true trivial delivered_nil⟩
    exact (quiet _ entry found).1.writable armed
  · rename_i control
    have quiet := steady.quiet (by simp [control])
    obtain ⟨entry, found, result⟩ := Option.map_eq_some_iff.mp stepped
    cases result
    exact ⟨steady_of_quiet (quiet.erase _), iff_of_true trivial delivered_nil⟩
  · rename_i call now control
    have quiet := steady.quiet (by simp [control])
    obtain ⟨conns, delivered⟩ := touch_conns (conns_parseStep s call)
      (Option.some.inj stepped)
    refine ⟨steady_of_quiet (conns ▸ quiet), iff_of_true ?_ delivered⟩
    exact unblocked_of_not_closing (by simp [State.closing?, control]) _
  · rename_i data caller now control
    have quiet := steady.quiet (by simp [control])
    obtain ⟨later, sent, result⟩ := Option.map_eq_some_iff.mp stepped
    cases result
    refine ⟨quiet.sendStep sent, iff_of_true ?_ delivered_nil⟩
    exact unblocked_of_not_closing (by simp [State.closing?, control]) _
  · rename_i caller result now control
    obtain ⟨later, flushed, same⟩ := Option.map_eq_some_iff.mp stepped
    cases same
    refine ⟨steady.flushStep control flushed, iff_of_true ?_ delivered_nil⟩
    exact unblocked_of_not_closing (by simp [State.closing?, control]) _
  · rename_i call resp now control
    have quiet := steady.quiet (by simp [control])
    obtain ⟨conns, delivered⟩ := touch_conns (conns_keepAliveStep s call resp)
      (Option.some.inj stepped)
    refine ⟨steady_of_quiet (conns ▸ quiet), iff_of_true ?_ delivered⟩
    exact unblocked_of_not_closing (by simp [State.closing?, control]) _
  · rename_i fd now control
    have quiet := steady.quiet (by simp [control])
    have closed := Option.some.inj stepped
    unfold shutdownStep at closed
    split at closed <;> rename_i found <;> cases closed
    · refine ⟨steady_of_quiet quiet, iff_of_true ?_ delivered_nil⟩
      exact unblocked_of_not_closing (by simp [State.closing?, control, found]) _
    · rename_i entry
      refine ⟨steady_of_quiet (quiet.erase _), ?_⟩
      obtain ⟨tracks, idle⟩ := quiet fd entry found
      simp [Unblocked, State.closing?, control, found, Event.Delivered,
        tracks.delivered_iff idle]
  · cases stepped

/-! ## Every run -/

/-- In every run, whenever `HttpServer` closes a connection everything that it
has passed to `send` is delivered, if and only if it never closes one whose
last `::send` has returned `EAGAIN`. -/
theorem run_delivered_iff (handler : Option (Handler σ)) (app : σ)
    (actions : List (Action σ)) (s : State σ)
    (trace : List (Action σ × List Event))
    (ran : Machine.run (Loop.step handler) { app } actions = some (s, trace)) :
    (∀ event ∈ events trace, event.Delivered) ↔
      Machine.Along (Loop.step handler) Unblocked { app } actions := by
  have start : Steady ({ app } : State σ) := by
    apply steady_of_quiet
    intro fd entry found
    cases found
  rw [Machine.along_iff (fun s a m b steady stepped => Steady.step steady stepped)
    start ran]
  rw [events, List.forall_mem_flatMap, List.forall_mem_map]

/-- The steps of one request with `HTTP/1.0`, up to the first `::send`. -/
def oneRequest : List (Action Unit) :=
  [.connected 5 1 0, .message 5 (lit "GET / HTTP/1.0\r\n\r\n"), .run none 0, .run none 0]

/-- The answer of a server without handler to that request. -/
def notFound : Bytes :=
  (respond (none : Option (Handler Unit)) () { keepAlive := false }).2.serialize

/-- The kernel takes the response in two parts. -/
theorem run_delivered_iff_two_parts :
    ∃ s trace, Machine.run (Loop.step none) { app := () }
        (oneRequest ++ [.run (some (.sent 20)) 0, .run (some .intr) 0,
          .run (some (.sent (notFound.length - 20))) 0, .run none 0, .run none 0,
          .run none 0]) = some (s, trace) ∧
      .shutdown 1 notFound notFound ∈ events trace ∧
      ∀ event ∈ events trace, event.Delivered := by
  obtain ⟨⟨s, trace⟩, ran, closed⟩ := Option.map_eq_some_iff.mp (show
    (Machine.run (Loop.step none) { app := () }
      (oneRequest ++ [.run (some (.sent 20)) 0, .run (some .intr) 0,
        .run (some (.sent (notFound.length - 20))) 0, .run none 0, .run none 0,
        .run none 0])).map
      (fun result => decide (.shutdown 1 notFound notFound ∈ events result.2)) =
        some true by decide +kernel)
  refine ⟨s, trace, ran, of_decide_eq_true closed, ?_⟩
  exact (run_delivered_iff none () _ s trace ran).mpr (by decide +kernel)

/-- The kernel takes ten bytes and then has no room. -/
theorem blockedResponse_not_delivered :
    ∃ s trace, Machine.run (Loop.step none) { app := () }
        (oneRequest ++ [.run (some (.sent 10)) 0, .run (some .again) 0, .run none 0,
          .run none 0]) = some (s, trace) ∧
      .shutdown 1 notFound (notFound.take 10) ∈ events trace ∧
      ¬∀ event ∈ events trace, event.Delivered := by
  obtain ⟨⟨s, trace⟩, ran, closed⟩ := Option.map_eq_some_iff.mp (show
    (Machine.run (Loop.step none) { app := () }
      (oneRequest ++ [.run (some (.sent 10)) 0, .run (some .again) 0, .run none 0,
        .run none 0])).map
      (fun result => decide (.shutdown 1 notFound (notFound.take 10) ∈
        events result.2)) = some true by decide +kernel)
  have discarded := of_decide_eq_true closed
  refine ⟨s, trace, ran, discarded, fun delivered => ?_⟩
  have same : notFound.take 10 = notFound := delivered _ discarded
  exact absurd same (by decide +kernel)

end

end Loop

end HttpServer

end MiniNet
