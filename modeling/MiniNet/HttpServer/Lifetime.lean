import MiniNet.HttpServer.Loop

/-!
# `onMessage` and the lifetime of its parser state

`onMessage` uses the parser state of its connection after it has called
`send`.  As long as no `::send` fails while the response of a handler is being
sent, the shard tables still have that state.  When one does fail, the
connection is closed and its parser state freed, and the next thing that
`onMessage` does is to use it.
-/

namespace MiniNet

open Bytes TcpServer

namespace HttpServer

namespace Loop

variable {σ : Type}

/-- The call of `onMessage` that is going to use its pointer again. -/
def Control.call? : Control → Option Activation
  | .parse call | .keepAlive call _ => some call
  | .send _ (.onMessage call _) | .flushWrite (.onMessage call _) => some call
  | _ => none

/-- The response of a handler is being sent. -/
def Control.responding : Control → Bool
  | .flushWrite (.onMessage _ _) => true
  | _ => false

/-- No `::send` fails while the response of a handler is being sent. -/
def Spared (s : State σ) : Action σ → Prop
  | .run (some .error) _ => s.control.responding = false
  | _ => True

instance (s : State σ) : ∀ action : Action σ, Decidable (Spared s action)
  | .run (some .error) _ => inferInstanceAs (Decidable (_ = false))
  | .run (some (.sent _)) _ | .run (some .again) _ | .run (some .intr) _
  | .run none _ | .connected _ _ _ | .message _ _ | .writable _ | .close _
  | .elsewhere _ => isTrue trivial

/-- Whatever is used is still there. -/
def Event.Held : Event → Prop
  | .access _ held => held = true
  | .shutdown _ _ _ => True

/-- The tables have the object of a call, and its connection is open. -/
structure Live (s : State σ) (call : Activation) : Prop where
  object : ∃ conn, s.access call = some conn
  entry : ∃ entry, s.conns.lookup call.fd = some entry ∧ entry.id = call.id

def AllLive (s : State σ) : Prop :=
  ∀ call, s.control.call? = some call → Live s call

theorem AllLive.of_none {s : State σ} (idle : s.control.call? = none) :
    AllLive s := by
  intro call current
  rw [idle] at current
  cases current

theorem AllLive.of_some {s : State σ} {call : Activation}
    (current : s.control.call? = some call) (live : Live s call) : AllLive s := by
  intro other same
  rw [current] at same
  cases same
  exact live

@[simp]
theorem access_store (s : State σ) (call : Activation) (conn : HttpConn) :
    (s.store call conn).access call = some conn := by
  simp [State.access, State.store]

@[simp]
theorem access_drop (s : State σ) (call : Activation) :
    (s.drop call.id).access call = none := by
  simp [State.access, State.drop]

theorem access_congr {s m : State σ} (same : m.shards = s.shards)
    (call : Activation) : m.access call = s.access call := by
  rw [State.access, State.access, same]

theorem Live.congr {s m : State σ} {call : Activation} (live : Live s call)
    (shards : m.shards = s.shards) (conns : m.conns = s.conns) : Live m call := by
  constructor
  · rw [access_congr shards]
    exact live.object
  · rw [conns]
    exact live.entry

theorem Live.store {s : State σ} {call : Activation} (live : Live s call)
    (conn : HttpConn) : Live (s.store call conn) call := by
  constructor
  · exact ⟨conn, access_store s call conn⟩
  · exact live.entry

/-- `findOrCreate` returns what the table holds afterwards. -/
theorem findOrCreate_live {s : State σ} {fd : Nat} {entry : Entry}
    (found : s.conns.lookup fd = some entry) :
    Live (s.findOrCreate entry.id).1
      { fd, id := entry.id, object := (s.findOrCreate entry.id).2 } := by
  unfold State.findOrCreate
  split
  · rename_i slot stored
    constructor
    · exact ⟨slot.conn, by simp [State.access, stored]⟩
    · exact ⟨entry, found, rfl⟩
  · constructor
    · exact ⟨{}, by simp [State.access]⟩
    · exact ⟨entry, found, rfl⟩

/-- A use of the pointer of a live call. -/
theorem touch_live {s m : State σ} {call : Activation} (live : Live s call)
    {next : HttpConn → State σ} {events : List Event}
    (touched : s.touch call next = (m, events)) :
    (∃ conn, m = next conn) ∧ ∀ event ∈ events, event.Held := by
  obtain ⟨conn, pointed⟩ := live.object
  unfold State.touch at touched
  rw [pointed] at touched
  cases touched
  refine ⟨⟨conn, rfl⟩, ?_⟩
  intro event member
  cases List.mem_singleton.mp member
  rfl

theorem allLive_goOn {s : State σ} {caller : Caller} {entry later : Entry}
    (found : s.conns.lookup caller.fd = some entry) (sameId : later.id = entry.id)
    (live : ∀ call resp, caller = .onMessage call resp → Live s call) :
    AllLive (s.goOn caller later) := by
  cases caller with
  | onMessage call resp =>
      have current : (s.goOn (.onMessage call resp) later).control.call? =
          some call := by
        simp only [State.goOn, Caller.resume]
        split <;> rfl
      apply AllLive.of_some current
      obtain ⟨object, other, foundToo, id⟩ := live call resp rfl
      cases found.symm.trans foundToo
      constructor
      · exact object
      · exact ⟨later, AList.lookup_insert _, sameId.trans id⟩
  | handleError fd =>
      apply AllLive.of_none
      simp only [State.goOn, Caller.resume]
      split <;> rfl
  | handleEvent fd =>
      apply AllLive.of_none
      simp only [State.goOn, Caller.resume]
      split <;> rfl

section

variable {handler : Option (Handler σ)}

theorem allLive_parseStep {s : State σ} {call : Activation} (live : Live s call)
    (conn : HttpConn) : AllLive (parseStep handler s call conn) := by
  unfold parseStep
  split
  · exact AllLive.of_none rfl
  · exact AllLive.of_none rfl
  · exact AllLive.of_some rfl ((live.store _).congr rfl rfl)

theorem allLive_keepAliveStep {s : State σ} {call : Activation}
    (live : Live s call) (resp : HttpResponse) (conn : HttpConn) :
    AllLive (keepAliveStep s call resp conn) := by
  unfold keepAliveStep
  split
  · exact AllLive.of_none rfl
  · exact AllLive.of_some rfl ((live.store _).congr rfl rfl)

theorem allLive_sendStep {s m : State σ} {data : Bytes} {caller : Caller}
    {now : Int} (live : ∀ call resp, caller = .onMessage call resp → Live s call)
    (sent : sendStep s data caller now = some m) : AllLive m := by
  unfold sendStep at sent
  split at sent
  · cases sent
    cases caller with
    | onMessage call resp =>
        exact AllLive.of_some rfl ((live call resp rfl).congr rfl rfl)
    | handleError fd => exact AllLive.of_none rfl
    | handleEvent fd => exact AllLive.of_none rfl
  · rename_i entry found
    obtain ⟨⟨path, _⟩, -, rfl⟩ := Option.map_eq_some_iff.mp sent
    exact allLive_goOn found rfl live

theorem allLive_flushStep {s m : State σ} {caller : Caller}
    {result : Option SendResult}
    (live : ∀ call resp, caller = .onMessage call resp → Live s call)
    (spared : result = some .error → (Control.flushWrite caller).responding = false)
    (flushed : flushStep s caller result = some m) : AllLive m := by
  obtain ⟨entry, found, continued⟩ := Option.bind_eq_some_iff.mp flushed
  split at continued
  · rename_i failed
    split at continued
    · cases continued
    · cases continued
      cases caller with
      | onMessage call resp => cases spared failed
      | handleError fd => exact AllLive.of_none rfl
      | handleEvent fd => exact AllLive.of_none rfl
  · obtain ⟨⟨path, _⟩, -, rfl⟩ := Option.map_eq_some_iff.mp continued
    exact allLive_goOn found rfl live

private theorem held_nil : ∀ event ∈ ([] : List Event), event.Held := by
  intro event member
  cases member

/-- One step of the loop. -/
theorem AllLive.step {s m : State σ} (allLive : AllLive s) {action : Action σ}
    (spared : Spared s action) {events : List Event}
    (stepped : step handler s action = some (m, events)) :
    AllLive m ∧ ∀ event ∈ events, event.Held := by
  have live : ∀ {call : Activation}, s.control.call? = some call → Live s call :=
    fun current => allLive _ current
  unfold Loop.step at stepped
  split at stepped
  · cases stepped
    exact ⟨fun call current => (live current).congr rfl rfl, held_nil⟩
  · rename_i control
    split at stepped
    · cases stepped
      refine ⟨AllLive.of_none ?_, held_nil⟩
      simp only [State.drop, control, Control.call?]
    · cases stepped
  · obtain ⟨entry, found, touched⟩ := Option.map_eq_some_iff.mp stepped
    have created := findOrCreate_live found
    obtain ⟨⟨conn, rfl⟩, held⟩ := touch_live created touched
    exact ⟨AllLive.of_some rfl ((created.store _).congr rfl rfl), held⟩
  · obtain ⟨entry, found, continued⟩ := Option.bind_eq_some_iff.mp stepped
    obtain ⟨⟨path, _⟩, -, result⟩ := Option.map_eq_some_iff.mp continued
    cases result
    exact ⟨allLive_goOn found rfl nofun, held_nil⟩
  · rename_i control
    obtain ⟨entry, -, result⟩ := Option.map_eq_some_iff.mp stepped
    cases result
    refine ⟨AllLive.of_none ?_, held_nil⟩
    simp only [State.closeConnInLoop, State.drop, control, Control.call?]
  · rename_i call _ control
    have calling : Live s call := live (by rw [control]; rfl)
    obtain ⟨⟨conn, rfl⟩, held⟩ := touch_live calling (Option.some.inj stepped)
    exact ⟨allLive_parseStep calling conn, held⟩
  · rename_i data caller now control
    obtain ⟨later, sent, result⟩ := Option.map_eq_some_iff.mp stepped
    cases result
    refine ⟨allLive_sendStep ?_ sent, held_nil⟩
    rintro call resp rfl
    exact live (by rw [control]; rfl)
  · rename_i caller result _ control
    obtain ⟨later, flushed, same⟩ := Option.map_eq_some_iff.mp stepped
    cases same
    refine ⟨allLive_flushStep ?_ ?_ flushed, held_nil⟩
    · rintro call resp rfl
      exact live (by rw [control]; rfl)
    · rintro rfl
      rw [← control]
      exact spared
  · rename_i call resp _ control
    have calling : Live s call := live (by rw [control]; rfl)
    obtain ⟨⟨conn, rfl⟩, held⟩ := touch_live calling (Option.some.inj stepped)
    exact ⟨allLive_keepAliveStep calling resp conn, held⟩
  · have closed := Option.some.inj stepped
    unfold shutdownStep at closed
    split at closed <;> cases closed
    · exact ⟨AllLive.of_none rfl, held_nil⟩
    · refine ⟨AllLive.of_none rfl, ?_⟩
      intro event member
      cases List.mem_singleton.mp member
      trivial
  · cases stepped

/-! ## When a `::send` fails -/

/-- The loop is about to use the freed object of this call. -/
structure Doomed (s : State σ) (call : Activation) : Prop where
  control : ∃ resp, s.control = .keepAlive call resp
  freed : s.access call = none

/-- The failure closes the connection and frees its parser state. -/
theorem AllLive.doomed {s m : State σ} (allLive : AllLive s) {action : Action σ}
    (failed : ¬Spared s action) {events : List Event}
    (stepped : Loop.step handler s action = some (m, events)) :
    ∃ call, Doomed m call := by
  unfold Spared at failed
  split at failed
  swap
  · exact absurd trivial failed
  rename_i now
  have responding : s.control.responding = true := by simpa using failed
  unfold Control.responding at responding
  split at responding
  swap
  · cases responding
  rename_i call resp control
  obtain ⟨entry, found, sameId⟩ := (allLive call (by rw [control]; rfl)).entry
  simp only [Loop.step, control, flushStep, Caller.fd, found, Option.bind_some,
    if_true] at stepped
  split at stepped
  · cases stepped
  · cases stepped
    refine ⟨call, ⟨resp, rfl⟩, ?_⟩
    rw [← access_drop s call, ← sameId]
    exact access_congr rfl call

/-- Nothing but the use of the freed object can come next. -/
theorem Doomed.run {s t : State σ} {call : Activation} (doomed : Doomed s call)
    {actions : List (Action σ)} {trace : List (Action σ × List Event)}
    (ran : Machine.run (Loop.step handler) s actions = some (t, trace))
    (held : ∀ event ∈ trace.flatMap Prod.snd, event.Held) : Doomed t call := by
  induction actions generalizing s trace with
  | nil =>
      cases ran
      exact doomed
  | cons action actions ih =>
      obtain ⟨m, events, rest, stepped, continued, rfl⟩ :=
        Machine.run_cons_eq_some.mp ran
      rw [List.flatMap_cons, List.forall_mem_append] at held
      obtain ⟨⟨resp, control⟩, freed⟩ := doomed
      apply ih _ continued held.2
      cases action with
      | elsewhere app =>
          simp only [Loop.step] at stepped
          cases stepped
          exact ⟨⟨resp, control⟩, freed⟩
      | run result now =>
          cases result with
          | none =>
              simp only [Loop.step, control, State.touch, freed] at stepped
              cases stepped
              cases held.1 _ (List.mem_singleton_self _)
          | some result => simp [Loop.step, control] at stepped
      | _ => simp [Loop.step, control] at stepped

/-! ## Every run -/

private theorem along_spared_of_held {s t : State σ} (allLive : AllLive s)
    {actions : List (Action σ)} {trace : List (Action σ × List Event)}
    (ran : Machine.run (Loop.step handler) s actions = some (t, trace))
    (finished : t.control.call? = none) (held : ∀ event ∈ events trace, event.Held) :
    Machine.Along (Loop.step handler) Spared s actions := by
  induction actions generalizing s trace with
  | nil => trivial
  | cons action actions ih =>
      obtain ⟨m, output, rest, stepped, continued, rfl⟩ :=
        Machine.run_cons_eq_some.mp ran
      rw [events, List.flatMap_cons, List.forall_mem_append] at held
      have spared : Spared s action := by
        by_contra failed
        obtain ⟨call, doomed⟩ := allLive.doomed failed stepped
        obtain ⟨⟨resp, control⟩, -⟩ := doomed.run continued held.2
        rw [control] at finished
        cases finished
      refine ⟨spared, fun later output' again => ?_⟩
      cases stepped.symm.trans again
      exact ih (allLive.step spared stepped).1 continued held.2

/-- In every run in which no `::send` fails while the response of a handler is
being sent, whatever `onMessage` uses is still there; and in every run that
does not stop inside `onMessage` it is so only then. -/
theorem run_held (handler : Option (Handler σ)) (app : σ)
    (actions : List (Action σ)) (s : State σ)
    (trace : List (Action σ × List Event))
    (ran : Machine.run (Loop.step handler) { app } actions = some (s, trace)) :
    (Machine.Along (Loop.step handler) Spared { app } actions →
        ∀ event ∈ events trace, event.Held) ∧
      (s.control.call? = none → (∀ event ∈ events trace, event.Held) →
        Machine.Along (Loop.step handler) Spared { app } actions) := by
  have start : AllLive ({ app } : State σ) := AllLive.of_none rfl
  refine ⟨fun spared => ?_, along_spared_of_held start ran⟩
  refine (Machine.run_along (motive := fun trace s =>
    AllLive s ∧ ∀ event ∈ events trace, event.Held) ?_ ⟨start, held_nil⟩
    spared ran).2
  rintro past s action m output ⟨allLive, held⟩ allowed stepped
  obtain ⟨later, heldToo⟩ := allLive.step allowed stepped
  refine ⟨later, ?_⟩
  have grown : events (past ++ [(action, output)]) = events past ++ output := by
    simp [events]
  rw [grown, List.forall_mem_append]
  exact ⟨held, heldToo⟩

/-- A connection on descriptor 5 receives this chunk. -/
def chunk (data : Bytes) : List (Action Unit) := [.connected 5 1 0, .message 5 data]

/-- Two requests in one chunk.  The first response stays behind in part. -/
theorem run_held_pipelined :
    ∃ s trace, Machine.run (Loop.step none) { app := () }
        (chunk (lit "GET / HTTP/1.1\r\n\r\nGET / HTTP/1.0\r\n\r\n") ++
          [.run none 0, .run none 0, .run (some (.sent 20)) 0, .run (some .again) 0,
            .run none 0, .run none 0, .run none 0, .run none 0]) = some (s, trace) ∧
      s.requests = 2 ∧ ∀ event ∈ events trace, event.Held := by
  obtain ⟨⟨s, trace⟩, ran, requests⟩ := Option.map_eq_some_iff.mp (show
    (Machine.run (Loop.step none) { app := () }
      (chunk (lit "GET / HTTP/1.1\r\n\r\nGET / HTTP/1.0\r\n\r\n") ++
        [.run none 0, .run none 0, .run (some (.sent 20)) 0, .run (some .again) 0,
          .run none 0, .run none 0, .run none 0, .run none 0])).map
      (fun result => result.1.requests) = some 2 by decide +kernel)
  exact ⟨s, trace, ran, requests, (run_held none () _ s trace ran).1 (by decide +kernel)⟩

/-- The peer has gone when the response is sent. -/
theorem resetDuringResponse_not_held :
    ∃ s trace, Machine.run (Loop.step none) { app := () }
        (chunk (lit "GET / HTTP/1.1\r\n\r\n") ++
          [.run none 0, .run none 0, .run (some .error) 0, .run none 0]) =
          some (s, trace) ∧
      .access { fd := 5, id := 1, object := 0 } false ∈ events trace ∧
      ¬∀ event ∈ events trace, event.Held := by
  obtain ⟨⟨s, trace⟩, ran, log⟩ := Option.map_eq_some_iff.mp (show
    (Machine.run (Loop.step none) { app := () }
      (chunk (lit "GET / HTTP/1.1\r\n\r\n") ++
        [.run none 0, .run none 0, .run (some .error) 0, .run none 0])).map
      (fun result => events result.2) =
      some [.access { fd := 5, id := 1, object := 0 } true,
        .access { fd := 5, id := 1, object := 0 } true,
        .access { fd := 5, id := 1, object := 0 } false] by decide +kernel)
  refine ⟨s, trace, ran, ?_⟩
  rw [log]
  refine ⟨by decide, fun held => ?_⟩
  cases held (.access { fd := 5, id := 1, object := 0 } false) (by decide)

end

end Loop

end HttpServer

end MiniNet
