import MiniNet.TcpServer.Conn
import MiniNet.Lib.Machine

/-!
# Nothing is lost on the write path

An open connection on its owner loop: calls of `appendAndFlush`, calls of
`flushWrite` for `EPOLLOUT`, and the results of the `::send` calls these make.
The kernel has accepted a first part of everything that was appended and
`out` holds the rest; between callbacks the channel is armed exactly when
there is a rest.
-/

namespace MiniNet

open Bytes

namespace TcpServer

namespace WritePath

structure State where
  conn : ConnState
  /-- The loop of `flushWrite` is running. -/
  flushing : Bool := false
  /-- What the kernel has accepted so far. -/
  accepted : Bytes := []

inductive Action where
  | appendAndFlush (data : Bytes) (now : Int)
  | writable
  | flush (result : Option SendResult)
  deriving DecidableEq

/-- The bytes that a result of `::send` hands to the kernel. -/
def taken (out : Bytes) : Option SendResult → Bytes
  | some (.sent n) => out.take n
  | _ => []

/-- Callbacks start only between callbacks.  `::send` does not fail in any
other way than with `EAGAIN` and `EINTR` here. -/
def step (s : State) : Action → Option (State × Unit)
  | .appendAndFlush data now =>
      if s.flushing then none
      else
        let conn := s.conn.append data now
        some ({ s with conn, flushing := !conn.writing }, ())
  | .writable =>
      if s.flushing ∨ ¬s.conn.channel.Armed then none
      else some ({ s with flushing := true }, ())
  | .flush result =>
      if s.flushing then
        match s.conn.flushTurn result with
        | some (conn, .loop) =>
            some ({ s with conn, accepted := s.accepted ++ taken s.conn.out result }, ())
        | some (conn, .return) =>
            some ({ s with
              conn
              flushing := false
              accepted := s.accepted ++ taken s.conn.out result }, ())
        | _ => none
      else none

/-- A new connection. -/
def start (now : Int) : State := { conn := .opened now }

/-- The data of the `appendAndFlush` calls, in order. -/
def appended (actions : List Action) : Bytes :=
  actions.flatMap fun
    | .appendAndFlush data _ => data
    | _ => []

theorem appended_append (actions more : List Action) :
    appended (actions ++ more) = appended actions ++ appended more :=
  List.flatMap_append

/-- What holds in every state: `given` is all that was appended. -/
structure Intact (given : Bytes) (s : State) : Prop where
  stream : s.accepted ++ s.conn.out = given
  inStep : s.conn.InStep
  waits : s.flushing = false → (s.conn.writing = true ↔ s.conn.out ≠ [])

theorem intact_start (now : Int) : Intact [] (start now) where
  stream := rfl
  inStep := ConnState.inStep_opened now
  waits _ := iff_of_false Bool.false_ne_true (not_not.mpr rfl)

theorem Intact.append {given : Bytes} {s : State} (intact : Intact given s)
    (idle : s.flushing = false) (data : Bytes) (now : Int) :
    Intact (given ++ data) { s with
      conn := s.conn.append data now
      flushing := !(s.conn.append data now).writing } := by
  constructor
  · rw [← intact.stream, List.append_assoc]
    rfl
  · exact intact.inStep
  · intro stays
    have writing : s.conn.writing = true := by
      simpa [ConnState.append] using stays
    have pending := (intact.waits idle).mp writing
    apply iff_of_true
    · exact writing
    · exact List.append_ne_nil_of_left_ne_nil pending data

theorem Intact.loop {given : Bytes} {s : State} (intact : Intact given s)
    (running : s.flushing = true) {result : Option SendResult} {conn : ConnState}
    (turned : s.conn.flushTurn result = some (conn, .loop)) :
    Intact given { s with
      conn
      accepted := s.accepted ++ taken s.conn.out result } := by
  have busy : ∀ {P : Prop}, s.flushing = false → P := by
    intro P idle
    rw [running] at idle
    cases idle
  rcases ConnState.flushTurn_cases turned with
    ⟨_, _, _, next⟩ | ⟨_, ⟨n, rfl, _, _, rfl, _⟩ | ⟨_, _, next⟩ |
      ⟨rfl, rfl, _⟩ | ⟨_, _, next⟩⟩
  · cases next
  · refine ⟨?_, intact.inStep, busy⟩
    rw [← intact.stream, List.append_assoc]
    exact congrArg _ (List.take_append_drop n s.conn.out)
  · cases next
  · refine ⟨?_, intact.inStep, busy⟩
    simpa [taken] using intact.stream
  · cases next

theorem Intact.return {given : Bytes} {s : State} (intact : Intact given s)
    {result : Option SendResult} {conn : ConnState}
    (turned : s.conn.flushTurn result = some (conn, .return)) :
    Intact given { s with
      conn
      flushing := false
      accepted := s.accepted ++ taken s.conn.out result } := by
  rcases ConnState.flushTurn_cases turned with
    ⟨rfl, empty, rfl, _⟩ | ⟨pending, ⟨_, _, _, _, _, next⟩ | ⟨rfl, rfl, _⟩ |
      ⟨_, _, next⟩ | ⟨_, _, next⟩⟩
  · obtain ⟨inStep, stopped, same⟩ := intact.inStep.flushed
    refine ⟨?_, inStep, fun _ => ?_⟩
    · simpa [taken, same] using intact.stream
    · apply iff_of_false
      · exact Bool.eq_false_iff.mp stopped
      · rw [same]
        exact not_not.mpr empty
  · cases next
  · obtain ⟨inStep, waiting, same⟩ := intact.inStep.awaitWritable
    refine ⟨?_, inStep, fun _ => ?_⟩
    · simpa [taken, same] using intact.stream
    · apply iff_of_true
      · exact waiting
      · rw [same]
        exact pending
  · cases next
  · cases next

theorem Intact.step {given : Bytes} {s later : State} {action : Action}
    (intact : Intact given s)
    (stepped : WritePath.step s action = some (later, ())) :
    Intact (given ++ appended [action]) later := by
  cases action with
  | appendAndFlush data now =>
      simp only [WritePath.step] at stepped
      split at stepped
      · cases stepped
      · rename_i idle
        cases stepped
        have same : appended [.appendAndFlush data now] = data :=
          List.flatMap_singleton _ _
        rw [same]
        exact intact.append (Bool.eq_false_iff.mpr idle) data now
  | writable =>
      simp only [WritePath.step] at stepped
      split at stepped
      · cases stepped
      · cases stepped
        have same : given ++ appended [.writable] = given := List.append_nil given
        rw [same]
        exact ⟨intact.stream, intact.inStep, fun idle => by cases idle⟩
  | flush result =>
      have same : given ++ appended [.flush result] = given := List.append_nil given
      rw [same]
      simp only [WritePath.step] at stepped
      split at stepped
      · rename_i running
        split at stepped
        · rename_i conn turned
          cases stepped
          exact intact.loop running turned
        · rename_i conn turned
          cases stepped
          exact intact.return turned
        · cases stepped
      · cases stepped

/-- In every state that a new connection can reach, the bytes accepted by the
kernel and the bytes in `out` together are the appended bytes, in order; and
between callbacks `writing`, a non-empty `out` and `EPOLLOUT` in the mask are
the same. -/
theorem run_writes_intact {now : Int} {actions : List Action} {s : State}
    {trace : List (Action × Unit)}
    (ran : Machine.run step (start now) actions = some (s, trace)) :
    s.accepted ++ s.conn.out = appended actions ∧
      (s.flushing = false →
        (s.conn.writing = true ↔ s.conn.out ≠ []) ∧
          (s.conn.writing = true ↔ s.conn.channel.Armed)) := by
  have intact : Intact (appended (trace.map Prod.fst)) s := by
    refine Machine.run_induct (motive := fun past s =>
      Intact (appended (past.map Prod.fst)) s) ?_ (intact_start now) ran
    intro past s action later _ intact stepped
    rw [List.map_append, appended_append]
    exact intact.step stepped
  rw [Machine.map_fst_run ran] at intact
  exact ⟨intact.stream, fun idle => ⟨intact.waits idle, intact.inStep⟩⟩

theorem run_writes_intact_backpressure :
    let actions : List Action :=
      [.appendAndFlush [1, 2, 3] 5, .flush (some (.sent 1)), .flush (some .again),
        .appendAndFlush [4] 6, .writable, .flush (some .intr),
        .flush (some (.sent 2))]
    ∃ s trace, Machine.run step (start 0) actions = some (s, trace) ∧
      s.accepted ++ s.conn.out = [1, 2, 3, 4] := by
  intro actions
  have ends : (Machine.run step (start 0) actions).isSome := by decide
  obtain ⟨⟨s, trace⟩, ran⟩ := Option.isSome_iff_exists.mp ends
  exact ⟨s, trace, ran, (run_writes_intact ran).1⟩

end WritePath

end TcpServer

end MiniNet
