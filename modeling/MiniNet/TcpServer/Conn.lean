import MiniNet.Channel
import MiniNet.Lib.Bytes

/-!
# The write side of a connection

`TcpServer::Conn` holds the bytes that the kernel has not yet accepted.
`appendAndFlush` adds to them and `flushWrite` offers them to the kernel until
they are gone or the kernel does not take more; then the channel asks for
`EPOLLOUT`.  One turn of the loop of `flushWrite` is one `::send`, whose
result is an input.
-/

namespace MiniNet

open Bytes

namespace TcpServer

/-- The mutable part of a `Conn` that writing is about. -/
structure ConnState where
  channel : Channel := {}
  out : Bytes := []
  writing : Bool := false
  lastActiveMs : Int := 0
  deriving DecidableEq

/-- The result of `::send`; `error` is any other outcome than a positive count,
`EAGAIN` (`EWOULDBLOCK`) and `EINTR`. -/
inductive SendResult where
  | sent (n : Nat)
  | again
  | intr
  | error
  deriving DecidableEq

/-- How the loop of `flushWrite` goes on after a turn. -/
inductive Flush where
  | loop
  | return
  | closeConn
  deriving DecidableEq

namespace ConnState

/-- A connection as `addConnection` sets it up. -/
def opened (now : Int) : ConnState :=
  { channel := ({} : Channel).enableReading, lastActiveMs := now }

/-- `appendAndFlush` up to the call of `flushWrite`. -/
def append (conn : ConnState) (data : Bytes) (now : Int) : ConnState :=
  { conn with out := conn.out ++ data, lastActiveMs := now }

/-- `flushWrite` after its loop. -/
def flushed (conn : ConnState) : ConnState :=
  if conn.writing then
    { conn with writing := false, channel := conn.channel.disableWriting }
  else conn

def awaitWritable (conn : ConnState) : ConnState :=
  if !conn.writing then
    { conn with writing := true, channel := conn.channel.enableWriting }
  else conn

/-- One turn of the loop of `flushWrite`.  There is no `::send`, and so no
result, when nothing is left to write; otherwise the kernel takes at least
one byte and at most what it is offered, or fails. -/
def flushTurn (conn : ConnState) : Option SendResult → Option (ConnState × Flush)
  | none => if conn.out = [] then some (conn.flushed, .return) else none
  | some result =>
      if conn.out = [] then none
      else
        match result with
        | .sent n =>
            if 0 < n ∧ n ≤ conn.out.length then
              some ({ conn with out := conn.out.drop n }, .loop)
            else none
        | .again => some (conn.awaitWritable, .return)
        | .intr => some (conn, .loop)
        | .error => some (conn, .closeConn)

/-! ## Waiting for the descriptor to become writable -/

/-- `writing` and the mask of the channel agree. -/
def InStep (conn : ConnState) : Prop := conn.writing = true ↔ conn.channel.Armed

theorem inStep_opened (now : Int) : (opened now).InStep := by
  constructor
  · intro writing
    cases writing
  · intro armed
    exact absurd armed (show ¬({} : Channel).enableReading.Armed by decide)

theorem InStep.flushed {conn : ConnState} (inStep : conn.InStep) :
    conn.flushed.InStep ∧ conn.flushed.writing = false ∧
      conn.flushed.out = conn.out := by
  unfold ConnState.flushed
  split
  · have off := Channel.not_armed_disableWriting conn.channel
    exact ⟨iff_of_false Bool.false_ne_true off, rfl, rfl⟩
  · rename_i idle
    exact ⟨inStep, Bool.eq_false_iff.mpr idle, rfl⟩

theorem InStep.awaitWritable {conn : ConnState} (inStep : conn.InStep) :
    conn.awaitWritable.InStep ∧ conn.awaitWritable.writing = true ∧
      conn.awaitWritable.out = conn.out := by
  unfold ConnState.awaitWritable
  split
  · have on := Channel.armed_enableWriting conn.channel
    exact ⟨iff_of_true rfl on, rfl, rfl⟩
  · rename_i writing
    refine ⟨inStep, ?_, rfl⟩
    simpa using writing

/-- What one turn of `flushWrite` can do. -/
theorem flushTurn_cases {conn later : ConnState} {result : Option SendResult}
    {next : Flush} (turned : conn.flushTurn result = some (later, next)) :
    (result = none ∧ conn.out = [] ∧ later = conn.flushed ∧ next = .return) ∨
      (conn.out ≠ [] ∧
        ((∃ n, result = some (.sent n) ∧ 0 < n ∧ n ≤ conn.out.length ∧
            later = { conn with out := conn.out.drop n } ∧ next = .loop) ∨
          (result = some .again ∧ later = conn.awaitWritable ∧ next = .return) ∨
          (result = some .intr ∧ later = conn ∧ next = .loop) ∨
          (result = some .error ∧ later = conn ∧ next = .closeConn))) := by
  by_cases pending : conn.out = []
  · apply Or.inl
    cases result with
    | none =>
        simp only [flushTurn, pending, if_true, Option.some.injEq,
          Prod.mk.injEq] at turned
        exact ⟨rfl, pending, turned.1.symm, turned.2.symm⟩
    | some result => simp [flushTurn, pending] at turned
  · apply Or.inr
    refine ⟨pending, ?_⟩
    rcases result with _ | n | _ | _ | _
    · simp [flushTurn, pending] at turned
    · apply Or.inl
      simp only [flushTurn, pending, if_false] at turned
      split at turned
      · rename_i bounds
        cases turned
        exact ⟨n, rfl, bounds.1, bounds.2, rfl, rfl⟩
      · cases turned
    all_goals
      simp only [flushTurn, pending, if_false, Option.some.injEq,
        Prod.mk.injEq] at turned
      obtain ⟨rfl, rfl⟩ := turned
    · exact .inr (.inl ⟨rfl, rfl, rfl⟩)
    · exact .inr (.inr (.inl ⟨rfl, rfl, rfl⟩))
    · exact .inr (.inr (.inr ⟨rfl, rfl, rfl⟩))

end ConnState

end TcpServer

end MiniNet
