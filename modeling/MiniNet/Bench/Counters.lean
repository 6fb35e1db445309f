import MiniNet.Bench.Handlers

/-!
# Connection counters and the start line

A handler changes one connection and keeps what the counters owe to the
others.  So the counters are the numbers of connections in the states they
stand for, and nothing is sent before the last connection attempt is over.
-/

namespace MiniNet

open Bytes

namespace Bench

/-- The share of a connection in `alive_count_`. -/
def ConnState.live : ConnState → Nat
  | .connecting | .waiting | .ready => 1
  | .done | .failed => 0

/-- The share of a connection in `connecting_count_`. -/
def ConnState.pending : ConnState → Nat
  | .connecting => 1
  | _ => 0

namespace Turn

variable {k : Turn}

theorem completeEchoes_state (k : Turn) (count : Nat) :
    (k.completeEchoes count).conn.state = k.conn.state := by
  induction count generalizing k with
  | zero => rfl
  | succ count ih => exact ih _

/-- A connection that goes on reading is in the state that it was in. -/
theorem receiveOctets_state {data : Bytes} (received : (k.receiveOctets data).1 = true) :
    (k.receiveOctets data).2.conn.state = k.conn.state := by
  revert received
  unfold receiveOctets
  simp only
  split
  · unfold drain
    simp only
    split
    · exact fun _ => rfl
    · exact fun failed => absurd failed Bool.false_ne_true
  · unfold echo
    split
    · exact fun failed => absurd failed Bool.false_ne_true
    · exact fun _ => completeEchoes_state _ _

end Turn

/-- The shares of the other connections, whether the start is over, and whether
the connection at hand may still be waiting then. -/
structure Rest where
  alive : Nat
  connecting : Nat
  started : Bool
  waiting : Bool

/-- The counters are the shares of the others and of the connection at hand. -/
structure Balanced (r : Rest) (k : Turn) : Prop where
  alive : k.client.aliveCount = r.alive + k.conn.state.live
  connecting : k.client.connectingCount = r.connecting + k.conn.state.pending
  opened : k.conn.opened = true ↔ k.conn.state.live = 1
  started : k.client.started = r.started
  before : r.started = false → k.conn.state ≠ .ready ∧ k.client.totalBytesOut = 0
  after : r.started = true →
    k.conn.state ≠ .connecting ∧ (r.waiting = false → k.conn.state ≠ .waiting)

namespace Balanced

variable {r : Rest} {k : Turn}

/-- A change elsewhere. -/
theorem congr {k' : Turn} (balanced : Balanced r k)
    (alive : k'.client.aliveCount = k.client.aliveCount)
    (connecting : k'.client.connectingCount = k.client.connectingCount)
    (started : k'.client.started = k.client.started)
    (sent : k'.client.totalBytesOut = k.client.totalBytesOut)
    (opened : k'.conn.opened = k.conn.opened) (state : k'.conn.state = k.conn.state) :
    Balanced r k' where
  alive := by rw [alive, state, balanced.alive]
  connecting := by rw [connecting, state, balanced.connecting]
  opened := by rw [opened, state, balanced.opened]
  started := by rw [started, balanced.started]
  before := by
    rw [state, sent]
    exact balanced.before
  after := by
    rw [state]
    exact balanced.after

theorem calm {k' : Turn} (balanced : Balanced r k) (same : k'.calm = k.calm) :
    Balanced r k' :=
  balanced.congr (congrArg (·.client.aliveCount) same)
    (congrArg (·.client.connectingCount) same) (congrArg (·.client.started) same)
    (congrArg (·.client.totalBytesOut) same) (congrArg (·.conn.opened) same)
    (congrArg (·.conn.state) same)

/-! ## Changes of state -/

/-- A connection that was open is closed. -/
theorem shut {k' : Turn} (balanced : Balanced r k) (one : k.conn.state.live = 1)
    (closed : k'.conn.state = .done ∨ k'.conn.state = .failed)
    (alive : k'.client.aliveCount = k.client.aliveCount - 1)
    (connecting : k'.client.connectingCount = k.client.connectingCount - k.conn.state.pending)
    (started : k'.client.started = k.client.started)
    (sent : k'.client.totalBytesOut = k.client.totalBytesOut)
    (opened : k'.conn.opened = false) : Balanced r k' := by
  have shares : k'.conn.state.live = 0 ∧ k'.conn.state.pending = 0 := by
    rcases closed with state | state <;> rw [state] <;> exact ⟨rfl, rfl⟩
  have gone (state : ConnState) (live : state.live = 1) : k'.conn.state ≠ state := by
    rintro rfl
    exact absurd (shares.1.symm.trans live) Nat.zero_ne_one
  refine ⟨?_, ?_, ?_, started.trans balanced.started, ?_, ?_⟩
  · rw [alive, balanced.alive, one, shares.1]
    rfl
  · rw [connecting, balanced.connecting, shares.2, Nat.add_sub_cancel]
    rfl
  · rw [opened, shares.1]
    exact iff_of_false Bool.false_ne_true Nat.zero_ne_one
  · exact fun notStarted =>
      ⟨gone _ rfl, sent.trans (balanced.before notStarted).2⟩
  · exact fun _ => ⟨gone _ rfl, fun _ => gone _ rfl⟩

/-- A connection past its attempt is closed. -/
theorem closeConn (balanced : Balanced r k) (success : Bool)
    (open_ : k.conn.state = .waiting ∨ k.conn.state = .ready) :
    Balanced r (k.closeConn success) := by
  have shares : k.conn.state.live = 1 ∧ k.conn.state.pending = 0 := by
    rcases open_ with state | state <;> rw [state] <;> exact ⟨rfl, rfl⟩
  refine balanced.shut shares.1 ?_ rfl ?_ rfl rfl rfl
  · cases success with
    | true => exact .inl rfl
    | false => exact .inr rfl
  · rw [shares.2]
    rfl

theorem failConn (balanced : Balanced r k) (category : Bytes) :
    Balanced r (k.failConn category) := by
  unfold Turn.failConn
  split
  · exact balanced
  · rename_i running
    have one : k.conn.state.live = 1 := by
      cases state : k.conn.state with
      | connecting | waiting | ready => rfl
      | done => exact absurd (.inr state) running
      | failed => exact absurd (.inl state) running
    refine balanced.shut one (.inr rfl) rfl ?_ rfl rfl rfl
    cases state : k.conn.state with
    | connecting | waiting | ready | done | failed =>
        simp [Turn.closeConn, ConnState.pending]

theorem issue (balanced : Balanced r k) : Balanced r k.issue := by
  unfold Turn.issue
  dsimp only
  split <;> exact balanced.congr rfl rfl rfl rfl rfl rfl

theorem sentOctets (balanced : Balanced r k) (ready : k.conn.state = .ready) (n : Nat) :
    Balanced r (k.sentOctets n) where
  alive := balanced.alive
  connecting := balanced.connecting
  opened := balanced.opened
  started := balanced.started
  before := by
    intro notStarted
    exact absurd ready (balanced.before notStarted).1
  after := balanced.after

/-- An attempt that succeeds leads to the start line. -/
theorem connect (balanced : Balanced r k) (attempt : k.conn.state = .connecting) :
    Balanced r { k with
      client := { k.client with connectingCount := k.client.connectingCount - 1 }
      conn := { k.conn with state := if k.client.started then .ready else .waiting } } := by
  have notStarted : k.client.started = false := by
    rw [balanced.started]
    by_contra isStarted
    exact (balanced.after (Bool.eq_true_of_not_eq_false isStarted)).1 attempt
  rw [notStarted]
  refine ⟨?_, ?_, ?_, balanced.started, fun early => ?_, fun isStarted => ?_⟩
  · exact balanced.alive.trans (by rw [attempt]; rfl)
  · exact (congrArg (· - 1) balanced.connecting).trans (by rw [attempt]; rfl)
  · exact balanced.opened.trans (by rw [attempt]; rfl)
  · exact ⟨fun same => (by cases same), (balanced.before early).2⟩
  · exact absurd attempt (balanced.after isStarted).1

theorem upheld : Upheld (Balanced r) where
  calm := calm
  fail := fun balanced _ => balanced.failConn _
  close := fun balanced open_ _ _ => balanced.closeConn true open_
  issue := fun balanced _ _ _ => (balanced.calm (Turn.moreRequests_calm _)).issue
  sent := fun balanced ready _ => balanced.sentOctets ready _
  clear := fun balanced _ => balanced.congr rfl rfl rfl rfl rfl rfl
  connect := connect

/-! ## Receiving -/

theorem completeEchoes (balanced : Balanced r k) (count : Nat) :
    Balanced r (k.completeEchoes count) := by
  induction count generalizing k with
  | zero => exact balanced
  | succ count ih => exact ih (balanced.congr rfl rfl rfl rfl rfl rfl)

theorem drain (balanced : Balanced r k) (data : Bytes) :
    Balanced r (k.drain data).2 := by
  unfold Turn.drain
  simp only
  split
  · exact balanced.congr rfl rfl rfl rfl rfl rfl
  · refine failConn ?_ _
    exact balanced.congr rfl rfl rfl rfl rfl rfl

theorem echo (balanced : Balanced r k) (data : Bytes) : Balanced r (k.echo data).2 := by
  unfold Turn.echo
  split
  · exact balanced.failConn _
  · refine completeEchoes ?_ _
    exact balanced.congr rfl rfl rfl rfl rfl rfl

theorem receiveOctets (balanced : Balanced r k) (data : Bytes) :
    Balanced r (k.receiveOctets data).2 := by
  unfold Turn.receiveOctets
  simp only
  split
  · refine drain ?_ data
    exact balanced.congr rfl rfl rfl rfl rfl rfl
  · refine echo ?_ data
    exact balanced.congr rfl rfl rfl rfl rfl rfl

theorem readLoop (balanced : Balanced r k)
    (open_ : k.conn.state = .waiting ∨ k.conn.state = .ready) (budget : Nat) :
    Balanced r (k.readLoop budget).2 := by
  induction budget generalizing k with
  | zero => exact balanced
  | succ budget ih =>
      have withOs (os : Os) : Balanced r { k with os } := upheld.withOs balanced os
      rw [Turn.readLoop]
      simp only
      split
      · split
        · exact upheld.endOfStream (withOs _) open_
        · split
          · rename_i received
            refine ih ((withOs _).receiveOctets _) ?_
            rw [Turn.receiveOctets_state received]
            exact open_
          · exact (withOs _).receiveOctets _
      · exact ih (withOs _) open_
      · exact withOs _
      · exact (withOs _).failConn _

/-! ## Events -/

theorem onEvent (balanced : Balanced r k) (events : UInt32) (soError : SoError) :
    Balanced r (k.onEvent events soError) :=
  upheld.onEvent balanced events soError fun alive attempted _ =>
    balanced.readLoop (Turn.open_of_alive alive attempted) _

/-- At the start line a waiting connection gets ready. -/
theorem start (balanced : Balanced r k) (isStarted : r.started = true) (t0 : UInt64) :
    Balanced { r with waiting := false } (k.start t0) := by
  unfold Turn.start
  split
  · rename_i waiting
    refine upheld.pump ⟨?_, ?_, ?_, balanced.started, ?_, ?_⟩
    · rw [balanced.alive, waiting]
      rfl
    · rw [balanced.connecting, waiting]
      rfl
    · rw [balanced.opened, waiting]
      rfl
    · exact fun notStarted => absurd isStarted (Bool.eq_false_iff.mp notStarted)
    · exact fun _ => ⟨fun same => (by cases same), fun _ same => (by cases same)⟩
  · rename_i started
    exact { balanced with after := fun _ => ⟨(balanced.after isStarted).1, fun _ => started⟩ }

end Balanced

end Bench

end MiniNet
