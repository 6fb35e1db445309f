import MiniNet.Bench.Barrier

/-!
# Request accounting

In the mode with a fixed number of requests, every request of a connection is
answered or, when the connection fails, counted as lost.  The clients of a
server that never answers more than it was asked keep their queue of sending
times and the number of requests in flight in step.
-/

namespace MiniNet

open Bytes

namespace Bench

/-- The requests that are settled on a connection: answered, or lost. -/
def Link.settled (requests : Nat) (c : Link) : Nat :=
  c.doneReq + if c.state = .failed then requests - c.doneReq else 0

theorem Link.settled_of_running {requests : Nat} {c : Link} (running : c.state ≠ .failed) :
    c.settled requests = c.doneReq := by
  rw [settled, if_neg running, Nat.add_zero]

/-- The queue of sending times and the counters of a connection agree. -/
structure Flight (opts : Options) (c : Link) : Prop where
  head : c.tsHead ≤ c.ts.length
  queue : c.inflight = (c.ts.length : Int) - c.tsHead
  pending : c.inflight = (c.sentReq : Int) - c.doneReq
  room : c.inflight ≤ opts.pipeline
  bound : c.sentReq ≤ opts.requests
  finished : c.state = .done → c.doneReq = opts.requests

theorem Flight.done_le_sent {opts : Options} {c : Link} (flight : Flight opts c) :
    c.doneReq ≤ c.sentReq := by
  have head := flight.head
  have queue := flight.queue
  have pending := flight.pending
  omega

/-- A request more is answered: its sending time leaves the queue. -/
structure Answered (c c' : Conn) : Prop where
  done : c'.doneReq = c.doneReq + 1
  inflight : c'.inflight = if c.inflight > 0 then c.inflight - 1 else c.inflight
  queue : c.tsHead < c.ts.length → c'.tsHead ≤ c'.ts.length ∧
    (c'.ts.length : Int) - c'.tsHead = (c.ts.length : Int) - c.tsHead - 1

theorem takeLatency_queue (b : Bench) {c : Conn} (some_ : c.tsHead < c.ts.length) :
    let c' := (b.takeLatency c).2.2
    c'.tsHead ≤ c'.ts.length ∧
      (c'.ts.length : Int) - c'.tsHead = (c.ts.length : Int) - c.tsHead - 1 := by
  simp only [takeLatency, List.getElem?_eq_getElem some_]
  split
  · rename_i last
    simp only [List.length_nil, Nat.le_refl, true_and]
    omega
  · simp only
    omega

theorem takeLatency_counters (b : Bench) (c : Conn) :
    (b.takeLatency c).2.2.doneReq = c.doneReq ∧
      (b.takeLatency c).2.2.inflight = c.inflight ∧
      (b.takeLatency c).2.1.ok = b.ok ∧ (b.takeLatency c).2.1.badStatus = b.badStatus := by
  unfold takeLatency
  split
  · exact ⟨rfl, rfl, rfl, rfl⟩
  · dsimp only
    split <;> exact ⟨rfl, rfl, rfl, rfl⟩

theorem countStatus_total (b : Bench) (status : Int) :
    (b.countStatus status).ok + (b.countStatus status).badStatus = b.ok + b.badStatus + 1 := by
  unfold countStatus
  split
  · dsimp only
    split
    · exact Nat.add_right_comm _ _ _
    · rfl
  · exact Nat.add_right_comm _ _ _

theorem recordLatency_counters (b : Bench) (lat : UInt64) :
    (b.recordLatency lat).ok = b.ok ∧ (b.recordLatency lat).badStatus = b.badStatus := by
  unfold recordLatency
  split
  · split <;> exact ⟨rfl, rfl⟩
  · exact ⟨rfl, rfl⟩

theorem answered_onResponseComplete (b : Bench) (c : Conn) (status : Int) :
    Answered c (b.onResponseComplete c status).2 := by
  obtain ⟨done, inflight, _, _⟩ := takeLatency_counters b c
  have queue := @takeLatency_queue b c
  unfold onResponseComplete
  dsimp only
  split
  · rename_i some_
    rw [inflight] at some_
    refine ⟨congrArg (· + 1) done, ?_, queue⟩
    rw [if_pos some_]
    exact congrArg (· - 1) inflight
  · rename_i none
    rw [inflight] at none
    refine ⟨congrArg (· + 1) done, ?_, queue⟩
    rw [if_neg none]
    exact inflight

theorem total_onResponseComplete (b : Bench) (c : Conn) (status : Int) :
    (b.onResponseComplete c status).1.ok + (b.onResponseComplete c status).1.badStatus =
      b.ok + b.badStatus + 1 := by
  obtain ⟨_, _, ok, bad⟩ := takeLatency_counters b c
  unfold onResponseComplete
  dsimp only
  rw [(recordLatency_counters _ _).1, (recordLatency_counters _ _).2, countStatus_total]
  show (b.takeLatency c).2.1.ok + (b.takeLatency c).2.1.badStatus + 1 = _
  rw [ok, bad]

/-- What the accounting reads of a handler's state. -/
def Turn.ledger (k : Turn) :=
  (k.client.opts, k.client.ok, k.client.badStatus, k.client.failed, k.conn.state,
    k.conn.ts, k.conn.tsHead, k.conn.inflight, k.conn.sentReq, k.conn.doneReq)

/-- Whether an event makes the client read. -/
def Turn.reads (events : UInt32) (k : Turn) : Bool :=
  k.alive && k.conn.state != .connecting &&
    (events &&& (Channel.epollIn ||| Channel.epollHup ||| Channel.epollErr)) != 0

/-- The state with another receiving side. -/
def Turn.receiving (k : Turn) (b : Bench) (c : Conn) : Turn :=
  { k with
    client := { k.client with toBench := b }
    conn := { k.conn with toConn := c } }

/-- All that is settled is counted, `rest` of it on the other connections; and
as long as no more is answered than was asked, the connection is in step. -/
structure Billed (opts : Options) (rest : Nat) (k : Turn) : Prop where
  options : k.client.opts = opts
  total : k.client.ok + k.client.badStatus + k.client.failed =
    rest + k.conn.settled opts.requests
  flight : k.conn.doneReq ≤ k.conn.sentReq → Flight opts k.conn

/-- No more is answered than was asked. -/
structure Sound (opts : Options) (rest : Nat) (k : Turn) : Prop
    extends Billed opts rest k where
  honest : k.conn.doneReq ≤ k.conn.sentReq

namespace Billed

variable {opts : Options} {rest : Nat} {k : Turn}

theorem congr {k' : Turn} (billed : Billed opts rest k) (same : k'.ledger = k.ledger) :
    Billed opts rest k' := by
  simp only [Turn.ledger, Prod.mk.injEq] at same
  obtain ⟨options, ok, bad, failed, state, ts, tsHead, inflight, sent, done⟩ := same
  refine ⟨options.trans billed.options, ?_, ?_⟩
  · rw [ok, bad, failed, billed.total, Link.settled, Link.settled, state, done]
  · rw [done, sent]
    intro honest
    obtain ⟨head, queue, pending, room, bound, finished⟩ := billed.flight honest
    refine ⟨?_, ?_, ?_, ?_, ?_, ?_⟩
    · rw [ts, tsHead]
      exact head
    · rw [inflight, ts, tsHead]
      exact queue
    · rw [inflight, sent, done]
      exact pending
    · rw [inflight]
      exact room
    · rw [sent]
      exact bound
    · rw [state, done]
      exact finished

/-- A connection on which everything is answered is closed. -/
theorem closeConn (billed : Billed opts rest k) (running : k.conn.state ≠ .failed)
    (all : opts.requests ≤ k.conn.sentReq) (none : k.conn.inflight ≤ 0) :
    Billed opts rest (k.closeConn true) := by
  refine ⟨billed.options, ?_, fun honest => ?_⟩
  · have total := billed.total
    rw [Link.settled_of_running running] at total
    exact total
  · have flight := billed.flight honest
    have pending := flight.pending
    have bound := flight.bound
    refine { flight with finished := fun _ => ?_ }
    show k.conn.doneReq = opts.requests
    have := flight.done_le_sent
    omega

/-- One more answer on a connection that has not failed. -/
theorem complete (billed : Billed opts rest k) (running : k.conn.state ≠ .failed)
    (status : Int) : Billed opts rest (k.complete status) := by
  have answered := answered_onResponseComplete k.client.toBench k.conn.toConn status
  have counted := total_onResponseComplete k.client.toBench k.conn.toConn status
  have done : (k.complete status).conn.doneReq = k.conn.doneReq + 1 := answered.done
  refine ⟨billed.options, ?_, fun honest => ?_⟩
  · have total := billed.total
    have still : (k.complete status).conn.state ≠ .failed := running
    rw [Link.settled_of_running running] at total
    rw [Link.settled_of_running still, done]
    calc
      _ = k.client.ok + k.client.badStatus + 1 + k.client.failed :=
        congrArg (· + k.client.failed) counted
      _ = rest + (k.conn.doneReq + 1) := by omega
  · rw [done] at honest
    have flight := billed.flight (Nat.le_of_succ_le honest)
    have pending := flight.pending
    have sent : k.conn.doneReq + 1 ≤ k.conn.sentReq := honest
    have inflight := answered.inflight
    rw [if_pos (by omega)] at inflight
    have some_ : k.conn.tsHead < k.conn.ts.length := by
      have queue := flight.queue
      omega
    obtain ⟨head, queue⟩ := answered.queue some_
    have less : (k.complete status).conn.inflight = k.conn.inflight - 1 := inflight
    refine ⟨head, ?_, ?_, ?_, flight.bound, fun state => ?_⟩
    · rw [less, flight.queue]
      exact queue.symm
    · rw [less, done, pending]
      show _ = (k.conn.sentReq : Int) - _
      push_cast
      omega
    · have room := flight.room
      rw [less]
      omega
    · have finished := flight.finished state
      have bound := flight.bound
      omega

theorem completeEchoes (billed : Billed opts rest k) (running : k.conn.state ≠ .failed)
    (count : Nat) : Billed opts rest (k.completeEchoes count) := by
  induction count generalizing k with
  | zero => exact billed
  | succ count ih => exact ih (billed.complete running 0) running

theorem drainLoop {b : Bench} {c : Conn} (billed : Billed opts rest (k.receiving b c))
    (running : k.conn.state ≠ .failed) :
    Billed opts rest (k.receiving (b.drainLoop c).bench (b.drainLoop c).conn) := by
  induction b, c using Bench.drainLoop.induct with
  | case1 b c waiting =>
      rw [drainLoop_of_needMore waiting]
      exact billed
  | case2 b c detail failed =>
      rw [Bench.drainLoop]
      split
      · exact billed
      · exact billed
      · rename_i finished
        cases failed.symm.trans finished
  | case3 b c status inOff finished answered ih =>
      rw [drainLoop_of_complete finished]
      apply ih
      have advanced : Billed opts rest (k.receiving b { c with inOff }) := billed.congr rfl
      exact advanced.complete running status

theorem drainHttp {b : Bench} {c : Conn} (billed : Billed opts rest (k.receiving b c))
    (running : k.conn.state ≠ .failed) :
    Billed opts rest (k.receiving (b.drainHttp c).bench (b.drainHttp c).conn) := by
  have drained := billed.drainLoop running
  unfold Bench.drainHttp
  dsimp only
  split
  · refine drained.congr ?_
    unfold compact
    split
    · rfl
    · split <;> rfl
  · exact drained

section

variable (requestsMode : opts.durationMode = false)

include requestsMode

theorem failConn (billed : Billed opts rest k) (category : Bytes) :
    Billed opts rest (k.failConn category) := by
  unfold Turn.failConn
  split
  · exact billed
  · rename_i running
    obtain ⟨unfailed, _⟩ := not_or.mp running
    refine ⟨billed.options, ?_, fun honest => ?_⟩
    · have total := billed.total
      rw [Link.settled_of_running unfailed] at total
      simp only [Turn.closeConn, billed.options, requestsMode]
      show k.client.ok + k.client.badStatus + (k.client.failed +
        ((opts.requests : Int) - k.conn.doneReq).toNat) =
          rest + (k.conn.doneReq + (opts.requests - k.conn.doneReq))
      omega
    · exact { billed.flight honest with finished := fun same => (by cases same) }

theorem moreRequests_eq (billed : Billed opts rest k) :
    k.moreRequests = (decide (k.conn.sentReq < opts.requests), k) := by
  unfold Turn.moreRequests
  rw [billed.options, requestsMode]
  rfl

theorem drain (billed : Billed opts rest k) (running : k.conn.state ≠ .failed)
    (data : Bytes) : Billed opts rest (k.drain data).2 := by
  have longer : Billed opts rest (k.receiving k.client.toBench
      { k.conn.toConn with inBytes := k.conn.inBytes ++ data }) := billed.congr rfl
  have drained := longer.drainHttp running
  unfold Turn.drain
  dsimp only
  split
  · exact drained
  · exact drained.failConn requestsMode _

theorem echo (billed : Billed opts rest k) (running : k.conn.state ≠ .failed)
    (data : Bytes) : Billed opts rest (k.echo data).2 := by
  unfold Turn.echo
  split
  · exact billed.failConn requestsMode _
  · refine completeEchoes ?_ ?_ _
    · exact billed.congr rfl
    · exact running

theorem receiveOctets (billed : Billed opts rest k) (running : k.conn.state ≠ .failed)
    (data : Bytes) : Billed opts rest (k.receiveOctets data).2 := by
  unfold Turn.receiveOctets
  dsimp only
  split
  · refine drain requestsMode ?_ ?_ data
    · exact billed.congr rfl
    · exact running
  · refine echo requestsMode ?_ ?_ data
    · exact billed.congr rfl
    · exact running

theorem endOfStream (billed : Billed opts rest k) (running : k.conn.state ≠ .failed) :
    Billed opts rest k.endOfStream := by
  unfold Turn.endOfStream
  split
  · exact billed.failConn requestsMode _
  · rename_i none
    rw [billed.moreRequests_eq requestsMode]
    dsimp only
    split
    · exact billed.failConn requestsMode _
    · rename_i all
      rw [decide_eq_true_iff] at all
      exact billed.closeConn running (Nat.not_lt.mp all) (Int.not_lt.mp none)

theorem readLoop (billed : Billed opts rest k)
    (open_ : k.conn.state = .waiting ∨ k.conn.state = .ready) (budget : Nat) :
    Billed opts rest (k.readLoop budget).2 := by
  induction budget generalizing k with
  | zero => exact billed
  | succ budget ih =>
      have running : k.conn.state ≠ .failed := by
        rcases open_ with state | state <;> rw [state] <;> decide
      have withOs (os : Os) : Billed opts rest { k with os } := billed.congr rfl
      rw [Turn.readLoop]
      dsimp only
      split
      · split
        · refine endOfStream requestsMode (withOs _) ?_
          exact running
        · split
          · rename_i received
            refine ih (receiveOctets requestsMode (withOs _) ?_ _) ?_
            · exact running
            · rw [Turn.receiveOctets_state received]
              exact open_
          · refine receiveOctets requestsMode (withOs _) ?_ _
            exact running
      · exact ih (withOs _) open_
      · exact withOs _
      · exact (withOs _).failConn requestsMode _

end

end Billed

theorem Turn.issue_counts (k : Turn) :
    k.issue.conn.sentReq = k.conn.sentReq + 1 ∧ k.issue.conn.doneReq = k.conn.doneReq ∧
      k.issue.conn.inflight = k.conn.inflight + 1 := by
  unfold issue
  dsimp only
  split <;> exact ⟨rfl, rfl, rfl⟩

theorem Turn.failConn_counts (k : Turn) (category : Bytes) :
    (k.failConn category).conn.doneReq = k.conn.doneReq ∧
      (k.failConn category).conn.sentReq = k.conn.sentReq := by
  unfold failConn
  split <;> exact ⟨rfl, rfl⟩

namespace Sound

variable {opts : Options} {rest : Nat} {k : Turn}

theorem congr {k' : Turn} (sound : Sound opts rest k) (same : k'.ledger = k.ledger) :
    Sound opts rest k' := by
  refine ⟨sound.toBilled.congr same, ?_⟩
  simp only [Turn.ledger, Prod.mk.injEq] at same
  obtain ⟨_, _, _, _, _, _, _, _, sent, done⟩ := same
  rw [done, sent]
  exact sound.honest

/-- A connection that is there is as sound as before. -/
theorem advance {k' : Turn} (sound : Sound opts rest k) (open_ : k.conn.state ≠ .failed)
    (running : k'.conn.state ≠ .failed ∧ k'.conn.state ≠ .done)
    (same : ({ k' with conn := { k'.conn with state := k.conn.state } } : Turn).ledger =
      k.ledger) : Sound opts rest k' := by
  have kept := sound.congr same
  refine ⟨⟨kept.options, ?_, fun honest => ?_⟩, kept.honest⟩
  · have settled := @Link.settled_of_running opts.requests
      { k'.conn with state := k.conn.state } open_
    rw [Link.settled_of_running running.1]
    exact kept.total.trans (congrArg (rest + ·) settled)
  · exact { kept.flight honest with finished := fun done => absurd done running.2 }

/-- One more request on a connection that has room for it. -/
theorem issue (sound : Sound opts rest k) (room : k.conn.inflight < opts.pipeline)
    (more : k.conn.sentReq < opts.requests) (open_ : k.conn.state ≠ .done) :
    Sound opts rest k.issue := by
  have flight := sound.flight sound.honest
  have head := flight.head
  have queue := flight.queue
  have pending := flight.pending
  obtain ⟨sent, done, inflight⟩ := k.issue_counts
  have settled : k.issue.conn.settled opts.requests = k.conn.settled opts.requests := by
    rw [Link.settled, Link.settled, done, Turn.issue_state]
  have times : k.issue.conn.tsHead ≤ k.issue.conn.ts.length ∧
      (k.issue.conn.ts.length : Int) - k.issue.conn.tsHead =
        (k.conn.ts.length : Int) - k.conn.tsHead + 1 := by
    unfold Turn.issue
    dsimp only [Turn.nowNs]
    split
    · rename_i empty
      exact ⟨Nat.zero_le _, by rw [empty]; simp⟩
    · rw [List.length_append, List.length_singleton]
      omega
  refine ⟨⟨sound.options, ?_, fun _ => ⟨times.1, ?_, ?_, ?_, ?_, fun finished => ?_⟩⟩, ?_⟩
  · rw [settled]
    exact sound.total
  · rw [inflight, times.2, queue]
  · rw [inflight, sent, done]
    omega
  · rw [inflight]
    exact room
  · rw [sent]
    exact more
  · rw [Turn.issue_state] at finished
    exact absurd finished open_
  · rw [sent, done]
    exact Nat.le_succ_of_le sound.honest

section

variable (requestsMode : opts.durationMode = false)

include requestsMode

theorem failConn (sound : Sound opts rest k) (category : Bytes) :
    Sound opts rest (k.failConn category) := by
  refine ⟨sound.toBilled.failConn requestsMode category, ?_⟩
  rw [(k.failConn_counts category).1, (k.failConn_counts category).2]
  exact sound.honest

theorem upheld : Upheld (Sound opts rest) where
  calm := by
    intro k k' sound same
    have ledgers : k'.calm.ledger = k.calm.ledger := congrArg Turn.ledger same
    exact sound.congr ledgers
  fail := fun sound _ => sound.failConn requestsMode _
  close := by
    intro k sound open_ last none
    rw [sound.moreRequests_eq requestsMode, decide_eq_false_iff_not] at last
    refine ⟨sound.closeConn ?_ (Nat.not_lt.mp last) (Int.not_lt.mp none), sound.honest⟩
    rcases open_ with state | state <;> rw [state] <;> decide
  issue := by
    intro k sound ready free more
    rw [sound.moreRequests_eq requestsMode] at more ⊢
    refine sound.issue ?_ (of_decide_eq_true more) ?_
    · rw [← sound.options]
      exact free
    · rw [ready]
      decide
  sent := fun sound _ _ => sound.congr rfl
  clear := fun sound _ => sound.congr rfl
  connect := by
    intro k sound attempt
    refine sound.advance ?_ ?_ rfl
    · rw [attempt]
      decide
    · dsimp only
      split <;> exact ⟨fun same => (by cases same), fun same => (by cases same)⟩

theorem onEvent (sound : Sound opts rest k) (events : UInt32) (soError : SoError)
    (honest : k.reads events = true → k.doRead.2.conn.doneReq ≤ k.doRead.2.conn.sentReq) :
    Sound opts rest (k.onEvent events soError) := by
  refine (upheld requestsMode).onEvent sound events soError fun alive attempted readable => ?_
  exact ⟨sound.toBilled.readLoop requestsMode (Turn.open_of_alive alive attempted) _,
    honest (by simp [Turn.reads, alive, attempted, readable])⟩

theorem start (sound : Sound opts rest k) (t0 : UInt64) : Sound opts rest (k.start t0) := by
  unfold Turn.start
  split
  · rename_i waiting
    have unfailed : k.conn.state ≠ .failed := by
      rw [waiting]
      decide
    refine (upheld requestsMode).pump ?_
    exact sound.advance unfailed ⟨fun same => (by cases same), fun same => (by cases same)⟩ rfl
  · exact sound

end

end Sound

/-! ## All connections -/

namespace Load

variable {n : Nat}

/-- What the client counts is what is settled on the connections. -/
structure Booked (opts : Options) (s : Load n) : Prop where
  options : s.client.opts = opts
  total : s.client.ok + s.client.badStatus + s.client.failed =
    ∑ i, (s.conns i).settled opts.requests
  flight : ∀ i, Flight opts (s.conns i)

/-- The server answers no more on a connection than it was asked there. -/
def Honest (s : Load n) : Action n → Prop
  | .event i events _ os =>
      let k : Turn := { client := s.client, conn := s.conns i, os }
      k.reads events = true → k.doRead.2.conn.doneReq ≤ k.doRead.2.conn.sentReq
  | .maybeStart _ => True
  | .periodicScan => True

instance (s : Load n) : ∀ action, Decidable (s.Honest action)
  | .event _ _ _ _ => inferInstanceAs (Decidable (_ → _))
  | .maybeStart _ => isTrue trivial
  | .periodicScan => isTrue trivial

namespace Booked

variable {opts : Options} {s : Load n}

theorem congr {client : Client} (booked : Booked opts s)
    (options : client.opts = s.client.opts) (ok : client.ok = s.client.ok)
    (bad : client.badStatus = s.client.badStatus) (failed : client.failed = s.client.failed) :
    Booked opts { s with client } where
  options := options.trans booked.options
  total := by
    rw [ok, bad, failed]
    exact booked.total
  flight := booked.flight

theorem sound (booked : Booked opts s) (i : Fin n) (os : Os) :
    Sound opts (∑ j ∈ Finset.univ.erase i, (s.conns j).settled opts.requests)
      { client := s.client, conn := s.conns i, os } where
  options := booked.options
  total := by
    rw [booked.total, Finset.sum_erase_add _ _ (Finset.mem_univ i)]
  flight := fun _ => booked.flight i
  honest := (booked.flight i).done_le_sent

theorem onConn (booked : Booked opts s) (i : Fin n) (os : Os) {f : Turn → Turn}
    (keeps : ∀ rest, Sound opts rest { client := s.client, conn := s.conns i, os } →
      Sound opts rest (f { client := s.client, conn := s.conns i, os })) :
    Booked opts (s.onConn i os f) := by
  have sound := keeps _ (booked.sound i os)
  refine ⟨sound.options, ?_, ?_⟩
  · rw [Load.onConn, Family.sum_update_eq_erase_add fun _ (c : Link) => c.settled opts.requests]
    exact sound.total
  · rw [Load.onConn, Function.forall_update_iff _ fun _ (c : Link) => Flight opts c]
    exact ⟨sound.flight sound.honest, fun j _ => booked.flight j⟩

theorem foldl_onConn (booked : Booked opts s) (conns : List (Fin n)) (os : Fin n → Os)
    {f : Turn → Turn} (keeps : ∀ rest k, Sound opts rest k → Sound opts rest (f k)) :
    Booked opts (conns.foldl (fun s i => s.onConn i (os i) f) s) := by
  induction conns generalizing s with
  | nil => exact booked
  | cons i conns ih => exact ih (booked.onConn i (os i) fun rest => keeps rest _)

/-! ## The set-up -/

/-- A connection is set up, or all of its requests are lost. -/
theorem setUp {i : Fin n} {client : Client} {c : Link} (booked : Booked opts s)
    (fresh : s.conns i = {}) (options : client.opts = s.client.opts)
    (ok : client.ok = s.client.ok) (bad : client.badStatus = s.client.badStatus)
    (failed : client.failed = s.client.failed + if c.state = .failed then opts.requests else 0)
    (idle : (c.ts, c.tsHead, c.inflight, c.sentReq, c.doneReq) =
      ((s.conns i).ts, (s.conns i).tsHead, (s.conns i).inflight, (s.conns i).sentReq,
        (s.conns i).doneReq)) (open_ : c.state ≠ .done) :
    Booked opts { client, conns := Function.update s.conns i c } := by
  have flight := booked.flight i
  simp only [Prod.mk.injEq] at idle
  obtain ⟨ts, tsHead, inflight, sent, done⟩ := idle
  have zero : c.doneReq = 0 := by
    rw [done, fresh]
  refine ⟨options.trans booked.options, ?_, ?_⟩
  · have total := booked.total
    have summed := Family.sum_update (fun _ (c : Link) => c.settled opts.requests) s.conns i c
    have before : (s.conns i).settled opts.requests = 0 := by
      rw [fresh]
      rfl
    have after : c.settled opts.requests = if c.state = .failed then opts.requests else 0 := by
      rw [Link.settled, zero, Nat.zero_add, Nat.sub_zero]
    simp only [ok, bad, failed]
    omega
  · rw [Function.forall_update_iff _ fun _ (c : Link) => Flight opts c]
    refine ⟨⟨?_, ?_, ?_, ?_, ?_, fun finished => absurd finished open_⟩,
      fun j _ => booked.flight j⟩
    · rw [ts, tsHead]
      exact flight.head
    · rw [inflight, ts, tsHead]
      exact flight.queue
    · rw [inflight, sent, done]
      exact flight.pending
    · rw [inflight]
      exact flight.room
    · rw [sent]
      exact flight.bound

theorem setupConn {i : Fin n} {t : Load n} {outcome : Outcome} {added : Bool}
    (requestsMode : opts.durationMode = false) (booked : Booked opts s)
    (fresh : s.conns i = {}) (done : s.setupConn i outcome added = some t) :
    Booked opts t := by
  have lost : (if s.client.opts.durationMode = true then s.client.failed
      else s.client.failed + s.client.opts.requests) = s.client.failed + opts.requests := by
    rw [booked.options, requestsMode]
    rfl
  cases outcome with
  | noSocket | refused =>
      simp only [Load.setupConn] at done
      split at done
      · cases done
      · cases done
        exact booked.setUp fresh rfl rfl rfl lost rfl fun same => (by cases same)
  | connected | inProgress =>
      simp only [Load.setupConn] at done
      split at done
      · cases done
        exact booked.setUp fresh rfl rfl rfl rfl rfl fun same => (by cases same)
      · cases done

/-! ## Runs -/

theorem maybeStart (requestsMode : opts.durationMode = false) (booked : Booked opts s)
    (os : Fin n → Os) : Booked opts (s.maybeStart os) := by
  unfold Load.maybeStart
  split
  · exact booked
  · split
    · exact booked
    · refine foldl_onConn ?_ _ (fun _ => {}) fun _ _ =>
        (Sound.upheld requestsMode).maybeFinish
      refine foldl_onConn ?_ _ os fun _ _ sound => sound.start requestsMode s.nowNs.1
      exact booked.congr rfl rfl rfl rfl

theorem step {t : Load n} {action : Action n} (requestsMode : opts.durationMode = false)
    (booked : Booked opts s) (honest : s.Honest action)
    (stepped : s.step action = some (t, ())) : Booked opts t := by
  cases action with
  | event i events soError os =>
      cases stepped
      exact booked.onConn i os fun _ sound =>
        sound.onEvent requestsMode events soError honest
  | maybeStart os =>
      cases stepped
      exact booked.maybeStart requestsMode os
  | periodicScan =>
      cases stepped
      have finished : Booked opts s.checkFinishes :=
        booked.foldl_onConn _ _ fun _ _ => (Sound.upheld requestsMode).maybeFinish
      refine foldl_onConn ?_ _ _ fun _ _ sound =>
        (Sound.upheld requestsMode).checkTimeout sound s.checkFinishes.nowNs.1
      exact finished.congr rfl rfl rfl rfl

end Booked

theorem booked_of_setupConns {httpMode : Bool} {expectStatus : List Int}
    {clock : Nat → UInt64} {opts : Options} {outcomes : Fin n → Outcome × Bool}
    {s : Load n} (requestsMode : opts.durationMode = false)
    (setUp : setupConns (Client.initial httpMode expectStatus clock opts) outcomes = some s) :
    Booked opts s := by
  refine setupConns_induct ?_ ⟨rfl, ?_, fun i => ?_⟩ setUp
  · intro s t i outcome added booked fresh done
    exact booked.setupConn requestsMode fresh done
  · simp [Link.settled, Client.initial]
  · exact ⟨Nat.zero_le _, rfl, rfl, Int.natCast_nonneg _, Nat.zero_le _,
      fun finished => (by cases finished)⟩

/-- When all connections are closed, everything is settled. -/
theorem Booked.settled {opts : Options} {s : Load n} (booked : Booked opts s)
    (ended : ∀ i, (s.conns i).state = .done ∨ (s.conns i).state = .failed) :
    s.client.ok + s.client.badStatus + s.client.failed = n * opts.requests := by
  have each (i : Fin n) : (s.conns i).settled opts.requests = opts.requests := by
    have flight := booked.flight i
    have honest := flight.done_le_sent
    have bound := flight.bound
    rcases ended i with done | failed
    · rw [Link.settled, if_neg (by rw [done]; decide), flight.finished done, Nat.add_zero]
    · rw [Link.settled, if_pos failed]
      omega
  rw [booked.total, Finset.sum_const_nat fun i _ => each i, Finset.card_univ,
    Fintype.card_fin]

/-- With a fixed number of requests and a server that never answers more than it
was asked, the counters of every connection agree in every state, and when no
connection is left every request is counted once. -/
theorem settled_of_run {httpMode : Bool} {expectStatus : List Int}
    {clock : Nat → UInt64} {opts : Options} {outcomes : Fin n → Outcome × Bool}
    {s t : Load n} {actions : List (Action n)} {trace : List (Action n × Unit)}
    (requestsMode : opts.durationMode = false)
    (setUp : setupConns (Client.initial httpMode expectStatus clock opts) outcomes = some s)
    (honest : Machine.Along step Honest s actions)
    (ran : Machine.run step s actions = some (t, trace)) :
    (t.client.aliveCount = 0 →
      t.client.ok + t.client.badStatus + t.client.failed = n * opts.requests) ∧
    ∀ i, let c := t.conns i
      c.tsHead ≤ c.ts.length ∧ c.inflight = ((c.ts.length - c.tsHead : Nat) : Int) ∧
      c.inflight = (c.sentReq : Int) - c.doneReq ∧ 0 ≤ c.inflight ∧
      c.inflight ≤ opts.pipeline ∧ c.sentReq ≤ opts.requests := by
  have booked : Booked opts t := by
    refine Machine.run_along (motive := fun _ m => Booked opts m) ?_
      (booked_of_setupConns requestsMode setUp) honest ran
    rintro _ m action next ⟨⟩ kept allowed stepped
    exact kept.step requestsMode allowed stepped
  have barrier := (counted_of_run (counted_of_setupConns setUp) ran).1.barrier
  constructor
  · intro none
    apply booked.settled
    apply barrier.ended.mp
    rw [running, none]
    exact Nat.lt_irrefl 0
  · intro i
    have flight := booked.flight i
    have head := flight.head
    have queue := flight.queue
    refine ⟨head, ?_, flight.pending, ?_, flight.room, flight.bound⟩ <;> omega

/-- One request is answered, and the other is lost when its connection is closed. -/
theorem settled_of_lostConnection :
    ∃ (s t : Load 2) (trace : List (Action 2 × Unit)),
      setupConns (Client.initial false [] (fun _ => 0) oneOctet)
        (fun i => if i = 0 then (.connected, true) else (.inProgress, true)) = some s ∧
      Machine.run step s [.event 1 Channel.epollOut .none {},
        .maybeStart fun _ => { sends := [.octets 1] },
        .event 0 Channel.epollIn .none { recvs := [.octets [120]] },
        .event 1 Channel.epollIn .none { recvs := [.octets []] }] = some (t, trace) ∧
      t.client.aliveCount = 0 ∧ t.client.ok = 1 ∧ t.client.failed = 1 ∧
      t.client.ok + t.client.badStatus + t.client.failed = 2 * oneOctet.requests := by
  have ends : ((setupConns (Client.initial false [] (fun _ => 0) oneOctet)
      (fun i : Fin 2 => if i = 0 then (.connected, true) else (.inProgress, true))).any
      fun s => (Machine.run step s [.event 1 Channel.epollOut .none {},
        .maybeStart fun _ => { sends := [.octets 1] },
        .event 0 Channel.epollIn .none { recvs := [.octets [120]] },
        .event 1 Channel.epollIn .none { recvs := [.octets []] }]).any
        fun r => decide (Machine.Along step Honest s [.event 1 Channel.epollOut .none {},
          .maybeStart fun _ => { sends := [.octets 1] },
          .event 0 Channel.epollIn .none { recvs := [.octets [120]] },
          .event 1 Channel.epollIn .none { recvs := [.octets []] }] ∧
          r.1.client.aliveCount = 0 ∧ r.1.client.ok = 1 ∧ r.1.client.failed = 1)) = true := by
    decide +kernel
  obtain ⟨s, setUp, ends⟩ := (Option.any_eq_true _ _).mp ends
  obtain ⟨r, ran, ends⟩ := (Option.any_eq_true _ _).mp ends
  obtain ⟨honest, alive, ok, failed⟩ := of_decide_eq_true ends
  exact ⟨s, r.1, r.2, setUp, ran, alive, ok, failed,
    (settled_of_run rfl setUp honest ran).1 alive⟩

end Load

end Bench

end MiniNet
