import MiniNet.Bench.Decoding
import MiniNet.Bench.Echo

/-!
# Runs in HTTP mode

A stream of responses is read in one way only.  As long as what arrives on a
connection is the start of such a stream, the client finds nothing wrong with
it and counts every response once, by its status; and what the connection sends
repeats its request.
-/

namespace MiniNet

open Bytes

namespace Bench

/-! ## The stream of responses -/

namespace PlainResponse

theorem serialize_ne_nil (r : PlainResponse) : r.serialize ≠ [] := by
  intro nothing
  have some_octet := r.length_head.1
  have size := congrArg List.length nothing
  rw [r.serialize_eq, List.length_append, List.length_nil] at size
  omega

/-- Of two responses at the start of a text neither is part of the other. -/
theorem first_unique {r r' : PlainResponse} {more more' : Bytes}
    (same : r.serialize ++ more = r'.serialize ++ more') :
    r.status = r'.status ∧ r.serialize = r'.serialize ∧ more = more' := by
  have first := r.parseOne_whole [] more
  rw [same, r'.parseOne_whole [] more'] at first
  injection first with status size
  have length : r.serialize.length = r'.serialize.length := by
    simpa using size.symm
  obtain ⟨text, rest⟩ := List.append_inj same length
  exact ⟨status.symm, text, rest⟩

end PlainResponse

/-- However a stream of responses has been read so far, they are the first ones. -/
theorem read_unique {told responses : List PlainResponse} {rest : Bytes}
    (stream : told.flatMap (·.serialize) ++ rest = responses.flatMap (·.serialize)) :
    ∃ done left, responses = done ++ left ∧ done.map (·.status) = told.map (·.status) ∧
      rest = left.flatMap (·.serialize) := by
  induction told generalizing responses with
  | nil => exact ⟨[], responses, rfl, rfl, stream⟩
  | cons r told ih =>
      rw [List.flatMap_cons, List.append_assoc] at stream
      cases responses with
      | nil => exact absurd (List.append_eq_nil_iff.mp stream).1 r.serialize_ne_nil
      | cons r' responses =>
          rw [List.flatMap_cons] at stream
          obtain ⟨status, _, later⟩ := PlainResponse.first_unique stream
          obtain ⟨done, left, rfl, statuses, rest⟩ := ih later
          refine ⟨r' :: done, left, rfl, ?_, rest⟩
          rw [List.map_cons, List.map_cons, statuses, status]

/-! ## The counts -/

/-- The counters after responses with these statuses. -/
structure Counts (b b' : Bench) (told : List Int) : Prop where
  hist : ∀ status, b'.statusHist status = b.statusHist status + told.count status
  ok : b'.ok = b.ok + told.countP (· ∈ b.expectStatus)
  badStatus : b'.badStatus = b.badStatus + told.countP (· ∉ b.expectStatus)
  httpMode : b'.httpMode = b.httpMode
  expectStatus : b'.expectStatus = b.expectStatus

namespace Counts

variable {b b' b'' : Bench} {told more : List Int}

theorem refl (b : Bench) : Counts b b [] := ⟨fun _ => rfl, rfl, rfl, rfl, rfl⟩

theorem trans (first : Counts b b' told) (second : Counts b' b'' more) :
    Counts b b'' (told ++ more) where
  hist status := by
    rw [second.hist, first.hist, List.count_append, Nat.add_assoc]
  ok := by
    rw [second.ok, first.ok, first.expectStatus, List.countP_append, Nat.add_assoc]
  badStatus := by
    rw [second.badStatus, first.badStatus, first.expectStatus, List.countP_append,
      Nat.add_assoc]
  httpMode := second.httpMode.trans first.httpMode
  expectStatus := second.expectStatus.trans first.expectStatus

end Counts

theorem counts_countStatus {b : Bench} (mode : b.httpMode = true) (status : Int) :
    Counts b (b.countStatus status) [status] := by
  have hist (other : Int) : Function.update b.statusHist status (b.statusHist status + 1) other =
      b.statusHist other + [status].count other := by
    by_cases same : other = status
    · subst same
      simp
    · simp [same, Ne.symm same]
  unfold countStatus
  rw [if_pos mode]
  dsimp only
  split
  · rename_i expected
    exact ⟨hist, by simp [expected], by simp [expected], rfl, rfl⟩
  · rename_i unexpected
    exact ⟨hist, by simp [unexpected], by simp [unexpected], rfl, rfl⟩

theorem counts_recordLatency (b : Bench) (lat : UInt64) : Counts b (b.recordLatency lat) [] := by
  unfold recordLatency
  split
  · split <;> exact ⟨fun _ => rfl, rfl, rfl, rfl, rfl⟩
  · exact Counts.refl b

theorem counts_takeLatency (b : Bench) (c : Conn) : Counts b (b.takeLatency c).2.1 [] := by
  unfold takeLatency
  split
  · exact Counts.refl b
  · exact ⟨fun _ => rfl, rfl, rfl, rfl, rfl⟩

theorem counts_onResponseComplete {b : Bench} (mode : b.httpMode = true) (c : Conn)
    (status : Int) : Counts b (b.onResponseComplete c status).1 [status] := by
  have taken := counts_takeLatency b c
  have read : Counts (b.takeLatency c).2.1 (b.takeLatency c).2.1.nowNs.2 [] :=
    ⟨fun _ => rfl, rfl, rfl, rfl, rfl⟩
  have before := taken.trans read
  have counted := counts_countStatus (before.httpMode.trans mode) status
  unfold onResponseComplete
  exact before.trans (counted.trans (counts_recordLatency _ _))

def Call.status? : Call → Option Int
  | .onResponseComplete status => some status
  | .failConn _ _ => none

/-- `drainLoop` counts what it reports. -/
theorem counts_drainLoop {b : Bench} {c : Conn} (mode : b.httpMode = true) :
    Counts b (drainLoop b c).bench ((drainLoop b c).calls.filterMap Call.status?) ∧
      (drainLoop b c).conn.doneReq =
        c.doneReq + ((drainLoop b c).calls.filterMap Call.status?).length := by
  induction b, c using Bench.drainLoop.induct with
  | case1 b c waiting =>
      rw [drainLoop_of_needMore waiting]
      exact ⟨Counts.refl b, rfl⟩
  | case2 b c detail failed =>
      rw [Bench.drainLoop]
      split
      · exact ⟨Counts.refl b, rfl⟩
      · exact ⟨Counts.refl b, rfl⟩
      · rename_i finished
        cases failed.symm.trans finished
  | case3 b c status inOff finished answered ih =>
      have one := counts_onResponseComplete mode { c with inOff } status
      have done : answered.2.doneReq = c.doneReq + 1 :=
        (answered_onResponseComplete b { c with inOff } status).done
      obtain ⟨counts, total⟩ := ih (one.httpMode.trans mode)
      rw [drainLoop_of_complete finished]
      refine ⟨one.trans counts, total.trans ?_⟩
      rw [done]
      exact Nat.add_right_comm _ _ _

/-- When `drainLoop` is content, it waits for more. -/
theorem waiting_of_drainLoop {b : Bench} {c : Conn} (ok : (drainLoop b c).ok = true) :
    parseOne (drainLoop b c).conn.inBytes (drainLoop b c).conn.inOff = .needMore := by
  induction b, c using Bench.drainLoop.induct with
  | case1 b c waiting =>
      rw [drainLoop_of_needMore waiting]
      exact waiting
  | case2 b c detail failed =>
      rw [Bench.drainLoop] at ok
      split at ok
      · rename_i waiting
        cases failed.symm.trans waiting
      · cases ok
      · rename_i finished
        cases failed.symm.trans finished
  | case3 b c status inOff finished answered ih =>
      rw [drainLoop_of_complete finished] at ok ⊢
      exact ih ok

/-! ## What has been read -/

theorem compact_doneReq (c : Conn) : (compact c).doneReq = c.doneReq := by
  unfold compact
  split
  · rfl
  · split <;> rfl

/-- The octets that have been read are these responses, which have been
reported, and the start of another one. -/
structure Decoded (told : List PlainResponse) (got : Bytes) (c : Conn) : Prop where
  buffer : ∃ unread, Holds c unread ∧ got = told.flatMap (·.serialize) ++ unread
  number : c.doneReq = told.length
  waiting : parseOne c.inBytes c.inOff = .needMore

theorem parseOne_nothing {c : Conn} (holds : Holds c []) :
    parseOne c.inBytes c.inOff = .needMore := by
  obtain ⟨before, text, place⟩ := holds.split
  rw [text, place, List.append_nil, parseOne, Nat.sub_self]
  rfl

theorem decoded_new {c : Conn} (inBytes : c.inBytes = []) (inOff : c.inOff = 0)
    (doneReq : c.doneReq = 0) : Decoded [] [] c := by
  have holds : Holds c [] := @holds_of_split c [] _ inBytes inOff
  exact ⟨⟨[], holds, rfl⟩, doneReq, parseOne_nothing holds⟩

/-- Whether the decoder waits depends on what is unread alone. -/
theorem Holds.waiting {c c' : Conn} {unread future : Bytes} {responses : List PlainResponse}
    (holds : Holds c unread) (holds' : Holds c' unread)
    (stream : unread ++ future = responses.flatMap (·.serialize))
    (waiting : parseOne c.inBytes c.inOff = .needMore) :
    parseOne c'.inBytes c'.inOff = .needMore := by
  obtain ⟨before, text, place⟩ := holds.split
  obtain ⟨before', text', place'⟩ := holds'.split
  cases responses with
  | nil =>
      obtain ⟨rfl, _⟩ := List.append_eq_nil_iff.mp stream
      exact parseOne_nothing holds'
  | cons r responses =>
      have unfinished : ∀ more, unread ≠ r.serialize ++ more := by
        rintro more rfl
        rw [text, place, r.parseOne_whole before more] at waiting
        cases waiting
      rw [List.flatMap_cons] at stream
      rcases List.append_eq_append_iff.mp stream with
        ⟨missing, cut, _⟩ | ⟨more, arrived, _⟩
      · have some_octet : missing ≠ [] := by
          rintro rfl
          rw [List.append_nil] at cut
          exact unfinished [] (by rw [cut, List.append_nil])
        have again := @PlainResponse.parseOne_unfinished r before' _ _ cut.symm some_octet
        rwa [← text', ← place'] at again
      · exact absurd arrived (unfinished more)

namespace Decoded

variable {told : List PlainResponse} {got : Bytes} {c : Conn}

theorem congr {c' : Conn} (decoded : Decoded told got c) (inBytes : c'.inBytes = c.inBytes)
    (inOff : c'.inOff = c.inOff) (doneReq : c'.doneReq = c.doneReq) : Decoded told got c' := by
  obtain ⟨⟨unread, holds, all⟩, number, waiting⟩ := decoded
  obtain ⟨before, text, place⟩ := holds.split
  refine ⟨⟨unread, @holds_of_split c' before _ (inBytes.trans text) (inOff.trans place), all⟩,
    doneReq.trans number, ?_⟩
  rw [inBytes, inOff]
  exact waiting

/-- The responses reported are the first of those written. -/
theorem first {responses : List PlainResponse} (decoded : Decoded told got c)
    (arrived : got <+: responses.flatMap (·.serialize)) :
    told.map (·.status) <+: responses.map (·.status) := by
  obtain ⟨future, stream⟩ := arrived
  obtain ⟨⟨unread, _, rfl⟩, _, _⟩ := decoded
  rw [List.append_assoc] at stream
  obtain ⟨done, left, rfl, statuses, _⟩ := read_unique stream
  rw [List.map_append, statuses]
  exact List.prefix_append _ _

/-- A chunk that arrives is drained. -/
theorem drain {responses : List PlainResponse} {data : Bytes} {b : Bench}
    (decoded : Decoded told got c) (mode : b.httpMode = true)
    (arrived : got ++ data <+: responses.flatMap (·.serialize)) :
    ∃ more, let drained := drainHttp b { c with inBytes := c.inBytes ++ data }
      drained.ok = true ∧ Decoded (told ++ more) (got ++ data) drained.conn ∧
        Counts b drained.bench (more.map (·.status)) := by
  obtain ⟨future, stream⟩ := arrived
  obtain ⟨⟨unread, holds, rfl⟩, number, _⟩ := decoded
  rw [List.append_assoc, List.append_assoc] at stream
  obtain ⟨_, left, _, _, later⟩ := read_unique stream
  rw [← List.append_assoc] at later
  obtain ⟨more, rest, unread', rfl, reports⟩ :=
    drainLoop_serialized (b := b) (holds.append data) later
  obtain ⟨counts, total⟩ := @counts_drainLoop b { c with inBytes := c.inBytes ++ data } mode
  have statuses : (drainLoop b { c with inBytes := c.inBytes ++ data }).calls.filterMap
      Call.status? = more.map (·.status) := by
    rw [reports.calls, List.filterMap_map, ← List.filterMap_eq_map]
    rfl
  have waiting := waiting_of_drainLoop reports.ok
  refine ⟨more, ?_⟩
  unfold drainHttp
  dsimp only
  rw [if_pos reports.ok]
  rw [statuses] at counts total
  refine ⟨reports.ok, ⟨⟨unread', reports.holds.compact, ?_⟩, ?_, ?_⟩, counts⟩
  · rw [List.flatMap_append, ← reports.stream, ← List.append_assoc] at later
    rw [List.append_assoc, List.append_cancel_right later, List.flatMap_append,
      List.append_assoc]
  · refine (compact_doneReq _).trans ?_
    rw [total, number, List.length_append, List.length_map]
  · exact reports.holds.waiting reports.holds.compact reports.stream waiting

end Decoded

/-! ## What is sent -/

/-- Every request of the connection is this one. -/
structure Asking (payload : Bytes) (c : Link) : Prop extends Repeating payload c where
  running : c.state.live = 1 → c.req = payload
  asked : 0 < c.sentReq → c.req = payload

/-- What the sending side of a connection is made of. -/
def Link.wire (c : Link) := (c.opened, c.state, c.req, c.out, c.outOff, c.sentReq)

theorem Link.sent_congr {c c' : Link} (same : c'.wire = c.wire) : c'.sent = c.sent := by
  simp only [Link.wire, Prod.mk.injEq] at same
  obtain ⟨_, _, req, out, outOff, sentReq⟩ := same
  rw [Link.sent, Link.sent, Link.issued, Link.issued, req, out, outOff, sentReq]

namespace Asking

variable {payload : Bytes} {c c' : Link}

theorem congr (asking : Asking payload c) (same : c'.wire = c.wire) : Asking payload c' := by
  simp only [Link.wire, Prod.mk.injEq] at same
  obtain ⟨opened, state, req, out, outOff, sentReq⟩ := same
  refine ⟨⟨?_, ?_, ?_⟩, ?_, ?_⟩
  · rw [opened, req]
    exact asking.req
  · rw [out, outOff]
    exact asking.offset
  · rw [out, outOff, Link.issued, req, sentReq]
    exact asking.unsent
  · rw [state, req]
    exact asking.running
  · rw [sentReq, req]
    exact asking.asked

/-- A connection that is closed keeps what it has sent. -/
theorem close (asking : Asking payload c) {state : ConnState} (ended : state.live = 0) :
    Asking payload { c with opened := false, state } where
  req opened := absurd opened Bool.false_ne_true
  offset := asking.offset
  unsent := asking.unsent
  running := by
    intro live
    exact absurd (ended.symm.trans live) Nat.zero_ne_one
  asked := asking.asked

/-- What has been sent is a part of the requests issued. -/
theorem sent_issued (asking : Asking payload c) :
    c.sent <+: (List.replicate c.sentReq payload).flatten := by
  have whole := asking.sent_append
  have issued : c.issued = (List.replicate c.sentReq payload).flatten := by
    cases count : c.sentReq with
    | zero => rw [Link.issued, count, List.replicate_zero, List.replicate_zero]
    | succ k =>
        rw [Link.issued, asking.asked (by rw [count]; exact Nat.succ_pos k), count]
  rw [← issued]
  exact ⟨_, whole⟩

end Asking

/-- What the receiving side reads of a handler's state. -/
def Turn.reception (k : Turn) :=
  (k.client.opts, k.client.httpMode, k.client.expectStatus, k.client.statusHist, k.client.ok,
    k.client.badStatus, k.conn.inBytes, k.conn.inOff, k.conn.doneReq)

/-- Since `before` nothing has been received; more may have been sent. -/
structure Serving (payload : Bytes) (before k : Turn) : Prop where
  same : k.reception = before.reception
  asking : Asking payload k.conn
  grown : before.conn.sent <+: k.conn.sent

namespace Serving

variable {payload : Bytes} {before k : Turn}

theorem refl (asking : Asking payload k.conn) : Serving payload k k :=
  ⟨rfl, asking, List.prefix_rfl⟩

theorem congr {k' : Turn} (serving : Serving payload before k)
    (same : k'.reception = k.reception) (wire : k'.conn.wire = k.conn.wire) :
    Serving payload before k' where
  same := same.trans serving.same
  asking := serving.asking.congr wire
  grown := by
    rw [Link.sent_congr wire]
    exact serving.grown

theorem closeConn (serving : Serving payload before k) (success : Bool) :
    Serving payload before (k.closeConn success) where
  same := serving.same
  asking := serving.asking.close (by cases success <;> rfl)
  grown := serving.grown

theorem failConn (serving : Serving payload before k) (category : Bytes) :
    Serving payload before (k.failConn category) := by
  unfold Turn.failConn
  split
  · exact serving
  · refine closeConn ?_ false
    exact serving.congr rfl rfl

theorem calm {k' : Turn} (serving : Serving payload before k) (same : k'.calm = k.calm) :
    Serving payload before k' := by
  have reception : k'.calm.reception = k.calm.reception := congrArg Turn.reception same
  have wire : k'.calm.conn.wire = k.calm.conn.wire := congrArg (·.conn.wire) same
  exact serving.congr reception wire

/-- One more request is issued. -/
theorem issue (serving : Serving payload before k) (ready : k.conn.state = .ready) :
    Serving payload before k.issue := by
  have req : k.conn.req = payload := serving.asking.running (by rw [ready]; rfl)
  have issued : Repeating payload k.issue.conn ∧ k.issue.conn.sent = k.conn.sent := by
    unfold Turn.issue
    dsimp only
    split <;> exact serving.asking.issue rfl rfl rfl rfl rfl
  have rest : k.issue.reception = k.reception ∧ k.issue.conn.req = k.conn.req := by
    unfold Turn.issue
    dsimp only
    split <;> exact ⟨rfl, rfl⟩
  refine ⟨rest.1.trans serving.same, ⟨issued.1, fun _ => rest.2.trans req,
    fun _ => rest.2.trans req⟩, ?_⟩
  rw [issued.2]
  exact serving.grown

theorem upheld : Upheld (Serving payload before) where
  calm := fun serving same => serving.calm same
  fail := fun serving _ => serving.failConn _
  close := fun serving _ _ _ => serving.closeConn true
  issue := by
    intro k serving ready _ _
    refine (serving.calm k.moreRequests_calm).issue ?_
    rw [Turn.moreRequests_conn]
    exact ready
  sent := by
    intro k n serving _ within
    have sent : Repeating payload (k.sentOctets n).conn ∧ (k.sentOctets n).conn.sent =
        k.conn.sent ++ (k.conn.out.drop k.conn.outOff).take n :=
      serving.asking.send within rfl rfl rfl rfl rfl
    refine ⟨serving.same, ⟨sent.1, serving.asking.running, serving.asking.asked⟩, ?_⟩
    rw [sent.2]
    exact serving.grown.trans (List.prefix_append _ _)
  clear := by
    intro k serving all
    have cleared := @Repeating.clear payload k.conn { k.conn with out := [], outOff := 0 }
      serving.asking.toRepeating all rfl rfl rfl rfl rfl
    refine ⟨serving.same, ⟨cleared.1, serving.asking.running, serving.asking.asked⟩, ?_⟩
    dsimp only
    rw [cleared.2]
    exact serving.grown
  connect := by
    intro k serving attempt
    refine ⟨serving.same, ?_, serving.grown⟩
    have running : k.conn.req = payload := serving.asking.running (by rw [attempt]; rfl)
    exact { serving.asking with running := fun _ => running }

end Serving

/-! ## Reading -/

/-- Of a stream of which `base` octets had been read, `read` more have been: from
`k` to `k'` these responses are reported in addition. -/
structure ReadTo (payload stream : Bytes) (told more : List PlainResponse) (base read : Nat)
    (k k' : Turn) : Prop where
  decoded : Decoded (told ++ more) (stream.take (base + read)) k'.conn.toConn
  within : base + read ≤ stream.length
  octets : k'.client.totalBytesIn = k.client.totalBytesIn + read
  counts : Counts k.client.toBench k'.client.toBench (more.map (·.status))
  options : k'.client.opts = k.client.opts
  asking : Asking payload k'.conn
  grown : k.conn.sent <+: k'.conn.sent
  issued : k'.conn.sentReq = k.conn.sentReq

namespace ReadTo

variable {payload stream : Bytes} {told more later : List PlainResponse} {base read next : Nat}
  {k k' k'' : Turn}

theorem trans (first : ReadTo payload stream told more base read k k')
    (second : ReadTo payload stream (told ++ more) later (base + read) next k' k'') :
    ReadTo payload stream told (more ++ later) base (read + next) k k'' where
  decoded := by
    rw [← List.append_assoc, ← Nat.add_assoc]
    exact second.decoded
  within := by
    rw [← Nat.add_assoc]
    exact second.within
  octets := by
    rw [second.octets, first.octets, Nat.add_assoc]
  counts := by
    rw [List.map_append]
    exact first.counts.trans second.counts
  options := second.options.trans first.options
  asking := second.asking
  grown := first.grown.trans second.grown
  issued := second.issued.trans first.issued

/-- The results of the system calls are not part of it. -/
theorem withOs {os : Os} (readTo : ReadTo payload stream told more base read { k with os } k') :
    ReadTo payload stream told more base read k k' :=
  ⟨readTo.decoded, readTo.within, readTo.octets, readTo.counts, readTo.options, readTo.asking,
    readTo.grown, readTo.issued⟩

/-- Nothing is read. -/
theorem nothing (decoded : Decoded told (stream.take base) k.conn.toConn)
    (within : base ≤ stream.length) (serving : Serving payload k k')
    (octets : k'.client.totalBytesIn = k.client.totalBytesIn)
    (issued : k'.conn.sentReq = k.conn.sentReq) :
    ReadTo payload stream told [] base 0 k k' := by
  obtain ⟨same, asking, grown⟩ := serving
  simp only [Turn.reception, Prod.mk.injEq] at same
  obtain ⟨options, mode, expected, hist, ok, bad, inBytes, inOff, doneReq⟩ := same
  refine ⟨?_, within, octets, ⟨?_, ok, bad, mode, expected⟩, options, asking, grown, issued⟩
  · rw [List.append_nil]
    exact decoded.congr inBytes inOff doneReq
  · intro status
    rw [hist]
    rfl

end ReadTo

namespace Turn

theorem failConn_totalBytesIn (k : Turn) (category : Bytes) :
    (k.failConn category).client.totalBytesIn = k.client.totalBytesIn := by
  unfold failConn
  split <;> rfl

theorem moreRequests_totalBytesIn (k : Turn) :
    k.moreRequests.2.client.totalBytesIn = k.client.totalBytesIn := by
  unfold moreRequests
  split <;> rfl

/-- At the end of the stream nothing is read or issued. -/
theorem endOfStream_counts (k : Turn) :
    k.endOfStream.client.totalBytesIn = k.client.totalBytesIn ∧
      k.endOfStream.conn.sentReq = k.conn.sentReq := by
  unfold endOfStream
  split
  · exact ⟨k.failConn_totalBytesIn _, (k.failConn_counts _).2⟩
  · dsimp only
    split
    · rw [failConn_totalBytesIn, moreRequests_totalBytesIn, (failConn_counts _ _).2,
        moreRequests_conn]
      exact ⟨rfl, rfl⟩
    · exact ⟨k.moreRequests_totalBytesIn, congrArg (·.sentReq) k.moreRequests_conn⟩

end Turn

section

variable {payload stream : Bytes} {responses told : List PlainResponse} {base : Nat} {k : Turn}

/-- A chunk of the stream is read. -/
theorem receiveOctets_readTo {data : Bytes} (mode : k.client.httpMode = true)
    (asking : Asking payload k.conn) (decoded : Decoded told (stream.take base) k.conn.toConn)
    (within : base ≤ stream.length) (offered : data <+: stream.drop base)
    (plain : stream <+: responses.flatMap (·.serialize)) :
    let received := k.receiveOctets data
    received.1 = true ∧ received.2.os = k.os ∧
      ∃ more, ReadTo payload stream told more base data.length k received.2 := by
  obtain ⟨rest, whole⟩ := offered
  have longer : stream.take (base + data.length) = stream.take base ++ data := by
    rw [List.take_add, ← whole, List.take_left]
  have arrived : stream.take base ++ data <+: responses.flatMap (·.serialize) := by
    rw [← longer]
    exact (List.take_prefix _ _).trans plain
  have size := congrArg List.length whole
  rw [List.length_append, List.length_drop] at size
  have later : Decoded told (stream.take base)
      { k.conn.toConn with lastProgress := k.nowNs.1 } := decoded.congr rfl rfl rfl
  obtain ⟨more, ok, drained, counts⟩ :=
    later.drain (b := k.client.toBench.nowNs.2) mode arrived
  unfold Turn.receiveOctets
  dsimp only
  rw [if_pos (by exact mode)]
  unfold Turn.drain
  dsimp only
  rw [if_pos (by exact ok)]
  refine ⟨rfl, rfl, more, ?_, by omega, rfl, ?_, rfl, asking.congr rfl, ?_, rfl⟩
  · rw [longer]
    exact drained
  · have read : Counts k.client.toBench k.client.toBench.nowNs.2 [] :=
      ⟨fun _ => rfl, rfl, rfl, rfl, rfl⟩
    exact read.trans counts
  · exact List.prefix_rfl

/-- Whatever has arrived when the connection becomes readable, and however the
reading ends. -/
theorem readLoop_readTo (mode : k.client.httpMode = true) (asking : Asking payload k.conn)
    (open_ : k.conn.state = .waiting ∨ k.conn.state = .ready)
    (decoded : Decoded told (stream.take base) k.conn.toConn) (within : base ≤ stream.length)
    (offered : EachChunk (fun base data => data <+: stream.drop base) base k.os.recvs)
    (plain : stream <+: responses.flatMap (·.serialize)) (budget : Nat) :
    ∃ more read, ReadTo payload stream told more base read k (k.readLoop budget).2 := by
  induction budget generalizing k told base with
  | zero => exact ⟨[], 0, .nothing decoded within (.refl asking) rfl rfl⟩
  | succ budget ih =>
      have withOs (os : Os) : Serving payload k { k with os } := (Serving.refl asking).congr rfl rfl
      rw [Turn.readLoop]
      dsimp only
      split
      · rename_i data first
        obtain ⟨rest, results⟩ := Turn.recvs_eq_cons first fun same => (by cases same)
        rw [results] at offered
        split
        · obtain ⟨octets, issued⟩ :=
            Turn.endOfStream_counts { k with os := { k.os with recvs := k.os.recvs.tail } }
          exact ⟨[], 0, .nothing decoded within (Serving.upheld.endOfStream (withOs _) open_)
            octets issued⟩
        · have left : Asking payload
              { k with os := { k.os with recvs := k.os.recvs.tail } : Turn }.conn := asking
          obtain ⟨received, os, more, readTo⟩ :=
            receiveOctets_readTo (k := { k with os := { k.os with recvs := k.os.recvs.tail } })
              mode left decoded within offered.1 plain
          rw [if_pos received]
          obtain ⟨later, read, rest⟩ := @ih (told ++ more) _ _
            (readTo.counts.httpMode.trans mode) readTo.asking
            (by rw [Turn.receiveOctets_state received]; exact open_) readTo.decoded
            readTo.within (by rw [os, results]; exact offered.2)
          exact ⟨_, _, (readTo.trans rest).withOs⟩
      · rename_i first
        obtain ⟨rest, results⟩ := Turn.recvs_eq_cons first (by decide)
        have left : EachChunk (fun base data => data <+: stream.drop base) base
            k.os.recvs.tail := by
          rw [results] at offered ⊢
          exact offered
        obtain ⟨later, read, rest⟩ :=
          @ih told base { k with os := { k.os with recvs := k.os.recvs.tail } } mode asking open_
            decoded within left
        exact ⟨later, read, rest.withOs⟩
      · exact ⟨[], 0, .nothing decoded within (withOs _) rfl rfl⟩
      · refine ⟨[], 0, .nothing decoded within ((withOs _).failConn _) ?_ ?_⟩
        · rw [Turn.failConn_totalBytesIn]
        · rw [(Turn.failConn_counts _ _).2]

end

/-! ## Events -/

namespace Turn

theorem onEvent_of_reads {k : Turn} {events : UInt32} (reads : k.reads events = true)
    (soError : SoError) :
    k.onEvent events soError = if k.doRead.1 then k.doRead.2.afterRead else k.doRead.2 := by
  unfold Turn.reads at reads
  simp only [Bool.and_eq_true, bne_iff_ne] at reads
  obtain ⟨⟨alive, attempted⟩, readable⟩ := reads
  unfold onEvent
  rw [if_pos alive, if_neg attempted, if_pos readable]

end Turn

namespace Serving

variable {payload : Bytes} {k : Turn}

/-- An event that makes the client read, after the reading. -/
theorem afterRead {events : UInt32} (reads : k.reads events = true)
    (asking : Asking payload k.doRead.2.conn) (soError : SoError) :
    Serving payload k.doRead.2 (k.onEvent events soError) := by
  rw [Turn.onEvent_of_reads reads]
  split
  · exact upheld.afterRead (refl asking)
  · exact refl asking

/-- An event that does not. -/
theorem onEvent {events : UInt32} (reads : k.reads events = false)
    (asking : Asking payload k.conn) (soError : SoError) :
    Serving payload k (k.onEvent events soError) := by
  refine upheld.onEvent (refl asking) events soError fun alive attempted readable => ?_
  have other : k.reads events = true := by
    simp [Turn.reads, alive, attempted, readable]
  cases reads.symm.trans other

theorem start (asking : Asking payload k.conn) (t0 : UInt64) :
    Serving payload k (k.start t0) := by
  unfold Turn.start
  split
  · rename_i waiting
    have running : k.conn.req = payload := asking.running (by rw [waiting]; rfl)
    refine upheld.pump ⟨rfl, ?_, List.prefix_rfl⟩
    exact { asking with running := fun _ => running }
  · exact refl asking

end Serving

/-! ## All connections -/

namespace Load

variable {n : Nat}

/-- From `s` to `t` nothing is received; more may be sent. -/
structure Onward (payload : Fin n → Bytes) (s t : Load n) : Prop where
  options : t.client.opts = s.client.opts
  counts : Counts s.client.toBench t.client.toBench []
  buffers : ∀ i, (t.conns i).inBytes = (s.conns i).inBytes ∧
    (t.conns i).inOff = (s.conns i).inOff ∧ (t.conns i).doneReq = (s.conns i).doneReq
  asking : ∀ i, Asking (payload i) (t.conns i)
  grown : ∀ i, (s.conns i).sent <+: (t.conns i).sent

namespace Onward

variable {payload : Fin n → Bytes} {s t u : Load n}

theorem refl (asking : ∀ i, Asking (payload i) (s.conns i)) : Onward payload s s :=
  ⟨rfl, Counts.refl _, fun _ => ⟨rfl, rfl, rfl⟩, asking, fun _ => List.prefix_rfl⟩

theorem trans (first : Onward payload s t) (second : Onward payload t u) :
    Onward payload s u where
  options := second.options.trans first.options
  counts := first.counts.trans second.counts
  buffers i := by
    obtain ⟨inBytes, inOff, doneReq⟩ := first.buffers i
    obtain ⟨inBytes', inOff', doneReq'⟩ := second.buffers i
    exact ⟨inBytes'.trans inBytes, inOff'.trans inOff, doneReq'.trans doneReq⟩
  asking := second.asking
  grown i := (first.grown i).trans (second.grown i)

/-- A handler that receives nothing. -/
theorem onConn (asking : ∀ i, Asking (payload i) (s.conns i)) (i : Fin n) (os : Os)
    {f : Turn → Turn}
    (serves : Serving (payload i) { client := s.client, conn := s.conns i, os }
      (f { client := s.client, conn := s.conns i, os })) :
    Onward payload s (s.onConn i os f) := by
  obtain ⟨same, asking', grown⟩ := serves
  simp only [Turn.reception, Prod.mk.injEq] at same
  obtain ⟨options, mode, expected, hist, ok, bad, inBytes, inOff, doneReq⟩ := same
  have counts : Counts s.client.toBench (s.onConn i os f).client.toBench [] :=
    ⟨fun status => congrFun hist status, ok, bad, mode, expected⟩
  refine ⟨options, counts, ?_, ?_, ?_⟩
  · rw [Load.onConn, Function.forall_update_iff _ fun j (c : Link) =>
      c.inBytes = (s.conns j).inBytes ∧ c.inOff = (s.conns j).inOff ∧
        c.doneReq = (s.conns j).doneReq]
    exact ⟨⟨inBytes, inOff, doneReq⟩, fun _ _ => ⟨rfl, rfl, rfl⟩⟩
  · rw [Load.onConn, Function.forall_update_iff _ fun j (c : Link) => Asking (payload j) c]
    exact ⟨asking', fun j _ => asking j⟩
  · rw [Load.onConn, Function.forall_update_iff _ fun j (c : Link) => (s.conns j).sent <+: c.sent]
    exact ⟨grown, fun _ _ => List.prefix_rfl⟩

theorem foldl_onConn (asking : ∀ i, Asking (payload i) (s.conns i)) (conns : List (Fin n))
    (os : Fin n → Os) {f : Turn → Turn}
    (serves : ∀ payload k, Asking payload k.conn → Serving payload k (f k)) :
    Onward payload s (conns.foldl (fun s i => s.onConn i (os i) f) s) := by
  induction conns generalizing s with
  | nil => exact refl asking
  | cons i conns ih =>
      have first := onConn asking i (os i) (serves _ _ (asking i))
      exact first.trans (ih first.asking)

/-- A change of the client elsewhere. -/
theorem congr {client : Client} (asking : ∀ i, Asking (payload i) (s.conns i))
    (options : client.opts = s.client.opts)
    (counts : Counts s.client.toBench client.toBench []) : Onward payload s { s with client } :=
  ⟨options, counts, fun _ => ⟨rfl, rfl, rfl⟩, asking, fun _ => List.prefix_rfl⟩

theorem checkFinishes (asking : ∀ i, Asking (payload i) (s.conns i)) :
    Onward payload s s.checkFinishes :=
  foldl_onConn asking _ _ fun _ _ asking => Serving.upheld.maybeFinish (.refl asking)

theorem nowNs (asking : ∀ i, Asking (payload i) (s.conns i)) : Onward payload s s.nowNs.2 :=
  congr asking rfl ⟨fun _ => rfl, rfl, rfl, rfl, rfl⟩

theorem maybeStart (asking : ∀ i, Asking (payload i) (s.conns i)) (os : Fin n → Os) :
    Onward payload s (s.maybeStart os) := by
  unfold Load.maybeStart
  split
  · exact refl asking
  · split
    · exact refl asking
    · have later (m : Load n) (given : Onward payload s m) : Onward payload s
          ((List.finRange n).foldl (fun s i => s.onConn i {} Turn.maybeFinish)
            ((List.finRange n).foldl (fun s' i => s'.onConn i (os i) (Turn.start s.nowNs.1)) m)) := by
        have started := foldl_onConn given.asking (List.finRange n) os fun _ _ asking =>
          Serving.start asking s.nowNs.1
        exact given.trans (started.trans (checkFinishes started.asking))
      refine later _ ?_
      exact congr asking rfl ⟨fun _ => rfl, rfl, rfl, rfl, rfl⟩

theorem periodicScan (asking : ∀ i, Asking (payload i) (s.conns i)) :
    Onward payload s s.periodicScan := by
  have finished := checkFinishes asking
  have read := nowNs finished.asking
  refine finished.trans (read.trans ?_)
  exact foldl_onConn read.asking _ _ fun _ _ asking =>
    Serving.upheld.checkTimeout (.refl asking) s.checkFinishes.nowNs.1

end Onward

/-! ## The statistics -/

/-- What has been read on each connection, and that every response is counted. -/
structure Tallied (expectStatus : List Int) (told : Fin n → List PlainResponse)
    (got : Fin n → Bytes) (s : Load n) : Prop where
  mode : s.client.httpMode = true
  expected : s.client.expectStatus = expectStatus
  hist : ∀ status, s.client.statusHist status = ∑ i, ((told i).map (·.status)).count status
  ok : s.client.ok = ∑ i, ((told i).map (·.status)).countP (· ∈ expectStatus)
  badStatus : s.client.badStatus = ∑ i, ((told i).map (·.status)).countP (· ∉ expectStatus)
  decoded : ∀ i, Decoded (told i) (got i) (s.conns i).toConn

namespace Tallied

variable {expectStatus : List Int} {told : Fin n → List PlainResponse} {got : Fin n → Bytes}
  {payload : Fin n → Bytes} {s t : Load n}

theorem onward (tallied : Tallied expectStatus told got s) (later : Onward payload s t) :
    Tallied expectStatus told got t where
  mode := later.counts.httpMode.trans tallied.mode
  expected := later.counts.expectStatus.trans tallied.expected
  hist status := (later.counts.hist status).trans (tallied.hist status)
  ok := later.counts.ok.trans tallied.ok
  badStatus := later.counts.badStatus.trans tallied.badStatus
  decoded i := by
    obtain ⟨inBytes, inOff, doneReq⟩ := later.buffers i
    exact (tallied.decoded i).congr inBytes inOff doneReq

theorem sum_told (f : List Int → Nat) (additive : ∀ l l', f (l ++ l') = f l + f l')
    {i : Fin n} {more : List PlainResponse} :
    ∑ j, f ((Function.update told i (told i ++ more) j).map (·.status)) =
      ∑ j, f ((told j).map (·.status)) + f (more.map (·.status)) := by
  have total := Family.sum_update (fun (_ : Fin n) (told : List PlainResponse) =>
    f (told.map (·.status))) told i (told i ++ more)
  rw [List.map_append, additive] at total
  omega

/-- More responses are read on one connection. -/
theorem more {k : Turn} {i : Fin n} {more : List PlainResponse} {now : Bytes}
    (tallied : Tallied expectStatus told got s)
    (counts : Counts s.client.toBench k.client.toBench (more.map (·.status)))
    (decoded : Decoded (told i ++ more) now k.conn.toConn) :
    Tallied expectStatus (Function.update told i (told i ++ more)) (Function.update got i now)
      { client := k.client, conns := Function.update s.conns i k.conn } where
  mode := counts.httpMode.trans tallied.mode
  expected := counts.expectStatus.trans tallied.expected
  hist status := by
    rw [sum_told _ fun _ _ => List.count_append, ← tallied.hist]
    exact counts.hist status
  ok := by
    rw [sum_told _ fun _ _ => List.countP_append, ← tallied.ok, ← tallied.expected]
    exact counts.ok
  badStatus := by
    rw [sum_told _ fun _ _ => List.countP_append, ← tallied.badStatus, ← tallied.expected]
    exact counts.badStatus
  decoded j := by
    by_cases same : j = i
    · subst same
      simp only [Function.update_self]
      exact decoded
    · simp only [Function.update_of_ne same]
      exact tallied.decoded j

/-- An event on a connection on which a part of a stream of responses has arrived. -/
theorem onEvent {i : Fin n} {events : UInt32} {os : Os} {stream : Bytes}
    {responses : List PlainResponse} {base : Nat}
    (tallied : Tallied expectStatus told got s)
    (asking : ∀ i, Asking (payload i) (s.conns i))
    (reads : Turn.reads events { client := s.client, conn := s.conns i, os } = true)
    (soError : SoError) (seen : got i = stream.take base) (within : base ≤ stream.length)
    (offered : EachChunk (fun base data => data <+: stream.drop base) base os.recvs)
    (plain : stream <+: responses.flatMap (·.serialize)) :
    ∃ more read, ReadTo (payload i) stream (told i) more base read
        { client := s.client, conn := s.conns i, os }
        (Turn.doRead { client := s.client, conn := s.conns i, os }).2 ∧
      Tallied expectStatus (Function.update told i (told i ++ more))
        (Function.update got i (stream.take (base + read)))
        (s.onConn i os (Turn.onEvent events soError)) ∧
      (∀ j, Asking (payload j) ((s.onConn i os (Turn.onEvent events soError)).conns j)) ∧
      ∀ j, (s.conns j).sent <+: ((s.onConn i os (Turn.onEvent events soError)).conns j).sent := by
  have alive := reads
  unfold Turn.reads at alive
  simp only [Bool.and_eq_true, bne_iff_ne] at alive
  obtain ⟨more, read, readTo⟩ :=
    readLoop_readTo (k := { client := s.client, conn := s.conns i, os }) tallied.mode (asking i)
      (Turn.open_of_alive alive.1.1 alive.1.2) (seen ▸ tallied.decoded i) within offered plain
      kReadBudget
  have after := Serving.afterRead reads readTo.asking soError
  have same := after.same
  simp only [Turn.reception, Prod.mk.injEq] at same
  obtain ⟨_, mode, expected, hist, ok, bad, inBytes, inOff, doneReq⟩ := same
  have later : Counts _ _ [] := ⟨fun status => congrFun hist status, ok, bad, mode, expected⟩
  refine ⟨more, read, readTo, tallied.more ?_ ?_, ?_, ?_⟩
  · have counts := readTo.counts.trans later
    rwa [List.append_nil] at counts
  · exact readTo.decoded.congr inBytes inOff doneReq
  · rw [Load.onConn, Function.forall_update_iff _ fun j (c : Link) => Asking (payload j) c]
    exact ⟨after.asking, fun j _ => asking j⟩
  · rw [Load.onConn, Function.forall_update_iff _ fun j (c : Link) => (s.conns j).sent <+: c.sent]
    exact ⟨readTo.grown.trans after.grown, fun _ _ => List.prefix_rfl⟩

end Tallied

/-! ## The set-up -/

/-- Before anything is sent or received. -/
structure Unused (expectStatus : List Int) (opts : Options) (s : Load n) : Prop where
  options : s.client.opts = opts
  mode : s.client.httpMode = true
  expected : s.client.expectStatus = expectStatus
  hist : ∀ status, s.client.statusHist status = 0
  ok : s.client.ok = 0
  badStatus : s.client.badStatus = 0
  buffers : ∀ i, (s.conns i).inBytes = [] ∧ (s.conns i).inOff = 0 ∧ (s.conns i).doneReq = 0 ∧
    (s.conns i).out = [] ∧ (s.conns i).outOff = 0 ∧ (s.conns i).sentReq = 0
  req : ∀ i, (s.conns i).opened = true → (s.conns i).req = opts.request i

namespace Unused

variable {expectStatus : List Int} {opts : Options} {s : Load n}

theorem setUp {i : Fin n} {client : Client} {c : Link} (unused : Unused expectStatus opts s)
    (options : client.opts = s.client.opts) (counts : Counts s.client.toBench client.toBench [])
    (buffers : c.inBytes = (s.conns i).inBytes ∧ c.inOff = (s.conns i).inOff ∧
      c.doneReq = (s.conns i).doneReq ∧ c.out = (s.conns i).out ∧
      c.outOff = (s.conns i).outOff ∧ c.sentReq = (s.conns i).sentReq)
    (req : c.opened = true → c.req = opts.request i) :
    Unused expectStatus opts { client, conns := Function.update s.conns i c } where
  options := options.trans unused.options
  mode := counts.httpMode.trans unused.mode
  expected := counts.expectStatus.trans unused.expected
  hist status := (counts.hist status).trans (unused.hist status)
  ok := counts.ok.trans unused.ok
  badStatus := counts.badStatus.trans unused.badStatus
  buffers := by
    rw [Function.forall_update_iff _ fun _ (c : Link) => c.inBytes = [] ∧ c.inOff = 0 ∧
      c.doneReq = 0 ∧ c.out = [] ∧ c.outOff = 0 ∧ c.sentReq = 0]
    obtain ⟨inBytes, inOff, doneReq, out, outOff, sentReq⟩ := buffers
    rw [inBytes, inOff, doneReq, out, outOff, sentReq]
    exact ⟨unused.buffers i, fun j _ => unused.buffers j⟩
  req := by
    rw [Function.forall_update_iff _ fun (j : Fin n) (c : Link) =>
      c.opened = true → c.req = opts.request j]
    exact ⟨req, fun j _ => unused.req j⟩

theorem setupConn {i : Fin n} {t : Load n} {outcome : Outcome} {added : Bool}
    (unused : Unused expectStatus opts s) (done : s.setupConn i outcome added = some t) :
    Unused expectStatus opts t := by
  have req : s.client.opts.request i = opts.request i := by rw [unused.options]
  have same : Counts s.client.toBench s.client.toBench.nowNs.2 [] :=
    ⟨fun _ => rfl, rfl, rfl, rfl, rfl⟩
  have none : Counts s.client.toBench s.client.toBench [] := Counts.refl _
  cases outcome with
  | noSocket =>
      simp only [Load.setupConn] at done
      split at done
      · cases done
      · cases done
        exact unused.setUp rfl none ⟨rfl, rfl, rfl, rfl, rfl, rfl⟩
          fun opened => absurd opened Bool.false_ne_true
  | refused =>
      simp only [Load.setupConn] at done
      split at done
      · cases done
      · cases done
        exact unused.setUp rfl same ⟨rfl, rfl, rfl, rfl, rfl, rfl⟩
          fun opened => absurd opened Bool.false_ne_true
  | connected | inProgress =>
      simp only [Load.setupConn] at done
      split at done
      · cases done
        exact unused.setUp rfl same ⟨rfl, rfl, rfl, rfl, rfl, rfl⟩ fun _ => req
      · cases done

end Unused

theorem unused_of_setupConns {expectStatus : List Int} {clock : Nat → UInt64} {opts : Options}
    {outcomes : Fin n → Outcome × Bool} {s : Load n}
    (setUp : setupConns (Client.initial true expectStatus clock opts) outcomes = some s) :
    Unused expectStatus opts s := by
  refine setupConns_induct ?_ ⟨rfl, rfl, rfl, fun _ => rfl, rfl, rfl,
    fun _ => ⟨rfl, rfl, rfl, rfl, rfl, rfl⟩,
    fun _ opened => absurd opened Bool.false_ne_true⟩ setUp
  intro s t i outcome added unused _ done
  exact unused.setupConn done

theorem Unused.asking {expectStatus : List Int} {opts : Options} {s : Load n}
    (unused : Unused expectStatus opts s) (counted : Counted [] s) (i : Fin n) :
    Asking (opts.request i) (s.conns i) := by
  obtain ⟨_, _, _, out, outOff, sentReq⟩ := unused.buffers i
  refine ⟨⟨unused.req i, ?_, ?_⟩, fun live => unused.req i ((counted.opened i).mpr live), ?_⟩
  · rw [outOff]
    exact Nat.zero_le _
  · rw [out, List.drop_nil]
    exact List.nil_suffix
  · rw [sentReq]
    exact fun positive => absurd positive (Nat.lt_irrefl 0)

end Load

end Bench

end MiniNet
