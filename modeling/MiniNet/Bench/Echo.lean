import MiniNet.Bench.Accounting
import MiniNet.Bench.Verification

/-!
# Runs in echo mode

What a connection has sent repeats the payload.  As long as every chunk that
comes back is short enough for the check, the client of a server that returns
what it was sent never finds a mismatch.
-/

namespace MiniNet

open Bytes

namespace Bench

/-- The options of the echo mode, where every request is the payload. -/
def Options.echo (opts : Options) : Options :=
  { opts with request := fun _ => opts.echoPayload }

/-! ## What is sent and what comes back -/

namespace Link

/-- The octets of the requests issued on a connection. -/
def issued (c : Link) : Bytes := (List.replicate c.sentReq c.req).flatten

/-- What of them has been sent. -/
def sent (c : Link) : Bytes := c.issued.take (c.issued.length - (c.out.length - c.outOff))

end Link

/-- The client's side of an echo: what is still to be sent are the last octets
issued, and an open connection repeats the payload. -/
structure Repeating (payload : Bytes) (c : Link) : Prop where
  req : c.opened = true → c.req = payload
  offset : c.outOff ≤ c.out.length
  unsent : c.out.drop c.outOff <:+ c.issued

namespace Repeating

variable {payload : Bytes} {c : Link}

theorem sent_append (repeating : Repeating payload c) :
    c.sent ++ c.out.drop c.outOff = c.issued := by
  obtain ⟨before, whole⟩ := repeating.unsent
  have size : c.issued.length - (c.out.length - c.outOff) = before.length := by
    rw [← whole, List.length_append, List.length_drop, Nat.add_sub_cancel]
  rw [Link.sent, size, ← whole, List.take_left']
  rfl

/-- The octet of the stream at a position. -/
theorem getElem?_flatten_replicate {count i : Nat} (below : i < count * payload.length) :
    (List.replicate count payload).flatten[i]? = payload[i % payload.length]? := by
  induction count generalizing i with
  | zero => omega
  | succ count ih =>
      rw [List.replicate_succ, List.flatten_cons, List.getElem?_append]
      split
      · rename_i first
        rw [Nat.mod_eq_of_lt first]
      · rename_i later
        have past : payload.length ≤ i := Nat.not_lt.mp later
        rw [ih (by rw [Nat.add_mul] at below; omega), ← Nat.mod_eq_sub_mod past]

/-- What has been sent repeats the payload. -/
theorem getElem?_sent (repeating : Repeating payload c) (opened : c.opened = true) {i : Nat}
    (inside : i < c.sent.length) : c.sent[i]? = payload[i % payload.length]? := by
  have whole := repeating.sent_append
  have issued : c.issued[i]? = c.sent[i]? := by
    rw [← whole, List.getElem?_append_left inside]
  have below : i < c.issued.length := by
    rw [← whole, List.length_append]
    omega
  rw [← issued]
  rw [Link.issued, repeating.req opened] at below ⊢
  refine getElem?_flatten_replicate ?_
  rwa [List.length_flatten, List.map_replicate, List.sum_replicate_nat] at below

/-- The connection with what has been sent by now. -/
theorem of_append {c' : Link} {stream : Bytes} (req : c'.opened = true → c'.req = payload)
    (offset : c'.outOff ≤ c'.out.length)
    (whole : stream ++ c'.out.drop c'.outOff = c'.issued) :
    Repeating payload c' ∧ c'.sent = stream := by
  have repeating : Repeating payload c' := ⟨req, offset, stream, whole⟩
  exact ⟨repeating, List.append_cancel_right (repeating.sent_append.trans whole.symm)⟩

/-- A request is issued, and nothing is sent by that. -/
theorem issue {c' : Link} (repeating : Repeating payload c) (opened : c'.opened = c.opened)
    (req : c'.req = c.req) (out : c'.out = c.out ++ c.req) (outOff : c'.outOff = c.outOff)
    (sentReq : c'.sentReq = c.sentReq + 1) :
    Repeating payload c' ∧ c'.sent = c.sent := by
  have more : c'.issued = c.issued ++ c.req := by
    rw [Link.issued, Link.issued, sentReq, req, List.replicate_succ', List.flatten_concat]
  refine of_append ?_ ?_ ?_
  · rw [opened, req]
    exact repeating.req
  · rw [out, outOff, List.length_append]
    exact Nat.le_add_right_of_le repeating.offset
  · rw [more, out, outOff, List.drop_append_of_le_length repeating.offset,
      ← List.append_assoc, repeating.sent_append]

/-- What `send` takes is added to what has been sent. -/
theorem send {c' : Link} (repeating : Repeating payload c) {n : Nat}
    (within : n ≤ c.out.length - c.outOff) (opened : c'.opened = c.opened)
    (req : c'.req = c.req) (out : c'.out = c.out) (outOff : c'.outOff = c.outOff + n)
    (sentReq : c'.sentReq = c.sentReq) :
    Repeating payload c' ∧ c'.sent = c.sent ++ (c.out.drop c.outOff).take n := by
  refine of_append ?_ ?_ ?_
  · rw [opened, req]
    exact repeating.req
  · have offset := repeating.offset
    rw [out, outOff]
    omega
  · rw [Link.issued, sentReq, req, ← Link.issued, out, outOff, ← List.drop_drop,
      List.append_assoc, List.take_append_drop, repeating.sent_append]

/-- The buffer is emptied when all of it has been sent. -/
theorem clear {c' : Link} (repeating : Repeating payload c) (all : c.out.length ≤ c.outOff)
    (opened : c'.opened = c.opened) (req : c'.req = c.req) (out : c'.out = [])
    (outOff : c'.outOff = 0) (sentReq : c'.sentReq = c.sentReq) :
    Repeating payload c' ∧ c'.sent = c.sent := by
  refine of_append ?_ ?_ ?_
  · rw [opened, req]
    exact repeating.req
  · rw [out, outOff]
    exact Nat.le_refl 0
  · rw [Link.issued, sentReq, req, ← Link.issued, ← repeating.sent_append, out, outOff,
      List.drop_eq_nil_of_le all]
    rfl

end Repeating

/-- What the echo reads of a handler's state. -/
def Turn.wires (k : Turn) :=
  (k.client.opts, k.client.httpMode, k.client.errHist, k.conn.opened, k.conn.req,
    k.conn.out, k.conn.outOff, k.conn.sentReq)

theorem onResponseComplete_httpMode (b : Bench) (c : Conn) (status : Int) :
    (b.onResponseComplete c status).1.httpMode = b.httpMode := by
  have taken : (b.takeLatency c).2.1.httpMode = b.httpMode := by
    unfold takeLatency
    split <;> rfl
  have counted (b : Bench) : (b.countStatus status).httpMode = b.httpMode := by
    unfold countStatus
    split
    · dsimp only
      split <;> rfl
    · rfl
  have recorded (b : Bench) (lat : UInt64) : (b.recordLatency lat).httpMode = b.httpMode := by
    unfold recordLatency
    split
    · split <;> rfl
    · rfl
  unfold onResponseComplete
  dsimp only
  rw [recorded, counted]
  exact taken

/-- Answers are counted on the receiving side only. -/
theorem Turn.completeEchoes_wires (k : Turn) (count : Nat) :
    (k.completeEchoes count).wires = k.wires ∧
      (k.completeEchoes count).conn.echoRecv = k.conn.echoRecv ∧
      (k.completeEchoes count).os = k.os := by
  induction count generalizing k with
  | zero => exact ⟨rfl, rfl, rfl⟩
  | succ count ih =>
      have one : (k.complete 0).wires = k.wires := by
        have mode : (k.complete 0).client.httpMode = k.client.httpMode :=
          onResponseComplete_httpMode _ _ _
        rw [Turn.wires, mode]
        rfl
      obtain ⟨wires, echoRecv, os⟩ := ih (k.complete 0)
      exact ⟨wires.trans one, echoRecv, os⟩

/-- A result other than `EAGAIN` is the first of those left. -/
theorem Turn.recvs_eq_cons {recvs : List Received} {result : Received}
    (first : recvs.head?.getD .eagain = result) (some_ : result ≠ .eagain) :
    ∃ rest, recvs = result :: rest := by
  cases recvs with
  | nil => exact absurd first.symm some_
  | cons head rest => exact ⟨rest, by rw [← first]; rfl⟩

/-- Every chunk that `doRead` gets has the property at its offset. -/
def EachChunk (ok : Nat → Bytes → Prop) : Nat → List Received → Prop
  | _, [] => True
  | base, .octets data :: rest =>
      ok base (data.take 65536) ∧ EachChunk ok (base + (data.take 65536).length) rest
  | base, .eintr :: rest => EachChunk ok base rest
  | _, .eagain :: _ => True
  | _, .error :: _ => True

instance decidableEachChunk {ok : Nat → Bytes → Prop} [∀ base data, Decidable (ok base data)] :
    ∀ base recvs, Decidable (EachChunk ok base recvs)
  | _, [] => isTrue trivial
  | base, .octets data :: rest =>
      have : Decidable (EachChunk ok (base + (data.take 65536).length) rest) :=
        decidableEachChunk _ rest
      inferInstanceAs (Decidable (_ ∧ _))
  | base, .eintr :: rest => decidableEachChunk base rest
  | _, .eagain :: _ => isTrue trivial
  | _, .error :: _ => isTrue trivial

/-- No connection has failed because of the octets that came back. -/
structure Echoing (opts : Options) (k : Turn) : Prop where
  options : k.client.opts = opts
  mode : k.client.httpMode = false
  clean : k.client.errHist (lit "回显内容不对") = 0
  repeating : Repeating opts.echoPayload k.conn

namespace Echoing

variable {opts : Options} {k : Turn}

theorem congr {k' : Turn} (echoing : Echoing opts k) (same : k'.wires = k.wires) :
    Echoing opts k' := by
  simp only [Turn.wires, Prod.mk.injEq] at same
  obtain ⟨options, mode, errHist, opened, req, out, outOff, sentReq⟩ := same
  refine ⟨options.trans echoing.options, mode.trans echoing.mode, ?_, ?_, ?_, ?_⟩
  · rw [errHist]
    exact echoing.clean
  · rw [opened, req]
    exact echoing.repeating.req
  · rw [out, outOff]
    exact echoing.repeating.offset
  · rw [out, outOff, Link.issued, req, sentReq]
    exact echoing.repeating.unsent

theorem closeConn (echoing : Echoing opts k) (success : Bool) :
    Echoing opts (k.closeConn success) where
  options := echoing.options
  mode := echoing.mode
  clean := echoing.clean
  repeating := ⟨fun opened => absurd opened Bool.false_ne_true, echoing.repeating.offset,
    echoing.repeating.unsent⟩

/-- A connection fails for another reason. -/
theorem failConn (echoing : Echoing opts k) {category : Bytes}
    (other : lit "回显内容不对" ≠ category) : Echoing opts (k.failConn category) := by
  unfold Turn.failConn
  split
  · exact echoing
  · refine closeConn ?_ false
    refine ⟨echoing.options, echoing.mode, ?_, echoing.repeating⟩
    exact (Function.update_of_ne other _ _).trans echoing.clean

theorem upheld : Upheld (Echoing opts) where
  calm := by
    intro k k' echoing same
    have wires : k'.calm.wires = k.calm.wires := congrArg Turn.wires same
    exact echoing.congr wires
  fail := fun echoing other => echoing.failConn other
  close := fun echoing _ _ _ => echoing.closeConn true
  issue := by
    intro k echoing _ _ _
    have later : Echoing opts k.moreRequests.2 := by
      have wires : k.moreRequests.2.calm.wires = k.calm.wires :=
        congrArg Turn.wires k.moreRequests_calm
      exact echoing.congr wires
    refine ⟨later.options, later.mode, later.clean, ?_⟩
    unfold Turn.issue
    dsimp only
    split <;> exact And.left (later.repeating.issue rfl rfl rfl rfl rfl)
  sent := fun echoing _ within => ⟨echoing.options, echoing.mode, echoing.clean,
    And.left (echoing.repeating.send within rfl rfl rfl rfl rfl)⟩
  clear := fun echoing all => ⟨echoing.options, echoing.mode, echoing.clean,
    And.left (echoing.repeating.clear all rfl rfl rfl rfl rfl)⟩
  connect := fun echoing _ => echoing.congr rfl

/-! ## Receiving -/

/-- What comes back as it was sent passes the check. -/
theorem verified (echoing : Echoing opts k) (some_ : opts.echoPayload ≠ [])
    (opened : k.conn.opened = true) {base : Nat} {data : Bytes} (octets : data ≠ [])
    (echoed : data <+: k.conn.sent.drop base) (fits : Turn.Fits opts base data.length) :
    Turn.verifyChunk opts base data = true := by
  obtain ⟨rest, whole⟩ := echoed
  rw [Turn.correct_of_fits some_ octets fits]
  intro j inside
  have below : base + j < k.conn.sent.length := by
    have size := congrArg List.length whole
    rw [List.length_append, List.length_drop] at size
    omega
  rw [← echoing.repeating.getElem?_sent opened below, ← List.getElem?_drop, ← whole,
    List.getElem?_append_left inside]

/-- A chunk that passes the check is counted. -/
theorem receiveOctets (echoing : Echoing opts k) {data : Bytes}
    (verified : Turn.verifyChunk opts k.conn.echoRecv data = true) :
    let received := k.receiveOctets data
    received.1 = true ∧ received.2.wires = k.wires ∧
      received.2.conn.echoRecv = k.conn.echoRecv + data.length ∧ received.2.os = k.os := by
  have passed : (k.client.opts.verify &&
      !Turn.verifyChunk k.client.opts k.conn.echoRecv data) = false := by
    rw [echoing.options, verified, Bool.not_true, Bool.and_false]
  unfold Turn.receiveOctets
  dsimp only
  rw [if_neg (by exact Bool.eq_false_iff.mp echoing.mode), Turn.echo,
    if_neg (by exact Bool.eq_false_iff.mp passed)]
  obtain ⟨wires, echoRecv, os⟩ := Turn.completeEchoes_wires _ _
  exact ⟨rfl, wires, echoRecv, os⟩

theorem readLoop (echoing : Echoing opts k) (some_ : opts.echoPayload ≠ [])
    (opened : k.conn.opened = true)
    (open_ : k.conn.state = .waiting ∨ k.conn.state = .ready) (budget : Nat)
    (echoed : EachChunk (fun base data => data <+: k.conn.sent.drop base)
      k.conn.echoRecv k.os.recvs)
    (fitting : EachChunk (fun base data => Turn.Fits opts base data.length)
      k.conn.echoRecv k.os.recvs) : Echoing opts (k.readLoop budget).2 := by
  induction budget generalizing k with
  | zero => exact echoing
  | succ budget ih =>
      have withOs (os : Os) : Echoing opts { k with os } := echoing.congr rfl
      rw [Turn.readLoop]
      dsimp only
      split
      · rename_i data first
        obtain ⟨rest, results⟩ := Turn.recvs_eq_cons first fun same => (by cases same)
        rw [results] at echoed fitting
        split
        · exact upheld.endOfStream (withOs _) open_
        · rename_i octets
          have passed := echoing.verified some_ opened octets echoed.1 fitting.1
          obtain ⟨received, wires, echoRecv, os⟩ :=
            (withOs { k.os with recvs := k.os.recvs.tail }).receiveOctets passed
          rw [if_pos received]
          have same := wires
          simp only [Turn.wires, Prod.mk.injEq] at same
          obtain ⟨_, _, _, stillOpen, req, out, outOff, sentReq⟩ := same
          refine ih ((withOs _).congr wires) (stillOpen.trans opened) ?_ ?_ ?_
          · rw [Turn.receiveOctets_state received]
            exact open_
          · rw [echoRecv, os, Link.sent, Link.issued, req, out, outOff, sentReq, results]
            exact echoed.2
          · rw [echoRecv, os, results]
            exact fitting.2
      · rename_i first
        obtain ⟨rest, results⟩ := Turn.recvs_eq_cons first (by decide)
        refine ih (withOs _) opened open_ ?_ ?_
        · rw [results] at echoed ⊢
          exact echoed
        · rw [results] at fitting ⊢
          exact fitting
      · exact withOs _
      · exact (withOs _).failConn (by decide)

/-! ## Events -/

theorem onEvent (echoing : Echoing opts k) (some_ : opts.echoPayload ≠ [])
    (events : UInt32) (soError : SoError)
    (echoed : k.reads events = true →
      EachChunk (fun base data => data <+: k.conn.sent.drop base) k.conn.echoRecv k.os.recvs)
    (fitting : k.reads events = true →
      EachChunk (fun base data => Turn.Fits opts base data.length)
        k.conn.echoRecv k.os.recvs) : Echoing opts (k.onEvent events soError) := by
  refine upheld.onEvent echoing events soError fun alive attempted readable => ?_
  have reads : k.reads events = true := by
    simp [Turn.reads, alive, attempted, readable]
  have opened : k.conn.opened = true := by
    unfold Turn.alive at alive
    simp only [Bool.and_eq_true] at alive
    exact alive.1.1
  exact echoing.readLoop some_ opened (Turn.open_of_alive alive attempted) _ (echoed reads)
    (fitting reads)

theorem start (echoing : Echoing opts k) (t0 : UInt64) : Echoing opts (k.start t0) := by
  unfold Turn.start
  split
  · exact upheld.pump (echoing.congr rfl)
  · exact echoing

end Echoing

/-! ## All connections -/

namespace Load

variable {n : Nat}

/-- The server returns on a connection what it was sent there. -/
def Echoed (s : Load n) : Action n → Prop
  | .event i events _ os =>
      let k : Turn := { client := s.client, conn := s.conns i, os }
      k.reads events = true →
        EachChunk (fun base data => data <+: k.conn.sent.drop base) k.conn.echoRecv os.recvs
  | .maybeStart _ => True
  | .periodicScan => True

/-- Every chunk ends no later than the copy of the payload behind the one it
begins in. -/
def Fitting (s : Load n) : Action n → Prop
  | .event i events _ os =>
      let k : Turn := { client := s.client, conn := s.conns i, os }
      k.reads events = true →
        EachChunk (fun base data => Turn.Fits s.client.opts base data.length)
          k.conn.echoRecv os.recvs
  | .maybeStart _ => True
  | .periodicScan => True

instance (s : Load n) : ∀ action, Decidable (s.Echoed action)
  | .event _ _ _ _ => inferInstanceAs (Decidable (_ → _))
  | .maybeStart _ => isTrue trivial
  | .periodicScan => isTrue trivial

instance (s : Load n) : ∀ action, Decidable (s.Fitting action)
  | .event _ _ _ _ => inferInstanceAs (Decidable (_ → _))
  | .maybeStart _ => isTrue trivial
  | .periodicScan => isTrue trivial

/-- No connection has failed because of what came back. -/
structure Unbroken (opts : Options) (s : Load n) : Prop where
  options : s.client.opts = opts
  mode : s.client.httpMode = false
  clean : s.client.errHist (lit "回显内容不对") = 0
  repeating : ∀ i, Repeating opts.echoPayload (s.conns i)

namespace Unbroken

variable {opts : Options} {s : Load n}

theorem echoing (unbroken : Unbroken opts s) (i : Fin n) (os : Os) :
    Echoing opts { client := s.client, conn := s.conns i, os } :=
  ⟨unbroken.options, unbroken.mode, unbroken.clean, unbroken.repeating i⟩

theorem onConn (unbroken : Unbroken opts s) (i : Fin n) (os : Os) {f : Turn → Turn}
    (keeps : Echoing opts { client := s.client, conn := s.conns i, os } →
      Echoing opts (f { client := s.client, conn := s.conns i, os })) :
    Unbroken opts (s.onConn i os f) := by
  have echoing := keeps (unbroken.echoing i os)
  refine ⟨echoing.options, echoing.mode, echoing.clean, ?_⟩
  rw [Load.onConn, Function.forall_update_iff _ fun _ (c : Link) => Repeating opts.echoPayload c]
  exact ⟨echoing.repeating, fun j _ => unbroken.repeating j⟩

theorem foldl_onConn (unbroken : Unbroken opts s) (conns : List (Fin n)) (os : Fin n → Os)
    {f : Turn → Turn} (keeps : ∀ k, Echoing opts k → Echoing opts (f k)) :
    Unbroken opts (conns.foldl (fun s i => s.onConn i (os i) f) s) := by
  induction conns generalizing s with
  | nil => exact unbroken
  | cons i conns ih => exact ih (unbroken.onConn i (os i) (keeps _))

/-! ## The set-up -/

/-- A connection is set up or given up. -/
theorem setUp {i : Fin n} {client : Client} {c : Link} (unbroken : Unbroken opts s)
    (fresh : s.conns i = {}) (options : client.opts = s.client.opts)
    (mode : client.httpMode = s.client.httpMode)
    (clean : client.errHist (lit "回显内容不对") = s.client.errHist (lit "回显内容不对"))
    (req : c.opened = true → c.req = opts.echoPayload)
    (unsent : (c.out, c.outOff) = ((s.conns i).out, (s.conns i).outOff)) :
    Unbroken opts { client, conns := Function.update s.conns i c } := by
  refine ⟨options.trans unbroken.options, mode.trans unbroken.mode,
    clean.trans unbroken.clean, ?_⟩
  rw [fresh] at unsent
  simp only [Prod.mk.injEq] at unsent
  obtain ⟨out, outOff⟩ := unsent
  rw [Function.forall_update_iff _ fun _ (c : Link) => Repeating opts.echoPayload c]
  refine ⟨⟨req, ?_, ?_⟩, fun j _ => unbroken.repeating j⟩
  · rw [outOff]
    exact Nat.zero_le _
  · rw [out, outOff]
    exact List.nil_suffix

theorem setupConn {i : Fin n} {t : Load n} {outcome : Outcome} {added : Bool}
    (repeats : ∀ i, opts.request i = opts.echoPayload) (unbroken : Unbroken opts s)
    (fresh : s.conns i = {}) (done : s.setupConn i outcome added = some t) :
    Unbroken opts t := by
  have req : s.client.opts.request i = opts.echoPayload := by
    rw [unbroken.options, repeats]
  cases outcome with
  | noSocket | refused =>
      simp only [Load.setupConn] at done
      split at done
      · cases done
      · cases done
        exact unbroken.setUp fresh rfl rfl rfl
          (fun opened => absurd opened Bool.false_ne_true) rfl
  | connected | inProgress =>
      simp only [Load.setupConn] at done
      split at done
      · cases done
        exact unbroken.setUp fresh rfl rfl rfl (fun _ => req) rfl
      · cases done

/-! ## Runs -/

theorem maybeStart (unbroken : Unbroken opts s) (os : Fin n → Os) :
    Unbroken opts (s.maybeStart os) := by
  unfold Load.maybeStart
  split
  · exact unbroken
  · split
    · exact unbroken
    · refine foldl_onConn ?_ _ (fun _ => {}) fun _ => Echoing.upheld.maybeFinish
      refine foldl_onConn ?_ _ os fun _ echoing => echoing.start s.nowNs.1
      exact ⟨unbroken.options, unbroken.mode, unbroken.clean, unbroken.repeating⟩

theorem step {t : Load n} {action : Action n} (some_ : opts.echoPayload ≠ [])
    (unbroken : Unbroken opts s) (echoed : s.Echoed action) (fitting : s.Fitting action)
    (stepped : s.step action = some (t, ())) : Unbroken opts t := by
  cases action with
  | event i events soError os =>
      cases stepped
      refine unbroken.onConn i os fun echoing => ?_
      rw [Fitting, unbroken.options] at fitting
      exact echoing.onEvent some_ events soError echoed fitting
  | maybeStart os =>
      cases stepped
      exact unbroken.maybeStart os
  | periodicScan =>
      cases stepped
      have finished : Unbroken opts s.checkFinishes :=
        unbroken.foldl_onConn _ _ fun _ => Echoing.upheld.maybeFinish
      refine foldl_onConn ?_ _ _ fun _ echoing =>
        Echoing.upheld.checkTimeout echoing s.checkFinishes.nowNs.1
      exact ⟨finished.options, finished.mode, finished.clean, finished.repeating⟩

end Unbroken

theorem unbroken_of_run {expectStatus : List Int} {clock : Nat → UInt64} {opts : Options}
    {outcomes : Fin n → Outcome × Bool} {s t : Load n} {actions : List (Action n)}
    {trace : List (Action n × Unit)} (some_ : opts.echoPayload ≠ [])
    (repeats : ∀ i, opts.request i = opts.echoPayload)
    (setUp : setupConns (Client.initial false expectStatus clock opts) outcomes = some s)
    (meets : Machine.Along step (fun s action => s.Echoed action ∧ s.Fitting action) s actions)
    (ran : Machine.run step s actions = some (t, trace)) : Unbroken opts t := by
  refine Machine.run_along (motive := fun _ m => Unbroken opts m) ?_ ?_ meets ran
  · rintro _ m action next ⟨⟩ kept ⟨echoed, fitting⟩ stepped
    exact kept.step some_ echoed fitting stepped
  · refine setupConns_induct ?_ ⟨rfl, rfl, rfl, fun i => ?_⟩ setUp
    · intro s t i outcome added unbroken fresh done
      exact unbroken.setupConn repeats fresh done
    · exact ⟨fun opened => absurd opened Bool.false_ne_true, Nat.le_refl 0, List.nil_suffix⟩

/-- A chunk is compared with the right octets, and with no others, exactly when
it ends no later than the second copy of the payload that it reaches or differs
from the first one.  So in the echo mode a server that returns what it was sent
fails no connection by the content, as long as all chunks end in time. -/
theorem exact_iff_and_clean_of_run {opts : Options} (some_ : opts.echoPayload ≠ []) :
    (∀ (base : Nat) (buf : Bytes), buf ≠ [] →
      (Turn.Exact opts base buf ↔
        Turn.Fits opts base buf.length ∨ Turn.Differs opts base buf)) ∧
    ∀ (n : Nat) (expectStatus : List Int) (clock : Nat → UInt64)
      (outcomes : Fin n → Outcome × Bool) (s t : Load n) (actions : List (Action n))
      (trace : List (Action n × Unit)),
      setupConns (Client.initial false expectStatus clock opts.echo) outcomes = some s →
      Machine.Along step (fun s action => s.Echoed action ∧ s.Fitting action) s actions →
      Machine.run step s actions = some (t, trace) →
      t.client.errHist (lit "回显内容不对") = 0 := by
  refine ⟨fun _ _ data => Turn.exact_iff some_ data, ?_⟩
  intro n expectStatus clock outcomes s t actions trace setUp meets ran
  have echoes : opts.echo.echoPayload ≠ [] := some_
  exact (unbroken_of_run echoes (fun _ => rfl) setUp meets ran).clean

/-- Three requests of one octet each are sent at once. -/
def threeAtOnce : Options where
  requests := 3
  pipeline := 3
  size := 1
  some_octet := Nat.one_pos
  verify := true
  durationMode := false
  durationNs := 0
  timeoutNs := 1000
  connectTimeoutNs := 1000
  echoPayload := [97]
  behind := fun _ => 0
  request := fun _ => [97]

/-- The echo comes back in two chunks. -/
def inTwoChunks : List (Action 1) :=
  [.maybeStart fun _ => { sends := [.octets 3] },
    .event 0 Channel.epollIn .none { recvs := [.octets [97, 97], .octets [97]] }]

/-- The echo comes back in one chunk. -/
def inOneChunk : List (Action 1) :=
  [.maybeStart fun _ => { sends := [.octets 3] },
    .event 0 Channel.epollIn .none { recvs := [.octets [97, 97, 97]] }]

theorem clean_inTwoChunks :
    Turn.Exact threeAtOnce 0 [97, 97] ∧
    ∃ (s t : Load 1) (trace : List (Action 1 × Unit)),
      setupConns (Client.initial false [] (fun _ => 0) threeAtOnce.echo)
        (fun _ => (.connected, true)) = some s ∧
      Machine.run step s inTwoChunks = some (t, trace) ∧ t.client.ok = 3 ∧
      t.client.errHist (lit "回显内容不对") = 0 := by
  have some_ : threeAtOnce.echoPayload ≠ [] := by decide
  have ends : ((setupConns (Client.initial false [] (fun _ => 0) threeAtOnce.echo)
      (fun _ : Fin 1 => (.connected, true))).any fun s =>
        (Machine.run step s inTwoChunks).any fun r =>
          decide (Machine.Along step (fun s action => s.Echoed action ∧ s.Fitting action) s
            inTwoChunks ∧ r.1.client.ok = 3)) = true := by
    decide +kernel
  obtain ⟨s, setUp, ends⟩ := (Option.any_eq_true _ _).mp ends
  obtain ⟨r, ran, ends⟩ := (Option.any_eq_true _ _).mp ends
  obtain ⟨meets, ok⟩ := of_decide_eq_true ends
  exact ⟨((exact_iff_and_clean_of_run some_).1 0 [97, 97] (by decide)).mpr (.inl (by decide)),
    s, r.1, r.2, setUp, ran, ok,
    (exact_iff_and_clean_of_run some_).2 1 [] _ _ s r.1 _ r.2 setUp meets ran⟩

/-- The third octet is compared with what stands behind the payload. -/
theorem mismatch_inOneChunk :
    ¬ Turn.Exact threeAtOnce 0 [97, 97, 97] ∧
    Turn.verifyChunk threeAtOnce 0 [97, 97, 97] = false ∧
    (∀ k < 3, ([97, 97, 97] : Bytes)[k]? = threeAtOnce.echoPayload[(0 + k) % 1]?) ∧
    ∃ (s t : Load 1) (trace : List (Action 1 × Unit)),
      setupConns (Client.initial false [] (fun _ => 0) threeAtOnce.echo)
        (fun _ => (.connected, true)) = some s ∧
      Machine.Along step Echoed s inOneChunk ∧
      Machine.run step s inOneChunk = some (t, trace) ∧
      (t.conns 0).state = .failed ∧ t.client.errHist (lit "回显内容不对") = 1 := by
  have ends : ((setupConns (Client.initial false [] (fun _ => 0) threeAtOnce.echo)
      (fun _ : Fin 1 => (.connected, true))).any fun s =>
        (Machine.run step s inOneChunk).any fun r =>
          decide (Machine.Along step Echoed s inOneChunk ∧
            (r.1.conns 0).state = .failed ∧
            r.1.client.errHist (lit "回显内容不对") = 1)) = true := by
    decide +kernel
  obtain ⟨s, setUp, ends⟩ := (Option.any_eq_true _ _).mp ends
  obtain ⟨r, ran, ends⟩ := (Option.any_eq_true _ _).mp ends
  obtain ⟨echoed, failed, counted⟩ := of_decide_eq_true ends
  refine ⟨fun exact_ => ?_, by decide, by decide, s, r.1, r.2, setUp, echoed, ran, failed, counted⟩
  exact absurd (exact_.inside 1 (by decide)) (by decide)

end Load

end Bench

end MiniNet
