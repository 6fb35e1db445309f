import MiniNet.Bench.Counters

/-!
# The start line

What a handler keeps for one connection holds for all of them along every
run: the counters are the numbers of connections in the states they stand
for, no connection is ready before the last attempt is over, and none waits
once the start is given.
-/

namespace MiniNet

open Bytes

namespace Bench

namespace Load

variable {n : Nat}

/-- The shares of the connections other than `i`. -/
def restOf (s : Load n) (i : Fin n) (waiting : Bool) : Rest where
  alive := ∑ j ∈ Finset.univ.erase i, (s.conns j).state.live
  connecting := ∑ j ∈ Finset.univ.erase i, (s.conns j).state.pending
  started := s.client.started
  waiting := waiting

/-- The counters are the sums of the shares; after the start the connections
in `todo` may still be waiting. -/
structure Counted (todo : List (Fin n)) (s : Load n) : Prop where
  alive : s.client.aliveCount = ∑ i, (s.conns i).state.live
  connecting : s.client.connectingCount = ∑ i, (s.conns i).state.pending
  opened : ∀ i, (s.conns i).opened = true ↔ (s.conns i).state.live = 1
  before : s.client.started = false →
    (∀ i, (s.conns i).state ≠ .ready) ∧ s.client.totalBytesOut = 0
  after : s.client.started = true → ∀ i,
    (s.conns i).state ≠ .connecting ∧ (i ∉ todo → (s.conns i).state ≠ .waiting)

namespace Counted

variable {todo todo' : List (Fin n)} {s : Load n}

theorem balanced (counted : Counted todo s) (i : Fin n) (os : Os) :
    Balanced (s.restOf i (decide (i ∈ todo)))
      { client := s.client, conn := s.conns i, os } where
  alive := by
    rw [restOf, counted.alive, Finset.sum_erase_add _ _ (Finset.mem_univ i)]
  connecting := by
    rw [restOf, counted.connecting, Finset.sum_erase_add _ _ (Finset.mem_univ i)]
  opened := counted.opened i
  started := rfl
  before := fun notStarted => ⟨(counted.before notStarted).1 i, (counted.before notStarted).2⟩
  after := fun isStarted => ⟨(counted.after isStarted i).1, fun reached =>
    (counted.after isStarted i).2 (of_decide_eq_false reached)⟩

theorem of_balanced {k : Turn} {i : Fin n} (counted : Counted todo s)
    (others : ∀ j, j ≠ i → j ∈ todo → j ∈ todo')
    (balanced : Balanced (s.restOf i (decide (i ∈ todo'))) k) :
    Counted todo' { client := k.client, conns := Function.update s.conns i k.conn } := by
  have same : k.client.started = s.client.started := balanced.started
  refine ⟨?_, ?_, ?_, ?_, ?_⟩
  · rw [balanced.alive, Family.sum_update_eq_erase_add fun _ (c : Link) => c.state.live]
    rfl
  · rw [balanced.connecting,
      Family.sum_update_eq_erase_add fun _ (c : Link) => c.state.pending]
    rfl
  · rw [Function.forall_update_iff _ fun _ (c : Link) => c.opened = true ↔ c.state.live = 1]
    exact ⟨balanced.opened, fun j _ => counted.opened j⟩
  · intro notStarted
    have early : s.client.started = false := same.symm.trans notStarted
    rw [Function.forall_update_iff _ fun _ (c : Link) => c.state ≠ .ready]
    exact ⟨⟨(balanced.before early).1, fun j _ => (counted.before early).1 j⟩,
      (balanced.before early).2⟩
  · intro isStarted
    have late : s.client.started = true := same.symm.trans isStarted
    rw [Function.forall_update_iff _ fun j (c : Link) => c.state ≠ .connecting ∧
      (j ∉ todo' → c.state ≠ .waiting)]
    constructor
    · exact ⟨(balanced.after late).1, fun reached =>
        (balanced.after late).2 (decide_eq_false reached)⟩
    · intro j other
      exact ⟨(counted.after late j).1, fun reached =>
        (counted.after late j).2 fun member => reached (others j other member)⟩

/-- A handler that keeps the shares of the others. -/
theorem onConn (counted : Counted todo s) (i : Fin n) (os : Os) {f : Turn → Turn}
    (keeps : ∀ r k, Balanced r k → Balanced r (f k)) : Counted todo (s.onConn i os f) :=
  counted.of_balanced (fun _ _ member => member) (keeps _ _ (counted.balanced i os))

theorem started_onConn (counted : Counted todo s) (i : Fin n) (os : Os) {f : Turn → Turn}
    (keeps : ∀ r k, Balanced r k → Balanced r (f k)) :
    (s.onConn i os f).client.started = s.client.started :=
  (keeps _ _ (counted.balanced i os)).started

theorem foldl_onConn (counted : Counted todo s) (conns : List (Fin n)) (os : Fin n → Os)
    {f : Turn → Turn} (keeps : ∀ r k, Balanced r k → Balanced r (f k)) :
    Counted todo (conns.foldl (fun s i => s.onConn i (os i) f) s) ∧
      (conns.foldl (fun s i => s.onConn i (os i) f) s).client.started =
        s.client.started := by
  induction conns generalizing s with
  | nil => exact ⟨counted, rfl⟩
  | cons i conns ih =>
      obtain ⟨kept, same⟩ := ih (counted.onConn i (os i) keeps)
      exact ⟨kept, same.trans (counted.started_onConn i (os i) keeps)⟩

/-- A change of the client elsewhere. -/
theorem congr {client : Client} (counted : Counted todo s)
    (alive : client.aliveCount = s.client.aliveCount)
    (connecting : client.connectingCount = s.client.connectingCount)
    (started : client.started = s.client.started)
    (sent : client.totalBytesOut = s.client.totalBytesOut) :
    Counted todo { s with client } where
  alive := alive.trans counted.alive
  connecting := connecting.trans counted.connecting
  opened := counted.opened
  before := by
    rw [started, sent]
    exact counted.before
  after := by
    rw [started]
    exact counted.after

theorem checkFinishes (counted : Counted todo s) :
    Counted todo s.checkFinishes ∧ s.checkFinishes.client.started = s.client.started :=
  counted.foldl_onConn _ _ fun _ _ => Balanced.upheld.maybeFinish

theorem checkTimeouts (counted : Counted todo s) :
    Counted todo s.checkTimeouts ∧ s.checkTimeouts.client.started = s.client.started := by
  refine foldl_onConn ?_ _ _ fun _ _ balanced =>
    Balanced.upheld.checkTimeout balanced s.nowNs.1
  exact counted.congr rfl rfl rfl rfl

/-! ## The start -/

/-- The loop over the connections at the start line. -/
theorem foldl_start (counted : Counted todo s) (distinct : todo.Nodup)
    (isStarted : s.client.started = true) (os : Fin n → Os) (t0 : UInt64) :
    Counted [] (todo.foldl (fun s i => s.onConn i (os i) (Turn.start t0)) s) := by
  induction todo generalizing s with
  | nil => exact counted
  | cons i todo ih =>
      have balanced := (counted.balanced i (os i)).start isStarted t0
      obtain ⟨absent, rest⟩ := List.nodup_cons.mp distinct
      refine ih (counted.of_balanced ?_ ?_) rest ?_
      · intro j other member
        exact (List.mem_cons.mp member).resolve_left other
      · rw [decide_eq_false absent]
        exact balanced
      · exact balanced.started.trans isStarted

theorem maybeStart (counted : Counted [] s) (os : Fin n → Os) :
    Counted [] (s.maybeStart os) := by
  unfold Load.maybeStart
  split
  · exact counted
  · split
    · exact counted
    · rename_i noneLeft
      have none : ∀ i, (s.conns i).state.pending = 0 := by
        have zero := counted.connecting.symm.trans (Nat.eq_zero_of_not_pos noneLeft)
        exact fun i => Finset.sum_eq_zero_iff.mp zero i (Finset.mem_univ i)
      refine (foldl_onConn ?_ _ (fun _ => {}) fun _ _ => Balanced.upheld.maybeFinish).1
      refine foldl_start ?_ (List.nodup_finRange n) rfl os _
      refine ⟨counted.alive, counted.connecting, counted.opened, ?_, ?_⟩
      · exact fun notStarted => absurd notStarted.symm Bool.false_ne_true
      · refine fun _ i => ⟨fun state => ?_, fun absent => absurd (List.mem_finRange i) absent⟩
        exact absurd (none i) (by
          show (s.conns i).state.pending ≠ 0
          rw [show (s.conns i).state = .connecting from state]
          exact Nat.one_ne_zero)

theorem periodicScan (counted : Counted todo s) :
    Counted todo s.periodicScan ∧ s.periodicScan.client.started = s.client.started := by
  obtain ⟨finished, same⟩ := counted.checkFinishes
  obtain ⟨kept, still⟩ := finished.checkTimeouts
  exact ⟨kept, still.trans same⟩

/-- A handler call keeps the counters right, and the start is not taken back. -/
theorem step {t : Load n} {action : Action n} (counted : Counted [] s)
    (stepped : s.step action = some (t, ())) :
    Counted [] t ∧ (s.client.started = true → t.client.started = true) := by
  cases action with
  | event i events soError os =>
      cases stepped
      have keeps (r : Rest) (k : Turn) (balanced : Balanced r k) :
          Balanced r (k.onEvent events soError) := balanced.onEvent events soError
      exact ⟨counted.onConn i os keeps, (counted.started_onConn i os keeps).trans⟩
  | maybeStart os =>
      cases stepped
      refine ⟨counted.maybeStart os, fun isStarted => ?_⟩
      rw [Load.maybeStart, if_pos isStarted]
      exact isStarted
  | periodicScan =>
      cases stepped
      obtain ⟨kept, same⟩ := counted.periodicScan
      exact ⟨kept, same.trans⟩

end Counted

/-! ## The set-up -/

/-- The counters while the connections in `todo` are still to be set up. -/
structure SettingUp (todo : List (Fin n)) (s : Load n) : Prop where
  alive : s.client.aliveCount = ∑ i, if i ∈ todo then 0 else (s.conns i).state.live
  connecting :
    s.client.connectingCount = ∑ i, if i ∈ todo then 0 else (s.conns i).state.pending
  opened : ∀ i, i ∉ todo → ((s.conns i).opened = true ↔ (s.conns i).state.live = 1)
  started : s.client.started = false
  ready : ∀ i, (s.conns i).state ≠ .ready
  sent : s.client.totalBytesOut = 0

namespace SettingUp

variable {todo : List (Fin n)} {s : Load n}

/-- One connection more is set up. -/
theorem setUp {i : Fin n} {client : Client} {c : Link} (settingUp : SettingUp (i :: todo) s)
    (absent : i ∉ todo) (alive : client.aliveCount = s.client.aliveCount + c.state.live)
    (connecting : client.connectingCount = s.client.connectingCount + c.state.pending)
    (opened : c.opened = decide (c.state.live = 1))
    (started : client.started = s.client.started) (ready : c.state ≠ .ready)
    (sent : client.totalBytesOut = s.client.totalBytesOut) :
    SettingUp todo { client, conns := Function.update s.conns i c } := by
  have shares (share : ConnState → Nat) :
      ∑ j, (if j ∈ todo then 0 else share (Function.update s.conns i c j).state) =
        (∑ j, if j ∈ i :: todo then 0 else share (s.conns j).state) + share c.state := by
    have summed := Family.sum_update_of_eq
      (f := fun j (d : Link) => if j ∈ i :: todo then 0 else share d.state)
      (g := fun j (d : Link) => if j ∈ todo then 0 else share d.state) s.conns i c ?_
    · simpa only [List.mem_cons_self, if_true, if_neg absent, add_zero] using summed
    · intro j other
      simp only [List.mem_cons, other, false_or]
  refine ⟨?_, ?_, ?_, started.trans settingUp.started, ?_, sent.trans settingUp.sent⟩
  · rw [shares, alive, settingUp.alive]
  · rw [shares, connecting, settingUp.connecting]
  · rw [Function.forall_update_iff _ fun j (d : Link) => j ∉ todo →
      (d.opened = true ↔ d.state.live = 1)]
    refine ⟨fun _ => by rw [opened, decide_eq_true_iff], fun j other reached =>
      settingUp.opened j fun member => ?_⟩
    exact reached ((List.mem_cons.mp member).resolve_left other)
  · rw [Function.forall_update_iff _ fun _ (d : Link) => d.state ≠ .ready]
    exact ⟨ready, fun j _ => settingUp.ready j⟩

theorem setupConn {i : Fin n} {t : Load n} {outcome : Outcome} {added : Bool}
    (settingUp : SettingUp (i :: todo) s) (absent : i ∉ todo)
    (done : s.setupConn i outcome added = some t) : SettingUp todo t := by
  cases outcome with
  | noSocket | refused =>
      simp only [Load.setupConn] at done
      split at done
      · cases done
      · cases done
        exact settingUp.setUp absent rfl rfl rfl rfl (fun same => (by cases same)) rfl
  | connected | inProgress =>
      simp only [Load.setupConn] at done
      split at done
      · cases done
        exact settingUp.setUp absent rfl rfl rfl rfl (fun same => (by cases same)) rfl
      · cases done

theorem foldlM_setupConn {t : Load n} {outcomes : Fin n → Outcome × Bool}
    (settingUp : SettingUp todo s) (distinct : todo.Nodup)
    (done : todo.foldlM (fun s i => s.setupConn i (outcomes i).1 (outcomes i).2) s =
      some t) : SettingUp [] t := by
  induction todo generalizing s with
  | nil =>
      cases done
      exact settingUp
  | cons i todo ih =>
      obtain ⟨absent, rest⟩ := List.nodup_cons.mp distinct
      rw [List.foldlM_cons] at done
      obtain ⟨m, first, later⟩ := Option.bind_eq_some_iff.mp done
      exact ih (settingUp.setupConn absent first) rest later

theorem counted (settingUp : SettingUp [] s) : Counted [] s where
  alive := by simpa using settingUp.alive
  connecting := by simpa using settingUp.connecting
  opened := fun i => settingUp.opened i List.not_mem_nil
  before := fun _ => ⟨settingUp.ready, settingUp.sent⟩
  after := fun isStarted => absurd isStarted (Bool.eq_false_iff.mp settingUp.started)

end SettingUp

/-- The counters are right when the set-up succeeds. -/
theorem counted_of_setupConns {httpMode : Bool} {expectStatus : List Int}
    {clock : Nat → UInt64} {opts : Options} {outcomes : Fin n → Outcome × Bool}
    {s : Load n}
    (setUp : setupConns (Client.initial httpMode expectStatus clock opts) outcomes = some s) :
    Counted [] s := by
  refine (SettingUp.foldlM_setupConn ?_ (List.nodup_finRange n) setUp).counted
  refine ⟨?_, ?_, ?_, rfl, fun _ same => (by cases same), rfl⟩
  · simp [Client.initial]
  · simp [Client.initial]
  · exact fun i absent => absurd (List.mem_finRange i) absent

/-! ## Runs -/

/-- What the counters and the start line promise. -/
structure Barrier (s : Load n) : Prop where
  alive : s.client.aliveCount = (Finset.univ.filter fun i =>
    (s.conns i).state = .connecting ∨ (s.conns i).state = .waiting ∨
      (s.conns i).state = .ready).card
  connecting : s.client.connectingCount =
    (Finset.univ.filter fun i => (s.conns i).state = .connecting).card
  quiet : (∃ i, (s.conns i).state = .connecting) →
    (∀ i, (s.conns i).state ≠ .ready) ∧ s.client.totalBytesOut = 0
  started : s.client.started = true → ∀ i,
    (s.conns i).state ≠ .connecting ∧ (s.conns i).state ≠ .waiting
  ended : ¬ s.running ↔ ∀ i, (s.conns i).state = .done ∨ (s.conns i).state = .failed

theorem Counted.barrier {s : Load n} (counted : Counted [] s) : Barrier s := by
  refine ⟨?_, ?_, ?_, ?_, ?_⟩
  · rw [counted.alive, Finset.card_filter]
    refine Finset.sum_congr rfl fun i _ => ?_
    cases (s.conns i).state <;> rfl
  · rw [counted.connecting, Finset.card_filter]
    refine Finset.sum_congr rfl fun i _ => ?_
    cases (s.conns i).state <;> rfl
  · rintro ⟨i, attempt⟩
    apply counted.before
    by_contra isStarted
    exact (counted.after (Bool.eq_true_of_not_eq_false isStarted) i).1 attempt
  · exact fun isStarted i =>
      ⟨(counted.after isStarted i).1, (counted.after isStarted i).2 List.not_mem_nil⟩
  · rw [running, Nat.not_lt, Nat.le_zero, counted.alive, Finset.sum_eq_zero_iff]
    simp only [Finset.mem_univ, forall_true_left]
    refine forall_congr' fun i => ?_
    cases (s.conns i).state <;> decide

theorem counted_of_run {s t : Load n} {actions : List (Action n)}
    {trace : List (Action n × Unit)} (counted : Counted [] s)
    (ran : Machine.run step s actions = some (t, trace)) :
    Counted [] t ∧ (s.client.started = true → t.client.started = true) := by
  refine Machine.run_induct (motive := fun _ m => Counted [] m ∧
    (s.client.started = true → m.client.started = true)) ?_ ⟨counted, id⟩ ran
  rintro _ m action next ⟨⟩ ⟨kept, later⟩ stepped
  obtain ⟨right, still⟩ := kept.step stepped
  exact ⟨right, fun isStarted => still (later isStarted)⟩

/-- In every state between the handler calls the counters are the numbers of
connections they stand for, nobody is ready and nothing has been sent while a
connection is being established, and once the start is given no connection
ever gets back behind it. -/
theorem barrier_of_run {httpMode : Bool} {expectStatus : List Int}
    {clock : Nat → UInt64} {opts : Options} {outcomes : Fin n → Outcome × Bool}
    {s t : Load n} {actions : List (Action n)} {trace : List (Action n × Unit)}
    (setUp : setupConns (Client.initial httpMode expectStatus clock opts) outcomes = some s)
    (ran : Machine.run step s actions = some (t, trace)) :
    Barrier t ∧ (t.client.started = true →
      ∀ (more : List (Action n)) (later : Load n) (rest : List (Action n × Unit)),
        Machine.run step t more = some (later, rest) → ∀ i,
          (later.conns i).state ≠ .connecting ∧ (later.conns i).state ≠ .waiting) := by
  have counted := (counted_of_run (counted_of_setupConns setUp) ran).1
  refine ⟨counted.barrier, fun isStarted more later rest continued => ?_⟩
  obtain ⟨kept, still⟩ := counted_of_run counted continued
  exact kept.barrier.started (still isStarted)

/-- One octet is sent and comes back. -/
def oneOctet : Options where
  requests := 1
  pipeline := 1
  size := 1
  some_octet := Nat.one_pos
  verify := true
  durationMode := false
  durationNs := 0
  timeoutNs := 1000
  connectTimeoutNs := 1000
  echoPayload := [120]
  behind := fun _ => 0
  request := fun _ => [120]

/-- The second connection is late, and both start when it is there. -/
theorem barrier_of_lateConnection :
    ∃ (s t : Load 2) (trace : List (Action 2 × Unit)),
      setupConns (Client.initial false [] (fun _ => 0) oneOctet)
        (fun i => if i = 0 then (.connected, true) else (.inProgress, true)) = some s ∧
      Machine.run step s [.maybeStart fun _ => {}, .event 1 Channel.epollOut .none {},
        .maybeStart fun _ => { sends := [.octets 1] },
        .event 0 Channel.epollIn .none { recvs := [.octets [120]] }] = some (t, trace) ∧
      t.client.started = true ∧ (t.conns 0).state = .done ∧ (t.conns 1).state = .ready ∧
      t.client.aliveCount = 1 ∧ t.client.totalBytesOut = 2 ∧ Barrier t := by
  have ends : ((setupConns (Client.initial false [] (fun _ => 0) oneOctet)
      (fun i : Fin 2 => if i = 0 then (.connected, true) else (.inProgress, true))).any
      fun s => (Machine.run step s [.maybeStart fun _ => {},
        .event 1 Channel.epollOut .none {}, .maybeStart fun _ => { sends := [.octets 1] },
        .event 0 Channel.epollIn .none { recvs := [.octets [120]] }]).any
        fun r => decide (r.1.client.started = true ∧ (r.1.conns 0).state = .done ∧
          (r.1.conns 1).state = .ready ∧ r.1.client.aliveCount = 1 ∧
          r.1.client.totalBytesOut = 2)) = true := by
    decide +kernel
  obtain ⟨s, setUp, ends⟩ := (Option.any_eq_true _ _).mp ends
  obtain ⟨r, ran, ends⟩ := (Option.any_eq_true _ _).mp ends
  obtain ⟨isStarted, done, ready, alive, sent⟩ := of_decide_eq_true ends
  exact ⟨s, r.1, r.2, setUp, ran, isStarted, done, ready, alive, sent,
    (barrier_of_run setUp ran).1⟩

end Load

end Bench

end MiniNet
