import MiniNet.TcpServer.Idle

/-!
# The idle sweep along a run

As long as nothing happens to a connection between the sweep that finds it and
the close on its own loop, it is closed because it is idle, and counted once.
Otherwise the sweep may close a connection that has just been active, or count
one connection twice.
-/

namespace MiniNet

open Bytes Threads

namespace TcpServer

variable {ι : Type} [DecidableEq ι] [Fintype ι] {cfg : Config ι} {t : ι} {now : Int}
  {f : Frame ι} {input : Input ι} {effect : Effect ι}

namespace Sweeping

/-- A connection is added to the table once; an idle close under way is the only
one of its connection, which is in the table and has been idle for long enough;
and `closed_idle_` counts the idle closes that are done or under way. -/
structure Tidy (cfg : Config ι) (s : Sweeping ι) : Prop where
  keys : ∀ fd conn, s.server.shared.conns.lookup fd = some conn → conn.fd = fd
  once : ∀ conn, weight (Frame.adds conn) (Task.adds conn) s.server.pool +
    s.server.shared.entries conn + (s.idleClosed.map Prod.fst).count conn ≤
      if conn.id < s.server.shared.nextConnId then 1 else 0
  single : ∀ conn, underWay conn s.server.pool ≤ 1
  held : ∀ conn, underWay conn s.server.pool ≠ 0 →
    s.server.shared.conns.lookup conn.fd = some conn ∧
      cfg.idleTimeoutS * 1000 ≤ s.clock - (s.server.shared.state conn).lastActiveMs
  total : s.server.shared.closedIdle =
    s.idleClosed.length + weight Frame.counted Task.counted s.server.pool
  waited : ∀ x ∈ s.idleClosed, cfg.idleTimeoutS * 1000 ≤ x.2

namespace Tidy

variable {s : Sweeping ι} {rest : Pool ι (Frame ι) (Task ι)}

theorem keys_exec (tidy : Tidy cfg s) (done : exec cfg s.server t now f input = some effect)
    (fd : Nat) (conn : Conn ι) (found : effect.shared.conns.lookup fd = some conn) :
    conn.fd = fd := by
  rcases lookup_exec done found with stored | ⟨-, key⟩
  · exact tidy.keys fd conn stored
  · exact key

/-- The entry of a connection whose idle close is under way stays. -/
theorem stored_exec (tidy : Tidy cfg s) (undisturbed : UndisturbedBy cfg s.server now input f)
    (done : exec cfg s.server t now f input = some effect)
    (notClose : ∀ other, f ≠ .closeConnInLoop other .idle) {conn : Conn ι}
    (pending : underWay conn s.server.pool ≠ 0) :
    effect.shared.conns.lookup conn.fd = some conn := by
  have stored := (tidy.held conn pending).1
  rcases conns_exec done with same | ⟨other, rfl, inserted⟩ |
      ⟨other, reason, entry, rfl, _, erased⟩
  · rw [same]
    exact stored
  · have otherFd : conn.fd ≠ other.fd := by
      intro sameFd
      rw [sameFd] at stored
      exact pending (undisturbed conn stored)
    rw [inserted, AList.lookup_insert_ne otherFd]
    exact stored
  · have active : reason ≠ .idle :=
      fun idle => notClose other (congrArg (Frame.closeConnInLoop other) idle)
    have otherFd : conn.fd ≠ other.fd := by
      intro sameFd
      rw [sameFd] at stored
      exact pending (undisturbed active conn stored)
    rw [erased, AList.lookup_erase_ne otherFd]
    exact stored

/-- A connection whose idle close is under way sees no activity. -/
theorem lastActive_kept (tidy : Tidy cfg s) (popped : pop t s.server.pool = some (f, rest))
    (undisturbed : UndisturbedBy cfg s.server now input f)
    (done : exec cfg s.server t now f input = some effect) {conn : Conn ι}
    (pending : underWay conn s.server.pool ≠ 0) :
    (effect.shared.state conn).lastActiveMs =
      (s.server.shared.state conn).lastActiveMs := by
  rcases lastActive_exec done conn with kept | rfl | ⟨data, rfl⟩ | ⟨rfl, bytes, rfl⟩
  · exact kept
  · have once := tidy.once conn
    have stored : s.server.shared.entries conn = 1 := if_pos (tidy.held conn pending).1
    rw [weight_pop popped, Frame.adds, same_self, stored] at once
    split at once <;> omega
  · exact absurd undisturbed pending
  · exact absurd (undisturbed rfl) pending

theorem once_accepted (tidy : Tidy cfg s) {fd : Nat} {loop : ι}
    (popped : pop t s.server.pool = some (.accept, rest))
    (done : exec cfg s.server t now .accept (.accepted fd loop) = some effect)
    (conn : Conn ι) :
    weight (Frame.adds conn) (Task.adds conn) (TcpServer.apply t rest effect).pool +
      effect.shared.entries conn + (s.idleClosed.map Prod.fst).count conn ≤
        if conn.id < effect.shared.nextConnId then 1 else 0 := by
  have once := tidy.once conn
  have changed := @weight_step _ _ _ s.server t _ effect (Frame.adds conn) (Task.adds conn)
    rest popped
  rw [exec] at done
  split at done
  · cases done
    change _ + 0 = _ + (same conn _ + (0 + 0) + 0) at changed
    change _ + s.server.shared.entries conn + _ ≤
      if conn.id < s.server.shared.nextConnId + 1 then 1 else 0
    by_cases new : conn = { fd, id := s.server.shared.nextConnId, ownerLoop := loop }
    · have id : conn.id = s.server.shared.nextConnId := congrArg Conn.id new
      rw [same, if_pos new.symm] at changed
      rw [if_neg (by omega)] at once
      rw [if_pos (by omega)]
      omega
    · rw [same_of_ne new] at changed
      have more : (if conn.id < s.server.shared.nextConnId then 1 else 0) ≤
          if conn.id < s.server.shared.nextConnId + 1 then 1 else 0 := by
        split <;> split <;> omega
      omega
  · cases done

/-- Nothing but `insert` brings a connection into the table. -/
theorem entries_exec (done : exec cfg s.server t now f input = some effect) {conn : Conn ι}
    (notInsert : f ≠ .insert conn) :
    effect.shared.entries conn ≤ s.server.shared.entries conn := by
  unfold Shared.entries
  split
  · rename_i found
    rcases lookup_exec done found with stored | ⟨inserts, -⟩
    · rw [if_pos stored]
    · exact absurd inserts notInsert
  · exact Nat.zero_le _

theorem once_exec (tidy : Tidy cfg s) (popped : pop t s.server.pool = some (f, rest))
    (done : exec cfg s.server t now f input = some effect) (conn : Conn ι) :
    weight (Frame.adds conn) (Task.adds conn) (TcpServer.apply t rest effect).pool +
      effect.shared.entries conn + (s.idleClosed.map Prod.fst).count conn ≤
        if conn.id < effect.shared.nextConnId then 1 else 0 := by
  rcases nextConnId_exec done with same | ⟨fd, loop, rfl, rfl⟩
  · have once := tidy.once conn
    have changed := @weight_step _ _ _ s.server t f effect (Frame.adds conn) (Task.adds conn)
      rest popped
    rw [same]
    by_cases insert : f = .insert conn
    · subst insert
      have atMost : effect.shared.entries conn ≤ 1 := by
        unfold Shared.entries
        split <;> omega
      cases input with
      | none =>
          cases done
          rw [Frame.adds, same_self] at changed
          change _ + 1 = _ + (0 + 0 + 0) at changed
          omega
      | _ => cases done
    · have fewer := entries_exec done insert
      have carried := adds_exec done conn (fun accepts fd loop accepted => ?_) insert
      · omega
      · subst accepts accepted
        rw [exec] at done
        split at done <;> cases done
        exact absurd same (Nat.succ_ne_self _)
  · exact tidy.once_accepted popped done conn

/-- A step between the sweep and the close. -/
theorem other (tidy : Tidy cfg s) (popped : pop t s.server.pool = some (f, rest))
    (later : s.clock ≤ now) (undisturbed : UndisturbedBy cfg s.server now input f)
    (done : exec cfg s.server t now f input = some effect) (notSweep : f ≠ .sweepIdle)
    (notClose : ∀ conn, f ≠ .closeConnInLoop conn .idle) :
    Tidy cfg { s with server := TcpServer.apply t rest effect, clock := now } := by
  have same := fun conn => underWay_step popped done conn notSweep notClose
  refine ⟨?_, ?_, ?_, ?_, ?_, tidy.waited⟩
  · rw [shared_apply]
    exact tidy.keys_exec done
  · intro conn
    rw [shared_apply]
    exact tidy.once_exec popped done conn
  · intro conn
    rw [same]
    exact tidy.single conn
  · intro conn pending
    rw [same] at pending
    rw [shared_apply]
    refine ⟨tidy.stored_exec undisturbed done notClose pending, ?_⟩
    have waited := (tidy.held conn pending).2
    rw [tidy.lastActive_kept popped undisturbed done pending]
    show _ ≤ now - _
    omega
  · have counted := counted_step popped done notClose
    have total := tidy.total
    simp only [shared_apply]
    omega

theorem mem_expired (tidy : Tidy cfg s) {limit : Int} {conn : Conn ι}
    (member : conn ∈ s.server.shared.expired now limit) :
    s.server.shared.conns.lookup conn.fd = some conn ∧
      limit ≤ now - (s.server.shared.state conn).lastActiveMs := by
  obtain ⟨listed, waited⟩ := List.mem_filter.mp member
  obtain ⟨⟨fd, entry⟩, stored, rfl⟩ := List.mem_map.mp listed
  have found := AList.mem_lookup_iff.mpr stored
  have key := tidy.keys fd entry found
  subst key
  exact ⟨found, of_decide_eq_true waited⟩

theorem nodup_expired (tidy : Tidy cfg s) (limit : Int) :
    (s.server.shared.expired now limit).Nodup := by
  refine List.Nodup.filter _ (List.Nodup.map_on ?_ s.server.shared.conns.nodupKeys.nodup)
  rintro ⟨fd, conn⟩ stored ⟨otherFd, other⟩ storedToo same
  have key := tidy.keys fd conn (AList.mem_lookup_iff.mpr stored)
  have keyToo := tidy.keys otherFd other (AList.mem_lookup_iff.mpr storedToo)
  cases same
  rw [← key, ← keyToo]

/-- The sweep puts the expired connections on the stack, if any, which nobody else
has found. -/
theorem sweepIdle_exec (tidy : Tidy cfg s)
    (popped : pop t s.server.pool = some (.sweepIdle, rest))
    (undisturbed : UndisturbedBy cfg s.server now input .sweepIdle)
    (done : exec cfg s.server t now .sweepIdle input = some effect) :
    effect.shared = s.server.shared ∧ ∃ expired : List (Conn ι),
      (∀ conn, underWay conn (TcpServer.apply t rest effect).pool =
        underWay conn s.server.pool + expired.count conn) ∧ expired.Nodup ∧
      ∀ conn ∈ expired, underWay conn s.server.pool = 0 ∧
        s.server.shared.conns.lookup conn.fd = some conn ∧
        cfg.idleTimeoutS * 1000 ≤ now - (s.server.shared.state conn).lastActiveMs := by
  have changed := fun conn => @weight_step _ _ _ s.server t _ effect (Frame.idles conn)
    (Task.idles conn) rest popped
  cases input with
  | none =>
      rw [exec] at done
      split at done
      · cases done
        exact ⟨rfl, [], changed, List.nodup_nil, fun conn member => (by cases member)⟩
      · rename_i enabled
        cases done
        refine ⟨rfl, _, changed, tidy.nodup_expired (cfg.idleTimeoutS * 1000),
          fun conn member => ⟨?_, tidy.mem_expired member⟩⟩
        exact undisturbed (Int.not_le.mp enabled) conn member
  | _ => cases done

theorem swept (tidy : Tidy cfg s) (popped : pop t s.server.pool = some (.sweepIdle, rest))
    (later : s.clock ≤ now)
    (undisturbed : UndisturbedBy cfg s.server now input .sweepIdle)
    (done : exec cfg s.server t now .sweepIdle input = some effect) :
    Tidy cfg { s with server := TcpServer.apply t rest effect, clock := now } := by
  have total := tidy.total
  have counted := counted_step popped done fun conn same => (by cases same)
  obtain ⟨same, expired, more, distinct, fresh⟩ :=
    tidy.sweepIdle_exec popped undisturbed done
  refine ⟨?_, ?_, ?_, ?_, ?_, tidy.waited⟩
  · rw [shared_apply]
    exact tidy.keys_exec done
  · intro conn
    rw [shared_apply]
    exact tidy.once_exec popped done conn
  · intro conn
    rw [more]
    have single := tidy.single conn
    have atMost := List.nodup_iff_count_le_one.mp distinct conn
    by_cases member : conn ∈ expired
    · have none := (fresh conn member).1
      omega
    · rw [List.count_eq_zero_of_not_mem member]
      exact single
  · intro conn pending
    rw [more] at pending
    rw [shared_apply, same]
    by_cases member : conn ∈ expired
    · exact (fresh conn member).2
    · rw [List.count_eq_zero_of_not_mem member, Nat.add_zero] at pending
      obtain ⟨stored, waited⟩ := tidy.held conn pending
      refine ⟨stored, ?_⟩
      show _ ≤ now - _
      omega
  · simp only [shared_apply]
    omega

theorem closeConnInLoop_exec {s : State ι} {conn : Conn ι} {reason : Reason}
    (stored : s.shared.conns.lookup conn.fd = some conn)
    (done : exec cfg s t now (.closeConnInLoop conn reason) input = some effect) :
    effect.shared = { s.shared with conns := s.shared.conns.erase conn.fd } ∧
      effect.next = [.disableAll conn] ∧ effect.queued = none := by
  cases input with
  | none =>
      simp only [exec, stored] at done
      cases done
      exact ⟨rfl, rfl, rfl⟩
  | _ => cases done

section

variable {conn : Conn ι}

/-- A close takes its own weight off the stack. -/
theorem weight_closeConnInLoop {w : Frame ι → Nat} {v : Task ι → Nat} {reason : Reason}
    (popped : pop t s.server.pool = some (.closeConnInLoop conn reason, rest))
    (stored : s.server.shared.conns.lookup conn.fd = some conn)
    (done : exec cfg s.server t now (.closeConnInLoop conn reason) input = some effect)
    (zero : w (.disableAll conn) = 0) :
    weight w v (TcpServer.apply t rest effect).pool + w (.closeConnInLoop conn reason) =
      weight w v s.server.pool := by
  obtain ⟨-, next, queued⟩ := closeConnInLoop_exec stored done
  have changed := @weight_step _ _ _ s.server t _ effect w v rest popped
  rw [next, queued, List.map_singleton, List.sum_singleton, zero] at changed
  exact changed

/-- The connection that is closed leaves the table and joins the closed ones. -/
theorem once_closed (tidy : Tidy cfg s) {reason : Reason} {waited : Int}
    (popped : pop t s.server.pool = some (.closeConnInLoop conn reason, rest))
    (stored : s.server.shared.conns.lookup conn.fd = some conn)
    (done : exec cfg s.server t now (.closeConnInLoop conn reason) input = some effect)
    (c : Conn ι) :
    weight (Frame.adds c) (Task.adds c) (TcpServer.apply t rest effect).pool +
      effect.shared.entries c + ((s.idleClosed ++ [(conn, waited)]).map Prod.fst).count c ≤
        if c.id < effect.shared.nextConnId then 1 else 0 := by
  have before := tidy.once_exec popped done c
  rw [List.map_append, List.count_append]
  by_cases equal : c = conn
  · subst equal
    obtain ⟨shared, -, -⟩ := closeConnInLoop_exec stored done
    have added := weight_closeConnInLoop (w := Frame.adds c) (v := Task.adds c)
      popped stored done rfl
    change _ + 0 = _ at added
    have once := tidy.once c
    have one : s.server.shared.entries c = 1 := if_pos stored
    have none : effect.shared.entries c = 0 := by
      refine if_neg fun found => ?_
      rw [shared, AList.lookup_erase] at found
      cases found
    have sameId : effect.shared.nextConnId = s.server.shared.nextConnId := by rw [shared]
    have last : ([(c, waited)].map Prod.fst).count c = 1 := List.count_singleton_self
    rw [sameId]
    omega
  · have last : ([(conn, waited)].map Prod.fst).count c = 0 :=
      List.count_eq_zero_of_not_mem fun member => equal (List.mem_singleton.mp member)
    omega

omit [DecidableEq ι] [Fintype ι] in
/-- Two connections in the table have different descriptors. -/
theorem fd_ne {c : Conn ι} (stored : s.server.shared.conns.lookup conn.fd = some conn)
    (storedToo : s.server.shared.conns.lookup c.fd = some c) (different : c ≠ conn) :
    c.fd ≠ conn.fd := by
  intro sameFd
  rw [sameFd, stored] at storedToo
  exact different (Option.some.inj storedToo).symm

/-- An idle close is carried out. -/
theorem closed (tidy : Tidy cfg s)
    (popped : pop t s.server.pool = some (.closeConnInLoop conn .idle, rest))
    (later : s.clock ≤ now)
    (done : exec cfg s.server t now (.closeConnInLoop conn .idle) input = some effect) :
    Tidy cfg {
      server := TcpServer.apply t rest effect
      clock := now
      idleClosed := s.idleClosed ++
        [(conn, now - (s.server.shared.state conn).lastActiveMs)] } := by
  have pending : underWay conn s.server.pool ≠ 0 := by
    rw [underWay, weight_pop popped, Frame.idles, if_pos rfl, same_self]
    omega
  obtain ⟨stored, waited⟩ := tidy.held conn pending
  obtain ⟨shared, -, -⟩ := closeConnInLoop_exec stored done
  have gone (c : Conn ι) : underWay c (TcpServer.apply t rest effect).pool + same c conn =
      underWay c s.server.pool := weight_closeConnInLoop popped stored done rfl
  refine ⟨?_, fun c => ?_, fun c => ?_, fun c still => ?_, ?_, ?_⟩
  · rw [shared_apply]
    exact tidy.keys_exec done
  · rw [shared_apply]
    exact tidy.once_closed popped stored done c
  · have single := tidy.single c
    have less := gone c
    show underWay c (TcpServer.apply t rest effect).pool ≤ 1
    omega
  · change underWay c (TcpServer.apply t rest effect).pool ≠ 0 at still
    have less := gone c
    have single := tidy.single c
    have different : c ≠ conn := by
      intro equal
      subst equal
      rw [same_self] at less
      omega
    obtain ⟨storedToo, waitedToo⟩ := tidy.held c (by omega)
    rw [shared_apply, shared]
    refine ⟨(AList.lookup_erase_ne (fd_ne stored storedToo different)).trans storedToo, ?_⟩
    show _ ≤ now - (s.server.shared.state c).lastActiveMs
    omega
  · have total := tidy.total
    have counted := weight_closeConnInLoop (w := Frame.counted) (v := Task.counted)
      popped stored done rfl
    have sameCount : effect.shared.closedIdle = s.server.shared.closedIdle := by rw [shared]
    change _ + 1 = _ at counted
    simp only [shared_apply, List.length_append, List.length_singleton, sameCount]
    omega
  · refine List.forall_mem_append.mpr ⟨tidy.waited, List.forall_mem_singleton.mpr ?_⟩
    show _ ≤ now - _
    omega

end

theorem run (tidy : Tidy cfg s) {m : State ι} {events : List (Event ι)}
    (later : s.clock ≤ now) (undisturbed : Undisturbed cfg s (.run t now input))
    (stepped : TcpServer.step cfg s.server (.run t now input) = some (m, events)) :
    Tidy cfg {
      server := m
      clock := now
      idleClosed := s.idleClosed ++ closesIdle s.server (.run t now input) } := by
  obtain ⟨⟨f, rest⟩, popped, continued⟩ := Option.bind_eq_some_iff.mp stepped
  obtain ⟨effect, done, result⟩ := Option.map_eq_some_iff.mp continued
  cases result
  have head := head_of_pop popped
  have spared := undisturbed f head
  by_cases close : ∃ conn, f = .closeConnInLoop conn .idle
  · obtain ⟨conn, rfl⟩ := close
    have pending : underWay conn s.server.pool ≠ 0 := by
      rw [underWay, weight_pop popped, Frame.idles, if_pos rfl, same_self]
      omega
    have closes : closesIdle s.server (.run t now input) =
        [(conn, now - (s.server.shared.state conn).lastActiveMs)] := by
      have stored := (tidy.held conn pending).1
      simp only [closesIdle, Option.mem_def.mp head, stored, Option.isSome_some, if_true]
    rw [closes]
    exact tidy.closed popped later done
  · rw [not_exists] at close
    have closes : closesIdle s.server (.run t now input) = [] := by
      simp only [closesIdle, Option.mem_def.mp head]
      split
      · rename_i conn same
        exact absurd (Option.some.inj same) (close conn)
      · rfl
    rw [closes, List.append_nil]
    by_cases sweep : f = .sweepIdle
    · subst sweep
      exact tidy.swept popped later spared done
    · exact tidy.other popped later spared done sweep close

/-- Moving frames and tasks about within the pool. -/
theorem of_pool (tidy : Tidy cfg s) {pool : Pool ι (Frame ι) (Task ι)}
    (idles : ∀ conn, underWay conn pool = underWay conn s.server.pool)
    (counted : weight Frame.counted Task.counted pool =
      weight Frame.counted Task.counted s.server.pool)
    (adds : ∀ conn, weight (Frame.adds conn) (Task.adds conn) pool =
      weight (Frame.adds conn) (Task.adds conn) s.server.pool) :
    Tidy cfg { s with server := { s.server with pool } } where
  keys := tidy.keys
  once conn := by
    rw [adds]
    exact tidy.once conn
  single conn := by
    rw [idles]
    exact tidy.single conn
  held conn pending := by
    rw [idles] at pending
    exact tidy.held conn pending
  total := by
    rw [counted]
    exact tidy.total
  waited := tidy.waited

theorem begin (tidy : Tidy cfg s) {frames : List (Frame ι)} {m : State ι}
    {events : List (Event ι)} (light : ∀ f ∈ frames,
      f.counted = 0 ∧ ∀ conn, f.idles conn = 0 ∧ f.adds conn = 0)
    (started : TcpServer.begin s.server t frames = some (m, events)) :
    Tidy cfg { s with server := m } := by
  unfold TcpServer.begin at started
  split at started
  · cases started
    apply tidy.of_pool
    · exact fun conn => weight_push_of_light fun f member => ((light f member).2 conn).1
    · exact weight_push_of_light fun f member => (light f member).1
    · exact fun conn => weight_push_of_light fun f member => ((light f member).2 conn).2
  · cases started

theorem doPendingFunctor (tidy : Tidy cfg s) {task : Task ι}
    (polled : poll t s.server.pool = some (task, rest)) :
    Tidy cfg { s with server := { s.server with pool := push t [task.frame] rest } } := by
  apply tidy.of_pool
  · exact fun conn => weight_push_poll polled ((idleWeight_idles conn).running task)
  · exact weight_push_poll polled (idleWeight_counted.running task)
  · exact fun conn => weight_push_poll polled (by cases task <;> rfl)

theorem step (tidy : Tidy cfg s) {a : Action ι} {m : Sweeping ι} {events : List (Event ι)}
    (undisturbed : Undisturbed cfg s a) (stepped : Sweeping.step cfg s a = some (m, events)) :
    Tidy cfg m := by
  unfold Sweeping.step at stepped
  split at stepped
  · rename_i later
    obtain ⟨⟨server, log⟩, continued, result⟩ := Option.map_eq_some_iff.mp stepped
    cases result
    cases a with
    | run t now input => exact tidy.run later undisturbed continued
    | handleAccept | sweepIdle | app =>
        simp only [closesIdle, List.append_nil]
        refine tidy.begin ?_ continued
        exact List.forall_mem_singleton.mpr ⟨rfl, fun _ => ⟨rfl, rfl⟩⟩
    | doPendingFunctor t =>
        simp only [closesIdle, List.append_nil]
        simp only [TcpServer.step] at continued
        split at continued
        · obtain ⟨⟨task, rest⟩, polled, moved⟩ := Option.map_eq_some_iff.mp continued
          cases moved
          exact tidy.doPendingFunctor polled
        · cases continued
    | handleEvent conn revents =>
        simp only [closesIdle, List.append_nil]
        simp only [TcpServer.step] at continued
        split at continued
        · refine tidy.begin ?_ continued
          intro f member
          obtain ⟨which, -, rfl⟩ := List.mem_map.mp member
          exact ⟨rfl, fun _ => ⟨rfl, rfl⟩⟩
        · cases continued
  · cases stepped

theorem init (clock : Int) : Tidy cfg { clock := clock } := by
  have none : ∀ w v, weight w v ({} : State ι).pool = 0 := fun w v =>
    weight_eq_zero_iff.mpr all_empty
  refine ⟨fun _ _ found => (by cases found), fun conn => ?_, fun conn => ?_,
    fun conn pending => ?_, ?_, fun x member => (by cases member)⟩
  · rw [none]
    exact Nat.zero_le _
  · rw [underWay, none]
    exact Nat.zero_le _
  · exact absurd (none _ _) pending
  · rw [none]
    rfl

end Tidy

/-- In every run that leaves the connections alone whose idle close is under way,
the sweep closes only idle connections, and counts each once. -/
theorem sweptRight_of_run {start : Int} {actions : List (Action ι)} {s : Sweeping ι}
    {trace : List (Action ι × List (Event ι))}
    (undisturbed : Machine.Along (step cfg) (Undisturbed cfg) { clock := start } actions)
    (ran : Machine.run (step cfg) { clock := start } actions = some (s, trace)) :
    SweptRight cfg s := by
  have tidy : Tidy cfg s := by
    refine Machine.run_along (motive := fun _ s => Tidy cfg s) ?_ (.init start) undisturbed ran
    intro _ s a m events tidy allowed stepped
    exact tidy.step allowed stepped
  refine ⟨tidy.waited, fun none => ?_⟩
  have distinct : (s.idleClosed.map Prod.fst).Nodup := by
    refine List.nodup_iff_count_le_one.mpr fun conn => ?_
    have once := tidy.once conn
    split at once <;> omega
  have closed : weight Frame.counted Task.counted s.server.pool = 0 := by
    refine weight_eq_zero_iff.mpr fun t => ⟨fun f member => ?_, fun k member => ?_⟩
    · exact Frame.counted_eq_zero fun conn => (weight_eq_zero_iff.mp (none conn) t).1 f member
    · exact Task.counted_eq_zero fun conn => (weight_eq_zero_iff.mp (none conn) t).2 k member
  rw [tidy.total, closed, distinct.dedup, List.length_map, Nat.add_zero]

/-! ## Sweeps that are overtaken -/

def idleLoops : Config (Fin 2) := { baseLoop := 0, idleTimeoutS := 30 }

/-- A connection is accepted at time 0. -/
def idleConn : Conn (Fin 2) := { fd := 7, id := 1, ownerLoop := 1 }

def connectIdle : List (Action (Fin 2)) :=
  [.handleAccept, .run 0 0 (.accepted 7 1), .run 0 0 .none, .run 0 0 .acceptFailed,
    .doPendingFunctor 1, .run 1 0 .none, .run 1 0 .none, .run 1 0 .none, .run 1 0 .return]

/-- A sweep at this time finds it and queues the close. -/
def sweep (now : Int) : List (Action (Fin 2)) :=
  .sweepIdle :: List.replicate 5 (.run 0 now .none)

/-- The loop of the connection closes it. -/
def closeIdle (now : Int) : List (Action (Fin 2)) :=
  [.doPendingFunctor 1, .run 1 now .none, .run 1 now .none, .run 1 now .none,
    .run 1 now .return, .run 1 now .none]

theorem sweptRight_of_idleConn :
    ∃ s trace, Machine.run (step idleLoops) { clock := 0 }
        (connectIdle ++ sweep 30000 ++ closeIdle 30001) = some (s, trace) ∧
      s.idleClosed = [(idleConn, 30001)] ∧ s.server.shared.closedIdle = 1 ∧
      SweptRight idleLoops s := by
  have ends : ((Machine.run (step idleLoops) { clock := 0 }
      (connectIdle ++ sweep 30000 ++ closeIdle 30001)).any fun r =>
        decide (r.1.idleClosed = [(idleConn, 30001)] ∧
          r.1.server.shared.closedIdle = 1)) = true := by
    decide +kernel
  obtain ⟨r, ran, ends⟩ := (Option.any_eq_true _ _).mp ends
  obtain ⟨closed, counted⟩ := of_decide_eq_true ends
  have undisturbed : Machine.Along (step idleLoops) (Undisturbed idleLoops) { clock := 0 }
      (connectIdle ++ sweep 30000 ++ closeIdle 30001) := by
    decide +kernel
  exact ⟨r.1, r.2, ran, closed, counted, sweptRight_of_run undisturbed ran⟩

/-- Data comes from the connection at this time. -/
def receive (now : Int) : List (Action (Fin 2)) :=
  [.handleEvent idleConn Channel.epollIn, .run 1 now .none, .run 1 now (.data [0x61]),
    .run 1 now .none, .run 1 now .return, .run 1 now .none, .run 1 now .readAgain]

/-- The connection is closed one millisecond after it was active, and a second
sweep counts it again before it is closed. -/
theorem not_sweptRight_overtaken :
    (¬∀ s trace, Machine.run (step idleLoops) { clock := 0 }
      (connectIdle ++ sweep 30000 ++ receive 30001 ++ closeIdle 30002) = some (s, trace) →
        SweptRight idleLoops s) ∧
    ¬∀ s trace, Machine.run (step idleLoops) { clock := 0 }
      (connectIdle ++ sweep 30000 ++ sweep 31000 ++ closeIdle 31001 ++
        [.doPendingFunctor 1, .run 1 31002 .none]) = some (s, trace) →
          SweptRight idleLoops s := by
  constructor
  · intro right
    have ends : ((Machine.run (step idleLoops) { clock := 0 }
        (connectIdle ++ sweep 30000 ++ receive 30001 ++ closeIdle 30002)).any fun r =>
          decide ((idleConn, 1) ∈ r.1.idleClosed)) = true := by
      decide +kernel
    obtain ⟨r, ran, ends⟩ := (Option.any_eq_true _ _).mp ends
    exact absurd ((right r.1 r.2 ran).waited _ (of_decide_eq_true ends)) (by decide)
  · intro right
    have ends : ((Machine.run (step idleLoops) { clock := 0 }
        (connectIdle ++ sweep 30000 ++ sweep 31000 ++ closeIdle 31001 ++
          [.doPendingFunctor 1, .run 1 31002 .none])).any fun r =>
          decide ((∀ t, (r.1.server.pool t).frames = [] ∧ (r.1.server.pool t).pending = []) ∧
            r.1.idleClosed.map Prod.fst = [idleConn] ∧
            r.1.server.shared.closedIdle = 2)) = true := by
      decide +kernel
    obtain ⟨r, ran, ends⟩ := (Option.any_eq_true _ _).mp ends
    obtain ⟨empty, closed, twice⟩ := of_decide_eq_true ends
    have none (conn : Conn (Fin 2)) : underWay conn r.1.server.pool = 0 := by
      refine weight_eq_zero_iff.mpr fun t => ?_
      rw [(empty t).1, (empty t).2]
      exact ⟨fun f member => (by cases member), fun k member => (by cases member)⟩
    have counted := (right r.1 r.2 ran).counted none
    rw [closed, twice] at counted
    cases counted

end Sweeping

end TcpServer

end MiniNet
