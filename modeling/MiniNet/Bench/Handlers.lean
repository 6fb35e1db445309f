import MiniNet.Bench.Client

/-!
# What every handler keeps

The handlers of a connection are made of a few changes of its state.  What
each of these changes keeps, under the conditions it is made on, every handler
keeps.  Reading is not among them: what it does depends on the server.
-/

namespace MiniNet

open Bytes

namespace Bench

namespace Turn

variable {k : Turn}

/-- The state without the clock, the system calls to come, the event mask, the
time of the last progress and the octets received so far. -/
def calm (k : Turn) : Turn where
  client := { k.client with
    toBench := { k.client.toBench with clockReads := 0 }
    totalBytesIn := 0 }
  conn := { k.conn with evMask := 0, lastProgress := 0 }
  os := {}

theorem moreRequests_calm (k : Turn) : k.moreRequests.2.calm = k.calm := by
  unfold moreRequests
  split <;> rfl

theorem moreRequests_conn (k : Turn) : k.moreRequests.2.conn = k.conn := by
  unfold moreRequests
  split <;> rfl

theorem issue_state (k : Turn) : k.issue.conn.state = k.conn.state := by
  unfold issue
  dsimp only
  split <;> rfl

theorem open_of_alive (alive : k.alive = true) (attempted : k.conn.state ≠ .connecting) :
    k.conn.state = .waiting ∨ k.conn.state = .ready := by
  unfold Turn.alive at alive
  cases state : k.conn.state with
  | connecting => exact absurd state attempted
  | waiting => exact .inl rfl
  | ready => exact .inr rfl
  | done | failed => simp [state] at alive

end Turn

/-- The changes that the handlers are made of keep the property. -/
structure Upheld (P : Turn → Prop) : Prop where
  calm : ∀ {k k' : Turn}, P k → k'.calm = k.calm → P k'
  /-- For any reason but the content of an echo. -/
  fail : ∀ {k : Turn} {category : Bytes}, P k → lit "回显内容不对" ≠ category →
    P (k.failConn category)
  close : ∀ {k : Turn}, P k → k.conn.state = .waiting ∨ k.conn.state = .ready →
    k.moreRequests.1 = false → ¬ 0 < k.conn.inflight → P (k.closeConn true)
  issue : ∀ {k : Turn}, P k → k.conn.state = .ready →
    k.conn.inflight < k.client.opts.pipeline → k.moreRequests.1 = true →
    P k.moreRequests.2.issue
  sent : ∀ {k : Turn} {n : Nat}, P k → k.conn.state = .ready →
    n ≤ k.conn.out.length - k.conn.outOff → P (k.sentOctets n)
  clear : ∀ {k : Turn}, P k → k.conn.out.length ≤ k.conn.outOff →
    P { k with conn := { k.conn with out := [], outOff := 0 } }
  connect : ∀ {k : Turn}, P k → k.conn.state = .connecting →
    P { k with
      client := { k.client with connectingCount := k.client.connectingCount - 1 }
      conn := { k.conn with state := if k.client.started then .ready else .waiting } }

namespace Upheld

variable {P : Turn → Prop} {k : Turn}

theorem withOs (upheld : Upheld P) (holds : P k) (os : Os) : P { k with os } :=
  upheld.calm holds rfl

theorem moreRequests (upheld : Upheld P) (holds : P k) : P k.moreRequests.2 :=
  upheld.calm holds k.moreRequests_calm

theorem updateEvents (upheld : Upheld P) (holds : P k) : P k.updateEvents := by
  unfold Turn.updateEvents
  split
  · exact holds
  · dsimp only
    split
    · exact upheld.calm holds rfl
    · exact upheld.fail (upheld.withOs holds _) (by decide)

/-! ## Sending -/

theorem refillLoop (upheld : Upheld P) (holds : P k) (ready : k.conn.state = .ready)
    (room : Nat) : P (k.refillLoop room) := by
  induction room generalizing k with
  | zero => exact holds
  | succ room ih =>
      rw [Turn.refillLoop]
      split
      · rename_i free
        dsimp only
        split
        · rename_i more
          refine ih (upheld.issue holds ready free more) ?_
          rw [Turn.issue_state, Turn.moreRequests_conn]
          exact ready
        · exact upheld.moreRequests holds
      · exact holds

theorem refill (upheld : Upheld P) (holds : P k) : P k.refill := by
  unfold Turn.refill
  split
  · rename_i ready
    exact upheld.refillLoop holds ready _
  · exact holds

/-- The end of `flushOut`, when nothing is left to send. -/
theorem flushed (upheld : Upheld P) (holds : P k)
    (all : ¬ k.conn.outOff < k.conn.out.length) (os : Os) :
    P (Turn.updateEvents { k with conn := { k.conn with out := [], outOff := 0 }, os }) :=
  upheld.updateEvents (upheld.withOs (upheld.clear holds (Nat.not_lt.mp all)) os)

theorem flushLoop (upheld : Upheld P) (holds : P k) (ready : k.conn.state = .ready)
    (sends : List Sent) : P (Turn.flushLoop sends k).2 := by
  induction sends generalizing k with
  | nil =>
      unfold Turn.flushLoop
      dsimp only
      split
      · exact upheld.updateEvents (upheld.withOs holds _)
      · rename_i all
        exact upheld.flushed holds all _
  | cons result rest ih =>
      unfold Turn.flushLoop
      dsimp only
      split
      · cases result with
        | octets n =>
            dsimp only
            split
            · exact ih (upheld.sent holds ready (Nat.min_le_right _ _)) ready
            · exact upheld.fail (upheld.withOs holds _) (by decide)
        | eintr => exact ih holds ready
        | eagain => exact upheld.updateEvents (upheld.withOs holds _)
        | error => exact upheld.fail (upheld.withOs holds _) (by decide)
      · rename_i all
        exact upheld.flushed holds all _

theorem pumpLoop (upheld : Upheld P) (holds : P k) (budget : Nat) :
    P (k.pumpLoop budget) := by
  induction budget generalizing k with
  | zero => exact holds
  | succ budget ih =>
      rw [Turn.pumpLoop]
      split
      · rename_i ready
        have flushed : P k.flushOut.2 := upheld.flushLoop holds ready _
        dsimp only
        split
        · split
          · exact upheld.refill flushed
          · exact ih (upheld.refill flushed)
        · exact flushed
      · exact holds

theorem pump (upheld : Upheld P) (holds : P k) : P k.pump := upheld.pumpLoop holds _

/-! ## Events -/

theorem closeConn (upheld : Upheld P) (holds : P k)
    (open_ : k.conn.state = .waiting ∨ k.conn.state = .ready)
    (last : ¬ k.moreRequests.1 = true) (none : ¬ 0 < k.conn.inflight) :
    P (k.moreRequests.2.closeConn true) := by
  refine upheld.calm (upheld.close holds open_ (Bool.eq_false_iff.mpr last) none) ?_
  unfold Turn.moreRequests
  split <;> rfl

theorem endOfStream (upheld : Upheld P) (holds : P k)
    (open_ : k.conn.state = .waiting ∨ k.conn.state = .ready) : P k.endOfStream := by
  unfold Turn.endOfStream
  split
  · exact upheld.fail holds (by decide)
  · rename_i none
    dsimp only
    split
    · exact upheld.fail (upheld.moreRequests holds) (by decide)
    · rename_i last
      exact upheld.closeConn holds open_ last none

theorem maybeFinish (upheld : Upheld P) (holds : P k) : P k.maybeFinish := by
  unfold Turn.maybeFinish
  split
  · rename_i ready
    dsimp only
    split
    · exact upheld.moreRequests holds
    · rename_i last
      split
      · exact upheld.moreRequests holds
      · rename_i none
        split
        · exact upheld.moreRequests holds
        · exact upheld.closeConn holds (.inr ready) last none
  · exact holds

theorem onConnect (upheld : Upheld P) (holds : P k) (attempt : k.conn.state = .connecting)
    (soError : SoError) : P (k.onConnect soError) := by
  unfold Turn.onConnect
  split
  · exact upheld.fail holds (by decide)
  · exact upheld.fail holds (by decide)
  · exact upheld.fail holds (by decide)
  · exact upheld.fail holds (by decide)
  · have connected := upheld.connect holds attempt
    dsimp only
    refine upheld.updateEvents ?_
    split
    · rename_i started
      rw [if_pos (by exact started)] at connected
      exact upheld.pump (upheld.calm connected rfl)
    · rename_i notStarted
      rw [if_neg (by exact notStarted)] at connected
      exact upheld.calm connected rfl

theorem afterRead (upheld : Upheld P) (holds : P k) : P k.afterRead := by
  unfold Turn.afterRead
  split
  · dsimp only
    split
    · exact upheld.maybeFinish (upheld.pump holds)
    · exact upheld.pump holds
  · exact holds

/-- An event, if reading keeps the property as well. -/
theorem onEvent (upheld : Upheld P) (holds : P k) (events : UInt32) (soError : SoError)
    (read : k.alive = true → k.conn.state ≠ .connecting →
      events &&& (Channel.epollIn ||| Channel.epollHup ||| Channel.epollErr) ≠ 0 →
      P k.doRead.2) : P (k.onEvent events soError) := by
  unfold Turn.onEvent
  split
  · rename_i alive
    split
    · rename_i attempt
      exact upheld.onConnect holds attempt soError
    · rename_i attempted
      split
      · rename_i readable
        dsimp only
        split
        · exact upheld.afterRead (read alive attempted readable)
        · exact read alive attempted readable
      · exact upheld.afterRead holds
  · exact holds

theorem checkTimeout (upheld : Upheld P) (holds : P k) (now : UInt64) :
    P (k.checkTimeout now) := by
  unfold Turn.checkTimeout
  split
  · exact holds
  · dsimp only
    split
    · split
      · exact holds
      · exact upheld.fail holds (by decide)
    · split
      · exact holds
      · exact upheld.fail holds (by decide)

end Upheld

/-! ## The set-up -/

namespace Load

variable {n : Nat}

theorem setupConn_others {s t : Load n} {i j : Fin n} {outcome : Outcome} {added : Bool}
    (done : s.setupConn i outcome added = some t) (other : j ≠ i) :
    t.conns j = s.conns j := by
  cases outcome with
  | noSocket | refused =>
      simp only [Load.setupConn] at done
      split at done
      · cases done
      · cases done
        exact Function.update_of_ne other _ _
  | connected | inProgress =>
      simp only [Load.setupConn] at done
      split at done
      · cases done
        exact Function.update_of_ne other _ _
      · cases done

/-- What holds before the set-up and is kept when a new connection is set up
holds after it. -/
theorem setupConns_induct {motive : Load n → Prop} {client : Client}
    {outcomes : Fin n → Outcome × Bool} {t : Load n}
    (next : ∀ s t i outcome added, motive s → s.conns i = {} →
      s.setupConn i outcome added = some t → motive t)
    (start : motive { client, conns := fun _ => {} })
    (done : setupConns client outcomes = some t) : motive t := by
  suffices goes : ∀ (todo : List (Fin n)) (s : Load n), todo.Nodup → motive s →
      (∀ i ∈ todo, s.conns i = {}) →
      todo.foldlM (fun s i => s.setupConn i (outcomes i).1 (outcomes i).2) s = some t →
      motive t from
    goes _ _ (List.nodup_finRange n) start (fun _ _ => rfl) done
  intro todo
  induction todo with
  | nil =>
      rintro s _ holds _ ⟨⟩
      exact holds
  | cons i todo ih =>
      intro s distinct holds fresh done
      obtain ⟨absent, distinct⟩ := List.nodup_cons.mp distinct
      rw [List.foldlM_cons] at done
      obtain ⟨m, first, later⟩ := Option.bind_eq_some_iff.mp done
      refine ih m distinct (next _ _ _ _ _ holds (fresh i List.mem_cons_self) first) ?_ later
      intro j member
      rw [setupConn_others first fun same => absent (same ▸ member)]
      exact fresh j (List.mem_cons_of_mem _ member)

end Load

end Bench

end MiniNet
