import MiniNet.TcpServer.Stages

/-!
# Which thread works on a connection

A connection is handled by the thread of its owner loop only.  Other threads
hold it no longer than it takes to send a task to that loop.
-/

namespace MiniNet

open Bytes Threads

namespace TcpServer

variable {ι : Type}

def Task.conn : Task ι → Conn ι
  | .addConnection conn | .appendAndFlush conn _ | .closeConnInLoop conn _ => conn

theorem Task.refs_eq (task : Task ι) : task.refs = [task.conn] := by
  cases task <;> rfl

/-- What the thread `t` may have on its stack. -/
def Frame.Placed (t : ι) : Frame ι → Prop
  | .runInLoop loop task => task.conn.ownerLoop = loop
  | .addConnection conn | .insert conn | .connected conn | .callback _ conn
  | .read conn | .message conn _ | .retrieve conn _ | .appendAndFlush conn _
  | .flushWrite conn | .closeConnInLoop conn _ | .disableAll conn
  | .disconnected conn | .close conn => conn.ownerLoop = t
  | .accept | .app | .call _ | .closeConn _ _ | .sweepIdle | .closeExpired _ => True

def Placed (pool : Pool ι (Frame ι) (Task ι)) : Prop :=
  AllAt (fun t f => f.Placed t) (fun t k => k.conn.ownerLoop = t) pool

theorem placed_init : Placed ({} : State ι).pool := by
  intro t
  constructor
  · intro f member
    cases member
  · intro k member
    cases member

theorem Task.placed_frame {task : Task ι} {t : ι} (owned : task.conn.ownerLoop = t) :
    task.frame.Placed t := by
  cases task <;> exact owned

/-! ## What a step leaves to do -/

/-- The frame `g` is left to do after a step of `f`. -/
inductive Leads (s : State ι) (t : ι) (input : Input ι) : Frame ι → Frame ι → Prop where
  | accept : Leads s t input .accept .accept
  | accepted (conn : Conn ι) :
      Leads s t input .accept (.runInLoop conn.ownerLoop (.addConnection conn))
  | inLoop (task : Task ι) : Leads s t input (.runInLoop t task) task.frame
  | addConnection (conn : Conn ι) : Leads s t input (.addConnection conn) (.insert conn)
  | insert (conn : Conn ι) : Leads s t input (.insert conn) (.connected conn)
  | connected (conn : Conn ι) : Leads s t input (.connected conn) .app
  | callback (which : Channel.Callback) (conn : Conn ι) :
      Leads s t input (.callback which conn) (callbackFrame conn which)
  | received (conn : Conn ι) (n : Nat) (open_ : s.shared.kernel conn.fd ≠ none) :
      Leads s t input (.read conn) (.message conn n)
  | interrupted (conn : Conn ι) : Leads s t input (.read conn) (.read conn)
  | readClosed (conn : Conn ι) (reason : Reason) (ended : reason ≠ .idle) :
      Leads s t input (.read conn) (.closeConnInLoop conn reason)
  | message (conn : Conn ι) (n : Nat) : Leads s t input (.message conn n) .app
  | retrieve (conn : Conn ι) (n : Nat) :
      Leads s t input (.message conn n) (.retrieve conn n)
  | readOn (conn : Conn ι) (n : Nat) : Leads s t input (.retrieve conn n) (.read conn)
  | call (api : Api) : Leads s t input .app (.call api)
  | appOn : Leads s t input .app .app
  | send (fd : Nat) (data : Bytes) (conn : Conn ι)
      (found : s.shared.conns.lookup fd = some conn) :
      Leads s t input (.call (.send fd data))
        (.runInLoop conn.ownerLoop (.appendAndFlush conn data))
  | shutdown (fd : Nat) (conn : Conn ι) (found : s.shared.conns.lookup fd = some conn) :
      Leads s t input (.call (.shutdown fd))
        (.runInLoop conn.ownerLoop (.closeConnInLoop conn .active))
  | flush (conn : Conn ι) (data : Bytes) :
      Leads s t input (.appendAndFlush conn data) (.flushWrite conn)
  | flushOn (conn : Conn ι) : Leads s t input (.flushWrite conn) (.flushWrite conn)
  | writeError (conn : Conn ι) (failed : input = .send .error) :
      Leads s t input (.flushWrite conn) (.closeConnInLoop conn .writeError)
  | closeHere (conn : Conn ι) (reason : Reason) (here : conn.ownerLoop = t) :
      Leads s t input (.closeConn conn reason) (.closeConnInLoop conn reason)
  | closeThere (conn : Conn ι) (reason : Reason) :
      Leads s t input (.closeConn conn reason)
        (.runInLoop conn.ownerLoop (.closeConnInLoop conn reason))
  | erased (conn : Conn ι) (reason : Reason)
      (found : s.shared.conns.lookup conn.fd ≠ none) :
      Leads s t input (.closeConnInLoop conn reason) (.disableAll conn)
  | disabled (conn : Conn ι) : Leads s t input (.disableAll conn) (.disconnected conn)
  | notified (conn : Conn ι) : Leads s t input (.disconnected conn) .app
  | close (conn : Conn ι) : Leads s t input (.disconnected conn) (.close conn)
  | swept (conns : List (Conn ι)) : Leads s t input .sweepIdle (.closeExpired conns)
  | expired (conn : Conn ι) (conns : List (Conn ι)) :
      Leads s t input (.closeExpired (conn :: conns)) (.closeConn conn .idle)
  | expiredOn (conn : Conn ι) (conns : List (Conn ι)) :
      Leads s t input (.closeExpired (conn :: conns)) (.closeExpired conns)

theorem Leads.placed {s : State ι} {t : ι} {input : Input ι} {f g : Frame ι}
    (led : Leads s t input f g) (placed : f.Placed t) :
    g.Placed t := by
  cases led with
  | inLoop task => exact Task.placed_frame placed
  | callback which conn => cases which <;> first | exact placed | trivial
  | accepted | send | shutdown | closeThere => rfl
  | closeHere conn reason here => exact here
  | accept | connected | message | call | appOn | notified | swept | expired | expiredOn =>
      trivial
  | _ => exact placed

variable [DecidableEq ι]

theorem allAt_apply {p : ι → Frame ι → Prop} {q : ι → Task ι → Prop} {t : ι}
    {rest : Pool ι (Frame ι) (Task ι)} {effect : Effect ι} :
    AllAt p q (apply t rest effect).pool ↔
      (∀ f ∈ effect.next, p t f) ∧ (∀ x ∈ effect.queued, q x.1 x.2) ∧ AllAt p q rest := by
  unfold TcpServer.apply
  split
  · rename_i noTask
    rw [allAt_push, noTask]
    simp
  · rename_i loop task queued
    rw [allAt_enqueue, allAt_push, queued]
    simp only [Option.mem_def, Option.some.injEq, forall_eq']
    tauto

theorem frames_apply_of_ne {pool rest : Pool ι (Frame ι) (Task ι)} {t u : ι} {f : Frame ι}
    {effect : Effect ι} (popped : pop t pool = some (f, rest)) (other : u ≠ t) :
    ((apply t rest effect).pool u).frames = (pool u).frames := by
  unfold TcpServer.apply
  split
  · exact (frames_push_of_ne other).trans (frames_pop_of_ne popped other)
  · rw [frames_enqueue]
    exact (frames_push_of_ne other).trans (frames_pop_of_ne popped other)

theorem placed_begin {s m : State ι} {t : ι} {frames : List (Frame ι)} {events : List (Event ι)}
    (placed : Placed s.pool) (own : ∀ g ∈ frames, g.Placed t)
    (started : begin s t frames = some (m, events)) : Placed m.pool := by
  unfold TcpServer.begin at started
  split at started
  · cases started
    exact allAt_push.mpr ⟨own, placed⟩
  · cases started

theorem placed_doPendingFunctor {s : State ι} {t : ι} {task : Task ι} {rest : Pool ι (Frame ι) (Task ι)}
    (placed : Placed s.pool) (polled : poll t s.pool = some (task, rest)) :
    Placed (push t [task.frame] rest) := by
  obtain ⟨here, others⟩ := (allAt_poll polled).mp placed
  exact allAt_push.mpr ⟨List.forall_mem_singleton.mpr (Task.placed_frame here), others⟩

section

variable {t : ι} {now : Int} {input : Input ι} {effect : Effect ι}

/-- What reading from a connection leads to. -/
theorem execRead_cases {shared : Shared ι} {conn : Conn ι}
    (done : execRead shared conn now input = some effect) :
    effect.queued = none ∧ (SameTables shared effect.shared ∧
      effect.shared.closedIdle = shared.closedIdle) ∧
      ∀ g ∈ effect.next, (∃ n, g = .message conn n ∧ shared.kernel conn.fd ≠ none) ∨
        g = .read conn ∨ ∃ reason, g = .closeConnInLoop conn reason ∧ reason ≠ .idle := by
  unfold execRead at done
  split at done
  · split at done
    · rename_i socket found
      split at done <;> cases done
      refine ⟨rfl, ⟨⟨rfl, rfl, rfl⟩, rfl⟩, List.forall_mem_singleton.mpr (.inl ⟨_, rfl, ?_⟩)⟩
      rw [found]
      exact Option.some_ne_none socket
    · cases done
  · split at done <;> cases done
    exact ⟨rfl, ⟨⟨rfl, rfl, rfl⟩, rfl⟩, List.forall_mem_singleton.mpr (.inr (.inr ⟨_, rfl, by decide⟩))⟩
  · split at done <;> cases done
    exact ⟨rfl, ⟨⟨rfl, rfl, rfl⟩, rfl⟩, fun g member => absurd member List.not_mem_nil⟩
  · cases done
    exact ⟨rfl, ⟨⟨rfl, rfl, rfl⟩, rfl⟩, List.forall_mem_singleton.mpr (.inr (.inl rfl))⟩
  · cases done
    exact ⟨rfl, ⟨⟨rfl, rfl, rfl⟩, rfl⟩, List.forall_mem_singleton.mpr (.inr (.inr ⟨_, rfl, by decide⟩))⟩
  · cases done

/-- What a turn of `flushWrite` leads to. -/
theorem execFlush_cases {shared : Shared ι} {conn : Conn ι} {result : Option SendResult}
    (done : execFlush shared conn result = some effect) :
    effect.queued = none ∧ (SameTables shared effect.shared ∧
      effect.shared.closedIdle = shared.closedIdle) ∧
      ∀ g ∈ effect.next, g = .flushWrite conn ∨
        (g = .closeConnInLoop conn .writeError ∧ result = some .error) := by
  obtain ⟨⟨state, flush⟩, turned, continued⟩ := Option.bind_eq_some_iff.mp done
  have frames : ∀ g ∈ flushFrames conn flush, g = .flushWrite conn ∨
      (g = .closeConnInLoop conn .writeError ∧ result = some .error) := by
    intro g member
    rcases ConnState.flushTurn_cases turned with ⟨_, _, _, rfl⟩ | ⟨_, rest⟩
    · cases member
    · rcases rest with ⟨n, _, _, _, _, rfl⟩ | ⟨_, _, rfl⟩ | ⟨_, _, rfl⟩ | ⟨failed, _, rfl⟩
      · exact .inl (List.mem_singleton.mp member)
      · cases member
      · exact .inl (List.mem_singleton.mp member)
      · exact .inr ⟨List.mem_singleton.mp member, failed⟩
  dsimp only at continued
  split at continued <;> cases continued <;> exact ⟨rfl, ⟨⟨rfl, rfl, rfl⟩, rfl⟩, frames⟩

end

variable [Fintype ι] {cfg : Config ι} {s : State ι} {t : ι} {now : Int} {f : Frame ι}
  {input : Input ι} {effect : Effect ι}

theorem leads_exec (done : exec cfg s t now f input = some effect) :
    ∀ g ∈ effect.next, Leads s t input f g := by
  have nothing : ∀ g ∈ ([] : List (Frame ι)), Leads s t input f g :=
    fun g member => absurd member List.not_mem_nil
  have flushed {conn : Conn ι} {result : Option SendResult} {x : Input ι}
      (error : result = some .error → x = .send .error)
      (done : execFlush s.shared conn result = some effect) :
      ∀ g ∈ effect.next, Leads s t x (.flushWrite conn) g := by
    obtain ⟨-, -, next⟩ := execFlush_cases done
    intro g member
    rcases next g member with rfl | ⟨rfl, failed⟩
    · exact .flushOn conn
    · exact .writeError conn (error failed)
  unfold exec at done
  split at done
  · split at done
    · cases done
      exact forall_mem_pair (.accepted { fd := _, id := _, ownerLoop := _ }) .accept
    · cases done
  · cases done
    exact List.forall_mem_singleton.mpr .accept
  · cases done
    exact nothing
  · split at done
    · rename_i same
      cases done
      subst same
      exact List.forall_mem_singleton.mpr (.inLoop _)
    · cases done
      exact nothing
  · cases done
    exact List.forall_mem_singleton.mpr (.addConnection _)
  · cases done
    exact List.forall_mem_singleton.mpr (.insert _)
  · cases done
    exact List.forall_mem_singleton.mpr (.connected _)
  · split at done <;> cases done
    · exact List.forall_mem_singleton.mpr (.callback _ _)
    · exact nothing
  · obtain ⟨-, -, next⟩ := execRead_cases done
    intro g member
    rcases next g member with ⟨n, rfl, open_⟩ | rfl | ⟨reason, rfl, ended⟩
    · exact .received _ n open_
    · exact .interrupted _
    · exact .readClosed _ reason ended
  · cases done
    exact forall_mem_pair (.message _ _) (.retrieve _ _)
  · cases done
    exact List.forall_mem_singleton.mpr (.readOn _ _)
  · cases done
    exact forall_mem_pair (.call _) .appOn
  · cases done
    exact nothing
  · split at done <;> cases done
    · exact nothing
    · rename_i found
      exact List.forall_mem_singleton.mpr (.send _ _ _ found)
  · split at done <;> cases done
    · exact nothing
    · rename_i found
      exact List.forall_mem_singleton.mpr (.shutdown _ _ found)
  · cases done
    split
    · exact nothing
    · exact List.forall_mem_singleton.mpr (.flush _ _)
  · exact flushed (fun failed => (by cases failed)) done
  · exact flushed (fun failed => congrArg Input.send (Option.some.inj failed)) done
  · split at done <;> cases done
    · rename_i here
      exact List.forall_mem_singleton.mpr (.closeHere _ _ here)
    · exact List.forall_mem_singleton.mpr (.closeThere _ _)
  · split at done <;> cases done
    · exact nothing
    · rename_i found
      refine List.forall_mem_singleton.mpr (.erased _ _ ?_)
      rw [found]
      exact Option.some_ne_none _
  · cases done
    exact List.forall_mem_singleton.mpr (.disabled _)
  · cases done
    exact forall_mem_pair (.notified _) (.close _)
  · cases done
    exact nothing
  · split at done <;> cases done
    · exact nothing
    · exact List.forall_mem_singleton.mpr (.swept _)
  · cases done
    exact nothing
  · cases done
    exact forall_mem_pair (.expired _ _) (.expiredOn _ _)
  · cases done

/-- What a frame does to the table, the descriptors, the ids, the queues and the
count of idle connections. -/
inductive Touches (s : State ι) (t : ι) : Frame ι → Input ι → Effect ι → Prop where
  | nothing {f : Frame ι} {input : Input ι} {effect : Effect ι}
      (tables : SameTables s.shared effect.shared)
      (idle : effect.shared.closedIdle = s.shared.closedIdle)
      (unqueued : effect.queued = none) (open_ : ∀ conn, f ≠ .close conn) :
      Touches s t f input effect
  | accepts {fd : Nat} {loop : ι} {effect : Effect ι}
      (conns : effect.shared.conns = s.shared.conns)
      (idle : effect.shared.closedIdle = s.shared.closedIdle)
      (unqueued : effect.queued = none) : Touches s t .accept (.accepted fd loop) effect
  | queues {loop : ι} {task : Task ι} {input : Input ι} (other : loop ≠ t) :
      Touches s t (.runInLoop loop task) input
        { shared := s.shared, queued := some (loop, task) }
  | inserts {conn : Conn ι} {input : Input ι} {next : List (Frame ι)} :
      Touches s t (.insert conn) input
        { shared := { s.shared with conns := s.shared.conns.insert conn.fd conn }, next }
  | erases {conn entry : Conn ι} {reason : Reason} {input : Input ι}
      {next : List (Frame ι)} {events : List (Event ι)}
      (found : s.shared.conns.lookup conn.fd = some entry) :
      Touches s t (.closeConnInLoop conn reason) input
        { shared := { s.shared with conns := s.shared.conns.erase conn.fd }, next, events }
  | closes {conn : Conn ι} {input : Input ι} {events : List (Event ι)} :
      Touches s t (.close conn) input
        { shared := { s.shared with kernel := Function.update s.shared.kernel conn.fd none }
          events }
  | expires {conn : Conn ι} {conns : List (Conn ι)} {input : Input ι} {count : Nat}
      {next : List (Frame ι)} :
      Touches s t (.closeExpired (conn :: conns)) input
        { shared := { s.shared with closedIdle := count }, next }

theorem touches_exec (done : exec cfg s t now f input = some effect) :
    Touches s t f input effect := by
  unfold exec at done
  split at done
  case h_1 =>
    split at done <;> cases done
    exact .accepts rfl rfl rfl
  case h_4 =>
    split at done <;> cases done
    · exact .nothing ⟨rfl, rfl, rfl⟩ rfl rfl fun _ same => (by cases same)
    · rename_i other
      exact .queues other
  case h_6 =>
    cases done
    exact .inserts
  case h_9 =>
    obtain ⟨unqueued, ⟨tables, idle⟩, _⟩ := execRead_cases done
    exact .nothing tables idle unqueued fun _ same => (by cases same)
  case h_17 =>
    obtain ⟨unqueued, ⟨tables, idle⟩, _⟩ := execFlush_cases done
    exact .nothing tables idle unqueued fun _ same => (by cases same)
  case h_18 =>
    obtain ⟨unqueued, ⟨tables, idle⟩, _⟩ := execFlush_cases done
    exact .nothing tables idle unqueued fun _ same => (by cases same)
  case h_20 =>
    split at done <;> cases done
    · exact .nothing ⟨rfl, rfl, rfl⟩ rfl rfl fun _ same => (by cases same)
    · rename_i found
      exact .erases found
  case h_23 =>
    cases done
    exact .closes
  case h_26 =>
    cases done
    exact .expires
  all_goals
    (try split at done) <;> cases done <;>
      exact .nothing ⟨rfl, rfl, rfl⟩ rfl rfl fun _ same => (by cases same)

/-- Only `runInLoop` queues a task, and for another loop. -/
theorem queued_exec (done : exec cfg s t now f input = some effect) {loop : ι}
    {task : Task ι} (queued : effect.queued = some (loop, task)) :
    f = .runInLoop loop task ∧ loop ≠ t := by
  cases touches_exec done with
  | nothing _ _ unqueued _ | accepts _ _ unqueued =>
      rw [unqueued] at queued
      cases queued
  | queues other =>
      cases queued
      exact ⟨rfl, other⟩
  | inserts | erases | closes | expires => cases queued

theorem queued_eq_none (done : exec cfg s t now f input = some effect)
    (stays : ∀ loop task, f ≠ .runInLoop loop task) : effect.queued = none := by
  cases queued : effect.queued with
  | none => rfl
  | some x => exact absurd (queued_exec done queued).1 (stays x.1 x.2)

/-- Only `insert` and `closeConnInLoop` change the table. -/
theorem conns_exec (done : exec cfg s t now f input = some effect) :
    effect.shared.conns = s.shared.conns ∨
      (∃ conn, f = .insert conn ∧
        effect.shared.conns = s.shared.conns.insert conn.fd conn) ∨
      ∃ conn reason entry, f = .closeConnInLoop conn reason ∧
        s.shared.conns.lookup conn.fd = some entry ∧
        effect.shared.conns = s.shared.conns.erase conn.fd := by
  cases touches_exec done with
  | nothing tables => exact .inl tables.conns
  | accepts conns => exact .inl conns
  | inserts => exact .inr (.inl ⟨_, rfl, rfl⟩)
  | erases found => exact .inr (.inr ⟨_, _, _, rfl, found, rfl⟩)
  | queues | closes | expires => exact .inl rfl

/-- An entry of the table was there before or has just been inserted. -/
theorem lookup_exec (done : exec cfg s t now f input = some effect) {fd : Nat}
    {conn : Conn ι} (found : effect.shared.conns.lookup fd = some conn) :
    s.shared.conns.lookup fd = some conn ∨ (f = .insert conn ∧ conn.fd = fd) := by
  rcases conns_exec done with same | ⟨other, rfl, inserted⟩ |
      ⟨other, reason, entry, rfl, _, erased⟩
  · rw [same] at found
    exact .inl found
  · rw [inserted] at found
    by_cases sameFd : fd = other.fd
    · subst sameFd
      rw [AList.lookup_insert] at found
      cases found
      exact .inr ⟨rfl, rfl⟩
    · rw [AList.lookup_insert_ne sameFd] at found
      exact .inl found
  · rw [erased] at found
    by_cases sameFd : fd = other.fd
    · subst sameFd
      rw [AList.lookup_erase] at found
      cases found
    · rw [AList.lookup_erase_ne sameFd] at found
      exact .inl found

/-- Only `accept` and `close` change the descriptors. -/
theorem kernel_exec (done : exec cfg s t now f input = some effect) :
    (effect.shared.kernel = s.shared.kernel ∧ ∀ conn, f ≠ .close conn) ∨ f = .accept ∨
      ∃ conn, f = .close conn ∧
        effect.shared.kernel = Function.update s.shared.kernel conn.fd none := by
  cases touches_exec done with
  | nothing tables _ _ open_ => exact .inl ⟨tables.kernel, open_⟩
  | accepts => exact .inr (.inl rfl)
  | closes => exact .inr (.inr ⟨_, rfl, rfl⟩)
  | queues | inserts | erases | expires => exact .inl ⟨rfl, fun _ same => (by cases same)⟩

theorem closedIdle_exec (done : exec cfg s t now f input = some effect) :
    effect.shared.closedIdle = s.shared.closedIdle ∨
      ∃ conn conns, f = .closeExpired (conn :: conns) := by
  cases touches_exec done with
  | nothing _ idle | accepts _ idle => exact .inl idle
  | expires => exact .inr ⟨_, _, rfl⟩
  | queues | inserts | erases | closes => exact .inl rfl

theorem nextConnId_exec (done : exec cfg s t now f input = some effect) :
    effect.shared.nextConnId = s.shared.nextConnId ∨
      ∃ fd loop, f = .accept ∧ input = .accepted fd loop := by
  cases touches_exec done with
  | nothing tables => exact .inl tables.next
  | accepts => exact .inr ⟨_, _, rfl, rfl⟩
  | queues | inserts | erases | closes | expires => exact .inl rfl

/-! ## Placement -/

theorem placed_apply {rest : Pool ι (Frame ι) (Task ι)} (placed : Placed s.pool)
    (popped : pop t s.pool = some (f, rest))
    (done : exec cfg s t now f input = some effect) :
    Placed (TcpServer.apply t rest effect).pool := by
  obtain ⟨here, others⟩ := (allAt_pop popped).mp placed
  refine allAt_apply.mpr ⟨fun g member => ?_, fun x member => ?_, others⟩
  · exact (leads_exec done g member).placed here
  · obtain ⟨rfl, -⟩ := queued_exec done member
    exact here

/-- Every step leaves the connections with the threads of their loops. -/
theorem placed_step {a : Action ι} {m : State ι} {events : List (Event ι)}
    (placed : Placed s.pool) (stepped : step cfg s a = some (m, events)) :
    Placed m.pool := by
  cases a with
  | run t now input =>
      obtain ⟨⟨f, rest⟩, popped, continued⟩ := Option.bind_eq_some_iff.mp stepped
      obtain ⟨effect, done, result⟩ := Option.map_eq_some_iff.mp continued
      cases result
      exact placed_apply placed popped done
  | handleAccept =>
      refine placed_begin placed ?_ stepped
      exact List.forall_mem_singleton.mpr trivial
  | sweepIdle =>
      refine placed_begin placed ?_ stepped
      exact List.forall_mem_singleton.mpr trivial
  | doPendingFunctor t =>
      simp only [step] at stepped
      split at stepped
      · obtain ⟨⟨task, rest⟩, polled, result⟩ := Option.map_eq_some_iff.mp stepped
        cases result
        exact placed_doPendingFunctor placed polled
      · cases stepped
  | handleEvent conn revents =>
      simp only [step] at stepped
      split at stepped
      · apply placed_begin placed _ stepped
        intro g member
        obtain ⟨which, -, rfl⟩ := List.mem_map.mp member
        rfl
      · cases stepped
  | app t =>
      refine placed_begin placed ?_ stepped
      exact List.forall_mem_singleton.mpr trivial

end TcpServer

end MiniNet
