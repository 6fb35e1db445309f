import MiniNet.TcpServer.Steps

/-!
# Connections are not confused

In every run in which `accept4` does not return the number of a descriptor
that some thread still holds an old connection for, closing is about the right
connection and no byte goes to or comes from another one.  Without this
proviso both fail, as the table and all system calls go by descriptor.
-/

namespace MiniNet

open Bytes Threads

namespace TcpServer

variable {ι : Type}

/-- Everything that the steps of a run have shown. -/
def events (trace : List (Action ι × List (Event ι))) : List (Event ι) :=
  trace.flatMap Prod.snd

/-- The connection for which `on_connection_(fd, id, false)` is called. -/
def Event.disconnected? : Event ι → Option (Conn ι)
  | .disconnected conn => some conn
  | _ => none

/-- The next thing that some thread does, apart from `disableAll`, is to call
`on_connection_(fd, id, false)`. -/
def AboutToNotify (s : State ι) (conn : Conn ι) : Prop :=
  ∃ t below, (s.pool t).frames = .disableAll conn :: below ∨
    (s.pool t).frames = .disconnected conn :: below

/-- Closing is about the right connection. -/
structure ClosesOwn (s : State ι) (log : List (Event ι)) : Prop where
  erased : ∀ conn entry, .erased conn entry ∈ log → entry = conn
  once : ((log.filterMap Event.disconnected?).map Conn.id).Nodup
  notified : ∀ conn entry, .erased conn entry ∈ log →
    .disconnected entry ∈ log ∨ AboutToNotify s entry
  closed : ∀ conn socket, .closed conn socket ∈ log → socket = some conn

/-- No byte of one connection is taken for a byte of another. -/
structure NoCrossTalk (log : List (Event ι)) : Prop where
  read : ∀ conn socket data, .read conn socket data ∈ log → socket = conn
  message : ∀ conn data, .message conn data ∈ log → ∀ byte ∈ data, byte.1 = conn
  wrote : ∀ conn socket data, .wrote conn socket data ∈ log → socket = conn

variable [DecidableEq ι]

private theorem count_disconnected (log : List (Event ι)) (conn : Conn ι) :
    (log.filterMap Event.disconnected?).count conn =
      tally (Event.disconnects conn) log := by
  induction log with
  | nil => rfl
  | cons event log ih =>
      have split : tally (Event.disconnects conn) (event :: log) =
          event.disconnects conn + tally (Event.disconnects conn) log := rfl
      rw [split, ← ih]
      cases event with
      | disconnected other =>
          simp only [List.filterMap_cons, Event.disconnected?, List.count_cons,
            Event.disconnects, same, beq_iff_eq]
          omega
      | _ => simp [List.filterMap_cons, Event.disconnected?, Event.disconnects]

/-! ## Notification is the next step -/

/-- Only the top frame of a stack is about to notify. -/
def Prompt (pool : Pool ι (Frame ι) (Task ι)) : Prop :=
  Below (fun f => ∀ conn, f.leaves conn = 0) pool

private theorem tail_next_execRead {shared : Shared ι} {conn : Conn ι} {now : Int}
    {input : Input ι} {effect : Effect ι}
    (done : execRead shared conn now input = some effect) :
    effect.next.tail = [] := by
  unfold execRead at done
  split at done
  · split at done
    · split at done <;> cases done
      rfl
    · cases done
  · split at done <;> cases done
    rfl
  · split at done <;> cases done
    rfl
  · cases done
    rfl
  · cases done
    rfl
  · cases done

private theorem tail_next_execFlush {shared : Shared ι} {conn : Conn ι}
    {result : Option SendResult} {effect : Effect ι}
    (done : execFlush shared conn result = some effect) : effect.next.tail = [] := by
  obtain ⟨⟨state, flush⟩, -, continued⟩ := Option.bind_eq_some_iff.mp done
  dsimp only at continued
  split at continued <;> cases continued <;> cases flush <;> rfl

private theorem prompt_apply {t : ι} {f : Frame ι}
    {pool rest : Pool ι (Frame ι) (Task ι)} (popped : pop t pool = some (f, rest))
    (prompt : Prompt pool) {effect : Effect ι}
    (light : ∀ g ∈ effect.next.tail, ∀ conn, g.leaves conn = 0) :
    Prompt (apply t rest effect).pool := by
  unfold TcpServer.apply
  split
  · exact below_push_of_pop popped prompt light
  · exact below_enqueue (below_push_of_pop popped prompt light)

private theorem prompt_begin {s m : State ι} {t : ι} {frames : List (Frame ι)}
    {events : List (Event ι)} (started : begin s t frames = some (m, events))
    (prompt : Prompt s.pool) (light : ∀ f ∈ frames, ∀ conn, f.leaves conn = 0) :
    Prompt m.pool := by
  unfold TcpServer.begin at started
  split at started
  · rename_i idle
    cases started
    apply below_push_of_idle idle prompt
    exact fun g member => light g (List.mem_of_mem_tail member)
  · cases started

section

variable [Fintype ι]

private theorem leaves_tail_exec {cfg : Config ι} {s : State ι} {t : ι} {now : Int}
    {f : Frame ι} {input : Input ι} {effect : Effect ι}
    (done : exec cfg s t now f input = some effect) :
    ∀ g ∈ effect.next.tail, ∀ conn, g.leaves conn = 0 := by
  have short : ∀ {next : List (Frame ι)}, next.tail = [] →
      ∀ g ∈ next.tail, ∀ conn, g.leaves conn = 0 := by
    intro next nothing g member
    rw [nothing] at member
    cases member
  have light : ∀ {g f : Frame ι}, (∀ conn, f.leaves conn = 0) →
      ∀ h ∈ [g, f].tail, ∀ conn, h.leaves conn = 0 := by
    intro g f zero h member
    cases List.mem_singleton.mp member
    exact zero
  cases f with
  | accept =>
      cases input with
      | accepted fd loop =>
          simp only [exec] at done
          split at done
          · cases done
            exact light fun _ => rfl
          · cases done
      | acceptIntr | acceptFailed =>
          cases done
          exact short rfl
      | _ => cases done
  | app =>
      cases input with
      | call api =>
          cases done
          exact light fun _ => rfl
      | «return» =>
          cases done
          exact short rfl
      | _ => cases done
  | read conn => exact short (tail_next_execRead done)
  | flushWrite conn =>
      cases input with
      | none => exact short (tail_next_execFlush done)
      | send result => exact short (tail_next_execFlush done)
      | _ => cases done
  | message conn n | disconnected conn =>
      cases input with
      | none =>
          cases done
          exact light fun _ => rfl
      | _ => cases done
  | closeExpired conns =>
      cases input with
      | none =>
          cases conns with
          | nil =>
              cases done
              exact short rfl
          | cons conn conns =>
              cases done
              exact light fun _ => rfl
      | _ => cases conns <;> cases done
  | appendAndFlush conn data =>
      cases input with
      | none =>
          cases done
          apply short
          split <;> rfl
      | _ => cases done
  | call api =>
      cases api with
      | send fd data | shutdown fd =>
          cases input with
          | none =>
              simp only [exec] at done
              split at done <;> cases done <;> exact short rfl
          | _ => cases done
  | runInLoop | callback | closeConn | closeConnInLoop | sweepIdle =>
      cases input with
      | none =>
          simp only [exec] at done
          split at done <;> cases done <;> exact short rfl
      | _ => cases done
  | _ =>
      cases input with
      | none =>
          cases done
          exact short rfl
      | _ => cases done

theorem prompt_step {cfg : Config ι} {s m : State ι} {a : Action ι}
    {events : List (Event ι)} (prompt : Prompt s.pool)
    (stepped : step cfg s a = some (m, events)) : Prompt m.pool := by
  have light : ∀ {f : Frame ι}, (∀ conn, f.leaves conn = 0) →
      ∀ g ∈ [f], ∀ conn, g.leaves conn = 0 := by
    intro f zero g member
    cases List.mem_singleton.mp member
    exact zero
  cases a with
  | run t now input =>
      obtain ⟨⟨f, rest⟩, popped, continued⟩ := Option.bind_eq_some_iff.mp stepped
      obtain ⟨effect, done, result⟩ := Option.map_eq_some_iff.mp continued
      cases result
      exact prompt_apply popped prompt (leaves_tail_exec done)
  | handleAccept => exact prompt_begin stepped prompt (light fun _ => rfl)
  | sweepIdle => exact prompt_begin stepped prompt (light fun _ => rfl)
  | doPendingFunctor t =>
      simp only [step] at stepped
      split at stepped
      · rename_i idle
        obtain ⟨⟨task, rest⟩, polled, result⟩ := Option.map_eq_some_iff.mp stepped
        cases result
        obtain ⟨restPrompt, sameFrames⟩ := below_poll polled prompt
        apply below_push_of_idle (sameFrames.trans idle) restPrompt
        intro g member
        cases member
      · cases stepped
  | handleEvent conn revents =>
      simp only [step] at stepped
      split at stepped
      · apply prompt_begin stepped prompt
        intro f member
        obtain ⟨which, -, rfl⟩ := List.mem_map.mp member
        exact fun _ => rfl
      · cases stepped
  | app t => exact prompt_begin stepped prompt (light fun _ => rfl)

/-- A connection that is out of the table and not yet notified is next. -/
private theorem aboutToNotify_of_leaves {s : State ι} (prompt : Prompt s.pool)
    {conn : Conn ι} (leaving : weight (Frame.leaves conn) (fun _ => 0) s.pool ≠ 0) :
    AboutToNotify s conn := by
  by_contra absent
  apply leaving
  apply weight_eq_zero_iff.mpr
  intro t
  refine ⟨fun f member => ?_, fun k member => rfl⟩
  cases frames : (s.pool t).frames with
  | nil =>
      rw [frames] at member
      cases member
  | cons top below =>
      rw [frames] at member
      rcases List.mem_cons.mp member with rfl | deeper
      · by_contra counted
        apply absent
        refine ⟨t, below, ?_⟩
        rw [frames]
        cases f with
        | disableAll other =>
            simp only [Frame.leaves, same, ite_eq_right_iff] at counted
            simp only [Nat.succ_ne_zero, imp_false, not_not] at counted
            exact .inl (counted ▸ rfl)
        | disconnected other =>
            simp only [Frame.leaves, same, ite_eq_right_iff] at counted
            simp only [Nat.succ_ne_zero, imp_false, not_not] at counted
            exact .inr (counted ▸ rfl)
        | _ => exact absurd rfl counted
      · have tail := prompt t
        rw [frames] at tail
        exact tail f deeper conn

/-! ## Every run -/

/-- The invariant of all runs without a stale holder of a new descriptor. -/
theorem sound_run {cfg : Config ι} {actions : List (Action ι)} {s : State ι}
    {trace : List (Action ι × List (Event ι))}
    (fresh : Machine.Along (step cfg) FreshFd {} actions)
    (ran : Machine.run (step cfg) {} actions = some (s, trace)) :
    Sound (events trace) s ∧ Prompt s.pool := by
  refine Machine.run_along (motive := fun trace s =>
    Sound (events trace) s ∧ Prompt s.pool) ?_ ⟨sound_init, ?_⟩ fresh ran
  · rintro past s a m b ⟨sound, prompt⟩ allowed stepped
    have grown : events (past ++ [(a, b)]) = events past ++ b := by
      simp [events]
    rw [grown]
    exact ⟨sound.step allowed stepped, prompt_step prompt stepped⟩
  · intro t f member
    cases member

variable {log : List (Event ι)} {s : State ι}

/-- A connection that has been taken out of the table was accepted. -/
theorem Sound.erases_le (sound : Sound log s) (conn : Conn ι) :
    tally (Event.erases conn) log ≤ if conn ∈ born log then 1 else 0 := by
  have once := (sound.staged conn).once
  omega

theorem Sound.disconnects_le (sound : Sound log s) (conn : Conn ι) :
    tally (Event.disconnects conn) log ≤ tally (Event.erases conn) log := by
  have left := (sound.staged conn).left
  omega

theorem Sound.nodup_disconnected (sound : Sound log s) :
    ((log.filterMap Event.disconnected?).map Conn.id).Nodup := by
  have atMost : ∀ conn, (log.filterMap Event.disconnected?).count conn ≤
      if conn ∈ born log then 1 else 0 := by
    intro conn
    rw [count_disconnected]
    exact (sound.disconnects_le conn).trans (sound.erases_le conn)
  have known : ∀ conn ∈ log.filterMap Event.disconnected?, conn ∈ born log := by
    intro conn member
    by_contra unknown
    have none := atMost conn
    rw [if_neg unknown] at none
    have some := List.count_pos_iff.mpr member
    omega
  have ids : ((born log).map Conn.id).Nodup := by
    rw [sound.sorted.numbers]
    exact List.nodup_range'
  apply List.Nodup.map_on
  · intro conn member other member' sameId
    exact List.inj_on_of_nodup_map ids (known conn member) (known other member') sameId
  · rw [List.nodup_iff_count_le_one]
    intro conn
    apply (atMost conn).trans
    split <;> omega

theorem Sound.notifies (sound : Sound log s) (prompt : Prompt s.pool)
    {conn entry : Conn ι} (erased : .erased conn entry ∈ log) :
    .disconnected entry ∈ log ∨ AboutToNotify s entry := by
  have counted : tally (Event.erases entry) log ≠ 0 := by
    apply tally_ne_zero.mpr
    refine ⟨_, erased, ?_⟩
    rw [Event.erases, same_self]
    exact Nat.one_ne_zero
  rw [(sound.staged entry).left] at counted
  by_cases leaving : weight (Frame.leaves entry) (fun _ => 0) s.pool = 0
  · rw [leaving, Nat.add_zero, tally_ne_zero] at counted
    obtain ⟨event, member, counts⟩ := counted
    cases event with
    | disconnected other =>
        by_cases here : entry = other
        · exact .inl (here ▸ member)
        · exact absurd (same_of_ne here) counts
    | _ => exact absurd rfl counts
  · exact .inr (aboutToNotify_of_leaves prompt leaving)

/-- As long as no descriptor number is reused while an old connection with
that number is held somewhere, closing is about the right connection. -/
theorem run_closesOwn (cfg : Config ι) (actions : List (Action ι)) (s : State ι)
    (trace : List (Action ι × List (Event ι)))
    (fresh : Machine.Along (step cfg) FreshFd {} actions)
    (ran : Machine.run (step cfg) {} actions = some (s, trace)) :
    ClosesOwn s (events trace) := by
  obtain ⟨sound, prompt⟩ := sound_run fresh ran
  constructor
  · exact fun conn entry member => sound.genuine _ member
  · exact sound.nodup_disconnected
  · exact fun conn entry member => sound.notifies prompt member
  · exact fun conn socket member => sound.genuine _ member

def twoLoops : Config (Fin 3) := { baseLoop := 0 }

def oldConn : Conn (Fin 3) := { fd := 7, id := 1, ownerLoop := 1 }

/-- A later connection that gets the same descriptor. -/
def newConn : Conn (Fin 3) := { fd := 7, id := 2, ownerLoop := 2 }

/-- The base loop accepts a connection on descriptor 7 for this loop, which
takes it up. -/
def connect (loop : Fin 3) : List (Action (Fin 3)) :=
  [.handleAccept, .run 0 0 (.accepted 7 loop), .run 0 0 .none, .run 0 0 .acceptFailed,
    .doPendingFunctor loop, .run loop 0 .none, .run loop 0 .none, .run loop 0 .none,
    .run loop 0 .return]

/-- The steps of `closeConnInLoop`, up to `::close`. -/
def closing (loop : Fin 3) : List (Action (Fin 3)) :=
  [.run loop 0 .none, .run loop 0 .none, .run loop 0 .none, .run loop 0 .return,
    .run loop 0 .none]

/-- The loop of a connection sees the end of its stream. -/
def hangUp (conn : Conn (Fin 3)) : List (Action (Fin 3)) :=
  [.handleEvent conn Channel.epollIn, .run conn.ownerLoop 0 .none,
    .run conn.ownerLoop 0 .endOfStream] ++ closing conn.ownerLoop

/-- A descriptor may well be reused when nobody holds the old connection. -/
theorem run_closesOwn_reuse :
    ∃ s trace, Machine.run (step twoLoops) {}
        (connect 1 ++ hangUp oldConn ++ connect 2 ++ hangUp newConn) = some (s, trace) ∧
      ClosesOwn s (events trace) := by
  obtain ⟨⟨s, trace⟩, ran⟩ : ∃ result, Machine.run (step twoLoops) {}
      (connect 1 ++ hangUp oldConn ++ connect 2 ++ hangUp newConn) = some result :=
    Option.isSome_iff_exists.mp (by decide +kernel)
  exact ⟨s, trace, ran, run_closesOwn twoLoops _ s trace (by decide +kernel) ran⟩

/-- The idle sweep queues a close of the old connection for its loop.  Before
that task runs, the peer hangs up, and the closed descriptor goes to the new
connection. -/
def staleClose : List (Action (Fin 3)) :=
  connect 1 ++ .sweepIdle :: List.replicate 5 (.run 0 30000 .none) ++ hangUp oldConn ++
    connect 2 ++ .doPendingFunctor 1 :: closing 1

/-- The queued task takes the new connection out of the table, reports the old
one a second time and closes the descriptor of the new one. -/
theorem staleClose_confuses :
    ∃ s trace, Machine.run (step twoLoops) {} staleClose = some (s, trace) ∧
      .erased oldConn newConn ∈ events trace ∧
      (events trace).count (.disconnected oldConn) = 2 ∧
      .closed oldConn (some newConn) ∈ events trace ∧ ¬ClosesOwn s (events trace) := by
  obtain ⟨⟨s, trace⟩, ran, log⟩ := Option.map_eq_some_iff.mp (show
    (Machine.run (step twoLoops) {} staleClose).map (events ·.2) = some
      [.accepted oldConn, .connected oldConn, .erased oldConn oldConn,
        .disconnected oldConn, .closed oldConn (some oldConn), .accepted newConn,
        .connected newConn, .erased oldConn newConn, .disconnected oldConn,
        .closed oldConn (some newConn)] by decide +kernel)
  refine ⟨s, trace, ran, ?_⟩
  rw [log]
  refine ⟨by decide, by decide, by decide, fun closesOwn => ?_⟩
  exact absurd (closesOwn.erased oldConn newConn (by decide)) (by decide)

/-- Under the same proviso no byte is read from or written to the socket of
another connection. -/
theorem run_noCrossTalk (cfg : Config ι) (actions : List (Action ι)) (s : State ι)
    (trace : List (Action ι × List (Event ι)))
    (fresh : Machine.Along (step cfg) FreshFd {} actions)
    (ran : Machine.run (step cfg) {} actions = some (s, trace)) :
    NoCrossTalk (events trace) := by
  have sound := (sound_run fresh ran).1
  constructor
  · exact fun conn socket data member => sound.genuine _ member
  · exact fun conn data member => sound.genuine _ member
  · exact fun conn socket data member => sound.genuine _ member

/-- The loop reads from the old connection; the application answers the message
with `shutdown`, as it does to the last request of a connection. -/
def readAndShutdown : List (Action (Fin 3)) :=
  [.handleEvent oldConn Channel.epollIn, .run 1 0 .none, .run 1 0 (.data [0x61]),
    .run 1 0 .none, .run 1 0 (.call (.shutdown 7)), .run 1 0 .none, .run 1 0 .none] ++
    closing 1 ++ [.run 1 0 .return]

/-- The loop is back in `handleReadable` and finds the descriptor closed. -/
def readAgain : List (Action (Fin 3)) :=
  [.run 1 0 .none, .run 1 0 .readError, .run 1 0 .none]

theorem run_noCrossTalk_shutdown :
    ∃ s trace, Machine.run (step twoLoops) {}
        (connect 1 ++ readAndShutdown ++ readAgain ++ connect 2) = some (s, trace) ∧
      NoCrossTalk (events trace) := by
  obtain ⟨⟨s, trace⟩, ran⟩ : ∃ result, Machine.run (step twoLoops) {}
      (connect 1 ++ readAndShutdown ++ readAgain ++ connect 2) = some result :=
    Option.isSome_iff_exists.mp (by decide +kernel)
  exact ⟨s, trace, ran, run_noCrossTalk twoLoops _ s trace (by decide +kernel) ran⟩

/-- The descriptor goes to the new connection before the loop reads again. -/
def staleRead : List (Action (Fin 3)) :=
  connect 1 ++ readAndShutdown ++ connect 2 ++
    [.run 1 0 .none, .run 1 0 (.data [0x62]), .run 1 0 .none]

/-- What was sent to the new connection is delivered as data of the old one. -/
theorem staleRead_crosses :
    ∃ s trace, Machine.run (step twoLoops) {} staleRead = some (s, trace) ∧
      .message oldConn [(newConn, 0x62)] ∈ events trace ∧
      ¬NoCrossTalk (events trace) := by
  obtain ⟨⟨s, trace⟩, ran, log⟩ := Option.map_eq_some_iff.mp (show
    (Machine.run (step twoLoops) {} staleRead).map (events ·.2) = some
      [.accepted oldConn, .connected oldConn, .read oldConn oldConn [0x61],
        .message oldConn [(oldConn, 0x61)], .erased oldConn oldConn,
        .disconnected oldConn, .closed oldConn (some oldConn), .accepted newConn,
        .connected newConn, .read oldConn newConn [0x62],
        .message oldConn [(newConn, 0x62)]] by decide +kernel)
  refine ⟨s, trace, ran, ?_⟩
  rw [log]
  refine ⟨by decide, fun noCrossTalk => ?_⟩
  exact absurd (noCrossTalk.read oldConn newConn [0x62] (by decide)) (by decide)

end

end TcpServer

end MiniNet
