import MiniNet.TcpServer.Placement

/-!
# Batches of ready channels

One `wait` of a loop fills `active_` with pointers to channels, and the loop
calls `handleEvent` of each in turn.  The callbacks in between may destroy a
channel that is still to be called: it lives as long as its connection is in
`conns_`, on the stack of a thread or in a queued task, and `shutdown` or a
failing `send` on the loop's own thread closes a connection at once.  The
channels of the listening socket and of the wakeup descriptor live as long as
the loop runs.
-/

namespace MiniNet

open Bytes Threads

namespace TcpServer

variable {ι : Type}

/-- The server, and for each loop what is left of `active_`. -/
structure Loops (ι : Type) where
  server : State ι := {}
  active : ι → List (Conn ι × UInt32) := fun _ => []

inductive LoopAction (ι : Type) where
  /-- A step of the server that is not the call of a channel. -/
  | server (action : Action ι)
  /-- `EpollPoller::wait` returns these channels with their events. -/
  | wait (t : ι) (ready : List (Conn ι × UInt32))
  /-- `ch->handleEvent(ch->revents())` for the next channel. -/
  | handleEvent (t : ι)
  deriving DecidableEq

namespace Loops

/-- The connections whose channels the loop has still to call. -/
def waiting (s : Loops ι) (t : ι) : List (Conn ι) := (s.active t).map Prod.fst

theorem waiting_update [DecidableEq ι] (s : Loops ι) (t : ι)
    (ready : List (Conn ι × UInt32)) :
    waiting { s with active := Function.update s.active t ready } =
      Function.update s.waiting t (ready.map Prod.fst) := by
  funext u
  by_cases other : u = t
  · subst other
    simp only [waiting, Function.update_self]
  · simp only [waiting, Function.update_of_ne other]

variable [DecidableEq ι] [Fintype ι]

/-- `epoll_wait` may return any channels of the loop that exist, each once; the
kernel in fact returns only registered ones. -/
def CanBeReady (s : State ι) (t : ι) (ready : List (Conn ι × UInt32)) : Prop :=
  (ready.map Prod.fst).Nodup ∧ ∀ conn ∈ ready.map Prod.fst, conn.ownerLoop = t ∧ Alive s conn

instance (s : State ι) (t : ι) (ready : List (Conn ι × UInt32)) :
    Decidable (CanBeReady s t ready) :=
  inferInstanceAs (Decidable (_ ∧ _))

/-- A loop calls its channels before it runs its timers and queued tasks. -/
def Due (cfg : Config ι) (s : Loops ι) : Action ι → Prop
  | .sweepIdle => s.active cfg.baseLoop = []
  | .doPendingFunctor t => s.active t = []
  | .handleEvent _ _ => False
  | .run _ _ _ | .handleAccept | .app _ => True

instance (cfg : Config ι) (s : Loops ι) : ∀ a, Decidable (Due cfg s a)
  | .sweepIdle => inferInstanceAs (Decidable (_ = _))
  | .doPendingFunctor _ => inferInstanceAs (Decidable (_ = _))
  | .handleEvent _ _ => isFalse id
  | .run _ _ _ | .handleAccept | .app _ => isTrue trivial

def step (cfg : Config ι) (s : Loops ι) :
    LoopAction ι → Option (Loops ι × List (Event ι))
  | .server action =>
      if Due cfg s action then
        (TcpServer.step cfg s.server action).map fun (server, events) =>
          ({ s with server }, events)
      else none
  | .wait t ready =>
      if (s.server.pool t).frames = [] ∧ s.active t = [] ∧ CanBeReady s.server t ready then
        some ({ s with active := Function.update s.active t ready }, [])
      else none
  | .handleEvent t =>
      match s.active t with
      | [] => none
      | (conn, revents) :: rest =>
          (begin s.server t
            ((Channel.handleEvent revents).map fun which => .callback which conn)).map
            fun (server, events) =>
              ({ server, active := Function.update s.active t rest }, events)

/-- The channel that a loop calls next has not been destroyed. -/
def CallsAlive (s : Loops ι) : Prop :=
  ∀ t, (s.server.pool t).frames = [] → ∀ next ∈ (s.active t).head?, Alive s.server next.1

instance (s : Loops ι) : Decidable s.CallsAlive :=
  inferInstanceAs (Decidable (∀ t, _ → ∀ next ∈ (s.active t).head?, _))

end Loops

/-! ## What can close a connection -/

/-- The frame may go on to close the connection, even if nothing fails. -/
def Frame.Endangers (conn : Conn ι) : Frame ι → Prop
  | .callback _ other | .read other | .message other _ | .retrieve other _
  | .closeConn other _ | .closeConnInLoop other _
  | .runInLoop _ (.closeConnInLoop other _) => conn = other
  | .closeExpired conns => conn ∈ conns
  | .sweepIdle => True
  | _ => False

theorem Leads.endangers {s : State ι} {t : ι} {input : Input ι} {f g : Frame ι}
    {conn : Conn ι} (led : Leads s t input f g) (danger : g.Endangers conn) :
    f.Endangers conn ∨
      (∃ fd, f = .call (.shutdown fd) ∧ s.shared.conns.lookup fd = some conn) ∨
      (f = .flushWrite conn ∧ input = .send .error) := by
  cases led with
  | inLoop task =>
      cases task with
      | closeConnInLoop other reason => exact .inl danger
      | addConnection | appendAndFlush => exact absurd danger id
  | callback which other =>
      cases which with
      | read | close => exact .inl danger
      | write => exact absurd danger id
  | shutdown fd other found =>
      cases danger
      exact .inr (.inl ⟨fd, rfl, found⟩)
  | writeError other failed =>
      cases danger
      exact .inr (.inr ⟨rfl, failed⟩)
  | swept => exact .inl trivial
  | expired other conns =>
      cases danger
      exact .inl List.mem_cons_self
  | expiredOn other conns => exact .inl (List.mem_cons_of_mem _ danger)
  | received | interrupted | readClosed | retrieve | readOn | closeHere | closeThere =>
      exact .inl danger
  | _ => exact absurd danger id

/-! ## What keeps a connection alive -/

/-- A task for the loop `t` or another thread holds the connection. -/
def Elsewhere (t : ι) (conn : Conn ι) (pool : Pool ι (Frame ι) (Task ι)) : Prop :=
  ¬AllAt (fun u f => u ≠ t → conn ∉ f.refs) (fun u k => u = t → conn ∉ k.refs) pool

theorem Elsewhere.alive {s : State ι} {t : ι} {conn : Conn ι}
    (elsewhere : Elsewhere t conn s.pool) : Alive s conn :=
  .inr fun none => elsewhere fun u =>
    ⟨fun f member _ => (none u).1 f member, fun k member _ => (none u).2 k member⟩

/-- What an idle loop's own connection lives on. -/
theorem elsewhere_of_alive [DecidableEq ι] {s : State ι} {conn : Conn ι}
    (placed : Placed s.pool) (alive : Alive s conn)
    (idle : (s.pool conn.ownerLoop).frames = []) :
    s.shared.conns.lookup conn.fd = some conn ∨ Elsewhere conn.ownerLoop conn s.pool := by
  rcases alive with stored | referenced
  · exact .inl stored
  · refine .inr fun none => referenced fun u => ⟨fun f member => ?_, fun k member => ?_⟩
    · by_cases other : u = conn.ownerLoop
      · subst other
        rw [idle] at member
        cases member
      · exact (none u).1 f member other
    · intro holds
      have owner := (placed u).2 k member
      rw [Task.refs_eq, List.mem_singleton] at holds
      subst holds
      refine (none u).2 k member owner.symm ?_
      rw [Task.refs_eq]
      exact List.mem_singleton.mpr rfl

section

variable [DecidableEq ι] {t u : ι} {conn : Conn ι}

theorem Elsewhere.push {pool : Pool ι (Frame ι) (Task ι)} {frames : List (Frame ι)}
    (elsewhere : Elsewhere t conn pool) : Elsewhere t conn (push u frames pool) :=
  fun none => elsewhere (allAt_push.mp none).2

theorem Elsewhere.poll {pool rest : Pool ι (Frame ι) (Task ι)} {task : Task ι}
    (elsewhere : Elsewhere t conn pool) (polled : poll u pool = some (task, rest))
    (other : u ≠ t) : Elsewhere t conn rest :=
  fun none => elsewhere ((allAt_poll polled).mpr ⟨fun same => absurd same other, none⟩)

variable [Fintype ι] {cfg : Config ι} {s : State ι} {now : Int} {f : Frame ι}
  {input : Input ι} {effect : Effect ι}

/-- Another thread hands a connection over to its owner before it lets it go. -/
theorem refs_exec (placed : f.Placed u) (other : u ≠ conn.ownerLoop)
    (member : conn ∈ f.refs) (done : exec cfg s u now f input = some effect) :
    (∃ g ∈ effect.next, conn ∈ g.refs) ∨
      ∃ task, effect.queued = some (conn.ownerLoop, task) ∧ conn ∈ task.refs := by
  have elsewhere : conn.ownerLoop ≠ u := Ne.symm other
  cases f with
  | runInLoop loop task =>
      rw [Frame.refs, Task.refs_eq, List.mem_singleton] at member
      subst member
      cases placed
      cases input with
      | none =>
          rw [exec, if_neg elsewhere] at done
          cases done
          exact .inr ⟨task, rfl, by rw [Task.refs_eq]; exact List.mem_singleton.mpr rfl⟩
      | _ => cases done
  | closeConn other reason =>
      cases List.mem_singleton.mp member
      cases input with
      | none =>
          rw [exec, if_neg elsewhere] at done
          cases done
          exact .inl ⟨_, List.mem_singleton.mpr rfl, member⟩
      | _ => cases done
  | closeExpired conns =>
      cases conns with
      | nil => cases member
      | cons first rest =>
          cases input with
          | none =>
              cases done
              rcases List.mem_cons.mp member with rfl | later
              · exact .inl ⟨_, List.mem_cons_self, List.mem_singleton.mpr rfl⟩
              · exact .inl ⟨_, List.mem_cons_of_mem _ (List.mem_singleton.mpr rfl), later⟩
          | _ => cases done
  | accept | callback | app | call | sweepIdle => cases member
  | _ =>
      cases List.mem_singleton.mp member
      exact absurd placed elsewhere

theorem Elsewhere.apply {rest : Pool ι (Frame ι) (Task ι)}
    (elsewhere : Elsewhere conn.ownerLoop conn s.pool) (placed : Placed s.pool)
    (popped : pop u s.pool = some (f, rest))
    (done : exec cfg s u now f input = some effect) :
    Elsewhere conn.ownerLoop conn (TcpServer.apply u rest effect).pool := by
  intro none
  obtain ⟨next, queued, others⟩ := allAt_apply.mp none
  refine elsewhere ((allAt_pop popped).mpr ⟨fun other member => ?_, others⟩)
  have here := ((allAt_pop popped).mp placed).1
  rcases refs_exec here other member done with ⟨g, left, holds⟩ | ⟨task, sent, holds⟩
  · exact next g left other holds
  · exact queued _ sent rfl holds

end

/-! ## Runs that spare the waiting connections -/

namespace Loops

/-- A step of this frame spares the connections that wait in a batch: it calls
`shutdown` for none of its own loop, no `::send` to one fails, and it does not
take the entry of one for that of another connection with the same number. -/
def SparesIn (s : Loops ι) (t : ι) (input : Input ι) : Frame ι → Prop
  | .call (.shutdown fd) =>
      ∀ conn ∈ s.server.shared.conns.lookup fd, conn ∉ s.waiting t
  | .flushWrite conn => input = .send .error → conn ∉ s.waiting t
  | .insert conn | .closeConnInLoop conn _ =>
      ∀ entry ∈ s.server.shared.conns.lookup conn.fd, entry ≠ conn →
        entry ∉ s.waiting entry.ownerLoop
  | _ => True

def Spares (s : Loops ι) : LoopAction ι → Prop
  | .server (.run t _ input) =>
      ∀ f ∈ (s.server.pool t).frames.head?, s.SparesIn t input f
  | _ => True

instance [DecidableEq ι] (s : Loops ι) (t : ι) (input : Input ι) :
    ∀ f, Decidable (s.SparesIn t input f)
  | .call (.shutdown _) => inferInstanceAs (Decidable (∀ conn ∈ _, conn ∉ _))
  | .flushWrite _ => inferInstanceAs (Decidable (_ → _))
  | .insert _ | .closeConnInLoop _ _ => inferInstanceAs (Decidable (∀ entry ∈ _, _ → _))
  | .accept | .runInLoop _ _ | .addConnection _ | .connected _ | .callback _ _ | .read _
  | .message _ _ | .retrieve _ _ | .app | .call (.send _ _) | .appendAndFlush _ _
  | .closeConn _ _ | .disableAll _ | .disconnected _ | .close _ | .sweepIdle
  | .closeExpired _ => isTrue trivial

instance [DecidableEq ι] (s : Loops ι) : ∀ a, Decidable (s.Spares a)
  | .server (.run _ _ _) => inferInstanceAs (Decidable (∀ f ∈ _, s.SparesIn _ _ f))
  | .server .handleAccept | .server .sweepIdle | .server (.doPendingFunctor _)
  | .server (.handleEvent _ _) | .server (.app _) | .wait _ _ | .handleEvent _ =>
      isTrue trivial

/-- What holds in the runs whose steps all spare the waiting connections. -/
structure Guarded (s : Loops ι) : Prop where
  placed : Placed s.server.pool
  own : ∀ t, ∀ conn ∈ s.waiting t, conn.ownerLoop = t
  distinct : ∀ t, (s.waiting t).Nodup
  held : ∀ t, ∀ conn ∈ s.waiting t,
    s.server.shared.conns.lookup conn.fd = some conn ∨ Elsewhere t conn s.server.pool
  harmless : AllAt (fun t f => ∀ conn ∈ s.waiting t, ¬f.Endangers conn)
    (fun _ _ => True) s.server.pool

namespace Guarded

variable {s : Loops ι}

theorem alive (guarded : Guarded s) {t : ι} {conn : Conn ι} (member : conn ∈ s.waiting t) :
    Alive s.server conn := by
  rcases guarded.held t conn member with stored | elsewhere
  · exact .inl stored
  · exact elsewhere.alive

theorem callsAlive (guarded : Guarded s) : s.CallsAlive := by
  intro t _ next member
  apply guarded.alive (t := t)
  exact List.mem_map_of_mem (List.mem_of_mem_head? member)

variable [DecidableEq ι]

/-- An idle thread starts with harmless frames. -/
theorem begin (guarded : Guarded s) {t : ι} {frames : List (Frame ι)} {m : State ι}
    {events : List (Event ι)} (placed : ∀ f ∈ frames, f.Placed t)
    (harmless : ∀ f ∈ frames, ∀ conn ∈ s.waiting t, ¬f.Endangers conn)
    (started : TcpServer.begin s.server t frames = some (m, events)) :
    Guarded { s with server := m } := by
  have placedLater := placed_begin guarded.placed placed started
  unfold TcpServer.begin at started
  split at started
  · cases started
    refine ⟨placedLater, guarded.own, guarded.distinct, fun u conn member => ?_, ?_⟩
    · exact (guarded.held u conn member).imp_right Elsewhere.push
    · exact allAt_push.mpr ⟨harmless, guarded.harmless⟩
  · cases started

theorem doPendingFunctor (guarded : Guarded s) {t : ι} {task : Task ι}
    {rest : Pool ι (Frame ι) (Task ι)} (called : s.active t = [])
    (polled : poll t s.server.pool = some (task, rest)) :
    Guarded { s with server := { s.server with pool := push t [task.frame] rest } } := by
  have none (conn : Conn ι) : conn ∉ s.waiting t := by
    rw [waiting, called]
    exact List.not_mem_nil
  refine ⟨placed_doPendingFunctor guarded.placed polled, guarded.own, guarded.distinct,
    fun u conn member => ?_, ?_⟩
  · by_cases other : t = u
    · subst other
      exact absurd member (none conn)
    · exact (guarded.held u conn member).imp_right fun elsewhere =>
        (elsewhere.poll polled other).push
  · refine allAt_push.mpr ⟨fun f _ conn member => ?_, ((allAt_poll polled).mp guarded.harmless).2⟩
    exact absurd member (none conn)

theorem wait (guarded : Guarded s) {t : ι} {ready : List (Conn ι × UInt32)}
    (idle : (s.server.pool t).frames = []) (canBeReady : CanBeReady s.server t ready) :
    Guarded { s with active := Function.update s.active t ready } := by
  obtain ⟨distinct, exist⟩ := canBeReady
  have waiting_of {p : ι → List (Conn ι) → Prop} (here : p t (ready.map Prod.fst))
      (elsewhere : ∀ u, p u (s.waiting u)) :
      ∀ u, p u (waiting { s with active := Function.update s.active t ready } u) := by
    rw [waiting_update, Function.forall_update_iff s.waiting p]
    exact ⟨here, fun u _ => elsewhere u⟩
  refine ⟨guarded.placed, ?_, ?_, ?_, fun u => ⟨?_, fun _ _ => trivial⟩⟩
  · exact waiting_of (p := fun u conns => ∀ conn ∈ conns, conn.ownerLoop = u)
      (fun conn member => (exist conn member).1) guarded.own
  · exact waiting_of (p := fun _ conns => conns.Nodup) distinct guarded.distinct
  · refine waiting_of (p := fun u conns => ∀ conn ∈ conns,
      s.server.shared.conns.lookup conn.fd = some conn ∨ Elsewhere u conn s.server.pool)
      (fun conn member => ?_) guarded.held
    obtain ⟨rfl, alive⟩ := exist conn member
    exact elsewhere_of_alive guarded.placed alive idle
  · refine waiting_of (p := fun u conns => ∀ f ∈ (s.server.pool u).frames,
      ∀ conn ∈ conns, ¬f.Endangers conn) (fun f member => ?_)
      (fun u => (guarded.harmless u).1) u
    rw [idle] at member
    cases member

/-- The loop calls its next channel. -/
theorem handleEvent (guarded : Guarded s) {t : ι} {conn : Conn ι} {revents : UInt32}
    {rest : List (Conn ι × UInt32)} (next : s.active t = (conn, revents) :: rest)
    {m : State ι} {events : List (Event ι)}
    (started : TcpServer.begin s.server t
      ((Channel.handleEvent revents).map fun which => .callback which conn) =
        some (m, events)) :
    Guarded { server := m, active := Function.update s.active t rest } := by
  have shorter : Guarded { s with active := Function.update s.active t rest } := by
    have fewer : ∀ u, (waiting { s with active := Function.update s.active t rest } u).Sublist
        (s.waiting u) := by
      rw [waiting_update, Function.forall_update_iff s.waiting
        fun u conns => conns.Sublist (s.waiting u)]
      refine ⟨?_, fun u _ => List.Sublist.refl _⟩
      rw [waiting, next]
      exact List.sublist_cons_self _ _
    refine ⟨guarded.placed, fun u c member => guarded.own u c ((fewer u).subset member),
      fun u => (guarded.distinct u).sublist (fewer u),
      fun u c member => guarded.held u c ((fewer u).subset member),
      fun u => ⟨fun f stacked c member => ?_, fun _ _ => trivial⟩⟩
    exact (guarded.harmless u).1 f stacked c ((fewer u).subset member)
  have called : conn.ownerLoop = t ∧ conn ∉ rest.map Prod.fst := by
    have own := guarded.own t conn
    have distinct := guarded.distinct t
    rw [waiting, next] at own distinct
    exact ⟨own List.mem_cons_self, (List.nodup_cons.mp distinct).1⟩
  refine shorter.begin ?_ ?_ started
  · intro f member
    obtain ⟨which, -, rfl⟩ := List.mem_map.mp member
    exact called.1
  · intro f member c waits
    obtain ⟨which, -, rfl⟩ := List.mem_map.mp member
    rintro rfl
    rw [waiting_update, Function.update_self] at waits
    exact called.2 waits

variable [Fintype ι] {cfg : Config ι}

/-- The entry of a waiting connection stays in the table. -/
theorem stored_exec (guarded : Guarded s) {t u : ι} {f : Frame ι} {now : Int}
    {input : Input ι} {effect : Effect ι} {rest : Pool ι (Frame ι) (Task ι)}
    (popped : pop u s.server.pool = some (f, rest)) (spares : s.SparesIn u input f)
    (done : exec cfg s.server u now f input = some effect) {conn : Conn ι}
    (member : conn ∈ s.waiting t)
    (stored : s.server.shared.conns.lookup conn.fd = some conn) :
    effect.shared.conns.lookup conn.fd = some conn := by
  obtain rfl := guarded.own t conn member
  rcases conns_exec done with same | ⟨other, rfl, inserted⟩ |
      ⟨other, reason, entry, rfl, found, erased⟩
  · rw [same]
    exact stored
  · rw [inserted]
    by_cases sameFd : conn.fd = other.fd
    · by_cases same : conn = other
      · subst same
        exact AList.lookup_insert _
      · rw [sameFd] at stored
        exact absurd member (spares conn stored same)
    · rw [AList.lookup_insert_ne sameFd]
      exact stored
  · rw [erased]
    by_cases sameFd : conn.fd = other.fd
    · by_cases same : conn = other
      · subst same
        have here : conn.ownerLoop = u := ((allAt_pop popped).mp guarded.placed).1
        subst here
        have harmless := ((allAt_pop popped).mp guarded.harmless).1
        exact absurd rfl (harmless conn member)
      · rw [sameFd] at stored
        exact absurd member (spares conn stored same)
    · rw [AList.lookup_erase_ne sameFd]
      exact stored

theorem run (guarded : Guarded s) {u : ι} {f : Frame ι} {now : Int}
    {input : Input ι} {effect : Effect ι} {rest : Pool ι (Frame ι) (Task ι)}
    (popped : pop u s.server.pool = some (f, rest)) (spares : s.SparesIn u input f)
    (done : exec cfg s.server u now f input = some effect) :
    Guarded { s with server := TcpServer.apply u rest effect } := by
  refine ⟨placed_apply guarded.placed popped done, guarded.own, guarded.distinct, ?_, ?_⟩
  · intro t conn member
    rw [shared_apply]
    rcases guarded.held t conn member with stored | elsewhere
    · exact .inl (guarded.stored_exec popped spares done member stored)
    · obtain rfl := guarded.own t conn member
      exact .inr (elsewhere.apply guarded.placed popped done)
  · obtain ⟨here, others⟩ := (allAt_pop popped).mp guarded.harmless
    refine allAt_apply.mpr ⟨fun g left conn member danger => ?_, fun _ _ => trivial, others⟩
    rcases (leads_exec done g left).endangers danger with before | ⟨fd, rfl, found⟩ |
        ⟨rfl, failed⟩
    · exact here conn member before
    · exact spares conn found member
    · exact spares failed member

theorem server (guarded : Guarded s) {a : Action ι} {m : State ι}
    {events : List (Event ι)} (due : Due cfg s a) (spares : s.Spares (.server a))
    (stepped : TcpServer.step cfg s.server a = some (m, events)) :
    Guarded { s with server := m } := by
  cases a with
  | run t now input =>
      obtain ⟨⟨f, rest⟩, popped, continued⟩ := Option.bind_eq_some_iff.mp stepped
      obtain ⟨effect, done, result⟩ := Option.map_eq_some_iff.mp continued
      cases result
      exact guarded.run popped (spares f (head_of_pop popped)) done
  | handleAccept =>
      refine guarded.begin ?_ ?_ stepped
      · exact List.forall_mem_singleton.mpr trivial
      · exact List.forall_mem_singleton.mpr fun _ _ danger => danger
  | app t =>
      refine guarded.begin ?_ ?_ stepped
      · exact List.forall_mem_singleton.mpr trivial
      · exact List.forall_mem_singleton.mpr fun _ _ danger => danger
  | sweepIdle =>
      refine guarded.begin ?_ ?_ stepped
      · exact List.forall_mem_singleton.mpr trivial
      · intro f _ conn member
        rw [waiting, due] at member
        cases member
  | doPendingFunctor t =>
      simp only [TcpServer.step] at stepped
      split at stepped
      · obtain ⟨⟨task, rest⟩, polled, result⟩ := Option.map_eq_some_iff.mp stepped
        cases result
        exact guarded.doPendingFunctor due polled
      · cases stepped
  | handleEvent conn revents => exact absurd due id

theorem step (guarded : Guarded s) {a : LoopAction ι} {m : Loops ι}
    {events : List (Event ι)} (spares : s.Spares a)
    (stepped : Loops.step cfg s a = some (m, events)) : Guarded m := by
  cases a with
  | server action =>
      simp only [Loops.step] at stepped
      split at stepped
      · rename_i due
        obtain ⟨⟨server, log⟩, continued, result⟩ := Option.map_eq_some_iff.mp stepped
        cases result
        exact guarded.server due spares continued
      · cases stepped
  | wait t ready =>
      simp only [Loops.step] at stepped
      split at stepped
      · rename_i allowed
        cases stepped
        exact guarded.wait allowed.1 allowed.2.2
      · cases stepped
  | handleEvent t =>
      simp only [Loops.step] at stepped
      split at stepped
      · cases stepped
      · rename_i conn revents rest next
        obtain ⟨⟨server, log⟩, started, result⟩ := Option.map_eq_some_iff.mp stepped
        cases result
        exact guarded.handleEvent next started

end Guarded

/-- In a run that spares the connections that wait in a batch every channel that
a loop calls is alive. -/
theorem callsAlive_of_run [DecidableEq ι] [Fintype ι] {cfg : Config ι}
    {actions : List (LoopAction ι)} {s : Loops ι}
    {trace : List (LoopAction ι × List (Event ι))}
    (spared : Machine.Along (step cfg) Spares {} actions)
    (ran : Machine.run (step cfg) {} actions = some (s, trace)) : s.CallsAlive := by
  apply Guarded.callsAlive
  refine Machine.run_along (motive := fun _ s => Guarded s) ?_ ?_ spared ran
  · intro _ s a m events guarded spares stepped
    exact guarded.step spares stepped
  · refine ⟨placed_init, ?_, fun t => List.nodup_nil, ?_, ?_⟩
    · intro t conn member
      cases member
    · intro t conn member
      cases member
    · intro t
      exact ⟨fun f member => (by cases member), fun _ _ => trivial⟩

/-! ## A batch of two -/

/-- `false` is the thread of the base loop, `true` that of the only IO loop. -/
def oneLoop : Config Bool := { baseLoop := false }

/-- A batch of one loop: the first connection sends a message, and the second one
has an event as well. -/
def batchOfTwo : List (LoopAction Bool) :=
  List.map .server
    [.handleAccept, .run false 0 (.accepted 7 true), .run false 0 .none, .run false 0 (.accepted 8 true),
      .run false 0 .none, .run false 0 .acceptFailed, .doPendingFunctor true, .run true 0 .none,
      .run true 0 .none, .run true 0 .none, .run true 0 .return, .doPendingFunctor true,
      .run true 0 .none, .run true 0 .none, .run true 0 .none, .run true 0 .return] ++
    [.wait true [({ fd := 7, id := 1, ownerLoop := true }, Channel.epollIn),
        ({ fd := 8, id := 2, ownerLoop := true }, Channel.epollIn)],
      .handleEvent true, .server (.run true 0 .none), .server (.run true 0 (.data [0x61])),
      .server (.run true 0 .none)]

/-- The application answers the message on the connection that sent it. -/
def answers : List (LoopAction Bool) :=
  List.map .server
    [.run true 0 (.call (.send 7 [0x62])), .run true 0 .none, .run true 0 .none, .run true 0 .none,
      .run true 0 (.send (.sent 1)), .run true 0 .none, .run true 0 .return, .run true 0 .none,
      .run true 0 .readAgain]

theorem callsAlive_of_answers :
    ∃ s trace, Machine.run (step oneLoop) {} (batchOfTwo ++ answers) =
        some (s, trace) ∧ s.waiting true = [{ fd := 8, id := 2, ownerLoop := true }] ∧
      s.CallsAlive := by
  have ends : ((Machine.run (step oneLoop) {} (batchOfTwo ++ answers)).any
      fun r => decide (r.1.waiting true = [{ fd := 8, id := 2, ownerLoop := true }])) = true := by
    decide +kernel
  obtain ⟨r, ran, ends⟩ := (Option.any_eq_true _ _).mp ends
  have spared : Machine.Along (step oneLoop) Spares {} (batchOfTwo ++ answers) := by
    decide +kernel
  exact ⟨r.1, r.2, ran, of_decide_eq_true ends, callsAlive_of_run spared ran⟩

/-- The application shuts the other connection down. -/
def shutsDown : List (LoopAction Bool) :=
  List.map .server
    [.run true 0 (.call (.shutdown 8)), .run true 0 .none, .run true 0 .none, .run true 0 .none,
      .run true 0 .none, .run true 0 .none, .run true 0 .return, .run true 0 .none, .run true 0 .return,
      .run true 0 .none, .run true 0 .readAgain]

/-- The loop is about to call the channel of the second connection, which the
message callback of the first one has destroyed. -/
theorem not_callsAlive_shutsDown :
    ¬∀ s trace, Machine.run (step oneLoop) {} (batchOfTwo ++ shutsDown) =
      some (s, trace) → s.CallsAlive := by
  intro alive
  have ends : ((Machine.run (step oneLoop) {} (batchOfTwo ++ shutsDown)).any
      fun r => decide ¬r.1.CallsAlive) = true := by
    decide +kernel
  obtain ⟨r, ran, ends⟩ := (Option.any_eq_true _ _).mp ends
  exact of_decide_eq_true ends (alive r.1 r.2 ran)

end Loops

end TcpServer

end MiniNet
