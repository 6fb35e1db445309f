import MiniNet.TcpServer

/-!
# Which connection a descriptor stands for

The table of connections and all system calls go by descriptor, and the
kernel gives a descriptor away again as soon as it is closed.  `Sound` is what
holds as long as it is not given to a new connection while some thread still
holds an old one with the same number: whatever a thread holds is closed or
still owns its descriptor, and each connection goes once through the stages of
its life, from `accept4` through the table to `::close`.
-/

namespace MiniNet

open Bytes Threads

namespace TcpServer

variable {ι : Type}

/-! ## Events -/

namespace Event

def born? : Event ι → Option (Conn ι)
  | .accepted conn => some conn
  | _ => none

/-- The event concerns one connection only. -/
def Genuine : Event ι → Prop
  | .erased conn entry => entry = conn
  | .closed conn socket => socket = some conn
  | .read conn socket _ => socket = conn
  | .message conn data => ∀ byte ∈ data, byte.1 = conn
  | .wrote conn socket _ => socket = conn
  | _ => True

end Event

/-- The accepted connections, in order. -/
def born (log : List (Event ι)) : List (Conn ι) := log.filterMap Event.born?

def tally (w : Event ι → Nat) (log : List (Event ι)) : Nat := (log.map w).sum

theorem tally_append (w : Event ι → Nat) (log more : List (Event ι)) :
    tally w (log ++ more) = tally w log + tally w more := by
  simp [tally]

theorem born_append (log more : List (Event ι)) :
    born (log ++ more) = born log ++ born more :=
  List.filterMap_append

theorem tally_of_quiet {w : Event ι → Nat} {events : List (Event ι)}
    (quiet : ∀ event ∈ events, w event = 0) : tally w events = 0 := by
  rw [tally, List.sum_eq_zero_iff_forall_eq_nat, List.forall_mem_map]
  exact quiet

theorem tally_ne_zero {w : Event ι → Nat} {log : List (Event ι)} :
    tally w log ≠ 0 ↔ ∃ event ∈ log, w event ≠ 0 := by
  rw [tally, Ne, List.sum_eq_zero_iff_forall_eq_nat, List.forall_mem_map]
  push Not
  rfl

/-! ## What threads hold -/

/-- The connection that the task is about to bring into the table. -/
def Task.carries : Task ι → List (Conn ι)
  | .addConnection conn => [conn]
  | _ => []

/-- The connection that the frame is about to bring into the table, or has
taken out of it and not yet closed. -/
def Frame.carries : Frame ι → List (Conn ι)
  | .runInLoop _ task => task.carries
  | .addConnection conn | .insert conn => [conn]
  | .disableAll conn | .disconnected conn | .close conn => [conn]
  | _ => []

/-- A connection that a thread may hold: its descriptor is closed or its own. -/
def Owned (log : List (Event ι)) (shared : Shared ι) (conn : Conn ι) : Prop :=
  conn ∈ born log ∧
    (shared.kernel conn.fd = none ∨ shared.kernel conn.fd = some conn)

/-- The connection has its descriptor. -/
def Open (shared : Shared ι) (conn : Conn ι) : Prop :=
  shared.kernel conn.fd = some conn

/-- Everything that a frame or task names is owned, and what it carries is
open. -/
def Held (log : List (Event ι)) (shared : Shared ι) (refs carries : List (Conn ι)) :
    Prop :=
  (∀ conn ∈ refs, Owned log shared conn) ∧ ∀ conn ∈ carries, Open shared conn

def AllHeld (log : List (Event ι)) (shared : Shared ι)
    (pool : Pool ι (Frame ι) (Task ι)) : Prop :=
  All (fun f => Held log shared f.refs f.carries)
    (fun k => Held log shared k.refs k.carries) pool

/-- The part of the invariant that is about the shared memory alone. -/
structure Sorted (log : List (Event ι)) (shared : Shared ι) : Prop where
  numbers : (born log).map Conn.id = List.range' 1 (born log).length
  next : shared.nextConnId = (born log).length + 1
  socket : ∀ fd conn, shared.kernel fd = some conn → conn.fd = fd ∧ conn ∈ born log
  entry : ∀ fd conn, shared.conns.lookup fd = some conn →
    conn.fd = fd ∧ shared.kernel fd = some conn
  inBuf : ∀ conn byte, byte ∈ shared.inBuf conn → byte.1 = conn

/-- The step changes neither the table, the descriptors nor the counter. -/
structure SameTables (shared later : Shared ι) : Prop where
  kernel : later.kernel = shared.kernel
  conns : later.conns = shared.conns
  next : later.nextConnId = shared.nextConnId

theorem sameTables_refl (shared : Shared ι) : SameTables shared shared :=
  ⟨rfl, rfl, rfl⟩

section

variable {log : List (Event ι)}

theorem Owned.socket_eq {shared : Shared ι} {conn socket : Conn ι}
    (owned : Owned log shared conn) (found : shared.kernel conn.fd = some socket) :
    socket = conn := by
  rcases owned.2 with closed | own
  · rw [closed] at found
    cases found
  · rw [own] at found
    exact (Option.some.inj found).symm

theorem held_nothing {shared : Shared ι} : Held log shared [] [] := by
  constructor
  · intro conn member
    cases member
  · intro conn member
    cases member

theorem held_one {shared : Shared ι} {conn : Conn ι}
    (known : conn ∈ born log) (isOpen : shared.kernel conn.fd = some conn) :
    Held log shared [conn] [conn] := by
  constructor
  · exact List.forall_mem_singleton.mpr ⟨known, .inr isOpen⟩
  · intro c member
    cases List.mem_singleton.mp member
    exact isOpen

theorem Sorted.fresh {shared : Shared ι} (sorted : Sorted log shared) (fd : Nat)
    (loop : ι) : { fd, id := shared.nextConnId, ownerLoop := loop } ∉ born log := by
  intro member
  have inIds : shared.nextConnId ∈ (born log).map Conn.id :=
    List.mem_map.mpr ⟨_, member, rfl⟩
  rw [sorted.numbers, List.mem_range', sorted.next] at inIds
  obtain ⟨i, inside, equal⟩ := inIds
  omega

end

/-- What is held stays so when the descriptors concerned are left alone; those
of connections that are only named may be closed. -/
theorem Held.later {log more : List (Event ι)} {shared later : Shared ι}
    {refs carries : List (Conn ι)} (held : Held log shared refs carries)
    (named : ∀ conn ∈ refs, later.kernel conn.fd = shared.kernel conn.fd ∨
      later.kernel conn.fd = none)
    (carried : ∀ conn ∈ carries, later.kernel conn.fd = shared.kernel conn.fd) :
    Held (log ++ more) later refs carries := by
  refine ⟨fun conn member => ?_, fun conn member => ?_⟩
  · obtain ⟨known, owns⟩ := held.1 conn member
    rw [Owned, born_append]
    refine ⟨List.mem_append_left _ known, ?_⟩
    rcases named conn member with same | closed
    · rw [same]
      exact owns
    · exact .inl closed
  · exact (carried conn member).trans (held.2 conn member)

theorem Held.of_same {log more : List (Event ι)} {shared later : Shared ι}
    {refs carries : List (Conn ι)} (held : Held log shared refs carries)
    (same : later.kernel = shared.kernel) :
    Held (log ++ more) later refs carries := by
  apply held.later
  · exact fun conn _ => .inl (congrFun same conn.fd)
  · exact fun conn _ => congrFun same conn.fd

theorem AllHeld.of_same {log more : List (Event ι)} {shared later : Shared ι}
    {pool : Pool ι (Frame ι) (Task ι)} (held : AllHeld log shared pool)
    (same : later.kernel = shared.kernel) : AllHeld (log ++ more) later pool :=
  held.mono (fun _ h => h.of_same same) (fun _ h => h.of_same same)

/-! ## Descriptors that are handed out and given back -/

section

variable {log : List (Event ι)} {shared : Shared ι} {conn : Conn ι}

theorem born_accepted (log : List (Event ι)) (conn : Conn ι) :
    born (log ++ [Event.accepted conn]) = born log ++ [conn] := by
  rw [born_append]
  rfl

/-- The shared memory once the kernel has handed out a descriptor. -/
def Shared.accepted (shared : Shared ι) (conn : Conn ι) : Shared ι :=
  { shared with
    nextConnId := shared.nextConnId + 1
    kernel := Function.update shared.kernel conn.fd (some conn) }

theorem kernel_accepted (free : shared.kernel conn.fd = none) {fd : Nat} {c : Conn ι}
    (found : shared.kernel fd = some c) :
    (shared.accepted conn).kernel fd = some c := by
  have other : fd ≠ conn.fd := by
    rintro rfl
    rw [free] at found
    cases found
  exact (Function.update_of_ne other _ _).trans found

theorem Sorted.accepted (sorted : Sorted log shared) (free : shared.kernel conn.fd = none)
    (numbered : conn.id = shared.nextConnId) :
    Sorted (log ++ [Event.accepted conn]) (shared.accepted conn) := by
  have known : conn ∈ born (log ++ [Event.accepted conn]) := by
    rw [born_accepted]
    exact List.mem_append_right _ (List.mem_singleton_self conn)
  have older : ∀ c ∈ born log, c ∈ born (log ++ [Event.accepted conn]) := by
    intro c member
    rw [born_accepted]
    exact List.mem_append_left _ member
  obtain ⟨numbers, next, socket, entry, inBuf⟩ := sorted
  refine ⟨?_, ?_, ?_, ?_, inBuf⟩
  · rw [born_accepted, List.map_append, numbers, List.length_append,
      List.length_singleton, List.range'_concat]
    simp only [List.map_singleton, numbered, next, Nat.one_mul, Nat.add_comm]
  · change shared.nextConnId + 1 = (born (log ++ [Event.accepted conn])).length + 1
    rw [born_accepted, List.length_append, next]
    rfl
  · intro fd c found
    change Function.update shared.kernel conn.fd (some conn) fd = some c at found
    by_cases here : fd = conn.fd
    · rw [here, Function.update_self] at found
      cases found
      exact ⟨here.symm, known⟩
    · rw [Function.update_of_ne here] at found
      obtain ⟨sameFd, member⟩ := socket _ _ found
      exact ⟨sameFd, older c member⟩
  · intro fd c found
    obtain ⟨sameFd, isOpen⟩ := entry fd c found
    exact ⟨sameFd, kernel_accepted free isOpen⟩

theorem Held.accepted {refs carries : List (Conn ι)} (held : Held log shared refs carries)
    (free : shared.kernel conn.fd = none) (others : ∀ c ∈ refs, c.fd ≠ conn.fd) :
    Held (log ++ [Event.accepted conn]) (shared.accepted conn) refs carries := by
  apply held.later
  · exact fun c member => .inl (Function.update_of_ne (others c member) _ _)
  · intro c member
    have isOpen : shared.kernel c.fd = some c := held.2 c member
    rw [isOpen]
    exact kernel_accepted free isOpen

theorem born_closed (log : List (Event ι)) (conn : Conn ι) (owner : Option (Conn ι)) :
    born (log ++ [Event.closed conn owner]) = born log := by
  rw [born_append]
  exact List.append_nil _

/-- The shared memory once the descriptor of a connection is closed. -/
def Shared.closed (shared : Shared ι) (conn : Conn ι) : Shared ι :=
  { shared with kernel := Function.update shared.kernel conn.fd none }

theorem kernel_closed (isOpen : shared.kernel conn.fd = some conn) {c : Conn ι}
    (own : shared.kernel c.fd = some c) (different : c ≠ conn) :
    (shared.closed conn).kernel c.fd = shared.kernel c.fd := by
  refine Function.update_of_ne (fun sameFd => different ?_) _ _
  rw [sameFd, isOpen] at own
  exact (Option.some.inj own).symm

theorem Sorted.closed (sorted : Sorted log shared)
    (isOpen : shared.kernel conn.fd = some conn)
    (notEntry : shared.conns.lookup conn.fd ≠ some conn) (owner : Option (Conn ι)) :
    Sorted (log ++ [Event.closed conn owner]) (shared.closed conn) := by
  obtain ⟨numbers, next, socket, entry, inBuf⟩ := sorted
  refine ⟨?_, ?_, ?_, ?_, inBuf⟩
  · rw [born_closed]
    exact numbers
  · rw [born_closed]
    exact next
  · intro fd c found
    change Function.update shared.kernel conn.fd none fd = some c at found
    rw [born_closed]
    by_cases here : fd = conn.fd
    · rw [here, Function.update_self] at found
      cases found
    · rw [Function.update_of_ne here] at found
      exact socket fd c found
  · intro fd c stored
    obtain ⟨rfl, own⟩ := entry fd c stored
    refine ⟨rfl, (kernel_closed isOpen own ?_).trans own⟩
    rintro rfl
    exact notEntry stored

theorem Held.closed {refs carries : List (Conn ι)} {owner : Option (Conn ι)}
    (held : Held log shared refs carries) (isOpen : shared.kernel conn.fd = some conn)
    (absent : conn ∉ carries) :
    Held (log ++ [Event.closed conn owner]) (shared.closed conn) refs carries := by
  apply held.later
  · intro c member
    by_cases here : c.fd = conn.fd
    · refine .inr ?_
      rw [here]
      exact Function.update_self _ _ _
    · exact .inl (Function.update_of_ne here _ _)
  · intro c member
    exact kernel_closed isOpen (held.2 c member) fun equal => absent (equal ▸ member)

end

variable [DecidableEq ι]

theorem AllHeld.pop {log : List (Event ι)} {shared : Shared ι} {t : ι}
    {pool rest : Pool ι (Frame ι) (Task ι)} {f : Frame ι}
    (held : AllHeld log shared pool) (popped : pop t pool = some (f, rest)) :
    Held log shared f.refs f.carries ∧ AllHeld log shared rest :=
  (all_pop popped).mp held

/-! ## Stages of a connection -/

/-- One if the two are the same connection. -/
def same (conn other : Conn ι) : Nat := if other = conn then 1 else 0

theorem same_self (conn : Conn ι) : same conn conn = 1 := if_pos rfl

theorem same_of_ne {conn other : Conn ι} (different : conn ≠ other) :
    same conn other = 0 := if_neg (Ne.symm different)

def Task.adds (conn : Conn ι) : Task ι → Nat
  | .addConnection other => same conn other
  | _ => 0

def Frame.adds (conn : Conn ι) : Frame ι → Nat
  | .runInLoop _ task => task.adds conn
  | .addConnection other | .insert other => same conn other
  | _ => 0

def Frame.leaves (conn : Conn ι) : Frame ι → Nat
  | .disableAll other | .disconnected other => same conn other
  | _ => 0

def Frame.closes (conn : Conn ι) : Frame ι → Nat
  | .close other => same conn other
  | _ => 0

/-- The number of entries of the table that are this connection. -/
def Shared.entries (shared : Shared ι) (conn : Conn ι) : Nat :=
  if shared.conns.lookup conn.fd = some conn then 1 else 0

namespace Event

def erases (conn : Conn ι) : Event ι → Nat
  | .erased _ entry => same conn entry
  | _ => 0

def disconnects (conn : Conn ι) : Event ι → Nat
  | .disconnected other => same conn other
  | _ => 0

def closes (conn : Conn ι) : Event ι → Nat
  | .closed other _ => same conn other
  | _ => 0

/-- The event neither brings a connection nor takes one out of the table. -/
def Quiet (event : Event ι) : Prop :=
  event.born? = none ∧ ∀ conn, event.erases conn = 0

end Event

theorem born_of_quiet {events : List (Event ι)} (quiet : ∀ event ∈ events, event.Quiet) :
    born events = [] := by
  rw [born, List.filterMap_eq_nil_iff]
  intro event member
  exact (quiet event member).1

/-- A frame carries a connection exactly when it counts for one of its stages. -/
theorem Frame.carries_iff (f : Frame ι) (conn : Conn ι) :
    conn ∉ f.carries ↔ f.adds conn = 0 ∧ f.leaves conn = 0 ∧ f.closes conn = 0 := by
  rcases f with _ | ⟨_, _ | _ | _⟩ | _ | _ | _ | _ | _ | _ | _ | _ | _ | _ | _ | _ |
    _ | _ | _ | _ | _ | _ <;>
  simp [Frame.carries, Task.carries, Frame.adds, Task.adds, Frame.leaves,
    Frame.closes, same, eq_comm]

theorem Task.carries_iff (k : Task ι) (conn : Conn ι) :
    conn ∉ k.carries ↔ k.adds conn = 0 := by
  cases k <;> simp [Task.carries, Task.adds, same, eq_comm]

theorem forall_mem_pair {α : Type} {p : α → Prop} {x y : α} (first : p x)
    (second : p y) : ∀ z ∈ [x, y], p z :=
  List.forall_mem_cons.mpr ⟨first, List.forall_mem_singleton.mpr second⟩

theorem sum_map_eq_zero {α : Type} {xs : List α} {w : α → Nat}
    (zero : ∀ x ∈ xs, w x = 0) : (xs.map w).sum = 0 := by
  rw [List.sum_eq_zero_iff_forall_eq_nat, List.forall_mem_map]
  exact zero

/-- Each accepted connection is at one stage of its life. -/
structure Staged [Fintype ι] (log : List (Event ι)) (s : State ι)
    (conn : Conn ι) : Prop where
  once : weight (Frame.adds conn) (Task.adds conn) s.pool + s.shared.entries conn +
      tally (Event.erases conn) log = if conn ∈ born log then 1 else 0
  left : tally (Event.erases conn) log = tally (Event.disconnects conn) log +
      weight (Frame.leaves conn) (fun _ => 0) s.pool
  closed : tally (Event.erases conn) log = tally (Event.closes conn) log +
      weight (Frame.leaves conn) (fun _ => 0) s.pool +
      weight (Frame.closes conn) (fun _ => 0) s.pool

structure Sound [Fintype ι] (log : List (Event ι)) (s : State ι) : Prop where
  sorted : Sorted log s.shared
  held : AllHeld log s.shared s.pool
  staged : ∀ conn, Staged log s conn
  genuine : ∀ event ∈ log, event.Genuine

/-! ## Putting frames and tasks back -/

theorem all_apply {p : Frame ι → Prop} {q : Task ι → Prop} {t : ι}
    {rest : Pool ι (Frame ι) (Task ι)} {effect : Effect ι} :
    All p q (apply t rest effect).pool ↔
      (∀ f ∈ effect.next, p f) ∧ (∀ x ∈ effect.queued, q x.2) ∧ All p q rest := by
  unfold TcpServer.apply
  split
  · rename_i noTask
    rw [all_push, noTask]
    simp
  · rename_i loop task queued
    rw [all_enqueue, all_push, queued]
    simp only [Option.mem_def, Option.some.injEq, forall_eq']
    tauto

@[simp]
theorem shared_apply (t : ι) (rest : Pool ι (Frame ι) (Task ι)) (effect : Effect ι) :
    (apply t rest effect).shared = effect.shared := by
  unfold TcpServer.apply
  split <;> rfl

section

variable [Fintype ι]

theorem weight_apply {w : Frame ι → Nat} {v : Task ι → Nat} {t : ι}
    {rest : Pool ι (Frame ι) (Task ι)} {effect : Effect ι} :
    weight w v (apply t rest effect).pool =
      (effect.next.map w).sum + (effect.queued.elim 0 fun x => v x.2) +
        weight w v rest := by
  unfold TcpServer.apply
  split
  · rename_i noTask
    rw [weight_push, noTask]
    rfl
  · rename_i loop task queued
    rw [weight_enqueue, weight_push, queued]
    simp only [Option.elim_some]
    omega

theorem sound_init : Sound [] ({} : State ι) where
  sorted := by
    refine ⟨rfl, rfl, ?_, ?_, ?_⟩
    · intro fd conn found
      cases found
    · intro fd conn found
      cases found
    · intro conn byte member
      cases member
  held := all_empty
  staged conn := by
    have none : ∀ w v, weight w v ({} : State ι).pool = 0 := fun w v =>
      weight_eq_zero_iff.mpr all_empty
    refine ⟨?_, ?_, ?_⟩
    · rw [none]
      rfl
    · rw [none]
      rfl
    · rw [none, none]
      rfl
  genuine event member := by cases member

/-- What a step has to respect for the counts of one connection. -/
structure Balanced (log : List (Event ι)) (shared : Shared ι) (f : Frame ι)
    (effect : Effect ι) (conn : Conn ι) : Prop where
  once : (effect.next.map (Frame.adds conn)).sum +
      (effect.queued.elim 0 fun x => x.2.adds conn) + effect.shared.entries conn +
      tally (Event.erases conn) effect.events +
      (if conn ∈ born log then 1 else 0) =
    f.adds conn + shared.entries conn +
      if conn ∈ born (log ++ effect.events) then 1 else 0
  left : tally (Event.erases conn) effect.events + f.leaves conn =
    tally (Event.disconnects conn) effect.events +
      (effect.next.map (Frame.leaves conn)).sum
  closed : tally (Event.erases conn) effect.events + f.leaves conn + f.closes conn =
    tally (Event.closes conn) effect.events +
      (effect.next.map (Frame.leaves conn)).sum +
      (effect.next.map (Frame.closes conn)).sum

theorem Staged.apply {log : List (Event ι)} {s : State ι} {conn : Conn ι}
    (staged : Staged log s conn) {t : ι} {f : Frame ι}
    {rest : Pool ι (Frame ι) (Task ι)} (popped : pop t s.pool = some (f, rest))
    {effect : Effect ι} (balanced : Balanced log s.shared f effect conn) :
    Staged (log ++ effect.events) (apply t rest effect) conn := by
  have noTasks : (effect.queued.elim 0 fun _ => 0) = 0 := by
    cases effect.queued <;> rfl
  obtain ⟨once, left, closed⟩ := staged
  rw [weight_pop popped] at once left closed
  rw [weight_pop popped] at closed
  obtain ⟨once', left', closed'⟩ := balanced
  constructor
  · rw [weight_apply, shared_apply, tally_append]
    omega
  · rw [weight_apply, tally_append, tally_append, noTasks]
    omega
  · rw [weight_apply, weight_apply, tally_append, tally_append, noTasks]
    omega

theorem Sound.apply {log : List (Event ι)} {s : State ι} (sound : Sound log s)
    {t : ι} {f : Frame ι} {rest : Pool ι (Frame ι) (Task ι)}
    (popped : pop t s.pool = some (f, rest)) {effect : Effect ι}
    (sorted : Sorted (log ++ effect.events) effect.shared)
    (heldRest : AllHeld (log ++ effect.events) effect.shared rest)
    (heldNext : ∀ g ∈ effect.next,
      Held (log ++ effect.events) effect.shared g.refs g.carries)
    (heldQueued : ∀ x ∈ effect.queued,
      Held (log ++ effect.events) effect.shared x.2.refs x.2.carries)
    (balanced : ∀ conn, Balanced log s.shared f effect conn)
    (genuine : ∀ event ∈ effect.events, event.Genuine) :
    Sound (log ++ effect.events) (TcpServer.apply t rest effect) where
  sorted := by rwa [shared_apply]
  held := by
    rw [AllHeld, shared_apply, all_apply]
    exact ⟨heldNext, heldQueued, heldRest⟩
  staged conn := (sound.staged conn).apply popped (balanced conn)
  genuine event member := by
    rcases List.mem_append.mp member with old | new
    · exact sound.genuine event old
    · exact genuine event new

/-! ## Steps that leave the tables alone -/

/-- A step that only moves a connection on within its life, if at all. -/
theorem Sound.steady {log : List (Event ι)} {s : State ι} (sound : Sound log s)
    {t : ι} {f : Frame ι} {rest : Pool ι (Frame ι) (Task ι)}
    (popped : pop t s.pool = some (f, rest)) {effect : Effect ι}
    (tables : SameTables s.shared effect.shared)
    (inBuf : ∀ conn byte, byte ∈ effect.shared.inBuf conn → byte.1 = conn)
    (heldNext : ∀ g ∈ effect.next, Held log s.shared g.refs g.carries)
    (heldQueued : ∀ x ∈ effect.queued, Held log s.shared x.2.refs x.2.carries)
    (events : ∀ event ∈ effect.events, event.Quiet ∧ event.Genuine)
    (adds : ∀ conn, (effect.next.map (Frame.adds conn)).sum +
      (effect.queued.elim 0 fun x => x.2.adds conn) = f.adds conn)
    (leaves : ∀ conn, tally (Event.disconnects conn) effect.events +
      (effect.next.map (Frame.leaves conn)).sum = f.leaves conn)
    (closes : ∀ conn, tally (Event.closes conn) effect.events +
        (effect.next.map (Frame.leaves conn)).sum +
        (effect.next.map (Frame.closes conn)).sum =
      f.leaves conn + f.closes conn) :
    Sound (log ++ effect.events) (TcpServer.apply t rest effect) := by
  have quiet : ∀ event ∈ effect.events, event.Quiet :=
    fun event member => (events event member).1
  have sameBorn : born (log ++ effect.events) = born log := by
    rw [born_append, born_of_quiet quiet, List.append_nil]
  obtain ⟨numbers, next, socket, entry, _⟩ := sound.sorted
  apply sound.apply popped
  · refine ⟨?_, ?_, ?_, ?_, inBuf⟩
    · rw [sameBorn]
      exact numbers
    · rw [sameBorn, tables.next]
      exact next
    · rw [sameBorn, tables.kernel]
      exact socket
    · rw [tables.conns, tables.kernel]
      exact entry
  · exact (sound.held.pop popped).2.of_same tables.kernel
  · exact fun g member => (heldNext g member).of_same tables.kernel
  · exact fun x member => (heldQueued x member).of_same tables.kernel
  · intro conn
    have erased := tally_of_quiet fun e member => (quiet e member).2 conn
    have sameEntries : effect.shared.entries conn = s.shared.entries conn := by
      rw [Shared.entries, Shared.entries, tables.conns]
    have added := adds conn
    have leaving := leaves conn
    have closing := closes conn
    constructor
    · rw [sameBorn, sameEntries, erased]
      omega
    · rw [erased]
      omega
    · rw [erased]
      omega
  · exact fun event member => (events event member).2

/-- What a step may do that has to do with no stage of any connection. -/
structure Plain (log : List (Event ι)) (s : State ι) (effect : Effect ι) : Prop where
  tables : SameTables s.shared effect.shared
  inBuf : ∀ conn byte, byte ∈ effect.shared.inBuf conn → byte.1 = conn
  next : ∀ g ∈ effect.next, g.carries = [] ∧ ∀ conn ∈ g.refs, Owned log s.shared conn
  queued : ∀ x ∈ effect.queued,
    x.2.carries = [] ∧ ∀ conn ∈ x.2.refs, Owned log s.shared conn
  events : ∀ event ∈ effect.events, event.Quiet ∧ event.Genuine ∧
    ∀ conn, event.disconnects conn = 0 ∧ event.closes conn = 0

theorem Sound.plain {log : List (Event ι)} {s : State ι} (sound : Sound log s)
    {t : ι} {f : Frame ι} {rest : Pool ι (Frame ι) (Task ι)}
    (popped : pop t s.pool = some (f, rest)) (noStage : f.carries = [])
    {effect : Effect ι} (plain : Plain log s effect) :
    Sound (log ++ effect.events) (TcpServer.apply t rest effect) := by
  have counts : ∀ conn, f.adds conn = 0 ∧ f.leaves conn = 0 ∧ f.closes conn = 0 :=
    fun conn => (f.carries_iff conn).mp (noStage ▸ List.not_mem_nil)
  have nextCounts : ∀ conn, ∀ g ∈ effect.next,
      g.adds conn = 0 ∧ g.leaves conn = 0 ∧ g.closes conn = 0 :=
    fun conn g member => (g.carries_iff conn).mp
      ((plain.next g member).1 ▸ List.not_mem_nil)
  have nothing : ∀ {refs carries : List (Conn ι)}, carries = [] ∧
      (∀ conn ∈ refs, Owned log s.shared conn) → Held log s.shared refs carries := by
    rintro refs _ ⟨rfl, owned⟩
    exact ⟨owned, fun conn member => by cases member⟩
  have leaving : ∀ conn, (effect.next.map (Frame.leaves conn)).sum = 0 :=
    fun conn => sum_map_eq_zero fun g member => (nextCounts conn g member).2.1
  apply sound.steady popped plain.tables plain.inBuf
  · exact fun g member => nothing (plain.next g member)
  · exact fun x member => nothing (plain.queued x member)
  · exact fun event member => ⟨(plain.events event member).1,
      (plain.events event member).2.1⟩
  · intro conn
    have queued : (effect.queued.elim 0 fun x => x.2.adds conn) = 0 := by
      cases task : effect.queued with
      | none => rfl
      | some x =>
          exact (x.2.carries_iff conn).mp ((plain.queued x task).1 ▸ List.not_mem_nil)
    rw [sum_map_eq_zero fun g member => (nextCounts conn g member).1, queued,
      (counts conn).1]
  · intro conn
    rw [leaving, (counts conn).2.1, tally_of_quiet fun event member =>
      ((plain.events event member).2.2 conn).1]
  · intro conn
    rw [leaving, (counts conn).2.1, (counts conn).2.2,
      sum_map_eq_zero fun g member => (nextCounts conn g member).2.2,
      tally_of_quiet fun event member => ((plain.events event member).2.2 conn).2]

end

end TcpServer

end MiniNet
