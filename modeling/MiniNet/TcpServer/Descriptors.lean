import MiniNet.TcpServer.Identity
import MiniNet.TcpServer.Placement

/-!
# Every open descriptor has one owner

Between `accept4` and `::close` a descriptor is in the hands of exactly one
party: of whoever brings its connection to the table, of the table, or of
whoever has taken an entry out of the table and is going to close it.  This
needs no proviso about descriptor numbers that are used again: a stale close
may take out another connection than its own, but it takes out one entry and
closes one descriptor.  So none is leaked and none is closed twice.
-/

namespace MiniNet

open Bytes Threads

namespace TcpServer

variable {ι : Type}

/-! ## Who holds a descriptor -/

/-- One if the descriptor of the connection is among those that are counted. -/
def counts (p : Nat → Bool) (conn : Conn ι) : Nat := (p conn.fd).toNat

theorem counts_eq (conn : Conn ι) (fd : Nat) :
    counts (· == fd) conn = if fd = conn.fd then 1 else 0 := by
  unfold counts
  split
  · rename_i same
    simp [same]
  · rename_i other
    simp [Ne.symm other]

/-- The task is going to bring a connection to the table. -/
def Task.bringing (p : Nat → Bool) : Task ι → Nat
  | .addConnection conn => counts p conn
  | _ => 0

/-- The frame is going to bring a connection to the table. -/
def Frame.bringing (p : Nat → Bool) : Frame ι → Nat
  | .runInLoop _ task => task.bringing p
  | .addConnection conn | .insert conn => counts p conn
  | _ => 0

/-- The frame has taken an entry out of the table and is going to close its
descriptor. -/
def Frame.removing (p : Nat → Bool) : Frame ι → Nat
  | .disableAll conn | .disconnected conn | .close conn => counts p conn
  | _ => 0

/-- The connection is in the table, and the frame is going to count it. -/
def Frame.counting : Frame ι → Nat
  | .connected _ => 1
  | _ => 0

/-- `aliveConnections()`. -/
def aliveConnections (s : State ι) : Nat := s.shared.conns.keys.length

/-- `totalConnections()`. -/
def totalConnections (s : State ι) : Nat := s.shared.connCount

/-! ## What a step does about the descriptors -/

namespace Event

/-- The connection whose close has taken an entry out of the table. -/
def taken? : Event ι → Option (Conn ι)
  | .erased conn _ => some conn
  | _ => none

/-- The connection whose close has closed a descriptor. -/
def shut? : Event ι → Option (Conn ι)
  | .closed conn _ => some conn
  | _ => none

/-- The event has nothing to do with the descriptors. -/
def Aside (event : Event ι) : Prop :=
  event.born? = none ∧ event.taken? = none ∧ event.shut? = none

end Event

/-- The steps that hand a descriptor on, and all others. -/
inductive Hands [DecidableEq ι] (s : State ι) : Frame ι → Effect ι → Prop where
  | nothing {f : Frame ι} {effect : Effect ι} (tables : SameTables s.shared effect.shared)
      (count : effect.shared.connCount = s.shared.connCount)
      (brings : ∀ p, (effect.next.map (Frame.bringing p)).sum +
        (effect.queued.elim 0 fun x => x.2.bringing p) = f.bringing p)
      (removes : ∀ p, (effect.next.map (Frame.removing p)).sum = f.removing p)
      (waits : (effect.next.map Frame.counting).sum = f.counting)
      (aside : ∀ event ∈ effect.events, event.Aside) : Hands s f effect
  | accepts (conn : Conn ι) (next : Nat) (free : s.shared.kernel conn.fd = none) :
      Hands s .accept
        { shared := { s.shared with
            nextConnId := next
            kernel := Function.update s.shared.kernel conn.fd (some conn) }
          next := [.runInLoop conn.ownerLoop (.addConnection conn), .accept]
          events := [.accepted conn] }
  | inserts (conn : Conn ι) :
      Hands s (.insert conn)
        { shared := { s.shared with conns := s.shared.conns.insert conn.fd conn }
          next := [.connected conn] }
  | counted (conn : Conn ι) :
      Hands s (.connected conn)
        { shared := { s.shared with connCount := s.shared.connCount + 1 }
          next := [.app]
          events := [.connected conn] }
  | erases (conn entry : Conn ι) (reason : Reason)
      (found : s.shared.conns.lookup conn.fd = some entry) :
      Hands s (.closeConnInLoop conn reason)
        { shared := { s.shared with conns := s.shared.conns.erase conn.fd }
          next := [.disableAll conn]
          events := [.erased conn entry] }
  | closes (conn : Conn ι) :
      Hands s (.close conn)
        { shared := { s.shared with
            kernel := Function.update s.shared.kernel conn.fd none }
          events := [.closed conn (s.shared.kernel conn.fd)] }

theorem filterMap_aside {events : List (Event ι)} (aside : ∀ event ∈ events, event.Aside) :
    born events = [] ∧ events.filterMap Event.taken? = [] ∧
      events.filterMap Event.shut? = [] := by
  refine ⟨?_, ?_, ?_⟩ <;> refine List.filterMap_eq_nil_iff.mpr fun event member => ?_
  · exact (aside event member).1
  · exact (aside event member).2.1
  · exact (aside event member).2.2

private theorem aside_nothing : ∀ event ∈ ([] : List (Event ι)), event.Aside :=
  fun _ member => absurd member List.not_mem_nil

private theorem aside_one {event : Event ι} (aside : event.Aside) :
    ∀ other ∈ [event], other.Aside :=
  List.forall_mem_singleton.mpr aside

section

variable [DecidableEq ι] {t : ι} {now : Int} {input : Input ι} {effect : Effect ι}
  {s : State ι}

/-- A step that leaves the tables and whatever is on its way alone. -/
theorem Hands.aside {f : Frame ι} {shared : Shared ι} {next : List (Frame ι)}
    {events : List (Event ι)} (tables : SameTables s.shared shared)
    (count : shared.connCount = s.shared.connCount)
    (brings : ∀ p, (next.map (Frame.bringing p)).sum = f.bringing p)
    (removes : ∀ p, (next.map (Frame.removing p)).sum = f.removing p)
    (waits : (next.map Frame.counting).sum = f.counting)
    (aside : ∀ event ∈ events, event.Aside) :
    Hands s f { shared, next, events } :=
  .nothing tables count brings removes waits aside

theorem hands_read {conn : Conn ι}
    (done : execRead s.shared conn now input = some effect) :
    Hands s (.read conn) effect := by
  unfold execRead at done
  split at done
  · split at done
    · split at done <;> cases done
      exact .aside ⟨rfl, rfl, rfl⟩ rfl (fun _ => rfl) (fun _ => rfl) rfl
        (aside_one ⟨rfl, rfl, rfl⟩)
    · cases done
  · split at done <;> cases done
    exact .aside ⟨rfl, rfl, rfl⟩ rfl (fun _ => rfl) (fun _ => rfl) rfl aside_nothing
  · split at done <;> cases done
    exact .aside ⟨rfl, rfl, rfl⟩ rfl (fun _ => rfl) (fun _ => rfl) rfl aside_nothing
  · cases done
    exact .aside ⟨rfl, rfl, rfl⟩ rfl (fun _ => rfl) (fun _ => rfl) rfl aside_nothing
  · cases done
    exact .aside ⟨rfl, rfl, rfl⟩ rfl (fun _ => rfl) (fun _ => rfl) rfl aside_nothing
  · cases done

theorem hands_flush {conn : Conn ι} {result : Option SendResult}
    (done : execFlush s.shared conn result = some effect) :
    Hands s (.flushWrite conn) effect := by
  obtain ⟨⟨state, flush⟩, _, continued⟩ := Option.bind_eq_some_iff.mp done
  have brings : ∀ p, ((flushFrames conn flush).map (Frame.bringing p)).sum = 0 := by
    intro p
    cases flush <;> rfl
  have removes : ∀ p, ((flushFrames conn flush).map (Frame.removing p)).sum = 0 := by
    intro p
    cases flush <;> rfl
  have waits : ((flushFrames conn flush).map Frame.counting).sum = 0 := by
    cases flush <;> rfl
  dsimp only at continued
  split at continued <;> cases continued
  · exact .aside ⟨rfl, rfl, rfl⟩ rfl brings removes waits (aside_one ⟨rfl, rfl, rfl⟩)
  · exact .aside ⟨rfl, rfl, rfl⟩ rfl brings removes waits aside_nothing

theorem hands_exec [Fintype ι] {cfg : Config ι} {f : Frame ι}
    (done : exec cfg s t now f input = some effect) : Hands s f effect := by
  unfold exec at done
  split at done
  case h_1 fd loop =>
    split at done <;> cases done
    rename_i free
    exact .accepts { fd, id := s.shared.nextConnId, ownerLoop := loop } _ free
  case h_4 loop task =>
    split at done <;> cases done
    · refine .aside ⟨rfl, rfl, rfl⟩ rfl (fun p => ?_) (fun p => ?_) ?_ aside_nothing
      · cases task <;> rfl
      · cases task <;> rfl
      · cases task <;> rfl
    · exact .nothing ⟨rfl, rfl, rfl⟩ rfl (fun _ => Nat.zero_add _) (fun _ => rfl) rfl
        aside_nothing
  case h_6 =>
    cases done
    exact .inserts _
  case h_9 => exact hands_read done
  case h_17 => exact hands_flush done
  case h_18 => exact hands_flush done
  case h_20 =>
    split at done <;> cases done
    · exact .aside ⟨rfl, rfl, rfl⟩ rfl (fun _ => rfl) (fun _ => rfl) rfl aside_nothing
    · rename_i found
      exact .erases _ _ _ found
  case h_23 =>
    cases done
    exact .closes _
  case h_22 =>
    cases done
    exact .aside ⟨rfl, rfl, rfl⟩ rfl (fun _ => rfl) (fun _ => Nat.zero_add _) rfl
      (aside_one ⟨rfl, rfl, rfl⟩)
  case h_7 =>
    cases done
    exact .counted _
  case h_10 =>
    cases done
    exact .aside ⟨rfl, rfl, rfl⟩ rfl (fun _ => rfl) (fun _ => rfl) rfl (aside_one ⟨rfl, rfl, rfl⟩)
  case h_8 which conn =>
    split at done <;> cases done
    · cases which <;>
        exact .aside ⟨rfl, rfl, rfl⟩ rfl (fun _ => rfl) (fun _ => rfl) rfl aside_nothing
    · exact .aside ⟨rfl, rfl, rfl⟩ rfl (fun _ => rfl) (fun _ => rfl) rfl aside_nothing
  case h_16 =>
    cases done
    split <;> exact .aside ⟨rfl, rfl, rfl⟩ rfl (fun _ => rfl) (fun _ => rfl) rfl aside_nothing
  all_goals
    (try split at done) <;> cases done <;>
      exact .aside ⟨rfl, rfl, rfl⟩ rfl (fun _ => rfl) (fun _ => rfl) rfl aside_nothing

end

/-! ## The books -/

private theorem length_filterMap_concat {α β : Type} (f : α → Option β) (xs : List α) (x : α) :
    ((xs ++ [x]).filterMap f).length = (xs.filterMap f).length + (f x).toList.length := by
  rw [List.filterMap_append, List.length_append]
  cases found : f x with
  | none => rw [List.filterMap_cons_none found]; rfl
  | some y => rw [List.filterMap_cons_some found]; rfl

/-- `brings` and `removes` count the connections on their way to the table and
from there to `::close`, and `waits` those in the table whose `fetch_add` is still
to come; `log` is what the run has shown. -/
structure Books [DecidableEq ι] (log : List (Event ι)) (shared : Shared ι)
    (brings removes : (Nat → Bool) → Nat) (waits : Nat) : Prop where
  owned : ∀ fd, (shared.conns.lookup fd).isSome.toNat + brings (· == fd) +
    removes (· == fd) = (shared.kernel fd).isSome.toNat
  accepted : (born log).length = shared.connCount + waits + brings fun _ => true
  alive : shared.conns.keys.length + (log.filterMap Event.taken?).length =
    shared.connCount + waits
  shut : (log.filterMap Event.taken?).length =
    (log.filterMap Event.shut?).length + removes fun _ => true
  wasOpen : ∀ conn socket, .closed conn socket ∈ log → socket ≠ none

section

variable [DecidableEq ι] {log : List (Event ι)} {shared : Shared ι}
  {brings removes brings' removes' : (Nat → Bool) → Nat} {waits waits' : Nat}

/-- A step of which the descriptors notice nothing. -/
theorem Books.nothing (books : Books log shared brings removes waits) {later : Shared ι}
    {events : List (Event ι)} (tables : SameTables shared later)
    (count : later.connCount = shared.connCount) (aside : ∀ event ∈ events, event.Aside)
    (way : ∀ p, brings' p = brings p) (out : ∀ p, removes' p = removes p)
    (wait : waits' = waits) : Books (log ++ events) later brings' removes' waits' := by
  obtain ⟨noBirth, noneTaken, noneShut⟩ := filterMap_aside aside
  constructor
  · intro fd
    rw [way, out, tables.conns, tables.kernel]
    exact books.owned fd
  · rw [born_append, noBirth, List.append_nil, way, wait, count]
    exact books.accepted
  · rw [List.filterMap_append, noneTaken, List.append_nil, tables.conns, wait, count]
    exact books.alive
  · rw [List.filterMap_append, List.filterMap_append, noneTaken, noneShut, List.append_nil,
      List.append_nil, out]
    exact books.shut
  · intro conn socket member
    rcases List.mem_append.mp member with old | new
    · exact books.wasOpen conn socket old
    · cases (aside _ new).2.2

theorem Books.accepts (books : Books log shared brings removes waits) (conn : Conn ι) (next : Nat)
    (free : shared.kernel conn.fd = none) (way : ∀ p, brings' p = counts p conn + brings p)
    (out : ∀ p, removes' p = removes p) (wait : waits' = waits) :
    Books (log ++ [.accepted conn])
      { shared with
        nextConnId := next
        kernel := Function.update shared.kernel conn.fd (some conn) }
      brings' removes' waits' := by
  subst wait
  constructor
  · intro fd
    have owned := books.owned fd
    dsimp only
    rw [way, out, counts_eq]
    by_cases here : fd = conn.fd
    · subst here
      rw [free, Option.isSome_none, Bool.toNat_false] at owned
      rw [if_pos rfl, Function.update_self, Option.isSome_some, Bool.toNat_true]
      omega
    · rw [if_neg here, Function.update_of_ne here]
      omega
  · have before := books.accepted
    have one : counts (fun _ => true) conn = 1 := rfl
    dsimp only
    rw [born_accepted, List.length_append, List.length_singleton, way, one]
    omega
  · rw [length_filterMap_concat]
    exact books.alive
  · rw [length_filterMap_concat, length_filterMap_concat, out]
    exact books.shut
  · intro other socket member
    rcases List.mem_append.mp member with old | new
    · exact books.wasOpen other socket old
    · cases List.mem_singleton.mp new

/-- Whoever inserts has the descriptor, so that no entry is overwritten. -/
theorem Books.inserts (books : Books log shared brings removes waits) (conn : Conn ι)
    (way : ∀ p, brings' p + counts p conn = brings p) (out : ∀ p, removes' p = removes p)
    (wait : waits' = 1 + waits) :
    Books log { shared with conns := shared.conns.insert conn.fd conn }
      brings' removes' waits' := by
  have one : counts (fun _ => true) conn = 1 := rfl
  have owned := books.owned conn.fd
  have moved := way (· == conn.fd)
  rw [counts_eq, if_pos rfl] at moved
  have absent : shared.conns.lookup conn.fd = none := by
    cases found : shared.conns.lookup conn.fd with
    | none => rfl
    | some entry =>
        rw [found, Option.isSome_some, Bool.toNat_true] at owned
        have atMost := Bool.toNat_le (shared.kernel conn.fd).isSome
        omega
  constructor
  · intro fd
    have before := books.owned fd
    have left := way (· == fd)
    rw [counts_eq] at left
    dsimp only
    rw [out]
    by_cases here : fd = conn.fd
    · subst here
      rw [if_pos rfl] at left
      rw [absent, Option.isSome_none, Bool.toNat_false] at before
      rw [AList.lookup_insert, Option.isSome_some, Bool.toNat_true]
      omega
    · rw [if_neg here] at left
      rw [AList.lookup_insert_ne here]
      omega
  · have before := books.accepted
    have left := way fun _ => true
    dsimp only
    omega
  · have missing : conn.fd ∉ shared.conns.keys := by
      rw [← AList.mem_keys, ← AList.lookup_isSome, absent]
      exact Bool.false_ne_true
    have before := books.alive
    dsimp only
    rw [AList.keys_insert, List.length_cons, List.erase_of_not_mem missing]
    omega
  · rw [out]
    exact books.shut
  · exact books.wasOpen

/-- The counter takes over what was waiting for it. -/
theorem Books.counted (books : Books log shared brings removes waits) (conn : Conn ι)
    (way : ∀ p, brings' p = brings p) (out : ∀ p, removes' p = removes p)
    (wait : waits' + 1 = waits) :
    Books (log ++ [.connected conn]) { shared with connCount := shared.connCount + 1 }
      brings' removes' waits' := by
  constructor
  · intro fd
    rw [way, out]
    exact books.owned fd
  · have before := books.accepted
    rw [born, length_filterMap_concat, way]
    change _ + 0 = _
    dsimp only
    rw [← born]
    omega
  · have before := books.alive
    rw [length_filterMap_concat]
    change _ + (_ + 0) = _
    dsimp only
    omega
  · rw [length_filterMap_concat, length_filterMap_concat, out]
    exact books.shut
  · intro other socket member
    rcases List.mem_append.mp member with old | new
    · exact books.wasOpen other socket old
    · cases List.mem_singleton.mp new

theorem Books.erases (books : Books log shared brings removes waits) (conn entry : Conn ι)
    (found : shared.conns.lookup conn.fd = some entry) (way : ∀ p, brings' p = brings p)
    (out : ∀ p, removes' p = counts p conn + removes p) (wait : waits' = waits) :
    Books (log ++ [.erased conn entry])
      { shared with conns := shared.conns.erase conn.fd } brings' removes' waits' := by
  subst wait
  have one : counts (fun _ => true) conn = 1 := rfl
  constructor
  · intro fd
    have before := books.owned fd
    dsimp only
    rw [way, out, counts_eq]
    by_cases here : fd = conn.fd
    · subst here
      rw [found, Option.isSome_some, Bool.toNat_true] at before
      rw [if_pos rfl, AList.lookup_erase, Option.isSome_none, Bool.toNat_false]
      omega
    · rw [if_neg here, AList.lookup_erase_ne here]
      omega
  · rw [born, length_filterMap_concat, way]
    exact books.accepted
  · have present : conn.fd ∈ shared.conns.keys := by
      rw [← AList.mem_keys, ← AList.lookup_isSome, found]
      rfl
    have some_entry := List.length_pos_of_mem present
    have before := books.alive
    dsimp only
    rw [AList.keys_erase, List.length_erase_of_mem present, length_filterMap_concat]
    change _ + (_ + 1) = _
    omega
  · have before := books.shut
    rw [out, one, length_filterMap_concat, length_filterMap_concat]
    change _ + 1 = _ + 0 + _
    omega
  · intro other socket member
    rcases List.mem_append.mp member with old | new
    · exact books.wasOpen other socket old
    · cases List.mem_singleton.mp new

/-- Whoever closes has the descriptor, so that it is still open. -/
theorem Books.closes (books : Books log shared brings removes waits) (conn : Conn ι)
    (way : ∀ p, brings' p = brings p) (out : ∀ p, removes' p + counts p conn = removes p)
    (wait : waits' = waits) :
    Books (log ++ [.closed conn (shared.kernel conn.fd)])
      { shared with kernel := Function.update shared.kernel conn.fd none }
      brings' removes' waits' := by
  subst wait
  have one : counts (fun _ => true) conn = 1 := rfl
  have owned := books.owned conn.fd
  have moved := out (· == conn.fd)
  rw [counts_eq, if_pos rfl] at moved
  have isOpen : shared.kernel conn.fd ≠ none := by
    intro closed
    rw [closed, Option.isSome_none, Bool.toNat_false] at owned
    omega
  constructor
  · intro fd
    have before := books.owned fd
    have left := out (· == fd)
    rw [counts_eq] at left
    dsimp only
    rw [way]
    by_cases here : fd = conn.fd
    · subst here
      have atMost := Bool.toNat_le (shared.kernel conn.fd).isSome
      rw [if_pos rfl] at left
      rw [Function.update_self, Option.isSome_none, Bool.toNat_false]
      omega
    · rw [if_neg here] at left
      rw [Function.update_of_ne here]
      omega
  · rw [born, length_filterMap_concat, way]
    exact books.accepted
  · rw [length_filterMap_concat]
    exact books.alive
  · have before := books.shut
    have left := out fun _ => true
    rw [one] at left
    rw [length_filterMap_concat, length_filterMap_concat]
    change _ + 0 = _ + 1 + _
    omega
  · intro other socket member
    rcases List.mem_append.mp member with old | new
    · exact books.wasOpen other socket old
    · cases List.mem_singleton.mp new
      exact isOpen

end

section

variable [Fintype ι]

/-- The connections on their way to the table. -/
def bringing (pool : Pool ι (Frame ι) (Task ι)) (p : Nat → Bool) : Nat :=
  weight (Frame.bringing p) (Task.bringing p) pool

/-- The connections on their way from the table to `::close`. -/
def removing (pool : Pool ι (Frame ι) (Task ι)) (p : Nat → Bool) : Nat :=
  weight (Frame.removing p) (fun _ => 0) pool

/-- The connections that are in the table and not counted yet. -/
def counting (pool : Pool ι (Frame ι) (Task ι)) : Nat :=
  weight Frame.counting (fun _ => 0) pool

variable [DecidableEq ι]

/-- Who has the descriptor in their hands. -/
def owners (s : State ι) (fd : Nat) : Nat :=
  (s.shared.conns.lookup fd).isSome.toNat + bringing s.pool (· == fd) +
    removing s.pool (· == fd)

/-- The books agree with what is in the hands of the threads. -/
def Ledger (log : List (Event ι)) (s : State ι) : Prop :=
  Books log s.shared (bringing s.pool) (removing s.pool) (counting s.pool)

theorem ledger_init : Ledger [] ({} : State ι) := by
  have none : ∀ p, bringing ({} : State ι).pool p = 0 := fun _ =>
    weight_eq_zero_iff.mpr all_empty
  have gone : ∀ p, removing ({} : State ι).pool p = 0 := fun _ =>
    weight_eq_zero_iff.mpr all_empty
  have counted : counting ({} : State ι).pool = 0 := weight_eq_zero_iff.mpr all_empty
  constructor
  · intro fd
    rw [none, gone]
    rfl
  · rw [none, counted]
    rfl
  · rw [counted]
    rfl
  · rw [gone]
    rfl
  · exact fun _ _ member => absurd member List.not_mem_nil

variable {log : List (Event ι)} {s : State ι} {t : ι} {f : Frame ι}
  {rest : Pool ι (Frame ι) (Task ι)} {effect : Effect ι}

theorem bringing_apply (popped : pop t s.pool = some (f, rest)) (p : Nat → Bool) {n : Nat}
    (left : (effect.next.map (Frame.bringing p)).sum +
      (effect.queued.elim 0 fun x => x.2.bringing p) = n) :
    bringing (apply t rest effect).pool p + f.bringing p = n + bringing s.pool p := by
  rw [bringing, bringing, weight_apply, weight_pop popped, left]
  omega

theorem removing_apply (popped : pop t s.pool = some (f, rest)) (p : Nat → Bool) {n : Nat}
    (left : (effect.next.map (Frame.removing p)).sum = n) :
    removing (apply t rest effect).pool p + f.removing p = n + removing s.pool p := by
  have nothing : (effect.queued.elim 0 fun _ => 0) = 0 := by cases effect.queued <;> rfl
  rw [removing, removing, weight_apply, weight_pop popped, nothing, left]
  omega

theorem counting_apply (popped : pop t s.pool = some (f, rest)) {n : Nat}
    (left : (effect.next.map Frame.counting).sum = n) :
    counting (apply t rest effect).pool + f.counting = n + counting s.pool := by
  have nothing : (effect.queued.elim 0 fun _ => 0) = 0 := by cases effect.queued <;> rfl
  rw [counting, counting, weight_apply, weight_pop popped, nothing, left]
  omega

/-- Every step of a frame keeps the books. -/
theorem Ledger.apply (ledger : Ledger log s) (popped : pop t s.pool = some (f, rest))
    (hands : Hands s f effect) :
    Ledger (log ++ effect.events) (apply t rest effect) := by
  unfold Ledger
  rw [shared_apply]
  cases hands with
  | nothing tables count brings removes waits aside =>
      refine Books.nothing ledger tables count aside (fun p => ?_) (fun p => ?_) ?_
      · have moved := bringing_apply popped p (brings p)
        omega
      · have moved := removing_apply popped p (removes p)
        omega
      · have moved := counting_apply popped waits
        omega
  | accepts conn next free =>
      refine Books.accepts ledger conn next free (fun p => ?_) (fun p => ?_) ?_
      · exact bringing_apply popped p rfl
      · exact (removing_apply popped p rfl).trans (Nat.zero_add _)
      · exact (counting_apply popped rfl).trans (Nat.zero_add _)
  | inserts conn =>
      rw [List.append_nil]
      refine Books.inserts ledger conn (fun p => ?_) (fun p => ?_) ?_
      · exact (bringing_apply popped p rfl).trans (Nat.zero_add _)
      · exact (removing_apply popped p rfl).trans (Nat.zero_add _)
      · exact counting_apply popped rfl
  | counted conn =>
      refine Books.counted ledger conn (fun p => ?_) (fun p => ?_) ?_
      · exact (bringing_apply popped p rfl).trans (Nat.zero_add _)
      · exact (removing_apply popped p rfl).trans (Nat.zero_add _)
      · exact (counting_apply popped rfl).trans (Nat.zero_add _)
  | erases conn entry reason found =>
      refine Books.erases ledger conn entry found (fun p => ?_) (fun p => ?_) ?_
      · exact (bringing_apply popped p rfl).trans (Nat.zero_add _)
      · exact removing_apply popped p rfl
      · exact (counting_apply popped rfl).trans (Nat.zero_add _)
  | closes conn =>
      refine Books.closes ledger conn (fun p => ?_) (fun p => ?_) ?_
      · exact (bringing_apply popped p rfl).trans (Nat.zero_add _)
      · exact (removing_apply popped p rfl).trans (Nat.zero_add _)
      · exact (counting_apply popped rfl).trans (Nat.zero_add _)

/-- A thread that starts something holds no descriptor by that. -/
theorem Ledger.push (ledger : Ledger log s) {frames : List (Frame ι)}
    (light : ∀ g ∈ frames, (∀ p, g.bringing p = 0 ∧ g.removing p = 0) ∧ g.counting = 0) :
    Ledger log { s with pool := Threads.push t frames s.pool } := by
  have same : Ledger (log ++ []) { s with pool := Threads.push t frames s.pool } :=
    Books.nothing ledger (sameTables_refl _) rfl aside_nothing (fun p => ?_) (fun p => ?_) ?_
  · rwa [List.append_nil] at same
  · exact weight_push_of_light fun g member => ((light g member).1 p).1
  · exact weight_push_of_light fun g member => ((light g member).1 p).2
  · exact weight_push_of_light fun g member => (light g member).2

theorem Ledger.begin (ledger : Ledger log s) {m : State ι} {frames : List (Frame ι)}
    {events : List (Event ι)}
    (light : ∀ g ∈ frames, (∀ p, g.bringing p = 0 ∧ g.removing p = 0) ∧ g.counting = 0)
    (started : begin s t frames = some (m, events)) : Ledger (log ++ events) m := by
  obtain ⟨_, same⟩ := Option.ite_none_right_eq_some.mp started
  cases same
  rw [List.append_nil]
  exact ledger.push light

/-- A task that runs is one that is queued no longer. -/
theorem Ledger.poll (ledger : Ledger log s) {task : Task ι}
    (polled : Threads.poll t s.pool = some (task, rest)) :
    Ledger log { s with pool := Threads.push t [task.frame] rest } := by
  have same : Ledger (log ++ []) { s with pool := Threads.push t [task.frame] rest } :=
    Books.nothing ledger (sameTables_refl _) rfl aside_nothing (fun p => ?_) (fun p => ?_) ?_
  · rwa [List.append_nil] at same
  · have frame : task.frame.bringing p = task.bringing p := by cases task <;> rfl
    exact weight_push_poll polled frame
  · have frame : task.frame.removing p = 0 := by cases task <;> rfl
    exact weight_push_poll polled frame
  · have frame : task.frame.counting = 0 := by cases task <;> rfl
    exact weight_push_poll polled frame

theorem Ledger.step {cfg : Config ι} {m : State ι} {a : Action ι} {events : List (Event ι)}
    (ledger : Ledger log s) (stepped : step cfg s a = some (m, events)) :
    Ledger (log ++ events) m := by
  cases a with
  | run t now input =>
      obtain ⟨⟨f, rest⟩, popped, continued⟩ := Option.bind_eq_some_iff.mp stepped
      obtain ⟨effect, done, result⟩ := Option.map_eq_some_iff.mp continued
      cases result
      exact ledger.apply popped (hands_exec done)
  | handleAccept =>
      exact ledger.begin (List.forall_mem_singleton.mpr ⟨fun _ => ⟨rfl, rfl⟩, rfl⟩) stepped
  | sweepIdle =>
      exact ledger.begin (List.forall_mem_singleton.mpr ⟨fun _ => ⟨rfl, rfl⟩, rfl⟩) stepped
  | app t => exact ledger.begin (List.forall_mem_singleton.mpr ⟨fun _ => ⟨rfl, rfl⟩, rfl⟩) stepped
  | doPendingFunctor t =>
      obtain ⟨_, continued⟩ := Option.ite_none_right_eq_some.mp stepped
      obtain ⟨⟨task, rest⟩, polled, result⟩ := Option.map_eq_some_iff.mp continued
      cases result
      rw [List.append_nil]
      exact ledger.poll polled
  | handleEvent conn revents =>
      obtain ⟨_, started⟩ := Option.ite_none_right_eq_some.mp stepped
      refine ledger.begin (fun g member => ?_) started
      obtain ⟨which, _, rfl⟩ := List.mem_map.mp member
      exact ⟨fun _ => ⟨rfl, rfl⟩, rfl⟩

theorem ledger_run {cfg : Config ι} {actions : List (Action ι)} {m : State ι}
    {trace : List (Action ι × List (Event ι))}
    (ran : Machine.run (TcpServer.step cfg) {} actions = some (m, trace)) :
    Ledger (trace.flatMap Prod.snd) m := by
  refine Machine.run_induct (motive := fun past s => Ledger (past.flatMap Prod.snd) s)
    ?_ ledger_init ran
  intro past s a m events ledger stepped
  rw [List.flatMap_append, List.flatMap_singleton]
  exact ledger.step stepped

/-! ## Every run -/

/-- In every run an open descriptor is in the hands of exactly one party, a
closed one in nobody's, and every `::close` closes a descriptor that is open. -/
theorem run_owners (cfg : Config ι) (actions : List (Action ι)) (m : State ι)
    (trace : List (Action ι × List (Event ι)))
    (ran : Machine.run (TcpServer.step cfg) {} actions = some (m, trace)) :
    (∀ fd, owners m fd = if m.shared.kernel fd = none then 0 else 1) ∧
      ∀ conn socket, .closed conn socket ∈ trace.flatMap Prod.snd → socket ≠ none := by
  have ledger := ledger_run ran
  refine ⟨fun fd => ?_, ledger.wasOpen⟩
  have owned : owners m fd = (m.shared.kernel fd).isSome.toNat := ledger.owned fd
  rw [owned]
  cases m.shared.kernel fd with
  | none => rfl
  | some conn => rfl

/-- A stale close takes out another connection than its own. -/
theorem run_owners_staleClose :
    ∃ m trace, Machine.run (TcpServer.step twoLoops) {} staleClose = some (m, trace) ∧
      (∀ fd, owners m fd = if m.shared.kernel fd = none then 0 else 1) ∧
      ∀ conn socket, .closed conn socket ∈ trace.flatMap Prod.snd → socket ≠ none := by
  have ends : (Machine.run (TcpServer.step twoLoops) {} staleClose).isSome = true := by
    decide +kernel
  obtain ⟨⟨m, trace⟩, ran⟩ := Option.isSome_iff_exists.mp ends
  exact ⟨m, trace, ran, run_owners twoLoops staleClose m trace ran⟩

/-- The counters of the server: every accepted connection is counted, in the table
and not counted yet, or on its way there; what is counted or waits for that is in
the table or has been taken out; and what has been taken out is closed or on its
way there.  When all threads are at rest, the counter is that of the accepted
connections, and the open descriptors are those of the table. -/
theorem run_counts (cfg : Config ι) (actions : List (Action ι)) (m : State ι)
    (trace : List (Action ι × List (Event ι)))
    (ran : Machine.run (TcpServer.step cfg) {} actions = some (m, trace)) :
    let log := trace.flatMap Prod.snd
    (born log).length =
        totalConnections m + counting m.pool + bringing m.pool (fun _ => true) ∧
      aliveConnections m + (log.filterMap Event.taken?).length =
        totalConnections m + counting m.pool ∧
      (log.filterMap Event.taken?).length =
        (log.filterMap Event.shut?).length + removing m.pool (fun _ => true) ∧
      (All (fun _ => False) (fun _ => False) m.pool →
        (born log).length = totalConnections m ∧
        (born log).length = aliveConnections m + (log.filterMap Event.shut?).length ∧
        ∀ fd, m.shared.kernel fd ≠ none ↔ fd ∈ m.shared.conns) := by
  have ledger := ledger_run ran
  refine ⟨ledger.accepted, ledger.alive, ledger.shut, fun rest => ?_⟩
  have noneBrought (p : Nat → Bool) : bringing m.pool p = 0 :=
    weight_eq_zero_iff.mpr (rest.mono (fun _ absurd => absurd.elim) fun _ absurd => absurd.elim)
  have noneRemoved (p : Nat → Bool) : removing m.pool p = 0 :=
    weight_eq_zero_iff.mpr (rest.mono (fun _ absurd => absurd.elim) fun _ absurd => absurd.elim)
  have noneWaits : counting m.pool = 0 :=
    weight_eq_zero_iff.mpr (rest.mono (fun _ absurd => absurd.elim) fun _ absurd => absurd.elim)
  have accepted := ledger.accepted
  have alive := ledger.alive
  have shut := ledger.shut
  rw [noneBrought, noneWaits] at accepted
  rw [noneWaits] at alive
  rw [noneRemoved] at shut
  refine ⟨accepted, ?_, fun fd => ?_⟩
  · rw [aliveConnections]
    omega
  · have owned := ledger.owned fd
    rw [noneBrought, noneRemoved] at owned
    have injective : ∀ x y : Bool, x.toNat = y.toNat → x = y := by decide
    rw [← AList.lookup_isSome, injective _ _ owned, Option.isSome_iff_ne_none]

/-- One connection comes and goes, another one stays. -/
def comeAndGo : List (Action (Fin 3)) :=
  connect oldConn.ownerLoop ++ hangUp oldConn ++ connect newConn.ownerLoop

theorem run_counts_comeAndGo :
    ∃ m trace, Machine.run (TcpServer.step twoLoops) {} comeAndGo = some (m, trace) ∧
      totalConnections m = 2 ∧ aliveConnections m = 1 ∧
      (born (trace.flatMap Prod.snd)).length = totalConnections m ∧
      (born (trace.flatMap Prod.snd)).length =
        aliveConnections m + ((trace.flatMap Prod.snd).filterMap Event.shut?).length ∧
      ∀ fd, m.shared.kernel fd ≠ none ↔ fd ∈ m.shared.conns := by
  have ends : ((Machine.run (TcpServer.step twoLoops) {} comeAndGo).any fun r =>
      decide (totalConnections r.1 = 2 ∧ aliveConnections r.1 = 1 ∧
        All (fun _ => False) (fun _ => False) r.1.pool)) = true := by
    decide +kernel
  obtain ⟨⟨m, trace⟩, ran, ends⟩ := (Option.any_eq_true _ _).mp ends
  obtain ⟨total, alive, rest⟩ := of_decide_eq_true ends
  exact ⟨m, trace, ran, total, alive, (run_counts twoLoops comeAndGo m trace ran).2.2.2 rest⟩

end

end TcpServer

end MiniNet
