import MiniNet.TcpServer.Stages

/-!
# Every step keeps the stages

One lemma for each kind of frame: those that have to do with no stage of any
connection, and those that bring a connection from one stage to the next.
Only the return of `accept4` needs a proviso, that no thread holds a connection
with the descriptor number that it returns.
-/

namespace MiniNet

open Bytes Threads

namespace TcpServer

variable {ι : Type} [DecidableEq ι] [Fintype ι]

/-! ## Steps that have to do with no stage -/

section

variable {log : List (Event ι)} {s : State ι}

theorem Sound.owned_entry (sound : Sound log s) {fd : Nat} {conn : Conn ι}
    (found : s.shared.conns.lookup fd = some conn) : Owned log s.shared conn := by
  obtain ⟨rfl, isOpen⟩ := sound.sorted.entry fd conn found
  exact ⟨(sound.sorted.socket _ _ isOpen).2, .inr isOpen⟩

theorem Sound.owned_alive (sound : Sound log s) {conn : Conn ι}
    (alive : Alive s conn) : Owned log s.shared conn := by
  rcases alive with stored | referenced
  · exact sound.owned_entry stored
  · by_contra notOwned
    apply referenced
    apply sound.held.mono
    · exact fun f held member => notOwned (held.1 conn member)
    · exact fun k held member => notOwned (held.1 conn member)

/-- A step that leaves the shared memory as it is, unseen. -/
theorem Sound.plain_of_next (sound : Sound log s) {next : List (Frame ι)}
    (held : ∀ g ∈ next, g.carries = [] ∧ ∀ conn ∈ g.refs, Owned log s.shared conn) :
    Plain log s { shared := s.shared, next } where
  tables := sameTables_refl _
  inBuf := sound.sorted.inBuf
  next := held
  queued x member := by cases member
  events event member := by cases member

theorem Sound.plain_of_one (sound : Sound log s) {f : Frame ι}
    (noStage : f.carries = []) (owned : ∀ conn ∈ f.refs, Owned log s.shared conn) :
    Plain log s { shared := s.shared, next := [f] } := by
  apply sound.plain_of_next
  intro g member
  cases List.mem_singleton.mp member
  exact ⟨noStage, owned⟩

theorem Sound.plain_of_nothing (sound : Sound log s) :
    Plain log s { shared := s.shared } := by
  apply sound.plain_of_next
  intro g member
  cases member

/-- The bytes of a connection are replaced by others of its own. -/
theorem Sound.inBuf_setInBuf (sound : Sound log s) {conn : Conn ι}
    {bytes : List (Conn ι × UInt8)} (own : ∀ byte ∈ bytes, byte.1 = conn) :
    ∀ other, ∀ byte ∈ (s.shared.setInBuf conn bytes).inBuf other, byte.1 = other := by
  intro other byte member
  by_cases same : other = conn
  · subst other
    simp only [Shared.setInBuf, Function.update_self] at member
    exact own byte member
  · simp only [Shared.setInBuf, Function.update_of_ne same] at member
    exact sound.sorted.inBuf other byte member

theorem Sound.plain_read (sound : Sound log s) {conn : Conn ι}
    (owned : Owned log s.shared conn) {now : Int} {input : Input ι}
    {effect : Effect ι} (done : execRead s.shared conn now input = some effect) :
    Plain log s effect := by
  have again : ∀ reason, Plain log s
      { shared := s.shared, next := [.closeConnInLoop conn reason] } :=
    fun reason => sound.plain_of_one rfl (List.forall_mem_singleton.mpr owned)
  cases input with
  | data bytes =>
      simp only [execRead] at done
      split at done
      · rename_i socket found
        obtain rfl := owned.socket_eq found
        split at done
        · cases done
        · cases done
          refine ⟨⟨rfl, rfl, rfl⟩, ?_, ?_, ?_, ?_⟩
          · apply sound.inBuf_setInBuf
            intro byte member
            rcases List.mem_append.mp member with old | new
            · exact sound.sorted.inBuf _ _ old
            · obtain ⟨_, _, rfl⟩ := List.mem_map.mp new
              rfl
          · intro g member
            cases List.mem_singleton.mp member
            exact ⟨rfl, List.forall_mem_singleton.mpr owned⟩
          · intro x member
            cases member
          · intro event member
            cases List.mem_singleton.mp member
            exact ⟨⟨rfl, fun _ => rfl⟩, rfl, fun _ => ⟨rfl, rfl⟩⟩
      · cases done
  | endOfStream =>
      simp only [execRead] at done
      split at done
      · cases done
        exact again _
      · cases done
  | readAgain =>
      simp only [execRead] at done
      split at done
      · cases done
        exact sound.plain_of_nothing
      · cases done
  | readIntr =>
      cases done
      exact sound.plain_of_one rfl (List.forall_mem_singleton.mpr owned)
  | readError =>
      cases done
      exact again _
  | _ => cases done

theorem Sound.plain_setState (sound : Sound log s) (conn : Conn ι)
    (state : ConnState) {next : List (Frame ι)} {events : List (Event ι)}
    (held : ∀ g ∈ next, g.carries = [] ∧ ∀ conn ∈ g.refs, Owned log s.shared conn)
    (seen : ∀ event ∈ events, event.Quiet ∧ event.Genuine ∧
      ∀ conn, event.disconnects conn = 0 ∧ event.closes conn = 0) :
    Plain log s { shared := s.shared.setState conn state, next, events } where
  tables := ⟨rfl, rfl, rfl⟩
  inBuf := sound.sorted.inBuf
  next := held
  queued x member := by cases member
  events := seen

theorem Sound.plain_flush (sound : Sound log s) {conn : Conn ι}
    (owned : Owned log s.shared conn) {result : Option SendResult}
    {effect : Effect ι} (done : execFlush s.shared conn result = some effect) :
    Plain log s effect := by
  obtain ⟨⟨state, flush⟩, -, continued⟩ := Option.bind_eq_some_iff.mp done
  have held : ∀ g ∈ flushFrames conn flush,
      g.carries = [] ∧ ∀ c ∈ g.refs, Owned log s.shared c := by
    intro g member
    cases flush with
    | loop =>
        cases List.mem_singleton.mp member
        exact ⟨rfl, List.forall_mem_singleton.mpr owned⟩
    | «return» => cases member
    | closeConn =>
        cases List.mem_singleton.mp member
        exact ⟨rfl, List.forall_mem_singleton.mpr owned⟩
  dsimp only at continued
  split at continued
  · rename_i n socket found
    cases continued
    refine sound.plain_setState conn state held ?_
    intro event member
    cases List.mem_singleton.mp member
    exact ⟨⟨rfl, fun _ => rfl⟩, owned.socket_eq found, fun _ => ⟨rfl, rfl⟩⟩
  all_goals cases continued
  exact sound.plain_setState conn state held fun event member => by cases member

theorem Sound.owned_expired (sound : Sound log s) {now limit : Int}
    {conn : Conn ι} (member : conn ∈ s.shared.expired now limit) :
    Owned log s.shared conn := by
  obtain ⟨⟨fd, _⟩, stored, rfl⟩ := List.mem_map.mp (List.mem_filter.mp member).1
  exact sound.owned_entry (AList.mem_lookup_iff.mpr stored)

theorem Sound.plain_message (sound : Sound log s) {conn : Conn ι}
    (owned : Owned log s.shared conn) {cfg : Config ι} {t : ι} {now : Int} {n : Nat}
    {input : Input ι} {effect : Effect ι}
    (done : exec cfg s t now (.message conn n) input = some effect) :
    Plain log s effect := by
  cases input with
  | none =>
      cases done
      refine ⟨sameTables_refl _, sound.sorted.inBuf, ?_, ?_, ?_⟩
      · exact forall_mem_pair ⟨rfl, nofun⟩ ⟨rfl, List.forall_mem_singleton.mpr owned⟩
      · intro x member
        cases member
      · intro event member
        cases List.mem_singleton.mp member
        refine ⟨⟨rfl, fun _ => rfl⟩, ?_, fun _ => ⟨rfl, rfl⟩⟩
        intro byte taken
        exact sound.sorted.inBuf conn byte (List.mem_of_mem_take taken)
  | _ => cases done

theorem Sound.plain_retrieve (sound : Sound log s) {conn : Conn ι}
    (owned : Owned log s.shared conn) {cfg : Config ι} {t : ι} {now : Int} {n : Nat}
    {input : Input ι} {effect : Effect ι}
    (done : exec cfg s t now (.retrieve conn n) input = some effect) :
    Plain log s effect := by
  cases input with
  | none =>
      cases done
      refine ⟨⟨rfl, rfl, rfl⟩, ?_, ?_, ?_, ?_⟩
      · apply sound.inBuf_setInBuf
        exact fun byte rest => sound.sorted.inBuf conn byte (List.mem_of_mem_drop rest)
      · intro g member
        cases List.mem_singleton.mp member
        exact ⟨rfl, List.forall_mem_singleton.mpr owned⟩
      · intro x member
        cases member
      · intro event member
        cases member
  | _ => cases done

/-- The task of a connection that is in the table already. -/
theorem Sound.plain_runInLoop (sound : Sound log s) {loop : ι} {task : Task ι}
    (owned : ∀ conn ∈ task.refs, Owned log s.shared conn)
    (noStage : task.carries = []) {cfg : Config ι} {t : ι} {now : Int}
    {input : Input ι} {effect : Effect ι}
    (done : exec cfg s t now (.runInLoop loop task) input = some effect) :
    Plain log s effect := by
  cases input with
  | none =>
      simp only [exec] at done
      split at done
      · cases done
        apply sound.plain_of_one
        · cases task <;> first | rfl | cases noStage
        · cases task <;> exact owned
      · cases done
        refine ⟨sameTables_refl _, sound.sorted.inBuf, ?_, ?_, ?_⟩
        · intro g member
          cases member
        · intro x member
          cases member
          exact ⟨noStage, owned⟩
        · intro event member
          cases member
  | _ => cases done

theorem Sound.plain_closeExpired (sound : Sound log s) {conns : List (Conn ι)}
    (owned : ∀ conn ∈ conns, Owned log s.shared conn) {cfg : Config ι} {t : ι}
    {now : Int} {input : Input ι} {effect : Effect ι}
    (done : exec cfg s t now (.closeExpired conns) input = some effect) :
    Plain log s effect := by
  cases input with
  | none =>
      cases conns with
      | nil =>
          cases done
          exact sound.plain_of_nothing
      | cons conn conns =>
          cases done
          obtain ⟨ownedFirst, ownedRest⟩ := List.forall_mem_cons.mp owned
          refine ⟨⟨rfl, rfl, rfl⟩, sound.sorted.inBuf, ?_, ?_, ?_⟩
          · exact forall_mem_pair ⟨rfl, List.forall_mem_singleton.mpr ownedFirst⟩
              ⟨rfl, ownedRest⟩
          · intro x member
            cases member
          · intro event member
            cases member
  | _ => cases conns <;> cases done

/-- The effect of a frame that has to do with no stage, unless it is the
return of `accept4` or an erasure. -/
theorem Sound.plain_exec (sound : Sound log s) {cfg : Config ι} {t : ι}
    {now : Int} {f : Frame ι} {input : Input ι} {effect : Effect ι}
    (owned : ∀ conn ∈ f.refs, Owned log s.shared conn) (noStage : f.carries = [])
    (notAccepted : f = .accept → ∀ fd loop, input ≠ .accepted fd loop)
    (notErased : ∀ conn reason, f = .closeConnInLoop conn reason →
      s.shared.conns.lookup conn.fd = none)
    (done : exec cfg s t now f input = some effect) : Plain log s effect := by
  have one : ∀ conn, Frame.refs f = [conn] → Owned log s.shared conn :=
    fun conn refs => owned conn (refs ▸ List.mem_singleton_self conn)
  cases f with
  | accept =>
      cases input with
      | accepted fd loop => exact absurd rfl (notAccepted rfl fd loop)
      | acceptIntr =>
          cases done
          exact sound.plain_of_one rfl owned
      | acceptFailed =>
          cases done
          exact sound.plain_of_nothing
      | _ => cases done
  | runInLoop loop task => exact sound.plain_runInLoop owned noStage done
  | connected conn =>
      cases input with
      | none =>
          cases done
          refine ⟨⟨rfl, rfl, rfl⟩, sound.sorted.inBuf, ?_, ?_, ?_⟩
          · intro g member
            cases List.mem_singleton.mp member
            exact ⟨rfl, fun c inside => by cases inside⟩
          · intro x member
            cases member
          · intro event member
            cases List.mem_singleton.mp member
            exact ⟨⟨rfl, fun _ => rfl⟩, trivial, fun _ => ⟨rfl, rfl⟩⟩
      | _ => cases done
  | callback which conn =>
      cases input with
      | none =>
          simp only [exec] at done
          split at done
          · rename_i alive
            cases done
            apply sound.plain_of_one
            · cases which <;> rfl
            · have owner := sound.owned_alive alive
              cases which <;> exact List.forall_mem_singleton.mpr owner
          · cases done
            exact sound.plain_of_nothing
      | _ => cases done
  | read conn => exact sound.plain_read (one conn rfl) done
  | message conn n => exact sound.plain_message (one conn rfl) done
  | retrieve conn n => exact sound.plain_retrieve (one conn rfl) done
  | app =>
      cases input with
      | call api =>
          cases done
          apply sound.plain_of_next
          exact forall_mem_pair ⟨rfl, nofun⟩ ⟨rfl, nofun⟩
      | «return» =>
          cases done
          exact sound.plain_of_nothing
      | _ => cases done
  | call api =>
      cases input with
      | none =>
          cases api <;>
          · simp only [exec] at done
            split at done
            · cases done
              exact sound.plain_of_nothing
            · rename_i conn found
              cases done
              exact sound.plain_of_one rfl
                (List.forall_mem_singleton.mpr (sound.owned_entry found))
      | _ => cases api <;> cases done
  | appendAndFlush conn data =>
      cases input with
      | none =>
          cases done
          refine sound.plain_setState conn _ ?_ fun event member => by cases member
          intro g member
          split at member
          · cases member
          · cases List.mem_singleton.mp member
            exact ⟨rfl, owned⟩
      | _ => cases done
  | flushWrite conn =>
      cases input with
      | none => exact sound.plain_flush (one conn rfl) done
      | send result => exact sound.plain_flush (one conn rfl) done
      | _ => cases done
  | closeConn conn reason =>
      cases input with
      | none =>
          simp only [exec] at done
          split at done <;> cases done <;> exact sound.plain_of_one rfl owned
      | _ => cases done
  | closeConnInLoop conn reason =>
      cases input with
      | none =>
          simp only [exec, notErased conn reason rfl] at done
          cases done
          exact sound.plain_of_nothing
      | _ => cases done
  | sweepIdle =>
      cases input with
      | none =>
          simp only [exec] at done
          split at done <;> cases done
          · exact sound.plain_of_nothing
          · exact sound.plain_of_one rfl fun conn member =>
              sound.owned_expired member
      | _ => cases done
  | closeExpired conns => exact sound.plain_closeExpired owned done
  | addConnection conn => cases noStage
  | insert conn => cases noStage
  | disableAll conn => cases noStage
  | disconnected conn => cases noStage
  | close conn => cases noStage

/-! ## Steps from one stage to the next -/

/-- `accept4` returned a descriptor that no thread holds a connection for. -/
theorem Sound.accepted (sound : Sound log s) {cfg : Config ι} {t : ι} {now : Int}
    {rest : Pool ι (Frame ι) (Task ι)}
    (popped : pop t s.pool = some (.accept, rest)) {fd : Nat} {loop : ι}
    (unused : All (fun f => ∀ conn ∈ f.refs, conn.fd ≠ fd)
      (fun k => ∀ conn ∈ k.refs, conn.fd ≠ fd) s.pool) {effect : Effect ι}
    (done : exec cfg s t now .accept (.accepted fd loop) = some effect) :
    Sound (log ++ effect.events) (TcpServer.apply t rest effect) := by
  simp only [exec] at done
  split at done
  swap
  · cases done
  rename_i free
  cases done
  let conn : Conn ι := { fd, id := s.shared.nextConnId, ownerLoop := loop }
  have new : conn ∉ born log := sound.sorted.fresh fd loop
  have given : (s.shared.accepted conn).kernel fd = some conn :=
    Function.update_self _ _ _
  have known : conn ∈ born (log ++ [Event.accepted conn]) := by
    rw [born_accepted]
    exact List.mem_append_right _ (List.mem_singleton_self conn)
  have sorted : Sorted (log ++ [Event.accepted conn]) (s.shared.accepted conn) :=
    sound.sorted.accepted free rfl
  have moved : ∀ refs carries : List (Conn ι),
      (Held log s.shared refs carries ∧ ∀ c ∈ refs, c.fd ≠ fd) →
        Held (log ++ [Event.accepted conn]) (s.shared.accepted conn) refs carries :=
    fun _ _ both => both.1.accepted free both.2
  apply sound.apply popped
  · exact sorted
  · have restHeld := (sound.held.pop popped).2
    have restUnused := ((all_pop popped).mp unused).2
    exact (restHeld.and restUnused).mono (fun f => moved f.refs f.carries)
      fun k => moved k.refs k.carries
  · exact forall_mem_pair (held_one known given) held_nothing
  · intro x member
    cases member
  · intro c
    refine ⟨?_, rfl, rfl⟩
    change same c conn + 0 + 0 + s.shared.entries c + 0 + _ =
      0 + s.shared.entries c + if c ∈ born (log ++ [Event.accepted conn]) then 1 else 0
    rw [born_accepted]
    by_cases here : c = conn
    · subst c
      rw [same_self, if_neg new, if_pos (by simp)]
      omega
    · rw [same_of_ne here]
      simp only [List.mem_append, List.mem_singleton, here, or_false]
      omega
  · intro event member
    cases List.mem_singleton.mp member
    trivial

theorem Sound.insert (sound : Sound log s) {t : ι} {conn : Conn ι}
    {rest : Pool ι (Frame ι) (Task ι)}
    (popped : pop t s.pool = some (.insert conn, rest)) {cfg : Config ι} {now : Int}
    {input : Input ι} {effect : Effect ι}
    (done : exec cfg s t now (.insert conn) input = some effect) :
    Sound (log ++ effect.events) (TcpServer.apply t rest effect) := by
  cases input with
  | none =>
      cases done
      have held := (sound.held.pop popped).1
      have isOpen : s.shared.kernel conn.fd = some conn :=
        held.2 conn (List.mem_singleton_self conn)
      have notStored : s.shared.entries conn = 0 := by
        have once := (sound.staged conn).once
        rw [weight_pop popped] at once
        have one : (Frame.insert conn).adds conn = 1 := same_self conn
        split at once <;> omega
      obtain ⟨numbers, next, socket, entry, inBuf⟩ := sound.sorted
      apply sound.apply popped
      · simp only [List.append_nil]
        refine ⟨numbers, next, socket, ?_, inBuf⟩
        intro fd c found
        by_cases here : fd = conn.fd
        · subst fd
          cases (AList.lookup_insert s.shared.conns).symm.trans found
          exact ⟨rfl, isOpen⟩
        · exact entry fd c ((AList.lookup_insert_ne here).symm.trans found)
      · exact (sound.held.pop popped).2.of_same rfl
      · intro g member
        cases List.mem_singleton.mp member
        exact ⟨(held.of_same rfl).1, fun c inside => by cases inside⟩
      · intro x member
        cases member
      · intro c
        refine ⟨?_, rfl, rfl⟩
        change 0 + 0 + 0 + Shared.entries { s.shared with
            conns := s.shared.conns.insert conn.fd conn } c + 0 + _ =
          same c conn + s.shared.entries c + if c ∈ born (log ++ []) then 1 else 0
        rw [List.append_nil]
        by_cases here : c = conn
        · subst c
          rw [same_self, notStored, Shared.entries, if_pos (AList.lookup_insert _)]
        · rw [same_of_ne here, Shared.entries, Shared.entries]
          by_cases sameFd : c.fd = conn.fd
          · have other : s.shared.conns.lookup c.fd ≠ some c := by
              intro stored
              have ownsToo := (entry _ _ stored).2
              rw [sameFd, isOpen] at ownsToo
              exact here (Option.some.inj ownsToo).symm
            have replaced : (s.shared.conns.insert conn.fd conn).lookup c.fd ≠
                some c := by
              rw [sameFd, AList.lookup_insert]
              exact fun equal => here (Option.some.inj equal).symm
            rw [if_neg other, if_neg replaced]
          · simp only [AList.lookup_insert_ne sameFd]
            omega
      · intro event member
        cases member
  | _ => cases done

/-- The entry that is found is the connection that is being closed. -/
theorem Sound.entry_eq (sound : Sound log s) {conn entry : Conn ι}
    (owned : Owned log s.shared conn)
    (found : s.shared.conns.lookup conn.fd = some entry) : entry = conn :=
  owned.socket_eq (sound.sorted.entry _ _ found).2

theorem Sound.erase (sound : Sound log s) {t : ι} {conn entry : Conn ι}
    {reason : Reason} {rest : Pool ι (Frame ι) (Task ι)}
    (popped : pop t s.pool = some (.closeConnInLoop conn reason, rest))
    (found : s.shared.conns.lookup conn.fd = some entry) {cfg : Config ι}
    {now : Int} {input : Input ι} {effect : Effect ι}
    (done : exec cfg s t now (.closeConnInLoop conn reason) input = some effect) :
    Sound (log ++ effect.events) (TcpServer.apply t rest effect) := by
  cases input with
  | none =>
      simp only [exec, found] at done
      cases done
      have owned : Owned log s.shared conn :=
        (sound.held.pop popped).1.1 conn (List.mem_singleton_self conn)
      obtain rfl := sound.entry_eq owned found
      have isOpen := (sound.sorted.entry _ _ found).2
      have sameBorn : born (log ++ [Event.erased entry entry]) = born log := by
        rw [born_append]
        exact List.append_nil _
      obtain ⟨numbers, next, socket, entries, inBuf⟩ := sound.sorted
      apply sound.apply popped
      · change Sorted (log ++ [Event.erased entry entry])
          { s.shared with conns := s.shared.conns.erase entry.fd }
        refine ⟨?_, ?_, ?_, ?_, inBuf⟩
        · rw [sameBorn]
          exact numbers
        · rw [sameBorn]
          exact next
        · rw [sameBorn]
          exact socket
        · intro fd c stored
          by_cases here : fd = entry.fd
          · subst fd
            rw [AList.lookup_erase] at stored
            cases stored
          · rw [AList.lookup_erase_ne here] at stored
            exact entries fd c stored
      · exact (sound.held.pop popped).2.of_same rfl
      · intro g member
        cases List.mem_singleton.mp member
        exact (held_one owned.1 isOpen).of_same rfl
      · intro x member
        cases member
      · intro c
        refine ⟨?_, Nat.add_comm _ _, Nat.add_comm _ _⟩
        change 0 + 0 + 0 + Shared.entries { s.shared with
            conns := s.shared.conns.erase entry.fd } c + (same c entry + 0) + _ =
          0 + s.shared.entries c +
            if c ∈ born (log ++ [Event.erased entry entry]) then 1 else 0
        rw [sameBorn, Shared.entries, Shared.entries]
        by_cases sameFd : c.fd = entry.fd
        · rw [sameFd, AList.lookup_erase, found, same]
          simp only [Option.some.injEq, reduceCtorEq, if_false]
          omega
        · have different : c ≠ entry := fun equal => sameFd (equal ▸ rfl)
          rw [AList.lookup_erase_ne sameFd, same_of_ne different]
          omega
      · intro event member
        cases List.mem_singleton.mp member
        rfl
  | _ => cases done

/-- A frame that hands the connection it carries to its successor. -/
private theorem held_carried (sound : Sound log s) {t : ι} {f : Frame ι}
    {rest : Pool ι (Frame ι) (Task ι)} (popped : pop t s.pool = some (f, rest))
    {g : Frame ι} (refs : g.refs = f.refs) (carries : g.carries = f.carries) :
    ∀ h ∈ [g], Held log s.shared h.refs h.carries := by
  intro h member
  cases List.mem_singleton.mp member
  rw [refs, carries]
  exact (sound.held.pop popped).1

/-- A new connection goes to its loop. -/
theorem Sound.dispatched (sound : Sound log s) {t loop : ι} {conn : Conn ι}
    {rest : Pool ι (Frame ι) (Task ι)}
    (popped : pop t s.pool = some (.runInLoop loop (.addConnection conn), rest))
    {cfg : Config ι} {now : Int} {input : Input ι} {effect : Effect ι}
    (done : exec cfg s t now (.runInLoop loop (.addConnection conn)) input =
      some effect) :
    Sound (log ++ effect.events) (TcpServer.apply t rest effect) := by
  cases input with
  | none =>
      simp only [exec] at done
      split at done
      · cases done
        apply sound.steady popped (sameTables_refl _) sound.sorted.inBuf
        · exact held_carried sound popped rfl rfl
        · intro x member
          cases member
        · intro event member
          cases member
        · exact fun _ => rfl
        · exact fun _ => rfl
        · exact fun _ => rfl
      · cases done
        apply sound.steady popped (sameTables_refl _) sound.sorted.inBuf
        · intro g member
          cases member
        · intro x member
          cases member
          exact (sound.held.pop popped).1
        · intro event member
          cases member
        · exact fun c => Nat.zero_add _
        · exact fun _ => rfl
        · exact fun _ => rfl
  | _ => cases done

theorem Sound.added (sound : Sound log s) {t : ι} {conn : Conn ι}
    {rest : Pool ι (Frame ι) (Task ι)}
    (popped : pop t s.pool = some (.addConnection conn, rest)) {cfg : Config ι}
    {now : Int} {input : Input ι} {effect : Effect ι}
    (done : exec cfg s t now (.addConnection conn) input = some effect) :
    Sound (log ++ effect.events) (TcpServer.apply t rest effect) := by
  cases input with
  | none =>
      cases done
      apply sound.steady popped ⟨rfl, rfl, rfl⟩
      · apply sound.inBuf_setInBuf
        intro byte member
        cases member
      · exact held_carried sound popped rfl rfl
      · intro x member
        cases member
      · intro event member
        cases member
      · exact fun _ => rfl
      · exact fun _ => rfl
      · exact fun _ => rfl
  | _ => cases done

theorem Sound.disabled (sound : Sound log s) {t : ι} {conn : Conn ι}
    {rest : Pool ι (Frame ι) (Task ι)}
    (popped : pop t s.pool = some (.disableAll conn, rest)) {cfg : Config ι}
    {now : Int} {input : Input ι} {effect : Effect ι}
    (done : exec cfg s t now (.disableAll conn) input = some effect) :
    Sound (log ++ effect.events) (TcpServer.apply t rest effect) := by
  cases input with
  | none =>
      cases done
      apply sound.steady popped ⟨rfl, rfl, rfl⟩ sound.sorted.inBuf
      · exact held_carried sound popped rfl rfl
      · intro x member
        cases member
      · intro event member
        cases member
      · exact fun _ => rfl
      · exact fun c => Nat.zero_add _
      · exact fun c => Nat.zero_add _
  | _ => cases done

theorem Sound.notified (sound : Sound log s) {t : ι} {conn : Conn ι}
    {rest : Pool ι (Frame ι) (Task ι)}
    (popped : pop t s.pool = some (.disconnected conn, rest)) {cfg : Config ι}
    {now : Int} {input : Input ι} {effect : Effect ι}
    (done : exec cfg s t now (.disconnected conn) input = some effect) :
    Sound (log ++ effect.events) (TcpServer.apply t rest effect) := by
  cases input with
  | none =>
      cases done
      apply sound.steady popped (sameTables_refl _) sound.sorted.inBuf
      · exact forall_mem_pair held_nothing (sound.held.pop popped).1
      · intro x member
        cases member
      · intro event member
        cases List.mem_singleton.mp member
        exact ⟨⟨rfl, fun _ => rfl⟩, trivial⟩
      · exact fun _ => rfl
      · exact fun _ => rfl
      · intro c
        change 0 + 0 + (0 + (same c conn + 0)) = same c conn + 0
        omega
  | _ => cases done

/-- While one thread is about to close a connection, the table does not have
it and nobody else is about to bring it in or to take it out. -/
theorem Sound.last (sound : Sound log s) {t : ι} {conn : Conn ι}
    {rest : Pool ι (Frame ι) (Task ι)}
    (popped : pop t s.pool = some (.close conn, rest)) :
    s.shared.entries conn = 0 ∧
      All (fun f => conn ∉ f.carries) (fun k => conn ∉ k.carries) rest := by
  obtain ⟨once, left, closed⟩ := sound.staged conn
  rw [weight_pop popped] at once left closed
  rw [weight_pop popped] at closed
  have one : (Frame.close conn).closes conn = 1 := same_self conn
  have atMost : (if conn ∈ born log then 1 else 0) ≤ 1 := by
    split <;> omega
  have adds := weight_eq_zero_iff.mp
    (show weight (Frame.adds conn) (Task.adds conn) rest = 0 by omega)
  have leaves := weight_eq_zero_iff.mp
    (show weight (Frame.leaves conn) (fun _ => 0) rest = 0 by omega)
  have closes := weight_eq_zero_iff.mp
    (show weight (Frame.closes conn) (fun _ => 0) rest = 0 by omega)
  refine ⟨by omega, fun u => ⟨fun f member => ?_, fun k member => ?_⟩⟩
  · exact (f.carries_iff conn).mpr ⟨(adds u).1 f member, (leaves u).1 f member,
      (closes u).1 f member⟩
  · exact (k.carries_iff conn).mpr ((adds u).2 k member)

theorem Sound.close (sound : Sound log s) {t : ι} {conn : Conn ι}
    {rest : Pool ι (Frame ι) (Task ι)}
    (popped : pop t s.pool = some (.close conn, rest)) {cfg : Config ι}
    {now : Int} {input : Input ι} {effect : Effect ι}
    (done : exec cfg s t now (.close conn) input = some effect) :
    Sound (log ++ effect.events) (TcpServer.apply t rest effect) := by
  cases input with
  | none =>
      cases done
      obtain ⟨held, restHeld⟩ := sound.held.pop popped
      have isOpen : s.shared.kernel conn.fd = some conn :=
        held.2 conn (List.mem_singleton_self conn)
      obtain ⟨notStored, alone⟩ := sound.last popped
      have notEntry : s.shared.conns.lookup conn.fd ≠ some conn := by
        intro stored
        rw [Shared.entries, if_pos stored] at notStored
        cases notStored
      have sorted : Sorted (log ++ [Event.closed conn (s.shared.kernel conn.fd)])
          (s.shared.closed conn) := sound.sorted.closed isOpen notEntry _
      have moved : ∀ refs carries : List (Conn ι),
          (conn ∉ carries ∧ Held log s.shared refs carries) →
            Held (log ++ [Event.closed conn (s.shared.kernel conn.fd)]) (s.shared.closed conn)
              refs carries :=
        fun _ _ both => both.2.closed isOpen both.1
      apply sound.apply popped
      · exact sorted
      · exact (alone.and restHeld).mono (fun f => moved f.refs f.carries)
          fun k => moved k.refs k.carries
      · intro g member
        cases member
      · intro x member
        cases member
      · intro c
        refine ⟨?_, rfl, ?_⟩
        · change 0 + 0 + s.shared.entries c + 0 + _ = 0 + s.shared.entries c +
            if c ∈ born (log ++ [Event.closed conn (s.shared.kernel conn.fd)])
              then 1 else 0
          rw [born_closed]
          omega
        · change 0 + 0 + same c conn = same c conn + 0 + 0 + 0
          omega
      · intro event member
        cases List.mem_singleton.mp member
        exact isOpen
  | _ => cases done

/-! ## The machine -/

/-- No thread holds a connection with this descriptor number. -/
def Unheld (fd : Nat) (pool : Pool ι (Frame ι) (Task ι)) : Prop :=
  All (fun f => ∀ conn ∈ f.refs, conn.fd ≠ fd)
    (fun k => ∀ conn ∈ k.refs, conn.fd ≠ fd) pool

instance (fd : Nat) (pool : Pool ι (Frame ι) (Task ι)) : Decidable (Unheld fd pool) :=
  inferInstanceAs (Decidable (All _ _ _))

/-- `accept4` does not return the number of a descriptor that some queued task
or some call in progress still holds an old connection for. -/
def FreshFd (s : State ι) : Action ι → Prop
  | .run _ _ (.accepted fd _) => Unheld fd s.pool
  | _ => True

instance (s : State ι) (a : Action ι) : Decidable (FreshFd s a) := by
  unfold FreshFd
  split <;> infer_instance

theorem Sound.exec (sound : Sound log s) {t : ι} {f : Frame ι}
    {rest : Pool ι (Frame ι) (Task ι)} (popped : pop t s.pool = some (f, rest))
    {cfg : Config ι} {now : Int} {input : Input ι} {effect : Effect ι}
    (fresh : FreshFd s (.run t now input))
    (done : exec cfg s t now f input = some effect) :
    Sound (log ++ effect.events) (TcpServer.apply t rest effect) := by
  have owned := (sound.held.pop popped).1.1
  have plain : f.carries = [] → (f = .accept → ∀ fd loop, input ≠ .accepted fd loop) →
      (∀ conn reason, f = .closeConnInLoop conn reason →
        s.shared.conns.lookup conn.fd = none) →
      Sound (log ++ effect.events) (TcpServer.apply t rest effect) :=
    fun noStage notAccepted notErased => sound.plain popped noStage
      (sound.plain_exec owned noStage notAccepted notErased done)
  cases f with
  | accept =>
      cases input with
      | accepted fd loop => exact sound.accepted popped fresh done
      | _ =>
          apply plain rfl
          · intro _ fd loop equal
            cases equal
          · intro conn reason equal
            cases equal
  | runInLoop loop task =>
      cases task with
      | addConnection conn => exact sound.dispatched popped done
      | _ => exact plain rfl nofun nofun
  | addConnection conn => exact sound.added popped done
  | insert conn => exact sound.insert popped done
  | closeConnInLoop conn reason =>
      cases found : s.shared.conns.lookup conn.fd with
      | some entry => exact sound.erase popped found done
      | none =>
          apply plain rfl nofun
          intro c r equal
          cases equal
          exact found
  | disableAll conn => exact sound.disabled popped done
  | disconnected conn => exact sound.notified popped done
  | close conn => exact sound.close popped done
  | _ => exact plain rfl nofun nofun

/-- Moving frames and tasks about within the pool. -/
theorem Sound.of_pool (sound : Sound log s) {pool : Pool ι (Frame ι) (Task ι)}
    (held : AllHeld log s.shared pool)
    (adds : ∀ conn, weight (Frame.adds conn) (Task.adds conn) pool =
      weight (Frame.adds conn) (Task.adds conn) s.pool)
    (leaves : ∀ conn, weight (Frame.leaves conn) (fun _ => 0) pool =
      weight (Frame.leaves conn) (fun _ => 0) s.pool)
    (closes : ∀ conn, weight (Frame.closes conn) (fun _ => 0) pool =
      weight (Frame.closes conn) (fun _ => 0) s.pool) :
    Sound log { s with pool } where
  sorted := sound.sorted
  held := held
  staged conn := by
    obtain ⟨once, left, closed⟩ := sound.staged conn
    constructor
    · rw [adds]
      exact once
    · rw [leaves]
      exact left
    · rw [leaves, closes]
      exact closed
  genuine := sound.genuine

theorem Sound.begin (sound : Sound log s) {t : ι} {frames : List (Frame ι)}
    (light : ∀ f ∈ frames, f.refs = [] ∧ f.carries = []) {m : State ι}
    {events : List (Event ι)} (started : begin s t frames = some (m, events)) :
    Sound (log ++ events) m := by
  have counts : ∀ conn, ∀ f ∈ frames,
      f.adds conn = 0 ∧ f.leaves conn = 0 ∧ f.closes conn = 0 :=
    fun conn f member => (f.carries_iff conn).mp
      ((light f member).2 ▸ List.not_mem_nil)
  unfold TcpServer.begin at started
  split at started
  swap
  · cases started
  cases started
  rw [List.append_nil]
  apply sound.of_pool
  · refine all_push.mpr ⟨fun f member => ?_, sound.held⟩
    rw [(light f member).1, (light f member).2]
    exact held_nothing
  · exact fun conn => weight_push_of_light fun f member => (counts conn f member).1
  · exact fun conn => weight_push_of_light fun f member => (counts conn f member).2.1
  · exact fun conn => weight_push_of_light fun f member => (counts conn f member).2.2

theorem Sound.doPendingFunctor (sound : Sound log s) {t : ι} {task : Task ι}
    {rest : Pool ι (Frame ι) (Task ι)} (polled : poll t s.pool = some (task, rest)) :
    Sound log { s with pool := push t [task.frame] rest } := by
  have frame : task.frame.refs = task.refs ∧ task.frame.carries = task.carries := by
    cases task <;> exact ⟨rfl, rfl⟩
  have counts : ∀ conn, task.frame.adds conn = task.adds conn ∧
      task.frame.leaves conn = 0 ∧ task.frame.closes conn = 0 := by
    intro conn
    cases task <;> exact ⟨rfl, rfl, rfl⟩
  obtain ⟨taskHeld, restHeld⟩ := (all_poll polled).mp sound.held
  apply sound.of_pool
  · refine all_push.mpr ⟨fun f member => ?_, restHeld⟩
    cases List.mem_singleton.mp member
    rw [frame.1, frame.2]
    exact taskHeld
  · exact fun conn => weight_push_poll polled (counts conn).1
  · exact fun conn => weight_push_poll polled (counts conn).2.1
  · exact fun conn => weight_push_poll polled (counts conn).2.2

theorem Sound.step (sound : Sound log s) {cfg : Config ι} {a : Action ι}
    (fresh : FreshFd s a) {m : State ι} {events : List (Event ι)}
    (stepped : step cfg s a = some (m, events)) : Sound (log ++ events) m := by
  have light : ∀ f : Frame ι, f.refs = [] → f.carries = [] →
      ∀ g ∈ [f], g.refs = [] ∧ g.carries = [] := by
    intro f refs carries g member
    cases List.mem_singleton.mp member
    exact ⟨refs, carries⟩
  cases a with
  | run t now input =>
      obtain ⟨⟨f, rest⟩, popped, continued⟩ := Option.bind_eq_some_iff.mp stepped
      obtain ⟨effect, done, result⟩ := Option.map_eq_some_iff.mp continued
      cases result
      exact sound.exec popped fresh done
  | handleAccept => exact sound.begin (light _ rfl rfl) stepped
  | sweepIdle => exact sound.begin (light _ rfl rfl) stepped
  | doPendingFunctor t =>
      simp only [TcpServer.step] at stepped
      split at stepped
      · obtain ⟨⟨task, rest⟩, polled, result⟩ := Option.map_eq_some_iff.mp stepped
        cases result
        rw [List.append_nil]
        exact sound.doPendingFunctor polled
      · cases stepped
  | handleEvent conn revents =>
      simp only [TcpServer.step] at stepped
      split at stepped
      · apply sound.begin _ stepped
        intro f member
        obtain ⟨which, -, rfl⟩ := List.mem_map.mp member
        exact ⟨rfl, rfl⟩
      · cases stepped
  | app t => exact sound.begin (light _ rfl rfl) stepped

end

end TcpServer

end MiniNet
