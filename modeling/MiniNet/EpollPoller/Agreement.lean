import MiniNet.EpollPoller

/-!
# Channel flags, table and interest set agree

A channel is in the poller exactly when the table has it under its
descriptor, and exactly when the kernel has its address and its mask.
Nothing refers to a destroyed channel.
-/

namespace MiniNet

namespace EpollPoller

/-- The three views of registration agree, and none is stale. -/
structure Agree (s : EpollPoller) : Prop where
  table : ∀ p ch, s.objects p = some ch →
    (ch.inPoller = true ↔ s.channels ch.fd = some p)
  kernel : ∀ p ch, s.objects p = some ch →
    (s.channels ch.fd = some p ↔ s.interest ch.fd = some ⟨p, ch.channel.events⟩)
  tableLive : ∀ fd p, s.channels fd = some p → (s.objects p).isSome
  kernelLive : ∀ fd ev, s.interest fd = some ev → (s.objects ev.ptr).isSome

/-- What a descriptor's entry in the table says about the channel and the
kernel. -/
def Entry (s : EpollPoller) (fd : Nat) : Option Nat → Prop
  | none => s.interest fd = none
  | some p => s.opened fd = true ∧ ∃ ch, s.objects p = some ch ∧ ch.fd = fd ∧
      ch.inPoller = true ∧ s.interest fd = some ⟨p, ch.channel.events⟩

/-- The invariant: the table tells the truth, every flag is backed by it, and a
descriptor has one live channel. -/
structure Sound (s : EpollPoller) : Prop where
  entry : ∀ fd, s.Entry fd (s.channels fd)
  flag : ∀ p ch, s.objects p = some ch → ch.inPoller = true → s.channels ch.fd = some p
  single : ∀ p q ch other, s.objects p = some ch → s.objects q = some other →
    ch.fd = other.fd → p = q

theorem Sound.agree {s : EpollPoller} (sound : s.Sound) : s.Agree where
  table := by
    intro p ch live
    constructor
    · exact sound.flag p ch live
    · intro listed
      have entry := sound.entry ch.fd
      rw [listed] at entry
      obtain ⟨_, same, found, _, flagged, _⟩ := entry
      cases live.symm.trans found
      exact flagged
  kernel := by
    intro p ch live
    have entry := sound.entry ch.fd
    constructor
    · intro listed
      rw [listed] at entry
      obtain ⟨_, same, found, _, _, known⟩ := entry
      cases live.symm.trans found
      exact known
    · intro known
      cases listed : s.channels ch.fd with
      | none =>
          rw [listed] at entry
          cases entry.symm.trans known
      | some q =>
          rw [listed] at entry
          obtain ⟨_, other, _, _, _, there⟩ := entry
          have same := congrArg Event.ptr (Option.some.inj (there.symm.trans known))
          exact congrArg some same
  tableLive := by
    intro fd p listed
    have entry := sound.entry fd
    rw [listed] at entry
    obtain ⟨_, ch, found, _⟩ := entry
    rw [found]
    rfl
  kernelLive := by
    intro fd ev known
    have entry := sound.entry fd
    cases listed : s.channels fd with
    | none =>
        rw [listed] at entry
        cases entry.symm.trans known
    | some p =>
        rw [listed] at entry
        obtain ⟨_, ch, found, _, _, there⟩ := entry
        cases there.symm.trans known
        rw [found]
        rfl

theorem sound_initial : initial.Sound where
  entry := fun _ => rfl
  flag := by
    intro p ch live
    cases live
  single := by
    intro p q ch other live
    cases live

/-! ## What the operations do -/

section

variable {s : EpollPoller} {p : Nat} {ch ch' : Object}

/-- The table has no other channel under the descriptor of a live one. -/
theorem Sound.channels_fd (sound : s.Sound) (live : s.objects p = some ch) :
    s.channels ch.fd = if ch.inPoller then some p else none := by
  cases listed : s.channels ch.fd with
  | none =>
      rw [if_neg]
      intro flagged
      cases listed.symm.trans (sound.flag p ch live flagged)
  | some q =>
      have entry := sound.entry ch.fd
      rw [listed] at entry
      obtain ⟨_, other, found, sameFd, flagged, _⟩ := entry
      cases sound.single q p other ch found live sameFd
      cases live.symm.trans found
      rw [if_pos flagged]

/-- A changed mask reaches the kernel and registers the channel, unless the
descriptor is closed: then the channel was not registered and stays so. -/
theorem Sound.updateChannel (sound : s.Sound) (live : s.objects p = some ch)
    (sameFd : ch'.fd = ch.fd) :
    (s.opened ch.fd = true ∧ (s.setObject p ch').updateChannel p ch' =
        { s with
          objects := Function.update s.objects p (some { ch' with inPoller := true })
          channels := Function.update s.channels ch.fd (some p)
          interest := Function.update s.interest ch.fd
            (some ⟨p, ch'.channel.events⟩) }) ∨
      (ch.inPoller = false ∧
        (s.setObject p ch').updateChannel p ch' = s.setObject p ch') := by
  have listed := sound.channels_fd live
  have entry := sound.entry ch.fd
  cases opened : s.opened ch.fd with
  | false =>
      cases flagged : ch.inPoller with
      | true =>
          rw [listed, if_pos flagged] at entry
          cases opened.symm.trans entry.1
      | false =>
          refine .inr ⟨rfl, ?_⟩
          simp [EpollPoller.updateChannel, epollCtl, setObject, sameFd, opened]
  | true =>
      refine .inl ⟨rfl, ?_⟩
      cases flagged : ch.inPoller with
      | true =>
          rw [flagged, if_pos rfl] at listed
          rw [listed] at entry
          obtain ⟨_, _, _, _, _, known⟩ := entry
          simp [EpollPoller.updateChannel, epollCtl, setObject, registered, sameFd, opened,
            listed, known, Function.update_idem]
      | false =>
          rw [flagged, if_neg Bool.false_ne_true] at listed
          rw [listed] at entry
          have unknown : s.interest ch.fd = none := entry
          simp [EpollPoller.updateChannel, epollCtl, setObject, registered, sameFd, opened,
            listed, unknown, Function.update_idem]

/-- After `disableAll` the channel is in none of the three views. -/
theorem Sound.disableAll (sound : s.Sound) (live : s.objects p = some ch) :
    s.disableAll p ch =
      { s with
        objects := Function.update s.objects p
          (some { ch with channel := ch.channel.disableAll, inPoller := false })
        channels := Function.update s.channels ch.fd none
        interest := Function.update s.interest ch.fd none } := by
  have listed := sound.channels_fd live
  have entry := sound.entry ch.fd
  cases flagged : ch.inPoller with
  | true =>
      rw [flagged, if_pos rfl] at listed
      rw [listed] at entry
      obtain ⟨opened, _, _, _, _, known⟩ := entry
      simp [EpollPoller.disableAll, removeChannel, epollCtl, setObject, flagged, listed,
        opened, known, Function.update_idem]
  | false =>
      rw [flagged, if_neg Bool.false_ne_true] at listed
      rw [listed] at entry
      have unknown : s.interest ch.fd = none := entry
      have sameTable : Function.update s.channels ch.fd none = s.channels := by
        rw [← listed, Function.update_eq_self]
      have sameKernel : Function.update s.interest ch.fd none = s.interest := by
        rw [← unknown, Function.update_eq_self]
      rw [sameTable, sameKernel]
      simp [EpollPoller.disableAll, setObject, flagged]

/-! ## Every step keeps the invariant -/

/-- Rewriting a live channel together with its entries. -/
theorem Sound.rewrite (sound : s.Sound) (live : s.objects p = some ch)
    (sameFd : ch'.fd = ch.fd) (usable : ch'.inPoller = true → s.opened ch.fd = true) :
    Sound { s with
      objects := Function.update s.objects p (some ch')
      channels := Function.update s.channels ch.fd (if ch'.inPoller then some p else none)
      interest := Function.update s.interest ch.fd
        (if ch'.inPoller then some ⟨p, ch'.channel.events⟩ else none) } where
  entry := by
    intro fd
    by_cases mine : fd = ch.fd
    · subst mine
      simp only [Function.update_self]
      cases flagged : ch'.inPoller with
      | false => simp [Entry]
      | true =>
          refine ⟨usable flagged, ch', ?_, sameFd, flagged, ?_⟩
          · exact Function.update_self _ _ _
          · simp
    · have entry := sound.entry fd
      simp only [Function.update_of_ne mine]
      cases listed : s.channels fd with
      | none =>
          rw [listed] at entry
          exact (Function.update_of_ne mine _ _).trans entry
      | some q =>
          rw [listed] at entry
          obtain ⟨opened, other, found, otherFd, flagged, known⟩ := entry
          have different : q ≠ p := by
            rintro rfl
            cases live.symm.trans found
            exact mine otherFd.symm
          refine ⟨opened, other, ?_, otherFd, flagged, ?_⟩
          · exact (Function.update_of_ne different _ _).trans found
          · exact (Function.update_of_ne mine _ _).trans known
  flag := by
    intro q other found flagged
    simp only at found ⊢
    by_cases mine : q = p
    · subst mine
      rw [Function.update_self, Option.some.injEq] at found
      subst found
      rw [sameFd, Function.update_self, if_pos flagged]
    · rw [Function.update_of_ne mine] at found
      have otherFd : other.fd ≠ ch.fd :=
        fun same => mine (sound.single q p other ch found live same)
      rw [Function.update_of_ne otherFd]
      exact sound.flag q other found flagged
  single := by
    have before : ∀ q other, Function.update s.objects p (some ch') q = some other →
        ∃ old, s.objects q = some old ∧ old.fd = other.fd := by
      intro q other found
      by_cases mine : q = p
      · subst mine
        rw [Function.update_self, Option.some.injEq] at found
        exact ⟨ch, live, found ▸ sameFd.symm⟩
      · rw [Function.update_of_ne mine] at found
        exact ⟨other, found, rfl⟩
    intro q r first second foundFirst foundSecond same
    obtain ⟨oldFirst, liveFirst, fdFirst⟩ := before q first foundFirst
    obtain ⟨oldSecond, liveSecond, fdSecond⟩ := before r second foundSecond
    exact sound.single q r _ _ liveFirst liveSecond (fdFirst.trans (same.trans fdSecond.symm))

/-- A live channel that is in no view may be rewritten alone. -/
theorem Sound.setObject (sound : s.Sound) (live : s.objects p = some ch)
    (sameFd : ch'.fd = ch.fd) (notIn : ch.inPoller = false) (stays : ch'.inPoller = false) :
    (s.setObject p ch').Sound := by
  have listed := sound.channels_fd live
  have entry := sound.entry ch.fd
  rw [notIn, if_neg Bool.false_ne_true] at listed
  rw [listed] at entry
  have sameTable : Function.update s.channels ch.fd none = s.channels := by
    rw [← listed, Function.update_eq_self]
  have sameKernel : Function.update s.interest ch.fd none = s.interest := by
    rw [← (show s.interest ch.fd = none from entry), Function.update_eq_self]
  have rewritten := sound.rewrite live sameFd (by
    intro flagged
    rw [stays] at flagged
    cases flagged)
  rw [stays, if_neg Bool.false_ne_true, if_neg Bool.false_ne_true, sameTable,
    sameKernel] at rewritten
  exact rewritten

theorem Sound.change (sound : s.Sound) (live : s.objects p = some ch)
    (f : Channel → Channel) : (change f s p ch).Sound := by
  rcases @Sound.updateChannel s p ch { ch with channel := f ch.channel } sound live rfl with
    ⟨opened, updated⟩ | ⟨notIn, updated⟩
  · rw [EpollPoller.change, updated]
    exact @Sound.rewrite s p ch { ch with channel := f ch.channel, inPoller := true } sound
      live rfl fun _ => opened
  · rw [EpollPoller.change, updated]
    exact sound.setObject live rfl notIn notIn

theorem Sound.disabled (sound : s.Sound) (live : s.objects p = some ch) :
    (s.disableAll p ch).Sound := by
  rw [sound.disableAll live]
  exact @Sound.rewrite s p ch { ch with channel := ch.channel.disableAll, inPoller := false }
    sound live rfl fun flagged => (by cases flagged)

/-- A channel that is in no view may go. -/
theorem Sound.erase (sound : s.Sound) (live : s.objects p = some ch)
    (notIn : ch.inPoller = false) :
    Sound { s with objects := Function.update s.objects p none } where
  entry := by
    intro fd
    have entry := sound.entry fd
    cases listed : s.channels fd with
    | none =>
        rw [listed] at entry
        exact entry
    | some q =>
        rw [listed] at entry
        obtain ⟨opened, other, found, otherFd, flagged, known⟩ := entry
        have different : q ≠ p := by
          rintro rfl
          cases live.symm.trans found
          cases notIn.symm.trans flagged
        exact ⟨opened, other, (Function.update_of_ne different _ _).trans found, otherFd,
          flagged, known⟩
  flag := by
    intro q other found flagged
    simp only [Function.update_apply] at found
    split at found
    · cases found
    · exact sound.flag q other found flagged
  single := by
    intro q r first second foundFirst foundSecond same
    simp only [Function.update_apply] at foundFirst foundSecond
    split at foundFirst
    · cases foundFirst
    · split at foundSecond
      · cases foundSecond
      · exact sound.single q r first second foundFirst foundSecond same

theorem Sound.destroy (sound : s.Sound) (live : s.objects p = some ch) :
    (s.destroy p ch).Sound := by
  have sound' := sound.disabled live
  have now := sound.disableAll live
  have found : (s.disableAll p ch).objects p =
      some { ch with channel := ch.channel.disableAll, inPoller := false } := by
    rw [now]
    exact Function.update_self _ _ _
  exact sound'.erase found rfl

theorem Sound.use (sound : s.Sound) (live : s.objects p = some ch) (op : Use) :
    (use op s p ch).Sound := by
  cases op with
  | enableReading => exact sound.change live _
  | disableReading => exact sound.change live _
  | enableWriting => exact sound.change live _
  | disableWriting => exact sound.change live _
  | disableAll => exact sound.disabled live
  | destroy => exact sound.destroy live

theorem Sound.construct (sound : s.Sound) {fd : Nat} (free : s.objects p = none)
    (alone : ∀ q ch, s.objects q = some ch → ch.fd ≠ fd) :
    (EpollPoller.setObject s p { fd := fd }).Sound where
  entry := by
    intro fd'
    have entry := sound.entry fd'
    simp only [EpollPoller.setObject]
    cases listed : s.channels fd' with
    | none =>
        rw [listed] at entry
        exact entry
    | some q =>
        rw [listed] at entry
        obtain ⟨opened, other, found, otherFd, flagged, known⟩ := entry
        have different : q ≠ p := by
          rintro rfl
          cases free.symm.trans found
        exact ⟨opened, other, (Function.update_of_ne different _ _).trans found, otherFd,
          flagged, known⟩
  flag := by
    intro q other found flagged
    simp only [EpollPoller.setObject, Function.update_apply] at found
    split at found
    · cases found
      cases flagged
    · exact sound.flag q other found flagged
  single := by
    intro q r first second foundFirst foundSecond same
    simp only [EpollPoller.setObject, Function.update_apply] at foundFirst foundSecond
    split at foundFirst
    · rename_i mine
      split at foundSecond
      · rename_i mineToo
        rw [mine, mineToo]
      · cases foundFirst
        exact absurd same.symm (alone r second foundSecond)
    · split at foundSecond
      · cases foundSecond
        exact absurd same (alone q first foundFirst)
      · exact sound.single q r first second foundFirst foundSecond same

theorem Sound.close (sound : s.Sound) {fd : Nat}
    (left : ∀ p ch, s.objects p = some ch → ch.fd = fd → ch.inPoller = false) :
    Sound { s with
      opened := Function.update s.opened fd false
      interest := Function.update s.interest fd none } where
  entry := by
    intro fd'
    have entry := sound.entry fd'
    cases listed : s.channels fd' with
    | none =>
        rw [listed] at entry
        simp only [Entry, Function.update_apply]
        split
        · rfl
        · exact entry
    | some q =>
        rw [listed] at entry
        obtain ⟨opened, other, found, otherFd, flagged, known⟩ := entry
        have different : fd' ≠ fd := by
          rintro rfl
          cases flagged.symm.trans (left q other found otherFd)
        refine ⟨?_, other, found, otherFd, flagged, ?_⟩
        · exact (Function.update_of_ne different _ _).trans opened
        · exact (Function.update_of_ne different _ _).trans known
  flag := sound.flag
  single := sound.single

theorem Sound.acquire (sound : s.Sound) (fd : Nat) :
    Sound { s with opened := Function.update s.opened fd true } where
  entry := by
    intro fd'
    have entry := sound.entry fd'
    cases listed : s.channels fd' with
    | none =>
        rw [listed] at entry
        exact entry
    | some q =>
        rw [listed] at entry
        obtain ⟨opened, rest⟩ := entry
        refine ⟨?_, rest⟩
        simp only [Function.update_apply]
        split
        · rfl
        · exact opened
  flag := sound.flag
  single := sound.single

end

theorem Sound.step {s m : EpollPoller} {a : Action} {u : Unit} (sound : s.Sound)
    (allowed : s.Allowed a) (stepped : step s a = some (m, u)) : m.Sound := by
  cases a with
  | acquire fd =>
      cases stepped
      exact sound.acquire fd
  | construct p fd =>
      cases stepped
      exact sound.construct allowed.1 allowed.2
  | use op p =>
      obtain ⟨ch, live, same⟩ := Option.map_eq_some_iff.mp stepped
      cases same
      exact sound.use live op
  | close fd =>
      cases stepped
      exact sound.close allowed

/-- After every operation of every run the three views agree. -/
theorem agree_of_run {actions : List Action} {s : EpollPoller} {trace : List (Action × Unit)}
    (kept : Machine.Along step Allowed initial actions)
    (ran : Machine.run step initial actions = some (s, trace)) : s.Agree := by
  apply Sound.agree
  refine Machine.run_along (motive := fun _ s => s.Sound) ?_ sound_initial kept ran
  intro _ s a m u sound allowed stepped
  exact sound.step allowed stepped

/-- A channel is registered and taken out, its descriptor is closed, and after
its end a new channel takes over its address and descriptor. -/
theorem agree_of_reuse :
    let actions : List Action := [.acquire 5, .construct 1 5, .use .enableReading 1,
      .use .disableAll 1, .close 5, .use .destroy 1, .acquire 5, .construct 1 5,
      .use .enableReading 1, .use .enableWriting 1]
    Machine.Along step Allowed initial actions ∧
      ∃ s trace, Machine.run step initial actions = some (s, trace) ∧ s.Agree ∧
        s.interest 5 = some ⟨1, 0x80002005⟩ := by
  intro actions
  have kept : Machine.Along step Allowed initial actions := by
    simp [actions, Machine.Along, Allowed, step, use, enableReading, enableWriting, change,
      EpollPoller.updateChannel, epollCtl, EpollPoller.setObject, registered,
      EpollPoller.disableAll, removeChannel, EpollPoller.destroy, initial, Function.update_apply]
  exact ⟨kept, _, _, rfl, agree_of_run kept rfl, rfl⟩

end EpollPoller

end MiniNet
