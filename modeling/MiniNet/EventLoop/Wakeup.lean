import MiniNet.EventLoop.Order

/-!
# Wakeups

If the loop's own thread pushes only inside `loop()`, the loop never blocks
without a timeout on functors that nobody is going to announce.  A functor
that is pushed on the loop's own thread before `loop()` is called is not
announced: its thread is the owner and `calling_pending_` is not set.
-/

namespace MiniNet

namespace EventLoop

variable {τ φ : Type*}

/-- The loop is blocked without a timeout, the eventfd is silent, functors are
pending, and no thread has still to decide about a wakeup for one. -/
def LostWakeup (s : EventLoop τ φ) : Prop :=
  s.position = .waiting (-1) ∧ s.counter = 0 ∧ s.pending ≠ [] ∧
    ∀ t, s.stage t ≠ .pushed

/-- The places from which the loop swaps before it waits. -/
def Position.awaitsSwap : Position φ → Bool
  | .dispatching _ | .inChannel _ | .draining _ | .beforeTimers | .inTimers _
  | .beforePending | .swapping => true
  | _ => false

/-- The places at which `calling_pending_` is set. -/
def Position.callsPending : Position φ → Bool
  | .swapping | .batch _ | .inFunctor _ => true
  | _ => false

/-- Pending functors are announced: by the eventfd, by a thread that is going
to ring it, or by the place of the loop. -/
structure Announced (s : EventLoop τ φ) : Prop where
  calling : s.callingPending = s.position.callsPending
  own : s.stage s.owner = .pushed →
    s.position.awaitsSwap = true ∨ s.position.callsPending = true
  pending : s.pending ≠ [] →
    0 < s.counter ∨ (∃ t, s.stage t = .pushed) ∨ s.position.awaitsSwap = true

theorem counter_wakeup (s : EventLoop τ φ) : 0 < s.wakeup.counter := by
  simp only [wakeup]
  split <;> omega

private theorem counter_le_wakeup (s : EventLoop τ φ) :
    s.counter ≤ s.wakeup.counter := by
  simp only [wakeup]
  split <;> omega

/-- Inside `loop()`, user code runs before the swap or in a functor. -/
private theorem awaits_or_calls {place : Position φ}
    (userCode : place.inUserCode = true) (inside : place ≠ .outside) :
    place.awaitsSwap = true ∨ place.callsPending = true := by
  cases place with
  | outside => exact absurd rfl inside
  | inChannel | inTimers => exact .inl rfl
  | inFunctor => exact .inr rfl
  | entered | testing | polling | waiting | dispatching | draining
  | beforeTimers | beforePending | swapping | batch => cases userCode

/-- A call of another thread or of the loop's own that pushes nothing and
silences nothing. -/
private theorem Announced.called {s m : EventLoop τ φ} (announced : Announced s)
    (calling : m.callingPending = s.callingPending)
    (position : m.position = s.position) (pending : m.pending = s.pending)
    (louder : s.counter ≤ m.counter)
    (stages : ∀ t, m.stage t = .pushed ↔ s.stage t = .pushed)
    (owner : m.owner = s.owner) : Announced m := by
  refine
    { calling := by rw [calling, position, announced.calling]
      own := ?_
      pending := ?_ }
  · rw [owner, stages, position]
    exact announced.own
  · rw [pending, position]
    intro some_pending
    rcases announced.pending some_pending with rung | ⟨t, waiting⟩ | awaits
    · exact .inl (Nat.lt_of_lt_of_le rung louder)
    · exact .inr (.inl ⟨t, (stages t).mpr waiting⟩)
    · exact .inr (.inr awaits)

/-- The loop's own thread goes on to another place. -/
private theorem Announced.moves {s m : EventLoop τ φ} (announced : Announced s)
    (idle : s.stage s.owner = .idle)
    (same : m.owner = s.owner ∧ m.stage = s.stage ∧ m.pending = s.pending ∧
      m.counter = s.counter)
    (calling : m.callingPending = m.position.callsPending)
    (awaits : s.position.awaitsSwap = true → m.position.awaitsSwap = true) :
    Announced m := by
  obtain ⟨owner, stages, pending, counter⟩ := same
  refine
    { calling
      own := ?_
      pending := ?_ }
  · rw [owner, stages, idle]
    intro busy
    cases busy
  · rw [pending, counter, stages]
    intro some_pending
    rcases announced.pending some_pending with rung | waiting | before
    · exact .inl rung
    · exact .inr (.inl waiting)
    · exact .inr (.inr (awaits before))

private theorem Announced.advance {s m : EventLoop τ φ} {b : Output φ}
    (announced : Announced s) (idle : s.stage s.owner = .idle)
    (advances : Advances s m b) : Announced m := by
  cases advances with
  | swap place =>
      exact
        { calling := announced.calling.trans (by rw [place]; rfl)
          own := fun busy => by rw [idle] at busy; cases busy
          pending := fun some_pending => absurd rfl some_pending }
  | drain place rung =>
      exact
        { calling := announced.calling
          own := announced.own
          pending := fun _ => .inr (.inr (by rw [place]; rfl)) }
  | setCalling place | clearCalling place =>
      exact announced.moves idle ⟨rfl, rfl, rfl, rfl⟩ rfl (by rw [place]; exact id)
  | reset place | leave place _ | goOn place _ | wait _ place | dispatched place
  | handleWakeup place | handleEvent place | channelReturns place
  | drained place _ | collect _ place | timersDone place | timerReturns place
  | call place | functorReturns place =>
      exact announced.moves idle ⟨rfl, rfl, rfl, rfl⟩
        (announced.calling.trans (by rw [place]; rfl)) (by rw [place]; exact id)

/-! ## The calls of all threads -/

variable [DecidableEq τ]

/-- The loop's own thread pushes only inside `loop()`. -/
def PushesInside (s : EventLoop τ φ) : Input τ φ → Prop
  | .push t _ => s.isInLoopThread t → s.position ≠ .outside
  | _ => True

instance decidablePushesInside [DecidableEq φ] (s : EventLoop τ φ) :
    ∀ a, Decidable (PushesInside s a)
  | .push _ _ => inferInstanceAs (Decidable (_ → _))
  | .decide _ | .quit _ | .ring _ | .wakeup _ | .runEvery _ _ | .cancelTimer _
  | .loop | .advance _ | .waitReturns _ | .waitFails => inferInstanceAs (Decidable True)

private theorem Announced.push {s : EventLoop τ φ} {t : τ} {f : φ}
    (announced : Announced s) (may : s.mayCall t = true)
    (inside : PushesInside s (.push t f)) :
    Announced { s.setStage t .pushed with pending := s.pending ++ [f] } := by
  refine
    { calling := announced.calling
      own := ?_
      pending := fun _ => .inr (.inl ⟨t, by simp [setStage]⟩) }
  intro pushedOwn
  by_cases own : s.owner = t
  · obtain ⟨_, userCode⟩ : s.stage t = .idle ∧ s.position.inUserCode = true := by
      simpa [mayCall, isInLoopThread, own] using may
    exact awaits_or_calls userCode (inside (by simp [isInLoopThread, own]))
  · apply announced.own
    simpa [setStage, own] using pushedOwn

/-- The end of `queueInLoop` rings, unless the loop swaps before it waits. -/
private theorem Announced.decide {s : EventLoop τ φ} {t : τ}
    (announced : Announced s) (waiting : s.stage t = .pushed) :
    Announced ((s.decideWakeup t).setStage t .idle) := by
  have own : ∀ m : EventLoop τ φ, m.owner = s.owner → m.stage = s.stage →
      m.position = s.position → (m.setStage t .idle).stage m.owner = .pushed →
      m.position.awaitsSwap = true ∨ m.position.callsPending = true := by
    intro m sameOwner sameStage samePosition pushedOwn
    by_cases here : m.owner = t
    · simp [setStage, here] at pushedOwn
    · rw [samePosition]
      apply announced.own
      rw [← sameOwner, ← sameStage]
      simpa [setStage, here] using pushedOwn
  unfold decideWakeup
  split
  · exact
      { calling := announced.calling
        own := own s.wakeup rfl rfl rfl
        pending := fun _ => .inl (counter_wakeup s) }
  · rename_i silent
    obtain ⟨here, notCalling⟩ : s.owner = t ∧ s.callingPending = false := by
      simpa [isInLoopThread] using silent
    have awaits : s.position.awaitsSwap = true := by
      rcases announced.own (by rw [here, waiting]) with awaits | calls
      · exact awaits
      · rw [← announced.calling, notCalling] at calls
        cases calls
    exact
      { calling := announced.calling
        own := own s rfl rfl rfl
        pending := fun _ => .inr (.inr awaits) }

/-- A thread that is not between a push and its decision changes its stage. -/
private theorem setStage_pushed {s : EventLoop τ φ} {t : τ} {stage : Stage}
    (before : s.stage t ≠ .pushed) (after : stage ≠ .pushed) (other : τ) :
    (s.setStage t stage).stage other = .pushed ↔ s.stage other = .pushed := by
  by_cases here : other = t
  · subst here
    simp [setStage, before, after]
  · simp [setStage, here]

theorem Announced.step {s m : EventLoop τ φ} {a : Input τ φ} {b : Output φ}
    (announced : Announced s) (inside : PushesInside s a)
    (stepped : s.step a = some (m, b)) : Announced m := by
  cases steps_of_step stepped with
  | push may => exact announced.push may inside
  | decide waiting => exact announced.decide waiting
  | quitOwn may own =>
      exact announced.called rfl rfl rfl (Nat.le_refl _) (fun _ => Iff.rfl) rfl
  | @quit t may other =>
      have idle : s.stage t = .idle := by
        simp only [mayCall, Bool.and_eq_true, beq_iff_eq] at may
        exact may.1
      exact announced.called rfl rfl rfl (Nat.le_refl _)
        (setStage_pushed (by simp [idle]) (by simp)) rfl
  | ring quitting =>
      exact announced.called rfl rfl rfl (counter_le_wakeup s)
        (setStage_pushed (s := s.wakeup) (by simp [EventLoop.wakeup, quitting]) (by simp)) rfl
  | wakeup may =>
      exact announced.called rfl rfl rfl (counter_le_wakeup s) (fun _ => Iff.rfl) rfl
  | runEvery may | cancelTimer may =>
      exact announced.called rfl rfl rfl (Nat.le_refl _) (fun _ => Iff.rfl) rfl
  | enter idle place =>
      exact announced.moves idle ⟨rfl, rfl, rfl, rfl⟩
        (announced.calling.trans (by rw [place]; rfl)) (by rw [place]; exact id)
  | advance idle advances => exact announced.advance idle advances
  | waitReturns idle place _ | waitFails idle place =>
      exact announced.moves idle ⟨rfl, rfl, rfl, rfl⟩
        (announced.calling.trans (by rw [place]; rfl)) (fun _ => rfl)

/-- If the loop's own thread calls `queueInLoop` only inside `loop()`, then no
run loses a wakeup. -/
theorem run_not_lostWakeup {owner : τ} {inputs : List (Input τ φ)}
    {s : EventLoop τ φ} {history : History τ φ}
    (inside : Machine.Along step PushesInside (create owner) inputs)
    (ran : Machine.run step (create owner) inputs = some (s, history)) :
    ¬ s.LostWakeup := by
  have announced : Announced s := Machine.run_along
    (motive := fun _ s => Announced s)
    (fun _ s a m b announced allowed stepped => announced.step allowed stepped)
    { calling := rfl
      own := fun busy => by cases busy
      pending := fun some_pending => absurd rfl some_pending } inside ran
  rintro ⟨place, silent, some_pending, nobody⟩
  rcases announced.pending some_pending with rung | ⟨t, waiting⟩ | awaits
  · omega
  · exact nobody t waiting
  · rw [place] at awaits
    cases awaits

theorem run_not_lostWakeup_nestedPush :
    ∃ (s : EventLoop Bool Nat) (history : History Bool Nat),
      Machine.run step (create true) nestedPush = some (s, history) ∧ ¬ s.LostWakeup := by
  obtain ⟨⟨s, history⟩, ran⟩ := Option.isSome_iff_exists.mp
    (show (Machine.run step (create true) nestedPush).isSome = true by decide)
  exact ⟨s, history, ran, run_not_lostWakeup (by decide) ran⟩

/-- The loop's own thread queues a functor and then calls `loop()`. -/
def queuedBeforeLoop : List (Input Bool Nat) :=
  [.push true 7, .decide true, .loop, .advance 0, .advance 0, .advance 0]

theorem queuedBeforeLoop_lostWakeup :
    ∃ (s : EventLoop Bool Nat) (history : History Bool Nat),
      Machine.run step (create true) queuedBeforeLoop = some (s, history) ∧
        s.LostWakeup :=
  ⟨_, _, rfl, rfl, rfl, by decide, by decide⟩

end EventLoop

end MiniNet
