import MiniNet.EventLoop.Timers
import MiniNet.TimerWheel

/-!
# Cancelling a timer of the wheel

As in the event loop, a timer that is cancelled stays cancelled if its callback
is not one of those that the current tick has still to call.  Here ids may
come round again, after `2 ^ 64` timers.
-/

namespace MiniNet

namespace TimerWheel

/-- The callback of the timer to be cancelled is not among those that the tick
has still to call. -/
def Punctual (s : State) : Action → Prop
  | .cancelTimer id => id ∉ s.firing
  | _ => True

instance decidablePunctual (s : State) : ∀ a, Decidable (Punctual s a)
  | .cancelTimer _ => inferInstanceAs (Decidable (_ ∉ _))
  | .addTimer _ | .tick | .call => inferInstanceAs (Decidable True)

def Action.isAddTimer : Action → Bool
  | .addTimer _ => true
  | _ => false

/-- The number of timers added. -/
def additions (actions : List Action) : Nat := actions.countP Action.isAddTimer

/-- The id of the timer that is added after `given` others. -/
def idAfter (given : Nat) : UInt64 := UInt64.ofNat (given + 1)

theorem idAfter_ne {i j : Nat} (earlier : i < j) (few : j < 2 ^ 64) :
    idAfter i ≠ idAfter j := by
  intro same
  have values := congrArg UInt64.toNat same
  rw [idAfter, idAfter, UInt64.toNat_ofNat', UInt64.toNat_ofNat'] at values
  omega

theorem idAfter_succ (given : Nat) : idAfter given + 1 = idAfter (given + 1) := by
  rw [idAfter, idAfter, ← UInt64.ofNat_one, ← UInt64.ofNat_add]

theorem additions_concat (trace : List (Action × Reply)) (last : Action × Reply) :
    additions ((trace ++ [last]).map Prod.fst) =
      additions (trace.map Prod.fst) + additions [last.1] := by
  rw [List.map_append, additions, List.countP_append]
  rfl

/-- The ids given out in a run. -/
structure Given (trace : List (Action × Reply)) (s : State) : Prop where
  next : s.wheel.nextId = idAfter (additions (trace.map Prod.fst))
  ids : ∀ timeoutMs id, (.addTimer timeoutMs, .added id) ∈ trace →
    ∃ i < additions (trace.map Prod.fst), id = idAfter i

/-- The timer has existed, is not in the wheel, and its callback is not going
to be called; `given` timers have been added up to now. -/
structure Gone (id : UInt64) (given : Nat) (s : State) : Prop where
  next : s.wheel.nextId = idAfter given
  earlier : ∃ i < given, id = idAfter i
  notEntered : ∀ e ∈ s.wheel.entries, e.id ≠ id
  notFiring : id ∉ s.firing

/-- However a run goes on after the timer was cancelled, its callback is not
called. -/
def StaysCancelled (tickMs wheelSize : Nat) (before : List Action) (id : UInt64)
    (after : List Action) : Prop :=
  ∀ s past t trace m,
    Machine.run step (start tickMs wheelSize) before = some (s, past) →
    (∃ timeoutMs, (.addTimer timeoutMs, .added id) ∈ past) →
    Machine.run step (start tickMs wheelSize) (before ++ .cancelTimer id :: after) =
      some (t, trace) →
    step t .call ≠ some (m, .called id)

theorem Given.step {trace : List (Action × Reply)} {s m : State} {a : Action}
    {reply : Reply} (given : Given trace s) (steps : Steps s a m reply) :
    Given (trace ++ [(a, reply)]) m := by
  obtain ⟨next, ids⟩ := given
  constructor
  · rw [additions_concat]
    cases steps with
    | addTimer _ =>
        simp only [next, idAfter_succ]
        rfl
    | _ => exact next
  · intro timeoutMs id member
    rw [additions_concat]
    rcases List.mem_append.mp member with old | new
    · obtain ⟨i, earlier, same⟩ := ids timeoutMs id old
      exact ⟨i, Nat.lt_add_right _ earlier, same⟩
    · cases List.mem_singleton.mp new
      cases steps with
      | addTimer _ => exact ⟨_, Nat.lt_succ_self _, next⟩

theorem given_run {tickMs wheelSize : Nat} {actions : List Action} {s : State}
    {trace : List (Action × Reply)}
    (ran : Machine.run step (start tickMs wheelSize) actions = some (s, trace)) :
    Given trace s :=
  Machine.run_induct (motive := Given)
    (fun _ _ _ _ _ given stepped => given.step (steps_of_step stepped))
    ⟨rfl, fun _ _ member => by cases member⟩ ran

theorem Gone.of_cancelTimer {trace : List (Action × Reply)} {s : State} {id : UInt64}
    {timeoutMs : Int32} (given : Given trace s)
    (added : (.addTimer timeoutMs, .added id) ∈ trace) (punctual : id ∉ s.firing) :
    Gone id (additions (trace.map Prod.fst))
      { s with wheel := s.wheel.cancelTimer id } where
  next := given.next
  earlier := given.ids timeoutMs id added
  notEntered e member := by
    simpa using (List.mem_filter.mp member).2
  notFiring := punctual

/-- A timer that is gone stays so until the ids come round, and its callback
is not called. -/
theorem Gone.step {id : UInt64} {given : Nat} {s m : State} {a : Action} {reply : Reply}
    (gone : Gone id given s) (few : given + additions [a] ≤ 2 ^ 64)
    (steps : Steps s a m reply) :
    Gone id (given + additions [a]) m ∧ reply ≠ .called id := by
  obtain ⟨next, earlier, notEntered, notFiring⟩ := gone
  cases steps with
  | addTimer _ =>
      obtain ⟨i, before, rfl⟩ := earlier
      refine ⟨⟨?_, ⟨i, Nat.lt_add_right _ before, rfl⟩, ?_, notFiring⟩, nofun⟩
      · simp only [next, idAfter_succ]
        rfl
      · intro e member
        rcases List.mem_append.mp member with old | new
        · exact notEntered e old
        · rw [List.mem_singleton.mp new, next]
          exact (idAfter_ne before few).symm
  | cancelTimer =>
      refine ⟨⟨next, earlier, ?_, notFiring⟩, nofun⟩
      intro e member
      exact notEntered e (List.mem_filter.mp member).1
  | tick _ =>
      have counted : ∀ e ∈ s.wheel.entries.map Entry.countDown, e.id ≠ id := by
        intro e member
        obtain ⟨old, inside, rfl⟩ := List.mem_map.mp member
        exact notEntered old inside
      refine ⟨⟨next, earlier, ?_, ?_⟩, nofun⟩
      · intro e member
        exact counted e (List.mem_filter.mp member).1
      · intro member
        obtain ⟨e, due, same⟩ := List.mem_map.mp member
        exact counted e (List.mem_filter.mp due).1 same
  | call firing =>
      rw [firing, List.mem_cons, not_or] at notFiring
      refine ⟨⟨next, earlier, notEntered, notFiring.2⟩, ?_⟩
      intro called
      cases called
      exact notFiring.1 rfl

theorem gone_run {id : UInt64} {given : Nat} {actions : List Action} {s t : State}
    {trace : List (Action × Reply)} (gone : Gone id given s)
    (few : given + additions actions ≤ 2 ^ 64)
    (ran : Machine.run step s actions = some (t, trace)) :
    Gone id (given + additions actions) t := by
  have kept := Machine.run_induct
    (motive := fun trace t => given + additions (trace.map Prod.fst) ≤ 2 ^ 64 →
      Gone id (given + additions (trace.map Prod.fst)) t)
    (fun past s a m reply kept stepped bound => by
      rw [additions_concat, ← Nat.add_assoc] at bound ⊢
      exact ((kept (by omega)).step bound (steps_of_step stepped)).1)
    (fun _ => gone) ran
  rw [Machine.map_fst_run ran] at kept
  exact kept few

theorem staysCancelled_of_punctual {tickMs wheelSize : Nat} {before after : List Action}
    {id : UInt64} (few : additions (before ++ Action.cancelTimer id :: after) ≤ 2 ^ 64)
    (punctual : Machine.Along step Punctual (start tickMs wheelSize)
      (before ++ Action.cancelTimer id :: after)) :
    StaysCancelled tickMs wheelSize before id after := by
  rintro s past t trace m ranBefore ⟨timeoutMs, added⟩ ran stepped
  obtain ⟨later, ranLater⟩ := Machine.run_continues ranBefore ran
  obtain ⟨c, _, rest, cancelled, continued, _⟩ := Machine.run_cons_eq_some.mp ranLater
  have notFiring := ((Machine.along_append.mp punctual).2 s past ranBefore).1
  have bound : additions (past.map Prod.fst) + additions after ≤ 2 ^ 64 := by
    rw [Machine.map_fst_run ranBefore]
    rw [additions, List.countP_append, List.countP_cons] at few
    exact few
  cases cancelled
  have gone := gone_run (Gone.of_cancelTimer (given_run ranBefore) added notFiring)
    bound continued
  exact (gone.step (a := .call) bound (steps_of_step stepped)).2 rfl

/-! ## The loop and the wheel -/

/-- In the event loop and in the wheel, a timer that is cancelled is never
started again, in every run in which no timer is cancelled whose callback has
been collected and not yet started, and, for the wheel, no id comes round. -/
theorem cancelled_not_started {τ φ : Type*} [DecidableEq τ] :
    (∀ (owner : τ) (before : List (EventLoop.Input τ φ)) (id : Int)
        (after : List (EventLoop.Input τ φ)),
      Machine.Along EventLoop.step EventLoop.Punctual (EventLoop.create owner)
          (before ++ .cancelTimer id :: after) →
        EventLoop.StaysCancelled owner before id after) ∧
      ∀ (tickMs wheelSize : Nat) (before : List Action) (id : UInt64)
          (after : List Action),
        additions (before ++ .cancelTimer id :: after) ≤ 2 ^ 64 →
        Machine.Along step Punctual (start tickMs wheelSize)
            (before ++ .cancelTimer id :: after) →
          StaysCancelled tickMs wheelSize before id after :=
  ⟨fun _ _ _ _ => EventLoop.staysCancelled_of_punctual,
    fun _ _ _ _ _ => staysCancelled_of_punctual⟩

/-- Two timers of the loop are due together, and the callback of the first one
runs. -/
def loopBatch : List (EventLoop.Input Bool Unit) :=
  [.runEvery 1 0, .runEvery 1 0, .loop, .advance 0, .advance 0, .advance 0,
    .waitReturns [], .advance 0, .advance 2000000]

/-- Two timers of the wheel are due together, and the callback of the first one
runs. -/
def wheelBatch : List Action := [.addTimer 100, .addTimer 100, .tick, .call]

theorem cancelled_not_started_self :
    Machine.Along EventLoop.step EventLoop.Punctual (EventLoop.create false)
        (loopBatch ++ .cancelTimer 1 :: [.advance 0]) ∧
      EventLoop.StaysCancelled false loopBatch 1 [.advance 0] ∧
      Machine.Along step Punctual (start 100 60) (wheelBatch ++ .cancelTimer 1 :: [.call]) ∧
      StaysCancelled 100 60 wheelBatch 1 [.call] := by
  have loopPunctual : Machine.Along EventLoop.step EventLoop.Punctual
      (EventLoop.create false) (loopBatch ++ .cancelTimer 1 :: [.advance 0]) := by
    decide +kernel
  have wheelPunctual : Machine.Along step Punctual (start 100 60)
      (wheelBatch ++ .cancelTimer 1 :: [.call]) := by
    decide +kernel
  exact ⟨loopPunctual, cancelled_not_started.1 _ _ _ _ loopPunctual, wheelPunctual,
    (cancelled_not_started (τ := Bool) (φ := Unit)).2 _ _ _ _ _ (by decide) wheelPunctual⟩

/-- The first callback cancels the second timer, whose callback is started all
the same. -/
theorem cancelled_started_in_batch :
    (¬∀ (owner : Bool) (before : List (EventLoop.Input Bool Unit)) (id : Int)
        (after : List (EventLoop.Input Bool Unit)),
      EventLoop.StaysCancelled owner before id after) ∧
      ¬∀ (tickMs wheelSize : Nat) (before : List Action) (id : UInt64)
        (after : List Action), StaysCancelled tickMs wheelSize before id after := by
  constructor
  · intro stays
    have given : (Machine.run EventLoop.step (EventLoop.create false) loopBatch).any
        (fun last => 2 < last.1.nextTimerId) = true := by
      decide +kernel
    have started : ((Machine.run EventLoop.step (EventLoop.create false)
        (loopBatch ++ .cancelTimer 2 :: [])).bind fun last =>
          EventLoop.step last.1 (.advance 0)).any
            (fun next => next.1.runningTimer = some 2) = true := by
      decide +kernel
    obtain ⟨⟨s, past⟩, ranBefore, older⟩ := (Option.any_eq_true _ _).mp given
    obtain ⟨⟨m, b⟩, found, running⟩ := (Option.any_eq_true _ _).mp started
    obtain ⟨⟨t, trace⟩, ran, stepped⟩ := Option.bind_eq_some_iff.mp found
    exact stays false loopBatch 2 [] s past t trace 0 m b ranBefore
      (of_decide_eq_true older) ran stepped (of_decide_eq_true running)
  · intro stays
    have given : (Machine.run step (start 100 60) wheelBatch).any
        (fun last => (.addTimer 100, .added 2) ∈ last.2) = true := by
      decide +kernel
    have called : ((Machine.run step (start 100 60)
        (wheelBatch ++ .cancelTimer 2 :: [])).bind fun last => step last.1 .call).any
          (fun next => next.2 = .called 2) = true := by
      decide +kernel
    obtain ⟨⟨s, past⟩, ranBefore, added⟩ := (Option.any_eq_true _ _).mp given
    obtain ⟨⟨m, reply⟩, found, isCall⟩ := (Option.any_eq_true _ _).mp called
    obtain ⟨⟨t, trace⟩, ran, stepped⟩ := Option.bind_eq_some_iff.mp found
    cases of_decide_eq_true isCall
    exact stays 100 60 wheelBatch 2 [] s past t trace m ranBefore
      ⟨100, of_decide_eq_true added⟩ ran stepped

end TimerWheel

end MiniNet
