import MiniNet.EventLoop
import Mathlib.Data.List.Nodup

/-!
# Cancelled timers

The loop collects the callbacks that are due and then calls them one after
the other.  A cancellation removes the timer from the loop's vector, but not
its callback from the ones already collected.  A timer that is cancelled while
its callback is not among these is never started again.
-/

namespace MiniNet

namespace EventLoop

variable {τ φ : Type*}

/-- The timers whose callbacks `runDueTimers` has collected and not finished;
the first of them runs. -/
def Position.callbacks : Position φ → List Int
  | .inTimers due => due
  | _ => []

/-- The callbacks collected and not yet started. -/
def awaiting (s : EventLoop τ φ) : List Int := s.position.callbacks.tail

/-- The callback that runs. -/
def runningTimer (s : EventLoop τ φ) : Option Int := s.position.callbacks.head?

/-! ## What a step does to the timers -/

inductive TimerSteps (s m : EventLoop τ φ) : Input τ φ → Prop
  /-- A step that has nothing to do with timers. -/
  | same {a : Input τ φ} : (∀ now, a ≠ .advance now) → m.timers = s.timers →
      m.nextTimerId = s.nextTimerId → m.position.callbacks = s.position.callbacks →
      TimerSteps s m a
  | runEvery {intervalMs now : Int} : m = s.runEvery intervalMs now →
      TimerSteps s m (.runEvery intervalMs now)
  | cancelTimer {id : Int} : m = s.cancelTimer id → TimerSteps s m (.cancelTimer id)
  /-- The next callback is started, or there is none. -/
  | next {now : Int} : m.timers = s.timers → m.nextTimerId = s.nextTimerId →
      m.position.callbacks = s.position.callbacks.tail → TimerSteps s m (.advance now)
  /-- The due callbacks are collected, and the first of them is started. -/
  | collect {now clock : Int} : m.timers = (collectDue s.timers clock).1 →
      m.nextTimerId = s.nextTimerId →
      m.position.callbacks = (collectDue s.timers clock).2 → TimerSteps s m (.advance now)

private theorem timerSteps_of_advances {s m : EventLoop τ φ} {b : Output φ}
    (advances : Advances s m b) (now : Int) : TimerSteps s m (.advance now) := by
  cases advances with
  | collect clock place => exact .collect rfl rfl rfl
  | wait clock place =>
      refine .next rfl rfl ?_
      simp only [place]
      rfl
  | _ place =>
      refine .next rfl rfl ?_
      simp only [place]
      rfl

section

variable [DecidableEq τ]

theorem timerSteps_of_steps {s m : EventLoop τ φ} {a : Input τ φ} {b : Output φ}
    (steps : Steps s a m b) : TimerSteps s m a := by
  cases steps with
  | advance _ advances => exact timerSteps_of_advances advances _
  | runEvery _ => exact .runEvery rfl
  | cancelTimer _ => exact .cancelTimer rfl
  | @decide t _ =>
      unfold decideWakeup
      split
      · exact .same (fun _ same => by cases same) rfl rfl rfl
      · exact .same (fun _ same => by cases same) rfl rfl rfl
  | enter _ place =>
      refine .same (fun _ same => by cases same) rfl rfl ?_
      rw [place]
      rfl
  | waitReturns _ place _ =>
      refine .same (fun _ same => by cases same) rfl rfl ?_
      rw [place]
      rfl
  | waitFails _ place =>
      refine .same (fun _ same => by cases same) rfl rfl ?_
      rw [place]
      rfl
  | _ => exact .same (fun _ same => by cases same) rfl rfl rfl

end

/-! ## Ids -/

theorem map_id_collectDue (timers : List TimedTask) (now : Int) :
    (collectDue timers now).1.map (·.id) = timers.map (·.id) := by
  rw [collectDue, List.map_map]
  refine List.map_congr_left fun t _ => ?_
  simp only [Function.comp_apply]
  split <;> rfl

theorem mem_of_mem_collectDue {timers : List TimedTask} {now id : Int}
    (due : id ∈ (collectDue timers now).2) : id ∈ timers.map (·.id) := by
  simp only [collectDue, List.mem_map, List.mem_filter] at due ⊢
  obtain ⟨t, ⟨member, _⟩, same⟩ := due
  exact ⟨t, member, same⟩

/-- The registered timers have different ids, all of them given out before. -/
structure Registered (s : EventLoop τ φ) : Prop where
  distinct : (s.timers.map (·.id)).Nodup
  given : ∀ id ∈ s.timers.map (·.id), id < s.nextTimerId

theorem registered_create (owner : τ) :
    Registered (create owner : EventLoop τ φ) where
  distinct := List.nodup_nil
  given _ member := by cases member

theorem map_id_cancelTimer {s : EventLoop τ φ} (id : Int) :
    (s.cancelTimer id).timers.map (·.id) = (s.timers.map (·.id)).erase id := by
  rw [List.erase_eq_eraseP', List.eraseP_map]
  rfl

theorem Registered.step {s m : EventLoop τ φ} {a : Input τ φ}
    (registered : Registered s) (steps : TimerSteps s m a) : Registered m := by
  obtain ⟨distinct, given⟩ := registered
  cases steps with
  | same _ timers next _ =>
      rw [← timers] at distinct given
      rw [← next] at given
      exact ⟨distinct, given⟩
  | runEvery same =>
      subst same
      constructor
      · rw [runEvery, List.map_append]
        refine List.nodup_append.mpr ⟨distinct, List.nodup_singleton _, ?_⟩
        intro id member new isNew
        have older := given id member
        rw [List.mem_singleton.mp isNew]
        exact Int.ne_of_lt older
      · intro id member
        rw [runEvery, List.map_append, List.mem_append] at member
        rcases member with old | new
        · exact Int.lt_add_one_of_le (Int.le_of_lt (given id old))
        · rw [List.mem_singleton.mp new]
          exact Int.lt_succ _
  | cancelTimer same =>
      subst same
      constructor
      · rw [map_id_cancelTimer]
        exact distinct.erase _
      · intro id member
        rw [map_id_cancelTimer] at member
        exact given id (List.mem_of_mem_erase member)
  | next timers next _ =>
      rw [← timers] at distinct given
      rw [← next] at given
      exact ⟨distinct, given⟩
  | @collect now clock timers next _ =>
      rw [← map_id_collectDue s.timers clock, ← timers] at distinct given
      rw [← next] at given
      exact ⟨distinct, given⟩

/-! ## Cancellation -/

/-- The callback of the timer to be cancelled is not among those collected and
not yet started. -/
def Punctual (s : EventLoop τ φ) : Input τ φ → Prop
  | .cancelTimer id => id ∉ s.awaiting
  | _ => True

instance decidablePunctual (s : EventLoop τ φ) : ∀ a, Decidable (Punctual s a)
  | .cancelTimer _ => inferInstanceAs (Decidable (_ ∉ _))
  | .push _ _ | .decide _ | .quit _ | .ring _ | .wakeup _ | .runEvery _ _ | .loop
  | .advance _ | .waitReturns _ | .waitFails => inferInstanceAs (Decidable True)

/-- The timer has existed, is not registered, and its callback is not going to
be started. -/
structure Gone (id : Int) (s : EventLoop τ φ) : Prop where
  given : id < s.nextTimerId
  unregistered : id ∉ s.timers.map (·.id)
  notAwaiting : id ∉ s.awaiting

theorem Gone.of_cancelTimer {s : EventLoop τ φ} {id : Int} (registered : Registered s)
    (given : id < s.nextTimerId) (punctual : id ∉ s.awaiting) :
    Gone id (s.cancelTimer id) where
  given := given
  unregistered := by
    rw [map_id_cancelTimer]
    exact registered.distinct.not_mem_erase
  notAwaiting := punctual

/-- A timer that is gone stays so, and the step does not start its callback. -/
theorem Gone.step {id : Int} {s m : EventLoop τ φ} {a : Input τ φ} (gone : Gone id s)
    (steps : TimerSteps s m a) :
    Gone id m ∧ ∀ now, a = .advance now → m.runningTimer ≠ some id := by
  obtain ⟨given, unregistered, notAwaiting⟩ := gone
  cases steps with
  | same notAdvance timers next callbacks =>
      refine ⟨⟨next ▸ given, timers ▸ unregistered, ?_⟩, ?_⟩
      · rwa [awaiting, callbacks]
      · intro now advance
        exact absurd advance (notAdvance now)
  | runEvery same =>
      subst same
      refine ⟨⟨?_, ?_, notAwaiting⟩, nofun⟩
      · exact Int.lt_add_one_of_le (Int.le_of_lt given)
      · rw [runEvery, List.map_append, List.mem_append, List.map_singleton,
          List.mem_singleton]
        rintro (old | new)
        · exact unregistered old
        · exact Int.ne_of_lt given new
  | cancelTimer same =>
      subst same
      refine ⟨⟨given, ?_, notAwaiting⟩, nofun⟩
      rw [map_id_cancelTimer]
      exact fun member => unregistered (List.mem_of_mem_erase member)
  | next timers next callbacks =>
      refine ⟨⟨next ▸ given, timers ▸ unregistered, ?_⟩, ?_⟩
      · rw [awaiting, callbacks]
        exact fun member => notAwaiting (List.mem_of_mem_tail member)
      · intro now _ running
        rw [runningTimer, callbacks] at running
        exact notAwaiting (List.mem_of_mem_head? running)
  | collect timers next callbacks =>
      have notDue : id ∉ m.position.callbacks := by
        rw [callbacks]
        exact fun due => unregistered (mem_of_mem_collectDue due)
      refine ⟨⟨next ▸ given, ?_, ?_⟩, ?_⟩
      · rw [timers, map_id_collectDue]
        exact unregistered
      · exact fun member => notDue (List.mem_of_mem_tail member)
      · intro now _ running
        exact notDue (List.mem_of_mem_head? running)

section

variable [DecidableEq τ]

/-- However a run goes on after the timer was cancelled, no step of the loop
starts the callback of the timer. -/
def StaysCancelled (owner : τ) (before : List (Input τ φ)) (id : Int)
    (after : List (Input τ φ)) : Prop :=
  ∀ s past t trace now m b,
    Machine.run step (create owner) before = some (s, past) → id < s.nextTimerId →
    Machine.run step (create owner) (before ++ .cancelTimer id :: after) =
      some (t, trace) →
    step t (.advance now) = some (m, b) → m.runningTimer ≠ some id

theorem registered_run {owner : τ} {inputs : List (Input τ φ)} {s : EventLoop τ φ}
    {trace : List (Input τ φ × Output φ)}
    (ran : Machine.run step (create owner) inputs = some (s, trace)) : Registered s :=
  Machine.run_induct (motive := fun _ s => Registered s)
    (fun _ _ _ _ _ registered stepped =>
      registered.step (timerSteps_of_steps (steps_of_step stepped)))
    (registered_create owner) ran

theorem staysCancelled_of_punctual {owner : τ} {before after : List (Input τ φ)} {id : Int}
    (punctual : Machine.Along step Punctual (create owner)
      (before ++ Input.cancelTimer id :: after)) :
    StaysCancelled owner before id after := by
  intro s past t trace now m b ranBefore given ran stepped
  obtain ⟨later, ranLater⟩ := Machine.run_continues ranBefore ran
  obtain ⟨c, _, rest, cancelled, continued, _⟩ := Machine.run_cons_eq_some.mp ranLater
  have notCollected := ((Machine.along_append.mp punctual).2 s past ranBefore).1
  cases steps_of_step cancelled with
  | cancelTimer _ =>
      have gone : Gone id t := Machine.run_induct (motive := fun _ s => Gone id s)
        (fun _ _ _ _ _ gone stepped =>
          (gone.step (timerSteps_of_steps (steps_of_step stepped))).1)
        (Gone.of_cancelTimer (registered_run ranBefore) given notCollected) continued
      exact (gone.step (timerSteps_of_steps (steps_of_step stepped))).2 now rfl

end

end EventLoop

end MiniNet
