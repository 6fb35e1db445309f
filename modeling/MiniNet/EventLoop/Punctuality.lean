import MiniNet.EventLoop.Timers
import Mathlib.Data.List.Chain

/-!
# Timers and the time

The loop with the clock, which does not go back.  A timer is never early: its
callback is collected at intervals that are at least its own.  It is not late
either, beyond what the system and the callbacks take: `nextTimeoutMs` never
lets the loop sleep past a timer that is due.  If a wait lasts at most `late`
longer than its timeout and the loop is back at the wait after at most `work`,
then no timer is overdue by more than `2 * work + late`.

A step is taken at a time, and what it reads from the clock is that time.
Times are in nanoseconds.
-/

namespace MiniNet

namespace EventLoop

variable {τ φ : Type*}

/-! ## The length of a wait -/

private theorem foldl_min_le {α : Type*} (f : α → Int) (xs : List α) (bound : Int) :
    xs.foldl (fun best x => min best (f x)) bound ≤ bound ∧
      ∀ x ∈ xs, xs.foldl (fun best x => min best (f x)) bound ≤ f x := by
  induction xs generalizing bound with
  | nil => exact ⟨Int.le_refl _, fun _ member => absurd member List.not_mem_nil⟩
  | cons x xs ih =>
      obtain ⟨least, each⟩ := ih (min bound (f x))
      rw [List.foldl_cons, List.forall_mem_cons]
      exact ⟨by omega, by omega, each⟩

private theorem le_foldl_min {α : Type*} {f : α → Int} {xs : List α} {bound b : Int}
    (start : b ≤ bound) (each : ∀ x ∈ xs, b ≤ f x) :
    b ≤ xs.foldl (fun best x => min best (f x)) bound := by
  induction xs generalizing bound with
  | nil => exact start
  | cons x xs ih =>
      obtain ⟨first, others⟩ := List.forall_mem_cons.mp each
      exact ih (show b ≤ min bound (f x) by omega) others

/-- The milliseconds until a timer is due, as `nextTimeoutMs` has them. -/
def remainingMs (now : Int) (t : TimedTask) : Int :=
  let ms := (t.next - now).tdiv 1000000
  if ms < 0 then 0 else ms

theorem remainingMs_nonneg (now : Int) (t : TimedTask) : 0 ≤ remainingMs now t := by
  unfold remainingMs
  dsimp only
  split <;> omega

/-- Rounding is down, so that nobody is waited for too long. -/
theorem remainingMs_le (now : Int) (t : TimedTask) :
    now + remainingMs now t * 1000000 ≤ max now t.next := by
  unfold remainingMs
  dsimp only
  split
  · omega
  · rename_i some_time
    rcases Int.le_total now t.next with future | past
    · rw [Int.tdiv_eq_ediv_of_nonneg (by omega)]
      omega
    · have none : (t.next - now).tdiv 1000000 = 0 := by
        have opposite : (t.next - now).tdiv 1000000 = -((now - t.next).tdiv 1000000) := by
          rw [← Int.neg_tdiv]
          congr 1
          omega
        rw [opposite] at some_time ⊢
        rw [Int.tdiv_eq_ediv_of_nonneg (by omega)] at some_time ⊢
        omega
      rw [none]
      omega

theorem nextTimeoutMs_eq {timers : List TimedTask} (some_timer : timers ≠ []) (now : Int) :
    nextTimeoutMs timers now =
      timers.foldl (fun best t => min best (remainingMs now t)) 1000 := by
  rw [nextTimeoutMs, if_neg some_timer]
  rfl

/-- A wait ends before the timer is due, or at once. -/
theorem nextTimeoutMs_le {timers : List TimedTask} {t : TimedTask} (member : t ∈ timers)
    (now : Int) :
    0 ≤ nextTimeoutMs timers now ∧ nextTimeoutMs timers now ≤ 1000 ∧
      now + nextTimeoutMs timers now * 1000000 ≤ max now t.next := by
  rw [nextTimeoutMs_eq (List.ne_nil_of_mem member)]
  obtain ⟨most, each⟩ := foldl_min_le (remainingMs now) timers 1000
  refine ⟨le_foldl_min (by decide) fun t _ => remainingMs_nonneg now t, most, ?_⟩
  have one := remainingMs_le now t
  have least := each t member
  omega

/-! ## Phases -/

/-- What the loop's own thread is doing, as far as the timers go. -/
inductive Phase where
  | outside
  /-- In `loop()`; whatever was due has been collected. -/
  | settled
  | asleep (timeoutMs : Int)
  /-- In `loop()`, between the wait and `runDueTimers`. -/
  | woken
  deriving DecidableEq

def Position.phase : Position φ → Phase
  | .outside => .outside
  | .waiting timeoutMs => .asleep timeoutMs
  | .dispatching _ | .inChannel _ | .draining _ | .beforeTimers => .woken
  | .entered | .testing | .polling | .inTimers _ | .beforePending | .swapping | .batch _
  | .inFunctor _ => .settled

/-- Whether the loop is running, and if so whether it is awake. -/
def Phase.awake? : Phase → Option Bool
  | .outside => none
  | .asleep _ => some false
  | .settled | .woken => some true

/-- The timer that `runEvery` makes. -/
def newTimer (s : EventLoop τ φ) (intervalMs now : Int) : TimedTask :=
  let interval := if intervalMs < 1 then 1 else intervalMs
  { id := s.nextTimerId, intervalMs := interval, next := now + interval * 1000000 }

theorem timers_runEvery (s : EventLoop τ φ) (intervalMs now : Int) :
    (s.runEvery intervalMs now).timers = s.timers ++ [s.newTimer intervalMs now] := rfl

/-! ## The loop with its clock -/

/-- The callback of a timer is collected. -/
structure Firing where
  id : Int
  /-- The time from which on the timer was due. -/
  due : Int
  time : Int
  /-- When `loop()` was entered. -/
  entered : Int
  deriving DecidableEq

end EventLoop

structure Clocked (τ φ : Type*) where
  loop : EventLoop τ φ
  clock : Int
  /-- When the loop fell asleep, woke up, was entered or was left. -/
  since : Int
  entered : Int
  firings : List EventLoop.Firing := []
  /-- The timers as they were registered. -/
  registered : List TimedTask := []

namespace Clocked

open EventLoop

variable {τ φ : Type*}

/-- What the step reads from the clock is the time at which it is taken. -/
def ReadsAt (time : Int) : Input τ φ → Prop
  | .advance now | .runEvery _ now => now = time
  | _ => True

instance (time : Int) : ∀ a : Input τ φ, Decidable (ReadsAt time a)
  | .advance _ | .runEvery _ _ => inferInstanceAs (Decidable (_ = _))
  | .push _ _ | .decide _ | .quit _ | .ring _ | .wakeup _ | .cancelTimer _ | .loop
  | .waitReturns _ | .waitFails => isTrue trivial

/-- The timers that the step collects. -/
def collected (s : Clocked τ φ) (time : Int) : Input τ φ → List Firing
  | .advance _ =>
      match s.loop.position with
      | .beforeTimers =>
          (s.loop.timers.filter (·.next ≤ time)).map fun t =>
            { id := t.id, due := t.next, time, entered := s.entered }
      | _ => []
  | _ => []

/-- The timers that the step registers. -/
def registers (s : Clocked τ φ) : Input τ φ → List TimedTask
  | .runEvery intervalMs now => [s.loop.newTimer intervalMs now]
  | _ => []

/-- After a step that takes the loop to `loop`. -/
def after (s : Clocked τ φ) (time : Int) (a : Input τ φ) (loop : EventLoop τ φ) :
    Clocked τ φ where
  loop
  clock := time
  since :=
    if s.loop.position.phase.awake? = loop.position.phase.awake? then s.since else time
  entered := if s.loop.position.phase = .outside then time else s.entered
  firings := s.firings ++ s.collected time a
  registered := s.registered ++ s.registers a

/-- A step at a time that is not in the past. -/
def step [DecidableEq τ] (s : Clocked τ φ) (a : Int × Input τ φ) :
    Option (Clocked τ φ × Output φ) :=
  if s.clock ≤ a.1 ∧ ReadsAt a.1 a.2 then
    (s.loop.step a.2).map fun (loop, b) => (s.after a.1 a.2 loop, b)
  else none

def create (owner : τ) (clock : Int) : Clocked τ φ :=
  { loop := EventLoop.create owner, clock, since := clock, entered := clock }

end Clocked

/-! ## What a step does to the timers and to the phase -/

namespace EventLoop

variable {τ φ : Type*}

inductive Moves (s m : EventLoop τ φ) : Input τ φ → Prop where
  | stays {a : Input τ φ} (timers : m.timers = s.timers)
      (phase : m.position.phase = s.position.phase) (next : m.nextTimerId = s.nextTimerId)
      (notCollecting : ∀ now, a = .advance now → s.position ≠ .beforeTimers)
      (notNew : ∀ intervalMs now, a ≠ .runEvery intervalMs now) : Moves s m a
  | runEvery {intervalMs now : Int} (awake : s.position.phase.awake? ≠ some false) :
      m = s.runEvery intervalMs now → Moves s m (.runEvery intervalMs now)
  | cancelTimer {id : Int} : m = s.cancelTimer id → Moves s m (.cancelTimer id)
  | enter (timers : m.timers = s.timers) (next : m.nextTimerId = s.nextTimerId)
      (before : s.position.phase = .outside)
      (phase : m.position.phase = .settled) : Moves s m .loop
  | leave {now : Int} (timers : m.timers = s.timers) (next : m.nextTimerId = s.nextTimerId)
      (before : s.position.phase = .settled) (phase : m.position.phase = .outside) :
      Moves s m (.advance now)
  | sleep {now : Int} (timers : m.timers = s.timers) (next : m.nextTimerId = s.nextTimerId)
      (before : s.position.phase = .settled)
      (phase : m.position.phase = .asleep (nextTimeoutMs s.timers now)) : Moves s m (.advance now)
  | wake {a : Input τ φ} {timeoutMs : Int} (timers : m.timers = s.timers)
      (next : m.nextTimerId = s.nextTimerId)
      (before : s.position.phase = .asleep timeoutMs) (phase : m.position.phase = .woken)
      (wakes : a = .waitFails ∨ ∃ active, a = .waitReturns active) : Moves s m a
  | collect {now : Int} (timers : m.timers = (collectDue s.timers now).1)
      (next : m.nextTimerId = s.nextTimerId) (place : s.position = .beforeTimers)
      (phase : m.position.phase = .settled) : Moves s m (.advance now)

theorem moves_of_advance {s m : EventLoop τ φ} {now : Int} {b : Output φ}
    (advanced : s.advance now = some (m, b)) : Moves s m (.advance now) := by
  have elsewhere {position : Position φ} (place : s.position = position)
      (other : position ≠ .beforeTimers) :
      ∀ time, (Input.advance now : Input τ φ) = .advance time → s.position ≠ .beforeTimers :=
    fun _ _ same => other (place.symm.trans same)
  unfold advance at advanced
  split at advanced
  all_goals rename_i place
  · cases advanced
  · cases advanced
    exact .stays rfl (by rw [place]; rfl) rfl (elsewhere place nofun) nofun
  · split at advanced
    · cases advanced
      exact .leave rfl rfl (by rw [place]; rfl) rfl
    · cases advanced
      exact .stays rfl (by rw [place]; rfl) rfl (elsewhere place nofun) nofun
  · cases advanced
    exact .sleep rfl rfl (by rw [place]; rfl) rfl
  · cases advanced
  case h_10 =>
    split at advanced
    · cases advanced
      exact .stays rfl rfl rfl (elsewhere place nofun) nofun
    · cases advanced
      exact .stays rfl (by rw [place]; rfl) rfl (elsewhere place nofun) nofun
  case h_11 =>
    cases advanced
    exact .collect rfl rfl place rfl
  all_goals
    cases advanced
    exact .stays rfl (by rw [place]; rfl) rfl (elsewhere place nofun) nofun

/-- Code of the application does not run on the loop's own thread while that
sleeps. -/
theorem awake_of_mayCall [DecidableEq τ] {s : EventLoop τ φ} (may : s.mayCall s.owner = true) :
    s.position.phase.awake? ≠ some false := by
  have userCode : s.position.inUserCode = true := by
    rw [mayCall, Bool.and_eq_true] at may
    simpa [isInLoopThread] using may.2
  intro asleep
  cases place : s.position with
  | waiting timeoutMs =>
      rw [place] at userCode
      cases userCode
  | _ =>
      rw [place] at asleep
      cases asleep

theorem moves_of_step [DecidableEq τ] {s m : EventLoop τ φ} {a : Input τ φ} {b : Output φ}
    (stepped : s.step a = some (m, b)) : Moves s m a := by
  cases a with
  | advance now =>
      obtain ⟨_, advanced⟩ := Option.ite_none_right_eq_some.mp stepped
      exact moves_of_advance advanced
  | runEvery intervalMs now =>
      obtain ⟨may, same⟩ := Option.ite_none_right_eq_some.mp stepped
      cases same
      exact .runEvery (awake_of_mayCall may) rfl
  | cancelTimer id =>
      obtain ⟨_, same⟩ := Option.ite_none_right_eq_some.mp stepped
      cases same
      exact .cancelTimer rfl
  | decide t =>
      obtain ⟨_, same⟩ := Option.ite_none_right_eq_some.mp stepped
      cases same
      unfold decideWakeup
      split
      · exact .stays rfl rfl rfl (fun _ same => by cases same) fun _ _ same => by cases same
      · exact .stays rfl rfl rfl (fun _ same => by cases same) fun _ _ same => by cases same
  | loop =>
      cases steps_of_step stepped with
      | enter _ place => exact .enter rfl rfl (by rw [place]; rfl) rfl
  | waitReturns active =>
      cases steps_of_step stepped with
      | waitReturns _ place _ => exact .wake rfl rfl (by rw [place]; rfl) rfl (.inr ⟨_, rfl⟩)
  | waitFails =>
      cases steps_of_step stepped with
      | waitFails _ place => exact .wake rfl rfl (by rw [place]; rfl) rfl (.inl rfl)
  | _ =>
      cases steps_of_step stepped
      all_goals exact .stays rfl rfl rfl (fun _ same => by cases same) fun _ _ same => by cases same

end EventLoop

namespace Clocked

open EventLoop

variable {τ φ : Type*}

/-! ## No timer is early -/

/-- When the timer was registered and when its callback was collected. -/
def times (s : Clocked τ φ) (t : TimedTask) : List Int :=
  (t.next - t.intervalMs * 1000000) ::
    (s.firings.filter (·.id = t.id)).map (·.time)

/-- Each of the times is at least an interval after the one before, and `next`
is an interval after the last one. -/
structure Spaced (s : Clocked τ φ) : Prop where
  registered : Registered s.loop
  older : ∀ f ∈ s.firings, f.id < s.loop.nextTimerId
  spaced : ∀ t ∈ s.registered,
    (s.times t).IsChain fun a b => a + t.intervalMs * 1000000 ≤ b
  current : ∀ t ∈ s.registered, ∀ u ∈ s.loop.timers, u.id = t.id →
    u.intervalMs = t.intervalMs ∧
      ∀ last ∈ (s.times t).getLast?, u.next = last + t.intervalMs * 1000000
  given : ∀ t ∈ s.registered, t.id < s.loop.nextTimerId

theorem collected_eq_nil {s : Clocked τ φ} {a : Input τ φ} (time : Int)
    (notCollecting : ∀ now, a = .advance now → s.loop.position ≠ .beforeTimers) :
    s.collected time a = [] := by
  unfold collected
  split
  · split
    · rename_i place
      exact absurd place (notCollecting _ rfl)
    · rfl
  · rfl

theorem registers_eq_nil {s : Clocked τ φ} {a : Input τ φ}
    (notNew : ∀ intervalMs now, a ≠ .runEvery intervalMs now) : s.registers a = [] := by
  unfold registers
  split
  · exact absurd rfl (notNew _ _)
  · rfl

theorem times_after {s : Clocked τ φ} {a : Input τ φ} {time : Int} {m : EventLoop τ φ}
    (t : TimedTask) :
    (s.after time a m).times t =
      s.times t ++ ((s.collected time a).filter (·.id = t.id)).map (·.time) := by
  rw [times, after, times, List.filter_append, List.map_append]
  rfl

/-- A step that neither collects nor registers a timer. -/
theorem Spaced.kept {s : Clocked τ φ} (spaced : Spaced s) {m : EventLoop τ φ} {time : Int}
    {a : Input τ φ} (registered : Registered m) (next : m.nextTimerId = s.loop.nextTimerId)
    (fewer : ∀ u ∈ m.timers, u ∈ s.loop.timers) (none : s.collected time a = [])
    (nothing : s.registers a = []) : Spaced (s.after time a m) := by
  have same (t : TimedTask) : (s.after time a m).times t = s.times t := by
    rw [times_after, none]
    exact List.append_nil _
  have firings : (s.after time a m).firings = s.firings := by
    rw [after, none, List.append_nil]
  have all : (s.after time a m).registered = s.registered := by
    rw [after, nothing, List.append_nil]
  refine ⟨registered, ?_, ?_, ?_, ?_⟩
  · rw [firings]
    exact fun f member => next ▸ spaced.older f member
  · rw [all]
    intro t member
    rw [same]
    exact spaced.spaced t member
  · rw [all]
    intro t member u remains sameId
    rw [same]
    exact spaced.current t member u (fewer u remains) sameId
  · rw [all]
    exact fun t member => next ▸ spaced.given t member

theorem filter_id_eq {timers : List TimedTask} (distinct : (timers.map (·.id)).Nodup)
    {u : TimedTask} (member : u ∈ timers) : timers.filter (·.id = u.id) = [u] := by
  induction timers with
  | nil => cases member
  | cons v timers ih =>
      rw [List.map_cons, List.nodup_cons] at distinct
      rcases List.mem_cons.mp member with rfl | later
      · have others : timers.filter (·.id = u.id) = [] := by
          refine List.filter_eq_nil_iff.mpr fun w among => ?_
          have different : w.id ≠ u.id := fun same =>
            distinct.1 (same ▸ List.mem_map_of_mem among)
          simpa using different
        rw [List.filter_cons_of_pos (by simp), others]
      · have different : v.id ≠ u.id := fun same =>
          distinct.1 (same ▸ List.mem_map_of_mem later)
        rw [List.filter_cons_of_neg (by simpa using different), ih distinct.2 later]

theorem collected_eq {s : Clocked τ φ} (place : s.loop.position = .beforeTimers)
    (time now : Int) :
    s.collected time (.advance now) =
      (s.loop.timers.filter (·.next ≤ time)).map fun t =>
        { id := t.id, due := t.next, time, entered := s.entered } := by
  unfold collected
  rw [place]

/-- A registered timer is collected once if it is due, and otherwise not at all. -/
theorem times_collected {s : Clocked τ φ} (registered : Registered s.loop)
    (place : s.loop.position = .beforeTimers) {u : TimedTask} (member : u ∈ s.loop.timers)
    (time now : Int) :
    ((s.collected time (.advance now)).filter (·.id = u.id)).map (·.time) =
      if u.next ≤ time then [time] else [] := by
  rw [collected_eq place, List.filter_map, List.map_map, List.filter_filter]
  have commuted : s.loop.timers.filter (fun t =>
      decide (t.id = u.id) && decide (t.next ≤ time)) =
      (s.loop.timers.filter (·.id = u.id)).filter (·.next ≤ time) := by
    rw [List.filter_filter]
    exact List.filter_congr fun t _ => Bool.and_comm _ _
  change ((s.loop.timers.filter fun t =>
    decide (t.id = u.id) && decide (t.next ≤ time)).map _) = _
  rw [commuted, filter_id_eq registered.distinct member]
  by_cases due : u.next ≤ time
  · rw [if_pos due, List.filter_cons_of_pos (by simpa using due)]
    rfl
  · rw [if_neg due, List.filter_cons_of_neg (by simpa using due)]
    rfl

theorem times_not_collected {s : Clocked τ φ} {id : Int}
    (absent : id ∉ s.loop.timers.map (·.id)) (place : s.loop.position = .beforeTimers)
    (time now : Int) :
    ((s.collected time (.advance now)).filter (·.id = id)).map (·.time) = [] := by
  rw [collected_eq place, List.map_eq_nil_iff, List.filter_eq_nil_iff, List.forall_mem_map]
  intro t due same
  exact absent (of_decide_eq_true same ▸ List.mem_map_of_mem (List.mem_of_mem_filter due))

theorem Spaced.collect {s : Clocked τ φ} (spaced : Spaced s) {m : EventLoop τ φ} {now : Int}
    (timers : m.timers = (collectDue s.loop.timers now).1)
    (next : m.nextTimerId = s.loop.nextTimerId) (place : s.loop.position = .beforeTimers) :
    Spaced (s.after now (.advance now) m) := by
  have ids : m.timers.map (·.id) = s.loop.timers.map (·.id) := by
    rw [timers, map_id_collectDue]
  have all : (s.after now (.advance now) m).registered = s.registered := List.append_nil _
  refine ⟨⟨?_, ?_⟩, ?_, ?_, ?_, ?_⟩
  · exact ids ▸ spaced.registered.distinct
  · intro id member
    rw [after, ids] at member
    exact next ▸ spaced.registered.given id member
  · intro f member
    rcases List.mem_append.mp member with old | new
    · exact next ▸ spaced.older f old
    · rw [collected_eq place] at new
      obtain ⟨t, due, rfl⟩ := List.mem_map.mp new
      exact next ▸ spaced.registered.given t.id
        (List.mem_map_of_mem (List.mem_of_mem_filter due))
  · rw [all]
    intro t member
    rw [times_after]
    by_cases present : t.id ∈ s.loop.timers.map (·.id)
    · obtain ⟨u, among, sameId⟩ := List.mem_map.mp present
      rw [← sameId, times_collected spaced.registered place among]
      split
      · rename_i due
        refine List.isChain_append.mpr ⟨spaced.spaced t member, List.isChain_singleton _, ?_⟩
        intro last isLast time isTime
        cases Option.mem_some_iff.mp isTime
        rw [← (spaced.current t member u among sameId).2 last isLast]
        exact due
      · rw [List.append_nil]
        exact spaced.spaced t member
    · rw [times_not_collected present place, List.append_nil]
      exact spaced.spaced t member
  · rw [all]
    intro t member u remains sameId
    rw [after, timers, collectDue] at remains
    obtain ⟨v, among, rfl⟩ := List.mem_map.mp remains
    have sameId' : v.id = t.id := by
      rw [← sameId]
      split <;> rfl
    obtain ⟨interval, lastTime⟩ := spaced.current t member v among sameId'
    rw [times_after, ← sameId', times_collected spaced.registered place among]
    by_cases due : v.next ≤ now
    · rw [if_pos due, if_pos due]
      refine ⟨interval, fun last isLast => ?_⟩
      rw [List.getLast?_append, List.getLast?_singleton, Option.some_or] at isLast
      cases Option.mem_some_iff.mp isLast
      rw [← interval]
    · rw [if_neg due, if_neg due, List.append_nil]
      exact ⟨interval, lastTime⟩
  · rw [all]
    exact fun t member => next ▸ spaced.given t member

theorem Spaced.runEvery {s : Clocked τ φ} (spaced : Spaced s) (intervalMs now time : Int) :
    Spaced (s.after time (.runEvery intervalMs now) (s.loop.runEvery intervalMs now)) := by
  have same (t : TimedTask) :
      (s.after time (.runEvery intervalMs now) (s.loop.runEvery intervalMs now)).times t =
        s.times t := by
    rw [times_after]
    exact List.append_nil _
  have firings : (s.after time (.runEvery intervalMs now)
      (s.loop.runEvery intervalMs now)).firings = s.firings := List.append_nil _
  have later {id : Int} (before : id < s.loop.nextTimerId) :
      id < (s.loop.runEvery intervalMs now).nextTimerId :=
    Int.lt_add_one_of_le (Int.le_of_lt before)
  have fresh : s.times (s.loop.newTimer intervalMs now) =
      [(s.loop.newTimer intervalMs now).next -
        (s.loop.newTimer intervalMs now).intervalMs * 1000000] := by
    have none : s.firings.filter (·.id = (s.loop.newTimer intervalMs now).id) = [] := by
      refine List.filter_eq_nil_iff.mpr fun f member same => ?_
      exact Int.ne_of_lt (spaced.older f member) (of_decide_eq_true same)
    rw [times, none]
    rfl
  refine ⟨spaced.registered.step (.runEvery rfl), ?_, ?_, ?_, ?_⟩
  · rw [firings]
    exact fun f member => later (spaced.older f member)
  · intro t member
    rw [same]
    rcases List.mem_append.mp member with old | new
    · exact spaced.spaced t old
    · cases List.mem_singleton.mp new
      rw [fresh]
      exact List.isChain_singleton _
  · intro t member u remains sameId
    rw [same]
    rcases List.mem_append.mp member with old | new <;>
      rcases List.mem_append.mp remains with before | added
    · exact spaced.current t old u before sameId
    · cases List.mem_singleton.mp added
      exact absurd sameId (Int.ne_of_gt (spaced.given t old))
    · cases List.mem_singleton.mp new
      exact absurd sameId
        (Int.ne_of_lt (spaced.registered.given u.id (List.mem_map_of_mem before)))
    · cases List.mem_singleton.mp new
      cases List.mem_singleton.mp added
      refine ⟨rfl, fun last isLast => ?_⟩
      rw [fresh, List.getLast?_singleton] at isLast
      cases Option.mem_some_iff.mp isLast
      exact (Int.sub_add_cancel _ _).symm
  · intro t member
    rcases List.mem_append.mp member with old | new
    · exact later (spaced.given t old)
    · cases List.mem_singleton.mp new
      exact Int.lt_succ _

theorem Spaced.step [DecidableEq τ] {s m : Clocked τ φ} {a : Int × Input τ φ} {b : Output φ}
    (spaced : Spaced s) (stepped : s.step a = some (m, b)) : Spaced m := by
  obtain ⟨⟨_, reads⟩, continued⟩ := Option.ite_none_right_eq_some.mp stepped
  obtain ⟨⟨loop, _⟩, taken, result⟩ := Option.map_eq_some_iff.mp continued
  cases result
  obtain ⟨time, a⟩ := a
  have registered : Registered loop :=
    spaced.registered.step (timerSteps_of_steps (steps_of_step taken))
  have kept (timers : loop.timers = s.loop.timers)
      (next : loop.nextTimerId = s.loop.nextTimerId)
      (notCollecting : ∀ now, a = .advance now → s.loop.position ≠ .beforeTimers)
      (notNew : ∀ intervalMs now, a ≠ .runEvery intervalMs now) :
      Spaced (s.after time a loop) :=
    spaced.kept registered next (fun u member => timers ▸ member)
      (collected_eq_nil time notCollecting) (registers_eq_nil notNew)
  have elsewhere {phase : Phase} (before : s.loop.position.phase = phase)
      (other : phase ≠ .woken) : s.loop.position ≠ .beforeTimers := fun place =>
    other (before.symm.trans (by rw [place]; rfl))
  cases moves_of_step taken with
  | stays timers phase next notCollecting notNew => exact kept timers next notCollecting notNew
  | runEvery awake same =>
      subst same
      exact spaced.runEvery _ _ _
  | cancelTimer same =>
      subst same
      exact spaced.kept registered rfl (fun u member => List.mem_of_mem_eraseP member) rfl rfl
  | enter timers next before phase =>
      exact kept timers next nofun nofun
  | leave timers next before phase =>
      exact kept timers next (fun _ _ => elsewhere before nofun) nofun
  | sleep timers next before phase =>
      exact kept timers next (fun _ _ => elsewhere before nofun) nofun
  | wake timers next before phase wakes =>
      refine kept timers next (fun _ _ => elsewhere before nofun) ?_
      rcases wakes with rfl | ⟨active, rfl⟩ <;> exact nofun
  | collect timers next place phase =>
      obtain rfl : _ = time := reads
      exact spaced.collect timers next place

theorem spaced_create (owner : τ) (clock : Int) :
    Spaced (create owner clock : Clocked τ φ) where
  registered := registered_create owner
  older := nofun
  spaced := nofun
  current := nofun
  given := nofun

/-- In every run, between two times at which the callback of a timer is
collected there is at least the timer's interval, and a timer that is still
registered is due an interval after the last of them. -/
theorem run_spaced [DecidableEq τ] (owner : τ) (clock : Int) (inputs : List (Int × Input τ φ))
    (s : Clocked τ φ) (trace : List ((Int × Input τ φ) × Output φ))
    (ran : Machine.run step (create owner clock) inputs = some (s, trace)) :
    ∀ t ∈ s.registered,
      (s.times t).IsChain (fun a b => a + t.intervalMs * 1000000 ≤ b) ∧
        ∀ u ∈ s.loop.timers, u.id = t.id →
          ∀ last ∈ (s.times t).getLast?, u.next = last + t.intervalMs * 1000000 := by
  have spaced : Spaced s := Machine.run_induct (motive := fun _ s => Spaced s)
    (fun _ _ _ _ _ spaced stepped => spaced.step stepped) (spaced_create owner clock) ran
  exact fun t member => ⟨spaced.spaced t member, fun u remains sameId =>
    (spaced.current t member u remains sameId).2⟩

/-- A turn of the loop that sleeps from `start` to `finish` and then collects the
callbacks of `due` timers. -/
def turn (start finish : Int) (due : Nat) : List (Int × Input Bool Nat) :=
  [(start, .advance start), (start, .advance start), (finish, .waitReturns [])] ++
    List.replicate (due + 6) (finish, .advance finish)

/-- A timer of ten milliseconds.  The first wait ends before it is due. -/
def tick : List (Int × Input Bool Nat) :=
  [(0, .runEvery 10 0), (0, .loop), (0, .advance 0)] ++ turn 1000 9500000 0 ++
    turn 9500000 10100000 1 ++ turn 10100000 20200000 1

theorem run_spaced_tick :
    ∃ s trace, Machine.run step (create true 0) tick = some (s, trace) ∧
      s.firings.map (·.time) = [10100000, 20200000] ∧
      ∀ t ∈ s.registered,
        (s.times t).IsChain (fun a b => a + t.intervalMs * 1000000 ≤ b) ∧
          ∀ u ∈ s.loop.timers, u.id = t.id →
            ∀ last ∈ (s.times t).getLast?, u.next = last + t.intervalMs * 1000000 := by
  have ends : ((Machine.run step (create true 0) tick).any fun r =>
      decide (r.1.firings.map (·.time) = [10100000, 20200000])) = true := by
    decide +kernel
  obtain ⟨⟨s, trace⟩, ran, ends⟩ := (Option.any_eq_true _ _).mp ends
  exact ⟨s, trace, ran, of_decide_eq_true ends, run_spaced true 0 tick s trace ran⟩

/-! ## No timer is late -/

/-- A wait ends at most `late` after its timeout, and from the end of a wait, or
from the entry, to the next wait the loop takes at most `work`. -/
def Prompt (work late : Nat) (s : Clocked τ φ) (a : Int × Input τ φ) : Prop :=
  match s.loop.position.phase with
  | .outside => True
  | .asleep timeoutMs => timeoutMs = -1 ∨ a.1 ≤ s.since + timeoutMs * 1000000 + late
  | .settled | .woken => a.1 ≤ s.since + work

instance (work late : Nat) (s : Clocked τ φ) (a : Int × Input τ φ) :
    Decidable (Prompt work late s a) := by
  unfold Prompt
  split <;> infer_instance

/-- How far the loop is, when it has a timer that is due at `next`. -/
def InTime (work late : Nat) (s : Clocked τ φ) (next : Int) : Phase → Prop
  | .outside => True
  | .settled => s.since ≤ max next s.entered ∧ s.clock ≤ s.since + work
  | .asleep timeoutMs =>
      s.since ≤ max next s.entered + work ∧ 0 ≤ timeoutMs ∧
        s.since + timeoutMs * 1000000 ≤ max s.since next ∧
        s.clock ≤ s.since + timeoutMs * 1000000 + late
  | .woken => s.since ≤ max next s.entered + work + late ∧ s.clock ≤ s.since + work

structure OnTime (work late : Nat) (s : Clocked τ φ) : Prop where
  past : s.since ≤ s.clock
  intervals : ∀ t ∈ s.loop.timers, 0 ≤ t.intervalMs
  inTime : ∀ t ∈ s.loop.timers, InTime work late s t.next s.loop.position.phase
  fired : ∀ f ∈ s.firings,
    f.due ≤ f.time ∧ f.time ≤ max f.due f.entered + (2 * work + late)

theorem InTime.clock_le {work late : Nat} {s : Clocked τ φ} {next : Int} {phase : Phase}
    (inTime : InTime work late s next phase) (running : phase ≠ .outside) :
    s.clock ≤ max next s.entered + (2 * work + late) := by
  cases phase with
  | outside => exact absurd rfl running
  | settled =>
      obtain ⟨since, clock⟩ := inTime
      omega
  | asleep timeoutMs =>
      obtain ⟨since, _, slept, clock⟩ := inTime
      omega
  | woken =>
      obtain ⟨since, clock⟩ := inTime
      omega

section

variable {work late : Nat} {s : Clocked τ φ} {time : Int} {a : Input τ φ}
  {loop : EventLoop τ φ}

theorem since_after_of_same (time : Int) (a : Input τ φ)
    (same : loop.position.phase = s.loop.position.phase) :
    (s.after time a loop).since = s.since :=
  if_pos (by rw [same])

theorem since_after_of_differ
    (differ : s.loop.position.phase.awake? ≠ loop.position.phase.awake?) :
    (s.after time a loop).since = time :=
  if_neg differ

theorem entered_after (time : Int) (a : Input τ φ) (loop : EventLoop τ φ) {phase : Phase}
    (before : s.loop.position.phase = phase) (running : phase ≠ .outside) :
    (s.after time a loop).entered = s.entered :=
  if_neg (before ▸ running)

/-- In time before the step, and the phase is the same after it. -/
theorem InTime.stays {next : Int} (inTime : InTime work late s next s.loop.position.phase)
    (prompt : Prompt work late s (time, a))
    (same : loop.position.phase = s.loop.position.phase) :
    InTime work late (s.after time a loop) next loop.position.phase := by
  have since := since_after_of_same time a same
  have clock : (s.after time a loop).clock = time := rfl
  unfold Prompt at prompt
  rw [same]
  cases before : s.loop.position.phase with
  | outside => trivial
  | settled =>
      rw [before] at inTime prompt
      have entered := entered_after time a loop before nofun
      unfold InTime at inTime ⊢
      rw [since, clock, entered]
      exact ⟨inTime.1, prompt⟩
  | asleep timeoutMs =>
      rw [before] at inTime prompt
      have entered := entered_after time a loop before nofun
      obtain ⟨start, nonneg, slept, _⟩ := inTime
      unfold InTime
      rw [since, clock, entered]
      refine ⟨start, nonneg, slept, ?_⟩
      rcases prompt with forever | inTime
      · omega
      · exact inTime
  | woken =>
      rw [before] at inTime prompt
      have entered := entered_after time a loop before nofun
      unfold InTime at inTime ⊢
      rw [since, clock, entered]
      exact ⟨inTime.1, prompt⟩

theorem OnTime.collect (onTime : OnTime work late s) {now : Int} (notBefore : s.clock ≤ now)
    (prompt : Prompt work late s (now, .advance now))
    (timers : loop.timers = (collectDue s.loop.timers now).1)
    (place : s.loop.position = .beforeTimers) (phase : loop.position.phase = .settled) :
    OnTime work late (s.after now (.advance now) loop) := by
  have before : s.loop.position.phase = .woken := by
    rw [place]
    rfl
  have since : (s.after now (.advance now) loop).since = s.since := by
    refine if_pos ?_
    rw [before, phase]
    rfl
  have entered := entered_after now (.advance now) loop before nofun
  have past := onTime.past
  unfold Prompt at prompt
  rw [before] at prompt
  refine ⟨?_, ?_, ?_, ?_⟩
  · rw [since]
    exact Int.le_trans past notBefore
  · intro u remains
    rw [after, timers, collectDue] at remains
    obtain ⟨t, member, rfl⟩ := List.mem_map.mp remains
    have nonneg := onTime.intervals t member
    split <;> exact nonneg
  · intro u remains
    rw [after, timers, collectDue] at remains
    obtain ⟨t, member, rfl⟩ := List.mem_map.mp remains
    have nonneg := onTime.intervals t member
    change InTime work late (s.after now (.advance now) loop) _ loop.position.phase
    rw [phase]
    unfold InTime
    rw [since, entered]
    refine ⟨?_, prompt⟩
    split
    · dsimp only
      omega
    · omega
  · intro f member
    rcases List.mem_append.mp member with old | new
    · exact onTime.fired f old
    · rw [collected_eq place] at new
      obtain ⟨t, due, rfl⟩ := List.mem_map.mp new
      obtain ⟨among, isDue⟩ := List.mem_filter.mp due
      have inTime := onTime.inTime t among
      rw [before] at inTime
      obtain ⟨start, _⟩ := inTime
      refine ⟨of_decide_eq_true isDue, ?_⟩
      dsimp only at prompt ⊢
      omega

/-- A step that collects nothing. -/
theorem OnTime.kept (onTime : OnTime work late s) (notBefore : s.clock ≤ time)
    (none : s.collected time a = []) (intervals : ∀ t ∈ loop.timers, 0 ≤ t.intervalMs)
    (inTime : ∀ t ∈ loop.timers,
      InTime work late (s.after time a loop) t.next loop.position.phase) :
    OnTime work late (s.after time a loop) where
  past := by
    change (if _ then s.since else time) ≤ time
    split
    · exact Int.le_trans onTime.past notBefore
    · exact Int.le_refl _
  intervals := intervals
  inTime := inTime
  fired := by
    rw [after, none, List.append_nil]
    exact onTime.fired

theorem OnTime.runEvery (onTime : OnTime work late s) (notBefore : s.clock ≤ time)
    (intervalMs : Int) (awake : s.loop.position.phase.awake? ≠ some false)
    (prompt : Prompt work late s (time, .runEvery intervalMs time)) :
    OnTime work late
      (s.after time (.runEvery intervalMs time) (s.loop.runEvery intervalMs time)) := by
  have positive : 0 < (s.loop.newTimer intervalMs time).intervalMs := by
    change 0 < (if intervalMs < 1 then 1 else intervalMs)
    split <;> omega
  have future : s.since ≤ max (s.loop.newTimer intervalMs time).next s.entered := by
    have past := onTime.past
    have next : (s.loop.newTimer intervalMs time).next =
      time + (s.loop.newTimer intervalMs time).intervalMs * 1000000 := rfl
    omega
  refine onTime.kept notBefore rfl ?_ ?_
  · intro u remains
    rcases List.mem_append.mp remains with old | new
    · exact onTime.intervals u old
    · cases List.mem_singleton.mp new
      exact Int.le_of_lt positive
  · intro u remains
    rcases List.mem_append.mp remains with old | new
    · exact (onTime.inTime u old).stays prompt rfl
    · cases List.mem_singleton.mp new
      refine InTime.stays ?_ prompt rfl
      unfold Prompt at prompt
      cases before : s.loop.position.phase with
      | outside => trivial
      | asleep timeoutMs => exact absurd (by rw [before]; rfl) awake
      | settled =>
          rw [before] at prompt
          exact ⟨future, Int.le_trans notBefore prompt⟩
      | woken =>
          rw [before] at prompt
          refine ⟨Int.le_trans future ?_, Int.le_trans notBefore prompt⟩
          rw [Int.add_assoc]
          exact Int.le_add_of_nonneg_right (by omega)

end

theorem OnTime.step [DecidableEq τ] {work late : Nat} {s m : Clocked τ φ}
    {a : Int × Input τ φ} {b : Output φ} (onTime : OnTime work late s)
    (prompt : Prompt work late s a) (stepped : s.step a = some (m, b)) :
    OnTime work late m := by
  obtain ⟨⟨notBefore, reads⟩, continued⟩ := Option.ite_none_right_eq_some.mp stepped
  obtain ⟨⟨loop, _⟩, taken, result⟩ := Option.map_eq_some_iff.mp continued
  cases result
  obtain ⟨time, a⟩ := a
  have elsewhere {phase : Phase} (before : s.loop.position.phase = phase)
      (other : phase ≠ .woken) (now : Int) : s.collected time (.advance now) = [] :=
    collected_eq_nil time fun _ _ place => other (before.symm.trans (by rw [place]; rfl))
  -- Timers that were there before, and whose time is right in the new phase.
  have kept (none : s.collected time a = []) (timers : loop.timers = s.loop.timers)
      (inTime : ∀ t ∈ s.loop.timers,
        InTime work late (s.after time a loop) t.next loop.position.phase) :
      OnTime work late (s.after time a loop) :=
    onTime.kept notBefore none (timers ▸ onTime.intervals) (timers ▸ inTime)
  cases moves_of_step taken with
  | stays timers phase next notCollecting notNew =>
      exact kept (collected_eq_nil time notCollecting) timers fun t member =>
        (onTime.inTime t member).stays prompt phase
  | runEvery awake same =>
      subst same
      obtain rfl : _ = time := reads
      exact onTime.runEvery notBefore _ awake prompt
  | @cancelTimer id same =>
      subst same
      have among {t : TimedTask} (member : t ∈ (s.loop.cancelTimer id).timers) :
          t ∈ s.loop.timers := List.mem_of_mem_eraseP member
      exact onTime.kept notBefore rfl (fun t member => onTime.intervals t (among member))
        fun t member => (onTime.inTime t (among member)).stays prompt rfl
  | enter timers next before phase =>
      refine kept rfl timers fun t _ => ?_
      have since : (s.after time .loop loop).since = time :=
        since_after_of_differ (by rw [before, phase]; exact nofun)
      have entered : (s.after time .loop loop).entered = time := if_pos before
      have clock : (s.after time .loop loop).clock = time := rfl
      rw [phase]
      unfold InTime
      rw [since, entered, clock]
      omega
  | leave timers next before phase =>
      refine kept (elsewhere before nofun _) timers fun t _ => ?_
      rw [phase]
      trivial
  | @sleep now timers next before phase =>
      refine kept (elsewhere before nofun _) timers fun t member => ?_
      obtain rfl : now = time := reads
      have inTime := onTime.inTime t member
      obtain ⟨nonneg, _, beforeDue⟩ := nextTimeoutMs_le member now
      have since : (s.after now (.advance now) loop).since = now :=
        since_after_of_differ (by rw [before, phase]; exact nofun)
      have entered := entered_after now (.advance now) loop before nofun
      have clock : (s.after now (.advance now) loop).clock = now := rfl
      unfold Prompt at prompt
      rw [before] at inTime prompt
      obtain ⟨start, _⟩ := inTime
      rw [phase]
      unfold InTime
      rw [since, entered, clock]
      dsimp only at prompt
      exact ⟨by omega, nonneg, beforeDue, by omega⟩
  | wake timers next before phase wakes =>
      have none : s.collected time a = [] := by
        rcases wakes with rfl | ⟨active, rfl⟩ <;> rfl
      refine kept none timers fun t member => ?_
      have inTime := onTime.inTime t member
      have since : (s.after time a loop).since = time :=
        since_after_of_differ (by rw [before, phase]; exact nofun)
      have entered := entered_after time a loop before nofun
      have clock : (s.after time a loop).clock = time := rfl
      unfold Prompt at prompt
      rw [before] at inTime prompt
      obtain ⟨start, nonneg, beforeDue, _⟩ := inTime
      rw [phase]
      unfold InTime
      rw [since, entered, clock]
      dsimp only at prompt
      exact ⟨by omega, by omega⟩
  | collect timers next place phase =>
      obtain rfl : _ = time := reads
      exact onTime.collect notBefore prompt timers place phase

theorem onTime_create {work late : Nat} (owner : τ) (clock : Int) :
    OnTime work late (create owner clock : Clocked τ φ) where
  past := Int.le_refl _
  intervals _ member := absurd member List.not_mem_nil
  inTime _ member := absurd member List.not_mem_nil
  fired _ member := absurd member List.not_mem_nil

/-- In every run in which the system wakes the loop at most `late` after the
timeout of a wait, and the callbacks leave at most `work` between two waits, no
callback is collected before its time, or later than `2 * work + late` after
both its time and the entry of the loop; and while the loop runs, no timer is
overdue by more. -/
theorem run_punctual [DecidableEq τ] (owner : τ) (clock : Int) (work late : Nat)
    (inputs : List (Int × Input τ φ)) (s : Clocked τ φ)
    (trace : List ((Int × Input τ φ) × Output φ))
    (prompt : Machine.Along step (Prompt work late) (create owner clock) inputs)
    (ran : Machine.run step (create owner clock) inputs = some (s, trace)) :
    (∀ f ∈ s.firings,
      f.due ≤ f.time ∧ f.time ≤ max f.due f.entered + (2 * work + late)) ∧
      (s.loop.position.phase ≠ .outside → ∀ t ∈ s.loop.timers,
        s.clock ≤ max t.next s.entered + (2 * work + late)) := by
  have onTime : OnTime work late s := Machine.run_along (motive := fun _ s => OnTime work late s)
    (fun _ _ _ _ _ onTime prompt stepped => onTime.step prompt stepped)
    (onTime_create owner clock) prompt ran
  exact ⟨onTime.fired, fun running t member => (onTime.inTime t member).clock_le running⟩

theorem run_punctual_tick :
    ∃ s trace, Machine.run step (create true 0) tick = some (s, trace) ∧
      s.firings.length = 2 ∧
      (∀ f ∈ s.firings,
        f.due ≤ f.time ∧ f.time ≤ max f.due f.entered + (2 * (1000 : Nat) + (600000 : Nat))) ∧
      (s.loop.position.phase ≠ .outside → ∀ t ∈ s.loop.timers,
        s.clock ≤ max t.next s.entered + (2 * (1000 : Nat) + (600000 : Nat))) := by
  have ends : ((Machine.run step (create true 0) tick).any fun r =>
      decide (r.1.firings.length = 2)) = true := by
    decide +kernel
  have prompt : Machine.Along step (Prompt 1000 600000) (create true 0) tick := by
    decide +kernel
  obtain ⟨⟨s, trace⟩, ran, ends⟩ := (Option.any_eq_true _ _).mp ends
  exact ⟨s, trace, ran, of_decide_eq_true ends,
    run_punctual true 0 1000 600000 tick s trace prompt ran⟩

end Clocked

end MiniNet
