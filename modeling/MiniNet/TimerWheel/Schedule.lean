import MiniNet.TimerWheel
import Mathlib.Data.List.Nodup

/-!
# When timers fire

`History` says what a sequence of calls asks for, without counting anything
down: a timer has the number of the tick in which it is to fire, and it is
cancelled or not.  The vector of the wheel holds the timers that are still to
come, in the order in which they were added, and every tick calls those that
have its number.
-/

namespace MiniNet

namespace TimerWheel

/-- A timer that was added: its id, the number of the tick in which it is to
fire, and whether it was cancelled before that tick. -/
structure Timer where
  id : UInt64
  tick : Nat
  cancelled : Bool
  deriving DecidableEq

/-- What has happened: the number of ticks that have started, the timers in
order of addition, and the callbacks called, each with the tick it was called
in. -/
structure History where
  ticks : Nat := 0
  timers : List Timer := []
  fired : List (Nat × UInt64) := []
  deriving DecidableEq

/-- The tick in which a timer is to fire that is added after `ticks` ticks. -/
def fireTick (tickMs ticks : Nat) (timeoutMs : Int32) : Nat :=
  ticks + (max 1 (timeoutMs.toInt.tdiv tickMs)).toNat

/-- A cancellation counts if the tick of the timer has not started. -/
def Timer.cancel (ticks : Nat) (id : UInt64) (t : Timer) : Timer :=
  { t with cancelled := t.cancelled || t.id == id && ticks < t.tick }

def History.record (tickMs : Nat) (h : History) : Action × Reply → History
  | (.addTimer timeoutMs, .added id) =>
      { h with timers := h.timers ++
          [{ id, tick := fireTick tickMs h.ticks timeoutMs, cancelled := false }] }
  | (.cancelTimer id, _) => { h with timers := h.timers.map (Timer.cancel h.ticks id) }
  | (.tick, _) => { h with ticks := h.ticks + 1 }
  | (.call, .called id) => { h with fired := h.fired ++ [(h.ticks, id)] }
  | _ => h

def history (tickMs : Nat) (trace : List (Action × Reply)) : History :=
  trace.foldl (History.record tickMs) {}

/-- The timers called in a tick, in order. -/
def History.firedIn (h : History) (tick : Nat) : List UInt64 :=
  (h.fired.filter (·.1 = tick)).map (·.2)

/-- The timers that are to fire in a tick, in order of addition. -/
def History.dueIn (h : History) (tick : Nat) : List UInt64 :=
  (h.timers.filter fun t => t.tick = tick ∧ ¬t.cancelled).map (·.id)

/-! ## The vector of the wheel -/

/-- The timer is still to come. -/
def Timer.ahead (ticks : Nat) (t : Timer) : Bool := ticks < t.tick ∧ ¬t.cancelled

def Timer.entry (ticks : Nat) (t : Timer) : Entry :=
  { id := t.id, remainingTicks := t.tick - ticks }

/-- The wheel holds what is to come, and each tick has called what was due,
except for the callbacks that the current one has still to call. -/
structure Tracks (tickMs : Nat) (h : History) (s : State) : Prop where
  tickMs : s.wheel.tickMs = tickMs
  entries : s.wheel.entries =
    (h.timers.filter (Timer.ahead h.ticks)).map (Timer.entry h.ticks)
  batches : ∀ k ≤ h.ticks,
    h.firedIn k ++ (if k = h.ticks then s.firing else []) = h.dueIn k
  past : ∀ call ∈ h.fired, call.1 ≤ h.ticks

theorem fireTick_gt (tickMs ticks : Nat) (timeoutMs : Int32) :
    ticks < fireTick tickMs ticks timeoutMs := by
  rw [fireTick]
  omega

section

variable {tickMs : Nat} {h : History} {s : State}

/-! ## What was due in the past -/

theorem dueIn_addTimer {k : Nat} (started : k ≤ h.ticks) (timeoutMs : Int32)
    (id : UInt64) :
    (h.record tickMs (.addTimer timeoutMs, .added id)).dueIn k = h.dueIn k := by
  have later := fireTick_gt tickMs h.ticks timeoutMs
  have other : fireTick tickMs h.ticks timeoutMs ≠ k := by omega
  simp [History.record, History.dueIn, List.filter_append, other]

theorem dueIn_cancelTimer {k : Nat} (started : k ≤ h.ticks) (id : UInt64)
    (reply : Reply) :
    (h.record tickMs (.cancelTimer id, reply)).dueIn k = h.dueIn k := by
  have same : ∀ t : Timer, (t.cancel h.ticks id).tick = k ∧ ¬(t.cancel h.ticks id).cancelled ↔
      t.tick = k ∧ ¬t.cancelled := by
    intro t
    refine and_congr_right fun (due : t.tick = k) => ?_
    have notAhead : ¬h.ticks < t.tick := by omega
    simp [Timer.cancel, notAhead]
  simp only [History.record, History.dueIn, List.filter_map, List.map_map]
  congr 1
  refine List.filter_congr fun t _ => ?_
  exact decide_eq_decide.mpr (same t)

/-! ## One step -/

theorem Tracks.addTimer (tracks : Tracks tickMs h s) (small : tickMs < 2 ^ 31)
    (timeoutMs : Int32) :
    Tracks tickMs (h.record tickMs (.addTimer timeoutMs, .added s.wheel.nextId))
      { s with wheel := { s.wheel with
        nextId := s.wheel.nextId + 1
        entries := s.wheel.entries ++
          [{ id := s.wheel.nextId
             remainingTicks := max 1 (timeoutMs.toInt.tdiv (toInt s.wheel.tickMs)) }] } }
    where
  tickMs := tracks.tickMs
  entries := by
    have later := fireTick_gt tickMs h.ticks timeoutMs
    have remaining : max 1 (timeoutMs.toInt.tdiv tickMs) =
        (fireTick tickMs h.ticks timeoutMs : Int) - h.ticks := by
      rw [fireTick]
      omega
    simp only [History.record, List.filter_append, List.map_append]
    rw [tracks.entries, tracks.tickMs, toInt_of_lt small, remaining]
    simp [Timer.ahead, Timer.entry, later]
  batches k started := (tracks.batches k started).trans
    (dueIn_addTimer (h := h) started timeoutMs _).symm
  past := tracks.past

theorem Tracks.cancelTimer (tracks : Tracks tickMs h s) (id : UInt64) :
    Tracks tickMs (h.record tickMs (.cancelTimer id, .done))
      { s with wheel := s.wheel.cancelTimer id } where
  tickMs := tracks.tickMs
  entries := by
    have kept : ∀ t : Timer, (t.cancel h.ticks id).ahead h.ticks =
        (decide (t.id ≠ id) && t.ahead h.ticks) := by
      intro t
      by_cases ahead : h.ticks < t.tick <;> by_cases same : t.id = id <;>
        simp [Timer.cancel, Timer.ahead, ahead, same]
    simp only [History.record, TimerWheel.cancelTimer, tracks.entries, List.filter_map,
      List.filter_filter, List.map_map]
    congr 1
    refine List.filter_congr fun t _ => ?_
    exact (kept t).symm
  batches k started := (tracks.batches k started).trans
    (dueIn_cancelTimer (h := h) started id .done).symm
  past := tracks.past

private theorem countDown_entry (ticks : Nat) (t : Timer) :
    (t.entry ticks).countDown = t.entry (ticks + 1) := by
  simp only [Timer.entry, Entry.countDown, Entry.mk.injEq, true_and]
  omega

/-- The entries that are kept are those of the timers still to come. -/
theorem expire_entries (tracks : Tracks tickMs h s) :
    s.wheel.expire.1.entries =
      (h.timers.filter (Timer.ahead (h.ticks + 1))).map (Timer.entry (h.ticks + 1)) := by
  have kept : ∀ t : Timer, (decide (0 < (t.entry (h.ticks + 1)).remainingTicks) &&
      t.ahead h.ticks) = t.ahead (h.ticks + 1) := by
    intro t
    have longer : (0 < (t.tick : Int) - (h.ticks + 1 : Nat) ∧ h.ticks < t.tick) ↔
        h.ticks + 1 < t.tick := by
      omega
    rw [Bool.eq_iff_iff]
    simp only [Timer.ahead, Bool.and_eq_true, decide_eq_true_eq]
    rw [Timer.entry, ← and_assoc, longer]
  simp only [expire, tracks.entries, List.map_map, Function.comp_def, countDown_entry,
    List.filter_map, List.filter_filter, kept]

/-- The others are due in the tick that starts. -/
theorem expire_firing (tracks : Tracks tickMs h s) :
    s.wheel.expire.2 = h.dueIn (h.ticks + 1) := by
  have due : ∀ t : Timer, (decide ((t.entry (h.ticks + 1)).remainingTicks ≤ 0) &&
      t.ahead h.ticks) = decide (t.tick = h.ticks + 1 ∧ ¬t.cancelled) := by
    intro t
    have next : ((t.tick : Int) - (h.ticks + 1 : Nat) ≤ 0 ∧ h.ticks < t.tick) ↔
        t.tick = h.ticks + 1 := by
      omega
    rw [Bool.eq_iff_iff]
    simp only [Timer.ahead, Bool.and_eq_true, decide_eq_true_eq]
    rw [Timer.entry, ← and_assoc, next]
  simp only [expire, tracks.entries, List.map_map, Function.comp_def, countDown_entry,
    List.filter_map, List.filter_filter, due, History.dueIn]
  rfl

theorem firedIn_eq_nil (tracks : Tracks tickMs h s) {k : Nat} (later : h.ticks < k) :
    h.firedIn k = [] := by
  rw [History.firedIn, List.map_eq_nil_iff, List.filter_eq_nil_iff]
  intro call member
  have before := tracks.past call member
  simp only [decide_eq_true_eq]
  omega

theorem Tracks.tick (tracks : Tracks tickMs h s) (idle : s.firing = []) :
    Tracks tickMs (h.record tickMs (.tick, .done))
      { wheel := s.wheel.expire.1, firing := s.wheel.expire.2 } where
  tickMs := tracks.tickMs
  entries := expire_entries tracks
  batches := by
    intro k started
    change h.firedIn k ++ (if k = h.ticks + 1 then s.wheel.expire.2 else []) = h.dueIn k
    by_cases current : k = h.ticks + 1
    · rw [if_pos current, firedIn_eq_nil tracks (by omega), expire_firing tracks, current,
        List.nil_append]
    · have before : k ≤ h.ticks := by
        simp only [History.record] at started
        omega
      have same := tracks.batches k before
      rw [if_neg current]
      rwa [idle, ite_self] at same
  past := by
    intro call member
    exact Nat.le_succ_of_le (tracks.past call member)

theorem firedIn_call (k : Nat) (id : UInt64) :
    (h.record tickMs (.call, .called id)).firedIn k =
      h.firedIn k ++ if k = h.ticks then [id] else [] := by
  by_cases current : k = h.ticks
  · simp [History.record, History.firedIn, List.filter_append, current]
  · simp [History.record, History.firedIn, List.filter_append, current, Ne.symm current]

theorem Tracks.call (tracks : Tracks tickMs h s) {id : UInt64} {firing : List UInt64}
    (next : s.firing = id :: firing) :
    Tracks tickMs (h.record tickMs (.call, .called id)) { s with firing } where
  tickMs := tracks.tickMs
  entries := tracks.entries
  batches := by
    intro k started
    have same := tracks.batches k started
    change _ ++ (if k = h.ticks then firing else []) = h.dueIn k
    rw [firedIn_call, List.append_assoc, ← same, next]
    by_cases current : k = h.ticks
    · simp only [if_pos current, List.singleton_append]
    · simp only [if_neg current, List.append_nil]
  past := by
    intro call member
    rcases List.mem_append.mp member with old | new
    · exact tracks.past call old
    · rw [List.mem_singleton.mp new]
      exact Nat.le_refl _

theorem Tracks.of_steps (tracks : Tracks tickMs h s) (small : tickMs < 2 ^ 31)
    {a : Action} {m : State} {reply : Reply} (steps : Steps s a m reply) :
    Tracks tickMs (h.record tickMs (a, reply)) m := by
  cases steps with
  | addTimer _ => exact tracks.addTimer small _
  | cancelTimer => exact tracks.cancelTimer _
  | tick idle => exact tracks.tick idle
  | call next => exact tracks.call next

end

/-! ## Ids -/

/-- The ids are given out one after the other, from one on. -/
structure Numbered (h : History) (s : State) : Prop where
  next : s.wheel.nextId = UInt64.ofNat (h.timers.length + 1)
  ids : h.timers.map (·.id) =
    (List.range h.timers.length).map fun i => UInt64.ofNat (i + 1)

theorem Numbered.of_steps {tickMs : Nat} {h : History} {s m : State} {a : Action}
    {reply : Reply} (numbered : Numbered h s) (steps : Steps s a m reply) :
    Numbered (h.record tickMs (a, reply)) m := by
  obtain ⟨next, ids⟩ := numbered
  cases steps with
  | addTimer _ =>
      constructor
      · simp only [History.record, List.length_append, List.length_singleton]
        rw [next, ← UInt64.ofNat_one, ← UInt64.ofNat_add]
      · simp only [History.record, List.map_append, List.length_append,
          List.length_singleton, List.range_succ, ids]
        rw [next]
        rfl
  | @cancelTimer id =>
      have same : (fun t : Timer => t.id) ∘ Timer.cancel h.ticks id = (·.id) := rfl
      constructor
      · simp only [History.record, List.length_map]
        exact next
      · simp only [History.record, List.length_map, List.map_map, same]
        exact ids
  | tick _ => exact ⟨next, ids⟩
  | call _ => exact ⟨next, ids⟩

theorem Numbered.nodup {h : History} {s : State} (numbered : Numbered h s)
    (few : h.timers.length ≤ 2 ^ 64) : (h.timers.map (·.id)).Nodup := by
  rw [numbered.ids]
  refine List.Nodup.map_on ?_ List.nodup_range
  intro i inside j insideToo same
  rw [List.mem_range] at inside insideToo
  have values := congrArg UInt64.toNat same
  rw [UInt64.toNat_ofNat', UInt64.toNat_ofNat'] at values
  omega

/-! ## Every sequence of calls -/

/-- Each tick that has started has called, or is still to call, exactly the
timers that are due in it, in order of addition; no other tick has called
any. -/
def FiresOnTime (h : History) (s : State) : Prop :=
  ∀ k, h.firedIn k ++ (if k = h.ticks then s.firing else []) =
    if k ≤ h.ticks then h.dueIn k else []

theorem Tracks.firesOnTime {tickMs : Nat} {h : History} {s : State}
    (tracks : Tracks tickMs h s) : FiresOnTime h s := by
  intro k
  by_cases started : k ≤ h.ticks
  · rw [if_pos started, tracks.batches k started]
  · have notCurrent : k ≠ h.ticks := by omega
    rw [if_neg started, if_neg notCurrent, firedIn_eq_nil tracks (by omega)]
    rfl

theorem tracks_start {tickMs : Nat} (positive : 1 ≤ tickMs) (wheelSize : Nat) :
    Tracks tickMs {} (start tickMs wheelSize) where
  tickMs := if_neg (Nat.ne_of_gt positive)
  entries := rfl
  batches k _ := by simp [History.firedIn, History.dueIn, start]
  past _ member := by cases member

theorem history_concat (tickMs : Nat) (trace : List (Action × Reply))
    (last : Action × Reply) :
    history tickMs (trace ++ [last]) = (history tickMs trace).record tickMs last :=
  List.foldl_concat ..

theorem tracks_run {tickMs wheelSize : Nat} {actions : List Action} {s : State}
    {trace : List (Action × Reply)} (positive : 1 ≤ tickMs) (small : tickMs < 2 ^ 31)
    (ran : Machine.run step (start tickMs wheelSize) actions = some (s, trace)) :
    Tracks tickMs (history tickMs trace) s ∧ Numbered (history tickMs trace) s :=
  Machine.run_induct
    (motive := fun trace s =>
      Tracks tickMs (history tickMs trace) s ∧ Numbered (history tickMs trace) s)
    (fun past s a m reply kept stepped => by
      have steps := steps_of_step stepped
      rw [history_concat]
      exact ⟨kept.1.of_steps small steps, kept.2.of_steps steps⟩)
    ⟨tracks_start positive wheelSize, rfl, rfl⟩ ran

/-- A timer can be added in every state. -/
theorem Tracks.exists_addTimer {tickMs : Nat} {h : History} {s : State}
    (tracks : Tracks tickMs h s) (positive : 1 ≤ tickMs) (small : tickMs < 2 ^ 31)
    (timeoutMs : Int32) :
    ∃ m, step s (.addTimer timeoutMs) = some (m, .added s.wheel.nextId) := by
  have tick : toInt s.wheel.tickMs = tickMs := by
    rw [tracks.tickMs, toInt_of_lt small]
  have defined : ¬(toInt s.wheel.tickMs = 0 ∨
      toInt s.wheel.tickMs = -1 ∧ timeoutMs = Int32.minValue) := by
    rw [tick]
    omega
  rw [step, TimerWheel.addTimer, if_neg defined]
  exact ⟨_, rfl⟩

/-- Whatever is called in whatever order, a timer can be added, every timer
fires in the tick it was set for and in no other one, unless it is cancelled
before; the timers of one tick fire in order of addition; and the first
`2 ^ 64` timers have different ids. -/
theorem run_firesOnTime {tickMs wheelSize : Nat} {actions : List Action}
    {s : State} {trace : List (Action × Reply)} (positive : 1 ≤ tickMs)
    (small : tickMs ≤ 2 ^ 31 - 1)
    (ran : Machine.run step (start tickMs wheelSize) actions = some (s, trace)) :
    FiresOnTime (history tickMs trace) s ∧
      ((history tickMs trace).timers.length ≤ 2 ^ 64 →
        ((history tickMs trace).timers.map (·.id)).Nodup) ∧
      ∀ timeoutMs, ∃ m,
        step s (.addTimer timeoutMs) = some (m, .added s.wheel.nextId) := by
  have word : tickMs < 2 ^ 31 := by omega
  obtain ⟨tracks, numbered⟩ := tracks_run positive word ran
  exact ⟨tracks.firesOnTime, numbered.nodup, tracks.exists_addTimer positive word⟩

/-- Three timers, the last of them added while the first tick is firing, and
a fourth that is cancelled. -/
def fourTimers : List Action :=
  [.addTimer 250, .addTimer (-7), .addTimer 199, .addTimer 200, .tick, .call,
    .addTimer 100, .call, .cancelTimer 4, .tick, .call]

theorem run_firesOnTime_fourTimers :
    ∃ s trace, Machine.run step (start 100 60) fourTimers = some (s, trace) ∧
      FiresOnTime (history 100 trace) s ∧
      (history 100 trace).fired = [(1, 2), (1, 3), (2, 1)] ∧ s.firing = [5] := by
  have shown : (Machine.run step (start 100 60) fourTimers).any (fun last =>
      (history 100 last.2).fired = [(1, 2), (1, 3), (2, 1)] ∧ last.1.firing = [5]) =
        true := by
    decide +kernel
  obtain ⟨⟨s, trace⟩, ran, fired⟩ := (Option.any_eq_true _ _).mp shown
  obtain ⟨calls, rest⟩ := of_decide_eq_true fired
  have onTime := run_firesOnTime (by decide) (by decide) ran
  exact ⟨s, trace, ran, onTime.1, calls, rest⟩

/-! ## More timers than ids -/

/-- A wheel without timers. -/
def empty (nextId : UInt64) : State where
  wheel := { create 1 1 with nextId }
  firing := []

/-- A timer is added, the next tick takes it out, and its callback is called. -/
def addTickCall : List Action := [.addTimer 1, .tick, .call]

theorem run_addTickCall (id : UInt64) :
    Machine.run step (empty id) addTickCall =
      some (empty (id + 1), [(.addTimer 1, .added id), (.tick, .done), (.call, .called id)]) := by
  have unit : toInt (create 1 1).tickMs = 1 := by decide
  have added : (empty id).wheel.addTimer 1 = some
      ({ create 1 1 with nextId := id + 1, entries := [{ id, remainingTicks := 1 }] }, id) := by
    rw [addTimer]
    simp only [empty, unit]
    rfl
  have stepped : step (empty id) (.addTimer 1) = some ({ empty id with wheel :=
      { create 1 1 with nextId := id + 1, entries := [{ id, remainingTicks := 1 }] } },
        .added id) := by
    rw [step, added]
    rfl
  exact Machine.run_cons_eq_some.mpr ⟨_, _, _, stepped, rfl, rfl⟩

/-- However often this is done, the wheel is empty in between. -/
theorem run_addTickCalls (n : Nat) :
    ∃ id trace, Machine.run step (start 1 1) (List.replicate n addTickCall).flatten =
        some (empty id, trace) ∧ (history 1 trace).timers.length = n := by
  induction n with
  | zero => exact ⟨1, [], rfl, rfl⟩
  | succ n ih =>
      obtain ⟨id, trace, ran, size⟩ := ih
      rw [List.replicate_succ', List.flatten_concat]
      have next := Machine.run_append_eq_some.mpr
        ⟨_, trace, _, ran, run_addTickCall id, rfl⟩
      refine ⟨id + 1, _, next, ?_⟩
      rw [history, List.foldl_append, ← history]
      simp only [List.foldl_cons, List.foldl_nil, History.record, List.length_append,
        List.length_singleton, size]

private theorem not_nodup_of_many {n : Nat} (many : 2 ^ 64 < n) :
    ¬((List.range n).map fun i => UInt64.ofNat (i + 1)).Nodup := by
  intro distinct
  have same : UInt64.ofNat (0 + 1) = UInt64.ofNat (2 ^ 64 + 1) := by decide
  have equal := List.inj_on_of_nodup_map distinct (List.mem_range.mpr (by omega))
    (List.mem_range.mpr many) same
  exact absurd equal (by decide)

/-- The timer after `2 ^ 64` others has the id of the first one.  In the run that
shows it, every timer is called before the next one is added. -/
theorem ids_reused :
    ¬∀ (tickMs wheelSize : Nat) (actions : List Action) (s : State)
      (trace : List (Action × Reply)), 1 ≤ tickMs → tickMs ≤ 2 ^ 31 - 1 →
      Machine.run step (start tickMs wheelSize) actions = some (s, trace) →
        FiresOnTime (history tickMs trace) s ∧
          ((history tickMs trace).timers.map (·.id)).Nodup := by
  intro always
  obtain ⟨_, trace, ran, size⟩ := run_addTickCalls (2 ^ 64 + 1)
  obtain ⟨_, numbered⟩ := tracks_run (by decide) (by decide) ran
  have distinct := (always 1 1 _ _ trace (by decide) (by decide) ran).2
  rw [numbered.ids, size] at distinct
  exact not_nodup_of_many (Nat.lt_succ_self _) distinct

end TimerWheel

end MiniNet
