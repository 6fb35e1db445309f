import MiniNet.EventLoop

/-!
# A loop in a thread of its own

A controlling thread calls `startLoop()` and later `stop()`; the thread it
starts runs `threadFunc()`, whose `loop()` is the machine of
`MiniNet.EventLoop`.  Other threads and the callbacks on the loop's thread
use the loop while it is published.  Sections of `mtx_` are entered and left
explicitly, so that `quit()` runs inside one in its own steps.
-/

namespace MiniNet

namespace EventLoopThread

/-- The two threads that use `mtx_`. -/
inductive Side where
  | controller
  | loopThread
  deriving DecidableEq

/-- Where the controlling thread is. -/
inductive Control where
  /-- Before `startLoop()`. -/
  | idle
  /-- At `if (!started_)`, with the mutex. -/
  | starting
  /-- At the condition of `cv_.wait`, with the mutex. -/
  | testing
  /-- In `cv_.wait`. -/
  | sleeping
  /-- Between `startLoop()` and `stop()`. -/
  | running
  /-- At `if (loop_ != nullptr)`, with the mutex. -/
  | stopping
  /-- In `quit()`, before its `wakeup()`, with the mutex. -/
  | quitting
  /-- At the end of the section of `stop()`. -/
  | unlocking
  | joining
  | stopped
  deriving DecidableEq

/-- Where the started thread is in `threadFunc()`. -/
inductive Place where
  | unborn
  /-- In the constructor of the loop. -/
  | constructing
  /-- Before the section that sets `loop_`. -/
  | constructed
  /-- In it. -/
  | publishing
  /-- At `cv_.notify_one()`. -/
  | notifying
  /-- At the call of `loop.loop()`. -/
  | calling
  /-- In that call, until it has returned. -/
  | inLoop
  /-- Before the section that clears `loop_`. -/
  | returned
  /-- In it. -/
  | clearing
  | finished
  deriving DecidableEq

end EventLoopThread

/-- The members of `EventLoopThread`, the loop and the places of the two
threads. -/
structure EventLoopThread (τ φ : Type*) where
  loop : EventLoop τ φ
  published : Bool
  started : Bool
  mtx : Option EventLoopThread.Side
  control : EventLoopThread.Control
  place : EventLoopThread.Place

namespace EventLoopThread

variable {τ φ : Type*}

/-- `owner` is the thread that `startLoop()` is going to start. -/
def create (owner : τ) : EventLoopThread τ φ :=
  { loop := EventLoop.create owner
    published := false
    started := false
    mtx := none
    control := .idle
    place := .unborn }

def isOutside : EventLoop.Position φ → Bool
  | .outside => true
  | _ => false

/-- The loop's thread is inside `loop()`. -/
def insideLoop (s : EventLoopThread τ φ) : Bool :=
  s.place == .inLoop && !isOutside s.loop.position

/-- Other threads have got the pointer to the loop, which still exists. -/
def Place.usable : Place → Bool
  | .notifying | .calling | .inLoop | .returned | .clearing => true
  | _ => false

/-- The thread whose step an input of the loop is, if it is not its own. -/
def caller : EventLoop.Input τ φ → Option τ
  | .push t _ | .decide t | .quit t | .ring t | .wakeup t => some t
  | _ => none

def setsQuit : EventLoop.Input τ φ → Bool
  | .quit _ => true
  | _ => false

inductive Input (τ φ : Type*) where
  /-- The next step of the controlling thread. -/
  | control
  /-- The next step of the started thread outside `loop()`. -/
  | thread
  /-- A step of `loop()`, or a use of the loop by some thread. -/
  | loop (a : EventLoop.Input τ φ)

/-! ## The controlling thread -/

/-- The next step of `startLoop()` and then `stop()`.  The result says whether
it has set `quit_`. -/
def stepControl (s : EventLoopThread τ φ) : Option (EventLoopThread τ φ × Bool) :=
  match s.control with
  | .idle =>
      if s.mtx = none then
        some ({ s with mtx := some .controller, control := .starting }, false)
      else none
  | .starting =>
      if s.started then some ({ s with control := .testing }, false)
      else
        some ({ s with
          place := .constructing
          started := true
          control := .testing }, false)
  | .testing =>
      some ({ s with
        mtx := none
        control := if s.published then .running else .sleeping }, false)
  | .sleeping =>
      if s.mtx = none then
        some ({ s with mtx := some .controller, control := .testing }, false)
      else none
  | .running =>
      if s.mtx = none then
        some ({ s with mtx := some .controller, control := .stopping }, false)
      else none
  | .stopping =>
      if s.published then
        some ({ s with loop := { s.loop with quit := true }, control := .quitting }, true)
      else some ({ s with control := .unlocking }, false)
  | .quitting => some ({ s with loop := s.loop.wakeup, control := .unlocking }, false)
  | .unlocking => some ({ s with mtx := none, control := .joining }, false)
  | .joining =>
      if s.place = .finished then some ({ s with control := .stopped }, false) else none
  | .stopped => none

/-- The steps that set `quit_`: the one of `stop()`, and calls of `quit()` by
others. -/
def setsQuitNow (s : EventLoopThread τ φ) : Input τ φ → Bool
  | .control => s.control == .stopping && s.published
  | .thread => false
  | .loop a => setsQuit a

/-- The steps of the controlling thread: those that only move it and the
mutex, and those that start the thread, set `quit_` or ring. -/
inductive Controls (s : EventLoopThread τ φ) : EventLoopThread τ φ → Bool → Prop
  | moves (mtx : Option Side) (control : Control) :
      s.setsQuitNow .control = false →
      Controls s { s with mtx, control } false
  | starts : s.started = false →
      Controls s
        { s with place := .constructing, started := true, control := .testing } false
  | quits : s.control = .stopping → s.published = true →
      Controls s
        { s with loop := { s.loop with quit := true }, control := .quitting } true
  | rings : s.control = .quitting →
      Controls s { s with loop := s.loop.wakeup, control := .unlocking } false

theorem controls_of_stepControl {s m : EventLoopThread τ φ} {b : Bool}
    (stepped : s.stepControl = some (m, b)) : Controls s m b := by
  unfold stepControl at stepped
  split at stepped
  all_goals rename_i here
  · obtain ⟨_, same⟩ := Option.ite_none_right_eq_some.mp stepped
    cases same
    exact .moves _ _ (by simp [setsQuitNow, here])
  · split at stepped
    · cases stepped
      exact .moves s.mtx _ (by simp [setsQuitNow, here])
    · rename_i fresh
      cases stepped
      exact .starts (by simpa using fresh)
  · cases stepped
    exact .moves _ _ (by simp [setsQuitNow, here])
  · obtain ⟨_, same⟩ := Option.ite_none_right_eq_some.mp stepped
    cases same
    exact .moves _ _ (by simp [setsQuitNow, here])
  · obtain ⟨_, same⟩ := Option.ite_none_right_eq_some.mp stepped
    cases same
    exact .moves _ _ (by simp [setsQuitNow, here])
  · split at stepped
    · rename_i published
      cases stepped
      exact .quits here published
    · rename_i absent
      cases stepped
      exact .moves s.mtx _ (by simpa [setsQuitNow, here] using absent)
  · cases stepped
    exact .rings here
  · cases stepped
    exact .moves _ _ (by simp [setsQuitNow, here])
  · obtain ⟨_, same⟩ := Option.ite_none_right_eq_some.mp stepped
    cases same
    exact .moves s.mtx _ (by simp [setsQuitNow, here])
  · cases stepped

/-! ## The started thread and the loop -/

variable [DecidableEq τ]

/-- The next step of `threadFunc()` outside `loop()`. -/
def stepThread (s : EventLoopThread τ φ) :
    Option (EventLoopThread τ φ × Bool) :=
  match s.place with
  | .constructing => some ({ s with place := .constructed }, false)
  | .constructed =>
      if s.mtx = none then
        some ({ s with mtx := some .loopThread, place := .publishing }, false)
      else none
  | .publishing =>
      some ({ s with published := true, mtx := none, place := .notifying }, false)
  | .notifying => some ({ s with place := .calling }, false)
  | .calling =>
      (s.loop.step .loop).map fun (loop, _) => ({ s with loop, place := .inLoop }, false)
  | .inLoop =>
      if isOutside s.loop.position then some ({ s with place := .returned }, false)
      else none
  | .returned =>
      if s.mtx = none then
        some ({ s with mtx := some .loopThread, place := .clearing }, false)
      else none
  | .clearing =>
      some ({ s with published := false, mtx := none, place := .finished }, false)
  | .unborn | .finished => none

/-- The places before the call of `loop()`. -/
def Place.beforeCall : Place → Bool
  | .constructing | .constructed | .publishing | .notifying => true
  | _ => false

/-- The steps of `threadFunc()`: those that lead to the call of `loop()`, the
call, and those after it has returned. -/
inductive Proceeds (s : EventLoopThread τ φ) : EventLoopThread τ φ → Bool → Prop
  | prepares (mtx : Option Side) (published : Bool) (place : Place) :
      s.place.beforeCall = true →
      Proceeds s { s with mtx, published, place } false
  | enters {loop : EventLoop τ φ} {b : EventLoop.Output φ} : s.place = .calling →
      s.loop.step .loop = some (loop, b) →
      Proceeds s { s with loop, place := .inLoop } false
  | returns : s.place = .inLoop → isOutside s.loop.position = true →
      Proceeds s { s with place := .returned } false
  | locks : s.place = .returned →
      Proceeds s { s with mtx := some .loopThread, place := .clearing } false
  | clears : s.place = .clearing →
      Proceeds s { s with published := false, mtx := none, place := .finished } false

theorem proceeds_of_stepThread {s m : EventLoopThread τ φ} {b : Bool}
    (stepped : s.stepThread = some (m, b)) : Proceeds s m b := by
  unfold stepThread at stepped
  split at stepped
  all_goals rename_i here
  · cases stepped
    exact .prepares s.mtx s.published _ (by rw [here]; rfl)
  · obtain ⟨_, same⟩ := Option.ite_none_right_eq_some.mp stepped
    cases same
    exact .prepares _ s.published _ (by rw [here]; rfl)
  · cases stepped
    exact .prepares _ _ _ (by rw [here]; rfl)
  · cases stepped
    exact .prepares s.mtx s.published _ (by rw [here]; rfl)
  · obtain ⟨⟨loop, _⟩, entered, same⟩ := Option.map_eq_some_iff.mp stepped
    cases same
    exact .enters here entered
  · obtain ⟨outside, same⟩ := Option.ite_none_right_eq_some.mp stepped
    cases same
    exact .returns here outside
  · obtain ⟨_, same⟩ := Option.ite_none_right_eq_some.mp stepped
    cases same
    exact .locks here
  · cases stepped
    exact .clears here
  · cases stepped
  · cases stepped

/-- Whether an input of the loop can come now: from another thread while the
loop can be used, from its own thread while that is inside `loop()`. -/
def admits (s : EventLoopThread τ φ) (a : EventLoop.Input τ φ) : Bool :=
  match caller a with
  | some t => if t = s.loop.owner then s.insideLoop else s.place.usable
  | none => s.insideLoop

def step (s : EventLoopThread τ φ) :
    Input τ φ → Option (EventLoopThread τ φ × Bool)
  | .control => s.stepControl
  | .thread => s.stepThread
  | .loop a =>
      if s.admits a then
        (s.loop.step a).map fun (loop, _) => ({ s with loop }, setsQuit a)
      else none

/-! ## A stop request -/

def isEntered : EventLoop.Position φ → Bool
  | .entered => true
  | _ => false

/-- The started thread has executed `quit_ = false`. -/
def pastReset (s : EventLoopThread τ φ) : Bool :=
  match s.place with
  | .inLoop => !isEntered s.loop.position
  | .returned | .clearing | .finished => true
  | _ => false

/-- `quit_` is set only after the `quit_ = false` at the start of `loop()`. -/
def QuitsAfterReset (s : EventLoopThread τ φ) (a : Input τ φ) : Prop :=
  s.setsQuitNow a = true → s.pastReset = true

instance (s : EventLoopThread τ φ) (a : Input τ φ) : Decidable (QuitsAfterReset s a) :=
  inferInstanceAs (Decidable (_ → _))

/-- The thread is inside `loop()` and the request is not to be seen there. -/
def Forgotten (s : EventLoopThread τ φ) : Prop :=
  s.insideLoop = true ∧ s.loop.quit = false

/-- A request that has been made is remembered for as long as the thread is
inside `loop()`. -/
structure Remembered (s : EventLoopThread τ φ) : Prop where
  past : s.pastReset = true
  quit : s.insideLoop = true → s.loop.quit = true

/-- Inside `loop()` and after its start, no step of the loop takes a request
back. -/
theorem loop_step_keeps {s m : EventLoop τ φ} {a : EventLoop.Input τ φ}
    {b : EventLoop.Output φ} (stepped : s.step a = some (m, b))
    (past : isEntered s.position = false)
    (inside : a = .loop → isOutside s.position = false) :
    isEntered m.position = false ∧ (s.quit = true → m.quit = true) := by
  cases EventLoop.steps_of_step stepped with
  | enter _ place =>
      have outside := inside rfl
      rw [place] at outside
      cases outside
  | advance _ advances =>
      cases advances with
      | reset place =>
          rw [place] at past
          cases past
      | drain place _ => exact ⟨past, id⟩
      | leave place _ | goOn place _ | wait _ place | dispatched place
      | handleWakeup place | handleEvent place | channelReturns place
      | drained place _ | collect _ place | timersDone place | timerReturns place
      | setCalling place | swap place | clearCalling place | call place
      | functorReturns place => exact ⟨rfl, id⟩
  | waitReturns _ _ _ | waitFails _ _ => exact ⟨rfl, id⟩
  | quitOwn _ _ | quit _ _ => exact ⟨past, fun _ => rfl⟩
  | decide _ =>
      unfold EventLoop.decideWakeup
      split <;> exact ⟨past, id⟩
  | push _ | ring _ | wakeup _ | runEvery _ | cancelTimer _ => exact ⟨past, id⟩

/-- A call of a thread does not move the loop. -/
theorem position_of_caller {s m : EventLoop τ φ} {a : EventLoop.Input τ φ}
    {b : EventLoop.Output φ} {t : τ} (stepped : s.step a = some (m, b))
    (called : caller a = some t) : m.position = s.position := by
  cases EventLoop.steps_of_step stepped with
  | decide _ =>
      unfold EventLoop.decideWakeup
      split <;> rfl
  | push _ | quitOwn _ _ | quit _ _ | ring _ | wakeup _ => rfl
  | runEvery _ | cancelTimer _ | enter _ _ | advance _ _ | waitReturns _ _ _
  | waitFails _ _ => cases called

/-- The thread exists only once it has been started. -/
def StartedFirst (s : EventLoopThread τ φ) : Prop :=
  s.started = false → s.place = .unborn

private theorem StartedFirst.step {s m : EventLoopThread τ φ} {a : Input τ φ} {b : Bool}
    (first : s.StartedFirst) (stepped : s.step a = some (m, b)) : m.StartedFirst := by
  cases a with
  | control =>
      cases controls_of_stepControl stepped with
      | moves mtx control silent => exact first
      | starts fresh => exact fun absent => (by cases absent)
      | quits here published => exact first
      | rings here => exact first
  | thread =>
      have born : s.place ≠ .unborn := by
        intro unborn
        simp [EventLoopThread.step, stepThread, unborn] at stepped
      have kept : m.started = s.started := by
        cases proceeds_of_stepThread stepped <;> rfl
      intro absent
      exact absurd (first (kept ▸ absent)) born
  | loop a =>
      obtain ⟨_, inner⟩ := Option.ite_none_right_eq_some.mp stepped
      obtain ⟨_, _, same⟩ := Option.map_eq_some_iff.mp inner
      cases same
      exact first

omit [DecidableEq τ] in
private theorem Remembered.control {s m : EventLoopThread τ φ} {b : Bool}
    (remembered : s.Remembered) (first : s.StartedFirst)
    (controls : Controls s m b) : m.Remembered := by
  cases controls with
  | moves mtx control silent => exact ⟨remembered.past, remembered.quit⟩
  | starts fresh =>
      have past := remembered.past
      rw [pastReset, first fresh] at past
      cases past
  | quits here published => exact ⟨remembered.past, fun _ => rfl⟩
  | rings here => exact ⟨remembered.past, remembered.quit⟩

private theorem Remembered.thread {s m : EventLoopThread τ φ} {b : Bool}
    (remembered : s.Remembered) (proceeds : Proceeds s m b) : m.Remembered := by
  have past := remembered.past
  cases proceeds with
  | prepares mtx published place before =>
      unfold pastReset at past
      cases here : s.place with
      | unborn | constructing | constructed | publishing | notifying | calling =>
          rw [here] at past
          cases past
      | inLoop | returned | clearing | finished =>
          rw [here] at before
          cases before
  | enters here entered =>
      rw [pastReset, here] at past
      cases past
  | returns here outside => exact ⟨rfl, fun inside => (by cases inside)⟩
  | locks here => exact ⟨rfl, fun inside => (by cases inside)⟩
  | clears here => exact ⟨rfl, fun inside => (by cases inside)⟩

/-- A use of the loop that leaves its thread inside `loop()` found it there. -/
private theorem insideLoop_before {s : EventLoopThread τ φ} {loop : EventLoop τ φ}
    {a : EventLoop.Input τ φ} {b : EventLoop.Output φ} (admitted : s.admits a = true)
    (stepped : s.loop.step a = some (loop, b))
    (inside : insideLoop { s with loop } = true) : s.insideLoop = true := by
  unfold admits at admitted
  split at admitted
  · rename_i t called
    split at admitted
    · exact admitted
    · rw [insideLoop, position_of_caller stepped called] at inside
      exact inside
  · exact admitted

private theorem not_outside_of_admits {s : EventLoopThread τ φ}
    (admitted : s.admits .loop = true) : isOutside s.loop.position = false := by
  have inside : s.insideLoop = true := admitted
  rw [insideLoop, Bool.and_eq_true, Bool.not_eq_true'] at inside
  exact inside.2

/-- A use of the loop after its start keeps it there, with what `quit_` says. -/
private theorem pastReset_loop {s : EventLoopThread τ φ} {loop : EventLoop τ φ}
    {a : EventLoop.Input τ φ} {b : EventLoop.Output φ}
    (past : s.pastReset = true) (admitted : s.admits a = true)
    (stepped : s.loop.step a = some (loop, b)) :
    pastReset { s with loop } = true ∧
      (s.insideLoop = true → s.loop.quit = true → loop.quit = true) := by
  unfold pastReset at past ⊢
  cases here : s.place with
  | unborn | constructing | constructed | publishing | notifying | calling =>
      rw [here] at past
      cases past
  | inLoop =>
      rw [here] at past
      obtain ⟨notEntered, kept⟩ := loop_step_keeps stepped (by simpa using past)
        (fun same => not_outside_of_admits (same ▸ admitted))
      exact ⟨by simpa using notEntered, fun _ => kept⟩
  | returned | clearing | finished =>
      refine ⟨rfl, fun inside => ?_⟩
      rw [insideLoop, here] at inside
      cases inside

/-- Every step keeps a request. -/
private theorem Remembered.step {s m : EventLoopThread τ φ} {a : Input τ φ} {b : Bool}
    (remembered : s.Remembered) (first : s.StartedFirst)
    (stepped : s.step a = some (m, b)) : m.Remembered := by
  cases a with
  | control => exact remembered.control first (controls_of_stepControl stepped)
  | thread => exact remembered.thread (proceeds_of_stepThread stepped)
  | loop a =>
      obtain ⟨admitted, inner⟩ := Option.ite_none_right_eq_some.mp stepped
      obtain ⟨⟨loop, _⟩, used, same⟩ := Option.map_eq_some_iff.mp inner
      cases same
      obtain ⟨past, kept⟩ := pastReset_loop remembered.past admitted used
      refine ⟨past, fun inside => ?_⟩
      have before := insideLoop_before admitted used inside
      exact kept before (remembered.quit before)

/-- A request made after the start of `loop()` is remembered. -/
private theorem remembered_of_quit {s m : EventLoopThread τ φ} {a : Input τ φ}
    (allowed : QuitsAfterReset s a) (stepped : s.step a = some (m, true)) :
    m.Remembered := by
  cases a with
  | control =>
      cases controls_of_stepControl stepped with
      | quits here published =>
          refine ⟨allowed ?_, fun _ => rfl⟩
          simp [setsQuitNow, here, published]
  | thread => cases proceeds_of_stepThread stepped
  | loop a =>
      obtain ⟨admitted, inner⟩ := Option.ite_none_right_eq_some.mp stepped
      obtain ⟨⟨loop, _⟩, used, same⟩ := Option.map_eq_some_iff.mp inner
      obtain ⟨rfl, quits⟩ := Prod.mk.inj same
      refine ⟨(pastReset_loop (allowed quits) admitted used).1, fun _ => ?_⟩
      cases EventLoop.steps_of_step used with
      | quitOwn _ _ | quit _ _ => rfl
      | push _ | decide _ | ring _ | wakeup _ | runEvery _ | cancelTimer _
      | enter _ _ | advance _ _ | waitReturns _ _ _ | waitFails _ _ => cases quits

/-- If `quit_` is set only after the start of `loop()`, then once it has been
set, no later state has the thread inside `loop()` with `quit_` false. -/
theorem run_not_forgotten {owner : τ} {inputs : List (Input τ φ)}
    {s : EventLoopThread τ φ} {history : List (Input τ φ × Bool)}
    (after : Machine.Along step QuitsAfterReset (create owner) inputs)
    (ran : Machine.run step (create owner) inputs = some (s, history))
    (requested : true ∈ history.map Prod.snd) : ¬ s.Forgotten := by
  have kept : s.StartedFirst ∧ (true ∈ history.map Prod.snd → s.Remembered) :=
    Machine.run_along
      (motive := fun history s =>
        s.StartedFirst ∧ (true ∈ history.map Prod.snd → s.Remembered))
      (fun history s a m b ⟨first, remembered⟩ allowed stepped => by
        refine ⟨first.step stepped, fun member => ?_⟩
        rw [List.map_append, List.mem_append] at member
        rcases member with earlier | now
        · exact (remembered earlier).step first stepped
        · cases List.mem_singleton.mp now
          exact remembered_of_quit allowed stepped)
      ⟨fun _ => rfl, fun member => absurd member List.not_mem_nil⟩ after ran
  rintro ⟨inside, forgotten⟩
  have quit := (kept.2 requested).quit inside
  rw [forgotten] at quit
  cases quit

/-- `startLoop()`, up to its return. -/
def startup : List (Input Bool Nat) :=
  [.control, .control, .control, .thread, .thread, .thread, .control, .control]

/-- `stop()` while the loop waits. -/
def stopWhileWaiting : List (Input Bool Nat) :=
  startup ++
    [.thread, .thread, .loop (.advance 0), .loop (.advance 0), .loop (.advance 0),
      .control, .control, .control, .control, .loop (.waitReturns [.wakeup])]

theorem run_not_forgotten_stopWhileWaiting :
    ∃ (s : EventLoopThread Bool Nat) (history : List (Input Bool Nat × Bool)),
      Machine.run step (create true) stopWhileWaiting = some (s, history) ∧
        true ∈ history.map Prod.snd ∧ ¬ s.Forgotten := by
  have requested : (Machine.run step (create true) stopWhileWaiting).any
      (fun result => true ∈ result.2.map Prod.snd) = true := by decide
  obtain ⟨⟨s, history⟩, ran, member⟩ := (Option.any_eq_true _ _).mp requested
  have present : true ∈ history.map Prod.snd := by simpa using member
  exact ⟨s, history, ran, present, run_not_forgotten (by decide) ran present⟩

/-- `stop()` runs up to its `join` before the started thread calls `loop()`. -/
def stopBeforeLoop : List (Input Bool Nat) :=
  startup ++
    [.control, .control, .control, .control, .thread, .thread,
      .loop (.advance 0), .loop (.advance 0), .loop (.advance 0),
      .loop (.waitReturns [.wakeup])] ++
    List.replicate 11 (.loop (.advance 0))

/-- The request is gone, and both threads wait for each other. -/
theorem stopBeforeLoop_forgotten :
    ∃ (s : EventLoopThread Bool Nat) (history : List (Input Bool Nat × Bool)),
      Machine.run step (create true) stopBeforeLoop = some (s, history) ∧
        true ∈ history.map Prod.snd ∧ s.Forgotten ∧ s.control = .joining ∧
        s.loop.position = .waiting (-1) ∧ s.loop.counter = 0 :=
  ⟨_, _, rfl, by decide, ⟨rfl, rfl⟩, rfl, rfl, rfl⟩

end EventLoopThread

end MiniNet
