import MiniNet.Lib.Machine
import Mathlib.Algebra.Group.Nat.Defs
import Mathlib.Logic.Function.Basic

/-!
# The event loop

One `EventLoop` and the threads that use it, in atomic steps.  The loop's own
thread is at one of the places of `loop()`, or outside of it; the other
threads come in at any time.  Every section of `mtx_`, every access to an
atomic variable, every system call on the eventfd and the wait is one step.
A thread that has pushed a functor still has to take the decision whether to
ring the eventfd; that decision reads nothing which another thread writes, so
that it is one step with the ringing.

The bodies of callbacks and functors are not part of the model: while one of
them runs, the loop's own thread may call any function of the loop, in any
order.  The results of the wait, the clock and the order of the threads are
inputs.
-/

namespace MiniNet

/-- A periodic timer; `next` is a time of the steady clock in nanoseconds. -/
structure TimedTask where
  id : Int
  intervalMs : Int
  next : Int
  deriving DecidableEq

namespace EventLoop

/-- What the poller reports as active: the eventfd or another channel. -/
inductive Source where
  | wakeup
  | channel
  deriving DecidableEq

/-- Where a thread is in a call of `queueInLoop` or `quit`. -/
inductive Stage where
  | idle
  /-- The functor is pushed, the wakeup decision is still to come. -/
  | pushed
  /-- `quit_` is set, the eventfd is still to be written. -/
  | quitting
  deriving DecidableEq

/-- Where the loop's own thread is. -/
inductive Position (φ : Type*) where
  | outside
  /-- In `loop()`, before `quit_ = false`. -/
  | entered
  /-- At the condition of the `while`. -/
  | testing
  /-- Before `nextTimeoutMs()`. -/
  | polling
  | waiting (timeoutMs : Int)
  /-- Before the next of the active channels. -/
  | dispatching (active : List Source)
  /-- In the callback of a channel. -/
  | inChannel (active : List Source)
  /-- In `handleWakeup`. -/
  | draining (active : List Source)
  | beforeTimers
  /-- In `runDueTimers`; the first of these callbacks runs. -/
  | inTimers (due : List Int)
  /-- Before `calling_pending_ = true`. -/
  | beforePending
  /-- Before the swap. -/
  | swapping
  /-- Between two functors of the local batch. -/
  | batch (functors : List φ)
  /-- In a functor; these come after it. -/
  | inFunctor (functors : List φ)
  deriving DecidableEq

/-- The places where code of the application runs on the loop's own thread. -/
def Position.inUserCode {φ : Type*} : Position φ → Bool
  | .outside | .inChannel _ | .inTimers (_ :: _) | .inFunctor _ => true
  | _ => false

/-- The local batch of `doPendingFunctors` that is not yet executed. -/
def Position.functors {φ : Type*} : Position φ → List φ
  | .batch functors | .inFunctor functors => functors
  | _ => []

end EventLoop

/-- The loop, the counter of its eventfd, and the stage of every thread. -/
structure EventLoop (τ φ : Type*) where
  owner : τ
  position : EventLoop.Position φ
  quit : Bool
  looping : Bool
  callingPending : Bool
  pending : List φ
  timers : List TimedTask
  nextTimerId : Int
  counter : Nat
  stage : τ → EventLoop.Stage

namespace EventLoop

variable {τ φ : Type*}

def kMaxEvents : Nat := 1024

/-- The constructor, which runs on the thread that owns the loop. -/
def create (owner : τ) : EventLoop τ φ :=
  { owner
    position := .outside
    quit := false
    looping := false
    callingPending := false
    pending := []
    timers := []
    nextTimerId := 1
    counter := 0
    stage := fun _ => .idle }

/-- `nextTimeoutMs()`; a duration is rounded towards zero to milliseconds. -/
def nextTimeoutMs (timers : List TimedTask) (now : Int) : Int :=
  if timers = [] then -1
  else
    timers.foldl (fun best t =>
      let ms := (t.next - now).tdiv 1000000
      min best (if ms < 0 then 0 else ms)) 1000

/-- The write of `wakeup()`: an eventfd whose counter is at its largest value
refuses it and keeps the value. -/
def wakeup (s : EventLoop τ φ) : EventLoop τ φ :=
  { s with counter := if s.counter = 2 ^ 64 - 2 then s.counter else s.counter + 1 }

def runEvery (s : EventLoop τ φ) (intervalMs now : Int) : EventLoop τ φ :=
  let interval := if intervalMs < 1 then 1 else intervalMs
  { s with
    nextTimerId := s.nextTimerId + 1
    timers := s.timers ++
      [{ id := s.nextTimerId, intervalMs := interval, next := now + interval * 1000000 }] }

def cancelTimer (s : EventLoop τ φ) (id : Int) : EventLoop τ φ :=
  { s with timers := s.timers.eraseP (·.id == id) }

/-- `runDueTimers` up to the calls: the due timers are set forward and their
callbacks collected. -/
def collectDue (timers : List TimedTask) (now : Int) : List TimedTask × List Int :=
  (timers.map fun t =>
      if t.next ≤ now then { t with next := now + t.intervalMs * 1000000 } else t,
    (timers.filter (·.next ≤ now)).map (·.id))

/-- `pendingCount()`. -/
def pendingCount (s : EventLoop τ φ) : Nat := s.pending.length

/-! ## Steps -/

inductive Input (τ φ : Type*) where
  /-- `queueInLoop` up to the end of its section of `mtx_`. -/
  | push (t : τ) (f : φ)
  /-- The rest of `queueInLoop`. -/
  | decide (t : τ)
  /-- `quit_ = true` in `quit()`. -/
  | quit (t : τ)
  /-- The wakeup of `quit()`. -/
  | ring (t : τ)
  /-- A direct call of `wakeup()`. -/
  | wakeup (t : τ)
  | runEvery (intervalMs now : Int)
  | cancelTimer (id : Int)
  /-- A call of `loop()`. -/
  | loop
  /-- The next step of the loop's own thread, at this time of the clock. -/
  | advance (now : Int)
  | waitReturns (active : List Source)
  /-- The wait is interrupted or fails. -/
  | waitFails

/-- What a step shows. -/
inductive Output (φ : Type*) where
  | quiet
  /-- The pending functors become a local batch. -/
  | swapped
  /-- A functor of the local batch is called. -/
  | called (f : φ)
  deriving DecidableEq

/-- The call of `loop()`, which is not made from within it. -/
def enter (s : EventLoop τ φ) : Option (EventLoop τ φ × Output φ) :=
  match s.position with
  | .outside => some ({ s with looping := true, position := .entered }, .quiet)
  | _ => none

/-- The next step of the loop's own thread at its place in `loop()`.  A
callback, a timer or a functor that is running returns. -/
def advance (s : EventLoop τ φ) (now : Int) : Option (EventLoop τ φ × Output φ) :=
  match s.position with
  | .outside => none
  | .entered => some ({ s with quit := false, position := .testing }, .quiet)
  | .testing =>
      if s.quit then some ({ s with looping := false, position := .outside }, .quiet)
      else some ({ s with position := .polling }, .quiet)
  | .polling =>
      some ({ s with position := .waiting (nextTimeoutMs s.timers now) }, .quiet)
  | .waiting _ => none
  | .dispatching [] => some ({ s with position := .beforeTimers }, .quiet)
  | .dispatching (.wakeup :: active) =>
      some ({ s with position := .draining active }, .quiet)
  | .dispatching (.channel :: active) =>
      some ({ s with position := .inChannel active }, .quiet)
  | .inChannel active => some ({ s with position := .dispatching active }, .quiet)
  | .draining active =>
      if 0 < s.counter then some ({ s with counter := 0 }, .quiet)
      else some ({ s with position := .dispatching active }, .quiet)
  | .beforeTimers =>
      some ({ s with
        timers := (collectDue s.timers now).1
        position := .inTimers (collectDue s.timers now).2 }, .quiet)
  | .inTimers [] => some ({ s with position := .beforePending }, .quiet)
  | .inTimers (_ :: due) => some ({ s with position := .inTimers due }, .quiet)
  | .beforePending =>
      some ({ s with callingPending := true, position := .swapping }, .quiet)
  | .swapping => some ({ s with pending := [], position := .batch s.pending }, .swapped)
  | .batch [] => some ({ s with callingPending := false, position := .testing }, .quiet)
  | .batch (f :: functors) => some ({ s with position := .inFunctor functors }, .called f)
  | .inFunctor functors => some ({ s with position := .batch functors }, .quiet)

/-- The results that `epoll_wait` can have: a channel is reported once, the
eventfd only if its counter is not zero, and without a timeout there is
something to report. -/
def WaitMayReturn (s : EventLoop τ φ) (timeoutMs : Int) (active : List Source) : Prop :=
  active.length ≤ kMaxEvents ∧ active.count .wakeup ≤ 1 ∧
    (.wakeup ∈ active → 0 < s.counter) ∧ (timeoutMs = -1 → active ≠ [])

instance (s : EventLoop τ φ) (timeoutMs : Int) (active : List Source) :
    Decidable (s.WaitMayReturn timeoutMs active) :=
  inferInstanceAs (Decidable (_ ∧ _ ∧ _ ∧ _))

def waitReturns (s : EventLoop τ φ) (active : List Source) :
    Option (EventLoop τ φ × Output φ) :=
  match s.position with
  | .waiting timeoutMs =>
      if s.WaitMayReturn timeoutMs active then
        some ({ s with position := .dispatching active }, .quiet)
      else none
  | _ => none

def waitFails (s : EventLoop τ φ) : Option (EventLoop τ φ × Output φ) :=
  match s.position with
  | .waiting _ => some ({ s with position := .dispatching [] }, .quiet)
  | _ => none

/-! ## What the loop's own thread can do -/

/-- The steps of the loop's own thread in `loop()`, one for each place. -/
inductive Advances (s : EventLoop τ φ) : EventLoop τ φ → Output φ → Prop
  | reset : s.position = .entered →
      Advances s { s with quit := false, position := .testing } .quiet
  | leave : s.position = .testing → s.quit = true →
      Advances s { s with looping := false, position := .outside } .quiet
  | goOn : s.position = .testing → s.quit = false →
      Advances s { s with position := .polling } .quiet
  | wait (now : Int) : s.position = .polling →
      Advances s { s with position := .waiting (nextTimeoutMs s.timers now) } .quiet
  | dispatched : s.position = .dispatching [] →
      Advances s { s with position := .beforeTimers } .quiet
  | handleWakeup {active : List Source} :
      s.position = .dispatching (.wakeup :: active) →
      Advances s { s with position := .draining active } .quiet
  | handleEvent {active : List Source} :
      s.position = .dispatching (.channel :: active) →
      Advances s { s with position := .inChannel active } .quiet
  | channelReturns {active : List Source} : s.position = .inChannel active →
      Advances s { s with position := .dispatching active } .quiet
  | drain {active : List Source} : s.position = .draining active → 0 < s.counter →
      Advances s { s with counter := 0 } .quiet
  | drained {active : List Source} : s.position = .draining active →
      s.counter = 0 → Advances s { s with position := .dispatching active } .quiet
  | collect (now : Int) : s.position = .beforeTimers →
      Advances s { s with
        timers := (collectDue s.timers now).1
        position := .inTimers (collectDue s.timers now).2 } .quiet
  | timersDone : s.position = .inTimers [] →
      Advances s { s with position := .beforePending } .quiet
  | timerReturns {id : Int} {due : List Int} : s.position = .inTimers (id :: due) →
      Advances s { s with position := .inTimers due } .quiet
  | setCalling : s.position = .beforePending →
      Advances s { s with callingPending := true, position := .swapping } .quiet
  | swap : s.position = .swapping →
      Advances s { s with pending := [], position := .batch s.pending } .swapped
  | clearCalling : s.position = .batch [] →
      Advances s { s with callingPending := false, position := .testing } .quiet
  | call {f : φ} {functors : List φ} : s.position = .batch (f :: functors) →
      Advances s { s with position := .inFunctor functors } (.called f)
  | functorReturns {functors : List φ} : s.position = .inFunctor functors →
      Advances s { s with position := .batch functors } .quiet

theorem advances_of_advance {s m : EventLoop τ φ} {now : Int} {b : Output φ}
    (advanced : s.advance now = some (m, b)) : Advances s m b := by
  unfold advance at advanced
  split at advanced
  all_goals rename_i place
  · cases advanced
  · cases advanced
    exact .reset place
  · split at advanced
    · rename_i quitting
      cases advanced
      exact .leave place quitting
    · rename_i running
      cases advanced
      exact .goOn place (by simpa using running)
  · cases advanced
    exact .wait now place
  · cases advanced
  · cases advanced
    exact .dispatched place
  · cases advanced
    exact .handleWakeup place
  · cases advanced
    exact .handleEvent place
  · cases advanced
    exact .channelReturns place
  · split at advanced
    · rename_i rung
      cases advanced
      exact .drain place rung
    · rename_i empty
      cases advanced
      exact .drained place (by omega)
  · cases advanced
    exact .collect now place
  · cases advanced
    exact .timersDone place
  · cases advanced
    exact .timerReturns place
  · cases advanced
    exact .setCalling place
  · cases advanced
    exact .swap place
  · cases advanced
    exact .clearCalling place
  · cases advanced
    exact .call place
  · cases advanced
    exact .functorReturns place

/-! ## The calls of all threads -/

variable [DecidableEq τ]

def isInLoopThread (s : EventLoop τ φ) (t : τ) : Bool := s.owner == t

/-- Whether a thread can begin a call: it is not in one, and the loop's own
thread is not busy with the loop itself. -/
def mayCall (s : EventLoop τ φ) (t : τ) : Bool :=
  s.stage t == .idle && (!s.isInLoopThread t || s.position.inUserCode)

def setStage (s : EventLoop τ φ) (t : τ) (stage : Stage) : EventLoop τ φ :=
  { s with stage := Function.update s.stage t stage }

/-- The end of `queueInLoop`. -/
def decideWakeup (s : EventLoop τ φ) (t : τ) : EventLoop τ φ :=
  if !s.isInLoopThread t || s.callingPending then s.wakeup else s

def step (s : EventLoop τ φ) : Input τ φ → Option (EventLoop τ φ × Output φ)
  | .push t f =>
      if s.mayCall t then
        some ({ s.setStage t .pushed with pending := s.pending ++ [f] }, .quiet)
      else none
  | .decide t =>
      if s.stage t = .pushed then some ((s.decideWakeup t).setStage t .idle, .quiet)
      else none
  | .quit t =>
      if s.mayCall t then
        if s.isInLoopThread t then some ({ s with quit := true }, .quiet)
        else some ({ s.setStage t .quitting with quit := true }, .quiet)
      else none
  | .ring t =>
      if s.stage t = .quitting then some (s.wakeup.setStage t .idle, .quiet)
      else none
  | .wakeup t => if s.mayCall t then some (s.wakeup, .quiet) else none
  | .runEvery intervalMs now =>
      if s.mayCall s.owner then some (s.runEvery intervalMs now, .quiet) else none
  | .cancelTimer id =>
      if s.mayCall s.owner then some (s.cancelTimer id, .quiet) else none
  | .loop => if s.stage s.owner = .idle then s.enter else none
  | .advance now => if s.stage s.owner = .idle then s.advance now else none
  | .waitReturns active =>
      if s.stage s.owner = .idle then s.waitReturns active else none
  | .waitFails => if s.stage s.owner = .idle then s.waitFails else none

/-- Everything a step can do: the calls of the threads, and the loop's own
steps, which its thread takes while it is in no call. -/
inductive Steps (s : EventLoop τ φ) :
    Input τ φ → EventLoop τ φ → Output φ → Prop
  | push {t : τ} {f : φ} : s.mayCall t →
      Steps s (.push t f)
        { s.setStage t .pushed with pending := s.pending ++ [f] } .quiet
  | decide {t : τ} : s.stage t = .pushed →
      Steps s (.decide t) ((s.decideWakeup t).setStage t .idle) .quiet
  | quitOwn {t : τ} : s.mayCall t → s.isInLoopThread t →
      Steps s (.quit t) { s with quit := true } .quiet
  | quit {t : τ} : s.mayCall t → s.isInLoopThread t = false →
      Steps s (.quit t) { s.setStage t .quitting with quit := true } .quiet
  | ring {t : τ} : s.stage t = .quitting →
      Steps s (.ring t) (s.wakeup.setStage t .idle) .quiet
  | wakeup {t : τ} : s.mayCall t → Steps s (.wakeup t) s.wakeup .quiet
  | runEvery {intervalMs now : Int} : s.mayCall s.owner →
      Steps s (.runEvery intervalMs now) (s.runEvery intervalMs now) .quiet
  | cancelTimer {id : Int} : s.mayCall s.owner →
      Steps s (.cancelTimer id) (s.cancelTimer id) .quiet
  | enter : s.stage s.owner = .idle → s.position = .outside →
      Steps s .loop { s with looping := true, position := .entered } .quiet
  | advance {now : Int} {m : EventLoop τ φ} {b : Output φ} :
      s.stage s.owner = .idle → Advances s m b → Steps s (.advance now) m b
  | waitReturns {timeoutMs : Int} {active : List Source} :
      s.stage s.owner = .idle → s.position = .waiting timeoutMs →
      s.WaitMayReturn timeoutMs active →
      Steps s (.waitReturns active) { s with position := .dispatching active } .quiet
  | waitFails {timeoutMs : Int} :
      s.stage s.owner = .idle → s.position = .waiting timeoutMs →
      Steps s .waitFails { s with position := .dispatching [] } .quiet

theorem steps_of_step {s m : EventLoop τ φ} {a : Input τ φ} {b : Output φ}
    (stepped : s.step a = some (m, b)) : Steps s a m b := by
  cases a with
  | push t f =>
      obtain ⟨may, same⟩ := Option.ite_none_right_eq_some.mp stepped
      cases same
      exact .push may
  | decide t =>
      obtain ⟨pushed, same⟩ := Option.ite_none_right_eq_some.mp stepped
      cases same
      exact .decide pushed
  | quit t =>
      obtain ⟨may, same⟩ := Option.ite_none_right_eq_some.mp stepped
      split at same
      · rename_i own
        cases same
        exact .quitOwn may own
      · rename_i other
        cases same
        exact .quit may (by simpa using other)
  | ring t =>
      obtain ⟨quitting, same⟩ := Option.ite_none_right_eq_some.mp stepped
      cases same
      exact .ring quitting
  | wakeup t =>
      obtain ⟨may, same⟩ := Option.ite_none_right_eq_some.mp stepped
      cases same
      exact .wakeup may
  | runEvery intervalMs now =>
      obtain ⟨may, same⟩ := Option.ite_none_right_eq_some.mp stepped
      cases same
      exact .runEvery may
  | cancelTimer id =>
      obtain ⟨may, same⟩ := Option.ite_none_right_eq_some.mp stepped
      cases same
      exact .cancelTimer may
  | loop =>
      obtain ⟨idle, entered⟩ := Option.ite_none_right_eq_some.mp stepped
      unfold EventLoop.enter at entered
      split at entered
      · rename_i place
        cases entered
        exact .enter idle place
      · cases entered
  | advance now =>
      obtain ⟨idle, advanced⟩ := Option.ite_none_right_eq_some.mp stepped
      exact .advance idle (advances_of_advance advanced)
  | waitReturns active =>
      obtain ⟨idle, returned⟩ := Option.ite_none_right_eq_some.mp stepped
      unfold EventLoop.waitReturns at returned
      split at returned
      · rename_i timeoutMs place
        obtain ⟨possible, same⟩ := Option.ite_none_right_eq_some.mp returned
        cases same
        exact .waitReturns idle place possible
      · cases returned
  | waitFails =>
      obtain ⟨idle, failed⟩ := Option.ite_none_right_eq_some.mp stepped
      unfold EventLoop.waitFails at failed
      split at failed
      · rename_i timeoutMs place
        cases failed
        exact .waitFails idle place
      · cases failed

end EventLoop

end MiniNet
