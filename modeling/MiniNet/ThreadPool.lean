import MiniNet.Lib.Family
import MiniNet.Lib.Machine
import Mathlib.Data.Fintype.Pi

/-!
# The thread pool

Workers take tasks off a shared queue.  Every section of `mtx_` is one step;
a worker that finds nothing to do sleeps in `cv_.wait` and may wake at any
time.  A `submit` call is its section and, if it has pushed, a later
`notify_one`.  Calls of `submit` are numbered, so that the same function may
be submitted many times.
-/

namespace MiniNet

namespace ThreadPool

/-- A submitted function with the number of its `submit` call. -/
abbrev Task (τ : Type*) := Nat × τ

/-- Where a worker is in `workerLoop`. -/
inductive Worker (τ : Type*) where
  /-- Before the section, or woken and before the predicate. -/
  | ready
  /-- In `cv_.wait`. -/
  | waiting
  /-- Behind the section, with a task. -/
  | holding (task : Task τ)
  /-- In the call of the task. -/
  | executing (task : Task τ)
  | returned
  deriving DecidableEq

/-- Where the destructor is. -/
inductive Destructor where
  | alive
  /-- Before `cv_.notify_all()`. -/
  | stopping
  /-- At the joins. -/
  | joining
  | joined
  deriving DecidableEq

end ThreadPool

/-- The pool with workers `ι`, and next to it a record of what has become of
the submitted tasks. -/
structure ThreadPool (ι τ : Type*) where
  workers : ι → ThreadPool.Worker τ
  tasks : List (ThreadPool.Task τ)
  stop : Bool
  /-- Calls of `notify_one` that are still to come. -/
  notifies : Nat
  destructor : ThreadPool.Destructor
  submits : Nat
  accepted : List (ThreadPool.Task τ)
  refused : List (ThreadPool.Task τ)
  taken : List (ThreadPool.Task τ)
  executed : List (ThreadPool.Task τ)

namespace ThreadPool

variable {ι τ : Type*}

/-- The constructor starts at least one worker. -/
def workerCount (threads : Nat) : Nat := if threads = 0 then 1 else threads

def initial : ThreadPool ι τ :=
  { workers := fun _ => .ready
    tasks := []
    stop := false
    notifies := 0
    destructor := .alive
    submits := 0
    accepted := []
    refused := []
    taken := []
    executed := [] }

/-- The section of `submit`. -/
def submit (s : ThreadPool ι τ) (f : τ) : ThreadPool ι τ :=
  let task := (s.submits, f)
  if s.stop then { s with submits := s.submits + 1, refused := s.refused ++ [task] }
  else
    { s with
      submits := s.submits + 1
      tasks := s.tasks ++ [task]
      notifies := s.notifies + 1
      accepted := s.accepted ++ [task] }

variable [DecidableEq ι]

def setWorker (s : ThreadPool ι τ) (w : ι) (worker : Worker τ) : ThreadPool ι τ :=
  { s with workers := Function.update s.workers w worker }

/-- The section of `workerLoop`: the predicate of the wait, the exit test and
the pop. -/
def take (s : ThreadPool ι τ) (w : ι) : ThreadPool ι τ :=
  match s.tasks with
  | [] => if s.stop then s.setWorker w .returned else s.setWorker w .waiting
  | task :: rest =>
      { s.setWorker w (.holding task) with tasks := rest, taken := s.taken ++ [task] }

/-- The next step of a worker that is not asleep. -/
def work (s : ThreadPool ι τ) (w : ι) : Option (ThreadPool ι τ) :=
  match s.workers w with
  | .ready => some (s.take w)
  | .waiting => none
  | .holding task =>
      some { s.setWorker w (.executing task) with executed := s.executed ++ [task] }
  | .executing _ => some (s.setWorker w .ready)
  | .returned => none

def wake : Worker τ → Worker τ
  | .waiting => .ready
  | worker => worker

inductive Action (ι τ : Type*) where
  | submit (f : τ)
  /-- A `notify_one`, with the sleeper it wakes if there is one. -/
  | notifyOne (w : Option ι)
  /-- A sleeper wakes for no reason. -/
  | spurious (w : ι)
  | work (w : ι)
  /-- The section of the destructor. -/
  | stop
  | notifyAll
  | join

def asleep : Worker τ → Bool
  | .waiting => true
  | _ => false

def hasReturned : Worker τ → Bool
  | .returned => true
  | _ => false

variable [Fintype ι]

def step (s : ThreadPool ι τ) : Action ι τ → Option (ThreadPool ι τ × Unit)
  | .submit f => some (s.submit f, ())
  | .notifyOne none =>
      if 0 < s.notifies ∧ ∀ w, asleep (s.workers w) = false then
        some ({ s with notifies := s.notifies - 1 }, ())
      else none
  | .notifyOne (some w) =>
      if 0 < s.notifies ∧ asleep (s.workers w) = true then
        some ({ s.setWorker w .ready with notifies := s.notifies - 1 }, ())
      else none
  | .spurious w =>
      if asleep (s.workers w) = true then some (s.setWorker w .ready, ()) else none
  | .work w => (s.work w).map fun s => (s, ())
  | .stop =>
      if s.destructor = .alive then
        some ({ s with stop := true, destructor := .stopping }, ())
      else none
  | .notifyAll =>
      if s.destructor = .stopping then
        some ({ s with workers := fun w => wake (s.workers w), destructor := .joining }, ())
      else none
  | .join =>
      if s.destructor = .joining ∧ ∀ w, hasReturned (s.workers w) = true then
        some ({ s with destructor := .joined }, ())
      else none

end ThreadPool

end MiniNet
