import MiniNet.EventLoop
import Mathlib.Data.List.Forall2

/-!
# The order of the functors

In every interleaving, the functors that have been called, the rest of the
local batch and the pending ones are together the functors that have been
pushed, in the order of the pushes.
-/

namespace MiniNet

namespace EventLoop

variable {τ φ : Type*}

/-! ## What a history pushes and calls -/

/-- The functor that an input pushes. -/
def Input.pushed : Input τ φ → List φ
  | .push _ f => [f]
  | _ => []

/-- The functor that a step calls. -/
def Output.executed : Output φ → List φ
  | .called f => [f]
  | _ => []

/-- The number of batches that a step takes. -/
def Output.batches : Output φ → Nat
  | .swapped => 1
  | _ => 0

abbrev History (τ φ : Type*) := List (Input τ φ × Output φ)

/-- The number of batches taken in a history. -/
def batches : History τ φ → Nat
  | [] => 0
  | (_, b) :: later => b.batches + batches later

/-- The functors that the steps of a history give, in order, each with the
number of batches taken up to then. -/
def stamped (gives : Input τ φ × Output φ → List φ) : Nat → History τ φ → List (φ × Nat)
  | _, [] => []
  | taken, item :: later =>
      (gives item).map (·, taken) ++ stamped gives (taken + item.2.batches) later

/-- The functors pushed in a history, each with the number of batches taken
before. -/
def pushed (history : History τ φ) : List (φ × Nat) := stamped (·.1.pushed) 0 history

/-- The functors called in a history, each with the number of its batch. -/
def executed (history : History τ φ) : List (φ × Nat) :=
  stamped (·.2.executed) 0 history

theorem batches_concat (history : History τ φ) (a : Input τ φ) (b : Output φ) :
    batches (history ++ [(a, b)]) = batches history + b.batches := by
  induction history with
  | nil => exact Nat.add_comm _ _
  | cons item later ih =>
      obtain ⟨_, output⟩ := item
      simp only [List.cons_append, batches, ih]
      omega

theorem stamped_concat (gives : Input τ φ × Output φ → List φ) (taken : Nat)
    (history : History τ φ) (item : Input τ φ × Output φ) :
    stamped gives taken (history ++ [item]) =
      stamped gives taken history ++
        (gives item).map (·, taken + batches history) := by
  induction history generalizing taken with
  | nil => simp [stamped, batches]
  | cons first later ih =>
      simp only [List.cons_append, stamped, ih, batches, List.append_assoc]
      rw [Nat.add_assoc]

theorem pushed_concat (history : History τ φ) (a : Input τ φ) (b : Output φ) :
    pushed (history ++ [(a, b)]) =
      pushed history ++ a.pushed.map (·, batches history) := by
  rw [pushed, stamped_concat, Nat.zero_add]
  rfl

theorem executed_concat (history : History τ φ) (a : Input τ φ) (b : Output φ) :
    executed (history ++ [(a, b)]) =
      executed history ++ b.executed.map (·, batches history) := by
  rw [executed, stamped_concat, Nat.zero_add]
  rfl

/-! ## Order -/

/-- A functor is called in a later batch than any that was taken before it was
pushed. -/
def CalledLater (call push : φ × Nat) : Prop := call.1 = push.1 ∧ push.2 < call.2

private theorem map_fst_calledLater {calls pushes : List (φ × Nat)}
    (later : List.Forall₂ CalledLater calls pushes) :
    calls.map Prod.fst = pushes.map Prod.fst := by
  induction later with
  | nil => rfl
  | cons same _ ih => rw [List.map_cons, List.map_cons, same.1, ih]

/-- The pushed functors are, in order, those already called, those of the
local batch and those still pending. -/
structure Ordered (history : History τ φ) (s : EventLoop τ φ)
    (done current queued : List (φ × Nat)) : Prop where
  all : pushed history = done ++ current ++ queued
  called : List.Forall₂ CalledLater (executed history) done
  batch : current.map Prod.fst = s.position.functors
  batchEarlier : ∀ push ∈ current, push.2 < batches history
  pending : queued.map Prod.fst = s.pending
  pendingEarlier : ∀ push ∈ queued, push.2 ≤ batches history

/-- A step that neither pushes, nor calls, nor takes a batch. -/
private theorem Ordered.unchanged {history : History τ φ} {s m : EventLoop τ φ}
    {done current queued : List (φ × Nat)} {a : Input τ φ} {b : Output φ}
    (ordered : Ordered history s done current queued) (quiet : b = .quiet)
    (noPush : a.pushed = []) (samePending : m.pending = s.pending)
    (sameBatch : m.position.functors = s.position.functors) :
    Ordered (history ++ [(a, b)]) m done current queued := by
  subst quiet
  refine
    { all := ?_
      called := ?_
      batch := by rw [sameBatch, ordered.batch]
      batchEarlier := ?_
      pending := by rw [samePending, ordered.pending]
      pendingEarlier := ?_ }
  · rw [pushed_concat, noPush, List.map_nil, List.append_nil, ordered.all]
  · rw [executed_concat]
    simpa [Output.executed] using ordered.called
  · rw [batches_concat]
    exact ordered.batchEarlier
  · rw [batches_concat]
    exact ordered.pendingEarlier

private theorem Ordered.push {history : History τ φ} {s m : EventLoop τ φ}
    {done current queued : List (φ × Nat)} {t : τ} {f : φ}
    (ordered : Ordered history s done current queued)
    (grown : m.pending = s.pending ++ [f]) (samePosition : m.position = s.position) :
    Ordered (history ++ [(.push t f, .quiet)]) m done current
      (queued ++ [(f, batches history)]) := by
  refine
    { all := ?_
      called := ?_
      batch := by rw [samePosition, ordered.batch]
      batchEarlier := ?_
      pending := ?_
      pendingEarlier := ?_ }
  · rw [pushed_concat, ordered.all]
    simp [Input.pushed]
  · rw [executed_concat]
    simpa [Output.executed] using ordered.called
  · rw [batches_concat]
    exact ordered.batchEarlier
  · rw [List.map_append, ordered.pending, grown]
    rfl
  · rw [batches_concat]
    intro push member
    rcases List.mem_append.mp member with old | new
    · exact ordered.pendingEarlier push old
    · cases List.mem_singleton.mp new
      exact Nat.le_refl _

private theorem Ordered.swap {history : History τ φ} {s : EventLoop τ φ}
    {done current queued : List (φ × Nat)} {a : Input τ φ}
    (ordered : Ordered history s done current queued) (noPush : a.pushed = [])
    (place : s.position = .swapping) :
    Ordered (history ++ [(a, .swapped)])
      { s with pending := [], position := .batch s.pending } done queued [] := by
  have noBatch : current = [] := by
    have batch := ordered.batch
    rw [place] at batch
    exact List.map_eq_nil_iff.mp batch
  refine
    { all := ?_
      called := ?_
      batch := ordered.pending
      batchEarlier := ?_
      pending := rfl
      pendingEarlier := by simp }
  · rw [pushed_concat, noPush, ordered.all, noBatch]
    simp
  · rw [executed_concat]
    simpa [Output.executed] using ordered.called
  · rw [batches_concat]
    intro push member
    have earlier := ordered.pendingEarlier push member
    simp only [Output.batches]
    omega

private theorem Ordered.call {history : History τ φ} {s : EventLoop τ φ}
    {done current queued : List (φ × Nat)} {a : Input τ φ} {f : φ}
    {functors : List φ} (ordered : Ordered history s done current queued)
    (noPush : a.pushed = []) (place : s.position = .batch (f :: functors)) :
    ∃ push rest, Ordered (history ++ [(a, .called f)])
      { s with position := .inFunctor functors } (done ++ [push]) rest queued := by
  have batch := ordered.batch
  rw [place] at batch
  obtain ⟨push, rest, rfl, rfl, restBatch⟩ := List.map_eq_cons_iff.mp batch
  have earlier := ordered.batchEarlier _ List.mem_cons_self
  refine ⟨push, rest,
    { all := ?_
      called := ?_
      batch := restBatch
      batchEarlier := ?_
      pending := ordered.pending
      pendingEarlier := ?_ }⟩
  · rw [pushed_concat, noPush, ordered.all]
    simp
  · rw [executed_concat]
    exact List.rel_append ordered.called (.cons ⟨rfl, earlier⟩ .nil)
  · rw [batches_concat]
    exact fun push member => ordered.batchEarlier push (List.mem_cons_of_mem _ member)
  · rw [batches_concat]
    exact ordered.pendingEarlier

private theorem Ordered.advance {history : History τ φ} {s m : EventLoop τ φ}
    {done current queued : List (φ × Nat)} {a : Input τ φ} {b : Output φ}
    (ordered : Ordered history s done current queued) (noPush : a.pushed = [])
    (advances : Advances s m b) :
    ∃ done current queued, Ordered (history ++ [(a, b)]) m done current queued := by
  cases advances with
  | swap place => exact ⟨_, _, _, ordered.swap noPush place⟩
  | call place =>
      obtain ⟨_, _, after⟩ := ordered.call noPush place
      exact ⟨_, _, _, after⟩
  | drain place _ => exact ⟨_, _, _, ordered.unchanged rfl noPush rfl rfl⟩
  | reset place | leave place _ | goOn place _ | wait _ place | dispatched place
  | handleWakeup place | handleEvent place | channelReturns place
  | drained place _ | collect _ place | timersDone place | timerReturns place
  | setCalling place | clearCalling place | functorReturns place =>
      exact ⟨_, _, _, ordered.unchanged rfl noPush rfl (by rw [place]; rfl)⟩

variable [DecidableEq τ]

@[simp] theorem pending_decideWakeup (s : EventLoop τ φ) (t : τ) :
    (s.decideWakeup t).pending = s.pending := by
  unfold decideWakeup
  split <;> rfl

@[simp] theorem position_decideWakeup (s : EventLoop τ φ) (t : τ) :
    (s.decideWakeup t).position = s.position := by
  unfold decideWakeup
  split <;> rfl

private theorem Ordered.step {history : History τ φ} {s m : EventLoop τ φ}
    {done current queued : List (φ × Nat)} {a : Input τ φ} {b : Output φ}
    (ordered : Ordered history s done current queued)
    (stepped : s.step a = some (m, b)) :
    ∃ done current queued, Ordered (history ++ [(a, b)]) m done current queued := by
  cases steps_of_step stepped with
  | push may => exact ⟨_, _, _, ordered.push rfl rfl⟩
  | decide waiting =>
      refine ⟨_, _, _, ordered.unchanged rfl rfl (pending_decideWakeup s _) ?_⟩
      exact congrArg Position.functors (position_decideWakeup s _)
  | advance idle advances => exact ordered.advance rfl advances
  | enter idle place | waitReturns idle place _ | waitFails idle place =>
      exact ⟨_, _, _, ordered.unchanged rfl rfl rfl (by rw [place]; rfl)⟩
  | quitOwn may own | quit may other | ring quitting | wakeup may | runEvery may
  | cancelTimer may => exact ⟨_, _, _, ordered.unchanged rfl rfl rfl rfl⟩

/-- In every state of every run, the functors called so far, the rest of the
local batch and the pending functors are together the functors pushed so far
in the order of the pushes; and each has been called in a later batch than
all that were taken before it was pushed. -/
theorem run_functors_in_order {owner : τ} {inputs : List (Input τ φ)}
    {s : EventLoop τ φ} {history : History τ φ}
    (ran : Machine.run step (create owner) inputs = some (s, history)) :
    (executed history).map Prod.fst ++ s.position.functors ++ s.pending =
        (pushed history).map Prod.fst ∧
      List.Forall₂ CalledLater (executed history)
        ((pushed history).take (executed history).length) := by
  obtain ⟨done, current, queued, ordered⟩ := Machine.run_induct
    (motive := fun history s => ∃ done current queued,
      Ordered history s done current queued)
    (fun history s a m b ⟨_, _, _, ordered⟩ stepped => ordered.step stepped)
    ⟨[], [], [], rfl, .nil, rfl, by simp, rfl, by simp⟩ ran
  constructor
  · rw [ordered.all, List.map_append, List.map_append, ordered.batch,
      ordered.pending, map_fst_calledLater ordered.called]
  · rw [ordered.all, ordered.called.length_eq, List.append_assoc, List.take_left]
    exact ordered.called

/-- Another thread pushes 7 and rings; while the loop runs it, it pushes 8. -/
def nestedPush : List (Input Bool Nat) :=
  [.loop, .advance 0, .advance 0, .advance 0, .push false 7, .decide false,
    .waitReturns [.wakeup], .advance 0, .advance 0, .advance 0, .advance 0,
    .advance 0, .advance 0, .advance 0, .advance 0, .advance 0, .push true 8]

theorem run_functors_in_order_nested :
    ∃ (s : EventLoop Bool Nat) (history : History Bool Nat),
      Machine.run step (create true) nestedPush = some (s, history) ∧
        (executed history).map Prod.fst ++ s.position.functors ++ s.pending =
          (pushed history).map Prod.fst := by
  obtain ⟨⟨s, history⟩, ran⟩ := Option.isSome_iff_exists.mp
    (show (Machine.run step (create true) nestedPush).isSome = true by decide)
  exact ⟨s, history, ran, (run_functors_in_order ran).1⟩

end EventLoop

end MiniNet
