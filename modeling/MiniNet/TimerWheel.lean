import MiniNet.Lib.Machine
import Mathlib.Algebra.Order.Group.Nat

/-!
# The timer wheel

The wheel keeps its timers in one vector and counts each of them down.  A
call of `tick` takes out the timers that are due before it calls the first of
them, so a step of the model is one call of the interface or one call of a
callback.  An entry stands for its callback; what callbacks do is not part of
the model, and while one runs the other calls may be made in any order.
-/

namespace MiniNet

namespace TimerWheel

structure Entry where
  id : UInt64
  remainingTicks : Int
  deriving DecidableEq

end TimerWheel

structure TimerWheel where
  tickMs : Nat
  wheelSize : Nat
  nextId : UInt64
  entries : List TimerWheel.Entry
  deriving DecidableEq

namespace TimerWheel

/-- The constructor. -/
def create (tickMs wheelSize : Nat) : TimerWheel where
  tickMs := if tickMs = 0 then 100 else tickMs
  wheelSize := max wheelSize 1
  nextId := 1
  entries := []

/-- `static_cast<int>` of a `size_t`. -/
def toInt (size : Nat) : Int := Int.bmod size (2 ^ 32)

/-- There is no result for a quotient that is not defined. -/
def addTimer (w : TimerWheel) (timeoutMs : Int32) : Option (TimerWheel × UInt64) :=
  let tick := toInt w.tickMs
  if tick = 0 ∨ tick = -1 ∧ timeoutMs = Int32.minValue then none
  else
    let ticks := max 1 (timeoutMs.toInt.tdiv tick)
    some
      ({ w with
          nextId := w.nextId + 1
          entries := w.entries ++ [{ id := w.nextId, remainingTicks := ticks }] },
        w.nextId)

def cancelTimer (w : TimerWheel) (id : UInt64) : TimerWheel :=
  { w with entries := w.entries.filter (·.id ≠ id) }

def Entry.countDown (e : Entry) : Entry :=
  { e with remainingTicks := e.remainingTicks - 1 }

/-- `tick` up to the calls: the entries that are kept, and the timers whose
callbacks are then called. -/
def expire (w : TimerWheel) : TimerWheel × List UInt64 :=
  let counted := w.entries.map Entry.countDown
  ({ w with entries := counted.filter (0 < ·.remainingTicks) },
    (counted.filter (·.remainingTicks ≤ 0)).map (·.id))

/-! ## Steps -/

/-- The wheel, and the timers whose callbacks `tick` has still to call. -/
structure State where
  wheel : TimerWheel
  firing : List UInt64
  deriving DecidableEq

inductive Action where
  | addTimer (timeoutMs : Int32)
  | cancelTimer (id : UInt64)
  /-- A call of `tick`, up to the first call of a callback. -/
  | tick
  /-- The next callback is called. -/
  | call
  deriving DecidableEq

inductive Reply where
  | done
  | added (id : UInt64)
  | called (id : UInt64)
  deriving DecidableEq

def step (s : State) : Action → Option (State × Reply)
  | .addTimer timeoutMs =>
      (s.wheel.addTimer timeoutMs).map fun (wheel, id) => ({ s with wheel }, .added id)
  | .cancelTimer id => some ({ s with wheel := s.wheel.cancelTimer id }, .done)
  | .tick =>
      if s.firing = [] then
        some ({ wheel := s.wheel.expire.1, firing := s.wheel.expire.2 }, .done)
      else none
  | .call =>
      match s.firing with
      | [] => none
      | id :: firing => some ({ s with firing }, .called id)

def start (tickMs wheelSize : Nat) : State where
  wheel := create tickMs wheelSize
  firing := []

/-! ## What a step can do -/

/-- Every step, with the conditions for it. -/
inductive Steps (s : State) : Action → State → Reply → Prop
  | addTimer {timeoutMs : Int32} : toInt s.wheel.tickMs ≠ 0 →
      Steps s (.addTimer timeoutMs)
        { s with wheel := { s.wheel with
          nextId := s.wheel.nextId + 1
          entries := s.wheel.entries ++
            [{ id := s.wheel.nextId
               remainingTicks := max 1 (timeoutMs.toInt.tdiv (toInt s.wheel.tickMs)) }] } }
        (.added s.wheel.nextId)
  | cancelTimer {id : UInt64} :
      Steps s (.cancelTimer id) { s with wheel := s.wheel.cancelTimer id } .done
  | tick : s.firing = [] →
      Steps s .tick { wheel := s.wheel.expire.1, firing := s.wheel.expire.2 } .done
  | call {id : UInt64} {firing : List UInt64} : s.firing = id :: firing →
      Steps s .call { s with firing } (.called id)

theorem steps_of_step {s m : State} {a : Action} {reply : Reply}
    (stepped : step s a = some (m, reply)) : Steps s a m reply := by
  cases a with
  | addTimer timeoutMs =>
      rw [step, Option.map_eq_some_iff] at stepped
      obtain ⟨⟨wheel, id⟩, added, same⟩ := stepped
      cases same
      rw [TimerWheel.addTimer] at added
      split at added
      · cases added
      · rename_i defined
        cases added
        exact .addTimer fun zero => defined (.inl zero)
  | cancelTimer id =>
      cases stepped
      exact .cancelTimer
  | tick =>
      rw [step] at stepped
      split at stepped
      · rename_i idle
        cases stepped
        exact .tick idle
      · cases stepped
  | call =>
      rw [step] at stepped
      split at stepped
      · cases stepped
      · rename_i firing
        cases stepped
        exact .call firing

theorem toInt_of_lt {size : Nat} (small : size < 2 ^ 31) : toInt size = size := by
  unfold toInt
  exact Int.bmod_eq_of_le (by omega) (by omega)

end TimerWheel

end MiniNet
