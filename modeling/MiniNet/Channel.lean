import Mathlib.Data.List.Basic

/-!
# Channels

A channel records which events of a descriptor its loop is interested in and
which callbacks an event leads to.  The masks are those of `epoll`.
-/

namespace MiniNet

namespace Channel

def epollIn : UInt32 := 0x001
def epollPri : UInt32 := 0x002
def epollOut : UInt32 := 0x004
def epollErr : UInt32 := 0x008
def epollHup : UInt32 := 0x010
def epollRdHup : UInt32 := 0x2000
def epollEt : UInt32 := 0x80000000

inductive Callback where
  | read
  | write
  | close
  deriving DecidableEq

end Channel

structure Channel where
  events : UInt32 := 0
  writing : Bool := false
  deriving DecidableEq

namespace Channel

def enableReading (channel : Channel) : Channel :=
  { channel with events := channel.events ||| (epollIn ||| epollRdHup ||| epollEt) }

def enableWriting (channel : Channel) : Channel :=
  { events := channel.events ||| epollOut, writing := true }

def disableWriting (channel : Channel) : Channel :=
  { events := channel.events &&& ~~~epollOut, writing := false }

def disableReading (channel : Channel) : Channel :=
  { channel with events := channel.events &&& ~~~(epollIn ||| epollRdHup) }

/-- Drop all interest.  The source leaves `writing_` as it is. -/
def disableAll (channel : Channel) : Channel := { channel with events := 0 }

/-- The callbacks that an event calls, in order. -/
def handleEvent (revents : UInt32) : List Callback :=
  if revents &&& (epollHup ||| epollErr) ≠ 0 then [.close]
  else
    (if revents &&& (epollIn ||| epollPri ||| epollRdHup) ≠ 0 then [.read] else []) ++
      (if revents &&& epollOut ≠ 0 then [.write] else [])

/-- The mask contains `EPOLLOUT`. -/
def Armed (channel : Channel) : Prop := channel.events &&& epollOut ≠ 0

instance (channel : Channel) : Decidable channel.Armed :=
  inferInstanceAs (Decidable (_ ≠ _))

theorem armed_enableWriting (channel : Channel) : channel.enableWriting.Armed := by
  have bit : (channel.events ||| epollOut) &&& epollOut = epollOut := by
    apply UInt32.toBitVec_inj.mp
    ext i inside
    simp only [UInt32.toBitVec_and, UInt32.toBitVec_or, BitVec.getElem_and,
      BitVec.getElem_or]
    cases channel.events.toBitVec[i] <;> simp
  rw [Armed, enableWriting, bit]
  decide

theorem not_armed_disableWriting (channel : Channel) :
    ¬channel.disableWriting.Armed := by
  have bit : (channel.events &&& ~~~epollOut) &&& epollOut = 0 := by
    rw [UInt32.and_assoc, UInt32.not_and_self, UInt32.and_zero]
  rw [Armed, disableWriting, bit]
  exact not_not.mpr rfl

end Channel

end MiniNet
