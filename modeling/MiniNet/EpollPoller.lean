import MiniNet.Channel
import MiniNet.Lib.Machine
import Mathlib.Logic.Function.Basic

/-!
# The poller

Registration is kept in three places: a flag in each channel, the poller's
table from descriptors to channels, and the interest set of the kernel.  A
channel is an object at an address; a destroyed object leaves its address
free for the next one.  The kernel refuses to add a descriptor it already
has, to change or remove one it does not have, and to do anything with a
closed one; it forgets a descriptor that is closed.
-/

namespace MiniNet

namespace EpollPoller

/-- A constructed `Channel`. -/
structure Object where
  fd : Nat
  channel : Channel := {}
  inPoller : Bool := false

/-- The operations of `epoll_ctl`. -/
inductive Ctl where
  | add
  | mod
  | del
  deriving DecidableEq

inductive Errno where
  | badf
  | exist
  | noent
  deriving DecidableEq

/-- `struct epoll_event`: the address in `data.ptr` and the mask. -/
structure Event where
  ptr : Nat
  events : UInt32
  deriving DecidableEq

end EpollPoller

/-- The table `channels_` of the poller, with the channel objects of its loop
by their addresses, the kernel's interest set and the open descriptors. -/
structure EpollPoller where
  objects : Nat → Option EpollPoller.Object
  channels : Nat → Option Nat
  interest : Nat → Option EpollPoller.Event
  opened : Nat → Bool

namespace EpollPoller

def initial : EpollPoller :=
  { objects := fun _ => none
    channels := fun _ => none
    interest := fun _ => none
    opened := fun _ => false }

/-- The system call. -/
def epollCtl (s : EpollPoller) (op : Ctl) (fd : Nat) (ev : Event) :
    Except Errno EpollPoller :=
  if s.opened fd = false then .error .badf
  else
    match op, s.interest fd with
    | .add, some _ => .error .exist
    | .add, none => .ok { s with interest := Function.update s.interest fd (some ev) }
    | .mod, some _ => .ok { s with interest := Function.update s.interest fd (some ev) }
    | .del, some _ => .ok { s with interest := Function.update s.interest fd none }
    | .mod, none => .error .noent
    | .del, none => .error .noent

def setObject (s : EpollPoller) (p : Nat) (ch : Object) : EpollPoller :=
  { s with objects := Function.update s.objects p (some ch) }

/-- The bookkeeping after a successful `epoll_ctl`. -/
def registered (s : EpollPoller) (p : Nat) (ch : Object) : EpollPoller :=
  { s.setObject p { ch with inPoller := true } with
    channels := Function.update s.channels ch.fd (some p) }

def updateChannel (s : EpollPoller) (p : Nat) (ch : Object) : EpollPoller :=
  let ev := { ptr := p, events := ch.channel.events }
  let op := if (s.channels ch.fd).isSome then Ctl.mod else Ctl.add
  match s.epollCtl op ch.fd ev with
  | .ok s => s.registered p ch
  | .error errno =>
      if op = .add ∧ errno = .exist then
        match s.epollCtl .mod ch.fd ev with
        | .ok s => s.registered p ch
        | .error _ => s
      else s

def removeChannel (s : EpollPoller) (p : Nat) (ch : Object) : EpollPoller :=
  match s.channels ch.fd with
  | none => s
  | some _ =>
      let s :=
        match s.epollCtl .del ch.fd { ptr := p, events := 0 } with
        | .ok s => s
        | .error _ => s
      { s.setObject p { ch with inPoller := false } with
        channels := Function.update s.channels ch.fd none }

/-! ## Operations of a channel -/

/-- An operation that changes the mask and calls `update()`. -/
def change (f : Channel → Channel) (s : EpollPoller) (p : Nat) (ch : Object) :
    EpollPoller :=
  let ch := { ch with channel := f ch.channel }
  (s.setObject p ch).updateChannel p ch

def enableReading : EpollPoller → Nat → Object → EpollPoller := change Channel.enableReading

def disableReading : EpollPoller → Nat → Object → EpollPoller :=
  change Channel.disableReading

def enableWriting : EpollPoller → Nat → Object → EpollPoller := change Channel.enableWriting

def disableWriting : EpollPoller → Nat → Object → EpollPoller :=
  change Channel.disableWriting

def disableAll (s : EpollPoller) (p : Nat) (ch : Object) : EpollPoller :=
  let ch := { ch with channel := ch.channel.disableAll }
  if ch.inPoller then (s.setObject p ch).removeChannel p ch else s.setObject p ch

/-- The destructor. -/
def destroy (s : EpollPoller) (p : Nat) (ch : Object) : EpollPoller :=
  let s := s.disableAll p ch
  { s with objects := Function.update s.objects p none }

/-- A use of a live channel. -/
inductive Use where
  | enableReading
  | disableReading
  | enableWriting
  | disableWriting
  | disableAll
  | destroy
  deriving DecidableEq

def use : Use → EpollPoller → Nat → Object → EpollPoller
  | .enableReading => enableReading
  | .disableReading => disableReading
  | .enableWriting => enableWriting
  | .disableWriting => disableWriting
  | .disableAll => disableAll
  | .destroy => destroy

inductive Action where
  /-- The kernel hands out a descriptor. -/
  | acquire (fd : Nat)
  | construct (p fd : Nat)
  | use (op : Use) (p : Nat)
  | close (fd : Nat)
  deriving DecidableEq

/-- A channel that does not exist cannot be used. -/
def step (s : EpollPoller) : Action → Option (EpollPoller × Unit)
  | .acquire fd => some ({ s with opened := Function.update s.opened fd true }, ())
  | .construct p fd => some (s.setObject p { fd := fd }, ())
  | .use op p => (s.objects p).map fun ch => (use op s p ch, ())
  | .close fd =>
      some ({ s with
        opened := Function.update s.opened fd false
        interest := Function.update s.interest fd none }, ())

/-- What the users of the loop keep to: a channel is constructed where no other
lives and for a descriptor without a live channel, and a descriptor is closed
after its channel, if it still lives, has left the poller. -/
def Allowed (s : EpollPoller) : Action → Prop
  | .construct p fd => s.objects p = none ∧ ∀ q ch, s.objects q = some ch → ch.fd ≠ fd
  | .close fd => ∀ p ch, s.objects p = some ch → ch.fd = fd → ch.inPoller = false
  | _ => True

end EpollPoller

end MiniNet
