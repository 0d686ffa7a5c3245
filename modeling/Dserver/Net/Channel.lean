import Mathlib.Data.List.Basic

/-!
# `Channel`

The event masks of `<poll.h>` and the fields of a channel. A channel is named by its address,
`ChannelId`, which is what the kernel and `channels_` hold.
-/

namespace Dserver.Net

abbrev ChannelId := Nat
abbrev Fd := Int
abbrev Events := BitVec 32

def POLLIN : Events := 0x0001
def POLLPRI : Events := 0x0002
def POLLOUT : Events := 0x0004
def POLLERR : Events := 0x0008
def POLLHUP : Events := 0x0010
def POLLRDHUP : Events := 0x2000

/-- `events & mask` as a condition. -/
def Events.test (events mask : Events) : Bool := events &&& mask != 0#32

/-- What `epoll_wait` reports for a mask: some of its events, and the two that are never asked for. -/
def Events.mayReport (mask events : Events) : Bool := events != 0 && events &&& ~~~(mask ||| POLLHUP ||| POLLERR) == 0

theorem or_and_of_disjoint {events mask other : Events} (disjoint : mask &&& other = 0#32) :
    (events ||| mask) &&& other = events &&& other := by
  rw [BitVec.and_or_distrib_right, disjoint, BitVec.or_zero]

theorem and_not_and_of_disjoint {events mask other : Events} (disjoint : mask &&& other = 0#32) :
    (events &&& ~~~mask) &&& other = events &&& other := by
  ext i bound
  have bit := congrArg (fun word => word.getLsbD i) disjoint
  simp only [BitVec.getLsbD_and, BitVec.getLsbD_zero] at bit
  simp only [BitVec.getElem_and, BitVec.getElem_not, BitVec.getLsbD_eq_getElem bound] at bit ⊢
  cases m : mask[i] <;> simp_all

/-- The poller's mark on a channel; a new channel has -1, which is `kNew`. -/
inductive Index where
  | kNew | kAdded | kDeleted
  deriving DecidableEq, Repr

structure Channel where
  fd : Fd
  events : Events := 0
  revents : Events := 0
  index : Index := .kNew
  eventHandling : Bool := false
  tied : Bool := false
  addedToLoop : Bool := false
  deriving DecidableEq, Repr

namespace Channel

def kNoneEvent : Events := 0
def kReadEvent : Events := POLLIN ||| POLLPRI
def kWriteEvent : Events := POLLOUT

def isWriting (ch : Channel) : Bool := Events.test ch.events kWriteEvent

def isReading (ch : Channel) : Bool := Events.test ch.events kReadEvent

def isNoneEvent (ch : Channel) : Bool := ch.events == kNoneEvent

variable {ch : Channel}

theorem test_or_self {events mask : Events} (nonzero : mask ≠ 0#32) :
    Events.test (events ||| mask) mask = true := by
  have absorbed : (events ||| mask) &&& mask = mask := by
    ext i bound
    simp only [BitVec.getElem_and, BitVec.getElem_or]
    cases events[i] <;> cases mask[i] <;> rfl
  simp [Events.test, absorbed, nonzero]

theorem test_and_not_self {events mask : Events} : Events.test (events &&& ~~~mask) mask = false := by
  simp [Events.test, BitVec.and_assoc]

theorem isWriting_none (h : ch.events = kNoneEvent) : ch.isWriting = false := by
  simp [isWriting, Events.test, h, kNoneEvent]

theorem isWriting_enableReading :
    isWriting { ch with events := ch.events ||| kReadEvent } = ch.isWriting := by
  simp only [isWriting, Events.test, or_and_of_disjoint (show kReadEvent &&& kWriteEvent = 0#32 by decide)]

theorem isWriting_disableReading :
    isWriting { ch with events := ch.events &&& ~~~kReadEvent } = ch.isWriting := by
  simp only [isWriting, Events.test,
    and_not_and_of_disjoint (show kReadEvent &&& kWriteEvent = 0#32 by decide)]

end Channel

end Dserver.Net
