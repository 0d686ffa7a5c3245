import Dserver.Base.Timestamp
import Dserver.Lib.Machine
import Dserver.Lib.OrderedSet
import Mathlib.Data.Finset.Max
import Mathlib.Data.Prod.Lex

/-!
# `TimerQueue`

The timers of a loop, and the timerfd that wakes it for them. Timers live at addresses, which are used
again after a `delete`. A callback is any sequence of steps between two of the batch; time passes in
steps of its own, and arming the timerfd takes none.
-/

namespace Dserver.Net

abbrev Addr := Nat

def UINTPTR_MAX : Addr := 2 ^ 64 - 1

structure Timer where
  expiration : Timestamp
  interval : Seconds
  sequence : Nat

namespace Timer

def repeat_ (t : Timer) : Bool := t.interval.positive

def restart (t : Timer) (now : Timestamp) : Timer :=
  if t.repeat_ then { t with expiration := addTime now t.interval } else { t with expiration := .invalid }

end Timer

namespace TimerQueue

/-- In the order of `std::pair`. -/
abbrev Entry := Timestamp ×ₗ Addr

namespace Entry

def of (when : Timestamp) (timer : Addr) : Entry := toLex (when, timer)

def when (e : Entry) : Timestamp := (ofLex e).1

def timer (e : Entry) : Addr := (ofLex e).2

end Entry

abbrev ActiveTimer := Addr × Nat

/-- The locals of `handleRead` while it runs the callbacks. -/
structure Batch where
  now : Timestamp
  expired : List Entry
  next : List Entry
  -- history: the timers that `expired` was made of
  sequences : List Nat

end TimerQueue

structure Timespec where
  tv_sec : Int
  tv_nsec : Int
  deriving DecidableEq, Repr

namespace Timespec

/-- What `timerfd_settime` takes. -/
def Valid (ts : Timespec) : Prop := 0 ≤ ts.tv_sec ∧ 0 ≤ ts.tv_nsec ∧ ts.tv_nsec < 1000000000

instance (ts : Timespec) : Decidable ts.Valid := inferInstanceAs (Decidable (_ ∧ _))

def zero : Timespec := ⟨0, 0⟩

def microseconds (ts : Timespec) : Int := ts.tv_sec * Timestamp.kMicroSecondsPerSecond + ts.tv_nsec / 1000

end Timespec

/-- `deadline` stays until it has passed and the expiration is read. -/
structure Timerfd where
  deadline : Option Timestamp := none
  armedAt : Timestamp := 0

namespace Timerfd

/-- A one-shot timer: zero disarms it. -/
def settime (fd : Timerfd) (clock : Timestamp) (it_value : Timespec) : Timerfd :=
  if ¬ it_value.Valid then fd
  else if it_value = .zero then { fd with deadline := none }
  else { deadline := some (clock + it_value.microseconds), armedAt := clock }

def read (fd : Timerfd) (clock : Timestamp) : Timerfd :=
  match fd.deadline with
  | some deadline => if deadline ≤ clock then { fd with deadline := none } else fd
  | none => fd

end Timerfd

structure TimerQueue where
  clock : Timestamp
  numCreated : Nat := 0
  heap : Addr → Option Timer := fun _ => none
  -- created, and not handed to `addTimerInLoop` yet
  waiting : Finset Addr := ∅
  timers : Finset TimerQueue.Entry := ∅
  activeTimers : Finset TimerQueue.ActiveTimer := ∅
  cancelingTimers : Finset TimerQueue.ActiveTimer := ∅
  callingExpiredTimers : Bool := false
  timerfd : Timerfd := {}
  batch : Option TimerQueue.Batch := none
  -- history
  handed : List Nat := []
  deleted : List Nat := []
  settimes : List Timespec := []

namespace TimerQueue

/-- The assertions, and the use of a timer that does not exist. -/
inductive Fault where
  | sizes
  | insertTimers
  | insertActive
  | cancelErase
  | expiredErase
  | dangling
  deriving DecidableEq, Repr

def howMuchTimeFromNow (when now : Timestamp) : Timespec :=
  let microseconds := if when - now < 100 then 100 else when - now
  { tv_sec := microseconds.tdiv Timestamp.kMicroSecondsPerSecond
    tv_nsec := microseconds.tmod Timestamp.kMicroSecondsPerSecond * 1000 }

def resetTimerfd (s : TimerQueue) (expiration : Timestamp) : TimerQueue :=
  let it_value := howMuchTimeFromNow expiration s.clock
  { s with timerfd := s.timerfd.settime s.clock it_value, settimes := s.settimes ++ [it_value] }

def assertSizes (s : TimerQueue) : Except Fault Unit :=
  if s.timers.card = s.activeTimers.card then .ok () else .error .sizes

def deref (s : TimerQueue) (timer : Addr) : Except Fault Timer :=
  match s.heap timer with
  | some t => .ok t
  | none => .error .dangling

def delete (s : TimerQueue) (timer : Addr) : Except Fault TimerQueue := do
  let t ← s.deref timer
  .ok { s with heap := Function.update s.heap timer none, deleted := s.deleted ++ [t.sequence] }

def first (s : TimerQueue) : Option Entry := s.timers.min

/-- A timer that expires then would be the first. -/
def earliestChanged (s : TimerQueue) (when : Timestamp) : Bool :=
  match s.first with
  | none => true
  | some it => when < it.when

def insert (s : TimerQueue) (timer : Addr) : Except Fault (Bool × TimerQueue) := do
  s.assertSizes
  let t ← s.deref timer
  let entry := Entry.of t.expiration timer
  let active := (timer, t.sequence)
  let changed := s.earliestChanged t.expiration
  if entry ∈ s.timers then .error .insertTimers
  else if active ∈ s.activeTimers then .error .insertActive
  else do
    let s := { s with timers := Insert.insert entry s.timers, activeTimers := Insert.insert active s.activeTimers }
    s.assertSizes
    .ok (changed, s)

def addTimerInLoop (s : TimerQueue) (timer : Addr) : Except Fault TimerQueue := do
  let (changed, s) ← s.insert timer
  let t ← s.deref timer
  let s := { s with waiting := s.waiting.erase timer, handed := s.handed ++ [t.sequence] }
  if changed then .ok (s.resetTimerfd t.expiration) else .ok s

def cancelInLoop (s : TimerQueue) (timerId : ActiveTimer) : Except Fault TimerQueue := do
  s.assertSizes
  let s ← if timerId ∈ s.activeTimers then do
      let t ← s.deref timerId.1
      let entry := Entry.of t.expiration timerId.1
      if entry ∈ s.timers then do
        let s ← { s with timers := s.timers.erase entry }.delete timerId.1
        .ok { s with activeTimers := s.activeTimers.erase timerId }
      else .error .cancelErase
    else if s.callingExpiredTimers then
      .ok { s with cancelingTimers := Insert.insert timerId s.cancelingTimers }
    else .ok s
  s.assertSizes
  .ok s

/-- One turn of the loop of `getExpired` over the timers that have expired. -/
def eraseActive (s : TimerQueue) (it : Entry) : Except Fault TimerQueue := do
  let t ← s.deref it.timer
  let active := (it.timer, t.sequence)
  if active ∈ s.activeTimers then .ok { s with activeTimers := s.activeTimers.erase active }
  else .error .expiredErase

def sequenceAt (s : TimerQueue) (timer : Addr) : Nat :=
  match s.heap timer with
  | some t => t.sequence
  | none => 0

def getExpired (s : TimerQueue) (now : Timestamp) : Except Fault (List Entry × TimerQueue) := do
  s.assertSizes
  let sentry := Entry.of now UINTPTR_MAX
  let expired := Lib.inOrder (s.timers.filter (· < sentry))
  let s ← expired.foldlM eraseActive { s with timers := s.timers.filter fun e => ¬ e < sentry }
  s.assertSizes
  .ok (expired, s)

/-- `handleRead` up to the first callback; `elapsed` passes between `now()` and the read. -/
def handleRead (s : TimerQueue) (elapsed : Nat) : Except Fault TimerQueue := do
  let now := s.clock
  let clock := s.clock + elapsed
  let s := { s with clock, timerfd := s.timerfd.read clock }
  let (expired, s) ← s.getExpired now
  let batch := { now, expired, next := expired, sequences := expired.map fun e => s.sequenceAt e.timer }
  .ok { s with callingExpiredTimers := true, cancelingTimers := ∅, batch := some batch }

/-- The call of `run()` on the next timer of the batch. -/
def run (s : TimerQueue) (batch : Batch) (it : Entry) (rest : List Entry) : Except Fault TimerQueue := do
  let _ ← s.deref it.timer
  .ok { s with batch := some { batch with next := rest } }

/-- One turn of the loop of `reset`. -/
def resetTimer (now : Timestamp) (s : TimerQueue) (it : Entry) : Except Fault TimerQueue := do
  let t ← s.deref it.timer
  if t.repeat_ ∧ (it.timer, t.sequence) ∉ s.cancelingTimers then do
    let (_, s) ← { s with heap := Function.update s.heap it.timer (some (t.restart now)) }.insert it.timer
    .ok s
  else s.delete it.timer

def nextExpire (s : TimerQueue) : Except Fault Timestamp :=
  match s.first with
  | none => .ok .invalid
  | some it => do
    let t ← s.deref it.timer
    .ok t.expiration

def reset (s : TimerQueue) (expired : List Entry) (now : Timestamp) : Except Fault TimerQueue := do
  let s ← expired.foldlM (resetTimer now) s
  let expiration ← s.nextExpire
  if Timestamp.valid expiration then .ok (s.resetTimerfd expiration) else .ok s

/-- `handleRead` behind the last callback. -/
def finish (s : TimerQueue) (batch : Batch) : Except Fault TimerQueue := do
  let s ← { s with callingExpiredTimers := false }.reset batch.expired batch.now
  .ok { s with batch := none }

inductive Label where
  | tick (elapsed : Nat)
  -- `new Timer` in `addTimer`, in any thread
  | newTimer (timer : Addr) (when : Timestamp) (interval : Seconds)
  | addTimerInLoop (timer : Addr)
  | cancelInLoop (timerId : ActiveTimer)
  | handleRead (elapsed : Nat)
  | run
  | finish

def newTimer (s : TimerQueue) (timer : Addr) (when : Timestamp) (interval : Seconds) : TimerQueue :=
  let t := { expiration := when, interval, sequence := s.numCreated + 1 }
  { s with
    numCreated := s.numCreated + 1
    heap := Function.update s.heap timer (some t)
    waiting := Insert.insert timer s.waiting }

/-- `new` gives an address that no live timer has, and never the last one; each timer is handed over
once. -/
def step (s : TimerQueue) : Label → Option (Except Fault TimerQueue)
  | .tick elapsed => some (.ok { s with clock := s.clock + elapsed })
  | .newTimer timer when interval =>
    if timer < UINTPTR_MAX ∧ s.heap timer = none then some (.ok (s.newTimer timer when interval)) else none
  | .addTimerInLoop timer => if timer ∈ s.waiting then some (s.addTimerInLoop timer) else none
  | .cancelInLoop timerId => some (s.cancelInLoop timerId)
  | .handleRead elapsed => if s.batch.isNone then some (s.handleRead elapsed) else none
  | .run =>
    match s.batch with
    | some batch =>
      match batch.next with
      | it :: rest => some (s.run batch it rest)
      | [] => none
    | none => none
  | .finish =>
    match s.batch with
    | some batch => if batch.next = [] then some (s.finish batch) else none
    | none => none

end TimerQueue

def timerQueue : Lib.Machine TimerQueue TimerQueue.Label TimerQueue.Fault where
  init s := 0 < s.clock ∧ s = { clock := s.clock }
  step := TimerQueue.step

end Dserver.Net
