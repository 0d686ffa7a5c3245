import Dserver.Base.AsyncLogging
import Dserver.Base.ThreadPool

/-!
# `CountDownLatch`, `Thread` and the start of the logging thread

`AsyncLogging::start` creates its thread with `Thread::start`, which waits until `runInThread` is under way, and
then waits for `threadFunc`; both wait at a `CountDownLatch`. What is done under the lock of a latch between two
sleeps is one step.
-/

namespace Dserver

/-- `count_`, and the threads that sleep on `condition_`. -/
structure CountDownLatch where
  count : Int
  condition : Condition := ∅

namespace CountDownLatch

variable {l : CountDownLatch} {t : Tid}

/-- `wait` from the lock to the sleep, or to its end; and whether it has come to its end. -/
def wait (l : CountDownLatch) (t : Tid) : CountDownLatch × Bool :=
  if 0 < l.count then ({ l with condition := insert t l.condition }, false) else (l, true)

def countDown (l : CountDownLatch) : CountDownLatch :=
  let l := { l with count := l.count - 1 }
  if l.count = 0 then { l with condition := l.condition.notifyAll } else l

/-- A return from the sleep without a notification. -/
def spurious (l : CountDownLatch) (t : Tid) : CountDownLatch := { l with condition := l.condition.erase t }

/-- Nobody sleeps at an open latch. -/
def NoSleeper (l : CountDownLatch) : Prop := l.count ≤ 0 → l.condition = ∅

@[simp] theorem wait_count : (l.wait t).1.count = l.count := by
  unfold wait
  split <;> rfl

@[simp] theorem countDown_count : l.countDown.count = l.count - 1 := by
  unfold countDown
  dsimp only
  split <;> rfl

theorem wait_closed (closed : 0 < l.count) : (l.wait t).2 = false := by
  rw [wait, if_pos closed]

theorem wait_open (opened : l.count ≤ 0) : l.wait t = (l, true) := if_neg (Int.not_lt.mpr opened)

theorem wait_done (done : (l.wait t).2 = true) : l.count ≤ 0 := by
  by_contra closed
  rw [wait_closed (by omega)] at done
  cases done

theorem wait_noSleeper (h : l.NoSleeper) : (l.wait t).1.NoSleeper := by
  intro opened
  rw [wait_count] at opened
  rw [wait_open opened]
  exact h opened

/-- The count passes 0 on its way down, and there `countDown` wakes everybody. -/
theorem countDown_noSleeper (h : l.NoSleeper) : l.countDown.NoSleeper := by
  intro opened
  rw [countDown_count] at opened
  unfold countDown
  dsimp only
  split
  · rfl
  · rename_i passed
    apply h
    omega

theorem spurious_noSleeper (h : l.NoSleeper) : (l.spurious t).NoSleeper := by
  intro opened
  rw [spurious, h opened]
  rfl

end CountDownLatch

structure Thread where
  started : Bool := false
  joined : Bool := false
  tid : Tid := 0
  latch : CountDownLatch := { count := 1 }

namespace Thread

inductive Fault where
  | started
  | notStarted
  | joined
  deriving DecidableEq, Repr

/-- `start` up to `pthread_create`. -/
def start (s : Thread) : Except Fault Thread :=
  if s.started then .error .started else .ok { s with started := true }

/-- `join` up to `pthread_join`. -/
def join (s : Thread) : Except Fault Thread :=
  if ¬ s.started then .error .notStarted else if s.joined then .error .joined else .ok { s with joined := true }

end Thread

/-- Where the owner of the `AsyncLogging` is: before `start`, before `pthread_create`, at the latch of the `Thread`,
at the one of the `AsyncLogging`, outside of `start`, and in `pthread_join`. -/
inductive OwnerState where
  | fresh
  | creating
  | starting
  | waiting
  | user
  | joining
  deriving DecidableEq, Repr

/-- Where the logging thread is: in `runInThread` before `tid_` is set, before its `countDown`, before `func_`, in
`threadFunc` before its `countDown`, before its loop, in and behind the loop, and at the end of `runInThread`. -/
inductive RunState where
  | notCreated
  | entry
  | named
  | counted
  | func
  | opening
  | looping
  | ended
  deriving DecidableEq, Repr

structure LoggingThread where
  logging : AsyncLogging := {}
  thread : Thread := {}
  latch : CountDownLatch := { count := 1 }
  me : Tid
  owner : OwnerState := .fresh
  -- the thread that was created, by its kernel id
  id : Tid := 0
  self : RunState := .notCreated
  destroyed : Bool := false

/-- The steps of the loop of `threadFunc`. -/
def AsyncLogging.Label.loops : AsyncLogging.Label → Bool
  | .test | .lock | .wake | .drop _ | .write | .recycle => true
  | .append _ | .start | .enter | .stopCall | .stopClear | .stopNotify | .stopJoin => false

namespace LoggingThread

inductive Fault where
  | logging (fault : AsyncLogging.Fault)
  | thread (fault : Thread.Fault)
  | useAfterFree
  deriving DecidableEq, Repr

inductive Label where
  | append (logline : LogLine)
  -- `start`, with the answer of `pthread_create`, and the owner's turns at the two latches
  | start
  | create (answer : Option Tid)
  | startTurn
  | waitTurn
  | spurious
  -- the logging thread
  | name
  | countDown
  | callFunc
  | threadFunc
  | openFile
  | loop (label : AsyncLogging.Label)
  | finish
  -- `stop`
  | stopCall
  | stopClear
  | stopNotify
  | join
  | joined
  -- `~AsyncLogging` behind its `if (running_)`
  | destroy

def onLogging (s : LoggingThread) : Except AsyncLogging.Fault AsyncLogging → Except Fault LoggingThread
  | .ok logging => .ok { s with logging }
  | .error fault => .error (.logging fault)

def running (s : LoggingThread) : Label → Option (Except Fault LoggingThread)
  | .name =>
    if s.self = .entry then some (.ok { s with thread := { s.thread with tid := s.id }, self := .named }) else none
  | .countDown =>
    if s.self = .named then
      some (.ok { s with thread := { s.thread with latch := s.thread.latch.countDown }, self := .counted })
    else none
  | .callFunc =>
    if s.self = .counted then some (.ok { s with logging := { s.logging with func := .entry }, self := .func }) else none
  | .threadFunc =>
    if s.self = .func then
      some (if s.logging.running then .ok { s with latch := s.latch.countDown, self := .opening }
        else .error (.logging .running))
    else none
  | .openFile =>
    if s.self = .opening then
      some (.ok { s with
        logging := { s.logging with newBuffer1 := some .empty, newBuffer2 := some .empty, func := .test }
        self := .looping })
    else none
  | .loop label =>
    if s.self = .looping ∧ label.loops then (s.logging.step label).map s.onLogging else none
  | .finish => if s.self = .looping ∧ s.logging.func = .exited then some (.ok { s with self := .ended }) else none
  | _ => none

def owning (s : LoggingThread) : Label → Option (Except Fault LoggingThread)
  | .append logline => some (s.onLogging (s.logging.append logline))
  | .start =>
    if s.owner = .fresh then some (.ok { s with logging := { s.logging with running := true }, owner := .creating })
    else none
  | .create answer =>
    if s.owner = .creating then
      match s.thread.start with
      | .ok thread =>
        match answer with
        | some id => some (.ok { s with thread, id, self := .entry, owner := .starting })
        | none => some (.ok { s with thread, owner := .waiting })
      | .error fault => some (.error (.thread fault))
    else none
  | .startTurn =>
    if s.owner = .starting ∧ s.me ∉ s.thread.latch.condition then
      let (latch, done) := s.thread.latch.wait s.me
      some (.ok { s with thread := { s.thread with latch }, owner := if done then .waiting else .starting })
    else none
  | .waitTurn =>
    if s.owner = .waiting ∧ s.me ∉ s.latch.condition then
      let (latch, done) := s.latch.wait s.me
      some (.ok { s with latch, owner := if done then .user else .waiting })
    else none
  | .spurious =>
    some (.ok { s with
      thread := { s.thread with latch := s.thread.latch.spurious s.me }
      latch := s.latch.spurious s.me })
  | .stopCall =>
    if s.owner = .user ∧ s.logging.stopping = .notCalled then
      some (.ok { s with logging := { s.logging with stopping := .called s.logging.appended.length } })
    else none
  | .stopClear => if s.owner = .user then (s.logging.step .stopClear).map s.onLogging else none
  | .stopNotify => if s.owner = .user then (s.logging.step .stopNotify).map s.onLogging else none
  | .join =>
    match s.owner, s.logging.stopping with
    | .user, .joining _ =>
      match s.thread.join with
      | .ok thread => some (.ok { s with thread, owner := .joining })
      | .error fault => some (.error (.thread fault))
    | _, _ => none
  | .joined =>
    match s.owner, s.self, s.logging.stopping with
    | .joining, .ended, .joining before =>
      some (.ok { s with logging := { s.logging with stopping := .returned before }, owner := .user })
    | _, _, _ => none
  | .destroy =>
    match s.owner, s.logging.stopping with
    | .fresh, _ | .user, .returned _ => some (.ok { s with destroyed := true })
    | _, _ => none
  | _ => none

def step (s : LoggingThread) (label : Label) : Option (Except Fault LoggingThread) :=
  match s.running label with
  | some result => some (if s.destroyed then .error .useAfterFree else result)
  | none => if s.destroyed then none else s.owning label

/-- As for `AsyncLogging`. -/
def Short : LoggingThread → Label → Prop
  | _, .append logline => logline.length < kLargeBuffer
  | _, _ => True

instance (s : LoggingThread) : (label : Label) → Decidable (Short s label)
  | .append logline => inferInstanceAs (Decidable (logline.length < kLargeBuffer))
  | .start | .create _ | .startTurn | .waitTurn | .spurious | .name | .countDown | .callFunc | .threadFunc | .openFile
  | .loop _ | .finish | .stopCall | .stopClear | .stopNotify | .join | .joined | .destroy => instDecidableTrue

end LoggingThread

def loggingThread : Lib.Machine LoggingThread LoggingThread.Label LoggingThread.Fault where
  init s := ∃ me, s = { me }
  step := LoggingThread.step

end Dserver
