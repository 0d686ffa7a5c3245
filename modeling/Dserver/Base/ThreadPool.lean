import Dserver.Lib.Machine
import Mathlib.Data.Finset.Card
import Mathlib.Logic.Function.Basic

/-!
# `ThreadPool`

Any number of threads put tasks in a bounded queue and `numThread` workers take them. What is done under
`mutex_` between two waits is one step, so a thread that has been notified is one that is to get the lock, as is
one that has just called. A task that a worker runs may call `run` as well, and a null task is one that ends at
once.
-/

namespace Dserver

/-- The workers are the threads below `numThread`. -/
abbrev Tid := Nat

/-- The threads that are in `wait` and have not been notified. -/
abbrev Condition := Finset Tid

namespace Condition

/-- One of the waiting threads, if there are any. -/
def notify (waiting : Condition) (woken : Tid) : Option Condition :=
  if waiting = ∅ then some ∅ else if woken ∈ waiting then some (waiting.erase woken) else none

def notifyAll (_ : Condition) : Condition := ∅

end Condition

/-- Where a thread is: in a task or outside of the pool, at `while (running_)`, in `put`, in `take`. -/
inductive ThreadState (Task : Type) where
  | user
  | head
  | put (x : Task)
  | take
  | exited
  deriving DecidableEq, Repr

structure ThreadPool (Task : Type) where
  running : Bool := false
  numThread : Nat
  -- `BlockingQueue`
  maxQueueSize : Nat
  queue : List Task := []
  notEmpty : Condition := ∅
  notFull : Condition := ∅
  threads : Tid → ThreadState Task := fun _ => .user
  -- history: the tasks in the order they were put in the queue and the order they were taken
  enqueued : List Task := []
  taken : List Task := []

namespace ThreadPool

variable {Task : Type}

/-- `assert(!running_)`, and `front` of an empty queue. -/
inductive Fault where
  | running
  | emptyQueue
  deriving DecidableEq, Repr

/-- `numThread` and `maxsize` are positive. -/
def construct (numThread maxsize : Nat) : ThreadPool Task := { numThread, maxQueueSize := maxsize }

/-- The workers are as good as started: one that is late is still before its loop. -/
def start (s : ThreadPool Task) : Except Fault (ThreadPool Task) :=
  if s.running then .error .running
  else .ok { s with running := true, threads := fun t => if t < s.numThread then .head else s.threads t }

def isFull (s : ThreadPool Task) : Bool := s.maxQueueSize ≤ s.queue.length

def goto (s : ThreadPool Task) (t : Tid) (state : ThreadState Task) : ThreadPool Task :=
  { s with threads := Function.update s.threads t state }

/-- `put` from the lock to the wait, or to its end; both overloads. -/
def put (s : ThreadPool Task) (t : Tid) (x : Task) (woken : Tid) : Option (ThreadPool Task) :=
  if s.isFull ∧ s.running then some { s with notFull := insert t s.notFull }
  else if ¬ s.running then some (s.goto t .user)
  else do
    let notEmpty ← s.notEmpty.notify woken
    some (goto { s with queue := s.queue ++ [x], notEmpty, enqueued := s.enqueued ++ [x] } t .user)

/-- `take` from the lock to the wait, or to its end. Without a task the worker goes on to its next turn. -/
def take (s : ThreadPool Task) (t : Tid) (woken : Tid) : Option (Except Fault (ThreadPool Task)) :=
  if s.queue.isEmpty ∧ s.running then some (.ok { s with notEmpty := insert t s.notEmpty })
  else if ¬ s.running then some (.ok (s.goto t .head))
  else
    match s.queue with
    | [] => some (.error .emptyQueue)
    | front :: queue => do
      let notFull ← s.notFull.notify woken
      some (.ok (goto { s with queue, notFull, taken := s.taken ++ [front] } t .user))

/-- `notifyAll(true)`, which `stop` calls. -/
def stop (s : ThreadPool Task) : ThreadPool Task :=
  { s with running := false, notEmpty := s.notEmpty.notifyAll, notFull := s.notFull.notifyAll }

inductive Label (Task : Type) where
  -- a call of `run`, and its turns under the lock
  | run (t : Tid) (f : Task)
  | put (t : Tid) (woken : Tid)
  -- a worker: its test of `running_`, its turns under the lock in `take`, and the end of its task
  | test (t : Tid)
  | take (t : Tid) (woken : Tid)
  | done (t : Tid)
  -- a return from `wait` without a notification
  | spurious (t : Tid)
  | stop
  deriving DecidableEq, Repr

def step (s : ThreadPool Task) : Label Task → Option (Except Fault (ThreadPool Task))
  | .run t f =>
    match s.threads t with
    | .user => some (.ok (s.goto t (.put f)))
    | _ => none
  | .put t woken =>
    match s.threads t with
    | .put x => if t ∉ s.notFull then (s.put t x woken).map .ok else none
    | _ => none
  | .test t =>
    match s.threads t with
    | .head =>
      if t < s.numThread then some (.ok (s.goto t (if s.running then .take else .exited))) else none
    | _ => none
  | .take t woken =>
    match s.threads t with
    | .take => if t < s.numThread ∧ t ∉ s.notEmpty then s.take t woken else none
    | _ => none
  | .done t =>
    match s.threads t with
    | .user => if t < s.numThread then some (.ok (s.goto t .head)) else none
    | _ => none
  | .spurious t => some (.ok { s with notEmpty := s.notEmpty.erase t, notFull := s.notFull.erase t })
  | .stop => if s.running then some (.ok s.stop) else none

end ThreadPool

def threadPool (Task : Type) (numThread maxsize : Nat) :
    Lib.Machine (ThreadPool Task) (ThreadPool.Label Task) ThreadPool.Fault where
  init s := (ThreadPool.construct numThread maxsize).start = .ok s
  step := ThreadPool.step

end Dserver
