import Dserver.Lib.Machine
import Mathlib.Data.List.Basic

/-!
# `AsyncLogging`

Any number of threads append to the current buffer; the logging thread takes the full buffers and the
current one and writes them to the `LogFile`. What is done under `mutex_` is one step. `waitForSeconds` may
return at any time, so a notification leaves no trace.
-/

namespace Dserver

abbrev LogLine := List UInt8

def kLargeBuffer : Nat := 4000 * 1000

/-- `data_` up to `cur_`, and the lines it is made of. -/
structure FixedBuffer (SIZE : Nat) where
  data : List UInt8
  -- history
  lines : List LogLine
  data_eq : data = lines.flatten
  fits : data.length ≤ SIZE

namespace FixedBuffer

variable {SIZE : Nat}

/-- A new buffer, and one that is `reset`. -/
def empty : FixedBuffer SIZE := ⟨[], [], rfl, Nat.zero_le _⟩

def length (b : FixedBuffer SIZE) : Nat := b.data.length

def avail (b : FixedBuffer SIZE) : Nat := SIZE - b.length

theorem append_fits {b : FixedBuffer SIZE} {buf : LogLine} (room : buf.length < b.avail) :
    (b.data ++ buf).length ≤ SIZE := by
  have fits := b.fits
  simp only [avail, length] at room
  rw [List.length_append]
  omega

/-- What does not fit is left out. -/
def append (b : FixedBuffer SIZE) (buf : LogLine) : FixedBuffer SIZE :=
  if room : buf.length < b.avail then
    { data := b.data ++ buf, lines := b.lines ++ [buf], data_eq := by simp [b.data_eq], fits := append_fits room }
  else b

end FixedBuffer

/-- A `std::unique_ptr`, which is null when it has been moved from. -/
abbrev BufferPtr := Option (FixedBuffer kLargeBuffer)

inductive LogCall where
  | data (bytes : List UInt8)
  | notice (text : String)
  deriving DecidableEq, Repr

/-- Where `threadFunc` is: before `while (running_)`, in the cycle before the lock, in `waitForSeconds`, behind
the critical section, and in the loop that writes, at the given buffer. -/
inductive FuncState where
  | notStarted
  | entry
  | test
  | cycle
  | waiting
  | collected
  | writing (next : Nat)
  | exited
  deriving DecidableEq, Repr

/-- Where the call of `stop` is; `before` lines had been appended when it was called. -/
inductive StopState where
  | notCalled
  | called (before : Nat)
  | cleared (before : Nat)
  | joining (before : Nat)
  | returned (before : Nat)
  deriving DecidableEq, Repr

structure AsyncLogging where
  running : Bool := false
  currentBuffer : BufferPtr := some .empty
  nextBuffer : BufferPtr := some .empty
  buffers : List BufferPtr := []
  -- `threadFunc` and its locals
  func : FuncState := .notStarted
  newBuffer1 : BufferPtr := none
  newBuffer2 : BufferPtr := none
  buffersToWrite : List BufferPtr := []
  output : List LogCall := []
  stopping : StopState := .notCalled
  -- history: the lines in the order of the lock, and what each cycle has taken
  appended : List LogLine := []
  taken : List (List BufferPtr) := []

namespace AsyncLogging

/-- The assertions, in the order of the source, and the use of a null pointer. -/
inductive Fault where
  | running
  | newBuffer1
  | newBuffer2
  | buffersToWrite
  | nothingTaken
  | popBack1
  | popBack2
  | nullBuffer
  deriving DecidableEq, Repr

def deref : BufferPtr → Except Fault (FixedBuffer kLargeBuffer)
  | some b => .ok b
  | none => .error .nullBuffer

/-- The current buffer goes to `buffers_` and a new one takes its place. -/
def nextCurrent (s : AsyncLogging) : AsyncLogging :=
  let s := { s with buffers := s.buffers ++ [s.currentBuffer] }
  match s.nextBuffer with
  | some next => { s with currentBuffer := some next, nextBuffer := none }
  | none => { s with currentBuffer := some .empty }

def append (s : AsyncLogging) (logline : LogLine) : Except Fault AsyncLogging := do
  let b ← deref s.currentBuffer
  let s := if logline.length < b.avail then s else s.nextCurrent
  let b ← deref s.currentBuffer
  .ok { s with currentBuffer := some (b.append logline), appended := s.appended ++ [logline] }

def start (s : AsyncLogging) : AsyncLogging := { s with running := true, func := .entry }

/-- `threadFunc` up to its loop. -/
def enter (s : AsyncLogging) : Except Fault AsyncLogging :=
  if s.running then .ok { s with newBuffer1 := some .empty, newBuffer2 := some .empty, func := .test }
  else .error .running

def test (s : AsyncLogging) : AsyncLogging := { s with func := if s.running then .cycle else .exited }

/-- The pointer is not null and its buffer is empty. -/
def unused : BufferPtr → Bool
  | some b => b.length == 0
  | none => false

/-- The critical section behind the wait. -/
def collect (s : AsyncLogging) : AsyncLogging :=
  let s := { s with buffers := s.buffers ++ [s.currentBuffer], currentBuffer := s.newBuffer1, newBuffer1 := none }
  let s := { s with buffersToWrite := s.buffers, buffers := s.buffersToWrite }
  let s := { s with func := .collected, taken := s.taken ++ [s.buffersToWrite] }
  match s.nextBuffer with
  | some _ => s
  | none => { s with nextBuffer := s.newBuffer2, newBuffer2 := none }

/-- The head of the loop, and the critical section up to the wait. -/
def lock (s : AsyncLogging) : Except Fault AsyncLogging :=
  if ¬ unused s.newBuffer1 then .error .newBuffer1
  else if ¬ unused s.newBuffer2 then .error .newBuffer2
  else if s.buffersToWrite ≠ [] then .error .buffersToWrite
  else if s.buffers = [] then .ok { s with func := .waiting }
  else .ok s.collect

/-- What is put in `buf`, which keeps 255 characters. -/
def dropped (now : String) (size : Nat) : String :=
  String.ofList
    (("Dropped log messages at " ++ now ++ ", " ++ toString (size - 2) ++ " larger buffers\n").toList.take 255)

/-- A cycle that has taken more than 25 buffers keeps the first two. -/
def drop (s : AsyncLogging) (now : String) : Except Fault AsyncLogging :=
  if s.buffersToWrite = [] then .error .nothingTaken
  else if 25 < s.buffersToWrite.length then
    .ok { s with
      output := s.output ++ [.notice (dropped now s.buffersToWrite.length)]
      buffersToWrite := s.buffersToWrite.take 2, func := .writing 0 }
  else .ok { s with func := .writing 0 }

/-- One turn of the loop that writes. -/
def write (s : AsyncLogging) (next : Nat) (ptr : BufferPtr) : Except Fault AsyncLogging := do
  let b ← deref ptr
  .ok { s with output := s.output ++ [.data b.data], func := .writing (next + 1) }

/-- A null pointer gets the last of the buffers that have been written, emptied. -/
def refill (newBuffer : BufferPtr) (buffersToWrite : List BufferPtr) (fault : Fault) :
    Except Fault (BufferPtr × List BufferPtr) :=
  match newBuffer with
  | some b => .ok (some b, buffersToWrite)
  | none =>
    match buffersToWrite.getLast? with
    | some last => do
      let _ ← deref last
      .ok (some .empty, buffersToWrite.dropLast)
    | none => .error fault

/-- The cycle behind the loop that writes. -/
def recycle (s : AsyncLogging) : Except Fault AsyncLogging := do
  let kept := s.buffersToWrite.take 2
  let (newBuffer1, kept) ← refill s.newBuffer1 kept .popBack1
  let (newBuffer2, _) ← refill s.newBuffer2 kept .popBack2
  .ok { s with newBuffer1, newBuffer2, buffersToWrite := [], func := .test }

inductive Label where
  | append (logline : LogLine)
  | start
  -- the logging thread
  | enter
  | test
  | lock
  | wake
  | drop (now : String)
  | write
  | recycle
  -- `stop`: its call, `running_ = false`, `cond_.notify()`, and the end of `thread_.join()`
  | stopCall
  | stopClear
  | stopNotify
  | stopJoin
  deriving DecidableEq, Repr

/-- `stop` is called once, after `start` has returned. -/
def step (s : AsyncLogging) : Label → Option (Except Fault AsyncLogging)
  | .append logline => some (s.append logline)
  | .start => if s.func = .notStarted then some (.ok s.start) else none
  | .enter => if s.func = .entry then some s.enter else none
  | .test => if s.func = .test then some (.ok s.test) else none
  | .lock => if s.func = .cycle then some s.lock else none
  | .wake => if s.func = .waiting then some (.ok s.collect) else none
  | .drop now => if s.func = .collected then some (s.drop now) else none
  | .write =>
    match s.func with
    | .writing next =>
      match s.buffersToWrite[next]? with
      | some ptr => some (s.write next ptr)
      | none => none
    | _ => none
  | .recycle => if s.func = .writing s.buffersToWrite.length then some s.recycle else none
  | .stopCall =>
    if s.stopping = .notCalled ∧ s.func ≠ .notStarted ∧ s.func ≠ .entry then
      some (.ok { s with stopping := .called s.appended.length })
    else none
  | .stopClear =>
    match s.stopping with
    | .called before => some (.ok { s with running := false, stopping := .cleared before })
    | _ => none
  | .stopNotify =>
    match s.stopping with
    | .cleared before => some (.ok { s with stopping := .joining before })
    | _ => none
  | .stopJoin =>
    match s.stopping with
    | .joining before => if s.func = .exited then some (.ok { s with stopping := .returned before }) else none
    | _ => none

end AsyncLogging

def asyncLogging : Lib.Machine AsyncLogging AsyncLogging.Label AsyncLogging.Fault where
  init s := s = {}
  step := AsyncLogging.step

end Dserver
