import Dserver.Base.LogStop
import Dserver.Base.LogRolling

/-!
# From `append` to the files

`threadFunc` owns a `LogFile`: what `AsyncLogging` takes from its callers goes to files through it. The steps are
those of `asyncLogging`, each with the answers of the kernel to the calls it makes.
-/

namespace Dserver

def LogCall.bytes : LogCall → List UInt8
  | .data bytes => bytes
  | .notice text => literal text

namespace AsyncLogging

/-- The bytes that a step passes to `output.append`. -/
def calls (s : AsyncLogging) : Label → List LogCall
  | .drop now =>
    if 25 < s.buffersToWrite.length then [.notice (dropped now s.buffersToWrite.length)] else []
  | .write =>
    match s.func with
    | .writing next => ((s.buffersToWrite[next]?).bind id).toList.map fun b => .data b.data
    | _ => []
  | _ => []

/-- Whether a step ends with `output.flush()`: at the end of a cycle, and behind the loop. -/
def flushes (s : AsyncLogging) : Label → Bool
  | .recycle => true
  | .test => !s.running
  | _ => false

end AsyncLogging

/-- `fwrite`, `time` and the thread that runs the step. -/
structure FileAnswers where
  fwrite : Nat → Fwrite
  now : Int
  tid : Nat

/-- `output` is there from `threadFunc`'s first lines on. -/
structure LogPipeline where
  logging : AsyncLogging := {}
  output : Option LogFile := none

namespace LogPipeline

structure Label where
  thread : AsyncLogging.Label
  answers : FileAnswers

inductive Fault where
  | logging (fault : AsyncLogging.Fault)
  | file (fault : LogFile.Fault)
  deriving DecidableEq, Repr

variable (strftime : Int → List UInt8) (basename : List UInt8) (rollSize : Nat)

def appendAll (answers : FileAnswers) : List LogCall → LogFile → Except LogFile.Fault LogFile
  | [], output => .ok output
  | call :: rest, output => do
    let output ← output.append strftime call.bytes answers.fwrite answers.now answers.tid
    appendAll answers rest output

/-- What a step does to `output`. -/
def toFile (s : AsyncLogging) (label : Label) (output : LogFile) : Except LogFile.Fault LogFile := do
  let output ← appendAll strftime label.answers (s.calls label.thread) output
  if s.flushes label.thread then output.flush else .ok output

/-- `output` before and after a step; `enter` constructs it. -/
def nextOutput (s : LogPipeline) (label : Label) : Except LogFile.Fault (Option LogFile) :=
  match s.output with
  | some output => (toFile strftime s.logging label output).map some
  | none =>
    .ok (if label.thread = .enter then
      some (LogFile.make strftime basename rollSize label.answers.now label.answers.tid) else none)

def step (s : LogPipeline) (label : Label) : Option (Except Fault LogPipeline) :=
  (s.logging.step label.thread).map fun result => do
    let logging ← result.mapError Fault.logging
    let output ← (s.nextOutput strftime basename rollSize label).mapError Fault.file
    .ok { logging, output }

/-- Lines are shorter than a buffer, the clock is positive, and each `fwrite` takes some bytes. -/
def Working (s : LogPipeline) (label : Label) : Prop :=
  AsyncLogging.Short s.logging label.thread ∧ 0 < label.answers.now ∧ ∀ k, 0 < (label.answers.fwrite k).count

end LogPipeline

def logPipeline (strftime : Int → List UInt8) (basename : List UInt8) (rollSize : Nat) :
    Lib.Machine LogPipeline LogPipeline.Label LogPipeline.Fault where
  init s := s = {}
  step := LogPipeline.step strftime basename rollSize

end Dserver
