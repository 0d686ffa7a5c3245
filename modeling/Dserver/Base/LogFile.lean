import Mathlib.Data.Set.Function
import Dserver.Base.StreamContents

/-!
# `LogFile`

Lines go to the current file; a file above `rollSize_` is closed and a new one opened, unless the clock shows no later
second than at the last roll. `fopen` succeeds. The names of files opened in different seconds differ by `strftime`.
-/

namespace Dserver

/-- The answer to `fwrite_unlocked`: how many bytes it takes, and how many bytes of the stream are passed on to the
file. -/
structure Fwrite where
  count : Nat
  passed : Nat
  deriving DecidableEq, Repr

structure AppendFile where
  filename : List UInt8
  /-- What is in the file. -/
  disk : List UInt8 := []
  /-- What is in `buffer_`. -/
  buffer : List UInt8 := []
  writtenBytes : Nat := 0
  deriving DecidableEq, Repr

namespace AppendFile

def contents (f : AppendFile) : List UInt8 := f.disk ++ f.buffer

/-- `fflush`, which `fclose` does too. -/
def flush (f : AppendFile) : AppendFile := { f with disk := f.disk ++ f.buffer, buffer := [] }

def write (f : AppendFile) (logline : List UInt8) (answer : Fwrite) : AppendFile × Nat :=
  let n := min answer.count logline.length
  let stream := f.buffer ++ logline.take n
  ({ f with disk := f.disk ++ stream.take answer.passed, buffer := stream.drop answer.passed }, n)

/-- The loop over what remains; `turns` is a bound on its turns. -/
def writeRest (answers : Nat → Fwrite) : Nat → Nat → AppendFile → List UInt8 → AppendFile
  | 0, _, f, _ => f
  | turns + 1, k, f, remain =>
    if remain = [] then f
    else
      let (f, x) := f.write remain (answers k)
      if x = 0 then f else writeRest answers turns (k + 1) f (remain.drop x)

def append (f : AppendFile) (logline : List UInt8) (answers : Nat → Fwrite) : AppendFile :=
  let (f, n) := f.write logline (answers 0)
  let f := writeRest answers logline.length 1 f (logline.drop n)
  { f with writtenBytes := f.writtenBytes + logline.length }

variable {f : AppendFile} {answers : Nat → Fwrite}

theorem write_contents (f : AppendFile) (logline : List UInt8) (answer : Fwrite) :
    (f.write logline answer).1.contents = f.contents ++ logline.take (f.write logline answer).2 ∧
      (f.write logline answer).1.filename = f.filename := by
  refine ⟨?_, rfl⟩
  simp only [write, contents, List.append_assoc, List.take_append_drop]

theorem writeRest_contents (success : ∀ k, 0 < (answers k).count) (f : AppendFile) {turns : Nat} (k : Nat)
    {remain : List UInt8} (enough : remain.length ≤ turns) :
    (writeRest answers turns k f remain).contents = f.contents ++ remain ∧
      (writeRest answers turns k f remain).filename = f.filename := by
  induction turns generalizing k f remain with
  | zero =>
    rw [List.length_eq_zero_iff.mp (Nat.le_zero.mp enough), writeRest, List.append_nil]
    exact ⟨rfl, rfl⟩
  | succ turns ih =>
    rw [writeRest]
    split
    · rename_i done
      rw [done, List.append_nil]
      exact ⟨rfl, rfl⟩
    · rename_i more
      obtain ⟨wrote, name⟩ := write_contents f remain (answers k)
      have progress : 0 < (f.write remain (answers k)).2 :=
        Nat.lt_min.mpr ⟨success k, List.length_pos_iff.mpr more⟩
      dsimp only
      rw [if_neg (Nat.ne_of_gt progress)]
      have left : (remain.drop (f.write remain (answers k)).2).length ≤ turns := by
        rw [List.length_drop]
        omega
      obtain ⟨rest, name'⟩ := ih (f.write remain (answers k)).1 (k + 1) left
      rw [rest, wrote, List.append_assoc, List.take_append_drop]
      exact ⟨rfl, name'.trans name⟩

theorem append_contents (f : AppendFile) (logline : List UInt8) (success : ∀ k, 0 < (answers k).count) :
    (f.append logline answers).contents = f.contents ++ logline ∧ (f.append logline answers).filename = f.filename := by
  obtain ⟨wrote, name⟩ := write_contents f logline (answers 0)
  have left : (logline.drop (f.write logline (answers 0)).2).length ≤ logline.length := by
    rw [List.length_drop]
    omega
  obtain ⟨rest, name'⟩ := writeRest_contents success (f.write logline (answers 0)).1 1 left
  refine ⟨?_, name'.trans name⟩
  calc (f.append logline answers).contents
      = (f.write logline (answers 0)).1.contents ++ logline.drop (f.write logline (answers 0)).2 := rest
    _ = f.contents ++ logline := by rw [wrote, List.append_assoc, List.take_append_drop]

theorem flush_contents : f.flush.contents = f.contents := by simp [flush, contents]

end AppendFile

structure LogFile where
  basename : List UInt8
  rollSize : Nat
  start : Int := 0
  lastRoll : Int := 0
  lastFlush : Int := 0
  file : Option AppendFile := none
  -- history: the files that were closed, and the lines of `append`
  closed : List AppendFile := []
  lines : List LogLine := []

namespace LogFile

/-- A null `file_` is used. -/
inductive Fault where
  | nullFile
  deriving DecidableEq, Repr

inductive Label where
  | append (logline : LogLine) (answers : Nat → Fwrite) (now : Int) (tid : Nat)
  | rollFile (now : Int) (tid : Nat)
  | flush

def kRollPerSeconds : Int := 60 * 60 * 24

variable (strftime : Int → List UInt8)

/-- `now` is what `time` gives, `tid` the calling thread. -/
def getLogFileName (basename : List UInt8) (now : Int) (tid : Nat) : List UInt8 :=
  basename ++ strftime now ++ (literal "." ++ LogStream.decimal tid) ++ literal ".log"

def rollFile (l : LogFile) (now : Int) (tid : Nat) : Bool × LogFile :=
  let filename := getLogFileName strftime l.basename now tid
  let start := now.tdiv kRollPerSeconds * kRollPerSeconds
  if l.lastRoll < now then
    (true, { l with
      lastRoll := now, lastFlush := now, start, file := some { filename }
      closed := l.closed ++ l.file.toList.map AppendFile.flush })
  else (false, l)

def make (basename : List UInt8) (rollSize : Nat) (now : Int) (tid : Nat) : LogFile :=
  (rollFile strftime { basename, rollSize } now tid).2

def append (l : LogFile) (logline : LogLine) (answers : Nat → Fwrite) (now : Int) (tid : Nat) : Except Fault LogFile :=
  match l.file with
  | none => .error .nullFile
  | some file =>
    let file := file.append logline answers
    let l := { l with file := some file, lines := l.lines ++ [logline] }
    .ok (if l.rollSize < file.writtenBytes then (l.rollFile strftime now tid).2 else l)

def flush (l : LogFile) : Except Fault LogFile :=
  match l.file with
  | none => .error .nullFile
  | some file => .ok { l with file := some file.flush }

def step (l : LogFile) : Label → Option (Except Fault LogFile)
  | .append logline answers now tid => some (l.append strftime logline answers now tid)
  | .rollFile now tid => some (.ok (l.rollFile strftime now tid).2)
  | .flush => some l.flush

/-- The clock is positive, and each `fwrite` takes some bytes. -/
def Working (_ : LogFile) : Label → Prop
  | .append _ answers now _ => 0 < now ∧ ∀ k, 0 < (answers k).count
  | .rollFile now _ => 0 < now
  | .flush => True

end LogFile

def logFile (strftime : Int → List UInt8) : Lib.Machine LogFile LogFile.Label LogFile.Fault where
  init l := ∃ basename rollSize now tid, 0 < now ∧ l = LogFile.make strftime basename rollSize now tid
  step := LogFile.step strftime

end Dserver
