import Dserver.Base.AsyncLogging

/-!
# No line is lost, split or doubled

Every line is in a buffer that a cycle has taken, in `buffers_` or in the current buffer, in the order of the
lock, and a buffer that was taken is written as a whole. The spare buffers of a cycle come back from those it
has written: `nextBuffer_` is null only while `buffers_` holds a buffer.
-/

namespace Dserver

namespace AsyncLogging

variable {s s' : AsyncLogging}

def lines : BufferPtr → List LogLine
  | some b => b.lines
  | none => []

def bytes (ptr : BufferPtr) : List UInt8 := (lines ptr).flatten

/-- The buffers that a cycle writes of those it has taken. -/
def kept (buffers : List BufferPtr) : List BufferPtr := if 25 < buffers.length then buffers.take 2 else buffers

/-- The log data passed to `LogFile::append`, call by call. -/
def written (s : AsyncLogging) : List (List UInt8) :=
  s.output.filterMap fun
    | .data bytes => some bytes
    | .notice _ => none

def unwritten (s : AsyncLogging) : List BufferPtr :=
  match s.func with
  | .collected => kept s.buffersToWrite
  | .writing next => s.buffersToWrite.drop next
  | _ => []

/-- The lines in buffers that the logging thread has taken. -/
def takenLines (s : AsyncLogging) : List LogLine := s.taken.flatten.flatMap lines

/-- The spare buffers that the current cycle has given away come back from the buffers it writes. -/
def Spare (s : AsyncLogging) : Prop :=
  s.newBuffer1 = none ∧ s.buffersToWrite ≠ [] ∧
    (s.newBuffer2 = some .empty ∨ (s.newBuffer2 = none ∧ 2 ≤ s.buffersToWrite.length))

/-- What the logging thread holds, by where it is. -/
def Stage (s : AsyncLogging) : Prop :=
  match s.func with
  | .notStarted | .exited => s.buffersToWrite = []
  | .entry => s.buffersToWrite = [] ∧ s.running = true
  | .test | .cycle | .waiting => s.buffersToWrite = [] ∧ s.newBuffer1 = some .empty ∧ s.newBuffer2 = some .empty
  | .collected => s.Spare
  | .writing next => s.Spare ∧ next ≤ s.buffersToWrite.length ∧ s.buffersToWrite.length ≤ 25

/-- `threadFunc` has set off the latch that `start` waits for. -/
def Entered (s : AsyncLogging) : Prop := s.func ≠ .notStarted ∧ s.func ≠ .entry

structure Inv (s : AsyncLogging) : Prop where
  called : s.stopping ≠ .notCalled → s.Entered
  before : ∀ n, s.stopping = .called n → n ≤ s.appended.length
  current : s.currentBuffer ≠ none
  next : s.nextBuffer = some .empty ∨ (s.nextBuffer = none ∧ s.buffers ≠ [])
  buffers : none ∉ s.buffers
  batch : none ∉ s.buffersToWrite
  stage : s.Stage
  lines : (s.taken.flatten ++ s.buffers ++ [s.currentBuffer]).flatMap lines = s.appended
  written : s.written ++ s.unwritten.map bytes = (s.taken.flatMap kept).map bytes

theorem initial_inv : Inv {} := ⟨nofun, nofun, nofun, .inl rfl, nofun, nofun, rfl, rfl, rfl⟩

/-! ### `append` -/

theorem append_lines {b : FixedBuffer kLargeBuffer} {logline : LogLine} (room : logline.length < b.avail) :
    (b.append logline).lines = b.lines ++ [logline] := by
  rw [FixedBuffer.append, dif_pos room]

theorem deref_some {b : FixedBuffer kLargeBuffer} : deref (some b) = .ok b := rfl

theorem stored_inv {b : FixedBuffer kLargeBuffer} {logline : LogLine} (h : s.Inv) (current : s.currentBuffer = some b)
    (room : logline.length < b.avail) :
    Inv { s with currentBuffer := some (b.append logline), appended := s.appended ++ [logline] } := by
  refine ⟨h.called, fun n called => ?_, nofun, h.next, h.buffers, h.batch, h.stage, ?_, h.written⟩
  · have earlier := h.before n called
    rw [List.length_append]
    omega
  · have before := h.lines
    rw [current, List.flatMap_append] at before
    rw [← before, List.flatMap_append, List.append_assoc]
    simp [AsyncLogging.lines, append_lines room]

theorem nextCurrent_spec (h : s.Inv) : s.nextCurrent.Inv ∧ s.nextCurrent.currentBuffer = some .empty ∧
    s.nextCurrent = { s with
      buffers := s.nextCurrent.buffers, currentBuffer := some .empty, nextBuffer := s.nextCurrent.nextBuffer } := by
  have result : s.nextCurrent =
      { s with buffers := s.buffers ++ [s.currentBuffer], currentBuffer := some .empty, nextBuffer := none } := by
    unfold nextCurrent
    rcases h.next with there | ⟨gone, _⟩
    · rw [there]
    · rw [gone]
  refine ⟨?_, by rw [result], by rw [result]⟩
  rw [result]
  refine ⟨h.called, h.before, nofun, .inr ⟨rfl, by simp⟩, ?_, h.batch, h.stage, ?_, h.written⟩
  · rw [List.mem_append, List.mem_singleton, not_or]
    exact ⟨h.buffers, h.current.symm⟩
  · rw [List.flatMap_append, ← List.append_assoc, h.lines]
    exact List.append_nil _

theorem append_spec {logline : LogLine} (h : s.Inv) (short : logline.length < kLargeBuffer) :
    ∃ s', s.append logline = .ok s' ∧ s'.Inv ∧ s' = { s with
      buffers := s'.buffers, currentBuffer := s'.currentBuffer, nextBuffer := s'.nextBuffer
      appended := s.appended ++ [logline] } := by
  obtain ⟨b, current⟩ := Option.ne_none_iff_exists'.mp h.current
  unfold append
  rw [current, deref_some, Lib.ok_bind]
  by_cases room : logline.length < b.avail
  · rw [if_pos room]
    dsimp only
    rw [current, deref_some, Lib.ok_bind]
    exact ⟨_, rfl, stored_inv h current room, rfl⟩
  · obtain ⟨inv, fresh, frame⟩ := nextCurrent_spec h
    rw [if_neg room]
    dsimp only
    rw [fresh, deref_some, Lib.ok_bind]
    refine ⟨_, rfl, stored_inv inv fresh (by simpa [FixedBuffer.avail, FixedBuffer.length, FixedBuffer.empty] using short),
      ?_⟩
    rw [frame]

/-! ### The logging thread -/

theorem enter_spec (h : s.Inv) (place : s.func = .entry) :
    ∃ s', s.enter = .ok s' ∧ s'.Inv ∧
      s' = { s with newBuffer1 := some .empty, newBuffer2 := some .empty, func := .test } := by
  obtain ⟨batch, running⟩ : s.buffersToWrite = [] ∧ s.running = true := by
    simpa only [Stage, place] using h.stage
  have written := h.written
  simp only [unwritten, place] at written
  unfold enter
  rw [if_pos running]
  exact ⟨_, rfl, ⟨fun _ => ⟨nofun, nofun⟩, h.before, h.current, h.next, h.buffers, h.batch, ⟨batch, rfl, rfl⟩, h.lines,
    written⟩, rfl⟩

theorem test_spec (h : s.Inv) (place : s.func = .test) : s.test.Inv := by
  have stage := h.stage
  have written := h.written
  simp only [Stage, place] at stage
  simp only [unwritten, place] at written
  unfold test
  cases s.running with
  | true => exact ⟨fun _ => ⟨nofun, nofun⟩, h.before, h.current, h.next, h.buffers, h.batch, stage, h.lines, written⟩
  | false => exact ⟨fun _ => ⟨nofun, nofun⟩, h.before, h.current, h.next, h.buffers, h.batch, stage.1, h.lines, written⟩

/-- In the cycle and before the swap. -/
def Collecting (s : AsyncLogging) : Prop := s.func = .cycle ∨ s.func = .waiting

theorem collecting_stage (h : s.Inv) (place : s.Collecting) :
    s.buffersToWrite = [] ∧ s.newBuffer1 = some .empty ∧ s.newBuffer2 = some .empty ∧ s.unwritten = [] := by
  have stage := h.stage
  rcases place with place | place
  all_goals
    simp only [Stage, place] at stage
    exact ⟨stage.1, stage.2.1, stage.2.2, by simp only [unwritten, place]⟩

theorem collect_eq (h : s.Inv) (place : s.Collecting) :
    ∃ newBuffer2, s.collect = { s with
        buffers := [], currentBuffer := some .empty, nextBuffer := some .empty, func := .collected
        newBuffer1 := none, newBuffer2, buffersToWrite := s.buffers ++ [s.currentBuffer]
        taken := s.taken ++ [s.buffers ++ [s.currentBuffer]] } ∧
      (newBuffer2 = some .empty ∨ (newBuffer2 = none ∧ s.buffers ≠ [])) := by
  obtain ⟨batch, newBuffer1, newBuffer2, _⟩ := collecting_stage h place
  unfold collect
  rcases h.next with there | ⟨gone, nonempty⟩
  · exact ⟨some .empty, by simp [there, batch, newBuffer1, newBuffer2], .inl rfl⟩
  · exact ⟨none, by simp [gone, batch, newBuffer1, newBuffer2], .inr ⟨rfl, nonempty⟩⟩

theorem collect_spec (h : s.Inv) (place : s.Collecting) :
    s.collect.Inv ∧ s.collect.takenLines = s.appended ∧ s.collect.func = .collected ∧
      s.collect.running = s.running ∧ s.collect.appended = s.appended ∧ s.collect.stopping = s.stopping := by
  obtain ⟨newBuffer2, result, spare⟩ := collect_eq h place
  obtain ⟨_, _, _, unwritten⟩ := collecting_stage h place
  have lines := h.lines
  have written := h.written
  rw [unwritten, List.map_nil, List.append_nil] at written
  rw [List.append_assoc] at lines
  rw [result]
  refine ⟨⟨fun _ => ⟨nofun, nofun⟩, h.before, nofun, .inl rfl, nofun, ?_, ?_, ?_, ?_⟩,
    by simpa [takenLines] using lines, rfl, rfl, rfl, rfl⟩
  · rw [List.mem_append, List.mem_singleton, not_or]
    exact ⟨h.buffers, h.current.symm⟩
  · refine ⟨rfl, by simp, ?_⟩
    rcases spare with kept | ⟨given, nonempty⟩
    · exact .inl kept
    · have := List.length_pos_iff.mpr nonempty
      exact .inr ⟨given, by rw [List.length_append, List.length_singleton]; omega⟩
  · simpa [AsyncLogging.lines, FixedBuffer.empty] using lines
  · simpa [AsyncLogging.written, AsyncLogging.unwritten] using written

theorem lock_spec (h : s.Inv) (place : s.func = .cycle) :
    ∃ s', s.lock = .ok s' ∧ s'.Inv ∧ (s' = s.collect ∨ s' = { s with func := .waiting }) := by
  obtain ⟨batch, newBuffer1, newBuffer2, unwritten⟩ := collecting_stage h (.inl place)
  have written := h.written
  rw [unwritten] at written
  have unusedEmpty : unused (some .empty) = true := rfl
  unfold lock
  rw [if_neg (by simp [newBuffer1, unusedEmpty]), if_neg (by simp [newBuffer2, unusedEmpty]),
    if_neg (by simp [batch])]
  by_cases empty : s.buffers = []
  · rw [if_pos empty]
    exact ⟨_, rfl, ⟨fun _ => ⟨nofun, nofun⟩, h.before, h.current, h.next, h.buffers, h.batch,
      ⟨batch, newBuffer1, newBuffer2⟩, h.lines, written⟩, .inr rfl⟩
  · rw [if_neg empty]
    exact ⟨_, rfl, (collect_spec h (.inl place)).1, .inl rfl⟩

theorem kept_length (buffers : List BufferPtr) : (kept buffers).length ≤ 25 := by
  unfold kept
  split
  · rw [List.length_take]
    omega
  · omega

theorem kept_spare {s : AsyncLogging} (h : s.Spare) : Spare { s with buffersToWrite := kept s.buffersToWrite } := by
  obtain ⟨newBuffer1, nonempty, newBuffer2⟩ := h
  unfold kept
  split
  · rename_i many
    have two : (s.buffersToWrite.take 2).length = 2 := by rw [List.length_take]; omega
    have present : s.buffersToWrite.take 2 ≠ [] := fun empty => by rw [empty] at two; cases two
    exact ⟨newBuffer1, present, newBuffer2.imp_right fun ⟨given, _⟩ => ⟨given, Nat.le_of_eq two.symm⟩⟩
  · exact ⟨newBuffer1, nonempty, newBuffer2⟩

theorem drop_spec {now : String} (h : s.Inv) (place : s.func = .collected) :
    ∃ s', s.drop now = .ok s' ∧ s'.Inv ∧ s' = { s with
      output := s'.output, buffersToWrite := kept s.buffersToWrite, func := .writing 0 } := by
  have spare : s.Spare := by simpa only [Stage, place] using h.stage
  have stage := kept_spare spare
  have few := kept_length s.buffersToWrite
  have sub : none ∉ kept s.buffersToWrite := by
    unfold kept
    split
    · exact fun null => h.batch (List.mem_of_mem_take null)
    · exact h.batch
  have written := h.written
  simp only [unwritten, place] at written
  unfold drop
  rw [if_neg spare.2.1]
  by_cases many : 25 < s.buffersToWrite.length
  · have result : kept s.buffersToWrite = s.buffersToWrite.take 2 := if_pos many
    rw [if_pos many, ← result]
    refine ⟨_, rfl, ⟨fun _ => ⟨nofun, nofun⟩, h.before, h.current, h.next, h.buffers, sub, ⟨stage, Nat.zero_le _, few⟩,
      h.lines, ?_⟩, rfl⟩
    simpa [AsyncLogging.written, unwritten] using written
  · have result : kept s.buffersToWrite = s.buffersToWrite := if_neg many
    rw [if_neg many]
    rw [result] at stage few sub written ⊢
    exact ⟨_, rfl, ⟨fun _ => ⟨nofun, nofun⟩, h.before, h.current, h.next, h.buffers, sub, ⟨stage, Nat.zero_le _, few⟩,
      h.lines, written⟩, rfl⟩

theorem write_spec {next : Nat} {ptr : BufferPtr} (h : s.Inv) (place : s.func = .writing next)
    (found : s.buffersToWrite[next]? = some ptr) :
    ∃ s', s.write next ptr = .ok s' ∧ s'.Inv ∧
      s' = { s with output := s'.output, func := .writing (next + 1) } := by
  have present := List.mem_of_getElem? found
  obtain ⟨inside, _⟩ := List.getElem?_eq_some_iff.mp found
  obtain ⟨spare, _, few⟩ : s.Spare ∧ next ≤ s.buffersToWrite.length ∧ s.buffersToWrite.length ≤ 25 := by
    simpa only [Stage, place] using h.stage
  have written := h.written
  simp only [unwritten, place] at written
  unfold write
  cases ptr with
  | none => exact absurd present h.batch
  | some b =>
    refine ⟨_, rfl, ⟨fun _ => ⟨nofun, nofun⟩, h.before, h.current, h.next, h.buffers, h.batch, ⟨spare, inside, few⟩,
      h.lines, ?_⟩, rfl⟩
    have rest : s.buffersToWrite.drop next = some b :: s.buffersToWrite.drop (next + 1) := by
      rw [List.drop_eq_getElem?_toList_append, found]
      rfl
    rw [← written, rest]
    simp [AsyncLogging.written, unwritten, bytes, AsyncLogging.lines, b.data_eq]

theorem refill_none {buffers : List BufferPtr} {fault : Fault} (nonempty : buffers ≠ []) (valid : none ∉ buffers) :
    refill none buffers fault = .ok (some .empty, buffers.dropLast) := by
  have last := List.getLast?_eq_some_getLast nonempty
  have present := List.getLast_mem nonempty
  cases found : buffers.getLast nonempty with
  | none =>
    rw [found] at present
    exact absurd present valid
  | some b =>
    unfold refill
    rw [last, found]
    rfl

theorem recycle_spec (h : s.Inv) (place : s.func = .writing s.buffersToWrite.length) :
    ∃ s', s.recycle = .ok s' ∧ s'.Inv ∧ s' = { s with
      newBuffer1 := some .empty, newBuffer2 := some .empty, buffersToWrite := [], func := .test } := by
  obtain ⟨⟨newBuffer1, nonempty, newBuffer2⟩, _⟩ : s.Spare ∧ _ := by simpa only [Stage, place] using h.stage
  have written := h.written
  simp only [unwritten, place, List.drop_length] at written
  have present : s.buffersToWrite.take 2 ≠ [] := by simpa using nonempty
  have valid : none ∉ s.buffersToWrite.take 2 := fun null => h.batch (List.mem_of_mem_take null)
  have valid' : none ∉ (s.buffersToWrite.take 2).dropLast := fun null => valid (List.dropLast_subset _ null)
  have result : s.recycle = .ok { s with
      newBuffer1 := some .empty, newBuffer2 := some .empty, buffersToWrite := [], func := .test } := by
    unfold recycle
    dsimp only
    rw [newBuffer1, refill_none present valid, Lib.ok_bind]
    rcases newBuffer2 with own | ⟨given, two⟩
    · rw [own]
      rfl
    · have left : (s.buffersToWrite.take 2).dropLast ≠ [] := by
        apply List.ne_nil_of_length_pos
        rw [List.length_dropLast, List.length_take]
        omega
      rw [given]
      dsimp only
      rw [refill_none left valid', Lib.ok_bind]
  exact ⟨_, result, ⟨fun _ => ⟨nofun, nofun⟩, h.before, h.current, h.next, h.buffers, nofun, ⟨rfl, rfl, rfl⟩, h.lines,
    written⟩, rfl⟩

/-! ### Runs -/

def Short (_ : AsyncLogging) : Label → Prop
  | .append logline => logline.length < kLargeBuffer
  | _ => True

instance (s : AsyncLogging) (label : Label) : Decidable (Short s label) :=
  match label with
  | .append logline => inferInstanceAs (Decidable (logline.length < kLargeBuffer))
  | .start | .enter | .test | .lock | .wake | .drop _ | .write | .recycle | .stopCall | .stopClear | .stopNotify
  | .stopJoin => inferInstanceAs (Decidable True)

theorem start_inv (h : s.Inv) (place : s.func = .notStarted) : s.start.Inv := by
  have notCalled : s.stopping = .notCalled := Classical.not_not.mp fun called => (h.called called).1 place
  have stage := h.stage
  have written := h.written
  simp only [Stage, place] at stage
  simp only [unwritten, place] at written
  exact ⟨fun called => absurd notCalled called, h.before, h.current, h.next, h.buffers, h.batch, ⟨stage, rfl⟩, h.lines,
    written⟩

theorem write_enabled {result : Except Fault AsyncLogging} (step : s.step .write = some result) :
    ∃ next ptr, s.func = .writing next ∧ s.buffersToWrite[next]? = some ptr ∧ result = s.write next ptr := by
  simp only [AsyncLogging.step] at step
  split at step
  · split at step
    · rename_i next place _ ptr found
      exact ⟨next, ptr, place, found, (Option.some.inj step).symm⟩
    · cases step
  · cases step

theorem stopClear_enabled {result : Except Fault AsyncLogging} (step : s.step .stopClear = some result) :
    ∃ before, s.stopping = .called before ∧
      result = .ok { s with running := false, stopping := .cleared before } := by
  simp only [AsyncLogging.step] at step
  split at step
  · rename_i before stopping
    exact ⟨before, stopping, (Option.some.inj step).symm⟩
  · cases step

theorem stopNotify_enabled {result : Except Fault AsyncLogging} (step : s.step .stopNotify = some result) :
    ∃ before, s.stopping = .cleared before ∧ result = .ok { s with stopping := .joining before } := by
  simp only [AsyncLogging.step] at step
  split at step
  · rename_i before stopping
    exact ⟨before, stopping, (Option.some.inj step).symm⟩
  · cases step

theorem stopJoin_enabled {result : Except Fault AsyncLogging} (step : s.step .stopJoin = some result) :
    ∃ before, s.stopping = .joining before ∧ s.func = .exited ∧
      result = .ok { s with stopping := .returned before } := by
  simp only [AsyncLogging.step] at step
  split at step
  · rename_i before stopping
    obtain ⟨exited, step⟩ := Option.ite_none_right_eq_some.mp step
    exact ⟨before, stopping, exited, (Option.some.inj step).symm⟩
  · cases step

theorem stopping_inv {stopping : StopState} {running : Bool} (h : s.Inv) (entered : s.Entered)
    (before : ∀ n, stopping = .called n → n ≤ s.appended.length) : Inv { s with stopping, running } := by
  refine ⟨fun _ => entered, before, h.current, h.next, h.buffers, h.batch, ?_, h.lines, h.written⟩
  have stage := h.stage
  unfold Stage at stage ⊢
  cases place : s.func with
  | entry => exact absurd place entered.2
  | _ =>
    rw [place] at stage
    exact stage

/-- What a step does, besides what it does to the buffers. -/
inductive Effect (s s' : AsyncLogging) : Prop where
  | appends (logline : LogLine) (eq : s' = { s with
      buffers := s'.buffers, currentBuffer := s'.currentBuffer, nextBuffer := s'.nextBuffer
      appended := s.appended ++ [logline] })
  | starts (place : s.func = .notStarted) (eq : s' = s.start)
  | enters (place : s.func = .entry)
      (eq : s' = { s with newBuffer1 := some .empty, newBuffer2 := some .empty, func := .test })
  | tests (place : s.func = .test) (eq : s' = s.test)
  | waits (place : s.func = .cycle) (eq : s' = { s with func := .waiting })
  | collects (place : s.Collecting) (eq : s' = s.collect)
  -- the thread has taken its buffers and is not back at the head of the loop
  | goes (place place' : FuncState) (before : s.func = place) (after : s'.func = place')
      (away : place ≠ .cycle ∧ place ≠ .waiting ∧ place ≠ .exited) (away' : place' ≠ .cycle ∧ place' ≠ .waiting)
      (eq : s' = { s with
        newBuffer1 := s'.newBuffer1, newBuffer2 := s'.newBuffer2, buffersToWrite := s'.buffersToWrite
        output := s'.output, func := place' })
  | stopCalls (first : s.stopping = .notCalled) (entered : s.Entered)
      (eq : s' = { s with stopping := .called s.appended.length })
  | stopClears (before : Nat) (called : s.stopping = .called before)
      (eq : s' = { s with running := false, stopping := .cleared before })
  | stopNotifies (before : Nat) (cleared : s.stopping = .cleared before)
      (eq : s' = { s with stopping := .joining before })
  | stopJoins (before : Nat) (joining : s.stopping = .joining before) (exited : s.func = .exited)
      (eq : s' = { s with stopping := .returned before })

/-- A step keeps the invariant and runs into no assertion and no null pointer. -/
theorem step_spec {label : Label} {result : Except Fault AsyncLogging} (h : s.Inv) (short : Short s label)
    (step : s.step label = some result) : ∃ s', result = .ok s' ∧ s'.Inv ∧ s.Effect s' := by
  cases label with
  | append logline =>
    obtain rfl := Option.some.inj step
    obtain ⟨s', ran, inv, frame⟩ := append_spec h short
    exact ⟨s', ran, inv, .appends logline frame⟩
  | start =>
    obtain ⟨place, step⟩ := Option.ite_none_right_eq_some.mp step
    obtain rfl := Option.some.inj step
    exact ⟨_, rfl, start_inv h place, .starts place rfl⟩
  | enter =>
    obtain ⟨place, step⟩ := Option.ite_none_right_eq_some.mp step
    obtain rfl := Option.some.inj step
    obtain ⟨s', ran, inv, frame⟩ := enter_spec h place
    exact ⟨s', ran, inv, .enters place frame⟩
  | test =>
    obtain ⟨place, step⟩ := Option.ite_none_right_eq_some.mp step
    obtain rfl := Option.some.inj step
    exact ⟨_, rfl, test_spec h place, .tests place rfl⟩
  | lock =>
    obtain ⟨place, step⟩ := Option.ite_none_right_eq_some.mp step
    obtain rfl := Option.some.inj step
    obtain ⟨s', ran, inv, collected | waits⟩ := lock_spec h place
    · exact ⟨s', ran, inv, .collects (.inl place) collected⟩
    · exact ⟨s', ran, inv, .waits place waits⟩
  | wake =>
    obtain ⟨place, step⟩ := Option.ite_none_right_eq_some.mp step
    obtain rfl := Option.some.inj step
    exact ⟨_, rfl, (collect_spec h (.inr place)).1, .collects (.inr place) rfl⟩
  | drop now =>
    obtain ⟨place, step⟩ := Option.ite_none_right_eq_some.mp step
    obtain rfl := Option.some.inj step
    obtain ⟨s', ran, inv, frame⟩ := drop_spec h place
    refine ⟨s', ran, inv, .goes _ (.writing 0) place (by rw [frame]) ⟨nofun, nofun, nofun⟩ ⟨nofun, nofun⟩ ?_⟩
    rw [frame]
  | write =>
    obtain ⟨next, ptr, place, found, rfl⟩ := write_enabled step
    obtain ⟨s', ran, inv, frame⟩ := write_spec h place found
    refine ⟨s', ran, inv, .goes _ (.writing (next + 1)) place (by rw [frame]) ⟨nofun, nofun, nofun⟩ ⟨nofun, nofun⟩ ?_⟩
    rw [frame]
  | recycle =>
    obtain ⟨place, step⟩ := Option.ite_none_right_eq_some.mp step
    obtain rfl := Option.some.inj step
    obtain ⟨s', ran, inv, frame⟩ := recycle_spec h place
    refine ⟨s', ran, inv, .goes _ .test place (by rw [frame]) ⟨nofun, nofun, nofun⟩ ⟨nofun, nofun⟩ ?_⟩
    rw [frame]
  | stopCall =>
    obtain ⟨⟨first, entered⟩, step⟩ := Option.ite_none_right_eq_some.mp step
    obtain rfl := Option.some.inj step
    refine ⟨_, rfl, stopping_inv h entered fun n same => ?_, .stopCalls first entered rfl⟩
    exact Nat.le_of_eq (StopState.called.inj same).symm
  | stopClear =>
    obtain ⟨before, called, rfl⟩ := stopClear_enabled step
    exact ⟨_, rfl, stopping_inv h (h.called (by rw [called]; nofun)) nofun, .stopClears before called rfl⟩
  | stopNotify =>
    obtain ⟨before, cleared, rfl⟩ := stopNotify_enabled step
    exact ⟨_, rfl, stopping_inv h (h.called (by rw [cleared]; nofun)) nofun, .stopNotifies before cleared rfl⟩
  | stopJoin =>
    obtain ⟨before, joining, exited, rfl⟩ := stopJoin_enabled step
    exact ⟨_, rfl, stopping_inv h (h.called (by rw [joining]; nofun)) nofun, .stopJoins before joining exited rfl⟩

theorem reachable_inv (h : asyncLogging.Reachable Short s) : s.Inv := by
  apply h.invariant
  · rintro _ rfl
    exact initial_inv
  · intro a label b _ inv short step
    obtain ⟨s', same, inv', _⟩ := step_spec inv short step
    obtain rfl := Except.ok.inj same
    exact inv'

theorem kept_few {buffers : List BufferPtr} (few : buffers.length ≤ 25) : kept buffers = buffers :=
  if_neg (Nat.not_lt.mpr few)

theorem flatMap_kept {taken : List (List BufferPtr)} (few : ∀ batch ∈ taken, batch.length ≤ 25) :
    taken.flatMap kept = taken.flatten := by
  induction taken with
  | nil => rfl
  | cons batch rest ih =>
    rw [List.flatMap_cons, List.flatten_cons, kept_few (few batch List.mem_cons_self),
      ih fun other member => few other (List.mem_cons_of_mem _ member)]

theorem flatten_map_bytes (buffers : List BufferPtr) :
    (buffers.map bytes).flatten = (buffers.flatMap lines).flatten := by
  induction buffers with
  | nil => rfl
  | cons ptr rest ih =>
    rw [List.map_cons, List.flatten_cons, List.flatMap_cons, List.flatten_append, ih]
    rfl

/-- The messages are whole, in the order of the lock and each of them once, in the buffers that were taken,
`buffers_` and the current buffer. Of those taken, a cycle writes all but the third and later ones of more than 25,
and without such a cycle the bytes add up to the messages. No assertion fails. -/
theorem messages_conserved (h : asyncLogging.Reachable Short s) :
    s.currentBuffer ≠ none ∧
      (s.taken.flatten ++ s.buffers ++ [s.currentBuffer]).flatMap lines = s.appended ∧
      s.written ++ s.unwritten.map bytes = (s.taken.flatMap kept).map bytes ∧
      ((∀ batch ∈ s.taken, batch.length ≤ 25) →
        (s.written ++ (s.unwritten ++ s.buffers ++ [s.currentBuffer]).map bytes).flatten = s.appended.flatten) ∧
      ∀ label fault, Short s label → asyncLogging.step s label ≠ some (.error fault) := by
  have inv := reachable_inv h
  refine ⟨inv.current, inv.lines, inv.written, fun few => ?_, fun label fault short step => ?_⟩
  · rw [← inv.lines, ← flatten_map_bytes, List.append_assoc s.unwritten, List.map_append, ← List.append_assoc,
      inv.written, flatMap_kept few, ← List.map_append, List.append_assoc]
  · obtain ⟨s', ok, _⟩ := step_spec inv short step
    cases ok

/-- A line is appended while the thread waits and one while it writes. -/
theorem messages_conserved_midway :
    ∃ s, asyncLogging.Reachable Short s ∧
      (s.func = .writing 1 ∧ s.written = [[1, 2, 3]] ∧ s.appended = [[1], [2, 3], [4]]) ∧
      (s.taken.flatten ++ s.buffers ++ [s.currentBuffer]).flatMap lines = s.appended := by
  obtain ⟨s, reachable, state⟩ := Lib.Machine.exec_reaches asyncLogging Short {}
    [.start, .enter, .append [1], .test, .lock, .append [2, 3], .wake, .drop "", .append [4], .write]
    (fun s => s.func = .writing 1 ∧ s.written = [[1, 2, 3]] ∧ s.appended = [[1], [2, 3], [4]]) rfl (by decide)
  exact ⟨s, reachable, state, (messages_conserved reachable).2.1⟩

end AsyncLogging

end Dserver
