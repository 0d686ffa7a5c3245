import Dserver.Base.LogPipeline

/-!
# What the log files hold

The files hold the lines of the batches that the logging thread has taken, whole and in order, and a notice where a
batch was cut. What is on the disk at any time is a front part of that.
-/

namespace Dserver

namespace FuncState

/-- With a batch that is to be written. -/
def busy : FuncState → Bool
  | .collected | .writing _ => true
  | _ => false

def writes : FuncState → Bool
  | .writing _ => true
  | _ => false

/-- Behind the first lines of `threadFunc`. -/
def entered : FuncState → Bool
  | .notStarted | .entry => false
  | _ => true

end FuncState

namespace AsyncLogging

variable {s s' : AsyncLogging} {label : Label}

/-- The lines that a cycle writes of a batch. -/
def BatchLines (batch : List BufferPtr) (written : List LogLine) : Prop :=
  if 25 < batch.length then
    ∃ now, written = literal (dropped now batch.length) :: (batch.take 2).flatMap lines
  else written = batch.flatMap lines

/-- The lines behind each call of `output.append` for a batch. -/
def BatchPieces (batch : List BufferPtr) (pieces : List (List LogLine)) : Prop :=
  if 25 < batch.length then
    ∃ now, pieces = [literal (dropped now batch.length)] :: (batch.take 2).map lines
  else pieces = batch.map lines

theorem BatchPieces.lines {batch : List BufferPtr} {pieces : List (List LogLine)} (h : BatchPieces batch pieces) :
    BatchLines batch pieces.flatten := by
  unfold BatchPieces at h
  unfold BatchLines
  split at h
  · rename_i many
    obtain ⟨now, rfl⟩ := h
    rw [if_pos many]
    exact ⟨now, by rw [List.flatten_cons, ← List.flatMap_def]; rfl⟩
  · rename_i few
    subst h
    rw [if_neg few, List.flatMap_def]

theorem exists_pieces (batch : List BufferPtr) : ∃ pieces, BatchPieces batch pieces := by
  unfold BatchPieces
  split
  · exact ⟨_, "", rfl⟩
  · exact ⟨_, rfl⟩

/-- The calls for the batches before the current one, and those made for it. -/
def Progress (s : AsyncLogging) (done : List (List (List LogLine))) (current : List (List LogLine)) : Prop :=
  match s.func with
  | .collected =>
    ∃ front, s.taken = front ++ [s.buffersToWrite] ∧ List.Forall₂ BatchPieces front done ∧ current = []
  | .writing next =>
    ∃ front batch, s.taken = front ++ [batch] ∧ List.Forall₂ BatchPieces front done ∧
      BatchPieces batch (current ++ (s.buffersToWrite.drop next).map lines)
  | _ => List.Forall₂ BatchPieces s.taken done ∧ current = []

def Logged (s : AsyncLogging) : Prop :=
  ∃ done current, s.output.map LogCall.bytes = (done.flatten ++ current).map List.flatten ∧ s.Progress done current

/-- The thread has no batch that it is to write. -/
def Idle (s : AsyncLogging) : Prop := s.func ≠ .collected ∧ ∀ next, s.func ≠ .writing next

theorem idle_at {place : FuncState} (h : s.func = place) (idle : place.busy = false) : s.Idle := by
  constructor
  · intro there
    rw [← h, there] at idle
    cases idle
  · intro next there
    rw [← h, there] at idle
    cases idle

theorem Idle.progress {done : List (List (List LogLine))} {current : List (List LogLine)} (h : s.Idle) :
    s.Progress done current ↔ List.Forall₂ BatchPieces s.taken done ∧ current = [] := by
  unfold Progress
  cases place : s.func with
  | collected => exact absurd place h.1
  | writing next => exact absurd place (h.2 next)
  | _ => rfl

theorem logged_frame (h : s.Logged) (func : s'.func = s.func) (taken : s'.taken = s.taken)
    (batch : s'.buffersToWrite = s.buffersToWrite) (output : s'.output = s.output) : s'.Logged := by
  obtain ⟨done, current, calls, progress⟩ := h
  refine ⟨done, current, output ▸ calls, ?_⟩
  unfold Progress at progress ⊢
  rw [func, taken, batch]
  exact progress

theorem idle_logged (h : s.Logged) (idle : s.Idle) (idle' : s'.Idle) (taken : s'.taken = s.taken)
    (output : s'.output = s.output) : s'.Logged := by
  obtain ⟨done, current, calls, progress⟩ := h
  refine ⟨done, current, output ▸ calls, ?_⟩
  rw [idle'.progress, taken]
  exact idle.progress.mp progress

theorem Collecting.idle (h : s.Collecting) : s.Idle := by
  rcases h with place | place
  · exact idle_at place rfl
  · exact idle_at place rfl

theorem collect_logged (inv : s.Inv) (h : s.Logged) (place : s.Collecting) : s.collect.Logged := by
  obtain ⟨newBuffer2, result, _⟩ := collect_eq inv place
  obtain ⟨done, current, calls, progress⟩ := h
  obtain ⟨batches, rfl⟩ := (Collecting.idle place).progress.mp progress
  rw [result]
  exact ⟨done, [], calls, s.taken, rfl, batches, rfl⟩

theorem drop_logged {now : String} (h : s.Logged) (place : s.func = .collected) (step : s.drop now = .ok s') :
    s'.Logged := by
  obtain ⟨done, current, calls, progress⟩ := h
  simp only [Progress, place] at progress
  obtain ⟨front, taken, batches, rfl⟩ := progress
  unfold drop at step
  split at step
  · cases step
  · split at step
    · rename_i many
      obtain rfl := Except.ok.inj step
      refine ⟨done, [[literal (dropped now s.buffersToWrite.length)]], ?_, front, s.buffersToWrite, taken, batches, ?_⟩
      · rw [List.map_append, calls]
        simp [LogCall.bytes]
      · unfold BatchPieces
        rw [if_pos many]
        exact ⟨now, rfl⟩
    · rename_i few
      obtain rfl := Except.ok.inj step
      refine ⟨done, [], calls, front, s.buffersToWrite, taken, batches, ?_⟩
      unfold BatchPieces
      rw [if_neg few]
      rfl

theorem write_logged {next : Nat} {ptr : BufferPtr} (h : s.Logged) (place : s.func = .writing next)
    (found : s.buffersToWrite[next]? = some ptr) (step : s.write next ptr = .ok s') : s'.Logged := by
  obtain ⟨done, current, calls, progress⟩ := h
  simp only [Progress, place] at progress
  obtain ⟨front, batch, taken, batches, pieces⟩ := progress
  unfold write at step
  cases ptr with
  | none => cases step
  | some b =>
    obtain rfl := Except.ok.inj step
    have rest : s.buffersToWrite.drop next = some b :: s.buffersToWrite.drop (next + 1) := by
      rw [List.drop_eq_getElem?_toList_append, found]
      rfl
    refine ⟨done, current ++ [b.lines], ?_, front, batch, taken, batches, ?_⟩
    · rw [List.map_append, calls]
      simp [LogCall.bytes, b.data_eq]
    · rw [List.append_assoc]
      rw [rest] at pieces
      exact pieces

theorem recycle_logged (inv : s.Inv) (h : s.Logged) (place : s.func = .writing s.buffersToWrite.length)
    (step : s.recycle = .ok s') : s'.Logged := by
  obtain ⟨done, current, calls, progress⟩ := h
  simp only [Progress, place, List.drop_length, List.map_nil, List.append_nil] at progress
  obtain ⟨front, batch, taken, batches, pieces⟩ := progress
  obtain ⟨result, ran, _, frame⟩ := recycle_spec inv place
  obtain rfl := Except.ok.inj (ran.symm.trans step)
  rw [frame]
  refine ⟨done ++ [current], [], ?_, ?_, rfl⟩
  · rw [List.flatten_append, List.append_nil, List.flatten_singleton]
    exact calls
  · rw [show s.taken = front ++ [batch] from taken]
    exact List.rel_append batches (.cons pieces .nil)

theorem step_logged (inv : s.Inv) (h : s.Logged) (short : Short s label) (step : s.step label = some (.ok s')) :
    s'.Logged := by
  cases label with
  | append logline =>
    obtain ⟨result, ran, _, frame⟩ := append_spec inv short
    obtain rfl := Except.ok.inj (ran.symm.trans (Option.some.inj step))
    apply logged_frame h
    all_goals rw [frame]
  | start =>
    obtain ⟨place, step⟩ := Option.ite_none_right_eq_some.mp step
    obtain rfl := Except.ok.inj (Option.some.inj step)
    exact idle_logged h (idle_at place rfl) (idle_at rfl rfl) rfl rfl
  | enter =>
    obtain ⟨place, step⟩ := Option.ite_none_right_eq_some.mp step
    obtain ⟨result, ran, _, frame⟩ := enter_spec inv place
    obtain rfl := Except.ok.inj (ran.symm.trans (Option.some.inj step))
    rw [frame]
    exact idle_logged h (idle_at place rfl) (idle_at rfl rfl) rfl rfl
  | test =>
    obtain ⟨place, step⟩ := Option.ite_none_right_eq_some.mp step
    obtain rfl := Except.ok.inj (Option.some.inj step)
    have idle' : s.test.Idle := by
      apply idle_at rfl
      unfold test
      cases s.running with
      | true => rfl
      | false => rfl
    exact idle_logged h (idle_at place rfl) idle' rfl rfl
  | lock =>
    obtain ⟨place, step⟩ := Option.ite_none_right_eq_some.mp step
    obtain ⟨result, ran, _, collected | waits⟩ := lock_spec inv place
    · obtain rfl := Except.ok.inj (ran.symm.trans (Option.some.inj step))
      rw [collected]
      exact collect_logged inv h (.inl place)
    · obtain rfl := Except.ok.inj (ran.symm.trans (Option.some.inj step))
      rw [waits]
      exact idle_logged h (Collecting.idle (.inl place)) (idle_at rfl rfl) rfl rfl
  | wake =>
    obtain ⟨place, step⟩ := Option.ite_none_right_eq_some.mp step
    obtain rfl := Except.ok.inj (Option.some.inj step)
    exact collect_logged inv h (.inr place)
  | drop now =>
    obtain ⟨place, step⟩ := Option.ite_none_right_eq_some.mp step
    exact drop_logged h place (Option.some.inj step)
  | write =>
    obtain ⟨next, ptr, place, found, result⟩ := write_enabled step
    exact write_logged h place found result.symm
  | recycle =>
    obtain ⟨place, step⟩ := Option.ite_none_right_eq_some.mp step
    exact recycle_logged inv h place (Option.some.inj step)
  | stopCall =>
    obtain ⟨_, step⟩ := Option.ite_none_right_eq_some.mp step
    obtain rfl := Except.ok.inj (Option.some.inj step)
    exact logged_frame h rfl rfl rfl rfl
  | stopClear =>
    obtain ⟨_, _, result⟩ := stopClear_enabled step
    obtain rfl := Except.ok.inj result
    exact logged_frame h rfl rfl rfl rfl
  | stopNotify =>
    obtain ⟨_, _, result⟩ := stopNotify_enabled step
    obtain rfl := Except.ok.inj result
    exact logged_frame h rfl rfl rfl rfl
  | stopJoin =>
    obtain ⟨_, _, _, result⟩ := stopJoin_enabled step
    obtain rfl := Except.ok.inj result
    exact logged_frame h rfl rfl rfl rfl

theorem Logged.batches (h : s.Logged) :
    ∃ pieces batches : List (List LogLine), s.output.map LogCall.bytes = pieces.map List.flatten ∧
      List.Forall₂ BatchLines s.taken batches ∧ pieces.flatten <+: batches.flatten ∧
      (s.Idle → pieces.flatten = batches.flatten) := by
  obtain ⟨done, current, calls, progress⟩ := h
  have whole : ∀ {taken : List (List BufferPtr)} {done}, List.Forall₂ BatchPieces taken done →
      List.Forall₂ BatchLines taken (done.map List.flatten) := by
    intro taken done pieces
    rw [List.forall₂_map_right_iff]
    exact pieces.imp fun _ _ piece => BatchPieces.lines piece
  have flat : done.flatten.flatten = (done.map List.flatten).flatten := List.flatten_flatten
  -- a batch that is being written is completed by what it is still to write
  have partly : ∀ {front batch pieces}, s.taken = front ++ [batch] → List.Forall₂ BatchPieces front done →
      BatchPieces batch pieces → current <+: pieces → ¬ s.Idle →
      ∃ pieces batches : List (List LogLine), s.output.map LogCall.bytes = pieces.map List.flatten ∧
        List.Forall₂ BatchLines s.taken batches ∧ pieces.flatten <+: batches.flatten ∧
        (s.Idle → pieces.flatten = batches.flatten) := by
    intro front batch pieces taken before last part busy
    obtain ⟨more, rfl⟩ := part
    refine ⟨_, done.map List.flatten ++ [(current ++ more).flatten], calls, ?_, ?_, fun idle => absurd idle busy⟩
    · rw [taken]
      exact List.rel_append (whole before) (.cons last.lines .nil)
    · rw [List.flatten_append, List.flatten_append, flat, List.flatten_singleton, List.flatten_append]
      exact (List.prefix_append_right_inj _).mpr (List.prefix_append _ _)
  cases place : s.func with
  | collected =>
    simp only [Progress, place] at progress
    obtain ⟨front, taken, before, rfl⟩ := progress
    obtain ⟨pieces, last⟩ := exists_pieces s.buffersToWrite
    exact partly taken before last List.nil_prefix fun idle => idle.1 place
  | writing next =>
    simp only [Progress, place] at progress
    obtain ⟨front, batch, taken, before, last⟩ := progress
    exact partly taken before last (List.prefix_append _ _) fun idle => idle.2 next place
  | _ =>
    have idle : s.Idle := idle_at place rfl
    obtain ⟨before, rfl⟩ := idle.progress.mp progress
    refine ⟨_, done.map List.flatten, calls, whole before, ?_, fun _ => ?_⟩
    all_goals rw [List.append_nil, flat]

/-! ### What a step does for the file -/

def Writing (s : AsyncLogging) : Prop := ∃ next, s.func = .writing next

theorem Idle.quiet (h : s.Idle) : ¬ s.Writing := by
  rintro ⟨next, there⟩
  exact h.2 next there

structure Moves (s : AsyncLogging) (label : Label) (s' : AsyncLogging) : Prop where
  output : s'.output = s.output ++ s.calls label
  entered : s'.Entered ↔ s.Entered ∨ label = .enter
  writing : s'.Writing ∨ s.flushes label = true ∨ (¬ s.Writing ∧ s.calls label = [])
  calls : s.calls label = [] ∨ s'.Entered

theorem not_writing {place : FuncState} (h : s.func = place) (away : place.writes = false) : ¬ s.Writing := by
  rintro ⟨next, there⟩
  rw [← h, there] at away
  cases away

theorem entered_at {place : FuncState} (h : s.func = place) (inside : place.entered = true) : s.Entered := by
  constructor
  · intro there
    rw [← h, there] at inside
    cases inside
  · intro there
    rw [← h, there] at inside
    cases inside

theorem stays_moves (func : s'.func = s.func) (output : s'.output = s.output) (calls : s.calls label = [])
    (other : label ≠ .enter) : s.Moves label s' := by
  refine ⟨by rw [output, calls, List.append_nil], ?_, ?_, .inl calls⟩
  · unfold Entered
    rw [func]
    exact ⟨.inl, fun h => h.resolve_right other⟩
  · by_cases writing : s.Writing
    · exact .inl (by unfold Writing; rw [func]; exact writing)
    · exact .inr (.inr ⟨writing, calls⟩)

theorem thread_moves {place place' : FuncState} (before : s.func = place) (after : s'.func = place')
    (output : s'.output = s.output ++ s.calls label)
    (entered : place.entered = true ∧ place'.entered = true)
    (writing : s'.Writing ∨ s.flushes label = true ∨ (¬ s.Writing ∧ s.calls label = [])) : s.Moves label s' := by
  have inside := entered_at before entered.1
  have inside' := entered_at after entered.2
  exact ⟨output, ⟨fun _ => .inl inside, fun _ => inside'⟩, writing, .inr inside'⟩


theorem collect_moves (inv : s.Inv) (place : s.Collecting) (calls : s.calls label = []) : s.Moves label s.collect := by
  obtain ⟨_, result, _⟩ := collect_eq inv place
  have output : s.collect.output = s.output ++ s.calls label := by rw [result, calls, List.append_nil]
  have after : s.collect.func = .collected := by rw [result]
  have quiet := (Collecting.idle place).quiet
  rcases place with cycle | waiting
  · exact thread_moves cycle after output ⟨rfl, rfl⟩ (.inr (.inr ⟨quiet, calls⟩))
  · exact thread_moves waiting after output ⟨rfl, rfl⟩ (.inr (.inr ⟨quiet, calls⟩))

theorem step_moves (inv : s.Inv) (short : Short s label) (step : s.step label = some (.ok s')) : s.Moves label s' := by
  cases label with
  | append logline =>
    obtain ⟨result, ran, _, frame⟩ := append_spec inv short
    obtain rfl := Except.ok.inj (ran.symm.trans (Option.some.inj step))
    exact stays_moves (by rw [frame]) (by rw [frame]) rfl (fun same => by cases same)
  | start =>
    obtain ⟨place, step⟩ := Option.ite_none_right_eq_some.mp step
    obtain rfl := Except.ok.inj (Option.some.inj step)
    refine ⟨(List.append_nil _).symm, ⟨fun h => absurd rfl h.2, ?_⟩, .inr (.inr ⟨not_writing place rfl, rfl⟩),
      .inl rfl⟩
    rintro (⟨started, _⟩ | other)
    · exact absurd place started
    · cases other
  | enter =>
    obtain ⟨place, step⟩ := Option.ite_none_right_eq_some.mp step
    obtain ⟨result, ran, _, frame⟩ := enter_spec inv place
    obtain rfl := Except.ok.inj (ran.symm.trans (Option.some.inj step))
    rw [frame]
    exact ⟨(List.append_nil _).symm, ⟨fun _ => .inr rfl, fun _ => entered_at rfl rfl⟩,
      .inr (.inr ⟨not_writing place rfl, rfl⟩), .inl rfl⟩
  | test =>
    obtain ⟨place, step⟩ := Option.ite_none_right_eq_some.mp step
    obtain rfl := Except.ok.inj (Option.some.inj step)
    have quiet := not_writing place rfl
    cases running : s.running with
    | true =>
      have after : s.test.func = .cycle := by simp [test, running]
      exact thread_moves place after (List.append_nil _).symm ⟨rfl, rfl⟩ (.inr (.inr ⟨quiet, rfl⟩))
    | false =>
      have after : s.test.func = .exited := by simp [test, running]
      exact thread_moves place after (List.append_nil _).symm ⟨rfl, rfl⟩ (.inr (.inr ⟨quiet, rfl⟩))
  | lock =>
    obtain ⟨place, step⟩ := Option.ite_none_right_eq_some.mp step
    obtain ⟨result, ran, _, collected | waits⟩ := lock_spec inv place
    · obtain rfl := Except.ok.inj (ran.symm.trans (Option.some.inj step))
      rw [collected]
      exact collect_moves inv (.inl place) rfl
    · obtain rfl := Except.ok.inj (ran.symm.trans (Option.some.inj step))
      rw [waits]
      exact thread_moves place rfl (List.append_nil _).symm ⟨rfl, rfl⟩
        (.inr (.inr ⟨not_writing place rfl, rfl⟩))
  | wake =>
    obtain ⟨place, step⟩ := Option.ite_none_right_eq_some.mp step
    obtain rfl := Except.ok.inj (Option.some.inj step)
    exact collect_moves inv (.inr place) rfl
  | drop now =>
    obtain ⟨place, step⟩ := Option.ite_none_right_eq_some.mp step
    have ran := Option.some.inj step
    unfold drop at ran
    split at ran
    · cases ran
    · split at ran
      · rename_i many
        obtain rfl := Except.ok.inj ran
        exact thread_moves place rfl (by rw [calls, if_pos many]) ⟨rfl, rfl⟩ (.inl ⟨0, rfl⟩)
      · rename_i few
        obtain rfl := Except.ok.inj ran
        exact thread_moves place rfl (by rw [calls, if_neg few, List.append_nil]) ⟨rfl, rfl⟩
          (.inl ⟨0, rfl⟩)
  | write =>
    obtain ⟨next, ptr, place, found, result⟩ := write_enabled step
    cases ptr with
    | none => cases result
    | some b =>
      obtain rfl := Except.ok.inj result
      exact thread_moves place rfl (by simp [calls, place, found]) ⟨rfl, rfl⟩ (.inl ⟨next + 1, rfl⟩)
  | recycle =>
    obtain ⟨place, step⟩ := Option.ite_none_right_eq_some.mp step
    obtain ⟨result, ran, _, frame⟩ := recycle_spec inv place
    obtain rfl := Except.ok.inj (ran.symm.trans (Option.some.inj step))
    rw [frame]
    exact thread_moves place rfl (List.append_nil _).symm ⟨rfl, rfl⟩ (.inr (.inl rfl))
  | stopCall =>
    obtain ⟨_, step⟩ := Option.ite_none_right_eq_some.mp step
    obtain rfl := Except.ok.inj (Option.some.inj step)
    exact stays_moves rfl rfl rfl (fun same => by cases same)
  | stopClear =>
    obtain ⟨_, _, result⟩ := stopClear_enabled step
    obtain rfl := Except.ok.inj result
    exact stays_moves rfl rfl rfl (fun same => by cases same)
  | stopNotify =>
    obtain ⟨_, _, result⟩ := stopNotify_enabled step
    obtain rfl := Except.ok.inj result
    exact stays_moves rfl rfl rfl (fun same => by cases same)
  | stopJoin =>
    obtain ⟨_, _, _, result⟩ := stopJoin_enabled step
    obtain rfl := Except.ok.inj result
    exact stays_moves rfl rfl rfl (fun same => by cases same)

end AsyncLogging

namespace LogFile

variable {strftime : Int → List UInt8} {l : LogFile}

/-- In the order of opening. -/
def files (l : LogFile) : List AppendFile := l.closed ++ l.file.toList

/-- The stream of the current file is empty. -/
def Settled (l : LogFile) : Prop := ∀ f, l.file = some f → f.buffer = []

theorem append_ok {answers : Nat → Fwrite} {now : Int} (h : Kept strftime l) (logline : LogLine) (tid : Nat)
    (positive : 0 < now) (success : ∀ k, 0 < (answers k).count) :
    ∃ l', l.append strftime logline answers now tid = .ok l' ∧ Kept strftime l' ∧ l'.lines = l.lines ++ [logline] := by
  obtain ⟨f, stamps, parts, inv⟩ := id h
  have ran : ∃ l', l.append strftime logline answers now tid = .ok l' ∧ l'.lines = l.lines ++ [logline] := by
    unfold LogFile.append
    rw [inv.file]
    dsimp only
    refine ⟨_, rfl, ?_⟩
    split
    · unfold rollFile
      dsimp only
      split
      · rfl
      · rfl
    · rfl
  obtain ⟨l', ran, lines⟩ := ran
  exact ⟨l', ran, append_kept h positive success ran, lines⟩

theorem flush_ok (h : Kept strftime l) :
    ∃ l', l.flush = .ok l' ∧ Kept strftime l' ∧ l'.lines = l.lines ∧ l'.Settled := by
  obtain ⟨f, stamps, parts, inv⟩ := id h
  have ran : l.flush = .ok { l with file := some f.flush } := by rw [LogFile.flush, inv.file]
  refine ⟨_, ran, flush_kept h ran, rfl, ?_⟩
  intro g current
  obtain rfl := Option.some.inj current
  rfl

theorem make_fresh (strftime : Int → List UInt8) (basename : List UInt8) (rollSize tid : Nat) {now : Int}
    (positive : 0 < now) :
    (make strftime basename rollSize now tid).lines = [] ∧ (make strftime basename rollSize now tid).Settled := by
  have first : (make strftime basename rollSize now tid).file =
      some { filename := getLogFileName strftime basename now tid } := by
    simp only [make, rollFile, positive, if_true]
  refine ⟨?_, fun f current => ?_⟩
  · simp only [make, rollFile, positive, if_true]
  · rw [first] at current
    obtain rfl := Option.some.inj current
    rfl

end LogFile

namespace LogPipeline

variable {strftime : Int → List UInt8} {basename : List UInt8} {rollSize : Nat} {s : LogPipeline} {label : Label}

theorem appendAll_spec {answers : FileAnswers} {l : LogFile} (h : LogFile.Kept strftime l) (calls : List LogCall)
    (positive : 0 < answers.now) (success : ∀ k, 0 < (answers.fwrite k).count) :
    ∃ l', appendAll strftime answers calls l = .ok l' ∧ LogFile.Kept strftime l' ∧
      l'.lines = l.lines ++ calls.map LogCall.bytes ∧ (calls = [] → l' = l) := by
  induction calls generalizing l with
  | nil => exact ⟨l, rfl, h, (List.append_nil _).symm, fun _ => rfl⟩
  | cons call rest ih =>
    obtain ⟨l₁, ran, kept, lines⟩ := LogFile.append_ok h call.bytes answers.tid positive success
    obtain ⟨l', ran', kept', lines', _⟩ := ih kept
    refine ⟨l', ?_, kept', ?_, fun none => by cases none⟩
    · rw [appendAll, ran]
      exact ran'
    · rw [lines', lines, List.append_assoc]
      rfl

theorem toFile_spec {logging : AsyncLogging} {l : LogFile} (h : LogFile.Kept strftime l)
    (working : Working ⟨logging, some l⟩ label) :
    ∃ l', toFile strftime logging label l = .ok l' ∧ LogFile.Kept strftime l' ∧
      l'.lines = l.lines ++ (logging.calls label.thread).map LogCall.bytes ∧
      (logging.flushes label.thread = true ∨ logging.calls label.thread = [] ∧ l.Settled → l'.Settled) := by
  obtain ⟨_, positive, success⟩ := working
  obtain ⟨l₁, ran, kept, lines, same⟩ := appendAll_spec h (logging.calls label.thread) positive success
  unfold toFile
  rw [ran, Lib.ok_bind]
  split
  · obtain ⟨l', flushed, kept', lines', settled⟩ := LogFile.flush_ok kept
    exact ⟨l', flushed, kept', lines'.trans lines, fun _ => settled⟩
  · rename_i unflushed
    refine ⟨l₁, rfl, kept, lines, ?_⟩
    rintro (flushed | ⟨none, settled⟩)
    · exact absurd flushed unflushed
    · rw [same none]
      exact settled

/-- `output` has got what the calls passed to it, and is flushed unless the thread writes. -/
structure Agrees (strftime : Int → List UInt8) (logging : AsyncLogging) (l : LogFile) : Prop where
  kept : LogFile.Kept strftime l
  lines : l.lines = logging.output.map LogCall.bytes
  settled : ¬ logging.Writing → l.Settled

structure Inv (strftime : Int → List UInt8) (s : LogPipeline) : Prop where
  logging : s.logging.Inv
  logged : s.logging.Logged
  opened : s.logging.Entered → ∃ l, s.output = some l ∧ Agrees strftime s.logging l
  unopened : ¬ s.logging.Entered → s.output = none ∧ s.logging.output = []

theorem initial_inv : Inv strftime {} := by
  refine ⟨AsyncLogging.initial_inv, ⟨[], [], rfl, .nil, rfl⟩, fun entered => absurd rfl entered.1, fun _ => ⟨rfl, rfl⟩⟩

theorem nextOutput_spec (basename : List UInt8) (rollSize : Nat) {logging : AsyncLogging} (h : Inv strftime s)
    (working : Working s label) (moves : s.logging.Moves label.thread logging) :
    ∃ output, s.nextOutput strftime basename rollSize label = .ok output ∧
      (logging.Entered → ∃ l, output = some l ∧ Agrees strftime logging l) ∧
      (¬ logging.Entered → output = none ∧ logging.output = []) := by
  unfold nextOutput
  by_cases entered : s.logging.Entered
  · obtain ⟨l, current, agrees⟩ := h.opened entered
    have working' : Working ⟨s.logging, some l⟩ label := working
    obtain ⟨l', ran, kept, lines, settled⟩ := toFile_spec agrees.kept working'
    rw [current]
    dsimp only
    rw [ran]
    refine ⟨some l', rfl, fun _ => ⟨l', rfl, kept, ?_, fun quiet => ?_⟩, fun outside => ?_⟩
    · rw [lines, agrees.lines, moves.output, List.map_append]
    · rcases moves.writing with writing | flushed | ⟨quiet', none⟩
      · exact absurd writing quiet
      · exact settled (.inl flushed)
      · exact settled (.inr ⟨none, agrees.settled quiet'⟩)
    · exact absurd (moves.entered.mpr (.inl entered)) outside
  · obtain ⟨unopened, silent⟩ := h.unopened entered
    rw [unopened]
    dsimp only
    by_cases enter : label.thread = .enter
    · rw [if_pos enter]
      obtain ⟨lines, settled⟩ := LogFile.make_fresh strftime basename rollSize label.answers.tid working.2.1
      have output : logging.output = [] := by
        rw [moves.output, silent, enter]
        rfl
      refine ⟨_, rfl, fun _ => ⟨_, rfl, LogFile.make_kept working.2.1, ?_, fun _ => settled⟩, fun outside => ?_⟩
      · rw [lines, output]
        rfl
      · exact absurd (moves.entered.mpr (.inr enter)) outside
    · rw [if_neg enter]
      have outside : ¬ logging.Entered := by
        intro inside
        rcases moves.entered.mp inside with before | now
        · exact entered before
        · exact enter now
      refine ⟨none, rfl, fun inside => absurd inside outside, fun _ => ⟨rfl, ?_⟩⟩
      rw [moves.output, silent, moves.calls.resolve_right outside]
      rfl

theorem step_spec {result : Except Fault LogPipeline} (h : Inv strftime s) (working : Working s label)
    (step : s.step strftime basename rollSize label = some result) : ∃ s', result = .ok s' ∧ Inv strftime s' := by
  obtain ⟨thread, ran, rfl⟩ := Option.map_eq_some_iff.mp step
  obtain ⟨logging, rfl, inv, _⟩ := AsyncLogging.step_spec h.logging working.1 ran
  obtain ⟨output, next, opened, unopened⟩ :=
    nextOutput_spec basename rollSize h working (AsyncLogging.step_moves h.logging working.1 ran)
  refine ⟨{ logging, output }, ?_, inv, AsyncLogging.step_logged h.logging h.logged working.1 ran, opened, unopened⟩
  rw [next]
  rfl

theorem reachable_inv (h : (logPipeline strftime basename rollSize).Reachable Working s) : Inv strftime s := by
  apply h.invariant
  · rintro _ rfl
    exact initial_inv
  · intro a label b _ inv working step
    obtain ⟨s', same, inv'⟩ := step_spec inv working step
    obtain rfl := Except.ok.inj same
    exact inv'

/-! ### Runs -/

/-- What is cut behind a map can be cut before it. -/
theorem exists_cut {α β : Type} {g : α → β} {xs : List α} {parts : List (List β)} (h : parts.flatten = xs.map g) :
    ∃ cut : List (List α), cut.flatten = xs ∧ cut.map (List.map g) = parts := by
  induction parts generalizing xs with
  | nil => exact ⟨[], (List.map_eq_nil_iff.mp h.symm).symm, rfl⟩
  | cons part rest ih =>
    obtain ⟨front, back, rfl, first, last⟩ := List.map_eq_append_iff.mp h.symm
    obtain ⟨cut, flat, mapped⟩ := ih last.symm
    exact ⟨front :: cut, by rw [List.flatten_cons, flat], by rw [List.map_cons, first, mapped]⟩

theorem Agrees.files {logging : AsyncLogging} {l : LogFile} (h : Agrees strftime logging l)
    {pieces : List (List LogLine)} (calls : logging.output.map LogCall.bytes = pieces.map List.flatten) :
    ∃ parts : List (List LogLine), l.files.map AppendFile.contents = parts.map List.flatten ∧
      parts.flatten = pieces.flatten ∧ (l.files.map AppendFile.disk).flatten <+: parts.flatten.flatten ∧
      (¬ logging.Writing → ∀ f ∈ l.files, f.disk = f.contents) := by
  obtain ⟨f, stamps, chunks, inv⟩ := h.kept
  obtain ⟨cut, flat, mapped⟩ := exists_cut (inv.lines.trans (h.lines.trans calls))
  have files : l.files = l.closed ++ [f] := by
    rw [LogFile.files, inv.file]
    rfl
  have contents : l.files.map AppendFile.contents = (cut.map List.flatten).map List.flatten := by
    rw [files, inv.contents, ← mapped, List.map_map, List.map_map]
    exact List.map_congr_left fun part _ => List.flatten_flatten.symm
  have flushed : ∀ g ∈ l.closed, g.disk = g.contents := by
    intro g member
    rw [AppendFile.contents, inv.flushed g member, List.append_nil]
  refine ⟨cut.map List.flatten, contents, ?_, ?_, ?_⟩
  · rw [← List.flatten_flatten, flat]
  · have total : (cut.map List.flatten).flatten.flatten = (l.files.map AppendFile.contents).flatten := by
      rw [contents]
      exact List.flatten_flatten
    rw [total, files, List.map_append, List.map_append, List.flatten_append, List.flatten_append,
      List.map_congr_left flushed]
    simp [AppendFile.contents]
  · intro quiet g member
    rw [files] at member
    rcases List.mem_append.mp member with closed | last
    · exact flushed g closed
    · obtain rfl := List.mem_singleton.mp last
      rw [AppendFile.contents, h.settled quiet g inv.file, List.append_nil]

theorem Inv.files {l : LogFile} (h : Inv strftime s) (opened : s.output = some l) :
    ∃ parts batches : List (List LogLine),
      l.files.map AppendFile.contents = parts.map List.flatten ∧
      List.Forall₂ AsyncLogging.BatchLines s.logging.taken batches ∧ parts.flatten <+: batches.flatten ∧
      (l.files.map AppendFile.disk).flatten <+: parts.flatten.flatten ∧
      (s.logging.Idle → parts.flatten = batches.flatten ∧ ∀ f ∈ l.files, f.disk = f.contents) := by
  have entered : s.logging.Entered := by
    by_contra outside
    rw [(h.unopened outside).1] at opened
    cases opened
  obtain ⟨l', same, agrees⟩ := h.opened entered
  obtain rfl := Option.some.inj (same.symm.trans opened)
  obtain ⟨pieces, batches, calls, cycles, front, idle⟩ := h.logged.batches
  obtain ⟨parts, contents, flat, disk, settled⟩ := agrees.files calls
  refine ⟨parts, batches, contents, cycles, flat ▸ front, disk, fun quiet => ⟨flat.trans (idle quiet), ?_⟩⟩
  exact settled quiet.quiet

/-- The files hold what the logging thread writes of its batches: every line whole in one file and in the order of the
lock, and a notice before the first two buffers of a batch of more than 25. What is on the disk is always a front part of
that, and all of it while the thread has nothing to write. No assertion fails. -/
theorem files_hold_lines (h : (logPipeline strftime basename rollSize).Reachable Working s) {l : LogFile}
    (opened : s.output = some l) :
    (∃ parts batches : List (List LogLine),
      l.files.map AppendFile.contents = parts.map List.flatten ∧
      List.Forall₂ AsyncLogging.BatchLines s.logging.taken batches ∧ parts.flatten <+: batches.flatten ∧
      (l.files.map AppendFile.disk).flatten <+: parts.flatten.flatten ∧
      (s.logging.Idle → parts.flatten = batches.flatten ∧ ∀ f ∈ l.files, f.disk = f.contents)) ∧
    s.logging.takenLines ++ (s.logging.buffers ++ [s.logging.currentBuffer]).flatMap AsyncLogging.lines =
      s.logging.appended ∧
    ∀ label fault, Working s label → (logPipeline strftime basename rollSize).step s label ≠ some (.error fault) := by
  have inv := reachable_inv h
  refine ⟨inv.files opened, ?_, ?_⟩
  · rw [AsyncLogging.takenLines, ← List.flatMap_append, ← List.append_assoc]
    exact inv.logging.lines
  · intro label fault working step
    obtain ⟨s', ok, _⟩ := step_spec inv working step
    cases ok

/-- Each `fwrite` takes two bytes and passes them on; it is 2023. -/
def twoBytes : FileAnswers := ⟨fun _ => ⟨2, 2⟩, 1700000000, 7⟩

theorem twoBytes_steps {labels : List AsyncLogging.Label} (short : ∀ thread ∈ labels, AsyncLogging.Short {} thread)
    {t : LogPipeline} (ran : (logPipeline strftime basename rollSize).exec Lib.Machine.anyStep s
      (labels.map fun thread => ⟨thread, twoBytes⟩) = some t) :
    (logPipeline strftime basename rollSize).Steps Working s t := by
  refine Lib.Machine.exec_allowed ?_ ran
  intro label member a
  obtain ⟨thread, listed, rfl⟩ := List.mem_map.mp member
  exact ⟨short thread listed, show 0 < twoBytes.now by decide, fun _ => Nat.zero_lt_two⟩

/-- Two lines are written, and a third one is in the current buffer. -/
theorem files_hold_lines_twice :
    ∃ s l, (logPipeline LogFile.twoSeconds (literal "log") 1000).Reachable Working s ∧ s.output = some l ∧
      (s.logging.func = .test ∧ s.logging.appended = [[1, 2, 3], [4], [5]]) ∧
      ∃ parts : List (List LogLine), l.files.map AppendFile.contents = parts.map List.flatten ∧
        ∀ f ∈ l.files, f.disk = f.contents := by
  let labels : List AsyncLogging.Label :=
    [.start, .enter, .append [1, 2, 3], .test, .lock, .append [4], .wake, .drop "", .write, .append [5], .recycle]
  obtain ⟨s, l, ran, opened, state⟩ : ∃ s l,
      (logPipeline LogFile.twoSeconds (literal "log") 1000).exec Lib.Machine.anyStep {}
        (labels.map fun thread => ⟨thread, twoBytes⟩) = some s ∧
      s.output = some l ∧ (s.logging.func = .test ∧ s.logging.appended = [[1, 2, 3], [4], [5]]) :=
    ⟨_, _, rfl, rfl, rfl, rfl⟩
  have reachable : (logPipeline LogFile.twoSeconds (literal "log") 1000).Reachable Working s :=
    ⟨{}, rfl, twoBytes_steps (by decide) ran⟩
  have idle : s.logging.Idle := AsyncLogging.idle_at state.1 rfl
  obtain ⟨⟨parts, _, contents, _, _, _, settled⟩, _⟩ := files_hold_lines reachable opened
  exact ⟨s, l, reachable, opened, state, parts, contents, (settled idle).2⟩

/-! ### `stop` -/

/-- The logging part of a step of the pipeline is one of `asyncLogging`. -/
theorem step_logging {s' : LogPipeline} (step : (logPipeline strftime basename rollSize).step s label = some (.ok s')) :
    asyncLogging.step s.logging label.thread = some (.ok s'.logging) := by
  obtain ⟨thread, ran, result⟩ := Option.map_eq_some_iff.mp step
  obtain ⟨logging, same, result⟩ := Lib.bind_ok result
  obtain ⟨output, _, result⟩ := Lib.bind_ok result
  obtain rfl := Except.ok.inj result
  cases thread with
  | error fault => cases same
  | ok a =>
    obtain rfl := Except.ok.inj same
    exact ran

theorem steps_logging {t : LogPipeline} (h : (logPipeline strftime basename rollSize).Steps Working s t) :
    asyncLogging.Steps AsyncLogging.Short s.logging t.logging := by
  refine h.project ?_
  intro a label b working step
  exact .single ⟨label.thread, working.1, step_logging step⟩

theorem reachable_logging (h : (logPipeline strftime basename rollSize).Reachable Working s) :
    asyncLogging.Reachable AsyncLogging.Short s.logging := by
  refine h.project ?_ ?_
  · rintro a rfl
    rfl
  · intro a label b working step
    exact .single ⟨label.thread, working.1, step_logging step⟩

/-- A cleared `running_` stays cleared, and what decides on the first `n` lines stays as it is. -/
theorem cleared_run {a b : AsyncLogging} {n : Nat} (h : asyncLogging.Reachable AsyncLogging.Short a)
    (cleared : a.Cleared n) (steps : asyncLogging.Steps AsyncLogging.Short a b) :
    b.Cleared n ∧ (b.Safe n ↔ a.Safe n) := by
  refine Lib.Machine.Steps.invariant (P := fun u => u.Cleared n ∧ (u.Safe n ↔ a.Safe n)) h ⟨cleared, Iff.rfl⟩ ?_ steps
  rintro c label d reached ⟨there, same⟩ short step
  have inv := AsyncLogging.reachable_inv reached
  obtain ⟨u, ran, _, effect⟩ := AsyncLogging.step_spec inv short step
  obtain rfl := Except.ok.inj ran
  obtain ⟨there', same'⟩ := AsyncLogging.effect_safe inv there effect
  exact ⟨there', same'.trans same⟩

theorem few_lines {taken : List (List BufferPtr)} {batches : List (List LogLine)}
    (few : ∀ batch ∈ taken, batch.length ≤ 25) (h : List.Forall₂ AsyncLogging.BatchLines taken batches) :
    batches.flatten = taken.flatten.flatMap AsyncLogging.lines := by
  induction h with
  | nil => rfl
  | @cons batch written rest others lines _ ih =>
    unfold AsyncLogging.BatchLines at lines
    rw [if_neg (Nat.not_lt.mpr (few batch List.mem_cons_self))] at lines
    rw [List.flatten_cons, List.flatten_cons, List.flatMap_append, lines,
      ih fun other member => few other (List.mem_cons_of_mem _ member)]

/-- A `stop` that finds the thread in a cycle and before its swap, or these lines taken, returns with them on the disk,
whole and in order, if no cycle takes more than 25 buffers. -/
theorem stop_leaves_on_disk {s₁ t : LogPipeline} {answers : FileAnswers} {n : Nat}
    (h : (logPipeline strftime basename rollSize).Reachable Working s)
    (clear : (logPipeline strftime basename rollSize).step s ⟨.stopClear, answers⟩ = some (.ok s₁))
    (working : Working s ⟨.stopClear, answers⟩) (rest : (logPipeline strftime basename rollSize).Steps Working s₁ t)
    (returned : t.logging.stopping = .returned n) (safe : s.logging.Safe n)
    (few : ∀ batch ∈ t.logging.taken, batch.length ≤ 25) :
    ∃ l, t.output = some l ∧ ∃ parts : List (List LogLine), l.files.map AppendFile.disk = parts.map List.flatten ∧
      t.logging.appended.take n <+: parts.flatten ∧ parts.flatten <+: t.logging.appended := by
  have reached : (logPipeline strftime basename rollSize).Reachable Working t := (h.next working clear).steps rest
  have inv := reachable_inv reached
  obtain ⟨m, called, result⟩ := AsyncLogging.stopClear_enabled (step_logging clear)
  have cleared : s₁.logging.Cleared m := by
    rw [Except.ok.inj result]
    exact ⟨rfl, (reachable_inv h).logging.before m called, .inl rfl⟩
  have same : s₁.logging.Safe n ↔ s.logging.Safe n := by
    rw [Except.ok.inj result]
    exact Iff.rfl
  obtain ⟨⟨_, before, stopping⟩, kept⟩ :=
    cleared_run (reachable_logging (h.next working clear)) cleared (steps_logging rest)
  obtain ⟨rfl, exited⟩ : n = m ∧ t.logging.func = .exited := by simpa [returned] using stopping
  have idle : t.logging.Idle := AsyncLogging.idle_at exited rfl
  have taken : n ≤ t.logging.takenLines.length :=
    (kept.mpr (same.mpr safe)).resolve_left (AsyncLogging.exited_not_collecting exited)
  obtain ⟨l, opened, _⟩ := inv.opened (AsyncLogging.entered_at exited rfl)
  obtain ⟨parts, batches, contents, cycles, _, _, settled⟩ := inv.files opened
  obtain ⟨all, disk⟩ := settled idle
  have written : parts.flatten = t.logging.takenLines := all.trans (few_lines few cycles)
  have front := AsyncLogging.takenLines_front inv.logging
  refine ⟨l, opened, parts, ?_, ?_, by rw [written]; exact front⟩
  · rw [List.map_congr_left disk]
    exact contents
  · rw [written]
    refine List.prefix_of_prefix_length_le (List.take_prefix _ _) front ?_
    rw [List.length_take, Nat.min_eq_left before]
    exact taken

/-- The thread is in `waitForSeconds` when `running_` is cleared. -/
theorem stop_leaves_on_disk_waiting :
    ∃ t l, (logPipeline LogFile.twoSeconds (literal "log") 1000).Reachable Working t ∧ t.output = some l ∧
      t.logging.stopping = .returned 1 ∧
      ∃ parts : List (List LogLine), l.files.map AppendFile.disk = parts.map List.flatten ∧
        t.logging.appended.take 1 <+: parts.flatten := by
  obtain ⟨s, s₁, t, first, clear, last, waiting, returned, few⟩ : ∃ s s₁ t,
      (logPipeline LogFile.twoSeconds (literal "log") 1000).exec Lib.Machine.anyStep {}
        (([.start, .enter, .test, .lock, .append [120], .stopCall] : List AsyncLogging.Label).map
          fun thread => ⟨thread, twoBytes⟩) = some s ∧
      (logPipeline LogFile.twoSeconds (literal "log") 1000).step s ⟨.stopClear, twoBytes⟩ = some (.ok s₁) ∧
      (logPipeline LogFile.twoSeconds (literal "log") 1000).exec Lib.Machine.anyStep s₁
        (([.stopNotify, .wake, .drop "", .write, .recycle, .test, .stopJoin] : List AsyncLogging.Label).map
          fun thread => ⟨thread, twoBytes⟩) = some t ∧
      s.logging.func = .waiting ∧ t.logging.stopping = .returned 1 ∧ ∀ batch ∈ t.logging.taken, batch.length ≤ 25 :=
    ⟨_, _, _, rfl, rfl, rfl, rfl, rfl, by decide⟩
  have reachable : (logPipeline LogFile.twoSeconds (literal "log") 1000).Reachable Working s :=
    ⟨{}, rfl, twoBytes_steps (by decide) first⟩
  have steps := twoBytes_steps (by decide) last
  have working : Working s ⟨.stopClear, twoBytes⟩ :=
    ⟨trivial, show 0 < twoBytes.now by decide, fun _ => Nat.zero_lt_two⟩
  obtain ⟨l, opened, parts, disk, front, _⟩ :=
    stop_leaves_on_disk reachable clear working steps returned (.inl (.inr waiting)) few
  exact ⟨t, l, (reachable.next working clear).steps steps, opened, returned, parts, disk, front⟩

end LogPipeline

end Dserver
