import Dserver.Base.StreamContents

/-!
# `Logger`

A record is what the constructor, the user and `finish` insert in one stream. The newline is the last insertion of
`finish`, and is left out like any other when there is no room.
-/

namespace Dserver

inductive LogLevel where
  | TRACE | DEBUG | INFO | WARN | ERROR | FATAL
  deriving DecidableEq, Repr

def LogLevelName : LogLevel → List UInt8
  | .TRACE => literal "TRACE "
  | .DEBUG => literal "DEBUG "
  | .INFO => literal "INFO  "
  | .WARN => literal "WARN  "
  | .ERROR => literal "ERROR "
  | .FATAL => literal "FATAL "

/-- The part of a path behind its last slash; `size_` is an `int`. -/
structure SourceFile where
  data : List UInt8
  size_fits : data.length < 2 ^ 31

def SourceFile.make (path : List UInt8) (fits : path.length < 2 ^ 31) : SourceFile where
  data := (path.reverse.takeWhile (· != 47)).reverse
  size_fits := by
    rw [List.length_reverse]
    exact Nat.lt_of_le_of_lt (List.takeWhile_sublist _).length_le (by rw [List.length_reverse]; exact fits)

/-- What the constructor of a `Logger` reads: the clock as `t_time` and microseconds, the thread, the arguments, and for
the SYS levels `errno` with its text. -/
structure LogOrigin where
  time : List UInt8
  time_length : time.length = 17
  microseconds : Nat
  microseconds_lt : microseconds < 1000000
  tidString : List UInt8
  level : LogLevel
  savedErrno : Int
  savedErrno_least : -2 ^ 31 ≤ savedErrno
  savedErrno_greatest : savedErrno ≤ 2 ^ 31 - 1
  strerror : LogStream.CString
  file : SourceFile
  line : Int
  line_least : -2 ^ 31 ≤ line
  line_greatest : line ≤ 2 ^ 31 - 1
  func : Option LogStream.CString

namespace LogOrigin

def chars (text : String) (terminated : 0 ∉ literal text) : LogStream.Insertion :=
  .cstring (some ⟨literal text, terminated⟩)

def int (v : Int) (least : -2 ^ 31 ≤ v) (greatest : v ≤ 2 ^ 31 - 1) : LogStream.Integer := ⟨.int, v, least, greatest⟩

/-- `%06d`. -/
def sixDigits (n : Nat) : List UInt8 :=
  let digits := LogStream.decimal n
  List.replicate (6 - digits.length) 48 ++ digits

def formatTime (o : LogOrigin) : List LogStream.Insertion :=
  [.string o.time, .string (literal "." ++ sixDigits o.microseconds ++ literal "Z ")]

def insertions (o : LogOrigin) : List LogStream.Insertion :=
  o.formatTime ++ [.string o.tidString, .string (LogLevelName o.level)] ++
    (if o.savedErrno ≠ 0 then
      [.cstring (some o.strerror), chars " (errno=" (by decide),
        .integer (int o.savedErrno o.savedErrno_least o.savedErrno_greatest), chars ") " (by decide)]
    else []) ++
    match o.func with
    | some func => [.cstring (some func), .char 32]
    | none => []

end LogOrigin

structure Logger where
  stream : LogStream
  origin : LogOrigin

namespace Logger

/-- `data` is what the array of the new stream happens to hold. -/
def make (data : List UInt8) (o : LogOrigin) : Except LogStream.Fault Logger := do
  let stream ← (LogStream.new data).insertAll o.insertions
  .ok { stream, origin := o }

def log (l : Logger) (insertions : List LogStream.Insertion) : Except LogStream.Fault Logger := do
  let stream ← l.stream.insertAll insertions
  .ok { l with stream }

def finish (l : Logger) : Except LogStream.Fault LogStream :=
  l.stream.insertAll
    [LogOrigin.chars " - " (by decide), .string l.origin.file.data, .char 58,
      .integer (LogOrigin.int l.origin.line l.origin.line_least l.origin.line_greatest), .char 10]

/-- `~Logger`: the bytes that go to `g_output`, and whether the process is aborted. -/
def destroy (l : Logger) : Except LogStream.Fault (List UInt8 × Bool) := do
  let stream ← l.finish
  .ok (stream.contents, l.origin.level == .FATAL)

/-! ### The end of a record -/

open LogStream

/-- The number of bytes behind a text of `n` bytes. -/
def used (fill n : Nat) : Nat := if n < kSmallBuffer - fill then fill + n else fill

/-- The record ends a line: there is room for the colon and the newline behind `" - "` and the name of the file, or the
buffer is full by then and its last byte is a newline already. -/
def EndsLine (contents file : List UInt8) : Prop :=
  used (used contents.length 3) file.length < 3998 ∨
    (contents.length = 3999 ∧ contents.getLast? = some 10) ∨
    (used contents.length 3 + file.length = 3999 ∧ file.getLast? = some 10)

theorem text_added {s : LogStream} (h : s.Wf) {i : Insertion} (text : i.isNumber = false)
    (short : i.text.length < 2 ^ 31) :
    ∃ s', s.insert i = .ok s' ∧ s'.Wf ∧ s'.cur = used s.cur i.text.length ∧
      s'.contents = s.contents ++ if i.text.length < kSmallBuffer - s.cur then i.text else [] := by
  obtain ⟨s', ran, wf, contents⟩ := insert_spec h i
  rw [added_text text, RawBuffer.copied, toSize_toInt_of_lt short, List.take_length] at contents
  refine ⟨s', ran, wf, ?_, contents⟩
  rw [← wf.length_contents, contents, List.length_append, h.length_contents, used]
  by_cases room : i.text.length < kSmallBuffer - s.cur
  · rw [if_pos room, if_pos room]
  · rw [if_neg room, if_neg room, List.length_nil, Nat.add_zero]

theorem finish_front {l : Logger} (h : l.stream.Wf) :
    ∃ s, l.stream.insertAll [LogOrigin.chars " - " (by decide), .string l.origin.file.data] = .ok s ∧ s.Wf ∧
      s.cur = used (used l.stream.cur 3) l.origin.file.data.length ∧
      s.contents = l.stream.contents ++ (if 3 < kSmallBuffer - l.stream.cur then literal " - " else []) ++
        if l.origin.file.data.length < kSmallBuffer - used l.stream.cur 3 then l.origin.file.data else [] := by
  obtain ⟨s₁, ran₁, wf₁, cur₁, contents₁⟩ := text_added h (i := LogOrigin.chars " - " (by decide)) rfl (by decide)
  obtain ⟨s₂, ran₂, wf₂, cur₂, contents₂⟩ := text_added wf₁ (i := .string l.origin.file.data) rfl l.origin.file.size_fits
  have dash : (LogOrigin.chars " - " (by decide)).text = literal " - " := rfl
  have three : (literal " - ").length = 3 := rfl
  have file : (Insertion.string l.origin.file.data).text = l.origin.file.data := rfl
  rw [dash, three] at cur₁ contents₁
  rw [file, cur₁] at cur₂ contents₂
  refine ⟨s₂, ?_, wf₂, cur₂, by rw [contents₂, contents₁]⟩
  rw [insertAll_cons ran₁, insertAll_cons ran₂]
  rfl

theorem finish_back {s : LogStream} (h : s.Wf) (line : Integer) :
    ∃ s', s.insertAll [.char 58, .integer line, .char 10] = .ok s' ∧
      (s'.contents.getLast? = some 10 ↔ s.cur < 3998 ∨ (s.cur = 3999 ∧ s.contents.getLast? = some 10)) := by
  have lt := h.cur_lt
  have size : kSmallBuffer = 4000 := rfl
  have one : ∀ c, (Insertion.char c).text.length = 1 := fun _ => rfl
  obtain ⟨s₁, ran₁, wf₁, cur₁, contents₁⟩ := text_added h (i := .char 58) rfl (by decide)
  obtain ⟨s₂, ran₂, wf₂, contents₂⟩ := insert_spec wf₁ (.integer line)
  obtain ⟨s₃, ran₃, wf₃, cur₃, contents₃⟩ := text_added wf₂ (i := .char 10) rfl (by decide)
  have ran : s.insertAll [.char 58, .integer line, .char 10] = .ok s₃ := by
    rw [insertAll_cons ran₁, insertAll_cons ran₂, insertAll_cons ran₃]
    rfl
  refine ⟨s₃, ran, ?_⟩
  rw [one] at cur₁ contents₁ contents₃
  have short := decimal_short line
  have fill : s₂.cur = s₁.cur + ((Insertion.integer line).added s₁.cur).length := by
    rw [← wf₂.length_contents, contents₂, List.length_append, wf₁.length_contents]
  rw [added_number rfl] at contents₂ fill
  have number : (Insertion.integer line).text = decimal line.value := rfl
  rw [number] at contents₂ fill
  by_cases room : s.cur < 3998
  · -- the newline is inserted
    have behind : s₂.cur < 3999 := by
      rw [cur₁, used, if_pos (by omega)] at fill
      split at fill
      · omega
      · rw [List.length_nil] at fill
        omega
    rw [if_pos (by omega)] at contents₃
    rw [contents₃]
    exact iff_of_true (by simp [Insertion.text]) (.inl room)
  · have full : s₁.cur = 3999 := by
      rw [cur₁, used]
      split <;> omega
    rw [full, if_neg (by decide)] at fill contents₂
    rw [List.length_nil, Nat.add_zero] at fill
    rw [fill, if_neg (by decide)] at contents₃
    rw [contents₃, contents₂, List.append_nil, List.append_nil, contents₁]
    by_cases last : s.cur = 3999
    · rw [last, if_neg (by decide), List.append_nil]
      simp
    · rw [if_pos (by omega)]
      simp [Insertion.text, room, last]

theorem used_full (n : Nat) : used 3999 n = 3999 := by
  have size : kSmallBuffer = 4000 := rfl
  unfold used
  split <;> omega

/-- Behind `" - "` a full buffer ends with a newline only when nothing was inserted. -/
theorem dash_last (contents : List UInt8) :
    (used contents.length 3 = 3999 ∧
        (contents ++ if 3 < kSmallBuffer - contents.length then literal " - " else []).getLast? = some 10) ↔
      contents.length = 3999 ∧ contents.getLast? = some 10 := by
  have size : kSmallBuffer = 4000 := rfl
  by_cases room : 3 < kSmallBuffer - contents.length
  · rw [if_pos room, List.getLast?_append, show (literal " - ").getLast? = some 32 from rfl, Option.some_or]
    refine iff_of_false (fun h => ?_) (fun h => by omega)
    exact absurd h.2 (by decide)
  · rw [used, if_neg room, if_neg room, List.append_nil]

theorem endsLine_iff {contents file front : List UInt8}
    (eq : front = contents ++ (if 3 < kSmallBuffer - contents.length then literal " - " else []) ++
      if file.length < kSmallBuffer - used contents.length 3 then file else []) :
    used (used contents.length 3) file.length < 3998 ∨
        (used (used contents.length 3) file.length = 3999 ∧ front.getLast? = some 10) ↔
      EndsLine contents file := by
  have size : kSmallBuffer = 4000 := rfl
  refine or_congr_right ?_
  by_cases room : file.length < kSmallBuffer - used contents.length 3
  · rw [if_pos room] at eq
    rw [used, if_pos room, eq, List.getLast?_append]
    cases last : file.getLast? with
    | none =>
      have none : file.length = 0 := by rw [List.getLast?_eq_none_iff.mp last, List.length_nil]
      rw [none, Nat.add_zero, Option.none_or, dash_last]
      exact (or_iff_left fun h => by cases h.2).symm
    | some c =>
      have some : file.length ≠ 0 := by
        intro zero
        rw [List.length_eq_zero_iff.mp zero] at last
        cases last
      rw [Option.some_or]
      refine (or_iff_right fun h => ?_).symm
      rw [h.1, used_full] at room
      omega
  · rw [if_neg room, List.append_nil] at eq
    rw [used, if_neg room, eq, dash_last]
    exact (or_iff_left fun h => by omega).symm

theorem destroy_spec {l : Logger} (h : l.stream.Wf) :
    ∃ out, l.destroy = .ok (out, l.origin.level == .FATAL) ∧
      (out.getLast? = some 10 ↔ EndsLine l.stream.contents l.origin.file.data) := by
  obtain ⟨s, front, wf, cur, contents⟩ := finish_front h
  obtain ⟨s', back, ends⟩ := finish_back wf (LogOrigin.int l.origin.line l.origin.line_least l.origin.line_greatest)
  have ran : l.finish = .ok s' := (insertAll_append front).trans back
  refine ⟨s'.contents, by rw [destroy, ran]; rfl, ?_⟩
  rw [ends, cur, ← h.length_contents]
  rw [← h.length_contents] at contents
  exact endsLine_iff contents

/-- Whatever a user inserts, the record ends a line exactly when `EndsLine` says so of the stream before `~Logger`. -/
theorem record_ends_line {data : List UInt8} (size : data.length = kSmallBuffer) (o : LogOrigin)
    (insertions : List Insertion) :
    ∃ l l' out, make data o = .ok l ∧ l.log insertions = .ok l' ∧ l'.destroy = .ok (out, o.level == .FATAL) ∧
      (out.getLast? = some 10 ↔ EndsLine l'.stream.contents o.file.data) := by
  obtain ⟨s, opened, wf⟩ := insertAll_spec o.insertions (new_wf size)
  obtain ⟨s', logged, wf'⟩ := insertAll_spec insertions wf
  obtain ⟨out, destroyed, ends⟩ := destroy_spec (l := ⟨s', o⟩) wf'
  refine ⟨⟨s, o⟩, ⟨s', o⟩, out, ?_, ?_, destroyed, ends⟩
  · rw [make, opened]
    rfl
  · rw [log, logged]
    rfl

def infoOrigin : LogOrigin :=
  { time := literal "20240101 00:00:00", time_length := rfl, microseconds := 5, microseconds_lt := by decide
    tidString := literal " 1234 ", level := .INFO
    savedErrno := 0, savedErrno_least := by decide, savedErrno_greatest := by decide
    strerror := ⟨[], List.not_mem_nil⟩, file := .make (literal "src/a.cc") (by decide)
    line := 7, line_least := by decide, line_greatest := by decide, func := none }

theorem infoOrigin_contents {data text : List UInt8} {l l' : Logger} (size : data.length = kSmallBuffer)
    (short : text.length < 3962) (opened : make data infoOrigin = .ok l) (logged : l.log [.string text] = .ok l') :
    l'.stream.contents = literal "20240101 00:00:00.000005Z  1234 INFO  " ++ text := by
  obtain ⟨s, front, opened⟩ := Lib.bind_ok opened
  obtain rfl := Except.ok.inj opened
  obtain ⟨s', back, logged⟩ := Lib.bind_ok logged
  obtain rfl := Except.ok.inj logged
  have shorts : ∀ i ∈ infoOrigin.insertions, i.text.length < 2 ^ 31 := by decide
  have first : s.contents = literal "20240101 00:00:00.000005Z  1234 INFO  " :=
    insertAll_kept (new_wf size) shorts front
  obtain ⟨s₁, front', wf⟩ := insertAll_spec infoOrigin.insertions (new_wf size)
  obtain rfl := Except.ok.inj (front.symm.trans front')
  have cur : s.cur = 38 := by
    rw [← wf.length_contents, first]
    rfl
  have length : (Insertion.string text).text.length = text.length := rfl
  have room : (Insertion.string text).Room 38 := by
    rw [room_text rfl, length]
    exact short
  have second := insertAll_kept wf (fun i member => by
    rw [List.mem_singleton.mp member, length]
    exact Nat.lt_trans short (by decide)) back
  rw [cur, kept, if_pos room, kept, first] at second
  simpa [Insertion.text] using second

/-- A short record. -/
theorem record_ends_line_hello :
    ∃ l l' out, make (List.replicate 4000 0) infoOrigin = .ok l ∧ l.log [.string (literal "hello")] = .ok l' ∧
      l'.destroy = .ok (out, false) ∧ out.getLast? = some 10 := by
  have size : (List.replicate 4000 (0 : UInt8)).length = kSmallBuffer := List.length_replicate
  obtain ⟨l, l', out, opened, logged, destroyed, ends⟩ :=
    record_ends_line size infoOrigin [.string (literal "hello")]
  refine ⟨l, l', out, opened, logged, destroyed, ends.mpr (.inl ?_)⟩
  rw [infoOrigin_contents size (by decide) opened logged]
  decide

/-- The user's text fills the buffer, and nothing of `finish` is inserted. -/
theorem newline_lost :
    ∃ l l' out, make (List.replicate 4000 0) infoOrigin = .ok l ∧
      l.log [.string (List.replicate 3961 120)] = .ok l' ∧ l'.destroy = .ok (out, false) ∧
      out.getLast? ≠ some 10 := by
  have size : (List.replicate 4000 (0 : UInt8)).length = kSmallBuffer := List.length_replicate
  obtain ⟨s, front, wf⟩ := insertAll_spec infoOrigin.insertions (new_wf size)
  obtain ⟨s', back, wf'⟩ := insertAll_spec [.string (List.replicate 3961 120)] wf
  obtain ⟨out, destroyed, ends⟩ := destroy_spec (l := ⟨s', infoOrigin⟩) wf'
  have opened : make (List.replicate 4000 0) infoOrigin = .ok ⟨s, infoOrigin⟩ := by
    rw [make, front]
    rfl
  have logged : log ⟨s, infoOrigin⟩ [.string (List.replicate 3961 120)] = .ok ⟨s', infoOrigin⟩ := by
    rw [log, back]
    rfl
  refine ⟨_, _, out, opened, logged, destroyed, ?_⟩
  have contents := infoOrigin_contents size (by rw [List.length_replicate]; decide) opened logged
  have length : s'.contents.length = 3999 := by
    rw [contents, List.length_append, List.length_replicate]
    rfl
  have last : s'.contents.getLast? = some 120 := by
    rw [contents, List.getLast?_append, List.getLast?_replicate]
    rfl
  intro newline
  have closes : EndsLine s'.contents infoOrigin.file.data := ends.mp newline
  rw [EndsLine, length, last, used_full, used_full] at closes
  exact absurd closes (by decide)

end Logger

end Dserver
