import Dserver.Base.FormattedTime
import Dserver.Base.LogFiles
import Dserver.Base.Logging

/-!
# The times in a log

A log file is named by the second of its opening, and a record starts with the time of its making. Files and records are
in the order of these texts.
-/

namespace Dserver

/-! ### Names of files -/

namespace LogFile

variable {s : LogFile} {basename : List UInt8} {rollSize tid tid' : Nat} {now now' : Int}

/-- `Working`, and before the year 10000. -/
def Dating (s : LogFile) (label : Label) : Prop :=
  Working s label ∧
    match label with
    | .append _ _ now _ | .rollFile now _ => now < Lib.endOfYears
    | .flush => True

theorem getLogFileName_lt (dated : Dated now) (dated' : Dated now') (less : now < now') :
    getLogFileName strftime basename now tid < getLogFileName strftime basename now' tid' := by
  unfold getLogFileName
  simp only [List.append_assoc]
  apply List.append_left_lt
  refine Lib.append_lt_append ?_ (strftime_lt dated dated' less)
  rw [strftime_length dated, strftime_length dated']

theorem rollFile_lastRoll {bound : Int} (before : s.lastRoll < bound) (small : now < bound) :
    (s.rollFile strftime now tid).2.lastRoll < bound := by
  unfold rollFile
  dsimp only
  split
  · exact small
  · exact before

theorem step_lastRoll {s' : LogFile} {label : Label} (before : s.lastRoll < Lib.endOfYears) (dating : Dating s label)
    (step : (logFile strftime).step s label = some (.ok s')) : s'.lastRoll < Lib.endOfYears := by
  obtain ⟨_, small⟩ := dating
  cases label with
  | append logline answers now tid =>
    have ran := Option.some.inj step
    unfold LogFile.append at ran
    split at ran
    · cases ran
    · dsimp only at ran
      obtain rfl := Except.ok.inj ran
      split
      · exact rollFile_lastRoll before small
      · exact before
  | rollFile now tid =>
    obtain rfl := Except.ok.inj (Option.some.inj step)
    exact rollFile_lastRoll before small
  | flush =>
    have ran := Option.some.inj step
    unfold LogFile.flush at ran
    split at ran
    · cases ran
    · obtain rfl := Except.ok.inj ran
      exact before

theorem Inv.names_lt {f : AppendFile} {stamps : List (Int × Nat)} {parts : List (List LogLine)}
    (inv : Inv strftime s f stamps parts) (early : s.lastRoll < Lib.endOfYears) :
    (s.files.map AppendFile.filename).Pairwise (· < ·) := by
  have files : s.files = s.closed ++ [f] := by
    rw [LogFile.files, inv.file]
    rfl
  rw [files, inv.names, List.pairwise_map]
  refine inv.increasing.imp_of_mem fun {a b} first second less => ?_
  have dated : ∀ stamp ∈ stamps, Dated stamp.1 := by
    intro stamp member
    exact ⟨Int.le_of_lt (inv.positive stamp member), Int.lt_of_le_of_lt (inv.bounded stamp member) early⟩
  exact getLogFileName_lt (dated a first) (dated b second) less

theorem sorted_unique {files sorted : List AppendFile} (names : (files.map AppendFile.filename).Pairwise (· < ·))
    (same : sorted.Perm files) (order : sorted.Pairwise fun a b => a.filename ≤ b.filename) : sorted = files := by
  rw [List.pairwise_map] at names
  have apart : files.Pairwise fun a b => a.filename < b.filename ∨ b.filename < a.filename := names.imp .inl
  have weak : files.Pairwise fun a b => a.filename ≤ b.filename := names.imp fun less => List.lt_asymm less
  refine List.Perm.eq_of_pairwise ?_ order weak same
  intro a b first second below above
  by_contra other
  have symm : Std.Symm fun a b : AppendFile => a.filename < b.filename ∨ b.filename < a.filename := ⟨fun _ _ => Or.symm⟩
  rcases apart.forall (same.mem_iff.mp first) second other with less | more
  · exact above less
  · exact below more

/-- Until the year 10000 the names of the files are in the order of their opening, so that reading the files in the order
of their names gives the lines in the order in which they were appended. -/
theorem names_in_order (start : 0 < now) (early : now < Lib.endOfYears)
    (h : (logFile strftime).Steps Dating (make strftime basename rollSize now tid) s) :
    (s.files.map AppendFile.filename).Pairwise (· < ·) ∧
      ∀ sorted : List AppendFile, sorted.Perm s.files → sorted.Pairwise (fun a b => a.filename ≤ b.filename) →
        (sorted.map AppendFile.contents).flatten = s.lines.flatten := by
  have initial : (logFile strftime).Reachable Dating (make strftime basename rollSize now tid) :=
    .initial ⟨_, _, _, _, start, rfl⟩
  have last : s.lastRoll < Lib.endOfYears := by
    refine h.invariant (P := fun t => t.lastRoll < Lib.endOfYears) initial ?_ ?_
    · exact rollFile_lastRoll (show (0 : Int) < Lib.endOfYears by decide) early
    · intro a label b _ before dating step
      exact step_lastRoll before dating step
  obtain ⟨f, stamps, parts, inv⟩ := reachable_kept ((initial.steps h).mono fun _ _ dating => dating.1)
  have names := inv.names_lt last
  refine ⟨names, fun sorted same order => ?_⟩
  have files : s.files = s.closed ++ [f] := by
    rw [LogFile.files, inv.file]
    rfl
  rw [sorted_unique names same order, files, inv.contents, ← inv.lines, List.flatten_flatten]

/-- A file is rolled in the second of its opening and in the next one. -/
theorem names_in_order_rolled :
    ∃ s, (logFile strftime).Steps Dating (make strftime (literal "log") 2 1700000000 7) s ∧
      (s.files.map AppendFile.filename = [literal "log.20231114-221320..7.log", literal "log.20231114-221321..8.log"] ∧
        s.lines = [[1, 2, 3], [4]]) ∧
      (s.files.map AppendFile.filename).Pairwise (· < ·) := by
  let answers : Nat → Fwrite := fun _ => ⟨2, 0⟩
  let labels : List Label := [.append [1, 2, 3] answers 1700000000 7, .append [4] answers 1700000001 8]
  obtain ⟨s, ran, names, lines⟩ : ∃ s, (logFile strftime).exec Lib.Machine.anyStep
      (make strftime (literal "log") 2 1700000000 7) labels = some s ∧
      s.files.map AppendFile.filename = [literal "log.20231114-221320..7.log", literal "log.20231114-221321..8.log"] ∧
      s.lines = [[1, 2, 3], [4]] :=
    ⟨_, rfl, by decide +kernel, rfl⟩
  have steps : (logFile strftime).Steps Dating (make strftime (literal "log") 2 1700000000 7) s := by
    refine Lib.Machine.exec_allowed ?_ ran
    intro label member a
    rcases List.mem_cons.mp member with rfl | later
    · exact ⟨⟨by decide, fun _ => Nat.zero_lt_two⟩, by decide⟩
    · obtain rfl := List.mem_singleton.mp later
      exact ⟨⟨by decide, fun _ => Nat.zero_lt_two⟩, by decide⟩
  exact ⟨s, steps, ⟨names, lines⟩, (names_in_order (by decide) (by decide) steps).1⟩

end LogFile

/-! ### Times of records -/

/-- `t_time` and `t_lastSecond`, which a thread keeps from one record to the next. -/
structure TimeCache where
  t_time : List UInt8 := []
  t_lastSecond : Int := 0
  deriving DecidableEq, Repr

namespace TimeCache

open Timestamp

/-- `assert(len == 17)`, and the assertion of `T` for `t_time` and for `buf_`. -/
inductive Fault where
  | len
  | time
  | buf
  deriving DecidableEq, Repr

/-- The part that is not written again within a second. -/
def update (c : TimeCache) (seconds : Int) : Except Fault TimeCache :=
  if seconds ≠ c.t_lastSecond then
    if (secondText seconds).length = 17 then .ok { t_time := secondText seconds, t_lastSecond := seconds }
    else .error .len
  else .ok c

def microText (microseconds : Int) : List UInt8 := literal "." ++ zeroPadded 6 microseconds ++ literal "Z "

/-- `Logger::Impl::formatTime`: the two texts that go to the stream. -/
def formatTime (c : TimeCache) (time : Timestamp) : Except Fault (TimeCache × List UInt8 × List UInt8) := do
  let c ← c.update (time.tdiv kMicroSecondsPerSecond)
  let buf := microText (time.tmod kMicroSecondsPerSecond)
  if c.t_time.length ≠ 17 then .error .time
  else if buf.length ≠ 9 then .error .buf
  else .ok (c, c.t_time, buf)

/-- The records of one thread. -/
def formatAll (c : TimeCache) : List Timestamp → Except Fault (List (List UInt8))
  | [] => .ok []
  | time :: rest => do
    let (c, seconds, micro) ← c.formatTime time
    let texts ← formatAll c rest
    .ok ((seconds ++ micro) :: texts)

/-- The time of a record by itself. -/
def stamp (time : Timestamp) : List UInt8 :=
  secondText (time.tdiv kMicroSecondsPerSecond) ++ microText (time.tmod kMicroSecondsPerSecond)

theorem secondText_late {seconds : Int} (late : Lib.endOfYears ≤ seconds) : (secondText seconds).length ≠ 17 := by
  have year := Lib.year_timeOf_late late
  obtain ⟨month, day, hour, minute, second⟩ := gmtime_digits seconds
  have wide : 4 < (blankPadded 4 ((gmtime_r seconds).tm_year + 1900)).length := by
    rw [gmtime_year, blankPadded, List.length_append, LogStream.decimal, if_neg (by omega), List.nil_append,
      Lib.numeral_length, Lib.lowDigits, if_neg (by omega)]
    have more : 4 < (Nat.digits 10 (Lib.timeOf seconds).date.year.natAbs).length :=
      (Nat.lt_digits_length_iff (by decide) _).mpr (by omega)
    omega
  have blank : (literal " ").length = 1 := rfl
  have colon : (literal ":").length = 1 := rfl
  unfold secondText
  dsimp only
  rw [month, day, hour, minute, second]
  simp only [List.length_append, Lib.fixedNumeral_length, blank, colon]
  omega

/-- `t_time` is the text of its second. -/
def Filled (c : TimeCache) : Prop := Dated c.t_lastSecond ∧ c.t_time = secondText c.t_lastSecond

theorem microText_length {microseconds : Nat} (small : microseconds < 10 ^ 6) : (microText microseconds).length = 9 := by
  rw [microText, zeroPadded_eq (by decide) small, List.length_append, List.length_append, Lib.fixedNumeral_length]
  rfl

theorem formatTime_filled {c : TimeCache} {time : Int} (filled : c.Filled ∨ c.t_lastSecond ≠ time.tdiv kMicroSecondsPerSecond)
    (h : InYears time) : ∃ c' : TimeCache, c'.Filled ∧
      c.formatTime time = .ok (c', secondText (time.tdiv kMicroSecondsPerSecond),
        microText (time.tmod kMicroSecondsPerSecond)) := by
  have dated := h.dated
  have length := secondText_length dated
  obtain ⟨_, microseconds, _, remainder, small, _⟩ := split h.1
  have nine := microText_length small
  have updated : ∃ c' : TimeCache, c'.Filled ∧ c.update (time.tdiv kMicroSecondsPerSecond) = .ok c' ∧
      c'.t_time = secondText (time.tdiv kMicroSecondsPerSecond) := by
    unfold update
    by_cases new : time.tdiv kMicroSecondsPerSecond ≠ c.t_lastSecond
    · rw [if_pos new, if_pos length]
      refine ⟨⟨secondText (time.tdiv kMicroSecondsPerSecond), time.tdiv kMicroSecondsPerSecond⟩, ?_, rfl, rfl⟩
      exact ⟨dated, rfl⟩
    · rw [if_neg new]
      have same := (Classical.not_not.mp new).symm
      obtain ⟨_, text⟩ := filled.resolve_right (fun other => other same)
      refine ⟨c, ⟨same ▸ dated, text⟩, rfl, ?_⟩
      rw [text, same]
  obtain ⟨c', filled', ran, text⟩ := updated
  refine ⟨c', filled', ?_⟩
  unfold formatTime
  rw [ran, Lib.ok_bind]
  dsimp only
  rw [text, remainder, if_neg (not_not.mpr length), if_neg (not_not.mpr nine)]

/-- A year with five digits, or the second in which `t_lastSecond` starts. -/
theorem formatTime_fails {c : TimeCache} {time : Int} (valid : c.Filled ∨ c = {}) (nonneg : 0 ≤ time)
    (h : ¬ InYears time ∨ (c = {} ∧ time < 1000000)) : ∃ fault, c.formatTime time = .error fault := by
  obtain ⟨seconds, microseconds, quotient, _, small, sum⟩ := split nonneg
  unfold formatTime update
  rw [quotient]
  rcases h with late | ⟨rfl, early⟩
  · have late' : Lib.endOfYears ≤ seconds := by
      by_contra dated
      refine late ⟨nonneg, ?_⟩
      omega
    have new : (seconds : Int) ≠ c.t_lastSecond := by
      intro same
      rcases valid with ⟨dated, _⟩ | fresh
      · exact absurd dated.2 (Int.not_lt.mpr (same ▸ late'))
      · rw [same, fresh] at late'
        exact absurd late' (by decide)
    rw [if_pos new, if_neg (secondText_late late')]
    exact ⟨.len, rfl⟩
  · have first : (seconds : Int) = 0 := by omega
    have empty : ({} : TimeCache).t_time.length ≠ 17 := by decide
    rw [if_neg (not_not.mpr first), Lib.ok_bind]
    dsimp only
    rw [if_pos empty]
    exact ⟨.time, rfl⟩

theorem formatAll_next {c : TimeCache} {time : Int} {rest : List Int}
    (filled : c.Filled ∨ c.t_lastSecond ≠ time.tdiv kMicroSecondsPerSecond) (h : InYears time)
    (later : ∀ (c' : TimeCache) texts, c'.Filled →
      (c'.formatAll rest = .ok texts ↔ texts = rest.map stamp ∧ ∀ t ∈ rest, InYears t)) {texts : List (List UInt8)} :
    c.formatAll (time :: rest) = .ok texts ↔
      texts = (time :: rest).map stamp ∧ ∀ t ∈ time :: rest, InYears t := by
  obtain ⟨c', filled', ran⟩ := formatTime_filled filled h
  rw [formatAll, ran, Lib.ok_bind]
  constructor
  · intro all
    obtain ⟨others, done, same⟩ := Lib.bind_ok all
    obtain ⟨rfl, dated⟩ := (later c' others filled').mp done
    obtain rfl := Except.ok.inj same
    exact ⟨rfl, List.forall_mem_cons.mpr ⟨h, dated⟩⟩
  · rintro ⟨rfl, dated⟩
    have done := (later c' _ filled').mpr ⟨rfl, (List.forall_mem_cons.mp dated).2⟩
    dsimp only
    rw [done]
    rfl

theorem formatAll_filled {times : List Int} (nonneg : ∀ t ∈ times, 0 ≤ t) (c : TimeCache)
    (texts : List (List UInt8)) (filled : c.Filled) :
    c.formatAll times = .ok texts ↔ texts = times.map stamp ∧ ∀ t ∈ times, InYears t := by
  induction times generalizing c texts with
  | nil =>
    rw [formatAll, Except.ok.injEq]
    exact ⟨fun same => ⟨same.symm, nofun⟩, fun h => h.1.symm⟩
  | cons time rest ih =>
    obtain ⟨first, nonneg'⟩ := List.forall_mem_cons.mp nonneg
    by_cases h : InYears time
    · exact formatAll_next (.inl filled) h (ih nonneg')
    · obtain ⟨fault, failed⟩ := formatTime_fails (.inl filled) first (.inl h)
      rw [formatAll, failed]
      constructor
      · intro all
        cases all
      · rintro ⟨_, dated⟩
        exact absurd (dated time List.mem_cons_self) h

theorem origin_formatTime {o : LogOrigin} {time : Int} (seconds : o.time = secondText (time.tdiv kMicroSecondsPerSecond))
    (microseconds : (o.microseconds : Int) = time.tmod kMicroSecondsPerSecond) :
    o.formatTime.flatMap LogStream.Insertion.text = stamp time := by
  have six : LogOrigin.sixDigits o.microseconds = zeroPadded 6 o.microseconds := by
    have unsigned : ¬ (o.microseconds : Int) < 0 := by omega
    rw [LogOrigin.sixDigits, zeroPadded, LogStream.decimal, if_neg unsigned, if_neg unsigned]
    rfl
  rw [LogOrigin.formatTime, seconds, six, stamp, ← microseconds]
  simp [LogStream.Insertion.text, microText]

theorem stamp_lt {t t' : Int} (h : InYears t) (h' : InYears t') (less : t < t') : stamp t < stamp t' := by
  have text : ∀ {t : Int}, stamp t = toFormattedString t true ++ literal "Z " := by
    intro t
    simp only [stamp, microText, toFormattedString, if_true, List.append_assoc]
  have length : ∀ {t : Int}, InYears t → (toFormattedString t true).length = 24 := by
    intro t h
    obtain ⟨_, _, _, remainder, small, _⟩ := split h.1
    simp only [toFormattedString, if_true, List.length_append]
    rw [secondText_length h.dated, remainder, zeroPadded_eq (by decide) small, Lib.fixedNumeral_length]
    rfl
  rw [text, text]
  refine Lib.append_lt_append ?_ (toFormattedString_lt h h' less)
  rw [length h, length h']

/-- Whatever the clock shows, each record of a thread starts with its own time, as if `t_time` were written anew. An
assertion fails if and only if the first record is made in the first second of 1970, or one after the year 9999. The
texts are in the order of the times, and a `Logger` begins its record with the text of its time. -/
theorem records_stamped {times : List Int} (nonneg : ∀ t ∈ times, 0 ≤ t) :
    (∀ texts, formatAll {} times = .ok texts ↔
      texts = times.map stamp ∧ (∀ t ∈ times, InYears t) ∧ ∀ t, times.head? = some t → 1000000 ≤ t) ∧
    (∀ t t', InYears t → InYears t' → (stamp t < stamp t' ↔ t < t')) ∧
    ∀ (o : LogOrigin) (t : Int), o.time = secondText (t.tdiv kMicroSecondsPerSecond) →
      (o.microseconds : Int) = t.tmod kMicroSecondsPerSecond →
        o.formatTime.flatMap LogStream.Insertion.text = stamp t := by
  refine ⟨?_, ?_, fun o t => origin_formatTime⟩
  · intro texts
    cases times with
    | nil =>
      rw [formatAll, Except.ok.injEq]
      exact ⟨fun same => ⟨same.symm, nofun, nofun⟩, fun h => h.1.symm⟩
    | cons time rest =>
      obtain ⟨first, nonneg'⟩ := List.forall_mem_cons.mp nonneg
      by_cases h : InYears time ∧ 1000000 ≤ time
      · obtain ⟨seconds, microseconds, quotient, _, small, sum⟩ := split first
        have new : ({} : TimeCache).t_lastSecond ≠ time.tdiv kMicroSecondsPerSecond := by
          rw [quotient]
          show (0 : Int) ≠ seconds
          omega
        rw [formatAll_next (.inr new) h.1 (formatAll_filled nonneg')]
        constructor
        · rintro ⟨same, dated⟩
          refine ⟨same, dated, fun t head => ?_⟩
          obtain rfl := Option.some.inj head
          exact h.2
        · rintro ⟨same, dated, _⟩
          exact ⟨same, dated⟩
      · have bad : ¬ InYears time ∨ (({} : TimeCache) = {} ∧ time < 1000000) := by
          rcases not_and_or.mp h with late | early
          · exact .inl late
          · exact .inr ⟨rfl, Int.not_le.mp early⟩
        obtain ⟨fault, failed⟩ := formatTime_fails (.inr rfl) first bad
        rw [formatAll, failed]
        constructor
        · intro all
          cases all
        · rintro ⟨_, dated, late⟩
          exact absurd ⟨dated time List.mem_cons_self, late time rfl⟩ h
  · intro t t' h h'
    exact lt_iff_of_increasing id stamp_lt (congrArg stamp) h h'

/-- The clock goes back and forth; a record in the first second of 1970 comes behind another one. -/
theorem records_stamped_backwards :
    formatAll {} [1700000000000001, 1700000000000002, 1, 1699999999999999] =
      .ok [literal "20231114 22:13:20.000001Z ", literal "20231114 22:13:20.000002Z ",
        literal "19700101 00:00:00.000001Z ", literal "20231114 22:13:19.999999Z "] := by
  refine ((records_stamped (by decide)).1 _).mpr ⟨by decide +kernel, ?_, by decide⟩
  intro t member
  have bounds : ∀ t ∈ [1700000000000001, 1700000000000002, 1, 1699999999999999],
      (0 : Int) ≤ t ∧ t < Lib.endOfYears * 1000000 := by decide
  exact bounds t member

end TimeCache

end Dserver
