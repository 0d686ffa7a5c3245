import Dserver.Lib.Calendar
import Dserver.Lib.FixedWidth
import Dserver.Base.Timestamp
import Dserver.Base.Convert
import Dserver.Base.LogRolling

/-!
# Times as texts

`gmtime_r` splits a time, and `snprintf` and `strftime` write its fields with a fixed width. Up to the year 9999 the
texts are in the order of the times.
-/

namespace Dserver

/-- The fields of a `struct tm` that are used. -/
structure Tm where
  tm_year : Int
  tm_mon : Int
  tm_mday : Int
  tm_hour : Int
  tm_min : Int
  tm_sec : Int
  deriving DecidableEq, Repr

def gmtime_r (seconds : Int) : Tm :=
  let t := Lib.timeOf seconds
  { tm_year := t.date.year - 1900, tm_mon := t.date.month - 1, tm_mday := t.date.day
    tm_hour := t.hour, tm_min := t.minute, tm_sec := t.second }

/-- `%0d` with a width. -/
def zeroPadded (width : Nat) (v : Int) : List UInt8 :=
  let digits := Lib.numeral 10 LogStream.decimalDigit v.natAbs
  if v < 0 then 45 :: List.replicate (width - 1 - digits.length) 48 ++ digits
  else List.replicate (width - digits.length) 48 ++ digits

/-- `%d` with a width. -/
def blankPadded (width : Nat) (v : Int) : List UInt8 :=
  List.replicate (width - (LogStream.decimal v).length) 32 ++ LogStream.decimal v

/-- `".%Y%m%d-%H%M%S."` -/
def strftime (now : Int) : List UInt8 :=
  let tm := gmtime_r now
  literal "." ++ LogStream.decimal (tm.tm_year + 1900) ++ zeroPadded 2 (tm.tm_mon + 1) ++ zeroPadded 2 tm.tm_mday ++
    literal "-" ++ zeroPadded 2 tm.tm_hour ++ zeroPadded 2 tm.tm_min ++ zeroPadded 2 tm.tm_sec ++ literal "."

namespace Timestamp

def secondsSinceEpoch (t : Timestamp) : Int := t.tdiv kMicroSecondsPerSecond

/-- `"%4d%02d%02d %02d:%02d:%02d"` -/
def secondText (seconds : Int) : List UInt8 :=
  let tm := gmtime_r seconds
  blankPadded 4 (tm.tm_year + 1900) ++ zeroPadded 2 (tm.tm_mon + 1) ++ zeroPadded 2 tm.tm_mday ++ literal " " ++
    zeroPadded 2 tm.tm_hour ++ literal ":" ++ zeroPadded 2 tm.tm_min ++ literal ":" ++ zeroPadded 2 tm.tm_sec

def toString (t : Timestamp) : List UInt8 :=
  let seconds := t.tdiv kMicroSecondsPerSecond
  let microseconds := t.tmod kMicroSecondsPerSecond
  LogStream.decimal seconds ++ literal "." ++ zeroPadded 6 microseconds

def toFormattedString (t : Timestamp) (showMicroseconds : Bool) : List UInt8 :=
  let seconds := t.tdiv kMicroSecondsPerSecond
  if showMicroseconds then
    let microseconds := t.tmod kMicroSecondsPerSecond
    secondText seconds ++ literal "." ++ zeroPadded 6 microseconds
  else secondText seconds

end Timestamp

/-! ### Fixed widths -/

open LogStream (decimalDigit)

theorem decimalDigit_lt (d e : Nat) (less : d < e) (small : e < 10) : decimalDigit d < decimalDigit e := by
  have table : ∀ e < 10, ∀ d < e, decimalDigit d < decimalDigit e := by decide
  exact table e small d less

theorem zeroPadded_eq {width n : Nat} (positive : 0 < width) (small : n < 10 ^ width) :
    zeroPadded width n = Lib.fixedNumeral 10 decimalDigit width n := by
  rw [Lib.fixedNumeral_eq (by decide) positive small, zeroPadded, if_neg (by omega)]
  rfl

theorem year_length {year : Nat} (low : 1000 ≤ year) (high : year ≤ 9999) :
    (Lib.numeral 10 decimalDigit year).length = 4 := by
  rw [Lib.numeral_length, Lib.lowDigits, if_neg (by omega)]
  have more : 3 < (Nat.digits 10 year).length := (Nat.lt_digits_length_iff (by decide) year).mpr low
  have less : (Nat.digits 10 year).length ≤ 4 := (Nat.digits_length_le_iff (by decide) year).mpr (by omega)
  omega

theorem decimal_year {year : Int} (low : 1970 ≤ year) (high : year ≤ 9999) :
    LogStream.decimal year = Lib.fixedNumeral 10 decimalDigit 4 year.toNat := by
  have same : year.natAbs = year.toNat := by omega
  rw [Lib.fixedNumeral_eq (by decide) (by decide) (by omega), year_length (by omega) (by omega), LogStream.decimal,
    if_neg (by omega), same]
  rfl

theorem blankPadded_year {year : Int} (low : 1970 ≤ year) (high : year ≤ 9999) :
    blankPadded 4 year = Lib.fixedNumeral 10 decimalDigit 4 year.toNat := by
  rw [blankPadded, decimal_year low high, Lib.fixedNumeral_length]
  rfl

/-- Up to the year 9999 and from 1970 on. -/
def Dated (seconds : Int) : Prop := 0 ≤ seconds ∧ seconds < Lib.endOfYears

/-- Fields with four digits for the year and two for the others, and what stands between them. -/
def layout (between : List (List UInt8)) : List (Nat × List UInt8) := List.zip [4, 2, 2, 2, 2, 2] between

theorem fields_fit {seconds : Int} (dated : Dated seconds) {between : List (List UInt8)} (six : between.length = 6) :
    List.Forall₂ (fun field n => n < 10 ^ field.1) (layout between) (Lib.timeOf seconds).fields := by
  obtain ⟨low, high⟩ := Lib.year_timeOf dated.1 dated.2
  have month := (Lib.timeOf seconds).date.month_le
  have day := (Lib.timeOf seconds).date.day_le_31
  have hour := (Lib.timeOf seconds).hour_lt
  have minute := (Lib.timeOf seconds).minute_lt
  have second := (Lib.timeOf seconds).second_lt
  have hundred : (10 : Nat) ^ 2 = 100 := rfl
  match between, six with
  | [_, _, _, _, _, _], _ =>
    refine .cons ?_ (.cons ?_ (.cons ?_ (.cons ?_ (.cons ?_ (.cons ?_ .nil)))))
    all_goals dsimp only
    all_goals omega

theorem layout_length {between : List (List UInt8)} (six : between.length = 6) : (layout between).length = 6 := by
  rw [layout, List.length_zip, six]
  rfl

/-- The date and the time of day with texts between the fields. -/
def datedText (between : List (List UInt8)) (seconds : Int) : List UInt8 :=
  Lib.fieldsText 10 decimalDigit (layout between) (Lib.timeOf seconds).fields

theorem datedText_lt {between : List (List UInt8)} (six : between.length = 6) {seconds seconds' : Int}
    (dated : Dated seconds) (dated' : Dated seconds') (less : seconds < seconds') :
    datedText between seconds < datedText between seconds' := by
  obtain ⟨low, _⟩ := Lib.year_timeOf dated.1 dated.2
  obtain ⟨low', _⟩ := Lib.year_timeOf dated'.1 dated'.2
  apply Lib.fieldsText_lt decimalDigit_lt
  · rw [layout_length six]
    rfl
  · exact fields_fit dated' six
  · apply Lib.Time.fields_lt
    · omega
    · omega
    · rw [Lib.seconds_timeOf, Lib.seconds_timeOf]
      exact less

theorem two_digits {n : Nat} (small : n < 100) : zeroPadded 2 n = Lib.fixedNumeral 10 decimalDigit 2 n :=
  zeroPadded_eq (by decide) small

theorem gmtime_year (seconds : Int) : (gmtime_r seconds).tm_year + 1900 = (Lib.timeOf seconds).date.year :=
  Int.sub_add_cancel _ _

/-- The fields behind the year. -/
theorem gmtime_digits (seconds : Int) :
    zeroPadded 2 ((gmtime_r seconds).tm_mon + 1) =
        Lib.fixedNumeral 10 decimalDigit 2 (Lib.timeOf seconds).date.month ∧
      zeroPadded 2 (gmtime_r seconds).tm_mday = Lib.fixedNumeral 10 decimalDigit 2 (Lib.timeOf seconds).date.day ∧
      zeroPadded 2 (gmtime_r seconds).tm_hour = Lib.fixedNumeral 10 decimalDigit 2 (Lib.timeOf seconds).hour ∧
      zeroPadded 2 (gmtime_r seconds).tm_min = Lib.fixedNumeral 10 decimalDigit 2 (Lib.timeOf seconds).minute ∧
      zeroPadded 2 (gmtime_r seconds).tm_sec = Lib.fixedNumeral 10 decimalDigit 2 (Lib.timeOf seconds).second := by
  have month := (Lib.timeOf seconds).date.month_le
  have day := (Lib.timeOf seconds).date.day_le_31
  have hour := (Lib.timeOf seconds).hour_lt
  have minute := (Lib.timeOf seconds).minute_lt
  have second := (Lib.timeOf seconds).second_lt
  have mon : (gmtime_r seconds).tm_mon + 1 = (Lib.timeOf seconds).date.month := Int.sub_add_cancel _ _
  rw [mon]
  exact ⟨two_digits (by omega), two_digits (by omega), two_digits (by omega), two_digits (by omega),
    two_digits (by omega)⟩

theorem strftime_eq {now : Int} (dated : Dated now) :
    strftime now = literal "." ++ datedText [[], [], literal "-", [], [], literal "."] now := by
  obtain ⟨low, high⟩ := Lib.year_timeOf dated.1 dated.2
  obtain ⟨month, day, hour, minute, second⟩ := gmtime_digits now
  unfold strftime
  dsimp only
  rw [gmtime_year, decimal_year low high, month, day, hour, minute, second]
  simp only [datedText, layout, Lib.Time.fields, Lib.fieldsText, Lib.fieldsText_nil, List.zip_cons_cons,
    List.append_assoc, List.append_nil]

theorem secondText_eq {seconds : Int} (dated : Dated seconds) :
    Timestamp.secondText seconds = datedText [[], [], literal " ", literal ":", literal ":", []] seconds := by
  obtain ⟨low, high⟩ := Lib.year_timeOf dated.1 dated.2
  obtain ⟨month, day, hour, minute, second⟩ := gmtime_digits seconds
  unfold Timestamp.secondText
  dsimp only
  rw [gmtime_year, blankPadded_year low high, month, day, hour, minute, second]
  simp only [datedText, layout, Lib.Time.fields, Lib.fieldsText, Lib.fieldsText_nil, List.zip_cons_cons,
    List.append_assoc, List.append_nil]

theorem strftime_lt {now now' : Int} (dated : Dated now) (dated' : Dated now') (less : now < now') :
    strftime now < strftime now' := by
  rw [strftime_eq dated, strftime_eq dated']
  exact List.append_left_lt (datedText_lt rfl dated dated' less)

theorem datedText_length {between : List (List UInt8)} (six : between.length = 6) (seconds : Int) :
    (datedText between seconds).length = 14 + between.flatten.length := by
  match between, six with
  | [_, _, _, _, _, _], _ =>
    simp only [datedText, layout, Lib.Time.fields, Lib.fieldsText, Lib.fieldsText_nil, List.zip_cons_cons,
      List.length_append, Lib.fixedNumeral_length, List.flatten_cons, List.length_nil, List.flatten_nil]
    omega

theorem strftime_length {now : Int} (dated : Dated now) : (strftime now).length = 17 := by
  rw [strftime_eq dated, List.length_append, datedText_length rfl]
  rfl

theorem secondText_length {seconds : Int} (dated : Dated seconds) : (Timestamp.secondText seconds).length = 17 := by
  rw [secondText_eq dated, datedText_length rfl]
  rfl

theorem secondText_lt {seconds seconds' : Int} (dated : Dated seconds) (dated' : Dated seconds')
    (less : seconds < seconds') : Timestamp.secondText seconds < Timestamp.secondText seconds' := by
  rw [secondText_eq dated, secondText_eq dated']
  exact datedText_lt rfl dated dated' less

namespace Timestamp

/-- A time with its seconds and microseconds. -/
theorem split {t : Int} (nonneg : 0 ≤ t) :
    ∃ seconds microseconds : Nat, t.tdiv kMicroSecondsPerSecond = seconds ∧
      t.tmod kMicroSecondsPerSecond = microseconds ∧ microseconds < 10 ^ 6 ∧ t = seconds * 1000000 + microseconds := by
  have quotient : t.tdiv 1000000 = t / 1000000 := Int.tdiv_eq_ediv_of_nonneg nonneg
  have remainder : t.tmod 1000000 = t % 1000000 := Int.tmod_eq_emod_of_nonneg nonneg
  have million : kMicroSecondsPerSecond = 1000000 := rfl
  rw [million, quotient, remainder]
  exact ⟨(t / 1000000).toNat, (t % 1000000).toNat, by omega, by omega, by omega, by omega⟩

/-- From 1970 to the year 9999. -/
def InYears (t : Int) : Prop := 0 ≤ t ∧ t < Lib.endOfYears * 1000000

theorem InYears.dated {t : Int} (h : InYears t) : Dated (t.tdiv kMicroSecondsPerSecond) := by
  obtain ⟨seconds, microseconds, quotient, _, _, sum⟩ := split h.1
  have late := h.2
  unfold Dated
  rw [quotient]
  omega

theorem microText_lt {n m : Nat} (small : m < 10 ^ 6) (less : n < m) : zeroPadded 6 n < zeroPadded 6 m := by
  rw [zeroPadded_eq (by decide) small, zeroPadded_eq (by decide) (Nat.lt_trans less small)]
  exact Lib.fixedNumeral_lt decimalDigit_lt small less

theorem toFormattedString_lt {t t' : Int} (h : InYears t) (h' : InYears t') (less : t < t') :
    toFormattedString t true < toFormattedString t' true := by
  have dated := h.dated
  have dated' := h'.dated
  obtain ⟨seconds, microseconds, quotient, remainder, _, sum⟩ := split h.1
  obtain ⟨seconds', microseconds', quotient', remainder', small', sum'⟩ := split h'.1
  simp only [toFormattedString, if_true]
  rw [remainder, remainder']
  rcases Nat.lt_trichotomy seconds seconds' with earlier | same | later
  · rw [List.append_assoc, List.append_assoc]
    refine Lib.append_lt_append ?_ (secondText_lt dated dated' (by omega))
    rw [secondText_length dated, secondText_length dated']
  · rw [quotient, quotient', same]
    exact List.append_left_lt (microText_lt small' (by omega))
  · omega

theorem toFormattedString_seconds_lt {t t' : Int} (h : InYears t) (h' : InYears t')
    (less : secondsSinceEpoch t < secondsSinceEpoch t') : toFormattedString t false < toFormattedString t' false :=
  secondText_lt h.dated h'.dated less

/-- The order of the texts is that of what increases with them. -/
theorem lt_iff_of_increasing {P : Int → Prop} (key : Int → Int) {text : Int → List UInt8}
    (increasing : ∀ {a b}, P a → P b → key a < key b → text a < text b)
    (same : ∀ {a b}, key a = key b → text a = text b) {a b : Int} (first : P a) (second : P b) :
    text a < text b ↔ key a < key b := by
  refine ⟨fun less => ?_, increasing first second⟩
  rcases lt_trichotomy (key a) (key b) with lower | equal | higher
  · exact lower
  · rw [same equal] at less
    exact absurd less (List.lt_irrefl _)
  · exact absurd (increasing second first higher) (List.lt_asymm less)

/-- The number of microseconds that a text with seconds, a dot and six digits stands for. -/
def read (text : List UInt8) : Option Int :=
  let seconds := text.takeWhile (· != 46)
  let microseconds := (text.dropWhile (· != 46)).drop 1
  if microseconds.length = 6 then do
    let s ← Detail.readDecimal seconds
    let m ← Lib.readNumeral 10 Detail.decimalValue microseconds
    some (s * 1000000 + m)
  else none

theorem numeral_undotted (n : Nat) : ∀ c ∈ LogStream.decimal n, (c != 46) = true := by
  intro c member
  have undotted := LogFile.decimal_undotted n
  apply bne_iff_ne.mpr
  intro dot
  exact undotted (dot ▸ member)

theorem read_toString {t : Int} (nonneg : 0 ≤ t) : read (toString t) = some t := by
  obtain ⟨seconds, microseconds, quotient, remainder, small, sum⟩ := split nonneg
  have text : toString t = LogStream.decimal seconds ++ 46 :: zeroPadded 6 microseconds := by
    unfold toString
    rw [quotient, remainder, List.append_assoc]
    rfl
  have front : (toString t).takeWhile (· != 46) = LogStream.decimal seconds := by
    rw [text, List.takeWhile_append_of_pos (numeral_undotted seconds)]
    simp
  have back : ((toString t).dropWhile (· != 46)).drop 1 = zeroPadded 6 microseconds := by
    rw [text, List.dropWhile_append_of_pos (numeral_undotted seconds)]
    simp
  have six := zeroPadded_eq (by decide) small
  have length : (zeroPadded 6 microseconds).length = 6 := by rw [six, Lib.fixedNumeral_length]
  unfold read
  dsimp only
  rw [front, back, if_pos length, (Detail.isDecimal_decimal seconds).reads, six,
    Lib.readNumeral_fixed Detail.decimalValue_iff (by decide) (by decide) small, sum]
  rfl

/-- The formatted texts of two times compare like the times, down to the microsecond or the second; the plain text can be
read back. -/
theorem texts_tell_time {t t' : Int} (h : InYears t) (h' : InYears t') :
    (toFormattedString t true < toFormattedString t' true ↔ t < t') ∧
      (toFormattedString t true = toFormattedString t' true ↔ t = t') ∧
      (toFormattedString t false < toFormattedString t' false ↔ secondsSinceEpoch t < secondsSinceEpoch t') ∧
      read (toString t) = some t := by
  have order : ∀ {a b : Int}, InYears a → InYears b →
      (toFormattedString a true < toFormattedString b true ↔ a < b) := by
    intro a b first second
    exact lt_iff_of_increasing id toFormattedString_lt (congrArg (toFormattedString · true)) first second
  refine ⟨order h h', ⟨fun same => ?_, fun same => by rw [same]⟩, ?_, read_toString h.1⟩
  · rcases lt_trichotomy t t' with less | equal | more
    · have := (order h h').mpr less
      rw [same] at this
      exact absurd this (List.lt_irrefl _)
    · exact equal
    · have := (order h' h).mpr more
      rw [same] at this
      exact absurd this (List.lt_irrefl _)
  · exact lt_iff_of_increasing secondsSinceEpoch toFormattedString_seconds_lt (congrArg secondText) h h'

/-- The last microsecond of 1999 and the first one of 2000. -/
theorem texts_tell_time_new_year :
    toFormattedString 946684799999999 true = literal "19991231 23:59:59.999999" ∧
      toFormattedString 946684800000000 true = literal "20000101 00:00:00.000000" ∧
      toFormattedString 946684799999999 true < toFormattedString 946684800000000 true := by
  refine ⟨by decide +kernel, by decide +kernel, ?_⟩
  exact (texts_tell_time ⟨by decide, by decide⟩ ⟨by decide, by decide⟩).1.mpr (by decide)

end Timestamp

end Dserver
