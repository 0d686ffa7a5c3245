import Mathlib.Tactic.IntervalCases
import Mathlib.Order.Basic

/-!
# The Gregorian calendar

Days are counted from the first of January of the year 0, before which the calendar is continued. A day is the day of
one date, and later dates, in the order of year, month and day, are later days.
-/

namespace Dserver.Lib

/-! ### Years -/

def isLeap (y : Int) : Bool := y % 4 = 0 && (y % 100 ≠ 0 || y % 400 = 0)

/-- The day a year starts with. -/
def yearStart (y : Int) : Int := 365 * y + (y + 3) / 4 - (y + 99) / 100 + (y + 399) / 400

def yearLength (leap : Bool) : Int := if leap then 366 else 365

theorem yearStart_succ (y : Int) : yearStart (y + 1) = yearStart y + yearLength (isLeap y) := by
  unfold yearStart yearLength isLeap
  simp only [Bool.and_eq_true, Bool.or_eq_true, decide_eq_true_eq]
  split <;> omega

theorem yearStart_mono {y y' : Int} (h : y ≤ y') : yearStart y ≤ yearStart y' := by
  unfold yearStart
  omega

/-- The mean length of a year gives a year that is wrong by one at most. -/
def yearOf (day : Int) : Int :=
  let guess := day * 400 / 146097
  if day < yearStart guess then guess - 1 else if yearStart (guess + 1) ≤ day then guess + 1 else guess

theorem yearOf_spec (day : Int) : yearStart (yearOf day) ≤ day ∧ day < yearStart (yearOf day + 1) := by
  unfold yearOf
  dsimp only
  generalize guessed : day * 400 / 146097 = guess
  split
  · rename_i early
    rw [Int.sub_add_cancel]
    unfold yearStart at *
    omega
  · split
    · rename_i late
      unfold yearStart at *
      omega
    · rename_i early late
      exact ⟨Int.not_lt.mp early, Int.not_le.mp late⟩

/-! ### Months -/

/-- The days of a year before a month, and before the next year for the thirteenth. -/
def monthStart (leap : Bool) (month : Nat) : Nat :=
  (if leap then [0, 31, 60, 91, 121, 152, 182, 213, 244, 274, 305, 335, 366]
    else [0, 31, 59, 90, 120, 151, 181, 212, 243, 273, 304, 334, 365])[month - 1]?.getD 0

/-- The month of a day of the year. -/
def monthOf (leap : Bool) (day : Nat) : Nat :=
  ((List.range 12).filter fun before => monthStart leap (before + 1) ≤ day).length

theorem monthOf_spec (leap : Bool) (day : Nat) (inside : day < monthStart leap 13) :
    1 ≤ monthOf leap day ∧ monthOf leap day ≤ 12 ∧ monthStart leap (monthOf leap day) ≤ day ∧
      day < monthStart leap (monthOf leap day + 1) := by
  have table : ∀ leap, ∀ day < monthStart leap 13, 1 ≤ monthOf leap day ∧ monthOf leap day ≤ 12 ∧
      monthStart leap (monthOf leap day) ≤ day ∧ day < monthStart leap (monthOf leap day + 1) := by decide +kernel
  exact table leap day inside

theorem monthStart_mono (leap : Bool) {month month' : Nat} (first : 1 ≤ month) (less : month < month')
    (last : month' ≤ 13) : monthStart leap (month + 1) ≤ monthStart leap month' := by
  have table : ∀ leap, ∀ month' < 14, ∀ month < month', 1 ≤ month →
      monthStart leap (month + 1) ≤ monthStart leap month' := by decide
  exact table leap month' (by omega) month less first

theorem monthStart_last (leap : Bool) : (monthStart leap 13 : Int) = yearLength leap := by
  cases leap with
  | true => rfl
  | false => rfl

/-! ### Dates -/

structure Date where
  year : Int
  month : Nat
  day : Nat
  month_pos : 1 ≤ month
  month_le : month ≤ 12
  day_pos : 1 ≤ day
  day_le : monthStart (isLeap year) month + day ≤ monthStart (isLeap year) (month + 1)

namespace Date

@[ext] theorem ext {d d' : Date} (year : d.year = d'.year) (month : d.month = d'.month) (day : d.day = d'.day) :
    d = d' := by
  cases d
  cases d'
  simp only at year month day
  subst year month day
  rfl

theorem day_le_31 (d : Date) : d.day ≤ 31 := by
  have table : ∀ leap, ∀ month < 13, monthStart leap (month + 1) ≤ monthStart leap month + 31 := by decide
  have inside := d.day_le
  have length := table (isLeap d.year) d.month (Nat.lt_succ_of_le d.month_le)
  omega

/-- The number of the day. -/
def number (d : Date) : Int := yearStart d.year + monthStart (isLeap d.year) d.month + (d.day - 1 : Nat)

theorem number_lt_yearStart (d : Date) : d.number < yearStart (d.year + 1) := by
  have day := d.day_pos
  have inside := d.day_le
  have month : monthStart (isLeap d.year) (d.month + 1) ≤ monthStart (isLeap d.year) 13 :=
    monthStart_mono _ d.month_pos (Nat.lt_succ_of_le d.month_le) (Nat.le_refl 13)
  have length := monthStart_last (isLeap d.year)
  rw [yearStart_succ, number]
  omega

theorem yearStart_le_number (d : Date) : yearStart d.year ≤ d.number := by
  unfold number
  omega

/-- The order of year, month and day. -/
def Before (d d' : Date) : Prop :=
  d.year < d'.year ∨ d.year = d'.year ∧ (d.month < d'.month ∨ d.month = d'.month ∧ d.day < d'.day)

theorem Before.number_lt {d d' : Date} (h : d.Before d') : d.number < d'.number := by
  rcases h with year | ⟨year, month | ⟨month, day⟩⟩
  · have next : yearStart (d.year + 1) ≤ yearStart d'.year := yearStart_mono (by omega)
    have last := d.number_lt_yearStart
    have first := d'.yearStart_le_number
    omega
  · have next : monthStart (isLeap d.year) (d.month + 1) ≤ monthStart (isLeap d.year) d'.month :=
      monthStart_mono _ d.month_pos month (Nat.le_succ_of_le d'.month_le)
    have inside := d.day_le
    have positive := d.day_pos
    unfold number
    rw [← year]
    omega
  · have positive := d.day_pos
    unfold number
    rw [← year, ← month]
    omega

theorem before_or_eq_or_before (d d' : Date) : d.Before d' ∨ d = d' ∨ d'.Before d := by
  rcases lt_trichotomy d.year d'.year with less | same | more
  · exact .inl (.inl less)
  · rcases lt_trichotomy d.month d'.month with less | same' | more
    · exact .inl (.inr ⟨same, .inl less⟩)
    · rcases lt_trichotomy d.day d'.day with less | same'' | more
      · exact .inl (.inr ⟨same, .inr ⟨same', less⟩⟩)
      · exact .inr (.inl (ext same same' same''))
      · exact .inr (.inr (.inr ⟨same.symm, .inr ⟨same'.symm, more⟩⟩))
    · exact .inr (.inr (.inr ⟨same.symm, .inl more⟩))
  · exact .inr (.inr (.inl more))

end Date

theorem dayOfYear_lt (day : Int) :
    (day - yearStart (yearOf day)).toNat < monthStart (isLeap (yearOf day)) 13 := by
  obtain ⟨start, stop⟩ := yearOf_spec day
  have length := monthStart_last (isLeap (yearOf day))
  rw [yearStart_succ] at stop
  omega

def dateOf (day : Int) : Date :=
  let year := yearOf day
  let rest := (day - yearStart year).toNat
  have spec := monthOf_spec (isLeap year) rest (dayOfYear_lt day)
  { year, month := monthOf (isLeap year) rest, day := rest - monthStart (isLeap year) (monthOf (isLeap year) rest) + 1
    month_pos := spec.1, month_le := spec.2.1, day_pos := Nat.le_add_left 1 _
    day_le := by
      obtain ⟨_, _, start, stop⟩ := spec
      omega }

theorem number_dateOf (day : Int) : (dateOf day).number = day := by
  obtain ⟨start, _⟩ := yearOf_spec day
  obtain ⟨_, _, month, _⟩ := monthOf_spec (isLeap (yearOf day)) _ (dayOfYear_lt day)
  unfold Date.number dateOf
  dsimp only
  omega

/-! ### Times -/

structure Time where
  date : Date
  hour : Nat
  minute : Nat
  second : Nat
  hour_lt : hour < 24
  minute_lt : minute < 60
  second_lt : second < 60

/-- The first of January 1970. -/
def epoch : Int := 719528

/-- The date and the time of day, a number of seconds after the start of the epoch. -/
def timeOf (seconds : Int) : Time where
  date := dateOf (seconds / 86400 + epoch)
  hour := (seconds % 86400).toNat / 3600
  minute := (seconds % 86400).toNat % 3600 / 60
  second := (seconds % 86400).toNat % 60
  hour_lt := by omega
  minute_lt := by omega
  second_lt := by omega

def Time.seconds (t : Time) : Int :=
  (t.date.number - epoch) * 86400 + (t.hour * 3600 + t.minute * 60 + t.second : Nat)

theorem seconds_timeOf (seconds : Int) : (timeOf seconds).seconds = seconds := by
  unfold Time.seconds timeOf
  rw [number_dateOf]
  dsimp only
  omega

/-- The fields from the year on, of a year that is not negative. -/
def Time.fields (t : Time) : List Nat := [t.date.year.toNat, t.date.month, t.date.day, t.hour, t.minute, t.second]

theorem Time.fields_lt {t t' : Time} (year : 0 ≤ t.date.year) (year' : 0 ≤ t'.date.year)
    (less : t.seconds < t'.seconds) : t.fields < t'.fields := by
  have minute := t.minute_lt
  have second := t.second_lt
  have hour := t.hour_lt
  have hour' := t'.hour_lt
  have minute' := t'.minute_lt
  have second' := t'.second_lt
  unfold seconds at less
  simp only [fields, List.cons_lt_cons_iff]
  rcases Date.before_or_eq_or_before t.date t'.date with before | same | after
  · unfold Date.Before at before
    omega
  · rw [same] at less ⊢
    omega
  · have later := after.number_lt
    omega

/-- The first second of the year 10000. -/
def endOfYears : Int := 253402300800

theorem year_timeOf_le {seconds year : Int} :
    year ≤ (timeOf seconds).date.year ↔ (yearStart year - epoch) * 86400 ≤ seconds := by
  obtain ⟨start, stop⟩ := yearOf_spec (seconds / 86400 + epoch)
  have field : (timeOf seconds).date.year = yearOf (seconds / 86400 + epoch) := rfl
  rw [field]
  constructor
  · intro late
    have before := yearStart_mono late
    omega
  · intro late
    by_contra early
    have before : yearStart (yearOf (seconds / 86400 + epoch) + 1) ≤ yearStart year := yearStart_mono (Int.not_le.mp early)
    omega

theorem year_timeOf {seconds : Int} (positive : 0 ≤ seconds) (small : seconds < endOfYears) :
    1970 ≤ (timeOf seconds).date.year ∧ (timeOf seconds).date.year ≤ 9999 := by
  have last : (yearStart 10000 - epoch) * 86400 = endOfYears := rfl
  constructor
  · exact year_timeOf_le.mpr positive
  · by_contra late
    have after := year_timeOf_le.mp (Int.not_le.mp late)
    exact absurd small (Int.not_lt.mpr (last ▸ after))

theorem year_timeOf_late {seconds : Int} (late : endOfYears ≤ seconds) : 10000 ≤ (timeOf seconds).date.year :=
  year_timeOf_le.mpr late

end Dserver.Lib
