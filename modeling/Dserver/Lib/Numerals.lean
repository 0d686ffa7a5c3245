import Mathlib.Data.Nat.Digits.Lemmas
import Dserver.Lib.Cells
import Dserver.Lib.Machine

/-!
# Numerals

A numeral has no leading zeros but for zero itself. It is written from the lowest digit on, in a loop that divides with
C's rounding, and then reversed. A text that reads as a number and has no leading zero is its numeral.
-/

namespace Dserver.Lib

/-- The digits from the lowest on; zero has one. -/
def lowDigits (base n : Nat) : List Nat := if n = 0 then [0] else Nat.digits base n

def numeral {α : Type} (base : Nat) (digit : Nat → α) (n : Nat) : List α := ((lowDigits base n).map digit).reverse

theorem lowDigits_eq {base : Nat} (h : 1 < base) (n : Nat) :
    lowDigits base n = n % base :: if n / base = 0 then [] else lowDigits base (n / base) := by
  unfold lowDigits
  by_cases zero : n = 0
  · simp [zero]
  · rw [if_neg zero, Nat.digits_def' h (Nat.pos_of_ne_zero zero)]
    split
    · rename_i last
      rw [last, Nat.digits_zero]
    · rfl

theorem lowDigits_length_pos (base n : Nat) : 0 < (lowDigits base n).length := by
  unfold lowDigits
  split
  · exact Nat.zero_lt_one
  · rename_i positive
    exact List.length_pos_iff.mpr (Nat.digits_ne_nil_iff_ne_zero.mpr positive)

theorem lowDigits_length_le {base n k : Nat} (h : 1 < base) (positive : 0 < k) (small : n < base ^ k) :
    (lowDigits base n).length ≤ k := by
  unfold lowDigits
  split
  · exact positive
  · exact (Nat.digits_length_le_iff h n).mpr small

theorem numeral_length {α : Type} (base : Nat) (digit : Nat → α) (n : Nat) :
    (numeral base digit n).length = (lowDigits base n).length := by
  rw [numeral, List.length_reverse, List.length_map]

section Loop

variable {ε α : Type} {fault : ε}

/-- The loop: the remainder is looked up and written, and the quotient is next. -/
def writeDigits (fault : ε) (base : Int) (digitOf : Int → Except ε α) :
    Nat → List α → Nat → Int → Except ε (List α × Nat)
  | 0, cells, p, _ => .ok (cells, p)
  | fuel + 1, cells, p, i => do
    let lsd := i.tmod base
    let i := i.tdiv base
    let c ← digitOf lsd
    let cells ← put fault cells p c
    let p := p + 1
    if i ≠ 0 then writeDigits fault base digitOf fuel cells p i else .ok (cells, p)

variable {base : Nat} {digitOf : Int → Except ε α} {digit : Nat → α} {N : Prop}

theorem natAbs_tdiv_lt {i base : Int} (valid : 1 < base) (more : i.tdiv base ≠ 0) :
    (i.tdiv base).natAbs < i.natAbs := by
  have positive : 0 < i.natAbs := by
    refine Int.natAbs_pos.mpr fun zero => more ?_
    rw [zero, Int.zero_tdiv]
  rw [Int.natAbs_tdiv]
  exact Nat.div_lt_self positive (by omega)

/-- The loop writes the digits of the absolute value; `N` says that the table has negative indices. -/
theorem writeDigits_eq (valid : 1 < base)
    (table : ∀ lsd : Int, lsd.natAbs < base → N ∨ 0 ≤ lsd → digitOf lsd = .ok (digit lsd.natAbs))
    {fuel : Nat} {cells : List α} {p : Nat} {i : Int} (allowed : N ∨ 0 ≤ i) (enough : i.natAbs < fuel)
    (fits : p + (lowDigits base i.natAbs).length ≤ cells.length) :
    writeDigits fault base digitOf fuel cells p i =
      .ok (splice cells p ((lowDigits base i.natAbs).map digit), p + (lowDigits base i.natAbs).length) := by
  induction fuel generalizing cells p i with
  | zero => omega
  | succ fuel ih =>
    have remainder : (i.tmod base).natAbs = i.natAbs % base := by rw [Int.natAbs_tmod, Int.natAbs_natCast]
    have quotient : (i.tdiv base).natAbs = i.natAbs / base := by
      rw [Int.natAbs_tdiv, Int.natAbs_natCast]
      rfl
    have found : digitOf (i.tmod base) = .ok (digit (i.natAbs % base)) := by
      rw [← remainder]
      refine table _ ?_ (allowed.imp_right fun nonneg => Int.tmod_nonneg _ nonneg)
      rw [remainder]
      exact Nat.mod_lt _ (Nat.lt_of_succ_lt valid)
    have positive := lowDigits_length_pos base i.natAbs
    have inside : p < cells.length := by omega
    have digits := lowDigits_eq valid i.natAbs
    rw [writeDigits, found, ok_bind, put_eq inside, ok_bind]
    dsimp only
    split
    · rename_i more
      have left : i.natAbs / base ≠ 0 := by
        rw [← quotient]
        exact Int.natAbs_ne_zero.mpr more
      rw [if_neg left] at digits
      have length : (splice cells p [digit (i.natAbs % base)]).length = cells.length :=
        length_splice (by simp; omega)
      have less : (i.tdiv base).natAbs < i.natAbs := natAbs_tdiv_lt (Int.ofNat_lt.mpr valid) more
      rw [digits, List.length_cons] at fits
      rw [ih (allowed.imp_right fun nonneg => Int.tdiv_nonneg nonneg (Int.natCast_nonneg _))
        (by omega) (by rw [quotient, length]; omega), quotient, digits]
      have joined : splice (splice cells p [digit (i.natAbs % base)]) (p + 1)
          ((lowDigits base (i.natAbs / base)).map digit) =
          splice cells p (digit (i.natAbs % base) :: (lowDigits base (i.natAbs / base)).map digit) :=
        splice_splice (Nat.le_of_lt inside)
      rw [joined, List.length_cons, Nat.add_assoc, Nat.add_comm 1]
      rfl
    · rename_i last
      have none : i.natAbs / base = 0 := by
        rw [← quotient]
        exact Int.natAbs_eq_zero.mpr (not_not.mp last)
      rw [if_pos none] at digits
      rw [digits]
      rfl

end Loop

/-! ### Reading -/

section Reading

variable {α : Type}

def readDigits (base : Nat) (valueOf : α → Option Nat) : Nat → List α → Option Nat
  | n, [] => some n
  | n, c :: rest => do
    let d ← valueOf c
    readDigits base valueOf (n * base + d) rest

/-- The number a text stands for, where each character has a value below `base`. -/
def readNumeral (base : Nat) (valueOf : α → Option Nat) : List α → Option Nat
  | [] => none
  | c :: rest => readDigits base valueOf 0 (c :: rest)

/-- The text reads as `n` and has no leading zero. -/
structure IsNumeral (base : Nat) (valueOf : α → Option Nat) (text : List α) (n : Nat) : Prop where
  reads : readNumeral base valueOf text = some n
  no_leading_zero : ∀ c rest, text = c :: rest → valueOf c = some 0 → rest = []

variable {base : Nat} {valueOf : α → Option Nat} {digit : Nat → α} {text : List α} {n : Nat}

theorem readDigits_iff (table : ∀ c d, valueOf c = some d ↔ d < base ∧ c = digit d) {start : Nat} :
    readDigits base valueOf start text = some n ↔
      ∃ ds : List Nat, (∀ d ∈ ds, d < base) ∧ text = ds.map digit ∧
        n = start * base ^ ds.length + Nat.ofDigits base ds.reverse := by
  induction text generalizing start with
  | nil =>
    rw [readDigits, Option.some.injEq]
    constructor
    · rintro rfl
      exact ⟨[], by simp, rfl, by simp⟩
    · rintro ⟨ds, -, none, value⟩
      obtain rfl : ds = [] := List.map_eq_nil_iff.mp none.symm
      simpa using value.symm
  | cons c rest ih =>
    have shift : ∀ d (ds : List Nat), (start * base + d) * base ^ ds.length + Nat.ofDigits base ds.reverse =
        start * base ^ (d :: ds).length + Nat.ofDigits base (d :: ds).reverse := by
      intro d ds
      rw [Nat.ofDigits_reverse_cons, List.length_cons, pow_succ]
      ring
    rw [readDigits, Option.bind_eq_bind, Option.bind_eq_some_iff]
    constructor
    · rintro ⟨d, known, read⟩
      obtain ⟨small, rfl⟩ := (table c d).mp known
      obtain ⟨ds, smalls, rfl, value⟩ := ih.mp read
      exact ⟨d :: ds, List.forall_mem_cons.mpr ⟨small, smalls⟩, rfl, value.trans (shift d ds)⟩
    · rintro ⟨ds, smalls, same, value⟩
      cases ds with
      | nil => cases same
      | cons d ds =>
        obtain ⟨small, smalls⟩ := List.forall_mem_cons.mp smalls
        obtain ⟨rfl, rfl⟩ := List.cons.inj same
        exact ⟨d, (table _ d).mpr ⟨small, rfl⟩, ih.mpr ⟨ds, smalls, rfl, value.trans (shift d ds).symm⟩⟩

theorem lowDigits_lt (valid : 1 < base) : ∀ d ∈ lowDigits base n, d < base := by
  intro d member
  unfold lowDigits at member
  split at member
  · rw [List.mem_singleton.mp member]
    exact Nat.lt_of_succ_lt valid
  · exact Nat.digits_lt_base valid member

theorem ofDigits_lowDigits (base n : Nat) : Nat.ofDigits base (lowDigits base n) = n := by
  unfold lowDigits
  split
  · rename_i zero
    rw [zero, Nat.ofDigits_singleton]
  · exact Nat.ofDigits_digits base n

/-- The highest digit is zero only if it is the only one. -/
theorem lowDigits_highest {ds : List Nat} (h : lowDigits base n = ds ++ [0]) : ds = [] := by
  unfold lowDigits at h
  split at h
  · exact (List.append_eq_singleton_iff.mp h.symm).elim And.left fun other => nomatch other.2
  · rename_i positive
    have last := Nat.getLast_digit_ne_zero base positive
    simp only [h, List.getLast_append_singleton, ne_eq, not_true_eq_false] at last

theorem IsNumeral.eq_numeral (valid : 1 < base) (table : ∀ c d, valueOf c = some d ↔ d < base ∧ c = digit d)
    (h : IsNumeral base valueOf text n) : text = numeral base digit n := by
  obtain ⟨reads, plain⟩ := h
  cases text with
  | nil => cases reads
  | cons c rest =>
    obtain ⟨ds, smalls, same, value⟩ := (readDigits_iff table).mp reads
    rw [Nat.zero_mul, Nat.zero_add] at value
    cases ds with
    | nil => cases same
    | cons d ds =>
      obtain ⟨rfl, rfl⟩ := List.cons.inj same
      by_cases zero : d = 0
      · have alone := plain _ _ rfl ((table _ 0).mpr ⟨Nat.lt_of_succ_lt valid, by rw [zero]⟩)
        obtain rfl : ds = [] := List.map_eq_nil_iff.mp alone
        rw [zero] at value
        rw [value, zero]
        rfl
      · have digits : Nat.digits base n = (d :: ds).reverse := by
          rw [value]
          refine Nat.digits_ofDigits base valid _ (fun l member => smalls l (List.mem_reverse.mp member)) fun nonempty => ?_
          rw [List.getLast_reverse]
          exact zero
        have positive : n ≠ 0 := by
          rintro rfl
          rw [Nat.digits_zero] at digits
          exact List.cons_ne_nil _ _ (List.reverse_eq_nil_iff.mp digits.symm)
        rw [numeral, lowDigits, if_neg positive, digits, List.map_reverse, List.reverse_reverse]
        rfl

theorem isNumeral_numeral (valid : 1 < base) (table : ∀ c d, valueOf c = some d ↔ d < base ∧ c = digit d) (n : Nat) :
    IsNumeral base valueOf (numeral base digit n) n := by
  have reversed : numeral base digit n = (lowDigits base n).reverse.map digit := List.map_reverse.symm
  have smalls : ∀ d ∈ (lowDigits base n).reverse, d < base := fun d member =>
    lowDigits_lt valid d (List.mem_reverse.mp member)
  have value : n = Nat.ofDigits base (lowDigits base n).reverse.reverse := by
    rw [List.reverse_reverse, ofDigits_lowDigits]
  rw [reversed]
  cases highest : (lowDigits base n).reverse with
  | nil =>
    have positive := lowDigits_length_pos base n
    rw [List.reverse_eq_nil_iff.mp highest] at positive
    exact absurd positive (Nat.lt_irrefl 0)
  | cons d ds =>
    rw [highest] at smalls value
    refine ⟨(readDigits_iff table).mpr ⟨d :: ds, smalls, rfl, ?_⟩, ?_⟩
    · rw [Nat.zero_mul, Nat.zero_add]
      exact value
    · intro c rest same zero
      obtain ⟨rfl, rfl⟩ := List.cons.inj same
      -- the first character is that of `d`, so `d` is zero
      have known := (table (digit d) d).mpr ⟨smalls d List.mem_cons_self, rfl⟩
      obtain rfl : d = 0 := Option.some.inj (known.symm.trans zero)
      have low : lowDigits base n = ds.reverse ++ [0] := by
        rw [← List.reverse_reverse (lowDigits base n), highest, List.reverse_cons]
      rw [List.reverse_eq_nil_iff.mp (lowDigits_highest low)]
      rfl

end Reading

end Dserver.Lib
