import Dserver.Lib.Numerals

/-!
# Numerals of a fixed width

Texts of one length are compared like what they say: numerals with leading zeros like numbers, and texts made of such
numerals like the lists of their numbers.
-/

namespace Dserver.Lib

section Order

variable {α : Type} [LT α]

theorem append_lt_append {xs ys xs' ys' : List α} (length : xs.length = ys.length) (less : xs < ys) :
    xs ++ xs' < ys ++ ys' := by
  induction xs generalizing ys with
  | nil =>
    cases ys with
    | nil => exact absurd less (List.not_lt_nil [])
    | cons y rest => cases length
  | cons x rest ih =>
    cases ys with
    | nil => cases length
    | cons y rest' =>
      rw [List.cons_append, List.cons_append, List.cons_lt_cons_iff]
      rcases List.cons_lt_cons_iff.mp less with first | ⟨same, later⟩
      · exact .inl first
      · exact .inr ⟨same, ih (Nat.succ.inj length) later⟩

end Order

section Numerals

variable {α : Type} {base : Nat} {digit : Nat → α}

/-- The last `width` digits. -/
def fixedNumeral (base : Nat) (digit : Nat → α) : Nat → Nat → List α
  | 0, _ => []
  | width + 1, n => fixedNumeral base digit width (n / base) ++ [digit (n % base)]

theorem fixedNumeral_length (width n : Nat) : (fixedNumeral base digit width n).length = width := by
  induction width generalizing n with
  | zero => rfl
  | succ width ih => rw [fixedNumeral, List.length_append, ih, List.length_singleton]

theorem fixedNumeral_lt [LT α] (increasing : ∀ d e, d < e → e < base → digit d < digit e) {width n m : Nat}
    (small : m < base ^ width) (less : n < m) :
    fixedNumeral base digit width n < fixedNumeral base digit width m := by
  induction width generalizing n m with
  | zero =>
    rw [Nat.pow_zero] at small
    omega
  | succ width ih =>
    have positive : 0 < base := by
      by_contra zero
      rw [Nat.eq_zero_of_not_pos zero, Nat.zero_pow (Nat.succ_pos width)] at small
      omega
    have small' : m / base < base ^ width := Nat.div_lt_of_lt_mul (by rwa [Nat.mul_comm, ← Nat.pow_succ])
    rw [fixedNumeral, fixedNumeral]
    rcases Nat.lt_or_eq_of_le (Nat.div_le_div_right (c := base) (Nat.le_of_lt less)) with higher | same
    · refine append_lt_append ?_ (ih small' higher)
      rw [fixedNumeral_length, fixedNumeral_length]
    · rw [same]
      apply List.append_left_lt
      refine List.cons_lt_cons_iff.mpr (.inl (increasing _ _ ?_ (Nat.mod_lt m positive)))
      have split := Nat.div_add_mod n base
      have split' := Nat.div_add_mod m base
      rw [same] at split
      omega

theorem numeral_eq (valid : 1 < base) (n : Nat) :
    numeral base digit n = (if n / base = 0 then [] else numeral base digit (n / base)) ++ [digit (n % base)] := by
  unfold numeral
  rw [lowDigits_eq valid]
  split
  · rfl
  · rw [List.map_cons, List.reverse_cons]

theorem fixedNumeral_zero (width : Nat) : fixedNumeral base digit width 0 = List.replicate width (digit 0) := by
  induction width with
  | zero => rfl
  | succ width ih => rw [fixedNumeral, Nat.zero_div, ih, Nat.zero_mod, List.replicate_succ']

/-- A numeral with leading zeros. -/
theorem fixedNumeral_eq (valid : 1 < base) {width n : Nat} (positive : 0 < width) (small : n < base ^ width) :
    fixedNumeral base digit width n =
      List.replicate (width - (numeral base digit n).length) (digit 0) ++ numeral base digit n := by
  induction width generalizing n with
  | zero => omega
  | succ width ih =>
    rw [fixedNumeral, numeral_eq valid]
    by_cases last : n / base = 0
    · rw [if_pos last, last, fixedNumeral_zero]
      rfl
    · have small' : n / base < base ^ width := Nat.div_lt_of_lt_mul (by rwa [Nat.mul_comm, ← Nat.pow_succ])
      have positive' : 0 < width := by
        by_contra zero
        rw [Nat.eq_zero_of_not_pos zero, Nat.pow_zero] at small'
        exact last (Nat.lt_one_iff.mp small')
      rw [if_neg last, ih positive' small', List.length_append, List.length_singleton, List.append_assoc,
        Nat.add_sub_add_right]

theorem fixedNumeral_map (width n : Nat) :
    fixedNumeral base digit width n = (fixedNumeral base id width n).map digit := by
  induction width generalizing n with
  | zero => rfl
  | succ width ih => rw [fixedNumeral, fixedNumeral, List.map_append, ih, List.map_singleton, id]

theorem fixedNumeral_value {width n : Nat} (positive : 0 < base) (small : n < base ^ width) :
    (∀ d ∈ fixedNumeral base id width n, d < base) ∧
      Nat.ofDigits base (fixedNumeral base id width n).reverse = n := by
  induction width generalizing n with
  | zero =>
    rw [Nat.pow_zero] at small
    exact ⟨nofun, (Nat.lt_one_iff.mp small).symm⟩
  | succ width ih =>
    have small' : n / base < base ^ width := Nat.div_lt_of_lt_mul (by rwa [Nat.mul_comm, ← Nat.pow_succ])
    obtain ⟨digits, value⟩ := ih small'
    rw [fixedNumeral]
    constructor
    · intro d member
      rcases List.mem_append.mp member with higher | last
      · exact digits d higher
      · rw [List.mem_singleton.mp last]
        exact Nat.mod_lt n positive
    · rw [List.reverse_append, List.reverse_singleton, List.singleton_append, Nat.ofDigits_cons, value]
      exact Nat.mod_add_div n base

/-- A numeral with leading zeros reads as its number. -/
theorem readNumeral_fixed {valueOf : α → Option Nat} (table : ∀ c d, valueOf c = some d ↔ d < base ∧ c = digit d)
    {width n : Nat} (wide : 0 < width) (positive : 0 < base) (small : n < base ^ width) :
    readNumeral base valueOf (fixedNumeral base digit width n) = some n := by
  obtain ⟨digits, value⟩ := fixedNumeral_value positive small
  have reads : readDigits base valueOf 0 (fixedNumeral base digit width n) = some n := by
    apply (readDigits_iff table).mpr
    refine ⟨fixedNumeral base id width n, digits, fixedNumeral_map width n, ?_⟩
    rw [Nat.zero_mul, Nat.zero_add, value]
  have length := (fixedNumeral_length width n : (fixedNumeral base digit width n).length = width)
  cases text : fixedNumeral base digit width n with
  | nil =>
    rw [text, List.length_nil] at length
    omega
  | cons c rest =>
    rw [text] at reads
    exact reads

end Numerals

/-! ### Texts made of numerals -/

section Fields

variable {α : Type} {base : Nat} {digit : Nat → α}

/-- Each field has a width, and a text behind it. -/
def fieldsText (base : Nat) (digit : Nat → α) : List (Nat × List α) → List Nat → List α
  | field :: fields, n :: ns => fixedNumeral base digit field.1 n ++ field.2 ++ fieldsText base digit fields ns
  | _, _ => []

@[simp] theorem fieldsText_nil (fields : List (Nat × List α)) : fieldsText base digit fields [] = [] := by
  cases fields with
  | nil => rfl
  | cons field rest => rfl

theorem fieldsText_lt [LT α] (increasing : ∀ d e, d < e → e < base → digit d < digit e)
    {fields : List (Nat × List α)} {ns ms : List Nat} (length : ns.length = fields.length)
    (fits : List.Forall₂ (fun field m => m < base ^ field.1) fields ms) (less : ns < ms) :
    fieldsText base digit fields ns < fieldsText base digit fields ms := by
  induction fits generalizing ns with
  | nil => exact absurd less (List.not_lt_nil _)
  | @cons field m fields ms small _ ih =>
    cases ns with
    | nil => cases length
    | cons n ns =>
      rw [fieldsText, fieldsText]
      rcases List.cons_lt_cons_iff.mp less with first | ⟨rfl, later⟩
      · rw [List.append_assoc, List.append_assoc]
        refine append_lt_append ?_ (fixedNumeral_lt increasing small first)
        rw [fixedNumeral_length, fixedNumeral_length]
      · exact List.append_left_lt (ih (Nat.succ.inj length) later)

end Fields

end Dserver.Lib
