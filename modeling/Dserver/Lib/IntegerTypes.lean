import Mathlib.Data.Int.Basic
import Mathlib.Tactic.Positivity
import Mathlib.Tactic.Ring

/-!
# Integer types of C

A type is its signedness and its width. An operator converts its operands to a common type first. A signed result that
the type does not hold is a trap, as is a division by zero; an unsigned result wraps.
-/

namespace Dserver.Lib

structure IntegerType where
  signed : Bool
  bits : Nat
  bits_pos : 0 < bits
  deriving DecidableEq

/-- What is undefined in an arithmetic operation. -/
inductive Trap where
  | overflow
  | divideByZero
  deriving DecidableEq, Repr

namespace IntegerType

def least (T : IntegerType) : Int := if T.signed then -2 ^ (T.bits - 1) else 0

def greatest (T : IntegerType) : Int := if T.signed then 2 ^ (T.bits - 1) - 1 else 2 ^ T.bits - 1

def Holds (T : IntegerType) (v : Int) : Prop := T.least ≤ v ∧ v ≤ T.greatest

instance (T : IntegerType) (v : Int) : Decidable (T.Holds v) := inferInstanceAs (Decidable (_ ∧ _))

structure Value (T : IntegerType) where
  val : Int
  holds : T.Holds val

def int : IntegerType := ⟨true, 32, by decide⟩

/-- The common type of an operand of type `T` and an `int`. -/
def withInt (T : IntegerType) : IntegerType := if T.bits < int.bits then int else T

/-- Modulo `2 ^ bits`, in the range of the type. -/
def wrap (T : IntegerType) (v : Int) : Int := if T.signed then v.bmod (2 ^ T.bits) else v % 2 ^ T.bits

variable {T : IntegerType} {v : Int}

theorem signed_range (signed : T.signed = true) :
    T.least = -2 ^ (T.bits - 1) ∧ T.greatest = 2 ^ (T.bits - 1) - 1 :=
  ⟨if_pos signed, if_pos signed⟩

theorem unsigned_range (unsigned : ¬T.signed = true) : T.least = 0 ∧ T.greatest = 2 ^ T.bits - 1 :=
  ⟨if_neg unsigned, if_neg unsigned⟩

theorem two_pow_bits (T : IntegerType) : (2 : Int) ^ T.bits = 2 * 2 ^ (T.bits - 1) := by
  obtain ⟨n, bits⟩ := Nat.exists_eq_succ_of_ne_zero (Nat.ne_of_gt T.bits_pos)
  rw [bits, Nat.succ_sub_one, pow_succ]
  ring

theorem holds_wrap (T : IntegerType) (v : Int) : T.Holds (T.wrap v) := by
  have double := T.two_pow_bits
  unfold Holds wrap
  split
  · rename_i signed
    obtain ⟨least, greatest⟩ := signed_range signed
    have low := Int.le_bmod (x := v) (Nat.two_pow_pos T.bits)
    have high := Int.bmod_lt (x := v) (Nat.two_pow_pos T.bits)
    push_cast at low high
    rw [least, greatest]
    omega
  · rename_i unsigned
    obtain ⟨least, greatest⟩ := unsigned_range unsigned
    have positive : (0 : Int) < 2 ^ T.bits := by positivity
    have low := Int.emod_nonneg v (Int.ne_of_gt positive)
    have high := Int.emod_lt_of_pos v positive
    rw [least, greatest]
    omega

theorem wrap_of_holds (h : T.Holds v) : T.wrap v = v := by
  have double := T.two_pow_bits
  obtain ⟨low, high⟩ := h
  unfold wrap
  split
  · rename_i signed
    obtain ⟨least, greatest⟩ := signed_range signed
    rw [least] at low
    rw [greatest] at high
    apply Int.bmod_eq_of_le
    · push_cast
      omega
    · push_cast
      omega
  · rename_i unsigned
    obtain ⟨least, greatest⟩ := unsigned_range unsigned
    rw [least] at low
    rw [greatest] at high
    exact Int.emod_eq_of_lt low (by omega)

/-- A conversion. -/
def cast (T : IntegerType) (v : Int) : T.Value := ⟨T.wrap v, T.holds_wrap v⟩

theorem cast_val (h : T.Holds v) : (T.cast v).val = v := wrap_of_holds h

theorem Value.cast_self (a : T.Value) : T.cast a.val = a := by
  obtain ⟨v, holds⟩ := a
  simp only [cast, wrap_of_holds holds]

/-! ### The range -/

theorem least_nonpos (T : IntegerType) : T.least ≤ 0 := by
  have positive : (0 : Int) < 2 ^ (T.bits - 1) := by positivity
  unfold least
  split <;> omega

theorem greatest_nonneg (T : IntegerType) : 0 ≤ T.greatest := by
  have half : (0 : Int) < 2 ^ (T.bits - 1) := by positivity
  have positive : (0 : Int) < 2 ^ T.bits := by positivity
  unfold greatest
  split <;> omega

/-- What lies between a value and zero is in the range. -/
theorem Holds.toward_zero {w : Int} (h : T.Holds v) (between : 0 ≤ w ∧ w ≤ v ∨ v ≤ w ∧ w ≤ 0) : T.Holds w := by
  have low := T.least_nonpos
  have high := T.greatest_nonneg
  unfold Holds at h ⊢
  omega

/-- The bounds of the widest signed and of the widest unsigned type. -/
theorem Holds.bounds {n : Nat} (h : T.Holds v) (small : T.bits ≤ n + 1) : -2 ^ n ≤ v ∧ v < 2 ^ (n + 1) := by
  have half : (2 : Int) ^ (T.bits - 1) ≤ 2 ^ n := pow_le_pow_right₀ (by decide) (by omega)
  have whole : (2 : Int) ^ T.bits ≤ 2 ^ (n + 1) := pow_le_pow_right₀ (by decide) small
  have double := T.two_pow_bits
  have positive : (0 : Int) < 2 ^ (T.bits - 1) := by positivity
  obtain ⟨low, high⟩ := h
  unfold least at low
  unfold greatest at high
  split at low <;> split at high <;> omega

theorem holds_withInt (h : T.Holds v) : T.withInt.Holds v := by
  unfold withInt
  split
  · rename_i narrow
    obtain ⟨low, high⟩ := h
    have bound : (2 : Int) ^ T.bits ≤ 2 ^ 31 := pow_le_pow_right₀ (by decide) (Nat.le_of_lt_succ narrow)
    have double := T.two_pow_bits
    have positive : (0 : Int) < 2 ^ (T.bits - 1) := by positivity
    show -2 ^ 31 ≤ v ∧ v ≤ 2 ^ 31 - 1
    unfold least at low
    unfold greatest at high
    split at low <;> split at high <;> omega
  · exact h

/-- An `int` that is not negative is the same in the common type. -/
theorem holds_withInt_of_int (h : int.Holds v) (nonneg : 0 ≤ v) : T.withInt.Holds v := by
  unfold withInt
  split
  · exact h
  · rename_i wide
    have bits : 32 ≤ T.bits := Nat.le_of_not_lt wide
    have small : v ≤ 2 ^ 31 - 1 := h.2
    have half : (2 : Int) ^ 31 ≤ 2 ^ (T.bits - 1) := pow_le_pow_right₀ (by decide) (Nat.le_sub_one_of_lt bits)
    have double := T.two_pow_bits
    have low := T.least_nonpos
    refine ⟨by omega, ?_⟩
    unfold greatest
    split <;> omega

/-! ### Division -/

/-- A result of an operation in `T`. -/
def result (T : IntegerType) (v : Int) : Except Trap T.Value :=
  if T.signed = true ∧ ¬T.Holds v then .error .overflow else .ok (T.cast v)

def Value.div (a b : T.Value) : Except Trap T.Value :=
  if b.val = 0 then .error .divideByZero else T.result (a.val.tdiv b.val)

/-- The remainder is undefined where the quotient is. -/
def Value.rem (a b : T.Value) : Except Trap T.Value := do
  let _ ← a.div b
  T.result (a.val.tmod b.val)

/-- `a / n` with an `int` on the right. -/
def Value.divInt (a : T.Value) (n : int.Value) : Except Trap T.withInt.Value :=
  (T.withInt.cast a.val).div (T.withInt.cast n.val)

/-- `a % n` with an `int` on the right. -/
def Value.remInt (a : T.Value) (n : int.Value) : Except Trap T.withInt.Value :=
  (T.withInt.cast a.val).rem (T.withInt.cast n.val)

theorem result_of_holds (h : T.Holds v) : T.result v = .ok ⟨v, h⟩ := by
  rw [result, if_neg (fun out => out.2 h)]
  exact congrArg Except.ok (Value.cast_self ⟨v, h⟩)

theorem tdiv_between {a b : Int} (positive : 0 < b) : 0 ≤ a.tdiv b ∧ a.tdiv b ≤ a ∨ a ≤ a.tdiv b ∧ a.tdiv b ≤ 0 := by
  rcases Int.le_total 0 a with nonneg | nonpos
  · exact .inl ⟨Int.tdiv_nonneg nonneg (Int.le_of_lt positive), Int.tdiv_le_self b nonneg⟩
  · have nonneg : 0 ≤ -a := by omega
    have low := Int.tdiv_nonneg nonneg (Int.le_of_lt positive)
    have high := Int.tdiv_le_self b nonneg
    rw [Int.neg_tdiv] at low high
    exact .inr ⟨by omega, by omega⟩

theorem tmod_between {a b : Int} : 0 ≤ a.tmod b ∧ a.tmod b ≤ a ∨ a ≤ a.tmod b ∧ a.tmod b ≤ 0 := by
  have small : (a.tmod b).natAbs ≤ a.natAbs := by
    rw [Int.natAbs_tmod]
    exact Nat.mod_le _ _
  rcases Int.le_total 0 a with nonneg | nonpos
  · have low := Int.tmod_nonneg b nonneg
    omega
  · have low := Int.tmod_nonneg b (by omega : 0 ≤ -a)
    rw [Int.neg_tmod] at low
    omega

/-- A remainder by an `int` fits in an `int`, whatever the type of the dividend. -/
theorem int_holds_tmod (a : Int) {n : int.Value} (positive : 0 < n.val) : int.Holds (a.tmod n.val) := by
  have high : n.val ≤ 2 ^ 31 - 1 := n.holds.2
  have small : (a.tmod n.val).natAbs < n.val.natAbs := by
    rw [Int.natAbs_tmod]
    exact Nat.mod_lt _ (by omega)
  show -2 ^ 31 ≤ a.tmod n.val ∧ a.tmod n.val ≤ 2 ^ 31 - 1
  omega

theorem div_of_pos {a b : T.Value} (positive : 0 < b.val) :
    a.div b = .ok ⟨a.val.tdiv b.val, a.holds.toward_zero (tdiv_between positive)⟩ := by
  rw [Value.div, if_neg (Int.ne_of_gt positive), result_of_holds]

theorem rem_of_pos {a b : T.Value} (positive : 0 < b.val) :
    a.rem b = .ok ⟨a.val.tmod b.val, a.holds.toward_zero tmod_between⟩ := by
  rw [Value.rem, div_of_pos positive]
  exact result_of_holds _

/-- The operands of a division by a positive `int` keep their values in the common type. -/
theorem operands_withInt (a : T.Value) {n : int.Value} (positive : 0 < n.val) :
    (T.withInt.cast a.val).val = a.val ∧ (T.withInt.cast n.val).val = n.val :=
  ⟨cast_val (holds_withInt a.holds), cast_val (holds_withInt_of_int n.holds (Int.le_of_lt positive))⟩

theorem divInt_of_pos (a : T.Value) {n : int.Value} (positive : 0 < n.val) :
    ∃ q, a.divInt n = .ok q ∧ q.val = a.val.tdiv n.val := by
  obtain ⟨left, right⟩ := operands_withInt a positive
  refine ⟨_, div_of_pos (by rw [right]; exact positive), ?_⟩
  dsimp only
  rw [left, right]

theorem remInt_of_pos (a : T.Value) {n : int.Value} (positive : 0 < n.val) :
    ∃ r, a.remInt n = .ok r ∧ r.val = a.val.tmod n.val := by
  obtain ⟨left, right⟩ := operands_withInt a positive
  refine ⟨_, rem_of_pos (by rw [right]; exact positive), ?_⟩
  dsimp only
  rw [left, right]

end IntegerType

end Dserver.Lib
