import Mathlib.Algebra.Order.Ring.Int
import Mathlib.Data.List.Basic

/-!
# Integers of a fixed number of bytes

The lowest byte comes first; a signed integer is read in two's complement.
-/

namespace Dserver.Lib

def littleEndian : List UInt8 → Nat
  | [] => 0
  | byte :: rest => byte.toNat + 256 * littleEndian rest

def lowBytes : Nat → Nat → List UInt8
  | 0, _ => []
  | k + 1, n => UInt8.ofNat n :: lowBytes k (n / 256)

def signed (k : Nat) (bytes : List UInt8) : Int := Int.bmod (littleEndian (bytes.take k)) (256 ^ k)

@[simp] theorem length_lowBytes (k n : Nat) : (lowBytes k n).length = k := by
  induction k generalizing n with
  | zero => rfl
  | succ k ih => rw [lowBytes, List.length_cons, ih]

theorem littleEndian_lowBytes {k n : Nat} (small : n < 256 ^ k) : littleEndian (lowBytes k n) = n := by
  induction k generalizing n with
  | zero =>
    rw [Nat.pow_zero] at small
    rw [lowBytes, littleEndian]
    omega
  | succ k ih =>
    have upper : n / 256 < 256 ^ k := Nat.div_lt_of_lt_mul (by rwa [Nat.pow_succ, Nat.mul_comm] at small)
    have lower : (UInt8.ofNat n).toNat = n % 256 := UInt8.toNat_ofNat
    rw [lowBytes, littleEndian, ih upper, lower]
    exact Nat.mod_add_div n 256

theorem signed_lowBytes {k n : Nat} (small : 2 * n < 256 ^ k) (rest : List UInt8) :
    signed k (lowBytes k n ++ rest) = n := by
  have front : (lowBytes k n ++ rest).take k = lowBytes k n := by
    rw [List.take_append_of_le_length (Nat.le_of_eq (length_lowBytes k n).symm),
      List.take_of_length_le (Nat.le_of_eq (length_lowBytes k n))]
  rw [signed, front, littleEndian_lowBytes (by omega)]
  exact Int.bmod_eq_of_le_mul_two (by omega) (by omega)

theorem signed_append {k : Nat} {bytes : List UInt8} (enough : k ≤ bytes.length) (more : List UInt8) :
    signed k (bytes ++ more) = signed k bytes := by
  rw [signed, List.take_append_of_le_length enough, signed]

theorem signed_take {k m : Nat} (le : k ≤ m) (bytes : List UInt8) : signed k (bytes.take m) = signed k bytes := by
  rw [signed, List.take_take, Nat.min_eq_left le, signed]

end Dserver.Lib
