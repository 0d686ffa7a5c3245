import Dserver.Base.StreamContents
import Dserver.Lib.IntegerTypes

/-!
# `convert` in machine arithmetic

`LogStream.convert` computes in `Int`. Here `T` is the type of the argument, and each operation is made in the type in
which C makes it, with a fault where the result is undefined. Nothing is negated: the remainders of a negative number
are negative, and the table has the digits on both sides of `zero`.
-/

namespace Dserver.Detail

open Lib (IntegerType)
open Lib.IntegerType (int)

inductive Fault where
  | arithmetic (trap : Lib.Trap)
  | memory (fault : LogStream.Fault)
  | unfinished
  deriving DecidableEq, Repr

def arithmetic {α : Type} : Except Lib.Trap α → Except Fault α := Except.mapError .arithmetic

def memory {α : Type} : Except LogStream.Fault α → Except Fault α := Except.mapError .memory

variable {T : IntegerType}

/-- The loop of `convert` and `convertHex`; `fuel` bounds its rounds. -/
def digitLoop (base : int.Value) (digitOf : Int → Except LogStream.Fault UInt8) :
    Nat → List UInt8 → Nat → T.Value → Except Fault (List UInt8 × Nat)
  | 0, _, _, _ => .error .unfinished
  | fuel + 1, data, p, i => do
    let remainder ← arithmetic (i.remInt base)
    let lsd := int.cast remainder.val
    let quotient ← arithmetic (i.divInt base)
    let i := T.cast quotient.val
    let c ← memory (digitOf lsd.val)
    let data ← memory (Lib.put .outside data p c)
    let p := p + 1
    if i.val ≠ 0 then digitLoop base digitOf fuel data p i else .ok (data, p)

def ten : int.Value := ⟨10, by decide⟩

def sixteen : int.Value := ⟨16, by decide⟩

def uintptr : IntegerType := ⟨false, 64, by decide⟩

def convert (data : List UInt8) (buf : Nat) (value : T.Value) : Except Fault (List UInt8 × Nat) := do
  let (data, p) ← digitLoop ten LogStream.zero (value.val.natAbs + 1) data buf value
  let (data, p) ←
    if value.val < 0 then do
      let data ← memory (Lib.put .outside data p 45)
      .ok (data, p + 1)
    else .ok (data, p)
  let data ← memory (Lib.put .outside data p 0)
  .ok (Lib.reverseCells data buf p, p - buf)

def convertHex (data : List UInt8) (buf : Nat) (value : uintptr.Value) : Except Fault (List UInt8 × Nat) := do
  let (data, p) ← digitLoop sixteen LogStream.digitsHex (value.val.natAbs + 1) data buf value
  let data ← memory (Lib.put .outside data p 0)
  .ok (Lib.reverseCells data buf p, p - buf)

/-! ### The same as in `Int` -/

theorem memory_bind {α β : Type} (x : Except LogStream.Fault α) (f : α → Except LogStream.Fault β) :
    memory (x >>= f) = memory x >>= fun a => memory (f a) := by
  cases x <;> rfl

theorem digitLoop_eq {base : int.Value} (valid : 1 < base.val) (digitOf : Int → Except LogStream.Fault UInt8)
    {fuel : Nat} {data : List UInt8} {p : Nat} {i : T.Value} (enough : i.val.natAbs < fuel) :
    digitLoop base digitOf fuel data p i =
      memory (Lib.writeDigits .outside base.val digitOf fuel data p i.val) := by
  induction fuel generalizing data p i with
  | zero => omega
  | succ fuel ih =>
    have positive : 0 < base.val := by omega
    obtain ⟨r, remainder, last⟩ := IntegerType.remInt_of_pos i positive
    obtain ⟨q, quotient, rest⟩ := IntegerType.divInt_of_pos i positive
    have lsd : (int.cast r.val).val = i.val.tmod base.val := by
      rw [last]
      exact IntegerType.cast_val (IntegerType.int_holds_tmod _ positive)
    have next : (T.cast q.val).val = i.val.tdiv base.val := by
      rw [rest]
      exact IntegerType.cast_val (i.holds.toward_zero (IntegerType.tdiv_between positive))
    rw [digitLoop, remainder, quotient, Lib.writeDigits, memory_bind]
    show (do
      let c ← memory (digitOf (int.cast r.val).val)
      let data ← memory (Lib.put .outside data p c)
      if (T.cast q.val).val ≠ 0 then digitLoop base digitOf fuel data (p + 1) (T.cast q.val) else .ok (data, p + 1)) = _
    rw [lsd]
    refine congrArg _ (funext fun c => ?_)
    rw [memory_bind]
    refine congrArg _ (funext fun data => ?_)
    rw [next]
    split
    · rename_i more
      have less := Lib.natAbs_tdiv_lt valid more
      rw [ih (by rw [next]; omega), next]
    · rfl

theorem convert_eq (data : List UInt8) (buf : Nat) (value : T.Value) :
    convert data buf value = memory (LogStream.convert data buf value.val) := by
  rw [convert, digitLoop_eq (by decide) LogStream.zero (Nat.lt_succ_self _), LogStream.convert, memory_bind]
  refine congrArg _ (funext fun written => ?_)
  obtain ⟨data, p⟩ := written
  dsimp only
  split
  · rw [memory_bind]
    refine congrArg _ (funext fun data => ?_)
    rw [Lib.ok_bind, Lib.ok_bind, memory_bind]
    rfl
  · rw [Lib.ok_bind, Lib.ok_bind, memory_bind]
    rfl

theorem uintptr_val (value : uintptr.Value) : value.val = value.val.toNat := by
  have nonneg : 0 ≤ value.val := value.holds.1
  omega

theorem convertHex_eq (data : List UInt8) (buf : Nat) (value : uintptr.Value) :
    convertHex data buf value = memory (LogStream.convertHex data buf value.val.toNat) := by
  have fuel : value.val.natAbs = value.val.toNat := by
    have nonneg := uintptr_val value
    omega
  rw [convertHex, digitLoop_eq (by decide) LogStream.digitsHex (Nat.lt_succ_self _), LogStream.convertHex, memory_bind,
    ← uintptr_val, fuel]
  refine congrArg _ (funext fun written => ?_)
  obtain ⟨data, p⟩ := written
  dsimp only
  rw [memory_bind]
  rfl

/-! ### What the stream calls -/

def isSigned : LogStream.IntType → Bool
  | .short | .int | .long | .longLong => true
  | .unsignedShort | .unsignedInt | .unsignedLong | .unsignedLongLong => false

def width : LogStream.IntType → Nat
  | .short | .unsignedShort => 16
  | .int | .unsignedInt => 32
  | .long | .unsignedLong | .longLong | .unsignedLongLong => 64

theorem width_pos (t : LogStream.IntType) : 0 < width t := by
  cases t <;> decide

def machine (t : LogStream.IntType) : IntegerType := ⟨isSigned t, width t, width_pos t⟩

theorem machine_range (t : LogStream.IntType) : (machine t).least = t.least ∧ (machine t).greatest = t.greatest := by
  cases t <;> decide

def argument (v : LogStream.Integer) : (machine v.type).Value where
  val := v.value
  holds := by
    obtain ⟨least, greatest⟩ := machine_range v.type
    exact ⟨least ▸ v.least_le, greatest ▸ v.le_greatest⟩

def address (p : UInt64) : uintptr.Value where
  val := p.toNat
  holds := ⟨Int.natCast_nonneg _, Int.le_sub_one_of_lt (Int.ofNat_lt.mpr p.toNat_lt)⟩

theorem memory_ite {α : Type} (c : Prop) [Decidable c] (x y : Except LogStream.Fault α) :
    memory (if c then x else y) = if c then memory x else memory y := apply_ite memory c x y

/-- `formatInteger` in the type of its argument. -/
theorem formatInteger_eq (s : LogStream) (v : LogStream.Integer) :
    memory (s.formatInteger v.value) =
      if LogStream.kMaxNumericSize ≤ s.avail then do
        let (data, len) ← convert s.data s.cur (argument v)
        .ok { data, cur := s.cur + len }
      else .ok s := by
  rw [LogStream.formatInteger, memory_ite, memory_bind, convert_eq]
  rfl

/-- `operator<<` of a pointer, with `convertHex` in `uintptr_t`. -/
theorem formatPointer_eq (s : LogStream) (p : UInt64) :
    memory (s.formatPointer p.toNat) =
      if LogStream.kMaxNumericSize ≤ s.avail then do
        let data ← memory (Lib.put .outside s.data s.cur 48)
        let data ← memory (Lib.put .outside data (s.cur + 1) 120)
        let (data, len) ← convertHex data (s.cur + 2) (address p)
        .ok { data, cur := s.cur + (len + 2) }
      else .ok s := by
  rw [LogStream.formatPointer, memory_ite]
  dsimp only
  simp only [memory_bind, convertHex_eq]
  rfl

/-! ### The texts -/

def decimalValue (c : UInt8) : Option Nat := if 48 ≤ c ∧ c ≤ 57 then some (c.toNat - 48) else none

/-- The value of an upper-case hexadecimal digit. -/
def hexValue (c : UInt8) : Option Nat :=
  if 48 ≤ c ∧ c ≤ 57 then some (c.toNat - 48) else if 65 ≤ c ∧ c ≤ 70 then some (c.toNat - 55) else none

/-- The text behind the sign. -/
def magnitude : List UInt8 → List UInt8
  | 45 :: digits => digits
  | digits => digits

def readDecimal (text : List UInt8) : Option Int :=
  (Lib.readNumeral 10 decimalValue (magnitude text)).map fun n : Nat => if text.head? = some 45 then -(n : Int) else n

/-- The canonical numeral of `v`: read back it is `v`, it has a sign exactly for a negative number, and there is no
leading zero. -/
structure IsDecimal (text : List UInt8) (v : Int) : Prop where
  reads : readDecimal text = some v
  sign : text.head? = some 45 ↔ v < 0
  no_leading_zero : ∀ rest, magnitude text = 48 :: rest → rest = []

theorem eq_ofNat_iff {c : UInt8} {n : Nat} (small : n < 256) : c = UInt8.ofNat n ↔ c.toNat = n := by
  rw [← UInt8.toNat_inj, UInt8.toNat_ofNat_of_lt' small]

theorem decimalValue_iff (c : UInt8) (d : Nat) : decimalValue c = some d ↔ d < 10 ∧ c = LogStream.decimalDigit d := by
  have between : 48 ≤ c ∧ c ≤ 57 ↔ 48 ≤ c.toNat ∧ c.toNat ≤ 57 := Iff.rfl
  rw [decimalValue, if_congr between rfl rfl, LogStream.decimalDigit]
  constructor
  · intro known
    split at known
    · obtain rfl := Option.some.inj known
      exact ⟨by omega, (eq_ofNat_iff (by omega)).mpr (by omega)⟩
    · cases known
  · rintro ⟨small, same⟩
    have code := (eq_ofNat_iff (by omega)).mp same
    rw [if_pos (by omega), code, Nat.add_sub_cancel_left]

theorem hexValue_iff (c : UInt8) (d : Nat) : hexValue c = some d ↔ d < 16 ∧ c = LogStream.hexDigit d := by
  have digit : 48 ≤ c ∧ c ≤ 57 ↔ 48 ≤ c.toNat ∧ c.toNat ≤ 57 := Iff.rfl
  have letter : 65 ≤ c ∧ c ≤ 70 ↔ 65 ≤ c.toNat ∧ c.toNat ≤ 70 := Iff.rfl
  rw [hexValue, if_congr digit rfl (if_congr letter rfl rfl), LogStream.hexDigit]
  constructor
  · intro known
    split at known
    · obtain rfl := Option.some.inj known
      rw [if_pos (by omega)]
      exact ⟨by omega, (eq_ofNat_iff (by omega)).mpr (by omega)⟩
    · split at known
      · obtain rfl := Option.some.inj known
        rw [if_neg (by omega)]
        exact ⟨by omega, (eq_ofNat_iff (by omega)).mpr (by omega)⟩
      · cases known
  · rintro ⟨small, same⟩
    split at same
    · have code := (eq_ofNat_iff (by omega)).mp same
      rw [if_pos (by omega), code, Nat.add_sub_cancel_left]
    · have code := (eq_ofNat_iff (by omega)).mp same
      rw [if_neg (by omega), if_pos (by omega), code, Nat.add_sub_cancel_left]

theorem eq_cons_magnitude {text : List UInt8} (signed : text.head? = some 45) : text = 45 :: magnitude text := by
  cases text with
  | nil => cases signed
  | cons c rest =>
    obtain rfl := Option.some.inj signed
    rfl

theorem magnitude_eq {text : List UInt8} (plain : text.head? ≠ some 45) : magnitude text = text := by
  unfold magnitude
  split
  · exact absurd rfl plain
  · rfl

theorem isNumeral_ten (n : Nat) : Lib.IsNumeral 10 decimalValue (Lib.numeral 10 LogStream.decimalDigit n) n :=
  Lib.isNumeral_numeral (by decide) decimalValue_iff n

/-- A numeral starts with a digit. -/
theorem numeral_ten_head (n : Nat) : (Lib.numeral 10 LogStream.decimalDigit n).head? ≠ some 45 := by
  have reads := (isNumeral_ten n).reads
  cases text : Lib.numeral 10 LogStream.decimalDigit n with
  | nil => nofun
  | cons c rest =>
    rw [text] at reads
    intro signed
    obtain rfl := Option.some.inj signed
    cases reads

theorem IsDecimal.isNumeral {text : List UInt8} {v : Int} (h : IsDecimal text v) :
    Lib.IsNumeral 10 decimalValue (magnitude text) v.natAbs := by
  obtain ⟨n, read, value⟩ := Option.map_eq_some_iff.mp h.reads
  have same : n = v.natAbs := by
    split at value <;> omega
  refine ⟨same ▸ read, fun c rest first zero => h.no_leading_zero rest ?_⟩
  obtain ⟨-, rfl⟩ := (decimalValue_iff c 0).mp zero
  exact first

theorem isDecimal_decimal (v : Int) : IsDecimal (LogStream.decimal v) v := by
  have numeral := isNumeral_ten v.natAbs
  have plain := numeral_ten_head v.natAbs
  have leading : ∀ rest, Lib.numeral 10 LogStream.decimalDigit v.natAbs = 48 :: rest → rest = [] :=
    fun rest first => numeral.no_leading_zero 48 rest first rfl
  rw [LogStream.decimal]
  split
  · rename_i negative
    refine ⟨?_, iff_of_true rfl negative, leading⟩
    rw [readDecimal, List.singleton_append, magnitude, numeral.reads, Option.map_some, List.head?_cons, if_pos rfl]
    exact congrArg some (by omega)
  · rename_i nonneg
    rw [List.nil_append]
    refine ⟨?_, iff_of_false plain nonneg, by rw [magnitude_eq plain]; exact leading⟩
    rw [readDecimal, magnitude_eq plain, numeral.reads, Option.map_some, if_neg plain]
    exact congrArg some (by omega)

/-- `decimal` is the canonical numeral, and there is no other. -/
theorem isDecimal_iff {text : List UInt8} {v : Int} : IsDecimal text v ↔ text = LogStream.decimal v := by
  constructor
  · intro h
    have digits := h.isNumeral.eq_numeral (by decide) decimalValue_iff
    rw [LogStream.decimal]
    split
    · rename_i negative
      rw [eq_cons_magnitude (h.sign.mpr negative), digits]
      rfl
    · rename_i nonneg
      rw [← digits, magnitude_eq fun signed => nonneg (h.sign.mp signed)]
      rfl
  · rintro rfl
    exact isDecimal_decimal v

/-- Every value of every type of at most 64 bits, with no fault of arithmetic, no index outside the tables, and no
write behind the terminator. -/
theorem numerals_canonical (data : List UInt8) (buf : Nat) :
    (∀ (T : IntegerType) (value : T.Value), T.bits ≤ 64 →
      ∃ text, IsDecimal text value.val ∧ text.length + 1 ≤ 21 ∧ (buf + (text.length + 1) ≤ data.length →
        convert data buf value = .ok (Lib.splice data buf (text ++ [0]), text.length))) ∧
    ∀ value : uintptr.Value,
      ∃ text, Lib.IsNumeral 16 hexValue text value.val.toNat ∧ text.length + 1 ≤ 17 ∧
        (buf + (text.length + 1) ≤ data.length →
          convertHex data buf value = .ok (Lib.splice data buf (text ++ [0]), text.length)) := by
  constructor
  · intro T value small
    obtain ⟨low, high⟩ := value.holds.bounds (n := 63) small
    refine ⟨LogStream.decimal value.val, isDecimal_decimal _, Nat.succ_le_succ (LogStream.decimal_length_le low high),
      fun fits => ?_⟩
    rw [convert_eq, LogStream.convert_eq fits]
    rfl
  · intro value
    have small : value.val.toNat < 2 ^ 64 := by
      have high := (value.holds.bounds (n := 63) (Nat.le_refl _)).2
      omega
    refine ⟨LogStream.hexadecimal value.val.toNat, Lib.isNumeral_numeral (by decide) hexValue_iff _,
      Nat.succ_le_succ (LogStream.hexadecimal_length_le small), fun fits => ?_⟩
    rw [convertHex_eq, LogStream.convertHex_eq fits]
    rfl

/-- The least `long`, in an array that it fills. -/
theorem numerals_canonical_least :
    convert (List.replicate 21 0) 0 (T := ⟨true, 64, by decide⟩) ⟨-2 ^ 63, by decide⟩ =
      .ok (literal "-9223372036854775808" ++ [0], 20) := by
  have least : IsDecimal (literal "-9223372036854775808") (-2 ^ 63) :=
    ⟨by decide, by decide, fun rest first => nomatch first⟩
  obtain ⟨text, decimal, -, ran⟩ :=
    (numerals_canonical (List.replicate 21 0) 0).1 ⟨true, 64, by decide⟩ ⟨-2 ^ 63, by decide⟩ (by decide)
  obtain rfl : text = literal "-9223372036854775808" :=
    (isDecimal_iff.mp decimal).trans (isDecimal_iff.mp least).symm
  exact ran (by decide)

end Dserver.Detail
