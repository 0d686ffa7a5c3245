import Mathlib.Tactic.IntervalCases
import Dserver.Base.LogStream

/-!
# What a `LogStream` holds

An insertion is there as a whole or not at all. Text needs one byte more than its length, and a number needs 32 bytes,
whatever its length.
-/

namespace Dserver.LogStream

/-! ### Textual forms -/

def decimalDigit (d : Nat) : UInt8 := UInt8.ofNat (48 + d)

def hexDigit (d : Nat) : UInt8 := UInt8.ofNat (if d < 10 then 48 + d else 55 + d)

def decimal (v : Int) : List UInt8 := (if v < 0 then [45] else []) ++ Lib.numeral 10 decimalDigit v.natAbs

def hexadecimal (n : Nat) : List UInt8 := Lib.numeral 16 hexDigit n

def Insertion.text : Insertion → List UInt8
  | bool v => literal (if v then "1" else "0")
  | char v => [v]
  | cstring (some str) => str.chars
  | cstring none => literal "(null)"
  | string v => v
  | integer v => decimal v.value
  | pointer p => literal "0x" ++ hexadecimal p.toNat
  | double v => v.chars

def Insertion.isNumber : Insertion → Bool
  | bool _ | char _ | cstring _ | string _ => false
  | integer _ | pointer _ | double _ => true

/-- There is room in a stream that holds `fill` bytes. -/
def Insertion.Room (fill : Nat) (i : Insertion) : Prop :=
  if i.isNumber then 32 ≤ kSmallBuffer - fill else i.text.length < kSmallBuffer - fill

instance (fill : Nat) (i : Insertion) : Decidable (i.Room fill) := inferInstanceAs (Decidable (ite _ _ _))

/-! ### The tables and `convert` -/

theorem zero_eq {lsd : Int} (h : lsd.natAbs < 10) : zero lsd = .ok (decimalDigit lsd.natAbs) := by
  have low : -9 ≤ lsd := by omega
  have high : lsd ≤ 9 := by omega
  interval_cases lsd <;> rfl

theorem digitsHex_eq {lsd : Int} (h : lsd.natAbs < 16) (nonneg : 0 ≤ lsd) :
    digitsHex lsd = .ok (hexDigit lsd.natAbs) := by
  have high : lsd ≤ 15 := by omega
  interval_cases lsd <;> rfl

theorem decimal_length (v : Int) :
    (decimal v).length = (Lib.lowDigits 10 v.natAbs).length + if v < 0 then 1 else 0 := by
  rw [decimal, List.length_append, Lib.numeral_length, Nat.add_comm]
  split <;> rfl

theorem decimal_length_le {v : Int} (low : -2 ^ 63 ≤ v) (high : v < 2 ^ 64) : (decimal v).length ≤ 20 := by
  rw [decimal_length]
  split
  · have digits : (Lib.lowDigits 10 v.natAbs).length ≤ 19 := Lib.lowDigits_length_le (by decide) (by decide) (by omega)
    omega
  · exact Lib.lowDigits_length_le (by decide) (by decide) (by omega)

theorem hexadecimal_length_le {n : Nat} (small : n < 2 ^ 64) : (hexadecimal n).length ≤ 16 := by
  rw [hexadecimal, Lib.numeral_length]
  exact Lib.lowDigits_length_le (by decide) (by decide) small

variable {data : List UInt8} {buf : Nat}

theorem finish_convert {low : List UInt8} (fits : buf + low.length < data.length) :
    (do let cells ← Lib.put Fault.outside (Lib.splice data buf low) (buf + low.length) 0
        .ok (Lib.reverseCells cells buf (buf + low.length), buf + low.length - buf)) =
      .ok (Lib.splice data buf (low.reverse ++ [0]), low.length) := by
  have inside : buf ≤ data.length := by omega
  have room : buf + low.length < (Lib.splice data buf low).length := by
    rw [Lib.length_splice (Nat.le_of_lt fits)]
    exact fits
  rw [Lib.put_eq room, Lib.ok_bind, Lib.splice_splice inside, Lib.reverseCells_splice inside, Nat.add_sub_cancel_left]

theorem convert_eq {v : Int} (fits : buf + (decimal v).length < data.length) :
    convert data buf v = .ok (Lib.splice data buf (decimal v ++ [0]), (decimal v).length) := by
  have length := decimal_length v
  have digits : Lib.writeDigits Fault.outside 10 zero (v.natAbs + 1) data buf v =
      .ok (Lib.splice data buf ((Lib.lowDigits 10 v.natAbs).map decimalDigit),
        buf + (Lib.lowDigits 10 v.natAbs).length) := by
    refine Lib.writeDigits_eq (N := True) (by decide) (fun lsd small _ => zero_eq small) (.inl trivial)
      (Nat.lt_succ_self _) ?_
    split at length <;> omega
  rw [convert, digits, Lib.ok_bind]
  dsimp only
  have lows : (Lib.lowDigits 10 v.natAbs).length = ((Lib.lowDigits 10 v.natAbs).map decimalDigit).length :=
    (List.length_map _).symm
  split
  · rename_i negative
    rw [if_pos negative] at length
    have inside : buf ≤ data.length := by omega
    have room : buf + (Lib.lowDigits 10 v.natAbs).length <
        (Lib.splice data buf ((Lib.lowDigits 10 v.natAbs).map decimalDigit)).length := by
      rw [Lib.length_splice (by rw [← lows]; omega)]
      omega
    rw [Lib.put_eq room, Lib.ok_bind, Lib.ok_bind, lows, Lib.splice_splice inside]
    have last : buf + ((Lib.lowDigits 10 v.natAbs).map decimalDigit).length + 1 =
        buf + ((Lib.lowDigits 10 v.natAbs).map decimalDigit ++ [45]).length := by
      rw [List.length_append, Nat.add_assoc]
      rfl
    dsimp only
    rw [last, finish_convert (by rw [List.length_append, ← lows]; simp only [List.length_singleton]; omega)]
    have text : ((Lib.lowDigits 10 v.natAbs).map decimalDigit ++ [45]).reverse = decimal v := by
      rw [decimal, if_pos negative, Lib.numeral, List.reverse_append]
      rfl
    rw [text, ← text, List.length_reverse]
  · rename_i nonneg
    rw [if_neg nonneg] at length
    have text : ((Lib.lowDigits 10 v.natAbs).map decimalDigit).reverse = decimal v := by
      rw [decimal, if_neg nonneg, Lib.numeral]
      rfl
    rw [Lib.ok_bind]
    dsimp only
    rw [lows, finish_convert (by rw [← lows]; omega), text, ← text, List.length_reverse]

theorem convertHex_eq {v : Nat} (fits : buf + (hexadecimal v).length < data.length) :
    convertHex data buf v = .ok (Lib.splice data buf (hexadecimal v ++ [0]), (hexadecimal v).length) := by
  have length : (hexadecimal v).length = (Lib.lowDigits 16 v).length := Lib.numeral_length _ _ _
  have digits : Lib.writeDigits Fault.outside 16 digitsHex (v + 1) data buf v =
      .ok (Lib.splice data buf ((Lib.lowDigits 16 v).map hexDigit), buf + (Lib.lowDigits 16 v).length) := by
    refine Lib.writeDigits_eq (i := v) (N := False) (by decide) (fun lsd small nonneg => ?_)
      (.inr (Int.natCast_nonneg v)) (Nat.lt_succ_self _) ?_
    · exact digitsHex_eq small (nonneg.resolve_left id)
    · rw [Int.natAbs_natCast]
      rw [length] at fits
      exact Nat.le_of_lt fits
  have lows : (Lib.lowDigits 16 v).length = ((Lib.lowDigits 16 v).map hexDigit).length := (List.length_map _).symm
  rw [convertHex, digits, Lib.ok_bind]
  dsimp only
  rw [lows, finish_convert (by rw [← lows]; omega), length, lows]
  rfl

end Dserver.LogStream

/-! ### Bytes behind the contents -/

namespace Dserver

theorem toSize_of_lt {n : Nat} (small : n < 2 ^ 64) : toSize n = n := by
  unfold toSize
  omega

theorem toInt_eq (n : Nat) :
    toInt n = if (n : Int) % 4294967296 < 2147483648 then (n : Int) % 4294967296 else (n : Int) % 4294967296 - 4294967296 :=
  Int.bmod_def n 4294967296

theorem toInt_of_lt {n : Nat} (small : n < 2 ^ 31) : toInt n = n := by
  rw [toInt_eq]
  split <;> omega

/-- A length that does not fit in an `int` is cut, or becomes negative and then very large. -/
theorem toSize_toInt (n : Nat) : toSize (toInt n) ≤ n ∨ 2 ^ 63 ≤ toSize (toInt n) := by
  rw [toSize, toInt_eq]
  split <;> omega

theorem toSize_toInt_of_lt {n : Nat} (small : n < 2 ^ 31) : toSize (toInt n) = n := by
  rw [toInt_of_lt small, toSize_of_lt (Nat.lt_trans small (by decide))]

namespace RawBuffer

variable {SIZE : Nat} {b : RawBuffer SIZE}

/-- `cur_` does not reach the end of `data_`. -/
structure Wf (b : RawBuffer SIZE) : Prop where
  size : b.data.length = SIZE
  cur_lt : b.cur < SIZE

theorem Wf.cur_le (h : b.Wf) : b.cur ≤ b.data.length := by
  rw [h.size]
  exact Nat.le_of_lt h.cur_lt

theorem Wf.length_contents (h : b.Wf) : b.contents.length = b.cur := List.length_take_of_le h.cur_le

theorem Wf.avail (h : b.Wf) : b.avail = (SIZE - b.cur : Nat) := by
  have cur := h.cur_lt
  unfold RawBuffer.avail
  omega

/-- The buffer behind a write of `text` at `cur_`, with `behind` on the cells that follow. -/
def extended (b : RawBuffer SIZE) (text behind : List UInt8) : RawBuffer SIZE :=
  { data := Lib.splice b.data b.cur (text ++ behind), cur := b.cur + text.length }

theorem Wf.extended (h : b.Wf) (text behind : List UInt8) (fits : b.cur + text.length < SIZE)
    (fits' : b.cur + (text ++ behind).length ≤ SIZE) :
    (b.extended text behind).Wf ∧ (b.extended text behind).contents = b.contents ++ text := by
  have inside := h.cur_le
  refine ⟨⟨(Lib.length_splice (by rw [h.size]; exact fits')).trans h.size, fits⟩, ?_⟩
  have front : (Lib.splice b.data b.cur text).take (b.cur + text.length) = b.contents ++ text := Lib.take_splice inside
  have length : (b.contents ++ text).length = b.cur + text.length := by
    rw [List.length_append, h.length_contents]
  show (Lib.splice b.data b.cur (text ++ behind)).take (b.cur + text.length) = b.contents ++ text
  rw [← Lib.splice_splice inside, Lib.splice, front, List.append_assoc,
    List.take_append_of_le_length (Nat.le_of_eq length.symm), List.take_of_length_le (Nat.le_of_eq length)]

/-- What `append` adds, with the length of the text in an `int`. -/
def copied (SIZE fill : Nat) (text : List UInt8) : List UInt8 :=
  if toSize (toInt text.length) < SIZE - fill then text.take (toSize (toInt text.length)) else []

theorem append_spec (h : b.Wf) (bound : SIZE < 2 ^ 63) (text : List UInt8) {len : Int} (length : len = toInt text.length) :
    ∃ b', b.append text len = .ok b' ∧ b'.Wf ∧ b'.contents = b.contents ++ copied SIZE b.cur text := by
  have cur := h.cur_lt
  have avail : toSize b.avail = SIZE - b.cur := by
    rw [h.avail]
    exact toSize_of_lt (by omega)
  unfold RawBuffer.append copied
  rw [avail, length]
  split
  · rename_i room
    have whole : toSize (toInt text.length) ≤ text.length := by
      rcases toSize_toInt text.length with small | large
      · exact small
      · omega
    have taken : (text.take (toSize (toInt text.length))).length = toSize (toInt text.length) :=
      List.length_take_of_le whole
    have extended := h.extended (text.take (toSize (toInt text.length))) []
      (by rw [taken]; omega) (by rw [List.append_nil, taken]; omega)
    rw [if_pos whole, Lib.putAll_eq (by rw [taken, h.size]; omega), Lib.ok_bind]
    rw [RawBuffer.extended, List.append_nil, taken] at extended
    exact ⟨_, rfl, extended⟩
  · exact ⟨b, rfl, h, (List.append_nil _).symm⟩

/-- The `FixedBuffer` of `AsyncLogging` is the contents of the array. -/
theorem append_refines {fixed : FixedBuffer SIZE} {text : List UInt8} (h : b.Wf) (bound : SIZE < 2 ^ 63)
    (short : text.length < 2 ^ 31) (same : b.contents = fixed.data) :
    ∃ b', b.append text (toInt text.length) = .ok b' ∧ b'.Wf ∧ b'.contents = (fixed.append text).data := by
  obtain ⟨b', ran, wf, contents⟩ := append_spec h bound text rfl
  refine ⟨b', ran, wf, contents.trans ?_⟩
  have fill : fixed.avail = SIZE - b.cur := by
    rw [FixedBuffer.avail, FixedBuffer.length, ← same, h.length_contents]
  rw [copied, toSize_toInt_of_lt short, List.take_length, FixedBuffer.append, ← fill, same]
  split
  · rfl
  · exact List.append_nil _

end RawBuffer

namespace LogStream

/-! ### One insertion -/

/-- What an insertion adds to a stream that holds `fill` bytes. -/
def Insertion.added (fill : Nat) (i : Insertion) : List UInt8 :=
  if i.isNumber then if 32 ≤ kSmallBuffer - fill then i.text else []
  else RawBuffer.copied kSmallBuffer fill i.text

variable {s s' : LogStream} {i : Insertion}

theorem number_spec (h : s.Wf) {text : List UInt8} (short : text.length < 32) {written : Except Fault LogStream}
    (eq : s.cur + text.length + 1 ≤ kSmallBuffer → written = .ok (s.extended text [0])) :
    ∃ s', (if kMaxNumericSize ≤ s.avail then written else .ok s) = .ok s' ∧ s'.Wf ∧
      s'.contents = s.contents ++ if 32 ≤ kSmallBuffer - s.cur then text else [] := by
  have cur := h.cur_lt
  have avail : kMaxNumericSize ≤ s.avail ↔ 32 ≤ kSmallBuffer - s.cur := by
    rw [h.avail]
    exact Int.ofNat_le
  by_cases room : 32 ≤ kSmallBuffer - s.cur
  · have fits : s.cur + (text ++ [0]).length ≤ kSmallBuffer := by
      rw [List.length_append, List.length_singleton]
      omega
    rw [if_pos (avail.mpr room), if_pos room, eq (by omega)]
    exact ⟨_, rfl, h.extended text [0] (by omega) fits⟩
  · rw [if_neg (fun h => room (avail.mp h)), if_neg room]
    exact ⟨s, rfl, h, (List.append_nil _).symm⟩

theorem decimal_short (v : Integer) : (decimal v.value).length ≤ 20 := by
  have least : -2 ^ 63 ≤ v.type.least := by cases v.type <;> decide
  have greatest : v.type.greatest < 2 ^ 64 := by cases v.type <;> decide
  exact decimal_length_le (Int.le_trans least v.least_le) (Int.lt_of_le_of_lt v.le_greatest greatest)

theorem hexadecimal_short (p : UInt64) : (hexadecimal p.toNat).length ≤ 16 := hexadecimal_length_le p.toNat_lt

theorem formatInteger_spec (h : s.Wf) (v : Integer) :
    ∃ s', s.formatInteger v.value = .ok s' ∧ s'.Wf ∧
      s'.contents = s.contents ++ if 32 ≤ kSmallBuffer - s.cur then decimal v.value else [] := by
  refine number_spec h (Nat.lt_of_le_of_lt (decimal_short v) (by decide)) fun fits => ?_
  rw [convert_eq (by rw [h.size]; exact fits)]
  rfl

theorem formatPointer_spec (h : s.Wf) (p : UInt64) :
    ∃ s', s.formatPointer p.toNat = .ok s' ∧ s'.Wf ∧
      s'.contents = s.contents ++ if 32 ≤ kSmallBuffer - s.cur then literal "0x" ++ hexadecimal p.toNat else [] := by
  have short := hexadecimal_short p
  have two : (literal "0x").length = 2 := rfl
  have length : (literal "0x" ++ hexadecimal p.toNat).length = (hexadecimal p.toNat).length + 2 := by
    rw [List.length_append, two, Nat.add_comm]
  refine number_spec h (by omega) fun fits => ?_
  have size := h.size
  have inside := h.cur_le
  have first : s.cur < s.data.length := by omega
  have second : s.cur + 1 < (Lib.splice s.data s.cur [48]).length := by
    rw [Lib.length_splice (by rw [List.length_singleton]; omega)]
    omega
  have both : Lib.splice (Lib.splice s.data s.cur [48]) (s.cur + 1) [120] = Lib.splice s.data s.cur (literal "0x") :=
    Lib.splice_splice inside
  have third : s.cur + 2 + (hexadecimal p.toNat).length < (Lib.splice s.data s.cur (literal "0x")).length := by
    rw [Lib.length_splice (by omega)]
    omega
  have joined : Lib.splice (Lib.splice s.data s.cur (literal "0x")) (s.cur + 2) (hexadecimal p.toNat ++ [0]) =
      Lib.splice s.data s.cur (literal "0x" ++ (hexadecimal p.toNat ++ [0])) := Lib.splice_splice inside
  dsimp only
  rw [Lib.put_eq first, Lib.ok_bind, Lib.put_eq second, Lib.ok_bind, both, convertHex_eq third, Lib.ok_bind, joined,
    RawBuffer.extended, length, List.append_assoc]

theorem formatDouble_spec (h : s.Wf) (v : DoubleText) :
    ∃ s', s.formatDouble v = .ok s' ∧ s'.Wf ∧
      s'.contents = s.contents ++ if 32 ≤ kSmallBuffer - s.cur then v.chars else [] := by
  have short := v.short
  refine number_spec h (by omega) fun fits => ?_
  rw [Lib.putAll_eq (by rw [h.size, List.length_append, List.length_singleton]; omega)]
  rfl

theorem added_text {fill : Nat} (h : i.isNumber = false) : i.added fill = RawBuffer.copied kSmallBuffer fill i.text := by
  rw [Insertion.added, if_neg (by rw [h]; exact Bool.false_ne_true)]

theorem added_number {fill : Nat} (h : i.isNumber = true) :
    i.added fill = if 32 ≤ kSmallBuffer - fill then i.text else [] := by
  rw [Insertion.added, if_pos h]

theorem insert_spec (h : s.Wf) (i : Insertion) :
    ∃ s', s.insert i = .ok s' ∧ s'.Wf ∧ s'.contents = s.contents ++ i.added s.cur := by
  have text : ∀ {buf : List UInt8} {len : Int}, len = toInt buf.length → ∃ s', s.append buf len = .ok s' ∧ s'.Wf ∧
      s'.contents = s.contents ++ RawBuffer.copied kSmallBuffer s.cur buf :=
    RawBuffer.append_spec h (by decide) _
  have one : 1 = toInt 1 := (toInt_of_lt (by decide)).symm
  have six : 6 = toInt 6 := (toInt_of_lt (by decide)).symm
  cases i with
  | bool v =>
    rw [added_text rfl]
    cases v with
    | false => exact text one
    | true => exact text one
  | char v =>
    rw [added_text rfl]
    exact text one
  | cstring str =>
    rw [added_text rfl]
    cases str with
    | some str => exact text rfl
    | none => exact text six
  | string v =>
    rw [added_text rfl]
    exact text rfl
  | integer v =>
    rw [added_number rfl]
    exact formatInteger_spec h v
  | pointer p =>
    rw [added_number rfl]
    exact formatPointer_spec h p
  | double v =>
    rw [added_number rfl]
    exact formatDouble_spec h v

/-! ### Any sequence of insertions -/

/-- The insertions for which there is room at their turn. -/
def kept : Nat → List Insertion → List Insertion
  | _, [] => []
  | fill, i :: rest => if i.Room fill then i :: kept (fill + i.text.length) rest else kept fill rest

theorem room_text {fill : Nat} (h : i.isNumber = false) : i.Room fill ↔ i.text.length < kSmallBuffer - fill := by
  rw [Insertion.Room, if_neg (by rw [h]; exact Bool.false_ne_true)]

theorem room_number {fill : Nat} (h : i.isNumber = true) : i.Room fill ↔ 32 ≤ kSmallBuffer - fill := by
  rw [Insertion.Room, if_pos h]

theorem added_short {fill : Nat} (short : i.text.length < 2 ^ 31) : i.added fill = if i.Room fill then i.text else [] := by
  cases number : i.isNumber with
  | true => rw [added_number number, if_congr (room_number number) rfl rfl]
  | false =>
    rw [added_text number, RawBuffer.copied, toSize_toInt_of_lt short, List.take_length,
      if_congr (room_text number) rfl rfl]

theorem insertAll_cons {rest : List Insertion} (ran : s.insert i = .ok s') :
    s.insertAll (i :: rest) = s'.insertAll rest := by
  rw [insertAll, List.foldlM_cons, ran, Lib.ok_bind]
  rfl

theorem insertAll_append {first rest : List Insertion} (ran : s.insertAll first = .ok s') :
    s.insertAll (first ++ rest) = s'.insertAll rest := by
  rw [insertAll] at ran
  rw [insertAll, List.foldlM_append, ran, Lib.ok_bind]
  rfl

theorem insertAll_spec (insertions : List Insertion) (h : s.Wf) :
    ∃ s', s.insertAll insertions = .ok s' ∧ s'.Wf := by
  induction insertions generalizing s with
  | nil => exact ⟨s, rfl, h⟩
  | cons i rest ih =>
    obtain ⟨s₁, ran, wf, _⟩ := insert_spec h i
    obtain ⟨s₂, ran', wf'⟩ := ih wf
    exact ⟨s₂, (insertAll_cons ran).trans ran', wf'⟩

theorem insertAll_kept {insertions : List Insertion} (h : s.Wf) (short : ∀ i ∈ insertions, i.text.length < 2 ^ 31)
    (ran : s.insertAll insertions = .ok s') :
    s'.contents = s.contents ++ (kept s.cur insertions).flatMap Insertion.text := by
  induction insertions generalizing s with
  | nil =>
    obtain rfl := Except.ok.inj ran
    exact (List.append_nil _).symm
  | cons i rest ih =>
    obtain ⟨s₁, first, wf, contents⟩ := insert_spec h i
    rw [insertAll_cons first] at ran
    have after := ih wf (fun j member => short j (List.mem_cons_of_mem _ member)) ran
    rw [added_short (short i List.mem_cons_self)] at contents
    have cur : s₁.cur = s.cur + (if i.Room s.cur then i.text else []).length := by
      rw [← wf.length_contents, contents, List.length_append, h.length_contents]
    rw [kept, after, contents, cur]
    split
    · rw [List.flatMap_cons, List.append_assoc]
    · rw [List.append_nil, List.length_nil, Nat.add_zero]

theorem new_wf {data : List UInt8} (size : data.length = kSmallBuffer) : (new data).Wf :=
  ⟨size, show 0 < kSmallBuffer by decide⟩

/-- No insertion writes outside `data_`, the stream is never full, and it holds the texts of the insertions for which
there was room, one behind the other. -/
theorem insertions_whole {data : List UInt8} {insertions : List Insertion} (size : data.length = kSmallBuffer)
    (short : ∀ i ∈ insertions, i.text.length < 2 ^ 31) :
    ∃ s, (new data).insertAll insertions = .ok s ∧ s.length < kSmallBuffer ∧
      s.contents = (kept 0 insertions).flatMap Insertion.text := by
  have wf := new_wf size
  obtain ⟨s, ran, wf'⟩ := insertAll_spec insertions wf
  exact ⟨s, ran, wf'.cur_lt, insertAll_kept wf short ran⟩

/-- A number is left out near the end, where a character still fits. -/
theorem insertions_whole_mixed :
    ∃ s, (new (List.replicate 4000 0)).insertAll
        [.string (List.replicate 3970 120), .integer ⟨.short, -5, by decide, by decide⟩, .char 46] = .ok s ∧
      s.contents = List.replicate 3970 120 ++ [46] := by
  have size : (List.replicate 4000 (0 : UInt8)).length = kSmallBuffer := List.length_replicate
  have text : (List.replicate 3970 (120 : UInt8)).length = 3970 := List.length_replicate
  have short : ∀ i ∈ [Insertion.string (List.replicate 3970 120),
      .integer ⟨.short, -5, by decide, by decide⟩, .char 46], i.text.length < 2 ^ 31 := by
    intro i member
    simp only [List.mem_cons, List.not_mem_nil, or_false] at member
    rcases member with rfl | rfl | rfl
    · rw [Insertion.text, text]
      decide
    · decide
    · decide
  have first : (Insertion.string (List.replicate 3970 120)).Room 0 := by
    rw [room_text rfl, Insertion.text, text]
    decide
  have second : ¬ (Insertion.integer ⟨.short, -5, by decide, by decide⟩).Room 3970 := by decide
  have third : (Insertion.char 46).Room 3970 := by decide
  obtain ⟨s, ran, _, contents⟩ := insertions_whole size short
  refine ⟨s, ran, contents.trans ?_⟩
  rw [kept, if_pos first, Insertion.text, text, Nat.zero_add, kept, if_neg second, kept, if_pos third, kept]
  rfl

end LogStream

end Dserver
