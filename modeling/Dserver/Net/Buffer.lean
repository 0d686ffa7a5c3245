import Dserver.Lib.Machine
import Mathlib.Algebra.Group.Nat.Defs
import Mathlib.Data.List.Basic

/-!
# `Buffer`

`buffer_` with its two indices. `size_t` arithmetic wraps at 2^64; a failed `assert` and an exception
of `std::vector` are errors.
-/

namespace Dserver.Net

abbrev Byte := UInt8

/-- `std::vector<char>::max_size()`, which also bounds the length of a `std::string`. -/
def maxSize : Nat := 2 ^ 63 - 1

structure Message where
  bytes : List Byte
  fits : bytes.length ≤ maxSize
  deriving DecidableEq

def addSize (a b : Nat) : Nat := (a + b) % 2 ^ 64

def subSize (a b : Nat) : Nat := (a + 2 ^ 64 - b) % 2 ^ 64

theorem addSize_eq {a b : Nat} (h : a + b < 2 ^ 64) : addSize a b = a + b := Nat.mod_eq_of_lt h

theorem subSize_eq {a b : Nat} (le : b ≤ a) (h : a < 2 ^ 64) : subSize a b = a - b := by
  unfold subSize
  rw [show a + 2 ^ 64 - b = (a - b) + 2 ^ 64 by omega, Nat.add_mod_right]
  exact Nat.mod_eq_of_lt (by omega)

/-- `std::copy` of `data` to the positions from `at` on. -/
def overwrite (cells : List Byte) (start : Nat) (data : List Byte) : List Byte :=
  cells.take start ++ data ++ cells.drop (start + data.length)

theorem length_overwrite {cells data : List Byte} {start : Nat}
    (h : start + data.length ≤ cells.length) :
    (overwrite cells start data).length = cells.length := by
  simp only [overwrite, List.length_append, List.length_take, List.length_drop]
  omega

def slice (cells : List Byte) (first last : Nat) : List Byte := (cells.drop first).take (last - first)

theorem length_slice {cells : List Byte} {first last : Nat} (h : last ≤ cells.length) :
    (slice cells first last).length = last - first := by
  simp only [slice, List.length_take, List.length_drop]
  omega

theorem slice_split {cells : List Byte} {first middle last : Nat} (h₁ : first ≤ middle)
    (h₂ : middle ≤ last) :
    slice cells first last = slice cells first middle ++ slice cells middle last := by
  unfold slice
  rw [show last - first = (middle - first) + (last - middle) by omega, List.take_add, List.drop_drop,
    show first + (middle - first) = middle by omega]

theorem slice_overwrite_same {cells data : List Byte} {start : Nat} (h : start ≤ cells.length) :
    slice (overwrite cells start data) start (start + data.length) = data := by
  have front : (cells.take start).length = start := List.length_take_of_le h
  unfold slice overwrite
  rw [List.append_assoc, List.drop_append_of_le_length (by omega), List.drop_of_length_le (by omega),
    List.nil_append, Nat.add_sub_cancel_left, List.take_append_of_le_length (Nat.le_refl _),
    List.take_of_length_le (Nat.le_refl _)]

theorem slice_overwrite_before {cells data : List Byte} {first last start : Nat} (le : last ≤ start)
    (h : start ≤ cells.length) :
    slice (overwrite cells start data) first last = slice cells first last := by
  by_cases empty : last ≤ first
  · simp [slice, show last - first = 0 by omega]
  · have front : (cells.take start).length = start := List.length_take_of_le h
    unfold slice overwrite
    rw [List.append_assoc, List.drop_append_of_le_length (by omega),
      List.take_append_of_le_length (by rw [List.length_drop]; omega), List.drop_take,
      List.take_take, Nat.min_eq_left (by omega)]

theorem slice_overwrite_after {cells data : List Byte} {first last start : Nat}
    (le : start + data.length ≤ first) (h : start + data.length ≤ cells.length) :
    slice (overwrite cells start data) first last = slice cells first last := by
  have front : (cells.take start ++ data).length = start + data.length := by
    rw [List.length_append, List.length_take_of_le (by omega)]
  unfold slice overwrite
  rw [List.drop_append, List.drop_of_length_le (by omega), List.nil_append, List.drop_drop, front,
    show start + data.length + (first - (start + data.length)) = first by omega]

theorem slice_append {cells more : List Byte} {first last : Nat} (h : last ≤ cells.length) :
    slice (cells ++ more) first last = slice cells first last := by
  by_cases empty : last ≤ first
  · simp [slice, show last - first = 0 by omega]
  · unfold slice
    rw [List.drop_append_of_le_length (by omega),
      List.take_append_of_le_length (by rw [List.length_drop]; omega)]

structure Buffer where
  buffer : List Byte
  readerIndex : Nat
  writerIndex : Nat
  deriving DecidableEq, Repr

namespace Buffer

/-- The assertions of `Buffer` and the exception of `buffer_.resize`. -/
inductive Fault where
  | retrieve
  | retrieveUntil
  | retrieveAsString
  | prepend
  | ensureWritableBytes
  | hasWritten
  | makeSpaceReader
  | makeSpaceReadable
  | lengthError
  deriving DecidableEq, Repr

def kCheapPrepend : Nat := 8
def kInitialSize : Nat := 1024

def make (initialSize : Nat) : Buffer :=
  ⟨List.replicate (kCheapPrepend + initialSize) 0, kCheapPrepend, kCheapPrepend⟩

def readableBytes (b : Buffer) : Nat := subSize b.writerIndex b.readerIndex

def writableBytes (b : Buffer) : Nat := subSize b.buffer.length b.writerIndex

def prependableBytes (b : Buffer) : Nat := b.readerIndex

/-- The bytes from `peek()` to `beginWrite()`. -/
def readable (b : Buffer) : List Byte := slice b.buffer b.readerIndex b.writerIndex

def retrieveAll (b : Buffer) : Buffer :=
  { b with readerIndex := kCheapPrepend, writerIndex := kCheapPrepend }

def retrieve (b : Buffer) (len : Nat) : Except Fault Buffer :=
  if len ≤ b.readableBytes then
    if len < b.readableBytes then .ok { b with readerIndex := addSize b.readerIndex len }
    else .ok b.retrieveAll
  else .error .retrieve

/-- `retrieveUntil(begin() + last)`. -/
def retrieveUntil (b : Buffer) (last : Nat) : Except Fault Buffer :=
  if b.readerIndex ≤ last ∧ last ≤ b.writerIndex then b.retrieve (last - b.readerIndex)
  else .error .retrieveUntil

def prepend (b : Buffer) (data : List Byte) : Except Fault Buffer :=
  if data.length ≤ b.prependableBytes then
    let readerIndex := subSize b.readerIndex data.length
    .ok { b with buffer := overwrite b.buffer readerIndex data, readerIndex }
  else .error .prepend

/-- `buffer_.resize(n)`: new cells are zero, cells past `n` are dropped. -/
def resize (b : Buffer) (n : Nat) : Except Fault Buffer :=
  if n ≤ maxSize then
    .ok { b with buffer := b.buffer.take n ++ List.replicate (n - b.buffer.length) 0 }
  else .error .lengthError

def makeSpace (b : Buffer) (len : Nat) : Except Fault Buffer :=
  if addSize b.writableBytes b.prependableBytes < addSize len kCheapPrepend then
    b.resize (addSize b.writerIndex len)
  else if kCheapPrepend < b.readerIndex then
    let readable := b.readableBytes
    let moved : Buffer :=
      { buffer := overwrite b.buffer kCheapPrepend b.readable
        readerIndex := kCheapPrepend
        writerIndex := addSize kCheapPrepend readable }
    if readable = moved.readableBytes then .ok moved else .error .makeSpaceReadable
  else .error .makeSpaceReader

def ensureWritableBytes (b : Buffer) (len : Nat) : Except Fault Buffer := do
  let b ← if b.writableBytes < len then b.makeSpace len else .ok b
  if len ≤ b.writableBytes then .ok b else .error .ensureWritableBytes

def hasWritten (b : Buffer) (len : Nat) : Except Fault Buffer :=
  if len ≤ b.writableBytes then .ok { b with writerIndex := addSize b.writerIndex len }
  else .error .hasWritten

def append (b : Buffer) (data : List Byte) : Except Fault Buffer := do
  let b ← b.ensureWritableBytes data.length
  let b := { b with buffer := overwrite b.buffer b.writerIndex data }
  b.hasWritten data.length

def retrieveAsString (b : Buffer) (len : Nat) : Except Fault (List Byte × Buffer) := do
  if len ≤ b.readableBytes then
    let result := b.readable.take len
    let b ← b.retrieve len
    .ok (result, b)
  else .error .retrieveAsString

def retrieveAllAsString (b : Buffer) : Except Fault (List Byte × Buffer) :=
  b.retrieveAsString b.readableBytes

/-- `std::search` for `kCRLF`, from the byte at position `i` on. -/
def searchCRLF (i : Nat) : List Byte → Option Nat
  | b :: c :: rest => if b = 13 ∧ c = 10 then some i else searchCRLF (i + 1) (c :: rest)
  | _ => none

/-- The position of the first CRLF in `buffer_`, `none` for `NULL`. -/
def findCRLF (b : Buffer) : Option Nat := searchCRLF b.readerIndex b.readable

/-- The bytes `readFd` offers to `readv`: the writable area, and `extrabuf` when that is small. -/
def readOffer (b : Buffer) : Nat :=
  if b.writableBytes < 65536 then b.writableBytes + 65536 else b.writableBytes

/-- `readFd` when `readv` stores `data` (at most `readOffer` bytes of it); gives the count too. -/
def readFd (b : Buffer) (data : List Byte) : Except Fault (Nat × Buffer) := do
  let writable := b.writableBytes
  let data := data.take b.readOffer
  let filled := { b with buffer := overwrite b.buffer b.writerIndex (data.take writable) }
  if data.length ≤ writable then
    .ok (data.length, { filled with writerIndex := addSize b.writerIndex data.length })
  else
    let b ← { filled with writerIndex := b.buffer.length }.append (data.drop writable)
    .ok (data.length, b)

/-- The index invariant. -/
structure Wf (b : Buffer) : Prop where
  reader_le : b.readerIndex ≤ b.writerIndex
  writer_le : b.writerIndex ≤ b.buffer.length
  cheap_le : kCheapPrepend ≤ b.writerIndex
  size_le : b.buffer.length ≤ maxSize

variable {b : Buffer}

theorem make_wf {n : Nat} (h : kCheapPrepend + n ≤ maxSize) : (make n).Wf :=
  ⟨Nat.le_refl _, by simp [make], Nat.le_refl _, by simpa [make] using h⟩

@[simp] theorem make_readable (n : Nat) : (make n).readable = [] := by
  simp [make, readable, slice]

theorem Wf.size_lt (h : b.Wf) : b.buffer.length < 2 ^ 64 :=
  Nat.lt_of_le_of_lt h.size_le (by decide)

theorem Wf.writer_lt (h : b.Wf) : b.writerIndex < 2 ^ 64 := Nat.lt_of_le_of_lt h.writer_le h.size_lt

theorem Wf.readableBytes (h : b.Wf) : b.readableBytes = b.writerIndex - b.readerIndex :=
  subSize_eq h.reader_le h.writer_lt

theorem Wf.writableBytes (h : b.Wf) : b.writableBytes = b.buffer.length - b.writerIndex :=
  subSize_eq h.writer_le h.size_lt

theorem Wf.length_readable (h : b.Wf) : b.readable.length = b.readableBytes := by
  rw [h.readableBytes, readable, length_slice h.writer_le]

theorem Wf.readable_eq_nil (h : b.Wf) : b.readable = [] ↔ b.readableBytes = 0 := by
  rw [← h.length_readable, List.length_eq_zero_iff]

theorem Wf.readable_fits (h : b.Wf) : b.readable.length ≤ maxSize := by
  rw [h.length_readable, h.readableBytes]
  exact Nat.le_trans (Nat.sub_le _ _) (Nat.le_trans h.writer_le h.size_le)

theorem retrieveAll_wf (h : b.Wf) : b.retrieveAll.Wf :=
  ⟨Nat.le_refl _, Nat.le_trans h.cheap_le h.writer_le, Nat.le_refl _, h.size_le⟩

@[simp] theorem retrieveAll_readable : b.retrieveAll.readable = [] := by
  simp [retrieveAll, readable, slice]

theorem retrieveAllAsString_eq (h : b.Wf) :
    b.retrieveAllAsString = .ok (b.readable, b.retrieveAll) := by
  have whole : b.readable.take b.readableBytes = b.readable := by
    rw [← h.length_readable, List.take_length]
  have emptied : b.retrieve b.readableBytes = .ok b.retrieveAll := by
    rw [retrieve, if_pos (Nat.le_refl _), if_neg (Nat.lt_irrefl _)]
  rw [retrieveAllAsString, retrieveAsString, if_pos (Nat.le_refl _), whole, emptied]
  rfl

theorem retrieve_spec (h : b.Wf) {len : Nat} (le : len ≤ b.readable.length) :
    ∃ b', b.retrieve len = .ok b' ∧ b'.Wf ∧ b'.readable = b.readable.drop len := by
  rw [h.length_readable] at le
  have bytes := h.readableBytes
  have writer := h.writer_lt
  have reader := h.reader_le
  unfold retrieve
  rw [if_pos le]
  by_cases less : len < b.readableBytes
  · rw [if_pos less, addSize_eq (by omega)]
    refine ⟨_, rfl, ⟨?_, h.writer_le, h.cheap_le, h.size_le⟩, ?_⟩
    · show b.readerIndex + len ≤ b.writerIndex
      omega
    · simp only [readable, slice, List.drop_take, List.drop_drop]
      rw [show b.writerIndex - b.readerIndex - len = b.writerIndex - (b.readerIndex + len) by omega]
  · rw [if_neg less]
    refine ⟨_, rfl, retrieveAll_wf h, ?_⟩
    rw [retrieveAll_readable, List.drop_of_length_le (by rw [h.length_readable]; omega)]

theorem resize_spec (h : b.Wf) {n : Nat} (le : b.buffer.length ≤ n) :
    b.resize n = .error .lengthError ∨
      ∃ b', b.resize n = .ok b' ∧ b'.Wf ∧ b'.readable = b.readable ∧ b'.buffer.length = n ∧
        b'.writerIndex = b.writerIndex := by
  unfold resize
  split
  · rename_i small
    right
    have grown : (b.buffer.take n ++ List.replicate (n - b.buffer.length) 0).length = n := by
      simp only [List.length_append, List.length_take, List.length_replicate]
      omega
    refine ⟨_, rfl, ⟨h.reader_le, ?_, h.cheap_le, ?_⟩, ?_, grown, rfl⟩
    · exact Nat.le_trans h.writer_le (Nat.le_trans le (Nat.le_of_eq grown.symm))
    · exact Nat.le_trans (Nat.le_of_eq grown) small
    · simp only [readable, List.take_of_length_le le]
      exact slice_append h.writer_le
  · exact .inl rfl

/-- `makeSpace` keeps the readable bytes and makes room, by growing or by sliding. -/
theorem makeSpace_spec (h : b.Wf) {len : Nat} (small : b.writerIndex + len < 2 ^ 64) (need : b.writableBytes < len) :
    b.makeSpace len = .error .lengthError ∨
      ∃ b', b.makeSpace len = .ok b' ∧ b'.Wf ∧ b'.readable = b.readable ∧
        b'.writerIndex + len ≤ b'.buffer.length := by
  have writable := h.writableBytes
  have bytes := h.readableBytes
  have size := h.size_le
  have writer := h.writer_le
  have reader := h.reader_le
  have cheap : kCheapPrepend = 8 := rfl
  have lowest := h.cheap_le
  simp only [maxSize] at size
  unfold makeSpace
  rw [addSize_eq (by simp only [prependableBytes]; omega),
    addSize_eq (by omega), addSize_eq (a := b.writerIndex) small]
  split
  · obtain failed | ⟨b', grown, wf, same, length, index⟩ :=
      resize_spec h (n := b.writerIndex + len) (by omega)
    · exact .inl failed
    · exact .inr ⟨b', grown, wf, same, by omega⟩
  · rename_i room
    simp only [prependableBytes] at room
    rw [if_pos (by omega)]
    dsimp only
    rw [addSize_eq (by omega)]
    have length := h.length_readable
    have kept : (overwrite b.buffer kCheapPrepend b.readable).length = b.buffer.length :=
      length_overwrite (by omega)
    have wf : Wf ⟨overwrite b.buffer kCheapPrepend b.readable, kCheapPrepend,
        kCheapPrepend + b.readableBytes⟩ := by
      refine ⟨Nat.le_add_right _ _, ?_, Nat.le_add_right _ _, ?_⟩
      · simp only [kept]; omega
      · simp only [kept]; exact h.size_le
    rw [if_pos (by rw [wf.readableBytes]; simp)]
    refine .inr ⟨_, rfl, wf, ?_, ?_⟩
    · simp only [readable]
      rw [← length]
      exact slice_overwrite_same (by omega)
    · simp only [kept]; omega

theorem ensureWritableBytes_spec (h : b.Wf) {len : Nat} (small : b.writerIndex + len < 2 ^ 64) :
    b.ensureWritableBytes len = .error .lengthError ∨
      ∃ b', b.ensureWritableBytes len = .ok b' ∧ b'.Wf ∧ b'.readable = b.readable ∧
        b'.writerIndex + len ≤ b'.buffer.length := by
  have writable := h.writableBytes
  have writer := h.writer_le
  unfold ensureWritableBytes
  by_cases need : b.writableBytes < len
  · rw [if_pos need]
    obtain failed | ⟨b', made, wf, same, room⟩ := makeSpace_spec h small need
    · rw [failed]
      exact .inl rfl
    · rw [made]
      have roomy : len ≤ b'.writableBytes := by rw [wf.writableBytes]; omega
      exact .inr ⟨b', if_pos roomy, wf, same, room⟩
  · rw [if_neg need]
    exact .inr ⟨b, if_pos (Nat.le_of_not_lt need), h, rfl, by omega⟩

theorem append_spec_lt (h : b.Wf) {data : List Byte} (small : b.writerIndex + data.length < 2 ^ 64) :
    b.append data = .error .lengthError ∨
      ∃ b', b.append data = .ok b' ∧ b'.Wf ∧ b'.readable = b.readable ++ data := by
  unfold append
  obtain failed | ⟨c, made, wf, same, room⟩ := ensureWritableBytes_spec h small
  · rw [failed]
    exact .inl rfl
  · rw [made]
    right
    have kept : (overwrite c.buffer c.writerIndex data).length = c.buffer.length := length_overwrite room
    have size := wf.size_lt
    have filled : Wf { c with buffer := overwrite c.buffer c.writerIndex data } :=
      ⟨wf.reader_le, kept ▸ wf.writer_le, wf.cheap_le, kept ▸ wf.size_le⟩
    have fits : data.length ≤ writableBytes { c with buffer := overwrite c.buffer c.writerIndex data } := by
      rw [filled.writableBytes, kept]
      simp only
      omega
    refine ⟨_, if_pos fits, ?_, ?_⟩
    · rw [addSize_eq (by simp only; omega)]
      exact ⟨Nat.le_trans wf.reader_le (Nat.le_add_right _ _), by rw [kept]; exact room,
        Nat.le_trans wf.cheap_le (Nat.le_add_right _ _), filled.size_le⟩
    · rw [← same]
      simp only [readable]
      rw [addSize_eq (by omega), slice_split wf.reader_le (Nat.le_add_right _ _),
        slice_overwrite_before (Nat.le_refl _) wf.writer_le, slice_overwrite_same wf.writer_le]

theorem append_spec (h : b.Wf) {data : List Byte} (small : data.length ≤ maxSize) :
    b.append data = .error .lengthError ∨
      ∃ b', b.append data = .ok b' ∧ b'.Wf ∧ b'.readable = b.readable ++ data := by
  have writer := Nat.le_trans h.writer_le h.size_le
  simp only [maxSize] at small writer
  exact append_spec_lt h (by omega)

theorem stored_spec (h : b.Wf) {data : List Byte} (fits : data.length ≤ b.writableBytes) :
    let filled : Buffer :=
      ⟨overwrite b.buffer b.writerIndex data, b.readerIndex, b.writerIndex + data.length⟩
    filled.Wf ∧ filled.readable = b.readable ++ data := by
  have reader := h.reader_le
  have writer := h.writer_le
  have cheap := h.cheap_le
  rw [h.writableBytes] at fits
  have kept : (overwrite b.buffer b.writerIndex data).length = b.buffer.length := length_overwrite (by omega)
  refine ⟨⟨?_, ?_, ?_, kept ▸ h.size_le⟩, ?_⟩
  · show b.readerIndex ≤ b.writerIndex + data.length
    omega
  · show b.writerIndex + data.length ≤ (overwrite b.buffer b.writerIndex data).length
    omega
  · show kCheapPrepend ≤ b.writerIndex + data.length
    omega
  · simp only [readable]
    rw [slice_split reader (Nat.le_add_right _ _), slice_overwrite_before (Nat.le_refl _) writer,
      slice_overwrite_same writer]

theorem readFd_spec (h : b.Wf) {bytes : List Byte} {n : Nat} {b' : Buffer}
    (ran : b.readFd bytes = .ok (n, b')) : b'.Wf ∧ b'.readable = b.readable ++ bytes.take b.readOffer := by
  have writable := h.writableBytes
  have size := h.size_le
  have writer := h.writer_le
  generalize stored : bytes.take b.readOffer = data at ran
  unfold readFd at ran
  dsimp only at ran
  rw [stored] at ran
  have short : (data.take b.writableBytes).length ≤ b.writableBytes := List.length_take_le _ _
  obtain ⟨filled, added⟩ := stored_spec h short
  split at ran
  · rename_i inside
    obtain ⟨-, rfl⟩ := Prod.mk.inj (Except.ok.inj ran)
    rw [List.take_of_length_le inside] at filled added ⊢
    rw [addSize_eq (Nat.lt_of_le_of_lt (by omega : b.writerIndex + data.length ≤ maxSize) (by decide))]
    exact ⟨filled, added⟩
  · rename_i outside
    obtain ⟨grown, appended, ran⟩ := Lib.bind_ok ran
    obtain ⟨-, rfl⟩ := Prod.mk.inj (Except.ok.inj ran)
    have whole : b.writerIndex + (data.take b.writableBytes).length = b.buffer.length := by
      rw [List.length_take]
      omega
    rw [whole] at filled added
    have extra : (data.drop b.writableBytes).length ≤ maxSize := by
      have offered : data.length ≤ b.readOffer := stored ▸ List.length_take_le _ _
      unfold readOffer at offered
      rw [List.length_drop]
      split at offered <;> simp only [maxSize] at * <;> omega
    obtain failed | ⟨last, ran, wf, more⟩ := append_spec filled extra
    · rw [failed] at appended
      cases appended
    · obtain rfl := Except.ok.inj (ran.symm.trans appended)
      exact ⟨wf, by rw [more, added, List.append_assoc, List.take_append_drop]⟩

/-! ### Where the write position goes -/

theorem retrieve_writer (h : b.Wf) {len : Nat} {b' : Buffer} (ran : b.retrieve len = .ok b') :
    b'.writerIndex ≤ b.writerIndex := by
  unfold retrieve at ran
  split at ran
  · split at ran
    · obtain rfl := Except.ok.inj ran
      exact Nat.le_refl _
    · obtain rfl := Except.ok.inj ran
      exact h.cheap_le
  · cases ran

theorem makeSpace_writer (h : b.Wf) {len : Nat} {b' : Buffer} (ran : b.makeSpace len = .ok b') :
    b'.writerIndex ≤ b.writerIndex := by
  have bytes := h.readableBytes
  have reader := h.reader_le
  have writer := h.writer_lt
  unfold makeSpace resize at ran
  split at ran
  · split at ran
    · obtain rfl := Except.ok.inj ran
      exact Nat.le_refl _
    · cases ran
  · split at ran
    · rename_i ahead
      dsimp only at ran
      split at ran
      · obtain rfl := Except.ok.inj ran
        show addSize kCheapPrepend b.readableBytes ≤ b.writerIndex
        rw [addSize_eq (by omega)]
        omega
      · cases ran
    · cases ran

theorem resize_room {n : Nat} (small : n ≤ maxSize) : b.resize n ≠ .error .lengthError := by
  rw [resize, if_pos small]
  simp

theorem makeSpace_room {len : Nat} (room : b.writerIndex + len ≤ maxSize) :
    b.makeSpace len ≠ .error .lengthError := by
  have small : b.writerIndex + len < 2 ^ 64 := Nat.lt_of_le_of_lt room (by decide)
  unfold makeSpace
  rw [addSize_eq (a := b.writerIndex) small]
  split
  · exact resize_room room
  · split
    · dsimp only
      split <;> simp
    · simp

theorem ensureWritableBytes_cases {len : Nat} {e : Except Fault Buffer}
    (ran : b.ensureWritableBytes len = e) :
    (∃ grown, (b.makeSpace len = .ok grown ∨ grown = b) ∧
      (e = .ok grown ∨ e = .error .ensureWritableBytes)) ∨
    ∃ fault, b.makeSpace len = .error fault ∧ e = .error fault := by
  have asserts : ∀ grown : Buffer, (if len ≤ grown.writableBytes then Except.ok grown
      else .error .ensureWritableBytes) = e → e = .ok grown ∨ e = .error Fault.ensureWritableBytes := by
    intro grown checked
    split at checked
    · exact .inl checked.symm
    · exact .inr checked.symm
  unfold ensureWritableBytes at ran
  split at ran
  · cases made : b.makeSpace len with
    | ok grown =>
      rw [made] at ran
      exact .inl ⟨grown, .inl rfl, asserts grown ran⟩
    | error fault =>
      rw [made] at ran
      exact .inr ⟨fault, rfl, ran.symm⟩
  · exact .inl ⟨b, .inr rfl, asserts b ran⟩

theorem ensureWritableBytes_writer (h : b.Wf) {len : Nat} {b' : Buffer}
    (ran : b.ensureWritableBytes len = .ok b') : b'.writerIndex ≤ b.writerIndex := by
  obtain ⟨grown, made, ended | failed⟩ | ⟨_, _, failed⟩ := ensureWritableBytes_cases ran
  · obtain rfl := Except.ok.inj ended
    rcases made with made | rfl
    · exact makeSpace_writer h made
    · exact Nat.le_refl _
  · cases failed
  · cases failed

theorem ensureWritableBytes_room {len : Nat} (room : b.writerIndex + len ≤ maxSize) :
    b.ensureWritableBytes len ≠ .error .lengthError := by
  intro ran
  obtain ⟨grown, _, ended | failed⟩ | ⟨fault, short, failed⟩ := ensureWritableBytes_cases ran
  · cases ended
  · cases failed
  · obtain rfl := Except.error.inj failed
    exact makeSpace_room room short

theorem hasWritten_writer {len : Nat} {b' : Buffer} (ran : b.hasWritten len = .ok b') :
    b'.writerIndex = addSize b.writerIndex len := by
  unfold hasWritten at ran
  split at ran
  · obtain rfl := Except.ok.inj ran
    rfl
  · cases ran

theorem append_room (h : b.Wf) {data : List Byte} (room : b.writerIndex + data.length ≤ maxSize) :
    ∃ b', b.append data = .ok b' ∧ b'.Wf ∧ b'.readable = b.readable ++ data ∧
      b'.writerIndex ≤ b.writerIndex + data.length := by
  have small : b.writerIndex + data.length < 2 ^ 64 := Nat.lt_of_le_of_lt room (by decide)
  obtain failed | ⟨b', ran, wf, added⟩ := append_spec_lt h small
  · rcases Lib.bind_error failed with short | ⟨grown, _, written⟩
    · exact absurd short (ensureWritableBytes_room room)
    · dsimp only [hasWritten] at written
      split at written <;> cases written
  · refine ⟨b', ran, wf, added, ?_⟩
    obtain ⟨grown, made, written⟩ := Lib.bind_ok ran
    have before := ensureWritableBytes_writer h made
    rw [hasWritten_writer written]
    show addSize grown.writerIndex data.length ≤ b.writerIndex + data.length
    rw [addSize_eq (by omega)]
    omega

end Buffer

end Dserver.Net
