import Dserver.Net.Buffer

/-!
# `Buffer` as a byte queue

The readable bytes of a buffer against a queue of bytes, over every sequence of the operations that
add bytes at either end or take them from the front.
-/

namespace Dserver.Net

namespace Buffer

variable {b : Buffer}

/-- `Buffer(initialSize)` with its `size_t` arithmetic; `std::vector` refuses a size past its maximum. -/
def construct (initialSize : UInt64) : Except Fault Buffer :=
  let size := addSize kCheapPrepend initialSize.toNat
  if size ≤ maxSize then .ok ⟨List.replicate size 0, kCheapPrepend, kCheapPrepend⟩
  else .error .lengthError

theorem construct_eq {initialSize : UInt64} (h : kCheapPrepend + initialSize.toNat ≤ maxSize) :
    construct initialSize = .ok (make initialSize.toNat) := by
  have size : addSize kCheapPrepend initialSize.toNat = kCheapPrepend + initialSize.toNat :=
    addSize_eq (Nat.lt_of_le_of_lt h (by decide))
  rw [construct, size]
  exact if_pos h

theorem construct_spec {initialSize : UInt64} (fits : kCheapPrepend + initialSize.toNat < 2 ^ 64)
    (made : construct initialSize = .ok b) : b.Wf ∧ b.readable = [] := by
  have small : kCheapPrepend + initialSize.toNat ≤ maxSize := by
    unfold construct at made
    rw [addSize_eq fits] at made
    dsimp only at made
    split at made
    · assumption
    · cases made
  obtain rfl := Except.ok.inj ((construct_eq small).symm.trans made)
  exact ⟨make_wf small, make_readable _⟩

inductive Op where
  | append (data : List Byte)
  | prepend (data : List Byte)
  | retrieve (len : Nat)
  | retrieveUntil (last : Nat)
  | retrieveAll
  | retrieveAsString (len : Nat)
  | retrieveAllAsString
  deriving DecidableEq, Repr

namespace Op

/-- The asserted preconditions, and an `append` whose end is a `size_t`. -/
def Pre (b : Buffer) : Op → Prop
  | append data => b.writerIndex + data.length < 2 ^ 64
  | prepend data => data.length ≤ b.prependableBytes
  | retrieve len | retrieveAsString len => len ≤ b.readableBytes
  | retrieveUntil last => b.readerIndex ≤ last ∧ last ≤ b.writerIndex
  | retrieveAll | retrieveAllAsString => True

/-- The string that is returned, where there is one, and the buffer after the call. -/
def run (b : Buffer) : Op → Except Fault (List Byte × Buffer)
  | append data => (b.append data).map ([], ·)
  | prepend data => (b.prepend data).map ([], ·)
  | retrieve len => (b.retrieve len).map ([], ·)
  | retrieveUntil last => (b.retrieveUntil last).map ([], ·)
  | retrieveAll => .ok ([], b.retrieveAll)
  | retrieveAsString len => b.retrieveAsString len
  | retrieveAllAsString => b.retrieveAllAsString

/-- The same on a queue of bytes; `reader` is the position its front has in the buffer. -/
def spec (queue : List Byte) (reader : Nat) : Op → List Byte × List Byte
  | append data => ([], queue ++ data)
  | prepend data => ([], data ++ queue)
  | retrieve len => ([], queue.drop len)
  | retrieveUntil last => ([], queue.drop (last - reader))
  | retrieveAll => ([], [])
  | retrieveAsString len => (queue.take len, queue.drop len)
  | retrieveAllAsString => (queue, [])

end Op

theorem retrieveUntil_spec (h : b.Wf) {last : Nat} (first : b.readerIndex ≤ last)
    (le : last ≤ b.writerIndex) :
    ∃ b', b.retrieveUntil last = .ok b' ∧ b'.Wf ∧ b'.readable = b.readable.drop (last - b.readerIndex) := by
  rw [retrieveUntil, if_pos ⟨first, le⟩]
  refine retrieve_spec h ?_
  rw [h.length_readable, h.readableBytes]
  omega

theorem retrieveAsString_spec (h : b.Wf) {len : Nat} (le : len ≤ b.readableBytes) :
    ∃ b', b.retrieveAsString len = .ok (b.readable.take len, b') ∧ b'.Wf ∧
      b'.readable = b.readable.drop len := by
  obtain ⟨b', ran, wf, rest⟩ := retrieve_spec h (h.length_readable.symm ▸ le : len ≤ b.readable.length)
  refine ⟨b', ?_, wf, rest⟩
  rw [retrieveAsString, if_pos le, ran]
  rfl

/-- `prepend` adds at the front, and may bring `readerIndex_` below `kCheapPrepend`. -/
theorem prepend_spec (h : b.Wf) {data : List Byte} (le : data.length ≤ b.prependableBytes) :
    ∃ b', b.prepend data = .ok b' ∧ b'.Wf ∧ b'.readable = data ++ b.readable := by
  have reader := h.reader_le
  have writer := h.writer_le
  have size := h.size_lt
  have le' : data.length ≤ b.readerIndex := le
  have index : subSize b.readerIndex data.length = b.readerIndex - data.length :=
    subSize_eq le' (by omega)
  have last : b.readerIndex - data.length + data.length = b.readerIndex := by omega
  have kept : (overwrite b.buffer (b.readerIndex - data.length) data).length = b.buffer.length :=
    length_overwrite (by omega)
  rw [prepend, if_pos le, index]
  refine ⟨_, rfl, ⟨?_, ?_, h.cheap_le, ?_⟩, ?_⟩
  · show b.readerIndex - data.length ≤ b.writerIndex
    omega
  · exact kept ▸ writer
  · exact kept ▸ h.size_le
  · have front : slice (overwrite b.buffer (b.readerIndex - data.length) data)
        (b.readerIndex - data.length) b.readerIndex = data := by
      have same : slice (overwrite b.buffer (b.readerIndex - data.length) data) (b.readerIndex - data.length)
          (b.readerIndex - data.length + data.length) = data := slice_overwrite_same (by omega)
      rwa [last] at same
    have back : slice (overwrite b.buffer (b.readerIndex - data.length) data) b.readerIndex
        b.writerIndex = b.readable := slice_overwrite_after (by omega) (by omega)
    simp only [readable]
    rw [slice_split (Nat.sub_le _ _) reader, front, back]
    rfl

/-- Every operation within its precondition does on the readable bytes what it does on the queue;
`append` may find that `buffer_` cannot grow. -/
theorem run_spec (h : b.Wf) {op : Op} (pre : op.Pre b) :
    op.run b = .error .lengthError ∨
      ∃ b', op.run b = .ok ((op.spec b.readable b.readerIndex).1, b') ∧ b'.Wf ∧
        b'.readable = (op.spec b.readable b.readerIndex).2 := by
  cases op with
  | append data =>
    obtain failed | ⟨b', ran, wf, added⟩ := append_spec_lt h pre
    · exact .inl (by rw [Op.run, failed]; rfl)
    · exact .inr ⟨b', by rw [Op.run, ran]; rfl, wf, added⟩
  | prepend data =>
    obtain ⟨b', ran, wf, added⟩ := prepend_spec h pre
    exact .inr ⟨b', by rw [Op.run, ran]; rfl, wf, added⟩
  | retrieve len =>
    obtain ⟨b', ran, wf, rest⟩ := retrieve_spec h (h.length_readable.symm ▸ pre : len ≤ b.readable.length)
    exact .inr ⟨b', by rw [Op.run, ran]; rfl, wf, rest⟩
  | retrieveUntil last =>
    obtain ⟨b', ran, wf, rest⟩ := retrieveUntil_spec h pre.1 pre.2
    exact .inr ⟨b', by rw [Op.run, ran]; rfl, wf, rest⟩
  | retrieveAll => exact .inr ⟨_, rfl, retrieveAll_wf h, retrieveAll_readable⟩
  | retrieveAsString len => exact .inr (retrieveAsString_spec h pre)
  | retrieveAllAsString =>
    exact .inr ⟨_, retrieveAllAsString_eq h, retrieveAll_wf h, retrieveAll_readable⟩

/-- A buffer beside the queue that the same calls give. -/
structure Tracked where
  buffer : Buffer
  queue : List Byte

/-- An exception of `buffer_.resize` leaves the buffer as it was; an assertion ends the run. -/
def Tracked.step (s : Tracked) (op : Op) : Option (Except Fault Tracked) :=
  match op.run s.buffer with
  | .ok (_, b) => some (.ok ⟨b, (op.spec s.queue s.buffer.readerIndex).2⟩)
  | .error .lengthError => some (.ok s)
  | .error fault => some (.error fault)

/-- The buffers made by `Buffer(initialSize)` under every sequence of operations. -/
def tracked (initialSize : UInt64) : Lib.Machine Tracked Op Fault where
  init s := ∃ b, construct initialSize = .ok b ∧ s = ⟨b, []⟩
  step := Tracked.step

def Tracked.Meets (s : Tracked) (op : Op) : Prop := op.Pre s.buffer

/-- The indices are in order, the readable bytes are the queue, and a call within its precondition
fails no assertion and returns what the queue gives. -/
structure Tracked.Refines (s : Tracked) : Prop where
  cheap_le : kCheapPrepend ≤ s.buffer.writerIndex
  reader_le : s.buffer.readerIndex ≤ s.buffer.writerIndex
  writer_le : s.buffer.writerIndex ≤ s.buffer.buffer.length
  readable : s.buffer.readable = s.queue
  runs : ∀ op : Op, op.Pre s.buffer → op.run s.buffer = .error .lengthError ∨
    ∃ b', op.run s.buffer = .ok ((op.spec s.queue s.buffer.readerIndex).1, b')

theorem Tracked.refines {s : Tracked} (h : s.buffer.Wf) (same : s.buffer.readable = s.queue) : s.Refines := by
  refine ⟨h.cheap_le, h.reader_le, h.writer_le, same, fun op pre => ?_⟩
  obtain failed | ⟨b', ran, _⟩ := run_spec h pre
  · exact .inl failed
  · exact .inr ⟨b', same ▸ ran⟩

theorem Tracked.step_wf {s t : Tracked} {op : Op} (h : s.buffer.Wf) (same : s.buffer.readable = s.queue)
    (pre : op.Pre s.buffer) (step : s.step op = some (.ok t)) :
    t.buffer.Wf ∧ t.buffer.readable = t.queue := by
  unfold Tracked.step at step
  obtain failed | ⟨b', ran, wf, after⟩ := run_spec h pre
  · rw [failed] at step
    obtain rfl : s = t := by simpa using step
    exact ⟨h, same⟩
  · rw [ran] at step
    obtain rfl : _ = t := by simpa using step
    exact ⟨wf, by rw [after, same]⟩

/-- A wrapped `kCheapPrepend + initialSize` makes a vector that ends before `writerIndex_`. -/
theorem construct_wrapped {initialSize : UInt64} (wraps : 2 ^ 64 ≤ kCheapPrepend + initialSize.toNat) :
    ∃ b, construct initialSize = .ok b ∧ b.buffer.length < b.writerIndex := by
  have small := initialSize.toNat_lt
  have cheap : kCheapPrepend = 8 := rfl
  have size : addSize kCheapPrepend initialSize.toNat = kCheapPrepend + initialSize.toNat - 2 ^ 64 := by
    unfold addSize
    omega
  have fits : addSize kCheapPrepend initialSize.toNat ≤ maxSize := by
    simp only [maxSize]
    omega
  refine ⟨_, by rw [construct]; exact if_pos fits, ?_⟩
  simp only [List.length_replicate]
  omega

/-- The readable bytes are a byte queue under every sequence of operations exactly when
`kCheapPrepend + initialSize` does not wrap. -/
theorem buffer_refines_queue (initialSize : UInt64) :
    (∀ s, (tracked initialSize).Reachable Tracked.Meets s → s.Refines) ↔
      kCheapPrepend + initialSize.toNat < 2 ^ 64 := by
  constructor
  · intro refines
    by_contra wraps
    obtain ⟨b, made, short⟩ := construct_wrapped (Nat.le_of_not_lt wraps)
    have writer_le := (refines ⟨b, []⟩ (.initial ⟨b, made, rfl⟩)).writer_le
    simp only at writer_le
    omega
  · intro fits s reached
    have kept : s.buffer.Wf ∧ s.buffer.readable = s.queue := by
      refine reached.invariant (P := fun s => s.buffer.Wf ∧ s.buffer.readable = s.queue) ?_
        fun a op t _ before pre step => Tracked.step_wf before.1 before.2 pre step
      rintro a ⟨b, made, rfl⟩
      exact construct_spec fits made
    exact Tracked.refines kept.1 kept.2

/-- `Buffer(SIZE_MAX)` has seven cells and `writerIndex_` 8. -/
theorem construct_wraps :
    ¬ ∀ initialSize s, (tracked initialSize).Reachable Tracked.Meets s → s.Refines := by
  intro claim
  have wrapped : construct (UInt64.ofNat (2 ^ 64 - 1)) = .ok ⟨List.replicate 7 0, 8, 8⟩ := rfl
  have writer_le := (claim _ _ (.initial ⟨_, wrapped, rfl⟩)).writer_le
  simp at writer_le

end Buffer

end Dserver.Net
