import Dserver.Net.BufferQueue

/-!
# `swap`, `shrink` and `readFd`

`swap` exchanges `writerIndex_` with `rhs.readerIndex_`, so each buffer ends with an index of the other's in the
wrong place. A program has any number of buffers; nothing catches an exception of `std::vector`, which ends the
run.
-/

namespace Dserver.Net

namespace Buffer

variable {a b b' : Buffer}

/-- `swap(rhs)` with another buffer. -/
def swap (b rhs : Buffer) : Buffer × Buffer :=
  let (buffer, rhsBuffer) := (rhs.buffer, b.buffer)
  let (readerIndex, rhsReaderIndex) := (rhs.readerIndex, b.readerIndex)
  let (writerIndex, rhsReaderIndex) := (rhsReaderIndex, b.writerIndex)
  (⟨buffer, readerIndex, writerIndex⟩, ⟨rhsBuffer, rhsReaderIndex, rhs.writerIndex⟩)

/-- `b.swap(b)`. -/
def swapSelf (b : Buffer) : Buffer := { b with readerIndex := b.writerIndex, writerIndex := b.readerIndex }

def shrink (b : Buffer) (reserve : UInt64) : Except Fault Buffer := do
  let other ← (make kInitialSize).ensureWritableBytes (addSize b.readableBytes reserve.toNat)
  let other ← other.append b.readable
  .ok (b.swap other).1

/-- What `readv` does: -1 with `errno`, or bytes that it stores. -/
inductive Readv where
  | failed (errno : Nat)
  | stored (data : List Byte)
  deriving DecidableEq, Repr

/-- The result of `readFd`, what it puts in `savedErrno`, and the buffer. -/
def readFdFrom (b : Buffer) : Readv → Except Fault (Int × Option Nat × Buffer)
  | .failed errno => .ok (-1, some errno, b)
  | .stored data => do
    let (n, b) ← b.readFd data
    .ok (n, none, b)

inductive Call where
  | construct (initialSize : UInt64)
  | op (i : Nat) (op : Op)
  | readFd (i : Nat) (result : Readv)
  | swap (i j : Nat)
  | shrink (i : Nat) (reserve : UInt64)

/-- The buffer at `i` after a call. -/
def replace (s : List Buffer) (i : Nat) (result : Except Fault Buffer) : Except Fault (List Buffer) :=
  result.map (s.set i)

def storeStep (s : List Buffer) : Call → Option (Except Fault (List Buffer))
  | .construct initialSize => some ((Buffer.construct initialSize).map (s ++ [·]))
  | .op i op => s[i]?.map fun b => replace s i ((op.run b).map Prod.snd)
  | .readFd i result => s[i]?.map fun b => replace s i ((b.readFdFrom result).map (·.2.2))
  | .swap i j => do
    let a ← s[i]?
    let b ← s[j]?
    if i = j then some (.ok (s.set i a.swapSelf))
    else some (.ok ((s.set i (a.swap b).1).set j (a.swap b).2))
  | .shrink i reserve => s[i]?.map fun b => replace s i (b.shrink reserve)

/-- The buffers of a program, by every sequence of calls. -/
def store : Lib.Machine (List Buffer) Call Fault where
  init s := s = []
  step := storeStep

/-- The first buffer is empty, and the second is as if it were in its place. -/
def SwapFits (a b : Buffer) : Prop := a.readerIndex = a.writerIndex ∧ b.writerIndex = a.writerIndex

/-- `readerIndex_` is where the copy's `writerIndex_` would have to be, and the copy has room. -/
def ShrinkFits (b : Buffer) (reserve : UInt64) : Prop :=
  b.readerIndex = kCheapPrepend + b.readableBytes ∧ kCheapPrepend + b.readableBytes + reserve.toNat ≤ maxSize

/-- The asserted preconditions, a constructor that does not wrap, and the two conditions above. -/
def Fits (s : List Buffer) : Call → Prop
  | .construct initialSize => kCheapPrepend + initialSize.toNat < 2 ^ 64
  | .op i op => ∀ b, s[i]? = some b → op.Pre b
  | .readFd _ _ => True
  | .swap i j => ∀ a b, s[i]? = some a → s[j]? = some b → SwapFits a b
  | .shrink i reserve => ∀ b, s[i]? = some b → ShrinkFits b reserve

/-- The index invariant, without the room in front. -/
def Ordered (b : Buffer) : Prop := b.readerIndex ≤ b.writerIndex ∧ b.writerIndex ≤ b.buffer.length

theorem Wf.ordered (h : b.Wf) : b.Ordered := ⟨h.reader_le, h.writer_le⟩

theorem Ordered.length_readable (h : b.Ordered) : b.readable.length = b.writerIndex - b.readerIndex :=
  length_slice h.2

/-! ### `swap` -/

theorem swap_eq (a b : Buffer) :
    a.swap b = (⟨b.buffer, b.readerIndex, a.readerIndex⟩, ⟨a.buffer, a.writerIndex, b.writerIndex⟩) := rfl

theorem swap_fits (h : SwapFits a b) : a.swap b = (b, a) := by
  obtain ⟨empty, same⟩ := h
  have first : Buffer.mk b.buffer b.readerIndex a.readerIndex = ⟨b.buffer, b.readerIndex, b.writerIndex⟩ := by
    rw [empty, same]
  have second : Buffer.mk a.buffer a.writerIndex b.writerIndex = ⟨a.buffer, a.readerIndex, a.writerIndex⟩ := by
    rw [empty, same]
  rw [swap_eq, first, second]

theorem swapSelf_fits (h : SwapFits b b) : b.swapSelf = b := by
  show Buffer.mk b.buffer b.writerIndex b.readerIndex = ⟨b.buffer, b.readerIndex, b.writerIndex⟩
  rw [h.1]

/-- Each buffer holds the bytes that the other held. -/
def Exchanged (a b a' b' : Buffer) : Prop :=
  a'.readable = b.readable ∧ b'.readable = a.readable ∧ a'.Ordered ∧ b'.Ordered

theorem swap_iff (ha : a.Wf) (hb : b.Wf) : Exchanged a b (a.swap b).1 (a.swap b).2 ↔ SwapFits a b := by
  constructor
  · rintro ⟨first, second, ordered, ordered'⟩
    have length := congrArg List.length first
    have length' := congrArg List.length second
    rw [ordered.length_readable, hb.ordered.length_readable] at length
    rw [ordered'.length_readable, ha.ordered.length_readable] at length'
    rw [swap_eq] at length length'
    have low : b.readerIndex ≤ a.readerIndex := ordered.1
    have high : a.writerIndex ≤ b.writerIndex := ordered'.1
    have reader := ha.reader_le
    have reader' := hb.reader_le
    simp only at length length'
    constructor <;> omega
  · intro fits
    rw [swap_fits fits]
    exact ⟨rfl, rfl, hb.ordered, ha.ordered⟩

theorem swapSelf_iff (h : b.Wf) : Exchanged b b b.swapSelf b.swapSelf ↔ SwapFits b b := by
  constructor
  · rintro ⟨_, _, ordered, _⟩
    exact ⟨Nat.le_antisymm h.reader_le ordered.1, rfl⟩
  · intro fits
    rw [swapSelf_fits fits]
    exact ⟨rfl, rfl, h.ordered, h.ordered⟩

/-! ### `shrink` -/

theorem makeSpace_reader {len : Nat} (h : b.readerIndex = kCheapPrepend) (ran : b.makeSpace len = .ok b') :
    b'.readerIndex = kCheapPrepend := by
  unfold makeSpace resize at ran
  split at ran
  · split at ran
    · obtain rfl := Except.ok.inj ran
      exact h
    · cases ran
  · rw [if_neg (by omega)] at ran
    cases ran

theorem ensureWritableBytes_reader {len : Nat} (h : b.readerIndex = kCheapPrepend)
    (ran : b.ensureWritableBytes len = .ok b') : b'.readerIndex = kCheapPrepend := by
  obtain ⟨grown, made, ended | failed⟩ | ⟨_, _, failed⟩ := ensureWritableBytes_cases ran
  · obtain rfl := Except.ok.inj ended
    rcases made with made | rfl
    · exact makeSpace_reader h made
    · exact h
  · cases failed
  · cases failed

theorem append_reader {data : List Byte} (h : b.readerIndex = kCheapPrepend) (ran : b.append data = .ok b') :
    b'.readerIndex = kCheapPrepend := by
  obtain ⟨grown, made, written⟩ := Lib.bind_ok ran
  have reader := ensureWritableBytes_reader h made
  dsimp only [hasWritten] at written
  split at written
  · obtain rfl := Except.ok.inj written
    exact reader
  · cases written

theorem new_wf : (make kInitialSize).Wf := make_wf (by decide)

theorem new_writableBytes : (make kInitialSize).writableBytes = kInitialSize := by
  rw [new_wf.writableBytes]
  simp [make]

/-- A length at which `len + kCheapPrepend` wraps fails the assertion of `makeSpace`. -/
theorem new_wraps {len : Nat} (small : len < 2 ^ 64) (wraps : 2 ^ 64 ≤ kCheapPrepend + len) :
    (make kInitialSize).ensureWritableBytes len = .error .makeSpaceReader := by
  have cheap : kCheapPrepend = 8 := rfl
  have initial : kInitialSize = 1024 := rfl
  have writable := new_writableBytes
  have room : addSize (make kInitialSize).writableBytes (make kInitialSize).prependableBytes = 1032 := by
    rw [writable]
    rfl
  have need : addSize len kCheapPrepend < 8 := by
    unfold addSize
    omega
  have failed : (make kInitialSize).makeSpace len = .error .makeSpaceReader := by
    unfold makeSpace
    rw [if_neg (by omega)]
    exact if_neg (Nat.lt_irrefl _)
  unfold ensureWritableBytes
  rw [if_pos (by omega), failed]
  rfl

theorem append_inside {data : List Byte} (h : b.Wf) (fits : data.length ≤ b.writableBytes) :
    b.append data =
      .ok ⟨overwrite b.buffer b.writerIndex data, b.readerIndex, b.writerIndex + data.length⟩ := by
  have writable := h.writableBytes
  have writer := h.writer_le
  have size := h.size_lt
  have same : b.ensureWritableBytes data.length = .ok b := by
    unfold ensureWritableBytes
    rw [if_neg (Nat.not_lt.mpr fits), Lib.ok_bind]
    exact if_pos fits
  have kept : (overwrite b.buffer b.writerIndex data).length = b.buffer.length := length_overwrite (by omega)
  have fits' : data.length ≤ writableBytes { b with buffer := overwrite b.buffer b.writerIndex data } := by
    unfold Buffer.writableBytes at fits ⊢
    rw [kept]
    exact fits
  unfold append
  rw [same, Lib.ok_bind, hasWritten, if_pos fits', addSize_eq (by simp only; omega)]

theorem shrink_copy {reserve : UInt64} (h : b.Wf) (ran : b.shrink reserve = .ok b') :
    ∃ other : Buffer, other.Wf ∧ other.readerIndex = kCheapPrepend ∧
      b' = ⟨other.buffer, kCheapPrepend, b.readerIndex⟩ := by
  obtain ⟨first, reserved, ran⟩ := Lib.bind_ok ran
  obtain ⟨other, copied, ran⟩ := Lib.bind_ok ran
  have small : addSize b.readableBytes reserve.toNat < 2 ^ 64 := Nat.mod_lt _ (by decide)
  have first_wf : first.Wf := by
    by_cases wraps : kCheapPrepend + addSize b.readableBytes reserve.toNat < 2 ^ 64
    · obtain failed | ⟨grown, made, wf, _⟩ := ensureWritableBytes_spec new_wf wraps
      · cases failed.symm.trans reserved
      · obtain rfl := Except.ok.inj (made.symm.trans reserved)
        exact wf
    · cases (new_wraps small (Nat.le_of_not_lt wraps)).symm.trans reserved
  have other_wf : other.Wf := by
    obtain failed | ⟨grown, made, wf, _⟩ := append_spec first_wf h.readable_fits
    · cases failed.symm.trans copied
    · obtain rfl := Except.ok.inj (made.symm.trans copied)
      exact wf
  have reader := append_reader (ensureWritableBytes_reader rfl reserved) copied
  refine ⟨other, other_wf, reader, ?_⟩
  rw [← Except.ok.inj ran, swap_eq, reader]

/-- What `shrink` is for. -/
def Shrunk (b : Buffer) (reserve : UInt64) (b' : Buffer) : Prop :=
  b'.readable = b.readable ∧ reserve.toNat ≤ b'.writableBytes ∧ b'.Ordered

theorem shrink_fits {reserve : UInt64} (h : b.Wf) (fits : ShrinkFits b reserve) :
    ∃ b', b.shrink reserve = .ok b' ∧ b'.Wf ∧ Shrunk b reserve b' := by
  obtain ⟨reader, room⟩ := fits
  have small : kCheapPrepend + b.readableBytes + reserve.toNat < 2 ^ 64 := Nat.lt_of_le_of_lt room (by decide)
  have sum : addSize b.readableBytes reserve.toNat = b.readableBytes + reserve.toNat := addSize_eq (by omega)
  obtain ⟨first, reserved, wf, empty, long⟩ : ∃ first,
      (make kInitialSize).ensureWritableBytes (b.readableBytes + reserve.toNat) = .ok first ∧ first.Wf ∧
      first.readable = [] ∧ first.writerIndex + (b.readableBytes + reserve.toNat) ≤ first.buffer.length := by
    have start : (make kInitialSize).writerIndex = kCheapPrepend := rfl
    have inside : (make kInitialSize).writerIndex + (b.readableBytes + reserve.toNat) < 2 ^ 64 := by omega
    obtain failed | ⟨grown, made, wf, same, long⟩ := ensureWritableBytes_spec new_wf inside
    · exact absurd failed (ensureWritableBytes_room (by omega))
    · exact ⟨grown, made, wf, same.trans (make_readable _), long⟩
  have firstReader : first.readerIndex = kCheapPrepend := ensureWritableBytes_reader rfl reserved
  have firstWriter : first.writerIndex = kCheapPrepend :=
    Nat.le_antisymm (ensureWritableBytes_writer new_wf reserved) wf.cheap_le
  have length := h.length_readable
  have fits : b.readable.length ≤ first.writableBytes := by
    rw [wf.writableBytes]
    omega
  have copied := append_inside wf fits
  obtain ⟨copy_wf, copy_readable⟩ := stored_spec wf fits
  rw [empty, List.nil_append] at copy_readable
  -- the old `readerIndex_` is the `writerIndex_` of the copy
  have index : b.readerIndex = first.writerIndex + b.readable.length := by omega
  refine ⟨⟨overwrite first.buffer first.writerIndex b.readable, first.readerIndex, first.writerIndex + b.readable.length⟩,
    ?_, copy_wf, copy_readable, ?_, copy_wf.ordered⟩
  · unfold shrink
    rw [sum, reserved, Lib.ok_bind, copied, Lib.ok_bind, swap_eq, index]
  · have kept : (overwrite first.buffer first.writerIndex b.readable).length = first.buffer.length :=
      length_overwrite (by omega)
    rw [copy_wf.writableBytes]
    simp only [kept]
    omega

theorem shrink_iff {reserve : UInt64} (h : b.Wf) :
    (∃ b', b.shrink reserve = .ok b' ∧ Shrunk b reserve b') ↔ ShrinkFits b reserve := by
  constructor
  · rintro ⟨b', ran, same, room, ordered⟩
    obtain ⟨other, wf, reader, rfl⟩ := shrink_copy h ran
    have length := congrArg List.length same
    rw [ordered.length_readable, h.length_readable] at length
    have low : kCheapPrepend ≤ b.readerIndex := ordered.1
    have high : b.readerIndex ≤ other.buffer.length := ordered.2
    have size := wf.size_le
    rw [writableBytes, subSize_eq high wf.size_lt] at room
    simp only at length room
    constructor <;> omega
  · intro fits
    obtain ⟨b', ran, _, shrunk⟩ := shrink_fits h fits
    exact ⟨b', ran, shrunk⟩

/-! ### `readFd` -/

theorem readFd_returns {data : List Byte} (h : b.Wf) (offered : data.length ≤ b.readOffer) :
    (∃ b', b.readFd data = .ok (data.length, b')) ∨
      (b.readFd data = .error .lengthError ∧ maxSize < b.buffer.length + (data.length - b.writableBytes)) := by
  have whole : data.take b.readOffer = data := List.take_of_length_le offered
  have short : (data.take b.writableBytes).length ≤ b.writableBytes := List.length_take_le _ _
  obtain ⟨filled, _⟩ := stored_spec h short
  unfold readFd
  dsimp only
  rw [whole]
  by_cases inside : data.length ≤ b.writableBytes
  · rw [if_pos inside]
    exact .inl ⟨_, rfl⟩
  · rw [if_neg inside]
    have writable := h.writableBytes
    have writer := h.writer_le
    have last : b.writerIndex + (data.take b.writableBytes).length = b.buffer.length := by
      rw [List.length_take]
      omega
    have extra : (data.drop b.writableBytes).length = data.length - b.writableBytes := List.length_drop
    rw [last] at filled
    by_cases room : b.buffer.length + (data.length - b.writableBytes) ≤ maxSize
    · have room' : b.buffer.length + (data.drop b.writableBytes).length ≤ maxSize := extra ▸ room
      obtain ⟨b', ran, _⟩ := append_room filled room'
      rw [ran]
      exact .inl ⟨b', rfl⟩
    · have size := h.size_le
      have fits : (data.drop b.writableBytes).length ≤ maxSize := by
        unfold readOffer at offered
        rw [extra]
        split at offered <;> simp only [maxSize] at * <;> omega
      obtain failed | ⟨b', ran, _⟩ := append_spec filled fits
      · rw [failed]
        exact .inr ⟨rfl, Nat.lt_of_not_le room⟩
      · rw [ran]
        exact .inl ⟨b', rfl⟩

theorem readFdFrom_wf {result : Readv} {n : Int} {errno : Option Nat} (h : b.Wf)
    (ran : b.readFdFrom result = .ok (n, errno, b')) : b'.Wf := by
  cases result with
  | failed code =>
    obtain ⟨_, _, rfl⟩ := Lib.ok_inj_triple ran
    exact h
  | stored data =>
    obtain ⟨⟨count, c⟩, read, ran⟩ := Lib.bind_ok ran
    obtain ⟨_, _, rfl⟩ := Lib.ok_inj_triple ran
    exact (readFd_spec h read).1

/-! ### Runs -/

theorem set_wf {s : List Buffer} {i : Nat} (h : ∀ b ∈ s, b.Wf) (wf : b.Wf) : ∀ c ∈ s.set i b, c.Wf := by
  intro c member
  rcases List.mem_or_eq_of_mem_set member with old | rfl
  · exact h c old
  · exact wf

theorem replace_wf {s s' : List Buffer} {i : Nat} {call : Buffer → Except Fault Buffer} (h : ∀ b ∈ s, b.Wf)
    (step : (s[i]?.map fun b => replace s i (call b)) = some (.ok s'))
    (keeps : ∀ b b', s[i]? = some b → b.Wf → call b = .ok b' → b'.Wf) : ∀ b ∈ s', b.Wf := by
  obtain ⟨b, there, step⟩ := Option.map_eq_some_iff.mp step
  obtain ⟨b', ran, rfl⟩ := Lib.map_ok step
  exact set_wf h (keeps b b' there (h b (List.mem_of_getElem? there)) ran)

theorem storeStep_wf {s s' : List Buffer} {call : Call} (h : ∀ b ∈ s, b.Wf) (fits : Fits s call)
    (step : storeStep s call = some (.ok s')) : ∀ b ∈ s', b.Wf := by
  cases call with
  | construct initialSize =>
    rw [Fits] at fits
    obtain ⟨b, made, rfl⟩ := Lib.map_ok (Option.some.inj step)
    intro c member
    rcases List.mem_append.mp member with old | new
    · exact h c old
    · rw [List.mem_singleton.mp new]
      exact (construct_spec fits made).1
  | op i op =>
    refine replace_wf h step fun b b' there wf ran => ?_
    obtain ⟨⟨result, c⟩, called, rfl⟩ := Lib.map_ok ran
    obtain failed | ⟨c', ok, wf', _⟩ := run_spec wf (fits b there)
    · cases failed.symm.trans called
    · obtain ⟨_, rfl⟩ := Prod.mk.inj (Except.ok.inj (ok.symm.trans called))
      exact wf'
  | readFd i result =>
    refine replace_wf h step fun b b' there wf ran => ?_
    obtain ⟨⟨n, errno, c⟩, read, rfl⟩ := Lib.map_ok ran
    exact readFdFrom_wf wf read
  | swap i j =>
    obtain ⟨a, first, rest⟩ := Option.bind_eq_some_iff.mp step
    obtain ⟨b, second, ran⟩ := Option.bind_eq_some_iff.mp rest
    have wf := h a (List.mem_of_getElem? first)
    have wf' := h b (List.mem_of_getElem? second)
    have good := fits a b first second
    split at ran
    · rename_i same
      subst same
      obtain rfl := Option.some.inj (first.symm.trans second)
      obtain rfl := Except.ok.inj (Option.some.inj ran)
      exact set_wf h (by rw [swapSelf_fits good]; exact wf)
    · obtain rfl := Except.ok.inj (Option.some.inj ran)
      rw [swap_fits good]
      exact set_wf (set_wf h wf') wf
  | shrink i reserve =>
    refine replace_wf h step fun b b' there wf ran => ?_
    obtain ⟨c, ok, wf', _⟩ := shrink_fits wf (fits b there)
    obtain rfl := Except.ok.inj (ok.symm.trans ran)
    exact wf'

theorem reachable_wf {s : List Buffer} (h : store.Reachable Fits s) : ∀ b ∈ s, b.Wf := by
  apply h.invariant
  · rintro _ rfl
    exact fun _ member => by cases member
  · exact fun a call s' _ before fits step => storeStep_wf before fits step

theorem swap_step {s : List Buffer} {i j : Nat} (first : s[i]? = some a) (second : s[j]? = some b) :
    ∃ s' a' b', store.step s (.swap i j) = some (.ok s') ∧ s'[i]? = some a' ∧ s'[j]? = some b' ∧
      (i = j ∧ a' = a.swapSelf ∧ b' = a.swapSelf ∨ i ≠ j ∧ (a', b') = a.swap b) := by
  obtain ⟨inside, _⟩ := List.getElem?_eq_some_iff.mp first
  obtain ⟨inside', _⟩ := List.getElem?_eq_some_iff.mp second
  by_cases same : i = j
  · subst same
    have step : store.step s (.swap i i) = some (.ok (s.set i a.swapSelf)) := by simp [store, storeStep, first]
    have there : (s.set i a.swapSelf)[i]? = some a.swapSelf := List.getElem?_set_self inside
    exact ⟨_, _, _, step, there, there, .inl ⟨rfl, rfl, rfl⟩⟩
  · have step : store.step s (.swap i j) = some (.ok ((s.set i (a.swap b).1).set j (a.swap b).2)) := by
      simp [store, storeStep, first, second, same]
    refine ⟨_, (a.swap b).1, (a.swap b).2, step, ?_, List.getElem?_set_self (by rwa [List.length_set]),
      .inr ⟨same, rfl⟩⟩
    rw [List.getElem?_set_ne (Ne.symm same), List.getElem?_set_self inside]

/-- In every state, `swap` exchanges the contents of two buffers, and `shrink` keeps the contents and gives the
room that is asked for, exactly in the cases that `SwapFits` and `ShrinkFits` describe. -/
theorem swap_shrink_exact {s : List Buffer} (h : store.Reachable Fits s) :
    (∀ i j a b, s[i]? = some a → s[j]? = some b →
      ((∃ s' a' b', store.step s (.swap i j) = some (.ok s') ∧ s'[i]? = some a' ∧ s'[j]? = some b' ∧
        Exchanged a b a' b') ↔ SwapFits a b)) ∧
    ∀ b ∈ s, ∀ reserve, (∃ b', b.shrink reserve = .ok b' ∧ Shrunk b reserve b') ↔ ShrinkFits b reserve := by
  have wf := reachable_wf h
  refine ⟨fun i j a b first second => ?_, fun b member reserve => shrink_iff (wf b member)⟩
  have wf₁ := wf a (List.mem_of_getElem? first)
  have wf₂ := wf b (List.mem_of_getElem? second)
  obtain ⟨s', a', b', step, left, right, result⟩ := swap_step first second
  have only : (∃ s' a' b', store.step s (.swap i j) = some (.ok s') ∧ s'[i]? = some a' ∧ s'[j]? = some b' ∧
      Exchanged a b a' b') ↔ Exchanged a b a' b' := by
    constructor
    · rintro ⟨t, c, d, ran, there, there', exchanged⟩
      obtain rfl := Except.ok.inj (Option.some.inj (ran.symm.trans step))
      obtain rfl := Option.some.inj (there.symm.trans left)
      obtain rfl := Option.some.inj (there'.symm.trans right)
      exact exchanged
    · exact fun exchanged => ⟨s', a', b', step, left, right, exchanged⟩
  rw [only]
  rcases result with ⟨rfl, rfl, rfl⟩ | ⟨_, result⟩
  · obtain rfl := Option.some.inj (first.symm.trans second)
    exact swapSelf_iff wf₁
  · obtain ⟨rfl, rfl⟩ := Prod.mk.inj result
    exact swap_iff wf₁ wf₂

theorem constructed_reachable {s : List Buffer} (h : store.Reachable Fits s) :
    store.Reachable Fits (s ++ [⟨[0, 0, 0, 0, 0, 0, 0, 0], 8, 8⟩]) := by
  have fits : Fits s (.construct 0) := by
    rw [Fits]
    decide
  exact h.next fits rfl

theorem called_reachable (op : Op) {result : List Byte} (pre : op.Pre ⟨[0, 0, 0, 0, 0, 0, 0, 0], 8, 8⟩)
    (ran : op.run ⟨[0, 0, 0, 0, 0, 0, 0, 0], 8, 8⟩ = .ok (result, b)) :
    store.Reachable Fits [⟨[0, 0, 0, 0, 0, 0, 0, 0], 8, 8⟩, b] := by
  have made := constructed_reachable (constructed_reachable (.initial rfl))
  have fits : Fits [⟨[0, 0, 0, 0, 0, 0, 0, 0], 8, 8⟩, ⟨[0, 0, 0, 0, 0, 0, 0, 0], 8, 8⟩] (.op 1 op) := by
    intro c there
    obtain rfl := Option.some.inj there
    exact pre
  refine made.next fits ?_
  show some (replace _ 1 ((op.run _).map Prod.snd)) = _
  rw [ran]
  rfl

/-- Two bytes have been prepended to the second buffer. -/
theorem swap_shrink_exact_prepended :
    ∃ s a b, store.Reachable Fits s ∧ (s[0]? = some a ∧ s[1]? = some b ∧ b.readable = [1, 2]) ∧
      ∃ s' a' b', store.step s (.swap 0 1) = some (.ok s') ∧ s'[0]? = some a' ∧ s'[1]? = some b' ∧
        Exchanged a b a' b' := by
  have reachable : store.Reachable Fits
      [⟨[0, 0, 0, 0, 0, 0, 0, 0], 8, 8⟩, ⟨[0, 0, 0, 0, 0, 0, 1, 2], 6, 8⟩] :=
    called_reachable (.prepend [1, 2]) (show 2 ≤ 8 by decide) rfl
  exact ⟨_, _, _, reachable, ⟨rfl, rfl, by decide⟩,
    ((swap_shrink_exact reachable).1 0 1 _ _ rfl rfl).mpr ⟨rfl, rfl⟩⟩

/-- One byte has been appended to the second buffer: `swap` puts `readerIndex_` of the other behind its
`writerIndex_`, and `shrink` drops the byte. -/
theorem swap_shrink_lose :
    ∃ s a b, store.Reachable Fits s ∧ (s[0]? = some a ∧ s[1]? = some b ∧ b.readable = [104]) ∧
      ¬ (∃ s' a' b', store.step s (.swap 1 0) = some (.ok s') ∧ s'[1]? = some b' ∧ s'[0]? = some a' ∧
        Exchanged b a b' a') ∧
      ¬ ∃ b', b.shrink 0 = .ok b' ∧ Shrunk b 0 b' := by
  have reachable : store.Reachable Fits
      [⟨[0, 0, 0, 0, 0, 0, 0, 0], 8, 8⟩, ⟨[0, 0, 0, 0, 0, 0, 0, 0, 104], 8, 9⟩] :=
    called_reachable (.append [104]) (show 8 + 1 < 2 ^ 64 by decide) rfl
  have wf := reachable_wf reachable
  refine ⟨_, _, _, reachable, ⟨rfl, rfl, by decide⟩, ?_, ?_⟩
  · rintro ⟨s', a', b', step, there, there', exchanged⟩
    obtain rfl := Except.ok.inj (Option.some.inj step)
    obtain rfl := Option.some.inj there
    obtain rfl := Option.some.inj there'
    exact absurd exchanged.2.2.2.1 (by decide)
  · intro shrunk
    have fits := (shrink_iff (wf _ (by simp))).mp shrunk
    exact absurd fits.1 (by decide)

/-- `readFd` returns what `readv` does. A failure leaves the buffer as it was, and bytes that were stored are added
behind the readable ones, where they fit and where they went to `extrabuf`; otherwise there is no vector for
them. -/
theorem readFd_appends {s : List Buffer} (h : store.Reachable Fits s) (member : b ∈ s) :
    (∀ errno, b.readFdFrom (.failed errno) = .ok (-1, some errno, b)) ∧
      ∀ data, data.length ≤ b.readOffer →
        (∃ b', b.readFdFrom (.stored data) = .ok (data.length, none, b') ∧ b'.readable = b.readable ++ data ∧ b'.Wf) ∨
        (b.readFdFrom (.stored data) = .error .lengthError ∧
          maxSize < b.buffer.length + (data.length - b.writableBytes)) := by
  have wf := reachable_wf h b member
  refine ⟨fun errno => rfl, fun data offered => ?_⟩
  obtain ⟨b', read⟩ | ⟨failed, full⟩ := readFd_returns wf offered
  · obtain ⟨wf', added⟩ := readFd_spec wf read
    rw [List.take_of_length_le offered] at added
    have result : b.readFdFrom (.stored data) = .ok (data.length, none, b') := by
      rw [readFdFrom, read]
      rfl
    exact .inl ⟨b', result, added, wf'⟩
  · have result : b.readFdFrom (.stored data) = .error .lengthError := by
      rw [readFdFrom, failed]
      rfl
    exact .inr ⟨result, full⟩

/-- The vector is full, so that everything goes to `extrabuf` first. -/
theorem readFd_appends_full :
    ∃ s b, store.Reachable Fits s ∧ (b ∈ s ∧ b.writableBytes = 0 ∧ b.readable = [104]) ∧
      ∃ b', b.readFdFrom (.stored [105, 106]) = .ok (2, none, b') ∧ b'.readable = [104, 105, 106] := by
  have reachable : store.Reachable Fits
      [⟨[0, 0, 0, 0, 0, 0, 0, 0], 8, 8⟩, ⟨[0, 0, 0, 0, 0, 0, 0, 0, 104], 8, 9⟩] :=
    called_reachable (.append [104]) (show 8 + 1 < 2 ^ 64 by decide) rfl
  refine ⟨_, _, reachable, ⟨List.mem_cons_of_mem _ List.mem_cons_self, by decide, by decide⟩, ?_⟩
  obtain ⟨b', ran, added, _⟩ | ⟨_, full⟩ :=
    (readFd_appends reachable (List.mem_cons_of_mem _ List.mem_cons_self)).2 [105, 106] (by decide)
  · exact ⟨b', ran, added⟩
  · exact absurd full (by decide)

end Buffer

end Dserver.Net
