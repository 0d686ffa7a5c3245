import Mathlib.Data.Set.Function
import Dserver.Lib.Machine
import Dserver.Net.Channel

/-!
# `EPollPoller` and the kernel's epoll set

Three places say whether a channel is watched: its `events_` and `index_`, the poller's `channels_`,
and the kernel's interest list, which maps a descriptor to a mask and the channel's address.
-/

namespace Dserver.Net

inductive EpollOp where
  | add | mod | del
  deriving DecidableEq, Repr

/-- One call of `epoll_ctl` and whether the kernel took it. -/
structure CtlCall where
  op : EpollOp
  fd : Fd
  accepted : Bool
  deriving DecidableEq, Repr

structure Poller where
  /-- `channels_`. -/
  channels : Fd → Option ChannelId := fun _ => none
  /-- The kernel's interest list. -/
  epoll : Fd → Option (Events × ChannelId) := fun _ => none
  /-- Every `epoll_ctl` call so far. -/
  ctl : List CtlCall := []

namespace Poller

/-- The assertions of `Channel::remove` and `removeChannel`, and `LOG_SYSFATAL` in `update`. -/
inductive Fault where
  | removeHasEvents
  | notFound
  | otherChannel
  | hasEvents
  | notAdded
  | sysFatal
  deriving DecidableEq, Repr

/-- `epoll_ctl`: EEXIST for a registered descriptor, ENOENT for one that is not. -/
def epollCtl (p : Poller) (op : EpollOp) (fd : Fd) (mask : Events) (id : ChannelId) :
    Option (Fd → Option (Events × ChannelId)) :=
  match op, p.epoll fd with
  | .add, none => some (Function.update p.epoll fd (some (mask, id)))
  | .mod, some _ => some (Function.update p.epoll fd (some (mask, id)))
  | .del, some _ => some (Function.update p.epoll fd none)
  | _, _ => none

def update (p : Poller) (op : EpollOp) (id : ChannelId) (ch : Channel) : Except Fault Poller :=
  match p.epollCtl op ch.fd ch.events id with
  | some epoll => .ok { p with epoll, ctl := p.ctl ++ [⟨op, ch.fd, true⟩] }
  | none =>
    if op = .del then .ok { p with ctl := p.ctl ++ [⟨op, ch.fd, false⟩] } else .error .sysFatal

def updateChannel (p : Poller) (id : ChannelId) (ch : Channel) : Except Fault (Channel × Poller) := do
  if ch.index = .kNew ∨ ch.index = .kDeleted then
    let p := { p with channels := Function.update p.channels ch.fd (some id) }
    let ch := { ch with index := .kAdded }
    let p ← p.update .add id ch
    .ok (ch, p)
  else if ch.isNoneEvent then
    let p ← p.update .del id ch
    .ok ({ ch with index := .kDeleted }, p)
  else
    let p ← p.update .mod id ch
    .ok (ch, p)

def removeChannel (p : Poller) (id : ChannelId) (ch : Channel) : Except Fault (Channel × Poller) := do
  match p.channels ch.fd with
  | none => .error .notFound
  | some found =>
    if found ≠ id then .error .otherChannel
    else if !ch.isNoneEvent then .error .hasEvents
    else if ch.index = .kNew then .error .notAdded
    else
      let p := { p with channels := Function.update p.channels ch.fd none }
      let p ← if ch.index = .kAdded then p.update .del id ch else .ok p
      .ok ({ ch with index := .kNew }, p)

end Poller

namespace Channel

/-- A change of `events_` followed by `update()`. -/
def toggle (change : Events → Events) (p : Poller) (id : ChannelId) (ch : Channel) :
    Except Poller.Fault (Channel × Poller) :=
  p.updateChannel id { ch with events := change ch.events, addedToLoop := true }

def enableReading := toggle (fun events => events ||| kReadEvent)
def disableReading := toggle (fun events => events &&& ~~~kReadEvent)
def enableWriting := toggle (fun events => events ||| kWriteEvent)
def disableWriting := toggle (fun events => events &&& ~~~kWriteEvent)
def disableAll := toggle (fun _ => kNoneEvent)

def remove (p : Poller) (id : ChannelId) (ch : Channel) : Except Poller.Fault (Channel × Poller) :=
  if ch.isNoneEvent then p.removeChannel id { ch with addedToLoop := false }
  else .error .removeHasEvents

end Channel

/-- The three records of a channel agree. -/
structure Consistent (p : Poller) (id : ChannelId) (ch : Channel) : Prop where
  epoll : p.epoll ch.fd = if ch.index = .kAdded then some (ch.events, id) else none
  channels : p.channels ch.fd = if ch.index = .kNew then none else some id
  added : ch.addedToLoop = true ↔ ch.index ≠ .kNew

/-- A call on one channel leaves every other descriptor alone, and the kernel takes it. -/
structure Poller.Touches (p p' : Poller) (fd : Fd) : Prop where
  epoll : ∀ other, other ≠ fd → p'.epoll other = p.epoll other
  channels : ∀ other, other ≠ fd → p'.channels other = p.channels other
  ctl : ∃ calls : List CtlCall, p'.ctl = p.ctl ++ calls ∧ ∀ call ∈ calls, call.accepted = true

variable {p p' : Poller} {id : ChannelId} {ch ch' : Channel}

theorem Poller.Touches.refl (p : Poller) (fd : Fd) : p.Touches p fd :=
  ⟨fun _ _ => rfl, fun _ _ => rfl, [], by simp, by simp⟩

theorem Poller.Touches.trans {p'' : Poller} {fd : Fd} (first : p.Touches p' fd)
    (second : p'.Touches p'' fd) : p.Touches p'' fd := by
  obtain ⟨calls, log, accepted⟩ := first.ctl
  obtain ⟨calls', log', accepted'⟩ := second.ctl
  refine ⟨fun other h => (second.epoll other h).trans (first.epoll other h),
    fun other h => (second.channels other h).trans (first.channels other h),
    calls ++ calls', by rw [log', log, List.append_assoc], ?_⟩
  intro call member
  rcases List.mem_append.mp member with old | new
  · exact accepted call old
  · exact accepted' call new

theorem Poller.Touches.consistent {fd : Fd} (touched : p.Touches p' fd) (different : ch.fd ≠ fd)
    (h : Consistent p id ch) : Consistent p' id ch :=
  ⟨(touched.epoll _ different).trans h.epoll, (touched.channels _ different).trans h.channels, h.added⟩

theorem update_add (free : p.epoll ch.fd = none) :
    p.update .add id ch =
      .ok { p with
        epoll := Function.update p.epoll ch.fd (some (ch.events, id))
        ctl := p.ctl ++ [⟨.add, ch.fd, true⟩] } := by
  simp only [Poller.update, Poller.epollCtl, free]

theorem update_mod {entry : Events × ChannelId} (taken : p.epoll ch.fd = some entry) :
    p.update .mod id ch =
      .ok { p with
        epoll := Function.update p.epoll ch.fd (some (ch.events, id))
        ctl := p.ctl ++ [⟨.mod, ch.fd, true⟩] } := by
  simp only [Poller.update, Poller.epollCtl, taken]

theorem update_del {entry : Events × ChannelId} (taken : p.epoll ch.fd = some entry) :
    p.update .del id ch =
      .ok { p with
        epoll := Function.update p.epoll ch.fd none
        ctl := p.ctl ++ [⟨.del, ch.fd, true⟩] } := by
  simp only [Poller.update, Poller.epollCtl, taken]

namespace Channel

/-- The channel a toggle leaves: one that was added and loses its last event is deleted, any other
is added. -/
def toggled (change : Events → Events) (ch : Channel) : Channel :=
  { ch with
    events := change ch.events
    addedToLoop := true
    index := if ch.index = .kAdded ∧ change ch.events = kNoneEvent then .kDeleted else .kAdded }

theorem toggle_channel {change : Events → Events} (h : toggle change p id ch = .ok (ch', p')) :
    ch' = toggled change ch := by
  unfold toggle Poller.updateChannel at h
  split at h
  · rename_i absent
    obtain ⟨_, _, h⟩ := Lib.bind_ok h
    have other : ch.index ≠ .kAdded := by
      intro same
      simp [same] at absent
    simp only [Except.ok.injEq, Prod.mk.injEq] at h
    rw [← h.1]
    simp [toggled, other]
  · rename_i present
    have added : ch.index = .kAdded := by
      cases state : ch.index <;> simp [state] at present ⊢
    split at h
    · rename_i empty
      obtain ⟨_, _, h⟩ := Lib.bind_ok h
      simp only [Except.ok.injEq, Prod.mk.injEq] at h
      have none : change ch.events = kNoneEvent := beq_iff_eq.mp empty
      rw [← h.1]
      simp only [toggled, added, none, and_self, if_true]
    · rename_i some
      obtain ⟨_, _, h⟩ := Lib.bind_ok h
      simp only [Except.ok.injEq, Prod.mk.injEq] at h
      have nonempty : change ch.events ≠ kNoneEvent := by simpa [isNoneEvent] using some
      rw [← h.1]
      simp only [toggled, added, nonempty, and_false, if_false]

end Channel

/-- Every toggle succeeds on a consistent channel, and only its descriptor is touched. -/
theorem toggle_spec (h : Consistent p id ch) (change : Events → Events) :
    ∃ p', Channel.toggle change p id ch = .ok (ch.toggled change, p') ∧
      Consistent p' id (ch.toggled change) ∧ p.Touches p' ch.fd := by
  have registered := h.epoll
  have mapped := h.channels
  unfold Channel.toggle Poller.updateChannel
  by_cases absent : ch.index = .kNew ∨ ch.index = .kDeleted
  · have other : ch.index ≠ .kAdded := by
      intro same
      simp [same] at absent
    rw [if_neg other] at registered
    simp only [if_pos absent, Channel.toggled, other, false_and, if_false]
    rw [update_add (by exact registered)]
    refine ⟨_, rfl, ⟨by simp, by simp, by simp⟩, fun fd ne => ?_, fun fd ne => ?_, _, rfl, by simp⟩
    · exact Function.update_of_ne ne _ _
    · exact Function.update_of_ne ne _ _
  · have added : ch.index = .kAdded := by
      cases state : ch.index <;> simp [state] at absent ⊢
    rw [added, if_pos rfl] at registered
    rw [added, if_neg (by decide)] at mapped
    rw [if_neg (by simpa using absent)]
    by_cases empty : change ch.events = Channel.kNoneEvent
    · rw [if_pos (by simp [Channel.isNoneEvent, empty]), update_del (by exact registered)]
      simp only [Channel.toggled, added, empty, and_self, if_true]
      refine ⟨_, rfl, ⟨by simp, by simpa using mapped, by simp⟩, fun fd ne => ?_, fun fd ne => rfl,
        _, rfl, by simp⟩
      exact Function.update_of_ne ne _ _
    · rw [if_neg (by simpa [Channel.isNoneEvent] using empty), update_mod (by exact registered)]
      simp only [Channel.toggled, added, empty, and_false, if_false]
      refine ⟨_, rfl, ⟨by simp, by simpa using mapped, by simp⟩, fun fd ne => ?_, fun fd ne => rfl,
        _, rfl, by simp⟩
      exact Function.update_of_ne ne _ _

theorem remove_spec (h : Consistent p id ch) (added : ch.index ≠ .kNew)
    (empty : ch.events = Channel.kNoneEvent) :
    ∃ p', Channel.remove p id ch = .ok ({ ch with addedToLoop := false, index := .kNew }, p') ∧
      Consistent p' id { ch with addedToLoop := false, index := .kNew } ∧ p.Touches p' ch.fd := by
  have registered := h.epoll
  have mapped := h.channels
  rw [if_neg added] at mapped
  unfold Channel.remove Poller.removeChannel
  simp only [Channel.isNoneEvent, empty, beq_self_eq_true, if_true, mapped, ne_eq, not_true, if_false,
    Bool.not_true, Bool.false_eq_true, added]
  by_cases watched : ch.index = .kAdded
  · rw [if_pos watched] at registered
    rw [if_pos watched, update_del (by exact registered)]
    refine ⟨_, rfl, ⟨by simp, by simp, by simp⟩, fun fd ne => ?_, fun fd ne => ?_, _, rfl, by simp⟩
    · exact Function.update_of_ne ne _ _
    · exact Function.update_of_ne ne _ _
  · rw [if_neg watched] at registered
    rw [if_neg watched]
    refine ⟨_, rfl, ⟨by simpa using registered, by simp, by simp⟩, fun fd ne => rfl, fun fd ne => ?_,
      [], by simp, by simp⟩
    exact Function.update_of_ne ne _ _

theorem Channel.remove_channel (h : Channel.remove p id ch = .ok (ch', p')) :
    ch.events = Channel.kNoneEvent ∧ ch.index ≠ .kNew ∧
      ch' = { ch with addedToLoop := false, index := .kNew } := by
  unfold Channel.remove at h
  split at h
  · rename_i empty
    unfold Poller.removeChannel at h
    split at h
    · cases h
    · split at h
      · cases h
      · split at h
        · cases h
        · split at h
          · cases h
          · rename_i added
            refine ⟨beq_iff_eq.mp empty, added, ?_⟩
            dsimp only at h
            split at h
            · obtain ⟨_, _, h⟩ := Lib.bind_ok h
              exact (Prod.mk.inj (Except.ok.inj h)).1.symm
            · obtain ⟨_, _, h⟩ := Lib.bind_ok h
              exact (Prod.mk.inj (Except.ok.inj h)).1.symm
  · cases h

/-! ### Any sequence of calls on the channels of one loop -/

structure Registry where
  chan : ChannelId → Channel
  poller : Poller

inductive ChannelOp where
  | enableReading | disableReading | enableWriting | disableWriting | disableAll | remove
  deriving DecidableEq, Repr

def ChannelOp.run : ChannelOp → Poller → ChannelId → Channel → Except Poller.Fault (Channel × Poller)
  | .enableReading => Channel.enableReading
  | .disableReading => Channel.disableReading
  | .enableWriting => Channel.enableWriting
  | .disableWriting => Channel.disableWriting
  | .disableAll => Channel.disableAll
  | .remove => Channel.remove

def Registry.call (r : Registry) (id : ChannelId) (op : ChannelOp) : Except Poller.Fault Registry := do
  let (ch, poller) ← op.run r.poller id (r.chan id)
  .ok { chan := Function.update r.chan id ch, poller }

/-- New channels with distinct descriptors on a new poller. -/
def registry (ids : Set ChannelId) : Lib.Machine Registry (ChannelId × ChannelOp) Poller.Fault where
  init r :=
    (∀ id, ∃ fd, r.chan id = { fd }) ∧ ids.InjOn (fun id => (r.chan id).fd) ∧ r.poller = {}
  step r label := some (r.call label.1 label.2)

/-- `remove` is called only on a channel that was added and has no events. -/
def Allowed (ids : Set ChannelId) (r : Registry) (label : ChannelId × ChannelOp) : Prop :=
  label.1 ∈ ids ∧ (label.2 = .remove →
    (r.chan label.1).addedToLoop = true ∧ (r.chan label.1).isNoneEvent = true)

instance (ids : Set ChannelId) [DecidablePred (· ∈ ids)] (r : Registry) (label : ChannelId × ChannelOp) :
    Decidable (Allowed ids r label) := inferInstanceAs (Decidable (_ ∧ (_ → _)))

theorem op_spec {op : ChannelOp} (h : Consistent p id ch)
    (allowed : op = .remove → ch.addedToLoop = true ∧ ch.isNoneEvent = true) :
    ∃ ch' p', op.run p id ch = .ok (ch', p') ∧ Consistent p' id ch' ∧ ch'.fd = ch.fd ∧
      p.Touches p' ch.fd := by
  have toggled : ∀ change, ∃ ch' p', Channel.toggle change p id ch = .ok (ch', p') ∧
      Consistent p' id ch' ∧ ch'.fd = ch.fd ∧ p.Touches p' ch.fd := by
    intro change
    obtain ⟨p', ran, consistent, touched⟩ := toggle_spec h change
    exact ⟨_, p', ran, consistent, rfl, touched⟩
  cases op with
  | remove =>
    obtain ⟨added, empty⟩ := allowed rfl
    obtain ⟨p', ran, consistent, touched⟩ := remove_spec h (h.added.mp added) (beq_iff_eq.mp empty)
    exact ⟨_, p', ran, consistent, rfl, touched⟩
  | enableReading => exact toggled (· ||| Channel.kReadEvent)
  | disableReading => exact toggled (· &&& ~~~Channel.kReadEvent)
  | enableWriting => exact toggled (· ||| Channel.kWriteEvent)
  | disableWriting => exact toggled (· &&& ~~~Channel.kWriteEvent)
  | disableAll => exact toggled (fun _ => Channel.kNoneEvent)

/-- Distinct descriptors, each channel consistent, and every `epoll_ctl` call taken by the kernel. -/
structure Registry.Inv (ids : Set ChannelId) (r : Registry) : Prop where
  distinct : ids.InjOn (fun id => (r.chan id).fd)
  consistent : ∀ id ∈ ids, Consistent r.poller id (r.chan id)
  accepted : ∀ call ∈ r.poller.ctl, call.accepted = true

theorem registry_initial {ids : Set ChannelId} {r : Registry} (h : (registry ids).init r) : r.Inv ids := by
  obtain ⟨fresh, distinct, empty⟩ := h
  refine ⟨distinct, fun id _ => ?_, by simp [empty]⟩
  obtain ⟨fd, new⟩ := fresh id
  rw [empty, new]
  exact ⟨by simp, by simp, by simp⟩

theorem call_spec {ids : Set ChannelId} {r : Registry} {label : ChannelId × ChannelOp} (h : r.Inv ids)
    (allowed : Allowed ids r label) : ∃ r', r.call label.1 label.2 = .ok r' ∧ r'.Inv ids := by
  obtain ⟨member, removable⟩ := allowed
  obtain ⟨ch', p', ran, consistent, fd, touched⟩ := op_spec (h.consistent _ member) removable
  refine ⟨⟨Function.update r.chan label.1 ch', p'⟩, by simp [Registry.call, ran, bind, Except.bind], ?_⟩
  have fds : ∀ id, (Function.update r.chan label.1 ch' id).fd = (r.chan id).fd := by
    intro id
    by_cases same : id = label.1
    · rw [same, Function.update_self, fd]
    · rw [Function.update_of_ne same]
  refine ⟨?_, ?_, ?_⟩
  · simpa only [fds] using h.distinct
  · intro id present
    by_cases same : id = label.1
    · rw [same]
      simpa only [Function.update_self] using consistent
    · simp only [Function.update_of_ne same]
      exact touched.consistent (fun equal => same (h.distinct present member equal)) (h.consistent id present)
  · obtain ⟨calls, log, taken⟩ := touched.ctl
    intro call seen
    rw [log] at seen
    rcases List.mem_append.mp seen with old | new
    · exact h.accepted call old
    · exact taken call new

theorem registry_inv {ids : Set ChannelId} {r : Registry}
    (h : (registry ids).Reachable (Allowed ids) r) : r.Inv ids := by
  refine h.invariant (fun _ => registry_initial) ?_
  intro a label b _ inv allowed step
  obtain ⟨r', ran, inv'⟩ := call_spec inv allowed
  simp only [registry, ran, Option.some.injEq, Except.ok.injEq] at step
  exact step ▸ inv'

/-- In every sequence of calls the kernel takes every `epoll_ctl`, `index_` says what the kernel and
`channels_` hold, and the next call aborts nowhere. -/
theorem poller_agrees {ids : Set ChannelId} {r : Registry}
    (h : (registry ids).Reachable (Allowed ids) r) :
    (∀ call ∈ r.poller.ctl, call.accepted = true) ∧
    (∀ id ∈ ids,
      ((r.chan id).index = .kAdded → r.poller.epoll (r.chan id).fd = some ((r.chan id).events, id)) ∧
      ((r.chan id).index = .kDeleted ∨ (r.chan id).index = .kNew →
        r.poller.epoll (r.chan id).fd = none) ∧
      (r.poller.channels (r.chan id).fd = some id ↔
        (r.chan id).index = .kAdded ∨ (r.chan id).index = .kDeleted)) ∧
    (∀ label, Allowed ids r label → ∃ r', (registry ids).step r label = some (.ok r')) := by
  have inv := registry_inv h
  refine ⟨inv.accepted, fun id member => ?_, fun label allowed => ?_⟩
  · have consistent := inv.consistent id member
    refine ⟨fun added => ?_, fun absent => ?_, ?_⟩
    · rw [consistent.epoll, if_pos added]
    · rw [consistent.epoll, if_neg (by rcases absent with state | state <;> simp [state])]
    · rw [consistent.channels]
      cases (r.chan id).index <;> simp
  · obtain ⟨r', ran, _⟩ := call_spec inv allowed
    exact ⟨r', congrArg some ran⟩

/-- Two channels; the first is read, muted twice, removed and read again, the second is written. -/
theorem poller_agrees_two_channels :
    ∃ r, (registry {id | id < 2}).Reachable (Allowed {id | id < 2}) r ∧ r.poller.ctl.length = 6 ∧
      r.poller.epoll 4 = some (Channel.kReadEvent, 0) ∧ r.poller.channels 5 = some 1 := by
  have start : (registry {id | id < 2}).init ⟨fun id => { fd := id + 4 }, {}⟩ :=
    ⟨fun id => ⟨id + 4, rfl⟩, fun a _ b _ same => Int.ofNat_inj.mp ((Int.add_left_inj 4).mp same), rfl⟩
  obtain ⟨r, reached, index, other, events, length⟩ := Lib.Machine.exec_reaches (registry {id | id < 2})
    (Allowed {id | id < 2}) _
    [(0, .enableReading), (1, .enableWriting), (0, .disableReading), (0, .disableAll),
      (0, .remove), (0, .enableReading)]
    (fun r => (r.chan 0).index = .kAdded ∧ (r.chan 1).index = .kAdded ∧
      (r.chan 0).events = Channel.kReadEvent ∧ r.poller.ctl.length = 6 ∧
        (r.chan 0).fd = 4 ∧ (r.chan 1).fd = 5) start (by decide)
  obtain ⟨length, fd₀, fd₁⟩ := length
  have agrees := (poller_agrees reached).2.1
  refine ⟨r, reached, length, ?_, ?_⟩
  · simpa only [fd₀, events] using (agrees 0 (by decide)).1 index
  · simpa only [fd₁] using (agrees 1 (by decide)).2.2.mpr (.inl other)

end Dserver.Net
