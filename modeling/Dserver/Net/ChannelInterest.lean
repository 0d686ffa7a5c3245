import Dserver.Net.Poller

/-!
# Channels without interest

`updateChannel` looks at the index before it looks at the mask. A channel that was added and loses its last
event leaves the kernel's set; any other call adds the descriptor, also with an empty mask, for which the kernel
still reports POLLHUP and POLLERR.
-/

namespace Dserver.Net

/-- What `epoll_wait` may report for a descriptor. -/
def Poller.mayReport (p : Poller) (fd : Fd) (events : Events) : Bool :=
  match p.epoll fd with
  | some (mask, _) => Events.mayReport mask events
  | none => false

/-- What a call makes of `events_`. -/
def ChannelOp.change : ChannelOp → Events → Events
  | .enableReading => (· ||| Channel.kReadEvent)
  | .disableReading => (· &&& ~~~Channel.kReadEvent)
  | .enableWriting => (· ||| Channel.kWriteEvent)
  | .disableWriting => (· &&& ~~~Channel.kWriteEvent)
  | .disableAll => fun _ => Channel.kNoneEvent
  | .remove => id

/-- A channel without interest is not in the kernel's set, and nothing is reported for it. -/
def Registry.Unwatched (r : Registry) (id : ChannelId) : Prop :=
  (r.chan id).isNoneEvent = true →
    r.poller.epoll (r.chan id).fd = none ∧ ∀ events, r.poller.mayReport (r.chan id).fd events = false

/-- A call that leaves the channel without interest finds it in the kernel's set. -/
def OnAdded (r : Registry) (label : ChannelId × ChannelOp) : Prop :=
  label.2 ≠ .remove → label.2.change (r.chan label.1).events = Channel.kNoneEvent → (r.chan label.1).index = .kAdded

instance (r : Registry) (label : ChannelId × ChannelOp) : Decidable (OnAdded r label) :=
  inferInstanceAs (Decidable (_ → _ → _))

/-- `Allowed` calls that each meet `OnAdded`. -/
def AllowedOnAdded (ids : Set ChannelId) (r : Registry) (label : ChannelId × ChannelOp) : Prop :=
  Allowed ids r label ∧ OnAdded r label

instance (ids : Set ChannelId) [DecidablePred (· ∈ ids)] (r : Registry) (label : ChannelId × ChannelOp) :
    Decidable (AllowedOnAdded ids r label) := inferInstanceAs (Decidable (_ ∧ _))

variable {ids : Set ChannelId} {r r' : Registry} {id : ChannelId} {op : ChannelOp} {label : ChannelId × ChannelOp}

theorem run_toggle (h : op ≠ .remove) : op.run = Channel.toggle op.change := by
  cases op with
  | remove => exact absurd rfl h
  | enableReading | disableReading | enableWriting | disableWriting | disableAll => rfl

theorem Consistent.unwatched_iff {p : Poller} {ch : Channel} (h : Consistent p id ch) :
    p.epoll ch.fd = none ↔ ch.index ≠ .kAdded := by
  rw [h.epoll]
  split
  · rename_i added
    simp [added]
  · rename_i absent
    simp [absent]

theorem unwatched_iff_index (h : Consistent r.poller id (r.chan id)) :
    r.Unwatched id ↔ ((r.chan id).isNoneEvent = true → (r.chan id).index ≠ .kAdded) := by
  constructor
  · intro unwatched empty
    exact h.unwatched_iff.mp (unwatched empty).1
  · intro index empty
    have absent := h.unwatched_iff.mpr (index empty)
    exact ⟨absent, fun events => by rw [Poller.mayReport, absent]⟩

theorem call_toggled (h : r.Inv ids) (member : id ∈ ids) (other : op ≠ .remove) :
    ∃ p', r.call id op = .ok ⟨Function.update r.chan id ((r.chan id).toggled op.change), p'⟩ ∧
      Consistent p' id ((r.chan id).toggled op.change) ∧ r.poller.Touches p' (r.chan id).fd := by
  obtain ⟨p', ran, consistent, touched⟩ := toggle_spec (h.consistent id member) op.change
  refine ⟨p', ?_, consistent, touched⟩
  rw [Registry.call, run_toggle other, ran]
  rfl

theorem allowed_of_toggle (member : id ∈ ids) (other : op ≠ .remove) : Allowed ids r (id, op) :=
  ⟨member, fun remove => absurd remove other⟩

theorem toggled_unwatched_iff (ch : Channel) (change : Events → Events) :
    ((ch.toggled change).isNoneEvent = true → (ch.toggled change).index ≠ .kAdded) ↔
      (change ch.events = Channel.kNoneEvent → ch.index = .kAdded) := by
  unfold Channel.toggled Channel.isNoneEvent
  by_cases empty : change ch.events = Channel.kNoneEvent
  · by_cases added : ch.index = .kAdded <;> simp [empty, added]
  · simp [empty]

theorem removed_unwatched (inv : r'.Inv ids) (member : id ∈ ids) (removed : r.call id .remove = .ok r') :
    r'.Unwatched id := by
  obtain ⟨⟨ch', p'⟩, ran, result⟩ := Lib.bind_ok removed
  obtain rfl := Except.ok.inj result
  obtain ⟨_, _, rfl⟩ := Channel.remove_channel ran
  rw [unwatched_iff_index (inv.consistent id member)]
  intro _
  simp

/-- What a call leaves is right exactly when it was made on a registered channel. -/
theorem call_unwatched_iff (inv : r.Inv ids) (allowed : Allowed ids r label)
    (ran : r.call label.1 label.2 = .ok r') : r'.Unwatched label.1 ↔ OnAdded r label := by
  have member := allowed.1
  obtain ⟨r'', ran', inv'⟩ := call_spec inv allowed
  obtain rfl := Except.ok.inj (ran.symm.trans ran')
  by_cases removes : label.2 = .remove
  · rw [removes] at ran
    exact iff_of_true (removed_unwatched inv' member ran) (fun other => absurd removes other)
  · rw [unwatched_iff_index (inv'.consistent _ member)]
    obtain ⟨p', result, _, _⟩ := call_toggled inv member removes
    obtain rfl := Except.ok.inj (ran.symm.trans result)
    simp only [Function.update_self]
    rw [toggled_unwatched_iff]
    exact ⟨fun h _ => h, fun h => h removes⟩

theorem call_other (ran : r.call label.1 label.2 = .ok r') (different : id ≠ label.1) : r'.chan id = r.chan id := by
  obtain ⟨_, _, result⟩ := Lib.bind_ok ran
  obtain rfl := Except.ok.inj result
  exact Function.update_of_ne different _ _

theorem AllowedOnAdded.reachable (h : (registry ids).Reachable (AllowedOnAdded ids) r) :
    (registry ids).Reachable (Allowed ids) r :=
  h.mono fun _ _ allowed => allowed.1

theorem reachable_unwatched_channels (h : (registry ids).Reachable (AllowedOnAdded ids) r) :
    ∀ id ∈ ids, r.Unwatched id := by
  refine Lib.Machine.Reachable.invariant (P := fun r => ∀ id ∈ ids, r.Unwatched id) ?_ ?_ h
  · intro start initial id member
    obtain ⟨fd, new⟩ := initial.1 id
    rw [unwatched_iff_index ((registry_initial initial).consistent id member), new]
    exact fun _ same => Index.noConfusion same
  · intro a label b before unwatched allowed step id member
    have inv := registry_inv (AllowedOnAdded.reachable before)
    have ran := Option.some.inj step
    by_cases same : id = label.1
    · rw [same]
      exact (call_unwatched_iff inv allowed.1 ran).mpr allowed.2
    · obtain ⟨b', ran', inv'⟩ := call_spec inv allowed.1
      obtain rfl := Except.ok.inj (ran.symm.trans ran')
      rw [unwatched_iff_index (inv'.consistent id member), call_other ran same]
      exact (unwatched_iff_index (inv.consistent id member)).mp (unwatched id member)

/-- The second of two equal calls changes the kernel's set exactly when they leave no events: the first takes the
descriptor out and the second puts it back, or the other way round. -/
theorem call_twice (inv : r.Inv ids) (member : id ∈ ids) (other : op ≠ .remove)
    (absorbed : ∀ events, op.change (op.change events) = op.change events) :
    ∃ r₁ r₂, r.call id op = .ok r₁ ∧ r₁.call id op = .ok r₂ ∧
      (r₂.poller.epoll = r₁.poller.epoll ↔ op.change (r.chan id).events ≠ Channel.kNoneEvent) := by
  obtain ⟨p₁, ran₁, consistent₁, _⟩ := call_toggled inv member other
  obtain ⟨_, ran₁', inv₁⟩ := call_spec inv (allowed_of_toggle member other)
  obtain rfl := Except.ok.inj (ran₁.symm.trans ran₁')
  obtain ⟨p₂, ran₂, consistent₂, touched⟩ := call_toggled inv₁ member other
  refine ⟨_, _, ran₁, ran₂, ?_⟩
  simp only [Function.update_self] at consistent₂ touched ⊢
  have entry₁ := consistent₁.epoll
  have entry₂ := consistent₂.epoll
  constructor
  · intro same empty
    have entry := congrFun same (r.chan id).fd
    simp only [Channel.toggled, empty, and_true] at entry entry₁ entry₂
    rw [entry₁, entry₂] at entry
    by_cases added : (r.chan id).index = .kAdded <;> simp [added] at entry
  · intro interested
    funext fd
    by_cases same : fd = (r.chan id).fd
    · subst same
      simp only [Channel.toggled, absorbed, interested, and_false, if_false, if_true] at entry₁ entry₂
      exact entry₂.trans entry₁.symm
    · exact touched.epoll fd same

theorem disableReading_absorbed (events : Events) :
    ChannelOp.disableReading.change (ChannelOp.disableReading.change events) =
      ChannelOp.disableReading.change events := by
  show (events &&& ~~~Channel.kReadEvent) &&& ~~~Channel.kReadEvent = events &&& ~~~Channel.kReadEvent
  rw [BitVec.and_assoc, BitVec.and_self]

/-- A channel without interest is not watched in every run whose calls meet `OnAdded`, and each call that does not
meet it leaves one that is. `disableReading` twice is as good as once exactly when the write event stays, and
`disableAll` never is. -/
theorem uninterested_unwatched (h : (registry ids).Reachable (Allowed ids) r) :
    ((registry ids).Reachable (AllowedOnAdded ids) r → ∀ id ∈ ids, r.Unwatched id) ∧
    (∀ label r', Allowed ids r label → (registry ids).step r label = some (.ok r') →
      (r'.Unwatched label.1 ↔ OnAdded r label)) ∧
    ∀ id ∈ ids, ∀ op, op = .disableReading ∨ op = .disableAll →
      ∃ r₁ r₂, (registry ids).step r (id, op) = some (.ok r₁) ∧ (registry ids).step r₁ (id, op) = some (.ok r₂) ∧
        (r₂.poller.epoll = r₁.poller.epoll ↔ op.change (r.chan id).events ≠ Channel.kNoneEvent) := by
  have inv := registry_inv h
  refine ⟨reachable_unwatched_channels, fun label r' allowed step => ?_, fun id member op disables => ?_⟩
  · exact call_unwatched_iff inv allowed (Option.some.inj step)
  · have twice : ∃ r₁ r₂, r.call id op = .ok r₁ ∧ r₁.call id op = .ok r₂ ∧
        (r₂.poller.epoll = r₁.poller.epoll ↔ op.change (r.chan id).events ≠ Channel.kNoneEvent) := by
      rcases disables with rfl | rfl
      · exact call_twice inv member (by decide) disableReading_absorbed
      · exact call_twice inv member (by decide) (fun _ => rfl)
    obtain ⟨r₁, r₂, first, second, idempotent⟩ := twice
    exact ⟨r₁, r₂, congrArg some first, congrArg some second, idempotent⟩

/-- One channel, on descriptor 4. -/
def oneChannel : Registry := ⟨fun _ => { fd := 4 }, {}⟩

theorem oneChannel_initial : (registry {id | id = 0}).init oneChannel := by
  refine ⟨fun _ => ⟨4, rfl⟩, ?_, rfl⟩
  rintro a rfl b rfl _
  rfl

/-- Reading and writing are enabled and disabled again. -/
theorem uninterested_unwatched_disabled :
    ∃ r, (registry {id | id = 0}).Reachable (AllowedOnAdded {id | id = 0}) r ∧ (r.chan 0).isNoneEvent = true ∧
      r.poller.ctl.length = 4 ∧ r.Unwatched 0 := by
  obtain ⟨r, reached, empty, calls⟩ := Lib.Machine.exec_reaches (registry {id | id = 0})
    (AllowedOnAdded {id | id = 0}) oneChannel
    [(0, .enableReading), (0, .enableWriting), (0, .disableReading), (0, .disableWriting)]
    (fun r => (r.chan 0).isNoneEvent = true ∧ r.poller.ctl.length = 4) oneChannel_initial (by decide)
  have any := AllowedOnAdded.reachable reached
  exact ⟨r, reached, empty, calls, (uninterested_unwatched any).1 reached 0 rfl⟩

/-- The second `disableReading` puts the descriptor back, and a hang-up of the peer is reported. -/
theorem disabled_twice_watched :
    ∃ r, (registry {id | id = 0}).Reachable (Allowed {id | id = 0}) r ∧ (r.chan 0).isNoneEvent = true ∧
      r.poller.mayReport (r.chan 0).fd POLLHUP = true ∧ ¬ r.Unwatched 0 := by
  obtain ⟨r, reached, empty, reported⟩ := Lib.Machine.exec_reaches (registry {id | id = 0}) (Allowed {id | id = 0})
    oneChannel [(0, .enableReading), (0, .disableReading), (0, .disableReading)]
    (fun r => (r.chan 0).isNoneEvent = true ∧ r.poller.mayReport (r.chan 0).fd POLLHUP = true)
    oneChannel_initial (by decide)
  refine ⟨r, reached, empty, reported, fun unwatched => ?_⟩
  rw [(unwatched empty).2 POLLHUP] at reported
  exact Bool.noConfusion reported

end Dserver.Net
