import Mathlib.Algebra.Group.Nat.Defs
import Mathlib.Data.Finset.Card
import Dserver.Lib.RoundRobin
import Dserver.Net.ChannelInterest

/-!
# `EPollPoller::poll`

The channels of one loop, the vector `events_` and the kernel's list of ready descriptors. `epoll_wait` takes at most
`events_.size()` from the front of that list; a descriptor that is still ready goes back to its end, so that later
calls go round all of them.
-/

namespace Dserver.Net

def kInitEventListSize : Nat := 16

/-- What `epoll_wait` writes to `events_`. -/
structure EpollEvent where
  ptr : ChannelId
  events : Events
  deriving DecidableEq

structure Polling where
  registry : Registry
  -- `events_.size()`
  size : Nat := kInitEventListSize
  activeChannels : List ChannelId := []
  -- in the kernel
  ready : List ChannelId := []

namespace Polling

inductive Label where
  | call (id : ChannelId) (op : ChannelOp)
  -- a descriptor gets ready, and one is no longer
  | rises (id : ChannelId)
  | settles (id : ChannelId)
  -- an iteration of `loop()` up to its handlers, with the events of each channel, and one without events
  | poll (revents : ChannelId → Events)
  | nothing

/-- The kernel's interest list has the channel. -/
def watched (r : Registry) (id : ChannelId) : Bool :=
  match r.poller.epoll (r.chan id).fd with
  | some (_, found) => found == id
  | none => false

def mayReport (r : Registry) (event : EpollEvent) : Bool :=
  r.poller.mayReport (r.chan event.ptr).fd event.events

/-- The events that `epoll_wait` returns. -/
def epollWait (s : Polling) (revents : ChannelId → Events) : List EpollEvent :=
  (s.ready.take s.size).map fun id => ⟨id, revents id⟩

def fillActiveChannels : List EpollEvent → (ChannelId → Channel) → List ChannelId → (ChannelId → Channel) × List ChannelId
  | [], chan, activeChannels => (chan, activeChannels)
  | event :: events, chan, activeChannels =>
    fillActiveChannels events
      (Function.update chan event.ptr { chan event.ptr with revents := event.events })
      (activeChannels ++ [event.ptr])

/-- `EPollPoller::poll`, after `activeChannels_.clear()`. -/
def poll (s : Polling) (events : List EpollEvent) : Polling :=
  let s := { s with activeChannels := [] }
  if 0 < events.length then
    let (chan, activeChannels) := fillActiveChannels events s.registry.chan s.activeChannels
    { s with
      registry := { s.registry with chan }
      activeChannels
      size := if events.length = s.size then s.size * 2 else s.size }
  else s

def step (s : Polling) : Label → Option (Except Poller.Fault Polling)
  | .call id op => some ((s.registry.call id op).map fun registry =>
      { s with registry, ready := s.ready.filter (watched registry) })
  | .rises id =>
    if watched s.registry id ∧ id ∉ s.ready then some (.ok { s with ready := s.ready ++ [id] }) else none
  | .settles id => some (.ok { s with ready := s.ready.filter (· != id) })
  | .poll revents =>
    if s.ready ≠ [] ∧ (s.epollWait revents).all (mayReport s.registry) then
      some (.ok { s.poll (s.epollWait revents) with ready := Lib.turn s.size s.ready })
    else none
  | .nothing => some (.ok (s.poll []))

/-- As for the registry: `remove` is called on a channel without events. -/
def Allowed (ids : Finset ChannelId) (s : Polling) : Label → Prop
  | .call id op => Net.Allowed ids s.registry (id, op)
  | .rises id => id ∈ ids
  | .settles _ | .poll _ | .nothing => True

instance (ids : Finset ChannelId) (s : Polling) : (label : Label) → Decidable (Allowed ids s label)
  | .call id op => decidable_of_iff (id ∈ ids ∧ (op = .remove →
      (s.registry.chan id).addedToLoop = true ∧ (s.registry.chan id).isNoneEvent = true)) Iff.rfl
  | .rises id => inferInstanceAs (Decidable (id ∈ ids))
  | .settles _ | .poll _ | .nothing => instDecidableTrue

end Polling

def polling (ids : Finset ChannelId) : Lib.Machine Polling Polling.Label Poller.Fault where
  init s := (registry ids).init s.registry ∧ s = { registry := s.registry }
  step := Polling.step

namespace Polling

variable {ids : Finset ChannelId} {s s' : Polling} {label : Label} {c : ChannelId}

/-! ### `fillActiveChannels` -/

theorem fill_active (events : List EpollEvent) (chan : ChannelId → Channel) (activeChannels : List ChannelId) :
    (fillActiveChannels events chan activeChannels).2 = activeChannels ++ events.map EpollEvent.ptr := by
  induction events generalizing chan activeChannels with
  | nil => exact (List.append_nil _).symm
  | cons event events ih =>
    rw [fillActiveChannels, ih, List.map_cons, List.append_assoc]
    rfl

/-- Only `revents_` is written. -/
theorem fill_frame (events : List EpollEvent) (chan : ChannelId → Channel) (activeChannels : List ChannelId)
    (id : ChannelId) :
    ∃ revents, (fillActiveChannels events chan activeChannels).1 id = { chan id with revents } := by
  induction events generalizing chan activeChannels with
  | nil => exact ⟨_, rfl⟩
  | cons event events ih =>
    rw [fillActiveChannels]
    obtain ⟨revents, eq⟩ := ih (Function.update chan event.ptr { chan event.ptr with revents := event.events })
      (activeChannels ++ [event.ptr])
    refine ⟨revents, eq.trans ?_⟩
    by_cases same : id = event.ptr
    · subst same
      rw [Function.update_self]
    · rw [Function.update_of_ne same]

theorem fill_other {events : List EpollEvent} {chan : ChannelId → Channel} {activeChannels : List ChannelId}
    {id : ChannelId} (absent : id ∉ events.map EpollEvent.ptr) :
    (fillActiveChannels events chan activeChannels).1 id = chan id := by
  induction events generalizing chan activeChannels with
  | nil => rfl
  | cons event events ih =>
    rw [List.map_cons, List.mem_cons, not_or] at absent
    rw [fillActiveChannels, ih absent.2, Function.update_of_ne absent.1]

theorem fill_revents {events : List EpollEvent} {chan : ChannelId → Channel} {activeChannels : List ChannelId}
    (event : EpollEvent) (nodup : (events.map EpollEvent.ptr).Nodup) (member : event ∈ events) :
    ((fillActiveChannels events chan activeChannels).1 event.ptr).revents = event.events := by
  induction events generalizing chan activeChannels with
  | nil => cases member
  | cons first events ih =>
    rw [List.map_cons, List.nodup_cons] at nodup
    rw [fillActiveChannels]
    rcases List.mem_cons.mp member with rfl | later
    · rw [fill_other nodup.1, Function.update_self]
    · exact ih nodup.2 later

/-! ### Runs -/

structure Inv (ids : Finset ChannelId) (s : Polling) : Prop where
  registry : s.registry.Inv ids
  nodup : s.ready.Nodup
  ready : ∀ id ∈ s.ready, id ∈ ids ∧ watched s.registry id = true
  size : ∃ k, s.size = kInitEventListSize * 2 ^ k
  bound : s.size ≤ max kInitEventListSize (2 * ids.card)

theorem watched_congr {r r' : Registry} (poller : r'.poller = r.poller) {id : ChannelId}
    (fd : (r'.chan id).fd = (r.chan id).fd) : watched r' id = watched r id := by
  rw [watched, watched, poller, fd]

/-- What `poll` writes to the channels does not concern the poller. -/
theorem Registry.inv_of_revents {r : Registry} {chan : ChannelId → Channel} (h : r.Inv ids)
    (frame : ∀ id, ∃ revents, chan id = { r.chan id with revents }) : Registry.Inv ids { r with chan } := by
  have fd : ∀ id, (chan id).fd = (r.chan id).fd := by
    intro id
    obtain ⟨revents, eq⟩ := frame id
    rw [eq]
  refine ⟨?_, ?_, h.accepted⟩
  · simpa only [fd] using h.distinct
  · intro id member
    obtain ⟨revents, eq⟩ := frame id
    change Consistent r.poller id (chan id)
    rw [eq]
    exact ⟨(h.consistent id member).epoll, (h.consistent id member).channels, (h.consistent id member).added⟩

theorem watched_channels {r : Registry} {id : ChannelId} (h : r.Inv ids) (known : id ∈ ids)
    (on : watched r id = true) : r.poller.channels (r.chan id).fd = some id := by
  have consistent := h.consistent id known
  rw [consistent.channels, if_neg]
  intro new
  rw [watched, consistent.epoll, if_neg (by simp [new])] at on
  cases on

theorem mayReport_ne {r : Registry} {event : EpollEvent} (h : mayReport r event = true) : event.events ≠ 0 := by
  unfold mayReport Poller.mayReport at h
  split at h
  · simp only [Events.mayReport, Bool.and_eq_true, bne_iff_ne] at h
    exact h.1
  · cases h

theorem epollWait_ptr (s : Polling) (revents : ChannelId → Events) :
    (s.epollWait revents).map EpollEvent.ptr = s.ready.take s.size := by
  rw [epollWait, List.map_map]
  exact List.map_id _

theorem epollWait_length (s : Polling) (revents : ChannelId → Events) :
    (s.epollWait revents).length = min s.size s.ready.length := by
  rw [epollWait, List.length_map, List.length_take]

theorem Inv.positive (h : s.Inv ids) : 0 < s.size := by
  obtain ⟨k, size⟩ := h.size
  rw [size]
  exact Nat.mul_pos (by decide) (Nat.pow_pos (by decide))

/-- A successful `poll`. -/
theorem poll_eq (h : s.Inv ids) {revents : ChannelId → Events} (step : s.step (.poll revents) = some (.ok s')) :
    (∀ event ∈ s.epollWait revents, mayReport s.registry event = true) ∧
    s' = { registry := { s.registry with
            chan := (fillActiveChannels (s.epollWait revents) s.registry.chan []).1 }
           size := if s.size ≤ s.ready.length then s.size * 2 else s.size
           activeChannels := s.ready.take s.size
           ready := Lib.turn s.size s.ready } := by
  obtain ⟨⟨some_, may⟩, step⟩ := Option.ite_none_right_eq_some.mp step
  refine ⟨List.all_eq_true.mp may, ?_⟩
  obtain rfl := Except.ok.inj (Option.some.inj step)
  have length := epollWait_length s revents
  have positive : 0 < (s.epollWait revents).length := by
    have size := h.positive
    have ready := List.length_pos_iff.mpr some_
    omega
  have full : (s.epollWait revents).length = s.size ↔ s.size ≤ s.ready.length := by omega
  simp only [poll, if_pos positive, fill_active, List.nil_append, epollWait_ptr, full]

theorem step_inv (h : s.Inv ids) (allowed : Allowed ids s label) (step : s.step label = some (.ok s')) : s'.Inv ids := by
  cases label with
  | call id op =>
    obtain ⟨registry, ran, inv⟩ := call_spec h.registry allowed
    rw [Polling.step, ran] at step
    obtain rfl := Except.ok.inj (Option.some.inj step)
    refine ⟨inv, h.nodup.filter _, ?_, h.size, h.bound⟩
    intro other member
    rw [List.mem_filter] at member
    exact ⟨(h.ready other member.1).1, member.2⟩
  | rises id =>
    obtain ⟨⟨on, fresh⟩, step⟩ := Option.ite_none_right_eq_some.mp step
    obtain rfl := Except.ok.inj (Option.some.inj step)
    refine ⟨h.registry, ?_, ?_, h.size, h.bound⟩
    · rw [← List.concat_eq_append]
      exact h.nodup.concat fresh
    · intro other member
      rcases List.mem_append.mp member with old | new
      · exact h.ready other old
      · rw [List.mem_singleton.mp new]
        exact ⟨allowed, on⟩
  | settles id =>
    obtain rfl := Except.ok.inj (Option.some.inj step)
    refine ⟨h.registry, h.nodup.filter _, ?_, h.size, h.bound⟩
    exact fun other member => h.ready other (List.mem_of_mem_filter member)
  | poll revents =>
    obtain ⟨_, rfl⟩ := poll_eq h step
    have frame := fill_frame (s.epollWait revents) s.registry.chan []
    refine ⟨Registry.inv_of_revents h.registry frame, Lib.turn_nodup h.nodup, ?_, ?_, ?_⟩
    · intro id member
      obtain ⟨known, on⟩ := h.ready id (Lib.mem_turn.mp member)
      refine ⟨known, ?_⟩
      obtain ⟨_, eq⟩ := frame id
      have fd : ((fillActiveChannels (s.epollWait revents) s.registry.chan []).1 id).fd = (s.registry.chan id).fd := by
        rw [eq]
      refine Eq.trans ?_ on
      apply watched_congr
      · rfl
      · exact fd
    · obtain ⟨k, size⟩ := h.size
      dsimp only
      split
      · exact ⟨k + 1, by rw [size, Nat.pow_succ, Nat.mul_assoc]⟩
      · exact ⟨k, size⟩
    · dsimp only
      split
      · rename_i full
        -- the ready channels are different ones of `ids`
        have few : s.ready.length ≤ ids.card := by
          rw [← List.toFinset_card_of_nodup h.nodup]
          apply Finset.card_le_card
          intro id member
          exact (h.ready id (List.mem_toFinset.mp member)).1
        omega
      · exact h.bound
  | nothing =>
    obtain rfl := Except.ok.inj (Option.some.inj step)
    exact ⟨h.registry, h.nodup, h.ready, h.size, h.bound⟩

theorem reachable_inv (h : (polling ids).Reachable (Allowed ids) s) : s.Inv ids := by
  refine h.invariant (P := Inv ids) ?_ fun a label b _ inv allowed step => step_inv inv allowed step
  rintro a ⟨registry, eq⟩
  rw [eq]
  exact ⟨registry_initial registry, List.nodup_nil, by simp, ⟨0, rfl⟩, le_max_left _ _⟩

/-! ### Every ready channel has its turn -/

/-- The channel is still ready after the step. -/
def StaysReady (c : ChannelId) (ids : Finset ChannelId) (s : Polling) (label : Label) : Prop :=
  Allowed ids s label ∧ ∀ s', s.step label = some (.ok s') → c ∈ s'.ready

/-- The channels that a `poll` reports. -/
def reports (s : Polling) : Label → List (List ChannelId)
  | .poll _ => [s.ready.take s.size]
  | _ => []

theorem step_idxOf (h : s.Inv ids) (member : c ∈ s.ready) (stays : StaysReady c ids s label)
    (step : s.step label = some (.ok s')) :
    (s.reports label = [] ∧ s'.size = s.size ∧ s'.ready.idxOf c ≤ s.ready.idxOf c) ∨
    (∃ batch, s.reports label = [batch] ∧
      (c ∈ batch ∨ s'.size = s.size * 2 ∧ s'.ready.idxOf c + s.size = s.ready.idxOf c)) := by
  have after := stays.2 s' step
  cases label with
  | call id op =>
    obtain ⟨registry, ran, _⟩ := call_spec h.registry stays.1
    rw [Polling.step, ran] at step
    obtain rfl := Except.ok.inj (Option.some.inj step)
    exact .inl ⟨rfl, rfl, Lib.idxOf_filter_le (List.mem_filter.mp after).2⟩
  | rises id =>
    obtain ⟨_, step⟩ := Option.ite_none_right_eq_some.mp step
    obtain rfl := Except.ok.inj (Option.some.inj step)
    exact .inl ⟨rfl, rfl, Nat.le_of_eq (List.idxOf_append_of_mem member)⟩
  | settles id =>
    obtain rfl := Except.ok.inj (Option.some.inj step)
    exact .inl ⟨rfl, rfl, Lib.idxOf_filter_le (List.mem_filter.mp after).2⟩
  | poll revents =>
    obtain ⟨_, rfl⟩ := poll_eq h step
    refine .inr ⟨_, rfl, ?_⟩
    by_cases taken : c ∈ s.ready.take s.size
    · exact .inl taken
    · have longer := Lib.length_of_late member taken
      exact .inr ⟨if_pos (by omega), Lib.idxOf_turn member taken⟩
  | nothing =>
    obtain rfl := Except.ok.inj (Option.some.inj step)
    exact .inl ⟨rfl, rfl, Nat.le_refl _⟩

/-- Until it is reported, a ready channel comes forward by the size of `events_`, which doubles meanwhile. -/
theorem trace_idxOf {t : Polling} {seen : List (List ChannelId)} (h : (polling ids).Reachable (Allowed ids) s)
    (member : c ∈ s.ready) (run : (polling ids).Trace (StaysReady c ids) reports s seen t) :
    (polling ids).Reachable (Allowed ids) t ∧ c ∈ t.ready ∧ ((∃ batch ∈ seen, c ∈ batch) ∨
      t.size = s.size * 2 ^ seen.length ∧ t.ready.idxOf c + s.size * (2 ^ seen.length - 1) ≤ s.ready.idxOf c) := by
  induction run with
  | refl => exact ⟨h, member, .inr ⟨(Nat.mul_one _).symm, by simp⟩⟩
  | @tail seen t u label before allowed step ih =>
    obtain ⟨reached, here, progress⟩ := ih
    refine ⟨reached.next allowed.1 step, allowed.2 u step, ?_⟩
    rcases progress with ⟨batch, listed, served⟩ | ⟨size, forward⟩
    · exact .inl ⟨batch, List.mem_append_left _ listed, served⟩
    rcases step_idxOf (reachable_inv reached) here allowed step with ⟨none, same, less⟩ | ⟨batch, one, next⟩
    · rw [none, List.append_nil, same]
      exact .inr ⟨size, by omega⟩
    · rw [one]
      rcases next with served | ⟨doubled, moved⟩
      · exact .inl ⟨batch, List.mem_append_right _ (List.mem_singleton_self _), served⟩
      · right
        rw [List.length_append, List.length_singleton, Nat.pow_succ]
        refine ⟨by rw [doubled, size, Nat.mul_assoc], ?_⟩
        have power : 1 ≤ 2 ^ seen.length := Nat.one_le_two_pow
        have sum : s.size * (2 ^ seen.length * 2 - 1) = s.size * (2 ^ seen.length - 1) + s.size * 2 ^ seen.length := by
          rw [← Nat.mul_add]
          congr 1
          omega
        omega

/-- In every run of calls on the channels and of `poll`: the size of `events_` is 16 times a power of two and bounded
by the number of channels; `poll` makes active different channels, each of them in `channels_` and with the events
that the kernel reports; and a channel that stays ready is reported before the number of its predecessors is used
up by a vector that doubles with each `poll` it is left out of. -/
theorem polled_in_turn (h : (polling ids).Reachable (Allowed ids) s) :
    (∃ k, s.size = kInitEventListSize * 2 ^ k) ∧ s.size ≤ max kInitEventListSize (2 * ids.card) ∧
    (∀ revents s', s.step (.poll revents) = some (.ok s') →
      s'.activeChannels = s.ready.take s.size ∧ s'.activeChannels.Nodup ∧
      (∀ id ∈ s'.activeChannels, s'.registry.poller.channels (s'.registry.chan id).fd = some id ∧
        (s'.registry.chan id).revents = revents id ∧ revents id ≠ 0) ∧
      ∀ id, id ∉ s'.activeChannels → s'.registry.chan id = s.registry.chan id) ∧
    ∀ c ∈ s.ready, ∀ seen t, (polling ids).Trace (StaysReady c ids) reports s seen t →
      s.ready.idxOf c < s.size * (2 ^ seen.length - 1) → ∃ batch ∈ seen, c ∈ batch := by
  have inv := reachable_inv h
  refine ⟨inv.size, inv.bound, ?_, ?_⟩
  · intro revents s' step
    have inv' := step_inv inv (show Allowed ids s (.poll revents) from trivial) step
    obtain ⟨may, rfl⟩ := poll_eq inv step
    have nodup : (s.ready.take s.size).Nodup := inv.nodup.sublist (List.take_sublist _ _)
    refine ⟨rfl, nodup, ?_, ?_⟩
    · intro id active
      have event : (⟨id, revents id⟩ : EpollEvent) ∈ s.epollWait revents := List.mem_map.mpr ⟨id, active, rfl⟩
      refine ⟨?_, ?_, ?_⟩
      · obtain ⟨known, on⟩ := inv'.ready id (Lib.mem_turn.mpr (List.mem_of_mem_take active))
        exact watched_channels inv'.registry known on
      · exact fill_revents ⟨id, revents id⟩ (by rw [epollWait_ptr]; exact nodup) event
      · exact mayReport_ne (may _ event)
    · intro id idle
      exact fill_other (by rw [epollWait_ptr]; exact idle)
  · intro c member seen t run near
    obtain ⟨_, _, served | ⟨_, forward⟩⟩ := trace_idxOf h member run
    · exact served
    · omega

theorem poll_stays {revents : ChannelId → Events} (member : c ∈ s.ready) : StaysReady c ids s (.poll revents) := by
  refine ⟨trivial, fun s' step => ?_⟩
  obtain ⟨_, step⟩ := Option.ite_none_right_eq_some.mp step
  obtain rfl := Except.ok.inj (Option.some.inj step)
  exact Lib.mem_turn.mpr member

/-- Seventeen channels are ready and `events_` has room for sixteen: the last one has its turn in the second `poll`. -/
theorem polled_in_turn_seventeen : ∃ (s t : Polling) (seen : List (List ChannelId)),
    (s.ready = List.range 17 ∧ s.size = 16 ∧ t.size = 32) ∧ seen.length = 2 ∧ ∃ batch ∈ seen, 16 ∈ batch := by
  let machine := polling (Finset.range 17)
  let poll : Label := .poll fun _ => POLLIN
  have start : machine.init { registry := ⟨fun id => { fd := id + 4 }, {}⟩ } :=
    ⟨⟨fun id => ⟨id + 4, rfl⟩, fun a _ b _ same => Int.ofNat_inj.mp ((Int.add_left_inj 4).mp same), rfl⟩, rfl⟩
  obtain ⟨s, reached, ready, size, both⟩ := Lib.Machine.exec_reaches machine (Allowed (Finset.range 17)) _
    ((List.range 17).map (.call · .enableReading) ++ (List.range 17).map .rises)
    (fun s => s.ready = List.range 17 ∧ s.size = 16 ∧
      ((machine.exec Lib.Machine.anyStep s [poll]).bind fun s₁ =>
        machine.exec Lib.Machine.anyStep s₁ [poll]).any (fun t => t.size = 32) = true)
    start (by decide +kernel)
  obtain ⟨t, two, last⟩ := (Option.any_eq_true _ _).mp both
  obtain ⟨s₁, one, two⟩ := Option.bind_eq_some_iff.mp two
  have single : ∀ a b, machine.exec Lib.Machine.anyStep a [poll] = some b → machine.step a poll = some (.ok b) := by
    intro a b ran
    rw [Lib.Machine.exec, if_pos (show Lib.Machine.anyStep a poll from trivial)] at ran
    split at ran
    · rename_i next step
      rw [step, Option.some.inj ran]
    · cases ran
  have member : 16 ∈ s.ready := by simp [ready]
  have first : StaysReady 16 (Finset.range 17) s poll := poll_stays member
  have second : StaysReady 16 (Finset.range 17) s₁ poll := poll_stays (first.2 s₁ (single s s₁ one))
  have run := ((Lib.Machine.Trace.refl.tail first (single s s₁ one)).tail second (single s₁ t two) :
    machine.Trace (StaysReady 16 (Finset.range 17)) reports s _ t)
  refine ⟨s, t, _, ⟨ready, size, by simpa using last⟩, rfl, (polled_in_turn reached).2.2.2 16 member _ t run ?_⟩
  rw [ready, size]
  change (List.range 17).idxOf 16 < 16 * (2 ^ 2 - 1)
  decide

end Polling

end Dserver.Net
