import Dserver.Net.TimerEffect

/-!
# The timerfd is armed

Between two steps of the loop a queue that has timers has its timerfd armed in time. While callbacks run
this may fail, but then no timer expires before the time of the batch, and `reset` arms the timerfd.
-/

namespace Dserver.Net

namespace TimerQueue

variable {s s' : TimerQueue} {timer : Addr} {t : Timer} {e : Entry}

/-! ### `timerfd_settime` -/

theorem atLeast_bounds (when now : Int) :
    let microseconds := if when - now < 100 then 100 else when - now
    100 ≤ microseconds ∧ (now + microseconds ≤ when ∨ now + microseconds ≤ now + 100) := by
  dsimp only
  split
  · exact ⟨by omega, .inr (by omega)⟩
  · exact ⟨by omega, .inl (by omega)⟩

theorem howMuchTimeFromNow_valid (when now : Timestamp) :
    (howMuchTimeFromNow when now).Valid ∧ howMuchTimeFromNow when now ≠ .zero ∧
      (howMuchTimeFromNow when now).microseconds = if when - now < 100 then 100 else when - now := by
  obtain ⟨least, _⟩ := atLeast_bounds when now
  unfold howMuchTimeFromNow Timespec.Valid Timespec.zero Timespec.microseconds Timestamp.kMicroSecondsPerSecond
  generalize (if when - now < 100 then 100 else when - now) = microseconds at least ⊢
  dsimp only at least ⊢
  rw [Int.tdiv_eq_ediv_of_nonneg (by omega), Int.tmod_eq_emod_of_nonneg (by omega)]
  refine ⟨⟨by omega, by omega, by omega⟩, fun zero => ?_, by omega⟩
  obtain ⟨seconds, nanoseconds⟩ := Timespec.mk.inj zero
  omega

theorem resetTimerfd_armed (s : TimerQueue) (expiration : Timestamp) :
    ∃ deadline, (s.resetTimerfd expiration).timerfd = { deadline := some deadline, armedAt := s.clock } ∧
      (deadline ≤ expiration ∨ deadline ≤ s.clock + 100) := by
  obtain ⟨valid, nonzero, microseconds⟩ := howMuchTimeFromNow_valid expiration s.clock
  refine ⟨s.clock + (howMuchTimeFromNow expiration s.clock).microseconds, ?_, ?_⟩
  · show s.timerfd.settime s.clock (howMuchTimeFromNow expiration s.clock) = _
    rw [Timerfd.settime, if_neg (not_not_intro valid), if_neg nonzero]
  · rw [microseconds]
    exact (atLeast_bounds expiration s.clock).2

/-! ### Armed in time -/

/-- Armed, or expired and not read, for the first timer or for the least time the timerfd is armed for. -/
def Armed (s : TimerQueue) : Prop :=
  ∃ deadline, s.timerfd.deadline = some deadline ∧
    ((∀ e ∈ s.timers, deadline ≤ e.when) ∨ deadline ≤ s.timerfd.armedAt + 100)

theorem Armed.subset (h : s.Armed) (timerfd : s'.timerfd = s.timerfd)
    (within : ∀ e ∈ s'.timers, ∃ e' ∈ s.timers, e'.when ≤ e.when) : s'.Armed := by
  obtain ⟨deadline, armed, early⟩ := h
  refine ⟨deadline, by rw [timerfd]; exact armed, ?_⟩
  rw [timerfd]
  refine early.imp_left fun before e member => ?_
  obtain ⟨e', member', le⟩ := within e member
  exact Int.le_trans (before e' member') le

theorem resetTimerfd_first (first : ∀ e' ∈ s.timers, e.when ≤ e'.when) : (s.resetTimerfd e.when).Armed := by
  obtain ⟨deadline, armed, early⟩ := resetTimerfd_armed s e.when
  refine ⟨deadline, by rw [armed], ?_⟩
  rw [armed]
  exact early.imp_left fun before e' member => Int.le_trans before (first e' member)

/-- An `it_value` that arms the timerfd. -/
def Arms (it_value : Timespec) : Prop :=
  it_value ≠ .zero ∧ 0 ≤ it_value.tv_nsec ∧ it_value.tv_nsec < 1000000000

/-- What holds while callbacks run: the timerfd is armed in time, or no timer expires before the batch. -/
structure Arming (s : TimerQueue) : Prop where
  clock : 0 < s.clock
  idle : s.batch = none → s.timers.Nonempty → s.Armed
  calling : ∀ b, s.batch = some b → 0 < b.now ∧ (s.Armed ∨ ∀ e ∈ s.timers, b.now ≤ e.when)
  settimes : ∀ it_value ∈ s.settimes, Arms it_value

theorem Arming.keep (h : s.Arming) (clock : 0 < s'.clock) (batch : s'.batch = s.batch)
    (timerfd : s'.timerfd = s.timerfd) (settimes : s'.settimes = s.settimes) (subset : s'.timers ⊆ s.timers) :
    s'.Arming := by
  have armed : s.Armed → s'.Armed := fun before =>
    before.subset timerfd fun e member => ⟨e, subset member, Int.le_refl _⟩
  refine ⟨clock, fun idle some => ?_, fun b calling => ?_, by rw [settimes]; exact h.settimes⟩
  · rw [batch] at idle
    exact armed (h.idle idle (some.mono subset))
  · rw [batch] at calling
    obtain ⟨positive, before⟩ := h.calling b calling
    exact ⟨positive, before.imp armed fun later e member => later e (subset member)⟩

theorem resetTimerfd_settimes (h : ∀ it_value ∈ s.settimes, Arms it_value) (expiration : Timestamp) :
    ∀ it_value ∈ (s.resetTimerfd expiration).settimes, Arms it_value := by
  intro it_value member
  rcases List.mem_append.mp member with old | new
  · exact h it_value old
  · obtain ⟨valid, nonzero, _⟩ := howMuchTimeFromNow_valid expiration s.clock
    rw [List.mem_singleton.mp new]
    exact ⟨nonzero, valid.2⟩

theorem earliestChanged_first (changed : s.earliestChanged t.expiration = true) :
    ∀ e ∈ Insert.insert (Entry.of t.expiration timer) s.timers, t.expiration ≤ e.when := by
  intro e member
  rcases Finset.mem_insert.mp member with rfl | old
  · exact Int.le_refl _
  · unfold earliestChanged at changed
    split at changed
    · rename_i none
      rw [first_none none] at old
      simp at old
    · rename_i it first
      have before : t.expiration < it.when := by simpa using changed
      exact Int.le_trans (Int.le_of_lt before) (when_le ((first_some first).2 e old))

theorem earliestChanged_later (same : ¬ s.earliestChanged t.expiration = true) :
    ∃ it ∈ s.timers, it.when ≤ t.expiration := by
  unfold earliestChanged at same
  split at same
  · exact absurd rfl same
  · rename_i it first
    exact ⟨it, (first_some first).1, by simpa using same⟩

theorem handedOver_arming (h : s.Arming) (timer : Addr) (t : Timer) : (s.handedOver timer t).Arming := by
  unfold handedOver
  split
  · rename_i changed
    have armed : ((s.added timer t).resetTimerfd t.expiration).Armed :=
      resetTimerfd_first (e := Entry.of t.expiration timer) (earliestChanged_first changed)
    exact ⟨h.clock, fun _ _ => armed, fun b calling => ⟨(h.calling b calling).1, .inl armed⟩,
      resetTimerfd_settimes (s := s.added timer t) h.settimes t.expiration⟩
  · rename_i same
    obtain ⟨it, inside, le⟩ := earliestChanged_later same
    have within : ∀ e ∈ (s.added timer t).timers, ∃ e' ∈ s.timers, e'.when ≤ e.when := by
      intro e member
      rcases Finset.mem_insert.mp member with rfl | old
      · exact ⟨it, inside, le⟩
      · exact ⟨e, old, Int.le_refl _⟩
    refine ⟨h.clock, fun idle _ => (h.idle idle ⟨it, inside⟩).subset rfl within, fun b calling => ?_, h.settimes⟩
    obtain ⟨positive, before⟩ := h.calling b calling
    refine ⟨positive, before.imp (fun armed => armed.subset rfl within) fun later e member => ?_⟩
    obtain ⟨e', member', le'⟩ := within e member
    exact Int.le_trans (later e' member') le'

theorem taken_arming (h : s.Arming) (elapsed : Nat) : (s.taken elapsed).Arming := by
  refine ⟨Int.add_pos_of_pos_of_nonneg h.clock (Int.natCast_nonneg elapsed), nofun, fun b calling => ?_, h.settimes⟩
  obtain rfl := Option.some.inj calling
  refine ⟨h.clock, .inr fun e member => ?_⟩
  have later : ¬ e < Entry.of s.clock UINTPTR_MAX := (Finset.mem_filter.mp member).2
  exact when_le (not_lt.mp later)

/-- `reset` arms the timerfd, or leaves it as a callback has armed it for a timer before the epoch. -/
theorem finished_arming {b : Batch} {middle : TimerQueue} (h : s.Arming) (batch : s.batch = some b)
    (restarts : Restarts b.now s middle) : Arming { rearmed middle with batch := none } := by
  obtain ⟨positive, before⟩ := h.calling b batch
  have clock : 0 < middle.clock := by
    rw [restarts.clock]
    exact h.clock
  have kept : ∀ it_value ∈ middle.settimes, Arms it_value := by
    rw [restarts.settimes]
    exact h.settimes
  unfold rearmed
  split
  · rename_i none
    refine ⟨clock, fun _ some => ?_, nofun, kept⟩
    rw [first_none none] at some
    exact absurd some Finset.not_nonempty_empty
  · rename_i it first
    obtain ⟨inside, least⟩ := first_some first
    have least : ∀ e ∈ middle.timers, it.when ≤ e.when := fun e member => when_le (least e member)
    split
    · obtain ⟨deadline, armed, early⟩ := resetTimerfd_first least
      exact ⟨clock, fun _ _ => ⟨deadline, armed, early⟩, nofun, resetTimerfd_settimes kept it.when⟩
    · rename_i invalid
      have past : it.when ≤ 0 := by simpa [Timestamp.valid] using invalid
      have early : ¬ b.now ≤ it.when := fun later => Int.not_lt.mpr (Int.le_trans later past) positive
      have old : it ∈ s.timers := (restarts.later it inside).resolve_right early
      have armed : s.Armed := before.resolve_right fun later => early (later it old)
      refine ⟨clock, fun _ _ => armed.subset restarts.timerfd fun e member => ⟨it, old, least e member⟩, nofun, kept⟩

theorem effect_arming {label : Label} (h : s.Arming) (effect : s.Effect s' label) : s'.Arming := by
  cases effect with
  | tick elapsed eq =>
    subst eq
    exact h.keep (Int.add_pos_of_pos_of_nonneg h.clock (Int.natCast_nonneg elapsed)) rfl rfl rfl (Finset.Subset.refl _)
  | created _ _ _ _ _ eq =>
    subst eq
    exact h.keep h.clock rfl rfl rfl (Finset.Subset.refl _)
  | handed timer t _ _ eq =>
    subst eq
    exact handedOver_arming h timer t
  | canceled _ _ _ _ _ eq =>
    subst eq
    exact h.keep h.clock rfl rfl rfl (Finset.erase_subset _ _)
  | noted _ _ eq =>
    subst eq
    exact h.keep h.clock rfl rfl rfl (Finset.Subset.refl _)
  | taken elapsed _ eq =>
    subst eq
    exact taken_arming h elapsed
  | ran b it rest batch _ eq =>
    subst eq
    refine ⟨h.clock, nofun, fun b' calling => ?_, h.settimes⟩
    obtain rfl := Option.some.inj calling
    exact h.calling b batch
  | finished b batch _ _ restarts eq =>
    subst eq
    exact finished_arming h batch restarts

theorem reachable_arming {guard : TimerQueue → Label → Prop} (h : timerQueue.Reachable guard s) : s.Arming := by
  refine h.invariant ?_ ?_
  · rintro a ⟨clock, eq⟩
    rw [eq]
    exact ⟨clock, fun _ some => absurd some Finset.not_nonempty_empty, nofun, by simp⟩
  · intro a label b reached before _ step
    obtain ⟨s', ran, effect⟩ := step_effect (reachable_inv reached) step
    obtain rfl := Except.ok.inj ran
    exact effect_arming before effect

/-- Between two steps of the loop the timerfd is armed, or expired and not read, for a time no later than the
first timer's or than 100 microseconds after it was armed; and what it is armed with is never zero. -/
theorem timerfd_armed (h : timerQueue.Reachable Lib.Machine.anyStep s) :
    (s.batch = none → s.timers.Nonempty → ∃ deadline, s.timerfd.deadline = some deadline ∧
      ((∀ e ∈ s.timers, deadline ≤ e.when) ∨ deadline ≤ s.timerfd.armedAt + 100)) ∧
    ∀ it_value ∈ s.settimes, it_value ≠ .zero ∧ 0 ≤ it_value.tv_nsec ∧ it_value.tv_nsec < 1000000000 := by
  have arming := reachable_arming h
  exact ⟨arming.idle, arming.settimes⟩

/-- A callback adds a timer before the epoch, and `reset` does not arm the timerfd again. -/
theorem timerfd_armed_invalid :
    ∃ s, timerQueue.Reachable Lib.Machine.anyStep s ∧ s.settimes.length = 2 ∧ s.timers.card = 2 ∧
      ∃ deadline, s.timerfd.deadline = some deadline ∧
        ((∀ e ∈ s.timers, deadline ≤ e.when) ∨ deadline ≤ s.timerfd.armedAt + 100) := by
  obtain ⟨s, reached, settimes, card, idle, some⟩ := Lib.Machine.exec_reaches timerQueue Lib.Machine.anyStep
    { clock := 1000 }
    [.newTimer 16 1500 everySecond, .addTimerInLoop 16, .tick 700, .handleRead 3, .run, .newTimer 32 (-5) once,
      .addTimerInLoop 32, .finish]
    (fun s => s.settimes.length = 2 ∧ s.timers.card = 2 ∧ s.batch.isNone = true ∧ s.timers.Nonempty)
    ⟨by decide, rfl⟩ (by decide +kernel)
  exact ⟨s, reached, settimes, card, (timerfd_armed reached).1 (Option.isNone_iff_eq_none.mp idle) some⟩

end TimerQueue

end Dserver.Net
