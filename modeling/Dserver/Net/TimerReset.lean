import Dserver.Net.TimerOwnership

/-!
# The end of `handleRead`

While the queue is sound `reset` fails no assertion. The repeating timers of the batch are put back,
unless they were cancelled while the callbacks ran; every other timer of the batch is deleted.
-/

namespace Dserver.Net

namespace TimerQueue

variable {s s' : TimerQueue} {timer : Addr} {t : Timer} {e : Entry} {batch : List Entry}

/-- What `reset` does before it arms the timerfd: timers are put back, none of them before `now`. -/
structure Restarts (now : Timestamp) (s s' : TimerQueue) : Prop where
  clock : s'.clock = s.clock
  timerfd : s'.timerfd = s.timerfd
  settimes : s'.settimes = s.settimes
  deleted : s.deleted <+: s'.deleted
  subset : s.timers ⊆ s'.timers
  later : ∀ e ∈ s'.timers, e ∈ s.timers ∨ now ≤ e.when

theorem Restarts.refl (now : Timestamp) (s : TimerQueue) : Restarts now s s :=
  ⟨rfl, rfl, rfl, List.prefix_rfl, Finset.Subset.refl _, fun _ member => .inl member⟩

theorem Restarts.trans {now : Timestamp} {a b c : TimerQueue} (h : Restarts now a b) (h' : Restarts now b c) :
    Restarts now a c := by
  refine ⟨h'.clock.trans h.clock, h'.timerfd.trans h.timerfd, h'.settimes.trans h.settimes,
    h.deleted.trans h'.deleted, h.subset.trans h'.subset, fun e member => ?_⟩
  rcases h'.later e member with inside | later
  · exact h.later e inside
  · exact .inr later

theorem restart_sequence (t : Timer) (now : Timestamp) : (t.restart now).sequence = t.sequence := by
  unfold Timer.restart
  split <;> rfl

theorem restart_later {now : Timestamp} (repeats : t.repeat_ = true) : now ≤ (t.restart now).expiration := by
  rw [Timer.restart, if_pos repeats]
  have delta := t.interval.delta_nonneg repeats
  exact Int.le_add_of_nonneg_right delta

def resetOne (now : Timestamp) (s : TimerQueue) (e : Entry) (t : Timer) : TimerQueue :=
  if t.repeat_ ∧ (e.timer, t.sequence) ∉ s.cancelingTimers then
    inserted { s with heap := Function.update s.heap e.timer (some (t.restart now)) } e.timer (t.restart now)
  else { s with heap := Function.update s.heap e.timer none, deleted := s.deleted ++ [t.sequence] }

theorem resetTimer_eq (h : s.Sound (e :: batch)) (now : Timestamp) (live : s.heap e.timer = some t) :
    resetTimer now s e = .ok (resetOne now s e t) := by
  obtain ⟨_, absent, _, _⟩ := h.owned.first
  unfold resetTimer resetOne
  rw [deref, live, Lib.ok_bind]
  split
  · have agree : Agree { s with heap := Function.update s.heap e.timer (some (t.restart now)) } :=
      h.agree.of_heap (fun e' inside => Function.update_of_ne (absent e' inside) _ _) rfl rfl
    rw [insert_eq agree (Function.update_self ..) absent, Lib.ok_bind]
  · rw [delete, deref, live, Lib.ok_bind]

theorem resetOne_sound (h : s.Sound (e :: batch)) (now : Timestamp) (live : s.heap e.timer = some t) :
    (resetOne now s e t).Sound batch := by
  unfold resetOne
  split
  · exact restarted_sound h live (restart_sequence t now)
  · exact deleted_sound h live

theorem resetOne_restarts (now : Timestamp) (s : TimerQueue) (e : Entry) (t : Timer) :
    Restarts now s (resetOne now s e t) := by
  unfold resetOne
  split
  · rename_i again
    refine ⟨rfl, rfl, rfl, List.prefix_rfl, Finset.subset_insert _ _, fun e' member => ?_⟩
    rcases Finset.mem_insert.mp member with rfl | inside
    · exact .inr (restart_later again.1)
    · exact .inl inside
  · exact ⟨rfl, rfl, rfl, List.prefix_append _ _, Finset.Subset.refl _, fun _ member => .inl member⟩

def resetAll (now : Timestamp) : TimerQueue → List Entry → TimerQueue
  | s, [] => s
  | s, e :: rest =>
    match s.heap e.timer with
    | some t => resetAll now (resetOne now s e t) rest
    | none => resetAll now s rest

theorem resetAll_cons {now : Timestamp} {rest : List Entry} (live : s.heap e.timer = some t) :
    resetAll now s (e :: rest) = resetAll now (resetOne now s e t) rest := by
  rw [resetAll, live]

theorem reset_all (h : s.Sound batch) (now : Timestamp) :
    batch.foldlM (resetTimer now) s = .ok (resetAll now s batch) ∧ (resetAll now s batch).Sound [] ∧
      Restarts now s (resetAll now s batch) := by
  induction batch generalizing s with
  | nil => exact ⟨rfl, h, .refl now s⟩
  | cons e rest ih =>
    obtain ⟨_, _, _, t, live⟩ := h.owned.first
    obtain ⟨all, sound, restarts⟩ := ih (resetOne_sound h now live)
    rw [resetAll_cons live]
    refine ⟨?_, sound, (resetOne_restarts now s e t).trans restarts⟩
    rw [List.foldlM_cons, resetTimer_eq h now live, Lib.ok_bind, all]

/-- `reset` puts the timer back. -/
def Again (s : TimerQueue) (timer : Addr) (t : Timer) : Prop :=
  t.repeat_ = true ∧ (timer, t.sequence) ∉ s.cancelingTimers

instance (s : TimerQueue) (timer : Addr) (t : Timer) : Decidable (s.Again timer t) :=
  inferInstanceAs (Decidable (_ ∧ _))

/-- What becomes of the timers of a batch, and of the others. -/
structure Restarted (now : Timestamp) (s : TimerQueue) (batch : List Entry) (s' : TimerQueue) : Prop where
  other : ∀ timer, (∀ e ∈ batch, e.timer ≠ timer) → s'.heap timer = s.heap timer
  each : ∀ e ∈ batch, ∀ t, s.heap e.timer = some t →
    s'.heap e.timer = if s.Again e.timer t then some (t.restart now) else none
  timers : ∀ e', e' ∈ s'.timers ↔ e' ∈ s.timers ∨ ∃ e ∈ batch, ∃ t, s.heap e.timer = some t ∧
    s.Again e.timer t ∧ e' = Entry.of (t.restart now).expiration e.timer

theorem resetOne_heap (now : Timestamp) (s : TimerQueue) (e : Entry) (t : Timer) :
    (resetOne now s e t).heap =
      Function.update s.heap e.timer (if s.Again e.timer t then some (t.restart now) else none) := by
  unfold resetOne
  split
  · rename_i again
    rw [if_pos (show s.Again e.timer t from again)]
    rfl
  · rename_i ended
    rw [if_neg (show ¬ s.Again e.timer t from ended)]

theorem resetOne_timers (now : Timestamp) (s : TimerQueue) (e : Entry) (t : Timer) (e' : Entry) :
    e' ∈ (resetOne now s e t).timers ↔
      e' ∈ s.timers ∨ (s.Again e.timer t ∧ e' = Entry.of (t.restart now).expiration e.timer) := by
  unfold resetOne
  split
  · rename_i again
    show e' ∈ Insert.insert _ s.timers ↔ _
    rw [Finset.mem_insert, or_comm]
    exact or_congr_right ⟨fun same => ⟨again, same⟩, fun same => same.2⟩
  · rename_i ended
    exact ⟨.inl, fun either => either.resolve_right fun new => ended new.1⟩

theorem resetOne_frame (now : Timestamp) (s : TimerQueue) (e : Entry) (t : Timer) :
    resetOne now s e t = { s with
      heap := (resetOne now s e t).heap, timers := (resetOne now s e t).timers
      activeTimers := (resetOne now s e t).activeTimers, deleted := (resetOne now s e t).deleted } := by
  unfold resetOne
  split <;> rfl

theorem resetAll_frame (now : Timestamp) (s : TimerQueue) (batch : List Entry) :
    resetAll now s batch = { s with
      heap := (resetAll now s batch).heap, timers := (resetAll now s batch).timers
      activeTimers := (resetAll now s batch).activeTimers, deleted := (resetAll now s batch).deleted } := by
  induction batch generalizing s with
  | nil => rfl
  | cons e rest ih =>
    rw [resetAll]
    split
    · rw [ih, resetOne_frame]
    · exact ih s

theorem resetAll_restarted (h : s.Sound batch) (now : Timestamp) :
    Restarted now s batch (resetAll now s batch) := by
  induction batch generalizing s with
  | nil => exact ⟨fun _ _ => rfl, by simp, by simp [resetAll]⟩
  | cons e rest ih =>
    obtain ⟨_, _, others, t, live⟩ := h.owned.first
    have heap := resetOne_heap now s e t
    have kept : ∀ timer, timer ≠ e.timer → (resetOne now s e t).heap timer = s.heap timer := fun timer ne => by
      rw [heap, Function.update_of_ne ne]
    have canceling : (resetOne now s e t).cancelingTimers = s.cancelingTimers := by rw [resetOne_frame]
    have again : ∀ timer u, (resetOne now s e t).Again timer u ↔ s.Again timer u := by
      intro timer u
      rw [Again, canceling]
      rfl
    obtain ⟨other, each, timers⟩ := ih (resetOne_sound h now live)
    rw [resetAll_cons live]
    refine ⟨fun timer out => ?_, fun e' member u found => ?_, fun e' => ?_⟩
    · rw [other timer fun e' inside => out e' (List.mem_cons_of_mem _ inside)]
      exact kept timer (out e List.mem_cons_self).symm
    · rcases List.mem_cons.mp member with rfl | inside
      · rw [other _ others, heap, Function.update_self]
        obtain rfl : t = u := Option.some.inj (live.symm.trans found)
        rfl
      · rw [each e' inside u (by rw [kept _ (others e' inside)]; exact found)]
        simp only [again]
    · rw [timers, resetOne_timers]
      simp only [List.mem_cons, again]
      constructor
      · rintro ((old | ⟨repeats, rfl⟩) | ⟨e'', inside, u, found, repeats, rfl⟩)
        · exact .inl old
        · exact .inr ⟨e, .inl rfl, t, live, repeats, rfl⟩
        · rw [kept _ (others e'' inside)] at found
          exact .inr ⟨e'', .inr inside, u, found, repeats, rfl⟩
      · rintro (old | ⟨e'', rfl | inside, u, found, repeats, rfl⟩)
        · exact .inl (.inl old)
        · obtain rfl : t = u := Option.some.inj (live.symm.trans found)
          exact .inl (.inr ⟨repeats, rfl⟩)
        · exact .inr ⟨e'', inside, u, (kept _ (others e'' inside)).trans found, repeats, rfl⟩

def rearmed (s : TimerQueue) : TimerQueue :=
  match s.first with
  | none => s
  | some it => if Timestamp.valid it.when then s.resetTimerfd it.when else s

theorem nextExpire_none (none : s.first = none) : s.nextExpire = .ok .invalid := by
  rw [nextExpire, none]

theorem nextExpire_some (h : s.Agree) (first : s.first = some e) : s.nextExpire = .ok e.when := by
  obtain ⟨t, live, key⟩ := h.keys e (first_some first).1
  rw [nextExpire, first]
  dsimp only
  rw [deref, live, Lib.ok_bind, key]

def settled (s : TimerQueue) (b : Batch) : TimerQueue :=
  resetAll b.now { s with callingExpiredTimers := false } b.expired

theorem finish_spec {b : Batch} (h : s.Sound b.expired) :
    s.finish b = .ok { rearmed (s.settled b) with batch := none } ∧ (s.settled b).Sound [] ∧
      Restarts b.now s (s.settled b) := by
  have start : Sound { s with callingExpiredTimers := false } b.expired := h.of_eq rfl rfl rfl rfl rfl rfl rfl
  obtain ⟨ran, sound, restarts⟩ := reset_all start b.now
  refine ⟨?_, sound, restarts.clock, restarts.timerfd, restarts.settimes, restarts.deleted,
    restarts.subset, restarts.later⟩
  unfold finish reset rearmed settled
  rw [ran, Lib.ok_bind]
  cases first : (resetAll b.now { s with callingExpiredTimers := false } b.expired).first with
  | none =>
    rw [nextExpire_none first]
    rfl
  | some e =>
    rw [nextExpire_some sound.agree first, Lib.ok_bind]
    dsimp only
    split <;> rfl

theorem settled_restarted {b : Batch} (h : s.Sound b.expired) : Restarted b.now s b.expired (s.settled b) := by
  have start : Sound { s with callingExpiredTimers := false } b.expired := h.of_eq rfl rfl rfl rfl rfl rfl rfl
  have all := resetAll_restarted start b.now
  exact ⟨all.other, all.each, all.timers⟩

theorem settled_frame (s : TimerQueue) (b : Batch) :
    s.settled b = { s with
      callingExpiredTimers := false, heap := (s.settled b).heap, timers := (s.settled b).timers
      activeTimers := (s.settled b).activeTimers, deleted := (s.settled b).deleted } :=
  resetAll_frame b.now { s with callingExpiredTimers := false } b.expired

end TimerQueue

end Dserver.Net
