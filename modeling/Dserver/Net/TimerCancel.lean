import Dserver.Net.TimerEffect

/-!
# Cancelled timers

A cancelled timer is deleted, or it is in the batch and will be deleted by `reset`. Its callback is started
again only if it was still to be started when the cancel came: the timer was in the batch and not run yet,
or it had not been handed over.
-/

namespace Dserver.Net

namespace TimerQueue

variable {s s' u : TimerQueue} {timer : Addr} {t : Timer} {timerId : ActiveTimer}

def starts (s : TimerQueue) : Option ActiveTimer :=
  match s.batch with
  | some b => b.next.head?.map s.activeOf
  | none => none

def Alive (s : TimerQueue) (timerId : ActiveTimer) : Prop :=
  ∃ t, s.heap timerId.1 = some t ∧ t.sequence = timerId.2

/-- The timer is in the batch and its callback has not been started. -/
def InNext (s : TimerQueue) (timer : Addr) : Prop := ∃ b, s.batch = some b ∧ ∃ e ∈ b.next, e.timer = timer

/-- The callback will be started, whether the timer is cancelled or not. -/
def ToStart (s : TimerQueue) (timerId : ActiveTimer) : Prop :=
  s.Alive timerId ∧ (timerId.1 ∈ s.waiting ∨ s.InNext timerId.1)

/-! ### While callbacks run -/

theorem effect_calling {label : Label} (calling : s.callingExpiredTimers = s.batch.isSome)
    (effect : s.Effect s' label) : s'.callingExpiredTimers = s'.batch.isSome := by
  cases effect with
  | tick _ eq | created _ _ _ _ _ eq | canceled _ _ _ _ _ eq | noted _ _ eq => exact eq ▸ calling
  | handed timer t _ _ eq =>
    subst eq
    unfold handedOver
    split <;> exact calling
  | taken _ _ eq => exact eq ▸ rfl
  | ran b _ _ batch _ eq =>
    subst eq
    rw [batch] at calling
    exact calling
  | finished b batch _ _ _ eq =>
    subst eq
    show (rearmed (s.settled b)).callingExpiredTimers = false
    rw [rearmed_frame, settled_frame]

theorem reachable_calling {guard : TimerQueue → Label → Prop} (h : timerQueue.Reachable guard s) :
    s.callingExpiredTimers = s.batch.isSome := by
  refine h.invariant (P := fun s => s.callingExpiredTimers = s.batch.isSome) ?_
    fun a label b reached before _ step => ?_
  · rintro a ⟨_, eq⟩
    rw [eq]
    rfl
  · obtain ⟨s', ran, effect⟩ := step_effect (reachable_inv reached) step
    obtain rfl := Except.ok.inj ran
    exact effect_calling before effect

/-! ### What a cancel leaves -/

/-- No callback of the timer is to be started: it does not live, or it is in a batch that is past it and
will be deleted there. -/
structure Ended (s : TimerQueue) (timerId : ActiveTimer) : Prop where
  created : timerId.2 ≤ s.numCreated
  gone : ∀ t, s.heap timerId.1 = some t → t.sequence = timerId.2 → ¬ s.Again timerId.1 t ∧
    ¬ s.InNext timerId.1 ∧ ∃ b, s.batch = some b ∧ ∃ e ∈ b.expired, e.timer = timerId.1

theorem Ended.not_starts (inv : s.Inv) (h : s.Ended timerId) : s.starts ≠ some timerId := by
  intro started
  unfold starts at started
  split at started
  · rename_i b batch
    obtain ⟨e, first, rfl⟩ := Option.map_eq_some_iff.mp started
    have member : e ∈ b.next := List.mem_of_head? first
    obtain ⟨t, live⟩ := batch_live inv.sound.owned (expired_some batch ▸ inv.next b batch e member)
    obtain ⟨_, next, _⟩ := h.gone t live (sequenceAt_eq live).symm
    exact next ⟨b, batch, e, member, rfl⟩
  · cases started

theorem Ended.keep (h : s.Ended timerId) (numCreated : s.numCreated ≤ s'.numCreated)
    (heap : ∀ t, s'.heap timerId.1 = some t → t.sequence = timerId.2 → s.heap timerId.1 = some t)
    (canceling : s.cancelingTimers ⊆ s'.cancelingTimers) (batch : s'.batch = s.batch) : s'.Ended timerId := by
  refine ⟨Nat.le_trans h.created numCreated, fun t live number => ?_⟩
  obtain ⟨last, next, inside⟩ := h.gone t (heap t live number) number
  rw [InNext, batch]
  exact ⟨fun again => last ⟨again.1, fun member => again.2 (canceling member)⟩, next, inside⟩

theorem settled_heap {b : Batch} (h : s.Sound b.expired) (live : (s.settled b).heap timer = some t) :
    (s.heap timer = some t ∧ ∀ e ∈ b.expired, e.timer ≠ timer) ∨
    ∃ e ∈ b.expired, e.timer = timer ∧ ∃ u, s.heap timer = some u ∧ s.Again timer u ∧ t = u.restart b.now := by
  obtain ⟨other, each, _⟩ := settled_restarted h
  by_cases inside : ∃ e ∈ b.expired, e.timer = timer
  · obtain ⟨e, member, rfl⟩ := inside
    obtain ⟨u, found⟩ := batch_live h.owned member
    have after := each e member u found
    rw [live] at after
    split at after
    · rename_i again
      exact .inr ⟨e, member, rfl, u, found, again, Option.some.inj after⟩
    · cases after
  · have out : ∀ e ∈ b.expired, e.timer ≠ timer := fun e member same => inside ⟨e, member, same⟩
    rw [other _ out] at live
    exact .inl ⟨live, out⟩

theorem effect_ended {label : Label} (inv : s.Inv) (h : s.Ended timerId) (effect : s.Effect s' label) :
    s'.Ended timerId := by
  cases effect with
  | tick _ eq =>
    subst eq
    exact h.keep (Nat.le_refl _) (fun _ live _ => live) (Finset.Subset.refl _) rfl
  | created timer when interval _ free eq =>
    subst eq
    refine h.keep (Nat.le_succ _) (fun t live number => ?_) (Finset.Subset.refl _) rfl
    have created := h.created
    by_cases same : timerId.1 = timer
    · have value : (s.newTimer timer when interval).heap timer = some _ := Function.update_self ..
      rw [same, value, Option.some.injEq] at live
      rw [← live] at number
      simp only at number
      omega
    · exact (Function.update_of_ne same _ _).symm.trans live
  | handed timer t _ _ eq =>
    subst eq
    obtain ⟨heap, batch⟩ := handedOver_fields s timer t
    refine h.keep ?_ (fun u live _ => by rwa [heap] at live) ?_ batch
    · unfold handedOver
      split <;> exact Nat.le_refl _
    · unfold handedOver
      split <;> exact Finset.Subset.refl _
  | canceled other was _ _ _ eq =>
    subst eq
    refine h.keep (Nat.le_refl _) (fun t live _ => ?_) (Finset.Subset.refl _) rfl
    by_cases same : timerId.1 = other.1
    · have deleted : (s.removed other.1 was).heap other.1 = none := Function.update_self ..
      rw [same, deleted] at live
      cases live
    · exact (Function.update_of_ne same _ _).symm.trans live
  | noted other _ eq =>
    subst eq
    refine h.keep (Nat.le_refl _) (fun _ live _ => live) ?_ rfl
    unfold noted
    split
    · exact Finset.subset_insert _ _
    · exact Finset.Subset.refl _
  | taken _ idle eq =>
    subst eq
    refine ⟨h.created, fun t live number => ?_⟩
    obtain ⟨_, _, b, batch, _⟩ := h.gone t live number
    rw [idle] at batch
    cases batch
  | ran b it rest batch next eq =>
    subst eq
    refine ⟨h.created, fun t live number => ?_⟩
    obtain ⟨last, past, b', batch', inside⟩ := h.gone t live number
    obtain rfl : b = b' := Option.some.inj (batch.symm.trans batch')
    refine ⟨last, fun later => past ?_, _, rfl, inside⟩
    obtain ⟨b'', eq, e, inside, same⟩ := later
    obtain rfl := Option.some.inj eq
    exact ⟨b, batch, e, by rw [next]; exact List.mem_cons_of_mem _ inside, same⟩
  | finished b batch _ _ _ eq =>
    subst eq
    have sound : s.Sound b.expired := expired_some batch ▸ inv.sound
    refine ⟨?_, fun t live number => ?_⟩
    · show timerId.2 ≤ (rearmed (s.settled b)).numCreated
      rw [rearmed_frame, settled_frame]
      exact h.created
    · have before : (s.settled b).heap timerId.1 = some t := by
        rw [rearmed_frame] at live
        exact live
      obtain ⟨old, out⟩ | ⟨_, _, _, u, found, again, rfl⟩ := settled_heap sound before
      · obtain ⟨_, _, b', batch', e, member, same⟩ := h.gone t old number
        obtain rfl : b = b' := Option.some.inj (batch.symm.trans batch')
        exact absurd same (out e member)
      · rw [restart_sequence] at number
        exact absurd again (h.gone u found number).1

theorem cancel_ended (h : timerQueue.Reachable Lib.Machine.anyStep s) (created : timerId.2 ≤ s.numCreated)
    (late : ¬ s.ToStart timerId) (effect : s.Effect s' (.cancelInLoop timerId)) : s'.Ended timerId := by
  have inv := reachable_inv h
  cases effect with
  | canceled _ t live number member eq =>
    subst eq
    refine ⟨created, fun u found _ => ?_⟩
    have deleted : (s.removed timerId.1 t).heap timerId.1 = none := Function.update_self ..
    rw [deleted] at found
    cases found
  | noted _ inactive eq =>
    subst eq
    refine ⟨created, fun t live number => ?_⟩
    have live : s.heap timerId.1 = some t := live
    have out : timerId.1 ∉ s.waiting := fun waiting => late ⟨⟨t, live, number⟩, .inl waiting⟩
    rcases inv.placed live out with sets | batch
    · obtain ⟨e, member, active⟩ := sets
      obtain ⟨u, found, number', _⟩ := inv.sound.agree.mem_active.mp active
      have same := inv.sound.named.distinct _ _ _ _ found live number'
      rw [show e.timer = timerId.1 from same, number] at active
      exact absurd active inactive
    · obtain ⟨b, calling, member⟩ := batch
      obtain ⟨e, inside, u, found, number'⟩ := inv.inBatch ⟨b, calling, member⟩
      have same := inv.sound.named.distinct _ _ _ _ found live number'
      have on : s.callingExpiredTimers = true := by rw [reachable_calling h, calling]; rfl
      refine ⟨fun again => again.2 ?_, fun next => late ⟨⟨t, live, number⟩, .inr next⟩, b, calling, e, ?_, same⟩
      · rw [noted, on, number]
        exact Finset.mem_insert_self _ _
      · rw [← expired_some calling]
        exact inside

/-! ### A callback that is still to be started -/

theorem run_enabled {b : Batch} {it : Entry} {rest : List Entry} (h : s.Inv) (batch : s.batch = some b)
    (next : b.next = it :: rest) :
    s.step .run = some (.ok { s with batch := some { b with next := rest } }) := by
  have step : s.step .run = some (s.run b it rest) := by simp only [TimerQueue.step, batch, next]
  obtain ⟨s', ran, effect⟩ := step_effect h step
  cases effect with
  | ran b' it' rest' batch' next' eq =>
    obtain rfl : b = b' := Option.some.inj (batch.symm.trans batch')
    obtain ⟨rfl, rfl⟩ := List.cons.inj (next.symm.trans next')
    rw [step, ran, eq]

theorem runs_to {b : Batch} {before rest : List Entry} (h : s.Inv) (batch : s.batch = some b)
    (next : b.next = before ++ rest) :
    timerQueue.Steps Lib.Machine.anyStep s { s with batch := some { b with next := rest } } := by
  induction before generalizing s b with
  | nil =>
    have same : { s with batch := some { b with next := rest } } = s := by
      rw [show rest = b.next from next.symm, ← batch]
    rw [same]
    exact .refl
  | cons it before ih =>
    have step := run_enabled h batch next
    exact .head ⟨.run, trivial, step⟩ (ih (b := { b with next := before ++ rest }) (step_inv h step) rfl rfl)

theorem inNext_starts (h : s.Inv) (alive : s.Alive timerId) (next : s.InNext timerId.1) :
    ∃ u, timerQueue.Steps Lib.Machine.anyStep s u ∧ u.starts = some timerId := by
  obtain ⟨b, batch, e, member, same⟩ := next
  obtain ⟨t, live, number⟩ := alive
  obtain ⟨before, rest, next⟩ := List.append_of_mem member
  refine ⟨_, runs_to h batch next, ?_⟩
  show some (s.activeOf e) = some timerId
  rw [activeOf, same, sequenceAt_eq live, number]

theorem waiting_idle (h : s.Inv) (alive : s.Alive timerId) (member : timerId.1 ∈ s.waiting) :
    ∃ u, timerQueue.Steps Lib.Machine.anyStep s u ∧ u.batch = none ∧ timerId.1 ∈ u.waiting ∧ u.Alive timerId := by
  cases batch : s.batch with
  | none => exact ⟨s, .refl, batch, member, alive⟩
  | some b =>
    have runs := runs_to h batch (List.append_nil b.next).symm
    have inv := steps_inv h runs
    have step : TimerQueue.step { s with batch := some { b with next := [] } } .finish =
        some (finish { s with batch := some { b with next := [] } } { b with next := [] }) := rfl
    obtain ⟨u, ran, effect⟩ := step_effect inv step
    refine ⟨u, runs.tail ⟨.finish, trivial, by rw [← ran]; exact step⟩, ?_⟩
    cases effect with
    | finished b' batch' _ _ _ eq =>
      obtain rfl := Option.some.inj batch'
      have sound := inv.sound
      obtain ⟨_, out, _⟩ := sound.owned.waiting member
      obtain ⟨t, live, number⟩ := alive
      subst eq
      rw [rearmed_frame, settled_frame]
      refine ⟨rfl, member, t, ?_, number⟩
      rw [← live]
      exact (settled_restarted sound).other timerId.1 out

theorem waiting_inNext (h : s.Inv) (below : s.Below) (idle : s.batch = none) (member : timerId.1 ∈ s.waiting)
    (alive : s.Alive timerId) :
    ∃ u, timerQueue.Steps Lib.Machine.anyStep s u ∧ u.Alive timerId ∧ u.InNext timerId.1 := by
  obtain ⟨t, live, number⟩ := alive
  have added : s.step (.addTimerInLoop timerId.1) = some (.ok (s.handedOver timerId.1 t)) := by
    rw [TimerQueue.step, if_pos member, addTimerInLoop_eq h.sound member live]
  obtain ⟨heap, batch⟩ := handedOver_fields s timerId.1 t
  have inside : Entry.of t.expiration timerId.1 ∈ (s.handedOver timerId.1 t).timers := by
    unfold handedOver
    split <;> exact Finset.mem_insert_self _ _
  generalize s.handedOver timerId.1 t = u at added heap batch inside
  have inv : u.Inv := step_inv h added
  obtain ⟨elapsed, due⟩ : ∃ elapsed : Nat, t.expiration ≤ u.clock + elapsed := by
    exact ⟨(t.expiration - u.clock).toNat, Int.le_add_of_sub_left_le (Int.self_le_toNat _)⟩
  have ticked : u.step (.tick elapsed) = some (.ok { u with clock := u.clock + elapsed }) := rfl
  have inv' := step_inv inv ticked
  have read : TimerQueue.step { u with clock := u.clock + elapsed } (.handleRead 0) =
      some (.ok (taken { u with clock := u.clock + elapsed } 0)) := by
    rw [TimerQueue.step, if_pos (by simp [batch, idle]), handleRead_eq inv'.sound.agree]
  have steps : timerQueue.Steps Lib.Machine.anyStep s (taken { u with clock := u.clock + elapsed } 0) :=
    .head ⟨.addTimerInLoop timerId.1, trivial, added⟩
      (.head ⟨.tick elapsed, trivial, ticked⟩ (.single ⟨.handleRead 0, trivial, read⟩))
  refine ⟨_, steps, ⟨t, ?_, number⟩, _, rfl, Entry.of t.expiration timerId.1, ?_, rfl⟩
  · show u.heap timerId.1 = some t
    rw [heap, live]
  · refine mem_expiredAt.mpr ⟨inside, (isExpired_iff ?_).mpr due⟩
    exact below timerId.1 t live

/-- Once `cancelInLoop` has returned the callback of its timer is never started again, exactly when the
timer was not in the batch with its callback still to start, and not waiting to be handed over. -/
theorem cancel_final (h : timerQueue.Reachable Lib.Machine.anyStep s) (created : timerId.2 ≤ s.numCreated) :
    (∀ s' u, s.step (.cancelInLoop timerId) = some (.ok s') → timerQueue.Steps Lib.Machine.anyStep s' u →
      u.starts ≠ some timerId) ↔ ¬ s.ToStart timerId := by
  have inv := reachable_inv h
  have enabled : s.step (.cancelInLoop timerId) = some (s.cancelInLoop timerId) := rfl
  obtain ⟨s', ran, effect⟩ := step_effect inv enabled
  have step : timerQueue.step s (.cancelInLoop timerId) = some (.ok s') := by rw [← ran]; rfl
  have inv' := effect_inv inv effect
  constructor
  · rintro final ⟨alive, place⟩
    -- the cancel leaves the timer where it is
    have kept : s' = s.noted timerId := by
      cases effect with
      | canceled _ _ _ _ member _ =>
        obtain ⟨out, others⟩ := inv.sound.owned.inside member
        rcases place with waiting | ⟨b, batch, e, inside, same⟩
        · exact absurd waiting out
        · exact absurd same (others e (expired_some batch ▸ inv.next b batch e inside))
      | noted _ _ eq => exact eq
    subst kept
    rcases place with waiting | next
    · obtain ⟨u, steps, idle, still, lives⟩ := waiting_idle inv' alive waiting
      have below := reachable_below ((h.next trivial step).steps steps)
      obtain ⟨v, more, lives', next⟩ := waiting_inNext (steps_inv inv' steps) below idle still lives
      obtain ⟨w, last, starts⟩ := inNext_starts (steps_inv inv' (steps.trans more)) lives' next
      exact final _ w step ((steps.trans more).trans last) starts
    · obtain ⟨u, steps, starts⟩ := inNext_starts inv' alive next
      exact final _ u step steps starts
  · intro late s'' u step' steps
    obtain rfl := Except.ok.inj (Option.some.inj (step.symm.trans step'))
    have reached := h.next trivial step
    have ended : u.Ended timerId := by
      refine steps.invariant (P := fun a => a.Ended timerId) reached (cancel_ended h created late effect) ?_
      intro a label b before ended _ next
      obtain ⟨c, ran, effect⟩ := step_effect (reachable_inv before) next
      obtain rfl := Except.ok.inj ran
      exact effect_ended (reachable_inv before) ended effect
    exact ended.not_starts (steps_inv inv' steps)

/-- A repeating timer cancels itself in its callback, with another timer of the batch still to run. -/
theorem cancel_final_own_callback :
    ∃ s, timerQueue.Reachable Lib.Machine.anyStep s ∧ s.InNext 32 ∧
      ∀ s' u, s.step (.cancelInLoop (16, 1)) = some (.ok s') → timerQueue.Steps Lib.Machine.anyStep s' u →
        u.starts ≠ some (16, 1) := by
  obtain ⟨s, reached, next, waiting, created⟩ := Lib.Machine.exec_reaches timerQueue Lib.Machine.anyStep
    { clock := 1000 }
    [.newTimer 16 1500 everySecond, .addTimerInLoop 16, .newTimer 32 1600 once, .addTimerInLoop 32,
      .tick 700, .handleRead 3, .run]
    (fun s => s.batch.map (fun b => b.next.map Entry.timer) = some [32] ∧ s.waiting = ∅ ∧ 1 ≤ s.numCreated)
    ⟨by decide, rfl⟩ (by decide +kernel)
  obtain ⟨b, batch, timers⟩ := Option.map_eq_some_iff.mp next
  refine ⟨s, reached, ⟨b, batch, ?_⟩, (cancel_final reached created).mpr ?_⟩
  · rw [← List.mem_map, timers]
    exact List.mem_singleton_self _
  · rintro ⟨_, inside | ⟨b', batch', e, member, same⟩⟩
    · simp [waiting] at inside
    · obtain rfl : b = b' := Option.some.inj (batch.symm.trans batch')
      have other : e.timer ∈ b.next.map Entry.timer := List.mem_map_of_mem member
      rw [timers, same] at other
      simp at other

/-- The timer whose callback is started next when this one has been cancelled. -/
def startsAfterCancel (s : TimerQueue) (timerId : ActiveTimer) : Option ActiveTimer :=
  match s.step (.cancelInLoop timerId) with
  | some (.ok s') => s'.starts
  | _ => none

theorem startsAfterCancel_some {s : TimerQueue} {timerId other : ActiveTimer}
    (h : s.startsAfterCancel timerId = some other) :
    ∃ s', s.step (.cancelInLoop timerId) = some (.ok s') ∧ s'.starts = some other := by
  unfold startsAfterCancel at h
  split at h
  · rename_i s' step
    exact ⟨s', step, h⟩
  · cases h

/-- Of two timers that expire together the first cancels the second, whose callback is started next. -/
theorem canceled_callback_started :
    ¬ ∀ s timerId, timerQueue.Reachable Lib.Machine.anyStep s → timerId.2 ≤ s.numCreated →
      ∀ s' u, s.step (.cancelInLoop timerId) = some (.ok s') → timerQueue.Steps Lib.Machine.anyStep s' u →
        u.starts ≠ some timerId := by
  intro claim
  obtain ⟨s, reached, created, started⟩ := Lib.Machine.exec_reaches timerQueue Lib.Machine.anyStep
    { clock := 1000 }
    [.newTimer 16 1500 everySecond, .addTimerInLoop 16, .newTimer 32 1600 once, .addTimerInLoop 32,
      .tick 700, .handleRead 3, .run]
    (fun s => 2 ≤ s.numCreated ∧ s.startsAfterCancel (32, 2) = some (32, 2)) ⟨by decide, rfl⟩ (by decide +kernel)
  obtain ⟨s', step, next⟩ := startsAfterCancel_some started
  exact claim s (32, 2) reached created s' s' step .refl next

end TimerQueue

end Dserver.Net
