import Dserver.Net.TimerReset

/-!
# What the steps of a `TimerQueue` do

While the queue is sound every operation succeeds, with a result that can be written down; `Effect` says
what each step does. From it follows that the queue stays sound in every run.
-/

namespace Dserver.Net

namespace TimerQueue

variable {s s' : TimerQueue} {timer : Addr} {t : Timer} {e : Entry} {batch : List Entry}

theorem resetTimerfd_sound (h : s.Sound batch) (expiration : Timestamp) :
    (s.resetTimerfd expiration).Sound batch :=
  h.of_eq rfl rfl rfl rfl rfl rfl rfl

def handedOver (s : TimerQueue) (timer : Addr) (t : Timer) : TimerQueue :=
  if s.earliestChanged t.expiration then (s.added timer t).resetTimerfd t.expiration else s.added timer t

theorem addTimerInLoop_eq (h : s.Sound batch) (member : timer ∈ s.waiting) (live : s.heap timer = some t) :
    s.addTimerInLoop timer = .ok (s.handedOver timer t) := by
  obtain ⟨absent, _⟩ := h.owned.waiting member
  have found : (s.inserted timer t).deref timer = .ok t := by
    rw [deref, show (s.inserted timer t).heap timer = some t from live]
  unfold addTimerInLoop handedOver
  rw [insert_eq h.agree live absent, Lib.ok_bind]
  dsimp only
  rw [found, Lib.ok_bind]
  split <;> rfl

def noted (s : TimerQueue) (timerId : ActiveTimer) : TimerQueue :=
  { s with
    cancelingTimers :=
      if s.callingExpiredTimers then Insert.insert timerId s.cancelingTimers else s.cancelingTimers }

theorem cancelInLoop_eq (h : s.Agree) (timerId : ActiveTimer) :
    (∃ t, s.heap timerId.1 = some t ∧ t.sequence = timerId.2 ∧ Entry.of t.expiration timerId.1 ∈ s.timers ∧
      s.cancelInLoop timerId = .ok (s.removed timerId.1 t)) ∨
    (timerId ∉ s.activeTimers ∧ s.cancelInLoop timerId = .ok (s.noted timerId)) := by
  unfold cancelInLoop
  rw [h.sizes, Lib.ok_bind]
  by_cases active : timerId ∈ s.activeTimers
  · obtain ⟨t, live, sequence, member⟩ := h.mem_active.mp active
    refine .inl ⟨t, live, sequence, member, ?_⟩
    have sizes := (removed_agree h live member).sizes
    have erased : { s with
        timers := s.timers.erase (Entry.of t.expiration timerId.1)
        heap := Function.update s.heap timerId.1 none
        deleted := s.deleted ++ [t.sequence]
        activeTimers := s.activeTimers.erase timerId } = s.removed timerId.1 t := by
      rw [removed, sequence]
    rw [if_pos active, deref, live, Lib.ok_bind, if_pos member, delete, deref, live, Lib.ok_bind, Lib.ok_bind]
    dsimp only
    rw [Lib.ok_bind, erased, sizes]
    rfl
  · have ignored : ∀ pairs, (Except.ok { s with cancelingTimers := pairs } >>= fun s => do
        s.assertSizes
        .ok s) = Except.ok { s with cancelingTimers := pairs } := by
      intro pairs
      have sizes : assertSizes { s with cancelingTimers := pairs } = .ok () := h.sizes
      rw [Lib.ok_bind, sizes]
      rfl
    rw [if_neg active, noted]
    refine .inr ⟨active, ?_⟩
    split
    · exact ignored _
    · exact ignored _

def taken (s : TimerQueue) (elapsed : Nat) : TimerQueue :=
  let clock := s.clock + elapsed
  let expired := s.expiredAt s.clock
  { s.kept s.clock with
    clock, timerfd := s.timerfd.read clock, callingExpiredTimers := true, cancelingTimers := ∅
    batch := some { now := s.clock, expired, next := expired, sequences := expired.map fun e => s.sequenceAt e.timer } }

theorem handleRead_eq (h : s.Agree) (elapsed : Nat) : s.handleRead elapsed = .ok (s.taken elapsed) := by
  have agree : Agree { s with clock := s.clock + elapsed, timerfd := s.timerfd.read (s.clock + elapsed) } :=
    h.of_heap (fun _ _ => rfl) rfl rfl
  unfold handleRead
  dsimp only
  rw [getExpired_eq agree, Lib.ok_bind]
  rfl

theorem taken_sound (h : s.Sound []) (elapsed : Nat) : (s.taken elapsed).Sound (s.expiredAt s.clock) := by
  have left : (s.kept s.clock).Sound (s.expiredAt s.clock) :=
    ⟨kept_agree h.agree s.clock, kept_owned h.owned s.clock, h.named.of_eq rfl rfl rfl rfl rfl⟩
  exact left.of_eq rfl rfl rfl rfl rfl rfl rfl

/-! ### Steps -/

def expired (s : TimerQueue) : List Entry :=
  match s.batch with
  | some b => b.expired
  | none => []

theorem expired_some {b : Batch} (h : s.batch = some b) : s.expired = b.expired := by
  rw [expired, h]

theorem expired_none (h : s.batch = none) : s.expired = [] := by
  rw [expired, h]

/-- What is still to run is in the batch, and the entries of the batch are of the timers it was made of. -/
structure Inv (s : TimerQueue) : Prop where
  sound : s.Sound s.expired
  next : ∀ b, s.batch = some b → ∀ e ∈ b.next, e ∈ b.expired
  sequences : ∀ b, s.batch = some b → b.expired.map (fun e => s.sequenceAt e.timer) = b.sequences

inductive Effect (s s' : TimerQueue) : Label → Prop where
  | tick (elapsed : Nat) (eq : s' = { s with clock := s.clock + elapsed }) : Effect s s' (.tick elapsed)
  | created (timer : Addr) (when : Timestamp) (interval : Seconds) (below : timer < UINTPTR_MAX)
      (free : s.heap timer = none) (eq : s' = s.newTimer timer when interval) :
      Effect s s' (.newTimer timer when interval)
  | handed (timer : Addr) (t : Timer) (member : timer ∈ s.waiting) (live : s.heap timer = some t)
      (eq : s' = s.handedOver timer t) : Effect s s' (.addTimerInLoop timer)
  | canceled (timerId : ActiveTimer) (t : Timer) (live : s.heap timerId.1 = some t)
      (number : t.sequence = timerId.2) (member : Entry.of t.expiration timerId.1 ∈ s.timers)
      (eq : s' = s.removed timerId.1 t) : Effect s s' (.cancelInLoop timerId)
  | noted (timerId : ActiveTimer) (inactive : timerId ∉ s.activeTimers) (eq : s' = s.noted timerId) :
      Effect s s' (.cancelInLoop timerId)
  | taken (elapsed : Nat) (idle : s.batch = none) (eq : s' = s.taken elapsed) : Effect s s' (.handleRead elapsed)
  | ran (b : Batch) (it : Entry) (rest : List Entry) (batch : s.batch = some b) (next : b.next = it :: rest)
      (eq : s' = { s with batch := some { b with next := rest } }) : Effect s s' .run
  | finished (b : Batch) (batch : s.batch = some b) (done : b.next = []) (sound : (s.settled b).Sound [])
      (restarts : Restarts b.now s (s.settled b)) (eq : s' = { rearmed (s.settled b) with batch := none }) :
      Effect s s' .finish

theorem batch_live (h : s.Owned batch) (member : e ∈ batch) : ∃ t, s.heap e.timer = some t := by
  have pos := batch_pos.mpr ⟨e, member, rfl⟩
  refine h.live e.timer ?_
  unfold places
  omega

/-- Every step of a sound queue succeeds. -/
theorem step_effect {label : Label} {result : Except Fault TimerQueue} (h : s.Inv)
    (step : s.step label = some result) : ∃ s', result = .ok s' ∧ s.Effect s' label := by
  cases label with
  | tick elapsed =>
    obtain rfl := Option.some.inj step
    exact ⟨_, rfl, .tick elapsed rfl⟩
  | newTimer timer when interval =>
    simp only [TimerQueue.step, Option.ite_none_right_eq_some, Option.some.injEq] at step
    obtain ⟨⟨below, free⟩, rfl⟩ := step
    exact ⟨_, rfl, .created timer when interval below free rfl⟩
  | addTimerInLoop timer =>
    simp only [TimerQueue.step, Option.ite_none_right_eq_some, Option.some.injEq] at step
    obtain ⟨member, rfl⟩ := step
    obtain ⟨_, _, t, live⟩ := h.sound.owned.waiting member
    exact ⟨_, addTimerInLoop_eq h.sound member live, .handed timer t member live rfl⟩
  | cancelInLoop timerId =>
    obtain rfl := Option.some.inj step
    obtain ⟨t, live, number, member, ran⟩ | ⟨inactive, ran⟩ := cancelInLoop_eq h.sound.agree timerId
    · exact ⟨_, ran, .canceled timerId t live number member rfl⟩
    · exact ⟨_, ran, .noted timerId inactive rfl⟩
  | handleRead elapsed =>
    simp only [TimerQueue.step, Option.ite_none_right_eq_some, Option.some.injEq, Option.isNone_iff_eq_none] at step
    obtain ⟨idle, rfl⟩ := step
    exact ⟨_, handleRead_eq h.sound.agree elapsed, .taken elapsed idle rfl⟩
  | run =>
    simp only [TimerQueue.step] at step
    split at step
    · rename_i b batch
      split at step
      · rename_i it rest next
        obtain rfl := Option.some.inj step
        have inside : it ∈ s.expired := by
          rw [expired_some batch]
          exact h.next b batch it (by rw [next]; exact List.mem_cons_self)
        obtain ⟨t, live⟩ := batch_live h.sound.owned inside
        refine ⟨_, ?_, .ran b it rest batch next rfl⟩
        rw [run, deref, live]
        rfl
      · cases step
    · cases step
  | finish =>
    simp only [TimerQueue.step] at step
    split at step
    · rename_i b batch
      split at step
      · rename_i done
        obtain rfl := Option.some.inj step
        obtain ⟨ran, sound, restarts⟩ := finish_spec (b := b) (expired_some batch ▸ h.sound)
        exact ⟨_, ran, .finished b batch done sound restarts rfl⟩
      · cases step
    · cases step

theorem handedOver_fields (s : TimerQueue) (timer : Addr) (t : Timer) :
    (s.handedOver timer t).heap = s.heap ∧ (s.handedOver timer t).batch = s.batch := by
  unfold handedOver
  split <;> exact ⟨rfl, rfl⟩

theorem Inv.keep (h : s.Inv) (sound : s'.Sound s.expired) (batch : s'.batch = s.batch)
    (heap : ∀ e ∈ s.expired, s'.heap e.timer = s.heap e.timer) : s'.Inv := by
  refine ⟨?_, ?_, ?_⟩
  · rw [show s'.expired = s.expired by rw [expired, expired, batch]]
    exact sound
  · rw [batch]
    exact h.next
  · intro b eq
    rw [batch] at eq
    rw [← h.sequences b eq]
    refine List.map_congr_left fun e member => sequenceAt_congr (heap e ?_)
    rw [expired_some eq]
    exact member

theorem effect_inv {label : Label} (h : s.Inv) (effect : s.Effect s' label) : s'.Inv := by
  cases effect with
  | tick elapsed eq =>
    subst eq
    exact h.keep (h.sound.of_eq rfl rfl rfl rfl rfl rfl rfl) rfl fun _ _ => rfl
  | created timer when interval below free eq =>
    subst eq
    refine h.keep (newTimer_sound h.sound free when interval) rfl fun e member => ?_
    obtain ⟨t, live⟩ := batch_live h.sound.owned member
    refine Function.update_of_ne (fun same => ?_) _ _
    rw [same, free] at live
    cases live
  | handed timer t member live eq =>
    subst eq
    obtain ⟨heap, batch⟩ := handedOver_fields s timer t
    refine h.keep ?_ batch fun _ _ => by rw [heap]
    unfold handedOver
    split
    · exact resetTimerfd_sound (added_sound h.sound member live) _
    · exact added_sound h.sound member live
  | canceled timerId t live number member eq =>
    subst eq
    obtain ⟨_, others⟩ := h.sound.owned.inside member
    exact h.keep (removed_sound h.sound live member) rfl fun e inside => Function.update_of_ne (others e inside) _ _
  | noted timerId inactive eq =>
    subst eq
    exact h.keep (h.sound.of_eq rfl rfl rfl rfl rfl rfl rfl) rfl fun _ _ => rfl
  | taken elapsed idle eq =>
    subst eq
    have sound := taken_sound (expired_none idle ▸ h.sound) elapsed
    refine ⟨sound, fun b eq e member => ?_, fun b eq => ?_⟩
    · obtain rfl := Option.some.inj eq
      exact member
    · obtain rfl := Option.some.inj eq
      rfl
  | ran b it rest batch next eq =>
    subst eq
    refine ⟨?_, fun b' eq e member => ?_, fun b' eq => ?_⟩
    · have sound := h.sound
      rw [expired_some batch] at sound
      exact sound.of_eq rfl rfl rfl rfl rfl rfl rfl
    · obtain rfl := Option.some.inj eq
      exact h.next b batch e (by rw [next]; exact List.mem_cons_of_mem _ member)
    · obtain rfl := Option.some.inj eq
      exact h.sequences b batch
  | finished b batch done sound restarts eq =>
    subst eq
    refine ⟨?_, nofun, nofun⟩
    have armed : (rearmed (s.settled b)).Sound [] := by
      unfold rearmed
      split
      · exact sound
      · split
        · exact resetTimerfd_sound sound _
        · exact sound
    exact armed.of_eq rfl rfl rfl rfl rfl rfl rfl

theorem rearmed_deleted (s : TimerQueue) : (rearmed s).deleted = s.deleted := by
  unfold rearmed
  split
  · rfl
  · split <;> rfl

theorem effect_deleted {label : Label} (effect : s.Effect s' label) : s.deleted <+: s'.deleted := by
  cases effect with
  | tick _ eq => exact eq ▸ List.prefix_rfl
  | created _ _ _ _ _ eq => exact eq ▸ List.prefix_rfl
  | handed timer t _ _ eq =>
    subst eq
    unfold handedOver
    split <;> exact List.prefix_rfl
  | canceled _ _ _ _ _ eq => exact eq ▸ List.prefix_append _ _
  | noted _ _ eq => exact eq ▸ List.prefix_rfl
  | taken _ _ eq => exact eq ▸ List.prefix_rfl
  | ran _ _ _ _ _ eq => exact eq ▸ List.prefix_rfl
  | finished b _ _ _ restarts eq =>
    subst eq
    show s.deleted <+: (rearmed (s.settled b)).deleted
    rw [rearmed_deleted]
    exact restarts.deleted

theorem initial_inv (init : timerQueue.init s) : s.Inv := by
  obtain ⟨_, eq⟩ := init
  rw [eq]
  refine ⟨⟨⟨fun e member => ?_, rfl⟩, fun timer => rfl, ?_⟩, nofun, nofun⟩
  · simp at member
  · refine ⟨nofun, nofun, by simp, List.nodup_nil, ?_⟩
    simp

theorem step_inv {label : Label} (h : s.Inv) (step : s.step label = some (.ok s')) : s'.Inv := by
  obtain ⟨_, ran, effect⟩ := step_effect h step
  obtain rfl := Except.ok.inj ran
  exact effect_inv h effect

theorem reachable_inv {guard : TimerQueue → Label → Prop} (h : timerQueue.Reachable guard s) : s.Inv :=
  h.invariant (fun _ init => initial_inv init) fun _ _ _ _ inv _ step => step_inv inv step

theorem steps_inv {guard : TimerQueue → Label → Prop} (h : s.Inv) (steps : timerQueue.Steps guard s s') :
    s'.Inv := by
  induction steps with
  | refl => exact h
  | tail _ next ih =>
    obtain ⟨_, _, step⟩ := next
    exact step_inv ih step

/-! ### Fields that `rearmed` leaves, and addresses -/

theorem rearmed_frame (s : TimerQueue) :
    rearmed s = { s with timerfd := (rearmed s).timerfd, settimes := (rearmed s).settimes } := by
  unfold rearmed
  split
  · rfl
  · split <;> rfl

/-- A timer is at an address before that of the sentry. -/
def Below (s : TimerQueue) : Prop := ∀ timer t, s.heap timer = some t → timer < UINTPTR_MAX

theorem effect_below {label : Label} (inv : s.Inv) (h : s.Below) (effect : s.Effect s' label) : s'.Below := by
  intro other t live
  cases effect with
  | tick _ eq | noted _ _ eq | taken _ _ eq | ran _ _ _ _ _ eq =>
    subst eq
    exact h other t live
  | created timer when interval below _ eq =>
    subst eq
    by_cases same : other = timer
    · exact same ▸ below
    · exact h other t ((Function.update_of_ne same _ _).symm.trans live)
  | handed timer u _ _ eq =>
    subst eq
    rw [(handedOver_fields s timer u).1] at live
    exact h other t live
  | canceled timerId u found _ _ eq =>
    subst eq
    by_cases same : other = timerId.1
    · rw [same]
      exact h timerId.1 u found
    · exact h other t ((Function.update_of_ne same _ _).symm.trans live)
  | finished b batch _ _ _ eq =>
    subst eq
    have sound : s.Sound b.expired := expired_some batch ▸ inv.sound
    have before : (s.settled b).heap other = some t := by
      rw [rearmed_frame] at live
      exact live
    by_cases inside : ∃ e ∈ b.expired, e.timer = other
    · obtain ⟨e, member, rfl⟩ := inside
      obtain ⟨u, found⟩ := batch_live sound.owned member
      exact h e.timer u found
    · rw [(settled_restarted sound).other other fun e member same => inside ⟨e, member, same⟩] at before
      exact h other t before

theorem reachable_below {guard : TimerQueue → Label → Prop} (h : timerQueue.Reachable guard s) : s.Below := by
  refine h.invariant ?_ fun a label b reached before _ step => ?_
  · rintro a ⟨_, eq⟩ timer t live
    rw [eq] at live
    cases live
  · have inv := reachable_inv reached
    obtain ⟨s', ran, effect⟩ := step_effect inv step
    obtain rfl := Except.ok.inj ran
    exact effect_below inv before effect

/-! ### Ownership in every run -/

/-- The timer with this number is in both sets. -/
def InSets (s : TimerQueue) (sequence : Nat) : Prop := ∃ e ∈ s.timers, (e.timer, sequence) ∈ s.activeTimers

def InBatch (s : TimerQueue) (sequence : Nat) : Prop := ∃ b, s.batch = some b ∧ sequence ∈ b.sequences

theorem Inv.inSets (h : s.Inv) {sequence : Nat} (inside : s.InSets sequence) :
    ∃ e ∈ s.timers, ∃ t, s.heap e.timer = some t ∧ t.sequence = sequence := by
  obtain ⟨e, member, active⟩ := inside
  obtain ⟨t, live, number, _⟩ := h.sound.agree.mem_active.mp active
  exact ⟨e, member, t, live, number⟩

theorem Inv.inBatch (h : s.Inv) {sequence : Nat} (inside : s.InBatch sequence) :
    ∃ e ∈ s.expired, ∃ t, s.heap e.timer = some t ∧ t.sequence = sequence := by
  obtain ⟨b, batch, member⟩ := inside
  rw [← h.sequences b batch, List.mem_map] at member
  obtain ⟨e, member, number⟩ := member
  rw [← expired_some batch] at member
  obtain ⟨t, live⟩ := batch_live h.sound.owned member
  exact ⟨e, member, t, live, by rw [← sequenceAt_eq live, number]⟩

theorem Inv.placed (h : s.Inv) (live : s.heap timer = some t) (out : timer ∉ s.waiting) :
    s.InSets t.sequence ∨ s.InBatch t.sequence := by
  have one := h.sound.owned timer
  unfold places at one
  rw [if_neg out, live] at one
  by_cases inside : 0 < s.timers.val.countP (fun e => e.timer = timer)
  · obtain ⟨e, member, rfl⟩ := timers_pos.mp inside
    obtain ⟨u, found, key⟩ := h.sound.agree.keys e member
    obtain rfl : u = t := Option.some.inj (found.symm.trans live)
    refine .inl ⟨e, member, h.sound.agree.mem_active.mpr ⟨u, live, rfl, ?_⟩⟩
    rw [key]
    exact member
  · have pos : 0 < s.expired.countP (fun e => decide (e.timer = timer)) := by
      simp only [Option.isSome_some, if_true] at one
      omega
    obtain ⟨e, member, rfl⟩ := batch_pos.mp pos
    cases batch : s.batch with
    | none =>
      rw [expired_none batch] at member
      cases member
    | some b =>
      refine .inr ⟨b, batch, ?_⟩
      rw [← h.sequences b batch, ← sequenceAt_eq live]
      rw [expired_some batch] at member
      exact List.mem_map_of_mem member

theorem Inv.apart (h : s.Inv) {sequence : Nat} :
    ¬ (s.InSets sequence ∧ s.InBatch sequence) ∧ ¬ (s.InSets sequence ∧ sequence ∈ s.deleted) ∧
      ¬ (s.InBatch sequence ∧ sequence ∈ s.deleted) := by
  refine ⟨?_, ?_, ?_⟩
  · rintro ⟨sets, batch⟩
    obtain ⟨e, member, t, live, number⟩ := h.inSets sets
    obtain ⟨e', member', t', live', number'⟩ := h.inBatch batch
    have same := h.sound.named.distinct _ _ _ _ live' live (number'.trans number.symm)
    exact (h.sound.owned.inside member).2 e' member' same
  · rintro ⟨sets, gone⟩
    obtain ⟨e, _, t, live, rfl⟩ := h.inSets sets
    exact (h.sound.named.live _ t live).2 gone
  · rintro ⟨batch, gone⟩
    obtain ⟨e, _, t, live, rfl⟩ := h.inBatch batch
    exact (h.sound.named.live _ t live).2 gone

/-- `timers_` and `activeTimers_` agree, every timer that was handed over is in exactly one place, the entries
of a batch stay entries of its timers, a deleted timer stays deleted, and no assertion fails. -/
theorem timers_consistent (h : timerQueue.Reachable Lib.Machine.anyStep s) :
    Set.BijOn s.activeOf s.timers s.activeTimers ∧
    (∀ e ∈ s.timers, ∃ t, s.heap e.timer = some t ∧ t.expiration = e.when) ∧
    (∀ sequence ∈ s.handed, (s.InSets sequence ∨ s.InBatch sequence ∨ sequence ∈ s.deleted) ∧
      ¬ (s.InSets sequence ∧ s.InBatch sequence) ∧ ¬ (s.InSets sequence ∧ sequence ∈ s.deleted) ∧
      ¬ (s.InBatch sequence ∧ sequence ∈ s.deleted)) ∧
    (∀ b, s.batch = some b → b.expired.map (fun e => (s.heap e.timer).map Timer.sequence) = b.sequences.map some) ∧
    s.deleted.Nodup ∧
    (∀ s', timerQueue.Steps Lib.Machine.anyStep s s' → s.deleted <+: s'.deleted) ∧
    ∀ label fault, s.step label ≠ some (.error fault) := by
  have inv := reachable_inv h
  refine ⟨⟨?_, inv.sound.agree.injOn, ?_⟩, inv.sound.agree.keys, fun sequence member => ⟨?_, inv.apart⟩,
    fun b batch => ?_, inv.sound.named.nodup, fun s' steps => ?_, fun label fault failed => ?_⟩
  · intro e member
    rw [inv.sound.agree.active]
    exact Finset.mem_image_of_mem _ member
  · rw [inv.sound.agree.active, Finset.coe_image]
    exact Set.surjOn_image _ _
  · rcases (inv.sound.named.handed sequence).mp member with gone | ⟨timer, t, live, rfl, out⟩
    · exact .inr (.inr gone)
    · exact (inv.placed live out).imp_right .inl
  · rw [← inv.sequences b batch, List.map_map]
    refine List.map_congr_left fun e member => ?_
    rw [← expired_some batch] at member
    obtain ⟨t, live⟩ := batch_live inv.sound.owned member
    rw [live, Function.comp, sequenceAt_eq live]
    rfl
  · refine steps.invariant (P := fun a => s.deleted <+: a.deleted) h List.prefix_rfl ?_
    intro a label b reached before _ step
    obtain ⟨s', ran, effect⟩ := step_effect (reachable_inv reached) step
    obtain rfl := Except.ok.inj ran
    exact before.trans (effect_deleted effect)
  · obtain ⟨s', ran, _⟩ := step_effect inv failed
    cases ran

/-- Every second, and once. -/
def everySecond : Seconds := ⟨true, 1000000, by decide⟩

def once : Seconds := ⟨false, 0, by decide⟩

/-- Two timers expire; the first cancels itself and the second, and a third is made where an earlier one was. -/
theorem timers_consistent_canceled :
    ∃ s, timerQueue.Reachable Lib.Machine.anyStep s ∧ s.deleted = [3, 1, 2] ∧ s.InSets 4 ∧ s.deleted.Nodup := by
  obtain ⟨s, reached, deleted, inside⟩ := Lib.Machine.exec_reaches timerQueue Lib.Machine.anyStep { clock := 1000 }
    [.newTimer 16 1500 everySecond, .addTimerInLoop 16, .newTimer 32 1600 once, .addTimerInLoop 32,
      .newTimer 48 9000 once, .addTimerInLoop 48, .tick 700, .handleRead 3, .run, .cancelInLoop (16, 1),
      .cancelInLoop (48, 3), .newTimer 48 (-5) once, .addTimerInLoop 48, .cancelInLoop (32, 2),
      .cancelInLoop (48, 3), .run, .finish]
    (fun s => s.deleted = [3, 1, 2] ∧ ∃ e ∈ s.timers, (e.timer, 4) ∈ s.activeTimers)
    ⟨by decide, rfl⟩ (by decide +kernel)
  exact ⟨s, reached, deleted, inside, (timers_consistent reached).2.2.2.2.1⟩

end TimerQueue

end Dserver.Net
