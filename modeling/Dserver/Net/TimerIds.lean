import Dserver.Net.LoopTimers
import Dserver.Net.TimerCancel

/-!
# Ids of timers, and cancels from other threads

`addTimer` reads `sequence()` behind its `runInLoop`. In another thread the loop may have run the timer and
deleted it by then; a timer that repeats stays until it is cancelled, and nobody has its id yet. A cancel
from another thread is queued behind the functor that adds the timer, and so finds it added.
-/

namespace Dserver.Net

namespace TimerQueue

variable {s s' : TimerQueue} {label : Label} {timer : Addr} {t : Timer} {timerId : ActiveTimer}

instance (s : TimerQueue) (timerId : ActiveTimer) : Decidable (s.Alive timerId) :=
  decidable_of_iff ((s.heap timerId.1).map Timer.sequence = some timerId.2) (Option.map_eq_some_iff)

theorem restart_repeat (t : Timer) (now : Timestamp) : (t.restart now).repeat_ = t.repeat_ := by
  unfold Timer.restart
  split <;> rfl

/-- Only the cancel of a timer, or the end of a batch that it is in, takes it away. -/
theorem effect_lives (inv : s.Inv) (effect : s.Effect s' label) (live : s.heap timer = some t) :
    (∃ t', s'.heap timer = some t' ∧ t'.sequence = t.sequence ∧ t'.repeat_ = t.repeat_) ∨
      label = .cancelInLoop (timer, t.sequence) ∨
      (label = .finish ∧ timer ∉ s.waiting ∧ ¬ s.Again timer t) := by
  cases effect with
  | tick _ eq | noted _ _ eq | taken _ _ eq | ran _ _ _ _ _ eq =>
    subst eq
    exact .inl ⟨t, live, rfl, rfl⟩
  | created other when interval _ free eq =>
    subst eq
    have different : timer ≠ other := by
      rintro rfl
      rw [free] at live
      cases live
    exact .inl ⟨t, (Function.update_of_ne different _ _).trans live, rfl, rfl⟩
  | handed other u _ _ eq =>
    rw [eq, (handedOver_fields s other u).1]
    exact .inl ⟨t, live, rfl, rfl⟩
  | canceled other was found number _ eq =>
    subst eq
    by_cases same : timer = other.1
    · obtain rfl : was = t := by
        rw [same, found] at live
        exact Option.some.inj live
      exact .inr (.inl (by rw [same, number]))
    · exact .inl ⟨t, (Function.update_of_ne same _ _).trans live, rfl, rfl⟩
  | finished b batch _ _ _ eq =>
    subst eq
    have sound : s.Sound b.expired := expired_some batch ▸ inv.sound
    have restarted := settled_restarted sound
    rw [rearmed_frame]
    by_cases inside : ∃ e ∈ b.expired, e.timer = timer
    · obtain ⟨e, member, rfl⟩ := inside
      have after := restarted.each e member t live
      by_cases again : s.Again e.timer t
      · rw [if_pos again] at after
        exact .inl ⟨_, after, restart_sequence .., restart_repeat ..⟩
      · refine .inr (.inr ⟨rfl, fun waiting => ?_, again⟩)
        obtain ⟨_, out, _⟩ := sound.owned.waiting waiting
        exact out e member rfl
    · refine .inl ⟨t, ?_, rfl, rfl⟩
      rw [← live]
      exact restarted.other timer fun e member same => inside ⟨e, member, same⟩

theorem effect_numCreated (effect : s.Effect s' label) : s.numCreated ≤ s'.numCreated := by
  cases effect with
  | tick _ eq | noted _ _ eq | taken _ _ eq | ran _ _ _ _ _ eq | canceled _ _ _ _ _ eq => exact eq ▸ Nat.le_refl _
  | created _ _ _ _ _ eq => exact eq ▸ Nat.le_succ _
  | handed timer t _ _ eq =>
    subst eq
    unfold handedOver
    split <;> exact Nat.le_refl _
  | finished b _ _ _ _ eq =>
    subst eq
    show s.numCreated ≤ (rearmed (s.settled b)).numCreated
    rw [rearmed_frame, settled_frame]

theorem effect_canceling (effect : s.Effect s' label) (member : timerId ∈ s'.cancelingTimers) :
    timerId ∈ s.cancelingTimers ∨ label = .cancelInLoop timerId := by
  cases effect with
  | tick _ eq | created _ _ _ _ _ eq | ran _ _ _ _ _ eq | canceled _ _ _ _ _ eq =>
    subst eq
    exact .inl member
  | handed timer t _ _ eq =>
    subst eq
    unfold handedOver at member
    split at member <;> exact .inl member
  | noted other _ eq =>
    subst eq
    unfold noted at member
    dsimp only at member
    split at member
    · rcases Finset.mem_insert.mp member with rfl | old
      · exact .inr rfl
      · exact .inl old
    · exact .inl member
  | taken _ _ eq =>
    subst eq
    simp [taken] at member
  | finished b _ _ _ _ eq =>
    subst eq
    change timerId ∈ (rearmed (s.settled b)).cancelingTimers at member
    rw [rearmed_frame, settled_frame] at member
    exact .inl member

/-- A new timer has a new number. -/
theorem effect_alive (inv : s.Inv) (effect : s.Effect s' label) (created : timerId.2 ≤ s.numCreated)
    (alive : s'.Alive timerId) : s.Alive timerId := by
  obtain ⟨t, live, number⟩ := alive
  cases effect with
  | tick _ eq | noted _ _ eq | taken _ _ eq | ran _ _ _ _ _ eq =>
    subst eq
    exact ⟨t, live, number⟩
  | created other when interval _ _ eq =>
    subst eq
    by_cases same : timerId.1 = other
    · have value : (s.newTimer other when interval).heap other = some _ := Function.update_self ..
      rw [same, value, Option.some.injEq] at live
      rw [← live] at number
      simp only at number
      omega
    · exact ⟨t, (Function.update_of_ne same _ _).symm.trans live, number⟩
  | handed other u _ _ eq =>
    rw [eq, (handedOver_fields s other u).1] at live
    exact ⟨t, live, number⟩
  | canceled other was _ _ _ eq =>
    subst eq
    by_cases same : timerId.1 = other.1
    · have deleted : (s.removed other.1 was).heap other.1 = none := Function.update_self ..
      rw [same, deleted] at live
      cases live
    · exact ⟨t, (Function.update_of_ne same _ _).symm.trans live, number⟩
  | finished b batch _ _ _ eq =>
    subst eq
    have sound : s.Sound b.expired := expired_some batch ▸ inv.sound
    have before : (s.settled b).heap timerId.1 = some t := by
      rw [rearmed_frame] at live
      exact live
    obtain ⟨old, _⟩ | ⟨_, _, _, u, found, _, rfl⟩ := settled_heap sound before
    · exact ⟨t, old, number⟩
    · exact ⟨u, found, by rw [← number, restart_sequence]⟩

/-- The timer has been made and not handed over. -/
def Waits (s : TimerQueue) (timerId : ActiveTimer) : Prop := s.Alive timerId ∧ timerId.1 ∈ s.waiting

theorem effect_waits (inv : s.Inv) (effect : s.Effect s' label) (created : timerId.2 ≤ s.numCreated)
    (waits : s'.Waits timerId) : s.Waits timerId ∧ label ≠ .addTimerInLoop timerId.1 := by
  obtain ⟨alive, member⟩ := waits
  have before := effect_alive inv effect created alive
  have waiting := effect_waiting effect
  refine ⟨⟨before, ?_⟩, ?_⟩
  · cases effect with
    | created timer _ _ _ free _ =>
      rw [waiting] at member
      rcases Finset.mem_insert.mp member with same | old
      · obtain ⟨t, live, _⟩ := before
        rw [same, free] at live
        cases live
      · exact old
    | handed timer _ _ _ _ =>
      rw [waiting] at member
      exact Finset.mem_of_mem_erase member
    | _ =>
      rw [waiting] at member
      exact member
  · rintro rfl
    rw [waiting] at member
    exact Finset.notMem_erase _ _ member

end TimerQueue

namespace LoopTimers

variable {s s' : LoopTimers} {label : Label} {timerId : TimerQueue.ActiveTimer} {t : Tid} {made : Adding}

/-- Only ids that were returned are cancelled, and the number of a timer that runs once is read by another
thread while the timer lives. -/
def InTime (s : LoopTimers) : Label → Prop
  | .cancel _ timerId => timerId ∈ s.returned
  | .sequence t => ∀ made ∈ s.adding t, t ≠ s.loop.threadId → made.repeat_ = false →
      s.timers.Alive (made.timer, made.created)
  | _ => True

instance (s : LoopTimers) : (label : Label) → Decidable (s.InTime label)
  | .cancel _ timerId => inferInstanceAs (Decidable (timerId ∈ s.returned))
  | .sequence t => inferInstanceAs (Decidable (∀ made ∈ s.adding t, _ → _ → s.timers.Alive _))
  | .loop _ | .timers _ | .newTimer .. | .post _ | .queueInLoop _ | .runFunctor => instDecidableTrue

/-! ### Numbers -/

/-- The timers of the threads inside `addTimer` have numbers of their own, and live where nobody else can
end them. -/
structure Ids (s : LoopTimers) : Prop where
  created : ∀ t made, s.adding t = some made → made.created ≤ s.timers.numCreated
  distinct : ∀ t u made other, s.adding t = some made → s.adding u = some other → made.created = other.created → t = u
  unreturned : ∀ t made, s.adding t = some made → ∀ timerId ∈ s.returned, timerId.2 ≠ made.created
  lives : ∀ t made, s.adding t = some made → made.posted = false ∨ t = s.loop.threadId ∨ made.repeat_ = true →
    ∃ timer, s.timers.heap made.timer = some timer ∧ timer.sequence = made.created ∧ timer.repeat_ = made.repeat_
  returned : ∀ timerId ∈ s.returned, timerId.2 ≤ s.timers.numCreated
  nodup : (s.returned.map Prod.snd).Nodup
  canceling : ∀ timerId ∈ s.timers.cancelingTimers, timerId ∈ s.returned

theorem Ids.on_loop (h : s.Ids) {loop : EventLoop Functor} (same : loop.threadId = s.loop.threadId) :
    Ids { s with loop } := by
  refine ⟨h.created, h.distinct, h.unreturned, fun t made adding place => ?_, h.returned, h.nodup, h.canceling⟩
  exact h.lives t made adding (same ▸ place)

theorem Ids.on_timers (h : s.Ids) (inv : s.Inv) {label : TimerQueue.Label} {timers : TimerQueue}
    (effect : s.timers.Effect timers label) (known : ∀ timerId, label = .cancelInLoop timerId → timerId ∈ s.returned)
    (idle : label = .finish → s.adding s.loop.threadId = none) : Ids { s with timers } := by
  have more := TimerQueue.effect_numCreated effect
  refine ⟨fun t made adding => Nat.le_trans (h.created t made adding) more, h.distinct, h.unreturned,
    fun t made adding place => ?_, fun timerId member => Nat.le_trans (h.returned timerId member) more, h.nodup,
    fun timerId member => ?_⟩
  · obtain ⟨timer, live, number, repeats⟩ := h.lives t made adding place
    rcases TimerQueue.effect_lives (TimerQueue.reachable_inv inv.timers) effect live with
      ⟨after, live', number', repeats'⟩ | canceled | ⟨finished, handed, ended⟩
    · exact ⟨after, live', number'.trans number, repeats'.trans repeats⟩
    · rw [number] at canceled
      exact absurd rfl (h.unreturned t made adding _ (known _ canceled))
    · exfalso
      rcases place with fresh | rfl | again
      · exact handed (inv.placed.held t made.timer (unposted_fresh adding fresh)).1
      · rw [idle finished] at adding
        cases adding
      · refine ended ⟨repeats.trans again, fun member => ?_⟩
        exact h.unreturned t made adding _ (h.canceling _ member) number
  · rcases TimerQueue.effect_canceling effect member with before | canceled
    · exact h.canceling timerId before
    · exact known timerId canceled

theorem Ids.post (h : s.Ids) (adding : s.adding t = some made) (fresh : made.posted = false) :
    Ids { s with adding := Function.update s.adding t (some { made with posted := true }) } := by
  -- only the flag changes, of a timer that lives
  have old : ∀ u other, Function.update s.adding t (some { made with posted := true }) u = some other →
      ∃ before, s.adding u = some before ∧ other.timer = before.timer ∧ other.created = before.created ∧
        other.repeat_ = before.repeat_ ∧ (u = t ∧ before.posted = false ∨ other = before) := by
    intro u other eq
    by_cases same : u = t
    · rw [same, Function.update_self] at eq
      obtain rfl := Option.some.inj eq
      exact ⟨made, same ▸ adding, rfl, rfl, rfl, .inl ⟨same, fresh⟩⟩
    · rw [Function.update_of_ne same] at eq
      exact ⟨other, eq, rfl, rfl, rfl, .inr rfl⟩
  refine ⟨fun u other eq => ?_, fun u v other another eq eq' number => ?_, fun u other eq => ?_,
    fun u other eq place => ?_, h.returned, h.nodup, h.canceling⟩
  · obtain ⟨before, was, _, created, _⟩ := old u other eq
    rw [created]
    exact h.created u before was
  · obtain ⟨before, was, _, created, _⟩ := old u other eq
    obtain ⟨before', was', _, created', _⟩ := old v another eq'
    exact h.distinct u v before before' was was' (created.symm.trans (number.trans created'))
  · obtain ⟨before, was, _, created, _⟩ := old u other eq
    rw [created]
    exact h.unreturned u before was
  · obtain ⟨before, was, timer, created, repeats, which⟩ := old u other eq
    rw [timer, created, repeats]
    refine h.lives u before was ?_
    rcases which with ⟨_, fresh⟩ | rfl
    · exact .inl fresh
    · exact place

theorem Ids.create (h : s.Ids) {timer : Addr} {when : Timestamp} {interval : Seconds}
    (heap : s.timers.heap timer = none) :
    Ids { s with
      timers := s.timers.newTimer timer when interval
      adding := Function.update s.adding t
        (some ⟨timer, false, s.timers.numCreated + 1, interval.positive⟩) } := by
  have others : ∀ u other, Function.update s.adding t
      (some ⟨timer, false, s.timers.numCreated + 1, interval.positive⟩) u = some other →
      u = t ∧ other = ⟨timer, false, s.timers.numCreated + 1, interval.positive⟩ ∨
      u ≠ t ∧ s.adding u = some other ∧ other.created ≤ s.timers.numCreated := by
    intro u other eq
    by_cases same : u = t
    · rw [same, Function.update_self] at eq
      exact .inl ⟨same, (Option.some.inj eq).symm⟩
    · rw [Function.update_of_ne same] at eq
      exact .inr ⟨same, eq, h.created u other eq⟩
  refine ⟨fun u other eq => ?_, fun u v other another eq eq' number => ?_, fun u other eq timerId member => ?_,
    fun u other eq place => ?_, fun timerId member => Nat.le_succ_of_le (h.returned timerId member), h.nodup,
    h.canceling⟩
  · rcases others u other eq with ⟨_, rfl⟩ | ⟨_, _, le⟩
    · exact Nat.le_refl _
    · exact Nat.le_succ_of_le le
  · rcases others u other eq with ⟨at_t, rfl⟩ | ⟨_, was, le⟩ <;>
      rcases others v another eq' with ⟨at_t', rfl⟩ | ⟨_, was', le'⟩
    · exact at_t.trans at_t'.symm
    · simp only at number
      omega
    · simp only at number
      omega
    · exact h.distinct u v other another was was' number
  · rcases others u other eq with ⟨_, rfl⟩ | ⟨_, was, _⟩
    · have le := h.returned timerId member
      simp only
      omega
    · exact h.unreturned u other was timerId member
  · rcases others u other eq with ⟨_, rfl⟩ | ⟨_, was, _⟩
    · exact ⟨_, Function.update_self .., rfl, rfl⟩
    · obtain ⟨before, live, number, repeats⟩ := h.lives u other was place
      refine ⟨before, (Function.update_of_ne ?_ _ _).trans live, number, repeats⟩
      intro same
      rw [same, heap] at live
      cases live

theorem Ids.returns (h : s.Ids) (adding : s.adding t = some made) :
    Ids { s with
      adding := Function.update s.adding t none, returned := s.returned ++ [(made.timer, made.created)] } := by
  have others : ∀ u other, Function.update s.adding t none u = some other → s.adding u = some other ∧ u ≠ t := by
    intro u other eq
    by_cases same : u = t
    · rw [same, Function.update_self] at eq
      cases eq
    · rw [Function.update_of_ne same] at eq
      exact ⟨eq, same⟩
  refine ⟨fun u other eq => h.created u other (others u other eq).1, fun u v other another eq eq' =>
    h.distinct u v other another (others u other eq).1 (others v another eq').1, fun u other eq timerId member => ?_,
    fun u other eq => h.lives u other (others u other eq).1, fun timerId member => ?_, ?_, fun timerId member =>
    List.mem_append_left _ (h.canceling timerId member)⟩
  · obtain ⟨was, different⟩ := others u other eq
    rcases List.mem_append.mp member with old | new
    · exact h.unreturned u other was timerId old
    · obtain rfl := List.mem_singleton.mp new
      exact fun same => different (h.distinct t u made other adding was same).symm
  · rcases List.mem_append.mp member with old | new
    · exact h.returned timerId old
    · obtain rfl := List.mem_singleton.mp new
      exact h.created t made adding
  · rw [List.map_append, List.nodup_append]
    refine ⟨h.nodup, List.nodup_singleton _, fun a first b last => ?_⟩
    obtain rfl := List.mem_singleton.mp last
    obtain ⟨timerId, member, rfl⟩ := List.mem_map.mp first
    exact h.unreturned t made adding timerId member

/-! ### The order of the functors -/

/-- The functor that adds a timer is queued before its id is returned, and so before any cancel of it. -/
structure Ordered (s : LoopTimers) : Prop where
  returned : ∀ timerId ∈ s.returned, s.timers.Waits timerId → .addTimerInLoop timerId.1 ∈ s.loop.queue.waiting
  queued : ∀ before timerId after, s.loop.queue.waiting = before ++ .cancelInLoop timerId :: after →
    timerId ∈ s.returned ∧ (s.timers.Waits timerId → .addTimerInLoop timerId.1 ∈ before)

theorem Ordered.on_loop (h : s.Ordered) {loop : EventLoop Functor}
    (same : loop.queue.waiting = s.loop.queue.waiting) : Ordered { s with loop } := by
  refine ⟨fun timerId member waits => ?_, fun before timerId after eq => h.queued before timerId after ?_⟩
  · rw [same]
    exact h.returned timerId member waits
  · exact same.symm.trans eq

theorem Ordered.on_timers (h : s.Ordered) (ids : s.Ids) (inv : s.Inv) {label : TimerQueue.Label}
    {timers : TimerQueue} (effect : s.timers.Effect timers label) : Ordered { s with timers } := by
  have waits : ∀ timerId ∈ s.returned, timers.Waits timerId → s.timers.Waits timerId := fun timerId member after =>
    (TimerQueue.effect_waits (TimerQueue.reachable_inv inv.timers) effect (ids.returned timerId member) after).1
  refine ⟨fun timerId member after => h.returned timerId member (waits timerId member after),
    fun before timerId rest eq => ?_⟩
  obtain ⟨member, first⟩ := h.queued before timerId rest eq
  exact ⟨member, fun after => first (waits timerId member after)⟩

theorem Ordered.push (h : s.Ordered) (t : Tid) {cb : Functor}
    (known : ∀ timerId, cb = .cancelInLoop timerId → timerId ∈ s.returned) :
    Ordered { s with loop := s.loop.queueInLoop t cb } := by
  have pushed := (EventLoop.queueInLoop_pushed s.loop t cb).waiting
  refine ⟨fun timerId member waits => ?_, fun before timerId after eq => ?_⟩
  · rw [pushed]
    exact List.mem_append_left _ (h.returned timerId member waits)
  · rw [pushed] at eq
    rcases List.eq_nil_or_concat after with rfl | ⟨rest, last, rfl⟩
    · obtain ⟨rfl, same⟩ := List.append_inj' eq rfl
      have member := known timerId (List.cons.inj same).1
      exact ⟨member, h.returned timerId member⟩
    · rw [List.concat_eq_append, ← List.cons_append, ← List.append_assoc] at eq
      exact h.queued before timerId rest (List.append_inj' eq rfl).1

/-- The first functor has been run, with this step of the `TimerQueue`. -/
theorem Ordered.pop (h : s.Ordered) (ids : s.Ids) (inv : s.Inv) {cb : Functor} {rest : List Functor}
    {label : TimerQueue.Label} {timers : TimerQueue} (head : s.loop.queue.batch = cb :: rest)
    (effect : s.timers.Effect timers label) (ran : ∀ timer, cb = .addTimerInLoop timer → label = .addTimerInLoop timer) :
    Ordered { s with loop := s.loop.runFunctor cb rest, timers } := by
  have queue := Lib.BatchQueue.pop_waiting head
  have left : ∀ timerId ∈ s.returned, timers.Waits timerId → ∀ functors : List Functor,
      (s.timers.Waits timerId → .addTimerInLoop timerId.1 ∈ cb :: functors) →
      .addTimerInLoop timerId.1 ∈ functors := by
    intro timerId member after functors found
    obtain ⟨before, other⟩ := TimerQueue.effect_waits (TimerQueue.reachable_inv inv.timers) effect
      (ids.returned timerId member) after
    rcases List.mem_cons.mp (found before) with first | later
    · exact absurd (ran timerId.1 first.symm) other
    · exact later
  refine ⟨fun timerId member after => ?_, fun before timerId behind eq => ?_⟩
  · refine left timerId member after _ fun waits => ?_
    have found := h.returned timerId member waits
    rw [queue] at found
    exact found
  · have whole : s.loop.queue.waiting = (cb :: before) ++ .cancelInLoop timerId :: behind := by
      rw [queue, List.cons_append]
      exact congrArg (cb :: ·) eq
    obtain ⟨member, first⟩ := h.queued (cb :: before) timerId behind whole
    exact ⟨member, fun after => left timerId member after before first⟩

theorem Ordered.returns (h : s.Ordered) (ids : s.Ids) (inv : s.Inv) (adding : s.adding t = some made)
    (posted : made.posted = true) :
    Ordered { s with
      adding := Function.update s.adding t none, returned := s.returned ++ [(made.timer, made.created)] } := by
  refine ⟨fun timerId member waits => ?_, fun before timerId after eq => ?_⟩
  · rcases List.mem_append.mp member with old | new
    · exact h.returned timerId old waits
    · obtain rfl := List.mem_singleton.mp new
      rcases inv.placed.somewhere made.timer waits.2 with queued | ⟨u, held⟩
      · exact queued
      · -- the thread that holds it has made it, and so is this one
        obtain ⟨⟨timer, live, number⟩, _⟩ := waits
        cases other : s.adding u with
        | none =>
          rw [unposted_none other] at held
          cases held
        | some another =>
          have fresh : another.posted = false := by
            by_contra posted
            rw [unposted_posted other (by simpa using posted)] at held
            cases held
          rw [unposted_fresh other fresh, Option.some.injEq] at held
          obtain ⟨timer', live', number', _⟩ := ids.lives u another other (.inl fresh)
          have same : timer' = timer := by
            rw [held] at live'
            exact Option.some.inj (live'.symm.trans live)
          have created : made.created = another.created := number.symm.trans (same ▸ number')
          obtain rfl := ids.distinct t u made another adding other created
          rw [adding, Option.some.injEq] at other
          rw [← other, posted] at fresh
          cases fresh
  · obtain ⟨member, first⟩ := h.queued before timerId after eq
    exact ⟨List.mem_append_left _ member, first⟩

theorem Ordered.on_adding (h : s.Ordered) (adding : Tid → Option Adding) : Ordered { s with adding } :=
  ⟨h.returned, h.queued⟩

/-- The timer whose number is read is the one that was made, if it lives. -/
theorem read_number (ids : s.Ids) (allowed : s.InTime (.sequence t)) (adding : s.adding t = some made)
    {timer : Timer} (live : s.timers.heap made.timer = some timer) : timer.sequence = made.created := by
  by_cases safe : t = s.loop.threadId ∨ made.repeat_ = true
  · obtain ⟨other, live', number, _⟩ := ids.lives t made adding (.inr safe)
    obtain rfl := Option.some.inj (live.symm.trans live')
    exact number
  · rw [not_or, Bool.not_eq_true] at safe
    obtain ⟨other, live', number⟩ := allowed made adding safe.1 safe.2
    obtain rfl := Option.some.inj (live.symm.trans live')
    exact number

theorem effect_ids (inv : s.Inv) (ids : s.Ids) (ordered : s.Ordered) (allowed : s.InTime label)
    (effect : s.Effect s' label) : s'.Ids ∧ s'.Ordered := by
  have sound := TimerQueue.reachable_inv inv.timers
  cases effect with
  | loop label loop may step eq =>
    subst eq
    exact ⟨ids.on_loop (EventLoop.step_threadId step),
      ordered.on_loop (EventLoop.step_plain inv.loop (mayLoop_plain may) step).1⟩
  | timers label timers may step eq =>
    subst eq
    have effect := TimerQueue.step_effect_ok sound step
    refine ⟨ids.on_timers inv effect ?_ ?_, ordered.on_timers ids inv effect⟩
    · rintro timerId rfl
      cases may
    · rintro rfl
      simpa [mayTimers] using may
  | created t timer request timers made free step value eq =>
    subst eq
    have effect := TimerQueue.step_effect_ok sound step
    have moved := ordered.on_timers ids inv effect
    cases effect with
    | created _ _ _ _ heap eq =>
      subst eq value
      exact ⟨ids.create heap, moved.on_adding _⟩
  | postedHere t made timers own adding fresh ran eq =>
    subst eq
    have member := (inv.placed.held t made.timer (unposted_fresh adding fresh)).1
    have effect := TimerQueue.step_effect_ok sound (add_step member ran)
    have moved : Ids { s with timers } := by
      refine ids.on_timers inv effect ?_ ?_
      · rintro timerId ⟨⟩
      · rintro ⟨⟩
    exact ⟨moved.post adding fresh, (ordered.on_timers ids inv effect).on_adding _⟩
  | postedThere t made other adding fresh eq =>
    subst eq
    have pushed := EventLoop.queueInLoop_pushed s.loop t (.addTimerInLoop made.timer)
    have moved : Ordered { s with loop := s.loop.queueInLoop t (.addTimerInLoop made.timer) } := by
      refine ordered.push t ?_
      rintro timerId ⟨⟩
    exact ⟨(ids.on_loop pushed.threadId).post adding fresh, moved.on_adding _⟩
  | returned t made timer adding posted live eq =>
    subst eq
    rw [read_number ids allowed adding live]
    exact ⟨ids.returns adding, ordered.returns ids inv adding posted⟩
  | canceledHere t timerId timers own ran eq =>
    subst eq
    have effect := TimerQueue.step_effect_ok sound (cancel_step ran)
    refine ⟨ids.on_timers inv effect ?_ ?_, ordered.on_timers ids inv effect⟩
    · rintro other ⟨⟩
      exact allowed
    · rintro ⟨⟩
  | canceledThere t timerId other eq =>
    subst eq
    refine ⟨ids.on_loop (EventLoop.queueInLoop_pushed ..).threadId, ordered.push t ?_⟩
    rintro other ⟨⟩
    exact allowed
  | queued t eq =>
    subst eq
    refine ⟨ids.on_loop (EventLoop.queueInLoop_pushed ..).threadId, ordered.push t ?_⟩
    rintro other ⟨⟩
  | ranAdd timer rest timers phase head idle ran eq =>
    subst eq
    have placed := inv.placed
    rw [Lib.BatchQueue.pop_waiting head] at placed
    have effect := TimerQueue.step_effect_ok sound (add_step (placed.queued timer List.mem_cons_self).1 ran)
    have moved : Ids { s with timers } := by
      refine ids.on_timers inv effect ?_ ?_
      · rintro timerId ⟨⟩
      · rintro ⟨⟩
    refine ⟨moved.on_loop rfl, ordered.pop ids inv head effect ?_⟩
    rintro other ⟨⟩
    rfl
  | ranCancel timerId rest timers phase head idle ran eq =>
    subst eq
    have effect := TimerQueue.step_effect_ok sound (cancel_step ran)
    have known : timerId ∈ s.returned := (ordered.queued [] timerId _ (Lib.BatchQueue.pop_waiting head)).1
    have moved : Ids { s with timers } := by
      refine ids.on_timers inv effect ?_ ?_
      · rintro other ⟨⟩
        exact known
      · rintro ⟨⟩
    refine ⟨moved.on_loop rfl, ordered.pop ids inv head effect ?_⟩
    rintro other ⟨⟩
  | ranOther rest phase head eq =>
    subst eq
    have still : s.timers.Effect { s.timers with clock := s.timers.clock + (0 : Nat) } (.tick 0) := .tick 0 rfl
    have same : { s.timers with clock := s.timers.clock + (0 : Nat) } = s.timers := by simp
    rw [same] at still
    refine ⟨ids.on_loop rfl, ordered.pop ids inv head still ?_⟩
    rintro other ⟨⟩

theorem reachable_ids (h : loopTimers.Reachable InTime s) : s.Ids ∧ s.Ordered := by
  refine h.invariant (P := fun s => s.Ids ∧ s.Ordered) ?_ fun a label b reached before allowed step =>
    effect_ids (reachable_inv reached) before.1 before.2 allowed (step_effect step)
  rintro a ⟨loop, timers, ⟨threadId, rfl⟩, ⟨_, eq⟩, rfl⟩
  rw [eq]
  refine ⟨⟨?_, ?_, ?_, ?_, ?_, List.nodup_nil, ?_⟩, ?_, ?_⟩
  · rintro t made ⟨⟩
  · rintro t u made other ⟨⟩
  · rintro t made ⟨⟩
  · rintro t made ⟨⟩
  · rintro timerId ⟨⟩
  · intro timerId member
    simp at member
  · rintro timerId ⟨⟩
  · intro before timerId after eq
    exact absurd eq (by simp [Lib.BatchQueue.waiting])

/-! ### What can fail -/

theorem loop_fault {F : Type} {l : EventLoop F} {label : EventLoop.Label F} {fault : EventLoop.Fault}
    (step : l.step label = some (.error fault)) : ∃ t, label = .enter t := by
  cases label with
  | enter t => exact ⟨t, rfl⟩
  | runFunctor =>
    simp only [EventLoop.step] at step
    split at step <;> cases step
  | _ =>
    simp only [EventLoop.step, Option.ite_none_right_eq_some] at step
    obtain ⟨_, ⟨⟩⟩ := step

theorem onTimers_succeeds {queue : TimerQueue} {label : TimerQueue.Label} {result : Except TimerQueue.Fault TimerQueue}
    {fault : Fault} (inv : queue.Inv) (step : queue.step label = some result) :
    s.onTimers result ≠ .error fault := by
  obtain ⟨timers, rfl, _⟩ := TimerQueue.step_effect inv step
  rintro ⟨⟩

/-- In the loop's thread, and with its timer waiting, a functor succeeds. -/
theorem call_succeeds {cb : Functor} {fault : Fault} (inv : s.timers.Inv) (own : t = s.loop.threadId)
    (member : ∀ timer, cb = .addTimerInLoop timer → timer ∈ s.timers.waiting) : s.call t cb ≠ .error fault := by
  have here : s.assertInLoopThread t = .ok () := if_pos own
  cases cb with
  | addTimerInLoop timer =>
    rw [call, here, Lib.ok_bind]
    have step : s.timers.step (.addTimerInLoop timer) = some (s.timers.addTimerInLoop timer) := by
      rw [TimerQueue.step, if_pos (member timer rfl)]
    exact onTimers_succeeds inv step
  | cancelInLoop timerId =>
    rw [call, here, Lib.ok_bind]
    have step : s.timers.step (.cancelInLoop timerId) = some (s.timers.cancelInLoop timerId) := rfl
    exact onTimers_succeeds inv step
  | other => rintro ⟨⟩

theorem runInLoop_succeeds {cb : Functor} {fault : Fault} (inv : s.timers.Inv)
    (member : ∀ timer, cb = .addTimerInLoop timer → timer ∈ s.timers.waiting) : s.runInLoop t cb ≠ .error fault := by
  unfold runInLoop
  split
  · rename_i own
    exact call_succeeds inv own member
  · rintro ⟨⟩

/-- Of all steps only the entry of `loop()` and the read of a deleted timer fail. -/
theorem step_fault (inv : s.Inv) {fault : Fault} (step : s.step label = some (.error fault)) :
    (∃ t, label = .loop (.enter t)) ∨
      ∃ t made, label = .sequence t ∧ s.adding t = some made ∧ s.timers.heap made.timer = none := by
  have sound := TimerQueue.reachable_inv inv.timers
  cases label with
  | loop label =>
    simp only [LoopTimers.step, Option.ite_none_right_eq_some, Option.map_eq_some_iff] at step
    obtain ⟨_, result, stepped, failed⟩ := step
    cases result with
    | ok loop => cases failed
    | error fault =>
      obtain ⟨t, rfl⟩ := loop_fault stepped
      exact .inl ⟨t, rfl⟩
  | timers label =>
    simp only [LoopTimers.step, Option.ite_none_right_eq_some, Option.map_eq_some_iff] at step
    obtain ⟨_, result, stepped, failed⟩ := step
    exact absurd failed (onTimers_succeeds sound stepped)
  | newTimer t timer request =>
    simp only [LoopTimers.step, Option.ite_none_right_eq_some, Option.map_eq_some_iff] at step
    obtain ⟨_, result, stepped, failed⟩ := step
    exact absurd failed (onTimers_succeeds sound stepped)
  | post t =>
    simp only [LoopTimers.step] at step
    split at step
    · rename_i made adding
      split at step
      · cases step
      · rename_i fresh
        refine absurd (Option.some.inj step) (runInLoop_succeeds sound ?_)
        rintro timer ⟨⟩
        exact (inv.placed.held t made.timer (unposted_fresh adding (by simpa using fresh))).1
    · cases step
  | sequence t =>
    simp only [LoopTimers.step] at step
    split at step
    · rename_i made adding
      simp only [Option.ite_none_right_eq_some, Option.some.injEq] at step
      obtain ⟨_, failed⟩ := step
      refine .inr ⟨t, made, rfl, adding, ?_⟩
      unfold returnId TimerQueue.deref at failed
      cases live : s.timers.heap made.timer with
      | some timer =>
        rw [live] at failed
        cases failed
      | none => rfl
    · cases step
  | cancel t timerId =>
    simp only [LoopTimers.step, Option.ite_none_right_eq_some, Option.some.injEq] at step
    refine absurd step.2 (runInLoop_succeeds sound ?_)
    rintro timer ⟨⟩
  | queueInLoop t =>
    simp only [LoopTimers.step, Option.ite_none_right_eq_some, Option.some.injEq] at step
    cases step.2
  | runFunctor =>
    simp only [LoopTimers.step] at step
    split at step
    · rename_i cb rest phase head
      simp only [Option.ite_none_right_eq_some, Option.some.injEq] at step
      refine absurd step.2 (call_succeeds sound (inv.loop.runner (by simp [phase])) ?_)
      rintro timer rfl
      have placed := inv.placed
      rw [Lib.BatchQueue.pop_waiting head] at placed
      exact (placed.queued timer List.mem_cons_self).1
    · cases step

/-- Where the read of `sequence()` ends. -/
theorem sequence_step (adding : s.adding t = some made) (enabled : (s.step (.sequence t)).isSome = true) :
    s.step (.sequence t) = some (s.returnId t made.timer) := by
  simp only [LoopTimers.step, adding] at enabled ⊢
  split at enabled
  · rename_i condition
    rw [if_pos condition]
  · cases enabled

/-- Ids are told apart by their numbers. `addTimer` returns the id of the timer it has made exactly when
that timer still lives, as it does in the loop's own thread and if the timer repeats. Nothing else fails but
the entry of `loop()`. -/
theorem addTimer_returns_id (h : loopTimers.Reachable InTime s) :
    (s.returned.map Prod.snd).Nodup ∧
    (∀ t made, s.adding t = some made → (s.step (.sequence t)).isSome = true →
      ((∃ s', s.step (.sequence t) = some (.ok s') ∧ s'.returned = s.returned ++ [(made.timer, made.created)]) ↔
        s.timers.Alive (made.timer, made.created)) ∧
      (t = s.loop.threadId ∨ made.repeat_ = true → s.timers.Alive (made.timer, made.created))) ∧
    ∀ label fault, s.step label = some (.error fault) → (∃ t, label = .loop (.enter t)) ∨
      ∃ t made, label = .sequence t ∧ s.adding t = some made ∧ s.timers.heap made.timer = none := by
  obtain ⟨ids, _⟩ := reachable_ids h
  refine ⟨ids.nodup, fun t made adding enabled => ⟨?_, fun safe => ?_⟩, fun label fault =>
    step_fault (reachable_inv h)⟩
  · have step := sequence_step adding enabled
    constructor
    · rintro ⟨s', ran, returned⟩
      cases step_effect ran with
      | returned _ other timer adding' _ live eq =>
        obtain rfl := Option.some.inj (adding.symm.trans adding')
        rw [eq] at returned
        have last := List.append_cancel_left returned
        exact ⟨timer, live, (Prod.mk.inj (List.cons.inj last).1).2⟩
    · rintro ⟨timer, live, number⟩
      refine ⟨{ s with
        adding := Function.update s.adding t none, returned := s.returned ++ [(made.timer, made.created)] }, ?_, rfl⟩
      rw [step, returnId, TimerQueue.deref, show s.timers.heap made.timer = some timer from live]
      dsimp only
      rw [number]
  · obtain ⟨timer, live, number, _⟩ := ids.lives t made adding (.inr safe)
    exact ⟨timer, live, number⟩

/-- Thread 2 asks for a timer that repeats and for one that runs once. Both have run before it reads the
second number, and the second timer is deleted: the read fails. -/
theorem addTimer_returns_id_late :
    ∃ s, loopTimers.Reachable InTime s ∧ s.returned = [(16, 1)] ∧ (s.returned.map Prod.snd).Nodup ∧
      s.timers.Alive (16, 1) ∧ ¬ s.timers.Alive (32, 2) ∧
      s.step (.sequence 2) = some (.error (.timers .dangling)) ∧
      ¬ ∃ s', s.step (.sequence 2) = some (.ok s') ∧ s'.returned = s.returned ++ [(32, 2)] := by
  obtain ⟨s, reached, returned, adding, enabled, repeats, deleted⟩ := Lib.Machine.exec_reaches loopTimers InTime
    { loop := { threadId := 1 }, timers := { clock := 1000 } }
    [.loop (.enter 1), .loop .check, .newTimer 2 16 (.runEvery TimerQueue.everySecond), .post 2, .loop (.wakeup 2),
      .sequence 2, .newTimer 2 32 (.runAt 1100), .post 2, .loop (.wakeup 2), .loop (.pollReturn true),
      .loop .handleRead, .loop .doPendingFunctors, .runFunctor, .runFunctor, .loop .functorsDone, .loop .check,
      .timers (.tick 2000000), .loop (.pollReturn false), .timers (.handleRead 1), .timers .run, .timers .run,
      .timers .finish]
    (fun s => s.returned = [(16, 1)] ∧ (s.adding 2).map (fun made => (made.timer, made.created)) = some (32, 2) ∧
      (s.step (.sequence 2)).isSome = true ∧ s.timers.Alive (16, 1) ∧ s.timers.heap 32 = none)
    ⟨_, _, ⟨1, rfl⟩, ⟨by decide, rfl⟩, rfl⟩ (by decide +kernel)
  obtain ⟨nodup, reads, _⟩ := addTimer_returns_id reached
  obtain ⟨made, adding, number⟩ := Option.map_eq_some_iff.mp adding
  obtain ⟨timer, created⟩ := Prod.mk.inj number
  have gone : ¬ s.timers.Alive (32, 2) := by
    rintro ⟨t, live, _⟩
    rw [deleted] at live
    cases live
  refine ⟨s, reached, returned, nodup, repeats, gone, ?_, ?_⟩
  · rw [sequence_step adding enabled, timer, returnId, TimerQueue.deref, deleted]
  · have read := (reads 2 made adding enabled).1
    rw [timer, created] at read
    exact fun own => gone (read.mp own)

/-! ### Cancels -/

theorem effect_queue (inv : s.Inv) (effect : s.Effect s' label) :
    (∃ more, s'.loop.queue.inserted = s.loop.queue.inserted ++ more) ∧
      (s'.loop.queue.ran = s.loop.queue.ran ∨
        ∃ cb rest, label = .runFunctor ∧ s.loop.queue.batch = cb :: rest ∧
          s'.loop.queue.ran = s.loop.queue.ran ++ [cb]) := by
  have pushed : ∀ t cb, (∃ more, (s.loop.queueInLoop t cb).queue.inserted = s.loop.queue.inserted ++ more) ∧
      (s.loop.queueInLoop t cb).queue.ran = s.loop.queue.ran := by
    intro t cb
    rw [EventLoop.queueInLoop_eq]
    exact ⟨⟨[cb], rfl⟩, rfl⟩
  have same : ∃ more, s.loop.queue.inserted = s.loop.queue.inserted ++ more := ⟨[], (List.append_nil _).symm⟩
  cases effect with
  | loop label loop may step eq =>
    subst eq
    obtain ⟨waiting, inserted⟩ := EventLoop.step_plain inv.loop (mayLoop_plain may) step
    have before : s.loop.queue.ran ++ s.loop.queue.waiting = s.loop.queue.inserted := by
      rw [← inv.loop.conserved, Lib.BatchQueue.waiting, List.append_assoc]
    have after : loop.queue.ran ++ loop.queue.waiting = loop.queue.inserted := by
      rw [← (EventLoop.step_inv inv.loop step).conserved, Lib.BatchQueue.waiting, List.append_assoc]
    rw [waiting, inserted, ← before] at after
    exact ⟨⟨[], inserted.trans (List.append_nil _).symm⟩, .inl (List.append_cancel_right after)⟩
  | timers _ _ _ _ eq | created _ _ _ _ _ _ _ _ eq | postedHere _ _ _ _ _ _ _ eq | returned _ _ _ _ _ _ eq
  | canceledHere _ _ _ _ _ eq =>
    subst eq
    exact ⟨same, .inl rfl⟩
  | postedThere _ _ _ _ _ eq | canceledThere _ _ _ eq | queued _ eq =>
    subst eq
    exact ⟨(pushed _ _).1, .inl (pushed _ _).2⟩
  | ranAdd _ _ _ _ head _ _ eq | ranCancel _ _ _ _ head _ _ eq | ranOther _ _ head eq =>
    subst eq
    exact ⟨same, .inr ⟨_, _, rfl, head, rfl⟩⟩

theorem effect_timers (inv : s.Inv) (effect : s.Effect s' label) :
    s'.timers = s.timers ∨ ∃ label, s.timers.Effect s'.timers label := by
  have sound := TimerQueue.reachable_inv inv.timers
  cases effect with
  | loop _ _ _ _ eq | postedThere _ _ _ _ _ eq | returned _ _ _ _ _ _ eq | canceledThere _ _ _ eq | queued _ eq
  | ranOther _ _ _ eq =>
    subst eq
    exact .inl rfl
  | timers _ _ _ step eq | created _ _ _ _ _ _ step _ eq =>
    subst eq
    exact .inr ⟨_, TimerQueue.step_effect_ok sound step⟩
  | canceledHere _ _ _ _ ran eq | ranCancel _ _ _ _ _ _ ran eq =>
    subst eq
    exact .inr ⟨_, TimerQueue.step_effect_ok sound (cancel_step ran)⟩
  | postedHere t made _ _ adding fresh ran eq =>
    subst eq
    have member := (inv.placed.held t made.timer (unposted_fresh adding fresh)).1
    exact .inr ⟨_, TimerQueue.step_effect_ok sound (add_step member ran)⟩
  | ranAdd timer _ _ _ head _ ran eq =>
    subst eq
    have placed := inv.placed
    rw [Lib.BatchQueue.pop_waiting head] at placed
    exact .inr ⟨_, TimerQueue.step_effect_ok sound (add_step (placed.queued timer List.mem_cons_self).1 ran)⟩

theorem effect_ended (inv : s.Inv) (ended : s.timers.Ended timerId) (effect : s.Effect s' label) :
    s'.timers.Ended timerId := by
  rcases effect_timers inv effect with same | ⟨_, moved⟩
  · rw [same]
    exact ended
  · exact TimerQueue.effect_ended (TimerQueue.reachable_inv inv.timers) ended moved

theorem steps_ended {u : LoopTimers} (h : loopTimers.Reachable InTime s) (ended : s.timers.Ended timerId)
    (steps : loopTimers.Steps InTime s u) : u.timers.starts ≠ some timerId := by
  have last : u.timers.Ended timerId := by
    refine steps.invariant (P := fun a => a.timers.Ended timerId) h ended ?_
    intro a label b reached before _ step
    exact effect_ended (reachable_inv reached) before (step_effect step)
  exact last.not_starts (TimerQueue.reachable_inv (reachable_inv (h.steps steps)).timers)

/-- The functor of the cancel has this place among all that were queued; once it has been run the timer has
ended. -/
def EndsAt (s : LoopTimers) (timerId : TimerQueue.ActiveTimer) (place : Nat) : Prop :=
  s.loop.queue.inserted[place]? = some (.cancelInLoop timerId) ∧
    (place < s.loop.queue.ran.length → s.timers.Ended timerId)

theorem ranCancel_ended (h : loopTimers.Reachable InTime s) {rest : List Functor} {timers : TimerQueue}
    (phase : s.loop.phase = .functors) (head : s.loop.queue.batch = .cancelInLoop timerId :: rest)
    (ran : s.timers.cancelInLoop timerId = .ok timers) : timers.Ended timerId := by
  have inv := reachable_inv h
  obtain ⟨ids, ordered⟩ := reachable_ids h
  obtain ⟨known, first⟩ := ordered.queued [] timerId _ (Lib.BatchQueue.pop_waiting head)
  have effect := TimerQueue.step_effect_ok (TimerQueue.reachable_inv inv.timers) (cancel_step ran)
  refine TimerQueue.cancel_ended inv.timers (ids.returned timerId known) ?_ effect
  rintro ⟨alive, waiting | ⟨b, batch, _⟩⟩
  · cases first ⟨alive, waiting⟩
  · rw [inv.not_functors phase] at batch
    cases batch

theorem step_endsAt {place : Nat} (h : loopTimers.Reachable InTime s) (ends : s.EndsAt timerId place)
    (step : s.step label = some (.ok s')) : s'.EndsAt timerId place := by
  have inv := reachable_inv h
  have effect := step_effect step
  obtain ⟨⟨more, inserted⟩, ran⟩ := effect_queue inv effect
  obtain ⟨found, ended⟩ := ends
  have below : place < s.loop.queue.inserted.length := (List.getElem?_eq_some_iff.mp found).1
  refine ⟨by rw [inserted, List.getElem?_append_left below, found], fun past => ?_⟩
  by_cases before : place < s.loop.queue.ran.length
  · exact effect_ended inv (ended before) effect
  · rcases ran with same | ⟨cb, rest, rfl, head, ran⟩
    · rw [same] at past
      exact absurd past before
    · -- the functor that this step has run is the one of the cancel
      have place_eq : place = s.loop.queue.ran.length := by
        rw [ran, List.length_append, List.length_singleton] at past
        omega
      have at_place : s.loop.queue.inserted[place]? = some cb := by
        rw [← inv.loop.conserved, head, place_eq]
        simp
      obtain rfl : cb = .cancelInLoop timerId := Option.some.inj (at_place.symm.trans found)
      cases effect with
      | ranAdd _ _ _ _ head' =>
        rw [head] at head'
        cases head'
      | ranCancel other _ timers phase head' _ canceled eq =>
        rw [head] at head'
        cases head'
        subst eq
        exact ranCancel_ended h phase head canceled
      | ranOther _ _ head' =>
        rw [head] at head'
        cases head'

/-- A cancel from another thread: once its functor has been run, the callback of the timer is not started
again. A cancel in the loop's own thread: so at once, unless the timer's own functor is still queued or its
callback is next in the batch. -/
theorem cancel_ends_timer (h : loopTimers.Reachable InTime s) (allowed : s.InTime (.cancel t timerId))
    (call : s.step (.cancel t timerId) = some (.ok s')) :
    (t ≠ s.loop.threadId → ∀ u, loopTimers.Steps InTime s' u →
      s.loop.queue.inserted.length < u.loop.queue.ran.length → u.timers.starts ≠ some timerId) ∧
    (t = s.loop.threadId →
      ¬ (s.timers.Alive timerId ∧
        (.addTimerInLoop timerId.1 ∈ s.loop.queue.waiting ∨ s.timers.InNext timerId.1)) →
      ∀ u, loopTimers.Steps InTime s' u → u.timers.starts ≠ some timerId) := by
  have inv := reachable_inv h
  have reached : loopTimers.Reachable InTime s' := h.next allowed call
  cases step_effect call with
  | canceledThere _ _ other eq =>
    refine ⟨fun _ u steps past => ?_, fun own => absurd own other⟩
    have queued : s'.EndsAt timerId s.loop.queue.inserted.length := by
      subst eq
      rw [EndsAt]
      dsimp only
      rw [EventLoop.queueInLoop_eq]
      refine ⟨?_, fun past => ?_⟩
      · simp [Lib.BatchQueue.push]
      · have total := congrArg List.length inv.loop.conserved
        simp only [List.length_append, Lib.BatchQueue.push] at total past
        omega
    have last : u.EndsAt timerId s.loop.queue.inserted.length := by
      refine steps.invariant (P := fun a => a.EndsAt timerId s.loop.queue.inserted.length) reached queued ?_
      intro a label b before ends _ step
      exact step_endsAt before ends step
    exact (last.2 past).not_starts (TimerQueue.reachable_inv (reachable_inv (reached.steps steps)).timers)
  | canceledHere _ _ timers own ran eq =>
    refine ⟨fun other => absurd own other, fun _ late u steps => steps_ended reached ?_ steps⟩
    obtain ⟨ids, ordered⟩ := reachable_ids h
    have effect := TimerQueue.step_effect_ok (TimerQueue.reachable_inv inv.timers) (cancel_step ran)
    subst eq
    refine TimerQueue.cancel_ended inv.timers (ids.returned timerId allowed) ?_ effect
    rintro ⟨alive, waiting | next⟩
    · exact late ⟨alive, .inl (ordered.returned timerId allowed ⟨alive, waiting⟩)⟩
    · exact late ⟨alive, .inr next⟩

/-- Thread 2 has the id of its timer and cancels it, with both functors still to be run. -/
theorem cancel_ends_timer_queued :
    ∃ s s', loopTimers.Reachable InTime s ∧ s.timers.Waits (16, 1) ∧ s.loop.queue.inserted.length = 1 ∧
      s.step (.cancel 2 (16, 1)) = some (.ok s') ∧
      ∀ u, loopTimers.Steps InTime s' u → 1 < u.loop.queue.ran.length → u.timers.starts ≠ some (16, 1) := by
  obtain ⟨s, reached, alive, waiting, queued, known, enabled, foreign⟩ := Lib.Machine.exec_reaches loopTimers InTime
    { loop := { threadId := 1 }, timers := { clock := 1000 } }
    [.loop (.enter 1), .loop .check, .newTimer 2 16 (.runAfter TimerQueue.everySecond), .post 2, .loop (.wakeup 2),
      .sequence 2]
    (fun s => s.timers.Alive (16, 1) ∧ 16 ∈ s.timers.waiting ∧ s.loop.queue.inserted.length = 1 ∧
      (16, 1) ∈ s.returned ∧ s.mayCall 2 = true ∧ 2 ≠ s.loop.threadId)
    ⟨_, _, ⟨1, rfl⟩, ⟨by decide, rfl⟩, rfl⟩ (by decide +kernel)
  have call : s.step (.cancel 2 (16, 1)) =
      some (.ok { s with loop := s.loop.queueInLoop 2 (.cancelInLoop (16, 1)) }) := by
    rw [LoopTimers.step, if_pos enabled, runInLoop, if_neg foreign]
  refine ⟨s, _, reached, ⟨alive, waiting⟩, queued, call, fun u steps past => ?_⟩
  exact (cancel_ends_timer reached known call).1 foreign u steps (queued ▸ past)

/-- A handler in the loop's own thread cancels a timer of thread 2 before the timer is added, and its
callback is started after all. -/
example : (loopTimers.exec InTime { loop := { threadId := 1 }, timers := { clock := 1000 } }
    [.loop (.enter 1), .loop .check, .newTimer 2 16 (.runAt 1500), .post 2, .loop (.wakeup 2), .sequence 2,
      .loop (.pollReturn true), .loop .handleRead, .cancel 1 (16, 1), .loop .doPendingFunctors, .runFunctor,
      .loop .functorsDone, .loop .check, .timers (.tick 1000), .loop (.pollReturn false),
      .timers (.handleRead 1)]).any (fun s => s.timers.starts = some (16, 1)) = true := by
  decide +kernel

end LoopTimers

end Dserver.Net
