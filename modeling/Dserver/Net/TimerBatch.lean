import Dserver.Net.TimerCancel

/-!
# What `handleRead` runs

One call of `handleRead`, from the reading of the time to the end of `reset`, with any callbacks in
between. What the callbacks do is seen as a list of events: callbacks started, timers added, and timers
cancelled.
-/

namespace Dserver.Net

namespace TimerQueue

variable {s s' u : TimerQueue} {timer : Addr} {t : Timer} {e : Entry} {b : Batch}

inductive Event where
  | ran (timer : Addr) (t : Timer)
  | added (timer : Addr) (t : Timer)
  | canceled (timerId : ActiveTimer)

namespace Event

def ran? : Event → Option (Addr × Timer)
  | ran timer t => some (timer, t)
  | _ => none

end Event

def runs (events : List Event) : List (Addr × Timer) := events.filterMap Event.ran?

def see (s : TimerQueue) : Label → List Event
  | .run =>
    match s.batch with
    | some b => b.next.head?.toList.filterMap fun it => (s.heap it.timer).map (.ran it.timer)
    | none => []
  | .addTimerInLoop timer => (s.heap timer).toList.map (.added timer)
  | .cancelInLoop timerId => [.canceled timerId]
  | _ => []

def Holds (s : TimerQueue) (timer : Addr) (t : Timer) : Prop :=
  s.heap timer = some t ∧ Entry.of t.expiration timer ∈ s.timers

/-- The steps between the first callback of a batch and the end of the last. -/
def InBatchOnly (_ : TimerQueue) (label : Label) : Prop := label ≠ .finish

/-! ### Events -/

/-- A timer that was there at the start, or was added, and was not cancelled later. -/
def Remains (atStart : Prop) (events : List Event) (timer : Addr) (t : Timer) : Prop :=
  (atStart ∧ .canceled (timer, t.sequence) ∉ events) ∨
  ∃ before after, events = before ++ .added timer t :: after ∧ .canceled (timer, t.sequence) ∉ after

variable {atStart : Prop} {events : List Event}

theorem remains_append {event : Event} (other : event ≠ .added timer t) :
    Remains atStart (events ++ [event]) timer t ↔
      Remains atStart events timer t ∧ event ≠ .canceled (timer, t.sequence) := by
  unfold Remains
  constructor
  · rintro (⟨start, missing⟩ | ⟨before, after, split, missing⟩)
    · simp only [List.mem_append, List.mem_singleton, not_or] at missing
      exact ⟨.inl ⟨start, missing.1⟩, fun same => missing.2 same.symm⟩
    · rcases List.eq_nil_or_concat after with rfl | ⟨front, last, rfl⟩
      · obtain ⟨_, same⟩ := List.append_inj' split rfl
        exact absurd (List.singleton_inj.mp same) other
      · rw [List.concat_eq_append] at split missing
        rw [← List.cons_append, ← List.append_assoc] at split
        obtain ⟨rfl, same⟩ := List.append_inj' split rfl
        obtain rfl := List.singleton_inj.mp same
        simp only [List.mem_append, List.mem_singleton, not_or] at missing
        exact ⟨.inr ⟨before, front, rfl, missing.1⟩, fun same => missing.2 same.symm⟩
  · rintro ⟨⟨start, missing⟩ | ⟨before, after, rfl, missing⟩, last⟩
    · refine .inl ⟨start, ?_⟩
      simp only [List.mem_append, List.mem_singleton, not_or]
      exact ⟨missing, fun same => last same.symm⟩
    · refine .inr ⟨before, after ++ [event], by simp, ?_⟩
      simp only [List.mem_append, List.mem_singleton, not_or]
      exact ⟨missing, fun same => last same.symm⟩

theorem remains_canceled {timerId : ActiveTimer} :
    Remains atStart (events ++ [.canceled timerId]) timer t ↔
      Remains atStart events timer t ∧ timerId ≠ (timer, t.sequence) := by
  have other : Event.canceled timerId ≠ .added timer t := fun same => by cases same
  rw [remains_append other, ne_eq, Event.canceled.injEq]

theorem remains_ran {timer' : Addr} {t' : Timer} :
    Remains atStart (events ++ [.ran timer' t']) timer t ↔ Remains atStart events timer t := by
  have other : Event.ran timer' t' ≠ .added timer t := fun same => by cases same
  rw [remains_append other]
  exact and_iff_left fun same => by cases same

theorem remains_added {timer' : Addr} {t' : Timer} :
    Remains atStart (events ++ [.added timer' t']) timer t ↔
      Remains atStart events timer t ∨ (timer = timer' ∧ t = t') := by
  by_cases same : Event.added timer' t' = .added timer t
  · obtain ⟨rfl, rfl⟩ := Event.added.inj same
    exact ⟨fun _ => .inr ⟨rfl, rfl⟩, fun _ => .inr ⟨events, [], by simp, by simp⟩⟩
  · rw [remains_append same]
    constructor
    · exact fun left => .inl left.1
    · rintro (old | ⟨rfl, rfl⟩)
      · exact ⟨old, nofun⟩
      · exact absurd rfl same

/-! ### While the callbacks of a batch run -/

/-- Where a batch taken at `now` from the queue `s₀` has got to, by the events so far. -/
structure Running (s₀ : TimerQueue) (now : Timestamp) (events : List Event) (s : TimerQueue) : Prop where
  inv : s.Inv
  calling : s.callingExpiredTimers = true
  batch : ∃ b done, s.batch = some b ∧ b.now = now ∧ b.expired = s₀.expiredAt now ∧ b.expired = done ++ b.next ∧
    runs events = done.filterMap fun e => (s₀.heap e.timer).map (e.timer, ·)
  heap : ∀ e ∈ s₀.expiredAt now, s.heap e.timer = s₀.heap e.timer
  canceling : ∀ e ∈ s₀.expiredAt now, ∀ t, s₀.heap e.timer = some t →
    ((e.timer, t.sequence) ∈ s.cancelingTimers ↔ .canceled (e.timer, t.sequence) ∈ events)
  holds : ∀ timer t, s.Holds timer t ↔ Remains (s₀.Holds timer t ∧ now < t.expiration) events timer t

variable {s₀ : TimerQueue} {now : Timestamp}

theorem Running.expired (h : Running s₀ now events s) : s.expired = s₀.expiredAt now := by
  obtain ⟨b, _, batch, _, expired, _⟩ := h.batch
  rw [expired_some batch, expired]

theorem Running.keep {seen : List Event} (h : Running s₀ now events s) (inv : s'.Inv)
    (calling : s'.callingExpiredTimers = s.callingExpiredTimers) (batch : s'.batch = s.batch)
    (silent : runs seen = []) (heap : ∀ e ∈ s.expired, s'.heap e.timer = s.heap e.timer)
    (canceling : ∀ e ∈ s.expired, ∀ number, (e.timer, number) ∈ s'.cancelingTimers ↔
      (e.timer, number) ∈ s.cancelingTimers ∨ .canceled (e.timer, number) ∈ seen)
    (holds : ∀ timer t, s'.Holds timer t ↔ Remains (s₀.Holds timer t ∧ now < t.expiration) (events ++ seen) timer t) :
    Running s₀ now (events ++ seen) s' := by
  have expired := h.expired
  obtain ⟨b, done, was, rest⟩ := h.batch
  refine ⟨inv, by rw [calling]; exact h.calling, ⟨b, done, by rw [batch]; exact was, ?_⟩, fun e member => ?_,
    fun e member t live => ?_, holds⟩
  · rw [show runs (events ++ seen) = runs events ++ runs seen from List.filterMap_append, silent, List.append_nil]
    exact rest
  · rw [heap e (expired ▸ member)]
    exact h.heap e member
  · rw [canceling e (expired ▸ member), h.canceling e member t live, List.mem_append]

theorem holds_created {a : Addr} {when : Timestamp} {interval : Seconds} (h : s.Agree) (free : s.heap a = none) :
    (s.newTimer a when interval).Holds timer t ↔ s.Holds timer t := by
  have absent : ∀ expiration, Entry.of expiration a ∉ s.timers := by
    intro expiration member
    obtain ⟨u, live, _⟩ := h.keys _ member
    rw [show (Entry.of expiration a).timer = a from rfl, free] at live
    cases live
  by_cases same : timer = a
  · subst same
    exact ⟨fun holds => absurd holds.2 (absent _), fun holds => absurd holds.2 (absent _)⟩
  · show Function.update s.heap a _ timer = some t ∧ _ ↔ _
    rw [Function.update_of_ne same]
    rfl

theorem holds_handed {a : Addr} {u : Timer} (live : s.heap a = some u) :
    (s.handedOver a u).Holds timer t ↔ s.Holds timer t ∨ (timer = a ∧ t = u) := by
  have timers : (s.handedOver a u).timers = Insert.insert (Entry.of u.expiration a) s.timers := by
    unfold handedOver
    split <;> rfl
  rw [Holds, (handedOver_fields s a u).1, timers, Finset.mem_insert, Holds]
  constructor
  · rintro ⟨found, new | old⟩
    · have same : timer = a := congrArg Entry.timer new
      subst same
      exact .inr ⟨rfl, Option.some.inj (found.symm.trans live)⟩
    · exact .inl ⟨found, old⟩
  · rintro (⟨found, old⟩ | ⟨rfl, rfl⟩)
    · exact ⟨found, .inr old⟩
    · exact ⟨live, .inl rfl⟩

theorem holds_removed {timerId : ActiveTimer} {u : Timer} (live : s.heap timerId.1 = some u)
    (number : u.sequence = timerId.2) :
    (s.removed timerId.1 u).Holds timer t ↔ s.Holds timer t ∧ timerId ≠ (timer, t.sequence) := by
  by_cases same : timer = timerId.1
  · subst same
    have deleted : (s.removed timerId.1 u).heap timerId.1 = none := Function.update_self ..
    constructor
    · rintro ⟨found, _⟩
      rw [deleted] at found
      cases found
    · rintro ⟨⟨found, _⟩, other⟩
      obtain rfl : u = t := Option.some.inj (live.symm.trans found)
      exact absurd (by rw [number]) other
  · have heap : (s.removed timerId.1 u).heap timer = s.heap timer := Function.update_of_ne same _ _
    have other : Entry.of t.expiration timer ≠ Entry.of u.expiration timerId.1 := fun eq =>
      same (congrArg Entry.timer eq)
    rw [Holds, heap, show (s.removed timerId.1 u).timers = s.timers.erase (Entry.of u.expiration timerId.1) from rfl,
      Finset.mem_erase, Holds]
    exact ⟨fun ⟨found, _, member⟩ => ⟨⟨found, member⟩, fun eq => same (congrArg Prod.fst eq).symm⟩,
      fun ⟨⟨found, member⟩, _⟩ => ⟨found, other, member⟩⟩

theorem see_run {it : Entry} {rest : List Entry} (batch : s.batch = some b) (next : b.next = it :: rest)
    (live : s.heap it.timer = some t) : s.see .run = [.ran it.timer t] := by
  simp [see, batch, next, live]

theorem effect_running {label : Label} (h : Running s₀ now events s) (effect : s.Effect s' label)
    (inside : label ≠ .finish) : Running s₀ now (events ++ s.see label) s' := by
  have inv' := effect_inv h.inv effect
  cases effect with
  | tick elapsed eq =>
    subst eq
    rw [show s.see (.tick elapsed) = [] from rfl]
    refine h.keep inv' rfl rfl rfl (fun _ _ => rfl) (fun _ _ _ => by simp) fun timer t => ?_
    rw [List.append_nil]
    exact h.holds timer t
  | created timer when interval _ free eq =>
    subst eq
    rw [show s.see (.newTimer timer when interval) = [] from rfl]
    refine h.keep inv' rfl rfl rfl (fun e member => ?_) (fun _ _ _ => by simp [newTimer]) fun timer t => ?_
    · obtain ⟨u, live⟩ := batch_live h.inv.sound.owned member
      refine Function.update_of_ne (fun same => ?_) _ _
      rw [same, free] at live
      cases live
    · rw [holds_created h.inv.sound.agree free, List.append_nil]
      exact h.holds timer t
  | handed a u member live eq =>
    subst eq
    have seen : s.see (.addTimerInLoop a) = [.added a u] := by simp [see, live]
    obtain ⟨heap, batch⟩ := handedOver_fields s a u
    have canceling : (s.handedOver a u).cancelingTimers = s.cancelingTimers := by
      unfold handedOver
      split <;> rfl
    have calling : (s.handedOver a u).callingExpiredTimers = s.callingExpiredTimers := by
      unfold handedOver
      split <;> rfl
    rw [seen]
    refine h.keep inv' calling batch rfl (fun _ _ => by rw [heap]) (fun _ _ _ => by simp [canceling]) fun timer t => ?_
    rw [holds_handed live, remains_added, h.holds]
  | canceled timerId u live number member eq =>
    subst eq
    obtain ⟨_, others⟩ := h.inv.sound.owned.inside member
    have others : ∀ e ∈ s.expired, e.timer ≠ timerId.1 := others
    rw [show s.see (.cancelInLoop timerId) = [.canceled timerId] from rfl]
    refine h.keep inv' rfl rfl rfl (fun e inside => Function.update_of_ne (others e inside) _ _)
      (fun e inside number => ?_) fun timer t => ?_
    · rw [List.mem_singleton]
      refine ⟨.inl, fun either => either.resolve_right fun same => ?_⟩
      exact others e inside (congrArg Prod.fst (Event.canceled.inj same))
    · rw [holds_removed live number, remains_canceled, h.holds]
  | noted timerId inactive eq =>
    subst eq
    rw [show s.see (.cancelInLoop timerId) = [.canceled timerId] from rfl]
    refine h.keep inv' rfl rfl rfl (fun _ _ => rfl) (fun e inside number => ?_) fun timer t => ?_
    · rw [noted, h.calling]
      simp only [if_true, Finset.mem_insert, List.mem_singleton, Event.canceled.injEq]
      exact or_comm
    · rw [remains_canceled, ← h.holds]
      refine ⟨fun holds => ⟨holds, fun same => inactive ?_⟩, fun both => both.1⟩
      rw [same]
      exact h.inv.sound.agree.mem_active.mpr ⟨t, holds.1, rfl, holds.2⟩
  | taken elapsed idle eq =>
    obtain ⟨b, _, batch, _⟩ := h.batch
    rw [idle] at batch
    cases batch
  | ran b it rest batch next eq =>
    subst eq
    obtain ⟨b', done, batch', time, expired, split, ran⟩ := h.batch
    obtain rfl : b = b' := Option.some.inj (batch.symm.trans batch')
    have member : it ∈ s₀.expiredAt now := by
      rw [← expired, split, next]
      exact List.mem_append_right _ List.mem_cons_self
    obtain ⟨t, live⟩ := batch_live h.inv.sound.owned (h.expired ▸ member)
    have live₀ : s₀.heap it.timer = some t := by rw [← h.heap it member, live]
    rw [see_run batch next live]
    refine ⟨inv', h.calling, ⟨_, done ++ [it], rfl, time, expired, by rw [split, next]; simp, ?_⟩, h.heap,
      fun e inside u found => ?_, fun timer u => ?_⟩
    · rw [show runs (events ++ [.ran it.timer t]) = runs events ++ [(it.timer, t)] from List.filterMap_append, ran,
        List.filterMap_append, List.filterMap_cons, live₀]
      rfl
    · rw [List.mem_append, List.mem_singleton, or_iff_left fun same => by cases same]
      exact h.canceling e inside u found
    · rw [remains_ran]
      exact h.holds timer u
  | finished => exact absurd rfl inside

theorem taken_running (inv : s₀.Inv) (below : s₀.Below) (idle : s₀.batch = none) (elapsed : Nat) :
    Running s₀ now [] (taken { s₀ with clock := now } elapsed) := by
  have inv' : Inv { s₀ with clock := now } :=
    inv.keep (inv.sound.of_eq rfl rfl rfl rfl rfl rfl rfl) rfl fun _ _ => rfl
  have effect : Effect { s₀ with clock := now } (taken { s₀ with clock := now } elapsed) (.handleRead elapsed) :=
    .taken elapsed idle rfl
  refine ⟨effect_inv inv' effect, rfl, ⟨_, [], rfl, rfl, rfl, rfl, rfl⟩, fun _ _ => rfl, fun _ _ _ _ => ?_,
    fun timer t => ?_⟩
  · simp [taken]
  · show s₀.heap timer = some t ∧ Entry.of t.expiration timer ∈ s₀.timers.filter (fun e => ¬ isExpired now e) ↔ _
    simp only [Remains, List.not_mem_nil, not_false_eq_true, and_true, Finset.mem_filter, Holds]
    rw [or_iff_left (by simp), and_assoc]
    refine and_congr_right fun live => and_congr_right fun _ => ?_
    rw [isExpired_iff (e := Entry.of t.expiration timer) (below timer t live)]
    exact Int.not_le

theorem trace_running (h : Running s₀ now [] s) (calls : timerQueue.Trace InBatchOnly see s events s') :
    Running s₀ now events s' := by
  induction calls with
  | refl => exact h
  | tail _ inside step ih =>
    obtain ⟨_, ran, effect⟩ := step_effect ih.inv step
    obtain rfl := Except.ok.inj ran
    exact effect_running ih effect inside

/-! ### The whole call -/

theorem expired_holds (inv : s₀.Inv) (below : s₀.Below) :
    (∃ e ∈ s₀.expiredAt now, e.timer = timer ∧ s₀.heap timer = some t) ↔
      s₀.Holds timer t ∧ t.expiration ≤ now := by
  constructor
  · rintro ⟨e, member, rfl, live⟩
    obtain ⟨inside, before⟩ := mem_expiredAt.mp member
    obtain ⟨u, found, key⟩ := inv.sound.agree.keys e inside
    obtain rfl : u = t := Option.some.inj (found.symm.trans live)
    rw [isExpired_iff (below _ u found), ← key] at before
    refine ⟨⟨live, ?_⟩, before⟩
    rw [key]
    exact inside
  · rintro ⟨⟨live, inside⟩, due⟩
    refine ⟨Entry.of t.expiration timer, mem_expiredAt.mpr ⟨inside, ?_⟩, rfl, live⟩
    exact (isExpired_iff (e := Entry.of t.expiration timer) (below timer t live)).mpr due

theorem rearmed_holds (s : TimerQueue) :
    Holds { rearmed s with batch := none } timer t ↔ s.Holds timer t := by
  rw [Holds, rearmed_frame]
  rfl

theorem settled_holds (h : s.Inv) (batch : s.batch = some b) :
    (s.settled b).Holds timer t ↔ s.Holds timer t ∨ ∃ e ∈ b.expired, e.timer = timer ∧
      ∃ u, s.heap timer = some u ∧ s.Again timer u ∧ t = u.restart b.now := by
  have sound : s.Sound b.expired := expired_some batch ▸ h.sound
  have restarted := settled_restarted sound
  constructor
  · rintro ⟨live, inside⟩
    obtain ⟨old, out⟩ | back := settled_heap sound live
    · refine .inl ⟨old, ((restarted.timers _).mp inside).resolve_right ?_⟩
      rintro ⟨e, member, u, _, _, same⟩
      exact out e member (congrArg Entry.timer same).symm
    · exact .inr back
  · rintro (⟨live, inside⟩ | ⟨e, member, rfl, u, found, again, rfl⟩)
    · have out : ∀ e ∈ b.expired, e.timer ≠ timer := (sound.owned.inside inside).2
      exact ⟨(restarted.other _ out).trans live, (restarted.timers _).mpr (.inl inside)⟩
    · refine ⟨?_, (restarted.timers _).mpr (.inr ⟨e, member, u, found, again, rfl⟩)⟩
      rw [restarted.each e member u found, if_pos again]

/-- What a call of `handleRead` that reads the time `now` does to the timers of `s₀`: `s₁` is the queue when the
first callback starts, `events` what the callbacks do, and `s₃` the queue when the call returns. -/
structure Handled (s₀ : TimerQueue) (now : Timestamp) (s₁ : TimerQueue) (events : List Event) (s₃ : TimerQueue) :
    Prop where
  taken : ∀ timer t, s₁.Holds timer t ↔ s₀.Holds timer t ∧ now < t.expiration
  ran : ∀ timer t, (timer, t) ∈ runs events ↔ s₀.Holds timer t ∧ t.expiration ≤ now
  once : (runs events).Nodup
  ordered : (runs events).Pairwise fun first second => first.2.expiration ≤ second.2.expiration
  left : ∀ timer t, s₃.Holds timer t ↔
    (s₀.Holds timer t ∧ now < t.expiration ∧ .canceled (timer, t.sequence) ∉ events) ∨
    (∃ before after, events = before ++ .added timer t :: after ∧ .canceled (timer, t.sequence) ∉ after) ∨
    ∃ u, s₀.Holds timer u ∧ u.expiration ≤ now ∧ u.repeat_ = true ∧ .canceled (timer, u.sequence) ∉ events ∧
      t = { u with expiration := now + u.interval.delta }

theorem Running.runs_eq (h : Running s₀ now events s) (batch : s.batch = some b) (done : b.next = []) :
    runs events = (s₀.expiredAt now).filterMap fun e => (s₀.heap e.timer).map (e.timer, ·) := by
  obtain ⟨b', front, batch', _, expired, split, ran⟩ := h.batch
  obtain rfl : b = b' := Option.some.inj (batch.symm.trans batch')
  rw [done, List.append_nil] at split
  rw [ran, ← expired, split]

theorem finished_handled (inv : s₀.Inv) (below : s₀.Below) (start : Running s₀ now [] s)
    (h : Running s₀ now events u) (effect : u.Effect s' .finish) : Handled s₀ now s events s' := by
  cases effect with
  | finished b batch done _ _ eq =>
    subst eq
    have ran := h.runs_eq batch done
    have entries : ∀ e ∈ s₀.expiredAt now, e ∈ s₀.timers := fun e member => (mem_expiredAt.mp member).1
    refine ⟨fun timer t => ?_, fun timer t => ?_, ?_, ?_, fun timer t => ?_⟩
    · rw [start.holds]
      simp [Remains]
    · rw [ran, ← expired_holds inv below, List.mem_filterMap]
      refine exists_congr fun e => and_congr_right fun member => ?_
      rw [Option.map_eq_some_iff]
      constructor
      · rintro ⟨v, live, same⟩
        obtain ⟨rfl, rfl⟩ := Prod.mk.inj same
        exact ⟨rfl, live⟩
      · rintro ⟨rfl, live⟩
        exact ⟨t, live, rfl⟩
    · rw [ran, List.Nodup, List.pairwise_filterMap]
      refine (Lib.inOrder_nodup _).imp_of_mem fun {e e'} member member' other r live r' live' same => other ?_
      obtain ⟨_, _, rfl⟩ := Option.map_eq_some_iff.mp live
      obtain ⟨_, _, rfl⟩ := Option.map_eq_some_iff.mp live'
      exact inv.sound.agree.unique (entries e member) (entries e' member') (Prod.mk.inj same).1
    · rw [ran, List.pairwise_filterMap]
      refine (Lib.inOrder_pairwise _).imp_of_mem fun {e e'} member member' le r live r' live' => ?_
      obtain ⟨v, found, rfl⟩ := Option.map_eq_some_iff.mp live
      obtain ⟨v', found', rfl⟩ := Option.map_eq_some_iff.mp live'
      obtain ⟨w, known, key⟩ := inv.sound.agree.keys e (entries e member)
      obtain ⟨w', known', key'⟩ := inv.sound.agree.keys e' (entries e' member')
      obtain rfl : w = v := Option.some.inj (known.symm.trans found)
      obtain rfl : w' = v' := Option.some.inj (known'.symm.trans found')
      rw [key, key']
      exact when_le le
    · obtain ⟨b', _, batch', time, expired, _⟩ := h.batch
      obtain rfl : b = b' := Option.some.inj (batch.symm.trans batch')
      rw [rearmed_holds, settled_holds h.inv batch, h.holds, Remains, or_assoc, and_assoc, expired, time]
      refine or_congr_right (or_congr_right ⟨?_, ?_⟩)
      · rintro ⟨e, member, rfl, v, live, again, rfl⟩
        rw [h.heap e member] at live
        obtain ⟨holds, due⟩ := (expired_holds inv below).mp ⟨e, member, rfl, live⟩
        refine ⟨v, holds, due, again.1, ?_, ?_⟩
        · rw [← h.canceling e member v live]
          exact again.2
        · rw [Timer.restart, if_pos again.1]
          rfl
      · rintro ⟨v, holds, due, repeats, kept, rfl⟩
        obtain ⟨e, member, rfl, live⟩ := (expired_holds inv below).mpr ⟨holds, due⟩
        refine ⟨e, member, rfl, v, by rw [h.heap e member, live], ⟨repeats, ?_⟩, ?_⟩
        · rw [h.canceling e member v live]
          exact kept
        · rw [Timer.restart, if_pos repeats]
          rfl

/-! ### Whole runs -/

/-- The batch has been run up to `next`, and every timer of it has expired. -/
structure Batched (s : TimerQueue) : Prop where
  suffix : ∀ b, s.batch = some b → b.next <:+ b.expired
  due : ∀ e ∈ s.expired, ∀ t, s.heap e.timer = some t → t.expiration ≤ s.clock

theorem Batched.keep (h : s.Batched) (clock : s.clock ≤ s'.clock) (batch : s'.batch = s.batch)
    (heap : ∀ e ∈ s.expired, s'.heap e.timer = s.heap e.timer) : s'.Batched := by
  have expired : s'.expired = s.expired := by rw [expired, expired, batch]
  refine ⟨by rw [batch]; exact h.suffix, fun e member t live => ?_⟩
  rw [expired] at member
  rw [heap e member] at live
  exact Int.le_trans (h.due e member t live) clock

theorem effect_batched {label : Label} (inv : s.Inv) (below : s.Below) (h : s.Batched)
    (effect : s.Effect s' label) : s'.Batched := by
  cases effect with
  | tick elapsed eq =>
    subst eq
    exact h.keep (Int.le_add_of_nonneg_right (Int.natCast_nonneg elapsed)) rfl fun _ _ => rfl
  | created timer when interval _ free eq =>
    subst eq
    refine h.keep (Int.le_refl _) rfl fun e member => Function.update_of_ne (fun same => ?_) _ _
    obtain ⟨u, live⟩ := batch_live inv.sound.owned member
    rw [same, free] at live
    cases live
  | handed a u _ _ eq =>
    subst eq
    obtain ⟨heap, batch⟩ := handedOver_fields s a u
    refine h.keep ?_ batch fun _ _ => by rw [heap]
    unfold handedOver
    split <;> exact Int.le_refl _
  | canceled timerId u live number member eq =>
    subst eq
    obtain ⟨_, others⟩ := inv.sound.owned.inside member
    exact h.keep (Int.le_refl _) rfl fun e inside => Function.update_of_ne (others e inside) _ _
  | noted _ _ eq =>
    subst eq
    exact h.keep (Int.le_refl _) rfl fun _ _ => rfl
  | taken elapsed idle eq =>
    subst eq
    refine ⟨fun b eq => ?_, fun e member t live => ?_⟩
    · obtain rfl := Option.some.inj eq
      exact List.suffix_rfl
    · have due := ((expired_holds inv below).mp ⟨e, member, rfl, live⟩).2
      exact Int.le_trans due (Int.le_add_of_nonneg_right (Int.natCast_nonneg elapsed))
  | ran b it rest batch next eq =>
    subst eq
    refine ⟨fun b' eq => ?_, fun e member t live => h.due e ?_ t live⟩
    · obtain rfl := Option.some.inj eq
      have before := h.suffix b batch
      rw [next] at before
      exact (List.suffix_cons it rest).trans before
    · rw [expired_some batch]
      exact member
  | finished _ _ _ _ _ eq =>
    subst eq
    exact ⟨nofun, by simp [expired]⟩

theorem reachable_batched {guard : TimerQueue → Label → Prop} (h : timerQueue.Reachable guard s) : s.Batched := by
  refine h.invariant ?_ fun a label b reached before _ step => ?_
  · rintro a ⟨_, eq⟩
    rw [eq]
    exact ⟨nofun, by simp [expired]⟩
  · have inv := reachable_inv reached
    obtain ⟨s', ran, effect⟩ := step_effect inv step
    obtain rfl := Except.ok.inj ran
    exact effect_batched inv (reachable_below reached) before effect

theorem owned_nodup {batch : List Entry} (h : s.Owned batch) : (batch.map Entry.timer).Nodup := by
  rw [List.nodup_iff_count_le_one]
  intro timer
  have le := h.le_one timer
  have count : (batch.map Entry.timer).count timer = batch.countP (fun e => e.timer = timer) := by
    rw [List.count, List.countP_map]
    rfl
  unfold places at le
  omega

/-- The one-shot timers among those whose callbacks were started. -/
def oneShots (events : List Event) : List ActiveTimer :=
  ((runs events).filter fun run => !run.2.repeat_).map fun run => (run.1, run.2.sequence)

theorem oneShots_silent {seen : List Event} (silent : runs seen = []) : oneShots (events ++ seen) = oneShots events := by
  rw [oneShots, show runs (events ++ seen) = runs events ++ runs seen from List.filterMap_append, silent,
    List.append_nil]
  rfl

theorem oneShots_ran (events : List Event) (timer : Addr) (t : Timer) :
    oneShots (events ++ [.ran timer t]) =
      oneShots events ++ if t.repeat_ then [] else [(timer, t.sequence)] := by
  rw [oneShots, show runs (events ++ [.ran timer t]) = runs events ++ [(timer, t)] from List.filterMap_append,
    List.filter_append, List.map_append]
  cases repeats : t.repeat_ <;> simp [oneShots, repeats]

theorem ran_ended {it : Entry} {rest : List Entry} (inv : s.Inv) (batched : s.Batched) (batch : s.batch = some b)
    (next : b.next = it :: rest) (live : s.heap it.timer = some t) (once : t.repeat_ = false) :
    Ended { s with batch := some { b with next := rest } } (it.timer, t.sequence) := by
  have nodup := owned_nodup inv.sound.owned
  have suffix := batched.suffix b batch
  rw [next] at suffix
  rw [expired_some batch] at nodup
  have apart := nodup.sublist (suffix.map Entry.timer).sublist
  refine ⟨(inv.sound.named.live _ t live).1, fun u found _ => ?_⟩
  obtain rfl : t = u := Option.some.inj (live.symm.trans found)
  refine ⟨fun again => by simp [Again, once] at again, ?_, _, rfl, it, suffix.subset List.mem_cons_self, rfl⟩
  rintro ⟨b', eq, e, member, same⟩
  obtain rfl := Option.some.inj eq
  rw [List.map_cons, List.nodup_cons] at apart
  exact apart.1 (List.mem_map.mpr ⟨e, member, same⟩)

theorem see_silent {label : Label} (other : label ≠ .run) : runs (s.see label) = [] := by
  cases label with
  | run => exact absurd rfl other
  | addTimerInLoop timer =>
    show runs ((s.heap timer).toList.map (.added timer)) = []
    cases s.heap timer <;> rfl
  | tick | newTimer | cancelInLoop | handleRead | finish => rfl

theorem trace_oneShots (h : timerQueue.Reachable Lib.Machine.anyStep s)
    (calls : timerQueue.Trace Lib.Machine.anyStep see s events s') :
    (∀ timerId ∈ oneShots events, s'.Ended timerId) ∧ (oneShots events).Nodup := by
  induction calls with
  | refl => exact ⟨nofun, List.nodup_nil⟩
  | tail before allowed step ih =>
    rename_i seen a c label
    obtain ⟨ended, nodup⟩ := ih
    have reached := h.steps before.steps
    have inv := reachable_inv reached
    obtain ⟨_, ran, effect⟩ := step_effect inv step
    obtain rfl := Except.ok.inj ran
    have still : ∀ timerId ∈ oneShots seen, c.Ended timerId := fun timerId member =>
      effect_ended inv (ended timerId member) effect
    by_cases run : label = .run
    · subst run
      cases effect with
      | ran b it rest batch next eq =>
        obtain ⟨t, live⟩ := batch_live inv.sound.owned
          (expired_some batch ▸ inv.next b batch it (by rw [next]; exact List.mem_cons_self))
        rw [see_run batch next live, oneShots_ran]
        cases once : t.repeat_ with
        | true =>
          rw [if_pos rfl, List.append_nil]
          exact ⟨still, nodup⟩
        | false =>
          have new := ran_ended inv (reachable_batched reached) batch next live once
          have starts : a.starts = some (it.timer, t.sequence) := by
            simp [starts, batch, next, activeOf, sequenceAt_eq live]
          rw [if_neg (by simp), List.nodup_append]
          refine ⟨fun timerId member => ?_, nodup, List.nodup_singleton _, fun timerId member other last same => ?_⟩
          · rcases List.mem_append.mp member with old | last
            · exact still timerId old
            · rw [List.mem_singleton.mp last, eq]
              exact new
          · rw [List.mem_singleton.mp last] at same
            rw [same] at member
            exact (ended _ member).not_starts inv starts
    · rw [oneShots_silent (see_silent run)]
      exact ⟨still, nodup⟩

theorem Running.progress (h : Running s₀ now events s) :
    (∃ s', s.step .run = some (.ok s')) ∨ ∃ s', s.step .finish = some (.ok s') := by
  obtain ⟨b, _, batch, _⟩ := h.batch
  cases next : b.next with
  | nil =>
    have step : s.step .finish = some (s.finish b) := by simp only [TimerQueue.step, batch, next, if_true]
    obtain ⟨s', ran, _⟩ := step_effect h.inv step
    exact .inr ⟨s', by rw [step, ran]⟩
  | cons it rest => exact .inl ⟨_, run_enabled h.inv batch next⟩

/-- `handleRead` runs exactly the timers that have expired, once each and in the order of their expirations,
and leaves those that are to expire later, those that were added, and the repeating ones of the batch, as far
as they were not cancelled. Over a whole run a one-shot timer is run at most once, and none before its time. -/
theorem handleRead_exact (h : timerQueue.Reachable Lib.Machine.anyStep s₀) :
    (s₀.batch = none → ∀ now elapsed, ∃ s₁,
      TimerQueue.step { s₀ with clock := now } (.handleRead elapsed) = some (.ok s₁) ∧
      ∀ events s₂, timerQueue.Trace InBatchOnly see s₁ events s₂ →
        ((∃ s', s₂.step .run = some (.ok s')) ∨ ∃ s₃, s₂.step .finish = some (.ok s₃)) ∧
        ∀ s₃, s₂.step .finish = some (.ok s₃) → Handled s₀ now s₁ events s₃) ∧
    (∀ events s', timerQueue.Trace Lib.Machine.anyStep see s₀ events s' → (oneShots events).Nodup) ∧
    ∀ timer t, .ran timer t ∈ s₀.see .run → t.expiration ≤ s₀.clock := by
  have inv := reachable_inv h
  have below := reachable_below h
  refine ⟨fun idle now elapsed => ?_, fun events s' calls => (trace_oneShots h calls).2, fun timer t ran => ?_⟩
  · have agree : Agree { s₀ with clock := now } := inv.sound.agree.of_heap (fun _ _ => rfl) rfl rfl
    have start : Running s₀ now [] (taken { s₀ with clock := now } elapsed) := taken_running inv below idle elapsed
    refine ⟨taken { s₀ with clock := now } elapsed, ?_, fun events s₂ calls => ?_⟩
    · rw [TimerQueue.step, if_pos (by simp [idle]), handleRead_eq agree]
    · have running := trace_running start calls
      refine ⟨running.progress, fun s₃ ended => ?_⟩
      obtain ⟨_, ran, effect⟩ := step_effect running.inv ended
      obtain rfl := Except.ok.inj ran
      exact finished_handled inv below start running effect
  · cases batch : s₀.batch with
    | none => simp [see, batch] at ran
    | some b =>
      cases next : b.next with
      | nil => simp [see, batch, next] at ran
      | cons it rest =>
        have member : it ∈ s₀.expired :=
          expired_some batch ▸ inv.next b batch it (by rw [next]; exact List.mem_cons_self)
        obtain ⟨u, live⟩ := batch_live inv.sound.owned member
        rw [see_run batch next live, List.mem_singleton] at ran
        obtain ⟨rfl, rfl⟩ := Event.ran.inj ran
        exact (reachable_batched h).due it member t live

/-- Two timers expire at the same time, and one does not. -/
theorem handleRead_exact_together :
    ∃ s₀, timerQueue.Reachable Lib.Machine.anyStep s₀ ∧ s₀.timers.card = 3 ∧
      ∃ s₁, TimerQueue.step { s₀ with clock := 1500 } (.handleRead 3) = some (.ok s₁) ∧
        ∀ events s₂ s₃, timerQueue.Trace InBatchOnly see s₁ events s₂ → s₂.step .finish = some (.ok s₃) →
          Handled s₀ 1500 s₁ events s₃ := by
  obtain ⟨s₀, reached, idle, card⟩ := Lib.Machine.exec_reaches timerQueue Lib.Machine.anyStep { clock := 1000 }
    [.newTimer 16 1500 everySecond, .addTimerInLoop 16, .newTimer 32 1500 once, .addTimerInLoop 32,
      .newTimer 48 1501 once, .addTimerInLoop 48]
    (fun s => s.batch.isNone = true ∧ s.timers.card = 3) ⟨by decide, rfl⟩ (by decide +kernel)
  obtain ⟨s₁, step, handled⟩ :=
    (handleRead_exact reached).1 (Option.isNone_iff_eq_none.mp idle) 1500 3
  exact ⟨s₀, reached, card, s₁, step, fun events s₂ s₃ calls ended => (handled events s₂ calls).2 s₃ ended⟩

end TimerQueue

end Dserver.Net
