import Dserver.Net.TimerQueue

/-!
# Who owns a timer

`timers_` and `activeTimers_` are two views of the same timers, and every live timer is in exactly one
place: waiting to be handed over, in the two sets, or in the batch. Timers are told apart by their
sequence numbers, which are never used again.
-/

namespace Dserver.Net

namespace TimerQueue

variable {s s' : TimerQueue} {timer : Addr} {t : Timer} {e : Entry} {batch batch' : List Entry}

/-! ### The two sets -/

/-- The pair in `activeTimers_` that belongs to an entry. -/
def activeOf (s : TimerQueue) (e : Entry) : ActiveTimer := (e.timer, s.sequenceAt e.timer)

structure Agree (s : TimerQueue) : Prop where
  keys : ∀ e ∈ s.timers, ∃ t, s.heap e.timer = some t ∧ t.expiration = e.when
  active : s.activeTimers = s.timers.image s.activeOf

def Absent (s : TimerQueue) (timer : Addr) : Prop := ∀ e ∈ s.timers, e.timer ≠ timer

theorem entry_ext {e e' : Entry} (when : e.when = e'.when) (timer : e.timer = e'.timer) : e = e' := by
  have both : ofLex e = ofLex e' := Prod.ext when timer
  exact ofLex_inj.mp both

theorem first_some (h : s.first = some e) : e ∈ s.timers ∧ ∀ e' ∈ s.timers, e ≤ e' :=
  ⟨Finset.mem_of_min h, fun _ member => Finset.min_le_of_eq member h⟩

theorem first_none (h : s.first = none) : s.timers = ∅ := Finset.min_eq_top.mp h

theorem when_le {e e' : Entry} (le : e ≤ e') : e.when ≤ e'.when := by
  rcases Prod.Lex.le_iff.mp le with lt | ⟨eq, _⟩
  · exact Int.le_of_lt lt
  · exact Int.le_of_eq eq

theorem sequenceAt_eq (live : s.heap timer = some t) : s.sequenceAt timer = t.sequence := by
  rw [sequenceAt, live]

theorem sequenceAt_congr (same : s'.heap timer = s.heap timer) : s'.sequenceAt timer = s.sequenceAt timer := by
  rw [sequenceAt, sequenceAt, same]

theorem activeOf_eq (live : s.heap timer = some t) (when : Timestamp) :
    s.activeOf (Entry.of when timer) = (timer, t.sequence) :=
  Prod.ext rfl (sequenceAt_eq live)

theorem Agree.unique (h : s.Agree) {e e' : Entry} (member : e ∈ s.timers) (member' : e' ∈ s.timers)
    (same : e.timer = e'.timer) : e = e' := by
  obtain ⟨t, live, key⟩ := h.keys e member
  obtain ⟨t', live', key'⟩ := h.keys e' member'
  rw [same, live', Option.some.injEq] at live
  refine entry_ext ?_ same
  rw [← key, ← key', live]

theorem Agree.injOn (h : s.Agree) : Set.InjOn s.activeOf s.timers := by
  intro e member e' member' same
  exact h.unique member member' (Prod.mk.inj same).1

theorem Agree.sizes (h : s.Agree) : s.assertSizes = .ok () := by
  rw [assertSizes, if_pos]
  rw [h.active, Finset.card_image_of_injOn h.injOn]

theorem Agree.mem_active (h : s.Agree) {timerId : ActiveTimer} :
    timerId ∈ s.activeTimers ↔ ∃ t, s.heap timerId.1 = some t ∧ t.sequence = timerId.2 ∧
      Entry.of t.expiration timerId.1 ∈ s.timers := by
  rw [h.active, Finset.mem_image]
  constructor
  · rintro ⟨e, member, rfl⟩
    obtain ⟨t, live, key⟩ := h.keys e member
    refine ⟨t, live, (sequenceAt_eq live).symm, ?_⟩
    rw [key]
    exact member
  · rintro ⟨t, live, sequence, member⟩
    refine ⟨_, member, Prod.ext rfl ?_⟩
    rw [← sequence]
    exact sequenceAt_eq live

theorem Agree.of_heap (h : s.Agree) (heap : ∀ e ∈ s.timers, s'.heap e.timer = s.heap e.timer)
    (timers : s'.timers = s.timers) (active : s'.activeTimers = s.activeTimers) : s'.Agree := by
  refine ⟨fun e member => ?_, ?_⟩
  · rw [timers] at member
    rw [heap e member]
    exact h.keys e member
  · rw [active, timers, h.active]
    refine Finset.image_congr fun e member => ?_
    exact Prod.ext rfl (sequenceAt_congr (heap e member)).symm

def inserted (s : TimerQueue) (timer : Addr) (t : Timer) : TimerQueue :=
  { s with
    timers := Insert.insert (Entry.of t.expiration timer) s.timers
    activeTimers := Insert.insert (timer, t.sequence) s.activeTimers }

theorem inserted_agree (h : s.Agree) (live : s.heap timer = some t) : (s.inserted timer t).Agree := by
  refine ⟨fun e member => ?_, ?_⟩
  · rcases Finset.mem_insert.mp member with rfl | old
    · exact ⟨t, live, rfl⟩
    · exact h.keys e old
  · show Insert.insert _ s.activeTimers = (Insert.insert _ s.timers).image _
    rw [Finset.image_insert, h.active, ← activeOf_eq live t.expiration]
    rfl

theorem insert_eq (h : s.Agree) (live : s.heap timer = some t) (absent : s.Absent timer) :
    s.insert timer = .ok (s.earliestChanged t.expiration, s.inserted timer t) := by
  have entry : Entry.of t.expiration timer ∉ s.timers := fun member => absent _ member rfl
  have active : (timer, t.sequence) ∉ s.activeTimers := by
    rw [h.mem_active]
    rintro ⟨u, live', _, member⟩
    exact absent _ member rfl
  have sizes : (s.inserted timer t).assertSizes = .ok () := (inserted_agree h live).sizes
  unfold insert
  rw [h.sizes, deref, live, Lib.ok_bind, Lib.ok_bind, if_neg entry, if_neg active]
  show (s.inserted timer t).assertSizes >>= _ = _
  rw [sizes]
  rfl

def removed (s : TimerQueue) (timer : Addr) (t : Timer) : TimerQueue :=
  { s with
    timers := s.timers.erase (Entry.of t.expiration timer)
    heap := Function.update s.heap timer none
    deleted := s.deleted ++ [t.sequence]
    activeTimers := s.activeTimers.erase (timer, t.sequence) }

theorem removed_agree (h : s.Agree) (live : s.heap timer = some t)
    (member : Entry.of t.expiration timer ∈ s.timers) : (s.removed timer t).Agree := by
  have others : ∀ e ∈ s.timers.erase (Entry.of t.expiration timer),
      (s.removed timer t).heap e.timer = s.heap e.timer := by
    intro e inside
    obtain ⟨other, inside⟩ := Finset.mem_erase.mp inside
    exact Function.update_of_ne (fun same => other (h.unique inside member same)) _ _
  refine ⟨fun e inside => ?_, ?_⟩
  · rw [others e inside]
    exact h.keys e (Finset.mem_of_mem_erase inside)
  · show s.activeTimers.erase _ = (s.timers.erase _).image _
    rw [h.active, ← activeOf_eq live t.expiration]
    ext pair
    simp only [Finset.mem_erase, Finset.mem_image]
    constructor
    · rintro ⟨other, e, inside, rfl⟩
      have ne : e ≠ Entry.of t.expiration timer := fun same => other (by rw [same])
      refine ⟨e, ⟨ne, inside⟩, Prod.ext rfl ?_⟩
      exact sequenceAt_congr (others e (Finset.mem_erase.mpr ⟨ne, inside⟩))
    · rintro ⟨e, ⟨ne, inside⟩, rfl⟩
      have same : (s.removed timer t).activeOf e = s.activeOf e :=
        Prod.ext rfl (sequenceAt_congr (others e (Finset.mem_erase.mpr ⟨ne, inside⟩)))
      rw [same]
      exact ⟨fun eq => ne (h.injOn inside member eq), e, inside, rfl⟩

/-! ### The expired timers -/

/-- The entries before the sentry of `getExpired`. -/
def isExpired (now : Timestamp) (e : Entry) : Prop := e < Entry.of now UINTPTR_MAX

instance (now : Timestamp) : DecidablePred (isExpired now) := fun _ => inferInstanceAs (Decidable (_ < _))

def expiredAt (s : TimerQueue) (now : Timestamp) : List Entry := Lib.inOrder (s.timers.filter (isExpired now))

/-- The sentry comes behind every timer that expires at `now`. -/
theorem isExpired_iff {now : Timestamp} (below : e.timer < UINTPTR_MAX) : isExpired now e ↔ e.when ≤ now := by
  rw [isExpired, Prod.Lex.lt_iff, Int.le_iff_lt_or_eq]
  exact or_congr_right ⟨fun same => same.1, fun same => ⟨same, below⟩⟩

def kept (s : TimerQueue) (now : Timestamp) : TimerQueue :=
  { s with
    timers := s.timers.filter fun e => ¬ isExpired now e
    activeTimers := (s.timers.filter fun e => ¬ isExpired now e).image s.activeOf }

theorem mem_expiredAt {now : Timestamp} : e ∈ s.expiredAt now ↔ e ∈ s.timers ∧ isExpired now e := by
  rw [expiredAt, Lib.mem_inOrder, Finset.mem_filter]

theorem kept_agree (h : s.Agree) (now : Timestamp) : (s.kept now).Agree :=
  ⟨fun e member => h.keys e (Finset.mem_filter.mp member).1, rfl⟩

theorem eraseActive_all (expired : List Entry) (live : ∀ e ∈ expired, ∃ t, s.heap e.timer = some t)
    (members : ∀ e ∈ expired, s.activeOf e ∈ s.activeTimers) (nodup : (expired.map s.activeOf).Nodup) :
    expired.foldlM eraseActive s =
      .ok { s with activeTimers := s.activeTimers \ (expired.map s.activeOf).toFinset } := by
  induction expired generalizing s with
  | nil =>
    show Except.ok s = Except.ok { s with activeTimers := s.activeTimers \ ∅ }
    rw [Finset.sdiff_empty]
  | cons e rest ih =>
    obtain ⟨t, found⟩ := live e List.mem_cons_self
    have active : s.activeOf e = (e.timer, t.sequence) := Prod.ext rfl (sequenceAt_eq found)
    have member := members e List.mem_cons_self
    have erased : eraseActive s e = .ok { s with activeTimers := s.activeTimers.erase (s.activeOf e) } := by
      unfold eraseActive
      rw [deref, found, Lib.ok_bind, ← active, if_pos member]
    rw [List.map_cons, List.nodup_cons] at nodup
    rw [List.foldlM_cons, erased, Lib.ok_bind, ih (s := { s with activeTimers := s.activeTimers.erase (s.activeOf e) })]
    · congr 2
      ext pair
      simp only [Finset.mem_sdiff, Finset.mem_erase, List.mem_toFinset, List.map_cons, List.mem_cons, not_or]
      exact ⟨fun ⟨⟨other, inside⟩, out⟩ => ⟨inside, other, out⟩, fun ⟨inside, other, out⟩ => ⟨⟨other, inside⟩, out⟩⟩
    · exact fun e inside => live e (List.mem_cons_of_mem _ inside)
    · intro e' inside
      refine Finset.mem_erase.mpr ⟨fun same => nodup.1 ?_, members e' (List.mem_cons_of_mem _ inside)⟩
      rw [← same]
      exact List.mem_map_of_mem inside
    · exact nodup.2

theorem kept_active (h : s.Agree) (now : Timestamp) :
    s.activeTimers \ ((s.expiredAt now).map s.activeOf).toFinset = (s.kept now).activeTimers := by
  rw [h.active]
  ext pair
  simp only [kept, Finset.mem_sdiff, Finset.mem_image, List.mem_toFinset, List.mem_map, mem_expiredAt,
    Finset.mem_filter]
  constructor
  · rintro ⟨⟨e, member, rfl⟩, out⟩
    exact ⟨e, ⟨member, fun before => out ⟨e, ⟨member, before⟩, rfl⟩⟩, rfl⟩
  · rintro ⟨e, ⟨member, later⟩, rfl⟩
    refine ⟨⟨e, member, rfl⟩, ?_⟩
    rintro ⟨e', ⟨member', before⟩, same⟩
    exact later (h.injOn member' member same ▸ before)

theorem getExpired_eq (h : s.Agree) (now : Timestamp) :
    s.getExpired now = .ok (s.expiredAt now, s.kept now) := by
  have inside : ∀ e ∈ s.expiredAt now, e ∈ s.timers := fun e member => (mem_expiredAt.mp member).1
  have live : ∀ e ∈ s.expiredAt now, ∃ t, s.heap e.timer = some t := by
    intro e member
    obtain ⟨t, found, _⟩ := h.keys e (inside e member)
    exact ⟨t, found⟩
  have members : ∀ e ∈ s.expiredAt now, s.activeOf e ∈ s.activeTimers := by
    intro e member
    rw [h.active]
    exact Finset.mem_image_of_mem _ (inside e member)
  have nodup : ((s.expiredAt now).map s.activeOf).Nodup := by
    refine List.Nodup.map_on ?_ (Lib.inOrder_nodup _)
    intro e member e' member' same
    exact h.injOn (inside e member) (inside e' member') same
  have erased : (s.expiredAt now).foldlM eraseActive
      { s with timers := s.timers.filter fun e => ¬ isExpired now e } = .ok (s.kept now) := by
    have all := eraseActive_all (s := { s with timers := s.timers.filter fun e => ¬ isExpired now e })
      (s.expiredAt now) live members nodup
    have active := kept_active h now
    exact all.trans (congrArg (fun pairs => Except.ok { s.kept now with activeTimers := pairs }) active)
  unfold getExpired
  rw [h.sizes, Lib.ok_bind]
  show (s.expiredAt now).foldlM eraseActive { s with timers := s.timers.filter fun e => ¬ isExpired now e } >>= _ = _
  rw [erased, Lib.ok_bind, (kept_agree h now).sizes]
  rfl

/-! ### Places -/

/-- In how many places a timer is held; `batch` is what is left of the batch. -/
def places (s : TimerQueue) (batch : List Entry) (timer : Addr) : Nat :=
  (if timer ∈ s.waiting then 1 else 0) + s.timers.val.countP (fun e => e.timer = timer) +
    batch.countP (fun e => e.timer = timer)

def Owned (s : TimerQueue) (batch : List Entry) : Prop :=
  ∀ timer, s.places batch timer = if (s.heap timer).isSome then 1 else 0

theorem timers_pos : 0 < s.timers.val.countP (fun e => e.timer = timer) ↔ ∃ e ∈ s.timers, e.timer = timer := by
  rw [Multiset.countP_pos]
  rfl

theorem batch_pos : 0 < batch.countP (fun e => decide (e.timer = timer)) ↔ ∃ e ∈ batch, e.timer = timer := by
  simp [List.countP_pos_iff]

theorem Owned.live (h : s.Owned batch) (timer : Addr) (held : 0 < s.places batch timer) :
    ∃ t, s.heap timer = some t := by
  have one := h timer
  split at one
  · rename_i some
    exact Option.isSome_iff_exists.mp some
  · omega

theorem Owned.le_one (h : s.Owned batch) (timer : Addr) : s.places batch timer ≤ 1 := by
  have one := h timer
  split at one <;> omega

theorem Owned.waiting (h : s.Owned batch) (member : timer ∈ s.waiting) :
    s.Absent timer ∧ (∀ e ∈ batch, e.timer ≠ timer) ∧ ∃ t, s.heap timer = some t := by
  have le := h.le_one timer
  have live := h.live timer
  unfold places at le live
  rw [if_pos member] at le live
  refine ⟨fun e inside same => ?_, fun e inside same => ?_, live (by omega)⟩
  · have pos := timers_pos.mpr ⟨e, inside, same⟩
    omega
  · have pos := batch_pos.mpr ⟨e, inside, same⟩
    omega

theorem Owned.inside (h : s.Owned batch) (member : e ∈ s.timers) :
    e.timer ∉ s.waiting ∧ ∀ e' ∈ batch, e'.timer ≠ e.timer := by
  have le := h.le_one e.timer
  have pos := timers_pos.mpr ⟨e, member, rfl⟩
  unfold places at le
  refine ⟨fun waiting => ?_, fun e' inside same => ?_⟩
  · rw [if_pos waiting] at le
    omega
  · have more := batch_pos.mpr ⟨e', inside, same⟩
    omega

theorem Owned.first (h : s.Owned (e :: batch)) :
    e.timer ∉ s.waiting ∧ s.Absent e.timer ∧ (∀ e' ∈ batch, e'.timer ≠ e.timer) ∧
      ∃ t, s.heap e.timer = some t := by
  have le := h.le_one e.timer
  have live := h.live e.timer
  unfold places at le live
  rw [List.countP_cons_of_pos (by simp)] at le live
  refine ⟨fun waiting => ?_, fun e' inside same => ?_, fun e' inside same => ?_, live (by omega)⟩
  · rw [if_pos waiting] at le
    omega
  · have pos := timers_pos.mpr ⟨e', inside, same⟩
    omega
  · have pos := batch_pos.mpr ⟨e', inside, same⟩
    omega

theorem countP_insert {timers : Finset Entry} (fresh : e ∉ timers) (timer : Addr) :
    (Insert.insert e timers).val.countP (fun e => e.timer = timer) =
      timers.val.countP (fun e => e.timer = timer) + if e.timer = timer then 1 else 0 := by
  rw [Finset.insert_val_of_notMem fresh, Multiset.countP_cons]

theorem countP_erase {timers : Finset Entry} (member : e ∈ timers) (timer : Addr) :
    timers.val.countP (fun e => e.timer = timer) =
      (timers.erase e).val.countP (fun e => e.timer = timer) + if e.timer = timer then 1 else 0 := by
  have back := countP_insert (Finset.notMem_erase e timers) timer
  rwa [Finset.insert_erase member] at back

theorem isSome_update {heap : Addr → Option Timer} {value : Option Timer} (other : Addr) :
    (Function.update heap timer value other).isSome = if other = timer then value.isSome else (heap other).isSome := by
  by_cases same : other = timer
  · rw [same, Function.update_self, if_pos rfl]
  · rw [Function.update_of_ne same, if_neg same]

theorem countP_kept (s : TimerQueue) (now : Timestamp) (timer : Addr) :
    s.timers.val.countP (fun e => e.timer = timer) =
      (s.kept now).timers.val.countP (fun e => e.timer = timer) +
        (s.expiredAt now).countP (fun e => e.timer = timer) := by
  have sorted : (s.expiredAt now).countP (fun e => e.timer = timer) =
      (s.timers.filter (isExpired now)).val.countP (fun e => e.timer = timer) := by
    rw [← Lib.coe_inOrder (s.timers.filter (isExpired now)), Multiset.coe_countP]
    rfl
  have both := congrArg (Multiset.countP fun e => Entry.timer e = timer)
    (Multiset.filter_add_not (isExpired now) s.timers.val)
  rw [Multiset.countP_add] at both
  rw [sorted, ← both, Nat.add_comm]
  rfl

theorem Owned.move (h : s.Owned batch) (heap : ∀ timer, (s'.heap timer).isSome = (s.heap timer).isSome)
    (places : ∀ timer, s'.places batch' timer = s.places batch timer) : s'.Owned batch' := by
  intro timer
  rw [places, heap]
  exact h timer

/-- A timer is deleted where it is taken from the one place it was in. -/
theorem Owned.delete (h : s.Owned batch) (live : s.heap timer = some t)
    (heap : s'.heap = Function.update s.heap timer none)
    (places : ∀ other, s.places batch other = s'.places batch' other + if timer = other then 1 else 0) :
    s'.Owned batch' := by
  intro other
  have before := h other
  rw [places] at before
  rw [heap, isSome_update]
  by_cases same : other = timer
  · subst same
    rw [live, if_pos rfl, if_pos (Option.isSome_some)] at before
    rw [if_pos rfl, if_neg (by simp)]
    omega
  · rw [if_neg (Ne.symm same), Nat.add_zero] at before
    rwa [if_neg same]

theorem kept_owned (h : s.Owned []) (now : Timestamp) : (s.kept now).Owned (s.expiredAt now) := by
  refine h.move (fun _ => rfl) fun timer => ?_
  unfold places
  rw [countP_kept s now, List.countP_nil, Nat.add_zero, Nat.add_assoc]
  rfl

/-! ### Sequence numbers -/

structure Named (s : TimerQueue) : Prop where
  live : ∀ timer t, s.heap timer = some t → t.sequence ≤ s.numCreated ∧ t.sequence ∉ s.deleted
  distinct : ∀ timer timer' t t', s.heap timer = some t → s.heap timer' = some t' → t.sequence = t'.sequence →
    timer = timer'
  deleted_le : ∀ sequence ∈ s.deleted, sequence ≤ s.numCreated
  nodup : s.deleted.Nodup
  handed : ∀ sequence, sequence ∈ s.handed ↔ sequence ∈ s.deleted ∨
    ∃ timer t, s.heap timer = some t ∧ t.sequence = sequence ∧ timer ∉ s.waiting

theorem Named.of_eq (h : s.Named) (heap : s'.heap = s.heap) (numCreated : s'.numCreated = s.numCreated)
    (deleted : s'.deleted = s.deleted) (handed : s'.handed = s.handed) (waiting : s'.waiting = s.waiting) :
    s'.Named := by
  refine ⟨?_, ?_, ?_, ?_, ?_⟩
  · rw [heap, numCreated, deleted]
    exact h.live
  · rw [heap]
    exact h.distinct
  · rw [deleted, numCreated]
    exact h.deleted_le
  · rw [deleted]
    exact h.nodup
  · rw [heap, deleted, handed, waiting]
    exact h.handed

theorem Named.delete (h : s.Named) (live : s.heap timer = some t) (out : timer ∉ s.waiting)
    (heap : s'.heap = Function.update s.heap timer none) (deleted : s'.deleted = s.deleted ++ [t.sequence])
    (numCreated : s'.numCreated = s.numCreated) (handed : s'.handed = s.handed) (waiting : s'.waiting = s.waiting) :
    s'.Named := by
  have other : ∀ {timer' t'}, s'.heap timer' = some t' → timer' ≠ timer ∧ s.heap timer' = some t' := by
    intro timer' t' found
    rw [heap] at found
    by_cases same : timer' = timer
    · rw [same, Function.update_self] at found
      cases found
    · exact ⟨same, by rwa [Function.update_of_ne same] at found⟩
  have new : ∀ sequence, sequence ∈ s'.deleted ↔ sequence ∈ s.deleted ∨ sequence = t.sequence := by
    intro sequence
    rw [deleted, List.mem_append, List.mem_singleton]
  refine ⟨fun timer' t' found => ?_, fun timer' timer'' t' t'' found found' => ?_, fun sequence member => ?_, ?_, ?_⟩
  · obtain ⟨ne, old⟩ := other found
    obtain ⟨le, notDeleted⟩ := h.live timer' t' old
    rw [numCreated, new]
    exact ⟨le, fun gone => gone.elim notDeleted fun same => ne (h.distinct _ _ _ _ old live same)⟩
  · exact h.distinct _ _ _ _ (other found).2 (other found').2
  · rw [numCreated]
    rcases (new sequence).mp member with old | rfl
    · exact h.deleted_le sequence old
    · exact (h.live timer t live).1
  · rw [deleted, List.nodup_append]
    refine ⟨h.nodup, List.nodup_singleton _, fun sequence member sequence' last same => ?_⟩
    rw [List.mem_singleton.mp last] at same
    exact (h.live timer t live).2 (same ▸ member)
  · intro sequence
    rw [handed, h.handed, new, waiting, heap]
    constructor
    · rintro (gone | ⟨timer', t', found, rfl, handedOver⟩)
      · exact .inl (.inl gone)
      · by_cases same : timer' = timer
        · rw [same, live, Option.some.injEq] at found
          exact .inl (.inr (by rw [found]))
        · exact .inr ⟨timer', t', by rw [Function.update_of_ne same]; exact found, rfl, handedOver⟩
    · rintro ((gone | rfl) | ⟨timer', t', found, rfl, handedOver⟩)
      · exact .inl gone
      · exact .inr ⟨timer, t, live, rfl, out⟩
      · exact .inr ⟨timer', t', (other (heap ▸ found)).2, rfl, handedOver⟩

theorem Named.update {t' : Timer} (h : s.Named) (live : s.heap timer = some t) (same : t'.sequence = t.sequence) :
    Named { s with heap := Function.update s.heap timer (some t') } := by
  have old : ∀ {other u}, Function.update s.heap timer (some t') other = some u →
      ∃ v, s.heap other = some v ∧ v.sequence = u.sequence := by
    intro other u found
    by_cases eq : other = timer
    · rw [eq, Function.update_self, Option.some.injEq] at found
      exact ⟨t, by rw [eq, live], by rw [← found, same]⟩
    · rw [Function.update_of_ne eq] at found
      exact ⟨u, found, rfl⟩
  refine ⟨fun other u found => ?_, fun a b u v found found' eq => ?_, h.deleted_le, h.nodup, fun sequence => ?_⟩
  · obtain ⟨v, before, number⟩ := old found
    rw [← number]
    exact h.live other v before
  · obtain ⟨u', before, number⟩ := old found
    obtain ⟨v', before', number'⟩ := old found'
    exact h.distinct _ _ _ _ before before' (by rw [number, number', eq])
  · rw [h.handed]
    refine or_congr_right ⟨?_, ?_⟩
    · rintro ⟨other, u, found, number, out⟩
      by_cases eq : other = timer
      · rw [eq, live, Option.some.injEq] at found
        exact ⟨timer, t', Function.update_self .., by rw [same, found, number], eq ▸ out⟩
      · exact ⟨other, u, (Function.update_of_ne eq _ _).trans found, number, out⟩
    · rintro ⟨other, u, found, number, out⟩
      obtain ⟨v, before, eq⟩ := old found
      exact ⟨other, v, before, eq.trans number, out⟩

/-! ### The operations -/

/-- `batch` is what is left of the batch. -/
structure Sound (s : TimerQueue) (batch : List Entry) : Prop where
  agree : s.Agree
  owned : s.Owned batch
  named : s.Named

theorem Sound.of_eq (h : s.Sound batch) (heap : s'.heap = s.heap) (waiting : s'.waiting = s.waiting)
    (timers : s'.timers = s.timers) (active : s'.activeTimers = s.activeTimers)
    (numCreated : s'.numCreated = s.numCreated) (deleted : s'.deleted = s.deleted)
    (handed : s'.handed = s.handed) : s'.Sound batch := by
  refine ⟨h.agree.of_heap (fun _ _ => by rw [heap]) timers active,
    h.owned.move (fun _ => by rw [heap]) fun timer => ?_, h.named.of_eq heap numCreated deleted handed waiting⟩
  rw [places, waiting, timers]
  rfl

theorem Named.new (h : s.Named) (free : s.heap timer = none) (when : Timestamp) (interval : Seconds) :
    (s.newTimer timer when interval).Named := by
  have old : ∀ {other u}, (s.newTimer timer when interval).heap other = some u →
      (other = timer ∧ u.sequence = s.numCreated + 1) ∨ s.heap other = some u := by
    intro other u found
    by_cases eq : other = timer
    · have value : (s.newTimer timer when interval).heap timer = some _ := Function.update_self ..
      rw [eq, value, Option.some.injEq] at found
      exact .inl ⟨eq, by rw [← found]⟩
    · exact .inr ((Function.update_of_ne eq _ _).symm.trans found)
  have created : (s.newTimer timer when interval).numCreated = s.numCreated + 1 := rfl
  refine ⟨fun other u found => ?_, fun a b u v found found' same => ?_, fun sequence member => ?_, h.nodup,
    fun sequence => ?_⟩
  · rcases old found with ⟨_, number⟩ | before
    · refine ⟨by rw [number, created], fun gone => ?_⟩
      have le := h.deleted_le _ gone
      omega
    · obtain ⟨le, kept⟩ := h.live other u before
      exact ⟨Nat.le_succ_of_le le, kept⟩
  · rcases old found with ⟨eq, number⟩ | before
    · rcases old found' with ⟨eq', _⟩ | before'
      · rw [eq, eq']
      · have le := (h.live b v before').1
        omega
    · rcases old found' with ⟨_, number'⟩ | before'
      · have le := (h.live a u before).1
        omega
      · exact h.distinct _ _ _ _ before before' same
  · exact Nat.le_succ_of_le (h.deleted_le sequence member)
  · show sequence ∈ s.handed ↔ sequence ∈ s.deleted ∨ _
    rw [h.handed]
    refine or_congr_right ⟨?_, ?_⟩
    · rintro ⟨other, u, found, number, out⟩
      have eq : other ≠ timer := by
        rintro rfl
        rw [free] at found
        cases found
      refine ⟨other, u, (Function.update_of_ne eq _ _).trans found, number, fun member => ?_⟩
      exact (Finset.mem_insert.mp member).elim eq out
    · rintro ⟨other, u, found, number, out⟩
      rcases old found with ⟨rfl, _⟩ | before
      · exact absurd (Finset.mem_insert_self _ _) out
      · exact ⟨other, u, before, number, fun member => out (Finset.mem_insert_of_mem member)⟩

theorem newTimer_sound (h : s.Sound batch) (free : s.heap timer = none) (when : Timestamp) (interval : Seconds) :
    (s.newTimer timer when interval).Sound batch := by
  have out : timer ∉ s.waiting := by
    intro member
    obtain ⟨_, _, _, found⟩ := h.owned.waiting member
    rw [free] at found
    cases found
  have absent : ∀ e ∈ s.timers, e.timer ≠ timer := by
    intro e member same
    obtain ⟨_, found, _⟩ := h.agree.keys e member
    rw [same, free] at found
    cases found
  refine ⟨h.agree.of_heap (fun e member => Function.update_of_ne (absent e member) _ _) rfl rfl, ?_,
    h.named.new free when interval⟩
  intro other
  have before := h.owned other
  show (if other ∈ Insert.insert timer s.waiting then 1 else 0) + s.timers.val.countP _ + batch.countP _ =
    if (Function.update s.heap timer (some _) other).isSome then 1 else 0
  rw [isSome_update]
  unfold places at before
  by_cases same : other = timer
  · subst same
    rw [free, if_neg out] at before
    simp only [Finset.mem_insert, true_or, if_true, Option.isSome_none, Option.isSome_some, Bool.false_eq_true,
      if_false] at before ⊢
    omega
  · simpa only [Finset.mem_insert, same, false_or, if_false] using before

def added (s : TimerQueue) (timer : Addr) (t : Timer) : TimerQueue :=
  { s.inserted timer t with waiting := s.waiting.erase timer, handed := s.handed ++ [t.sequence] }

theorem Named.added (h : s.Named) (live : s.heap timer = some t) :
    (s.added timer t).Named := by
  refine ⟨h.live, h.distinct, h.deleted_le, h.nodup, fun sequence => ?_⟩
  show sequence ∈ s.handed ++ [t.sequence] ↔ sequence ∈ s.deleted ∨
    ∃ other u, s.heap other = some u ∧ u.sequence = sequence ∧ other ∉ s.waiting.erase timer
  rw [List.mem_append, List.mem_singleton, h.handed]
  constructor
  · rintro ((gone | ⟨other, u, found, number, out⟩) | rfl)
    · exact .inl gone
    · exact .inr ⟨other, u, found, number, fun inside => out (Finset.mem_of_mem_erase inside)⟩
    · exact .inr ⟨timer, t, live, rfl, Finset.notMem_erase _ _⟩
  · rintro (gone | ⟨other, u, found, number, out⟩)
    · exact .inl (.inl gone)
    · by_cases same : other = timer
      · rw [same, live, Option.some.injEq] at found
        exact .inr (by rw [← number, found])
      · exact .inl (.inr ⟨other, u, found, number, fun inside => out (Finset.mem_erase.mpr ⟨same, inside⟩)⟩)

theorem added_sound (h : s.Sound batch) (member : timer ∈ s.waiting) (live : s.heap timer = some t) :
    (s.added timer t).Sound batch := by
  obtain ⟨absent, _⟩ := h.owned.waiting member
  have fresh : Entry.of t.expiration timer ∉ s.timers := fun inside => absent _ inside rfl
  refine ⟨(inserted_agree h.agree live).of_heap (fun _ _ => rfl) rfl rfl,
    h.owned.move (fun _ => rfl) fun other => ?_, h.named.added live⟩
  show (if other ∈ s.waiting.erase timer then 1 else 0) + (Insert.insert _ s.timers).val.countP _ + batch.countP _ = _
  rw [countP_insert fresh]
  unfold places
  show _ + (_ + if timer = other then 1 else 0) + _ = _
  by_cases same : other = timer
  · subst same
    simp only [Finset.mem_erase, ne_eq, not_true_eq_false, false_and, if_false, if_true, member]
    omega
  · simp only [Finset.mem_erase, ne_eq, same, not_false_eq_true, true_and, Ne.symm same, if_false, Nat.add_zero]

theorem removed_sound (h : s.Sound batch) (live : s.heap timer = some t)
    (member : Entry.of t.expiration timer ∈ s.timers) : (s.removed timer t).Sound batch := by
  obtain ⟨out, _⟩ := h.owned.inside member
  refine ⟨removed_agree h.agree live member, h.owned.delete live rfl fun other => ?_,
    h.named.delete live out rfl rfl rfl rfl rfl⟩
  unfold places
  rw [countP_erase member]
  show _ + (_ + if timer = other then 1 else 0) + _ = _ + (s.timers.erase _).val.countP _ + _ + _
  rw [← Nat.add_assoc, Nat.add_right_comm]
  rfl

theorem deleted_sound (h : s.Sound (e :: batch)) (live : s.heap e.timer = some t) :
    Sound { s with heap := Function.update s.heap e.timer none, deleted := s.deleted ++ [t.sequence] } batch := by
  obtain ⟨out, absent, _, _⟩ := h.owned.first
  refine ⟨h.agree.of_heap (fun e' inside => Function.update_of_ne (absent e' inside) _ _) rfl rfl,
    h.owned.delete live rfl fun other => ?_, h.named.delete live out rfl rfl rfl rfl rfl⟩
  unfold places
  rw [List.countP_cons]
  simp only [decide_eq_true_eq]
  exact (Nat.add_assoc ..).symm

theorem restarted_sound {t' : Timer} (h : s.Sound (e :: batch)) (live : s.heap e.timer = some t)
    (number : t'.sequence = t.sequence) :
    (inserted { s with heap := Function.update s.heap e.timer (some t') } e.timer t').Sound batch := by
  obtain ⟨out, absent, _, _⟩ := h.owned.first
  have agree : Agree { s with heap := Function.update s.heap e.timer (some t') } :=
    h.agree.of_heap (fun e' inside => Function.update_of_ne (absent e' inside) _ _) rfl rfl
  have fresh : Entry.of t'.expiration e.timer ∉ s.timers := fun inside => absent _ inside rfl
  refine ⟨inserted_agree agree (Function.update_self ..), h.owned.move (fun other => ?_) fun other => ?_,
    (h.named.update live number).of_eq rfl rfl rfl rfl rfl⟩
  · show (Function.update s.heap e.timer (some t') other).isSome = _
    rw [isSome_update]
    split
    · rename_i same
      rw [same, live]
      rfl
    · rfl
  · show (if other ∈ s.waiting then 1 else 0) + (Insert.insert _ s.timers).val.countP _ + batch.countP _ = _
    rw [countP_insert fresh]
    unfold places
    rw [List.countP_cons]
    simp only [decide_eq_true_eq]
    rw [← Nat.add_assoc, ← Nat.add_assoc, Nat.add_right_comm]
    rfl

end TimerQueue

end Dserver.Net
