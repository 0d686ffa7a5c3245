import Dserver.Base.LogConservation

/-!
# `stop` and the last lines

`stop` clears `running_` and waits for the thread, which does not come back for what it has not taken: a thread
that is writing, or before its test of `running_`, leaves the current buffer behind.
-/

namespace Dserver

namespace AsyncLogging

variable {s s' t : AsyncLogging} {n : Nat}

/-- The first `n` lines are in buffers that were taken, and all of these have been written. -/
def Flushed (s : AsyncLogging) (n : Nat) : Prop :=
  s.appended.take n <+: s.takenLines ∧ s.written = (s.taken.flatMap kept).map bytes

/-- The thread is still to take the buffers, or it has taken the first `n` lines. -/
def Safe (s : AsyncLogging) (n : Nat) : Prop := s.Collecting ∨ n ≤ s.takenLines.length

/-- `running_` has been cleared for a `stop` that was called behind the `n`th line. -/
def Cleared (s : AsyncLogging) (n : Nat) : Prop :=
  s.running = false ∧ n ≤ s.appended.length ∧
    (s.stopping = .cleared n ∨ s.stopping = .joining n ∨ (s.stopping = .returned n ∧ s.func = .exited))

theorem takenLines_front (h : s.Inv) : s.takenLines <+: s.appended := by
  rw [← h.lines, List.append_assoc, List.flatMap_append]
  exact List.prefix_append _ _

theorem collect_safe (h : s.Inv) (place : s.Collecting) (before : n ≤ s.appended.length) : s.collect.Safe n :=
  .inr (by rw [(collect_spec h place).2.1]; exact before)

theorem safe_congr (h : ¬ s.Collecting) (h' : ¬ s'.Collecting) (taken : s'.taken = s.taken) : s'.Safe n ↔ s.Safe n := by
  unfold Safe takenLines
  rw [taken]
  exact ⟨fun safe => .inr (safe.resolve_left h'), fun safe => .inr (safe.resolve_left h)⟩

theorem not_collecting {place : FuncState} (h : s.func = place) (cycle : place ≠ .cycle) (waiting : place ≠ .waiting) :
    ¬ s.Collecting := fun collecting => by
  rcases collecting with there | there
  · exact cycle (h.symm.trans there)
  · exact waiting (h.symm.trans there)

theorem exited_not_collecting (h : s.func = .exited) : ¬ s.Collecting := by
  rintro (there | there)
  · cases h.symm.trans there
  · cases h.symm.trans there

theorem cleared_frame (h : s.Cleared n) (place : s.func ≠ .exited) (running : s'.running = s.running)
    (appended : s'.appended = s.appended) (stopping : s'.stopping = s.stopping) : s'.Cleared n := by
  obtain ⟨stopped, before, called⟩ := h
  refine ⟨running.trans stopped, appended ▸ before, ?_⟩
  rw [stopping]
  exact called.imp_right (Or.imp_right fun ⟨_, exited⟩ => absurd exited place)

theorem collect_cleared (h : s.Inv) (cleared : s.Cleared n) (place : s.Collecting) :
    s.collect.Cleared n ∧ (s.collect.Safe n ↔ s.Safe n) := by
  obtain ⟨_, _, _, running, appended, stopping⟩ := collect_spec h place
  have live : s.func ≠ .exited := by rcases place with there | there <;> rw [there] <;> nofun
  exact ⟨cleared_frame cleared live running appended stopping,
    fun _ => .inl place, fun _ => collect_safe h place cleared.2.1⟩

/-- What decides whether the lines are written is the same before and after each step. -/
theorem effect_safe (h : s.Inv) (cleared : s.Cleared n) (effect : s.Effect s') :
    s'.Cleared n ∧ (s'.Safe n ↔ s.Safe n) := by
  obtain ⟨stopped, before, stopping⟩ := id cleared
  have called : s.stopping ≠ .notCalled := by rcases stopping with there | there | ⟨there, _⟩ <;> rw [there] <;> nofun
  cases effect with
  | appends logline eq =>
    rw [eq]
    exact ⟨⟨stopped, by simpa using Nat.le_succ_of_le before, stopping⟩, Iff.rfl⟩
  | starts place => exact absurd place (h.called called).1
  | enters place => exact absurd place (h.called called).2
  | tests place eq =>
    subst eq
    have exits : s.test.func = .exited := by simp [test, stopped]
    exact ⟨cleared_frame cleared (by rw [place]; nofun) rfl rfl rfl,
      safe_congr (not_collecting place nofun nofun) (exited_not_collecting exits) rfl⟩
  | waits place eq =>
    subst eq
    exact ⟨cleared_frame cleared (by rw [place]; nofun) rfl rfl rfl, fun _ => .inl (.inl place), fun _ => .inl (.inr rfl)⟩
  | collects place eq =>
    subst eq
    exact collect_cleared h cleared place
  | goes place place' there there' away away' eq =>
    refine ⟨cleared_frame cleared (there ▸ away.2.2) (by rw [eq]) (by rw [eq]) (by rw [eq]), ?_⟩
    exact safe_congr (not_collecting there away.1 away.2.1) (not_collecting there' away'.1 away'.2) (by rw [eq])
  | stopCalls first => exact absurd first called
  | stopClears m there => simp [there] at stopping
  | stopNotifies m there eq =>
    subst eq
    have same : m = n := by simpa [there] using stopping
    exact ⟨⟨stopped, before, .inr (.inl (by rw [same]))⟩, Iff.rfl⟩
  | stopJoins m there exited eq =>
    subst eq
    have same : m = n := by simpa [there] using stopping
    exact ⟨⟨stopped, before, .inr (.inr ⟨by rw [same], exited⟩)⟩, Iff.rfl⟩

theorem flushed_iff_safe (h : s.Inv) (cleared : s.Cleared n) (returned : s.stopping = .returned n) :
    s.Flushed n ↔ s.Safe n := by
  obtain ⟨_, before, stopping⟩ := cleared
  have exited : s.func = .exited := by simpa [returned] using stopping
  have written := h.written
  simp only [unwritten, exited, List.map_nil, List.append_nil] at written
  constructor
  · intro flushed
    have long := flushed.1.length_le
    rw [List.length_take, Nat.min_eq_left before] at long
    exact .inr long
  · intro safe
    have long := safe.resolve_left (exited_not_collecting exited)
    refine ⟨?_, written⟩
    exact (List.prefix_of_prefix_length_le (List.take_prefix _ _) (takenLines_front h)
      (by rw [List.length_take, Nat.min_eq_left before]; exact long))

/-- What was appended before a `stop` is written when it returns if and only if the thread was in a cycle and before
its swap when `running_` was cleared, or had taken these lines already. -/
theorem stop_flushes {s₁ : AsyncLogging} (h : asyncLogging.Reachable Short s)
    (clear : asyncLogging.step s .stopClear = some (.ok s₁)) (rest : asyncLogging.Steps Short s₁ t)
    (returned : t.stopping = .returned n) : t.Flushed n ↔ s.Safe n := by
  have inv := reachable_inv h
  have allowed : Short s .stopClear := trivial
  have reachable : asyncLogging.Reachable Short s₁ := h.next allowed clear
  obtain ⟨m, called, result⟩ := stopClear_enabled clear
  obtain rfl := Except.ok.inj result
  have cleared : Cleared { s with running := false, stopping := .cleared m } m :=
    ⟨rfl, inv.before m called, .inl rfl⟩
  obtain ⟨cleared', safe⟩ : t.Cleared m ∧ (t.Safe m ↔ s.Safe m) := by
    refine Lib.Machine.Steps.invariant (P := fun u => u.Cleared m ∧ (u.Safe m ↔ s.Safe m)) reachable
      ⟨cleared, Iff.rfl⟩ ?_ rest
    intro a label b before ⟨there, same⟩ short step
    obtain ⟨u, ran, _, effect⟩ := step_spec (reachable_inv before) short step
    obtain rfl := Except.ok.inj ran
    obtain ⟨there', same'⟩ := effect_safe (reachable_inv before) there effect
    exact ⟨there', same'.trans same⟩
  obtain rfl : n = m := by simpa [returned] using cleared'.2.2.imp_right (Or.imp_right And.left)
  exact (flushed_iff_safe (reachable_inv (reachable.steps rest)) cleared' returned).trans safe

/-- `stop` finds the thread in `waitForSeconds`. -/
theorem stop_flushes_waiting :
    ∃ t, asyncLogging.Reachable Short t ∧ (t.stopping = .returned 1 ∧ t.output = [.data [120]]) ∧ t.Flushed 1 := by
  obtain ⟨s, s₁, t, before, clear, rest, state, waiting⟩ : ∃ s s₁ t,
      asyncLogging.exec Short {} [.start, .enter, .test, .lock, .append [120], .stopCall] = some s ∧
      asyncLogging.step s .stopClear = some (.ok s₁) ∧
      asyncLogging.exec Short s₁ [.stopNotify, .wake, .drop "", .write, .recycle, .test, .stopJoin] = some t ∧
      (t.stopping = .returned 1 ∧ t.output = [.data [120]]) ∧ s.func = .waiting :=
    ⟨_, _, _, rfl, rfl, rfl, by decide⟩
  have reachable : asyncLogging.Reachable Short s := ⟨{}, rfl, Lib.Machine.exec_steps before⟩
  have steps := Lib.Machine.exec_steps rest
  have allowed : Short s .stopClear := trivial
  exact ⟨t, (reachable.next allowed clear).steps steps, state,
    (stop_flushes reachable clear steps state.1).mpr (.inl (.inr waiting))⟩

/-- The line is appended while the thread writes the first cycle, whose buffer is empty. -/
theorem last_line_lost :
    ∃ t, asyncLogging.Reachable Short t ∧
      (t.stopping = .returned 1 ∧ t.appended = [[120]] ∧ t.output = [.data []]) ∧ ¬ t.Flushed 1 := by
  obtain ⟨t, reachable, state, lines⟩ := Lib.Machine.exec_reaches asyncLogging Short {}
    [.start, .enter, .test, .lock, .wake, .drop "", .append [120], .stopCall, .stopClear, .stopNotify, .write, .recycle,
      .test, .stopJoin]
    (fun t => (t.stopping = .returned 1 ∧ t.appended = [[120]] ∧ t.output = [.data []]) ∧ t.takenLines = [])
    rfl (by decide)
  refine ⟨t, reachable, state, fun flushed => ?_⟩
  have missing := flushed.1
  rw [state.2.1, lines] at missing
  exact absurd missing (by decide)

end AsyncLogging

end Dserver
