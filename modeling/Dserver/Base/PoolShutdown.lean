import Dserver.Base.PoolQueue

/-!
# The end of a thread pool

`stop` joins the workers. After `notifyAll(true)` each of them is at most three steps of its own away from its end,
whatever the other threads do, and can always take the next one.
-/

namespace Dserver

/-- The steps from here to the end of a thread that has been told to stop. -/
def ThreadState.rest {Task : Type} : ThreadState Task → Nat
  | .exited => 0
  | .head => 1
  | .user => 2
  | .take => 2
  | .put _ => 3

namespace ThreadPool

variable {Task : Type} {s s' : ThreadPool Task} {w : Tid} {label : Label Task} {numThread maxsize : Nat}

/-- The steps that a worker makes itself: turns under the lock, tests of `running_` and the ends of tasks. -/
def Label.own (w : Tid) : Label Task → Bool
  | .put t _ => t == w
  | .test t => t == w
  | .take t _ => t == w
  | .done t => t == w
  | .run _ _ | .spurious _ | .stop => false

/-- The task that the worker has puts no other one. -/
def NoRun (w : Tid) (_ : ThreadPool Task) (label : Label Task) : Prop := ∀ f, label ≠ .run w f

theorem goto_rest {t : Tid} {before after : ThreadState Task} (place : s.threads t = before)
    (less : after.rest + 1 = before.rest) :
    ((s.goto t after).threads w).rest + (if t == w then 1 else 0) = (s.threads w).rest := by
  by_cases same : t = w
  · subst same
    rw [goto_self, place, beq_self_eq_true, if_pos rfl]
    exact less
  · rw [goto_threads (Ne.symm same), if_neg (by simpa using same), Nat.add_zero]

/-- Once `running_` is false, a step of a worker takes it one step further, and no other step changes where it is. -/
theorem step_rest (stopped : s.running = false) (noRun : NoRun w s label)
    (step : s.step label = some (.ok s')) :
    (s'.threads w).rest + (if label.own w then 1 else 0) = (s.threads w).rest := by
  cases label with
  | run t f =>
    simp only [ThreadPool.step] at step
    split at step
    · obtain rfl := Except.ok.inj (Option.some.inj step)
      have other : w ≠ t := fun same => noRun f (by rw [same])
      rw [goto_threads other]
      rfl
    · cases step
  | put t woken =>
    simp only [ThreadPool.step] at step
    split at step
    · rename_i x place
      obtain ⟨_, step⟩ := Option.ite_none_right_eq_some.mp step
      obtain ⟨u, turn, same⟩ := Option.map_eq_some_iff.mp step
      obtain rfl := Except.ok.inj same
      cases put_effect turn with
      | waits _ running => cases running.symm.trans stopped
      | refused _ eq =>
        subst eq
        exact goto_rest place rfl
      | pushes _ running => cases running.symm.trans stopped
    · cases step
  | test t =>
    simp only [ThreadPool.step] at step
    split at step
    · rename_i place
      obtain ⟨_, step⟩ := Option.ite_none_right_eq_some.mp step
      obtain rfl := Except.ok.inj (Option.some.inj step)
      rw [stopped]
      exact goto_rest place rfl
    · cases step
  | take t woken =>
    simp only [ThreadPool.step] at step
    split at step
    · rename_i place
      obtain ⟨_, step⟩ := Option.ite_none_right_eq_some.mp step
      obtain ⟨u, ok, turn⟩ := take_effect step
      obtain rfl := Except.ok.inj ok
      cases turn with
      | waits _ running => cases running.symm.trans stopped
      | refused _ eq =>
        subst eq
        exact goto_rest place rfl
      | pops running => cases running.symm.trans stopped
    · cases step
  | done t =>
    simp only [ThreadPool.step] at step
    split at step
    · rename_i place
      obtain ⟨_, step⟩ := Option.ite_none_right_eq_some.mp step
      obtain rfl := Except.ok.inj (Option.some.inj step)
      exact goto_rest place rfl
    · cases step
  | spurious t =>
    obtain rfl := Except.ok.inj (Option.some.inj step)
    rfl
  | stop =>
    obtain ⟨running, _⟩ := Option.ite_none_right_eq_some.mp step
    cases running.symm.trans stopped

/-- A worker that has not ended can go on: nobody holds it up in `put` or `take`. -/
theorem worker_enabled (inv : s.Inv) (stopped : s.running = false) (worker : w < s.numThread)
    (live : s.threads w ≠ .exited) : ∃ label s', label.own w = true ∧ s.step label = some (.ok s') := by
  obtain ⟨noTaker, noProducer⟩ := inv.stopped stopped
  cases place : s.threads w with
  | user =>
    refine ⟨.done w, s.goto w .head, beq_self_eq_true w, ?_⟩
    simp [step, place, worker]
  | head =>
    refine ⟨.test w, s.goto w .exited, beq_self_eq_true w, ?_⟩
    simp [step, place, worker, stopped]
  | put x =>
    refine ⟨.put w w, s.goto w .user, beq_self_eq_true w, ?_⟩
    simp [step, place, noProducer, put, stopped]
  | take =>
    refine ⟨.take w w, s.goto w .head, beq_self_eq_true w, ?_⟩
    simp [step, place, noTaker, take, stopped, worker]
  | exited => exact absurd place live

/-- The own steps of a worker along a run. -/
def seeOwn (w : Tid) (_ : ThreadPool Task) (label : Label Task) : List (Label Task) := if label.own w then [label] else []

theorem trace_rest {t : ThreadPool Task} {seen : List (Label Task)}
    (h : (threadPool Task numThread maxsize).Reachable Lib.Machine.anyStep s) (stopped : s.running = false)
    (run : (threadPool Task numThread maxsize).Trace (NoRun w) (seeOwn w) s seen t) :
    (threadPool Task numThread maxsize).Reachable Lib.Machine.anyStep t ∧ t.running = false ∧
      (t.threads w).rest + seen.length = (s.threads w).rest := by
  induction run with
  | refl => exact ⟨h, stopped, rfl⟩
  | @tail seen t u label before allowed step ih =>
    obtain ⟨reached, stopped', rest⟩ := ih
    have less := step_rest stopped' allowed step
    obtain ⟨v, ok, effect⟩ := step_effect step
    obtain rfl := Except.ok.inj ok
    refine ⟨reached.next trivial step, (effect_stopped stopped' effect).1, ?_⟩
    rw [List.length_append, ← rest, ← less, seeOwn]
    split
    · simp only [List.length_singleton]
      omega
    · simp only [List.length_nil]
      omega

theorem rest_le (state : ThreadState Task) : state.rest ≤ 3 := by
  cases state with
  | put x => exact Nat.le_refl 3
  | _ => exact Nat.le_add_left _ _

theorem rest_eq_zero {state : ThreadState Task} : state.rest = 0 ↔ state = .exited := by
  cases state with
  | exited => exact ⟨fun _ => rfl, fun _ => rfl⟩
  | _ => exact ⟨nofun, nofun⟩

end ThreadPool

end Dserver
