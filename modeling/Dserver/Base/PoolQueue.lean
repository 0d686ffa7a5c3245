import Dserver.Base.ThreadPool

/-!
# The queue of a thread pool

Each `notify` is for one place in the queue or for one task, and the thread that it wakes may find that another
was faster. The waiting producers are safe as long as the free places are no more than the producers that are
awake.
-/

namespace Dserver

namespace Condition

theorem notify_cases {waiting waiting' : Condition} {woken : Tid} (h : waiting.notify woken = some waiting') :
    (waiting = ∅ ∧ waiting' = ∅) ∨ (woken ∈ waiting ∧ waiting' = waiting.erase woken) := by
  unfold notify at h
  split at h
  · rename_i empty
    exact .inl ⟨empty, (Option.some.inj h).symm⟩
  · obtain ⟨member, h⟩ := Option.ite_none_right_eq_some.mp h
    exact .inr ⟨member, (Option.some.inj h).symm⟩

theorem notify_subset {waiting waiting' : Condition} {woken : Tid} (h : waiting.notify woken = some waiting') :
    waiting' ⊆ waiting := by
  rcases notify_cases h with ⟨_, rfl⟩ | ⟨_, rfl⟩
  · exact Finset.empty_subset _
  · exact Finset.erase_subset _ _

end Condition

namespace ThreadPool

variable {Task : Type} {s s' : ThreadPool Task} {t : Tid}

def Awake (s : ThreadPool Task) (t : Tid) : Prop := t ∉ s.notFull ∧ ∃ x, s.threads t = .put x

/-- There are no more free places than producers that are awake. -/
def Covered (s : ThreadPool Task) : Prop :=
  ∃ awake : Finset Tid, (∀ t ∈ awake, s.Awake t) ∧ s.maxQueueSize ≤ s.queue.length + awake.card

structure Inv (s : ThreadPool Task) : Prop where
  workers : 0 < s.numThread
  bound : s.queue.length ≤ s.maxQueueSize
  order : s.taken ++ s.queue = s.enqueued
  sleepers : ∀ w ∈ s.notEmpty, w < s.numThread
  takers : s.queue ≠ [] → ∃ w < s.numThread, w ∉ s.notEmpty
  waiting : ∀ t ∈ s.notFull, ∃ x, s.threads t = .put x
  covered : s.notFull.Nonempty → s.Covered
  stopped : s.running = false → s.notEmpty = ∅ ∧ s.notFull = ∅
  live : s.running = true → ∀ w, s.threads w ≠ .exited

/-! ### What a step does -/

inductive Put (s s' : ThreadPool Task) (t : Tid) (x : Task) : Prop where
  | waits (full : s.maxQueueSize ≤ s.queue.length) (running : s.running = true)
      (eq : s' = { s with notFull := insert t s.notFull })
  | refused (stopped : s.running = false) (eq : s' = s.goto t .user)
  | pushes (room : s.queue.length < s.maxQueueSize) (running : s.running = true) (woken : Tid) (notEmpty : Condition)
      (notified : s.notEmpty.notify woken = some notEmpty)
      (eq : s' = goto { s with queue := s.queue ++ [x], notEmpty, enqueued := s.enqueued ++ [x] } t .user)

theorem put_effect {x : Task} {woken : Tid} (h : s.put t x woken = some s') : Put s s' t x := by
  unfold put isFull at h
  split at h
  · rename_i full
    exact .waits (by simpa using full.1) full.2 (Option.some.inj h).symm
  · rename_i room
    cases running : s.running with
    | false =>
      rw [if_pos (by simp [running])] at h
      exact .refused running (Option.some.inj h).symm
    | true =>
      rw [if_neg (not_not.mpr running)] at h
      obtain ⟨notEmpty, notified, h⟩ := Option.bind_eq_some_iff.mp h
      exact .pushes (by simpa [running] using room) running woken notEmpty notified (Option.some.inj h).symm

inductive Take (s s' : ThreadPool Task) (t : Tid) : Prop where
  | waits (empty : s.queue = []) (running : s.running = true) (eq : s' = { s with notEmpty := insert t s.notEmpty })
  | refused (stopped : s.running = false) (eq : s' = s.goto t .head)
  | pops (running : s.running = true) (front : Task) (queue : List Task) (split : s.queue = front :: queue) (woken : Tid)
      (notFull : Condition) (notified : s.notFull.notify woken = some notFull)
      (eq : s' = goto { s with queue, notFull, taken := s.taken ++ [front] } t .user)

theorem take_effect {woken : Tid} {result : Except Fault (ThreadPool Task)} (h : s.take t woken = some result) :
    ∃ s', result = .ok s' ∧ Take s s' t := by
  unfold take at h
  split at h
  · rename_i empty
    exact ⟨_, (Option.some.inj h).symm, .waits (by simpa using empty.1) empty.2 rfl⟩
  · rename_i tasks
    cases running : s.running with
    | false =>
      rw [if_pos (by simp [running])] at h
      exact ⟨_, (Option.some.inj h).symm, .refused running rfl⟩
    | true =>
      rw [if_neg (not_not.mpr running)] at h
      cases split : s.queue with
      | nil => simp [split, running] at tasks
      | cons front queue =>
        rw [split] at h
        obtain ⟨notFull, notified, h⟩ := Option.bind_eq_some_iff.mp h
        exact ⟨_, (Option.some.inj h).symm, .pops running front queue split woken notFull notified rfl⟩

inductive Effect (s s' : ThreadPool Task) : Prop where
  -- a thread that is not in `put` goes on
  | moves (t : Tid) (state : ThreadState Task) (place : ∀ x, s.threads t ≠ .put x)
      (exits : state = .exited → s.running = false) (eq : s' = s.goto t state)
  | put (t : Tid) (x : Task) (place : s.threads t = .put x) (awake : t ∉ s.notFull) (turn : Put s s' t x)
  | take (t : Tid) (worker : t < s.numThread) (place : s.threads t = .take) (turn : Take s s' t)
  | spurious (t : Tid) (eq : s' = { s with notEmpty := s.notEmpty.erase t, notFull := s.notFull.erase t })
  | stop (eq : s' = s.stop)

theorem step_effect {label : Label Task} {result : Except Fault (ThreadPool Task)} (step : s.step label = some result) :
    ∃ s', result = .ok s' ∧ Effect s s' := by
  cases label with
  | run t f =>
    simp only [ThreadPool.step] at step
    split at step
    · rename_i place
      exact ⟨_, (Option.some.inj step).symm, .moves t (.put f) (fun x => by rw [place]; nofun) nofun rfl⟩
    · cases step
  | put t woken =>
    simp only [ThreadPool.step] at step
    split at step
    · rename_i x place
      obtain ⟨awake, step⟩ := Option.ite_none_right_eq_some.mp step
      obtain ⟨s', turn, rfl⟩ := Option.map_eq_some_iff.mp step
      exact ⟨s', rfl, .put t x place awake (put_effect turn)⟩
    · cases step
  | test t =>
    simp only [ThreadPool.step] at step
    split at step
    · rename_i place
      obtain ⟨_, step⟩ := Option.ite_none_right_eq_some.mp step
      refine ⟨_, (Option.some.inj step).symm, .moves t _ (fun x => by rw [place]; nofun) ?_ rfl⟩
      cases s.running with
      | true => nofun
      | false => exact fun _ => rfl
    · cases step
  | take t woken =>
    simp only [ThreadPool.step] at step
    split at step
    · rename_i place
      obtain ⟨⟨worker, awake⟩, step⟩ := Option.ite_none_right_eq_some.mp step
      obtain ⟨s', ok, turn⟩ := take_effect step
      exact ⟨s', ok, .take t worker place turn⟩
    · cases step
  | done t =>
    simp only [ThreadPool.step] at step
    split at step
    · rename_i place
      obtain ⟨_, step⟩ := Option.ite_none_right_eq_some.mp step
      exact ⟨_, (Option.some.inj step).symm, .moves t .head (fun x => by rw [place]; nofun) nofun rfl⟩
    · cases step
  | spurious t =>
    exact ⟨_, (Option.some.inj step).symm, .spurious t rfl⟩
  | stop =>
    obtain ⟨_, step⟩ := Option.ite_none_right_eq_some.mp step
    exact ⟨_, (Option.some.inj step).symm, .stop rfl⟩

/-! ### What a step keeps -/

theorem goto_self {state : ThreadState Task} : (s.goto t state).threads t = state := Function.update_self _ _ _

theorem goto_threads {other : Tid} {state : ThreadState Task} (h : other ≠ t) :
    (s.goto t state).threads other = s.threads other := Function.update_of_ne h _ _

theorem goto_awake {other : Tid} {state : ThreadState Task} (h : s.Awake other) (different : other ≠ t)
    (same : s'.threads = (s.goto t state).threads) (subset : s'.notFull ⊆ s.notFull) : s'.Awake other := by
  obtain ⟨awake, x, place⟩ := h
  exact ⟨fun member => awake (subset member), x, by rw [same, goto_threads different, place]⟩

theorem goto_waiting {state : ThreadState Task} (h : ∀ t ∈ s.notFull, ∃ x, s.threads t = .put x) (here : t ∉ s.notFull)
    (same : s'.threads = (s.goto t state).threads) (subset : s'.notFull ⊆ s.notFull) :
    ∀ t ∈ s'.notFull, ∃ x, s'.threads t = .put x := by
  intro other member
  obtain ⟨x, place⟩ := h other (subset member)
  have different : other ≠ t := fun same => here (same ▸ subset member)
  exact ⟨x, by rw [same, goto_threads different, place]⟩

theorem goto_live {state : ThreadState Task} (h : ∀ w, s.threads w ≠ .exited) (here : state ≠ .exited) (w : Tid) :
    (s.goto t state).threads w ≠ .exited := by
  by_cases same : w = t
  · rw [same, goto_self]
    exact here
  · rw [goto_threads same]
    exact h w

theorem moves_inv {state : ThreadState Task} (h : s.Inv) (place : ∀ x, s.threads t ≠ .put x)
    (exits : state = .exited → s.running = false) : (s.goto t state).Inv := by
  have here : t ∉ s.notFull := fun member => by
    obtain ⟨x, there⟩ := h.waiting t member
    exact place x there
  refine ⟨h.workers, h.bound, h.order, h.sleepers, h.takers, goto_waiting h.waiting here rfl (Finset.Subset.refl _), ?_,
    h.stopped, fun running => goto_live (h.live running) fun exited => ?_⟩
  · intro nonempty
    obtain ⟨awake, each, places⟩ := h.covered nonempty
    refine ⟨awake, fun other member => goto_awake (each other member) ?_ rfl (Finset.Subset.refl _), places⟩
    rintro rfl
    obtain ⟨x, there⟩ := (each other member).2
    exact place x there
  · cases (exits exited).symm.trans running

theorem put_inv {x : Task} (h : s.Inv) (place : s.threads t = .put x) (awake : t ∉ s.notFull) (turn : Put s s' t x) :
    s'.Inv := by
  cases turn with
  | waits full running eq =>
    subst eq
    refine ⟨h.workers, h.bound, h.order, h.sleepers, h.takers, ?_, fun _ => ⟨∅, by simp, by simpa using full⟩, ?_, h.live⟩
    · intro other member
      rcases Finset.mem_insert.mp member with rfl | there
      · exact ⟨x, place⟩
      · exact h.waiting other there
    · intro stopped
      cases running.symm.trans stopped
  | refused stopped eq =>
    subst eq
    obtain ⟨noTaker, noProducer⟩ := h.stopped stopped
    refine ⟨h.workers, h.bound, h.order, h.sleepers, h.takers, goto_waiting h.waiting awake rfl (Finset.Subset.refl _),
      ?_, h.stopped, fun running => goto_live (h.live running) nofun⟩
    intro nonempty
    exact absurd noProducer nonempty.ne_empty
  | pushes room running woken notEmpty notified eq =>
    subst eq
    refine ⟨h.workers, ?_, ?_, fun w member => h.sleepers w (Condition.notify_subset notified member), fun _ => ?_,
      goto_waiting h.waiting awake rfl (Finset.Subset.refl _), ?_, ?_, fun running => goto_live (h.live running) nofun⟩
    · show (s.queue ++ [x]).length ≤ s.maxQueueSize
      rw [List.length_append]
      exact room
    · show s.taken ++ (s.queue ++ [x]) = s.enqueued ++ [x]
      rw [← h.order, List.append_assoc]
    · -- the one that is notified, or any when none was waiting
      rcases Condition.notify_cases notified with ⟨_, rfl⟩ | ⟨member, rfl⟩
      · exact ⟨0, h.workers, Finset.notMem_empty 0⟩
      · exact ⟨woken, h.sleepers woken member, Finset.notMem_erase woken _⟩
    · intro nonempty
      obtain ⟨others, each, places⟩ := h.covered nonempty
      refine ⟨others.erase t, fun other member => ?_, ?_⟩
      · obtain ⟨different, member⟩ := Finset.mem_erase.mp member
        exact goto_awake (each other member) different rfl (Finset.Subset.refl _)
      · have others_le : others.card - 1 ≤ (others.erase t).card := Finset.pred_card_le_card_erase
        show s.maxQueueSize ≤ (s.queue ++ [x]).length + _
        rw [List.length_append, List.length_singleton]
        omega
    · intro stopped
      cases running.symm.trans stopped

theorem take_inv (h : s.Inv) (worker : t < s.numThread) (place : s.threads t = .take) (turn : Take s s' t) : s'.Inv := by
  have notPut : ∀ x, s.threads t ≠ .put x := fun x => by rw [place]; nofun
  have here : t ∉ s.notFull := fun member => by
    obtain ⟨x, there⟩ := h.waiting t member
    exact notPut x there
  cases turn with
  | waits empty running eq =>
    subst eq
    refine ⟨h.workers, h.bound, h.order, ?_, fun tasks => absurd empty tasks, h.waiting, h.covered, ?_, h.live⟩
    · intro w member
      rcases Finset.mem_insert.mp member with rfl | there
      · exact worker
      · exact h.sleepers w there
    · intro stopped
      cases running.symm.trans stopped
  | refused stopped eq =>
    subst eq
    exact moves_inv h notPut nofun
  | pops running front queue split woken notFull notified eq =>
    subst eq
    have length : s.queue.length = queue.length + 1 := by rw [split, List.length_cons]
    have subset := Condition.notify_subset notified
    refine ⟨h.workers, ?_, ?_, h.sleepers, fun _ => h.takers (by rw [split]; nofun),
      goto_waiting h.waiting here rfl subset, ?_, ?_, fun running => goto_live (h.live running) nofun⟩
    · have bound := h.bound
      show queue.length ≤ s.maxQueueSize
      omega
    · show s.taken ++ [front] ++ queue = s.enqueued
      rw [← h.order, split, List.append_assoc]
      rfl
    · -- a place is free, and one more producer is awake
      intro nonempty
      rcases Condition.notify_cases notified with ⟨_, rfl⟩ | ⟨member, rfl⟩
      · exact absurd rfl nonempty.ne_empty
      · obtain ⟨others, each, places⟩ := h.covered ⟨woken, member⟩
        have asleep : woken ∉ others := fun there => (each woken there).1 member
        refine ⟨insert woken others, fun other there => ?_, ?_⟩
        · rcases Finset.mem_insert.mp there with rfl | there
          · obtain ⟨x, put⟩ := h.waiting other member
            have different : other ≠ t := fun same => here (same ▸ member)
            exact ⟨Finset.notMem_erase other _, x, by rw [← put]; exact goto_threads different⟩
          · have different : other ≠ t := fun same => by
              obtain ⟨x, put⟩ := (each other there).2
              exact notPut x (same ▸ put)
            exact goto_awake (each other there) different rfl subset
        · rw [Finset.card_insert_of_notMem asleep]
          show s.maxQueueSize ≤ queue.length + _
          omega
    · intro stopped
      cases running.symm.trans stopped

theorem effect_inv (h : s.Inv) (effect : Effect s s') : s'.Inv := by
  cases effect with
  | moves t state place exits eq =>
    subst eq
    exact moves_inv h place exits
  | put t x place awake turn => exact put_inv h place awake turn
  | take t worker place turn => exact take_inv h worker place turn
  | spurious t eq =>
    subst eq
    have subset := Finset.erase_subset t s.notFull
    refine ⟨h.workers, h.bound, h.order, fun w member => h.sleepers w (Finset.mem_of_mem_erase member), fun tasks => ?_,
      fun other member => h.waiting other (subset member), fun nonempty => ?_, fun stopped => ?_, h.live⟩
    · obtain ⟨w, worker, awake⟩ := h.takers tasks
      exact ⟨w, worker, fun member => awake (Finset.mem_of_mem_erase member)⟩
    · obtain ⟨others, each, places⟩ := h.covered (nonempty.mono subset)
      exact ⟨others, fun other member => ⟨fun there => (each other member).1 (subset there), (each other member).2⟩, places⟩
    · obtain ⟨noTaker, noProducer⟩ := h.stopped stopped
      simp [noTaker, noProducer]
  | stop eq =>
    subst eq
    exact ⟨h.workers, h.bound, h.order, nofun, fun _ => ⟨0, h.workers, nofun⟩, nofun, nofun, fun _ => ⟨rfl, rfl⟩, nofun⟩

theorem effect_size (effect : Effect s s') : s'.numThread = s.numThread ∧ s'.maxQueueSize = s.maxQueueSize := by
  cases effect with
  | moves t state place exits eq => subst eq; exact ⟨rfl, rfl⟩
  | put t x place awake turn => cases turn <;> subst s' <;> exact ⟨rfl, rfl⟩
  | take t worker place turn => cases turn <;> subst s' <;> exact ⟨rfl, rfl⟩
  | spurious t eq => subst eq; exact ⟨rfl, rfl⟩
  | stop eq => subst eq; exact ⟨rfl, rfl⟩

theorem effect_stopped (h : s.running = false) (effect : Effect s s') : s'.running = false ∧ s'.taken = s.taken := by
  cases effect with
  | moves t state place exits eq => subst eq; exact ⟨h, rfl⟩
  | put t x place awake turn =>
    cases turn with
    | waits full running eq => subst eq; exact ⟨h, rfl⟩
    | refused stopped eq => subst eq; exact ⟨h, rfl⟩
    | pushes room running => cases running.symm.trans h
  | take t worker place turn =>
    cases turn with
    | waits empty running eq => subst eq; exact ⟨h, rfl⟩
    | refused stopped eq => subst eq; exact ⟨h, rfl⟩
    | pops running => cases running.symm.trans h
  | spurious t eq => subst eq; exact ⟨h, rfl⟩
  | stop eq => subst eq; exact ⟨rfl, rfl⟩

/-! ### Runs -/

variable {numThread maxsize : Nat}

theorem start_inv (threads : 1 ≤ numThread) (h : (construct numThread maxsize).start = .ok s) :
    s.Inv ∧ s.numThread = numThread ∧ s.maxQueueSize = maxsize := by
  obtain rfl := Except.ok.inj h
  refine ⟨⟨threads, Nat.zero_le _, rfl, nofun, fun tasks => absurd rfl tasks, nofun, nofun, nofun, fun _ w => ?_⟩, rfl, rfl⟩
  show (if w < numThread then ThreadState.head else .user) ≠ .exited
  split <;> nofun

theorem reachable_inv (threads : 1 ≤ numThread)
    (h : (threadPool Task numThread maxsize).Reachable Lib.Machine.anyStep s) :
    s.Inv ∧ s.numThread = numThread ∧ s.maxQueueSize = maxsize := by
  apply h.invariant
  · exact fun a start => start_inv threads start
  · intro a label b _ ⟨inv, number, size⟩ _ step
    obtain ⟨s', ok, effect⟩ := step_effect step
    obtain rfl := Except.ok.inj ok
    obtain ⟨number', size'⟩ := effect_size effect
    exact ⟨effect_inv inv effect, number'.trans number, size'.trans size⟩

theorem stopped_steps (threads : 1 ≤ numThread)
    (h : (threadPool Task numThread maxsize).Reachable Lib.Machine.anyStep s) (stopped : s.running = false)
    (steps : (threadPool Task numThread maxsize).Steps Lib.Machine.anyStep s s') :
    s'.running = false ∧ s'.taken = s.taken ∧ s'.notEmpty = ∅ ∧ s'.notFull = ∅ := by
  obtain ⟨stopped', taken⟩ : s'.running = false ∧ s'.taken = s.taken := by
    refine Lib.Machine.Steps.invariant (P := fun t => t.running = false ∧ t.taken = s.taken) h ⟨stopped, rfl⟩ ?_ steps
    intro a label b _ ⟨before, same⟩ _ step
    obtain ⟨t, ok, effect⟩ := step_effect step
    obtain rfl := Except.ok.inj ok
    obtain ⟨after, same'⟩ := effect_stopped before effect
    exact ⟨after, same'.trans same⟩
  exact ⟨stopped', taken, (reachable_inv threads (h.steps steps)).1.stopped stopped'⟩

/-- The queue is bounded and first in, first out; while there are tasks some worker is not asleep in `take`, and
while there is a place for the task of a producer that is asleep in `put`, another one is awake; `stop` can be
called, and after its `notifyAll` nobody sleeps and nothing is taken. -/
theorem queue_safe (threads : 1 ≤ numThread)
    (h : (threadPool Task numThread maxsize).Reachable Lib.Machine.anyStep s) :
    s.queue.length ≤ maxsize ∧ s.taken ++ s.queue = s.enqueued ∧
      (s.running = true → s.queue ≠ [] → ∃ w < numThread, w ∉ s.notEmpty ∧ s.threads w ≠ .exited) ∧
      (s.queue.length < maxsize → s.notFull.Nonempty → ∃ t, s.Awake t) ∧
      (s.running = true → ∃ stopped, s.step .stop = some (.ok stopped) ∧
        ∀ s', (threadPool Task numThread maxsize).Steps Lib.Machine.anyStep stopped s' →
          s'.running = false ∧ s'.taken = s.taken ∧ s'.notEmpty = ∅ ∧ s'.notFull = ∅) ∧
      (s.running = false → ∀ s', (threadPool Task numThread maxsize).Steps Lib.Machine.anyStep s s' →
        s'.taken = s.taken ∧ s'.notEmpty = ∅ ∧ s'.notFull = ∅) := by
  obtain ⟨inv, rfl, rfl⟩ := reachable_inv threads h
  refine ⟨inv.bound, inv.order, fun running tasks => ?_, fun room asleep => ?_, fun running => ?_,
    fun stopped s' steps => (stopped_steps threads h stopped steps).2⟩
  · obtain ⟨w, worker, awake⟩ := inv.takers tasks
    exact ⟨w, worker, awake, inv.live running w⟩
  · obtain ⟨others, each, places⟩ := inv.covered asleep
    obtain ⟨t, member⟩ : others.Nonempty := Finset.card_pos.mp (by omega)
    exact ⟨t, each t member⟩
  · have stops : s.step .stop = some (.ok s.stop) := by rw [step, if_pos running]
    have reached := h.steps (.single ⟨.stop, trivial, stops⟩)
    exact ⟨s.stop, stops, fun s' steps => stopped_steps (s := s.stop) threads reached rfl steps⟩

/-- Two producers wait for the only place, and one has been notified; `stop` wakes up the other. -/
theorem queue_safe_notified :
    ∃ s, (threadPool Nat 1 1).Reachable Lib.Machine.anyStep s ∧
      (s.taken = [7] ∧ s.queue = [] ∧ s.notFull = {3}) ∧ (∃ t, s.Awake t) ∧
      ∃ stopped, s.step .stop = some (.ok stopped) ∧ stopped.running = false ∧ stopped.taken = [7] ∧
        stopped.notFull = ∅ := by
  obtain ⟨s, reachable, state, running⟩ := Lib.Machine.exec_reaches (threadPool Nat 1 1) Lib.Machine.anyStep _
    [.test 0, .take 0 0, .run 1 7, .put 1 0, .run 2 8, .put 2 0, .run 3 9, .put 3 0, .take 0 2]
    (fun s => (s.taken = [7] ∧ s.queue = [] ∧ s.notFull = {3}) ∧ s.running = true) (by rfl) (by decide)
  have asleep : s.notFull.Nonempty := ⟨3, by rw [state.2.2]; exact Finset.mem_singleton_self 3⟩
  obtain ⟨_, _, _, awake, stop, _⟩ := queue_safe (Nat.le_refl 1) reachable
  obtain ⟨stopped, stops, after⟩ := stop running
  obtain ⟨down, taken, _, notFull⟩ := after stopped .refl
  exact ⟨s, reachable, state, awake (by rw [state.2.1]; decide) asleep, stopped, stops, down, taken.trans state.1, notFull⟩

end ThreadPool

end Dserver
