import Dserver.Lib.BatchQueue
import Dserver.Lib.Machine
import Mathlib.Algebra.Group.Nat.Defs

/-!
# `EventLoop`

The part of the loop that every thread shares: the functor queue, the flags and the wakeup eventfd.
What handlers and functors do besides calling the loop is left to the caller, so functors are of any
type `F`. `phase` says where the loop's own thread is.
-/

namespace Dserver.Net

abbrev Tid := Nat

inductive Phase where
  /-- Not inside `loop()`. -/
  | outside
  /-- At `while (!quit_)`. -/
  | head
  /-- Inside `poller_->poll`. -/
  | poll
  /-- Between the return of `poll` and `doPendingFunctors`: in handlers of `activeChannels_`. -/
  | handle
  /-- In the loop of `doPendingFunctors`, between functors or in one. -/
  | functors
  deriving DecidableEq, Repr

/-- The call another thread is in, before its `wakeup()`. -/
inductive Waking where
  | queueInLoop | quit
  deriving DecidableEq, Repr

structure EventLoop (F : Type) where
  threadId : Tid
  looping : Bool := false
  quit : Bool := false
  eventHandling : Bool := false
  callingPendingFunctors : Bool := false
  /-- `pendingFunctors_`, and the local `functors` of `doPendingFunctors`. -/
  queue : Lib.BatchQueue F := {}
  /-- The counter of `wakeupFd_`. -/
  wakeupCount : Nat := 0
  /-- `wakeupChannel_` is in `activeChannels_` and not yet handled. -/
  wakeupActive : Bool := false
  /-- Other threads that have pushed their functor or set `quit_`, and not yet called `wakeup()`. -/
  waking : Tid → Option Waking := fun _ => none
  phase : Phase := .outside
  /-- History: the thread inside `loop()`, the threads that ran `queue.ran`, the batches taken. -/
  runner : Tid := 0
  ranBy : List Tid := []
  batches : Nat := 0

namespace EventLoop

/-- `assert(!looping_)` and `assertInLoopThread()`. -/
inductive Fault where
  | looping
  | abortNotInLoopThread
  deriving DecidableEq, Repr

variable {F : Type}

/-- A write to `wakeupFd_`; at the eventfd's maximum it fails and is only logged. -/
def wakeup (l : EventLoop F) : EventLoop F :=
  { l with wakeupCount := if l.wakeupCount < 2 ^ 64 - 2 then l.wakeupCount + 1 else l.wakeupCount }

/-- The read of `wakeupFd_` takes the whole counter. -/
def handleRead (l : EventLoop F) : EventLoop F := { l with wakeupCount := 0, wakeupActive := false }

/-- `queueInLoop` up to its `wakeup()`, which the loop's own thread does at once and another thread
as a step of its own. -/
def queueInLoop (l : EventLoop F) (t : Tid) (cb : F) : EventLoop F :=
  let l := { l with queue := l.queue.push cb }
  if t ≠ l.threadId then { l with waking := Function.update l.waking t (some .queueInLoop) }
  else if l.callingPendingFunctors then l.wakeup
  else l

/-- In the loop's thread `cb` is called here and now; the calls it makes are steps of their own. -/
def runInLoop (l : EventLoop F) (t : Tid) (cb : F) : EventLoop F :=
  if t = l.threadId then l else l.queueInLoop t cb

def quitCall (l : EventLoop F) (t : Tid) : EventLoop F :=
  let l := { l with quit := true }
  if t ≠ l.threadId then { l with waking := Function.update l.waking t (some .quit) } else l

/-- The entry of `loop()`. -/
def enter (l : EventLoop F) (t : Tid) : Except Fault (EventLoop F) :=
  if l.looping then .error .looping
  else if t ≠ l.threadId then .error .abortNotInLoopThread
  else .ok { l with looping := true, quit := false, phase := .head, runner := t }

/-- `while (!quit_)`, and `activeChannels_.clear()`. -/
def check (l : EventLoop F) : EventLoop F :=
  if l.quit then { l with looping := false, phase := .outside }
  else { l with phase := .poll, wakeupActive := false }

def pollReturn (l : EventLoop F) (wake : Bool) : EventLoop F :=
  { l with eventHandling := true, wakeupActive := wake, phase := .handle }

/-- The start of `doPendingFunctors`. -/
def doPendingFunctors (l : EventLoop F) : EventLoop F :=
  { l with
    eventHandling := false
    callingPendingFunctors := true
    queue := l.queue.swap
    phase := .functors
    batches := l.batches + 1 }

def runFunctor (l : EventLoop F) (cb : F) (rest : List F) : EventLoop F :=
  { l with queue := l.queue.pop cb rest, ranBy := l.ranBy ++ [l.runner] }

/-- The end of `doPendingFunctors`. -/
def functorsDone (l : EventLoop F) : EventLoop F :=
  { l with callingPendingFunctors := false, phase := .head }

inductive Label (F : Type) where
  | enter (t : Tid)
  | check
  | pollReturn (wake : Bool)
  | handleRead
  | doPendingFunctors
  | runFunctor
  | functorsDone
  | queueInLoop (t : Tid) (cb : F)
  | runInLoop (t : Tid) (cb : F)
  | quit (t : Tid)
  | wakeup (t : Tid)

/-- Thread `t` can make a call now: the loop's own thread is in user code or outside `loop()`,
another thread is not in the middle of an earlier call. -/
def mayCall (l : EventLoop F) (t : Tid) : Bool :=
  if t = l.threadId then l.phase == .outside || l.phase == .handle || l.phase == .functors
  else (l.waking t).isNone

def step (l : EventLoop F) : Label F → Option (Except Fault (EventLoop F))
  | .enter t => if l.mayCall t then some (l.enter t) else none
  | .check => if l.phase = .head then some (.ok l.check) else none
  | .pollReturn wake =>
    -- a readable eventfd is all that puts `wakeupChannel_` in the list; `poll` may return without it
    if l.phase = .poll ∧ (wake = true → 0 < l.wakeupCount) then some (.ok (l.pollReturn wake)) else none
  | .handleRead =>
    if l.phase = .handle ∧ l.wakeupActive = true then some (.ok l.handleRead) else none
  | .doPendingFunctors =>
    if l.phase = .handle ∧ l.wakeupActive = false then some (.ok l.doPendingFunctors) else none
  | .runFunctor =>
    match l.phase, l.queue.batch with
    | .functors, cb :: rest => some (.ok (l.runFunctor cb rest))
    | _, _ => none
  | .functorsDone =>
    if l.phase = .functors ∧ l.queue.batch.isEmpty then some (.ok l.functorsDone) else none
  | .queueInLoop t cb => if l.mayCall t then some (.ok (l.queueInLoop t cb)) else none
  | .runInLoop t cb => if l.mayCall t then some (.ok (l.runInLoop t cb)) else none
  | .quit t => if l.mayCall t then some (.ok (l.quitCall t)) else none
  | .wakeup t =>
    if (l.waking t).isSome then some (.ok { l.wakeup with waking := Function.update l.waking t none })
    else none

end EventLoop

/-- An event loop under any calls of any threads. -/
def eventLoop (F : Type) : Lib.Machine (EventLoop F) (EventLoop.Label F) EventLoop.Fault where
  init l := ∃ threadId, l = { threadId }
  step := EventLoop.step

namespace EventLoop

variable {F : Type} {l l' : EventLoop F} {label : Label F} {t : Tid} {cb : F}

theorem wakeup_count_pos (l : EventLoop F) : 0 < l.wakeup.wakeupCount := by
  simp only [wakeup]
  split <;> omega

theorem queueInLoop_eq (l : EventLoop F) (t : Tid) (cb : F) :
    l.queueInLoop t cb = { l with
      queue := l.queue.push cb
      waking := if t ≠ l.threadId then Function.update l.waking t (some .queueInLoop) else l.waking
      wakeupCount := if t = l.threadId ∧ l.callingPendingFunctors = true then l.wakeup.wakeupCount
        else l.wakeupCount } := by
  unfold queueInLoop
  by_cases own : t = l.threadId
  · cases calling : l.callingPendingFunctors <;> simp [own, calling, wakeup]
  · simp [own]

/-- What an enabled step that does not abort can do. -/
def Effect (l l' : EventLoop F) : Label F → Prop
  | .enter t => l.looping = false ∧ t = l.threadId ∧
      l' = { l with looping := true, quit := false, phase := .head, runner := t }
  | .check => l.phase = .head ∧ l' = l.check
  | .pollReturn wake => l.phase = .poll ∧ l' = l.pollReturn wake
  | .handleRead => l.phase = .handle ∧ l' = l.handleRead
  | .doPendingFunctors => l.phase = .handle ∧ l' = l.doPendingFunctors
  | .runFunctor => l.phase = .functors ∧
      ∃ cb rest, l.queue.batch = cb :: rest ∧ l' = l.runFunctor cb rest
  | .functorsDone => l.phase = .functors ∧ l.queue.batch = [] ∧ l' = l.functorsDone
  | .queueInLoop t cb => l.mayCall t = true ∧ l' = l.queueInLoop t cb
  | .runInLoop t cb => l' = l ∨ (l.mayCall t = true ∧ t ≠ l.threadId ∧ l' = l.queueInLoop t cb)
  | .quit t => l' = { l with quit := true } ∨
      (l.mayCall t = true ∧ t ≠ l.threadId ∧
        l' = { l with quit := true, waking := Function.update l.waking t (some .quit) })
  | .wakeup t => l' = { l.wakeup with waking := Function.update l.waking t none }

theorem step_effect (h : l.step label = some (.ok l')) : l.Effect l' label := by
  cases label with
  | enter t =>
    simp only [step, Option.ite_none_right_eq_some, Option.some.injEq] at h
    obtain ⟨_, h⟩ := h
    unfold enter at h
    split at h
    · cases h
    · rename_i idle
      split at h
      · cases h
      · rename_i own
        exact ⟨by simpa using idle, by simpa using own, (Except.ok.inj h).symm⟩
  | runFunctor =>
    simp only [step] at h
    split at h
    · rename_i cb rest phase batch
      exact ⟨phase, cb, rest, batch, by simpa using h.symm⟩
    · cases h
  | runInLoop t cb =>
    simp only [step, Option.ite_none_right_eq_some, Option.some.injEq, Except.ok.injEq] at h
    obtain ⟨may, rfl⟩ := h
    unfold runInLoop
    split
    · exact .inl rfl
    · rename_i other
      exact .inr ⟨may, other, rfl⟩
  | quit t =>
    simp only [step, Option.ite_none_right_eq_some, Option.some.injEq, Except.ok.injEq] at h
    obtain ⟨may, rfl⟩ := h
    unfold quitCall
    by_cases own : t = l.threadId
    · exact .inl (by simp [own])
    · exact .inr ⟨may, own, by simp [own]⟩
  | functorsDone =>
    simp only [step, Option.ite_none_right_eq_some, Option.some.injEq, Except.ok.injEq] at h
    exact ⟨h.1.1, List.isEmpty_iff.mp h.1.2, h.2.symm⟩
  | check | pollReturn | handleRead | doPendingFunctors | queueInLoop | wakeup =>
    simp only [step, Option.ite_none_right_eq_some, Option.some.injEq, Except.ok.injEq] at h
    simp_all only [Effect, and_self]

/-- The flags follow the phase, nothing in the queue is lost, and only the loop's thread runs it. -/
structure Inv (l : EventLoop F) : Prop where
  conserved : l.queue.Conserved
  bounded : l.queue.Bounded
  drained : l.phase ≠ .functors → l.queue.batch = []
  looping : l.looping = true ↔ l.phase ≠ .outside
  handling : l.eventHandling = true ↔ l.phase = .handle
  calling : l.callingPendingFunctors = true ↔ l.phase = .functors
  runner : l.phase ≠ .outside → l.runner = l.threadId
  ranBy : l.ranBy.length = l.queue.ran.length ∧ ∀ t ∈ l.ranBy, t = l.threadId

theorem initial_inv (threadId : Tid) : ({ threadId } : EventLoop F).Inv :=
  ⟨rfl, ⟨Nat.le_refl _, Nat.le_refl _⟩, fun _ => rfl, by simp, by simp, by simp, by simp, by simp⟩

theorem queueInLoop_inv (h : l.Inv) : (l.queueInLoop t cb).Inv := by
  rw [queueInLoop_eq]
  exact ⟨Lib.BatchQueue.push_conserved h.conserved, Lib.BatchQueue.push_bounded h.bounded, h.drained,
    h.looping, h.handling, h.calling, h.runner, h.ranBy⟩

theorem doPendingFunctors_inv (h : l.Inv) (phase : l.phase = .handle) : l.doPendingFunctors.Inv := by
  have empty := h.drained (by simp [phase])
  exact ⟨Lib.BatchQueue.swap_conserved empty h.conserved, Lib.BatchQueue.swap_bounded empty h.conserved,
    fun out => absurd rfl out, ⟨fun _ => by simp [doPendingFunctors], fun _ => h.looping.mpr (by simp [phase])⟩,
    by simp [doPendingFunctors], by simp [doPendingFunctors], fun _ => h.runner (by simp [phase]), h.ranBy⟩

theorem runFunctor_inv {rest : List F} (h : l.Inv) (phase : l.phase = .functors)
    (head : l.queue.batch = cb :: rest) : (l.runFunctor cb rest).Inv := by
  refine ⟨Lib.BatchQueue.pop_conserved head h.conserved, Lib.BatchQueue.pop_bounded head h.bounded,
    fun out => absurd phase out, h.looping, h.handling, h.calling, h.runner, ?_, ?_⟩
  · simp only [runFunctor, Lib.BatchQueue.pop, List.length_append, h.ranBy.1, List.length_singleton]
  · intro t member
    rcases List.mem_append.mp member with old | new
    · exact h.ranBy.2 t old
    · rw [List.mem_singleton.mp new]
      exact h.runner (by simp [phase])

theorem step_inv (h : l.Inv) (step : l.step label = some (.ok l')) : l'.Inv := by
  have effect := step_effect step
  cases label with
  | enter t =>
    obtain ⟨idle, own, rfl⟩ := effect
    have outside : l.phase = .outside := by
      by_contra inside
      simp [h.looping.mpr inside] at idle
    exact ⟨h.conserved, h.bounded, fun _ => h.drained (by simp [outside]), by simp,
      by simpa [outside] using h.handling, by simpa [outside] using h.calling, fun _ => own, h.ranBy⟩
  | check =>
    obtain ⟨phase, rfl⟩ := effect
    have empty := h.drained (by simp [phase])
    unfold EventLoop.check
    split
    · exact ⟨h.conserved, h.bounded, fun _ => empty, by simp, by simpa [phase] using h.handling,
        by simpa [phase] using h.calling, by simp, h.ranBy⟩
    · exact ⟨h.conserved, h.bounded, fun _ => empty, by simpa [phase] using h.looping,
        by simpa [phase] using h.handling, by simpa [phase] using h.calling,
        fun _ => h.runner (by simp [phase]), h.ranBy⟩
  | pollReturn wake =>
    obtain ⟨phase, rfl⟩ := effect
    exact ⟨h.conserved, h.bounded, fun _ => h.drained (by simp [phase]),
      by simpa [phase, pollReturn] using h.looping, by simp [pollReturn],
      by simpa [phase, pollReturn] using h.calling, fun _ => h.runner (by simp [phase]), h.ranBy⟩
  | handleRead =>
    obtain ⟨_, rfl⟩ := effect
    exact ⟨h.conserved, h.bounded, h.drained, h.looping, h.handling, h.calling, h.runner, h.ranBy⟩
  | doPendingFunctors =>
    obtain ⟨phase, rfl⟩ := effect
    exact doPendingFunctors_inv h phase
  | runFunctor =>
    obtain ⟨phase, cb, rest, head, rfl⟩ := effect
    exact runFunctor_inv h phase head
  | functorsDone =>
    obtain ⟨phase, empty, rfl⟩ := effect
    exact ⟨h.conserved, h.bounded, fun _ => empty, by simpa [phase, functorsDone] using h.looping,
      by simpa [phase, functorsDone] using h.handling, by simp [functorsDone],
      fun _ => h.runner (by simp [phase]), h.ranBy⟩
  | queueInLoop t cb =>
    obtain ⟨_, rfl⟩ := effect
    exact queueInLoop_inv h
  | runInLoop t cb =>
    rcases effect with rfl | ⟨_, _, rfl⟩
    · exact h
    · exact queueInLoop_inv h
  | quit t =>
    rcases effect with rfl | ⟨_, _, rfl⟩
    all_goals
      exact ⟨h.conserved, h.bounded, h.drained, h.looping, h.handling, h.calling, h.runner, h.ranBy⟩
  | wakeup t =>
    obtain rfl := effect
    exact ⟨h.conserved, h.bounded, h.drained, h.looping, h.handling, h.calling, h.runner, h.ranBy⟩

theorem reachable_inv {guard : EventLoop F → Label F → Prop} (h : (eventLoop F).Reachable guard l) :
    l.Inv := by
  refine h.invariant ?_ fun _ _ _ _ inv _ step => step_inv inv step
  rintro a ⟨threadId, rfl⟩
  exact initial_inv threadId

/-! ### What a step adds to the queue -/

/-- Calls of `queueInLoop` and nothing else. -/
structure Pushed (l l' : EventLoop F) (cbs : List F) : Prop where
  waiting : l'.queue.waiting = l.queue.waiting ++ cbs
  inserted : l'.queue.inserted = l.queue.inserted ++ cbs
  phase : l'.phase = l.phase
  eventHandling : l'.eventHandling = l.eventHandling
  callingPendingFunctors : l'.callingPendingFunctors = l.callingPendingFunctors
  threadId : l'.threadId = l.threadId
  inv : l.Inv → l'.Inv

theorem Pushed.refl (l : EventLoop F) : l.Pushed l [] :=
  ⟨by simp, by simp, rfl, rfl, rfl, rfl, id⟩

theorem Pushed.trans {l'' : EventLoop F} {cbs cbs' : List F} (first : l.Pushed l' cbs)
    (second : l'.Pushed l'' cbs') : l.Pushed l'' (cbs ++ cbs') :=
  ⟨by rw [second.waiting, first.waiting, List.append_assoc],
    by rw [second.inserted, first.inserted, List.append_assoc],
    second.phase.trans first.phase, second.eventHandling.trans first.eventHandling,
    second.callingPendingFunctors.trans first.callingPendingFunctors,
    second.threadId.trans first.threadId, second.inv ∘ first.inv⟩

theorem queueInLoop_pushed (l : EventLoop F) (t : Tid) (cb : F) : l.Pushed (l.queueInLoop t cb) [cb] := by
  refine ⟨?_, ?_, ?_, ?_, ?_, ?_, queueInLoop_inv⟩
  all_goals rw [queueInLoop_eq]
  · exact Lib.BatchQueue.push_waiting
  · rfl

def Label.plain : Label F → Bool
  | runFunctor | queueInLoop _ _ | runInLoop _ _ => false
  | _ => true

theorem step_plain (inv : l.Inv) (plain : label.plain = true) (step : l.step label = some (.ok l')) :
    l'.queue.waiting = l.queue.waiting ∧ l'.queue.inserted = l.queue.inserted := by
  have effect := step_effect step
  cases label with
  | enter => obtain ⟨_, _, rfl⟩ := effect; exact ⟨rfl, rfl⟩
  | check =>
    obtain ⟨_, rfl⟩ := effect
    unfold EventLoop.check
    split <;> exact ⟨rfl, rfl⟩
  | pollReturn | handleRead => obtain ⟨_, rfl⟩ := effect; exact ⟨rfl, rfl⟩
  | doPendingFunctors =>
    obtain ⟨phase, rfl⟩ := effect
    exact ⟨Lib.BatchQueue.swap_waiting (inv.drained (by simp [phase])), rfl⟩
  | functorsDone => obtain ⟨_, _, rfl⟩ := effect; exact ⟨rfl, rfl⟩
  | quit => rcases effect with rfl | ⟨_, _, rfl⟩ <;> exact ⟨rfl, rfl⟩
  | wakeup => obtain rfl := effect; exact ⟨rfl, rfl⟩
  | runFunctor | queueInLoop | runInLoop => cases plain

theorem step_threadId (step : l.step label = some (.ok l')) : l'.threadId = l.threadId := by
  have effect := step_effect step
  cases label with
  | enter => obtain ⟨_, _, rfl⟩ := effect; rfl
  | check =>
    obtain ⟨_, rfl⟩ := effect
    unfold EventLoop.check
    split <;> rfl
  | pollReturn | handleRead | doPendingFunctors => obtain ⟨_, rfl⟩ := effect; rfl
  | runFunctor => obtain ⟨_, _, _, _, rfl⟩ := effect; rfl
  | functorsDone => obtain ⟨_, _, rfl⟩ := effect; rfl
  | queueInLoop t cb => obtain ⟨_, rfl⟩ := effect; exact (queueInLoop_pushed l t cb).threadId
  | runInLoop t cb =>
    rcases effect with rfl | ⟨_, _, rfl⟩
    · rfl
    · exact (queueInLoop_pushed l t cb).threadId
  | quit => rcases effect with rfl | ⟨_, _, rfl⟩ <;> rfl
  | wakeup => obtain rfl := effect; rfl

/-! ### The order of functors -/

theorem step_mark (step : l.step label = some (.ok l')) :
    l.batches ≤ l'.batches ∧ (l'.batches = l.batches → l'.queue.mark = l.queue.mark) := by
  have effect := step_effect step
  cases label with
  | doPendingFunctors =>
    obtain ⟨_, rfl⟩ := effect
    exact ⟨Nat.le_succ _, fun same => absurd same (Nat.succ_ne_self _)⟩
  | enter t => obtain ⟨_, _, rfl⟩ := effect; exact ⟨Nat.le_refl _, fun _ => rfl⟩
  | check =>
    obtain ⟨_, rfl⟩ := effect
    unfold EventLoop.check
    split <;> exact ⟨Nat.le_refl _, fun _ => rfl⟩
  | pollReturn | handleRead => obtain ⟨_, rfl⟩ := effect; exact ⟨Nat.le_refl _, fun _ => rfl⟩
  | runFunctor => obtain ⟨_, _, _, _, rfl⟩ := effect; exact ⟨Nat.le_refl _, fun _ => rfl⟩
  | functorsDone => obtain ⟨_, _, rfl⟩ := effect; exact ⟨Nat.le_refl _, fun _ => rfl⟩
  | queueInLoop t cb =>
    obtain ⟨_, rfl⟩ := effect
    rw [queueInLoop_eq]
    exact ⟨Nat.le_refl _, fun _ => rfl⟩
  | runInLoop t cb =>
    rcases effect with rfl | ⟨_, _, rfl⟩
    · exact ⟨Nat.le_refl _, fun _ => rfl⟩
    · rw [queueInLoop_eq]
      exact ⟨Nat.le_refl _, fun _ => rfl⟩
  | quit t => rcases effect with rfl | ⟨_, _, rfl⟩ <;> exact ⟨Nat.le_refl _, fun _ => rfl⟩
  | wakeup t => obtain rfl := effect; exact ⟨Nat.le_refl _, fun _ => rfl⟩

/-- While one batch is run, what is run was pushed before the batch was taken. -/
theorem ran_before_mark {guard : EventLoop F → Label F → Prop} (h : (eventLoop F).Reachable guard l)
    (steps : (eventLoop F).Steps guard l l') (same : l'.batches = l.batches) :
    l'.queue.ran.length ≤ l.queue.mark := by
  have marked : l.batches ≤ l'.batches ∧ (l'.batches = l.batches → l'.queue.mark = l.queue.mark) := by
    refine steps.invariant (P := fun a => l.batches ≤ a.batches ∧
      (a.batches = l.batches → a.queue.mark = l.queue.mark)) h ⟨Nat.le_refl _, fun _ => rfl⟩ ?_
    intro a label b _ before _ step
    have after := step_mark step
    exact ⟨Nat.le_trans before.1 after.1, fun eq => (after.2 (by omega)).trans (before.2 (by omega))⟩
  have bounded := (reachable_inv (h.steps steps)).bounded.1
  rw [marked.2 same] at bounded
  omega

/-- What has run, the rest of the batch and `pendingFunctors_` are the insertions in order; only the
loop's thread runs them; and a functor pushed while a batch is run, at position
`l.queue.inserted.length`, is not among what has run until a later batch is taken. -/
theorem functors_run_in_order (h : (eventLoop F).Reachable Lib.Machine.anyStep l) :
    l.queue.ran ++ l.queue.batch ++ l.queue.pending = l.queue.inserted ∧
    (l.ranBy.length = l.queue.ran.length ∧ ∀ t ∈ l.ranBy, t = l.threadId) ∧
    (∀ t cb l₁, l.step (.queueInLoop t cb) = some (.ok l₁) ∨
        (t ≠ l.threadId ∧ l.step (.runInLoop t cb) = some (.ok l₁)) →
      l₁.queue.inserted = l.queue.inserted ++ [cb] ∧
      (l.phase = .functors → ∀ l₂, (eventLoop F).Steps Lib.Machine.anyStep l₁ l₂ →
        l₂.batches = l.batches → l₂.queue.ran.length ≤ l.queue.inserted.length)) := by
  have inv := reachable_inv h
  refine ⟨inv.conserved, inv.ranBy, ?_⟩
  intro t cb l₁ called
  have pushed : l₁ = l.queueInLoop t cb ∧ ∃ label, l.step label = some (.ok l₁) := by
    rcases called with call | ⟨other, call⟩
    · exact ⟨(step_effect call).2, _, call⟩
    · simp only [step, Option.ite_none_right_eq_some, Option.some.injEq, Except.ok.injEq, runInLoop,
        if_neg other] at call
      exact ⟨call.2.symm, .queueInLoop t cb, by simp [step, call.1, call.2]⟩
  obtain ⟨rfl, label, step⟩ := pushed
  refine ⟨by rw [queueInLoop_eq]; rfl, fun _ l₂ steps same => ?_⟩
  have whole : (eventLoop F).Steps Lib.Machine.anyStep l l₂ := .head ⟨label, trivial, step⟩ steps
  exact Nat.le_trans (ran_before_mark h whole same) inv.bounded.2

/-- Thread 2 queues functor 10; while it runs it queues 11, which stays pending. -/
theorem functors_run_in_order_nested :
    ∃ l, (eventLoop Nat).Reachable Lib.Machine.anyStep l ∧ l.phase = .functors ∧
      l.queue.ran ++ l.queue.batch ++ l.queue.pending = [10, 11] ∧ l.queue.ran = [10] ∧
      ∀ t ∈ l.ranBy, t = l.threadId := by
  obtain ⟨l, reached, phase, inserted, ran⟩ := Lib.Machine.exec_reaches (eventLoop Nat)
    Lib.Machine.anyStep { threadId := 1 }
    [.enter 1, .check, .queueInLoop 2 10, .wakeup 2, .pollReturn true, .handleRead,
      .doPendingFunctors, .runFunctor, .queueInLoop 1 11]
    (fun l => l.phase = .functors ∧ l.queue.inserted = [10, 11] ∧ l.queue.ran = [10])
    ⟨1, rfl⟩ (by decide)
  obtain ⟨order, ⟨_, own⟩, _⟩ := functors_run_in_order reached
  exact ⟨l, reached, phase, order.trans inserted, ran, own⟩

/-! ### Wake-ups -/

/-- The loop's thread does not sit in `poll` with functors pending unless the eventfd is readable or
a thread that has pushed is about to make it so. -/
def NoLostWakeup (l : EventLoop F) : Prop :=
  l.phase = .poll → l.queue.pending ≠ [] →
    0 < l.wakeupCount ∨ ∃ t, t ≠ l.threadId ∧ l.waking t = some .queueInLoop

/-- The loop's own thread calls `queueInLoop` only from inside `loop()`. -/
def OwnCallsInside (l : EventLoop F) : Label F → Prop
  | .queueInLoop t _ => t = l.threadId → l.looping = true
  | _ => True

instance (l : EventLoop F) : (label : Label F) → Decidable (OwnCallsInside l label)
  | .queueInLoop _ _ => inferInstanceAs (Decidable (_ → _))
  | .enter _ | .check | .pollReturn _ | .handleRead | .doPendingFunctors | .runFunctor | .functorsDone
  | .runInLoop .. | .quit _ | .wakeup _ => instDecidableTrue

/-- Pending functors have a wake-up under way. -/
def Covered (l : EventLoop F) : Prop :=
  l.queue.pending = [] ∨ 0 < l.wakeupCount ∨ ∃ t, t ≠ l.threadId ∧ l.waking t = some .queueInLoop

theorem queueInLoop_covered (may : l.mayCall t = true) (inv : l.Inv)
    (inside : t = l.threadId → l.looping = true) (handling : l.phase ≠ .handle) :
    (l.queueInLoop t cb).Covered := by
  rw [queueInLoop_eq]
  by_cases own : t = l.threadId
  · have started := inv.looping.mp (inside own)
    have phase : l.phase = .functors := by
      simp only [mayCall, own, if_true, Bool.or_eq_true, beq_iff_eq] at may
      rcases may with (out | handle) | functors
      · exact absurd out started
      · exact absurd handle handling
      · exact functors
    refine .inr (.inl ?_)
    simp only [own, inv.calling.mpr phase, and_self, if_true]
    exact wakeup_count_pos l
  · exact .inr (.inr ⟨t, own, by simp [own]⟩)

/-- Only handlers may leave a functor uncovered: `doPendingFunctors` follows them before `poll`. -/
theorem step_covered (inv : l.Inv) (h : l.phase ≠ .handle → l.Covered)
    (inside : OwnCallsInside l label) (step : l.step label = some (.ok l')) :
    l'.phase ≠ .handle → l'.Covered := by
  have effect := step_effect step
  cases label with
  | enter t =>
    obtain ⟨idle, _, rfl⟩ := effect
    exact fun _ => h fun phase => by simp [inv.looping.mpr (by simp [phase])] at idle
  | check =>
    obtain ⟨phase, rfl⟩ := effect
    unfold EventLoop.check
    split <;> exact fun _ => h (by simp [phase])
  | pollReturn wake =>
    obtain ⟨_, rfl⟩ := effect
    exact fun out => absurd rfl out
  | handleRead =>
    obtain ⟨phase, rfl⟩ := effect
    exact fun out => absurd phase out
  | doPendingFunctors =>
    obtain ⟨_, rfl⟩ := effect
    exact fun _ => .inl rfl
  | runFunctor =>
    obtain ⟨phase, cb, rest, _, rfl⟩ := effect
    exact fun _ => h (by simp [phase])
  | functorsDone =>
    obtain ⟨phase, _, rfl⟩ := effect
    exact fun _ => h (by simp [phase])
  | queueInLoop t cb =>
    obtain ⟨may, rfl⟩ := effect
    intro out
    rw [queueInLoop_eq] at out
    exact queueInLoop_covered may inv inside out
  | runInLoop t cb =>
    rcases effect with rfl | ⟨may, other, rfl⟩
    · exact h
    · intro out
      rw [queueInLoop_eq] at out
      exact queueInLoop_covered may inv (fun own => absurd own other) out
  | quit t =>
    rcases effect with rfl | ⟨may, other, rfl⟩
    · exact h
    · intro out
      rcases h out with empty | count | ⟨u, foreign, pushed⟩
      · exact .inl empty
      · exact .inr (.inl count)
      · -- `t` is not in a call, so it is not the thread that has pushed
        have different : u ≠ t := by
          rintro rfl
          simp [mayCall, foreign, pushed] at may
        exact .inr (.inr ⟨u, foreign, by simpa [Function.update_of_ne different] using pushed⟩)
  | wakeup t =>
    obtain rfl := effect
    exact fun _ => .inr (.inl (wakeup_count_pos l))

/-- No wake-up is lost in a run whose own-thread calls of `queueInLoop` are all made inside `loop()`. -/
theorem no_lost_wakeup (h : (eventLoop F).Reachable OwnCallsInside l) : NoLostWakeup l := by
  have covered : l.phase ≠ .handle → l.Covered := by
    refine h.invariant ?_ fun a label b reached before inside step =>
      step_covered (reachable_inv reached) before inside step
    rintro a ⟨threadId, rfl⟩
    exact fun _ => .inl rfl
  intro polling pending
  rcases covered (by simp [polling]) with empty | woken
  · exact absurd empty pending
  · exact woken

/-- A functor queues another one, and the loop is back in `poll` with the eventfd readable. -/
theorem no_lost_wakeup_nested :
    ∃ l, (eventLoop Nat).Reachable OwnCallsInside l ∧ l.phase = .poll ∧ l.queue.pending = [11] ∧
      NoLostWakeup l := by
  obtain ⟨l, reached, phase, pending⟩ := Lib.Machine.exec_reaches (eventLoop Nat)
    OwnCallsInside { threadId := 1 }
    [.queueInLoop 2 10, .wakeup 2, .enter 1, .check, .pollReturn true, .handleRead,
      .doPendingFunctors, .runFunctor, .queueInLoop 1 11, .functorsDone, .check]
    (fun l => l.phase = .poll ∧ l.queue.pending = [11]) ⟨1, rfl⟩ (by decide)
  exact ⟨l, reached, phase, pending, no_lost_wakeup reached⟩

/-- The loop's own thread queues a functor, then enters `loop()` and waits for ever. -/
theorem lost_wakeup_before_loop :
    ¬ ∀ l, (eventLoop Nat).Reachable Lib.Machine.anyStep l → NoLostWakeup l := by
  intro claim
  let waiting : EventLoop Nat :=
    { threadId := 1, looping := true, phase := .poll, runner := 1
      queue := { pending := [10], inserted := [10] } }
  have run : (eventLoop Nat).exec Lib.Machine.anyStep { threadId := 1 }
      [.queueInLoop 1 10, .enter 1, .check] = some waiting := rfl
  have woken := claim waiting ⟨_, ⟨1, rfl⟩, Lib.Machine.exec_steps run⟩ rfl (by decide)
  simp [waiting] at woken

end EventLoop

end Dserver.Net
