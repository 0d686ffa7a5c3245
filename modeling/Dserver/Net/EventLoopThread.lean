import Dserver.Net.EventLoop
import Mathlib.Data.Prod.Lex
import Mathlib.Order.WellFounded

/-!
# `EventLoopThread`

The owner of the object, the thread that runs `threadFunc`, and the threads that were given the loop
that `startLoop` returned. The loop is on the stack of `threadFunc`: who still has the pointer when `threadFunc`
returns uses a destroyed object.
-/

namespace Dserver.Net

namespace EventLoop

variable {F : Type} {l l' : EventLoop F} {label : Label F}

/-! ### The loop once `quit_` is set -/

/-- The steps by which `loop()` itself goes on. -/
def Label.control : Label F → Bool
  | check | pollReturn _ | handleRead | doPendingFunctors | runFunctor | functorsDone => true
  | _ => false

def Label.isEnter : Label F → Bool
  | enter _ => true
  | _ => false

/-- What is left of the iteration before the next test of `quit_`. -/
def rank (l : EventLoop F) : ℕ ×ₗ ℕ :=
  match l.phase with
  | .outside => toLex (0, 0)
  | .head => toLex (1, 0)
  | .functors => toLex (2, l.queue.batch.length)
  | .handle => toLex (3, l.wakeupActive.toNat)
  | .poll => toLex (4, 0)

theorem rank_congr (phase : l'.phase = l.phase) (batch : l'.queue.batch = l.queue.batch)
    (active : l'.wakeupActive = l.wakeupActive) : l'.rank = l.rank := by
  simp only [rank, phase, batch, active]

theorem queueInLoop_rank (l : EventLoop F) (t : Tid) (cb : F) : (l.queueInLoop t cb).rank = l.rank := by
  rw [queueInLoop_eq]
  exact rank_congr rfl rfl rfl

theorem quitCall_eq (l : EventLoop F) (t : Tid) :
    l.quitCall t = { l with
      quit := true
      waking := if t ≠ l.threadId then Function.update l.waking t (some .quit) else l.waking } := by
  unfold quitCall
  by_cases own : t = l.threadId <;> simp [own]

theorem check_quit (quit : l.quit = true) : l.check = { l with looping := false, phase := .outside } := by
  rw [EventLoop.check, if_pos quit]

theorem step_quit (inside : label.isEnter = false) (quit : l.quit = true)
    (step : l.step label = some (.ok l')) : l'.quit = true := by
  have effect := step_effect step
  cases label with
  | enter => cases inside
  | check =>
    obtain ⟨_, rfl⟩ := effect
    rw [check_quit quit]
    exact quit
  | pollReturn | handleRead | doPendingFunctors => obtain ⟨_, rfl⟩ := effect; exact quit
  | runFunctor => obtain ⟨_, _, _, _, rfl⟩ := effect; exact quit
  | functorsDone => obtain ⟨_, _, rfl⟩ := effect; exact quit
  | queueInLoop t cb =>
    obtain ⟨_, rfl⟩ := effect
    rw [queueInLoop_eq]
    exact quit
  | runInLoop t cb =>
    rcases effect with rfl | ⟨_, _, rfl⟩
    · exact quit
    · rw [queueInLoop_eq]
      exact quit
  | quit => rcases effect with rfl | ⟨_, _, rfl⟩ <;> rfl
  | wakeup => obtain rfl := effect; exact quit

/-- With `quit_` set no step lengthens what is left, and `loop()` itself shortens it. -/
theorem step_rank (inside : label.isEnter = false) (quit : l.quit = true)
    (step : l.step label = some (.ok l')) :
    (label.control = true → l'.rank < l.rank) ∧ (label.control = false → l'.rank = l.rank) := by
  have effect := step_effect step
  cases label with
  | enter => cases inside
  | check =>
    obtain ⟨phase, rfl⟩ := effect
    refine ⟨fun _ => ?_, fun other => by cases other⟩
    rw [check_quit quit]
    simp [rank, phase, Prod.Lex.toLex_lt_toLex]
  | pollReturn =>
    obtain ⟨phase, rfl⟩ := effect
    refine ⟨fun _ => ?_, fun other => by cases other⟩
    simp [rank, phase, pollReturn, Prod.Lex.toLex_lt_toLex]
  | handleRead =>
    obtain ⟨phase, rfl⟩ := effect
    have active : l.wakeupActive = true := by
      simp only [EventLoop.step, Option.ite_none_right_eq_some] at step
      exact step.1.2
    refine ⟨fun _ => ?_, fun other => by cases other⟩
    simp [rank, phase, EventLoop.handleRead, active, Prod.Lex.toLex_lt_toLex]
  | doPendingFunctors =>
    obtain ⟨phase, rfl⟩ := effect
    refine ⟨fun _ => ?_, fun other => by cases other⟩
    simp [rank, phase, EventLoop.doPendingFunctors, Prod.Lex.toLex_lt_toLex]
  | runFunctor =>
    obtain ⟨phase, cb, rest, head, rfl⟩ := effect
    refine ⟨fun _ => ?_, fun other => by cases other⟩
    simp [rank, phase, EventLoop.runFunctor, Lib.BatchQueue.pop, head, Prod.Lex.toLex_lt_toLex]
  | functorsDone =>
    obtain ⟨phase, _, rfl⟩ := effect
    refine ⟨fun _ => ?_, fun other => by cases other⟩
    simp [rank, phase, EventLoop.functorsDone, Prod.Lex.toLex_lt_toLex]
  | queueInLoop t cb =>
    obtain ⟨_, rfl⟩ := effect
    exact ⟨fun own => (by cases own), fun _ => queueInLoop_rank l t cb⟩
  | runInLoop t cb =>
    refine ⟨fun own => (by cases own), fun _ => ?_⟩
    rcases effect with rfl | ⟨_, _, rfl⟩
    · rfl
    · exact queueInLoop_rank l t cb
  | quit =>
    refine ⟨fun own => (by cases own), fun _ => ?_⟩
    rcases effect with rfl | ⟨_, _, rfl⟩ <;> exact rank_congr rfl rfl rfl
  | wakeup =>
    obtain rfl := effect
    exact ⟨fun own => (by cases own), fun _ => rank_congr rfl rfl rfl⟩

theorem rank_le_poll (l : EventLoop F) : l.rank ≤ toLex (4, 0) := by
  unfold rank
  split <;> simp [Prod.Lex.toLex_le_toLex]

theorem rank_poll : l.rank = toLex (4, 0) ↔ l.phase = .poll := by
  unfold rank
  split <;> simp_all

theorem step_poll (inside : label.isEnter = false) (quit : l.quit = true)
    (step : l.step label = some (.ok l')) (polls : l'.phase = .poll) :
    label.control = false ∧ l.phase = .poll := by
  obtain ⟨shorter, same⟩ := step_rank inside quit step
  rw [rank_poll.mpr polls] at shorter same
  cases kind : label.control with
  | true => exact absurd (shorter kind) (not_lt_of_ge (rank_le_poll l))
  | false => exact ⟨rfl, rank_poll.mp (same kind).symm⟩

theorem le_wakeup (l : EventLoop F) : l.wakeupCount ≤ l.wakeup.wakeupCount := by
  simp only [wakeup]
  split <;> omega

theorem step_wakeupCount (waits : label.control = false) (step : l.step label = some (.ok l')) :
    l.wakeupCount ≤ l'.wakeupCount := by
  have effect := step_effect step
  have pushes : ∀ t cb, l.wakeupCount ≤ (l.queueInLoop t cb).wakeupCount := by
    intro t cb
    rw [queueInLoop_eq]
    dsimp only
    split
    · exact le_wakeup l
    · exact Nat.le_refl _
  cases label with
  | check | pollReturn | handleRead | doPendingFunctors | runFunctor | functorsDone => cases waits
  | enter => obtain ⟨_, _, rfl⟩ := effect; exact Nat.le_refl _
  | queueInLoop t cb => obtain ⟨_, rfl⟩ := effect; exact pushes t cb
  | runInLoop t cb =>
    rcases effect with rfl | ⟨_, _, rfl⟩
    · exact Nat.le_refl _
    · exact pushes t cb
  | quit => rcases effect with rfl | ⟨_, _, rfl⟩ <;> exact Nat.le_refl _
  | wakeup => obtain rfl := effect; exact le_wakeup l

theorem step_inside (inside : label.isEnter = false) (step : l.step label = some (.ok l'))
    (after : l'.phase ≠ .outside) : l.phase ≠ .outside := by
  have effect := step_effect step
  cases label with
  | enter => cases inside
  | check => obtain ⟨phase, rfl⟩ := effect; simp [phase]
  | pollReturn | handleRead | doPendingFunctors => obtain ⟨phase, rfl⟩ := effect; simp [phase]
  | runFunctor => obtain ⟨phase, _, _, _, rfl⟩ := effect; simp [phase]
  | functorsDone => obtain ⟨phase, _, rfl⟩ := effect; simp [phase]
  | queueInLoop t cb =>
    obtain ⟨_, rfl⟩ := effect
    rwa [(queueInLoop_pushed l t cb).phase] at after
  | runInLoop t cb =>
    rcases effect with rfl | ⟨_, _, rfl⟩
    · exact after
    · rwa [(queueInLoop_pushed l t cb).phase] at after
  | quit => rcases effect with rfl | ⟨_, _, rfl⟩ <;> exact after
  | wakeup => obtain rfl := effect; exact after

theorem step_quitting (other : ∀ t, label ≠ .quit t) (step : l.step label = some (.ok l')) :
    (l'.quit = true → l.quit = true) ∧ ∀ t, l'.waking t = some .quit → l.waking t = some .quit := by
  have effect := step_effect step
  have pushes : ∀ t cb, ((l.queueInLoop t cb).quit = true → l.quit = true) ∧
      ∀ u, (l.queueInLoop t cb).waking u = some .quit → l.waking u = some .quit := by
    intro t cb
    rw [queueInLoop_eq]
    refine ⟨id, fun u => ?_⟩
    dsimp only
    split
    · intro called
      by_cases same : u = t
      · subst same
        simp at called
      · rwa [Function.update_of_ne same] at called
    · exact id
  cases label with
  | enter => obtain ⟨_, _, rfl⟩ := effect; exact ⟨fun own => (by cases own), fun _ => id⟩
  | check =>
    obtain ⟨_, rfl⟩ := effect
    unfold EventLoop.check
    split <;> exact ⟨id, fun _ => id⟩
  | pollReturn | handleRead | doPendingFunctors => obtain ⟨_, rfl⟩ := effect; exact ⟨id, fun _ => id⟩
  | runFunctor => obtain ⟨_, _, _, _, rfl⟩ := effect; exact ⟨id, fun _ => id⟩
  | functorsDone => obtain ⟨_, _, rfl⟩ := effect; exact ⟨id, fun _ => id⟩
  | queueInLoop t cb => obtain ⟨_, rfl⟩ := effect; exact pushes t cb
  | runInLoop t cb =>
    rcases effect with rfl | ⟨_, _, rfl⟩
    · exact ⟨id, fun _ => id⟩
    · exact pushes t cb
  | quit t => exact absurd rfl (other t)
  | wakeup t =>
    obtain rfl := effect
    refine ⟨id, fun u called => ?_⟩
    by_cases same : u = t
    · subst same
      simp at called
    · simpa [Function.update_of_ne same] using called

/-- The iterations of `loop()` up to now, with the one of a `poll` that has not returned. -/
def iterations (l : EventLoop F) : Nat :=
  l.batches + if l.phase = .poll ∨ l.phase = .handle then 1 else 0

theorem step_iterations (inside : label.isEnter = false) (quit : l.quit = true)
    (step : l.step label = some (.ok l')) : l'.iterations ≤ l.iterations := by
  have effect := step_effect step
  have pushes : ∀ t cb, (l.queueInLoop t cb).iterations = l.iterations := by
    intro t cb
    rw [queueInLoop_eq]
    rfl
  cases label with
  | enter => cases inside
  | check =>
    obtain ⟨_, rfl⟩ := effect
    rw [check_quit quit]
    simp only [iterations, reduceCtorEq, or_self, if_false]
    omega
  | pollReturn =>
    obtain ⟨phase, rfl⟩ := effect
    simp [iterations, phase, pollReturn]
  | handleRead => obtain ⟨_, rfl⟩ := effect; exact Nat.le_refl _
  | doPendingFunctors =>
    obtain ⟨phase, rfl⟩ := effect
    simp [iterations, phase, EventLoop.doPendingFunctors]
  | runFunctor => obtain ⟨_, _, _, _, rfl⟩ := effect; exact Nat.le_refl _
  | functorsDone =>
    obtain ⟨phase, _, rfl⟩ := effect
    simp [iterations, phase, EventLoop.functorsDone]
  | queueInLoop t cb => obtain ⟨_, rfl⟩ := effect; exact Nat.le_of_eq (pushes t cb)
  | runInLoop t cb =>
    rcases effect with rfl | ⟨_, _, rfl⟩
    · exact Nat.le_refl _
    · exact Nat.le_of_eq (pushes t cb)
  | quit => rcases effect with rfl | ⟨_, _, rfl⟩ <;> exact Nat.le_refl _
  | wakeup => obtain rfl := effect; exact Nat.le_refl _

theorem control_waking (control : label.control = true) (step : l.step label = some (.ok l')) :
    l'.waking = l.waking := by
  have effect := step_effect step
  cases label with
  | enter | queueInLoop | runInLoop | quit | wakeup => cases control
  | check =>
    obtain ⟨_, rfl⟩ := effect
    unfold EventLoop.check
    split <;> rfl
  | pollReturn | handleRead | doPendingFunctors => obtain ⟨_, rfl⟩ := effect; rfl
  | runFunctor => obtain ⟨_, _, _, _, rfl⟩ := effect; rfl
  | functorsDone => obtain ⟨_, _, rfl⟩ := effect; rfl

/-- Inside `loop()` one of its own steps can be taken, unless `poll` has nothing to return for. -/
theorem control_enabled (inside : l.phase ≠ .outside) (ready : l.phase = .poll → 0 < l.wakeupCount) :
    ∃ label l', label.control = true ∧ l.step label = some (.ok l') := by
  cases phase : l.phase with
  | outside => exact absurd phase inside
  | head => exact ⟨.check, _, rfl, by rw [step, if_pos phase]⟩
  | poll => exact ⟨.pollReturn true, _, rfl, by rw [step, if_pos ⟨phase, fun _ => ready phase⟩]⟩
  | handle =>
    cases active : l.wakeupActive with
    | true => exact ⟨.handleRead, _, rfl, by rw [step, if_pos ⟨phase, active⟩]⟩
    | false => exact ⟨.doPendingFunctors, _, rfl, by rw [step, if_pos ⟨phase, active⟩]⟩
  | functors =>
    cases batch : l.queue.batch with
    | nil => exact ⟨.functorsDone, _, rfl, by rw [step, if_pos ⟨phase, by rw [batch]; rfl⟩]⟩
    | cons cb rest => exact ⟨.runFunctor, l.runFunctor cb rest, rfl, by simp only [step, phase, batch]⟩

end EventLoop

/-- Where the thread of `threadFunc` is. -/
inductive ThreadFunc where
  | notStarted
  /-- The loop is constructed and `loop_` not yet set. -/
  | started
  /-- `loop_` is set and `loop()` not yet entered. -/
  | published
  /-- In `loop()`, or back from it with `loop_` still set. -/
  | looping
  /-- `loop_` is `NULL` again and the loop not yet destroyed. -/
  | cleared
  | returned
  deriving DecidableEq, Repr

/-- Where the owner of the object is. -/
inductive Owner where
  | constructed
  /-- In `startLoop`, waiting on `cond_`. -/
  | waiting
  | obtained
  /-- In the destructor, past its test of `loop_`. -/
  | closing
  /-- In the destructor, in `loop_->quit()` or in `thread_.join()`. -/
  | quitting
  | destroyed
  deriving DecidableEq, Repr

structure EventLoopThread (F : Type) where
  loop : EventLoop F
  ownerId : Tid
  func : ThreadFunc := .notStarted
  owner : Owner := .constructed
  /-- History: a call of `quit()` has returned. -/
  quitReturned : Bool := false

namespace EventLoopThread

variable {F : Type}

/-- `assert(!thread_.started())`, a call through `loop_` when it is `NULL`, a call of a loop that is destroyed,
and the faults of the loop. -/
inductive Fault where
  | started
  | noLoop
  | useAfterFree
  | loop (fault : EventLoop.Fault)
  deriving DecidableEq, Repr

/-- `loop_ != NULL`. -/
def loopSet (s : EventLoopThread F) : Bool := s.func == .published || s.func == .looping

inductive Label (F : Type) where
  | startLoop
  | threadFunc
  | startLoopReturn
  | enterLoop
  | loop (label : EventLoop.Label F)
  | clearLoop
  | threadFuncReturn
  -- `~EventLoopThread`: the test of `loop_`, the start of its `quit()`, and `join`
  | destroy
  | quit
  | join

/-- Thread `t` is in code that can call the loop: in a callback, or it has the pointer that
`startLoop` returned. -/
def holds (s : EventLoopThread F) (t : Tid) : Bool :=
  if t = s.loop.threadId then s.loop.phase != .outside
  else
    match s.owner with
    | .constructed | .waiting => false
    | .obtained => true
    | .closing | .quitting | .destroyed => s.func != .notStarted && t != s.ownerId

/-- The steps of the loop that can be taken now; `loop()` is entered by `threadFunc` only. -/
def allows (s : EventLoopThread F) : EventLoop.Label F → Bool
  | .enter _ => false
  | .queueInLoop t _ | .runInLoop t _ | .quit t => s.holds t
  | _ => true

/-- The step of the loop is the last one of a call of `quit()`. -/
def returnsQuit (s : EventLoopThread F) : EventLoop.Label F → Bool
  | .quit t => t == s.loop.threadId
  | .wakeup t => s.loop.waking t == some .quit
  | _ => false

def withLoop (s : EventLoopThread F) (label : EventLoop.Label F) (l : EventLoop F) : EventLoopThread F :=
  { s with loop := l, quitReturned := s.quitReturned || s.returnsQuit label }

/-- The test of `loop_` in `~EventLoopThread`. -/
def destroy (s : EventLoopThread F) : EventLoopThread F :=
  if s.loopSet then { s with owner := .closing } else { s with owner := .destroyed }

/-- The owner is in none of the functions below and in no call of the loop. -/
def ownerFree (s : EventLoopThread F) : Bool :=
  (s.owner == .constructed || s.owner == .obtained) && (s.loop.waking s.ownerId).isNone

def step (s : EventLoopThread F) : Label F → Option (Except Fault (EventLoopThread F))
  | .startLoop =>
    if s.ownerFree then
      some (if s.func = .notStarted then .ok { s with func := .started, owner := .waiting }
        else .error .started)
    else none
  | .threadFunc => if s.func = .started then some (.ok { s with func := .published }) else none
  | .startLoopReturn =>
    if s.owner = .waiting ∧ s.loopSet = true then some (.ok { s with owner := .obtained }) else none
  | .enterLoop =>
    if s.func = .published then
      some (match s.loop.enter s.loop.threadId with
        | .ok l => .ok { s with loop := l, func := .looping }
        | .error fault => .error (.loop fault))
    else none
  | .loop label =>
    if s.allows label then
      match s.loop.step label with
      | some (.ok l) => some (if s.func = .returned then .error .useAfterFree else .ok (s.withLoop label l))
      | some (.error fault) => some (.error (.loop fault))
      | none => none
    else none
  | .clearLoop =>
    if s.func = .looping ∧ s.loop.phase = .outside then some (.ok { s with func := .cleared }) else none
  | .threadFuncReturn => if s.func = .cleared then some (.ok { s with func := .returned }) else none
  | .destroy => if s.ownerFree then some (.ok s.destroy) else none
  | .quit =>
    -- `loop_` is read again
    if s.owner = .closing then
      some (if s.loopSet then .ok { s with loop := s.loop.quitCall s.ownerId, owner := .quitting }
        else .error .noLoop)
    else none
  | .join =>
    if s.owner = .quitting ∧ s.loop.waking s.ownerId = none ∧ s.func = .returned then
      some (.ok { s with owner := .destroyed })
    else none

end EventLoopThread

/-- An `EventLoopThread`, its owner, and any calls of the threads that hold its loop. -/
def eventLoopThread (F : Type) :
    Lib.Machine (EventLoopThread F) (EventLoopThread.Label F) EventLoopThread.Fault where
  init s := ∃ threadId ownerId, threadId ≠ ownerId ∧ s = { loop := { threadId }, ownerId }
  step := EventLoopThread.step

namespace EventLoopThread

variable {F : Type} {s s' : EventLoopThread F} {label : Label F}

/-- What an enabled step that does not abort can do. -/
def Effect (s s' : EventLoopThread F) : Label F → Prop
  | .startLoop => s.func = .notStarted ∧ s' = { s with func := .started, owner := .waiting }
  | .threadFunc => s.func = .started ∧ s' = { s with func := .published }
  | .startLoopReturn => s.owner = .waiting ∧ s' = { s with owner := .obtained }
  | .enterLoop => s.func = .published ∧ s.loop.looping = false ∧
      s' = { s with
        loop := { s.loop with looping := true, quit := false, phase := .head, runner := s.loop.threadId }
        func := .looping }
  | .loop label => (s.allows label = true ∧ s.func ≠ .returned) ∧
      ∃ l, s.loop.step label = some (.ok l) ∧ s' = s.withLoop label l
  | .clearLoop => s.func = .looping ∧ s.loop.phase = .outside ∧ s' = { s with func := .cleared }
  | .threadFuncReturn => s.func = .cleared ∧ s' = { s with func := .returned }
  | .destroy => s' = s.destroy
  | .quit => s.owner = .closing ∧ s' = { s with loop := s.loop.quitCall s.ownerId, owner := .quitting }
  | .join => (s.owner = .quitting ∧ s.loop.waking s.ownerId = none ∧ s.func = .returned) ∧
      s' = { s with owner := .destroyed }

theorem step_effect (h : s.step label = some (.ok s')) : s.Effect s' label := by
  cases label with
  | startLoop =>
    simp only [step, Option.ite_none_right_eq_some, Option.some.injEq] at h
    obtain ⟨_, h⟩ := h
    split at h
    · rename_i fresh
      exact ⟨fresh, (Except.ok.inj h).symm⟩
    · cases h
  | enterLoop =>
    simp only [step, Option.ite_none_right_eq_some, Option.some.injEq] at h
    obtain ⟨published, h⟩ := h
    unfold EventLoop.enter at h
    cases idle : s.loop.looping with
    | true => simp [idle] at h
    | false =>
      rw [if_neg (by simp [idle]), if_neg (by simp)] at h
      exact ⟨published, idle, (Except.ok.inj h).symm⟩
  | loop label =>
    simp only [step, Option.ite_none_right_eq_some] at h
    obtain ⟨allowed, h⟩ := h
    split at h
    · rename_i l step
      split at h
      · cases h
      · rename_i alive
        exact ⟨⟨allowed, alive⟩, l, step, by simpa using h.symm⟩
    · simp at h
    · cases h
  | quit =>
    simp only [step, Option.ite_none_right_eq_some, Option.some.injEq] at h
    obtain ⟨closing, h⟩ := h
    split at h
    · exact ⟨closing, (Except.ok.inj h).symm⟩
    · cases h
  | join =>
    simp only [step, Option.ite_none_right_eq_some, Option.some.injEq, Except.ok.injEq] at h
    exact ⟨h.1, h.2.symm⟩
  | threadFunc | startLoopReturn | clearLoop | threadFuncReturn | destroy =>
    simp only [step, Option.ite_none_right_eq_some, Option.some.injEq, Except.ok.injEq] at h
    simp_all only [Effect, and_self]

/-! ### After `quit()` -/

/-- `threadFunc` has been in `loop()`. -/
def entered (s : EventLoopThread F) : Prop := s.func = .looping ∨ s.func = .cleared ∨ s.func = .returned

instance (s : EventLoopThread F) : Decidable s.entered := inferInstanceAs (Decidable (_ ∨ _ ∨ _))

/-- `quit()` is called only after the entry of `loop()` has cleared `quit_`, by the destructor while `loop_` is
set, and ends before the loop is destroyed. -/
def QuitInTime (s : EventLoopThread F) : Label F → Prop
  | .loop (.quit _) => s.entered ∧ s.func ≠ .returned
  | .loop (.wakeup t) => s.loop.waking t = some .quit → s.func ≠ .returned
  | .quit => s.func = .looping
  | _ => True

instance (s : EventLoopThread F) : (label : Label F) → Decidable (QuitInTime s label)
  | .loop (.quit _) => inferInstanceAs (Decidable (_ ∧ _))
  | .loop (.wakeup _) => inferInstanceAs (Decidable (_ → _))
  | .quit => inferInstanceAs (Decidable (_ = _))
  | .loop (.enter _) | .loop .check | .loop (.pollReturn _) | .loop .handleRead | .loop .doPendingFunctors
  | .loop .runFunctor | .loop .functorsDone | .loop (.queueInLoop ..) | .loop (.runInLoop ..)
  | .startLoop | .threadFunc | .startLoopReturn | .enterLoop | .clearLoop | .threadFuncReturn | .destroy | .join =>
    instDecidableTrue

structure Inv (s : EventLoopThread F) : Prop where
  loop : s.loop.Inv
  other : s.loop.threadId ≠ s.ownerId
  inside : s.loop.phase ≠ .outside → s.func = .looping
  quit : s.loop.quit = true → s.entered
  waking : ∀ t, s.loop.waking t = some .quit → s.loop.quit = true
  returned : s.quitReturned = true → s.loop.quit = true ∧ (s.loop.phase = .poll → 0 < s.loop.wakeupCount)

theorem allows_enter {label : EventLoop.Label F} (allowed : s.allows label = true) :
    label.isEnter = false := by
  cases label with
  | enter => cases allowed
  | _ => rfl

theorem returnsQuit_ready {label : EventLoop.Label F} {l : EventLoop F} (h : s.Inv)
    (step : s.loop.step label = some (.ok l)) (returns : s.returnsQuit label = true) :
    l.quit = true ∧ (l.phase = .poll → 0 < l.wakeupCount) := by
  have effect := EventLoop.step_effect step
  cases label with
  | quit t =>
    have own : t = s.loop.threadId := by simpa [returnsQuit] using returns
    simp only [EventLoop.step, Option.ite_none_right_eq_some, EventLoop.mayCall, if_pos own,
      Bool.or_eq_true, beq_iff_eq] at step
    have called := step.1
    rcases effect with rfl | ⟨_, foreign, _⟩
    · refine ⟨rfl, fun polls => ?_⟩
      have polls : s.loop.phase = .poll := polls
      simp [polls] at called
    · exact absurd own foreign
  | wakeup t =>
    have called : s.loop.waking t = some .quit := by simpa [returnsQuit] using returns
    obtain rfl := effect
    exact ⟨h.waking t called, fun _ => EventLoop.wakeup_count_pos s.loop⟩
  | enter | check | pollReturn | handleRead | doPendingFunctors | runFunctor | functorsDone
  | queueInLoop | runInLoop => cases returns

theorem loop_inv {label : EventLoop.Label F} {l : EventLoop F} (h : s.Inv)
    (allowed : s.allows label = true) (after : QuitInTime s (.loop label))
    (step : s.loop.step label = some (.ok l)) : (s.withLoop label l).Inv := by
  have inside := allows_enter allowed
  refine ⟨EventLoop.step_inv h.loop step, ?_, ?_, ?_, ?_, ?_⟩
  · rw [show (s.withLoop label l).loop.threadId = _ from EventLoop.step_threadId step]
    exact h.other
  · exact fun phase => h.inside (EventLoop.step_inside inside step phase)
  · intro quit
    by_cases call : ∃ t, label = .quit t
    · obtain ⟨t, rfl⟩ := call
      exact after.1
    · exact h.quit ((EventLoop.step_quitting (fun t eq => call ⟨t, eq⟩) step).1 quit)
  · intro t called
    by_cases call : ∃ t, label = .quit t
    · obtain ⟨u, rfl⟩ := call
      rcases EventLoop.step_effect step with rfl | ⟨_, _, rfl⟩ <;> rfl
    · have before := (EventLoop.step_quitting (fun t eq => call ⟨t, eq⟩) step).2 t called
      exact EventLoop.step_quit inside (h.waking t before) step
  · intro returned
    rcases Bool.or_eq_true_iff.mp returned with before | now
    · obtain ⟨quit, ready⟩ := h.returned before
      refine ⟨EventLoop.step_quit inside quit step, fun polls => ?_⟩
      obtain ⟨waits, polling⟩ := EventLoop.step_poll inside quit step polls
      exact Nat.lt_of_lt_of_le (ready polling) (EventLoop.step_wakeupCount waits step)
    · exact returnsQuit_ready h step now

theorem destroy_inv (h : s.Inv) : s.destroy.Inv := by
  unfold destroy
  split
  · exact ⟨h.loop, h.other, h.inside, h.quit, h.waking, h.returned⟩
  · exact ⟨h.loop, h.other, h.inside, h.quit, h.waking, h.returned⟩

theorem quitCall_inv (h : s.Inv) (looping : s.func = .looping) :
    ({ s with loop := s.loop.quitCall s.ownerId, owner := .quitting } : EventLoopThread F).Inv := by
  rw [EventLoop.quitCall_eq]
  have inv := h.loop
  exact ⟨⟨inv.conserved, inv.bounded, inv.drained, inv.looping, inv.handling, inv.calling, inv.runner,
    inv.ranBy⟩, h.other, h.inside, fun _ => .inl looping, fun _ _ => rfl,
    fun returned => ⟨rfl, (h.returned returned).2⟩⟩

theorem Inv.fresh (h : s.Inv) (early : ¬ s.entered) :
    s.loop.quit = false ∧ s.loop.phase = .outside ∧ s.quitReturned = false := by
  have quit : s.loop.quit = false := by
    cases set : s.loop.quit with
    | false => rfl
    | true => exact absurd (h.quit set) early
  refine ⟨quit, ?_, ?_⟩
  · by_contra inside
    exact early (.inl (h.inside inside))
  · cases set : s.quitReturned with
    | false => rfl
    | true => exact absurd (h.returned set).1 (by simp [quit])

theorem step_inv (h : s.Inv) (after : QuitInTime s label) (step : s.step label = some (.ok s')) :
    s'.Inv := by
  have effect := step_effect step
  cases label with
  | startLoop =>
    obtain ⟨func, rfl⟩ := effect
    obtain ⟨quit, outside, _⟩ := h.fresh (by simp [entered, func])
    exact ⟨h.loop, h.other, fun inside => absurd outside inside, fun set => by simp [quit] at set,
      h.waking, h.returned⟩
  | threadFunc =>
    obtain ⟨func, rfl⟩ := effect
    obtain ⟨quit, outside, _⟩ := h.fresh (by simp [entered, func])
    exact ⟨h.loop, h.other, fun inside => absurd outside inside, fun set => by simp [quit] at set,
      h.waking, h.returned⟩
  | startLoopReturn =>
    obtain ⟨_, rfl⟩ := effect
    exact ⟨h.loop, h.other, h.inside, h.quit, h.waking, h.returned⟩
  | enterLoop =>
    obtain ⟨func, idle, rfl⟩ := effect
    obtain ⟨quit, _, notReturned⟩ := h.fresh (by simp [entered, func])
    have enters : s.loop.step (.enter s.loop.threadId) = some (.ok { s.loop with
        looping := true, quit := false, phase := .head, runner := s.loop.threadId }) := by
      simp [EventLoop.step, EventLoop.mayCall, EventLoop.enter, idle, (h.fresh (by simp [entered, func])).2.1]
    refine ⟨EventLoop.step_inv h.loop enters, h.other, fun _ => rfl, fun quit => (by cases quit), ?_, ?_⟩
    · intro t called
      have quits := h.waking t called
      simp [quit] at quits
    · intro returned
      simp [notReturned] at returned
  | loop label =>
    obtain ⟨⟨allowed, _⟩, l, moved, rfl⟩ := effect
    exact loop_inv h allowed after moved
  | clearLoop =>
    obtain ⟨_, outside, rfl⟩ := effect
    exact ⟨h.loop, h.other, fun inside => absurd outside inside, fun _ => .inr (.inl rfl), h.waking, h.returned⟩
  | threadFuncReturn =>
    obtain ⟨func, rfl⟩ := effect
    have outside : s.loop.phase = .outside := by
      by_contra inside
      rw [h.inside inside] at func
      cases func
    exact ⟨h.loop, h.other, fun inside => absurd outside inside, fun _ => .inr (.inr rfl), h.waking, h.returned⟩
  | destroy =>
    obtain rfl := effect
    exact destroy_inv h
  | quit =>
    obtain ⟨_, rfl⟩ := effect
    exact quitCall_inv h after
  | join =>
    obtain ⟨_, rfl⟩ := effect
    exact ⟨h.loop, h.other, h.inside, h.quit, h.waking, h.returned⟩

theorem reachable_inv (h : (eventLoopThread F).Reachable QuitInTime s) : s.Inv := by
  refine h.invariant ?_ fun _ _ _ _ inv after step => step_inv inv after step
  rintro a ⟨threadId, ownerId, other, rfl⟩
  exact ⟨EventLoop.initial_inv threadId, other, by simp, by simp, by simp, by simp⟩

/-- The steps by which `threadFunc` goes on once it is in `loop()`. -/
def Label.own : Label F → Bool
  | loop label => label.control
  | clearLoop | threadFuncReturn => true
  | _ => false

/-- What is left of `threadFunc`. -/
def rank (s : EventLoopThread F) : ℕ ×ₗ (ℕ ×ₗ ℕ) :=
  toLex (match s.func with | .returned => 0 | .cleared => 1 | _ => 2, s.loop.rank)

/-- What a thread that is back from `quit()` can rely on. -/
structure Leaving (s : EventLoopThread F) : Prop where
  /-- A `poll` that the loop is in returns at once. -/
  poll_ready : s.loop.phase = .poll → 0 < s.loop.wakeupCount
  /-- No step goes into `poll`. -/
  no_poll : ∀ label s', s.step label = some (.ok s') → s'.loop.phase = .poll → s.loop.phase = .poll
  /-- `threadFunc` is not blocked, each of its own steps brings it nearer to its end, and no step of
  any thread takes it farther away. -/
  enabled : s.func ≠ .returned → ∃ label s', label.own = true ∧ s.step label = some (.ok s')
  nearer : ∀ label s', s.step label = some (.ok s') →
    s'.rank ≤ s.rank ∧ (label.own = true → s'.rank < s.rank)

theorem destroy_loop (s : EventLoopThread F) : s.destroy.func = s.func ∧ s.destroy.loop = s.loop := by
  unfold destroy
  split
  · exact ⟨rfl, rfl⟩
  · exact ⟨rfl, rfl⟩

theorem quitCall_rank (l : EventLoop F) (t : Tid) : (l.quitCall t).rank = l.rank := by
  rw [EventLoop.quitCall_eq]
  exact EventLoop.rank_congr rfl rfl rfl

/-- With `quit_` set after the entry, `threadFunc` only comes nearer to its end. -/
theorem step_rank (quit : s.loop.quit = true) (entered : s.entered)
    (step : s.step label = some (.ok s')) :
    s'.rank ≤ s.rank ∧ (label.own = true → s'.rank < s.rank) := by
  have effect := step_effect step
  cases label with
  | startLoop =>
    obtain ⟨func, _⟩ := effect
    rcases entered with func' | func' | func' <;> simp [func] at func'
  | threadFunc =>
    obtain ⟨func, _⟩ := effect
    rcases entered with func' | func' | func' <;> simp [func] at func'
  | enterLoop =>
    obtain ⟨func, _⟩ := effect
    rcases entered with func' | func' | func' <;> simp [func] at func'
  | startLoopReturn =>
    obtain ⟨_, rfl⟩ := effect
    exact ⟨le_refl _, fun own => by cases own⟩
  | join =>
    obtain ⟨_, rfl⟩ := effect
    exact ⟨le_refl _, fun own => by cases own⟩
  | loop label =>
    obtain ⟨⟨allowed, _⟩, l, moved, rfl⟩ := effect
    obtain ⟨shorter, same⟩ := EventLoop.step_rank (allows_enter allowed) quit moved
    have less : l.rank < s.loop.rank → (s.withLoop label l).rank < s.rank := fun less =>
      Prod.Lex.toLex_lt_toLex.mpr (.inr ⟨rfl, less⟩)
    refine ⟨?_, fun own => less (shorter own)⟩
    cases kind : label.control with
    | true => exact le_of_lt (less (shorter kind))
    | false => exact Prod.Lex.toLex_le_toLex.mpr (.inr ⟨rfl, le_of_eq (same kind)⟩)
  | clearLoop =>
    obtain ⟨func, _, rfl⟩ := effect
    have less : ({ s with func := .cleared } : EventLoopThread F).rank < s.rank :=
      Prod.Lex.toLex_lt_toLex.mpr (.inl (by simp [func]))
    exact ⟨le_of_lt less, fun _ => less⟩
  | threadFuncReturn =>
    obtain ⟨func, rfl⟩ := effect
    have less : ({ s with func := .returned } : EventLoopThread F).rank < s.rank :=
      Prod.Lex.toLex_lt_toLex.mpr (.inl (by simp [func]))
    exact ⟨le_of_lt less, fun _ => less⟩
  | destroy =>
    obtain rfl := effect
    obtain ⟨func, loop⟩ := destroy_loop s
    refine ⟨le_of_eq ?_, fun own => by cases own⟩
    rw [EventLoopThread.rank, func, loop, EventLoopThread.rank]
  | quit =>
    obtain ⟨_, rfl⟩ := effect
    refine ⟨le_of_eq ?_, fun own => by cases own⟩
    simp only [EventLoopThread.rank, quitCall_rank]

theorem step_poll (quit : s.loop.quit = true) (step : s.step label = some (.ok s'))
    (polls : s'.loop.phase = .poll) : s.loop.phase = .poll := by
  have effect := step_effect step
  cases label with
  | startLoop => obtain ⟨_, rfl⟩ := effect; exact polls
  | threadFunc => obtain ⟨_, rfl⟩ := effect; exact polls
  | startLoopReturn => obtain ⟨_, rfl⟩ := effect; exact polls
  | enterLoop =>
    obtain ⟨_, _, rfl⟩ := effect
    cases polls
  | loop label =>
    obtain ⟨⟨allowed, _⟩, l, moved, rfl⟩ := effect
    exact (EventLoop.step_poll (allows_enter allowed) quit moved polls).2
  | clearLoop => obtain ⟨_, _, rfl⟩ := effect; exact polls
  | threadFuncReturn => obtain ⟨_, rfl⟩ := effect; exact polls
  | destroy =>
    obtain rfl := effect
    rwa [(destroy_loop s).2] at polls
  | quit =>
    obtain ⟨_, rfl⟩ := effect
    rwa [EventLoop.quitCall_eq] at polls
  | join => obtain ⟨_, rfl⟩ := effect; exact polls

theorem own_enabled (entered : s.entered) (ready : s.loop.phase = .poll → 0 < s.loop.wakeupCount)
    (more : s.func ≠ .returned) : ∃ label s', label.own = true ∧ s.step label = some (.ok s') := by
  rcases entered with func | func | func
  · by_cases outside : s.loop.phase = .outside
    · exact ⟨.clearLoop, _, rfl, by rw [step, if_pos ⟨func, outside⟩]⟩
    · obtain ⟨label, l, control, moved⟩ := EventLoop.control_enabled outside ready
      have allowed : s.allows label = true := by
        cases label with
        | enter | queueInLoop | runInLoop | quit => cases control
        | _ => rfl
      refine ⟨.loop label, s.withLoop label l, control, ?_⟩
      rw [step, if_pos allowed, moved]
      simp only [if_neg more]
  · exact ⟨.threadFuncReturn, _, rfl, by rw [step, if_pos func]⟩
  · exact absurd func more

theorem leaving (h : s.Inv) (returned : s.quitReturned = true) : s.Leaving := by
  obtain ⟨quit, ready⟩ := h.returned returned
  have entered := h.quit quit
  exact ⟨ready, fun _ _ step polls => step_poll quit step polls,
    own_enabled entered ready, fun _ _ step => step_rank quit entered step⟩

theorem step_iterations (quit : s.loop.quit = true) (entered : s.entered)
    (step : s.step label = some (.ok s')) : s'.loop.iterations ≤ s.loop.iterations := by
  have effect := step_effect step
  cases label with
  | startLoop => obtain ⟨_, rfl⟩ := effect; exact Nat.le_refl _
  | threadFunc => obtain ⟨_, rfl⟩ := effect; exact Nat.le_refl _
  | startLoopReturn => obtain ⟨_, rfl⟩ := effect; exact Nat.le_refl _
  | enterLoop =>
    obtain ⟨func, _⟩ := effect
    rcases entered with func' | func' | func' <;> simp [func] at func'
  | loop label =>
    obtain ⟨⟨allowed, _⟩, l, moved, rfl⟩ := effect
    exact EventLoop.step_iterations (allows_enter allowed) quit moved
  | clearLoop => obtain ⟨_, _, rfl⟩ := effect; exact Nat.le_refl _
  | threadFuncReturn => obtain ⟨_, rfl⟩ := effect; exact Nat.le_refl _
  | destroy =>
    obtain rfl := effect
    rw [(destroy_loop s).2]
  | quit =>
    obtain ⟨_, rfl⟩ := effect
    rw [EventLoop.quitCall_eq]
    exact Nat.le_refl _
  | join => obtain ⟨_, rfl⟩ := effect; exact Nat.le_refl _

theorem step_quitReturned (returned : s.quitReturned = true) (step : s.step label = some (.ok s')) :
    s'.quitReturned = true := by
  have effect := step_effect step
  cases label with
  | startLoop | threadFunc | startLoopReturn | threadFuncReturn | quit | join =>
    obtain ⟨_, rfl⟩ := effect
    exact returned
  | enterLoop | clearLoop => obtain ⟨_, _, rfl⟩ := effect; exact returned
  | loop label =>
    obtain ⟨_, l, _, rfl⟩ := effect
    simp [withLoop, returned]
  | destroy =>
    obtain rfl := effect
    unfold destroy
    split <;> exact returned

theorem own_owner (own : label.own = true) (step : s.step label = some (.ok s')) :
    s'.owner = s.owner ∧ s'.ownerId = s.ownerId ∧ s'.loop.waking = s.loop.waking := by
  have effect := step_effect step
  cases label with
  | startLoop | threadFunc | startLoopReturn | enterLoop | destroy | quit | join => cases own
  | clearLoop => obtain ⟨_, _, rfl⟩ := effect; exact ⟨rfl, rfl, rfl⟩
  | threadFuncReturn => obtain ⟨_, rfl⟩ := effect; exact ⟨rfl, rfl, rfl⟩
  | loop label =>
    obtain ⟨_, l, moved, rfl⟩ := effect
    exact ⟨rfl, rfl, EventLoop.control_waking own moved⟩

theorem own_after (own : label.own = true) : QuitInTime s label := by
  cases label with
  | quit => cases own
  | loop label =>
    cases label with
    | quit | wakeup => cases own
    | _ => trivial
  | _ => trivial

/-- The steps of `threadFunc` alone. -/
def onlyOwn : EventLoopThread F → Label F → Prop := fun _ label => label.own = true

/-- By its own steps alone `threadFunc` comes to its end. -/
theorem own_steps_return (h : (eventLoopThread F).Reachable QuitInTime s)
    (returned : s.quitReturned = true) :
    ∃ s', (eventLoopThread F).Steps onlyOwn s s' ∧ s'.func = .returned ∧ s'.owner = s.owner ∧
      s'.ownerId = s.ownerId ∧ s'.loop.waking = s.loop.waking := by
  -- each own step lowers the rank
  induction below : s.rank using WellFoundedLT.induction generalizing s with
  | ind r ih =>
    by_cases done : s.func = .returned
    · exact ⟨s, .refl, done, rfl, rfl, rfl⟩
    · have now := leaving (reachable_inv h) returned
      obtain ⟨label, next, own, step⟩ := now.enabled done
      have lower := (now.nearer label next step).2 own
      obtain ⟨last, steps, end_, owner, ownerId, waking⟩ :=
        ih next.rank (below ▸ lower) (h.next (own_after own) step) (step_quitReturned returned step) rfl
      obtain ⟨sameOwner, sameId, sameWaking⟩ := own_owner own step
      exact ⟨last, .head ⟨label, own, step⟩ steps, end_, owner.trans sameOwner, ownerId.trans sameId,
        waking.trans sameWaking⟩

/-- The step is one of a call of `quit()`. -/
def quits (s : EventLoopThread F) : Label F → Bool
  | .loop (.quit _) | .quit => true
  | .loop (.wakeup t) => s.loop.waking t == some .quit
  | _ => false

theorem quit_safe {fault : Fault} (quits : s.quits label = true) (allowed : QuitInTime s label) :
    s.step label ≠ some (.error fault) := by
  intro failed
  cases label with
  | quit =>
    obtain ⟨_, failed⟩ := Option.ite_none_right_eq_some.mp failed
    have looping : s.func = .looping := allowed
    simp [loopSet, looping] at failed
  | loop label =>
    have alive : s.func ≠ .returned := by
      cases label with
      | quit => exact allowed.2
      | wakeup t => exact allowed (beq_iff_eq.mp quits)
      | _ => cases quits
    obtain ⟨_, failed⟩ := Option.ite_none_right_eq_some.mp failed
    split at failed
    · rw [if_neg alive] at failed
      cases failed
    · rename_i faulted
      cases label with
      | quit t =>
        obtain ⟨_, faulted⟩ := Option.ite_none_right_eq_some.mp faulted
        cases faulted
      | wakeup t =>
        obtain ⟨_, faulted⟩ := Option.ite_none_right_eq_some.mp faulted
        cases faulted
      | _ => cases quits
    · cases failed
  | _ => cases quits

/-- When every `quit()` comes after the entry of `loop()` has cleared `quit_` and ends before the loop is
destroyed, then none of them uses a loop that is not there; and once one has returned, now and in every later
state, `loop()` does not block and comes to its end without a further iteration, and `join` in the destructor can
complete. -/
theorem quit_not_lost (h : (eventLoopThread F).Reachable QuitInTime s) :
    (∀ label fault, s.quits label = true → QuitInTime s label → s.step label ≠ some (.error fault)) ∧
    (s.quitReturned = true →
      (∀ s', (eventLoopThread F).Steps QuitInTime s s' →
        s'.Leaving ∧ s'.loop.iterations ≤ s.loop.iterations) ∧
      ∃ s', (eventLoopThread F).Steps onlyOwn s s' ∧ s'.func = .returned ∧
        (s.owner = .quitting → s.loop.waking s.ownerId = none →
          s'.step .join = some (.ok { s' with owner := .destroyed }))) := by
  refine ⟨fun label fault quits allowed => quit_safe quits allowed, fun returned => ⟨fun s' steps => ?_, ?_⟩⟩
  · have kept : s'.quitReturned = true ∧ s'.loop.iterations ≤ s.loop.iterations := by
      refine steps.invariant (P := fun a => a.quitReturned = true ∧ a.loop.iterations ≤ s.loop.iterations) h
        ⟨returned, Nat.le_refl _⟩ ?_
      intro a label b reached before _ step
      have inv := reachable_inv reached
      have quit := (inv.returned before.1).1
      exact ⟨step_quitReturned before.1 step,
        Nat.le_trans (step_iterations quit (inv.quit quit) step) before.2⟩
    exact ⟨leaving (reachable_inv (h.steps steps)) kept.1, kept.2⟩
  · obtain ⟨last, steps, func, owner, ownerId, waking⟩ := own_steps_return h returned
    refine ⟨last, steps, func, fun quitting free => ?_⟩
    rw [step, if_pos ⟨owner.trans quitting, by rw [waking, ownerId]; exact free, func⟩]

/-- The destructor's `quit()` finds the loop in `poll`. -/
theorem quit_not_lost_destructor :
    ∃ s, (eventLoopThread Nat).Reachable QuitInTime s ∧ s.quitReturned = true ∧
      s.owner = .quitting ∧ s.loop.phase = .poll ∧ s.Leaving ∧
      ∃ s', (eventLoopThread Nat).Steps onlyOwn s s' ∧
        s'.step .join = some (.ok { s' with owner := .destroyed }) := by
  obtain ⟨s, reached, returned, quitting, polls, free⟩ := Lib.Machine.exec_reaches (eventLoopThread Nat)
    QuitInTime { loop := { threadId := 1 }, ownerId := 2 }
    [.startLoop, .threadFunc, .startLoopReturn, .enterLoop, .loop .check, .destroy, .quit, .loop (.wakeup 2)]
    (fun s => s.quitReturned = true ∧ s.owner = .quitting ∧ s.loop.phase = .poll ∧
      s.loop.waking s.ownerId = none) ⟨1, 2, by decide, rfl⟩ (by decide)
  obtain ⟨later, last, steps, _, joins⟩ := (quit_not_lost reached).2 returned
  exact ⟨s, reached, returned, quitting, polls, (later s .refl).1, last, steps, joins quitting free⟩

/-- `startLoop` has returned and the object is destroyed before `loop()` is entered: the entry clears
`quit_`, the wake-up is spent on the first iteration, and nothing ends the second `poll`. -/
theorem quit_lost_before_entry :
    ¬ ∀ s, (eventLoopThread Nat).Reachable Lib.Machine.anyStep s → s.quitReturned = true →
      (s.loop.phase = .poll → 0 < s.loop.wakeupCount) := by
  intro claim
  obtain ⟨s, reached, returned, polls, blocked⟩ := Lib.Machine.exec_reaches (eventLoopThread Nat)
    Lib.Machine.anyStep { loop := { threadId := 1 }, ownerId := 2 }
    [.startLoop, .threadFunc, .startLoopReturn, .destroy, .quit, .loop (.wakeup 2), .enterLoop, .loop .check,
      .loop (.pollReturn true), .loop .handleRead, .loop .doPendingFunctors, .loop .functorsDone,
      .loop .check]
    (fun s => s.quitReturned = true ∧ s.loop.phase = .poll ∧ s.loop.wakeupCount = 0)
    ⟨1, 2, by decide, rfl⟩ (by decide)
  have ready := claim s reached returned polls
  omega

/-- The step uses a loop that is destroyed. -/
def usesFreed (s : EventLoopThread Nat) (label : Label Nat) : Bool :=
  match s.step label with
  | some (.error .useAfterFree) => true
  | _ => false

/-- The loop leaves by another event between the two parts of the destructor's `quit()`, which then wakes up a
loop that is destroyed. -/
example : ((eventLoopThread Nat).exec Lib.Machine.anyStep { loop := { threadId := 1 }, ownerId := 2 }
    [.startLoop, .threadFunc, .startLoopReturn, .enterLoop, .loop .check, .loop (.pollReturn false), .destroy, .quit,
      .loop .doPendingFunctors, .loop .functorsDone, .loop .check, .clearLoop, .threadFuncReturn]).any
    (fun s => s.usesFreed (.loop (.wakeup 2))) = true := by decide

end EventLoopThread

end Dserver.Net
