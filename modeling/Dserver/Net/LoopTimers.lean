import Dserver.Net.EventLoop
import Dserver.Net.TimerEffect

/-!
# Timers of a loop, used by any thread

`runAt`, `runAfter`, `runEvery` and `cancel` come from any thread and reach the `TimerQueue` through
`runInLoop`. A call of `addTimer` takes three steps: the `new`, the `runInLoop` and the read of
`sequence()` for the id it returns, with steps of other threads between them.
-/

namespace Dserver.Net

namespace LoopTimers

inductive Functor where
  | addTimerInLoop (timer : Addr)
  | cancelInLoop (timerId : TimerQueue.ActiveTimer)
  -- bound by someone else; the calls it makes are steps of their own
  | other
  deriving DecidableEq

inductive Request where
  | runAt (time : Timestamp)
  | runAfter (delay : Seconds)
  | runEvery (interval : Seconds)

namespace Request

def when (clock : Timestamp) : Request → Timestamp
  | .runAt time => time
  | .runAfter delay => addTime clock delay
  | .runEvery interval => addTime clock interval

theorem zero_nonneg : false = true → (0 : Int) ≤ 0 := fun _ => Int.le_refl 0

def interval : Request → Seconds
  | .runAt _ | .runAfter _ => ⟨false, 0, zero_nonneg⟩
  | .runEvery interval => interval

end Request

/-- A thread inside `addTimer`. -/
structure Adding where
  timer : Addr
  -- it has called `runInLoop`
  posted : Bool
  -- history: the timer it has made
  created : Nat
  repeat_ : Bool

/-- What ends the process, or reads a timer that does not exist. -/
inductive Fault where
  | loop (fault : EventLoop.Fault)
  | timers (fault : TimerQueue.Fault)
  deriving DecidableEq, Repr

end LoopTimers

structure LoopTimers where
  loop : EventLoop LoopTimers.Functor
  timers : TimerQueue
  adding : Tid → Option LoopTimers.Adding := fun _ => none
  -- history: the ids that `addTimer` has returned
  returned : List TimerQueue.ActiveTimer := []

namespace LoopTimers

def onTimers (s : LoopTimers) (result : Except TimerQueue.Fault TimerQueue) : Except Fault LoopTimers :=
  match result with
  | .ok timers => .ok { s with timers }
  | .error fault => .error (.timers fault)

def onLoop (s : LoopTimers) (result : Except EventLoop.Fault (EventLoop Functor)) : Except Fault LoopTimers :=
  match result with
  | .ok loop => .ok { s with loop }
  | .error fault => .error (.loop fault)

def assertInLoopThread (s : LoopTimers) (t : Tid) : Except Fault Unit :=
  if t = s.loop.threadId then .ok () else .error (.loop .abortNotInLoopThread)

def call (s : LoopTimers) (t : Tid) : Functor → Except Fault LoopTimers
  | .addTimerInLoop timer => do
    s.assertInLoopThread t
    s.onTimers (s.timers.addTimerInLoop timer)
  | .cancelInLoop timerId => do
    s.assertInLoopThread t
    s.onTimers (s.timers.cancelInLoop timerId)
  | .other => .ok s

def runInLoop (s : LoopTimers) (t : Tid) (cb : Functor) : Except Fault LoopTimers :=
  if t = s.loop.threadId then s.call t cb else .ok { s with loop := s.loop.queueInLoop t cb }

/-- The end of `addTimer`. -/
def returnId (s : LoopTimers) (t : Tid) (timer : Addr) : Except Fault LoopTimers :=
  match s.timers.deref timer with
  | .ok made =>
    .ok { s with adding := Function.update s.adding t none, returned := s.returned ++ [(timer, made.sequence)] }
  | .error fault => .error (.timers fault)

inductive Label where
  -- steps of the loop, of threads that call `quit`, and the `wakeup` of any call
  | loop (label : EventLoop.Label Functor)
  -- time passes, and `TimerQueue::handleRead` is run
  | timers (label : TimerQueue.Label)
  | newTimer (t : Tid) (timer : Addr) (request : Request)
  | post (t : Tid)
  | sequence (t : Tid)
  | cancel (t : Tid) (timerId : TimerQueue.ActiveTimer)
  | queueInLoop (t : Tid)
  | runFunctor

/-- The loop's own thread does not go on while it is in `addTimer`, or in a batch of callbacks. -/
def mayLoop (s : LoopTimers) : EventLoop.Label Functor → Bool
  | .wakeup _ => true
  | .quit t => (s.adding t).isNone
  | label => label.plain && (s.adding s.loop.threadId).isNone && s.timers.batch.isNone

def mayTimers (s : LoopTimers) : TimerQueue.Label → Bool
  | .tick _ => true
  | .handleRead _ => s.loop.phase == .handle && (s.adding s.loop.threadId).isNone
  | .run | .finish => (s.adding s.loop.threadId).isNone
  | _ => false

def mayCall (s : LoopTimers) (t : Tid) : Bool := s.loop.mayCall t && (s.adding t).isNone

def step (s : LoopTimers) : Label → Option (Except Fault LoopTimers)
  | .loop label => if s.mayLoop label then (s.loop.step label).map s.onLoop else none
  | .timers label => if s.mayTimers label then (s.timers.step label).map s.onTimers else none
  | .newTimer t timer request =>
    if s.mayCall t then
      let made :=
        { timer, posted := false, created := s.timers.numCreated + 1, repeat_ := request.interval.positive }
      (s.timers.step (.newTimer timer (request.when s.timers.clock) request.interval)).map
        { s with adding := Function.update s.adding t (some made) }.onTimers
    else none
  | .post t =>
    match s.adding t with
    | some made =>
      if made.posted then none
      else
        let s := { s with adding := Function.update s.adding t (some { made with posted := true }) }
        some (s.runInLoop t (.addTimerInLoop made.timer))
    | none => none
  | .sequence t =>
    match s.adding t with
    | some made => if made.posted && (s.loop.waking t).isNone then some (s.returnId t made.timer) else none
    | none => none
  | .cancel t timerId => if s.mayCall t then some (s.runInLoop t (.cancelInLoop timerId)) else none
  | .queueInLoop t =>
    if s.mayCall t then some (.ok { s with loop := s.loop.queueInLoop t .other }) else none
  | .runFunctor =>
    match s.loop.phase, s.loop.queue.batch with
    | .functors, cb :: rest =>
      if (s.adding s.loop.threadId).isNone then
        some ({ s with loop := s.loop.runFunctor cb rest }.call s.loop.runner cb)
      else none
    | _, _ => none

end LoopTimers

/-- A loop and its timers under any calls of any threads. -/
def loopTimers : Lib.Machine LoopTimers LoopTimers.Label LoopTimers.Fault where
  init s := ∃ loop timers, (eventLoop LoopTimers.Functor).init loop ∧ timerQueue.init timers ∧ s = { loop, timers }
  step := LoopTimers.step

namespace TimerQueue

variable {s s' : TimerQueue} {label : Label}

def Label.waitingAfter (waiting : Finset Addr) : Label → Finset Addr
  | .newTimer timer _ _ => Insert.insert timer waiting
  | .addTimerInLoop timer => waiting.erase timer
  | _ => waiting

theorem effect_waiting (effect : s.Effect s' label) : s'.waiting = label.waitingAfter s.waiting := by
  cases effect with
  | tick _ eq | created _ _ _ _ _ eq | canceled _ _ _ _ _ eq | noted _ _ eq | taken _ _ eq | ran _ _ _ _ _ eq =>
    exact eq ▸ rfl
  | handed timer t _ _ eq =>
    subst eq
    unfold handedOver
    split <;> rfl
  | finished b _ _ _ _ eq =>
    subst eq
    show (rearmed (s.settled b)).waiting = s.waiting
    rw [rearmed_frame, settled_frame]

theorem effect_batch (effect : s.Effect s' label) (some : s'.batch ≠ none) :
    s.batch ≠ none ∨ ∃ elapsed, label = .handleRead elapsed := by
  cases effect with
  | tick _ eq | created _ _ _ _ _ eq | canceled _ _ _ _ _ eq | noted _ _ eq =>
    subst eq
    exact .inl some
  | handed timer t _ _ eq =>
    rw [eq, (handedOver_fields s timer t).2] at some
    exact .inl some
  | taken elapsed _ _ => exact .inr ⟨elapsed, rfl⟩
  | ran b _ _ batch _ _ => exact .inl (by simp [batch])
  | finished b _ _ _ _ eq => exact absurd (congrArg TimerQueue.batch eq) some

theorem step_effect_ok (inv : s.Inv) (step : s.step label = some (.ok s')) : s.Effect s' label := by
  obtain ⟨_, ran, effect⟩ := step_effect inv step
  obtain rfl := Except.ok.inj ran
  exact effect

end TimerQueue

namespace LoopTimers

variable {s s' : LoopTimers} {label : Label} {timer : Addr} {timerId : TimerQueue.ActiveTimer} {t : Tid}

/-! ### What a step does -/

inductive Effect (s s' : LoopTimers) : Label → Prop where
  | loop (label : EventLoop.Label Functor) (loop : EventLoop Functor) (may : s.mayLoop label = true)
      (step : s.loop.step label = some (.ok loop)) (eq : s' = { s with loop }) : Effect s s' (.loop label)
  | timers (label : TimerQueue.Label) (timers : TimerQueue) (may : s.mayTimers label = true)
      (step : s.timers.step label = some (.ok timers)) (eq : s' = { s with timers }) : Effect s s' (.timers label)
  | created (t : Tid) (timer : Addr) (request : Request) (timers : TimerQueue) (made : Adding)
      (free : s.adding t = none)
      (step : s.timers.step (.newTimer timer (request.when s.timers.clock) request.interval) = some (.ok timers))
      (value : made = ⟨timer, false, s.timers.numCreated + 1, request.interval.positive⟩)
      (eq : s' = { s with timers, adding := Function.update s.adding t (some made) }) :
      Effect s s' (.newTimer t timer request)
  | postedHere (t : Tid) (made : Adding) (timers : TimerQueue) (own : t = s.loop.threadId)
      (adding : s.adding t = some made) (fresh : made.posted = false)
      (ran : s.timers.addTimerInLoop made.timer = .ok timers)
      (eq : s' = { s with timers, adding := Function.update s.adding t (some { made with posted := true }) }) :
      Effect s s' (.post t)
  | postedThere (t : Tid) (made : Adding) (other : t ≠ s.loop.threadId)
      (adding : s.adding t = some made) (fresh : made.posted = false)
      (eq : s' = { s with
        loop := s.loop.queueInLoop t (.addTimerInLoop made.timer)
        adding := Function.update s.adding t (some { made with posted := true }) }) :
      Effect s s' (.post t)
  | returned (t : Tid) (made : Adding) (timer : Timer) (adding : s.adding t = some made)
      (posted : made.posted = true) (live : s.timers.heap made.timer = some timer)
      (eq : s' = { s with
        adding := Function.update s.adding t none, returned := s.returned ++ [(made.timer, timer.sequence)] }) :
      Effect s s' (.sequence t)
  | canceledHere (t : Tid) (timerId : TimerQueue.ActiveTimer) (timers : TimerQueue) (own : t = s.loop.threadId)
      (ran : s.timers.cancelInLoop timerId = .ok timers) (eq : s' = { s with timers }) :
      Effect s s' (.cancel t timerId)
  | canceledThere (t : Tid) (timerId : TimerQueue.ActiveTimer) (other : t ≠ s.loop.threadId)
      (eq : s' = { s with loop := s.loop.queueInLoop t (.cancelInLoop timerId) }) :
      Effect s s' (.cancel t timerId)
  | queued (t : Tid) (eq : s' = { s with loop := s.loop.queueInLoop t .other }) : Effect s s' (.queueInLoop t)
  | ranAdd (timer : Addr) (rest : List Functor) (timers : TimerQueue) (phase : s.loop.phase = .functors)
      (head : s.loop.queue.batch = .addTimerInLoop timer :: rest) (idle : s.adding s.loop.threadId = none)
      (ran : s.timers.addTimerInLoop timer = .ok timers)
      (eq : s' = { s with loop := s.loop.runFunctor (.addTimerInLoop timer) rest, timers }) : Effect s s' .runFunctor
  | ranCancel (timerId : TimerQueue.ActiveTimer) (rest : List Functor) (timers : TimerQueue)
      (phase : s.loop.phase = .functors) (head : s.loop.queue.batch = .cancelInLoop timerId :: rest)
      (idle : s.adding s.loop.threadId = none) (ran : s.timers.cancelInLoop timerId = .ok timers)
      (eq : s' = { s with loop := s.loop.runFunctor (.cancelInLoop timerId) rest, timers }) :
      Effect s s' .runFunctor
  | ranOther (rest : List Functor) (phase : s.loop.phase = .functors) (head : s.loop.queue.batch = .other :: rest)
      (eq : s' = { s with loop := s.loop.runFunctor .other rest }) : Effect s s' .runFunctor

theorem onTimers_ok {result : Except TimerQueue.Fault TimerQueue} (h : s.onTimers result = .ok s') :
    ∃ timers, result = .ok timers ∧ s' = { s with timers } := by
  cases result with
  | ok timers => exact ⟨timers, rfl, (Except.ok.inj h).symm⟩
  | error fault => cases h

theorem onLoop_ok {result : Except EventLoop.Fault (EventLoop Functor)} (h : s.onLoop result = .ok s') :
    ∃ loop, result = .ok loop ∧ s' = { s with loop } := by
  cases result with
  | ok loop => exact ⟨loop, rfl, (Except.ok.inj h).symm⟩
  | error fault => cases h

theorem call_timers {result : Except TimerQueue.Fault TimerQueue}
    (h : (s.assertInLoopThread t >>= fun _ => s.onTimers result) = .ok s') :
    ∃ timers, result = .ok timers ∧ s' = { s with timers } := by
  obtain ⟨_, _, ran⟩ := Lib.bind_ok h
  exact onTimers_ok ran

theorem step_effect (step : s.step label = some (.ok s')) : s.Effect s' label := by
  cases label with
  | loop label =>
    simp only [LoopTimers.step, Option.ite_none_right_eq_some, Option.map_eq_some_iff] at step
    obtain ⟨may, result, stepped, ran⟩ := step
    obtain ⟨loop, rfl, eq⟩ := onLoop_ok ran
    exact .loop label loop may stepped eq
  | timers label =>
    simp only [LoopTimers.step, Option.ite_none_right_eq_some, Option.map_eq_some_iff] at step
    obtain ⟨may, result, stepped, ran⟩ := step
    obtain ⟨timers, rfl, eq⟩ := onTimers_ok ran
    exact .timers label timers may stepped eq
  | newTimer t timer request =>
    simp only [LoopTimers.step, Option.ite_none_right_eq_some, Option.map_eq_some_iff] at step
    obtain ⟨may, result, stepped, ran⟩ := step
    obtain ⟨timers, rfl, eq⟩ := onTimers_ok ran
    simp only [mayCall, Bool.and_eq_true, Option.isNone_iff_eq_none] at may
    exact .created t timer request timers _ may.2 stepped rfl eq
  | post t =>
    simp only [LoopTimers.step] at step
    split at step
    · rename_i made adding
      split at step
      · cases step
      · rename_i fresh
        replace step := Option.some.inj step
        unfold runInLoop at step
        split at step
        · rename_i own
          obtain ⟨timers, ran, eq⟩ := call_timers step
          exact .postedHere t made timers own adding (by simpa using fresh) ran eq
        · rename_i other
          exact .postedThere t made other adding (by simpa using fresh) (Except.ok.inj step).symm
    · cases step
  | sequence t =>
    simp only [LoopTimers.step] at step
    split at step
    · rename_i made adding
      simp only [Option.ite_none_right_eq_some, Bool.and_eq_true, Option.some.injEq] at step
      obtain ⟨⟨posted, _⟩, ran⟩ := step
      unfold returnId TimerQueue.deref at ran
      cases live : s.timers.heap made.timer with
      | some timer =>
        rw [live] at ran
        exact .returned t made timer adding posted live (Except.ok.inj ran).symm
      | none =>
        rw [live] at ran
        cases ran
    · cases step
  | cancel t timerId =>
    simp only [LoopTimers.step, Option.ite_none_right_eq_some, Option.some.injEq] at step
    obtain ⟨_, step⟩ := step
    unfold runInLoop at step
    split at step
    · rename_i own
      obtain ⟨timers, ran, eq⟩ := call_timers step
      exact .canceledHere t timerId timers own ran eq
    · rename_i other
      exact .canceledThere t timerId other (Except.ok.inj step).symm
  | queueInLoop t =>
    simp only [LoopTimers.step, Option.ite_none_right_eq_some, Option.some.injEq, Except.ok.injEq] at step
    exact .queued t step.2.symm
  | runFunctor =>
    simp only [LoopTimers.step] at step
    split at step
    · rename_i cb rest phase head
      simp only [Option.ite_none_right_eq_some, Option.isNone_iff_eq_none, Option.some.injEq] at step
      obtain ⟨idle, ran⟩ := step
      cases cb with
      | addTimerInLoop timer =>
        obtain ⟨timers, ran, eq⟩ := call_timers ran
        exact .ranAdd timer rest timers phase head idle ran eq
      | cancelInLoop timerId =>
        obtain ⟨timers, ran, eq⟩ := call_timers ran
        exact .ranCancel timerId rest timers phase head idle ran eq
      | other => exact .ranOther rest phase head (Except.ok.inj ran).symm
    · cases step

/-! ### Where a timer is until it is handed over -/

def Functor.added : Functor → Option Addr
  | .addTimerInLoop timer => some timer
  | _ => none

theorem mem_added {queue : List Functor} : timer ∈ queue.filterMap Functor.added ↔ .addTimerInLoop timer ∈ queue := by
  rw [List.mem_filterMap]
  constructor
  · rintro ⟨cb, member, eq⟩
    cases cb with
    | addTimerInLoop other => exact Option.some.inj eq ▸ member
    | cancelInLoop | other => cases eq
  · exact fun member => ⟨_, member, rfl⟩

/-- The timer that the thread has made and not passed to `runInLoop`. -/
def unposted (s : LoopTimers) (t : Tid) : Option Addr :=
  match s.adding t with
  | some made => if made.posted then none else some made.timer
  | none => none

/-- A timer that waits to be handed over is with one thread, or in one functor. -/
structure Placed (queue : List Functor) (holds : Tid → Option Addr) (waiting : Finset Addr) : Prop where
  nodup : (queue.filterMap Functor.added).Nodup
  queued : ∀ timer, .addTimerInLoop timer ∈ queue → timer ∈ waiting ∧ ∀ t, holds t ≠ some timer
  held : ∀ t timer, holds t = some timer → timer ∈ waiting ∧ ∀ u, holds u = some timer → u = t
  somewhere : ∀ timer ∈ waiting, .addTimerInLoop timer ∈ queue ∨ ∃ t, holds t = some timer

section Placed

variable {queue rest : List Functor} {holds : Tid → Option Addr} {waiting : Finset Addr} {cb : Functor}

theorem Placed.create (h : Placed queue holds waiting) (free : holds t = none) (fresh : timer ∉ waiting) :
    Placed queue (Function.update holds t (some timer)) (insert timer waiting : Finset Addr) := by
  refine ⟨h.nodup, fun other member => ?_, fun u other eq => ?_, fun other member => ?_⟩
  · obtain ⟨inside, apart⟩ := h.queued other member
    refine ⟨Finset.mem_insert_of_mem inside, fun u => ?_⟩
    by_cases same : u = t
    · rw [same, Function.update_self]
      rintro ⟨⟩
      exact fresh inside
    · rw [Function.update_of_ne same]
      exact apart u
  · by_cases same : u = t
    · rw [same, Function.update_self] at eq
      obtain rfl := Option.some.inj eq
      refine ⟨Finset.mem_insert_self _ _, fun v eq => ?_⟩
      by_contra different
      rw [same] at different
      rw [Function.update_of_ne different] at eq
      exact fresh (h.held v timer eq).1
    · rw [Function.update_of_ne same] at eq
      obtain ⟨inside, one⟩ := h.held u other eq
      refine ⟨Finset.mem_insert_of_mem inside, fun v eq => ?_⟩
      by_cases at_t : v = t
      · rw [at_t, Function.update_self] at eq
        obtain rfl := Option.some.inj eq
        exact absurd inside fresh
      · rw [Function.update_of_ne at_t] at eq
        exact one v eq
  · rcases Finset.mem_insert.mp member with rfl | old
    · exact .inr ⟨t, Function.update_self ..⟩
    · refine (h.somewhere other old).imp_right fun ⟨u, eq⟩ => ⟨u, ?_⟩
      have different : u ≠ t := by
        rintro rfl
        rw [free] at eq
        cases eq
      rw [Function.update_of_ne different]
      exact eq

theorem held_posted (holds : Tid → Option Addr) (t : Tid) (other : Addr) (u : Tid) :
    Function.update holds t none u = some other ↔ holds u = some other ∧ u ≠ t := by
  by_cases same : u = t
  · simp [same]
  · rw [Function.update_of_ne same]
    simp [same]

theorem Placed.post (h : Placed queue holds waiting) (mine : holds t = some timer) :
    Placed (queue ++ [.addTimerInLoop timer]) (Function.update holds t none) waiting := by
  obtain ⟨inside, one⟩ := h.held t timer mine
  refine ⟨?_, fun other member => ?_, fun u other eq => ?_, fun other member => ?_⟩
  · rw [List.filterMap_append, List.nodup_append]
    refine ⟨h.nodup, List.nodup_singleton timer, fun a first b last => ?_⟩
    rintro rfl
    obtain rfl := List.mem_singleton.mp last
    exact (h.queued a (mem_added.mp first)).2 t mine
  · rcases List.mem_append.mp member with old | new
    · obtain ⟨inside, apart⟩ := h.queued other old
      exact ⟨inside, fun u eq => apart u ((held_posted holds t other u).mp eq).1⟩
    · obtain rfl : other = timer := by simpa using new
      exact ⟨inside, fun u eq => ((held_posted holds t other u).mp eq).2 (one u ((held_posted holds t other u).mp eq).1)⟩
  · obtain ⟨eq, _⟩ := (held_posted holds t other u).mp eq
    obtain ⟨inside, one'⟩ := h.held u other eq
    exact ⟨inside, fun v eq => one' v ((held_posted holds t other v).mp eq).1⟩
  · rcases h.somewhere other member with old | ⟨u, eq⟩
    · exact .inl (List.mem_append_left _ old)
    · by_cases same : u = t
      · rw [same, mine] at eq
        obtain rfl := Option.some.inj eq
        exact .inl (List.mem_append_right _ (List.mem_singleton_self _))
      · exact .inr ⟨u, (held_posted holds t other u).mpr ⟨eq, same⟩⟩

theorem Placed.postHere (h : Placed queue holds waiting) (mine : holds t = some timer) :
    Placed queue (Function.update holds t none) (waiting.erase timer) := by
  obtain ⟨_, one⟩ := h.held t timer mine
  refine ⟨h.nodup, fun other member => ?_, fun u other eq => ?_, fun other member => ?_⟩
  · obtain ⟨inside, apart⟩ := h.queued other member
    refine ⟨Finset.mem_erase.mpr ⟨?_, inside⟩, fun u eq => apart u ((held_posted holds t other u).mp eq).1⟩
    rintro rfl
    exact apart t mine
  · obtain ⟨eq, different⟩ := (held_posted holds t other u).mp eq
    obtain ⟨inside, one'⟩ := h.held u other eq
    refine ⟨Finset.mem_erase.mpr ⟨?_, inside⟩, fun v eq => one' v ((held_posted holds t other v).mp eq).1⟩
    rintro rfl
    exact different (one u eq)
  · obtain ⟨different, inside⟩ := Finset.mem_erase.mp member
    refine (h.somewhere other inside).imp_right fun ⟨u, eq⟩ => ⟨u, (held_posted holds t other u).mpr ⟨eq, ?_⟩⟩
    rintro rfl
    rw [mine] at eq
    exact different (Option.some.inj eq).symm

theorem Placed.run (h : Placed (.addTimerInLoop timer :: rest) holds waiting) :
    Placed rest holds (waiting.erase timer) := by
  obtain ⟨first, nodup⟩ := List.nodup_cons.mp h.nodup
  obtain ⟨_, apart⟩ := h.queued timer List.mem_cons_self
  refine ⟨nodup, fun other member => ?_, fun u other eq => ?_, fun other member => ?_⟩
  · obtain ⟨inside, out⟩ := h.queued other (List.mem_cons_of_mem _ member)
    refine ⟨Finset.mem_erase.mpr ⟨?_, inside⟩, out⟩
    rintro rfl
    exact first (mem_added.mpr member)
  · obtain ⟨inside, one⟩ := h.held u other eq
    refine ⟨Finset.mem_erase.mpr ⟨?_, inside⟩, one⟩
    rintro rfl
    exact apart u eq
  · obtain ⟨different, inside⟩ := Finset.mem_erase.mp member
    refine (h.somewhere other inside).imp_left fun old => ?_
    rcases List.mem_cons.mp old with same | old
    · cases same
      exact absurd rfl different
    · exact old

/-- Functors that add no timer come and go. -/
theorem Placed.congr {queue' : List Functor} (h : Placed queue holds waiting)
    (same : queue'.filterMap Functor.added = queue.filterMap Functor.added) : Placed queue' holds waiting := by
  have mem : ∀ timer, .addTimerInLoop timer ∈ queue' ↔ .addTimerInLoop timer ∈ queue := by
    intro timer
    rw [← mem_added, same, mem_added]
  refine ⟨by rw [same]; exact h.nodup, ?_, h.held, ?_⟩
  · intro timer member
    exact h.queued timer ((mem timer).mp member)
  · intro timer member
    exact (h.somewhere timer member).imp_left (mem timer).mpr

end Placed

/-! ### Every run -/

/-- The timers are those of a run of the `TimerQueue`, and callbacks run only while events are handled. -/
structure Inv (s : LoopTimers) : Prop where
  loop : s.loop.Inv
  timers : timerQueue.Reachable Lib.Machine.anyStep s.timers
  batch : s.timers.batch ≠ none → s.loop.phase = .handle
  placed : Placed s.loop.queue.waiting s.unposted s.timers.waiting

theorem initial_inv (init : loopTimers.init s) : s.Inv := by
  obtain ⟨loop, timers, ⟨threadId, rfl⟩, start, rfl⟩ := init
  have reached : timerQueue.Reachable Lib.Machine.anyStep timers := .initial start
  obtain ⟨_, eq⟩ := start
  refine ⟨EventLoop.initial_inv threadId, reached, fun some => ?_, ?_⟩
  · rw [eq] at some
    exact absurd rfl some
  · rw [eq]
    refine ⟨List.nodup_nil, fun timer member => ?_, fun t timer eq => ?_, fun timer member => ?_⟩
    · cases member
    · cases eq
    · simp at member

theorem unposted_update (s : LoopTimers) (t : Tid) (made : Option Adding) {loop : EventLoop Functor}
    {timers : TimerQueue} {returned : List TimerQueue.ActiveTimer} :
    unposted { loop, timers, adding := Function.update s.adding t made, returned } =
      Function.update s.unposted t (match made with
        | some made => if made.posted then none else some made.timer
        | none => none) := by
  funext u
  by_cases same : u = t
  · subst same
    rw [Function.update_self, unposted]
    dsimp only
    rw [Function.update_self]
  · rw [Function.update_of_ne same, unposted]
    dsimp only
    rw [Function.update_of_ne same]
    rfl

theorem unposted_fresh {made : Adding} (adding : s.adding t = some made) (fresh : made.posted = false) :
    s.unposted t = some made.timer := by
  simp only [unposted, adding, fresh, Bool.false_eq_true, if_false]

theorem unposted_posted {made : Adding} (adding : s.adding t = some made) (posted : made.posted = true) :
    s.unposted t = none := by
  simp only [unposted, adding, posted, if_true]

theorem unposted_none (adding : s.adding t = none) : s.unposted t = none := by
  simp only [unposted, adding]

theorem add_step {queue timers : TimerQueue} (member : timer ∈ queue.waiting)
    (ran : queue.addTimerInLoop timer = .ok timers) :
    queue.step (.addTimerInLoop timer) = some (.ok timers) := by
  rw [TimerQueue.step, if_pos member, ran]

theorem cancel_step {queue timers : TimerQueue} (ran : queue.cancelInLoop timerId = .ok timers) :
    queue.step (.cancelInLoop timerId) = some (.ok timers) := congrArg some ran

/-- What a step of the `TimerQueue` leaves. -/
theorem Inv.timers_step (h : s.Inv) {label : TimerQueue.Label} {timers : TimerQueue}
    (step : s.timers.step label = some (.ok timers)) :
    timerQueue.Reachable Lib.Machine.anyStep timers ∧ timers.waiting = label.waitingAfter s.timers.waiting ∧
      (timers.batch ≠ none → s.timers.batch ≠ none ∨ ∃ elapsed, label = .handleRead elapsed) := by
  have effect := TimerQueue.step_effect_ok (TimerQueue.reachable_inv h.timers) step
  exact ⟨h.timers.next trivial step, TimerQueue.effect_waiting effect, TimerQueue.effect_batch effect⟩

theorem loop_phase {label : EventLoop.Label Functor} {loop : EventLoop Functor} (may : s.mayLoop label = true)
    (step : s.loop.step label = some (.ok loop)) : s.timers.batch = none ∨ loop.phase = s.loop.phase := by
  have effect := EventLoop.step_effect step
  cases label with
  | wakeup =>
    obtain rfl := effect
    exact .inr rfl
  | quit => rcases effect with rfl | ⟨_, _, rfl⟩ <;> exact .inr rfl
  | _ =>
    simp only [mayLoop, Bool.and_eq_true, Option.isNone_iff_eq_none] at may
    exact .inl may.2

theorem mayLoop_plain {label : EventLoop.Label Functor} (may : s.mayLoop label = true) : label.plain = true := by
  cases label with
  | wakeup | quit => rfl
  | _ =>
    simp only [mayLoop, Bool.and_eq_true] at may
    exact may.1.1

theorem Inv.not_functors (h : s.Inv) (phase : s.loop.phase = .functors) : s.timers.batch = none := by
  by_contra some
  have handling := h.batch some
  rw [phase] at handling
  cases handling

theorem Inv.push (h : s.Inv) (t : Tid) {cb : Functor} (added : cb.added = none) :
    Inv { s with loop := s.loop.queueInLoop t cb } := by
  have pushed := EventLoop.queueInLoop_pushed s.loop t cb
  refine ⟨pushed.inv h.loop, h.timers, ?_, ?_⟩
  · intro some
    exact pushed.phase.trans (h.batch some)
  · refine h.placed.congr ?_
    rw [pushed.waiting, List.filterMap_append]
    simp [added]

theorem Inv.pop (h : s.Inv) {cb : Functor} {rest : List Functor} (phase : s.loop.phase = .functors)
    (head : s.loop.queue.batch = cb :: rest) (added : cb.added = none) :
    Inv { s with loop := s.loop.runFunctor cb rest } := by
  refine ⟨EventLoop.runFunctor_inv h.loop phase head, h.timers, h.batch, h.placed.congr ?_⟩
  rw [Lib.BatchQueue.pop_waiting head]
  simp [added, EventLoop.runFunctor]

theorem effect_inv (h : s.Inv) (effect : s.Effect s' label) : s'.Inv := by
  cases effect with
  | loop label loop may step eq =>
    subst eq
    refine ⟨EventLoop.step_inv h.loop step, h.timers, fun some => ?_, ?_⟩
    · rcases loop_phase may step with none | phase
      · exact absurd none some
      · exact phase.trans (h.batch some)
    · have queue := (EventLoop.step_plain h.loop (mayLoop_plain may) step).1
      exact queue ▸ h.placed
  | timers label timers may step eq =>
    subst eq
    obtain ⟨reached, waiting, batch⟩ := h.timers_step step
    refine ⟨h.loop, reached, fun some => ?_, ?_⟩
    · rcases batch some with before | ⟨elapsed, rfl⟩
      · exact h.batch before
      · simp only [mayTimers, Bool.and_eq_true, beq_iff_eq] at may
        exact may.1
    · have same : timers.waiting = s.timers.waiting := by
        cases label with
        | newTimer | addTimerInLoop => cases may
        | _ => exact waiting
      exact same ▸ h.placed
  | created t timer request timers made free step value eq =>
    subst eq
    obtain ⟨reached, waiting, batch⟩ := h.timers_step step
    refine ⟨h.loop, reached, fun some => ?_, ?_⟩
    · rcases batch some with before | ⟨elapsed, eq⟩
      · exact h.batch before
      · cases eq
    · have fresh : timer ∉ s.timers.waiting := by
        intro member
        obtain ⟨_, _, u, live⟩ := (TimerQueue.reachable_inv h.timers).sound.owned.waiting member
        simp only [TimerQueue.step, Option.ite_none_right_eq_some] at step
        rw [step.1.2] at live
        cases live
      rw [unposted_update, value]
      dsimp only
      rw [waiting]
      exact h.placed.create (unposted_none free) fresh
  | postedHere t made timers own adding fresh ran eq =>
    subst eq
    have mine := unposted_fresh adding fresh
    have member := (h.placed.held t made.timer mine).1
    obtain ⟨reached, waiting, batch⟩ := h.timers_step (add_step member ran)
    refine ⟨h.loop, reached, fun some => ?_, ?_⟩
    · rcases batch some with before | ⟨elapsed, eq⟩
      · exact h.batch before
      · cases eq
    · rw [unposted_update]
      dsimp only
      rw [waiting]
      exact h.placed.postHere mine
  | postedThere t made other adding fresh eq =>
    subst eq
    have pushed := EventLoop.queueInLoop_pushed s.loop t (.addTimerInLoop made.timer)
    refine ⟨pushed.inv h.loop, h.timers, fun some => pushed.phase.trans (h.batch some), ?_⟩
    rw [unposted_update, pushed.waiting]
    exact h.placed.post (unposted_fresh adding fresh)
  | returned t made timer adding posted live eq =>
    subst eq
    refine ⟨h.loop, h.timers, h.batch, ?_⟩
    rw [unposted_update]
    have same : Function.update s.unposted t none = s.unposted := by
      rw [← unposted_posted adding posted, Function.update_eq_self]
    have placed := h.placed
    rw [← same] at placed
    exact placed
  | canceledHere t timerId timers own ran eq =>
    subst eq
    obtain ⟨reached, waiting, batch⟩ := h.timers_step (cancel_step ran)
    refine ⟨h.loop, reached, fun some => ?_, waiting ▸ h.placed⟩
    rcases batch some with before | ⟨elapsed, eq⟩
    · exact h.batch before
    · cases eq
  | canceledThere t timerId other eq => exact eq ▸ h.push t rfl
  | queued t eq => exact eq ▸ h.push t rfl
  | ranAdd timer rest timers phase head idle ran eq =>
    subst eq
    have queue := Lib.BatchQueue.pop_waiting head
    have placed := h.placed
    rw [queue] at placed
    have member := (placed.queued timer List.mem_cons_self).1
    obtain ⟨reached, waiting, batch⟩ := h.timers_step (add_step member ran)
    refine ⟨EventLoop.runFunctor_inv h.loop phase head, reached, fun some => ?_, ?_⟩
    · rcases batch some with before | ⟨elapsed, eq⟩
      · exact absurd (h.not_functors phase) before
      · cases eq
    · have after := placed.run
      rw [show s.timers.waiting.erase timer = timers.waiting from waiting.symm] at after
      exact after
  | ranCancel timerId rest timers phase head idle ran eq =>
    subst eq
    obtain ⟨reached, waiting, batch⟩ := h.timers_step (cancel_step ran)
    have popped := h.pop phase head rfl
    refine ⟨popped.loop, reached, fun some => ?_, ?_⟩
    · rcases batch some with before | ⟨elapsed, eq⟩
      · exact absurd (h.not_functors phase) before
      · cases eq
    · have after := popped.placed
      rw [show s.timers.waiting = timers.waiting from waiting.symm] at after
      exact after
  | ranOther rest phase head eq => exact eq ▸ h.pop phase head rfl

theorem reachable_inv {guard : LoopTimers → Label → Prop} (h : loopTimers.Reachable guard s) : s.Inv :=
  h.invariant (fun _ init => initial_inv init) fun _ _ _ _ inv _ step => effect_inv inv (step_effect step)

end LoopTimers

end Dserver.Net
