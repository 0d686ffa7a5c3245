import Dserver.Base.LogConservation
import Dserver.Base.Thread

/-!
# Starting and joining the logging thread

`asyncLogging` takes the whole of `start` as one step, and the join of `stop` as another. Here the runs of
`loggingThread`, which has the steps of the two threads, are shown to be runs of it.
-/

namespace Dserver

/-! ### What the steps of `AsyncLogging` leave alone -/

namespace AsyncLogging

theorem nextCurrent_keeps (a : AsyncLogging) : a.nextCurrent.running = a.running ∧
    a.nextCurrent.stopping = a.stopping ∧ a.nextCurrent.func = a.func := by
  unfold nextCurrent
  dsimp only
  cases a.nextBuffer <;> exact ⟨rfl, rfl, rfl⟩

theorem append_keeps {a b : AsyncLogging} {logline : LogLine} (h : a.append logline = .ok b) :
    b.running = a.running ∧ b.stopping = a.stopping ∧ b.func = a.func := by
  unfold append at h
  obtain ⟨_, _, h⟩ := Lib.bind_ok h
  obtain ⟨_, _, h⟩ := Lib.bind_ok h
  obtain rfl := Except.ok.inj h
  dsimp only
  split
  · exact ⟨rfl, rfl, rfl⟩
  · exact nextCurrent_keeps a

theorem collect_keeps (a : AsyncLogging) : a.collect.running = a.running ∧ a.collect.stopping = a.stopping ∧
    a.collect.func = .collected := by
  unfold collect
  dsimp only
  cases a.nextBuffer <;> exact ⟨rfl, rfl, rfl⟩


theorem loop_keeps {a b : AsyncLogging} {label : Label} (loops : label.loops = true) (h : a.step label = some (.ok b)) :
    b.running = a.running ∧ b.stopping = a.stopping ∧ b.func ≠ .notStarted ∧ b.func ≠ .entry := by
  have collected : b = a.collect → b.running = a.running ∧ b.stopping = a.stopping ∧ b.func ≠ .notStarted ∧
      b.func ≠ .entry := by
    rintro rfl
    obtain ⟨running, stopping, func⟩ := collect_keeps a
    exact ⟨running, stopping, by simp [func], by simp [func]⟩
  cases label with
  | test =>
    obtain ⟨_, h⟩ := Option.ite_none_right_eq_some.mp h
    obtain rfl := Except.ok.inj (Option.some.inj h)
    refine ⟨rfl, rfl, ?_, ?_⟩ <;> cases running : a.running <;> simp [AsyncLogging.test, running]
  | lock =>
    obtain ⟨_, h⟩ := Option.ite_none_right_eq_some.mp h
    have ran := Option.some.inj h
    unfold AsyncLogging.lock at ran
    split at ran
    · cases ran
    · split at ran
      · cases ran
      · split at ran
        · cases ran
        · split at ran
          · obtain rfl := Except.ok.inj ran
            exact ⟨rfl, rfl, by rintro ⟨⟩, by rintro ⟨⟩⟩
          · exact collected (Except.ok.inj ran).symm
  | wake =>
    obtain ⟨_, h⟩ := Option.ite_none_right_eq_some.mp h
    exact collected (Except.ok.inj (Option.some.inj h)).symm
  | drop now =>
    obtain ⟨_, h⟩ := Option.ite_none_right_eq_some.mp h
    have ran := Option.some.inj h
    unfold AsyncLogging.drop at ran
    split at ran
    · cases ran
    · split at ran
      · obtain rfl := Except.ok.inj ran
        exact ⟨rfl, rfl, by rintro ⟨⟩, by rintro ⟨⟩⟩
      · obtain rfl := Except.ok.inj ran
        exact ⟨rfl, rfl, by rintro ⟨⟩, by rintro ⟨⟩⟩
  | write =>
    obtain ⟨next, ptr, _, _, result⟩ := write_enabled h
    obtain ⟨_, _, ran⟩ := Lib.bind_ok result.symm
    obtain rfl := Except.ok.inj ran
    exact ⟨rfl, rfl, by rintro ⟨⟩, by rintro ⟨⟩⟩
  | recycle =>
    obtain ⟨_, h⟩ := Option.ite_none_right_eq_some.mp h
    obtain ⟨_, _, ran⟩ := Lib.bind_ok (Option.some.inj h)
    obtain ⟨_, _, ran⟩ := Lib.bind_ok ran
    obtain rfl := Except.ok.inj ran
    exact ⟨rfl, rfl, by rintro ⟨⟩, by rintro ⟨⟩⟩
  | _ => cases loops

end AsyncLogging

namespace RunState

/-- What is left at the latch of the `Thread` and at that of the `AsyncLogging`. -/
def threadCount : RunState → Int
  | notCreated | entry | named => 1
  | counted | func | opening | looping | ended => 0

def funcCount : RunState → Int
  | notCreated | entry | named | counted | func => 1
  | opening | looping | ended => 0

/-- `tid_`, when the thread is `id`. -/
def tid (id : Tid) : RunState → Tid
  | notCreated | entry => 0
  | named | counted | func | opening | looping | ended => id

/-- Where `threadFunc` is meanwhile. -/
def At (place : FuncState) : RunState → Prop
  | notCreated | entry | named | counted => place = .notStarted
  | func | opening => place = .entry
  | looping => place ≠ .notStarted ∧ place ≠ .entry
  | ended => place = .exited

theorem threadCount_zero {self : RunState} (h : self.threadCount ≤ 0) : self.threadCount = 0 := by
  cases self <;> first | rfl | cases h

theorem funcCount_zero {self : RunState} (h : self.funcCount ≤ 0) : self.funcCount = 0 := by
  cases self <;> first | rfl | cases h

/-- The steps to the `countDown` of `threadFunc`. -/
def left : RunState → Nat
  | entry => 4
  | named => 3
  | counted => 2
  | func => 1
  | notCreated | opening | looping | ended => 0

/-- The thread goes on. -/
def Forward (a b : RunState) : Prop :=
  a ≠ notCreated ∧ b ≠ notCreated ∧ a ≠ ended ∧ (a.threadCount = 0 → b.threadCount = 0) ∧
    (a.funcCount = 0 → b.funcCount = 0)

instance (a b : RunState) : Decidable (Forward a b) := inferInstanceAs (Decidable (_ ∧ _))

end RunState

/-- `running_` is set as long as `stop` has not cleared it. -/
def StopState.before : StopState → Bool
  | notCalled | called _ => true
  | cleared _ | joining _ | returned _ => false

namespace LoggingThread

variable {s s' : LoggingThread} {label : Label}

/-! ### Steps -/

inductive Effect (s s' : LoggingThread) : Label → Prop where
  | append (logline : LogLine) (logging : AsyncLogging) (ran : s.logging.append logline = .ok logging)
      (eq : s' = { s with logging }) : Effect s s' (.append logline)
  | start (owner : s.owner = .fresh)
      (eq : s' = { s with logging := { s.logging with running := true }, owner := .creating }) : Effect s s' .start
  | created (id : Tid) (thread : Thread) (owner : s.owner = .creating) (ran : s.thread.start = .ok thread)
      (eq : s' = { s with thread, id, self := .entry, owner := .starting }) : Effect s s' (.create (some id))
  | failed (thread : Thread) (owner : s.owner = .creating) (ran : s.thread.start = .ok thread)
      (eq : s' = { s with thread, owner := .waiting }) : Effect s s' (.create none)
  | startTurn (owner : s.owner = .starting) (eq : s' = { s with
      thread := { s.thread with latch := (s.thread.latch.wait s.me).1 }
      owner := if (s.thread.latch.wait s.me).2 then .waiting else .starting }) : Effect s s' .startTurn
  | waitTurn (owner : s.owner = .waiting) (eq : s' = { s with
      latch := (s.latch.wait s.me).1
      owner := if (s.latch.wait s.me).2 then .user else .waiting }) : Effect s s' .waitTurn
  | spurious (eq : s' = { s with
      thread := { s.thread with latch := s.thread.latch.spurious s.me }
      latch := s.latch.spurious s.me }) : Effect s s' .spurious
  | name (self : s.self = .entry) (eq : s' = { s with thread := { s.thread with tid := s.id }, self := .named }) :
      Effect s s' .name
  | countDown (self : s.self = .named) (eq : s' = { s with
      thread := { s.thread with latch := s.thread.latch.countDown }, self := .counted }) : Effect s s' .countDown
  | callFunc (self : s.self = .counted)
      (eq : s' = { s with logging := { s.logging with func := .entry }, self := .func }) : Effect s s' .callFunc
  | threadFunc (self : s.self = .func) (runs : s.logging.running = true)
      (eq : s' = { s with latch := s.latch.countDown, self := .opening }) : Effect s s' .threadFunc
  | openFile (self : s.self = .opening) (eq : s' = { s with
      logging := { s.logging with newBuffer1 := some .empty, newBuffer2 := some .empty, func := .test }
      self := .looping }) : Effect s s' .openFile
  | loop (label : AsyncLogging.Label) (logging : AsyncLogging) (self : s.self = .looping) (loops : label.loops = true)
      (ran : s.logging.step label = some (.ok logging)) (eq : s' = { s with logging }) : Effect s s' (.loop label)
  | finish (self : s.self = .looping) (exited : s.logging.func = .exited) (eq : s' = { s with self := .ended }) :
      Effect s s' .finish
  | stopCall (owner : s.owner = .user) (first : s.logging.stopping = .notCalled) (eq : s' = { s with
      logging := { s.logging with stopping := .called s.logging.appended.length } }) : Effect s s' .stopCall
  | stopClear (n : Nat) (owner : s.owner = .user) (called : s.logging.stopping = .called n)
      (eq : s' = { s with logging := { s.logging with running := false, stopping := .cleared n } }) :
      Effect s s' .stopClear
  | stopNotify (n : Nat) (owner : s.owner = .user) (cleared : s.logging.stopping = .cleared n)
      (eq : s' = { s with logging := { s.logging with stopping := .joining n } }) : Effect s s' .stopNotify
  | join (n : Nat) (thread : Thread) (owner : s.owner = .user) (stopping : s.logging.stopping = .joining n)
      (ran : s.thread.join = .ok thread) (eq : s' = { s with thread, owner := .joining }) : Effect s s' .join
  | joined (n : Nat) (owner : s.owner = .joining) (self : s.self = .ended) (stopping : s.logging.stopping = .joining n)
      (eq : s' = { s with logging := { s.logging with stopping := .returned n }, owner := .user }) :
      Effect s s' .joined
  | destroy (finished : s.owner = .fresh ∨ s.owner = .user ∧ ∃ n, s.logging.stopping = .returned n)
      (eq : s' = { s with destroyed := true }) : Effect s s' .destroy

theorem onLogging_ok {result : Except AsyncLogging.Fault AsyncLogging} (h : s.onLogging result = .ok s') :
    ∃ logging, result = .ok logging ∧ s' = { s with logging } := by
  cases result with
  | ok logging => exact ⟨logging, rfl, (Except.ok.inj h).symm⟩
  | error fault => cases h

theorem logging_ok {label : AsyncLogging.Label} (h : (s.logging.step label).map s.onLogging = some (.ok s')) :
    ∃ logging, s.logging.step label = some (.ok logging) ∧ s' = { s with logging } := by
  obtain ⟨result, step, ok⟩ := Option.map_eq_some_iff.mp h
  obtain ⟨logging, rfl, eq⟩ := onLogging_ok ok
  exact ⟨logging, step, eq⟩

theorem running_effect (h : s.running label = some (.ok s')) : Effect s s' label := by
  cases label with
  | name =>
    obtain ⟨self, h⟩ := Option.ite_none_right_eq_some.mp h
    exact .name self (Except.ok.inj (Option.some.inj h)).symm
  | countDown =>
    obtain ⟨self, h⟩ := Option.ite_none_right_eq_some.mp h
    exact .countDown self (Except.ok.inj (Option.some.inj h)).symm
  | callFunc =>
    obtain ⟨self, h⟩ := Option.ite_none_right_eq_some.mp h
    exact .callFunc self (Except.ok.inj (Option.some.inj h)).symm
  | threadFunc =>
    obtain ⟨self, h⟩ := Option.ite_none_right_eq_some.mp h
    have ran := Option.some.inj h
    split at ran
    · rename_i runs
      exact .threadFunc self runs (Except.ok.inj ran).symm
    · cases ran
  | openFile =>
    obtain ⟨self, h⟩ := Option.ite_none_right_eq_some.mp h
    exact .openFile self (Except.ok.inj (Option.some.inj h)).symm
  | loop label =>
    obtain ⟨⟨self, loops⟩, h⟩ := Option.ite_none_right_eq_some.mp h
    obtain ⟨logging, step, eq⟩ := logging_ok h
    exact .loop label logging self loops step eq
  | finish =>
    obtain ⟨⟨self, exited⟩, h⟩ := Option.ite_none_right_eq_some.mp h
    exact .finish self exited (Except.ok.inj (Option.some.inj h)).symm
  | _ => cases h

theorem owning_effect (h : s.owning label = some (.ok s')) : Effect s s' label := by
  cases label with
  | append logline =>
    obtain ⟨logging, ran, eq⟩ := onLogging_ok (Option.some.inj h)
    exact .append logline logging ran eq
  | start =>
    obtain ⟨owner, h⟩ := Option.ite_none_right_eq_some.mp h
    exact .start owner (Except.ok.inj (Option.some.inj h)).symm
  | create answer =>
    obtain ⟨owner, h⟩ := Option.ite_none_right_eq_some.mp h
    split at h
    · rename_i thread ran
      cases answer with
      | some id => exact .created id thread owner ran (Except.ok.inj (Option.some.inj h)).symm
      | none => exact .failed thread owner ran (Except.ok.inj (Option.some.inj h)).symm
    · cases h
  | startTurn =>
    obtain ⟨⟨owner, _⟩, h⟩ := Option.ite_none_right_eq_some.mp h
    exact .startTurn owner (Except.ok.inj (Option.some.inj h)).symm
  | waitTurn =>
    obtain ⟨⟨owner, _⟩, h⟩ := Option.ite_none_right_eq_some.mp h
    exact .waitTurn owner (Except.ok.inj (Option.some.inj h)).symm
  | spurious => exact .spurious (Except.ok.inj (Option.some.inj h)).symm
  | stopCall =>
    obtain ⟨⟨owner, first⟩, h⟩ := Option.ite_none_right_eq_some.mp h
    exact .stopCall owner first (Except.ok.inj (Option.some.inj h)).symm
  | stopClear =>
    obtain ⟨owner, h⟩ := Option.ite_none_right_eq_some.mp h
    obtain ⟨logging, step, eq⟩ := logging_ok h
    obtain ⟨n, called, result⟩ := AsyncLogging.stopClear_enabled step
    obtain rfl := Except.ok.inj result
    exact .stopClear n owner called eq
  | stopNotify =>
    obtain ⟨owner, h⟩ := Option.ite_none_right_eq_some.mp h
    obtain ⟨logging, step, eq⟩ := logging_ok h
    obtain ⟨n, cleared, result⟩ := AsyncLogging.stopNotify_enabled step
    obtain rfl := Except.ok.inj result
    exact .stopNotify n owner cleared eq
  | join =>
    simp only [owning] at h
    split at h
    · rename_i n owner stopping
      split at h
      · rename_i thread ran
        exact .join n thread owner stopping ran (Except.ok.inj (Option.some.inj h)).symm
      · cases h
    · cases h
  | joined =>
    simp only [owning] at h
    split at h
    · rename_i n owner self stopping
      exact .joined n owner self stopping (Except.ok.inj (Option.some.inj h)).symm
    · cases h
  | destroy =>
    simp only [owning] at h
    split at h
    · rename_i owner
      exact .destroy (.inl owner) (Except.ok.inj (Option.some.inj h)).symm
    · rename_i n owner stopping
      exact .destroy (.inr ⟨owner, n, stopping⟩) (Except.ok.inj (Option.some.inj h)).symm
    · cases h
  | _ => cases h

theorem step_effect (h : s.step label = some (.ok s')) : s.destroyed = false ∧ Effect s s' label := by
  unfold step at h
  split at h
  · rename_i result ran
    split at h
    · cases h
    · rename_i alive
      obtain rfl := Option.some.inj h
      exact ⟨by simpa using alive, running_effect ran⟩
  · split at h
    · cases h
    · rename_i alive
      exact ⟨by simpa using alive, owning_effect h⟩

/-! ### The two threads -/

/-- What the owner has done and what it relies on, by where it is. -/
def Owner (s : LoggingThread) : Prop :=
  match s.owner with
  | .fresh => s.self = .notCreated ∧ s.logging.stopping = .notCalled ∧ s.thread.started = false ∧ s.thread.joined = false
  | .creating => s.self = .notCreated ∧ s.logging.running = true ∧ s.logging.stopping = .notCalled ∧
      s.thread.started = false ∧ s.thread.joined = false
  | .starting => s.self ≠ .notCreated ∧ s.logging.running = true ∧ s.logging.stopping = .notCalled ∧
      s.thread.started = true ∧ s.thread.joined = false
  | .waiting => (s.self ≠ .notCreated → s.self.threadCount = 0) ∧ s.logging.running = true ∧
      s.logging.stopping = .notCalled ∧ s.thread.started = true ∧ s.thread.joined = false
  | .user => s.self.funcCount = 0 ∧ s.logging.running = s.logging.stopping.before ∧ s.thread.started = true ∧
      (s.thread.joined = true → ∃ n, s.logging.stopping = .returned n)
  | .joining => s.self.funcCount = 0 ∧ s.logging.running = false ∧ s.thread.joined = true ∧ s.thread.started = true ∧
      ∃ n, s.logging.stopping = .joining n

structure Inv (s : LoggingThread) : Prop where
  func : s.self.At s.logging.func
  count : s.thread.latch.count = s.self.threadCount
  funcCount : s.latch.count = s.self.funcCount
  tid : s.thread.tid = s.self.tid s.id
  sleeper : s.thread.latch.NoSleeper
  funcSleeper : s.latch.NoSleeper
  owner : s.Owner
  returned : ∀ n, s.logging.stopping = .returned n → s.self = .ended
  destroyed : s.destroyed = true → s.owner = .fresh ∨ s.owner = .user ∧ ∃ n, s.logging.stopping = .returned n

theorem Owner.forward (h : s.Owner) (on : s.self.Forward s'.self) (owner : s'.owner = s.owner)
    (running : s'.logging.running = s.logging.running) (stopping : s'.logging.stopping = s.logging.stopping)
    (started : s'.thread.started = s.thread.started) (joined : s'.thread.joined = s.thread.joined) : s'.Owner := by
  obtain ⟨before, after, -, thread, func⟩ := on
  unfold Owner at h ⊢
  rw [owner, running, stopping, started, joined]
  cases place : s.owner with
  | fresh | creating =>
    rw [place] at h
    exact absurd h.1 before
  | starting =>
    rw [place] at h
    exact ⟨after, h.2⟩
  | waiting =>
    rw [place] at h
    exact ⟨fun _ => thread (h.1 before), h.2⟩
  | user | joining =>
    rw [place] at h
    exact ⟨func h.1, h.2⟩

/-- The owner is in `start` as long as the thread has not counted down in `threadFunc`. -/
theorem Owner.runs (h : s.Owner) (created : s.self ≠ .notCreated) (early : s.self.funcCount ≠ 0) :
    s.logging.running = true ∧ s.logging.stopping = .notCalled := by
  unfold Owner at h
  cases place : s.owner with
  | fresh | creating =>
    rw [place] at h
    exact absurd h.1 created
  | starting | waiting =>
    rw [place] at h
    exact ⟨h.2.1, h.2.2.1⟩
  | user | joining =>
    rw [place] at h
    exact absurd h.1 early

theorem initial_inv (me : Tid) : Inv { me } :=
  ⟨rfl, rfl, rfl, rfl, by rintro ⟨⟩, by rintro ⟨⟩, ⟨rfl, rfl, rfl, rfl⟩, by rintro n ⟨⟩, by rintro ⟨⟩⟩

/-- A step of the logging thread. -/
theorem Inv.forward {a b : RunState} (h : s.Inv) (alive : s'.destroyed = false) (was : s.self = a) (now : s'.self = b)
    (on : a.Forward b) (owner : s'.owner = s.owner) (running : s'.logging.running = s.logging.running)
    (stopping : s'.logging.stopping = s.logging.stopping)
    (started : s'.thread.started = s.thread.started) (joined : s'.thread.joined = s.thread.joined)
    (func : s'.self.At s'.logging.func) (count : s'.thread.latch.count = s'.self.threadCount)
    (funcCount : s'.latch.count = s'.self.funcCount) (tid : s'.thread.tid = s'.self.tid s'.id)
    (sleeper : s'.thread.latch.NoSleeper) (funcSleeper : s'.latch.NoSleeper) : s'.Inv := by
  subst was now
  refine ⟨func, count, funcCount, tid, sleeper, funcSleeper, h.owner.forward on owner running stopping started joined,
    ?_, ?_⟩
  · rw [stopping]
    exact fun n returned => absurd (h.returned n returned) on.2.2.1
  · rw [alive]
    rintro ⟨⟩

/-- A step of another thread. -/
theorem Inv.beside (h : s.Inv) (alive : s'.destroyed = false) (self : s'.self = s.self) (id : s'.id = s.id)
    (func : s'.logging.func = s.logging.func) (tid : s'.thread.tid = s.thread.tid)
    (count : s'.thread.latch.count = s.thread.latch.count) (funcCount : s'.latch.count = s.latch.count)
    (sleeper : s'.thread.latch.NoSleeper) (funcSleeper : s'.latch.NoSleeper) (owner : s'.Owner)
    (returned : ∀ n, s'.logging.stopping = .returned n → s.self = .ended) : s'.Inv := by
  refine ⟨?_, ?_, ?_, ?_, sleeper, funcSleeper, owner, ?_, ?_⟩
  · rw [self, func]
    exact h.func
  · rw [count, self]
    exact h.count
  · rw [funcCount, self]
    exact h.funcCount
  · rw [tid, self, id]
    exact h.tid
  · rw [self]
    exact returned
  · rw [alive]
    rintro ⟨⟩

theorem step_inv (h : s.Inv) (step : s.step label = some (.ok s')) : s'.Inv := by
  obtain ⟨alive, effect⟩ := step_effect step
  have func := h.func
  have count := h.count
  have funcCount := h.funcCount
  have tid := h.tid
  have before := h.owner
  cases effect with
  | append logline logging ran eq =>
    obtain ⟨running, stopping, place⟩ := AsyncLogging.append_keeps ran
    subst eq
    refine h.beside alive rfl rfl place rfl rfl rfl h.sleeper h.funcSleeper ?_ ?_
    · unfold Owner at before ⊢
      rw [running, stopping]
      exact before
    · rw [stopping]
      exact h.returned
  | start owner eq =>
    subst eq
    rw [Owner, owner] at before
    obtain ⟨self, stopping, started, joined⟩ := before
    exact h.beside alive rfl rfl rfl rfl rfl rfl h.sleeper h.funcSleeper ⟨self, rfl, stopping, started, joined⟩ h.returned
  | created id thread owner ran eq =>
    subst eq
    rw [Owner, owner] at before
    obtain ⟨self, running, stopping, started, joined⟩ := before
    obtain rfl : thread = { s.thread with started := true } := by simpa [Thread.start, started] using ran.symm
    rw [self] at func count funcCount tid
    refine ⟨func, count, funcCount, tid, h.sleeper, h.funcSleeper, ⟨by rintro ⟨⟩, running, stopping, rfl, joined⟩, ?_, ?_⟩
    · rw [stopping]
      rintro n ⟨⟩
    · rw [alive]
      rintro ⟨⟩
  | failed thread owner ran eq =>
    subst eq
    rw [Owner, owner] at before
    obtain ⟨self, running, stopping, started, joined⟩ := before
    obtain rfl : thread = { s.thread with started := true } := by simpa [Thread.start, started] using ran.symm
    exact h.beside alive rfl rfl rfl rfl rfl rfl h.sleeper h.funcSleeper
      ⟨fun created => absurd self created, running, stopping, rfl, joined⟩ h.returned
  | startTurn owner eq =>
    subst eq
    rw [Owner, owner] at before
    obtain ⟨self, running, stopping, started, joined⟩ := before
    refine h.beside alive rfl rfl rfl rfl CountDownLatch.wait_count rfl (CountDownLatch.wait_noSleeper h.sleeper)
      h.funcSleeper ?_ h.returned
    cases done : (s.thread.latch.wait s.me).2 with
    | false => exact ⟨self, running, stopping, started, joined⟩
    | true =>
      refine ⟨fun _ => RunState.threadCount_zero ?_, running, stopping, started, joined⟩
      rw [← count]
      exact CountDownLatch.wait_done done
  | waitTurn owner eq =>
    subst eq
    rw [Owner, owner] at before
    obtain ⟨self, running, stopping, started, joined⟩ := before
    refine h.beside alive rfl rfl rfl rfl rfl CountDownLatch.wait_count h.sleeper
      (CountDownLatch.wait_noSleeper h.funcSleeper) ?_ h.returned
    cases done : (s.latch.wait s.me).2 with
    | false => exact ⟨self, running, stopping, started, joined⟩
    | true =>
      refine ⟨RunState.funcCount_zero ?_, ?_, started, ?_⟩
      · rw [← funcCount]
        exact CountDownLatch.wait_done done
      · rw [running, stopping]
        rfl
      · rw [joined]
        rintro ⟨⟩
  | spurious eq =>
    subst eq
    exact h.beside alive rfl rfl rfl rfl rfl rfl (CountDownLatch.spurious_noSleeper h.sleeper)
      (CountDownLatch.spurious_noSleeper h.funcSleeper) before h.returned
  | name self eq =>
    subst eq
    rw [self] at func count funcCount
    exact h.forward alive self rfl (show RunState.entry.Forward .named by decide) rfl rfl rfl rfl rfl func count
      funcCount rfl h.sleeper h.funcSleeper
  | countDown self eq =>
    subst eq
    rw [self] at func count funcCount tid
    refine h.forward alive self rfl (show RunState.named.Forward .counted by decide) rfl rfl rfl rfl rfl func ?_ funcCount tid
      (CountDownLatch.countDown_noSleeper h.sleeper) h.funcSleeper
    rw [CountDownLatch.countDown_count, count]
    rfl
  | callFunc self eq =>
    subst eq
    rw [self] at count funcCount tid
    exact h.forward alive self rfl (show RunState.counted.Forward .func by decide) rfl rfl rfl rfl rfl rfl count
      funcCount tid h.sleeper h.funcSleeper
  | threadFunc self _ eq =>
    subst eq
    rw [self] at func count funcCount tid
    refine h.forward alive self rfl (show RunState.func.Forward .opening by decide) rfl rfl rfl rfl rfl func count ?_
      tid h.sleeper (CountDownLatch.countDown_noSleeper h.funcSleeper)
    rw [CountDownLatch.countDown_count, funcCount]
    rfl
  | openFile self eq =>
    subst eq
    rw [self] at count funcCount tid
    exact h.forward alive self rfl (show RunState.opening.Forward .looping by decide) rfl rfl rfl rfl rfl
      ⟨by rintro ⟨⟩, by rintro ⟨⟩⟩ count funcCount tid h.sleeper h.funcSleeper
  | loop label logging self loops ran eq =>
    obtain ⟨running, stopping, place⟩ := AsyncLogging.loop_keeps loops ran
    subst eq
    exact h.forward alive self self (by decide) rfl running stopping rfl rfl (by rw [self]; exact place) count funcCount
      tid h.sleeper h.funcSleeper
  | finish self exited eq =>
    subst eq
    rw [self] at count funcCount tid
    exact h.forward alive self rfl (show RunState.looping.Forward .ended by decide) rfl rfl rfl rfl rfl exited count
      funcCount tid h.sleeper h.funcSleeper
  | stopCall owner first eq =>
    subst eq
    rw [Owner, owner] at before
    obtain ⟨self, running, started, joined⟩ := before
    refine h.beside alive rfl rfl rfl rfl rfl rfl h.sleeper h.funcSleeper ?_ (by rintro n ⟨⟩)
    rw [Owner, owner]
    refine ⟨self, ?_, started, fun ended => ?_⟩
    · rw [running, first]
      rfl
    · obtain ⟨n, returned⟩ := joined ended
      rw [first] at returned
      cases returned
  | stopClear n owner called eq =>
    subst eq
    rw [Owner, owner] at before
    obtain ⟨self, running, started, joined⟩ := before
    refine h.beside alive rfl rfl rfl rfl rfl rfl h.sleeper h.funcSleeper ?_ (by rintro n ⟨⟩)
    rw [Owner, owner]
    refine ⟨self, rfl, started, fun ended => ?_⟩
    obtain ⟨n, returned⟩ := joined ended
    rw [called] at returned
    cases returned
  | stopNotify n owner cleared eq =>
    subst eq
    rw [Owner, owner] at before
    obtain ⟨self, running, started, joined⟩ := before
    refine h.beside alive rfl rfl rfl rfl rfl rfl h.sleeper h.funcSleeper ?_ (by rintro n ⟨⟩)
    rw [Owner, owner]
    refine ⟨self, ?_, started, fun ended => ?_⟩
    · rw [running, cleared]
      rfl
    · obtain ⟨n, returned⟩ := joined ended
      rw [cleared] at returned
      cases returned
  | join n thread owner stopping ran eq =>
    subst eq
    rw [Owner, owner] at before
    obtain ⟨self, running, started, joined⟩ := before
    have first : s.thread.joined = false := by
      by_contra twice
      obtain ⟨n, returned⟩ := joined (by simpa using twice)
      rw [stopping] at returned
      cases returned
    obtain rfl : thread = { s.thread with joined := true } := by simpa [Thread.join, started, first] using ran.symm
    refine h.beside alive rfl rfl rfl rfl rfl rfl h.sleeper h.funcSleeper ⟨self, ?_, rfl, started, n, stopping⟩ h.returned
    rw [running, stopping]
    rfl
  | joined n owner self stopping eq =>
    subst eq
    rw [Owner, owner] at before
    obtain ⟨place, running, joined, started, _⟩ := before
    exact h.beside alive rfl rfl rfl rfl rfl rfl h.sleeper h.funcSleeper ⟨place, running, started, fun _ => ⟨n, rfl⟩⟩
      fun _ _ => self
  | destroy finished eq =>
    subst eq
    exact ⟨h.func, h.count, h.funcCount, h.tid, h.sleeper, h.funcSleeper, h.owner, h.returned, fun _ => finished⟩

theorem reachable_inv {guard : LoggingThread → Label → Prop} (h : loggingThread.Reachable guard s) : s.Inv := by
  refine h.invariant ?_ fun a label b _ inv _ step => step_inv inv step
  rintro a ⟨me, rfl⟩
  exact initial_inv me

/-! ### Refinement -/

end LoggingThread

/-- The state as `asyncLogging` has it: `start` is the call of `threadFunc`, and the file and the buffers are there
from its `countDown` on. -/
def RunState.view (self : RunState) (logging : AsyncLogging) : AsyncLogging :=
  match self with
  | .notCreated | .entry | .named | .counted => { logging with running := false }
  | .opening => { logging with newBuffer1 := some .empty, newBuffer2 := some .empty, func := .test }
  | .func | .looping | .ended => logging

namespace LoggingThread

variable {s s' : LoggingThread} {label : Label}

def view (s : LoggingThread) : AsyncLogging := s.self.view s.logging

theorem view_currentBuffer (self : RunState) (a : AsyncLogging) : (self.view a).currentBuffer = a.currentBuffer := by
  cases self <;> rfl

theorem view_nextCurrent (self : RunState) (a : AsyncLogging) : (self.view a).nextCurrent = self.view a.nextCurrent := by
  unfold AsyncLogging.nextCurrent
  cases next : a.nextBuffer <;> cases self <;> simp only [RunState.view, next]

/-- The buffer in use is not touched by what the owner and the logging thread do meanwhile. -/
theorem view_append (self : RunState) (a : AsyncLogging) (logline : LogLine) :
    (self.view a).append logline = (a.append logline).map self.view := by
  unfold AsyncLogging.append
  rw [view_currentBuffer, view_nextCurrent]
  cases current : a.currentBuffer with
  | none => rfl
  | some b =>
    by_cases room : logline.length < b.avail
    · simp only [AsyncLogging.deref, Lib.ok_bind, if_pos room, view_currentBuffer, current]
      cases self <;> rfl
    · simp only [AsyncLogging.deref, Lib.ok_bind, if_neg room, view_currentBuffer]
      cases a.nextCurrent.currentBuffer with
      | none => rfl
      | some next => cases self <;> rfl

theorem view_stopping (self : RunState) (a : AsyncLogging) (stopping : StopState) :
    self.view { a with stopping } = { self.view a with stopping } := by
  cases self <;> rfl

theorem view_clear (self : RunState) (a : AsyncLogging) (stopping : StopState) :
    self.view { a with running := false, stopping } = { self.view a with running := false, stopping } := by
  cases self <;> rfl

theorem view_kept (self : RunState) (a : AsyncLogging) :
    (self.view a).stopping = a.stopping ∧ (self.view a).appended = a.appended := by
  cases self <;> exact ⟨rfl, rfl⟩

theorem view_entered (h : s.Inv) (opened : s.self.funcCount = 0) :
    s.view.func ≠ .notStarted ∧ s.view.func ≠ .entry := by
  have func := h.func
  unfold view
  cases self : s.self with
  | opening => exact ⟨by rintro ⟨⟩, by rintro ⟨⟩⟩
  | looping =>
    rw [self] at func
    exact func
  | ended =>
    rw [self] at func
    have place : s.logging.func = .exited := func
    exact ⟨by simp [RunState.view, place], by simp [RunState.view, place]⟩
  | notCreated | entry | named | counted | func =>
    rw [self] at opened
    cases opened

theorem step_view (h : s.Inv) (short : Short s label) (step : s.step label = some (.ok s')) :
    s'.view = s.view ∨ ∃ l, AsyncLogging.Short s.view l ∧ s.view.step l = some (.ok s'.view) := by
  obtain ⟨alive, effect⟩ := step_effect step
  have func := h.func
  have before := h.owner
  cases effect with
  | append logline logging ran eq =>
    subst eq
    refine .inr ⟨.append logline, short, congrArg some ?_⟩
    rw [view, view_append, ran]
    rfl
  | start owner eq =>
    subst eq
    rw [Owner, owner] at before
    left
    simp only [view, before.1, RunState.view]
  | created id thread owner ran eq =>
    subst eq
    rw [Owner, owner] at before
    left
    simp only [view, before.1, RunState.view]
  | failed thread owner ran eq =>
    subst eq
    exact .inl rfl
  | startTurn owner eq =>
    subst eq
    exact .inl rfl
  | waitTurn owner eq =>
    subst eq
    exact .inl rfl
  | spurious eq =>
    subst eq
    exact .inl rfl
  | name self eq | countDown self eq =>
    subst eq
    left
    simp only [view, self, RunState.view]
  | callFunc self eq =>
    subst eq
    obtain ⟨running, _⟩ := before.runs (by simp [self]) (by simp [self, RunState.funcCount])
    refine .inr ⟨.start, trivial, ?_⟩
    rw [self] at func
    have place : s.logging.func = .notStarted := func
    simp only [view, self, RunState.view, AsyncLogging.step, place, if_true, AsyncLogging.start, running]
  | threadFunc self runs eq =>
    subst eq
    refine .inr ⟨.enter, trivial, ?_⟩
    rw [self] at func
    have place : s.logging.func = .entry := func
    simp only [view, self, RunState.view, AsyncLogging.step, place, if_true, AsyncLogging.enter, runs]
  | openFile self eq =>
    subst eq
    left
    simp only [view, self, RunState.view]
  | loop label logging self loops ran eq =>
    subst eq
    refine .inr ⟨label, ?_, ?_⟩
    · cases label <;> trivial
    · simp only [view, self, RunState.view]
      exact ran
  | finish self exited eq =>
    subst eq
    left
    simp only [view, self, RunState.view]
  | stopCall owner first eq =>
    subst eq
    rw [Owner, owner] at before
    refine .inr ⟨.stopCall, trivial, ?_⟩
    have called : s.view.stopping = .notCalled := (view_kept _ _).1.trans first
    have length : s.view.appended.length = s.logging.appended.length := congrArg List.length (view_kept _ _).2
    rw [AsyncLogging.step, if_pos ⟨called, view_entered h before.1⟩, length]
    exact congrArg (fun a => some (Except.ok a)) (view_stopping s.self s.logging _).symm
  | stopClear n owner called eq =>
    subst eq
    refine .inr ⟨.stopClear, trivial, ?_⟩
    have stopping : s.view.stopping = .called n := (view_kept _ _).1.trans called
    simp only [AsyncLogging.step, stopping]
    exact congrArg (fun a => some (Except.ok a)) (view_clear s.self s.logging _).symm
  | stopNotify n owner cleared eq =>
    subst eq
    refine .inr ⟨.stopNotify, trivial, ?_⟩
    have stopping : s.view.stopping = .cleared n := (view_kept _ _).1.trans cleared
    simp only [AsyncLogging.step, stopping]
    exact congrArg (fun a => some (Except.ok a)) (view_stopping s.self s.logging _).symm
  | join n thread owner stopping ran eq =>
    subst eq
    exact .inl rfl
  | joined n owner self stopping eq =>
    subst eq
    refine .inr ⟨.stopJoin, trivial, ?_⟩
    rw [self] at func
    have place : s.logging.func = .exited := func
    simp only [view, self, RunState.view, AsyncLogging.step, stopping, place, if_true]
  | destroy finished eq =>
    subst eq
    exact .inl rfl

theorem reachable_view (h : loggingThread.Reachable Short s) :
    asyncLogging.Reachable AsyncLogging.Short s.view := by
  refine h.invariant (P := fun a => asyncLogging.Reachable AsyncLogging.Short a.view) ?_ ?_
  · rintro a ⟨me, rfl⟩
    exact .initial rfl
  · intro a label b reached before short step
    rcases step_view (reachable_inv reached) short step with same | ⟨l, allowed, next⟩
    · rw [same]
      exact before
    · exact before.next allowed next

/-! ### Faults -/

theorem append_total (h : loggingThread.Reachable Short s) {logline : LogLine} (short : logline.length < kLargeBuffer) :
    ∃ logging, s.logging.append logline = .ok logging := by
  obtain ⟨b, ran, _⟩ := AsyncLogging.append_spec (AsyncLogging.reachable_inv (reachable_view h)) short
  rw [view, view_append] at ran
  obtain ⟨logging, ok, _⟩ := Lib.map_ok ran
  exact ⟨logging, ok⟩

theorem running_total {fault : Fault} (h : loggingThread.Reachable Short s) : s.running label ≠ some (.error fault) := by
  have inv := reachable_inv h
  intro failed
  cases label with
  | threadFunc =>
    obtain ⟨self, failed⟩ := Option.ite_none_right_eq_some.mp failed
    have runs := (inv.owner.runs (by simp [self]) (by simp [self, RunState.funcCount])).1
    rw [if_pos runs] at failed
    cases failed
  | loop label =>
    obtain ⟨⟨self, loops⟩, failed⟩ := Option.ite_none_right_eq_some.mp failed
    obtain ⟨result, step, failed⟩ := Option.map_eq_some_iff.mp failed
    have view := AsyncLogging.reachable_inv (reachable_view h)
    simp only [LoggingThread.view, self, RunState.view] at view
    obtain ⟨_, rfl, _⟩ := AsyncLogging.step_spec view (by cases label <;> trivial) step
    cases failed
  | name | countDown | callFunc | openFile | finish =>
    obtain ⟨_, failed⟩ := Option.ite_none_right_eq_some.mp failed
    cases failed
  | _ => cases failed

theorem owning_total {fault : Fault} (h : loggingThread.Reachable Short s) (short : Short s label) :
    s.owning label ≠ some (.error fault) := by
  have before := (reachable_inv h).owner
  intro failed
  cases label with
  | append logline =>
    obtain ⟨logging, ran⟩ := append_total h short
    simp only [owning, ran] at failed
    cases failed
  | create answer =>
    obtain ⟨owner, failed⟩ := Option.ite_none_right_eq_some.mp failed
    rw [Owner, owner] at before
    simp only [Thread.start, before.2.2.2.1] at failed
    cases answer <;> cases failed
  | stopClear =>
    obtain ⟨_, failed⟩ := Option.ite_none_right_eq_some.mp failed
    obtain ⟨result, step, failed⟩ := Option.map_eq_some_iff.mp failed
    obtain ⟨_, _, rfl⟩ := AsyncLogging.stopClear_enabled step
    cases failed
  | stopNotify =>
    obtain ⟨_, failed⟩ := Option.ite_none_right_eq_some.mp failed
    obtain ⟨result, step, failed⟩ := Option.map_eq_some_iff.mp failed
    obtain ⟨_, _, rfl⟩ := AsyncLogging.stopNotify_enabled step
    cases failed
  | join =>
    simp only [owning] at failed
    split at failed
    · rename_i n owner stopping
      rw [Owner, owner] at before
      have first : s.thread.joined = false := by
        by_contra twice
        obtain ⟨m, returned⟩ := before.2.2.2 (by simpa using twice)
        rw [stopping] at returned
        cases returned
      simp [Thread.join, before.2.2.1, first] at failed
    · cases failed
  | start | startTurn | waitTurn | stopCall =>
    obtain ⟨_, failed⟩ := Option.ite_none_right_eq_some.mp failed
    cases failed
  | joined | destroy =>
    simp only [owning] at failed
    split at failed <;> cases failed
  | _ => cases failed

theorem step_total {fault : Fault} (h : loggingThread.Reachable Short s) (short : Short s label) :
    s.step label ≠ some (.error fault) := by
  have inv := reachable_inv h
  intro failed
  unfold step at failed
  split at failed
  · rename_i result ran
    split at failed
    · -- the thread has not been created, or it has ended
      rename_i gone
      have finished : s.self = .notCreated ∨ s.self = .ended := by
        rcases inv.destroyed gone with owner | ⟨_, n, returned⟩
        · have before := inv.owner
          rw [Owner, owner] at before
          exact .inl before.1
        · exact .inr (inv.returned n returned)
      rcases finished with self | self
      · cases label <;> simp [running, self] at ran
      · cases label <;> simp [running, self] at ran
    · obtain rfl := Option.some.inj failed
      exact running_total h ran
  · split at failed
    · cases failed
    · exact owning_total h short failed

/-! ### The return of `start` -/

/-- The owner is in `start`, and the thread has been created. -/
def Starting (s : LoggingThread) : Prop := (s.owner = .starting ∨ s.owner = .waiting) ∧ s.self ≠ .notCreated

theorem Inv.alive (h : s.Inv) (starting : s.Starting) : s.destroyed = false := by
  by_contra gone
  rcases h.destroyed (by simpa using gone) with owner | ⟨owner, _⟩
  · rcases starting.1 with now | now <;> simp [owner] at now
  · rcases starting.1 with now | now <;> simp [owner] at now

theorem starting_next (label : Label) (h : loggingThread.Reachable Short s) (starting : s.Starting)
    (short : Short s label) (ran : s.running label = some (.ok s')) (owner : s'.owner = s.owner)
    (self : s'.self ≠ .notCreated) : loggingThread.Next Short s s' ∧ s'.Starting := by
  refine ⟨⟨label, short, ?_⟩, ?_, self⟩
  · change s.step label = _
    simp only [step, ran, (reachable_inv h).alive starting]
    rfl
  · rw [owner]
    exact starting.1

theorem thread_goes (h : loggingThread.Reachable Short s) (starting : s.Starting) (closed : s.self.funcCount ≠ 0) :
    ∃ t, loggingThread.Next Short s t ∧ t.Starting ∧ t.self.left < s.self.left := by
  have runs := ((reachable_inv h).owner.runs starting.2 closed).1
  cases self : s.self with
  | notCreated => exact absurd self starting.2
  | entry =>
    obtain ⟨next, after⟩ := starting_next .name h starting trivial (if_pos self) rfl (by rintro ⟨⟩)
    exact ⟨_, next, after, Nat.le_refl 4⟩
  | named =>
    obtain ⟨next, after⟩ := starting_next .countDown h starting trivial (if_pos self) rfl (by rintro ⟨⟩)
    exact ⟨_, next, after, Nat.le_refl 3⟩
  | counted =>
    obtain ⟨next, after⟩ := starting_next .callFunc h starting trivial (if_pos self) rfl (by rintro ⟨⟩)
    exact ⟨_, next, after, Nat.le_refl 2⟩
  | func =>
    have ran : s.running .threadFunc = some (.ok { s with latch := s.latch.countDown, self := .opening }) := by
      rw [running, if_pos self, if_pos runs]
    obtain ⟨next, after⟩ := starting_next .threadFunc h starting trivial ran rfl (by rintro ⟨⟩)
    exact ⟨_, next, after, Nat.le_refl 1⟩
  | opening | looping | ended =>
    rw [self] at closed
    exact absurd rfl closed

/-- The logging thread gets to its `countDown` in `threadFunc` by itself. -/
theorem thread_counts (n : Nat) (h : loggingThread.Reachable Short s) (starting : s.Starting) (few : s.self.left ≤ n) :
    ∃ t, loggingThread.Steps Short s t ∧ t.Starting ∧ t.self.funcCount = 0 := by
  induction n generalizing s with
  | zero =>
    by_cases opened : s.self.funcCount = 0
    · exact ⟨s, .refl, starting, opened⟩
    · obtain ⟨_, _, _, less⟩ := thread_goes h starting opened
      omega
  | succ n ih =>
    by_cases opened : s.self.funcCount = 0
    · exact ⟨s, .refl, starting, opened⟩
    · obtain ⟨t, next, after, less⟩ := thread_goes h starting opened
      obtain ⟨u, steps, rest⟩ := ih (h.steps (.single next)) after (by omega)
      exact ⟨u, .head next steps, rest⟩

theorem Inv.open (h : s.Inv) (opened : s.self.funcCount = 0) :
    (s.thread.latch.count ≤ 0 ∧ s.me ∉ s.thread.latch.condition) ∧ s.latch.count ≤ 0 ∧ s.me ∉ s.latch.condition := by
  have thread : s.thread.latch.count ≤ 0 := by
    rw [h.count]
    cases self : s.self <;> first | exact Int.le_refl 0 | (rw [self] at opened; cases opened)
  have func : s.latch.count ≤ 0 := by rw [h.funcCount, opened]
  refine ⟨⟨thread, ?_⟩, func, ?_⟩
  · rw [h.sleeper thread]
    exact Finset.notMem_empty _
  · rw [h.funcSleeper func]
    exact Finset.notMem_empty _

/-- With both latches open the owner leaves `start`. -/
theorem owner_leaves (h : loggingThread.Reachable Short s) (starting : s.Starting) (opened : s.self.funcCount = 0) :
    ∃ t, loggingThread.Steps Short s t ∧ t.owner = .user := by
  have inv := reachable_inv h
  have alive := inv.alive starting
  obtain ⟨⟨thread, awake⟩, func, awake'⟩ := inv.open opened
  have waits : ∀ a : LoggingThread, a.destroyed = false → a.owner = .waiting → a.latch.count ≤ 0 →
      a.me ∉ a.latch.condition → loggingThread.Next Short a { a with owner := .user } := by
    intro a alive owner opened awake
    refine ⟨.waitTurn, trivial, ?_⟩
    change a.step .waitTurn = _
    simp only [step, running, alive, owning, owner, awake, CountDownLatch.wait_open opened]
    rfl
  rcases starting.1 with owner | owner
  · have first : loggingThread.Next Short s { s with owner := .waiting } := by
      refine ⟨.startTurn, trivial, ?_⟩
      change s.step .startTurn = _
      simp only [step, running, alive, owning, owner, awake, CountDownLatch.wait_open thread]
      rfl
    exact ⟨_, .head first (.single (waits { s with owner := .waiting } alive rfl func awake')), rfl⟩
  · exact ⟨_, .single (waits s alive owner func awake'), rfl⟩

/-- Without a thread nobody counts down, and `start` stays where it is. -/
theorem failed_waits {t : LoggingThread} (h : loggingThread.Reachable Short s) (owner : s.owner = .waiting)
    (self : s.self = .notCreated) (steps : loggingThread.Steps Short s t) :
    t.owner = .waiting ∧ t.self = .notCreated := by
  refine Lib.Machine.Steps.invariant (P := fun a => a.owner = .waiting ∧ a.self = .notCreated) h ⟨owner, self⟩ ?_ steps
  rintro a label b reached ⟨owner, self⟩ _ step
  obtain ⟨_, effect⟩ := step_effect step
  have closed : 0 < a.latch.count := by
    rw [(reachable_inv reached).funcCount, self]
    exact Int.zero_lt_one
  cases effect with
  | waitTurn _ eq =>
    subst eq
    refine ⟨?_, self⟩
    rw [CountDownLatch.wait_closed closed]
    rfl
  | append _ _ _ eq | spurious eq =>
    subst eq
    exact ⟨owner, self⟩
  | start now | created _ _ now | failed _ now | startTurn now | stopCall now | stopClear _ now | stopNotify _ now
  | join _ _ now | joined _ now =>
    rw [owner] at now
    cases now
  | name now | countDown now | callFunc now | threadFunc now | openFile now | loop _ _ now | finish now =>
    rw [self] at now
    cases now
  | destroy finished =>
    rcases finished with now | ⟨now, _⟩
    · rw [owner] at now
      cases now
    · rw [owner] at now
      cases now

/-- Every run with the thread's creation, the two latches and the join taken step by step is a run of `asyncLogging`,
in which `start` is one step; and it fails no assertion and uses nothing that is destroyed. When `start` has returned
the thread is in `threadFunc` and `tid()` is its id; until then it can return, if the thread was created, and it
never does otherwise. When `stop` has returned the thread has ended. -/
theorem start_and_join (h : loggingThread.Reachable Short s) :
    asyncLogging.Reachable AsyncLogging.Short s.view ∧
    (∀ label fault, Short s label → s.step label ≠ some (.error fault)) ∧
    (s.owner = .user ∨ s.owner = .joining → s.thread.tid = s.id ∧ s.view.Entered) ∧
    (s.owner = .starting ∨ s.owner = .waiting → s.self ≠ .notCreated →
      ∃ t, loggingThread.Steps Short s t ∧ t.owner = .user) ∧
    (s.owner = .waiting → s.self = .notCreated → ∀ t, loggingThread.Steps Short s t → t.owner = .waiting) ∧
    ∀ n, s.logging.stopping = .returned n → s.self = .ended := by
  have inv := reachable_inv h
  refine ⟨reachable_view h, fun label fault => step_total h, fun finished => ?_, fun owner self => ?_, ?_, inv.returned⟩
  · have opened : s.self.funcCount = 0 := by
      have before := inv.owner
      unfold Owner at before
      rcases finished with owner | owner
      · rw [owner] at before
        exact before.1
      · rw [owner] at before
        exact before.1
    refine ⟨?_, view_entered inv opened⟩
    have tid := inv.tid
    cases self : s.self with
    | opening | looping | ended =>
      rw [self] at tid
      exact tid
    | notCreated | entry | named | counted | func =>
      rw [self] at opened
      cases opened
  · obtain ⟨t, steps, starting, opened⟩ := thread_counts 4 h ⟨owner, self⟩ (by cases s.self <;> decide)
    obtain ⟨u, more, left⟩ := owner_leaves (h.steps steps) starting opened
    exact ⟨u, steps.trans more, left⟩
  · intro owner self t steps
    exact (failed_waits h owner self steps).1

/-- The owner sleeps at both latches, wakes up once for nothing, and calls `stop` before the file is open. -/
theorem start_and_join_early : ∃ s : LoggingThread, s.logging.stopping = .returned 1 ∧ s.self = .ended ∧
    asyncLogging.Reachable AsyncLogging.Short s.view := by
  obtain ⟨s, reached, returned⟩ := Lib.Machine.exec_reaches loggingThread Short { me := 1 }
    [.start, .create (some 7), .startTurn, .spurious, .startTurn, .name, .countDown, .startTurn, .waitTurn, .callFunc,
      .threadFunc, .waitTurn, .append [10], .stopCall, .stopClear, .openFile, .stopNotify, .loop .test, .join, .finish,
      .joined, .destroy]
    (fun s => s.logging.stopping = .returned 1) ⟨1, rfl⟩ (by decide +kernel)
  obtain ⟨view, _, _, _, _, ended⟩ := start_and_join reached
  exact ⟨s, returned, ended 1 returned, view⟩

/-- When `pthread_create` fails, `start` does not return. -/
example : ∃ s, loggingThread.Reachable Short s ∧ s.owner = .waiting ∧ s.self = .notCreated :=
  Lib.Machine.exec_reaches loggingThread Short { me := 1 } [.start, .create none, .waitTurn, .spurious, .waitTurn]
    (fun s => s.owner = .waiting ∧ s.self = .notCreated) ⟨1, rfl⟩ (by decide +kernel)

end LoggingThread

end Dserver
