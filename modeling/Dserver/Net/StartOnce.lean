import Dserver.Net.ServerStart
import Mathlib.Algebra.BigOperators.Group.Finset.Basic
import Mathlib.Algebra.Order.BigOperators.Group.Finset
import Mathlib.Order.Interval.Finset.Nat
import Mathlib.Data.Fintype.EquivFin

/-!
# One call of `start()`

In the first call the acceptors are made in the order of the loops, so that acceptor `i` belongs to loop `i`. Each goes
through the same stages: it is made, installed, queued and at last listens, in the thread of its loop. A second call finds
an acceptor in the first loop and destroys it in the wrong thread.
-/

namespace Dserver.Net

namespace Startup

/-- What there is of acceptor `i` and of loop `i`. -/
structure Slot where
  object : Option Acceptor
  installed : Option Nat
  queue : Lib.BatchQueue Nat
  poller : Poller

def slot (s : Startup) (i : Nat) : Slot := ⟨s.acceptors i, s.acceptor i, s.queues i, s.pollers i⟩

namespace Slot

def fresh (i : Nat) (fd : Fd) : Acceptor := { loop := i, channel := { fd } }

def Absent (v : Slot) : Prop := v.object = none ∧ v.installed = none ∧ v.queue.waiting = [] ∧ v.poller = {}

def Made (i : Nat) (v : Slot) : Prop :=
  (∃ fd, v.object = some (fresh i fd)) ∧ v.installed = none ∧ v.queue.waiting = [] ∧ v.poller = {}

def Installed (i : Nat) (v : Slot) : Prop :=
  (∃ fd, v.object = some (fresh i fd)) ∧ v.installed = some i ∧ v.queue.waiting = [] ∧ v.poller = {}

def Queued (i : Nat) (v : Slot) : Prop :=
  (∃ fd, v.object = some (fresh i fd)) ∧ v.installed = some i ∧ v.queue.waiting = [i] ∧ v.poller = {}

def Listening (i : Nat) (v : Slot) : Prop :=
  (∃ acc, v.object = some acc ∧ acc.loop = i ∧ acc.destroyed = false ∧ acc.listening = true ∧ acc.listens = 1 ∧
    acc.channel.isReading = true ∧ v.poller.epoll acc.channel.fd = some (acc.channel.events, i)) ∧
  v.installed = some i ∧ v.queue.waiting = []

def work (v : Slot) : Nat := 2 * v.queue.pending.length + v.queue.batch.length

end Slot

/-- One call of `start()` has begun, and the pool is started. -/
structure Begun (k : Nat) (s : Startup) : Prop where
  calls : s.calls + 1 = k
  started : s.started = true
  poolStarted : s.poolStarted = true

/-- How far the first call has come when `m` acceptors are queued. -/
def At (n k : Nat) (s : Startup) (m : Nat) : Prop :=
  match s.caller with
  | .idle => s.created = m ∧ (s.slot m).Absent ∧
      ((s.calls = k ∧ s.started = false ∧ s.poolStarted = false ∧ s.loops = [] ∧ m = 0) ∨
        (s.Begun k ∧ s.loops = List.range n ∧ m = n))
  | .spawning i => s.created = m ∧ (s.slot m).Absent ∧ s.Begun k ∧ s.loops = List.range i ∧ i ≤ n ∧ m = 0
  | .installing rest => s.created = m ∧ (s.slot m).Absent ∧ s.Begun k ∧ s.loops = List.range n ∧ m ≤ n ∧
      rest = List.range' m (n - m)
  | .holding loop id rest => s.created = m + 1 ∧ (s.slot m).Made m ∧ s.Begun k ∧ s.loops = List.range n ∧ m < n ∧
      loop = m ∧ id = m ∧ rest = List.range' (m + 1) (n - (m + 1))
  | .queueing loop id rest => s.created = m + 1 ∧ (s.slot m).Installed m ∧ s.Begun k ∧ s.loops = List.range n ∧ m < n ∧
      loop = m ∧ id = m ∧ rest = List.range' (m + 1) (n - (m + 1))

/-- No second call of `start()` has begun. -/
structure First (n k : Nat) (s : Startup) (m : Nat) : Prop where
  threads : s.numThreads = n
  low : ∀ i < m, (s.slot i).Queued i ∨ (s.slot i).Listening i
  high : ∀ i, m < i → (s.slot i).Absent
  stage : At n k s m

def callerWork (n : Nat) (s : Startup) : Nat :=
  s.calls * (7 * n + 4) +
    match s.caller with
    | .idle => 0
    | .spawning i => (n - i) + 6 * n + 3
    | .installing rest => 6 * rest.length + 1
    | .holding _ _ rest => 6 * rest.length + 6
    | .queueing _ _ rest => 6 * rest.length + 5

def work (n : Nat) (s : Startup) : Nat := s.callerWork n + ∑ i ∈ Finset.range n, (s.slot i).work

def Effect (s : Startup) (r : Except Fault Startup) : Label → Prop
  | .start => s.caller = .idle ∧ 0 < s.calls ∧ r = s.start
  | .spawn => ∃ i, s.caller = .spawning i ∧ r = s.spawn i
  | .create fd => ∃ loop rest, s.caller = .installing (loop :: rest) ∧ r = .ok (s.create loop rest fd)
  | .setAcceptor => ∃ loop id rest, s.caller = .holding loop id rest ∧
      r = (s.setAcceptor mainThread loop id).map fun s => { s with caller := .queueing loop id rest }
  | .runInLoop => ∃ loop id rest, s.caller = .queueing loop id rest ∧
      r = (s.runInLoop mainThread loop id).map fun s => { s with caller := .installing rest }
  | .finish => s.caller = .installing [] ∧ r = .ok { s with caller := .idle }
  | .doPendingFunctors loop => loop ∈ s.loops ∧ (s.queues loop).batch = [] ∧ (s.queues loop).pending ≠ [] ∧
      r = .ok { s with queues := Function.update s.queues loop (s.queues loop).swap }
  | .runFunctor loop => loop ∈ s.loops ∧ ∃ id rest, (s.queues loop).batch = id :: rest ∧
      r = { s with queues := Function.update s.queues loop ((s.queues loop).pop id rest) }.listen (loopThread loop) id

variable {n k m : Nat} {s t : Startup} {label : Label} {r : Except Fault Startup} {i : Nat}

theorem step_effect (h : s.step label = some r) : s.Effect r label := by
  cases label with
  | start =>
    simp only [step] at h
    split at h
    · rename_i caller
      split at h
      · rename_i more
        exact ⟨caller, more, (Option.some.inj h).symm⟩
      · cases h
    · cases h
  | spawn =>
    simp only [step] at h
    split at h
    · rename_i i caller
      exact ⟨i, caller, (Option.some.inj h).symm⟩
    · cases h
  | create fd =>
    simp only [step] at h
    split at h
    · rename_i loop rest caller
      split at h
      · exact ⟨loop, rest, caller, (Option.some.inj h).symm⟩
      · cases h
    · cases h
  | setAcceptor =>
    simp only [step] at h
    split at h
    · rename_i loop id rest caller
      exact ⟨loop, id, rest, caller, (Option.some.inj h).symm⟩
    · cases h
  | runInLoop =>
    simp only [step] at h
    split at h
    · rename_i loop id rest caller
      exact ⟨loop, id, rest, caller, (Option.some.inj h).symm⟩
    · cases h
  | finish =>
    simp only [step] at h
    split at h
    · rename_i caller
      exact ⟨caller, (Option.some.inj h).symm⟩
    · cases h
  | doPendingFunctors loop =>
    simp only [step] at h
    split at h
    · rename_i ready
      exact ⟨ready.1, ready.2.1, ready.2.2, (Option.some.inj h).symm⟩
    · cases h
  | runFunctor loop =>
    simp only [step] at h
    split at h
    · rename_i id rest batch
      split at h
      · rename_i member
        exact ⟨member, id, rest, batch, (Option.some.inj h).symm⟩
      · cases h
    · cases h

/-! ### One loop -/

@[simp] theorem setObject_self (s : Startup) (id : Nat) (acc : Acceptor) :
    (s.setObject id acc).acceptors id = some acc := Function.update_self _ _ _

theorem setObject_setObject (s : Startup) (id : Nat) (first second : Acceptor) :
    (s.setObject id first).setObject id second = s.setObject id second := by
  simp only [setObject, Function.update_idem]

theorem onAcceptor_eq {id : Nat} {acc : Acceptor} {body : Acceptor → Except Fault Startup}
    (object : s.acceptors id = some acc) (alive : acc.destroyed = false) : s.onAcceptor id body = body acc := by
  rw [onAcceptor, object]
  dsimp only
  rw [if_neg (by rw [alive]; decide)]

theorem onChannel_eq {id : Nat} {acc : Acceptor} {channel : Channel} {poller : Poller}
    {op : Poller → ChannelId → Channel → Except Poller.Fault (Channel × Poller)} (object : s.acceptors id = some acc)
    (alive : acc.destroyed = false) (ran : op (s.pollers acc.loop) id acc.channel = .ok (channel, poller)) :
    s.onChannel (loopThread acc.loop) id op =
      .ok { s.setObject id { acc with channel } with pollers := Function.update s.pollers acc.loop poller } := by
  rw [onChannel, onAcceptor_eq object alive, assertInLoopThread, if_pos rfl, Lib.ok_bind, ran]

theorem listen_fresh {fd : Fd} (object : s.acceptors i = some (Slot.fresh i fd)) (empty : s.pollers i = {}) :
    ∃ acc p, s.listen (loopThread i) i = .ok { s.setObject i acc with pollers := Function.update s.pollers i p } ∧
      acc.loop = i ∧ acc.destroyed = false ∧ acc.listening = true ∧ acc.listens = 1 ∧ acc.channel.isReading = true ∧
      p.epoll acc.channel.fd = some (acc.channel.events, i) := by
  have unknown : Consistent {} i { fd } := ⟨rfl, rfl, by simp⟩
  obtain ⟨p, enabled, watched, -⟩ := toggle_spec unknown fun events => events ||| Channel.kReadEvent
  refine ⟨{ Slot.fresh i fd with
    listening := true, listens := 1, channel := Channel.toggled (fun events => events ||| Channel.kReadEvent) { fd } }, p,
    ?_, rfl, rfl, rfl, rfl, Channel.test_or_self (by decide), watched.epoll⟩
  have inside : assertInLoopThread (loopThread i) (Slot.fresh i fd).loop = .ok () := if_pos rfl
  have enabled : Channel.enableReading (s.pollers i) i { fd } = _ := empty ▸ enabled
  have marked := onChannel_eq (setObject_self s i { Slot.fresh i fd with listening := true, listens := 1 }) rfl enabled
  rw [setObject_setObject] at marked
  rw [listen, onAcceptor_eq object rfl, inside, Lib.ok_bind]
  exact marked

/-! ### The first call -/

/-- A step of a loop: the caller and the pool are where they were. -/
structure SameCaller (s t : Startup) : Prop where
  threads : t.numThreads = s.numThreads
  caller : t.caller = s.caller
  calls : t.calls = s.calls
  started : t.started = s.started
  poolStarted : t.poolStarted = s.poolStarted
  loops : t.loops = s.loops
  created : t.created = s.created

theorem SameCaller.work (same : s.SameCaller t) : t.callerWork n = s.callerWork n := by
  rw [callerWork, callerWork, same.calls, same.caller]

theorem At.congr (h : At n k s m) (same : s.SameCaller t) (slot : t.slot m = s.slot m) : At n k t m := by
  obtain ⟨-, caller, calls, started, poolStarted, loops, created⟩ := same
  have begun : t.Begun k ↔ s.Begun k := by
    constructor
    · rintro ⟨first, second, third⟩
      exact ⟨calls ▸ first, started ▸ second, poolStarted ▸ third⟩
    · rintro ⟨first, second, third⟩
      exact ⟨calls.symm ▸ first, started.symm ▸ second, poolStarted.symm ▸ third⟩
  simp only [At, caller, calls, started, poolStarted, loops, created, slot, begun] at h ⊢
  exact h

theorem At.waiting (h : At n k s m) : (s.slot m).queue.waiting = [] := by
  unfold At at h
  split at h
  · exact h.2.1.2.2.1
  · exact h.2.1.2.2.1
  · exact h.2.1.2.2.1
  · exact h.2.1.2.2.1
  · exact h.2.1.2.2.1

theorem At.le (h : At n k s m) : m ≤ n := by
  unfold At at h
  split at h
  · rcases h.2.2 with ⟨_, _, _, _, zero⟩ | ⟨_, _, all⟩ <;> omega
  · omega
  · omega
  · omega
  · omega

/-- Only the loop of an acceptor that is queued has something to run. -/
theorem First.queued (h : First n k s m) (some : (s.queues i).waiting ≠ []) : i < m ∧ (s.slot i).Queued i := by
  rcases Nat.lt_trichotomy i m with less | rfl | more
  · rcases h.low i less with queued | listening
    · exact ⟨less, queued⟩
    · exact absurd listening.2.2 some
  · exact absurd h.stage.waiting some
  · exact absurd (h.high i more).2.2.1 some

theorem work_lt_of_slot (inside : i < n) (others : ∀ j, j ≠ i → t.slot j = s.slot j)
    (less : t.callerWork n + (t.slot i).work < s.callerWork n + (s.slot i).work) : t.work n < s.work n := by
  have member : i ∈ Finset.range n := Finset.mem_range.mpr inside
  have same : ∑ j ∈ (Finset.range n).erase i, (t.slot j).work = ∑ j ∈ (Finset.range n).erase i, (s.slot j).work :=
    Finset.sum_congr rfl fun j other => by rw [others j (Finset.ne_of_mem_erase other)]
  have before := Finset.add_sum_erase (Finset.range n) (fun j => (s.slot j).work) member
  have after := Finset.add_sum_erase (Finset.range n) (fun j => (t.slot j).work) member
  unfold work
  omega

theorem work_lt_of_caller (slots : ∀ j, (t.slot j).work = (s.slot j).work) (less : t.callerWork n < s.callerWork n) :
    t.work n < s.work n := by
  unfold work
  rw [Finset.sum_congr rfl fun j _ => slots j]
  omega

def Advances (n k : Nat) (s : Startup) (r : Except Fault Startup) : Prop :=
  ∃ t m, r = .ok t ∧ First n k t m ∧ t.work n < s.work n

theorem First.touch (h : First n k s m) (less : i < m) (same : s.SameCaller t)
    (others : ∀ j, j ≠ i → t.slot j = s.slot j) (active : (t.slot i).Queued i ∨ (t.slot i).Listening i) :
    First n k t m := by
  refine ⟨same.threads.trans h.threads, fun j below => ?_, fun j above => ?_, ?_⟩
  · by_cases own : j = i
    · subst own
      exact active
    · rw [others j own]
      exact h.low j below
  · rw [others j (by omega)]
    exact h.high j above
  · exact h.stage.congr same (others m (by omega))

theorem First.doPendingFunctors (h : First n k s m) (empty : (s.queues i).batch = [])
    (some : (s.queues i).pending ≠ []) :
    Advances n k s (.ok { s with queues := Function.update s.queues i (s.queues i).swap }) := by
  have waiting : (s.queues i).waiting ≠ [] := by
    rw [Lib.BatchQueue.waiting, empty, List.nil_append]
    exact some
  obtain ⟨less, object, installed, queue, poller⟩ := h.queued waiting
  have others : ∀ j, j ≠ i → slot { s with queues := Function.update s.queues i (s.queues i).swap } j = s.slot j := by
    intro j other
    simp only [slot, Function.update_of_ne other]
  have own : slot { s with queues := Function.update s.queues i (s.queues i).swap } i =
      { s.slot i with queue := (s.queues i).swap } := by
    simp only [slot, Function.update_self]
  refine ⟨_, m, rfl, h.touch less ⟨rfl, rfl, rfl, rfl, rfl, rfl, rfl⟩ others (.inl ?_), ?_⟩
  · rw [own]
    exact ⟨object, installed, (Lib.BatchQueue.swap_waiting empty).trans queue, poller⟩
  · refine work_lt_of_slot (Nat.lt_of_lt_of_le less h.stage.le) others ?_
    have positive := List.length_pos_iff.mpr some
    rw [own]
    simp only [Slot.work, Lib.BatchQueue.swap, slot, empty, List.length_nil, callerWork]
    omega

theorem First.runFunctor (h : First n k s m) {id : Nat} {rest : List Nat} (batch : (s.queues i).batch = id :: rest) :
    Advances n k s
      (({ s with queues := Function.update s.queues i ((s.queues i).pop id rest) } : Startup).listen (loopThread i) id) := by
  have popped := Lib.BatchQueue.pop_waiting batch
  have waiting : (s.queues i).waiting ≠ [] := by
    rw [popped]
    exact List.cons_ne_nil _ _
  obtain ⟨less, ⟨fd, object⟩, installed, queue, poller⟩ := h.queued waiting
  have queue : (s.queues i).waiting = [i] := queue
  rw [popped] at queue
  obtain ⟨rfl, emptied⟩ := List.cons.inj queue
  obtain ⟨acc, p, ran, known⟩ := listen_fresh
    (s := { s with queues := Function.update s.queues id ((s.queues id).pop id rest) }) object poller
  obtain ⟨loop, alive, listening, once, reading, watched⟩ := known
  generalize result : ({ setObject { s with queues := Function.update s.queues id ((s.queues id).pop id rest) } id acc with
    pollers := Function.update s.pollers id p } : Startup) = t at ran
  have others : ∀ j, j ≠ id → t.slot j = s.slot j := by
    intro j other
    rw [← result]
    simp only [slot, setObject, Function.update_of_ne other]
  have own : t.slot id = ⟨some acc, s.acceptor id, (s.queues id).pop id rest, p⟩ := by
    rw [← result]
    simp only [slot, setObject, Function.update_self]
  have same : s.SameCaller t := by
    rw [← result]
    exact ⟨rfl, rfl, rfl, rfl, rfl, rfl, rfl⟩
  refine ⟨t, m, ran, h.touch less same others (.inr ?_), ?_⟩
  · rw [own]
    exact ⟨⟨acc, rfl, loop, alive, listening, once, reading, watched⟩, installed, emptied⟩
  · refine work_lt_of_slot (Nat.lt_of_lt_of_le less h.stage.le) others ?_
    rw [own, same.work]
    simp only [Slot.work, Lib.BatchQueue.pop, slot, batch, List.length_cons]
    omega

theorem First.start (h : First n k s m) (caller : s.caller = .idle) (more : 0 < s.calls) (one : s.calls = k) :
    Advances n k s s.start := by
  have stage := h.stage
  rw [At, caller] at stage
  obtain ⟨created, absent, ⟨_, started, poolStarted, loops, none⟩ | ⟨begun, _⟩⟩ := stage
  · have ran : s.start = .ok { s with
        started := true, calls := s.calls - 1, poolStarted := true, caller := .spawning 0 } := by
      rw [Startup.start]
      simp only [started, poolStarted, Bool.not_false, Bool.false_eq_true, if_true, if_false]
    refine ⟨_, m, ran, ⟨h.threads, h.low, h.high, ?_⟩, work_lt_of_caller (fun _ => rfl) ?_⟩
    · exact ⟨created, absent, ⟨show s.calls - 1 + 1 = k by omega, rfl, rfl⟩, loops, Nat.zero_le _, none⟩
    · have split : s.calls * (7 * n + 4) = (s.calls - 1) * (7 * n + 4) + (7 * n + 4) := by
        rw [← Nat.succ_mul, Nat.succ_eq_add_one, Nat.sub_add_cancel more]
      simp only [callerWork, caller]
      omega
  · have calls := begun.calls
    omega

theorem First.spawn (h : First n k s m) (caller : s.caller = .spawning i) : Advances n k s (s.spawn i) := by
  have stage := h.stage
  rw [At, caller] at stage
  obtain ⟨created, absent, begun, loops, le, none⟩ := stage
  by_cases more : i < n
  · have ran : s.spawn i = .ok { s with loops := s.loops ++ [i], caller := .spawning (i + 1) } := by
      rw [Startup.spawn, h.threads, if_pos more]
    refine ⟨_, m, ran, ⟨h.threads, h.low, h.high, ?_⟩, work_lt_of_caller (fun _ => rfl) ?_⟩
    · refine ⟨created, absent, ⟨begun.calls, begun.started, begun.poolStarted⟩, ?_, more, none⟩
      show s.loops ++ [i] = List.range (i + 1)
      rw [loops, List.range_succ]
    · simp only [callerWork, caller]
      omega
  · have all : i = n := by omega
    have ran : s.spawn i = .ok { s with caller := .installing s.loops } := by
      rw [Startup.spawn, h.threads, if_neg more, if_pos begun.poolStarted]
    refine ⟨_, m, ran, ⟨h.threads, h.low, h.high, ?_⟩, work_lt_of_caller (fun _ => rfl) ?_⟩
    · refine ⟨created, absent, ⟨begun.calls, begun.started, begun.poolStarted⟩, all ▸ loops, by omega, ?_⟩
      rw [loops, none, all, List.range_eq_range', Nat.sub_zero]
    · simp only [callerWork, caller, loops, List.length_range]
      omega

theorem First.move (h : First n k s m) (threads : t.numThreads = s.numThreads)
    (others : ∀ j, j ≠ m → t.slot j = s.slot j) (stage : At n k t m) : First n k t m := by
  refine ⟨threads.trans h.threads, fun j below => ?_, fun j above => ?_, stage⟩
  · rw [others j (by omega)]
    exact h.low j below
  · rw [others j (by omega)]
    exact h.high j above

theorem First.create (h : First n k s m) {loop : Nat} {rest : List Nat} (caller : s.caller = .installing (loop :: rest))
    (fd : Fd) : Advances n k s (.ok (s.create loop rest fd)) := by
  have stage := h.stage
  rw [At, caller] at stage
  obtain ⟨created, ⟨object, installed, queue, poller⟩, begun, loops, le, left⟩ := stage
  have less : m < n := by
    by_contra all
    rw [show n - m = 0 by omega] at left
    cases left
  rw [show n - m = (n - (m + 1)) + 1 by omega, List.range'_succ] at left
  obtain ⟨rfl, rfl⟩ := List.cons.inj left
  have others : ∀ j, j ≠ loop → (s.create loop (List.range' (loop + 1) (n - (loop + 1))) fd).slot j = s.slot j := by
    intro j other
    simp only [slot, Startup.create, setObject, created, Function.update_of_ne other]
  have own : (s.create loop (List.range' (loop + 1) (n - (loop + 1))) fd).slot loop =
      { s.slot loop with object := some (Slot.fresh loop fd) } := by
    simp only [slot, Startup.create, setObject, created, Function.update_self, Slot.fresh]
  refine ⟨_, loop, rfl, h.move rfl others ?_, work_lt_of_slot less others ?_⟩
  · refine ⟨congrArg (· + 1) created, ?_, ⟨begun.calls, begun.started, begun.poolStarted⟩, loops, less, rfl, created, rfl⟩
    rw [own]
    exact ⟨⟨fd, rfl⟩, installed, queue, poller⟩
  · rw [own]
    simp only [callerWork, caller, Startup.create, setObject, Slot.work, slot, List.length_cons, List.length_range']
    omega

theorem First.setAcceptor (h : First n k s m) {loop id : Nat} {rest : List Nat}
    (caller : s.caller = .holding loop id rest) :
    Advances n k s
      ((s.setAcceptor mainThread loop id).map fun s => { s with caller := .queueing loop id rest }) := by
  have stage := h.stage
  rw [At, caller] at stage
  obtain ⟨created, ⟨⟨fd, object⟩, installed, queue, poller⟩, begun, loops, less, rfl, same, left⟩ := stage
  subst same
  have vacant : s.acceptor id = none := installed
  have ran : s.setAcceptor mainThread id id = .ok { s with acceptor := Function.update s.acceptor id (some id) } := by
    rw [Startup.setAcceptor, vacant]
    have made : s.acceptors id = some (Slot.fresh id fd) := object
    exact onAcceptor_eq made rfl
  rw [ran]
  have others : ∀ j, j ≠ id → slot { s with
      acceptor := Function.update s.acceptor id (some id), caller := .queueing id id rest } j = s.slot j := by
    intro j other
    simp only [slot, Function.update_of_ne other]
  have own : slot { s with
      acceptor := Function.update s.acceptor id (some id), caller := .queueing id id rest } id =
      { s.slot id with installed := some id } := by
    simp only [slot, Function.update_self]
  refine ⟨_, id, rfl, h.move rfl others ?_, work_lt_of_slot less others ?_⟩
  · refine ⟨created, ?_, ⟨begun.calls, begun.started, begun.poolStarted⟩, loops, less, rfl, rfl, left⟩
    rw [own]
    exact ⟨⟨fd, object⟩, rfl, queue, poller⟩
  · rw [own]
    simp only [callerWork, caller, Slot.work, slot]
    omega

theorem First.runInLoop (h : First n k s m) {loop id : Nat} {rest : List Nat}
    (caller : s.caller = .queueing loop id rest) :
    Advances n k s
      ((s.runInLoop mainThread loop id).map fun s => { s with caller := .installing rest }) := by
  have stage := h.stage
  rw [At, caller] at stage
  obtain ⟨created, ⟨object, installed, queue, poller⟩, begun, loops, less, rfl, same, left⟩ := stage
  subst same
  have ran : s.runInLoop mainThread id id =
      .ok { s with queues := Function.update s.queues id ((s.queues id).push id) } := by
    rw [Startup.runInLoop, if_neg (by simp [mainThread, loopThread])]
  rw [ran]
  have others : ∀ j, j ≠ id → slot { s with
      queues := Function.update s.queues id ((s.queues id).push id), caller := .installing rest } j = s.slot j := by
    intro j other
    simp only [slot, Function.update_of_ne other]
  have own : slot { s with
      queues := Function.update s.queues id ((s.queues id).push id), caller := .installing rest } id =
      { s.slot id with queue := (s.queues id).push id } := by
    simp only [slot, Function.update_self]
  have empty : (s.queues id).waiting = [] := queue
  refine ⟨_, id + 1, rfl, ⟨h.threads, fun j below => ?_, fun j above => ?_, ?_⟩, work_lt_of_slot less others ?_⟩
  · by_cases same : j = id
    · subst same
      rw [own]
      refine .inl ⟨object, installed, ?_, poller⟩
      rw [Lib.BatchQueue.push_waiting, empty, List.nil_append]
    · rw [others j same]
      exact h.low j (by omega)
  · rw [others j (by omega)]
    exact h.high j (by omega)
  · refine ⟨created, ?_, ⟨begun.calls, begun.started, begun.poolStarted⟩, loops, less, left⟩
    rw [others (id + 1) (by omega)]
    exact h.high (id + 1) (by omega)
  · rw [own]
    simp only [callerWork, caller, Slot.work, slot, Lib.BatchQueue.push, List.length_append, List.length_singleton]
    omega

theorem First.finish (h : First n k s m) (caller : s.caller = .installing []) :
    Advances n k s (.ok { s with caller := .idle }) := by
  have stage := h.stage
  rw [At, caller] at stage
  obtain ⟨created, absent, begun, loops, le, left⟩ := stage
  have all : m = n := by
    have none := congrArg List.length left
    rw [List.length_nil, List.length_range'] at none
    omega
  refine ⟨_, m, rfl, ⟨h.threads, h.low, h.high, ?_⟩, work_lt_of_caller (fun _ => rfl) ?_⟩
  · exact ⟨created, absent, .inr ⟨⟨begun.calls, begun.started, begun.poolStarted⟩, loops, all⟩⟩
  · simp only [callerWork, caller]
    omega

theorem First.step (h : First n k s m) (one : label = .start → s.calls = k) (step : s.step label = some r) :
    Advances n k s r := by
  have effect := step_effect step
  cases label with
  | start =>
    obtain ⟨caller, more, rfl⟩ := effect
    exact h.start caller more (one rfl)
  | spawn =>
    obtain ⟨i, caller, rfl⟩ := effect
    exact h.spawn caller
  | create fd =>
    obtain ⟨loop, rest, caller, rfl⟩ := effect
    exact h.create caller fd
  | setAcceptor =>
    obtain ⟨loop, id, rest, caller, rfl⟩ := effect
    exact h.setAcceptor caller
  | runInLoop =>
    obtain ⟨loop, id, rest, caller, rfl⟩ := effect
    exact h.runInLoop caller
  | finish =>
    obtain ⟨caller, rfl⟩ := effect
    exact h.finish caller
  | doPendingFunctors loop =>
    obtain ⟨_, empty, some, rfl⟩ := effect
    exact h.doPendingFunctors empty some
  | runFunctor loop =>
    obtain ⟨_, id, rest, batch, rfl⟩ := effect
    exact h.runFunctor batch

/-! ### Runs -/

theorem First.initial (n k : Nat) : First n k { numThreads := n, calls := k } 0 :=
  ⟨rfl, fun i below => absurd below (Nat.not_lt_zero i), fun _ _ => ⟨rfl, rfl, rfl, rfl⟩,
    ⟨rfl, ⟨rfl, rfl, rfl, rfl⟩, .inl ⟨rfl, rfl, rfl, rfl, rfl⟩⟩⟩

theorem First.calls (h : First n k s m) : s.calls = k ∨ s.calls + 1 = k := by
  have stage := h.stage
  unfold At at stage
  split at stage
  · rcases stage.2.2 with before | after
    · exact .inl before.1
    · exact .inr after.1.calls
  · exact .inr stage.2.2.1.calls
  · exact .inr stage.2.2.1.calls
  · exact .inr stage.2.2.1.calls
  · exact .inr stage.2.2.1.calls

theorem First.step_once (h : First n 1 s m) (step : s.step label = some r) : Advances n 1 s r := by
  refine h.step (fun same => ?_) step
  subst same
  obtain ⟨_, more, _⟩ := step_effect step
  have calls := h.calls
  omega

theorem first_of_reachable (h : (startup n 1).Reachable Lib.Machine.anyStep s) : ∃ m, First n 1 s m := by
  refine h.invariant (P := fun s => ∃ m, First n 1 s m) ?_ ?_
  · rintro s rfl
    exact ⟨0, .initial n 1⟩
  · rintro s label t - ⟨m, first⟩ - step
    obtain ⟨t', m', same, first', -⟩ := first.step_once step
    obtain rfl := Except.ok.inj same
    exact ⟨m', first'⟩

theorem First.acc (h : First n 1 s m) : Acc (fun t u => (startup n 1).Next Lib.Machine.anyStep u t) s := by
  induction left : s.work n using Nat.strong_induction_on generalizing s m with
  | _ w ih =>
    refine ⟨s, fun t next => ?_⟩
    obtain ⟨label, -, step⟩ := next
    obtain ⟨t', m', same, first, less⟩ := h.step_once step
    obtain rfl := Except.ok.inj same
    exact ih _ (left ▸ less) first rfl

theorem exists_free (s : Startup) : ∃ fd, s.mayOpen fd = true := by
  obtain ⟨fd, unused⟩ := Infinite.exists_notMem_finset
    ((List.range s.created).filterMap fun id => (s.acceptors id).map fun acc => acc.channel.fd).toFinset
  refine ⟨fd, List.all_eq_true.mpr fun id member => ?_⟩
  cases object : s.acceptors id with
  | none => rfl
  | some acc =>
    have different : acc.channel.fd ≠ fd := by
      rintro rfl
      apply unused
      rw [List.mem_toFinset, List.mem_filterMap]
      exact ⟨id, member, by rw [object]; rfl⟩
    simp [different]

theorem idle_of_stuck (stuck : ∀ label, s.step label = none) :
    s.caller = .idle ∧ s.calls = 0 ∧ ∀ i ∈ s.loops, (s.queues i).waiting = [] := by
  have caller : s.caller = .idle := by
    cases caller : s.caller with
    | idle => rfl
    | spawning i =>
      have step := stuck .spawn
      simp [Startup.step, caller] at step
    | installing rest =>
      cases rest with
      | nil =>
        have step := stuck .finish
        simp [Startup.step, caller] at step
      | cons loop rest =>
        obtain ⟨fd, free⟩ := exists_free s
        have step := stuck (.create fd)
        simp [Startup.step, caller, free] at step
    | holding loop id rest =>
      have step := stuck .setAcceptor
      simp [Startup.step, caller] at step
    | queueing loop id rest =>
      have step := stuck .runInLoop
      simp [Startup.step, caller] at step
  refine ⟨caller, ?_, fun i member => ?_⟩
  · have step := stuck .start
    simpa [Startup.step, caller] using step
  · have run := stuck (.runFunctor i)
    have swap := stuck (.doPendingFunctors i)
    have batch : (s.queues i).batch = [] := by
      cases batch : (s.queues i).batch with
      | nil => rfl
      | cons id rest => simp [Startup.step, batch, member] at run
    have pending : (s.queues i).pending = [] := by simpa [Startup.step, batch, member] using swap
    rw [Lib.BatchQueue.waiting, batch, pending, List.nil_append]

theorem First.serving (h : First n 1 s m) (positive : 1 ≤ n) (stuck : ∀ label, s.step label = none) : s.Serving := by
  obtain ⟨caller, calls, empty⟩ := idle_of_stuck stuck
  have stage := h.stage
  rw [At, caller] at stage
  obtain ⟨_, absent, ⟨before, _⟩ | ⟨_, loops, rfl⟩⟩ := stage
  · omega
  have listening : ∀ i < m, (s.slot i).Listening i := by
    intro i below
    rcases h.low i below with queued | listening
    · have waiting := empty i (by rw [loops]; exact List.mem_range.mpr below)
      have same : (s.queues i).waiting = [i] := queued.2.2.1
      rw [waiting] at same
      cases same
    · exact listening
  have below : ∀ id acc, s.acceptors id = some acc → id < m := by
    intro id acc object
    by_contra above
    rcases Nat.lt_or_eq_of_le (Nat.le_of_not_lt above) with more | rfl
    · have none : s.acceptors id = none := (h.high id more).1
      rw [none] at object
      cases object
    · have none : s.acceptors m = none := absent.1
      rw [none] at object
      cases object
  refine ⟨fun loop less => ?_, ?_, fun id acc object => ?_⟩
  · rw [h.threads] at less
    obtain ⟨⟨acc, object, belongs, alive, listens, _, reading, watched⟩, installed, _⟩ := listening loop less
    refine ⟨loop, acc, installed, object, belongs, alive, listens, reading, watched, ?_⟩
    intro other acc' object' belongs' _
    obtain ⟨⟨found, there, own, _⟩, _⟩ := listening other (below other acc' object')
    obtain rfl := Option.some.inj (there.symm.trans object')
    exact own.symm.trans belongs'
  · obtain ⟨⟨acc, object, _, _, listens, _⟩, installed, _⟩ := listening 0 positive
    exact ⟨0, 0, acc, installed, object, listens⟩
  · obtain ⟨⟨found, there, _, _, _, once, _⟩, _⟩ := listening id (below id acc object)
    obtain rfl := Option.some.inj (there.symm.trans object)
    exact once

/-! ### No threads, no call, a second call -/

structure Barren (s : Startup) : Prop where
  acceptors : ∀ id, s.acceptors id = none
  loops : s.loops = []
  caller : (s.numThreads = 0 ∧ (s.caller = .idle ∨ (∃ i, s.caller = .spawning i) ∨ s.caller = .installing [])) ∨
    (s.calls = 0 ∧ s.caller = .idle)

theorem Barren.step (h : s.Barren) (step : s.step label = some (.ok t)) : t.Barren := by
  obtain ⟨acceptors, loops, caller⟩ := h
  have effect := step_effect step
  cases label with
  | start =>
    obtain ⟨_, more, ran⟩ := effect
    have threads : s.numThreads = 0 := by
      rcases caller with ⟨threads, _⟩ | ⟨none, _⟩
      · exact threads
      · omega
    unfold Startup.start at ran
    dsimp only at ran
    split at ran
    · split at ran
      · cases ran
      · obtain rfl := Except.ok.inj ran
        exact ⟨acceptors, loops, .inl ⟨threads, .inr (.inl ⟨0, rfl⟩)⟩⟩
    · split at ran
      · obtain rfl := Except.ok.inj ran
        exact ⟨acceptors, loops, .inl ⟨threads, .inr (.inr (congrArg Caller.installing loops))⟩⟩
      · cases ran
  | spawn =>
    obtain ⟨i, place, ran⟩ := effect
    have threads : s.numThreads = 0 := by
      rcases caller with ⟨threads, _⟩ | ⟨_, idle⟩
      · exact threads
      · rw [idle] at place
        cases place
    rw [Startup.spawn, if_neg (by omega)] at ran
    split at ran
    · obtain rfl := Except.ok.inj ran
      exact ⟨acceptors, loops, .inl ⟨threads, .inr (.inr (congrArg Caller.installing loops))⟩⟩
    · cases ran
  | create fd =>
    obtain ⟨loop, rest, place, -⟩ := effect
    rw [place] at caller
    simp at caller
  | setAcceptor =>
    obtain ⟨loop, id, rest, place, -⟩ := effect
    rw [place] at caller
    simp at caller
  | runInLoop =>
    obtain ⟨loop, id, rest, place, -⟩ := effect
    rw [place] at caller
    simp at caller
  | finish =>
    obtain ⟨place, ran⟩ := effect
    obtain rfl := Except.ok.inj ran
    rcases caller with ⟨threads, _⟩ | ⟨_, idle⟩
    · exact ⟨acceptors, loops, .inl ⟨threads, .inl rfl⟩⟩
    · rw [idle] at place
      cases place
  | doPendingFunctors loop =>
    obtain ⟨member, -⟩ := effect
    rw [loops] at member
    cases member
  | runFunctor loop =>
    obtain ⟨member, -⟩ := effect
    rw [loops] at member
    cases member

theorem onAcceptor_ok {id : Nat} {body : Acceptor → Except Fault Startup} (h : s.onAcceptor id body = .ok t) :
    ∃ acc, s.acceptors id = some acc ∧ body acc = .ok t := by
  unfold onAcceptor at h
  split at h
  · rename_i acc object
    split at h
    · cases h
    · exact ⟨acc, object, h⟩
  · cases h

theorem listen_frame {thread : Tid} {id : Nat} (h : s.listen thread id = .ok t) :
    t.loops = s.loops ∧ t.acceptor = s.acceptor ∧ t.caller = s.caller := by
  obtain ⟨acc, _, h⟩ := onAcceptor_ok h
  obtain ⟨_, _, h⟩ := Lib.bind_ok h
  obtain ⟨acc, _, h⟩ := onAcceptor_ok h
  obtain ⟨_, _, h⟩ := Lib.bind_ok h
  split at h
  · obtain rfl := Except.ok.inj h
    exact ⟨rfl, rfl, rfl⟩
  · cases h

theorem destroy_main (s : Startup) (id : Nat) : ∃ fault, s.destroy mainThread id = .error fault := by
  have elsewhere : ∀ loop, assertInLoopThread mainThread loop = .error .abortNotInLoopThread := by
    intro loop
    exact if_neg (by simp [mainThread, loopThread])
  rw [destroy, onChannel, onAcceptor]
  cases s.acceptors id with
  | none => exact ⟨_, rfl⟩
  | some acc =>
    dsimp only
    split
    · exact ⟨_, rfl⟩
    · rw [elsewhere]
      exact ⟨_, rfl⟩

/-- A second call has come to a loop that has an acceptor. -/
structure Second (s : Startup) : Prop where
  loops : s.loops ≠ []
  held : ∀ i ∈ s.loops, s.acceptor i ≠ none
  caller : s.caller = .installing s.loops ∨ ∃ loop id rest, s.caller = .holding loop id rest ∧ s.acceptor loop ≠ none

theorem Second.not_idle (h : s.Second) : s.caller ≠ .idle := by
  intro idle
  rcases h.caller with place | ⟨_, _, _, place, _⟩
  · rw [idle] at place
    cases place
  · rw [idle] at place
    cases place

theorem Second.step (h : s.Second) (step : s.step label = some (.ok t)) : t.Second := by
  obtain ⟨loops, held, caller⟩ := h
  have effect := step_effect step
  cases label with
  | start =>
    obtain ⟨idle, -⟩ := effect
    rw [idle] at caller
    simp at caller
  | spawn =>
    obtain ⟨i, place, -⟩ := effect
    rw [place] at caller
    simp at caller
  | create fd =>
    obtain ⟨loop, rest, place, ran⟩ := effect
    obtain rfl := Except.ok.inj ran
    rw [place] at caller
    rcases caller with same | ⟨_, _, _, other, _⟩
    · have first : loop ∈ s.loops := by
        rw [← Caller.installing.inj same]
        exact List.mem_cons_self
      exact ⟨loops, held, .inr ⟨loop, s.created, rest, rfl, held loop first⟩⟩
    · cases other
  | setAcceptor =>
    obtain ⟨loop, id, rest, place, ran⟩ := effect
    rw [place] at caller
    rcases caller with other | ⟨_, _, _, same, taken⟩
    · cases other
    · obtain ⟨rfl, rfl, rfl⟩ := Caller.holding.inj same
      obtain ⟨old, found⟩ := Option.ne_none_iff_exists'.mp taken
      obtain ⟨fault, failed⟩ := destroy_main s old
      rw [Startup.setAcceptor, found] at ran
      dsimp only at ran
      rw [failed] at ran
      cases ran
  | runInLoop =>
    obtain ⟨loop, id, rest, place, -⟩ := effect
    rw [place] at caller
    simp at caller
  | finish =>
    obtain ⟨place, -⟩ := effect
    rw [place] at caller
    rcases caller with same | ⟨_, _, _, other, _⟩
    · exact absurd (Caller.installing.inj same).symm loops
    · cases other
  | doPendingFunctors loop =>
    obtain ⟨_, _, _, ran⟩ := effect
    obtain rfl := Except.ok.inj ran
    exact ⟨loops, held, caller⟩
  | runFunctor loop =>
    obtain ⟨_, id, rest, _, ran⟩ := effect
    obtain ⟨sameLoops, sameAcceptor, sameCaller⟩ := listen_frame ran.symm
    dsimp only at sameLoops sameAcceptor sameCaller
    rw [← sameLoops, ← sameAcceptor] at held caller
    rw [← sameLoops] at loops
    rw [← sameCaller] at caller
    exact ⟨loops, held, caller⟩

/-- What the first call leaves is where a second one fails. -/
theorem First.start_again (h : First n k s m) (positive : 1 ≤ n) (caller : s.caller = .idle) (again : s.calls ≠ k) :
    ∃ t, s.start = .ok t ∧ t.Second := by
  have stage := h.stage
  rw [At, caller] at stage
  obtain ⟨_, _, ⟨calls, _⟩ | ⟨begun, loops, rfl⟩⟩ := stage
  · exact absurd calls again
  have ran : s.start = .ok { s with started := true, calls := s.calls - 1, caller := .installing s.loops } := by
    rw [Startup.start]
    simp only [begun.started, begun.poolStarted, Bool.not_true, Bool.false_eq_true, if_true, if_false]
  refine ⟨_, ran, ⟨?_, fun i member => ?_, .inl rfl⟩⟩
  · show s.loops ≠ []
    rw [loops]
    exact List.ne_nil_of_length_pos (by rw [List.length_range]; exact positive)
  · have below : i < m := List.mem_range.mp (loops ▸ member)
    have installed : s.acceptor i = some i := by
      rcases h.low i below with queued | listening
      · exact queued.2.1
      · exact listening.2.1
    show s.acceptor i ≠ none
    rw [installed]
    exact Option.some_ne_none i

theorem first_or_second (positive : 1 ≤ n) (h : (startup n k).Reachable Lib.Machine.anyStep s) :
    (∃ m, First n k s m) ∨ s.Second := by
  refine h.invariant (P := fun s => (∃ m, First n k s m) ∨ s.Second) ?_ ?_
  · rintro s rfl
    exact .inl ⟨0, .initial n k⟩
  · rintro s label t - (⟨m, first⟩ | second) - step
    · by_cases again : label = .start ∧ s.calls ≠ k
      · obtain ⟨rfl, again⟩ := again
        have effect : s.Effect (.ok t) .start := step_effect step
        obtain ⟨caller, _, ran⟩ := effect
        obtain ⟨t', ran', second⟩ := first.start_again positive caller again
        obtain rfl := Except.ok.inj (ran.trans ran')
        exact .inr second
      · have one : label = .start → s.calls = k := fun same => not_not.mp fun other => again ⟨same, other⟩
        obtain ⟨t', m', same, first', -⟩ := first.step one step
        obtain rfl := Except.ok.inj same
        exact .inl ⟨m', first'⟩
    · exact .inr (second.step step)

theorem Meets.exists_stuck (h : Meets n k) :
    ∃ s, (startup n k).Reachable Lib.Machine.anyStep s ∧ ∀ label, s.step label = none := by
  obtain ⟨safe, finite, -⟩ := h
  have start : (startup n k).Reachable Lib.Machine.anyStep { numThreads := n, calls := k } := .initial rfl
  obtain ⟨s, steps, last⟩ := Lib.Machine.exists_end (finite _ start)
  have reachable := start.steps steps
  refine ⟨s, reachable, fun label => ?_⟩
  cases step : s.step label with
  | none => rfl
  | some r =>
    cases r with
    | error fault => exact absurd step (safe s reachable label fault)
    | ok t => exact absurd ⟨label, trivial, step⟩ (last t)

theorem barren_of_reachable (none : n = 0 ∨ k = 0) (h : (startup n k).Reachable Lib.Machine.anyStep s) : s.Barren := by
  refine h.invariant ?_ ?_
  · rintro s rfl
    refine ⟨fun _ => rfl, rfl, ?_⟩
    rcases none with rfl | rfl
    · exact .inl ⟨rfl, .inl rfl⟩
    · exact .inr ⟨rfl, rfl⟩
  · rintro s label t - barren - step
    exact barren.step step

/-- The server is served by one acceptor in each loop, in every interleaving, exactly when the pool has a thread and
`start()` is called once. -/
theorem start_meets_iff (n k : Nat) : Meets n k ↔ 1 ≤ n ∧ k = 1 := by
  constructor
  · intro meets
    obtain ⟨s, reachable, stuck⟩ := meets.exists_stuck
    by_cases none : n = 0 ∨ k = 0
    · obtain ⟨_, id, acc, _, object, _⟩ := (meets.2.2 s reachable stuck).any
      rw [(barren_of_reachable none reachable).acceptors id] at object
      cases object
    · obtain ⟨idle, calls, _⟩ := idle_of_stuck stuck
      rcases first_or_second (by omega) reachable with ⟨m, first⟩ | second
      · have begun := first.calls
        omega
      · exact absurd idle second.not_idle
  · rintro ⟨positive, rfl⟩
    refine ⟨fun s reachable label fault step => ?_, fun s reachable => ?_, fun s reachable stuck => ?_⟩
    · obtain ⟨m, first⟩ := first_of_reachable reachable
      obtain ⟨t, _, same, _⟩ := first.step_once step
      cases same
    · obtain ⟨m, first⟩ := first_of_reachable reachable
      exact first.acc
    · obtain ⟨m, first⟩ := first_of_reachable reachable
      exact first.serving positive stuck

/-- The step is an abort of `assertInLoopThread`. -/
def aborts (s : Startup) (label : Label) : Bool :=
  match s.step label with
  | some (.error .abortNotInLoopThread) => true
  | _ => false

/-- With one thread a second call aborts, and with none there is no acceptor at all. -/
theorem second_start_aborts :
    (∃ s, (startup 1 2).Reachable Lib.Machine.anyStep s ∧ s.step .setAcceptor = some (.error .abortNotInLoopThread)) ∧
    ¬Meets 1 2 ∧ ¬Meets 0 1 := by
  have found : ∃ s, (startup 1 2).Reachable Lib.Machine.anyStep s ∧ s.aborts .setAcceptor = true :=
    Lib.Machine.exec_reaches (startup 1 2) Lib.Machine.anyStep { numThreads := 1, calls := 2 }
      [.start, .spawn, .spawn, .create 3, .setAcceptor, .runInLoop, .finish, .start, .create 4] _ rfl (by decide)
  obtain ⟨s, reachable, aborts⟩ := found
  have step : s.step .setAcceptor = some (.error .abortNotInLoopThread) := by
    unfold Startup.aborts at aborts
    split at aborts
    · rename_i step
      exact step
    · cases aborts
  refine ⟨⟨s, reachable, step⟩, fun meets => meets.1 s reachable _ _ step, fun meets => ?_⟩
  obtain ⟨t, reachable, stuck⟩ := meets.exists_stuck
  obtain ⟨_, id, acc, _, object, _⟩ := (meets.2.2 t reachable stuck).any
  rw [(barren_of_reachable (.inl rfl) reachable).acceptors id] at object
  cases object

end Startup

end Dserver.Net
