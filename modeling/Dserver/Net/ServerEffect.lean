import Dserver.Net.ConnectionEffect
import Dserver.Net.TcpServer

/-!
# What one step of the server does

`Control` says what the control part of a step does to the connections, the poller and the queues. Its last
index is the functor that the step has taken from the IO loop's queue and not yet run.
-/

namespace Dserver.Net

def BaseFunctor.removal : BaseFunctor → Option ConnId
  | removeConnectionInLoop c => some c
  | task => none

/-- Equal but for what `poll` and `handleEvent` note in the channel. -/
def TcpConnection.Reported (a b : TcpConnection) : Prop :=
  ∃ revents eventHandling, b = { a with channel := { a.channel with revents, eventHandling } }

theorem TcpConnection.Reported.refl (a : TcpConnection) : a.Reported a := ⟨_, _, rfl⟩

/-- A call made in the loop's thread `t` other than by a functor. -/
def TcpConnection.Call.direct (t : Tid) : TcpConnection.Call → Bool
  | send sender _ _ => sender == t
  | sendInLoop _ _ _ | shutdownInLoop | connectDestroyed => false
  | _ => true

namespace TcpServer

variable {s s₁ s' : TcpServer} {label : Label}

/-- The functors waiting in the IO loop, and the connections whose removal waits in the base loop. -/
def todo (s : TcpServer) : List Functor := s.loop.queue.waiting

def removals (s : TcpServer) : List ConnId := s.base.queue.waiting.filterMap BaseFunctor.removal

structure Loops (s : TcpServer) : Prop where
  loop : s.loop.Inv
  base : s.base.Inv
  threads : s.loop.threadId ≠ s.base.threadId

structure Keeps (s s₁ : TcpServer) : Prop where
  poller : s₁.poller = s.poller
  connections : s₁.connections = s.connections
  created : s₁.created = s.created
  alive : s₁.alive = s.alive
  shutting : s₁.shutting = s.shutting
  conn : ∀ c, (s.conn c).Reported (s₁.conn c)

inductive Control (s s₁ : TcpServer) : Label → List Functor → Prop where
  | quiet {label : Label} {taken : List Functor} (keeps : s.Keeps s₁) (threadId : s₁.loop.threadId = s.loop.threadId)
      (calling : s₁.calling = s.calling)
      (todo : s.todo = taken ++ s₁.todo) (inserted : s₁.loop.queue.inserted = s.loop.queue.inserted)
      (removals : s₁.removals = s.removals) : Control s s₁ label taken
  | queued (loop : EventLoop Functor) (pushed : s.loop.Pushed loop [.task]) (rest : s₁ = { s with loop }) :
      Control s s₁ .queueTask []
  | called (t : Tid) (c : ConnId) (op : UserCall) (may : s.mayCall t = true) (member : c ∈ s.alive)
      (passes : op.passes (s.conn c) = true) (rest : s₁ = s.enterCall t c op) :
      Control s s₁ (.call t c op) []
  | tested (t : Tid) (c : ConnId) (may : s.mayCall t = true) (member : c ∈ s.alive)
      (connected : (s.conn c).state = .kConnected) (rest : s₁ = s.enterShutdown t c) :
      Control s s₁ (.shutdown t c) []
  | stored (t : Tid) (c : ConnId) (found : s.shutting.lookup t = some c) (rest : s₁ = s.setState t c) :
      Control s s₁ (.setState t) []
  | calledTask (t : Tid) (may : s.mayCall t = true) (rest : s₁ = { s with calling := s.calling ++ [(t, .task)] }) :
      Control s s₁ (.callTask t) []
  | pushed (t : Tid) (cb : Functor) (found : s.calling.lookup t = some cb) (rest : s₁ = s.pushCall t cb) :
      Control s s₁ (.push t) []
  | removed (c : ConnId) (loop : EventLoop Functor) (base : EventLoop BaseFunctor)
      (removals : s.removals = c :: s₁.removals) (pushed : s.loop.Pushed loop [.connectDestroyed c])
      (rest : s₁ = { s with loop, base }) : Control s s₁ .baseFunctor []
  | freed (t : Tid) (c : ConnId) (member : c ∈ s.alive) (gone : c ∉ s.connections)
      (down : (s.conn c).state = .kDisconnected) (off : (s.conn c).channel.addedToLoop = false)
      (rest : s₁ = s.closeSocket c) : Control s s₁ (.release t c) []

theorem advance_ok {step : EventLoop.Label Functor} {next : EventLoop Functor → TcpServer}
    (h : s.advance step next = some (.ok s₁)) :
    ∃ loop, s.loop.step step = some (.ok loop) ∧ s₁ = next loop := by
  unfold advance at h
  split at h
  · rename_i loop stepped
    exact ⟨loop, stepped, by simpa using h.symm⟩
  · cases h
  · cases h

theorem quiet_of_step (loops : s.Loops) {step : EventLoop.Label Functor} (plain : step.plain = true)
    (stepped : s.loop.step step = some (.ok s₁.loop)) (keeps : s.Keeps s₁) (base : s₁.base = s.base)
    (calling : s₁.calling = s.calling) : s₁.Loops ∧ Control s s₁ label [] := by
  obtain ⟨waiting, inserted⟩ := EventLoop.step_plain loops.loop plain stepped
  refine ⟨⟨EventLoop.step_inv loops.loop stepped, base ▸ loops.base, ?_⟩,
    .quiet keeps (EventLoop.step_threadId stepped) calling waiting.symm inserted
      (by rw [removals, base, ← removals])⟩
  rw [EventLoop.step_threadId stepped, base]
  exact loops.threads

theorem quiet_of_eq (loops : s.Loops) (loop : s₁.loop = s.loop) (base : s₁.base = s.base)
    (calling : s₁.calling = s.calling) (keeps : s.Keeps s₁) : s₁.Loops ∧ Control s s₁ label [] := by
  refine ⟨⟨loop ▸ loops.loop, base ▸ loops.base, ?_⟩, .quiet keeps (by rw [loop]) calling ?_ (by rw [loop]) ?_⟩
  · rw [loop, base]
    exact loops.threads
  · rw [todo, todo, loop, List.nil_append]
  · rw [removals, base, ← removals]

theorem keeps_of_eq (poller : s₁.poller = s.poller) (connections : s₁.connections = s.connections)
    (created : s₁.created = s.created) (alive : s₁.alive = s.alive) (shutting : s₁.shutting = s.shutting)
    (conn : s₁.conn = s.conn) : s.Keeps s₁ :=
  ⟨poller, connections, created, alive, shutting, fun c => by rw [conn]; exact .refl _⟩

theorem setChannel_reported (c : ConnId) {change : Channel → Channel}
    (notes : ∀ ch, ∃ revents eventHandling, change ch = { ch with revents, eventHandling }) (d : ConnId) :
    (s.conn d).Reported ((s.setChannel c change).conn d) := by
  by_cases same : d = c
  · obtain ⟨revents, eventHandling, changed⟩ := notes (s.conn c).channel
    subst same
    exact ⟨revents, eventHandling, by simp only [setChannel, Function.update_self, changed]⟩
  · simp only [setChannel, Function.update_of_ne same]
    exact .refl _

theorem setRevents_reported (reports : List (Entry × Events)) (c : ConnId) :
    (s.conn c).Reported (s.setRevents reports c) := by
  unfold setRevents
  split
  · exact ⟨_, _, rfl⟩
  · exact .refl _

theorem visit_control {entry : Entry} {rest : List Entry} (loops : s.Loops)
    (h : s.visit entry rest = some (.ok s₁)) : s₁.Loops ∧ Control s s₁ label [] := by
  unfold visit at h
  split at h
  · obtain ⟨loop, stepped, rfl⟩ := advance_ok h
    exact quiet_of_step loops rfl stepped (keeps_of_eq rfl rfl rfl rfl rfl rfl) rfl rfl
  · obtain rfl := Except.ok.inj (Option.some.inj h)
    exact quiet_of_eq loops rfl rfl rfl (keeps_of_eq rfl rfl rfl rfl rfl rfl)
  · obtain rfl := Except.ok.inj (Option.some.inj h)
    exact quiet_of_eq loops rfl rfl rfl (keeps_of_eq rfl rfl rfl rfl rfl rfl)
  · split at h
    · obtain rfl := Except.ok.inj (Option.some.inj h)
      exact quiet_of_eq loops rfl rfl rfl
        ⟨rfl, rfl, rfl, rfl, rfl, setChannel_reported _ fun ch => ⟨ch.revents, true, rfl⟩⟩
    · cases h

theorem queueAll_pushed (loop : EventLoop Functor) (cbs : List Functor) :
    loop.Pushed (queueAll loop cbs) cbs := by
  induction cbs generalizing loop with
  | nil => exact .refl loop
  | cons cb cbs ih => exact (EventLoop.queueInLoop_pushed loop loop.threadId cb).trans (ih _)

theorem pushCall_pushed (s : TcpServer) (t : Tid) (cb : Functor) : s.loop.Pushed (s.pushCall t cb).loop [cb] :=
  EventLoop.queueInLoop_pushed s.loop t cb

theorem runInLoop_pushed {F : Type} {l : EventLoop F} {t : Tid} {cb : F} (other : t ≠ l.threadId) :
    l.Pushed (l.runInLoop t cb) [cb] := by
  rw [EventLoop.runInLoop, if_neg other]
  exact EventLoop.queueInLoop_pushed l t cb

theorem base_removals {step : EventLoop.Label BaseFunctor} {base : EventLoop BaseFunctor} (loops : s.Loops)
    (foreign : s.foreignBase step = true) (stepped : s.base.step step = some (.ok base)) :
    base.queue.waiting.filterMap BaseFunctor.removal = s.removals := by
  have task : ∀ t, (s.base.queueInLoop t BaseFunctor.task).queue.waiting.filterMap BaseFunctor.removal =
      s.removals := by
    intro t
    rw [(EventLoop.queueInLoop_pushed s.base t _).waiting, List.filterMap_append, removals]
    exact List.append_nil _
  cases step with
  | queueInLoop t cb =>
    simp only [foreignBase, Bool.and_eq_true, beq_iff_eq] at foreign
    obtain ⟨_, rfl⟩ := EventLoop.step_effect stepped
    rw [foreign.1]
    exact task t
  | runInLoop t cb =>
    simp only [foreignBase, Bool.and_eq_true, beq_iff_eq] at foreign
    rcases EventLoop.step_effect stepped with rfl | ⟨_, _, rfl⟩
    · rfl
    · rw [foreign.1]
      exact task t
  | runFunctor => cases foreign
  | enter | check | pollReturn | handleRead | doPendingFunctors | functorsDone | quit | wakeup =>
    rw [(EventLoop.step_plain loops.base rfl stepped).1, removals]

theorem base_control {step : EventLoop.Label BaseFunctor} (loops : s.Loops)
    (h : s.control (.base step) = some (.ok s₁)) : s₁.Loops ∧ Control s s₁ (.base step) [] := by
  simp only [control] at h
  split at h
  · rename_i foreign
    split at h
    · rename_i base stepped
      obtain rfl := Except.ok.inj (Option.some.inj h)
      refine ⟨⟨loops.loop, EventLoop.step_inv loops.base stepped, ?_⟩,
        .quiet (keeps_of_eq rfl rfl rfl rfl rfl rfl) rfl rfl rfl rfl (base_removals loops foreign stepped)⟩
      rw [EventLoop.step_threadId stepped]
      exact loops.threads
    · cases h
    · cases h
  · cases h

theorem baseFunctor_control (loops : s.Loops) (h : s.control .baseFunctor = some (.ok s₁)) :
    s₁.Loops ∧ Control s s₁ .baseFunctor [] := by
  simp only [control] at h
  split at h
  · split at h
    · rename_i c rest phase batch
      obtain rfl := Except.ok.inj (Option.some.inj h)
      have pushed := EventLoop.queueInLoop_pushed s.loop s.base.threadId (.connectDestroyed c)
      have popped := Lib.BatchQueue.pop_waiting batch
      refine ⟨⟨pushed.inv loops.loop, EventLoop.runFunctor_inv loops.base phase batch, ?_⟩,
        .removed c _ _ ?_ pushed rfl⟩
      · rw [pushed.threadId]
        exact loops.threads
      · rw [removals, popped]
        rfl
    · rename_i rest phase batch
      obtain rfl := Except.ok.inj (Option.some.inj h)
      have popped := Lib.BatchQueue.pop_waiting batch
      refine ⟨⟨loops.loop, EventLoop.runFunctor_inv loops.base phase batch, loops.threads⟩,
        .quiet (keeps_of_eq rfl rfl rfl rfl rfl rfl) rfl rfl rfl rfl ?_⟩
      rw [removals, removals, popped]
      rfl
    · cases h
  · cases h

theorem functor_control {r : WriteResult} (loops : s.Loops) (h : s.control (.functor r) = some (.ok s₁)) :
    s₁.Loops ∧ ∃ cb, Control s s₁ (.functor r) [cb] ∧ s.callOf (.functor r) = cb.call r ∧ s.loop.phase = .functors ∧
      s.handler = .idle := by
  simp only [control] at h
  split at h
  · rename_i cb rest idle batch
    obtain ⟨loop, stepped, rfl⟩ := advance_ok h
    obtain ⟨phase, cb', rest', batch', rfl⟩ := EventLoop.step_effect stepped
    have popped := Lib.BatchQueue.pop_waiting batch'
    refine ⟨⟨EventLoop.step_inv loops.loop stepped, loops.base, loops.threads⟩, cb',
      .quiet (keeps_of_eq rfl rfl rfl rfl rfl rfl) rfl rfl popped rfl rfl, ?_, phase, idle⟩
    rw [callOf, batch']
  · cases h

theorem release_control {t : Tid} {c : ConnId} (loops : s.Loops)
    (h : s.control (.release t c) = some (.ok s₁)) : s₁.Loops ∧ Control s s₁ (.release t c) [] := by
  simp only [control] at h
  split at h
  · rename_i allowed
    obtain ⟨member, free⟩ := allowed
    have gone : c ∉ s.connections := by
      simp only [unowned, Bool.and_eq_true, decide_eq_true_eq] at free
      exact free.1.1.1.1.1
    unfold destroy at h
    dsimp only at h
    split at h
    · cases h
    · rename_i down
      split at h
      · cases h
      · rename_i flags
        split at h
        · cases h
        · obtain rfl := Except.ok.inj (Option.some.inj h)
          simp only [Bool.or_eq_true, not_or, Bool.not_eq_true] at flags
          exact ⟨⟨loops.loop, loops.base, loops.threads⟩, .freed t c member gone (not_not.mp down) flags.2 rfl⟩
  · cases h

theorem other_control (loops : s.Loops) (other : ∀ r, label ≠ .functor r)
    (old : ∀ c fd, label ≠ .accept c fd) (h : s.control label = some (.ok s₁)) : s₁.Loops ∧ Control s s₁ label [] := by
  cases label with
  | enter =>
    simp only [control, Option.ite_none_right_eq_some] at h
    obtain ⟨loop, stepped, rfl⟩ := advance_ok h.2
    exact quiet_of_step loops rfl stepped (keeps_of_eq rfl rfl rfl rfl rfl rfl) rfl rfl
  | check =>
    obtain ⟨loop, stepped, rfl⟩ := advance_ok h
    split
    · exact quiet_of_step loops rfl stepped (keeps_of_eq rfl rfl rfl rfl rfl rfl) rfl rfl
    · exact quiet_of_step loops rfl stepped (keeps_of_eq rfl rfl rfl rfl rfl rfl) rfl rfl
  | poll reports =>
    simp only [control, Option.ite_none_right_eq_some] at h
    obtain ⟨loop, stepped, rfl⟩ := advance_ok h.2
    exact quiet_of_step loops rfl stepped ⟨rfl, rfl, rfl, rfl, rfl, setRevents_reported reports⟩ rfl rfl
  | visit =>
    simp only [control] at h
    split at h
    · exact visit_control loops h
    · cases h
  | hangup | readable | writable =>
    simp only [control] at h
    split at h
    · obtain rfl := Except.ok.inj (Option.some.inj h)
      exact quiet_of_eq loops rfl rfl rfl (keeps_of_eq rfl rfl rfl rfl rfl rfl)
    · cases h
  | handled =>
    simp only [control] at h
    split at h
    · obtain rfl := Except.ok.inj (Option.some.inj h)
      exact quiet_of_eq loops rfl rfl rfl
        ⟨rfl, rfl, rfl, rfl, rfl, setChannel_reported _ fun ch => ⟨ch.revents, false, rfl⟩⟩
    · cases h
  | userReturn =>
    simp only [control] at h
    split at h
    all_goals first
      | cases h
        done
      | obtain rfl := Except.ok.inj (Option.some.inj h)
        exact quiet_of_eq loops rfl rfl rfl (keeps_of_eq rfl rfl rfl rfl rfl rfl)
  | doPendingFunctors | functorsDone | quit =>
    simp only [control, Option.ite_none_right_eq_some] at h
    obtain ⟨loop, stepped, rfl⟩ := advance_ok h.2
    exact quiet_of_step loops rfl stepped (keeps_of_eq rfl rfl rfl rfl rfl rfl) rfl rfl
  | functor r => exact absurd rfl (other r)
  | own c call =>
    simp only [control, Option.ite_none_right_eq_some, Option.some.injEq, Except.ok.injEq] at h
    obtain ⟨_, rfl⟩ := h
    exact quiet_of_eq loops rfl rfl rfl (keeps_of_eq rfl rfl rfl rfl rfl rfl)
  | queueTask =>
    simp only [control, Option.ite_none_right_eq_some, Option.some.injEq, Except.ok.injEq] at h
    obtain ⟨_, rfl⟩ := h
    have pushed := queueAll_pushed s.loop [.task]
    exact ⟨⟨pushed.inv loops.loop, loops.base, pushed.threadId ▸ loops.threads⟩, .queued _ pushed rfl⟩
  | accept c fd => exact absurd rfl (old c fd)
  | call t c op =>
    simp only [control, Option.ite_none_right_eq_some] at h
    obtain ⟨⟨may, member⟩, h⟩ := h
    split at h
    · rename_i passes
      obtain rfl := Except.ok.inj (Option.some.inj h)
      exact ⟨⟨loops.loop, loops.base, loops.threads⟩, .called t c op may member passes rfl⟩
    · obtain rfl := Except.ok.inj (Option.some.inj h)
      exact quiet_of_eq loops rfl rfl rfl (keeps_of_eq rfl rfl rfl rfl rfl rfl)
  | shutdown t c =>
    simp only [control, Option.ite_none_right_eq_some] at h
    obtain ⟨⟨may, member⟩, h⟩ := h
    split at h
    · rename_i connected
      obtain rfl := Except.ok.inj (Option.some.inj h)
      exact ⟨⟨loops.loop, loops.base, loops.threads⟩, .tested t c may member connected rfl⟩
    · obtain rfl := Except.ok.inj (Option.some.inj h)
      exact quiet_of_eq loops rfl rfl rfl (keeps_of_eq rfl rfl rfl rfl rfl rfl)
  | setState t =>
    simp only [control] at h
    split at h
    · rename_i c found
      obtain rfl := Except.ok.inj (Option.some.inj h)
      exact ⟨⟨loops.loop, loops.base, loops.threads⟩, .stored t c found rfl⟩
    · cases h
  | callTask t =>
    simp only [control, Option.ite_none_right_eq_some, Option.some.injEq, Except.ok.injEq] at h
    obtain ⟨may, rfl⟩ := h
    exact ⟨⟨loops.loop, loops.base, loops.threads⟩, .calledTask t may rfl⟩
  | push t =>
    simp only [control] at h
    split at h
    · rename_i cb found
      obtain rfl := Except.ok.inj (Option.some.inj h)
      have pushed := pushCall_pushed s t cb
      exact ⟨⟨pushed.inv loops.loop, loops.base, pushed.threadId ▸ loops.threads⟩, .pushed t cb found rfl⟩
    · cases h
  | wakeup t =>
    obtain ⟨loop, stepped, rfl⟩ := advance_ok h
    exact quiet_of_step loops rfl stepped (keeps_of_eq rfl rfl rfl rfl rfl rfl) rfl rfl
  | release t c => exact release_control loops h
  | base step => exact base_control loops h
  | baseFunctor => exact baseFunctor_control loops h

/-! ### Whole steps -/

/-- A call that is not that of a functor: by the user, or by `handleEvent` from one of its three places. -/
theorem direct_cases (other : ∀ r, label ≠ .functor r) (old : ∀ c fd, label ≠ .accept c fd)
    (h : s.control label = some (.ok s₁)) {c : ConnId} {call : TcpConnection.Call}
    (made : s.callOf label = some (c, call)) :
    (call.fromUser s.loop.threadId = true ∧ s₁ = s) ∨
    (call = .handleClose ∧ s.handler = .event c .close ∧ s₁ = { s with handler := .event c .read } ∧
      Events.test (s.conn c).channel.revents POLLHUP = true ∧
      Events.test (s.conn c).channel.revents POLLIN = false) ∨
    (∃ r, call = .handleRead r ∧ s.handler = .event c .read ∧ s₁ = { s with handler := .event c .write }) ∨
    ∃ r, call = .handleWrite r ∧ s.handler = .event c .write ∧ s₁ = { s with handler := .event c .done } := by
  cases label with
  | hangup =>
    simp only [callOf] at made
    split at made
    · rename_i b was
      simp only [Option.ite_none_right_eq_some, Option.some.injEq, Prod.mk.injEq, Bool.and_eq_true,
        Bool.not_eq_true'] at made
      obtain ⟨⟨hup, quiet⟩, rfl, rfl⟩ := made
      simp only [control, was] at h
      exact .inr (.inl ⟨rfl, was, (Except.ok.inj (Option.some.inj h)).symm, hup, quiet⟩)
    · cases made
  | readable r =>
    simp only [callOf] at made
    split at made
    · rename_i b was
      simp only [Option.ite_none_right_eq_some, Option.some.injEq, Prod.mk.injEq] at made
      obtain ⟨_, rfl, rfl⟩ := made
      simp only [control, was] at h
      exact .inr (.inr (.inl ⟨r, rfl, was, (Except.ok.inj (Option.some.inj h)).symm⟩))
    · cases made
  | writable r =>
    simp only [callOf] at made
    split at made
    · rename_i b was
      simp only [Option.ite_none_right_eq_some, Option.some.injEq, Prod.mk.injEq] at made
      obtain ⟨_, rfl, rfl⟩ := made
      simp only [control, was] at h
      exact .inr (.inr (.inr ⟨r, rfl, was, (Except.ok.inj (Option.some.inj h)).symm⟩))
    · cases made
  | functor r => exact absurd rfl (other r)
  | own d call' =>
    simp only [control, Option.ite_none_right_eq_some] at h
    obtain ⟨rfl, rfl⟩ := Prod.mk.inj (Option.some.inj made)
    exact .inl ⟨h.1.2.1, (Except.ok.inj (Option.some.inj h.2)).symm⟩
  | accept d fd => exact absurd rfl (old d fd)
  | _ => cases made

theorem callOf_direct (other : ∀ r, label ≠ .functor r) (old : ∀ c fd, label ≠ .accept c fd)
    (h : s.control label = some (.ok s₁)) {c : ConnId} {call : TcpConnection.Call}
    (made : s.callOf label = some (c, call)) :
    call.direct s.loop.threadId = true ∧ call ≠ .connectEstablished := by
  rcases direct_cases other old h made with ⟨user, -⟩ | ⟨rfl, -⟩ | ⟨r, rfl, -⟩ | ⟨r, rfl, -⟩
  · revert user
    cases call <;> simp [TcpConnection.Call.fromUser, TcpConnection.Call.direct]
  · exact ⟨rfl, nofun⟩
  · exact ⟨rfl, nofun⟩
  · exact ⟨rfl, nofun⟩

theorem callOf_handler (other : ∀ r, label ≠ .functor r) (old : ∀ c fd, label ≠ .accept c fd)
    (h : s.control label = some (.ok s₁)) {made : ConnId × TcpConnection.Call}
    (called : s.callOf label = some made) : ∃ handler, s₁ = { s with handler } := by
  obtain ⟨c, call⟩ := made
  rcases direct_cases other old h called with ⟨-, rfl⟩ | ⟨-, -, rfl, -⟩ | ⟨r, -, -, rfl⟩ | ⟨r, -, -, rfl⟩
  · exact ⟨_, rfl⟩
  · exact ⟨_, rfl⟩
  · exact ⟨_, rfl⟩
  · exact ⟨_, rfl⟩

/-- What a step has taken from the queue, and the call it makes. -/
inductive Origin (s : TcpServer) (label : Label) : List Functor → Option (ConnId × TcpConnection.Call) → Prop where
  | silent (plain : ∀ r, label ≠ .functor r) (nothing : s.callOf label = none) : Origin s label [] none
  | direct (c : ConnId) (call : TcpConnection.Call) (plain : ∀ r, label ≠ .functor r)
      (old : ∀ d fd, label ≠ .accept d fd) (made : s.callOf label = some (c, call))
      (kind : call.direct s.loop.threadId = true) (start : call ≠ .connectEstablished) : Origin s label [] (some (c, call))
  | functor (cb : Functor) (r : WriteResult) (same : label = .functor r)
      (made : s.callOf label = cb.call r) : Origin s label [cb] (cb.call r)

structure Born (s s' : TcpServer) (c : ConnId) (fd : Fd) (x : Ctx) : Prop where
  handler : s.handler = .acceptor
  fresh : c ∉ s.created
  unused : ∀ d ∈ s.alive, (s.conn d).channel.fd ≠ fd
  ran : TcpConnection.Call.connectEstablished.run ((s.newConnection c fd).ctx c) = .ok x
  result : s' = (s.newConnection c fd).commit c x

/-- Any other step: the control moves to `s₁`, and then at most one call is made. -/
structure Moved (s s₁ s' : TcpServer) (label : Label) (taken : List Functor)
    (made : Option (ConnId × TcpConnection.Call)) : Prop where
  step : s.control label = some (.ok s₁)
  old : ∀ c fd, label ≠ .accept c fd
  loops : s₁.Loops
  control : Control s s₁ label taken
  origin : Origin s label taken made
  ended : (made = none ∧ s' = s₁) ∨ ∃ c call x, made = some (c, call) ∧ c ∈ s₁.alive ∧
    call.run (s₁.ctx c) = .ok x ∧ s' = s₁.commit c x

theorem act_ok {c : ConnId} {call : TcpConnection.Call} (h : s.act c call = .ok s') :
    c ∈ s.alive ∧ ∃ x, call.run (s.ctx c) = .ok x ∧ s' = s.commit c x := by
  unfold act at h
  split at h
  · rename_i member
    split at h
    · rename_i x ran
      exact ⟨member, x, ran, (Except.ok.inj h).symm⟩
    · cases h
  · cases h

theorem step_cases (loops : s.Loops) (h : s.step label = some (.ok s')) :
    (∃ c fd x, label = .accept c fd ∧ Born s s' c fd x) ∨ ∃ s₁ taken made, Moved s s₁ s' label taken made := by
  unfold step at h
  split at h
  · rename_i s₁ moved
    have ended : (s.callOf label = none ∧ s' = s₁) ∨ ∃ c call x, s.callOf label = some (c, call) ∧
        c ∈ s₁.alive ∧ call.run (s₁.ctx c) = .ok x ∧ s' = s₁.commit c x := by
      split at h
      · rename_i c call made
        obtain ⟨member, x, ran, eq⟩ := act_ok (Option.some.inj h)
        exact .inr ⟨c, call, x, made, member, ran, eq⟩
      · rename_i nothing
        exact .inl ⟨nothing, (Except.ok.inj (Option.some.inj h)).symm⟩
    by_cases accept : ∃ c fd, label = .accept c fd
    · obtain ⟨c, fd, rfl⟩ := accept
      simp only [control, Option.ite_none_right_eq_some, Option.some.injEq, Except.ok.injEq] at moved
      obtain ⟨⟨handler, fresh, unused⟩, rfl⟩ := moved
      rcases ended with ⟨nothing, _⟩ | ⟨c', call, x, made, _, ran, eq⟩
      · cases nothing
      · obtain ⟨rfl, rfl⟩ := Prod.mk.inj (Option.some.inj made)
        exact .inl ⟨c, fd, x, rfl, handler, fresh, unused, ran, eq⟩
    · have old : ∀ c fd, label ≠ .accept c fd := fun c fd same => accept ⟨c, fd, same⟩
      right
      by_cases functor : ∃ r, label = .functor r
      · obtain ⟨r, rfl⟩ := functor
        obtain ⟨loops₁, cb, control, made, _, _⟩ := functor_control loops moved
        rw [made] at ended
        exact ⟨s₁, [cb], cb.call r, moved, old, loops₁, control, .functor cb r rfl made, ended⟩
      · have plain := not_exists.mp functor
        obtain ⟨loops₁, control⟩ := other_control loops plain old moved
        rcases ended with ⟨nothing, rfl⟩ | ⟨c, call, x, made, rest⟩
        · exact ⟨s', [], none, moved, old, loops₁, control, .silent plain nothing, .inl ⟨rfl, rfl⟩⟩
        · have direct := callOf_direct plain old moved made
          exact ⟨s₁, [], some (c, call), moved, old, loops₁, control,
            .direct c call plain old made direct.1 direct.2, .inr ⟨c, call, x, rfl, rest⟩⟩
  · rename_i other
    exact absurd h (other s')

theorem Control.created {taken : List Functor} (h : Control s s₁ label taken) : s₁.created = s.created := by
  cases h with
  | quiet keeps => exact keeps.created
  | called _ _ _ _ _ _ rest | tested _ _ _ _ _ rest | stored _ _ _ rest | queued _ _ rest | calledTask _ _ rest
  | pushed _ _ _ rest | removed _ _ _ _ _ rest | freed _ _ _ _ _ _ rest => exact rest ▸ rfl

theorem Control.threadId {taken : List Functor} (h : Control s s₁ label taken) :
    s₁.loop.threadId = s.loop.threadId := by
  cases h with
  | quiet _ threadId => exact threadId
  | queued loop pushed rest => exact rest ▸ pushed.threadId
  | pushed t cb _ rest => exact rest ▸ (pushCall_pushed s t cb).threadId
  | removed c loop base _ pushed rest => exact rest ▸ pushed.threadId
  | called _ _ _ _ _ _ rest | tested _ _ _ _ _ rest | stored _ _ _ rest | calledTask _ _ rest
  | freed _ _ _ _ _ _ rest => exact rest ▸ rfl

theorem removeConnection_pushed {base : EventLoop BaseFunctor} {t : Tid} (other : t ≠ base.threadId)
    (c : ConnId) : base.Pushed (removeConnection base t c) [.removeConnectionInLoop c] := by
  have pushed : base.Pushed (base.runInLoop t (.removeConnectionInLoop c)) [.removeConnectionInLoop c] :=
    runInLoop_pushed other
  obtain ⟨waiting, inserted, phase, handling, calling, threadId, inv⟩ := pushed
  refine ⟨waiting, inserted, phase, handling, calling, threadId, fun before => ?_⟩
  have after := inv before
  exact ⟨after.conserved, after.bounded, after.drained, after.looping, after.handling, after.calling,
    after.runner, after.ranBy⟩

theorem commit_loops (loops : s.Loops) (c : ConnId) (x : Ctx) :
    (s.commit c x).Loops ∧ s.loop.Pushed (s.commit c x).loop x.queued ∧
      (s.commit c x).removals = s.removals ++ if x.closed then [c] else [] := by
  have pushed := queueAll_pushed s.loop x.queued
  have removal := removeConnection_pushed loops.threads c
  have base : (s.commit c x).base = if x.closed then removeConnection s.base s.loop.threadId c else s.base := rfl
  refine ⟨⟨pushed.inv loops.loop, ?_, ?_⟩, pushed, ?_⟩
  · rw [base]
    split
    · exact removal.inv loops.base
    · exact loops.base
  · rw [base]
    split
    · rw [removal.threadId]
      exact pushed.threadId ▸ loops.threads
    · exact pushed.threadId ▸ loops.threads
  · rw [removals, base]
    split
    · rw [removal.waiting, List.filterMap_append]
      rfl
    · rw [List.append_nil, removals]

theorem reachable_loops {guard : TcpServer → Label → Prop} (h : tcpServer.Reachable guard s) : s.Loops := by
  refine h.invariant ?_ ?_
  · rintro a ⟨threadId, baseId, _, different, rfl⟩
    exact ⟨EventLoop.initial_inv threadId, EventLoop.initial_inv baseId, different⟩
  · intro a label b _ loops _ step
    rcases step_cases loops step with ⟨c, fd, x, _, born⟩ | ⟨s₁, _, _, moved⟩
    · have loops₁ : (a.newConnection c fd).Loops := ⟨loops.loop, loops.base, loops.threads⟩
      rw [born.result]
      exact (commit_loops loops₁ c x).1
    · rcases moved.ended with ⟨_, rfl⟩ | ⟨c, _, x, _, _, _, rfl⟩
      · exact moved.loops
      · exact (commit_loops moved.loops c x).1

end TcpServer

end Dserver.Net
