import Dserver.Net.OutputStream
import Dserver.Net.ServerFaults

/-!
# `handleClose`

How often a connection is closed, and what its user is told of it.
-/

namespace Dserver.Net

namespace TcpServer

variable {s s₁ s' : TcpServer} {label : Label} {taken : List Functor} {c : ConnId}

/-! ### The connection callback -/

/-- A hang-up, `removeConnectionInLoop` in the base loop, and `connectDestroyed` in the IO loop. -/
def hungUp : List Label :=
  opening ++ [.poll [(.connection 7, POLLHUP)], .visit, .hangup, .readable (.failed 0), .writable (.wrote 0),
    .handled, .doPendingFunctors, .functorsDone, .check]

def removal : List Label :=
  [.base (.enter 0), .base .check, .base (.pollReturn true), .base .handleRead, .base .doPendingFunctors,
    .baseFunctor, .wakeup 0, .poll [(.wakeup, 0)], .visit, .doPendingFunctors, .functor (.wrote 0)]

/-- When a connection is destroyed its user has been told that it is up, and never that it is down:
`handleClose` has left `kConnected` before `connectDestroyed` looks. -/
theorem down_never_notified (h : tcpServer.Reachable Lib.Machine.anyStep s) (created : c ∈ s.created)
    (_destroyed : (s.conn c).destroyed = true) :
    (s.conn c).connectionCalls = [true] ∧ (s.conn c).connectionCalls ≠ [true, false] := by
  have calls := ((reachable_inv h).life c created).calls
  exact ⟨calls, by simp [calls]⟩

theorem down_never_notified_hangup : ∃ s : TcpServer, (s.conn 7).destroyed = true ∧
    (s.conn 7).connectionCalls = [true] := by
  obtain ⟨s, reached, created, destroyed⟩ := Lib.Machine.exec_reaches tcpServer Lib.Machine.anyStep
    { loop := { threadId := 1 }, base := { threadId := 0 } } (hungUp ++ removal)
    (fun s => 7 ∈ s.created ∧ (s.conn 7).destroyed = true) ⟨1, 0, false, by decide, rfl⟩ (by decide +kernel)
  exact ⟨s, destroyed, (down_never_notified reached created destroyed).1⟩

/-- The peer hangs up: the run ends with `connectDestroyed`, without a second call of the callback. -/
theorem hangup_without_down : ∃ s, tcpServer.Reachable Lib.Machine.anyStep s ∧ 7 ∈ s.created ∧
    (s.conn 7).destroyed = true ∧ (s.conn 7).connectionCalls ≠ [true, false] :=
  Lib.Machine.exec_reaches tcpServer Lib.Machine.anyStep
    { loop := { threadId := 1 }, base := { threadId := 0 } } (hungUp ++ removal)
    (fun s => 7 ∈ s.created ∧ (s.conn 7).destroyed = true ∧ (s.conn 7).connectionCalls ≠ [true, false])
    ⟨1, 0, false, by decide, rfl⟩ (by decide +kernel)

end TcpServer

/-! ### `handleClose` -/

/-- The revents that make `handleEvent` call `closeCallback_` before `readCallback_`. -/
def Channel.hungUp (ch : Channel) : Bool := Events.test ch.revents POLLHUP && !Events.test ch.revents POLLIN

namespace TcpConnection

/-- The end of the stream is not read in a report that has already closed the connection;
`handleClose` finds its channel added; and the interest of a closed connection is left alone. -/
def ClosesSafely (conn : TcpConnection) : Call → Prop
  | .handleClose => conn.channel.index = .kAdded
  | .handleRead r => r = .data [] → conn.channel.index = .kAdded ∧ conn.channel.hungUp = false
  | .startReadInLoop => conn.state ≠ .kDisconnected
  | .stopReadInLoop => conn.state = .kDisconnected → conn.reading = false ∧ conn.channel.isReading = false
  | _ => True

instance (conn : TcpConnection) : (call : Call) → Decidable (conn.ClosesSafely call)
  | .handleClose => inferInstanceAs (Decidable (_ = _))
  | .handleRead _ => inferInstanceAs (Decidable (_ → _))
  | .startReadInLoop => inferInstanceAs (Decidable (_ ≠ _))
  | .stopReadInLoop => inferInstanceAs (Decidable (_ → _))
  | .connectEstablished | .connectDestroyed | .send .. | .sendInLoop .. | .shutdown | .shutdownInLoop
  | .retrieveInput _ | .setHighWaterMarkCallback .. | .handleWrite _ => instDecidableTrue

/-- A closed connection is not watched. -/
def Unwatched (conn : TcpConnection) : Prop := conn.state = .kDisconnected → conn.channel.index ≠ .kAdded

variable {x x' : Ctx} {call : Call}

theorem call_unwatched (allowed : x.conn.ClosesSafely call) (start : call ≠ .connectEstablished)
    (output : x.conn.Inv) (doomed : call = .connectDestroyed → x.conn.state = .kDisconnected)
    (h : x.conn.Unwatched) (ran : call.run x = .ok x') : x'.conn.Unwatched := by
  intro after
  by_cases finish : call = .connectDestroyed
  · subst finish
    have interest := run_interest ran (by simp [doomed rfl])
    simp [interest.2]
  · by_cases down : x.conn.state = .kDisconnected
    · suffices same : x'.conn.channel = x.conn.channel from same ▸ h down
      by_cases quiet : call.rereads = false
      · exact closed_channel down output quiet start finish ran
      · cases call with
        | startReadInLoop => exact absurd down allowed
        | stopReadInLoop =>
          obtain ⟨off, idle⟩ := allowed down
          rcases run_interest ran with same | ⟨on, _⟩
          · exact same.channel
          · rw [on off] at idle
            cases idle
        | _ => exact absurd rfl quiet
    · obtain ⟨kind, channel⟩ := falls_channel down after start finish ran
      have added : x.conn.channel.index = .kAdded := by
        rcases kind with rfl | rfl
        · exact allowed
        · exact (allowed rfl).1
      rw [channel, Channel.toggled_none_index added]
      simp

theorem user_live {t : Tid} (user : call.fromUser t = true) (live : x.conn.state ≠ .kDisconnected)
    (ran : call.run x = .ok x') : x'.conn.state ≠ .kDisconnected := by
  intro after
  have start : call ≠ .connectEstablished := by
    rintro rfl
    cases user
  have finish : call ≠ .connectDestroyed := by
    rintro rfl
    cases user
  rcases (falls_channel live after start finish ran).1 with rfl | rfl
  · cases user
  · cases user

theorem run_revents (start : call ≠ .connectEstablished)
    (connected : call = .connectDestroyed → x.conn.state ≠ .kConnected) (ran : call.run x = .ok x') :
    x'.conn.channel.revents = x.conn.channel.revents := by
  have interest := run_interest ran
  cases call with
  | connectEstablished => exact absurd rfl start
  | connectDestroyed => rw [(interest (connected rfl)).2]
  | send | sendInLoop | stopReadInLoop | handleWrite =>
    rcases interest with same | ⟨_, toggled⟩
    · rw [same.channel]
    · rw [toggled.channel, Channel.toggled]
  | startReadInLoop =>
    rcases interest with same | toggled
    · rw [same.channel]
    · rw [toggled.channel, Channel.toggled]
  | handleClose => rw [interest.2.channel, Channel.toggled]
  | handleRead r =>
    rcases interest with ⟨_, same, _⟩ | ⟨_, _, toggled⟩
    · rw [same]
    · rw [toggled.channel, Channel.toggled]
  | shutdown | shutdownInLoop | retrieveInput | setHighWaterMarkCallback => rw [interest.channel]

end TcpConnection

namespace TcpServer

variable {s s₁ s' : TcpServer} {label : Label} {taken : List Functor} {c : ConnId}

theorem reachable_unwatched (h : tcpServer.Reachable (Careful TcpConnection.ClosesSafely) s) :
    ∀ c ∈ s.created, (s.conn c).Unwatched := by
  refine reachable_each ?_ ?_ ?_ h
  · intro a b settled known down
    rw [settled.index]
    exact known (settled.down down)
  · intro x x' ran _ down
    have effect := TcpConnection.connectEstablished_frame ran
    rw [effect.2.state] at down
    cases down
  · intro x x' call allowed start output _ doomed known ran
    exact TcpConnection.call_unwatched allowed start output doomed known ran

/-- Until `handleClose` has run in the report at hand the connection is open. -/
structure Closing (s : TcpServer) : Prop where
  batch : s.Batch fun conn => conn.state ≠ .kDisconnected
  close : ∀ c, s.handler = .event c .close → (s.conn c).state ≠ .kDisconnected
  read : ∀ c, s.handler = .event c .read → (s.conn c).state = .kDisconnected → (s.conn c).channel.hungUp = true

theorem settled_live (a b : TcpConnection) (h : a.Settled b) (live : a.state ≠ .kDisconnected) :
    b.state ≠ .kDisconnected := fun down => live (h.down down)

theorem control_closing (unwatched : ∀ c ∈ s.created, (s.conn c).Unwatched) (registered : s.Registered)
    (h : s.Closing) (control : Control s s₁ label taken) (focus : Focus s s₁ label) : s₁.Closing := by
  have batch := control_batch settled_live
    (fun c member index down => unwatched c (registered.subset member) down index) registered h.batch control focus
  have live : ∀ c, (s.conn c).state ≠ .kDisconnected → (s₁.conn c).state ≠ .kDisconnected :=
    fun c => settled_live _ _ (control_settled control c)
  have silent : s₁.handler = .idle ∨ s₁.handler = .functor ∨ (∃ c, s₁.handler = .event c .write) →
      s₁.Closing := by
    intro other
    refine ⟨batch, fun c now => ?_, fun c now => ?_⟩
    · rcases other with same | same | ⟨d, same⟩ <;> simp [same] at now
    · rcases other with same | same | ⟨d, same⟩ <;> simp [same] at now
  cases focus with
  | kept handler rest phase revents =>
    refine ⟨batch, fun c now => live c (h.close c (handler ▸ now)), fun c now down => ?_⟩
    rw [Channel.hungUp, revents]
    exact h.read c (handler ▸ now) ((control_settled control c).down down)
  | turned calm finished handler rest =>
    refine silent (.inl ?_)
    rw [handler]
    rcases calm with idle | outside | head
    · exact idle
    · exact h.batch.placed.idle (by simp [outside]) (by simp [outside])
    · exact h.batch.placed.idle (by simp [head]) (by simp [head])
  | polled reports phase after may nodup handler rest =>
    refine silent (.inl ?_)
    rw [handler]
    exact h.batch.placed.idle (by simp [phase]) (by simp [phase])
  | visited entry phase after rest handler revents =>
    have first : ∀ c stage, s₁.handler = .event c stage → entry = .connection c ∧ stage = .close := by
      intro c stage now
      rw [handler] at now
      cases entry <;> simp_all [Entry.handler]
    refine ⟨batch, fun c now => ?_, fun c now => ?_⟩
    · obtain ⟨rfl, _⟩ := first c .close now
      exact live c (h.batch.reported c (by rw [rest]; exact List.mem_cons_self)).2
    · cases (first c .read now).2
  | staged c before later was handler rest phase revents next =>
    rcases next with ⟨_, rfl, rfl⟩ | rfl | rfl
    · have open' := live c (h.close c was)
      refine ⟨batch, fun d now => ?_, fun d now down => ?_⟩
      · simp [handler] at now
      · obtain rfl : c = d := by simpa [handler] using now
        exact absurd down open'
    · exact silent (.inr (.inr ⟨c, handler⟩))
    · refine ⟨batch, fun d now => ?_, fun d now => ?_⟩ <;> simp [handler] at now
  | returned was handler rest phase =>
    rcases handler with idle | ⟨c, _, later⟩
    · exact silent (.inl idle)
    · exact silent (.inr (.inr ⟨c, later⟩))
  | ran idle phase after handler rest =>
    rcases handler with later | later
    · exact silent (.inl later)
    · exact silent (.inr (.inl later))

theorem born_handler {fd : Fd} {x : Ctx} (born : Born s s' c fd x) : s'.handler = .acceptor := by
  have silent : x.message = false := (TcpConnection.run_interest born.ran).1
  rw [born.result]
  simp [commit, silent, newConnection, born.handler]

theorem commit_closing {call : TcpConnection.Call} {x : Ctx} (inv : s₁.Inv taken) (h : s₁.Closing)
    (moved : Moved s s₁ s' label taken (some (c, call))) (member : c ∈ s₁.alive)
    (ran : call.run (s₁.ctx c) = .ok x) : (s₁.commit c x).Closing := by
  have source := moved.source
  have connected := inv.connected member moved.origin.made
  have revents : x.conn.channel.revents = (s₁.conn c).channel.revents :=
    TcpConnection.run_revents moved.origin.start connected ran
  have batch := commit_batch moved.loops inv h.batch moved member ran
    fun user live => TcpConnection.user_live user live ran
  -- the handler is as before, unless `messageCallback_` is to run
  have before : ∀ d stage, (s₁.commit c x).handler = .event d stage → s₁.handler = .event d stage := by
    intro d stage now
    rcases commit_handler (s := s₁) (c := c) (x := x) with same | ⟨_, message⟩
    · exact same ▸ now
    · rw [message] at now
      cases now
  have functors : s₁.loop.phase = .functors → ∀ d stage, s₁.handler ≠ .event d stage := by
    intro phase d stage now
    have handle := h.batch.placed.handler .handle (by simp [now, Handler.phase])
    rw [phase] at handle
    cases handle
  refine ⟨batch, fun d now => ?_, fun d now down => ?_⟩
  · have was := before d .close now
    by_cases same : d = c
    · subst same
      rw [commit_self]
      cases source with
      | functor _ _ _ _ phase => exact absurd was (functors phase d .close)
      | user user => exact TcpConnection.user_live user (h.close d was) ran
      | hangup _ same | readable _ _ same | writable _ _ same =>
        rw [same] at was
        cases was
    · rw [commit_other same]
      exact h.close d was
  · have was := before d .read now
    by_cases same : d = c
    · subst same
      rw [commit_self] at down ⊢
      rw [Channel.hungUp, revents]
      cases source with
      | functor _ _ _ _ phase => exact absurd was (functors phase d .read)
      | user user =>
        by_cases closed : (s₁.conn d).state = .kDisconnected
        · exact h.read d was closed
        · exact absurd down (TcpConnection.user_live user closed ran)
      | hangup _ same hup quiet =>
        rw [same]
        simp [hup, quiet]
      | readable _ _ same | writable _ _ same =>
        rw [same] at was
        cases was
    · rw [commit_other same] at down ⊢
      exact h.read d was down

theorem reachable_closing (h : tcpServer.Reachable (Careful TcpConnection.ClosesSafely) s) : s.Closing := by
  refine h.invariant (P := Closing) ?_ ?_
  · intro a init
    refine ⟨initial_batch init, ?_, ?_⟩
    all_goals
      obtain ⟨threadId, baseId, _, _, rfl⟩ := init
      simp
  · intro a label b reached closing _ step
    have loops := reachable_loops reached
    have inv := reachable_inv reached
    rcases step_cases loops step with ⟨c, fd, x, _, born⟩ | ⟨s₁, taken, made, moved⟩
    · have batch := born_batch loops closing.batch born
      have handler := born_handler born
      exact ⟨batch, fun d now => by simp [handler] at now, fun d now => by simp [handler] at now⟩
    · have closing₁ := control_closing (reachable_unwatched reached) inv.registered closing moved.control
        (control_focus moved.old moved.step)
      rcases moved.ended with ⟨rfl, rfl⟩ | ⟨c, call, x, rfl, member, ran, rfl⟩
      · exact closing₁
      · exact commit_closing (control_inv inv moved.control) closing₁ moved member ran

/-- In every run that closes safely, and in which no `shutdown` of another thread sets `state_` after
`handleClose`, `handleClose` runs at most once, `connectDestroyed` is queued at most once, and the assertions of
`handleClose` and `EventLoop::removeConnection` hold. -/
theorem closes_once (h : tcpServer.Reachable (Careful TcpConnection.ClosesSafely) s) (created : c ∈ s.created) :
    (s.conn c).closeCalls ≤ 1 ∧ s.loop.queue.inserted.count (.connectDestroyed c) ≤ 1 ∧
    ∀ label fault, Careful TcpConnection.ClosesSafely s label →
      s.step label = some (.error (.connection c fault)) → fault ≠ .handleClose ∧ fault ≠ .removeConnection := by
  have loops := reachable_loops h
  have inv := reachable_inv h
  have life := inv.life c created
  have known := reachable_closedOnce (Careful.onTime h)
  have closes := (known c created).le_one
  refine ⟨closes, by have route := life.route; omega, ?_⟩
  intro label fault careful failed
  have foreign : fault.foreign = true := by
    rcases step_fault loops failed with ⟨fd, _, ran⟩ | ⟨s₁, taken, call, fails⟩
    · exact established_fault ran
    · have once := control_closedOnce careful.1 known fails.control
      rcases fails.fault (control_inv inv fails.control) once with foreign | ⟨_, kind, down⟩
      · exact foreign
      · have closing := reachable_closing h
        rw [fails.source.conn] at down
        have allowed := careful.2 (c, call) fails.called
        cases fails.source with
        | functor cb _ _ made => cases cb <;> rcases kind with rfl | rfl <;> cases made
        | user user => rcases kind with rfl | rfl <;> cases user
        | hangup was => exact absurd down (closing.close c was)
        | readable r was =>
          obtain rfl : r = .data [] := by simpa using kind
          have hung := closing.read c was down
          rw [(allowed rfl).2] at hung
          cases hung
        | writable => simp at kind
  constructor
  · rintro rfl
    cases foreign
  · rintro rfl
    cases foreign

/-- A hang-up reported alone closes the connection once. -/
theorem closes_once_hangup : ∃ s : TcpServer, (s.conn 7).state = .kDisconnected ∧ (s.conn 7).closeCalls ≤ 1 := by
  obtain ⟨s, reached, created, state⟩ := Lib.Machine.exec_reaches tcpServer (Careful TcpConnection.ClosesSafely)
    { loop := { threadId := 1 }, base := { threadId := 0 } } (hungUp ++ removal)
    (fun s => 7 ∈ s.created ∧ (s.conn 7).state = .kDisconnected) ⟨1, 0, false, by decide, rfl⟩
    (by decide +kernel)
  exact ⟨s, state, (closes_once reached created).1⟩

/-- POLLHUP with POLLPRI and without POLLIN: the hang-up closes the connection, and the read that follows in
the same report finds the end of the stream and closes it again. -/
theorem hangup_then_read_closes_twice : ∃ s, tcpServer.Reachable Lib.Machine.anyStep s ∧ 7 ∈ s.created ∧
    ∃ label, s.step label = some (.error (.connection 7 .handleClose)) := by
  obtain ⟨s, reached, created, failed⟩ := Lib.Machine.exec_reaches tcpServer Lib.Machine.anyStep
    { loop := { threadId := 1 }, base := { threadId := 0 } }
    (opening ++ [.poll [(.connection 7, POLLHUP ||| POLLPRI)], .visit, .hangup])
    (fun s => 7 ∈ s.created ∧ stepFault s (.readable (.data [])) = some (.connection 7 .handleClose))
    ⟨1, 0, false, by decide, rfl⟩ (by decide +kernel)
  exact ⟨s, reached, created, _, stepFault_eq failed⟩

end TcpServer

end Dserver.Net
