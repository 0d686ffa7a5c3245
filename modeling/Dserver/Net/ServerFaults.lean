import Dserver.Net.Dispatch

/-!
# Closed channels and failed assertions

What a call can still do to the channel of a closed connection, and which call of a step fails when a
step fails an assertion of a connection.
-/

namespace Dserver.Net

namespace TcpConnection

variable {x x' : Ctx} {call : Call}

/-- The two calls that change the channel's interest whatever `state_` is. -/
def Call.rereads : Call → Bool
  | startReadInLoop | stopReadInLoop => true
  | _ => false

theorem closed_channel (down : x.conn.state = .kDisconnected) (output : x.conn.Inv)
    (quiet : call.rereads = false) (start : call ≠ .connectEstablished) (finish : call ≠ .connectDestroyed)
    (ran : call.run x = .ok x') : x'.conn.channel = x.conn.channel := by
  have interest := run_interest ran
  cases call with
  | connectEstablished => exact absurd rfl start
  | connectDestroyed => exact absurd rfl finish
  | send | sendInLoop =>
    rcases interest with same | ⟨live, _⟩
    · exact same.channel
    · exact absurd down live
  | startReadInLoop | stopReadInLoop => cases quiet
  | handleClose => exact absurd down interest.1
  | handleRead r =>
    rcases interest with ⟨_, same, _⟩ | ⟨_, live, _⟩
    · exact same
    · exact absurd down live
  | handleWrite =>
    rcases interest with same | ⟨writing, _⟩
    · exact same.channel
    · rw [output.down down] at writing
      cases writing
  | shutdown | shutdownInLoop | retrieveInput | setHighWaterMarkCallback => exact interest.channel

theorem falls_channel (live : x.conn.state ≠ .kDisconnected) (after : x'.conn.state = .kDisconnected)
    (start : call ≠ .connectEstablished) (finish : call ≠ .connectDestroyed) (ran : call.run x = .ok x') :
    (call = .handleClose ∨ call = .handleRead (.data [])) ∧
      x'.conn.channel = x.conn.channel.toggled fun _ => Channel.kNoneEvent := by
  have interest := run_interest ran
  have effect := run_effect ran
  have moved : x'.conn.state ≠ x.conn.state := by
    rw [after]
    exact live.symm
  cases call with
  | connectEstablished => exact absurd rfl start
  | connectDestroyed => exact absurd rfl finish
  | send =>
    rcases effect with ⟨_, rfl⟩ | ⟨_, _, frame⟩
    · exact absurd rfl moved
    · exact absurd frame.state moved
  | sendInLoop =>
    obtain ⟨_, frame, _⟩ := effect
    exact absurd frame.state moved
  | shutdown =>
    rcases effect with ⟨_, rfl⟩ | ⟨_, frame⟩
    · exact absurd rfl moved
    · rw [frame.state] at after
      cases after
  | handleClose => exact ⟨.inl rfl, interest.2.channel⟩
  | handleRead r =>
    rcases interest with ⟨_, _, state⟩ | ⟨rfl, _, toggled⟩
    · exact absurd state moved
    · exact ⟨.inr rfl, toggled.channel⟩
  | shutdownInLoop | startReadInLoop | stopReadInLoop | retrieveInput | setHighWaterMarkCallback | handleWrite =>
    exact absurd effect.state moved

theorem run_known (start : call ≠ .connectEstablished) (finish : call ≠ .connectDestroyed)
    (ran : call.run x = .ok x') :
    x'.conn.channel = x.conn.channel ∨ x'.conn.channel.index ≠ .kNew := by
  have interest := run_interest ran
  have toggles : ∀ {change}, Ctx.Toggles change x x' → x'.conn.channel.index ≠ .kNew := by
    intro change toggled
    rw [toggled.channel]
    exact Channel.toggled_index_ne
  cases call with
  | connectEstablished => exact absurd rfl start
  | connectDestroyed => exact absurd rfl finish
  | send | sendInLoop | stopReadInLoop | handleWrite =>
    rcases interest with same | ⟨_, toggled⟩
    · exact .inl same.channel
    · exact .inr (toggles toggled)
  | startReadInLoop =>
    rcases interest with same | toggled
    · exact .inl same.channel
    · exact .inr (toggles toggled)
  | handleClose => exact .inr (toggles interest.2)
  | handleRead r =>
    rcases interest with ⟨_, same, _⟩ | ⟨_, _, toggled⟩
    · exact .inl same
    · exact .inr (toggles toggled)
  | shutdown | shutdownInLoop | retrieveInput | setHighWaterMarkCallback => exact .inl interest.channel

end TcpConnection

namespace TcpServer

variable {s s₁ s' : TcpServer} {label : Label} {taken : List Functor} {c : ConnId}

/-! ### Steps that fail an assertion of a connection -/

theorem advance_fault {step : EventLoop.Label Functor} {next : EventLoop Functor → TcpServer} {fault : Fault}
    {f : TcpConnection.Fault} (h : s.advance step next = some (.error fault)) : fault ≠ .connection c f := by
  unfold advance at h
  split at h
  · cases h
  · obtain rfl := Except.error.inj (Option.some.inj h)
    intro same
    cases same
  · cases h

theorem visit_fault {entry : Entry} {rest : List Entry} {fault : Fault} {f : TcpConnection.Fault}
    (h : s.visit entry rest = some (.error fault)) : fault ≠ .connection c f := by
  unfold visit at h
  split at h
  · exact advance_fault h
  · cases h
  · cases h
  · split at h
    · cases h
    · obtain rfl := Except.error.inj (Option.some.inj h)
      intro same
      cases same

theorem destroy_fault {t : Tid} {b : ConnId} {fault : Fault} {f : TcpConnection.Fault}
    (h : s.destroy t b = .error fault) : fault ≠ .connection c f := by
  unfold destroy at h
  dsimp only at h
  repeat' split at h
  all_goals cases h
  all_goals (intro same; cases same)

theorem control_fault {fault : Fault} {f : TcpConnection.Fault} (h : s.control label = some (.error fault)) :
    fault ≠ .connection c f := by
  cases label with
  | check | wakeup => exact advance_fault h
  | enter | poll | doPendingFunctors | functorsDone | quit =>
    simp only [control, Option.ite_none_right_eq_some] at h
    exact advance_fault h.2
  | visit =>
    simp only [control] at h
    split at h
    · exact visit_fault h
    · cases h
  | functor r =>
    simp only [control] at h
    split at h
    · exact advance_fault h
    · cases h
  | release t b =>
    simp only [control, Option.ite_none_right_eq_some, Option.some.injEq] at h
    exact destroy_fault h.2
  | base l =>
    simp only [control, Option.ite_none_right_eq_some] at h
    obtain ⟨_, h⟩ := h
    split at h
    · cases h
    · obtain rfl := Except.error.inj (Option.some.inj h)
      intro same
      cases same
    · cases h
  | call t b op =>
    simp only [control, Option.ite_none_right_eq_some] at h
    obtain ⟨_, h⟩ := h
    split at h <;> cases h
  | shutdown t b =>
    simp only [control, Option.ite_none_right_eq_some] at h
    obtain ⟨_, h⟩ := h
    split at h <;> cases h
  | hangup | readable | writable | handled | userReturn | push | setState =>
    simp only [control] at h
    split at h <;> cases h
  | own | queueTask | accept | callTask =>
    simp only [control, Option.ite_none_right_eq_some] at h
    cases h.2
  | baseFunctor =>
    simp only [control, Option.ite_none_right_eq_some] at h
    obtain ⟨_, h⟩ := h
    split at h <;> cases h

/-- The call that fails, after the control part of its step. -/
structure Fails (s s₁ : TcpServer) (label : Label) (taken : List Functor) (c : ConnId)
    (call : TcpConnection.Call) (fault : TcpConnection.Fault) : Prop where
  loops : s₁.Loops
  control : Control s s₁ label taken
  called : s.callOf label = some (c, call)
  source : Source s s₁ label c call
  made : Made s₁.loop.threadId taken c call
  member : c ∈ s₁.alive
  start : call ≠ .connectEstablished
  ran : call.run (s₁.ctx c) = .error fault

theorem act_error {call : TcpConnection.Call} {b : ConnId} {fault : TcpConnection.Fault}
    (h : s.act b call = .error (.connection c fault)) :
    b = c ∧ b ∈ s.alive ∧ call.run (s.ctx b) = .error fault := by
  unfold act at h
  split at h
  · rename_i member
    split at h
    · cases h
    · rename_i other ran
      obtain ⟨rfl, rfl⟩ := Fault.connection.inj (Except.error.inj h)
      exact ⟨rfl, member, ran⟩
  · cases h

theorem step_fault {fault : TcpConnection.Fault} (loops : s.Loops)
    (h : s.step label = some (.error (.connection c fault))) :
    (∃ fd, label = .accept c fd ∧
      TcpConnection.connectEstablished ((s.newConnection c fd).ctx c) = .error fault) ∨
    ∃ s₁ taken call, Fails s s₁ label taken c call fault := by
  unfold step at h
  split at h
  · rename_i s₁ moved
    split at h
    · rename_i b call made
      obtain ⟨rfl, member, ran⟩ := act_error (Option.some.inj h)
      by_cases accept : ∃ d fd, label = .accept d fd
      · obtain ⟨d, fd, rfl⟩ := accept
        simp only [control, Option.ite_none_right_eq_some, Option.some.injEq, Except.ok.injEq] at moved
        obtain ⟨_, rfl⟩ := moved
        obtain ⟨rfl, rfl⟩ := Prod.mk.inj (Option.some.inj made)
        exact .inl ⟨fd, rfl, ran⟩
      · have old : ∀ d fd, label ≠ .accept d fd := fun d fd same => accept ⟨d, fd, same⟩
        right
        by_cases functor : ∃ r, label = .functor r
        · obtain ⟨r, rfl⟩ := functor
          obtain ⟨loops₁, cb, control, called, _, _⟩ := functor_control loops moved
          obtain ⟨phase, conn⟩ := functor_moved moved
          rw [called] at made
          refine ⟨s₁, [cb], call, loops₁, control, called.trans made, .functor cb r rfl made phase conn,
            .inr ⟨cb, r, rfl, made⟩, member, ?_, ran⟩
          rintro rfl
          cases cb <;> cases made
        · have plain := not_exists.mp functor
          obtain ⟨loops₁, control⟩ := other_control loops plain old moved
          obtain ⟨direct, start⟩ := callOf_direct plain old moved made
          refine ⟨s₁, [], call, loops₁, control, made, direct_source plain old moved made,
            .inl ⟨rfl, ?_⟩, member, start, ran⟩
          rw [control.threadId]
          exact direct
    · cases h
  · rename_i other
    cases faulted : s.control label with
    | none =>
      rw [faulted] at h
      cases h
    | some result =>
      rw [faulted] at h
      obtain rfl := Option.some.inj h
      exact absurd rfl (control_fault (c := c) faulted)

theorem onTime_of_call {made : ConnId × TcpConnection.Call} (h : s.callOf label = some made) : s.OnTime label := by
  cases label with
  | setState => cases h
  | _ => trivial

/-- A connection whose only `connectDestroyed` is about to run has not been destroyed. -/
theorem Life.waiting (h : s.Life [.connectDestroyed c] c) (once : (s.conn c).ClosedOnce) :
    (s.conn c).destroyed = false := by
  have waits := h.waits
  have route := h.route
  have closes := once.le_one
  rw [List.singleton_append, List.count_cons_self] at waits
  cases destroyed : (s.conn c).destroyed with
  | false => rfl
  | true =>
    rw [destroyed, if_pos rfl] at waits
    omega

/-- `connectDestroyed` runs once, in a functor, on a connection that is closed and in `connections_`. -/
theorem Fails.destroyed {call : TcpConnection.Call} {fault : TcpConnection.Fault}
    (h : Fails s s₁ label taken c call fault) (inv : s₁.Inv taken) (once : ∀ c ∈ s₁.created, (s₁.conn c).ClosedOnce)
    (finish : call = .connectDestroyed) :
    (s₁.ctx c).conn.state ≠ .kConnected ∧ (s₁.ctx c).id ∈ (s₁.ctx c).connections ∧
      (s₁.ctx c).eventHandling = false := by
  subst finish
  refine ⟨inv.connected h.member h.made rfl, ?_, ?_⟩
  · have created := inv.registered.subset h.member
    have life := inv.life c created
    rw [h.made.destroyed] at life
    exact life.member.mpr (life.waiting (once c created))
  · have functors : s₁.loop.phase = .functors := by
      cases h.source with
      | functor _ _ _ _ phase => exact phase
      | user user => cases user
    change s₁.loop.eventHandling = false
    by_contra handling
    have phase := h.loops.loop.handling.mp (by simpa using handling)
    rw [functors] at phase
    cases phase

theorem Fails.fault {call : TcpConnection.Call} {fault : TcpConnection.Fault}
    (h : Fails s s₁ label taken c call fault) (inv : s₁.Inv taken) (once : ∀ c ∈ s₁.created, (s₁.conn c).ClosedOnce) :
    fault.foreign = true ∨ (fault = .handleClose ∧ (call = .handleClose ∨ call = .handleRead (.data [])) ∧
      (s₁.conn c).state = .kDisconnected) := by
  rcases TcpConnection.run_fault h.start (h.destroyed inv once) h.ran with foreign | ⟨rfl, kind, other⟩
  · exact .inl foreign
  · refine .inr ⟨rfl, kind, ?_⟩
    have established := (inv.life c (inv.registered.subset h.member)).established
    cases state : (s₁.conn c).state with
    | kDisconnected => rfl
    | kConnecting => exact absurd state established
    | kConnected => exact absurd state other.1
    | kDisconnecting => exact absurd state other.2

theorem established_fault {fd : Fd} {fault : TcpConnection.Fault}
    (h : TcpConnection.connectEstablished ((s.newConnection c fd).ctx c) = .error fault) : fault.foreign = true := by
  unfold TcpConnection.connectEstablished at h
  split at h
  · rcases Lib.bind_error h with failed | ⟨y, _, h⟩
    · exact TcpConnection.toggle_foreign failed
    · cases h
  · rename_i other
    refine absurd ?_ other
    simp only [ctx, newConnection_self]

def stepFault (s : TcpServer) (label : Label) : Option Fault :=
  match s.step label with
  | some (.error fault) => some fault
  | _ => none

theorem stepFault_eq {fault : Fault} (h : stepFault s label = some fault) : s.step label = some (.error fault) := by
  unfold stepFault at h
  split at h
  · rename_i other failed
    rw [failed, Option.some.inj h]
  · cases h

end TcpServer

end Dserver.Net
