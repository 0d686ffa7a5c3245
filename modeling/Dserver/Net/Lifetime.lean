import Dserver.Net.Removal

/-!
# How long a connection lives

`send`, `shutdown`, `startRead` and `stopRead` bind `this` into the functor they queue, not a shared
pointer. What keeps the connection alive until that functor runs is `connections_`, and it is erased from
there by `connectDestroyed`, which waits in the same queue.
-/

namespace Dserver.Net

namespace Functor

/-- The connection that a functor bound to `this` is run on. -/
def raw : Functor → Option ConnId
  | sendInLoop c _ _ | shutdownInLoop c | startReadInLoop c | stopReadInLoop c => some c
  | connectDestroyed _ | writeCompleteCallback _ | highWaterMarkCallback _ _ | task => none

def destroys : Functor → Option ConnId
  | connectDestroyed c => some c
  | _ => none

theorem raw_callback {cb : Functor} {c : ConnId} (h : cb.IsCallback c) : cb.raw = none := by
  rcases h with rfl | ⟨_, rfl⟩
  · rfl
  · rfl

theorem destroys_eq {cb : Functor} {c : ConnId} (h : cb.destroys = some c) : cb = .connectDestroyed c := by
  cases cb with
  | connectDestroyed d => rw [Option.some.inj h]
  | _ => cases h

end Functor

theorem UserCall.raw_functor {t : Tid} {c d : ConnId} {op : UserCall} (h : d ∈ (op.functor t c).raw) : d = c := by
  cases op <;> exact (Option.some.inj h).symm

namespace TcpServer

variable {s s₁ s' : TcpServer} {label : Label} {taken : List Functor} {c : ConnId}

/-- A functor bound to `this` is pushed before the functor that destroys the connection. -/
def InTime (s : TcpServer) : Label → Prop
  | .push t => ∀ cb ∈ s.calling.lookup t, ∀ c ∈ cb.raw, Functor.connectDestroyed c ∉ s.loop.queue.inserted
  | _ => True

/-- Calls from other threads are in time, and a destroyed connection is not made to read again. -/
def Lives (s : TcpServer) (label : Label) : Prop := Careful TcpConnection.StaysRemoved s label ∧ s.InTime label

instance (s : TcpServer) (label : Label) : Decidable (s.InTime label) :=
  match label with
  | .push t => inferInstanceAs (Decidable (∀ cb ∈ s.calling.lookup t, ∀ c ∈ cb.raw,
      Functor.connectDestroyed c ∉ s.loop.queue.inserted))
  | .enter | .check | .poll _ | .visit | .hangup | .readable _ | .writable _ | .handled | .userReturn
  | .doPendingFunctors | .functor _ | .functorsDone | .own _ _ | .queueTask | .accept _ _ | .call _ _ _
  | .shutdown _ _ | .setState _ | .callTask _ | .wakeup _ | .quit _ | .release _ _ | .base _ | .baseFunctor =>
    instDecidableTrue

instance (s : TcpServer) (label : Label) : Decidable (s.Lives label) :=
  inferInstanceAs (Decidable (_ ∧ _))

theorem Lives.reachable (h : tcpServer.Reachable Lives s) :
    tcpServer.Reachable (Careful TcpConnection.StaysRemoved) s :=
  h.mono fun _ _ lives => lives.1

/-! ### The channel that is being handled -/

/-- Only the current channel is in `handleEvent`. -/
def Handling (s : TcpServer) : Prop := ∀ c, (s.conn c).channel.eventHandling = true → s.current = some c

theorem Handling.of_eq (h : s.Handling)
    (same : ∀ c, (s₁.conn c).channel.eventHandling = (s.conn c).channel.eventHandling)
    (current : s₁.current = s.current) : s₁.Handling := by
  intro c on
  rw [current]
  exact h c (same c ▸ on)

theorem visit_handling {entry : Entry} {rest : List Entry} (idle : s.handler = .idle) (h : s.Handling)
    (step : s.visit entry rest = some (.ok s₁)) : s₁.Handling := by
  have silent : s.current = none := by rw [current, idle]
  unfold visit at step
  split at step
  · obtain ⟨loop, _, rfl⟩ := advance_ok step
    exact h.of_eq (fun _ => rfl) rfl
  · obtain rfl := Except.ok.inj (Option.some.inj step)
    exact h.of_eq (fun _ => rfl) silent.symm
  · obtain rfl := Except.ok.inj (Option.some.inj step)
    exact h.of_eq (fun _ => rfl) silent.symm
  · rename_i c
    split at step
    · obtain rfl := Except.ok.inj (Option.some.inj step)
      intro d on
      by_cases same : d = c
      · rw [same]
        rfl
      · simp only [setChannel, Function.update_of_ne same] at on
        have now := h d on
        rw [silent] at now
        cases now
    · cases step

theorem handled_handling (h : s.Handling) (step : s.control .handled = some (.ok s₁)) :
    s₁.Handling := by
  simp only [control] at step
  split at step
  · rename_i c was
    obtain rfl := Except.ok.inj (Option.some.inj step)
    intro d on
    by_cases same : d = c
    · simp [setChannel, same] at on
    · simp only [setChannel, Function.update_of_ne same] at on
      have now := h d on
      rw [current, was] at now
      exact absurd (Option.some.inj now).symm same
  · cases step

theorem setRevents_handling (reports : List (Entry × Events)) (c : ConnId) :
    (s.setRevents reports c).channel.eventHandling = (s.conn c).channel.eventHandling := by
  unfold setRevents
  split
  · rfl
  · rfl

theorem enterCall_handling (t : Tid) (c d : ConnId) (op : UserCall) :
    ((s.enterCall t c op).conn d).channel.eventHandling = (s.conn d).channel.eventHandling := by
  by_cases same : d = c
  · subst same
    rw [enterCall_self]
    cases op <;> rfl
  · rw [enterCall_other same]

theorem setState_handling (t : Tid) (c d : ConnId) :
    ((s.setState t c).conn d).channel.eventHandling = (s.conn d).channel.eventHandling := by
  by_cases same : d = c
  · subst same
    rw [setState_self]
  · rw [setState_other same]

theorem Handling.quiet (h : s.Handling) (conn : s₁.conn = s.conn) (current : s₁.current = s.current) : s₁.Handling :=
  h.of_eq (fun c => by rw [conn]) current

theorem control_handling (old : ∀ c fd, label ≠ .accept c fd) (h : s.Handling)
    (step : s.control label = some (.ok s₁)) : s₁.Handling := by
  cases label with
  | enter | doPendingFunctors | functorsDone | quit =>
    simp only [control, Option.ite_none_right_eq_some] at step
    obtain ⟨loop, _, rfl⟩ := advance_ok step.2
    exact h.quiet rfl rfl
  | wakeup =>
    obtain ⟨loop, _, rfl⟩ := advance_ok step
    exact h.quiet rfl rfl
  | check =>
    obtain ⟨loop, _, rfl⟩ := advance_ok step
    split
    · exact h.quiet rfl rfl
    · exact h.quiet rfl rfl
  | poll reports =>
    simp only [control, Option.ite_none_right_eq_some] at step
    obtain ⟨loop, _, rfl⟩ := advance_ok step.2
    exact h.of_eq (setRevents_handling reports) rfl
  | visit =>
    simp only [control] at step
    split at step
    · rename_i entry rest phase idle listed
      exact visit_handling idle h step
    · cases step
  | hangup | readable | writable =>
    simp only [control] at step
    split at step
    · rename_i d was
      obtain rfl := Except.ok.inj (Option.some.inj step)
      exact h.quiet rfl (by simp only [current, was])
    · cases step
  | handled => exact handled_handling h step
  | userReturn =>
    simp only [control] at step
    split at step
    iterate 4
      · rename_i was
        obtain rfl := Except.ok.inj (Option.some.inj step)
        exact h.quiet rfl (by simp only [current, was])
    all_goals cases step
  | functor r =>
    simp only [control] at step
    split at step
    · rename_i cb rest idle batch
      obtain ⟨loop, _, rfl⟩ := advance_ok step
      refine h.quiet rfl ?_
      simp only [current, idle]
      cases (cb.call r).isSome <;> rfl
    · cases step
  | own d call =>
    simp only [control, Option.ite_none_right_eq_some, Option.some.injEq, Except.ok.injEq] at step
    obtain ⟨_, rfl⟩ := step
    exact h.quiet rfl rfl
  | queueTask =>
    simp only [control, Option.ite_none_right_eq_some, Option.some.injEq, Except.ok.injEq] at step
    obtain ⟨_, rfl⟩ := step
    exact h.quiet rfl rfl
  | accept d fd => exact absurd rfl (old d fd)
  | call t d op =>
    simp only [control, Option.ite_none_right_eq_some] at step
    obtain ⟨_, step⟩ := step
    split at step
    · obtain rfl := Except.ok.inj (Option.some.inj step)
      exact h.of_eq (fun e => enterCall_handling t d e op) rfl
    · obtain rfl := Except.ok.inj (Option.some.inj step)
      exact h.quiet rfl rfl
  | shutdown t d =>
    simp only [control, Option.ite_none_right_eq_some] at step
    obtain ⟨_, step⟩ := step
    split at step
    · obtain rfl := Except.ok.inj (Option.some.inj step)
      exact h.quiet rfl rfl
    · obtain rfl := Except.ok.inj (Option.some.inj step)
      exact h.quiet rfl rfl
  | setState t =>
    simp only [control] at step
    split at step
    · rename_i d found
      obtain rfl := Except.ok.inj (Option.some.inj step)
      exact h.of_eq (fun e => setState_handling t d e) rfl
    · cases step
  | callTask t =>
    simp only [control, Option.ite_none_right_eq_some, Option.some.injEq, Except.ok.injEq] at step
    obtain ⟨_, rfl⟩ := step
    exact h.of_eq (fun _ => rfl) rfl
  | push t =>
    simp only [control] at step
    split at step
    · obtain rfl := Except.ok.inj (Option.some.inj step)
      exact h.of_eq (fun _ => rfl) rfl
    · cases step
  | release t d =>
    obtain ⟨ok, _⟩ := Option.ite_none_right_eq_some.mp step
    simp only [control, if_pos ok, Option.some.injEq, destroy] at step
    split at step
    · cases step
    · split at step
      · cases step
      · split at step
        · cases step
        · obtain rfl := Except.ok.inj step
          exact h.quiet rfl rfl
  | base l =>
    simp only [control, Option.ite_none_right_eq_some] at step
    obtain ⟨_, step⟩ := step
    split at step
    · obtain rfl := Except.ok.inj (Option.some.inj step)
      exact h.quiet rfl rfl
    · cases step
    · cases step
  | baseFunctor =>
    simp only [control, Option.ite_none_right_eq_some] at step
    obtain ⟨_, step⟩ := step
    split at step
    · obtain rfl := Except.ok.inj (Option.some.inj step)
      exact h.quiet rfl rfl
    · obtain rfl := Except.ok.inj (Option.some.inj step)
      exact h.quiet rfl rfl
    · cases step

end TcpServer

theorem TcpConnection.run_handling {x x' : Ctx} {call : Call}
    (connected : call = .connectDestroyed → x.conn.state ≠ .kConnected) (ran : call.run x = .ok x') :
    x'.conn.channel.eventHandling = x.conn.channel.eventHandling := by
  have interest := run_interest ran
  cases call with
  | connectEstablished => rw [interest.2, Channel.toggled]
  | connectDestroyed => rw [(interest (connected rfl)).2]
  | send | sendInLoop | stopReadInLoop | handleWrite =>
    rcases interest with same | ⟨_, toggled⟩
    · rw [same.channel]
    · rw [toggled.channel, Channel.toggled]
  | startReadInLoop =>
    rcases interest with same | toggled
    · rw [same.channel]
    · rw [toggled.channel, Channel.toggled]
  | handleClose => rw [interest.2.channel, Channel.toggled]
  | handleRead r =>
    rcases interest with ⟨_, same, _⟩ | ⟨_, _, toggled⟩
    · rw [same]
    · rw [toggled.channel, Channel.toggled]
  | shutdown | shutdownInLoop | retrieveInput | setHighWaterMarkCallback => rw [interest.channel]

namespace TcpServer

variable {s s₁ s' : TcpServer} {label : Label} {taken : List Functor} {c : ConnId}

theorem commit_current {call : TcpConnection.Call} {x : Ctx} (inv : s₁.Inv taken)
    (moved : Moved s s₁ s' label taken (some (c, call))) (member : c ∈ s₁.alive)
    (ran : call.run (s₁.ctx c) = .ok x) : (s₁.commit c x).current = s₁.current := by
  rcases commit_handler (s := s₁) (c := c) (x := x) with same | ⟨message, now⟩
  · rw [current, same, current]
  · obtain ⟨r, rfl⟩ := TcpConnection.message_of_run rfl (inv.connected member moved.origin.made) ran message
    rw [current, now, current]
    cases moved.source with
    | functor cb _ _ made => cases cb <;> cases made
    | user user => cases user
    | readable _ _ same => rw [same]

/-! ### The queue -/

/-- Every functor bound to `this` that waits in the queue will find its connection in `connections_`. -/
structure Held (s : TcpServer) (taken : List Functor) : Prop where
  queue : Lib.Timely Functor.raw Functor.destroys (· ∈ s.connections) (taken ++ s.todo)
  callers : ∀ call ∈ s.calling, ∀ c ∈ call.2.raw, c ∈ s.created
  handling : s.Handling

/-- Until `connectDestroyed` is queued the connection stays in `connections_`. -/
theorem member_of_unqueued (inv : s.Inv []) (created : c ∈ s.created)
    (before : Functor.connectDestroyed c ∉ s.loop.queue.inserted) : c ∈ s.connections := by
  have life := inv.life c created
  have waits := life.waits
  rw [List.count_eq_zero.mpr before] at waits
  rw [life.member]
  by_contra destroyed
  rw [if_pos (by simpa using destroyed)] at waits
  omega

theorem pushCall_held {t : Tid} {cb : Functor} (loops : s.Loops) (inv : s.Inv []) (h : s.Held [])
    (inTime : s.InTime (.push t)) (found : s.calling.lookup t = some cb) : (s.pushCall t cb).Held [] := by
  refine ⟨?_, ?_, h.handling.of_eq (fun _ => rfl) rfl⟩
  · rw [List.nil_append, todo, (pushCall_pushed s t cb).waiting]
    apply h.queue.push
    intro c bound
    have before := inTime cb found c bound
    refine ⟨member_of_unqueued inv (h.callers _ (mem_of_lookup found) c bound) before, ?_⟩
    intro other waiting destroys
    rw [Functor.destroys_eq destroys] at waiting
    exact before (todo_subset loops waiting)
  · intro call member
    exact h.callers call (List.mem_of_mem_filter member)

theorem control_held (loops : s.Loops) (inv : s.Inv []) (old : ∀ c fd, label ≠ .accept c fd) (h : s.Held [])
    (inTime : s.InTime label) (step : s.control label = some (.ok s₁)) (control : Control s s₁ label taken) :
    s₁.Held taken := by
  have handling := control_handling old h.handling step
  have queue := h.queue
  rw [List.nil_append] at queue
  cases control with
  | quiet keeps _ calling todo =>
    refine ⟨?_, ?_, handling⟩
    · rw [keeps.connections, ← todo]
      exact queue
    · rw [calling, keeps.created]
      exact h.callers
  | queued loop pushed rest =>
    subst rest
    refine ⟨?_, h.callers, handling⟩
    rw [List.nil_append, todo, pushed.waiting]
    apply queue.append
    simp [Functor.raw]
  | called t c op may member passes rest =>
    subst rest
    refine ⟨h.queue, ?_, handling⟩
    intro call listed d bound
    rcases List.mem_append.mp listed with before | new
    · exact h.callers call before d bound
    · rw [List.mem_singleton.mp new] at bound
      rw [UserCall.raw_functor bound]
      exact inv.registered.subset member
  | calledTask t may rest =>
    subst rest
    refine ⟨h.queue, ?_, handling⟩
    intro call listed d bound
    rcases List.mem_append.mp listed with before | new
    · exact h.callers call before d bound
    · rw [List.mem_singleton.mp new] at bound
      cases bound
  | tested t c may member _ rest =>
    subst rest
    exact ⟨h.queue, h.callers, handling⟩
  | stored t c found rest =>
    subst rest
    refine ⟨h.queue, ?_, handling⟩
    intro call listed d bound
    rcases List.mem_append.mp listed with before | new
    · exact h.callers call before d bound
    · rw [List.mem_singleton.mp new] at bound
      obtain rfl := Option.some.inj bound
      exact inv.shutting _ (mem_of_lookup found)
  | pushed t cb found rest =>
    subst rest
    exact pushCall_held loops inv h inTime found
  | removed c loop base _ pushed rest =>
    subst rest
    refine ⟨?_, h.callers, handling⟩
    rw [List.nil_append, todo, pushed.waiting]
    apply queue.append
    simp [Functor.raw]
  | freed _ c _ _ _ _ rest =>
    subst rest
    exact ⟨h.queue, h.callers, handling⟩

theorem commit_held {call : TcpConnection.Call} {x : Ctx} (inv : s₁.Inv taken) (h : s₁.Held taken)
    (moved : Moved s s₁ s' label taken (some (c, call))) (member : c ∈ s₁.alive)
    (ran : call.run (s₁.ctx c) = .ok x) : (s₁.commit c x).Held [] := by
  have made := moved.origin.made
  have connected := inv.connected member made
  have effect := TcpConnection.run_effect ran
  obtain ⟨new, queued, callbacks⟩ := (TcpConnection.effect_local effect connected).queued
  have waiting : (s₁.commit c x).todo = s₁.todo ++ new := by
    rw [todo, (commit_loops moved.loops c x).2.1.waiting, queued]
    rfl
  have free : ∀ cb ∈ new, cb.raw = none := fun cb listed => Functor.raw_callback (callbacks cb listed)
  refine ⟨?_, h.callers, ?_⟩
  · rw [List.nil_append, waiting]
    apply Lib.Timely.append _ free
    by_cases finish : call = .connectDestroyed
    · subst finish
      have erased : (s₁.commit c x).connections = s₁.connections.erase c := (effect (connected rfl)).2.1.connections
      have queue := h.queue
      rw [made.destroyed, List.singleton_append] at queue
      apply queue.2.mono
      intro d kept
      rw [erased, Finset.mem_erase]
      refine ⟨?_, kept.1⟩
      rintro rfl
      exact kept.2 rfl
    · have kept : (s₁.commit c x).connections = s₁.connections :=
        (TcpConnection.effect_ordinary effect moved.origin.start finish).connections
      rw [kept]
      have queue := h.queue
      rcases made with ⟨rfl, _⟩ | ⟨cb, _, rfl, _⟩
      · exact queue
      · exact queue.tail
  · apply h.handling.of_eq _ (commit_current inv moved member ran)
    intro d
    by_cases same : d = c
    · subst same
      rw [commit_self]
      exact TcpConnection.run_handling connected ran
    · rw [commit_other same]

theorem born_held {fd : Fd} {x : Ctx} (loops : s.Loops) (h : s.Held []) (born : Born s s' c fd x) : s'.Held [] := by
  have loops₁ : (s.newConnection c fd).Loops := ⟨loops.loop, loops.base, loops.threads⟩
  have effect := TcpConnection.run_effect born.ran
  obtain ⟨new, queued, callbacks⟩ := (TcpConnection.effect_local effect (by rintro ⟨⟩)).queued
  have connections : ((s.newConnection c fd).commit c x).connections = insert c s.connections := effect.2.connections
  have waiting : ((s.newConnection c fd).commit c x).todo = s.todo ++ new := by
    rw [todo, (commit_loops loops₁ c x).2.1.waiting, queued]
    rfl
  rw [born.result]
  refine ⟨?_, ?_, ?_⟩
  · rw [List.nil_append, waiting, connections]
    apply Lib.Timely.append _ fun cb listed => Functor.raw_callback (callbacks cb listed)
    apply h.queue.mono
    exact fun d member => Finset.mem_insert_of_mem member
  · exact fun call listed d bound => Finset.mem_insert_of_mem (h.callers call listed d bound)
  · intro d on
    by_cases same : d = c
    · subst same
      rw [commit_self, TcpConnection.run_handling (by rintro ⟨⟩) born.ran] at on
      simp [ctx, newConnection_self] at on
    · rw [commit_other same, newConnection_other same] at on
      have now := h.handling d on
      rw [current, born.handler] at now
      cases now

theorem Origin.single {made : Option (ConnId × TcpConnection.Call)} (h : Origin s label taken made) :
    taken = [] ∨ ∃ cb, taken = [cb] := by
  cases h with
  | silent | direct => exact .inl rfl
  | functor cb => exact .inr ⟨cb, rfl⟩

theorem reachable_held (h : tcpServer.Reachable Lives s) : s.Held [] := by
  refine h.invariant (P := fun a => a.Held []) ?_ ?_
  · rintro a ⟨threadId, baseId, _, _, rfl⟩
    exact ⟨trivial, by simp, by rintro c ⟨⟩⟩
  · intro a label b reached held lives step
    have loops := reachable_loops reached
    have inv := reachable_inv reached
    rcases step_cases loops step with ⟨c, fd, x, _, born⟩ | ⟨s₁, taken, made, moved⟩
    · exact born_held loops held born
    · have held₁ := control_held loops inv moved.old held lives.2 moved.step moved.control
      rcases moved.ended with ⟨rfl, rfl⟩ | ⟨c, call, x, rfl, member, ran, rfl⟩
      · refine ⟨?_, held₁.callers, held₁.handling⟩
        have queue := held₁.queue
        rcases moved.origin.single with rfl | ⟨cb, rfl⟩
        · exact queue
        · exact queue.tail
      · exact commit_held (control_inv inv moved.control) held₁ moved member ran

/-! ### The connection of the current channel -/

theorem focus_current (focus : Focus s s₁ label) (now : s₁.current = some c) :
    s.current = some c ∨ .connection c ∈ s.rest := by
  cases focus with
  | kept handler | turned _ _ handler | polled _ _ _ _ _ handler =>
    rw [current, handler] at now
    exact .inl now
  | visited entry _ _ rest handler =>
    right
    have first : entry = .connection c := by
      rw [current, handler] at now
      cases entry <;> simp_all [Entry.handler]
    rw [rest, first]
    exact List.mem_cons_self
  | staged d before after was handler =>
    left
    rw [current, handler] at now
    rw [current, was]
    exact now
  | returned was handler =>
    rcases handler with idle | ⟨d, was, later⟩
    · rw [current, idle] at now
      cases now
    · left
      rw [current, later] at now
      rw [current, was]
      exact now
  | ran idle _ _ handler =>
    rcases handler with later | later
    · rw [current, later] at now
      cases now
    · rw [current, later] at now
      cases now

theorem reachable_current (h : tcpServer.Reachable (Careful TcpConnection.StaysRemoved) s) :
    ∀ c, s.current = some c → c ∈ s.connections := by
  refine h.invariant (P := fun a => ∀ c, a.current = some c → c ∈ a.connections) ?_ ?_
  · rintro a ⟨threadId, baseId, _, _, rfl⟩ c ⟨⟩
  · intro a label b reached members permitted step c now
    have loops := reachable_loops reached
    have inv := reachable_inv reached
    have before : a.current = some c ∨ .connection c ∈ a.rest := by
      rcases step_cases loops step with ⟨d, fd, x, _, born⟩ | ⟨s₁, taken, made, moved⟩
      · rw [current, born_handler born] at now
        cases now
      · refine focus_current (control_focus moved.old moved.step) ?_
        rcases moved.ended with ⟨_, rfl⟩ | ⟨d, call, x, rfl, member, ran, rfl⟩
        · exact now
        · exact commit_current (control_inv inv moved.control) moved member ran ▸ now
    have plain : ∀ r, label ≠ .functor r := by
      rintro r rfl
      rcases step_cases loops step with ⟨_, _, _, same, _⟩ | ⟨s₁, taken, made, moved⟩
      · cases same
      · obtain ⟨_, _, _, _, phase, idle⟩ := functor_control loops moved.step
        rcases before with same | listed
        · rw [current, idle] at same
          cases same
        · have handle := (reachable_visits reached).placed.rest (List.ne_nil_of_mem listed)
          rw [phase] at handle
          cases handle
    apply (step_keeps loops inv plain step).1
    rcases before with same | listed
    · exact members c same
    · obtain ⟨created, kept⟩ := (reachable_visits reached).reported c listed
      exact (inv.life c created).member.mpr kept

/-! ### No use after free -/

/-- Where the control part of a step can fail: a loop's own assertion, a visit or a destructor. -/
inductive ControlError (s : TcpServer) : Label → Fault → Prop where
  | loop {label : Label} (fault : EventLoop.Fault) : ControlError s label (.loop fault)
  | base {label : Label} (fault : EventLoop.Fault) : ControlError s label (.base fault)
  | visit (c : ConnId) (listed : .connection c ∈ s.rest) (freed : c ∉ s.alive) :
      ControlError s .visit (.useAfterFree c)
  | release {fault : Fault} (t : Tid) (c : ConnId) (member : c ∈ s.alive) (free : s.unowned c = true)
      (failed : s.destroy t c = .error fault) : ControlError s (.release t c) fault

theorem advance_error {step : EventLoop.Label Functor} {next : EventLoop Functor → TcpServer} {fault : Fault}
    (h : s.advance step next = some (.error fault)) : ControlError s label fault := by
  unfold advance at h
  split at h
  · cases h
  · rw [← Except.error.inj (Option.some.inj h)]
    exact .loop _
  · cases h

theorem control_error {fault : Fault} (h : s.control label = some (.error fault)) : ControlError s label fault := by
  cases label with
  | check | wakeup => exact advance_error h
  | enter | poll | doPendingFunctors | functorsDone | quit =>
    simp only [control, Option.ite_none_right_eq_some] at h
    exact advance_error h.2
  | visit =>
    simp only [control] at h
    split at h
    · rename_i entry rest phase idle listed
      unfold visit at h
      split at h
      · exact advance_error h
      · cases h
      · cases h
      · rename_i c
        split at h
        · cases h
        · rename_i freed
          rw [← Except.error.inj (Option.some.inj h)]
          exact .visit c (by rw [listed]; exact List.mem_cons_self) freed
    · cases h
  | functor r =>
    simp only [control] at h
    split at h
    · exact advance_error h
    · cases h
  | release t c =>
    simp only [control, Option.ite_none_right_eq_some, Option.some.injEq] at h
    exact .release t c h.1.1 h.1.2 h.2
  | base l =>
    simp only [control, Option.ite_none_right_eq_some] at h
    obtain ⟨_, h⟩ := h
    split at h
    · cases h
    · rw [← Except.error.inj (Option.some.inj h)]
      exact .base _
    · cases h
  | call | shutdown =>
    simp only [control, Option.ite_none_right_eq_some] at h
    obtain ⟨_, h⟩ := h
    split at h <;> cases h
  | hangup | readable | writable | handled | userReturn | setState | push =>
    simp only [control] at h
    split at h <;> cases h
  | own | queueTask | accept | callTask =>
    simp only [control, Option.ite_none_right_eq_some] at h
    cases h.2
  | baseFunctor =>
    simp only [control, Option.ite_none_right_eq_some] at h
    obtain ⟨_, h⟩ := h
    split at h <;> cases h

theorem step_error {fault : Fault} (h : s.step label = some (.error fault)) : ControlError s label fault ∨
    ∃ s₁ c call, s.control label = some (.ok s₁) ∧ s.callOf label = some (c, call) ∧
      s₁.act c call = .error fault := by
  unfold step at h
  split at h
  · rename_i s₁ moved
    split at h
    · rename_i c call made
      exact .inr ⟨s₁, c, call, moved, made, Option.some.inj h⟩
    · cases h
  · exact .inl (control_error h)

theorem act_alive {call : TcpConnection.Call} {fault : Fault} (member : c ∈ s.alive) (h : s.act c call = .error fault) :
    ∃ f, fault = .connection c f := by
  unfold act at h
  rw [if_pos member] at h
  split at h
  · cases h
  · exact ⟨_, (Except.error.inj h).symm⟩

/-- A connection that is called is alive: the user holds it, its channel is current, or the functor that
makes the call finds it in `connections_`. -/
theorem called_alive {call : TcpConnection.Call} (h : tcpServer.Reachable Lives s)
    (step : s.control label = some (.ok s₁)) (made : s.callOf label = some (c, call)) : c ∈ s₁.alive := by
  have loops := reachable_loops h
  have inv := reachable_inv h
  have current : s.current = some c → c ∈ s.alive :=
    fun now => reachable_members h (reachable_current (Lives.reachable h) c now)
  by_cases accept : ∃ d fd, label = .accept d fd
  · obtain ⟨d, fd, rfl⟩ := accept
    simp only [control, Option.ite_none_right_eq_some, Option.some.injEq, Except.ok.injEq] at step
    obtain ⟨_, rfl⟩ := step
    obtain ⟨rfl, _⟩ := Prod.mk.inj (Option.some.inj made)
    exact Finset.mem_insert_self _ _
  have old : ∀ d fd, label ≠ .accept d fd := fun d fd same => accept ⟨d, fd, same⟩
  by_cases functor : ∃ r, label = .functor r
  · obtain ⟨r, rfl⟩ := functor
    obtain ⟨_, cb, moved, called, _, _⟩ := functor_control loops step
    have onTime := onTime_of_call made
    rw [called] at made
    have held := control_held loops inv old (reachable_held h) trivial step moved
    have inv₁ := control_inv inv moved
    have once := control_closedOnce onTime (reachable_closedOnce (Careful.onTime (Lives.reachable h))) moved
    cases moved with
    | quiet keeps _ _ todo =>
      rw [keeps.alive]
      apply reachable_members h
      rw [← keeps.connections]
      have used := held.queue.1
      cases cb with
      | connectDestroyed d =>
        obtain ⟨rfl, _⟩ := Prod.mk.inj (Option.some.inj made)
        have created : d ∈ s₁.created := by
          by_contra fresh
          refine (inv.fresh d (keeps.created ▸ fresh)).2 (todo_subset loops ?_)
          rw [todo]
          exact List.mem_cons_self
        have life := inv₁.life d created
        exact life.member.mpr (life.waiting (once d created))
      | sendInLoop d | shutdownInLoop d | startReadInLoop d | stopReadInLoop d =>
        obtain ⟨rfl, _⟩ := Prod.mk.inj (Option.some.inj made)
        exact used d rfl
      | writeCompleteCallback | highWaterMarkCallback | task => cases made
  · have plain := not_exists.mp functor
    cases direct_source plain old step made with
    | functor _ r same => exact absurd same (plain r)
    | user user same =>
      cases label with
      | own d call' =>
        simp only [control, Option.ite_none_right_eq_some] at step
        obtain ⟨rfl, _⟩ := Prod.mk.inj (Option.some.inj made)
        rw [same]
        exact step.1.2.2
      | hangup | readable | writable =>
        simp only [callOf] at made
        split at made
        · obtain ⟨_, made⟩ := Option.ite_none_right_eq_some.mp made
          obtain ⟨_, rfl⟩ := Prod.mk.inj (Option.some.inj made)
          cases user
        · cases made
      | functor r => exact absurd rfl (plain r)
      | accept d fd => exact absurd rfl (old d fd)
      | _ => cases made
    | hangup was same | readable _ was same | writable _ was same =>
      rw [same]
      exact current (by rw [TcpServer.current, was])

/-- The assertions of `~TcpConnection` and `~Channel` hold when the last pointer goes. -/
theorem destroy_succeeds (h : tcpServer.Reachable Lives s) (t : Tid) (member : c ∈ s.alive) (free : s.unowned c = true) :
    s.destroy t c = .ok (s.closeSocket c) := by
  have inv := reachable_inv h
  have created := inv.registered.subset member
  have life := inv.life c created
  simp only [unowned, Bool.and_eq_true, decide_eq_true_eq, bne_iff_ne] at free
  obtain ⟨⟨⟨⟨⟨gone, away⟩, -⟩, -⟩, -⟩, -⟩ := free
  have destroyed : (s.conn c).destroyed = true := by
    by_contra live
    exact gone (life.member.mpr (by simpa using live))
  have down : (s.conn c).state = .kDisconnected :=
    (reachable_closedOnce (Careful.onTime (Lives.reachable h)) c created).down (life.down destroyed)
  have new := (reachable_removedOnce (Lives.reachable h) c created).mp destroyed
  have consistent := inv.registered.consistent c member
  have handled : (s.conn c).channel.eventHandling = false := by
    by_contra on
    exact away ((reachable_held h).handling c (by simpa using on))
  have off : (s.conn c).channel.addedToLoop = false := by
    by_contra on
    exact consistent.added.mp (by simpa using on) new
  have unmapped : s.poller.channels (s.conn c).channel.fd = none := by
    rw [consistent.channels, if_pos new]
  unfold destroy
  rw [if_neg (by simp [down]), if_neg (by simp [handled, off]), if_neg (by simp [unmapped])]

theorem connected_unqueued (inv : s.Inv []) (created : c ∈ s.created) (connected : (s.conn c).state = .kConnected) :
    Functor.connectDestroyed c ∉ s.loop.queue.inserted := by
  have life := inv.life c created
  have route := life.route
  have open' : (s.conn c).closeCalls = 0 := by
    by_contra closed
    exact life.closed (Nat.pos_of_ne_zero closed) connected
  apply List.count_eq_zero.mp
  omega

theorem control_of_silent (silent : s.callOf label = none) (step : s.step label = some (.ok s')) :
    s.control label = some (.ok s') := by
  unfold TcpServer.step at step
  split at step
  · rename_i s₁ moved
    rw [silent] at step
    exact moved.trans step
  · rename_i other
    exact absurd step (other s')

theorem mayCall_free {t : Tid} (may : s.mayCall t = true) : s.calling.lookup t = none ∧ s.shutting.lookup t = none := by
  simp only [mayCall, Bool.and_eq_true, Option.isNone_iff_eq_none] at may
  exact ⟨may.1.2, may.2⟩

theorem send_unqueued {t : Tid} {arg : SendArg} (inv : s.Inv [])
    (step : s.step (.call t c (.send arg)) = some (.ok s')) : s'.InTime (.push t) := by
  have moved := control_of_silent rfl step
  simp only [control, Option.ite_none_right_eq_some] at moved
  obtain ⟨⟨may, member⟩, moved⟩ := moved
  have free := (mayCall_free may).1
  intro cb found d bound
  split at moved
  · rename_i passes
    obtain rfl := Except.ok.inj (Option.some.inj moved)
    have own : cb = .sendInLoop c t arg.message := by
      simpa [enterCall, List.lookup_append, free, UserCall.functor] using found.symm
    subst own
    obtain rfl := Option.some.inj bound
    exact connected_unqueued (s := s) inv (inv.registered.subset member) (beq_iff_eq.mp passes)
  · obtain rfl := Except.ok.inj (Option.some.inj moved)
    rw [free] at found
    cases found

theorem shutdown_unqueued {t : Tid} {s'' : TcpServer} (inv : s.Inv [])
    (step : s.step (.shutdown t c) = some (.ok s')) (stored : s'.step (.setState t) = some (.ok s'')) :
    s'.OnTime (.setState t) ∧ s''.InTime (.push t) := by
  have moved := control_of_silent rfl step
  simp only [control, Option.ite_none_right_eq_some] at moved
  obtain ⟨⟨may, member⟩, moved⟩ := moved
  obtain ⟨free, apart⟩ := mayCall_free may
  have moved' := control_of_silent rfl stored
  simp only [control] at moved'
  split at moved
  · rename_i connected
    obtain rfl := Except.ok.inj (Option.some.inj moved)
    have found : (s.enterShutdown t c).shutting.lookup t = some c := by
      simp [enterShutdown, List.lookup_append, apart]
    simp only [found] at moved'
    obtain rfl := Except.ok.inj (Option.some.inj moved')
    refine ⟨fun d member => ?_, fun cb pushes d bound => ?_⟩
    · obtain rfl := Option.some.inj (found.symm.trans member)
      rw [show ((s.enterShutdown t c).conn c).state = _ from connected]
      simp
    · have own : cb = .shutdownInLoop c := by
        simpa [setState, enterShutdown, List.lookup_append, free] using pushes.symm
      subst own
      obtain rfl := Option.some.inj bound
      exact connected_unqueued (s := s) inv (inv.registered.subset member) connected
  · obtain rfl := Except.ok.inj (Option.some.inj moved)
    simp only [apart] at moved'
    cases moved'

/-- Thread 2 passes the test of `send`, and pushes only after the connection is closed and destroyed: the functor
finds it freed. -/
example : ∃ s, tcpServer.Reachable Lib.Machine.anyStep s ∧
    s.step (.functor (.wrote 0)) = some (.error (.useAfterFree 7)) := by
  obtain ⟨s, reached, failed⟩ := Lib.Machine.exec_reaches tcpServer Lib.Machine.anyStep
    { loop := { threadId := 1 }, base := { threadId := 0 } }
    (opening ++ [.call 2 7 (.send (.string ⟨[10], Nat.le_of_ble_eq_true rfl⟩))] ++
      hungUp.drop opening.length ++ removal ++
      [.functorsDone, .push 2, .release 2 7, .wakeup 2, .check, .poll [(.wakeup, 0)], .visit, .doPendingFunctors])
    (fun s => stepFault s (.functor (.wrote 0)) = some (.useAfterFree 7)) ⟨1, 0, false, by decide, rfl⟩
    (by decide +kernel)
  exact ⟨s, reached, stepFault_eq failed⟩

end TcpServer

end Dserver.Net
