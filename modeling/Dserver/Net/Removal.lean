import Dserver.Net.Lifecycle

/-!
# `connectDestroyed`

`connectDestroyed` takes a closed connection out of `connections_` and its channel out of the poller.
`startReadInLoop` and `stopReadInLoop` do not look at `state_`; each result is about the runs in which
they do not put the channel back, and in which `state_` is not set back by `shutdown` of another thread.
-/

namespace Dserver.Net

namespace TcpConnection

/-- `startReadInLoop` does not run on a closed connection, nor `stopReadInLoop` with an effect on a
destroyed one. -/
def EndsSafely (conn : TcpConnection) : Call → Prop
  | .startReadInLoop => conn.state ≠ .kDisconnected
  | .stopReadInLoop => conn.destroyed = true → conn.reading = false ∧ conn.channel.isReading = false
  | _ => True

/-- Neither runs with an effect on a destroyed connection. -/
def StaysRemoved (conn : TcpConnection) : Call → Prop
  | .startReadInLoop => conn.destroyed = false
  | .stopReadInLoop => conn.destroyed = true → conn.reading = false ∧ conn.channel.isReading = false
  | _ => True

instance (conn : TcpConnection) : (call : Call) → Decidable (conn.EndsSafely call)
  | .startReadInLoop => inferInstanceAs (Decidable (_ ≠ _))
  | .stopReadInLoop => inferInstanceAs (Decidable (_ → _))
  | .connectEstablished | .connectDestroyed | .send .. | .sendInLoop .. | .shutdown | .shutdownInLoop
  | .retrieveInput _ | .setHighWaterMarkCallback .. | .handleClose | .handleRead _ | .handleWrite _ =>
    instDecidableTrue

instance (conn : TcpConnection) : (call : Call) → Decidable (conn.StaysRemoved call)
  | .startReadInLoop => inferInstanceAs (Decidable (_ = _))
  | .stopReadInLoop => inferInstanceAs (Decidable (_ → _))
  | .connectEstablished | .connectDestroyed | .send .. | .sendInLoop .. | .shutdown | .shutdownInLoop
  | .retrieveInput _ | .setHighWaterMarkCallback .. | .handleClose | .handleRead _ | .handleWrite _ =>
    instDecidableTrue

/-- The poller knows the channel until the connection is destroyed, and not after. -/
def RemovedOnce (conn : TcpConnection) : Prop := conn.destroyed = true ↔ conn.channel.index = .kNew

def Cleared (conn : TcpConnection) : Prop :=
  conn.state = .kDisconnected → conn.channel.events = Channel.kNoneEvent

variable {x x' : Ctx} {call : Call}

theorem established_removedOnce (ran : connectEstablished x = .ok x') (fresh : x.conn.destroyed = false) :
    x'.conn.RemovedOnce := by
  have destroyed : x'.conn.destroyed = false := (connectEstablished_frame ran).2.destroyed.trans fresh
  rw [RemovedOnce, destroyed, (connectEstablished_interest ran).2]
  simpa using Channel.toggled_index_ne

theorem call_removedOnce (allowed : x.conn.StaysRemoved call) (start : call ≠ .connectEstablished)
    (output : x.conn.Inv) (down : x.conn.destroyed = true → x.conn.state = .kDisconnected)
    (doomed : call = .connectDestroyed → x.conn.state = .kDisconnected) (h : x.conn.RemovedOnce)
    (ran : call.run x = .ok x') : x'.conn.RemovedOnce := by
  by_cases finish : call = .connectDestroyed
  · subst finish
    have connected : x.conn.state ≠ .kConnected := by simp [doomed rfl]
    have destroyed : x'.conn.destroyed = true := (run_effect ran connected).2.1.destroyed
    rw [RemovedOnce, destroyed, (run_interest ran connected).2]
    simp
  · have destroyed := (effect_ordinary (run_effect ran) start finish).destroyed
    by_cases dead : x.conn.destroyed = true
    · have same : x'.conn.channel = x.conn.channel := by
        by_cases quiet : call.rereads = false
        · exact closed_channel (down dead) output quiet start finish ran
        · cases call with
          | startReadInLoop =>
            rw [show x.conn.destroyed = false from allowed] at dead
            cases dead
          | stopReadInLoop =>
            obtain ⟨off, idle⟩ := allowed dead
            rcases run_interest ran with same | ⟨on, _⟩
            · exact same.channel
            · rw [on off] at idle
              cases idle
          | _ => exact absurd rfl quiet
      rw [RemovedOnce, destroyed, same]
      exact h
    · have known : x'.conn.channel.index ≠ .kNew := by
        rcases run_known start finish ran with same | known
        · rw [same]
          exact fun new => dead (h.mpr new)
        · exact known
      rw [RemovedOnce, destroyed]
      exact ⟨fun destroyed => absurd destroyed dead, fun new => absurd new known⟩

theorem endsSafely_staysRemoved (allowed : x.conn.EndsSafely call)
    (down : x.conn.destroyed = true → x.conn.state = .kDisconnected) : x.conn.StaysRemoved call := by
  cases call with
  | startReadInLoop =>
    change x.conn.destroyed = false
    by_contra destroyed
    exact allowed (down (by simpa using destroyed))
  | stopReadInLoop => exact allowed
  | _ => trivial

theorem call_cleared (allowed : x.conn.EndsSafely call) (start : call ≠ .connectEstablished) (output : x.conn.Inv)
    (doomed : call = .connectDestroyed → x.conn.state = .kDisconnected) (h : x.conn.Cleared)
    (ran : call.run x = .ok x') : x'.conn.Cleared := by
  intro after
  by_cases finish : call = .connectDestroyed
  · subst finish
    have down := doomed rfl
    rw [(run_interest ran (by simp [down])).2]
    exact h down
  · by_cases down : x.conn.state = .kDisconnected
    · by_cases quiet : call.rereads = false
      · rw [closed_channel down output quiet start finish ran]
        exact h down
      · cases call with
        | startReadInLoop => exact absurd down allowed
        | stopReadInLoop =>
          rcases run_interest ran with same | ⟨_, toggled⟩
          · rw [same.channel]
            exact h down
          · rw [toggled.channel, Channel.toggled]
            simp [h down, Channel.kNoneEvent]
        | _ => exact absurd rfl quiet
    · rw [(falls_channel down after start finish ran).2]
      rfl

end TcpConnection

namespace TcpServer

variable {s s₁ s' : TcpServer} {label : Label} {taken : List Functor} {c : ConnId}

theorem settled_removedOnce (a b : TcpConnection) (h : a.Settled b) (known : a.RemovedOnce) : b.RemovedOnce := by
  rw [TcpConnection.RemovedOnce, h.destroyed, h.index]
  exact known

theorem reachable_cleared (h : tcpServer.Reachable (Careful TcpConnection.EndsSafely) s) :
    ∀ c ∈ s.created, (s.conn c).Cleared ∧ (s.conn c).RemovedOnce := by
  refine reachable_each (P := fun conn => conn.Cleared ∧ conn.RemovedOnce) ?_ ?_ ?_ h
  · intro a b settled ⟨cleared, once⟩
    refine ⟨fun down => ?_, settled_removedOnce a b settled once⟩
    rw [settled.events]
    exact cleared (settled.down down)
  · intro x x' ran fresh
    refine ⟨fun down => ?_, TcpConnection.established_removedOnce ran fresh⟩
    rw [(TcpConnection.connectEstablished_frame ran).2.state] at down
    cases down
  · intro x x' call allowed start output dead doomed ⟨cleared, once⟩ ran
    exact ⟨TcpConnection.call_cleared allowed start output doomed cleared ran,
      TcpConnection.call_removedOnce (TcpConnection.endsSafely_staysRemoved allowed dead) start output dead
        doomed once ran⟩

theorem reachable_members {guard : TcpServer → Label → Prop} (h : tcpServer.Reachable guard s) :
    s.connections ⊆ s.alive := by
  refine h.invariant (P := fun a => a.connections ⊆ a.alive) ?_ ?_
  · rintro a ⟨threadId, baseId, _, _, rfl⟩
    simp
  · intro a label b reached before _ step
    have inv := reachable_inv reached
    rcases step_cases (reachable_loops reached) step with ⟨c, fd, x, _, born⟩ | ⟨s₁, taken, made, moved⟩
    · have connections : x.connections = insert c a.connections :=
        (TcpConnection.connectEstablished_frame born.ran).2.connections
      rw [born.result]
      change x.connections ⊆ insert c a.alive
      rw [connections]
      exact Finset.insert_subset_insert c before
    · have kept : s₁.connections ⊆ s₁.alive := by
        cases moved.control with
        | quiet keeps =>
          rw [keeps.connections, keeps.alive]
          exact before
        | freed _ d _ gone _ _ rest =>
          subst rest
          intro e member
          refine Finset.mem_erase.mpr ⟨?_, before member⟩
          rintro rfl
          exact gone member
        | called _ _ _ _ _ _ rest | tested _ _ _ _ _ rest | stored _ _ _ rest | queued _ _ rest
        | calledTask _ _ rest | pushed _ _ _ rest | removed _ _ _ _ _ rest =>
          subst rest
          exact before
      rcases moved.ended with ⟨_, rfl⟩ | ⟨c, call, x, rfl, member, ran, rfl⟩
      · exact kept
      · have inv₁ := control_inv inv moved.control
        have effect := TcpConnection.run_effect ran
        change x.connections ⊆ s₁.alive
        by_cases finish : call = .connectDestroyed
        · subst finish
          have frame := (effect (inv₁.connected member moved.origin.made rfl)).2.1
          rw [frame.connections]
          exact (Finset.erase_subset _ _).trans kept
        · rw [(TcpConnection.effect_ordinary effect moved.origin.start finish).connections]
          exact kept

end TcpServer

theorem TcpConnection.connectDestroyed_ok {x : Ctx} (down : x.conn.state ≠ .kConnected)
    (member : x.id ∈ x.connections) (functor : x.eventHandling = false)
    (clear : x.conn.channel.events = Channel.kNoneEvent) (known : x.conn.channel.index ≠ .kNew)
    (consistent : Consistent x.poller x.id x.conn.channel) : ∃ x', connectDestroyed x = .ok x' := by
  obtain ⟨poller, removed, _, _⟩ := remove_spec consistent known clear
  let gone : Ctx := { x with connections := x.connections.erase x.id }
  have erased : removeConnection x = .ok gone := if_pos member
  have cleared : removeChannel gone =
      .ok (setChannel gone { x.conn.channel with addedToLoop := false, index := .kNew } poller) := by
    unfold removeChannel toggle
    rw [if_neg (by simp [gone, Channel.isNoneEvent, clear]), if_neg (by simp [gone, functor])]
    simp only [gone, removed]
  refine ⟨setDestroyed (setChannel gone { x.conn.channel with addedToLoop := false, index := .kNew } poller), ?_⟩
  unfold connectDestroyed
  rw [if_neg down]
  simp only [bind, Except.bind, erased, cleared]

namespace TcpServer

variable {s s₁ s' : TcpServer} {label : Label} {taken : List Functor} {c : ConnId}

theorem functor_total {r : WriteResult} {fault : Fault} : s.control (.functor r) ≠ some (.error fault) := by
  simp only [control]
  split
  · unfold advance
    split
    · simp
    · rename_i failed
      simp only [EventLoop.step] at failed
      split at failed <;> cases failed
    · simp
  · simp

theorem destroyed_total {fault : Fault} (h : tcpServer.Reachable (Careful TcpConnection.EndsSafely) s)
    (called : s.callOf label = some (c, .connectDestroyed)) : s.step label ≠ some (.error fault) := by
  have loops := reachable_loops h
  have inv := reachable_inv h
  cases label with
  | functor r =>
    intro failed
    unfold step at failed
    split at failed
    · rename_i s₁ moved
      obtain ⟨loops₁, cb, control, made, _, _⟩ := functor_control loops moved
      obtain ⟨phase, conn⟩ := functor_moved moved
      rw [called] at made failed
      obtain rfl : cb = .connectDestroyed c := by
        cases cb <;> simp only [Functor.call, Option.some.injEq, Prod.mk.injEq, reduceCtorEq, and_false] at made
        rw [made.1]
      have inv₁ := control_inv inv control
      have created : c ∈ s.created := by
        by_contra fresh
        cases control with
        | quiet _ _ _ todo => exact (inv.fresh c fresh).2 (todo_subset loops (by simp [todo]))
      have life := inv₁.life c (control.created ▸ created)
      have closed : (s₁.conn c).ClosedOnce := by
        rw [conn]
        exact reachable_closedOnce (Careful.onTime h) c created
      have member : c ∈ s₁.connections := life.member.mpr (life.waiting closed)
      have alive : c ∈ s₁.alive := by
        cases control with
        | quiet keeps => exact keeps.alive ▸ reachable_members h (keeps.connections ▸ member)
      have down : (s₁.conn c).state = .kDisconnected := closed.down life.doomed
      obtain ⟨cleared, once⟩ := reachable_cleared h c created
      rw [← conn] at cleared once
      have handling : s₁.loop.eventHandling = false := by
        by_contra on
        have handle := loops₁.loop.handling.mp (by simpa using on)
        rw [phase] at handle
        cases handle
      obtain ⟨x, ran⟩ := TcpConnection.connectDestroyed_ok (x := s₁.ctx c) (by simp [ctx, down]) member handling
        (cleared down) (fun new => by simpa [once.mpr new] using life.waiting closed)
        (inv₁.registered.consistent c alive)
      have run : TcpConnection.Call.connectDestroyed.run (s₁.ctx c) = .ok x := ran
      simp only [act, if_pos alive, run] at failed
      cases failed
    · rename_i other
      exact functor_total failed
  | own d call =>
    obtain ⟨rfl, rfl⟩ := Prod.mk.inj (Option.some.inj called)
    simp [step, control, TcpConnection.Call.fromUser]
  | hangup | readable | writable =>
    simp only [callOf] at called
    split at called
    · simp at called
    · cases called
  | _ => cases called

/-- In every run that ends connections safely, and in which no `shutdown` of another thread sets `state_` after
`handleClose`, `connectDestroyed` succeeds, and from then on neither `channels_` nor the kernel's interest list
holds the connection's channel. -/
theorem destroyed_and_removed (h : tcpServer.Reachable (Careful TcpConnection.EndsSafely) s) :
    (∀ label c fault, s.callOf label = some (c, .connectDestroyed) → s.step label ≠ some (.error fault)) ∧
    ∀ c ∈ s.created, (s.conn c).destroyed = true →
      (∀ fd, s.poller.channels fd ≠ some c ∧ ∀ mask, s.poller.epoll fd ≠ some (mask, c)) ∧
      (c ∈ s.alive → s.poller.channels (s.conn c).channel.fd = none ∧
        s.poller.epoll (s.conn c).channel.fd = none) := by
  have loops := reachable_loops h
  have inv := reachable_inv h
  refine ⟨fun label c fault called => destroyed_total h called, fun c created destroyed => ?_⟩
  · have new := (reachable_cleared h c created).2.mp destroyed
    have absent : c ∈ s.alive → s.poller.channels (s.conn c).channel.fd = none ∧
        s.poller.epoll (s.conn c).channel.fd = none := by
      intro member
      have consistent := inv.registered.consistent c member
      refine ⟨by rw [consistent.channels, if_pos new], by rw [consistent.epoll, if_neg (by simp [new])]⟩
    refine ⟨fun fd => ⟨fun found => ?_, fun mask found => ?_⟩, absent⟩
    · obtain ⟨member, rfl⟩ := inv.registered.channels fd c found
      rw [(absent member).1] at found
      cases found
    · obtain ⟨member, rfl⟩ := inv.registered.epoll fd mask c found
      rw [(absent member).2] at found
      cases found

theorem destroyed_and_removed_hangup : ∃ s : TcpServer, (s.conn 7).destroyed = true ∧
    s.poller.channels 5 = none ∧ s.poller.epoll 5 = none := by
  obtain ⟨s, reached, created, alive, destroyed, fd⟩ := Lib.Machine.exec_reaches tcpServer
    (Careful TcpConnection.EndsSafely) { loop := { threadId := 1 }, base := { threadId := 0 } } (hungUp ++ removal)
    (fun s => 7 ∈ s.created ∧ 7 ∈ s.alive ∧ (s.conn 7).destroyed = true ∧ (s.conn 7).channel.fd = 5)
    ⟨1, 0, false, by decide, rfl⟩ (by decide +kernel)
  exact ⟨s, destroyed, fd ▸ ((destroyed_and_removed reached).2 7 created destroyed).2 alive⟩

def meanwhile (call : TcpConnection.Call) : List Label :=
  [.poll [(.other 0, 0)], .visit, .own 7 call, .userReturn, .doPendingFunctors, .functorsDone, .check]

/-- `startRead` between `handleClose` and `connectDestroyed` puts the read events back, and
`connectDestroyed` fails the assertion of `Channel::remove`. -/
theorem startRead_after_close_fails : ∃ s, tcpServer.Reachable Lib.Machine.anyStep s ∧
    s.callOf (.functor (.wrote 0)) = some (7, .connectDestroyed) ∧
    s.step (.functor (.wrote 0)) = some (.error (.connection 7 (.poller .removeHasEvents))) := by
  obtain ⟨s, reached, batch, failed⟩ := Lib.Machine.exec_reaches tcpServer Lib.Machine.anyStep
    { loop := { threadId := 1 }, base := { threadId := 0 } }
    (hungUp ++ meanwhile .startReadInLoop ++ removal.dropLast)
    (fun s => s.loop.queue.batch = [.connectDestroyed 7] ∧
      stepFault s (.functor (.wrote 0)) = some (.connection 7 (.poller .removeHasEvents)))
    ⟨1, 0, false, by decide, rfl⟩ (by decide +kernel)
  exact ⟨s, reached, by simp [callOf, batch, Functor.call], stepFault_eq failed⟩

/-! ### Removal against event handling -/

/-- Outside functors a step erases no connection and removes no channel. -/
theorem step_keeps (loops : s.Loops) (inv : s.Inv []) (other : ∀ r, label ≠ .functor r)
    (step : s.step label = some (.ok s')) : s.connections ⊆ s'.connections ∧
    ∀ c ∈ s.alive, (s.conn c).channel.index ≠ .kNew →
      c ∈ s'.alive ∧ (s'.conn c).channel.fd = (s.conn c).channel.fd ∧ (s'.conn c).channel.index ≠ .kNew := by
  rcases step_cases loops step with ⟨d, fd, x, _, born⟩ | ⟨s₁, taken, made, moved⟩
  · have connections : x.connections = insert d s.connections :=
      (TcpConnection.connectEstablished_frame born.ran).2.connections
    rw [born.result]
    refine ⟨?_, fun c member known => ?_⟩
    · change s.connections ⊆ x.connections
      rw [connections]
      exact Finset.subset_insert d _
    · have different : c ≠ d := by
        rintro rfl
        exact born.fresh (inv.registered.subset member)
      rw [commit_other different, newConnection_other different]
      exact ⟨Finset.mem_insert_of_mem member, rfl, known⟩
  · have inv₁ := control_inv inv moved.control
    have kept : s.connections ⊆ s₁.connections ∧ ∀ c ∈ s.alive, (s.conn c).channel.index ≠ .kNew → c ∈ s₁.alive := by
      cases moved.control with
      | quiet keeps => exact ⟨by rw [keeps.connections], fun c member _ => keeps.alive ▸ member⟩
      | freed _ d _ _ _ off rest =>
        subst rest
        refine ⟨subset_rfl, fun c member known => Finset.mem_erase.mpr ⟨?_, member⟩⟩
        rintro rfl
        rw [(inv.registered.consistent c member).added.mpr known] at off
        cases off
      | called _ _ _ _ _ _ rest | tested _ _ _ _ _ rest | stored _ _ _ rest | queued _ _ rest
      | calledTask _ _ rest | pushed _ _ _ rest | removed _ _ _ _ _ rest =>
        subst rest
        exact ⟨subset_rfl, fun c member _ => member⟩
    have same : ∀ c, (s.conn c).Settled (s₁.conn c) := control_settled moved.control
    rcases moved.ended with ⟨_, rfl⟩ | ⟨d, call, x, rfl, live, ran, rfl⟩
    · exact ⟨kept.1, fun c member known =>
        ⟨kept.2 c member known, (same c).fd, (same c).index ▸ known⟩⟩
    · have start := moved.origin.start
      have finish : call ≠ .connectDestroyed := by
        rintro rfl
        cases moved.source with
        | functor _ r label => exact other r label
        | user user => cases user
      have effect := TcpConnection.run_effect ran
      have loc := TcpConnection.effect_local effect (fun same => absurd same finish)
      have connections : x.connections = s₁.connections :=
        (TcpConnection.effect_ordinary effect start finish).connections
      refine ⟨?_, fun c member known => ?_⟩
      · change s.connections ⊆ x.connections
        rw [connections]
        exact kept.1
      · refine ⟨kept.2 c member known, ?_⟩
        by_cases own : c = d
        · subst own
          rw [commit_self]
          refine ⟨loc.fd.trans (same c).fd, ?_⟩
          rcases TcpConnection.run_known start finish ran with unchanged | known
          · rw [unchanged]
            exact (same c).index ▸ known
          · exact known
        · rw [commit_other own]
          exact ⟨(same c).fd, (same c).index ▸ known⟩

theorem reachable_removedOnce (h : tcpServer.Reachable (Careful TcpConnection.StaysRemoved) s) :
    ∀ c ∈ s.created, (s.conn c).RemovedOnce :=
  reachable_each settled_removedOnce (fun _ _ => TcpConnection.established_removedOnce)
    (fun _ _ _ allowed start output down doomed => TcpConnection.call_removedOnce allowed start output down doomed) h

theorem reachable_visits (h : tcpServer.Reachable (Careful TcpConnection.StaysRemoved) s) :
    s.Batch fun conn => conn.destroyed = false := by
  refine h.invariant (P := fun a => a.Batch fun conn => conn.destroyed = false) (fun a => initial_batch) ?_
  intro a label b reached batch _ step
  have loops := reachable_loops reached
  have inv := reachable_inv reached
  rcases step_cases loops step with ⟨c, fd, x, _, born⟩ | ⟨s₁, taken, made, moved⟩
  · exact born_batch loops batch born
  · have batch₁ : s₁.Batch fun conn => conn.destroyed = false := by
      refine control_batch (fun a b settled kept => settled.destroyed.trans kept) ?_ inv.registered batch
        moved.control (control_focus moved.old moved.step)
      intro c member added
      cases destroyed : (a.conn c).destroyed with
      | false => rfl
      | true =>
        have new := (reachable_removedOnce reached c (inv.registered.subset member)).mp destroyed
        rw [added] at new
        cases new
    rcases moved.ended with ⟨_, rfl⟩ | ⟨c, call, x, rfl, member, ran, rfl⟩
    · exact batch₁
    · refine commit_batch moved.loops (control_inv inv moved.control) batch₁ moved member ran ?_
      intro user kept
      have finish : call ≠ .connectDestroyed := by
        rintro rfl
        cases user
      exact (TcpConnection.effect_ordinary (TcpConnection.run_effect ran) moved.origin.start finish).destroyed.trans kept

/-- Connections are erased, and their channels removed, only in `doPendingFunctors`. So every connection
that `loop()` is still to visit is in `connections_` and its channel in `channels_`, and the assertion of
`removeChannel` holds: in every run in which a destroyed connection is not made to read again, and no `shutdown`
of another thread sets `state_` after `handleClose`. -/
theorem removed_only_in_functors (h : tcpServer.Reachable (Careful TcpConnection.StaysRemoved) s) :
    (∀ label s' c, s.step label = some (.ok s') →
      (c ∈ s.connections ∧ c ∉ s'.connections) ∨
        (∃ fd, s.poller.channels fd = some c ∧ s'.poller.channels fd ≠ some c) →
      s.loop.callingPendingFunctors = true ∧ s.loop.eventHandling = false) ∧
    (∀ c, .connection c ∈ s.rest → c ∈ s.connections ∧ s.poller.channels (s.conn c).channel.fd = some c) ∧
    ∀ label c fault, s.step label = some (.error (.connection c fault)) → fault ≠ .removeChannel := by
  have loops := reachable_loops h
  have inv := reachable_inv h
  refine ⟨?_, ?_, ?_⟩
  · intro label s' c step gone
    by_cases functor : ∃ r, label = .functor r
    · obtain ⟨r, rfl⟩ := functor
      have phase : s.loop.phase = .functors := by
        rcases step_cases loops step with ⟨_, _, _, same, _⟩ | ⟨s₁, taken, made, moved⟩
        · cases same
        · obtain ⟨_, _, _, _, phase, _⟩ := functor_control loops moved.step
          exact phase
      refine ⟨loops.loop.calling.mpr phase, ?_⟩
      by_contra on
      have handle := loops.loop.handling.mp (by simpa using on)
      rw [phase] at handle
      cases handle
    · obtain ⟨connections, channels⟩ := step_keeps loops inv (not_exists.mp functor) step
      rcases gone with ⟨member, erased⟩ | ⟨fd, found, lost⟩
      · exact absurd (connections member) erased
      · obtain ⟨member, rfl⟩ := inv.registered.channels fd c found
        have known : (s.conn c).channel.index ≠ .kNew := by
          intro new
          rw [(inv.registered.consistent c member).channels, if_pos new] at found
          cases found
        obtain ⟨member', fd, known'⟩ := channels c member known
        have mapped := ((step_inv loops inv step).registered.consistent c member').channels
        rw [if_neg known', fd] at mapped
        exact absurd mapped lost
  · intro c listed
    obtain ⟨created, kept⟩ := (reachable_visits h).reported c listed
    have member := (inv.life c created).member.mpr kept
    have known : (s.conn c).channel.index ≠ .kNew := by
      intro new
      rw [(reachable_removedOnce h c created).mpr new] at kept
      cases kept
    exact ⟨member, by rw [(inv.registered.consistent c (reachable_members h member)).channels, if_neg known]⟩
  · intro label c fault failed
    have removeChannel : fault.foreign = true ∨ fault = .handleClose := by
      rcases step_fault loops failed with ⟨fd, _, ran⟩ | ⟨s₁, taken, call, fails⟩
      · exact .inl (established_fault ran)
      · have once :=
          control_closedOnce (onTime_of_call fails.called) (reachable_closedOnce (Careful.onTime h)) fails.control
        rcases fails.fault (control_inv inv fails.control) once with foreign | ⟨same, _⟩
        · exact .inl foreign
        · exact .inr same
    rintro rfl
    rcases removeChannel with foreign | same
    · cases foreign
    · cases same

/-- Two connections' reports: the second is still to visit while the first is being handled. -/
theorem removed_only_in_functors_two_reports : ∃ s : TcpServer, .connection 8 ∈ s.rest ∧ 8 ∈ s.connections ∧
    s.poller.channels (s.conn 8).channel.fd = some 8 := by
  obtain ⟨s, reached, listed⟩ := Lib.Machine.exec_reaches tcpServer (Careful TcpConnection.StaysRemoved)
    { loop := { threadId := 1 }, base := { threadId := 0 } }
    (opening ++ [.poll [(.acceptor, 0)], .visit, .accept 8 6, .userReturn, .doPendingFunctors, .functorsDone,
      .check, .poll [(.connection 7, POLLHUP), (.connection 8, POLLIN)], .visit, .hangup])
    (fun s => .connection 8 ∈ s.rest) ⟨1, 0, false, by decide, rfl⟩ (by decide +kernel)
  exact ⟨s, listed, (removed_only_in_functors reached).2.1 8 listed⟩

/-- `startRead` after `connectDestroyed`: the channel is registered again and reported, and `loop()` visits a
connection that is not in `connections_`. -/
theorem startRead_after_destroyed_visited : ∃ s, tcpServer.Reachable Lib.Machine.anyStep s ∧
    s.loop.eventHandling = true ∧ .connection 7 ∈ s.rest ∧ 7 ∉ s.connections :=
  Lib.Machine.exec_reaches tcpServer Lib.Machine.anyStep { loop := { threadId := 1 }, base := { threadId := 0 } }
    (hungUp ++ removal ++ [.functorsDone, .check] ++ meanwhile .startReadInLoop ++
      [.poll [(.connection 7, POLLIN)]])
    (fun s => s.loop.eventHandling = true ∧ .connection 7 ∈ s.rest ∧ 7 ∉ s.connections)
    ⟨1, 0, false, by decide, rfl⟩ (by decide +kernel)

end TcpServer

end Dserver.Net
