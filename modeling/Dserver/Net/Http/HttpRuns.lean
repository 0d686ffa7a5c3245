import Dserver.Net.Http.HttpLoop
import Dserver.Net.Http.Replies

/-!
# The connections of an `HttpServer`

In every run of an `HttpServer` each connection goes through a run of `HttpConnection`: the steps of the loop that
concern it are steps of its own, and all others change only what it sees of the loop. What holds of a connection in a
run with restricted reads so holds of every connection of the server.
-/

namespace Dserver.Net

namespace TcpServer

variable {s s₁ s' : TcpServer} {label : Label} {taken : List Functor} {c : ConnId}

/-- Only a user, `poll` and `handleEvent` work on a connection; a functor's call follows its step. -/
def aside : Label → Bool
  | .poll _ | .visit | .hangup | .writable _ | .handled | .accept _ _ => false
  | label => !HttpServer.ofUser label

structure Aside (s s₁ : TcpServer) : Prop where
  conn : s₁.conn = s.conn
  stage : ∀ c, s₁.stage c = s.stage c
  rest : s₁.rest = s.rest ∨ (s₁.rest = [] ∧ s.loop.phase ≠ .handle)

theorem advance_aside {step : EventLoop.Label Functor} (h : s.advance step (fun loop => { s with loop }) = some (.ok s₁)) :
    s.Aside s₁ := by
  obtain ⟨loop, _, rfl⟩ := advance_ok h
  exact ⟨rfl, fun _ => rfl, .inl rfl⟩

theorem control_aside (aside : aside label = true) (h : s.control label = some (.ok s₁)) : s.Aside s₁ := by
  cases label with
  | poll | visit | hangup | readable | writable | handled | own | accept | call | shutdown | setState => cases aside
  | enter =>
    simp only [control, Option.ite_none_right_eq_some] at h
    exact advance_aside h.2
  | check =>
    obtain ⟨loop, ⟨phase, rfl⟩, rfl⟩ := advance_phase h
    split
    · exact ⟨rfl, fun _ => rfl, .inr ⟨rfl, by simp [phase]⟩⟩
    · exact ⟨rfl, fun _ => rfl, .inl rfl⟩
  | userReturn =>
    simp only [control] at h
    split at h
    · rename_i c was
      obtain rfl := Except.ok.inj (Option.some.inj h)
      exact ⟨rfl, fun _ => by simp only [stage, was], .inl rfl⟩
    · rename_i was
      obtain rfl := Except.ok.inj (Option.some.inj h)
      exact ⟨rfl, fun _ => by simp only [stage, was], .inl rfl⟩
    · rename_i was
      obtain rfl := Except.ok.inj (Option.some.inj h)
      exact ⟨rfl, fun _ => by simp only [stage, was], .inl rfl⟩
    · rename_i was
      obtain rfl := Except.ok.inj (Option.some.inj h)
      exact ⟨rfl, fun _ => by simp only [stage, was], .inl rfl⟩
    · cases h
    · cases h
  | doPendingFunctors | functorsDone | quit =>
    simp only [control, Option.ite_none_right_eq_some] at h
    exact advance_aside h.2
  | functor r =>
    simp only [control] at h
    split at h
    · rename_i cb rest idle batch
      obtain ⟨loop, _, rfl⟩ := advance_ok h
      refine ⟨rfl, fun _ => ?_, .inl rfl⟩
      simp only [stage, idle]
      cases (cb.call r).isSome <;> rfl
    · cases h
  | queueTask | callTask =>
    simp only [control, Option.ite_none_right_eq_some, Option.some.injEq, Except.ok.injEq] at h
    obtain ⟨_, rfl⟩ := h
    exact ⟨rfl, fun _ => rfl, .inl rfl⟩
  | push t =>
    simp only [control] at h
    split at h
    · obtain rfl := Except.ok.inj (Option.some.inj h)
      exact ⟨rfl, fun _ => rfl, .inl rfl⟩
    · cases h
  | wakeup t => exact advance_aside h
  | release t c =>
    simp only [control, Option.ite_none_right_eq_some, Option.some.injEq] at h
    obtain ⟨_, h⟩ := h
    unfold destroy at h
    dsimp only at h
    split at h
    · cases h
    · split at h
      · cases h
      · split at h
        · cases h
        · obtain rfl := Except.ok.inj h
          exact ⟨rfl, fun _ => rfl, .inl rfl⟩
  | base l =>
    simp only [control, Option.ite_none_right_eq_some] at h
    obtain ⟨_, h⟩ := h
    split at h
    · obtain rfl := Except.ok.inj (Option.some.inj h)
      exact ⟨rfl, fun _ => rfl, .inl rfl⟩
    · cases h
    · cases h
  | baseFunctor =>
    simp only [control, Option.ite_none_right_eq_some] at h
    obtain ⟨_, h⟩ := h
    split at h
    · obtain rfl := Except.ok.inj (Option.some.inj h)
      exact ⟨rfl, fun _ => rfl, .inl rfl⟩
    · obtain rfl := Except.ok.inj (Option.some.inj h)
      exact ⟨rfl, fun _ => rfl, .inl rfl⟩
    · cases h

theorem reachable_batch {guard : TcpServer → Label → Prop} (h : tcpServer.Reachable guard s) : s.Batch fun _ => True := by
  refine h.invariant (P := fun a => a.Batch fun _ => True) (fun a => initial_batch) ?_
  intro a label b reached batch _ step
  have loops := reachable_loops reached
  have inv := reachable_inv reached
  rcases step_cases loops step with ⟨c, fd, x, _, born⟩ | ⟨s₁, taken, made, moved⟩
  · exact born_batch loops batch born
  · have batch₁ : s₁.Batch fun _ => True :=
      control_batch (fun _ _ _ => id) (fun _ _ _ => trivial) inv.registered batch moved.control
        (control_focus moved.old moved.step)
    rcases moved.ended with ⟨_, rfl⟩ | ⟨c, call, x, rfl, member, ran, rfl⟩
    · exact batch₁
    · exact commit_batch moved.loops (control_inv inv moved.control) batch₁ moved member ran fun _ _ => trivial

/-! ### What is in the queue -/

/-- No functor of a user waits or is about to be queued. -/
structure Plain (s : TcpServer) : Prop where
  todo : ∀ cb ∈ s.todo, ∀ r c call, cb.call r = some (c, call) → call = .connectDestroyed
  calling : ∀ call ∈ s.calling, call.2 = .task

theorem Plain.pushed (h : s.Plain) {loop : EventLoop Functor} {cbs : List Functor} (calling : s₁.calling = s.calling)
    (pushed : s.loop.Pushed loop cbs) (same : s₁.loop = loop)
    (plain : ∀ cb ∈ cbs, ∀ r c call, cb.call r = some (c, call) → call = .connectDestroyed) : s₁.Plain := by
  refine ⟨fun cb member => ?_, calling ▸ h.calling⟩
  rw [TcpServer.todo, same, pushed.waiting] at member
  rcases List.mem_append.mp member with before | new
  · exact h.todo cb before
  · exact plain cb new

theorem control_plain (h : s.Plain) (alone : Alone s label) (control : Control s s₁ label taken) : s₁.Plain := by
  cases control with
  | quiet keeps thread calling todo =>
    refine ⟨fun cb member => h.todo cb ?_, calling ▸ h.calling⟩
    rw [todo]
    exact List.mem_append_right _ member
  | queued loop pushed rest => exact h.pushed (by rw [rest]) pushed (by rw [rest]) (by simp [Functor.call])
  | called | tested | stored => cases alone
  | calledTask t _ rest =>
    subst rest
    refine ⟨h.todo, fun call member => ?_⟩
    rcases List.mem_append.mp member with before | new
    · exact h.calling call before
    · rw [List.mem_singleton.mp new]
  | pushed t cb found rest =>
    subst rest
    have task : cb = .task := h.calling (t, cb) (mem_of_lookup found)
    have pushed : Plain { s with loop := s.loop.queueInLoop t cb } :=
      h.pushed rfl (pushCall_pushed s t cb) rfl (by simp [task, Functor.call])
    exact ⟨pushed.todo, fun call member => h.calling call (List.mem_of_mem_filter member)⟩
  | removed c loop base _ pushed rest =>
    exact h.pushed (by rw [rest]) pushed (by rw [rest]) (by simp [Functor.call])
  | freed t c _ _ _ _ rest =>
    subst rest
    exact ⟨h.todo, h.calling⟩

theorem commit_plain {x : Ctx} {call : TcpConnection.Call} (h : s.Plain) (loops : s.Loops)
    (connected : call = .connectDestroyed → (s.ctx c).conn.state ≠ .kConnected) (ran : call.run (s.ctx c) = .ok x) :
    (s.commit c x).Plain := by
  obtain ⟨_, pushed, _⟩ := commit_loops loops c x
  obtain ⟨new, log, callbacks⟩ := (TcpConnection.effect_local (TcpConnection.run_effect ran) connected).queued
  refine h.pushed rfl pushed rfl fun cb member => ?_
  have member : cb ∈ [] ++ new := log ▸ member
  rcases callbacks cb member with rfl | ⟨size, rfl⟩
  · simp [Functor.call]
  · simp [Functor.call]

theorem reachable_plain (h : tcpServer.Reachable Alone s) : s.Plain := by
  refine h.invariant (P := Plain) ?_ ?_
  · rintro a ⟨threadId, baseId, _, _, rfl⟩
    exact ⟨by simp [todo, Lib.BatchQueue.waiting], by simp⟩
  · intro a label b reached plain alone step
    have loops := reachable_loops reached
    have inv := reachable_inv reached
    rcases step_cases loops step with ⟨c, fd, x, _, born⟩ | ⟨s₁, taken, made, moved⟩
    · rw [born.result]
      have plain₁ : (a.newConnection c fd).Plain := ⟨plain.todo, plain.calling⟩
      have other : TcpConnection.Call.connectEstablished ≠ .connectDestroyed := fun same => by cases same
      exact commit_plain plain₁ ⟨loops.loop, loops.base, loops.threads⟩ (fun same => absurd same other) born.ran
    · have plain₁ := control_plain plain alone moved.control
      rcases moved.ended with ⟨_, rfl⟩ | ⟨c, call, x, rfl, member, ran, rfl⟩
      · exact plain₁
      · exact commit_plain plain₁ moved.loops ((control_inv inv moved.control).connected member moved.origin.made) ran

end TcpServer

/-- Any step but `readCallback_`. -/
def HttpConnection.quiet (_ : HttpConnection) : HttpConnection.Label → Prop
  | .handleRead .. => False
  | _ => True

namespace HttpServer

open Lib.Machine

variable {s : HttpServer} {server : TcpServer} {c : ConnId} {Q : TcpConnection → Prop}
  {allowed : HttpConnection → HttpConnection.Label → Prop}

/-- A connection sees another state of the loop. -/
theorem sees {v : HttpConnection} (id : v.ctx.id = c) (conn : s.server.conn c = v.ctx.conn)
    (rest : s.connection c = { v with ctx := (s.connection c).ctx }) :
    httpConnection.Steps HttpConnection.quiet v (s.connection c) := by
  refine .single ⟨.others s.server.poller s.server.connections s.server.loop.eventHandling s.server.current
    (s.connection c).ctx.active, trivial, ?_⟩
  have ctx : (s.connection c).ctx = ⟨c, s.server.conn c, s.server.poller, s.server.connections,
    s.server.loop.eventHandling, s.server.current, (s.connection c).ctx.active, [], false, false⟩ := rfl
  rw [rest, ctx, conn, ← id]
  rfl

/-- The connection is not listed before `poll` returns. -/
theorem listed_eq (batch : s.server.Batch Q) (aside : s.server.Aside server) :
    decide (Entry.connection c ∈ server.rest) = decide (Entry.connection c ∈ s.server.rest) := by
  rcases aside.rest with same | ⟨empty, phase⟩
  · rw [same]
  · rw [empty, batch.placed.finished (.inr phase) (.inr rfl)]

theorem aside_steps (batch : s.server.Batch Q) (aside : s.server.Aside server)
    (thread : server.loop.threadId = s.server.loop.threadId) :
    httpConnection.Steps HttpConnection.quiet (s.connection c) (connection { s with server } c) := by
  refine sees rfl (congrFun aside.conn c) ?_
  simp only [connection, aside.stage, listed_eq batch aside, thread]

theorem poll_steps {reports : List (Entry × Events)} (registered : s.server.Registered) (batch : s.server.Batch Q)
    (h : s.server.control (.poll reports) = some (.ok server)) :
    httpConnection.Steps HttpConnection.quiet (s.connection c) (connection { s with server } c) := by
  simp only [TcpServer.control, Option.ite_none_right_eq_some] at h
  obtain ⟨⟨may, _⟩, h⟩ := h
  obtain ⟨loop, ⟨phase, rfl⟩, rfl⟩ := TcpServer.advance_phase h
  have idle := batch.placed.idle (by simp [phase]) (by simp [phase])
  have empty : s.server.rest = [] := batch.placed.finished (.inr (by simp [phase])) (.inr rfl)
  have stage : s.server.stage c = none := by simp only [TcpServer.stage, idle]
  cases reported : reports.lookup (.connection c) with
  | none =>
    have absent : Entry.connection c ∉ reports.map Prod.fst := by
      intro listed
      obtain ⟨report, member, same⟩ := List.mem_map.mp listed
      have other := List.lookup_eq_none_iff.mp reported report member
      simp [same] at other
    refine sees rfl ?_ ?_
    · simp only [TcpServer.setRevents, reported]
      rfl
    · simp only [connection, TcpServer.stage, idle, empty, absent, List.not_mem_nil]
      rfl
  | some revents =>
    have member := TcpServer.mem_of_lookup reported
    obtain ⟨_, added, asked⟩ := TcpServer.mayReport_added registered (List.all_eq_true.mp may _ member)
    have listed : Entry.connection c ∈ reports.map Prod.fst := List.mem_map_of_mem member
    have unlisted : (s.connection c).listed = false := by simp [connection, empty]
    refine .head ⟨.poll revents, trivial, if_pos ⟨unlisted, stage, added, asked⟩⟩ (sees rfl ?_ ?_)
    · simp only [TcpServer.setRevents, reported]
      rfl
    · simp only [connection, TcpServer.stage, idle, listed, HttpConnection.setChannel]
      rfl

theorem visit_steps (batch : s.server.Batch Q) (h : s.server.control .visit = some (.ok server)) :
    httpConnection.Steps HttpConnection.quiet (s.connection c) (connection { s with server } c) := by
  simp only [TcpServer.control] at h
  split at h
  · rename_i entry rest phase idle waiting
    have nodup := batch.nodup
    rw [waiting, List.nodup_cons] at nodup
    have stage : s.server.stage c = none := by simp only [TcpServer.stage, idle]
    -- an entry that is not the connection's leaves it as it is
    have other : ∀ {server : TcpServer}, server.conn c = s.server.conn c → server.stage c = none →
        server.loop.threadId = s.server.loop.threadId → server.rest = rest → entry ≠ .connection c →
        httpConnection.Steps HttpConnection.quiet (s.connection c) (connection { s with server } c) := by
      intro server conn stage' thread later different
      refine sees rfl conn ?_
      have same : (Entry.connection c ∈ entry :: rest) = (Entry.connection c ∈ rest) := by
        simp [Ne.symm different]
      simp only [connection, stage, stage', thread, later, waiting, same]
    cases entry with
    | wakeup =>
      obtain ⟨loop, ⟨_, rfl⟩, rfl⟩ := TcpServer.advance_phase h
      exact other rfl (by simp only [TcpServer.stage, idle]) rfl rfl (by simp)
    | acceptor =>
      obtain rfl := Except.ok.inj (Option.some.inj h)
      exact other rfl rfl rfl rfl (by simp)
    | other id =>
      obtain rfl := Except.ok.inj (Option.some.inj h)
      exact other rfl rfl rfl rfl (by simp)
    | connection d =>
      simp only [TcpServer.visit] at h
      split at h
      · obtain rfl := Except.ok.inj (Option.some.inj h)
        by_cases same : d = c
        · subst same
          have listed : (s.connection d).listed = true := by simp [connection, waiting]
          refine .head ⟨.visit, trivial, if_pos ⟨listed, stage⟩⟩ (sees rfl ?_ ?_)
          · exact Function.update_self _ _ _
          · simp only [connection, TcpServer.stage, nodup.1, HttpConnection.setChannel, if_true]
            rfl
        · refine other (Function.update_of_ne (Ne.symm same) _ _) ?_ rfl rfl (fun h => same (Entry.connection.inj h))
          simp only [TcpServer.stage, if_neg same]
      · cases h
  · cases h

theorem handled_steps (h : s.server.control .handled = some (.ok server)) :
    httpConnection.Steps HttpConnection.quiet (s.connection c) (connection { s with server } c) := by
  simp only [TcpServer.control] at h
  split at h
  · rename_i d was
    obtain rfl := Except.ok.inj (Option.some.inj h)
    by_cases same : d = c
    · subst same
      have stage : (s.connection d).stage = some .done := by simp only [connection, TcpServer.stage, was, if_true]
      refine .head ⟨.handled, trivial, if_pos stage⟩ (sees rfl (Function.update_self _ _ _) ?_)
      simp only [connection, TcpServer.stage, HttpConnection.setChannel]
      rfl
    · refine sees rfl (Function.update_of_ne (Ne.symm same) _ _) ?_
      simp only [connection, TcpServer.stage, was, if_neg same]
      rfl
  · cases h

/-- `handleEvent` goes on without a callback. -/
theorem skip_steps {d : ConnId} {stage : Stage} (was : s.server.handler = .event d stage) (more : stage ≠ .done)
    (silent : stage.reported (s.server.conn d).channel.revents = false) :
    httpConnection.Steps HttpConnection.quiet (s.connection c)
      (connection { s with server := { s.server with handler := .event d stage.next } } c) := by
  by_cases same : d = c
  · subst same
    have stage_eq : (s.connection d).stage = some stage := by simp only [connection, TcpServer.stage, was, if_true]
    refine .head ⟨.skip, trivial, ?_⟩ (sees (v := { s.connection d with stage := some stage.next }) rfl rfl ?_)
    · simp only [httpConnection, HttpConnection.step, stage_eq]
      exact if_pos ⟨more, silent⟩
    · simp only [connection, TcpServer.stage, if_true]
  · refine sees rfl rfl ?_
    simp only [connection, TcpServer.stage, was, if_neg same]

/-! ### Calls -/

theorem event_other {d : ConnId} {stage : Stage} (stage' : Stage) (different : c ≠ d)
    (was : s.server.handler = .event d stage) :
    httpConnection.Steps HttpConnection.quiet (s.connection c)
      (connection { s with server := { s.server with handler := .event d stage' } } c) := by
  refine sees rfl rfl ?_
  simp only [connection, TcpServer.stage, was, if_neg (Ne.symm different)]

/-- The loop after a call on another connection. -/
theorem other_steps {d : ConnId} {x : Ctx} (different : c ≠ d) (silent : x.message = false) :
    httpConnection.Steps HttpConnection.quiet (s.connection c) (connection { s with server := s.server.commit d x } c) := by
  refine sees rfl (TcpServer.commit_other different x) ?_
  have thread : (s.server.commit d x).loop.threadId = s.server.loop.threadId :=
    (TcpServer.queueAll_pushed s.server.loop x.queued).threadId
  simp only [connection, thread]
  simp only [TcpServer.stage, TcpServer.commit, silent, Bool.false_eq_true, if_false]

/-- The loop after a call on the connection. -/
theorem called_steps {x : Ctx} (id : x.id = c) (silent : x.message = false) :
    httpConnection.Steps HttpConnection.quiet { s.connection c with ctx := x }
      (connection { s with server := s.server.commit c x } c) := by
  refine sees id (TcpServer.commit_self _ c x) ?_
  have thread : (s.server.commit c x).loop.threadId = s.server.loop.threadId :=
    (TcpServer.queueAll_pushed s.server.loop x.queued).threadId
  simp only [connection, thread]
  simp only [TcpServer.stage, TcpServer.commit, silent, Bool.false_eq_true, if_false]

/-- `handleEvent` makes a callback that is one call. -/
theorem callback_steps {d : ConnId} {stage : Stage} {call : TcpConnection.Call} {x : Ctx}
    (was : s.server.handler = .event d stage) (reported : stage.reported (s.server.conn d).channel.revents = true)
    (ran : call.run (TcpServer.ctx { s.server with handler := .event d stage.next } d) = .ok x) (id : x.id = d)
    (silent : x.message = false) (label : HttpConnection.Label) (quiet : ∀ v, HttpConnection.quiet v label)
    (made : ∀ v : HttpConnection, v.step label = v.callback stage fun v => v.call call) :
    httpConnection.Steps HttpConnection.quiet (s.connection c)
      (connection { s with server := TcpServer.commit { s.server with handler := .event d stage.next } d x } c) := by
  let after : HttpServer := { s with server := { s.server with handler := .event d stage.next } }
  by_cases same : c = d
  · subst same
    refine .head ⟨label, quiet _, ?_⟩ (called_steps (s := after) id silent)
    have before : (s.connection c).stage = some stage := by simp only [connection, TcpServer.stage, was, if_true]
    have moved : { s.connection c with stage := some stage.next } = after.connection c := by
      simp only [connection, TcpServer.stage, TcpServer.ctx, TcpServer.current, was, after, if_true]
    have ran : call.run (after.connection c).ctx = .ok x := ran
    refine (made _).trans ((if_pos ⟨before, reported⟩).trans (congrArg some ?_))
    rw [moved]
    dsimp only
    rw [HttpConnection.call, ran]
    rfl
  · exact (event_other stage.next same was).trans (other_steps (s := after) same silent)

theorem hangup_steps (h : s.server.step .hangup = some (.ok server)) :
    httpConnection.Steps HttpConnection.quiet (s.connection c) (connection { s with server } c) := by
  cases was : s.server.handler with
  | event d stage =>
    cases stage with
    | close =>
      rw [event_step .close .handleClose (by simp only [TcpServer.control, was]; rfl)
        (by simp only [TcpServer.callOf, was]; rfl)] at h
      split at h
      · rename_i reported
        obtain ⟨_, x, ran, rfl⟩ := TcpServer.act_ok (Option.some.inj h)
        obtain ⟨_, toggled⟩ := TcpConnection.handleClose_interest ran
        exact callback_steps was reported ran (TcpConnection.handleClose_frame ran).2.id toggled.message .handleClose
          (fun _ => trivial) fun _ => rfl
      · rename_i silent
        obtain rfl := Except.ok.inj (Option.some.inj h)
        exact skip_steps was (by decide) (by simpa using silent)
    | read | write | done =>
      simp only [TcpServer.step, TcpServer.control, was] at h
      cases h
  | idle | message | acceptor | other | functor =>
    simp only [TcpServer.step, TcpServer.control, was] at h
    cases h

theorem writable_steps {r : WriteResult} (h : s.server.step (.writable r) = some (.ok server)) :
    httpConnection.Steps HttpConnection.quiet (s.connection c) (connection { s with server } c) := by
  cases was : s.server.handler with
  | event d stage =>
    cases stage with
    | write =>
      rw [event_step .write (.handleWrite r) (by simp only [TcpServer.control, was]; rfl)
        (by simp only [TcpServer.callOf, was]; rfl)] at h
      split at h
      · rename_i reported
        obtain ⟨_, x, ran, rfl⟩ := TcpServer.act_ok (Option.some.inj h)
        have unread : x.message = false := by
          rcases TcpConnection.handleWrite_interest ran with same | ⟨_, toggled⟩
          · exact same.message
          · exact toggled.message
        exact callback_steps was reported ran (TcpConnection.handleWrite_frame ran).id unread (.handleWrite r)
          (fun _ => trivial) fun _ => rfl
      · rename_i silent
        obtain rfl := Except.ok.inj (Option.some.inj h)
        exact skip_steps was (by decide) (by simpa using silent)
    | close | read | done =>
      simp only [TcpServer.step, TcpServer.control, was] at h
      cases h
  | idle | message | acceptor | other | functor =>
    simp only [TcpServer.step, TcpServer.control, was] at h
    cases h

/-! ### Steps of the loop -/

theorem silent_step {label : TcpServer.Label} (silent : s.server.callOf label = none)
    (h : s.server.step label = some (.ok server)) : s.server.control label = some (.ok server) := by
  unfold TcpServer.step at h
  split at h
  · rename_i moved
    rw [silent] at h
    exact moved.trans h
  · exact h

/-- A functor in the queue is `connectDestroyed`, or calls no connection. -/
theorem functor_steps {r : WriteResult} (reached : tcpServer.Reachable TcpServer.Alone s.server)
    (h : s.server.step (.functor r) = some (.ok server)) :
    httpConnection.Steps HttpConnection.quiet (s.connection c) (connection { s with server } c) := by
  have inv := TcpServer.reachable_inv reached
  rcases TcpServer.step_cases (TcpServer.reachable_loops reached) h with ⟨d, fd, x, same, _⟩ | ⟨s₁, taken, made, moved⟩
  · cases same
  · have beside := TcpServer.control_aside rfl moved.step
    have first := aside_steps (c := c) (TcpServer.reachable_batch reached) beside moved.control.threadId
    rcases moved.ended with ⟨rfl, rfl⟩ | ⟨d, call, x, rfl, member, ran, rfl⟩
    · exact first
    · have inv₁ := TcpServer.control_inv inv moved.control
      have called := moved.made
      have step := moved.step
      simp only [TcpServer.control] at step
      split at step
      · rename_i cb rest idle waiting
        simp only [TcpServer.callOf, waiting] at called
        have waits : cb ∈ s.server.todo := by simp [TcpServer.todo, Lib.BatchQueue.waiting, waiting]
        obtain rfl := (TcpServer.reachable_plain reached).todo cb waits r d call called
        have doomed := inv₁.connected member moved.origin.made
        obtain ⟨_, frame, _⟩ := TcpConnection.connectDestroyed_frame (doomed rfl) ran
        have silent : x.message = false := (TcpConnection.connectDestroyed_interest (doomed rfl) ran).1
        by_cases same : c = d
        · subst same
          have life := moved.origin.made.destroyed ▸ inv₁.life c (inv₁.registered.subset member)
          have stage : (connection { s with server := s₁ } c).stage = none :=
            (beside.stage c).trans (by simp only [TcpServer.stage, idle])
          refine (first.tail ⟨.connectDestroyed, trivial, (if_pos ⟨stage, life.doomed⟩).trans (congrArg some ?_)⟩).trans
            (called_steps (s := { s with server := s₁ }) frame.id silent)
          have ran : TcpConnection.Call.connectDestroyed.run (connection { s with server := s₁ } c).ctx = .ok x := ran
          rw [HttpConnection.call, ran]
          rfl
        · exact first.trans (other_steps (s := { s with server := s₁ }) same silent)
      · cases step

/-- Every step of the loop but `newConnection` is a run of each connection. -/
theorem tcp_steps {label : TcpServer.Label} (reached : tcpServer.Reachable TcpServer.Alone s.server)
    (foreign : ofUser label = false) (old : ∀ c fd, label ≠ .accept c fd)
    (h : s.server.step label = some (.ok server)) :
    httpConnection.Steps HttpConnection.quiet (s.connection c) (connection { s with server } c) := by
  have batch := TcpServer.reachable_batch reached
  -- a step that makes no call and is not about a connection
  have plain : TcpServer.aside label = true → s.server.callOf label = none →
      httpConnection.Steps HttpConnection.quiet (s.connection c) (connection { s with server } c) := by
    intro aside silent
    rcases TcpServer.step_cases (TcpServer.reachable_loops reached) h with ⟨d, fd, x, same, _⟩ | ⟨s₁, taken, made, moved⟩
    · exact absurd same (old d fd)
    · rcases moved.ended with ⟨_, rfl⟩ | ⟨d, call, x, rfl, _⟩
      · exact aside_steps batch (TcpServer.control_aside aside moved.step) moved.control.threadId
      · cases silent.symm.trans moved.made
  cases label with
  | poll reports => exact poll_steps (TcpServer.reachable_inv reached).registered batch (silent_step rfl h)
  | visit => exact visit_steps batch (silent_step rfl h)
  | hangup => exact hangup_steps h
  | writable r => exact writable_steps h
  | handled => exact handled_steps (silent_step rfl h)
  | functor r => exact functor_steps reached h
  | accept c fd => exact absurd rfl (old c fd)
  | readable | own | call | shutdown | setState => cases foreign
  | enter | check | userReturn | doPendingFunctors | functorsDone | queueTask | callTask | push | wakeup | quit | release
  | base | baseFunctor => exact plain rfl rfl

theorem of_quiet {v w : HttpConnection} (free : ∀ v label, HttpConnection.quiet v label → allowed v label)
    (h : httpConnection.Steps HttpConnection.quiet v w) : httpConnection.Steps allowed v w :=
  Relation.ReflTransGen.mono (fun a _ ⟨label, quiet, step⟩ => ⟨label, free a label quiet, step⟩) v w h

/-- `readCallback_`, with `onMessage`. -/
theorem handleRead_steps {after : HttpServer} {d : ConnId} {v : HttpConnection} {result : ReadResult}
    {receiveTime : Timestamp} {httpCallback : HttpCallback} {r : WriteResult} (was : s.server.handler = .event d .read)
    (moved : { s with server := { s.server with handler := .event d .write } } = after)
    (free : ∀ v label, HttpConnection.quiet v label → allowed v label)
    (may : c = d → allowed (s.connection c) (.handleRead result receiveTime httpCallback r))
    (reported : Stage.reported (s.server.conn d).channel.revents .read = true)
    (ran : (after.connection d).handleRead result receiveTime httpCallback r = .ok v) :
    httpConnection.Steps allowed (s.connection c) ((after.commit d v).connection c) := by
  have writing : after.server.handler = .event d .write := moved ▸ rfl
  obtain ⟨⟨x, read, called⟩, fields⟩ := HttpConnection.handleRead_answers rfl ran
  have read : TcpConnection.handleRead (after.server.ctx d) result = .ok x := read
  have answered : v.ctx.id = d ∧ v.ctx.message = false := by
    rcases called with ⟨silent, same⟩ | ⟨b, rfl, answers⟩
    · rw [same]
      rcases TcpConnection.handleRead_frame read with frame | ⟨_, frame⟩
      · exact ⟨frame.id, silent⟩
      · exact ⟨frame.id, silent⟩
    · have inside : after.server.Inside d (TcpConnection.setInputBuffer (after.server.ctx d) b) := ⟨rfl, rfl⟩
      have inside := inside.next answers
      exact ⟨inside.id, (inside.fields writing).2.2.2.2⟩
  obtain ⟨id, silent⟩ := answered
  by_cases same : c = d
  · subst same
    have before : (s.connection c).stage = some .read := by simp only [connection, TcpServer.stage, was, if_true]
    have turned : { s.connection c with stage := some Stage.read.next } = after.connection c := by
      rw [← moved]
      simp only [connection, TcpServer.stage, TcpServer.ctx, TcpServer.current, was, if_true]
      rfl
    refine .head ⟨.handleRead result receiveTime httpCallback r, may rfl,
      (if_pos ⟨before, reported⟩).trans (congrArg some ?_)⟩ (of_quiet free (sees id (TcpServer.commit_self _ c v.ctx) ?_))
    · rw [turned]
      exact ran
    · have thread : v.threadId = (after.server.commit c v.ctx).loop.threadId :=
        (congrArg HttpConnection.threadId fields).trans
          (TcpServer.queueAll_pushed after.server.loop v.ctx.queued).threadId.symm
      have listed : v.listed = (after.connection c).listed := by rw [fields]
      have stage : v.stage = (after.server.commit c v.ctx).stage c := by
        have kept : v.stage = (after.connection c).stage := by rw [fields]
        rw [kept]
        simp only [connection, TcpServer.stage, TcpServer.commit, silent, Bool.false_eq_true, if_false]
      simp only [connection, commit, Function.update_self, thread, listed, stage]
      rfl
  · have others := (event_other .write same was).trans (other_steps (x := v.ctx) same silent)
    rw [moved] at others
    have kept : connection { after with server := after.server.commit d v.ctx } c = (after.commit d v).connection c := by
      simp only [connection, commit, Function.update_of_ne same]
      rfl
    rw [← kept]
    exact of_quiet free others

/-! ### New connections -/

theorem born_silent {d : ConnId} {fd : Fd} {x : Ctx} (born : s.server.Born server d fd x) : x.message = false :=
  (TcpConnection.connectEstablished_interest born.ran).1

theorem born_other {d : ConnId} {fd : Fd} {x : Ctx} (born : s.server.Born server d fd x) (different : c ≠ d) :
    httpConnection.Steps HttpConnection.quiet (s.connection c)
      (({ s with server }.onConnection (.accept d fd)).connection c) := by
  have first : httpConnection.Steps HttpConnection.quiet (s.connection c)
      (connection { s with server := s.server.newConnection d fd } c) :=
    sees rfl (TcpServer.newConnection_other different fd) rfl
  have second := other_steps (s := { s with server := s.server.newConnection d fd }) different (born_silent born)
  have kept : ({ s with server }.onConnection (.accept d fd)).connection c =
      connection { s with server := (s.server.newConnection d fd).commit d x } c := by
    rw [← born.result]
    simp only [connection, onConnection, Function.update_of_ne different]
    rfl
  rw [kept]
  exact first.trans second

theorem born_reachable {d : ConnId} {fd : Fd} {x : Ctx} (batch : s.server.Batch Q) (born : s.server.Born server d fd x) :
    httpConnection.Reachable HttpConnection.quiet (({ s with server }.onConnection (.accept d fd)).connection d) := by
  have start : httpConnection.init { ctx := x, threadId := s.server.loop.threadId } := by
    refine ⟨(s.server.newConnection d fd).ctx d, fd, s.server.writeCompleteCallback, ?_, born.ran, rfl⟩
    exact TcpServer.newConnection_self s.server d fd
  refine (Reachable.initial start).steps (sees (TcpConnection.connectEstablished_frame born.ran).2.id ?_ ?_)
  · rw [onConnection, born.result]
    exact TcpServer.commit_self _ d x
  · have unlisted : Entry.connection d ∉ s.server.rest := fun listed => born.fresh (batch.reported d listed).1
    have thread : server.loop.threadId = s.server.loop.threadId := by
      rw [born.result]
      exact (TcpServer.queueAll_pushed s.server.loop x.queued).threadId
    have stage : server.stage d = none := by
      rw [born.result]
      simp only [TcpServer.stage, TcpServer.commit, TcpServer.newConnection, born_silent born, Bool.false_eq_true,
        if_false, born.handler]
    have rest : server.rest = s.server.rest := by rw [born.result]; rfl
    simp only [connection, onConnection, Function.update_self, thread, stage, rest, unlisted, decide_false]

/-! ### Whole runs -/

/-- What a connection is allowed when it is read from. -/
def Reads (allowed : HttpConnection → HttpConnection.Label → Prop) (s : HttpServer) : Label → Prop
  | .tcp _ => True
  | .read result receiveTime httpCallback r =>
    ∀ c, s.server.handler = .event c .read → allowed (s.connection c) (.handleRead result receiveTime httpCallback r)

/-- Every connection of an `HttpServer` goes through a run of `httpConnection`. -/
theorem connection_reachable (free : ∀ v label, HttpConnection.quiet v label → allowed v label)
    (h : httpServer.Reachable (Reads allowed) s) :
    ∀ c ∈ s.server.created, httpConnection.Reachable allowed (s.connection c) := by
  refine h.invariant (P := fun a => ∀ c ∈ a.server.created, httpConnection.Reachable allowed (a.connection c)) ?_ ?_
  · rintro a ⟨⟨threadId, baseId, _, _, same⟩, _⟩
    rw [same]
    simp
  · intro a label b reached known may step c created
    have alone := server_reachable (reached.mono fun _ _ _ => trivial)
    have loops := TcpServer.reachable_loops alone
    cases label with
    | tcp label =>
      simp only [httpServer, HttpServer.step] at step
      split at step
      · cases step
      · rename_i foreign
        split at step
        · rename_i server stepped
          obtain rfl := Except.ok.inj (Option.some.inj step)
          rcases TcpServer.step_cases loops stepped with ⟨d, fd, x, rfl, born⟩ | ⟨s₁, taken, made, moved⟩
          · by_cases same : c = d
            · subst same
              exact (born_reachable (TcpServer.reachable_batch alone) born).mono free
            · have before : c ∈ a.server.created := by
                have created : c ∈ server.created := created
                rw [born.result] at created
                exact (Finset.mem_insert.mp created).resolve_left same
              exact (known c before).steps (of_quiet free (born_other born same))
          · have kept : { a with server }.onConnection label = { a with server } := by
              cases label with
              | accept d fd => exact absurd rfl (moved.old d fd)
              | _ => rfl
            rw [kept] at created ⊢
            have before : c ∈ a.server.created := by
              rw [← moved.control.created]
              rcases moved.ended with ⟨_, rfl⟩ | ⟨d, call, x, _, _, _, rfl⟩
              · exact created
              · exact created
            exact (known c before).steps (of_quiet free (tcp_steps alone (by simpa using foreign) moved.old stepped))
        · cases step
        · cases step
    | read result receiveTime httpCallback r =>
      simp only [httpServer, HttpServer.step] at step
      split at step
      · rename_i d was
        split at step
        · rename_i reported
          split at step
          · split at step
            · rename_i v ran
              obtain rfl := Except.ok.inj (Option.some.inj step)
              exact (known c created).steps (handleRead_steps was rfl free (fun same => may c (same ▸ was)) reported ran)
            · cases step
          · cases step
        · rename_i silent
          obtain rfl := Except.ok.inj (Option.some.inj step)
          exact (known c created).steps (of_quiet free (skip_steps was (by decide) (by simpa using silent)))
      · cases step

/-- On every connection of the server the accepted bytes are the replies, up to and including the first that closes,
when no connection is read from after its `handleClose`. -/
theorem replies_accepted (h : httpServer.Reachable (Reads HttpConnection.ReadsOpen) s) (created : c ∈ s.server.created) :
    HttpConnection.accepted (s.server.ctx c) = (HttpConnection.untilClose (s.replies c)).flatMap Reply.bytes := by
  have free : ∀ v label, HttpConnection.quiet v label → HttpConnection.ReadsOpen v label := by
    intro v label quiet
    cases label with
    | handleRead => cases quiet
    | _ => trivial
  exact (HttpConnection.reachable_sent (connection_reachable free h c created)).bytes

end HttpServer

end Dserver.Net
