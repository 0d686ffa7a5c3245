import Dserver.Net.Http.Replies
import Dserver.Net.OutputInvariant

/-!
# What the client receives

`HttpServer` sends in the loop's thread only, so nothing waits in `pendingFunctors_`: each reply is written,
or goes behind what is buffered. The socket is shut down for writing behind the last byte of the first reply
that closes.
-/

namespace Dserver.Net

namespace TcpConnection

/-- A connection whose messages are all sent in its own thread, none of them with a write that the peer has
refused. -/
structure Wire (conn : TcpConnection) : Prop where
  inv : conn.Inv
  once : conn.ClosedOnce
  whole : conn.sends.map (·.message) = conn.accepted.map (·.2)
  kept : ∀ r ∈ conn.sends, r.dropped = false
  fin : .shutdownWrite ∈ conn.socket → conn.state ≠ .kConnected ∧ conn.outputBuffer.readable = [] ∧
    ∃ ops, conn.socket = ops ++ [.shutdownWrite] ∧ .shutdownWrite ∉ ops
  shut : conn.state = .kDisconnecting → conn.outputBuffer.readable = [] → .shutdownWrite ∈ conn.socket

variable {conn conn' : TcpConnection} {x x' : Ctx} {r : WriteResult}

/-- Nothing is sent, and the state stays or is the last one. -/
theorem Wire.of_eq (h : conn.Wire) (inv : conn'.Inv) (once : conn'.ClosedOnce)
    (buffer : conn'.outputBuffer = conn.outputBuffer)
    (state : conn'.state = conn.state ∨ conn'.state = .kDisconnected) (socket : conn'.socket = conn.socket)
    (sends : conn'.sends = conn.sends) (accepted : conn'.accepted = conn.accepted) : conn'.Wire := by
  refine ⟨inv, once, ?_, ?_, fun member => ?_, fun disconnecting empty => ?_⟩
  · rw [sends, accepted]
    exact h.whole
  · rw [sends]
    exact h.kept
  · rw [socket] at member
    obtain ⟨down, empty, last⟩ := h.fin member
    rw [buffer, socket]
    refine ⟨?_, empty, last⟩
    rcases state with same | disconnected
    · rw [same]
      exact down
    · simp [disconnected]
  · rcases state with same | disconnected
    · rw [socket]
      exact h.shut (same.symm.trans disconnecting) (buffer ▸ empty)
    · simp [disconnected] at disconnecting

theorem setInputBuffer_wire (h : x.conn.Wire) (b : Buffer) : (setInputBuffer x b).conn.Wire :=
  h.of_eq (h.inv.of_eq rfl rfl rfl rfl rfl rfl) (h.once.of_eq rfl rfl) rfl (.inl rfl) rfl rfl rfl

theorem sendInLoop_outcome {sender : Tid} {message : Message} (live : x.conn.state ≠ .kDisconnected)
    (passes : r.faultError = false) (ran : sendInLoop x sender message r = .ok x') :
    ∃ record : SendRecord, record.message = message ∧ record.dropped = false ∧
      x'.conn.sends = x.conn.sends ++ [record] := by
  unfold sendInLoop at ran
  rw [if_neg live] at ran
  split at ran
  · refine ⟨⟨sender, message, .direct r⟩, rfl, passes, ?_⟩
    dsimp only at ran
    split at ran
    · exact (appendOutput_frame ran).sends
    · obtain rfl := Except.ok.inj ran
      rfl
  · refine ⟨⟨sender, message, .buffered⟩, rfl, rfl, ?_⟩
    dsimp only at ran
    split at ran
    · exact (appendOutput_frame ran).sends
    · obtain rfl := Except.ok.inj ran
      rfl

theorem send_wire {sender : Tid} {arg : SendArg} (h : x.conn.Wire) (passes : r.faultError = false)
    (ran : send x sender arg r = .ok x') : x'.conn.Wire := by
  have called : (Call.send sender arg r).run x = .ok x' := ran
  obtain ⟨ops, out, _, silent⟩ := run_outputs h.inv (by rintro ⟨⟩) called
  have once := run_closedOnce (by rintro ⟨⟩) (by rintro ⟨⟩) h.once called
  rcases send_frame ran with ⟨_, rfl⟩ | ⟨connected, _, frame⟩
  · exact h
  · have state : x'.conn.state = .kConnected := frame.state.trans connected
    unfold send at ran
    rw [if_pos connected] at ran
    obtain ⟨record, message, kept, sends⟩ :=
      sendInLoop_outcome (x := accept x sender arg.message) (by simp [accept, connected]) passes ran
    refine ⟨out.inv, once, ?_, ?_, fun member => ?_, fun disconnecting => ?_⟩
    · rw [sends, frame.accepted, List.map_append]
      show x.conn.sends.map _ ++ _ = List.map _ (x.conn.accepted ++ [(sender, arg.message)])
      rw [List.map_append, h.whole]
      simp [message]
    · rw [sends]
      intro other member
      rcases List.mem_append.mp member with old | new
      · exact h.kept other old
      · rw [List.mem_singleton.mp new]
        exact kept
    · rw [out.socket] at member
      rcases List.mem_append.mp member with old | new
      · exact absurd connected (h.fin old).1
      · exact absurd new silent
    · rw [state] at disconnecting
      cases disconnecting

theorem shutdown_wire (h : x.conn.Wire) (ran : shutdown x = .ok x') : x'.conn.Wire := by
  have called : Call.shutdown.run x = .ok x' := ran
  obtain ⟨_, out, _⟩ := run_outputs h.inv (by rintro ⟨⟩) called
  have once := run_closedOnce (by rintro ⟨⟩) (by rintro ⟨⟩) h.once called
  unfold shutdown at ran
  split at ran
  · rename_i connected
    have open_ : .shutdownWrite ∉ x.conn.socket := fun member => (h.fin member).1 connected
    have closes := h.once.live (by simp [connected])
    unfold shutdownInLoop at ran
    split at ran
    · rename_i writing
      obtain rfl := Except.ok.inj ran
      refine ⟨out.inv, once, h.whole, h.kept, fun member => absurd member open_, fun _ empty => ?_⟩
      exact absurd empty (h.inv.waiting writing)
    · rename_i idle
      obtain rfl := Except.ok.inj ran
      have empty := h.inv.idle closes ((Bool.not_eq_true _).mp idle)
      refine ⟨out.inv, once, h.whole, h.kept, fun _ => ⟨?_, empty, x.conn.socket, rfl, open_⟩, fun _ _ => ?_⟩
      · simp [syscall, setState]
      · exact List.mem_append_right _ (List.mem_singleton_self _)
  · obtain rfl := Except.ok.inj ran
    exact h

/-- The end of `handleWrite`, once the buffer is empty. -/
theorem drained_wire {ops : List SocketOp} (inv : x'.conn.Inv) (once : x'.conn.ClosedOnce)
    (whole : x'.conn.sends.map (·.message) = x'.conn.accepted.map (·.2)) (kept : ∀ r ∈ x'.conn.sends, r.dropped = false)
    (absent : .shutdownWrite ∉ ops)
    (socket : x'.conn.socket = ops ∨
      (x'.conn.socket = ops ++ [.shutdownWrite] ∧ x'.conn.state ≠ .kConnected ∧ x'.conn.outputBuffer.readable = []))
    (shut : x'.conn.state = .kDisconnecting → x'.conn.outputBuffer.readable = [] → .shutdownWrite ∈ x'.conn.socket) :
    x'.conn.Wire := by
  refine ⟨inv, once, whole, kept, fun member => ?_, shut⟩
  rcases socket with same | ⟨last, state, empty⟩
  · rw [same] at member
    exact absurd member absent
  · exact ⟨state, empty, ops, last, absent⟩

theorem handleWrite_wire (h : x.conn.Wire) (ran : handleWrite x r = .ok x') : x'.conn.Wire := by
  have frame := handleWrite_frame ran
  have called : (Call.handleWrite r).run x = .ok x' := ran
  obtain ⟨_, out, _⟩ := run_outputs h.inv (by rintro ⟨⟩) called
  have once := run_closedOnce (by rintro ⟨⟩) (by rintro ⟨⟩) h.once called
  have whole : x'.conn.sends.map (·.message) = x'.conn.accepted.map (·.2) := by
    rw [frame.sends, frame.accepted]
    exact h.whole
  have kept : ∀ r ∈ x'.conn.sends, r.dropped = false := by
    rw [frame.sends]
    exact h.kept
  unfold handleWrite at ran
  split at ran
  · rename_i writing
    have live : x.conn.state ≠ .kDisconnected := fun down => by simp [h.inv.down down] at writing
    have waiting := h.inv.waiting writing
    have absent : .shutdownWrite ∉ x.conn.socket ++ [.write x.conn.outputBuffer.readable r] := by
      intro member
      rcases List.mem_append.mp member with old | new
      · exact waiting (h.fin old).2.1
      · simp at new
    dsimp only at ran
    split at ran
    · obtain ⟨b, retrieved, ran⟩ := Lib.bind_ok ran
      split at ran
      · rename_i empty
        obtain ⟨y, toggled, ran⟩ := Lib.bind_ok ran
        obtain ⟨channel, poller, _, rfl⟩ := toggle_ok toggled
        split at ran
        · rename_i disconnecting
          unfold shutdownInLoop at ran
          split at ran
          · rename_i still
            obtain rfl := Except.ok.inj ran
            refine drained_wire out.inv once whole kept absent (.inl rfl) fun _ none => ?_
            exact absurd none (out.inv.waiting still)
          · rename_i off
            obtain rfl := Except.ok.inj ran
            refine drained_wire out.inv once whole kept absent (.inr ⟨rfl, ?_, ?_⟩) fun _ _ => ?_
            · intro connected
              have both : StateE.kDisconnecting = .kConnected := disconnecting.symm.trans connected
              cases both
            · exact out.inv.idle (once.live (by rw [frame.state]; exact live)) ((Bool.not_eq_true _).mp off)
            · exact List.mem_append_right _ (List.mem_singleton_self _)
        · rename_i other
          obtain rfl := Except.ok.inj ran
          exact drained_wire out.inv once whole kept absent (.inl rfl) fun state => absurd state other
      · rename_i more
        obtain rfl := Except.ok.inj ran
        refine drained_wire out.inv once whole kept absent (.inl rfl) fun _ empty => ?_
        exact absurd (out.inv.wf.readable_eq_nil.mp empty) more
    · obtain rfl := Except.ok.inj ran
      exact drained_wire out.inv once whole kept absent (.inl rfl) fun _ empty => absurd empty waiting
  · obtain rfl := Except.ok.inj ran
    exact h

theorem handleClose_wire (h : x.conn.Wire) (ran : handleClose x = .ok x') : x'.conn.Wire := by
  have out := handleClose_outputs h.inv ran
  have called : Call.handleClose.run x = .ok x' := ran
  have once := run_closedOnce (by rintro ⟨⟩) (by rintro ⟨⟩) h.once called
  obtain ⟨live, _⟩ := handleClose_frame ran
  unfold handleClose at ran
  rw [if_pos live] at ran
  obtain ⟨y, toggled, ran⟩ := Lib.bind_ok ran
  obtain rfl := Except.ok.inj ran
  obtain ⟨channel, poller, _, rfl⟩ := toggle_ok toggled
  exact h.of_eq out.inv once rfl (.inr rfl) rfl rfl rfl

theorem handleRead_wire {result : ReadResult} (h : x.conn.Wire) (ran : handleRead x result = .ok x') :
    x'.conn.Wire := by
  unfold handleRead at ran
  split at ran
  · obtain rfl := Except.ok.inj ran
    exact h
  · obtain ⟨⟨n, b⟩, _, ran⟩ := Lib.bind_ok ran
    have read := setInputBuffer_wire h b
    dsimp only at ran
    split at ran
    · obtain rfl := Except.ok.inj ran
      exact read
    · exact handleClose_wire read ran

/-- `connectDestroyed` runs after `handleClose`. -/
theorem connectDestroyed_wire (h : x.conn.Wire) (closed : 0 < x.conn.closeCalls) (ran : connectDestroyed x = .ok x') :
    x'.conn.Wire := by
  have down := h.once.down closed
  rw [connectDestroyed_down (by simp [down])] at ran
  obtain ⟨_, z, removed, rfl⟩ := removal_ok ran
  obtain ⟨empty, _, poller, rfl⟩ := removeChannel_ok removed
  exact h.of_eq (h.inv.of_eq rfl rfl rfl rfl rfl rfl) (h.once.of_eq rfl rfl) rfl (.inl rfl) rfl rfl rfl

end TcpConnection

namespace HttpConnection

variable {s s' : HttpConnection} {label : Label}

/-- No write that a reply starts with reports that the peer is gone. -/
def WritesPass (_ : HttpConnection) : Label → Prop
  | .handleRead _ _ _ r => r.faultError = false
  | _ => True

instance (s : HttpConnection) : (label : Label) → Decidable (s.WritesPass label)
  | .handleRead _ _ _ r => inferInstanceAs (Decidable (r.faultError = false))
  | .poll _ | .visit | .handleClose | .handleWrite _ | .skip | .handled | .connectDestroyed | .others .. =>
    instDecidableTrue

/-- What `onMessage` does to the connection is to take bytes from the input buffer, to send and to shut down. -/
theorem onMessage_keeps {P : TcpConnection → Prop} {t : Timestamp} {httpCallback : HttpCallback} {r : WriteResult}
    (input : ∀ (x : Ctx) b, P x.conn → P (TcpConnection.setInputBuffer x b).conn)
    (send : ∀ (x x' : Ctx) arg, P x.conn → TcpConnection.send x s.threadId arg r = .ok x' → P x'.conn)
    (shutdown : ∀ x x' : Ctx, P x.conn → TcpConnection.shutdown x = .ok x' → P x'.conn)
    (h : P s.ctx.conn) (ran : s.onMessage t httpCallback r = .ok s') : P s'.ctx.conn := by
  obtain ⟨⟨ok, context, buf⟩, parsed, -⟩ := Lib.bind_ok ran
  obtain ⟨middle, replied, ran⟩ := onMessage_parsed (onContext_ok parsed) ran
  have start := input s.ctx buf h
  have refused : P middle.ctx.conn ∧ middle.threadId = s.threadId := by
    split at replied
    · obtain rfl := Except.ok.inj replied
      exact ⟨start, rfl⟩
    · obtain ⟨y, sent, replied⟩ := Lib.bind_ok replied
      obtain ⟨z, ended, replied⟩ := Lib.bind_ok replied
      obtain rfl := Except.ok.inj replied
      exact ⟨shutdown y z (send _ y _ start (onTcp_ok sent)) (onTcp_ok ended), rfl⟩
  split at ran
  · obtain ⟨last, served, ran⟩ := Lib.bind_ok ran
    obtain rfl := Except.ok.inj ran
    unfold onRequest at served
    dsimp only at served
    split at served
    · obtain ⟨y, sent, served⟩ := Lib.bind_ok served
      obtain ⟨z, ended, served⟩ := Lib.bind_ok served
      obtain rfl := Except.ok.inj served
      rw [refused.2] at sent
      have answered := send _ y _ refused.1 (onTcp_ok sent)
      replace ended := onTcp_ok ended
      split at ended
      · exact shutdown y z answered ended
      · obtain rfl := Except.ok.inj ended
        exact answered
    · cases served
  · obtain rfl := Except.ok.inj ran
    exact refused.1

theorem handleRead_wire {result : ReadResult} {t : Timestamp} {httpCallback : HttpCallback} {r : WriteResult}
    (h : s.ctx.conn.Wire) (passes : r.faultError = false) (ran : s.handleRead result t httpCallback r = .ok s') :
    s'.ctx.conn.Wire := by
  obtain ⟨ctx, read, ran⟩ := Lib.bind_ok ran
  have wire := TcpConnection.handleRead_wire (x := { s.ctx with message := false }) h (onTcp_ok read)
  split at ran
  · obtain ⟨last, called, ran⟩ := Lib.bind_ok ran
    have answered := onMessage_keeps (s := { s with ctx := { ctx with message := false } })
      (P := TcpConnection.Wire) (fun _ b wire => TcpConnection.setInputBuffer_wire wire b)
      (fun _ _ _ wire sent => TcpConnection.send_wire wire passes sent)
      (fun _ _ wire ended => TcpConnection.shutdown_wire wire ended) wire called
    obtain rfl := Except.ok.inj ran
    exact answered
  · obtain rfl := Except.ok.inj ran
    exact wire

theorem step_wire (h : s.ctx.conn.Wire) (allowed : s.WritesPass label) (step : s.step label = some (.ok s')) :
    s'.ctx.conn.Wire := by
  cases label with
  | poll | visit | handled =>
    simp only [HttpConnection.step, Option.ite_none_right_eq_some, Option.some.injEq, Except.ok.injEq] at step
    obtain ⟨_, rfl⟩ := step
    exact h.of_eq (h.inv.of_eq rfl rfl rfl rfl rfl rfl) (h.once.of_eq rfl rfl) rfl (.inl rfl) rfl rfl rfl
  | skip =>
    simp only [HttpConnection.step] at step
    split at step
    · simp only [Option.ite_none_right_eq_some, Option.some.injEq, Except.ok.injEq] at step
      obtain ⟨_, rfl⟩ := step
      exact h
    · cases step
  | handleClose =>
    obtain ⟨ctx, ran, same⟩ := Lib.bind_ok (step_handleClose step).2
    obtain rfl := Except.ok.inj same
    exact TcpConnection.handleClose_wire (x := s.ctx) h (onTcp_ok ran)
  | handleRead result t httpCallback r =>
    exact handleRead_wire (s := { s with stage := some .write }) h allowed (step_handleRead step).2
  | handleWrite r =>
    obtain ⟨ctx, ran, same⟩ := Lib.bind_ok (step_handleWrite step).2
    obtain rfl := Except.ok.inj same
    exact TcpConnection.handleWrite_wire (x := s.ctx) h (onTcp_ok ran)
  | connectDestroyed =>
    simp only [HttpConnection.step, Option.ite_none_right_eq_some, Option.some.injEq] at step
    obtain ⟨⟨_, closed⟩, step⟩ := step
    obtain ⟨ctx, ran, same⟩ := Lib.bind_ok step
    obtain rfl := Except.ok.inj same
    exact TcpConnection.connectDestroyed_wire h closed (onTcp_ok ran)
  | others =>
    obtain rfl := Except.ok.inj (Option.some.inj step)
    exact h

theorem initial_wire (init : httpConnection.init s) : s.ctx.conn.Wire := by
  obtain ⟨start, fd, set, fresh, established, _⟩ := init
  have inv : start.conn.Inv := by
    rw [fresh]
    exact (TcpConnection.fresh_inv fd).of_eq rfl rfl rfl rfl rfl rfl
  have out := TcpConnection.connectEstablished_outputs inv established
  obtain ⟨_, frame⟩ := TcpConnection.connectEstablished_frame established
  have socket : s.ctx.conn.socket = [] := by rw [out.socket, fresh]; rfl
  have sends : s.ctx.conn.sends = [] := by
    rw [frame.sends]
    show start.conn.sends = []
    rw [fresh]
  have accepted : s.ctx.conn.accepted = [] := by
    rw [frame.accepted]
    show start.conn.accepted = []
    rw [fresh]
  have once : s.ctx.conn.ClosedOnce := TcpConnection.established_closedOnce (by rw [fresh]) established
  refine ⟨out.inv, once, ?_, ?_, fun member => ?_, fun disconnecting => ?_⟩
  · rw [sends, accepted]
    rfl
  · rw [sends]
    intro r member
    cases member
  · rw [socket] at member
    cases member
  · have connected : s.ctx.conn.state = .kConnected := frame.state
    rw [connected] at disconnecting
    cases disconnecting

theorem reachable_wire (h : httpConnection.Reachable WritesPass s) : s.ctx.conn.Wire :=
  h.invariant (P := fun s => s.ctx.conn.Wire) (fun _ init => initial_wire init) fun _ _ _ _ before allowed step =>
    step_wire before allowed step

theorem wire_delivered {conn : TcpConnection} (h : conn.Wire) :
    conn.delivered = conn.accepted.flatMap fun sent => sent.2.bytes := by
  have all : conn.sends.filter (fun r => !r.dropped) = conn.sends := by
    rw [List.filter_eq_self]
    intro r member
    rw [h.kept r member]
    rfl
  rw [TcpConnection.delivered, all]
  have sent : ∀ records : List SendRecord,
      records.flatMap (fun r => r.message.bytes) = (records.map (·.message)).flatMap Message.bytes := fun records => by
    rw [List.flatMap_map]
  have accepted : ∀ messages : List (Tid × Message),
      messages.flatMap (fun sent => sent.2.bytes) = (messages.map (·.2)).flatMap Message.bytes := fun messages => by
    rw [List.flatMap_map]
  rw [sent, accepted, h.whole]

/-- In a run in which no data is read in a report that has closed the connection, and no write of a reply says
that the peer is gone, what has been written and what is buffered are the replies in order, up to and including the
first that closes. The socket is shut down for writing at most once, with all of them written before it and nothing
after; and it is shut down as soon as there is such a reply and nothing is buffered. -/
theorem responses_on_wire (h : httpConnection.Reachable (fun s label => s.ReadsOpen label ∧ s.WritesPass label) s) :
    s.ctx.conn.sent ++ s.ctx.conn.outputBuffer.readable = (untilClose s.replies).flatMap Reply.bytes ∧
    (∀ before after, s.ctx.conn.socket = before ++ .shutdownWrite :: after →
      after = [] ∧ .shutdownWrite ∉ before ∧
        before.flatMap SocketOp.sent = (untilClose s.replies).flatMap Reply.bytes ∧
        s.ctx.conn.state ≠ .kConnected) ∧
    (s.ctx.conn.state ≠ .kDisconnected → (∃ reply ∈ s.replies, reply.closes = true) →
      s.ctx.conn.outputBuffer.readable = [] → .shutdownWrite ∈ s.ctx.conn.socket) := by
  have wire := reachable_wire (h.mono fun _ _ allowed => allowed.2)
  have replies := reachable_sent (h.mono fun _ _ allowed => allowed.1)
  have stream : s.ctx.conn.sent ++ s.ctx.conn.outputBuffer.readable = (untilClose s.replies).flatMap Reply.bytes := by
    rw [wire.inv.stream, wire_delivered wire, ← replies.bytes]
    rfl
  refine ⟨stream, fun before after split => ?_, fun live closed empty => ?_⟩
  · have member : .shutdownWrite ∈ s.ctx.conn.socket := by
      rw [split]
      exact List.mem_append_right _ List.mem_cons_self
    obtain ⟨down, empty, ops, last, absent⟩ := wire.fin member
    -- the only one is the last
    have same : before = ops ∧ after = [] := by
      rcases List.eq_nil_or_concat after with rfl | ⟨rest, op, rfl⟩
      · rw [last] at split
        exact ⟨(List.append_inj' split rfl).1.symm, rfl⟩
      · rw [last, List.concat_eq_append, ← List.cons_append, ← List.append_assoc] at split
        have inside := (List.append_inj' split rfl).1
        rw [inside] at absent
        exact absurd (List.mem_append_right _ List.mem_cons_self) absent
    obtain ⟨rfl, rfl⟩ := same
    refine ⟨rfl, absent, ?_, down⟩
    rw [empty, List.append_nil, TcpConnection.sent, last, List.flatMap_append] at stream
    simpa [SocketOp.sent] using stream
  · refine wire.shut ?_ empty
    cases state : s.ctx.conn.state with
    | kDisconnecting => rfl
    | kDisconnected => exact absurd state live
    | kConnected =>
      obtain ⟨reply, member, closes⟩ := closed
      rw [replies.connected state reply member] at closes
      cases closes
    | kConnecting => exact absurd state (reachable_inv h).established

/-- The kernel takes ten bytes of the answer to a request that closes, and then the rest. -/
theorem responses_on_wire_backpressure :
    ∃ s, httpConnection.Reachable (fun s label => s.ReadsOpen label ∧ s.WritesPass label) s ∧ s.replies.length = 1 ∧
      s.ctx.conn.socket.map (fun op => op.sent.length) = [10, 24, 0] ∧ .shutdownWrite ∈ s.ctx.conn.socket ∧
      s.ctx.conn.sent ++ s.ctx.conn.outputBuffer.readable = (untilClose s.replies).flatMap Reply.bytes := by
  obtain ⟨s, reached, replies, state, taken, empty⟩ := Lib.Machine.exec_reaches httpConnection
    (fun s label => s.ReadsOpen label ∧ s.WritesPass label) opened
    [.poll POLLIN, .visit, .skip,
      .handleRead (.data (ascii "GET /a HTTP/1.0\r\n\r\n")) 0 (fun _ response => response) (.wrote 10), .skip, .handled,
      .poll POLLOUT, .visit, .skip, .skip, .handleWrite (.wrote 100)]
    (fun s => s.replies.map Reply.closes = [true] ∧ s.ctx.conn.state = .kDisconnecting ∧
      s.ctx.conn.socket.map (fun op => op.sent.length) = [10, 24, 0] ∧ s.ctx.conn.outputBuffer.readable = [])
    opened_init (by decide +kernel)
  obtain ⟨stream, _, shut⟩ := responses_on_wire reached
  obtain ⟨reply, only, closes⟩ : ∃ reply, s.replies = [reply] ∧ reply.closes = true := by
    obtain ⟨reply, rest, eq, closes, none⟩ := List.map_eq_cons_iff.mp replies
    rw [List.map_eq_nil_iff.mp none] at eq
    exact ⟨reply, eq, closes⟩
  refine ⟨s, reached, by rw [only]; rfl, taken, shut (by simp [state]) ⟨reply, ?_, closes⟩ empty, stream⟩
  rw [only]
  exact List.mem_singleton_self _

end HttpConnection

end Dserver.Net
