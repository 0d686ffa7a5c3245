import Dserver.Net.Dispatch
import Dserver.Net.OutputStream

/-!
# The callbacks about the output

`writeCompleteCallback_` and `highWaterMarkCallback_` are queued while bytes go from `send` to the socket. `Outlet` is
what they depend on, of one call (`Ctx.outlet`) and of the whole server (`TcpServer.outlet`).
-/

namespace Dserver.Net

namespace SocketOp

/-- A `write` that takes all of its data. -/
def complete : SocketOp → Bool
  | .write data r => r.succeeded && (r.accepted data).length == data.length
  | .shutdownWrite => false

/-- Whether the last `write` has left bytes to be written, if it was not refused. -/
def unfinished (before : Bool) : SocketOp → Bool
  | .write data r => if r.faultError then before else decide ((r.accepted data).length < data.length)
  | .shutdownWrite => before

end SocketOp

structure Outlet where
  socket : List SocketOp
  buffered : List Byte
  queued : List Functor
  -- `writeCompleteCallback_` and `highWaterMarkCallback_` are set
  complete : Bool
  high : Bool
  mark : Nat

def Ctx.outlet (x : Ctx) : Outlet where
  socket := x.conn.socket
  buffered := x.conn.outputBuffer.readable
  queued := x.queued
  complete := x.conn.writeCompleteCallback
  high := x.conn.highWaterMarkCallback
  mark := x.conn.highWaterMark

def TcpServer.outlet (s : TcpServer) (c : ConnId) : Outlet where
  socket := (s.conn c).socket
  buffered := (s.conn c).outputBuffer.readable
  queued := s.loop.queue.inserted
  complete := (s.conn c).writeCompleteCallback
  high := (s.conn c).highWaterMarkCallback
  mark := (s.conn c).highWaterMark

/-- The system calls `ops` are issued and the functors `new` queued: one write-complete callback for each `write` that
takes all of its data, and a high-water callback if the buffer grows up to the mark. -/
structure Outlet.Reports (c : ConnId) (o o' : Outlet) (ops : List SocketOp) (new : List Functor) : Prop where
  socket : o'.socket = o.socket ++ ops
  queued : o'.queued = o.queued ++ new
  settings : o'.complete = o.complete ∧ o'.high = o.high ∧ o'.mark = o.mark
  complete : new.count (.writeCompleteCallback c) = if o.complete then ops.countP SocketOp.complete else 0
  behind : ops.foldl SocketOp.unfinished (decide (o.buffered ≠ [])) = decide (o'.buffered ≠ [])
  high : o'.buffered.length ≤ o.buffered.length ∨
    (o.high = true → o.mark ≤ o'.buffered.length → .highWaterMarkCallback c o'.buffered.length ∈ new)

/-- What has been reported so far. -/
structure Outlet.Told (c : ConnId) (o : Outlet) : Prop where
  complete : o.queued.count (.writeCompleteCallback c) = if o.complete then o.socket.countP SocketOp.complete else 0
  behind : o.socket.foldl SocketOp.unfinished false = decide (o.buffered ≠ [])

theorem Outlet.Reports.refl (c : ConnId) (o : Outlet) : o.Reports c o [] [] :=
  ⟨(List.append_nil _).symm, (List.append_nil _).symm, ⟨rfl, rfl, rfl⟩, by simp, rfl, .inl (Nat.le_refl _)⟩

/-- Other functors may have been queued before. -/
theorem Outlet.Reports.after {c : ConnId} {o o' : Outlet} {ops : List SocketOp} {first new : List Functor}
    (h : { o with queued := o.queued ++ first }.Reports c o' ops new)
    (none : Functor.writeCompleteCallback c ∉ first) : o.Reports c o' ops (first ++ new) := by
  refine ⟨h.socket, ?_, h.settings, ?_, h.behind, ?_⟩
  · rw [h.queued, List.append_assoc]
  · rw [List.count_append, List.count_eq_zero.mpr none, Nat.zero_add]
    exact h.complete
  · exact h.high.imp_right fun notice set full => List.mem_append_right _ (notice set full)

theorem Outlet.reports_others {c : ConnId} (o : Outlet) {new : List Functor}
    (none : Functor.writeCompleteCallback c ∉ new) : o.Reports c { o with queued := o.queued ++ new } [] new := by
  have quiet := (Outlet.Reports.refl c { o with queued := o.queued ++ new }).after none
  rwa [List.append_nil] at quiet

/-- The same step with another queue before it. -/
theorem Outlet.Reports.on_queue {c : ConnId} {o o' : Outlet} {ops : List SocketOp} {new : List Functor}
    (h : o.Reports c o' ops new) (queue : List Functor) :
    { o with queued := queue }.Reports c { o' with queued := queue ++ new } ops new :=
  ⟨h.socket, rfl, h.settings, h.complete, h.behind, h.high⟩

theorem Outlet.Reports.trans {c : ConnId} {o o' o'' : Outlet} {ops ops' : List SocketOp} {new new' : List Functor}
    (first : o.Reports c o' ops new) (second : o'.Reports c o'' ops' new') (same : o''.buffered = o'.buffered) :
    o.Reports c o'' (ops ++ ops') (new ++ new') := by
  obtain ⟨complete, high, mark⟩ := first.settings
  refine ⟨?_, ?_, ?_, ?_, ?_, ?_⟩
  · rw [second.socket, first.socket, List.append_assoc]
  · rw [second.queued, first.queued, List.append_assoc]
  · exact ⟨second.settings.1.trans complete, second.settings.2.1.trans high, second.settings.2.2.trans mark⟩
  · rw [List.count_append, first.complete, second.complete, complete, List.countP_append]
    split
    · rfl
    · rfl
  · rw [List.foldl_append, first.behind, second.behind]
  · rw [same]
    exact first.high.imp_right fun notice set full => List.mem_append_left _ (notice set full)

/-- A `write` of the buffer that takes some of it, or nothing. -/
theorem Outlet.reports_partial (c : ConnId) (o : Outlet) {r : WriteResult} {rest : List Byte} (more : rest ≠ [])
    (less : rest.length ≤ o.buffered.length) (short : (r.accepted o.buffered).length < o.buffered.length) :
    o.Reports c { o with socket := o.socket ++ [.write o.buffered r], buffered := rest } [.write o.buffered r] [] := by
  have incomplete : SocketOp.complete (.write o.buffered r) = false := by
    simp only [SocketOp.complete, Bool.and_eq_false_iff, beq_eq_false_iff_ne]
    exact .inr (Nat.ne_of_lt short)
  have nonempty : o.buffered ≠ [] := List.length_pos_iff.mp (by omega)
  refine ⟨rfl, (List.append_nil _).symm, ⟨rfl, rfl, rfl⟩, by simp [incomplete], ?_, .inl less⟩
  simp only [List.foldl_cons, List.foldl_nil, SocketOp.unfinished, decide_eq_true nonempty, decide_eq_true short,
    decide_eq_true more, ite_self]

/-- A `write` that takes all of the buffer. -/
theorem Outlet.reports_complete (c : ConnId) (o : Outlet) {r : WriteResult} {rest : List Byte} (empty : rest = [])
    (succeeded : r.succeeded = true) (clean : r.faultError = false)
    (all : (r.accepted o.buffered).length = o.buffered.length) :
    o.Reports c { o with
        socket := o.socket ++ [.write o.buffered r], buffered := rest
        queued := o.queued ++ if o.complete then [.writeCompleteCallback c] else [] }
      [.write o.buffered r] (if o.complete then [.writeCompleteCallback c] else []) := by
  have complete : SocketOp.complete (.write o.buffered r) = true := by
    rw [SocketOp.complete, succeeded, Bool.true_and, beq_iff_eq]
    exact all
  refine ⟨rfl, rfl, ⟨rfl, rfl, rfl⟩, ?_, ?_, ?_⟩
  · split
    · simp [complete]
    · rfl
  · simp only [List.foldl_cons, List.foldl_nil, SocketOp.unfinished, clean, all, empty]
    simp
  · left
    simp [empty]

namespace TcpConnection

variable {x x' : Ctx} {call : Call}

/-! ### One call -/

theorem toggle_outlet {op : Poller → ChannelId → Channel → Except Poller.Fault (Channel × Poller)}
    (h : toggle x op = .ok x') : x'.outlet = x.outlet := by
  obtain ⟨channel, poller, _, rfl⟩ := toggle_ok h
  rfl

theorem handleClose_outlet (h : handleClose x = .ok x') : x'.outlet = x.outlet := by
  unfold handleClose at h
  split at h
  · obtain ⟨y, toggled, h⟩ := Lib.bind_ok h
    obtain rfl := Except.ok.inj h
    have same := toggle_outlet toggled
    exact same
  · cases h

theorem handleRead_outlet {r : ReadResult} (h : handleRead x r = .ok x') : x'.outlet = x.outlet := by
  unfold handleRead at h
  split at h
  · obtain rfl := Except.ok.inj h
    rfl
  · obtain ⟨⟨n, b⟩, _, h⟩ := Lib.bind_ok h
    dsimp only at h
    split at h
    · obtain rfl := Except.ok.inj h
      rfl
    · have same := handleClose_outlet h
      exact same

theorem connectEstablished_outlet (h : connectEstablished x = .ok x') : x'.outlet = x.outlet := by
  unfold connectEstablished at h
  split at h
  · obtain ⟨y, toggled, h⟩ := Lib.bind_ok h
    obtain rfl := Except.ok.inj h
    have same := toggle_outlet toggled
    exact same
  · cases h

theorem connectDestroyed_outlet (down : x.conn.state ≠ .kConnected) (h : connectDestroyed x = .ok x') :
    x'.outlet = x.outlet := by
  rw [connectDestroyed_down down] at h
  obtain ⟨_, z, removed, rfl⟩ := removal_ok h
  obtain ⟨_, _, poller, rfl⟩ := removeChannel_ok removed
  rfl

theorem startReadInLoop_outlet (h : startReadInLoop x = .ok x') : x'.outlet = x.outlet := by
  unfold startReadInLoop at h
  split at h
  · obtain ⟨y, toggled, h⟩ := Lib.bind_ok h
    obtain rfl := Except.ok.inj h
    have same := toggle_outlet toggled
    exact same
  · obtain rfl := Except.ok.inj h
    rfl

theorem stopReadInLoop_outlet (h : stopReadInLoop x = .ok x') : x'.outlet = x.outlet := by
  unfold stopReadInLoop at h
  split at h
  · obtain ⟨y, toggled, h⟩ := Lib.bind_ok h
    obtain rfl := Except.ok.inj h
    have same := toggle_outlet toggled
    exact same
  · obtain rfl := Except.ok.inj h
    rfl

theorem reports_of_eq (same : x'.outlet = x.outlet) : x.outlet.Reports x.id x'.outlet [] [] := by
  rw [same]
  exact .refl _ _

theorem shutdownInLoop_reports (h : shutdownInLoop x = .ok x') :
    x'.outlet.buffered = x.outlet.buffered ∧ ∃ ops, x.outlet.Reports x.id x'.outlet ops [] := by
  unfold shutdownInLoop at h
  split at h
  · obtain rfl := Except.ok.inj h
    exact ⟨rfl, [], .refl _ _⟩
  · obtain rfl := Except.ok.inj h
    refine ⟨rfl, [.shutdownWrite], rfl, (List.append_nil _).symm, ⟨rfl, rfl, rfl⟩, ?_, rfl, .inl (Nat.le_refl _)⟩
    simp [SocketOp.complete]

theorem appendOutput_outlet {rest : List Byte} (wf : x.conn.outputBuffer.Wf) (small : rest.length ≤ maxSize)
    (h : appendOutput x rest = .ok x') :
    ∃ new, x'.outlet = { x.outlet with
        buffered := x.outlet.buffered ++ rest, queued := x.outlet.queued ++ new } ∧
      (∀ c, Functor.writeCompleteCallback c ∉ new) ∧
      (x.outlet.high = true → x.outlet.mark ≤ (x.outlet.buffered ++ rest).length →
        .highWaterMarkCallback x.id (x.outlet.buffered ++ rest).length ∈ new) := by
  obtain ⟨wf', bytes, _⟩ := appendOutput_spec wf small h
  -- the sum has not wrapped around: the bytes are in the buffer
  have size : addSize x.conn.outputBuffer.readableBytes rest.length = (x.outlet.buffered ++ rest).length := by
    have fits := wf'.readable_fits
    rw [bytes, List.length_append, wf.length_readable] at fits
    rw [addSize_eq (Nat.lt_of_le_of_lt fits (by decide)), List.length_append, Ctx.outlet, wf.length_readable]
  obtain ⟨b, _, ended⟩ := fillOutput_ok h
  have filled : x'.outlet = { (notifyHighWaterMark x rest.length).outlet with
      buffered := x'.conn.outputBuffer.readable } := by
    rcases ended with ⟨_, rfl⟩ | ⟨_, toggled⟩
    · rfl
    · obtain ⟨channel, poller, _, rfl⟩ := toggle_ok toggled
      rfl
  rw [filled, bytes]
  refine ⟨_, rfl, ?_, ?_⟩
  · intro c member
    split at member
    · simp at member
    · cases member
  · intro set full
    have due : (decide (x.conn.highWaterMark ≤ addSize x.conn.outputBuffer.readableBytes rest.length) &&
        x.conn.highWaterMarkCallback) = true := by
      rw [size, Bool.and_eq_true, decide_eq_true_eq]
      exact ⟨full, set⟩
    rw [if_pos due, size]
    exact List.mem_singleton_self _

theorem accepted_le (r : WriteResult) (data : List Byte) : (r.accepted data).length ≤ data.length := by
  have total := congrArg List.length (accepted_append_drop r data)
  rw [List.length_append] at total
  omega

/-- The direct write of `sendInLoop`, after which `y` is to buffer what is left. -/
theorem direct_reports {sender : Tid} {message : Message} {r : WriteResult} {y : Ctx} (wf : x.conn.outputBuffer.Wf)
    (empty : x.conn.outputBuffer.readable = [])
    (before : y = queueIf (syscall (record x ⟨sender, message, .direct r⟩) (.write message.bytes r))
      (r.succeeded && message.bytes.length - (r.accepted message.bytes).length == 0 && x.conn.writeCompleteCallback)
      (.writeCompleteCallback x.id))
    (after : (if r.faultError = false ∧ 0 < message.bytes.length - (r.accepted message.bytes).length then
      appendOutput y (message.bytes.drop (r.accepted message.bytes).length) else .ok y) = .ok x') :
    ∃ new, x.outlet.Reports x.id x'.outlet [.write message.bytes r] new := by
  have none : x.outlet.buffered = [] := empty
  have taken := accepted_le r message.bytes
  split at after
  · rename_i more
    obtain ⟨clean, left⟩ := more
    have short : (r.accepted message.bytes).length < message.bytes.length := by omega
    have same : y.outlet = { x.outlet with socket := x.outlet.socket ++ [.write message.bytes r] } := by
      have late : (message.bytes.length - (r.accepted message.bytes).length == 0) = false :=
        beq_eq_false_iff_ne.mpr (by omega)
      rw [before, late, Bool.and_false, Bool.false_and]
      simp only [Ctx.outlet, queueIf, syscall, record, Bool.false_eq_true, if_false, List.append_nil]
    have fits : (message.bytes.drop (r.accepted message.bytes).length).length ≤ maxSize := by
      rw [List.length_drop]
      exact Nat.le_trans (Nat.sub_le _ _) message.fits
    have bufferWf : y.conn.outputBuffer.Wf := by
      rw [before]
      exact wf
    obtain ⟨new, filled, quiet, notice⟩ := appendOutput_outlet bufferWf fits after
    have id : y.id = x.id := by
      rw [before]
      rfl
    rw [same, id] at notice
    rw [same] at filled
    rw [filled]
    refine ⟨new, rfl, rfl, ⟨rfl, rfl, rfl⟩, ?_, ?_, .inr notice⟩
    · rw [List.count_eq_zero.mpr (quiet x.id)]
      have incomplete : SocketOp.complete (.write message.bytes r) = false := by
        simp only [SocketOp.complete, Bool.and_eq_false_iff, beq_eq_false_iff_ne]
        exact .inr (Nat.ne_of_lt short)
      simp [incomplete]
    · have rest : x.outlet.buffered ++ message.bytes.drop (r.accepted message.bytes).length ≠ [] := by
        intro nil
        have length := congrArg List.length (List.append_eq_nil_iff.mp nil).2
        rw [List.length_drop, List.length_nil] at length
        omega
      simp only [List.foldl_cons, List.foldl_nil, SocketOp.unfinished, clean, Bool.false_eq_true, if_false]
      rw [decide_eq_true short, decide_eq_true rest]
  · rename_i done
    obtain rfl := Except.ok.inj after
    rw [before]
    refine ⟨_, rfl, rfl, ⟨rfl, rfl, rfl⟩, ?_, ?_, .inl (Nat.le_refl _)⟩
    · have whole : (message.bytes.length - (r.accepted message.bytes).length == 0) =
          ((r.accepted message.bytes).length == message.bytes.length) := by
        rw [Bool.eq_iff_iff, beq_iff_eq, beq_iff_eq]
        omega
      rw [whole]
      change _ = if x.conn.writeCompleteCallback then _ else _
      cases x.conn.writeCompleteCallback with
      | false => simp
      | true =>
        cases all : r.succeeded && (r.accepted message.bytes).length == message.bytes.length <;>
          simp [SocketOp.complete, all]
    · change (if r.faultError then decide (x.outlet.buffered ≠ []) else _) = decide (x.outlet.buffered ≠ [])
      split
      · rfl
      · rename_i clean
        have all : ¬(r.accepted message.bytes).length < message.bytes.length :=
          fun short => done ⟨Bool.eq_false_iff.mpr clean, by omega⟩
        rw [none, decide_eq_false all]
        rfl

theorem sendInLoop_reports {sender : Tid} {message : Message} {r : WriteResult} (h : x.conn.Inv)
    (ran : sendInLoop x sender message r = .ok x') : ∃ ops new, x.outlet.Reports x.id x'.outlet ops new := by
  unfold sendInLoop at ran
  split at ran
  · obtain rfl := Except.ok.inj ran
    exact ⟨[], [], .refl _ _⟩
  · split at ran
    · rename_i direct
      obtain ⟨new, reports⟩ := direct_reports h.wf (h.wf.readable_eq_nil.mpr direct.2) rfl ran
      exact ⟨_, new, reports⟩
    · rename_i busy
      have nonempty : x.outlet.buffered ≠ [] := by
        intro empty
        exact busy ⟨Bool.eq_false_iff.mpr fun on => h.waiting on empty, h.wf.readable_eq_nil.mp empty⟩
      dsimp only at ran
      split at ran
      · have wf : (record x ⟨sender, message, .buffered⟩).conn.outputBuffer.Wf := h.wf
        obtain ⟨new, filled, quiet, notice⟩ := appendOutput_outlet wf message.fits ran
        rw [filled]
        refine ⟨[], new, (List.append_nil _).symm, rfl, ⟨rfl, rfl, rfl⟩, ?_, ?_, .inr notice⟩
        · rw [List.count_eq_zero.mpr (quiet x.id)]
          simp
        · have rest : x.outlet.buffered ++ message.bytes ≠ [] :=
            fun nil => nonempty (List.append_eq_nil_iff.mp nil).1
          exact (decide_eq_true nonempty).trans (decide_eq_true rest).symm
      · obtain rfl := Except.ok.inj ran
        exact ⟨[], [], .refl _ _⟩

/-- After the last byte of a connection that is disconnecting, the socket is shut down. -/
theorem drained_reports (ran : (if x.conn.state = .kDisconnecting then shutdownInLoop x else .ok x) = .ok x') :
    x'.outlet.buffered = x.outlet.buffered ∧ ∃ ops, x.outlet.Reports x.id x'.outlet ops [] := by
  split at ran
  · exact shutdownInLoop_reports ran
  · obtain rfl := Except.ok.inj ran
    exact ⟨rfl, [], .refl _ _⟩

theorem handleWrite_reports {r : WriteResult} (h : x.conn.Inv) (ran : handleWrite x r = .ok x') :
    ∃ ops new, x.outlet.Reports x.id x'.outlet ops new := by
  unfold handleWrite at ran
  split at ran
  · rename_i on
    have nonempty : x.outlet.buffered ≠ [] := h.waiting on
    have taken := accepted_le r x.conn.outputBuffer.readable
    obtain ⟨b', retrieved, wf, rest⟩ := Buffer.retrieve_spec h.wf taken
    have length := congrArg List.length rest
    rw [List.length_drop] at length
    dsimp only at ran
    split at ran
    · rename_i positive
      obtain ⟨b, done, ran⟩ := Lib.bind_ok ran
      rw [show b = b' from Except.ok.inj ((onBuffer_ok done).symm.trans retrieved)] at ran
      split at ran
      · rename_i zero
        have nil : b'.readable = [] := wf.readable_eq_nil.mpr zero
        rw [nil, List.length_nil] at length
        obtain ⟨y, toggled, ran⟩ := Lib.bind_ok ran
        obtain ⟨channel, poller, _, rfl⟩ := toggle_ok toggled
        obtain ⟨same, ops, last⟩ := drained_reports ran
        have all : (r.accepted x.conn.outputBuffer.readable).length = x.conn.outputBuffer.readable.length := by omega
        have succeeded : r.succeeded = true ∧ r.faultError = false := by
          cases r with
          | wrote n => exact ⟨rfl, rfl⟩
          | failed errno => exact absurd positive (Nat.lt_irrefl 0)
        exact ⟨_, _, (Outlet.reports_complete x.id x.outlet nil succeeded.1 succeeded.2 all).trans last same⟩
      · rename_i more
        obtain rfl := Except.ok.inj ran
        have left : b'.readable ≠ [] := fun nil => more (wf.readable_eq_nil.mp nil)
        have some_ := List.length_pos_iff.mpr left
        refine ⟨_, _, Outlet.reports_partial x.id x.outlet left ?_ ?_⟩
        · change b'.readable.length ≤ x.conn.outputBuffer.readable.length
          omega
        · change (r.accepted x.conn.outputBuffer.readable).length < x.conn.outputBuffer.readable.length
          omega
    · rename_i none
      obtain rfl := Except.ok.inj ran
      have some_ := List.length_pos_iff.mpr nonempty
      refine ⟨_, _, Outlet.reports_partial x.id x.outlet nonempty (Nat.le_refl _) ?_⟩
      exact Nat.lt_of_le_of_lt (Nat.le_of_not_lt none) some_
  · obtain rfl := Except.ok.inj ran
    exact ⟨[], [], .refl _ _⟩

theorem run_reports (h : x.conn.Inv) (down : call = .connectDestroyed → x.conn.state ≠ .kConnected)
    (ran : call.run x = .ok x') :
    (∃ set mark, call = .setHighWaterMarkCallback set mark ∧ x'.outlet = { x.outlet with high := set, mark }) ∨
    ∃ ops new, x.outlet.Reports x.id x'.outlet ops new := by
  cases call with
  | setHighWaterMarkCallback set mark =>
    obtain rfl := Except.ok.inj ran
    exact .inl ⟨set, mark, rfl, rfl⟩
  | connectEstablished => exact .inr ⟨[], [], reports_of_eq (connectEstablished_outlet ran)⟩
  | connectDestroyed => exact .inr ⟨[], [], reports_of_eq (connectDestroyed_outlet (down rfl) ran)⟩
  | send sender arg r =>
    right
    change send x sender arg r = .ok x' at ran
    unfold send at ran
    split at ran
    · have inv : (accept x sender arg.message).conn.Inv := h.of_eq rfl rfl rfl rfl rfl rfl
      have reports := sendInLoop_reports inv ran
      exact reports
    · obtain rfl := Except.ok.inj ran
      exact ⟨[], [], .refl _ _⟩
  | sendInLoop sender message r => exact .inr (sendInLoop_reports h ran)
  | shutdown =>
    right
    change shutdown x = .ok x' at ran
    unfold shutdown at ran
    split at ran
    · obtain ⟨_, ops, reports⟩ := shutdownInLoop_reports ran
      exact ⟨ops, [], reports⟩
    · obtain rfl := Except.ok.inj ran
      exact ⟨[], [], .refl _ _⟩
  | shutdownInLoop =>
    obtain ⟨_, ops, reports⟩ := shutdownInLoop_reports ran
    exact .inr ⟨ops, [], reports⟩
  | startReadInLoop => exact .inr ⟨[], [], reports_of_eq (startReadInLoop_outlet ran)⟩
  | stopReadInLoop => exact .inr ⟨[], [], reports_of_eq (stopReadInLoop_outlet ran)⟩
  | retrieveInput len =>
    obtain ⟨b, _, ran⟩ := Lib.bind_ok ran
    obtain rfl := Except.ok.inj ran
    exact .inr ⟨[], [], .refl _ _⟩
  | handleClose => exact .inr ⟨[], [], reports_of_eq (handleClose_outlet ran)⟩
  | handleRead r => exact .inr ⟨[], [], reports_of_eq (handleRead_outlet ran)⟩
  | handleWrite r => exact .inr (handleWrite_reports h ran)

end TcpConnection

namespace TcpServer

variable {s s₁ s' t : TcpServer} {label : Label} {taken : List Functor} {c : ConnId}

/-! ### One step -/

theorem outlet_of_conn {new : List Functor} (conn : s₁.conn c = s.conn c)
    (inserted : s₁.loop.queue.inserted = s.loop.queue.inserted ++ new) :
    s₁.outlet c = { s.outlet c with queued := (s.outlet c).queued ++ new } := by
  rw [outlet, conn, inserted]
  rfl

theorem control_outlet (h : s.Inv []) (control : Control s s₁ label taken) (c : ConnId) :
    ∃ new, s₁.outlet c = { s.outlet c with queued := (s.outlet c).queued ++ new } ∧
      Functor.writeCompleteCallback c ∉ new := by
  have nothing : Functor.writeCompleteCallback c ∉ ([] : List Functor) := List.not_mem_nil
  cases control with
  | quiet keeps _ _ _ inserted _ =>
    obtain ⟨_, _, same⟩ := keeps.conn c
    refine ⟨[], ?_, nothing⟩
    rw [outlet, same, inserted, List.append_nil]
    rfl
  | queued loop pushed rest =>
    subst rest
    exact ⟨_, outlet_of_conn rfl pushed.inserted, by simp⟩
  | called t d op _ _ _ rest =>
    subst rest
    refine ⟨[], ?_, nothing⟩
    rw [List.append_nil]
    by_cases same : c = d
    · subst same
      rw [outlet, enterCall_self]
      cases op <;> rfl
    · rw [outlet, enterCall_other same]
      rfl
  | stored t d found rest =>
    subst rest
    refine ⟨[], ?_, nothing⟩
    rw [List.append_nil]
    by_cases same : c = d
    · subst same
      rw [outlet, setState_self]
      rfl
    · rw [outlet, setState_other same]
      rfl
  | tested _ _ _ _ _ rest | calledTask _ _ rest =>
    subst rest
    exact ⟨[], outlet_of_conn rfl (List.append_nil _).symm, nothing⟩
  | pushed t cb found rest =>
    subst rest
    refine ⟨_, outlet_of_conn rfl (pushCall_pushed s t cb).inserted, ?_⟩
    intro member
    obtain rfl := List.mem_singleton.mp member
    cases h.calling _ (mem_of_lookup found)
  | removed d loop base _ pushed rest =>
    subst rest
    exact ⟨_, outlet_of_conn rfl pushed.inserted, by simp⟩
  | freed _ d _ _ _ _ rest =>
    subst rest
    exact ⟨[], outlet_of_conn rfl (List.append_nil _).symm, nothing⟩

/-- The user sets the high-water callback of the connection. -/
def setsMark (c : ConnId) : Label → Bool
  | .own d (.setHighWaterMarkCallback _ _) => d == c
  | _ => false

/-- What a step does to the outlet of a connection: it makes the connection, or lets the user change its high-water
mark, or reports what it writes. -/
inductive OutletStep (s s' : TcpServer) (label : Label) (c : ConnId) : Prop where
  | born (fresh : c ∉ s.created) (set : Bool)
      (result : s'.outlet c = ⟨[], [], (s.outlet c).queued, set, false, 64 * 1024 * 1024⟩)
  | set (high : Bool) (mark : Nat) (new : List Functor) (sets : setsMark c label = true) (created : c ∈ s.created)
      (none : Functor.writeCompleteCallback c ∉ new)
      (result : s'.outlet c = { s.outlet c with queued := (s.outlet c).queued ++ new, high, mark })
  | reports (ops : List SocketOp) (new : List Functor) (old : c ∈ s.created ∨ ops = [])
      (reports : (s.outlet c).Reports c (s'.outlet c) ops new)

theorem callOf_setsMark {high : Bool} {mark : Nat}
    (made : s.callOf label = some (c, .setHighWaterMarkCallback high mark)) : setsMark c label = true := by
  cases label with
  | own d call =>
    obtain ⟨rfl, rfl⟩ := Prod.mk.inj (Option.some.inj made)
    exact beq_self_eq_true _
  | functor r =>
    simp only [callOf] at made
    split at made
    · rename_i cb _ _
      cases cb <;> cases made
    · cases made
  | accept d fd => cases made
  | hangup | readable | writable =>
    simp only [callOf] at made
    split at made
    · split at made
      · cases made
      · cases made
    · cases made
  | _ => cases made

theorem Origin.callOf_eq {made : ConnId × TcpConnection.Call} (h : Origin s label taken (some made)) :
    s.callOf label = some made := by
  generalize found : some made = call at h
  cases h with
  | silent => cases found
  | direct _ _ _ _ called => exact called
  | functor cb r _ called => exact called

theorem commit_outlet_self (loops : s.Loops) (c : ConnId) (x : Ctx) :
    (s.commit c x).outlet c = { x.outlet with queued := (s.outlet c).queued ++ x.queued } := by
  rw [outlet, commit_self, (commit_loops loops c x).2.1.inserted]
  rfl

theorem commit_outlet_other (loops : s.Loops) {d : ConnId} (different : c ≠ d) (x : Ctx) :
    (s.commit d x).outlet c = { s.outlet c with queued := (s.outlet c).queued ++ x.queued } :=
  outlet_of_conn (commit_other different x) (commit_loops loops d x).2.1.inserted

theorem step_outlet (loops : s.Loops) (h : s.Inv []) (step : s.step label = some (.ok s')) (c : ConnId) :
    OutletStep s s' label c := by
  rcases step_cases loops step with ⟨d, fd, x, _, born⟩ | ⟨s₁, taken, made, moved⟩
  · have loops₁ : (s.newConnection d fd).Loops := ⟨loops.loop, loops.base, loops.threads⟩
    have established := TcpConnection.connectEstablished_outlet born.ran
    have none : x.queued = [] := congrArg Outlet.queued established
    rw [born.result]
    by_cases same : c = d
    · subst same
      refine .born born.fresh s.writeCompleteCallback ?_
      rw [commit_outlet_self loops₁, none, established, List.append_nil]
      simp only [Ctx.outlet, ctx, newConnection_self]
      rfl
    · refine .reports [] [] (.inr rfl) ?_
      rw [commit_outlet_other loops₁ same, none]
      simp only [outlet, newConnection_other same]
      exact Outlet.reports_others (s.outlet c) List.not_mem_nil
  · have inv := control_inv h moved.control
    obtain ⟨first, before, none⟩ := control_outlet h moved.control c
    rcases moved.ended with ⟨rfl, rfl⟩ | ⟨d, call, x, rfl, member, ran, rfl⟩
    · refine .reports [] first (.inr rfl) ?_
      rw [before]
      exact Outlet.reports_others _ none
    · have connected := inv.connected member moved.origin.made
      have created := inv.registered.subset member
      by_cases same : c = d
      · subst same
        have old : c ∈ s.created := moved.control.created ▸ created
        rcases TcpConnection.run_reports (inv.output c created) connected ran with
          ⟨high, mark, rfl, result⟩ | ⟨ops, new, reports⟩
        · refine .set high mark first (callOf_setsMark moved.origin.callOf_eq) old none ?_
          have queued : x.queued = [] := congrArg Outlet.queued result
          rw [commit_outlet_self moved.loops, result, queued, List.append_nil]
          have same : (s₁.ctx c).outlet = { s₁.outlet c with queued := [] } := rfl
          rw [same, before]
        · refine .reports ops (first ++ new) (.inl old) (Outlet.Reports.after ?_ none)
          rw [← before, commit_outlet_self moved.loops]
          have queued : x.queued = new := reports.queued
          rw [queued]
          exact reports.on_queue (s₁.outlet c).queued
      · obtain ⟨new, queued, callbacks⟩ := (TcpConnection.effect_local (TcpConnection.run_effect ran) connected).queued
        refine .reports [] (first ++ x.queued) (.inr rfl) (Outlet.Reports.after ?_ none)
        rw [← before, commit_outlet_other moved.loops same]
        refine Outlet.reports_others _ ?_
        rw [queued]
        exact callbacks_other callbacks same

theorem step_created (loops : s.Loops) (step : s.step label = some (.ok s')) : s.created ⊆ s'.created := by
  rcases step_cases loops step with ⟨d, fd, x, _, born⟩ | ⟨s₁, taken, made, moved⟩
  · rw [born.result]
    exact Finset.subset_insert d s.created
  · have same := moved.control.created
    rcases moved.ended with ⟨_, rfl⟩ | ⟨d, call, x, _, _, _, rfl⟩
    · exact same.symm.subset
    · exact same.symm.subset

/-! ### Runs -/

theorem step_told (loops : s.Loops) (h : s.Inv []) (step : s.step label = some (.ok s')) (c : ConnId)
    (told : (s.outlet c).Told c) (fresh : c ∉ s.created → (s.outlet c).socket = []) :
    (s'.outlet c).Told c ∧ (c ∉ s'.created → (s'.outlet c).socket = []) := by
  have grown := step_created loops step
  cases step_outlet loops h step c with
  | born new set result =>
    have none := told.complete
    rw [fresh new, List.countP_nil, ite_self] at none
    rw [result]
    refine ⟨⟨?_, rfl⟩, fun _ => rfl⟩
    rw [none, List.countP_nil, ite_self]
  | set high mark new _ created none result =>
    rw [result]
    refine ⟨⟨?_, told.behind⟩, fun absent => absurd (grown created) absent⟩
    rw [List.count_append, List.count_eq_zero.mpr none]
    exact told.complete
  | reports ops new old reports =>
    refine ⟨⟨?_, ?_⟩, fun absent => ?_⟩
    · rw [reports.queued, reports.socket, reports.settings.1, List.count_append, told.complete, reports.complete,
        List.countP_append]
      split
      · rfl
      · rfl
    · rw [reports.socket, List.foldl_append, told.behind, reports.behind]
    · rcases old with created | nothing
      · exact absurd (grown created) absent
      · rw [reports.socket, nothing, fresh fun created => absent (grown created), List.append_nil]

theorem reachable_told {guard : TcpServer → Label → Prop} (h : tcpServer.Reachable guard s) (c : ConnId) :
    (s.outlet c).Told c := by
  have both := h.invariant (P := fun a => (a.outlet c).Told c ∧ (c ∉ a.created → (a.outlet c).socket = [])) ?_ ?_
  · exact both.1
  · rintro a ⟨threadId, baseId, set, _, rfl⟩
    exact ⟨⟨rfl, rfl⟩, fun _ => rfl⟩
  · intro a label b reached before _ step
    exact step_told (reachable_loops reached) (reachable_inv reached) step c before.1 before.2

/-- The high-water callback of the connection stays as it is. -/
def KeepsMark (c : ConnId) (_ : TcpServer) (label : Label) : Prop := setsMark c label = false

instance (c : ConnId) (s : TcpServer) (label : Label) : Decidable (KeepsMark c s label) :=
  inferInstanceAs (Decidable (setsMark c label = false))

/-- The output grows up to the mark only with a notice that says how far. -/
theorem steps_high (h : tcpServer.Reachable Lib.Machine.anyStep s) (created : c ∈ s.created)
    (set : (s.outlet c).high = true) (low : (s.outlet c).buffered.length < (s.outlet c).mark)
    (run : tcpServer.Steps (KeepsMark c) s t) :
    tcpServer.Reachable Lib.Machine.anyStep t ∧ c ∈ t.created ∧ (t.outlet c).high = true ∧
      (t.outlet c).mark = (s.outlet c).mark ∧ ∃ new, (t.outlet c).queued = (s.outlet c).queued ++ new ∧
        ((s.outlet c).mark ≤ (t.outlet c).buffered.length →
          ∃ size, (t.outlet c).buffered.length ≤ size ∧ .highWaterMarkCallback c size ∈ new) := by
  induction run with
  | refl => exact ⟨h, created, set, rfl, [], (List.append_nil _).symm, fun full => absurd low (Nat.not_lt.mpr full)⟩
  | @tail a b _ next ih =>
    obtain ⟨reached, here, high, mark, new, queued, notice⟩ := ih
    obtain ⟨label, keeps, step⟩ := next
    have loops := reachable_loops reached
    refine ⟨reached.next trivial step, step_created loops step here, ?_⟩
    cases step_outlet loops (reachable_inv reached) step c with
    | born absent => exact absurd here absent
    | set _ _ _ sets =>
      rw [KeepsMark, sets] at keeps
      cases keeps
    | reports ops more _ reports =>
      obtain ⟨_, sameHigh, sameMark⟩ := reports.settings
      refine ⟨sameHigh.trans high, sameMark.trans mark, new ++ more, ?_, fun full => ?_⟩
      · rw [reports.queued, queued, List.append_assoc]
      · rcases reports.high with less | grown
        · obtain ⟨size, enough, member⟩ := notice (Nat.le_trans full less)
          exact ⟨size, Nat.le_trans less enough, List.mem_append_left _ member⟩
        · exact ⟨_, Nat.le_refl _, List.mem_append_right _ (grown high (mark.symm ▸ full))⟩

/-- In every run: the write-complete callbacks of a connection that have run or are queued are as many as its writes
that took all of their data; bytes are buffered exactly if the last write that was not refused has left some; and
from below its high-water mark the output gets to the mark only with a high-water callback that gives at least its
size. -/
theorem progress_reported (h : tcpServer.Reachable Lib.Machine.anyStep s) (created : c ∈ s.created) :
    s.loop.queue.ran.count (.writeCompleteCallback c) + s.todo.count (.writeCompleteCallback c) =
      (if (s.conn c).writeCompleteCallback then (s.conn c).socket.countP SocketOp.complete else 0) ∧
    ((s.conn c).outputBuffer.readable ≠ [] ↔ (s.conn c).socket.foldl SocketOp.unfinished false = true) ∧
    ((s.conn c).highWaterMarkCallback = true → (s.conn c).outputBuffer.readable.length < (s.conn c).highWaterMark →
      ∀ t, tcpServer.Steps (KeepsMark c) s t → (s.conn c).highWaterMark ≤ (t.conn c).outputBuffer.readable.length →
        ∃ new size, t.loop.queue.inserted = s.loop.queue.inserted ++ new ∧
          (t.conn c).outputBuffer.readable.length ≤ size ∧ .highWaterMarkCallback c size ∈ new) := by
  have told := reachable_told h c
  refine ⟨?_, ?_, ?_⟩
  · have conserved : s.loop.queue.ran ++ s.todo = s.loop.queue.inserted := by
      rw [todo, Lib.BatchQueue.waiting, ← List.append_assoc]
      exact (reachable_loops h).loop.conserved
    rw [← List.count_append, conserved]
    exact told.complete
  · have behind := told.behind
    rw [Bool.eq_iff_iff, decide_eq_true_eq] at behind
    exact behind.symm
  · intro set low t run full
    obtain ⟨_, _, _, _, new, queued, notice⟩ := steps_high h created set low run
    obtain ⟨size, enough, member⟩ := notice full
    exact ⟨new, size, queued, enough, member⟩

/-- The mark is two bytes; the kernel takes one byte of three, and later the other two. -/
theorem progress_reported_backpressure : ∃ t u : TcpServer,
    ((t.conn 7).outputBuffer.readable = [11, 12] ∧
      ∃ size, 2 ≤ size ∧ .highWaterMarkCallback 7 size ∈ t.loop.queue.inserted) ∧
    (u.conn 7).outputBuffer.readable = [] ∧
      u.loop.queue.ran.count (.writeCompleteCallback 7) + u.todo.count (.writeCompleteCallback 7) = 1 := by
  let send : List Label :=
    [.own 7 (.send 1 (.string ⟨[10, 11, 12], Nat.le_of_ble_eq_true rfl⟩) (.wrote 1))]
  let drain : List Label := [.userReturn, .doPendingFunctors, .functor (.wrote 0), .userReturn, .functorsDone, .check,
    .poll [(.connection 7, POLLOUT)], .visit, .hangup, .readable (.failed 0), .writable (.wrote 2)]
  obtain ⟨s, reached, created, ⟨set, low, mark⟩, grows⟩ := Lib.Machine.exec_reaches tcpServer Lib.Machine.anyStep
    { loop := { threadId := 1 }, base := { threadId := 0 }, writeCompleteCallback := true }
    (opening ++ [.poll [(.other 0, 0)], .visit, .own 7 (.setHighWaterMarkCallback true 2)])
    (fun s => 7 ∈ s.created ∧ ((s.conn 7).highWaterMarkCallback = true ∧
        (s.conn 7).outputBuffer.readable.length < (s.conn 7).highWaterMark ∧ (s.conn 7).highWaterMark = 2) ∧
      (tcpServer.exec (KeepsMark 7) s send).any (fun t => (t.conn 7).outputBuffer.readable = [11, 12] ∧
        (tcpServer.exec Lib.Machine.anyStep t drain).any (fun u => 7 ∈ u.created ∧
          (u.conn 7).outputBuffer.readable = [] ∧ (u.conn 7).writeCompleteCallback = true ∧
          (u.conn 7).socket.countP SocketOp.complete = 1) = true) = true)
    ⟨1, 0, true, by decide, rfl⟩ (by decide +kernel)
  obtain ⟨t, sent, after⟩ := (Option.any_eq_true _ _).mp grows
  obtain ⟨bytes, ends⟩ := of_decide_eq_true after
  obtain ⟨u, drained, last⟩ := (Option.any_eq_true _ _).mp ends
  obtain ⟨created', empty, callback, writes⟩ := of_decide_eq_true last
  have run := Lib.Machine.exec_steps sent
  have full : (s.conn 7).highWaterMark ≤ (t.conn 7).outputBuffer.readable.length := by
    rw [mark, bytes]
    exact Nat.le_refl _
  obtain ⟨new, size, inserted, enough, member⟩ := (progress_reported reached created).2.2 set low t run full
  rw [bytes] at enough
  have reached' := (steps_high reached created set low run).1.steps (Lib.Machine.exec_steps drained)
  refine ⟨t, u, ⟨bytes, size, enough, inserted ▸ List.mem_append_right _ member⟩, empty, ?_⟩
  rw [(progress_reported reached' created').1, if_pos callback, writes]

end TcpServer

end Dserver.Net
