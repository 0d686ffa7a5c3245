import Dserver.Net.ConnectionEffect

/-!
# The output of a connection

`outputBuffer_` against the write interest of the channel, and the bytes handed to the kernel against
the messages whose `sendInLoop` ran.
-/

namespace Dserver.Net

namespace TcpConnection

def sent (conn : TcpConnection) : List Byte := conn.socket.flatMap SocketOp.sent

def delivered (conn : TcpConnection) : List Byte :=
  (conn.sends.filter fun r => !r.dropped).flatMap fun r => r.message.bytes

/-- `shutdown` of another thread may set `kDisconnecting` after `handleClose`, so `state_` alone does not say that
the connection is open. -/
structure Inv (conn : TcpConnection) : Prop where
  wf : conn.outputBuffer.Wf
  waiting : conn.channel.isWriting = true → conn.outputBuffer.readable ≠ []
  down : conn.state = .kDisconnected → conn.channel.isWriting = false
  stream : conn.sent ++ conn.outputBuffer.readable = conn.delivered
  live : conn.closeCalls = 0 → conn.state ≠ .kDisconnected
  watched : conn.closeCalls = 0 → conn.outputBuffer.readable ≠ [] → conn.channel.isWriting = true
  kept : conn.closeCalls = 0 → ∀ r ∈ conn.sends, r.outcome ≠ .gaveUp

variable {conn conn' : TcpConnection} {x x' : Ctx} {ops : List SocketOp}

theorem fresh_inv (fd : Fd) : ({ channel := { fd } } : TcpConnection).Inv := by
  refine ⟨Buffer.make_wf (by decide), ?_, nofun, by simp [sent, delivered], fun _ => nofun, ?_, by simp⟩
  · simp [Channel.isWriting, Events.test]
  · simp

theorem Inv.of_eq (h : conn.Inv) (buffer : conn'.outputBuffer = conn.outputBuffer)
    (state : conn'.state = conn.state) (writing : conn'.channel.isWriting = conn.channel.isWriting)
    (socket : conn'.socket = conn.socket) (sends : conn'.sends = conn.sends)
    (closes : conn'.closeCalls = conn.closeCalls) : conn'.Inv := by
  refine ⟨buffer ▸ h.wf, ?_, ?_, ?_, ?_, ?_, ?_⟩
  · rw [writing, buffer]
    exact h.waiting
  · rw [state, writing]
    exact h.down
  · rw [sent, delivered, socket, sends, buffer]
    exact h.stream
  · rw [state, closes]
    exact h.live
  · rw [closes, buffer, writing]
    exact h.watched
  · rw [closes, sends]
    exact h.kept

/-- `state_` is set to `kDisconnecting`, by `shutdown`. -/
theorem Inv.disconnecting (h : conn.Inv) : { conn with state := .kDisconnecting }.Inv :=
  ⟨h.wf, h.waiting, nofun, h.stream, fun _ => nofun, h.watched, h.kept⟩

/-- As long as `handleClose` has not run, the channel asks for write events exactly while bytes are buffered. -/
theorem Inv.writing (h : conn.Inv) (closes : conn.closeCalls = 0) :
    conn.channel.isWriting = true ↔ conn.outputBuffer.readable ≠ [] :=
  ⟨h.waiting, h.watched closes⟩

theorem Inv.idle (h : conn.Inv) (closes : conn.closeCalls = 0)
    (off : conn.channel.isWriting = false) : conn.outputBuffer.readable = [] := by
  by_contra more
  rw [h.watched closes more] at off
  cases off

theorem accepted_append_drop (r : WriteResult) (data : List Byte) :
    r.accepted data ++ data.drop (r.accepted data).length = data := by
  cases r with
  | failed errno => rfl
  | wrote n =>
    rcases Nat.le_total n data.length with short | long
    · simp [WriteResult.accepted, List.length_take_of_le short]
    · simp [WriteResult.accepted, List.take_of_length_le long]

theorem accepted_of_fault {r : WriteResult} (fault : r.faultError = true) (data : List Byte) :
    r.accepted data = [] := by
  cases r with
  | failed errno => rfl
  | wrote n => cases fault

theorem sent_syscall (x : Ctx) (op : SocketOp) : (syscall x op).conn.sent = x.conn.sent ++ op.sent := by
  simp [sent, syscall]

theorem delivered_record (x : Ctx) (r : SendRecord) :
    (record x r).conn.delivered = x.conn.delivered ++ if r.dropped then [] else r.message.bytes := by
  simp only [delivered, record, List.filter_append, List.flatMap_append]
  cases dropped : r.dropped <;> simp [dropped]

/-- A call that issues `ops` on the socket keeps the invariant; it queues a write-complete callback,
and shuts the socket down for writing, only with nothing left to write. -/
structure Outputs (x x' : Ctx) (ops : List SocketOp) : Prop where
  inv : x'.conn.Inv
  socket : x'.conn.socket = x.conn.socket ++ ops
  complete : ∀ c, Functor.writeCompleteCallback c ∈ x'.queued →
    Functor.writeCompleteCallback c ∈ x.queued ∨ x'.conn.outputBuffer.readable = []
  fin : x.conn.closeCalls = 0 → .shutdownWrite ∈ ops → x'.conn.outputBuffer.readable = []

theorem Outputs.silent (inv : x'.conn.Inv) (socket : x'.conn.socket = x.conn.socket)
    (queued : x'.queued = x.queued) : Outputs x x' [] :=
  ⟨inv, by rw [socket, List.append_nil], fun _ member => .inl (queued ▸ member), by simp⟩

theorem Outputs.of_eq (h : x.conn.Inv) (buffer : x'.conn.outputBuffer = x.conn.outputBuffer)
    (state : x'.conn.state = x.conn.state)
    (writing : x'.conn.channel.isWriting = x.conn.channel.isWriting)
    (socket : x'.conn.socket = x.conn.socket) (sends : x'.conn.sends = x.conn.sends)
    (closes : x'.conn.closeCalls = x.conn.closeCalls) (queued : x'.queued = x.queued) : Outputs x x' [] :=
  .silent (h.of_eq buffer state writing socket sends closes) socket queued

theorem queueIf_complete {due : Bool} {b c : ConnId}
    (h : Functor.writeCompleteCallback c ∈ (queueIf x due (.writeCompleteCallback b)).queued) :
    Functor.writeCompleteCallback c ∈ x.queued ∨ due = true := by
  cases due with
  | true => exact .inr rfl
  | false => simpa [queueIf] using h

theorem direct_outputs {sender : Tid} {message : Message} {r : WriteResult} {y : Ctx} {due : Bool}
    (h : x.conn.Inv) (live : x.conn.state ≠ .kDisconnected) (empty : x.conn.outputBuffer.readable = [])
    (whole : due = true → (r.accepted message.bytes).length = message.bytes.length)
    (before : y = queueIf (syscall (record x ⟨sender, message, .direct r⟩) (.write message.bytes r)) due
      (.writeCompleteCallback x.id))
    (after : (if r.faultError = false ∧ 0 < message.bytes.length - (r.accepted message.bytes).length then
      appendOutput y (message.bytes.drop (r.accepted message.bytes).length) else .ok y) = .ok x') :
    Outputs x x' [.write message.bytes r] := by
  have split := accepted_append_drop r message.bytes
  have total := congrArg List.length split
  rw [List.length_append] at total
  have sent : y.conn.sent = x.conn.sent ++ r.accepted message.bytes := by
    rw [before]
    exact sent_syscall _ _
  have delivered : y.conn.delivered =
      x.conn.delivered ++ if r.faultError then [] else message.bytes := by
    rw [before]
    exact delivered_record _ _
  have kept : x.conn.closeCalls = 0 → ∀ s ∈ y.conn.sends, s.outcome ≠ .gaveUp := by
    rw [before]
    intro closes s member
    rcases List.mem_append.mp member with old | new
    · exact h.kept closes s old
    · rw [List.mem_singleton.mp new]
      simp
  have stream := h.stream
  rw [empty, List.append_nil] at stream
  have queued : ∀ c, Functor.writeCompleteCallback c ∈ y.queued →
      Functor.writeCompleteCallback c ∈ x.queued ∨ due = true := by
    rw [before]
    exact fun c member => queueIf_complete member
  have buffer : y.conn.outputBuffer = x.conn.outputBuffer := by rw [before]; rfl
  have state : y.conn.state = x.conn.state := by rw [before]; rfl
  have socket : y.conn.socket = x.conn.socket ++ [.write message.bytes r] := by rw [before]; rfl
  have channel : y.conn.channel = x.conn.channel := by rw [before]; rfl
  have closes : y.conn.closeCalls = x.conn.closeCalls := by rw [before]; rfl
  split at after
  · rename_i more
    obtain ⟨clean, left⟩ := more
    have fits : (message.bytes.drop (r.accepted message.bytes).length).length ≤ maxSize := by
      rw [List.length_drop]
      exact Nat.le_trans (Nat.sub_le _ _) message.fits
    obtain ⟨wf, bytes, on, same, old⟩ := appendOutput_spec (buffer ▸ h.wf) fits after
    have frame := appendOutput_frame after
    have nonempty : x'.conn.outputBuffer.readable ≠ [] := by
      rw [bytes, buffer, empty, List.nil_append]
      intro nil
      rw [nil, List.length_nil] at total
      omega
    refine ⟨⟨wf, fun _ => nonempty, ?_, ?_, ?_, fun _ _ => on, ?_⟩, same.trans socket, ?_, by simp⟩
    · intro down
      exact absurd (state ▸ frame.state ▸ down) live
    · rw [bytes, buffer, empty, List.nil_append, TcpConnection.sent, same, ← TcpConnection.sent, sent,
        TcpConnection.delivered, frame.sends, ← TcpConnection.delivered, delivered, clean, stream,
        List.append_assoc, split]
      rfl
    · rw [frame.state, state]
      exact fun _ => live
    · rw [frame.closeCalls, closes, frame.sends]
      exact kept
    · intro c member
      rcases queued c (old c member) with early | done
      · exact .inl early
      · have := whole done
        omega
  · rename_i done
    obtain rfl := Except.ok.inj after
    refine ⟨⟨buffer ▸ h.wf, ?_, ?_, ?_, ?_, ?_, closes ▸ kept⟩, socket, ?_, by simp⟩
    · rw [channel, buffer]
      exact h.waiting
    · intro down
      exact absurd (state ▸ down) live
    · rw [sent, buffer, empty, List.append_nil, delivered, stream]
      cases fault : r.faultError with
      | true => rw [accepted_of_fault fault]; rfl
      | false =>
        have nothing : message.bytes.drop (r.accepted message.bytes).length = [] := by
          apply List.drop_eq_nil_of_le
          by_contra more
          exact done ⟨fault, by omega⟩
        rw [nothing, List.append_nil] at split
        rw [split]
        rfl
    · exact fun _ => state ▸ live
    · rw [closes, channel, buffer]
      exact h.watched
    · exact fun c member => (queued c member).imp_right fun _ => buffer ▸ empty

theorem record_inv {r : SendRecord} (h : x.conn.Inv) (kept : x.conn.state ≠ .kDisconnected → r.outcome ≠ .gaveUp)
    (empty : r.dropped = true ∨ r.message.bytes = []) : (record x r).conn.Inv := by
  refine ⟨h.wf, h.waiting, h.down, ?_, h.live, h.watched, ?_⟩
  · have same : (if r.dropped then [] else r.message.bytes) = [] := by
      rcases empty with dropped | nil
      · rw [dropped]; rfl
      · rw [nil, ite_self]
    rw [delivered_record, same, List.append_nil]
    exact h.stream
  · intro closes s member
    rcases List.mem_append.mp member with old | new
    · exact h.kept closes s old
    · rw [List.mem_singleton.mp new]
      exact kept (h.live closes)

theorem buffered_outputs {sender : Tid} {message : Message} (h : x.conn.Inv)
    (live : x.conn.state ≠ .kDisconnected) (nonempty : x.conn.outputBuffer.readable ≠ [])
    (appended : appendOutput (record x ⟨sender, message, .buffered⟩) message.bytes = .ok x') :
    Outputs x x' [] := by
  have wf : (record x ⟨sender, message, .buffered⟩).conn.outputBuffer.Wf := h.wf
  obtain ⟨wf', bytes, on, same, old⟩ := appendOutput_spec wf message.fits appended
  have frame := appendOutput_frame appended
  refine ⟨⟨wf', fun _ => ?_, ?_, ?_, ?_, fun _ _ => on, ?_⟩, by rw [same, List.append_nil]; rfl,
    fun c member => .inl (old c member), by simp⟩
  · rw [bytes]
    exact fun nil => nonempty (List.append_eq_nil_iff.mp nil).1
  · intro down
    exact absurd (frame.state ▸ down) live
  · have grown := delivered_record x ⟨sender, message, .buffered⟩
    rw [bytes, TcpConnection.sent, same, TcpConnection.delivered, frame.sends, ← TcpConnection.delivered,
      grown, ← h.stream, ← List.append_assoc]
    rfl
  · rw [frame.state]
    exact fun _ => live
  · rw [frame.closeCalls, frame.sends]
    intro closes s member
    rcases List.mem_append.mp member with early | new
    · exact h.kept closes s early
    · rw [List.mem_singleton.mp new]
      simp

theorem sendInLoop_outputs {sender : Tid} {message : Message} {r : WriteResult} (h : x.conn.Inv)
    (ran : sendInLoop x sender message r = .ok x') : ∃ ops, Outputs x x' ops ∧ .shutdownWrite ∉ ops := by
  unfold sendInLoop at ran
  split at ran
  · rename_i down
    obtain rfl := Except.ok.inj ran
    refine ⟨[], .silent (record_inv h (fun live => absurd down live) (.inl rfl)) rfl rfl, by simp⟩
  · rename_i live
    split at ran
    · rename_i direct
      refine ⟨_, direct_outputs h live (h.wf.readable_eq_nil.mpr direct.2) ?_ rfl ran, by simp⟩
      intro due
      have split := congrArg List.length (accepted_append_drop r message.bytes)
      simp only [Bool.and_eq_true, beq_iff_eq, List.length_append, List.length_drop] at due split
      omega
    · rename_i busy
      have nonempty : x.conn.outputBuffer.readable ≠ [] := by
        intro empty
        exact busy ⟨Bool.eq_false_iff.mpr fun on => h.waiting on empty, h.wf.readable_eq_nil.mp empty⟩
      dsimp only at ran
      split at ran
      · exact ⟨[], buffered_outputs h live nonempty ran, by simp⟩
      · rename_i zero
        obtain rfl := Except.ok.inj ran
        have nil : message.bytes = [] := List.eq_nil_of_length_eq_zero (by omega)
        exact ⟨[], .silent (record_inv h (by simp) (.inr nil)) rfl rfl, by simp⟩

theorem shutdownInLoop_outputs (h : x.conn.Inv) (ran : shutdownInLoop x = .ok x') :
    ∃ ops, Outputs x x' ops ∧ x'.conn.outputBuffer = x.conn.outputBuffer ∧
      (ops = [] ∨ (x.conn.channel.isWriting = false ∧ ops = [.shutdownWrite])) := by
  unfold shutdownInLoop at ran
  split at ran
  · obtain rfl := Except.ok.inj ran
    exact ⟨[], .of_eq h rfl rfl rfl rfl rfl rfl rfl, rfl, .inl rfl⟩
  · rename_i off
    obtain rfl := Except.ok.inj ran
    have idle := Bool.eq_false_iff.mpr off
    refine ⟨_, ⟨⟨h.wf, h.waiting, h.down, ?_, h.live, h.watched, h.kept⟩, rfl, fun _ => .inl,
      fun closes _ => h.idle closes idle⟩, rfl, .inr ⟨idle, rfl⟩⟩
    rw [sent_syscall]
    exact (congrArg (· ++ _) (List.append_nil _)).trans h.stream

theorem drained_outputs (h : x.conn.Inv) (empty : x.conn.outputBuffer.readable = [])
    (ran : (if x.conn.state = .kDisconnecting then shutdownInLoop x else .ok x) = .ok x') :
    ∃ ops, Outputs x x' ops ∧ x'.conn.outputBuffer.readable = [] ∧
      (ops = [] ∨ (x.conn.state = .kDisconnecting ∧ ops = [.shutdownWrite])) := by
  split at ran
  · rename_i disconnecting
    obtain ⟨ops, out, same, issued⟩ := shutdownInLoop_outputs h ran
    exact ⟨ops, out, same ▸ empty, issued.imp_right fun last => ⟨disconnecting, last.2⟩⟩
  · obtain rfl := Except.ok.inj ran
    exact ⟨[], .of_eq h rfl rfl rfl rfl rfl rfl rfl, empty, .inl rfl⟩

/-- `handleWrite` writes the buffer, and after the last byte of a connection that is disconnecting it
shuts the socket down. -/
def Drains (x : Ctx) (r : WriteResult) (ops : List SocketOp) : Prop :=
  ops = [] ∨ (x.conn.channel.isWriting = true ∧ (ops = [.write x.conn.outputBuffer.readable r] ∨
    (x.conn.state = .kDisconnecting ∧ r.accepted x.conn.outputBuffer.readable = x.conn.outputBuffer.readable ∧
      ops = [.write x.conn.outputBuffer.readable r, .shutdownWrite])))

theorem handleWrite_outputs {r : WriteResult} (h : x.conn.Inv) (ran : handleWrite x r = .ok x') :
    ∃ ops, Outputs x x' ops ∧ Drains x r ops := by
  unfold handleWrite at ran
  split at ran
  · rename_i on
    have live : x.conn.state ≠ .kDisconnected := fun down => by simp [h.down down] at on
    have total := accepted_append_drop r x.conn.outputBuffer.readable
    have grown := sent_syscall x (.write x.conn.outputBuffer.readable r)
    have taken : (r.accepted x.conn.outputBuffer.readable).length ≤ x.conn.outputBuffer.readable.length := by
      have lengths := congrArg List.length total
      rw [List.length_append] at lengths
      omega
    obtain ⟨b', retrieved, wf, rest⟩ := Buffer.retrieve_spec h.wf taken
    have stream : (syscall x (.write x.conn.outputBuffer.readable r)).conn.sent ++ b'.readable =
        x.conn.delivered := by
      rw [grown, rest, List.append_assoc]
      exact (congrArg (_ ++ ·) total).trans h.stream
    dsimp only at ran
    split at ran
    · obtain ⟨b, done, ran⟩ := Lib.bind_ok ran
      rw [show b = b' from Except.ok.inj ((onBuffer_ok done).symm.trans retrieved)] at ran
      split at ran
      · rename_i empty
        have nil : b'.readable = [] := wf.readable_eq_nil.mpr empty
        have all : r.accepted x.conn.outputBuffer.readable = x.conn.outputBuffer.readable := by
          rwa [← rest, nil, List.append_nil] at total
        obtain ⟨y, toggled, ran⟩ := Lib.bind_ok ran
        obtain ⟨poller, rfl, _⟩ := toggle_events toggled
        have off : (x.conn.channel.toggled fun events => events &&& ~~~Channel.kWriteEvent).isWriting =
            false := Channel.test_and_not_self
        have finish := fun inv empty => drained_outputs inv empty ran
        obtain ⟨ops, out, same, issued⟩ := finish
          ⟨wf, fun on => absurd on (Bool.eq_false_iff.mp off), fun _ => off, stream, h.live,
            fun _ more => absurd nil more, h.kept⟩ nil
        refine ⟨.write x.conn.outputBuffer.readable r :: ops,
          ⟨out.inv, ?_, fun _ _ => .inr same, fun _ _ => same⟩, .inr ⟨on, ?_⟩⟩
        · rw [out.socket]
          exact List.append_assoc _ _ _
        · rcases issued with rfl | ⟨disconnecting, rfl⟩
          · exact .inl rfl
          · exact .inr ⟨disconnecting, all, rfl⟩
      · rename_i left
        obtain rfl := Except.ok.inj ran
        refine ⟨_, ⟨⟨wf, fun _ => ?_, fun down => absurd down live, stream, h.live, fun _ _ => on, h.kept⟩, rfl,
          fun _ => .inl, by simp⟩, .inr ⟨on, .inl rfl⟩⟩
        exact fun nil => left (wf.readable_eq_nil.mp nil)
    · rename_i none
      obtain rfl := Except.ok.inj ran
      have nil : r.accepted x.conn.outputBuffer.readable = [] := List.eq_nil_of_length_eq_zero (by omega)
      refine ⟨_, ⟨⟨h.wf, h.waiting, h.down, ?_, h.live, h.watched, h.kept⟩, rfl, fun _ => .inl, by simp⟩,
        .inr ⟨on, .inl rfl⟩⟩
      rw [grown, SocketOp.sent, nil, List.append_nil]
      exact h.stream
  · obtain rfl := Except.ok.inj ran
    exact ⟨[], .of_eq h rfl rfl rfl rfl rfl rfl rfl, .inl rfl⟩

/-! ### Every call -/

/-- The system calls on the socket that a call may issue. -/
def Call.Issues (x : Ctx) (ops : List SocketOp) : Call → Prop
  | send _ _ _ => (x.conn.state ≠ .kConnected → ops = []) ∧ .shutdownWrite ∉ ops
  | sendInLoop _ _ _ => .shutdownWrite ∉ ops
  | shutdown => ops = [] ∨
      (x.conn.state = .kConnected ∧ x.conn.channel.isWriting = false ∧ ops = [.shutdownWrite])
  | shutdownInLoop => ops = [] ∨ (x.conn.channel.isWriting = false ∧ ops = [.shutdownWrite])
  | handleWrite r => Drains x r ops
  | _ => ops = []

theorem closing_inv (h : x.conn.Inv) {poller : Poller} :
    (closeCallback (setChannel (setState x .kDisconnected)
      (x.conn.channel.toggled fun _ => Channel.kNoneEvent) poller)).conn.Inv :=
  have off : (x.conn.channel.toggled fun _ => Channel.kNoneEvent).isWriting = false := Channel.isWriting_none rfl
  ⟨h.wf, fun on => absurd on (Bool.eq_false_iff.mp off), fun _ => off, h.stream, nofun, nofun, nofun⟩

theorem handleClose_outputs (h : x.conn.Inv) (ran : handleClose x = .ok x') : Outputs x x' [] := by
  unfold handleClose at ran
  split at ran
  · obtain ⟨y, toggled, ran⟩ := Lib.bind_ok ran
    obtain rfl := Except.ok.inj ran
    obtain ⟨poller, rfl, _⟩ := toggle_events toggled
    exact .silent (closing_inv h) rfl rfl
  · cases ran

theorem handleRead_outputs {r : ReadResult} (h : x.conn.Inv) (ran : handleRead x r = .ok x') :
    Outputs x x' [] := by
  unfold handleRead at ran
  split at ran
  · obtain rfl := Except.ok.inj ran
    exact .of_eq h rfl rfl rfl rfl rfl rfl rfl
  · obtain ⟨⟨n, b⟩, _, ran⟩ := Lib.bind_ok ran
    dsimp only at ran
    split at ran
    · obtain rfl := Except.ok.inj ran
      exact .of_eq h rfl rfl rfl rfl rfl rfl rfl
    · have inv : (setInputBuffer x b).conn.Inv := h.of_eq rfl rfl rfl rfl rfl rfl
      obtain ⟨inv', socket, complete, fin⟩ := handleClose_outputs inv ran
      exact ⟨inv', socket, complete, fin⟩

theorem connectEstablished_outputs (h : x.conn.Inv) (ran : connectEstablished x = .ok x') :
    Outputs x x' [] := by
  unfold connectEstablished at ran
  split at ran
  · obtain ⟨y, toggled, ran⟩ := Lib.bind_ok ran
    obtain rfl := Except.ok.inj ran
    obtain ⟨poller, rfl, _⟩ := toggle_events toggled
    have same : Channel.isWriting { x.conn.channel with events := x.conn.channel.events ||| Channel.kReadEvent } =
        x.conn.channel.isWriting := Channel.isWriting_enableReading
    refine .silent ⟨h.wf, fun on => h.waiting (same.symm.trans on), nofun, h.stream, fun _ => nofun, ?_, h.kept⟩ rfl rfl
    exact fun closes more => same.trans (h.watched closes more)
  · cases ran

theorem connectDestroyed_outputs (h : x.conn.Inv) (down : x.conn.state ≠ .kConnected)
    (ran : connectDestroyed x = .ok x') : Outputs x x' [] := by
  unfold connectDestroyed at ran
  rw [if_neg down] at ran
  obtain ⟨y, skipped, ran⟩ := Lib.bind_ok ran
  obtain rfl := Except.ok.inj skipped
  obtain ⟨y, erased, ran⟩ := Lib.bind_ok ran
  obtain ⟨z, removed, ran⟩ := Lib.bind_ok ran
  obtain rfl := Except.ok.inj ran
  unfold removeConnection at erased
  split at erased
  · obtain rfl := Except.ok.inj erased
    obtain ⟨_, _, poller, rfl⟩ := removeChannel_ok removed
    exact .of_eq h rfl rfl rfl rfl rfl rfl rfl
  · cases erased

theorem startReadInLoop_outputs (h : x.conn.Inv) (ran : startReadInLoop x = .ok x') : Outputs x x' [] := by
  unfold startReadInLoop at ran
  split at ran
  · obtain ⟨y, toggled, ran⟩ := Lib.bind_ok ran
    obtain rfl := Except.ok.inj ran
    obtain ⟨poller, rfl, _⟩ := toggle_events toggled
    exact .of_eq h rfl rfl Channel.isWriting_enableReading rfl rfl rfl rfl
  · obtain rfl := Except.ok.inj ran
    exact .of_eq h rfl rfl rfl rfl rfl rfl rfl

theorem stopReadInLoop_outputs (h : x.conn.Inv) (ran : stopReadInLoop x = .ok x') : Outputs x x' [] := by
  unfold stopReadInLoop at ran
  split at ran
  · obtain ⟨y, toggled, ran⟩ := Lib.bind_ok ran
    obtain rfl := Except.ok.inj ran
    obtain ⟨poller, rfl, _⟩ := toggle_events toggled
    exact .of_eq h rfl rfl Channel.isWriting_disableReading rfl rfl rfl rfl
  · obtain rfl := Except.ok.inj ran
    exact .of_eq h rfl rfl rfl rfl rfl rfl rfl

/-- Every call keeps the invariant, and `Issues` bounds what it issues. The server never calls
`connectDestroyed` on a connection that is still connected. -/
theorem run_outputs {call : Call} (h : x.conn.Inv)
    (down : call = .connectDestroyed → x.conn.state ≠ .kConnected) (ran : call.run x = .ok x') :
    ∃ ops, Outputs x x' ops ∧ call.Issues x ops := by
  cases call with
  | connectEstablished => exact ⟨[], connectEstablished_outputs h ran, rfl⟩
  | connectDestroyed => exact ⟨[], connectDestroyed_outputs h (down rfl) ran, rfl⟩
  | send sender arg r =>
    change send x sender arg r = .ok x' at ran
    unfold send at ran
    split at ran
    · rename_i connected
      have inv : (accept x sender arg.message).conn.Inv := h.of_eq rfl rfl rfl rfl rfl rfl
      obtain ⟨ops, out, write⟩ := sendInLoop_outputs inv ran
      exact ⟨ops, ⟨out.inv, out.socket, out.complete, out.fin⟩, fun other => absurd connected other, write⟩
    · obtain rfl := Except.ok.inj ran
      exact ⟨[], .of_eq h rfl rfl rfl rfl rfl rfl rfl, fun _ => rfl, by simp⟩
  | sendInLoop sender message r => exact sendInLoop_outputs h ran
  | shutdown =>
    change shutdown x = .ok x' at ran
    unfold shutdown at ran
    split at ran
    · rename_i connected
      have inv : (setState x .kDisconnecting).conn.Inv := h.disconnecting
      obtain ⟨ops, out, _, issued⟩ := shutdownInLoop_outputs inv ran
      exact ⟨ops, ⟨out.inv, out.socket, out.complete, out.fin⟩, issued.imp_right fun last => ⟨connected, last⟩⟩
    · obtain rfl := Except.ok.inj ran
      exact ⟨[], .of_eq h rfl rfl rfl rfl rfl rfl rfl, .inl rfl⟩
  | shutdownInLoop =>
    obtain ⟨ops, out, _, issued⟩ := shutdownInLoop_outputs h ran
    exact ⟨ops, out, issued⟩
  | startReadInLoop => exact ⟨[], startReadInLoop_outputs h ran, rfl⟩
  | stopReadInLoop => exact ⟨[], stopReadInLoop_outputs h ran, rfl⟩
  | retrieveInput len =>
    obtain ⟨b, _, ran⟩ := Lib.bind_ok ran
    obtain rfl := Except.ok.inj ran
    exact ⟨[], .of_eq h rfl rfl rfl rfl rfl rfl rfl, rfl⟩
  | setHighWaterMarkCallback set mark =>
    obtain rfl := Except.ok.inj ran
    exact ⟨[], .of_eq h rfl rfl rfl rfl rfl rfl rfl, rfl⟩
  | handleClose => exact ⟨[], handleClose_outputs h ran, rfl⟩
  | handleRead r => exact ⟨[], handleRead_outputs h ran, rfl⟩
  | handleWrite r => exact handleWrite_outputs h ran

end TcpConnection

end Dserver.Net
