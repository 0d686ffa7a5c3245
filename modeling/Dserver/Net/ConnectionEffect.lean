import Dserver.Net.TcpConnection

/-!
# What one call does to a connection

`Ctx.Frame` is what most member functions leave alone. `Call.Effect` says for every call which marks
it leaves on the state and the history, and that it frames everything else.
-/

namespace Dserver.Net

/-- A user callback queued for a connection. -/
def Functor.IsCallback (cb : Functor) (c : ConnId) : Prop :=
  cb = .writeCompleteCallback c ∨ ∃ size, cb = .highWaterMarkCallback c size

structure Ctx.Frame (x x' : Ctx) : Prop where
  id : x'.id = x.id
  fd : x'.conn.channel.fd = x.conn.channel.fd
  consistent : Consistent x.poller x.id x.conn.channel →
    Consistent x'.poller x.id x'.conn.channel ∧ x.poller.Touches x'.poller x.conn.channel.fd
  queued : ∃ new, x'.queued = x.queued ++ new ∧ ∀ cb ∈ new, cb.IsCallback x.id
  state : x'.conn.state = x.conn.state
  accepted : x'.conn.accepted = x.conn.accepted
  sends : x'.conn.sends = x.conn.sends
  connectionCalls : x'.conn.connectionCalls = x.conn.connectionCalls
  closeCalls : x'.conn.closeCalls = x.conn.closeCalls
  destroyed : x'.conn.destroyed = x.conn.destroyed
  connections : x'.connections = x.connections
  closed : x'.closed = x.closed

variable {x x' x'' : Ctx}

theorem Ctx.Frame.refl (x : Ctx) : x.Frame x :=
  ⟨rfl, rfl, fun h => ⟨h, .refl _ _⟩, ⟨[], by simp, by simp⟩, rfl, rfl, rfl, rfl, rfl, rfl, rfl, rfl⟩

theorem Ctx.Frame.trans (first : x.Frame x') (second : x'.Frame x'') : x.Frame x'' := by
  obtain ⟨new, log, callbacks⟩ := first.queued
  obtain ⟨new', log', callbacks'⟩ := second.queued
  refine ⟨second.id.trans first.id, second.fd.trans first.fd, ?_, ?_, second.state.trans first.state,
    second.accepted.trans first.accepted, second.sends.trans first.sends,
    second.connectionCalls.trans first.connectionCalls, second.closeCalls.trans first.closeCalls,
    second.destroyed.trans first.destroyed, second.connections.trans first.connections,
    second.closed.trans first.closed⟩
  · intro before
    obtain ⟨middle, touched⟩ := first.consistent before
    rw [← first.id] at middle
    obtain ⟨after, touched'⟩ := second.consistent middle
    rw [first.fd] at touched'
    exact ⟨first.id ▸ after, touched.trans touched'⟩
  · refine ⟨new ++ new', by rw [log', log, List.append_assoc], ?_⟩
    intro cb member
    rcases List.mem_append.mp member with old | late
    · exact callbacks cb old
    · exact first.id ▸ callbacks' cb late

namespace TcpConnection

theorem onBuffer_ok {α : Type} {e : Except Buffer.Fault α} {a : α} (h : onBuffer e = .ok a) : e = .ok a := by
  cases e with
  | ok b => exact congrArg Except.ok (Except.ok.inj h)
  | error fault => cases h

theorem toggle_ok {op : Poller → ChannelId → Channel → Except Poller.Fault (Channel × Poller)}
    (h : toggle x op = .ok x') :
    ∃ channel poller, op x.poller x.id x.conn.channel = .ok (channel, poller) ∧
      x' = setChannel x channel poller := by
  unfold toggle at h
  split at h
  · rename_i channel poller ran
    exact ⟨channel, poller, ran, (Except.ok.inj h).symm⟩
  · cases h

theorem toggle_events {change : Events → Events} (h : toggle x (Channel.toggle change) = .ok x') :
    ∃ poller, x' = setChannel x (x.conn.channel.toggled change) poller ∧
      (Consistent x.poller x.id x.conn.channel →
        Consistent poller x.id (x.conn.channel.toggled change) ∧ x.poller.Touches poller x.conn.channel.fd) := by
  obtain ⟨channel, poller, ran, rfl⟩ := toggle_ok h
  obtain rfl := Channel.toggle_channel ran
  refine ⟨poller, rfl, fun before => ?_⟩
  obtain ⟨poller', ran', consistent, touched⟩ := toggle_spec before change
  rw [ran] at ran'
  obtain ⟨-, rfl⟩ := Prod.mk.inj (Except.ok.inj ran')
  exact ⟨consistent, touched⟩

theorem toggle_frame {change : Events → Events} (h : toggle x (Channel.toggle change) = .ok x') :
    x.Frame x' := by
  obtain ⟨poller, rfl, consistent⟩ := toggle_events h
  exact ⟨rfl, rfl, consistent, ⟨[], by simp [setChannel], by simp⟩, rfl, rfl, rfl, rfl, rfl, rfl, rfl, rfl⟩

theorem queueIf_frame (x : Ctx) (due : Bool) {cb : Functor} (callback : cb.IsCallback x.id) :
    x.Frame (queueIf x due cb) := by
  refine ⟨rfl, rfl, fun h => ⟨h, .refl _ _⟩, ⟨_, rfl, ?_⟩, rfl, rfl, rfl, rfl, rfl, rfl, rfl, rfl⟩
  cases due
  · simp
  · simpa using callback

theorem frame_of_eq (ids : x'.id = x.id) (channel : x'.conn.channel = x.conn.channel)
    (poller : x'.poller = x.poller) (queued : x'.queued = x.queued) (state : x'.conn.state = x.conn.state)
    (history : x'.conn.accepted = x.conn.accepted ∧ x'.conn.sends = x.conn.sends ∧
      x'.conn.connectionCalls = x.conn.connectionCalls ∧ x'.conn.closeCalls = x.conn.closeCalls ∧
      x'.conn.destroyed = x.conn.destroyed)
    (connections : x'.connections = x.connections) (closed : x'.closed = x.closed) : x.Frame x' := by
  obtain ⟨accepted, sends, calls, closes, destroyed⟩ := history
  refine ⟨ids, by rw [channel], fun before => ?_, ⟨[], by simpa using queued, by simp⟩, state, accepted,
    sends, calls, closes, destroyed, connections, closed⟩
  rw [channel, poller]
  exact ⟨before, .refl _ _⟩

theorem syscall_frame (x : Ctx) (op : SocketOp) : x.Frame (syscall x op) :=
  frame_of_eq rfl rfl rfl rfl rfl ⟨rfl, rfl, rfl, rfl, rfl⟩ rfl rfl

theorem setOutputBuffer_frame (x : Ctx) (b : Buffer) : x.Frame (setOutputBuffer x b) :=
  frame_of_eq rfl rfl rfl rfl rfl ⟨rfl, rfl, rfl, rfl, rfl⟩ rfl rfl

theorem setInputBuffer_frame (x : Ctx) (b : Buffer) : x.Frame (setInputBuffer x b) :=
  frame_of_eq rfl rfl rfl rfl rfl ⟨rfl, rfl, rfl, rfl, rfl⟩ rfl rfl

theorem setReading_frame (x : Ctx) (reading : Bool) : x.Frame (setReading x reading) :=
  frame_of_eq rfl rfl rfl rfl rfl ⟨rfl, rfl, rfl, rfl, rfl⟩ rfl rfl

theorem setHighWaterMarkCallback_frame (x : Ctx) (set : Bool) (mark : Nat) :
    x.Frame (setHighWaterMarkCallback x set mark) :=
  frame_of_eq rfl rfl rfl rfl rfl ⟨rfl, rfl, rfl, rfl, rfl⟩ rfl rfl

theorem messageCallback_frame (x : Ctx) : x.Frame (messageCallback x) :=
  frame_of_eq rfl rfl rfl rfl rfl ⟨rfl, rfl, rfl, rfl, rfl⟩ rfl rfl

theorem notifyHighWaterMark_frame (x : Ctx) (remaining : Nat) :
    x.Frame (notifyHighWaterMark x remaining) :=
  queueIf_frame x _ (.inr ⟨_, rfl⟩)

theorem notifyHighWaterMark_conn (x : Ctx) (remaining : Nat) :
    (notifyHighWaterMark x remaining).conn = x.conn := rfl

theorem notifyHighWaterMark_queued {remaining : Nat} {c : ConnId}
    (h : Functor.writeCompleteCallback c ∈ (notifyHighWaterMark x remaining).queued) :
    Functor.writeCompleteCallback c ∈ x.queued := by
  unfold notifyHighWaterMark queueIf at h
  rcases List.mem_append.mp h with old | new
  · exact old
  · split at new
    · simp at new
    · simp at new

theorem fillOutput_ok {rest : List Byte} (h : fillOutput x rest = .ok x') :
    ∃ b, x.conn.outputBuffer.append rest = .ok b ∧
      ((x.conn.channel.isWriting = true ∧ x' = setOutputBuffer x b) ∨
        (x.conn.channel.isWriting = false ∧ toggle (setOutputBuffer x b) Channel.enableWriting = .ok x')) := by
  obtain ⟨b, appended, h⟩ := Lib.bind_ok h
  refine ⟨b, onBuffer_ok appended, ?_⟩
  dsimp only at h
  split at h
  · rename_i writing
    exact .inl ⟨writing, (Except.ok.inj h).symm⟩
  · rename_i idle
    exact .inr ⟨Bool.eq_false_iff.mpr idle, h⟩

theorem appendOutput_frame {rest : List Byte} (h : appendOutput x rest = .ok x') : x.Frame x' := by
  obtain ⟨b, _, ended⟩ := fillOutput_ok h
  have filled := (notifyHighWaterMark_frame x rest.length).trans (setOutputBuffer_frame _ b)
  rcases ended with ⟨_, rfl⟩ | ⟨_, toggled⟩
  · exact filled
  · exact filled.trans (toggle_frame toggled)

theorem appendOutput_spec {rest : List Byte} (wf : x.conn.outputBuffer.Wf) (small : rest.length ≤ maxSize)
    (h : appendOutput x rest = .ok x') :
    x'.conn.outputBuffer.Wf ∧ x'.conn.outputBuffer.readable = x.conn.outputBuffer.readable ++ rest ∧
      x'.conn.channel.isWriting = true ∧ x'.conn.socket = x.conn.socket ∧
      ∀ c, Functor.writeCompleteCallback c ∈ x'.queued → Functor.writeCompleteCallback c ∈ x.queued := by
  obtain ⟨b, appended, ended⟩ := fillOutput_ok h
  have filled : b.Wf ∧ b.readable = x.conn.outputBuffer.readable ++ rest := by
    rcases Buffer.append_spec wf small with failed | ⟨b', ran, wf', same⟩
    · rw [notifyHighWaterMark_conn, failed] at appended
      cases appended
    · rw [notifyHighWaterMark_conn, ran] at appended
      obtain rfl := Except.ok.inj appended
      exact ⟨wf', same⟩
  rcases ended with ⟨writing, rfl⟩ | ⟨_, toggled⟩
  · exact ⟨filled.1, filled.2, writing, rfl, fun _ => notifyHighWaterMark_queued⟩
  · obtain ⟨poller, rfl, _⟩ := toggle_events toggled
    exact ⟨filled.1, filled.2, Channel.test_or_self (by decide), rfl, fun _ => notifyHighWaterMark_queued⟩

/-! ### Frames of the member functions -/

theorem sendInLoop_frame {sender : Tid} {message : Message} {r : WriteResult}
    (h : sendInLoop x sender message r = .ok x') :
    ∃ outcome, (record x ⟨sender, message, outcome⟩).Frame x' ∧
      (x.conn.state = .kDisconnected → x' = record x ⟨sender, message, outcome⟩) := by
  unfold sendInLoop at h
  split at h
  · obtain rfl := Except.ok.inj h
    exact ⟨_, .refl _, fun _ => rfl⟩
  · rename_i live
    split at h
    · refine ⟨.direct r, ?_, fun down => absurd down live⟩
      dsimp only at h
      split at h
      · exact ((syscall_frame _ _).trans (queueIf_frame _ _ (.inl rfl))).trans (appendOutput_frame h)
      · obtain rfl := Except.ok.inj h
        exact (syscall_frame _ _).trans (queueIf_frame _ _ (.inl rfl))
    · refine ⟨.buffered, ?_, fun down => absurd down live⟩
      dsimp only at h
      split at h
      · exact appendOutput_frame h
      · obtain rfl := Except.ok.inj h
        exact .refl _

theorem shutdownInLoop_frame (h : shutdownInLoop x = .ok x') : x.Frame x' := by
  unfold shutdownInLoop at h
  split at h
  · obtain rfl := Except.ok.inj h
    exact .refl _
  · obtain rfl := Except.ok.inj h
    exact syscall_frame _ _

theorem startReadInLoop_frame (h : startReadInLoop x = .ok x') : x.Frame x' := by
  unfold startReadInLoop at h
  split at h
  · obtain ⟨y, toggled, h⟩ := Lib.bind_ok h
    obtain rfl := Except.ok.inj h
    exact (toggle_frame toggled).trans (setReading_frame y true)
  · obtain rfl := Except.ok.inj h
    exact .refl _

theorem stopReadInLoop_frame (h : stopReadInLoop x = .ok x') : x.Frame x' := by
  unfold stopReadInLoop at h
  split at h
  · obtain ⟨y, toggled, h⟩ := Lib.bind_ok h
    obtain rfl := Except.ok.inj h
    exact (toggle_frame toggled).trans (setReading_frame y false)
  · obtain rfl := Except.ok.inj h
    exact .refl _

theorem handleWrite_frame {r : WriteResult} (h : handleWrite x r = .ok x') : x.Frame x' := by
  unfold handleWrite at h
  split at h
  · dsimp only at h
    refine (syscall_frame x (.write x.conn.outputBuffer.readable r)).trans ?_
    split at h
    · obtain ⟨b, _, h⟩ := Lib.bind_ok h
      refine (setOutputBuffer_frame _ b).trans ?_
      split at h
      · obtain ⟨y, toggled, h⟩ := Lib.bind_ok h
        have notified := (toggle_frame toggled).trans
          (queueIf_frame y y.conn.writeCompleteCallback (.inl rfl))
        split at h
        · exact notified.trans (shutdownInLoop_frame h)
        · obtain rfl := Except.ok.inj h
          exact notified
      · obtain rfl := Except.ok.inj h
        exact .refl _
    · obtain rfl := Except.ok.inj h
      exact .refl _
  · obtain rfl := Except.ok.inj h
    exact .refl _

theorem retrieveInput_frame {len : Nat} (h : retrieveInput x len = .ok x') : x.Frame x' := by
  obtain ⟨b, _, h⟩ := Lib.bind_ok h
  obtain rfl := Except.ok.inj h
  exact setInputBuffer_frame x b

theorem removeChannel_ok (h : removeChannel x = .ok x') :
    x.conn.channel.events = Channel.kNoneEvent ∧ x.conn.channel.index ≠ .kNew ∧
      ∃ poller, x' = setChannel x { x.conn.channel with addedToLoop := false, index := .kNew } poller := by
  unfold removeChannel at h
  split at h
  · cases h
  · split at h
    · cases h
    · obtain ⟨channel, poller, ran, rfl⟩ := toggle_ok h
      obtain ⟨empty, added, rfl⟩ := Channel.remove_channel ran
      exact ⟨empty, added, poller, rfl⟩

theorem removeChannel_frame (h : removeChannel x = .ok x') : x.Frame x' := by
  obtain ⟨empty, added, poller, rfl⟩ := removeChannel_ok h
  refine ⟨rfl, rfl, fun before => ?_, ⟨[], by simp [setChannel], by simp⟩, rfl, rfl, rfl, rfl, rfl, rfl, rfl, rfl⟩
  obtain ⟨poller', ran, consistent, touched⟩ := remove_spec before added empty
  unfold removeChannel at h
  rw [if_neg (by simp [Channel.isNoneEvent, empty])] at h
  split at h
  · cases h
  · simp only [toggle, ran, Except.ok.injEq, setChannel, Ctx.mk.injEq] at h
    obtain ⟨-, -, rfl, -⟩ := h
    exact ⟨consistent, touched⟩

/-! ### What each call does besides -/

def established (x : Ctx) : Ctx := connectionCallback (addConnection (setState x .kConnected))

def closing (x : Ctx) : Ctx := closeCallback (setState x .kDisconnected)

def destroying (x : Ctx) : Ctx := setDestroyed { x with connections := x.connections.erase x.id }

theorem connectEstablished_frame (h : connectEstablished x = .ok x') :
    x.conn.state = .kConnecting ∧ (established x).Frame x' := by
  unfold connectEstablished at h
  split at h
  · rename_i connecting
    obtain ⟨y, toggled, h⟩ := Lib.bind_ok h
    obtain rfl := Except.ok.inj h
    obtain ⟨poller, rfl, consistent⟩ := toggle_events toggled
    refine ⟨connecting, rfl, rfl, fun before => consistent ⟨before.epoll, before.channels, before.added⟩,
      ⟨[], by simp [established, connectionCallback, setChannel, addConnection, tie, setState], by simp⟩,
      rfl, rfl, rfl, rfl, rfl, rfl, rfl, rfl⟩
  · cases h

theorem handleClose_frame (h : handleClose x = .ok x') :
    (x.conn.state = .kConnected ∨ x.conn.state = .kDisconnecting) ∧ (closing x).Frame x' := by
  unfold handleClose at h
  split at h
  · rename_i live
    obtain ⟨y, toggled, h⟩ := Lib.bind_ok h
    obtain rfl := Except.ok.inj h
    obtain ⟨poller, rfl, consistent⟩ := toggle_events toggled
    exact ⟨live, rfl, rfl, consistent, ⟨[], by simp [closing, closeCallback, setChannel, setState], by simp⟩,
      rfl, rfl, rfl, rfl, rfl, rfl, rfl, rfl⟩
  · cases h

theorem handleRead_frame {r : ReadResult} (h : handleRead x r = .ok x') :
    x.Frame x' ∨ ((x.conn.state = .kConnected ∨ x.conn.state = .kDisconnecting) ∧ (closing x).Frame x') := by
  unfold handleRead at h
  split at h
  · obtain rfl := Except.ok.inj h
    exact .inl (.refl _)
  · obtain ⟨⟨n, b⟩, _, h⟩ := Lib.bind_ok h
    dsimp only at h
    split at h
    · obtain rfl := Except.ok.inj h
      exact .inl ((setInputBuffer_frame x b).trans (messageCallback_frame _))
    · obtain ⟨live, closed⟩ := handleClose_frame h
      have moved : (closing x).Frame (closing (setInputBuffer x b)) :=
        frame_of_eq rfl rfl rfl rfl rfl ⟨rfl, rfl, rfl, rfl, rfl⟩ rfl rfl
      exact .inr ⟨live, moved.trans closed⟩

theorem connectDestroyed_down (down : x.conn.state ≠ .kConnected) :
    connectDestroyed x = removeConnection x >>= fun y => removeChannel y >>= fun z => .ok (setDestroyed z) := by
  unfold connectDestroyed
  rw [if_neg down]
  rfl

/-- What `connectDestroyed` does last. -/
theorem removal_ok
    (h : (removeConnection x >>= fun y => removeChannel y >>= fun z => .ok (setDestroyed z)) = .ok x') :
    x.id ∈ x.connections ∧
      ∃ z, removeChannel { x with connections := x.connections.erase x.id } = .ok z ∧ x' = setDestroyed z := by
  obtain ⟨y, erased, rest⟩ := Lib.bind_ok h
  obtain ⟨z, removed, last⟩ := Lib.bind_ok rest
  unfold removeConnection at erased
  split at erased
  · rename_i member
    obtain rfl := Except.ok.inj erased
    exact ⟨member, z, removed, (Except.ok.inj last).symm⟩
  · cases erased

theorem connectDestroyed_frame (down : x.conn.state ≠ .kConnected) (h : connectDestroyed x = .ok x') :
    x.id ∈ x.connections ∧ (destroying x).Frame x' ∧ x.conn.channel.events = Channel.kNoneEvent ∧
      x'.conn.channel.index = .kNew := by
  rw [connectDestroyed_down down] at h
  obtain ⟨member, z, removed, rfl⟩ := removal_ok h
  obtain ⟨empty, _, poller, rfl⟩ := removeChannel_ok removed
  have frame := removeChannel_frame removed
  exact ⟨member, ⟨rfl, rfl, frame.consistent, frame.queued, rfl, rfl, rfl, rfl, rfl, rfl, rfl, rfl⟩, empty, rfl⟩

theorem send_frame {sender : Tid} {arg : SendArg} {r : WriteResult} (h : send x sender arg r = .ok x') :
    (x.conn.state ≠ .kConnected ∧ x' = x) ∨ (x.conn.state = .kConnected ∧
      ∃ outcome, (record (accept x sender arg.message) ⟨sender, arg.message, outcome⟩).Frame x') := by
  unfold send at h
  split at h
  · rename_i connected
    obtain ⟨outcome, frame, _⟩ := sendInLoop_frame h
    exact .inr ⟨connected, outcome, frame⟩
  · rename_i other
    exact .inl ⟨other, (Except.ok.inj h).symm⟩

theorem shutdown_frame (h : shutdown x = .ok x') :
    (x.conn.state ≠ .kConnected ∧ x' = x) ∨
      (x.conn.state = .kConnected ∧ (setState x .kDisconnecting).Frame x') := by
  unfold shutdown at h
  split at h
  · rename_i connected
    exact .inr ⟨connected, shutdownInLoop_frame h⟩
  · rename_i other
    exact .inl ⟨other, (Except.ok.inj h).symm⟩

/-! ### The input buffer -/

theorem toggle_input {op : Poller → ChannelId → Channel → Except Poller.Fault (Channel × Poller)}
    (h : toggle x op = .ok x') : x'.conn.inputBuffer = x.conn.inputBuffer := by
  obtain ⟨channel, poller, _, rfl⟩ := toggle_ok h
  rfl

theorem appendOutput_input {rest : List Byte} (h : appendOutput x rest = .ok x') :
    x'.conn.inputBuffer = x.conn.inputBuffer := by
  obtain ⟨b, _, ⟨_, rfl⟩ | ⟨_, toggled⟩⟩ := fillOutput_ok h
  · rfl
  · have same := toggle_input toggled
    exact same

theorem sendInLoop_input {sender : Tid} {message : Message} {r : WriteResult}
    (h : sendInLoop x sender message r = .ok x') : x'.conn.inputBuffer = x.conn.inputBuffer := by
  unfold sendInLoop at h
  split at h
  · obtain rfl := Except.ok.inj h
    rfl
  · split at h
    · dsimp only at h
      split at h
      · have same := appendOutput_input h
        exact same
      · obtain rfl := Except.ok.inj h
        rfl
    · dsimp only at h
      split at h
      · have same := appendOutput_input h
        exact same
      · obtain rfl := Except.ok.inj h
        rfl

theorem send_input {sender : Tid} {arg : SendArg} {r : WriteResult} (h : send x sender arg r = .ok x') :
    x'.conn.inputBuffer = x.conn.inputBuffer := by
  unfold send at h
  split at h
  · have same := sendInLoop_input h
    exact same
  · obtain rfl := Except.ok.inj h
    rfl

theorem shutdownInLoop_input (h : shutdownInLoop x = .ok x') : x'.conn.inputBuffer = x.conn.inputBuffer := by
  unfold shutdownInLoop at h
  split at h
  · obtain rfl := Except.ok.inj h
    rfl
  · obtain rfl := Except.ok.inj h
    rfl

theorem shutdown_input (h : shutdown x = .ok x') : x'.conn.inputBuffer = x.conn.inputBuffer := by
  unfold shutdown at h
  split at h
  · have same := shutdownInLoop_input h
    exact same
  · obtain rfl := Except.ok.inj h
    rfl

theorem handleWrite_input {r : WriteResult} (h : handleWrite x r = .ok x') :
    x'.conn.inputBuffer = x.conn.inputBuffer := by
  unfold handleWrite at h
  split at h
  · dsimp only at h
    split at h
    · obtain ⟨b, _, h⟩ := Lib.bind_ok h
      split at h
      · obtain ⟨y, toggled, h⟩ := Lib.bind_ok h
        have same := toggle_input toggled
        split at h
        · have rest := shutdownInLoop_input h
          exact rest.trans same
        · obtain rfl := Except.ok.inj h
          exact same
      · obtain rfl := Except.ok.inj h
        rfl
    · obtain rfl := Except.ok.inj h
      rfl
  · obtain rfl := Except.ok.inj h
    rfl

theorem handleClose_input (h : handleClose x = .ok x') : x'.conn.inputBuffer = x.conn.inputBuffer := by
  unfold handleClose at h
  split at h
  · obtain ⟨y, toggled, h⟩ := Lib.bind_ok h
    obtain rfl := Except.ok.inj h
    have same := toggle_input toggled
    exact same
  · cases h

theorem connectEstablished_input (h : connectEstablished x = .ok x') :
    x'.conn.inputBuffer = x.conn.inputBuffer := by
  unfold connectEstablished at h
  split at h
  · obtain ⟨y, toggled, h⟩ := Lib.bind_ok h
    obtain rfl := Except.ok.inj h
    have same := toggle_input toggled
    exact same
  · cases h

/-- What a call does to the state and to the history of the connection. -/
def Call.Effect (x x' : Ctx) : Call → Prop
  | connectEstablished => x.conn.state = .kConnecting ∧ (established x).Frame x'
  | connectDestroyed => x.conn.state ≠ .kConnected → x.id ∈ x.connections ∧ (destroying x).Frame x' ∧
      x.conn.channel.events = Channel.kNoneEvent ∧ x'.conn.channel.index = .kNew
  | send sender arg _ => (x.conn.state ≠ .kConnected ∧ x' = x) ∨ (x.conn.state = .kConnected ∧
      ∃ outcome, (record (accept x sender arg.message) ⟨sender, arg.message, outcome⟩).Frame x')
  | sendInLoop sender message _ => ∃ outcome, (record x ⟨sender, message, outcome⟩).Frame x' ∧
      (x.conn.state = .kDisconnected → x' = record x ⟨sender, message, outcome⟩)
  | shutdown => (x.conn.state ≠ .kConnected ∧ x' = x) ∨
      (x.conn.state = .kConnected ∧ (setState x .kDisconnecting).Frame x')
  | handleClose => (x.conn.state = .kConnected ∨ x.conn.state = .kDisconnecting) ∧ (closing x).Frame x'
  | handleRead _ => x.Frame x' ∨
      ((x.conn.state = .kConnected ∨ x.conn.state = .kDisconnecting) ∧ (closing x).Frame x')
  | shutdownInLoop | startReadInLoop | stopReadInLoop | retrieveInput _ | setHighWaterMarkCallback _ _
  | handleWrite _ => x.Frame x'

theorem run_effect {call : Call} (h : call.run x = .ok x') : call.Effect x x' := by
  cases call with
  | connectEstablished => exact connectEstablished_frame h
  | connectDestroyed => exact fun down => connectDestroyed_frame down h
  | send => exact send_frame h
  | sendInLoop => exact sendInLoop_frame h
  | shutdown => exact shutdown_frame h
  | shutdownInLoop => exact shutdownInLoop_frame h
  | startReadInLoop => exact startReadInLoop_frame h
  | stopReadInLoop => exact stopReadInLoop_frame h
  | retrieveInput => exact retrieveInput_frame h
  | setHighWaterMarkCallback set mark =>
    obtain rfl := Except.ok.inj h
    exact setHighWaterMarkCallback_frame x set mark
  | handleClose => exact handleClose_frame h
  | handleRead => exact handleRead_frame h
  | handleWrite => exact handleWrite_frame h

/-- What every call keeps: only the connection's own descriptor is touched, and only callbacks of the
user are queued. -/
structure Local (x x' : Ctx) : Prop where
  fd : x'.conn.channel.fd = x.conn.channel.fd
  consistent : Consistent x.poller x.id x.conn.channel →
    Consistent x'.poller x.id x'.conn.channel ∧ x.poller.Touches x'.poller x.conn.channel.fd
  queued : ∃ new, x'.queued = x.queued ++ new ∧ ∀ cb ∈ new, cb.IsCallback x.id

theorem Local.refl (x : Ctx) : Local x x := ⟨rfl, (Ctx.Frame.refl x).consistent, (Ctx.Frame.refl x).queued⟩

theorem effect_local {call : Call} (h : call.Effect x x')
    (down : call = .connectDestroyed → x.conn.state ≠ .kConnected) : Local x x' := by
  cases call with
  | connectEstablished => exact ⟨h.2.fd, h.2.consistent, h.2.queued⟩
  | connectDestroyed =>
    obtain ⟨_, frame, _⟩ := h (down rfl)
    exact ⟨frame.fd, frame.consistent, frame.queued⟩
  | send =>
    rcases h with ⟨_, rfl⟩ | ⟨_, _, frame⟩
    · exact .refl _
    · exact ⟨frame.fd, frame.consistent, frame.queued⟩
  | sendInLoop =>
    obtain ⟨_, frame, _⟩ := h
    exact ⟨frame.fd, frame.consistent, frame.queued⟩
  | shutdown =>
    rcases h with ⟨_, rfl⟩ | ⟨_, frame⟩
    · exact .refl _
    · exact ⟨frame.fd, frame.consistent, frame.queued⟩
  | handleClose => exact ⟨h.2.fd, h.2.consistent, h.2.queued⟩
  | handleRead =>
    rcases h with frame | ⟨_, frame⟩
    · exact ⟨frame.fd, frame.consistent, frame.queued⟩
    · exact ⟨frame.fd, frame.consistent, frame.queued⟩
  | shutdownInLoop | startReadInLoop | stopReadInLoop | retrieveInput | setHighWaterMarkCallback | handleWrite =>
    exact ⟨h.fd, h.consistent, h.queued⟩

/-- How a call moves `state_`. -/
inductive Turn (x x' : Ctx) : Prop where
  | stays (state : x'.conn.state = x.conn.state) (closes : x'.conn.closeCalls = x.conn.closeCalls)
      (closed : x'.closed = x.closed)
  | shuts (before : x.conn.state = .kConnected) (after : x'.conn.state = .kDisconnecting)
      (closes : x'.conn.closeCalls = x.conn.closeCalls) (closed : x'.closed = x.closed)
  | closes (before : x.conn.state = .kConnected ∨ x.conn.state = .kDisconnecting)
      (after : x'.conn.state = .kDisconnected) (closes : x'.conn.closeCalls = x.conn.closeCalls + 1)
      (closed : x'.closed = true)

/-- What a call does to the life of a connection that it neither starts nor ends. -/
structure Ordinary (x x' : Ctx) : Prop where
  connectionCalls : x'.conn.connectionCalls = x.conn.connectionCalls
  destroyed : x'.conn.destroyed = x.conn.destroyed
  connections : x'.connections = x.connections
  turn : Turn x x'

theorem ordinary_of_frame (frame : x.Frame x') : Ordinary x x' :=
  ⟨frame.connectionCalls, frame.destroyed, frame.connections, .stays frame.state frame.closeCalls frame.closed⟩

theorem ordinary_of_closing (live : x.conn.state = .kConnected ∨ x.conn.state = .kDisconnecting)
    (frame : (closing x).Frame x') : Ordinary x x' :=
  ⟨frame.connectionCalls, frame.destroyed, frame.connections, .closes live frame.state frame.closeCalls frame.closed⟩

theorem effect_ordinary {call : Call} (h : call.Effect x x') (start : call ≠ .connectEstablished)
    (finish : call ≠ .connectDestroyed) : Ordinary x x' := by
  cases call with
  | connectEstablished => exact absurd rfl start
  | connectDestroyed => exact absurd rfl finish
  | send =>
    rcases h with ⟨_, rfl⟩ | ⟨_, _, frame⟩
    · exact ordinary_of_frame (.refl _)
    · exact ⟨frame.connectionCalls, frame.destroyed, frame.connections,
        .stays frame.state frame.closeCalls frame.closed⟩
  | sendInLoop =>
    obtain ⟨_, frame, _⟩ := h
    exact ⟨frame.connectionCalls, frame.destroyed, frame.connections,
      .stays frame.state frame.closeCalls frame.closed⟩
  | shutdown =>
    rcases h with ⟨_, rfl⟩ | ⟨connected, frame⟩
    · exact ordinary_of_frame (.refl _)
    · exact ⟨frame.connectionCalls, frame.destroyed, frame.connections,
        .shuts connected frame.state frame.closeCalls frame.closed⟩
  | handleClose => exact ordinary_of_closing h.1 h.2
  | handleRead =>
    rcases h with frame | ⟨live, frame⟩
    · exact ordinary_of_frame frame
    · exact ordinary_of_closing live frame
  | shutdownInLoop | startReadInLoop | stopReadInLoop | retrieveInput | setHighWaterMarkCallback | handleWrite =>
    exact ordinary_of_frame h

/-- The messages a call accepts and the runs of `sendInLoop` it makes. -/
def Call.Sends (x x' : Ctx) : Call → Prop
  | send sender arg _ => (x'.conn.accepted = x.conn.accepted ∧ x'.conn.sends = x.conn.sends) ∨
      (x'.conn.accepted = x.conn.accepted ++ [(sender, arg.message)] ∧
        ∃ outcome, x'.conn.sends = x.conn.sends ++ [⟨sender, arg.message, outcome⟩])
  | sendInLoop sender message _ => x'.conn.accepted = x.conn.accepted ∧
      ∃ outcome, x'.conn.sends = x.conn.sends ++ [⟨sender, message, outcome⟩]
  | _ => x'.conn.accepted = x.conn.accepted ∧ x'.conn.sends = x.conn.sends

theorem effect_sends {call : Call} (h : call.Effect x x')
    (down : call = .connectDestroyed → x.conn.state ≠ .kConnected) : call.Sends x x' := by
  cases call with
  | connectEstablished => exact ⟨h.2.accepted, h.2.sends⟩
  | connectDestroyed =>
    obtain ⟨_, frame, _⟩ := h (down rfl)
    exact ⟨frame.accepted, frame.sends⟩
  | send =>
    rcases h with ⟨_, rfl⟩ | ⟨_, outcome, frame⟩
    · exact .inl ⟨rfl, rfl⟩
    · exact .inr ⟨frame.accepted, outcome, frame.sends⟩
  | sendInLoop =>
    obtain ⟨outcome, frame, _⟩ := h
    exact ⟨frame.accepted, outcome, frame.sends⟩
  | shutdown =>
    rcases h with ⟨_, rfl⟩ | ⟨_, frame⟩
    · exact ⟨rfl, rfl⟩
    · exact ⟨frame.accepted, frame.sends⟩
  | handleClose => exact ⟨h.2.accepted, h.2.sends⟩
  | handleRead =>
    rcases h with frame | ⟨_, frame⟩
    · exact ⟨frame.accepted, frame.sends⟩
    · exact ⟨frame.accepted, frame.sends⟩
  | shutdownInLoop | startReadInLoop | stopReadInLoop | retrieveInput | setHighWaterMarkCallback | handleWrite =>
    exact ⟨h.accepted, h.sends⟩

/-! ### `handleClose` -/

/-- `state_` says whether `handleClose` has run, and it has run at most once. -/
def ClosedOnce (conn : TcpConnection) : Prop :=
  conn.closeCalls = if conn.state = .kDisconnected then 1 else 0

theorem ClosedOnce.of_eq {conn conn' : TcpConnection} (h : conn.ClosedOnce)
    (state : conn'.state = conn.state) (closes : conn'.closeCalls = conn.closeCalls) : conn'.ClosedOnce := by
  rw [ClosedOnce, state, closes]
  exact h

theorem ClosedOnce.live {conn : TcpConnection} (h : conn.ClosedOnce)
    (live : conn.state ≠ .kDisconnected) : conn.closeCalls = 0 := h.trans (if_neg live)

theorem ClosedOnce.le_one {conn : TcpConnection} (h : conn.ClosedOnce) : conn.closeCalls ≤ 1 := by
  rw [h]
  split <;> omega

theorem ClosedOnce.down {conn : TcpConnection} (h : conn.ClosedOnce)
    (closed : 0 < conn.closeCalls) : conn.state = .kDisconnected := by
  by_contra live
  rw [h.live live] at closed
  cases closed

theorem established_closedOnce {x x' : Ctx} (fresh : x.conn.closeCalls = 0) (ran : connectEstablished x = .ok x') :
    x'.conn.ClosedOnce := by
  obtain ⟨_, frame⟩ := connectEstablished_frame ran
  have closes : x'.conn.closeCalls = x.conn.closeCalls := frame.closeCalls
  have state : x'.conn.state = .kConnected := frame.state
  rw [ClosedOnce, closes, fresh, state]
  rfl

/-- A call other than `connectEstablished`. -/
theorem run_closedOnce {x x' : Ctx} {call : Call} (start : call ≠ .connectEstablished)
    (connected : call = .connectDestroyed → x.conn.state ≠ .kConnected) (h : x.conn.ClosedOnce)
    (ran : call.run x = .ok x') : x'.conn.ClosedOnce := by
  have effect := run_effect ran
  by_cases finish : call = .connectDestroyed
  · subst finish
    obtain ⟨_, frame, _⟩ := effect (connected rfl)
    exact h.of_eq frame.state frame.closeCalls
  · cases (effect_ordinary effect start finish).turn with
    | stays state closes _ => exact h.of_eq state closes
    | shuts before after closes _ =>
      rw [ClosedOnce, closes, after]
      exact h.live (by simp [before])
    | closes before after closes _ =>
      have live : x.conn.state ≠ .kDisconnected := by
        rcases before with state | state <;> simp [state]
      rw [ClosedOnce, closes, after, h.live live]
      rfl

end TcpConnection

end Dserver.Net
