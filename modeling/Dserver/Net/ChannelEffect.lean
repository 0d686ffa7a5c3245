import Dserver.Net.ConnectionEffect

/-!
# What one call does to the channel

Which calls change the interest of a connection's channel, and which of the assertions of
`handleClose`, `removeConnection` and `removeChannel` a call can fail.
-/

namespace Dserver.Net

variable {x x' x'' : Ctx}

/-- The channel, `reading_` and the handler are as before. -/
structure Ctx.Leaves (x x' : Ctx) : Prop where
  channel : x'.conn.channel = x.conn.channel
  reading : x'.conn.reading = x.conn.reading
  message : x'.message = x.message

structure Ctx.Toggles (change : Events → Events) (x x' : Ctx) : Prop where
  channel : x'.conn.channel = x.conn.channel.toggled change
  message : x'.message = x.message

theorem Ctx.Leaves.refl (x : Ctx) : x.Leaves x := ⟨rfl, rfl, rfl⟩

theorem Ctx.Leaves.toggles {change : Events → Events} (first : x.Leaves x') (second : Ctx.Toggles change x' x'') :
    Ctx.Toggles change x x'' :=
  ⟨by rw [second.channel, first.channel], second.message.trans first.message⟩

namespace Channel

variable {ch : Channel} {change : Events → Events}

theorem toggled_index_ne : (ch.toggled change).index ≠ .kNew := by
  simp only [toggled]
  split <;> simp

theorem toggled_none_index (added : ch.index = .kAdded) : (ch.toggled fun _ => kNoneEvent).index = .kDeleted := by
  simp [toggled, added]

end Channel

namespace TcpConnection

theorem toggle_toggles {change : Events → Events} (h : toggle x (Channel.toggle change) = .ok x') :
    Ctx.Toggles change x x' := by
  obtain ⟨poller, rfl, _⟩ := toggle_events h
  exact ⟨rfl, rfl⟩

theorem appendOutput_interest {rest : List Byte} (h : appendOutput x rest = .ok x') :
    x.Leaves x' ∨ Ctx.Toggles (· ||| Channel.kWriteEvent) x x' := by
  obtain ⟨b, _, ended⟩ := fillOutput_ok h
  rcases ended with ⟨_, rfl⟩ | ⟨_, toggled⟩
  · exact .inl ⟨rfl, rfl, rfl⟩
  · obtain ⟨channel, message⟩ := toggle_toggles toggled
    exact .inr ⟨channel, message⟩

theorem sendInLoop_interest {sender : Tid} {message : Message} {r : WriteResult}
    (h : sendInLoop x sender message r = .ok x') :
    x.Leaves x' ∨ (x.conn.state ≠ .kDisconnected ∧ Ctx.Toggles (· ||| Channel.kWriteEvent) x x') := by
  unfold sendInLoop at h
  split at h
  · obtain rfl := Except.ok.inj h
    exact .inl ⟨rfl, rfl, rfl⟩
  · rename_i live
    have appended : ∀ {y rest}, appendOutput y rest = .ok x' → x.Leaves y →
        x.Leaves x' ∨ (x.conn.state ≠ .kDisconnected ∧ Ctx.Toggles (· ||| Channel.kWriteEvent) x x') := by
      intro y rest ran first
      rcases appendOutput_interest ran with same | toggled
      · exact .inl ⟨same.channel.trans first.channel, same.reading.trans first.reading,
          same.message.trans first.message⟩
      · exact .inr ⟨live, first.toggles toggled⟩
    split at h
    · dsimp only at h
      split at h
      · exact appended h ⟨rfl, rfl, rfl⟩
      · obtain rfl := Except.ok.inj h
        exact .inl ⟨rfl, rfl, rfl⟩
    · dsimp only at h
      split at h
      · exact appended h ⟨rfl, rfl, rfl⟩
      · obtain rfl := Except.ok.inj h
        exact .inl ⟨rfl, rfl, rfl⟩

theorem shutdownInLoop_leaves (h : shutdownInLoop x = .ok x') : x.Leaves x' := by
  unfold shutdownInLoop at h
  split at h
  · obtain rfl := Except.ok.inj h
    exact ⟨rfl, rfl, rfl⟩
  · obtain rfl := Except.ok.inj h
    exact ⟨rfl, rfl, rfl⟩

theorem handleClose_interest (h : handleClose x = .ok x') :
    x.conn.state ≠ .kDisconnected ∧ Ctx.Toggles (fun _ => Channel.kNoneEvent) x x' := by
  unfold handleClose at h
  split at h
  · rename_i open'
    have live : x.conn.state ≠ .kDisconnected := by
      rcases open' with state | state <;> simp [state]
    obtain ⟨y, toggled, h⟩ := Lib.bind_ok h
    obtain rfl := Except.ok.inj h
    obtain ⟨channel, message⟩ := toggle_toggles toggled
    exact ⟨live, channel, message⟩
  · cases h

theorem handleWrite_interest {r : WriteResult} (h : handleWrite x r = .ok x') :
    x.Leaves x' ∨ (x.conn.channel.isWriting = true ∧ Ctx.Toggles (· &&& ~~~Channel.kWriteEvent) x x') := by
  unfold handleWrite at h
  split at h
  · rename_i writing
    dsimp only at h
    split at h
    · obtain ⟨b, _, h⟩ := Lib.bind_ok h
      split at h
      · obtain ⟨y, toggled, h⟩ := Lib.bind_ok h
        obtain ⟨channel, message⟩ := toggle_toggles toggled
        right
        refine ⟨writing, ?_⟩
        split at h
        · have rest := shutdownInLoop_leaves h
          exact ⟨rest.channel.trans channel, rest.message.trans message⟩
        · obtain rfl := Except.ok.inj h
          exact ⟨channel, message⟩
      · obtain rfl := Except.ok.inj h
        exact .inl ⟨rfl, rfl, rfl⟩
    · obtain rfl := Except.ok.inj h
      exact .inl ⟨rfl, rfl, rfl⟩
  · obtain rfl := Except.ok.inj h
    exact .inl ⟨rfl, rfl, rfl⟩

-- `readv` is offered at least one byte, so it returns 0 only at the end of the stream.
theorem readFd_pos {b b' : Buffer} {bytes : List Byte} {n : Nat} (h : b.readFd bytes = .ok (n, b')) :
    0 < n ↔ bytes ≠ [] := by
  have offer : 0 < b.readOffer := by
    unfold Buffer.readOffer
    split <;> omega
  have count : n = (bytes.take b.readOffer).length := by
    unfold Buffer.readFd at h
    dsimp only at h
    split at h
    · exact (Prod.mk.inj (Except.ok.inj h)).1.symm
    · obtain ⟨_, _, h⟩ := Lib.bind_ok h
      exact (Prod.mk.inj (Except.ok.inj h)).1.symm
  rw [count, List.length_take, ← List.length_pos_iff]
  omega

theorem handleRead_interest {r : ReadResult} (h : handleRead x r = .ok x') :
    (r ≠ .data [] ∧ x'.conn.channel = x.conn.channel ∧ x'.conn.state = x.conn.state) ∨
      (r = .data [] ∧ x.conn.state ≠ .kDisconnected ∧ Ctx.Toggles (fun _ => Channel.kNoneEvent) x x') := by
  unfold handleRead at h
  split at h
  · obtain rfl := Except.ok.inj h
    exact .inl ⟨nofun, rfl, rfl⟩
  · rename_i bytes
    obtain ⟨⟨n, b⟩, read, h⟩ := Lib.bind_ok h
    have some := readFd_pos (onBuffer_ok read)
    dsimp only at h
    split at h
    · rename_i pos
      obtain rfl := Except.ok.inj h
      exact .inl ⟨by simpa using some.mp pos, rfl, rfl⟩
    · rename_i zero
      have empty : bytes = [] := by simpa [zero] using some
      obtain ⟨live, channel, message⟩ := handleClose_interest h
      exact .inr ⟨by rw [empty], live, channel, message⟩

/-- What a call does to the channel of its connection. -/
def Call.Interest (x x' : Ctx) : Call → Prop
  | connectEstablished => x'.message = x.message ∧
      x'.conn.channel = Channel.toggled (· ||| Channel.kReadEvent) { x.conn.channel with tied := true }
  | connectDestroyed => x.conn.state ≠ .kConnected → x'.message = x.message ∧
      x'.conn.channel = { x.conn.channel with addedToLoop := false, index := .kNew }
  | send _ _ _ | sendInLoop _ _ _ =>
      x.Leaves x' ∨ (x.conn.state ≠ .kDisconnected ∧ Ctx.Toggles (· ||| Channel.kWriteEvent) x x')
  | startReadInLoop => x.Leaves x' ∨ Ctx.Toggles (· ||| Channel.kReadEvent) x x'
  | stopReadInLoop => x.Leaves x' ∨ ((x.conn.reading = false → x.conn.channel.isReading = true) ∧
      Ctx.Toggles (· &&& ~~~Channel.kReadEvent) x x')
  | handleClose => x.conn.state ≠ .kDisconnected ∧ Ctx.Toggles (fun _ => Channel.kNoneEvent) x x'
  | handleRead r => (r ≠ .data [] ∧ x'.conn.channel = x.conn.channel ∧ x'.conn.state = x.conn.state) ∨
      (r = .data [] ∧ x.conn.state ≠ .kDisconnected ∧ Ctx.Toggles (fun _ => Channel.kNoneEvent) x x')
  | handleWrite _ => x.Leaves x' ∨
      (x.conn.channel.isWriting = true ∧ Ctx.Toggles (· &&& ~~~Channel.kWriteEvent) x x')
  | shutdown | shutdownInLoop | retrieveInput _ | setHighWaterMarkCallback _ _ => x.Leaves x'

theorem connectDestroyed_interest (down : x.conn.state ≠ .kConnected) (h : connectDestroyed x = .ok x') :
    x'.message = x.message ∧ x'.conn.channel = { x.conn.channel with addedToLoop := false, index := .kNew } := by
  rw [connectDestroyed_down down] at h
  obtain ⟨_, z, removed, rfl⟩ := removal_ok h
  obtain ⟨_, _, poller, rfl⟩ := removeChannel_ok removed
  exact ⟨rfl, rfl⟩

theorem connectEstablished_interest (h : connectEstablished x = .ok x') : x'.message = x.message ∧
    x'.conn.channel = Channel.toggled (· ||| Channel.kReadEvent) { x.conn.channel with tied := true } := by
  unfold connectEstablished at h
  split at h
  · obtain ⟨y, toggled, h⟩ := Lib.bind_ok h
    obtain rfl := Except.ok.inj h
    obtain ⟨channel, message⟩ := toggle_toggles toggled
    exact ⟨message, channel⟩
  · cases h

theorem send_interest {sender : Tid} {arg : SendArg} {r : WriteResult} (h : send x sender arg r = .ok x') :
    x.Leaves x' ∨ (x.conn.state ≠ .kDisconnected ∧ Ctx.Toggles (· ||| Channel.kWriteEvent) x x') := by
  unfold send at h
  split at h
  · rcases sendInLoop_interest h with same | ⟨live, toggled⟩
    · exact .inl ⟨same.channel, same.reading, same.message⟩
    · exact .inr ⟨live, toggled.channel, toggled.message⟩
  · obtain rfl := Except.ok.inj h
    exact .inl (.refl _)

theorem shutdown_leaves (h : shutdown x = .ok x') : x.Leaves x' := by
  unfold shutdown at h
  split at h
  · obtain ⟨channel, reading, message⟩ := shutdownInLoop_leaves h
    exact ⟨channel, reading, message⟩
  · obtain rfl := Except.ok.inj h
    exact .refl _

theorem startReadInLoop_interest (h : startReadInLoop x = .ok x') :
    x.Leaves x' ∨ Ctx.Toggles (· ||| Channel.kReadEvent) x x' := by
  unfold startReadInLoop at h
  split at h
  · obtain ⟨y, toggled, h⟩ := Lib.bind_ok h
    obtain rfl := Except.ok.inj h
    obtain ⟨channel, message⟩ := toggle_toggles toggled
    exact .inr ⟨channel, message⟩
  · obtain rfl := Except.ok.inj h
    exact .inl (.refl _)

theorem stopReadInLoop_interest (h : stopReadInLoop x = .ok x') : x.Leaves x' ∨
    ((x.conn.reading = false → x.conn.channel.isReading = true) ∧
      Ctx.Toggles (· &&& ~~~Channel.kReadEvent) x x') := by
  unfold stopReadInLoop at h
  split at h
  · rename_i on
    obtain ⟨y, toggled, h⟩ := Lib.bind_ok h
    obtain rfl := Except.ok.inj h
    obtain ⟨channel, message⟩ := toggle_toggles toggled
    exact .inr ⟨fun off => by simpa [off] using on, channel, message⟩
  · obtain rfl := Except.ok.inj h
    exact .inl (.refl _)

theorem run_interest {call : Call} (h : call.run x = .ok x') : call.Interest x x' := by
  cases call with
  | connectEstablished => exact connectEstablished_interest h
  | connectDestroyed => exact fun down => connectDestroyed_interest down h
  | send => exact send_interest h
  | sendInLoop => exact sendInLoop_interest h
  | shutdown => exact shutdown_leaves h
  | shutdownInLoop => exact shutdownInLoop_leaves h
  | startReadInLoop => exact startReadInLoop_interest h
  | stopReadInLoop => exact stopReadInLoop_interest h
  | retrieveInput len =>
    obtain ⟨b, _, h⟩ := Lib.bind_ok h
    obtain rfl := Except.ok.inj h
    exact ⟨rfl, rfl, rfl⟩
  | setHighWaterMarkCallback set mark =>
    obtain rfl := Except.ok.inj h
    exact ⟨rfl, rfl, rfl⟩
  | handleClose => exact handleClose_interest h
  | handleRead => exact handleRead_interest h
  | handleWrite => exact handleWrite_interest h

/-! ### Failed assertions -/

/-- A fault of a buffer or of the poller. -/
def Fault.foreign : Fault → Bool
  | buffer _ | poller _ => true
  | _ => false

theorem toggle_foreign {op : Poller → ChannelId → Channel → Except Poller.Fault (Channel × Poller)}
    {fault : Fault} (h : toggle x op = .error fault) : fault.foreign = true := by
  unfold toggle at h
  split at h
  · cases h
  · obtain rfl := Except.error.inj h
    rfl

theorem onBuffer_foreign {α : Type} {e : Except Buffer.Fault α} {fault : Fault}
    (h : onBuffer e = .error fault) : fault.foreign = true := by
  cases e with
  | ok a => cases h
  | error other =>
    obtain rfl := Except.error.inj h
    rfl

theorem appendOutput_foreign {rest : List Byte} {fault : Fault} (h : appendOutput x rest = .error fault) :
    fault.foreign = true := by
  unfold appendOutput fillOutput at h
  rcases Lib.bind_error h with failed | ⟨b, _, h⟩
  · exact onBuffer_foreign failed
  · dsimp only at h
    split at h
    · cases h
    · exact toggle_foreign h

theorem sendInLoop_foreign {sender : Tid} {message : Message} {r : WriteResult} {fault : Fault}
    (h : sendInLoop x sender message r = .error fault) : fault.foreign = true := by
  unfold sendInLoop at h
  split at h
  · cases h
  · split at h
    · dsimp only at h
      split at h
      · exact appendOutput_foreign h
      · cases h
    · dsimp only at h
      split at h
      · exact appendOutput_foreign h
      · cases h

theorem shutdownInLoop_total {fault : Fault} : shutdownInLoop x ≠ .error fault := by
  unfold shutdownInLoop
  split <;> simp

theorem handleWrite_foreign {r : WriteResult} {fault : Fault} (h : handleWrite x r = .error fault) :
    fault.foreign = true := by
  unfold handleWrite at h
  split at h
  · dsimp only at h
    split at h
    · rcases Lib.bind_error h with failed | ⟨b, _, h⟩
      · exact onBuffer_foreign failed
      · split at h
        · rcases Lib.bind_error h with failed | ⟨y, _, h⟩
          · exact toggle_foreign failed
          · split at h
            · exact absurd h shutdownInLoop_total
            · cases h
        · cases h
    · cases h
  · cases h

theorem handleClose_fault {fault : Fault} (h : handleClose x = .error fault) :
    fault.foreign = true ∨ (fault = .handleClose ∧ x.conn.state ≠ .kConnected ∧ x.conn.state ≠ .kDisconnecting) := by
  unfold handleClose at h
  split at h
  · rcases Lib.bind_error h with failed | ⟨y, _, h⟩
    · exact .inl (toggle_foreign failed)
    · cases h
  · rename_i down
    obtain rfl := Except.error.inj h
    exact .inr ⟨rfl, not_or.mp down⟩

theorem handleRead_fault {r : ReadResult} {fault : Fault} (h : handleRead x r = .error fault) :
    fault.foreign = true ∨ (fault = .handleClose ∧ r = .data [] ∧
      x.conn.state ≠ .kConnected ∧ x.conn.state ≠ .kDisconnecting) := by
  unfold handleRead at h
  split at h
  · cases h
  · rename_i bytes
    rcases Lib.bind_error h with failed | ⟨⟨n, b⟩, read, h⟩
    · exact .inl (onBuffer_foreign failed)
    · dsimp only at h
      split at h
      · cases h
      · rename_i zero
        have empty : bytes = [] := by simpa [zero] using readFd_pos (onBuffer_ok read)
        rcases handleClose_fault h with foreign | ⟨rfl, down⟩
        · exact .inl foreign
        · exact .inr ⟨rfl, by rw [empty], down⟩

theorem connectDestroyed_fault {fault : Fault} (down : x.conn.state ≠ .kConnected) (member : x.id ∈ x.connections)
    (functor : x.eventHandling = false) (h : connectDestroyed x = .error fault) : fault.foreign = true := by
  rw [connectDestroyed_down down, removeConnection, if_pos member] at h
  rcases Lib.bind_error h with failed | ⟨y, erased, h⟩
  · cases failed
  · obtain rfl := Except.ok.inj erased
    rcases Lib.bind_error h with failed | ⟨z, _, h⟩
    · unfold removeChannel at failed
      split at failed
      · obtain rfl := Except.error.inj failed
        rfl
      · rw [if_neg (fun both => by simp [functor] at both)] at failed
        exact toggle_foreign failed
    · cases h

theorem run_fault {call : Call} {fault : Fault} (start : call ≠ .connectEstablished)
    (destroyed : call = .connectDestroyed → x.conn.state ≠ .kConnected ∧ x.id ∈ x.connections ∧
      x.eventHandling = false) (h : call.run x = .error fault) :
    fault.foreign = true ∨ (fault = .handleClose ∧ (call = .handleClose ∨ call = .handleRead (.data [])) ∧
      x.conn.state ≠ .kConnected ∧ x.conn.state ≠ .kDisconnecting) := by
  cases call with
  | connectEstablished => exact absurd rfl start
  | connectDestroyed =>
    obtain ⟨down, member, functor⟩ := destroyed rfl
    exact .inl (connectDestroyed_fault down member functor h)
  | send sender arg r =>
    left
    simp only [Call.run, send] at h
    split at h
    · exact sendInLoop_foreign h
    · cases h
  | sendInLoop => exact .inl (sendInLoop_foreign h)
  | shutdown =>
    simp only [Call.run, shutdown] at h
    split at h
    · exact absurd h shutdownInLoop_total
    · cases h
  | shutdownInLoop => exact absurd h shutdownInLoop_total
  | startReadInLoop | stopReadInLoop =>
    left
    simp only [Call.run, startReadInLoop, stopReadInLoop] at h
    split at h
    · rcases Lib.bind_error h with failed | ⟨y, _, h⟩
      · exact toggle_foreign failed
      · cases h
    · cases h
  | retrieveInput len =>
    left
    rcases Lib.bind_error h with failed | ⟨b, _, h⟩
    · exact onBuffer_foreign failed
    · cases h
  | setHighWaterMarkCallback set mark => cases h
  | handleClose =>
    rcases handleClose_fault h with foreign | ⟨rfl, down⟩
    · exact .inl foreign
    · exact .inr ⟨rfl, .inl rfl, down⟩
  | handleRead r =>
    rcases handleRead_fault h with foreign | ⟨rfl, rfl, down⟩
    · exact .inl foreign
    · exact .inr ⟨rfl, .inr rfl, down⟩
  | handleWrite => exact .inl (handleWrite_foreign h)

end TcpConnection

end Dserver.Net
