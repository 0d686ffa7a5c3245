import Dserver.Net.Http.HttpServer

/-!
# What a message does

`Replied` is what a reply does to the connection; `onMessage_cases` says which bytes a call of
`onMessage` parses and which reply, if any, it makes; `Effect` says it of every step.
-/

namespace Dserver.Net

namespace HttpConnection

variable {s s' : HttpConnection} {x x' : Ctx} {reply : Reply} {r : WriteResult}

theorem onTcp_ok {α : Type} {e : Except TcpConnection.Fault α} {a : α} (h : onTcp e = .ok a) : e = .ok a := by
  cases e with
  | ok b => exact congrArg Except.ok (Except.ok.inj h)
  | error fault => cases h

theorem onContext_ok {α : Type} {e : Except HttpContext.Fault α} {a : α} (h : onContext e = .ok a) :
    e = .ok a := by
  cases e with
  | ok b => exact congrArg Except.ok (Except.ok.inj h)
  | error fault => cases h

/-- The bytes that `send` has accepted. -/
def accepted (x : Ctx) : List Byte := x.conn.accepted.flatMap fun sent => sent.2.bytes

/-- What a reply does to its connection: while it is connected the bytes are accepted, and a reply that
closes ends that; later nothing happens. -/
structure Replied (x x' : Ctx) (reply : Reply) : Prop where
  connected : x.conn.state = .kConnected → accepted x' = accepted x ++ reply.bytes ∧
    x'.conn.state = if reply.closes then .kDisconnecting else .kConnected
  other : x.conn.state ≠ .kConnected → accepted x' = accepted x ∧ x'.conn.state = x.conn.state

theorem replied (reply : Reply) {sender : Tid} {arg : SendArg} {y : Ctx} (bytes : arg.message.bytes = reply.bytes)
    (sent : TcpConnection.send x sender arg r = .ok y)
    (ended : (if reply.closes then TcpConnection.shutdown y else .ok y) = .ok x') :
    Replied x x' reply ∧ x'.conn.inputBuffer = x.conn.inputBuffer := by
  have input := TcpConnection.send_input sent
  cases closes : reply.closes with
  | false =>
    rw [closes] at ended
    obtain rfl : y = x' := Except.ok.inj ended
    refine ⟨?_, input⟩
    rcases TcpConnection.send_frame sent with ⟨other, rfl⟩ | ⟨connected, outcome, frame⟩
    · exact ⟨fun connected => absurd connected other, fun _ => ⟨rfl, rfl⟩⟩
    · refine ⟨fun _ => ⟨?_, ?_⟩, fun other => absurd connected other⟩
      · rw [accepted, frame.accepted, ← bytes]
        simp [TcpConnection.record, TcpConnection.accept, accepted]
      · have still : y.conn.state = .kConnected := frame.state.trans connected
        simpa [closes] using still
  | true =>
    rw [closes] at ended
    have ended : TcpConnection.shutdown y = .ok x' := ended
    refine ⟨?_, (TcpConnection.shutdown_input ended).trans input⟩
    rcases TcpConnection.send_frame sent with ⟨other, rfl⟩ | ⟨connected, outcome, frame⟩
    · rcases TcpConnection.shutdown_frame ended with ⟨_, rfl⟩ | ⟨connected, _⟩
      · exact ⟨fun connected => absurd connected other, fun _ => ⟨rfl, rfl⟩⟩
      · exact absurd connected other
    · have still : y.conn.state = .kConnected := frame.state.trans connected
      rcases TcpConnection.shutdown_frame ended with ⟨other, _⟩ | ⟨_, closing⟩
      · exact absurd still other
      · refine ⟨fun _ => ⟨?_, ?_⟩, fun other => absurd connected other⟩
        · rw [accepted, closing.accepted, ← bytes]
          show (y.conn.accepted.flatMap _) = _
          rw [frame.accepted]
          simp [TcpConnection.record, TcpConnection.accept, accepted]
        · rw [closing.state]
          simp [TcpConnection.setState, closes]

/-- A reply is all that happened. -/
def Replies (s s' : HttpConnection) (reply : Reply) : Prop :=
  Replied s.ctx s'.ctx reply ∧ s'.ctx.conn.inputBuffer = s.ctx.conn.inputBuffer ∧
    s' = { s with ctx := s'.ctx, replies := s.replies ++ [reply] }

theorem badRequest_replies (h : s.badRequest r = .ok s') : s.Replies s' .badRequest := by
  obtain ⟨y, sent, h⟩ := Lib.bind_ok h
  obtain ⟨z, ended, h⟩ := Lib.bind_ok h
  obtain rfl := Except.ok.inj h
  obtain ⟨effect, input⟩ := replied .badRequest rfl (onTcp_ok sent) (onTcp_ok ended)
  exact ⟨effect, input, rfl⟩

theorem sendResponse_replies {req : HttpRequest} {response : HttpResponse} {arg : SendArg}
    (h : s.sendResponse req response arg r = .ok s') (bytes : arg.message.bytes = response.text) :
    s.Replies s' (.response req response) := by
  obtain ⟨y, sent, h⟩ := Lib.bind_ok h
  obtain ⟨z, ended, h⟩ := Lib.bind_ok h
  obtain rfl := Except.ok.inj h
  obtain ⟨effect, input⟩ := replied (.response req response) bytes (onTcp_ok sent) (onTcp_ok ended)
  exact ⟨effect, input, rfl⟩

theorem onRequest_replies {httpCallback : HttpCallback} (h : s.onRequest httpCallback r = .ok s') :
    ∃ response, s.Replies s' (.response s.context.request response) := by
  unfold onRequest at h
  dsimp only at h
  split at h
  · rename_i buf filled
    exact ⟨_, sendResponse_replies h (HttpResponse.appendToBuffer_text _ filled).2⟩
  · cases h

/-- What the parse of the unread bytes makes `onMessage` do. -/
inductive Outcome (s s' : HttpConnection) : Bool → HttpContext → Prop where
  | refused {d : HttpContext} (context : s'.context.untimed = d)
      (replied : Replied s.ctx s'.ctx .badRequest) (replies : s'.replies = s.replies ++ [.badRequest]) :
      Outcome s s' false d
  | waits {d : HttpContext} (more : d.gotAll = false) (context : s'.context.untimed = d)
      (state : s'.ctx.conn.state = s.ctx.conn.state) (sent : accepted s'.ctx = accepted s.ctx)
      (replies : s'.replies = s.replies) : Outcome s s' true d
  | served {d : HttpContext} (req : HttpRequest) (response : HttpResponse) (all : d.gotAll = true)
      (request : req.setReceiveTime 0 = d.request) (context : s'.context = {})
      (replied : Replied s.ctx s'.ctx (.response req response))
      (replies : s'.replies = s.replies ++ [.response req response]) : Outcome s s' true d

theorem onMessage_parsed {ok : Bool} {context : HttpContext} {buf : Buffer} {t : Timestamp}
    {httpCallback : HttpCallback} (called : s.context.parseRequest s.ctx.conn.inputBuffer t = .ok (ok, context, buf))
    (h : s.onMessage t httpCallback r = .ok s') :
    let parsed : HttpConnection := { s with ctx := TcpConnection.setInputBuffer s.ctx buf, context }
    ∃ middle, (if ok then Except.ok parsed else parsed.badRequest r) = .ok middle ∧
      (if middle.context.gotAll then (do
          let s ← middle.onRequest httpCallback r
          .ok { s with context := s.context.reset }) else Except.ok middle) = .ok s' := by
  unfold onMessage at h
  rw [called] at h
  rw [show onContext (.ok (ok, context, buf)) = .ok (ok, context, buf) from rfl, Lib.ok_bind] at h
  cases ok with
  | false => exact Lib.bind_ok h
  | true => exact Lib.bind_ok h

theorem onMessage_cases {t : Timestamp} {httpCallback : HttpCallback} (wf : s.ctx.conn.inputBuffer.Wf)
    (h : s.onMessage t httpCallback r = .ok s') :
    ∃ ok d, s.context.untimed.parse s.unread = .ok (ok, d, s'.unread) ∧ s'.ctx.conn.inputBuffer.Wf ∧
      s'.calls = s.calls ∧ Outcome s s' ok d := by
  obtain ⟨⟨ok, context, buf⟩, parsed, -⟩ := Lib.bind_ok h
  have called := onContext_ok parsed
  obtain ⟨middle, replied, h⟩ := onMessage_parsed called h
  have bytes := HttpContext.parseRequest_parse (c := s.context) wf t
  rw [called] at bytes
  cases ran : s.context.untimed.parse s.ctx.conn.inputBuffer.readable with
  | error fault =>
    rw [ran] at bytes
    cases bytes
  | ok p =>
    obtain ⟨ok', d, rest⟩ := p
    rw [ran] at bytes
    obtain ⟨c', b', eq, same, wf', left, _⟩ := bytes
    obtain ⟨rfl, rfl, rfl⟩ := Lib.ok_inj_triple eq
    refine ⟨ok, d, ?_⟩
    cases ok with
    | false =>
      obtain ⟨effect, input, eq⟩ := badRequest_replies replied
      have state : context.state = .kExpectRequestLine := by
        rw [← HttpContext.untimed_state, same]
        exact HttpContext.parse_refused_state ran
      have more : middle.context.gotAll = false := by
        rw [eq]
        simp [HttpContext.gotAll, state]
      rw [if_neg (by simp [more])] at h
      obtain rfl := Except.ok.inj h
      rw [unread, unread, input]
      refine ⟨ran.trans (by rw [← left]; rfl), wf', by rw [eq], .refused (by rw [eq]; exact same) ?_ (by rw [eq])⟩
      exact ⟨effect.connected, effect.other⟩
    | true =>
      obtain rfl := Except.ok.inj replied
      cases all : context.gotAll with
      | false =>
        rw [if_neg (by simp [all])] at h
        obtain rfl := Except.ok.inj h
        refine ⟨ran.trans (by rw [← left]; rfl), wf', rfl, .waits ?_ same rfl rfl rfl⟩
        rw [← same]
        exact all
      | true =>
        rw [if_pos (by simp [all])] at h
        obtain ⟨last, served, h⟩ := Lib.bind_ok h
        obtain rfl := Except.ok.inj h
        obtain ⟨response, effect, input, eq⟩ := onRequest_replies served
        have input : last.ctx.conn.inputBuffer = buf := input
        refine ⟨?_, ?_, ?_, .served context.request response ?_ ?_ rfl
          ⟨effect.connected, effect.other⟩ (by rw [eq])⟩
        · rw [unread, unread]
          simp only [input, left]
          exact ran
        · simp only [input]
          exact wf'
        · rw [eq]
        · rw [← same]
          exact all
        · rw [← same]
          rfl

theorem Outcome.of_eq {ctx : Ctx} {ok : Bool} {d : HttpContext} (h : Outcome { s with ctx } s' ok d)
    (state : ctx.conn.state = s.ctx.conn.state) (sent : accepted ctx = accepted s.ctx) : Outcome s s' ok d := by
  have moved : ∀ {reply}, Replied ctx s'.ctx reply → Replied s.ctx s'.ctx reply := by
    intro reply replied
    refine ⟨fun connected => ?_, fun other => ?_⟩
    · rw [← sent]
      exact replied.connected (state.trans connected)
    · rw [← sent, ← state]
      exact replied.other (by rwa [state])
  cases h with
  | refused context replied replies => exact .refused context (moved replied) replies
  | waits more context state' sent' replies =>
    exact .waits more context (state'.trans state) (sent'.trans sent) replies
  | served req response all request context replied replies =>
    exact .served req response all request context (moved replied) replies

/-- Nothing of the server is touched. -/
structure Keeps (s s' : HttpConnection) : Prop where
  wf : s.ctx.conn.inputBuffer.Wf → s'.ctx.conn.inputBuffer.Wf
  unread : s'.unread = s.unread
  context : s'.context = s.context
  calls : s'.calls = s.calls
  replies : s'.replies = s.replies
  sent : accepted s'.ctx = accepted s.ctx

/-- What a step can do. -/
inductive Effect (s s' : HttpConnection) (label : Label) : Prop where
  | quiet (keeps : s.Keeps s') (state : s'.ctx.conn.state = s.ctx.conn.state)
  | ended (keeps : s.Keeps s') (state : s'.ctx.conn.state = .kDisconnected ∨
      (s.ctx.conn.state ≠ .kConnected ∧ s'.ctx.conn.state = s.ctx.conn.state))
  | message (chunk : List Byte) (ok : Bool) (d : HttpContext)
      (read : ∃ bytes t httpCallback r, label = .handleRead (.data bytes) t httpCallback r ∧ bytes ≠ [])
      (parsed : s.context.untimed.parse (s.unread ++ chunk) = .ok (ok, d, s'.unread))
      (wf : s'.ctx.conn.inputBuffer.Wf)
      (calls : s'.calls = s.calls ++ [⟨chunk, s'.connected, s'.unread⟩])
      (outcome : Outcome s s' ok d)

theorem handleClose_ended (h : TcpConnection.handleClose x = .ok x') :
    x'.conn.inputBuffer = x.conn.inputBuffer ∧ accepted x' = accepted x ∧
      x'.conn.state = .kDisconnected ∧ x'.message = x.message := by
  obtain ⟨_, frame⟩ := TcpConnection.handleClose_frame h
  obtain ⟨_, toggled⟩ := TcpConnection.handleClose_interest h
  refine ⟨TcpConnection.handleClose_input h, ?_, frame.state, toggled.message⟩
  rw [accepted, frame.accepted]
  rfl

theorem tcp_handleRead_cases {result : ReadResult} (wf : x.conn.inputBuffer.Wf)
    (h : TcpConnection.handleRead { x with message := false } result = .ok x') :
    x'.conn.inputBuffer.Wf ∧ accepted x' = accepted x ∧
    ((x'.message = false ∧ x'.conn.inputBuffer.readable = x.conn.inputBuffer.readable ∧
      (x'.conn.state = x.conn.state ∨ x'.conn.state = .kDisconnected)) ∨
    (x'.message = true ∧ x'.conn.state = x.conn.state ∧ (∃ bytes, result = .data bytes ∧ bytes ≠ []) ∧
      x'.conn.inputBuffer.readable = x.conn.inputBuffer.readable ++ stored x.conn.inputBuffer result)) := by
  unfold TcpConnection.handleRead at h
  split at h
  · obtain rfl := Except.ok.inj h
    exact ⟨wf, rfl, .inl ⟨rfl, rfl, .inl rfl⟩⟩
  · rename_i bytes
    obtain ⟨⟨n, b⟩, read, h⟩ := Lib.bind_ok h
    have read := TcpConnection.onBuffer_ok read
    obtain ⟨wf', added⟩ := Buffer.readFd_spec wf read
    have some := TcpConnection.readFd_pos read
    dsimp only at h
    split at h
    · rename_i positive
      obtain rfl := Except.ok.inj h
      exact ⟨wf', rfl, .inr ⟨rfl, rfl, ⟨bytes, rfl, some.mp positive⟩, added⟩⟩
    · rename_i none
      have empty : bytes = [] := by simpa [none] using some
      rw [empty, List.take_nil, List.append_nil] at added
      obtain ⟨input, sent, state, message⟩ := handleClose_ended h
      exact ⟨by rw [input]; exact wf', sent, .inl ⟨message, by rw [input]; exact added, .inr state⟩⟩

theorem handleRead_effect {result : ReadResult} {t : Timestamp} {httpCallback : HttpCallback}
    (wf : s.ctx.conn.inputBuffer.Wf) (h : s.handleRead result t httpCallback r = .ok s') :
    s.Effect s' (.handleRead result t httpCallback r) := by
  obtain ⟨ctx, read, h⟩ := Lib.bind_ok h
  obtain ⟨wf', sent, ⟨silent, same, moved⟩ | ⟨message, state, ⟨data, same, some⟩, added⟩⟩ :=
    tcp_handleRead_cases wf (onTcp_ok read)
  · rw [if_neg (by simp [silent])] at h
    obtain rfl := Except.ok.inj h
    have keeps : s.Keeps { s with ctx } := ⟨fun _ => wf', same, rfl, rfl, rfl, sent⟩
    rcases moved with state | state
    · exact .quiet keeps state
    · exact .ended keeps (.inl state)
  · rw [if_pos message] at h
    obtain ⟨last, ran, h⟩ := Lib.bind_ok h
    obtain rfl := Except.ok.inj h
    obtain ⟨ok, d, parsed, wf'', calls, outcome⟩ :=
      onMessage_cases (s := { s with ctx := { ctx with message := false } }) wf' ran
    have bytes : HttpConnection.unread { s with ctx := { ctx with message := false } } =
        s.unread ++ stored s.ctx.conn.inputBuffer result := added
    rw [bytes] at parsed
    refine .message _ ok d ⟨data, t, httpCallback, r, by rw [same], some⟩ parsed wf'' (by rw [calls]; rfl) ?_
    have outcome : Outcome s last ok d := outcome.of_eq state sent
    cases outcome with
    | refused context replied replies => exact .refused context replied replies
    | waits more context state' sent' replies => exact .waits more context state' sent' replies
    | served req response all request context replied replies =>
      exact .served req response all request context replied replies

theorem connectDestroyed_ended (h : TcpConnection.connectDestroyed x = .ok x') :
    x'.conn.inputBuffer = x.conn.inputBuffer ∧ accepted x' = accepted x ∧
      (x'.conn.state = .kDisconnected ∨ (x.conn.state ≠ .kConnected ∧ x'.conn.state = x.conn.state)) := by
  have rest : ∀ {y}, TcpConnection.removeConnection y >>= (fun y => do
      let y ← TcpConnection.removeChannel y
      .ok (TcpConnection.setDestroyed y)) = .ok x' →
      x'.conn.inputBuffer = y.conn.inputBuffer ∧ x'.conn.accepted = y.conn.accepted ∧
        x'.conn.state = y.conn.state := by
    intro y h
    obtain ⟨_, z, removed, rfl⟩ := TcpConnection.removal_ok h
    obtain ⟨_, _, poller, rfl⟩ := TcpConnection.removeChannel_ok removed
    exact ⟨rfl, rfl, rfl⟩
  unfold TcpConnection.connectDestroyed at h
  split at h
  · obtain ⟨y, toggled, h⟩ := Lib.bind_ok h
    obtain ⟨input, sent, state⟩ := rest h
    obtain ⟨channel, poller, _, rfl⟩ := TcpConnection.toggle_ok toggled
    exact ⟨input, by rw [accepted, sent]; rfl, .inl state⟩
  · rename_i other
    obtain ⟨input, sent, state⟩ := rest h
    exact ⟨input, by rw [accepted, sent, accepted], .inr ⟨other, state⟩⟩

theorem callback_some {stage : Stage} {run : HttpConnection → Except Fault HttpConnection}
    {result : Except Fault HttpConnection} (h : s.callback stage run = some result) :
    s.stage = some stage ∧ run { s with stage := some stage.next } = result := by
  obtain ⟨⟨at_, _⟩, ran⟩ := Option.ite_none_right_eq_some.mp h
  exact ⟨at_, Option.some.inj ran⟩

theorem step_handleClose {result : Except Fault HttpConnection} (h : s.step .handleClose = some result) :
    s.stage = some .close ∧ call { s with stage := some .read } .handleClose = result := by
  simp only [step] at h
  exact callback_some h

theorem step_handleRead {read : ReadResult} {t : Timestamp} {httpCallback : HttpCallback}
    {result : Except Fault HttpConnection} (h : s.step (.handleRead read t httpCallback r) = some result) :
    s.stage = some .read ∧ handleRead { s with stage := some .write } read t httpCallback r = result := by
  simp only [step] at h
  exact callback_some h

theorem step_handleWrite {result : Except Fault HttpConnection} (h : s.step (.handleWrite r) = some result) :
    s.stage = some .write ∧ call { s with stage := some .done } (.handleWrite r) = result := by
  simp only [step] at h
  exact callback_some h

/-- Only the flags of the channel and where its `handleEvent` is change. -/
theorem moved_quiet {label : Label} (buffer : s'.ctx.conn.inputBuffer = s.ctx.conn.inputBuffer)
    (state : s'.ctx.conn.state = s.ctx.conn.state) (sent : s'.ctx.conn.accepted = s.ctx.conn.accepted)
    (context : s'.context = s.context) (calls : s'.calls = s.calls) (replies : s'.replies = s.replies) :
    s.Effect s' label := by
  refine .quiet ⟨fun wf => buffer ▸ wf, ?_, context, calls, replies, ?_⟩ state
  · rw [unread, buffer, ← unread]
  · rw [accepted, sent, ← accepted]

theorem step_effect {label : Label} (wf : s.ctx.conn.inputBuffer.Wf) (h : s.step label = some (.ok s')) :
    s.Effect s' label := by
  cases label with
  | poll | visit | handled =>
    simp only [step, Option.ite_none_right_eq_some, Option.some.injEq, Except.ok.injEq] at h
    obtain ⟨_, rfl⟩ := h
    exact moved_quiet rfl rfl rfl rfl rfl rfl
  | skip =>
    simp only [step] at h
    split at h
    · simp only [Option.ite_none_right_eq_some, Option.some.injEq, Except.ok.injEq] at h
      obtain ⟨_, rfl⟩ := h
      exact moved_quiet rfl rfl rfl rfl rfl rfl
    · cases h
  | handleClose =>
    obtain ⟨ctx, closed, same⟩ := Lib.bind_ok (step_handleClose h).2
    obtain rfl := Except.ok.inj same
    obtain ⟨input, sent, state, _⟩ := handleClose_ended (onTcp_ok closed)
    exact .ended ⟨fun _ => by simpa only [input] using wf, by simp only [unread, input], rfl, rfl, rfl, sent⟩
      (.inl state)
  | handleRead result t httpCallback r =>
    cases handleRead_effect (s := { s with stage := some .write }) wf (step_handleRead h).2 with
    | quiet keeps state =>
      exact .quiet ⟨keeps.wf, keeps.unread, keeps.context, keeps.calls, keeps.replies, keeps.sent⟩ state
    | ended keeps state =>
      exact .ended ⟨keeps.wf, keeps.unread, keeps.context, keeps.calls, keeps.replies, keeps.sent⟩ state
    | message chunk ok d read parsed wf' calls outcome =>
      refine .message chunk ok d read parsed wf' calls ?_
      cases outcome with
      | refused context replied replies => exact .refused context replied replies
      | waits more context state sent replies => exact .waits more context state sent replies
      | served req response all request context replied replies =>
        exact .served req response all request context replied replies
  | handleWrite r =>
    obtain ⟨ctx, written, same⟩ := Lib.bind_ok (step_handleWrite h).2
    obtain rfl := Except.ok.inj same
    have ran : TcpConnection.handleWrite s.ctx r = .ok ctx := onTcp_ok written
    have frame := TcpConnection.handleWrite_frame ran
    exact moved_quiet (TcpConnection.handleWrite_input ran) frame.state frame.accepted rfl rfl rfl
  | connectDestroyed =>
    simp only [step, Option.ite_none_right_eq_some, Option.some.injEq] at h
    obtain ⟨ctx, ran, h⟩ := Lib.bind_ok h.2
    obtain rfl := Except.ok.inj h
    obtain ⟨input, sent, state⟩ := connectDestroyed_ended (onTcp_ok ran)
    exact .ended ⟨fun _ => by simpa only [input] using wf, by simp only [unread, input], rfl, rfl, rfl, sent⟩ state
  | others =>
    simp only [step, Option.some.injEq, Except.ok.injEq] at h
    obtain rfl := h
    exact moved_quiet rfl rfl rfl rfl rfl rfl

/-! ### Invariants of every run -/

structure Inv (s : HttpConnection) : Prop where
  wf : s.ctx.conn.inputBuffer.Wf
  expects : s.context.expects
  established : s.ctx.conn.state ≠ .kConnecting

theorem initial_inv (h : httpConnection.init s) :
    s.Inv ∧ s.ctx.conn.state = .kConnected ∧ accepted s.ctx = [] ∧ s.context = {} ∧ s.calls = [] ∧
      s.replies = [] ∧ s.unread = [] := by
  obtain ⟨start, fd, set, fresh, established, eq⟩ := h
  obtain ⟨_, frame⟩ := TcpConnection.connectEstablished_frame established
  have input : s.ctx.conn.inputBuffer = Buffer.make Buffer.kInitialSize := by
    rw [TcpConnection.connectEstablished_input established, fresh]
  have state : s.ctx.conn.state = .kConnected := frame.state
  refine ⟨⟨?_, ?_, by simp [state]⟩, state, ?_, by rw [eq], by rw [eq], by rw [eq], ?_⟩
  · rw [input]
    exact Buffer.make_wf (by decide)
  · rw [eq]
    exact .inl rfl
  · rw [accepted, frame.accepted]
    show start.conn.accepted.flatMap _ = []
    rw [fresh]
    rfl
  · rw [unread, input, Buffer.make_readable]

theorem Outcome.state_cases {ok : Bool} {d : HttpContext} (h : Outcome s s' ok d) :
    s'.ctx.conn.state = s.ctx.conn.state ∨
      (s.ctx.conn.state = .kConnected ∧ s'.ctx.conn.state = .kDisconnecting) := by
  have replied : ∀ {reply}, Replied s.ctx s'.ctx reply → s'.ctx.conn.state = s.ctx.conn.state ∨
      (s.ctx.conn.state = .kConnected ∧ s'.ctx.conn.state = .kDisconnecting) := by
    intro reply replied
    by_cases connected : s.ctx.conn.state = .kConnected
    · have after := (replied.connected connected).2
      split at after
      · exact .inr ⟨connected, after⟩
      · exact .inl (after.trans connected.symm)
    · exact .inl (replied.other connected).2
  cases h with
  | refused _ effect _ => exact replied effect
  | waits _ _ state _ _ => exact .inl state
  | served _ _ _ _ _ effect _ => exact replied effect

theorem step_inv {label : Label} (h : s.Inv) (step : s.step label = some (.ok s')) : s'.Inv := by
  cases step_effect h.wf step with
  | quiet keeps state =>
    exact ⟨keeps.wf h.wf, by rw [keeps.context]; exact h.expects, by rw [state]; exact h.established⟩
  | ended keeps state =>
    refine ⟨keeps.wf h.wf, by rw [keeps.context]; exact h.expects, ?_⟩
    rcases state with down | ⟨_, same⟩
    · simp [down]
    · rw [same]
      exact h.established
  | message chunk ok d _ parsed wf calls outcome =>
    refine ⟨wf, ?_, ?_⟩
    · cases outcome with
      | refused context _ _ =>
        have state := HttpContext.parse_refused_state parsed
        rw [← context] at state
        exact .inl state
      | waits more context _ _ _ =>
        obtain ⟨_, expects, _⟩ | ⟨_, all⟩ | ⟨wrong, _⟩ := HttpContext.parse_cases parsed
        · rw [← context] at expects
          exact expects
        · simp [more] at all
        · cases wrong
      | served _ _ _ _ context _ _ =>
        rw [context]
        exact .inl rfl
    · rcases outcome.state_cases with same | ⟨_, shut⟩
      · rw [same]
        exact h.established
      · simp [shut]

theorem reachable_inv {guard : HttpConnection → Label → Prop} (h : httpConnection.Reachable guard s) : s.Inv :=
  h.invariant (fun _ init => (initial_inv init).1) fun _ _ _ _ inv _ step => step_inv inv step

end HttpConnection

end Dserver.Net
