import Dserver.Net.Dispatch
import Dserver.Net.Http.MessageEffect

/-!
# `HttpServer` on the loop of a `TcpServer`

The connections of one IO loop with their contexts. Their only user is `onMessage`, whose calls are one step with the
read before them. Every run is a run of the `TcpServer`.
-/

namespace Dserver.Net

/-- A connection between two calls of one step: `x` is what the step began with. -/
def Ctx.within (x y : Ctx) : Ctx :=
  { y with
    eventHandling := x.eventHandling
    current := x.current
    active := x.active
    queued := x.queued ++ y.queued
    closed := x.closed
    message := x.message }

namespace TcpConnection

variable {e x x' : Ctx}

theorem toggle_within (e x : Ctx) (op : Poller → ChannelId → Channel → Except Poller.Fault (Channel × Poller)) :
    toggle (e.within x) op = (toggle x op).map e.within := by
  unfold toggle
  dsimp only [Ctx.within]
  cases op x.poller x.id x.conn.channel <;> rfl

theorem queueIf_within (e x : Ctx) (due : Bool) (cb : Functor) :
    queueIf (e.within x) due cb = e.within (queueIf x due cb) := by
  simp only [queueIf, Ctx.within, List.append_assoc]

theorem appendOutput_within (e x : Ctx) (rest : List Byte) :
    appendOutput (e.within x) rest = (appendOutput x rest).map e.within := by
  have noted : notifyHighWaterMark (e.within x) rest.length = e.within (notifyHighWaterMark x rest.length) :=
    queueIf_within e x _ _
  rw [appendOutput, noted, appendOutput]
  generalize notifyHighWaterMark x rest.length = y
  unfold fillOutput
  dsimp only [Ctx.within]
  cases onBuffer (y.conn.outputBuffer.append rest) with
  | error fault => rfl
  | ok outputBuffer =>
    have enabled : ∀ z : Ctx,
        (if (e.within z).conn.channel.isWriting then .ok (e.within z) else toggle (e.within z) Channel.enableWriting) =
          (if z.conn.channel.isWriting then .ok z else toggle z Channel.enableWriting).map e.within := by
      intro z
      by_cases writing : z.conn.channel.isWriting = true
      · rw [if_pos writing, if_pos (show (e.within z).conn.channel.isWriting = true from writing)]
        rfl
      · rw [if_neg writing, if_neg (show ¬(e.within z).conn.channel.isWriting = true from writing)]
        exact toggle_within e z Channel.enableWriting
    exact enabled (setOutputBuffer y outputBuffer)

theorem sendInLoop_within (e x : Ctx) (sender : Tid) (message : Message) (r : WriteResult) :
    sendInLoop (e.within x) sender message r = (sendInLoop x sender message r).map e.within := by
  unfold sendInLoop
  by_cases down : x.conn.state = .kDisconnected
  · rw [if_pos down, if_pos (show (e.within x).conn.state = .kDisconnected from down)]
    rfl
  · rw [if_neg down, if_neg (show ¬(e.within x).conn.state = .kDisconnected from down)]
    by_cases direct : x.conn.channel.isWriting = false ∧ x.conn.outputBuffer.readableBytes = 0
    · rw [if_pos direct, if_pos (show (e.within x).conn.channel.isWriting = false ∧
        (e.within x).conn.outputBuffer.readableBytes = 0 from direct)]
      dsimp only
      split
      · rw [← appendOutput_within, ← queueIf_within]
        rfl
      · have queued := queueIf_within e (syscall (record x ⟨sender, message, .direct r⟩) (.write message.bytes r))
        exact congrArg Except.ok (queued _ _)
    · rw [if_neg direct, if_neg (show ¬((e.within x).conn.channel.isWriting = false ∧
        (e.within x).conn.outputBuffer.readableBytes = 0) from direct)]
      dsimp only
      split
      · rw [← appendOutput_within]
        rfl
      · rfl

theorem send_within (e x : Ctx) (sender : Tid) (arg : SendArg) (r : WriteResult) :
    send (e.within x) sender arg r = (send x sender arg r).map e.within := by
  unfold send
  by_cases connected : x.conn.state = .kConnected
  · rw [if_pos connected, if_pos (show (e.within x).conn.state = .kConnected from connected), ← sendInLoop_within]
    rfl
  · rw [if_neg connected, if_neg (show ¬(e.within x).conn.state = .kConnected from connected)]
    rfl

theorem shutdown_within (e x : Ctx) : shutdown (e.within x) = (shutdown x).map e.within := by
  unfold shutdown
  by_cases connected : x.conn.state = .kConnected
  · rw [if_pos connected, if_pos (show (e.within x).conn.state = .kConnected from connected)]
    unfold shutdownInLoop
    by_cases writing : x.conn.channel.isWriting = true
    · rw [if_pos (show (setState x .kDisconnecting).conn.channel.isWriting = true from writing),
        if_pos (show (setState (e.within x) .kDisconnecting).conn.channel.isWriting = true from writing)]
      rfl
    · rw [if_neg (show ¬(setState x .kDisconnecting).conn.channel.isWriting = true from writing),
        if_neg (show ¬(setState (e.within x) .kDisconnecting).conn.channel.isWriting = true from writing)]
      rfl
  · rw [if_neg connected, if_neg (show ¬(e.within x).conn.state = .kConnected from connected)]
    rfl

theorem retrieveInput_within (e x : Ctx) (len : Nat) :
    retrieveInput (e.within x) len = (retrieveInput x len).map e.within := by
  unfold retrieveInput
  dsimp only [Ctx.within]
  cases onBuffer (x.conn.inputBuffer.retrieve len) <;> rfl

/-- A read that calls `messageCallback_` does nothing else in the loop. -/
theorem handleRead_message {result : ReadResult} (silent : x.message = false)
    (ran : TcpConnection.handleRead x result = .ok x') (message : x'.message = true) :
    ∃ b, x' = TcpConnection.messageCallback (TcpConnection.setInputBuffer x b) := by
  unfold TcpConnection.handleRead at ran
  split at ran
  · obtain rfl := Except.ok.inj ran
    rw [silent] at message
    cases message
  · obtain ⟨⟨n, b⟩, _, ran⟩ := Lib.bind_ok ran
    dsimp only at ran
    split at ran
    · exact ⟨b, (Except.ok.inj ran).symm⟩
    · obtain ⟨_, toggled⟩ := TcpConnection.handleClose_interest ran
      rw [toggled.message] at message
      rw [show (TcpConnection.setInputBuffer x b).message = x.message from rfl, silent] at message
      cases message

/-- The calls of `onMessage`. -/
inductive Answers (t : Tid) (x : Ctx) : Ctx → Prop where
  | refl : Answers t x x
  | retrieve {y z : Ctx} (before : Answers t x y) (len : Nat) (ran : retrieveInput y len = .ok z) : Answers t x z
  | send {y z : Ctx} (before : Answers t x y) (arg : SendArg) (r : WriteResult) (ran : send y t arg r = .ok z) :
      Answers t x z
  | shutdown {y z : Ctx} (before : Answers t x y) (ran : shutdown y = .ok z) : Answers t x z

end TcpConnection

/-! ### What `onMessage` calls -/

namespace HttpContext

theorem parseTurn_buffer {c : HttpContext} {b : Buffer} {receiveTime : Timestamp} {turn : Turn}
    (ran : c.parseTurn b receiveTime = .ok turn) : turn.buffer = b ∨ ∃ len, b.retrieve len = .ok turn.buffer := by
  have until_ : ∀ {last : Nat} {b' : Buffer}, onBuffer (b.retrieveUntil last) = .ok b' →
      ∃ len, b.retrieve len = .ok b' := by
    intro last b' retrieved
    unfold Buffer.retrieveUntil at retrieved
    split at retrieved
    · cases ok : b.retrieve (last - b.readerIndex) with
      | ok b'' =>
        rw [ok] at retrieved
        exact ⟨_, ok.trans (congrArg Except.ok (Except.ok.inj retrieved))⟩
      | error fault =>
        rw [ok] at retrieved
        cases retrieved
    · cases retrieved
  unfold parseTurn at ran
  split at ran
  · split at ran
    · obtain ⟨⟨ok, c'⟩, _, ran⟩ := Lib.bind_ok ran
      dsimp only at ran
      split at ran
      · obtain ⟨b', retrieved, ran⟩ := Lib.bind_ok ran
        obtain rfl := Except.ok.inj ran
        exact .inr (until_ retrieved)
      · obtain rfl := Except.ok.inj ran
        exact .inl rfl
    · obtain rfl := Except.ok.inj ran
      exact .inl rfl
  · split at ran
    · obtain ⟨b', retrieved, ran⟩ := Lib.bind_ok ran
      obtain rfl := Except.ok.inj ran
      exact .inr (until_ retrieved)
    · obtain rfl := Except.ok.inj ran
      exact .inl rfl
  · obtain rfl := Except.ok.inj ran
    exact .inl rfl
  · obtain rfl := Except.ok.inj ran
    exact .inl rfl

theorem parseLoop_answers {t : Tid} {receiveTime : Timestamp} {fuel : Nat} {c c' : HttpContext} {ok : Bool} {x y : Ctx}
    {b : Buffer} (before : TcpConnection.Answers t x y)
    (ran : parseLoop receiveTime fuel c y.conn.inputBuffer = .ok (ok, c', b)) :
    TcpConnection.Answers t x (TcpConnection.setInputBuffer y b) := by
  induction fuel generalizing c y with
  | zero => cases ran
  | succ fuel ih =>
    obtain ⟨turn, turned, ran⟩ := Lib.bind_ok ran
    have after : TcpConnection.Answers t x (TcpConnection.setInputBuffer y turn.buffer) := by
      rcases parseTurn_buffer turned with same | ⟨len, retrieved⟩
      · rw [same]
        exact before
      · refine before.retrieve len ?_
        rw [TcpConnection.retrieveInput, retrieved]
        rfl
    split at ran
    · have rest := ih after ran
      exact rest
    · obtain ⟨rfl, rfl, rfl⟩ := Lib.ok_inj_triple ran
      exact after

end HttpContext

namespace HttpConnection

variable {s s' : HttpConnection} {x : Ctx} {r : WriteResult} {t : Tid}

theorem badRequest_answers (before : TcpConnection.Answers s.threadId x s.ctx) (ran : s.badRequest r = .ok s') :
    TcpConnection.Answers s.threadId x s'.ctx ∧ s' = { s with ctx := s'.ctx, replies := s'.replies } := by
  obtain ⟨y, sent, ran⟩ := Lib.bind_ok ran
  obtain ⟨z, ended, ran⟩ := Lib.bind_ok ran
  obtain rfl := Except.ok.inj ran
  exact ⟨(before.send _ r (onTcp_ok sent)).shutdown (onTcp_ok ended), rfl⟩

theorem onRequest_answers {httpCallback : HttpCallback} (before : TcpConnection.Answers s.threadId x s.ctx)
    (ran : s.onRequest httpCallback r = .ok s') :
    TcpConnection.Answers s.threadId x s'.ctx ∧ s' = { s with ctx := s'.ctx, replies := s'.replies } := by
  unfold onRequest at ran
  dsimp only at ran
  split at ran
  · obtain ⟨y, sent, ran⟩ := Lib.bind_ok ran
    obtain ⟨z, ended, ran⟩ := Lib.bind_ok ran
    obtain rfl := Except.ok.inj ran
    have after := before.send _ r (onTcp_ok sent)
    have ended := onTcp_ok ended
    split at ended
    · exact ⟨after.shutdown ended, rfl⟩
    · obtain rfl := Except.ok.inj ended
      exact ⟨after, rfl⟩
  · cases ran

/-- `onMessage` works on its connection by the calls of a user. -/
theorem onMessage_answers {receiveTime : Timestamp} {httpCallback : HttpCallback}
    (ran : s.onMessage receiveTime httpCallback r = .ok s') :
    TcpConnection.Answers s.threadId s.ctx s'.ctx ∧
      s' = { s with ctx := s'.ctx, context := s'.context, replies := s'.replies } := by
  obtain ⟨⟨ok, context, buf⟩, parsed, -⟩ := Lib.bind_ok ran
  have called := onContext_ok parsed
  obtain ⟨middle, replied, ran⟩ := onMessage_parsed called ran
  have taken := HttpContext.parseLoop_answers (t := s.threadId) .refl called
  have first : TcpConnection.Answers s.threadId s.ctx middle.ctx ∧
      middle = { s with ctx := middle.ctx, context := middle.context, replies := middle.replies } := by
    split at replied
    · obtain rfl := Except.ok.inj replied
      exact ⟨taken, rfl⟩
    · obtain ⟨answers, same⟩ := badRequest_answers taken replied
      rw [same]
      exact ⟨answers, rfl⟩
  obtain ⟨answers, same⟩ := first
  split at ran
  · obtain ⟨last, served, ran⟩ := Lib.bind_ok ran
    obtain rfl := Except.ok.inj ran
    rw [same] at served
    obtain ⟨answers', same'⟩ := onRequest_answers answers served
    rw [same']
    exact ⟨answers', rfl⟩
  · obtain rfl := Except.ok.inj ran
    exact ⟨answers, same⟩

/-- The connection is read from, and if data has come, `onMessage` is called. -/
theorem handleRead_answers {result : ReadResult} {receiveTime : Timestamp} {httpCallback : HttpCallback}
    (silent : s.ctx.message = false) (ran : s.handleRead result receiveTime httpCallback r = .ok s') :
    (∃ x, TcpConnection.handleRead s.ctx result = .ok x ∧
      ((x.message = false ∧ s'.ctx = x) ∨
        ∃ b, x = TcpConnection.messageCallback (TcpConnection.setInputBuffer s.ctx b) ∧
          TcpConnection.Answers s.threadId (TcpConnection.setInputBuffer s.ctx b) s'.ctx)) ∧
    s' = { s with ctx := s'.ctx, context := s'.context, calls := s'.calls, replies := s'.replies } := by
  have same : { s.ctx with message := false } = s.ctx := by rw [← silent]
  obtain ⟨x, read, ran⟩ := Lib.bind_ok ran
  rw [same] at read
  have read := onTcp_ok read
  split at ran
  · rename_i message
    obtain ⟨b, rfl⟩ := TcpConnection.handleRead_message silent read message
    obtain ⟨last, answered, ran⟩ := Lib.bind_ok ran
    obtain rfl := Except.ok.inj ran
    obtain ⟨answers, fields⟩ := onMessage_answers answered
    have plain : { TcpConnection.messageCallback (TcpConnection.setInputBuffer s.ctx b) with message := false } =
        TcpConnection.setInputBuffer s.ctx b := by
      rw [← same]
      rfl
    rw [plain] at answers
    refine ⟨⟨_, read, .inr ⟨b, rfl, answers⟩⟩, ?_⟩
    rw [fields]
  · rename_i none
    obtain rfl := Except.ok.inj ran
    exact ⟨⟨x, read, .inl ⟨by simpa using none, rfl⟩⟩, rfl⟩

end HttpConnection

/-! ### The machine -/

/-- Where `handleEvent` of a connection is; `readCallback_` is running while the loop is in `messageCallback_`. -/
def TcpServer.stage (s : TcpServer) (c : ConnId) : Option Stage :=
  match s.handler with
  | .event d stage => if d = c then some stage else none
  | .message d => if d = c then some .write else none
  | _ => none

structure HttpServer where
  server : TcpServer
  context : ConnId → HttpContext := fun _ => {}
  -- history
  calls : ConnId → List MessageCall := fun _ => []
  replies : ConnId → List Reply := fun _ => []

namespace HttpServer

inductive Fault where
  | server (fault : TcpServer.Fault)
  | connection (c : ConnId) (fault : HttpConnection.Fault)
  deriving DecidableEq

inductive Label where
  | tcp (label : TcpServer.Label)
  -- `readCallback_` in `Channel::handleEvent`, and `onMessage`
  | read (result : ReadResult) (receiveTime : Timestamp) (httpCallback : HttpCallback) (r : WriteResult)

/-- The steps of a user of the connections. -/
def ofUser : TcpServer.Label → Bool
  | .readable _ | .own _ _ | .call _ _ _ | .shutdown _ _ | .setState _ => true
  | _ => false

def connection (s : HttpServer) (c : ConnId) : HttpConnection where
  ctx := s.server.ctx c
  threadId := s.server.loop.threadId
  listed := decide (.connection c ∈ s.server.rest)
  stage := s.server.stage c
  context := s.context c
  calls := s.calls c
  replies := s.replies c

/-- `onConnection` of a new connection. -/
def onConnection (s : HttpServer) : TcpServer.Label → HttpServer
  | .accept c _ => { s with
      context := Function.update s.context c {}
      calls := Function.update s.calls c []
      replies := Function.update s.replies c [] }
  | _ => s

def commit (s : HttpServer) (c : ConnId) (v : HttpConnection) : HttpServer where
  server := s.server.commit c v.ctx
  context := Function.update s.context c v.context
  calls := Function.update s.calls c v.calls
  replies := Function.update s.replies c v.replies

def step (s : HttpServer) : Label → Option (Except Fault HttpServer)
  | .tcp label =>
    if ofUser label then none
    else match s.server.step label with
      | some (.ok server) => some (.ok ({ s with server }.onConnection label))
      | some (.error fault) => some (.error (.server fault))
      | none => none
  | .read result receiveTime httpCallback r =>
    match s.server.handler with
    | .event c .read =>
      let s₁ := { s with server := { s.server with handler := .event c .write } }
      if Stage.reported (s.server.conn c).channel.revents .read then
        if c ∈ s.server.alive then
          match (s₁.connection c).handleRead result receiveTime httpCallback r with
          | .ok v => some (.ok (s₁.commit c v))
          | .error fault => some (.error (.connection c fault))
        else some (.error (.server (.useAfterFree c)))
      else some (.ok s₁)
    | _ => none

end HttpServer

def httpServer : Lib.Machine HttpServer HttpServer.Label HttpServer.Fault where
  init s := tcpServer.init s.server ∧ s = { server := s.server }
  step := HttpServer.step

/-! ### A run of the server -/

namespace TcpServer

variable {s : TcpServer} {c : ConnId} {x y z : Ctx}

/-- No other thread calls a connection. -/
def Alone (_ : TcpServer) : Label → Prop
  | .call _ _ _ | .shutdown _ _ | .setState _ => False
  | _ => True

theorem Alone.onTime (h : tcpServer.Reachable Alone s) : tcpServer.Reachable OnTime s :=
  h.mono fun _ label alone => by cases label <;> trivial

/-- `onMessage` has made some of its calls. -/
def answering (s : TcpServer) (c : ConnId) (x : Ctx) : TcpServer := { s.commit c x with handler := .message c }

/-- The context of a call in the current step. -/
structure Inside (s : TcpServer) (c : ConnId) (x : Ctx) : Prop where
  id : x.id = c
  within : (s.ctx c).within x = x

theorem Inside.next {t : Tid} (h : s.Inside c x) (answers : TcpConnection.Answers t x y) : s.Inside c y := by
  induction answers with
  | refl => exact h
  | @retrieve y z _ len ran ih =>
    have twice := TcpConnection.retrieveInput_within (s.ctx c) y len
    rw [ih.within, ran] at twice
    exact ⟨(TcpConnection.retrieveInput_frame ran).id.trans ih.id, (Except.ok.inj twice).symm⟩
  | @send y z _ arg r ran ih =>
    have twice := TcpConnection.send_within (s.ctx c) y t arg r
    rw [ih.within, ran] at twice
    refine ⟨?_, (Except.ok.inj twice).symm⟩
    rcases TcpConnection.send_frame ran with ⟨_, rfl⟩ | ⟨_, _, frame⟩
    · exact ih.id
    · exact frame.id.trans ih.id
  | @shutdown y z _ ran ih =>
    have twice := TcpConnection.shutdown_within (s.ctx c) y
    rw [ih.within, ran] at twice
    refine ⟨?_, (Except.ok.inj twice).symm⟩
    rcases TcpConnection.shutdown_frame ran with ⟨_, rfl⟩ | ⟨_, frame⟩
    · exact ih.id
    · exact frame.id.trans ih.id

/-- What `queueInLoop` was called with is in the loop already. -/
def settled (x : Ctx) : Ctx := { x with queued := [] }

theorem Inside.fields (h : s.Inside c x) (handler : s.handler = .event c .write) :
    x.eventHandling = s.loop.eventHandling ∧ x.current = some c ∧ x.active = (s.ctx c).active ∧ x.closed = false ∧
      x.message = false := by
  have current : s.current = some c := by rw [TcpServer.current, handler]
  rw [← h.within]
  exact ⟨rfl, current, rfl, rfl, rfl⟩

theorem answering_ctx (h : s.Inside c x) (handler : s.handler = .event c .write) :
    (s.answering c x).ctx c = settled x := by
  obtain ⟨handling, current, active, closed, message⟩ := h.fields handler
  have pushed := queueAll_pushed s.loop x.queued
  have id := h.id
  obtain ⟨id, conn, poller, connections, eventHandling, current, active, queued, closed, message⟩ := x
  dsimp only at *
  subst id handling current active closed message
  simp only [ctx, answering, TcpServer.commit, Function.update_self, settled, pushed.eventHandling, TcpServer.current]

theorem queueAll_append (loop : EventLoop Functor) (cbs cbs' : List Functor) :
    queueAll (queueAll loop cbs) cbs' = queueAll loop (cbs ++ cbs') := List.foldl_append.symm

theorem answering_commit (h : s.Inside c x) (inside : s.Inside c y) (handler : s.handler = .event c .write) :
    (s.answering c x).commit c y = s.answering c (x.within y) := by
  obtain ⟨_, _, _, closed, message⟩ := h.fields handler
  obtain ⟨_, _, _, closed', message'⟩ := inside.fields handler
  simp [answering, TcpServer.commit, Ctx.within, closed, message, closed', message', queueAll_append]

theorem answering_own {call : TcpConnection.Call} (h : s.Inside c x) (inside : s.Inside c y)
    (handler : s.handler = .event c .write) (alive : c ∈ s.alive) (user : call.fromUser s.loop.threadId = true)
    (ran : call.run (settled x) = .ok y) :
    (s.answering c x).step (.own c call) = some (.ok (s.answering c (x.within y))) := by
  have thread : (s.answering c x).loop.threadId = s.loop.threadId := (queueAll_pushed s.loop x.queued).threadId
  have moved : (s.answering c x).control (.own c call) = some (.ok (s.answering c x)) := by
    have code : (s.answering c x).userCode = true := by
      rw [userCode, answering]
      exact Bool.or_true _
    simp only [control, code, thread, user, true_and]
    exact if_pos alive
  rw [step, moved]
  dsimp only [callOf]
  rw [act, if_pos (show c ∈ (s.answering c x).alive from alive), answering_ctx h handler, ran]
  dsimp only
  rw [answering_commit h inside handler]

theorem within_settled (x : Ctx) : x.within (settled x) = x := by
  simp [Ctx.within, settled]

theorem Inside.settled (h : s.Inside c x) : s.Inside c (settled x) := by
  refine ⟨h.id, ?_⟩
  have within := congrArg TcpServer.settled h.within
  exact within

/-- The calls of `onMessage` are those of a user. -/
theorem answering_steps (h : s.Inside c x) (handler : s.handler = .event c .write) (alive : c ∈ s.alive)
    (answers : TcpConnection.Answers s.loop.threadId x y) :
    tcpServer.Steps Alone (s.answering c x) (s.answering c y) := by
  -- what is queued from the start makes no difference to a call
  have own : ∀ {y z : Ctx} (call : TcpConnection.Call), s.Inside c y → call.fromUser s.loop.threadId = true →
      call.run (y.within (TcpServer.settled y)) = (call.run (TcpServer.settled y)).map y.within → call.run y = .ok z →
      (∀ z', call.run (TcpServer.settled y) = .ok z' → s.Inside c z') →
      tcpServer.Next Alone (s.answering c y) (s.answering c z) := by
    intro y z call inside user commutes ran inside'
    rw [within_settled, ran] at commutes
    obtain ⟨z', ran', rfl⟩ := Lib.map_ok commutes.symm
    exact ⟨.own c call, trivial, answering_own inside (inside' z' ran') handler alive user ran'⟩
  induction answers with
  | refl => exact .refl
  | @retrieve y z before len ran ih =>
    have inside := h.next before
    exact ih.tail (own (.retrieveInput len) inside rfl
      (TcpConnection.retrieveInput_within y (TcpServer.settled y) len) ran
      fun _ ran' => inside.settled.next (t := s.loop.threadId) (.retrieve .refl len ran'))
  | @send y z before arg r ran ih =>
    have inside := h.next before
    exact ih.tail (own (.send s.loop.threadId arg r) inside (beq_self_eq_true _)
      (TcpConnection.send_within y (TcpServer.settled y) s.loop.threadId arg r) ran
      fun _ ran' => inside.settled.next (.send .refl arg r ran'))
  | @shutdown y z before ran ih =>
    have inside := h.next before
    exact ih.tail (own .shutdown inside rfl
      (TcpConnection.shutdown_within y (TcpServer.settled y)) ran
      fun _ ran' => inside.settled.next (t := s.loop.threadId) (.shutdown .refl ran'))

end TcpServer

namespace HttpServer

variable {s s' : HttpServer} {c : ConnId}

/-- `handleEvent` makes the callback of its stage, which is one call, or goes on without it. -/
theorem event_step {server : TcpServer} {label : TcpServer.Label} (stage : Stage) (call : TcpConnection.Call)
    (control : server.control label = some (.ok { server with handler := .event c stage.next }))
    (callOf : server.callOf label = if stage.reported (server.conn c).channel.revents then some (c, call) else none) :
    server.step label =
      if stage.reported (server.conn c).channel.revents then
        some ({ server with handler := .event c stage.next }.act c call)
      else some (.ok { server with handler := .event c stage.next }) := by
  rw [TcpServer.step, control]
  dsimp only
  rw [callOf]
  by_cases reported : stage.reported (server.conn c).channel.revents = true
  · rw [if_pos reported, if_pos reported]
  · rw [if_neg reported, if_neg reported]

theorem readable_step {server : TcpServer} (result : ReadResult) (was : server.handler = .event c .read) :
    server.step (.readable result) =
      if Stage.reported (server.conn c).channel.revents .read then
        some ({ server with handler := .event c .write }.act c (.handleRead result))
      else some (.ok { server with handler := .event c .write }) :=
  event_step .read (.handleRead result) (by simp only [TcpServer.control, was]; rfl)
    (by simp only [TcpServer.callOf, was]; rfl)

theorem read_steps {v : HttpConnection} {result : ReadResult} {receiveTime : Timestamp} {httpCallback : HttpCallback}
    {r : WriteResult} (was : s.server.handler = .event c .read)
    (reported : Stage.reported (s.server.conn c).channel.revents .read = true) (alive : c ∈ s.server.alive)
    (ran : (connection { s with server := { s.server with handler := .event c .write } } c).handleRead result receiveTime
      httpCallback r = .ok v) :
    tcpServer.Steps TcpServer.Alone s.server ({ s.server with handler := .event c .write }.commit c v.ctx) := by
  let after : TcpServer := { s.server with handler := .event c .write }
  obtain ⟨⟨x, read, called⟩, _⟩ := HttpConnection.handleRead_answers rfl ran
  have read : TcpConnection.handleRead (after.ctx c) result = .ok x := read
  have stepped := readable_step result was
  rw [if_pos reported, TcpServer.act, if_pos alive, TcpConnection.Call.run, read] at stepped
  have first : tcpServer.Next TcpServer.Alone s.server (after.commit c x) := ⟨.readable result, trivial, stepped⟩
  rcases called with ⟨_, rfl⟩ | ⟨b, rfl, answers⟩
  · exact .single first
  · have inside : after.Inside c (TcpConnection.setInputBuffer (after.ctx c) b) := ⟨rfl, rfl⟩
    refine .head first ((TcpServer.answering_steps inside rfl alive answers).tail ⟨.userReturn, trivial, ?_⟩)
    -- `onMessage` returns to `Channel::handleEvent`
    obtain ⟨_, _, _, _, message⟩ := (inside.next answers).fields rfl
    have back : after.commit c v.ctx = { after.answering c v.ctx with handler := .event c .write } := by
      rw [TcpServer.answering, TcpServer.commit, message]
      rfl
    rw [back]
    rfl

/-- A run of an `HttpServer` is one of its `TcpServer`, without calls from other threads. -/
theorem server_reachable (h : httpServer.Reachable Lib.Machine.anyStep s) :
    tcpServer.Reachable TcpServer.Alone s.server := by
  refine Lib.Machine.Reachable.project (f := HttpServer.server) (fun a (init : httpServer.init a) => init.1)
    (fun a label b _ step => ?_) h
  cases label with
  | tcp label =>
    simp only [httpServer, HttpServer.step] at step
    split at step
    · cases step
    · rename_i foreign
      split at step
      · rename_i server stepped
        obtain rfl := Except.ok.inj (Option.some.inj step)
        refine .single ⟨label, ?_, ?_⟩
        · cases label <;> trivial
        · cases label <;> exact stepped
      · cases step
      · cases step
  | read result receiveTime httpCallback r =>
    simp only [httpServer, HttpServer.step] at step
    split at step
    · rename_i c was
      split at step
      · rename_i reported
        split at step
        · rename_i alive
          split at step
          · rename_i v ran
            obtain rfl := Except.ok.inj (Option.some.inj step)
            exact read_steps was reported alive ran
          · cases step
        · cases step
      · rename_i silent
        obtain rfl := Except.ok.inj (Option.some.inj step)
        exact .single ⟨.readable result, trivial, (readable_step result was).trans (if_neg silent)⟩
    · cases step

end HttpServer

end Dserver.Net
