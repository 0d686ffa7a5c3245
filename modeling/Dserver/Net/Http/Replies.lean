import Dserver.Net.Http.MessageEffect

/-!
# What a connection of the server sends, and what can stop it

The accepted bytes are the replies up to the first one that closes. The assertion of `setMethod` fails
only on data that comes after a request line was refused behind its method.
-/

namespace Dserver.Net

namespace HttpConnection

variable {s s' : HttpConnection} {reply : Reply} {label : Label}

/-! ### Accepted bytes -/

/-- The replies up to and including the first one that closes. -/
def untilClose : List Reply → List Reply
  | [] => []
  | reply :: rest => if reply.closes then [reply] else reply :: untilClose rest

theorem untilClose_open {replies : List Reply} (h : ∀ reply ∈ replies, reply.closes = false) :
    untilClose (replies ++ [reply]) = replies ++ [reply] := by
  induction replies with
  | nil =>
    rw [List.nil_append, untilClose]
    split <;> rfl
  | cons first rest ih =>
    have stays : ¬ first.closes = true := by simp [h first List.mem_cons_self]
    rw [List.cons_append, untilClose, if_neg stays, ih fun reply member => h reply (List.mem_cons_of_mem _ member)]

theorem untilClose_all {replies : List Reply} (h : ∀ reply ∈ replies, reply.closes = false) :
    untilClose replies = replies := by
  induction replies with
  | nil => rfl
  | cons first rest ih =>
    have stays : ¬ first.closes = true := by simp [h first List.mem_cons_self]
    rw [untilClose, if_neg stays, ih fun reply member => h reply (List.mem_cons_of_mem _ member)]

theorem untilClose_closed {replies : List Reply} (h : ∃ reply ∈ replies, reply.closes = true)
    (more : List Reply) : untilClose (replies ++ more) = untilClose replies := by
  induction replies with
  | nil => simp at h
  | cons first rest ih =>
    rw [List.cons_append, untilClose, untilClose]
    by_cases closes : first.closes = true
    · rw [if_pos closes, if_pos closes]
    · rw [if_neg closes, if_neg closes]
      obtain ⟨reply, member, close⟩ := h
      rcases List.mem_cons.mp member with rfl | later
      · exact absurd close closes
      · rw [ih ⟨reply, later, close⟩]

/-- `state_` says whether a closing reply has been made. -/
structure Sent (s : HttpConnection) : Prop where
  connected : s.ctx.conn.state = .kConnected → ∀ reply ∈ s.replies, reply.closes = false
  shut : s.ctx.conn.state = .kDisconnecting → ∃ reply ∈ s.replies, reply.closes = true
  bytes : accepted s.ctx = (untilClose s.replies).flatMap Reply.bytes

theorem replied_sent (h : s.Sent) (live : s.ctx.conn.state = .kConnected ∨ s.ctx.conn.state = .kDisconnecting)
    (replied : Replied s.ctx s'.ctx reply) (replies : s'.replies = s.replies ++ [reply]) : s'.Sent := by
  rcases live with state | state
  · have still := h.connected state
    obtain ⟨sent, after⟩ := replied.connected state
    refine ⟨fun connected => ?_, fun shut => ?_, ?_⟩
    · rw [replies]
      intro other member
      rcases List.mem_append.mp member with old | new
      · exact still other old
      · obtain rfl := List.mem_singleton.mp new
        by_contra closes
        rw [if_pos (by simpa using closes), connected] at after
        cases after
    · refine ⟨reply, by simp [replies], ?_⟩
      by_contra closes
      rw [if_neg closes, shut] at after
      cases after
    · rw [sent, h.bytes, replies, untilClose_open still, untilClose_all still]
      simp
  · have closed := h.shut state
    obtain ⟨sent, after⟩ := replied.other (by simp [state])
    refine ⟨fun connected => ?_, fun _ => ?_, ?_⟩
    · rw [after, state] at connected
      cases connected
    · obtain ⟨first, member, closes⟩ := closed
      exact ⟨first, by rw [replies]; exact List.mem_append_left _ member, closes⟩
    · rw [sent, h.bytes, replies, untilClose_closed closed]

/-- No data is read in a report whose hang-up branch has closed the connection. -/
def ReadsOpen (s : HttpConnection) : Label → Prop
  | .handleRead (.data bytes) _ _ _ => bytes ≠ [] → s.ctx.conn.state ≠ .kDisconnected
  | _ => True

instance (s : HttpConnection) : (label : Label) → Decidable (s.ReadsOpen label)
  | .handleRead (.data _) _ _ _ => inferInstanceAs (Decidable (_ → _))
  | .handleRead (.failed _) _ _ _ | .poll _ | .visit | .handleClose | .handleWrite _ | .skip | .handled
  | .connectDestroyed | .others .. => instDecidableTrue

theorem step_sent (inv : s.Inv) (allowed : s.ReadsOpen label) (h : s.Sent) (step : s.step label = some (.ok s')) :
    s'.Sent := by
  cases step_effect inv.wf step with
  | quiet keeps state =>
    refine ⟨?_, ?_, ?_⟩
    · rw [state, keeps.replies]
      exact h.connected
    · rw [state, keeps.replies]
      exact h.shut
    · rw [keeps.sent, keeps.replies]
      exact h.bytes
  | ended keeps state =>
    refine ⟨fun connected => ?_, fun shut => ?_, ?_⟩
    · rcases state with down | ⟨other, same⟩
      · simp [down] at connected
      · exact absurd (same.symm.trans connected) other
    · rw [keeps.replies]
      rcases state with down | ⟨other, same⟩
      · simp [down] at shut
      · exact h.shut (same.symm.trans shut)
    · rw [keeps.sent, keeps.replies]
      exact h.bytes
  | message chunk ok d read parsed wf calls outcome =>
    have live : s.ctx.conn.state = .kConnected ∨ s.ctx.conn.state = .kDisconnecting := by
      obtain ⟨bytes, t, httpCallback, r, rfl, some⟩ := read
      have open_ := allowed some
      have established := inv.established
      cases state : s.ctx.conn.state with
      | kConnecting => exact absurd state established
      | kConnected => exact .inl rfl
      | kDisconnecting => exact .inr rfl
      | kDisconnected => exact absurd state open_
    cases outcome with
    | refused _ replied replies => exact replied_sent h live replied replies
    | served _ _ _ _ _ replied replies => exact replied_sent h live replied replies
    | waits _ _ state sent replies =>
      refine ⟨?_, ?_, ?_⟩
      · rw [state, replies]
        exact h.connected
      · rw [state, replies]
        exact h.shut
      · rw [sent, replies]
        exact h.bytes

theorem reachable_sent (h : httpConnection.Reachable ReadsOpen s) : s.Sent := by
  refine h.invariant ?_ fun _ _ _ reached before allowed step => step_sent (reachable_inv reached) allowed before step
  intro a init
  obtain ⟨_, state, sent, _, _, replies, _⟩ := initial_inv init
  exact ⟨fun _ => by simp [replies], fun shut => by simp [state] at shut, by rw [sent, replies]; rfl⟩

theorem step_replies (inv : s.Inv) (step : s.step label = some (.ok s')) :
    ∃ more, s'.replies = s.replies ++ more := by
  cases step_effect inv.wf step with
  | quiet keeps _ => exact ⟨[], by rw [keeps.replies, List.append_nil]⟩
  | ended keeps _ => exact ⟨[], by rw [keeps.replies, List.append_nil]⟩
  | message chunk ok d _ parsed wf calls outcome =>
    cases outcome with
    | refused _ _ replies => exact ⟨_, replies⟩
    | waits _ _ _ _ replies => exact ⟨[], by rw [replies, List.append_nil]⟩
    | served _ _ _ _ _ _ replies => exact ⟨_, replies⟩

/-- In a run in which no data is read in a report that has closed the connection, the accepted bytes are the
replies in order, up to and including the first that closes, and once there is one nothing more is accepted. -/
theorem accepted_until_close (h : httpConnection.Reachable ReadsOpen s) :
    accepted s.ctx = (untilClose s.replies).flatMap Reply.bytes ∧
    ((∃ reply ∈ s.replies, reply.closes = true) →
      ∀ s', httpConnection.Steps ReadsOpen s s' → accepted s'.ctx = accepted s.ctx) := by
  have now := (reachable_sent h).bytes
  refine ⟨now, fun closed s' steps => ?_⟩
  have grown : ∃ more, s'.replies = s.replies ++ more := by
    refine steps.invariant (P := fun a => ∃ more, a.replies = s.replies ++ more) h ⟨[], by simp⟩ ?_
    rintro a label b reached ⟨more, before⟩ _ step
    obtain ⟨added, after⟩ := step_replies (reachable_inv reached) step
    exact ⟨more ++ added, by rw [after, before, List.append_assoc]⟩
  obtain ⟨more, after⟩ := grown
  rw [(reachable_sent (h.steps steps)).bytes, after, untilClose_closed closed, now]

/-- A new connection, the only one of its loop. -/
def connecting : Ctx where
  id := 1
  conn := { channel := { fd := 5 } }
  poller := {}
  connections := ∅
  eventHandling := false
  current := none
  active := []

def opened : HttpConnection where
  ctx := match TcpConnection.connectEstablished connecting with
    | .ok ctx => ctx
    | .error _ => connecting
  threadId := 1

theorem opened_init : httpConnection.init opened := ⟨connecting, 5, false, rfl, rfl, rfl⟩

/-- Data that is parsed, answered by what `httpCallback_` is given, and written at once. -/
def reads (text : String) : Label := .handleRead (.data (ascii text)) 0 (fun _ response => response) (.wrote 4096)

/-- A report of the data alone. -/
def receives (text : String) : List Label := [.poll POLLIN, .visit, .skip, reads text, .skip, .handled]

/-- A request that closes, and another one behind it. -/
theorem accepted_until_close_http10 :
    ∃ s, httpConnection.Reachable ReadsOpen s ∧ s.replies.length = 2 ∧
      s.ctx.conn.state = .kDisconnecting ∧
      accepted s.ctx = (untilClose s.replies).flatMap Reply.bytes := by
  obtain ⟨s, reached, replies, state⟩ := Lib.Machine.exec_reaches httpConnection ReadsOpen opened
    (receives "GET /a HTTP/1.0\r\n\r\n" ++ receives "GET /b HTTP/1.1\r\n\r\n")
    (fun s => s.replies.length = 2 ∧ s.ctx.conn.state = .kDisconnecting) opened_init (by decide +kernel)
  exact ⟨s, reached, replies, state, (accepted_until_close reached).1⟩

/-- The peer hangs up with urgent data: `handleClose` runs, and then `handleRead` of the same report. The request
is answered, with no closing reply before it, and nothing of the answer is accepted. -/
theorem reply_after_close :
    ¬ ∀ s, httpConnection.Reachable Lib.Machine.anyStep s →
      accepted s.ctx = (untilClose s.replies).flatMap Reply.bytes := by
  intro claim
  obtain ⟨s, reached, nothing, answered⟩ := Lib.Machine.exec_reaches httpConnection Lib.Machine.anyStep opened
    [.poll (POLLHUP ||| POLLPRI), .visit, .handleClose, reads "GET / HTTP/1.1\r\n\r\n"]
    (fun s => accepted s.ctx = [] ∧ (untilClose s.replies).flatMap Reply.bytes ≠ []) opened_init (by decide +kernel)
  exact answered ((claim s reached).symm.trans nothing)

/-! ### The assertion of `setMethod` -/

theorem onTcp_context {α : Type} {e : Except TcpConnection.Fault α} {fault : HttpContext.Fault} :
    onTcp e ≠ .error (.context fault) := by
  cases e with
  | ok => nofun
  | error => nofun

theorem badRequest_context {r : WriteResult} {fault : HttpContext.Fault} :
    s.badRequest r ≠ .error (.context fault) := by
  intro h
  rcases Lib.bind_error h with sent | ⟨y, _, h⟩
  · exact onTcp_context sent
  · rcases Lib.bind_error h with ended | ⟨z, _, h⟩
    · exact onTcp_context ended
    · cases h

theorem onRequest_context {httpCallback : HttpCallback} {r : WriteResult} {fault : HttpContext.Fault} :
    s.onRequest httpCallback r ≠ .error (.context fault) := by
  intro h
  unfold onRequest at h
  dsimp only at h
  split at h
  · rcases Lib.bind_error h with sent | ⟨y, _, h⟩
    · exact onTcp_context sent
    · rcases Lib.bind_error h with ended | ⟨z, _, h⟩
      · exact onTcp_context ended
      · cases h
  · cases h

theorem onMessage_context {t : Timestamp} {httpCallback : HttpCallback} {r : WriteResult}
    {fault : HttpContext.Fault} (wf : s.ctx.conn.inputBuffer.Wf) :
    s.onMessage t httpCallback r = .error (.context fault) ↔ s.context.untimed.parse s.unread = .error fault := by
  have bytes := HttpContext.parseRequest_parse (c := s.context) wf t
  cases ran : s.context.untimed.parse s.ctx.conn.inputBuffer.readable with
  | error other =>
    rw [ran] at bytes
    have called : s.context.parseRequest s.ctx.conn.inputBuffer t = .error other := bytes
    have stops : s.onMessage t httpCallback r = .error (.context other) := by
      unfold onMessage
      rw [called]
      rfl
    rw [stops, unread, ran]
    simp
  | ok p =>
    obtain ⟨ok, d, rest⟩ := p
    rw [ran] at bytes
    obtain ⟨c, b, called, _⟩ := bytes
    constructor
    · intro h
      unfold onMessage at h
      rw [called, show onContext (.ok (ok, c, b)) = .ok (ok, c, b) from rfl, Lib.ok_bind] at h
      have replied : ∀ middle : HttpConnection, (if middle.context.gotAll then (do
          let s ← middle.onRequest httpCallback r
          .ok { s with context := s.context.reset }) else Except.ok middle) ≠ .error (.context fault) := by
        intro middle h
        split at h
        · rcases Lib.bind_error h with failed | ⟨_, _, h⟩
          · exact absurd failed onRequest_context
          · cases h
        · cases h
      cases ok with
      | true => exact absurd h (replied _)
      | false =>
        rcases Lib.bind_error h with failed | ⟨middle, _, h⟩
        · exact absurd failed badRequest_context
        · exact absurd h (replied middle)
    · intro h
      rw [unread, ran] at h
      cases h

/-- The context holds the method of a request line that was then refused. -/
def refusedMethod (s : HttpConnection) : Prop :=
  s.context.state = .kExpectRequestLine ∧ s.context.request.method ≠ .kInvalid

instance (s : HttpConnection) : Decidable s.refusedMethod := inferInstanceAs (Decidable (_ ∧ _))

/-- No data comes after a request line was refused behind its method. -/
def NotRefused (s : HttpConnection) : Label → Prop
  | .handleRead (.data bytes) _ _ _ => bytes ≠ [] → ¬ s.refusedMethod
  | _ => True

instance (s : HttpConnection) : (label : Label) → Decidable (NotRefused s label)
  | .handleRead (.data _) _ _ _ => inferInstanceAs (Decidable (_ → _))
  | .handleRead (.failed _) _ _ _ | .poll _ | .visit | .handleClose | .handleWrite _ | .skip | .handled
  | .connectDestroyed | .others .. => instDecidableTrue

theorem ready_of_not_refused (inv : s.Inv) (h : ¬ s.refusedMethod) : s.context.untimed.ready := by
  rcases inv.expects with state | state
  · refine .inr ⟨state, ?_⟩
    by_contra method
    exact h ⟨state, method⟩
  · exact .inl state

theorem tcp_handleRead_message {x x' : Ctx} {bytes : List Byte}
    (h : TcpConnection.handleRead { x with message := false } (.data bytes) = .ok x') :
    x'.message = true ↔ bytes ≠ [] := by
  unfold TcpConnection.handleRead at h
  obtain ⟨⟨n, b⟩, read, h⟩ := Lib.bind_ok h
  have some := TcpConnection.readFd_pos (TcpConnection.onBuffer_ok read)
  dsimp only at h
  split at h
  · rename_i pos
    obtain rfl := Except.ok.inj h
    exact iff_of_true rfl (some.mp pos)
  · rename_i zero
    obtain ⟨_, _, _, message⟩ := handleClose_ended h
    exact iff_of_false (by rw [message]; nofun) fun nonempty => zero (some.mpr nonempty)

theorem handleRead_message {result : ReadResult} {t : Timestamp} {httpCallback : HttpCallback}
    {r : WriteResult} {ctx : Ctx} {fault : HttpContext.Fault} (wf : s.ctx.conn.inputBuffer.Wf)
    (read : TcpConnection.handleRead { s.ctx with message := false } result = .ok ctx)
    (message : ctx.message = true) :
    s.handleRead result t httpCallback r = .error (.context fault) ↔
      s.context.untimed.parse (s.unread ++ stored s.ctx.conn.inputBuffer result) = .error fault := by
  obtain ⟨wf', _, ⟨silent, _⟩ | ⟨_, _, _, added⟩⟩ := tcp_handleRead_cases wf read
  · simp [message] at silent
  · have bytes : HttpConnection.unread { s with ctx := { ctx with message := false } } =
        s.unread ++ stored s.ctx.conn.inputBuffer result := added
    have called : HttpConnection.onMessage { s with ctx := { ctx with message := false } } t httpCallback r =
        .error (.context fault) ↔
        s.context.untimed.parse (HttpConnection.unread { s with ctx := { ctx with message := false } }) = .error fault :=
      onMessage_context wf'
    rw [← bytes, ← called]
    unfold handleRead
    rw [read, show onTcp (.ok ctx) = .ok ctx from rfl, Lib.ok_bind, if_pos message]
    constructor
    · intro h
      rcases Lib.bind_error h with failed | ⟨_, _, h⟩
      · exact failed
      · cases h
    · intro failed
      rw [failed]
      rfl

theorem handleRead_context {result : ReadResult} {t : Timestamp} {httpCallback : HttpCallback}
    {r : WriteResult} {fault : HttpContext.Fault} (wf : s.ctx.conn.inputBuffer.Wf)
    (h : s.handleRead result t httpCallback r = .error (.context fault)) :
    ∃ bytes, result = .data bytes ∧ bytes ≠ [] ∧
      s.context.untimed.parse (s.unread ++ stored s.ctx.conn.inputBuffer result) = .error fault := by
  obtain failed | ⟨ctx, read, h'⟩ := Lib.bind_error h
  · exact absurd failed onTcp_context
  · have read := onTcp_ok read
    split at h'
    · rename_i message
      have parsed := (handleRead_message wf read message).mp h
      obtain ⟨_, _, ⟨silent, _⟩ | ⟨_, _, ⟨bytes, same, some⟩, _⟩⟩ := tcp_handleRead_cases wf read
      · simp [message] at silent
      · exact ⟨bytes, same, some, parsed⟩
    · cases h'

theorem step_context {label : Label} {fault : HttpContext.Fault} (wf : s.ctx.conn.inputBuffer.Wf)
    (h : s.step label = some (.error (.context fault))) :
    ∃ bytes t httpCallback r, label = .handleRead (.data bytes) t httpCallback r ∧ bytes ≠ [] ∧
      s.context.untimed.parse (s.unread ++ stored s.ctx.conn.inputBuffer (.data bytes)) = .error fault := by
  have called : ∀ (s : HttpConnection) (c : TcpConnection.Call), s.call c ≠ .error (.context fault) := by
    intro s c failed
    obtain failed | ⟨_, _, failed⟩ := Lib.bind_error failed
    · exact onTcp_context failed
    · cases failed
  cases label with
  | handleRead result t httpCallback r =>
    obtain ⟨bytes, rfl, some, parsed⟩ := handleRead_context (s := { s with stage := some .write }) wf (step_handleRead h).2
    exact ⟨bytes, t, httpCallback, r, rfl, some, parsed⟩
  | handleWrite r => exact absurd (step_handleWrite h).2 (called _ _)
  | handleClose => exact absurd (step_handleClose h).2 (called _ _)
  | connectDestroyed =>
    simp only [step, Option.ite_none_right_eq_some, Option.some.injEq] at h
    exact absurd h.2 (called _ _)
  | poll | visit | handled =>
    simp only [step, Option.ite_none_right_eq_some, Option.some.injEq] at h
    cases h.2
  | skip =>
    simp only [step] at h
    split at h
    · simp only [Option.ite_none_right_eq_some, Option.some.injEq] at h
      cases h.2
    · cases h
  | others => simp [step] at h

theorem ready_parse {fault : HttpContext.Fault} {bytes : List Byte} {c : HttpContext} (h : c.ready) :
    c.parse bytes ≠ .error fault := by
  obtain ⟨_, _, ran, _⟩ | ⟨_, _, _, ran, _⟩ := HttpContext.parse_ready h bytes
  · rw [ran]
    nofun
  · rw [ran]
    nofun

/-- A line that was refused behind its method stays in front of the unread bytes. -/
def Blocked (s : HttpConnection) : Prop :=
  s.refusedMethod → ∃ line rest, Lib.takeLine s.unread = some (line, rest) ∧ 32 ∈ line

theorem Blocked.parse (h : s.Blocked) (refused : s.refusedMethod) (chunk : List Byte) :
    s.context.untimed.parse (s.unread ++ chunk) = .error .setMethod := by
  obtain ⟨line, rest, found, space⟩ := h refused
  exact HttpContext.parse_setMethod (c := s.context.untimed) refused.1 refused.2
    (Lib.takeLine_append chunk found) space

theorem step_blocked (inv : s.Inv) (h : s.Blocked) (step : s.step label = some (.ok s')) : s'.Blocked := by
  cases step_effect inv.wf step with
  | quiet keeps _ =>
    rw [Blocked, refusedMethod, keeps.context, keeps.unread]
    exact h
  | ended keeps _ =>
    rw [Blocked, refusedMethod, keeps.context, keeps.unread]
    exact h
  | message chunk ok d _ parsed wf calls outcome =>
    have fresh : ¬ s.refusedMethod := by
      intro refused
      rw [h.parse refused] at parsed
      cases parsed
    have ready := ready_of_not_refused inv fresh
    rintro ⟨state, method⟩
    cases outcome with
    | refused context _ _ =>
      obtain ⟨wrong, -⟩ | ⟨wrong, -⟩ | ⟨-, same, before, line, rest, found, processed⟩ :=
        HttpContext.parse_cases parsed
      · cases wrong
      · cases wrong
      · have invalid : s.context.untimed.request.method = .kInvalid := by
          by_contra set
          exact fresh ⟨before, set⟩
        refine ⟨line, rest, same ▸ found, HttpContext.processRequestLine_space invalid processed ?_⟩
        rw [← context]
        exact method
    | waits more context _ _ _ =>
      obtain ⟨e, rest, ran, expects, _⟩ | ⟨ok, e, rest, ran, ended, _⟩ :=
        HttpContext.parse_ready ready (s.unread ++ chunk)
      · obtain ⟨-, rfl, -⟩ := Lib.ok_inj_triple (ran.symm.trans parsed)
        rw [← context] at expects
        rcases expects with headers | ⟨_, invalid⟩
        · exact absurd (headers.symm.trans state) (by nofun)
        · exact absurd invalid method
      · obtain ⟨rfl, rfl, -⟩ := Lib.ok_inj_triple (ran.symm.trans parsed)
        simp [more] at ended
    | served _ _ _ _ context _ _ => simp [context] at method

theorem reachable_blocked {guard : HttpConnection → Label → Prop} (h : httpConnection.Reachable guard s) :
    s.Blocked := by
  refine h.invariant ?_ fun _ _ _ reached before _ step => step_blocked (reachable_inv reached) before step
  intro a init refused
  obtain ⟨_, _, _, fresh, _⟩ := initial_inv init
  exact absurd (by rw [fresh]) refused.2

/-- `setMethod` is only entered without a method in a run in which nothing is read after a request line
was refused behind its method; and what is read then always fails the assertion. -/
theorem setMethod_on_fresh_request (h : httpConnection.Reachable NotRefused s) :
    (∀ label, NotRefused s label → s.step label ≠ some (.error (.context .setMethod))) ∧
    (s.refusedMethod → ∀ bytes t httpCallback r ctx, bytes ≠ [] →
      TcpConnection.handleRead { s.ctx with message := false } (.data bytes) = .ok ctx →
      s.handleRead (.data bytes) t httpCallback r = .error (.context .setMethod)) := by
  have inv := reachable_inv h
  refine ⟨fun label allowed failed => ?_, fun refused bytes t httpCallback r ctx some read => ?_⟩
  · obtain ⟨bytes, t, httpCallback, r, rfl, some, parsed⟩ := step_context inv.wf failed
    exact ready_parse (ready_of_not_refused inv (allowed some)) parsed
  · have message := (tcp_handleRead_message read).mpr some
    exact (handleRead_message inv.wf read message).mpr ((reachable_blocked h).parse refused _)

/-- A request, and one that is refused at its version. -/
theorem setMethod_on_fresh_request_refused :
    ∃ s, httpConnection.Reachable NotRefused s ∧ s.replies.length = 2 ∧ s.refusedMethod ∧
      ∀ label, NotRefused s label → s.step label ≠ some (.error (.context .setMethod)) := by
  obtain ⟨s, reached, replies, refused⟩ := Lib.Machine.exec_reaches httpConnection NotRefused opened
    (receives "GET /a HTTP/1.1\r\n\r\n" ++ receives "GET /b HTTP/2.0\r\n")
    (fun s => s.replies.length = 2 ∧ s.refusedMethod) opened_init (by decide +kernel)
  exact ⟨s, reached, replies, refused, (setMethod_on_fresh_request reached).1⟩

/-- The step fails the assertion of `setMethod`. -/
def asserts (s : HttpConnection) (label : Label) : Bool :=
  match s.step label with
  | some (.error (.context .setMethod)) => true
  | _ => false

theorem step_of_asserts (h : s.asserts label = true) : s.step label = some (.error (.context .setMethod)) := by
  unfold asserts at h
  split at h
  · assumption
  · cases h

/-- One byte behind a request line refused at its version. -/
theorem setMethod_after_refusal :
    ¬ ∀ s label, httpConnection.Reachable Lib.Machine.anyStep s →
      s.step label ≠ some (.error (.context .setMethod)) := by
  intro claim
  obtain ⟨s, reached, fails⟩ := Lib.Machine.exec_reaches httpConnection Lib.Machine.anyStep opened
    (receives "GET / HTTP/2.0\r\n" ++ [.poll POLLIN, .visit, .skip]) (fun s => s.asserts (reads "x") = true) opened_init
    (by decide +kernel)
  exact claim s _ reached (step_of_asserts fails)

end HttpConnection

end Dserver.Net
