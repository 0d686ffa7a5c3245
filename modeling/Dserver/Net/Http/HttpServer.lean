import Dserver.Net.ChannelEffect
import Dserver.Net.TcpServer
import Dserver.Net.Http.ParseBytes

/-!
# `HttpServer` on one connection

The connection with its `HttpContext`, from the first `connectionCallback_` on. `httpCallback_` is any
function, and need not be the same one at each call. `Channel::handleEvent` makes its callbacks one after the
other, each a step. What other connections do to the loop and its poller in between is a step of its own.
-/

namespace Dserver.Net

inductive HttpStatusCode where
  | kUnknown | k200Ok | k301MovedPermanently | k400BadRequest | k404NotFound
  deriving DecidableEq, Repr

def HttpStatusCode.value : HttpStatusCode → Nat
  | kUnknown => 0
  | k200Ok => 200
  | k301MovedPermanently => 301
  | k400BadRequest => 400
  | k404NotFound => 404

/-- Its strings are as long as a `std::string` can be. -/
structure HttpResponse where
  headers : HeaderMap
  statusCode : HttpStatusCode
  statusMessage : List Byte
  closeConnection : Bool
  body : List Byte
  headers_fit : ∀ e ∈ headers.entries, e.1.length ≤ maxSize ∧ e.2.length ≤ maxSize
  statusMessage_fits : statusMessage.length ≤ maxSize
  body_fits : body.length ≤ maxSize

namespace HttpResponse

def construct (close : Bool) : HttpResponse where
  headers := .empty
  statusCode := .kUnknown
  statusMessage := []
  closeConnection := close
  body := []
  headers_fit := by simp [Lib.OrderedMap.empty]
  statusMessage_fits := by simp
  body_fits := by simp

/-- What `append(const char*)` takes of a string. -/
def c_str (s : List Byte) : List Byte := s.takeWhile (· != 0)

/-- `%d` or `%zd` of a number that is not negative. -/
def decimal (n : Nat) : List Byte := (Nat.toDigits 10 n).map fun c => UInt8.ofNat c.toNat

/-- `snprintf` into `buf`, which keeps 31 bytes. -/
def snprintf (text : List Byte) : List Byte := text.take 31

/-- The arguments of the calls of `append` in `appendToBuffer`, in order. -/
def pieces (r : HttpResponse) : List (List Byte) :=
  [snprintf (ascii "HTTP/1.1 " ++ decimal r.statusCode.value ++ ascii " "), c_str r.statusMessage,
    ascii "\r\n"] ++
  (if r.closeConnection then [ascii "Connection: close\r\n"]
    else [snprintf (ascii "Content-Length: " ++ decimal r.body.length ++ ascii "\r\n"),
      ascii "Connection: Keep-Alive\r\n"]) ++
  r.headers.entries.flatMap (fun header => [c_str header.1, ascii ": ", c_str header.2, ascii "\r\n"]) ++
  [ascii "\r\n", c_str r.body]

def appendToBuffer (r : HttpResponse) (output : Buffer) : Except Buffer.Fault Buffer :=
  r.pieces.foldlM Buffer.append output

/-- The bytes that `appendToBuffer` adds. -/
def text (r : HttpResponse) : List Byte := r.pieces.flatten

theorem c_str_length (s : List Byte) : (c_str s).length ≤ s.length :=
  (List.takeWhile_prefix _).length_le

theorem snprintf_length (s : List Byte) : (snprintf s).length ≤ 31 := List.length_take_le _ _

theorem pieces_fit (r : HttpResponse) : ∀ piece ∈ r.pieces, piece.length ≤ maxSize := by
  have constant : ∀ s : List Byte, s.length ≤ 31 → s.length ≤ maxSize := fun s small =>
    Nat.le_trans small (by decide)
  intro piece member
  simp only [pieces, List.mem_append, List.mem_cons, List.not_mem_nil, or_false, List.mem_flatMap] at member
  rcases member with ((first | middle) | ⟨header, inside, one⟩) | last
  · rcases first with rfl | rfl | rfl
    · exact constant _ (snprintf_length _)
    · exact Nat.le_trans (c_str_length _) r.statusMessage_fits
    · exact constant _ (by decide)
  · split at middle
    · obtain rfl := List.mem_singleton.mp middle
      exact constant _ (by decide)
    · rcases List.mem_cons.mp middle with rfl | last
      · exact constant _ (snprintf_length _)
      · obtain rfl := List.mem_singleton.mp last
        exact constant _ (by decide)
  · obtain ⟨key, value⟩ := r.headers_fit header inside
    rcases one with rfl | rfl | rfl | rfl
    · exact Nat.le_trans (c_str_length _) key
    · exact constant _ (by decide)
    · exact Nat.le_trans (c_str_length _) value
    · exact constant _ (by decide)
  · rcases last with rfl | rfl
    · exact constant _ (by decide)
    · exact Nat.le_trans (c_str_length _) r.body_fits

theorem foldlM_append {pieces : List (List Byte)} {output output' : Buffer} (wf : output.Wf)
    (fit : ∀ piece ∈ pieces, piece.length ≤ maxSize)
    (ran : pieces.foldlM Buffer.append output = .ok output') :
    output'.Wf ∧ output'.readable = output.readable ++ pieces.flatten := by
  induction pieces generalizing output with
  | nil =>
    obtain rfl := Except.ok.inj ran
    exact ⟨wf, by simp⟩
  | cons piece rest ih =>
    rw [List.foldlM_cons] at ran
    obtain ⟨middle, appended, ran⟩ := Lib.bind_ok ran
    obtain failed | ⟨middle', ok, wf', added⟩ := Buffer.append_spec wf (fit piece List.mem_cons_self)
    · rw [failed] at appended
      cases appended
    · obtain rfl := Except.ok.inj (ok.symm.trans appended)
      obtain ⟨last, all⟩ := ih wf' (fun piece member => fit piece (List.mem_cons_of_mem _ member)) ran
      exact ⟨last, by rw [all, added, List.flatten_cons, List.append_assoc]⟩

theorem appendToBuffer_text (r : HttpResponse) {output : Buffer}
    (ran : r.appendToBuffer (Buffer.make Buffer.kInitialSize) = .ok output) :
    output.Wf ∧ output.readable = r.text := by
  obtain ⟨wf, all⟩ := foldlM_append (Buffer.make_wf (by decide)) r.pieces_fit ran
  exact ⟨wf, by rw [all, Buffer.make_readable, List.nil_append]; rfl⟩

end HttpResponse

abbrev HttpCallback := HttpRequest → HttpResponse → HttpResponse

/-- What `onMessage` sends. -/
inductive Reply where
  | badRequest
  | response (req : HttpRequest) (r : HttpResponse)

namespace Reply

def badRequestText : List Byte := ascii "HTTP/1.1 400 Bad Request\r\n\r\n"

def bytes : Reply → List Byte
  | badRequest => badRequestText
  | response _ r => r.text

/-- `shutdown()` follows the reply. -/
def closes : Reply → Bool
  | badRequest => true
  | response _ r => r.closeConnection

/-- The request passed to `httpCallback_`. -/
def request : Reply → Option HttpRequest
  | badRequest => none
  | response req _ => some req

end Reply

/-- A call of `onMessage` that has returned: the bytes read before it, `connected()` and the unread
bytes after it. -/
structure MessageCall where
  chunk : List Byte
  connected : Bool
  unread : List Byte

namespace Stage

/-- `Channel::handleEvent` makes this callback. -/
def reported (revents : Events) : Stage → Bool
  | close => Events.test revents POLLHUP && !Events.test revents POLLIN
  | read => Events.test revents (POLLIN ||| POLLPRI ||| POLLRDHUP)
  | write => Events.test revents POLLOUT
  | done => false

def next : Stage → Stage
  | close => read
  | read => write
  | write | done => done

end Stage

structure HttpConnection where
  ctx : Ctx
  threadId : Tid
  -- the channel is in `activeChannels_` and not yet visited, and where its `handleEvent` is
  listed : Bool := false
  stage : Option Stage := none
  context : HttpContext := {}
  -- history
  calls : List MessageCall := []
  replies : List Reply := []

namespace HttpConnection

inductive Fault where
  | context (fault : HttpContext.Fault)
  | connection (fault : TcpConnection.Fault)
  | response (fault : Buffer.Fault)
  deriving DecidableEq, Repr

def onContext {α : Type} : Except HttpContext.Fault α → Except Fault α
  | .ok a => .ok a
  | .error fault => .error (.context fault)

def onTcp {α : Type} : Except TcpConnection.Fault α → Except Fault α
  | .ok a => .ok a
  | .error fault => .error (.connection fault)

def unread (s : HttpConnection) : List Byte := s.ctx.conn.inputBuffer.readable

def connected (s : HttpConnection) : Bool := s.ctx.conn.state == .kConnected

/-- The requests passed to `httpCallback_`, in order. -/
def dispatched (s : HttpConnection) : List HttpRequest := s.replies.filterMap Reply.request

/-- The reply to a request line that is refused. -/
def badRequest (s : HttpConnection) (r : WriteResult) : Except Fault HttpConnection := do
  let ctx ← onTcp (TcpConnection.send s.ctx s.threadId (.string ⟨Reply.badRequestText, by decide⟩) r)
  let ctx ← onTcp (TcpConnection.shutdown ctx)
  .ok { s with ctx, replies := s.replies ++ [.badRequest] }

def closeRequested (req : HttpRequest) : Bool :=
  let connection := req.getHeader (ascii "Connection")
  connection == ascii "close" || (req.version == .kHttp10 && connection != ascii "Keep-Alive")

/-- `conn->send(buf)` and what follows it. -/
def sendResponse (s : HttpConnection) (req : HttpRequest) (response : HttpResponse) (arg : SendArg)
    (r : WriteResult) : Except Fault HttpConnection := do
  let ctx ← onTcp (TcpConnection.send s.ctx s.threadId arg r)
  let ctx ← onTcp (if response.closeConnection then TcpConnection.shutdown ctx else .ok ctx)
  .ok { s with ctx, replies := s.replies ++ [.response req response] }

def onRequest (s : HttpConnection) (httpCallback : HttpCallback) (r : WriteResult) :
    Except Fault HttpConnection :=
  let req := s.context.request
  let response := httpCallback req (.construct (closeRequested req))
  match filled : response.appendToBuffer (Buffer.make Buffer.kInitialSize) with
  | .ok buf => s.sendResponse req response (.buffer buf (response.appendToBuffer_text filled).1) r
  | .error fault => .error (.response fault)

def onMessage (s : HttpConnection) (receiveTime : Timestamp) (httpCallback : HttpCallback)
    (r : WriteResult) : Except Fault HttpConnection := do
  let (ok, context, buf) ← onContext (s.context.parseRequest s.ctx.conn.inputBuffer receiveTime)
  let s := { s with ctx := TcpConnection.setInputBuffer s.ctx buf, context }
  let s ← if ok then .ok s else s.badRequest r
  if s.context.gotAll then do
    let s ← s.onRequest httpCallback r
    .ok { s with context := s.context.reset }
  else .ok s

inductive Label where
  -- `poll`, and `Channel::handleEvent` with its callbacks
  | poll (revents : Events)
  | visit
  | handleClose
  | handleRead (result : ReadResult) (receiveTime : Timestamp) (httpCallback : HttpCallback) (r : WriteResult)
  | handleWrite (r : WriteResult)
  -- the events of the next callback are not there
  | skip
  | handled
  | connectDestroyed
  -- other connections, and the loop, which takes what has been queued
  | others (poller : Poller) (connections : Finset ConnId) (eventHandling : Bool) (current : Option ConnId)
      (active : List ConnId)

/-- The bytes that `readv` puts behind those of the buffer. -/
def stored (b : Buffer) : ReadResult → List Byte
  | .data bytes => bytes.take b.readOffer
  | .failed _ => []

/-- `handleRead`, with `messageCallback_` where data has come. -/
def handleRead (s : HttpConnection) (result : ReadResult) (receiveTime : Timestamp)
    (httpCallback : HttpCallback) (r : WriteResult) : Except Fault HttpConnection := do
  let ctx ← onTcp (TcpConnection.handleRead { s.ctx with message := false } result)
  if ctx.message then
    let chunk := stored s.ctx.conn.inputBuffer result
    let s ← { s with ctx := { ctx with message := false } }.onMessage receiveTime httpCallback r
    .ok { s with calls := s.calls ++ [⟨chunk, s.connected, s.unread⟩] }
  else .ok { s with ctx }

def call (s : HttpConnection) (c : TcpConnection.Call) : Except Fault HttpConnection := do
  let ctx ← onTcp (c.run s.ctx)
  .ok { s with ctx }

def setChannel (s : HttpConnection) (change : Channel → Channel) : HttpConnection :=
  { s with ctx := TcpConnection.setChannel s.ctx (change s.ctx.conn.channel) s.ctx.poller }

/-- `handleEvent` makes the callback of its stage. -/
def callback (s : HttpConnection) (stage : Stage) (run : HttpConnection → Except Fault HttpConnection) :
    Option (Except Fault HttpConnection) :=
  if s.stage = some stage ∧ stage.reported s.ctx.conn.channel.revents then
    some (run { s with stage := some stage.next })
  else none

/-- `connectDestroyed` is queued by `handleClose`. -/
def step (s : HttpConnection) : Label → Option (Except Fault HttpConnection)
  | .poll revents =>
    if s.listed = false ∧ s.stage = none ∧ s.ctx.conn.channel.index = .kAdded ∧
        Events.mayReport s.ctx.conn.channel.events revents then
      some (.ok { s.setChannel (fun ch => { ch with revents }) with listed := true })
    else none
  | .visit =>
    if s.listed ∧ s.stage = none then
      some (.ok { s.setChannel (fun ch => { ch with eventHandling := true }) with
        listed := false, stage := some .close })
    else none
  | .handleClose => s.callback .close fun s => s.call .handleClose
  | .handleRead result receiveTime httpCallback r =>
    s.callback .read fun s => s.handleRead result receiveTime httpCallback r
  | .handleWrite r => s.callback .write fun s => s.call (.handleWrite r)
  | .skip =>
    match s.stage with
    | some stage =>
      if stage ≠ .done ∧ stage.reported s.ctx.conn.channel.revents = false then
        some (.ok { s with stage := some stage.next })
      else none
    | none => none
  | .handled =>
    if s.stage = some .done then
      some (.ok { s.setChannel (fun ch => { ch with eventHandling := false }) with stage := none })
    else none
  | .connectDestroyed =>
    if s.stage = none ∧ 0 < s.ctx.conn.closeCalls then some (s.call .connectDestroyed) else none
  | .others poller connections eventHandling current active =>
    some (.ok { s with ctx := { id := s.ctx.id, conn := s.ctx.conn, poller, connections, eventHandling, current, active } })

end HttpConnection

/-- A connection of an `HttpServer`, from `connectEstablished` on. -/
def httpConnection : Lib.Machine HttpConnection HttpConnection.Label HttpConnection.Fault where
  init s := ∃ start fd writeCompleteCallback, start.conn = { channel := { fd }, writeCompleteCallback } ∧
    TcpConnection.connectEstablished start = .ok s.ctx ∧
    s = { ctx := s.ctx, threadId := s.threadId }
  step := HttpConnection.step

end Dserver.Net
