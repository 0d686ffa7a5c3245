import Mathlib.Data.List.Nodup
import Mathlib.Data.List.Lookmap
import Dserver.Net.TcpConnection

/-!
# `TcpServer`: an IO loop, the server's base loop and any other threads

The connections of one IO loop, from `newConnection` to their destruction. A label is one step of one
thread together with the answers of the kernel. A step of the IO loop's thread first moves the control
of `EventLoop::loop` (`control`) and then makes at most one call on one connection (`callOf`).
-/

namespace Dserver.Net

inductive Entry where
  | connection (c : ConnId)
  | wakeup
  | acceptor
  -- a channel of the user
  | other (id : Nat)
  deriving DecidableEq

/-- Where `Channel::handleEvent` of a connection is. -/
inductive Stage where
  | close | read | write | done
  deriving DecidableEq

/-- What the loop's thread is in between `poll` and the end of `doPendingFunctors`. -/
inductive Handler where
  | idle
  | event (c : ConnId) (stage : Stage)
  -- code of the user: `messageCallback_`, the acceptor's `connectionCallback_`, the handler of another
  -- channel, and a queued callback
  | message (c : ConnId)
  | acceptor
  | other
  | functor
  deriving DecidableEq

inductive BaseFunctor where
  | removeConnectionInLoop (c : ConnId)
  | task
  deriving DecidableEq

structure TcpServer where
  loop : EventLoop Functor
  base : EventLoop BaseFunctor
  -- whether the server's callback is set
  writeCompleteCallback : Bool := false
  poller : Poller := {}
  connections : Finset ConnId := ∅
  conn : ConnId → TcpConnection := fun _ => { channel := { fd := -1 } }
  -- every connection made so far, and those not yet freed
  created : Finset ConnId := ∅
  alive : Finset ConnId := ∅
  -- `activeChannels_`, and its part that is not yet visited
  active : List Entry := []
  rest : List Entry := []
  handler : Handler := .idle
  -- other threads in a call: the functor they are about to push, and in `shutdown()`, past its test,
  -- the connection whose `state_` they are about to set
  calling : List (Tid × Functor) := []
  shutting : List (Tid × ConnId) := []

/-- The calls a user makes from another thread, but for `shutdown()`. -/
inductive UserCall where
  | send (arg : SendArg)
  | startRead
  | stopRead

namespace UserCall

/-- The test of `state_` that guards the call. -/
def passes (conn : TcpConnection) : UserCall → Bool
  | send _ => conn.state == .kConnected
  | startRead | stopRead => true

/-- What the call does before it pushes its functor. -/
def enter (t : Tid) (conn : TcpConnection) : UserCall → TcpConnection
  | send arg => { conn with accepted := conn.accepted ++ [(t, arg.message)] }
  | startRead | stopRead => conn

def functor (t : Tid) (c : ConnId) : UserCall → Functor
  | send arg => .sendInLoop c t arg.message
  | startRead => .startReadInLoop c
  | stopRead => .stopReadInLoop c

end UserCall

namespace Functor

/-- The call of a queued functor, with the kernel's answer to a write. -/
def call (r : WriteResult) : Functor → Option (ConnId × TcpConnection.Call)
  | sendInLoop c sender message => some (c, .sendInLoop sender message r)
  | shutdownInLoop c => some (c, .shutdownInLoop)
  | startReadInLoop c => some (c, .startReadInLoop)
  | stopReadInLoop c => some (c, .stopReadInLoop)
  | connectDestroyed c => some (c, .connectDestroyed)
  | writeCompleteCallback _ | highWaterMarkCallback _ _ | task => none

/-- The functor was bound to a shared pointer to the connection, not to `this`. -/
def owns (c : ConnId) : Functor → Bool
  | connectDestroyed b | writeCompleteCallback b | highWaterMarkCallback b _ => b == c
  | _ => false

end Functor

/-- The calls that user code makes in the loop's thread `t`. -/
def TcpConnection.Call.fromUser (t : Tid) : TcpConnection.Call → Bool
  | send sender _ _ => sender == t
  | shutdown | startReadInLoop | stopReadInLoop | retrieveInput _ | setHighWaterMarkCallback _ _ => true
  | _ => false

namespace TcpServer

inductive Fault where
  | loop (fault : EventLoop.Fault)
  | base (fault : EventLoop.Fault)
  | connection (c : ConnId) (fault : TcpConnection.Fault)
  | useAfterFree (c : ConnId)
  -- the assertions of `~TcpConnection` and `~Channel`
  | destructor (c : ConnId)
  deriving DecidableEq

inductive Label where
  -- `EventLoop::loop` of the IO loop
  | enter
  | check
  | poll (reports : List (Entry × Events))
  | visit
  | hangup
  | readable (r : ReadResult)
  | writable (r : WriteResult)
  | handled
  | userReturn
  | doPendingFunctors
  | functor (r : WriteResult)
  | functorsDone
  -- user code in the IO loop's thread
  | own (c : ConnId) (call : TcpConnection.Call)
  | queueTask
  | accept (c : ConnId) (fd : Fd)
  -- other threads
  | call (t : Tid) (c : ConnId) (op : UserCall)
  -- the test of `shutdown()`, and its `setState(kDisconnecting)`
  | shutdown (t : Tid) (c : ConnId)
  | setState (t : Tid)
  | callTask (t : Tid)
  | push (t : Tid)
  | wakeup (t : Tid)
  | quit (t : Tid)
  | release (t : Tid) (c : ConnId)
  -- the base loop
  | base (label : EventLoop.Label BaseFunctor)
  | baseFunctor

/-! ### Calls on a connection -/

/-- `currentActiveChannel_`, when it is the channel of a connection. -/
def current (s : TcpServer) : Option ConnId :=
  match s.handler with
  | .event c _ => some c
  | .message c => some c
  | _ => none

def ctx (s : TcpServer) (c : ConnId) : Ctx where
  id := c
  conn := s.conn c
  poller := s.poller
  connections := s.connections
  eventHandling := s.loop.eventHandling
  current := s.current
  active := s.active.filterMap fun entry => match entry with
    | .connection b => some b
    | _ => none

/-- `queueInLoop` in the loop's own thread. -/
def queueAll (loop : EventLoop Functor) (cbs : List Functor) : EventLoop Functor :=
  cbs.foldl (fun loop cb => loop.queueInLoop loop.threadId cb) loop

/-- `closeCallback_`, run in the IO thread `t`, which writes the base loop's eventfd before it goes on. -/
def removeConnection (base : EventLoop BaseFunctor) (t : Tid) (c : ConnId) : EventLoop BaseFunctor :=
  let base := base.runInLoop t (.removeConnectionInLoop c)
  { base.wakeup with waking := Function.update base.waking t none }

def commit (s : TcpServer) (c : ConnId) (x : Ctx) : TcpServer :=
  { s with
    conn := Function.update s.conn c x.conn
    poller := x.poller
    connections := x.connections
    loop := queueAll s.loop x.queued
    base := if x.closed then removeConnection s.base s.loop.threadId c else s.base
    handler := if x.message then .message c else s.handler }

def act (s : TcpServer) (c : ConnId) (call : TcpConnection.Call) : Except Fault TcpServer :=
  if c ∈ s.alive then
    match call.run (s.ctx c) with
    | .ok x => .ok (s.commit c x)
    | .error fault => .error (.connection c fault)
  else .error (.useAfterFree c)

/-- The call a step makes: from `handleEvent`, from a functor, from the user or from `newConnection`. -/
def callOf (s : TcpServer) : Label → Option (ConnId × TcpConnection.Call)
  | .hangup =>
    match s.handler with
    | .event c .close =>
      if Events.test (s.conn c).channel.revents POLLHUP && !Events.test (s.conn c).channel.revents POLLIN then
        some (c, .handleClose)
      else none
    | _ => none
  | .readable r =>
    match s.handler with
    | .event c .read =>
      if Events.test (s.conn c).channel.revents (POLLIN ||| POLLPRI ||| POLLRDHUP) then
        some (c, .handleRead r)
      else none
    | _ => none
  | .writable r =>
    match s.handler with
    | .event c .write =>
      if Events.test (s.conn c).channel.revents POLLOUT then some (c, .handleWrite r) else none
    | _ => none
  | .functor r =>
    match s.loop.queue.batch with
    | cb :: _ => cb.call r
    | [] => none
  | .own c call => some (c, call)
  | .accept c _ => some (c, .connectEstablished)
  | _ => none

/-! ### Control -/

/-- The loop's thread runs code of the user, and may make any call. -/
def userCode (s : TcpServer) : Bool :=
  s.loop.phase == .outside ||
    match s.handler with
    | .message _ | .acceptor | .other | .functor => true
    | .idle | .event _ _ => false

def setChannel (s : TcpServer) (c : ConnId) (change : Channel → Channel) : TcpServer :=
  { s with conn := Function.update s.conn c { s.conn c with channel := change (s.conn c).channel } }

def advance (s : TcpServer) (label : EventLoop.Label Functor) (next : EventLoop Functor → TcpServer) :
    Option (Except Fault TcpServer) :=
  match s.loop.step label with
  | some (.ok loop) => some (.ok (next loop))
  | some (.error fault) => some (.error (.loop fault))
  | none => none

/-- What `epoll_wait` may report of an entry. -/
def mayReport (s : TcpServer) (report : Entry × Events) : Bool :=
  match report.1 with
  | .connection c =>
    match s.poller.epoll (s.conn c).channel.fd with
    | some (mask, registered) => registered == c && Events.mayReport mask report.2
    | none => false
  | .wakeup => decide (0 < s.loop.wakeupCount)
  | .acceptor | .other _ => true

/-- `fillActiveChannels`. -/
def setRevents (s : TcpServer) (reports : List (Entry × Events)) (c : ConnId) : TcpConnection :=
  match reports.lookup (.connection c) with
  | some revents => { s.conn c with channel := { (s.conn c).channel with revents } }
  | none => s.conn c

/-- One iteration of `for (Channel* channel : activeChannels_)` up to the callbacks. -/
def visit (s : TcpServer) (entry : Entry) (rest : List Entry) : Option (Except Fault TcpServer) :=
  match entry with
  | .wakeup => s.advance .handleRead fun loop => { s with loop, rest }
  | .acceptor => some (.ok { s with rest, handler := .acceptor })
  | .other _ => some (.ok { s with rest, handler := .other })
  | .connection c =>
    if c ∈ s.alive then
      some (.ok { s.setChannel c (fun ch => { ch with eventHandling := true }) with
        rest, handler := .event c .close })
    else some (.error (.useAfterFree c))

def newConnection (s : TcpServer) (c : ConnId) (fd : Fd) : TcpServer :=
  { s with
    conn := Function.update s.conn c
      { channel := { fd }, writeCompleteCallback := s.writeCompleteCallback }
    created := insert c s.created
    alive := insert c s.alive }

def mayCall (s : TcpServer) (t : Tid) : Bool :=
  t != s.loop.threadId && s.loop.mayCall t && (s.calling.lookup t).isNone && (s.shutting.lookup t).isNone

/-- Thread `t` passes the test of its call and is about to push the functor. -/
def enterCall (s : TcpServer) (t : Tid) (c : ConnId) (op : UserCall) : TcpServer :=
  { s with
    conn := Function.update s.conn c (op.enter t (s.conn c))
    calling := s.calling ++ [(t, op.functor t c)] }

/-- Thread `t` passes the test of `shutdown()`. -/
def enterShutdown (s : TcpServer) (t : Tid) (c : ConnId) : TcpServer :=
  { s with shutting := s.shutting ++ [(t, c)] }

/-- `shutdown()` sets `state_`, whatever it is by now, and is about to push `shutdownInLoop`. -/
def setState (s : TcpServer) (t : Tid) (c : ConnId) : TcpServer :=
  { s with
    conn := Function.update s.conn c { s.conn c with state := .kDisconnecting }
    shutting := s.shutting.filter fun call => call.1 != t
    calling := s.calling ++ [(t, .shutdownInLoop c)] }

def pushCall (s : TcpServer) (t : Tid) (cb : Functor) : TcpServer :=
  { s with
    loop := s.loop.queueInLoop t cb
    calling := s.calling.filter fun call => call.1 != t }

/-- No shared pointer to the connection is left but those of the user. The pointer of a functor that
has run may go before its batch does. -/
def unowned (s : TcpServer) (c : ConnId) : Bool :=
  decide (c ∉ s.connections) && s.current != some c &&
    (s.loop.queue.batch ++ s.loop.queue.pending).all (fun cb => !cb.owns c) &&
    (s.base.queue.batch ++ s.base.queue.pending).all (fun cb => cb != .removeConnectionInLoop c) &&
    s.calling.all (fun call => ((call.2.call (.wrote 0)).map Prod.fst) != some c) &&
    s.shutting.all (fun call => call.2 != c)

/-- `close` also takes the descriptor out of the kernel's interest list. -/
def closeSocket (s : TcpServer) (c : ConnId) : TcpServer :=
  { s with
    alive := s.alive.erase c
    poller := { s.poller with epoll := Function.update s.poller.epoll (s.conn c).channel.fd none } }

/-- The last pointer is dropped in thread `t`: `~TcpConnection`, `~Channel`, and `~Socket`. -/
def destroy (s : TcpServer) (t : Tid) (c : ConnId) : Except Fault TcpServer :=
  let ch := (s.conn c).channel
  if (s.conn c).state ≠ .kDisconnected then .error (.destructor c)
  else if ch.eventHandling || ch.addedToLoop then .error (.destructor c)
  else if t = s.loop.threadId ∧ s.poller.channels ch.fd = some c then .error (.destructor c)
  else .ok (s.closeSocket c)

/-- The base loop's functors are its own, and the IO thread calls it only in `removeConnection`. -/
def foreignBase (s : TcpServer) : EventLoop.Label BaseFunctor → Bool
  | .runFunctor => false
  | .queueInLoop t cb | .runInLoop t cb => cb == .task && t != s.loop.threadId
  | .quit t | .wakeup t => t != s.loop.threadId
  | _ => true

def control (s : TcpServer) : Label → Option (Except Fault TcpServer)
  | .enter => if s.loop.phase = .outside then s.advance (.enter s.loop.threadId) fun loop => { s with loop } else none
  | .check => s.advance .check fun loop =>
      if loop.phase = .poll then { s with loop, active := [], rest := [] } else { s with loop }
  | .poll reports =>
    if reports.all s.mayReport ∧ (reports.map Prod.fst).Nodup then
      s.advance (.pollReturn ((reports.map Prod.fst).contains .wakeup)) fun loop =>
        { s with
          loop
          conn := s.setRevents reports
          active := reports.map Prod.fst
          rest := reports.map Prod.fst }
    else none
  | .visit =>
    match s.loop.phase, s.handler, s.rest with
    | .handle, .idle, entry :: rest => s.visit entry rest
    | _, _, _ => none
  | .hangup =>
    match s.handler with
    | .event c .close => some (.ok { s with handler := .event c .read })
    | _ => none
  | .readable _ =>
    match s.handler with
    | .event c .read => some (.ok { s with handler := .event c .write })
    | _ => none
  | .writable _ =>
    match s.handler with
    | .event c .write => some (.ok { s with handler := .event c .done })
    | _ => none
  | .handled =>
    match s.handler with
    | .event c .done =>
      some (.ok { s.setChannel c (fun ch => { ch with eventHandling := false }) with handler := .idle })
    | _ => none
  | .userReturn =>
    match s.handler with
    | .message c => some (.ok { s with handler := .event c .write })
    | .acceptor | .other | .functor => some (.ok { s with handler := .idle })
    | .idle | .event _ _ => none
  | .doPendingFunctors =>
    if s.handler = .idle ∧ s.rest = [] then s.advance .doPendingFunctors fun loop => { s with loop }
    else none
  | .functor r =>
    match s.handler, s.loop.queue.batch with
    | .idle, cb :: _ => s.advance .runFunctor fun loop =>
        { s with loop, handler := if (cb.call r).isSome then .idle else .functor }
    | _, _ => none
  | .functorsDone =>
    if s.handler = .idle then s.advance .functorsDone fun loop => { s with loop } else none
  | .own c call =>
    if s.userCode ∧ call.fromUser s.loop.threadId ∧ c ∈ s.alive then some (.ok s) else none
  | .queueTask => if s.userCode then some (.ok { s with loop := queueAll s.loop [.task] }) else none
  | .accept c fd =>
    if s.handler = .acceptor ∧ c ∉ s.created ∧ ∀ d ∈ s.alive, (s.conn d).channel.fd ≠ fd then
      some (.ok (s.newConnection c fd))
    else none
  | .call t c op =>
    if s.mayCall t ∧ c ∈ s.alive then
      if op.passes (s.conn c) then some (.ok (s.enterCall t c op)) else some (.ok s)
    else none
  | .shutdown t c =>
    if s.mayCall t ∧ c ∈ s.alive then
      if (s.conn c).state = .kConnected then some (.ok (s.enterShutdown t c)) else some (.ok s)
    else none
  | .setState t =>
    match s.shutting.lookup t with
    -- the thread holds a pointer to the connection
    | some c => some (.ok (s.setState t c))
    | none => none
  | .callTask t =>
    if s.mayCall t then some (.ok { s with calling := s.calling ++ [(t, .task)] }) else none
  | .push t =>
    match s.calling.lookup t with
    | some cb => some (.ok (s.pushCall t cb))
    | none => none
  | .wakeup t => s.advance (.wakeup t) fun loop => { s with loop }
  | .quit t =>
    if (t = s.loop.threadId ∧ s.userCode) ∨ s.mayCall t then s.advance (.quit t) fun loop => { s with loop }
    else none
  | .release t c => if c ∈ s.alive ∧ s.unowned c then some (s.destroy t c) else none
  | .base label =>
    if s.foreignBase label then
      match s.base.step label with
      | some (.ok base) => some (.ok { s with base })
      | some (.error fault) => some (.error (.base fault))
      | none => none
    else none
  | .baseFunctor =>
    if s.loop.mayCall s.base.threadId ∧ (s.calling.lookup s.base.threadId).isNone ∧
        (s.shutting.lookup s.base.threadId).isNone then
      match s.base.phase, s.base.queue.batch with
      | .functors, .removeConnectionInLoop c :: rest => some (.ok { s with
          base := s.base.runFunctor (.removeConnectionInLoop c) rest
          loop := s.loop.queueInLoop s.base.threadId (.connectDestroyed c) })
      | .functors, .task :: rest => some (.ok { s with base := s.base.runFunctor .task rest })
      | _, _ => none
    else none

def step (s : TcpServer) (label : Label) : Option (Except Fault TcpServer) :=
  match s.control label with
  | some (.ok s₁) =>
    match s.callOf label with
    | some (c, call) => some (s₁.act c call)
    | none => some (.ok s₁)
  | other => other

end TcpServer

/-- A server whose base loop and IO loop run in different threads. -/
def tcpServer : Lib.Machine TcpServer TcpServer.Label TcpServer.Fault where
  init s := ∃ threadId baseId writeCompleteCallback, threadId ≠ baseId ∧
    s = { loop := { threadId }, base := { threadId := baseId }, writeCompleteCallback }
  step := TcpServer.step

end Dserver.Net
