import Mathlib.Data.Finset.Basic
import Dserver.Net.Buffer
import Dserver.Net.EventLoop
import Dserver.Net.Poller

/-!
# `TcpConnection`

The member functions that run in the connection's loop. `Ctx` is the connection together with what
it reaches through `loop_`; the kernel's answers are arguments. Every system call on the socket and
every callback is kept as history.
-/

namespace Dserver.Net

/-- A connection and its channel are named by the same number. -/
abbrev ConnId := ChannelId
abbrev Errno := Nat

def EAGAIN : Errno := 11
def EPIPE : Errno := 32
def ECONNRESET : Errno := 104

/-- The answer to `write`: `wrote n` takes the first `n` bytes, all of them if there are fewer. -/
inductive WriteResult where
  | wrote (n : Nat)
  | failed (errno : Errno)
  deriving DecidableEq, Repr

namespace WriteResult

def accepted (r : WriteResult) (data : List Byte) : List Byte :=
  match r with
  | .wrote n => data.take n
  | .failed _ => []

def succeeded : WriteResult → Bool
  | .wrote _ => true
  | .failed _ => false

-- `errno != EAGAIN`, and then EPIPE or ECONNRESET
def faultError : WriteResult → Bool
  | .wrote _ => false
  | .failed errno => errno != EAGAIN && (errno == EPIPE || errno == ECONNRESET)

end WriteResult

/-- The answer to `readv`: no data is the end of the stream. -/
inductive ReadResult where
  | data (bytes : List Byte)
  | failed (errno : Errno)
  deriving DecidableEq, Repr

inductive SocketOp where
  | write (data : List Byte) (result : WriteResult)
  | shutdownWrite
  deriving DecidableEq, Repr

def SocketOp.sent : SocketOp → List Byte
  | .write data result => result.accepted data
  | .shutdownWrite => []

/-- The functors that connections and their users put into the loop's queue. -/
inductive Functor where
  | sendInLoop (conn : ConnId) (sender : Tid) (message : Message)
  | shutdownInLoop (conn : ConnId)
  | startReadInLoop (conn : ConnId)
  | stopReadInLoop (conn : ConnId)
  | connectDestroyed (conn : ConnId)
  | writeCompleteCallback (conn : ConnId)
  | highWaterMarkCallback (conn : ConnId) (size : Nat)
  | task
  deriving DecidableEq

inductive StateE where
  | kDisconnected | kConnecting | kConnected | kDisconnecting
  deriving DecidableEq, Repr

/-- What `sendInLoop` did with a message first. -/
inductive Outcome where
  | gaveUp
  | buffered
  | direct (result : WriteResult)
  deriving DecidableEq

structure SendRecord where
  sender : Tid
  message : Message
  outcome : Outcome
  deriving DecidableEq

def SendRecord.dropped (r : SendRecord) : Bool :=
  match r.outcome with
  | .gaveUp => true
  | .buffered => false
  | .direct result => result.faultError

/-- The argument of the three overloads of `send`. -/
inductive SendArg where
  | string (message : Message)
  | raw (message : Message)
  | buffer (message : Buffer) (wf : message.Wf)

/-- From a buffer both threads take what is readable, by `peek` or by `retrieveAllAsString`. -/
def SendArg.message : SendArg → Message
  | .string message => message
  | .raw message => message
  | .buffer message wf => ⟨message.readable, wf.readable_fits⟩

structure TcpConnection where
  channel : Channel
  state : StateE := .kConnecting
  reading : Bool := true
  inputBuffer : Buffer := Buffer.make Buffer.kInitialSize
  outputBuffer : Buffer := Buffer.make Buffer.kInitialSize
  -- whether the callback is set
  writeCompleteCallback : Bool := false
  highWaterMarkCallback : Bool := false
  highWaterMark : Nat := 64 * 1024 * 1024
  -- history: system calls on `socket_`, calls of `send` that saw `kConnected`, runs of `sendInLoop`,
  -- `connected()` at each call of `connectionCallback_`, calls of `closeCallback_`
  socket : List SocketOp := []
  accepted : List (Tid × Message) := []
  sends : List SendRecord := []
  connectionCalls : List Bool := []
  closeCalls : Nat := 0
  destroyed : Bool := false

structure Ctx where
  id : ConnId
  conn : TcpConnection
  poller : Poller
  connections : Finset ConnId
  -- `eventHandling_`, `currentActiveChannel_` and `activeChannels_` of the loop
  eventHandling : Bool
  current : Option ConnId
  active : List ConnId
  -- calls of `queueInLoop`, oldest first; whether `closeCallback_` was called, and whether
  -- `messageCallback_` is to be called
  queued : List Functor := []
  closed : Bool := false
  message : Bool := false

namespace TcpConnection

/-- The assertions of `TcpConnection`, of `EventLoop::removeConnection` and `removeChannel`, and
those of the buffers and the poller. -/
inductive Fault where
  | connectEstablished
  | handleClose
  | removeConnection
  | removeChannel
  | buffer (fault : Buffer.Fault)
  | poller (fault : Poller.Fault)
  deriving DecidableEq, Repr

/-! ### Field updates -/

def setChannel (x : Ctx) (channel : Channel) (poller : Poller) : Ctx :=
  { x with conn := { x.conn with channel }, poller }

def setState (x : Ctx) (state : StateE) : Ctx := { x with conn := { x.conn with state } }

def setReading (x : Ctx) (reading : Bool) : Ctx := { x with conn := { x.conn with reading } }

def setInputBuffer (x : Ctx) (inputBuffer : Buffer) : Ctx := { x with conn := { x.conn with inputBuffer } }

def setOutputBuffer (x : Ctx) (outputBuffer : Buffer) : Ctx :=
  { x with conn := { x.conn with outputBuffer } }

def syscall (x : Ctx) (op : SocketOp) : Ctx :=
  { x with conn := { x.conn with socket := x.conn.socket ++ [op] } }

def record (x : Ctx) (r : SendRecord) : Ctx :=
  { x with conn := { x.conn with sends := x.conn.sends ++ [r] } }

def accept (x : Ctx) (sender : Tid) (message : Message) : Ctx :=
  { x with conn := { x.conn with accepted := x.conn.accepted ++ [(sender, message)] } }

def connectionCallback (x : Ctx) : Ctx :=
  { x with conn := { x.conn with
      connectionCalls := x.conn.connectionCalls ++ [x.conn.state == .kConnected] } }

def closeCallback (x : Ctx) : Ctx :=
  { x with conn := { x.conn with closeCalls := x.conn.closeCalls + 1 }, closed := true }

def setDestroyed (x : Ctx) : Ctx := { x with conn := { x.conn with destroyed := true } }

-- `loop_->queueInLoop(cb)` under a condition
def queueIf (x : Ctx) (due : Bool) (cb : Functor) : Ctx :=
  { x with queued := x.queued ++ if due then [cb] else [] }

/-! ### Member functions -/

def onBuffer {α : Type} : Except Buffer.Fault α → Except Fault α
  | .ok a => .ok a
  | .error fault => .error (.buffer fault)

def toggle (x : Ctx) (op : Poller → ChannelId → Channel → Except Poller.Fault (Channel × Poller)) :
    Except Fault Ctx :=
  match op x.poller x.id x.conn.channel with
  | .ok (channel, poller) => .ok (setChannel x channel poller)
  | .error fault => .error (.poller fault)

/-- The part of `sendInLoop` behind `if (!faultError && remaining > 0)`, in three pieces. -/
def notifyHighWaterMark (x : Ctx) (remaining : Nat) : Ctx :=
  let size := addSize x.conn.outputBuffer.readableBytes remaining
  queueIf x (decide (x.conn.highWaterMark ≤ size) && x.conn.highWaterMarkCallback)
    (.highWaterMarkCallback x.id size)

def fillOutput (x : Ctx) (rest : List Byte) : Except Fault Ctx := do
  let outputBuffer ← onBuffer (x.conn.outputBuffer.append rest)
  let x := setOutputBuffer x outputBuffer
  if x.conn.channel.isWriting then .ok x else toggle x Channel.enableWriting

def appendOutput (x : Ctx) (rest : List Byte) : Except Fault Ctx :=
  fillOutput (notifyHighWaterMark x rest.length) rest

def sendInLoop (x : Ctx) (sender : Tid) (message : Message) (r : WriteResult) : Except Fault Ctx :=
  if x.conn.state = .kDisconnected then .ok (record x ⟨sender, message, .gaveUp⟩)
  else if x.conn.channel.isWriting = false ∧ x.conn.outputBuffer.readableBytes = 0 then
    let nwrote := (r.accepted message.bytes).length
    let remaining := message.bytes.length - nwrote
    let x := syscall (record x ⟨sender, message, .direct r⟩) (.write message.bytes r)
    let x := queueIf x (r.succeeded && remaining == 0 && x.conn.writeCompleteCallback)
      (.writeCompleteCallback x.id)
    if r.faultError = false ∧ 0 < remaining then appendOutput x (message.bytes.drop nwrote) else .ok x
  else
    let x := record x ⟨sender, message, .buffered⟩
    if 0 < message.bytes.length then appendOutput x message.bytes else .ok x

def shutdownInLoop (x : Ctx) : Except Fault Ctx :=
  if x.conn.channel.isWriting then .ok x else .ok (syscall x .shutdownWrite)

def startReadInLoop (x : Ctx) : Except Fault Ctx :=
  if !x.conn.reading || !x.conn.channel.isReading then do
    let x ← toggle x Channel.enableReading
    .ok (setReading x true)
  else .ok x

def stopReadInLoop (x : Ctx) : Except Fault Ctx :=
  if x.conn.reading || x.conn.channel.isReading then do
    let x ← toggle x Channel.disableReading
    .ok (setReading x false)
  else .ok x

-- `send` and `shutdown` called in the loop's thread
def send (x : Ctx) (sender : Tid) (arg : SendArg) (r : WriteResult) : Except Fault Ctx :=
  if x.conn.state = .kConnected then sendInLoop (accept x sender arg.message) sender arg.message r
  else .ok x

def shutdown (x : Ctx) : Except Fault Ctx :=
  if x.conn.state = .kConnected then shutdownInLoop (setState x .kDisconnecting) else .ok x

/-- What the user does through `inputBuffer()` and `setHighWaterMarkCallback`. -/
def retrieveInput (x : Ctx) (len : Nat) : Except Fault Ctx := do
  let inputBuffer ← onBuffer (x.conn.inputBuffer.retrieve len)
  .ok (setInputBuffer x inputBuffer)

def setHighWaterMarkCallback (x : Ctx) (set : Bool) (highWaterMark : Nat) : Ctx :=
  { x with conn := { x.conn with highWaterMarkCallback := set, highWaterMark } }

def addConnection (x : Ctx) : Ctx := { x with connections := insert x.id x.connections }

def tie (x : Ctx) : Ctx := setChannel x { x.conn.channel with tied := true } x.poller

def connectEstablished (x : Ctx) : Except Fault Ctx :=
  if x.conn.state = .kConnecting then do
    let x ← toggle (tie (addConnection (setState x .kConnected))) Channel.enableReading
    .ok (connectionCallback x)
  else .error .connectEstablished

def removeConnection (x : Ctx) : Except Fault Ctx :=
  if x.id ∈ x.connections then .ok { x with connections := x.connections.erase x.id }
  else .error .removeConnection

-- `Channel::remove` and `EventLoop::removeChannel`
def removeChannel (x : Ctx) : Except Fault Ctx :=
  if !x.conn.channel.isNoneEvent then .error (.poller .removeHasEvents)
  else if x.eventHandling = true ∧ ¬(x.current = some x.id ∨ x.id ∉ x.active) then .error .removeChannel
  else toggle x Channel.remove

def connectDestroyed (x : Ctx) : Except Fault Ctx := do
  let x ← if x.conn.state = .kConnected then do
      let x ← toggle (setState x .kDisconnected) Channel.disableAll
      .ok (connectionCallback x)
    else .ok x
  let x ← removeConnection x
  let x ← removeChannel x
  .ok (setDestroyed x)

def handleClose (x : Ctx) : Except Fault Ctx :=
  if x.conn.state = .kConnected ∨ x.conn.state = .kDisconnecting then do
    let x ← toggle (setState x .kDisconnected) Channel.disableAll
    .ok (closeCallback x)
  else .error .handleClose

def messageCallback (x : Ctx) : Ctx := { x with message := true }

def handleRead (x : Ctx) (r : ReadResult) : Except Fault Ctx :=
  match r with
  -- `handleError` only reads and logs the socket's error
  | .failed _ => .ok x
  | .data bytes => do
    let (n, inputBuffer) ← onBuffer (x.conn.inputBuffer.readFd bytes)
    let x := setInputBuffer x inputBuffer
    if 0 < n then .ok (messageCallback x) else handleClose x

def handleWrite (x : Ctx) (r : WriteResult) : Except Fault Ctx :=
  if x.conn.channel.isWriting then
    let data := x.conn.outputBuffer.readable
    let n := (r.accepted data).length
    let x := syscall x (.write data r)
    if 0 < n then do
      let outputBuffer ← onBuffer (x.conn.outputBuffer.retrieve n)
      let x := setOutputBuffer x outputBuffer
      if x.conn.outputBuffer.readableBytes = 0 then
        let x ← toggle x Channel.disableWriting
        let x := queueIf x x.conn.writeCompleteCallback (.writeCompleteCallback x.id)
        if x.conn.state = .kDisconnecting then shutdownInLoop x else .ok x
      else .ok x
    else .ok x
  else .ok x

inductive Call where
  | connectEstablished
  | connectDestroyed
  | send (sender : Tid) (arg : SendArg) (r : WriteResult)
  | sendInLoop (sender : Tid) (message : Message) (r : WriteResult)
  | shutdown
  | shutdownInLoop
  | startReadInLoop
  | stopReadInLoop
  | retrieveInput (len : Nat)
  | setHighWaterMarkCallback (set : Bool) (highWaterMark : Nat)
  | handleClose
  | handleRead (r : ReadResult)
  | handleWrite (r : WriteResult)

def Call.run (x : Ctx) : Call → Except Fault Ctx
  | connectEstablished => TcpConnection.connectEstablished x
  | connectDestroyed => TcpConnection.connectDestroyed x
  | send sender arg r => TcpConnection.send x sender arg r
  | sendInLoop sender message r => TcpConnection.sendInLoop x sender message r
  | shutdown => TcpConnection.shutdown x
  | shutdownInLoop => TcpConnection.shutdownInLoop x
  | startReadInLoop => TcpConnection.startReadInLoop x
  | stopReadInLoop => TcpConnection.stopReadInLoop x
  | retrieveInput len => TcpConnection.retrieveInput x len
  | setHighWaterMarkCallback set highWaterMark =>
    .ok (TcpConnection.setHighWaterMarkCallback x set highWaterMark)
  | handleClose => TcpConnection.handleClose x
  | handleRead r => TcpConnection.handleRead x r
  | handleWrite r => TcpConnection.handleWrite x r

end TcpConnection

end Dserver.Net
