import Dserver.Lib.BatchQueue
import Dserver.Net.EventLoop
import Dserver.Net.Poller

/-!
# `TcpServer::start`

The thread that made the server calls `start()` some number of times, one call after the other, while the loops of the
pool run their functors. Of a loop there are its `pendingFunctors_`, which hold nothing but calls of `listen`, its poller
and its `acceptor_`; that it wakes up for a functor is left to the model of the loop itself.
-/

namespace Dserver.Net

namespace Startup

/-- The part of an `Acceptor` that `start()` deals with. `listens` is history: how often `listen()` was run. -/
structure Acceptor where
  loop : Nat
  channel : Channel
  listening : Bool := false
  destroyed : Bool := false
  listens : Nat := 0

/-- The assertions on `started_` of the pool and in `setAcceptor`, `assertInLoopThread`, a call on a destroyed acceptor,
and the faults of the poller. -/
inductive Fault where
  | poolStarted
  | poolNotStarted
  | alreadyListening
  | abortNotInLoopThread
  | useAfterFree
  | poller (fault : Poller.Fault)
  deriving DecidableEq, Repr

/-- Where the thread that calls `start()` is. -/
inductive Caller where
  | idle
  /-- In the loop of `IOthreadPool_->start()`, with this many threads made. -/
  | spawning (i : Nat)
  /-- In the loop over `getAllLoops()`, with these still to come. -/
  | installing (rest : List Nat)
  /-- The acceptor is made and not yet given to its loop. -/
  | holding (loop id : Nat) (rest : List Nat)
  /-- The loop has the acceptor; `runInLoop` is next. -/
  | queueing (loop id : Nat) (rest : List Nat)

end Startup

open Startup in
structure Startup where
  numThreads : Nat
  /-- Calls of `start()` still to come. -/
  calls : Nat
  started : Bool := false
  -- `started_` and `loops_` of the pool
  poolStarted : Bool := false
  loops : List Nat := []
  -- every acceptor that was made, by its number
  created : Nat := 0
  acceptors : Nat → Option Acceptor := fun _ => none
  -- of each loop
  acceptor : Nat → Option Nat := fun _ => none
  queues : Nat → Lib.BatchQueue Nat := fun _ => {}
  pollers : Nat → Poller := fun _ => {}
  caller : Caller := .idle

namespace Startup

/-- The thread that calls `start()`; no loop of the pool runs in it. -/
def mainThread : Tid := 0

def loopThread (loop : Nat) : Tid := loop + 1

def assertInLoopThread (thread : Tid) (loop : Nat) : Except Fault Unit :=
  if thread = loopThread loop then .ok () else .error .abortNotInLoopThread

def setObject (s : Startup) (id : Nat) (acc : Acceptor) : Startup :=
  { s with acceptors := Function.update s.acceptors id (some acc) }

def onAcceptor (s : Startup) (id : Nat) (body : Acceptor → Except Fault Startup) : Except Fault Startup :=
  match s.acceptors id with
  | some acc => if acc.destroyed then .error .useAfterFree else body acc
  | none => .error .useAfterFree

/-- `updateChannel` or `removeChannel` for the channel of an acceptor. -/
def onChannel (s : Startup) (thread : Tid) (id : Nat)
    (op : Poller → ChannelId → Channel → Except Poller.Fault (Channel × Poller)) : Except Fault Startup :=
  s.onAcceptor id fun acc => do
    assertInLoopThread thread acc.loop
    match op (s.pollers acc.loop) id acc.channel with
    | .ok (channel, poller) =>
      .ok { s.setObject id { acc with channel } with pollers := Function.update s.pollers acc.loop poller }
    | .error fault => .error (.poller fault)

/-- `~Acceptor`. -/
def destroy (s : Startup) (thread : Tid) (id : Nat) : Except Fault Startup := do
  let s ← s.onChannel thread id Channel.disableAll
  let s ← s.onChannel thread id Channel.remove
  s.onAcceptor id fun acc => .ok (s.setObject id { acc with destroyed := true })

def listen (s : Startup) (thread : Tid) (id : Nat) : Except Fault Startup :=
  s.onAcceptor id fun acc => do
    assertInLoopThread thread acc.loop
    let s := s.setObject id { acc with listening := true, listens := acc.listens + 1 }
    s.onChannel thread id Channel.enableReading

/-- `acceptor_ = std::move(acceptor)` destroys the acceptor that was there. -/
def setAcceptor (s : Startup) (thread : Tid) (loop id : Nat) : Except Fault Startup := do
  let s ←
    match s.acceptor loop with
    | some old => s.destroy thread old
    | none => .ok s
  let s := { s with acceptor := Function.update s.acceptor loop (some id) }
  s.onAcceptor id fun acc => if acc.listening then .error .alreadyListening else .ok s

def runInLoop (s : Startup) (thread : Tid) (loop id : Nat) : Except Fault Startup :=
  if thread = loopThread loop then s.listen thread id
  else .ok { s with queues := Function.update s.queues loop ((s.queues loop).push id) }

def start (s : Startup) : Except Fault Startup :=
  let first := !s.started
  let s := { s with started := true, calls := s.calls - 1 }
  if first then
    if s.poolStarted then .error .poolStarted
    else .ok { s with poolStarted := true, caller := .spawning 0 }
  else if s.poolStarted then .ok { s with caller := .installing s.loops }
  else .error .poolNotStarted

/-- One turn of the loop in `IOthreadPool_->start()`, or its end and `getAllLoops()`. -/
def spawn (s : Startup) (i : Nat) : Except Fault Startup :=
  if i < s.numThreads then .ok { s with loops := s.loops ++ [i], caller := .spawning (i + 1) }
  else if s.poolStarted then .ok { s with caller := .installing s.loops }
  else .error .poolNotStarted

/-- The kernel gives a descriptor that no acceptor has open. -/
def mayOpen (s : Startup) (fd : Fd) : Bool :=
  (List.range s.created).all fun id => (s.acceptors id).all fun acc => acc.destroyed || acc.channel.fd != fd

def create (s : Startup) (loop : Nat) (rest : List Nat) (fd : Fd) : Startup :=
  { s.setObject s.created { loop, channel := { fd } } with
    created := s.created + 1
    caller := .holding loop s.created rest }

inductive Label where
  | start
  | spawn
  | create (fd : Fd)
  | setAcceptor
  | runInLoop
  | finish
  | doPendingFunctors (loop : Nat)
  | runFunctor (loop : Nat)
  deriving DecidableEq, Repr

def step (s : Startup) : Label → Option (Except Fault Startup)
  | .start =>
    match s.caller with
    | .idle => if 0 < s.calls then some s.start else none
    | _ => none
  | .spawn =>
    match s.caller with
    | .spawning i => some (s.spawn i)
    | _ => none
  | .create fd =>
    match s.caller with
    | .installing (loop :: rest) => if s.mayOpen fd then some (.ok (s.create loop rest fd)) else none
    | _ => none
  | .setAcceptor =>
    match s.caller with
    | .holding loop id rest =>
      some ((s.setAcceptor mainThread loop id).map fun s => { s with caller := .queueing loop id rest })
    | _ => none
  | .runInLoop =>
    match s.caller with
    | .queueing loop id rest =>
      some ((s.runInLoop mainThread loop id).map fun s => { s with caller := .installing rest })
    | _ => none
  | .finish =>
    match s.caller with
    | .installing [] => some (.ok { s with caller := .idle })
    | _ => none
  | .doPendingFunctors loop =>
    if loop ∈ s.loops ∧ (s.queues loop).batch = [] ∧ (s.queues loop).pending ≠ [] then
      some (.ok { s with queues := Function.update s.queues loop (s.queues loop).swap })
    else none
  | .runFunctor loop =>
    match (s.queues loop).batch with
    | id :: rest =>
      if loop ∈ s.loops then
        some ({ s with queues := Function.update s.queues loop ((s.queues loop).pop id rest) }.listen (loopThread loop) id)
      else none
    | [] => none

end Startup

/-- `setThreadNum(n)`, and then `k` calls of `start()`. -/
def startup (n k : Nat) : Lib.Machine Startup Startup.Label Startup.Fault where
  init s := s = { numThreads := n, calls := k }
  step := Startup.step

namespace Startup

/-- One acceptor in each loop, listening and watched by the poller; at least one in all; and one run of `listen` for each
that was made. -/
structure Serving (s : Startup) : Prop where
  each : ∀ loop < s.numThreads, ∃ id acc, s.acceptor loop = some id ∧ s.acceptors id = some acc ∧ acc.loop = loop ∧
    acc.destroyed = false ∧ acc.listening = true ∧ acc.channel.isReading = true ∧
    (s.pollers loop).epoll acc.channel.fd = some (acc.channel.events, id) ∧
    ∀ other acc', s.acceptors other = some acc' → acc'.loop = loop → acc'.destroyed = false → other = id
  any : ∃ loop id acc, s.acceptor loop = some id ∧ s.acceptors id = some acc ∧ acc.listening = true
  once : ∀ id acc, s.acceptors id = some acc → acc.listens = 1

/-- No step aborts, every interleaving comes to an end, and where it ends the server is serving. -/
def Meets (n k : Nat) : Prop :=
  (∀ s, (startup n k).Reachable Lib.Machine.anyStep s → ∀ label fault, s.step label ≠ some (.error fault)) ∧
  (∀ s, (startup n k).Reachable Lib.Machine.anyStep s → Acc (fun t u => (startup n k).Next Lib.Machine.anyStep u t) s) ∧
  ∀ s, (startup n k).Reachable Lib.Machine.anyStep s → (∀ label, s.step label = none) → s.Serving

end Startup

end Dserver.Net
