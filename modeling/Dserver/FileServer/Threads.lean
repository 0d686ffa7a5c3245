import Dserver.FileServer.Turn
import Dserver.Lib.Machine

/-!
# The IO threads of the file server

Each thread makes calls of `onMessage`, one after the other, for its connections. A turn of the outer loop is one step of
its thread, a turn with an upload two: the file is open between them, and the other threads go on.
-/

namespace Dserver.FileServer

open Net Lib.Machine

/-- An upload in front of the loops that wait for its data. -/
structure Receiving where
  message : List Byte
  filename : List Byte
  password : List Byte
  buffer : Buffer

inductive IoThread where
  | idle
  | reading (b : Buffer)
  | receiving (r : Receiving)

structure Server where
  state : State
  threads : Nat → IoThread

/-- A call finds any buffer; at each step other files may be opened. -/
inductive Label where
  | call (thread : Nat) (b : Buffer)
  | begin (thread : Nat) (mayWrite mayRead : List Byte → Bool) (fuel : Nat)
  | finish (thread : Nat) (mayWrite mayRead : List Byte → Bool) (fuel : Nat)

namespace Flow

def state : Flow → State
  | returned s _ => s
  | goesOn s _ => s

def thread : Flow → IoThread
  | returned _ _ => .idle
  | goesOn _ b => .reading b

end Flow

/-- `answer`, and where the thread is then. -/
def reply (env : Env) (fuel : Nat) (message : List Byte) (len : Int) (s : State) (b : Buffer) :
    Except Fault (State × IoThread) := do
  let flow ← answer env fuel message len s b
  .ok (flow.state, flow.thread)

/-- `turn` up to the loops that wait for the data of an upload. -/
def beginTurn (env : Env) (fuel : Nat) (s : State) (b : Buffer) : Except Fault (State × IoThread) := do
  let next ← nextMessage b
  match next with
  | none => .ok (s, .idle)
  | some (message, len) =>
    if message.take 6 = literal "UPLOAD" then do
      let opened ← openUpload env message len s b
      match opened with
      | none => .ok (s, .idle)
      | some (filename, password, s, b) => .ok (s, .receiving ⟨message, filename, password, b⟩)
    else reply env fuel message len s b

/-- The other part of a turn with an upload. -/
def finishTurn (env : Env) (fuel : Nat) (r : Receiving) (s : State) : Except Fault (State × IoThread) := do
  let (len, s, b) ← finishUpload env fuel r.filename r.password s r.buffer
  reply env fuel r.message len s b

namespace Server

def become (s : Server) (t : Nat) (state : State) (thread : IoThread) : Server :=
  ⟨state, Function.update s.threads t thread⟩

@[simp] theorem become_state (s : Server) (t : Nat) (state : State) (thread : IoThread) :
    (s.become t state thread).state = state := rfl

@[simp] theorem become_self (s : Server) (t : Nat) (state : State) (thread : IoThread) :
    (s.become t state thread).threads t = thread := Function.update_self _ _ _

@[simp] theorem become_become (s : Server) (t : Nat) (state state' : State) (thread thread' : IoThread) :
    (s.become t state thread).become t state' thread' = s.become t state' thread' := by
  rw [become, become, Function.update_idem, become]

/-- A loop that does not end is no step. -/
def after (s : Server) (t : Nat) : Except Fault (State × IoThread) → Option (Except Fault Server)
  | .ok (state, thread) => some (.ok (s.become t state thread))
  | .error .fuel => none
  | .error fault => some (.error fault)

def step (file : List Byte → List Byte) (s : Server) : Label → Option (Except Fault Server)
  | .call t b =>
    match s.threads t with
    | .idle => some (.ok (s.become t s.state (.reading b)))
    | _ => none
  | .begin t mayWrite mayRead fuel =>
    match s.threads t with
    | .reading b => s.after t (beginTurn ⟨mayWrite, mayRead, file⟩ fuel s.state b)
    | _ => none
  | .finish t mayWrite mayRead fuel =>
    match s.threads t with
    | .receiving r => s.after t (finishTurn ⟨mayWrite, mayRead, file⟩ fuel r s.state)
    | _ => none

end Server

/-- No password is set at the start; there can be files. -/
def fileServer (file : List Byte → List Byte) : Lib.Machine Server Label Fault where
  init s := s.state.passwordMap = (fun _ => none) ∧ s.state.sent = [] ∧ s.threads = fun _ => .idle
  step := Server.step file

variable {file : List Byte → List Byte} {server server' : Server} {t : Nat}

/-- The three ways of a step. -/
theorem step_cases {label : Label} (step : (fileServer file).step server label = some (.ok server')) :
    (∃ t b, server' = server.become t server.state (.reading b)) ∨
    (∃ t mayWrite mayRead fuel b state thread,
      beginTurn ⟨mayWrite, mayRead, file⟩ fuel server.state b = .ok (state, thread) ∧
        server' = server.become t state thread) ∨
    ∃ t mayWrite mayRead fuel r state thread, server.threads t = .receiving r ∧
      finishTurn ⟨mayWrite, mayRead, file⟩ fuel r server.state = .ok (state, thread) ∧
        server' = server.become t state thread := by
  have ended : ∀ {t : Nat} {result : Except Fault (State × IoThread)}, server.after t result = some (.ok server') →
      ∃ state thread, result = .ok (state, thread) ∧ server' = server.become t state thread := by
    intro t result h
    rcases result with fault | ⟨state, thread⟩
    · cases fault <;> cases h
    · exact ⟨state, thread, rfl, (Except.ok.inj (Option.some.inj h)).symm⟩
  cases label with
  | call t b =>
    dsimp only [fileServer, Server.step] at step
    split at step
    · exact .inl ⟨t, b, (Except.ok.inj (Option.some.inj step)).symm⟩
    · cases step
  | begin t mayWrite mayRead fuel =>
    dsimp only [fileServer, Server.step] at step
    split at step
    · obtain ⟨state, thread, ran, rfl⟩ := ended step
      exact .inr (.inl ⟨t, mayWrite, mayRead, fuel, _, state, thread, ran, rfl⟩)
    · cases step
  | finish t mayWrite mayRead fuel =>
    dsimp only [fileServer, Server.step] at step
    split at step
    · rename_i r receiving
      obtain ⟨state, thread, ran, rfl⟩ := ended step
      exact .inr (.inr ⟨t, mayWrite, mayRead, fuel, r, state, thread, receiving, ran, rfl⟩)
    · cases step

/-! ### A call without the other threads -/

theorem turn_parts {env : Env} {fuel : Nat} {s : State} {b : Buffer} {flow : Flow}
    (ran : turn env fuel s b = .ok flow) :
    beginTurn env fuel s b = .ok (flow.state, flow.thread) ∨
    ∃ s' r, beginTurn env fuel s b = .ok (s', .receiving r) ∧
      finishTurn env fuel r s' = .ok (flow.state, flow.thread) := by
  obtain ⟨next, found, ran⟩ := Lib.bind_ok ran
  unfold beginTurn
  rw [found, Lib.ok_bind]
  cases next with
  | none =>
    obtain rfl := Except.ok.inj ran
    exact .inl rfl
  | some request =>
    obtain ⟨message, len⟩ := request
    dsimp only at ran ⊢
    obtain ⟨uploaded, done, ran⟩ := Lib.bind_ok ran
    by_cases asked : message.take 6 = literal "UPLOAD"
    · rw [upload, if_pos asked] at done
      rw [if_pos asked]
      obtain ⟨opened, before, done⟩ := Lib.bind_ok done
      rw [before, Lib.ok_bind]
      cases opened with
      | none =>
        obtain rfl := Except.ok.inj done
        obtain rfl := Except.ok.inj ran
        exact .inl rfl
      | some opened =>
        obtain ⟨filename, password, s', b'⟩ := opened
        obtain ⟨⟨len', s'', b''⟩, finished, done⟩ := Lib.bind_ok done
        obtain rfl := Except.ok.inj done
        refine .inr ⟨s', ⟨message, filename, password, b'⟩, rfl, ?_⟩
        dsimp only at ran finished ⊢
        rw [finishTurn, finished, Lib.ok_bind]
        dsimp only
        rw [reply, ran, Lib.ok_bind]
    · rw [upload, if_neg asked] at done
      obtain rfl := Except.ok.inj done
      dsimp only at ran
      rw [if_neg asked, reply, ran, Lib.ok_bind]
      exact .inl rfl

theorem turn_steps {mayWrite mayRead : List Byte → Bool} {fuel : Nat} {s : State} {b : Buffer} {flow : Flow}
    (ran : turn ⟨mayWrite, mayRead, file⟩ fuel s b = .ok flow) :
    (fileServer file).Steps anyStep (server.become t s (.reading b)) (server.become t flow.state flow.thread) := by
  have begins : ∀ state thread, beginTurn ⟨mayWrite, mayRead, file⟩ fuel s b = .ok (state, thread) →
      (fileServer file).Next anyStep (server.become t s (.reading b)) (server.become t state thread) := by
    intro state thread began
    refine ⟨.begin t mayWrite mayRead fuel, trivial, ?_⟩
    dsimp only [fileServer, Server.step]
    rw [Server.become_self]
    dsimp only
    rw [Server.become_state, began, Server.after, Server.become_become]
  rcases turn_parts ran with whole | ⟨s', r, began, finished⟩
  · exact .single (begins _ _ whole)
  · refine .tail (.single (begins _ _ began)) ⟨.finish t mayWrite mayRead fuel, trivial, ?_⟩
    dsimp only [fileServer, Server.step]
    rw [Server.become_self]
    dsimp only
    rw [Server.become_state, finished, Server.after, Server.become_become]

/-- A call that returns is a run of its thread. -/
theorem onMessage_steps_of_ok {mayWrite mayRead : List Byte → Bool} {fuel : Nat} {s' : State} {b b' : Buffer}
    (idle : server.threads t = .idle)
    (ran : onMessage ⟨mayWrite, mayRead, file⟩ fuel server.state b = .ok (s', b')) :
    (fileServer file).Steps anyStep server (server.become t s' .idle) := by
  have loop : ∀ (fuel : Nat) (s : State) (b : Buffer), onMessage ⟨mayWrite, mayRead, file⟩ fuel s b = .ok (s', b') →
      (fileServer file).Steps anyStep (server.become t s (.reading b)) (server.become t s' .idle) := by
    intro fuel
    induction fuel with
    | zero =>
      intro s b ran
      cases ran
    | succ fuel ih =>
      intro s b ran
      rw [onMessage] at ran
      split at ran
      · obtain ⟨flow, turned, ran⟩ := Lib.bind_ok ran
        have first : (fileServer file).Steps anyStep (server.become t s (.reading b))
            (server.become t flow.state flow.thread) := turn_steps turned
        cases flow with
        | returned s b =>
          obtain ⟨rfl, -⟩ := Prod.mk.inj (Except.ok.inj ran)
          exact first
        | goesOn s b => exact first.trans (ih s b ran)
      · rename_i empty
        obtain ⟨rfl, -⟩ := Prod.mk.inj (Except.ok.inj ran)
        have ends : turn ⟨mayWrite, mayRead, file⟩ 0 s b = .ok (.returned s b) := turn_short (by omega) 0
        exact turn_steps ends
  refine .head ⟨.call t b, trivial, ?_⟩ (loop fuel server.state b ran)
  dsimp only [fileServer, Server.step]
  rw [idle]

end Dserver.FileServer
