import Dserver.Net.OutputStream

/-!
# `shutdown` against `send`

`shutdown` in the loop's thread acts at once, and `handleWrite` shuts the socket down when the buffer is
empty; neither looks at the messages that wait in `pendingFunctors_`. `Patient` is the condition that
none waits then.
-/

namespace Dserver.Net

def Functor.sends (c : ConnId) : Functor → Bool
  | sendInLoop b _ _ => b == c
  | _ => false

/-- A functor that neither sends on `c` nor shuts it down. -/
def Functor.Neutral (c : ConnId) (cb : Functor) : Prop := cb ≠ .shutdownInLoop c ∧ cb.sends c = false

theorem Functor.IsCallback.neutral {cb : Functor} {b c : ConnId} (h : cb.IsCallback b) : cb.Neutral c := by
  rcases h with rfl | ⟨_, rfl⟩
  · exact ⟨by simp, rfl⟩
  · exact ⟨by simp, rfl⟩

namespace TcpServer

variable {s s₁ s' : TcpServer} {label : Label} {taken : List Functor} {c : ConnId}

/-- No message for `c` waits in the IO loop. -/
def NoQueuedSend (s : TcpServer) (c : ConnId) : Prop := ∀ cb ∈ s.todo, cb.sends c = false

instance (s : TcpServer) (c : ConnId) : Decidable (s.NoQueuedSend c) :=
  inferInstanceAs (Decidable (∀ cb ∈ s.todo, cb.sends c = false))

/-- Where the call would shut the socket down at once, no message waits. -/
def PatientCall (s : TcpServer) (c : ConnId) : TcpConnection.Call → Prop
  | .shutdown => (s.conn c).state = .kConnected → (s.conn c).channel.isWriting = false → s.NoQueuedSend c
  | .handleWrite r => (s.conn c).state = .kDisconnecting → (s.conn c).channel.isWriting = true →
      r.accepted (s.conn c).outputBuffer.readable = (s.conn c).outputBuffer.readable → s.NoQueuedSend c
  | _ => True

instance (s : TcpServer) (c : ConnId) : (call : TcpConnection.Call) → Decidable (s.PatientCall c call)
  | .shutdown => inferInstanceAs (Decidable (_ → _ → _))
  | .handleWrite _ => inferInstanceAs (Decidable (_ → _ → _ → _))
  | .connectEstablished | .connectDestroyed | .send .. | .sendInLoop .. | .shutdownInLoop | .startReadInLoop
  | .stopReadInLoop | .retrieveInput _ | .setHighWaterMarkCallback .. | .handleClose | .handleRead _ =>
    instDecidableTrue

def Patient (s : TcpServer) (label : Label) : Prop :=
  ∀ made ∈ s.callOf label, s.PatientCall made.1 made.2

instance (s : TcpServer) (label : Label) : Decidable (s.Patient label) :=
  inferInstanceAs (Decidable (∀ made ∈ s.callOf label, s.PatientCall made.1 made.2))

def Label.isPush : Label → Bool
  | push _ => true
  | _ => false

def Label.isSetState : Label → Bool
  | setState _ => true
  | _ => false

/-- Calls are atomic: a thread that has entered a call goes on to set `state_`, if it is to, and to push its
functor. -/
def Atomic (s : TcpServer) (label : Label) : Prop :=
  (s.shutting = [] ∨ label.isSetState = true) ∧ (s.calling = [] ∨ label.isPush = true)

instance (s : TcpServer) (label : Label) : Decidable (s.Atomic label) :=
  inferInstanceAs (Decidable (_ ∧ _))

/-- At most one thread is past the test of `shutdown`, and what it has tested still holds. -/
structure Tested (s : TcpServer) : Prop where
  single : s.shutting.length ≤ 1
  connected : ∀ call ∈ s.shutting, (s.conn call.2).state = .kConnected

/-- The functors still to run, with the one a call is about to push. -/
def sequence (s : TcpServer) (taken : List Functor) : List Functor :=
  taken ++ s.todo ++ s.calling.map Prod.snd

/-- Messages come before the shutdown in the queue, and none is left once the socket is shut down. -/
structure Graceful (s : TcpServer) (taken : List Functor) (c : ConnId) : Prop where
  connected : (s.conn c).state = .kConnected →
    Functor.shutdownInLoop c ∉ s.sequence taken ∧ .shutdownWrite ∉ (s.conn c).socket
  ordered : (s.conn c).state ≠ .kDisconnected →
    (s.sequence taken).Pairwise fun first second => first = .shutdownInLoop c → second.sends c = false
  finished : (s.conn c).state ≠ .kDisconnected → .shutdownWrite ∈ (s.conn c).socket →
    (∀ cb ∈ s.sequence taken, cb.sends c = false) ∧ (s.conn c).outputBuffer.readable = [] ∧
      ∀ pre post, (s.conn c).socket = pre ++ .shutdownWrite :: post → ∀ op ∈ post, op = .shutdownWrite

structure Orderly (s : TcpServer) (taken : List Functor) : Prop where
  single : s.calling.length ≤ 1
  fresh : ∀ c, c ∉ s.created → Functor.shutdownInLoop c ∉ s.sequence taken
  graceful : ∀ c ∈ s.created, s.Graceful taken c

theorem eq_singleton_of_lookup {α : Type} {t : Tid} {a : α} {calls : List (Tid × α)} (single : calls.length ≤ 1)
    (found : calls.lookup t = some a) : calls = [(t, a)] := by
  obtain ⟨front, back, split, _⟩ := List.lookup_eq_some_iff.mp found
  rw [split, List.length_append, List.length_cons] at single
  have first : front = [] := List.eq_nil_of_length_eq_zero (by omega)
  have last : back = [] := List.eq_nil_of_length_eq_zero (by omega)
  rw [split, first, last, List.nil_append]

/-! ### The test of `shutdown` -/

theorem Tested.of_idle (idle : s.shutting = []) : s.Tested := ⟨by simp [idle], by simp [idle]⟩

theorem control_tested (idle : s.shutting = []) (control : Control s s₁ label taken) : s₁.Tested := by
  cases control with
  | quiet keeps => exact .of_idle (keeps.shutting.trans idle)
  | tested t c _ _ connected rest =>
    subst rest
    have only : (s.enterShutdown t c).shutting = [(t, c)] := by simp [enterShutdown, idle]
    refine ⟨by simp [only], ?_⟩
    rw [only, List.forall_mem_singleton]
    exact connected
  | stored t c found _ =>
    rw [idle] at found
    cases found
  | queued _ _ rest | called _ _ _ _ _ _ rest | calledTask _ _ rest | pushed _ _ _ rest | removed _ _ _ _ _ rest
  | freed _ _ _ _ _ _ rest =>
    subst rest
    exact .of_idle idle

/-- A step that makes a call starts and ends none of another thread. -/
theorem Moved.threads {made : ConnId × TcpConnection.Call} (moved : Moved s s₁ s' label taken (some made)) :
    s₁.calling = s.calling ∧ s₁.shutting = s.shutting := by
  have origin := moved.origin
  have step := moved.step
  generalize found : some made = called at origin
  cases origin with
  | silent => cases found
  | direct c call plain old made =>
    obtain ⟨handler, rfl⟩ := callOf_handler plain old step made
    exact ⟨rfl, rfl⟩
  | functor cb r same =>
    subst same
    simp only [TcpServer.control] at step
    split at step
    · obtain ⟨loop, _, rfl⟩ := advance_ok step
      exact ⟨rfl, rfl⟩
    · cases step

theorem setState_tested {t : Tid} (h : s.Tested) (step : s.step (.setState t) = some (.ok s')) : s'.Tested := by
  simp only [TcpServer.step, control, callOf] at step
  cases found : s.shutting.lookup t with
  | none => simp [found] at step
  | some c =>
    simp only [found, Option.some.injEq, Except.ok.injEq] at step
    subst step
    exact .of_idle (by simp [setState, eq_singleton_of_lookup h.single found])

theorem step_tested (loops : s.Loops) (h : s.Tested) (atomic : s.Atomic label)
    (step : s.step label = some (.ok s')) : s'.Tested := by
  rcases atomic.1 with idle | stores
  · rcases step_cases loops step with ⟨c, fd, x, _, born⟩ | ⟨s₁, taken, made, moved⟩
    · exact .of_idle (born.result ▸ idle)
    · rcases moved.ended with ⟨_, rfl⟩ | ⟨c, call, x, rfl, _, _, rfl⟩
      · exact control_tested idle moved.control
      · exact .of_idle (moved.threads.2.trans idle)
  · cases label with
    | setState t => exact setState_tested h step
    | _ => cases stores

theorem reachable_tested (h : tcpServer.Reachable Atomic s) : s.Tested := by
  refine h.invariant ?_ fun a label b reached tested atomic step =>
    step_tested (reachable_loops reached) tested atomic step
  rintro a ⟨_, _, _, _, rfl⟩
  exact .of_idle rfl

theorem Tested.onTime (h : s.Tested) (label : Label) : s.OnTime label := by
  cases label with
  | setState t =>
    intro c found
    rw [h.connected _ (mem_of_lookup found)]
    simp
  | _ => trivial

/-- In an atomic call nothing comes between the test and the store. -/
theorem onTime_of_atomic {guard : TcpServer → Label → Prop} (atomic : ∀ a label, guard a label → a.Atomic label)
    (h : tcpServer.Reachable guard s) : tcpServer.Reachable OnTime s :=
  h.strengthen fun _ label reached _ => (reachable_tested (reached.mono atomic)).onTime label

/-! ### The sequence of functors -/

theorem Graceful.of_eq {taken' front kept new : List Functor} (h : s.Graceful taken c)
    (state : (s₁.conn c).state = (s.conn c).state) (socket : (s₁.conn c).socket = (s.conn c).socket)
    (buffer : (s₁.conn c).outputBuffer.readable = (s.conn c).outputBuffer.readable)
    (before : s.sequence taken = front ++ kept) (after : s₁.sequence taken' = kept ++ new)
    (neutral : ∀ cb ∈ new, cb.Neutral c) : s₁.Graceful taken' c := by
  refine ⟨?_, ?_, ?_⟩
  · rw [state, socket, after]
    intro connected
    obtain ⟨unshut, silent⟩ := h.connected connected
    rw [before] at unshut
    refine ⟨fun member => ?_, silent⟩
    rcases List.mem_append.mp member with old | late
    · exact unshut (List.mem_append_right _ old)
    · exact (neutral _ late).1 rfl
  · rw [state, after]
    intro live
    have order := h.ordered live
    rw [before] at order
    refine List.pairwise_append.mpr ⟨(List.pairwise_append.mp order).2.1, ?_, ?_⟩
    · exact List.pairwise_of_forall_mem_list fun a _ b member _ => (neutral b member).2
    · exact fun a _ b member _ => (neutral b member).2
  · rw [state, socket, buffer, after]
    intro live shut
    obtain ⟨silent, empty, last⟩ := h.finished live shut
    rw [before] at silent
    refine ⟨fun cb member => ?_, empty, last⟩
    rcases List.mem_append.mp member with old | late
    · exact silent cb (List.mem_append_right _ old)
    · exact (neutral cb late).2

theorem sequence_idle (idle : s.calling = []) (taken : List Functor) : s.sequence taken = taken ++ s.todo := by
  rw [sequence, idle, List.map_nil, List.append_nil]

theorem sequence_enterCall (idle : s.calling = []) (t : Tid) (b : ConnId) (op : UserCall) :
    (s.enterCall t b op).sequence [] = s.todo ++ [op.functor t b] := by
  simp [sequence, enterCall, idle, todo]

theorem sequence_setState (idle : s.calling = []) (t : Tid) (b : ConnId) :
    (s.setState t b).sequence [] = s.todo ++ [.shutdownInLoop b] := by
  simp [sequence, setState, idle, todo]

/-- Pushing the functor of the only call does not change the sequence. -/
theorem push_orderly {t : Tid} (h : s.Orderly []) (moved : s.control (.push t) = some (.ok s₁)) :
    s₁.Orderly [] := by
  simp only [control] at moved
  split at moved
  · rename_i cb found
    obtain rfl := Except.ok.inj (Option.some.inj moved)
    have pushed := pushCall_pushed s t cb
    have only := eq_singleton_of_lookup h.single found
    have done : (s.pushCall t cb).calling = [] := by simp [pushCall, only]
    have before : s.sequence [] = s.todo ++ [cb] := by simp [sequence, only]
    have same : (s.pushCall t cb).sequence [] = s.sequence [] := by
      rw [sequence_idle done, before]
      exact pushed.waiting
    refine ⟨by simp [done], ?_, ?_⟩
    · intro c new
      rw [same]
      exact h.fresh c new
    · intro c created
      exact (h.graceful c created).of_eq rfl rfl rfl (List.nil_append _).symm
        (same.trans (List.append_nil _).symm) (by simp)
  · cases moved

theorem Orderly.grow {new : List Functor} (h : s.Orderly []) (idle : s.calling = [])
    (single : s₁.calling.length ≤ 1) (created : s₁.created = s.created) (conn : s₁.conn = s.conn)
    (after : s₁.sequence taken = s.todo ++ new) (neutral : ∀ c, ∀ cb ∈ new, cb.Neutral c) :
    s₁.Orderly taken := by
  have before : s.sequence [] = [] ++ s.todo := sequence_idle idle []
  refine ⟨single, ?_, ?_⟩
  · intro c fresh member
    rw [after] at member
    rcases List.mem_append.mp member with old | late
    · refine h.fresh c (created ▸ fresh) ?_
      rw [before]
      exact old
    · exact (neutral c _ late).1 rfl
  · intro c member
    exact (h.graceful c (created ▸ member)).of_eq (by rw [conn]) (by rw [conn]) (by rw [conn]) before after
      (neutral c)

theorem functor_neutral {t : Tid} {b : ConnId} {op : UserCall} (different : c ≠ b) :
    (op.functor t b).Neutral c := by
  cases op with
  | send => exact ⟨by simp [UserCall.functor], by simpa [UserCall.functor, Functor.sends] using different.symm⟩
  | startRead => exact ⟨by simp [UserCall.functor], rfl⟩
  | stopRead => exact ⟨by simp [UserCall.functor], rfl⟩

theorem called_graceful {t : Tid} {b : ConnId} {op : UserCall} (h : s.Graceful [] c) (idle : s.calling = [])
    (passes : op.passes (s.conn b) = true) : (s.enterCall t b op).Graceful [] c := by
  have before : s.sequence [] = s.todo := sequence_idle idle []
  have after := sequence_enterCall idle t b op
  by_cases same : c = b
  · subst same
    have conn := enterCall_self s t c op
    have plain : (op.functor t c).Neutral c → op.enter t (s.conn c) = s.conn c →
        (s.enterCall t c op).Graceful [] c := by
      intro neutral unchanged
      refine h.of_eq ?_ ?_ ?_ (before.trans (List.nil_append _).symm) after (by simpa using neutral)
      all_goals rw [conn, unchanged]
    cases op with
    | startRead => exact plain ⟨by simp [UserCall.functor], rfl⟩ rfl
    | stopRead => exact plain ⟨by simp [UserCall.functor], rfl⟩ rfl
    | send arg =>
      have connected : (s.conn c).state = .kConnected := beq_iff_eq.mp passes
      have live : (s.conn c).state ≠ .kDisconnected := by simp [connected]
      obtain ⟨unshut, silent⟩ := h.connected connected
      have order := h.ordered live
      rw [before] at unshut order
      refine ⟨fun _ => ?_, fun _ => ?_, fun _ shut => ?_⟩
      · rw [after, conn]
        exact ⟨by simpa [UserCall.functor] using unshut, silent⟩
      · rw [after]
        refine List.pairwise_append.mpr ⟨order, List.pairwise_singleton _ _, ?_⟩
        rintro first member second _ rfl
        exact absurd member unshut
      · rw [conn] at shut
        exact absurd shut silent
  · have conn : (s.enterCall t b op).conn c = s.conn c := enterCall_other same
    refine h.of_eq ?_ ?_ ?_ (before.trans (List.nil_append _).symm) after
      (by simpa using functor_neutral same)
    all_goals rw [conn]

theorem stored_graceful {t : Tid} {b : ConnId} (h : s.Graceful [] c) (idle : s.calling = [])
    (connected : (s.conn b).state = .kConnected) : (s.setState t b).Graceful [] c := by
  have before : s.sequence [] = s.todo := sequence_idle idle []
  have after := sequence_setState idle t b
  by_cases same : c = b
  · subst same
    have conn := setState_self s t c
    obtain ⟨_, silent⟩ := h.connected connected
    have order := h.ordered (by simp [connected])
    rw [before] at order
    refine ⟨fun reopened => ?_, fun _ => ?_, fun _ shut => ?_⟩
    · rw [conn] at reopened
      cases reopened
    · rw [after]
      refine List.pairwise_append.mpr ⟨order, List.pairwise_singleton _ _, ?_⟩
      intro first _ second member _
      rw [List.mem_singleton.mp member]
      rfl
    · rw [conn] at shut
      exact absurd shut silent
  · have conn : (s.setState t b).conn c = s.conn c := setState_other same
    refine h.of_eq ?_ ?_ ?_ (before.trans (List.nil_append _).symm) after ?_
    · rw [conn]
    · rw [conn]
    · rw [conn]
    · simpa using ⟨by simpa using Ne.symm same, rfl⟩

theorem appended_fresh {cb : Functor} {b : ConnId} (h : s.Orderly [])
    (idle : s.calling = []) (member : b ∈ s.created) (after : s₁.sequence [] = s.todo ++ [cb])
    (neutral : ∀ c, c ≠ b → cb.Neutral c) : ∀ c, c ∉ s.created → Functor.shutdownInLoop c ∉ s₁.sequence [] := by
  intro c fresh listed
  have different : c ≠ b := by
    rintro rfl
    exact fresh member
  rw [after] at listed
  rcases List.mem_append.mp listed with old | late
  · refine h.fresh c fresh ?_
    rw [sequence_idle idle]
    exact old
  · exact (neutral c different).1 (List.mem_singleton.mp late).symm

theorem control_orderly (inv : s.Inv []) (h : s.Orderly []) (tested : s.Tested) (idle : s.calling = [])
    (control : Control s s₁ label taken) : s₁.Orderly taken := by
  have sequence₁ : s₁.calling = [] → s₁.sequence taken = taken ++ s₁.todo := fun none => sequence_idle none taken
  cases control with
  | quiet keeps _ calling todo _ _ =>
    rw [idle] at calling
    have after : s₁.sequence taken = s.todo := (sequence₁ calling).trans todo.symm
    have before : s.sequence [] = s.todo := sequence_idle idle []
    refine ⟨by simp [calling], ?_, ?_⟩
    · intro c fresh
      rw [after, ← before]
      exact h.fresh c (keeps.created ▸ fresh)
    · intro c created
      obtain ⟨_, _, same⟩ := keeps.conn c
      refine (h.graceful c (keeps.created ▸ created)).of_eq ?_ ?_ ?_ (before.trans (List.nil_append _).symm)
        (after.trans (List.append_nil _).symm) (by simp)
      all_goals rw [same]
  | queued loop pushed rest =>
    subst rest
    refine h.grow idle (by simp [idle]) rfl rfl ((sequence₁ idle).trans pushed.waiting) ?_
    exact fun c cb member => List.mem_singleton.mp member ▸ ⟨by simp, rfl⟩
  | called t b op _ member passes rest =>
    subst rest
    refine ⟨by simp [enterCall, idle], ?_, fun c created => called_graceful (h.graceful c created) idle passes⟩
    exact appended_fresh (s := s) h idle (inv.registered.subset member) (sequence_enterCall idle t b op)
      fun c different => functor_neutral different
  | tested t b _ _ _ rest =>
    subst rest
    have after : (s.enterShutdown t b).sequence [] = s.todo ++ [] := by
      rw [sequence₁ idle, List.nil_append, List.append_nil]
      rfl
    exact h.grow idle h.single rfl rfl after (by simp)
  | stored t b found rest =>
    subst rest
    have member := mem_of_lookup found
    refine ⟨by simp [setState, idle], ?_,
      fun c created => stored_graceful (h.graceful c created) idle (tested.connected _ member)⟩
    exact appended_fresh (s := s) h idle (inv.shutting _ member) (sequence_setState idle t b)
      fun c different => ⟨by simpa using different.symm, rfl⟩
  | calledTask t _ rest =>
    subst rest
    have after : sequence { s with calling := s.calling ++ [(t, .task)] } [] = s.todo ++ [.task] := by
      simp [sequence, idle, todo]
    refine h.grow idle (by simp [idle]) rfl rfl after ?_
    exact fun c cb member => List.mem_singleton.mp member ▸ ⟨by simp, rfl⟩
  | pushed t cb found rest =>
    rw [idle] at found
    cases found
  | removed b loop base _ pushed rest =>
    subst rest
    refine h.grow idle (by simp [idle]) rfl rfl ((sequence₁ idle).trans pushed.waiting) ?_
    exact fun c cb member => List.mem_singleton.mp member ▸ ⟨by simp, rfl⟩
  | freed _ b _ _ _ _ rest =>
    subst rest
    have after : (s.closeSocket b).sequence [] = s.todo ++ [] := by
      rw [sequence₁ idle, List.nil_append, List.append_nil]
      rfl
    exact h.grow idle (by simp [closeSocket, idle]) rfl rfl after (by simp)

/-! ### Calls -/

theorem last_of_append {socket pre post : List SocketOp}
    (last : ∀ pre post, socket = pre ++ .shutdownWrite :: post → ∀ op ∈ post, op = .shutdownWrite)
    (split : socket ++ [.shutdownWrite] = pre ++ .shutdownWrite :: post) : ∀ op ∈ post, op = .shutdownWrite := by
  rcases List.eq_nil_or_concat' post with rfl | ⟨front, op, rfl⟩
  · simp
  · rw [← List.cons_append, ← List.append_assoc] at split
    obtain ⟨before, same⟩ := List.append_inj' split rfl
    intro op' member
    rcases List.mem_append.mp member with old | late
    · exact last pre front before op' old
    · rw [List.mem_singleton.mp late]
      exact (List.singleton_inj.mp same).symm

theorem last_of_absent {socket : List SocketOp} (absent : .shutdownWrite ∉ socket) :
    ∀ pre post, socket = pre ++ .shutdownWrite :: post → ∀ op ∈ post, op = .shutdownWrite := by
  rintro pre post rfl
  exact absurd (List.mem_append_right _ List.mem_cons_self) absent

/-- The socket is shut down now: what `Graceful` asks for, given that no message waits. -/
theorem Graceful.shut {x : Ctx} (todo : s'.sequence [] = s.todo ++ x.queued)
    (callbacks : ∀ cb ∈ x.queued, cb.IsCallback c) (conn : s'.conn c = x.conn)
    (state : x.conn.state = .kDisconnecting) (quiet : s.NoQueuedSend c)
    (empty : x.conn.outputBuffer.readable = [])
    (last : ∀ pre post, x.conn.socket = pre ++ .shutdownWrite :: post → ∀ op ∈ post, op = .shutdownWrite) :
    s'.Graceful [] c := by
  have silent : ∀ cb ∈ s'.sequence [], cb.sends c = false := by
    intro cb member
    rw [todo] at member
    rcases List.mem_append.mp member with old | late
    · exact quiet cb old
    · exact (callbacks cb late).neutral.2
  refine ⟨fun connected => ?_, fun _ => ?_, fun _ _ => ⟨silent, conn ▸ empty, conn ▸ last⟩⟩
  · rw [conn, state] at connected
    cases connected
  · exact List.pairwise_of_forall_mem_list fun _ _ b member _ => silent b member

theorem graceful_down (down : (s.conn c).state = .kDisconnected) : s.Graceful taken c := by
  refine ⟨fun connected => ?_, fun live => absurd down live, fun live => absurd down live⟩
  rw [down] at connected
  cases connected

/-- What a call leaves waiting, and whose callbacks it queues. -/
structure Follows (s s' : TcpServer) (taken : List Functor) (c : ConnId) (x : Ctx) : Prop where
  before : s.sequence taken = taken ++ s.todo
  after : s'.sequence [] = s.todo ++ x.queued
  callbacks : ∀ cb ∈ x.queued, cb.IsCallback c
  conn : s'.conn c = x.conn

theorem Follows.idle {x : Ctx} (h : s.Graceful taken c) (follows : Follows s s' taken c x)
    (output : (s.conn c).Inv) (out : TcpConnection.Outputs (s.ctx c) x [])
    (state : x.conn.state = (s.conn c).state) (sends : x.conn.sends = (s.conn c).sends) :
    s'.Graceful [] c := by
  have socket : x.conn.socket = (s.conn c).socket := out.socket.trans (List.append_nil _)
  have same : x.conn.outputBuffer.readable = (s.conn c).outputBuffer.readable := by
    have stream := out.inv.stream
    rw [TcpConnection.sent, TcpConnection.delivered, socket, sends] at stream
    exact List.append_cancel_left (stream.trans output.stream.symm)
  have conn := follows.conn
  exact h.of_eq (conn ▸ state) (conn ▸ socket) (conn ▸ same) follows.before follows.after
    fun cb member => (follows.callbacks cb member).neutral

theorem Follows.write {x : Ctx} (h : s.Graceful taken c) (follows : Follows s s' taken c x)
    (state : x.conn.state = (s.conn c).state) (unshut : .shutdownWrite ∉ x.conn.socket) :
    s'.Graceful [] c := by
  have tail : ∀ cb, cb ∈ s'.sequence [] → cb ∈ s.sequence taken ∨ cb.Neutral c := by
    intro cb member
    rw [follows.after] at member
    rcases List.mem_append.mp member with old | late
    · exact .inl (follows.before ▸ List.mem_append_right _ old)
    · exact .inr (follows.callbacks cb late).neutral
  refine ⟨fun connected => ⟨fun member => ?_, follows.conn ▸ unshut⟩, fun live => ?_, fun _ shut => ?_⟩
  · rw [follows.conn, state] at connected
    rcases tail _ member with old | neutral
    · exact (h.connected connected).1 old
    · exact neutral.1 rfl
  · rw [follows.conn, state] at live
    have order := h.ordered live
    rw [follows.before] at order
    rw [follows.after]
    refine List.pairwise_append.mpr ⟨(List.pairwise_append.mp order).2.1, ?_, ?_⟩
    · exact List.pairwise_of_forall_mem_list fun a _ b member _ => (follows.callbacks b member).neutral.2
    · exact fun a _ b member _ => (follows.callbacks b member).neutral.2
  · exact absurd (follows.conn ▸ shut) unshut

theorem sendInLoop_graceful {x : Ctx} {t sender : Tid} {message : Message} {r : WriteResult}
    (h : s.Graceful taken c) (output : (s.conn c).Inv) (follows : Follows s s' taken c x)
    (made : Made t taken c (.sendInLoop sender message r))
    (ran : TcpConnection.sendInLoop (s.ctx c) sender message r = .ok x) : s'.Graceful [] c := by
  obtain ⟨outcome, frame, _⟩ := TcpConnection.sendInLoop_frame ran
  have state : x.conn.state = (s.conn c).state := frame.state
  by_cases down : (s.conn c).state = .kDisconnected
  · exact graceful_down (follows.conn ▸ state.trans down)
  · obtain ⟨ops, out, issues⟩ := TcpConnection.sendInLoop_outputs (x := s.ctx c) output ran
    refine follows.write h state ?_
    rw [out.socket, List.mem_append, not_or]
    refine ⟨fun shut => ?_, issues⟩
    -- this message would be waiting behind the shutdown
    have silent := (h.finished down shut).1 (.sendInLoop c sender message)
    rw [follows.before, made.sendInLoop] at silent
    simp [Functor.sends] at silent

theorem shutdownInLoop_graceful {x : Ctx} {t : Tid} (h : s.Graceful taken c) (output : (s.conn c).Inv)
    (once : (s.conn c).ClosedOnce) (established : (s.conn c).state ≠ .kConnecting) (follows : Follows s s' taken c x)
    (made : Made t taken c .shutdownInLoop) (ran : TcpConnection.shutdownInLoop (s.ctx c) = .ok x) :
    s'.Graceful [] c := by
  have frame := TcpConnection.shutdownInLoop_frame ran
  have state : x.conn.state = (s.conn c).state := frame.state
  by_cases down : (s.conn c).state = .kDisconnected
  · exact graceful_down (follows.conn ▸ state.trans down)
  · obtain ⟨ops, out, same, issued⟩ := TcpConnection.shutdownInLoop_outputs (x := s.ctx c) output ran
    rcases issued with rfl | ⟨off, rfl⟩
    · exact follows.idle h output out state frame.sends
    · have first : taken = [.shutdownInLoop c] := by
        rcases made with ⟨_, direct⟩ | ⟨cb, r, rfl, found⟩
        · cases direct
        · cases cb <;> simp [Functor.call] at found
          rw [found]
      have order := h.ordered down
      have before := follows.before
      rw [first] at before
      rw [first, before, List.singleton_append, List.pairwise_cons] at order
      have disconnecting : (s.conn c).state = .kDisconnecting := by
        cases state : (s.conn c).state with
        | kDisconnected => exact absurd state down
        | kConnecting => exact absurd state established
        | kDisconnecting => rfl
        | kConnected =>
          refine absurd ?_ (h.connected state).1
          rw [first, before]
          exact List.mem_cons_self
      refine .shut follows.after follows.callbacks follows.conn (state.trans disconnecting)
        (fun cb member => order.1 cb member rfl) (same ▸ output.idle (once.live down) off) ?_
      intro pre post split
      rw [out.socket] at split
      refine last_of_append ?_ split
      by_cases again : .shutdownWrite ∈ (s.conn c).socket
      · exact (h.finished down again).2.2
      · exact last_of_absent again

theorem shutdown_graceful {x : Ctx} (h : s.Graceful taken c) (output : (s.conn c).Inv)
    (once : (s.conn c).ClosedOnce) (follows : Follows s s' taken c x) (patient : s.PatientCall c .shutdown)
    (ran : TcpConnection.Call.shutdown.run (s.ctx c) = .ok x) : s'.Graceful [] c := by
  have other : TcpConnection.Call.shutdown ≠ .connectDestroyed := nofun
  obtain ⟨ops, out, issued⟩ :=
    TcpConnection.run_outputs (x := s.ctx c) output (fun same => absurd same other) ran
  rcases TcpConnection.shutdown_frame ran with ⟨other, rfl⟩ | ⟨connected, frame⟩
  · obtain rfl : ops = [] := by
      rcases issued with silent | ⟨connected, _⟩
      · exact silent
      · exact absurd connected other
    exact follows.idle h output out rfl rfl
  · have state : x.conn.state = .kDisconnecting := frame.state
    have unshut := (h.connected connected).2
    have live : (s.conn c).state ≠ .kDisconnected := by
      rw [show (s.conn c).state = _ from connected]
      simp
    rcases issued with rfl | ⟨_, off, rfl⟩
    · have socket : x.conn.socket = (s.conn c).socket := out.socket.trans (List.append_nil _)
      have order := h.ordered live
      rw [follows.before] at order
      refine ⟨fun again => ?_, fun _ => ?_, fun _ shut => ?_⟩
      · rw [follows.conn, state] at again
        cases again
      · rw [follows.after]
        refine List.pairwise_append.mpr ⟨(List.pairwise_append.mp order).2.1, ?_, ?_⟩
        · exact List.pairwise_of_forall_mem_list fun a _ b member _ => (follows.callbacks b member).neutral.2
        · exact fun a _ b member _ => (follows.callbacks b member).neutral.2
      · rw [follows.conn, socket] at shut
        exact absurd shut unshut
    · refine .shut follows.after follows.callbacks follows.conn state (patient connected off)
        (out.fin (once.live live) List.mem_cons_self) ?_
      intro pre post split
      rw [out.socket] at split
      exact last_of_append (last_of_absent unshut) split

theorem handleWrite_graceful {x : Ctx} {r : WriteResult} (h : s.Graceful taken c) (output : (s.conn c).Inv)
    (once : (s.conn c).ClosedOnce) (follows : Follows s s' taken c x) (patient : s.PatientCall c (.handleWrite r))
    (ran : TcpConnection.handleWrite (s.ctx c) r = .ok x) : s'.Graceful [] c := by
  have frame := TcpConnection.handleWrite_frame ran
  have state : x.conn.state = (s.conn c).state := frame.state
  obtain ⟨ops, out, issued⟩ := TcpConnection.handleWrite_outputs (x := s.ctx c) output ran
  rcases issued with rfl | ⟨on, issued⟩
  · exact follows.idle h output out state frame.sends
  · have live : (s.conn c).state ≠ .kDisconnected := fun down => by
      cases (output.down down).symm.trans on
    -- there is something to write, so the socket is not shut down
    have unshut : .shutdownWrite ∉ (s.conn c).socket := fun shut =>
      (output.waiting on) (h.finished live shut).2.1
    rcases issued with rfl | ⟨disconnecting, all, rfl⟩
    · refine follows.write h state ?_
      rw [out.socket]
      simpa [ctx] using unshut
    · refine .shut follows.after follows.callbacks follows.conn (state.trans disconnecting)
        (patient disconnecting on all) (out.fin (once.live live) (by simp)) ?_
      intro pre post split
      have socket : (s.conn c).socket ++ [.write (s.conn c).outputBuffer.readable r] ++ [.shutdownWrite] =
          pre ++ .shutdownWrite :: post := by
        rw [← split, out.socket, List.append_assoc]
        rfl
      exact last_of_append (last_of_absent (by simpa using unshut)) socket

theorem run_graceful {x : Ctx} {t : Tid} {call : TcpConnection.Call} (h : s.Graceful taken c)
    (output : (s.conn c).Inv) (once : (s.conn c).ClosedOnce) (life : s.Life taken c)
    (follows : Follows s s' taken c x) (made : Made t taken c call) (start : call ≠ .connectEstablished)
    (patient : s.PatientCall c call) (ran : call.run (s.ctx c) = .ok x) : s'.Graceful [] c := by
  have down : call = .connectDestroyed → (s.conn c).state = .kDisconnected := by
    rintro rfl
    exact once.down (made.destroyed ▸ life).doomed
  have connected : call = .connectDestroyed → (s.ctx c).conn.state ≠ .kConnected := by
    intro destroyed
    rw [show (s.ctx c).conn.state = _ from down destroyed]
    simp
  have effect := TcpConnection.run_effect ran
  obtain ⟨ops, out, issued⟩ := TcpConnection.run_outputs (x := s.ctx c) output connected ran
  cases call with
  | connectEstablished => exact absurd rfl start
  | connectDestroyed =>
    obtain ⟨_, frame, _⟩ := effect (connected rfl)
    exact graceful_down (follows.conn ▸ frame.state.trans (down rfl))
  | send sender arg r =>
    rcases effect with ⟨other, rfl⟩ | ⟨open', outcome, frame⟩
    · obtain rfl : ops = [] := issued.1 other
      exact follows.idle h output out rfl rfl
    · refine follows.write h frame.state ?_
      rw [out.socket, List.mem_append, not_or]
      exact ⟨(h.connected open').2, issued.2⟩
  | sendInLoop sender message r => exact sendInLoop_graceful h output follows made ran
  | shutdown => exact shutdown_graceful h output once follows patient ran
  | shutdownInLoop => exact shutdownInLoop_graceful h output once life.established follows made ran
  | startReadInLoop | stopReadInLoop | retrieveInput | setHighWaterMarkCallback =>
    obtain rfl : ops = [] := issued
    exact follows.idle h output out effect.state effect.sends
  | handleClose => exact graceful_down (follows.conn ▸ effect.2.state)
  | handleRead r =>
    obtain rfl : ops = [] := issued
    rcases effect with frame | ⟨_, frame⟩
    · exact follows.idle h output out frame.state frame.sends
    · exact graceful_down (follows.conn ▸ frame.state)
  | handleWrite r => exact handleWrite_graceful h output once follows patient ran

theorem commit_orderly {x : Ctx} {t : Tid} {call : TcpConnection.Call} (loops : s.Loops) (inv : s.Inv taken)
    (once : ∀ c ∈ s.created, (s.conn c).ClosedOnce) (h : s.Orderly taken) (idle : s.calling = [])
    (member : c ∈ s.alive) (made : Made t taken c call)
    (start : call ≠ .connectEstablished) (patient : s.PatientCall c call) (ran : call.run (s.ctx c) = .ok x) :
    (s.commit c x).Orderly [] := by
  have created := inv.registered.subset member
  have loc := TcpConnection.effect_local (TcpConnection.run_effect ran) (inv.connected member made)
  obtain ⟨new, queued, callbacks⟩ := loc.queued
  have only : ∀ cb ∈ x.queued, cb.IsCallback c := by
    rw [queued]
    exact callbacks
  have pushed := (commit_loops loops c x).2.1
  have before : s.sequence taken = taken ++ s.todo := sequence_idle idle taken
  have done : (s.commit c x).calling = [] := idle
  have after : (s.commit c x).sequence [] = s.todo ++ x.queued :=
    (sequence_idle done []).trans pushed.waiting
  refine ⟨h.single, ?_, ?_⟩
  · intro d fresh listed
    rw [after] at listed
    rcases List.mem_append.mp listed with old | late
    · refine h.fresh d fresh ?_
      rw [before]
      exact List.mem_append_right _ old
    · exact (only _ late).neutral.1 rfl
  · intro d old
    by_cases same : d = c
    · subst same
      exact run_graceful (h.graceful d old) (inv.output d old) (once d old) (inv.life d old)
        ⟨before, after, only, commit_self s d x⟩ made start patient ran
    · have conn := commit_other (s := s) same x
      exact (h.graceful d old).of_eq (by rw [conn]) (by rw [conn]) (by rw [conn]) before after
        fun cb late => (only cb late).neutral

/-! ### Runs -/

theorem patient_moved {made : ConnId × TcpConnection.Call} (patient : s.Patient label)
    (moved : Moved s s₁ s' label taken (some made)) : s₁.PatientCall made.1 made.2 := by
  have origin := moved.origin
  generalize found : some made = called at origin
  cases origin with
  | silent => cases found
  | direct c call plain old made kind start =>
    obtain rfl := Option.some.inj found
    obtain ⟨handler, rfl⟩ := callOf_handler plain old moved.step made
    exact patient (c, call) made
  | functor cb r =>
    -- no functor acts as `shutdown` or `handleWrite` do
    cases cb <;> cases found <;> trivial

theorem Orderly.dropped (h : s.Orderly taken) : s.Orderly [] := by
  have split : s.sequence taken = taken ++ s.sequence [] := by simp [sequence]
  refine ⟨h.single, ?_, ?_⟩
  · intro c fresh member
    refine h.fresh c fresh ?_
    rw [split]
    exact List.mem_append_right _ member
  · intro c created
    exact (h.graceful c created).of_eq rfl rfl rfl split (List.append_nil _).symm (by simp)

theorem born_orderly {fd : Fd} {x : Ctx} (loops : s.Loops) (h : s.Orderly []) (idle : s.calling = [])
    (born : Born s s' c fd x) : s'.Orderly [] := by
  have loops₁ : (s.newConnection c fd).Loops := ⟨loops.loop, loops.base, loops.threads⟩
  have effect := TcpConnection.run_effect born.ran
  obtain ⟨_, queued, callbacks⟩ := (TcpConnection.effect_local effect nofun).queued
  have only : ∀ cb ∈ x.queued, cb.IsCallback c := by
    rw [queued]
    exact callbacks
  have empty : ((s.newConnection c fd).ctx c).conn.socket = [] := by simp only [ctx, newConnection_self]
  obtain ⟨ops, out, silent⟩ := TcpConnection.run_outputs (newConnection_output s c fd) (by nofun) born.ran
  obtain rfl : ops = [] := silent
  have socket : x.conn.socket = [] := by rw [out.socket, empty, List.append_nil]
  have before : s.sequence [] = s.todo := sequence_idle idle []
  have pushed := (commit_loops loops₁ c x).2.1
  rw [born.result]
  have done : ((s.newConnection c fd).commit c x).calling = [] := idle
  have after : ((s.newConnection c fd).commit c x).sequence [] = s.todo ++ x.queued :=
    (sequence_idle done []).trans pushed.waiting
  have unshut : Functor.shutdownInLoop c ∉ ((s.newConnection c fd).commit c x).sequence [] := by
    rw [after, ← before, List.mem_append, not_or]
    exact ⟨h.fresh c born.fresh, fun late => (only _ late).neutral.1 rfl⟩
  refine ⟨h.single, ?_, ?_⟩
  · intro d fresh member
    rw [after, ← before] at member
    rcases List.mem_append.mp member with old | late
    · exact h.fresh d (fun created => fresh (Finset.mem_insert_of_mem created)) old
    · exact (only _ late).neutral.1 rfl
  · intro d created
    by_cases same : d = c
    · subst same
      refine ⟨fun _ => ⟨unshut, ?_⟩, fun _ => ?_, fun _ shut => ?_⟩
      · rw [commit_self, socket]
        exact List.not_mem_nil
      · refine List.pairwise_of_forall_mem_list fun first member second _ shut => ?_
        exact absurd (shut ▸ member) unshut
      · rw [commit_self, socket] at shut
        cases shut
    · have conn : ((s.newConnection c fd).commit c x).conn d = s.conn d := by
        rw [commit_other same, newConnection_other same]
      exact (h.graceful d ((Finset.mem_insert.mp created).resolve_left same)).of_eq (by rw [conn])
        (by rw [conn]) (by rw [conn]) (before.trans (List.nil_append _).symm) after
        fun cb late => (only cb late).neutral

theorem step_orderly (loops : s.Loops) (inv : s.Inv []) (once : ∀ c ∈ s.created, (s.conn c).ClosedOnce)
    (tested : s.Tested) (h : s.Orderly []) (atomic : s.Atomic label) (patient : s.Patient label)
    (step : s.step label = some (.ok s')) : s'.Orderly [] := by
  rcases step_cases loops step with ⟨c, fd, x, rfl, born⟩ | ⟨s₁, taken, made, moved⟩
  · exact born_orderly loops h (atomic.2.resolve_right (by simp [Label.isPush])) born
  · rcases atomic.2 with idle | push
    · have orderly := control_orderly inv h tested idle moved.control
      have inv₁ := control_inv inv moved.control
      have once₁ := control_closedOnce (tested.onTime label) once moved.control
      rcases moved.ended with ⟨rfl, rfl⟩ | ⟨c, call, x, rfl, member, ran, rfl⟩
      · exact orderly.dropped
      · exact commit_orderly moved.loops inv₁ once₁ orderly (moved.threads.1.trans idle) member moved.origin.made
          moved.origin.start (patient_moved patient moved) ran
    · cases label with
      | push t =>
        rcases moved.ended with ⟨_, rfl⟩ | ⟨c, call, x, rfl, _⟩
        · exact push_orderly h moved.step
        · have origin := moved.origin
          generalize found : some (c, call) = called at origin
          cases origin with
          | silent => cases found
          | direct _ _ _ _ made => cases made
          | functor _ _ same => cases same
      | _ => cases push

theorem reachable_orderly (h : tcpServer.Reachable (fun s label => s.Atomic label ∧ s.Patient label) s) :
    s.Orderly [] := by
  refine h.invariant (P := fun a => a.Orderly []) ?_ ?_
  · rintro a ⟨threadId, baseId, _, _, rfl⟩
    exact ⟨by simp, fun c _ => by simp [sequence, todo, Lib.BatchQueue.waiting], by simp⟩
  · intro a label b reached orderly guard step
    have atomic := reached.mono fun _ _ allowed => allowed.1
    exact step_orderly (reachable_loops reached) (reachable_inv reached)
      (reachable_closedOnce (onTime_of_atomic (fun _ _ allowed => allowed.1) reached)) (reachable_tested atomic)
      orderly guard.1 guard.2 step

end TcpServer

/-- Before a FIN every message accepted from any thread is written in full, and nothing is after it. -/
def TcpConnection.ShutGracefully (conn : TcpConnection) : Prop :=
  ∀ pre post, conn.socket = pre ++ .shutdownWrite :: post →
    (∀ op ∈ post, op = .shutdownWrite) ∧
    pre.flatMap SocketOp.sent = conn.sends.flatMap (fun r => r.message.bytes) ∧
    ∀ t, conn.acceptedBy t = conn.sentBy t

namespace TcpServer

variable {s : TcpServer} {c : ConnId}

theorem queuedBy_silent {t : Tid} {cbs : List Functor} (silent : ∀ cb ∈ cbs, cb.sends c = false) :
    queuedBy t c cbs = [] := by
  apply queuedBy_nil
  intro message member
  simpa [Functor.sends] using silent _ member

/-- While no write fails and the peer does not close, a connection is shut down gracefully in every run in
which `shutdown` acts at once, and `handleWrite` finishes it, only when no message waits in the loop. -/
theorem graceful_shutdown (h : tcpServer.Reachable (fun s label => s.Atomic label ∧ s.Patient label) s)
    (created : c ∈ s.created) (live : (s.conn c).state ≠ .kDisconnected)
    (unfailed : ∀ r ∈ (s.conn c).sends, r.refused = false) : (s.conn c).ShutGracefully := by
  intro pre post split
  have shut : .shutdownWrite ∈ (s.conn c).socket := by
    rw [split]
    exact List.mem_append_right _ List.mem_cons_self
  obtain ⟨silent, empty, last⟩ := ((reachable_orderly h).graceful c created).finished live shut
  have after := last pre post split
  have output := (reachable_inv h).output c created
  have closes := (reachable_closedOnce (onTime_of_atomic (fun _ _ allowed => allowed.1) h) c created).live live
  refine ⟨after, ?_, ?_⟩
  · have nothing : (SocketOp.shutdownWrite :: post).flatMap SocketOp.sent = [] := by
      rw [List.flatMap_eq_nil_iff]
      intro op member
      rcases List.mem_cons.mp member with rfl | later
      · rfl
      · rw [after op later]
        rfl
    have all : (s.conn c).sends.filter (fun r => !r.dropped) = (s.conn c).sends := by
      rw [List.filter_eq_self]
      intro r member
      rw [dropped_eq_refused (output.kept closes r member), unfailed r member]
      rfl
    have stream := output.stream
    rw [empty, List.append_nil, TcpConnection.sent, TcpConnection.delivered, split, List.flatMap_append,
      nothing, List.append_nil, all] at stream
    exact stream
  · intro t
    have queued : queuedBy t c s.todo = [] := queuedBy_silent fun cb member =>
      silent cb (by simp [sequence, member])
    have calling : queuedBy t c (s.calling.map Prod.snd) = [] := queuedBy_silent fun cb member =>
      silent cb (by simp only [sequence, List.mem_append]; exact .inr member)
    have order := (reachable_order h).order c created t
    rwa [List.nil_append, queued, calling, List.append_nil, List.append_nil] at order

/-- Thread 2 sends, and the message waits in the loop. -/
def queuedSend : List Label :=
  opening ++ [.call 2 7 (.send (.string twoBytes)), .push 2, .wakeup 2]

/-- The loop sends the message before its own thread shuts the connection down. -/
theorem graceful_shutdown_after_send : ∃ s : TcpServer, (s.conn 7).ShutGracefully ∧
    (s.conn 7).socket = [.write [10, 11] (.wrote 2), .shutdownWrite] := by
  obtain ⟨s, reached, created, live, unfailed, socket⟩ := Lib.Machine.exec_reaches tcpServer
    (fun s label => s.Atomic label ∧ s.Patient label)
    { loop := { threadId := 1 }, base := { threadId := 0 } }
    (queuedSend ++ [.poll [(.wakeup, 0)], .visit, .doPendingFunctors, .functor (.wrote 2), .functorsDone,
      .check, .poll [(.other 0, 0)], .visit, .own 7 .shutdown])
    (fun s => 7 ∈ s.created ∧ (s.conn 7).state ≠ .kDisconnected ∧
      (∀ r ∈ (s.conn 7).sends, r.refused = false) ∧
      (s.conn 7).socket = [.write [10, 11] (.wrote 2), .shutdownWrite])
    ⟨1, 0, false, by decide, rfl⟩ (by decide +kernel)
  exact ⟨s, graceful_shutdown reached created live unfailed, socket⟩

/-- A handler shuts the connection down while the message waits: the FIN overtakes it, and the message is
then written to a socket that is shut down. -/
theorem shutdown_overtakes_send : ∃ s, tcpServer.Reachable Atomic s ∧ 7 ∈ s.created ∧
    (s.conn 7).state ≠ .kDisconnected ∧ (∀ r ∈ (s.conn 7).sends, r.refused = false) ∧
    ¬ (s.conn 7).ShutGracefully := by
  obtain ⟨s, reached, created, live, unfailed, socket⟩ := Lib.Machine.exec_reaches tcpServer Atomic
    { loop := { threadId := 1 }, base := { threadId := 0 } }
    (queuedSend ++ [.poll [(.other 0, 0)], .visit, .own 7 .shutdown, .userReturn, .doPendingFunctors,
      .functor (.wrote 2)])
    (fun s => 7 ∈ s.created ∧ (s.conn 7).state ≠ .kDisconnected ∧
      (∀ r ∈ (s.conn 7).sends, r.refused = false) ∧
      (s.conn 7).socket = [.shutdownWrite, .write [10, 11] (.wrote 2)])
    ⟨1, 0, false, by decide, rfl⟩ (by decide +kernel)
  refine ⟨s, reached, created, live, unfailed, fun graceful => ?_⟩
  cases (graceful [] _ socket).1 (.write [10, 11] (.wrote 2)) List.mem_cons_self

end TcpServer

end Dserver.Net
