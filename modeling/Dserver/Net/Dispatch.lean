import Dserver.Net.ChannelEffect
import Dserver.Net.ServerInvariant

/-!
# `handleEvent` over `activeChannels_`

Where the loop's thread is between `poll` and `doPendingFunctors`, and which connections are still to
be visited. The last section lifts what every call keeps of one connection to whole runs.
-/

namespace Dserver.Net

/-- Equal in what a call may look at; only `shutdown` of another thread shows. -/
structure TcpConnection.Settled (a b : TcpConnection) : Prop where
  fd : b.channel.fd = a.channel.fd
  index : b.channel.index = a.channel.index
  events : b.channel.events = a.channel.events
  reading : b.reading = a.reading
  destroyed : b.destroyed = a.destroyed
  state : b.state = a.state ∨ b.state = .kDisconnecting

theorem TcpConnection.Settled.of_eq {a b : TcpConnection} (h : b = a) : a.Settled b :=
  ⟨by rw [h], by rw [h], by rw [h], by rw [h], by rw [h], .inl (by rw [h])⟩

theorem TcpConnection.Settled.down {a b : TcpConnection} (h : a.Settled b) (down : b.state = .kDisconnected) :
    a.state = .kDisconnected := by
  rcases h.state with same | after
  · exact same ▸ down
  · rw [after] at down
    cases down

def Handler.phase : Handler → Option Phase
  | idle => none
  | functor => some .functors
  | event _ _ | message _ | acceptor | other => some .handle

/-- The handler of an entry of `activeChannels_`. -/
def Entry.handler : Entry → Handler
  | connection c => .event c .close
  | wakeup => .idle
  | acceptor => .acceptor
  | other _ => .other

namespace TcpServer

variable {s s₁ s' : TcpServer} {label : Label} {taken : List Functor} {c : ConnId}

theorem control_settled (control : Control s s₁ label taken) (c : ConnId) : (s.conn c).Settled (s₁.conn c) := by
  cases control with
  | quiet keeps =>
    obtain ⟨_, _, same⟩ := keeps.conn c
    rw [same]
    exact ⟨rfl, rfl, rfl, rfl, rfl, .inl rfl⟩
  | called t d op _ _ passes rest =>
    subst rest
    by_cases same : c = d
    · subst same
      rw [enterCall_self]
      cases op <;> exact ⟨rfl, rfl, rfl, rfl, rfl, .inl rfl⟩
    · exact .of_eq (enterCall_other same)
  | stored t d found rest =>
    subst rest
    by_cases same : c = d
    · subst same
      rw [setState_self]
      exact ⟨rfl, rfl, rfl, rfl, rfl, .inr rfl⟩
    · exact .of_eq (setState_other same)
  | queued _ _ rest | tested _ _ _ _ _ rest | calledTask _ _ rest | pushed _ _ _ rest | removed _ _ _ _ _ rest
  | freed _ _ _ _ _ _ rest =>
    subst rest
    exact .of_eq rfl

/-! ### Where the loop is -/

/-- User code, a queued callback and `handleEvent` run where `loop()` has them. -/
structure Placed (s : TcpServer) : Prop where
  handler : ∀ phase ∈ s.handler.phase, s.loop.phase = phase
  rest : s.rest ≠ [] → s.loop.phase = .handle

/-- What the control part of a step does to the handler and to the entries still to visit. -/
inductive Focus (s s₁ : TcpServer) (label : Label) : Prop where
  | kept (handler : s₁.handler = s.handler) (rest : s₁.rest = s.rest)
      (phase : s₁.loop.phase = s.loop.phase)
      (revents : ∀ c, (s₁.conn c).channel.revents = (s.conn c).channel.revents)
  | turned (calm : s.handler = .idle ∨ s.loop.phase = .outside ∨ s.loop.phase = .head)
      (finished : s.rest = [] ∨ s.loop.phase ≠ .handle) (handler : s₁.handler = s.handler)
      (rest : s₁.rest = [] ∨ s₁.rest = s.rest)
  | polled (reports : List (Entry × Events)) (phase : s.loop.phase = .poll) (after : s₁.loop.phase = .handle)
      (may : ∀ report ∈ reports, s.mayReport report = true) (nodup : (reports.map Prod.fst).Nodup)
      (handler : s₁.handler = s.handler) (rest : s₁.rest = reports.map Prod.fst)
  | visited (entry : Entry) (phase : s.loop.phase = .handle) (after : s₁.loop.phase = .handle)
      (rest : s.rest = entry :: s₁.rest) (handler : s₁.handler = entry.handler)
      (revents : ∀ c, (s₁.conn c).channel.revents = (s.conn c).channel.revents)
  | staged (c : ConnId) (before after : Stage) (was : s.handler = .event c before)
      (handler : s₁.handler = .event c after) (rest : s₁.rest = s.rest)
      (phase : s₁.loop.phase = s.loop.phase)
      (revents : ∀ c, (s₁.conn c).channel.revents = (s.conn c).channel.revents)
      (next : (label = .hangup ∧ before = .close ∧ after = .read) ∨ after = .write ∨ after = .done)
  | returned (was : s.handler ≠ .idle) (handler : s₁.handler = .idle ∨ ∃ c, s.handler = .message c ∧
      s₁.handler = .event c .write) (rest : s₁.rest = s.rest) (phase : s₁.loop.phase = s.loop.phase)
  | ran (idle : s.handler = .idle) (phase : s.loop.phase = .functors) (after : s₁.loop.phase = .functors)
      (handler : s₁.handler = .idle ∨ s₁.handler = .functor) (rest : s₁.rest = s.rest)

theorem advance_phase {step : EventLoop.Label Functor} {next : EventLoop Functor → TcpServer}
    (h : s.advance step next = some (.ok s₁)) :
    ∃ loop, s.loop.Effect loop step ∧ s₁ = next loop := by
  obtain ⟨loop, stepped, rfl⟩ := advance_ok h
  exact ⟨loop, EventLoop.step_effect stepped, rfl⟩

theorem setHandling_revents (s : TcpServer) (b c : ConnId) :
    ((s.setChannel b fun ch => { ch with eventHandling := true }).conn c).channel.revents =
      (s.conn c).channel.revents := by
  by_cases same : c = b
  · subst same
    simp only [setChannel, Function.update_self]
  · simp only [setChannel, Function.update_of_ne same]

theorem visit_focus {entry : Entry} {rest : List Entry} (phase : s.loop.phase = .handle)
    (listed : s.rest = entry :: rest) (idle : s.handler = .idle) (h : s.visit entry rest = some (.ok s₁)) :
    Focus s s₁ label := by
  unfold visit at h
  split at h
  · obtain ⟨loop, ⟨_, rfl⟩, rfl⟩ := advance_phase h
    exact .visited .wakeup phase phase listed idle fun _ => rfl
  · obtain rfl := Except.ok.inj (Option.some.inj h)
    exact .visited .acceptor phase phase listed rfl fun _ => rfl
  · obtain rfl := Except.ok.inj (Option.some.inj h)
    exact .visited (.other _) phase phase listed rfl fun _ => rfl
  · rename_i c
    split at h
    · obtain rfl := Except.ok.inj (Option.some.inj h)
      exact .visited (.connection c) phase phase listed rfl (setHandling_revents s c)
    · cases h

theorem userReturn_focus (h : s.control .userReturn = some (.ok s₁)) : Focus s s₁ .userReturn := by
  simp only [control] at h
  split at h
  · rename_i c was
    obtain rfl := Except.ok.inj (Option.some.inj h)
    exact .returned (by simp [was]) (.inr ⟨c, was, rfl⟩) rfl rfl
  all_goals rename_i was
  iterate 3
    · obtain rfl := Except.ok.inj (Option.some.inj h)
      exact .returned (by simp [was]) (.inl rfl) rfl rfl
  all_goals cases h

theorem foreign_focus {t : Tid} {l : EventLoop.Label Functor} (h : s.advance l (fun loop => { s with loop }) =
    some (.ok s₁)) (kind : l = .wakeup t ∨ l = .quit t) : Focus s s₁ label := by
  obtain ⟨loop, effect, rfl⟩ := advance_phase h
  rcases kind with rfl | rfl
  · obtain rfl : loop = _ := effect
    exact .kept rfl rfl rfl fun _ => rfl
  · rcases effect with rfl | ⟨_, _, rfl⟩
    · exact .kept rfl rfl rfl fun _ => rfl
    · exact .kept rfl rfl rfl fun _ => rfl

theorem control_focus (old : ∀ c fd, label ≠ .accept c fd) (h : s.control label = some (.ok s₁)) :
    Focus s s₁ label := by
  cases label with
  | enter =>
    simp only [control, Option.ite_none_right_eq_some] at h
    obtain ⟨loop, _, rfl⟩ := advance_phase h.2
    exact .turned (.inr (.inl h.1)) (.inr (by simp [h.1])) rfl (.inr rfl)
  | check =>
    obtain ⟨loop, ⟨phase, rfl⟩, rfl⟩ := advance_phase h
    split
    · exact .turned (.inr (.inr phase)) (.inr (by simp [phase])) rfl (.inl rfl)
    · exact .turned (.inr (.inr phase)) (.inr (by simp [phase])) rfl (.inr rfl)
  | poll reports =>
    simp only [control, Option.ite_none_right_eq_some] at h
    obtain ⟨⟨may, nodup⟩, h⟩ := h
    obtain ⟨loop, ⟨phase, rfl⟩, rfl⟩ := advance_phase h
    exact .polled reports phase rfl (List.all_eq_true.mp may) nodup rfl rfl
  | visit =>
    simp only [control] at h
    split at h
    · rename_i entry rest phase idle listed
      exact visit_focus phase listed idle h
    · cases h
  | hangup =>
    simp only [control] at h
    split at h
    · rename_i c was
      obtain rfl := Except.ok.inj (Option.some.inj h)
      exact .staged c .close .read was rfl rfl rfl (fun _ => rfl) (.inl ⟨rfl, rfl, rfl⟩)
    · cases h
  | readable r =>
    simp only [control] at h
    split at h
    · rename_i c was
      obtain rfl := Except.ok.inj (Option.some.inj h)
      exact .staged c .read .write was rfl rfl rfl (fun _ => rfl) (.inr (.inl rfl))
    · cases h
  | writable r =>
    simp only [control] at h
    split at h
    · rename_i c was
      obtain rfl := Except.ok.inj (Option.some.inj h)
      exact .staged c .write .done was rfl rfl rfl (fun _ => rfl) (.inr (.inr rfl))
    · cases h
  | handled =>
    simp only [control] at h
    split at h
    · rename_i c was
      obtain rfl := Except.ok.inj (Option.some.inj h)
      exact .returned (by simp [was]) (.inl rfl) rfl rfl
    · cases h
  | userReturn => exact userReturn_focus h
  | doPendingFunctors =>
    simp only [control, Option.ite_none_right_eq_some] at h
    obtain ⟨⟨idle, finished⟩, h⟩ := h
    obtain ⟨loop, _, rfl⟩ := advance_phase h
    exact .turned (.inl idle) (.inl finished) rfl (.inr rfl)
  | functor r =>
    simp only [control] at h
    split at h
    · rename_i cb rest idle batch
      obtain ⟨loop, ⟨phase, _, _, _, rfl⟩, rfl⟩ := advance_phase h
      refine .ran idle phase phase ?_ rfl
      cases (cb.call r).isSome <;> simp
    · cases h
  | functorsDone =>
    simp only [control, Option.ite_none_right_eq_some] at h
    obtain ⟨idle, h⟩ := h
    obtain ⟨loop, ⟨phase, _, rfl⟩, rfl⟩ := advance_phase h
    exact .turned (.inl idle) (.inr (by simp [phase])) rfl (.inr rfl)
  | own c call =>
    simp only [control, Option.ite_none_right_eq_some, Option.some.injEq, Except.ok.injEq] at h
    obtain ⟨_, rfl⟩ := h
    exact .kept rfl rfl rfl fun _ => rfl
  | queueTask =>
    simp only [control, Option.ite_none_right_eq_some, Option.some.injEq, Except.ok.injEq] at h
    obtain ⟨_, rfl⟩ := h
    exact .kept rfl rfl (queueAll_pushed s.loop [.task]).phase fun _ => rfl
  | accept c fd => exact absurd rfl (old c fd)
  | call t c op =>
    simp only [control, Option.ite_none_right_eq_some] at h
    obtain ⟨_, h⟩ := h
    split at h
    · obtain rfl := Except.ok.inj (Option.some.inj h)
      refine .kept rfl rfl rfl fun d => ?_
      by_cases same : d = c
      · subst same
        rw [enterCall_self]
        cases op <;> rfl
      · rw [enterCall_other same]
    · obtain rfl := Except.ok.inj (Option.some.inj h)
      exact .kept rfl rfl rfl fun _ => rfl
  | shutdown t c =>
    simp only [control, Option.ite_none_right_eq_some] at h
    obtain ⟨_, h⟩ := h
    split at h
    · obtain rfl := Except.ok.inj (Option.some.inj h)
      exact .kept rfl rfl rfl fun _ => rfl
    · obtain rfl := Except.ok.inj (Option.some.inj h)
      exact .kept rfl rfl rfl fun _ => rfl
  | setState t =>
    simp only [control] at h
    split at h
    · rename_i c _
      obtain rfl := Except.ok.inj (Option.some.inj h)
      refine .kept rfl rfl rfl fun d => ?_
      by_cases same : d = c
      · subst same
        rw [setState_self]
      · rw [setState_other same]
    · cases h
  | callTask t =>
    simp only [control, Option.ite_none_right_eq_some, Option.some.injEq, Except.ok.injEq] at h
    obtain ⟨_, rfl⟩ := h
    exact .kept rfl rfl rfl fun _ => rfl
  | push t =>
    simp only [control] at h
    split at h
    · rename_i cb _
      obtain rfl := Except.ok.inj (Option.some.inj h)
      exact .kept rfl rfl (pushCall_pushed s t cb).phase fun _ => rfl
    · cases h
  | wakeup t => exact foreign_focus h (.inl rfl)
  | quit t =>
    simp only [control, Option.ite_none_right_eq_some] at h
    exact foreign_focus h.2 (.inr rfl)
  | release t c =>
    simp only [control, Option.ite_none_right_eq_some, Option.some.injEq] at h
    obtain ⟨_, h⟩ := h
    unfold destroy at h
    dsimp only at h
    split at h
    · cases h
    · split at h
      · cases h
      · split at h
        · cases h
        · obtain rfl := Except.ok.inj h
          exact .kept rfl rfl rfl fun _ => rfl
  | base l =>
    simp only [control, Option.ite_none_right_eq_some] at h
    obtain ⟨_, h⟩ := h
    split at h
    · obtain rfl := Except.ok.inj (Option.some.inj h)
      exact .kept rfl rfl rfl fun _ => rfl
    · cases h
    · cases h
  | baseFunctor =>
    simp only [control, Option.ite_none_right_eq_some] at h
    obtain ⟨_, h⟩ := h
    split at h
    · obtain rfl := Except.ok.inj (Option.some.inj h)
      exact .kept rfl rfl (EventLoop.queueInLoop_pushed s.loop _ _).phase fun _ => rfl
    · obtain rfl := Except.ok.inj (Option.some.inj h)
      exact .kept rfl rfl rfl fun _ => rfl
    · cases h

/-! ### Where a call comes from -/

/-- A call in the loop's thread: by a functor, by the user, or from `handleEvent`. -/
inductive Source (s s₁ : TcpServer) (label : Label) (c : ConnId) : TcpConnection.Call → Prop where
  | functor {call : TcpConnection.Call} (cb : Functor) (r : WriteResult) (same : label = .functor r)
      (made : cb.call r = some (c, call)) (phase : s₁.loop.phase = .functors) (conn : s₁.conn = s.conn) :
      Source s s₁ label c call
  | user {call : TcpConnection.Call} (user : call.fromUser s.loop.threadId = true) (same : s₁ = s) :
      Source s s₁ label c call
  | hangup (was : s.handler = .event c .close) (same : s₁ = { s with handler := .event c .read })
      (hup : Events.test (s.conn c).channel.revents POLLHUP = true)
      (quiet : Events.test (s.conn c).channel.revents POLLIN = false) : Source s s₁ label c .handleClose
  | readable (r : ReadResult) (was : s.handler = .event c .read)
      (same : s₁ = { s with handler := .event c .write }) : Source s s₁ label c (.handleRead r)
  | writable (r : WriteResult) (was : s.handler = .event c .write)
      (same : s₁ = { s with handler := .event c .done }) : Source s s₁ label c (.handleWrite r)

theorem functor_moved {r : WriteResult} (h : s.control (.functor r) = some (.ok s₁)) :
    s₁.loop.phase = .functors ∧ s₁.conn = s.conn := by
  simp only [control] at h
  split at h
  · obtain ⟨loop, ⟨phase, _, _, _, rfl⟩, rfl⟩ := advance_phase h
    exact ⟨phase, rfl⟩
  · cases h

theorem direct_source {call : TcpConnection.Call} (other : ∀ r, label ≠ .functor r)
    (old : ∀ c fd, label ≠ .accept c fd) (h : s.control label = some (.ok s₁))
    (made : s.callOf label = some (c, call)) : Source s s₁ label c call := by
  rcases direct_cases other old h made with
    ⟨user, same⟩ | ⟨rfl, was, same, hup, quiet⟩ | ⟨r, rfl, was, same⟩ | ⟨r, rfl, was, same⟩
  · exact .user user same
  · exact .hangup was same hup quiet
  · exact .readable r was same
  · exact .writable r was same

theorem Moved.source {call : TcpConnection.Call} (moved : Moved s s₁ s' label taken (some (c, call))) :
    Source s s₁ label c call := by
  have origin := moved.origin
  generalize found : some (c, call) = called at origin
  cases origin with
  | silent => cases found
  | direct d call' plain old made =>
    obtain ⟨rfl, rfl⟩ := Prod.mk.inj (Option.some.inj found)
    exact direct_source plain old moved.step made
  | functor cb r same =>
    obtain ⟨phase, conn⟩ := functor_moved (same ▸ moved.step)
    exact .functor cb r same found.symm phase conn

theorem Source.conn {call : TcpConnection.Call} (h : Source s s₁ label c call) : s₁.conn = s.conn := by
  cases h with
  | functor _ _ _ _ _ same => exact same
  | user _ same | hangup _ same | readable _ _ same | writable _ _ same => rw [same]

theorem Moved.made {call : TcpConnection.Call} (moved : Moved s s₁ s' label taken (some (c, call))) :
    s.callOf label = some (c, call) := by
  have origin := moved.origin
  generalize found : some (c, call) = called at origin
  cases origin with
  | silent => cases found
  | direct _ _ _ _ made => exact made
  | functor _ _ _ made => exact made

end TcpServer

namespace TcpConnection

variable {x x' : Ctx}

theorem message_of_run {call : Call} (fresh : x.message = false)
    (connected : call = .connectDestroyed → x.conn.state ≠ .kConnected) (h : call.run x = .ok x')
    (message : x'.message = true) : ∃ r, call = .handleRead r := by
  have interest := run_interest h
  have other : x'.message ≠ x.message := by simp [fresh, message]
  cases call with
  | connectEstablished => exact absurd interest.1 other
  | connectDestroyed => exact absurd (interest (connected rfl)).1 other
  | send | sendInLoop | stopReadInLoop | handleWrite =>
    rcases interest with same | ⟨_, toggled⟩
    · exact absurd same.message other
    · exact absurd toggled.message other
  | startReadInLoop =>
    rcases interest with same | toggled
    · exact absurd same.message other
    · exact absurd toggled.message other
  | handleClose => exact absurd interest.2.message other
  | shutdown | shutdownInLoop | retrieveInput | setHighWaterMarkCallback =>
    exact absurd interest.message other
  | handleRead r => exact ⟨r, rfl⟩

end TcpConnection

namespace TcpServer

variable {s s₁ s' : TcpServer} {label : Label} {taken : List Functor} {c : ConnId}

/-! ### The entries still to visit -/

/-- The connections still to visit are known, differ from the current one, and satisfy `Q`. -/
structure Batch (Q : TcpConnection → Prop) (s : TcpServer) : Prop where
  placed : s.Placed
  nodup : s.rest.Nodup
  away : ∀ c, s.current = some c → .connection c ∉ s.rest
  reported : ∀ c, .connection c ∈ s.rest → c ∈ s.created ∧ Q (s.conn c)

theorem mayReport_added {revents : Events} (registered : s.Registered)
    (may : s.mayReport (.connection c, revents) = true) :
    c ∈ s.alive ∧ (s.conn c).channel.index = .kAdded ∧
      Events.mayReport (s.conn c).channel.events revents = true := by
  simp only [mayReport] at may
  split at may
  · rename_i mask d entry
    simp only [Bool.and_eq_true, beq_iff_eq] at may
    obtain ⟨rfl, asked⟩ := may
    obtain ⟨member, _⟩ := registered.epoll _ _ _ entry
    have watched := (registered.consistent d member).epoll
    rw [entry] at watched
    split at watched
    · rename_i added
      obtain ⟨rfl, _⟩ := Prod.mk.inj (Option.some.inj watched)
      exact ⟨member, added, asked⟩
    · cases watched
  · cases may

theorem Placed.idle (h : s.Placed) (handle : s.loop.phase ≠ .handle) (functors : s.loop.phase ≠ .functors) :
    s.handler = .idle := by
  have placed := h.handler
  cases handler : s.handler with
  | idle => rfl
  | functor => exact absurd (placed .functors (by simp [handler, Handler.phase])) functors
  | event | message | acceptor | other =>
    exact absurd (placed .handle (by simp [handler, Handler.phase])) handle

theorem Placed.finished (h : s.Placed) (finished : s.rest = [] ∨ s.loop.phase ≠ .handle)
    (rest : s₁.rest = [] ∨ s₁.rest = s.rest) : s₁.rest = [] := by
  rcases rest with empty | same
  · exact empty
  · rw [same]
    rcases finished with empty | other
    · exact empty
    · by_contra more
      exact other (h.rest more)

theorem control_placed (h : s.Placed) (focus : Focus s s₁ label) : s₁.Placed := by
  cases focus with
  | kept handler rest phase _ => exact ⟨by rw [handler, phase]; exact h.handler, by rw [rest, phase]; exact h.rest⟩
  | turned calm finished handler rest =>
    have idle : s.handler = .idle := by
      rcases calm with idle | outside | head
      · exact idle
      · exact h.idle (by simp [outside]) (by simp [outside])
      · exact h.idle (by simp [head]) (by simp [head])
    have empty := h.finished finished rest
    exact ⟨by rw [handler, idle]; simp [Handler.phase], fun more => absurd empty more⟩
  | polled reports phase after may nodup handler rest =>
    have idle := h.idle (by simp [phase]) (by simp [phase])
    exact ⟨by rw [handler, idle]; simp [Handler.phase], fun _ => after⟩
  | visited entry phase after rest handler _ =>
    refine ⟨?_, fun _ => after⟩
    rw [handler, after]
    cases entry <;> simp [Entry.handler, Handler.phase]
  | staged c before later was handler rest phase _ _ =>
    have placed := h.handler
    rw [was] at placed
    exact ⟨by rw [handler, phase]; exact placed, by rw [rest, phase]; exact h.rest⟩
  | returned was handler rest phase =>
    refine ⟨?_, by rw [rest, phase]; exact h.rest⟩
    rcases handler with idle | ⟨c, was, now⟩
    · rw [idle]
      simp [Handler.phase]
    · have placed := h.handler
      rw [was] at placed
      rw [now, phase]
      exact placed
  | ran idle phase after handler rest =>
    refine ⟨?_, ?_⟩
    · rcases handler with now | now
      · rw [now]
        simp [Handler.phase]
      · rw [now, after]
        simp [Handler.phase]
    · rw [rest, after, ← phase]
      exact h.rest

theorem control_batch {Q : TcpConnection → Prop} (settled : ∀ a b : TcpConnection, a.Settled b → Q a → Q b)
    (added : ∀ c ∈ s.alive, (s.conn c).channel.index = .kAdded → Q (s.conn c)) (registered : s.Registered)
    (h : s.Batch Q) (control : Control s s₁ label taken) (focus : Focus s s₁ label) : s₁.Batch Q := by
  have placed := control_placed h.placed focus
  have kept : ∀ c, .connection c ∈ s.rest → c ∈ s₁.created ∧ Q (s₁.conn c) := by
    intro c listed
    obtain ⟨member, known⟩ := h.reported c listed
    exact ⟨control.created ▸ member, settled _ _ (control_settled control c) known⟩
  cases focus with
  | kept handler rest _ _ =>
    refine ⟨placed, rest ▸ h.nodup, ?_, rest ▸ kept⟩
    rw [rest]
    intro c now
    exact h.away c (by rw [current, ← handler]; exact now)
  | turned calm finished handler rest =>
    have empty := h.placed.finished finished rest
    exact ⟨placed, by simp [empty], by simp [empty], by simp [empty]⟩
  | polled reports phase after may nodup handler rest =>
    have idle := h.placed.idle (by simp [phase]) (by simp [phase])
    refine ⟨placed, rest ▸ nodup, ?_, ?_⟩
    · intro c now
      rw [current, handler, idle] at now
      cases now
    · intro c listed
      rw [rest] at listed
      obtain ⟨⟨entry, revents⟩, member, rfl⟩ := List.mem_map.mp listed
      obtain ⟨live, index, _⟩ := mayReport_added registered (may _ member)
      exact ⟨control.created ▸ registered.subset live,
        settled _ _ (control_settled control c) (added c live index)⟩
  | visited entry phase after rest handler _ =>
    have nodup := h.nodup
    rw [rest, List.nodup_cons] at nodup
    refine ⟨placed, nodup.2, ?_, ?_⟩
    · intro c now
      have first : entry = .connection c := by
        rw [current, handler] at now
        cases entry <;> simp_all [Entry.handler]
      rw [← first]
      exact nodup.1
    · intro c listed
      exact kept c (rest ▸ List.mem_cons_of_mem _ listed)
  | staged c before later was handler rest _ _ _ =>
    refine ⟨placed, rest ▸ h.nodup, ?_, rest ▸ kept⟩
    rw [rest]
    intro d now
    rw [current, handler] at now
    exact h.away d (by rw [current, was]; exact now)
  | returned was handler rest phase =>
    refine ⟨placed, rest ▸ h.nodup, ?_, rest ▸ kept⟩
    rw [rest]
    intro d now
    rcases handler with idle | ⟨c, was, later⟩
    · rw [current, idle] at now
      cases now
    · rw [current, later] at now
      exact h.away d (by rw [current, was]; exact now)
  | ran idle phase after handler rest =>
    refine ⟨placed, rest ▸ h.nodup, ?_, rest ▸ kept⟩
    intro d now
    rcases handler with later | later
    · rw [current, later] at now
      cases now
    · rw [current, later] at now
      cases now

theorem commit_handler {x : Ctx} : (s.commit c x).handler = s.handler ∨
    (x.message = true ∧ (s.commit c x).handler = .message c) := by
  cases message : x.message <;> simp [commit, message]

/-- A call leaves the entries alone; those on a connection still to visit are made by the user. -/
theorem commit_batch {Q : TcpConnection → Prop} {call : TcpConnection.Call} {x : Ctx} (loops : s₁.Loops)
    (inv : s₁.Inv taken) (h : s₁.Batch Q) (moved : Moved s s₁ s' label taken (some (c, call)))
    (member : c ∈ s₁.alive) (ran : call.run (s₁.ctx c) = .ok x)
    (user : call.fromUser s.loop.threadId = true → Q (s₁.conn c) → Q x.conn) : (s₁.commit c x).Batch Q := by
  have source := moved.source
  have phase : (s₁.commit c x).loop.phase = s₁.loop.phase := (commit_loops loops c x).2.1.phase
  have connected := inv.connected member moved.origin.made
  have handler : (s₁.commit c x).handler = s₁.handler ∨
      ((s₁.commit c x).handler = .message c ∧ s₁.handler = .event c .write) := by
    rcases commit_handler (s := s₁) (c := c) (x := x) with same | ⟨message, now⟩
    · exact .inl same
    · obtain ⟨r, rfl⟩ := TcpConnection.message_of_run rfl connected ran message
      refine .inr ⟨now, ?_⟩
      cases source with
      | functor cb _ _ made => cases cb <;> cases made
      | user user => cases user
      | readable _ _ same => rw [same]
  have same : (s₁.commit c x).current = s₁.current := by
    rcases handler with same | ⟨now, was⟩
    · rw [current, same, current]
    · rw [current, now, current, was]
  refine ⟨⟨?_, ?_⟩, h.nodup, ?_, ?_⟩
  · rw [phase]
    rcases handler with same | ⟨now, was⟩
    · rw [same]
      exact h.placed.handler
    · have placed := h.placed.handler
      rw [was] at placed
      rw [now]
      exact placed
  · rw [phase]
    exact h.placed.rest
  · intro d now
    exact h.away d (same ▸ now)
  · intro d listed
    obtain ⟨created, known⟩ := h.reported d listed
    refine ⟨created, ?_⟩
    by_cases same : d = c
    · subst same
      rw [commit_self]
      have other : s₁.current ≠ some d := fun now => h.away d now listed
      cases source with
      | functor _ _ _ _ functors =>
        have handle := h.placed.rest (List.ne_nil_of_mem listed)
        rw [functors] at handle
        cases handle
      | user from' => exact user from' known
      | hangup _ same | readable _ _ same | writable _ _ same => exact absurd (by rw [same]; rfl) other
    · rw [commit_other same]
      exact known

theorem born_batch {Q : TcpConnection → Prop} {fd : Fd} {x : Ctx} (loops : s.Loops) (h : s.Batch Q)
    (born : Born s s' c fd x) : s'.Batch Q := by
  have loops₁ : (s.newConnection c fd).Loops := ⟨loops.loop, loops.base, loops.threads⟩
  have phase : ((s.newConnection c fd).commit c x).loop.phase = s.loop.phase :=
    (commit_loops loops₁ c x).2.1.phase
  have silent : x.message = false := (TcpConnection.run_interest born.ran).1
  have handler : ((s.newConnection c fd).commit c x).handler = s.handler := by
    simp [commit, silent, newConnection]
  rw [born.result]
  refine ⟨⟨?_, ?_⟩, h.nodup, ?_, ?_⟩
  · rw [handler, phase]
    exact h.placed.handler
  · rw [phase]
    exact h.placed.rest
  · intro d now
    refine h.away d ?_
    rw [current, handler] at now
    exact now
  · intro d listed
    obtain ⟨created, known⟩ := h.reported d listed
    have different : d ≠ c := by
      rintro rfl
      exact born.fresh created
    rw [commit_other different, newConnection_other different]
    exact ⟨Finset.mem_insert_of_mem created, known⟩

theorem initial_batch {Q : TcpConnection → Prop} (h : tcpServer.init s) : s.Batch Q := by
  obtain ⟨threadId, baseId, _, _, rfl⟩ := h
  exact ⟨⟨by simp [Handler.phase], by simp⟩, by simp, by simp, by simp⟩

/-! ### One connection over a run -/

/-- The call of a step, if it makes one, is allowed on its connection. -/
def Permits (allowed : TcpConnection → TcpConnection.Call → Prop) (s : TcpServer) (label : Label) : Prop :=
  ∀ made ∈ s.callOf label, allowed (s.conn made.1) made.2

instance (allowed : TcpConnection → TcpConnection.Call → Prop) [∀ conn call, Decidable (allowed conn call)]
    (s : TcpServer) (label : Label) : Decidable (Permits allowed s label) :=
  inferInstanceAs (Decidable (∀ made ∈ s.callOf label, allowed (s.conn made.1) made.2))

/-- The call of a step is allowed, and no `shutdown` of another thread sets `state_` after `handleClose`. -/
def Careful (allowed : TcpConnection → TcpConnection.Call → Prop) (s : TcpServer) (label : Label) : Prop :=
  s.OnTime label ∧ Permits allowed s label

instance (allowed : TcpConnection → TcpConnection.Call → Prop) [∀ conn call, Decidable (allowed conn call)]
    (s : TcpServer) (label : Label) : Decidable (Careful allowed s label) :=
  inferInstanceAs (Decidable (_ ∧ _))

theorem Careful.onTime {allowed : TcpConnection → TcpConnection.Call → Prop}
    (h : tcpServer.Reachable (Careful allowed) s) : tcpServer.Reachable OnTime s := h.mono fun _ _ careful => careful.1

/-- A connection is destroyed after `handleClose`. -/
theorem Life.down (h : s.Life taken c) (destroyed : (s.conn c).destroyed = true) : 0 < (s.conn c).closeCalls := by
  have waits := h.waits
  have route := h.route
  rw [destroyed, if_pos rfl] at waits
  omega

/-- What is established, kept by `shutdown` of other threads and kept by every allowed call holds of
every connection. -/
theorem reachable_each {allowed : TcpConnection → TcpConnection.Call → Prop} {P : TcpConnection → Prop}
    (settled : ∀ a b : TcpConnection, a.Settled b → P a → P b)
    (established : ∀ x x' : Ctx, TcpConnection.connectEstablished x = .ok x' → x.conn.destroyed = false → P x'.conn)
    (called : ∀ (x x' : Ctx) (call : TcpConnection.Call), allowed x.conn call → call ≠ .connectEstablished →
      x.conn.Inv → (x.conn.destroyed = true → x.conn.state = .kDisconnected) →
      (call = .connectDestroyed → x.conn.state = .kDisconnected) → P x.conn → call.run x = .ok x' → P x'.conn)
    (h : tcpServer.Reachable (Careful allowed) s) : ∀ c ∈ s.created, P (s.conn c) := by
  refine h.invariant (P := fun a => ∀ c ∈ a.created, P (a.conn c)) ?_ ?_
  · rintro a ⟨threadId, baseId, _, _, rfl⟩
    simp
  · intro a label b reached known careful step
    have inv := reachable_inv reached
    rcases step_cases (reachable_loops reached) step with ⟨c, fd, x, _, born⟩ | ⟨s₁, taken, made, moved⟩
    · rw [born.result]
      intro d member
      by_cases same : d = c
      · subst same
        rw [commit_self]
        refine established _ _ born.ran ?_
        simp only [ctx, newConnection_self]
      · rw [commit_other same, newConnection_other same]
        exact known d ((Finset.mem_insert.mp member).resolve_left same)
    · have known₁ : ∀ c ∈ s₁.created, P (s₁.conn c) := fun c member =>
        settled _ _ (control_settled moved.control c) (known c (moved.control.created ▸ member))
      have inv₁ := control_inv inv moved.control
      have once := control_closedOnce careful.1 (reachable_closedOnce (Careful.onTime reached)) moved.control
      rcases moved.ended with ⟨rfl, rfl⟩ | ⟨c, call, x, rfl, member, ran, rfl⟩
      · exact known₁
      · intro d created
        by_cases same : d = c
        · subst same
          have life := inv₁.life d created
          have allowed := careful.2 (d, call) moved.made
          rw [← moved.source.conn] at allowed
          rw [commit_self]
          refine called _ _ call allowed moved.origin.start (inv₁.output d created)
            (fun destroyed => (once d created).down (life.down destroyed)) ?_ (known₁ d created) ran
          rintro rfl
          exact (once d created).down (moved.origin.made.destroyed ▸ life).doomed
        · rw [commit_other same]
          exact known₁ d created

end TcpServer

end Dserver.Net
