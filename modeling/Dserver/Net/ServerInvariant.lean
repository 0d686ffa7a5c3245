import Dserver.Net.OutputInvariant
import Dserver.Net.ServerEffect

/-!
# Invariants of every run of the server

The poller knows exactly the connections that are not freed; each connection's output is in order;
and the removal of a connection is, once `handleClose` has run, at exactly one place on its way from
the base loop through the IO loop's queue.
-/

namespace Dserver.Net

def Functor.fromUser : Functor → Bool
  | sendInLoop _ _ _ | shutdownInLoop _ | startReadInLoop _ | stopReadInLoop _ | task => true
  | connectDestroyed _ | writeCompleteCallback _ | highWaterMarkCallback _ _ => false

namespace TcpServer

variable {s s₁ s' : TcpServer} {label : Label} {taken : List Functor}

structure Registered (s : TcpServer) : Prop where
  subset : s.alive ⊆ s.created
  distinct : ∀ c ∈ s.alive, ∀ d ∈ s.alive, (s.conn c).channel.fd = (s.conn d).channel.fd → c = d
  consistent : ∀ c ∈ s.alive, Consistent s.poller c (s.conn c).channel
  epoll : ∀ fd mask c, s.poller.epoll fd = some (mask, c) → c ∈ s.alive ∧ (s.conn c).channel.fd = fd
  channels : ∀ fd c, s.poller.channels fd = some c → c ∈ s.alive ∧ (s.conn c).channel.fd = fd

/-- The life of an established connection; `taken` is a functor that has left the queue and not run. -/
structure Life (s : TcpServer) (taken : List Functor) (c : ConnId) : Prop where
  established : (s.conn c).state ≠ .kConnecting
  calls : (s.conn c).connectionCalls = [true]
  closed : 0 < (s.conn c).closeCalls → (s.conn c).state ≠ .kConnected
  route : s.removals.count c + s.loop.queue.inserted.count (.connectDestroyed c) = (s.conn c).closeCalls
  waits : (taken ++ s.todo).count (.connectDestroyed c) + (if (s.conn c).destroyed then 1 else 0) =
    s.loop.queue.inserted.count (.connectDestroyed c)
  member : c ∈ s.connections ↔ (s.conn c).destroyed = false

structure Inv (s : TcpServer) (taken : List Functor) : Prop where
  registered : s.Registered
  output : ∀ c ∈ s.created, (s.conn c).Inv
  life : ∀ c ∈ s.created, s.Life taken c
  fresh : ∀ c, c ∉ s.created → c ∉ s.removals ∧ Functor.connectDestroyed c ∉ s.loop.queue.inserted
  calling : ∀ call ∈ s.calling, call.2.fromUser = true
  shutting : ∀ call ∈ s.shutting, call.2 ∈ s.created

/-! ### Control -/

/-- A step that leaves every channel alone but for what `poll` and `handleEvent` note in it. -/
theorem Registered.of_channel (h : s.Registered) (poller : s₁.poller = s.poller)
    (created : s₁.created = s.created) (alive : s₁.alive = s.alive)
    (channel : ∀ c, ∃ revents eventHandling,
      (s₁.conn c).channel = { (s.conn c).channel with revents, eventHandling }) : s₁.Registered := by
  have fd : ∀ c, (s₁.conn c).channel.fd = (s.conn c).channel.fd := by
    intro c
    obtain ⟨_, _, same⟩ := channel c
    rw [same]
  refine ⟨alive ▸ created ▸ h.subset, ?_, ?_, ?_, ?_⟩
  · simpa only [fd, alive] using h.distinct
  · intro c member
    have before := h.consistent c (alive ▸ member)
    obtain ⟨_, _, same⟩ := channel c
    rw [poller, same]
    exact ⟨before.epoll, before.channels, before.added⟩
  · simpa only [fd, alive, poller] using h.epoll
  · simpa only [fd, alive, poller] using h.channels

theorem Registered.freed {c : ConnId} (h : s.Registered) (member : c ∈ s.alive)
    (off : (s.conn c).channel.addedToLoop = false) : (s.closeSocket c).Registered := by
  have new : (s.conn c).channel.index = .kNew := by
    by_contra added
    simp [(h.consistent c member).added.mpr added] at off
  refine ⟨fun d kept => h.subset (Finset.mem_of_mem_erase kept), ?_, ?_, ?_, ?_⟩
  · intro d kept e kept' same
    exact h.distinct d (Finset.mem_of_mem_erase kept) e (Finset.mem_of_mem_erase kept') same
  · intro d kept
    have before := h.consistent d (Finset.mem_of_mem_erase kept)
    have different : (s.conn d).channel.fd ≠ (s.conn c).channel.fd := fun same =>
      Finset.ne_of_mem_erase kept (h.distinct d (Finset.mem_of_mem_erase kept) c member same)
    exact ⟨(Function.update_of_ne different _ _).trans before.epoll, before.channels, before.added⟩
  · intro fd mask d entry
    by_cases same : fd = (s.conn c).channel.fd
    · simp [closeSocket, same] at entry
    · obtain ⟨kept, own⟩ := h.epoll fd mask d ((Function.update_of_ne same _ _).symm.trans entry)
      refine ⟨Finset.mem_erase.mpr ⟨?_, kept⟩, own⟩
      rintro rfl
      exact same own.symm
  · intro fd d entry
    obtain ⟨kept, own⟩ := h.channels fd d entry
    refine ⟨Finset.mem_erase.mpr ⟨?_, kept⟩, own⟩
    rintro rfl
    have absent := (h.consistent d member).channels
    rw [new, if_pos rfl, own] at absent
    cases absent.symm.trans entry

theorem enter_output {t : Tid} {op : UserCall} {conn : TcpConnection} (h : conn.Inv) : (op.enter t conn).Inv := by
  cases op with
  | send arg => exact h.of_eq rfl rfl rfl rfl rfl rfl
  | startRead | stopRead => exact h

theorem Life.of_eq {c : ConnId} {taken' : List Functor} (h : s.Life taken c)
    (state : (s₁.conn c).state = (s.conn c).state ∨ (s₁.conn c).state = .kDisconnecting)
    (calls : (s₁.conn c).connectionCalls = (s.conn c).connectionCalls)
    (closes : (s₁.conn c).closeCalls = (s.conn c).closeCalls)
    (destroyed : (s₁.conn c).destroyed = (s.conn c).destroyed)
    (connections : c ∈ s₁.connections ↔ c ∈ s.connections)
    (route : s₁.removals.count c + s₁.loop.queue.inserted.count (.connectDestroyed c) =
      s.removals.count c + s.loop.queue.inserted.count (.connectDestroyed c))
    (waits : (taken' ++ s₁.todo).count (.connectDestroyed c) + s.loop.queue.inserted.count (.connectDestroyed c) =
      (taken ++ s.todo).count (.connectDestroyed c) + s₁.loop.queue.inserted.count (.connectDestroyed c)) :
    s₁.Life taken' c := by
  have step := h.waits
  refine ⟨?_, calls.trans h.calls, ?_, ?_, ?_, ?_⟩
  · rcases state with same | after
    · exact same ▸ h.established
    · simp [after]
  · rw [closes]
    rcases state with same | after
    · rw [same]
      exact h.closed
    · simp [after]
  · rw [route, closes, h.route]
  · rw [destroyed]
    omega
  · rw [destroyed, connections]
    exact h.member

theorem count_append_single {l : List Functor} {cb : Functor} {c : ConnId} (other : cb ≠ .connectDestroyed c) :
    (l ++ [cb]).count (.connectDestroyed c) = l.count (.connectDestroyed c) := by
  rw [List.count_append, List.count_singleton, if_neg (by simpa using other), Nat.add_zero]

theorem Life.pushed {c : ConnId} {cb : Functor} (h : s.Life [] c) (other : cb ≠ .connectDestroyed c)
    (conn : s₁.conn c = s.conn c) (connections : s₁.connections = s.connections)
    (base : s₁.base = s.base) (pushed : s.loop.Pushed s₁.loop [cb]) : s₁.Life [] c := by
  refine h.of_eq (.inl (by rw [conn])) (by rw [conn]) (by rw [conn]) (by rw [conn]) (by rw [connections]) ?_ ?_
  · rw [removals, base, pushed.inserted, count_append_single other, removals]
  · rw [todo, pushed.waiting, pushed.inserted, List.nil_append, count_append_single other,
      count_append_single other, List.nil_append, todo]

theorem mem_of_lookup {α β : Type} [BEq α] [LawfulBEq α] {key : α} {b : β} {entries : List (α × β)}
    (found : entries.lookup key = some b) : (key, b) ∈ entries := by
  obtain ⟨before, after, rfl, _⟩ := List.lookup_eq_some_iff.mp found
  simp

theorem enterCall_self (s : TcpServer) (t : Tid) (c : ConnId) (op : UserCall) :
    (s.enterCall t c op).conn c = op.enter t (s.conn c) :=
  Function.update_self _ _ _

theorem enterCall_other {t : Tid} {c d : ConnId} {op : UserCall} (different : d ≠ c) :
    (s.enterCall t c op).conn d = s.conn d :=
  Function.update_of_ne different _ _

theorem called_inv {t : Tid} {c : ConnId} {op : UserCall} (h : s.Inv []) : (s.enterCall t c op).Inv [] := by
  refine ⟨h.registered.of_channel rfl rfl rfl ?_, ?_, ?_, h.fresh, ?_, h.shutting⟩
  · intro d
    by_cases same : d = c
    · subst same
      refine ⟨(s.conn d).channel.revents, (s.conn d).channel.eventHandling, ?_⟩
      rw [enterCall_self]
      cases op <;> rfl
    · rw [enterCall_other same]
      exact ⟨_, _, rfl⟩
  · intro d member
    by_cases same : d = c
    · subst same
      rw [enterCall_self]
      exact enter_output (h.output d member)
    · rw [enterCall_other same]
      exact h.output d member
  · intro d member
    have life := h.life d member
    by_cases same : d = c
    · subst same
      refine life.of_eq (.inl ?_) ?_ ?_ ?_ Iff.rfl rfl rfl
      all_goals
        rw [enterCall_self]
        cases op <;> rfl
    · refine life.of_eq ?_ ?_ ?_ ?_ Iff.rfl rfl rfl
      all_goals simp only [enterCall_other same, true_or]
  · intro call member
    rcases List.mem_append.mp member with old | new
    · exact h.calling call old
    · rw [List.mem_singleton.mp new]
      cases op <;> rfl

theorem setState_self (s : TcpServer) (t : Tid) (c : ConnId) :
    (s.setState t c).conn c = { s.conn c with state := .kDisconnecting } :=
  Function.update_self _ _ _

theorem setState_other {t : Tid} {c d : ConnId} (different : d ≠ c) : (s.setState t c).conn d = s.conn d :=
  Function.update_of_ne different _ _

theorem stored_inv {t : Tid} {c : ConnId} (h : s.Inv []) : (s.setState t c).Inv [] := by
  refine ⟨h.registered.of_channel rfl rfl rfl ?_, ?_, ?_, h.fresh, ?_, ?_⟩
  · intro d
    refine ⟨(s.conn d).channel.revents, (s.conn d).channel.eventHandling, ?_⟩
    by_cases same : d = c
    · subst same
      rw [setState_self]
    · rw [setState_other same]
  · intro d member
    by_cases same : d = c
    · subst same
      rw [setState_self]
      exact (h.output d member).disconnecting
    · rw [setState_other same]
      exact h.output d member
  · intro d member
    by_cases same : d = c
    · subst same
      refine (h.life d member).of_eq (.inr ?_) ?_ ?_ ?_ Iff.rfl rfl rfl
      all_goals rw [setState_self]
    · refine (h.life d member).of_eq (.inl ?_) ?_ ?_ ?_ Iff.rfl rfl rfl
      all_goals rw [setState_other same]
  · intro call member
    rcases List.mem_append.mp member with old | new
    · exact h.calling call old
    · rw [List.mem_singleton.mp new]
      rfl
  · exact fun call member => h.shutting call (List.mem_of_mem_filter member)

theorem removed_life {c d : ConnId} {loop : EventLoop Functor} {base : EventLoop BaseFunctor}
    (h : s.Life [] d) (pushed : s.loop.Pushed loop [.connectDestroyed c])
    (popped : s.removals = c :: removals { s with loop, base }) : Life { s with loop, base } [] d := by
  refine h.of_eq (.inl rfl) rfl rfl rfl Iff.rfl ?_ ?_
  · rw [popped, pushed.inserted, List.count_append]
    by_cases same : c = d
    · subst same
      simp only [List.count_cons_self, List.count_nil]
      omega
    · have other : Functor.connectDestroyed c ≠ .connectDestroyed d := by simpa using same
      simp only [List.count_cons_of_ne same, List.count_cons_of_ne other, List.count_nil]
      omega
  · simp only [todo, List.nil_append, pushed.waiting, pushed.inserted, List.count_append]
    omega

theorem control_inv (h : s.Inv []) (control : Control s s₁ label taken) : s₁.Inv taken := by
  cases control with
  | quiet keeps threadId calling todo inserted removals =>
    refine ⟨h.registered.of_channel keeps.poller keeps.created keeps.alive ?_, ?_, ?_, ?_, ?_, ?_⟩
    · intro c
      obtain ⟨revents, eventHandling, same⟩ := keeps.conn c
      exact ⟨revents, eventHandling, by rw [same]⟩
    · intro c member
      obtain ⟨_, _, same⟩ := keeps.conn c
      rw [same]
      exact (h.output c (keeps.created ▸ member)).of_eq rfl rfl rfl rfl rfl rfl
    · intro c member
      obtain ⟨_, _, same⟩ := keeps.conn c
      refine (h.life c (keeps.created ▸ member)).of_eq (.inl (by rw [same])) (by rw [same]) (by rw [same])
        (by rw [same]) (by rw [keeps.connections]) (by rw [removals, inserted]) ?_
      rw [inserted, ← todo, List.nil_append]
    · intro c old
      rw [removals, inserted]
      exact h.fresh c (keeps.created ▸ old)
    · rw [calling]
      exact h.calling
    · rw [keeps.shutting, keeps.created]
      exact h.shutting
  | queued loop pushed rest =>
    subst rest
    refine ⟨h.registered.of_channel rfl rfl rfl fun _ => ⟨_, _, rfl⟩, h.output, ?_, ?_, h.calling, h.shutting⟩
    · exact fun c member => (h.life c member).pushed (by simp) rfl rfl rfl pushed
    · intro c old
      refine ⟨(h.fresh c old).1, ?_⟩
      rw [pushed.inserted]
      simpa using (h.fresh c old).2
  | called t c op may member passes rest =>
    subst rest
    exact called_inv h
  | tested t c may member connected rest =>
    subst rest
    refine ⟨h.registered.of_channel rfl rfl rfl fun _ => ⟨_, _, rfl⟩, h.output,
      fun d old => (h.life d old).of_eq (.inl rfl) rfl rfl rfl Iff.rfl rfl rfl, h.fresh, h.calling, ?_⟩
    intro call listed
    rcases List.mem_append.mp listed with old | new
    · exact h.shutting call old
    · rw [List.mem_singleton.mp new]
      exact h.registered.subset member
  | stored t c found rest =>
    subst rest
    exact stored_inv h
  | calledTask t may rest =>
    subst rest
    refine ⟨h.registered.of_channel rfl rfl rfl fun _ => ⟨_, _, rfl⟩, h.output,
      fun c member => (h.life c member).of_eq (.inl rfl) rfl rfl rfl Iff.rfl rfl rfl, h.fresh, ?_, h.shutting⟩
    intro call member
    rcases List.mem_append.mp member with old | new
    · exact h.calling call old
    · rw [List.mem_singleton.mp new]
      rfl
  | pushed t cb found rest =>
    subst rest
    have other : ∀ c, cb ≠ .connectDestroyed c := by
      rintro c rfl
      cases h.calling _ (mem_of_lookup found)
    have pushed := pushCall_pushed s t cb
    refine ⟨h.registered.of_channel rfl rfl rfl fun _ => ⟨_, _, rfl⟩, h.output, ?_, ?_, ?_, h.shutting⟩
    · exact fun c member => (h.life c member).pushed (other c) rfl rfl rfl pushed
    · intro c old
      refine ⟨(h.fresh c old).1, ?_⟩
      rw [pushed.inserted]
      simpa using ⟨(h.fresh c old).2, (other c).symm⟩
    · exact fun call member => h.calling call (List.mem_of_mem_filter member)
  | removed c loop base removals pushed rest =>
    subst rest
    have born : c ∈ s.created := by
      by_contra old
      exact (h.fresh c old).1 (by simp [removals])
    refine ⟨h.registered.of_channel rfl rfl rfl fun _ => ⟨_, _, rfl⟩, h.output, ?_, ?_, h.calling, h.shutting⟩
    · exact fun d member => removed_life (h.life d member) pushed removals
    · intro d old
      have fresh := h.fresh d old
      rw [removals, List.mem_cons, not_or] at fresh
      refine ⟨fresh.1.2, ?_⟩
      rw [pushed.inserted]
      simpa using ⟨fresh.2, fresh.1.1⟩
  | freed t c member gone down off rest =>
    subst rest
    exact ⟨h.registered.freed member off, h.output,
      fun d member => (h.life d member).of_eq (.inl rfl) rfl rfl rfl Iff.rfl rfl rfl, h.fresh, h.calling, h.shutting⟩

/-! ### Calls -/

theorem commit_self (s : TcpServer) (c : ConnId) (x : Ctx) : (s.commit c x).conn c = x.conn :=
  Function.update_self _ _ _

theorem commit_other {c d : ConnId} (different : d ≠ c) (x : Ctx) : (s.commit c x).conn d = s.conn d :=
  Function.update_of_ne different _ _

theorem Registered.commit {c : ConnId} {x : Ctx} (h : s.Registered) (member : c ∈ s.alive)
    (loc : TcpConnection.Local (s.ctx c) x) : (s.commit c x).Registered := by
  obtain ⟨own, touched⟩ := loc.consistent (h.consistent c member)
  have fd : ∀ d, ((s.commit c x).conn d).channel.fd = (s.conn d).channel.fd := by
    intro d
    by_cases same : d = c
    · subst same
      rw [commit_self]
      exact loc.fd
    · rw [commit_other same]
  have channel : x.conn.channel.fd = (s.conn c).channel.fd := loc.fd
  refine ⟨h.subset, ?_, ?_, ?_, ?_⟩
  · simp only [fd]
    exact h.distinct
  · intro d kept
    by_cases same : d = c
    · subst same
      rw [commit_self]
      exact own
    · rw [commit_other same]
      exact touched.consistent (fun equal => same (h.distinct d kept c member equal)) (h.consistent d kept)
  · intro fd' mask d entry
    rw [fd]
    by_cases same : fd' = (s.conn c).channel.fd
    · subst same
      have registered := own.epoll
      rw [channel] at registered
      rw [show x.poller.epoll _ = _ from entry] at registered
      split at registered
      · obtain ⟨_, rfl⟩ := Prod.mk.inj (Option.some.inj registered)
        exact ⟨member, rfl⟩
      · cases registered
    · exact h.epoll fd' mask d ((touched.epoll fd' same).symm.trans entry)
  · intro fd' d entry
    rw [fd]
    by_cases same : fd' = (s.conn c).channel.fd
    · subst same
      have mapped := own.channels
      rw [channel] at mapped
      rw [show x.poller.channels _ = _ from entry] at mapped
      split at mapped
      · cases mapped
      · obtain rfl := Option.some.inj mapped
        exact ⟨member, rfl⟩
    · exact h.channels fd' d ((touched.channels fd' same).symm.trans entry)

theorem count_callbacks {new : List Functor} {b c : ConnId} (callbacks : ∀ cb ∈ new, cb.IsCallback b) :
    new.count (.connectDestroyed c) = 0 := by
  rw [List.count_eq_zero]
  intro member
  rcases callbacks _ member with same | ⟨_, same⟩
  · cases same
  · cases same

theorem commit_counts {c d : ConnId} {x : Ctx} (loops : s.Loops) (loc : TcpConnection.Local (s.ctx c) x) :
    (s.commit c x).removals.count d = s.removals.count d + (if x.closed ∧ c = d then 1 else 0) ∧
    (s.commit c x).loop.queue.inserted.count (.connectDestroyed d) =
      s.loop.queue.inserted.count (.connectDestroyed d) ∧
    (s.commit c x).todo.count (.connectDestroyed d) = s.todo.count (.connectDestroyed d) := by
  obtain ⟨_, pushed, removals⟩ := commit_loops loops c x
  obtain ⟨new, queued, callbacks⟩ := loc.queued
  have none : x.queued.count (.connectDestroyed d) = 0 := by
    rw [queued]
    exact count_callbacks callbacks
  refine ⟨?_, ?_, ?_⟩
  · rw [removals, List.count_append]
    cases x.closed with
    | false => simp
    | true =>
      by_cases same : c = d
      · simp [same]
      · simp [List.count_cons_of_ne same, same]
  · rw [pushed.inserted, List.count_append, none, Nat.add_zero]
  · rw [todo, pushed.waiting, List.count_append, none, Nat.add_zero, todo]

theorem ordinary_life {c d : ConnId} {x : Ctx} (loops : s.Loops) (h : s.Life taken d)
    (none : taken.count (.connectDestroyed d) = 0) (loc : TcpConnection.Local (s.ctx c) x)
    (effect : TcpConnection.Ordinary (s.ctx c) x) : (s.commit c x).Life [] d := by
  obtain ⟨removals, inserted, todo⟩ := commit_counts (d := d) loops loc
  have waits : (([] : List Functor) ++ (s.commit c x).todo).count (.connectDestroyed d) +
      s.loop.queue.inserted.count (.connectDestroyed d) =
      (taken ++ s.todo).count (.connectDestroyed d) +
        (s.commit c x).loop.queue.inserted.count (.connectDestroyed d) := by
    rw [List.nil_append, todo, inserted, List.count_append, none, Nat.zero_add]
  have connections : d ∈ (s.commit c x).connections ↔ d ∈ s.connections := by
    rw [show (s.commit c x).connections = s.connections from effect.connections]
  by_cases same : d = c
  · subst same
    have conn := commit_self s d x
    have quiet : x.closed = false → (s.commit d x).removals.count d +
        (s.commit d x).loop.queue.inserted.count (.connectDestroyed d) =
        s.removals.count d + s.loop.queue.inserted.count (.connectDestroyed d) := by
      intro off
      rw [removals, inserted, off]
      rfl
    cases effect.turn with
    | stays state closes closed =>
      exact h.of_eq (.inl (conn ▸ state)) (conn ▸ effect.connectionCalls) (conn ▸ closes)
        (conn ▸ effect.destroyed) connections (quiet closed) waits
    | shuts before after closes closed =>
      exact h.of_eq (.inr (conn ▸ after)) (conn ▸ effect.connectionCalls) (conn ▸ closes)
        (conn ▸ effect.destroyed) connections (quiet closed) waits
    | closes before after closes closed =>
      have count : (s.commit d x).conn d = x.conn := conn
      have route := h.route
      have old := h.waits
      refine ⟨by rw [count, after]; simp, by rw [count, effect.connectionCalls]; exact h.calls,
        by rw [count, after]; simp, ?_, ?_, ?_⟩
      · rw [count, closes, removals, inserted, closed, if_pos ⟨rfl, rfl⟩]
        exact (Nat.add_right_comm _ _ _).trans (congrArg (· + 1) route)
      · rw [count, effect.destroyed, List.nil_append, todo, inserted]
        rw [List.count_append, none, Nat.zero_add] at old
        exact old
      · rw [connections, count, effect.destroyed]
        exact h.member
  · have conn := commit_other (s := s) same x
    refine h.of_eq (.inl (by rw [conn])) (by rw [conn]) (by rw [conn]) (by rw [conn]) connections ?_ waits
    rw [removals, inserted, if_neg fun both => same both.2.symm, Nat.add_zero]

theorem destroyed_life {c d : ConnId} {x : Ctx} (loops : s.Loops) (h : s.Life [.connectDestroyed c] d)
    (listed : c ∈ s.connections) (loc : TcpConnection.Local (s.ctx c) x)
    (frame : (TcpConnection.destroying (s.ctx c)).Frame x) :
    (s.commit c x).Life [] d := by
  obtain ⟨removals, inserted, todo⟩ := commit_counts (d := d) loops loc
  have erased : (s.commit c x).connections = s.connections.erase c := frame.connections
  have closed : x.closed = false := frame.closed
  have route : (s.commit c x).removals.count d + (s.commit c x).loop.queue.inserted.count (.connectDestroyed d) =
      s.removals.count d + s.loop.queue.inserted.count (.connectDestroyed d) := by
    rw [removals, inserted, closed]
    rfl
  by_cases same : d = c
  · subst same
    have conn := commit_self s d x
    have before := h.waits
    rw [List.singleton_append, List.count_cons_self, h.member.mp listed, if_neg Bool.false_ne_true] at before
    have marked : ((s.commit d x).conn d).destroyed = true := by rw [conn]; exact frame.destroyed
    refine ⟨?_, ?_, ?_, ?_, ?_, ?_⟩
    · rw [conn, frame.state]
      exact h.established
    · rw [conn, frame.connectionCalls]
      exact h.calls
    · rw [conn, frame.state, frame.closeCalls]
      exact h.closed
    · rw [route, conn, frame.closeCalls]
      exact h.route
    · rw [List.nil_append, todo, inserted, marked, if_pos rfl]
      omega
    · rw [marked, erased]
      simp
  · have conn := commit_other (s := s) same x
    refine h.of_eq (.inl (by rw [conn])) (by rw [conn]) (by rw [conn]) (by rw [conn]) ?_ route ?_
    · rw [erased, Finset.mem_erase, and_iff_right same]
    · have other : Functor.connectDestroyed c ≠ .connectDestroyed d := by simpa using Ne.symm same
      rw [List.nil_append, todo, inserted, List.singleton_append, List.count_cons_of_ne other]

/-- Where a call comes from: user code or `handleEvent` in thread `t`, or the functor that was taken. -/
def Made (t : Tid) (taken : List Functor) (c : ConnId) (call : TcpConnection.Call) : Prop :=
  (taken = [] ∧ call.direct t = true) ∨ ∃ cb r, taken = [cb] ∧ cb.call r = some (c, call)

theorem Made.destroyed {t : Tid} {c : ConnId} (h : Made t taken c .connectDestroyed) : taken = [.connectDestroyed c] := by
  rcases h with ⟨_, direct⟩ | ⟨cb, r, rfl, made⟩
  · cases direct
  · cases cb <;> simp [Functor.call] at made
    rw [made]

theorem Made.ordinary {t : Tid} {c d : ConnId} {call : TcpConnection.Call} (h : Made t taken c call)
    (finish : call ≠ .connectDestroyed) : taken.count (.connectDestroyed d) = 0 := by
  rcases h with ⟨rfl, _⟩ | ⟨cb, r, rfl, made⟩
  · rfl
  · rw [List.count_eq_zero]
    rintro member
    rw [List.mem_singleton] at member
    subst member
    exact finish (Prod.mk.inj (Option.some.inj made)).2.symm

theorem Origin.made {c : ConnId} {call : TcpConnection.Call} (h : Origin s label taken (some (c, call))) :
    Made s.loop.threadId taken c call := by
  generalize found : some (c, call) = made at h
  cases h with
  | silent => cases found
  | direct c' call' _ _ _ kind =>
    obtain ⟨rfl, rfl⟩ := Prod.mk.inj (Option.some.inj found)
    exact .inl ⟨rfl, kind⟩
  | functor cb r => exact .inr ⟨cb, r, rfl, found.symm⟩

theorem Origin.start {c : ConnId} {call : TcpConnection.Call} (h : Origin s label taken (some (c, call))) :
    call ≠ .connectEstablished := by
  generalize found : some (c, call) = made at h
  cases h with
  | silent => cases found
  | direct c' call' _ _ _ _ start =>
    obtain ⟨rfl, rfl⟩ := Prod.mk.inj (Option.some.inj found)
    exact start
  | functor cb r =>
    rintro rfl
    cases cb <;> simp [Functor.call] at found

theorem Origin.callback (h : Origin s label taken none) : ∀ cb ∈ taken, ∃ r, cb.call r = none := by
  generalize found : none = made at h
  cases h with
  | silent => simp
  | direct => cases found
  | functor cb r =>
    intro cb' member
    rw [List.mem_singleton.mp member]
    exact ⟨r, rfl⟩

theorem Life.doomed {c : ConnId} (h : s.Life [.connectDestroyed c] c) : 0 < (s.conn c).closeCalls := by
  have waits := h.waits
  have route := h.route
  rw [List.singleton_append, List.count_cons_self] at waits
  omega

theorem Inv.connected {t : Tid} {c : ConnId} {call : TcpConnection.Call} (h : s.Inv taken)
    (member : c ∈ s.alive) (made : Made t taken c call) :
    call = .connectDestroyed → (s.ctx c).conn.state ≠ .kConnected := by
  rintro rfl
  have life := made.destroyed ▸ h.life c (h.registered.subset member)
  exact life.closed life.doomed

theorem commit_inv {t : Tid} {c : ConnId} {call : TcpConnection.Call} {x : Ctx} (loops : s.Loops) (h : s.Inv taken)
    (member : c ∈ s.alive) (made : Made t taken c call) (start : call ≠ .connectEstablished)
    (ran : call.run (s.ctx c) = .ok x) : (s.commit c x).Inv [] := by
  have created := h.registered.subset member
  have connected := h.connected member made
  have effect := TcpConnection.run_effect ran
  have loc := TcpConnection.effect_local effect connected
  obtain ⟨_, pushed, removals⟩ := commit_loops loops c x
  obtain ⟨ops, out, _⟩ := TcpConnection.run_outputs (h.output c created) connected ran
  refine ⟨h.registered.commit member loc, ?_, ?_, ?_, h.calling, h.shutting⟩
  · intro d old
    by_cases same : d = c
    · subst same
      rw [commit_self]
      exact out.inv
    · rw [commit_other same]
      exact h.output d old
  · intro d old
    by_cases finish : call = .connectDestroyed
    · subst finish
      obtain ⟨listed, frame, _⟩ := effect (connected rfl)
      exact destroyed_life loops (made.destroyed ▸ h.life d old) listed loc frame
    · exact ordinary_life loops (h.life d old) (made.ordinary finish) loc
        (TcpConnection.effect_ordinary effect start finish)
  · intro d old
    obtain ⟨removed, inserted, _⟩ := commit_counts (d := d) loops loc
    have fresh := h.fresh d old
    have different : c ≠ d := by
      rintro rfl
      exact old created
    refine ⟨?_, ?_⟩
    · rw [← List.count_eq_zero, removed, List.count_eq_zero.mpr fresh.1, if_neg fun both => different both.2]
    · rw [← List.count_eq_zero, inserted, List.count_eq_zero.mpr fresh.2]

/-! ### New connections -/

theorem newConnection_self (s : TcpServer) (c : ConnId) (fd : Fd) : (s.newConnection c fd).conn c =
    { channel := { fd }, writeCompleteCallback := s.writeCompleteCallback } :=
  Function.update_self _ _ _

theorem newConnection_other {c d : ConnId} (different : d ≠ c) (fd : Fd) :
    (s.newConnection c fd).conn d = s.conn d :=
  Function.update_of_ne different _ _

theorem newConnection_output (s : TcpServer) (c : ConnId) (fd : Fd) :
    ((s.newConnection c fd).ctx c).conn.Inv := by
  refine (TcpConnection.fresh_inv fd).of_eq ?_ ?_ ?_ ?_ ?_ ?_
  all_goals simp only [ctx, newConnection_self]

theorem Registered.born {c : ConnId} {fd : Fd} (h : s.Registered) (fresh : c ∉ s.created)
    (unused : ∀ d ∈ s.alive, (s.conn d).channel.fd ≠ fd) : (s.newConnection c fd).Registered := by
  have old : ∀ d ∈ s.alive, d ≠ c := by
    rintro d member rfl
    exact fresh (h.subset member)
  have cases : ∀ d, d ∈ (s.newConnection c fd).alive → d = c ∨ (d ∈ s.alive ∧ d ≠ c) := by
    intro d member
    rcases Finset.mem_insert.mp member with same | kept
    · exact .inl same
    · exact .inr ⟨kept, old d kept⟩
  refine ⟨Finset.insert_subset_insert c h.subset, ?_, ?_, ?_, ?_⟩
  · intro d member e member' equal
    rcases cases d member with rfl | ⟨kept, different⟩
    · rcases cases e member' with rfl | ⟨kept', different'⟩
      · rfl
      · rw [newConnection_self, newConnection_other different'] at equal
        exact absurd equal.symm (unused e kept')
    · rw [newConnection_other different] at equal
      rcases cases e member' with rfl | ⟨kept', different'⟩
      · rw [newConnection_self] at equal
        exact absurd equal (unused d kept)
      · rw [newConnection_other different'] at equal
        exact h.distinct d kept e kept' equal
  · intro d member
    rcases cases d member with rfl | ⟨kept, different⟩
    · rw [newConnection_self]
      refine ⟨?_, ?_, by simp⟩
      · cases entry : s.poller.epoll fd with
        | none => simpa [newConnection] using entry
        | some registered =>
          obtain ⟨kept, own⟩ := h.epoll fd registered.1 registered.2 entry
          exact absurd own (unused _ kept)
      · cases entry : s.poller.channels fd with
        | none => simpa [newConnection] using entry
        | some registered =>
          obtain ⟨kept, own⟩ := h.channels fd registered entry
          exact absurd own (unused _ kept)
    · rw [newConnection_other different]
      exact h.consistent d kept
  · intro fd' mask d entry
    obtain ⟨kept, own⟩ := h.epoll fd' mask d entry
    rw [newConnection_other (old d kept)]
    exact ⟨Finset.mem_insert_of_mem kept, own⟩
  · intro fd' d entry
    obtain ⟨kept, own⟩ := h.channels fd' d entry
    rw [newConnection_other (old d kept)]
    exact ⟨Finset.mem_insert_of_mem kept, own⟩

theorem todo_subset (loops : s.Loops) {cb : Functor} (member : cb ∈ s.todo) : cb ∈ s.loop.queue.inserted := by
  have conserved := loops.loop.conserved
  rw [Lib.BatchQueue.Conserved, List.append_assoc] at conserved
  rw [← conserved]
  exact List.mem_append_right _ member

theorem born_inv {c : ConnId} {fd : Fd} {x : Ctx} (loops : s.Loops) (h : s.Inv []) (born : Born s s' c fd x) :
    s'.Inv [] := by
  have loops₁ : (s.newConnection c fd).Loops := ⟨loops.loop, loops.base, loops.threads⟩
  have effect := TcpConnection.run_effect born.ran
  have loc := TcpConnection.effect_local effect nofun
  have registered := h.registered.born born.fresh born.unused
  have closed : x.closed = false := effect.2.closed
  have connections : ((s.newConnection c fd).commit c x).connections = insert c s.connections :=
    effect.2.connections
  obtain ⟨_, out, _⟩ := TcpConnection.run_outputs (newConnection_output s c fd) (by nofun) born.ran
  have old : ∀ d, d ≠ c → d ∈ (s.newConnection c fd).created → d ∈ s.created := by
    intro d different member
    exact (Finset.mem_insert.mp member).resolve_left different
  rw [born.result]
  refine ⟨registered.commit (Finset.mem_insert_self c _) loc, ?_, ?_, ?_, h.calling,
    fun call member => Finset.mem_insert_of_mem (h.shutting call member)⟩
  · intro d member
    by_cases same : d = c
    · subst same
      rw [commit_self]
      exact out.inv
    · rw [commit_other same, newConnection_other same]
      exact h.output d (old d same member)
  · intro d member
    obtain ⟨removals, inserted, todo⟩ := commit_counts (d := d) loops₁ loc
    rw [closed] at removals
    by_cases same : d = c
    · subst same
      have fresh := h.fresh d born.fresh
      have absent : s.todo.count (.connectDestroyed d) = 0 :=
        List.count_eq_zero.mpr fun member => fresh.2 (todo_subset loops member)
      have removed : s.removals.count d = 0 := List.count_eq_zero.mpr fresh.1
      have queued : s.loop.queue.inserted.count (.connectDestroyed d) = 0 := List.count_eq_zero.mpr fresh.2
      have conn := commit_self (s.newConnection d fd) d x
      have start := newConnection_self s d fd
      have state : x.conn.state = .kConnected := effect.2.state
      have calls : x.conn.connectionCalls = [true] := by
        rw [effect.2.connectionCalls]
        simp [TcpConnection.established, TcpConnection.connectionCallback, TcpConnection.addConnection,
          TcpConnection.setState, ctx, start]
      have closes : x.conn.closeCalls = 0 := by
        rw [effect.2.closeCalls]
        simp [TcpConnection.established, TcpConnection.connectionCallback, TcpConnection.addConnection,
          TcpConnection.setState, ctx, start]
      have destroyed : x.conn.destroyed = false := by
        rw [effect.2.destroyed]
        simp [TcpConnection.established, TcpConnection.connectionCallback, TcpConnection.addConnection,
          TcpConnection.setState, ctx, start]
      refine ⟨by rw [conn, state]; simp, by rw [conn, calls], by rw [conn, closes]; simp, ?_, ?_, ?_⟩
      · rw [conn, closes, removals, inserted]
        simp only [Bool.false_eq_true, false_and, if_false, Nat.add_zero]
        exact Nat.add_eq_zero_iff.mpr ⟨removed, queued⟩
      · rw [conn, destroyed, List.nil_append, todo, inserted]
        exact absent.trans queued.symm
      · rw [conn, destroyed, connections]
        simp
    · have conn : ((s.newConnection c fd).commit c x).conn d = s.conn d := by
        rw [commit_other same, newConnection_other same]
      refine (h.life d (old d same member)).of_eq (.inl (by rw [conn])) (by rw [conn]) (by rw [conn])
        (by rw [conn]) ?_ ?_ ?_
      · rw [connections, Finset.mem_insert, or_iff_right same]
      · rw [removals, inserted]
        rfl
      · rw [List.nil_append, todo, inserted, List.nil_append]
        rfl
  · intro d absent
    have different : d ≠ c := by
      rintro rfl
      exact absent (Finset.mem_insert_self d _)
    obtain ⟨removals, inserted, _⟩ := commit_counts (d := d) loops₁ loc
    have fresh := h.fresh d fun member => absent (Finset.mem_insert_of_mem member)
    rw [closed] at removals
    refine ⟨?_, ?_⟩
    · rw [← List.count_eq_zero, removals]
      exact List.count_eq_zero.mpr fresh.1
    · rw [← List.count_eq_zero, inserted]
      exact List.count_eq_zero.mpr fresh.2

/-! ### Runs -/

theorem step_inv (loops : s.Loops) (h : s.Inv []) (step : s.step label = some (.ok s')) : s'.Inv [] := by
  rcases step_cases loops step with ⟨c, fd, x, _, born⟩ | ⟨s₁, taken, made, moved⟩
  · exact born_inv loops h born
  · have inv := control_inv h moved.control
    rcases moved.ended with ⟨rfl, rfl⟩ | ⟨c, call, x, rfl, member, ran, rfl⟩
    · -- a callback of the user was taken, or nothing
      refine ⟨inv.registered, inv.output, fun c created => ?_, inv.fresh, inv.calling, inv.shutting⟩
      have life := inv.life c created
      refine life.of_eq (.inl rfl) rfl rfl rfl Iff.rfl rfl ?_
      rw [List.nil_append, List.count_append]
      suffices absent : taken.count (.connectDestroyed c) = 0 by rw [absent, Nat.zero_add]
      rw [List.count_eq_zero]
      intro member
      obtain ⟨r, callback⟩ := moved.origin.callback _ member
      cases callback
    · exact commit_inv moved.loops inv member moved.origin.made moved.origin.start ran

theorem reachable_inv {guard : TcpServer → Label → Prop} (h : tcpServer.Reachable guard s) : s.Inv [] := by
  refine h.invariant (P := fun a => a.Inv []) ?_
    fun a label b reached inv _ step => step_inv (reachable_loops reached) inv step
  rintro a ⟨threadId, baseId, _, _, rfl⟩
  refine ⟨⟨by simp, by simp, by simp, by simp, by simp⟩, by simp, by simp, fun c _ => ⟨?_, ?_⟩, by simp, by simp⟩
  · simp [removals, Lib.BatchQueue.waiting]
  · simp

/-! ### `shutdown` in time -/

/-- `shutdown` of another thread sets `state_` before `handleClose` runs. -/
def OnTime (s : TcpServer) : Label → Prop
  | .setState t => ∀ c ∈ s.shutting.lookup t, (s.conn c).state ≠ .kDisconnected
  | _ => True

instance (s : TcpServer) : (label : Label) → Decidable (s.OnTime label)
  | .setState t => inferInstanceAs (Decidable (∀ c ∈ s.shutting.lookup t, (s.conn c).state ≠ .kDisconnected))
  | .enter | .check | .poll _ | .visit | .hangup | .readable _ | .writable _ | .handled | .userReturn
  | .doPendingFunctors | .functor _ | .functorsDone | .own _ _ | .queueTask | .accept _ _ | .call _ _ _
  | .shutdown _ _ | .callTask _ | .push _ | .wakeup _ | .quit _ | .release _ _ | .base _ | .baseFunctor =>
    instDecidableTrue

theorem control_closedOnce (onTime : s.OnTime label) (h : ∀ c ∈ s.created, (s.conn c).ClosedOnce)
    (control : Control s s₁ label taken) : ∀ c ∈ s₁.created, (s₁.conn c).ClosedOnce := by
  intro c member
  have before := h c (control.created ▸ member)
  cases control with
  | quiet keeps =>
    obtain ⟨_, _, same⟩ := keeps.conn c
    rw [same]
    exact before.of_eq rfl rfl
  | called t d op _ _ _ rest =>
    subst rest
    by_cases same : c = d
    · subst same
      rw [enterCall_self]
      cases op <;> exact before.of_eq rfl rfl
    · rw [enterCall_other same]
      exact before
  | stored t d found rest =>
    subst rest
    by_cases same : c = d
    · subst same
      rw [setState_self]
      exact before.live (onTime c found)
    · rw [setState_other same]
      exact before
  | queued _ _ rest | tested _ _ _ _ _ rest | calledTask _ _ rest | pushed _ _ _ rest | removed _ _ _ _ _ rest
  | freed _ _ _ _ _ _ rest =>
    subst rest
    exact before

theorem reachable_closedOnce (h : tcpServer.Reachable OnTime s) : ∀ c ∈ s.created, (s.conn c).ClosedOnce := by
  refine h.invariant (P := fun a => ∀ c ∈ a.created, (a.conn c).ClosedOnce) ?_ ?_
  · rintro a ⟨threadId, baseId, _, _, rfl⟩
    simp
  · intro a label b reached known onTime step
    rcases step_cases (reachable_loops reached) step with ⟨c, fd, x, _, born⟩ | ⟨s₁, taken, made, moved⟩
    · rw [born.result]
      intro d member
      by_cases same : d = c
      · subst same
        rw [commit_self]
        refine TcpConnection.established_closedOnce ?_ born.ran
        simp only [ctx, newConnection_self]
      · rw [commit_other same, newConnection_other same]
        exact known d ((Finset.mem_insert.mp member).resolve_left same)
    · have known₁ := control_closedOnce onTime known moved.control
      have inv₁ := control_inv (reachable_inv reached) moved.control
      rcases moved.ended with ⟨rfl, rfl⟩ | ⟨c, call, x, rfl, member, ran, rfl⟩
      · exact known₁
      · intro d created
        by_cases same : d = c
        · subst same
          rw [commit_self]
          exact TcpConnection.run_closedOnce moved.origin.start (inv₁.connected member moved.origin.made)
            (known₁ d created) ran
        · rw [commit_other same]
          exact known₁ d created

end TcpServer

end Dserver.Net
