import Dserver.Net.ServerInvariant

/-!
# The bytes on the wire

The messages of every thread are sent in the order of the thread's calls, and what the kernel gets is
the messages in the order in which `sendInLoop` ran.
-/

namespace Dserver.Net

/-- The message of a queued `sendInLoop` on `c` by thread `t`. -/
def Functor.sendBy (t : Tid) (c : ConnId) : Functor → Option Message
  | sendInLoop b sender message => if b = c ∧ sender = t then some message else none
  | _ => none

/-- The direct write failed with EPIPE or ECONNRESET. -/
def SendRecord.refused (r : SendRecord) : Bool :=
  r.outcome == .direct (.failed EPIPE) || r.outcome == .direct (.failed ECONNRESET)

def queuedBy (t : Tid) (c : ConnId) (cbs : List Functor) : List Message := cbs.filterMap (Functor.sendBy t c)

namespace TcpConnection

def acceptedBy (conn : TcpConnection) (t : Tid) : List Message :=
  (conn.accepted.filter fun call => call.1 == t).map Prod.snd

def sentBy (conn : TcpConnection) (t : Tid) : List Message :=
  (conn.sends.filter fun r => r.sender == t).map SendRecord.message

end TcpConnection

namespace TcpServer

variable {s s₁ s' : TcpServer} {label : Label} {taken : List Functor}

/-- The calls of each thread that saw `kConnected` are its messages sent, queued and about to be pushed. -/
structure Order (s : TcpServer) (taken : List Functor) : Prop where
  callers : (s.calling.map Prod.fst ++ s.shutting.map Prod.fst).Nodup
  shutting : ∀ call ∈ s.shutting, call.1 ≠ s.loop.threadId
  calling : ∀ t c sender message, (t, Functor.sendInLoop c sender message) ∈ s.calling →
    sender = t ∧ t ≠ s.loop.threadId ∧ c ∈ s.created
  queued : ∀ c sender message, Functor.sendInLoop c sender message ∈ taken ++ s.todo →
    sender ≠ s.loop.threadId ∧ c ∈ s.created
  order : ∀ c ∈ s.created, ∀ t, (s.conn c).acceptedBy t =
    (s.conn c).sentBy t ++ queuedBy t c (taken ++ s.todo) ++ queuedBy t c (s.calling.map Prod.snd)

theorem queuedBy_append (t : Tid) (c : ConnId) (first second : List Functor) :
    queuedBy t c (first ++ second) = queuedBy t c first ++ queuedBy t c second :=
  List.filterMap_append

theorem queuedBy_nil {t : Tid} {c : ConnId} {cbs : List Functor}
    (none : ∀ message, Functor.sendInLoop c t message ∉ cbs) : queuedBy t c cbs = [] := by
  rw [queuedBy, List.filterMap_eq_nil_iff]
  intro cb member
  cases cb with
  | sendInLoop b sender message =>
    refine if_neg ?_
    rintro ⟨rfl, rfl⟩
    exact none message member
  | _ => rfl

theorem queuedBy_single {t : Tid} {c : ConnId} {cb : Functor} (other : ∀ b sender message,
    cb ≠ .sendInLoop b sender message) : queuedBy t c [cb] = [] :=
  queuedBy_nil fun message member => other c t message (List.mem_singleton.mp member).symm

theorem Order.pushed {cb : Functor} (h : s.Order []) (other : ∀ b sender message, cb ≠ .sendInLoop b sender message)
    (conn : s₁.conn = s.conn) (created : s₁.created = s.created) (calling : s₁.calling = s.calling)
    (shutting : s₁.shutting = s.shutting) (pushed : s.loop.Pushed s₁.loop [cb]) : s₁.Order [] := by
  refine ⟨by rw [calling, shutting]; exact h.callers, by rw [shutting, pushed.threadId]; exact h.shutting, ?_, ?_, ?_⟩
  · rw [calling, pushed.threadId, created]
    exact h.calling
  · intro c sender message member
    rw [List.nil_append, todo, pushed.waiting] at member
    rw [pushed.threadId, created]
    rcases List.mem_append.mp member with old | new
    · exact h.queued c sender message old
    · exact absurd (List.mem_singleton.mp new).symm (other c sender message)
  · intro c member t
    rw [conn, calling, todo, pushed.waiting, List.nil_append, queuedBy_append, queuedBy_single other,
      List.append_nil]
    exact h.order c (created ▸ member) t

theorem apart_of_lookup {α : Type} {t : Tid} {calls : List (Tid × α)} (free : calls.lookup t = none) :
    t ∉ calls.map Prod.fst := by
  intro listed
  obtain ⟨call, kept, rfl⟩ := List.mem_map.mp listed
  have apart := List.lookup_eq_none_iff.mp free call kept
  simp at apart

theorem Order.callers_append {t : Tid} (h : s.Order []) (may : s.mayCall t = true) (cb : Functor) :
    ((s.calling ++ [(t, cb)]).map Prod.fst ++ s.shutting.map Prod.fst).Nodup := by
  simp only [mayCall, Bool.and_eq_true, Option.isNone_iff_eq_none] at may
  rw [List.map_append, List.append_assoc]
  refine List.nodup_middle.mpr (List.nodup_cons.mpr ⟨?_, h.callers⟩)
  rw [List.mem_append, not_or]
  exact ⟨apart_of_lookup may.1.2, apart_of_lookup may.2⟩

theorem enter_acceptedBy (t u : Tid) (c : ConnId) (op : UserCall) (conn : TcpConnection) :
    (op.enter t conn).acceptedBy u = conn.acceptedBy u ++ queuedBy u c [op.functor t c] := by
  cases op with
  | send arg =>
    simp only [UserCall.enter, UserCall.functor, TcpConnection.acceptedBy, List.filter_append, List.map_append]
    by_cases same : t = u
    · simp [queuedBy, Functor.sendBy, same]
    · simp [queuedBy, Functor.sendBy, same]
  | startRead | stopRead => exact (List.append_nil _).symm

theorem called_order {t : Tid} {c : ConnId} {op : UserCall} (h : s.Order []) (may : s.mayCall t = true)
    (member : c ∈ s.created) : (s.enterCall t c op).Order [] := by
  have foreign : t ≠ s.loop.threadId := by
    simp only [mayCall, Bool.and_eq_true, bne_iff_ne] at may
    exact may.1.1.1
  refine ⟨h.callers_append may _, h.shutting, ?_, h.queued, ?_⟩
  · intro u b sender message kept
    rcases List.mem_append.mp kept with old | new
    · exact h.calling u b sender message old
    · obtain ⟨rfl, same⟩ := Prod.mk.inj (List.mem_singleton.mp new)
      cases op with
      | send arg =>
        obtain ⟨rfl, rfl, rfl⟩ := Functor.sendInLoop.inj same
        exact ⟨rfl, foreign, member⟩
      | startRead | stopRead => cases same
  · intro d created u
    simp only [enterCall, List.map_append, List.map_cons, List.map_nil, queuedBy_append]
    have before := h.order d created u
    by_cases same : d = c
    · subst same
      rw [Function.update_self, enter_acceptedBy t u d, before]
      have sent : (op.enter t (s.conn d)).sentBy u = (s.conn d).sentBy u := by cases op <;> rfl
      rw [sent, List.append_assoc]
      simp only [List.append_assoc]
      rfl
    · have apart : queuedBy u d [op.functor t c] = [] := by
        apply queuedBy_nil
        intro message found
        have functor := List.mem_singleton.mp found
        cases op with
        | send arg => exact same (Functor.sendInLoop.inj functor).1
        | startRead | stopRead => cases functor
      rw [Function.update_of_ne same, apart, List.append_nil]
      exact before

/-- Taking one thread's call out of `calling` and putting it in front changes no thread's messages. -/
theorem queuedBy_filter {t : Tid} {cb : Functor} (h : s.Order []) (found : s.calling.lookup t = some cb)
    (u : Tid) (c : ConnId) :
    queuedBy u c [cb] ++ queuedBy u c ((s.calling.filter fun call => call.1 != t).map Prod.snd) =
      queuedBy u c (s.calling.map Prod.snd) := by
  have member := mem_of_lookup found
  obtain ⟨front, back, split, _⟩ := List.lookup_eq_some_iff.mp found
  have callers := (List.nodup_append.mp h.callers).1
  rw [split, List.map_append, List.map_cons, List.nodup_middle, List.nodup_cons, ← List.map_append] at callers
  have filtered : (s.calling.filter fun call => call.1 != t) = front ++ back := by
    rw [split, List.filter_append, List.filter_cons_of_neg (by simp), ← List.filter_append, List.filter_eq_self]
    intro call kept
    have different : call.1 ≠ t := fun same => callers.1 (List.mem_map.mpr ⟨call, kept, same⟩)
    simpa using different
  have cons : queuedBy u c (cb :: back.map Prod.snd) = queuedBy u c [cb] ++ queuedBy u c (back.map Prod.snd) :=
    queuedBy_append u c [cb] _
  rw [filtered, split, List.map_append, List.map_append, List.map_cons, queuedBy_append, queuedBy_append, cons]
  by_cases own : u = t
  · have empty : queuedBy u c (front.map Prod.snd) = [] := by
      apply queuedBy_nil
      intro message kept
      obtain ⟨call, inside, same⟩ := List.mem_map.mp kept
      have listed : (call.1, Functor.sendInLoop c u message) ∈ s.calling := by
        rw [split, ← same]
        exact List.mem_append_left _ inside
      obtain ⟨caller, _⟩ := h.calling _ _ _ _ listed
      exact callers.1 (List.mem_map.mpr ⟨call, List.mem_append_left _ inside, caller.symm.trans own⟩)
    rw [empty, List.nil_append, List.nil_append]
  · have empty : queuedBy u c [cb] = [] := by
      apply queuedBy_nil
      intro message kept
      obtain rfl := List.mem_singleton.mp kept
      exact own (h.calling t c u message member).1
    rw [empty, List.nil_append, List.nil_append]

theorem pushed_order {t : Tid} {cb : Functor} (h : s.Order []) (found : s.calling.lookup t = some cb) :
    (s.pushCall t cb).Order [] := by
  have pushed := pushCall_pushed s t cb
  have waiting : (s.pushCall t cb).todo = s.todo ++ [cb] := pushed.waiting
  refine ⟨?_, ?_, ?_, ?_, ?_⟩
  · exact h.callers.sublist ((List.filter_sublist.map _).append_right _)
  · rw [pushed.threadId]
    exact h.shutting
  · intro u c sender message kept
    rw [pushed.threadId]
    exact h.calling u c sender message (List.mem_of_mem_filter kept)
  · intro c sender message kept
    rw [List.nil_append, waiting] at kept
    rw [pushed.threadId]
    rcases List.mem_append.mp kept with old | new
    · exact h.queued c sender message old
    · obtain rfl := List.mem_singleton.mp new
      obtain ⟨rfl, foreign, created⟩ := h.calling t c sender message (mem_of_lookup found)
      exact ⟨foreign, created⟩
  · intro c created u
    have before := h.order c created u
    rw [← queuedBy_filter h found, ← List.append_assoc, List.append_assoc _ _ (queuedBy u c [cb]),
      ← queuedBy_append] at before
    rw [List.nil_append, waiting]
    exact before

/-- `setState` moves the thread from one list to the other. -/
theorem stored_order {t : Tid} {c : ConnId} (h : s.Order []) (found : s.shutting.lookup t = some c) :
    (s.setState t c).Order [] := by
  refine ⟨?_, fun call listed => h.shutting call (List.mem_of_mem_filter listed), ?_, h.queued, ?_⟩
  · obtain ⟨calling, shutting, apart⟩ := List.nodup_append.mp h.callers
    have listed : t ∈ s.shutting.map Prod.fst := List.mem_map.mpr ⟨_, mem_of_lookup found, rfl⟩
    have fewer : (s.shutting.filter fun call => call.1 != t).map Prod.fst ⊆ s.shutting.map Prod.fst :=
      List.map_subset _ (List.filter_subset_self _)
    simp only [setState, List.map_append, List.map_cons, List.map_nil, List.append_assoc]
    refine List.nodup_middle.mpr (List.nodup_cons.mpr ⟨?_, ?_⟩)
    · rw [List.mem_append, not_or]
      refine ⟨fun old => apart t old t listed rfl, fun kept => ?_⟩
      obtain ⟨call, kept, same⟩ := List.mem_map.mp kept
      simp [same] at kept
    · exact List.nodup_append.mpr ⟨calling, shutting.sublist (List.filter_sublist.map _),
        fun u old v kept => apart u old v (fewer kept)⟩
  · intro u b sender message kept
    rcases List.mem_append.mp kept with old | new
    · exact h.calling u b sender message old
    · cases (Prod.mk.inj (List.mem_singleton.mp new)).2
  · intro d created u
    have before := h.order d created u
    simp only [setState, List.map_append, queuedBy_append, List.map_cons, List.map_nil]
    rw [queuedBy_single (by simp), List.append_nil]
    by_cases same : d = c
    · subst same
      rw [Function.update_self]
      exact before
    · rw [Function.update_of_ne same]
      exact before

theorem control_order (registered : s.Registered) (h : s.Order []) (control : Control s s₁ label taken) :
    s₁.Order taken := by
  cases control with
  | quiet keeps threadId calling todo _ _ =>
    refine ⟨?_, ?_, ?_, ?_, ?_⟩
    · rw [calling, keeps.shutting]
      exact h.callers
    · rw [keeps.shutting, threadId]
      exact h.shutting
    · rw [calling, threadId, keeps.created]
      exact h.calling
    · rw [← todo, threadId, keeps.created]
      exact h.queued
    · intro c member t
      obtain ⟨_, _, same⟩ := keeps.conn c
      rw [← todo, calling, same]
      exact h.order c (keeps.created ▸ member) t
  | queued loop pushed rest =>
    subst rest
    exact h.pushed (by simp) rfl rfl rfl rfl pushed
  | called t c op may member passes rest =>
    subst rest
    exact called_order h may (registered.subset member)
  | tested t c may member connected rest =>
    subst rest
    refine ⟨?_, ?_, h.calling, h.queued, h.order⟩
    · simp only [mayCall, Bool.and_eq_true, Option.isNone_iff_eq_none] at may
      have last : t ∉ s.calling.map Prod.fst ++ s.shutting.map Prod.fst := by
        rw [List.mem_append, not_or]
        exact ⟨apart_of_lookup may.1.2, apart_of_lookup may.2⟩
      simp only [enterShutdown, List.map_append, List.map_cons, List.map_nil]
      rw [← List.append_assoc, List.nodup_append_comm]
      exact List.nodup_cons.mpr ⟨last, h.callers⟩
    · simp only [mayCall, Bool.and_eq_true, bne_iff_ne] at may
      intro call listed
      rcases List.mem_append.mp listed with old | new
      · exact h.shutting call old
      · rw [List.mem_singleton.mp new]
        exact may.1.1.1
  | stored t c found rest =>
    subst rest
    exact stored_order h found
  | calledTask t may rest =>
    subst rest
    refine ⟨h.callers_append may _, h.shutting, ?_, h.queued, ?_⟩
    · intro u b sender message kept
      rcases List.mem_append.mp kept with old | new
      · exact h.calling u b sender message old
      · cases (Prod.mk.inj (List.mem_singleton.mp new)).2
    · intro c member u
      simp only [List.map_append, queuedBy_append]
      rw [show queuedBy u c (List.map Prod.snd [(t, Functor.task)]) = [] from rfl, List.append_nil]
      exact h.order c member u
  | pushed t cb found rest =>
    subst rest
    exact pushed_order h found
  | removed c loop base _ pushed rest =>
    subst rest
    exact h.pushed (by simp) rfl rfl rfl rfl pushed
  | freed _ c _ _ _ _ rest =>
    subst rest
    exact ⟨h.callers, h.shutting, h.calling, h.queued, h.order⟩

theorem queuedBy_callbacks {new : List Functor} {b c : ConnId} {t : Tid}
    (callbacks : ∀ cb ∈ new, cb.IsCallback b) : queuedBy t c new = [] := by
  apply queuedBy_nil
  intro message member
  rcases callbacks _ member with same | ⟨_, same⟩
  · cases same
  · cases same

theorem sentBy_append {conn conn' : TcpConnection} {r : SendRecord} (h : conn'.sends = conn.sends ++ [r])
    (t : Tid) : conn'.sentBy t = conn.sentBy t ++ if r.sender = t then [r.message] else [] := by
  simp only [TcpConnection.sentBy, h, List.filter_append, List.map_append]
  by_cases same : r.sender = t
  · simp [same]
  · simp [same]

theorem acceptedBy_append {conn conn' : TcpConnection} {sender : Tid} {message : Message}
    (h : conn'.accepted = conn.accepted ++ [(sender, message)]) (t : Tid) :
    conn'.acceptedBy t = conn.acceptedBy t ++ if sender = t then [message] else [] := by
  simp only [TcpConnection.acceptedBy, h, List.filter_append, List.map_append]
  by_cases same : sender = t
  · simp [same]
  · simp [same]

theorem Made.sendInLoop {t sender : Tid} {c : ConnId} {message : Message} {r : WriteResult}
    (h : Made t taken c (.sendInLoop sender message r)) : taken = [.sendInLoop c sender message] := by
  rcases h with ⟨_, direct⟩ | ⟨cb, r, rfl, made⟩
  · cases direct
  · cases cb <;> simp [Functor.call] at made
    obtain ⟨rfl, rfl, rfl, _⟩ := made
    rfl

theorem Made.silent {t u : Tid} {c d : ConnId} {call : TcpConnection.Call} (h : Made t taken c call)
    (other : (∀ sender message r, call ≠ .sendInLoop sender message r) ∨ d ≠ c) : queuedBy u d taken = [] := by
  rcases h with ⟨rfl, _⟩ | ⟨cb, r, rfl, made⟩
  · rfl
  · apply queuedBy_nil
    intro message member
    rw [← List.mem_singleton.mp member] at made
    obtain ⟨same, sent⟩ := Prod.mk.inj (Option.some.inj made)
    rcases other with quiet | different
    · exact quiet _ _ _ sent.symm
    · exact different same

theorem sends_order {c : ConnId} {call : TcpConnection.Call} {x : Ctx} {t : Tid} (h : s.Order taken)
    (made : Made s.loop.threadId taken c call) (sends : call.Sends (s.ctx c) x)
    (before : (s.conn c).acceptedBy t = (s.conn c).sentBy t ++ (queuedBy t c taken ++ queuedBy t c s.todo) ++
      queuedBy t c (s.calling.map Prod.snd)) :
    x.conn.acceptedBy t = x.conn.sentBy t ++ queuedBy t c s.todo ++ queuedBy t c (s.calling.map Prod.snd) := by
  have unchanged : (∀ sender message r, call ≠ .sendInLoop sender message r) →
      x.conn.accepted = (s.conn c).accepted → x.conn.sends = (s.conn c).sends →
      x.conn.acceptedBy t = x.conn.sentBy t ++ queuedBy t c s.todo ++ queuedBy t c (s.calling.map Prod.snd) := by
    intro other accepted sent
    rw [made.silent (.inl other), List.nil_append] at before
    rw [TcpConnection.acceptedBy, accepted, TcpConnection.sentBy, sent]
    exact before
  cases call with
  | sendInLoop sender message r =>
    obtain ⟨accepted, outcome, sent⟩ := sends
    rw [made.sendInLoop] at before
    rw [sentBy_append sent, TcpConnection.acceptedBy, accepted]
    refine before.trans ?_
    by_cases same : sender = t
    · simp [queuedBy, Functor.sendBy, same, ctx]
    · simp [queuedBy, Functor.sendBy, same, ctx]
  | send sender arg r =>
    rcases sends with ⟨accepted, sent⟩ | ⟨accepted, outcome, sent⟩
    · exact unchanged (by simp) accepted sent
    · rw [made.silent (.inl (by simp)), List.nil_append] at before
      rw [sentBy_append sent, acceptedBy_append accepted]
      by_cases same : sender = t
      · -- the loop's own thread has nothing queued
        obtain rfl : sender = s.loop.threadId := by
          rcases made with ⟨_, direct⟩ | ⟨cb, r', _, found⟩
          · exact beq_iff_eq.mp direct
          · cases cb <;> simp [Functor.call] at found
        have todo : queuedBy t c s.todo = [] := by
          apply queuedBy_nil
          intro message queued
          exact (h.queued c t message (List.mem_append_right _ queued)).1 same.symm
        have calling : queuedBy t c (s.calling.map Prod.snd) = [] := by
          apply queuedBy_nil
          intro message listed
          obtain ⟨call, kept, functor⟩ := List.mem_map.mp listed
          have entry : (call.1, Functor.sendInLoop c t message) ∈ s.calling := functor ▸ kept
          obtain ⟨caller, foreign, _⟩ := h.calling _ _ _ _ entry
          exact foreign (caller.symm.trans same.symm)
        rw [todo, calling, List.append_nil, List.append_nil] at before ⊢
        exact congrArg (· ++ _) before
      · rw [if_neg same, List.append_nil, List.append_nil]
        exact before
  | connectEstablished | connectDestroyed | shutdown | shutdownInLoop | startReadInLoop | stopReadInLoop
  | retrieveInput | setHighWaterMarkCallback | handleClose | handleRead | handleWrite =>
    exact unchanged (by simp) sends.1 sends.2

theorem commit_order {c : ConnId} {call : TcpConnection.Call} {x : Ctx} (loops : s.Loops) (h : s.Order taken)
    (made : Made s.loop.threadId taken c call) (loc : TcpConnection.Local (s.ctx c) x)
    (sends : call.Sends (s.ctx c) x) : (s.commit c x).Order [] := by
  obtain ⟨_, pushed, _⟩ := commit_loops loops c x
  obtain ⟨new, queued, callbacks⟩ := loc.queued
  have waiting : (s.commit c x).todo = s.todo ++ x.queued := pushed.waiting
  have silent : ∀ t d, queuedBy t d x.queued = [] := by
    intro t d
    rw [queued]
    exact queuedBy_callbacks callbacks
  refine ⟨h.callers, by rw [pushed.threadId]; exact h.shutting, ?_, ?_, ?_⟩
  · rw [pushed.threadId]
    exact h.calling
  · intro d sender message member
    rw [pushed.threadId]
    rw [List.nil_append, waiting] at member
    rcases List.mem_append.mp member with old | late
    · exact h.queued d sender message (List.mem_append_right _ old)
    · rw [queued] at late
      rcases callbacks _ late with same | ⟨_, same⟩
      · cases same
      · cases same
  · intro d member t
    have before := h.order d member t
    rw [queuedBy_append] at before
    rw [List.nil_append, waiting, queuedBy_append, silent, List.append_nil]
    change _ = _ ++ queuedBy t d s.todo ++ queuedBy t d (s.calling.map Prod.snd)
    by_cases same : d = c
    · subst same
      rw [commit_self]
      exact sends_order h made sends before
    · rw [made.silent (.inr same), List.nil_append] at before
      rw [commit_other same]
      exact before

theorem born_order {c : ConnId} {fd : Fd} {x : Ctx} (loops : s.Loops) (h : s.Order []) (born : Born s s' c fd x) :
    s'.Order [] := by
  have loops₁ : (s.newConnection c fd).Loops := ⟨loops.loop, loops.base, loops.threads⟩
  have effect := TcpConnection.run_effect born.ran
  have loc := TcpConnection.effect_local effect nofun
  have sends := TcpConnection.effect_sends effect nofun
  have start : (s.newConnection c fd).Order [] := by
    refine ⟨h.callers, h.shutting, ?_, ?_, ?_⟩
    · intro t d sender message member
      obtain ⟨caller, foreign, created⟩ := h.calling t d sender message member
      exact ⟨caller, foreign, Finset.mem_insert_of_mem created⟩
    · intro d sender message member
      obtain ⟨foreign, created⟩ := h.queued d sender message member
      exact ⟨foreign, Finset.mem_insert_of_mem created⟩
    · intro d member t
      by_cases same : d = c
      · subst same
        have todo : queuedBy t d ([] ++ (s.newConnection d fd).todo) = [] := by
          apply queuedBy_nil
          intro message queued
          exact born.fresh (h.queued d t message queued).2
        have calling : queuedBy t d (s.calling.map Prod.snd) = [] := by
          apply queuedBy_nil
          intro message listed
          obtain ⟨call, kept, functor⟩ := List.mem_map.mp listed
          have entry : (call.1, Functor.sendInLoop d t message) ∈ s.calling := functor ▸ kept
          exact born.fresh (h.calling _ _ _ _ entry).2.2
        rw [todo, newConnection_self]
        exact calling.symm
      · rw [newConnection_other same]
        exact h.order d ((Finset.mem_insert.mp member).resolve_left same) t
  rw [born.result]
  exact commit_order loops₁ start (.inl ⟨rfl, rfl⟩) loc sends

theorem reachable_order {guard : TcpServer → Label → Prop} (h : tcpServer.Reachable guard s) : s.Order [] := by
  refine h.invariant (P := fun a => a.Order []) ?_ ?_
  · rintro a ⟨threadId, baseId, _, _, rfl⟩
    exact ⟨by simp, by simp, by simp, by simp [todo, Lib.BatchQueue.waiting], by simp⟩
  · intro a label b reached order _ step
    have loops := reachable_loops reached
    have inv := reachable_inv reached
    rcases step_cases loops step with ⟨c, fd, x, _, born⟩ | ⟨s₁, taken, made, moved⟩
    · exact born_order loops order born
    · have order₁ := control_order inv.registered order moved.control
      have inv₁ := control_inv inv moved.control
      rcases moved.ended with ⟨rfl, rfl⟩ | ⟨c, call, x, rfl, member, ran, rfl⟩
      · have silent : ∀ t c, queuedBy t c taken = [] := by
          intro t c
          apply queuedBy_nil
          intro message found
          obtain ⟨r, callback⟩ := moved.origin.callback _ found
          cases callback
        refine ⟨order₁.callers, order₁.shutting, order₁.calling, ?_, ?_⟩
        · exact fun c sender message found => order₁.queued c sender message (List.mem_append_right _ found)
        · intro c created t
          have before := order₁.order c created t
          rw [queuedBy_append, silent, List.nil_append] at before
          exact before
      · have made := moved.origin.made
        rw [← moved.control.threadId] at made
        have connected := inv₁.connected member made
        have effect := TcpConnection.run_effect ran
        exact commit_order moved.loops order₁ made (TcpConnection.effect_local effect connected)
          (TcpConnection.effect_sends effect connected)

/-! ### What one step writes -/

/-- What the control part of a step leaves of a connection and queues. -/
structure Steady (s s₁ : TcpServer) (c : ConnId) : Prop where
  socket : (s₁.conn c).socket = (s.conn c).socket
  buffer : (s₁.conn c).outputBuffer = (s.conn c).outputBuffer
  writing : (s₁.conn c).channel.isWriting = (s.conn c).channel.isWriting
  sends : (s₁.conn c).sends = (s.conn c).sends
  closes : (s₁.conn c).closeCalls = (s.conn c).closeCalls
  queued : ∃ new, s₁.loop.queue.inserted = s.loop.queue.inserted ++ new ∧
    ∀ b, Functor.writeCompleteCallback b ∉ new

theorem steady_of_conn {c : ConnId} (conn : s₁.conn c = s.conn c)
    (queued : ∃ new, s₁.loop.queue.inserted = s.loop.queue.inserted ++ new ∧
      ∀ b, Functor.writeCompleteCallback b ∉ new) : s.Steady s₁ c :=
  ⟨by rw [conn], by rw [conn], by rw [conn], by rw [conn], by rw [conn], queued⟩

theorem control_steady (h : s.Inv []) (control : Control s s₁ label taken) (c : ConnId) : s.Steady s₁ c := by
  cases control with
  | quiet keeps _ _ _ inserted _ =>
    obtain ⟨_, _, same⟩ := keeps.conn c
    exact ⟨by rw [same], by rw [same], by rw [same]; rfl, by rw [same], by rw [same], [],
      by rw [inserted, List.append_nil], by simp⟩
  | queued loop pushed rest =>
    subst rest
    exact steady_of_conn rfl ⟨_, pushed.inserted, by simp⟩
  | called t d op _ _ passes rest =>
    subst rest
    by_cases same : c = d
    · subst same
      refine ⟨?_, ?_, ?_, ?_, ?_, [], (List.append_nil _).symm, by simp⟩
      all_goals
        rw [enterCall_self]
        cases op <;> rfl
    · exact steady_of_conn (enterCall_other same) ⟨[], (List.append_nil _).symm, by simp⟩
  | stored t d found rest =>
    subst rest
    by_cases same : c = d
    · subst same
      refine ⟨?_, ?_, ?_, ?_, ?_, [], (List.append_nil _).symm, by simp⟩
      all_goals rw [setState_self]
    · exact steady_of_conn (setState_other same) ⟨[], (List.append_nil _).symm, by simp⟩
  | tested _ _ _ _ _ rest | calledTask _ _ rest =>
    subst rest
    exact steady_of_conn rfl ⟨[], (List.append_nil _).symm, by simp⟩
  | pushed t cb found rest =>
    subst rest
    refine steady_of_conn rfl ⟨_, (pushCall_pushed s t cb).inserted, ?_⟩
    intro b member
    obtain rfl := List.mem_singleton.mp member
    cases h.calling _ (mem_of_lookup found)
  | removed d loop base _ pushed rest =>
    subst rest
    exact steady_of_conn rfl ⟨_, pushed.inserted, by simp⟩
  | freed _ d _ _ _ _ rest =>
    subst rest
    exact steady_of_conn rfl ⟨[], (List.append_nil _).symm, by simp⟩

/-- What a step issues on the socket of `c` and what it queues. -/
structure Issued (s s' : TcpServer) (c : ConnId) (ops : List SocketOp) (new : List Functor) : Prop where
  socket : (s'.conn c).socket = (s.conn c).socket ++ ops
  inserted : s'.loop.queue.inserted = s.loop.queue.inserted ++ new
  complete : Functor.writeCompleteCallback c ∈ new → (s'.conn c).outputBuffer.readable = []
  fin : (s.conn c).closeCalls = 0 → .shutdownWrite ∈ ops → (s'.conn c).outputBuffer.readable = []

theorem callbacks_other {new : List Functor} {b c : ConnId} (callbacks : ∀ cb ∈ new, cb.IsCallback b)
    (different : c ≠ b) : Functor.writeCompleteCallback c ∉ new := by
  intro member
  rcases callbacks _ member with same | ⟨_, same⟩
  · exact different (Functor.writeCompleteCallback.inj same)
  · cases same

theorem step_issued {c : ConnId} (loops : s.Loops) (h : s.Inv []) (created : c ∈ s.created)
    (step : s.step label = some (.ok s')) : ∃ ops new, s.Issued s' c ops new := by
  rcases step_cases loops step with ⟨d, fd, x, _, born⟩ | ⟨s₁, taken, made, moved⟩
  · have loops₁ : (s.newConnection d fd).Loops := ⟨loops.loop, loops.base, loops.threads⟩
    have effect := TcpConnection.run_effect born.ran
    obtain ⟨new, queued, callbacks⟩ := (TcpConnection.effect_local effect nofun).queued
    have different : c ≠ d := by
      rintro rfl
      exact born.fresh created
    have pushed := (commit_loops loops₁ d x).2.1
    rw [born.result]
    refine ⟨[], x.queued, ?_, pushed.inserted, ?_, by simp⟩
    · rw [commit_other different, newConnection_other different, List.append_nil]
    · rw [queued]
      exact fun member => absurd member (callbacks_other callbacks different)
  · have inv := control_inv h moved.control
    have steady := control_steady h moved.control c
    obtain ⟨first, inserted, none⟩ := steady.queued
    rcases moved.ended with ⟨rfl, rfl⟩ | ⟨d, call, x, rfl, member, ran, rfl⟩
    · exact ⟨[], first, by rw [steady.socket, List.append_nil], inserted,
        fun member => absurd member (none c), by simp⟩
    · have connected := inv.connected member moved.origin.made
      have effect := TcpConnection.run_effect ran
      obtain ⟨new, queued, callbacks⟩ := (TcpConnection.effect_local effect connected).queued
      have pushed := (commit_loops moved.loops d x).2.1
      have all : (s₁.commit d x).loop.queue.inserted = s.loop.queue.inserted ++ (first ++ x.queued) := by
        rw [pushed.inserted, inserted, List.append_assoc]
      by_cases same : c = d
      · subst same
        obtain ⟨ops, out, _⟩ := TcpConnection.run_outputs (inv.output c (inv.registered.subset member)) connected ran
        refine ⟨ops, first ++ x.queued, ?_, all, ?_, ?_⟩
        · rw [commit_self, out.socket]
          exact congrArg (· ++ ops) steady.socket
        · intro late
          rw [commit_self]
          rcases List.mem_append.mp late with early | now
          · exact absurd early (none c)
          · exact (out.complete c now).resolve_left (by simp [ctx])
        · intro closes last
          rw [commit_self]
          exact out.fin (steady.closes.trans closes) last
      · refine ⟨[], first ++ x.queued, ?_, all, ?_, by simp⟩
        · rw [commit_other same, steady.socket, List.append_nil]
        · rw [queued]
          intro late
          rcases List.mem_append.mp late with early | now
          · exact absurd early (none c)
          · exact absurd now (callbacks_other callbacks same)

/-! ### Results -/

theorem dropped_eq_refused {r : SendRecord} (ran : r.outcome ≠ .gaveUp) : r.dropped = r.refused := by
  unfold SendRecord.dropped SendRecord.refused
  cases outcome : r.outcome with
  | gaveUp => exact absurd outcome ran
  | buffered => rfl
  | direct result =>
    cases result with
    | wrote n => rfl
    | failed errno =>
      by_cases pipe : errno = EPIPE
      · subst pipe
        rfl
      · by_cases reset : errno = ECONNRESET
        · subst reset
          rfl
        · have other : (Outcome.direct (.failed errno) == .direct (.failed EPIPE) ||
              Outcome.direct (.failed errno) == .direct (.failed ECONNRESET)) = false := by
            rw [Bool.or_eq_false_iff, beq_eq_false_iff_ne, beq_eq_false_iff_ne]
            exact ⟨by simpa using pipe, by simpa using reset⟩
          rw [other]
          simp [WriteResult.faultError, pipe, reset]

/-- Until `handleClose` runs, the bytes handed to the kernel and those still buffered are the messages in
the order in which their `sendInLoop` ran, less those refused; and each thread's accepted messages
are, in the order of its calls, those sent, those queued and the one it is about to push. -/
theorem output_is_messages {c : ConnId} (h : tcpServer.Reachable Lib.Machine.anyStep s)
    (created : c ∈ s.created) (before : (s.conn c).closeCalls = 0) :
    (s.conn c).sent ++ (s.conn c).outputBuffer.readable =
      (((s.conn c).sends.filter fun r => !r.refused).flatMap fun r => r.message.bytes) ∧
    ∀ t, (s.conn c).acceptedBy t =
      (s.conn c).sentBy t ++ queuedBy t c s.todo ++ queuedBy t c (s.calling.map Prod.snd) := by
  have output := (reachable_inv h).output c created
  refine ⟨?_, (reachable_order h).order c created⟩
  have same : (s.conn c).sends.filter (fun r => !r.dropped) = (s.conn c).sends.filter (fun r => !r.refused) := by
    apply List.filter_congr
    intro r member
    rw [dropped_eq_refused (output.kept before r member)]
  rw [← same]
  exact output.stream

def twoBytes : Message := ⟨[10, 11], Nat.le_of_ble_eq_true rfl⟩

def opening : List Label :=
  [.enter, .check, .poll [(.acceptor, 0)], .visit, .accept 7 5, .userReturn, .doPendingFunctors,
    .functorsDone, .check]

/-- Two threads send; the kernel takes one byte of the first message and none of the second. -/
theorem output_is_messages_two_senders :
    ∃ s, tcpServer.Reachable Lib.Machine.anyStep s ∧ (s.conn 7).sent ++ (s.conn 7).outputBuffer.readable = [10, 11, 20] ∧
      (s.conn 7).acceptedBy 2 = (s.conn 7).sentBy 2 := by
  obtain ⟨s, reached, created, before, records, none⟩ := Lib.Machine.exec_reaches tcpServer
    Lib.Machine.anyStep { loop := { threadId := 1 }, base := { threadId := 0 } }
    (opening ++ [.call 2 7 (.send (.string twoBytes)), .push 2, .wakeup 2,
      .call 3 7 (.send (.raw ⟨[20], Nat.le_of_ble_eq_true rfl⟩)), .push 3, .poll [(.wakeup, 0)], .visit,
      .doPendingFunctors, .functor (.wrote 1), .functor (.wrote 0)])
    (fun s => 7 ∈ s.created ∧ (s.conn 7).closeCalls = 0 ∧
      (((s.conn 7).sends.filter fun r => !r.refused).flatMap fun r => r.message.bytes) = [10, 11, 20] ∧
      queuedBy 2 7 s.todo ++ queuedBy 2 7 (s.calling.map Prod.snd) = [])
    ⟨1, 0, false, by decide, rfl⟩ (by decide +kernel)
  obtain ⟨stream, order⟩ := output_is_messages reached created before
  refine ⟨s, reached, stream.trans records, ?_⟩
  rw [order 2, List.append_assoc, none, List.append_nil]

/-- In an open connection the channel asks for write events exactly while bytes are buffered; and when
a step queues a write-complete callback or shuts the socket down for writing, no byte is left: in every run
in which no `shutdown` of another thread sets `state_` after `handleClose`. -/
theorem writing_iff_buffered {c : ConnId} (h : tcpServer.Reachable OnTime s)
    (created : c ∈ s.created) (live : (s.conn c).state = .kConnected ∨ (s.conn c).state = .kDisconnecting) :
    ((s.conn c).channel.isWriting = true ↔ (s.conn c).outputBuffer.readable ≠ []) ∧
    ∀ label s', s.step label = some (.ok s') →
      (∀ new, s'.loop.queue.inserted = s.loop.queue.inserted ++ new → .writeCompleteCallback c ∈ new →
        (s'.conn c).outputBuffer.readable = []) ∧
      (∀ ops, (s'.conn c).socket = (s.conn c).socket ++ ops → .shutdownWrite ∈ ops →
        (s'.conn c).outputBuffer.readable = []) := by
  have inv := reachable_inv h
  have closes : (s.conn c).closeCalls = 0 := by
    refine (reachable_closedOnce h c created).live ?_
    rcases live with state | state <;> simp [state]
  refine ⟨(inv.output c created).writing closes, ?_⟩
  intro label s' step
  obtain ⟨ops, new, issued⟩ := step_issued (reachable_loops h) inv created step
  refine ⟨?_, ?_⟩
  · intro new' inserted complete
    rw [issued.inserted, List.append_cancel_left_eq] at inserted
    exact issued.complete (inserted ▸ complete)
  · intro ops' socket last
    rw [issued.socket, List.append_cancel_left_eq] at socket
    exact issued.fin closes (socket ▸ last)

/-- The loop's thread sends two bytes, of which the kernel takes one. -/
def halfSent : List Label :=
  opening ++ [.poll [(.other 0, 0)], .visit, .own 7 (.send 1 (.string twoBytes) (.wrote 1)), .userReturn,
    .doPendingFunctors, .functorsDone, .check]

/-- The kernel takes half of a message; after `shutdown` by another thread the rest is buffered and watched for. -/
theorem writing_iff_buffered_backpressure :
    ∃ s, tcpServer.Reachable OnTime s ∧ (s.conn 7).state = .kDisconnecting ∧
      (s.conn 7).outputBuffer.readable = [11] ∧ (s.conn 7).channel.isWriting = true := by
  obtain ⟨s, reached, created, state, bytes⟩ := Lib.Machine.exec_reaches tcpServer OnTime
    { loop := { threadId := 1 }, base := { threadId := 0 } } (halfSent ++ [.shutdown 2 7, .setState 2])
    (fun s => 7 ∈ s.created ∧ (s.conn 7).state = .kDisconnecting ∧ (s.conn 7).outputBuffer.readable = [11])
    ⟨1, 0, false, by decide, rfl⟩ (by decide +kernel)
  exact ⟨s, reached, state, bytes,
    (writing_iff_buffered reached created (.inr state)).1.mpr (by simp [bytes])⟩

/-- The end of the stream is read after thread 2 has passed the test of `shutdown`: `handleClose` stops the
writing, the thread sets `kDisconnecting`, and `shutdownInLoop` shuts the socket down before the last byte. -/
theorem shutdown_after_close : ∃ s, tcpServer.Reachable Lib.Machine.anyStep s ∧ 7 ∈ s.created ∧
    (s.conn 7).state = .kDisconnecting ∧ (s.conn 7).channel.isWriting = false ∧
    (s.conn 7).outputBuffer.readable = [11] ∧ (s.conn 7).socket = [.write [10, 11] (.wrote 1), .shutdownWrite] :=
  Lib.Machine.exec_reaches tcpServer Lib.Machine.anyStep { loop := { threadId := 1 }, base := { threadId := 0 } }
    (halfSent ++ [.shutdown 2 7, .poll [(.connection 7, POLLIN)], .visit, .hangup, .readable (.data []),
      .setState 2, .push 2, .wakeup 2, .writable (.wrote 0), .handled, .doPendingFunctors, .functor (.wrote 0)])
    (fun s => 7 ∈ s.created ∧ (s.conn 7).state = .kDisconnecting ∧ (s.conn 7).channel.isWriting = false ∧
      (s.conn 7).outputBuffer.readable = [11] ∧ (s.conn 7).socket = [.write [10, 11] (.wrote 1), .shutdownWrite])
    ⟨1, 0, false, by decide, rfl⟩ (by decide +kernel)

end TcpServer

end Dserver.Net
