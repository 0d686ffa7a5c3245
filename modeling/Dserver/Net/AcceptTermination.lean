import Mathlib.Logic.Function.Iterate
import Dserver.Net.Acceptor

/-!
# The end of `Acceptor::handleRead`

The outer loop ends at EAGAIN. The loop that follows EMFILE ends only with a connection: when the queue has run empty
by then, `accept` reports EAGAIN for ever.
-/

namespace Dserver.Net

/-- The kernel's answers in the order of the calls: to `accept4` and `accept`, and to `open`. -/
structure Answers where
  accepts : Nat → FdResult
  opens : Nat → FdResult

structure Calls where
  state : Acceptor
  accepts : Nat
  opens : Nat

namespace Answers

/-- One call, after which `handleRead` goes on to its next one. -/
def next (env : Answers) (c : Calls) : Calls :=
  match c.state.point with
  | .accept | .drain => { c with state := c.state.handleRead (env.accepts c.accepts), accepts := c.accepts + 1 }
  | .reopen => { c with state := c.state.handleRead (env.opens c.opens), opens := c.opens + 1 }
  | .returned => c

def Returns (env : Answers) (s : Acceptor) : Prop := ∃ n, (env.next^[n] ⟨s, 0, 0⟩).state.point = .returned

/-- The calls of `accept4`, which are those of the outer loop. -/
inductive Outer (env : Answers) : Nat → Prop where
  | first : Outer env 0
  | again {i : Nat} (before : Outer env i) (more : env.accepts i ≠ .failed EAGAIN)
      (room : env.accepts i ≠ .failed EMFILE) : Outer env (i + 1)
  | drained {i j : Nat} {fd : Fd} (before : Outer env i) (full : env.accepts i = .failed EMFILE) (later : i < j)
      (waits : ∀ k, i < k → k < j → ∀ fd, env.accepts k ≠ .ok fd) (found : env.accepts j = .ok fd) : Outer env (j + 1)

/-- Whenever `accept4` reports EMFILE, a connection still comes. -/
def TurnsAway (env : Answers) : Prop :=
  ∀ i, env.Outer i → env.accepts i = .failed EMFILE → ∃ j fd, i < j ∧ env.accepts j = .ok fd

variable {env : Answers} {c c' : Calls} {s : Acceptor}

def Reaches (env : Answers) (c c' : Calls) : Prop := ∃ n, env.next^[n] c = c'

theorem Reaches.refl (c : Calls) : env.Reaches c c := ⟨0, rfl⟩

theorem Reaches.head (h : env.Reaches (env.next c) c') : env.Reaches c c' := by
  obtain ⟨n, rest⟩ := h
  exact ⟨n + 1, rest⟩

theorem Reaches.trans {c'' : Calls} (first : env.Reaches c c') (second : env.Reaches c' c'') :
    env.Reaches c c'' := by
  obtain ⟨n, rfl⟩ := first
  obtain ⟨m, rfl⟩ := second
  exact ⟨m + n, Function.iterate_add_apply _ _ _ _⟩

/-! ### What one call does -/

theorem next_accept (point : c.state.point = .accept) :
    env.next c = { c with state := c.state.handleAccept (env.accepts c.accepts), accepts := c.accepts + 1 } := by
  simp only [next, point, Acceptor.handleRead]

theorem next_drain (point : c.state.point = .drain) :
    env.next c = { c with state := c.state.handleDrain (env.accepts c.accepts), accepts := c.accepts + 1 } := by
  simp only [next, point, Acceptor.handleRead]

theorem next_reopen (point : c.state.point = .reopen) :
    env.next c = { c with state := c.state.handleReopen (env.opens c.opens), opens := c.opens + 1 } := by
  simp only [next, point, Acceptor.handleRead]

theorem next_returned (point : c.state.point = .returned) : env.next c = c := by
  simp only [next, point]

theorem close_point (s : Acceptor) (fd : Fd) : (s.close fd).point = s.point := by
  unfold Acceptor.close
  split <;> rfl

theorem handleAccept_again {result : FdResult} (point : s.point = .accept) (more : result ≠ .failed EAGAIN)
    (room : result ≠ .failed EMFILE) : (s.handleAccept result).point = .accept := by
  cases result with
  | ok fd =>
    unfold Acceptor.handleAccept
    dsimp only
    split
    · exact point
    · rw [close_point]
      exact point
  | failed errno =>
    have other : errno ≠ EAGAIN := fun same => more (by rw [same])
    have other' : errno ≠ EMFILE := fun same => room (by rw [same])
    simp only [Acceptor.handleAccept, if_neg other, if_neg other', point]

theorem handleAccept_full (s : Acceptor) : (s.handleAccept (.failed EMFILE)).point = .drain := by
  have other : EMFILE ≠ EAGAIN := by decide
  simp only [Acceptor.handleAccept, if_neg other, if_true]

theorem handleAccept_quiet (s : Acceptor) : (s.handleAccept (.failed EAGAIN)).point = .returned := by
  simp only [Acceptor.handleAccept, if_true]

/-! ### The two loops behind EMFILE -/

theorem drain_reaches {d : Nat} {fd : Fd} (point : c.state.point = .drain) (found : env.accepts (c.accepts + d) = .ok fd) :
    ∃ c' j fd', env.Reaches c c' ∧ c'.state.point = .reopen ∧ c'.accepts = j + 1 ∧ c.accepts ≤ j ∧
      env.accepts j = .ok fd' ∧ ∀ k, c.accepts ≤ k → k < j → ∀ fd, env.accepts k ≠ .ok fd := by
  induction d generalizing c with
  | zero =>
    refine ⟨_, c.accepts, fd, .head (.refl _), ?_, ?_, Nat.le_refl _, found, fun k low high => by omega⟩
    · rw [next_drain point, show env.accepts c.accepts = .ok fd from found]
      rfl
    · rw [next_drain point]
  | succ d ih =>
    cases answer : env.accepts c.accepts with
    | ok fd' =>
      refine ⟨_, c.accepts, fd', .head (.refl _), ?_, ?_, Nat.le_refl _, answer, fun k low high => by omega⟩
      · rw [next_drain point, answer]
        rfl
      · rw [next_drain point]
    | failed errno =>
      have waits : (env.next c).state.point = .drain := by
        rw [next_drain point, answer]
        exact point
      have count : (env.next c).accepts = c.accepts + 1 := by rw [next_drain point]
      have found' : env.accepts ((env.next c).accepts + d) = .ok fd := by
        rw [count, show c.accepts + 1 + d = c.accepts + (d + 1) by omega, found]
      obtain ⟨c', j, fd', reaches, point', count', low, first, before⟩ := ih waits found'
      refine ⟨c', j, fd', .head reaches, point', count', by omega, first, fun k above below => ?_⟩
      by_cases same : k = c.accepts
      · rw [same, answer]
        exact fun _ h => FdResult.noConfusion h
      · exact before k (by omega) below

theorem reopen_reaches {d : Nat} {fd : Fd} (point : c.state.point = .reopen) (free : env.opens (c.opens + d) = .ok fd) :
    ∃ c', env.Reaches c c' ∧ c'.state.point = .accept ∧ c'.accepts = c.accepts := by
  induction d generalizing c with
  | zero =>
    refine ⟨_, .head (.refl _), ?_, ?_⟩
    · rw [next_reopen point, show env.opens c.opens = .ok fd from free]
      rfl
    · rw [next_reopen point]
  | succ d ih =>
    cases answer : env.opens c.opens with
    | ok fd' =>
      refine ⟨_, .head (.refl _), ?_, ?_⟩
      · rw [next_reopen point, answer]
        rfl
      · rw [next_reopen point]
    | failed errno =>
      have waits : (env.next c).state.point = .reopen := by
        rw [next_reopen point, answer]
        exact point
      have free' : env.opens ((env.next c).opens + d) = .ok fd := by
        rw [next_reopen point]
        dsimp only
        rw [show c.opens + 1 + d = c.opens + (d + 1) by omega, free]
      obtain ⟨c', reaches, point', count⟩ := ih waits free'
      refine ⟨c', .head reaches, point', ?_⟩
      rw [count, next_reopen point]

section Returning

/- A descriptor is free again at some call of `open`. -/
variable (opens : ∀ n, ∃ m fd, n ≤ m ∧ env.opens m = .ok fd)
include opens

/-- Behind EMFILE the outer loop goes on at the call that follows the next connection. -/
theorem full_reaches {j : Nat} {fd : Fd} (point : c.state.point = .accept) (full : env.accepts c.accepts = .failed EMFILE)
    (later : c.accepts < j) (found : env.accepts j = .ok fd) :
    ∃ c' j' fd', env.Reaches c c' ∧ c'.state.point = .accept ∧ c'.accepts = j' + 1 ∧ c.accepts < j' ∧
      env.accepts j' = .ok fd' ∧ ∀ k, c.accepts < k → k < j' → ∀ fd, env.accepts k ≠ .ok fd := by
  have drains : (env.next c).state.point = .drain := by
    rw [next_accept point, full]
    exact handleAccept_full _
  have count : (env.next c).accepts = c.accepts + 1 := by rw [next_accept point]
  have found' : env.accepts ((env.next c).accepts + (j - (c.accepts + 1))) = .ok fd := by
    rw [count, Nat.add_sub_cancel' later, found]
  obtain ⟨c₁, j', fd', drained, reopens, count₁, low, first, before⟩ := drain_reaches drains found'
  obtain ⟨m, fd'', above, free⟩ := opens c₁.opens
  obtain ⟨c₂, reopened, accepts, count₂⟩ := reopen_reaches (d := m - c₁.opens) reopens
    (by rw [Nat.add_sub_cancel' above]; exact free)
  refine ⟨c₂, j', fd', .head (drained.trans reopened), accepts, count₂.trans count₁, by omega, first,
    fun k above below => before k (by omega) below⟩

theorem Outer.reached (point : s.point = .accept) {i : Nat} (outer : env.Outer i) :
    ∃ c, env.Reaches ⟨s, 0, 0⟩ c ∧ c.state.point = .accept ∧ c.accepts = i := by
  induction outer with
  | first => exact ⟨_, .refl _, point, rfl⟩
  | again before more room ih =>
    obtain ⟨c, reaches, point', count⟩ := ih
    refine ⟨env.next c, reaches.trans (.head (.refl _)), ?_, ?_⟩
    · rw [next_accept point']
      exact handleAccept_again point' (by rw [count]; exact more) (by rw [count]; exact room)
    · rw [next_accept point', ← count]
  | drained before full later waits found ih =>
    obtain ⟨c, reaches, point', count⟩ := ih
    rw [← count] at full later waits
    obtain ⟨c', j', fd', onward, accepts, count', low, first, earlier⟩ := full_reaches opens point' full later found
    refine ⟨c', reaches.trans onward, accepts, ?_⟩
    -- both are the first connection behind the call
    rename_i j fd
    have same : j' = j := by
      rcases Nat.lt_trichotomy j' j with less | equal | more
      · exact absurd first (waits j' low less fd')
      · exact equal
      · exact absurd found (earlier j later more fd)
    rw [count', same]

theorem returns_of_turnsAway {n : Nat} (quiet : ∀ i, n ≤ i → env.accepts i = .failed EAGAIN) (away : env.TurnsAway)
    {d : Nat} (point : c.state.point = .accept) (outer : env.Outer c.accepts) (left : n ≤ c.accepts + d) :
    ∃ c', env.Reaches c c' ∧ c'.state.point = .returned := by
  induction d generalizing c with
  | zero =>
    refine ⟨_, .head (.refl _), ?_⟩
    rw [next_accept point, quiet c.accepts left]
    exact handleAccept_quiet _
  | succ d ih =>
    by_cases empty : env.accepts c.accepts = .failed EAGAIN
    · refine ⟨_, .head (.refl _), ?_⟩
      rw [next_accept point, empty]
      exact handleAccept_quiet _
    · by_cases full : env.accepts c.accepts = .failed EMFILE
      · obtain ⟨j, fd, later, found⟩ := away _ outer full
        obtain ⟨c', j', fd', reaches, accepts, count, low, first, earlier⟩ := full_reaches opens point full later found
        have outer' : env.Outer c'.accepts := by
          rw [count]
          exact .drained outer full low earlier first
        obtain ⟨c'', onward, returned⟩ := ih accepts outer' (by omega)
        exact ⟨c'', reaches.trans onward, returned⟩
      · have accepts : (env.next c).state.point = .accept := by
          rw [next_accept point]
          exact handleAccept_again point empty full
        have count : (env.next c).accepts = c.accepts + 1 := by rw [next_accept point]
        have outer' : env.Outer (env.next c).accepts := by
          rw [count]
          exact .again outer empty full
        obtain ⟨c', reaches, returned⟩ := ih accepts outer' (by omega)
        exact ⟨c', .head reaches, returned⟩

end Returning

theorem drain_stays (point : c.state.point = .drain) (none : ∀ k, c.accepts ≤ k → ∀ fd, env.accepts k ≠ .ok fd) (n : Nat) :
    (env.next^[n] c).state.point = .drain := by
  induction n generalizing c with
  | zero => exact point
  | succ n ih =>
    rw [Function.iterate_succ_apply]
    cases answer : env.accepts c.accepts with
    | ok fd => exact absurd answer (none _ (Nat.le_refl _) fd)
    | failed errno =>
      refine ih ?_ fun k above => ?_
      · rw [next_drain point, answer]
        exact point
      · rw [next_drain point] at above
        exact none k (Nat.le_of_succ_le above)

theorem returned_stays (point : c.state.point = .returned) (n : Nat) : env.next^[n] c = c :=
  Function.iterate_fixed (next_returned point) n

/-- When the kernel comes to report only EAGAIN, `handleRead` returns if and only if each EMFILE of the outer loop is
followed by a connection. -/
theorem handleRead_returns (point : s.point = .accept) (quiet : ∃ n, ∀ i, n ≤ i → env.accepts i = .failed EAGAIN)
    (opens : ∀ n, ∃ m fd, n ≤ m ∧ env.opens m = .ok fd) : env.Returns s ↔ env.TurnsAway := by
  constructor
  · rintro ⟨n, returned⟩ i outer full
    by_contra none
    obtain ⟨c, ⟨m, reaches⟩, accepts, count⟩ := outer.reached opens point
    rw [← count] at full
    have drains : (env.next c).state.point = .drain := by
      rw [next_accept accepts, full]
      exact handleAccept_full _
    have after : (env.next c).accepts = i + 1 := by rw [next_accept accepts, ← count]
    have spins := drain_stays drains fun k above fd found => none ⟨k, fd, by omega, found⟩
    -- the state behind both numbers of calls is in the loop and has returned
    have stuck : (env.next^[n + (m + 1)] ⟨s, 0, 0⟩).state.point = .drain := by
      rw [Function.iterate_add_apply, Function.iterate_succ_apply', reaches]
      exact spins n
    rw [Nat.add_comm, Function.iterate_add_apply, returned_stays returned, returned] at stuck
    cases stuck
  · intro away
    obtain ⟨n, quiet⟩ := quiet
    obtain ⟨c, ⟨m, rfl⟩, returned⟩ := returns_of_turnsAway opens quiet away (c := ⟨s, 0, 0⟩) (d := n) point .first (by simp)
    exact ⟨m, returned⟩

def reserved : Acceptor :=
  { newConnectionCallback := true, idleFd := 5, table := fun fd => if fd = 5 then some 0 else none, files := 1,
    reserves := [0] }

/-- `accept` fails once behind EMFILE, and then turns a connection away. -/
theorem handleRead_returns_drained :
    ∃ env : Answers, (env.accepts 0 = .failed EMFILE ∧ env.TurnsAway) ∧ env.Returns reserved := by
  let env : Answers :=
    { accepts := fun i => if i = 0 then .failed EMFILE else if i = 1 then .failed 4 else if i = 2 then .ok 5
        else .failed EAGAIN
      opens := fun _ => .ok 5 }
  have away : env.TurnsAway := by
    intro i _ full
    have first : i < 2 := by
      by_contra late
      have answer : env.accepts i ≠ .failed EMFILE := by
        simp only [env, show i ≠ 0 by omega, show i ≠ 1 by omega, if_false]
        split <;> decide
      exact answer full
    exact ⟨2, 5, first, rfl⟩
  have quiet : ∃ n, ∀ i, n ≤ i → env.accepts i = .failed EAGAIN := by
    refine ⟨3, fun i above => ?_⟩
    simp only [env, show i ≠ 0 by omega, show i ≠ 1 by omega, show i ≠ 2 by omega, if_false]
  exact ⟨env, ⟨rfl, away⟩, (handleRead_returns (s := reserved) rfl quiet fun n => ⟨n, 5, Nat.le_refl n, rfl⟩).mpr away⟩

/-- The peer has gone when `accept` is called. -/
theorem handleRead_spins :
    ∃ env : Answers, (∃ n, ∀ i, n ≤ i → env.accepts i = .failed EAGAIN) ∧ (∀ n, env.opens n = .ok 5) ∧
      ¬ env.Returns reserved := by
  let env : Answers :=
    { accepts := fun i => if i = 0 then .failed EMFILE else .failed EAGAIN, opens := fun _ => .ok 5 }
  have quiet : ∀ i, 1 ≤ i → env.accepts i = .failed EAGAIN := fun i above => if_neg (by omega)
  refine ⟨env, ⟨1, quiet⟩, fun _ => rfl, fun ⟨n, returned⟩ => ?_⟩
  cases n with
  | zero => cases returned
  | succ n =>
    have drains : (env.next ⟨reserved, 0, 0⟩).state.point = .drain := rfl
    have stuck := drain_stays drains (fun k above fd found => by
      rw [quiet k above] at found
      cases found) n
    rw [Function.iterate_succ_apply, stuck] at returned
    cases returned

end Answers

end Dserver.Net
