import Mathlib.Data.List.Count
import Dserver.Net.TcpConnection

/-!
# `Acceptor::handleRead`

A descriptor is a number that names an open file. The kernel gives out a number again after `close`, so the files are
counted and not the numbers. Other threads open and close descriptors of their own between any two calls.
-/

namespace Dserver.Net

def EMFILE : Errno := 24

/-- An open file, numbered in the order of opening. -/
abbrev File := Nat

/-- The answer to `accept4`, `accept` and `open`. -/
inductive FdResult where
  | ok (fd : Fd)
  | failed (errno : Errno)
  deriving DecidableEq, Repr

/-- The call that `handleRead` is about to make: `accept4` of the outer loop, `accept` and `open` of the loops that
follow EMFILE. -/
inductive AcceptPoint where
  | accept
  | drain
  | reopen
  | returned
  deriving DecidableEq, Repr

structure Acceptor where
  /-- Whether `newConnectionCallback_` is set. -/
  newConnectionCallback : Bool
  idleFd : Fd
  point : AcceptPoint := .accept
  -- the descriptor table of the process, and how many files were opened
  table : Fd → Option File
  files : Nat
  -- history: files of `accept`, files of `open`, files given to the callback, and files closed here
  accepted : List File := []
  reserves : List File := []
  passed : List File := []
  closed : List File := []
  /-- Calls of `close` with a number that names no open file. -/
  badCloses : Nat := 0

namespace Acceptor

def opened (s : Acceptor) (fd : Fd) : Acceptor :=
  { s with table := Function.update s.table fd (some s.files), files := s.files + 1 }

/-- `::close`, of which no caller uses the result. -/
def close (s : Acceptor) (fd : Fd) : Acceptor :=
  match s.table fd with
  | some file => { s with table := Function.update s.table fd none, closed := s.closed ++ [file] }
  | none => { s with badCloses := s.badCloses + 1 }

/-- The body of the outer loop. -/
def handleAccept (s : Acceptor) : FdResult → Acceptor
  | .ok connfd =>
    let file := s.files
    let s := { s.opened connfd with accepted := s.accepted ++ [file] }
    if s.newConnectionCallback then { s with passed := s.passed ++ [file] }
    else s.close connfd
  | .failed errno =>
    if errno = EAGAIN then { s with point := .returned }
    else if errno = EMFILE then { s.close s.idleFd with point := .drain }
    else s

/-- The loop that waits for a connection to turn away. -/
def handleDrain (s : Acceptor) : FdResult → Acceptor
  | .ok fd =>
    let s := { s.opened fd with accepted := s.accepted ++ [s.files], idleFd := fd }
    { s.close s.idleFd with point := .reopen }
  | .failed _ => { s with idleFd := -1 }

/-- The loop that opens `/dev/null` again. -/
def handleReopen (s : Acceptor) : FdResult → Acceptor
  | .ok fd => { s.opened fd with reserves := s.reserves ++ [s.files], idleFd := fd, point := .accept }
  | .failed _ => { s with idleFd := -1 }

/-- `handleRead` up to its next call. -/
def handleRead (s : Acceptor) (result : FdResult) : Acceptor :=
  match s.point with
  | .accept => s.handleAccept result
  | .drain => s.handleDrain result
  | .reopen => s.handleReopen result
  | .returned => s

inductive Label where
  | call (result : FdResult)
  /-- Other threads leave this table. -/
  | others (table : Fd → Option File)

/-- `idleFd_` names the reserve descriptor. -/
def Holding (s : Acceptor) : Prop := s.point = .accept ∨ s.point = .returned

instance (s : Acceptor) : Decidable s.Holding := inferInstanceAs (Decidable (_ ∨ _))

/-- The kernel gives a number that is not in use. -/
def mayAnswer (s : Acceptor) : FdResult → Prop
  | .ok fd => 0 ≤ fd ∧ s.table fd = none
  | .failed _ => True

instance (s : Acceptor) (result : FdResult) : Decidable (s.mayAnswer result) :=
  match result with
  | .ok _ => inferInstanceAs (Decidable (_ ∧ _))
  | .failed _ => inferInstanceAs (Decidable True)

def step (s : Acceptor) : Label → Option (Except Empty Acceptor)
  | .call result =>
    if s.point ≠ .returned ∧ s.mayAnswer result then some (.ok (s.handleRead result)) else none
  | .others table =>
    if s.Holding → table s.idleFd = s.table s.idleFd then some (.ok { s with table }) else none

end Acceptor

/-- `handleRead` is called with an open reserve descriptor. -/
def acceptor : Lib.Machine Acceptor Acceptor.Label Empty where
  init s :=
    ∃ reserve, s.table s.idleFd = some reserve ∧ reserve < s.files ∧ s.point = .accept ∧ s.reserves = [reserve] ∧
      s.accepted = [] ∧ s.passed = [] ∧ s.closed = [] ∧ s.badCloses = 0
  step := Acceptor.step

namespace Acceptor

variable {s s' : Acceptor} {fd : Fd} {f : File}

def held (s : Acceptor) : List File := if s.Holding then (s.table s.idleFd).toList else []

/-- Every file that was accepted or opened is given away, closed, or the reserve, and only one of these. -/
structure Inv (s : Acceptor) : Prop where
  balance : ∀ f, s.passed.count f + s.closed.count f + s.held.count f = s.accepted.count f + s.reserves.count f
  once : ∀ f, s.accepted.count f + s.reserves.count f ≤ 1
  below : ∀ f, s.files ≤ f → s.accepted.count f + s.reserves.count f = 0
  reserve : s.Holding → ∃ f ∈ s.reserves, s.table s.idleFd = some f
  passed : ∀ f ∈ s.passed, f ∈ s.accepted
  good : s.badCloses = 0

theorem close_eq (h : s.table fd = some f) :
    s.close fd = { s with table := Function.update s.table fd none, closed := s.closed ++ [f] } := by
  rw [close, h]

theorem held_eq (holding : s.Holding) (h : s.table s.idleFd = some f) : s.held = [f] := by
  rw [held, if_pos holding, h]
  rfl

theorem held_nil (released : ¬ s.Holding) : s.held = [] := if_neg released

theorem count_snoc (files : List File) (file f : File) :
    (files ++ [file]).count f = files.count f + if file = f then 1 else 0 := by
  rw [List.count_append, List.count_singleton]
  simp

theorem initial_inv (h : acceptor.init s) : s.Inv := by
  obtain ⟨reserve, names, below, point, reserves, accepted, passed, closed, good⟩ := h
  have held : s.held = [reserve] := held_eq (.inl point) names
  refine ⟨fun f => ?_, fun f => ?_, fun f high => ?_, fun _ => ⟨reserve, ?_, names⟩, ?_, good⟩
  · simp [held, reserves, accepted, passed, closed]
  · rw [accepted, reserves, List.count_nil, Nat.zero_add]
    exact List.count_le_length
  · have other : reserve ≠ f := Nat.ne_of_lt (Nat.lt_of_lt_of_le below high)
    simp [accepted, reserves, other]
  · simp [reserves]
  · simp [passed]

theorem Inv.place (inv : s.Inv) (files : s'.files = s.files + 1)
    (opened : ∀ f, s'.accepted.count f + s'.reserves.count f =
      s.accepted.count f + s.reserves.count f + if s.files = f then 1 else 0)
    (placed : ∀ f, s'.passed.count f + s'.closed.count f + s'.held.count f =
      s.passed.count f + s.closed.count f + s.held.count f + if s.files = f then 1 else 0)
    (reserve : s'.Holding → ∃ f ∈ s'.reserves, s'.table s'.idleFd = some f)
    (passed : ∀ f ∈ s'.passed, f ∈ s'.accepted) (good : s'.badCloses = s.badCloses) : s'.Inv := by
  refine ⟨fun f => ?_, fun f => ?_, fun f high => ?_, reserve, passed, good.trans inv.good⟩
  · rw [opened, placed, inv.balance]
  · have once := inv.once f
    have below := inv.below f
    rw [opened]
    split <;> omega
  · have newer : s.files ≠ f := by omega
    rw [opened, if_neg newer, inv.below f (by omega)]

theorem accepted_inv (inv : s.Inv) (point : s.point = .accept) (free : s.table fd = none) :
    (s.handleAccept (.ok fd)).Inv := by
  obtain ⟨reserve, member, names⟩ := inv.reserve (.inl point)
  have other : s.idleFd ≠ fd := by
    intro same
    rw [same, free] at names
    cases names
  have held : s.held = [reserve] := held_eq (.inl point) names
  unfold handleAccept
  dsimp only [Acceptor.opened]
  split
  · have kept : Function.update s.table fd (some s.files) s.idleFd = some reserve := by
      rw [Function.update_of_ne other, names]
    refine inv.place rfl (fun f => ?_) (fun f => ?_) (fun _ => ⟨reserve, member, kept⟩) (fun f passed => ?_) rfl
    · simp only [count_snoc]
      omega
    · rw [held, held_eq (f := reserve) (.inl (by exact point)) (by exact kept)]
      simp only [count_snoc]
      omega
    · rcases List.mem_append.mp passed with old | new
      · exact List.mem_append_left _ (inv.passed f old)
      · exact List.mem_append_right _ new
  · rw [close_eq (f := s.files) (Function.update_self _ _ _)]
    have kept : Function.update (Function.update s.table fd (some s.files)) fd none s.idleFd = some reserve := by
      rw [Function.update_of_ne other, Function.update_of_ne other, names]
    refine inv.place rfl (fun f => ?_) (fun f => ?_) (fun _ => ⟨reserve, member, kept⟩)
      (fun f passed => List.mem_append_left _ (inv.passed f passed)) rfl
    · simp only [count_snoc]
      omega
    · rw [held, held_eq (f := reserve) (.inl (by exact point)) (by exact kept)]
      simp only [count_snoc]
      omega

theorem released_inv (inv : s.Inv) (point : s.point = .accept) :
    Inv { s.close s.idleFd with point := .drain } := by
  obtain ⟨reserve, _, names⟩ := inv.reserve (.inl point)
  have held : s.held = [reserve] := held_eq (.inl point) names
  rw [close_eq names]
  refine ⟨fun f => ?_, inv.once, inv.below, fun holding => ?_, inv.passed, inv.good⟩
  · have balance := inv.balance f
    rw [held_nil (by simp [Holding])]
    rw [held, List.count_singleton] at balance
    simp only [count_snoc, List.count_nil]
    simpa [add_assoc] using balance
  · simp [Holding] at holding

theorem drained_inv (inv : s.Inv) (point : s.point = .drain) : (s.handleDrain (.ok fd)).Inv := by
  have held : s.held = [] := held_nil (by simp [Holding, point])
  unfold handleDrain
  dsimp only [Acceptor.opened]
  rw [close_eq (f := s.files) (Function.update_self _ _ _)]
  refine inv.place rfl (fun f => ?_) (fun f => ?_) (fun holding => ?_)
    (fun f passed => List.mem_append_left _ (inv.passed f passed)) rfl
  · simp only [count_snoc]
    omega
  · rw [held, held_nil (by simp [Holding])]
    simp only [count_snoc]
    omega
  · simp [Holding] at holding

theorem reopened_inv (inv : s.Inv) (point : s.point = .reopen) : (s.handleReopen (.ok fd)).Inv := by
  have held : s.held = [] := held_nil (by simp [Holding, point])
  have names : Function.update s.table fd (some s.files) fd = some s.files := Function.update_self _ _ _
  unfold handleReopen
  dsimp only [Acceptor.opened]
  refine inv.place rfl (fun f => ?_) (fun f => ?_) (fun _ => ⟨s.files, List.mem_append_right _ (by simp), names⟩)
    inv.passed rfl
  · simp only [count_snoc]
    omega
  · rw [held, held_eq (f := s.files) (.inl (by rfl)) (by exact names), List.count_singleton, List.count_nil]
    simp

/-- What is not a descriptor changes `idleFd_` only where it names nothing. -/
theorem Inv.keep (inv : s.Inv) (holding : s'.Holding ↔ s.Holding)
    (names : s.Holding → s'.table s'.idleFd = s.table s.idleFd)
    (lists : s'.accepted = s.accepted ∧ s'.reserves = s.reserves ∧ s'.passed = s.passed ∧ s'.closed = s.closed)
    (counts : s'.files = s.files ∧ s'.badCloses = s.badCloses) : s'.Inv := by
  obtain ⟨accepted, reserves, passed, closed⟩ := lists
  have held : s'.held = s.held := by
    unfold Acceptor.held
    by_cases there : s.Holding
    · rw [if_pos there, if_pos (holding.mpr there), names there]
    · rw [if_neg there, if_neg (fun h => there (holding.mp h))]
  refine ⟨?_, ?_, ?_, fun there => ?_, ?_, counts.2.trans inv.good⟩
  · rw [held, accepted, reserves, passed, closed]
    exact inv.balance
  · rw [accepted, reserves]
    exact inv.once
  · rw [accepted, reserves, counts.1]
    exact inv.below
  · rw [reserves, names (holding.mp there)]
    exact inv.reserve (holding.mp there)
  · rw [passed, accepted]
    exact inv.passed

theorem handleRead_inv {result : FdResult} (inv : s.Inv) (allowed : s.mayAnswer result) :
    (s.handleRead result).Inv := by
  unfold handleRead
  split
  · rename_i point
    cases result with
    | ok fd => exact accepted_inv inv point allowed.2
    | failed errno =>
      unfold handleAccept
      dsimp only
      split
      · exact inv.keep (by simp [Holding, point]) (fun _ => rfl) ⟨rfl, rfl, rfl, rfl⟩ ⟨rfl, rfl⟩
      · split
        · exact released_inv inv point
        · exact inv
  · rename_i point
    cases result with
    | ok fd => exact drained_inv inv point
    | failed errno =>
      refine inv.keep Iff.rfl (fun holding => ?_) ⟨rfl, rfl, rfl, rfl⟩ ⟨rfl, rfl⟩
      simp [Holding, point] at holding
  · rename_i point
    cases result with
    | ok fd => exact reopened_inv inv point
    | failed errno =>
      refine inv.keep Iff.rfl (fun holding => ?_) ⟨rfl, rfl, rfl, rfl⟩ ⟨rfl, rfl⟩
      simp [Holding, point] at holding
  · exact inv

theorem reachable_inv (h : acceptor.Reachable Lib.Machine.anyStep s) : s.Inv := by
  refine h.invariant (fun _ => initial_inv) ?_
  intro a label b _ inv _ step
  cases label with
  | call result =>
    obtain ⟨⟨_, allowed⟩, result⟩ := Option.ite_none_right_eq_some.mp step
    obtain rfl := Except.ok.inj (Option.some.inj result)
    exact handleRead_inv inv allowed
  | others table =>
    obtain ⟨agrees, result⟩ := Option.ite_none_right_eq_some.mp step
    obtain rfl := Except.ok.inj (Option.some.inj result)
    exact inv.keep Iff.rfl agrees ⟨rfl, rfl, rfl, rfl⟩ ⟨rfl, rfl⟩

/-- No number is closed that names nothing, and no file twice. When `handleRead` returns, every connection was either
given to the callback or closed, once, and `idleFd_` names the only reserve that is open. -/
theorem descriptors_accounted (h : acceptor.Reachable Lib.Machine.anyStep s) :
    s.badCloses = 0 ∧ (∀ f, s.closed.count f ≤ 1) ∧ (∀ f ∈ s.closed, f ∈ s.accepted ∨ f ∈ s.reserves) ∧
      (s.point = .returned →
        (∀ f ∈ s.accepted, s.passed.count f + s.closed.count f = 1) ∧
          ∃ reserve ∈ s.reserves, s.table s.idleFd = some reserve ∧ reserve ∉ s.passed ∧ reserve ∉ s.closed ∧
            ∀ f ∈ s.reserves, f ≠ reserve → s.closed.count f = 1) := by
  have inv := reachable_inv h
  refine ⟨inv.good, fun f => ?_, fun f member => ?_, fun returned => ?_⟩
  · have balance := inv.balance f
    have once := inv.once f
    omega
  · have balance := inv.balance f
    have closed := List.count_pos_iff.mpr member
    rcases Nat.eq_zero_or_pos (s.accepted.count f) with none | some
    · exact .inr (List.count_pos_iff.mp (by omega))
    · exact .inl (List.count_pos_iff.mp some)
  · obtain ⟨reserve, member, names⟩ := inv.reserve (.inr returned)
    have held : s.held = [reserve] := held_eq (.inr returned) names
    have elsewhere : ∀ f, f ≠ reserve → s.held.count f = 0 := by
      intro f other
      rw [held, List.count_eq_zero]
      simpa using other
    have balance := inv.balance reserve
    have once := inv.once reserve
    have there := List.count_pos_iff.mpr member
    rw [held, List.count_singleton_self] at balance
    refine ⟨fun f accepted => ?_, reserve, member, names, ?_, ?_, fun f opened other => ?_⟩
    · have balance' := inv.balance f
      have once' := inv.once f
      have taken := List.count_pos_iff.mpr accepted
      have other : f ≠ reserve := by
        rintro rfl
        omega
      rw [elsewhere f other] at balance'
      omega
    · exact List.count_eq_zero.mp (by omega)
    · exact List.count_eq_zero.mp (by omega)
    · have balance' := inv.balance f
      have once' := inv.once f
      have taken := List.count_pos_iff.mpr opened
      have kept : s.passed.count f = 0 := by
        rw [List.count_eq_zero]
        intro passed
        have accepted := List.count_pos_iff.mpr (inv.passed f passed)
        omega
      rw [elsewhere f other] at balance'
      omega

/-- The number of the reserve goes to a connection that is turned away, and to the next reserve. -/
theorem descriptors_accounted_reused :
    ∃ s, acceptor.Reachable Lib.Machine.anyStep s ∧
      (s.point = .returned ∧ s.idleFd = 5 ∧ s.accepted = [1, 2] ∧ s.reserves = [0, 3]) ∧
      ∀ f ∈ s.accepted, s.passed.count f + s.closed.count f = 1 := by
  obtain ⟨s, reached, state⟩ := Lib.Machine.exec_reaches acceptor Lib.Machine.anyStep
    { newConnectionCallback := true, idleFd := 5, table := fun fd => if fd = 5 then some 0 else none, files := 1,
      reserves := [0] }
    [.call (.ok 6), .call (.failed EMFILE), .call (.failed 4), .call (.ok 5), .call (.ok 5), .call (.failed EAGAIN)]
    (fun s => s.point = .returned ∧ s.idleFd = 5 ∧ s.accepted = [1, 2] ∧ s.reserves = [0, 3])
    ⟨0, rfl, Nat.zero_lt_one, rfl, rfl, rfl, rfl, rfl, rfl⟩ (by decide)
  exact ⟨s, reached, state, ((descriptors_accounted reached).2.2.2 state.1).1⟩

end Acceptor

end Dserver.Net
