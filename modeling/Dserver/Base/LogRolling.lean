import Dserver.Base.LogFile

/-!
# Rolling loses nothing

The files are opened at strictly increasing seconds, so that their names differ, and every line is in one of them.
-/

namespace Dserver.LogFile

/-! ### Names -/

theorem decimal_undotted (n : Nat) : 46 ∉ LogStream.decimal n := by
  intro member
  rw [LogStream.decimal, if_neg (by omega), List.nil_append, Lib.numeral, List.mem_reverse] at member
  obtain ⟨d, digit, same⟩ := List.mem_map.mp member
  have small : d < 10 := by
    unfold Lib.lowDigits at digit
    split at digit
    · rw [List.mem_singleton.mp digit]
      decide
    · exact Nat.digits_lt_base (by decide) digit
  have value : (UInt8.ofNat (48 + d)).toNat = 48 + d := UInt8.toNat_ofNat_of_lt (by show 48 + d < 256; omega)
  rw [show UInt8.ofNat (48 + d) = 46 from same, show (46 : UInt8).toNat = 46 from rfl] at value
  omega

/-- The first of two equal cuts at a byte is the only one. -/
theorem cut_unique {a : UInt8} {x x' z z' : List UInt8} (first : a ∉ x) (second : a ∉ x')
    (same : x ++ a :: z = x' ++ a :: z') : z = z' := by
  rcases List.append_eq_append_iff.mp same with ⟨more, front, back⟩ | ⟨more, front, back⟩
  · cases more with
    | nil => exact (List.cons.inj back).2
    | cons b rest =>
      rw [front, (List.cons.inj back).1] at second
      exact absurd (List.mem_append_right _ List.mem_cons_self) second
  · cases more with
    | nil => exact (List.cons.inj back).2.symm
    | cons b rest =>
      rw [front, (List.cons.inj back).1] at first
      exact absurd (List.mem_append_right _ List.mem_cons_self) first

/-- The thread stands behind a dot and has none in it, so the time can be read off the name. -/
theorem getLogFileName_inj {strftime : Int → List UInt8} {basename : List UInt8} {now now' : Int} {tid tid' : Nat}
    (same : getLogFileName strftime basename now tid = getLogFileName strftime basename now' tid') :
    strftime now = strftime now' := by
  have dot : literal "." = [46] := by decide
  have cut := List.append_cancel_right same
  rw [dot, List.append_assoc, List.append_assoc] at cut
  have reversed := congrArg List.reverse (List.append_cancel_left cut)
  simp only [List.singleton_append, List.reverse_append, List.reverse_cons, List.append_assoc] at reversed
  have undotted : ∀ n : Nat, 46 ∉ (LogStream.decimal n).reverse := by
    intro n member
    exact decimal_undotted n (List.mem_reverse.mp member)
  exact List.reverse_injective (cut_unique (undotted tid) (undotted tid') reversed)

/-! ### Files -/

variable {strftime : Int → List UInt8} {s s' : LogFile} {f : AppendFile}

/-- The files in the order of opening, the seconds and threads of their names, and the lines in each of them. -/
structure Inv (strftime : Int → List UInt8) (s : LogFile) (f : AppendFile) (stamps : List (Int × Nat))
    (parts : List (List LogLine)) : Prop where
  file : s.file = some f
  names : (s.closed ++ [f]).map AppendFile.filename =
    stamps.map fun stamp => getLogFileName strftime s.basename stamp.1 stamp.2
  increasing : stamps.Pairwise fun a b => a.1 < b.1
  positive : ∀ stamp ∈ stamps, 0 < stamp.1
  bounded : ∀ stamp ∈ stamps, stamp.1 ≤ s.lastRoll
  contents : (s.closed ++ [f]).map AppendFile.contents = parts.map List.flatten
  lines : parts.flatten = s.lines
  flushed : ∀ g ∈ s.closed, g.buffer = []

def Kept (strftime : Int → List UInt8) (s : LogFile) : Prop := ∃ f stamps parts, Inv strftime s f stamps parts

theorem map_snoc {α β : Type} {g : α → β} {front : List α} {last last' : α} {results : List β}
    (eq : (front ++ [last]).map g = results) (same : g last' = g last) : (front ++ [last']).map g = results := by
  rw [List.map_append, List.map_singleton] at eq ⊢
  rw [same]
  exact eq

theorem flush_kept {l : LogFile} (h : Kept strftime s) (ran : s.flush = .ok l) : Kept strftime l := by
  obtain ⟨f, stamps, parts, inv⟩ := h
  rw [LogFile.flush, inv.file] at ran
  obtain rfl := Except.ok.inj ran
  exact ⟨f.flush, stamps, parts, rfl, map_snoc inv.names rfl, inv.increasing, inv.positive, inv.bounded,
    map_snoc inv.contents AppendFile.flush_contents, inv.lines, inv.flushed⟩

theorem rollFile_kept {now : Int} {tid : Nat} (h : Kept strftime s) (positive : 0 < now) :
    Kept strftime (s.rollFile strftime now tid).2 := by
  obtain ⟨f, stamps, parts, inv⟩ := h
  unfold rollFile
  dsimp only
  split
  · rename_i later
    have closed : s.closed ++ s.file.toList.map AppendFile.flush = s.closed ++ [f.flush] := by
      rw [inv.file]
      rfl
    have names : (s.closed ++ [f.flush]).map AppendFile.filename = _ := map_snoc inv.names rfl
    have contents := map_snoc inv.contents AppendFile.flush_contents
    rw [closed]
    refine ⟨_, stamps ++ [(now, tid)], parts ++ [[]], rfl, ?_, ?_, ?_, ?_, ?_, ?_, ?_⟩
    · rw [List.map_append, names, List.map_append]
      rfl
    · rw [List.pairwise_append]
      refine ⟨inv.increasing, List.pairwise_singleton _ _, fun a member b last => ?_⟩
      rw [List.mem_singleton.mp last]
      exact Int.lt_of_le_of_lt (inv.bounded a member) later
    · intro stamp member
      rcases List.mem_append.mp member with old | new
      · exact inv.positive stamp old
      · rw [List.mem_singleton.mp new]
        exact positive
    · intro stamp member
      rcases List.mem_append.mp member with old | new
      · exact Int.le_of_lt (Int.lt_of_le_of_lt (inv.bounded stamp old) later)
      · rw [List.mem_singleton.mp new]
    · rw [List.map_append, contents, List.map_append]
      rfl
    · rw [List.flatten_append, inv.lines]
      exact List.append_nil _
    · intro g member
      rcases List.mem_append.mp member with old | new
      · exact inv.flushed g old
      · rw [List.mem_singleton.mp new]
        rfl
  · exact ⟨f, stamps, parts, inv⟩

theorem written_kept {answers : Nat → Fwrite} {stamps : List (Int × Nat)} {parts : List (List LogLine)}
    (inv : Inv strftime s f stamps parts) (logline : LogLine) (success : ∀ k, 0 < (answers k).count) :
    Kept strftime { s with file := some (f.append logline answers), lines := s.lines ++ [logline] } := by
  obtain ⟨wrote, name⟩ := AppendFile.append_contents f logline success
  have last : ∃ front part, parts = front ++ [part] ∧ s.closed.map AppendFile.contents = front.map List.flatten ∧
      f.contents = part.flatten := by
    have contents := inv.contents
    rw [List.map_append, List.map_singleton] at contents
    rcases List.eq_nil_or_concat parts with none | ⟨front, part, rfl⟩
    · rw [none] at contents
      simp at contents
    · rw [List.concat_eq_append, List.map_append, List.map_singleton] at contents
      obtain ⟨closed, current⟩ := List.append_inj' contents rfl
      exact ⟨front, part, List.concat_eq_append, closed, (List.cons.inj current).1⟩
  obtain ⟨front, part, split, closed, current⟩ := last
  refine ⟨f.append logline answers, stamps, front ++ [part ++ [logline]], rfl, map_snoc inv.names name, inv.increasing,
    inv.positive, inv.bounded, ?_, ?_, inv.flushed⟩
  · rw [List.map_append, List.map_singleton, closed, wrote, current, List.map_append, List.map_singleton,
      List.flatten_append]
    simp
  · have lines := inv.lines
    rw [split, List.flatten_append] at lines
    rw [List.flatten_append, ← lines]
    simp

theorem append_kept {l : LogFile} {logline : LogLine} {answers : Nat → Fwrite} {now : Int} {tid : Nat}
    (h : Kept strftime s) (positive : 0 < now) (success : ∀ k, 0 < (answers k).count)
    (ran : s.append strftime logline answers now tid = .ok l) : Kept strftime l := by
  obtain ⟨f, stamps, parts, inv⟩ := h
  rw [LogFile.append, inv.file] at ran
  obtain rfl := Except.ok.inj ran
  have written := written_kept inv logline success
  dsimp only
  split
  · exact rollFile_kept written positive
  · exact written

theorem make_kept {basename : List UInt8} {rollSize : Nat} {now : Int} {tid : Nat} (positive : 0 < now) :
    Kept strftime (make strftime basename rollSize now tid) := by
  have first : make strftime basename rollSize now tid =
      { basename, rollSize, lastRoll := now, lastFlush := now, start := now.tdiv kRollPerSeconds * kRollPerSeconds
        file := some { filename := getLogFileName strftime basename now tid } } := by
    simp only [make, rollFile, positive, if_true]
    rfl
  rw [first]
  exact ⟨_, [(now, tid)], [[]], rfl, rfl, List.pairwise_singleton _ _, by simpa using positive, by simp, rfl, rfl, by simp⟩

theorem reachable_kept (h : (logFile strftime).Reachable Working s) : Kept strftime s := by
  refine h.invariant ?_ ?_
  · rintro start ⟨basename, rollSize, now, tid, positive, rfl⟩
    exact make_kept positive
  · intro a label b _ kept allowed step
    cases label with
    | append logline answers now tid =>
      exact append_kept kept allowed.1 allowed.2 (Option.some.inj step)
    | rollFile now tid =>
      obtain rfl := Except.ok.inj (Option.some.inj step)
      exact rollFile_kept kept allowed
    | flush => exact flush_kept kept (Option.some.inj step)

/-- A roll that leaves a file above `rollSize_` was asked for in the second of the last one, or before it. -/
theorem rollFile_above {now : Int} {tid : Nat} (current : (s.rollFile strftime now tid).2.file = some f)
    (above : (s.rollFile strftime now tid).2.rollSize < f.writtenBytes) :
    now ≤ (s.rollFile strftime now tid).2.lastRoll := by
  by_cases later : s.lastRoll < now
  · have rolled : (s.rollFile strftime now tid).2.file =
        some { filename := getLogFileName strftime s.basename now tid } := by
      rw [rollFile, if_pos later]
    obtain rfl := Option.some.inj (rolled.symm.trans current)
    exact absurd above (Nat.not_lt_zero _)
  · rw [rollFile, if_neg later]
    exact Int.not_lt.mp later

theorem append_above {l : LogFile} {logline : LogLine} {answers : Nat → Fwrite} {now : Int} {tid : Nat}
    (ran : s.append strftime logline answers now tid = .ok l) (current : l.file = some f)
    (above : l.rollSize < f.writtenBytes) : now ≤ l.lastRoll := by
  unfold LogFile.append at ran
  split at ran
  · cases ran
  · dsimp only at ran
    split at ran
    · obtain rfl := Except.ok.inj ran
      exact rollFile_above current above
    · rename_i small
      obtain rfl := Except.ok.inj ran
      obtain rfl := Option.some.inj current
      exact absurd above small

/-- Each line is whole in one file, the files hold the lines in order, and have different names; a closed file has
nothing left in its buffer. An append that leaves the file above `rollSize_` was not later than the last roll. -/
theorem rolling_loses_nothing (injective : Set.InjOn strftime {t | 0 < t})
    (h : (logFile strftime).Reachable Working s) :
    ∃ f, s.file = some f ∧
      (∃ parts : List (List LogLine), parts.flatten = s.lines ∧
        (s.closed ++ [f]).map AppendFile.contents = parts.map List.flatten) ∧
      ((s.closed ++ [f]).map AppendFile.contents).flatten = s.lines.flatten ∧
      (∀ g ∈ s.closed, g.disk = g.contents) ∧
      ((s.closed ++ [f]).map AppendFile.filename).Nodup ∧
      (∀ label fault, (logFile strftime).step s label ≠ some (.error fault)) ∧
      ∀ logline answers now tid s' f', (logFile strftime).step s (.append logline answers now tid) = some (.ok s') →
        s'.file = some f' → s'.rollSize < f'.writtenBytes → now ≤ s'.lastRoll := by
  obtain ⟨f, stamps, parts, inv⟩ := reachable_kept h
  refine ⟨f, inv.file, ⟨parts, inv.lines, inv.contents⟩, ?_, fun g member => ?_, ?_, fun label fault step => ?_, ?_⟩
  · rw [inv.contents, ← inv.lines, List.flatten_flatten]
  · rw [AppendFile.contents, inv.flushed g member, List.append_nil]
  · rw [inv.names, List.Nodup, List.pairwise_map]
    refine inv.increasing.imp_of_mem fun {a b} first second less same => ?_
    have time := injective (inv.positive a first) (inv.positive b second) (getLogFileName_inj same)
    exact absurd time (Int.ne_of_lt less)
  · cases label with
    | append logline answers now tid =>
      have ran := Option.some.inj step
      rw [LogFile.append, inv.file] at ran
      cases ran
    | rollFile now tid => cases step
    | flush =>
      have ran := Option.some.inj step
      rw [LogFile.flush, inv.file] at ran
      cases ran
  · intro logline answers now tid s' f' step current above
    exact append_above (Option.some.inj step) current above

/-- Two seconds of 2023, and a text of its own length for every other one. -/
def twoSeconds (t : Int) : List UInt8 :=
  if t = 1700000000 then literal ".20231114-221320."
  else if t = 1700000001 then literal ".20231114-221321."
  else List.replicate (t.toNat + 18) 46

theorem twoSeconds_inj : Set.InjOn twoSeconds {t | 0 < t} := by
  have first : (literal ".20231114-221320.").length = 17 := rfl
  have second : (literal ".20231114-221321.").length = 17 := rfl
  intro a positive b positive' same
  have length := congrArg List.length same
  have low : 0 < a := positive
  have low' : 0 < b := positive'
  unfold twoSeconds at same length
  split_ifs at same length with h₁ h₂ h₃ h₄ h₅ h₆ h₇ h₈
  · rw [h₁, h₂]
  · exact absurd same (by decide)
  · rw [first, List.length_replicate] at length
    omega
  · exact absurd same (by decide)
  · rw [h₄, h₆]
  · rw [second, List.length_replicate] at length
    omega
  · rw [first, List.length_replicate] at length
    omega
  · rw [second, List.length_replicate] at length
    omega
  · rw [List.length_replicate, List.length_replicate] at length
    omega

/-- The first line is too long, and the clock stands still; the second line is too long, and the clock goes on. -/
theorem rolling_loses_nothing_late :
    ∃ s f, (logFile twoSeconds).Reachable Working s ∧ s.file = some f ∧
      (s.lines = [[1, 2, 3], [4]] ∧ s.closed.length = 1) ∧
      ((s.closed ++ [f]).map AppendFile.filename).Nodup := by
  let answers : Nat → Fwrite := fun _ => ⟨2, 0⟩
  let s₀ := make twoSeconds (literal "log") 2 1700000000 7
  have start : (logFile twoSeconds).Reachable Working s₀ := .initial ⟨_, _, _, _, by decide, rfl⟩
  have full : ∀ k, 0 < (answers k).count := fun _ => by decide
  obtain ⟨s₁, first⟩ : ∃ s₁, s₀.append twoSeconds [1, 2, 3] answers 1700000000 7 = .ok s₁ := ⟨_, rfl⟩
  obtain ⟨s₂, second⟩ : ∃ s₂, s₁.append twoSeconds [4] answers 1700000001 8 = .ok s₂ := by
    obtain rfl := Except.ok.inj first
    exact ⟨_, rfl⟩
  have allowed₁ : Working s₀ (.append [1, 2, 3] answers 1700000000 7) := ⟨by decide, full⟩
  have step₁ : (logFile twoSeconds).step s₀ (.append [1, 2, 3] answers 1700000000 7) = some (.ok s₁) :=
    congrArg some first
  have allowed₂ : Working s₁ (.append [4] answers 1700000001 8) := ⟨by decide, full⟩
  have step₂ : (logFile twoSeconds).step s₁ (.append [4] answers 1700000001 8) = some (.ok s₂) :=
    congrArg some second
  have reached := (start.next allowed₁ step₁).next allowed₂ step₂
  have state : s₂.lines = [[1, 2, 3], [4]] ∧ s₂.closed.length = 1 := by
    obtain rfl := Except.ok.inj first
    obtain rfl := Except.ok.inj second
    exact ⟨rfl, rfl⟩
  obtain ⟨f, current, _, _, _, names, _⟩ := rolling_loses_nothing twoSeconds_inj reached
  exact ⟨s₂, f, reached, current, state, names⟩

end Dserver.LogFile
