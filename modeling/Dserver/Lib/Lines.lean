import Mathlib.Data.List.Basic

/-!
# Lines ended by CRLF

The first line of a byte string is what stands before the first CR that is followed by LF. A line is
a byte string in which there is no such place, whatever CR or LF alone it has.
-/

namespace Dserver.Lib

def crlf : List UInt8 := [13, 10]

/-- The first line, and what follows its CRLF. -/
def takeLine : List UInt8 → Option (List UInt8 × List UInt8)
  | b :: c :: rest =>
    if b = 13 ∧ c = 10 then some ([], rest)
    else (takeLine (c :: rest)).map fun found => (b :: found.1, found.2)
  | _ => none

/-- There is no CRLF inside. -/
def IsLine (bytes : List UInt8) : Prop := takeLine bytes = none

variable {bytes line rest : List UInt8}

theorem takeLine_cons_cons {b c : UInt8} (other : ¬ (b = 13 ∧ c = 10)) :
    takeLine (b :: c :: rest) = (takeLine (c :: rest)).map fun found => (b :: found.1, found.2) := by
  rw [takeLine, if_neg other]

theorem takeLine_eq (h : takeLine bytes = some (line, rest)) : bytes = line ++ crlf ++ rest := by
  induction bytes generalizing line with
  | nil => cases h
  | cons b tail ih =>
    cases tail with
    | nil => cases h
    | cons c tail =>
      by_cases found : b = 13 ∧ c = 10
      · rw [takeLine, if_pos found] at h
        obtain ⟨rfl, rfl⟩ := Prod.mk.inj (Option.some.inj h)
        obtain ⟨rfl, rfl⟩ := found
        rfl
      · rw [takeLine_cons_cons found] at h
        obtain ⟨⟨line', rest'⟩, below, eq⟩ := Option.map_eq_some_iff.mp h
        obtain ⟨rfl, rfl⟩ := Prod.mk.inj eq
        rw [ih below]
        rfl

theorem takeLine_length (h : takeLine bytes = some (line, rest)) :
    bytes.length = line.length + 2 + rest.length := by
  rw [takeLine_eq h]
  simp only [crlf, List.length_append, List.length_cons, List.length_nil]

theorem takeLine_append (more : List UInt8) (h : takeLine bytes = some (line, rest)) :
    takeLine (bytes ++ more) = some (line, rest ++ more) := by
  induction bytes generalizing line with
  | nil => cases h
  | cons b tail ih =>
    cases tail with
    | nil => cases h
    | cons c tail =>
      by_cases found : b = 13 ∧ c = 10
      · rw [takeLine, if_pos found] at h
        obtain ⟨rfl, rfl⟩ := Prod.mk.inj (Option.some.inj h)
        simp only [List.cons_append]
        rw [takeLine, if_pos found]
      · rw [takeLine_cons_cons found] at h
        obtain ⟨⟨line', rest'⟩, below, eq⟩ := Option.map_eq_some_iff.mp h
        obtain ⟨rfl, rfl⟩ := Prod.mk.inj eq
        simp only [List.cons_append] at ih ⊢
        rw [takeLine_cons_cons found, ih below]
        rfl

theorem IsLine.takeLine (h : IsLine line) (rest : List UInt8) :
    takeLine (line ++ crlf ++ rest) = some (line, rest) := by
  induction line with
  | nil => rfl
  | cons b tail ih =>
    cases tail with
    | nil => simp [crlf, Lib.takeLine]
    | cons c tail =>
      unfold IsLine at h ih
      by_cases found : b = 13 ∧ c = 10
      · rw [Lib.takeLine, if_pos found] at h
        cases h
      · rw [takeLine_cons_cons found, Option.map_eq_none_iff] at h
        simp only [List.cons_append] at ih ⊢
        rw [takeLine_cons_cons found, ih h]
        rfl

theorem takeLine_isLine (h : takeLine bytes = some (line, rest)) : IsLine line := by
  cases inside : takeLine line with
  | none => exact inside
  | some found =>
    -- the CRLF inside would have been found first
    obtain ⟨first, behind⟩ := found
    have earlier := takeLine_append (crlf ++ rest) inside
    rw [← List.append_assoc, ← takeLine_eq h, h] at earlier
    obtain ⟨rfl, -⟩ := Prod.mk.inj (Option.some.inj earlier)
    have length := takeLine_length inside
    omega

theorem isLine_of_not_mem (h : 13 ∉ line) : IsLine line := by
  cases inside : takeLine line with
  | none => exact inside
  | some found =>
    rw [takeLine_eq inside] at h
    exact absurd (by simp [crlf]) h

theorem takeLine_crlf {front back : List UInt8} (h : takeLine (front ++ crlf ++ back) = some (line, rest)) :
    (front = line ∧ back = rest) ∨
    ∃ middle, front = line ++ crlf ++ middle ∧ rest = middle ++ crlf ++ back := by
  cases inside : takeLine front with
  | none =>
    have first : IsLine front := inside
    rw [first.takeLine] at h
    obtain ⟨rfl, rfl⟩ := Prod.mk.inj (Option.some.inj h)
    exact .inl ⟨rfl, rfl⟩
  | some found =>
    obtain ⟨first, middle⟩ := found
    have longer := takeLine_append (crlf ++ back) inside
    rw [← List.append_assoc, h] at longer
    obtain ⟨rfl, rfl⟩ := Prod.mk.inj (Option.some.inj longer)
    exact .inr ⟨middle, takeLine_eq inside, by rw [List.append_assoc]⟩

theorem IsLine.not_crlf (h : IsLine line) : ¬ crlf <:+: line := by
  rintro ⟨front, back, rfl⟩
  cases inside : Lib.takeLine front with
  | none =>
    have first : IsLine front := inside
    rw [IsLine, first.takeLine] at h
    cases h
  | some found =>
    rw [IsLine, List.append_assoc, takeLine_append _ inside] at h
    cases h

/-! ### Up to the first empty line -/

def joinLines (lines : List (List UInt8)) : List UInt8 := (lines.map (· ++ crlf)).flatten

/-- Lines that are not empty, an empty line, and what follows it. -/
structure Head (bytes : List UInt8) (lines : List (List UInt8)) (after : List UInt8) : Prop where
  eq : bytes = joinLines lines ++ crlf ++ after
  lines : ∀ line ∈ lines, line ≠ [] ∧ IsLine line

theorem Head.takeLine_nil {after : List UInt8} (h : Head bytes [] after) : takeLine bytes = some ([], after) := by
  rw [h.eq]
  rfl

theorem Head.takeLine_cons {lines : List (List UInt8)} {after : List UInt8} (h : Head bytes (line :: lines) after) :
    ∃ tail, takeLine bytes = some (line, tail) ∧ line ≠ [] ∧ Head tail lines after := by
  obtain ⟨nonempty, first⟩ := h.lines line List.mem_cons_self
  refine ⟨joinLines lines ++ crlf ++ after, ?_, nonempty, rfl,
    fun other member => h.lines other (List.mem_cons_of_mem _ member)⟩
  rw [h.eq, ← first.takeLine]
  simp [joinLines]

theorem Head.unique {lines lines' : List (List UInt8)} {after after' : List UInt8} (h : Head bytes lines after)
    (h' : Head bytes lines' after') : lines = lines' ∧ after = after' := by
  induction lines generalizing bytes lines' with
  | nil =>
    have first := h.takeLine_nil
    cases lines' with
    | nil =>
      obtain ⟨-, same⟩ := Prod.mk.inj (Option.some.inj (first.symm.trans h'.takeLine_nil))
      exact ⟨rfl, same⟩
    | cons line' rest' =>
      obtain ⟨tail, first', nonempty, -⟩ := h'.takeLine_cons
      obtain ⟨empty, -⟩ := Prod.mk.inj (Option.some.inj (first.symm.trans first'))
      exact absurd empty.symm nonempty
  | cons line rest ih =>
    obtain ⟨tail, first, nonempty, below⟩ := h.takeLine_cons
    cases lines' with
    | nil =>
      obtain ⟨empty, -⟩ := Prod.mk.inj (Option.some.inj (first.symm.trans h'.takeLine_nil))
      exact absurd empty nonempty
    | cons line' rest' =>
      obtain ⟨tail', first', -, below'⟩ := h'.takeLine_cons
      obtain ⟨rfl, rfl⟩ := Prod.mk.inj (Option.some.inj (first.symm.trans first'))
      obtain ⟨rfl, same⟩ := ih below below'
      exact ⟨rfl, same⟩

end Dserver.Lib
