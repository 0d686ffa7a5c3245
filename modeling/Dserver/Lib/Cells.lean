import Mathlib.Data.List.Basic

/-!
# Writing to an array

A write to a cell that does not exist is a fault. What consecutive writes leave is `splice`.
-/

namespace Dserver.Lib

variable {ε α : Type} {fault : ε}

def put (fault : ε) (cells : List α) (p : Nat) (a : α) : Except ε (List α) :=
  if p < cells.length then .ok (cells.set p a) else .error fault

def putAll (fault : ε) : List α → Nat → List α → Except ε (List α)
  | cells, _, [] => .ok cells
  | cells, p, a :: rest => do
    let cells ← put fault cells p a
    putAll fault cells (p + 1) rest

/-- The cells from `p` on hold `as`. -/
def splice (cells : List α) (p : Nat) (as : List α) : List α := cells.take p ++ as ++ cells.drop (p + as.length)

/-- `std::reverse` of the cells `first ≤ i < last`. -/
def reverseCells (cells : List α) (first last : Nat) : List α :=
  cells.take first ++ ((cells.drop first).take (last - first)).reverse ++ cells.drop last

theorem splice_nil (cells : List α) (p : Nat) : splice cells p [] = cells := by
  simp [splice]

theorem length_splice {cells as : List α} {p : Nat} (fits : p + as.length ≤ cells.length) :
    (splice cells p as).length = cells.length := by
  simp only [splice, List.length_append, List.length_take, List.length_drop]
  omega

theorem take_splice {cells as : List α} {p : Nat} (inside : p ≤ cells.length) :
    (splice cells p as).take (p + as.length) = cells.take p ++ as := by
  have front : (cells.take p ++ as).length = p + as.length := by
    rw [List.length_append, List.length_take_of_le inside]
  rw [splice, ← front, List.take_left]

theorem drop_splice {cells as : List α} {p : Nat} (inside : p ≤ cells.length) :
    (splice cells p as).drop (p + as.length) = cells.drop (p + as.length) := by
  have front : (cells.take p ++ as).length = p + as.length := by
    rw [List.length_append, List.length_take_of_le inside]
  rw [splice, List.drop_append_of_le_length (Nat.le_of_eq front.symm), List.drop_of_length_le (Nat.le_of_eq front),
    List.nil_append]

theorem splice_splice {cells as bs : List α} {p : Nat} (inside : p ≤ cells.length) :
    splice (splice cells p as) (p + as.length) bs = splice cells p (as ++ bs) := by
  have behind : (splice cells p as).drop (p + as.length + bs.length) = cells.drop (p + as.length + bs.length) := by
    rw [← List.drop_drop, drop_splice inside, List.drop_drop]
  rw [splice, take_splice inside, behind, splice, List.length_append, List.append_assoc (cells.take p), Nat.add_assoc]

theorem set_eq_splice {cells : List α} {p : Nat} (a : α) (inside : p < cells.length) :
    cells.set p a = splice cells p [a] := by
  rw [List.set_eq_take_append_cons_drop, if_pos inside, splice]
  simp

theorem put_eq {cells : List α} {p : Nat} {a : α} (inside : p < cells.length) :
    put fault cells p a = .ok (splice cells p [a]) := by
  rw [put, if_pos inside, set_eq_splice a inside]

theorem putAll_eq {cells as : List α} {p : Nat} (fits : p + as.length ≤ cells.length) :
    putAll fault cells p as = .ok (splice cells p as) := by
  induction as generalizing cells p with
  | nil => rw [putAll, splice_nil]
  | cons a rest ih =>
    rw [List.length_cons] at fits
    have inside : p < cells.length := by omega
    have length : (splice cells p [a]).length = cells.length := length_splice (by simp; omega)
    rw [putAll, put_eq inside]
    calc putAll fault (splice cells p [a]) (p + 1) rest
        = .ok (splice (splice cells p [a]) (p + 1) rest) := ih (by omega)
      _ = .ok (splice cells p (a :: rest)) := congrArg Except.ok (splice_splice (Nat.le_of_lt inside))

theorem putAll_error {cells as : List α} {p : Nat} (inside : p ≤ cells.length) (exceeds : cells.length < p + as.length) :
    putAll fault cells p as = .error fault := by
  induction as generalizing cells p with
  | nil => exact absurd exceeds (by simpa using inside)
  | cons a rest ih =>
    rw [List.length_cons] at exceeds
    rw [putAll, put]
    split
    · rename_i less
      exact ih (by rw [List.length_set]; omega) (by rw [List.length_set]; omega)
    · rfl

theorem reverseCells_splice {cells as bs : List α} {p : Nat} (inside : p ≤ cells.length) :
    reverseCells (splice cells p (as ++ bs)) p (p + as.length) = splice cells p (as.reverse ++ bs) := by
  have front : (cells.take p).length = p := List.length_take_of_le inside
  have whole : splice cells p (as ++ bs) = cells.take p ++ (as ++ (bs ++ cells.drop (p + (as ++ bs).length))) := by
    simp only [splice, List.append_assoc]
  have first : (splice cells p (as ++ bs)).drop p = as ++ (bs ++ cells.drop (p + (as ++ bs).length)) := by
    rw [whole, List.drop_append_of_le_length (Nat.le_of_eq front.symm), List.drop_of_length_le (Nat.le_of_eq front),
      List.nil_append]
  have last : (splice cells p (as ++ bs)).drop (p + as.length) = bs ++ cells.drop (p + (as ++ bs).length) := by
    rw [← List.drop_drop, first, List.drop_left]
  have start : (splice cells p (as ++ bs)).take p = cells.take p := by
    rw [whole, List.take_append_of_le_length (Nat.le_of_eq front.symm), List.take_of_length_le (Nat.le_of_eq front)]
  rw [reverseCells, start, first, last, Nat.add_sub_cancel_left, List.take_left, splice]
  simp only [List.length_append, List.length_reverse, List.append_assoc]

end Dserver.Lib
