import Mathlib.Data.List.Basic

/-!
# A work list that is drained in batches

Producers push at the back of `pending`. A consumer takes the whole of `pending` as its `batch` and
then removes the batch's items one at a time, while pushes go on. `ran`, `inserted` and `mark` are
history: the items removed so far, every item ever pushed, and how many had been pushed when the
batch was taken.
-/

namespace Dserver.Lib

structure BatchQueue (α : Type) where
  pending : List α := []
  batch : List α := []
  ran : List α := []
  inserted : List α := []
  mark : Nat := 0
  deriving DecidableEq, Repr

namespace BatchQueue

variable {α : Type} {q : BatchQueue α} {item : α} {rest : List α}

def push (q : BatchQueue α) (item : α) : BatchQueue α :=
  { q with pending := q.pending ++ [item], inserted := q.inserted ++ [item] }

/-- The consumer's empty batch is swapped with `pending`. -/
def swap (q : BatchQueue α) : BatchQueue α :=
  { q with batch := q.pending, pending := [], mark := q.inserted.length }

/-- Removes the head of the batch, whose tail is `rest`. -/
def pop (q : BatchQueue α) (item : α) (rest : List α) : BatchQueue α :=
  { q with batch := rest, ran := q.ran ++ [item] }

/-- Nothing is lost, duplicated or reordered. -/
def Conserved (q : BatchQueue α) : Prop := q.ran ++ q.batch ++ q.pending = q.inserted

/-- The items of the batch were pushed before it was taken. -/
def Bounded (q : BatchQueue α) : Prop :=
  q.ran.length + q.batch.length ≤ q.mark ∧ q.mark ≤ q.inserted.length

theorem push_conserved (h : q.Conserved) : (q.push item).Conserved := by
  simp only [Conserved, push] at h ⊢
  rw [← h]
  simp

theorem swap_conserved (empty : q.batch = []) (h : q.Conserved) : q.swap.Conserved := by
  simp only [Conserved, swap, empty, List.append_nil] at h ⊢
  exact h

theorem pop_conserved (head : q.batch = item :: rest) (h : q.Conserved) :
    (q.pop item rest).Conserved := by
  simp only [Conserved, pop, head] at h ⊢
  rw [← h]
  simp

theorem push_bounded (h : q.Bounded) : (q.push item).Bounded := by
  obtain ⟨below, marked⟩ := h
  refine ⟨below, ?_⟩
  simp only [push, List.length_append, List.length_singleton]
  omega

theorem swap_bounded (empty : q.batch = []) (h : q.Conserved) : q.swap.Bounded := by
  have total := congrArg List.length h
  simp only [empty, List.append_nil, List.length_append] at total
  simp only [Bounded, swap]
  omega

theorem pop_bounded (head : q.batch = item :: rest) (h : q.Bounded) :
    (q.pop item rest).Bounded := by
  simp only [Bounded, pop, head, List.length_cons, List.length_append, List.length_nil] at h ⊢
  omega

/-- The items not yet removed, in the order they will be. -/
def waiting (q : BatchQueue α) : List α := q.batch ++ q.pending

theorem push_waiting : (q.push item).waiting = q.waiting ++ [item] := (List.append_assoc _ _ _).symm

theorem swap_waiting (empty : q.batch = []) : q.swap.waiting = q.waiting := by
  simp only [waiting, swap, empty, List.append_nil, List.nil_append]

theorem pop_waiting (head : q.batch = item :: rest) : q.waiting = item :: (q.pop item rest).waiting := by
  simp only [waiting, pop, head, List.cons_append]

end BatchQueue

/-! ### Jobs that use and free resources -/

section Timely

variable {α R : Type} {uses frees : α → Option R} {held : R → Prop} {job : α} {jobs : List α}

/-- Run in this order, every job finds the resource that it uses. -/
def Timely (uses frees : α → Option R) (held : R → Prop) : List α → Prop
  | [] => True
  | job :: jobs => (∀ r ∈ uses job, held r) ∧ Timely uses frees (fun r => held r ∧ frees job ≠ some r) jobs

theorem Timely.mono {more : R → Prop} (implied : ∀ r, held r → more r) (h : Timely uses frees held jobs) :
    Timely uses frees more jobs := by
  induction jobs generalizing held more with
  | nil => trivial
  | cons job jobs ih =>
    refine ⟨fun r used => implied r (h.1 r used), ih ?_ h.2⟩
    exact fun r kept => ⟨implied r kept.1, kept.2⟩

theorem Timely.tail (h : Timely uses frees held (job :: jobs)) : Timely uses frees held jobs := by
  apply h.2.mono
  exact fun r kept => kept.1

/-- A job may be queued while nothing in the queue frees what it uses. -/
theorem Timely.push (h : Timely uses frees held jobs)
    (used : ∀ r ∈ uses job, held r ∧ ∀ other ∈ jobs, frees other ≠ some r) :
    Timely uses frees held (jobs ++ [job]) := by
  induction jobs generalizing held with
  | nil => exact ⟨fun r member => (used r member).1, trivial⟩
  | cons first jobs ih =>
    refine ⟨h.1, ih h.2 fun r member => ?_⟩
    obtain ⟨present, kept⟩ := used r member
    exact ⟨⟨present, kept first List.mem_cons_self⟩, fun other later => kept other (List.mem_cons_of_mem _ later)⟩

theorem Timely.append {new : List α} (h : Timely uses frees held jobs) (free : ∀ job ∈ new, uses job = none) :
    Timely uses frees held (jobs ++ new) := by
  induction new generalizing jobs with
  | nil => rwa [List.append_nil]
  | cons job new ih =>
    rw [List.append_cons]
    apply ih
    · apply h.push
      rw [free job List.mem_cons_self]
      rintro r ⟨⟩
    · exact fun other member => free other (List.mem_cons_of_mem _ member)

end Timely

end Dserver.Lib
