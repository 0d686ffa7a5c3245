import Mathlib.Data.List.Nodup
import Mathlib.Data.List.Basic

/-!
# A queue that is served in turn

In one turn the first `n` of the queue are served and go to its end. What stays in the queue comes forward by `n`
in every turn in which it is not served.
-/

namespace Dserver.Lib

variable {α : Type} {queue : List α} {n : Nat} {c : α}

def turn (n : Nat) (queue : List α) : List α := queue.drop n ++ queue.take n

theorem turn_perm (n : Nat) (queue : List α) : (turn n queue).Perm queue := by
  have swapped : (queue.drop n ++ queue.take n).Perm (queue.take n ++ queue.drop n) := List.perm_append_comm
  rw [List.take_append_drop] at swapped
  exact swapped

theorem mem_turn : c ∈ turn n queue ↔ c ∈ queue := (turn_perm n queue).mem_iff

theorem turn_nodup (h : queue.Nodup) : (turn n queue).Nodup := (turn_perm n queue).nodup_iff.mpr h

/-- The queue is longer than what a turn serves when somebody is left out. -/
theorem length_of_late (member : c ∈ queue) (late : c ∉ queue.take n) : n < queue.length := by
  by_contra short
  rw [List.take_of_length_le (by omega)] at late
  exact late member

variable [DecidableEq α]

theorem idxOf_turn (member : c ∈ queue) (late : c ∉ queue.take n) : (turn n queue).idxOf c + n = queue.idxOf c := by
  have rest : c ∈ queue.drop n := by
    have either : c ∈ queue.take n ++ queue.drop n := by rwa [List.take_append_drop]
    exact (List.mem_append.mp either).resolve_left late
  have before : queue.idxOf c = (queue.take n).length + (queue.drop n).idxOf c := by
    conv_lhs => rw [← List.take_append_drop n queue]
    exact List.idxOf_append_of_notMem late
  have length := length_of_late member late
  rw [turn, List.idxOf_append_of_mem rest, before, List.length_take]
  omega

theorem idxOf_filter_le {keep : α → Bool} (kept : keep c = true) : (queue.filter keep).idxOf c ≤ queue.idxOf c := by
  induction queue with
  | nil => exact Nat.le_refl _
  | cons first rest ih =>
    by_cases same : first = c
    · subst same
      rw [List.filter_cons_of_pos kept, List.idxOf_cons_self]
      exact Nat.zero_le _
    · rw [List.idxOf_cons_ne _ same, List.filter_cons]
      split
      · rw [List.idxOf_cons_ne _ same]
        omega
      · omega

end Dserver.Lib
