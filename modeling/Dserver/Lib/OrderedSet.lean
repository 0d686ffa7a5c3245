import Mathlib.Data.Finset.Sort
import Mathlib.Data.List.Sort

/-!
# Finite sets walked in order

The elements of a finite set from the least to the greatest, by a sort that evaluates.
-/

namespace Dserver.Lib

variable {α : Type} [LinearOrder α]

theorem insertionSort_congr {l l' : List α} (perm : l.Perm l') :
    l.insertionSort (· ≤ ·) = l'.insertionSort (· ≤ ·) :=
  List.Perm.eq_of_pairwise'
    (List.pairwise_insertionSort _ l) (List.pairwise_insertionSort _ l')
    ((List.perm_insertionSort _ l).trans (perm.trans (List.perm_insertionSort _ l').symm))

def inOrder (s : Finset α) : List α :=
  Quot.liftOn s.val (List.insertionSort (· ≤ ·)) fun _ _ perm => insertionSort_congr perm

theorem coe_inOrder (s : Finset α) : (inOrder s : Multiset α) = s.val := by
  obtain ⟨elements, nodup⟩ := s
  induction elements using Quot.inductionOn with
  | h l => exact Multiset.coe_eq_coe.mpr (List.perm_insertionSort _ l)

theorem mem_inOrder {s : Finset α} {a : α} : a ∈ inOrder s ↔ a ∈ s := by
  rw [← Multiset.mem_coe, coe_inOrder]
  rfl

theorem inOrder_nodup (s : Finset α) : (inOrder s).Nodup := by
  rw [← Multiset.coe_nodup, coe_inOrder]
  exact s.nodup

theorem inOrder_pairwise (s : Finset α) : (inOrder s).Pairwise (· ≤ ·) := by
  obtain ⟨elements, nodup⟩ := s
  induction elements using Quot.inductionOn with
  | h l => exact List.pairwise_insertionSort _ l

end Dserver.Lib
