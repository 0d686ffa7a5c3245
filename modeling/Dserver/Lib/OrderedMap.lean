import Mathlib.Data.List.Basic

/-!
# Maps kept in the order of their keys

A list of entries whose keys increase. Setting a key replaces its entry or puts a new one in its place
in the order, so the entries are enumerated by key whatever order they were set in.
-/

namespace Dserver.Lib

structure OrderedMap (κ ν : Type) [LT κ] where
  entries : List (κ × ν)
  sorted : entries.Pairwise (fun a b => a.1 < b.1)

namespace OrderedMap

variable {κ ν : Type} [LT κ] [DecidableLT κ] [DecidableEq κ]

def empty {κ ν : Type} [LT κ] : OrderedMap κ ν := ⟨[], .nil⟩

def put (key : κ) (value : ν) : List (κ × ν) → List (κ × ν)
  | [] => [(key, value)]
  | (other, old) :: rest =>
    if other = key then (key, value) :: rest
    else if key < other then (key, value) :: (other, old) :: rest
    else (other, old) :: put key value rest

theorem mem_put {key : κ} {value : ν} {entries : List (κ × ν)} {e : κ × ν}
    (h : e ∈ put key value entries) : e = (key, value) ∨ e ∈ entries := by
  induction entries with
  | nil => simpa [put] using h
  | cons head rest ih =>
    obtain ⟨other, old⟩ := head
    unfold put at h
    split at h
    · rcases List.mem_cons.mp h with new | kept
      · exact .inl new
      · exact .inr (List.mem_cons_of_mem _ kept)
    · split at h
      · rcases List.mem_cons.mp h with new | kept
        · exact .inl new
        · exact .inr kept
      · rcases List.mem_cons.mp h with same | behind
        · exact .inr (same ▸ List.mem_cons_self)
        · rcases ih behind with new | kept
          · exact .inl new
          · exact .inr (List.mem_cons_of_mem _ kept)

variable [Trans (α := κ) (· < ·) (· < ·) (· < ·)] [Std.Trichotomous (α := κ) (· < ·)]

theorem put_sorted {key : κ} {value : ν} {entries : List (κ × ν)}
    (h : entries.Pairwise (fun a b => a.1 < b.1)) :
    (put key value entries).Pairwise (fun a b => a.1 < b.1) := by
  induction entries with
  | nil => simp [put]
  | cons head rest ih =>
    obtain ⟨other, old⟩ := head
    obtain ⟨below, tail⟩ := List.pairwise_cons.mp h
    unfold put
    split
    · rename_i same
      exact List.pairwise_cons.mpr ⟨fun e member => same ▸ below e member, tail⟩
    · rename_i different
      split
      · rename_i before
        refine List.pairwise_cons.mpr ⟨fun e member => ?_, h⟩
        rcases List.mem_cons.mp member with rfl | behind
        · exact before
        · exact Std.lt_trans before (below e behind)
      · rename_i notBefore
        refine List.pairwise_cons.mpr ⟨fun e member => ?_, ih tail⟩
        rcases mem_put member with rfl | kept
        · exact (Std.lt_trichotomy other key).resolve_right fun rest =>
            rest.elim different notBefore
        · exact below e kept

/-- `map[key] = value`. -/
def set (m : OrderedMap κ ν) (key : κ) (value : ν) : OrderedMap κ ν :=
  ⟨put key value m.entries, put_sorted m.sorted⟩

def find (m : OrderedMap κ ν) (key : κ) : Option ν := m.entries.lookup key

omit [LT κ] [DecidableLT κ] [Trans (α := κ) (· < ·) (· < ·) (· < ·)]
  [Std.Trichotomous (α := κ) (· < ·)] in
theorem lookup_cons_eq (key other : κ) (value : ν) (rest : List (κ × ν)) :
    ((other, value) :: rest).lookup key = if key = other then some value else rest.lookup key := by
  by_cases same : key = other
  · simp [same]
  · have differs : (key == other) = false := by simpa using same
    rw [List.lookup_cons, differs, if_neg same]

theorem find_set (m : OrderedMap κ ν) (key : κ) (value : ν) (k : κ) :
    (m.set key value).find k = if k = key then some value else m.find k := by
  obtain ⟨entries, sorted⟩ := m
  simp only [set, find]
  clear sorted
  induction entries with
  | nil => rw [put, lookup_cons_eq]
  | cons head rest ih =>
    obtain ⟨other, old⟩ := head
    unfold put
    split
    · rename_i same
      subst same
      rw [lookup_cons_eq, lookup_cons_eq]
      split <;> rfl
    · rename_i different
      split
      · rw [lookup_cons_eq]
      · rw [lookup_cons_eq, lookup_cons_eq, ih]
        by_cases first : k = other
        · rw [if_pos first, if_pos first, if_neg (first ▸ different)]
        · rw [if_neg first, if_neg first]

end OrderedMap

end Dserver.Lib
