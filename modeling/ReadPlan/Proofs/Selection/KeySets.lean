import Mathlib.Data.List.Sort
import ReadPlan.KeySet

/-!
# ReadPlan.Proofs.Selection.KeySets — a set is its members

A set lists its members in strictly ascending order, each of them once, and there is one such list
for any members. So two sets with the same members are the same set (`KeySet.ext_mem`), and a set
is made again by adding its members in whatever order they come (`KeySet.foldl_insert_eq`).
-/

namespace ReadPlan.KeySet

variable {s t set : KeySet} {keys : List Bytes}

theorem nodup_toList (set : KeySet) : set.toList.Nodup := by
  refine set.ascending.imp ?_
  rintro first _ hlt rfl
  exact List.lt_irrefl first hlt

/-- A set is determined by its members. -/
theorem ext_mem (h : ∀ k, k ∈ s ↔ k ∈ t) : s = t := by
  obtain ⟨first, hfirst⟩ := s
  obtain ⟨second, hsecond⟩ := t
  obtain rfl : first = second := hfirst.eq_of_mem_iff hsecond h
  rfl

theorem eq_of_toList (h : s.toList = t.toList) : s = t := by
  apply ext_mem
  intro key
  rw [← mem_toList, ← mem_toList, h]

theorem mem_foldl_insert {k : Bytes} : k ∈ keys.foldl insert set ↔ k ∈ keys ∨ k ∈ set := by
  induction keys generalizing set with
  | nil => simp
  | cons key rest ih =>
    rw [List.foldl_cons, ih, mem_insert, List.mem_cons, or_left_comm, or_assoc]

/-- The members of a set make the set, in whatever order they come. -/
theorem foldl_insert_eq (hmem : ∀ k, k ∈ keys ↔ k ∈ set) : keys.foldl insert ∅ = set := by
  refine ext_mem fun k => ?_
  rw [mem_foldl_insert, hmem]
  exact or_iff_left (not_mem_empty k)

end ReadPlan.KeySet
