import ReadPlan.Proofs.Selection.Listings
import ReadPlan.Proofs.Selection.Rebuild

/-!
# ReadPlan.Proofs.Selection.RebuiltListings — how the copy of a selection is listed

A copy has a whole family in place of each family without columns. A whole family counts as one column
and a family without columns as none, so the total of the copy is greater by the number of these
families (`Selection.totalColumns_rebuild`), while the families are the same, in the same order
(`Selection.families_rebuild`). A copy has no family without columns left, so a copy of it is the copy
again (`Selection.rebuild_rebuild`).
-/

namespace ReadPlan

namespace Columns

/-- Only the empty set is counted differently in a copy. -/
theorem count_rebuilt (columns : Columns KeySet) :
    columns.rebuilt.count = columns.count + if columns = .only ∅ then 1 else 0 := by
  cases columns with
  | all => rfl
  | only set =>
    by_cases hset : set = ∅
    · subst hset
      rfl
    · have hne : Columns.only set ≠ .only ∅ := fun h => hset (Columns.only.inj h)
      rw [rebuilt_of_ne_empty hset, if_neg hne, Nat.add_zero]

end Columns

namespace Selection

/-- The families of which no column is selected, in the order of the map. -/
def withoutColumns (selection : Selection) : List Bytes :=
  (selection.entries.filter fun entry => entry.2 = .only ∅).map Prod.fst

theorem mem_withoutColumns {selection : Selection} {family : Bytes} :
    family ∈ selection.withoutColumns ↔ selection.get? family = some (.only ∅) := by
  rw [withoutColumns, List.mem_map]
  constructor
  · intro h
    obtain ⟨entry, hentry, hfamily⟩ := h
    obtain ⟨hmem, hcolumns⟩ := List.mem_filter.1 hentry
    apply OrderedMap.get?_of_mem
    rw [← hfamily, ← of_decide_eq_true hcolumns]
    exact hmem
  · intro h
    refine ⟨(family, .only ∅), ?_, rfl⟩
    exact List.mem_filter.2 ⟨OrderedMap.mem_of_get? h, decide_eq_true rfl⟩

theorem withoutColumns_eq_nil_iff {selection : Selection} :
    selection.withoutColumns = [] ↔ ∀ family, selection.get? family ≠ some (.only ∅) := by
  rw [List.eq_nil_iff_forall_not_mem]
  simp only [mem_withoutColumns, ne_eq]

/-! ## The copy -/

/-- Entry by entry the copy counts one more where there is an empty set. -/
theorem foldr_count_rebuilt (entries : List (Bytes × Columns KeySet)) :
    (entries.map fun entry => (entry.1, entry.2.rebuilt)).foldr
        (fun entry total => entry.2.count + total) 0 =
      entries.foldr (fun entry total => entry.2.count + total) 0 +
        ((entries.filter fun entry => entry.2 = .only ∅).map Prod.fst).length := by
  induction entries with
  | nil => rfl
  | cons entry rest ih =>
    rw [List.map_cons, List.foldr_cons, List.foldr_cons, ih, Columns.count_rebuilt, List.filter_cons]
    by_cases hempty : entry.2 = .only ∅
    · simp only [hempty, decide_true, if_true, List.map_cons, List.length_cons]
      omega
    · simp only [hempty, decide_false, if_false, Bool.false_eq_true]
      omega

/-- Every family without columns counts for one more in the copy. -/
theorem totalColumns_rebuild (selection : Selection) :
    selection.rebuild.totalColumns = selection.totalColumns + selection.withoutColumns.length := by
  rw [rebuild_eq]
  exact foldr_count_rebuilt selection.entries

theorem families_rebuild (selection : Selection) : selection.rebuild.families = selection.families := by
  rw [families, families, rebuild_eq, OrderedMap.keys_mapValues]

/-- The copy is the selection itself if no family is without columns. -/
theorem rebuild_eq_self {selection : Selection}
    (h : ∀ family, selection.get? family ≠ some (.only ∅)) : selection.rebuild = selection :=
  ((tracks_rebuild selection).eq h).symm

/-- A copy has no family without columns, so a copy of it is the same once more. -/
theorem rebuild_rebuild (selection : Selection) : selection.rebuild.rebuild = selection.rebuild := by
  apply rebuild_eq_self
  intro family hempty
  rw [rebuild_eq, OrderedMap.get?_mapValues] at hempty
  obtain ⟨columns, -, hcolumns⟩ := Option.map_eq_some_iff.1 hempty
  exact (Columns.rebuilt_eq_only_iff.1 hcolumns).2 rfl

end Selection

end ReadPlan
