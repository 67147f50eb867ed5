import Mathlib.Data.List.Forall2
import Mathlib.Data.List.Nodup
import ReadPlan.Proofs.Selection.KeySets
import ReadPlan.Selection.Listing

/-!
# ReadPlan.Proofs.Selection.Listings — what a listing keeps of a selection

A listing names every family once, in the order of the families themselves, and shows the first
columns of the full listing, counted over all families together (`Selection.IsCut`). Raising the
number of columns only adds columns at the end of a family (`Selection.listing_isPrefix`). The total
counts all columns, whatever is listed of them (`Selection.totalColumns_eq_length`).
-/

namespace ReadPlan

/-! ## Cuts -/

section Cuts

variable {α β γ : Type}

theorem map_fst_cut (budget : Nat) (listing : List (α × List β)) :
    (cut budget listing).map Prod.fst = listing.map Prod.fst := by
  induction listing generalizing budget with
  | nil => rfl
  | cons entry rest ih =>
    obtain ⟨family, columns⟩ := entry
    rw [cut, List.map_cons, List.map_cons, ih]

/-- A cut keeps the first columns of all, each in the place that it had. -/
theorem flatMap_cut (place : α → β → γ) (budget : Nat) (listing : List (α × List β)) :
    ((cut budget listing).flatMap fun entry => entry.2.map (place entry.1)) =
      (listing.flatMap fun entry => entry.2.map (place entry.1)).take budget := by
  induction listing generalizing budget with
  | nil => simp [cut]
  | cons entry rest ih =>
    obtain ⟨family, columns⟩ := entry
    rw [cut, List.flatMap_cons, List.flatMap_cons, ih, List.take_append, List.map_take,
      List.length_map]

/-- A greater budget keeps at least as much of every family. -/
theorem cut_isPrefix {budget more : Nat} (h : budget ≤ more) (listing : List (α × List β)) :
    List.Forall₂ (fun short long => short.1 = long.1 ∧ short.2 <+: long.2)
      (cut budget listing) (cut more listing) := by
  induction listing generalizing budget more with
  | nil => exact .nil
  | cons entry rest ih =>
    obtain ⟨family, columns⟩ := entry
    exact .cons ⟨rfl, List.take_prefix_take_left h⟩ (ih (Nat.sub_le_sub_right h _))

end Cuts

namespace Columns

theorem length_texts (columns : Columns KeySet) : columns.texts.length = columns.count := by
  cases columns with
  | all => rfl
  | only set => exact List.length_map _

end Columns

namespace Selection

/-! ## The families of a listing -/

theorem mem_families {selection : Selection} {family : Bytes} :
    family ∈ selection.families.toList ↔ family ∈ selection.keys :=
  KeySet.mem_ofList

/-- The families are read off the keys, whatever their order. -/
theorem families_eq_of_keys {s t : Selection} (h : ∀ family, family ∈ s.keys ↔ family ∈ t.keys) :
    s.families = t.families := by
  apply KeySet.ext_mem
  intro family
  rw [← KeySet.mem_toList, ← KeySet.mem_toList, mem_families, mem_families]
  exact h family

/-- The families in ascending order are the families of the map. -/
theorem families_perm (selection : Selection) :
    selection.families.toList.Perm selection.keys :=
  (List.perm_ext_iff_of_nodup selection.families.nodup_toList selection.distinct).2
    fun _ => mem_families

theorem map_fst_fullListing (selection : Selection) :
    selection.fullListing.map Prod.fst = selection.families.toList := by
  rw [fullListing, List.map_map]
  exact List.map_id _

/-- A listing names every family, however few columns it may list. -/
theorem map_fst_listing (selection : Selection) (maxColumns : Int) :
    (selection.listing maxColumns).map Prod.fst =
      selection.families.toList.map Escaped.text := by
  rw [← map_fst_fullListing, ← map_fst_cut maxColumns.toNat selection.fullListing, listing,
    List.map_map, List.map_map]
  rfl

/-- No two families are listed under one name. -/
theorem nodup_map_fst_listing (selection : Selection) (maxColumns : Int) :
    ((selection.listing maxColumns).map Prod.fst).Nodup := by
  rw [map_fst_listing]
  refine List.pairwise_map.2 (selection.families.ascending.imp ?_)
  intro first second hlt heq
  rw [Escaped.text_injective heq] at hlt
  exact List.lt_irrefl second hlt

/-! ## The columns of a listing -/

/-- The total counts the columns of the full listing. -/
theorem totalColumns_eq_length (selection : Selection) :
    selection.totalColumns = (selection.fullListing.flatMap Prod.snd).length := by
  -- the columns of an entry are those under its family
  have hentry : ∀ entry ∈ selection.entries,
      (((selection.get? entry.1).map Columns.texts).getD []).length = entry.2.count := by
    intro entry hentry
    rw [OrderedMap.get?_of_mem hentry, Option.map_some, Option.getD_some, Columns.length_texts]
  have hsum : ∀ entries : List (Bytes × Columns KeySet),
      entries.foldr (fun entry total => entry.2.count + total) 0 =
        (entries.map fun entry => entry.2.count).sum := by
    intro entries
    induction entries with
    | nil => rfl
    | cons entry rest ih => rw [List.foldr_cons, ih, List.map_cons, List.sum_cons]
  rw [totalColumns, hsum, List.length_flatMap, fullListing, List.map_map,
    (selection.families_perm.map _).sum_nat, OrderedMap.keys, List.map_map]
  exact congrArg List.sum (List.map_congr_left fun entry hmem => (hentry entry hmem).symm)

/-- Every family with all its columns, families and columns in ascending order. -/
structure Lists (selection : Selection) (full : List (Bytes × List String)) : Prop where
  ascending : (full.map Prod.fst).Pairwise (· < ·)
  families : ∀ family, family ∈ full.map Prod.fst ↔ family ∈ selection.keys
  whole : ∀ family columns, (family, columns) ∈ full → selection.get? family = some .all →
    columns = [allColumns]
  only : ∀ family columns set, (family, columns) ∈ full →
    selection.get? family = some (.only set) →
      ∃ qualifiers : List Bytes, qualifiers.Pairwise (· < ·) ∧
        (∀ qualifier, qualifier ∈ qualifiers ↔ qualifier ∈ set) ∧
        columns = qualifiers.map Escaped.text

theorem lists_fullListing (selection : Selection) : selection.Lists selection.fullListing := by
  have hcolumns : ∀ family columns, (family, columns) ∈ selection.fullListing →
      columns = ((selection.get? family).map Columns.texts).getD [] := by
    intro family columns hmem
    rcases List.mem_map.1 hmem with ⟨found, -, heq⟩
    cases heq
    rfl
  refine ⟨?_, ?_, ?_, ?_⟩
  · rw [map_fst_fullListing]
    exact selection.families.ascending
  · intro family
    rw [map_fst_fullListing]
    exact mem_families
  · intro family columns hmem hget
    rw [hcolumns family columns hmem, hget]
    rfl
  · intro family columns set hmem hget
    refine ⟨set.toList, set.ascending, fun _ => Iff.rfl, ?_⟩
    rw [hcolumns family columns hmem, hget]
    rfl

/-- What is listed of a full listing for a number of columns: every family under a name of its own,
and the first columns of all, each under the name of its family. -/
structure IsCut (full : List (Bytes × List String)) (maxColumns : Int)
    (listed : List (String × List String)) : Prop where
  names : listed.map Prod.fst = full.map fun entry => Escaped.text entry.1
  distinct : (listed.map Prod.fst).Nodup
  columns : listed.flatMap Prod.snd = (full.flatMap Prod.snd).take maxColumns.toNat
  placed : (listed.flatMap fun entry => entry.2.map (Prod.mk entry.1)) =
    (full.flatMap fun entry => entry.2.map (Prod.mk (Escaped.text entry.1))).take maxColumns.toNat
  count : (listed.flatMap Prod.snd).length =
    min maxColumns.toNat (full.flatMap Prod.snd).length

theorem isCut_listing (selection : Selection) (maxColumns : Int) :
    IsCut selection.fullListing maxColumns (selection.listing maxColumns) := by
  have hcolumns : (selection.listing maxColumns).flatMap Prod.snd =
      (selection.fullListing.flatMap Prod.snd).take maxColumns.toNat := by
    have hcut := flatMap_cut (fun _ column => column) maxColumns.toNat selection.fullListing
    simp only [List.map_id'] at hcut
    rw [← hcut, listing, List.flatMap_map]
  refine ⟨?_, selection.nodup_map_fst_listing maxColumns, hcolumns, ?_, ?_⟩
  · rw [map_fst_listing, ← map_fst_fullListing, List.map_map]
    rfl
  · rw [← flatMap_cut (fun family column => (Escaped.text family, column)), listing,
      List.flatMap_map]
  · rw [hcolumns, List.length_take]

/-- Of every family a beginning is listed of what is listed of it for more columns. -/
theorem listing_isPrefix (selection : Selection) {maxColumns more : Int} (h : maxColumns ≤ more) :
    List.Forall₂ (fun short long => short.1 = long.1 ∧ short.2 <+: long.2)
      (selection.listing maxColumns) (selection.listing more) := by
  rw [listing, listing, List.forall₂_map_left_iff, List.forall₂_map_right_iff]
  refine (cut_isPrefix (Int.toNat_le_toNat h) selection.fullListing).imp ?_
  rintro ⟨family, columns⟩ ⟨_, more⟩ ⟨rfl, hprefix⟩
  exact ⟨rfl, hprefix⟩

end Selection

end ReadPlan
