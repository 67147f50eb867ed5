import Mathlib.Data.List.Perm.Basic
import ReadPlan.Proofs.Selection.Listings

/-!
# ReadPlan.Proofs.Selection.UncutListings — what an uncut listing tells of a selection

A listing with room for every column tells which families are selected and which columns of each, with
one exception. A family that is selected as a whole is listed with the text `ALL`, and so is a family
of which the single column with just these three letters is selected (`Columns.texts_eq_iff`). Nothing
else is confused: the display of byte strings loses nothing, an ascending list tells its set, and a
family without columns is listed with none (`Selection.uncut_listing_determines`).

Listings are mappings from names to texts, so they count as the same in whatever order the names
stand. Cut or uncut, two that agree in this way have their names in the same order anyway
(`Selection.listing_eq_of_perm`).
-/

namespace ReadPlan

/-- The qualifier that is displayed as all columns of a family are. -/
def allQualifier : Bytes := [0x41, 0x4c, 0x4c]

theorem Escaped.text_allQualifier : text allQualifier = allColumns := by
  decide

/-- The set whose one member is the qualifier that is displayed as all columns are. -/
def KeySet.ofAllQualifier : KeySet :=
  ofList [allQualifier]

/-! ## The columns of a family -/

namespace Columns

/-- A listing does not tell the columns apart. They are the same, or one are all columns of the family
and the other are the one column that is displayed as all are. -/
inductive ListedAlike : Columns KeySet → Columns KeySet → Prop where
  | same (columns : Columns KeySet) : ListedAlike columns columns
  | wholeAndNamed : ListedAlike .all (.only KeySet.ofAllQualifier)
  | namedAndWhole : ListedAlike (.only KeySet.ofAllQualifier) .all

/-- Of all sets only one is displayed as all columns are. -/
theorem texts_only_eq_iff {set : KeySet} :
    (Columns.only set).texts = [allColumns] ↔ set = KeySet.ofAllQualifier := by
  rw [texts, List.map_eq_singleton_iff]
  constructor
  · intro h
    obtain ⟨qualifier, hset, htext⟩ := h
    have hqualifier : qualifier = allQualifier := by
      apply Escaped.text_injective
      rw [htext, Escaped.text_allQualifier]
    apply KeySet.eq_of_toList
    rw [hset, hqualifier]
    rfl
  · intro h
    refine ⟨allQualifier, ?_, Escaped.text_allQualifier⟩
    rw [h]
    rfl

/-- Two families have the same texts just if a listing does not tell their columns apart. -/
theorem texts_eq_iff {first second : Columns KeySet} :
    first.texts = second.texts ↔ first.ListedAlike second := by
  constructor
  · intro h
    cases first with
    | all =>
      cases second with
      | all => exact .same .all
      | only set =>
        have hset : set = KeySet.ofAllQualifier := texts_only_eq_iff.1 h.symm
        rw [hset]
        exact .wholeAndNamed
    | only set =>
      cases second with
      | all =>
        have hset : set = KeySet.ofAllQualifier := texts_only_eq_iff.1 h
        rw [hset]
        exact .namedAndWhole
      | only other =>
        have hlist : set.toList = other.toList :=
          (List.map_inj_right fun _ _ => Escaped.text_injective).1 h
        rw [KeySet.eq_of_toList hlist]
        exact .same _
  · intro h
    cases h with
    | same => rfl
    | wholeAndNamed => exact (texts_only_eq_iff.2 rfl).symm
    | namedAndWhole => exact texts_only_eq_iff.2 rfl

end Columns

/-! ## Listings -/

/-- A cut with room for every column cuts nothing. -/
theorem cut_of_length_le {α β : Type} {budget : Nat} {listing : List (α × List β)}
    (h : (listing.flatMap Prod.snd).length ≤ budget) : cut budget listing = listing := by
  induction listing generalizing budget with
  | nil => rfl
  | cons entry rest ih =>
    obtain ⟨family, columns⟩ := entry
    rw [List.flatMap_cons, List.length_append] at h
    have hcolumns : columns.length ≤ budget := Nat.le_trans (Nat.le_add_right _ _) h
    have hrest : (rest.flatMap Prod.snd).length ≤ budget - columns.length := by
      have hsum : columns.length + (rest.flatMap Prod.snd).length ≤ budget := h
      omega
    rw [cut, List.take_of_length_le hcolumns, ih hrest]

/-- Lists of entries in ascending order of their keys are the same if they have the same entries. -/
theorem eq_of_perm_of_ascending {β : Type} {first second : List (Bytes × β)}
    (hperm : first.Perm second) (hfirst : (first.map Prod.fst).Pairwise (· < ·))
    (hsecond : (second.map Prod.fst).Pairwise (· < ·)) : first = second := by
  rw [List.pairwise_map] at hfirst hsecond
  refine hperm.eq_of_pairwise ?_ hfirst hsecond
  intro a b _ _ hab hba
  exact absurd (List.lt_trans hab hba) (List.lt_irrefl a.1)

namespace Selection

/-- A listing does not tell the selections apart: they have the same families, and of none of them does
it tell the columns apart. -/
def ListedAlike (s t : Selection) : Prop :=
  ∀ family, Option.Rel Columns.ListedAlike (s.get? family) (t.get? family)

theorem keys_iff_of_listedAlike {s t : Selection} (h : s.ListedAlike t) (family : Bytes) :
    family ∈ s.keys ↔ family ∈ t.keys := by
  rw [OrderedMap.mem_keys_iff, OrderedMap.mem_keys_iff]
  have hfamily := h family
  generalize s.get? family = first at hfamily
  generalize t.get? family = second at hfamily
  cases hfamily <;> simp

/-- Selections have the same full listing just if a listing does not tell them apart. -/
theorem fullListing_eq_iff {s t : Selection} :
    s.fullListing = t.fullListing ↔ s.ListedAlike t := by
  constructor
  · intro h family
    have hfamilies : s.families.toList = t.families.toList := by
      rw [← map_fst_fullListing, ← map_fst_fullListing, h]
    have hkeys : family ∈ s.keys ↔ family ∈ t.keys := by
      rw [← mem_families, ← mem_families, hfamilies]
    rw [fullListing, fullListing, hfamilies, List.map_inj_left] at h
    by_cases hmem : family ∈ t.keys
    · -- a family of both is listed with the texts of its columns in each
      have hentry := h family (mem_families.2 hmem)
      obtain ⟨first, hfirst⟩ := Option.isSome_iff_exists.1
        (OrderedMap.mem_keys_iff.1 (hkeys.2 hmem))
      obtain ⟨second, hsecond⟩ := Option.isSome_iff_exists.1 (OrderedMap.mem_keys_iff.1 hmem)
      rw [hfirst, hsecond] at hentry ⊢
      exact .some (Columns.texts_eq_iff.1 (congrArg Prod.snd hentry))
    · rw [OrderedMap.get?_eq_none_iff.2 hmem,
        OrderedMap.get?_eq_none_iff.2 fun hs => hmem (hkeys.1 hs)]
      exact .none
  · intro h
    rw [fullListing, fullListing, families_eq_of_keys (keys_iff_of_listedAlike h)]
    apply List.map_congr_left
    intro family _
    have htexts : (s.get? family).map Columns.texts = (t.get? family).map Columns.texts := by
      have hfamily := h family
      generalize s.get? family = first at hfamily
      generalize t.get? family = second at hfamily
      cases hfamily with
      | none => rfl
      | some halike => exact congrArg some (Columns.texts_eq_iff.2 halike)
    rw [htexts]

theorem display_injective : Function.Injective fun entry : Bytes × List String =>
    (Escaped.text entry.1, entry.2) := by
  intro first second h
  have hparts := Prod.mk.inj h
  exact Prod.ext (Escaped.text_injective hparts.1) hparts.2

/-- Listings with the same entries have them in the same order. -/
theorem listing_eq_of_perm {s t : Selection} {n m : Int} (h : (s.listing n).Perm (t.listing m)) :
    s.listing n = t.listing m := by
  have hascending : ∀ (selection : Selection) (budget : Nat),
      ((cut budget selection.fullListing).map Prod.fst).Pairwise (· < ·) := by
    intro selection budget
    rw [map_fst_cut]
    exact selection.lists_fullListing.ascending
  -- names are displays, and the families that are displayed stand in ascending order
  have hcuts : (cut n.toNat s.fullListing).Perm (cut m.toNat t.fullListing) :=
    (List.map_perm_map_iff display_injective).1 h
  have hcuts_eq := eq_of_perm_of_ascending hcuts (hascending s _) (hascending t _)
  rw [listing, listing, hcuts_eq]

/-- A listing with room for every column is the full listing, with the families displayed. -/
theorem listing_of_totalColumns_le {s : Selection} {n : Int} (h : (s.totalColumns : Int) ≤ n) :
    s.listing n = s.fullListing.map fun entry => (Escaped.text entry.1, entry.2) := by
  rw [totalColumns_eq_length] at h
  have hroom : (s.fullListing.flatMap Prod.snd).length ≤ n.toNat := by omega
  rw [listing, cut_of_length_le hroom]

theorem listing_eq_iff {s t : Selection} {n m : Int} (hs : (s.totalColumns : Int) ≤ n)
    (ht : (t.totalColumns : Int) ≤ m) : s.listing n = t.listing m ↔ s.ListedAlike t := by
  rw [listing_of_totalColumns_le hs, listing_of_totalColumns_le ht, ← fullListing_eq_iff]
  exact List.map_inj_right fun _ _ h => display_injective h

/-- **An uncut listing determines the selection, but for one ambiguity.** With room for every column in
both, two selections have the same listing and the same total just if they have the same families and
each of these has the same columns in both, or is a whole family in the one and has just the column
`ALL` in the other. The entries of the listings may be compared in any order: where they are the same,
their order is the same too. -/
theorem uncut_listing_determines {s t : Selection} {n m : Int} (hs : (s.totalColumns : Int) ≤ n)
    (ht : (t.totalColumns : Int) ≤ m) :
    ((s.listing n).Perm (t.listing m) ∧ s.totalColumns = t.totalColumns ↔ s.ListedAlike t) ∧
      (s.ListedAlike t → s.listing n = t.listing m) := by
  have hiff := listing_eq_iff hs ht
  refine ⟨⟨?_, ?_⟩, hiff.2⟩
  · intro h
    exact hiff.1 (listing_eq_of_perm h.1)
  · intro h
    have htotal : s.totalColumns = t.totalColumns := by
      rw [totalColumns_eq_length, totalColumns_eq_length, fullListing_eq_iff.2 h]
    rw [hiff.2 h]
    exact ⟨List.Perm.refl _, htotal⟩

/-- A whole family beside one with the single column `ALL`, the families in another order, and a family
without columns, which is confused with no whole one. -/
theorem uncut_listing_determines_all_named :
    let s : Selection := .ofEntries [([0x66], none), ([0x67], some [[0x41, 0x4c, 0x4c]])]
    let t : Selection := .ofEntries [([0x67], none), ([0x66], some [[0x41, 0x4c, 0x4c]])]
    let u : Selection := .ofEntries [([0x66], some []), ([0x67], none)]
    s ≠ t ∧ (s.totalColumns : Int) ≤ 2 ∧ (t.totalColumns : Int) ≤ 7 ∧ (u.totalColumns : Int) ≤ 2 ∧
      s.ListedAlike t ∧ s.listing 2 = t.listing 7 ∧ ¬ s.ListedAlike u := by
  intro s t u
  have hs : (s.totalColumns : Int) ≤ 2 := by decide
  have ht : (t.totalColumns : Int) ≤ 7 := by decide
  have hu : (u.totalColumns : Int) ≤ 2 := by decide
  have hst := uncut_listing_determines hs ht
  have hsu := uncut_listing_determines hs hu
  have hlistings : s.listing 2 = t.listing 7 := by decide
  have htotals : s.totalColumns = t.totalColumns := by decide
  have hne : s.totalColumns ≠ u.totalColumns := by decide
  refine ⟨by decide, hs, ht, hu, ?_, hlistings, ?_⟩
  · apply hst.1.1
    rw [hlistings]
    exact ⟨List.Perm.refl _, htotals⟩
  · intro h
    exact hne (hsu.1.2 h).2

end Selection

end ReadPlan
