import ReadPlan.Proofs.Selection.Listings

/-!
# ReadPlan.Proofs.Selection.Traversals — listings made entry by entry

A map gives its families in the order of their making, and a set gives its qualifiers in no
particular order (`Traversal`; an `Enumerator` has an order for every set). Here a listing is made by
going through them: families and qualifiers are sorted, and columns are taken one by one while the
budget lasts. What is left of the budget is handed on from family to family, and a whole family takes
one off it even if nothing is left (`Traversal.tally`). This comes to the cut of the full listing,
whatever the order was (`Traversal.Of.tally_eq`).
-/

namespace ReadPlan

/-- The keys in ascending order. -/
def Bytes.sort (keys : List Bytes) : List Bytes :=
  keys.mergeSort fun a b => decide (¬ b < a)

/-- A family map as one goes through it: the families in the order of the map, each with its
qualifiers in the order in which the set gives them. -/
abbrev Traversal := FamilyMap (List Bytes)

/-- The columns are gone through, each once. -/
inductive Columns.Traverses : Columns (List Bytes) → Columns KeySet → Prop where
  | all : Traverses .all .all
  | only {order : List Bytes} {set : KeySet} (hnodup : order.Nodup)
    (hmem : ∀ qualifier, qualifier ∈ order ↔ qualifier ∈ set) :
    Traverses (.only order) (.only set)

/-- An order for every set. Sets with the same qualifiers may have another one in another family. -/
structure Enumerator where
  order : Bytes → KeySet → List Bytes
  traverses : ∀ family set, (Columns.only (order family set)).Traverses (.only set)

namespace Enumerator

theorem mem_order (enumerator : Enumerator) (family : Bytes) (set : KeySet) (qualifier : Bytes) :
    qualifier ∈ enumerator.order family set ↔ qualifier ∈ set := by
  cases enumerator.traverses family set with
  | only hnodup hmem => exact hmem qualifier

def ascending : Enumerator where
  order := fun _ set => set.toList
  traverses := fun _ set => .only set.nodup_toList fun _ => Iff.rfl

def descending : Enumerator where
  order := fun _ set => set.toList.reverse
  traverses := fun _ set =>
    .only (List.nodup_reverse.2 set.nodup_toList) fun _ => List.mem_reverse

end Enumerator

/-! ## Sorting -/

theorem Bytes.sort_perm (keys : List Bytes) : (sort keys).Perm keys :=
  List.mergeSort_perm keys _

/-- Sorting forgets the order that there was. -/
theorem Bytes.sort_eq {keys : List Bytes} {set : KeySet} (hnodup : keys.Nodup)
    (hmem : ∀ key, key ∈ keys ↔ key ∈ set) : sort keys = set.toList := by
  have hperm := sort_perm keys
  have hsorted : (sort keys).Pairwise fun a b => ¬ b < a := by
    have hpairwise := @List.pairwise_mergeSort _ (fun a b : Bytes => decide (¬ b < a)) ?_ ?_ keys
    · exact hpairwise.imp of_decide_eq_true
    · intro a b c hab hbc
      simp only [decide_eq_true_eq] at hab hbc ⊢
      exact List.le_trans hab hbc
    · intro a b
      simp only [Bool.or_eq_true, decide_eq_true_eq]
      exact List.le_total a b
  -- no key comes twice, so that the order is strict
  have hascending : (sort keys).Pairwise (· < ·) :=
    (hsorted.and (hperm.nodup_iff.2 hnodup)).imp fun h => lt_of_not_lt_of_ne h.1 h.2.symm
  exact hascending.eq_of_mem_iff set.ascending fun key => hperm.mem_iff.trans (hmem key)

/-! ## Going through a map -/

/-- What has been listed, how many columns there were, and how many may still be listed. -/
structure Tally where
  listed : OrderedMap String (List String) := ∅
  total : Nat := 0
  remaining : Int

namespace Tally

/-- Lists columns while the budget lasts, and gives what is left of it. -/
def take : Int → List Bytes → List String × Int
  | remaining, [] => ([], remaining)
  | remaining, qualifier :: rest =>
    if remaining ≤ 0 then ([], remaining)
    else
      let (columns, left) := take (remaining - 1) rest
      (Escaped.text qualifier :: columns, left)

/-- Lists a family. One that is selected as a whole takes one off the budget in any case. -/
def add (tally : Tally) (family : Bytes) : Columns (List Bytes) → Tally
  | .all => {
      listed := tally.listed.put (Escaped.text family)
        (if 0 < tally.remaining then [allColumns] else [])
      total := tally.total + 1
      remaining := tally.remaining - 1 }
  | .only order =>
    let (columns, left) := take tally.remaining (Bytes.sort order)
    { listed := tally.listed.put (Escaped.text family) columns
      total := tally.total + order.length
      remaining := left }

end Tally

namespace Traversal

/-- Lists a family of the map. -/
def visit (traversal : Traversal) (tally : Tally) (family : Bytes) : Tally :=
  match OrderedMap.get? traversal family with
  | some columns => tally.add family columns
  | none => tally

/-- The listing with at most so many columns, family by family. -/
def tally (traversal : Traversal) (maxColumns : Int) : Tally :=
  (Bytes.sort (OrderedMap.keys traversal)).foldl traversal.visit { remaining := maxColumns }

/-- The families sorted, none for a map without any. -/
def families? (traversal : Traversal) : Option (List Bytes) :=
  if OrderedMap.isEmpty traversal then none else some (Bytes.sort (OrderedMap.keys traversal))

def fingerprint (traversal : Traversal) : Fingerprint :=
  if OrderedMap.isEmpty traversal then .everything
  else .families ((Bytes.sort (OrderedMap.keys traversal)).map Escaped.text)

/-- One goes through the map of the selection, in its order, and through each of its sets. -/
structure Of (traversal : Traversal) (selection : Selection) : Prop where
  keys : OrderedMap.keys traversal = selection.keys
  columns : ∀ family, Option.Rel Columns.Traverses (OrderedMap.get? traversal family)
    (selection.get? family)

end Traversal

/-! ## What it comes to -/

namespace Tally

/-- The columns are taken from the front, as many as the budget allows. -/
theorem take_eq (remaining : Int) (qualifiers : List Bytes) :
    take remaining qualifiers =
      ((qualifiers.map Escaped.text).take remaining.toNat,
        remaining - min qualifiers.length remaining.toNat) := by
  induction qualifiers generalizing remaining with
  | nil => simp [take]
  | cons qualifier rest ih =>
    by_cases hspent : remaining ≤ 0
    · rw [take, if_pos hspent, Int.toNat_of_nonpos hspent]
      simp
    · obtain ⟨budget, rfl⟩ : ∃ budget : Nat, remaining = budget + 1 :=
        ⟨(remaining - 1).toNat, by omega⟩
      have hsucc : ((budget : Int) + 1).toNat = budget + 1 := by omega
      rw [take, if_neg hspent, ih, Int.add_sub_cancel, Int.toNat_natCast, hsucc, List.map_cons,
        List.take_succ_cons, List.length_cons]
      simp only [Prod.mk.injEq, true_and]
      omega

/-- A family that is new is listed at the end, with the columns that the budget allows; and all its
columns count towards the total and are taken off the budget. -/
theorem add_eq {order : Columns (List Bytes)} {columns : Columns KeySet}
    (horder : order.Traverses columns) (tally : Tally) {family : Bytes}
    (hnew : Escaped.text family ∉ tally.listed.keys) :
    (tally.add family order).listed.entries =
        tally.listed.entries ++ [(Escaped.text family, columns.texts.take tally.remaining.toNat)] ∧
      (tally.add family order).total = tally.total + columns.texts.length ∧
      (tally.add family order).remaining.toNat =
        tally.remaining.toNat - columns.texts.length := by
  have hput : ∀ listed, (tally.listed.put (Escaped.text family) listed).entries =
      tally.listed.entries ++ [(Escaped.text family, listed)] :=
    fun listed => OrderedMap.putEntry_of_not_mem hnew
  cases horder with
  | all =>
    refine ⟨?_, rfl, ?_⟩
    · rw [add, hput]
      by_cases hspent : 0 < tally.remaining
      · rw [if_pos hspent, Columns.texts, List.take_of_length_le]
        show 1 ≤ _
        omega
      · rw [if_neg hspent, Int.toNat_of_nonpos (by omega), List.take_zero]
    · show (tally.remaining - 1).toNat = tally.remaining.toNat - 1
      omega
  | @only order set hnodup hmem =>
    have hsort := Bytes.sort_eq hnodup hmem
    have hlength : order.length = set.toList.length := by
      rw [← hsort, (Bytes.sort_perm order).length_eq]
    rw [add, hsort, take_eq, Columns.texts, List.length_map]
    refine ⟨hput _, ?_, ?_⟩
    · exact congrArg (tally.total + ·) hlength
    · show (tally.remaining - _).toNat = _
      omega

end Tally

namespace Traversal.Of

variable {traversal : Traversal} {selection : Selection}

theorem isEmpty_eq (h : traversal.Of selection) :
    OrderedMap.isEmpty traversal = selection.isEmpty := by
  have hkeys := congrArg List.isEmpty h.keys
  simpa [OrderedMap.keys, OrderedMap.isEmpty] using hkeys

theorem sort_keys (h : traversal.Of selection) :
    Bytes.sort (OrderedMap.keys traversal) = selection.families.toList :=
  Bytes.sort_eq traversal.distinct fun key => by
    rw [h.keys]
    exact Selection.mem_families.symm

theorem families?_eq (h : traversal.Of selection) :
    traversal.families? = selection.families?.map KeySet.toList := by
  rw [families?, Selection.families?, h.isEmpty_eq, h.sort_keys]
  split <;> rfl

theorem fingerprint_eq (h : traversal.Of selection) :
    traversal.fingerprint = selection.fingerprint := by
  rw [fingerprint, Selection.fingerprint, h.isEmpty_eq, h.sort_keys]

/-- Going through families that are new appends the cut of their columns. -/
theorem foldl_visit (h : traversal.Of selection) {families : List Bytes} (hnodup : families.Nodup)
    (hfamilies : ∀ family ∈ families, family ∈ selection.keys) (tally : Tally)
    (hnew : ∀ family ∈ families, Escaped.text family ∉ tally.listed.keys) :
    let full := families.map fun family =>
      (family, ((selection.get? family).map Columns.texts).getD [])
    (families.foldl traversal.visit tally).listed.entries =
        tally.listed.entries ++ (cut tally.remaining.toNat full).map (fun (family, columns) =>
          (Escaped.text family, columns)) ∧
      (families.foldl traversal.visit tally).total =
        tally.total + (full.flatMap Prod.snd).length := by
  induction families generalizing tally with
  | nil => simp [cut]
  | cons family rest ih =>
    rw [List.nodup_cons] at hnodup
    -- the family is in both maps, with the same columns
    obtain ⟨order, columns, horder, hcolumns, htraverses⟩ : ∃ order columns,
        OrderedMap.get? traversal family = some order ∧
          selection.get? family = some columns ∧ order.Traverses columns := by
      have hsome := OrderedMap.mem_keys_iff.1 (hfamilies family List.mem_cons_self)
      rcases Option.isSome_iff_exists.1 hsome with ⟨columns, hcolumns⟩
      have hrel := h.columns family
      rw [hcolumns] at hrel
      generalize OrderedMap.get? traversal family = found at hrel
      cases hrel with
      | some htraverses => exact ⟨_, columns, rfl, hcolumns, htraverses⟩
    have hvisit : traversal.visit tally family = tally.add family order := by
      rw [visit, horder]
    rcases Tally.add_eq htraverses tally (hnew family List.mem_cons_self) with
      ⟨hlisted, htotal, hremaining⟩
    -- the names of the rest are new still
    have hrest : ∀ other ∈ rest, Escaped.text other ∉ (tally.add family order).listed.keys := by
      intro other hother hmem
      rw [OrderedMap.keys, hlisted, List.map_append, List.mem_append] at hmem
      rcases hmem with hbefore | hsame
      · exact hnew other (List.mem_cons_of_mem _ hother) hbefore
      · obtain rfl := Escaped.text_injective (List.mem_singleton.1 hsame)
        exact hnodup.1 hother
    rcases ih hnodup.2 (fun other hother => hfamilies other (List.mem_cons_of_mem _ hother)) _
      hrest with ⟨hentries, hcount⟩
    intro full
    rw [List.foldl_cons, hvisit, hentries, hcount, hlisted, htotal, hremaining]
    simp [full, cut, hcolumns, Nat.add_assoc]

/-- **Made entry by entry, a listing is the cut of the full one, and all columns are counted.** -/
theorem tally_eq (h : traversal.Of selection) (maxColumns : Int) :
    (traversal.tally maxColumns).listed.entries = selection.listing maxColumns ∧
      (traversal.tally maxColumns).total = selection.totalColumns := by
  have hvisit := h.foldl_visit selection.families.nodup_toList
    (fun _ => Selection.mem_families.1) { remaining := maxColumns } fun _ _ => List.not_mem_nil
  rw [Traversal.tally, h.sort_keys, Selection.totalColumns_eq_length]
  exact ⟨hvisit.1, hvisit.2.trans (Nat.zero_add _)⟩

end Traversal.Of

/-- Every map can be gone through, for one with each set in ascending order. -/
theorem Selection.traversal_of (selection : Selection) :
    Traversal.Of (OrderedMap.mapValues (Columns.map KeySet.toList) selection) selection := by
  refine ⟨OrderedMap.keys_mapValues _ _, fun family => ?_⟩
  rw [OrderedMap.get?_mapValues]
  cases selection.get? family with
  | none => exact .none
  | some columns =>
    cases columns with
    | all => exact .some .all
    | only set => exact .some (.only set.nodup_toList fun _ => Iff.rfl)

/-- **A listing is a cut of the full listing, counted over all families.** There is a full listing of
every selection, families and columns in ascending order, and the total is the number of its columns.
A listing for a number of columns, be it negative, zero or too great, names each family once, in the
same order, and shows the first columns of all, each under its own family; for more columns it shows
at least as much of every family. Made by going through the map and its sets in whatever order they
come, with a budget that is handed on from family to family, it is the same listing with the same
total. -/
theorem Selection.listing_cuts (selection : Selection) :
    ∃ full, selection.Lists full ∧ selection.totalColumns = (full.flatMap Prod.snd).length ∧
      (∀ maxColumns, IsCut full maxColumns (selection.listing maxColumns)) ∧
      (∀ maxColumns more, maxColumns ≤ more →
        List.Forall₂ (fun short long => short.1 = long.1 ∧ short.2 <+: long.2)
          (selection.listing maxColumns) (selection.listing more)) ∧
      (∃ traversal : Traversal, traversal.Of selection) ∧
      ∀ traversal : Traversal, traversal.Of selection → ∀ maxColumns,
        (traversal.tally maxColumns).listed.entries = selection.listing maxColumns ∧
          (traversal.tally maxColumns).total = selection.totalColumns := by
  refine ⟨selection.fullListing, selection.lists_fullListing, selection.totalColumns_eq_length,
    selection.isCut_listing, ?_, ⟨_, selection.traversal_of⟩, ?_⟩
  · intro maxColumns more h
    exact selection.listing_isPrefix h
  · intro traversal h
    exact h.tally_eq

/-- The cut falls within a family, behind one that is selected as a whole and in front of one without
columns. The map has its families in another order, and the set is gone through backwards. -/
theorem Selection.listing_cuts_within_family :
    let selection : Selection := .ofEntries
      [([0x67], some [[0x61], [0x62]]), ([0x68], some []), ([0x66], none)]
    let traversal : Traversal := .ofList
      [([0x67], .only [[0x62], [0x61]]), ([0x68], .only []), ([0x66], .all)]
    selection.listing 2 = [("f", ["ALL"]), ("g", ["a"]), ("h", [])] ∧
      (∃ full, selection.Lists full ∧ IsCut full 2 (selection.listing 2) ∧
        (full.flatMap Prod.snd).length = 3) ∧
      List.Forall₂ (fun short long => short.1 = long.1 ∧ short.2 <+: long.2)
        (selection.listing 2) (selection.listing 3) ∧
      traversal.Of selection ∧ (traversal.tally 2).listed.entries = selection.listing 2 := by
  intro selection traversal
  have hof : traversal.Of selection := by
    refine ⟨rfl, fun family => ?_⟩
    by_cases hg : family = [0x67]
    · subst hg
      exact .some (.only (by decide) fun _ => by simp [KeySet.ofList, or_comm])
    · by_cases hh : family = [0x68]
      · subst hh
        exact .some (.only .nil fun _ => Iff.rfl)
      · by_cases hf : family = [0x66]
        · subst hf
          exact .some .all
        · have hnone : ∀ {σ : Type} (map : FamilyMap σ), map.keys = [[0x67], [0x68], [0x66]] →
              map.get? family = none := by
            intro σ map hkeys
            rw [OrderedMap.get?_eq_none_iff, hkeys]
            simp [hg, hh, hf]
          rw [hnone traversal rfl, hnone selection rfl]
          exact .none
  rcases selection.listing_cuts with ⟨full, hlists, htotal, hcut, hprefix, -, htally⟩
  exact ⟨rfl, ⟨full, hlists, hcut 2, htotal.symm⟩, hprefix 2 3 (by decide), hof,
    (htally traversal hof 2).1⟩

end ReadPlan
