import ReadPlan.Proofs.Selection.KeySets
import ReadPlan.Selection.Basic

/-!
# ReadPlan.Proofs.Selection.Rebuild — copies of selections

A copy is built from nothing by selectors, entry by entry. It has the families of the selection in
their order and the columns of each, but for one difference: no selector builds an empty set, so
a family without columns becomes a whole one (`Selection.rebuild_eq`).

`Selection.Tracks` follows the two from there. Whatever is selected in both, they differ at most in
the families that started empty, and in each of these only until a selector names it.
-/

namespace ReadPlan

/-- The columns as a copy has them: a family without columns is a whole one. -/
def Columns.rebuilt : Columns KeySet → Columns KeySet
  | .all => .all
  | .only set => if set.isEmpty then .all else .only set

theorem Columns.rebuilt_empty : (Columns.only ∅).rebuilt = .all :=
  rfl

theorem Columns.rebuilt_of_ne_empty {set : KeySet} (hset : set ≠ ∅) :
    (Columns.only set).rebuilt = .only set := by
  rw [rebuilt, if_neg]
  exact fun hempty => hset (KeySet.isEmpty_iff.1 hempty)

/-- Only a whole family and one without columns are copied as a whole one. -/
theorem Columns.rebuilt_eq_all_iff {columns : Columns KeySet} :
    columns.rebuilt = .all ↔ columns = .all ∨ columns = .only ∅ := by
  cases columns with
  | all => simp [rebuilt]
  | only set =>
    by_cases hset : set = ∅
    · simp [hset, rebuilt_empty]
    · simp [hset, rebuilt_of_ne_empty hset]

/-- A set is copied if it has columns. -/
theorem Columns.rebuilt_eq_only_iff {columns : Columns KeySet} {set : KeySet} :
    columns.rebuilt = .only set ↔ columns = .only set ∧ set ≠ ∅ := by
  cases columns with
  | all => simp [rebuilt]
  | only held =>
    by_cases hheld : held = ∅
    · subst hheld
      simp [rebuilt_empty, eq_comm]
    · rw [rebuilt_of_ne_empty hheld]
      constructor
      · rintro ⟨⟩
        exact ⟨rfl, hheld⟩
      · exact And.left

@[simp] theorem KeySet.insert?_none (set : KeySet) : set.insert? none = set :=
  rfl

@[simp] theorem KeySet.insert?_some (set : KeySet) (qualifier : Bytes) :
    set.insert? (some qualifier) = set.insert qualifier :=
  rfl

theorem KeySet.mem_insert? {set : KeySet} {qualifier? : Option Bytes} {k : Bytes} :
    k ∈ set.insert? qualifier? ↔ qualifier? = some k ∨ k ∈ set := by
  cases qualifier? with
  | none => simp
  | some qualifier => simp [eq_comm]

/-- Of entries with distinct new keys the first can be put, and the keys of the rest are still new. -/
theorem OrderedMap.forall_not_mem_keys_put {κ ν μ : Type} [DecidableEq κ] {map : OrderedMap κ ν}
    {key : κ} {rest : List (κ × μ)} (hkey : key ∉ rest.map Prod.fst)
    (hnew : ∀ entry ∈ rest, entry.1 ∉ map.keys) (value : ν) :
    ∀ entry ∈ rest, entry.1 ∉ (map.put key value).keys := by
  intro entry hmem hput
  rw [mem_keys_iff, get?_put] at hput
  by_cases heq : entry.1 = key
  · exact hkey (heq ▸ List.mem_map_of_mem hmem)
  · rw [if_neg heq, ← mem_keys_iff] at hput
    exact hnew entry hmem hput

namespace Selection

/-! ## The effect of a selector -/

/-- The columns of the named family after a selector, from those before it. -/
def columnsAfter (before : Option (Columns KeySet)) : Selector → Columns KeySet
  | .wholeFamily _ => .all
  | .column _ qualifier? => .only ((Columns.setOrEmpty before).insert? qualifier?)

theorem get?_select (selection : Selection) (selector : Selector) (family : Bytes) :
    (selection.select selector).get? family =
      if family = selector.family then
        some (columnsAfter (selection.get? selector.family) selector)
      else selection.get? family := by
  cases selector with
  | wholeFamily name =>
    rw [select, FamilyMap.selectWhole, OrderedMap.get?_put, OrderedMap.get?_erase]
    by_cases h : family = name
    · simp [h, Selector.family, columnsAfter]
    · simp [h, Selector.family]
  | column name qualifier? =>
    rw [select, OrderedMap.get?_put]
    rfl

theorem keys_selectWhole {σ : Type} (map : FamilyMap σ) (family : Bytes) :
    (FamilyMap.selectWhole map family).keys = map.keys.filter (· ≠ family) ++ [family] := by
  rw [FamilyMap.selectWhole, OrderedMap.keys_put, OrderedMap.keys_erase, if_neg]
  simp

theorem keys_select (selection : Selection) (selector : Selector) :
    (selection.select selector).keys =
      match selector with
      | .wholeFamily name => selection.keys.filter (· ≠ name) ++ [name]
      | .column name _ =>
        if name ∈ selection.keys then selection.keys else selection.keys ++ [name] := by
  cases selector with
  | wholeFamily name => exact keys_selectWhole selection name
  | column name qualifier? =>
    rw [select, OrderedMap.keys_put]
    by_cases h : name ∈ selection.keys <;> simp only [h, if_true, if_false]

/-! ## Copies -/

theorem selectAll_append (selection : Selection) (first second : List Selector) :
    selection.selectAll (first ++ second) = (selection.selectAll first).selectAll second :=
  List.foldl_append

/-- Naming columns of a family that has a set adds all of them to it. -/
theorem selectAll_columns (selection : Selection) (family : Bytes) (set : KeySet)
    (qualifiers : List Bytes) :
    selectAll (selection.put family (.only set))
        (qualifiers.map fun qualifier => .column family (some qualifier)) =
      selection.put family (.only (qualifiers.foldl KeySet.insert set)) := by
  induction qualifiers generalizing set with
  | nil => rfl
  | cons qualifier rest ih =>
    have hselect : select (selection.put family (.only set)) (.column family (some qualifier)) =
        selection.put family (.only (set.insert qualifier)) := by
      simp only [select]
      rw [OrderedMap.get?_put_self, OrderedMap.put_put]
      rfl
    calc selectAll (selection.put family (.only set))
          ((qualifier :: rest).map fun qualifier => .column family (some qualifier))
        = selectAll (select (selection.put family (.only set)) (.column family (some qualifier)))
            (rest.map fun qualifier => .column family (some qualifier)) := rfl
      _ = selection.put family (.only (rest.foldl KeySet.insert (set.insert qualifier))) := by
          rw [hselect, ih]
      _ = selection.put family (.only ((qualifier :: rest).foldl KeySet.insert set)) := rfl

/-- The selectors of an entry build it, if its family is new. -/
theorem selectAll_selectorsOf {selection : Selection} {family : Bytes} {columns : Columns KeySet}
    (hnew : family ∉ selection.keys) :
    selection.selectAll (selectorsOf family columns) = selection.put family columns.rebuilt := by
  have hwhole : selection.selectAll [.wholeFamily family] = selection.put family .all := by
    show selection.select (.wholeFamily family) = selection.put family .all
    rw [select, FamilyMap.selectWhole, OrderedMap.erase_of_not_mem hnew]
  cases columns with
  | all => exact hwhole
  | only set =>
    simp only [selectorsOf, Columns.rebuilt]
    by_cases hempty : set.isEmpty = true
    · rw [if_pos hempty, if_pos hempty]
      exact hwhole
    · rw [if_neg hempty, if_neg hempty]
      have hset : set.toList.foldl KeySet.insert ∅ = set :=
        KeySet.foldl_insert_eq fun _ => Iff.rfl
      cases hlist : set.toList with
      | nil => simp [KeySet.isEmpty, hlist] at hempty
      | cons qualifier rest =>
        -- the first column makes the set, the others go into it
        have hfirst : selection.select (.column family (some qualifier)) =
            selection.put family (.only (KeySet.insert ∅ qualifier)) := by
          rw [select, OrderedMap.get?_eq_none_iff.2 hnew]
          rfl
        calc selection.selectAll
              ((qualifier :: rest).map fun qualifier => .column family (some qualifier))
            = (selection.select (.column family (some qualifier))).selectAll
                (rest.map fun qualifier => .column family (some qualifier)) := rfl
          _ = selection.put family
                (.only (rest.foldl KeySet.insert (KeySet.insert ∅ qualifier))) := by
              rw [hfirst, selectAll_columns]
          _ = selection.put family (.only (set.toList.foldl KeySet.insert ∅)) := by
              rw [hlist]
              rfl
          _ = selection.put family (.only set) := by rw [hset]

/-- The selectors of entries with distinct new families put these entries, as a copy has them. -/
theorem selectAll_entries (selection : Selection) (entries : List (Bytes × Columns KeySet))
    (hdistinct : (entries.map Prod.fst).Nodup)
    (hnew : ∀ entry ∈ entries, entry.1 ∉ selection.keys) :
    selection.selectAll (entries.flatMap fun entry => selectorsOf entry.1 entry.2) =
      (entries.map fun entry => (entry.1, entry.2.rebuilt)).foldl
        (fun map entry => map.put entry.1 entry.2) selection := by
  induction entries generalizing selection with
  | nil => rfl
  | cons entry rest ih =>
    rw [List.map_cons, List.nodup_cons] at hdistinct
    rw [List.flatMap_cons, selectAll_append,
      selectAll_selectorsOf (hnew entry List.mem_cons_self), ih _ hdistinct.2, List.map_cons,
      List.foldl_cons]
    have hrest : ∀ other ∈ rest, other.1 ∉ selection.keys :=
      fun other hmem => hnew other (List.mem_cons_of_mem _ hmem)
    exact OrderedMap.forall_not_mem_keys_put hdistinct.1 hrest _

/-- A copy is the selection with a whole family in place of each family without columns. -/
theorem rebuild_eq (selection : Selection) :
    selection.rebuild = selection.mapValues Columns.rebuilt := by
  have hentries : selection.rebuild =
      OrderedMap.ofList (selection.mapValues Columns.rebuilt).entries :=
    selectAll_entries ∅ selection.entries selection.distinct fun _ _ => List.not_mem_nil
  rw [hentries, OrderedMap.ofList_entries]

/-! ## A selection and its copy -/

/-- A selection beside a copy of it: the same families in the same order, each with the same
columns, but for the pending families, which have no columns in one and are whole in the other. -/
structure Tracks (pending : Bytes → Prop) (original copy : Selection) : Prop where
  keys_eq : original.keys = copy.keys
  agree : ∀ family, ¬ pending family → original.get? family = copy.get? family
  differ : ∀ family, pending family →
    original.get? family = some (.only ∅) ∧ copy.get? family = some .all

/-- At first the pending families are those without columns. -/
theorem tracks_rebuild (selection : Selection) :
    Tracks (fun family => selection.get? family = some (.only ∅)) selection selection.rebuild := by
  rw [rebuild_eq]
  refine ⟨(OrderedMap.keys_mapValues _ _).symm, ?_, ?_⟩
  · intro family hagree
    rw [OrderedMap.get?_mapValues]
    cases hget : selection.get? family with
    | none => rfl
    | some columns =>
      cases columns with
      | all => rfl
      | only set =>
        -- a set without members would be pending
        have hset : set.isEmpty ≠ true := by
          intro h
          rw [KeySet.isEmpty_iff.1 h] at hget
          exact hagree hget
        simp [Columns.rebuilt, hset]
  · intro family hempty
    rw [OrderedMap.get?_mapValues, hempty]
    exact ⟨rfl, rfl⟩

/-- A selector settles the family that it names: no set and a whole family take it alike. -/
theorem Tracks.select {pending : Bytes → Prop} {original copy : Selection}
    (h : Tracks pending original copy) (selector : Selector) :
    Tracks (fun family => pending family ∧ family ≠ selector.family)
      (original.select selector) (copy.select selector) := by
  have hcolumns : columnsAfter (original.get? selector.family) selector =
      columnsAfter (copy.get? selector.family) selector := by
    by_cases hpending : pending selector.family
    · -- an empty set and a whole family: a column starts a set from nothing in both
      rw [(h.differ _ hpending).1, (h.differ _ hpending).2]
      cases selector <;> rfl
    · rw [h.agree _ hpending]
  refine ⟨by rw [keys_select, keys_select, h.keys_eq], ?_, ?_⟩
  · intro family hagree
    rw [get?_select, get?_select, hcolumns]
    by_cases heq : family = selector.family
    · rw [if_pos heq, if_pos heq]
    · rw [if_neg heq, if_neg heq]
      exact h.agree family fun hpending => hagree ⟨hpending, heq⟩
  · rintro family ⟨hpending, hne⟩
    rw [get?_select, get?_select, if_neg hne, if_neg hne]
    exact h.differ family hpending

/-- Without pending families the two are the same. -/
theorem Tracks.eq {pending : Bytes → Prop} {original copy : Selection}
    (h : Tracks pending original copy) (hnone : ∀ family, ¬ pending family) : original = copy :=
  OrderedMap.ext_get? h.keys_eq fun family => h.agree family (hnone family)

end Selection

end ReadPlan
