import ReadPlan.Proofs.Pool.Select
import ReadPlan.Proofs.Selection.Traversals

/-!
# ReadPlan.Proofs.Pool.Rebuild — a copy of a map is built selector by selector

A map is copied by selecting through an empty one, entry by entry, and the columns of an entry come in
any order (`Enumerator.selectors`). What this writes to the pool, step by step, is what making the
copy at once writes: the same maps, and the same sets under the same numbers and in the same order
(`Pool.selectAll_newMap_selectors` for an entry, `Pool.selectAll_newMap` for a map).
-/

namespace ReadPlan

/-- An entry under a new key goes to the end. -/
theorem OrderedMap.mapWithKey_put_of_not_mem {κ ν μ : Type} [DecidableEq κ]
    {map : OrderedMap κ ν} {key : κ} (hnew : key ∉ map.keys) (f : κ → ν → μ) (value : ν) :
    (map.put key value).mapWithKey f = (map.mapWithKey f).put key (f key value) := by
  have hnew' : key ∉ (map.mapWithKey f).keys := by
    rw [keys_mapWithKey]
    exact hnew
  refine ext_entries ?_
  show (putEntry key value map.entries).map _ =
    putEntry key (f key value) (map.mapWithKey f).entries
  rw [putEntry_of_not_mem hnew, putEntry_of_not_mem hnew', List.map_append]
  rfl

/-- What is selected to copy an entry: its qualifiers one by one, or the whole family if there is
none. -/
def Enumerator.selectors (enumerator : Enumerator) (family : Bytes) :
    Columns KeySet → List Selector
  | .all => [.wholeFamily family]
  | .only set =>
    if set.isEmpty then [.wholeFamily family]
    else (enumerator.order family set).map fun qualifier => .column family (some qualifier)

theorem Selection.selectorsOf_eq (family : Bytes) (columns : Columns KeySet) :
    selectorsOf family columns = Enumerator.ascending.selectors family columns := by
  cases columns <;> rfl

namespace Pool

variable {pool : Pool} {selection : Selection} {family : Bytes}

/-- Selects through a map several times. -/
def selectAll (pool : Pool) (id : MapId) (selectors : List Selector) : Pool :=
  selectors.foldl (fun pool selector => pool.select id selector) pool

theorem selectAll_append (pool : Pool) (id : MapId) (first second : List Selector) :
    pool.selectAll id (first ++ second) = (pool.selectAll id first).selectAll id second :=
  List.foldl_append

/-! ## What making a map writes -/

/-- The entries of a new map: each set is the next one of its family. -/
def freshEntries (pool : Pool) (selection : Selection) : FamilyMap SetId :=
  selection.mapWithKey fun family => Columns.map fun _ => pool.freshSet family

theorem addSets_append (pool : Pool) (first second : List (Bytes × Columns KeySet)) :
    pool.addSets (first ++ second) = (pool.addSets first).addSets second := by
  fun_induction addSets pool first with
  | case1 => rfl
  | case2 _ _ _ ih => exact ih
  | case3 _ _ _ _ ih => exact ih

/-- The number of the map does not depend on what it selects. -/
theorem newMap_fst (pool : Pool) (selection : Selection) :
    (pool.newMap selection).1 = ⟨pool.maps.length⟩ := by
  show (⟨(pool.addSets selection.entries).maps.length⟩ : MapId) = _
  rw [maps_addSets]

/-- Replacing the map that was made last is making another one in its place. -/
theorem setMap_addMap (pool : Pool) (map replaced : FamilyMap SetId) :
    (pool.addMap map).2.setMap (pool.addMap map).1 replaced = (pool.addMap replaced).2 := by
  simp [addMap, setMap]

theorem map_newMap_self (pool : Pool) (selection : Selection) :
    (pool.newMap selection).2.map (pool.newMap selection).1 = pool.freshEntries selection := by
  rw [map_newMap, if_pos rfl]
  rfl

theorem newMap_put (hnew : family ∉ OrderedMap.keys selection) (columns : Columns KeySet) :
    pool.newMap (OrderedMap.put selection family columns) =
      ((pool.addSets selection.entries).addSets [(family, columns)]).addMap
        ((pool.freshEntries selection).put family
          (columns.map fun _ => pool.freshSet family)) := by
  have hentries : (OrderedMap.put selection family columns).entries =
      selection.entries ++ [(family, columns)] := OrderedMap.putEntry_of_not_mem hnew
  rw [newMap, hentries, addSets_append, OrderedMap.mapWithKey_put_of_not_mem hnew]
  rfl

/-- A new family keeps its next set until one is made for it. -/
theorem freshSet_addSets (hnew : family ∉ OrderedMap.keys selection) :
    (pool.addSets selection.entries).freshSet family = pool.freshSet family := by
  rw [freshSet, setsOf_addSets_of_not_mem pool hnew]
  rfl

/-! ## Selecting through the map just made -/

theorem select_newMap_whole (hnew : family ∉ OrderedMap.keys selection) :
    (pool.newMap selection).2.select (pool.newMap selection).1 (.wholeFamily family) =
      (pool.newMap (OrderedMap.put selection family .all)).2 := by
  have hnew' : family ∉ (pool.freshEntries selection).keys := by
    rw [freshEntries, OrderedMap.keys_mapWithKey]
    exact hnew
  rw [select, map_newMap_self, FamilyMap.selectWhole, OrderedMap.erase_of_not_mem hnew',
    newMap_put hnew]
  exact setMap_addMap _ _ _

/-- The first column of a family makes its set. -/
theorem select_newMap_first (pool : Pool) (hnew : family ∉ OrderedMap.keys selection)
    (qualifier : Bytes) :
    (pool.newMap selection).2.select (pool.newMap selection).1 (.column family (some qualifier)) =
      (pool.newMap (OrderedMap.put selection family (.only (KeySet.insert ∅ qualifier)))).2 := by
  have hnone : ∀ set, ((pool.newMap selection).2.map (pool.newMap selection).1).get? family ≠
      some (.only set) := by
    intro set hset
    rw [map_newMap_self, freshEntries, OrderedMap.get?_mapWithKey,
      OrderedMap.get?_eq_none_iff.2 hnew] at hset
    cases hset
  have hfresh : (pool.newMap selection).2.freshSet family = pool.freshSet family :=
    freshSet_addSets hnew
  rw [select_of_not_held hnone, map_newMap_self, hfresh, newMap_put hnew]
  exact setMap_addMap ((pool.addSets selection.entries).addSet family (KeySet.insert ∅ qualifier))
    _ _

/-- Each further column goes into the set. -/
theorem select_newMap_next (pool : Pool) (hnew : family ∉ OrderedMap.keys selection)
    (set : KeySet) (qualifier : Bytes) :
    (pool.newMap (OrderedMap.put selection family (.only set))).2.select
        (pool.newMap (OrderedMap.put selection family (.only set))).1
        (.column family (some qualifier)) =
      (pool.newMap (OrderedMap.put selection family (.only (set.insert qualifier)))).2 := by
  have hheld : ((pool.newMap (OrderedMap.put selection family (.only set))).2.map
      (pool.newMap (OrderedMap.put selection family (.only set))).1).get? family =
        some (.only (pool.freshSet family)) := by
    rw [map_newMap_self, freshEntries, OrderedMap.get?_mapWithKey, OrderedMap.get?_put_self]
    rfl
  have hsets : (pool.addSets selection.entries).setsOf family = pool.setsOf family :=
    setsOf_addSets_of_not_mem pool hnew
  rw [select_of_held hheld, newMap_put hnew, newMap_put hnew]
  -- both pools hold the same maps, and the sets of the family end in the set with the qualifier
  have hadd : ((pool.addSets selection.entries).addSet family set).addQualifier
      (pool.freshSet family) (some qualifier) =
        (pool.addSets selection.entries).addSet family (set.insert qualifier) := by
    simp only [addQualifier, addSet, freshSet, setsOf_putSets, if_true, hsets]
    have hmodify : (pool.setsOf family ++ [set]).modify (pool.setsOf family).length
        (fun set => set.insert? (some qualifier)) =
          pool.setsOf family ++ [set.insert qualifier] := by
      rw [List.modify_eq_take_cons_drop (by simp)]
      simp
    rw [hmodify, putSets, putSets, putSets, OrderedMap.put_put]
  exact congrArg (fun sets : Pool => (sets.addMap _).2) hadd

/-! ## Copies -/

/-- The columns of a family, one by one. -/
theorem selectAll_newMap_columns (hnew : family ∉ OrderedMap.keys selection) (set : KeySet)
    (qualifiers : List Bytes) :
    (pool.newMap (OrderedMap.put selection family (.only set))).2.selectAll ⟨pool.maps.length⟩
        (qualifiers.map fun qualifier => .column family (some qualifier)) =
      (pool.newMap (OrderedMap.put selection family
        (.only (qualifiers.foldl KeySet.insert set)))).2 := by
  induction qualifiers generalizing set with
  | nil => rfl
  | cons qualifier rest ih =>
    have hselect := select_newMap_next pool hnew set qualifier
    rw [newMap_fst] at hselect
    rw [List.map_cons, List.foldl_cons, ← ih, ← hselect]
    rfl

/-- The columns of a new family, one by one and in whatever order they come: the first makes the set,
the others go into it. -/
theorem selectAll_newMap_set (hnew : family ∉ OrderedMap.keys selection) {set : KeySet}
    (hset : set.isEmpty ≠ true) {order : List Bytes}
    (hmem : ∀ qualifier, qualifier ∈ order ↔ qualifier ∈ set) :
    (pool.newMap selection).2.selectAll ⟨pool.maps.length⟩
        (order.map fun qualifier => .column family (some qualifier)) =
      (pool.newMap (OrderedMap.put selection family (.only set))).2 := by
  cases order with
  | nil =>
    have hempty : set = ∅ := KeySet.ext_mem fun k => (hmem k).symm
    exact absurd (KeySet.isEmpty_iff.2 hempty) hset
  | cons qualifier rest =>
    have hfirst := select_newMap_first pool hnew qualifier
    rw [newMap_fst] at hfirst
    have hrest : rest.foldl KeySet.insert (KeySet.insert ∅ qualifier) = set :=
      KeySet.foldl_insert_eq hmem
    rw [← hrest, ← selectAll_newMap_columns hnew, ← hfirst]
    rfl

/-- The whole of a new family. -/
theorem selectAll_newMap_whole (hnew : family ∉ OrderedMap.keys selection) :
    (pool.newMap selection).2.selectAll ⟨pool.maps.length⟩ [.wholeFamily family] =
      (pool.newMap (OrderedMap.put selection family .all)).2 := by
  rw [← select_newMap_whole hnew, newMap_fst]
  rfl

/-- An entry, if its family is new. -/
theorem selectAll_newMap_selectors (pool : Pool) (hnew : family ∉ OrderedMap.keys selection)
    (enumerator : Enumerator) (columns : Columns KeySet) :
    (pool.newMap selection).2.selectAll ⟨pool.maps.length⟩ (enumerator.selectors family columns) =
      (pool.newMap (OrderedMap.put selection family columns.rebuilt)).2 := by
  cases columns with
  | all => exact selectAll_newMap_whole hnew
  | only set =>
    simp only [Enumerator.selectors, Columns.rebuilt]
    by_cases hempty : set.isEmpty = true
    · rw [if_pos hempty, if_pos hempty]
      exact selectAll_newMap_whole hnew
    · rw [if_neg hempty, if_neg hempty]
      exact selectAll_newMap_set hnew hempty (enumerator.mem_order family set)

/-- The selectors of entries with distinct new families. -/
theorem selectAll_newMap_entries (pool : Pool) (selection : Selection)
    (entries : List (Bytes × Columns KeySet)) (hdistinct : (entries.map Prod.fst).Nodup)
    (hnew : ∀ entry ∈ entries, entry.1 ∉ OrderedMap.keys selection) :
    (pool.newMap selection).2.selectAll ⟨pool.maps.length⟩
        (entries.flatMap fun entry => Selection.selectorsOf entry.1 entry.2) =
      (pool.newMap (selection.selectAll
        (entries.flatMap fun entry => Selection.selectorsOf entry.1 entry.2))).2 := by
  induction entries generalizing selection with
  | nil => rfl
  | cons entry rest ih =>
    rw [List.map_cons, List.nodup_cons] at hdistinct
    have hentry := hnew entry List.mem_cons_self
    have hput : selection.selectAll (Selection.selectorsOf entry.1 entry.2) =
        OrderedMap.put selection entry.1 entry.2.rebuilt :=
      Selection.selectAll_selectorsOf hentry
    have hstep := selectAll_newMap_selectors pool hentry .ascending entry.2
    rw [List.flatMap_cons, selectAll_append, Selection.selectAll_append, hput,
      Selection.selectorsOf_eq, hstep]
    have hrest : ∀ other ∈ rest, other.1 ∉ OrderedMap.keys selection :=
      fun other hmem => hnew other (List.mem_cons_of_mem _ hmem)
    exact ih _ hdistinct.2 (OrderedMap.forall_not_mem_keys_put hdistinct.1 hrest _)

/-- Selecting what a selection holds through an empty map makes its copy. -/
theorem selectAll_newMap (pool : Pool) (selection : Selection) :
    (pool.newMap ∅).2.selectAll (pool.newMap ∅).1 selection.selectors =
      (pool.newMap selection.rebuild).2 := by
  rw [newMap_fst]
  exact selectAll_newMap_entries pool ∅ selection.entries selection.distinct
    fun _ _ => List.not_mem_nil

end Pool

end ReadPlan
