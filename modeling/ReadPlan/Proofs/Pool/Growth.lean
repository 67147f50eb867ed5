import ReadPlan.Pool

/-!
# ReadPlan.Proofs.Pool.Growth — making things leaves the rest of the pool alone

A pool only ever gets longer: what is made goes to the end, so every map, set and filter that was
there keeps its number and what it holds (`Pool.Grows`). In a well-formed pool a map holds for a
family only sets that were made for that family, so no set stands under two families; making maps
keeps a pool well formed.
-/

namespace ReadPlan

namespace Pool

/-! ## What is in a pool -/

def HasMap (pool : Pool) (id : MapId) : Prop :=
  id.index < pool.maps.length

def HasSet (pool : Pool) (id : SetId) : Prop :=
  id.serial < (pool.setsOf id.family).length

def HasFilter (pool : Pool) (id : FilterId) : Prop :=
  id.index < pool.filters.length

/-- What a map holds for a family was made for that family. -/
def WellFormed (pool : Pool) : Prop :=
  ∀ (id : MapId) (family : Bytes) (set : SetId),
    (pool.map id).get? family = some (.only set) → set.family = family ∧ pool.HasSet set

theorem not_hasSet_freshSet (pool : Pool) (family : Bytes) : ¬ pool.HasSet (pool.freshSet family) :=
  Nat.lt_irrefl _

theorem keys_contents (pool : Pool) (id : MapId) : (pool.contents id).keys = (pool.map id).keys :=
  OrderedMap.keys_mapValues _ _

theorem get?_contents (pool : Pool) (id : MapId) (family : Bytes) :
    (pool.contents id).get? family = ((pool.map id).get? family).map (Columns.map pool.set) :=
  OrderedMap.get?_mapValues _ _ _

/-- Two maps select the same if they name the same families in the same order and hold equal sets.
-/
theorem contents_congr {pool later : Pool} {id : MapId} (hmap : later.map id = pool.map id)
    (hset : ∀ family set, (pool.map id).get? family = some (.only set) →
      later.set set = pool.set set) : later.contents id = pool.contents id := by
  apply OrderedMap.ext_get?
  · rw [keys_contents, keys_contents, hmap]
  · intro family
    rw [get?_contents, get?_contents, hmap]
    cases hget : (pool.map id).get? family with
    | none => rfl
    | some columns =>
      cases columns with
      | all => rfl
      | only set =>
        show some (Columns.only (later.set set)) = some (Columns.only (pool.set set))
        rw [hset family set hget]

/-! ## Growth -/

/-- A later pool that has everything the pool has, unchanged. -/
structure Grows (pool later : Pool) : Prop where
  maps : pool.maps <+: later.maps
  sets : ∀ family, pool.setsOf family <+: later.setsOf family
  filters : pool.filters <+: later.filters

namespace Grows

variable {pool later : Pool}

theorem refl (pool : Pool) : pool.Grows pool :=
  ⟨List.prefix_refl _, fun _ => List.prefix_refl _, List.prefix_refl _⟩

theorem hasMap (h : pool.Grows later) {id : MapId} (hid : pool.HasMap id) : later.HasMap id :=
  Nat.lt_of_lt_of_le hid h.maps.length_le

theorem hasSet (h : pool.Grows later) {id : SetId} (hid : pool.HasSet id) : later.HasSet id :=
  Nat.lt_of_lt_of_le hid (h.sets id.family).length_le

theorem hasFilter (h : pool.Grows later) {id : FilterId} (hid : pool.HasFilter id) :
    later.HasFilter id :=
  Nat.lt_of_lt_of_le hid h.filters.length_le

theorem map_eq (h : pool.Grows later) {id : MapId} (hid : pool.HasMap id) :
    later.map id = pool.map id := by
  rcases h.maps with ⟨rest, hrest⟩
  rw [Pool.map, ← hrest, List.getElem?_append_left hid]
  rfl

theorem set_eq (h : pool.Grows later) {id : SetId} (hid : pool.HasSet id) :
    later.set id = pool.set id := by
  rcases h.sets id.family with ⟨rest, hrest⟩
  rw [Pool.set, ← hrest, List.getElem?_append_left hid]
  rfl

theorem filter_eq (h : pool.Grows later) {id : FilterId} (hid : pool.HasFilter id) :
    later.filter id = pool.filter id := by
  rcases h.filters with ⟨rest, hrest⟩
  rw [Pool.filter, ← hrest, List.getElem?_append_left hid]
  rfl

theorem contents_eq (h : pool.Grows later) (hwf : pool.WellFormed) {id : MapId}
    (hid : pool.HasMap id) : later.contents id = pool.contents id :=
  contents_congr (h.map_eq hid) fun family set hget => h.set_eq (hwf id family set hget).2

end Grows

/-! ## Making maps and filters -/

theorem map_addMap (pool : Pool) (map : FamilyMap SetId) (id : MapId) :
    (pool.addMap map).2.map id = if id = (pool.addMap map).1 then map else pool.map id := by
  rcases id with ⟨index⟩
  simp only [Pool.map, addMap, MapId.mk.injEq]
  -- below the new number an old map, at it the new one, and beyond it nothing in either pool
  rcases Nat.lt_trichotomy index pool.maps.length with hlt | heq | hgt
  · rw [List.getElem?_append_left hlt, if_neg (Nat.ne_of_lt hlt)]
  · simp [heq]
  · have hlen : (pool.maps ++ [map]).length ≤ index := by simp; omega
    rw [List.getElem?_eq_none hlen, List.getElem?_eq_none (Nat.le_of_lt hgt),
      if_neg (Nat.ne_of_gt hgt)]

theorem grows_addMap (pool : Pool) (map : FamilyMap SetId) : pool.Grows (pool.addMap map).2 :=
  ⟨List.prefix_append _ _, fun _ => List.prefix_refl _, List.prefix_refl _⟩

theorem grows_newFilter (pool : Pool) (filter : Filter) : pool.Grows (pool.newFilter filter).2 :=
  ⟨List.prefix_refl _, fun _ => List.prefix_refl _, List.prefix_append _ _⟩

theorem setsOf_prefix_addSet (pool : Pool) (family : Bytes) (set : KeySet) (f : Bytes) :
    pool.setsOf f <+: (pool.addSet family set).setsOf f := by
  rw [addSet, setsOf_putSets]
  split
  · rename_i h
    subst h
    exact List.prefix_append _ _
  · exact List.prefix_refl _

theorem setsOf_prefix_addSets (pool : Pool) (entries : List (Bytes × Columns KeySet))
    (family : Bytes) : pool.setsOf family <+: (pool.addSets entries).setsOf family := by
  fun_induction addSets pool entries with
  | case1 => exact List.prefix_refl _
  | case2 _ _ _ ih => exact ih
  | case3 pool name set rest ih =>
    exact (pool.setsOf_prefix_addSet name set family).trans ih

@[simp] theorem filters_addSets (pool : Pool) (entries : List (Bytes × Columns KeySet)) :
    (pool.addSets entries).filters = pool.filters := by
  fun_induction addSets pool entries with
  | case1 => rfl
  | case2 _ _ _ ih => exact ih
  | case3 _ _ _ _ ih => exact ih

theorem grows_newMap (pool : Pool) (selection : Selection) :
    pool.Grows (pool.newMap selection).2 := by
  refine ⟨?_, ?_, ?_⟩
  · show pool.maps <+: (pool.addSets selection.entries).maps ++ _
    rw [maps_addSets]
    exact List.prefix_append _ _
  · intro family
    exact pool.setsOf_prefix_addSets selection.entries family
  · have hfilters : (pool.newMap selection).2.filters = pool.filters := filters_addSets _ _
    simp [hfilters]

/-- The number of a new map is one that no map had. -/
theorem not_hasMap_newMap (pool : Pool) (selection : Selection) :
    ¬ pool.HasMap (pool.newMap selection).1 := by
  show ¬ (pool.addSets selection.entries).maps.length < pool.maps.length
  rw [maps_addSets]
  exact Nat.lt_irrefl _

theorem hasMap_newMap (pool : Pool) (selection : Selection) :
    (pool.newMap selection).2.HasMap (pool.newMap selection).1 := by
  simp [HasMap, newMap, addMap]

theorem not_hasMap_shareSets (pool : Pool) (id : MapId) : ¬ pool.HasMap (pool.shareSets id).1 :=
  Nat.lt_irrefl _

theorem hasMap_shareSets (pool : Pool) (id : MapId) :
    (pool.shareSets id).2.HasMap (pool.shareSets id).1 := by
  simp [HasMap, shareSets, addMap]

theorem map_newMap (pool : Pool) (selection : Selection) (id : MapId) :
    (pool.newMap selection).2.map id =
      if id = (pool.newMap selection).1 then
        selection.mapWithKey fun family => Columns.map fun _ => pool.freshSet family
      else pool.map id := by
  have hmaps : (pool.addSets selection.entries).map id = pool.map id := by
    rw [Pool.map, maps_addSets]
    rfl
  rw [← hmaps]
  exact map_addMap _ _ _

/-- The sets of a new map are new, each made for its family. -/
theorem held_newMap {pool : Pool} {selection : Selection} {family : Bytes} {set : SetId}
    (h : ((pool.newMap selection).2.map (pool.newMap selection).1).get? family =
      some (.only set)) :
    set = pool.freshSet family ∧ (pool.newMap selection).2.HasSet set := by
  rw [map_newMap, if_pos rfl, OrderedMap.get?_mapWithKey] at h
  cases hget : OrderedMap.get? selection family with
  | none => simp [hget] at h
  | some columns =>
    cases columns with
    | all => simp [hget, Columns.map] at h
    | only keys =>
      have hset : pool.freshSet family = set := by simpa [hget, Columns.map] using h
      subst hset
      have hmem : (family, Columns.only keys) ∈ selection.entries := OrderedMap.mem_of_get? hget
      refine ⟨rfl, ?_⟩
      show (pool.setsOf family).length < ((pool.addSets selection.entries).setsOf family).length
      rw [setsOf_addSets pool selection.distinct hmem, List.length_append]
      exact Nat.lt_add_one _

/-! ## Well-formed pools -/

theorem wellFormed_initial : WellFormed {} := by
  intro id family set h
  cases h

theorem WellFormed.newMap {pool : Pool} (hwf : pool.WellFormed) (selection : Selection) :
    (pool.newMap selection).2.WellFormed := by
  intro id family set h
  by_cases hid : id = (pool.newMap selection).1
  · subst hid
    rcases held_newMap h with ⟨rfl, hset⟩
    exact ⟨rfl, hset⟩
  · rw [map_newMap, if_neg hid] at h
    exact ⟨(hwf id family set h).1, (pool.grows_newMap selection).hasSet (hwf id family set h).2⟩

theorem map_shareSets (pool : Pool) (id other : MapId) :
    (pool.shareSets id).2.map other =
      if other = (pool.shareSets id).1 then pool.map id else pool.map other :=
  map_addMap _ _ _

theorem WellFormed.shareSets {pool : Pool} (hwf : pool.WellFormed) (id : MapId) :
    (pool.shareSets id).2.WellFormed := by
  intro other family set h
  rw [map_shareSets] at h
  by_cases hid : other = (pool.shareSets id).1
  · rw [if_pos hid] at h
    exact hwf id family set h
  · rw [if_neg hid] at h
    exact hwf other family set h

theorem WellFormed.newFilter {pool : Pool} (hwf : pool.WellFormed) (filter : Filter) :
    (pool.newFilter filter).2.WellFormed :=
  hwf

theorem WellFormed.setWholeRow {pool : Pool} (hwf : pool.WellFormed) (id : FilterId) (flag : Bool) :
    (pool.setWholeRow id flag).WellFormed :=
  hwf

end Pool

end ReadPlan
