import ReadPlan.Proofs.Pool.Growth
import ReadPlan.Proofs.Selection.Rebuild

/-!
# ReadPlan.Proofs.Pool.Select — who sees a selection

A selection through a map does one of three things (`Pool.Selects`): it replaces an entry of the
map, it adds to the set that the map holds, or it gives the map a new set. On the contents of that
map all three come to what the selector does by value (`Selects.contents_self`). Another map notices
only if it holds the very set that is added to (`Selects.contents_of_unshared`).
-/

namespace ReadPlan

namespace Pool

/-- What selecting through a map makes of a pool. -/
inductive Selects (pool : Pool) (id : MapId) : Selector → Pool → Prop where
  | whole (family : Bytes) :
    Selects pool id (.wholeFamily family)
      (pool.setMap id (FamilyMap.selectWhole (pool.map id) family))
  | held {family : Bytes} {set : SetId} (qualifier? : Option Bytes)
    (hheld : (pool.map id).get? family = some (.only set)) :
    Selects pool id (.column family qualifier?) (pool.addQualifier set qualifier?)
  | new {family : Bytes} (qualifier? : Option Bytes)
    (hnone : ∀ set, (pool.map id).get? family ≠ some (.only set)) :
    Selects pool id (.column family qualifier?)
      ((pool.addSet family (KeySet.insert? ∅ qualifier?)).setMap id
        ((pool.map id).put family (.only (pool.freshSet family))))

theorem select_of_held {pool : Pool} {id : MapId} {family : Bytes} {set : SetId}
    (hheld : (pool.map id).get? family = some (.only set)) (qualifier? : Option Bytes) :
    pool.select id (.column family qualifier?) = pool.addQualifier set qualifier? := by
  rw [select, hheld]

theorem select_of_not_held {pool : Pool} {id : MapId} {family : Bytes}
    (hnone : ∀ set, (pool.map id).get? family ≠ some (.only set)) (qualifier? : Option Bytes) :
    pool.select id (.column family qualifier?) =
      (pool.addSet family (KeySet.insert? ∅ qualifier?)).setMap id
        ((pool.map id).put family (.only (pool.freshSet family))) := by
  rw [select]
  split
  · rename_i set hheld
    exact absurd hheld (hnone set)
  · rfl

theorem selects (pool : Pool) (id : MapId) (selector : Selector) :
    pool.Selects id selector (pool.select id selector) := by
  cases selector with
  | wholeFamily family => exact .whole family
  | column family qualifier? =>
    by_cases hheld : ∃ set, (pool.map id).get? family = some (.only set)
    · rcases hheld with ⟨set, hheld⟩
      rw [select_of_held hheld]
      exact .held qualifier? hheld
    · have hnone : ∀ set, (pool.map id).get? family ≠ some (.only set) := by
        intro set hset
        exact hheld ⟨set, hset⟩
      rw [select_of_not_held hnone]
      exact .new qualifier? hnone

/-! ## What the parts of a selection touch -/

theorem set_setMap (pool : Pool) (id : MapId) (map : FamilyMap SetId) :
    (pool.setMap id map).set = pool.set :=
  rfl

theorem map_addQualifier (pool : Pool) (id : SetId) (qualifier? : Option Bytes) :
    (pool.addQualifier id qualifier?).map = pool.map :=
  rfl

theorem map_addSet (pool : Pool) (family : Bytes) (set : KeySet) :
    (pool.addSet family set).map = pool.map :=
  rfl

theorem length_setsOf_addQualifier (pool : Pool) (id : SetId) (qualifier? : Option Bytes)
    (family : Bytes) :
    ((pool.addQualifier id qualifier?).setsOf family).length = (pool.setsOf family).length := by
  rw [addQualifier, setsOf_putSets]
  by_cases h : family = id.family
  · rw [if_pos h, List.length_modify, h]
  · rw [if_neg h]

theorem hasSet_addSet_freshSet (pool : Pool) (family : Bytes) (set : KeySet) :
    (pool.addSet family set).HasSet (pool.freshSet family) := by
  simp only [HasSet, freshSet, addSet, setsOf_putSets, if_pos, List.length_append]
  exact Nat.lt_add_one _

/-- A set that is there is not the one that is added. -/
theorem set_addSet_of_hasSet {pool : Pool} {id : SetId} (h : pool.HasSet id) (family : Bytes)
    (added : KeySet) : (pool.addSet family added).set id = pool.set id := by
  rw [set_addSet, if_neg]
  rintro rfl
  exact pool.not_hasSet_freshSet family h

/-! ## Contents, case by case -/

/-- A whole family replaces the entry of the map. -/
theorem get?_contents_whole {pool : Pool} {id : MapId} (hid : pool.HasMap id)
    (family f : Bytes) :
    ((pool.setMap id (FamilyMap.selectWhole (pool.map id) family)).contents id).get? f =
      if f = family then some .all else (pool.contents id).get? f := by
  rw [get?_contents, get?_contents, map_setMap, if_pos ⟨rfl, hid⟩, FamilyMap.selectWhole,
    OrderedMap.get?_put, OrderedMap.get?_erase]
  by_cases h : f = family
  · rw [if_pos h, if_pos h]
    rfl
  · rw [if_neg h, if_neg h, if_neg h]
    rfl

/-- What is added to a set shows in the entries that hold the set, and in no other. -/
theorem get?_contents_held {pool : Pool} (hwf : pool.WellFormed) {id : MapId} {family : Bytes}
    {set : SetId} (hheld : (pool.map id).get? family = some (.only set))
    (qualifier? : Option Bytes) (other : MapId) (f : Bytes) :
    ((pool.addQualifier set qualifier?).contents other).get? f =
      if (pool.map other).get? f = some (.only set) then
        some (.only ((pool.set set).insert? qualifier?))
      else (pool.contents other).get? f := by
  rw [get?_contents, get?_contents, map_addQualifier]
  have hset := fun held => set_addQualifier pool set held qualifier? (hwf id family set hheld).2
  cases hget : (pool.map other).get? f with
  | none => rfl
  | some columns =>
    cases columns with
    | all => rfl
    | only held =>
      simp only [Option.map_some, Columns.map, hset, Option.some.injEq, Columns.only.injEq]
      by_cases h : held = set
      · rw [if_pos h, if_pos h, h]
      · rw [if_neg h, if_neg h]

/-- A new set stands in the one entry that it was made for. -/
theorem get?_contents_new {pool : Pool} (hwf : pool.WellFormed) {id : MapId} (hid : pool.HasMap id)
    (family : Bytes) (added : KeySet) (f : Bytes) :
    (((pool.addSet family added).setMap id
        ((pool.map id).put family (.only (pool.freshSet family)))).contents id).get? f =
      if f = family then some (.only added) else (pool.contents id).get? f := by
  rw [get?_contents, get?_contents, map_setMap, if_pos ⟨rfl, hid⟩, OrderedMap.get?_put, set_setMap]
  by_cases h : f = family
  · rw [if_pos h, if_pos h]
    show some (Columns.only ((pool.addSet family added).set (pool.freshSet family))) = _
    rw [set_addSet, if_pos rfl]
  · rw [if_neg h, if_neg h]
    cases hget : (pool.map id).get? f with
    | none => rfl
    | some columns =>
      cases columns with
      | all => rfl
      | only set =>
        show some (Columns.only ((pool.addSet family added).set set)) = some (.only (pool.set set))
        rw [set_addSet_of_hasSet (hwf id f set hget).2]

namespace Selects

variable {pool later : Pool} {id other : MapId} {selector : Selector}

theorem filters_eq (h : pool.Selects id selector later) : later.filters = pool.filters := by
  cases h <;> rfl

theorem length_maps (h : pool.Selects id selector later) :
    later.maps.length = pool.maps.length := by
  cases h with
  | held => rfl
  | whole => exact List.length_set
  | new => exact List.length_set

theorem hasMap_iff (h : pool.Selects id selector later) :
    later.HasMap other ↔ pool.HasMap other := by
  unfold HasMap
  rw [h.length_maps]

theorem filter_eq (h : pool.Selects id selector later) : later.filter = pool.filter := by
  cases h <;> rfl

theorem hasFilter_iff (h : pool.Selects id selector later) {filter : FilterId} :
    later.HasFilter filter ↔ pool.HasFilter filter := by
  unfold HasFilter
  rw [h.filters_eq]

theorem hasSet (h : pool.Selects id selector later) {set : SetId} (hset : pool.HasSet set) :
    later.HasSet set := by
  cases h with
  | whole => exact hset
  | held qualifier? hheld =>
    unfold HasSet
    rw [length_setsOf_addQualifier]
    exact hset
  | @new family qualifier? hnone =>
    exact Nat.lt_of_lt_of_le hset (pool.setsOf_prefix_addSet family _ set.family).length_le

/-- Only the entries of the map itself are ever replaced. -/
theorem map_of_ne (h : pool.Selects id selector later) (hne : other ≠ id) :
    later.map other = pool.map other := by
  cases h with
  | held => rfl
  | whole =>
    rw [map_setMap, if_neg]
    exact fun heq => hne heq.1
  | new =>
    rw [map_setMap, if_neg, map_addSet]
    exact fun heq => hne heq.1

/-- After a selection the map holds, family by family, a set that it held or a new one. -/
theorem held_self (h : pool.Selects id selector later) (hid : pool.HasMap id) {family : Bytes}
    {set : SetId} (hset : (later.map id).get? family = some (.only set)) :
    (pool.map id).get? family = some (.only set) ∨
      family = selector.family ∧ set = pool.freshSet family ∧ later.HasSet set := by
  cases h with
  | held => exact Or.inl hset
  | whole name =>
    rw [map_setMap, if_pos ⟨rfl, hid⟩, FamilyMap.selectWhole, OrderedMap.get?_put,
      OrderedMap.get?_erase] at hset
    by_cases hname : family = name
    · simp [hname] at hset
    · rw [if_neg hname, if_neg hname] at hset
      exact Or.inl hset
  | @new name qualifier? hnone =>
    rw [map_setMap, if_pos ⟨rfl, hid⟩, OrderedMap.get?_put] at hset
    by_cases hname : family = name
    · rw [if_pos hname] at hset
      cases hset
      subst hname
      exact Or.inr ⟨rfl, rfl, pool.hasSet_addSet_freshSet family _⟩
    · rw [if_neg hname] at hset
      exact Or.inl hset

theorem wellFormed (h : pool.Selects id selector later) (hwf : pool.WellFormed)
    (hid : pool.HasMap id) : later.WellFormed := by
  intro other family set hset
  by_cases hother : other = id
  · subst hother
    -- what the map holds now it held before, or it is the new set of the family
    rcases h.held_self hid hset with hold | ⟨-, rfl, hnew⟩
    · exact ⟨(hwf other family set hold).1, h.hasSet (hwf other family set hold).2⟩
    · exact ⟨rfl, hnew⟩
  · rw [h.map_of_ne hother] at hset
    exact ⟨(hwf other family set hset).1, h.hasSet (hwf other family set hset).2⟩

/-- A map that does not hold the set which is added to selects what it selected. -/
theorem contents_of_unshared (h : pool.Selects id selector later) (hwf : pool.WellFormed)
    (hne : other ≠ id)
    (hunshared : ∀ set, (pool.map id).get? selector.family = some (.only set) →
      (pool.map other).get? selector.family ≠ some (.only set)) :
    later.contents other = pool.contents other := by
  apply contents_congr (h.map_of_ne hne)
  intro family set hset
  cases h with
  | whole => rfl
  | @held name target qualifier? hheld =>
    rw [set_addQualifier _ _ _ _ (hwf id name target hheld).2, if_neg]
    -- the set stands under its own family only, and there the other map holds another one
    rintro rfl
    have hfamily : family = name :=
      (hwf other family set hset).1.symm.trans (hwf id name set hheld).1
    exact hunshared set hheld (hfamily ▸ hset)
  | new =>
    rw [set_setMap]
    exact set_addSet_of_hasSet (hwf other family set hset).2 _ _

/-- The map itself selects what the selector makes of its contents. -/
theorem contents_self (h : pool.Selects id selector later) (hwf : pool.WellFormed)
    (hid : pool.HasMap id) : later.contents id = (pool.contents id).select selector := by
  apply OrderedMap.ext_get?
  · rw [keys_contents, Selection.keys_select, keys_contents]
    cases h with
    | whole family => rw [map_setMap, if_pos ⟨rfl, hid⟩, Selection.keys_selectWhole]
    | @held family set qualifier? hheld =>
      have hmem : family ∈ (pool.map id).keys := by
        rw [OrderedMap.mem_keys_iff, hheld]
        rfl
      rw [map_addQualifier]
      simp only [hmem, if_true]
    | @new family qualifier? hnone =>
      rw [map_setMap, if_pos ⟨rfl, hid⟩, OrderedMap.keys_put]
      by_cases hmem : family ∈ (pool.map id).keys <;> simp only [hmem, if_true, if_false]
  · intro family
    rw [Selection.get?_select]
    cases h with
    | whole name => exact get?_contents_whole hid name family
    | @held name set qualifier? hheld =>
      have hname : (pool.contents id).get? name = some (.only (pool.set set)) := by
        rw [get?_contents, hheld]
        rfl
      rw [get?_contents_held hwf hheld]
      show _ = if family = name then _ else _
      -- the set was made for the named family, so no other entry of the map is this set
      by_cases hfamily : family = name
      · rw [hfamily, if_pos hheld, if_pos rfl]
        show _ = some (Selection.columnsAfter ((pool.contents id).get? name) _)
        rw [hname]
        rfl
      · rw [if_neg hfamily, if_neg]
        intro hset
        exact hfamily ((hwf id family set hset).1.symm.trans (hwf id name set hheld).1)
    | @new name qualifier? hnone =>
      rw [get?_contents_new hwf hid]
      show _ = if family = name then _ else _
      -- without a set of its own the family starts from the empty one
      have hempty : Columns.setOrEmpty ((pool.contents id).get? name) = ∅ := by
        rw [get?_contents]
        cases hget : (pool.map id).get? name with
        | none => rfl
        | some columns =>
          cases columns with
          | all => rfl
          | only set => exact absurd hget (hnone set)
      by_cases hfamily : family = name
      · rw [if_pos hfamily, if_pos hfamily]
        show _ = some (Columns.only ((Columns.setOrEmpty _).insert? qualifier?))
        rw [← hempty]
        rfl
      · rw [if_neg hfamily, if_neg hfamily]

end Selects

end Pool

end ReadPlan
