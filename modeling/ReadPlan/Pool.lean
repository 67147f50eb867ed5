import ReadPlan.Filter
import ReadPlan.Selection.Basic

/-!
# ReadPlan.Pool — families and filters that requests share

Several requests may hold the same family map, several maps may hold the same set of qualifiers,
and several requests may hold the same filter; a change made through one is seen through all. The
pool has one cell for each such thing, in the order of their making. A set is numbered within the
family it was made for, so making a set for one family never renumbers those of another.

`contents` reads a map with its sets as a selection by value. Reading under a number that was never
given out yields the empty thing.
-/

namespace ReadPlan

/-- A family map in the pool. -/
structure MapId where
  index : Nat
deriving DecidableEq, Repr

/-- A set of qualifiers in the pool: the family it was made for and its number there. -/
structure SetId where
  family : Bytes
  serial : Nat
deriving DecidableEq, Repr

/-- A filter in the pool. -/
structure FilterId where
  index : Nat
deriving DecidableEq, Repr

/-- The shared things: family maps, the sets made for each family, and filters. -/
structure Pool where
  maps : List (FamilyMap SetId) := []
  sets : OrderedMap Bytes (List KeySet) := ∅
  filters : List Filter := []
deriving DecidableEq, Repr

namespace Pool

/-! ## Reading -/

/-- A family map. -/
def map (pool : Pool) (id : MapId) : FamilyMap SetId :=
  pool.maps[id.index]?.getD ∅

/-- The sets made for a family, oldest first. -/
def setsOf (pool : Pool) (family : Bytes) : List KeySet :=
  (pool.sets.get? family).getD []

/-- A set of qualifiers. -/
def set (pool : Pool) (id : SetId) : KeySet :=
  (pool.setsOf id.family)[id.serial]?.getD ∅

/-- A filter. -/
def filter (pool : Pool) (id : FilterId) : Filter :=
  pool.filters[id.index]?.getD { name := "" }

/-- What a family map selects, by value. -/
def contents (pool : Pool) (id : MapId) : Selection :=
  (pool.map id).mapValues (Columns.map pool.set)

/-! ## Making -/

/-- Adds a filter. -/
def newFilter (pool : Pool) (filter : Filter) : FilterId × Pool :=
  (⟨pool.filters.length⟩, { pool with filters := pool.filters ++ [filter] })

/-- Adds a map. -/
def addMap (pool : Pool) (map : FamilyMap SetId) : MapId × Pool :=
  (⟨pool.maps.length⟩, { pool with maps := pool.maps ++ [map] })

/-- The number that the next set of a family gets. -/
def freshSet (pool : Pool) (family : Bytes) : SetId :=
  ⟨family, (pool.setsOf family).length⟩

/-- Replaces the sets of a family. -/
def putSets (pool : Pool) (family : Bytes) (sets : List KeySet) : Pool :=
  { pool with sets := pool.sets.put family sets }

/-- Adds a set to those of a family. -/
def addSet (pool : Pool) (family : Bytes) (set : KeySet) : Pool :=
  pool.putSets family (pool.setsOf family ++ [set])

/-- Adds the sets of a selection, each to those of its family. -/
def addSets (pool : Pool) : List (Bytes × Columns KeySet) → Pool
  | [] => pool
  | (_, .all) :: rest => pool.addSets rest
  | (family, .only set) :: rest => (pool.addSet family set).addSets rest

/-- Adds a map that selects what is given and shares nothing: each of its sets is new. -/
def newMap (pool : Pool) (selection : Selection) : MapId × Pool :=
  (pool.addSets selection.entries).addMap <|
    selection.mapWithKey fun family => Columns.map fun _ => pool.freshSet family

/-- Adds a map that holds the same sets as another. -/
def shareSets (pool : Pool) (id : MapId) : MapId × Pool :=
  pool.addMap (pool.map id)

/-! ## Changing -/

/-- Replaces a map. -/
def setMap (pool : Pool) (id : MapId) (map : FamilyMap SetId) : Pool :=
  { pool with maps := pool.maps.set id.index map }

/-- Adds a qualifier to a set, if there is one. -/
def addQualifier (pool : Pool) (id : SetId) (qualifier? : Option Bytes) : Pool :=
  pool.putSets id.family <|
    (pool.setsOf id.family).modify id.serial fun set => set.insert? qualifier?

/-- Selects through a map. A whole family replaces the entry of this map alone. A column goes
into the set that the map holds, which other maps may hold too; where it holds none, into a new
set that only this map holds. -/
def select (pool : Pool) (id : MapId) : Selector → Pool
  | .wholeFamily family => pool.setMap id (FamilyMap.selectWhole (pool.map id) family)
  | .column family qualifier? =>
    match (pool.map id).get? family with
    | some (.only set) => pool.addQualifier set qualifier?
    | _ =>
      (pool.addSet family (KeySet.insert? ∅ qualifier?)).setMap id
        ((pool.map id).put family (.only (pool.freshSet family)))

/-- Sets the flag of a filter. -/
def setWholeRow (pool : Pool) (id : FilterId) (flag : Bool) : Pool :=
  { pool with filters := pool.filters.modify id.index fun filter => filter.setWholeRow flag }

/-! ## Lemmas -/

theorem map_setMap (pool : Pool) (id other : MapId) (map : FamilyMap SetId) :
    (pool.setMap id map).map other =
      if other = id ∧ id.index < pool.maps.length then map else pool.map other := by
  unfold Pool.map setMap
  by_cases h : other = id
  · subst h
    by_cases hlt : other.index < pool.maps.length <;> simp [hlt]
  · have hne : id.index ≠ other.index := fun heq => h (by cases id; cases other; simp_all)
    simp [h, hne]

theorem setsOf_putSets (pool : Pool) (family : Bytes) (sets : List KeySet) (f : Bytes) :
    (pool.putSets family sets).setsOf f = if f = family then sets else pool.setsOf f := by
  simp only [setsOf, putSets, OrderedMap.get?_put]
  split <;> rfl

theorem set_addSet (pool : Pool) (family : Bytes) (added : KeySet) (id : SetId) :
    (pool.addSet family added).set id =
      if id = pool.freshSet family then added else pool.set id := by
  obtain ⟨f, n⟩ := id
  simp only [Pool.set, addSet, freshSet, setsOf_putSets, SetId.mk.injEq]
  by_cases h : f = family
  · subst h
    rcases Nat.lt_trichotomy n (pool.setsOf f).length with hn | hn | hn
    · simp [List.getElem?_append_left hn, Nat.ne_of_lt hn]
    · simp [hn]
    · have hlen : (pool.setsOf f ++ [added]).length ≤ n := by simp; omega
      simp [List.getElem?_eq_none hlen, List.getElem?_eq_none (Nat.le_of_lt hn),
        Nat.ne_of_gt hn]
  · simp [h]

theorem set_addQualifier (pool : Pool) (id other : SetId) (qualifier? : Option Bytes)
    (h : id.serial < (pool.setsOf id.family).length) :
    (pool.addQualifier id qualifier?).set other =
      if other = id then (pool.set other).insert? qualifier? else pool.set other := by
  obtain ⟨f, n⟩ := id
  obtain ⟨g, m⟩ := other
  simp only [Pool.set, addQualifier, setsOf_putSets, SetId.mk.injEq]
  by_cases hg : g = f
  · subst hg
    by_cases hm : m = n
    · subst hm
      simp [List.getElem?_eq_getElem h]
    · have hne : n ≠ m := fun heq => hm heq.symm
      simp [hm, hne]
  · simp [hg]

@[simp] theorem maps_addSets (pool : Pool) (entries : List (Bytes × Columns KeySet)) :
    (pool.addSets entries).maps = pool.maps := by
  fun_induction addSets pool entries with
  | case1 => rfl
  | case2 _ _ _ ih => exact ih
  | case3 _ _ _ _ ih => exact ih

theorem setsOf_addSets_of_not_mem (pool : Pool) {entries : List (Bytes × Columns KeySet)}
    {family : Bytes} (h : family ∉ entries.map Prod.fst) :
    (pool.addSets entries).setsOf family = pool.setsOf family := by
  fun_induction addSets pool entries with
  | case1 => rfl
  | case2 _ _ _ ih => exact ih fun hmem => h (List.mem_cons_of_mem _ hmem)
  | case3 pool name set rest ih =>
    rw [ih fun hmem => h (List.mem_cons_of_mem _ hmem), addSet, setsOf_putSets, if_neg]
    rintro rfl
    exact h List.mem_cons_self

/-- Adding the sets of distinct families adds one set for each family that has one. -/
theorem setsOf_addSets (pool : Pool) {entries : List (Bytes × Columns KeySet)}
    (hnodup : (entries.map Prod.fst).Nodup) {family : Bytes} {set : KeySet}
    (h : (family, .only set) ∈ entries) :
    (pool.addSets entries).setsOf family = pool.setsOf family ++ [set] := by
  fun_induction addSets pool entries with
  | case1 => exact absurd h List.not_mem_nil
  | case2 pool name rest ih =>
    rw [List.map_cons, List.nodup_cons] at hnodup
    rcases List.mem_cons.1 h with heq | hmem
    · cases heq
    · exact ih hnodup.2 hmem
  | case3 pool name added rest ih =>
    rw [List.map_cons, List.nodup_cons] at hnodup
    rcases List.mem_cons.1 h with heq | hmem
    · cases heq
      rw [setsOf_addSets_of_not_mem _ hnodup.1, addSet, setsOf_putSets, if_pos rfl]
    · have hne : family ≠ name := by
        rintro rfl
        exact hnodup.1 (List.mem_map.2 ⟨_, hmem, rfl⟩)
      rw [ih hnodup.2 hmem, addSet, setsOf_putSets, if_neg hne]

/-- A map made from a selection selects just that. -/
theorem contents_newMap (pool : Pool) (selection : Selection) :
    (pool.newMap selection).2.contents (pool.newMap selection).1 = selection := by
  refine OrderedMap.ext_entries ?_
  simp only [contents, newMap, addMap, Pool.map, OrderedMap.mapValues, OrderedMap.mapWithKey,
    List.getElem?_concat_length, Option.getD_some, List.map_map]
  refine (List.map_congr_left fun entry hmem => ?_).trans (List.map_id _)
  obtain ⟨family, columns⟩ := entry
  cases columns with
  | all => rfl
  | only set =>
    have hsets := pool.setsOf_addSets selection.distinct hmem
    have hread : ∀ p : Pool, p.sets = (pool.addSets selection.entries).sets →
        p.set (pool.freshSet family) = set := by
      intro p hp
      have hp' : p.setsOf family = (pool.addSets selection.entries).setsOf family := by
        simp only [setsOf, hp]
      simp [Pool.set, freshSet, hp', hsets]
    exact congrArg (fun s => (family, Columns.only s)) (hread _ rfl)

end Pool

end ReadPlan
