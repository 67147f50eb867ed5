import ReadPlan.Proofs.Pool.Holders
import ReadPlan.Proofs.Pool.Rebuild
import ReadPlan.Proofs.Selection.RebuiltListings

/-!
# ReadPlan.Proofs.Pool.Copies — a map is copied entry by entry, in any order

To copy a map one goes through it and selects, in a new map, what each entry holds: its qualifiers, in
whatever order the set gives them (`Enumerator`), or the family as a whole. While this goes on the
source is read through the pool that the copy is written to (`Pool.copyMap`). Whatever the order, it
comes to a new map of the rebuilt contents (`Pool.copyMap_eq`).

By value the copy is the source with a whole family in place of each empty set
(`Selection.Normalizes`), and it shares nothing with it (`Pool.DeepCopy`).
-/

namespace ReadPlan

/-! ## Copies by value -/

namespace Selection

/-- The copy names the families of the source in their order, as a whole where the source has no
columns or all of them. -/
structure Normalizes (source copy : Selection) : Prop where
  keys : copy.keys = source.keys
  all_iff : ∀ family, copy.get? family = some .all ↔
    source.get? family = some .all ∨ source.get? family = some (.only ∅)
  only_iff : ∀ family set, copy.get? family = some (.only set) ↔
    source.get? family = some (.only set) ∧ set ≠ ∅

theorem Normalizes.get?_ne_empty {source copy : Selection} (h : Normalizes source copy)
    (family : Bytes) : copy.get? family ≠ some (.only ∅) := by
  intro hempty
  exact ((h.only_iff family ∅).1 hempty).2 rfl

theorem normalizes_rebuild (selection : Selection) : Normalizes selection selection.rebuild := by
  have hget : ∀ family, selection.rebuild.get? family =
      (selection.get? family).map Columns.rebuilt := by
    intro family
    rw [rebuild_eq, OrderedMap.get?_mapValues]
  refine ⟨?_, ?_, ?_⟩
  · rw [rebuild_eq, OrderedMap.keys_mapValues]
  · intro family
    rw [hget]
    cases selection.get? family with
    | none => simp
    | some columns => simp [Columns.rebuilt_eq_all_iff]
  · intro family set
    rw [hget]
    cases selection.get? family with
    | none => simp
    | some columns => simp [Columns.rebuilt_eq_only_iff]

end Selection

namespace Pool

variable {pool : Pool} {source : MapId}

/-! ## The loop -/

/-- Copies an entry of a map into another map. The set of the entry is read as it is then. -/
def copyEntry (enumerator : Enumerator) (target : MapId) (pool : Pool)
    (entry : Bytes × Columns SetId) : Pool :=
  pool.selectAll target (enumerator.selectors entry.1 (entry.2.map pool.set))

/-- Copies a map entry by entry into a new one. -/
def copyMap (pool : Pool) (source : MapId) (enumerator : Enumerator) : MapId × Pool :=
  let (target, started) := pool.newMap ∅
  (target, (started.map source).entries.foldl (copyEntry enumerator target) started)

/-- The map is in the pool, with all the sets that it holds. -/
structure HasWhole (pool : Pool) (id : MapId) : Prop where
  map : pool.HasMap id
  sets : ∀ set, pool.Holds id set → pool.HasSet set

theorem WellFormed.hasWhole (hwf : pool.WellFormed) {id : MapId} (hid : pool.HasMap id) :
    pool.HasWhole id :=
  ⟨hid, fun _ hholds => hholds.hasSet hwf⟩

theorem hasWhole_newMap (pool : Pool) (selection : Selection) :
    (pool.newMap selection).2.HasWhole (pool.newMap selection).1 := by
  refine ⟨pool.hasMap_newMap selection, ?_⟩
  intro set hholds
  obtain ⟨family, hset⟩ := hholds
  exact (held_newMap hset).2

/-- One entry: a set that was there before the copy is read unchanged, and the copy gains the entry. -/
theorem copyEntry_newMap (enumerator : Enumerator) {selection : Selection}
    {entry : Bytes × Columns SetId} (hnew : entry.1 ∉ OrderedMap.keys selection)
    (hsets : ∀ set, entry.2 = .only set → pool.HasSet set) :
    (pool.newMap selection).2.copyEntry enumerator ⟨pool.maps.length⟩ entry =
      (pool.newMap (OrderedMap.put selection entry.1 (entry.2.map pool.set).rebuilt)).2 := by
  have hread : entry.2.map (pool.newMap selection).2.set = entry.2.map pool.set := by
    cases hcolumns : entry.2 with
    | all => rfl
    | only set =>
      have hset := (pool.grows_newMap selection).set_eq (hsets set hcolumns)
      exact congrArg Columns.only hset
  rw [copyEntry, hread, selectAll_newMap_selectors pool hnew]

/-- All entries, by induction on those left: the copy so far is a new map, so that the next entry is a
step from there. -/
theorem foldl_copyEntry_newMap (enumerator : Enumerator) (selection : Selection)
    (entries : List (Bytes × Columns SetId)) (hdistinct : (entries.map Prod.fst).Nodup)
    (hnew : ∀ entry ∈ entries, entry.1 ∉ OrderedMap.keys selection)
    (hsets : ∀ entry ∈ entries, ∀ set, entry.2 = .only set → pool.HasSet set) :
    entries.foldl (copyEntry enumerator ⟨pool.maps.length⟩) (pool.newMap selection).2 =
      (pool.newMap (entries.foldl (fun map entry =>
        OrderedMap.put map entry.1 (entry.2.map pool.set).rebuilt) selection)).2 := by
  induction entries generalizing selection with
  | nil => rfl
  | cons entry rest ih =>
    rw [List.map_cons, List.nodup_cons] at hdistinct
    have hentry := hnew entry List.mem_cons_self
    have hstep := copyEntry_newMap enumerator hentry (hsets entry List.mem_cons_self)
    rw [List.foldl_cons, List.foldl_cons, hstep]
    have hrest : ∀ other ∈ rest, other.1 ∉ OrderedMap.keys selection :=
      fun other hmem => hnew other (List.mem_cons_of_mem _ hmem)
    exact ih _ hdistinct.2 (OrderedMap.forall_not_mem_keys_put hdistinct.1 hrest _)
      fun other hmem => hsets other (List.mem_cons_of_mem _ hmem)

/-- **In whatever order the sets are gone through, a copy is a new map of the rebuilt contents.** -/
theorem copyMap_eq (hsource : pool.HasWhole source) (enumerator : Enumerator) :
    pool.copyMap source enumerator = pool.newMap (pool.contents source).rebuild := by
  have hmap : (pool.newMap ∅).2.map source = pool.map source :=
    (pool.grows_newMap ∅).map_eq hsource.map
  have hsets : ∀ entry ∈ (pool.map source).entries, ∀ set, entry.2 = .only set →
      pool.HasSet set := by
    intro entry hmem set hset
    have hget : (pool.map source).get? entry.1 = some (.only set) := by
      apply OrderedMap.get?_of_mem
      rw [← hset]
      exact hmem
    exact hsource.sets set ⟨entry.1, hget⟩
  have hfold := foldl_copyEntry_newMap enumerator ∅ (pool.map source).entries
    (pool.map source).distinct (fun _ _ => List.not_mem_nil) hsets
  -- putting the rebuilt entries into an empty selection makes the rebuilt selection
  have hrebuild : (pool.map source).entries.foldl (fun map entry =>
      OrderedMap.put map entry.1 (entry.2.map pool.set).rebuilt) ∅ =
        (pool.contents source).rebuild := by
    have hlist := OrderedMap.ofList_entries ((pool.contents source).mapValues Columns.rebuilt)
    rw [Selection.rebuild_eq, ← hlist]
    simp only [OrderedMap.ofList, contents, OrderedMap.mapValues, OrderedMap.mapWithKey,
      List.foldl_map]
    rfl
  apply Prod.ext
  · show (pool.newMap ∅).1 = _
    rw [newMap_fst, newMap_fst]
  · show ((pool.newMap ∅).2.map source).entries.foldl
      (copyEntry enumerator (pool.newMap ∅).1) (pool.newMap ∅).2 = _
    rw [hmap, newMap_fst, hfold, hrebuild]

/-! ## What a copy shares -/

/-- The copy is a new map in a pool that has the rest unchanged. Its sets are new, each stands in one
of its entries only, and the source holds none of them. -/
structure DeepCopy (pool : Pool) (source : MapId) (later : Pool) (copy : MapId) : Prop where
  grows : pool.Grows later
  map_eq : later.map source = pool.map source
  contents_eq : later.contents source = pool.contents source
  new_map : ¬ pool.HasMap copy ∧ later.HasMap copy
  new_sets : ∀ set, later.Holds copy set → ¬ pool.HasSet set ∧ later.HasSet set
  unshared : ∀ set, later.Holds copy set → ¬ later.Holds source set
  once : ∀ family family' set, (later.map copy).get? family = some (.only set) →
    (later.map copy).get? family' = some (.only set) → family = family'

/-- A new map is a deep copy of any other: it shares nothing. -/
theorem deepCopy_newMap (hsource : pool.HasWhole source) (selection : Selection) :
    pool.DeepCopy source (pool.newMap selection).2 (pool.newMap selection).1 := by
  have hgrows := pool.grows_newMap selection
  have hmap := hgrows.map_eq hsource.map
  have hnew : ∀ set, (pool.newMap selection).2.Holds (pool.newMap selection).1 set →
      ¬ pool.HasSet set ∧ (pool.newMap selection).2.HasSet set := by
    intro set hholds
    obtain ⟨family, hset⟩ := hholds
    obtain ⟨rfl, hhas⟩ := held_newMap hset
    exact ⟨pool.not_hasSet_freshSet family, hhas⟩
  refine ⟨hgrows, hmap, ?_, ⟨pool.not_hasMap_newMap selection, pool.hasMap_newMap selection⟩,
    hnew, ?_, ?_⟩
  · refine contents_congr hmap fun family set hset => ?_
    exact hgrows.set_eq (hsource.sets set ⟨family, hset⟩)
  · intro set hholds hsourceHolds
    obtain ⟨family, hset⟩ := hsourceHolds
    rw [hmap] at hset
    exact (hnew set hholds).1 (hsource.sets set ⟨family, hset⟩)
  · -- each set is the next one of its family
    intro family family' set hset hset'
    obtain ⟨rfl, -⟩ := held_newMap hset
    exact congrArg SetId.family (held_newMap hset').1

/-- What copying a map makes. -/
theorem made_by_copyMap (hsource : pool.HasWhole source) {enumerator : Enumerator} {copy : MapId}
    {later : Pool} (hcopy : pool.copyMap source enumerator = (copy, later)) :
    later.contents copy = (pool.contents source).rebuild ∧ pool.DeepCopy source later copy ∧
      later.HasWhole copy := by
  rw [copyMap_eq hsource] at hcopy
  have hnew : (pool.newMap (pool.contents source).rebuild).1 = copy := congrArg Prod.fst hcopy
  have hlater : (pool.newMap (pool.contents source).rebuild).2 = later := congrArg Prod.snd hcopy
  rw [← hnew, ← hlater]
  exact ⟨pool.contents_newMap _, deepCopy_newMap hsource _, pool.hasWhole_newMap _⟩

end Pool

end ReadPlan
