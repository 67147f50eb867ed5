import ReadPlan.Proofs.Pool.Select

/-!
# ReadPlan.Proofs.Pool.Unshared — maps that share no set

A new map shares none of its sets with another map (`Pool.unshared_newMap`). It stays so while maps
are made and one selects through any of them, as long as nobody makes another map of the same sets.
-/

namespace ReadPlan

namespace Pool

/-- No other map holds a set that the map holds. In a well-formed pool it is enough to look at the
family of the set. -/
def Unshared (pool : Pool) (id : MapId) : Prop :=
  ∀ other, other ≠ id → ∀ family set, (pool.map id).get? family = some (.only set) →
    (pool.map other).get? family ≠ some (.only set)

variable {pool later : Pool} {id : MapId}

theorem unshared_newMap (hwf : pool.WellFormed) (selection : Selection) :
    (pool.newMap selection).2.Unshared (pool.newMap selection).1 := by
  intro other hother family set hset hheld
  rcases held_newMap hset with ⟨rfl, -⟩
  rw [map_newMap, if_neg hother] at hheld
  exact pool.not_hasSet_freshSet family (hwf other family _ hheld).2

namespace Unshared

theorem newMap (h : pool.Unshared id) (hwf : pool.WellFormed) (hid : pool.HasMap id)
    (selection : Selection) : (pool.newMap selection).2.Unshared id := by
  have hold : id ≠ (pool.newMap selection).1 := by
    rintro rfl
    exact pool.not_hasMap_newMap selection hid
  intro other hother family set hset hheld
  rw [map_newMap, if_neg hold] at hset
  by_cases hnew : other = (pool.newMap selection).1
  · -- a new map holds new sets only
    subst hnew
    rcases held_newMap hheld with ⟨rfl, -⟩
    exact pool.not_hasSet_freshSet family (hwf id family _ hset).2
  · rw [map_newMap, if_neg hnew] at hheld
    exact h other hother family set hset hheld

theorem shareSets (h : pool.Unshared id) (hid : pool.HasMap id) {source : MapId}
    (hsource : source ≠ id) : (pool.shareSets source).2.Unshared id := by
  have hold : id ≠ (pool.shareSets source).1 := by
    rintro rfl
    exact pool.not_hasMap_shareSets source hid
  intro other hother family set hset hheld
  rw [map_shareSets, if_neg hold] at hset
  rw [map_shareSets] at hheld
  by_cases hnew : other = (pool.shareSets source).1
  · -- the new map holds what its source holds, and that is not this map
    rw [if_pos hnew] at hheld
    exact h source hsource family set hset hheld
  · rw [if_neg hnew] at hheld
    exact h other hother family set hset hheld

/-- A selection gives a map at most a set that is new, so it makes no two maps share one. -/
theorem select (h : pool.Unshared id) (hwf : pool.WellFormed) {target : MapId}
    (htarget : pool.HasMap target) {selector : Selector}
    (hselects : pool.Selects target selector later) : later.Unshared id := by
  intro other hother family set hset hheld
  by_cases hself : id = target
  · subst hself
    rw [hselects.map_of_ne hother] at hheld
    rcases hselects.held_self htarget hset with hold | ⟨-, rfl, -⟩
    · exact h other hother family set hold hheld
    · exact pool.not_hasSet_freshSet family (hwf other family _ hheld).2
  · rw [hselects.map_of_ne hself] at hset
    by_cases hthrough : other = target
    · subst hthrough
      rcases hselects.held_self htarget hheld with hold | ⟨-, rfl, -⟩
      · exact h other hother family set hset hold
      · exact pool.not_hasSet_freshSet family (hwf id family _ hset).2
    · rw [hselects.map_of_ne hthrough] at hheld
      exact h other hother family set hset hheld

/-- Selecting through the map shows through no other map. -/
theorem contents_of_ne (h : pool.Unshared id) (hwf : pool.WellFormed) {selector : Selector}
    (hselects : pool.Selects id selector later) {other : MapId} (hother : other ≠ id) :
    later.contents other = pool.contents other :=
  hselects.contents_of_unshared hwf hother (h other hother selector.family)

/-- Selecting through another map does not show through the map. -/
theorem contents_eq (h : pool.Unshared id) (hwf : pool.WellFormed) {target : MapId}
    {selector : Selector} (hselects : pool.Selects target selector later) (hself : id ≠ target) :
    later.contents id = pool.contents id :=
  hselects.contents_of_unshared hwf hself fun set hset hheld =>
    h target hself.symm selector.family set hheld hset

end Unshared

end Pool

end ReadPlan
