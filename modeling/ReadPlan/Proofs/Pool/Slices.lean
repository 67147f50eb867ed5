import ReadPlan.Proofs.Pool.Select

/-!
# ReadPlan.Proofs.Pool.Slices — a selection stays within its family

A selection through a map reads and writes a slice of the pool: what the map holds for the family of
the selector, and the sets that were made for that family (`Selector.slice`). Selections of
different families therefore commute, whichever maps they go through and whatever these share, up to
the order of the families in a map (`Pool.select_comm`).
-/

namespace ReadPlan

/-- What a selector makes of the entry for its family and of the sets made for the family. -/
def Selector.slice (columns? : Option (Columns SetId)) (sets : List KeySet) :
    Selector → Columns SetId × List KeySet
  | .wholeFamily _ => (.all, sets)
  | .column family qualifier? =>
    match columns? with
    | some (.only set) => (.only set, sets.modify set.serial fun keys => keys.insert? qualifier?)
    | _ => (.only ⟨family, sets.length⟩, sets ++ [KeySet.insert? ∅ qualifier?])

namespace Pool

variable {pool later : Pool} {id : MapId} {selector : Selector}

/-- What a selector makes of its slice of the pool. -/
def slice (pool : Pool) (id : MapId) (selector : Selector) : Columns SetId × List KeySet :=
  selector.slice ((pool.map id).get? selector.family) (pool.setsOf selector.family)

theorem slice_of_held {family : Bytes} {set : SetId}
    (hheld : (pool.map id).get? family = some (.only set)) (qualifier? : Option Bytes) :
    pool.slice id (.column family qualifier?) =
      (.only set, (pool.setsOf family).modify set.serial fun keys => keys.insert? qualifier?) := by
  show Selector.slice ((pool.map id).get? family) _ _ = _
  rw [hheld]
  rfl

theorem slice_of_not_held {family : Bytes}
    (hnone : ∀ set, (pool.map id).get? family ≠ some (.only set)) (qualifier? : Option Bytes) :
    pool.slice id (.column family qualifier?) =
      (.only (pool.freshSet family), pool.setsOf family ++ [KeySet.insert? ∅ qualifier?]) := by
  simp only [slice, Selector.family, Selector.slice]
  rfl

/-- A selection changes one entry of one map. -/
theorem Selects.get?_map (h : pool.Selects id selector later) (hid : pool.HasMap id)
    (other : MapId) (family : Bytes) :
    (later.map other).get? family =
      if other = id ∧ family = selector.family then some (pool.slice id selector).1
      else (pool.map other).get? family := by
  by_cases hother : other = id
  · subst hother
    simp only [true_and]
    cases h with
    | whole name =>
      rw [map_setMap, if_pos ⟨rfl, hid⟩, FamilyMap.selectWhole, OrderedMap.get?_put,
        OrderedMap.get?_erase]
      by_cases hname : family = name <;> simp [hname, Selector.family, slice, Selector.slice]
    | @held name set qualifier? hheld =>
      rw [map_addQualifier, slice_of_held hheld]
      by_cases hname : family = name <;> simp [hname, Selector.family, hheld]
    | @new name qualifier? hnone =>
      rw [map_setMap, if_pos ⟨rfl, hid⟩, OrderedMap.get?_put, slice_of_not_held hnone]
      rfl
  · rw [h.map_of_ne hother, if_neg fun hboth => hother hboth.1]

/-- A selection changes the sets of one family. -/
theorem Selects.setsOf_eq (h : pool.Selects id selector later) (hwf : pool.WellFormed)
    (family : Bytes) :
    later.setsOf family =
      if family = selector.family then (pool.slice id selector).2 else pool.setsOf family := by
  cases h with
  | whole name =>
    show pool.setsOf family = if family = name then pool.setsOf name else _
    by_cases hname : family = name <;> simp [hname]
  | @held name set qualifier? hheld =>
    have hset : set.family = name := (hwf id name set hheld).1
    rw [addQualifier, setsOf_putSets, hset, slice_of_held hheld]
    rfl
  | @new name qualifier? hnone =>
    rw [slice_of_not_held hnone]
    exact setsOf_putSets _ _ _ _

/-! ## Pools up to the order of families -/

/-- The pools differ at most in the order of the families in their maps. -/
structure SameButOrder (first second : Pool) : Prop where
  count : first.maps.length = second.maps.length
  maps : ∀ id family, (first.map id).get? family = (second.map id).get? family
  sets : ∀ family, first.setsOf family = second.setsOf family
  filters : first.filters = second.filters

namespace SameButOrder

variable {first second third : Pool}

theorem refl (pool : Pool) : pool.SameButOrder pool :=
  ⟨rfl, fun _ _ => rfl, fun _ => rfl, rfl⟩

theorem symm (h : first.SameButOrder second) : second.SameButOrder first :=
  ⟨h.count.symm, fun id family => (h.maps id family).symm, fun family => (h.sets family).symm,
    h.filters.symm⟩

theorem trans (h : first.SameButOrder second) (h' : second.SameButOrder third) :
    first.SameButOrder third :=
  ⟨h.count.trans h'.count, fun id family => (h.maps id family).trans (h'.maps id family),
    fun family => (h.sets family).trans (h'.sets family), h.filters.trans h'.filters⟩

theorem filter_eq (h : first.SameButOrder second) : first.filter = second.filter := by
  funext id
  rw [Pool.filter, h.filters]
  rfl

theorem hasMap (h : first.SameButOrder second) (hid : first.HasMap id) : second.HasMap id :=
  Nat.lt_of_lt_of_eq hid h.count

theorem set_eq (h : first.SameButOrder second) : first.set = second.set := by
  funext id
  rw [Pool.set, h.sets]
  rfl

/-- The maps select the same, though the families may stand in another order. -/
theorem contents (h : first.SameButOrder second) (id : MapId) :
    (first.contents id).SameContents (second.contents id) := by
  rw [Selection.sameContents_iff]
  intro family
  rw [get?_contents, get?_contents, h.maps, h.set_eq]

theorem slice_eq (h : first.SameButOrder second) (id : MapId) (selector : Selector) :
    first.slice id selector = second.slice id selector := by
  rw [slice, slice, h.maps, h.sets]

/-- A selection does not look at the order of the families. -/
theorem select (h : first.SameButOrder second) (hfirst : first.WellFormed)
    (hsecond : second.WellFormed) (hid : first.HasMap id) (selector : Selector) :
    (first.select id selector).SameButOrder (second.select id selector) := by
  have hone := first.selects id selector
  have htwo := second.selects id selector
  refine ⟨?_, ?_, ?_, ?_⟩
  · rw [hone.length_maps, htwo.length_maps, h.count]
  · intro other family
    rw [hone.get?_map hid, htwo.get?_map (h.hasMap hid), h.maps, h.slice_eq]
  · intro family
    rw [hone.setsOf_eq hfirst, htwo.setsOf_eq hsecond, h.sets, h.slice_eq]
  · rw [hone.filters_eq, htwo.filters_eq, h.filters]

end SameButOrder

/-- A selection leaves the slices of all other families. -/
theorem Selects.slice_of_ne (h : pool.Selects id selector later) (hwf : pool.WellFormed)
    (hid : pool.HasMap id) {other : Selector} (hne : other.family ≠ selector.family)
    (map : MapId) : later.slice map other = pool.slice map other := by
  rw [slice, slice, h.get?_map hid, h.setsOf_eq hwf, if_neg fun hboth => hne hboth.2, if_neg hne]

/-- Selections of different families commute. -/
theorem select_comm (hwf : pool.WellFormed) {id other : MapId} (hid : pool.HasMap id)
    (hother : pool.HasMap other) {first second : Selector} (hne : first.family ≠ second.family) :
    ((pool.select id first).select other second).SameButOrder
      ((pool.select other second).select id first) := by
  have hone := pool.selects id first
  have htwo := pool.selects other second
  have honeThen := (pool.select id first).selects other second
  have htwoThen := (pool.select other second).selects id first
  -- what the second selection reads, the first one has left as it was
  have hread := hone.slice_of_ne hwf hid hne.symm other
  have hreadBack := htwo.slice_of_ne hwf hother hne id
  refine ⟨?_, ?_, ?_, ?_⟩
  · rw [honeThen.length_maps, hone.length_maps, htwoThen.length_maps, htwo.length_maps]
  · intro map family
    rw [honeThen.get?_map (hone.hasMap_iff.2 hother), htwoThen.get?_map (htwo.hasMap_iff.2 hid),
      hread, hreadBack, hone.get?_map hid, htwo.get?_map hother]
    by_cases hfirst : map = id ∧ family = first.family
    · have hsecond : ¬ (map = other ∧ family = second.family) :=
        fun hboth => hne (hfirst.2.symm.trans hboth.2)
      rw [if_neg hsecond, if_pos hfirst, if_pos hfirst]
    · rw [if_neg hfirst, if_neg hfirst]
  · intro family
    rw [honeThen.setsOf_eq (hone.wellFormed hwf hid),
      htwoThen.setsOf_eq (htwo.wellFormed hwf hother), hread, hreadBack, hone.setsOf_eq hwf,
      htwo.setsOf_eq hwf]
    by_cases hfirst : family = first.family
    · have hsecond : family ≠ second.family := fun heq => hne (hfirst.symm.trans heq)
      rw [if_neg hsecond, if_pos hfirst, if_pos hfirst]
    · rw [if_neg hfirst, if_neg hfirst]
  · rw [honeThen.filters_eq, hone.filters_eq, htwoThen.filters_eq, htwo.filters_eq]

end Pool

end ReadPlan
