import ReadPlan.Proofs.Pool.Select
import ReadPlan.Proofs.Selection.History

/-!
# ReadPlan.Proofs.Pool.Holders — which maps hold a set

A set is made for one entry of one map. A selection or a new map never brings a set that is there
to another map, so a set stays with one map (`Pool.HeldOnce`) until somebody makes a map of the
sets of this one. And nothing is ever taken out: a map keeps its families and a set its qualifiers,
whatever is made or selected (`Pool.Keeps`).
-/

namespace ReadPlan

namespace Pool

/-- The set stands in an entry of the map. -/
def Holds (pool : Pool) (id : MapId) (set : SetId) : Prop :=
  ∃ family, (pool.map id).get? family = some (.only set)

/-- At most one map holds the set. -/
def HeldOnce (pool : Pool) (set : SetId) : Prop :=
  ∀ id other, pool.Holds id set → pool.Holds other set → id = other

/-- A later pool in which every map has the families it had, and maybe more, and every set the
qualifiers. -/
structure Keeps (pool later : Pool) : Prop where
  maps : ∀ id, pool.HasMap id → later.HasMap id ∧
    ∀ family ∈ (pool.map id).keys, family ∈ (later.map id).keys
  sets : ∀ set, pool.HasSet set → later.HasSet set ∧
    ∀ qualifier ∈ pool.set set, qualifier ∈ later.set set

variable {pool later last : Pool} {id target : MapId} {set : SetId}

/-! ## Where a set may turn up -/

theorem Holds.hasSet (h : pool.Holds id set) (hwf : pool.WellFormed) : pool.HasSet set := by
  rcases h with ⟨family, hset⟩
  exact (hwf id family set hset).2

/-- A set that is not there yet is held by no map. -/
theorem heldOnce_of_not_hasSet (hwf : pool.WellFormed) (hset : ¬ pool.HasSet set) :
    pool.HeldOnce set :=
  fun _ _ hholds _ => absurd (hholds.hasSet hwf) hset

/-- What a new map holds is new. -/
theorem holds_newMap {selection : Selection} (h : (pool.newMap selection).2.Holds id set) :
    pool.Holds id set ∨ id = (pool.newMap selection).1 ∧ ¬ pool.HasSet set := by
  rcases h with ⟨family, hset⟩
  by_cases hid : id = (pool.newMap selection).1
  · subst hid
    rcases held_newMap hset with ⟨rfl, -⟩
    exact Or.inr ⟨rfl, pool.not_hasSet_freshSet family⟩
  · rw [map_newMap, if_neg hid] at hset
    exact Or.inl ⟨family, hset⟩

/-- What a map holds after a selection through it is what it held, or new. -/
theorem Selects.holds {selector : Selector} (hselects : pool.Selects target selector later)
    (htarget : pool.HasMap target) (h : later.Holds id set) :
    pool.Holds id set ∨ id = target ∧ ¬ pool.HasSet set := by
  rcases h with ⟨family, hset⟩
  by_cases hid : id = target
  · subst hid
    rcases hselects.held_self htarget hset with hold | ⟨-, rfl, -⟩
    · exact Or.inl ⟨family, hold⟩
    · exact Or.inr ⟨rfl, pool.not_hasSet_freshSet family⟩
  · rw [hselects.map_of_ne hid] at hset
    exact Or.inl ⟨family, hset⟩

/-- A map that is made of the sets of another one holds what that one holds. -/
theorem holds_shareSets {source : MapId} (h : (pool.shareSets source).2.Holds id set) :
    pool.Holds id set ∨ pool.Holds source set := by
  rcases h with ⟨family, hset⟩
  rw [map_shareSets] at hset
  by_cases hid : id = (pool.shareSets source).1
  · rw [if_pos hid] at hset
    exact Or.inr ⟨family, hset⟩
  · rw [if_neg hid] at hset
    exact Or.inl ⟨family, hset⟩

namespace HeldOnce

/-- New sets turn up in a single map, so they do not give a set a second holder. -/
theorem of_gains (h : pool.HeldOnce set) (hwf : pool.WellFormed)
    (hgains : ∀ id, later.Holds id set →
      pool.Holds id set ∨ id = target ∧ ¬ pool.HasSet set) : later.HeldOnce set := by
  intro id other hid hother
  rcases hgains id hid with hold | ⟨rfl, hnew⟩
  · rcases hgains other hother with hold' | ⟨-, hnew⟩
    · exact h id other hold hold'
    · exact absurd (hold.hasSet hwf) hnew
  · rcases hgains other hother with hold' | ⟨rfl, -⟩
    · exact absurd (hold'.hasSet hwf) hnew
    · rfl

theorem newMap (h : pool.HeldOnce set) (hwf : pool.WellFormed) (selection : Selection) :
    (pool.newMap selection).2.HeldOnce set :=
  h.of_gains hwf fun _ hholds => holds_newMap hholds

theorem select (h : pool.HeldOnce set) (hwf : pool.WellFormed) (htarget : pool.HasMap target)
    {selector : Selector} (hselects : pool.Selects target selector later) : later.HeldOnce set :=
  h.of_gains hwf fun _ hholds => hselects.holds htarget hholds

theorem shareSets (h : pool.HeldOnce set) {source : MapId} (hsource : ¬ pool.Holds source set) :
    (pool.shareSets source).2.HeldOnce set := by
  intro id other hid hother
  exact h id other ((holds_shareSets hid).resolve_right hsource)
    ((holds_shareSets hother).resolve_right hsource)

end HeldOnce

/-! ## Nothing is taken out -/

namespace Keeps

theorem refl (pool : Pool) : pool.Keeps pool :=
  ⟨fun _ hid => ⟨hid, fun _ hmem => hmem⟩, fun _ hset => ⟨hset, fun _ hmem => hmem⟩⟩

theorem trans (h : pool.Keeps later) (h' : later.Keeps last) : pool.Keeps last := by
  refine ⟨?_, ?_⟩
  · intro id hid
    rcases h.maps id hid with ⟨hid', hkeys⟩
    rcases h'.maps id hid' with ⟨hid'', hkeys'⟩
    exact ⟨hid'', fun family hmem => hkeys' family (hkeys family hmem)⟩
  · intro set hset
    rcases h.sets set hset with ⟨hset', hmembers⟩
    rcases h'.sets set hset' with ⟨hset'', hmembers'⟩
    exact ⟨hset'', fun qualifier hmem => hmembers' qualifier (hmembers qualifier hmem)⟩

end Keeps

theorem keeps_setWholeRow (pool : Pool) (id : FilterId) (flag : Bool) :
    pool.Keeps (pool.setWholeRow id flag) :=
  ⟨(Keeps.refl pool).maps, (Keeps.refl pool).sets⟩

theorem Grows.keeps (h : pool.Grows later) : pool.Keeps later := by
  refine ⟨?_, ?_⟩
  · intro id hid
    refine ⟨h.hasMap hid, fun family hmem => ?_⟩
    rw [h.map_eq hid]
    exact hmem
  · intro set hset
    refine ⟨h.hasSet hset, fun qualifier hmem => ?_⟩
    rw [h.set_eq hset]
    exact hmem

namespace Selects

variable {selector : Selector}

/-- A family that is named as a whole moves to the end, but it stays; a column adds its family. -/
theorem keeps_keys (h : pool.Selects target selector later) (hwf : pool.WellFormed)
    (htarget : pool.HasMap target) {family : Bytes} (hmem : family ∈ (pool.map id).keys) :
    family ∈ (later.map id).keys := by
  by_cases hid : id = target
  · subst hid
    rw [← keys_contents, h.contents_self hwf htarget, Selection.mem_keys_select, keys_contents]
    exact Or.inl hmem
  · rw [h.map_of_ne hid]
    exact hmem

/-- The one set that a selection touches gains a qualifier. -/
theorem keeps_members (h : pool.Selects target selector later) (hwf : pool.WellFormed)
    (hset : pool.HasSet set) {qualifier : Bytes} (hmem : qualifier ∈ pool.set set) :
    qualifier ∈ later.set set := by
  cases h with
  | whole => exact hmem
  | @held family held qualifier? hheld =>
    rw [set_addQualifier _ _ _ _ (hwf target family held hheld).2]
    by_cases heq : set = held
    · rw [if_pos heq, KeySet.mem_insert?]
      exact Or.inr hmem
    · rw [if_neg heq]
      exact hmem
  | new =>
    rw [set_setMap, set_addSet_of_hasSet hset]
    exact hmem

theorem keeps (h : pool.Selects target selector later) (hwf : pool.WellFormed)
    (htarget : pool.HasMap target) : pool.Keeps later where
  maps := fun _ hid => ⟨h.hasMap_iff.2 hid, fun _ hmem => h.keeps_keys hwf htarget hmem⟩
  sets := fun _ hset => ⟨h.hasSet hset, fun _ hmem => h.keeps_members hwf hset hmem⟩

end Selects

end Pool

end ReadPlan
