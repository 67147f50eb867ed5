import ReadPlan.Proofs.Session.Sound

/-!
# ReadPlan.Proofs.Session.Visibility — where a selection shows

Maps share sets and requests share maps, so a selection through one name may show under others. Here
it is said exactly where it shows (`Pool.Shows`): a whole family only in the map itself; a column,
if the map holds a set for its family, in every entry of any map that is this very set; and
otherwise only in the map itself, which then holds a set of its own. Nothing else changes, whatever
is shared.
-/

namespace ReadPlan

namespace Pool

/-- A whole family shows in the map alone, where it comes last. Every set keeps its qualifiers, also
the one that the map held. -/
structure ShowsWhole (pool later : Pool) (id : MapId) (family : Bytes) : Prop where
  entries : ∀ f, (later.map id).get? f = if f = family then some .all else (pool.map id).get? f
  order : (later.map id).keys = (pool.map id).keys.filter (· ≠ family) ++ [family]
  others : ∀ other, other ≠ id → later.map other = pool.map other
  contents : ∀ other, other ≠ id → later.contents other = pool.contents other
  sets : later.set = pool.set

/-- A column shows in the entries that are the set, in whatever map, and in no other entry. All maps
hold the same sets in the same order. -/
structure ShowsHeld (pool later : Pool) (set : SetId) (qualifier? : Option Bytes) : Prop where
  maps : later.map = pool.map
  gains : ∀ qualifier, qualifier ∈ later.set set ↔ qualifier? = some qualifier ∨
    qualifier ∈ pool.set set
  shows : ∀ other f, (pool.map other).get? f = some (.only set) →
    (pool.contents other).get? f = some (.only (pool.set set)) ∧
      (later.contents other).get? f = some (.only (later.set set))
  keeps : ∀ other f, (pool.map other).get? f ≠ some (.only set) →
    (later.contents other).get? f = (pool.contents other).get? f
  nothing : qualifier? = none → later.contents = pool.contents

/-- A column shows in the map alone, which holds a set that no other entry is. -/
structure ShowsNew (pool later : Pool) (id : MapId) (family : Bytes) (qualifier? : Option Bytes)
    (set : SetId) : Prop where
  entries : ∀ f, (later.map id).get? f =
    if f = family then some (.only set) else (pool.map id).get? f
  order : (later.map id).keys =
    if family ∈ (pool.map id).keys then (pool.map id).keys else (pool.map id).keys ++ [family]
  holds : ∀ qualifier, qualifier ∈ later.set set ↔ qualifier? = some qualifier
  rest : ∀ f, f ≠ family → (later.contents id).get? f = (pool.contents id).get? f
  others : ∀ other, other ≠ id → later.map other = pool.map other
  contents : ∀ other, other ≠ id → later.contents other = pool.contents other
  own : ∀ other f, (later.map other).get? f = some (.only set) → other = id ∧ f = family

/-- Where a selection through a map shows. -/
def Shows (pool later : Pool) (id : MapId) : Selector → Prop
  | .wholeFamily family => ShowsWhole pool later id family
  | .column family qualifier? =>
    match (pool.map id).get? family with
    | some (.only set) => ShowsHeld pool later set qualifier?
    | _ => ∃ set, ShowsNew pool later id family qualifier? set

variable {pool : Pool} {id : MapId}

theorem showsWhole_select (hid : pool.HasMap id) (family : Bytes) :
    ShowsWhole pool (pool.select id (.wholeFamily family)) id family := by
  have hself : (pool.select id (.wholeFamily family)).map id =
      FamilyMap.selectWhole (pool.map id) family := by
    rw [select, map_setMap, if_pos ⟨rfl, hid⟩]
  have hselects := pool.selects id (.wholeFamily family)
  refine ⟨?_, ?_, fun other hother => hselects.map_of_ne hother, ?_, rfl⟩
  · intro f
    rw [hself, FamilyMap.selectWhole, OrderedMap.get?_put, OrderedMap.get?_erase]
    by_cases h : f = family
    · rw [if_pos h, if_pos h]
    · rw [if_neg h, if_neg h, if_neg h]
  · rw [hself, Selection.keys_selectWhole]
  · intro other hother
    exact contents_congr (hselects.map_of_ne hother) fun _ _ _ => rfl

theorem showsHeld_select (hwf : pool.WellFormed) {family : Bytes} {set : SetId}
    (hheld : (pool.map id).get? family = some (.only set)) (qualifier? : Option Bytes) :
    ShowsHeld pool (pool.addQualifier set qualifier?) set qualifier? := by
  have hset : (pool.addQualifier set qualifier?).set set =
      (pool.set set).insert? qualifier? := by
    rw [set_addQualifier pool set set qualifier? (hwf id family set hheld).2, if_pos rfl]
  have hget := get?_contents_held hwf hheld qualifier?
  refine ⟨rfl, fun qualifier => ?_, fun other f hshared => ⟨?_, ?_⟩, fun other f hother => ?_,
    fun hnone => ?_⟩
  · rw [hset, KeySet.mem_insert?]
  · rw [get?_contents, hshared]
    rfl
  · rw [hget, if_pos hshared, hset]
  · rw [hget, if_neg hother]
  · -- no qualifier, nothing to add: every set keeps what it has
    subst hnone
    funext other
    refine contents_congr rfl fun f held hholds => ?_
    rw [set_addQualifier pool set held none (hwf id family set hheld).2, KeySet.insert?_none,
      ite_self]

theorem showsNew_select (hwf : pool.WellFormed) (hid : pool.HasMap id) {family : Bytes}
    (hnone : ∀ set, (pool.map id).get? family ≠ some (.only set)) (qualifier? : Option Bytes) :
    ShowsNew pool (pool.select id (.column family qualifier?)) id family qualifier?
      (pool.freshSet family) := by
  have hselects := pool.selects id (.column family qualifier?)
  have hlater := select_of_not_held hnone qualifier?
  have hself : (pool.select id (.column family qualifier?)).map id =
      (pool.map id).put family (.only (pool.freshSet family)) := by
    rw [hlater, map_setMap, if_pos ⟨rfl, hid⟩]
  refine ⟨?_, ?_, ?_, ?_, fun other hother => hselects.map_of_ne hother, ?_, ?_⟩
  · intro f
    rw [hself, OrderedMap.get?_put]
  · rw [hself, OrderedMap.keys_put]
    by_cases h : family ∈ (pool.map id).keys <;> simp only [h, if_true, if_false]
  · intro qualifier
    rw [hlater, set_setMap, set_addSet, if_pos rfl, KeySet.mem_insert?]
    exact or_iff_left (KeySet.not_mem_empty qualifier)
  · intro f hf
    rw [hlater, get?_contents_new hwf hid, if_neg hf]
  · intro other hother
    exact hselects.contents_of_unshared hwf hother fun set hheld => absurd hheld (hnone set)
  · intro other f hset
    -- the set is new, so no entry that was there before can be it
    by_cases hother : other = id
    · refine ⟨hother, ?_⟩
      rw [hother, hself, OrderedMap.get?_put] at hset
      by_cases hf : f = family
      · exact hf
      · rw [if_neg hf] at hset
        exact absurd (hwf id f _ hset).2 (pool.not_hasSet_freshSet family)
    · rw [hselects.map_of_ne hother] at hset
      exact absurd (hwf other f _ hset).2 (pool.not_hasSet_freshSet family)

theorem shows_select (hwf : pool.WellFormed) (hid : pool.HasMap id) (selector : Selector) :
    Shows pool (pool.select id selector) id selector := by
  cases selector with
  | wholeFamily family => exact showsWhole_select hid family
  | column family qualifier? =>
    rw [Shows]
    split
    · rename_i set hheld
      rw [select_of_held hheld]
      exact showsHeld_select hwf hheld qualifier?
    · rename_i hnone
      exact ⟨_, showsNew_select hwf hid hnone qualifier?⟩

end Pool

namespace Session

/-- **A selection shows just where it should.** Through a scan, a lookup or a family map one can
always select. The selection shows in the family map that the name stands for and in the other maps
as told, however maps and sets are shared; every name stands for the same object as before, with the
same settings and references, and every filter is the same. -/
theorem select_visible {session : Session} (hreach : Reachable session) {name : String} {id : MapId}
    (hname : session.mapOf? name = some id) (selector : Selector) :
    ∃ next answer, session.step? (.call name (.select selector)) = some (next, .ok answer) ∧
      next.objects = session.objects ∧ next.pool.filters = session.pool.filters ∧
      session.pool.Shows next.pool id selector := by
  have hsound := hreach.sound
  rcases step?_select hname selector with ⟨answer, hstep⟩
  refine ⟨_, answer, hstep, rfl, (session.pool.selects id selector).filters_eq, ?_⟩
  exact Pool.shows_select hsound.pool (hsound.hasMap hname) selector

/-- A column through a map that shares its set with the map of a scan. -/
theorem select_visible_through_shared_set :
    let session := after [.make "scan" .scan, .call "scan" (.select (.column [102] none)),
      .make "map" (.mapOf "scan"), .make "shared" (.shareSets "map")]
    session.mapOf? "scan" = some ⟨0⟩ ∧ session.mapOf? "shared" = some ⟨1⟩ ∧
      ∃ next answer, session.step? (.call "shared" (.select (.column [102] (some [113])))) =
          some (next, .ok answer) ∧
        session.pool.Shows next.pool ⟨1⟩ (.column [102] (some [113])) := by
  intro session
  have hname : session.mapOf? "shared" = some ⟨1⟩ := rfl
  rcases select_visible (reachable_after _) hname (.column [102] (some [113])) with
    ⟨next, answer, hstep, -, -, hshows⟩
  exact ⟨rfl, hname, next, answer, hstep, hshows⟩

end Session

end ReadPlan
