import ReadPlan.Proofs.Pool.Select
import ReadPlan.Proofs.Session.Transition

/-!
# ReadPlan.Proofs.Session.Sound — what holds in every reachable session

Every object refers to maps and filters that are in the pool, every window is valid, and the pool is
well formed (`Session.Sound`). Each kind of step keeps this, so every reachable session is sound
(`Session.Reachable.sound`).
-/

namespace ReadPlan

/-- An object refers to what is in the pool, and its window does not end before it begins. -/
structure Pool.Supports (pool : Pool) (object : Object) : Prop where
  map : ∀ id, object.map? = some id → pool.HasMap id
  filter : ∀ id, object.filter? = some id → pool.HasFilter id
  window : ∀ request, object = .request request → request.criteria.timeRange.Valid

theorem Pool.Supports.grows {pool later : Pool} {object : Object} (h : pool.Supports object)
    (hgrows : pool.Grows later) : later.Supports object where
  map := fun id hid => hgrows.hasMap (h.map id hid)
  filter := fun id hid => hgrows.hasFilter (h.filter id hid)
  window := h.window

theorem Pool.Supports.select {pool later : Pool} {id : MapId} {selector : Selector}
    {object : Object} (h : pool.Supports object) (hselects : pool.Selects id selector later) :
    later.Supports object where
  map := fun id hid => hselects.hasMap_iff.2 (h.map id hid)
  filter := fun id hid => hselects.hasFilter_iff.2 (h.filter id hid)
  window := h.window

/-- A request refers to what is in the pool if its criteria do. -/
structure Pool.Carries (pool : Pool) (criteria : Criteria MapId FilterId) : Prop where
  map : pool.HasMap criteria.families
  filter : ∀ id, criteria.filter? = some id → pool.HasFilter id
  window : criteria.timeRange.Valid

theorem Pool.supports_request {pool : Pool} {request : Request MapId FilterId} :
    pool.Supports (.request request) ↔ pool.Carries request.criteria := by
  constructor
  · intro h
    exact ⟨h.map _ rfl, h.filter, h.window request rfl⟩
  · intro h
    refine ⟨?_, h.filter, ?_⟩
    · intro id hid
      cases hid
      exact h.map
    · intro found hfound
      cases hfound
      exact h.window

theorem Pool.supports_familyMap {pool : Pool} {id : MapId} (h : pool.HasMap id) :
    pool.Supports (.familyMap id) := by
  refine ⟨?_, ?_, ?_⟩
  · intro found hfound
    cases hfound
    exact h
  · intro filter hfilter
    cases hfilter
  · intro request hrequest
    cases hrequest

theorem Pool.hasFilter_setWholeRow {pool : Pool} {id other : FilterId} {flag : Bool} :
    (pool.setWholeRow id flag).HasFilter other ↔ pool.HasFilter other := by
  simp [HasFilter, Pool.setWholeRow]

namespace Session

/-- References lead into a well-formed pool and windows are valid. -/
structure Sound (session : Session) : Prop where
  pool : session.pool.WellFormed
  objects : ∀ name object, session.objects.get? name = some object →
    session.pool.Supports object

variable {session next : Session}

theorem filterOrNone?_eq_some {name? : Option String} {id : FilterId}
    (h : session.filterOrNone? name? = some (some id)) :
    ∃ name, name? = some name ∧ session.filter? name = some id := by
  cases name? with
  | none => cases h
  | some name =>
    rcases Option.map_eq_some_iff.1 h with ⟨found, hfound, heq⟩
    cases heq
    exact ⟨name, rfl, hfound⟩

/-! ## Constructions -/

namespace Constructs

variable {construction : Construction} {object : Object} {pool : Pool}

theorem grows (h : session.Constructs construction object pool) : session.pool.Grows pool := by
  cases h with
  | scan | lookup | familyMap | copy | copyMap => exact Pool.grows_newMap _ _
  | filter filter => exact Pool.grows_newFilter _ _
  | lift | mapOf => exact Pool.Grows.refl _
  | shareSets => exact Pool.grows_addMap _ _

theorem wellFormed (h : session.Constructs construction object pool)
    (hwf : session.pool.WellFormed) : pool.WellFormed := by
  cases h with
  | scan | lookup | familyMap | copy | copyMap => exact hwf.newMap _
  | filter filter => exact hwf.newFilter filter
  | lift | mapOf => exact hwf
  | shareSets => exact hwf.shareSets _

end Constructs

namespace Sound

theorem hasMap (h : session.Sound) {name : String} {id : MapId}
    (hname : session.mapOf? name = some id) : session.pool.HasMap id := by
  rcases Option.bind_eq_some_iff.1 hname with ⟨object, hobject, hid⟩
  exact (h.objects name object hobject).map id hid

theorem request (h : session.Sound) {name : String} {request : Request MapId FilterId}
    (hname : session.request? name = some request) : session.pool.Carries request.criteria :=
  Pool.supports_request.1 (h.objects name _ (request?_eq_some.1 hname))

theorem scan (h : session.Sound) {name : String} {scan : Scan MapId FilterId}
    (hname : session.scan? name = some scan) : session.pool.Carries scan.toCriteria :=
  h.request (request?_of_scan? hname)

theorem hasFilter (h : session.Sound) {name? : Option String} {id : FilterId}
    (hname : session.filterOrNone? name? = some (some id)) : session.pool.HasFilter id := by
  rcases filterOrNone?_eq_some hname with ⟨name, -, hfound⟩
  exact (h.objects name _ (filter?_eq_some.1 hfound)).filter id rfl

/-- What a construction makes refers to what is there or to what it has just made. -/
theorem constructs (h : session.Sound) {construction : Construction} {object : Object} {pool : Pool}
    (hmade : session.Constructs construction object pool) : pool.Supports object := by
  cases hmade with
  | scan hfilter | lookup hfilter =>
    -- a map of its own, a filter that has a name, and all of time
    refine Pool.supports_request.2 ⟨Pool.hasMap_newMap _ _, ?_, ?_⟩
    · intro id hid
      have hnamed := hfilter.trans (congrArg some hid)
      exact (Pool.grows_newMap _ _).hasFilter (h.hasFilter hnamed)
    · exact (by decide : (0 : Int) ≤ maxTimestamp)
  | filter filter =>
    refine ⟨?_, ?_, ?_⟩
    · intro id hid
      cases hid
    · intro id hid
      cases hid
      simp [Pool.HasFilter, Pool.newFilter]
    · intro request hrequest
      cases hrequest
  | familyMap | copyMap => exact Pool.supports_familyMap (Pool.hasMap_newMap _ _)
  | @copy name scan hscan hvalid =>
    -- a map of its own, and the filter and the window of the scan
    have hscan' := h.scan hscan
    refine Pool.supports_request.2 ⟨Pool.hasMap_newMap _ _, ?_, hvalid⟩
    intro id hid
    have hkept : scan.filter?.map (fun filter => filter) = scan.filter? := Option.map_id'
    exact (Pool.grows_newMap _ _).hasFilter (hscan'.filter id (hkept.symm.trans hid))
  | @lift name lookup hlookup =>
    -- all that the lookup refers to
    have hlookup' := h.request (request?_of_lookup? hlookup)
    exact Pool.supports_request.2 ⟨hlookup'.map, hlookup'.filter, hlookup'.window⟩
  | @mapOf name request hrequest => exact Pool.supports_familyMap (h.request hrequest).map
  | shareSets hmap => exact Pool.supports_familyMap (Pool.hasMap_shareSets _ _)

theorem bind (h : session.Sound) {name : String} {object : Object}
    (hobject : session.pool.Supports object) : (session.bind name object).Sound := by
  refine ⟨h.pool, ?_⟩
  intro other found hfound
  rw [get?_bind] at hfound
  by_cases heq : other = name
  · rw [if_pos heq] at hfound
    cases hfound
    exact hobject
  · rw [if_neg heq] at hfound
    exact h.objects other found hfound

/-! ## Steps and runs -/

theorem transition (h : session.Sound) {step : Step} (hstep : session.Transition step next) :
    next.Sound := by
  cases hstep with
  | same => exact h
  | @make name construction object pool hmade =>
    have hgrown : Sound { session with pool } :=
      ⟨hmade.wellFormed h.pool, fun other found hfound =>
        (h.objects other found hfound).grows hmade.grows⟩
    exact hgrown.bind (h.constructs hmade)
  | @select name id selector hname =>
    have hselects := session.pool.selects id selector
    exact ⟨hselects.wellFormed h.pool (h.hasMap hname), fun other found hfound =>
      (h.objects other found hfound).select hselects⟩
  | set hname hset =>
    rcases Request.apply_keeps hset with ⟨hfamilies, hfilter, hwindow⟩
    have hrequest := h.request hname
    refine h.bind (Pool.supports_request.2 ⟨?_, ?_, hwindow hrequest.window⟩)
    · rw [hfamilies]
      exact hrequest.map
    · rw [hfilter]
      exact hrequest.filter
  | @setScan name scan changed setting log hname hset =>
    rcases Scan.apply_keeps hset with ⟨hfamilies, hfilter, hwindow⟩
    have hscan := h.scan hname
    have hchanged : session.pool.Carries changed.toCriteria := by
      refine ⟨?_, ?_, ?_⟩
      · rw [hfamilies]
        exact hscan.map
      · rw [hfilter]
        exact hscan.filter
      · rw [hwindow]
        exact hscan.window
    exact h.bind (Pool.supports_request.2 hchanged)
  | @useMap name map request families hname hmap =>
    have hrequest := h.request hname
    refine h.bind (Pool.supports_request.2 ?_)
    rw [Request.criteria_withCriteria]
    exact ⟨h.hasMap (mapOf?_of_map? hmap), hrequest.filter, hrequest.window⟩
  | @useFilter name filterName? request filter? hname hfilter =>
    have hrequest := h.request hname
    refine h.bind (Pool.supports_request.2 ?_)
    rw [Request.criteria_withCriteria]
    refine ⟨hrequest.map, ?_, hrequest.window⟩
    intro id hid
    exact h.hasFilter (hfilter.trans (congrArg some hid))
  | setWholeRow flag hname =>
    refine ⟨h.pool.setWholeRow _ flag, ?_⟩
    intro other found hfound
    have hobject := h.objects other found hfound
    exact ⟨hobject.map, fun id hid => Pool.hasFilter_setWholeRow.2 (hobject.filter id hid),
      hobject.window⟩

theorem step (h : session.Sound) {step : Step} {outcome : Outcome Answer}
    (hstep : session.step? step = some (next, outcome)) : next.Sound :=
  h.transition (step?_transition hstep)

theorem run (h : session.Sound) {steps : List Step} {outcomes : List (Outcome Answer)}
    (hrun : session.run? steps = some (next, outcomes)) : next.Sound :=
  run?_invariant (fun _ _ _ _ _ hstep hs => hs.step hstep) hrun h

end Sound

theorem sound_initial : Sound initial :=
  ⟨Pool.wellFormed_initial, fun _ _ hfound => by cases hfound⟩

theorem Reachable.sound (h : Reachable session) : session.Sound := by
  induction h with
  | initial => exact sound_initial
  | step _ hstep ih => exact ih.step hstep

end Session

end ReadPlan
