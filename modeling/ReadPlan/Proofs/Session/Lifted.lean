import ReadPlan.Proofs.Session.Requests

/-!
# ReadPlan.Proofs.Session.Lifted — a lookup and the scan lifted from it

A lifted scan reads the row of its lookup for as long as nobody sets its rows, and it says that it
reads a single row unless the row is empty, which for a scan is no bound at all
(`Session.lift_row`). The two go on to share their family map, live, until one of them is given
another map, and they share nothing else that a setting could change
(`Session.lift_shares_families`).
-/

namespace ReadPlan

namespace Session

variable {session last : Session} {name : String} {steps : List Step}
  {outcomes : List (Outcome Answer)}

/-! ## A request along a run -/

/-- A scan whose name is given to no other object stays a scan, of the same rows unless they are
set. -/
theorem run?_scan {scan : Scan MapId FilterId} (hscan : session.scan? name = some scan)
    (hkeeps : ∀ step ∈ steps, ¬ step.Rebinds name)
    (hrun : session.run? steps = some (last, outcomes)) :
    ∃ later, last.scan? name = some later ∧ ((∀ step ∈ steps, ¬ step.SetsRow name) →
      later.startRow = scan.startRow ∧ later.stopRow = scan.stopRow) := by
  refine run?_invariant (P := fun s => ∃ later, s.scan? name = some later ∧
    ((∀ step ∈ steps, ¬ step.SetsRow name) →
      later.startRow = scan.startRow ∧ later.stopRow = scan.stopRow)) ?_ hrun
    ⟨scan, hscan, fun _ => ⟨rfl, rfl⟩⟩
  rintro s t step outcome hmem hstep ⟨before, hbefore, hrows⟩
  have hrequest := request?_of_scan? hbefore
  rcases (step?_transition hstep).becomes hrequest (hkeeps step hmem) with
    ⟨changed, hchanged, hbecomes⟩
  rcases hbecomes.scan with ⟨after, rfl, hkept⟩
  refine ⟨after, scan?_of_request? hchanged, fun hall => ?_⟩
  exact ⟨(hkept (hall step hmem)).1.trans (hrows hall).1,
    (hkept (hall step hmem)).2.trans (hrows hall).2⟩

/-- A lookup whose name is given to no other object stays a lookup. -/
theorem run?_lookup {lookup : Lookup MapId FilterId} (hlookup : session.lookup? name = some lookup)
    (hkeeps : ∀ step ∈ steps, ¬ step.Rebinds name)
    (hrun : session.run? steps = some (last, outcomes)) :
    ∃ later, last.lookup? name = some later ∧ later.row = lookup.row := by
  refine run?_invariant (P := fun s => ∃ later, s.lookup? name = some later ∧
    later.row = lookup.row) ?_ hrun ⟨lookup, hlookup, rfl⟩
  rintro s t step outcome hmem hstep ⟨before, hbefore, hrow⟩
  have hrequest := request?_of_lookup? hbefore
  rcases (step?_transition hstep).becomes hrequest (hkeeps step hmem) with
    ⟨changed, hchanged, hbecomes⟩
  rcases hbecomes.lookup with ⟨after, rfl, hkept⟩
  exact ⟨after, lookup?_of_request? hchanged, hkept.trans hrow⟩

/-- A request that is given no other family map holds the one it held. -/
theorem run?_mapOf? {request : Request MapId FilterId}
    (hrequest : session.request? name = some request)
    (hkeeps : ∀ step ∈ steps, ¬ step.Rebinds name)
    (hmaps : ∀ step ∈ steps, ¬ step.ReplacesMap name)
    (hrun : session.run? steps = some (last, outcomes)) :
    last.mapOf? name = some request.criteria.families := by
  have hlast : ∃ later, last.request? name = some later ∧
      later.criteria.families = request.criteria.families := by
    refine run?_invariant (P := fun s => ∃ later, s.request? name = some later ∧
      later.criteria.families = request.criteria.families) ?_ hrun ⟨request, hrequest, rfl⟩
    rintro s t step outcome hmem hstep ⟨before, hbefore, hfamilies⟩
    rcases (step?_transition hstep).becomes hbefore (hkeeps step hmem) with
      ⟨changed, hchanged, hbecomes⟩
    exact ⟨changed, hchanged, (hbecomes.families_eq (hmaps step hmem)).trans hfamilies⟩
  rcases hlast with ⟨later, hlater, hfamilies⟩
  rw [mapOf?_of_request? hlater, hfamilies]

/-! ## The row -/

/-- **A lifted scan reads the row of the lookup.** Lifting always succeeds, and after any steps that
neither give the name of the scan to another object nor set its rows, both bounds of the scan are
the row of the lookup. It addresses a single row just if this row is not empty. -/
theorem lift_row {lookupName : String} {lookup : Lookup MapId FilterId}
    (hlookup : session.lookup? lookupName = some lookup) (scanName : String) :
    ∃ start, session.step? (.make scanName (.lift lookupName)) =
        some (start, ⟨.ok .created, [.lifted lookup.row]⟩) ∧
      ∀ steps last outcomes,
        (∀ step ∈ steps, ¬ step.Rebinds scanName ∧ ¬ step.SetsRow scanName) →
        start.run? steps = some (last, outcomes) →
        ∃ scan, last.scan? scanName = some scan ∧ scan.startRow = lookup.row ∧
          scan.stopRow = lookup.row ∧ (scan.IsPointLookup ↔ lookup.row ≠ []) := by
  refine ⟨_, step?_lift hlookup scanName, ?_⟩
  intro steps last outcomes hsteps hrun
  have hstart := scan?_bind_self session scanName lookup.toScan
  rcases run?_scan hstart (fun step hmem => (hsteps step hmem).1) hrun with ⟨scan, hscan, hrows⟩
  rcases hrows fun step hmem => (hsteps step hmem).2 with ⟨hstartRow, hstopRow⟩
  have hrow : scan.startRow = lookup.row := hstartRow
  have hrow' : scan.stopRow = lookup.row := hstopRow
  refine ⟨scan, hscan, hrow, hrow', ?_⟩
  rw [Scan.IsPointLookup, hrow, hrow']
  exact and_iff_left rfl

/-- The row stays where it is while other things are set. -/
theorem lift_row_after_settings :
    let session := after [.make "lookup" (.lookup [114])]
    let steps : List Step := [.call "scan" (.setScan (.batch 3)),
      .call "scan" (.set (.cellLimit 1)), .call "lookup" (.select (.wholeFamily [102]))]
    session.lookup? "lookup" = some { families := ⟨0⟩, row := [114] } ∧
      ∃ start, session.step? (.make "scan" (.lift "lookup")) =
          some (start, ⟨.ok .created, [.lifted [114]]⟩) ∧
        ∃ last outcomes scan, start.run? steps = some (last, outcomes) ∧
          last.scan? "scan" = some scan ∧ scan.startRow = [114] ∧ scan.stopRow = [114] ∧
          scan.IsPointLookup := by
  intro session steps
  have hlookup : session.lookup? "lookup" = some { families := ⟨0⟩, row := [114] } := rfl
  rcases lift_row hlookup "scan" with ⟨start, hstep, hruns⟩
  have hsteps : ∀ step ∈ steps, ¬ step.Rebinds "scan" ∧ ¬ step.SetsRow "scan" := by
    simp [steps, Step.Rebinds, Step.SetsRow, ScanSetting.IsRow]
  obtain ⟨last, outcomes, hrun⟩ : ∃ last outcomes, start.run? steps = some (last, outcomes) := by
    cases hstep
    exact ⟨_, _, rfl⟩
  rcases hruns steps last outcomes hsteps hrun with ⟨scan, hscan, hstart, hstop, hpoint⟩
  exact ⟨hlookup, start, hstep, last, outcomes, scan, hrun, hscan, hstart, hstop,
    hpoint.2 (by decide)⟩

/-- The empty row is no bound: a scan lifted from the lookup of the empty row has no bounds, and so
addresses every row and not a single one. -/
theorem lift_empty_row :
    let session := after [.make "lookup" (.lookup [])]
    ∃ start scan, session.step? (.make "scan" (.lift "lookup")) =
        some (start, ⟨.ok .created, [.lifted []]⟩) ∧
      start.scan? "scan" = some scan ∧ scan.startRow = [] ∧ scan.stopRow = [] ∧
      ¬ scan.IsPointLookup :=
  ⟨_, _, rfl, rfl, rfl, rfl, by decide⟩

/-! ## The families -/

/-- Two requests hold the same family map, and what is selected through any name that stands for
this map, or for a request that holds it, is in the selection of both. -/
structure ShareFamilies (session : Session) (name other : String) (id : MapId) : Prop where
  first : session.mapOf? name = some id
  second : session.mapOf? other = some id
  live : ∀ through selector, session.mapOf? through = some id →
    ∃ next answer, session.step? (.call through (.select selector)) = some (next, .ok answer) ∧
      next.objects = session.objects ∧
      next.pool.contents id = (session.pool.contents id).select selector

theorem shareFamilies (hsound : session.Sound) {other : String} {id : MapId}
    (hname : session.mapOf? name = some id) (hother : session.mapOf? other = some id) :
    session.ShareFamilies name other id := by
  refine ⟨hname, hother, ?_⟩
  intro through selector hthrough
  rcases step?_select hthrough selector with ⟨answer, hstep⟩
  have hselects := session.pool.selects id selector
  exact ⟨_, answer, hstep, rfl, hselects.contents_self hsound.pool (hsound.hasMap hname)⟩

/-- A lifted scan has no attribute, so its version tells only whether cells are limited. -/
theorem wireVersion_toScan {μ φ : Type} (lookup : Lookup μ φ) :
    lookup.toScan.wireVersion = .base ∨ lookup.toScan.wireVersion = .pagination := by
  by_cases hlimit : lookup.toScan.cellLimit ≠ unset ∨ lookup.toScan.cellOffset ≠ 0
  · right
    rw [Scan.wireVersion, if_pos hlimit]
  · left
    rw [Scan.wireVersion, if_neg hlimit]
    rfl

/-- **A lift shares the families and nothing else.** Lifting always succeeds; the scan has none of
the attributes of the lookup, and so needs the oldest version of the message or the one for limits.
After any steps that give neither name to another object, the scan is a scan and the lookup a
lookup. Unless one of them was given another family map, both hold the same one, and every
selection through any name of it is in both. And whatever call is made on the one leaves the
settings and references of the other as they are, and unless it is a selection all that one can
see of it. -/
theorem lift_shares_families (hreach : Reachable session) {lookupName scanName : String}
    {lookup : Lookup MapId FilterId} (hlookup : session.lookup? lookupName = some lookup)
    (hne : scanName ≠ lookupName) :
    ∃ start scan, session.step? (.make scanName (.lift lookupName)) =
        some (start, ⟨.ok .created, [.lifted lookup.row]⟩) ∧
      start.scan? scanName = some scan ∧ scan.attributes = ∅ ∧
      (scan.wireVersion = .base ∨ scan.wireVersion = .pagination) ∧
      ∀ steps last outcomes,
        (∀ step ∈ steps, ¬ step.Rebinds scanName ∧ ¬ step.Rebinds lookupName) →
        start.run? steps = some (last, outcomes) →
        (∃ scan', last.scan? scanName = some scan') ∧
          (∃ lookup', last.lookup? lookupName = some lookup') ∧
          ((∀ step ∈ steps, ¬ step.ReplacesMap scanName ∧ ¬ step.ReplacesMap lookupName) →
            last.ShareFamilies scanName lookupName lookup.families) ∧
          last.Independent scanName lookupName ∧ last.Independent lookupName scanName := by
  have hlift := step?_lift hlookup scanName
  have hscan := scan?_bind_self session scanName lookup.toScan
  refine ⟨_, lookup.toScan, hlift, hscan, rfl, wireVersion_toScan lookup, ?_⟩
  intro steps last outcomes hsteps hrun
  -- the lift leaves the lookup under its name
  have hkept : (session.bind scanName (.request (.scan lookup.toScan))).lookup? lookupName =
      some lookup := by
    rw [lookup?_eq_some, get?_bind_of_ne hne.symm]
    exact lookup?_eq_some.1 hlookup
  have hscanName : ∀ step ∈ steps, ¬ step.Rebinds scanName := fun step hmem => (hsteps step hmem).1
  have hlookupName : ∀ step ∈ steps, ¬ step.Rebinds lookupName :=
    fun step hmem => (hsteps step hmem).2
  rcases run?_scan hscan hscanName hrun with ⟨scan', hscan', -⟩
  rcases run?_lookup hkept hlookupName hrun with ⟨lookup', hlookup', -⟩
  refine ⟨⟨scan', hscan'⟩, ⟨lookup', hlookup'⟩, ?_, ?_, ?_⟩
  · intro hmaps
    have hsound := (hreach.sound.step hlift).run hrun
    refine shareFamilies hsound ?_ ?_
    · exact run?_mapOf? (request?_eq_some.2 (scan?_eq_some.1 hscan)) hscanName
        (fun step hmem => (hmaps step hmem).1) hrun
    · exact run?_mapOf? (request?_eq_some.2 (lookup?_eq_some.1 hkept)) hlookupName
        (fun step hmem => (hmaps step hmem).2) hrun
  · exact independent (request?_eq_some.2 (scan?_eq_some.1 hscan')) hne.symm
  · exact independent (request?_eq_some.2 (lookup?_eq_some.1 hlookup')) hne

/-- A lookup with an attribute and a limit is lifted; then a map is taken of it, and columns are
selected through the map and through the scan. -/
theorem lift_shares_families_through_map :
    let session := after [.make "lookup" (.lookup [114]), .call "lookup" (.set (.cellLimit 2)),
      .call "lookup" (.set (.operationId "id"))]
    let steps : List Step := [.make "map" (.mapOf "lookup"),
      .call "map" (.select (.column [102] (some [113]))), .call "scan" (.setScan (.stopRow [])),
      .call "scan" (.select (.column [102] (some [112])))]
    "scan" ≠ "lookup" ∧
      ∃ start scan, session.step? (.make "scan" (.lift "lookup")) =
          some (start, ⟨.ok .created, [.lifted [114]]⟩) ∧
        start.scan? "scan" = some scan ∧ scan.wireVersion = .pagination ∧
        ∃ last outcomes, start.run? steps = some (last, outcomes) ∧
          last.ShareFamilies "scan" "lookup" ⟨0⟩ ∧ last.Independent "scan" "lookup" ∧
          last.Independent "lookup" "scan" := by
  intro session steps
  have hne : "scan" ≠ "lookup" := by decide
  have hlookup : session.lookup? "lookup" = some {
      families := ⟨0⟩, row := [114], cellLimit := 2
      attributes := OrderedMap.put ∅ Attributes.idName (Utf8.encode "id") } := rfl
  rcases lift_shares_families (reachable_after _) hlookup hne with
    ⟨start, scan, hstep, hscan, -, -, hruns⟩
  have hrebinds : ∀ step ∈ steps, ¬ step.Rebinds "scan" ∧ ¬ step.Rebinds "lookup" := by
    simp [steps, Step.Rebinds]
  have hmaps : ∀ step ∈ steps, ¬ step.ReplacesMap "scan" ∧ ¬ step.ReplacesMap "lookup" := by
    simp [steps, Step.ReplacesMap]
  have hwire : scan.wireVersion = .pagination := by
    cases hstep
    cases hscan
    rfl
  obtain ⟨last, outcomes, hrun⟩ : ∃ last outcomes, start.run? steps = some (last, outcomes) := by
    cases hstep
    exact ⟨_, _, rfl⟩
  rcases hruns steps last outcomes hrebinds hrun with ⟨-, -, hshare, honScan, honLookup⟩
  exact ⟨hne, start, scan, hstep, hscan, hwire, last, outcomes, hrun, hshare hmaps, honScan,
    honLookup⟩

end Session

end ReadPlan
