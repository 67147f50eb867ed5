import ReadPlan.Proofs.Session.Transition

/-!
# ReadPlan.Proofs.Session.LiftRuns — lifting before or after the same calls

Every call that lookups and scans both take, but for those on attributes, can be made on a lookup
that is lifted afterwards or on the scan that it was lifted to before. The two runs go side by side
(`Session.SideBySide`): the pools are the same, and the scan of the one run is what the lookup of
the other would be lifted to. So it makes no difference when one lifts.
-/

namespace ReadPlan

namespace Session

/-- The calls that a lookup and a scan both take, but for those on attributes. The maps and filters
that they mention are there, and under other names than that of the scan. -/
def AdmitsOnBoth (session : Session) (scanName : String) : Call → Prop
  | .select _ => True
  | .set setting => ¬ setting.IsAttribute
  | .useMap map => map ≠ scanName ∧ ∃ id, session.map? map = some id
  | .useFilter filterName? =>
    filterName? ≠ some scanName ∧ ∃ filter?, session.filterOrNone? filterName? = some filter?
  | .setScan _ | .setWholeRow _ | .ask _ | .askScan _ | .compare .. => False

/-- A session with a lookup beside one with the scan that it would be lifted to, after the same
calls. -/
structure SideBySide (start : Session) (lookupName scanName : String) (row : Bytes)
    (s₁ s₂ : Session) : Prop where
  pool : s₁.pool = s₂.pool
  requests : ∃ lookup, lookup.row = row ∧ s₁.lookup? lookupName = some lookup ∧
    s₂.scan? scanName = some lookup.toScan
  others₁ : ∀ other, other ≠ lookupName → s₁.objects.get? other = start.objects.get? other
  others₂ : ∀ other, other ≠ scanName → s₂.objects.get? other = start.objects.get? other

/-- Sessions side by side take a call both, with the same outcome, and stay side by side. -/
def StepBoth (start : Session) (lookupName scanName : String) (row : Bytes) (s₁ s₂ : Session)
    (call : Call) : Prop :=
  ∃ t₁ t₂ outcome, s₁.step? (.call lookupName call) = some (t₁, outcome) ∧
    s₂.step? (.call scanName call) = some (t₂, outcome) ∧
    SideBySide start lookupName scanName row t₁ t₂

namespace SideBySide

variable {start s₁ s₂ : Session} {lookupName scanName : String} {row : Bytes}

/-- A name other than those of the two requests stands for the same in both sessions. -/
theorem get?_eq (h : SideBySide start lookupName scanName row s₁ s₂) {other : String}
    (hlookup : other ≠ lookupName) (hscan : other ≠ scanName) :
    s₁.objects.get? other = s₂.objects.get? other :=
  (h.others₁ other hlookup).trans (h.others₂ other hscan).symm

/-- A map that was there at first is there under its name. -/
theorem map?_eq (h : SideBySide start lookupName scanName row s₁ s₂)
    {found : Lookup MapId FilterId} (hfound : start.lookup? lookupName = some found)
    {map : String} (hne : map ≠ scanName) {id : MapId} (hmap : start.map? map = some id) :
    s₁.map? map = some id ∧ s₂.map? map = some id := by
  have hget := map?_eq_some.1 hmap
  -- the name of the lookup stands for no map
  have hlookup : map ≠ lookupName := by
    rintro rfl
    have hboth := hget.symm.trans (lookup?_eq_some.1 hfound)
    cases hboth
  constructor
  · rw [map?_eq_some, h.others₁ map hlookup]
    exact hget
  · rw [map?_eq_some, h.others₂ map hne]
    exact hget

/-- So is a filter. -/
theorem filterOrNone?_eq (h : SideBySide start lookupName scanName row s₁ s₂)
    {found : Lookup MapId FilterId} (hfound : start.lookup? lookupName = some found)
    {filterName? : Option String} (hne : filterName? ≠ some scanName) {filter? : Option FilterId}
    (hfilter : start.filterOrNone? filterName? = some filter?) :
    s₁.filterOrNone? filterName? = some filter? ∧ s₂.filterOrNone? filterName? = some filter? := by
  cases filterName? with
  | none => exact ⟨hfilter, hfilter⟩
  | some name =>
    rcases Option.map_eq_some_iff.1 hfilter with ⟨id, hid, heq⟩
    have hget := filter?_eq_some.1 hid
    have hscan : name ≠ scanName := fun heq => hne (congrArg some heq)
    have hlookup : name ≠ lookupName := by
      rintro rfl
      have hboth := hget.symm.trans (lookup?_eq_some.1 hfound)
      cases hboth
    have h₁ : s₁.filter? name = some id := by
      rw [filter?_eq_some, h.others₁ name hlookup]
      exact hget
    have h₂ : s₂.filter? name = some id := by
      rw [filter?_eq_some, h.others₂ name hscan]
      exact hget
    constructor
    · rw [filterOrNone?, h₁, Option.map_some, heq]
    · rw [filterOrNone?, h₂, Option.map_some, heq]

theorem select (h : SideBySide start lookupName scanName row s₁ s₂) (selector : Selector) :
    StepBoth start lookupName scanName row s₁ s₂ (.select selector) := by
  rcases h.requests with ⟨lookup, hrow, hlookup, hscan⟩
  have hstep₁ := step?_call_request (lookup?_eq_some.1 hlookup) (.select selector)
  have hstep₂ := step?_call_request (scan?_eq_some.1 hscan) (.select selector)
  refine ⟨_, _, _, hstep₁, hstep₂, ?_, ⟨lookup, hrow, hlookup, hscan⟩, h.others₁, h.others₂⟩
  -- the lifted scan refers to the map of the lookup
  show s₁.pool.select lookup.families selector = s₂.pool.select lookup.families selector
  rw [h.pool]

/-- A call that changes the criteria, the same on the scan as on the lookup. -/
theorem change (h : SideBySide start lookupName scanName row s₁ s₂) {call : Call}
    {lookup : Lookup MapId FilterId} (hrow : lookup.row = row)
    (hlookup : s₁.lookup? lookupName = some lookup)
    (hscan : s₂.scan? scanName = some lookup.toScan) (outcome : Outcome (Criteria MapId FilterId))
    (hcall₁ : s₁.callRequest? lookupName (.lookup lookup) call =
      some (outcome >>= fun criteria =>
        pure (s₁.bind lookupName (.request (.lookup (lookup.withCriteria criteria))), .itself)))
    (hcall₂ : s₂.callRequest? scanName (.scan lookup.toScan) call =
      some (outcome >>= fun criteria =>
        pure (s₂.bind scanName (.request (.scan (lookup.withCriteria criteria).toScan)),
          .itself))) :
    StepBoth start lookupName scanName row s₁ s₂ call := by
  have hstep₁ := step?_call_request (lookup?_eq_some.1 hlookup) call
  have hstep₂ := step?_call_request (scan?_eq_some.1 hscan) call
  rw [hcall₁] at hstep₁
  rw [hcall₂] at hstep₂
  rcases outcome with ⟨result, log⟩
  cases result with
  | error failure =>
    -- a call that is refused leaves both sessions as they were
    exact ⟨_, _, _, hstep₁, hstep₂, h⟩
  | ok criteria =>
    have hnext : SideBySide start lookupName scanName row
        (s₁.bind lookupName (.request (.lookup (lookup.withCriteria criteria))))
        (s₂.bind scanName (.request (.scan (lookup.withCriteria criteria).toScan))) := by
      refine ⟨h.pool, ⟨lookup.withCriteria criteria, hrow, ?_, ?_⟩, ?_, ?_⟩
      · exact lookup?_bind_self _ _ _
      · exact scan?_bind_self _ _ _
      · intro other hother
        rw [get?_bind_of_ne hother]
        exact h.others₁ other hother
      · intro other hother
        rw [get?_bind_of_ne hother]
        exact h.others₂ other hother
    exact ⟨_, _, _, hstep₁, hstep₂, hnext⟩

/-- Every call that both take keeps them side by side. -/
theorem step (h : SideBySide start lookupName scanName row s₁ s₂) {found : Lookup MapId FilterId}
    (hfound : start.lookup? lookupName = some found) {call : Call}
    (hadmits : start.AdmitsOnBoth scanName call) :
    StepBoth start lookupName scanName row s₁ s₂ call := by
  rcases h.requests with ⟨lookup, hrow, hlookup, hscan⟩
  cases call with
  | select selector => exact h.select selector
  | set setting =>
    refine h.change hrow hlookup hscan (lookup.toCriteria.apply setting) ?_ ?_
    · rw [callRequest?, Request.apply_lookup, Outcome.bind_map]
    · rw [callRequest?, Request.apply_toScan hadmits, Outcome.bind_map]
  | useMap map =>
    rcases hadmits with ⟨hne, families, hmap⟩
    rcases h.map?_eq hfound hne hmap with ⟨hmap₁, hmap₂⟩
    refine h.change hrow hlookup hscan (.ok { lookup.toCriteria with families }) ?_ ?_
    · rw [callRequest?, hmap₁]
      rfl
    · rw [callRequest?, hmap₂]
      rfl
  | useFilter filterName? =>
    rcases hadmits with ⟨hne, filter?, hfilter⟩
    rcases h.filterOrNone?_eq hfound hne hfilter with ⟨hfilter₁, hfilter₂⟩
    refine h.change hrow hlookup hscan (.ok { lookup.toCriteria with filter? }) ?_ ?_
    · rw [callRequest?, hfilter₁]
      rfl
    · rw [callRequest?, hfilter₂]
      rfl
  | setScan | setWholeRow | ask | askScan | compare => exact hadmits.elim

/-- So do runs of calls. -/
theorem run (h : SideBySide start lookupName scanName row s₁ s₂) {found : Lookup MapId FilterId}
    (hfound : start.lookup? lookupName = some found) {calls : List Call}
    (hadmits : ∀ call ∈ calls, start.AdmitsOnBoth scanName call) :
    ∃ t₁ t₂ outcomes, s₁.run? (calls.map (.call lookupName)) = some (t₁, outcomes) ∧
      s₂.run? (calls.map (.call scanName)) = some (t₂, outcomes) ∧
      SideBySide start lookupName scanName row t₁ t₂ := by
  induction calls generalizing s₁ s₂ with
  | nil => exact ⟨s₁, s₂, [], rfl, rfl, h⟩
  | cons call rest ih =>
    rcases h.step hfound (hadmits call List.mem_cons_self) with
      ⟨u₁, u₂, outcome, hstep₁, hstep₂, hnext⟩
    rcases ih hnext fun c hc => hadmits c (List.mem_cons_of_mem _ hc) with
      ⟨t₁, t₂, outcomes, hrun₁, hrun₂, hlast⟩
    exact ⟨t₁, t₂, outcome :: outcomes,
      run?_cons_eq_some.2 ⟨u₁, outcome, outcomes, hstep₁, hrun₁, rfl⟩,
      run?_cons_eq_some.2 ⟨u₂, outcome, outcomes, hstep₂, hrun₂, rfl⟩, hlast⟩

end SideBySide

/-- Right after the lift the two sessions are side by side. -/
theorem sideBySide_lift {session : Session} {lookupName : String} {lookup : Lookup MapId FilterId}
    (hlookup : session.lookup? lookupName = some lookup) (scanName : String) :
    SideBySide session lookupName scanName lookup.row session
      (session.bind scanName (.request (.scan lookup.toScan))) := by
  refine ⟨rfl, ⟨lookup, rfl, hlookup, ?_⟩, fun _ _ => rfl, ?_⟩
  · exact scan?_bind_self _ _ _
  · intro other hother
    exact get?_bind_of_ne hother _

/-- **Lifting commutes with building.** Calls that lookups and scans both take, but for those on
attributes, can be made on a lookup before it is lifted, or on the scan after: one can make them
either way, each has the same outcome, and so has the lift. The scan is the same in the end, with
the same pool behind it, and so is everything but what stands under the name of the lookup. -/
theorem lift_commutes {session : Session} {lookupName : String} {lookup : Lookup MapId FilterId}
    (hlookup : session.lookup? lookupName = some lookup) (scanName : String) {calls : List Call}
    (hadmits : ∀ call ∈ calls, session.AdmitsOnBoth scanName call) :
    ∃ last₁ last₂ outcomes,
      session.run? (calls.map (.call lookupName) ++ [.make scanName (.lift lookupName)]) =
        some (last₁, outcomes ++ [⟨.ok .created, [.lifted lookup.row]⟩]) ∧
      session.run? (.make scanName (.lift lookupName) :: calls.map (.call scanName)) =
        some (last₂, ⟨.ok .created, [.lifted lookup.row]⟩ :: outcomes) ∧
      last₁.pool = last₂.pool ∧
      (∃ scan, last₁.scan? scanName = some scan ∧ last₂.scan? scanName = some scan) ∧
      ∀ other, other ≠ lookupName → last₁.objects.get? other = last₂.objects.get? other ∧
        last₁.snapshot? other = last₂.snapshot? other := by
  rcases (sideBySide_lift hlookup scanName).run hlookup hadmits with
    ⟨t₁, t₂, outcomes, hrun₁, hrun₂, hlast⟩
  rcases hlast.requests with ⟨final, hrow, hfinal, hscan⟩
  -- no call changes the row, so the late lift logs the same row as the early one
  have hlift := step?_lift hfinal scanName
  rw [hrow] at hlift
  refine ⟨t₁.bind scanName (.request (.scan final.toScan)), t₂, outcomes, ?_, ?_, hlast.pool,
    ⟨final.toScan, ?_, hscan⟩, ?_⟩
  · exact run?_append hrun₁ (run?_cons_eq_some.2 ⟨_, _, [], hlift, rfl, rfl⟩)
  · exact run?_cons_eq_some.2 ⟨_, _, outcomes, step?_lift hlookup scanName, hrun₂, rfl⟩
  · exact scan?_bind_self _ _ _
  · intro other hother
    have hobject : (t₁.bind scanName (.request (.scan final.toScan))).objects.get? other =
        t₂.objects.get? other := by
      rw [get?_bind]
      by_cases hname : other = scanName
      · rw [if_pos hname, hname]
        exact (scan?_eq_some.1 hscan).symm
      · rw [if_neg hname]
        exact hlast.get?_eq hother hname
    have hpool : (t₁.bind scanName (.request (.scan final.toScan))).pool = t₂.pool := hlast.pool
    exact ⟨hobject, by rw [snapshot?, snapshot?, hobject, hpool]⟩

/-- A time range that is refused, a map from elsewhere, a column in it, and a filter. -/
theorem lift_commutes_with_borrowed_map :
    let session := after [.make "lookup" (.lookup [114]), .make "map" (.familyMap ∅),
      .make "filter" (.filter { name := "Filter" })]
    let calls : List Call := [.set (.timeRange 2 1), .useMap "map",
      .select (.column [102] (some [113])), .useFilter (some "filter")]
    ∃ last₁ last₂ outcomes,
      session.run? (calls.map (.call "lookup") ++ [.make "scan" (.lift "lookup")]) =
        some (last₁, outcomes ++ [⟨.ok .created, [.lifted [114]]⟩]) ∧
      session.run? (.make "scan" (.lift "lookup") :: calls.map (.call "scan")) =
        some (last₂, ⟨.ok .created, [.lifted [114]]⟩ :: outcomes) ∧
      last₁.pool = last₂.pool := by
  intro session calls
  have hlookup : session.lookup? "lookup" = some { families := ⟨0⟩, row := [114] } := rfl
  have hadmits : ∀ call ∈ calls, session.AdmitsOnBoth "scan" call := by
    intro call hcall
    simp only [calls, List.mem_cons, List.not_mem_nil, or_false] at hcall
    rcases hcall with rfl | rfl | rfl | rfl
    · exact id
    · exact ⟨by decide, ⟨1⟩, rfl⟩
    · trivial
    · exact ⟨by decide, some ⟨0⟩, rfl⟩
  rcases lift_commutes hlookup "scan" hadmits with ⟨last₁, last₂, outcomes, hrun₁, hrun₂, hpool, -⟩
  exact ⟨last₁, last₂, outcomes, hrun₁, hrun₂, hpool⟩

end Session

end ReadPlan
