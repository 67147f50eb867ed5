import ReadPlan.Proofs.Session.CopyIsolation

/-!
# ReadPlan.Proofs.Session.Requests — what a step makes of one request

As long as its name is given to no other object, a request changes only by calls on that name, each
in its own part (`Session.Becomes`): a scan stays a scan, a lookup stays a lookup of its row, and
only `useMap` gives a request another family map. A call on one name leaves the object under every
other name as it is, and unless it selects it shows nowhere else (`Session.Independent`).
-/

namespace ReadPlan

/-! ## What steps do to a name -/

/-- The name that a step gives to an object or calls. -/
def Step.target : Step → String
  | .make name _ => name
  | .call name _ => name

/-- The step gives the name to another object. -/
def Step.Rebinds (name : String) : Step → Prop
  | .make target _ => target = name
  | .call .. => False

/-- The step gives the request of the name another family map. -/
def Step.ReplacesMap (name : String) : Step → Prop
  | .call target (.useMap _) => target = name
  | _ => False

/-- The setting sets a bound of the rows. -/
def ScanSetting.IsRow : ScanSetting → Prop
  | .startRow _ | .stopRow _ => True
  | _ => False

/-- The step sets a bound of the rows of the scan of the name. -/
def Step.SetsRow (name : String) : Step → Prop
  | .call target (.setScan setting) => target = name ∧ setting.IsRow
  | _ => False

/-- The call selects families or columns. -/
def Call.IsSelection : Call → Prop
  | .select _ => True
  | _ => False

/-- Only the settings of the rows touch the rows. -/
theorem Scan.apply_rows {μ φ : Type} {scan changed : Scan μ φ} {filter? : Option Filter}
    {setting : ScanSetting} {log : List LogRecord}
    (hset : scan.apply filter? setting = ⟨.ok changed, log⟩) (hrow : ¬ setting.IsRow) :
    changed.startRow = scan.startRow ∧ changed.stopRow = scan.stopRow := by
  cases setting with
  | startRow row => exact absurd trivial hrow
  | stopRow row => exact absurd trivial hrow
  | batch size =>
    rw [setBatch_ok hset]
    exact ⟨rfl, rfl⟩
  | caching | maxResultSize | raw | metrics | isolation =>
    cases hset
    exact ⟨rfl, rfl⟩

namespace Session

variable {session next : Session} {name other : String} {step : Step}

/-! ## One request -/

/-- What a step makes of the request under a name. -/
inductive Becomes (name : String) (request : Request MapId FilterId) :
    Step → Request MapId FilterId → Prop where
  | same (step : Step) : Becomes name request step request
  | set {changed : Request MapId FilterId} {setting : Setting} {log : List LogRecord}
    (hset : request.apply setting = ⟨.ok changed, log⟩) :
    Becomes name request (.call name (.set setting)) changed
  | setScan {scan changed : Scan MapId FilterId} {filter? : Option Filter}
    {setting : ScanSetting} {log : List LogRecord} (hscan : request = .scan scan)
    (hset : scan.apply filter? setting = ⟨.ok changed, log⟩) :
    Becomes name request (.call name (.setScan setting)) (.scan changed)
  | useMap (map : String) (families : MapId) :
    Becomes name request (.call name (.useMap map))
      (request.withCriteria { request.criteria with families })
  | useFilter (filterName? : Option String) (filter? : Option FilterId) :
    Becomes name request (.call name (.useFilter filterName?))
      (request.withCriteria { request.criteria with filter? })

/-- A step leaves the objects of all other names as they are. -/
theorem Transition.get?_of_ne (hstep : session.Transition step next)
    (hother : other ≠ step.target) :
    next.objects.get? other = session.objects.get? other := by
  cases hstep with
  | same | select | setWholeRow => rfl
  | make | set | setScan | useMap | useFilter => exact get?_bind_of_ne hother _

/-- A step that gives the name to no other object keeps a request there. -/
theorem Transition.becomes (hstep : session.Transition step next)
    {request : Request MapId FilterId} (hname : session.request? name = some request)
    (hkeeps : ¬ step.Rebinds name) :
    ∃ changed, next.request? name = some changed ∧ Becomes name request step changed := by
  by_cases htarget : name = step.target
  · have hhere := session.request?_bind_self name
    subst htarget
    cases hstep with
    | same | select | setWholeRow => exact ⟨request, hname, .same _⟩
    | make => exact absurd rfl hkeeps
    | @set target found changed setting log hfound hset =>
      obtain rfl := Option.some.inj (hname.symm.trans hfound)
      exact ⟨changed, hhere changed, .set hset⟩
    | @setScan target scan changed setting log hfound hset =>
      have hscan := request?_of_scan? hfound
      exact ⟨.scan changed, hhere _, .setScan (Option.some.inj (hname.symm.trans hscan)) hset⟩
    | @useMap target map found families hfound hmap =>
      obtain rfl := Option.some.inj (hname.symm.trans hfound)
      exact ⟨_, hhere _, .useMap map families⟩
    | @useFilter target filterName? found filter? hfound hfilter =>
      obtain rfl := Option.some.inj (hname.symm.trans hfound)
      exact ⟨_, hhere _, .useFilter filterName? filter?⟩
  · refine ⟨request, ?_, .same step⟩
    rw [request?_eq_some, hstep.get?_of_ne htarget]
    exact request?_eq_some.1 hname

namespace Becomes

variable {request changed : Request MapId FilterId}

/-- Only `useMap` gives a request another family map. -/
theorem families_eq (h : Becomes name request step changed) (hmap : ¬ step.ReplacesMap name) :
    changed.criteria.families = request.criteria.families := by
  cases h with
  | same => rfl
  | set hset => exact (Request.apply_keeps hset).1
  | setScan hscan hset =>
    subst hscan
    exact (Scan.apply_keeps hset).1
  | useMap => exact absurd rfl hmap
  | useFilter => rw [Request.criteria_withCriteria]

/-- A scan stays a scan, of the same rows unless they are set. -/
theorem scan {before : Scan MapId FilterId} (h : Becomes name (.scan before) step changed) :
    ∃ after, changed = .scan after ∧ (¬ step.SetsRow name →
      after.startRow = before.startRow ∧ after.stopRow = before.stopRow) := by
  cases h with
  | same => exact ⟨before, rfl, fun _ => ⟨rfl, rfl⟩⟩
  | set hset =>
    rcases Request.apply_eq_ok hset with ⟨criteria, -, rfl⟩
    exact ⟨before.withCriteria criteria, rfl, fun _ => ⟨rfl, rfl⟩⟩
  | @setScan found after filter? setting log hscan hset =>
    cases hscan
    exact ⟨after, rfl, fun hrows => Scan.apply_rows hset fun hrow => hrows ⟨rfl, hrow⟩⟩
  | useMap map families =>
    exact ⟨before.withCriteria { before.toCriteria with families }, rfl, fun _ => ⟨rfl, rfl⟩⟩
  | useFilter filterName? filter? =>
    exact ⟨before.withCriteria { before.toCriteria with filter? }, rfl, fun _ => ⟨rfl, rfl⟩⟩

/-- A lookup stays a lookup of its row. -/
theorem lookup {before : Lookup MapId FilterId}
    (h : Becomes name (.lookup before) step changed) :
    ∃ after, changed = .lookup after ∧ after.row = before.row := by
  cases h with
  | same => exact ⟨before, rfl, rfl⟩
  | set hset =>
    rcases Request.apply_eq_ok hset with ⟨criteria, -, rfl⟩
    exact ⟨before.withCriteria criteria, rfl, rfl⟩
  | setScan hscan hset => cases hscan
  | useMap map families =>
    exact ⟨before.withCriteria { before.toCriteria with families }, rfl, rfl⟩
  | useFilter filterName? filter? =>
    exact ⟨before.withCriteria { before.toCriteria with filter? }, rfl, rfl⟩

end Becomes

/-! ## Two requests -/

/-- Calls on the one name leave the object of the other as it is, and only selections show there. -/
def Independent (session : Session) (name other : String) : Prop :=
  ∀ call next outcome, session.step? (.call name call) = some (next, outcome) →
    next.objects.get? other = session.objects.get? other ∧
      (¬ call.IsSelection → next.snapshot? other = session.snapshot? other)

/-- A call on a request that selects nothing shows under no other name. -/
theorem Transition.sameElsewhere {call : Call} (hstep : session.Transition (.call name call) next)
    {request : Request MapId FilterId} (hname : session.request? name = some request)
    (hcall : ¬ call.IsSelection) : SameElsewhere name session next := by
  cases hstep with
  | same => exact SameElsewhere.refl name session
  | select => exact absurd trivial hcall
  | set | setScan | useMap | useFilter => exact sameElsewhere_bind session name _
  | setWholeRow flag hfilter =>
    -- the flag of a filter is not set through a request
    have hboth := (request?_eq_some.1 hname).symm.trans (filter?_eq_some.1 hfilter)
    cases hboth

theorem independent {request : Request MapId FilterId}
    (hname : session.request? name = some request) (hne : other ≠ name) :
    session.Independent name other := by
  intro call next outcome hstep
  have htransition := step?_transition hstep
  refine ⟨htransition.get?_of_ne hne, fun hcall => ?_⟩
  exact (htransition.sameElsewhere hname hcall other hne).2

end Session

end ReadPlan
