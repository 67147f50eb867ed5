import ReadPlan.Proofs.Pool.Rebuild
import ReadPlan.Proofs.Session.CopyIsolation
import ReadPlan.Proofs.Session.CopyRuns
import ReadPlan.Proofs.Session.Failures

/-!
# ReadPlan.Proofs.Session.Writes — steps that write as they go

`Session.step?` puts a session back if a step fails. Here a step is told as checks and writes in the
order in which they are made, a copy of a map even selector by selector, and nothing is ever put
back (`Work`, `Session.work?`). The two come to the same session with the same outcome
(`Session.step?_eq_work`): each step checks before it writes. So a step that fails, or only asks,
leaves no trace, and one that makes an object leaves all others alone (`Session.step_frame`).
-/

namespace ReadPlan

/-! ## Checks and writes -/

/-- A computation that writes to the session as it goes. What it wrote before it fails stays
written. -/
def Work (α : Type) : Type :=
  Session → Session × Outcome α

namespace Work

variable {α β : Type}

/-- A value, and nothing written. -/
def done (value : α) : Work α :=
  fun session => (session, .ok value)

/-- Goes on with the value in the session as it was left, and ends at the first failure. -/
def andThen (first : Work α) (next : α → Work β) : Work β :=
  fun session =>
    match first session with
    | (later, ⟨.ok value, log⟩) =>
      ((next value later).1, ⟨(next value later).2.result, log ++ (next value later).2.log⟩)
    | (later, ⟨.error failure, log⟩) => (later, ⟨.error failure, log⟩)

instance : Monad Work where
  pure := done
  bind := andThen

/-- A part that may fail or log, and writes nothing. -/
def check (outcome : Outcome α) : Work α :=
  fun session => (session, outcome)

/-- Changes the session. -/
def write (change : Session → Session) : Work Unit :=
  fun session => (change session, .ok ())

/-- Makes something in the pool. -/
def allocate (make : Pool → α × Pool) : Work α :=
  fun session => ({ session with pool := (make session.pool).2 }, .ok (make session.pool).1)

/-- Selects through a map, one selector after the other. -/
def selectAll (id : MapId) : List Selector → Work Unit
  | [] => return ()
  | selector :: rest => do
    write fun session => { session with pool := session.pool.select id selector }
    selectAll id rest

/-- Copies a selection into a new map. -/
def copyFamilies (selection : Selection) : Work MapId := do
  let id ← allocate fun pool => pool.newMap ∅
  selectAll id selection.selectors
  return id

end Work

namespace Session

open Work

/-! ## Steps as work -/

/-- The work that makes an object. A copy checks the window first and rebuilds the families then. -/
def construction? (session : Session) : Construction → Option (Work Object)
  | .scan startRow stopRow filter? => do
    let filter? ← session.filterOrNone? filter?
    return do
      let families ← allocate fun pool => pool.newMap ∅
      return .request (.scan { families, filter?, startRow, stopRow })
  | .lookup row filter? => do
    let filter? ← session.filterOrNone? filter?
    return do
      let families ← allocate fun pool => pool.newMap ∅
      return .request (.lookup { families, filter?, row })
  | .filter filter => some do
    let id ← allocate fun pool => pool.newFilter filter
    return .filter id
  | .familyMap selection => some do
    let id ← allocate fun pool => pool.newMap selection
    return .familyMap id
  | .copy name => do
    let scan ← session.scan? name
    return do
      let copy ← check (scan.copyWith scan.families)
      let families ← copyFamilies (session.pool.contents scan.families)
      return .request (.scan { copy with families })
  | .lift name => do
    let lookup ← session.lookup? name
    return do
      let scan ← check lookup.lift
      return .request (.scan scan)
  | .mapOf name => do
    let request ← session.request? name
    return do
      return .familyMap request.criteria.families
  | .shareSets name => do
    let id ← session.map? name
    return do
      let shared ← allocate fun pool => pool.shareSets id
      return .familyMap shared
  | .copyMap name => do
    let id ← session.map? name
    return do
      let copy ← copyFamilies (session.pool.contents id)
      return .familyMap copy

/-- The work of a call on a request. A setting is checked before it is written. -/
def requestCall? (session : Session) (name : String) (request : Request MapId FilterId) :
    Call → Option (Work Answer)
  | .select selector => some do
    selectAll request.criteria.families [selector]
    return .itself
  | .set setting => some do
    let changed ← check (request.apply setting)
    write fun session => session.bind name (.request changed)
    return .itself
  | .setScan setting =>
    match request with
    | .scan scan => some do
      let changed ← check (scan.apply (scan.filter?.map session.pool.filter) setting)
      write fun session => session.bind name (.request (.scan changed))
      return .itself
    | .lookup _ => none
  | .useMap map => do
    let families ← session.map? map
    return do
      write fun session => session.bind name
        (.request (request.withCriteria { request.criteria with families }))
      return .itself
  | .useFilter filter? => do
    let filter? ← session.filterOrNone? filter?
    return do
      write fun session => session.bind name
        (.request (request.withCriteria { request.criteria with filter? }))
      return .itself
  | .setWholeRow _ => none
  | .ask query => some (check (.ofExcept ((session.pool.resolve request).answer query)))
  | .askScan query =>
    match request with
    | .scan scan => some (check (.ofExcept
        ((scan.map session.pool.contents session.pool.filter).answer query)))
    | .lookup _ => none
  | .compare other question => do
    let second ← session.request? other
    return check (.ofExcept (Answer.truth <$> comparison session.pool request second question))

/-- The work of a step; none for a step that mentions the wrong objects. -/
def work? (session : Session) : Step → Option (Work Answer)
  | .make name construction => do
    let make ← session.construction? construction
    return do
      let object ← make
      write fun session => session.bind name object
      return .created
  | .call name call => do
    match ← session.objects.get? name, call with
    | .request request, call => session.requestCall? name request call
    | .familyMap id, .select selector => some do
      selectAll id [selector]
      return .nothing
    | .filter id, .setWholeRow flag => some do
      write fun session => { session with pool := session.pool.setWholeRow id flag }
      return .nothing
    | _, _ => none

variable {session next : Session} {step : Step} {outcome : Outcome Answer}

/-! ## What the work comes to -/

section Run

variable {α β : Type}

/-- Goes on from what the first part left, if it failed on nothing and logged nothing. -/
theorem bind_run {first : Work α} {value : α} (h : first session = (next, .ok value))
    (rest : α → Work β) : (first >>= rest) session = rest value next := by
  show andThen first rest session = _
  rw [andThen, h]
  rfl

theorem write_bind (change : Session → Session) (rest : Unit → Work β) :
    (write change >>= rest) session = rest () (change session) :=
  bind_run rfl rest

theorem selectAll_run (session : Session) (id : MapId) (selectors : List Selector) :
    selectAll id selectors session =
      ({ session with pool := session.pool.selectAll id selectors }, .ok ()) := by
  induction selectors generalizing session with
  | nil => rfl
  | cons selector rest ih =>
    rw [Work.selectAll, write_bind, ih]
    rfl

/-- Copying families selector by selector makes the map of the rebuilt selection at once. -/
theorem copyFamilies_run (session : Session) (selection : Selection) :
    copyFamilies selection session =
      ({ session with pool := (session.pool.newMap selection.rebuild).2 },
        .ok (session.pool.newMap selection.rebuild).1) := by
  have hid : (session.pool.newMap ∅).1 = (session.pool.newMap selection.rebuild).1 := by
    rw [Pool.newMap_fst, Pool.newMap_fst]
  rw [copyFamilies, bind_run rfl, bind_run (selectAll_run _ _ _), ← hid,
    ← Pool.selectAll_newMap]
  rfl

/-- An object that is made is named. -/
theorem make_bind_run {make : Work Object} {pool : Pool} {object : Object} {log : List LogRecord}
    (h : make session = ({ session with pool }, ⟨.ok object, log⟩)) (name : String) :
    (do let object ← make; write fun session => session.bind name object; return .created :
        Work Answer) session =
      ({ session with pool }.bind name object, ⟨.ok .created, log ++ []⟩) := by
  show andThen make _ session = _
  rw [andThen, h]
  rfl

/-- A check before a write: where the check fails nothing is written. -/
theorem check_write_run (session : Session) (outcome : Outcome α) (change : α → Session → Session)
    (answer : Answer) :
    (do let value ← check outcome; write (change value); return answer : Work Answer) session =
      session.settle (do let value ← outcome; return (change value session, answer)) := by
  rcases outcome with ⟨result, log⟩
  cases result with
  | error failure => rfl
  | ok value => rfl

/-- The work of a construction makes the object in the pool, whatever the construction logs. -/
theorem construction?_run (hsound : session.Sound) {construction : Construction}
    (h : session.Provides construction) :
    ∃ work made log, session.construction? construction = some work ∧
      session.construct? construction = some ⟨.ok made, log⟩ ∧
      work session = ({ session with pool := made.2 }, ⟨.ok made.1, log⟩) := by
  cases construction with
  | scan startRow stopRow filter? | lookup row filter? =>
    rcases h with ⟨filter?, hfilter⟩
    rw [construction?, construct?, hfilter]
    exact ⟨_, _, [], rfl, rfl, rfl⟩
  | filter filter => exact ⟨_, _, [], rfl, rfl, rfl⟩
  | familyMap selection => exact ⟨_, _, [], rfl, rfl, rfl⟩
  | copy name =>
    rcases h with ⟨scan, hscan⟩
    have hvalid := (hsound.scan hscan).window
    let made := session.pool.newMap (session.pool.contents scan.families).rebuild
    rw [construction?, construct?, hscan]
    refine ⟨_, (.request (.scan (scan.map (fun _ => made.1) id)), made.2), [], rfl, ?_, ?_⟩
    · simp only [Option.bind_eq_bind, Option.bind_some, Scan.copyWith_eq hvalid]
      rfl
    · -- the window is valid, so the families are copied, and they replace those of the scan
      rw [Scan.copyWith_eq hvalid, bind_run rfl, bind_run (copyFamilies_run _ _)]
      rfl
  | lift name =>
    rcases h with ⟨lookup, hlookup⟩
    rw [construction?, construct?, hlookup]
    exact ⟨_, _, _, rfl, rfl, rfl⟩
  | mapOf name =>
    rcases h with ⟨request, hrequest⟩
    rw [construction?, construct?, hrequest]
    exact ⟨_, _, [], rfl, rfl, rfl⟩
  | shareSets name =>
    rcases h with ⟨id, hmap⟩
    rw [construction?, construct?, hmap]
    exact ⟨_, _, [], rfl, rfl, rfl⟩
  | copyMap name =>
    rcases h with ⟨id, hmap⟩
    rw [construction?, construct?, hmap]
    refine ⟨_, _, [], rfl, rfl, ?_⟩
    exact bind_run (copyFamilies_run _ _) _

end Run

/-- Every step comes to the session and the outcome that its checks and writes come to, where
nothing is put back after a failure. -/
theorem step?_eq_work (hsound : session.Sound) (h : session.Admits step) :
    ∃ work, session.work? step = some work ∧ session.step? step = some (work session) := by
  cases step with
  | make name construction =>
    rcases construction?_run hsound h with ⟨make, made, log, hwork, hmade, hrun⟩
    rw [work?, hwork]
    refine ⟨_, rfl, ?_⟩
    rw [make_bind_run hrun, step?_eq]
    simp only [effect?, hmade, Option.bind_eq_bind, Option.bind_some, Outcome.bind_mk_ok]
    rfl
  | call name call =>
    cases call with
    | select selector =>
      rcases h with ⟨map, hname⟩
      rcases Option.bind_eq_some_iff.1 hname with ⟨object, hobject, hmap⟩
      rw [work?, hobject, step?_eq, effect?, hobject]
      cases object with
      | request request => exact ⟨_, rfl, rfl⟩
      | familyMap id => exact ⟨_, rfl, rfl⟩
      | filter id => cases hmap
    | set setting =>
      rcases h with ⟨request, hname⟩
      rw [work?, request?_eq_some.1 hname, step?_set hname]
      refine ⟨_, rfl, ?_⟩
      rw [check_write_run]
    | setScan setting =>
      rcases h with ⟨scan, hname⟩
      rw [work?, scan?_eq_some.1 hname, step?_setScan hname]
      refine ⟨_, rfl, ?_⟩
      rw [check_write_run]
    | useMap map =>
      rcases h with ⟨⟨request, hname⟩, families, hmap⟩
      rw [work?, request?_eq_some.1 hname, step?_useMap hname hmap]
      simp only [Option.bind_eq_bind, Option.bind_some, requestCall?, hmap]
      exact ⟨_, rfl, rfl⟩
    | useFilter filterName? =>
      rcases h with ⟨⟨request, hname⟩, filter?, hfilter⟩
      rw [work?, request?_eq_some.1 hname, step?_useFilter hname hfilter]
      simp only [Option.bind_eq_bind, Option.bind_some, requestCall?, hfilter]
      exact ⟨_, rfl, rfl⟩
    | setWholeRow flag =>
      rcases h with ⟨filter, hname⟩
      rw [work?, filter?_eq_some.1 hname, step?_setWholeRow hname]
      exact ⟨_, rfl, rfl⟩
    | ask query =>
      rcases h with ⟨request, hname⟩
      rw [work?, request?_eq_some.1 hname, step?_ask hname]
      exact ⟨_, rfl, rfl⟩
    | askScan query =>
      rcases h with ⟨scan, hname⟩
      rw [work?, scan?_eq_some.1 hname, step?_askScan hname]
      exact ⟨_, rfl, rfl⟩
    | compare other question =>
      rcases h with ⟨⟨first, hfirst⟩, second, hsecond⟩
      rw [work?, request?_eq_some.1 hfirst, step?_compare hfirst hsecond]
      simp only [Option.bind_eq_bind, Option.bind_some, requestCall?, hsecond]
      exact ⟨_, rfl, rfl⟩

/-! ## What a step leaves alone -/

/-- The filter of a request stays the same while things are made in the pool. -/
theorem filter_eq_of_grows {pool later : Pool} {criteria : Criteria MapId FilterId}
    (hgrows : pool.Grows later) (h : pool.Carries criteria) :
    criteria.filter?.map later.filter = criteria.filter?.map pool.filter := by
  cases hid : criteria.filter? with
  | none => rfl
  | some id => exact congrArg some (hgrows.filter_eq (h.filter id hid))

/-- What one sees of an object stays the same while things are made in the pool. -/
theorem snapshot_eq_of_grows {pool later : Pool} {object : Object} (hgrows : pool.Grows later)
    (hwf : pool.WellFormed) (h : pool.Supports object) :
    later.snapshot object = pool.snapshot object := by
  cases object with
  | request request =>
    have hcarries := Pool.supports_request.1 h
    have hfamilies := hgrows.contents_eq hwf hcarries.map
    have hfilter := filter_eq_of_grows hgrows hcarries
    have hcriteria : request.criteria.map later.contents later.filter =
        request.criteria.map pool.contents pool.filter := by
      rw [Criteria.map, Criteria.map, hfamilies, hfilter]
    cases request with
    | scan scan =>
      exact congrArg (fun c => Snapshot.request (.scan (scan.withCriteria c))) hcriteria
    | lookup lookup =>
      exact congrArg (fun c => Snapshot.request (.lookup (lookup.withCriteria c))) hcriteria
  | familyMap id => exact congrArg Snapshot.familyMap (hgrows.contents_eq hwf (h.map id rfl))
  | filter id => exact congrArg Snapshot.filter (hgrows.filter_eq (h.filter id rfl))

/-- Making an object shows under no other name. -/
theorem Constructs.sameElsewhere {construction : Construction} {object : Object} {pool : Pool}
    (hmade : session.Constructs construction object pool) (hsound : session.Sound)
    (name : String) : SameElsewhere name session ({ session with pool }.bind name object) := by
  intro other hother
  have hobject : ({ session with pool }.bind name object).objects.get? other =
      session.objects.get? other := get?_bind_of_ne hother object
  refine ⟨hobject, ?_⟩
  rw [snapshot?, snapshot?, hobject]
  cases hfound : session.objects.get? other with
  | none => rfl
  | some found =>
    exact congrArg some
      (snapshot_eq_of_grows hmade.grows hsound.pool (hsound.objects other found hfound))

/-- What a step leaves as it was. -/
structure Frame (session : Session) (step : Step) (next : Session) (outcome : Outcome Answer) :
    Prop where
  /-- After a failure all is as it was: objects, contents, order and sharing. -/
  failed : ∀ failure, outcome.result = .error failure → next = session
  /-- So it is after a question, answered or not. -/
  asked : ∀ name call, step = .call name call → call.IsQuestion → next = session
  /-- Making an object leaves what stands under other names, and what one sees there. -/
  made : ∀ name construction, step = .make name construction → SameElsewhere name session next

theorem eq_of_failed {failure : Failure} (hstep : session.step? step = some (next, outcome))
    (hfailed : outcome.result = .error failure) : next = session := by
  rw [step?_eq, Option.map_eq_some_iff] at hstep
  rcases hstep with ⟨⟨result, log⟩, -, hsettle⟩
  cases result with
  | ok value =>
    cases hsettle
    cases hfailed
  | error =>
    cases hsettle
    rfl

theorem eq_of_asked {name : String} {call : Call}
    (hstep : session.step? (.call name call) = some (next, outcome))
    (hquestion : call.IsQuestion) : next = session := by
  cases step?_transition hstep with
  | same => rfl
  | _ => exact hquestion.elim

/-- **Failed steps and questions change nothing.** A step that is taken comes to what its checks and
writes come to in their order, and they leave the session as it was if the step fails or asks. A
step that makes an object leaves every other name and what one sees under it as they were. -/
theorem step_frame (hreachable : Reachable session) (hadmits : session.Admits step) :
    ∃ work, session.work? step = some work ∧ session.step? step = some (work session) ∧
      session.Frame step (work session).1 (work session).2 := by
  have hsound := hreachable.sound
  rcases step?_eq_work hsound hadmits with ⟨work, hwork, hstep⟩
  refine ⟨work, hwork, hstep, ?_, ?_, ?_⟩
  · intro failure hfailed
    exact eq_of_failed hstep hfailed
  · rintro name call rfl hquestion
    exact eq_of_asked hstep hquestion
  · rintro name construction rfl
    rcases constructs_of_step? hsound hstep with ⟨object, pool, hmade, hnext⟩
    rw [hnext]
    exact hmade.sameElsewhere hsound name

/-- A window that ends before it begins is refused, and the work that refuses it has written
nothing. -/
theorem step_frame_refused_window :
    let session := after [.make "scan" .scan, .call "scan" (.select (.column [102] none)),
      .call "scan" (.set (.timeRange 1 9))]
    let step : Step := .call "scan" (.set (.timeRange 5 2))
    session.Admits step ∧ ∃ work, session.work? step = some work ∧
      (work session).2.result = .error (.invertedRange 5 2) ∧ (work session).1 = session := by
  intro session step
  have hadmits : session.Admits step := ⟨_, rfl⟩
  rcases step_frame (reachable_after _) hadmits with ⟨work, hwork, hstep, hframe⟩
  have hfailed : (work session).2.result = .error (.invertedRange 5 2) := by
    cases hwork
    rfl
  exact ⟨hadmits, work, hwork, hfailed, hframe.failed _ hfailed⟩

end Session

end ReadPlan
