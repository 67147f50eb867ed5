import ReadPlan.Proofs.Request.Settings
import ReadPlan.Session.Run

/-!
# ReadPlan.Proofs.Session.Transition — what a step can do

One list of cases for everything a step makes of a session (`Session.Transition`), and one for
everything a construction makes (`Session.Constructs`). Each case says what the step read and what
it changed; what holds along runs is proved from these cases and never from the definition of a
step.
-/

namespace ReadPlan

/-- The family map that an object refers to. -/
def Object.map? : Object → Option MapId
  | .request r => some r.criteria.families
  | .familyMap id => some id
  | .filter _ => none

/-- The filter that an object refers to. -/
def Object.filter? : Object → Option FilterId
  | .request r => r.criteria.filter?
  | .familyMap _ => none
  | .filter id => some id

namespace Session

/-- The family map that one selects through under a name. -/
def mapOf? (session : Session) (name : String) : Option MapId :=
  (session.objects.get? name).bind Object.map?

/-- The session after what a step did, with its outcome; a failure leaves the session as it was. -/
def settle (session : Session) (outcome : Outcome (Session × Answer)) :
    Session × Outcome Answer :=
  match outcome.result with
  | .ok (next, answer) => (next, ⟨.ok answer, outcome.log⟩)
  | .error failure => (session, ⟨.error failure, outcome.log⟩)

@[simp] theorem settle_ok (session next : Session) (answer : Answer) :
    session.settle (.ok (next, answer)) = (next, .ok answer) :=
  rfl

theorem step?_eq (session : Session) (step : Step) :
    session.step? step = (session.effect? step).map session.settle := by
  unfold step?
  cases session.effect? step with
  | none => rfl
  | some outcome =>
    rcases outcome with ⟨result, log⟩
    cases result <;> rfl

/-! ## Objects by kind -/

theorem request?_eq_some {session : Session} {name : String} {request : Request MapId FilterId} :
    session.request? name = some request ↔
      session.objects.get? name = some (.request request) := by
  unfold request?
  split
  · rename_i r h
    simp [h]
  · rename_i h
    simpa using fun heq => h request heq

theorem scan?_eq_some {session : Session} {name : String} {scan : Scan MapId FilterId} :
    session.scan? name = some scan ↔
      session.objects.get? name = some (.request (.scan scan)) := by
  rw [← request?_eq_some]
  unfold scan?
  split
  · rename_i s h
    simp [h]
  · rename_i h
    simpa using fun heq => h scan heq

theorem lookup?_eq_some {session : Session} {name : String} {lookup : Lookup MapId FilterId} :
    session.lookup? name = some lookup ↔
      session.objects.get? name = some (.request (.lookup lookup)) := by
  rw [← request?_eq_some]
  unfold lookup?
  split
  · rename_i l h
    simp [h]
  · rename_i h
    simpa using fun heq => h lookup heq

theorem request?_of_scan? {session : Session} {name : String} {scan : Scan MapId FilterId}
    (h : session.scan? name = some scan) : session.request? name = some (.scan scan) :=
  request?_eq_some.2 (scan?_eq_some.1 h)

theorem scan?_of_request? {session : Session} {name : String} {scan : Scan MapId FilterId}
    (h : session.request? name = some (.scan scan)) : session.scan? name = some scan :=
  scan?_eq_some.2 (request?_eq_some.1 h)

theorem request?_of_lookup? {session : Session} {name : String} {lookup : Lookup MapId FilterId}
    (h : session.lookup? name = some lookup) : session.request? name = some (.lookup lookup) :=
  request?_eq_some.2 (lookup?_eq_some.1 h)

theorem lookup?_of_request? {session : Session} {name : String} {lookup : Lookup MapId FilterId}
    (h : session.request? name = some (.lookup lookup)) : session.lookup? name = some lookup :=
  lookup?_eq_some.2 (request?_eq_some.1 h)

theorem map?_eq_some {session : Session} {name : String} {id : MapId} :
    session.map? name = some id ↔ session.objects.get? name = some (.familyMap id) := by
  unfold map?
  split
  · rename_i m h
    simp [h]
  · rename_i h
    simpa using fun heq => h id heq

theorem filter?_eq_some {session : Session} {name : String} {id : FilterId} :
    session.filter? name = some id ↔ session.objects.get? name = some (.filter id) := by
  unfold filter?
  split
  · rename_i f h
    simp [h]
  · rename_i h
    simpa using fun heq => h id heq

theorem mapOf?_of_request? {session : Session} {name : String} {request : Request MapId FilterId}
    (h : session.request? name = some request) :
    session.mapOf? name = some request.criteria.families := by
  rw [mapOf?, request?_eq_some.1 h]
  rfl

theorem mapOf?_of_map? {session : Session} {name : String} {id : MapId}
    (h : session.map? name = some id) : session.mapOf? name = some id := by
  rw [mapOf?, map?_eq_some.1 h]
  rfl

theorem get?_bind (session : Session) (name : String) (object : Object) (other : String) :
    (session.bind name object).objects.get? other =
      if other = name then some object else session.objects.get? other :=
  OrderedMap.get?_put _ _ _ _

theorem get?_bind_of_ne {session : Session} {name other : String} (h : other ≠ name)
    (object : Object) :
    (session.bind name object).objects.get? other = session.objects.get? other :=
  OrderedMap.get?_put_of_ne session.objects object h

theorem request?_bind_self (session : Session) (name : String)
    (request : Request MapId FilterId) :
    (session.bind name (.request request)).request? name = some request := by
  rw [request?_eq_some, get?_bind, if_pos rfl]

theorem scan?_bind_self (session : Session) (name : String) (scan : Scan MapId FilterId) :
    (session.bind name (.request (.scan scan))).scan? name = some scan := by
  rw [scan?_eq_some, get?_bind, if_pos rfl]

theorem lookup?_bind_self (session : Session) (name : String) (lookup : Lookup MapId FilterId) :
    (session.bind name (.request (.lookup lookup))).lookup? name = some lookup := by
  rw [lookup?_eq_some, get?_bind, if_pos rfl]

/-- Changing a request does not change which names stand for filters. -/
theorem filter?_bind_request {session : Session} {name : String}
    {request : Request MapId FilterId} (hname : session.request? name = some request)
    (changed : Request MapId FilterId) :
    (session.bind name (.request changed)).filter? = session.filter? := by
  funext other
  unfold filter?
  rw [get?_bind]
  by_cases heq : other = name
  · rw [if_pos heq, heq, request?_eq_some.1 hname]
  · rw [if_neg heq]

theorem filterOrNone?_congr {session other : Session} (h : session.filter? = other.filter?) :
    session.filterOrNone? = other.filterOrNone? := by
  funext name?
  cases name? with
  | none => rfl
  | some name => rw [filterOrNone?, filterOrNone?, h]

/-! ## Constructions -/

/-- The object that a construction makes, and the pool with it. -/
inductive Constructs (session : Session) : Construction → Object → Pool → Prop where
  | scan {startRow stopRow : Bytes} {name? : Option String} {filter? : Option FilterId}
    (hfilter : session.filterOrNone? name? = some filter?) :
    Constructs session (.scan startRow stopRow name?)
      (.request (.scan { families := (session.pool.newMap ∅).1, filter?, startRow, stopRow }))
      (session.pool.newMap ∅).2
  | lookup {row : Bytes} {name? : Option String} {filter? : Option FilterId}
    (hfilter : session.filterOrNone? name? = some filter?) :
    Constructs session (.lookup row name?)
      (.request (.lookup { families := (session.pool.newMap ∅).1, filter?, row }))
      (session.pool.newMap ∅).2
  | filter (filter : Filter) :
    Constructs session (.filter filter) (.filter (session.pool.newFilter filter).1)
      (session.pool.newFilter filter).2
  | familyMap (selection : Selection) :
    Constructs session (.familyMap selection) (.familyMap (session.pool.newMap selection).1)
      (session.pool.newMap selection).2
  | copy {name : String} {scan : Scan MapId FilterId} (hscan : session.scan? name = some scan)
    (hvalid : scan.timeRange.Valid) :
    Constructs session (.copy name)
      (.request (.scan (scan.map
        (fun _ => (session.pool.newMap (session.pool.contents scan.families).rebuild).1) id)))
      (session.pool.newMap (session.pool.contents scan.families).rebuild).2
  | lift {name : String} {lookup : Lookup MapId FilterId}
    (hlookup : session.lookup? name = some lookup) :
    Constructs session (.lift name) (.request (.scan lookup.toScan)) session.pool
  | mapOf {name : String} {request : Request MapId FilterId}
    (hrequest : session.request? name = some request) :
    Constructs session (.mapOf name) (.familyMap request.criteria.families) session.pool
  | shareSets {name : String} {id : MapId} (hmap : session.map? name = some id) :
    Constructs session (.shareSets name) (.familyMap (session.pool.shareSets id).1)
      (session.pool.shareSets id).2
  | copyMap {name : String} {id : MapId} (hmap : session.map? name = some id) :
    Constructs session (.copyMap name)
      (.familyMap (session.pool.newMap (session.pool.contents id).rebuild).1)
      (session.pool.newMap (session.pool.contents id).rebuild).2

theorem construct?_constructs {session : Session} {construction : Construction} {object : Object}
    {pool : Pool} {log : List LogRecord}
    (h : session.construct? construction = some ⟨.ok (object, pool), log⟩) :
    session.Constructs construction object pool := by
  cases construction with
  | scan startRow stopRow name? =>
    rcases Option.bind_eq_some_iff.1 h with ⟨filter?, hfilter, h⟩
    cases h
    exact .scan hfilter
  | lookup row name? =>
    rcases Option.bind_eq_some_iff.1 h with ⟨filter?, hfilter, h⟩
    cases h
    exact .lookup hfilter
  | filter filter =>
    cases h
    exact .filter filter
  | familyMap selection =>
    cases h
    exact .familyMap selection
  | copy name =>
    rcases Option.bind_eq_some_iff.1 h with ⟨scan, hscan, h⟩
    by_cases hvalid : scan.timeRange.Valid
    · simp only [Scan.copyWith_eq hvalid] at h
      cases h
      exact .copy hscan hvalid
    · -- a window that ends before it begins cannot be copied
      simp only [Scan.copyWith, TimeRange.ofBounds_of_lt (Int.not_le.1 hvalid)] at h
      cases h
  | lift name =>
    rcases Option.bind_eq_some_iff.1 h with ⟨lookup, hlookup, h⟩
    cases h
    exact .lift hlookup
  | mapOf name =>
    rcases Option.bind_eq_some_iff.1 h with ⟨request, hrequest, h⟩
    cases h
    exact .mapOf hrequest
  | shareSets name =>
    rcases Option.bind_eq_some_iff.1 h with ⟨id, hmap, h⟩
    cases h
    exact .shareSets hmap
  | copyMap name =>
    rcases Option.bind_eq_some_iff.1 h with ⟨id, hmap, h⟩
    cases h
    exact .copyMap hmap

/-! ## Steps -/

/-- What a step makes of a session. A step that fails or only asks makes nothing of it. -/
inductive Transition (session : Session) : Step → Session → Prop where
  | same (step : Step) : Transition session step session
  | make {name : String} {construction : Construction} {object : Object} {pool : Pool}
    (hmade : session.Constructs construction object pool) :
    Transition session (.make name construction) ({ session with pool }.bind name object)
  | select {name : String} {id : MapId} (selector : Selector)
    (hname : session.mapOf? name = some id) :
    Transition session (.call name (.select selector))
      { session with pool := session.pool.select id selector }
  | set {name : String} {request changed : Request MapId FilterId} {setting : Setting}
    {log : List LogRecord} (hname : session.request? name = some request)
    (hset : request.apply setting = ⟨.ok changed, log⟩) :
    Transition session (.call name (.set setting)) (session.bind name (.request changed))
  | setScan {name : String} {scan changed : Scan MapId FilterId} {setting : ScanSetting}
    {log : List LogRecord} (hname : session.scan? name = some scan)
    (hset : scan.apply (scan.filter?.map session.pool.filter) setting = ⟨.ok changed, log⟩) :
    Transition session (.call name (.setScan setting))
      (session.bind name (.request (.scan changed)))
  | useMap {name map : String} {request : Request MapId FilterId} {families : MapId}
    (hname : session.request? name = some request) (hmap : session.map? map = some families) :
    Transition session (.call name (.useMap map))
      (session.bind name (.request (request.withCriteria { request.criteria with families })))
  | useFilter {name : String} {filterName? : Option String} {request : Request MapId FilterId}
    {filter? : Option FilterId} (hname : session.request? name = some request)
    (hfilter : session.filterOrNone? filterName? = some filter?) :
    Transition session (.call name (.useFilter filterName?))
      (session.bind name (.request (request.withCriteria { request.criteria with filter? })))
  | setWholeRow {name : String} {id : FilterId} (flag : Bool)
    (hname : session.filter? name = some id) :
    Transition session (.call name (.setWholeRow flag))
      { session with pool := session.pool.setWholeRow id flag }

/-- Asking changes nothing, whether there is an answer or not. -/
theorem settle_ofExcept {α : Type} (session : Session) (result : Except Failure α)
    (answer : α → Answer) :
    session.settle (.ofExcept (result >>= fun value => return (session, answer value))) =
      (session, .ofExcept (answer <$> result)) := by
  cases result <;> rfl

/-- A question ends as it is answered. -/
theorem settle_question (session : Session) (result : Except Failure Answer) :
    session.settle (.ofExcept do let answer ← result; return (session, answer)) =
      (session, .ofExcept result) := by
  have h := session.settle_ofExcept result fun answer => answer
  rwa [id_map'] at h

theorem callRequest?_transition {session : Session} {name : String}
    {request : Request MapId FilterId} {call : Call} {outcome : Outcome (Session × Answer)}
    (hname : session.objects.get? name = some (.request request))
    (h : session.callRequest? name request call = some outcome) :
    session.Transition (.call name call) (session.settle outcome).1 := by
  cases call with
  | select selector =>
    cases h
    exact .select selector (mapOf?_of_request? (request?_eq_some.2 hname))
  | set setting =>
    cases h
    cases happly : request.apply setting with
    | mk result log =>
      cases result with
      | error failure => exact .same _
      | ok changed => exact .set (request?_eq_some.2 hname) happly
  | setScan setting =>
    cases request with
    | lookup lookup => cases h
    | scan scan =>
      cases h
      cases happly : scan.apply (scan.filter?.map session.pool.filter) setting with
      | mk result log =>
        cases result with
        | error failure => exact .same _
        | ok changed => exact .setScan (scan?_eq_some.2 hname) happly
  | useMap map =>
    rcases Option.bind_eq_some_iff.1 h with ⟨families, hmap, h⟩
    cases h
    exact .useMap (request?_eq_some.2 hname) hmap
  | useFilter filterName? =>
    rcases Option.bind_eq_some_iff.1 h with ⟨filter?, hfilter, h⟩
    cases h
    exact .useFilter (request?_eq_some.2 hname) hfilter
  | setWholeRow flag => cases h
  -- questions leave the session as it is, answered or not
  | ask query =>
    cases h
    rw [settle_ofExcept session _ fun answer => answer]
    exact .same _
  | askScan query =>
    cases request with
    | lookup lookup => cases h
    | scan scan =>
      cases h
      rw [settle_ofExcept session _ fun answer => answer]
      exact .same _
  | compare other question =>
    rcases Option.bind_eq_some_iff.1 h with ⟨second, hsecond, h⟩
    cases h
    rw [settle_ofExcept session _ Answer.truth]
    exact .same _

/-- Every step is one of the cases. -/
theorem step?_transition {session next : Session} {step : Step} {outcome : Outcome Answer}
    (h : session.step? step = some (next, outcome)) : session.Transition step next := by
  rw [step?_eq, Option.map_eq_some_iff] at h
  rcases h with ⟨effect, heffect, hsettle⟩
  have hnext : next = (session.settle effect).1 := by rw [hsettle]
  rw [hnext]
  cases step with
  | make name construction =>
    rcases Option.bind_eq_some_iff.1 heffect with ⟨made, hmade, h⟩
    cases h
    rcases made with ⟨result, log⟩
    cases result with
    | error failure =>
      -- a construction that fails has made nothing, not even in the pool
      exact .same _
    | ok made => exact .make (construct?_constructs hmade)
  | call name call =>
    rcases Option.bind_eq_some_iff.1 heffect with ⟨object, hname, h⟩
    cases object with
    | request request => exact callRequest?_transition hname h
    | familyMap id =>
      cases call <;> cases h
      exact .select _ (mapOf?_of_map? (map?_eq_some.2 hname))
    | filter id =>
      cases call <;> cases h
      exact .setWholeRow _ (filter?_eq_some.2 hname)

/-! ## Steps that are sure to be taken -/

theorem step?_call_request {session : Session} {name : String} {request : Request MapId FilterId}
    (hname : session.objects.get? name = some (.request request)) (call : Call) :
    session.step? (.call name call) =
      (session.callRequest? name request call).map session.settle := by
  rw [step?_eq]
  simp [effect?, hname]

/-- The session after a copy of a scan got a name. -/
def afterCopy (session : Session) (name : String) (scan : Scan MapId FilterId) : Session :=
  let made := session.pool.newMap (session.pool.contents scan.families).rebuild
  { session with pool := made.2 }.bind name (.request (.scan (scan.map (fun _ => made.1) id)))

theorem step?_copy {session : Session} {name : String} {scan : Scan MapId FilterId}
    (hscan : session.scan? name = some scan) (hvalid : scan.timeRange.Valid) (copyName : String) :
    session.step? (.make copyName (.copy name)) =
      some (session.afterCopy copyName scan, .ok .created) := by
  rw [step?_eq]
  simp only [effect?, construct?, hscan, Option.bind_eq_bind, Option.bind_some,
    Scan.copyWith_eq hvalid]
  rfl

theorem step?_lift {session : Session} {name : String} {lookup : Lookup MapId FilterId}
    (hlookup : session.lookup? name = some lookup) (scanName : String) :
    session.step? (.make scanName (.lift name)) =
      some (session.bind scanName (.request (.scan lookup.toScan)),
        ⟨.ok .created, [.lifted lookup.row]⟩) := by
  rw [step?_eq]
  simp only [effect?, construct?, hlookup, Option.bind_eq_bind, Option.bind_some]
  rfl

/-- One can always select through a request or a family map. -/
theorem step?_select {session : Session} {name : String} {id : MapId}
    (hname : session.mapOf? name = some id) (selector : Selector) :
    ∃ answer, session.step? (.call name (.select selector)) =
      some ({ session with pool := session.pool.select id selector }, .ok answer) := by
  rcases Option.bind_eq_some_iff.1 hname with ⟨object, hobject, hid⟩
  rw [step?_eq]
  cases object with
  | request request =>
    cases hid
    exact ⟨.itself, by simp [effect?, hobject, callRequest?]⟩
  | familyMap map =>
    cases hid
    exact ⟨.nothing, by simp [effect?, hobject, callMap?]⟩
  | filter filter => cases hid

section Calls

variable {session : Session} {name : String} {request : Request MapId FilterId}
  {scan : Scan MapId FilterId}

theorem step?_set (hname : session.request? name = some request) (setting : Setting) :
    session.step? (.call name (.set setting)) = some (session.settle do
      let changed ← request.apply setting
      return (session.bind name (.request changed), .itself)) := by
  rw [step?_call_request (request?_eq_some.1 hname)]
  rfl

theorem step?_setScan (hname : session.scan? name = some scan) (setting : ScanSetting) :
    session.step? (.call name (.setScan setting)) = some (session.settle do
      let changed ← scan.apply (scan.filter?.map session.pool.filter) setting
      return (session.bind name (.request (.scan changed)), .itself)) := by
  rw [step?_call_request (scan?_eq_some.1 hname)]
  rfl

theorem step?_useMap (hname : session.request? name = some request) {map : String}
    {families : MapId} (hmap : session.map? map = some families) :
    session.step? (.call name (.useMap map)) =
      some (session.bind name (.request (request.withCriteria
        { request.criteria with families })), .ok .itself) := by
  rw [step?_call_request (request?_eq_some.1 hname), callRequest?, hmap]
  rfl

theorem step?_useFilter (hname : session.request? name = some request)
    {filterName? : Option String} {filter? : Option FilterId}
    (hfilter : session.filterOrNone? filterName? = some filter?) :
    session.step? (.call name (.useFilter filterName?)) =
      some (session.bind name (.request (request.withCriteria
        { request.criteria with filter? })), .ok .itself) := by
  rw [step?_call_request (request?_eq_some.1 hname), callRequest?, hfilter]
  rfl

theorem step?_setWholeRow {id : FilterId} (hname : session.filter? name = some id)
    (flag : Bool) :
    session.step? (.call name (.setWholeRow flag)) =
      some ({ session with pool := session.pool.setWholeRow id flag }, .ok .nothing) := by
  rw [step?_eq, effect?, filter?_eq_some.1 hname]
  rfl

theorem step?_ask (hname : session.request? name = some request) (query : Query) :
    session.step? (.call name (.ask query)) =
      some (session, .ofExcept ((session.pool.resolve request).answer query)) := by
  rw [step?_call_request (request?_eq_some.1 hname)]
  exact congrArg some (settle_question session _)

theorem step?_askScan (hname : session.scan? name = some scan) (query : ScanQuery) :
    session.step? (.call name (.askScan query)) =
      some (session, .ofExcept
        ((scan.map session.pool.contents session.pool.filter).answer query)) := by
  rw [step?_call_request (scan?_eq_some.1 hname)]
  exact congrArg some (settle_question session _)

theorem step?_compare (hname : session.request? name = some request) {other : String}
    {second : Request MapId FilterId} (hother : session.request? other = some second)
    (question : Comparison) :
    session.step? (.call name (.compare other question)) =
      some (session, .ofExcept (Answer.truth <$>
        comparison session.pool request second question)) := by
  rw [step?_call_request (request?_eq_some.1 hname), callRequest?, hother]
  exact congrArg some (settle_ofExcept session _ Answer.truth)

end Calls

/-! ## Runs -/

theorem run?_cons_eq_some {session last : Session} {step : Step} {rest : List Step}
    {outcomes : List (Outcome Answer)} :
    session.run? (step :: rest) = some (last, outcomes) ↔
      ∃ next outcome later, session.step? step = some (next, outcome) ∧
        next.run? rest = some (last, later) ∧ outcomes = outcome :: later := by
  rw [run?]
  constructor
  · intro h
    rcases Option.bind_eq_some_iff.1 h with ⟨⟨next, outcome⟩, hstep, h⟩
    rcases Option.bind_eq_some_iff.1 h with ⟨⟨last', later⟩, hrun, h⟩
    cases h
    exact ⟨next, outcome, later, hstep, hrun, rfl⟩
  · rintro ⟨next, outcome, later, hstep, hrun, rfl⟩
    simp [hstep, hrun]

theorem run?_append {session : Session} {first second : List Step} {middle last : Session}
    {before after : List (Outcome Answer)} (hfirst : session.run? first = some (middle, before))
    (hsecond : middle.run? second = some (last, after)) :
    session.run? (first ++ second) = some (last, before ++ after) := by
  induction first generalizing session before with
  | nil =>
    cases hfirst
    exact hsecond
  | cons step rest ih =>
    rcases run?_cons_eq_some.1 hfirst with ⟨next, outcome, later, hstep, hrun, rfl⟩
    exact run?_cons_eq_some.2 ⟨next, outcome, later ++ after, hstep, ih hrun, rfl⟩

/-- A run has an outcome for every step. -/
theorem length_of_run? {session last : Session} {steps : List Step} {outcomes : List (Outcome Answer)}
    (hrun : session.run? steps = some (last, outcomes)) : outcomes.length = steps.length := by
  induction steps generalizing session outcomes with
  | nil =>
    cases hrun
    rfl
  | cons step rest ih =>
    rcases run?_cons_eq_some.1 hrun with ⟨next, outcome, later, -, hrest, rfl⟩
    rw [List.length_cons, List.length_cons, ih hrest]

/-- What every step of a run keeps, the run keeps. -/
theorem run?_invariant {P : Session → Prop} {steps : List Step}
    (hkeeps : ∀ (session next : Session) (step : Step) (outcome : Outcome Answer), step ∈ steps →
      session.step? step = some (next, outcome) → P session → P next)
    {session last : Session} {outcomes : List (Outcome Answer)}
    (h : session.run? steps = some (last, outcomes)) (hsession : P session) : P last := by
  induction steps generalizing session outcomes with
  | nil =>
    cases h
    exact hsession
  | cons step rest ih =>
    rcases run?_cons_eq_some.1 h with ⟨next, outcome, later, hstep, hrun, -⟩
    exact ih (fun s n t o ht => hkeeps s n t o (List.mem_cons_of_mem _ ht)) hrun
      (hkeeps session next step outcome List.mem_cons_self hstep hsession)

theorem Reachable.run {session last : Session} {steps : List Step}
    {outcomes : List (Outcome Answer)} (h : Reachable session)
    (hrun : session.run? steps = some (last, outcomes)) : Reachable last :=
  run?_invariant (fun _ _ _ _ _ hstep hs => hs.step hstep) hrun h

/-- The session after steps from the initial one, which it stays if one of them has no effect. -/
def after (steps : List Step) : Session :=
  ((initial.run? steps).map Prod.fst).getD initial

theorem reachable_after (steps : List Step) : Reachable (after steps) := by
  unfold after
  cases hrun : initial.run? steps with
  | none => exact .initial
  | some last => exact Reachable.initial.run hrun

end Session

end ReadPlan
