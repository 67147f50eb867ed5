import ReadPlan.Proofs.Request.Failures
import ReadPlan.Proofs.Session.Sound

/-!
# ReadPlan.Proofs.Session.Failures — which steps fail, and what they log

Every step whose names stand for objects of the right kinds is taken (`Session.Admits`), and its
outcome is that of the function it calls (`Session.Yields`). Whether it fails is decided by what
the called object holds at that moment (`Session.Fails`), whatever happened before; the log of a
step is empty, or one record in one of three cases (`Session.Logs`).
-/

namespace ReadPlan

/-- A construction that logs nothing. -/
def Construction.IsQuiet : Construction → Prop
  | .lift _ => False
  | _ => True

namespace Session

variable {session next : Session} {step : Step}

/-! ## Steps that are taken -/

/-- The names that the construction mentions stand for what it is made from. -/
def Provides (session : Session) : Construction → Prop
  | .scan _ _ filter? | .lookup _ filter? => ∃ found, session.filterOrNone? filter? = some found
  | .filter _ | .familyMap _ => True
  | .copy scan => ∃ found, session.scan? scan = some found
  | .lift lookup => ∃ found, session.lookup? lookup = some found
  | .mapOf request => ∃ found, session.request? request = some found
  | .shareSets map | .copyMap map => ∃ found, session.map? map = some found

/-- The name stands for an object that takes the call, and so do the names in the call. -/
def Takes (session : Session) (name : String) : Call → Prop
  | .select _ => ∃ map, session.mapOf? name = some map
  | .set _ | .ask _ => ∃ request, session.request? name = some request
  | .setScan _ | .askScan _ => ∃ scan, session.scan? name = some scan
  | .useMap map =>
    (∃ request, session.request? name = some request) ∧ ∃ found, session.map? map = some found
  | .useFilter filter? =>
    (∃ request, session.request? name = some request) ∧
      ∃ found, session.filterOrNone? filter? = some found
  | .setWholeRow _ => ∃ filter, session.filter? name = some filter
  | .compare other _ =>
    (∃ first, session.request? name = some first) ∧
      ∃ second, session.request? other = some second

/-- The step mentions objects of the right kinds. -/
def Admits (session : Session) : Step → Prop
  | .make _ construction => session.Provides construction
  | .call name call => session.Takes name call

/-! ## Outcomes -/

/-- The outcome of a step is that of the function it calls. -/
inductive Yields (session : Session) : Step → Outcome Answer → Prop where
  | make {name : String} {construction : Construction} (hquiet : construction.IsQuiet) :
    Yields session (.make name construction) (.ok .created)
  | lift {name source : String} {lookup : Lookup MapId FilterId}
    (hlookup : session.lookup? source = some lookup) :
    Yields session (.make name (.lift source)) ⟨.ok .created, [.lifted lookup.row]⟩
  | select {name : String} {selector : Selector} (answer : Answer) :
    Yields session (.call name (.select selector)) (.ok answer)
  | set {name : String} {request : Request MapId FilterId} {setting : Setting}
    (hname : session.request? name = some request) :
    Yields session (.call name (.set setting)) ((fun _ => .itself) <$> request.apply setting)
  | setScan {name : String} {scan : Scan MapId FilterId} {setting : ScanSetting}
    (hname : session.scan? name = some scan) :
    Yields session (.call name (.setScan setting))
      ((fun _ => .itself) <$> scan.apply (scan.filter?.map session.pool.filter) setting)
  | useMap {name map : String} : Yields session (.call name (.useMap map)) (.ok .itself)
  | useFilter {name : String} {filter? : Option String} :
    Yields session (.call name (.useFilter filter?)) (.ok .itself)
  | setWholeRow {name : String} {flag : Bool} :
    Yields session (.call name (.setWholeRow flag)) (.ok .nothing)
  | ask {name : String} {request : Request MapId FilterId} {query : Query}
    (hname : session.request? name = some request) :
    Yields session (.call name (.ask query))
      (.ofExcept ((session.pool.resolve request).answer query))
  | askScan {name : String} {scan : Scan MapId FilterId} {query : ScanQuery}
    (hname : session.scan? name = some scan) :
    Yields session (.call name (.askScan query))
      (.ofExcept ((scan.map session.pool.contents session.pool.filter).answer query))
  | compare {name other : String} {first second : Request MapId FilterId} {question : Comparison}
    (hfirst : session.request? name = some first) (hsecond : session.request? other = some second) :
    Yields session (.call name (.compare other question))
      (.ofExcept (Answer.truth <$> comparison session.pool first second question))

/-- A setting ends as the called function does. -/
theorem settle_change {α : Type} (session : Session) (outcome : Outcome α) (change : α → Session)
    (answer : Answer) :
    ∃ next, session.settle (outcome >>= fun value => return (change value, answer)) =
      (next, (fun _ => answer) <$> outcome) := by
  obtain ⟨result, log⟩ := outcome
  cases result with
  | ok value => exact ⟨change value, by simp [settle]⟩
  | error failure => exact ⟨session, rfl⟩

/-- Whatever a construction is made from, it succeeds; a scan can be copied since its window is
valid. -/
theorem construct?_of_provides (hsound : session.Sound) {construction : Construction}
    (hquiet : construction.IsQuiet) (h : session.Provides construction) :
    ∃ object pool, session.construct? construction = some (.ok (object, pool)) := by
  cases construction with
  | scan startRow stopRow filter? | lookup row filter? =>
    rcases h with ⟨filter?, hfilter⟩
    exact ⟨_, _, by rw [construct?, hfilter]; rfl⟩
  | filter filter => exact ⟨_, _, rfl⟩
  | familyMap selection => exact ⟨_, _, rfl⟩
  | copy name =>
    rcases h with ⟨scan, hscan⟩
    exact ⟨_, _, by
      simp only [construct?, hscan, Option.bind_eq_bind, Option.bind_some,
        Scan.copyWith_eq (hsound.scan hscan).window]
      rfl⟩
  | lift name => exact absurd hquiet id
  | mapOf name =>
    rcases h with ⟨request, hrequest⟩
    exact ⟨_, _, by rw [construct?, hrequest]; rfl⟩
  | shareSets name | copyMap name =>
    rcases h with ⟨id, hmap⟩
    exact ⟨_, _, by rw [construct?, hmap]; rfl⟩

/-- A step that is admitted is taken, with the outcome of the function it calls. -/
theorem step?_of_admits (hsound : session.Sound) (h : session.Admits step) :
    ∃ next outcome, session.step? step = some (next, outcome) ∧ session.Yields step outcome := by
  cases step with
  | make name construction =>
    by_cases hquiet : construction.IsQuiet
    · rcases construct?_of_provides hsound hquiet h with ⟨object, pool, hmade⟩
      refine ⟨{ session with pool }.bind name object, .ok .created, ?_, .make hquiet⟩
      rw [step?_eq]
      simp [effect?, hmade]
    · cases construction with
      | lift source =>
        rcases h with ⟨lookup, hlookup⟩
        exact ⟨_, _, step?_lift hlookup name, .lift hlookup⟩
      | _ => exact absurd trivial hquiet
  | call name call =>
    cases call with
    | select selector =>
      rcases h with ⟨map, hname⟩
      rcases step?_select hname selector with ⟨answer, hstep⟩
      exact ⟨_, _, hstep, .select answer⟩
    | set setting =>
      rcases h with ⟨request, hname⟩
      rcases session.settle_change (request.apply setting)
        (fun changed => session.bind name (.request changed)) .itself with ⟨next, hsettle⟩
      exact ⟨next, _, (step?_set hname setting).trans (congrArg some hsettle), .set hname⟩
    | setScan setting =>
      rcases h with ⟨scan, hname⟩
      rcases session.settle_change
        (scan.apply (scan.filter?.map session.pool.filter) setting)
        (fun changed => session.bind name (.request (.scan changed))) .itself with ⟨next, hsettle⟩
      exact ⟨next, _, (step?_setScan hname setting).trans (congrArg some hsettle), .setScan hname⟩
    | useMap map =>
      rcases h with ⟨⟨request, hname⟩, families, hmap⟩
      exact ⟨_, _, step?_useMap hname hmap, .useMap⟩
    | useFilter filterName? =>
      rcases h with ⟨⟨request, hname⟩, filter?, hfilter⟩
      exact ⟨_, _, step?_useFilter hname hfilter, .useFilter⟩
    | setWholeRow flag =>
      rcases h with ⟨filter, hname⟩
      exact ⟨_, _, step?_setWholeRow hname flag, .setWholeRow⟩
    | ask query =>
      rcases h with ⟨request, hname⟩
      exact ⟨_, _, step?_ask hname query, .ask hname⟩
    | askScan query =>
      rcases h with ⟨scan, hname⟩
      exact ⟨_, _, step?_askScan hname query, .askScan hname⟩
    | compare other question =>
      rcases h with ⟨⟨first, hfirst⟩, second, hsecond⟩
      exact ⟨_, _, step?_compare hfirst hsecond question, .compare hfirst hsecond⟩

/-- A step is taken just if the names that it mentions stand for objects of the right kinds. -/
theorem admits_iff (hsound : session.Sound) :
    session.Admits step ↔ ∃ next outcome, session.step? step = some (next, outcome) := by
  constructor
  · intro h
    rcases step?_of_admits hsound h with ⟨next, outcome, hstep, -⟩
    exact ⟨next, outcome, hstep⟩
  · rintro ⟨next, outcome, hstep⟩
    rw [step?_eq, Option.map_eq_some_iff] at hstep
    rcases hstep with ⟨effect, heffect, -⟩
    cases step with
    | make name construction =>
      rcases Option.bind_eq_some_iff.1 heffect with ⟨made, hmade, -⟩
      cases construction with
      | filter | familyMap => trivial
      | _ =>
        rcases Option.bind_eq_some_iff.1 hmade with ⟨found, hfound, -⟩
        exact ⟨found, hfound⟩
    | call name call =>
      rcases Option.bind_eq_some_iff.1 heffect with ⟨object, hname, hcall⟩
      cases object with
      | request request =>
        have hrequest := request?_eq_some.2 hname
        cases call with
        | select => exact ⟨_, mapOf?_of_request? hrequest⟩
        | set | ask => exact ⟨request, hrequest⟩
        | setScan | askScan =>
          cases request with
          | scan scan => exact ⟨scan, scan?_eq_some.2 hname⟩
          | lookup lookup => cases hcall
        | useMap | useFilter | compare =>
          rcases Option.bind_eq_some_iff.1 hcall with ⟨found, hfound, -⟩
          exact ⟨⟨request, hrequest⟩, found, hfound⟩
        | setWholeRow => cases hcall
      | familyMap id =>
        cases call with
        | select => exact ⟨id, mapOf?_of_map? (map?_eq_some.2 hname)⟩
        | _ => cases hcall
      | filter id =>
        cases call with
        | setWholeRow => exact ⟨id, filter?_eq_some.2 hname⟩
        | _ => cases hcall

/-- A construction that is taken makes the object and names it. -/
theorem constructs_of_step? (hsound : session.Sound) {name : String} {construction : Construction}
    {outcome : Outcome Answer}
    (hstep : session.step? (.make name construction) = some (next, outcome)) :
    ∃ object pool, session.Constructs construction object pool ∧
      next = { session with pool }.bind name object := by
  have hadmits : session.Provides construction := (admits_iff hsound).2 ⟨next, outcome, hstep⟩
  by_cases hquiet : construction.IsQuiet
  · rcases construct?_of_provides hsound hquiet hadmits with ⟨object, pool, hmade⟩
    refine ⟨object, pool, construct?_constructs hmade, ?_⟩
    rw [step?_eq] at hstep
    simp only [effect?, hmade, Option.bind_eq_bind, Option.bind_some] at hstep
    cases hstep
    rfl
  · cases construction with
    | lift source =>
      rcases hadmits with ⟨lookup, hlookup⟩
      rw [step?_lift hlookup] at hstep
      cases hstep
      exact ⟨_, _, .lift hlookup, rfl⟩
    | _ => exact absurd trivial hquiet

/-! ## Failures -/

/-- The step fails with a failure of the kind. -/
inductive Fails (session : Session) : Step → Failure.Kind → Prop where
  /-- The window given to a scan or a lookup ends before it begins. -/
  | timeRange {name : String} {min max : Int} (hlt : max < min) :
    Fails session (.call name (.set (.timeRange min max))) .invalidRange
  /-- The id given to a scan or a lookup has a surrogate in it. -/
  | operationId {name : String} {id : CodePoints} (hid : id.HasSurrogate) :
    Fails session (.call name (.set (.operationId id))) .unencodable
  /-- A batch size is given to a scan with a filter that needs whole rows now. -/
  | batch {name : String} {size : Int} {scan : Scan MapId FilterId} {filter : FilterId}
    (hname : session.scan? name = some scan) (hfilter : scan.filter? = some filter)
    (hrow : (session.pool.filter filter).needsWholeRow = true) :
    Fails session (.call name (.setScan (.batch size))) .incompatibleFilter
  /-- A scan is asked for a flag or an isolation level that was stored malformed. -/
  | askScan {name : String} {scan : Scan MapId FilterId} {query : ScanQuery}
    (hname : session.scan? name = some scan) (hvalue : query.ReadsMalformed scan.attributes) :
    Fails session (.call name (.askScan query)) .badValue
  /-- The id of a request is read and was stored malformed. -/
  | ask {name : String} {request : Request MapId FilterId} {query : Query}
    (hname : session.request? name = some request) (hreads : query.ReadsId)
    (hid : request.criteria.attributes.MalformedId) :
    Fails session (.call name (.ask query)) .badText
  /-- Two requests are described and the id of one of them was stored malformed. -/
  | compare {name other : String} {first second : Request MapId FilterId}
    (hfirst : session.request? name = some first) (hsecond : session.request? other = some second)
    (hid : first.criteria.attributes.MalformedId ∨ second.criteria.attributes.MalformedId) :
    Fails session (.call name (.compare other .equalDescription)) .badText

/-- A comparison fails only if it describes both requests. -/
theorem comparison_failsWith {pool : Pool} {first second : Request MapId FilterId}
    {question : Comparison} {kind : Failure.Kind} :
    FailsWith (comparison pool first second question) kind ↔
      question = .equalDescription ∧ kind = .badText ∧
        (first.criteria.attributes.MalformedId ∨ second.criteria.attributes.MalformedId) := by
  cases question with
  | equalDescription =>
    rw [comparison, Request.sameDescription_failsWith, Pool.resolve, Pool.resolve,
      Request.criteria_map, Request.criteria_map]
    exact (iff_of_eq (true_and _)).symm.trans (and_congr_left' (iff_of_true trivial rfl))
  | _ =>
    refine iff_of_false (failsWith_ok _) ?_
    rintro ⟨⟨⟩, -⟩

namespace Yields

variable {outcome : Outcome Answer} {kind : Failure.Kind}

theorem failsWith_iff (h : session.Yields step outcome) :
    FailsWith outcome.result kind ↔ session.Fails step kind := by
  cases h with
  | make | lift | select | useMap | useFilter | setWholeRow =>
    refine iff_of_false (failsWith_ok _) ?_
    rintro ⟨⟩
  | @set name request setting hname =>
    rcases request.apply_cases setting with
      ⟨failure, log, hrefused, happly⟩ | ⟨hnot, changed, happly⟩
    · rw [happly]
      refine failsWith_error.trans ?_
      cases hrefused with
      | timeRange hlt =>
        refine ⟨?_, ?_⟩
        · rintro rfl
          exact .timeRange hlt
        · rintro ⟨⟩
          rfl
      | operationId hfault =>
        refine ⟨?_, ?_⟩
        · rintro rfl
          exact .operationId hfault.hasSurrogate
        · rintro ⟨⟩
          rfl
    · rw [happly]
      refine iff_of_false (failsWith_ok _) ?_
      intro hfails
      cases hfails with
      | timeRange hlt => exact hnot _ _ (.timeRange hlt)
      | operationId hid =>
        rcases Utf8.exists_locates_iff.2 hid with ⟨fault, hfault⟩
        exact hnot _ _ (.operationId hfault)
  | @setScan name scan setting hname =>
    rcases scan.apply_cases (scan.filter?.map session.pool.filter) setting with
      ⟨size, filter, rfl, hfilter, hrow, happly⟩ | ⟨hvalid, changed, happly⟩
    · rw [happly]
      rcases Option.map_eq_some_iff.1 hfilter with ⟨id, hid, rfl⟩
      refine failsWith_error.trans ⟨?_, ?_⟩
      · rintro rfl
        exact .batch hname hid hrow
      · rintro ⟨⟩
        rfl
    · rw [happly]
      refine iff_of_false (failsWith_ok _) ?_
      intro hfails
      cases hfails with
      | batch hfound hid hrow =>
        obtain rfl := Option.some.inj (hname.symm.trans hfound)
        rw [hvalid _ _ rfl (Option.map_eq_some_iff.2 ⟨_, hid, rfl⟩)] at hrow
        cases hrow
  | @ask name request query hname =>
    refine Request.answer_failsWith.trans ⟨?_, ?_⟩
    · rintro ⟨hreads, rfl, hid⟩
      rw [Pool.resolve, Request.criteria_map] at hid
      exact .ask hname hreads hid
    · intro hfails
      cases hfails with
      | ask hfound hreads hid =>
        obtain rfl := Option.some.inj (hname.symm.trans hfound)
        rw [Pool.resolve, Request.criteria_map]
        exact ⟨hreads, rfl, hid⟩
  | @askScan name scan query hname =>
    refine Scan.answer_failsWith.trans ⟨?_, ?_⟩
    · rintro ⟨rfl, hvalue⟩
      exact .askScan hname hvalue
    · intro hfails
      cases hfails with
      | askScan hfound hvalue =>
        obtain rfl := Option.some.inj (hname.symm.trans hfound)
        exact ⟨rfl, hvalue⟩
  | @compare name other first second question hfirst hsecond =>
    refine (failsWith_map.trans comparison_failsWith).trans ⟨?_, ?_⟩
    · rintro ⟨rfl, rfl, hid⟩
      exact .compare hfirst hsecond hid
    · intro hfails
      cases hfails with
      | compare hone htwo hid =>
        obtain rfl := Option.some.inj (hfirst.symm.trans hone)
        obtain rfl := Option.some.inj (hsecond.symm.trans htwo)
        exact ⟨rfl, rfl, hid⟩

end Yields

/-! ## Log records -/

/-- The step, ending in the result, logs the record. -/
inductive Logs (session : Session) (result : Except Failure Answer) :
    Step → Level → Channel → LogRecord → Prop where
  /-- A window is rejected; the record carries the two numbers of the failure. -/
  | rejected {name : String} {min max : Int} (hresult : result = .error (.invertedRange min max)) :
    Logs session result (.call name (.set (.timeRange min max))) .warning .timeRanges
      (.rejectedRange min max)
  /-- A batch size is refused; the record carries the size and the text of the filter. -/
  | refused {name : String} {size : Int} {scan : Scan MapId FilterId} {filter : FilterId}
    (hname : session.scan? name = some scan) (hfilter : scan.filter? = some filter)
    (hresult : result = .error .batchOnWholeRows) :
    Logs session result (.call name (.setScan (.batch size))) .warning .requests
      (.refusedBatch size (session.pool.filter filter).text)
  /-- A lookup is lifted; the record carries its row. -/
  | lifted {name source : String} {lookup : Lookup MapId FilterId}
    (hlookup : session.lookup? source = some lookup) (hresult : result = .ok .created) :
    Logs session result (.make name (.lift source)) .debug .requests (.lifted lookup.row)

/-- The log is the one record, written on the level by the channel. -/
def IsLog (log : List LogRecord) (level : Level) (channel : Channel) (record : LogRecord) : Prop :=
  log = [record] ∧ record.level = level ∧ record.channel = channel

namespace Yields

variable {outcome : Outcome Answer} {level : Level} {channel : Channel} {record : LogRecord}

theorem isLog_iff (h : session.Yields step outcome) :
    IsLog outcome.log level channel record ↔
      session.Logs outcome.result step level channel record := by
  have hsilent : ∀ {log : List LogRecord}, log = [] → ¬ IsLog log level channel record := by
    rintro _ rfl ⟨h, -⟩
    cases h
  cases h with
  | make hquiet =>
    refine iff_of_false (hsilent rfl) ?_
    rintro ⟨⟩
    exact hquiet
  | @lift name source lookup hlookup =>
    constructor
    · rintro ⟨h, rfl, rfl⟩
      cases h
      exact .lifted hlookup rfl
    · intro hlogs
      cases hlogs with
      | lifted hfound hresult =>
        obtain rfl := Option.some.inj (hlookup.symm.trans hfound)
        exact ⟨rfl, rfl, rfl⟩
  | select | useMap | useFilter | setWholeRow | ask | askScan | compare =>
    refine iff_of_false (hsilent rfl) ?_
    rintro ⟨⟩
  | @set name request setting hname =>
    rcases request.apply_cases setting with
      ⟨failure, log, hrefused, happly⟩ | ⟨-, changed, happly⟩
    · rw [happly]
      cases hrefused with
      | timeRange hlt =>
        constructor
        · rintro ⟨h, rfl, rfl⟩
          cases h
          exact .rejected rfl
        · rintro ⟨⟩
          exact ⟨rfl, rfl, rfl⟩
      | operationId hfault =>
        refine iff_of_false (hsilent rfl) ?_
        rintro ⟨⟩
    · rw [happly]
      refine iff_of_false (hsilent rfl) ?_
      rintro ⟨hresult⟩
      cases hresult
  | @setScan name scan setting hname =>
    rcases scan.apply_cases (scan.filter?.map session.pool.filter) setting with
      ⟨size, filter, rfl, hfilter, hrow, happly⟩ | ⟨hvalid, changed, happly⟩
    · rw [happly]
      rcases Option.map_eq_some_iff.1 hfilter with ⟨id, hid, rfl⟩
      constructor
      · rintro ⟨h, rfl, rfl⟩
        cases h
        exact .refused hname hid rfl
      · intro hlogs
        cases hlogs with
        | refused hfound hother hresult =>
          obtain rfl := Option.some.inj (hname.symm.trans hfound)
          obtain rfl := Option.some.inj (hid.symm.trans hother)
          exact ⟨rfl, rfl, rfl⟩
    · rw [happly]
      refine iff_of_false (hsilent rfl) ?_
      intro hlogs
      cases hlogs with
      | refused hfound hid hresult => cases hresult

theorem log_length (h : session.Yields step outcome) : outcome.log.length ≤ 1 := by
  cases h with
  | make | select | useMap | useFilter | setWholeRow | ask | askScan | compare =>
    exact Nat.zero_le _
  | lift => exact Nat.le_refl _
  | @set name request setting hname =>
    rcases request.apply_cases setting with
      ⟨failure, log, hrefused, happly⟩ | ⟨-, changed, happly⟩
    · rw [happly]
      cases hrefused with
      | timeRange => exact Nat.le_refl _
      | operationId => exact Nat.zero_le _
    · rw [happly]
      exact Nat.zero_le _
  | @setScan name scan setting hname =>
    rcases scan.apply_cases (scan.filter?.map session.pool.filter) setting with
      ⟨size, filter, -, -, -, happly⟩ | ⟨-, changed, happly⟩
    · rw [happly]
      exact Nat.le_refl _
    · rw [happly]
      exact Nat.zero_le _

end Yields

/-! ## The verdict on a step -/

/-- What is to be said of the failures and the log of a step. -/
structure Verdict (session : Session) (step : Step) (outcome : Outcome Answer) : Prop where
  fails : ∀ kind, FailsWith outcome.result kind ↔ session.Fails step kind
  logs : ∀ level channel record, IsLog outcome.log level channel record ↔
    session.Logs outcome.result step level channel record
  /-- There is never more than one record. -/
  single : outcome.log.length ≤ 1

/-- **Which steps fail, and what they log.** In a reachable session a step whose names stand for
objects of the right kinds is taken. It fails just in the cases of `Fails`, each with its kind of
failure, and logs just in the cases of `Logs`, each with its one record. -/
theorem step_verdict (hreachable : Reachable session) (hadmits : session.Admits step) :
    ∃ next outcome, session.step? step = some (next, outcome) ∧ session.Verdict step outcome := by
  rcases step?_of_admits hreachable.sound hadmits with ⟨next, outcome, hstep, hyields⟩
  refine ⟨next, outcome, hstep, ?_, ?_, hyields.log_length⟩
  · exact fun kind => hyields.failsWith_iff
  · exact fun level channel record => hyields.isLog_iff

/-- The flag of a filter is set after a scan was made with the filter; then the scan is given a
batch size. -/
theorem step_verdict_batch_after_flag :
    let session := after [.make "filter" (.filter { name := "Rows", wholeRow? := some false }),
      .make "scan" (.scan [] [] (some "filter")), .call "filter" (.setWholeRow true)]
    session.Admits (.call "scan" (.setScan (.batch 5))) ∧
      ∃ next outcome, session.step? (.call "scan" (.setScan (.batch 5))) = some (next, outcome) ∧
        FailsWith outcome.result .incompatibleFilter ∧
        outcome.log = [.refusedBatch 5 "Rows"] := by
  intro session
  have hname : session.scan? "scan" = some { families := ⟨0⟩, filter? := some ⟨0⟩ } := rfl
  have hadmits : session.Admits (.call "scan" (.setScan (.batch 5))) := ⟨_, hname⟩
  rcases step_verdict (reachable_after _) hadmits with ⟨next, outcome, hstep, hverdict⟩
  have hfails := (hverdict.fails _).2 (.batch hname rfl rfl)
  have hresult : outcome.result = .error .batchOnWholeRows := by
    cases hstep
    rfl
  exact ⟨hadmits, next, outcome, hstep, hfails,
    ((hverdict.logs _ _ _).2 (.refused hname rfl hresult)).1⟩

/-- Windows, batch sizes and stored attributes are not all that can fail: none of them is at fault
where a scan is given a single surrogate as its id, and this fails, with nothing logged and nothing
changed. -/
theorem surrogate_id_refused :
    let session := after [.make "scan" .scan]
    let first : Surrogate := { code := 0xd800 }
    let step : Step := .call "scan" (.set (.operationId [.surrogate first]))
    Reachable session ∧ session.Admits step ∧
      (∀ kind, kind ≠ .unencodable → ¬ session.Fails step kind) ∧
      session.step? step = some (session, ⟨.error (.unencodableText ⟨0, 1, first⟩), []⟩) := by
  intro session first step
  have hname : session.request? "scan" = some (.scan { families := ⟨0⟩ }) := rfl
  refine ⟨reachable_after _, ⟨_, hname⟩, ?_, rfl⟩
  intro kind hkind (hfails : session.Fails (.call "scan" (.set (.operationId _))) kind)
  cases hfails
  exact hkind rfl

end Session

end ReadPlan
