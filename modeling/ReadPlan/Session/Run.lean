import ReadPlan.Session.Basic
import ReadPlan.Session.Step

/-!
# ReadPlan.Session.Run — running a session

A step that mentions a name which stands for nothing of the right kind has no effect at all: it
is none. Any other step has an outcome. One that fails leaves the session as it was, and the
session goes on.
-/

namespace ReadPlan

namespace Session

/-- A filter by name, if there is one. -/
def filterOrNone? (session : Session) : Option String → Option (Option FilterId)
  | none => some none
  | some name => (session.filter? name).map some

/-- Makes an object, in the pool as far as it shares. -/
def construct? (session : Session) : Construction → Option (Outcome (Object × Pool))
  | .scan startRow stopRow filter? => do
    let filter? ← session.filterOrNone? filter?
    let (families, pool) := session.pool.newMap ∅
    return .ok (.request (.scan { families, filter?, startRow, stopRow }), pool)
  | .lookup row filter? => do
    let filter? ← session.filterOrNone? filter?
    let (families, pool) := session.pool.newMap ∅
    return .ok (.request (.lookup { families, filter?, row }), pool)
  | .filter filter =>
    let (id, pool) := session.pool.newFilter filter
    some (.ok (.filter id, pool))
  | .familyMap selection =>
    let (id, pool) := session.pool.newMap selection
    some (.ok (.familyMap id, pool))
  | .copy name => do
    let scan ← session.scan? name
    let (families, pool) := session.pool.newMap (session.pool.contents scan.families).rebuild
    return do
      let copy ← scan.copyWith families
      return (.request (.scan copy), pool)
  | .lift name => do
    let lookup ← session.lookup? name
    return do
      let scan ← lookup.lift
      return (.request (.scan scan), session.pool)
  | .mapOf name => do
    let request ← session.request? name
    return .ok (.familyMap request.criteria.families, session.pool)
  | .shareSets name => do
    let id ← session.map? name
    let (id, pool) := session.pool.shareSets id
    return .ok (.familyMap id, pool)
  | .copyMap name => do
    let id ← session.map? name
    let (id, pool) := session.pool.newMap (session.pool.contents id).rebuild
    return .ok (.familyMap id, pool)

/-- The answer about two requests. -/
def comparison (pool : Pool) (first second : Request MapId FilterId) :
    Comparison → Except Failure Bool
  | .sameMap => return first.criteria.families = second.criteria.families
  | .equalMap =>
    return (pool.contents first.criteria.families).SameContents
      (pool.contents second.criteria.families)
  | .sameFilter => return first.criteria.filter? = second.criteria.filter?
  | .equalTimeRange => return first.criteria.timeRange = second.criteria.timeRange
  | .equalDescription => (pool.resolve first).sameDescription (pool.resolve second)

/-- The session after a call that succeeds on the request of a name, with the answer. -/
def callRequest? (session : Session) (name : String) (request : Request MapId FilterId) :
    Call → Option (Outcome (Session × Answer))
  | .select selector =>
    let pool := session.pool.select request.criteria.families selector
    some (.ok ({ session with pool }, .itself))
  | .set setting => some do
    let changed ← request.apply setting
    return (session.bind name (.request changed), .itself)
  | .setScan setting =>
    match request with
    | .scan scan => some do
      let changed ← scan.apply (scan.filter?.map session.pool.filter) setting
      return (session.bind name (.request (.scan changed)), .itself)
    | .lookup _ => none
  | .useMap map => do
    let families ← session.map? map
    let changed := request.withCriteria { request.criteria with families }
    return .ok (session.bind name (.request changed), .itself)
  | .useFilter filter? => do
    let filter? ← session.filterOrNone? filter?
    let changed := request.withCriteria { request.criteria with filter? }
    return .ok (session.bind name (.request changed), .itself)
  | .setWholeRow _ => none
  | .ask query => some <| .ofExcept do
    let answer ← (session.pool.resolve request).answer query
    return (session, answer)
  | .askScan query =>
    match request with
    | .scan scan => some <| .ofExcept do
      let answer ← (scan.map session.pool.contents session.pool.filter).answer query
      return (session, answer)
    | .lookup _ => none
  | .compare other question => do
    let second ← session.request? other
    return .ofExcept do
      let equal ← comparison session.pool request second question
      return (session, .truth equal)

/-- The session after a call on a family map, with the answer. -/
def callMap? (session : Session) (id : MapId) : Call → Option (Outcome (Session × Answer))
  | .select selector =>
    some (.ok ({ session with pool := session.pool.select id selector }, .nothing))
  | _ => none

/-- The session after a call on a filter, with the answer. -/
def callFilter? (session : Session) (id : FilterId) : Call → Option (Outcome (Session × Answer))
  | .setWholeRow flag =>
    some (.ok ({ session with pool := session.pool.setWholeRow id flag }, .nothing))
  | _ => none

/-- The session after a step that succeeds, with the answer; none for a step that mentions the
wrong objects. -/
def effect? (session : Session) : Step → Option (Outcome (Session × Answer))
  | .make name construction => do
    let made ← session.construct? construction
    return do
      let (object, pool) ← made
      return ({ session with pool }.bind name object, .created)
  | .call name call => do
    match ← session.objects.get? name with
    | .request request => session.callRequest? name request call
    | .familyMap id => session.callMap? id call
    | .filter id => session.callFilter? id call

/-- The session after a step and the outcome of the step; a step that fails changes nothing. -/
def step? (session : Session) (step : Step) : Option (Session × Outcome Answer) := do
  let outcome ← session.effect? step
  match outcome.result with
  | .ok (next, answer) => return (next, ⟨.ok answer, outcome.log⟩)
  | .error failure => return (session, ⟨.error failure, outcome.log⟩)

/-- The session after several steps, with the outcome of each. -/
def run? (session : Session) : List Step → Option (Session × List (Outcome Answer))
  | [] => some (session, [])
  | step :: rest => do
    let (next, outcome) ← session.step? step
    let (last, outcomes) ← next.run? rest
    return (last, outcome :: outcomes)

/-- The sessions that steps lead to from the initial one. -/
inductive Reachable : Session → Prop where
  | initial : Reachable initial
  | step {session next : Session} {step : Step} {outcome : Outcome Answer} :
    Reachable session → session.step? step = some (next, outcome) → Reachable next

end Session

end ReadPlan
