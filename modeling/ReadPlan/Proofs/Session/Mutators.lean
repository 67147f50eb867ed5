import ReadPlan.Proofs.Request.Parts
import ReadPlan.Proofs.Session.Failures

/-!
# ReadPlan.Proofs.Session.Mutators — what a call makes of a request

A call that changes a request either selects through its families, which leaves the request itself
as it is, or writes one part of it (`Session.Mutates`). What it writes depends on the names that it
mentions and, for a batch size, on the filter (`Session.write?_congr`); where the value is refused,
nothing is written.
-/

namespace ReadPlan

namespace Call

/-- The call changes a request. -/
def IsMutator : Call → Prop
  | .select _ | .set _ | .setScan _ | .useMap _ | .useFilter _ => True
  | _ => False

/-- The part of a request that a call writes. -/
def part? : Call → Option Part
  | .set setting => some setting.part
  | .setScan setting => some setting.part
  | .useMap _ => some .families
  | .useFilter _ => some .filter
  | _ => none

end Call

namespace Session

variable {session next : Session} {name : String} {request : Request MapId FilterId} {call : Call}

/-! ## What a mutator does -/

/-- The outcome of writing a part of the request; none for a call that writes no part. -/
def write? (session : Session) (request : Request MapId FilterId) :
    Call → Option (Outcome (Write MapId FilterId))
  | .set setting => some setting.write
  | .setScan setting => request.scanFilter?.map fun filter? =>
    setting.write (filter?.map session.pool.filter)
  | .useMap map => (session.map? map).map fun families => .ok (.families families)
  | .useFilter filterName? => (session.filterOrNone? filterName?).map fun filter? =>
    .ok (.filter filter?)
  | _ => none

/-- What a call that changes the request of the name makes of the session, with its outcome. -/
inductive Mutates (session : Session) (name : String) (request : Request MapId FilterId) :
    Call → Session → Outcome Answer → Prop where
  | select (selector : Selector) :
    Mutates session name request (.select selector)
      { session with pool := session.pool.select request.criteria.families selector } (.ok .itself)
  | write {call : Call} {outcome : Outcome (Write MapId FilterId)}
    (hwrite : session.write? request call = some outcome) :
    Mutates session name request call (session.bind name (.request (request.take outcome)))
      ((fun _ => .itself) <$> outcome)

theorem bind_self (hname : session.request? name = some request) :
    session.bind name (.request request) = session := by
  rw [bind, OrderedMap.put_of_get? (request?_eq_some.1 hname)]

theorem bind_bind (session : Session) (name : String) (first second : Object) :
    (session.bind name first).bind name second = session.bind name second := by
  simp only [bind, OrderedMap.put_put]

/-- Writing a value that may be refused leaves the request as `Request.take` says. -/
theorem settle_take (hname : session.request? name = some request)
    (outcome : Outcome (Write MapId FilterId)) :
    session.settle (outcome >>= fun write =>
      return (session.bind name (.request (request.put write)), .itself)) =
    (session.bind name (.request (request.take outcome)), (fun _ => .itself) <$> outcome) := by
  rcases outcome with ⟨result, log⟩
  cases result with
  | ok write => simp [settle, Request.take]
  | error failure => simp [settle, Request.take, bind_self hname]

theorem step?_of_write? (hname : session.request? name = some request)
    {outcome : Outcome (Write MapId FilterId)} (hwrite : session.write? request call = some outcome) :
    session.step? (.call name call) =
      some (session.bind name (.request (request.take outcome)),
        (fun _ => .itself) <$> outcome) := by
  cases call with
  | set setting =>
    cases hwrite
    rw [step?_set hname, request.apply_eq, Outcome.bind_map, settle_take hname]
  | setScan setting =>
    cases request with
    | lookup lookup => cases hwrite
    | scan scan =>
      cases hwrite
      rw [step?_setScan (scan?_of_request? hname), scan.apply_eq,
        Outcome.bind_map, ← settle_take hname]
      rfl
  | useMap map =>
    rcases Option.map_eq_some_iff.1 hwrite with ⟨families, hmap, rfl⟩
    rw [step?_useMap hname hmap]
    cases request <;> rfl
  | useFilter filterName? =>
    rcases Option.map_eq_some_iff.1 hwrite with ⟨filter?, hfilter, rfl⟩
    rw [step?_useFilter hname hfilter]
    cases request <;> rfl
  | select | setWholeRow | ask | askScan | compare => cases hwrite

/-- A call writes to its own part. -/
theorem writesTo_of_write? {outcome : Outcome (Write MapId FilterId)}
    (hwrite : session.write? request call = some outcome) :
    ∃ part, call.part? = some part ∧ outcome.WritesTo part := by
  cases call with
  | set setting =>
    cases hwrite
    exact ⟨_, rfl, setting.writesTo⟩
  | setScan setting =>
    rcases Option.map_eq_some_iff.1 hwrite with ⟨filter?, -, rfl⟩
    exact ⟨_, rfl, setting.writesTo _⟩
  | useMap map =>
    rcases Option.map_eq_some_iff.1 hwrite with ⟨families, -, rfl⟩
    exact ⟨_, rfl, Outcome.writesTo_ok _⟩
  | useFilter filterName? =>
    rcases Option.map_eq_some_iff.1 hwrite with ⟨filter?, -, rfl⟩
    exact ⟨_, rfl, Outcome.writesTo_ok _⟩
  | select | setWholeRow | ask | askScan | compare => cases hwrite

/-- A call that writes reads names, filters, and of the request its kind and its filter. -/
theorem write?_congr {other : Session} {second : Request MapId FilterId}
    (hmap : session.map? = other.map?) (hfilter : session.filter? = other.filter?)
    (hpool : session.pool.filter = other.pool.filter)
    (hscan : second.scanFilter? = request.scanFilter?) (call : Call) :
    session.write? request call = other.write? second call := by
  cases call with
  | setScan setting => rw [write?, write?, hscan, hpool]
  | useMap map => rw [write?, write?, hmap]
  | useFilter filterName? => rw [write?, write?, filterOrNone?_congr hfilter]
  | set | select | setWholeRow | ask | askScan | compare => rfl

/-- Changing a request does not change which names stand for maps. -/
theorem map?_bind_request (hname : session.request? name = some request)
    (changed : Request MapId FilterId) :
    (session.bind name (.request changed)).map? = session.map? := by
  funext other
  unfold map?
  rw [get?_bind]
  by_cases heq : other = name
  · rw [if_pos heq, heq, request?_eq_some.1 hname]
  · rw [if_neg heq]

namespace Mutates

variable {outcome : Outcome Answer}

theorem step?_eq (h : session.Mutates name request call next outcome)
    (hname : session.request? name = some request) :
    session.step? (.call name call) = some (next, outcome) := by
  cases h with
  | select selector =>
    rw [step?_call_request (request?_eq_some.1 hname)]
    rfl
  | write hwrite => exact step?_of_write? hname hwrite

/-- The name stands for a request of the same kind as before. -/
theorem keepsKind (h : session.Mutates name request call next outcome)
    (hname : session.request? name = some request) :
    ∃ changed, next.request? name = some changed ∧
      changed.scanFilter?.isSome = request.scanFilter?.isSome := by
  cases h with
  | select selector => exact ⟨request, hname, rfl⟩
  | write hwrite =>
    exact ⟨_, request?_bind_self _ _ _, request.isSome_scanFilter?_take _⟩

theorem map?_eq (h : session.Mutates name request call next outcome)
    (hname : session.request? name = some request) : next.map? = session.map? := by
  cases h with
  | select selector => rfl
  | write hwrite => exact map?_bind_request hname _

theorem filter?_eq (h : session.Mutates name request call next outcome)
    (hname : session.request? name = some request) : next.filter? = session.filter? := by
  cases h with
  | select selector => rfl
  | write hwrite => exact filter?_bind_request hname _

/-- A request takes a mutator later if it takes it now. -/
theorem takes (h : session.Mutates name request call next outcome)
    (hname : session.request? name = some request) {other : Call} (hother : other.IsMutator)
    (htakes : session.Takes name other) : next.Takes name other := by
  rcases h.keepsKind hname with ⟨changed, hchanged, hkind⟩
  cases other with
  | select selector => exact ⟨_, mapOf?_of_request? hchanged⟩
  | set setting => exact ⟨changed, hchanged⟩
  | setScan setting =>
    rcases htakes with ⟨scan, hscan⟩
    obtain rfl := Option.some.inj (hname.symm.trans (request?_of_scan? hscan))
    cases changed with
    | scan changed => exact ⟨changed, scan?_of_request? hchanged⟩
    | lookup lookup => cases hkind
  | useMap map =>
    rw [Takes, h.map?_eq hname]
    exact ⟨⟨changed, hchanged⟩, htakes.2⟩
  | useFilter filterName? =>
    rw [Takes, filterOrNone?_congr (h.filter?_eq hname)]
    exact ⟨⟨changed, hchanged⟩, htakes.2⟩
  | setWholeRow | ask | askScan | compare => exact hother.elim

end Mutates

/-- A request takes every mutator whose names stand for objects of the right kinds. -/
theorem exists_mutates (hname : session.request? name = some request) (hcall : call.IsMutator)
    (htakes : session.Takes name call) :
    ∃ next outcome, session.Mutates name request call next outcome := by
  cases call with
  | select selector => exact ⟨_, _, .select selector⟩
  | set setting => exact ⟨_, _, .write rfl⟩
  | setScan setting =>
    rcases htakes with ⟨scan, hscan⟩
    obtain rfl := Option.some.inj (hname.symm.trans (request?_of_scan? hscan))
    exact ⟨_, _, .write rfl⟩
  | useMap map =>
    rcases htakes.2 with ⟨families, hmap⟩
    exact ⟨_, _, .write (by rw [write?, hmap]; rfl)⟩
  | useFilter filterName? =>
    rcases htakes.2 with ⟨filter?, hfilter⟩
    exact ⟨_, _, .write (by rw [write?, hfilter]; rfl)⟩
  | setWholeRow | ask | askScan | compare => exact hcall.elim

end Session

end ReadPlan
