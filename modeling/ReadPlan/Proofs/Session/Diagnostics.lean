import ReadPlan.Proofs.Request.Order
import ReadPlan.Proofs.Request.Text
import ReadPlan.Proofs.Selection.Traversals
import ReadPlan.Proofs.Session.Descriptions

/-!
# ReadPlan.Proofs.Session.Diagnostics — what requests tell for the log

A request tells for the log which families it reads: by its fingerprint, by a description or the text
of one, and a scan by listing them too. Two requests that look alike tell the same, be it in one
session or in two, whatever made them and whatever they share (`Session.step?_diagnostic`). What one
request tells in these ways agrees, family by family and in the same order
(`Session.tellsFamilies`).
-/

namespace ReadPlan

/-- The call asks for something that is meant for the log. -/
def Call.IsDiagnostic : Call → Prop
  | .ask .fingerprint | .ask (.describe _) | .ask (.text _) | .askScan .families => True
  | _ => False

/-! ## Families of a selection -/

namespace Selection

/-- The families of the selection as they are displayed, in ascending order. -/
def names (selection : Selection) : List String :=
  selection.families.toList.map Escaped.text

theorem names_eq_nil_iff {selection : Selection} :
    selection.names = [] ↔ selection.isEmpty = true := by
  rw [names, List.map_eq_nil_iff, ← List.isEmpty_iff, selection.families_perm.isEmpty_eq,
    OrderedMap.keys, List.isEmpty_map, OrderedMap.isEmpty]

theorem fingerprint_eq_everything_iff {selection : Selection} :
    selection.fingerprint = .everything ↔ selection.names = [] := by
  rw [names_eq_nil_iff, fingerprint]
  split_ifs with hempty <;> simp [hempty]

theorem fingerprint_of_ne {selection : Selection} (h : selection.fingerprint ≠ .everything) :
    selection.fingerprint = .families selection.names := by
  rw [Ne, fingerprint_eq_everything_iff, names_eq_nil_iff] at h
  rw [fingerprint, if_neg h, names]

theorem families?_eq_none_iff {selection : Selection} :
    selection.families? = none ↔ selection.names = [] := by
  rw [names_eq_nil_iff, families?]
  split_ifs with hempty <;> simp [hempty]

theorem families_of_families? {selection : Selection} {families : KeySet}
    (h : selection.families? = some families) : selection.families = families := by
  rw [families?] at h
  split_ifs at h
  exact Option.some.inj h

end Selection

/-! ## Requests that look alike -/

namespace Request.Alike

variable {first second : Request Selection Filter}

/-- Asked for the log, requests that look alike answer alike, or fail alike. -/
theorem answer_eq (h : first.Alike second) {query : Query} (hquery : (Call.ask query).IsDiagnostic) :
    first.answer query = second.answer query := by
  cases query with
  | fingerprint => rw [answer, answer, h.fingerprint_eq]
  | describe maxColumns => rw [answer, answer, h.describe_eq]
  | text maxColumns => rw [answer, answer, h.toText_eq]
  | _ => exact hquery.elim

end Request.Alike

namespace Session

variable {session other : Session} {name otherName : String} {first second : Request MapId FilterId}

/-- **Requests that look alike tell the log the same.** It does not matter in which sessions they
are. -/
theorem step?_diagnostic (hname : session.request? name = some first)
    (hother : other.request? otherName = some second)
    (halike : (session.pool.resolve first).Alike (other.pool.resolve second)) {call : Call}
    (hcall : call.IsDiagnostic) (htakes : session.Takes name call) :
    ∃ outcome, session.step? (.call name call) = some (session, outcome) ∧
      other.step? (.call otherName call) = some (other, outcome) := by
  cases call with
  | ask query =>
    refine ⟨_, step?_ask hname query, ?_⟩
    rw [step?_ask hother, halike.answer_eq hcall]
  | askScan query =>
    cases query with
    | families =>
      rcases htakes with ⟨scan, hscan⟩
      obtain rfl := Option.some.inj (hname.symm.trans (request?_of_scan? hscan))
      cases second with
      | lookup lookup => cases halike
      | scan found =>
        have hfound := scan?_of_request? hother
        refine ⟨_, step?_askScan hscan .families, ?_⟩
        rw [step?_askScan hfound]
        exact congrArg (fun families? => some (other, Outcome.ok (Answer.families? families?)))
          halike.criteria.families.families?_eq.symm
    | _ => exact hcall.elim
  | _ => exact hcall.elim

/-! ## One request -/

/-- Besides describing itself, the request of the name tells its families by its fingerprint and, if
it is a scan, by listing them. Displayed, these are the names given, in their order. -/
structure TellsFamilies (session : Session) (name : String) (names : List String) : Prop where
  fingerprint : ∃ fingerprint,
    session.step? (.call name (.ask .fingerprint)) =
        some (session, .ok (.fingerprint fingerprint)) ∧
      (fingerprint = .everything ↔ names = []) ∧
      (fingerprint ≠ .everything → fingerprint = .families names)
  families : ∀ scan, session.scan? name = some scan → ∃ families?,
    session.step? (.call name (.askScan .families)) =
        some (session, .ok (.families? families?)) ∧
      (families? = none ↔ names = []) ∧
      ∀ families, families? = some families →
        families.toList.map Escaped.text = names ∧ families.toList.Pairwise (· < ·) ∧
          ∀ family, family ∈ families.toList ↔ family ∈ (session.pool.contents scan.families).keys

variable {request : Request MapId FilterId} {maxColumns : Int} {d : Description}

/-- **The diagnostics of a request agree.** Its fingerprint and the list of its families are those
that any description of it lists. -/
theorem tellsFamilies (hname : session.request? name = some request)
    (hd : session.step? (.call name (.ask (.describe maxColumns))) =
      some (session, .ok (.description d))) :
    session.TellsFamilies name (d.families.map Prod.fst) := by
  have hdescribes : session.Describes name maxColumns (.ok d) := hd
  have hnames : d.families.map Prod.fst =
      (session.pool.contents request.criteria.families).names := by
    rw [Request.families_of_describe ((describes_iff hname).1 hdescribes), Selection.map_fst_listing,
      Pool.resolve, Request.criteria_map]
    rfl
  rw [hnames]
  constructor
  · refine ⟨_, step?_ask hname .fingerprint, ?_⟩
    rw [Request.fingerprint, Pool.resolve, Request.criteria_map]
    exact ⟨Selection.fingerprint_eq_everything_iff, Selection.fingerprint_of_ne⟩
  · intro scan hscan
    obtain rfl := Option.some.inj (hname.symm.trans (request?_of_scan? hscan))
    refine ⟨_, step?_askScan hscan .families, Selection.families?_eq_none_iff, ?_⟩
    intro families hfamilies
    obtain rfl := Selection.families_of_families? hfamilies
    exact ⟨rfl, KeySet.ascending _, fun family => Selection.mem_families⟩

/-- **Diagnostics show contents only, and they agree.** Two scans or two lookups that look alike tell
the log the same, whatever the order of their families, the maps and sets they share and the
attributes they carry besides the id. What a request tells of its families by its fingerprint and by
listing them is what any of its descriptions lists. All this is made by going through the maps and
sets and sorting what comes, and it is the same in whatever order they are gone through. -/
theorem diagnostics_agree :
    (∀ (session other : Session) name otherName first second,
      session.request? name = some first → other.request? otherName = some second →
      (session.pool.resolve first).Alike (other.pool.resolve second) →
      ∀ call : Call, call.IsDiagnostic → session.Takes name call →
        ∃ outcome, session.step? (.call name call) = some (session, outcome) ∧
          other.step? (.call otherName call) = some (other, outcome)) ∧
    (∀ (session : Session) name request maxColumns d, session.request? name = some request →
      session.step? (.call name (.ask (.describe maxColumns))) =
        some (session, .ok (.description d)) →
      session.TellsFamilies name (d.families.map Prod.fst)) ∧
    ∀ (selection : Selection) (traversal : Traversal), traversal.Of selection →
      traversal.fingerprint = selection.fingerprint ∧
      traversal.families? = selection.families?.map KeySet.toList ∧
      ∀ maxColumns, (traversal.tally maxColumns).listed.entries = selection.listing maxColumns ∧
        (traversal.tally maxColumns).total = selection.totalColumns := by
  refine ⟨?_, ?_, ?_⟩
  · intro session other name otherName first second hname hother halike call hcall htakes
    exact step?_diagnostic hname hother halike hcall htakes
  · intro session name request maxColumns d hname hd
    exact tellsFamilies hname hd
  · intro selection traversal h
    exact ⟨h.fingerprint_eq, h.families?_eq, h.tally_eq⟩

/-- One scan selects for itself. The other one holds a map that has its families in another order and
shares a set with a second map, through which a column is selected; it also has an attribute of its
own. -/
theorem diagnostics_agree_through_shared_map :
    let session := after [.make "scan" .scan, .call "scan" (.select (.wholeFamily [0x67])),
      .call "scan" (.select (.column [0x66] (some [0x61]))),
      .call "scan" (.select (.column [0x66] (some [0x62])))]
    let other := after [.make "map" (.familyMap (.ofEntries [([0x66], some [[0x62]])])),
      .make "second" (.shareSets "map"), .make "scan" .scan, .call "scan" (.useMap "map"),
      .call "scan" (.select (.wholeFamily [0x67])),
      .call "second" (.select (.column [0x66] (some [0x61]))),
      .call "scan" (.set (.attribute "origin" (some [1])))]
    (∃ outcome, session.step? (.call "scan" (.ask (.text 2))) = some (session, outcome) ∧
      other.step? (.call "scan" (.ask (.text 2))) = some (other, outcome)) ∧
    session.TellsFamilies "scan" ["f", "g"] ∧
    ∃ first second, session.scan? "scan" = some first ∧ other.scan? "scan" = some second ∧
      (session.pool.contents first.families).keys = [[0x67], [0x66]] ∧
      (other.pool.contents second.families).keys = [[0x66], [0x67]] := by
  intro session other
  have hname : session.request? "scan" = some (.scan { families := ⟨0⟩ }) := rfl
  have hother : other.request? "scan" = some
      (.scan { families := ⟨0⟩, attributes := OrderedMap.put ∅ "origin" [1] }) := rfl
  have halike : (session.pool.resolve (.scan { families := ⟨0⟩ })).Alike (other.pool.resolve
      (.scan { families := ⟨0⟩, attributes := OrderedMap.put ∅ "origin" [1] })) :=
    .scan ⟨by decide, rfl, rfl, rfl, rfl, rfl, rfl, rfl⟩ rfl rfl rfl rfl rfl
  rcases diagnostics_agree with ⟨hsame, htells, -⟩
  exact ⟨hsame session other _ _ _ _ hname hother halike (.ask (.text 2)) trivial ⟨_, hname⟩,
    htells session "scan" _ 2 _ hname rfl, _, _, rfl, rfl, rfl, rfl⟩

end Session

end ReadPlan
