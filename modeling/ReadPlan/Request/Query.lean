import ReadPlan.Request.Description

/-!
# ReadPlan.Request.Query — questions that a request answers

Questions change nothing. A request answers from its own settings, the families it selects and
the filter it carries, so the answers are given here for requests that stand for themselves; a
question fails only where an attribute cannot be decoded.
-/

namespace ReadPlan

/-- A question to a scan or a lookup. -/
inductive Query where
  | operationId
  | attributeCount
  | attribute (name : String)
  | attributes
  /-- The attributes as they would be with one more entry. -/
  | attributesWith (name : String) (value : Bytes)
  | fingerprint
  | describe (maxColumns : Int := defaultMaxColumns)
  | text (maxColumns : Int := defaultMaxColumns)
  | within (timestamp : Int)
  | timeRange
deriving DecidableEq, Repr

/-- A question to a scan. -/
inductive ScanQuery where
  | raw
  | metrics
  | isolation
  | wireVersion
  | isPointLookup
  | familyCount
  | hasFamilies
  | families
  | hasFilter
deriving DecidableEq, Repr

/-- What a step of a session gives back. -/
inductive Answer where
  /-- A new object was made. -/
  | created
  /-- The object itself, so that calls can be chained. -/
  | itself
  /-- Nothing. -/
  | nothing
  | truth (value : Bool)
  | count (value : Nat)
  | text (value : String)
  | text? (value? : Option String)
  | bytes? (value? : Option Bytes)
  | families? (value? : Option KeySet)
  | attributes (value : Attributes)
  | isolation (value : Isolation)
  | wireVersion (value : WireVersion)
  | fingerprint (value : Fingerprint)
  | description (value : Description)
deriving DecidableEq, Repr

namespace Request

/-- The answer of a request. -/
def answer (request : Request Selection Filter) : Query → Except Failure Answer
  | .operationId => return .text? (← request.criteria.attributes.operationId)
  | .attributeCount => return .count request.criteria.attributes.size
  | .attribute name => return .bytes? (request.criteria.attributes.get? name)
  | .attributes => return .attributes request.criteria.attributes
  | .attributesWith name value => return .attributes (request.criteria.attributes.put name value)
  | .fingerprint => return .fingerprint request.fingerprint
  | .describe maxColumns => return .description (← request.describe maxColumns)
  | .text maxColumns => return .text (← request.toText maxColumns)
  | .within timestamp => return .truth (request.criteria.timeRange.Contains timestamp)
  | .timeRange => return .text request.criteria.timeRange.text

/-- Two requests describe themselves alike. The first one is described first. -/
def sameDescription (first second : Request Selection Filter) : Except Failure Bool := do
  let d ← first.describe
  let e ← second.describe
  return d = e

end Request

namespace Scan

/-- The answer of a scan. -/
def answer (scan : Scan Selection Filter) : ScanQuery → Except Failure Answer
  | .raw => return .truth (← scan.attributes.flag Attributes.rawName)
  | .metrics => return .truth (← scan.attributes.flag Attributes.metricsName)
  | .isolation => return .isolation (← scan.attributes.isolation)
  | .wireVersion => return .wireVersion scan.wireVersion
  | .isPointLookup => return .truth scan.IsPointLookup
  | .familyCount => return .count scan.families.size
  | .hasFamilies => return .truth (scan.families.isEmpty = false)
  | .families => return .families? scan.families.families?
  | .hasFilter => return .truth scan.filter?.isSome

end Scan

end ReadPlan
