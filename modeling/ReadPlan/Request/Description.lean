import ReadPlan.Json.Printer
import ReadPlan.Request.Basic
import ReadPlan.Selection.Listing

/-!
# ReadPlan.Request.Description — requests for the log

A request describes itself in two ways. The fingerprint groups requests by the families they
read. The description adds the rows, the main settings, the columns up to a number of them, the
filter and the id, and is logged as one line of JSON with its fields in a fixed order.

Describing fails only if the id of the operation is not well-formed UTF-8.
-/

namespace ReadPlan

/-- How many columns are listed if the caller does not say. -/
def defaultMaxColumns : Int := 5

/-- What a description says of one kind of request alone. -/
inductive Target where
  | scan (startRow stopRow : String) (batch caching maxResultSize : Int)
  | lookup (row : String)
deriving DecidableEq, Repr

structure Description where
  target : Target
  families : List (String × List String)
  maxVersions : Int
  cacheBlocks : Bool
  timeRange : TimeRange
  totalColumns : Nat
  filter? : Option String
  id? : Option String
deriving DecidableEq, Repr

namespace Target

/-- The fields that tell the rows. -/
def rowFields : Target → List (String × Json)
  | scan startRow stopRow _ _ _ => [("startRow", .str startRow), ("stopRow", .str stopRow)]
  | lookup row => [("row", .str row)]

/-- The fields that bound a round trip. -/
def tripFields : Target → List (String × Json)
  | scan _ _ batch caching maxResultSize =>
    [("batch", .int batch), ("caching", .int caching), ("maxResultSize", .int maxResultSize)]
  | lookup _ => []

end Target

namespace Description

/-- A field that is left out if there is no text. -/
def optionalField (name : String) : Option String → List (String × Json)
  | none => []
  | some text => [(name, .str text)]

/-- The fields in the order in which they are written. -/
def fields (d : Description) : List (String × Json) :=
  ("families", .obj (d.families.map fun entry => (entry.1, .texts entry.2))) ::
    d.target.rowFields ++
    ("maxVersions", .int d.maxVersions) ::
    d.target.tripFields ++
    ("cacheBlocks", .bool d.cacheBlocks) ::
    ("timeRange", .arr [.int d.timeRange.min, .int d.timeRange.max]) ::
    ("totalColumns", .int d.totalColumns) ::
    optionalField "filter" d.filter? ++
    optionalField "id" d.id?

def toJson (d : Description) : Json :=
  .obj d.fields

end Description

namespace Fingerprint

def toJson : Fingerprint → Json
  | everything => .obj [("families", .str allColumns)]
  | families names => .obj [("families", .texts names)]

end Fingerprint

namespace Request

/-- The kind of a request with what only that kind tells. -/
def target {μ φ : Type} : Request μ φ → Target
  | scan s =>
    .scan (Escaped.text s.startRow) (Escaped.text s.stopRow) s.batch s.caching s.maxResultSize
  | lookup l => .lookup (Escaped.text l.row)

def fingerprint (request : Request Selection Filter) : Fingerprint :=
  request.criteria.families.fingerprint

/-- The description with at most `maxColumns` columns listed. -/
def describe (request : Request Selection Filter) (maxColumns : Int := defaultMaxColumns) :
    Except Failure Description := do
  let criteria := request.criteria
  let id? ← criteria.attributes.operationId
  return {
    target := request.target
    families := criteria.families.listing maxColumns
    maxVersions := criteria.maxVersions
    cacheBlocks := criteria.cacheBlocks
    timeRange := criteria.timeRange
    totalColumns := criteria.families.totalColumns
    filter? := criteria.filter?.map Filter.text
    id?
  }

/-- The description as a line of JSON. -/
def toText (request : Request Selection Filter) (maxColumns : Int := defaultMaxColumns) :
    Except Failure String := do
  let description ← request.describe maxColumns
  return description.toJson.text

end Request

end ReadPlan
