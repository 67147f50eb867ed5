import ReadPlan.Request.Criteria

/-!
# ReadPlan.Request.Scan — scans over a range of rows

A scan reads the rows from `startRow`, included, to `stopRow`, excluded; an empty row is no
bound. It goes back and forth between client and server several times, and `batch`, `caching` and
`maxResultSize` bound what each trip brings.
-/

namespace ReadPlan

structure Scan (μ φ : Type) extends Criteria μ φ where
  startRow : Bytes := []
  stopRow : Bytes := []
  /-- Values of a row per call; splits rows. -/
  batch : Int := unset
  /-- Rows per round trip. -/
  caching : Int := unset
  /-- Bytes per round trip. -/
  maxResultSize : Int := unset
deriving DecidableEq, Repr

/-- A setting of scans alone. -/
inductive ScanSetting where
  | startRow (row : Bytes)
  | stopRow (row : Bytes)
  | batch (size : Int)
  | caching (rows : Int)
  | maxResultSize (size : Int)
  | raw (flag : Bool)
  | metrics (flag : Bool)
  | isolation (level : Isolation)
deriving DecidableEq, Repr

namespace Scan

variable {μ φ : Type}

/-- Replaces the part shared with lookups. -/
def withCriteria {μ' φ' : Type} (scan : Scan μ φ) (criteria : Criteria μ' φ') : Scan μ' φ' where
  toCriteria := criteria
  startRow := scan.startRow
  stopRow := scan.stopRow
  batch := scan.batch
  caching := scan.caching
  maxResultSize := scan.maxResultSize

/-- Replaces how families and filter are held. -/
def map {μ' φ' : Type} (f : μ → μ') (g : φ → φ') (scan : Scan μ φ) : Scan μ' φ' :=
  scan.withCriteria (scan.toCriteria.map f g)

/-- Sets or removes an attribute. -/
def setAttribute (scan : Scan μ φ) (name : String) (value? : Option Bytes) : Scan μ φ :=
  { scan with toCriteria := scan.toCriteria.setAttribute name value? }

/-- The effect of a setting shared with lookups. -/
def applyShared (scan : Scan μ φ) (setting : Setting) : Outcome (Scan μ φ) := do
  let criteria ← scan.toCriteria.apply setting
  return scan.withCriteria criteria

/-- Sets the batch size. Batching may split a row over several calls, so it is refused while the
filter of the scan needs whole rows. -/
def setBatch (scan : Scan μ φ) (filter? : Option Filter) (size : Int) : Outcome (Scan μ φ) :=
  match filter? with
  | some filter =>
    if filter.needsWholeRow then .refuse .batchOnWholeRows (.refusedBatch size filter.text)
    else .ok { scan with batch := size }
  | none => .ok { scan with batch := size }

/-- The effect of a setting on a scan whose filter is the one given. -/
def apply (scan : Scan μ φ) (filter? : Option Filter) : ScanSetting → Outcome (Scan μ φ)
  | .startRow row => return { scan with startRow := row }
  | .stopRow row => return { scan with stopRow := row }
  | .batch size => scan.setBatch filter? size
  | .caching rows => return { scan with caching := rows }
  | .maxResultSize size => return { scan with maxResultSize := size }
  | .raw flag => return scan.setAttribute Attributes.rawName (some (encodeFlag flag))
  | .metrics flag => return scan.setAttribute Attributes.metricsName (some (encodeFlag flag))
  | .isolation level => return scan.setAttribute Attributes.isolationName (some level.encode)

/-- The scan addresses exactly one row. -/
def IsPointLookup (scan : Scan μ φ) : Prop :=
  scan.startRow ≠ [] ∧ scan.startRow = scan.stopRow

instance (scan : Scan μ φ) : Decidable scan.IsPointLookup :=
  inferInstanceAs (Decidable (_ ∧ _))

/-- The oldest version of the message that carries every field the scan uses. -/
def wireVersion (scan : Scan μ φ) : WireVersion :=
  if scan.cellLimit ≠ unset ∨ scan.cellOffset ≠ 0 then .pagination
  else if scan.maxResultSize ≠ unset then .resultSize
  else if scan.attributes.size ≠ 0 then .attributes
  else .base

/-- A copy that holds the families given. Settings are taken over by value, the bounds of the time
range are checked again, the attributes are set again one by one, and the filter is the same. -/
def copyWith {μ' : Type} (scan : Scan μ φ) (families : μ') : Outcome (Scan μ' φ) := do
  let timeRange ← TimeRange.ofBounds scan.timeRange.min scan.timeRange.max
  return {
    families
    filter? := scan.filter?
    timeRange
    maxVersions := scan.maxVersions
    cellLimit := scan.cellLimit
    cellOffset := scan.cellOffset
    cacheBlocks := scan.cacheBlocks
    attributes := .ofList scan.attributes.entries
    startRow := scan.startRow
    stopRow := scan.stopRow
    batch := scan.batch
    caching := scan.caching
    maxResultSize := scan.maxResultSize
  }

end Scan

end ReadPlan
