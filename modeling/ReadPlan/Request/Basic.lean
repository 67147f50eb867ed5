import ReadPlan.Request.Scan

/-!
# ReadPlan.Request.Basic — lookups, and requests of either kind

A lookup reads a single row. It can be lifted into the scan that reads the same row with the same
criteria; the lifted scan holds the families of the lookup itself, not a copy of them, and starts
without attributes.
-/

namespace ReadPlan

structure Lookup (μ φ : Type) extends Criteria μ φ where
  row : Bytes
deriving DecidableEq, Repr

namespace Lookup

variable {μ φ : Type}

/-- Replaces the part shared with scans. -/
def withCriteria {μ' φ' : Type} (lookup : Lookup μ φ) (criteria : Criteria μ' φ') :
    Lookup μ' φ' where
  toCriteria := criteria
  row := lookup.row

/-- Replaces how families and filter are held. -/
def map {μ' φ' : Type} (f : μ → μ') (g : φ → φ') (lookup : Lookup μ φ) : Lookup μ' φ' :=
  lookup.withCriteria (lookup.toCriteria.map f g)

/-- The scan of the row of a lookup. -/
def toScan (lookup : Lookup μ φ) : Scan μ φ where
  families := lookup.families
  filter? := lookup.filter?
  timeRange := lookup.timeRange
  maxVersions := lookup.maxVersions
  cellLimit := lookup.cellLimit
  cellOffset := lookup.cellOffset
  cacheBlocks := lookup.cacheBlocks
  startRow := lookup.row
  stopRow := lookup.row

/-- Lifts a lookup into a scan and says so in the log. -/
def lift (lookup : Lookup μ φ) : Outcome (Scan μ φ) := do
  Outcome.record (.lifted lookup.row)
  return lookup.toScan

end Lookup

/-- A scan or a lookup. -/
inductive Request (μ φ : Type) where
  | scan (scan : Scan μ φ)
  | lookup (lookup : Lookup μ φ)
deriving DecidableEq, Repr

namespace Request

variable {μ φ : Type}

/-- The part that both kinds have. -/
def criteria : Request μ φ → Criteria μ φ
  | scan s => s.toCriteria
  | lookup l => l.toCriteria

/-- Replaces the part that both kinds have. -/
def withCriteria {μ' φ' : Type} (request : Request μ φ) (criteria : Criteria μ' φ') :
    Request μ' φ' :=
  match request with
  | scan s => .scan (s.withCriteria criteria)
  | lookup l => .lookup (l.withCriteria criteria)

/-- Replaces how families and filter are held. -/
def map {μ' φ' : Type} (f : μ → μ') (g : φ → φ') : Request μ φ → Request μ' φ'
  | scan s => .scan (s.map f g)
  | lookup l => .lookup (l.map f g)

/-- The effect of a setting. -/
def apply (request : Request μ φ) (setting : Setting) : Outcome (Request μ φ) := do
  let criteria ← request.criteria.apply setting
  return request.withCriteria criteria

@[simp] theorem criteria_withCriteria {μ' φ' : Type} (request : Request μ φ)
    (c : Criteria μ' φ') : (request.withCriteria c).criteria = c := by
  cases request <;> rfl

@[simp] theorem criteria_map {μ' φ' : Type} (f : μ → μ') (g : φ → φ') (request : Request μ φ) :
    (request.map f g).criteria = request.criteria.map f g := by
  cases request <;> rfl

@[simp] theorem withCriteria_criteria (request : Request μ φ) :
    request.withCriteria request.criteria = request := by
  cases request <;> rfl

end Request

end ReadPlan
