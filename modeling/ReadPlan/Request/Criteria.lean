import ReadPlan.Attributes
import ReadPlan.Selection.Basic
import ReadPlan.TimeRange

/-!
# ReadPlan.Request.Criteria — what scans and lookups have in common

Both kinds of request select families and columns, may carry a filter, and say which versions of
a cell and how many cells of a row they want. How families and filter are held is left open: `μ`
and `φ` are a selection and a filter where a request stands for itself, and references into a
pool where several requests share them.

The settings of this module change a request without looking at its families or its filter.

Numbers are unbounded, and every number has a decimal form: a limit that an interpreter may set on
the digits of an integer lies outside this library. Names and labels are strings, texts of Unicode
scalar values only. The id of the operation alone is taken as the code points that the caller hands
over, since it is encoded as soon as it is given, and a surrogate has no encoding.
-/

namespace ReadPlan

/-- Stands for a limit or a size that is not set. -/
def unset : Int := -1

/-- The greatest number of versions, which asks for all of them. -/
def allVersions : Int := 0x7fff_ffff

/-- What to read, whatever the rows. -/
structure Criteria (μ φ : Type) where
  families : μ
  filter? : Option φ := none
  timeRange : TimeRange := {}
  maxVersions : Int := 1
  /-- At most so many cells per row and family. -/
  cellLimit : Int := unset
  /-- So many cells of each row and family are skipped. -/
  cellOffset : Int := 0
  cacheBlocks : Bool := true
  attributes : Attributes := ∅
deriving DecidableEq, Repr

/-- A setting that scans and lookups share. The name of an attribute is a text of Unicode scalar
values only. -/
inductive Setting where
  | timeRange (min max : Int)
  | timeStamp (timestamp : Int)
  | maxVersions (count : Int := allVersions)
  | cellLimit (limit : Int)
  | cellOffset (offset : Int)
  | cacheBlocks (flag : Bool)
  | attribute (name : String) (value? : Option Bytes)
  /-- The id may be any sequence of code points, surrogates included. -/
  | operationId (id : CodePoints)
deriving DecidableEq, Repr

namespace Criteria

variable {μ φ : Type}

/-- Sets or removes an attribute. -/
def setAttribute (criteria : Criteria μ φ) (name : String) (value? : Option Bytes) :
    Criteria μ φ :=
  { criteria with attributes := criteria.attributes.set name value? }

/-- The effect of a setting. A time range may be refused, and an id that has no encoding. -/
def apply (criteria : Criteria μ φ) : Setting → Outcome (Criteria μ φ)
  | .timeRange min max => do
    let timeRange ← TimeRange.ofBounds min max
    return { criteria with timeRange }
  | .timeStamp timestamp => do
    let timeRange ← TimeRange.single timestamp
    return { criteria with timeRange }
  | .maxVersions count => return { criteria with maxVersions := count }
  | .cellLimit limit => return { criteria with cellLimit := limit }
  | .cellOffset offset => return { criteria with cellOffset := offset }
  | .cacheBlocks flag => return { criteria with cacheBlocks := flag }
  | .attribute name value? => return criteria.setAttribute name value?
  | .operationId id => do
    let value ← Outcome.ofExcept (Attributes.encodeId id)
    return criteria.setAttribute Attributes.idName (some value)

/-- Replaces how families and filter are held. -/
def map {μ' φ' : Type} (f : μ → μ') (g : φ → φ') (criteria : Criteria μ φ) : Criteria μ' φ' where
  families := f criteria.families
  filter? := criteria.filter?.map g
  timeRange := criteria.timeRange
  maxVersions := criteria.maxVersions
  cellLimit := criteria.cellLimit
  cellOffset := criteria.cellOffset
  cacheBlocks := criteria.cacheBlocks
  attributes := criteria.attributes

end Criteria

end ReadPlan
