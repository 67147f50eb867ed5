import Mathlib.Data.List.Nodup
import ReadPlan.Proofs.Pool.Slices
import ReadPlan.Proofs.Request.Parts
import ReadPlan.Proofs.Selection.Listings
import ReadPlan.Session.Basic

/-!
# ReadPlan.Proofs.Request.Order — descriptions do not tell an order

Families and attributes are kept in an order, but a description is the same for all orders: the
families are sorted before they are listed, the columns are only counted, and of the attributes only
the id is looked up. So requests that look alike are described alike, however they came about
(`Request.Alike.describe_eq`), and those that differ in order alone do look alike
(`Request.SameButOrder.alike`).
-/

namespace ReadPlan

/-- Maps with the same values under their keys have the same entries, in some order. -/
theorem OrderedMap.entries_perm {κ ν : Type} [DecidableEq κ] {m n : OrderedMap κ ν}
    (h : ∀ key, m.get? key = n.get? key) : m.entries.Perm n.entries := by
  rw [List.perm_ext_iff_of_nodup (List.Nodup.of_map _ m.distinct) (List.Nodup.of_map _ n.distinct)]
  intro entry
  constructor
  · intro hentry
    exact mem_of_get? ((h entry.1).symm.trans (get?_of_mem hentry))
  · intro hentry
    exact mem_of_get? ((h entry.1).trans (get?_of_mem hentry))

namespace Selection.SameContents

variable {s t : Selection}

theorem get?_eq (h : s.SameContents t) (family : Bytes) : s.get? family = t.get? family :=
  sameContents_iff.1 h family

theorem families_eq (h : s.SameContents t) : s.families = t.families := by
  apply families_eq_of_keys
  intro family
  rw [OrderedMap.mem_keys_iff, OrderedMap.mem_keys_iff, h.get?_eq]

theorem isEmpty_eq (h : s.SameContents t) : s.isEmpty = t.isEmpty := by
  rw [OrderedMap.isEmpty, OrderedMap.isEmpty, (OrderedMap.entries_perm h.get?_eq).isEmpty_eq]

theorem fingerprint_eq (h : s.SameContents t) : s.fingerprint = t.fingerprint := by
  rw [fingerprint, fingerprint, h.isEmpty_eq, h.families_eq]

theorem families?_eq (h : s.SameContents t) : s.families? = t.families? := by
  rw [families?, families?, h.isEmpty_eq, h.families_eq]

theorem listing_eq (h : s.SameContents t) (maxColumns : Int) :
    s.listing maxColumns = t.listing maxColumns := by
  have hfull : s.fullListing = t.fullListing := by
    simp only [fullListing, h.families_eq, h.get?_eq]
  rw [listing, listing, hfull]

theorem totalColumns_eq (h : s.SameContents t) : s.totalColumns = t.totalColumns := by
  -- counts may be added in any order
  refine (OrderedMap.entries_perm h.get?_eq).foldr_eq' ?_ 0
  intro first _ second _ total
  omega

end Selection.SameContents

theorem Attributes.operationId_congr {first second : Attributes}
    (h : first.get? idName = second.get? idName) : first.operationId = second.operationId := by
  rw [operationId, operationId, h]

/-! ## Requests that look alike -/

/-- The criteria have the same settings, the same columns of the same families, filters of the same
text or none, and the same value stored for the id. -/
structure Criteria.Alike (first second : Criteria Selection Filter) : Prop where
  families : first.families.SameContents second.families
  filter : first.filter?.map Filter.text = second.filter?.map Filter.text
  timeRange : first.timeRange = second.timeRange
  maxVersions : first.maxVersions = second.maxVersions
  cellLimit : first.cellLimit = second.cellLimit
  cellOffset : first.cellOffset = second.cellOffset
  cacheBlocks : first.cacheBlocks = second.cacheBlocks
  id : first.attributes.get? Attributes.idName = second.attributes.get? Attributes.idName

/-- The requests are of one kind, with the same rows and settings and with criteria that are alike. -/
inductive Request.Alike : Request Selection Filter → Request Selection Filter → Prop where
  | scan {first second : Scan Selection Filter}
    (criteria : first.toCriteria.Alike second.toCriteria)
    (startRow : first.startRow = second.startRow) (stopRow : first.stopRow = second.stopRow)
    (batch : first.batch = second.batch) (caching : first.caching = second.caching)
    (maxResultSize : first.maxResultSize = second.maxResultSize) :
    Alike (.scan first) (.scan second)
  | lookup {first second : Lookup Selection Filter}
    (criteria : first.toCriteria.Alike second.toCriteria) (row : first.row = second.row) :
    Alike (.lookup first) (.lookup second)

namespace Request.Alike

variable {first second : Request Selection Filter}

theorem criteria (h : first.Alike second) : first.criteria.Alike second.criteria := by
  cases h with
  | scan criteria => exact criteria
  | lookup criteria => exact criteria

theorem target_eq (h : first.Alike second) : first.target = second.target := by
  cases h with
  | scan _ startRow stopRow batch caching maxResultSize =>
    rw [target, target, startRow, stopRow, batch, caching, maxResultSize]
  | lookup _ row => rw [target, target, row]

theorem fingerprint_eq (h : first.Alike second) : first.fingerprint = second.fingerprint :=
  h.criteria.families.fingerprint_eq

/-- Requests that look alike describe themselves alike, or fail alike. -/
theorem describe_eq (h : first.Alike second) (maxColumns : Int) :
    first.describe maxColumns = second.describe maxColumns := by
  have hcriteria := h.criteria
  have hid : first.criteria.attributes.operationId = second.criteria.attributes.operationId :=
    Attributes.operationId_congr hcriteria.id
  simp only [describe, hid, h.target_eq, hcriteria.families.listing_eq, hcriteria.maxVersions,
    hcriteria.cacheBlocks, hcriteria.timeRange, hcriteria.families.totalColumns_eq,
    hcriteria.filter]

theorem toText_eq (h : first.Alike second) (maxColumns : Int) :
    first.toText maxColumns = second.toText maxColumns := by
  rw [toText, toText, h.describe_eq]

end Request.Alike

namespace Request.SameButOrder

/-- Requests that differ in order alone look alike. -/
theorem alike {first second : Request Selection Filter}
    (h : first.SameButOrder Selection.SameContents second) : first.Alike second := by
  rcases h with ⟨families, attributes, rfl, hfamilies, hattributes⟩
  have hcriteria : first.criteria.Alike { first.criteria with families, attributes } :=
    ⟨hfamilies, rfl, rfl, rfl, rfl, rfl, rfl, hattributes _⟩
  cases first with
  | scan scan => exact .scan hcriteria rfl rfl rfl rfl rfl
  | lookup lookup => exact .lookup hcriteria rfl

/-- In pools that differ in order alone, references that are the same stand for requests that differ
in order alone. -/
theorem resolve {pool later : Pool} {first second : Request MapId FilterId}
    (h : first.SameButOrder Eq second) (hpool : pool.SameButOrder later) :
    (pool.resolve first).SameButOrder Selection.SameContents (later.resolve second) := by
  rcases h with ⟨_, attributes, rfl, rfl, hattributes⟩
  refine ⟨later.contents first.criteria.families, attributes, ?_, ?_, ?_⟩
  · rw [Pool.resolve, Pool.resolve, hpool.filter_eq]
    cases first <;> rfl
  · rw [Pool.resolve, criteria_map]
    exact hpool.contents _
  · rw [Pool.resolve, criteria_map]
    exact hattributes

end Request.SameButOrder

end ReadPlan
