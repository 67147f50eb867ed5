import ReadPlan.Proofs.Request.Failures
import ReadPlan.Proofs.Selection.RebuiltListings

/-!
# ReadPlan.Proofs.Request.Descriptions — what a description tells of a request

A request that has no id or one that can be read describes itself, and only the id of the description
comes from its attributes (`Request.eq_descriptionWith`). The description of a scan tells its rows and most
of its settings (`Scan.sameReported_of_describe`), but not how many cells are read of a row and family:
whatever the limit and the offset are, it is the same (`Scan.describe_cells`).

Two requests are made from another one, a lifted scan and a copy. How their descriptions differ from
that of the other one is said here for requests that stand for themselves
(`Lookup.liftedFrom_descriptionWith`, `Scan.copyOf_descriptionWith`).
-/

namespace ReadPlan

namespace Attributes

variable {attributes : Attributes}

/-- Reading a malformed id fails on its bytes. -/
theorem operationId_of_malformed (h : attributes.MalformedId) :
    ∃ fault, attributes.operationId = .error (.malformedText fault) := by
  obtain ⟨failure, hfailure, hkind⟩ := operationId_failsWith.2 ⟨rfl, h⟩
  cases failure with
  | malformedText fault => exact ⟨fault, hfailure⟩
  | _ => cases hkind

/-- Nothing else fails. -/
theorem operationId_of_readable (h : ¬ attributes.MalformedId) :
    ∃ id?, attributes.operationId = .ok id? := by
  cases hid : attributes.operationId with
  | error failure =>
    have hfails : FailsWith attributes.operationId failure.kind := ⟨failure, hid, rfl⟩
    exact absurd (operationId_failsWith.1 hfails).2 h
  | ok id? => exact ⟨id?, rfl⟩

end Attributes

/-! ## Describing -/

namespace Request

/-- What a request says of itself beside an id that was read, or beside none. -/
def descriptionWith (request : Request Selection Filter) (maxColumns : Int) (id? : Option String) :
    Description where
  target := request.target
  families := request.criteria.families.listing maxColumns
  maxVersions := request.criteria.maxVersions
  cacheBlocks := request.criteria.cacheBlocks
  timeRange := request.criteria.timeRange
  totalColumns := request.criteria.families.totalColumns
  filter? := request.criteria.filter?.map Filter.text
  id?

variable {request : Request Selection Filter}

theorem describe_of_error (request : Request Selection Filter) {failure : Failure}
    (h : request.criteria.attributes.operationId = .error failure) (maxColumns : Int) :
    request.describe maxColumns = .error failure := by
  rw [describe, h]
  rfl

theorem describe_of_ok (request : Request Selection Filter) {id? : Option String}
    (h : request.criteria.attributes.operationId = .ok id?) (maxColumns : Int) :
    request.describe maxColumns = .ok (request.descriptionWith maxColumns id?) := by
  rw [describe, h]
  rfl

/-- What is described is made with the id that is read. -/
theorem eq_descriptionWith {maxColumns : Int} {d : Description}
    (h : request.describe maxColumns = .ok d) :
    ∃ id?, request.criteria.attributes.operationId = .ok id? ∧
      d = request.descriptionWith maxColumns id? := by
  cases hid : request.criteria.attributes.operationId with
  | error failure =>
    rw [request.describe_of_error hid] at h
    cases h
  | ok id? =>
    rw [request.describe_of_ok hid] at h
    exact ⟨id?, rfl, (Except.ok.inj h).symm⟩

end Request

/-- The descriptions have the same entries. The families of a description are a mapping too, so it does
not matter in which order they stand. -/
structure Description.SameEntries (d e : Description) : Prop where
  families : d.families.Perm e.families
  others : { d with families := e.families } = e

theorem Description.SameEntries.refl (d : Description) : d.SameEntries d :=
  ⟨List.Perm.refl _, rfl⟩

/-! ## Settings -/

/-- The scans have the same rows and the same settings, as far as a description tells them. -/
structure Scan.SameReported {μ φ μ' φ' : Type} (first : Scan μ φ) (second : Scan μ' φ') : Prop where
  startRow : first.startRow = second.startRow
  stopRow : first.stopRow = second.stopRow
  maxVersions : first.maxVersions = second.maxVersions
  batch : first.batch = second.batch
  caching : first.caching = second.caching
  maxResultSize : first.maxResultSize = second.maxResultSize
  cacheBlocks : first.cacheBlocks = second.cacheBlocks
  timeRange : first.timeRange = second.timeRange

/-- The scans have the same rows and the same settings, the limit and the offset of cells included. -/
structure Scan.SameScalars {μ φ μ' φ' : Type} (first : Scan μ φ) (second : Scan μ' φ') : Prop
    extends Scan.SameReported first second where
  cellLimit : first.cellLimit = second.cellLimit
  cellOffset : first.cellOffset = second.cellOffset

namespace Scan

variable {first second : Scan Selection Filter} {maxColumns maxColumns' : Int} {d e : Description}

/-- Descriptions with the same entries are of scans with the same rows and settings, as far as they
tell them. -/
theorem sameReported_of_describe (hd : (Request.scan first).describe maxColumns = .ok d)
    (he : (Request.scan second).describe maxColumns' = .ok e) (h : d.SameEntries e) :
    first.SameReported second := by
  obtain ⟨id?, -, rfl⟩ := Request.eq_descriptionWith hd
  obtain ⟨id?', -, rfl⟩ := Request.eq_descriptionWith he
  have htarget : (Request.scan first).target = (Request.scan second).target :=
    congrArg Description.target h.others
  -- rows are told by a display that loses nothing, numbers as they are
  obtain ⟨hstart, hstop, hbatch, hcaching, hsize⟩ := Target.scan.inj htarget
  constructor
  · exact Escaped.text_injective hstart
  · exact Escaped.text_injective hstop
  · exact congrArg Description.maxVersions h.others
  · exact hbatch
  · exact hcaching
  · exact hsize
  · exact congrArg Description.cacheBlocks h.others
  · exact congrArg Description.timeRange h.others

/-- A description tells neither the limit nor the offset within a row and family. -/
theorem describe_cells (scan : Scan Selection Filter) (limit offset : Int) (maxColumns : Int) :
    (Request.scan { scan with cellLimit := limit, cellOffset := offset }).describe maxColumns =
      (Request.scan scan).describe maxColumns :=
  rfl

end Scan

/-! ## Lifted scans -/

/-- A lifted scan describes itself like the lookup of the row: where the lookup tells its row, it tells
this row as both bounds, and that no setting bounds its round trips. The ids are left aside. -/
structure Description.LiftedFrom (scan lookup : Description) (row : Bytes) : Prop where
  lookupTarget : lookup.target = .lookup (Escaped.text row)
  scanTarget : scan.target = .scan (Escaped.text row) (Escaped.text row) unset unset unset
  families : scan.families = lookup.families
  totalColumns : scan.totalColumns = lookup.totalColumns
  maxVersions : scan.maxVersions = lookup.maxVersions
  cacheBlocks : scan.cacheBlocks = lookup.cacheBlocks
  timeRange : scan.timeRange = lookup.timeRange
  filter : scan.filter? = lookup.filter?

namespace Lookup

theorem liftedFrom_descriptionWith (lookup : Lookup Selection Filter) (maxColumns : Int)
    (id? id?' : Option String) :
    ((Request.scan lookup.toScan).descriptionWith maxColumns id?).LiftedFrom
      ((Request.lookup lookup).descriptionWith maxColumns id?') lookup.row := by
  constructor <;> rfl

/-- A lifted scan has no attributes, so there is no id on which it could fail. -/
theorem describe_toScan (lookup : Lookup Selection Filter) (maxColumns : Int) :
    (Request.scan lookup.toScan).describe maxColumns =
      .ok ((Request.scan lookup.toScan).descriptionWith maxColumns none) := by
  have hid : (Request.scan lookup.toScan).criteria.attributes.operationId = .ok none := rfl
  exact (Request.scan lookup.toScan).describe_of_ok hid maxColumns

/-- How a lookup and the scan lifted from it describe themselves for a number of columns. The lookup
fails on a malformed id and on nothing else. The scan has no id to fail on, and it describes itself like
the lookup if this does not fail. -/
structure LiftDescribes (lookup : Lookup Selection Filter)
    (described lifted : Except Failure Description) : Prop where
  malformed : lookup.attributes.MalformedId → ∃ fault, described = .error (.malformedText fault)
  readable : ¬ lookup.attributes.MalformedId → ∃ e, described = .ok e
  scan : ∃ d, lifted = .ok d ∧ d.id? = none ∧ ∀ e, described = .ok e → d.LiftedFrom e lookup.row

theorem liftDescribes (lookup : Lookup Selection Filter) (maxColumns : Int) :
    lookup.LiftDescribes ((Request.lookup lookup).describe maxColumns)
      ((Request.scan lookup.toScan).describe maxColumns) := by
  constructor
  · intro hmalformed
    obtain ⟨fault, hfault⟩ := Attributes.operationId_of_malformed hmalformed
    exact ⟨fault, (Request.lookup lookup).describe_of_error hfault maxColumns⟩
  · intro hreadable
    obtain ⟨id?, hid⟩ := Attributes.operationId_of_readable hreadable
    exact ⟨_, (Request.lookup lookup).describe_of_ok hid maxColumns⟩
  · refine ⟨_, lookup.describe_toScan maxColumns, rfl, ?_⟩
    intro e he
    obtain ⟨id?, -, rfl⟩ := Request.eq_descriptionWith he
    exact lookup.liftedFrom_descriptionWith maxColumns none id?

end Lookup

/-! ## Copies -/

/-- The copy describes itself like the original, but for the columns that are listed and for the total,
which is greater by so many. -/
structure Description.CopyOf (copy original : Description) (more : Nat) : Prop where
  totalColumns : copy.totalColumns = original.totalColumns + more
  names : copy.families.map Prod.fst = original.families.map Prod.fst
  others : { original with families := copy.families, totalColumns := copy.totalColumns } = copy

namespace Scan

/-- The scan with the selection that a copy of it has. -/
def withRebuilt (scan : Scan Selection Filter) : Scan Selection Filter :=
  { scan with families := scan.families.rebuild }

theorem withRebuilt_withRebuilt (scan : Scan Selection Filter) :
    scan.withRebuilt.withRebuilt = scan.withRebuilt := by
  rw [withRebuilt, withRebuilt, Selection.rebuild_rebuild]

theorem copyOf_descriptionWith (scan : Scan Selection Filter) (maxColumns : Int)
    (id? : Option String) :
    ((Request.scan scan.withRebuilt).descriptionWith maxColumns id?).CopyOf
      ((Request.scan scan).descriptionWith maxColumns id?) scan.families.withoutColumns.length := by
  constructor
  · exact scan.families.totalColumns_rebuild
  · show (scan.families.rebuild.listing maxColumns).map Prod.fst =
      (scan.families.listing maxColumns).map Prod.fst
    rw [Selection.map_fst_listing, Selection.map_fst_listing, Selection.families_rebuild]
  · rfl

/-- A copy describes itself with the same entries just if the scan has no family without columns: the
totals differ otherwise. -/
theorem sameEntries_descriptionWith_iff (scan : Scan Selection Filter) (maxColumns : Int)
    (id? : Option String) :
    ((Request.scan scan.withRebuilt).descriptionWith maxColumns id?).SameEntries
        ((Request.scan scan).descriptionWith maxColumns id?) ↔
      ∀ family, scan.families.get? family ≠ some (.only ∅) := by
  constructor
  · intro h
    have htotal : scan.families.rebuild.totalColumns = scan.families.totalColumns :=
      congrArg Description.totalColumns h.others
    rw [Selection.totalColumns_rebuild] at htotal
    apply Selection.withoutColumns_eq_nil_iff.1
    apply List.eq_nil_of_length_eq_zero
    omega
  · intro h
    have hsame : scan.withRebuilt = scan := by
      rw [withRebuilt, Selection.rebuild_eq_self h]
    rw [hsame]
    exact .refl _

/-- How a scan and its copy describe themselves for a number of columns. On a malformed id both fail with
the same fault. Otherwise both succeed, the total of the copy is greater by one for each family without
columns, and the entries are the same just if there is none. -/
structure CopyDescribes (scan : Scan Selection Filter) (original copied : Except Failure Description) :
    Prop where
  malformed : scan.attributes.MalformedId →
    ∃ fault, original = .error (.malformedText fault) ∧ copied = .error (.malformedText fault)
  readable : ¬ scan.attributes.MalformedId → ∃ d e, original = .ok d ∧ copied = .ok e ∧
    e.CopyOf d scan.families.withoutColumns.length ∧
    (e.SameEntries d ↔ ∀ family, scan.families.get? family ≠ some (.only ∅))

theorem copyDescribes (scan : Scan Selection Filter) (maxColumns : Int) :
    scan.CopyDescribes ((Request.scan scan).describe maxColumns)
      ((Request.scan scan.withRebuilt).describe maxColumns) := by
  -- a copy has the attributes of its original, and so its id
  constructor
  · intro hmalformed
    obtain ⟨fault, hfault⟩ := Attributes.operationId_of_malformed hmalformed
    have horiginal := (Request.scan scan).describe_of_error hfault maxColumns
    have hcopy := (Request.scan scan.withRebuilt).describe_of_error hfault maxColumns
    exact ⟨fault, horiginal, hcopy⟩
  · intro hreadable
    obtain ⟨id?, hid⟩ := Attributes.operationId_of_readable hreadable
    have horiginal := (Request.scan scan).describe_of_ok hid maxColumns
    have hcopy := (Request.scan scan.withRebuilt).describe_of_ok hid maxColumns
    exact ⟨_, _, horiginal, hcopy, scan.copyOf_descriptionWith maxColumns id?,
      scan.sameEntries_descriptionWith_iff maxColumns id?⟩

end Scan

end ReadPlan
