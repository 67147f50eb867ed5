import ReadPlan.Proofs.Request.Settings
import ReadPlan.Proofs.Text.Utf8
import ReadPlan.Request.Query

/-!
# ReadPlan.Proofs.Request.Failures — when settings and questions fail

Settings are refused for a window that ends before it begins, for an id with a surrogate in it
(`Setting.Refused`) and for a batch size that a filter rules out, and only then
(`Criteria.apply_cases`, `Scan.apply_cases`). Questions fail only on an attribute that was stored
under a reserved name and cannot be read (`Request.answer_failsWith`, `Scan.answer_failsWith`,
`Request.sameDescription_failsWith`). Failures are told apart by their kind, as a caller that catches
them does.
-/

namespace ReadPlan

/-- The kinds of failures that a caller tells apart. -/
inductive Failure.Kind where
  /-- A window that ends before it begins. -/
  | invalidRange
  /-- A setting that the filter rules out. -/
  | incompatibleFilter
  /-- A value that stands for nothing. -/
  | badValue
  /-- A text that is not well-formed. -/
  | badText
  /-- A text that has no encoding. -/
  | unencodable
deriving DecidableEq, Repr

def Failure.kind : Failure → Kind
  | invertedRange .. => .invalidRange
  | batchOnWholeRows => .incompatibleFilter
  | flagSize _ | isolationSize _ | unknownIsolation _ | notAMember .. => .badValue
  | malformedText _ => .badText
  | unencodableText _ => .unencodable

/-- The result is a failure of the kind. -/
def FailsWith {α : Type} (result : Except Failure α) (kind : Failure.Kind) : Prop :=
  ∃ failure, result = .error failure ∧ failure.kind = kind

section FailsWith

variable {α β : Type} {kind : Failure.Kind}

@[simp] theorem failsWith_ok (value : α) : ¬ FailsWith (.ok value) kind := by
  rintro ⟨failure, h, -⟩
  cases h

@[simp] theorem failsWith_error {failure : Failure} :
    FailsWith (.error failure : Except Failure α) kind ↔ kind = failure.kind := by
  constructor
  · rintro ⟨found, h, hkind⟩
    cases h
    exact hkind.symm
  · intro hkind
    exact ⟨failure, rfl, hkind.symm⟩

/-- What is made of a value cannot fail. -/
@[simp] theorem failsWith_map {f : α → β} {result : Except Failure α} :
    FailsWith (f <$> result) kind ↔ FailsWith result kind := by
  cases result with
  | ok value => exact iff_of_false (failsWith_ok _) (failsWith_ok _)
  | error failure => exact failsWith_error.trans failsWith_error.symm

/-- Of two parts the first one fails, or it succeeds and the second one fails. -/
theorem failsWith_bind {first : Except Failure α} {next : α → Except Failure β} :
    FailsWith (first >>= next) kind ↔
      FailsWith first kind ∨ ∃ value, first = .ok value ∧ FailsWith (next value) kind := by
  cases first with
  | ok value =>
    constructor
    · intro h
      exact .inr ⟨value, rfl, h⟩
    · rintro (h | ⟨found, hfound, h⟩)
      · exact absurd h (failsWith_ok _)
      · cases hfound
        exact h
  | error failure =>
    constructor
    · intro h
      exact .inl (failsWith_error.2 (failsWith_error.1 h))
    · rintro (h | ⟨found, hfound, -⟩)
      · exact failsWith_error.2 (failsWith_error.1 h)
      · cases hfound

end FailsWith

/-! ## Settings -/

section Settings

variable {μ φ : Type}

/-- The setting cannot be taken and ends in the failure, with the log. -/
inductive Setting.Refused : Setting → Failure → List LogRecord → Prop where
  | timeRange {min max : Int} (hlt : max < min) :
    Refused (.timeRange min max) (.invertedRange min max) [.rejectedRange min max]
  | operationId {id : CodePoints} {fault : Utf8.Unencodable} (hfault : fault.Locates id) :
    Refused (.operationId id) (.unencodableText fault) []

/-- A setting is refused, or it succeeds and logs nothing. -/
theorem Criteria.apply_cases (criteria : Criteria μ φ) (setting : Setting) :
    (∃ failure log, setting.Refused failure log ∧
      criteria.apply setting = ⟨.error failure, log⟩) ∨
    (∀ failure log, ¬ setting.Refused failure log) ∧
      ∃ changed, criteria.apply setting = .ok changed := by
  cases setting with
  | timeRange min max =>
    by_cases hlt : max < min
    · refine .inl ⟨_, _, .timeRange hlt, ?_⟩
      rw [apply, TimeRange.ofBounds_of_lt hlt]
      rfl
    · refine .inr ⟨?_, { criteria with timeRange := ⟨min, max⟩ }, ?_⟩
      · rintro _ _ ⟨h⟩
        exact hlt h
      · simp [apply, TimeRange.ofBounds_of_le (Int.not_lt.1 hlt)]
  | timeStamp timestamp =>
    refine .inr ⟨?_, { criteria with timeRange := ⟨timestamp, timestamp + 1⟩ }, ?_⟩
    · rintro _ _ ⟨⟩
    · simp [apply, TimeRange.single_eq]
  | operationId id =>
    rcases Attributes.encodeId_cases id with ⟨string, rfl⟩ | ⟨fault, hfault, hencode⟩
    · refine .inr ⟨?_, criteria.setAttribute Attributes.idName (some (Utf8.encode string)), ?_⟩
      · rintro _ _ (_ | hfault)
        exact CodePoints.not_hasSurrogate_ofString string hfault.hasSurrogate
      · rw [apply, Attributes.encodeId_ofString, Outcome.ofExcept_ok, Outcome.bind_ok,
          Outcome.pure_eq]
    · refine .inl ⟨_, _, .operationId hfault, ?_⟩
      rw [apply, hencode]
      rfl
  | _ =>
    refine .inr ⟨?_, _, rfl⟩
    rintro _ _ ⟨⟩

theorem Request.apply_cases (request : Request μ φ) (setting : Setting) :
    (∃ failure log, setting.Refused failure log ∧
      request.apply setting = ⟨.error failure, log⟩) ∨
    (∀ failure log, ¬ setting.Refused failure log) ∧
      ∃ changed, request.apply setting = .ok changed := by
  rcases request.criteria.apply_cases setting with
    ⟨failure, log, hrefused, happly⟩ | ⟨hsetting, criteria, happly⟩
  · exact .inl ⟨failure, log, hrefused, by rw [apply, happly, Outcome.bind_mk_error]⟩
  · refine .inr ⟨hsetting, request.withCriteria criteria, ?_⟩
    rw [apply, happly, Outcome.bind_ok, Outcome.pure_eq]

/-- A setting of scans alone succeeds and logs nothing, or it is a batch size for a scan whose
filter needs whole rows. -/
theorem Scan.apply_cases (scan : Scan μ φ) (filter? : Option Filter) (setting : ScanSetting) :
    (∃ size filter, setting = .batch size ∧ filter? = some filter ∧
      filter.needsWholeRow = true ∧
      scan.apply filter? setting = .refuse .batchOnWholeRows (.refusedBatch size filter.text)) ∨
    (∀ size filter, setting = .batch size → filter? = some filter →
      filter.needsWholeRow = false) ∧
      ∃ changed, scan.apply filter? setting = .ok changed := by
  cases setting with
  | batch size =>
    cases filter? with
    | none =>
      refine .inr ⟨?_, _, rfl⟩
      intro _ _ _ h
      cases h
    | some filter =>
      by_cases hrow : filter.needsWholeRow = true
      · refine .inl ⟨size, filter, rfl, rfl, hrow, ?_⟩
        rw [apply, setBatch, if_pos hrow]
      · refine .inr ⟨?_, { scan with batch := size }, ?_⟩
        · intro _ _ _ h
          cases h
          exact Bool.not_eq_true _ ▸ hrow
        · rw [apply, setBatch, if_neg hrow]
  | _ =>
    refine .inr ⟨?_, _, rfl⟩
    intro _ _ h
    cases h

end Settings

/-! ## Attributes -/

namespace Attributes

/-- Under the name stands a value that is no flag. -/
def MalformedFlag (attributes : Attributes) (name : String) : Prop :=
  ∃ value, attributes.get? name = some value ∧ value.length ≠ 1

/-- The isolation level is given by a value that is the encoding of none. -/
def MalformedIsolation (attributes : Attributes) : Prop :=
  ∃ value, attributes.get? isolationName = some value ∧ ∀ level : Isolation, level.encode ≠ value

/-- The id of the operation is given by a value that is not well-formed UTF-8. -/
def MalformedId (attributes : Attributes) : Prop :=
  ∃ value, attributes.get? idName = some value ∧ ¬ Utf8.WellFormed value

variable {attributes : Attributes} {kind : Failure.Kind}

theorem decodeFlag_failsWith {value : Bytes} :
    FailsWith (decodeFlag value) kind ↔ kind = .badValue ∧ value.length ≠ 1 := by
  match value with
  | [b] => simp [decodeFlag]
  | [] | _ :: _ :: _ => simp [decodeFlag, Failure.kind]

theorem flag_failsWith {name : String} :
    FailsWith (attributes.flag name) kind ↔ kind = .badValue ∧ attributes.MalformedFlag name := by
  unfold flag MalformedFlag
  cases attributes.get? name with
  | none => simp
  | some value => simp [decodeFlag_failsWith]

/-- A byte string is read as the level that it encodes, and refused if there is none. -/
theorem isolation_decode_failsWith {value : Bytes} :
    FailsWith (Isolation.decode value) kind ↔
      kind = .badValue ∧ ∀ level : Isolation, level.encode ≠ value := by
  match value with
  | [code] =>
    rw [Isolation.decode]
    cases hcode : Isolation.ofCode? code with
    | some level =>
      have hencode : level.encode = [code] := by
        rw [Isolation.encode, Isolation.code_of_ofCode? hcode]
      refine iff_of_false (failsWith_ok _) ?_
      rintro ⟨-, hnone⟩
      exact hnone level hencode
    | none =>
      have hnone : ∀ level : Isolation, level.encode ≠ [code] := by
        intro level hencode
        obtain rfl : level.code = code := List.head_eq_of_cons_eq hencode
        rw [Isolation.ofCode?_code] at hcode
        cases hcode
      simp [Failure.kind, hnone]
  | [] | _ :: _ :: _ => simp [Isolation.decode, Failure.kind, Isolation.encode]

theorem isolation_failsWith :
    FailsWith attributes.isolation kind ↔ kind = .badValue ∧ attributes.MalformedIsolation := by
  unfold isolation MalformedIsolation
  cases attributes.get? isolationName with
  | none => simp
  | some value => simp [isolation_decode_failsWith]

theorem operationId_failsWith :
    FailsWith attributes.operationId kind ↔ kind = .badText ∧ attributes.MalformedId := by
  unfold operationId MalformedId
  cases attributes.get? idName with
  | none => simp
  | some value =>
    simp only [Option.some.injEq, exists_eq_left', ← Utf8.exists_decode_eq_error_iff]
    cases Utf8.decode value with
    | ok id => simp
    | error fault => simp [Failure.kind]

end Attributes

/-! ## Questions -/

/-- The question reads the id of the operation. -/
def Query.ReadsId : Query → Prop
  | .operationId | .describe _ | .text _ => True
  | _ => False

/-- The question reads a malformed attribute of a scan. -/
inductive ScanQuery.ReadsMalformed (attributes : Attributes) : ScanQuery → Prop where
  | raw (h : attributes.MalformedFlag Attributes.rawName) : ReadsMalformed attributes .raw
  | metrics (h : attributes.MalformedFlag Attributes.metricsName) :
    ReadsMalformed attributes .metrics
  | isolation (h : attributes.MalformedIsolation) : ReadsMalformed attributes .isolation

variable {kind : Failure.Kind}

namespace Request

variable {request first second : Request Selection Filter}

/-- Describing fails only on the id. -/
theorem describe_failsWith (maxColumns : Int) :
    FailsWith (request.describe maxColumns) kind ↔
      kind = .badText ∧ request.criteria.attributes.MalformedId := by
  rw [← Attributes.operationId_failsWith]
  exact failsWith_map

theorem answer_failsWith {query : Query} :
    FailsWith (request.answer query) kind ↔
      query.ReadsId ∧ kind = .badText ∧ request.criteria.attributes.MalformedId := by
  cases query with
  | operationId =>
    rw [← Attributes.operationId_failsWith]
    exact failsWith_map.trans (iff_of_eq (true_and _).symm)
  | describe maxColumns =>
    rw [← describe_failsWith maxColumns]
    exact failsWith_map.trans (iff_of_eq (true_and _).symm)
  | text maxColumns =>
    rw [← describe_failsWith maxColumns]
    exact (failsWith_map.trans failsWith_map).trans (iff_of_eq (true_and _).symm)
  | _ => exact iff_of_false (failsWith_ok _) fun h => h.1

/-- Either request may be the one that cannot be described. -/
theorem sameDescription_failsWith :
    FailsWith (first.sameDescription second) kind ↔
      kind = .badText ∧
        (first.criteria.attributes.MalformedId ∨ second.criteria.attributes.MalformedId) := by
  have hsecond : ∀ d : Description,
      FailsWith (do let e ← second.describe; return decide (d = e)) kind ↔
        kind = .badText ∧ second.criteria.attributes.MalformedId :=
    fun d => failsWith_map.trans (describe_failsWith _)
  rw [sameDescription, failsWith_bind, describe_failsWith]
  simp only [hsecond]
  cases hfirst : first.describe with
  | ok d => simp [and_or_left]
  | error failure =>
    -- then the first id is malformed, and the second one does not matter
    have hbad : first.criteria.attributes.MalformedId :=
      ((describe_failsWith _).1 ⟨failure, hfirst, rfl⟩).2
    simp [hbad]

end Request

theorem Scan.answer_failsWith {scan : Scan Selection Filter} {query : ScanQuery} :
    FailsWith (scan.answer query) kind ↔
      kind = .badValue ∧ query.ReadsMalformed scan.attributes := by
  cases query with
  | raw | metrics =>
    refine (failsWith_map.trans Attributes.flag_failsWith).trans (and_congr_right' ?_)
    constructor
    · intro h
      constructor
      exact h
    · intro h
      cases h
      assumption
  | isolation =>
    refine (failsWith_map.trans Attributes.isolation_failsWith).trans (and_congr_right' ?_)
    exact ⟨.isolation, fun h => by cases h; assumption⟩
  | _ =>
    refine iff_of_false (failsWith_ok _) ?_
    rintro ⟨-, ⟨⟩⟩

end ReadPlan
