import ReadPlan.Proofs.Text.CodePoints
import ReadPlan.Request.Basic

/-!
# ReadPlan.Proofs.Request.Settings — what a setting reads and what it leaves alone

A setting never looks at how a request holds its families or its filter: it does the same whatever
they are (`Criteria.apply_map`, `Scan.apply_map`). So it keeps both, and a scan and a lookup with
the same criteria take it alike. Only the settings of the time range touch the window, and they
leave one that does not end before it begins.
-/

namespace ReadPlan

variable {μ φ μ' φ' : Type}

/-- The setting sets or removes an attribute. -/
def Setting.IsAttribute : Setting → Prop
  | .attribute .. | .operationId _ => True
  | _ => False

/-- The window does not end before it begins. -/
def TimeRange.Valid (range : TimeRange) : Prop :=
  range.min ≤ range.max

/-! ## Ids -/

namespace Attributes

@[simp] theorem encodeId_ofString (string : String) :
    encodeId (.ofString string) = .ok (Utf8.encode string) := by
  rw [encodeId, Utf8.encodeStrict_ofString]

/-- An id is a string, which is encoded, or it is refused for the first surrogates in it. -/
theorem encodeId_cases (id : CodePoints) :
    (∃ string, id = .ofString string) ∨
      ∃ fault : Utf8.Unencodable, fault.Locates id ∧
        encodeId id = .error (.unencodableText fault) := by
  rcases Utf8.exists_ofString_or_locates id with hstring | ⟨fault, hfault⟩
  · exact .inl hstring
  · refine .inr ⟨fault, hfault, ?_⟩
    rw [encodeId, hfault.encodeStrict_eq]

end Attributes

/-! ## Criteria -/

namespace Criteria

theorem apply_map (f : μ → μ') (g : φ → φ') (criteria : Criteria μ φ) (setting : Setting) :
    (criteria.map f g).apply setting = Criteria.map f g <$> criteria.apply setting := by
  cases setting with
  | timeRange min max =>
    by_cases hlt : max < min
    · simp [apply, TimeRange.ofBounds_of_lt hlt]
    · simp [apply, TimeRange.ofBounds_of_le (Int.not_lt.1 hlt), map]
  | timeStamp timestamp => simp [apply, TimeRange.single_eq, map]
  | operationId id => cases hid : Attributes.encodeId id <;> simp [apply, hid, map, setAttribute]
  | _ => rfl

/-- A window that is taken replaces the one there was, and does not end before it begins. -/
theorem apply_timeRange_ok {criteria changed : Criteria μ φ} {min max : Int} {log : List LogRecord}
    (h : criteria.apply (.timeRange min max) = ⟨.ok changed, log⟩) :
    min ≤ max ∧ changed = { criteria with timeRange := ⟨min, max⟩ } := by
  by_cases hlt : max < min
  · rw [apply, TimeRange.ofBounds_of_lt hlt] at h
    cases h
  · have hle : min ≤ max := Int.not_lt.1 hlt
    rw [apply, TimeRange.ofBounds_of_le hle] at h
    cases h
    exact ⟨hle, rfl⟩

/-- An id that is taken is written as its attribute. -/
theorem apply_operationId_ok {criteria changed : Criteria μ φ} {id : CodePoints}
    {log : List LogRecord} (h : criteria.apply (.operationId id) = ⟨.ok changed, log⟩) :
    ∃ value, Attributes.encodeId id = .ok value ∧
      changed = criteria.setAttribute Attributes.idName (some value) := by
  rw [apply] at h
  cases hid : Attributes.encodeId id with
  | error failure =>
    rw [hid] at h
    cases h
  | ok value =>
    rw [hid] at h
    cases h
    exact ⟨value, rfl, rfl⟩

/-- A setting that succeeds keeps families and filter, and leaves a window that is valid if it was.
-/
theorem apply_keeps {criteria changed : Criteria μ φ} {setting : Setting} {log : List LogRecord}
    (h : criteria.apply setting = ⟨.ok changed, log⟩) :
    changed.families = criteria.families ∧ changed.filter? = criteria.filter? ∧
      (criteria.timeRange.Valid → changed.timeRange.Valid) := by
  cases setting with
  | timeRange min max =>
    rcases apply_timeRange_ok h with ⟨hle, rfl⟩
    exact ⟨rfl, rfl, fun _ => hle⟩
  | timeStamp timestamp =>
    rw [apply, TimeRange.single_eq] at h
    cases h
    exact ⟨rfl, rfl, fun _ => Int.le_add_one (Int.le_refl timestamp)⟩
  | operationId id =>
    rcases apply_operationId_ok h with ⟨value, -, rfl⟩
    exact ⟨rfl, rfl, fun hvalid => hvalid⟩
  | _ =>
    cases h
    exact ⟨rfl, rfl, id⟩

/-- The same criteria with no attribute. -/
def withoutAttributes (criteria : Criteria μ φ) : Criteria μ φ :=
  { criteria with attributes := ∅ }

/-- Only the settings of attributes look at attributes. -/
theorem apply_withoutAttributes {setting : Setting} (h : ¬ setting.IsAttribute)
    (criteria : Criteria μ φ) :
    criteria.withoutAttributes.apply setting = withoutAttributes <$> criteria.apply setting := by
  cases setting with
  | timeRange min max =>
    by_cases hlt : max < min
    · simp [apply, TimeRange.ofBounds_of_lt hlt]
    · simp [apply, TimeRange.ofBounds_of_le (Int.not_lt.1 hlt), withoutAttributes]
  | timeStamp timestamp => simp [apply, TimeRange.single_eq, withoutAttributes]
  | maxVersions | cellLimit | cellOffset | cacheBlocks => rfl
  | _ => exact absurd trivial h

end Criteria

/-! ## Scans -/

namespace Scan

theorem apply_map (f : μ → μ') (g : φ → φ') (scan : Scan μ φ) (filter? : Option Filter)
    (setting : ScanSetting) :
    (scan.map f g).apply filter? setting = Scan.map f g <$> scan.apply filter? setting := by
  cases setting with
  | batch size =>
    cases filter? with
    | none => rfl
    | some filter =>
      by_cases hrow : filter.needsWholeRow = true
      · simp [apply, setBatch, hrow]
      · simp only [apply, setBatch, hrow]
        rfl
  | _ => rfl

theorem applyShared_map (f : μ → μ') (g : φ → φ') (scan : Scan μ φ) (setting : Setting) :
    (scan.map f g).applyShared setting = Scan.map f g <$> scan.applyShared setting := by
  show ((scan.toCriteria.map f g).apply setting >>= fun criteria =>
    pure ((scan.map f g).withCriteria criteria)) = _
  rw [Criteria.apply_map, applyShared]
  cases scan.toCriteria.apply setting with
  | mk result log => cases result <;> rfl

/-- A batch size that is taken replaces the one there was. -/
theorem setBatch_ok {scan changed : Scan μ φ} {filter? : Option Filter} {size : Int}
    {log : List LogRecord} (h : scan.setBatch filter? size = ⟨.ok changed, log⟩) :
    changed = { scan with batch := size } := by
  cases filter? with
  | none =>
    cases h
    rfl
  | some filter =>
    by_cases hrow : filter.needsWholeRow = true
    · rw [setBatch, if_pos hrow] at h
      cases h
    · rw [setBatch, if_neg hrow] at h
      cases h
      rfl

/-- A setting of scans alone keeps families, filter and window. -/
theorem apply_keeps {scan changed : Scan μ φ} {filter? : Option Filter} {setting : ScanSetting}
    {log : List LogRecord} (h : scan.apply filter? setting = ⟨.ok changed, log⟩) :
    changed.families = scan.families ∧ changed.filter? = scan.filter? ∧
      changed.timeRange = scan.timeRange := by
  cases setting with
  | batch size =>
    rw [setBatch_ok h]
    exact ⟨rfl, rfl, rfl⟩
  | _ =>
    cases h
    exact ⟨rfl, rfl, rfl⟩

/-- A copy differs from the scan in the families it holds and in nothing else. -/
theorem copyWith_eq {scan : Scan μ φ} (hvalid : scan.timeRange.Valid) (families : μ') :
    scan.copyWith families = .ok (scan.map (fun _ => families) id) := by
  rw [copyWith, TimeRange.ofBounds_of_le hvalid]
  simp [map, withCriteria, Criteria.map]

end Scan

/-! ## Requests -/

namespace Request

theorem apply_scan (scan : Scan μ φ) (setting : Setting) :
    (Request.scan scan).apply setting = Request.scan <$> scan.applyShared setting := by
  show (scan.toCriteria.apply setting >>= fun criteria =>
    pure (Request.scan (scan.withCriteria criteria))) = _
  rw [Scan.applyShared]
  cases scan.toCriteria.apply setting with
  | mk result log => cases result <;> simp

theorem apply_lookup (lookup : Lookup μ φ) (setting : Setting) :
    (Request.lookup lookup).apply setting =
      (fun criteria => Request.lookup (lookup.withCriteria criteria)) <$>
        lookup.toCriteria.apply setting :=
  rfl

/-- A setting of no attribute does to the lifted scan what it does to the lookup. -/
theorem apply_toScan {setting : Setting} (h : ¬ setting.IsAttribute) (lookup : Lookup μ φ) :
    (Request.scan lookup.toScan).apply setting =
      (fun criteria => Request.scan (lookup.withCriteria criteria).toScan) <$>
        lookup.toCriteria.apply setting := by
  have hcriteria : lookup.toScan.toCriteria = lookup.toCriteria.withoutAttributes := rfl
  show (fun criteria => Request.scan (lookup.toScan.withCriteria criteria)) <$>
    lookup.toScan.toCriteria.apply setting = _
  rw [hcriteria, Criteria.apply_withoutAttributes h]
  -- the lift forgets attributes again, so it does not matter whether they were forgotten before
  cases lookup.toCriteria.apply setting with
  | mk result log =>
    cases result with
    | error failure => simp
    | ok criteria =>
      simp only [Outcome.map_mk_ok]
      rfl

/-- A setting that succeeds replaces the part that both kinds have. -/
theorem apply_eq_ok {request changed : Request μ φ} {setting : Setting} {log : List LogRecord}
    (h : request.apply setting = ⟨.ok changed, log⟩) :
    ∃ criteria, request.criteria.apply setting = ⟨.ok criteria, log⟩ ∧
      changed = request.withCriteria criteria := by
  rw [apply] at h
  cases happly : request.criteria.apply setting with
  | mk result log' =>
    rw [happly] at h
    cases result with
    | error failure => cases h
    | ok criteria =>
      cases h
      exact ⟨criteria, by simp, rfl⟩

/-- A setting that succeeds keeps families and filter, and leaves a window that is valid if it was.
-/
theorem apply_keeps {request changed : Request μ φ} {setting : Setting} {log : List LogRecord}
    (h : request.apply setting = ⟨.ok changed, log⟩) :
    changed.criteria.families = request.criteria.families ∧
      changed.criteria.filter? = request.criteria.filter? ∧
      (request.criteria.timeRange.Valid → changed.criteria.timeRange.Valid) := by
  rcases apply_eq_ok h with ⟨criteria, happly, rfl⟩
  rw [criteria_withCriteria]
  exact Criteria.apply_keeps happly

end Request

end ReadPlan
