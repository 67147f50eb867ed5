import ReadPlan.Proofs.Request.History

/-!
# ReadPlan.Proofs.Request.Parts — every setting writes one part of a request

A request is made of parts: one for each scalar, each bound and each reference, and one for each
attribute name (`Part`). A setting ends in a value for one part (`Setting.write`), and nothing of
the request decides on that value but the filter, which may refuse a batch size. So values for
different parts can be put in either order (`Request.take_comm`). What may tell the two orders apart
is the order of the attributes, and nothing else (`Request.SameButOrder`).

A value that is put is also what the setting adds to the history of the request
(`Request.Records.take`).
-/

namespace ReadPlan

variable {μ φ : Type}

/-! ## Parts and their values -/

/-- What a setting can write; each attribute name is a part of its own. -/
inductive Part where
  | families
  | filter
  | timeRange
  | maxVersions
  | cellLimit
  | cellOffset
  | cacheBlocks
  | attribute (name : String)
  | startRow
  | stopRow
  | batch
  | caching
  | maxResultSize
deriving DecidableEq, Repr

/-- A value for a part. -/
inductive Write (μ φ : Type) where
  | families (families : μ)
  | filter (filter? : Option φ)
  | timeRange (range : TimeRange)
  | maxVersions (count : Int)
  | cellLimit (limit : Int)
  | cellOffset (offset : Int)
  | cacheBlocks (flag : Bool)
  /-- An attribute set to a value, or removed. -/
  | entry (name : String) (value? : Option Bytes)
  | startRow (row : Bytes)
  | stopRow (row : Bytes)
  | batch (size : Int)
  | caching (rows : Int)
  | maxResultSize (size : Int)

/-- The part that the value is for. -/
def Write.part : Write μ φ → Part
  | families _ => .families
  | filter _ => .filter
  | timeRange _ => .timeRange
  | maxVersions _ => .maxVersions
  | cellLimit _ => .cellLimit
  | cellOffset _ => .cellOffset
  | cacheBlocks _ => .cacheBlocks
  | entry name _ => .attribute name
  | startRow _ => .startRow
  | stopRow _ => .stopRow
  | batch _ => .batch
  | caching _ => .caching
  | maxResultSize _ => .maxResultSize

/-- The criteria with a value put in its part, if it is one of theirs. -/
def Criteria.put (criteria : Criteria μ φ) : Write μ φ → Criteria μ φ
  | .families families => { criteria with families }
  | .filter filter? => { criteria with filter? }
  | .timeRange timeRange => { criteria with timeRange }
  | .maxVersions maxVersions => { criteria with maxVersions }
  | .cellLimit cellLimit => { criteria with cellLimit }
  | .cellOffset cellOffset => { criteria with cellOffset }
  | .cacheBlocks cacheBlocks => { criteria with cacheBlocks }
  | .entry name value? => criteria.setAttribute name value?
  | _ => criteria

/-- The scan with a value put in its part. -/
def Scan.put (scan : Scan μ φ) : Write μ φ → Scan μ φ
  | .startRow startRow => { scan with startRow }
  | .stopRow stopRow => { scan with stopRow }
  | .batch batch => { scan with batch }
  | .caching caching => { scan with caching }
  | .maxResultSize maxResultSize => { scan with maxResultSize }
  | write => scan.withCriteria (scan.toCriteria.put write)

namespace Request

/-- The request with a value put in its part; a lookup has no part for what only scans have. -/
def put (write : Write μ φ) : Request μ φ → Request μ φ
  | scan s => .scan (s.put write)
  | lookup l => .lookup (l.withCriteria (l.toCriteria.put write))

/-- The request with the value put in its part, or as it is where there was a failure. -/
def take (outcome : Outcome (Write μ φ)) (request : Request μ φ) : Request μ φ :=
  match outcome.result with
  | .ok write => request.put write
  | .error _ => request

end Request

/-! ## Settings -/

/-- The part that a setting writes. -/
def Setting.part : Setting → Part
  | .timeRange .. | .timeStamp _ => .timeRange
  | .maxVersions _ => .maxVersions
  | .cellLimit _ => .cellLimit
  | .cellOffset _ => .cellOffset
  | .cacheBlocks _ => .cacheBlocks
  | .attribute name _ => .attribute name
  | .operationId _ => .attribute Attributes.idName

/-- The part that a setting of scans alone writes. -/
def ScanSetting.part : ScanSetting → Part
  | .startRow _ => .startRow
  | .stopRow _ => .stopRow
  | .batch _ => .batch
  | .caching _ => .caching
  | .maxResultSize _ => .maxResultSize
  | .raw _ => .attribute Attributes.rawName
  | .metrics _ => .attribute Attributes.metricsName
  | .isolation _ => .attribute Attributes.isolationName

/-- The part that a value is for. -/
def Given.part : Given → Part
  | cellLimit _ => .cellLimit
  | cellOffset _ => .cellOffset
  | maxResultSize _ => .maxResultSize
  | write name _ => .attribute name

/-- A setting gives a value for the part that it writes. -/
theorem Setting.part_of_gives {setting : Setting} {given : Given}
    (h : setting.gives = some given) : setting.part = given.part := by
  cases setting with
  | operationId id =>
    rcases Option.map_eq_some_iff.1 h with ⟨value, -, rfl⟩
    rfl
  | _ => cases h <;> rfl

theorem ScanSetting.part_of_gives {setting : ScanSetting} {given : Given}
    (h : setting.gives = some given) : setting.part = given.part := by
  cases setting <;> cases h <;> rfl

/-- The value that a setting ends in. -/
def Setting.write : Setting → Outcome (Write μ φ)
  | .timeRange min max => Write.timeRange <$> TimeRange.ofBounds min max
  | .timeStamp timestamp => Write.timeRange <$> TimeRange.single timestamp
  | .maxVersions count => .ok (.maxVersions count)
  | .cellLimit limit => .ok (.cellLimit limit)
  | .cellOffset offset => .ok (.cellOffset offset)
  | .cacheBlocks flag => .ok (.cacheBlocks flag)
  | .attribute name value? => .ok (.entry name value?)
  | .operationId id =>
    (fun value => .entry Attributes.idName (some value)) <$> .ofExcept (Attributes.encodeId id)

/-- An id that is a string can be encoded. -/
theorem Setting.write_operationId (string : String) :
    (Setting.write (.operationId string) : Outcome (Write μ φ)) =
      .ok (.entry Attributes.idName (some (Utf8.encode string))) := by
  rw [write, Attributes.encodeId_ofString, Outcome.ofExcept_ok, Outcome.map_ok]

/-- The value that a setting of scans alone ends in, for a scan whose filter is the one given. -/
def ScanSetting.write (filter? : Option Filter) : ScanSetting → Outcome (Write μ φ)
  | .startRow row => .ok (.startRow row)
  | .stopRow row => .ok (.stopRow row)
  | .batch size =>
    match filter? with
    | some filter =>
      if filter.needsWholeRow then .refuse .batchOnWholeRows (.refusedBatch size filter.text)
      else .ok (.batch size)
    | none => .ok (.batch size)
  | .caching rows => .ok (.caching rows)
  | .maxResultSize size => .ok (.maxResultSize size)
  | .raw flag => .ok (.entry Attributes.rawName (some (encodeFlag flag)))
  | .metrics flag => .ok (.entry Attributes.metricsName (some (encodeFlag flag)))
  | .isolation level => .ok (.entry Attributes.isolationName (some level.encode))

/-- What is written, if anything, is a value for the part. -/
def Outcome.WritesTo (outcome : Outcome (Write μ φ)) (part : Part) : Prop :=
  ∀ write, outcome.result = .ok write → write.part = part

theorem Outcome.writesTo_ok (write : Write μ φ) : (Outcome.ok write).WritesTo write.part := by
  intro written hwritten
  cases hwritten
  rfl

theorem Setting.writesTo (setting : Setting) :
    (setting.write : Outcome (Write μ φ)).WritesTo setting.part := by
  cases setting with
  | timeRange min max =>
    intro write hwrite
    by_cases hlt : max < min
    · rw [Setting.write, TimeRange.ofBounds_of_lt hlt] at hwrite
      cases hwrite
    · rw [Setting.write, TimeRange.ofBounds_of_le (Int.not_lt.1 hlt)] at hwrite
      cases hwrite
      rfl
  | timeStamp timestamp =>
    rw [Setting.write, TimeRange.single_eq]
    exact Outcome.writesTo_ok _
  | operationId id =>
    rw [Setting.write]
    cases Attributes.encodeId id with
    | ok value => exact Outcome.writesTo_ok (.entry Attributes.idName (some value))
    | error failure =>
      intro write hwrite
      cases hwrite
  | _ => exact Outcome.writesTo_ok _

/-- A batch size is refused just where there is a filter that needs whole rows. -/
theorem ScanSetting.write_batch (filter? : Option Filter) (size : Int) :
    (∃ filter failure log, filter? = some filter ∧ filter.needsWholeRow = true ∧
        (write filter? (.batch size) : Outcome (Write μ φ)) = ⟨.error failure, log⟩) ∨
      (∀ filter, filter? = some filter → filter.needsWholeRow = false) ∧
        (write filter? (.batch size) : Outcome (Write μ φ)) = .ok (.batch size) := by
  cases filter? with
  | none =>
    refine Or.inr ⟨?_, rfl⟩
    intro filter hfilter
    cases hfilter
  | some filter =>
    cases hneeds : filter.needsWholeRow with
    | true => exact Or.inl ⟨filter, _, _, rfl, hneeds, if_pos hneeds⟩
    | false =>
      refine Or.inr ⟨?_, ?_⟩
      · intro found hfound
        cases hfound
        exact hneeds
      · rw [write, hneeds]
        rfl

theorem ScanSetting.writesTo (filter? : Option Filter) (setting : ScanSetting) :
    (setting.write filter? : Outcome (Write μ φ)).WritesTo setting.part := by
  cases setting with
  | batch size =>
    rcases ScanSetting.write_batch (μ := μ) (φ := φ) filter? size with
      ⟨-, failure, log, -, -, hrefused⟩ | ⟨-, haccepted⟩
    · rw [hrefused]
      intro write hwrite
      cases hwrite
    · rw [haccepted]
      exact Outcome.writesTo_ok _
  | _ => exact Outcome.writesTo_ok _

/-- A setting puts the value that it ends in. -/
theorem Request.apply_eq (request : Request μ φ) (setting : Setting) :
    request.apply setting = (fun write => request.put write) <$> setting.write := by
  cases setting with
  | timeRange min max =>
    by_cases hlt : max < min
    · cases request <;>
        simp [apply, Criteria.apply, Setting.write, TimeRange.ofBounds_of_lt hlt]
    · cases request <;>
        simp [apply, Criteria.apply, Setting.write, TimeRange.ofBounds_of_le (Int.not_lt.1 hlt)] <;>
        rfl
  | timeStamp timestamp =>
    cases request <;> simp [apply, Criteria.apply, Setting.write, TimeRange.single_eq] <;> rfl
  | operationId id =>
    rw [apply, Criteria.apply, Setting.write]
    cases Attributes.encodeId id with
    | ok value => cases request <;> rfl
    | error failure => rfl
  | _ => cases request <;> rfl

/-- A setting of scans alone puts the value that it ends in. -/
theorem Scan.apply_eq (scan : Scan μ φ) (filter? : Option Filter) (setting : ScanSetting) :
    scan.apply filter? setting = (fun write => scan.put write) <$> setting.write filter? := by
  cases setting with
  | batch size =>
    cases filter? with
    | none => rfl
    | some filter =>
      by_cases hrow : filter.needsWholeRow = true
      · simp [apply, setBatch, ScanSetting.write, hrow]
      · simp [apply, setBatch, ScanSetting.write, hrow, put]
  | _ => rfl

/-- Only a batch size depends on the filter. -/
theorem ScanSetting.write_congr {setting : ScanSetting} (h : setting.part ≠ .batch)
    (first? second? : Option Filter) :
    (setting.write first? : Outcome (Write μ φ)) = setting.write second? := by
  cases setting with
  | batch => exact absurd rfl h
  | _ => rfl

/-- The filter of a scan; none for a lookup. -/
def Request.scanFilter? : Request μ φ → Option (Option φ)
  | scan s => some s.filter?
  | lookup _ => none

/-! ## What is given to a request -/

/-- What a value adds to the history of a request. -/
def Write.gives : Write μ φ → Option Given
  | cellLimit limit => some (.cellLimit limit)
  | cellOffset offset => some (.cellOffset offset)
  | maxResultSize size => some (.maxResultSize size)
  | entry name value? => some (.write name value?)
  | _ => none

/-- What is written adds the given value, if any, to the history. What can be refused adds none. -/
inductive Outcome.Gives : Outcome (Write μ φ) → Option Given → Prop where
  | ok (write : Write μ φ) : Gives (.ok write) write.gives
  | error (failure : Failure) (log : List LogRecord) : Gives ⟨.error failure, log⟩ none

theorem Setting.write_gives (setting : Setting) :
    (setting.write : Outcome (Write μ φ)).Gives setting.gives := by
  cases setting with
  | timeRange min max =>
    by_cases hlt : max < min
    · rw [write, TimeRange.ofBounds_of_lt hlt]
      exact .error _ _
    · rw [write, TimeRange.ofBounds_of_le (Int.not_lt.1 hlt)]
      exact .ok (.timeRange _)
  | timeStamp timestamp =>
    rw [write, TimeRange.single_eq]
    exact .ok (.timeRange _)
  | operationId id =>
    rw [write, gives]
    cases Attributes.encodeId id with
    | ok value => exact .ok (.entry Attributes.idName (some value))
    | error failure => exact .error failure []
  | _ => exact .ok _

theorem ScanSetting.write_gives (filter? : Option Filter) (setting : ScanSetting) :
    (setting.write filter? : Outcome (Write μ φ)).Gives setting.gives := by
  cases setting with
  | batch size =>
    rcases ScanSetting.write_batch (μ := μ) (φ := φ) filter? size with
      ⟨-, failure, log, -, -, hrefused⟩ | ⟨-, haccepted⟩
    · rw [hrefused]
      exact .error failure log
    · rw [haccepted]
      exact .ok (.batch size)
  | _ => exact .ok _

/-- A request that takes what is given records it. Only a scan can be given a bound on the size of a
result. -/
theorem Request.Records.take {request : Request μ φ} {history : History} (h : request.Records history)
    {outcome : Outcome (Write μ φ)} {given? : Option Given} (hgives : outcome.Gives given?)
    (hsize : ∀ size, given? = some (.maxResultSize size) → ∃ scan, request = .scan scan) :
    (request.take outcome).Records (history.add given?) := by
  cases hgives with
  | error => exact h
  | ok write =>
    have hcriteria := h.criteria
    cases write with
    | maxResultSize size =>
      rcases hsize size rfl with ⟨scan, rfl⟩
      exact ⟨⟨hcriteria.limit, hcriteria.offset, hcriteria.attributes⟩, rfl⟩
    | entry name value? =>
      have hentry := Criteria.records_setAttribute hcriteria name value?
      cases request <;> exact ⟨hentry, h.resultSize⟩
    | cellLimit limit =>
      cases request <;> exact ⟨⟨rfl, hcriteria.offset, hcriteria.attributes⟩, h.resultSize⟩
    | cellOffset offset =>
      cases request <;> exact ⟨⟨hcriteria.limit, rfl, hcriteria.attributes⟩, h.resultSize⟩
    | _ =>
      cases request <;>
        exact ⟨⟨hcriteria.limit, hcriteria.offset, hcriteria.attributes⟩, h.resultSize⟩

/-! ## Requests up to the order of families and attributes -/

namespace Request

/-- The requests differ at most in the order of their attributes and in how they hold families that
count as the same. -/
def SameButOrder (same : μ → μ → Prop) (first second : Request μ φ) : Prop :=
  ∃ families attributes,
    second = first.withCriteria { first.criteria with families, attributes } ∧
      same first.criteria.families families ∧
      ∀ name, first.criteria.attributes.get? name = OrderedMap.get? attributes name

variable {same : μ → μ → Prop} {first second third : Request μ φ}

namespace SameButOrder

theorem refl (request : Request μ φ) : request.SameButOrder Eq request :=
  ⟨_, _, (request.withCriteria_criteria).symm, rfl, fun _ => rfl⟩

theorem of_eq (h : first = second) : first.SameButOrder Eq second :=
  h ▸ refl first

theorem symm (h : first.SameButOrder Eq second) : second.SameButOrder Eq first := by
  rcases h with ⟨_, attributes, rfl, rfl, hattributes⟩
  refine ⟨_, first.criteria.attributes, ?_, rfl, ?_⟩
  · cases first <;> rfl
  · intro name
    rw [criteria_withCriteria]
    exact (hattributes name).symm

theorem trans (h : first.SameButOrder Eq second) (h' : second.SameButOrder Eq third) :
    first.SameButOrder Eq third := by
  rcases h with ⟨_, attributes, rfl, rfl, hattributes⟩
  rcases h' with ⟨_, later, rfl, rfl, hlater⟩
  rw [criteria_withCriteria] at hlater
  refine ⟨_, later, ?_, rfl, ?_⟩
  · cases first <;> rfl
  · intro name
    rw [hattributes, hlater]

/-- Requests hold the same families by reference. -/
theorem families_eq (h : first.SameButOrder Eq second) :
    second.criteria.families = first.criteria.families := by
  rcases h with ⟨_, attributes, rfl, rfl, -⟩
  rw [criteria_withCriteria]

theorem scanFilter?_eq (h : first.SameButOrder Eq second) :
    second.scanFilter? = first.scanFilter? := by
  rcases h with ⟨_, attributes, rfl, rfl, -⟩
  cases first <;> rfl

/-- Putting a value looks at no attribute but the one that it replaces. -/
theorem put (h : first.SameButOrder Eq second) (write : Write μ φ) :
    (first.put write).SameButOrder Eq (second.put write) := by
  rcases h with ⟨_, attributes, rfl, rfl, hattributes⟩
  cases write with
  | entry name value? =>
    refine ⟨_, Attributes.set attributes name value?, ?_, rfl, ?_⟩
    · cases first <;> rfl
    · intro other
      have hset := Attributes.get?_set first.criteria.attributes name value? other
      rw [hattributes] at hset
      rw [Attributes.get?_set, ← hset]
      cases first <;> rfl
  | _ =>
    refine ⟨_, attributes, ?_, rfl, ?_⟩
    · cases first <;> rfl
    · cases first <;> exact hattributes

theorem take (h : first.SameButOrder Eq second) (outcome : Outcome (Write μ φ)) :
    (first.take outcome).SameButOrder Eq (second.take outcome) := by
  unfold Request.take
  split
  · exact h.put _
  · exact h

end SameButOrder

/-- Values for different parts can be put in either order. -/
theorem put_comm (request : Request μ φ) {v w : Write μ φ} (h : v.part ≠ w.part) :
    ((request.put v).put w).SameButOrder Eq ((request.put w).put v) := by
  -- two attributes may come to stand in another order, any other two values go to different fields
  cases v with
  | entry name value? =>
    cases w with
    | entry other otherValue? =>
      have hne : other ≠ name := fun heq => h (congrArg Part.attribute heq.symm)
      refine ⟨_, (request.criteria.attributes.set other otherValue?).set name value?, ?_, rfl, ?_⟩
      · cases request <;> rfl
      · intro key
        have hfirst : ((request.put (.entry name value?)).put
            (.entry other otherValue?)).criteria.attributes =
            (request.criteria.attributes.set name value?).set other otherValue? := by
          cases request <;> rfl
        rw [hfirst]
        simp only [Attributes.get?_set]
        by_cases hkey : key = other
        · rw [if_pos hkey, if_neg (hkey ▸ hne), if_pos hkey]
        · rw [if_neg hkey, if_neg hkey]
    | _ => exact .of_eq (by cases request <;> rfl)
  | _ =>
    cases w <;> first
      | exact absurd rfl h
      | exact .of_eq (by cases request <;> rfl)

/-- Outcomes for different parts can be taken in either order. -/
theorem take_comm (request : Request μ φ) {first second : Outcome (Write μ φ)} {p q : Part}
    (hfirst : first.WritesTo p) (hsecond : second.WritesTo q) (h : p ≠ q) :
    ((request.take first).take second).SameButOrder Eq ((request.take second).take first) := by
  rcases first with ⟨result, log⟩
  rcases second with ⟨result', log'⟩
  cases result with
  | error => exact .refl _
  | ok v =>
    cases result' with
    | error => exact .refl _
    | ok w =>
      apply put_comm
      rw [hfirst v rfl, hsecond w rfl]
      exact h

/-- What is read of a request is left by an outcome that writes to a part that leaves it. -/
theorem read_take {α : Type} (read : Request μ φ → α) (request : Request μ φ)
    {outcome : Outcome (Write μ φ)} {part : Part} (hwrites : outcome.WritesTo part)
    (hput : ∀ write : Write μ φ, write.part = part → read (request.put write) = read request) :
    read (request.take outcome) = read request := by
  rcases outcome with ⟨result, log⟩
  cases result with
  | error => rfl
  | ok write => exact hput write (hwrites write rfl)

/-- A value for another part leaves the families. -/
theorem families_take (request : Request μ φ) {outcome : Outcome (Write μ φ)} {part : Part}
    (hwrites : outcome.WritesTo part) (hpart : part ≠ .families) :
    (request.take outcome).criteria.families = request.criteria.families := by
  refine read_take (fun request => request.criteria.families) request hwrites ?_
  intro write hwrite
  cases write with
  | families => exact absurd hwrite.symm hpart
  | _ => cases request <;> rfl

/-- A value for another part leaves the filter. -/
theorem scanFilter?_take (request : Request μ φ) {outcome : Outcome (Write μ φ)} {part : Part}
    (hwrites : outcome.WritesTo part) (hpart : part ≠ .filter) :
    (request.take outcome).scanFilter? = request.scanFilter? := by
  refine read_take scanFilter? request hwrites ?_
  intro write hwrite
  cases write with
  | filter => exact absurd hwrite.symm hpart
  | _ => cases request <;> rfl

/-- A scan stays a scan and a lookup a lookup. -/
theorem isSome_scanFilter?_take (request : Request μ φ) (outcome : Outcome (Write μ φ)) :
    (request.take outcome).scanFilter?.isSome = request.scanFilter?.isSome := by
  unfold take
  split
  · cases request <;> rfl
  · rfl

end Request

end ReadPlan
