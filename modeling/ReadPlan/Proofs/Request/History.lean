import ReadPlan.Proofs.Request.Settings

/-!
# ReadPlan.Proofs.Request.History — the values that a request was given

Limits, sizes and attributes of a request are what it was given last. `Given` is one value that a
call gives to a request, `History` all values in the order of the calls, the latest one first, and
`Request.Records` says that a request holds the latest of each kind, or the default where there is
none. A setting adds at most one value to the history (`Setting.gives`).
-/

namespace ReadPlan

variable {μ φ μ' φ' : Type}

/-! ## Histories -/

/-- A value given to a request. -/
inductive Given where
  | cellLimit (limit : Int)
  | cellOffset (offset : Int)
  | maxResultSize (size : Int)
  /-- An attribute set to a value, or removed. -/
  | write (name : String) (value? : Option Bytes)
deriving DecidableEq, Repr

namespace Given

def limit? : Given → Option Int
  | cellLimit limit => some limit
  | _ => none

def offset? : Given → Option Int
  | cellOffset offset => some offset
  | _ => none

def size? : Given → Option Int
  | maxResultSize size => some size
  | _ => none

/-- What was done under a name: a value was stored, or removed. -/
def written? (name : String) : Given → Option (Option Bytes)
  | write written value? => if written = name then some value? else none
  | _ => none

def isWrite : Given → Bool
  | write .. => true
  | _ => false

end Given

/-- The values given to a request, the latest one first. -/
abbrev History := List Given

namespace History

/-- The last limit. -/
def limit (history : History) : Int :=
  (history.findSome? Given.limit?).getD unset

/-- The last offset. -/
def offset (history : History) : Int :=
  (history.findSome? Given.offset?).getD 0

/-- The last bound on the size of a result. -/
def resultSize (history : History) : Int :=
  (history.findSome? Given.size?).getD unset

/-- The value last stored under a name, if it was not removed since. -/
def attribute? (history : History) (name : String) : Option Bytes :=
  (history.findSome? (Given.written? name)).getD none

/-- The last call on the attribute stored a value. -/
def Live (history : History) (name : String) : Prop :=
  ∃ value, history.attribute? name = some value

/-- The values that are left when a lookup is lifted. -/
def lifted (history : History) : History :=
  history.filter fun given => !given.isWrite

variable {history : History}

theorem attribute?_cons (name : String) (value? : Option Bytes) (other : String) :
    attribute? (.write name value? :: history) other =
      if other = name then value? else history.attribute? other := by
  rw [attribute?, List.findSome?_cons, Given.written?]
  by_cases h : other = name
  · rw [if_pos h, if_pos h.symm]
    rfl
  · rw [if_neg h, if_neg (Ne.symm h)]
    rfl

/-- Values other than attributes are read from the lifted history as from the history. -/
theorem findSome?_lifted {α : Type} {read : Given → Option α}
    (hread : ∀ name value?, read (.write name value?) = none) :
    history.lifted.findSome? read = history.findSome? read := by
  induction history with
  | nil => rfl
  | cons given rest ih =>
    cases given with
    | write name value? =>
      rw [List.findSome?_cons, hread]
      exact ih
    | cellLimit | cellOffset | maxResultSize =>
      show (List.findSome? read (_ :: lifted rest)) = _
      rw [List.findSome?_cons, List.findSome?_cons, ih]

/-- No attribute is left when a lookup is lifted. -/
theorem attribute?_lifted (name : String) : history.lifted.attribute? name = none := by
  have hnone : history.lifted.findSome? (Given.written? name) = none := by
    rw [List.findSome?_eq_none_iff]
    intro given hgiven
    have hkept := (List.mem_filter.1 hgiven).2
    cases given with
    | write => cases hkept
    | _ => rfl
  rw [attribute?, hnone]
  rfl

end History

/-! ## Calls that give a value -/

/-- The value that a setting gives; an id that has no encoding gives none. -/
def Setting.gives : Setting → Option Given
  | .cellLimit limit => some (.cellLimit limit)
  | .cellOffset offset => some (.cellOffset offset)
  | .attribute name value? => some (.write name value?)
  | .operationId id =>
    (Attributes.encodeId id).toOption.map fun value => .write Attributes.idName (some value)
  | _ => none

/-- The value that a setting of scans alone gives. -/
def ScanSetting.gives : ScanSetting → Option Given
  | .maxResultSize size => some (.maxResultSize size)
  | .raw flag => some (.write Attributes.rawName (some (encodeFlag flag)))
  | .metrics flag => some (.write Attributes.metricsName (some (encodeFlag flag)))
  | .isolation level => some (.write Attributes.isolationName (some level.encode))
  | _ => none

theorem Attributes.get?_set (attributes : Attributes) (name : String) (value? : Option Bytes)
    (other : String) :
    (attributes.set name value?).get? other =
      if other = name then value? else attributes.get? other := by
  cases value? with
  | none => exact OrderedMap.get?_erase _ _ _
  | some value => exact OrderedMap.get?_put _ _ _ _

/-! ## Requests and their histories -/

/-- The bound on the size of a result; a lookup has none. -/
def Request.maxResultSize : Request μ φ → Int
  | scan s => s.maxResultSize
  | lookup _ => unset

/-- The criteria hold the latest values. -/
structure Criteria.Records (criteria : Criteria μ φ) (history : History) : Prop where
  limit : criteria.cellLimit = history.limit
  offset : criteria.cellOffset = history.offset
  attributes : ∀ name, criteria.attributes.get? name = history.attribute? name

/-- The request holds the latest values. -/
structure Request.Records (request : Request μ φ) (history : History) : Prop where
  criteria : request.criteria.Records history
  resultSize : request.maxResultSize = history.resultSize

/-- The history with a value in front, if there is one. -/
def History.add (history : History) (given? : Option Given) : History :=
  given?.toList ++ history

variable {history : History}

namespace Criteria

theorem records_setAttribute {criteria : Criteria μ φ} (h : criteria.Records history)
    (name : String) (value? : Option Bytes) :
    (criteria.setAttribute name value?).Records (.write name value? :: history) := by
  refine ⟨h.limit, h.offset, ?_⟩
  intro other
  rw [History.attribute?_cons, ← h.attributes other]
  exact Attributes.get?_set _ _ _ _

end Criteria

namespace Request

/-- A copy holds what the scan holds. -/
theorem Records.map {request : Request μ φ} (h : request.Records history) (f : μ → μ')
    (g : φ → φ') : (request.map f g).Records history := by
  have hcriteria := h.criteria
  cases request <;>
    exact ⟨⟨hcriteria.limit, hcriteria.offset, hcriteria.attributes⟩, h.resultSize⟩

/-- The scan of a lookup holds all that the lookup holds but the attributes. -/
theorem Records.toScan {lookup : Lookup μ φ} (h : (Request.lookup lookup).Records history) :
    (Request.scan lookup.toScan).Records history.lifted := by
  refine ⟨⟨?_, ?_, ?_⟩, ?_⟩
  · rw [History.limit, History.findSome?_lifted fun _ _ => rfl]
    exact h.criteria.limit
  · rw [History.offset, History.findSome?_lifted fun _ _ => rfl]
    exact h.criteria.offset
  · intro name
    rw [History.attribute?_lifted]
    rfl
  · rw [History.resultSize, History.findSome?_lifted fun _ _ => rfl]
    exact h.resultSize

/-- A new request was given nothing. -/
theorem records_nil {request : Request μ φ} (hlimit : request.criteria.cellLimit = unset)
    (hoffset : request.criteria.cellOffset = 0) (hsize : request.maxResultSize = unset)
    (hattributes : request.criteria.attributes = ∅) : request.Records [] := by
  refine ⟨⟨hlimit, hoffset, ?_⟩, hsize⟩
  intro name
  rw [hattributes]
  rfl

end Request

end ReadPlan
