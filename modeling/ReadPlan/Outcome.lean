import ReadPlan.Bytes.Escaped
import ReadPlan.Failure

/-!
# ReadPlan.Outcome — results with their log

A call ends in a value or a failure, and either way it may have written log records. `Outcome`
keeps both: a sequence of calls stops at the first failure and its log is the records of the
calls that ran, in their order.
-/

namespace ReadPlan

/-! ## Log records -/

inductive Level where
  | debug
  | warning
deriving DecidableEq, Repr

/-- The part of the library that writes a record. -/
inductive Channel where
  | requests
  | timeRanges
deriving DecidableEq, Repr

inductive LogRecord where
  /-- A time range was rejected. -/
  | rejectedRange (min max : Int)
  /-- A batch size was refused because of the filter with this text. -/
  | refusedBatch (batch : Int) (filter : String)
  /-- The lookup of a row was turned into a scan. -/
  | lifted (row : Bytes)
deriving DecidableEq, Repr

namespace LogRecord

def level : LogRecord → Level
  | rejectedRange .. => .warning
  | refusedBatch .. => .warning
  | lifted .. => .debug

def channel : LogRecord → Channel
  | rejectedRange .. => .timeRanges
  | refusedBatch .. => .requests
  | lifted .. => .requests

def message : LogRecord → String
  | rejectedRange min max => s!"Rejecting time range [{min}, {max})"
  | refusedBatch batch filter =>
    s!"Refusing to set batch {batch} on a scan filtered by {filter}"
  | lifted row => s!"Lifted point lookup of row {Escaped.text row} into a scan"

end LogRecord

/-! ## Outcomes -/

/-- A value or a failure, with the records written on the way. -/
structure Outcome (α : Type) where
  result : Except Failure α
  log : List LogRecord := []

namespace Outcome

variable {α β : Type}

/-- A value, and nothing logged. -/
def ok (value : α) : Outcome α where
  result := .ok value

/-- A failure after one record. -/
def refuse (failure : Failure) (record : LogRecord) : Outcome α where
  result := .error failure
  log := [record]

/-- One record and no value of interest. -/
def record (entry : LogRecord) : Outcome Unit where
  result := .ok ()
  log := [entry]

/-- The outcome of a computation that does not log. -/
def ofExcept (result : Except Failure α) : Outcome α where
  result := result

/-- Goes on with the value; the log of the first part comes first. -/
def andThen (first : Outcome α) (next : α → Outcome β) : Outcome β :=
  match first.result with
  | .ok value => ⟨(next value).result, first.log ++ (next value).log⟩
  | .error failure => ⟨.error failure, first.log⟩

instance : Monad Outcome where
  pure := ok
  bind := andThen

@[simp] theorem pure_eq (value : α) : (pure value : Outcome α) = ok value :=
  rfl

@[simp] theorem result_ok (value : α) : (ok value).result = .ok value :=
  rfl

@[simp] theorem log_ok (value : α) : (ok value).log = [] :=
  rfl

@[simp] theorem ofExcept_ok (value : α) : ofExcept (.ok value) = ok value :=
  rfl

@[simp] theorem ofExcept_error (failure : Failure) :
    (ofExcept (.error failure) : Outcome α) = ⟨.error failure, []⟩ :=
  rfl

@[simp] theorem bind_ok (value : α) (next : α → Outcome β) : ok value >>= next = next value := by
  show andThen (ok value) next = next value
  simp [andThen, ok]

@[simp] theorem bind_refuse (failure : Failure) (entry : LogRecord) (next : α → Outcome β) :
    (refuse failure entry >>= next) = refuse failure entry :=
  rfl

@[simp] theorem bind_mk_ok (value : α) (log : List LogRecord) (next : α → Outcome β) :
    (⟨.ok value, log⟩ : Outcome α) >>= next = ⟨(next value).result, log ++ (next value).log⟩ :=
  rfl

@[simp] theorem bind_mk_error (failure : Failure) (log : List LogRecord) (next : α → Outcome β) :
    (⟨.error failure, log⟩ : Outcome α) >>= next = ⟨.error failure, log⟩ :=
  rfl

@[simp] theorem map_ok (f : α → β) (value : α) : f <$> ok value = ok (f value) :=
  rfl

@[simp] theorem map_mk_ok (f : α → β) (value : α) (log : List LogRecord) :
    f <$> (⟨.ok value, log⟩ : Outcome α) = ⟨.ok (f value), log⟩ := by
  show andThen _ _ = _
  simp [andThen, ok]

@[simp] theorem map_mk_error (f : α → β) (failure : Failure) (log : List LogRecord) :
    f <$> (⟨.error failure, log⟩ : Outcome α) = ⟨.error failure, log⟩ :=
  rfl

@[simp] theorem map_refuse (f : α → β) (failure : Failure) (entry : LogRecord) :
    f <$> (refuse failure entry : Outcome α) = refuse failure entry :=
  rfl

theorem bind_map {γ : Type} (f : α → β) (first : Outcome α) (next : β → Outcome γ) :
    (f <$> first) >>= next = first >>= fun value => next (f value) := by
  obtain ⟨result, log⟩ := first
  cases result <;> simp

end Outcome

end ReadPlan
