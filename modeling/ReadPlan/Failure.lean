import ReadPlan.Text.Utf8
import ReadPlan.Vocabulary

/-!
# ReadPlan.Failure — why a request is refused

One constructor for each cause, with what the message needs. `Failure.message` is the only place
where the wording stands.
-/

namespace ReadPlan

inductive Failure where
  /-- A time range that ends before it begins. -/
  | invertedRange (min max : Int)
  /-- A batch size for a scan whose filter needs whole rows. -/
  | batchOnWholeRows
  /-- A flag that is not one byte long. -/
  | flagSize (size : Nat)
  /-- An isolation level that is not one byte long. -/
  | isolationSize (encoding : Bytes)
  /-- A byte that stands for no isolation level. -/
  | unknownIsolation (code : UInt8)
  /-- A value that is no member of a vocabulary. -/
  | notAMember (value : Literal) (vocabulary : Vocabulary)
  /-- A text that is not well-formed UTF-8. -/
  | malformedText (fault : Utf8.Malformed)
  /-- A text that has no encoding in UTF-8. -/
  | unencodableText (fault : Utf8.Unencodable)
deriving DecidableEq, Repr

/-- The message for the caller. -/
def Failure.message : Failure → String
  | invertedRange min max => s!"maxStamp is smaller than minStamp: [{min}, {max})"
  | batchOnWholeRows =>
    "Cannot set batch on a scan using a filter that returns true for filter.has_filter_row"
  | flagSize size => s!"Expected a single byte boolean, got {size} bytes"
  | isolationSize encoding =>
    s!"Invalid isolation level encoding: {String.ofList (Quoted.bytes encoding)}"
  | unknownIsolation code => s!"Unknown isolation level: {code.toNat}"
  | notAMember value vocabulary => s!"{value.display} is not a valid {vocabulary.name}"
  | malformedText fault => fault.message
  | unencodableText fault => fault.message

/-- Looks a value up in a vocabulary. -/
def Vocabulary.member (vocabulary : Vocabulary) (value : Literal) : Except Failure String :=
  match vocabulary.member? value with
  | some name => .ok name
  | none => .error (.notAMember value vocabulary)

end ReadPlan
