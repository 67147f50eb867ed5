/-!
# ReadPlan.WireVersion — versions of the scan message

Each version of the message carries every field of the earlier ones. A request is sent in the
oldest version that can carry the fields it uses.
-/

namespace ReadPlan

inductive WireVersion where
  /-- Row bounds, families, versions and time range. -/
  | base
  /-- Also attributes. -/
  | attributes
  /-- Also a bound on the size of a result. -/
  | resultSize
  /-- Also limit and offset within a row and family. -/
  | pagination
deriving DecidableEq, Repr

namespace WireVersion

/-- The number that stands for the version on the wire. -/
def number : WireVersion → Nat
  | base => 1
  | attributes => 2
  | resultSize => 3
  | pagination => 4

def name : WireVersion → String
  | base => "BASE"
  | attributes => "ATTRIBUTES"
  | resultSize => "RESULT_SIZE"
  | pagination => "PAGINATION"

/-- All versions, oldest first. -/
def all : List WireVersion :=
  [base, attributes, resultSize, pagination]

/-- The newest version. -/
def current : WireVersion := pagination

/-- A version is at most a later one. -/
instance : LE WireVersion := ⟨fun v w => v.number ≤ w.number⟩

instance (v w : WireVersion) : Decidable (v ≤ w) :=
  inferInstanceAs (Decidable (v.number ≤ w.number))

end WireVersion

end ReadPlan
