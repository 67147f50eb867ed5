import ReadPlan.Bytes

/-!
# ReadPlan.Isolation — visibility of concurrent writes

Whether a scan sees data that is being written while it runs. The level travels in an attribute
of one byte.
-/

namespace ReadPlan

inductive Isolation where
  | readCommitted
  | readUncommitted
deriving DecidableEq, Repr

namespace Isolation

/-- The byte that stands for the level. -/
def code : Isolation → UInt8
  | readCommitted => 1
  | readUncommitted => 2

def name : Isolation → String
  | readCommitted => "READ_COMMITTED"
  | readUncommitted => "READ_UNCOMMITTED"

def all : List Isolation :=
  [readCommitted, readUncommitted]

/-- The level that a byte stands for. -/
def ofCode? (code : UInt8) : Option Isolation :=
  all.find? fun level => level.code = code

/-- The level of a name. -/
def ofName? (name : String) : Option Isolation :=
  all.find? fun level => level.name = name

/-- The attribute value of a level. -/
def encode (level : Isolation) : Bytes :=
  [level.code]

theorem ofCode?_code (level : Isolation) : ofCode? level.code = some level := by
  cases level <;> rfl

theorem code_of_ofCode? {code : UInt8} {level : Isolation} (h : ofCode? code = some level) :
    level.code = code := by
  simpa using List.find?_some h

end Isolation

end ReadPlan
