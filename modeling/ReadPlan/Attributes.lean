import ReadPlan.Failure
import ReadPlan.OrderedMap

/-!
# ReadPlan.Attributes — named byte values carried by a request

A request carries attributes to the server, byte strings under names, in the order in which they
were first set. Some names are reserved: under them a flag, an isolation level or the id of the
operation is stored in a fixed encoding, which is checked only when the value is read.
-/

namespace ReadPlan

/-! ## Flags -/

/-- The attribute value of a flag. -/
def encodeFlag (flag : Bool) : Bytes :=
  if flag then [0xff] else [0x00]

/-- A flag is one byte, and any byte but zero is true. -/
def decodeFlag : Bytes → Except Failure Bool
  | [b] => .ok (b ≠ 0)
  | value => .error (.flagSize value.length)

/-! ## Isolation levels -/

/-- An isolation level is one byte that stands for a level. -/
def Isolation.decode : Bytes → Except Failure Isolation
  | [code] =>
    match ofCode? code with
    | some level => .ok level
    | none => .error (.unknownIsolation code)
  | value => .error (.isolationSize value)

/-! ## Attributes -/

abbrev Attributes := OrderedMap String Bytes

namespace Attributes

/-- The id of the operation, as UTF-8. -/
def idName : String := "_operation.attributes.id"

/-- Whether deleted cells are returned too, a flag. -/
def rawName : String := "_raw_"

/-- The isolation level. -/
def isolationName : String := "_isolationlevel_"

/-- Whether the server collects scan metrics, a flag. -/
def metricsName : String := "scan.attributes.metrics.enable"

/-- Where the server sends collected metrics back. -/
def metricsDataName : String := "scan.attributes.metrics.data"

/-- Sets an attribute, or removes it when there is no value. -/
def set (attributes : Attributes) (name : String) : Option Bytes → Attributes
  | none => attributes.erase name
  | some value => attributes.put name value

/-- The flag under a name; false where there is none. -/
def flag (attributes : Attributes) (name : String) : Except Failure Bool :=
  match attributes.get? name with
  | none => .ok false
  | some value => decodeFlag value

/-- The isolation level; the default is to read committed data only. -/
def isolation (attributes : Attributes) : Except Failure Isolation :=
  match attributes.get? isolationName with
  | none => .ok .readCommitted
  | some value => Isolation.decode value

/-- The value that stands for an id. -/
def encodeId (id : CodePoints) : Except Failure Bytes :=
  match Utf8.encodeStrict id with
  | .ok value => .ok value
  | .error fault => .error (.unencodableText fault)

/-- The id of the operation. -/
def operationId (attributes : Attributes) : Except Failure (Option String) :=
  match attributes.get? idName with
  | none => .ok none
  | some value =>
    match Utf8.decode value with
    | .ok id => .ok (some id)
    | .error fault => .error (.malformedText fault)

end Attributes

end ReadPlan
