import ReadPlan.Request.Query

/-!
# ReadPlan.Demo — a scan and a lookup from beginning to end

Builds a scan over a range of user rows, shows how it describes itself and which version of the
message it needs before and after a limit is set, then lifts a lookup into a scan. Each line is a
caption with a value.
-/

namespace ReadPlan

/-- A fingerprint on one line: the field in braces, its texts quoted. -/
def Fingerprint.display (fingerprint : Fingerprint) : String :=
  let quoted := fun text => String.ofList (Quoted.text text)
  let value :=
    match fingerprint with
    | everything => quoted allColumns
    | families names => "[" ++ ", ".intercalate (names.map quoted) ++ "]"
  "\x7b'families': " ++ value ++ "\x7d"

namespace Demo

/-- A caption with a value. -/
def line (caption value : String) : String :=
  caption ++ " " ++ value

/-- A truth value with a capital. -/
def truth (value : Bool) : String :=
  if value then "True" else "False"

/-- The families and columns of the scan. -/
def selection : Selection :=
  Selection.selectAll ∅ [
    .wholeFamily (Utf8.encode "info"),
    .column (Utf8.encode "stats") (some (Utf8.encode "logins")),
    .column (Utf8.encode "stats") (some (Utf8.encode "last_seen"))]

/-- The scan before its settings. -/
def scan : Scan Selection Filter where
  families := selection
  startRow := Utf8.encode "user:0001"
  stopRow := Utf8.encode "user:0100"

/-- The scan with its settings. -/
def configured : Outcome (Scan Selection Filter) := do
  let scan ← scan.applyShared (.timeRange 0 1700000000000)
  let scan ← scan.apply none (.isolation .readUncommitted)
  scan.applyShared (.operationId "main-scan")

/-- The lookup. -/
def lookup : Lookup Selection Filter where
  families := Selection.select ∅ (.wholeFamily (Utf8.encode "info"))
  row := Utf8.encode "user:0042"

/-- The lines of the demonstration. -/
def lines : Outcome (List String) := do
  let scan ← configured
  let scanText ← .ofExcept (Request.scan scan).toText
  let paged ← scan.applyShared (.cellLimit 10)
  let lifted ← lookup.lift
  let liftedText ← .ofExcept ((Request.scan lifted).toText 1)
  return [
    line "Scan" scanText,
    line "Fingerprint" (Request.scan scan).fingerprint.display,
    line "Wire version" (toString scan.wireVersion.number),
    line "Wire version with paging" (toString paged.wireVersion.number),
    line "Point lookup" (line (truth lifted.IsPointLookup) liftedText)]

end Demo

end ReadPlan
