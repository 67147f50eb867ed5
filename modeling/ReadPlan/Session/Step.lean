import ReadPlan.Request.Query

/-!
# ReadPlan.Session.Step — what one can do in a session

A step makes an object and names it, or calls an object by its name. A call changes the object, or
asks about it. Constructions and calls mention other objects by name only, so a list of calls can
be made on one object as well as on another.
-/

namespace ReadPlan

/-- How an object is made. -/
inductive Construction where
  | scan (startRow : Bytes := []) (stopRow : Bytes := []) (filter? : Option String := none)
  | lookup (row : Bytes) (filter? : Option String := none)
  | filter (filter : Filter)
  | familyMap (selection : Selection)
  /-- A copy of a scan. -/
  | copy (scan : String)
  /-- The scan of the row of a lookup. -/
  | lift (lookup : String)
  /-- The family map of a request, the map itself. -/
  | mapOf (request : String)
  /-- Another map that holds the same sets. -/
  | shareSets (map : String)
  /-- A copy of a map. -/
  | copyMap (map : String)
deriving DecidableEq, Repr

/-- A question about two requests. -/
inductive Comparison where
  | sameMap
  | equalMap
  | sameFilter
  | equalTimeRange
  | equalDescription
deriving DecidableEq, Repr

/-- A call on an object. -/
inductive Call where
  /-- Selects through a request or a family map. -/
  | select (selector : Selector)
  /-- Changes a setting of a request. -/
  | set (setting : Setting)
  /-- Changes a setting of a scan. -/
  | setScan (setting : ScanSetting)
  /-- Gives a request another family map. -/
  | useMap (map : String)
  /-- Gives a request another filter, or none. -/
  | useFilter (filter? : Option String)
  /-- Sets the flag of a filter. -/
  | setWholeRow (flag : Bool)
  /-- Asks a request. -/
  | ask (query : Query)
  /-- Asks a scan. -/
  | askScan (query : ScanQuery)
  /-- Asks about a request and another one. -/
  | compare (other : String) (comparison : Comparison)
deriving DecidableEq, Repr

inductive Step where
  /-- Makes an object under a name. -/
  | make (name : String) (construction : Construction)
  /-- Calls the object under a name. -/
  | call (on : String) (call : Call)
deriving DecidableEq, Repr

end ReadPlan
