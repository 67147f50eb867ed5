import ReadPlan.Pool
import ReadPlan.Request.Query

/-!
# ReadPlan.Session.Basic — named objects over a shared pool

A session holds scans, lookups, family maps and filters under names. Requests refer to their
families and their filter in the pool, so two objects may share them. `Snapshot` is what one can
see of an object: everything by value, with no reference left.
-/

namespace ReadPlan

/-- What a name stands for. -/
inductive Object where
  | request (request : Request MapId FilterId)
  | familyMap (id : MapId)
  | filter (id : FilterId)
deriving DecidableEq, Repr

/-- An object by value. -/
inductive Snapshot where
  | request (request : Request Selection Filter)
  | familyMap (selection : Selection)
  | filter (filter : Filter)
deriving DecidableEq, Repr

/-- The shared things and the named objects that refer to them. -/
structure Session where
  pool : Pool := {}
  objects : OrderedMap String Object := ∅
deriving DecidableEq, Repr

namespace Pool

/-- A request with its families and its filter by value. -/
def resolve (pool : Pool) (request : Request MapId FilterId) : Request Selection Filter :=
  request.map pool.contents pool.filter

/-- An object by value. -/
def snapshot (pool : Pool) : Object → Snapshot
  | .request request => .request (pool.resolve request)
  | .familyMap id => .familyMap (pool.contents id)
  | .filter id => .filter (pool.filter id)

end Pool

namespace Session

/-- The session before the first step. -/
def initial : Session := {}

/-- What one can see under a name. -/
def snapshot? (session : Session) (name : String) : Option Snapshot :=
  (session.objects.get? name).map session.pool.snapshot

/-- What one can see of all objects. -/
def snapshots (session : Session) : OrderedMap String Snapshot :=
  session.objects.mapValues session.pool.snapshot

/-! ## Objects by kind -/

def request? (session : Session) (name : String) : Option (Request MapId FilterId) :=
  match session.objects.get? name with
  | some (.request request) => some request
  | _ => none

def scan? (session : Session) (name : String) : Option (Scan MapId FilterId) :=
  match session.request? name with
  | some (.scan scan) => some scan
  | _ => none

def lookup? (session : Session) (name : String) : Option (Lookup MapId FilterId) :=
  match session.request? name with
  | some (.lookup lookup) => some lookup
  | _ => none

def filter? (session : Session) (name : String) : Option FilterId :=
  match session.objects.get? name with
  | some (.filter id) => some id
  | _ => none

/-- The family map under a name that stands for a map. -/
def map? (session : Session) (name : String) : Option MapId :=
  match session.objects.get? name with
  | some (.familyMap id) => some id
  | _ => none

/-- Names an object, in place of what the name stood for before. -/
def bind (session : Session) (name : String) (object : Object) : Session :=
  { session with objects := session.objects.put name object }

end Session

end ReadPlan
