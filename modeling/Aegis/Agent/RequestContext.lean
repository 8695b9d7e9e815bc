import Aegis.Agent.Platform
import Aegis.Agent.Taint.Value

/-!
# Request state

The taint table and the context of one request: `TaintTracker` and `RequestContext` of the Java
agent. The table maps objects, compared by identity, to their taint. A context holds the table
and the HTTP facts that a finding reports.
-/

namespace Aegis.Agent

/-! ## Objects -/

/-- A string object: its identity and its characters. -/
structure StringRef where
  id : Nat
  value : JString
  deriving DecidableEq

/-- An object the application hands to a hook: a string, or something else with what its `toString`
yields. There is no text where `toString` raises or returns null. -/
inductive Obj where
  | string (ref : StringRef)
  | other (id : Nat) (text : Option JString)
  deriving DecidableEq

/-- The identity of an object. -/
def Obj.id : Obj → Nat
  | .string ref => ref.id
  | .other id _ => id

/-- `String.valueOf`, where `none` for the result is an exception. -/
def valueOf : Option Obj → Option JString
  | none => some (java "null")
  | some (.string ref) => some ref.value
  | some (.other _ text) => text

/-! ## The taint table -/

/-- The side table that maps objects to their taint. -/
structure TaintTracker where
  table : List (Nat × TaintedValue)
  capacity : Nat
  overflowed : Bool
  deriving DecidableEq

namespace TaintTracker

/-- Per-request ceiling of tracked values. -/
def MAX_TRACKED_VALUES : Nat := 10000

/-- A new table. -/
def create (capacity : Nat) : TaintTracker :=
  ⟨[], capacity, false⟩

/-- The entry of an object, if it has one. -/
def entry (t : TaintTracker) (value : Nat) : Option TaintedValue :=
  t.table.lookup value

/-- `table.remove`. -/
def remove (t : TaintTracker) (value : Nat) : TaintTracker :=
  { t with table := t.table.filter fun e ↦ e.1 != value }

/-- `table.put`. -/
def put (t : TaintTracker) (value : Nat) (taint : TaintedValue) : TaintTracker :=
  { t with table := (value, taint) :: t.table.filter fun e ↦ e.1 != value }

/-- Record taint for an object. Untainted values are not stored, and a full table takes no new
object. -/
def track (t : TaintTracker) (value : Option Nat) (taint : Option TaintedValue) : TaintTracker :=
  match value, taint with
  | none, _ => t
  | some value, none => t.remove value
  | some value, some taint =>
      if !taint.isTainted then t.remove value
      else if t.table.length ≥ t.capacity && (t.entry value).isNone then
        { t with overflowed := true }
      else t.put value taint

/-- The taint of an object. An untracked one is simply untainted. -/
def taintOf (t : TaintTracker) (value : Option Nat) : TaintedValue :=
  match value with
  | none => .empty
  | some value => (t.entry value).getD .empty

/-- Mark a source's return value tainted end to end. -/
def trackSource (t : TaintTracker) (value : Option StringRef) (kind : SourceKind)
    (name : Option JString) : TaintTracker :=
  match value with
  | none => t
  | some ref =>
      if ref.value.isEmpty then t
      else t.track (some ref.id) (some (.fullyTainted ref.value.length kind name))

/-- Nothing in this request is tainted yet. -/
def isEmpty (t : TaintTracker) : Bool :=
  t.table.isEmpty

/-- Released at request end. -/
def clear (t : TaintTracker) : TaintTracker :=
  { t with table := [], overflowed := false }

@[simp] theorem isEmpty_clear (t : TaintTracker) : t.clear.isEmpty = true := rfl

@[simp] theorem isEmpty_create (capacity : Nat) : (create capacity).isEmpty = true := rfl

end TaintTracker

/-! ## The context of a request -/

/-- A `LinkedHashMap` of strings: a new key goes last, a known key keeps its place. -/
abbrev StringMap := List (JString × JString)

/-- `Map.put`. -/
def StringMap.put (m : StringMap) (key value : JString) : StringMap :=
  if m.any fun e ↦ e.1 == key then m.map fun e ↦ if e.1 == key then (key, value) else e
  else m ++ [(key, value)]

/-- Per-request state: the taint table, the HTTP facts and the sampling decision. -/
structure RequestContext where
  tracker : TaintTracker
  traceId : JString
  sampled : Bool
  reported : List JString
  responseChannels : List Nat
  method : JString
  path : JString
  route : JString
  remoteAddr : JString
  parameters : StringMap
  headers : StringMap
  bodyExcerpt : JString
  deriving DecidableEq

namespace RequestContext

/-- Ceiling on distinct defects reported per request. -/
def MAX_REPORTED_PER_REQUEST : Nat := 256

/-- Ceiling on remembered response body channels. -/
def MAX_RESPONSE_CHANNELS : Nat := 8

/-- Ceiling on recorded parameters, and on recorded headers. -/
def MAX_RECORDED : Nat := 64

/-- The constructor. -/
def create (traceId : JString) (sampled : Bool) : RequestContext where
  tracker := .create TaintTracker.MAX_TRACKED_VALUES
  traceId := traceId
  sampled := sampled
  reported := []
  responseChannels := []
  method := []
  path := []
  route := []
  remoteAddr := []
  parameters := []
  headers := []
  bodyExcerpt := []

/-- Record the request line. -/
def withHttp (c : RequestContext) (method path remoteAddr : Option JString) : RequestContext :=
  { c with method := method.getD [], path := path.getD [], remoteAddr := remoteAddr.getD [] }

/-- Record the route pattern the framework matched. -/
def withRouteTemplate (c : RequestContext) (route : Option JString) : RequestContext :=
  { c with route := route.getD [] }

/-- Record a request parameter. -/
def recordParameter (c : RequestContext) (name value : Option JString) : RequestContext :=
  match name with
  | none => c
  | some name =>
      if c.parameters.length < MAX_RECORDED then
        { c with parameters := c.parameters.put name (value.getD []) }
      else c

/-- Record a request header. -/
def recordHeader (platform : Platform) (c : RequestContext) (name value : Option JString) :
    RequestContext :=
  match name with
  | none => c
  | some name =>
      if c.headers.length < MAX_RECORDED then
        { c with headers := c.headers.put (platform.toLowerCase name) (value.getD []) }
      else c

/-- Record the beginning of the request body. -/
def recordBodyExcerpt (c : RequestContext) (excerpt : Option JString) : RequestContext :=
  { c with bodyExcerpt := excerpt.getD [] }

/-- Remember an object the response handed out as its body channel. -/
def registerResponseChannel (c : RequestContext) (channel : Option Nat) : RequestContext :=
  match channel with
  | none => c
  | some channel =>
      if c.responseChannels.length < MAX_RESPONSE_CHANNELS && channel ∉ c.responseChannels then
        { c with responseChannels := c.responseChannels ++ [channel] }
      else c

/-- Writing to this object writes the HTTP response. -/
def isResponseChannel (c : RequestContext) (channel : Option Nat) : Bool :=
  channel.any fun channel ↦ channel ∈ c.responseChannels

/-- True the first time this defect is seen in this request, with the context that remembers it. -/
def firstReport (c : RequestContext) (key : JString) : Bool × RequestContext :=
  if c.reported.length ≥ MAX_REPORTED_PER_REQUEST then (false, c)
  else if key ∈ c.reported then (false, c)
  else (true, { c with reported := c.reported ++ [key] })

/-- The route pattern, or the path where no pattern is known. -/
def routeTemplate (c : RequestContext) : JString :=
  if c.route.isEmpty then c.path else c.route

/-- Release the taint table. -/
def release (c : RequestContext) : RequestContext :=
  { c with tracker := c.tracker.clear }

@[simp] theorem tracker_release (c : RequestContext) :
    c.release.tracker.isEmpty = true := rfl

@[simp] theorem tracker_create (traceId : JString) (sampled : Bool) :
    (create traceId sampled).tracker.isEmpty = true := rfl

end RequestContext

end Aegis.Agent
