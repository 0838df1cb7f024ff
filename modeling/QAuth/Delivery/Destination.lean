import QAuth.Events.Store

/-!
# Destinations and their filters

A route lists the places it delivers to, each with the filters that pick its events, and a
fan-out request names the route kinds a node serves with every destination of those kinds.
-/

namespace QAuth.Delivery

open Events

/-- What the `subjects` filter reads for an event type. -/
inductive SubjectFrom
  | subject
  | client
  | none
  deriving DecidableEq

/-- How a destination's filters read one event type. -/
structure EventDeliveryTypeRule where
  subjectFrom : Option SubjectFrom
  clientId : Option String

/-- One realm's stream as one route kind reads it. -/
structure Stream where
  realmId : Uuid
  kind : String
  deriving DecidableEq

/-- A place events are delivered to. An absent filter takes everything, an empty one nothing. -/
structure EventDeliveryDestination where
  kind : String
  id : String
  realmId : Uuid
  types : Option (List String)
  categories : Option (List EventCategory)
  subjects : Option (List (String × String))
  typeRules : List (String × EventDeliveryTypeRule)

/-- The stream a destination is fed from. -/
def EventDeliveryDestination.stream (d : EventDeliveryDestination) : Stream :=
  ⟨d.realmId, d.kind⟩

/-- A subject as one string, for a set lookup: its type and id joined by a NUL. -/
def subjectKey (type id : String) : String :=
  type ++ "\u0000" ++ id

/-- The subject a filter reads from an event. -/
def about (source : SubjectFrom) (e : Event) : Option String :=
  match source with
  | .client => e.clientId.map (subjectKey "client")
  | .subject | .none =>
    match e.subjectType, e.subjectId with
    | some type, some id => some (subjectKey type id)
    | _, _ => none

/-- Whether a destination's filters take an event. A type rule may make the subject filter read
the event's client instead, or nothing, and may take only one client's events. -/
def «matches» (d : EventDeliveryDestination) (e : Event) : Bool :=
  let rule := d.typeRules.lookup e.type
  let clientId := rule.bind (·.clientId)
  let source := (rule.bind (·.subjectFrom)).getD .subject
  if clientId.isSome && e.clientId ≠ clientId then false
  else
    (d.types.all (·.contains e.type)) && (d.categories.all (·.contains e.category)) &&
      d.subjects.all fun subjects ↦ source = .none ||
        (about source e).any (subjects.map fun s ↦ subjectKey s.1 s.2).contains

/-! ### Requests -/

/-- A text's length as the source measures it, in UTF-16 code units. -/
def utf16Length (text : String) : ℕ :=
  (text.toList.map fun c ↦ if c.toNat < 0x10000 then 1 else 2).sum

def KIND_MAX_LENGTH : ℕ := 32
def DESTINATION_ID_MAX_LENGTH : ℕ := 255
def EVENT_READ_LIMIT_MAX : ℕ := 1000
def DEFAULT_FAN_OUT_PAGE_SIZE : ℕ := 500
def DEFAULT_FAN_OUT_PAGES_PER_REALM : ℕ := 10

/-- The longest backfill window of a fan-out: 30 days. -/
def FAN_OUT_BACKFILL_MAX_MS : ℕ := 30 * 24 * 60 * 60 * 1000

/-- The largest integer a time may be. -/
def MAX_SAFE_INTEGER : ℕ := 2 ^ 53 - 1

def checkKind (kind caller : String) : Except String Unit :=
  if kind = "" || utf16Length kind > KIND_MAX_LENGTH then
    .error s!"eventDeliveries.{caller}: a route kind must be 1 to {KIND_MAX_LENGTH} characters"
  else .ok ()

def checkDestination (d : EventDeliveryDestination) (kinds : List String) :
    Except String Unit := do
  checkKind d.kind "fanOut"
  if !kinds.contains d.kind then
    throw ("eventDeliveries.fanOut: a destination of kind \"" ++ d.kind ++
      "\", which the request does not serve")
  if d.id = "" || utf16Length d.id > DESTINATION_ID_MAX_LENGTH then
    throw s!"eventDeliveries.fanOut: a destination id must be 1 to {DESTINATION_ID_MAX_LENGTH} characters"

def checkCount (value min max : ℕ) (what : String) : Except String {n : ℕ // min ≤ n ∧ n ≤ max} :=
  if h : min ≤ value ∧ value ≤ max then .ok ⟨value, h⟩
  else .error s!"eventDeliveries: {what} must be an integer from {min} to {max}"

def checkTime (value : ℕ) (what : String) : Except String ℕ :=
  if value > MAX_SAFE_INTEGER then
    .error s!"eventDeliveries: {what} must be epoch milliseconds"
  else .ok value

/-- What `fanOut` takes. -/
structure EventFanOutRequest where
  kinds : List String
  destinations : List EventDeliveryDestination
  now : ℕ
  pageSize : Option ℕ
  maxPagesPerRealm : Option ℕ
  backfillMs : List (String × ℕ)

/-- A request whose checks passed, with the defaults filled in. -/
structure FanOutRequest where
  kinds : List String
  destinations : List EventDeliveryDestination
  now : ℕ
  pageSize : ℕ
  maxPages : ℕ
  backfill : List (String × ℕ)
  pageSize_pos : 1 ≤ pageSize

/-- The checks of `fanOut`, in its order. -/
def checkFanOutRequest (request : EventFanOutRequest) : Except String FanOutRequest := do
  let now ← checkTime request.now "now"
  let pageSize ← checkCount (request.pageSize.getD DEFAULT_FAN_OUT_PAGE_SIZE) 1
    EVENT_READ_LIMIT_MAX "pageSize"
  let maxPages ← checkCount (request.maxPagesPerRealm.getD DEFAULT_FAN_OUT_PAGES_PER_REALM) 1
    1000 "maxPagesPerRealm"
  request.kinds.forM (checkKind · "fanOut")
  request.backfillMs.forM fun (kind, ms) ↦ do
    checkKind kind "fanOut"
    discard (checkCount ms 0 FAN_OUT_BACKFILL_MAX_MS ("backfillMs." ++ kind))
  request.destinations.forM (checkDestination · request.kinds)
  return {
    kinds := request.kinds
    destinations := request.destinations
    now := now
    pageSize := pageSize
    maxPages := maxPages
    backfill := request.backfillMs
    pageSize_pos := pageSize.2.1 }

namespace FanOutRequest

def destinationsOf (request : FanOutRequest) (st : Stream) : List EventDeliveryDestination :=
  request.destinations.filter (·.stream = st)

/-- Whether a request lists a destination of a stream. -/
def lists (request : FanOutRequest) (st : Stream) : Bool :=
  request.destinations.any (·.stream = st)

/-- The backfill window a request names for a kind. -/
def backfillMs (request : FanOutRequest) (kind : String) : Option ℕ :=
  request.backfill.lookup kind

end FanOutRequest

/-- The event types a backfilled position may start at: every type the destinations take, or
`none` when one of them takes every type. -/
def backfillTypes (destinations : List EventDeliveryDestination) : Option (List String) :=
  if destinations.any (·.types.isNone) then none
  else some (destinations.flatMap fun d ↦ d.types.getD [])

end QAuth.Delivery
