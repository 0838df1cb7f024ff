import QAuth.Approvals.CanonicalRequest
import QAuth.Foundation.Bytes
import QAuth.Foundation.UuidText

/-!
# The events that are emitted

An event is checked against the registry and becomes an envelope, and the envelope the columns of a
row (`buildEvent`). An optional member of an object may be left out, or be there and `undefined`,
and the validator keeps it as it is.

The schema of a type's `data` and the rules that its payload obeys are given with the type.
-/

namespace QAuth.Events.Emission

open Approvals (JsString JsValue Unknown)
open Guards Text

/-! ### Members -/

/-- An optional member of an object. -/
inductive Member (α : Type)
  | absent
  /-- an own member that is `undefined` -/
  | undefined
  | of (a : α)

namespace Member

variable {α : Type}

/-- What reading the member gives. -/
def value : Member α → Option α
  | .of a => some a
  | _ => none

def isOwn : Member α → Bool
  | .absent => false
  | _ => true

/-- The member among the members of its object. -/
def entry (key : String) (toValue : α → JsValue) : Member α → List (JsString × JsValue)
  | .absent => []
  | .undefined => [(units key, .undefined)]
  | .of a => [(units key, toValue a)]

/-- `x === null ? {} : { key: x }`. -/
def ofColumn : Option α → Member α
  | some a => .of a
  | none => .absent

@[simp] theorem value_ofColumn (x : Option α) : (ofColumn x).value = x := by
  cases x <;> rfl

end Member

def text (s : String) : JsValue := .str (units s)

/-! ### The envelope -/

inductive EventCategory
  | user
  | admin

def EventCategory.word : EventCategory → String
  | .user => "user"
  | .admin => "admin"

inductive ActorType
  | user
  | client
  | system
  | operatorCli

def ActorType.word : ActorType → String
  | .user => "user"
  | .client => "client"
  | .system => "system"
  | .operatorCli => "operator_cli"

inductive SubjectType
  | user
  | client
  | apiKey
  | ssfStream
deriving DecidableEq

def SubjectType.word : SubjectType → String
  | .user => "user"
  | .client => "client"
  | .apiKey => "api_key"
  | .ssfStream => "ssf_stream"

structure Actor where
  type : ActorType
  id : Member JsString
  delegationChain : Member (List JsString)

structure Subject where
  type : SubjectType
  id : JsString

structure Client where
  id : JsString

structure EventRequest where
  traceId : Member JsString
  ip : Member JsString
  userAgent : Member JsString

def chainValue (chain : List JsString) : JsValue := .arr (chain.map fun s ↦ some (.str s))

def Actor.members (actor : Actor) : List (JsString × JsValue) :=
  (units "type", text actor.type.word) :: actor.id.entry "id" .str ++
    actor.delegationChain.entry "delegationChain" chainValue

def Subject.members (subject : Subject) : List (JsString × JsValue) :=
  [(units "type", text subject.type.word), (units "id", .str subject.id)]

def Client.members (client : Client) : List (JsString × JsValue) := [(units "id", .str client.id)]

def EventRequest.members (request : EventRequest) : List (JsString × JsValue) :=
  request.traceId.entry "traceId" .str ++ request.ip.entry "ip" .str ++
    request.userAgent.entry "userAgent" .str

/-- `isEmptyObject`, of a request. -/
def EventRequest.isEmpty (request : EventRequest) : Bool :=
  !request.traceId.isOwn && !request.ip.isOwn && !request.userAgent.isOwn

/-- An event, before it is checked. -/
structure UncheckedEvent where
  type : JsString
  realm : JsString
  actor : Member Actor
  subject : Member Subject
  client : Member Client
  request : Member EventRequest
  data : Unknown

structure EventEnvelope where
  id : JsString
  type : JsString
  time : JsString
  realm : JsString
  category : EventCategory
  actor : Option Actor
  subject : Option Subject
  client : Option Client
  request : Option EventRequest
  data : List (JsString × JsValue)

namespace EventEnvelope

/-- An object under its name, if it is there. -/
def part {α : Type} (key : String) (members : α → List (JsString × JsValue)) (x : Option α) :
    List (JsString × JsValue) :=
  (x.map fun a ↦ (units key, JsValue.obj .plain (members a))).toList

/-- The members other than `data`. -/
def headMembers (envelope : EventEnvelope) : List (JsString × JsValue) :=
  [(units "id", .str envelope.id), (units "type", .str envelope.type),
    (units "time", .str envelope.time), (units "realm", .str envelope.realm),
    (units "category", text envelope.category.word)] ++
    part "actor" Actor.members envelope.actor ++ part "subject" Subject.members envelope.subject ++
    part "client" Client.members envelope.client ++
    part "request" EventRequest.members envelope.request

def members (envelope : EventEnvelope) : List (JsString × JsValue) :=
  envelope.headMembers ++ [(units "data", .obj .plain envelope.data)]

def value (envelope : EventEnvelope) : JsValue := .obj .plain envelope.members

end EventEnvelope

/-! ### The registry -/

/-- A registered type: `accepts` is the schema of its `data` with the payload rules. -/
structure EventTypeDefinition where
  type : String
  category : EventCategory
  subject : Option SubjectType
  accepts : List (JsString × JsValue) → Bool
  /-- The column takes the identifier. -/
  length_type : type.toList.length ≤ 255

/-- What events are checked against. -/
structure Registry where
  types : List EventTypeDefinition
  /-- `scanValues` finds something shaped like a token or a key. -/
  flagged : JsValue → Bool
  /-- `new Date(at).toISOString()`, `none` where it throws -/
  toISOString : ℤ → Option String
  /-- `z.iso.datetime()` -/
  isDateTime : JsString → Bool
  /-- An address in the published form. -/
  isIp : JsString → Bool
  length_of_isIp : ∀ s, isIp s = true → (charsOf s).length ≤ 45

def Registry.getEventType (registry : Registry) (type : JsString) : Option EventTypeDefinition :=
  registry.types.find? fun definition ↦ units definition.type = type

/-! ### The check -/

/-- A length, which the validator counts in code points. -/
def hasLength (low high : ℕ) (s : JsString) : Bool :=
  low ≤ (charsOf s).length && (charsOf s).length ≤ high

/-- `clientIdSchema`; the `id` of an actor and of a subject are checked alike. -/
def clientIdSchema (s : JsString) : Bool := hasLength 1 255 s

def Actor.valid (actor : Actor) : Bool :=
  actor.id.value.all clientIdSchema && actor.delegationChain.value.all fun chain ↦
    1 ≤ chain.length && chain.length ≤ 16 && chain.all clientIdSchema

def TRACE_ID_MAX : ℕ := 128

def USER_AGENT_MAX : ℕ := 1024

def EventRequest.valid (registry : Registry) (request : EventRequest) : Bool :=
  request.traceId.value.all (hasLength 1 TRACE_ID_MAX) && request.ip.value.all registry.isIp &&
    request.userAgent.value.all (hasLength 0 USER_AGENT_MAX)

/-- `z.uuid()`: the version and the variant are RFC 9562's, or all bits are the same. -/
def isUuid (s : JsString) : Bool :=
  let text := (charsOf s).map Char.toLower
  UuidText.IsUuid text &&
    (text.all (fun c ↦ c = '0' || c = '-') || text.all (fun c ↦ c = 'f' || c = '-') ||
      "12345678".toList.contains (text.getD 14 '-') && "89ab".toList.contains (text.getD 19 '-'))

/-- `envelopeSchema`, of an envelope whose `id` and `type` are well-formed as they are made. -/
def EventEnvelope.valid (registry : Registry) (envelope : EventEnvelope) : Bool :=
  registry.isDateTime envelope.time && isUuid envelope.realm && envelope.actor.all Actor.valid &&
    envelope.subject.all (clientIdSchema ·.id) && envelope.client.all (clientIdSchema ·.id) &&
    envelope.request.all (EventRequest.valid registry)

/-- Why an event is refused. -/
inductive EmitError
  /-- `uuidv7` or `toISOString` throws. -/
  | range
  | unknownType (type : JsString)
  | notAnEvent
  | notValid (type : JsString)
  | notStorable (type : JsString) (paths : List JsString)

def EmitError.problems : EmitError → List JsString
  | .unknownType type => [type ++ units " is not in the registry"]
  | .notStorable _ paths =>
    paths.map (· ++ units ": holds a NUL character, which Postgres cannot store")
  | _ => []

/-- `z.record(z.string(), z.unknown())`: the members of a plain object. -/
def recordOf : JsValue → Option (List (JsString × JsValue))
  | .obj .plain members => some members
  | .obj .parsed members => some members
  | _ => none

/-- Check an envelope that is made for a type. -/
def parseEvent (registry : Registry) (definition : EventTypeDefinition) (envelope : EventEnvelope) :
    Except EmitError EventEnvelope := do
  refuseIf (envelope.valid registry = false) .notAnEvent
  refuseIf ((envelope.subject.any fun subject ↦ definition.subject ≠ some subject.type) ∨
    registry.flagged (.obj .plain envelope.headMembers) ∨ definition.accepts envelope.data = false)
    (.notValid envelope.type)
  return envelope

/-! ### The row -/

mutual

/-- The paths of the strings that hold U+0000. -/
def nulPaths (path : JsString) : JsValue → List JsString
  | .str s => if s.contains 0 then [path] else []
  | .arr items => nulItems path 0 items
  | .obj _ members => nulMembers path members
  | _ => []

def nulItems (path : JsString) (i : ℕ) : List (Option JsValue) → List JsString
  | [] => []
  | none :: items => nulItems path (i + 1) items
  | some v :: items =>
    nulPaths (path ++ units "/" ++ units (toString i)) v ++ nulItems path (i + 1) items

def nulMembers (path : JsString) : List (JsString × JsValue) → List JsString
  | [] => []
  | (key, v) :: members =>
    (if key.contains 0 then [path ++ units "/" ++ key] else []) ++
      nulPaths (path ++ units "/" ++ key) v ++ nulMembers path members

end

def EVENT_ROW_SCHEMA_VERSION : ℕ := 1

structure NewEventRow where
  id : JsString
  realmId : JsString
  category : EventCategory
  type : JsString
  time : ℤ
  actorType : Option ActorType
  actorId : Option JsString
  actorDelegationChain : Option (List JsString)
  subjectType : Option SubjectType
  subjectId : Option JsString
  clientId : Option JsString
  requestId : Option JsString
  requestIp : Option JsString
  requestUserAgent : Option JsString
  data : List (JsString × JsValue)
  schemaVersion : ℕ

structure BuiltEvent where
  row : NewEventRow
  envelope : EventEnvelope

/-- The columns of an envelope. -/
def rowOf (envelope : EventEnvelope) (time : ℤ) : NewEventRow where
  id := envelope.id
  realmId := envelope.realm
  category := envelope.category
  type := envelope.type
  time := time
  actorType := envelope.actor.map (·.type)
  actorId := envelope.actor.bind (·.id.value)
  actorDelegationChain := envelope.actor.bind (·.delegationChain.value)
  subjectType := envelope.subject.map (·.type)
  subjectId := envelope.subject.map (·.id)
  clientId := envelope.client.map (·.id)
  requestId := envelope.request.bind (·.traceId.value)
  requestIp := envelope.request.bind (·.ip.value)
  requestUserAgent := envelope.request.bind (·.userAgent.value)
  data := envelope.data
  schemaVersion := EVENT_ROW_SCHEMA_VERSION

/-- `uuidv7`, of a time and sixteen random bytes. -/
def uuidv7 (now : ℤ) (random : Vector UInt8 16) : Option JsString :=
  if 0 ≤ now ∧ now < 2 ^ 48 then
    let bytes := Bytes.be 6 now.toNat ++ [random[6] &&& 0x0f ||| 0x70, random[7],
      random[8] &&& 0x3f ||| 0x80] ++ random.toList.drop 9
    some (units (String.ofList (UuidText.text (Der.ofBytes bytes))))
  else none

/-- `toLowerCase`, of ASCII: no other character is one of a UUID before or after. -/
def asciiLower (u : UInt16) : UInt16 := if 0x41 ≤ u ∧ u ≤ 0x5A then u + 0x20 else u

/-- The envelope that an event is checked as. -/
def envelopeFor (definition : EventTypeDefinition) (event : UncheckedEvent) (id time : JsString)
    (data : List (JsString × JsValue)) : EventEnvelope where
  id := id
  type := event.type
  time := time
  realm := event.realm.map asciiLower
  category := definition.category
  actor := event.actor.value
  subject := event.subject.value
  client := event.client.value
  -- an empty `request` is left out: the row has no columns to tell it by
  request := event.request.value.filter (!·.isEmpty)
  data := data

def buildEvent (registry : Registry) (random : Vector UInt8 16) (event : UncheckedEvent) (now : ℤ) :
    Except EmitError BuiltEvent := do
  let definition ← require (registry.getEventType event.type) (.unknownType event.type)
  let id ← require (uuidv7 now random) .range
  let time ← require (registry.toISOString now) .range
  let data ← require (recordOf event.data.val) .notAnEvent
  let envelope ← parseEvent registry definition (envelopeFor definition event id (units time) data)
  let unstorable := nulPaths [] envelope.value
  refuseIf (unstorable ≠ []) (.notStorable envelope.type unstorable)
  return ⟨rowOf envelope now, envelope⟩

end QAuth.Events.Emission
