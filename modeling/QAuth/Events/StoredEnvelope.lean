import QAuth.Audit.Jsonb
import QAuth.Events.Emission

/-!
# The rows of events, and what is read back of them

The row of an event has one column for each member, which is `NULL` where the member has no value.
The envelope is made of the columns again, and an admin event is the next link of its realm's chain
if the stored row hashes as it was written.
-/

namespace QAuth.Events.Emission

open Approvals
open Audit (Digest Json Sha256 jsonbOrder storedMembers utf8)
open Guards Text

/-! ### The table -/

/-- A string as it comes back from a column: a lone surrogate has no UTF-8 and is replaced. -/
def asText (s : JsString) : JsString := units (textOf s)

/-- A `varchar` column takes text without U+0000, up to its length. -/
def textColumn (max : ℕ) (s : JsString) : Option JsString :=
  if s.contains 0 ∨ max < (charsOf s).length then none else some (asText s)

/-- A `jsonb` column takes a JSON value without U+0000. -/
def isStorable (v : JsValue) : Bool := v.isJson && !v.holdsNul

def chainColumn (chain : List JsString) : Option (List JsString) :=
  if isStorable (chainValue chain) then some chain else none

/-- The members of an object as they come back from a column. -/
def asRead (members : List (JsString × JsValue)) : List (JsString × JsValue) :=
  Audit.toMembers (jsonbOrder (storedMembers (jsonMembers members)))

def dataColumn (members : List (JsString × JsValue)) : Option (List (JsString × JsValue)) :=
  if isStorable (.obj .plain members) then some (asRead members) else none

/-- A column that may be `NULL`. -/
def nullable {α : Type} (column : α → Option α) : Option α → Option (Option α)
  | none => some none
  | some a => (column a).map some

/-- A stored row, its columns as they are read. -/
abbrev EnvelopeRow : Type := NewEventRow

/-- The row as the database holds it; `none` where it refuses the row. -/
def insertEvent (row : NewEventRow) : Option EnvelopeRow := do
  let type ← textColumn 255 row.type
  let actorId ← nullable (textColumn 255) row.actorId
  let actorDelegationChain ← nullable chainColumn row.actorDelegationChain
  let subjectId ← nullable (textColumn 255) row.subjectId
  let clientId ← nullable (textColumn 255) row.clientId
  let requestId ← nullable (textColumn 128) row.requestId
  let requestIp ← nullable (textColumn 45) row.requestIp
  let requestUserAgent ← nullable (textColumn 1024) row.requestUserAgent
  let data ← dataColumn row.data
  return { row with
    id := row.id.map asciiLower
    realmId := row.realmId.map asciiLower
    type, actorId, actorDelegationChain, subjectId, clientId, requestId, requestIp,
    requestUserAgent, data }

/-! ### Reading -/

/-- The request of its columns, none where each is `NULL`. -/
def requestOf (traceId ip userAgent : Option JsString) : Option EventRequest :=
  let request : EventRequest := ⟨.ofColumn traceId, .ofColumn ip, .ofColumn userAgent⟩
  if request.isEmpty then none else some request

/-- The envelope that a stored row holds; `none` where it throws. -/
def envelopeOf (registry : Registry) (row : EnvelopeRow) : Option EventEnvelope :=
  if row.schemaVersion ≠ EVENT_ROW_SCHEMA_VERSION then none
  else
    (registry.toISOString row.time).map fun time ↦
      { id := row.id
        type := row.type
        time := units time
        realm := row.realmId
        category := row.category
        actor := row.actorType.map fun type ↦
          ⟨type, .ofColumn row.actorId, .ofColumn row.actorDelegationChain⟩
        subject := row.subjectType.bind fun type ↦ row.subjectId.map fun id ↦ ⟨type, id⟩
        client := row.clientId.map fun id ↦ ⟨id⟩
        request := requestOf row.requestId row.requestIp row.requestUserAgent
        data := row.data }

/-! ### The chain -/

def EVENT_CHAIN_FORMAT : String := "qauth-event-chain/1-rc.0"

def EVENT_CHAIN_GENESIS_HASH : Digest := ⟨List.replicate 32 0, Audit.length_zeros⟩

def eventChainHash (sha256 : Sha256) (prevHash : Digest) (xid : UInt64) (envelope : EventEnvelope) :
    Except JsString Digest := do
  let text ← canonicalizeJson envelope.value
  return sha256 (utf8 EVENT_CHAIN_FORMAT.toList ++ [0] ++ prevHash.val ++ Bytes.be 8 xid.toNat ++
    utf8 text)

/-- An admin row with its chain columns. -/
structure ChainRow where
  row : EnvelopeRow
  xid : UInt64
  prevHash : Digest
  hash : Digest

inductive EventChainBreakReason
  | prevHashMismatch
  | unreadableRow
  | hashMismatch

/-- Why a row does not continue the chain. -/
def checkChainRow (sha256 : Sha256) (registry : Registry) (row : ChainRow) (expectedPrev : Digest) :
    Option EventChainBreakReason :=
  if row.prevHash ≠ expectedPrev then some .prevHashMismatch
  else
    match envelopeOf registry row.row with
    | none => some .unreadableRow
    | some envelope =>
      match eventChainHash sha256 row.prevHash row.xid envelope with
      | .error _ => some .unreadableRow
      | .ok computed => if computed = row.hash then none else some .hashMismatch

inductive AppendError
  /-- The envelope has no canonical text. -/
  | canonical (message : JsString)
  /-- The database refuses the row. -/
  | refused
  /-- The stored row does not hash as it was written. -/
  | notAsWritten

/-- Write an admin event as the next link of its realm's chain, after the `head`. -/
def appendToChain (sha256 : Sha256) (registry : Registry) (head : Option Digest) (xid : UInt64)
    (built : BuiltEvent) : Except AppendError ChainRow := do
  let prevHash := head.getD EVENT_CHAIN_GENESIS_HASH
  let hash ← (eventChainHash sha256 prevHash xid built.envelope).mapError .canonical
  let row ← require (insertEvent built.row) .refused
  let stored : ChainRow := ⟨row, xid, prevHash, hash⟩
  refuseIf ((checkChainRow sha256 registry stored prevHash).isSome) .notAsWritten
  return stored

/-! ### Members that have a value -/

variable {members members' : List (JsString × JsValue)} {key : String} {s : JsString}

theorem areJsonMembers_append :
    areJsonMembers (members ++ members') = (areJsonMembers members && areJsonMembers members') := by
  induction members with
  | nil => rfl
  | cons m members ih => rw [List.cons_append, areJsonMembers, areJsonMembers, ih, Bool.and_assoc]

theorem jsonMembers_append :
    jsonMembers (members ++ members') = jsonMembers members ++ jsonMembers members' := by
  rw [jsonMembers_eq_map, jsonMembers_eq_map, jsonMembers_eq_map, present, List.filter_append,
    List.map_append, present, present]

/-- A member counts by its value alone. -/
theorem areJsonMembers_entry {α : Type} {f : α → JsValue} (hf : ∀ a, (f a).isUndefined = false)
    (m : Member α) : areJsonMembers (m.entry key f) = m.value.all fun a ↦ (f a).isJson := by
  cases m with
  | absent => rfl
  | undefined => rfl
  | of a => simp [Member.entry, Member.value, areJsonMembers, hf]

theorem jsonMembers_entry {α : Type} {f : α → JsValue} (hf : ∀ a, (f a).isUndefined = false)
    (m : Member α) :
    jsonMembers (m.entry key f) = (m.value.map fun a ↦ (key, (f a).json)).toList := by
  cases m with
  | absent => rfl
  | undefined => rfl
  | of a => simp [Member.entry, Member.value, jsonMembers, hf]

theorem areJsonMembers_part {α : Type} {f : α → List (JsString × JsValue)} (x : Option α) :
    areJsonMembers (EventEnvelope.part key f x) = x.all fun a ↦ areJsonMembers (f a) := by
  cases x with
  | none => rfl
  | some a => simp [EventEnvelope.part, areJsonMembers, JsValue.isJson]

theorem jsonMembers_part {α : Type} {f : α → List (JsString × JsValue)} (x : Option α) :
    jsonMembers (EventEnvelope.part key f x) =
      (x.map fun a ↦ (key, Json.obj (jsonMembers (f a)))).toList := by
  cases x with
  | none => rfl
  | some a => simp [EventEnvelope.part, jsonMembers, JsValue.json]

theorem areJsonMembers_cons_str (t : JsString) :
    areJsonMembers ((units key, .str t) :: members) =
      (!loneSurrogate none t && areJsonMembers members) := by
  simp [areJsonMembers, JsValue.isJson]

@[simp] theorem isUndefined_chainValue (chain : List JsString) :
    (chainValue chain).isUndefined = false := rfl

theorem areJsonMembers_actor (actor : Actor) : areJsonMembers actor.members =
    (actor.id.value.all (!loneSurrogate none ·) &&
      actor.delegationChain.value.all fun chain ↦ (chainValue chain).isJson) := by
  rw [Actor.members, text, List.cons_append, areJsonMembers_cons_str, areJsonMembers_append,
    areJsonMembers_entry JsValue.isUndefined_str, areJsonMembers_entry isUndefined_chainValue,
    loneSurrogate_units]
  rfl

theorem areJsonMembers_subject (subject : Subject) :
    areJsonMembers subject.members = !loneSurrogate none subject.id := by
  rw [Subject.members, text, areJsonMembers_cons_str, areJsonMembers_cons_str, loneSurrogate_units]
  simp [areJsonMembers]

theorem areJsonMembers_client (client : Client) :
    areJsonMembers client.members = !loneSurrogate none client.id := by
  rw [Client.members, areJsonMembers_cons_str]
  simp [areJsonMembers]

theorem areJsonMembers_request (request : EventRequest) : areJsonMembers request.members =
    (request.traceId.value.all (!loneSurrogate none ·) &&
      request.ip.value.all (!loneSurrogate none ·) &&
      request.userAgent.value.all (!loneSurrogate none ·)) := by
  rw [EventRequest.members, areJsonMembers_append, areJsonMembers_append,
    areJsonMembers_entry JsValue.isUndefined_str, areJsonMembers_entry JsValue.isUndefined_str,
    areJsonMembers_entry JsValue.isUndefined_str]
  rfl

/-- The parts of the envelope that the event names are JSON. -/
structure Clean (envelope : EventEnvelope) : Prop where
  actor : ∀ a, envelope.actor = some a → areJsonMembers a.members = true
  subject : ∀ a, envelope.subject = some a → areJsonMembers a.members = true
  client : ∀ a, envelope.client = some a → areJsonMembers a.members = true
  request : ∀ a, envelope.request = some a → areJsonMembers a.members = true
  data : areJsonMembers envelope.data = true

theorem isJson_value {envelope : EventEnvelope} (hid : loneSurrogate none envelope.id = false)
    (htype : loneSurrogate none envelope.type = false)
    (htime : loneSurrogate none envelope.time = false)
    (hrealm : loneSurrogate none envelope.realm = false) (h : Clean envelope) :
    envelope.value.isJson = true := by
  have hpart : ∀ {α : Type} {key : String} {f : α → List (JsString × JsValue)} {x : Option α},
      (∀ a, x = some a → areJsonMembers (f a) = true) →
        areJsonMembers (EventEnvelope.part key f x) = true := by
    intro α key f x hx
    rw [areJsonMembers_part, Option.all_eq_true]
    exact hx
  have hcategory : areJsonMembers [(units "category", text envelope.category.word)] = true := by
    rw [text, areJsonMembers_cons_str, loneSurrogate_units]
    rfl
  rw [EventEnvelope.value, JsValue.isJson, EventEnvelope.members, EventEnvelope.headMembers]
  simp only [List.cons_append, areJsonMembers_cons_str, areJsonMembers_append, hid, htype, htime,
    hrealm, hpart h.actor, hpart h.subject, hpart h.client, hpart h.request, text,
    loneSurrogate_units, Bool.not_false, Bool.true_and]
  simp [areJsonMembers, JsValue.isJson, h.data]

/-! ### What the table takes -/

theorem asText_eq_self_iff : asText s = s ↔ loneSurrogate none s = false := by
  refine ⟨fun h ↦ ?_, units_textOf⟩
  rw [← h, asText, loneSurrogate_units]

/-- The row as it is read, where the database takes it. -/
def NewEventRow.asRead (row : NewEventRow) : EnvelopeRow :=
  { row with
    id := row.id.map asciiLower
    realmId := row.realmId.map asciiLower
    type := asText row.type
    actorId := row.actorId.map asText
    subjectId := row.subjectId.map asText
    clientId := row.clientId.map asText
    requestId := row.requestId.map asText
    requestIp := row.requestIp.map asText
    requestUserAgent := row.requestUserAgent.map asText
    data := Emission.asRead row.data }

/-- A text that a column of the length takes. -/
def fits (max : ℕ) (s : JsString) : Bool := !s.contains 0 && (charsOf s).length ≤ max

/-- Every column takes its value. -/
structure NewEventRow.Fits (row : NewEventRow) : Prop where
  type : fits 255 row.type = true
  actorId : row.actorId.all (fits 255) = true
  actorDelegationChain : row.actorDelegationChain.all (isStorable <| chainValue ·) = true
  subjectId : row.subjectId.all (fits 255) = true
  clientId : row.clientId.all (fits 255) = true
  requestId : row.requestId.all (fits 128) = true
  requestIp : row.requestIp.all (fits 45) = true
  requestUserAgent : row.requestUserAgent.all (fits 1024) = true
  data : isStorable (.obj .plain row.data) = true

theorem textColumn_eq_some_iff {max : ℕ} {t : JsString} :
    textColumn max s = some t ↔ fits max s = true ∧ asText s = t := by
  rw [textColumn, fits]
  split
  · rename_i h
    simp only [reduceCtorEq, Bool.and_eq_true, Bool.not_eq_true', decide_eq_true_iff, false_iff]
    rintro ⟨⟨hnul, hle⟩, -⟩
    rcases h with h | h
    · rw [h] at hnul
      cases hnul
    · omega
  · rename_i h
    push Not at h
    simp only [Option.some.injEq, Bool.and_eq_true, Bool.not_eq_true', decide_eq_true_iff]
    exact ⟨fun heq ↦ ⟨⟨Bool.eq_false_iff.mpr h.1, h.2⟩, heq⟩, fun heq ↦ heq.2⟩

theorem nullable_eq_some_iff {α : Type} {column : α → Option α} {p : α → Bool} {f : α → α}
    (h : ∀ a b, column a = some b ↔ p a = true ∧ f a = b) {x y : Option α} :
    nullable column x = some y ↔ x.all p = true ∧ x.map f = y := by
  cases x with
  | none => simp [nullable]
  | some a =>
    rw [nullable, Option.map_eq_some_iff]
    simp only [h, Option.all_some, Option.map_some]
    constructor
    · rintro ⟨b, ⟨hp, rfl⟩, rfl⟩
      exact ⟨hp, rfl⟩
    · rintro ⟨hp, rfl⟩
      exact ⟨_, ⟨hp, rfl⟩, rfl⟩

theorem chainColumn_eq_some_iff {chain chain' : List JsString} :
    chainColumn chain = some chain' ↔ isStorable (chainValue chain) = true ∧ id chain = chain' := by
  rw [chainColumn]
  split <;> simp_all

theorem dataColumn_eq_some_iff {data : List (JsString × JsValue)} :
    dataColumn members = some data ↔
      isStorable (.obj .plain members) = true ∧ Emission.asRead members = data := by
  rw [dataColumn]
  split <;> simp_all

/-- The database takes a row exactly where each column takes its value. -/
theorem insertEvent_eq_some_iff {row : NewEventRow} {read : EnvelopeRow} :
    insertEvent row = some read ↔ row.Fits ∧ row.asRead = read := by
  have htext : ∀ (max : ℕ) (a b : JsString),
      textColumn max a = some b ↔ fits max a = true ∧ asText a = b := fun _ _ _ ↦
    textColumn_eq_some_iff
  simp only [insertEvent, Option.bind_eq_bind, Option.bind_eq_some_iff, textColumn_eq_some_iff,
    nullable_eq_some_iff (htext _),
    nullable_eq_some_iff fun _ _ ↦ chainColumn_eq_some_iff, dataColumn_eq_some_iff,
    Option.pure_def, Option.some.injEq]
  constructor
  · rintro ⟨_, ⟨h₁, rfl⟩, _, ⟨h₂, rfl⟩, _, ⟨h₃, rfl⟩, _, ⟨h₄, rfl⟩, _, ⟨h₅, rfl⟩, _, ⟨h₆, rfl⟩,
      _, ⟨h₇, rfl⟩, _, ⟨h₈, rfl⟩, _, ⟨h₉, rfl⟩, rfl⟩
    refine ⟨⟨h₁, h₂, h₃, h₄, h₅, h₆, h₇, h₈, h₉⟩, ?_⟩
    rw [NewEventRow.asRead, Option.map_id]
    rfl
  · rintro ⟨h, rfl⟩
    refine ⟨_, ⟨h.type, rfl⟩, _, ⟨h.actorId, rfl⟩, _, ⟨h.actorDelegationChain, rfl⟩, _,
      ⟨h.subjectId, rfl⟩, _, ⟨h.clientId, rfl⟩, _, ⟨h.requestId, rfl⟩, _, ⟨h.requestIp, rfl⟩, _,
      ⟨h.requestUserAgent, rfl⟩, _, ⟨h.data, rfl⟩, ?_⟩
    rw [NewEventRow.asRead, Option.map_id]
    rfl

/-! ### What is read back -/

def Member.asRead (m : Member JsString) : Member JsString := .ofColumn (m.value.map asText)

def Actor.asRead (actor : Actor) : Actor :=
  ⟨actor.type, actor.id.asRead, .ofColumn actor.delegationChain.value⟩

def EventRequest.asRead (request : EventRequest) : EventRequest :=
  ⟨request.traceId.asRead, request.ip.asRead, request.userAgent.asRead⟩

def EventEnvelope.asRead (envelope : EventEnvelope) : EventEnvelope :=
  { envelope with
    id := envelope.id.map asciiLower
    realm := envelope.realm.map asciiLower
    type := asText envelope.type
    actor := envelope.actor.map Actor.asRead
    subject := envelope.subject.map fun subject ↦ ⟨subject.type, asText subject.id⟩
    client := envelope.client.map fun client ↦ ⟨asText client.id⟩
    request := (envelope.request.map EventRequest.asRead).filter (!·.isEmpty)
    data := Emission.asRead envelope.data }

theorem requestOf_asRead (request : Option EventRequest) :
    requestOf ((request.bind (·.traceId.value)).map asText)
      ((request.bind (·.ip.value)).map asText) ((request.bind (·.userAgent.value)).map asText) =
      (request.map EventRequest.asRead).filter (!·.isEmpty) := by
  cases request with
  | none => rfl
  | some request =>
    show (if request.asRead.isEmpty = true then none else some request.asRead) = _
    rw [Option.map_some, Option.filter_some]
    cases request.asRead.isEmpty <;> rfl

/-- What is read back of an envelope's row. -/
theorem envelopeOf_asRead {registry : Registry} {envelope : EventEnvelope} {now : ℤ} {time : String}
    (htime : registry.toISOString now = some time) (henvelope : envelope.time = units time) :
    envelopeOf registry (rowOf envelope now).asRead = some envelope.asRead := by
  obtain ⟨id, type, time', realm, category, actor, subject, client, request, data⟩ := envelope
  obtain rfl : time' = units time := henvelope
  have hactor : ((actor.map (·.type)).map fun type ↦ (⟨type,
      .ofColumn ((actor.bind (·.id.value)).map asText),
      .ofColumn (actor.bind (·.delegationChain.value))⟩ : Actor)) = actor.map Actor.asRead := by
    cases actor <;> rfl
  have hsubject : (((subject.map (·.type)).bind fun type ↦
      ((subject.map (·.id)).map asText).map fun id ↦ (⟨type, id⟩ : Subject)) =
        subject.map fun subject ↦ ⟨subject.type, asText subject.id⟩) := by
    cases subject <;> rfl
  have hclient : (((client.map (·.id)).map asText).map fun id ↦ (⟨id⟩ : Client)) =
      client.map fun client ↦ ⟨asText client.id⟩ := by
    cases client <;> rfl
  rw [envelopeOf, if_neg (by simp [NewEventRow.asRead, rowOf])]
  simp only [NewEventRow.asRead, rowOf, htime, Option.map_some, EventEnvelope.asRead, hactor,
    hsubject, hclient, requestOf_asRead]

end QAuth.Events.Emission
