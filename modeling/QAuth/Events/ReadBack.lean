import QAuth.Events.StoredEnvelope

/-!
# An emitted event is not always what is read back

What is read back of an accepted event is the envelope that was emitted, and an admin event is
appended to its realm's chain, if and only if the strings of the event are well-formed and its
request is not an object all of whose members are undefined.
-/

namespace QAuth.Events.Emission

open Approvals
open Audit (Digest Json Sha256 jsonbOrder storedMembers)
open Guards Text

/-! ### What is asked -/

/-- The members of an actor that have a value. -/
def Actor.content (actor : Actor) : ActorType × Option JsString × Option (List JsString) :=
  (actor.type, actor.id.value, actor.delegationChain.value)

/-- The members of a request that have a value. -/
def EventRequest.content (request : EventRequest) :
    Option JsString × Option JsString × Option JsString :=
  (request.traceId.value, request.ip.value, request.userAgent.value)

/-- The same envelope: an undefined member is one that is not there. -/
structure SameEnvelope (a b : EventEnvelope) : Prop where
  id : a.id = b.id
  type : a.type = b.type
  time : a.time = b.time
  realm : a.realm = b.realm
  category : a.category = b.category
  actor : a.actor.map Actor.content = b.actor.map Actor.content
  subject : a.subject = b.subject
  client : a.client = b.client
  request : a.request.map EventRequest.content = b.request.map EventRequest.content
  data : (JsValue.obj .plain a.data).Same (.obj .plain b.data)

/-- The row is stored, and read back as the envelope that was emitted. -/
def ReadBack (registry : Registry) (built : BuiltEvent) : Prop :=
  ∃ row read, insertEvent built.row = some row ∧ envelopeOf registry row = some read ∧
    SameEnvelope read built.envelope

def EventRequest.hollow (request : EventRequest) : Bool :=
  !request.isEmpty && request.traceId.value.isNone && request.ip.value.isNone &&
    request.userAgent.value.isNone

def UncheckedEvent.hollow (event : UncheckedEvent) : Bool := event.request.value.any (·.hollow)

/-- Every string of the event's objects is well-formed, and its data holds JSON values only. -/
def UncheckedEvent.isJson (event : UncheckedEvent) : Bool :=
  areJsonMembers (event.actor.entry "actor" (.obj .plain ·.members) ++
    event.subject.entry "subject" (.obj .plain ·.members) ++
    event.client.entry "client" (.obj .plain ·.members) ++
    event.request.entry "request" (.obj .plain ·.members)) &&
    areJsonMembers ((recordOf event.data.val).getD [])

variable {members : List (JsString × JsValue)} {key : String} {s : JsString}

/-- The event's objects are JSON exactly when the envelope's are. -/
theorem isJson_iff_clean {definition : EventTypeDefinition} {event : UncheckedEvent}
    {id time : JsString} {data : List (JsString × JsValue)}
    (hdata : recordOf event.data.val = some data) :
    event.isJson = true ↔ Clean (envelopeFor definition event id time data) := by
  have hobj : ∀ {α : Type} (f : α → List (JsString × JsValue)) (a : α),
      (JsValue.obj .plain (f a)).isUndefined = false := fun f a ↦ rfl
  rw [UncheckedEvent.isJson, Bool.and_eq_true, areJsonMembers_append, areJsonMembers_append,
    areJsonMembers_append, areJsonMembers_entry (hobj _), areJsonMembers_entry (hobj _),
    areJsonMembers_entry (hobj _), areJsonMembers_entry (hobj _), hdata]
  simp only [Bool.and_eq_true, Option.all_eq_true, JsValue.isJson, Option.getD_some]
  constructor
  · rintro ⟨⟨⟨⟨hactor, hsubject⟩, hclient⟩, hrequest⟩, hdata⟩
    exact ⟨hactor, hsubject, hclient,
      fun a ha ↦ hrequest a (Option.filter_eq_some_iff.mp ha).1, hdata⟩
  · intro h
    refine ⟨⟨⟨⟨h.actor, h.subject⟩, h.client⟩, fun a ha ↦ ?_⟩, h.data⟩
    by_cases hempty : a.isEmpty = true
    · rw [areJsonMembers_request]
      obtain ⟨traceId, ip, userAgent⟩ := a
      cases traceId <;> cases ip <;> cases userAgent <;>
        simp_all [EventRequest.isEmpty, Member.isOwn, Member.value]
    · exact h.request a (Option.filter_eq_some_iff.mpr ⟨ha, by simpa using hempty⟩)

/-! ### An event that is accepted -/

mutual

theorem holdsNul_of_nulPaths (path : JsString) :
    ∀ v : JsValue, nulPaths path v = [] → v.holdsNul = false
  | .str s, h => by
    rw [nulPaths] at h
    rw [JsValue.holdsNul]
    split at h
    · cases h
    · exact Bool.eq_false_iff.mpr ‹_›
  | .arr items, h => holdNul_of_nulItems path 0 items h
  | .obj _ members, h => holdNul_of_nulMembers path members h
  | .undefined, _ => rfl
  | .null, _ => rfl
  | .bool _, _ => rfl
  | .nan, _ => rfl
  | .num _, _ => rfl
  | .other _, _ => rfl

theorem holdNul_of_nulItems (path : JsString) (i : ℕ) :
    ∀ items : List (Option JsValue), nulItems path i items = [] → itemsHoldNul items = false
  | [], _ => rfl
  | none :: items, h => holdNul_of_nulItems path (i + 1) items h
  | some v :: items, h => by
    obtain ⟨hv, hitems⟩ := List.append_eq_nil_iff.mp h
    rw [itemsHoldNul, holdsNul_of_nulPaths _ v hv, holdNul_of_nulItems path (i + 1) items hitems]
    rfl

theorem holdNul_of_nulMembers (path : JsString) :
    ∀ members : List (JsString × JsValue), nulMembers path members = [] →
      membersHoldNul members = false
  | [], _ => rfl
  | (key, v) :: members, h => by
    rw [nulMembers, List.append_eq_nil_iff, List.append_eq_nil_iff] at h
    obtain ⟨⟨hkey, hv⟩, hmembers⟩ := h
    rw [membersHoldNul, holdsNul_of_nulPaths _ v hv, holdNul_of_nulMembers path members hmembers]
    split at hkey
    · cases hkey
    · rename_i hclean
      rw [Bool.eq_false_iff.mpr hclean]
      rfl

end

/-- What is known of an event that is accepted. -/
structure Accepted (registry : Registry) (event : UncheckedEvent) (now : ℤ) (built : BuiltEvent) :
    Prop where
  row : built.row = rowOf built.envelope now
  made : ∃ definition id time data, registry.getEventType event.type = some definition ∧
    registry.toISOString now = some time ∧ recordOf event.data.val = some data ∧
    (∃ n, id = units (String.ofList (UuidText.text n))) ∧
    built.envelope = envelopeFor definition event id (units time) data
  valid : built.envelope.valid registry = true
  nul : built.envelope.value.holdsNul = false

theorem accepted_of_buildEvent {registry : Registry} {random : Vector UInt8 16}
    {event : UncheckedEvent} {now : ℤ} {built : BuiltEvent}
    (h : buildEvent registry random event now = .ok built) :
    Accepted registry event now built := by
  simp only [buildEvent, parseEvent, bind_eq_ok_iff, require_eq_ok_iff, refuseIf_eq_ok_iff,
    pure_eq_ok_iff] at h
  obtain ⟨definition, hdefinition, id, hid, time, htime, data, hdata, envelope,
    ⟨_, hvalid, _, -, rfl⟩, _, hnul, rfl⟩ := h
  obtain ⟨-, hid⟩ := Option.ite_none_right_eq_some.mp hid
  have hid := (Option.some.inj hid).symm
  refine ⟨rfl, ⟨definition, id, time, data, hdefinition, htime, hdata, ⟨_, hid⟩, rfl⟩, ?_, ?_⟩
  · simpa using hvalid
  · exact holdsNul_of_nulPaths _ _ (by simpa using hnul)

theorem holdsNul_of_mem (h : membersHoldNul members = false) {m : JsString × JsValue}
    (hm : m ∈ members) : m.2.holdsNul = false := by
  induction members with
  | nil => cases hm
  | cons m' members ih =>
    rw [membersHoldNul, Bool.or_eq_false_iff, Bool.or_eq_false_iff] at h
    rcases List.mem_cons.mp hm with rfl | hm
    · exact h.1.2
    · exact ih h.2 hm

theorem mem_entry {α : Type} {f : α → JsValue} {m : Member α} {a : α} (h : m.value = some a) :
    (units key, f a) ∈ m.entry key f := by
  cases m with
  | absent => cases h
  | undefined => cases h
  | of b =>
    cases h
    exact List.mem_singleton_self _

theorem mem_part {α : Type} {f : α → List (JsString × JsValue)} {x : Option α} {a : α}
    (h : x = some a) : (units key, JsValue.obj .plain (f a)) ∈ EventEnvelope.part key f x := by
  subst h
  exact List.mem_singleton_self _

theorem type_of_getEventType {registry : Registry} {definition : EventTypeDefinition}
    {type : JsString} (h : registry.getEventType type = some definition) :
    units definition.type = type :=
  of_decide_eq_true (List.find?_some (p := fun d : EventTypeDefinition ↦
    decide (units d.type = type)) h)

/-- The columns take what was accepted, but for values that are no JSON. -/
theorem Accepted.rowFits {registry : Registry} {event : UncheckedEvent} {now : ℤ}
    {built : BuiltEvent} (h : Accepted registry event now built)
    (hchain : ∀ a, built.envelope.actor = some a → ∀ chain, a.delegationChain.value = some chain →
      (chainValue chain).isJson = true)
    (hdata : areJsonMembers built.envelope.data = true) : built.row.Fits := by
  obtain ⟨hrow, ⟨definition, id, time, data, hdefinition, -, -, -, henvelope⟩, hvalid, hnul⟩ := h
  have hmembers : ∀ m ∈ built.envelope.members, m.2.holdsNul = false := fun m ↦ holdsNul_of_mem hnul
  have hstring : ∀ {ms : List (JsString × JsValue)} {k : JsString} {s : JsString},
      (JsValue.obj .plain ms).holdsNul = false → (k, .str s) ∈ ms → s.contains 0 = false :=
    fun hms hm ↦ holdsNul_of_mem hms hm
  simp only [EventEnvelope.members, EventEnvelope.headMembers, List.cons_append, List.nil_append,
    List.append_assoc, List.forall_mem_cons, List.forall_mem_append] at hmembers
  obtain ⟨-, htypeNul, -, -, -, hactor, hsubject, hclient, hrequest, hdataNul, -⟩ := hmembers
  simp only [EventEnvelope.valid, Bool.and_eq_true, Option.all_eq_true] at hvalid
  obtain ⟨⟨⟨⟨-, hactorValid⟩, hsubjectValid⟩, hclientValid⟩, hrequestValid⟩ := hvalid
  have hrequestStrings : ∀ a, built.envelope.request = some a →
      (∀ s, a.traceId.value = some s → hasLength 1 TRACE_ID_MAX s = true) ∧
      (∀ s, a.ip.value = some s → registry.isIp s = true) ∧
      ∀ s, a.userAgent.value = some s → hasLength 0 USER_AGENT_MAX s = true := by
    intro a ha
    have hvalid := hrequestValid a ha
    simp only [EventRequest.valid, Bool.and_eq_true, Option.all_eq_true] at hvalid
    exact ⟨hvalid.1.1, hvalid.1.2, hvalid.2⟩
  have hfits : ∀ {low high : ℕ} {s : JsString}, s.contains 0 = false → hasLength low high s = true →
      fits high s = true := by
    intro low high s hnul hlength
    rw [fits, hnul]
    exact (Bool.and_eq_true_iff.mp hlength).2
  rw [hrow]
  refine ⟨?_, ?_, ?_, ?_, ?_, ?_, ?_, ?_, ?_⟩
  · have htype : built.envelope.type = units definition.type := by
      rw [henvelope]
      exact (type_of_getEventType hdefinition).symm
    have hnul : built.envelope.type.contains 0 = false := htypeNul
    rw [rowOf, fits, hnul, htype, charsOf_units]
    simpa using definition.length_type
  all_goals
    simp only [rowOf, Option.all_eq_true, Option.bind_eq_some_iff, Option.map_eq_some_iff]
  · rintro s ⟨a, ha, hs⟩
    have hactorId := (Bool.and_eq_true_iff.mp (hactorValid a ha)).1
    exact hfits (hstring (hactor _ (mem_part ha)) (List.mem_append_left _
      (List.mem_cons_of_mem _ (mem_entry hs)))) (Option.all_eq_true _ _ |>.mp hactorId s hs)
  · rintro chain ⟨a, ha, hs⟩
    have hnul := holdsNul_of_mem (hactor _ (mem_part ha)) (List.mem_append_right _ (mem_entry hs))
    rw [isStorable, hchain a ha chain hs, hnul]
    rfl
  · rintro s ⟨a, ha, rfl⟩
    exact hfits (hstring (hsubject _ (mem_part ha)) (List.mem_cons_of_mem _ List.mem_cons_self))
      (hsubjectValid a ha)
  · rintro s ⟨a, ha, rfl⟩
    exact hfits (hstring (hclient _ (mem_part ha)) List.mem_cons_self) (hclientValid a ha)
  · rintro s ⟨a, ha, hs⟩
    exact hfits (hstring (hrequest _ (mem_part ha)) (List.mem_append_left _ (List.mem_append_left _
      (mem_entry hs)))) ((hrequestStrings a ha).1 s hs)
  · rintro s ⟨a, ha, hs⟩
    have hnul := hstring (hrequest _ (mem_part ha)) (List.mem_append_left _
      (List.mem_append_right _ (mem_entry hs)))
    rw [fits, hnul]
    exact decide_eq_true (registry.length_of_isIp s ((hrequestStrings a ha).2.1 s hs))
  · rintro s ⟨a, ha, hs⟩
    exact hfits (hstring (hrequest _ (mem_part ha)) (List.mem_append_right _ (mem_entry hs)))
      ((hrequestStrings a ha).2.2 s hs)
  · rw [isStorable, JsValue.isJson, hdata, hdataNul]
    rfl

/-! ### Identifiers -/

theorem asciiLower_asciiLower (u : UInt16) : asciiLower (asciiLower u) = asciiLower u := by
  by_cases h : 0x41 ≤ u ∧ u ≤ 0x5A
  · have hsum : (u + 0x20).toNat = u.toNat + 0x20 := by
      have := UInt16.le_iff_toNat_le.mp h.2
      simp only [UInt16.reduceToNat] at this
      rw [UInt16.toNat_add]
      simp only [UInt16.reduceToNat]
      omega
    have hout : ¬(0x41 ≤ u + 0x20 ∧ u + 0x20 ≤ 0x5A) := by
      have := UInt16.le_iff_toNat_le.mp h.1
      simp only [UInt16.le_iff_toNat_le, hsum, UInt16.reduceToNat] at this ⊢
      omega
    rw [asciiLower, asciiLower, if_pos h, if_neg hout]
  · have hsame : asciiLower u = u := if_neg h
    rw [hsame, hsame]

theorem map_asciiLower_text (n : ℕ) :
    (units (String.ofList (UuidText.text n))).map asciiLower =
      units (String.ofList (UuidText.text n)) := by
  have hdigits : ∀ c ∈ '-' :: UuidText.hexDigits, (unitsOf c).map asciiLower = unitsOf c := by
    decide
  rw [units, String.toList_ofList, List.map_flatMap]
  refine List.flatMap_congr fun c hc ↦ hdigits c ?_
  rcases UuidText.mem_of_mem_fill hc with hc | rfl
  · have hhex := UuidText.isHexDigit_of_mem_toHex hc
    exact List.mem_cons_of_mem _ (List.contains_iff_mem.mp hhex)
  · exact List.mem_cons_self

theorem loneSurrogate_of_isUuid (h : isUuid s = true) : loneSurrogate none s = false := by
  rw [isUuid, Bool.and_eq_true] at h
  have huuid : UuidText.IsUuid ((charsOf s).map Char.toLower) := of_decide_eq_true h.1
  have hnot : '\uFFFD' ∉ charsOf s := by
    intro hmem
    have hlower : Char.toLower '\uFFFD' = '\uFFFD' := by decide
    have hmem : '\uFFFD' ∈ (charsOf s).map Char.toLower :=
      List.mem_map.mpr ⟨_, hmem, hlower⟩
    rcases UuidText.mem_of_isUuid huuid hmem with hhex | hdash
    · revert hhex
      decide
    · revert hdash
      decide
  have hback : (charsOf s).flatMap unitsOf = s := of_decide_eq_true (isWellFormed_of_not_mem hnot)
  rw [← hback]
  exact loneSurrogate_flatMap_unitsOf _ rfl

/-! ### When what is read back is the same -/

/-- A request that the row's columns tell. -/
def Told (envelope : EventEnvelope) : Prop :=
  ∀ request, envelope.request = some request → request.asRead.isEmpty = false

theorem asRead_isEmpty_iff (request : EventRequest) : request.asRead.isEmpty = true ↔
    request.traceId.value = none ∧ request.ip.value = none ∧ request.userAgent.value = none := by
  have hown : ∀ m : Member JsString, m.asRead.isOwn = false ↔ m.value = none := by
    intro m
    cases m <;> simp [Member.asRead, Member.value, Member.ofColumn, Member.isOwn]
  simp [EventRequest.isEmpty, EventRequest.asRead, hown, and_assoc]

theorem map_asText_eq_self_iff {x : Option JsString} :
    x.map asText = x ↔ x.all (!loneSurrogate none ·) = true := by
  cases x with
  | none => simp
  | some s => simp [asText_eq_self_iff]

theorem value_asRead (m : Member JsString) : m.asRead.value = m.value.map asText :=
  Member.value_ofColumn _

theorem content_actor_iff {actor : Actor} : actor.asRead.content = actor.content ↔
    actor.id.value.all (!loneSurrogate none ·) = true := by
  rw [Actor.content, Actor.content, Actor.asRead, value_asRead, Member.value_ofColumn,
    ← map_asText_eq_self_iff]
  simp

theorem content_request_iff {request : EventRequest} : request.asRead.content = request.content ↔
    areJsonMembers request.members = true := by
  rw [EventRequest.content, EventRequest.content, EventRequest.asRead, value_asRead, value_asRead,
    value_asRead, areJsonMembers_request, Bool.and_eq_true, Bool.and_eq_true,
    ← map_asText_eq_self_iff, ← map_asText_eq_self_iff, ← map_asText_eq_self_iff]
  simp [and_assoc]

/-- What is read back is what was emitted, exactly where its texts are well-formed and its request
is told. -/
theorem sameEnvelope_asRead_iff {envelope : EventEnvelope}
    (hid : envelope.id.map asciiLower = envelope.id)
    (hrealm : envelope.realm.map asciiLower = envelope.realm)
    (htype : loneSurrogate none envelope.type = false)
    (hdata : (JsValue.obj .plain (Emission.asRead envelope.data)).Same
      (.obj .plain envelope.data)) :
    SameEnvelope envelope.asRead envelope ↔
      (∀ a, envelope.actor = some a → a.id.value.all (!loneSurrogate none ·) = true) ∧
      (∀ a, envelope.subject = some a → areJsonMembers a.members = true) ∧
      (∀ a, envelope.client = some a → areJsonMembers a.members = true) ∧
      (∀ a, envelope.request = some a → areJsonMembers a.members = true) ∧ Told envelope := by
  have hactor : (envelope.actor.map Actor.asRead).map Actor.content =
      envelope.actor.map Actor.content ↔
        ∀ a, envelope.actor = some a → a.id.value.all (!loneSurrogate none ·) = true := by
    cases envelope.actor with
    | none => simp
    | some a => simp [content_actor_iff]
  have hsubject : (envelope.subject.map fun x ↦ (⟨x.type, asText x.id⟩ : Subject)) =
      envelope.subject ↔
        ∀ a, envelope.subject = some a → areJsonMembers a.members = true := by
    cases envelope.subject with
    | none => simp
    | some a =>
      obtain ⟨type, id⟩ := a
      simp [areJsonMembers_subject, asText_eq_self_iff]
  have hclient : (envelope.client.map fun x ↦ (⟨asText x.id⟩ : Client)) = envelope.client ↔
      ∀ a, envelope.client = some a → areJsonMembers a.members = true := by
    cases envelope.client with
    | none => simp
    | some a =>
      obtain ⟨id⟩ := a
      simp [areJsonMembers_client, asText_eq_self_iff]
  have hrequest : ((envelope.request.map EventRequest.asRead).filter (!·.isEmpty)).map
      EventRequest.content = envelope.request.map EventRequest.content ↔
        (∀ a, envelope.request = some a → areJsonMembers a.members = true) ∧ Told envelope := by
    rw [Told]
    cases envelope.request with
    | none => simp
    | some a =>
      simp only [Option.map_some, Option.filter_some, Option.some.injEq, forall_eq',
        ← content_request_iff]
      cases hempty : a.asRead.isEmpty <;> simp
  constructor
  · intro h
    exact ⟨hactor.mp h.actor, hsubject.mp h.subject, hclient.mp h.client, hrequest.mp h.request⟩
  · rintro ⟨h₁, h₂, h₃, h₄⟩
    exact ⟨hid, asText_eq_self_iff.mpr htype, rfl, hrealm, rfl, hactor.mpr h₁, hsubject.mpr h₂,
      hclient.mpr h₃, hrequest.mpr h₄, hdata⟩

/-! ### The text of what is read back -/

/-- What tells the one also tells the other. -/
theorem map_eq_of_map_eq {α β γ : Type} {f : α → β} {g : α → γ}
    (hfg : ∀ a b, f a = f b → g a = g b) {x y : Option α} (h : x.map f = y.map f) :
    x.map g = y.map g := by
  cases x <;> cases y
  · rfl
  · cases h
  · cases h
  · exact congrArg some (hfg _ _ (Option.some.inj h))

theorem jsonMembers_actor (a b : Actor) (h : a.content = b.content) :
    jsonMembers a.members = jsonMembers b.members := by
  obtain ⟨htype, hid, hchain⟩ : a.type = b.type ∧ a.id.value = b.id.value ∧
      a.delegationChain.value = b.delegationChain.value := by
    simpa [Actor.content] using h
  simp only [Actor.members, List.cons_append, jsonMembers, jsonMembers_append,
    jsonMembers_entry JsValue.isUndefined_str, jsonMembers_entry isUndefined_chainValue, htype, hid,
    hchain]

theorem jsonMembers_request (a b : EventRequest) (h : a.content = b.content) :
    jsonMembers a.members = jsonMembers b.members := by
  obtain ⟨htraceId, hip, huserAgent⟩ : a.traceId.value = b.traceId.value ∧
      a.ip.value = b.ip.value ∧ a.userAgent.value = b.userAgent.value := by
    simpa [EventRequest.content] using h
  simp only [EventRequest.members, jsonMembers_append, jsonMembers_entry JsValue.isUndefined_str,
    htraceId, hip, huserAgent]

theorem SameEnvelope.value {a b : EventEnvelope} (h : SameEnvelope a b) :
    a.value.json.Same b.value.json := by
  have hactor := map_eq_of_map_eq (g := fun x : Actor ↦ ("actor", Json.obj (jsonMembers x.members)))
    (fun x y hxy ↦ by rw [jsonMembers_actor x y hxy]) h.actor
  have hrequest := map_eq_of_map_eq
    (g := fun x : EventRequest ↦ ("request", Json.obj (jsonMembers x.members)))
    (fun x y hxy ↦ by rw [jsonMembers_request x y hxy]) h.request
  have hhead : jsonMembers a.headMembers = jsonMembers b.headMembers := by
    simp only [EventEnvelope.headMembers, jsonMembers_append, jsonMembers_part, hactor, hrequest,
      h.subject, h.client, h.id, h.type, h.time, h.realm, h.category]
  have hdata : ∀ c : EventEnvelope, c.value.json.sorted = .obj (Audit.sortMembers
      (Audit.sortedMembers (jsonMembers c.headMembers) ++
        [("data", (JsValue.obj .plain c.data).json.sorted)])) := by
    intro c
    rw [EventEnvelope.value, JsValue.json_plain, Json.sorted, EventEnvelope.members,
      jsonMembers_append, Audit.sortedMembers_eq_map, List.map_append,
      ← Audit.sortedMembers_eq_map]
    simp [jsonMembers]
  rw [Json.Same, hdata, hdata, hhead, h.data]

theorem SameEnvelope.clean {a b : EventEnvelope} (h : SameEnvelope a b) (hb : Clean b)
    (hdata : areJsonMembers a.data = true) : Clean a where
  actor x hx := by
    have hmap := h.actor
    rw [hx, Option.map_some] at hmap
    obtain ⟨y, hy, hcontent⟩ := Option.map_eq_some_iff.mp hmap.symm
    have hclean := hb.actor y hy
    simp only [Actor.content, Prod.mk.injEq] at hcontent
    rw [areJsonMembers_actor] at hclean ⊢
    rwa [← hcontent.2.1, ← hcontent.2.2]
  subject x hx := hb.subject x (h.subject ▸ hx)
  client x hx := hb.client x (h.client ▸ hx)
  request x hx := by
    have hmap := h.request
    rw [hx, Option.map_some] at hmap
    obtain ⟨y, hy, hcontent⟩ := Option.map_eq_some_iff.mp hmap.symm
    have hclean := hb.request y hy
    simp only [EventRequest.content, Prod.mk.injEq] at hcontent
    rw [areJsonMembers_request] at hclean ⊢
    rwa [← hcontent.1, ← hcontent.2.1, ← hcontent.2.2]
  data := hdata

/-! ### Accepted events -/

section

variable {registry : Registry} {event : UncheckedEvent} {now : ℤ} {built : BuiltEvent}

/-- The identifiers of an accepted event are kept by the columns. -/
theorem Accepted.identifiers (h : Accepted registry event now built) :
    built.envelope.id.map asciiLower = built.envelope.id ∧
      built.envelope.realm.map asciiLower = built.envelope.realm := by
  obtain ⟨definition, id, time, data, -, -, -, ⟨n, hid⟩, henvelope⟩ := h.made
  have hmade : built.envelope.id = id ∧ built.envelope.realm = event.realm.map asciiLower := by
    rw [henvelope]
    exact ⟨rfl, rfl⟩
  rw [hmade.1, hmade.2, hid]
  refine ⟨map_asciiLower_text n, ?_⟩
  rw [List.map_map]
  exact List.map_congr_left fun u _ ↦ asciiLower_asciiLower u

/-- The strings that the program makes itself are well-formed. -/
theorem Accepted.wellFormed (h : Accepted registry event now built) :
    loneSurrogate none built.envelope.id = false ∧ loneSurrogate none built.envelope.type = false ∧
      loneSurrogate none built.envelope.time = false ∧
      loneSurrogate none built.envelope.realm = false := by
  obtain ⟨definition, id, time, data, hdefinition, -, -, ⟨n, hid⟩, henvelope⟩ := h.made
  have hrealm : isUuid built.envelope.realm = true := by
    have hvalid := h.valid
    simp only [EventEnvelope.valid, Bool.and_eq_true] at hvalid
    exact hvalid.1.1.1.1.2
  have hmade : built.envelope.id = id ∧ built.envelope.type = event.type ∧
      built.envelope.time = units time := by
    rw [henvelope]
    exact ⟨rfl, rfl, rfl⟩
  rw [hmade.1, hmade.2.1, hmade.2.2, hid, ← type_of_getEventType hdefinition]
  exact ⟨loneSurrogate_units _, loneSurrogate_units _, loneSurrogate_units _,
    loneSurrogate_of_isUuid hrealm⟩

theorem Accepted.storedAs (h : Accepted registry event now built)
    (hdata : areJsonMembers built.envelope.data = true) :
    StoredAs (.obj .plain built.envelope.data) := by
  obtain ⟨-, ⟨definition, id, time, data, -, -, hrecord, -, henvelope⟩, -, -⟩ := h
  rw [henvelope] at hdata ⊢
  refine stored_spec hdata ?_
  have hnamed := event.data.property
  revert hrecord hnamed
  generalize event.data.val = v
  intro hrecord hnamed
  rw [recordOf.eq_def] at hrecord
  split at hrecord
  · cases hrecord
    exact hnamed
  · cases hrecord
    exact hnamed
  · cases hrecord

theorem same_asRead {members : List (JsString × JsValue)} (h : StoredAs (.obj .plain members)) :
    (JsValue.obj .plain (asRead members)).Same (.obj .plain members) := by
  have hjson := json_toValue (.obj (jsonbOrder (storedMembers (jsonMembers members))))
  rw [JsValue.Same, asRead]
  exact hjson ▸ h.same

/-- The envelope is read back exactly where its parts are JSON and its request is told. -/
theorem Accepted.readBack_iff_clean (h : Accepted registry event now built) :
    ReadBack registry built ↔ Clean built.envelope ∧ Told built.envelope := by
  obtain ⟨hid, hrealm⟩ := h.identifiers
  obtain ⟨-, htype, -, -⟩ := h.wellFormed
  obtain ⟨definition, id, time, data, -, htime, -, -, henvelope⟩ := h.made
  have hread : envelopeOf registry built.row.asRead = some built.envelope.asRead := by
    rw [h.row]
    exact envelopeOf_asRead htime (by rw [henvelope]; rfl)
  constructor
  · rintro ⟨row, read, hinsert, hrow, hsame⟩
    obtain ⟨hfits, rfl⟩ := insertEvent_eq_some_iff.mp hinsert
    rw [hread] at hrow
    cases hrow
    have hstorable := hfits.data
    have hchain := hfits.actorDelegationChain
    rw [h.row] at hstorable hchain
    have hdata : areJsonMembers built.envelope.data = true := (Bool.and_eq_true_iff.mp hstorable).1
    have hstored := same_asRead (h.storedAs hdata)
    obtain ⟨hactor, hsubject, hclient, hrequest, htold⟩ :=
      (sameEnvelope_asRead_iff hid hrealm htype hstored).mp hsame
    refine ⟨⟨fun a ha ↦ ?_, hsubject, hclient, hrequest, hdata⟩, htold⟩
    rw [areJsonMembers_actor, hactor a ha, Bool.true_and, Option.all_eq_true]
    intro chain hvalue
    have hstorable := Option.all_eq_true _ _ |>.mp hchain chain
      (Option.bind_eq_some_iff.mpr ⟨a, ha, hvalue⟩)
    exact (Bool.and_eq_true_iff.mp hstorable).1
  · rintro ⟨hclean, htold⟩
    have hactor : ∀ a, built.envelope.actor = some a →
        a.id.value.all (!loneSurrogate none ·) = true ∧
          a.delegationChain.value.all (fun chain ↦ (chainValue chain).isJson) = true := by
      intro a ha
      rw [← Bool.and_eq_true, ← areJsonMembers_actor]
      exact hclean.actor a ha
    have hfits := h.rowFits (fun a ha chain hvalue ↦
      Option.all_eq_true _ _ |>.mp (hactor a ha).2 chain hvalue) hclean.data
    refine ⟨_, _, insertEvent_eq_some_iff.mpr ⟨hfits, rfl⟩, hread, ?_⟩
    exact (sameEnvelope_asRead_iff hid hrealm htype (same_asRead (h.storedAs hclean.data))).mpr
      ⟨fun a ha ↦ (hactor a ha).1, hclean.subject, hclean.client, hclean.request, htold⟩

theorem Accepted.appended (h : Accepted registry event now built) (hback : ReadBack registry built)
    (sha256 : Sha256) (head : Option Digest) (xid : UInt64) :
    ∃ row, appendToChain sha256 registry head xid built = .ok row := by
  obtain ⟨hclean, -⟩ := h.readBack_iff_clean.mp hback
  obtain ⟨row, read, hinsert, hrow, hsame⟩ := hback
  obtain ⟨hid, htype, htime, hrealm⟩ := h.wellFormed
  have hjson := isJson_value hid htype htime hrealm hclean
  have hdata : areJsonMembers read.data = true := by
    obtain ⟨-, rfl⟩ := insertEvent_eq_some_iff.mp hinsert
    obtain ⟨-, hrow⟩ := Option.ite_none_left_eq_some.mp hrow
    obtain ⟨time, -, rfl⟩ := Option.map_eq_some_iff.mp hrow
    rw [h.row]
    exact (h.storedAs hclean.data).isJson
  have hreadJson : read.value.isJson = true :=
    isJson_value (hsame.id ▸ hid) (hsame.type ▸ htype) (hsame.time ▸ htime) (hsame.realm ▸ hrealm)
      (hsame.clean hclean hdata)
  have htext : ∀ v : JsValue, v.isJson = true → canonicalizeJson v = .ok v.json.sorted.text :=
    fun v hv ↦ serialize_eq_ok_iff.mpr ⟨hv, rfl⟩
  have hhash : ∀ prevHash, eventChainHash sha256 prevHash xid read =
      eventChainHash sha256 prevHash xid built.envelope := by
    intro prevHash
    rw [eventChainHash, eventChainHash, htext _ hjson, htext _ hreadJson,
      show read.value.json.sorted = _ from hsame.value]
  let prevHash := head.getD EVENT_CHAIN_GENESIS_HASH
  obtain ⟨hash, hwritten⟩ : ∃ hash,
      eventChainHash sha256 prevHash xid built.envelope = .ok hash := by
    rw [eventChainHash, htext _ hjson]
    exact ⟨_, rfl⟩
  have hcheck : checkChainRow sha256 registry ⟨row, xid, prevHash, hash⟩ prevHash = none := by
    rw [checkChainRow, if_neg (by simp), hrow]
    simp only [hhash, hwritten, if_true]
  refine ⟨⟨row, xid, prevHash, hash⟩, ?_⟩
  rw [appendToChain, hwritten, hinsert]
  simp only [Except.mapError, require, bind_eq_ok_iff, refuseIf_eq_ok_iff]
  refine ⟨_, rfl, _, rfl, (), ?_, rfl⟩
  rw [hcheck]
  exact Bool.false_ne_true

/-- The request is told exactly where the event's is not hollow. -/
theorem Accepted.told_iff (h : Accepted registry event now built) :
    Told built.envelope ↔ event.hollow = false := by
  obtain ⟨definition, id, time, data, -, -, -, -, henvelope⟩ := h.made
  have hrequest : built.envelope.request = event.request.value.filter (!·.isEmpty) := by
    rw [henvelope]
    rfl
  rw [Told, hrequest, UncheckedEvent.hollow]
  cases event.request.value with
  | none => simp
  | some request =>
    rw [Option.filter_some, Option.any_some, EventRequest.hollow]
    have hnone := asRead_isEmpty_iff request
    cases hempty : request.isEmpty
    · simp only [Bool.not_false, if_true, Option.some.injEq, forall_eq', Bool.true_and]
      rw [← Bool.not_eq_true, hnone]
      simp [Option.isSome_iff_ne_none]
    · simp

/-- What is read back of an accepted event is the envelope that was emitted, and an admin event is
appended to its chain, if and only if the strings of the event are well-formed and its data is JSON,
and its request is no object all of whose members are undefined. -/
theorem readBack_iff (registry : Registry) (random : Vector UInt8 16) (event : UncheckedEvent)
    (now : ℤ) (sha256 : Sha256) (built : BuiltEvent)
    (h : buildEvent registry random event now = .ok built) :
    (ReadBack registry built ∧ (built.row.category = .admin → ∀ head xid,
      ∃ row, appendToChain sha256 registry head xid built = .ok row)) ↔
      event.isJson = true ∧ event.hollow = false := by
  have haccepted := accepted_of_buildEvent h
  obtain ⟨definition, id, time, data, -, -, hdata, -, henvelope⟩ := haccepted.made
  have hclean : event.isJson = true ↔ Clean built.envelope := by
    rw [henvelope]
    exact isJson_iff_clean hdata
  rw [hclean, ← haccepted.told_iff, ← haccepted.readBack_iff_clean]
  exact ⟨fun hback ↦ hback.1, fun hback ↦
    ⟨hback, fun _ head xid ↦ haccepted.appended hback sha256 head xid⟩⟩

end

/-! ### A request of undefined members -/

def sampleRegistry : Registry where
  types := [⟨"urn:qauth:event:admin.change_applied:v1-rc.0", .admin, none, fun _ ↦ true,
    by decide⟩]
  flagged _ := false
  toISOString _ := some "2026-02-23T09:00:00.000Z"
  isDateTime _ := true
  isIp _ := false
  length_of_isIp := nofun

/-- An admin change whose request is `{ traceId }`, with a request of this one. -/
def sampleEvent (traceId : Member JsString) : UncheckedEvent where
  type := units "urn:qauth:event:admin.change_applied:v1-rc.0"
  realm := units "018F3C5E-0000-7000-8000-000000000001"
  actor := .of ⟨.operatorCli, .of (units "root"), .undefined⟩
  subject := .absent
  client := .undefined
  request := .of ⟨traceId, .absent, .absent⟩
  data := ⟨.obj .plain [(units "operation", text "realms.policies.write"),
    (units "target", .obj .plain [(units "type", text "realm"), (units "id", text "r1")]),
    (units "diff", .arr []), (units "approvals", .arr [])], by decide +kernel, trivial,
    ⟨by decide +kernel, trivial, trivial, trivial⟩, trivial, trivial, trivial⟩

theorem exists_built (traceId : Member JsString) (h : traceId = .undefined ∨
    traceId = .of (units "req-1")) : ∃ built, buildEvent sampleRegistry (.replicate 16 7)
      (sampleEvent traceId) 1771837200000 = .ok built := by
  have hisOk : ∀ x : Except EmitError BuiltEvent, x.isOk = true → ∃ built, x = .ok built := by
    intro x hx
    cases x with
    | error => cases hx
    | ok built => exact ⟨built, rfl⟩
  rcases h with rfl | rfl
  · exact hisOk _ (by decide +kernel)
  · exact hisOk _ (by decide +kernel)

theorem readBack_iff_sample : ∃ built,
    buildEvent sampleRegistry (.replicate 16 7) (sampleEvent (.of (units "req-1"))) 1771837200000 =
      .ok built ∧ ReadBack sampleRegistry built := by
  obtain ⟨built, hbuilt⟩ := exists_built (.of (units "req-1")) (.inr rfl)
  have hiff := readBack_iff sampleRegistry _ _ _ (fun _ ↦ EVENT_CHAIN_GENESIS_HASH) built hbuilt
  exact ⟨built, hbuilt, (hiff.mpr ⟨by decide +kernel, by decide +kernel⟩).1⟩

/-- Without a trace id the request is emitted as an empty object, and read back as no request. -/
theorem not_readBack_undefined : ∃ built,
    buildEvent sampleRegistry (.replicate 16 7) (sampleEvent .undefined) 1771837200000 =
      .ok built ∧ ¬ReadBack sampleRegistry built := by
  obtain ⟨built, hbuilt⟩ := exists_built .undefined (.inl rfl)
  have haccepted := accepted_of_buildEvent hbuilt
  refine ⟨built, hbuilt, fun hback ↦ ?_⟩
  have hhollow := haccepted.told_iff.mp (haccepted.readBack_iff_clean.mp hback).2
  revert hhollow
  decide +kernel

end QAuth.Events.Emission
