import QAuth.Events.Page
import QAuth.Events.PositionText
import QAuth.Foundation.Run

/-!
# A reader of the event stream

A reader follows a realm's stream from page to page: it asks for the events after its place that
pass its filter, and goes on from the place the page names. It runs beside the transactions that
write events, which commit in any order.
-/

namespace QAuth.Events

open Guards Transition

/-! ### Rows as a reader gets them -/

/-- How the columns are read back into an envelope. -/
def EVENT_ROW_SCHEMA_VERSION : ℕ := 1

/-- The most events one read returns. -/
def EVENT_READ_LIMIT_MAX : ℤ := 1000

/-- The envelope that the row's writer emitted, as far as the stream is read by it. -/
structure EventEnvelope where
  id : Uuid
  type : String
  time : ℕ
  realm : List Char
  category : EventCategory
  /-- The type and the id of the subject. -/
  subject : Option (String × String)
  client : Option String

/-- An event as a reader gets it. -/
structure StoredEvent where
  position : EventPosition
  event : EventEnvelope

/-- The envelope a row holds. -/
def envelopeOf (row : Event) : Except EventReadError EventEnvelope := do
  refuseIf (row.schemaVersion ≠ EVENT_ROW_SCHEMA_VERSION) (.unreadable row.id row.schemaVersion)
  .ok {
    id := row.id
    type := row.type
    time := row.time
    realm := UuidText.text row.realmId
    category := row.category
    subject := row.subjectType.bind fun type ↦ row.subjectId.map fun id ↦ (type, id)
    client := row.clientId }

def toStoredEvent (row : Event) : Except EventReadError StoredEvent := do
  let position ← encodeEventPosition ⟨UuidText.text row.realmId, row.xid, row.seq⟩
  let event ← envelopeOf row
  .ok ⟨position, event⟩

/-! ### One read -/

/-- Which events a read wants. A time is compared in milliseconds; a number that is no integer is
refused like one out of range. -/
structure EventReadFilters where
  types : Option (List String)
  category : Option EventCategory
  subjectId : Option String
  clientId : Option String
  fromTime : Option ℤ

def isSafeInteger (n : ℤ) : Prop := -(2 ^ 53 - 1) ≤ n ∧ n ≤ 2 ^ 53 - 1

instance (n : ℤ) : Decidable (isSafeInteger n) := inferInstanceAs (Decidable (_ ∧ _))

/-- Whether a row meets the conditions of the filters. -/
def EventReadFilters.wants (filters : EventReadFilters) (e : Event) : Bool :=
  filters.types.all (·.contains e.type) && filters.category.all (e.category = ·) &&
    filters.subjectId.all (e.subjectId = some ·) && filters.clientId.all (e.clientId = some ·) &&
    filters.fromTime.all (· ≤ (e.time : ℤ))

def filterConditions (filters : EventReadFilters) : Except EventReadError (Event → Bool) := do
  refuseIf (filters.fromTime.any (¬ isSafeInteger ·))
    (.type "events: fromTime must be epoch milliseconds")
  .ok filters.wants

/-- A realm's id in lower case. -/
def checkRealmId (realmId : List Char) : Except EventReadError (List Char) := do
  refuseIf (¬ UuidText.IsUuid (realmId.map Char.toLower))
    (.type "events: a read needs the id of the realm it reads, a UUID")
  .ok (realmId.map Char.toLower)

/-- The rows that a read of a realm wants. -/
def matching (realm : List Char) (conditions : Event → Bool) (e : Event) : Bool :=
  e.realmId = UuidText.value realm && conditions e

structure EventPage where
  events : List StoredEvent
  /-- Where to read on from. -/
  next : EventPosition

/-- Read a page of a realm's stream. The horizon and the rows are of one snapshot. -/
def readAfter (log : EventLog) (realmId : List Char) (position : EventPosition) (limit : ℤ)
    (filters : EventReadFilters) : Except EventReadError EventPage := do
  let realm ← checkRealmId realmId
  let start ← decodeEventPosition position
  refuseIf (start.realmId ≠ realm)
    (.position "event position: the position belongs to another realm")
  refuseIf (¬ isSafeInteger limit ∨ limit < 1 ∨ EVENT_READ_LIMIT_MAX < limit)
    (.type "events: the limit must be an integer from 1 to 1000")
  let conditions ← filterConditions filters
  let rows := page log (matching realm conditions) start.place limit.toNat
  let events ← rows.mapM toStoredEvent
  if events.length = limit.toNat then
    .ok ⟨events, events.getLast?.elim position (·.position)⟩
  else
    -- Every matching row below the horizon is in the page, so reading on can start there.
    let horizon : EventPositionParts := ⟨realm, log.horizon, 0⟩
    let order ← compareEventPositions horizon start
    let next ← encodeEventPosition (if 0 < order then horizon else start)
    .ok ⟨events, next⟩

/-! ### A reader beside the writers -/

/-- The event table, the place a reader is at, and what it got. -/
structure Reading where
  log : EventLog
  next : EventPosition
  received : List StoredEvent

inductive ReadingAction
  | writer (a : EventLog.WriterAction)
  | read (limit : ℤ)

section System

variable (realmId : List Char) (filters : EventReadFilters) (first : EventPosition)

/-- A writer takes a step, or the reader reads from its place and goes on from where the page
names. A read that fails leaves it where it is. -/
def Reading.step (s : Reading) : ReadingAction → Option Reading
  | .writer a => (s.log.step a).map fun log ↦ { s with log := log }
  | .read limit =>
    match readAfter s.log realmId s.next limit filters with
    | .ok page => some { s with next := page.next, received := s.received ++ page.events }
    | .error _ => some s

/-- At first there are no events, and the reader is at the position it was given. -/
def readingSystem : System Reading ReadingAction where
  initial s := s.log = .empty ∧ s.next = first ∧ s.received = []
  step := Reading.step realmId filters

end System

/-- The counters are in the range of their columns, and the rows in the layout of this release. -/
structure EventLog.Readable (log : EventLog) : Prop where
  xids : log.nextXid ≤ XID_MAX
  seqs : log.nextSeq ≤ SEQ_MAX
  rows : ∀ e ∈ log.events, e.schemaVersion = EVENT_ROW_SCHEMA_VERSION

/-! ### What a read answers -/

variable {log log' : EventLog} {realmId realm : List Char} {filters : EventReadFilters}
  {first position : EventPosition} {start parts : EventPositionParts} {limit : ℤ}
  {answer : EventPage} {row : Event} {stored : StoredEvent} {rows : List Event}

/-- What the position of a row holds. -/
def partsOf (row : Event) : EventPositionParts := ⟨UuidText.text row.realmId, row.xid, row.seq⟩

theorem toStoredEvent_position (h : toStoredEvent row = .ok stored) :
    decodeEventPosition stored.position = .ok (partsOf row) := by
  simp only [toStoredEvent, bind_eq_ok_iff, Except.ok.injEq] at h
  obtain ⟨position, hposition, event, -, rfl⟩ := h
  exact decodeEventPosition_eq_ok_iff.mpr hposition

theorem exists_toStoredEvent (hrange : (partsOf row).InRange)
    (hversion : row.schemaVersion = EVENT_ROW_SCHEMA_VERSION) :
    ∃ stored, toStoredEvent row = .ok stored := by
  have hposition : ∃ position, encodeEventPosition (partsOf row) = .ok position :=
    ⟨_, encodeEventPosition_eq_ok_iff.mpr ⟨hrange, rfl⟩⟩
  obtain ⟨position, hposition⟩ := hposition
  rw [partsOf] at hposition
  simp only [toStoredEvent, envelopeOf, hposition, bind_eq_ok_iff, refuseIf_eq_ok_iff, hversion]
  simp

/-- The event at the end of a page is the last row's. -/
theorem getLast?_of_forall₂ {α β : Type} {R : α → β → Prop} {xs : List α} {ys : List β}
    (h : List.Forall₂ R xs ys) {x : α} (hx : xs.getLast? = some x) :
    ∃ y, ys.getLast? = some y ∧ R x y := by
  induction h with
  | nil => cases hx
  | @cons x' y' xs ys hxy hrest ih =>
    cases hrest with
    | nil =>
      obtain rfl := Option.some.inj hx
      exact ⟨y', rfl, hxy⟩
    | cons hxy' hrest' =>
      rw [List.getLast?_cons_cons] at hx ⊢
      exact ih hx

/-- The place a position of the realm holds. -/
def EventPositionParts.of (realm : List Char) (p : Position) : EventPositionParts :=
  ⟨realm, p.xid, p.seq⟩

theorem isUuid_of_checkRealmId (h : checkRealmId realmId = .ok realm) : UuidText.IsUuid realm := by
  simp only [checkRealmId, bind_eq_ok_iff, refuseIf_eq_ok_iff, not_not, exists_const,
    Except.ok.injEq] at h
  obtain ⟨huuid, rfl⟩ := h
  exact huuid

/-- A row that is read of a realm names the realm as the read does. -/
theorem text_of_matching {conditions : Event → Bool} (hrealm : checkRealmId realmId = .ok realm)
    (h : matching realm conditions row = true) : UuidText.text row.realmId = realm := by
  simp only [matching, Bool.and_eq_true, decide_eq_true_eq] at h
  rw [h.1, UuidText.text_value (isUuid_of_checkRealmId hrealm)]

theorem readAfter_spec (h : readAfter log realmId position limit filters = .ok answer) :
    ∃ realm start, checkRealmId realmId = .ok realm ∧ decodeEventPosition position = .ok start ∧
      start.realmId = realm ∧ 1 ≤ limit.toNat ∧
      (page log (matching realm filters.wants) start.place limit.toNat).mapM toStoredEvent =
        .ok answer.events ∧
      decodeEventPosition answer.next = .ok (.of realm (pageEnd start.place limit.toNat log.horizon
        (page log (matching realm filters.wants) start.place limit.toNat))) := by
  simp only [readAfter, filterConditions, bind_eq_ok_iff, refuseIf_eq_ok_iff, exists_const,
    not_or, not_not, Except.ok.injEq] at h
  obtain ⟨realm, hrealm, start, hstart, rfl, ⟨-, hlimit, -⟩, _, ⟨-, rfl⟩, events, hevents, h⟩ := h
  have hone : 1 ≤ limit.toNat := by omega
  refine ⟨start.realmId, start, hrealm, hstart, rfl, hone, ?_⟩
  set rows := page log (matching start.realmId filters.wants) start.place limit.toNat with hrows
  have hforall := mapM_eq_ok_iff_forall₂.mp hevents
  have hlength : rows.length = events.length := hforall.length_eq
  have hread : PageRead log (matching start.realmId filters.wants) start.place limit.toNat
      log.horizon rows := pageRead_page
  rcases hread.pageEnd_cases hone with ⟨hfull, last, hlast, -, hend⟩ | ⟨hshort, hend⟩
  · rw [if_pos (hlength ▸ hfull), Except.ok.injEq] at h
    subst h
    have hne : rows ≠ [] := List.ne_nil_of_mem hlast
    have hgetLast := List.getLast?_eq_some_getLast hne
    obtain ⟨stored, hstored, hto⟩ := getLast?_of_forall₂ hforall hgetLast
    have hmem := hread.sound _ (List.getLast_mem hne)
    refine ⟨hevents, ?_⟩
    rw [hstored, Option.elim_some, toStoredEvent_position hto, pageEnd, if_pos hfull, hgetLast,
      Option.elim_some, partsOf, EventPositionParts.of, text_of_matching hrealm hmem.2.1]
    rfl
  · rw [if_neg (hlength ▸ hshort)] at h
    obtain ⟨i, hi, hpos⟩ := compareEventPositions_pos_iff
      (a := ⟨start.realmId, log.horizon, 0⟩) (b := start) rfl
    simp only [hi, bind_eq_ok_iff, Except.ok.injEq] at h
    obtain ⟨_, rfl, next, hnext, rfl⟩ := h
    refine ⟨hevents, ?_⟩
    rw [hend, decodeEventPosition_eq_ok_iff, ← hnext]
    have hiff : 0 < i ↔ start.place.xid < log.horizon := by
      rw [hpos]
      simp only [EventPositionParts.place, Position.lt_iff]
      omega
    by_cases hlt : start.place.xid < log.horizon
    · rw [if_pos (hiff.mpr hlt), if_pos hlt]
      rfl
    · rw [if_neg (mt hiff.mp hlt), if_neg hlt]
      rfl

theorem exists_readAfter (hrealm : checkRealmId realmId = .ok realm)
    (hposition : decodeEventPosition position = .ok start) (hsame : start.realmId = realm)
    (hone : 1 ≤ limit) (hlimit : limit ≤ EVENT_READ_LIMIT_MAX)
    (hfilters : filters.fromTime.all (isSafeInteger ·) = true) (hlog : log.Readable) :
    ∃ answer, readAfter log realmId position limit filters = .ok answer := by
  subst hsame
  set rows := page log (matching start.realmId filters.wants) start.place limit.toNat with hrows
  have hread : PageRead log (matching start.realmId filters.wants) start.place limit.toNat
      log.horizon rows := pageRead_page
  obtain ⟨events, hevents⟩ : ∃ events, rows.mapM toStoredEvent = .ok events := by
    refine exists_mapM_eq_ok fun row hrow ↦ ?_
    obtain ⟨hmem, hmatching, -, hxid⟩ := hread.sound row hrow
    have hseq := (log.wellFormed.seq_range row (mem_written.mpr (.inl hmem))).2
    have hnext := log.horizon_le_nextXid
    have hxids := hlog.xids
    have hseqs := hlog.seqs
    refine exists_toStoredEvent ⟨?_, ?_, ?_⟩ (hlog.rows row hmem)
    · rw [partsOf, text_of_matching hrealm hmatching]
      exact isUuid_of_checkRealmId hrealm
    · show row.xid ≤ XID_MAX
      omega
    · show row.seq ≤ SEQ_MAX
      omega
  have hstart : start.InRange := (encodeEventPosition_eq_ok_iff.mp
    (decodeEventPosition_eq_ok_iff.mp hposition)).1
  have hhorizon : EventPositionParts.InRange ⟨start.realmId, log.horizon, 0⟩ :=
    ⟨hstart.1, log.horizon_le_nextXid.trans hlog.xids, Nat.zero_le _⟩
  have hsafe : isSafeInteger limit := by
    rw [EVENT_READ_LIMIT_MAX] at hlimit
    exact ⟨by omega, by omega⟩
  have hany : ¬ filters.fromTime.any (¬ isSafeInteger ·) = true := by
    cases hfrom : filters.fromTime with
    | none => exact Bool.false_ne_true
    | some n => simpa [hfrom] using hfilters
  simp only [readAfter, filterConditions, bind_eq_ok_iff, refuseIf_eq_ok_iff, exists_const,
    not_or, not_not, Except.ok.injEq]
  by_cases hfull : events.length = limit.toNat
  · exact ⟨_, start.realmId, hrealm, start, hposition, rfl, ⟨hsafe, by omega, by omega⟩,
      filters.wants, ⟨hany, rfl⟩, events, hevents, if_pos hfull⟩
  · obtain ⟨i, hi, -⟩ := compareEventPositions_pos_iff
      (a := ⟨start.realmId, log.horizon, 0⟩) (b := start) rfl
    have hrange : EventPositionParts.InRange
        (if 0 < i then ⟨start.realmId, log.horizon, 0⟩ else start) := by
      split
      · exact hhorizon
      · exact hstart
    obtain ⟨next, hnext⟩ : ∃ next, encodeEventPosition
        (if 0 < i then ⟨start.realmId, log.horizon, 0⟩ else start) = .ok next :=
      ⟨_, encodeEventPosition_eq_ok_iff.mpr ⟨hrange, rfl⟩⟩
    refine ⟨⟨events, next⟩, start.realmId, hrealm, start, hposition, rfl,
      ⟨hsafe, by omega, by omega⟩, filters.wants, ⟨hany, rfl⟩, events, hevents,
      (if_neg hfull).trans ?_⟩
    simp only [hi, bind_eq_ok_iff, Except.ok.injEq]
    exact ⟨i, rfl, next, hnext, rfl⟩

end QAuth.Events
