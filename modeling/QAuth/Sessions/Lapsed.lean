import QAuth.Foundation.Double
import QAuth.Foundation.Sql
import QAuth.Sessions.System

/-!
# Sessions past an end

The sweep that marks sessions past an end (`revokeLapsedBatch` of `sessions.repository.ts`) against
the rule the session service reads by (`lifetimes.ts`). The sweep compares 64-bit integers in SQL,
where a realm without an idle limit has a null idle end; the service compares numbers, whose sums
past `2 ^ 53` are rounded.

The sweep names the end that came first and marks the session at the sweep's own time. The service
names the absolute end wherever it has passed, so past both ends the two may differ.
-/

namespace QAuth.Sessions

open Table
open QAuth.Token (Uuid)

/-! ### The rule of the service -/

/-- `RealmSessionLifetimes`. -/
structure RealmSessionLifetimes where
  maxLifespanSeconds : Option ℕ
  idleTimeoutSeconds : Option ℕ

/-- `lifetimesOf`. -/
def lifetimesOf (realm : Realm) : RealmSessionLifetimes :=
  ⟨realm.ssoMaxLifespan, realm.ssoIdleTimeout⟩

/-- Where a session stands at a given moment. -/
inductive SessionVerdict
  | live | ended | idle
deriving DecidableEq

/-- When a session ends; `idle` is `none` without an idle limit. -/
structure SessionEnds where
  absolute : ℕ
  idle : Option ℕ

/-- The ends of a session under its realm's lifetimes. -/
def sessionEnds (record : Session) (lifetimes : RealmSessionLifetimes)
    (defaultMaxLifespanSeconds : ℕ) : SessionEnds :=
  let maxLifespanMs :=
    Double.mul (lifetimes.maxLifespanSeconds.getD defaultMaxLifespanSeconds) 1000
  { absolute := min record.expiresAt (Double.add record.createdAt maxLifespanMs)
    idle := lifetimes.idleTimeoutSeconds.map fun seconds ↦
      Double.add record.lastSeenAt (Double.mul seconds 1000) }

/-- The earlier of a session's two ends. -/
def sessionEnd (ends : SessionEnds) : ℕ :=
  match ends.idle with
  | none => ends.absolute
  | some idle => min ends.absolute idle

/-- Where a session with these ends stands at `now`. -/
def sessionVerdict (ends : SessionEnds) (now : ℕ) : SessionVerdict :=
  if ends.absolute ≤ now then .ended
  else if ends.idle.any (· ≤ now) then .idle
  else .live

/-- The reason that a mark gives for a verdict, as `listedSessionOf` shows them. -/
def SessionVerdict.reason : SessionVerdict → Option SessionRevokedReason
  | .ended => some .expired
  | .idle => some .idle
  | .live => none

/-! ### The sweep -/

/-- A batch: the time it judges the ends at, `SESSION_COOKIE_TTL`, the last session of the batch
before it and the most sessions to end. `defaultMaxLifespanMs` is what the driver writes for the
product of `SESSION_COOKIE_TTL` and 1000. -/
structure LapsedBatch where
  now : ℕ
  defaultMaxLifespanSeconds : ℕ
  defaultMaxLifespanMs : ℕ
  after : Option Uuid
  limit : ℕ
  now_safe : now < 2 ^ 53
  seconds_safe : defaultMaxLifespanSeconds < 2 ^ 53
  ms_agrees : Double.Agrees defaultMaxLifespanMs (defaultMaxLifespanSeconds * 1000)
  ms_le : defaultMaxLifespanMs ≤ 2 ^ 53 * 1000

section Statement

variable (batch : LapsedBatch) (realm : Realm) (session : Session)

/-- `absoluteEnd`. -/
def absoluteEndSql : Sql.BigInt :=
  Sql.least (Sql.value session.expiresAt)
    (Sql.add (Sql.value session.createdAt)
      (Sql.coalesce (Sql.mul (Sql.column (realm.ssoMaxLifespan.map Int.ofNat)) (Sql.value 1000))
        (Sql.value batch.defaultMaxLifespanMs)))

/-- `idleEnd`. -/
def idleEndSql : Sql.BigInt :=
  Sql.add (Sql.value session.lastSeenAt)
    (Sql.mul (Sql.column (realm.ssoIdleTimeout.map Int.ofNat)) (Sql.value 1000))

/-- `lapsed`. -/
def lapsedSql : Sql.Cond :=
  Sql.or (Sql.le (absoluteEndSql batch realm session) (Sql.value batch.now))
    (Sql.and (Sql.isNotNull (Sql.column (realm.ssoIdleTimeout.map Int.ofNat)))
      (Sql.le (idleEndSql realm session) (Sql.value batch.now)))

/-- The reason that the update sets. -/
def revokedReasonSql : Except Sql.Error SessionRevokedReason :=
  Sql.caseWhen (Sql.lt (idleEndSql realm session) (absoluteEndSql batch realm session))
    .idle .expired

variable (db : Tables)

def selectedRow : Except Sql.Error (Option Session) :=
  match db.realmOf session with
  | none => pure none
  | some realm => do
    let lapsed ← lapsedSql batch realm session
    return if session.revokedAt = none ∧ (∀ id ∈ batch.after, id < session.id) ∧
      lapsed = some true then some session else none

/-- The update of a row, whose `WHERE` asks again whether the session has lapsed. -/
def updatedRow (locked : List Uuid) : Except Sql.Error (Option Session) :=
  match db.realmOf session with
  | none => pure none
  | some realm => do
    let lapsed ← lapsedSql batch realm session
    let reason ← revokedReasonSql batch realm session
    return if session.id ∈ locked ∧ session.revokedAt = none ∧ lapsed = some true then
      some { session with revokedAt := some batch.now, revokedReason := some reason }
    else none

end Statement

/-- `RevokedSessionsBatch`, with the rows as the update returned them. -/
structure RevokedSessionsBatch where
  ended : List Session
  last : Option Uuid
  selected : ℕ

/-- A batch of the sweep, where nothing else is written meanwhile. -/
def revokeLapsedBatch (batch : LapsedBatch) (db : Tables) :
    Except Sql.Error RevokedSessionsBatch := do
  let rows ← Sql.collect (selectedRow batch · db) db.sessions
  let locked := ((orderBy Session.id rows).take batch.limit).map Session.id
  if locked = [] then return ⟨[], none, 0⟩
  let ended ← Sql.collect (updatedRow batch · db locked) db.sessions
  return ⟨ended, locked.getLast?, locked.length⟩

/-! ### The conditions are the rule -/

/-- The columns of a row are safe integers, as the program reads and writes them. -/
structure Session.Safe (session : Session) : Prop where
  expiresAt : session.expiresAt < 2 ^ 53
  createdAt : session.createdAt < 2 ^ 53
  lastSeenAt : session.lastSeenAt < 2 ^ 53

/-- The limits of a realm are safe integers, as `assertSsoLimits` requires. -/
structure Realm.Safe (realm : Realm) : Prop where
  ssoMaxLifespan : ∀ seconds ∈ realm.ssoMaxLifespan, seconds < 2 ^ 53
  ssoIdleTimeout : ∀ seconds ∈ realm.ssoIdleTimeout, seconds < 2 ^ 53

section Rule

variable {batch : LapsedBatch} {realm : Realm} {session : Session} {ends : SessionEnds} {now : ℕ}

/-- The sweep's absolute end, which is never out of range. -/
theorem absoluteEndSql_eq (hsession : session.Safe) (hrealm : realm.Safe) :
    absoluteEndSql batch realm session =
      Sql.value (absoluteEnd batch.defaultMaxLifespanMs realm session) := by
  have hms := batch.ms_le
  have hcreated := hsession.createdAt
  rw [absoluteEndSql, absoluteEnd]
  cases hlifespan : realm.ssoMaxLifespan with
  | none =>
    have hrange : Sql.InRange ((session.createdAt : ℤ) + batch.defaultMaxLifespanMs) := by
      simp only [Sql.InRange]
      omega
    have hmul : Sql.mul (Sql.column none) (Sql.value 1000) = Sql.column none := rfl
    rw [Option.map_none, hmul, Sql.coalesce_none, Sql.add_eq hrange, Sql.least_eq]
    refine congrArg Sql.value ?_
    simp only [Option.map_none, Option.getD_none]
    omega
  | some seconds =>
    have hseconds : seconds < 2 ^ 53 := hrealm.ssoMaxLifespan seconds hlifespan
    have hproduct : Sql.InRange (Int.ofNat seconds * 1000) := by
      simp only [Sql.InRange, Int.ofNat_eq_natCast]
      omega
    have hrange : Sql.InRange ((session.createdAt : ℤ) + Int.ofNat seconds * 1000) := by
      simp only [Sql.InRange, Int.ofNat_eq_natCast]
      omega
    rw [Option.map_some, Sql.column_some, Sql.mul_eq hproduct, Sql.coalesce_value,
      Sql.add_eq hrange, Sql.least_eq]
    refine congrArg Sql.value ?_
    simp only [Int.ofNat_eq_natCast, Option.map_some, Option.getD_some]
    omega

/-- The sweep's idle end, which is never out of range. -/
theorem idleEndSql_eq (hsession : session.Safe) (hrealm : realm.Safe) :
    idleEndSql realm session = Sql.column ((idleEnd realm session).map Int.ofNat) := by
  have hseen := hsession.lastSeenAt
  rw [idleEndSql, idleEnd]
  cases hidle : realm.ssoIdleTimeout with
  | none => rfl
  | some seconds =>
    have hseconds : seconds < 2 ^ 53 := hrealm.ssoIdleTimeout seconds hidle
    have hproduct : Sql.InRange (Int.ofNat seconds * 1000) := by
      simp only [Sql.InRange, Int.ofNat_eq_natCast]
      omega
    have hrange : Sql.InRange ((session.lastSeenAt : ℤ) + Int.ofNat seconds * 1000) := by
      simp only [Sql.InRange, Int.ofNat_eq_natCast]
      omega
    rw [Option.map_some, Sql.column_some, Sql.mul_eq hproduct, Sql.add_eq hrange]
    simp [Sql.value, Sql.column]

/-- `lapsed` is never unknown. -/
theorem lapsedSql_eq (hsession : session.Safe) (hrealm : realm.Safe) :
    lapsedSql batch realm session =
      Sql.bool (isLapsed batch.now batch.defaultMaxLifespanMs realm session) := by
  rw [lapsedSql, absoluteEndSql_eq hsession hrealm, idleEndSql_eq hsession hrealm, Sql.le_eq,
    isLapsed, idleEnd]
  cases realm.ssoIdleTimeout with
  | none =>
    have hidle : Sql.and (Sql.isNotNull (Sql.column none))
        (Sql.le (Sql.column none) (Sql.value batch.now)) = Sql.bool false := rfl
    rw [Option.map_none, Option.map_none, Option.map_none, hidle, Sql.or_eq]
    simp
  | some seconds =>
    simp only [Option.map_some, Sql.column_some, Sql.isNotNull_value, Sql.le_eq, Sql.and_eq,
      Sql.or_eq, Option.any_some, Bool.true_and]
    refine congrArg Sql.bool (Bool.eq_iff_iff.mpr ?_)
    simp only [Int.ofNat_eq_natCast, Bool.or_eq_true, decide_eq_true_eq]
    omega

/-- The end that came first names the reason; a null idle end leaves it to the absolute end. -/
theorem revokedReasonSql_eq (hsession : session.Safe) (hrealm : realm.Safe) :
    revokedReasonSql batch realm session =
      .ok (if (idleEnd realm session).any
        (· < absoluteEnd batch.defaultMaxLifespanMs realm session) then .idle else .expired) := by
  rw [revokedReasonSql, absoluteEndSql_eq hsession hrealm, idleEndSql_eq hsession hrealm, idleEnd]
  cases realm.ssoIdleTimeout with
  | none => rfl
  | some seconds =>
    have hlt : ((Int.ofNat (session.lastSeenAt + seconds * 1000) <
        (absoluteEnd batch.defaultMaxLifespanMs realm session : ℤ)) ↔
        session.lastSeenAt + seconds * 1000 <
          absoluteEnd batch.defaultMaxLifespanMs realm session) := Int.ofNat_lt
    simp only [Option.map_some, Sql.column_some, Sql.lt_eq, Option.any_some, hlt]
    simp [Sql.caseWhen, Sql.bool]

/-- The absolute end of the sweep is the service's. -/
theorem absoluteEnd_eq (hsession : session.Safe) :
    absoluteEnd batch.defaultMaxLifespanMs realm session =
      (sessionEnds session (lifetimesOf realm) batch.defaultMaxLifespanSeconds).absolute := by
  have hlifespan : Double.Agrees
      (Double.mul (realm.ssoMaxLifespan.getD batch.defaultMaxLifespanSeconds) 1000)
      ((realm.ssoMaxLifespan.map (· * 1000)).getD batch.defaultMaxLifespanMs) := by
    cases realm.ssoMaxLifespan with
    | some seconds => exact Double.agrees_mul seconds 1000
    | none =>
      have hproduct : Double.Agrees (Double.mul batch.defaultMaxLifespanSeconds 1000)
          (batch.defaultMaxLifespanSeconds * 1000) := Double.agrees_mul _ _
      have hwritten := batch.ms_agrees
      simp only [Option.getD_none, Option.map_none, Double.Agrees] at hproduct hwritten ⊢
      omega
  have hsum := Double.agrees_add (Double.Agrees.refl session.createdAt) hlifespan
  rw [absoluteEnd, min_comm, ← hsum.min_eq hsession.expiresAt, min_comm]
  rfl

/-- The idle end of the sweep is the service's, or both are past every time there is. -/
theorem idleEnd_agrees :
    (idleEnd realm session = none ∧
      (sessionEnds session (lifetimesOf realm) batch.defaultMaxLifespanSeconds).idle = none) ∨
    ∃ x y, idleEnd realm session = some x ∧
      (sessionEnds session (lifetimesOf realm) batch.defaultMaxLifespanSeconds).idle = some y ∧
      Double.Agrees y x := by
  simp only [idleEnd, sessionEnds, lifetimesOf]
  cases realm.ssoIdleTimeout with
  | none => exact .inl ⟨rfl, rfl⟩
  | some seconds =>
    exact .inr ⟨_, _, rfl, rfl, Double.agrees_add (.refl _) (Double.agrees_mul _ _)⟩

theorem sessionVerdict_ne_live_iff :
    sessionVerdict ends now ≠ .live ↔ ends.absolute ≤ now ∨ ∃ idle ∈ ends.idle, idle ≤ now := by
  rw [sessionVerdict]
  by_cases habsolute : ends.absolute ≤ now
  · simp [habsolute]
  · cases ends.idle <;> simp [habsolute]

/-- A session is no longer live from the earlier of its ends on. -/
theorem sessionEnd_le_iff : sessionEnd ends ≤ now ↔ sessionVerdict ends now ≠ .live := by
  rw [sessionVerdict_ne_live_iff, sessionEnd]
  cases ends.idle <;> simp

/-- The verdict at the end of a session names the end that came first, and the absolute end where
they tie. -/
theorem reason_sessionEnd :
    (sessionVerdict ends (sessionEnd ends)).reason =
      some (if ends.idle.any (· < ends.absolute) then .idle else .expired) := by
  rw [sessionVerdict, sessionEnd]
  cases ends.idle with
  | none => simp [SessionVerdict.reason]
  | some idle =>
    by_cases hlt : idle < ends.absolute
    · have hmin : min ends.absolute idle = idle := min_eq_right hlt.le
      simp [hlt, hmin, not_le.mpr hlt, SessionVerdict.reason]
    · have hmin : min ends.absolute idle = ends.absolute := min_eq_left (not_lt.mp hlt)
      simp [hlt, hmin, SessionVerdict.reason]

/-- The sweep takes a session just where the service finds it not live. -/
theorem isLapsed_iff (hsession : session.Safe) :
    isLapsed batch.now batch.defaultMaxLifespanMs realm session = true ↔
      sessionVerdict (sessionEnds session (lifetimesOf realm) batch.defaultMaxLifespanSeconds)
        batch.now ≠ .live := by
  have hnow := batch.now_safe
  rw [sessionVerdict_ne_live_iff, isLapsed, absoluteEnd_eq hsession]
  obtain ⟨hx, hy⟩ | ⟨x, y, hx, hy, hagrees⟩ :=
    @idleEnd_agrees batch realm session
  · simp [hx, hy]
  · rw [Double.Agrees] at hagrees
    simp only [hx, hy, Option.any_some, Bool.or_eq_true, decide_eq_true_eq, Option.mem_def,
      Option.some.injEq, exists_eq_left']
    omega

/-- The reason the sweep gives is that of the verdict at the session's end. -/
theorem idleFirst_eq (hsession : session.Safe) :
    (idleEnd realm session).any (· < absoluteEnd batch.defaultMaxLifespanMs realm session) =
      (sessionEnds session (lifetimesOf realm) batch.defaultMaxLifespanSeconds).idle.any
        (· < (sessionEnds session (lifetimesOf realm)
          batch.defaultMaxLifespanSeconds).absolute) := by
  have hexpires := hsession.expiresAt
  have habsolute : (sessionEnds session (lifetimesOf realm)
      batch.defaultMaxLifespanSeconds).absolute ≤ session.expiresAt := min_le_left _ _
  rw [absoluteEnd_eq hsession]
  obtain ⟨hx, hy⟩ | ⟨x, y, hx, hy, hagrees⟩ :=
    @idleEnd_agrees batch realm session
  · rw [hx, hy]
  · rw [Double.Agrees] at hagrees
    rw [hx, hy, Option.any_some, Option.any_some, decide_eq_decide]
    omega

end Rule

/-! ### A batch -/

/-- The rows are safe, and a session's id is its own. -/
structure Tables.Sound (db : Tables) : Prop where
  ids : (db.sessions.map Session.id).Nodup
  sessions : ∀ session ∈ db.sessions, session.Safe
  realms : ∀ realm ∈ db.realms, realm.Safe

section Batch

variable {batch : LapsedBatch} {db : Tables} {session marked : Session} {realm : Realm}

/-- A session's ends under its realm. -/
def LapsedBatch.endsOf (batch : LapsedBatch) (realm : Realm) (session : Session) : SessionEnds :=
  sessionEnds session (lifetimesOf realm) batch.defaultMaxLifespanSeconds

/-- A session not yet revoked, after the cursor, that the service finds not live. -/
def LapsedBatch.isDue (batch : LapsedBatch) (db : Tables) (session : Session) : Bool :=
  (db.realmOf session).any fun realm ↦
    session.revokedAt = none ∧ (∀ id ∈ batch.after, id < session.id) ∧
      sessionVerdict (batch.endsOf realm session) batch.now ≠ .live

/-- The row as the sweep marks it: at its own time, for the end that came first. -/
def LapsedBatch.mark (batch : LapsedBatch) (realm : Realm) (session : Session) : Session :=
  { session with
    revokedAt := some batch.now
    revokedReason := (sessionVerdict (batch.endsOf realm session)
      (sessionEnd (batch.endsOf realm session))).reason }

theorem Tables.realmOf_mem (h : db.realmOf session = some realm) : realm ∈ db.realms :=
  List.mem_of_find?_eq_some h

/-- The select never fails, and finds the sessions that are due. -/
theorem selectedRow_eq (hdb : db.Sound) (hsession : session ∈ db.sessions) :
    selectedRow batch session db = .ok (if batch.isDue db session then some session else none) := by
  rw [selectedRow, LapsedBatch.isDue]
  cases hrealm : db.realmOf session with
  | none => rfl
  | some realm =>
    have hsafe : session.Safe := hdb.sessions session hsession
    have hlapsed := @isLapsed_iff batch realm _ hsafe
    dsimp only
    rw [lapsedSql_eq hsafe (hdb.realms realm (Tables.realmOf_mem hrealm))]
    simp only [Sql.bool, Option.any_some, decide_eq_true_eq, LapsedBatch.endsOf, ← hlapsed]
    simp [bind, Except.bind, pure, Except.pure]

/-- The update never fails, and marks the locked sessions that the service finds not live. -/
theorem updatedRow_eq (hdb : db.Sound) (hsession : session ∈ db.sessions) (locked : List Uuid) :
    updatedRow batch session db locked =
      .ok ((db.realmOf session).bind fun realm ↦
        if session.id ∈ locked ∧ session.revokedAt = none ∧
          sessionVerdict (batch.endsOf realm session) batch.now ≠ .live then
        some (batch.mark realm session) else none) := by
  rw [updatedRow]
  cases hrealm : db.realmOf session with
  | none => rfl
  | some realm =>
    have hsafe : session.Safe := hdb.sessions session hsession
    have hrealmSafe : realm.Safe := hdb.realms realm (Tables.realmOf_mem hrealm)
    have hlapsed := @isLapsed_iff batch realm _ hsafe
    dsimp only
    rw [lapsedSql_eq hsafe hrealmSafe, revokedReasonSql_eq hsafe hrealmSafe, idleFirst_eq hsafe]
    simp only [Sql.bool, Option.bind_some, LapsedBatch.endsOf, ← hlapsed, LapsedBatch.mark,
      reason_sessionEnd]
    simp [bind, Except.bind, pure, Except.pure]

def LapsedBatch.locked (batch : LapsedBatch) (db : Tables) : List Uuid :=
  ((orderBy Session.id (db.sessions.filter (batch.isDue db))).take batch.limit).map Session.id

theorem mem_locked_iff (hdb : db.Sound) (hsession : session ∈ db.sessions) :
    session.id ∈ batch.locked db ↔ batch.isDue db session = true ∧
      ((db.sessions.filter (batch.isDue db)).filter fun other ↦
        other.id < session.id).length < batch.limit := by
  have hids : ((db.sessions.filter (batch.isDue db)).map Session.id).Nodup :=
    hdb.ids.sublist (List.filter_sublist.map _)
  rw [LapsedBatch.locked, List.mem_map]
  constructor
  · rintro ⟨row, hrow, hid⟩
    have hmem : row ∈ db.sessions.filter (batch.isDue db) :=
      mem_orderBy.mp (List.mem_of_mem_take hrow)
    obtain rfl : row = session :=
      eq_of_key_eq hdb.ids (List.mem_filter.mp hmem).1 hsession hid
    exact ⟨(List.mem_filter.mp hmem).2, (mem_take_orderBy_iff hids hmem).mp hrow⟩
  · rintro ⟨hdue, hcount⟩
    have hmem : session ∈ db.sessions.filter (batch.isDue db) :=
      List.mem_filter.mpr ⟨hsession, hdue⟩
    exact ⟨session, (mem_take_orderBy_iff hids hmem).mpr hcount, rfl⟩

/-- What a batch returns. -/
theorem revokeLapsedBatch_eq (hdb : db.Sound) :
    ∃ last selected, revokeLapsedBatch batch db = .ok
      ⟨db.sessions.filterMap fun session ↦ (db.realmOf session).bind fun realm ↦
        if session.id ∈ batch.locked db ∧ session.revokedAt = none ∧
          sessionVerdict (batch.endsOf realm session) batch.now ≠ .live then
        some (batch.mark realm session) else none, last, selected⟩ := by
  have hrows : Sql.collect (selectedRow batch · db) db.sessions =
      .ok (db.sessions.filter (batch.isDue db)) := by
    rw [Sql.collect_eq fun session hsession ↦ selectedRow_eq hdb hsession,
      ← List.filterMap_eq_filter]
    rfl
  have hended : Sql.collect (updatedRow batch · db (batch.locked db)) db.sessions = .ok _ :=
    Sql.collect_eq fun session hsession ↦ updatedRow_eq hdb hsession _
  rw [revokeLapsedBatch, hrows]
  change ∃ last selected, (if batch.locked db = [] then
      (pure ⟨[], none, 0⟩ : Except Sql.Error RevokedSessionsBatch)
    else Sql.collect (updatedRow batch · db (batch.locked db)) db.sessions >>= fun ended ↦
      pure ⟨ended, (batch.locked db).getLast?, (batch.locked db).length⟩) =
        .ok ⟨_, last, selected⟩
  by_cases hlocked : batch.locked db = []
  · refine ⟨none, 0, ?_⟩
    rw [if_pos hlocked, hlocked]
    simp [pure, Except.pure]
  · rw [if_neg hlocked, hended]
    exact ⟨_, _, rfl⟩

/-- A batch marks a session that it reaches just where the service finds it not live. It marks it
at the batch's time, no earlier than the session's end, and for the end that came first: the
verdict the service had at that end. -/
theorem revokeLapsedBatch_marks_not_live (batch : LapsedBatch) (db : Tables) (hdb : db.Sound) :
    ∃ result, revokeLapsedBatch batch db = .ok result ∧
      ∀ session ∈ db.sessions, ∀ realm, db.realmOf session = some realm →
        (∀ marked, marked ∈ result.ended ∧ marked.id = session.id ↔
          marked = batch.mark realm session ∧ session.revokedAt = none ∧
            (∀ id ∈ batch.after, id < session.id) ∧
            sessionVerdict (batch.endsOf realm session) batch.now ≠ .live ∧
            ((db.sessions.filter (batch.isDue db)).filter fun other ↦
              other.id < session.id).length < batch.limit) ∧
        (sessionVerdict (batch.endsOf realm session) batch.now ≠ .live →
          sessionEnd (batch.endsOf realm session) ≤ batch.now) := by
  obtain ⟨last, selected, hresult⟩ := @revokeLapsedBatch_eq batch _ hdb
  refine ⟨_, hresult, fun session hsession realm hrealm ↦ ⟨fun marked ↦ ?_, sessionEnd_le_iff.mpr⟩⟩
  have hdue : batch.isDue db session = true ↔ session.revokedAt = none ∧
      (∀ id ∈ batch.after, id < session.id) ∧
      sessionVerdict (batch.endsOf realm session) batch.now ≠ .live := by
    rw [LapsedBatch.isDue, hrealm, Option.any_some, decide_eq_true_eq]
  have hlocked := @mem_locked_iff batch _ _ hdb hsession
  rw [hdue] at hlocked
  dsimp only
  constructor
  · rintro ⟨hmem, hid⟩
    obtain ⟨row, hrow, hmarked⟩ := List.mem_filterMap.mp hmem
    obtain ⟨realm', hrealm', hmarked⟩ := Option.bind_eq_some_iff.mp hmarked
    obtain ⟨⟨hin, -, -⟩, hmarked⟩ := Option.ite_none_right_eq_some.mp hmarked
    obtain rfl : batch.mark realm' row = marked := Option.some.inj hmarked
    obtain rfl : row = session := eq_of_key_eq hdb.ids hrow hsession hid
    obtain rfl : realm' = realm := Option.some.inj (hrealm'.symm.trans hrealm)
    obtain ⟨⟨hrevoked, hafter, hverdict⟩, hcount⟩ := hlocked.mp hin
    exact ⟨rfl, hrevoked, hafter, hverdict, hcount⟩
  · rintro ⟨rfl, hrevoked, hafter, hverdict, hcount⟩
    refine ⟨List.mem_filterMap.mpr ⟨session, hsession, ?_⟩, rfl⟩
    rw [hrealm, Option.bind_some,
      if_pos ⟨hlocked.mpr ⟨⟨hrevoked, hafter, hverdict⟩, hcount⟩, hrevoked, hverdict⟩]

end Batch

namespace LapsedSample

/-- A realm with an idle limit of a second. -/
def realm : Realm := ⟨"r1", none, some 1⟩

/-- A session unused since its creation, with an absolute end after the idle one. -/
def session : Session := ⟨"s1", "r1", "u1", 5000, none, none, 0, 0⟩

def db : Tables := ⟨[realm], [], [session], [], [], []⟩

/-- A sweep past both ends. -/
def batch : LapsedBatch where
  now := 10000
  defaultMaxLifespanSeconds := 86400
  defaultMaxLifespanMs := 86400000
  after := none
  limit := 100
  now_safe := by decide
  seconds_safe := by decide
  ms_agrees := .refl _
  ms_le := by decide

theorem sound_db : db.Sound where
  ids := List.nodup_singleton _
  sessions := by
    rintro s hs
    obtain rfl := List.mem_singleton.mp hs
    exact ⟨by decide, by decide, by decide⟩
  realms := by
    rintro r hr
    obtain rfl := List.mem_singleton.mp hr
    exact ⟨by decide, by decide⟩

end LapsedSample

open LapsedSample in
theorem revokeLapsedBatch_marks_not_live_sample :
    ∃ result, revokeLapsedBatch batch db = .ok result ∧
      { session with revokedAt := some 10000, revokedReason := some .idle } ∈ result.ended := by
  obtain ⟨result, hresult, hmarks⟩ := revokeLapsedBatch_marks_not_live batch db sound_db
  obtain ⟨hmarked, -⟩ := hmarks session (List.mem_singleton_self _) realm rfl
  refine ⟨result, hresult, ((hmarked _).mpr ⟨?_, rfl, nofun, by decide, by decide⟩).1⟩
  rfl

open LapsedSample in
/-- Past both ends the sweep may name another end than the service does at the time, and it never
gives the time of the end. -/
theorem revokeLapsedBatch_names_first_end :
    ¬ ∀ (batch : LapsedBatch) (db : Tables) (result : RevokedSessionsBatch), db.Sound →
      revokeLapsedBatch batch db = .ok result →
      ∀ session ∈ db.sessions, ∀ realm, db.realmOf session = some realm →
        ∀ marked ∈ result.ended, marked.id = session.id →
          marked.revokedReason = (sessionVerdict (batch.endsOf realm session) batch.now).reason ∧
          marked.revokedAt = some (sessionEnd (batch.endsOf realm session)) := by
  intro hclaim
  have hrun : revokeLapsedBatch batch db = .ok
      ⟨[{ session with revokedAt := some 10000, revokedReason := some .idle }], some "s1", 1⟩ := rfl
  have hsame := (hclaim batch db _ sound_db hrun session (List.mem_singleton_self _) realm rfl _
    (List.mem_singleton_self _) rfl).1
  exact absurd hsame (by decide)

end QAuth.Sessions
