import QAuth.Events.Store
import QAuth.Foundation.Table

/-!
# The delivery queue's rows

One row per destination and event is the unit of at-least-once delivery. A claim counts an
attempt and leases the row; the outcome's write names the attempt the claim made, and only finds
the row while that attempt is its latest, the row is not finished and its lease was not given
back.
-/

namespace QAuth.Delivery

open Events

inductive EventDeliveryStatus
  | pending
  | delivered
  | failed
  deriving DecidableEq

/-- The error class of an attempt that reported no outcome. -/
def ATTEMPT_INTERRUPTED : String := "attempt_interrupted"

theorem pending_iff_unfinished :
    EventDeliveryStatus.pending = .pending ↔ (none : Option ℕ) = none := by simp

theorem unclaimed_or_pending :
    (none : Option ℕ) = none ∨ EventDeliveryStatus.pending = .pending := .inl rfl

/-- The layout of the event rows this release writes and reads. -/
def EVENT_ROW_SCHEMA_VERSION : ℕ := 1

/-- A row of `event_deliveries`. All times are epoch milliseconds of the worker's clock. -/
structure EventDelivery where
  id : Uuid
  destinationKind : String
  destinationId : String
  eventId : Uuid
  realmId : Uuid
  eventXid : ℕ
  eventSeq : ℕ
  eventTime : ℕ
  status : EventDeliveryStatus
  /-- The attempts made, counted when a worker claims the row. -/
  attemptCount : ℕ
  /-- When the row is next due: a retry's time, or a lease's end. -/
  nextAttemptAt : ℕ
  /-- The end of the current claim's lease, while a worker holds the row. -/
  lockedUntil : Option ℕ
  lastStatusCode : Option ℕ
  lastErrorClass : Option String
  createdAt : ℕ
  updatedAt : ℕ
  finishedAt : Option ℕ
  /-- The CHECK `event_deliveries_finished_when_done`. -/
  finished_when_done : status = .pending ↔ finishedAt = none
  /-- The CHECK `event_deliveries_lease_while_pending`. -/
  lease_while_pending : lockedUntil = none ∨ status = .pending
  deriving DecidableEq

namespace EventDelivery

/-- The columns of `event_deliveries_event_destination_unique`. -/
def key (r : EventDelivery) : Uuid × String × String :=
  (r.eventId, r.destinationKind, r.destinationId)

/-- The place of the row's event in its realm's stream. -/
def position (r : EventDelivery) : Position := ⟨r.eventXid, r.eventSeq⟩

/-- The columns the fan-out wrote and no other statement touches. -/
def origin (r : EventDelivery) : Uuid × (Uuid × String × String) × Uuid × Position :=
  (r.id, r.key, r.realmId, r.position)

end EventDelivery

/-- The part of a claim that names it: the row and the attempt it made. -/
structure EventDeliveryClaimRef where
  id : Uuid
  attempt : ℕ
  deriving DecidableEq

/-- How an attempt ended, as the queue stores it. -/
inductive EventDeliveryAttemptRecord
  | delivered (statusCode : Option ℕ)
  | retry (nextAttemptAt : ℕ) (statusCode : Option ℕ) (errorClass : String)
  | failed (statusCode : Option ℕ) (errorClass : String)
  /-- No attempt was made: the destination holds its events for now. -/
  | hold (nextAttemptAt : ℕ)
  deriving DecidableEq

/-- The row a claim still holds: the attempt it made is the row's latest, the row is not
finished, and its lease was not given back. -/
def claimed (ref : EventDeliveryClaimRef) (r : EventDelivery) : Bool :=
  r.id = ref.id && r.attemptCount = ref.attempt && r.status = .pending && r.lockedUntil.isSome

theorem claimed_iff {ref : EventDeliveryClaimRef} {r : EventDelivery} :
    claimed ref r = true ↔ r.id = ref.id ∧ r.attemptCount = ref.attempt ∧
      r.status = .pending ∧ r.lockedUntil.isSome = true := by
  simp [claimed, and_assoc]

/-! ### The statements, on one row -/

/-- What the claim's `UPDATE` sets: the attempt is counted and the row leased, unless the
attempts are used up, in which case the row ends `failed`. -/
def claimRow (now leaseEnd maxAttempts : ℕ) (r : EventDelivery) : EventDelivery :=
  { r with
    attemptCount := if r.attemptCount < maxAttempts then r.attemptCount + 1 else r.attemptCount
    status := if r.attemptCount < maxAttempts then .pending else .failed
    lockedUntil := if r.attemptCount < maxAttempts then some leaseEnd else none
    nextAttemptAt := if r.attemptCount < maxAttempts then leaseEnd else r.nextAttemptAt
    lastErrorClass :=
      if r.attemptCount < maxAttempts then r.lastErrorClass else some ATTEMPT_INTERRUPTED
    finishedAt := if r.attemptCount < maxAttempts then none else some now
    updatedAt := now
    finished_when_done := by split <;> simp
    lease_while_pending := by split <;> simp }

/-- What a `hold` sets: the attempt the claim counted is given back, the last failure stays. -/
def holdRow (nextAttemptAt now : ℕ) (r : EventDelivery) : EventDelivery :=
  { r with
    attemptCount := r.attemptCount - 1
    lockedUntil := none
    nextAttemptAt := nextAttemptAt
    updatedAt := now
    lease_while_pending := .inl rfl }

/-- What the outcome of an attempt sets. -/
def recordRow (outcome : EventDeliveryAttemptRecord) (now : ℕ) (r : EventDelivery) :
    EventDelivery :=
  match outcome with
  | .hold nextAttemptAt => holdRow nextAttemptAt now r
  | .delivered statusCode =>
    { r with
      status := .delivered
      lockedUntil := none
      lastStatusCode := statusCode
      lastErrorClass := none
      finishedAt := some now
      updatedAt := now
      finished_when_done := by simp
      lease_while_pending := .inl rfl }
  | .failed statusCode errorClass =>
    { r with
      status := .failed
      lockedUntil := none
      lastStatusCode := statusCode
      lastErrorClass := some errorClass
      finishedAt := some now
      updatedAt := now
      finished_when_done := by simp
      lease_while_pending := .inl rfl }
  | .retry nextAttemptAt statusCode errorClass =>
    { r with
      status := .pending
      lockedUntil := none
      nextAttemptAt := nextAttemptAt
      lastStatusCode := statusCode
      lastErrorClass := some errorClass
      finishedAt := none
      updatedAt := now
      finished_when_done := pending_iff_unfinished
      lease_while_pending := unclaimed_or_pending }

/-- What a release sets: the lease is given back and the attempt still counts. -/
def releaseRow (now : ℕ) (r : EventDelivery) : EventDelivery :=
  { r with
    lockedUntil := none
    nextAttemptAt := now
    lastErrorClass := some ATTEMPT_INTERRUPTED
    updatedAt := now
    lease_while_pending := .inl rfl }

@[simp] theorem claimRow_origin {now leaseEnd maxAttempts : ℕ} (r : EventDelivery) :
    (claimRow now leaseEnd maxAttempts r).origin = r.origin := rfl

@[simp] theorem recordRow_origin {outcome : EventDeliveryAttemptRecord} {now : ℕ}
    (r : EventDelivery) : (recordRow outcome now r).origin = r.origin := by
  cases outcome <;> rfl

@[simp] theorem releaseRow_origin {now : ℕ} (r : EventDelivery) :
    (releaseRow now r).origin = r.origin := rfl

@[simp] theorem recordRow_lockedUntil {outcome : EventDeliveryAttemptRecord} {now : ℕ}
    (r : EventDelivery) : (recordRow outcome now r).lockedUntil = none := by
  cases outcome <;> rfl

/-- Only a hold changes the attempt count, and it gives one attempt back. -/
theorem recordRow_attemptCount (outcome : EventDeliveryAttemptRecord) (now : ℕ)
    (r : EventDelivery) :
    (recordRow outcome now r).attemptCount = r.attemptCount ∨
      (recordRow outcome now r).attemptCount = r.attemptCount - 1 := by
  cases outcome with
  | hold => exact .inr rfl
  | delivered | retry | failed => exact .inl rfl

/-! ### The statements, on the table -/

/-- How many due rows of one destination a claim takes at most. -/
structure EventDeliveryPick where
  kind : String
  id : String
  limit : ℕ
  deriving DecidableEq

structure EventDeliveryClaimRequest where
  picks : List EventDeliveryPick
  now : ℕ
  leaseMs : ℕ
  /-- The attempts a delivery gets. -/
  maxAttempts : ℕ

/-- Whether an event with this id is stored in a layout this release reads. -/
def readable (events : List Event) (eventId : Uuid) : Bool :=
  events.any fun e ↦ e.id = eventId && e.schemaVersion ≤ EVENT_ROW_SCHEMA_VERSION

/-- Whether a row is due for a pick and no other statement holds its row lock
(`FOR UPDATE SKIP LOCKED`). -/
def due (events : List Event) (now : ℕ) (locked : List Uuid) (pick : EventDeliveryPick)
    (r : EventDelivery) : Bool :=
  r.destinationKind = pick.kind && r.destinationId = pick.id && r.status = .pending &&
    r.nextAttemptAt ≤ now && readable events r.eventId && !locked.contains r.id

/-- The rows a claim takes: for each pick its due rows, earliest due first. -/
def picked (events : List Event) (request : EventDeliveryClaimRequest) (locked : List Uuid)
    (t : List EventDelivery) : List Uuid :=
  (request.picks.filter (0 < ·.limit)).flatMap fun pick ↦
    ((Table.orderBy (·.nextAttemptAt) (t.filter (due events request.now locked pick))).take
      pick.limit).map (·.id)

/-- The claim's `UPDATE`. -/
def claim (events : List Event) (request : EventDeliveryClaimRequest) (locked : List Uuid)
    (t : List EventDelivery) : List EventDelivery :=
  Table.updateWhere (fun r ↦ (picked events request locked t).contains r.id)
    (claimRow request.now (request.now + request.leaseMs) request.maxAttempts) t

/-- The claims the `UPDATE` returns: the rows it leased, and not those it ended. -/
def claimRefs (events : List Event) (request : EventDeliveryClaimRequest) (locked : List Uuid)
    (t : List EventDelivery) : List EventDeliveryClaimRef :=
  ((claim events request locked t).filter fun r ↦
    (picked events request locked t).contains r.id && r.status = .pending &&
      r.lockedUntil.isSome).map fun r ↦ ⟨r.id, r.attemptCount⟩

/-- Store how a claimed attempt ended. -/
def record (ref : EventDeliveryClaimRef) (outcome : EventDeliveryAttemptRecord) (now : ℕ)
    (t : List EventDelivery) : List EventDelivery :=
  Table.updateWhere (claimed ref) (recordRow outcome now) t

/-- Give claimed rows back before their lease ends. -/
def release (refs : List EventDeliveryClaimRef) (now : ℕ) (t : List EventDelivery) :
    List EventDelivery :=
  Table.updateWhere (fun r ↦ refs.any fun ref ↦ claimed ref r) (releaseRow now) t

section Cases

variable {refs : List EventDeliveryClaimRef} {ref : EventDeliveryClaimRef}
  {outcome : EventDeliveryAttemptRecord} {now : ℕ} {events : List Event} {request : EventDeliveryClaimRequest} {locked : List Uuid}
  {t : List EventDelivery} {r : EventDelivery}

theorem due_of_mem_picked {id : Uuid} (h : id ∈ picked events request locked t) :
    ∃ r ∈ t, r.id = id ∧ r.status = .pending ∧ r.nextAttemptAt ≤ request.now := by
  simp only [picked, List.mem_flatMap, List.mem_map] at h
  obtain ⟨pick, -, r, hr, rfl⟩ := h
  obtain ⟨hmem, hdue⟩ := List.mem_filter.mp (Table.mem_orderBy.mp (List.mem_of_mem_take hr))
  simp only [due, Bool.and_eq_true, decide_eq_true_eq] at hdue
  exact ⟨r, hmem, rfl, hdue.1.1.1.2, hdue.1.1.2⟩

/-- What a claim did to a row: nothing, or it counted an attempt of a due row and leased it, or
it ended one whose attempts were used up. -/
theorem claim_cases (h : r ∈ claim events request locked t) :
    (r ∈ t ∧ r.id ∉ picked events request locked t) ∨
      ∃ r₀ ∈ t, r₀.id ∈ picked events request locked t ∧
        r = claimRow request.now (request.now + request.leaseMs) request.maxAttempts r₀ := by
  rcases Table.mem_updateWhere_cases h with ⟨hr, hp⟩ | ⟨r₀, hr₀, hp, rfl⟩
  · exact .inl ⟨hr, by simpa using hp⟩
  · exact .inr ⟨r₀, hr₀, by simpa using hp, rfl⟩

/-- What a record did to a row: nothing, or it stored the outcome of the claim that holds it. -/
theorem record_cases (h : r ∈ record ref outcome now t) :
    (r ∈ t ∧ claimed ref r = false) ∨
      ∃ r₀ ∈ t, claimed ref r₀ = true ∧ r = recordRow outcome now r₀ :=
  Table.mem_updateWhere_cases h

/-- What a release did to a row: nothing, or it gave back the lease of a claim that holds it. -/
theorem release_cases (h : r ∈ release refs now t) :
    (r ∈ t ∧ ∀ ref ∈ refs, claimed ref r = false) ∨
      ∃ r₀ ∈ t, (∃ ref ∈ refs, claimed ref r₀ = true) ∧ r = releaseRow now r₀ := by
  rcases Table.mem_updateWhere_cases h with ⟨hr, hp⟩ | ⟨r₀, hr₀, hp, rfl⟩
  · exact .inl ⟨hr, by simpa using hp⟩
  · exact .inr ⟨r₀, hr₀, by simpa using hp, rfl⟩

theorem claim_origins : (claim events request locked t).map (·.origin) = t.map (·.origin) :=
  Table.map_updateWhere fun _ ↦ rfl

theorem record_origins : (record ref outcome now t).map (·.origin) = t.map (·.origin) :=
  Table.map_updateWhere fun _ ↦ recordRow_origin _

theorem release_origins : (release refs now t).map (·.origin) = t.map (·.origin) :=
  Table.map_updateWhere fun _ ↦ rfl

/-- Tables whose rows have the same origins have the same ids. -/
theorem ids_eq_of_origins {t t' : List EventDelivery}
    (h : t'.map (·.origin) = t.map (·.origin)) : t'.map (·.id) = t.map (·.id) := by
  simpa [Function.comp_def, EventDelivery.origin] using congrArg (List.map Prod.fst) h

end Cases

end QAuth.Delivery
