import QAuth.Delivery.Destination
import QAuth.Delivery.Row

/-!
# The fan-out

A page of the fan-out is one transaction on one stream: under the stream's advisory lock it
reads the stream's position, reads the events after the position and below the horizon of its
snapshot, writes their delivery rows and moves the position. A stream without a position is
started instead. Nothing another transaction does is excluded by the lock except another page of
the same stream, so a page is modelled statement by statement.
-/

namespace QAuth.Delivery

open Events

/-- A row of `event_delivery_positions`: how far the fan-out has read a stream. -/
structure PositionRow where
  stream : Stream
  position : Position

/-- The statement a page in flight reached, with what it has read. -/
inductive PagePhase
  /-- The stream's lock is held. -/
  | locked
  /-- The stream has no position. -/
  | absent
  /-- A start was written, not yet committed. -/
  | starting (start : Position)
  /-- The stream's position was read. -/
  | found (position : Position)
  /-- The events after the position were read, in a snapshot with this horizon. -/
  | read (position : Position) (horizon : ℕ) (events : List Event)

/-- A page in flight: the arguments of `fanOutPage` and how far it got. -/
structure Page where
  stream : Stream
  destinations : List EventDeliveryDestination
  pageSize : ℕ
  now : ℕ
  backfillMs : Option ℕ
  phase : PagePhase
  pageSize_pos : 1 ≤ pageSize

/-- What the fan-out reads and writes. -/
structure FanOutState where
  log : EventLog
  positions : List PositionRow
  deliveries : List EventDelivery
  pages : List Page

/-! ### What a page computes -/

/-- The final events of a realm inside a backfill window, of the types the destinations take. -/
def backfillWindow (log : EventLog) (st : Stream) (destinations : List EventDeliveryDestination)
    (now backfillMs : ℕ) : List Event :=
  log.events.filter fun e ↦
    e.realmId = st.realmId && now ≤ e.time + backfillMs && e.xid < log.horizon &&
      (backfillTypes destinations).all (·.contains e.type)

/-- The position a stream starts at: the horizon, or just before the first event of the
destinations' types inside the backfill window, when there is one below the horizon. -/
def startPosition (log : EventLog) (st : Stream) (destinations : List EventDeliveryDestination)
    (now : ℕ) : Option ℕ → Position
  | none => .atHorizon log.horizon
  | some backfillMs =>
    match Table.orderBy (·.position) (backfillWindow log st destinations now backfillMs) with
    | [] => .atHorizon log.horizon
    | first :: _ => ⟨first.xid, first.seq - 1⟩

/-- The final events of a realm after a position. -/
def unread (log : EventLog) (realmId : Uuid) (position : Position) : List Event :=
  log.events.filter fun e ↦
    e.realmId = realmId && position < e.position && e.xid < log.horizon

/-- The events a page reads. -/
def readPage (log : EventLog) (realmId : Uuid) (position : Position) (pageSize : ℕ) :
    List Event :=
  (Table.orderBy (·.position) (unread log realmId position)).take pageSize

/-- The position a page moves to: its last event when it is full, the horizon when it has read
every event below it, and never backwards. -/
def nextPosition (position : Position) (pageSize horizon : ℕ) (events : List Event) : Position :=
  if events.length = pageSize then events.getLast?.elim position Event.position
  else if position.xid < horizon then .atHorizon horizon
  else position

/-- The event and destination of each delivery a page writes, in its order. -/
def pageMatches (destinations : List EventDeliveryDestination) (events : List Event) :
    List (Event × EventDeliveryDestination) :=
  events.flatMap fun e ↦ (destinations.filter fun d ↦ «matches» d e).map fun d ↦ (e, d)

/-- A new delivery, due at once. -/
def newDelivery (realmId : Uuid) (now : ℕ) (id : Uuid) (e : Event)
    (d : EventDeliveryDestination) : EventDelivery where
  id := id
  destinationKind := d.kind
  destinationId := d.id
  eventId := e.id
  realmId := realmId
  eventXid := e.xid
  eventSeq := e.seq
  eventTime := e.time
  status := .pending
  attemptCount := 0
  nextAttemptAt := now
  lockedUntil := none
  lastStatusCode := none
  lastErrorClass := none
  createdAt := now
  updatedAt := now
  finishedAt := none
  finished_when_done := pending_iff_unfinished
  lease_while_pending := unclaimed_or_pending

/-- The rows a page inserts, with the ids the database drew for them. -/
def pageRows (page : Page) (events : List Event) (ids : List Uuid) : List EventDelivery :=
  (ids.zip (pageMatches page.destinations events)).map fun x ↦
    newDelivery page.stream.realmId page.now x.1 x.2.1 x.2.2

/-! ### The statements -/

namespace FanOutState

def position (s : FanOutState) (st : Stream) : Option Position :=
  (s.positions.find? (·.stream = st)).map (·.position)

/-- The page of a stream in flight, if there is one. -/
def page (s : FanOutState) (st : Stream) : Option Page :=
  s.pages.find? (·.stream = st)

/-- The pages after the page of `st` reached `phase`. -/
def advance (s : FanOutState) (st : Stream) (phase : PagePhase) : FanOutState :=
  { s with pages := Table.updateWhere (·.stream = st) (fun p ↦ { p with phase := phase }) s.pages }

/-- The pages after the transaction of the page of `st` ended: its lock is free again. -/
def finish (s : FanOutState) (st : Stream) : FanOutState :=
  { s with pages := s.pages.filter (·.stream ≠ st) }

end FanOutState

/-- What the nodes that fan out do. A page is named by its stream: the advisory lock lets one
page of a stream past its first statement. -/
inductive FanOutAction
  /-- The fan-out forgets the positions of its kinds' streams that it lists no destination of,
  except those `spared`, written while the statement waited. -/
  | forget (request : FanOutRequest) (spared : List Stream)
  /-- A page takes the stream's lock. A page that finds it taken is `busy` and does nothing. -/
  | lock (request : FanOutRequest) (st : Stream)
  | readPosition (st : Stream)
  | start (st : Stream)
  | readEvents (st : Stream)
  /-- The page writes what it computed and commits; `ids` are the ids of the rows. -/
  | commit (st : Stream) (ids : List Uuid)
  | abort (st : Stream)

namespace FanOutState

/-- The page `request` runs on a stream. -/
def newPage (request : FanOutRequest) (st : Stream) : Page where
  stream := st
  destinations := request.destinationsOf st
  pageSize := request.pageSize
  now := request.now
  backfillMs := request.backfillMs st.kind
  phase := .locked
  pageSize_pos := request.pageSize_pos

/-- Whether a fan-out forgets a stream's position. -/
def forgets (request : FanOutRequest) (spared : List Stream) (st : Stream) : Bool :=
  request.kinds.contains st.kind && !request.lists st && !spared.contains st

/-- A start becomes visible, unless the stream has a position. -/
def commitStart (s : FanOutState) (st : Stream) (start : Position) : FanOutState :=
  { s.finish st with positions := Table.insertNew (·.stream) s.positions ⟨st, start⟩ }

/-- A page's rows and its new position become visible together. -/
def commitRead (s : FanOutState) (page : Page) (position : Position) (horizon : ℕ)
    (events : List Event) (ids : List Uuid) : FanOutState :=
  { s.finish page.stream with
    deliveries := Table.insertAllNew (·.key) s.deliveries (pageRows page events ids)
    positions := Table.updateWhere (·.stream = page.stream)
      (fun row ↦ { row with position := nextPosition position page.pageSize horizon events })
      s.positions }

/-- Whether the database can have drawn these ids for a page's rows. -/
def fresh (s : FanOutState) (page : Page) (events : List Event) (ids : List Uuid) : Prop :=
  ids.length = (pageMatches page.destinations events).length ∧ ids.Nodup ∧
    ∀ id ∈ ids, ∀ r ∈ s.deliveries, r.id ≠ id

instance (s : FanOutState) (page : Page) (events : List Event) (ids : List Uuid) :
    Decidable (s.fresh page events ids) :=
  inferInstanceAs (Decidable (_ ∧ _ ∧ _))

/-- One statement of the fan-out. `lockKey` is the hash the advisory lock of a stream is taken
on; two streams may share one. -/
def step (lockKey : Stream → ℕ) (s : FanOutState) : FanOutAction → Option FanOutState
  | .forget request spared =>
    some { s with positions := s.positions.filter fun row ↦ !forgets request spared row.stream }
  | .lock request st =>
    if request.lists st ∧ ∀ p ∈ s.pages, lockKey p.stream ≠ lockKey st then
      some { s with pages := newPage request st :: s.pages }
    else none
  | .readPosition st =>
    (s.page st).bind fun page ↦
      match page.phase with
      | .locked => some (s.advance st ((s.position st).elim .absent .found))
      | _ => none
  | .start st =>
    (s.page st).bind fun page ↦
      match page.phase with
      | .absent =>
        some (s.advance st
          (.starting (startPosition s.log st page.destinations page.now page.backfillMs)))
      | _ => none
  | .readEvents st =>
    (s.page st).bind fun page ↦
      match page.phase with
      | .found position =>
        some (s.advance st
          (.read position s.log.horizon (readPage s.log st.realmId position page.pageSize)))
      | _ => none
  | .commit st ids =>
    (s.page st).bind fun page ↦
      match page.phase with
      | .starting start => some (s.commitStart st start)
      | .read position horizon events =>
        if s.fresh page events ids then some (s.commitRead page position horizon events ids)
        else none
      | _ => none
  | .abort st => (s.page st).map fun _ ↦ s.finish st

/-- What a statement of the fan-out can do, with what its guards checked. -/
inductive Step (lockKey : Stream → ℕ) (s : FanOutState) : FanOutAction → FanOutState → Prop
  | forget (request : FanOutRequest) (spared : List Stream) :
      Step lockKey s (.forget request spared)
        { s with positions := s.positions.filter fun row ↦ !forgets request spared row.stream }
  | lock (request : FanOutRequest) (st : Stream) (lists : request.lists st = true)
      (free : ∀ p ∈ s.pages, lockKey p.stream ≠ lockKey st) :
      Step lockKey s (.lock request st) { s with pages := newPage request st :: s.pages }
  | absent (st : Stream) (none : s.position st = none) :
      Step lockKey s (.readPosition st) (s.advance st .absent)
  | found (st : Stream) (position : Position) (some : s.position st = some position) :
      Step lockKey s (.readPosition st) (s.advance st (.found position))
  | start (page : Page) (mem : page ∈ s.pages) (phase : page.phase = .absent) :
      Step lockKey s (.start page.stream)
        (s.advance page.stream
          (.starting
            (startPosition s.log page.stream page.destinations page.now page.backfillMs)))
  | readEvents (page : Page) (position : Position) (mem : page ∈ s.pages)
      (phase : page.phase = .found position) :
      Step lockKey s (.readEvents page.stream)
        (s.advance page.stream
          (.read position s.log.horizon
            (readPage s.log page.stream.realmId position page.pageSize)))
  | commitStart (page : Page) (start : Position) (ids : List Uuid) (mem : page ∈ s.pages)
      (phase : page.phase = .starting start) :
      Step lockKey s (.commit page.stream ids) (s.commitStart page.stream start)
  | commitRead (page : Page) (position : Position) (horizon : ℕ) (events : List Event)
      (ids : List Uuid) (mem : page ∈ s.pages) (phase : page.phase = .read position horizon events)
      (fresh : s.fresh page events ids) :
      Step lockKey s (.commit page.stream ids) (s.commitRead page position horizon events ids)
  | abort (st : Stream) : Step lockKey s (.abort st) (s.finish st)

variable {lockKey : Stream → ℕ} {s t : FanOutState} {a : FanOutAction}

theorem page_eq_some {st : Stream} {page : Page} (h : s.page st = some page) :
    page ∈ s.pages ∧ page.stream = st :=
  ⟨List.mem_of_find?_eq_some h, by simpa using List.find?_some h⟩

theorem step_cases (h : s.step lockKey a = some t) : Step lockKey s a t := by
  cases a with
  | forget request spared =>
    cases h
    exact .forget request spared
  | lock request st =>
    simp only [step] at h
    split at h
    · rename_i hguard
      cases h
      exact .lock request st hguard.1 hguard.2
    · cases h
  | readPosition st =>
    obtain ⟨page, -, h⟩ := Option.bind_eq_some_iff.mp h
    split at h
    · cases h
      cases hp : s.position st with
      | none => exact .absent st hp
      | some position => exact .found st position hp
    · cases h
  | start st =>
    obtain ⟨page, hpage, h⟩ := Option.bind_eq_some_iff.mp h
    obtain ⟨hmem, rfl⟩ := page_eq_some hpage
    split at h
    · cases h
      exact .start page hmem ‹_›
    · cases h
  | readEvents st =>
    obtain ⟨page, hpage, h⟩ := Option.bind_eq_some_iff.mp h
    obtain ⟨hmem, rfl⟩ := page_eq_some hpage
    split at h
    · cases h
      exact .readEvents page _ hmem ‹_›
    · cases h
  | commit st ids =>
    obtain ⟨page, hpage, h⟩ := Option.bind_eq_some_iff.mp h
    obtain ⟨hmem, rfl⟩ := page_eq_some hpage
    split at h
    · cases h
      exact .commitStart page _ ids hmem ‹_›
    · split at h
      · cases h
        exact .commitRead page _ _ _ ids hmem ‹_› ‹_›
      · cases h
    · cases h
  | abort st =>
    obtain ⟨page, -, rfl⟩ := Option.map_eq_some_iff.mp h
    exact .abort st

/-! ### What becomes of the rows -/

theorem mem_pageRows {page : Page} {events : List Event} {ids : List Uuid} {r : EventDelivery}
    (h : r ∈ pageRows page events ids) :
    ∃ id ∈ ids, ∃ e ∈ events, ∃ d ∈ page.destinations, «matches» d e = true ∧
      r = newDelivery page.stream.realmId page.now id e d := by
  obtain ⟨⟨id, e, d⟩, hx, rfl⟩ := List.mem_map.mp h
  have hm := (List.of_mem_zip hx).2
  simp only [pageMatches, List.mem_flatMap, List.mem_map, List.mem_filter, Prod.mk.injEq] at hm
  obtain ⟨e', he', d', ⟨hd', hmatch⟩, rfl, rfl⟩ := hm
  exact ⟨id, (List.of_mem_zip hx).1, e', he', d', hd', hmatch, rfl⟩

theorem pageRows_ids {page : Page} {events : List Event} {ids : List Uuid}
    (h : ids.length = (pageMatches page.destinations events).length) :
    (pageRows page events ids).map (·.id) = ids := by
  simp only [pageRows, List.map_map]
  exact List.map_fst_zip h.le

theorem exists_mem_pageRows {page : Page} {events : List Event} {ids : List Uuid} {e : Event}
    {d : EventDeliveryDestination}
    (h : ids.length = (pageMatches page.destinations events).length) (he : e ∈ events)
    (hd : d ∈ page.destinations) (hmatch : «matches» d e = true) :
    ∃ r ∈ pageRows page events ids, r.key = (e.id, d.kind, d.id) := by
  have hm : (e, d) ∈ pageMatches page.destinations events := by
    simp only [pageMatches, List.mem_flatMap, List.mem_map, List.mem_filter, Prod.mk.injEq]
    exact ⟨e, he, d, ⟨hd, hmatch⟩, rfl, rfl⟩
  have hsnd : (ids.zip (pageMatches page.destinations events)).map Prod.snd =
      pageMatches page.destinations events := List.map_snd_zip h.ge
  rw [← hsnd] at hm
  obtain ⟨⟨id, _⟩, hx, rfl⟩ := List.mem_map.mp hm
  exact ⟨_, List.mem_map.mpr ⟨_, hx, rfl⟩, rfl⟩

/-- The fan-out only adds rows, with ids no row has. -/
structure AddsRows (t t' : List EventDelivery) : Prop where
  kept : ∀ r ∈ t, r ∈ t'
  added : ∀ r ∈ t', r ∈ t ∨ r.lockedUntil = none ∧ r.attemptCount = 0 ∧ r.status = .pending
  nodup : (t.map (·.id)).Nodup → (t'.map (·.id)).Nodup

theorem AddsRows.refl (t : List EventDelivery) : AddsRows t t :=
  ⟨fun _ ↦ id, fun _ ↦ .inl, id⟩

theorem commitRead_addsRows {page : Page} {position : Position} {horizon : ℕ}
    {events : List Event} {ids : List Uuid} (h : s.fresh page events ids) :
    AddsRows s.deliveries (s.commitRead page position horizon events ids).deliveries := by
  refine ⟨fun r ↦ Table.mem_insertAllNew_of_mem, fun r hr ↦ ?_, fun hnodup ↦ ?_⟩
  · refine (Table.mem_insertAllNew_cases hr).imp_right fun hr ↦ ?_
    obtain ⟨id, -, e, -, d, -, -, rfl⟩ := mem_pageRows hr
    exact ⟨rfl, rfl, rfl⟩
  · obtain ⟨hlen, hids, hfree⟩ := h
    obtain ⟨new, hnew, hsub⟩ : ∃ new, Table.insertAllNew EventDelivery.key s.deliveries
        (pageRows page events ids) = s.deliveries ++ new ∧
        new.Sublist (pageRows page events ids) := Table.insertAllNew_eq_append
    have hsub' : (new.map (·.id)).Sublist ids := pageRows_ids hlen ▸ hsub.map (·.id)
    change ((Table.insertAllNew EventDelivery.key s.deliveries _).map (·.id)).Nodup
    rw [hnew, List.map_append, List.nodup_append]
    refine ⟨hnodup, hsub'.nodup hids, ?_⟩
    intro x hx y hy hxy
    obtain ⟨r, hr, hrx⟩ := List.mem_map.mp hx
    exact hfree y (hsub'.mem hy) r hr (hrx.trans hxy)

theorem step_addsRows (h : s.step lockKey a = some t) : AddsRows s.deliveries t.deliveries := by
  cases step_cases h with
  | commitRead page position horizon events ids _ _ fresh => exact commitRead_addsRows fresh
  | forget | lock | absent | found | start | readEvents | commitStart | abort =>
    exact .refl _

/-- The fan-out writes no event. -/
theorem step_log (h : s.step lockKey a = some t) : t.log = s.log := by
  cases step_cases h <;> rfl

end FanOutState

/-! ### The offered position -/

/-- A destination a caller knows to be enabled. -/
structure ListedDestination where
  kind : String
  id : String
  realmId : Uuid

/-- The route kinds whose destinations were listed, and every enabled destination of these. -/
structure OfferedDestinations where
  kinds : List String
  destinations : List ListedDestination

namespace OfferedDestinations

/-- The kinds a caller lists; none when it lists nothing. -/
def servedKinds (served : Option OfferedDestinations) : List String :=
  served.elim [] (·.kinds)

def listed (served : Option OfferedDestinations) (realmId : Uuid) : List ListedDestination :=
  (served.elim [] (·.destinations)).filter fun d ↦
    d.realmId = realmId && (servedKinds served).contains d.kind

/-- Whether the position of a kind counts in a realm. -/
def countsKind (served : Option OfferedDestinations) (realmId : Uuid) (kind : String) : Bool :=
  !(servedKinds served).contains kind || (listed served realmId).any (·.kind = kind)

/-- Whether an unfinished delivery counts in a realm. -/
def countsDelivery (served : Option OfferedDestinations) (realmId : Uuid) (r : EventDelivery) :
    Bool :=
  !(servedKinds served).contains r.destinationKind ||
    (listed served realmId).any fun d ↦ d.kind = r.destinationKind && d.id = r.destinationId

end OfferedDestinations

open OfferedDestinations in
/-- The latest position of a realm's stream that every destination has finished: the lowest of
the realm's positions, or the horizon when it has none, and the place just before its oldest
unfinished delivery. `minOffered` is `offeredPosition` with nothing `served`. -/
def offeredPosition (s : FanOutState) (realmId : Uuid) (served : Option OfferedDestinations) :
    Position :=
  let positions := s.positions.filter fun row ↦
    row.stream.realmId = realmId && countsKind served realmId row.stream.kind
  let waiting := s.deliveries.filter fun r ↦
    r.realmId = realmId && r.status = .pending && countsDelivery served realmId r
  let lowest :=
    (Table.orderBy (·.position) positions).head?.elim (.atHorizon s.log.horizon) (·.position)
  match (Table.orderBy (·.position) waiting).head? with
  | none => lowest
  | some oldest =>
    let before : Position := ⟨oldest.eventXid, oldest.eventSeq - 1⟩
    if before < lowest then before else lowest

end QAuth.Delivery
