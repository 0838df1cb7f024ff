import QAuth.Delivery.Queue
import QAuth.Events.Page

/-!
# What a page in flight knows

A page works from what it read earlier. What it read stays true while it holds the stream's lock:
no other page moves the stream's position, and no writer commits an event below the horizon of
the page's snapshot, so the events the page read are for good all the events up to the position
it moves to.
-/

namespace QAuth.Delivery

open Events Transition

variable {log log' : EventLog} {realmId : Uuid} {position : Position} {pageSize horizon : ℕ}
  {events : List Event}

/-! ### Where a page starts and where it moves -/

theorem startPosition_le {st : Stream} {destinations : List EventDeliveryDestination} {now : ℕ}
    {backfillMs : Option ℕ} :
    startPosition log st destinations now backfillMs ≤ .atHorizon log.horizon := by
  cases backfillMs with
  | none => exact le_rfl
  | some backfillMs =>
    simp only [startPosition]
    split
    · exact le_rfl
    · rename_i first rest hfirst
      have hmem := Table.mem_orderBy.mp (hfirst ▸ List.mem_cons_self)
      simp only [backfillWindow, List.mem_filter, Bool.and_eq_true, decide_eq_true_eq] at hmem
      exact Position.le_atHorizon_of_xid_lt hmem.2.1.2

/-- What makes the events a page read the right ones. -/
structure ReadOk (log : EventLog) (realmId : Uuid) (position : Position) (pageSize horizon : ℕ)
    (events : List Event) : Prop where
  sound : ∀ e ∈ events,
    e ∈ log.events ∧ e.realmId = realmId ∧ position < e.position ∧ e.xid < horizon
  complete : ∀ e ∈ log.events, e.realmId = realmId → position < e.position →
    e.position ≤ nextPosition position pageSize horizon events → e ∈ events
  ordered : events.Pairwise fun e e' ↦ e.position ≤ e'.position

/-- A page of the fan-out moves to where a page of the stream ends. -/
theorem nextPosition_eq_pageEnd :
    nextPosition position pageSize horizon events = pageEnd position pageSize horizon events :=
  rfl

/-- A page of the fan-out is a page of the stream that wants the realm's events. -/
theorem readOk_iff : ReadOk log realmId position pageSize horizon events ↔
    PageRead log (·.realmId = realmId) position pageSize horizon events := by
  constructor
  · rintro ⟨sound, complete, ordered⟩
    exact ⟨by simpa using sound, by simpa [nextPosition_eq_pageEnd] using complete, ordered⟩
  · rintro ⟨sound, complete, ordered⟩
    exact ⟨by simpa using sound, by simpa [nextPosition_eq_pageEnd] using complete, ordered⟩

namespace ReadOk

theorem next_cases (h : ReadOk log realmId position pageSize horizon events)
    (hpos : 1 ≤ pageSize) :
    (events.length = pageSize ∧ ∃ last ∈ events, (∀ e ∈ events, e.position ≤ last.position) ∧
      nextPosition position pageSize horizon events = last.position) ∨
    (events.length ≠ pageSize ∧ nextPosition position pageSize horizon events =
      if position.xid < horizon then .atHorizon horizon else position) :=
  (readOk_iff.1 h).pageEnd_cases hpos

/-- A page never moves back. -/
theorem le_next (h : ReadOk log realmId position pageSize horizon events)
    (hpos : 1 ≤ pageSize) : position ≤ nextPosition position pageSize horizon events :=
  (readOk_iff.1 h).le_pageEnd hpos

/-- A page moves to a place at or before the horizon of its snapshot, unless it stays. -/
theorem next_le (h : ReadOk log realmId position pageSize horizon events) (hpos : 1 ≤ pageSize)
    {bound : ℕ} (hposition : position ≤ .atHorizon bound) (hbound : horizon ≤ bound) :
    nextPosition position pageSize horizon events ≤ .atHorizon bound :=
  (readOk_iff.1 h).pageEnd_le hpos hposition hbound

/-- Writers cannot add an event up to where a page moves. -/
theorem «extends» (h : ReadOk log realmId position pageSize horizon events)
    (hpos : 1 ≤ pageSize) (hposition : position ≤ .atHorizon log.horizon)
    (hhorizon : horizon ≤ log.horizon) (hext : log.Extends log') :
    ReadOk log' realmId position pageSize horizon events :=
  readOk_iff.2 ((readOk_iff.1 h).extends hpos hposition hhorizon hext)

end ReadOk

/-- A page reads every event of the realm up to where it moves. -/
theorem readOk_readPage :
    ReadOk log realmId position pageSize log.horizon
      (readPage log realmId position pageSize) :=
  readOk_iff.2 pageRead_page

/-! ### The pages in flight -/

/-- The position a page works from, once it has one. -/
def PagePhase.held : PagePhase → Option Position
  | .locked | .absent => none
  | .starting p | .found p | .read p _ _ => some p

/-- What a page in flight knows about the positions and the events. -/
def PageOk (positions : List PositionRow) (log : EventLog) (page : Page) : Prop :=
  match page.phase with
  | .locked => True
  | .absent => ∀ row ∈ positions, row.stream ≠ page.stream
  | .starting p => (∀ row ∈ positions, row.stream ≠ page.stream) ∧ p ≤ .atHorizon log.horizon
  | .found p =>
    (∀ row ∈ positions, row.stream = page.stream → row.position = p) ∧
      p ≤ .atHorizon log.horizon
  | .read p horizon events =>
    (∀ row ∈ positions, row.stream = page.stream → row.position = p) ∧
      p ≤ .atHorizon log.horizon ∧ horizon ≤ log.horizon ∧
      ReadOk log page.stream.realmId p page.pageSize horizon events

/-- Writers leave a page what it knows. -/
theorem PageOk.extends {positions : List PositionRow} {page : Page}
    (h : PageOk positions log page) (hext : log.Extends log') : PageOk positions log' page := by
  have hle := Position.atHorizon_le_atHorizon hext.horizon_le
  unfold PageOk at h ⊢
  cases hphase : page.phase with
  | locked => trivial
  | absent => simpa only [hphase] using h
  | starting p =>
    simp only [hphase] at h ⊢
    exact ⟨h.1, h.2.trans hle⟩
  | found p =>
    simp only [hphase] at h ⊢
    exact ⟨h.1, h.2.trans hle⟩
  | read p horizon events =>
    simp only [hphase] at h ⊢
    obtain ⟨hrow, hp, hhorizon, hread⟩ := h
    exact ⟨hrow, hp.trans hle, hhorizon.trans hext.horizon_le,
      hread.extends page.pageSize_pos hp hhorizon hext⟩

/-- A page keeps what it knows when its stream's positions are among the old ones. -/
theorem PageOk.of_positions {positions positions' : List PositionRow} {page : Page}
    (h : PageOk positions log page)
    (hsub : ∀ row ∈ positions', row.stream = page.stream → row ∈ positions) :
    PageOk positions' log page := by
  unfold PageOk at h ⊢
  cases hphase : page.phase with
  | locked => trivial
  | absent =>
    simp only [hphase] at h ⊢
    exact fun row hrow heq ↦ h row (hsub row hrow heq) heq
  | starting p =>
    simp only [hphase] at h ⊢
    exact ⟨fun row hrow heq ↦ h.1 row (hsub row hrow heq) heq, h.2⟩
  | found p =>
    simp only [hphase] at h ⊢
    exact ⟨fun row hrow heq ↦ h.1 row (hsub row hrow heq) heq, h.2⟩
  | read p horizon events =>
    simp only [hphase] at h ⊢
    exact ⟨fun row hrow heq ↦ h.1 row (hsub row hrow heq) heq, h.2⟩

namespace FanOutState

variable {lockKey : Stream → ℕ} {s t : FanOutState} {a : FanOutAction}

/-- The invariant of the fan-out: one page and one position for each stream, no position past the
horizon, and every page in flight right about what it read. -/
structure Consistent (s : FanOutState) : Prop where
  pages_nodup : (s.pages.map (·.stream)).Nodup
  positions_nodup : (s.positions.map (·.stream)).Nodup
  positions_le : ∀ row ∈ s.positions, row.position ≤ .atHorizon s.log.horizon
  pages_ok : ∀ page ∈ s.pages, PageOk s.positions s.log page
  keys_nodup : (s.deliveries.map (·.key)).Nodup

theorem position_eq_some_iff (h : (s.positions.map (·.stream)).Nodup) {st : Stream}
    {p : Position} : s.position st = some p ↔ ⟨st, p⟩ ∈ s.positions := by
  constructor
  · intro hp
    obtain ⟨row, hrow, rfl⟩ := Option.map_eq_some_iff.mp hp
    have hst : row.stream = st := by simpa using List.find?_some hrow
    rw [← hst]
    exact List.mem_of_find?_eq_some hrow
  · intro hmem
    cases hfind : s.positions.find? (·.stream = st) with
    | none => simpa using List.find?_eq_none.mp hfind _ hmem
    | some row =>
      have hst : row.stream = st := by simpa using List.find?_some hfind
      have hrow := Table.eq_of_key_eq h (List.mem_of_find?_eq_some hfind) hmem hst
      simp [position, hfind, hrow]

theorem position_eq_none_iff {st : Stream} :
    s.position st = none ↔ ∀ row ∈ s.positions, row.stream ≠ st := by
  simp [position]

/-- Advancing one page leaves the other pages right, and it as right as its new phase is. -/
private theorem Consistent.advance (hs : s.Consistent) (st : Stream) (phase : PagePhase)
    (h : ∀ page ∈ s.pages, page.stream = st →
      PageOk s.positions s.log { page with phase := phase }) : (s.advance st phase).Consistent where
  pages_nodup := by
    have hmap : (s.advance st phase).pages.map (·.stream) = s.pages.map (·.stream) :=
      Table.map_updateWhere fun _ ↦ rfl
    rw [hmap]
    exact hs.pages_nodup
  positions_nodup := hs.positions_nodup
  positions_le := hs.positions_le
  pages_ok page hpage := by
    rcases Table.mem_updateWhere_cases hpage with ⟨hmem, -⟩ | ⟨page₀, hmem, hst, rfl⟩
    · exact hs.pages_ok page hmem
    · exact h page₀ hmem (by simpa using hst)
  keys_nodup := hs.keys_nodup

/-- Ending a page while its stream's position may change leaves the other pages right. -/
private theorem Consistent.finish (hs : s.Consistent) (st : Stream)
    {positions : List PositionRow} {deliveries : List EventDelivery}
    (hnodup : (positions.map (·.stream)).Nodup)
    (hle : ∀ row ∈ positions, row.position ≤ .atHorizon s.log.horizon)
    (hsub : ∀ row ∈ positions, row.stream ≠ st → row ∈ s.positions)
    (hkeys : (deliveries.map (·.key)).Nodup) :
    Consistent { s.finish st with positions := positions, deliveries := deliveries } where
  pages_nodup := (List.filter_sublist.map _).nodup hs.pages_nodup
  positions_nodup := hnodup
  positions_le := hle
  pages_ok page hpage := by
    obtain ⟨hmem, hne⟩ := List.mem_filter.mp hpage
    refine (hs.pages_ok page hmem).of_positions fun row hrow heq ↦ hsub row hrow ?_
    rw [heq]
    simpa using hne
  keys_nodup := hkeys

/-- Every statement of the fan-out keeps the invariant. -/
theorem Consistent.step (hs : s.Consistent) (h : s.step lockKey a = some t) :
    t.Consistent := by
  cases step_cases h with
  | forget request spared =>
    refine ⟨hs.pages_nodup, (List.filter_sublist.map _).nodup hs.positions_nodup,
      fun row hrow ↦ hs.positions_le row (List.mem_filter.mp hrow).1, fun page hpage ↦ ?_,
      hs.keys_nodup⟩
    exact (hs.pages_ok page hpage).of_positions fun row hrow _ ↦ (List.mem_filter.mp hrow).1
  | lock request st lists free =>
    refine ⟨?_, hs.positions_nodup, hs.positions_le, ?_, hs.keys_nodup⟩
    · rw [List.map_cons, List.nodup_cons]
      refine ⟨fun hmem ↦ ?_, hs.pages_nodup⟩
      obtain ⟨page, hpage, hst⟩ := List.mem_map.mp hmem
      exact free page hpage (by rw [hst, newPage])
    · intro page hpage
      rcases List.mem_cons.mp hpage with rfl | hpage
      · trivial
      · exact hs.pages_ok page hpage
  | absent st hnone =>
    refine hs.advance st .absent fun page _ hst ↦ ?_
    subst hst
    exact position_eq_none_iff.mp hnone
  | found st position hsome =>
    refine hs.advance st (.found position) fun page _ hst ↦ ?_
    subst hst
    have hmem := (position_eq_some_iff hs.positions_nodup).mp hsome
    refine ⟨fun row hrow heq ↦ ?_, hs.positions_le _ hmem⟩
    rw [Table.eq_of_key_eq hs.positions_nodup hrow hmem heq]
  | start page mem phase =>
    refine hs.advance page.stream _ fun page' hmem' hst ↦ ?_
    obtain rfl := Table.eq_of_key_eq hs.pages_nodup hmem' mem hst
    have hok := hs.pages_ok page' mem
    simp only [PageOk, phase] at hok
    exact ⟨hok, startPosition_le⟩
  | readEvents page position mem phase =>
    refine hs.advance page.stream _ fun page' hmem' hst ↦ ?_
    obtain rfl := Table.eq_of_key_eq hs.pages_nodup hmem' mem hst
    have hok := hs.pages_ok page' mem
    simp only [PageOk, phase] at hok
    exact ⟨hok.1, hok.2, le_rfl, readOk_readPage⟩
  | commitStart page start ids mem phase =>
    have hok := hs.pages_ok page mem
    simp only [PageOk, phase] at hok
    refine hs.finish page.stream (Table.nodup_insertNew hs.positions_nodup) ?_ ?_ hs.keys_nodup
    · intro row hrow
      rcases Table.mem_insertNew_cases hrow with hrow | rfl
      · exact hs.positions_le row hrow
      · exact hok.2
    · intro row hrow hne
      rcases Table.mem_insertNew_cases hrow with hrow | rfl
      · exact hrow
      · exact absurd rfl hne
  | commitRead page position horizon events ids mem phase fresh =>
    have hok := hs.pages_ok page mem
    simp only [PageOk, phase] at hok
    obtain ⟨-, hposition, hhorizon, hread⟩ := hok
    refine hs.finish page.stream ?_ ?_ ?_ (Table.nodup_insertAllNew hs.keys_nodup)
    · have hmap : (s.commitRead page position horizon events ids).positions.map (·.stream) =
          s.positions.map (·.stream) := Table.map_updateWhere fun _ ↦ rfl
      exact hmap ▸ hs.positions_nodup
    · intro row hrow
      rcases Table.mem_updateWhere_cases hrow with ⟨hrow, -⟩ | ⟨row₀, -, -, rfl⟩
      · exact hs.positions_le row hrow
      · exact hread.next_le page.pageSize_pos hposition hhorizon
    · intro row hrow hne
      rcases Table.mem_updateWhere_cases hrow with ⟨hrow, -⟩ | ⟨row₀, -, hst, rfl⟩
      · exact hrow
      · exact absurd (by simpa using hst) hne
  | abort st =>
    exact hs.finish st hs.positions_nodup hs.positions_le (fun _ hrow _ ↦ hrow) hs.keys_nodup

end FanOutState

namespace Queue

variable {settings : Settings} {s t : Queue} {a : Action}

/-- A worker only changes rows in place: the rest of the fan-out's state stays, and each row keeps
what the fan-out wrote. -/
structure OnlyRows (s t : FanOutState) : Prop where
  log : t.log = s.log
  positions : t.positions = s.positions
  pages : t.pages = s.pages
  origins : t.deliveries.map (·.origin) = s.deliveries.map (·.origin)

theorem WorkerStep.onlyRows {a : WorkerAction} (h : WorkerStep settings s a t) :
    OnlyRows s.fan t.fan := by
  cases h with
  | claim => exact ⟨rfl, rfl, rfl, claim_origins⟩
  | advance | lose => exact ⟨rfl, rfl, rfl, rfl⟩
  | record => exact ⟨rfl, rfl, rfl, record_origins⟩
  | release => exact ⟨rfl, rfl, rfl, release_origins⟩

theorem OnlyRows.mem_origin {s t : FanOutState} (h : OnlyRows s t) {r : EventDelivery}
    (hr : r ∈ t.deliveries) : ∃ r₀ ∈ s.deliveries, r₀.origin = r.origin := by
  have hmem : r.origin ∈ t.deliveries.map (·.origin) := List.mem_map_of_mem hr
  rw [h.origins] at hmem
  exact List.mem_map.mp hmem

theorem OnlyRows.symm {s t : FanOutState} (h : OnlyRows s t) : OnlyRows t s :=
  ⟨h.log.symm, h.positions.symm, h.pages.symm, h.origins.symm⟩

theorem consistent_step (hs : s.fan.Consistent) (h : s.step settings a = some t) :
    t.fan.Consistent := by
  cases step_cases h with
  | writer a log step =>
    have hext := EventLog.step_extends step
    refine ⟨hs.pages_nodup, hs.positions_nodup, fun row hrow ↦ ?_, fun page hpage ↦ ?_,
      hs.keys_nodup⟩
    · exact (hs.positions_le row hrow).trans (Position.atHorizon_le_atHorizon hext.horizon_le)
    · exact (hs.pages_ok page hpage).extends hext
  | fanOut a fan step => exact hs.step step
  | worker a t step =>
    obtain ⟨hlog, hpositions, hpages, horigins⟩ := step.onlyRows
    have hkeys : t.fan.deliveries.map (·.key) = s.fan.deliveries.map (·.key) := by
      simpa [Function.comp_def, EventDelivery.origin] using
        congrArg (List.map fun o ↦ o.2.1) horigins
    refine ⟨hpages ▸ hs.pages_nodup, hpositions ▸ hs.positions_nodup, ?_, ?_,
      hkeys ▸ hs.keys_nodup⟩
    · rw [hpositions, hlog]
      exact hs.positions_le
    · rw [hpages, hpositions, hlog]
      exact hs.pages_ok

end Queue

/-- Every reachable state is consistent. -/
theorem consistent_invariant (settings : Settings) :
    (queueSystem settings).Invariant fun s ↦ s.fan.Consistent where
  initial s h := by
    obtain ⟨hpositions, hdeliveries, hpages, -⟩ := h
    refine ⟨?_, ?_, ?_, ?_, ?_⟩ <;> simp [hpositions, hdeliveries, hpages]
  step _ _ _ hs h := Queue.consistent_step hs h

end QAuth.Delivery
