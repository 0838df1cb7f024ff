import QAuth.Delivery.Pages

/-!
# The offered position

The offered position tells a reader up to where the delivery rows are complete. A later fan-out
can still write a row at or before it in three ways: a stream that starts with a backfill window
starts before it; a page in flight works from a position that is not stored, because its start is
not committed or its position was forgotten under it; or the caller's list left out a stream that
is fanned out again from its old position. Without these no later fan-out does.
-/

namespace QAuth.Delivery

open Events Transition

variable {settings : Settings} {s t : Queue} {a : Action} {realmId : Uuid} {p : Position}
  {served : Option OfferedDestinations}

/-! ### The answer is a lower bound -/

section LowerBound

variable {fan : FanOutState}

private theorem offeredPosition_le_lowest :
    offeredPosition fan realmId served ≤
      (Table.orderBy (·.position) (fan.positions.filter fun row ↦
        row.stream.realmId = realmId &&
          OfferedDestinations.countsKind served realmId row.stream.kind)).head?.elim
        (.atHorizon fan.log.horizon) (·.position) := by
  simp only [offeredPosition]
  split
  · exact le_rfl
  · split
    · rename_i hbefore
      exact hbefore.le
    · exact le_rfl

/-- The answer is at or before every position that counts. -/
theorem offeredPosition_le {row : PositionRow} (hrow : row ∈ fan.positions)
    (hrealm : row.stream.realmId = realmId)
    (hcounts : OfferedDestinations.countsKind served realmId row.stream.kind = true) :
    offeredPosition fan realmId served ≤ row.position := by
  refine offeredPosition_le_lowest.trans ?_
  have hmem : row ∈ fan.positions.filter fun row ↦ row.stream.realmId = realmId &&
      OfferedDestinations.countsKind served realmId row.stream.kind :=
    List.mem_filter.mpr ⟨hrow, by simp [hrealm, hcounts]⟩
  obtain ⟨first, hfirst, hle⟩ : ∃ first, (Table.orderBy PositionRow.position _).head? =
    some first ∧ first.position ≤ row.position := Table.exists_head?_orderBy hmem
  rwa [hfirst, Option.elim_some]

/-- The answer is at or before the horizon. -/
theorem offeredPosition_le_horizon (hs : fan.Consistent) :
    offeredPosition fan realmId served ≤ .atHorizon fan.log.horizon := by
  refine offeredPosition_le_lowest.trans ?_
  cases horder : (Table.orderBy (·.position) (fan.positions.filter fun row ↦
      row.stream.realmId = realmId &&
        OfferedDestinations.countsKind served realmId row.stream.kind)).head? with
  | none => exact le_rfl
  | some row =>
    have hmem := Table.mem_orderBy.mp (List.mem_of_head? horder)
    exact hs.positions_le row (List.mem_filter.mp hmem).1

end LowerBound

/-! ### The conditions -/

/-- What was not counted when the realm was answered lies at or past the answer: the positions a
caller's list leaves out, and the position of a page in flight that is not stored, because its
start is not committed yet or its position was forgotten under it. -/
structure AnswerSound (s : FanOutState) (realmId : Uuid) (served : Option OfferedDestinations) :
    Prop where
  leftOut : ∀ row ∈ s.positions, row.stream.realmId = realmId →
    OfferedDestinations.countsKind served realmId row.stream.kind = false →
    offeredPosition s realmId served ≤ row.position
  notStored : ∀ page ∈ s.pages, page.stream.realmId = realmId →
    ∀ p, page.phase.held = some p → s.position page.stream = none →
    offeredPosition s realmId served ≤ p

/-- A step that, if it starts a stream of the realm with a backfill window, finds no event at or
before `p` inside the window. -/
def NoEarlyBackfill (realmId : Uuid) (p : Position) : Queue → Action → Prop
  | s, .fanOut (.start st) => st.realmId = realmId → ∀ page, s.fan.page st = some page →
      ∀ backfillMs, page.backfillMs = some backfillMs →
      ∀ e ∈ backfillWindow s.fan.log st page.destinations page.now backfillMs, p < e.position
  | _, _ => True

/-- A start without a window, or with one that has no early event, is at or past `p`. -/
theorem le_startPosition {log : EventLog} {st : Stream}
    {destinations : List EventDeliveryDestination} {now : ℕ} {backfillMs : Option ℕ}
    (hp : p ≤ .atHorizon log.horizon)
    (h : ∀ ms, backfillMs = some ms →
      ∀ e ∈ backfillWindow log st destinations now ms, p < e.position) :
    p ≤ startPosition log st destinations now backfillMs := by
  cases backfillMs with
  | none => exact hp
  | some ms =>
    simp only [startPosition]
    split
    · exact hp
    · rename_i first rest hfirst
      have hmem := Table.mem_orderBy.mp (hfirst ▸ List.mem_cons_self)
      have hlt := h ms rfl first hmem
      simp only [Position.lt_iff, Position.le_iff, Event.position_xid,
        Event.position_seq] at hlt ⊢
      omega

namespace Queue

/-- Everything the realm's fan-out works from is at or past `p`, and the rows at or before `p` are
among the old ones. -/
structure Past (realmId : Uuid) (p : Position)
    (old : List (Uuid × (Uuid × String × String) × Uuid × Position)) (s : Queue) : Prop where
  consistent : s.fan.Consistent
  bound : p ≤ .atHorizon s.fan.log.horizon
  stored : ∀ row ∈ s.fan.positions, row.stream.realmId = realmId → p ≤ row.position
  inFlight : ∀ page ∈ s.fan.pages, page.stream.realmId = realmId →
    ∀ q, page.phase.held = some q → p ≤ q
  rows : ∀ r ∈ s.fan.deliveries, r.realmId = realmId → r.position ≤ p → r.origin ∈ old

variable {old : List (Uuid × (Uuid × String × String) × Uuid × Position)}

private theorem inFlight_advance {fan : FanOutState} {st : Stream} {phase : PagePhase}
    (hs : ∀ page ∈ fan.pages, page.stream.realmId = realmId →
      ∀ q, page.phase.held = some q → p ≤ q)
    (hphase : st.realmId = realmId → ∀ q, phase.held = some q → p ≤ q) :
    ∀ page ∈ (fan.advance st phase).pages, page.stream.realmId = realmId →
      ∀ q, page.phase.held = some q → p ≤ q := by
  intro page hpage hrealm q hq
  rcases Table.mem_updateWhere_cases hpage with ⟨hmem, -⟩ | ⟨page₀, -, hst, rfl⟩
  · exact hs page hmem hrealm q hq
  · have hst' : page₀.stream = st := by simpa using hst
    exact hphase (hst' ▸ hrealm) q hq

private theorem inFlight_finish {fan : FanOutState} {st : Stream}
    (hs : ∀ page ∈ fan.pages, page.stream.realmId = realmId →
      ∀ q, page.phase.held = some q → p ≤ q) :
    ∀ page ∈ (fan.finish st).pages, page.stream.realmId = realmId →
      ∀ q, page.phase.held = some q → p ≤ q :=
  fun page hpage ↦ hs page (List.mem_filter.mp hpage).1

theorem Past.step (hs : Past realmId p old s) (hadmitted : NoEarlyBackfill realmId p s a)
    (h : s.step settings a = some t) : Past realmId p old t := by
  have ht := consistent_step hs.consistent h
  cases step_cases h with
  | writer a log step =>
    refine ⟨ht, hs.bound.trans (Position.atHorizon_le_atHorizon ?_), hs.stored, hs.inFlight,
      hs.rows⟩
    exact (EventLog.step_extends step).horizon_le
  | worker a t step =>
    have hrows := step.onlyRows
    refine ⟨ht, hrows.log ▸ hs.bound, hrows.positions ▸ hs.stored, hrows.pages ▸ hs.inFlight,
      fun r hr hrealm hle ↦ ?_⟩
    obtain ⟨r₀, hr₀, horigin⟩ := hrows.mem_origin hr
    have hrealm₀ : r₀.realmId = r.realmId := congrArg (·.2.2.1) horigin
    have hposition₀ : r₀.position = r.position := congrArg (·.2.2.2) horigin
    rw [← horigin]
    exact hs.rows r₀ hr₀ (hrealm₀.trans hrealm) (hposition₀ ▸ hle)
  | fanOut a fan step =>
    cases FanOutState.step_cases step with
    | forget =>
      exact ⟨ht, hs.bound, fun row hrow ↦ hs.stored row (List.mem_filter.mp hrow).1, hs.inFlight,
        hs.rows⟩
    | lock request st =>
      refine ⟨ht, hs.bound, hs.stored, fun page hpage hrealm q hq ↦ ?_, hs.rows⟩
      rcases List.mem_cons.mp hpage with rfl | hpage
      · cases hq
      · exact hs.inFlight page hpage hrealm q hq
    | absent st hnone =>
      exact ⟨ht, hs.bound, hs.stored, inFlight_advance hs.inFlight (fun _ _ hq ↦ by cases hq),
        hs.rows⟩
    | found st position hsome =>
      refine ⟨ht, hs.bound, hs.stored, inFlight_advance hs.inFlight (fun hrealm q hq ↦ ?_),
        hs.rows⟩
      cases hq
      exact hs.stored _
        ((FanOutState.position_eq_some_iff hs.consistent.positions_nodup).mp hsome) hrealm
    | start page mem phase =>
      refine ⟨ht, hs.bound, hs.stored, inFlight_advance hs.inFlight (fun hrealm q hq ↦ ?_),
        hs.rows⟩
      cases hq
      refine le_startPosition hs.bound fun ms hms ↦ hadmitted hrealm page ?_ ms hms
      cases hfind : s.fan.page page.stream with
      | none => simpa using List.find?_eq_none.mp hfind page mem
      | some page' =>
        obtain ⟨hmem', hst⟩ := FanOutState.page_eq_some hfind
        rw [Table.eq_of_key_eq hs.consistent.pages_nodup hmem' mem hst]
    | readEvents page position mem phase =>
      refine ⟨ht, hs.bound, hs.stored, inFlight_advance hs.inFlight (fun hrealm q hq ↦ ?_),
        hs.rows⟩
      cases hq
      exact hs.inFlight page mem hrealm position (by rw [phase]; rfl)
    | commitStart page start ids mem phase =>
      refine ⟨ht, hs.bound, fun row hrow hrealm ↦ ?_, inFlight_finish hs.inFlight, hs.rows⟩
      rcases Table.mem_insertNew_cases hrow with hrow | rfl
      · exact hs.stored row hrow hrealm
      · exact hs.inFlight page mem hrealm start (by rw [phase]; rfl)
    | commitRead page position horizon events ids mem phase fresh =>
      have hok := hs.consistent.pages_ok page mem
      simp only [PageOk, phase] at hok
      have hread := hok.2.2.2
      have hheld : page.stream.realmId = realmId → p ≤ position :=
        fun hrealm ↦ hs.inFlight page mem hrealm position (by rw [phase]; rfl)
      refine ⟨ht, hs.bound, fun row hrow hrealm ↦ ?_, inFlight_finish hs.inFlight,
        fun r hr hrealm hle ↦ ?_⟩
      · rcases Table.mem_updateWhere_cases hrow with ⟨hrow, -⟩ | ⟨row₀, -, hst, rfl⟩
        · exact hs.stored row hrow hrealm
        · have hst' : row₀.stream = page.stream := by simpa using hst
          exact (hheld (hst' ▸ hrealm)).trans (hread.le_next page.pageSize_pos)
      · rcases Table.mem_insertAllNew_cases hr with hr | hr
        · exact hs.rows r hr hrealm hle
        · obtain ⟨id, -, e, he, d, -, -, rfl⟩ := FanOutState.mem_pageRows hr
          have hlt : p < e.position := (hheld hrealm).trans_lt (hread.sound e he).2.2.1
          exact absurd hle (not_le.mpr hlt)
    | abort =>
      exact ⟨ht, hs.bound, hs.stored, inFlight_finish hs.inFlight, hs.rows⟩

end Queue

/-- When an answer leaves nothing before it uncounted, the whole realm's fan-out is past it. -/
theorem AnswerSound.past (hs : s.fan.Consistent) (h : AnswerSound s.fan realmId served) :
    s.Past realmId (offeredPosition s.fan realmId served) (s.fan.deliveries.map (·.origin)) := by
  have hstored : ∀ row ∈ s.fan.positions, row.stream.realmId = realmId →
      offeredPosition s.fan realmId served ≤ row.position := by
    intro row hrow hrealm
    cases hcounts : OfferedDestinations.countsKind served realmId row.stream.kind with
    | false => exact h.leftOut row hrow hrealm hcounts
    | true => exact offeredPosition_le hrow hrealm hcounts
  refine ⟨hs, offeredPosition_le_horizon hs, hstored, fun page hpage hrealm p hp ↦ ?_,
    fun r hr _ _ ↦ List.mem_map_of_mem hr⟩
  cases hposition : s.fan.position page.stream with
  | none => exact h.notStored page hpage hrealm p hp hposition
  | some q =>
    have hmem := (FanOutState.position_eq_some_iff hs.positions_nodup).mp hposition
    have hok := hs.pages_ok page hpage
    unfold PageOk at hok
    have hq : q = p := by
      cases hphase : page.phase with
      | locked | absent =>
        rw [hphase] at hp
        cases hp
      | starting start =>
        simp only [hphase] at hok
        exact absurd rfl (hok.1 _ hmem)
      | found position =>
        simp only [hphase, PagePhase.held, Option.some.injEq] at hok hp
        exact (hok.1 _ hmem rfl).trans hp
      | read position horizon events =>
        simp only [hphase, PagePhase.held, Option.some.injEq] at hok hp
        exact (hok.1 _ hmem rfl).trans hp
    rw [← hq]
    exact hstored _ hmem hrealm

open Sample in
/-- An answer is not final: with no destination the realm is answered its horizon, past an event;
then a destination with a backfill window is added, its stream starts before the event, and a page
writes the event's row. -/
theorem offered_not_final :
    ¬ ∀ (settings : Settings) (s t : Queue) (as : List Action) (realmId : Uuid),
      (queueSystem settings).Reachable s → Run (Queue.step settings) s as t →
      ∀ r ∈ t.fan.deliveries, r.realmId = realmId →
        r.position ≤ offeredPosition s.fan realmId none →
        r.origin ∈ s.fan.deliveries.map (·.origin) := by
  intro hclaim
  have hrun : (exec (Queue.step settings) .empty (writeEvent 1 5)).map (fun s ↦
      (offeredPosition s.fan 7 none, s.fan.deliveries.length,
        (exec (Queue.step settings) s
          (startPage backfilledRequest ++ deliverPage backfilledRequest [100])).map fun t ↦
            t.fan.deliveries.map fun r ↦ (r.realmId, r.position))) =
      some (⟨2, 0⟩, 0, some [(7, ⟨1, 1⟩)]) := by
    rfl
  obtain ⟨s, hs, hs'⟩ := Option.map_eq_some_iff.mp hrun
  simp only [Prod.mk.injEq, List.length_eq_zero_iff] at hs'
  obtain ⟨hanswer, hnone, ht⟩ := hs'
  obtain ⟨t, ht, hrows⟩ := Option.map_eq_some_iff.mp ht
  have hmem : ((7, ⟨1, 1⟩) : Uuid × Position) ∈
      t.fan.deliveries.map fun r ↦ (r.realmId, r.position) := by
    rw [hrows]
    exact List.mem_singleton_self _
  obtain ⟨r, hr, hplace⟩ := List.mem_map.mp hmem
  rw [Prod.mk.injEq] at hplace
  have hold := hclaim settings s t _ 7 ⟨.empty, _, Queue.empty_initial _, .of_exec hs⟩
    (.of_exec ht) r hr hplace.1 (by rw [hplace.2, hanswer]; decide)
  rw [hnone] at hold
  cases hold

/-- Once a realm was answered a position, with nothing before it uncounted, and no stream of the
realm is started by a backfill that finds an event at or before it, every delivery row of an
event at or before it was there when it was answered. -/
theorem offered_final (settings : Settings) {s t : Queue} {as : List Action} {realmId : Uuid}
    {served : Option OfferedDestinations} (hs : (queueSystem settings).Reachable s)
    (hsound : AnswerSound s.fan realmId served)
    (h : Run.Along (Queue.step settings)
      (NoEarlyBackfill realmId (offeredPosition s.fan realmId served)) s as t) :
    ∀ r ∈ t.fan.deliveries, r.realmId = realmId →
      r.position ≤ offeredPosition s.fan realmId served →
      r.origin ∈ s.fan.deliveries.map (·.origin) :=
  (h.induct (fun _ _ _ hs hadmitted h ↦ hs.step hadmitted h)
    (hsound.past ((consistent_invariant settings).reachable hs))).rows

open Sample in
/-- A stream that is fanned out from a position keeps an answer final: the next page's row is past
it. -/
theorem offered_final_started :
    ∃ s t, exec (Queue.step Sample.settings) .empty (startPage request ++ writeEvent 1 5) = some s ∧
      exec (Queue.step Sample.settings) s (deliverPage request [100]) = some t ∧
      t.fan.deliveries.length = 1 ∧ ∀ r ∈ t.fan.deliveries, r.realmId = 7 →
        r.position ≤ offeredPosition s.fan 7 none →
        r.origin ∈ s.fan.deliveries.map (·.origin) := by
  have hrun : (exec (Queue.step Sample.settings) .empty (startPage request ++ writeEvent 1 5)).map
      (fun s ↦ (s.fan.pages.isEmpty,
        (exec (Queue.step Sample.settings) s (deliverPage request [100])).map fun t ↦
          t.fan.deliveries.length)) = some (true, some 1) := by
    rfl
  obtain ⟨s, hs, hs'⟩ := Option.map_eq_some_iff.mp hrun
  simp only [Prod.mk.injEq, List.isEmpty_iff] at hs'
  obtain ⟨hpages, ht⟩ := hs'
  obtain ⟨t, ht, hlength⟩ := Option.map_eq_some_iff.mp ht
  have hsound : AnswerSound s.fan 7 none := by
    refine ⟨fun row _ _ hcounts ↦ ?_, fun page hpage ↦ ?_⟩
    · simp [OfferedDestinations.countsKind, OfferedDestinations.servedKinds] at hcounts
    · rw [hpages] at hpage
      cases hpage
  have hadmitted : ∀ a ∈ deliverPage request [100], ∀ s',
      NoEarlyBackfill 7 (offeredPosition s.fan 7 none) s' a := by
    simp [deliverPage, NoEarlyBackfill]
  exact ⟨s, t, hs, ht, hlength, offered_final Sample.settings
    ⟨.empty, _, Queue.empty_initial _, .of_exec hs⟩ hsound (.of_run (.of_exec ht) hadmitted)⟩

end QAuth.Delivery
