import QAuth.Delivery.Pages

/-!
# Every event reaches every destination once

A destination that every fan-out lists gets one row for every event after its starting position
that matches it. The position of its stream only moves forward, and only past events whose
transactions have ended.
-/

namespace QAuth.Delivery

open Events Transition

/-- A step that lists `d` if it is a fan-out's: a page of its stream, or a fan-out that serves
its kind. -/
def Lists (d : EventDeliveryDestination) : Queue → Action → Prop
  | _, .fanOut (.lock request st) => st = d.stream → d ∈ request.destinations
  | _, .fanOut (.forget request _) => d.kind ∈ request.kinds → d ∈ request.destinations
  | _, _ => True

/-- Whether an action commits a page of a stream. -/
def commits (st : Stream) : Action → Bool
  | .fanOut (.commit st' _) => st' = st
  | _ => false

namespace Queue

variable {settings : Settings} {s t : Queue} {a : Action} {as : List Action}
  {d : EventDeliveryDestination} {p : Position} {e : Event}

def rowsFor (s : Queue) (d : EventDeliveryDestination) (e : Event) : ℕ :=
  (s.fan.deliveries.map (·.key)).count (e.id, d.kind, d.id)

/-- Every matching event of a destination's realm after `p` and up to `q` has its row. -/
def RowsUpTo (s : FanOutState) (d : EventDeliveryDestination) (p q : Position) : Prop :=
  ∀ e ∈ s.log.events, e.realmId = d.realmId → «matches» d e = true → p < e.position →
    e.position ≤ q → ∃ r ∈ s.deliveries, r.key = (e.id, d.kind, d.id)

def Listed (s : FanOutState) (d : EventDeliveryDestination) : Prop :=
  ∀ page ∈ s.pages, page.stream = d.stream → d ∈ page.destinations

/-- The destination has its rows from `p` on up to its stream's position. -/
structure Covered (d : EventDeliveryDestination) (p : Position) (s : Queue) : Prop where
  consistent : s.fan.Consistent
  listed : Listed s.fan d
  upTo : ∃ q, (⟨d.stream, q⟩ : PositionRow) ∈ s.fan.positions ∧ p ≤ q ∧ RowsUpTo s.fan d p q

/-! ### The pages in flight keep listing the destination -/

private theorem listed_advance {fan : FanOutState} (hs : Listed fan d) (st : Stream)
    (phase : PagePhase) : Listed (fan.advance st phase) d := by
  intro page hpage hst
  rcases Table.mem_updateWhere_cases hpage with ⟨hmem, -⟩ | ⟨page₀, hmem, -, rfl⟩
  · exact hs page hmem hst
  · exact hs page₀ hmem hst

private theorem listed_finish {fan : FanOutState} (hs : Listed fan d) (st : Stream) :
    ∀ page ∈ (fan.finish st).pages, page.stream = d.stream → d ∈ page.destinations :=
  fun page hpage ↦ hs page (List.mem_filter.mp hpage).1

theorem listed_step (hs : Listed s.fan d) (hlists : Lists d s a)
    (h : s.step settings a = some t) : Listed t.fan d := by
  cases step_cases h with
  | writer => exact hs
  | worker a t step =>
    rw [Listed, step.onlyRows.pages]
    exact hs
  | fanOut a fan step =>
    cases FanOutState.step_cases step with
    | forget => exact hs
    | lock request st lists free =>
      intro page hpage hst
      rcases List.mem_cons.mp hpage with rfl | hpage
      · have hst' : st = d.stream := hst
        exact List.mem_filter.mpr ⟨hlists hst', by simp [hst']⟩
      · exact hs page hpage hst
    | absent | found | start | readEvents => exact listed_advance hs _ _
    | commitStart | commitRead | abort => exact listed_finish hs _

/-! ### A listing step keeps the rows complete -/

private theorem covered_of_same (hs : Covered d p s) (ht : t.fan.Consistent)
    (hlisted : Listed t.fan d) (hlog : t.fan.log = s.fan.log)
    (hpositions : ∀ row ∈ s.fan.positions, row.stream = d.stream → row ∈ t.fan.positions)
    (hrows : ∀ r ∈ s.fan.deliveries, ∃ r' ∈ t.fan.deliveries, r'.key = r.key) :
    Covered d p t := by
  obtain ⟨q, hmem, hle, hupTo⟩ := hs.upTo
  refine ⟨ht, hlisted, q, hpositions _ hmem rfl, hle, fun e he hrealm hmatch hlt heq ↦ ?_⟩
  rw [hlog] at he
  obtain ⟨r, hr, hkey⟩ := hupTo e he hrealm hmatch hlt heq
  obtain ⟨r', hr', hkey'⟩ := hrows r hr
  exact ⟨r', hr', hkey'.trans hkey⟩

/-- A page of the destination's stream writes its rows up to the position it moves to. -/
private theorem covered_commitRead (hs : Covered d p s) {page : Page} {position : Position}
    {horizon : ℕ} {events : List Event} {ids : List Uuid} (mem : page ∈ s.fan.pages)
    (phase : page.phase = .read position horizon events)
    (fresh : s.fan.fresh page events ids) (hst : page.stream = d.stream)
    (ht : (s.fan.commitRead page position horizon events ids).Consistent) :
    Covered d p { s with fan := s.fan.commitRead page position horizon events ids } := by
  obtain ⟨q, hmem, hle, hupTo⟩ := hs.upTo
  have hok := hs.consistent.pages_ok page mem
  simp only [PageOk, phase] at hok
  obtain ⟨hrow, -, -, hread⟩ := hok
  obtain rfl : q = position := hrow _ hmem hst.symm
  refine ⟨ht, listed_finish hs.listed _, nextPosition q page.pageSize horizon events, ?_,
    hle.trans (hread.le_next page.pageSize_pos), fun e he hrealm hmatch hlt hnext ↦ ?_⟩
  · exact Table.mem_updateWhere_of_true hmem (by simp [hst])
  · rcases le_or_gt e.position q with hold | hnew
    · obtain ⟨r, hr, hkey⟩ := hupTo e he hrealm hmatch hlt hold
      exact ⟨r, Table.mem_insertAllNew_of_mem hr, hkey⟩
    · have hevent : e ∈ events := by
        refine hread.complete e he ?_ hnew hnext
        rw [hrealm, hst]
        rfl
      obtain ⟨r, hr, hkey⟩ :=
        FanOutState.exists_mem_pageRows fresh.1 hevent (hs.listed page mem hst) hmatch
      obtain ⟨r', hr', hkey'⟩ : ∃ r' ∈ (s.fan.commitRead page q horizon events ids).deliveries,
        r'.key = r.key := Table.exists_mem_insertAllNew hr
      exact ⟨r', hr', hkey'.trans hkey⟩

/-- Every listing step keeps the rows complete. -/
theorem Covered.step (hs : Covered d p s) (hlists : Lists d s a)
    (h : s.step settings a = some t) : Covered d p t := by
  have ht := consistent_step hs.consistent h
  have hlisted := listed_step hs.listed hlists h
  cases step_cases h with
  | writer a log step =>
    -- An event that becomes visible comes after the position: it is past the horizon.
    obtain ⟨q, hmem, hle, hupTo⟩ := hs.upTo
    refine ⟨ht, hlisted, q, hmem, hle, fun e he hrealm hmatch hlt heq ↦ ?_⟩
    rcases (EventLog.step_extends step).mem_or_lt he (hs.consistent.positions_le _ hmem) with
      hold | hnew
    · exact hupTo e hold hrealm hmatch hlt heq
    · exact absurd heq (not_le.mpr hnew)
  | worker a t step =>
    have hrows := step.onlyRows
    refine covered_of_same hs ht hlisted hrows.log (fun row hrow _ ↦ hrows.positions ▸ hrow)
      fun r hr ↦ ?_
    obtain ⟨r', hr', horigin⟩ := hrows.symm.mem_origin hr
    exact ⟨r', hr', congrArg (·.2.1) horigin⟩
  | fanOut a fan step =>
    have hself : ∀ r ∈ s.fan.deliveries, ∃ r' ∈ s.fan.deliveries, r'.key = r.key :=
      fun r hr ↦ ⟨r, hr, rfl⟩
    cases FanOutState.step_cases step with
    | forget request spared =>
      refine covered_of_same hs ht hlisted rfl (fun row hrow hst ↦ ?_) hself
      refine List.mem_filter.mpr ⟨hrow, ?_⟩
      have hkept : FanOutState.forgets request spared d.stream = false := by
        by_cases hkind : d.kind ∈ request.kinds
        · have hlist : request.lists d.stream = true :=
            List.any_eq_true.mpr ⟨d, hlists hkind, by simp⟩
          simp [FanOutState.forgets, hlist]
        · simp [FanOutState.forgets, EventDeliveryDestination.stream, hkind]
      rw [hst, hkept]
      rfl
    | lock | absent | found | start | readEvents | abort =>
      exact covered_of_same hs ht hlisted rfl (fun _ hrow _ ↦ hrow) hself
    | commitStart page start ids mem phase =>
      exact covered_of_same hs ht hlisted rfl (fun _ hrow _ ↦ Table.mem_insertNew_of_mem hrow)
        hself
    | commitRead page position horizon events ids mem phase fresh =>
      by_cases hst : page.stream = d.stream
      · exact covered_commitRead hs mem phase fresh hst ht
      · refine covered_of_same hs ht hlisted rfl (fun row hrow heq ↦ ?_) fun r hr ↦
          ⟨r, Table.mem_insertAllNew_of_mem hr, rfl⟩
        refine Table.mem_updateWhere_of_false hrow ?_
        rw [heq]
        simpa using Ne.symm hst

/-! ### An event is passed after enough pages -/

/-- How many events of a realm lie after `q` and up to `e`. -/
def between (log : EventLog) (realmId : Uuid) (q : Position) (e : Event) : ℕ :=
  log.events.countP fun e' ↦
    e'.realmId = realmId && q < e'.position && e'.position ≤ e.position

/-- Whether a page read the stream in a snapshot too old to see `e`. -/
def behind (st : Stream) (e : Event) (page : Page) : Bool :=
  page.stream = st &&
    match page.phase with
    | .read _ horizon _ => horizon ≤ e.xid
    | _ => false

/-- How many more pages of the destination's stream `e` waits for at most: each page passes an
event, and a page in flight may have read the stream before `e` was final. -/
def remaining (d : EventDeliveryDestination) (e : Event) (s : Queue) : ℕ :=
  match s.fan.position d.stream with
  | none => 0
  | some q =>
    if e.position ≤ q then 0
    else between s.fan.log d.realmId q e + if s.fan.pages.any (behind d.stream e) then 1 else 0

variable {log log' : EventLog} {realmId : Uuid} {q q' : Position}

/-- Writers put no event before a final one. -/
theorem between_le (hext : log.Extends log') (he : e.xid < log.horizon) (hq : q ≤ q') :
    between log' realmId q' e ≤ between log realmId q e := by
  obtain ⟨new, hnew, hlate⟩ := hext.appended
  unfold between
  rw [hnew, List.countP_append]
  have hzero : new.countP (fun e' ↦
      e'.realmId = realmId && q' < e'.position && e'.position ≤ e.position) = 0 := by
    rw [List.countP_eq_zero]
    intro e' he'
    have := hlate e' he'
    have hlt : ¬ e'.position ≤ e.position := by
      simp only [Position.le_iff, Event.position_xid, Event.position_seq]
      omega
    simp [hlt]
  rw [hzero, Nat.add_zero]
  refine List.countP_mono_left fun e' _ h ↦ ?_
  simp only [Bool.and_eq_true, decide_eq_true_eq] at h ⊢
  exact ⟨⟨h.1.1, hq.trans_lt h.1.2⟩, h.2⟩

/-- Moving past an event on the way to `e` leaves fewer before it. -/
theorem between_lt {e' : Event} (he' : e' ∈ log.events) (hrealm : e'.realmId = realmId)
    (hlt : q < e'.position) (hle : e'.position ≤ q') (hbefore : e'.position ≤ e.position) :
    between log realmId q' e < between log realmId q e := by
  refine Table.countP_lt_countP (fun x _ h ↦ ?_) he' (by simp [hrealm, hlt, hbefore])
    (by simp [not_lt.mpr hle])
  simp only [Bool.and_eq_true, decide_eq_true_eq] at h ⊢
  exact ⟨⟨h.1.1, (hlt.trans_le hle).trans h.1.2⟩, h.2⟩

theorem remaining_of_mem (hs : s.fan.Consistent)
    (hmem : (⟨d.stream, q⟩ : PositionRow) ∈ s.fan.positions) :
    remaining d e s = if e.position ≤ q then 0
      else between s.fan.log d.realmId q e +
        if s.fan.pages.any (behind d.stream e) then 1 else 0 := by
  have hposition := (FanOutState.position_eq_some_iff hs.positions_nodup).mpr hmem
  simp only [remaining, hposition]

/-- The pages an event waits for do not become more when the position moves on, writers write and
pages that read too early end. -/
private theorem remaining_le (hs : s.fan.Consistent) (ht : t.fan.Consistent)
    (hmem : (⟨d.stream, q⟩ : PositionRow) ∈ s.fan.positions)
    (hmem' : (⟨d.stream, q'⟩ : PositionRow) ∈ t.fan.positions) (hq : q ≤ q')
    (hext : s.fan.log.Extends t.fan.log) (he : e.xid < s.fan.log.horizon)
    (hpages : t.fan.pages.any (behind d.stream e) = true →
      s.fan.pages.any (behind d.stream e) = true) :
    remaining d e t ≤ remaining d e s := by
  rw [remaining_of_mem hs hmem, remaining_of_mem ht hmem']
  have hbetween : between t.fan.log d.realmId q' e ≤ between s.fan.log d.realmId q e :=
    between_le hext he hq
  by_cases hpassed : e.position ≤ q
  · rw [if_pos (hpassed.trans hq)]
    exact Nat.zero_le _
  · rw [if_neg hpassed]
    by_cases hpassed' : e.position ≤ q'
    · rw [if_pos hpassed']
      exact Nat.zero_le _
    · rw [if_neg hpassed']
      by_cases hpage : t.fan.pages.any (behind d.stream e) = true
      · rw [if_pos hpage, if_pos (hpages hpage)]
        omega
      · rw [if_neg hpage]
        omega

/-- A page of the stream that ends was the only one that may have read too early. -/
private theorem not_behind_finish {fan : FanOutState} :
    (fan.finish d.stream).pages.any (behind d.stream e) = false := by
  rw [List.any_eq_false]
  intro page hpage
  have hne := (List.mem_filter.mp hpage).2
  simp only [decide_not, Bool.not_eq_true', decide_eq_false_iff_not] at hne
  simp [behind, hne]

/-- A page of the destination's stream that commits leaves `e` one page fewer to wait for. -/
private theorem remaining_commitRead (hs : Covered d p s) (he : e.xid < s.fan.log.horizon)
    {page : Page} {position : Position} {horizon : ℕ} {events : List Event} {ids : List Uuid}
    (mem : page ∈ s.fan.pages) (phase : page.phase = .read position horizon events)
    (hst : page.stream = d.stream)
    (ht : (s.fan.commitRead page position horizon events ids).Consistent) :
    remaining d e { s with fan := s.fan.commitRead page position horizon events ids } ≤
      remaining d e s - 1 := by
  obtain ⟨q, hmem, -, -⟩ := hs.upTo
  have hok := hs.consistent.pages_ok page mem
  simp only [PageOk, phase] at hok
  obtain ⟨hrow, -, -, hread⟩ := hok
  obtain rfl : q = position := hrow _ hmem hst.symm
  set next := nextPosition q page.pageSize horizon events with hnext
  have hle : q ≤ next := hread.le_next page.pageSize_pos
  have hmem' : (⟨d.stream, next⟩ : PositionRow) ∈
      (s.fan.commitRead page q horizon events ids).positions :=
    Table.mem_updateWhere_of_true hmem (by simp [hst])
  have hpages : (s.fan.commitRead page q horizon events ids).pages.any (behind d.stream e) =
      false := by
    change (s.fan.finish page.stream).pages.any (behind d.stream e) = false
    rw [hst]
    exact not_behind_finish
  have hafter : remaining d e { s with fan := s.fan.commitRead page q horizon events ids } =
      if e.position ≤ next then 0 else between s.fan.log d.realmId next e := by
    rw [remaining_of_mem ht hmem']
    change (if e.position ≤ next then 0 else between s.fan.log d.realmId next e +
      if (s.fan.commitRead page q horizon events ids).pages.any (behind d.stream e) = true
        then 1 else 0) = _
    rw [hpages]
    rfl
  rw [hafter]
  by_cases hpassed : e.position ≤ next
  · rw [if_pos hpassed]
    exact Nat.zero_le _
  · have hbefore : remaining d e s = between s.fan.log d.realmId q e +
        if s.fan.pages.any (behind d.stream e) = true then 1 else 0 := by
      rw [remaining_of_mem hs.consistent hmem, if_neg fun h ↦ hpassed (h.trans hle)]
    rw [if_neg hpassed, hbefore]
    have hmono : between s.fan.log d.realmId next e ≤ between s.fan.log d.realmId q e :=
      between_le (.refl _) he hle
    by_cases hsaw : e.xid < horizon
    · -- The snapshot is past `e`, so the page was full and passed an event before `e`.
      rcases hread.next_cases page.pageSize_pos with ⟨-, last, hlast, -, heq⟩ | ⟨-, heq⟩
      · obtain ⟨hcommitted, hrealm, hlt, -⟩ := hread.sound last hlast
        rw [← hnext] at heq
        have hrealm' : last.realmId = d.realmId := by
          rw [hrealm, hst]
          rfl
        have hless : between s.fan.log d.realmId next e < between s.fan.log d.realmId q e :=
          between_lt hcommitted hrealm' hlt heq.ge (heq ▸ (not_le.mp hpassed).le)
        omega
      · exfalso
        rw [← hnext] at heq
        refine hpassed ?_
        rw [heq]
        split
        · exact Position.le_atHorizon_of_xid_lt hsaw
        · refine Or.inl ?_
          simp only [Event.position_xid]
          omega
    · have hbehind : s.fan.pages.any (behind d.stream e) = true := by
        refine List.any_eq_true.mpr ⟨page, mem, ?_⟩
        simp only [behind, phase, hst, decide_true, Bool.true_and, decide_eq_true_eq]
        omega
      rw [if_pos hbehind]
      omega

theorem step_extends (h : s.step settings a = some t) : s.fan.log.Extends t.fan.log := by
  cases step_cases h with
  | writer a log step => exact EventLog.step_extends step
  | fanOut a fan step =>
    rw [FanOutState.step_log step]
    exact .refl _
  | worker a t step =>
    rw [step.onlyRows.log]
    exact .refl _

theorem run_extends (h : Run (Queue.step settings) s as t) : s.fan.log.Extends t.fan.log := by
  induction h with
  | nil => exact .refl _
  | cons head _ ih => exact (step_extends head).trans ih

theorem covered_of_position (hs : s.fan.Consistent) (hlisted : Listed s.fan d)
    (hmem : (⟨d.stream, q⟩ : PositionRow) ∈ s.fan.positions) : Covered d q s :=
  ⟨hs, hlisted, q, hmem, le_rfl, fun _ _ _ _ hlt hle ↦ absurd hle (not_le.mpr hlt)⟩

private theorem any_behind_advance {fan : FanOutState} {st : Stream} {phase : PagePhase}
    (hphase : ∀ p horizon events, phase = .read p horizon events → e.xid < horizon)
    (h : (fan.advance st phase).pages.any (behind d.stream e) = true) :
    fan.pages.any (behind d.stream e) = true := by
  obtain ⟨page, hpage, hbehind⟩ := List.any_eq_true.mp h
  rcases Table.mem_updateWhere_cases hpage with ⟨hmem, -⟩ | ⟨page₀, -, -, rfl⟩
  · exact List.any_eq_true.mpr ⟨page, hmem, hbehind⟩
  · exfalso
    simp only [behind, Bool.and_eq_true] at hbehind
    cases phase with
    | read p horizon events =>
      have hlt := hphase p horizon events rfl
      have hle := of_decide_eq_true hbehind.2
      omega
    | locked | absent | starting | found => cases hbehind.2

/-- No step makes a page in flight have read too early for `e`. -/
private theorem any_behind_step (he : e.xid < s.fan.log.horizon)
    (h : s.step settings a = some t) (hbehind : t.fan.pages.any (behind d.stream e) = true) :
    s.fan.pages.any (behind d.stream e) = true := by
  cases step_cases h with
  | writer => exact hbehind
  | worker a t step =>
    rwa [step.onlyRows.pages] at hbehind
  | fanOut a fan step =>
    cases FanOutState.step_cases step with
    | forget => exact hbehind
    | lock request st =>
      simpa [behind, FanOutState.newPage] using hbehind
    | absent | found | start =>
      exact any_behind_advance (fun _ _ _ heq ↦ by cases heq) hbehind
    | readEvents page position mem phase =>
      refine any_behind_advance (fun p horizon events heq ↦ ?_) hbehind
      cases heq
      exact he
    | commitStart | commitRead | abort =>
      obtain ⟨page, hpage, hp⟩ := List.any_eq_true.mp hbehind
      exact List.any_eq_true.mpr ⟨page, (List.mem_filter.mp hpage).1, hp⟩

theorem remaining_step_le (hs : Covered d p s) (hlists : Lists d s a)
    (he : e.xid < s.fan.log.horizon) (h : s.step settings a = some t) :
    remaining d e t ≤ remaining d e s := by
  obtain ⟨q, hmem, -, -⟩ := hs.upTo
  have ht := (covered_of_position hs.consistent hs.listed hmem).step hlists h
  obtain ⟨q', hmem', hq, -⟩ := ht.upTo
  exact remaining_le hs.consistent ht.consistent hmem hmem' hq (step_extends h) he
    (any_behind_step he h)

theorem remaining_step_lt (hs : Covered d p s) (he : e.xid < s.fan.log.horizon)
    (h : s.step settings a = some t) (hcommits : commits d.stream a = true) :
    remaining d e t ≤ remaining d e s - 1 := by
  obtain ⟨q, hmem, -, -⟩ := hs.upTo
  have ht := consistent_step hs.consistent h
  cases step_cases h with
  | writer | worker => cases hcommits
  | fanOut a fan step =>
    cases FanOutState.step_cases step with
    | forget | lock | absent | found | start | readEvents | abort => cases hcommits
    | commitStart page start ids mem phase =>
      -- The stream has a position, so no page of it starts it.
      have hst : page.stream = d.stream := by simpa [commits] using hcommits
      have hok := hs.consistent.pages_ok page mem
      simp only [PageOk, phase] at hok
      exact absurd hst.symm (hok.1 _ hmem)
    | commitRead page position horizon events ids mem phase fresh =>
      exact remaining_commitRead hs he mem phase (by simpa [commits] using hcommits) ht

/-- Once an event is final, it is passed after as many pages of the stream as it waits for. -/
theorem Covered.exists_passed (hs : Covered d p s) (hevent : e ∈ s.fan.log.events)
    (hrealm : e.realmId = d.realmId) (he : e.xid < s.fan.log.horizon)
    (h : Run.Along (Queue.step settings) (Lists d) s as t)
    (hpages : remaining d e s ≤ as.countP (commits d.stream)) :
    ∃ q, (⟨d.stream, q⟩ : PositionRow) ∈ t.fan.positions ∧ e.position ≤ q := by
  have hkeep : ∀ s a t, (Covered d p s ∧ e ∈ s.fan.log.events ∧ e.xid < s.fan.log.horizon) →
      Lists d s a → s.step settings a = some t →
      Covered d p t ∧ e ∈ t.fan.log.events ∧ e.xid < t.fan.log.horizon := by
    rintro s a t ⟨hs, hevent, he⟩ hlists h
    have hext := step_extends h
    exact ⟨hs.step hlists h, hext.subset hevent, he.trans_le hext.horizon_le⟩
  have hzero : remaining d e t = 0 :=
    h.exhausts hkeep (fun s a t hs hlists h ↦ remaining_step_le hs.1 hlists hs.2.2 h)
      (fun s a t hs _ h hcommits ↦ remaining_step_lt hs.1 hs.2.2 h hcommits)
      ⟨hs, hevent, he⟩ hpages
  obtain ⟨ht, hevent', -⟩ := h.induct hkeep ⟨hs, hevent, he⟩
  obtain ⟨q, hmem, -, -⟩ := ht.upTo
  refine ⟨q, hmem, ?_⟩
  rw [remaining_of_mem ht.consistent hmem] at hzero
  by_contra hpassed
  rw [if_neg hpassed] at hzero
  have hself : 0 < between t.fan.log d.realmId q e :=
    List.countP_pos_iff.mpr ⟨e, hevent', by simp [hrealm, not_le.mp hpassed]⟩
  omega

/-! ### One row for each event -/

theorem rowsFor_le_one (hs : s.fan.Consistent) : s.rowsFor d e ≤ 1 :=
  List.nodup_iff_count_le_one.mp hs.keys_nodup _

theorem rowsFor_eq_one (hs : s.fan.Consistent)
    (h : ∃ r ∈ s.fan.deliveries, r.key = (e.id, d.kind, d.id)) : s.rowsFor d e = 1 := by
  obtain ⟨r, hr, hkey⟩ := h
  exact List.count_eq_one_of_mem hs.keys_nodup (hkey ▸ List.mem_map_of_mem hr)

end Queue

open Queue in
/-- Let `d` be listed by every fan-out of its stream from `s₀` on, and let `p` be the position of
the stream at some later time. Then the stream's position is never before `p` again and never at
or past an event that can still commit; no event after `p` that matches `d` has two rows for it;
each of these has exactly one once the position has passed it; and once such an event is final,
finitely many pages of the stream pass it. -/
theorem fanOut_complete (settings : Settings) (d : EventDeliveryDestination) {s₀ s t : Queue}
    {as bs : List Action} {p : Position} (hs₀ : (queueSystem settings).Reachable s₀)
    (hlisted : ∀ page ∈ s₀.fan.pages, page.stream = d.stream → d ∈ page.destinations)
    (h₀ : Run.Along (Queue.step settings) (Lists d) s₀ as s)
    (hp : s.fan.position d.stream = some p)
    (h : Run.Along (Queue.step settings) (Lists d) s bs t) :
    ∃ q, t.fan.position d.stream = some q ∧ p ≤ q ∧
      (∀ tx ∈ t.fan.log.active, ∀ e ∈ tx.events, q < e.position) ∧
      (∀ cs u, Run (Queue.step settings) t cs u →
        ∀ e ∈ u.fan.log.events, e ∉ t.fan.log.events → q < e.position) ∧
      ∀ e ∈ t.fan.log.events, e.realmId = d.realmId → «matches» d e = true → p < e.position →
        t.rowsFor d e ≤ 1 ∧ (e.position ≤ q → t.rowsFor d e = 1) ∧
        (e.xid < t.fan.log.horizon → ∃ n, ∀ cs u,
          Run.Along (Queue.step settings) (Lists d) t cs u →
          n ≤ cs.countP (commits d.stream) → u.rowsFor d e = 1) := by
  have hreach := hs₀.run h₀.toRun
  have hcons := (consistent_invariant settings).reachable hreach
  have hlisted₀ : Listed s₀.fan d := hlisted
  have hlisted' : Listed s.fan d :=
    h₀.induct (P := fun s ↦ Listed s.fan d) (fun _ _ _ hs hC h ↦ listed_step hs hC h) hlisted₀
  have hmem := (FanOutState.position_eq_some_iff hcons.positions_nodup).mp hp
  have ht : Covered d p t :=
    h.induct (fun _ _ _ hs hC h ↦ hs.step hC h) (covered_of_position hcons hlisted' hmem)
  obtain ⟨q, hmem', hle, hupTo⟩ := ht.upTo
  have hq := ht.consistent.positions_le _ hmem'
  refine ⟨q, (FanOutState.position_eq_some_iff ht.consistent.positions_nodup).mpr hmem', hle,
    fun tx htx e he ↦ ?_, fun cs u hrun e he hnew ↦ ?_, fun e he hrealm hmatch hlt ↦ ?_⟩
  · refine hq.trans_lt (Position.atHorizon_lt ?_ (t.fan.log.seq_pos_of_active htx he))
    rw [Event.position_xid, tx.own e he]
    exact EventLog.horizon_le_of_active htx
  · exact ((run_extends hrun).mem_or_lt he hq).resolve_left hnew
  · refine ⟨rowsFor_le_one ht.consistent,
      fun hpassed ↦ rowsFor_eq_one ht.consistent (hupTo e he hrealm hmatch hlt hpassed),
      fun hfinal ↦ ⟨remaining d e t, fun cs u hrun hcount ↦ ?_⟩⟩
    obtain ⟨q', hmem'', hpassed⟩ := ht.exists_passed he hrealm hfinal hrun hcount
    have hu : Covered d p u := hrun.induct (fun _ _ _ hs hC h ↦ hs.step hC h) ht
    obtain ⟨q'', hmem₃, -, hupTo'⟩ := hu.upTo
    have heq := Table.eq_of_key_eq hu.consistent.positions_nodup hmem'' hmem₃ rfl
    cases heq
    exact rowsFor_eq_one hu.consistent
      (hupTo' e ((run_extends hrun.toRun).subset he) hrealm hmatch hlt hpassed)

open Sample in
/-- A page runs between the commits of two transactions, the later id first, and another page
after both. -/
def outOfOrder : List Action :=
  [.writer (.begin 1)] ++ writeEvent 2 5 ++ deliverPage request [] ++
    [.writer (.emit 1 ⟨6, 7, .user, "t", 4, none, none, none, 1⟩), .writer (.commit 1)] ++
    deliverPage request [101, 102]

open Sample in
/-- Two transactions commit against the order of their ids: both events get their row. -/
theorem fanOut_complete_outOfOrder :
    ∃ s t, exec (Queue.step settings) .empty (startPage request) = some s ∧
      exec (Queue.step settings) s outOfOrder = some t ∧
      t.fan.log.events.length = 2 ∧ ∀ e ∈ t.fan.log.events, t.rowsFor webhook e = 1 := by
  obtain ⟨s, hs⟩ : ∃ s, exec (Queue.step settings) .empty (startPage request) = some s :=
    Option.isSome_iff_exists.mp (by decide)
  have hrun : (exec (Queue.step settings) .empty (startPage request)).map (fun s ↦
      (s.fan.position stream, s.fan.pages.isEmpty,
        (exec (Queue.step settings) s outOfOrder).map fun t ↦
          (t.fan.position stream, t.fan.log.events.map fun e ↦ (e.realmId, e.position)))) =
      some (some ⟨1, 0⟩, true, some (some ⟨3, 0⟩, [(7, ⟨2, 1⟩), (7, ⟨1, 2⟩)])) := by
    rfl
  rw [hs] at hrun
  simp only [Option.map_some, Option.some.injEq, Prod.mk.injEq, List.isEmpty_iff] at hrun
  obtain ⟨hp, hpages, ht⟩ := hrun
  obtain ⟨t, ht, hfinal⟩ := Option.map_eq_some_iff.mp ht
  simp only [Prod.mk.injEq] at hfinal
  have hlists : ∀ a ∈ outOfOrder, ∀ s, Lists webhook s a := by
    simp [outOfOrder, writeEvent, deliverPage, Lists, request]
  obtain ⟨q, hq, -, -, -, hrows⟩ := fanOut_complete settings webhook
    (System.Reachable.of_initial (Queue.empty_initial settings)) (by simp [Queue.empty])
    (.of_run (.of_exec hs) (by simp [startPage, Lists, request])) hp
    (.of_run (.of_exec ht) hlists)
  have hlength : t.fan.log.events.length = 2 := by
    simpa using congrArg List.length hfinal.2
  refine ⟨s, t, hs, ht, hlength, fun e he ↦ ?_⟩
  have hmem : (e.realmId, e.position) ∈ t.fan.log.events.map fun e ↦ (e.realmId, e.position) :=
    List.mem_map_of_mem (f := fun e : Event ↦ (e.realmId, e.position)) he
  rw [hfinal.2] at hmem
  have hq' : some q = some ⟨3, 0⟩ := hq.symm.trans hfinal.1
  obtain rfl := Option.some.inj hq'
  have hplace : e.realmId = 7 ∧ (⟨1, 0⟩ : Position) < e.position ∧ e.position ≤ ⟨3, 0⟩ := by
    simp only [List.mem_cons, Prod.mk.injEq, List.not_mem_nil, or_false] at hmem
    rcases hmem with ⟨hrealm, hpos⟩ | ⟨hrealm, hpos⟩ <;> rw [hpos] <;> exact ⟨hrealm, by decide⟩
  exact (hrows e he hplace.1 (by rfl) hplace.2.1).2.1 hplace.2.2

end QAuth.Delivery
