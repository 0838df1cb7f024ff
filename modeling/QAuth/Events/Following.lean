import QAuth.Events.Reader
import Mathlib.Data.List.Flatten

/-!
# What a reader gets

Sequence numbers are assigned before the commit, so an event can become visible after later ones.
A reader still misses none: it never passes the horizon, past which events may still appear, and a
page leaves out no event before the one it ends at.
-/

namespace QAuth.Events

open Guards Transition

variable {log log' : EventLog} {realmId realm : List Char} {filters : EventReadFilters}
  {rows : List Event}

/-! ### Rows are stored once -/

namespace EventLog

/-- No row is stored twice, and every row has an id of a transaction that began. -/
structure Stored (log : EventLog) : Prop where
  nodup : (written log.active log.events).Nodup
  xid_lt : ∀ e ∈ written log.active log.events, e.xid < log.nextXid

theorem stored_empty : Stored .empty := ⟨List.nodup_nil, List.forall_mem_nil _⟩

theorem cons_others_subperm {tx : Transaction} (h : tx ∈ log.active) :
    (tx :: log.others tx).Subperm log.active := by
  refine List.cons_subperm_of_not_mem_of_mem (fun hmem ↦ ?_) h List.filter_sublist.subperm
  simpa using (List.mem_filter.mp hmem).2

theorem written_cons_others_subperm {tx : Transaction} (h : tx ∈ log.active) :
    (written (tx :: log.others tx) log.events).Subperm (written log.active log.events) := by
  obtain ⟨l, hperm, hsub⟩ := cons_others_subperm h
  refine (List.subperm_append_left _).mpr ⟨_, hperm.flatMap_right _, hsub.flatMap _⟩

theorem Stored.of_subperm (h : log.Stored) (hnext : log.nextXid ≤ log'.nextXid)
    (hsub : (written log'.active log'.events).Subperm (written log.active log.events)) :
    log'.Stored := by
  have hsubset := hsub.subset
  obtain ⟨l, hperm, hsub'⟩ := hsub
  exact ⟨hperm.nodup_iff.mp (h.nodup.sublist hsub'),
    fun e he ↦ (h.xid_lt e (hsubset he)).trans_le hnext⟩

theorem Stored.step (h : log.Stored) {a : WriterAction} (hstep : log.step a = some log') :
    log'.Stored := by
  cases a with
  | begin xid =>
    rw [EventLog.step, EventLog.begin] at hstep
    split at hstep
    case isTrue hxid =>
      cases hstep
      exact h.of_subperm (by simp only; omega) (List.Subperm.refl _)
    case isFalse => cases hstep
  | emit xid input =>
    rw [EventLog.step, EventLog.emit] at hstep
    split at hstep
    case h_1 => cases hstep
    case h_2 tx htx =>
      split at hstep
      case isFalse => cases hstep
      case isTrue hid =>
        cases hstep
        have hactive := (transaction_eq_some htx).1
        have hperm : (written (tx.write (log.row tx input) rfl :: log.others tx) log.events).Perm
            (log.row tx input :: written (tx :: log.others tx) log.events) := by
          simp only [written, Transaction.write, List.flatMap_cons, List.append_assoc,
            List.singleton_append]
          rw [← List.append_assoc, ← List.append_assoc log.events tx.events]
          exact List.perm_middle
        obtain ⟨l, hl, hsub⟩ := written_cons_others_subperm hactive
        have hmem : ∀ e ∈ written (tx :: log.others tx) log.events,
            e ∈ written log.active log.events := fun e he ↦ hsub.subset (hl.mem_iff.mpr he)
        constructor
        · rw [hperm.nodup_iff, List.nodup_cons]
          refine ⟨fun hrow ↦ hid _ (hmem _ hrow) rfl, ?_⟩
          exact hl.nodup_iff.mp (h.nodup.sublist hsub)
        · intro e he
          rcases List.mem_cons.mp (hperm.mem_iff.mp he) with rfl | he
          · exact log.wellFormed.active_lt tx hactive
          · exact h.xid_lt e (hmem e he)
  | commit xid =>
    rw [EventLog.step, EventLog.commit] at hstep
    split at hstep
    case h_1 => cases hstep
    case h_2 tx htx =>
      cases hstep
      refine h.of_subperm le_rfl ?_
      have hsub := written_cons_others_subperm (transaction_eq_some htx).1
      simpa [written] using hsub
  | rollback xid =>
    rw [EventLog.step, EventLog.rollback] at hstep
    split at hstep
    case h_1 => cases hstep
    case h_2 tx htx =>
      cases hstep
      exact h.of_subperm le_rfl (((List.filter_sublist.flatMap _).append_left _).subperm)

end EventLog

/-! ### Where a reader is -/

namespace Reading

variable {s t : Reading} {a : ReadingAction} {as : List ReadingAction} {place : Position}

/-- What a step does: a writer's, a read that answers, or one that fails. -/
theorem step_cases (h : s.step realmId filters a = some t) :
    (∃ w log, a = .writer w ∧ s.log.step w = some log ∧ t = { s with log := log }) ∨
      (∃ limit, a = .read limit ∧ ∃ answer, readAfter s.log realmId s.next limit filters =
        .ok answer ∧
          t = { s with next := answer.next, received := s.received ++ answer.events }) ∨
        ∃ limit, a = .read limit ∧ (∃ e, readAfter s.log realmId s.next limit filters = .error e) ∧
          t = s := by
  cases a with
  | writer w =>
    obtain ⟨log, hlog, rfl⟩ := Option.map_eq_some_iff.mp h
    exact .inl ⟨w, log, rfl, hlog, rfl⟩
  | read limit =>
    rw [step] at h
    split at h
    case h_1 answer hanswer => exact .inr (.inl ⟨limit, rfl, answer, hanswer, (Option.some.inj h).symm⟩)
    case h_2 e he => exact .inr (.inr ⟨limit, rfl, ⟨e, he⟩, (Option.some.inj h).symm⟩)

/-- The reader of a realm that started at `start` is at `place`, and got the events `rows`: all
committed events after its start and up to its place that it wants, in order. -/
structure Follows (realm : List Char) (filters : EventReadFilters) (start : Position)
    (s : Reading) (place : Position) (rows : List Event) : Prop where
  next : decodeEventPosition s.next = .ok (.of realm place)
  le : start ≤ place
  /-- The reader is at or before the horizon, unless it has not moved. -/
  bounded : place ≤ .atHorizon s.log.horizon ∨ place = start
  received : rows.mapM toStoredEvent = .ok s.received
  ordered : rows.Pairwise fun e e' ↦ e.position < e'.position
  mem_iff : ∀ e, e ∈ rows ↔ e ∈ s.log.events ∧ matching realm filters.wants e = true ∧
    start < e.position ∧ e.position ≤ place

/-- No writer adds an event that the reader has passed. -/
theorem Follows.extends {start : Position} (h : Follows realm filters start s place rows)
    (hext : s.log.Extends log') : Follows realm filters start { s with log := log' } place rows where
  next := h.next
  le := h.le
  bounded := h.bounded.imp_left fun hle ↦
    hle.trans (Position.atHorizon_le_atHorizon hext.horizon_le)
  received := h.received
  ordered := h.ordered
  mem_iff e := by
    rw [h.mem_iff]
    refine and_congr_left fun ⟨_, hlt, hle⟩ ↦ ⟨fun he ↦ hext.subset he, fun he ↦ ?_⟩
    rcases h.bounded with hbound | rfl
    · rcases hext.mem_or_lt he hbound with hold | hnew
      · exact hold
      · exact absurd hle (not_le.mpr hnew)
    · exact absurd hlt (not_lt.mpr hle)

/-- The events of a page are in the order of the stream, each once. -/
theorem pairwise_page (hstored : log.Stored) {wanted : Event → Bool} {limit : ℕ} {start : Position} :
    (page log wanted start limit).Pairwise fun e e' ↦ e.position < e'.position := by
  have hnodup : (page log wanted start limit).Nodup := by
    have hevents : log.events.Nodup := hstored.nodup.sublist (List.sublist_append_left _ _)
    have hoffered : (offered log wanted start).Nodup := hevents.sublist List.filter_sublist
    exact (Table.perm_orderBy.nodup_iff.mpr hoffered).sublist (List.take_sublist _ _)
  have hread : PageRead log wanted start limit log.horizon _ := pageRead_page
  refine (hread.ordered.and hnodup).imp_of_mem fun he he' h ↦ lt_of_le_of_ne h.1 fun heq ↦ h.2 ?_
  exact log.eq_of_position_eq (hread.sound _ he).1 (hread.sound _ he').1 heq

/-- A read takes the reader to the end of its page. -/
theorem Follows.read {start : Position} {limit : ℤ} {answer : EventPage}
    (h : Follows realm filters start s place rows) (hstored : s.log.Stored)
    (hread : readAfter s.log realmId s.next limit filters = .ok answer) :
    1 ≤ limit.toNat ∧ Follows realm filters start
      { s with next := answer.next, received := s.received ++ answer.events }
      (pageEnd place limit.toNat s.log.horizon
        (page s.log (matching realm filters.wants) place limit.toNat))
      (rows ++ page s.log (matching realm filters.wants) place limit.toNat) := by
  obtain ⟨_, parts, -, hparts, rfl, hone, hevents, hnext⟩ := readAfter_spec hread
  rw [h.next, Except.ok.injEq] at hparts
  subst hparts
  have hplace : (EventPositionParts.of realm place).place = place := rfl
  have hrealm : (EventPositionParts.of realm place).realmId = realm := rfl
  rw [hplace, hrealm] at hevents hnext
  have hpage : PageRead s.log (matching realm filters.wants) place limit.toNat s.log.horizon _ :=
    pageRead_page
  have hle := hpage.le_pageEnd hone
  refine ⟨hone, hnext, h.le.trans hle, ?_, ?_, ?_, fun e ↦ ?_⟩
  · rcases hpage.pageEnd_le_or_eq hone with hle' | heq
    · exact .inl hle'
    · rw [heq]
      exact h.bounded
  · rw [mapM_eq_ok_iff_forall₂] at hevents ⊢
    exact List.rel_append (mapM_eq_ok_iff_forall₂.mp h.received) hevents
  · refine List.pairwise_append.mpr ⟨h.ordered, pairwise_page hstored, fun e he e' he' ↦ ?_⟩
    exact ((h.mem_iff e).mp he).2.2.2.trans_lt (hpage.sound e' he').2.2.1
  · rw [List.mem_append, h.mem_iff, hpage.mem_iff hone]
    constructor
    · rintro (⟨hmem, hwanted, hlt, hbefore⟩ | ⟨hmem, hwanted, hlt, hbefore⟩)
      · exact ⟨hmem, hwanted, hlt, hbefore.trans hle⟩
      · exact ⟨hmem, hwanted, h.le.trans_lt hlt, hbefore⟩
    · rintro ⟨hmem, hwanted, hlt, hbefore⟩
      rcases le_or_gt e.position place with hold | hnew
      · exact .inl ⟨hmem, hwanted, hlt, hold⟩
      · exact .inr ⟨hmem, hwanted, hnew, hbefore⟩

/-- Every step leaves the reader with what there is up to its place, and it goes forward only. -/
theorem Follows.step {start : Position} (h : Follows realm filters start s place rows)
    (hstored : s.log.Stored) (hstep : s.step realmId filters a = some t) :
    t.log.Stored ∧ ∃ place' rows', Follows realm filters start t place' rows' ∧ place ≤ place' ∧
      rows <+: rows' := by
  rcases step_cases hstep with ⟨w, log, rfl, hlog, rfl⟩ | ⟨limit, rfl, answer, hread, rfl⟩ |
    ⟨limit, rfl, -, rfl⟩
  · exact ⟨hstored.step hlog, place, rows, h.extends (EventLog.step_extends hlog), le_rfl,
      List.prefix_rfl⟩
  · obtain ⟨hone, hfollows⟩ := h.read hstored hread
    exact ⟨hstored, _, _, hfollows, pageRead_page.le_pageEnd hone, List.prefix_append _ _⟩
  · exact ⟨hstored, place, rows, h, le_rfl, List.prefix_rfl⟩

/-- A run leaves the reader with what there is up to its place, and takes it forward only. -/
theorem Follows.run {start : Position} (h : Follows realm filters start s place rows)
    (hstored : s.log.Stored) (hrun : Run (Reading.step realmId filters) s as t) :
    t.log.Stored ∧ ∃ place' rows', Follows realm filters start t place' rows' ∧ place ≤ place' ∧
      rows <+: rows' := by
  refine hrun.induct (P := fun t ↦ t.log.Stored ∧ ∃ place' rows', Follows realm filters start t
    place' rows' ∧ place ≤ place' ∧ rows <+: rows') ?_ ⟨hstored, place, rows, h, le_rfl,
      List.prefix_rfl⟩
  rintro s a t ⟨hstored, place', rows', h, hle, hstarts⟩ hstep
  obtain ⟨hstored', place'', rows'', h', hle', hstarts'⟩ := h.step hstored hstep
  exact ⟨hstored', place'', rows'', h', hle.trans hle', hstarts.trans hstarts'⟩

/-! ### What is ahead of a reader -/

/-- How many reads an event may still be away from a reader at `place`: none once it was passed,
and at most one for itself and one for each event that is read before it. -/
def ahead (wanted : Event → Bool) (e : Event) (log : EventLog) (place : Position) : ℕ :=
  if e.position ≤ place then 0
  else 1 + log.events.countP fun e' ↦ wanted e' && place < e'.position && e'.position < e.position

theorem ahead_le {wanted : Event → Bool} {e : Event} :
    ahead wanted e log place ≤ 1 + log.events.length := by
  rw [ahead]
  split
  · omega
  · have := List.countP_le_length (l := log.events)
      (p := fun e' ↦ wanted e' && place < e'.position && e'.position < e.position)
    omega

/-- What writers add is not read before an event below the horizon. -/
theorem ahead_extends {wanted : Event → Bool} {e : Event} (hext : log.Extends log')
    (he : e.xid < log.horizon) : ahead wanted e log' place = ahead wanted e log place := by
  obtain ⟨new, hnew, hlate⟩ := hext.appended
  have hzero : new.countP (fun e' ↦ wanted e' && place < e'.position && e'.position < e.position) =
      0 := by
    rw [List.countP_eq_zero]
    intro e' he' h
    simp only [Bool.and_eq_true, decide_eq_true_eq, Position.lt_iff (a := e'.position),
      Event.position_xid] at h
    have := hlate e' he'
    omega
  rw [ahead, ahead, hnew, List.countP_append, hzero, Nat.add_zero]

/-- A page brings a reader to an event below the horizon, or nearer to it. -/
theorem ahead_pageEnd {wanted : Event → Bool} {e : Event} {limit : ℕ} (hone : 1 ≤ limit)
    (he : e.xid < log.horizon) :
    ahead wanted e log (pageEnd place limit log.horizon (page log wanted place limit)) ≤
      ahead wanted e log place - 1 := by
  have hread : PageRead log wanted place limit log.horizon (page log wanted place limit) :=
    pageRead_page
  have hle := hread.le_pageEnd hone
  rw [ahead]
  split
  case isTrue => omega
  case isFalse hpassed =>
  have hplace : ¬ e.position ≤ place := fun h ↦ hpassed (h.trans hle)
  rw [ahead, if_neg hplace, Nat.add_sub_cancel_left]
  rcases hread.pageEnd_cases hone with ⟨-, last, hlast, -, hend⟩ | ⟨-, hend⟩
  · obtain ⟨hmem, hwanted, hlt, -⟩ := hread.sound last hlast
    rw [hend] at hpassed ⊢
    have hcount := Table.countP_lt_countP (t := log.events) (r := last)
      (p := fun e' ↦ wanted e' && last.position < e'.position && e'.position < e.position)
      (q := fun e' ↦ wanted e' && place < e'.position && e'.position < e.position)
      (fun e' _ h ↦ by
        simp only [Bool.and_eq_true, decide_eq_true_eq] at h ⊢
        exact ⟨⟨h.1.1, hlt.trans h.1.2⟩, h.2⟩) hmem
      (by simpa [hwanted, hlt] using hpassed) (by simp)
    omega
  · exfalso
    apply hpassed
    rw [hend]
    split
    · exact Position.le_atHorizon_of_xid_lt he
    · rename_i hxid
      simp only [Position.le_iff, Event.position_xid] at hplace ⊢
      omega

/-- The place of a reader. -/
def reached (s : Reading) : Position :=
  match decodeEventPosition s.next with
  | .ok parts => parts.place
  | .error _ => ⟨0, 0⟩

theorem Follows.reached_eq {start : Position} (h : Follows realm filters start s place rows) :
    s.reached = place := by
  rw [reached, h.next]
  rfl

/-- A read with a limit that is allowed. -/
def isRead : ReadingAction → Bool
  | .read limit => 1 ≤ limit && limit ≤ EVENT_READ_LIMIT_MAX
  | .writer _ => false

theorem horizon_le_of_step (h : s.step realmId filters a = some t) :
    s.log.horizon ≤ t.log.horizon := by
  rcases step_cases h with ⟨w, log, rfl, hlog, rfl⟩ | ⟨limit, rfl, answer, -, rfl⟩ |
    ⟨limit, rfl, -, rfl⟩
  · exact (EventLog.step_extends hlog).horizon_le
  · exact le_rfl
  · exact le_rfl

theorem events_subset_of_run (h : Run (Reading.step realmId filters) s as t) :
    s.log.events ⊆ t.log.events := by
  refine h.induct (P := fun t ↦ s.log.events ⊆ t.log.events) ?_ (List.Subset.refl _)
  intro s' a t hsub hstep e he
  rcases step_cases hstep with ⟨w, log, rfl, hlog, rfl⟩ | ⟨limit, rfl, answer, -, rfl⟩ |
    ⟨limit, rfl, -, rfl⟩
  · exact (EventLog.step_extends hlog).subset (hsub he)
  · exact hsub he
  · exact hsub he

theorem prefix_of_mapM {rows' : List Event} {received received' : List StoredEvent}
    (h : rows.mapM toStoredEvent = .ok received) (h' : rows'.mapM toStoredEvent = .ok received')
    (hstarts : rows <+: rows') : received <+: received' := by
  obtain ⟨more, rfl⟩ := hstarts
  rw [List.mapM_append, bind_eq_ok_iff] at h'
  obtain ⟨received₀, h₀, h'⟩ := h'
  rw [h, Except.ok.injEq] at h₀
  subst h₀
  rw [bind_eq_ok_iff] at h'
  obtain ⟨others, -, h'⟩ := h'
  rw [pure_eq_ok_iff] at h'
  exact ⟨others, h'⟩

/-- A reader begins with nothing. -/
theorem follows_initial {start : EventPositionParts} {first : EventPosition}
    (hfirst : decodeEventPosition first = .ok start)
    (h : (readingSystem realmId filters first).initial s) :
    s.log.Stored ∧ Follows start.realmId filters start.place s start.place [] := by
  obtain ⟨hlog, hnext, hreceived⟩ := h
  refine ⟨hlog ▸ EventLog.stored_empty, ?_, le_rfl, .inr rfl, ?_, List.Pairwise.nil, fun e ↦ ?_⟩
  · rw [hnext, hfirst]
    rfl
  · rw [hreceived]
    rfl
  · refine ⟨nofun, fun ⟨_, _, hlt, hle⟩ ↦ absurd hle (not_le.mpr hlt)⟩

/-- Writers and reads bring an event that is below the horizon no further away, and a read that is
answered brings it nearer. -/
theorem Follows.ahead_step {start : Position} {e : Event}
    (h : Follows realm filters start s place rows) (he : e.xid < s.log.horizon)
    (hstored : s.log.Stored) (hstep : s.step realmId filters a = some t) :
    ahead (matching realm filters.wants) e t.log t.reached ≤
        ahead (matching realm filters.wants) e s.log s.reached ∧
      ((∃ limit answer, a = .read limit ∧
          readAfter s.log realmId s.next limit filters = .ok answer) →
        ahead (matching realm filters.wants) e t.log t.reached ≤
          ahead (matching realm filters.wants) e s.log s.reached - 1) := by
  rcases step_cases hstep with ⟨w, log, rfl, hlog, rfl⟩ | ⟨limit, rfl, answer, hread, rfl⟩ |
    ⟨limit, rfl, ⟨error, herror⟩, rfl⟩
  · have hahead : ahead (matching realm filters.wants) e log s.reached =
        ahead (matching realm filters.wants) e s.log s.reached :=
      ahead_extends (EventLog.step_extends hlog) he
    exact ⟨hahead.le, nofun⟩
  · obtain ⟨hone, hfollows⟩ := h.read hstored hread
    have hnear : ahead (matching realm filters.wants) e s.log _ ≤
        ahead (matching realm filters.wants) e s.log place - 1 := ahead_pageEnd hone he
    rw [h.reached_eq, hfollows.reached_eq]
    exact ⟨hnear.trans (Nat.sub_le _ _), fun _ ↦ hnear⟩
  · refine ⟨le_rfl, ?_⟩
    rintro ⟨limit', answer, hlimit, hanswer⟩
    cases hlimit
    rw [herror] at hanswer
    cases hanswer

/-- An event below the horizon that the reader wants is got once enough reads were made. -/
theorem Follows.gets {start : EventPositionParts} {e : Event}
    (hrealm : checkRealmId realmId = .ok realm)
    (hfilters : filters.fromTime.all (isSafeInteger ·) = true)
    (h : Follows realm filters start.place s place rows) (hstored : s.log.Stored)
    (hmem : e ∈ s.log.events) (hwanted : matching realm filters.wants e = true)
    (hafter : start.place < e.position) (hfinal : e.xid < s.log.horizon)
    (hrun : Run.Along (Reading.step realmId filters) (fun s _ ↦ s.log.Readable) s as t)
    (hreads : s.log.events.length < as.countP isRead) :
    ∃ stored, toStoredEvent e = .ok stored ∧ stored ∈ t.received := by
  obtain ⟨hstored', place', rows', h', -, -⟩ := h.run hstored hrun.toRun
  have hreads : ahead (matching realm filters.wants) e s.log s.reached ≤ as.countP isRead :=
    ahead_le.trans (by omega)
  have hzero : ahead (matching realm filters.wants) e t.log t.reached = 0 := by
    refine Run.Along.exhausts (μ := fun s ↦ ahead (matching realm filters.wants) e s.log s.reached)
      (P := fun s ↦ s.log.Stored ∧ e.xid < s.log.horizon ∧
        ∃ place rows, Follows realm filters start.place s place rows) ?_ ?_ ?_ hrun
      ⟨hstored, hfinal, place, rows, h⟩ hreads
    · rintro s a t ⟨hstored, hfinal, place, rows, h⟩ - hstep
      obtain ⟨hstored', place', rows', h', -, -⟩ := h.step hstored hstep
      exact ⟨hstored', hfinal.trans_le (horizon_le_of_step hstep), place', rows', h'⟩
    · rintro s a t ⟨hstored, hfinal, place, rows, h⟩ - hstep
      exact (h.ahead_step hfinal hstored hstep).1
    · rintro s a t ⟨hstored, hfinal, place, rows, h⟩ hreadable hstep hread
      refine (h.ahead_step hfinal hstored hstep).2 ?_
      cases a with
      | writer w => cases hread
      | read limit =>
        simp only [isRead, Bool.and_eq_true, decide_eq_true_eq] at hread
        obtain ⟨answer, hanswer⟩ := exists_readAfter hrealm h.next rfl hread.1 hread.2 hfilters
          hreadable
        exact ⟨limit, answer, rfl, hanswer⟩
  have hpassed : e.position ≤ place' := by
    by_contra hnot
    rw [h'.reached_eq, ahead, if_neg hnot] at hzero
    omega
  have hgrown := events_subset_of_run hrun.toRun
  have hrow : e ∈ rows' := (h'.mem_iff e).mpr ⟨hgrown hmem, hwanted, hafter, hpassed⟩
  obtain ⟨stored, hstored, hfor⟩ := exists_mem_of_mapM h'.received hrow
  exact ⟨stored, hfor, hstored⟩

/-- A reader that follows the stream of a realm from a position of that realm has at every moment
the events after its start and up to its place that pass its filter: all that are committed, in the
order of `(xid, seq)`, each once. It never moves back. An event gets below the horizon once no
transaction with its id or a lower one is open, and is then got after as many reads as there are
events, and one. -/
theorem gets_each_once {start : EventPositionParts} {first : EventPosition}
    (hrealm : checkRealmId realmId = .ok start.realmId)
    (hfirst : decodeEventPosition first = .ok start)
    (hfilters : filters.fromTime.all (isSafeInteger ·) = true)
    (hs : (readingSystem realmId filters first).Reachable s) :
    ∃ (place : Position) (rows : List Event),
      decodeEventPosition s.next = .ok (.of start.realmId place) ∧
      start.place ≤ place ∧
      rows.mapM toStoredEvent = .ok s.received ∧
      rows.Pairwise (fun e e' ↦ e.position < e'.position) ∧
      (∀ e, e ∈ rows ↔ e ∈ s.log.events ∧ matching start.realmId filters.wants e = true ∧
        start.place < e.position ∧ e.position ≤ place) ∧
      (∀ as t, Run (Reading.step realmId filters) s as t →
        ∃ place', decodeEventPosition t.next = .ok (.of start.realmId place') ∧ place ≤ place' ∧
          s.received <+: t.received) ∧
      ∀ e ∈ s.log.events, matching start.realmId filters.wants e = true →
        start.place < e.position → (∀ tx ∈ s.log.active, e.xid < tx.xid) →
        ∀ as t, Run.Along (Reading.step realmId filters) (fun s _ ↦ s.log.Readable) s as t →
          s.log.events.length < as.countP isRead →
          ∃ stored, toStoredEvent e = .ok stored ∧ stored ∈ t.received := by
  obtain ⟨s₀, as, hinitial, hrun⟩ := hs
  have h₀ := follows_initial hfirst hinitial
  obtain ⟨hstored, place, rows, h, -, -⟩ := h₀.2.run h₀.1 hrun
  refine ⟨place, rows, h.next, h.le, h.received, h.ordered, h.mem_iff, fun as t hrun ↦ ?_,
    fun e hmem hwanted hafter hended as t hrun hreads ↦ ?_⟩
  · obtain ⟨-, place', rows', h', hle, hstarts⟩ := h.run hstored hrun
    exact ⟨place', h'.next, hle, prefix_of_mapM h.received h'.received hstarts⟩
  · have hfinal : e.xid < s.log.horizon := EventLog.le_horizon_iff.mpr
      ⟨hstored.xid_lt e (mem_written.mpr (.inl hmem)), hended⟩
    exact h.gets hrealm hfilters hstored hmem hwanted hafter hfinal hrun hreads

/-! ### A late commit -/

section Sample

private def sampleStart : EventPositionParts :=
  ⟨"00000000-0000-0000-0000-000000000001".toList, 0, 0⟩

private def sampleFilters : EventReadFilters := ⟨none, some .user, none, none, none⟩

private def sampleInput (id : Uuid) : EventInput :=
  ⟨id, 1, .user, "user.created", 0, none, none, none, 1⟩

/-- The later of two transactions commits first, and the reader reads before and after the other
does. -/
private def sampleActions : List ReadingAction :=
  [.writer (.begin 1), .writer (.emit 1 (sampleInput 10)), .writer (.begin 2),
    .writer (.emit 2 (sampleInput 20)), .writer (.commit 2), .read 10, .writer (.commit 1), .read 1,
    .read 1]

private def sampleFirst : EventPosition := Base64Url.encode (bytesOf sampleStart.text)

private def sampleRead : Option Reading :=
  exec (Reading.step sampleStart.realmId sampleFilters) ⟨.empty, sampleFirst, []⟩ sampleActions

theorem gets_each_once_late : ∃ s, sampleRead = some s ∧ s.received.map (·.event.id) = [10, 20] ∧
    ∃ (place : Position) (rows : List Event),
      decodeEventPosition s.next = .ok (.of sampleStart.realmId place) ∧
      sampleStart.place ≤ place ∧ rows.mapM toStoredEvent = .ok s.received ∧
      ∀ e, e ∈ rows ↔ e ∈ s.log.events ∧
        matching sampleStart.realmId sampleFilters.wants e = true ∧
        sampleStart.place < e.position ∧ e.position ≤ place := by
  have hids : sampleRead.map (fun s ↦ s.received.map (·.event.id)) = some [10, 20] := by
    decide
  obtain ⟨s, hs, hids⟩ := Option.map_eq_some_iff.mp hids
  have hrange : sampleStart.InRange := ⟨by decide, by decide, by decide⟩
  have hfirst : decodeEventPosition sampleFirst = .ok sampleStart :=
    decodeEventPosition_eq_ok_iff.mpr (encodeEventPosition_eq_ok_iff.mpr ⟨hrange, rfl⟩)
  have hrealm : checkRealmId sampleStart.realmId = .ok sampleStart.realmId := by decide
  have hreachable : (readingSystem sampleStart.realmId sampleFilters sampleFirst).Reachable s :=
    ⟨_, sampleActions, ⟨rfl, rfl, rfl⟩, .of_exec hs⟩
  obtain ⟨place, rows, hnext, hle, hreceived, -, hmem, -, -⟩ :=
    gets_each_once hrealm hfirst (by decide) hreachable
  exact ⟨s, hs, hids, place, rows, hnext, hle, hreceived, hmem⟩

end Sample

end Reading

end QAuth.Events
