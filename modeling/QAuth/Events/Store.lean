import QAuth.Events.Position
import Mathlib.Data.List.Basic
import Mathlib.Tactic.Common

/-!
# The event store

An event is written in the transaction of the change it records and carries that transaction's
id. Its sequence number is handed out at the write and is lost when the transaction rolls back,
so events become visible in commit order, not in `(xid, seq)` order. A reader therefore takes
only the events below its snapshot's horizon, the lowest transaction id still in progress.
-/

namespace QAuth.Events

/-- The values of a `uuid` column, compared for equality only. -/
abbrev Uuid := ℕ

inductive EventCategory
  | user
  | admin
  deriving DecidableEq

/-- What a writer gives for an event: its envelope, as far as a reader of the stream filters on
it. -/
structure EventInput where
  id : Uuid
  realmId : Uuid
  category : EventCategory
  type : String
  time : ℕ
  subjectType : Option String
  subjectId : Option String
  clientId : Option String
  schemaVersion : ℕ
  deriving DecidableEq

/-- A row of the event table: the envelope and its place in the stream. -/
structure Event extends EventInput where
  xid : ℕ
  seq : ℕ
  deriving DecidableEq

/-- The place of an event in its realm's stream. -/
def Event.position (e : Event) : Position := ⟨e.xid, e.seq⟩

@[simp] theorem Event.position_xid (e : Event) : e.position.xid = e.xid := rfl

@[simp] theorem Event.position_seq (e : Event) : e.position.seq = e.seq := rfl

/-- A transaction in progress that was given an id, and the events it wrote so far. It may have
written none: every transaction with an id holds the horizon back. -/
structure Transaction where
  xid : ℕ
  events : List Event
  own : ∀ e ∈ events, e.xid = xid

/-- The transaction after it wrote one more event. -/
def Transaction.write (tx : Transaction) (e : Event) (h : e.xid = tx.xid) : Transaction where
  xid := tx.xid
  events := tx.events ++ [e]
  own := by
    intro e' he'
    rcases List.mem_append.mp he' with he' | he'
    · exact tx.own e' he'
    · rw [List.mem_singleton.mp he', h]

/-- Every event a transaction wrote that has not rolled back. -/
def written (active : List Transaction) (events : List Event) : List Event :=
  events ++ active.flatMap (·.events)

theorem mem_written {active : List Transaction} {events : List Event} {e : Event} :
    e ∈ written active events ↔ e ∈ events ∨ ∃ tx ∈ active, e ∈ tx.events := by
  simp [written]

/-- What the counters and the constraints of the table guarantee: ids of open transactions were
assigned, and sequence numbers and event ids are unique among the written events. -/
structure WellFormed (nextXid nextSeq : ℕ) (active : List Transaction) (events : List Event) :
    Prop where
  seq_pos : 1 ≤ nextSeq
  active_lt : ∀ tx ∈ active, tx.xid < nextXid
  seq_range : ∀ e ∈ written active events, 1 ≤ e.seq ∧ e.seq < nextSeq
  seq_inj : ∀ e ∈ written active events, ∀ e' ∈ written active events, e.seq = e'.seq → e = e'
  id_inj : ∀ e ∈ written active events, ∀ e' ∈ written active events, e.id = e'.id → e = e'

namespace WellFormed

variable {nextXid nextSeq : ℕ} {active active' : List Transaction} {events events' : List Event}

/-- Fewer written events and open transactions keep the constraints. -/
theorem of_subset (h : WellFormed nextXid nextSeq active events)
    (hactive : ∀ tx ∈ active', tx ∈ active)
    (hw : ∀ e ∈ written active' events', e ∈ written active events) :
    WellFormed nextXid nextSeq active' events' :=
  ⟨h.seq_pos, fun tx htx ↦ h.active_lt tx (hactive tx htx),
    fun e he ↦ h.seq_range e (hw e he),
    fun e he e' he' ↦ h.seq_inj e (hw e he) e' (hw e' he'),
    fun e he e' he' ↦ h.id_inj e (hw e he) e' (hw e' he')⟩

/-- A transaction id past those handed out is a new one. -/
theorem begin (h : WellFormed nextXid nextSeq active events) (tx : Transaction)
    (hxid : nextXid ≤ tx.xid) (hnew : tx.events = []) :
    WellFormed (tx.xid + 1) nextSeq (tx :: active) events := by
  have hw : ∀ e ∈ written (tx :: active) events, e ∈ written active events := by
    intro e he
    simpa [mem_written, hnew] using he
  refine ⟨h.seq_pos, ?_, fun e he ↦ h.seq_range e (hw e he),
    fun e he e' he' ↦ h.seq_inj e (hw e he) e' (hw e' he'),
    fun e he e' he' ↦ h.id_inj e (hw e he) e' (hw e' he')⟩
  intro tx' htx'
  rcases List.mem_cons.mp htx' with rfl | htx'
  · exact Nat.lt_succ_self _
  · have := h.active_lt tx' htx'
    omega

/-- An event with the next sequence number and a free id joins the written ones. -/
theorem emit (h : WellFormed nextXid nextSeq active events) (new : Event)
    (hseq : new.seq = nextSeq) (hid : ∀ e ∈ written active events, e.id ≠ new.id)
    (hactive : ∀ tx ∈ active', tx.xid < nextXid)
    (hw : ∀ e ∈ written active' events, e ∈ written active events ∨ e = new) :
    WellFormed nextXid (nextSeq + 1) active' events := by
  have hlt : ∀ e ∈ written active events, e.seq < new.seq :=
    fun e he ↦ hseq ▸ (h.seq_range e he).2
  have hpos := h.seq_pos
  refine ⟨by omega, hactive, ?_, ?_, ?_⟩
  · intro e he
    rcases hw e he with he | rfl
    · have := h.seq_range e he
      omega
    · omega
  · intro e he e' he' heq
    rcases hw e he with he | rfl <;> rcases hw e' he' with he' | rfl
    · exact h.seq_inj e he e' he' heq
    · exact absurd heq (hlt e he).ne
    · exact absurd heq.symm (hlt e' he').ne
    · rfl
  · intro e he e' he' heq
    rcases hw e he with he | rfl <;> rcases hw e' he' with he' | rfl
    · exact h.id_inj e he e' he' heq
    · exact absurd heq (hid e he)
    · exact absurd heq.symm (hid e' he')
    · rfl

end WellFormed

/-- The event table with the transactions in progress. -/
structure EventLog where
  /-- Every transaction id below it was handed out. -/
  nextXid : ℕ
  /-- The next value of the identity column `seq`. -/
  nextSeq : ℕ
  active : List Transaction
  /-- The committed rows. -/
  events : List Event
  wellFormed : WellFormed nextXid nextSeq active events

namespace EventLog

/-- The table before any transaction. -/
def empty : EventLog where
  nextXid := 1
  nextSeq := 1
  active := []
  events := []
  wellFormed := ⟨le_rfl, by simp, by simp [written], by simp [written], by simp [written]⟩

variable {log log' log'' : EventLog}

/-- The lowest transaction id in progress, or the next one when none is: every event of a lower
id is final. -/
def horizon (log : EventLog) : ℕ :=
  log.active.foldr (fun tx h ↦ min tx.xid h) log.nextXid

private theorem le_foldr_min {active : List Transaction} {next n : ℕ} :
    n ≤ active.foldr (fun tx h ↦ min tx.xid h) next ↔ n ≤ next ∧ ∀ tx ∈ active, n ≤ tx.xid := by
  induction active with
  | nil => simp
  | cons tx active ih =>
    simp only [List.foldr_cons, le_min_iff, ih, List.forall_mem_cons]
    tauto

theorem le_horizon_iff {n : ℕ} :
    n ≤ log.horizon ↔ n ≤ log.nextXid ∧ ∀ tx ∈ log.active, n ≤ tx.xid :=
  le_foldr_min

theorem horizon_le_nextXid : log.horizon ≤ log.nextXid :=
  (le_horizon_iff.mp le_rfl).1

/-- A transaction in progress is at or past the horizon. -/
theorem horizon_le_of_active {tx : Transaction} (h : tx ∈ log.active) : log.horizon ≤ tx.xid :=
  (le_horizon_iff.mp le_rfl).2 tx h

theorem seq_pos_of_committed {e : Event} (h : e ∈ log.events) : 1 ≤ e.seq :=
  (log.wellFormed.seq_range e (mem_written.mpr (.inl h))).1

theorem seq_pos_of_active {tx : Transaction} {e : Event} (htx : tx ∈ log.active)
    (he : e ∈ tx.events) : 1 ≤ e.seq :=
  (log.wellFormed.seq_range e (mem_written.mpr (.inr ⟨tx, htx, he⟩))).1

/-- No two committed events have one place in the stream. -/
theorem eq_of_position_eq {e e' : Event} (h : e ∈ log.events) (h' : e' ∈ log.events)
    (heq : e.position = e'.position) : e = e' :=
  log.wellFormed.seq_inj e (mem_written.mpr (.inl h)) e' (mem_written.mpr (.inl h'))
    (congrArg Position.seq heq)

/-! ### Writing transactions -/

/-- A transaction is assigned an id: any id past those handed out. -/
def begin (log : EventLog) (xid : ℕ) : Option EventLog :=
  if h : log.nextXid ≤ xid then
    some {
      log with
      nextXid := xid + 1
      active := ⟨xid, [], by simp⟩ :: log.active
      wellFormed := log.wellFormed.begin ⟨xid, [], by simp⟩ h rfl }
  else none

/-- The transaction with this id, if it is in progress. -/
def transaction (log : EventLog) (xid : ℕ) : Option Transaction :=
  log.active.find? fun tx ↦ tx.xid = xid

theorem transaction_eq_some {xid : ℕ} {tx : Transaction} (h : log.transaction xid = some tx) :
    tx ∈ log.active ∧ tx.xid = xid :=
  ⟨List.mem_of_find?_eq_some h, by simpa using List.find?_some h⟩

/-- The open transactions but `tx`. -/
def others (log : EventLog) (tx : Transaction) : List Transaction :=
  log.active.filter (·.xid ≠ tx.xid)

theorem mem_active_of_others {tx tx' : Transaction} (h : tx' ∈ log.others tx) :
    tx' ∈ log.active :=
  (List.mem_filter.mp h).1

/-- The row an emitted event is stored as. -/
def row (log : EventLog) (tx : Transaction) (input : EventInput) : Event :=
  { input with xid := tx.xid, seq := log.nextSeq }

theorem written_write {tx : Transaction} (htx : tx ∈ log.active) {new : Event}
    {h : new.xid = tx.xid} :
    ∀ e ∈ written (tx.write new h :: log.others tx) log.events,
      e ∈ written log.active log.events ∨ e = new := by
  intro e he
  simp only [mem_written, List.mem_cons, exists_eq_or_imp, Transaction.write, List.mem_append,
    List.not_mem_nil, or_false] at he ⊢
  rcases he with he | (he | he) | ⟨tx', htx', he⟩
  · exact .inl (.inl he)
  · exact .inl (.inr ⟨tx, htx, he⟩)
  · exact .inr he
  · exact .inl (.inr ⟨tx', mem_active_of_others htx', he⟩)

theorem active_write_lt {tx : Transaction} (htx : tx ∈ log.active) {new : Event}
    {h : new.xid = tx.xid} : ∀ tx' ∈ tx.write new h :: log.others tx, tx'.xid < log.nextXid := by
  intro tx' htx'
  rcases List.mem_cons.mp htx' with rfl | htx'
  · exact log.wellFormed.active_lt tx htx
  · exact log.wellFormed.active_lt tx' (mem_active_of_others htx')

/-- The transaction `xid` writes an event: the identity column hands out the next number. An id
that is taken breaks `events_id_unique`. -/
def emit (log : EventLog) (xid : ℕ) (input : EventInput) : Option EventLog :=
  match htx : log.transaction xid with
  | none => none
  | some tx =>
    if hid : ∀ e ∈ written log.active log.events, e.id ≠ input.id then
      some {
        log with
        nextSeq := log.nextSeq + 1
        active := tx.write (log.row tx input) rfl :: log.others tx
        wellFormed := log.wellFormed.emit (log.row tx input) rfl hid
          (active_write_lt (transaction_eq_some htx).1)
          (written_write (transaction_eq_some htx).1) }
    else none

/-- The transaction `xid` commits: its events become visible. -/
def commit (log : EventLog) (xid : ℕ) : Option EventLog :=
  match htx : log.transaction xid with
  | none => none
  | some tx =>
    some {
      log with
      active := log.others tx
      events := log.events ++ tx.events
      wellFormed := by
        refine log.wellFormed.of_subset (fun tx' ↦ mem_active_of_others) fun e he ↦ ?_
        simp only [mem_written, List.mem_append] at he ⊢
        rcases he with (he | he) | ⟨tx', htx', he⟩
        · exact .inl he
        · exact .inr ⟨tx, (transaction_eq_some htx).1, he⟩
        · exact .inr ⟨tx', mem_active_of_others htx', he⟩ }

/-- The transaction `xid` rolls back: its events never become visible. -/
def rollback (log : EventLog) (xid : ℕ) : Option EventLog :=
  match log.transaction xid with
  | none => none
  | some tx =>
    some {
      log with
      active := log.others tx
      wellFormed := by
        refine log.wellFormed.of_subset (fun tx' ↦ mem_active_of_others) fun e he ↦ ?_
        simp only [mem_written] at he ⊢
        rcases he with he | ⟨tx', htx', he⟩
        · exact .inl he
        · exact .inr ⟨tx', mem_active_of_others htx', he⟩ }

/-- What a writing transaction does to the log. -/
inductive WriterAction
  | begin (xid : ℕ)
  | emit (xid : ℕ) (input : EventInput)
  | commit (xid : ℕ)
  | rollback (xid : ℕ)

def step (log : EventLog) : WriterAction → Option EventLog
  | .begin xid => log.begin xid
  | .emit xid input => log.emit xid input
  | .commit xid => log.commit xid
  | .rollback xid => log.rollback xid

/-! ### What a reader can rely on -/

/-- What writers can do to a log, as a reader of the committed rows sees it: rows are added, past
the horizon, and the horizon does not move back. -/
structure Extends (log log' : EventLog) : Prop where
  horizon_le : log.horizon ≤ log'.horizon
  appended : ∃ new, log'.events = log.events ++ new ∧ ∀ e ∈ new, log.horizon ≤ e.xid

theorem Extends.refl (log : EventLog) : Extends log log :=
  ⟨le_rfl, [], by simp, by simp⟩

theorem Extends.trans (h : Extends log log') (h' : Extends log' log'') : Extends log log'' := by
  obtain ⟨new, hnew, hlate⟩ := h.appended
  obtain ⟨new', hnew', hlate'⟩ := h'.appended
  refine ⟨h.horizon_le.trans h'.horizon_le, new ++ new', by simp [hnew', hnew], ?_⟩
  intro e he
  rcases List.mem_append.mp he with he | he
  · exact hlate e he
  · exact h.horizon_le.trans (hlate' e he)

/-- A committed event stays. -/
theorem Extends.subset (h : Extends log log') {e : Event} (he : e ∈ log.events) :
    e ∈ log'.events := by
  obtain ⟨new, hnew, -⟩ := h.appended
  rw [hnew]
  exact List.mem_append_left _ he

/-- An event is either committed already or past the horizon. -/
theorem Extends.mem_or_late (h : Extends log log') {e : Event} (he : e ∈ log'.events) :
    e ∈ log.events ∨ log.horizon ≤ e.xid := by
  obtain ⟨new, hnew, hlate⟩ := h.appended
  rw [hnew] at he
  exact (List.mem_append.mp he).imp_right (hlate e)

/-- What becomes visible comes after every place at or before the horizon. -/
theorem Extends.mem_or_lt (h : Extends log log') {e : Event} (he : e ∈ log'.events)
    {p : Position} (hp : p ≤ .atHorizon log.horizon) : e ∈ log.events ∨ p < e.position :=
  (h.mem_or_late he).imp_right fun hlate ↦
    lt_of_le_of_lt hp (Position.atHorizon_lt hlate (log'.seq_pos_of_committed he))

private theorem extends_of_active (hnext : log.nextXid ≤ log'.nextXid)
    (hactive : ∀ tx ∈ log'.active, log.horizon ≤ tx.xid) (new : List Event)
    (hevents : log'.events = log.events ++ new) (hnew : ∀ e ∈ new, log.horizon ≤ e.xid) :
    Extends log log' :=
  ⟨le_horizon_iff.mpr ⟨horizon_le_nextXid.trans hnext, hactive⟩, new, hevents, hnew⟩

theorem begin_extends {xid : ℕ} (h : log.begin xid = some log') : Extends log log' := by
  unfold begin at h
  split at h
  · rename_i hxid
    cases h
    refine extends_of_active (by simp only; omega) ?_ [] (by simp) (by simp)
    intro tx htx
    rcases List.mem_cons.mp htx with rfl | htx
    · exact horizon_le_nextXid.trans hxid
    · exact horizon_le_of_active htx
  · cases h

theorem emit_extends {xid : ℕ} {input : EventInput} (h : log.emit xid input = some log') :
    Extends log log' := by
  unfold emit at h
  split at h
  · cases h
  · rename_i tx htx
    split at h
    · cases h
      refine extends_of_active le_rfl ?_ [] (by simp) (by simp)
      intro tx' htx'
      rcases List.mem_cons.mp htx' with rfl | htx'
      · change log.horizon ≤ tx.xid
        exact horizon_le_of_active (transaction_eq_some htx).1
      · exact horizon_le_of_active (mem_active_of_others htx')
    · cases h

theorem commit_extends {xid : ℕ} (h : log.commit xid = some log') : Extends log log' := by
  unfold commit at h
  split at h
  · cases h
  · rename_i tx htx
    cases h
    refine extends_of_active le_rfl
      (fun tx' htx' ↦ horizon_le_of_active (mem_active_of_others htx')) tx.events rfl ?_
    intro e he
    rw [tx.own e he]
    exact horizon_le_of_active (transaction_eq_some htx).1

theorem rollback_extends {xid : ℕ} (h : log.rollback xid = some log') : Extends log log' := by
  unfold rollback at h
  split at h
  · cases h
  · cases h
    exact extends_of_active le_rfl
      (fun tx' htx' ↦ horizon_le_of_active (mem_active_of_others htx')) [] (by simp) (by simp)

/-- No writer takes a committed event away or lowers the horizon, and what becomes visible is
past the horizon. -/
theorem step_extends {a : WriterAction} (h : log.step a = some log') : Extends log log' := by
  cases a with
  | begin xid => exact begin_extends h
  | emit xid input => exact emit_extends h
  | commit xid => exact commit_extends h
  | rollback xid => exact rollback_extends h

end EventLog

end QAuth.Events
