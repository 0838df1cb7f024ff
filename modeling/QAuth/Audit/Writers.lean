import QAuth.Audit.Chain
import QAuth.Foundation.Run

/-!
# Writing the admin audit log

Transactions that append rows (`appendAdminAudit`) and prune old ones (`admin_audit_log_prune`),
side by side. Each call takes the realm's chain lock first, which lasts to the end of the
transaction, and reads committed rows; what a transaction wrote is seen by no other until it
commits. A transaction may write to several realms, and may roll back wherever it is.
-/

namespace QAuth.Audit

open HashChain Table Transition

/-! ### The writers -/

/-- The `seq` and `row_hash` the next row follows: the newest row, else the newest checkpoint. -/
def readChainHead (db : AuditDb) (realmId : String) : ℕ × Digest :=
  match (realmRows db realmId).getLast? with
  | some row => (row.seq, row.rowHash)
  | none =>
    match readNewestCheckpoint db realmId with
    | some checkpoint => (checkpoint.seq, checkpoint.rowHash)
    | none => (0, ADMIN_AUDIT_GENESIS_HASH)

/-- The row that an entry of `draft`'s content becomes, once the lock is held; `stored` is the
content as Postgres returns it, which may write a JSON column in another way. Nothing is appended
where the stored row does not hash to its `row_hash`. -/
def appendAdminAudit (sha256 : Sha256) (db : AuditDb) (draft : AdminAuditRowContent) (now : ℤ)
    (stored : AdminAuditRowContent) : Option AdminAuditRecord :=
  let head := readChainHead db draft.realmId
  let content := { draft with seq := head.1 + 1, createdAt := now }
  match computeAdminAuditRowHash sha256 head.2 content with
  | .error _ => none
  | .ok rowHash =>
    match computeAdminAuditRowHash sha256 head.2 stored with
    | .error _ => none
    | .ok computed =>
      if stored.realmId = content.realmId ∧ stored.seq = content.seq ∧ computed = rowHash then
        some { stored with prevHash := head.2, rowHash }
      else none

/-- One day, in milliseconds, times the days that a row is kept. -/
def RETENTION_FLOOR_MS : ℤ := 90 * 86400000

/-- Each row names the hash of the one before it. -/
def unbroken : Digest → List AdminAuditRecord → Bool
  | _, [] => true
  | expectedPrev, row :: rows => row.prevHash = expectedPrev && unbroken row.rowHash rows

/-- What `admin_audit_log_prune` removes up to: the `row_hash` of the row at `throughSeq`, where
the trigger lets a checkpoint stand there. -/
def adminAuditLogPrune (db : AuditDb) (realmId : String) (throughSeq : ℕ) (now : ℤ) :
    Option Digest :=
  match (realmRows db realmId).find? (·.seq = throughSeq) with
  | none => none
  | some row =>
    let prev := match readNewestCheckpoint db realmId with
      | some checkpoint => (checkpoint.seq, checkpoint.rowHash)
      | none => (0, ADMIN_AUDIT_GENESIS_HASH)
    let covered := (realmRows db realmId).filter fun row ↦ prev.1 < row.seq ∧ row.seq ≤ throughSeq
    if prev.1 < throughSeq ∧ covered.length = throughSeq - prev.1 ∧ unbroken prev.2 covered ∧
        ∀ row ∈ covered, row.createdAt ≤ now - RETENTION_FLOOR_MS then
      some row.rowHash
    else none

/-- What a transaction has written. -/
inductive Change
  | append (row : AdminAuditRecord)
  /-- The checkpoint, and the deletion of the rows that it covers. -/
  | prune (checkpoint : AdminAuditCheckpoint)

def Change.realmId : Change → String
  | .append row => row.realmId
  | .prune checkpoint => checkpoint.realmId

/-- The tables with a change. -/
def AuditDb.apply (db : AuditDb) : Change → AuditDb
  | .append row => { db with log := db.log ++ [row] }
  | .prune checkpoint =>
    { log := db.log.filter fun row ↦
        ¬ (row.realmId = checkpoint.realmId ∧ row.seq ≤ checkpoint.seq)
      checkpoints := db.checkpoints ++ [checkpoint] }

/-! ### The transition system -/

structure WriterState where
  /-- What is committed. -/
  db : AuditDb
  /-- Which transaction holds a realm's chain lock. -/
  holder : String → Option ℕ
  /-- What each open transaction has written. -/
  changes : ℕ → List Change

inductive WriterAction
  | lock (tx : ℕ) (realmId : String)
  | append (tx : ℕ) (draft : AdminAuditRowContent) (now : ℤ) (stored : AdminAuditRowContent)
  | prune (tx : ℕ) (realmId : String) (throughSeq : ℕ) (now : ℤ)
  | commit (tx : ℕ)
  | rollback (tx : ℕ)

/-- What a transaction sees: what is committed, and what it has written itself. -/
def WriterState.view (s : WriterState) (tx : ℕ) : AuditDb :=
  (s.changes tx).foldl AuditDb.apply s.db

/-- The state once a transaction has written more. -/
def WriterState.write (s : WriterState) (tx : ℕ) (change : Change) : WriterState :=
  { s with changes := Function.update s.changes tx (s.changes tx ++ [change]) }

/-- The state once a transaction has ended, which leaves `db` committed. -/
def WriterState.finish (s : WriterState) (tx : ℕ) (db : AuditDb) : WriterState where
  db := db
  holder realmId := if s.holder realmId = some tx then none else s.holder realmId
  changes := Function.update s.changes tx []

/-- One step. A call is made with the realm's lock held; a lock that another transaction holds is
waited for, and a call that fails is a step to nowhere, after which the transaction can roll
back. -/
def WriterState.step (sha256 : Sha256) (s : WriterState) : WriterAction → Option WriterState
  | .lock tx realmId =>
    if s.holder realmId = none then
      some { s with holder := Function.update s.holder realmId (some tx) }
    else none
  | .append tx draft now stored =>
    if s.holder draft.realmId = some tx then
      (appendAdminAudit sha256 (s.view tx) draft now stored).map fun row ↦
        s.write tx (.append row)
    else none
  | .prune tx realmId throughSeq now =>
    if s.holder realmId = some tx then
      (adminAuditLogPrune (s.view tx) realmId throughSeq now).map fun rowHash ↦
        s.write tx (.prune { realmId, seq := throughSeq, rowHash })
    else none
  | .commit tx => some (s.finish tx (s.view tx))
  | .rollback tx => some (s.finish tx s.db)

/-- The writers over empty tables. -/
def writerSystem (sha256 : Sha256) : System WriterState WriterAction where
  initial s := s.db = ⟨[], []⟩ ∧ (∀ realmId, s.holder realmId = none) ∧ ∀ tx, s.changes tx = []
  step := WriterState.step sha256

/-! ### One realm at a time -/

/-- The rows of one realm in both tables. -/
def AuditDb.slice (db : AuditDb) (realmId : String) : AuditDb where
  log := db.log.filter (·.realmId = realmId)
  checkpoints := db.checkpoints.filter (·.realmId = realmId)

variable {sha256 : Sha256} {db db' : AuditDb} {realmId : String} {change : Change}

theorem slice_apply_of_ne (h : change.realmId ≠ realmId) :
    (db.apply change).slice realmId = db.slice realmId := by
  cases change with
  | append row =>
    have hrow : decide (row.realmId = realmId) = false := decide_eq_false h
    simp [AuditDb.apply, AuditDb.slice, List.filter_append, hrow]
  | prune checkpoint =>
    have hcheckpoint : decide (checkpoint.realmId = realmId) = false := decide_eq_false h
    simp only [AuditDb.apply, AuditDb.slice, List.filter_append, List.filter_filter,
      List.filter_cons, hcheckpoint, List.filter_nil]
    congr 1
    · refine List.filter_congr fun row _ ↦ ?_
      rw [Bool.eq_iff_iff]
      simp only [Bool.and_eq_true, decide_eq_true_eq, not_and, not_le, and_iff_left_iff_imp]
      intro hrow heq
      exact absurd (heq.symm.trans hrow) h
    · exact List.append_nil _

/-- The realm's rows after some changes depend on its rows before, and on its changes. -/
theorem slice_foldl_congr {changes : List Change} (h : db.slice realmId = db'.slice realmId) :
    (changes.foldl AuditDb.apply db).slice realmId =
      (changes.foldl AuditDb.apply db').slice realmId := by
  induction changes generalizing db db' with
  | nil => exact h
  | cons change changes ih =>
    refine ih ?_
    by_cases hrealm : change.realmId = realmId
    · have hlog : db.log.filter (·.realmId = realmId) = db'.log.filter (·.realmId = realmId) :=
        congrArg AuditDb.log h
      have hcheckpoints : db.checkpoints.filter (·.realmId = realmId) =
          db'.checkpoints.filter (·.realmId = realmId) := congrArg AuditDb.checkpoints h
      cases change with
      | append row =>
        simp only [AuditDb.apply, AuditDb.slice, List.filter_append, hlog, hcheckpoints]
      | prune checkpoint =>
        simp only [AuditDb.apply, AuditDb.slice, List.filter_append, hcheckpoints]
        congr 1
        rw [List.filter_comm, hlog, List.filter_comm]
    · rw [slice_apply_of_ne hrealm, slice_apply_of_ne hrealm]
      exact h

theorem slice_foldl_of_ne {changes : List Change} (h : ∀ c ∈ changes, c.realmId ≠ realmId) :
    (changes.foldl AuditDb.apply db).slice realmId = db.slice realmId := by
  induction changes generalizing db with
  | nil => rfl
  | cons change changes ih =>
    rw [List.foldl_cons, ih fun c hc ↦ h c (List.mem_cons_of_mem _ hc)]
    exact slice_apply_of_ne (h change List.mem_cons_self)

/-! ### A linear chain -/

/-- The realm's rows stand in the order they were appended, linked from its newest checkpoint on,
which is the last one written. -/
structure Linear (sha256 : Sha256) (db : AuditDb) (realmId : String) : Prop where
  linked : Linked (rowFormat sha256) (chainStart db realmId).1 (chainStart db realmId).2
    (db.slice realmId).log
  checkpoints : (db.slice realmId).checkpoints.Pairwise fun a b ↦ a.seq < b.seq

theorem readNewestCheckpoint_eq (h : (db.slice realmId).checkpoints.Pairwise
    fun a b ↦ a.seq < b.seq) :
    readNewestCheckpoint db realmId = (db.slice realmId).checkpoints.getLast? := by
  rw [readNewestCheckpoint]
  exact congrArg List.getLast? (orderBy_eq_self (h.imp fun h ↦ Nat.le_of_lt h))

theorem readNewestCheckpoint_congr (h : db.slice realmId = db'.slice realmId) :
    readNewestCheckpoint db realmId = readNewestCheckpoint db' realmId :=
  congrArg (fun d : AuditDb ↦
    (orderBy (fun c : AdminAuditCheckpoint ↦ c.seq) d.checkpoints).getLast?) h

theorem Linear.congr (hs : Linear sha256 db realmId) (h : db.slice realmId = db'.slice realmId) :
    Linear sha256 db' realmId := by
  have hstart : chainStart db' realmId = chainStart db realmId := by
    rw [chainStart, chainStart, readNewestCheckpoint_congr h]
  constructor
  · rw [hstart, ← h]
    exact hs.linked
  · rw [← h]
    exact hs.checkpoints

namespace Linear

theorem realmRows_eq (h : Linear sha256 db realmId) :
    realmRows db realmId = (db.slice realmId).log :=
  orderBy_eq_self (h.linked.pairwise.1.imp fun h ↦ Nat.le_of_lt h)

theorem readChainHead_eq (h : Linear sha256 db realmId) :
    (readChainHead db realmId).1 + 1 =
        (chainStart db realmId).1 + (db.slice realmId).log.length ∧
      (readChainHead db realmId).2 =
        lastHash (rowFormat sha256) (chainStart db realmId).2 (db.slice realmId).log := by
  have hlinked := h.linked
  rw [readChainHead, h.realmRows_eq]
  rcases List.eq_nil_or_concat (db.slice realmId).log with hnil | ⟨front, row, hrows⟩
  · rw [hnil, List.getLast?_nil, chainStart]
    cases readNewestCheckpoint db realmId <;> exact ⟨rfl, rfl⟩
  · rw [List.concat_eq_append] at hrows
    rw [hrows] at hlinked ⊢
    rw [List.getLast?_concat, lastHash_append_singleton, List.length_append,
      List.length_singleton]
    have hseq : row.seq = (chainStart db realmId).1 + front.length := hlinked.follows.seq
    refine ⟨?_, rfl⟩
    dsimp only
    omega

theorem append (h : Linear sha256 db realmId) {draft stored : AdminAuditRowContent} {now : ℤ}
    {row : AdminAuditRecord} (hrealm : draft.realmId = realmId)
    (hrow : appendAdminAudit sha256 db draft now stored = some row) :
    row.realmId = realmId ∧ Linear sha256 (db.apply (.append row)) realmId := by
  rw [appendAdminAudit] at hrow
  dsimp only at hrow
  split at hrow
  · cases hrow
  case h_2 rowHash hcompute =>
  split at hrow
  · cases hrow
  case h_2 computed hstored =>
  obtain ⟨⟨hrealm', hseq, hhash⟩, heq⟩ := Option.ite_none_right_eq_some.mp hrow
  have hrow := (Option.some.inj heq).symm
  rw [hrealm] at hrealm' hseq hstored hrow
  have hown : row.realmId = realmId := by
    rw [hrow]
    exact hrealm'
  obtain ⟨hplace, hlast⟩ := h.readChainHead_eq
  have hslice : ((db.apply (.append row)).slice realmId).log =
      (db.slice realmId).log ++ [row] := by
    simp [AuditDb.apply, AuditDb.slice, List.filter_append, hown]
  have hcheckpoints : ((db.apply (.append row)).slice realmId).checkpoints =
      (db.slice realmId).checkpoints := rfl
  have hstart : chainStart (db.apply (.append row)) realmId = chainStart db realmId := rfl
  refine ⟨hown, ?_, ?_⟩
  · rw [hslice, hstart]
    refine h.linked.concat ⟨?_, ?_, ?_⟩
    · rw [← hplace]
      show row.seq = _
      rw [hrow]
      exact hseq
    · rw [← hlast]
      show row.prevHash = _
      rw [hrow]
    · rw [digest_rowFormat, hrow]
      dsimp only
      rw [hstored, hhash]
      rfl
  · rw [hcheckpoints]
    exact h.checkpoints

theorem prune (h : Linear sha256 db realmId) {throughSeq : ℕ} {now : ℤ} {rowHash : Digest}
    (hprune : adminAuditLogPrune db realmId throughSeq now = some rowHash) :
    Linear sha256 (db.apply (.prune ⟨realmId, throughSeq, rowHash⟩)) realmId := by
  rw [adminAuditLogPrune] at hprune
  split at hprune
  · cases hprune
  case h_2 row hfind =>
  dsimp only at hprune
  obtain ⟨⟨hforward, -⟩, heq⟩ := Option.ite_none_right_eq_some.mp hprune
  obtain rfl := Option.some.inj heq
  have hseq : row.seq = throughSeq := by simpa using List.find?_some hfind
  have hmem := List.mem_of_find?_eq_some hfind
  rw [h.realmRows_eq] at hmem
  obtain ⟨before, after, hrows⟩ := List.append_of_mem hmem
  have hlinked := h.linked
  rw [hrows] at hlinked
  have hpair := hlinked.pairwise.1
  rw [List.pairwise_append] at hpair
  obtain ⟨-, hafter, hacross⟩ := hpair
  -- What stays are the rows after the pruned one.
  have hlog : ((db.apply (.prune ⟨realmId, throughSeq, row.rowHash⟩)).slice realmId).log =
      after := by
    have hsame : ((db.apply (.prune ⟨realmId, throughSeq, row.rowHash⟩)).slice realmId).log =
        (db.slice realmId).log.filter fun r ↦ throughSeq < r.seq := by
      simp only [AuditDb.apply, AuditDb.slice, List.filter_filter]
      refine List.filter_congr fun r _ ↦ ?_
      rw [Bool.eq_iff_iff]
      simp only [Bool.and_eq_true, decide_eq_true_eq, not_and, not_le]
      constructor
      · rintro ⟨hrealm, hlt⟩
        exact ⟨hlt hrealm, hrealm⟩
      · rintro ⟨hlt, hrealm⟩
        exact ⟨hrealm, fun _ ↦ hlt⟩
    rw [hsame, hrows, List.filter_append, List.filter_cons]
    have hbefore : before.filter (fun r ↦ throughSeq < r.seq) = [] := by
      rw [List.filter_eq_nil_iff]
      intro r hr hlt
      have hlt : throughSeq < r.seq := of_decide_eq_true hlt
      have hle : r.seq < row.seq := hacross r hr row List.mem_cons_self
      omega
    have hkept : after.filter (fun r ↦ throughSeq < r.seq) = after := by
      rw [List.filter_eq_self]
      intro r hr
      have hlt : row.seq < r.seq := (List.pairwise_cons.mp hafter).1 r hr
      exact decide_eq_true (by omega)
    rw [hbefore, hkept, if_neg (by simp [hseq]), List.nil_append]
  have hcheckpoints :
      ((db.apply (.prune ⟨realmId, throughSeq, row.rowHash⟩)).slice realmId).checkpoints =
        (db.slice realmId).checkpoints ++ [⟨realmId, throughSeq, row.rowHash⟩] := by
    simp [AuditDb.apply, AuditDb.slice, List.filter_append]
  have hpairwise : ((db.slice realmId).checkpoints ++
      [(⟨realmId, throughSeq, row.rowHash⟩ : AdminAuditCheckpoint)]).Pairwise
        fun a b : AdminAuditCheckpoint ↦ a.seq < b.seq := by
    refine List.pairwise_append.mpr ⟨h.checkpoints, List.pairwise_singleton _ _, ?_⟩
    intro a ha b hb
    rw [List.mem_singleton.mp hb]
    rw [readNewestCheckpoint_eq h.checkpoints] at hforward
    obtain ⟨front, last, hlast⟩ :
        ∃ front last, (db.slice realmId).checkpoints = front ++ [last] := by
      rcases List.eq_nil_or_concat (db.slice realmId).checkpoints with hnil | ⟨front, last, hlast⟩
      · rw [hnil] at ha
        cases ha
      · exact ⟨front, last, by rw [hlast, List.concat_eq_append]⟩
    rw [hlast, List.getLast?_concat] at hforward
    have hsorted := h.checkpoints
    rw [hlast] at ha hsorted
    rcases List.mem_append.mp ha with ha | ha
    · exact ((List.pairwise_append.mp hsorted).2.2 a ha last (List.mem_singleton_self _)).trans
        hforward
    · rw [List.mem_singleton.mp ha]
      exact hforward
  have hstart : chainStart (db.apply (.prune ⟨realmId, throughSeq, row.rowHash⟩)) realmId =
      (throughSeq + 1, row.rowHash) := by
    rw [chainStart, readNewestCheckpoint_eq (by rw [hcheckpoints]; exact hpairwise), hcheckpoints,
      List.getLast?_concat]
  refine ⟨?_, by rw [hcheckpoints]; exact hpairwise⟩
  rw [hlog, hstart]
  have hfollows := hlinked.follows
  cases (linked_append.mp hlinked).2 with
  | cons _ tail =>
    rw [← hfollows.seq] at tail
    rw [← hseq]
    exact tail

end Linear

/-! ### Every order of the commits -/

/-- Nothing but a lock's holder has written to its realm, and every chain is linear: as committed,
and as the holder of its lock sees it. -/
structure WriterState.Inv (sha256 : Sha256) (s : WriterState) : Prop where
  held : ∀ tx, ∀ change ∈ s.changes tx, s.holder change.realmId = some tx
  committed : ∀ realmId, Linear sha256 s.db realmId
  seen : ∀ tx realmId, s.holder realmId = some tx → Linear sha256 (s.view tx) realmId

namespace WriterState.Inv

variable {s : WriterState} {tx : ℕ}

/-- What a transaction wrote leaves alone the realms whose lock it does not hold. -/
theorem slice_view (h : s.Inv sha256) (hholder : s.holder realmId ≠ some tx) :
    (s.view tx).slice realmId = s.db.slice realmId :=
  slice_foldl_of_ne fun change hchange heq ↦ hholder (heq ▸ h.held tx change hchange)

theorem lock (h : s.Inv sha256) (hfree : s.holder realmId = none) :
    Inv sha256 { s with holder := Function.update s.holder realmId (some tx) } where
  held tx' change hchange := by
    have hheld := h.held tx' change hchange
    have hne : change.realmId ≠ realmId := by
      intro heq
      rw [heq, hfree] at hheld
      cases hheld
    show Function.update s.holder realmId (some tx) change.realmId = _
    rw [Function.update_of_ne hne]
    exact hheld
  committed := h.committed
  seen tx' realmId' hholder := by
    by_cases heq : realmId' = realmId
    · rw [heq]
      refine (h.committed realmId).congr (h.slice_view ?_).symm
      rw [hfree]
      exact nofun
    · refine h.seen tx' realmId' ?_
      have hholder : Function.update s.holder realmId (some tx) realmId' = some tx' := hholder
      rwa [Function.update_of_ne heq] at hholder

theorem write (h : s.Inv sha256) (hholder : s.holder change.realmId = some tx)
    (hlinear : Linear sha256 ((s.view tx).apply change) change.realmId) :
    Inv sha256 (s.write tx change) where
  held tx' c hc := by
    have hc : c ∈ Function.update s.changes tx (s.changes tx ++ [change]) tx' := hc
    show s.holder c.realmId = some tx'
    by_cases heq : tx' = tx
    · rw [heq] at hc ⊢
      rw [Function.update_self] at hc
      rcases List.mem_append.mp hc with hc | hc
      · exact h.held tx c hc
      · rw [List.mem_singleton.mp hc]
        exact hholder
    · rw [Function.update_of_ne heq] at hc
      exact h.held tx' c hc
  committed := h.committed
  seen tx' realmId' hholder' := by
    have hseen := h.seen tx' realmId' hholder'
    by_cases heq : tx' = tx
    · rw [heq] at hseen ⊢
      have hview : (s.write tx change).view tx = (s.view tx).apply change := by
        simp [view, WriterState.write]
      rw [hview]
      by_cases hrealm : change.realmId = realmId'
      · rw [← hrealm]
        exact hlinear
      · exact hseen.congr (slice_apply_of_ne hrealm).symm
    · have hview : (s.write tx change).view tx' = s.view tx' := by
        simp only [view, WriterState.write, Function.update_of_ne heq]
      rw [hview]
      exact hseen

theorem finish {db : AuditDb} (h : s.Inv sha256) (hdb : ∀ realmId, Linear sha256 db realmId)
    (hslice : ∀ realmId, s.holder realmId ≠ some tx →
      db.slice realmId = s.db.slice realmId) :
    Inv sha256 (s.finish tx db) where
  held tx' c hc := by
    have hc : c ∈ Function.update s.changes tx [] tx' := hc
    have hne : tx' ≠ tx := by
      intro heq
      rw [heq, Function.update_self] at hc
      cases hc
    rw [Function.update_of_ne hne] at hc
    have hheld := h.held tx' c hc
    show (if s.holder c.realmId = some tx then none else s.holder c.realmId) = some tx'
    rw [if_neg (by rw [hheld]; exact fun heq ↦ hne (Option.some.inj heq))]
    exact hheld
  committed := hdb
  seen tx' realmId' hholder := by
    have hholder : (if s.holder realmId' = some tx then none else s.holder realmId') =
      some tx' := hholder
    by_cases hown : s.holder realmId' = some tx
    · rw [if_pos hown] at hholder
      cases hholder
    rw [if_neg hown] at hholder
    have hne : tx' ≠ tx := fun heq ↦ hown (heq ▸ hholder)
    have hview : (s.finish tx db).view tx' = (s.changes tx').foldl AuditDb.apply db := by
      simp only [view, WriterState.finish, Function.update_of_ne hne]
    refine (h.seen tx' realmId' hholder).congr ?_
    rw [hview]
    exact (slice_foldl_congr (hslice realmId' hown)).symm

/-- What a transaction commits keeps every chain linear. -/
theorem commit (h : s.Inv sha256) : Inv sha256 (s.finish tx (s.view tx)) := by
  refine h.finish (fun realmId ↦ ?_) fun realmId hholder ↦ h.slice_view hholder
  by_cases hholder : s.holder realmId = some tx
  · exact h.seen tx realmId hholder
  · exact (h.committed realmId).congr (h.slice_view hholder).symm

theorem rollback (h : s.Inv sha256) : Inv sha256 (s.finish tx s.db) :=
  h.finish h.committed fun _ _ ↦ rfl

end WriterState.Inv

theorem inv_of_initial {s : WriterState} (h : (writerSystem sha256).initial s) :
    s.Inv sha256 := by
  obtain ⟨hdb, hholder, hchanges⟩ := h
  refine ⟨fun tx change hchange ↦ ?_, fun realmId ↦ ?_, fun tx realmId hheld ↦ ?_⟩
  · rw [hchanges] at hchange
    cases hchange
  · rw [hdb]
    exact ⟨.nil _ _, .nil⟩
  · rw [hholder] at hheld
    cases hheld

theorem inv_step {s t : WriterState} {action : WriterAction} (h : s.Inv sha256)
    (hstep : s.step sha256 action = some t) : t.Inv sha256 := by
  cases action with
  | lock tx realmId =>
    obtain ⟨hfree, heq⟩ := Option.ite_none_right_eq_some.mp hstep
    obtain rfl := Option.some.inj heq
    exact h.lock hfree
  | append tx draft now stored =>
    obtain ⟨hholder, hmap⟩ := Option.ite_none_right_eq_some.mp hstep
    obtain ⟨row, hrow, rfl⟩ := Option.map_eq_some_iff.mp hmap
    obtain ⟨hrealm, hlinear⟩ := (h.seen tx draft.realmId hholder).append rfl hrow
    have hchange : (Change.append row).realmId = draft.realmId := hrealm
    refine h.write (hchange ▸ hholder) ?_
    rw [hchange]
    exact hlinear
  | prune tx realmId throughSeq now =>
    obtain ⟨hholder, hmap⟩ := Option.ite_none_right_eq_some.mp hstep
    obtain ⟨rowHash, hprune, rfl⟩ := Option.map_eq_some_iff.mp hmap
    exact h.write hholder ((h.seen tx realmId hholder).prune hprune)
  | commit tx =>
    obtain rfl := Option.some.inj hstep
    exact h.commit
  | rollback tx =>
    obtain rfl := Option.some.inj hstep
    exact h.rollback

theorem inv_invariant : (writerSystem sha256).Invariant (WriterState.Inv sha256) where
  initial _ := inv_of_initial
  step _ _ _ := inv_step

/-- Every realm's chain is linear, whatever the order of the commits. -/
theorem linear_of_reachable {s : WriterState} (h : (writerSystem sha256).Reachable s)
    (realmId : String) : Linear sha256 s.db realmId :=
  (inv_invariant.reachable h).committed realmId

/-- Linear chains keep the rules of the tables. -/
theorem valid_of_linear (h : ∀ realmId, Linear sha256 db realmId) : db.Valid where
  positive row hrow := by
    have hmem : row ∈ (db.slice row.realmId).log :=
      List.mem_filter.mpr ⟨hrow, decide_eq_true rfl⟩
    have hle := (h row.realmId).linked.pairwise.2 row hmem
    have hstart : 1 ≤ (chainStart db row.realmId).1 := by
      rw [chainStart]
      cases readNewestCheckpoint db row.realmId with
      | some anchor => exact Nat.le_add_left 1 anchor.seq
      | none => exact Nat.le_refl 1
    exact Nat.le_trans hstart hle
  unique := by
    rw [List.pairwise_iff_forall_sublist]
    intro a b hsub hrealm heq
    have hslice : [a, b].Sublist (db.slice a.realmId).log := by
      have hfilter := hsub.filter fun row ↦ decide (row.realmId = a.realmId)
      simpa [← hrealm, AuditDb.slice] using hfilter
    have hlt := List.pairwise_iff_forall_sublist.mp (h a.realmId).linked.pairwise.1 hslice
    have hlt : a.seq < b.seq := hlt
    omega

/-- The check passes on every realm's chain. -/
theorem verify_of_linear (h : ∀ realmId, Linear sha256 db realmId) {batchSize : ℕ}
    (hbatch : 0 < batchSize) (realmId : String) :
    (verifyAdminAuditChain sha256 batchSize db realmId).ok := by
  rw [verify_ok_iff (valid_of_linear h) hbatch, (h realmId).realmRows_eq]
  exact (h realmId).linked

end QAuth.Audit
