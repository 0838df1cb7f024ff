import QAuth.Audit.CanonicalJson
import QAuth.Foundation.HashChain

/-!
# The chain of the admin audit log

A row of `admin_audit_log`, the object that its hash covers (`row-hash.ts`), and the check of a
realm's chain (`verifyAdminAuditChain`), which reads the rows page by page from the oldest one.
SHA-256 stands for itself: a function from bytes to 32 bytes.
-/

namespace QAuth.Audit

open Guards HashChain Table

/-! ### Rows -/

abbrev Bytes := List UInt8

/-- What SHA-256 returns, and all that a hash column may hold. -/
abbrev Digest := {bytes : Bytes // bytes.length = 32}

/-- SHA-256, as `node:crypto` computes it. -/
abbrev Sha256 := Bytes → Digest

theorem length_zeros : (List.replicate 32 (0 : UInt8)).length = 32 := List.length_replicate

/-- `prev_hash` of a realm's first row: 32 zero bytes. -/
def ADMIN_AUDIT_GENESIS_HASH : Digest := ⟨List.replicate 32 0, length_zeros⟩

inductive AdminActorKind
  | humanAdmin
  | serviceAccount
  | breakGlassOperator
  | hostOperator
deriving DecidableEq

inductive AdminOperationClass
  | read
  | write
  | security
deriving DecidableEq

inductive AdminAuditOutcome
  | succeeded
  | failed
  | denied
deriving DecidableEq

def AdminActorKind.word : AdminActorKind → String
  | .humanAdmin => "human_admin"
  | .serviceAccount => "service_account"
  | .breakGlassOperator => "break_glass_operator"
  | .hostOperator => "host_operator"

def AdminOperationClass.word : AdminOperationClass → String
  | .read => "read"
  | .write => "write"
  | .security => "security"

def AdminAuditOutcome.word : AdminAuditOutcome → String
  | .succeeded => "succeeded"
  | .failed => "failed"
  | .denied => "denied"

/-- A row's content: every column but the two hashes. An empty JSON column reads as `null`. -/
structure AdminAuditRowContent where
  realmId : String
  seq : ℕ
  actorKind : AdminActorKind
  actorId : String
  actorRealmId : Option String
  actChain : Json
  operationId : String
  operationClass : AdminOperationClass
  effects : Json
  outcome : AdminAuditOutcome
  maskedDiff : Json
  approvals : Json
  requestDigest : Option Digest
  traceId : Option String
  createdAt : ℤ

/-- A row of `admin_audit_log`. -/
structure AdminAuditRecord extends AdminAuditRowContent where
  prevHash : Digest
  rowHash : Digest

/-- A row of `admin_audit_log_checkpoints`. -/
structure AdminAuditCheckpoint where
  realmId : String
  seq : ℕ
  rowHash : Digest

/-- The two tables. -/
structure AuditDb where
  log : List AdminAuditRecord
  checkpoints : List AdminAuditCheckpoint

/-! ### The hash of a row -/

/-- The chain format's id, hashed first. -/
def ADMIN_AUDIT_CHAIN_FORMAT : String := "qauth-admin-audit-chain/1-rc.0"

/-- One byte in lowercase hex. -/
def hexByte (b : UInt8) : List Char :=
  [Nat.digitChar (b.toNat / 16), Nat.digitChar (b.toNat % 16)]

/-- `toString('hex')`. -/
def hex (bytes : Bytes) : String := String.ofList (bytes.flatMap hexByte)

/-- A text column, `null` where it is empty. -/
def textOrNull : Option String → Json
  | some s => .str s
  | none => .null

/-- The members of the object a row's hash covers: every column but the two hashes, under its
column name. -/
def adminAuditHashMembers (row : AdminAuditRowContent) : List (String × Json) :=
  [("realm_id", .str row.realmId),
    ("seq", .num (.ofNat row.seq)),
    ("actor_kind", .str row.actorKind.word),
    ("actor_id", .str row.actorId),
    ("actor_realm_id", textOrNull row.actorRealmId),
    ("act_chain", row.actChain),
    ("operation_id", .str row.operationId),
    ("operation_class", .str row.operationClass.word),
    ("effects", row.effects),
    ("outcome", .str row.outcome.word),
    ("masked_diff", row.maskedDiff),
    ("approvals", row.approvals),
    ("request_digest", textOrNull (row.requestDigest.map fun digest ↦ hex digest.val)),
    ("trace_id", textOrNull row.traceId),
    ("created_at", .num (.ofInt row.createdAt))]

/-- The object a row's hash covers. -/
def adminAuditHashPayload (row : AdminAuditRowContent) : Json := .obj (adminAuditHashMembers row)

def utf8 (text : List Char) : Bytes := (String.ofList text).toByteArray.data.toList

/-- The bytes of a text are those of its characters. -/
theorem utf8_eq_flatMap (text : List Char) : utf8 text = text.flatMap String.utf8EncodeChar := by
  rw [utf8, String.toByteArray_ofList, List.utf8Encode, List.data_toByteArray]

/-- The bytes that a row's hash is taken over. -/
def preimage (prevHash : Digest) (row : AdminAuditRowContent) : Except String Bytes := do
  let text ← canonicalizeJson (adminAuditHashPayload row)
  return utf8 (ADMIN_AUDIT_CHAIN_FORMAT.toList ++ ['\x00']) ++ (prevHash.val ++ utf8 text)

/-- A row's `row_hash`. -/
def computeAdminAuditRowHash (sha256 : Sha256) (prevHash : Digest) (row : AdminAuditRowContent) :
    Except String Digest := do
  let bytes ← preimage prevHash row
  return sha256 bytes

/-! ### What the hash covers -/

/-- The same content, up to the order of members in its JSON columns. -/
structure AdminAuditRowContent.Same (a b : AdminAuditRowContent) : Prop where
  realmId : a.realmId = b.realmId
  seq : a.seq = b.seq
  actorKind : a.actorKind = b.actorKind
  actorId : a.actorId = b.actorId
  actorRealmId : a.actorRealmId = b.actorRealmId
  actChain : a.actChain.Same b.actChain
  operationId : a.operationId = b.operationId
  operationClass : a.operationClass = b.operationClass
  effects : a.effects.Same b.effects
  outcome : a.outcome = b.outcome
  maskedDiff : a.maskedDiff.Same b.maskedDiff
  approvals : a.approvals.Same b.approvals
  requestDigest : a.requestDigest = b.requestDigest
  traceId : a.traceId = b.traceId
  createdAt : a.createdAt = b.createdAt

theorem hexByte_injective {b c : UInt8} {rest rest' : List Char}
    (h : hexByte b ++ rest = hexByte c ++ rest') : b = c ∧ rest = rest' := by
  have hdigit : ∀ i : Fin 16, ∀ j : Fin 16, Nat.digitChar i = Nat.digitChar j → i = j := by decide
  simp only [hexByte, List.cons_append, List.nil_append, List.cons.injEq] at h
  obtain ⟨hhigh, hlow, hrest⟩ := h
  have hb := b.toNat_lt
  have hc := c.toNat_lt
  have hhigh' := hdigit ⟨b.toNat / 16, by omega⟩ ⟨c.toNat / 16, by omega⟩ hhigh
  have hlow' := hdigit ⟨b.toNat % 16, by omega⟩ ⟨c.toNat % 16, by omega⟩ hlow
  rw [Fin.mk.injEq] at hhigh' hlow'
  exact ⟨UInt8.toNat_inj.mp (by omega), hrest⟩

theorem hex_injective {a b : Bytes} (h : hex a = hex b) : a = b := by
  replace h : a.flatMap hexByte = b.flatMap hexByte := String.ofList_injective h
  induction a generalizing b with
  | nil =>
    cases b with
    | nil => rfl
    | cons c b => cases h
  | cons c a ih =>
    cases b with
    | nil => cases h
    | cons d b =>
      rw [List.flatMap_cons, List.flatMap_cons] at h
      obtain ⟨rfl, hrest⟩ := hexByte_injective h
      rw [ih hrest]

theorem utf8_injective {s t : List Char} (h : utf8 s = utf8 t) : s = t := by
  have hbytes : (String.ofList s).toByteArray = (String.ofList t).toByteArray :=
    ByteArray.ext (Array.toList_inj.mp h)
  exact String.ofList_injective (String.toByteArray_inj.mp hbytes)

theorem textOrNull_injective {a b : Option String} (h : (textOrNull a).Same (textOrNull b)) :
    a = b := by
  cases a <;> cases b <;> simp_all [textOrNull, Json.Same, Json.sorted]

/-- Two payloads that are the same are those of the same content. -/
theorem same_of_payload_same {a b : AdminAuditRowContent}
    (h : (adminAuditHashPayload a).Same (adminAuditHashPayload b)) : a.Same b := by
  have hnodup : ((adminAuditHashMembers b).map (·.1)).Nodup := by
    simp only [adminAuditHashMembers, List.map_cons, List.map_nil]
    decide
  have hfield : ∀ (i : ℕ) {key : String} {v w : Json},
      (adminAuditHashMembers a)[i]? = some (key, v) →
      (adminAuditHashMembers b)[i]? = some (key, w) → v.Same w :=
    fun i _ _ _ hv hw ↦ h.field (List.mem_of_getElem? hv) hnodup (List.mem_of_getElem? hw)
  have hactor : ∀ k l : AdminActorKind, k.word = l.word → k = l := by
    rintro (_ | _ | _ | _) (_ | _ | _ | _) <;> decide
  have hclass : ∀ k l : AdminOperationClass, k.word = l.word → k = l := by
    rintro (_ | _ | _) (_ | _ | _) <;> decide
  have houtcome : ∀ k l : AdminAuditOutcome, k.word = l.word → k = l := by
    rintro (_ | _ | _) (_ | _ | _) <;> decide
  refine
    { realmId := Json.str.inj (hfield 0 rfl rfl)
      seq := JsNumber.ofNat_injective (Json.num.inj (hfield 1 rfl rfl))
      actorKind := hactor _ _ (Json.str.inj (hfield 2 rfl rfl))
      actorId := Json.str.inj (hfield 3 rfl rfl)
      actorRealmId := textOrNull_injective (hfield 4 rfl rfl)
      actChain := hfield 5 rfl rfl
      operationId := Json.str.inj (hfield 6 rfl rfl)
      operationClass := hclass _ _ (Json.str.inj (hfield 7 rfl rfl))
      effects := hfield 8 rfl rfl
      outcome := houtcome _ _ (Json.str.inj (hfield 9 rfl rfl))
      maskedDiff := hfield 10 rfl rfl
      approvals := hfield 11 rfl rfl
      requestDigest := ?_
      traceId := textOrNull_injective (hfield 13 rfl rfl)
      createdAt := JsNumber.ofInt_injective (Json.num.inj (hfield 14 rfl rfl)) }
  have hdigest := textOrNull_injective (hfield 12 rfl rfl)
  exact Option.map_injective (fun _ _ heq ↦ Subtype.ext (hex_injective heq)) hdigest

/-- What is hashed tells the hash before it and the content. -/
theorem same_of_preimage_eq {p q : Digest} {a b : AdminAuditRowContent} {bytes : Bytes}
    (ha : preimage p a = .ok bytes) (hb : preimage q b = .ok bytes) : p = q ∧ a.Same b := by
  simp only [preimage, bind_eq_ok_iff, pure_eq_ok_iff] at ha hb
  obtain ⟨s, hs, rfl⟩ := ha
  obtain ⟨t, ht, h⟩ := hb
  obtain ⟨hprev, htext⟩ := List.append_inj (List.append_cancel_left h)
    (q.property.trans p.property.symm)
  obtain rfl := utf8_injective htext
  exact ⟨Subtype.ext hprev.symm, same_of_payload_same (same_of_canonicalizeJson_eq hs ht)⟩

/-! ### The check -/

/-- Why a row does not continue the chain. -/
inductive AdminAuditChainBreakReason
  | sequenceMismatch
  | prevHashMismatch
  | rowHashMismatch
  | unhashableRow
deriving DecidableEq

/-- Why a row does not continue the chain at `expectedSeq` after `expectedPrev`, if it does not. -/
def checkRow (sha256 : Sha256) (row : AdminAuditRecord) (expectedSeq : ℕ)
    (expectedPrev : Digest) : Option AdminAuditChainBreakReason :=
  if row.seq ≠ expectedSeq then some .sequenceMismatch
  else if row.prevHash ≠ expectedPrev then some .prevHashMismatch
  else
    match computeAdminAuditRowHash sha256 row.prevHash row.toAdminAuditRowContent with
    | .error _ => some .unhashableRow
    | .ok computed => if computed = row.rowHash then none else some .rowHashMismatch

def readNewestCheckpoint (db : AuditDb) (realmId : String) : Option AdminAuditCheckpoint :=
  (orderBy (·.seq) (db.checkpoints.filter (·.realmId = realmId))).getLast?

/-- A realm's rows, oldest first. -/
def realmRows (db : AuditDb) (realmId : String) : List AdminAuditRecord :=
  orderBy (·.seq) (db.log.filter (·.realmId = realmId))

/-- The next rows after `after`. -/
def readPage (db : AuditDb) (realmId : String) (after batchSize : ℕ) : List AdminAuditRecord :=
  ((realmRows db realmId).filter (after < ·.seq)).take batchSize

/-- How far the check has come. -/
structure Progress where
  expectedSeq : ℕ
  expectedPrev : Digest
  rowsChecked : ℕ
  head : Option (ℕ × Digest)
deriving DecidableEq

/-- The first row that does not verify. -/
structure ChainBreak where
  rowsChecked : ℕ
  seq : ℕ
  reason : AdminAuditChainBreakReason
  expectedSeq : Option ℕ
deriving DecidableEq

def Progress.past (progress : Progress) (row : AdminAuditRecord) : Progress where
  expectedSeq := row.seq + 1
  expectedPrev := row.rowHash
  rowsChecked := progress.rowsChecked + 1
  head := some (row.seq, row.rowHash)

/-- The rows of one page. -/
def checkRows (sha256 : Sha256) :
    Progress → List AdminAuditRecord → Except ChainBreak Progress
  | progress, [] => .ok progress
  | progress, row :: rows =>
    match checkRow sha256 row progress.expectedSeq progress.expectedPrev with
    | some reason =>
      .error
        { rowsChecked := progress.rowsChecked
          seq := row.seq
          reason
          expectedSeq := if reason = .sequenceMismatch then some progress.expectedSeq else none }
    | none => checkRows sha256 (progress.past row) rows

/-- Page after page; every page but the last moves `after`, so there are no more pages than
`rounds`. -/
def verifyLoop (sha256 : Sha256) (db : AuditDb) (realmId : String) (batchSize : ℕ) :
    ℕ → ℕ → Progress → Except ChainBreak Progress
  | 0, _, progress => .ok progress
  | rounds + 1, after, progress => do
    let rows := readPage db realmId after batchSize
    let progress ← checkRows sha256 progress rows
    match rows.getLast? with
    | some last =>
      if rows.length < batchSize then return progress
      else verifyLoop sha256 db realmId batchSize rounds last.seq progress
    | none => return progress

/-- What the check answers. -/
structure AdminAuditChainReport where
  realmId : String
  checkpoint : Option (ℕ × Digest)
  result : Except ChainBreak Progress

/-- The check passed. -/
def AdminAuditChainReport.ok (report : AdminAuditChainReport) : Prop :=
  ∃ progress, report.result = .ok progress

def chainStart (db : AuditDb) (realmId : String) : ℕ × Digest :=
  match readNewestCheckpoint db realmId with
  | some anchor => (anchor.seq + 1, anchor.rowHash)
  | none => (1, ADMIN_AUDIT_GENESIS_HASH)

/-- Check a realm's chain from its oldest retained row to its newest. -/
def verifyAdminAuditChain (sha256 : Sha256) (batchSize : ℕ) (db : AuditDb) (realmId : String) :
    AdminAuditChainReport where
  realmId := realmId
  checkpoint := (readNewestCheckpoint db realmId).map fun anchor ↦ (anchor.seq, anchor.rowHash)
  result :=
    verifyLoop sha256 db realmId batchSize ((realmRows db realmId).length + 1) 0
      { expectedSeq := (chainStart db realmId).1
        expectedPrev := (chainStart db realmId).2
        rowsChecked := 0
        head := none }

/-- Where a row of the log keeps its links. -/
def rowFormat (sha256 : Sha256) : Format AdminAuditRecord Digest where
  seq row := row.seq
  prev row := row.prevHash
  hash row := row.rowHash
  digest row :=
    (computeAdminAuditRowHash sha256 row.prevHash row.toAdminAuditRowContent).toOption

variable {sha256 : Sha256} {db : AuditDb} {realmId : String} {row : AdminAuditRecord}
  {rows : List AdminAuditRecord} {progress : Progress}

theorem digest_rowFormat (sha256 : Sha256) (row : AdminAuditRecord) : (rowFormat sha256).digest row =
    (computeAdminAuditRowHash sha256 row.prevHash row.toAdminAuditRowContent).toOption := by
  simp only [rowFormat]

theorem checkRow_eq_none_iff {expectedSeq : ℕ} {expectedPrev : Digest} :
    checkRow sha256 row expectedSeq expectedPrev = none ↔
      Follows (rowFormat sha256) expectedSeq expectedPrev row := by
  rw [checkRow]
  by_cases hseq : row.seq = expectedSeq
  case neg =>
    rw [if_pos hseq]
    exact ⟨nofun, fun h ↦ absurd h.seq hseq⟩
  rw [if_neg (not_not_intro hseq)]
  by_cases hprev : row.prevHash = expectedPrev
  case neg =>
    rw [if_pos hprev]
    exact ⟨nofun, fun h ↦ absurd h.prev hprev⟩
  rw [if_neg (not_not_intro hprev)]
  have hdigest := digest_rowFormat sha256 row
  cases hcompute : computeAdminAuditRowHash sha256 row.prevHash row.toAdminAuditRowContent with
  | error message =>
    refine ⟨nofun, fun h ↦ ?_⟩
    have := h.digest
    rw [hdigest, hcompute] at this
    cases this
  | ok computed =>
    rw [hcompute] at hdigest
    constructor
    · intro h
      have heq : computed = row.rowHash := by
        by_contra hne
        simp only [if_neg hne] at h
        cases h
      exact ⟨hseq, hprev, by rw [hdigest, heq]; rfl⟩
    · intro h
      have heq := h.digest
      rw [hdigest] at heq
      exact if_pos (Option.some.inj heq)

theorem checkRows_ok_iff : (∃ p, checkRows sha256 progress rows = .ok p) ↔
    Linked (rowFormat sha256) progress.expectedSeq progress.expectedPrev rows := by
  induction rows generalizing progress with
  | nil => exact ⟨fun _ ↦ .nil _ _, fun _ ↦ ⟨progress, rfl⟩⟩
  | cons row rows ih =>
    rw [checkRows]
    cases hcheck : checkRow sha256 row progress.expectedSeq progress.expectedPrev with
    | some reason =>
      refine ⟨nofun, fun h ↦ ?_⟩
      cases h with
      | cons head _ =>
        rw [checkRow_eq_none_iff.mpr head] at hcheck
        cases hcheck
    | none =>
      have hfollows := checkRow_eq_none_iff.mp hcheck
      have hseq : progress.expectedSeq + 1 = row.seq + 1 := by
        rw [← hfollows.seq]
        rfl
      dsimp only
      rw [ih]
      constructor
      · intro h
        refine .cons hfollows ?_
        rw [hseq]
        exact h
      · intro h
        cases h with
        | cons _ tail =>
          rw [hseq] at tail
          exact tail

theorem checkRows_append {rows' : List AdminAuditRecord} :
    checkRows sha256 progress (rows ++ rows') =
      (checkRows sha256 progress rows).bind fun p ↦ checkRows sha256 p rows' := by
  induction rows generalizing progress with
  | nil => rfl
  | cons row rows ih =>
    rw [List.cons_append, checkRows, checkRows]
    cases checkRow sha256 row progress.expectedSeq progress.expectedPrev with
    | some reason => rfl
    | none => exact ih

/-- The rules of the two tables that the check relies on: places count from 1, and no two rows of
a realm share one. -/
structure AuditDb.Valid (db : AuditDb) : Prop where
  positive : ∀ row ∈ db.log, 1 ≤ row.seq
  unique : db.log.Pairwise fun a b ↦ a.realmId = b.realmId → a.seq ≠ b.seq

theorem mem_realmRows : row ∈ realmRows db realmId ↔ row ∈ db.log ∧ row.realmId = realmId := by
  simp [realmRows]

/-- A realm's rows come in the strict order of their places. -/
theorem AuditDb.Valid.pairwise (h : db.Valid) :
    (realmRows db realmId).Pairwise fun a b ↦ a.seq < b.seq := by
  have hle : (realmRows db realmId).Pairwise fun a b ↦ a.seq ≤ b.seq := pairwise_orderBy
  have hne : (realmRows db realmId).Pairwise fun a b ↦ a.seq ≠ b.seq := by
    refine (perm_orderBy.pairwise_iff fun h ↦ h.symm).mpr ?_
    refine (List.Pairwise.filter _ h.unique).imp_of_mem fun {a b} ha hb hab ↦ hab ?_
    rw [of_decide_eq_true (List.mem_filter.mp ha).2, of_decide_eq_true (List.mem_filter.mp hb).2]
  exact (hle.and hne).imp fun h ↦ Nat.lt_of_le_of_ne h.1 h.2

/-- The rows past the last one of a page are those that the page left out. -/
theorem filter_lt_last {todo : List AdminAuditRecord} {n : ℕ} {last : AdminAuditRecord}
    (h : todo.Pairwise fun a b ↦ a.seq < b.seq) (hlast : (todo.take n).getLast? = some last) :
    todo.filter (last.seq < ·.seq) = todo.drop n := by
  have hmem : last ∈ todo.take n := List.mem_of_getLast? hlast
  obtain ⟨front, hfront⟩ := List.getLast?_eq_some_iff.mp hlast
  rw [← List.take_append_drop n todo, List.pairwise_append] at h
  obtain ⟨htake, -, hacross⟩ := h
  conv_lhs => rw [← List.take_append_drop n todo]
  rw [List.filter_append]
  have hnone : (todo.take n).filter (last.seq < ·.seq) = [] := by
    rw [List.filter_eq_nil_iff]
    intro a ha hlt
    have hlt : last.seq < a.seq := of_decide_eq_true hlt
    rw [hfront] at ha htake
    rcases List.mem_append.mp ha with ha | ha
    · have := (List.pairwise_append.mp htake).2.2 a ha last (List.mem_singleton_self _)
      omega
    · rw [List.mem_singleton.mp ha] at hlt
      omega
  have hall : (todo.drop n).filter (last.seq < ·.seq) = todo.drop n := by
    rw [List.filter_eq_self]
    exact fun a ha ↦ decide_eq_true (hacross last hmem a ha)
  rw [hnone, hall, List.nil_append]

theorem verifyLoop_eq (h : db.Valid) {batchSize : ℕ} (hbatch : 0 < batchSize) {rounds after : ℕ}
    {todo : List AdminAuditRecord} (htodo : (realmRows db realmId).filter (after < ·.seq) = todo)
    (hrounds : todo.length < rounds) :
    verifyLoop sha256 db realmId batchSize rounds after progress =
      checkRows sha256 progress todo := by
  induction rounds generalizing after todo progress with
  | zero => omega
  | succ rounds ih =>
    have hsorted : todo.Pairwise fun a b ↦ a.seq < b.seq := htodo ▸ h.pairwise.filter _
    rw [verifyLoop, readPage, htodo]
    cases hlast : (todo.take batchSize).getLast? with
    | none =>
      have hnil : todo = [] := by
        rcases List.take_eq_nil_iff.mp (List.getLast?_eq_none_iff.mp hlast) with h0 | hnil
        · omega
        · exact hnil
      rw [hnil, List.take_nil]
      rfl
    | some last =>
      dsimp only
      by_cases hshort : (todo.take batchSize).length < batchSize
      · rw [List.length_take] at hshort
        have hall : todo.length < batchSize := by omega
        rw [List.take_of_length_le (Nat.le_of_lt hall)]
        simp only [if_pos hall]
        cases checkRows sha256 progress todo <;> rfl
      · have hlt : after < last.seq := by
          have : last ∈ todo := List.mem_of_mem_take (List.mem_of_getLast? hlast)
          rw [← htodo] at this
          exact of_decide_eq_true (List.mem_filter.mp this).2
        have hnext : (realmRows db realmId).filter (last.seq < ·.seq) = todo.drop batchSize := by
          rw [← filter_lt_last hsorted hlast, ← htodo, List.filter_filter]
          refine List.filter_congr fun a _ ↦ ?_
          rw [Bool.eq_iff_iff]
          simp only [Bool.and_eq_true, decide_eq_true_eq]
          omega
        simp only [if_neg hshort]
        have hdrop : (todo.drop batchSize).length < rounds := by
          rw [List.length_drop]
          rw [List.length_take] at hshort
          omega
        conv_rhs => rw [← List.take_append_drop batchSize todo, checkRows_append]
        cases checkRows sha256 progress (todo.take batchSize) with
        | error => rfl
        | ok p => exact ih hnext hdrop

/-- The check passes where the rows of the realm are linked, whatever the size of a page. -/
theorem verify_ok_iff (h : db.Valid) {batchSize : ℕ} (hbatch : 0 < batchSize) :
    (verifyAdminAuditChain sha256 batchSize db realmId).ok ↔
      Linked (rowFormat sha256) (chainStart db realmId).1 (chainStart db realmId).2
        (realmRows db realmId) := by
  have hall : (realmRows db realmId).filter (0 < ·.seq) = realmRows db realmId := by
    rw [List.filter_eq_self]
    exact fun row hrow ↦ decide_eq_true (h.positive row (mem_realmRows.mp hrow).1)
  rw [AdminAuditChainReport.ok, verifyAdminAuditChain]
  dsimp only
  rw [verifyLoop_eq h hbatch hall (Nat.lt_succ_self _)]
  exact checkRows_ok_iff

end QAuth.Audit
