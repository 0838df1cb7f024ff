import QAuth.Audit.Writers
import QAuth.Foundation.Sha256

/-!
# Tampering with the admin audit log

What the check of a realm's chain finds in a history that was modified outside the writers. The
hash is not keyed, so whoever rewrites a row and every row after it, or cuts the newest rows,
leaves a chain that verifies: the rows that were written so all have hashes of their own. Any other
change is found.
-/

namespace QAuth.Audit

open Guards HashChain Transition

/-- No two of the rows are hashed alike unless the same is hashed. -/
def CollisionFree (sha256 : Sha256) (rows : List AdminAuditRecord) : Prop :=
  ∀ r ∈ rows, ∀ r' ∈ rows, ∀ bytes bytes' : Bytes,
    preimage r.prevHash r.toAdminAuditRowContent = .ok bytes →
    preimage r'.prevHash r'.toAdminAuditRowContent = .ok bytes' →
    sha256 bytes = sha256 bytes' → bytes = bytes'

/-- The same content after the same row, up to the order of members in the JSON columns. -/
def AdminAuditRecord.SameHashed (r r' : AdminAuditRecord) : Prop :=
  r.toAdminAuditRowContent.Same r'.toAdminAuditRowContent ∧ r.prevHash = r'.prevHash

/-- The same row, up to the order of members in its JSON columns. -/
def AdminAuditRecord.SameRow (r r' : AdminAuditRecord) : Prop :=
  r.SameHashed r' ∧ r.rowHash = r'.rowHash

/-- The row was altered in place: something that its hash covers and not the hash, or the hash
alone. -/
def AdminAuditRecord.Altered (r r' : AdminAuditRecord) : Prop :=
  ¬ (r.rowHash = r'.rowHash ↔ r.SameHashed r')

/-- The first `k` rows are the same, and each row of `modified` after them has a hash that no row
of `history` has. -/
def RewrittenFrom (k : ℕ) (history modified : List AdminAuditRecord) : Prop :=
  List.Forall₂ AdminAuditRecord.SameRow (history.take k) (modified.take k) ∧
    ∀ r ∈ history, ∀ r' ∈ modified.drop k, r.rowHash ≠ r'.rowHash

variable {sha256 : Sha256} {rows : List AdminAuditRecord} {r r' : AdminAuditRecord}
  {history modified : AuditDb} {realmId : String} {batchSize : ℕ}

theorem payload_same {a b : AdminAuditRowContent} (h : a.Same b) :
    (adminAuditHashPayload a).Same (adminAuditHashPayload b) := by
  have hmembers : sortedMembers (adminAuditHashMembers a) =
      sortedMembers (adminAuditHashMembers b) := by
    simp only [adminAuditHashMembers, sortedMembers, h.realmId, h.seq, h.actorKind, h.actorId,
      h.actorRealmId, h.operationId, h.operationClass, h.outcome, h.requestDigest, h.traceId,
      h.createdAt, show a.actChain.sorted = b.actChain.sorted from h.actChain,
      show a.effects.sorted = b.effects.sorted from h.effects,
      show a.maskedDiff.sorted = b.maskedDiff.sorted from h.maskedDiff,
      show a.approvals.sorted = b.approvals.sorted from h.approvals]
  simp only [Json.Same, adminAuditHashPayload, Json.sorted, hmembers]

/-- The same content after the same row is hashed as the same bytes. -/
theorem preimage_eq_of_same {p : Digest} {a b : AdminAuditRowContent} {bytes bytes' : Bytes}
    (h : a.Same b) (ha : preimage p a = .ok bytes) (hb : preimage p b = .ok bytes') :
    bytes = bytes' := by
  simp only [preimage, bind_eq_ok_iff, pure_eq_ok_iff] at ha hb
  obtain ⟨s, hs, rfl⟩ := ha
  obtain ⟨t, ht, rfl⟩ := hb
  have hsame := payload_same h
  rw [canonicalizeJson_eq_ok hs, canonicalizeJson_eq_ok ht, hsame]

theorem exists_preimage (h : (rowFormat sha256).digest r = some r.rowHash) :
    ∃ bytes, preimage r.prevHash r.toAdminAuditRowContent = .ok bytes ∧
      sha256 bytes = r.rowHash := by
  rw [digest_rowFormat] at h
  rw [computeAdminAuditRowHash] at h
  cases hbytes : preimage r.prevHash r.toAdminAuditRowContent with
  | error message =>
    rw [hbytes] at h
    cases h
  | ok bytes =>
    rw [hbytes] at h
    exact ⟨bytes, rfl, Option.some.inj h⟩

/-- Two rows that hash to their own hashes have one hash when the same is hashed, and only
then. -/
theorem CollisionFree.rowHash_eq_iff (hfree : CollisionFree sha256 rows) (hr : r ∈ rows)
    (hr' : r' ∈ rows) (hdigest : (rowFormat sha256).digest r = some r.rowHash)
    (hdigest' : (rowFormat sha256).digest r' = some r'.rowHash) :
    r.rowHash = r'.rowHash ↔ r.SameHashed r' := by
  obtain ⟨bytes, hbytes, hhash⟩ := exists_preimage hdigest
  obtain ⟨bytes', hbytes', hhash'⟩ := exists_preimage hdigest'
  rw [← hhash, ← hhash']
  constructor
  · intro heq
    have hsame := hfree r hr r' hr' bytes bytes' hbytes hbytes' heq
    rw [hsame] at hbytes
    obtain ⟨hprev, hcontent⟩ := same_of_preimage_eq hbytes hbytes'
    exact ⟨hcontent, hprev⟩
  · rintro ⟨hcontent, hprev⟩
    rw [← hprev] at hbytes'
    rw [preimage_eq_of_same hcontent hbytes hbytes']

theorem digest_of_verify (hvalid : history.Valid) (hbatch : 0 < batchSize)
    (hok : (verifyAdminAuditChain sha256 batchSize history r.realmId).ok)
    (hr : r ∈ history.log) : (rowFormat sha256).digest r = some r.rowHash := by
  rw [verify_ok_iff hvalid hbatch] at hok
  exact hok.digest_eq (mem_realmRows.mpr ⟨hr, rfl⟩)

/-- A history that is modified and still passes has the rows it had, up to a place from which on
all its rows have new hashes. -/
theorem rewritten_of_verify (hbatch : 0 < batchSize) (hvalid : history.Valid)
    (hvalid' : modified.Valid) (hcheckpoints : modified.checkpoints = history.checkpoints)
    (hfree : CollisionFree sha256 (history.log ++ modified.log))
    (hok : (verifyAdminAuditChain sha256 batchSize history realmId).ok)
    (hok' : (verifyAdminAuditChain sha256 batchSize modified realmId).ok) :
    ∃ k ≤ (realmRows modified realmId).length,
      RewrittenFrom k (realmRows history realmId) (realmRows modified realmId) := by
  rw [verify_ok_iff hvalid hbatch] at hok
  rw [verify_ok_iff hvalid' hbatch] at hok'
  have hstart : chainStart modified realmId = chainStart history realmId := by
    simp only [chainStart, readNewestCheckpoint, hcheckpoints]
  rw [hstart] at hok'
  refine fork ?_ ?_ hok hok'
  · intro r hr r' hr' hhash
    have hlog := List.mem_append_left modified.log (mem_realmRows.mp hr).1
    have hlog' := List.mem_append_right history.log (mem_realmRows.mp hr').1
    have hiff := hfree.rowHash_eq_iff hlog hlog' (hok.digest_eq hr) (hok'.digest_eq hr')
    exact ⟨hiff.mp hhash, hhash⟩
  · rintro r r' ⟨⟨hcontent, hprev⟩, -⟩
    exact ⟨hcontent.seq, hprev⟩

/-- The check finds a row that was altered and not hashed again, and any change before a row that
keeps its hash: what passes is the rows as they were, up to a place from which on every row has a
new hash. What the writers write passes, whatever the order of the commits. -/
theorem verifyAdminAuditChain_finds (sha256 : Sha256) {batchSize : ℕ} (hbatch : 0 < batchSize) :
    (∀ history modified : AuditDb, history.Valid → modified.Valid →
      modified.checkpoints = history.checkpoints →
      CollisionFree sha256 (history.log ++ modified.log) →
      (∀ realmId, (verifyAdminAuditChain sha256 batchSize history realmId).ok) →
      (∀ r ∈ history.log, ∀ r' ∈ modified.log, r.Altered r' →
        ¬ (verifyAdminAuditChain sha256 batchSize modified r'.realmId).ok) ∧
      ∀ realmId, (∀ k ≤ (realmRows modified realmId).length,
          ¬ RewrittenFrom k (realmRows history realmId) (realmRows modified realmId)) →
        ¬ (verifyAdminAuditChain sha256 batchSize modified realmId).ok) ∧
    ∀ s, (writerSystem sha256).Reachable s →
      ∀ realmId, (verifyAdminAuditChain sha256 batchSize s.db realmId).ok := by
  refine ⟨fun history modified hvalid hvalid' hcheckpoints hfree hok ↦ ⟨?_, ?_⟩, ?_⟩
  · intro r hr r' hr' haltered hok'
    have hlog := List.mem_append_left modified.log hr
    have hlog' := List.mem_append_right history.log hr'
    exact haltered (hfree.rowHash_eq_iff hlog hlog' (digest_of_verify hvalid hbatch (hok _) hr)
      (digest_of_verify hvalid' hbatch hok' hr'))
  · intro realmId hnone hok'
    obtain ⟨k, hk, hrewritten⟩ := rewritten_of_verify hbatch hvalid hvalid' hcheckpoints hfree
      (hok realmId) hok'
    exact hnone k hk hrewritten
  · intro s hs realmId
    exact verify_of_linear (linear_of_reachable hs) hbatch realmId

/-! ### Two rows of one realm -/

/-- `createHash('sha256')`. -/
def createHash : Sha256 := fun bytes ↦ ⟨Sha256.hash bytes, Sha256.length_hash bytes⟩

/-- The creation of a realm, from the server's host. -/
def firstRow : AdminAuditRecord where
  realmId := "5a0c3d52-1b7e-4f0a-9c1d-2e8f6a7b9c01"
  seq := 1
  actorKind := .hostOperator
  actorId := "root"
  actorRealmId := none
  actChain := .null
  operationId := "realms.create"
  operationClass := .write
  effects := .arr []
  outcome := .succeeded
  maskedDiff := .null
  approvals := .arr []
  requestDigest := none
  traceId := none
  createdAt := 1767225600000
  prevHash := ADMIN_AUDIT_GENESIS_HASH
  rowHash := ⟨[226, 61, 166, 93, 121, 155, 197, 12, 138, 119, 242, 246, 114, 115, 250, 232, 71, 8,
    138, 76, 9, 246, 110, 163, 84, 193, 211, 175, 218, 38, 81, 76], rfl⟩

/-- Its deletion, one minute later. -/
def secondRow : AdminAuditRecord :=
  { firstRow with
    seq := 2
    operationId := "realms.delete"
    createdAt := 1767225660000
    prevHash := firstRow.rowHash
    rowHash := ⟨[0, 214, 154, 149, 28, 185, 45, 251, 221, 60, 172, 22, 36, 233, 73, 104, 148, 177,
      207, 129, 78, 60, 140, 112, 88, 33, 101, 194, 30, 151, 105, 139], rfl⟩ }

/-- The digest of a row, over the bytes of each character. -/
theorem digest_eq (row : AdminAuditRecord) : (rowFormat createHash).digest row =
    (canonicalizeJson (adminAuditHashPayload row.toAdminAuditRowContent)).toOption.map fun text ↦
      createHash (ADMIN_AUDIT_CHAIN_FORMAT.toList.flatMap String.utf8EncodeChar ++ 0 ::
        (row.prevHash.val ++ text.flatMap String.utf8EncodeChar)) := by
  rw [digest_rowFormat, computeAdminAuditRowHash, preimage]
  cases canonicalizeJson (adminAuditHashPayload row.toAdminAuditRowContent) with
  | error message => rfl
  | ok text =>
    simp only [utf8_eq_flatMap, List.flatMap_append]
    simp [Except.toOption]
    rfl

theorem digest_firstRow : (rowFormat createHash).digest firstRow = some firstRow.rowHash := by
  rw [digest_eq]
  decide +kernel

theorem digest_secondRow : (rowFormat createHash).digest secondRow = some secondRow.rowHash := by
  rw [digest_eq]
  decide +kernel

theorem linked_twoRows :
    Linked (rowFormat createHash) 1 ADMIN_AUDIT_GENESIS_HASH [firstRow, secondRow] :=
  .cons ⟨rfl, rfl, digest_firstRow⟩ (.cons ⟨rfl, rfl, digest_secondRow⟩ (.nil _ _))

/-- The linked rows of one realm are a history that passes. -/
theorem linear_of_linked (hrealm : ∀ row ∈ rows, row.realmId = realmId)
    (h : Linked (rowFormat sha256) 1 ADMIN_AUDIT_GENESIS_HASH rows) (other : String) :
    Linear sha256 ⟨rows, []⟩ other := by
  refine ⟨?_, .nil⟩
  show Linked _ 1 ADMIN_AUDIT_GENESIS_HASH (rows.filter (·.realmId = other))
  by_cases hother : realmId = other
  · rw [List.filter_eq_self.mpr fun row hrow ↦ decide_eq_true ((hrealm row hrow).trans hother)]
    exact h
  · rw [List.filter_eq_nil_iff.mpr fun row hrow heq ↦
      hother ((hrealm row hrow).symm.trans (of_decide_eq_true heq))]
    exact .nil _ _

/-- Rows that hash to their own hashes, no two of them to one. -/
theorem collisionFree_of_digest
    (hdigest : ∀ r ∈ rows, (rowFormat sha256).digest r = some r.rowHash)
    (hne : ∀ r ∈ rows, ∀ r' ∈ rows, r.rowHash = r'.rowHash → r = r') :
    CollisionFree sha256 rows := by
  intro r hr r' hr' bytes bytes' hbytes hbytes' heq
  obtain ⟨b, hb, hhash⟩ := exists_preimage (hdigest r hr)
  obtain ⟨b', hb', hhash'⟩ := exists_preimage (hdigest r' hr')
  obtain rfl := Except.ok.inj (hb.symm.trans hbytes)
  obtain rfl := Except.ok.inj (hb'.symm.trans hbytes')
  have hsame := hne r hr r' hr' (hhash.symm.trans (heq.trans hhash'))
  rw [hsame, hbytes'] at hbytes
  exact (Except.ok.inj hbytes).symm

theorem collisionFree_twoRows {rows : List AdminAuditRecord}
    (h : ∀ r ∈ rows, r = firstRow ∨ r = secondRow) : CollisionFree createHash rows := by
  have hne : firstRow.rowHash ≠ secondRow.rowHash := by decide
  refine collisionFree_of_digest (fun r hr ↦ ?_) fun r hr r' hr' heq ↦ ?_
  · rcases h r hr with rfl | rfl
    · exact digest_firstRow
    · exact digest_secondRow
  · rcases h r hr with rfl | rfl <;> rcases h r' hr' with rfl | rfl
    · rfl
    · exact absurd heq hne
    · exact absurd heq.symm hne
    · rfl

theorem linear_twoRows (realmId : String) :
    Linear createHash ⟨[firstRow, secondRow], []⟩ realmId := by
  have hrealm : ∀ row ∈ [firstRow, secondRow], row.realmId = firstRow.realmId := by decide
  exact linear_of_linked hrealm linked_twoRows realmId

theorem linear_firstRow (realmId : String) : Linear createHash ⟨[firstRow], []⟩ realmId := by
  have hrealm : ∀ row ∈ [firstRow], row.realmId = firstRow.realmId := by decide
  exact linear_of_linked hrealm (.cons ⟨rfl, rfl, digest_firstRow⟩ (.nil _ _)) realmId

/-- A removed row is found where a row after it stays. -/
theorem verifyAdminAuditChain_finds_removed :
    ¬ (verifyAdminAuditChain createHash 500 ⟨[secondRow], []⟩ firstRow.realmId).ok := by
  have hbatch : 0 < 500 := by decide
  refine ((verifyAdminAuditChain_finds createHash hbatch).1 ⟨[firstRow, secondRow], []⟩
    ⟨[secondRow], []⟩ (valid_of_linear linear_twoRows) ⟨?_, List.pairwise_singleton _ _⟩ rfl
    (collisionFree_twoRows ?_) (verify_of_linear linear_twoRows hbatch)).2 firstRow.realmId ?_
  · rintro row hrow
    rw [List.mem_singleton.mp hrow]
    decide
  · intro r hr
    simpa using hr
  · have hhistory : realmRows ⟨[firstRow, secondRow], []⟩ firstRow.realmId =
        [firstRow, secondRow] := rfl
    have hmodified : realmRows ⟨[secondRow], []⟩ firstRow.realmId = [secondRow] := rfl
    rw [hhistory, hmodified]
    rintro k hk ⟨hsame, hnew⟩
    have hk : k = 0 ∨ k = 1 := by
      rw [List.length_singleton] at hk
      omega
    rcases hk with rfl | rfl
    · exact hnew secondRow (by simp) secondRow (by simp) rfl
    · cases hsame with
      | cons hfirst _ => exact absurd hfirst.1.1.seq (by decide)

/-- A row added to the end of a chain, and hashed, is not found. -/
theorem verifyAdminAuditChain_passes_tail :
    ∃ history modified : AuditDb, history.Valid ∧ modified.Valid ∧
      modified.checkpoints = history.checkpoints ∧
      CollisionFree createHash (history.log ++ modified.log) ∧
      (∀ realmId, (verifyAdminAuditChain createHash 500 history realmId).ok) ∧
      modified.log = history.log ++ [secondRow] ∧
      ∀ realmId, (verifyAdminAuditChain createHash 500 modified realmId).ok := by
  have hbatch : 0 < 500 := by decide
  refine ⟨⟨[firstRow], []⟩, ⟨[firstRow, secondRow], []⟩, valid_of_linear linear_firstRow,
    valid_of_linear linear_twoRows, rfl, collisionFree_twoRows ?_,
    verify_of_linear linear_firstRow hbatch, rfl, verify_of_linear linear_twoRows hbatch⟩
  intro r hr
  simpa using hr

end QAuth.Audit
