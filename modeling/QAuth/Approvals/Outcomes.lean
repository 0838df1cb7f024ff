import QAuth.Approvals.Lifecycle

/-!
# What becomes of approvals

Whatever order the transactions run in and whichever of them roll back, an approval moves only as
its writes move it, has its approvals from different accounts that could each give it when judged,
and is used at most once.
-/

namespace QAuth.Approvals

open Audit (Digest Sha256)
open Events (Uuid)
open Transition

variable {upper : Char → List Char} {sha256 : Sha256} {s t : Approvals} {a : ApprovalAction}
  {row row' r : AdminApproval} {j : Judgement} {judged : List Judgement} {gated : List GatedCall}
  {call : GatedCall} {h : Held} {w : Written}

/-! ### What each write writes -/

/-- What a write checked where it changed the row. -/
inductive Write.Applies (clock : ℕ) (row : AdminApproval) : Write → AdminApproval → Prop
  | approve (j : Judgement) (credentialId factor : String) (now : ℕ) (pending : row.status = .pending)
      (count : row.approvals.length = j.approval.approvals.length) :
      Applies clock row (.approve j credentialId factor now)
        (row.add (j.entry credentialId factor now) pending)
  | close (write : Write) (status : AdminApprovalStatus) (nonce : Nonce)
      (opened : row.status.isOpen = true)
      (unused : status = .denied ∨ status = .cancelled ∨ status = .expired)
      (denied : status = .denied → row.status = .pending)
      (other : ∀ call now, write ≠ .consume call now) :
      Applies clock row write (row.close status nonce opened unused)
  | consume (call : GatedCall) (now : ℕ) (nonce : Nonce) (approved : row.status = .approved)
      (unexpired : max now clock < row.expiresAt) (opHash : row.opHash = call.opHash) :
      Applies clock row (.consume call now) (row.use now nonce approved)

theorem Write.applies {write : Write} {clock : ℕ} {nonce : Nonce}
    (happly : write.apply clock nonce row = some row') : write.Applies clock row row' := by
  cases write with
  | approve j credentialId factor now =>
    simp only [Write.apply, addApproval, Option.dite_none_right_eq_some, Option.some.injEq] at happly
    obtain ⟨⟨hstatus, -, hcount, -⟩, rfl⟩ := happly
    exact .approve j credentialId factor now hstatus hcount
  | deny j now =>
    simp only [Write.apply, Approvals.deny, Option.dite_none_right_eq_some, Option.some.injEq] at happly
    obtain ⟨⟨hstatus, -, -⟩, rfl⟩ := happly
    exact .close _ _ _ _ _ (fun _ ↦ hstatus) fun _ _ h ↦ by cases h
  | cancel requesterRealmId requesterId expected now =>
    simp only [Write.apply, Approvals.cancel, Option.dite_none_right_eq_some, Option.some.injEq] at happly
    obtain ⟨⟨hstatus, -⟩, rfl⟩ := happly
    exact .close _ _ _ _ _ (fun h ↦ by cases h) fun _ _ h ↦ by cases h
  | consume call now =>
    simp only [Write.apply, Approvals.consume, Option.dite_none_right_eq_some, Option.some.injEq] at happly
    obtain ⟨⟨hstatus, hunexpired, hhash⟩, rfl⟩ := happly
    exact .consume call now nonce hstatus hunexpired hhash

theorem Write.Applies.moves {write : Write} {clock : ℕ} (happlies : write.Applies clock row row') :
    Moves row row' := by
  cases happlies with
  | approve j credentialId factor now pending => exact add_moves pending
  | close write status nonce opened unused denied => exact close_moves opened unused denied
  | consume call now nonce approved => exact use_moves approved

/-- Only a use makes a row used. -/
theorem Write.Applies.consume_of_consumed {write : Write} {clock : ℕ}
    (happlies : write.Applies clock row row') (hstatus : row'.status = .consumed) :
    ∃ call now, write = .consume call now := by
  cases happlies with
  | approve j credentialId factor now pending =>
    rw [AdminApproval.add] at hstatus
    dsimp only at hstatus
    split at hstatus <;> cases hstatus
  | close write status nonce opened unused denied =>
    change status = .consumed at hstatus
    rcases unused with rfl | rfl | rfl <;> cases hstatus
  | consume call now => exact ⟨call, now, rfl⟩

/-- What a use checked. -/
theorem Write.Applies.of_consume {clock now : ℕ}
    (happlies : (Write.consume call now).Applies clock row row') :
    row.status = .approved ∧ max now clock < row.expiresAt ∧ row.opHash = call.opHash ∧
      row'.status = .consumed := by
  cases happlies with
  | close write status nonce opened unused denied other => exact absurd rfl (other call now)
  | consume call now nonce approved unexpired opHash => exact ⟨approved, unexpired, opHash, rfl⟩

/-! ### What each thing that happens can do -/

/-- What a transaction is for was let through. -/
def Held.LetThrough (judged : List Judgement) (gated : List GatedCall) (h : Held) : Prop :=
  match h.write with
  | .approve j _ _ _ | .deny j _ => j ∈ judged ∧ j.approval.id = h.approvalId
  | .cancel .. => True
  | .consume call _ => call ∈ gated ∧ call.approvalId = h.approvalId

/-- What each thing that happens can do. -/
inductive Step (sha256 : Sha256) (s : Approvals) : ApprovalAction → Approvals → Prop
  | administer (directory : Directory) :
      Step sha256 s (.administer directory) { s with directory := directory }
  | tick (ms : ℕ) : Step sha256 s (.tick ms) { s with clock := s.clock + ms }
  | file (id : Uuid) (approval : NewAdminApproval) (row : AdminApproval)
      (fresh : ∀ r ∈ s.rows ++ s.filed, r.id ≠ row.id) (pending : row.status = .pending)
      (none : row.approvals = []) :
      Step sha256 s (.file id approval) { s with filed := row :: s.filed }
  | fileCommits (row : AdminApproval) (mem : row ∈ s.filed) :
      Step sha256 s (.fileCommits row.id)
        { s with rows := row :: s.rows, filed := s.filed.filter (·.id ≠ row.id) }
  | fileRollsBack (id : Uuid) :
      Step sha256 s (.fileRollsBack id) { s with filed := s.filed.filter (·.id ≠ id) }
  | judge (decision : ApprovalDecision) (now : ℕ) (j : Judgement) (mem : j.approval ∈ s.rows) :
      Step sha256 s (.judge decision now) { s with judged := s.judged ++ [j] }
  | gate (input : CanonicalRequestInput) (now : ℕ) (call : GatedCall) (row : AdminApproval)
      (mem : row ∈ s.rows) (id : row.id = call.approvalId)
      (hashed : opHashOf sha256 call.request row.nonce.val = .ok call.opHash) :
      Step sha256 s (.gate input call.realmId call.approvalId now)
        { s with gated := s.gated ++ [call] }
  | lock (call : WriteCall) (h : Held) (row : AdminApproval) (mem : row ∈ s.rows)
      (id : row.id = h.approvalId) (free : ∀ h' ∈ s.held, h'.approvalId ≠ h.approvalId)
      (written : h.written = none) (letThrough : h.LetThrough s.judged s.gated) :
      Step sha256 s (.lock call) { s with held := h :: s.held }
  | update (h : Held) (nonce : Nonce) (row row' : AdminApproval) (mem : h ∈ s.held)
      (row_mem : row ∈ s.rows) (id : row.id = h.approvalId)
      (applies : h.write.Applies s.clock row row') :
      Step sha256 s (.update h.approvalId nonce)
        { s with
          held := ⟨h.realmId, h.approvalId, h.write, some ⟨row', s.clock⟩⟩ ::
            (s.release h.approvalId).held }
  | void (approvalId : Uuid) (nonce : Nonce) :
      Step sha256 s (.update approvalId nonce) (s.release approvalId)
  | commit (h : Held) (w : Written) (row : AdminApproval) (mem : h ∈ s.held)
      (written : h.written = some w) (row_mem : row ∈ s.rows) (id : row.id = h.approvalId) :
      Step sha256 s (.commit h.approvalId)
        { s.release h.approvalId with
          rows := Table.updateWhere (·.id = h.approvalId) (fun _ ↦ w.row) s.rows
          uses := match h.write with
            | .consume call now => s.uses ++ [⟨row, call, now, w.clock⟩]
            | _ => s.uses }
  | rollback (approvalId : Uuid) : Step sha256 s (.rollback approvalId) (s.release approvalId)
  | expireLapsed (now limit : ℕ) (retiredNonce : Uuid → Nonce) (ids : List Uuid)
      (free : ∀ id ∈ ids, ∀ h ∈ s.held, h.approvalId ≠ id) :
      Step sha256 s (.expireLapsed now limit retiredNonce)
        { s with rows := s.rows.map fun r ↦
            if r.id ∈ ids then expire (retiredNonce r.id) r else r }

theorem find_eq_some {realmId approvalId : Uuid} (hfind : s.find realmId approvalId = some row) :
    row ∈ s.rows ∧ row.id = approvalId := by
  have hp := List.find?_some hfind
  simp only [Bool.and_eq_true, decide_eq_true_eq] at hp
  exact ⟨List.mem_of_find?_eq_some hfind, hp.2⟩

theorem holder_eq_some {approvalId : Uuid} (hfind : s.holder approvalId = some h) :
    h ∈ s.held ∧ h.approvalId = approvalId :=
  ⟨List.mem_of_find?_eq_some hfind, by simpa using List.find?_some hfind⟩

theorem holder_eq_none {approvalId : Uuid} (hnone : s.holder approvalId = none) :
    ∀ h ∈ s.held, h.approvalId ≠ approvalId := by
  simpa [Approvals.holder] using hnone

theorem create_eq_some {id : Uuid} {approval : NewAdminApproval}
    (hcreate : create id approval = some row) :
    row.id = id ∧ row.status = .pending ∧ row.approvals = [] := by
  simp only [create, Option.dite_none_right_eq_some, Option.some.injEq] at hcreate
  obtain ⟨-, rfl⟩ := hcreate
  exact ⟨rfl, rfl, rfl⟩

theorem letThrough_of_writeOf {c : WriteCall} {realmId approvalId : Uuid} {write : Write}
    (hwrite : s.writeOf c = some (realmId, approvalId, write)) :
    Held.LetThrough s.judged s.gated ⟨realmId, approvalId, write, none⟩ := by
  cases c with
  | approve i credentialId factor now =>
    obtain ⟨j, hj, heq⟩ := Option.map_eq_some_iff.mp hwrite
    cases heq
    exact ⟨List.mem_of_getElem? hj, rfl⟩
  | deny i now =>
    obtain ⟨j, hj, heq⟩ := Option.map_eq_some_iff.mp hwrite
    cases heq
    exact ⟨List.mem_of_getElem? hj, rfl⟩
  | cancel realmId approvalId requesterRealmId requesterId expected now =>
    cases hwrite
    trivial
  | consume i now =>
    obtain ⟨call, hcall, heq⟩ := Option.map_eq_some_iff.mp hwrite
    cases heq
    exact ⟨List.mem_of_getElem? hcall, rfl⟩

theorem mem_of_decided {directory : Directory} {rows : List AdminApproval}
    {decision : ApprovalDecision} {now : ℕ} {approval : AdminApproval} {approver : Approver}
    (hdecided : approvalTheApproverMayDecide directory rows decision now =
      some (approval, approver)) : approval ∈ rows := by
  simp only [approvalTheApproverMayDecide, Option.bind_eq_bind, Option.bind_eq_some_iff] at hdecided
  obtain ⟨approval', hfind, authority, -, -, -, -, -, -, -, heq⟩ := hdecided
  cases heq
  exact List.mem_of_find?_eq_some hfind

theorem step_cases (hstep : s.step upper sha256 a = some t) : Step sha256 s a t := by
  cases a with
  | administer directory =>
    cases hstep
    exact .administer directory
  | tick ms =>
    cases hstep
    exact .tick ms
  | file id approval =>
    simp only [Approvals.step, Option.ite_none_right_eq_some, Option.map_eq_some_iff] at hstep
    obtain ⟨hfresh, row, hcreate, rfl⟩ := hstep
    obtain ⟨rfl, hpending, hnone⟩ := create_eq_some hcreate
    exact .file _ approval row hfresh hpending hnone
  | fileCommits id =>
    obtain ⟨row, hfind, rfl⟩ := Option.map_eq_some_iff.mp hstep
    obtain rfl : row.id = id := by simpa using List.find?_some hfind
    exact .fileCommits row (List.mem_of_find?_eq_some hfind)
  | fileRollsBack id =>
    cases hstep
    exact .fileRollsBack id
  | judge decision now =>
    rw [Approvals.step, Approvals.judge] at hstep
    split at hstep
    case h_1 => cases hstep
    case h_2 approval approver hdecided =>
      cases hstep
      exact .judge decision now _ (mem_of_decided hdecided)
  | gate input realmId approvalId now =>
    rw [Approvals.step, Approvals.gate] at hstep
    split at hstep
    case h_2 => cases hstep
    case h_1 request row hrequest hfind =>
      split at hstep
      case h_2 => cases hstep
      case h_1 opHash hrefusal hhash =>
        cases hstep
        obtain ⟨hmem, hid⟩ := find_eq_some hfind
        exact .gate input now ⟨realmId, approvalId, request, opHash⟩ row hmem hid hhash
  | lock call =>
    simp only [Approvals.step, Option.bind_eq_bind, Option.bind_eq_some_iff] at hstep
    obtain ⟨⟨realmId, approvalId, write⟩, hwrite, row, hfind, _, hfree, heq⟩ := hstep
    cases heq
    obtain ⟨hmem, hid⟩ := find_eq_some hfind
    have hnone : s.holder approvalId = none := by simpa [guard] using hfree
    exact .lock call _ row hmem hid (holder_eq_none hnone) rfl (letThrough_of_writeOf hwrite)
  | update approvalId nonce =>
    simp only [Approvals.step, Approvals.update, Option.bind_eq_bind,
      Option.bind_eq_some_iff] at hstep
    obtain ⟨h, hholder, _, -, row, hfind, hstep⟩ := hstep
    obtain ⟨hmem, rfl⟩ := holder_eq_some hholder
    obtain ⟨hrow, hid⟩ := find_eq_some hfind
    split at hstep
    case h_1 =>
      cases hstep
      exact .void _ nonce
    case h_2 row' happly =>
      cases hstep
      exact .update h nonce row row' hmem hrow hid (Write.applies happly)
  | commit approvalId =>
    simp only [Approvals.step, Approvals.commit, Option.bind_eq_bind,
      Option.bind_eq_some_iff] at hstep
    obtain ⟨h, hholder, w, hwritten, row, hfind, heq⟩ := hstep
    cases heq
    obtain ⟨hmem, rfl⟩ := holder_eq_some hholder
    obtain ⟨hrow, hid⟩ := find_eq_some hfind
    exact .commit h w row hmem hwritten hrow hid
  | rollback approvalId =>
    cases hstep
    exact .rollback approvalId
  | expireLapsed now limit nonce =>
    cases hstep
    refine .expireLapsed now limit nonce _ fun id hid ↦ ?_
    obtain ⟨r, hr, rfl⟩ := List.mem_map.mp hid
    have hmem := Table.mem_orderBy.mp (List.mem_of_mem_take hr)
    simp only [List.mem_filter, Bool.and_eq_true, Bool.not_eq_true', Option.isSome_eq_false_iff,
      Option.isNone_iff_eq_none] at hmem
    exact holder_eq_none hmem.2.2

/-! ### What was judged -/

/-- The account that a decision is by, as its entry names it. -/
def Judgement.account (j : Judgement) : List Char × List Char :=
  (j.approver.realmId, j.approver.accountId)

/-- The account could give the approval one more approval, as it was when it was judged. -/
theorem Judgement.mayApprove (j : Judgement) :
    ∃ authority, (approverAuthority j.directory j.decision.approver j.approval.realmId
        j.decision.sessionIssuedAtMs) = some authority ∧ j.approver = authority.approver ∧
      (approvalStanding j.approval ⟨j.approver, .human⟩ authority.holdsApprove).mayApprove =
        true := by
  have hdecided := j.decided
  simp only [approvalTheApproverMayDecide, Option.bind_eq_bind, Option.bind_eq_some_iff] at hdecided
  obtain ⟨approval, -, authority, hauthority, _, -, _, -, _, hmay, heq⟩ := hdecided
  simp only [Option.some.injEq, Prod.mk.injEq] at heq
  obtain ⟨rfl, happrover⟩ := heq
  refine ⟨authority, hauthority, happrover.symm, ?_⟩
  rw [← happrover]
  simpa [guard] using hmay

/-- An account is named as the database names it, in lower case. -/
theorem Judgement.lower_account (j : Judgement) :
    (j.account.1.map Char.toLower, j.account.2.map Char.toLower) = j.account := by
  obtain ⟨authority, -, happrover, -⟩ := j.mayApprove
  rw [account, happrover, ApproverAuthority.approver, UuidText.map_toLower_text,
    UuidText.map_toLower_text]

/-- The same approval, with the approvals it had and maybe more. -/
structure Later (r r' : AdminApproval) : Prop extends SameApproval r r' where
  approvals : r.approvals <+: r'.approvals

theorem SameApproval.trans {r r' r'' : AdminApproval} (h : SameApproval r r')
    (h' : SameApproval r' r'') : SameApproval r r'' :=
  ⟨h'.id.trans h.id, h'.realmId.trans h.realmId, h'.requesterKind.trans h.requesterKind,
    h'.requesterRealmId.trans h.requesterRealmId, h'.requesterId.trans h.requesterId,
    h'.opHash.trans h.opHash, h'.approvalsRequired.trans h.approvalsRequired,
    h'.expiresAt.trans h.expiresAt⟩

theorem Later.moves {r r' r'' : AdminApproval} (h : Later r r') (h' : Moves r' r'') : Later r r'' :=
  ⟨h.toSameApproval.trans h'.toSameApproval, h.approvals.trans h'.approvals⟩

theorem Later.refl (r : AdminApproval) : Later r r := ⟨(Moves.refl r).toSameApproval, List.prefix_rfl⟩

def Given (judged : List Judgement) (row : AdminApproval) : Prop :=
  ∀ i (hi : i < row.approvals.length), ∃ j ∈ judged, SameApproval j.approval row ∧
    j.approval.approvals = row.approvals.take i ∧ row.approvals[i].account = j.account

theorem Given.mono {judged' : List Judgement} (h : Given judged row)
    (hsub : ∀ j ∈ judged, j ∈ judged') : Given judged' row := by
  intro i hi
  obtain ⟨j, hj, hgiven⟩ := h i hi
  exact ⟨j, hsub j hj, hgiven⟩

/-- A row that moves without another approval keeps those it has. -/
theorem Given.moves (h : Given judged row) (hmoves : Moves row row')
    (heq : row'.approvals = row.approvals) : Given judged row' := by
  intro i hi
  obtain ⟨j, hj, hsame, htake, haccount⟩ := h i (by rwa [heq] at hi)
  refine ⟨j, hj, hsame.trans hmoves.toSameApproval, by rw [heq, htake], ?_⟩
  simpa [heq] using haccount

/-- The approval of a decision on the approvals the row holds joins them. -/
theorem Given.add (h : Given judged row) (hpending : row.status = .pending) (hj : j ∈ judged)
    (hlater : Later j.approval row) (hcount : row.approvals.length = j.approval.approvals.length)
    {entry : AdminApprovalEntry} (hentry : entry.account = j.account) :
    Given judged (row.add entry hpending) := by
  have happrovals : (row.add entry hpending).approvals = row.approvals ++ [entry] := rfl
  have hsame : SameApproval row (row.add entry hpending) := (add_moves hpending).toSameApproval
  intro i hi
  rw [happrovals, List.length_append, List.length_singleton] at hi
  simp only [happrovals]
  rcases Nat.lt_succ_iff_lt_or_eq.mp hi with hold | rfl
  · obtain ⟨j', hj', hsame', htake, haccount⟩ := h i hold
    refine ⟨j', hj', hsame'.trans hsame, ?_, ?_⟩
    · rw [htake, List.take_append_of_le_length hold.le]
    · rw [List.getElem_append_left hold, haccount]
  · refine ⟨j, hj, hlater.toSameApproval.trans hsame, ?_, ?_⟩
    · rw [List.take_left]
      exact hlater.approvals.eq_of_length hcount.symm
    · rw [List.getElem_concat_length rfl, hentry]

/-- The account that gave an approval, whatever the letter case of its ids. -/
def AdminApprovalEntry.lowerAccount (entry : AdminApprovalEntry) : List Char × List Char :=
  (entry.account.1.map Char.toLower, entry.account.2.map Char.toLower)

theorem SameApproval.requester {r r' : AdminApproval} (h : SameApproval r r') :
    r'.requester = r.requester := by
  rw [AdminApproval.requester, AdminApproval.requester, h.requesterRealmId, h.requesterId]

/-- The approvals come from different accounts, whatever the letter case of their ids. -/
theorem Given.distinct (h : Given judged row) :
    row.approvals.Pairwise fun g g' ↦ g.lowerAccount ≠ g'.lowerAccount := by
  have hlower : ∀ i (hi : i < row.approvals.length),
      row.approvals[i].lowerAccount = row.approvals[i].account := by
    intro i hi
    obtain ⟨j, -, -, -, haccount⟩ := h i hi
    rw [AdminApprovalEntry.lowerAccount, haccount, j.lower_account]
  rw [List.pairwise_iff_getElem]
  intro i k hi hk hik
  rw [hlower i hi, hlower k hk]
  obtain ⟨j, -, -, htake, haccount⟩ := h k hk
  obtain ⟨authority, -, -, hmay⟩ := j.mayApprove
  have hmem : row.approvals[i] ∈ j.approval.approvals := by
    rw [htake]
    exact List.mem_take_iff_getElem.mpr ⟨i, by omega, rfl⟩
  rw [haccount]
  exact ((mayApprove_iff rfl).mp hmay).1 _ hmem

/-- A human requester's own approval is among those of an approval that has all it needs. -/
theorem Given.requester (h : Given judged row)
    (hcomplete : row.approvals.length = row.approvalsRequired)
    (hhuman : row.requesterKind = .human) : ∃ g ∈ row.approvals, g.account = row.requester := by
  have hrange := row.required_range
  have hlast : row.approvals.length - 1 < row.approvals.length := by omega
  obtain ⟨j, -, hsame, htake, haccount⟩ := h _ hlast
  obtain ⟨authority, -, -, hmay⟩ := j.mayApprove
  have hbranch := ((mayApprove_iff rfl).mp hmay).2
  by_contra hnone
  push Not at hnone
  have hkind : j.approval.requesterKind = .human := by rw [← hsame.requesterKind, hhuman]
  have hnot : j.approval.requester ≠ j.account := by
    intro heq
    refine hnone _ (List.getElem_mem hlast) ?_
    rw [haccount, ← heq, hsame.requester]
  have hfrom : fromRequester j.approval = 0 := by
    rw [fromRequester, List.length_eq_zero_iff, List.filter_eq_nil_iff]
    intro g hg
    have hmem : g ∈ row.approvals := by
      rw [htake] at hg
      exact List.mem_of_mem_take hg
    have hne := hnone g hmem
    rw [hsame.requester] at hne
    simp [hne]
  have hlength : j.approval.approvals.length = row.approvals.length - 1 := by
    rw [htake, List.length_take]
    omega
  have hrequired := hsame.approvalsRequired
  rw [if_neg fun hboth ↦ hnot hboth.2, if_pos hkind, hfrom, hlength] at hbranch
  omega

/-! ### The invariant -/

/-- What the gate checked still says something of the row, while the row is open. -/
structure Gates (sha256 : Sha256) (call : GatedCall) (row : AdminApproval) : Prop where
  id : row.id = call.approvalId
  hashed : row.status.isOpen = true →
    opHashOf sha256 call.request row.nonce.val = .ok call.opHash

/-- What a use was: of an approved row before its expiry, in the operation whose canonical request
hashes with the row's nonce to the row's `op_hash`. -/
structure UseOk (sha256 : Sha256) (u : Use) : Prop where
  approved : u.approval.status = .approved
  unexpired : max u.now u.clock < u.approval.expiresAt
  hashed : opHashOf sha256 u.call.request u.approval.nonce.val = .ok u.approval.opHash
  named : u.approval.id = u.call.approvalId

/-- A transaction holds a row, and what it wrote is what its write makes of the row. -/
structure Fits (rows : List AdminApproval) (judged : List Judgement) (gated : List GatedCall)
    (h : Held) : Prop where
  letThrough : h.LetThrough judged gated
  row : ∃ row ∈ rows, row.id = h.approvalId ∧
    ∀ w, h.written = some w → h.write.Applies w.clock row w.row

structure Consistent (sha256 : Sha256) (s : Approvals) : Prop where
  ids : ((s.rows ++ s.filed).map (·.id)).Nodup
  filed : ∀ r ∈ s.filed, r.status = .pending ∧ r.approvals = []
  held_ids : (s.held.map (·.approvalId)).Nodup
  held : ∀ h ∈ s.held, Fits s.rows s.judged s.gated h
  judged : ∀ j ∈ s.judged, ∃ row ∈ s.rows, Later j.approval row
  gated : ∀ call ∈ s.gated, ∃ row ∈ s.rows, Gates sha256 call row
  given : ∀ r ∈ s.rows, Given s.judged r
  uses : ∀ u ∈ s.uses, UseOk sha256 u
  uses_ids : (s.uses.map (·.approval.id)).Nodup
  used : ∀ u ∈ s.uses, ∃ r ∈ s.rows, r.id = u.approval.id ∧ r.status = .consumed
  consumed : ∀ r ∈ s.rows, r.status = .consumed → ∃ u ∈ s.uses, u.approval.id = r.id

theorem Consistent.rows_ids (hs : Consistent sha256 s) : (s.rows.map (·.id)).Nodup := by
  have hids := hs.ids
  rw [List.map_append, List.nodup_append] at hids
  exact hids.1

theorem Consistent.row_eq (hs : Consistent sha256 s) {r r' : AdminApproval} (hr : r ∈ s.rows)
    (hr' : r' ∈ s.rows) (heq : r.id = r'.id) : r = r' :=
  Table.eq_of_key_eq hs.rows_ids hr hr' heq

theorem Gates.moves (h : Gates sha256 call row) (hmoves : Moves row row') :
    Gates sha256 call row' :=
  ⟨hmoves.id.trans h.id, fun hopen ↦ by
    rw [hmoves.nonce hopen]
    exact h.hashed (hmoves.isOpen hopen)⟩

theorem Held.LetThrough.mono {judged' : List Judgement} {gated' : List GatedCall}
    (hlet : h.LetThrough judged gated) (hj : ∀ j ∈ judged, j ∈ judged')
    (hg : ∀ c ∈ gated, c ∈ gated') : h.LetThrough judged' gated' := by
  rw [Held.LetThrough] at hlet ⊢
  split
  case h_1 heq => rw [heq] at hlet; exact ⟨hj _ hlet.1, hlet.2⟩
  case h_2 heq => rw [heq] at hlet; exact ⟨hj _ hlet.1, hlet.2⟩
  case h_3 => trivial
  case h_4 heq => rw [heq] at hlet; exact ⟨hg _ hlet.1, hlet.2⟩

/-- Rows move by `f`, the transactions on rows that change let go, and some uses commit. -/
theorem Consistent.change (hs : Consistent sha256 s) {f : AdminApproval → AdminApproval}
    {held : List Held} {new : List Use} (hmoves : ∀ r ∈ s.rows, Moves r (f r))
    (hgiven : ∀ r ∈ s.rows, Given s.judged (f r)) (hsub : held.Sublist s.held)
    (hfree : ∀ h ∈ held, ∀ r ∈ s.rows, r.id = h.approvalId → f r = r)
    (hnew : ∀ u ∈ new, UseOk sha256 u ∧ ∃ r ∈ s.rows, r.id = u.approval.id ∧
      r.status ≠ .consumed ∧ (f r).status = .consumed)
    (hnodup : (new.map (·.approval.id)).Nodup)
    (hconsumed : ∀ r ∈ s.rows, (f r).status = .consumed →
      r.status = .consumed ∨ ∃ u ∈ new, u.approval.id = r.id) :
    Consistent sha256 { s with rows := s.rows.map f, held := held, uses := s.uses ++ new } where
  ids := by
    have hids : (s.rows.map f).map (·.id) = s.rows.map (·.id) := by
      rw [List.map_map]
      exact List.map_congr_left fun r hr ↦ (hmoves r hr).id
    rw [List.map_append, hids, ← List.map_append]
    exact hs.ids
  filed := hs.filed
  held_ids := (hsub.map _).nodup hs.held_ids
  held h hh := by
    obtain ⟨hlet, row, hrow, hid, hwritten⟩ := hs.held h (hsub.subset hh)
    refine ⟨hlet, row, ?_, hid, hwritten⟩
    exact List.mem_map.mpr ⟨row, hrow, hfree h hh row hrow hid⟩
  judged j hj := by
    obtain ⟨row, hrow, hlater⟩ := hs.judged j hj
    exact ⟨f row, List.mem_map_of_mem hrow, hlater.moves (hmoves row hrow)⟩
  gated call hcall := by
    obtain ⟨row, hrow, hgates⟩ := hs.gated call hcall
    exact ⟨f row, List.mem_map_of_mem hrow, hgates.moves (hmoves row hrow)⟩
  given r hr := by
    obtain ⟨r₀, hr₀, rfl⟩ := List.mem_map.mp hr
    exact hgiven r₀ hr₀
  uses u hu := by
    rcases List.mem_append.mp hu with hu | hu
    · exact hs.uses u hu
    · exact (hnew u hu).1
  uses_ids := by
    rw [List.map_append, List.nodup_append]
    refine ⟨hs.uses_ids, hnodup, ?_⟩
    rintro id hold id' hid' rfl
    obtain ⟨u, hu, rfl⟩ := List.mem_map.mp hold
    obtain ⟨u', hu', heq⟩ := List.mem_map.mp hid'
    obtain ⟨r, hr, hrid, hstatus⟩ := hs.used u hu
    obtain ⟨-, r', hr', hrid', hnot, -⟩ := hnew u' hu'
    exact hnot (hs.row_eq hr hr' (by rw [hrid, hrid', heq]) ▸ hstatus)
  used u hu := by
    rcases List.mem_append.mp hu with hu | hu
    · obtain ⟨r, hr, hid, hstatus⟩ := hs.used u hu
      refine ⟨f r, List.mem_map_of_mem hr, (hmoves r hr).id.trans hid, ?_⟩
      rcases (hmoves r hr).status with heq | hmove
      · rw [heq, hstatus]
      · rw [hstatus] at hmove
        cases hmove
    · obtain ⟨-, r, hr, hid, -, hstatus⟩ := hnew u hu
      exact ⟨f r, List.mem_map_of_mem hr, (hmoves r hr).id.trans hid, hstatus⟩
  consumed r hr hstatus := by
    obtain ⟨r₀, hr₀, rfl⟩ := List.mem_map.mp hr
    rw [(hmoves r₀ hr₀).id]
    rcases hconsumed r₀ hr₀ hstatus with hold | ⟨u, hu, hid⟩
    · obtain ⟨u, hu, hid⟩ := hs.consumed r₀ hr₀ hold
      exact ⟨u, List.mem_append_left _ hu, hid⟩
    · exact ⟨u, List.mem_append_right _ hu, hid⟩

theorem Fits.mono {rows rows' : List AdminApproval} {judged' : List Judgement}
    {gated' : List GatedCall} (hfits : Fits rows judged gated h) (hrows : ∀ r ∈ rows, r ∈ rows')
    (hj : ∀ j ∈ judged, j ∈ judged') (hg : ∀ c ∈ gated, c ∈ gated') :
    Fits rows' judged' gated' h := by
  obtain ⟨hlet, row, hrow, hrest⟩ := hfits
  exact ⟨hlet.mono hj hg, row, hrows row hrow, hrest⟩

theorem Consistent.fileCommits (hs : Consistent sha256 s) (hmem : row ∈ s.filed) :
    Consistent sha256
      { s with rows := row :: s.rows, filed := s.filed.filter (·.id ≠ row.id) } where
  ids := by
    have hperm : (row :: s.rows ++ s.filed.filter (·.id ≠ row.id)).Subperm (s.rows ++ s.filed) := by
      have hsub : (row :: s.filed.filter (·.id ≠ row.id)).Subperm s.filed :=
        List.cons_subperm_of_not_mem_of_mem (by simp) hmem List.filter_sublist.subperm
      exact (List.perm_middle.symm.subperm).trans ((List.subperm_append_left _).mpr hsub)
    obtain ⟨l, hl, hsub⟩ := hperm
    exact ((hl.map _).nodup_iff).mp ((hsub.map _).nodup hs.ids)
  filed r hr := hs.filed r (List.mem_filter.mp hr).1
  held_ids := hs.held_ids
  held h hh := (hs.held h hh).mono (fun _ ↦ List.mem_cons_of_mem _) (fun _ ↦ id) (fun _ ↦ id)
  judged j hj := by
    obtain ⟨r, hr, hlater⟩ := hs.judged j hj
    exact ⟨r, List.mem_cons_of_mem _ hr, hlater⟩
  gated call hcall := by
    obtain ⟨r, hr, hgates⟩ := hs.gated call hcall
    exact ⟨r, List.mem_cons_of_mem _ hr, hgates⟩
  given r hr := by
    rcases List.mem_cons.mp hr with rfl | hr
    · intro i hi
      rw [(hs.filed r hmem).2] at hi
      exact absurd hi (Nat.not_lt_zero i)
    · exact hs.given r hr
  uses := hs.uses
  uses_ids := hs.uses_ids
  used u hu := by
    obtain ⟨r, hr, hid⟩ := hs.used u hu
    exact ⟨r, List.mem_cons_of_mem _ hr, hid⟩
  consumed r hr hstatus := by
    rcases List.mem_cons.mp hr with rfl | hr
    · rw [(hs.filed r hmem).1] at hstatus
      cases hstatus
    · exact hs.consumed r hr hstatus

/-- Rows that are not committed come and go. -/
theorem Consistent.filing (hs : Consistent sha256 s) {filed : List AdminApproval}
    (hids : ((s.rows ++ filed).map (·.id)).Nodup)
    (hfiled : ∀ r ∈ filed, r.status = .pending ∧ r.approvals = []) :
    Consistent sha256 { s with filed := filed } :=
  { hs with ids := hids, filed := hfiled }

/-- Transactions come, write and go. -/
theorem Consistent.holding (hs : Consistent sha256 s) {held : List Held}
    (hids : (held.map (·.approvalId)).Nodup)
    (hheld : ∀ h ∈ held, h ∈ s.held ∨ Fits s.rows s.judged s.gated h) :
    Consistent sha256 { s with held := held } :=
  { hs with
    held_ids := hids
    held := fun h hh ↦ (hheld h hh).elim (hs.held h) id }

theorem Consistent.release (hs : Consistent sha256 s) (approvalId : Uuid) :
    Consistent sha256 (s.release approvalId) :=
  hs.holding ((List.filter_sublist.map _).nodup hs.held_ids)
    fun _ hh ↦ .inl (List.mem_filter.mp hh).1

/-- A decision that was let through is one on a row. -/
theorem Consistent.judge (hs : Consistent sha256 s) (hmem : j.approval ∈ s.rows) :
    Consistent sha256 { s with judged := s.judged ++ [j] } where
  ids := hs.ids
  filed := hs.filed
  held_ids := hs.held_ids
  held h hh := (hs.held h hh).mono (fun _ ↦ id) (fun _ ↦ List.mem_append_left _) (fun _ ↦ id)
  judged j' hj' := by
    rcases List.mem_append.mp hj' with hj' | hj'
    · exact hs.judged j' hj'
    · obtain rfl := List.mem_singleton.mp hj'
      exact ⟨_, hmem, .refl _⟩
  gated := hs.gated
  given r hr := (hs.given r hr).mono fun _ ↦ List.mem_append_left _
  uses := hs.uses
  uses_ids := hs.uses_ids
  used := hs.used
  consumed := hs.consumed

theorem Consistent.gate (hs : Consistent sha256 s) (hmem : row ∈ s.rows)
    (hid : row.id = call.approvalId)
    (hhashed : opHashOf sha256 call.request row.nonce.val = .ok call.opHash) :
    Consistent sha256 { s with gated := s.gated ++ [call] } where
  ids := hs.ids
  filed := hs.filed
  held_ids := hs.held_ids
  held h hh := (hs.held h hh).mono (fun _ ↦ id) (fun _ ↦ id) (fun _ ↦ List.mem_append_left _)
  judged := hs.judged
  gated call' hcall' := by
    rcases List.mem_append.mp hcall' with hcall' | hcall'
    · exact hs.gated call' hcall'
    · obtain rfl := List.mem_singleton.mp hcall'
      exact ⟨row, hmem, hid, fun _ ↦ hhashed⟩
  given := hs.given
  uses := hs.uses
  uses_ids := hs.uses_ids
  used := hs.used
  consumed := hs.consumed

/-- The sweep closes rows that no transaction holds. -/
theorem Consistent.sweep (hs : Consistent sha256 s) (nonce : Uuid → Nonce) {ids : List Uuid}
    (hfree : ∀ id ∈ ids, ∀ h ∈ s.held, h.approvalId ≠ id) :
    Consistent sha256 { s with rows := s.rows.map fun r ↦
      if r.id ∈ ids then expire (nonce r.id) r else r } := by
  have hmoves : ∀ r : AdminApproval, Moves r (if r.id ∈ ids then expire (nonce r.id) r else r) := by
    intro r
    split
    · exact expire_moves
    · exact .refl r
  have hsame : ∀ r : AdminApproval,
      (if r.id ∈ ids then expire (nonce r.id) r else r).approvals = r.approvals := by
    intro r
    rw [expire]
    split
    · split <;> rfl
    · rfl
  have hnot : ∀ r : AdminApproval,
      (if r.id ∈ ids then expire (nonce r.id) r else r).status = .consumed →
        r.status = .consumed := by
    intro r hr
    rw [expire] at hr
    split at hr
    · split at hr
      · cases hr
      · exact hr
    · exact hr
  have hheld : ∀ h ∈ s.held, ∀ r ∈ s.rows, r.id = h.approvalId →
      (if r.id ∈ ids then expire (nonce r.id) r else r) = r := by
    intro h hh r _ hid
    rw [if_neg fun hmem ↦ hfree r.id hmem h hh hid.symm]
  have hnew : ∀ u ∈ ([] : List Use), UseOk sha256 u ∧ ∃ r ∈ s.rows, r.id = u.approval.id ∧
      r.status ≠ .consumed ∧
        (if r.id ∈ ids then expire (nonce r.id) r else r).status = .consumed :=
    List.forall_mem_nil _
  have hchange := hs.change (fun r _ ↦ hmoves r)
    (fun r hr ↦ (hs.given r hr).moves (hmoves r) (hsame r)) (List.Sublist.refl _) hheld hnew
    List.nodup_nil (fun r _ hr ↦ .inl (hnot r hr))
  rw [List.append_nil] at hchange
  exact hchange

/-- A transaction commits what it wrote. -/
theorem Consistent.commit (hs : Consistent sha256 s) (hh : h ∈ s.held) (hwritten : h.written = some w)
    (hrow : row ∈ s.rows) (hid : row.id = h.approvalId) :
    Consistent sha256 { s.release h.approvalId with
      rows := Table.updateWhere (·.id = h.approvalId) (fun _ ↦ w.row) s.rows
      uses := match h.write with
        | .consume call now => s.uses ++ [⟨row, call, now, w.clock⟩]
        | _ => s.uses } := by
  obtain ⟨hlet, row₀, hrow₀, hid₀, happlies⟩ := hs.held h hh
  obtain rfl := hs.row_eq hrow₀ hrow (hid₀.trans hid.symm)
  have happlies := happlies w hwritten
  set f : AdminApproval → AdminApproval :=
    fun r ↦ if decide (r.id = h.approvalId) = true then w.row else r with hf
  have hat : ∀ r ∈ s.rows, r.id = h.approvalId → r = row₀ ∧ f r = w.row := by
    intro r hr hrid
    exact ⟨hs.row_eq hr hrow (hrid.trans hid.symm), if_pos (by simpa using hrid)⟩
  have haway : ∀ r, r.id ≠ h.approvalId → f r = r := fun r hne ↦ if_neg (by simpa using hne)
  have hmoves : ∀ r ∈ s.rows, Moves r (f r) := by
    intro r hr
    by_cases hrid : r.id = h.approvalId
    · obtain ⟨rfl, hw⟩ := hat r hr hrid
      rw [hw]
      exact happlies.moves
    · rw [haway r hrid]
      exact .refl r
  have hgiven : ∀ r ∈ s.rows, Given s.judged (f r) := by
    intro r hr
    by_cases hrid : r.id = h.approvalId
    · obtain ⟨rfl, hw⟩ := hat r hr hrid
      rw [hw]
      have hold := hs.given r hr
      have hmove := happlies.moves
      rw [Held.LetThrough] at hlet
      generalize hwrite : h.write = write at happlies hlet
      generalize w.row = row' at happlies hmove ⊢
      cases happlies with
      | approve j credentialId factor now pending count =>
        obtain ⟨row', hrow', hlater⟩ := hs.judged j hlet.1
        obtain rfl := hs.row_eq hrow' hr (by rw [hlater.id, hlet.2, hrid])
        exact hold.add pending hlet.1 hlater count rfl
      | close write status nonce opened unused denied other => exact hold.moves hmove rfl
      | consume call now nonce approved unexpired opHash => exact hold.moves hmove rfl
    · rw [haway r hrid]
      exact hs.given r hr
  have hfree : ∀ h' ∈ s.held.filter (·.approvalId ≠ h.approvalId), ∀ r ∈ s.rows,
      r.id = h'.approvalId → f r = r := by
    intro h' hh' r _ hrid
    have hne := (List.mem_filter.mp hh').2
    exact haway r (by simpa [hrid] using hne)
  have hchange : ∀ new : List Use, (∀ u ∈ new, UseOk sha256 u ∧ u.approval = row₀) →
      (new.map (·.approval.id)).Nodup → row₀.status ≠ .consumed ∨ new = [] →
      (w.row.status = .consumed ↔ new ≠ []) →
      Consistent sha256 { s with
        rows := s.rows.map f, held := s.held.filter (·.approvalId ≠ h.approvalId),
        uses := s.uses ++ new } := by
    intro new hnew hnodup hunused hiff
    refine hs.change hmoves hgiven List.filter_sublist hfree (fun u hu ↦ ?_) hnodup
      fun r hr hstatus ↦ ?_
    · obtain ⟨hok, happroval⟩ := hnew u hu
      have hne := List.ne_nil_of_mem hu
      refine ⟨hok, row₀, hrow, by rw [happroval], hunused.resolve_right hne, ?_⟩
      rw [(hat row₀ hrow hid).2]
      exact hiff.mpr hne
    · by_cases hrid : r.id = h.approvalId
      · obtain ⟨rfl, hw⟩ := hat r hr hrid
        rw [hw] at hstatus
        obtain ⟨u, hu⟩ := List.exists_mem_of_ne_nil _ (hiff.mp hstatus)
        exact .inr ⟨u, hu, by rw [(hnew u hu).2]⟩
      · rw [haway r hrid] at hstatus
        exact .inl hstatus
  cases hwrite : h.write with
  | consume call now =>
    rw [hwrite] at happlies
    obtain ⟨approved, hunexpired, hopHash, hconsumed⟩ := happlies.of_consume
    rw [Held.LetThrough, hwrite] at hlet
    obtain ⟨row', hrow', hgates⟩ := hs.gated call hlet.1
    obtain rfl := hs.row_eq hrow' hrow (by rw [hgates.id, hlet.2, hid])
    have hok : UseOk sha256 ⟨row', call, now, w.clock⟩ :=
      ⟨approved, hunexpired, by
        show opHashOf sha256 call.request row'.nonce.val = .ok row'.opHash
        rw [hopHash]
        exact hgates.hashed (isOpen_iff.mpr (.inr approved)), hgates.id⟩
    refine hchange [⟨row', call, now, w.clock⟩] ?_ (List.nodup_singleton _) (.inl ?_) ?_
    · intro u hu
      obtain rfl := List.mem_singleton.mp hu
      exact ⟨hok, rfl⟩
    · rw [approved]
      nofun
    · simp [hconsumed]
  | approve | deny | cancel =>
    have hnot : w.row.status ≠ .consumed := by
      intro hstatus
      obtain ⟨call, now, heq⟩ := happlies.consume_of_consumed hstatus
      rw [hwrite] at heq
      cases heq
    have hnone := hchange [] (List.forall_mem_nil _) List.nodup_nil (.inr rfl) (by simpa using hnot)
    rw [List.append_nil] at hnone
    exact hnone

/-- Every step keeps the invariant. -/
theorem Consistent.step (hs : Consistent sha256 s) (hstep : s.step upper sha256 a = some t) :
    Consistent sha256 t := by
  cases step_cases hstep with
  | administer directory => exact { hs with }
  | tick ms => exact { hs with }
  | file id approval row fresh pending none =>
    refine hs.filing ?_ (List.forall_mem_cons.mpr ⟨⟨pending, none⟩, hs.filed⟩)
    have hperm : (s.rows ++ row :: s.filed).Perm (row :: (s.rows ++ s.filed)) := List.perm_middle
    rw [(hperm.map _).nodup_iff, List.map_cons, List.nodup_cons]
    refine ⟨fun hmem ↦ ?_, hs.ids⟩
    obtain ⟨r, hr, heq⟩ := List.mem_map.mp hmem
    exact fresh r hr heq
  | fileCommits row mem => exact hs.fileCommits mem
  | fileRollsBack id =>
    refine hs.filing ?_ fun r hr ↦ hs.filed r (List.mem_filter.mp hr).1
    exact ((List.filter_sublist.append_left _).map _).nodup hs.ids
  | judge decision now j mem => exact hs.judge mem
  | gate input now call row mem id hashed => exact hs.gate mem id hashed
  | lock call h row mem id free written letThrough =>
    refine hs.holding ?_ fun h' hh' ↦ ?_
    · rw [List.map_cons, List.nodup_cons]
      refine ⟨fun hmem ↦ ?_, hs.held_ids⟩
      obtain ⟨h', hh', heq⟩ := List.mem_map.mp hmem
      exact free h' hh' heq
    · rcases List.mem_cons.mp hh' with rfl | hh'
      · exact .inr ⟨letThrough, row, mem, id, fun w hw ↦ by rw [written] at hw; cases hw⟩
      · exact .inl hh'
  | update h nonce row row' mem row_mem id applies =>
    refine hs.holding ?_ fun h' hh' ↦ ?_
    · rw [List.map_cons, List.nodup_cons]
      refine ⟨fun hmem ↦ ?_, (List.filter_sublist.map _).nodup hs.held_ids⟩
      obtain ⟨h', hh', heq⟩ := List.mem_map.mp hmem
      have hne := (List.mem_filter.mp hh').2
      exact absurd heq (by simpa using hne)
    · rcases List.mem_cons.mp hh' with rfl | hh'
      · refine .inr ⟨?_, row, row_mem, id, ?_⟩
        · have hlet := (hs.held h mem).letThrough
          rw [Held.LetThrough] at hlet ⊢
          exact hlet
        · rintro w hw
          obtain rfl := Option.some.inj hw
          exact applies
      · exact .inl (List.mem_filter.mp hh').1
  | void approvalId nonce => exact hs.release approvalId
  | commit h w row mem written row_mem id => exact hs.commit mem written row_mem id
  | rollback approvalId => exact hs.release approvalId
  | expireLapsed now limit nonce ids free => exact hs.sweep nonce free

/-- Every reachable state is consistent. -/
theorem consistent_invariant (upper : Char → List Char) (sha256 : Sha256) :
    (approvalSystem upper sha256).Invariant (Consistent sha256) where
  initial s hinitial := by
    obtain ⟨hrows, hfiled, hheld, hjudged, hgated, huses⟩ := hinitial
    refine ⟨?_, ?_, ?_, ?_, ?_, ?_, ?_, ?_, ?_, ?_, ?_⟩ <;>
      simp [hrows, hfiled, hheld, hjudged, hgated, huses]
  step _ _ _ hs hstep := hs.step hstep

/-! ### Every run -/

/-- How the rows of a state come from those of the state before: each moved as a write moves it, or
was filed. -/
def RowsMove (rows rows' : List AdminApproval) : Prop :=
  (∀ r ∈ rows, ∃ r' ∈ rows', Moves r r') ∧
    ∀ r' ∈ rows', (∃ r ∈ rows, Moves r r') ∨ r'.status = .pending ∧ r'.approvals = []

theorem RowsMove.refl (rows : List AdminApproval) : RowsMove rows rows :=
  ⟨fun r hr ↦ ⟨r, hr, .refl r⟩, fun r hr ↦ .inl ⟨r, hr, .refl r⟩⟩

theorem RowsMove.map {rows : List AdminApproval} {f : AdminApproval → AdminApproval}
    (hf : ∀ r ∈ rows, Moves r (f r)) : RowsMove rows (rows.map f) := by
  refine ⟨fun r hr ↦ ⟨f r, List.mem_map_of_mem hr, hf r hr⟩, fun r' hr' ↦ ?_⟩
  obtain ⟨r, hr, rfl⟩ := List.mem_map.mp hr'
  exact .inl ⟨r, hr, hf r hr⟩

/-- An approval is used where the transaction of its operation commits, and nowhere else. -/
def UsesGrow (s : Approvals) (a : ApprovalAction) (t : Approvals) : Prop :=
  t.uses = s.uses ∨ ∃ h ∈ s.held, a = .commit h.approvalId ∧ ∃ call now,
    h.write = .consume call now ∧ ∃ u : Use, u.call = call ∧ t.uses = s.uses ++ [u]

theorem Consistent.step_moves (hs : Consistent sha256 s)
    (hstep : s.step upper sha256 a = some t) : RowsMove s.rows t.rows ∧ UsesGrow s a t := by
  cases step_cases hstep with
  | fileCommits row mem =>
    refine ⟨⟨fun r hr ↦ ⟨r, List.mem_cons_of_mem _ hr, .refl r⟩, fun r' hr' ↦ ?_⟩, .inl rfl⟩
    rcases List.mem_cons.mp hr' with rfl | hr'
    · exact .inr (hs.filed r' mem)
    · exact .inl ⟨r', hr', .refl r'⟩
  | commit h w row mem written row_mem id =>
    obtain ⟨-, row', hrow', hid', happlies⟩ := hs.held h mem
    obtain rfl := hs.row_eq hrow' row_mem (hid'.trans id.symm)
    refine ⟨RowsMove.map fun r hr ↦ ?_, ?_⟩
    · by_cases hrid : r.id = h.approvalId
      · obtain rfl := hs.row_eq hr row_mem (hrid.trans id.symm)
        rw [if_pos (by simpa using hrid)]
        exact (happlies w written).moves
      · rw [if_neg (by simpa using hrid)]
        exact .refl r
    · cases hwrite : h.write with
      | consume call now =>
        exact .inr ⟨h, mem, rfl, call, now, hwrite, ⟨row', call, now, w.clock⟩, rfl, rfl⟩
      | approve | deny | cancel => exact .inl rfl
  | expireLapsed now limit nonce ids free =>
    refine ⟨RowsMove.map fun r _ ↦ ?_, .inl rfl⟩
    split
    · exact expire_moves
    · exact .refl r
  | administer | tick | file | fileRollsBack | judge | gate | lock | update | void | rollback =>
    exact ⟨.refl _, .inl rfl⟩

/-- An approval with every approval it needs: as many as it needs, from different accounts whatever
the letter case of their ids, each of an account that could give it when its decision was judged,
towards the approvals before it, and a human requester's own among them. -/
structure Complete (judged : List Judgement) (r : AdminApproval) : Prop where
  count : r.approvals.length = r.approvalsRequired
  distinct : r.approvals.Pairwise fun g g' ↦ g.lowerAccount ≠ g'.lowerAccount
  given : Given judged r
  requester : r.requesterKind = .human → ∃ g ∈ r.approvals, g.account = r.requester

/-- A use that a transaction has written and not committed can still be rolled back, which leaves
the approval approved. -/
def LeftApproved (upper : Char → List Char) (sha256 : Sha256) (s : Approvals) : Prop :=
  ∀ h ∈ s.held, ∀ call now w, h.write = .consume call now → h.written = some w →
    ∃ r ∈ s.rows, r.id = h.approvalId ∧ r.status = .approved ∧
      ∀ t, s.step upper sha256 (.rollback h.approvalId) = some t → r ∈ t.rows

/-- In every run, whatever commits and whatever rolls back: an approval only moves as the lifecycle
says; one that is or was approved has all its approvals; it is used at most once, before its expiry,
where the transaction of the operation commits whose canonical request hashes with its nonce to its
`op_hash`; and a use that rolls back leaves it approved. -/
theorem approvals_used_once (upper : Char → List Char) (sha256 : Sha256) (s : Approvals)
    (hs : (approvalSystem upper sha256).Reachable s) :
    (∀ a t, s.step upper sha256 a = some t → RowsMove s.rows t.rows ∧ UsesGrow s a t) ∧
      (∀ r ∈ s.rows, r.status = .approved ∨ r.status = .consumed → Complete s.judged r) ∧
      (s.uses.map (·.approval.id)).Nodup ∧ (∀ u ∈ s.uses, UseOk sha256 u) ∧
      (∀ r ∈ s.rows, r.status = .consumed ↔ ∃ u ∈ s.uses, u.approval.id = r.id) ∧
      LeftApproved upper sha256 s := by
  have hc := (consistent_invariant upper sha256).reachable hs
  refine ⟨fun a t hstep ↦ hc.step_moves hstep, fun r hr hstatus ↦ ?_, hc.uses_ids, hc.uses,
    fun r hr ↦ ⟨hc.consumed r hr, ?_⟩, ?_⟩
  · have hcount := r.status_matches_approvals.1 hstatus
    have hgiven := hc.given r hr
    exact ⟨hcount, hgiven.distinct, hgiven, hgiven.requester hcount⟩
  · rintro ⟨u, hu, hid⟩
    obtain ⟨r', hr', hid', hstatus⟩ := hc.used u hu
    obtain rfl := hc.row_eq hr' hr (hid'.trans hid)
    exact hstatus
  · intro h hh call now w hwrite hwritten
    obtain ⟨-, row, hrow, hid, happlies⟩ := hc.held h hh
    have happlies := happlies w hwritten
    rw [hwrite] at happlies
    refine ⟨row, hrow, hid, happlies.of_consume.1, fun t hstep ↦ ?_⟩
    cases hstep
    exact hrow

section Sample

def sampleSha256 : Sha256 := fun bytes ↦ ⟨Sha256.hash bytes, Sha256.length_hash bytes⟩

/-- An account that holds `approvals.approve` on its realm. -/
def sampleDirectory : Directory where
  realms := [⟨1, true, false, some "https://idp.example/r"⟩]
  users := [⟨1, 2, true, none⟩]
  grants := [⟨1, 2, some 1, .builtIn ["approvals.approve"]⟩]

/-- The account's own request, which needs its own approval. -/
def sampleApproval : NewAdminApproval where
  realmId := 1
  requesterKind := .human
  requesterRealmId := 1
  requesterId := 2
  opHash := match digestOf true (nonceOf 0) with
    | .ok digest => digest
    | .error _ => ⟨List.replicate 32 0, Audit.length_zeros⟩
  nonce := nonceOf 0
  approvalsRequired := 1
  createdAt := 0
  expiresAt := 1000

def sampleStart : Approvals := ⟨sampleDirectory, [], [], [], [], [], [], 5⟩

/-- The request is filed and the account's decision let through. -/
def sampleJudged : List ApprovalAction :=
  [.file 7 sampleApproval, .fileCommits 7,
    .judge ⟨1, 7, ⟨UuidText.text 1, UuidText.text 2⟩, 0⟩ 5]

/-- The account's answer is written. -/
def sampleGiven : List ApprovalAction :=
  [.lock (.approve 0 "key" "passkey" 6), .update 7 (nonceOf 1)]

/-- The operation runs with the approval and rolls back, then runs again and commits. -/
def sampleUsed : List ApprovalAction :=
  [.gate (statusUpdate true) 1 7 8, .lock (.consume 0 8), .update 7 (nonceOf 1), .rollback 7,
    .lock (.consume 0 9), .update 7 (nonceOf 1), .commit 7]

theorem exists_reachable_of_exec (as : List ApprovalAction) (p : Approvals → Bool)
    (h : (exec (Approvals.step (fun c ↦ [c]) sampleSha256) sampleStart as).any p = true) :
    ∃ s, (approvalSystem (fun c ↦ [c]) sampleSha256).Reachable s ∧ p s = true := by
  cases hs : exec (Approvals.step (fun c ↦ [c]) sampleSha256) sampleStart as with
  | none =>
    rw [hs] at h
    cases h
  | some s =>
    rw [hs] at h
    exact ⟨s, ⟨sampleStart, as, ⟨rfl, rfl, rfl, rfl, rfl, rfl⟩, .of_exec hs⟩, h⟩

theorem approvals_used_once_sample : ∃ s : Approvals,
    (∃ r ∈ s.rows, r.status = .consumed) ∧ (s.uses.map (·.approval.id)).Nodup ∧
      ∀ u ∈ s.uses, UseOk sampleSha256 u := by
  obtain ⟨s, hs, hp⟩ := exists_reachable_of_exec
    (sampleJudged ++ sampleGiven ++ .commit 7 :: sampleUsed)
    (fun s ↦ decide (∃ r ∈ s.rows, r.status = .consumed)) (by decide +kernel)
  obtain ⟨-, -, hnodup, hok, -, -⟩ := approvals_used_once (fun c ↦ [c]) sampleSha256 s hs
  exact ⟨s, of_decide_eq_true hp, hnodup, hok⟩

/-- The account loses its grants between its decision and its answer. The answer is stored, and
approves the request. -/
theorem approved_without_standing : ∃ s t : Approvals,
    (approvalSystem (fun c ↦ [c]) sampleSha256).Reachable s ∧
      s.step (fun c ↦ [c]) sampleSha256 (.commit 7) = some t ∧
      (∀ r ∈ s.rows, r.status = .pending) ∧
      ∃ r ∈ t.rows, r.status = .approved ∧ r.approvals ≠ [] ∧ ∀ g ∈ r.approvals, ∀ issuedAtMs,
        approverAuthority s.directory ⟨g.approverRealmId, g.approverId⟩ r.realmId issuedAtMs =
          none := by
  obtain ⟨s, hs, hp⟩ := exists_reachable_of_exec
    (sampleJudged ++ .administer { sampleDirectory with grants := [] } :: sampleGiven)
    (fun s ↦ decide (s.directory = { sampleDirectory with grants := [] } ∧
      (∀ r ∈ s.rows, r.status = .pending) ∧
      ∃ t ∈ s.step (fun c ↦ [c]) sampleSha256 (.commit 7), ∃ r ∈ t.rows,
        r.status = .approved ∧ r.approvals ≠ [])) (by decide)
  obtain ⟨hdirectory, hpending, t, ht, r, hr, happroved, hsome⟩ := of_decide_eq_true hp
  refine ⟨s, t, hs, ht, hpending, r, hr, happroved, hsome, fun g _ issuedAtMs ↦ ?_⟩
  have hgrants : ∀ (realm : RealmRow) (user : UserRow) (targetRealmId : Uuid),
      matchingGrants { sampleDirectory with grants := [] } realm user targetRealmId = [] :=
    fun _ _ _ ↦ rfl
  rw [hdirectory]
  simp [approverAuthority, resolveAdminAuthority, hgrants]

end Sample

end QAuth.Approvals
