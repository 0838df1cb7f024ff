import QAuth.Grants.Invariant

/-!
# Each call keeps the facts of its task

What a task has established after each of its calls, one lemma for each kind of task, and from them
the invariant of the whole system: a call changes one task and takes no more than the lock manager
grants, and a commit carries the facts of all the others.
-/

namespace QAuth.Grants

open QAuth.Token Guards Locks Table Transition

section Calls

variable {s : State} {db : Tables} {now : ℕ} {txn : Txn} {task : Task} {plan : Plan}
  {stage : Stage} {job : Revocation} {input : Input}

/-- A task whose transaction has written nothing. -/
theorem TaskOk.of_empty {program : Program} (h : ProgramOk s.db s.now .empty program) :
    TaskOk s ⟨.empty, program⟩ :=
  ⟨.of_empty rfl rfl, h⟩

/-! ### Revocations that begin -/

theorem revokeOk_begun (hsubject : job.replay = true → job.target.Subject db) :
    RevokeOk db now .empty job (.begun now) where
  spent := rfl
  inserted := rfl
  clock := Nat.le_refl now
  bulk _ h := nomatch h
  subject := hsubject
  replay _ := trivial

theorem taskOk_rejectCodeReplay {code : AuthorizationCode} (h : s.db.Used code.id) :
    TaskOk s (rejectCodeReplay s.now code) :=
  .of_empty (revokeOk_begun fun _ ↦ h)

theorem taskOk_rejectRefreshTokenReplay {stored : RefreshToken} (h : s.db.Known stored) :
    TaskOk s (rejectRefreshTokenReplay s.now stored) := by
  obtain ⟨row, hrow, -, hdata, -⟩ := h
  exact .of_empty (revokeOk_begun fun _ ↦ ⟨row, hrow, by rw [hdata]⟩)

theorem taskOk_afterCodeRefusal {code : Option AuthorizationCode} {effect : RefusalEffect}
    (h : effect = .codeReplay → ∀ c ∈ code, s.db.Used c.id) :
    TaskOk s (afterCodeRefusal s.now code effect) := by
  unfold afterCodeRefusal
  split
  · exact taskOk_rejectCodeReplay (h rfl _ rfl)
  · exact .of_empty rfl
  · exact .of_empty rfl

theorem taskOk_afterRefreshRefusal {stored : Option RefreshToken} {effect : RefusalEffect}
    (h : ∀ r ∈ stored, s.db.Known r) : TaskOk s (afterRefreshRefusal s.now stored effect) := by
  unfold afterRefreshRefusal
  split
  · exact taskOk_rejectRefreshTokenReplay (h _ rfl)
  · exact .of_empty (revokeOk_begun fun hreplay ↦ nomatch hreplay)
  · exact .of_empty (revokeOk_begun fun hreplay ↦ nomatch hreplay)
  · exact .of_empty rfl

/-! ### The checks -/

/-- A plan begins: it has drawn the family it starts, if any. -/
theorem grantOk_begin (hplan : plan.Ok db) (hbegin : plan.begin db .begun = some task) :
    task = ⟨{ Txn.empty with locks := plan.drawn }, .granting plan .begun⟩ ∧
      GrantOk db { Txn.empty with locks := plan.drawn } plan .begun := by
  unfold Plan.begin at hbegin
  split_ifs at hbegin with hfresh
  refine ⟨(Option.some.inj hbegin).symm, hplan, fun _ ↦ ⟨fun x hx ↦ hx, hfresh⟩,
    fun _ ↦ ⟨rfl, rfl⟩, ?_, ?_, ?_, ?_⟩
  · rintro (h | h) <;> cases h
  · intro h
    cases h
  · intro h
    cases h
  · intro row hrow
    cases hrow

theorem taskOk_begin (hplan : plan.Ok s.db) (hbegin : plan.begin s.db .begun = some task) :
    TaskOk s task := by
  obtain ⟨rfl, hgrant⟩ := grantOk_begin hplan hbegin
  exact ⟨.of_empty rfl rfl, hgrant⟩

theorem redemptionPlan_ok {ctx : HandlerContext} {body : CodeBody} {reads : CodeReads}
    {redemption : Redemption} (h : checkRedemption ctx body reads = .ok redemption)
    (hknown : ∀ c ∈ reads.code, db.CodeKnown c) : (redemptionPlan redemption).Ok db := by
  obtain ⟨hcode, -, -, -, -, scopes, -, -, hrefresh⟩ := checkRedemption_eq_ok h
  refine ⟨hknown _ hcode, fun data hdata ↦ ?_⟩
  rw [hrefresh data hdata]
  exact ⟨rfl, rfl⟩

theorem rotationPlan_ok {ctx : HandlerContext} {body : RefreshBody} {reads : RefreshReads}
    {rotation : Rotation} (h : checkRotation ctx body reads = .ok rotation)
    (hknown : ∀ r ∈ reads.stored, r.tokenHash = reads.presentedHash ∧ db.Known r) :
    (rotationPlan rotation).Ok db := by
  obtain ⟨hstored, hclient, -, -, -, -, -, scopes, -, -, hrefresh, -⟩ := checkRotation_eq_ok h
  obtain ⟨hhash, hknown⟩ := hknown _ hstored
  refine ⟨hknown, _, rfl, ?_⟩
  rw [hrefresh]
  exact ⟨rfl, rfl, hclient.symm, congrArg some hhash.symm, rfl⟩

theorem taskOk_checkCode {ctx : HandlerContext} {body : CodeBody} {code : Option AuthorizationCode}
    {reads : CodeReads} (hknown : ∀ c ∈ code, s.db.CodeKnown c)
    (hcall : checkCode s ctx body code reads = some task) : TaskOk s task := by
  unfold checkCode at hcall
  split at hcall
  · rename_i redemption hcheck
    exact taskOk_begin (redemptionPlan_ok hcheck hknown) hcall
  · rename_i refusal hcheck
    rw [← Option.some.inj hcall]
    refine taskOk_afterCodeRefusal fun heffect c hc ↦ ?_
    obtain ⟨c', hc', hused⟩ := used_of_codeReplay hcheck heffect
    obtain ⟨row, hrow, hid, hrow'⟩ := hknown c hc
    rw [Option.some.inj (hc'.symm.trans hc)] at hused
    exact ⟨row, hrow, hid, hrow' hused⟩

theorem taskOk_checkToken {ctx : HandlerContext} {body : RefreshBody} {presentedHash : String}
    {stored : Option RefreshToken} {reads : RefreshReads}
    (hknown : ∀ r ∈ stored, r.tokenHash = presentedHash ∧ s.db.Known r)
    (hcall : checkToken s ctx body presentedHash stored reads = some task) : TaskOk s task := by
  unfold checkToken at hcall
  split at hcall
  · rename_i rotation hcheck
    exact taskOk_begin (rotationPlan_ok hcheck hknown) hcall
  · rw [← Option.some.inj hcall]
    exact taskOk_afterRefreshRefusal fun r hr ↦ (hknown r hr).2

/-! ### The statements of a grant -/

section Grant

variable {stored : RefreshToken} {code : AuthorizationCode}

theorem GrantOk.lockUser (hdb : db.Ok) (h : GrantOk db txn plan .begun)
    (hspends : plan.spends = .token stored) :
    GrantOk db (txn.lockUserTokens .shared ((db.find stored.id).map (·.userId))) plan
      .userLocked where
  checked := h.checked
  drawn _ := ⟨fun x hx ↦ Txn.mem_locks_lockUserTokens ((h.drawn (.inl rfl)).1 x hx),
    (h.drawn (.inl rfl)).2⟩
  before _ := h.before rfl
  user _ stored' hspends' := by
    have hchecked := h.checked
    rw [Plan.Ok, hspends] at hchecked
    obtain ⟨row, -, hfind, -, hdata, -⟩ := hchecked.1.find hdb.ids
    rw [← Spends.token.inj (hspends.symm.trans hspends'), hfind, Option.map_some, hdata]
    exact Txn.user_mem_locks
  client hstage := nomatch hstage
  spent hstage := nomatch hstage
  inserted row hrow := h.inserted row hrow

theorem GrantOk.lockClient (hdb : db.Ok) (h : GrantOk db txn plan .userLocked)
    (hspends : plan.spends = .token stored) :
    GrantOk db (txn.lockClientTokens .shared ((db.find stored.id).map (·.oauthClientId))) plan
      .clientLocked where
  checked := h.checked
  drawn _ := ⟨fun x hx ↦ Txn.mem_locks_lockClientTokens ((h.drawn (.inl rfl)).1 x hx),
    (h.drawn (.inl rfl)).2⟩
  before _ := h.before rfl
  user _ stored' hspends' := Txn.mem_locks_lockClientTokens (h.user (.inl rfl) stored' hspends')
  client _ stored' hspends' := by
    have hchecked := h.checked
    rw [Plan.Ok, hspends] at hchecked
    obtain ⟨row, -, hfind, -, hdata, -⟩ := hchecked.1.find hdb.ids
    rw [← Spends.token.inj (hspends.symm.trans hspends'), hfind, Option.map_some, hdata]
    exact Txn.client_mem_locks
  spent hstage := nomatch hstage
  inserted row hrow := h.inserted row hrow

/-- What a grant that has consumed what it spends has established. -/
theorem GrantOk.of_holding (hchecked : plan.Ok db) (hstage : stage.holding = true)
    (hdrawn : (∀ x ∈ plan.drawn, x ∈ txn.locks) ∧
      ∀ data ∈ plan.refresh, plan.drawn ≠ [] → ¬ db.HasFamily data.familyId)
    (hspent : ∀ code, plan.spends = .code code → txn.spent = some code.id)
    (hlineage : ∀ data ∈ plan.refresh, Lineage db txn data)
    (hinserted : ∀ row, txn.inserted = some row → plan.refresh = some row.toNewRefreshToken) :
    GrantOk db txn plan stage where
  checked := hchecked
  drawn _ := hdrawn
  before h := by
    rw [hstage] at h
    cases h
  user h := by rcases h with rfl | rfl <;> cases hstage
  client h := by
    subst h
    cases hstage
  spent _ := ⟨hspent, hlineage⟩
  inserted := hinserted

/-- The compare-and-set of a rotation that wins revokes the row that was read. -/
theorem GrantOk.revokeIfActive {txn' : Txn} (hdb : db.Ok)
    (h : GrantOk db txn plan .clientLocked) (hspends : plan.spends = .token stored)
    (hcas : db.revokeIfActive txn stored.id "rotated" = some txn') :
    txn'.Ok db ∧ GrantOk db txn' plan .spent := by
  unfold Tables.revokeIfActive at hcas
  split_ifs at hcas with hany
  cases hcas
  obtain ⟨hspent, hinserted⟩ := h.before rfl
  have hchecked := h.checked
  rw [Plan.Ok, hspends] at hchecked
  obtain ⟨⟨row, hrow, hbecomes⟩, data, hrefresh, hchild⟩ := hchecked
  have hlive : row.revoked = false := by
    simp only [List.any_eq_true, decide_eq_true_eq] at hany
    obtain ⟨found, hfound, hid, hlive⟩ := hany
    rwa [hdb.eq_of_id hrow hfound (hbecomes.id.trans hid.symm)]
  refine ⟨.of_empty hspent hinserted, .of_holding h.checked rfl (h.drawn (.inl rfl))
    (fun code hcode ↦ ?_) (fun data' hdata' ↦ ?_) h.inserted⟩
  · rw [hspends] at hcode
    cases hcode
  · rw [Option.some.inj (hdata'.symm.trans hrefresh)]
    have hdata := hbecomes.data
    have huser := h.user (.inr rfl) stored hspends
    have hclient := h.client rfl stored hspends
    refine .rotation row hrow hlive (by rw [hbecomes.id]) ?_ ?_ ?_ ?_ hchild.code ?_ ?_
    · rw [hdata, hchild.familyId]
    · rw [hdata, hchild.userId]
    · rw [hdata, hchild.oauthClientId]
    · rw [hdata, hchild.previous]
    · rw [hdata]
      exact huser
    · rw [hdata]
      exact hclient

theorem Plan.mem_drawn {data : NewRefreshToken} (hspends : ∀ stored, plan.spends ≠ .token stored)
    (hdata : data ∈ plan.refresh) : (.family data.familyId, .exclusive) ∈ plan.drawn := by
  unfold Plan.drawn
  split
  · rename_i hstored
    exact absurd hstored (hspends _)
  all_goals
    rw [Option.mem_def.mp hdata]
    exact List.mem_singleton_self _

theorem Lineage.of_drawn {data : NewRefreshToken} (hspends : ∀ stored, plan.spends ≠ .token stored)
    (hdrawn : (∀ x ∈ plan.drawn, x ∈ txn.locks) ∧
      ∀ data ∈ plan.refresh, plan.drawn ≠ [] → ¬ db.HasFamily data.familyId)
    (hdata : data ∈ plan.refresh) (hfirst : data.previousTokenHash = none)
    (hcode : ∀ c, data.authorizationCodeId = some c → txn.spent = some c) :
    Lineage db txn data := by
  have hmem := Plan.mem_drawn hspends hdata
  exact .start (hdrawn.2 data hdata (List.ne_nil_of_mem hmem)) (hdrawn.1 _ hmem) hfirst hcode

/-- The compare-and-set of a redemption that wins. -/
theorem GrantOk.markUsed {txn' : Txn} (h : GrantOk db txn plan .begun)
    (hspends : plan.spends = .code code) (hcas : db.markUsed txn code.id = some txn') :
    txn'.Ok db ∧ GrantOk db txn' plan .spent := by
  unfold Tables.markUsed at hcas
  split_ifs at hcas with hany
  cases hcas
  obtain ⟨-, hinserted⟩ := h.before rfl
  have hchecked := h.checked
  rw [Plan.Ok, hspends] at hchecked
  have hnone : ∀ row, txn.inserted ≠ some row := by
    rw [hinserted]
    exact fun _ h ↦ nomatch h
  have hunused : db.Unused code.id := by
    simp only [List.any_eq_true, decide_eq_true_eq] at hany
    exact hany
  constructor
  · refine ⟨fun c hc ↦ ?_, fun row hrow ↦ absurd hrow (hnone row),
      fun row hrow ↦ absurd hrow (hnone row), fun row hrow ↦ absurd hrow (hnone row)⟩
    rw [← Option.some.inj hc]
    exact hunused
  · refine .of_holding h.checked rfl (h.drawn (.inl rfl)) (fun code' hcode' ↦ ?_)
      (fun data hdata ↦ ?_) h.inserted
    · rw [Spends.code.inj (hspends.symm.trans hcode')]
    · obtain ⟨hfirst, hcode⟩ := hchecked.2 data hdata
      refine .of_drawn (fun stored hstored ↦ ?_) (h.drawn (.inl rfl)) hdata hfirst fun c hc ↦ ?_
      · rw [hspends] at hstored
        cases hstored
      · exact hcode.symm.trans hc

/-- A grant that takes the client's lock to store its refresh token. -/
theorem GrantOk.lockCreate {clientId : Option Uuid} (h : GrantOk db txn plan .spent) :
    GrantOk db (txn.lockClientTokens .shared clientId) plan .createLocked := by
  obtain ⟨hspent, hlineage⟩ := h.spent rfl
  obtain ⟨hdrawn, hfresh⟩ := h.drawn (.inr rfl)
  refine .of_holding h.checked rfl ⟨fun x hx ↦ Txn.mem_locks_lockClientTokens (hdrawn x hx), hfresh⟩
    hspent (fun data hdata ↦ ?_) h.inserted
  exact (hlineage data hdata).mono (fun x hx ↦ Txn.mem_locks_lockClientTokens hx) rfl rfl

/-- A transaction that takes one more lock. -/
theorem Txn.Ok.lockClient {mode : Mode} {clientId : Option Uuid} (h : txn.Ok db) :
    (txn.lockClientTokens mode clientId).Ok db :=
  ⟨h.spent, h.unique, h.unrevoked, fun row hrow ↦
    (h.lineage row hrow).mono (fun _ hx ↦ Txn.mem_locks_lockClientTokens hx) rfl rfl⟩

theorem GrantOk.create {txn' : Txn} {data : NewRefreshToken} {id : Uuid} {createdAt : ℕ}
    (htxn : txn.Ok db) (h : GrantOk db txn plan .createLocked) (hrefresh : plan.refresh = some data)
    (hcreate : db.create txn data id createdAt = some txn') :
    txn'.Ok db ∧ GrantOk db txn' plan .inserted := by
  unfold Tables.create at hcreate
  split_ifs at hcreate with hunique
  cases hcreate
  obtain ⟨hspent, hlineage⟩ := h.spent rfl
  have hmono : ∀ data', Lineage db txn data' →
      Lineage db { txn with inserted := some (data.row id createdAt) } data' :=
    fun data' h ↦ h.mono (fun _ hx ↦ hx) rfl rfl
  constructor
  · refine ⟨htxn.spent, fun row hrow r hr ↦ ?_, fun row hrow ↦ ?_, fun row hrow ↦ ?_⟩
    · rw [← Option.some.inj hrow]
      exact hunique r hr
    · rw [← Option.some.inj hrow]
      rfl
    · rw [← Option.some.inj hrow]
      exact hmono _ (hlineage data hrefresh)
  · refine .of_holding h.checked rfl (h.drawn (.inr rfl)) hspent
      (fun data' hdata' ↦ hmono _ (hlineage data' hdata')) fun row hrow ↦ ?_
    rw [hrefresh, ← Option.some.inj hrow]
    rfl

theorem used_of_markUsed_eq_none (hknown : db.CodeKnown code)
    (hcas : db.markUsed txn code.id = none) : db.Used code.id := by
  obtain ⟨row, hrow, hid, -⟩ := hknown
  unfold Tables.markUsed at hcas
  split_ifs at hcas with hany
  refine ⟨row, hrow, hid, ?_⟩
  by_contra hunused
  rw [Bool.not_eq_true] at hunused
  exact hany (List.any_eq_true.mpr ⟨row, hrow, by simp [hid, hunused]⟩)

theorem taskOk_grantCall (hdb : s.db.Ok) (htxn : txn.Ok s.db) (h : GrantOk s.db txn plan stage)
    (hcall : grantCall s txn plan stage input = some task) : TaskOk s task := by
  have hempty : ∀ {txn' : Txn}, stage.holding = false → txn'.spent = txn.spent →
      txn'.inserted = txn.inserted → txn'.Ok s.db := fun hstage hspent hinserted ↦
    .of_empty (hspent.trans (h.before hstage).1) (hinserted.trans (h.before hstage).2)
  have hchecked := h.checked
  unfold grantCall at hcall
  split at hcall
  · rename_i stored hspends
    rw [← Option.some.inj hcall]
    exact ⟨hempty rfl rfl rfl, h.lockUser hdb hspends⟩
  · rename_i stored hspends
    rw [← Option.some.inj hcall]
    exact ⟨hempty rfl rfl rfl, h.lockClient hdb hspends⟩
  · rename_i stored hspends
    split at hcall
    · rename_i txn' hcas
      rw [← Option.some.inj hcall]
      obtain ⟨htxn', hgrant⟩ := h.revokeIfActive hdb hspends hcas
      exact ⟨htxn', hgrant⟩
    · rw [← Option.some.inj hcall]
      rw [Plan.Ok, hspends] at hchecked
      exact taskOk_rejectRefreshTokenReplay hchecked.1
  · rename_i code hspends
    split at hcall
    · rename_i txn' hcas
      rw [← Option.some.inj hcall]
      obtain ⟨htxn', hgrant⟩ := h.markUsed hspends hcas
      exact ⟨htxn', hgrant⟩
    · rename_i hcas
      rw [← Option.some.inj hcall]
      rw [Plan.Ok, hspends] at hchecked
      exact taskOk_rejectCodeReplay (used_of_markUsed_eq_none hchecked.1 hcas)
  · obtain ⟨data, hrefresh, rfl⟩ := Option.map_eq_some_iff.mp hcall
    exact ⟨htxn.lockClient, h.lockCreate⟩
  · obtain ⟨data, hrefresh, hcreate⟩ := Option.bind_eq_some_iff.mp hcall
    obtain ⟨txn', hinsert, rfl⟩ := Option.map_eq_some_iff.mp hcreate
    obtain ⟨htxn', hgrant⟩ := h.create htxn hrefresh hinsert
    exact ⟨htxn', hgrant⟩
  · cases hcall

theorem taskOk_login {data : NewRefreshToken} (hfirst : data.previousTokenHash = none)
    (hcode : data.authorizationCodeId = none)
    (hcall : (Plan.mk .nothing (some data) none).begin s.db .spent = some task) :
    TaskOk s task := by
  unfold Plan.begin at hcall
  split_ifs at hcall with hfresh
  rw [← Option.some.inj hcall]
  have hdata : ∀ data' ∈ some data, data'.previousTokenHash = none ∧
      data'.authorizationCodeId = none := by
    intro data' hdata'
    rw [← Option.some.inj hdata']
    exact ⟨hfirst, hcode⟩
  refine ⟨.of_empty rfl rfl, .of_holding hdata rfl ⟨fun _ hx ↦ hx, hfresh⟩
    (fun _ hspends ↦ nomatch hspends) (fun data' hdata' ↦ ?_) fun _ hrow ↦ nomatch hrow⟩
  refine .of_drawn (fun stored hspends ↦ Spends.noConfusion hspends) ⟨fun _ hx ↦ hx, hfresh⟩ hdata'
    (hdata data' hdata').1 fun c hc ↦ ?_
  rw [(hdata data' hdata').2] at hc
  cases hc

end Grant

/-! ### The statements of a revocation -/

section Revoke

variable {target : Target} {family : Option Uuid}

/-- Every row of the family, or of the code's family, is behind the lock taken for one of them. -/
theorem Target.locked_lock (hdb : db.Ok) (htarget : target.Subject db ∨ target.bulk = true) :
    target.Locked db (target.lock db txn) := by
  cases target with
  | family f =>
    intro r hr hfamily
    cases hfind : db.tokens.find? (·.familyId = f) with
    | none => exact absurd hfamily (by simpa using List.find?_eq_none.mp hfind r hr)
    | some first =>
      have hfirst : first.familyId = f := by simpa using List.find?_some hfind
      obtain ⟨huser, -⟩ := hdb.owner r hr first (List.mem_of_find?_eq_some hfind)
        (hfamily.trans hfirst.symm)
      rw [Target.lock, hfind, huser]
      exact Txn.user_mem_locks
  | code c =>
    intro r hr hcode
    cases hfind : db.tokens.find? (·.authorizationCodeId = some c) with
    | none => exact absurd hcode (by simpa using List.find?_eq_none.mp hfind r hr)
    | some first =>
      have hfirst : first.authorizationCodeId = some c := by simpa using List.find?_some hfind
      have hmem := List.mem_of_find?_eq_some hfind
      obtain ⟨huser, -⟩ := hdb.owner r hr first hmem (hdb.start r hr first hmem c hcode hfirst)
      rw [Target.lock, hfind, huser]
      exact Txn.user_mem_locks
  | user u => exact Txn.user_mem_locks
  | userAndClient u c => exact Txn.user_mem_locks
  | client c => exact Txn.client_mem_locks
  | token id => trivial

theorem Target.Locked.mono {txn' : Txn} (h : target.Locked db txn)
    (hlocks : ∀ x ∈ txn.locks, x ∈ txn'.locks) : target.Locked db txn' := by
  cases target with
  | family f => exact fun r hr hfamily ↦ hlocks _ (h r hr hfamily)
  | code c => exact fun r hr hcode ↦ hlocks _ (h r hr hcode)
  | user u => exact hlocks _ h
  | userAndClient u c => exact hlocks _ h
  | client c => exact hlocks _ h
  | token id => trivial

theorem Target.located_familyOf (hdb : db.Ok) : target.Located db (target.familyOf db) := by
  cases target with
  | code c =>
    cases hfind : db.tokens.find? (·.authorizationCodeId = some c) with
    | none =>
      rw [Target.familyOf, hfind]
      exact ⟨fun r hr hcode ↦ absurd hcode (by simpa using List.find?_eq_none.mp hfind r hr),
        fun f hf ↦ nomatch hf⟩
    | some first =>
      have hfirst : first.authorizationCodeId = some c := by simpa using List.find?_some hfind
      have hmem := List.mem_of_find?_eq_some hfind
      rw [Target.familyOf, hfind]
      refine ⟨fun r hr hcode ↦ ?_, fun f hf ↦ ⟨first, hmem, hfirst, Option.some.inj hf⟩⟩
      rw [hdb.start r hr first hmem c hcode hfirst]
      rfl
  | family f => rfl
  | user u => trivial
  | userAndClient u c => trivial
  | client c => trivial
  | token id => trivial

theorem Target.Subject.eq (h : target.Subject db) :
    (∃ f, target = .family f) ∨ ∃ c, target = .code c := by
  cases target with
  | family f => exact .inl ⟨f, rfl⟩
  | code c => exact .inr ⟨c, rfl⟩
  | user u => exact h.elim
  | userAndClient u c => exact h.elim
  | client c => exact h.elim
  | token id => exact h.elim

/-- The rows a replay's update is to write are all the live rows of the family it has found. -/
theorem closing_selected (hdb : db.Ok) (hsubject : target.Subject db)
    (hlocked : target.Locked db txn) (hlocated : target.Located db family) :
    Closing db txn target now (family = some ·) (fun _ ↦ False) (db.selected now target) := by
  have hselects : ∀ r ∈ db.tokens, family = some r.familyId → r.revoked = false →
      target.selects db now r = true := by
    intro r hr hfamily hlive
    rcases hsubject.eq with ⟨f, rfl⟩ | ⟨c, rfl⟩ <;> simp only [Target.selects, decide_eq_true_eq]
    · exact ⟨Option.some.inj (hfamily.symm.trans hlocated), hlive⟩
    · obtain ⟨first, hfirst, hcode, hsame⟩ := hlocated.2 _ hfamily
      exact ⟨⟨first, hfirst, hcode, hsame⟩, hlive⟩
  refine ⟨fun f hf ↦ ?_, fun r hr hfamily ↦ .inl ?_,
    fun r hr hfamily hlive ↦ .inr (hselects r hr hfamily hlive), fun r hr hfamily ↦ ?_⟩
  · rcases hsubject.eq with ⟨f', rfl⟩ | ⟨c, rfl⟩
    · rw [Option.some.inj (hf.symm.trans hlocated)]
      exact hsubject
    · obtain ⟨first, hfirst, -, hsame⟩ := hlocated.2 f hf
      exact ⟨first, hfirst, hsame⟩
  · rcases hsubject.eq with ⟨f, rfl⟩ | ⟨c, rfl⟩
    · exact hlocked r hr (Option.some.inj (hfamily.symm.trans hlocated))
    · obtain ⟨first, hfirst, hcode, hsame⟩ := hlocated.2 _ hfamily
      rw [(hdb.owner r hr first hfirst hsame.symm).1]
      exact hlocked first hfirst hcode
  · by_cases hlive : r.revoked = true
    · exact .inl hlive
    · rw [Bool.not_eq_true] at hlive
      exact .inr (.inr (.inl (List.mem_map_of_mem
        (List.mem_filter.mpr ⟨hr, hselects r hr hfamily hlive⟩))))

/-- Neither a lock nor an update of a revocation spends a code or inserts a token. -/
theorem Target.writes_lock (db : Tables) (txn : Txn) (target : Target) :
    (target.lock db txn).spent = txn.spent ∧ (target.lock db txn).inserted = txn.inserted := by
  cases target <;> exact ⟨rfl, rfl⟩

theorem Tables.writes_touch (db : Tables) (now : ℕ) (target : Target) (reason : String) (txn : Txn)
    (id : Uuid) :
    (db.touch now target reason txn id).spent = txn.spent ∧
      (db.touch now target reason txn id).inserted = txn.inserted ∧
      (db.touch now target reason txn id).locks = txn.locks := by
  unfold Tables.touch
  split
  · exact ⟨rfl, rfl, rfl⟩
  · split_ifs <;> exact ⟨rfl, rfl, rfl⟩

theorem taskOk_revokeCall (hdb : s.db.Ok) {stage : RevokeStage}
    (h : RevokeOk s.db s.now txn job stage) (hcall : revokeCall s txn job stage = some task) :
    TaskOk s task := by
  have hsame : ∀ {stage' : RevokeStage}, stage'.clock ≤ s.now →
      (stage'.underLock = true → stage.underLock = true) →
      (job.replay = true → ReplayOk s.db txn job.target stage') →
      TaskOk s ⟨txn, .revoking job stage'⟩ := fun hclock hlock hreplay ↦
    ⟨.of_empty h.spent h.inserted, h.spent, h.inserted, hclock,
      fun hbulk hunder ↦ h.bulk hbulk (hlock hunder), h.subject, hreplay⟩
  unfold revokeCall at hcall
  split at hcall
  · rename_i now
    rw [← Option.some.inj hcall]
    obtain ⟨hspent, hinserted⟩ := Target.writes_lock s.db txn job.target
    rw [h.spent] at hspent
    rw [h.inserted] at hinserted
    exact ⟨.of_empty hspent hinserted, hspent, hinserted, h.clock,
      fun hbulk _ ↦ Target.locked_lock hdb (.inr hbulk), h.subject,
      fun hreplay ↦ Target.locked_lock hdb (.inl (h.subject hreplay))⟩
  · rename_i now
    rw [← Option.some.inj hcall]
    exact hsame h.clock id fun hreplay ↦ ⟨h.replay hreplay, Target.located_familyOf hdb⟩
  · rename_i now family
    rw [← Option.some.inj hcall]
    refine hsame h.clock id fun hreplay ↦ ?_
    obtain ⟨hlocked, hlocated⟩ := h.replay hreplay
    exact ⟨closing_selected hdb (h.subject hreplay) hlocked hlocated, hlocated⟩
  · rename_i now family id todo
    rw [← Option.some.inj hcall]
    obtain ⟨hspent, hinserted, hlocks⟩ := s.db.writes_touch now job.target
      job.reason txn id
    rw [h.spent] at hspent
    rw [h.inserted] at hinserted
    refine ⟨.of_empty hspent hinserted, hspent, hinserted, h.clock, fun hbulk _ ↦ ?_, h.subject,
      fun hreplay ↦ ⟨(h.replay hreplay).1.touch hdb, (h.replay hreplay).2⟩⟩
    refine (h.bulk hbulk rfl).mono fun x hx ↦ ?_
    rw [hlocks]
    exact hx
  · rename_i family
    split_ifs at hcall with hreplay
    rw [← Option.some.inj hcall]
    exact hsame (Nat.le_refl _) (fun hunder ↦ nomatch hunder) fun hreplay ↦ h.replay hreplay
  · rw [← Option.some.inj hcall]
    exact hsame h.clock id fun hreplay ↦ h.replay hreplay
  · rw [← Option.some.inj hcall]
    exact hsame h.clock id fun hreplay ↦ h.replay hreplay
  · rw [← Option.some.inj hcall]
    exact hsame (Nat.zero_le _) (fun hunder ↦ nomatch hunder) fun hreplay ↦ h.replay hreplay
  · cases hcall
  · cases hcall
  · cases hcall

end Revoke

/-! ### Every task -/

/-- A call keeps the facts of its task. -/
theorem TaskOk.call {task' : Task} (hdb : s.db.Ok) (h : TaskOk s task)
    (hcall : task.call s input = some task') : TaskOk s task' := by
  obtain ⟨htxn, hprogram⟩ := h
  unfold Task.call at hcall
  split at hcall <;> rename_i hprog
  · rw [hprog] at hprogram
    exact taskOk_checkCode hprogram.2 hcall
  · rw [hprog] at hprogram
    exact taskOk_checkToken hprogram.2 hcall
  · rw [hprog] at hprogram
    exact taskOk_login hprogram.2.1 hprogram.2.2 hcall
  · rw [hprog] at hprogram
    split at hcall
    · rename_i codeId _ txn' hcas
      rw [← Option.some.inj hcall]
      unfold Tables.markUsed at hcas
      split_ifs at hcas with hany
      cases hcas
      have hnone : task.txn.inserted = none := hprogram
      refine ⟨⟨fun c hc ↦ ?_, ?_, ?_, ?_⟩, hnone⟩
      · rw [← Option.some.inj hc]
        simp only [List.any_eq_true, decide_eq_true_eq] at hany
        exact hany
      all_goals
        intro row hrow
        rw [hnone] at hrow
        cases hrow
    · rw [← Option.some.inj hcall]
      exact .of_empty rfl
  · rw [hprog] at hprogram
    exact taskOk_grantCall hdb htxn hprogram hcall
  · rw [hprog] at hprogram
    exact taskOk_revokeCall hdb hprogram hcall
  · cases hcall

/-- A commit leaves its task with the facts of a task without a transaction. -/
theorem TaskOk.commit {program : Program} (hdb : s.db.Ok) (h : TaskOk s task)
    (hcommitted : task.program.committed = some program) :
    TaskOk { s with db := s.db.commit task.txn } ⟨.empty, program⟩ := by
  obtain ⟨htxn, hprogram⟩ := h
  have hcarries : Carries s.db (s.db.commit task.txn) .empty :=
    .commit hdb htxn fun _ hx ↦ nomatch hx
  have hissued : ∀ {plan : Plan} {stage : Stage} {token : Option AccessToken},
      GrantOk s.db task.txn plan stage →
      GrantOk (s.db.commit task.txn) .empty plan (.issued token) := by
    intro plan stage token hgrant
    refine ⟨hgrant.checked.carry hcarries, ?_, fun _ ↦ ⟨rfl, rfl⟩, ?_, ?_, ?_, ?_⟩
    · rintro (hstage | hstage) <;> cases hstage
    · rintro (hstage | hstage) <;> cases hstage
    · exact fun hstage ↦ nomatch hstage
    · exact fun hstage ↦ nomatch hstage
    · exact fun _ hrow ↦ nomatch hrow
  unfold Program.committed at hcommitted
  split at hcommitted <;> rename_i hprog
  · rw [hprog] at hprogram
    rw [← Option.some.inj hcommitted]
    exact .of_empty (hissued hprogram)
  · rw [hprog] at hprogram
    split_ifs at hcommitted
    rw [← Option.some.inj hcommitted]
    exact .of_empty (hissued hprogram)
  · rw [hprog] at hprogram
    rw [← Option.some.inj hcommitted]
    refine .of_empty ⟨rfl, rfl, Nat.zero_le _, fun _ hunder ↦ (nomatch hunder),
      fun hreplay ↦ hcarries.subject _ (hprogram.subject hreplay), fun hreplay ↦ ?_⟩
    obtain ⟨hclosing, hlocated⟩ := hprogram.replay hreplay
    exact ⟨hclosing.ended hprogram.inserted,
      hcarries.located _ _ (hprogram.subject hreplay) hlocated⟩
  · rw [← Option.some.inj hcommitted]
    exact .of_empty rfl
  · cases hcommitted

theorem GrantOk.record {token : AccessToken} (h : GrantOk db txn plan stage)
    (hstored : plan.stored stage = true) : GrantOk db txn plan (.recorded token) := by
  have hholding : stage.holding = true := by
    simp only [Plan.stored, decide_eq_true_eq] at hstored
    rcases hstored with rfl | ⟨rfl, -⟩ <;> rfl
  exact .of_holding h.checked rfl (h.drawn (.inr hholding)) (h.spent hholding).1
    (h.spent hholding).2 h.inserted

end Calls

/-! ### The invariant -/

section Invariant

variable {s t : State} {a : Action}

theorem Carries.refl (db : Tables) (txn : Txn) : Carries db db txn where
  openTxn h := h
  known _ h := h
  codeKnown _ h := h
  subject _ h := h
  fresh _ _ h := h
  lineage _ h := h
  locked _ _ h := h
  located _ _ _ h := h
  closing _ _ _ _ _ h := h
  ended _ h := h

theorem TaskOk.carry {task : Task} (hc : Carries s.db t.db task.txn) (hnow : s.now ≤ t.now)
    (h : TaskOk s task) : TaskOk t task :=
  ⟨hc.openTxn h.openTxn, h.program.carry hc hnow⟩

/-- A task that arrives has read rows that are there. -/
theorem programOk_arrival {program : Program} (h : Arrival s a program) :
    ProgramOk s.db s.now .empty program := by
  cases h with
  | redeem ctx body codeId =>
    exact ⟨rfl, fun c hc ↦ ⟨c, List.mem_of_find?_eq_some hc, rfl, fun hused ↦ hused⟩⟩
  | refresh ctx body presentedHash =>
    refine ⟨rfl, fun r hr ↦ ⟨?_, r, List.mem_of_find?_eq_some hr, .refl r⟩⟩
    simpa using List.find?_some hr
  | login data first code => exact ⟨rfl, first, code⟩
  | burn codeId => exact rfl
  | revoke target reason => exact revokeOk_begun fun hreplay ↦ nomatch hreplay

theorem Tables.Ok.mint {db : Tables} {code : AuthorizationCode} (h : db.Ok)
    (hfresh : ∀ other ∈ db.codes, other.id ≠ code.id) :
    Tables.Ok { db with codes := db.codes ++ [code] } := by
  refine ⟨?_, h.ids, h.hashes, h.live, h.owner, fun r hr c hc ↦ ?_, h.start, h.parent⟩
  · rw [List.map_append, List.nodup_append]
    refine ⟨h.codeIds, List.nodup_singleton _, ?_⟩
    rintro _ hx _ hy rfl
    obtain ⟨other, hother, hid⟩ := List.mem_map.mp hx
    exact hfresh other hother (hid.trans (List.mem_singleton.mp hy))
  · obtain ⟨used, hused, hid⟩ := h.started r hr c hc
    exact ⟨used, List.mem_append_left _ hused, hid⟩

/-- A step that changes one task and not the tables, and takes no more than it is granted. -/
theorem Inv.set (h : Inv s) {i : ℕ} {task : Task} (hdb : t.db = s.db) (hnow : t.now = s.now)
    (htasks : t.tasks = s.tasks.set i task) (hgrants : Grants Task.held s.tasks i task)
    (htask : TaskOk t task) : Inv t := by
  refine ⟨?_, ?_, fun j task' hmem ↦ ?_⟩
  · rw [hdb]
    exact h.db
  · rw [htasks]
    exact h.apart.set hgrants
  · rw [htasks] at hmem
    rcases getElem?_set_cases hmem with ⟨-, rfl⟩ | ⟨-, hmem⟩
    · exact htask
    · refine (h.tasks j task' hmem).carry ?_ (Nat.le_of_eq hnow.symm)
      rw [hdb]
      exact .refl _ _

theorem Inv.step (h : Inv s) (hstep : Steps s a t) : Inv t := by
  cases hstep with
  | tick ms =>
    exact ⟨h.db, h.apart, fun i task hmem ↦
      (h.tasks i task hmem).carry (.refl s.db _) (Nat.le_add_right s.now ms)⟩
  | mint code unused fresh =>
    exact ⟨h.db.mint fresh, h.apart, fun i task hmem ↦
      (h.tasks i task hmem).carry .mint (Nat.le_refl _)⟩
  | start _ program arrival =>
    refine ⟨h.db, h.apart.append rfl, fun i task hmem ↦ ?_⟩
    rcases getElem?_append_cases hmem with hmem | ⟨-, rfl⟩
    · exact (h.tasks i task hmem).carry (.refl s.db _) (Nat.le_refl s.now)
    · have hprogram := programOk_arrival arrival
      exact ⟨.of_empty rfl rfl, hprogram⟩
  | call i input task task' mem call grants =>
    have htask : TaskOk s task' := (h.tasks i task mem).call h.db call
    exact h.set rfl rfl rfl grants ⟨htask.openTxn, htask.program⟩
  | issue i jti signedAt task plan stage payload mem program signs stored named fresh =>
    obtain ⟨htxn, hprogram⟩ := h.tasks i task mem
    rw [program] at hprogram
    refine h.set rfl rfl rfl (h.apart.grants_of_subset mem fun x hx ↦ hx) ⟨htxn, ?_⟩
    exact GrantOk.record hprogram stored
  | deny i task job family now jti remaining live mem program =>
    obtain ⟨htxn, hprogram⟩ := h.tasks i task mem
    rw [program] at hprogram
    refine h.set rfl rfl rfl (h.apart.grants_of_subset mem fun x hx ↦ hx) ⟨htxn, ?_⟩
    exact ⟨hprogram.spent, hprogram.inserted, hprogram.clock, hprogram.bulk, hprogram.subject,
      hprogram.replay⟩
  | commit i task program mem committed =>
    have htask := h.tasks i task mem
    refine ⟨h.db.commit htask.openTxn, ?_, fun j task' hmem ↦ ?_⟩
    · exact h.apart.set (h.apart.grants_of_subset mem fun x hx ↦ nomatch hx)
    · rcases getElem?_set_cases hmem with ⟨-, rfl⟩ | ⟨hji, hmem⟩
      · obtain ⟨hopen, hprogram⟩ := htask.commit h.db committed
        exact ⟨hopen, hprogram⟩
      · exact (h.tasks j task' hmem).carry
          (.commit h.db htask.openTxn (h.apart.compatible hji hmem mem)) (Nat.le_refl _)
  | rollback i task mem unsettled =>
    exact h.set rfl rfl rfl (h.apart.grants_of_subset mem fun x hx ↦ nomatch hx) (.of_empty rfl)

/-- Every reachable state satisfies the invariant. -/
theorem invariant : system.Invariant Inv where
  initial s hs := by
    obtain ⟨hdb, -, -, htasks⟩ := hs
    have hnone : ∀ {r : RefreshToken}, r ∉ s.db.tokens := by
      rw [hdb]
      exact List.not_mem_nil
    refine ⟨⟨?_, ?_, ?_, fun r hr ↦ absurd hr hnone, fun r hr ↦ absurd hr hnone,
      fun r hr ↦ absurd hr hnone, fun r hr ↦ absurd hr hnone, fun r hr ↦ absurd hr hnone⟩, ?_, ?_⟩
    · rw [hdb]
      exact List.nodup_nil
    · rw [hdb]
      exact List.nodup_nil
    · rw [hdb]
      exact List.nodup_nil
    · rw [htasks]
      exact fun i j a b _ hi ↦ nomatch hi
    · rw [htasks]
      exact fun i task hi ↦ nomatch hi
  step s a t hs hstep := hs.step (steps_of_step hstep)

end Invariant

end QAuth.Grants
