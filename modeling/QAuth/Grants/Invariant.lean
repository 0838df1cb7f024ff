import QAuth.Grants.System

/-!
# What holds of every task

The invariant of the transition system of `QAuth.Grants.System`: the committed rows are well formed,
no two tasks hold conflicting keys, and each task has, where it stands, what its earlier calls
established. The tables change by commits and by minted codes only; what such a change leaves of a
task's facts is stated once (`Carries`), and every step is an instance of it.
-/

namespace QAuth.Grants

open QAuth.Token Guards Locks Table Transition

/-! ### Grants -/

/-- A code that was read is still there, perhaps used since. -/
def Tables.CodeKnown (db : Tables) (code : AuthorizationCode) : Prop :=
  ∃ code' ∈ db.codes, code'.id = code.id ∧ (code.used = true → code'.used = true)

/-- A token that takes the place of `stored`. -/
structure ChildOf (stored : RefreshToken) (data : NewRefreshToken) : Prop where
  familyId : data.familyId = stored.familyId
  userId : data.userId = stored.userId
  oauthClientId : data.oauthClientId = stored.oauthClientId
  previous : data.previousTokenHash = some stored.tokenHash
  code : data.authorizationCodeId = none

/-- What the checks established of a plan. -/
def Plan.Ok (db : Tables) (plan : Plan) : Prop :=
  match plan.spends with
  | .code code => db.CodeKnown code ∧ ∀ data ∈ plan.refresh,
      data.previousTokenHash = none ∧ data.authorizationCodeId = some code.id
  | .token stored => db.Known stored ∧ ∃ data, plan.refresh = some data ∧ ChildOf stored data
  | .nothing => ∀ data ∈ plan.refresh,
      data.previousTokenHash = none ∧ data.authorizationCodeId = none

/-- The grant has consumed nothing yet. -/
def Stage.before : Stage → Bool
  | .begun | .userLocked | .clientLocked => true
  | _ => false

/-- The grant has consumed what it spends, and has not committed. -/
def Stage.holding : Stage → Bool
  | .spent | .createLocked | .inserted | .recorded _ => true
  | _ => false

/-- A grant at `stage` of its transaction `txn`. -/
structure GrantOk (db : Tables) (txn : Txn) (plan : Plan) (stage : Stage) : Prop where
  checked : plan.Ok db
  drawn : stage.before = true ∨ stage.holding = true →
    (∀ x ∈ plan.drawn, x ∈ txn.locks) ∧
      ∀ data ∈ plan.refresh, plan.drawn ≠ [] → ¬ db.HasFamily data.familyId
  before : stage.holding = false → txn.spent = none ∧ txn.inserted = none
  user : stage = .userLocked ∨ stage = .clientLocked → ∀ stored, plan.spends = .token stored →
    (.user stored.userId, .shared) ∈ txn.locks
  client : stage = .clientLocked → ∀ stored, plan.spends = .token stored →
    (.client stored.oauthClientId, .shared) ∈ txn.locks
  spent : stage.holding = true → (∀ code, plan.spends = .code code → txn.spent = some code.id) ∧
    ∀ data ∈ plan.refresh, Lineage db txn data
  inserted : ∀ row, txn.inserted = some row → plan.refresh = some row.toNewRefreshToken

/-! ### Revocations -/

/-- What the lock of a revocation is taken for is locked. -/
def Target.Locked (db : Tables) (txn : Txn) : Target → Prop
  | .family f => ∀ r ∈ db.tokens, r.familyId = f → (.user r.userId, .exclusive) ∈ txn.locks
  | .code c => ∀ r ∈ db.tokens, r.authorizationCodeId = some c →
      (.user r.userId, .exclusive) ∈ txn.locks
  | .user u | .userAndClient u _ => (.user u, .exclusive) ∈ txn.locks
  | .client c => (.client c, .exclusive) ∈ txn.locks
  | .token _ => True

/-- The family that the revocation of a replay has found. -/
def Target.Located (db : Tables) (family : Option Uuid) : Target → Prop
  | .family f => family = some f
  | .code c => (∀ r ∈ db.tokens, r.authorizationCodeId = some c → family = some r.familyId) ∧
      ∀ f, family = some f → ∃ r ∈ db.tokens, r.authorizationCodeId = some c ∧ r.familyId = f
  | _ => True

/-- A replay is of a family with a row, or of a used code. -/
def Target.Subject (db : Tables) : Target → Prop
  | .family f => db.HasFamily f
  | .code c => db.Used c
  | _ => False

/-- A revocation of more than one family. -/
def Target.bulk : Target → Bool
  | .user _ | .userAndClient _ _ | .client _ => true
  | _ => false

/-- The reading of the clock that a revocation keeps, if any. -/
def RevokeStage.clock : RevokeStage → ℕ
  | .begun now | .locked now | .located now _ | .updating now _ _ | .reading _ now _ _
  | .denying _ now _ => now
  | .revoked _ | .answered _ => 0

/-- The revocation holds its lock. -/
def RevokeStage.underLock : RevokeStage → Bool
  | .locked _ | .located _ _ | .updating _ _ _ => true
  | _ => false

/-- What the revocation of a replay has established. -/
def ReplayOk (db : Tables) (txn : Txn) (target : Target) : RevokeStage → Prop
  | .begun _ => True
  | .locked _ => target.Locked db txn
  | .located _ family => target.Locked db txn ∧ target.Located db family
  | .updating now family todo =>
    Closing db txn target now (family = some ·) (fun _ ↦ False) todo ∧ target.Located db family
  | .revoked family | .reading family _ _ _ | .denying family _ _ | .answered family =>
    Ended db (family = some ·) (fun _ ↦ False) ∧ target.Located db family

/-- A revocation at `stage` of its transaction `txn`. -/
structure RevokeOk (db : Tables) (now : ℕ) (txn : Txn) (job : Revocation) (stage : RevokeStage) :
    Prop where
  spent : txn.spent = none
  inserted : txn.inserted = none
  clock : stage.clock ≤ now
  bulk : job.target.bulk = true → stage.underLock = true → job.target.Locked db txn
  subject : job.replay = true → job.target.Subject db
  replay : job.replay = true → ReplayOk db txn job.target stage

/-! ### Tasks -/

/-- What a program has established. -/
def ProgramOk (db : Tables) (now : ℕ) (txn : Txn) : Program → Prop
  | .redeeming _ _ code => txn = .empty ∧ ∀ c ∈ code, db.CodeKnown c
  | .refreshing _ _ presentedHash stored =>
    txn = .empty ∧ ∀ r ∈ stored, r.tokenHash = presentedHash ∧ db.Known r
  | .loggingIn data =>
    txn = .empty ∧ data.previousTokenHash = none ∧ data.authorizationCodeId = none
  | .burning _ => txn.inserted = none
  | .granting plan stage => GrantOk db txn plan stage
  | .revoking job stage => RevokeOk db now txn job stage
  | .ended => txn = .empty

/-- A task beside the committed rows. -/
structure TaskOk (s : State) (task : Task) : Prop where
  openTxn : task.txn.Ok s.db
  program : ProgramOk s.db s.now task.txn task.program

/-- The invariant. -/
structure Inv (s : State) : Prop where
  db : s.db.Ok
  apart : Apart Task.held s.tasks
  tasks : ∀ (i : ℕ) task, s.tasks[i]? = some task → TaskOk s task

/-! ### A change of the tables -/

/-- What a change of the committed rows from `db` to `db'` leaves of the facts of a task whose
transaction is `txn`. -/
structure Carries (db db' : Tables) (txn : Txn) : Prop where
  openTxn : txn.Ok db → txn.Ok db'
  known : ∀ r, db.Known r → db'.Known r
  codeKnown : ∀ c, db.CodeKnown c → db'.CodeKnown c
  subject : ∀ target : Target, target.Subject db → target.Subject db'
  fresh : ∀ f, (.family f, .exclusive) ∈ txn.locks → ¬ db.HasFamily f → ¬ db'.HasFamily f
  lineage : ∀ data, Lineage db txn data → Lineage db' txn data
  locked : ∀ target : Target, target.Subject db ∨ target.bulk = true → target.Locked db txn →
    target.Locked db' txn
  located : ∀ (target : Target) family, target.Subject db → target.Located db family →
    target.Located db' family
  closing : ∀ target now F spared todo, Closing db txn target now F spared todo →
    Closing db' txn target now F spared todo
  ended : ∀ F, Ended db F (fun _ ↦ False) → Ended db' F (fun _ ↦ False)

section Carries

variable {db db' : Tables} {txn other : Txn} {now now' : ℕ}

theorem Plan.Ok.carry {plan : Plan} (hc : Carries db db' txn) (h : plan.Ok db) : plan.Ok db' := by
  unfold Plan.Ok at h ⊢
  split at h
  · exact ⟨hc.codeKnown _ h.1, h.2⟩
  · exact ⟨hc.known _ h.1, h.2⟩
  · exact h

theorem GrantOk.carry {plan : Plan} {stage : Stage} (hc : Carries db db' txn)
    (h : GrantOk db txn plan stage) : GrantOk db' txn plan stage where
  checked := h.checked.carry hc
  drawn hstage := by
    obtain ⟨hlocks, hfresh⟩ := h.drawn hstage
    refine ⟨hlocks, fun data hdata hdrawn ↦ hc.fresh _ (hlocks _ ?_) (hfresh data hdata hdrawn)⟩
    unfold Plan.drawn at hdrawn ⊢
    split at hdrawn
    · exact absurd rfl hdrawn
    all_goals
      rw [Option.mem_def.mp hdata]
      exact List.mem_singleton_self _
  before := h.before
  user := h.user
  client := h.client
  spent hstage := ⟨(h.spent hstage).1, fun data hdata ↦ hc.lineage _ ((h.spent hstage).2 data hdata)⟩
  inserted := h.inserted

theorem ReplayOk.carry {target : Target} {stage : RevokeStage} (hc : Carries db db' txn)
    (hsubject : target.Subject db) (h : ReplayOk db txn target stage) :
    ReplayOk db' txn target stage := by
  cases stage with
  | begun => trivial
  | locked => exact hc.locked _ (.inl hsubject) h
  | located now family =>
    exact ⟨hc.locked _ (.inl hsubject) h.1, hc.located _ _ hsubject h.2⟩
  | updating now family todo => exact ⟨hc.closing _ _ _ _ _ h.1, hc.located _ _ hsubject h.2⟩
  | revoked family => exact ⟨hc.ended _ h.1, hc.located _ _ hsubject h.2⟩
  | reading family now keys live => exact ⟨hc.ended _ h.1, hc.located _ _ hsubject h.2⟩
  | denying family now live => exact ⟨hc.ended _ h.1, hc.located _ _ hsubject h.2⟩
  | answered family => exact ⟨hc.ended _ h.1, hc.located _ _ hsubject h.2⟩

theorem RevokeOk.carry {job : Revocation} {stage : RevokeStage} (hc : Carries db db' txn)
    (hnow : now ≤ now') (h : RevokeOk db now txn job stage) :
    RevokeOk db' now' txn job stage where
  spent := h.spent
  inserted := h.inserted
  clock := h.clock.trans hnow
  bulk hbulk hlock := hc.locked _ (.inr hbulk) (h.bulk hbulk hlock)
  subject hreplay := hc.subject _ (h.subject hreplay)
  replay hreplay := (h.replay hreplay).carry hc (h.subject hreplay)

theorem ProgramOk.carry {program : Program} (hc : Carries db db' txn) (hnow : now ≤ now')
    (h : ProgramOk db now txn program) : ProgramOk db' now' txn program := by
  cases program with
  | redeeming ctx body code => exact ⟨h.1, fun c hcode ↦ hc.codeKnown c (h.2 c hcode)⟩
  | refreshing ctx body presentedHash stored =>
    exact ⟨h.1, fun r hr ↦ ⟨(h.2 r hr).1, hc.known r (h.2 r hr).2⟩⟩
  | loggingIn data => exact h
  | burning codeId => exact h
  | granting plan stage => exact GrantOk.carry hc h
  | revoking job stage => exact RevokeOk.carry hc hnow h
  | ended => exact h

/-- The rows that another transaction's commit leaves locked are those that were. -/
theorem Target.Locked.commit {target : Target} (hdb : db.Ok) (hother : other.Ok db)
    (hsubject : target.Subject db ∨ target.bulk = true) (h : target.Locked db txn) :
    target.Locked (db.commit other) txn := by
  cases target with
  | family f =>
    obtain ⟨first, hfirst, rfl⟩ := hsubject.resolve_right Bool.false_ne_true
    intro r hr hfamily
    rcases of_mem_commit hr with ⟨old, hold, ⟨-, hdata, -⟩, -⟩ | hrow
    · rw [hdata] at hfamily ⊢
      exact h old hold hfamily
    · obtain ⟨huser, -⟩ := (hother.lineage r hrow).live hdb hfirst hfamily.symm
      rw [huser]
      exact h first hfirst rfl
  | code c =>
    have hused : db.Used c := hsubject.resolve_right Bool.false_ne_true
    intro r hr hcode
    rcases of_mem_commit hr with ⟨old, hold, ⟨-, hdata, -⟩, -⟩ | hrow
    · rw [hdata] at hcode ⊢
      exact h old hold hcode
    · exact absurd hused (hdb.not_used ((hother.lineage r hrow).unused hother hcode).2)
  | user u => exact h
  | userAndClient u c => exact h
  | client c => exact h
  | token id => trivial

theorem Target.Located.commit {target : Target} {family : Option Uuid} (hdb : db.Ok)
    (hother : other.Ok db) (hsubject : target.Subject db) (h : target.Located db family) :
    target.Located (db.commit other) family := by
  cases target with
  | code c =>
    constructor
    · intro r hr hcode
      rcases of_mem_commit hr with ⟨old, hold, ⟨-, hdata, -⟩, -⟩ | hrow
      · rw [hdata] at hcode ⊢
        exact h.1 old hold hcode
      · exact absurd hsubject (hdb.not_used ((hother.lineage r hrow).unused hother hcode).2)
    · intro f hf
      obtain ⟨r, hr, hcode, rfl⟩ := h.2 f hf
      obtain ⟨r', hr', -, hdata, -⟩ := known_commit other hr
      exact ⟨r', hr', by rw [hdata, hcode], by rw [hdata]⟩
  | family f => exact h
  | user u => exact h
  | userAndClient u c => exact h
  | client c => exact h
  | token id => exact h

/-- A commit carries the facts of every other task. -/
theorem Carries.commit (hdb : db.Ok) (hother : other.Ok db)
    (hcompat : Compatible txn.held other.held) : Carries db (db.commit other) txn where
  openTxn h := h.commit hcompat hother
  known r h := h.commit
  codeKnown c := by
    rintro ⟨code, hcode, hid, hused⟩
    by_cases hspent : other.spent = some code.id
    · exact ⟨_, mem_updateWhere_of_true hcode (by simpa using hspent), hid, fun _ ↦ rfl⟩
    · exact ⟨code, mem_updateWhere_of_false hcode (by simpa using hspent), hid, hused⟩
  subject target h := by
    cases target with
    | family f => exact Tables.HasFamily.commit h
    | code c => exact Tables.Used.commit h
    | user u => exact h
    | userAndClient u c => exact h
    | client c => exact h
    | token id => exact h
  fresh f hdrawn hfresh := not_hasFamily_commit hcompat hdrawn hfresh hother
  lineage data h := h.commit hcompat hother
  locked target hsubject h := h.commit hdb hother hsubject
  located target family hsubject h := h.commit hdb hother hsubject
  closing target now F spared todo h := h.commit hcompat hother
  ended F h := h.commit hother fun _ _ _ _ _ _ _ hspared ↦ hspared

/-- A minted code carries the facts of every task. -/
theorem Carries.mint {code : AuthorizationCode} :
    Carries db { db with codes := db.codes ++ [code] } txn where
  openTxn h := by
    refine ⟨fun c hc ↦ ?_, h.unique, h.unrevoked, fun row hrow ↦ ?_⟩
    · obtain ⟨code', hcode', hid⟩ := h.spent c hc
      exact ⟨code', List.mem_append_left _ hcode', hid⟩
    · cases h.lineage row hrow with
      | start fresh drawn first code => exact .start fresh drawn first code
      | rotation parent mem live revoked familyId userId oauthClientId previous code user client =>
        exact .rotation parent mem live revoked familyId userId oauthClientId previous code user
          client
  known r h := h
  codeKnown c := fun ⟨code', hcode', hid⟩ ↦ ⟨code', List.mem_append_left _ hcode', hid⟩
  subject target h := by
    cases target with
    | code c =>
      obtain ⟨code', hcode', hid⟩ := h
      exact ⟨code', List.mem_append_left _ hcode', hid⟩
    | family f => exact h
    | user u => exact h
    | userAndClient u c => exact h
    | client c => exact h
    | token id => exact h
  fresh f _ h := h
  lineage data h := by
    cases h with
    | start fresh drawn first code => exact .start fresh drawn first code
    | rotation parent mem live revoked familyId userId oauthClientId previous code user client =>
      exact .rotation parent mem live revoked familyId userId oauthClientId previous code user
        client
  locked target _ h := by cases target <;> exact h
  located target family _ h := by cases target <;> exact h
  closing target now F spared todo h := by
    refine ⟨h.known, h.excludes, fun r hr hF hlive ↦ (h.selects r hr hF hlive).imp_right ?_,
      h.covers⟩
    cases target <;> exact id
  ended F h := ⟨h.known, h.rows⟩

end Carries

end QAuth.Grants
