import QAuth.Grants.Families

/-!
# Revoking all tokens of a user or a client

A bulk revocation (`revokeAllForUser`, `revokeAllForUserAndClient`, `revokeAllForClient`) beside
rotations that have read their token before it. The update of `revokeAllForUser` leaves out the rows
that have expired by the clock it read first, although the compare-and-set of a rotation asks only
whether the row is revoked: a rotation that checked its token just before it expired still wins, and
stores a live token after the revocation.
-/

namespace QAuth.Grants

open QAuth.Token Locks Table Transition

/-- The rows a bulk revocation is of. -/
def Target.Scope : Target → RefreshToken → Prop
  | .user u, row => row.userId = u
  | .userAndClient u c, row => row.userId = u ∧ row.oauthClientId = c
  | .client c, row => row.oauthClientId = c
  | _, _ => False

/-- The update leaves out the rows that have expired: that of `revokeAllForUser`. -/
def Target.sparesExpired : Target → Bool
  | .user _ => true
  | _ => false

/-- A rotation that has passed its checks with the token `stored`, which it has not consumed yet or
has not committed, and that is to store `data`. -/
def State.Rotating (s : State) (stored : RefreshToken) (data : NewRefreshToken) (stage : Stage) :
    Prop :=
  ∃ (j : ℕ) (txn : Txn) (plan : Plan), s.tasks[j]? = some ⟨txn, .granting plan stage⟩ ∧
    plan.spends = .token stored ∧ plan.refresh = some data

def Tables.Live (db : Tables) (stored : RefreshToken) : Prop :=
  ∃ row ∈ db.tokens, row.id = stored.id ∧ row.revoked = false

/-- The update that starts in `s`, and that has read the clock as `reading`, catches every rotation:
none is past its checks with a live row that the update leaves out as expired, and is to replace
it by a token that has not expired now. -/
def Target.Catches (s : State) (target : Target) (reading : ℕ) : Prop :=
  target.sparesExpired = true → ∀ stored data stage, s.Rotating stored data stage →
    stage.before = true → target.Scope stored → s.db.Live stored → stored.expiresAt ≤ reading →
    data.expiresAt ≤ s.now

/-- The row has the token `hash`, or comes from it by rotations. -/
inductive Descends (db : Tables) (hash : String) : RefreshToken → Prop
  | self (row : RefreshToken) (mem : row ∈ db.tokens) (token : row.tokenHash = hash) :
    Descends db hash row
  | rotated (parent row : RefreshToken) (mem : row ∈ db.tokens)
      (previous : row.previousTokenHash = some parent.tokenHash)
      (descends : Descends db hash parent) : Descends db hash row

section Descends

variable {db : Tables} {hash : String} {row : RefreshToken}

theorem Descends.mem (h : Descends db hash row) : row ∈ db.tokens := by
  cases h with
  | self _ mem => exact mem
  | rotated _ _ mem => exact mem

theorem Descends.familyId (hdb : db.Ok) (h : Descends db hash row) {first : RefreshToken}
    (hfirst : first ∈ db.tokens) (hhash : first.tokenHash = hash) :
    row.familyId = first.familyId := by
  induction h with
  | self row mem token =>
    rw [eq_of_key_eq hdb.hashes mem hfirst (token.trans hhash.symm)]
  | rotated parent row mem previous descends ih =>
    obtain ⟨p, hp, hash_eq, hfamily⟩ := hdb.parent row mem _ previous
    rw [← hfamily, eq_of_key_eq hdb.hashes hp descends.mem hash_eq, ih]

end Descends

/-! ### The rows in scope -/

section Scope

variable {db : Tables} {txn : Txn} {target : Target} {reading : ℕ}

/-- The scope is that of whole families. -/
theorem Target.Scope.of_familyId (hdb : db.Ok) {r r₀ : RefreshToken} (hr : r ∈ db.tokens)
    (hr₀ : r₀ ∈ db.tokens) (hscope : target.Scope r₀) (hfamily : r.familyId = r₀.familyId) :
    target.Scope r := by
  obtain ⟨huser, hclient⟩ := hdb.owner r hr r₀ hr₀ hfamily
  cases target with
  | user u => exact huser.trans hscope
  | userAndClient u c => exact ⟨huser.trans hscope.1, hclient.trans hscope.2⟩
  | client c => exact hclient.trans hscope
  | family f => exact hscope
  | code c => exact hscope
  | token id => exact hscope

theorem Target.Scope.locked {r : RefreshToken} (hscope : target.Scope r)
    (hlocked : target.Locked db txn) :
    (.user r.userId, .exclusive) ∈ txn.locks ∨
      (.client r.oauthClientId, .exclusive) ∈ txn.locks := by
  cases target with
  | user u =>
    rw [show r.userId = u from hscope]
    exact .inl hlocked
  | userAndClient u c =>
    rw [hscope.1]
    exact .inl hlocked
  | client c =>
    rw [show r.oauthClientId = c from hscope]
    exact .inr hlocked
  | family f => exact hscope.elim
  | code c => exact hscope.elim
  | token id => exact hscope.elim

/-- A live row in scope is selected, unless it has expired and the update leaves such rows out. -/
theorem Target.Scope.selects (db : Tables) (reading : ℕ) {r : RefreshToken} (hscope : target.Scope r)
    (hlive : r.revoked = false) :
    (target.sparesExpired = true ∧ r.expiresAt ≤ reading) ∨
      target.selects db reading r = true := by
  cases target with
  | user u =>
    by_cases hexpired : r.expiresAt ≤ reading
    · exact .inl ⟨rfl, hexpired⟩
    · right
      simp only [Target.selects, decide_eq_true_eq]
      exact ⟨hscope, hlive, Nat.lt_of_not_le hexpired⟩
  | userAndClient u c =>
    right
    simp only [Target.selects, decide_eq_true_eq]
    exact ⟨hscope.1, hscope.2, hlive⟩
  | client c =>
    right
    simp only [Target.selects, decide_eq_true_eq]
    exact ⟨hscope, hlive⟩
  | family f => exact hscope.elim
  | code c => exact hscope.elim
  | token id => exact hscope.elim

/-- The update of a bulk revocation, as it starts, is to close the families of its scope. -/
theorem closing_bulk (hdb : db.Ok) (hlocked : target.Locked db txn) :
    Closing db txn target reading (fun f ↦ ∃ r ∈ db.tokens, target.Scope r ∧ r.familyId = f)
      (fun data ↦ target.sparesExpired = true ∧ data.expiresAt ≤ reading)
      (db.selected reading target) := by
  have hscope : ∀ r ∈ db.tokens, (∃ r₀ ∈ db.tokens, target.Scope r₀ ∧ r₀.familyId = r.familyId) →
      target.Scope r := by
    rintro r hr ⟨r₀, hr₀, hscope, hfamily⟩
    exact hscope.of_familyId hdb hr hr₀ hfamily.symm
  refine ⟨?_, fun r hr hF ↦ (hscope r hr hF).locked hlocked,
    fun r hr hF hlive ↦ Target.Scope.selects db reading (hscope r hr hF) hlive, fun r hr hF ↦ ?_⟩
  · rintro f ⟨r, hr, -, hfamily⟩
    exact ⟨r, hr, hfamily⟩
  · by_cases hlive : r.revoked = true
    · exact .inl hlive
    · rw [Bool.not_eq_true] at hlive
      rcases Target.Scope.selects db reading (hscope r hr hF) hlive with hspared | hsel
      · exact .inr (.inl hspared)
      · exact .inr (.inr (.inl (List.mem_map_of_mem (List.mem_filter.mpr ⟨hr, hsel⟩))))

end Scope

/-! ### The update under way -/

section Update

variable {s t : State} {a : Action} {i : ℕ} {txn : Txn} {job : Revocation} {reading : ℕ}
  {family : Option Uuid} {todo : List Uuid} {F : Uuid → Prop} {spared : NewRefreshToken → Prop}

/-- A step leaves the update under way, or commits it, or ends it without a commit. -/
theorem closing_step (hs : Inv s)
    (hmem : s.tasks[i]? = some ⟨txn, .revoking job (.updating reading family todo)⟩)
    (h : Closing s.db txn job.target reading F spared todo) (hstep : Steps s a t) :
    (∃ txn' todo', t.tasks[i]? = some ⟨txn', .revoking job (.updating reading family todo')⟩ ∧
        Closing t.db txn' job.target reading F spared todo') ∨
      Ended t.db F spared ∨ t.tasks[i]? = some ⟨.empty, .ended⟩ := by
  have hlt : i < s.tasks.length := (List.getElem?_eq_some_iff.mp hmem).1
  have hset : ∀ {j : ℕ} {task : Task}, j ≠ i → (s.tasks.set j task)[i]? = s.tasks[i]? :=
    fun hji ↦ List.getElem?_set_ne hji
  cases hstep with
  | tick ms => exact .inl ⟨txn, todo, hmem, h⟩
  | mint code unused fresh => exact .inl ⟨txn, todo, hmem, Carries.mint.closing _ _ _ _ _ h⟩
  | start _ program arrival =>
    refine .inl ⟨txn, todo, ?_, h⟩
    rw [← hmem]
    exact List.getElem?_append_left hlt
  | call j input task task' mem call grants =>
    by_cases hji : j = i
    · subst hji
      rw [← Option.some.inj (hmem.symm.trans mem)] at call
      have hcall := revokeCall_of_call call
      cases todo with
      | nil => cases hcall
      | cons id todo =>
        rw [← Option.some.inj hcall]
        exact .inl ⟨_, todo, List.getElem?_set_self hlt, h.touch hs.db⟩
    · exact .inl ⟨txn, todo, (hset hji).trans hmem, h⟩
  | issue j jti signedAt task plan stage payload mem program signs stored named fresh =>
    by_cases hji : j = i
    · subst hji
      rw [← Option.some.inj (hmem.symm.trans mem)] at program
      cases program
    · exact .inl ⟨txn, todo, (hset hji).trans hmem, h⟩
  | deny j task job' family' now jti remaining live mem program =>
    by_cases hji : j = i
    · subst hji
      rw [← Option.some.inj (hmem.symm.trans mem)] at program
      cases program
    · exact .inl ⟨txn, todo, (hset hji).trans hmem, h⟩
  | commit j task program mem committed =>
    by_cases hji : j = i
    · subst hji
      obtain ⟨-, hprogram⟩ := hs.tasks j task mem
      have htask := Option.some.inj (hmem.symm.trans mem)
      subst htask
      cases todo with
      | nil => exact .inr (.inl (h.ended hprogram.inserted))
      | cons id todo => cases committed
    · refine .inl ⟨txn, todo, (hset hji).trans hmem, ?_⟩
      exact h.commit (hs.apart.compatible (Ne.symm hji) hmem mem) (hs.tasks j task mem).openTxn
  | rollback j task mem unsettled =>
    by_cases hji : j = i
    · subst hji
      exact .inr (.inr (List.getElem?_set_self hlt))
    · exact .inl ⟨txn, todo, (hset hji).trans hmem, h⟩

theorem ended_task_step (hmem : s.tasks[i]? = some ⟨.empty, .ended⟩) (hstep : Steps s a t) :
    t.tasks[i]? = some ⟨.empty, .ended⟩ := by
  have hlt : i < s.tasks.length := (List.getElem?_eq_some_iff.mp hmem).1
  have hset : ∀ {j : ℕ} {task task' : Task}, s.tasks[j]? = some task →
      task.program ≠ .ended → (s.tasks.set j task')[i]? = some ⟨.empty, .ended⟩ := by
    intro j task task' mem hprogram
    rw [List.getElem?_set_ne, hmem]
    rintro rfl
    rw [← Option.some.inj (hmem.symm.trans mem)] at hprogram
    exact hprogram rfl
  cases hstep with
  | tick ms => exact hmem
  | mint code unused fresh => exact hmem
  | start _ program arrival =>
    rw [← hmem]
    exact List.getElem?_append_left hlt
  | call j input task task' mem call grants =>
    refine hset mem fun hprogram ↦ ?_
    simp [Task.call, hprogram] at call
  | issue j jti signedAt task plan stage payload mem program signs stored named fresh =>
    refine hset mem fun hprogram ↦ ?_
    rw [program] at hprogram
    cases hprogram
  | deny j task job' family' now jti remaining live mem program =>
    refine hset mem fun hprogram ↦ ?_
    rw [program] at hprogram
    cases hprogram
  | commit j task program mem committed =>
    refine hset mem fun hprogram ↦ ?_
    rw [hprogram] at committed
    cases committed
  | rollback j task mem unsettled =>
    refine hset mem fun hprogram ↦ ?_
    rw [hprogram] at unsettled
    cases unsettled

end Update

/-! ### Rotations under way -/

section Rotating

variable {s t : State} {a : Action} {stored : RefreshToken} {data : NewRefreshToken}
  {stage : Stage} {plan : Plan} {task task' : Task} {input : Input}

/-- The grant has passed its checks and has not committed. -/
def Stage.underWay (stage : Stage) : Prop := stage.before = true ∨ stage.holding = true

/-- The next statement of a grant goes on with the same plan. -/
theorem plan_of_grantCall {txn : Txn} {plan' : Plan} {stage' : Stage}
    (hcall : grantCall s txn plan' stage' input = some task)
    (hprogram : task.program = .granting plan stage) : plan = plan' ∧ stage'.underWay := by
  unfold grantCall at hcall
  split at hcall
  · rw [← Option.some.inj hcall] at hprogram
    exact ⟨(Program.granting.inj hprogram).1.symm, .inl rfl⟩
  · rw [← Option.some.inj hcall] at hprogram
    exact ⟨(Program.granting.inj hprogram).1.symm, .inl rfl⟩
  · split at hcall
    · rw [← Option.some.inj hcall] at hprogram
      exact ⟨(Program.granting.inj hprogram).1.symm, .inl rfl⟩
    · rw [← Option.some.inj hcall] at hprogram
      cases hprogram
  · split at hcall
    · rw [← Option.some.inj hcall] at hprogram
      exact ⟨(Program.granting.inj hprogram).1.symm, .inl rfl⟩
    · rw [← Option.some.inj hcall] at hprogram
      cases hprogram
  · obtain ⟨data, -, rfl⟩ := Option.map_eq_some_iff.mp hcall
    exact ⟨(Program.granting.inj hprogram).1.symm, .inr rfl⟩
  · obtain ⟨data, -, hcall⟩ := Option.bind_eq_some_iff.mp hcall
    obtain ⟨txn', -, rfl⟩ := Option.map_eq_some_iff.mp hcall
    exact ⟨(Program.granting.inj hprogram).1.symm, .inr rfl⟩
  · cases hcall

theorem plan_of_begin {db : Tables} {plan' : Plan} {stage' : Stage}
    (hbegin : plan'.begin db stage' = some task) (hprogram : task.program = .granting plan stage) :
    plan = plan' := by
  unfold Plan.begin at hbegin
  split_ifs at hbegin
  rw [← Option.some.inj hbegin] at hprogram
  exact (Program.granting.inj hprogram).1.symm

/-- A call that leaves a rotation under way goes on with its plan, or has just passed the checks,
which no expired token passes. -/
theorem plan_of_call (hcall : task.call s input = some task')
    (hprogram : task'.program = .granting plan stage) (hspends : plan.spends = .token stored) :
    (∃ stage', task.program = .granting plan stage' ∧ stage'.underWay) ∨
      s.now < stored.expiresAt := by
  unfold Task.call at hcall
  split at hcall
  · unfold checkCode at hcall
    split at hcall
    · rw [plan_of_begin hcall hprogram] at hspends
      cases hspends
    · rw [← Option.some.inj hcall] at hprogram
      unfold afterCodeRefusal at hprogram
      split at hprogram <;> cases hprogram
  · unfold checkToken at hcall
    split at hcall
    · rename_i rotation hcheck
      rw [plan_of_begin hcall hprogram] at hspends
      obtain ⟨-, -, -, hlive, -⟩ := checkRotation_eq_ok hcheck
      rw [← Spends.token.inj hspends]
      exact .inr hlive
    · rw [← Option.some.inj hcall] at hprogram
      unfold afterRefreshRefusal at hprogram
      split at hprogram <;> cases hprogram
  · rw [plan_of_begin hcall hprogram] at hspends
    cases hspends
  · split at hcall
    all_goals
      rw [← Option.some.inj hcall] at hprogram
      cases hprogram
  · rename_i stage' hprog
    obtain ⟨rfl, hopen⟩ := plan_of_grantCall hcall hprogram
    exact .inl ⟨stage', hprog, hopen⟩
  · exfalso
    unfold revokeCall at hcall
    split at hcall
    all_goals first
      | (rw [← Option.some.inj hcall] at hprogram; cases hprogram)
      | cases hcall
      | (split_ifs at hcall; rw [← Option.some.inj hcall] at hprogram; cases hprogram)
  · cases hcall

/-- A rotation under way was so before the step, or has just passed its checks. -/
theorem rotating_step (h : t.Rotating stored data stage) (hopen : stage.underWay)
    (hstep : Steps s a t) :
    (∃ stage', s.Rotating stored data stage' ∧ stage'.underWay) ∨
      (t.db = s.db ∧ s.now < stored.expiresAt) := by
  obtain ⟨j, txn, plan, hmem, hspends, hrefresh⟩ := h
  have hkeep : s.tasks[j]? = some ⟨txn, .granting plan stage⟩ →
      (∃ stage', s.Rotating stored data stage' ∧ stage'.underWay) ∨
        (t.db = s.db ∧ s.now < stored.expiresAt) :=
    fun hmem ↦ .inl ⟨stage, ⟨j, txn, plan, hmem, hspends, hrefresh⟩, hopen⟩
  cases hstep with
  | tick ms => exact hkeep hmem
  | mint code unused fresh => exact hkeep hmem
  | start _ program arrival =>
    rcases getElem?_append_cases hmem with hmem | ⟨-, htask⟩
    · exact hkeep hmem
    · rw [← (Task.mk.inj htask).2] at arrival
      cases arrival
  | call i input task task' mem call grants =>
    rcases getElem?_set_cases hmem with ⟨-, htask⟩ | ⟨-, hmem⟩
    · rcases plan_of_call call (by rw [← htask]) hspends with ⟨stage', hprog, hopen'⟩ | hlive
      · refine .inl ⟨stage', ⟨i, task.txn, plan, ?_, hspends, hrefresh⟩, hopen'⟩
        rw [mem, ← hprog]
      · exact .inr ⟨rfl, hlive⟩
    · exact hkeep hmem
  | issue i jti signedAt task plan' stage' payload mem program signs plan_stored named fresh =>
    rcases getElem?_set_cases hmem with ⟨-, htask⟩ | ⟨-, hmem⟩
    · obtain ⟨-, hprog⟩ := Task.mk.inj htask
      rw [← (Program.granting.inj hprog).1] at program plan_stored
      refine .inl ⟨stage', ⟨i, task.txn, plan, ?_, hspends, hrefresh⟩, .inr ?_⟩
      · rw [mem, ← program]
      · simp only [Plan.stored, decide_eq_true_eq] at plan_stored
        rcases plan_stored with rfl | ⟨rfl, -⟩ <;> rfl
    · exact hkeep hmem
  | deny i task job family now jti remaining live mem program =>
    rcases getElem?_set_cases hmem with ⟨-, htask⟩ | ⟨-, hmem⟩
    · cases htask
    · exact hkeep hmem
  | commit i task program mem committed =>
    rcases getElem?_set_cases hmem with ⟨-, htask⟩ | ⟨-, hmem⟩
    · exfalso
      obtain ⟨-, hprog⟩ := Task.mk.inj htask
      rw [← hprog] at committed
      unfold Program.committed at committed
      split at committed
      · rw [← (Program.granting.inj (Option.some.inj committed)).2] at hopen
        rcases hopen with hopen | hopen <;> cases hopen
      · split_ifs at committed
        rw [← (Program.granting.inj (Option.some.inj committed)).2] at hopen
        rcases hopen with hopen | hopen <;> cases hopen
      · cases committed
      · cases committed
      · cases committed
    · exact hkeep hmem
  | rollback i task mem unsettled =>
    rcases getElem?_set_cases hmem with ⟨-, htask⟩ | ⟨-, hmem⟩
    · cases htask
    · exact hkeep hmem

variable {F : Uuid → Prop} {spared : NewRefreshToken → Prop} {Q : ℕ → Prop} {bound : ℕ}

theorem rotating_ok (hs : Inv s) (h : s.Rotating stored data stage) :
    s.db.Known stored ∧ ChildOf stored data := by
  obtain ⟨j, txn, plan, hmem, hspends, hrefresh⟩ := h
  have hchecked := (hs.tasks j _ hmem).program.checked
  rw [Plan.Ok, hspends] at hchecked
  obtain ⟨hknown, data', hrefresh', hchild⟩ := hchecked
  rw [Option.some.inj (hrefresh.symm.trans hrefresh')]
  exact ⟨hknown, hchild⟩

theorem Tables.Live.row {db : Tables} (hdb : db.Ok) (hknown : db.Known stored)
    (hlive : db.Live stored) :
    ∃ row ∈ db.tokens, row.revoked = false ∧ row.toNewRefreshToken = stored.toNewRefreshToken := by
  obtain ⟨row, hrow, hid, hunrevoked⟩ := hlive
  obtain ⟨row', hrow', hid', hdata, -⟩ := hknown
  rw [hdb.eq_of_id hrow' hrow (hid'.trans hid.symm)] at hdata
  exact ⟨row, hrow, hunrevoked, hdata⟩

theorem Tables.Live.of_step (hs : Inv s) (hknown : s.db.Known stored) (hlive : t.db.Live stored)
    (hstep : Steps s a t) : s.db.Live stored := by
  cases hstep with
  | commit i task program mem committed =>
    obtain ⟨row, hrow, hid, hunrevoked⟩ := hlive
    rcases of_mem_commit hrow with ⟨old, hold, hbecomes, -⟩ | hinserted
    · exact ⟨old, hold, hbecomes.id.symm.trans hid, hbecomes.unrevoked hunrevoked⟩
    · obtain ⟨row', hrow', hid', -⟩ := hknown
      exact absurd (hid'.trans hid.symm)
        ((hs.tasks i task mem).openTxn.unique row hinserted row' hrow').1
  | mint code unused fresh => exact hlive
  | tick ms => exact hlive
  | start _ program arrival => exact hlive
  | call i input task task' mem call grants => exact hlive
  | issue i jti signedAt task plan stage payload mem program signs stored named fresh =>
    exact hlive
  | deny i task job family now jti remaining live mem program => exact hlive
  | rollback i task mem unsettled => exact hlive

/-- Every rotation under way with a live row of the families `F`, whose expiry meets `Q`, is to
store a token that has expired by `bound`. -/
def State.Harmless (s : State) (F : Uuid → Prop) (Q : ℕ → Prop) (bound : ℕ) : Prop :=
  ∀ stored data stage, s.Rotating stored data stage → stage.underWay → F stored.familyId →
    s.db.Live stored → Q stored.expiresAt → data.expiresAt ≤ bound

/-- The rotations under way stay harmless where no new one starts that is not. -/
theorem harmless_step (hs : Inv s) (h : s.Harmless F Q bound) (hstep : Steps s a t)
    (hnew : ∀ stored, s.db.Known stored → F stored.familyId → s.db.Live stored →
      s.now < stored.expiresAt → ¬ Q stored.expiresAt) : t.Harmless F Q bound := by
  intro stored data stage hrotating hopen hF hlive hQ
  rcases rotating_step hrotating hopen hstep with ⟨stage', hrotating', hopen'⟩ | ⟨hdb, hnow⟩
  · exact h stored data stage' hrotating' hopen' hF
      (hlive.of_step hs (rotating_ok hs hrotating').1 hstep) hQ
  · obtain ⟨hknown, -⟩ := rotating_ok (hs.step hstep) hrotating
    rw [hdb] at hknown hlive
    exact absurd hQ (hnew stored hknown hF hlive hnow)

/-- A transaction that inserts a token in place of another is a rotation under way. -/
theorem rotating_of_inserted (hs : Inv s) {i : ℕ} {program : Program} {row parent : RefreshToken}
    (hmem : s.tasks[i]? = some task) (hcommitted : task.program.committed = some program)
    (hrow : task.txn.inserted = some row) (hparent : parent ∈ s.db.tokens)
    (hprevious : row.previousTokenHash = some parent.tokenHash) :
    ∃ stored stage, s.Rotating stored row.toNewRefreshToken stage ∧ stage.underWay ∧
      Becomes stored parent := by
  obtain ⟨txn, prog⟩ := task
  have hprogram := (hs.tasks i _ hmem).program
  have hgrant : ∀ {plan : Plan} {stage : Stage}, prog = .granting plan stage → stage.underWay →
      ∃ stored stage, s.Rotating stored row.toNewRefreshToken stage ∧ stage.underWay ∧
        Becomes stored parent := by
    rintro plan stage rfl hopen
    have hrefresh := hprogram.inserted row hrow
    have hchecked := hprogram.checked
    unfold Plan.Ok at hchecked
    split at hchecked
    · rw [(hchecked.2 _ hrefresh).1] at hprevious
      cases hprevious
    · rename_i stored hspends
      obtain ⟨⟨known, hknown, hbecomes⟩, data, hdata, hchild⟩ := hchecked
      refine ⟨stored, stage, ⟨i, txn, plan, hmem, hspends, hrefresh⟩, hopen, ?_⟩
      rw [← Option.some.inj (hrefresh.symm.trans hdata)] at hchild
      have hhash : known.tokenHash = parent.tokenHash := by
        rw [hbecomes.data]
        exact Option.some.inj (hchild.previous.symm.trans hprevious)
      rwa [← eq_of_key_eq hs.db.hashes hknown hparent hhash]
    · rw [(hchecked _ hrefresh).1] at hprevious
      cases hprevious
  cases prog with
  | granting plan stage =>
    cases stage with
    | inserted => exact hgrant rfl (.inr rfl)
    | recorded token => exact hgrant rfl (.inr rfl)
    | begun => cases hcommitted
    | userLocked => cases hcommitted
    | clientLocked => cases hcommitted
    | spent => cases hcommitted
    | createLocked => cases hcommitted
    | issued token => cases hcommitted
  | revoking job stage =>
    rw [show txn.inserted = none from hprogram.inserted] at hrow
    cases hrow
  | burning codeId =>
    rw [show txn.inserted = none from hprogram] at hrow
    cases hrow
  | redeeming ctx body code => cases hcommitted
  | refreshing ctx body presentedHash stored => cases hcommitted
  | loggingIn data => cases hcommitted
  | ended => cases hcommitted

theorem ended_sparing_step (hs : Inv s) (h : Ended s.db F spared)
    (hrotations : ∀ stored data stage, s.Rotating stored data stage → stage.underWay →
      F stored.familyId → s.db.Live stored → spared stored.toNewRefreshToken → spared data)
    (hstep : Steps s a t) : Ended t.db F spared := by
  cases hstep with
  | commit i task program mem committed =>
    refine h.commit (hs.tasks i task mem).openTxn
      fun row parent hrow hparent hlive hprevious hF hspared ↦ ?_
    obtain ⟨stored, stage, hrotating, hopen, hbecomes⟩ :=
      rotating_of_inserted hs mem committed hrow hparent hprevious
    have hdata := hbecomes.data
    refine hrotations stored _ stage hrotating hopen ?_ ⟨parent, hparent, hbecomes.id, hlive⟩ ?_
    · rw [← hdata]
      exact hF
    · rw [← hdata]
      exact hspared
  | mint code unused fresh => exact ⟨h.known, h.rows⟩
  | tick ms => exact h
  | start _ program arrival => exact h
  | call i input task task' mem call grants => exact h
  | issue i jti signedAt task plan stage payload mem program signs stored named fresh => exact h
  | deny i task job family now jti remaining live mem program => exact h
  | rollback i task mem unsettled => exact h

end Rotating

/-! ### The whole revocation -/

section Revocation

variable {s t : State} {a : Action} {i : ℕ} {job : Revocation} {reading bound : ℕ}
  {F : Uuid → Prop}

/-- A bulk revocation of the families `F` from its update on: the update is under way, or has
committed, or the task has ended without a commit. Here `reading` is the clock as the revocation
read it first, and `bound` as its update started. -/
inductive Phase (s : State) (i : ℕ) (job : Revocation) (reading bound : ℕ) (F : Uuid → Prop) : Prop
  | updating (txn : Txn) (family : Option Uuid) (todo : List Uuid)
      (mem : s.tasks[i]? = some ⟨txn, .revoking job (.updating reading family todo)⟩)
      (closing : Closing s.db txn job.target reading F
        (fun data ↦ job.target.sparesExpired = true ∧ data.expiresAt ≤ reading) todo)
      (harmless : job.target.sparesExpired = true → s.Harmless F (· ≤ reading) bound)
  | committed (ended : Ended s.db F
        fun data ↦ job.target.sparesExpired = true ∧ data.expiresAt ≤ bound)
      (harmless : job.target.sparesExpired = true → s.Harmless F (fun _ ↦ True) bound)
  | gone (mem : s.tasks[i]? = some ⟨.empty, .ended⟩)

theorem phase_step (hs : Inv s) (hreading : reading ≤ bound) (hbound : bound ≤ s.now)
    (h : Phase s i job reading bound F) (hstep : Steps s a t) :
    Phase t i job reading bound F := by
  cases h with
  | updating txn family todo mem closing harmless =>
    have hharmless : job.target.sparesExpired = true → t.Harmless F (· ≤ reading) bound :=
      fun hspares ↦ harmless_step hs (harmless hspares) hstep fun stored _ _ _ hnow hle ↦ by omega
    rcases closing_step hs mem closing hstep with ⟨txn', todo', mem', closing'⟩ | hended | hgone
    · exact .updating txn' family todo' mem' closing' hharmless
    · refine .committed ⟨hended.known, fun r hr hF ↦ ?_⟩ fun hspares ↦ ?_
      · exact (hended.rows r hr hF).imp_right fun hspared ↦ ⟨hspared.1, hspared.2.trans hreading⟩
      · -- What the update has spared is what had expired by its reading of the clock.
        intro stored data stage hrotating hopen hF hlive _
        obtain ⟨row, hrow, hunrevoked, hdata⟩ :=
          hlive.row (hs.step hstep).db (rotating_ok (hs.step hstep) hrotating).1
        refine hharmless hspares stored data stage hrotating hopen hF hlive ?_
        rcases hended.rows row hrow (by rwa [hdata]) with hrevoked | hspared
        · rw [hunrevoked] at hrevoked
          cases hrevoked
        · rw [← hdata]
          exact hspared.2
    · exact .gone hgone
  | committed ended harmless =>
    refine .committed (ended_sparing_step hs ended ?_ hstep) fun hspares ↦ ?_
    · exact fun stored data stage hrotating hopen hF hlive hspared ↦
        ⟨hspared.1, harmless hspared.1 stored data stage hrotating hopen hF hlive trivial⟩
    · refine harmless_step hs (harmless hspares) hstep fun stored hknown hF hlive hnow _ ↦ ?_
      obtain ⟨row, hrow, hunrevoked, hdata⟩ := hlive.row hs.db hknown
      rcases ended.rows row hrow (by rwa [hdata]) with hrevoked | hspared
      · rw [hunrevoked] at hrevoked
        cases hrevoked
      · have hexpired := hspared.2
        rw [hdata] at hexpired
        omega
  | gone mem => exact .gone (ended_task_step mem hstep)

theorem now_le_of_step (hstep : Steps s a t) : s.now ≤ t.now := by
  cases hstep with
  | tick ms => exact Nat.le_add_right s.now ms
  | mint code unused fresh => exact Nat.le_refl _
  | start _ program arrival => exact Nat.le_refl _
  | call j input task task' mem call grants => exact Nat.le_refl _
  | issue j jti signedAt task plan stage payload mem program signs stored named fresh =>
    exact Nat.le_refl _
  | deny j task job family now jti remaining live mem program => exact Nat.le_refl _
  | commit j task program mem committed => exact Nat.le_refl _
  | rollback j task mem unsettled => exact Nat.le_refl _

theorem known_of_step {stored : RefreshToken} (h : s.db.Known stored) (hstep : Steps s a t) :
    t.db.Known stored := by
  cases hstep with
  | commit j task program mem committed => exact h.commit
  | tick ms => exact h
  | mint code unused fresh => exact h
  | start _ program arrival => exact h
  | call j input task task' mem call grants => exact h
  | issue j jti signedAt task plan stage payload mem program signs stored named fresh => exact h
  | deny j task job family now jti remaining live mem program => exact h
  | rollback j task mem unsettled => exact h

/-- What holds along the run that follows the start of the update. -/
theorem phase_run {as : List Action} (hs : Inv s) (hreading : reading ≤ bound)
    (hbound : bound ≤ s.now) (h : Phase s i job reading bound F) (hrun : Run step s as t) :
    Inv t ∧ bound ≤ t.now ∧ Phase t i job reading bound F := by
  refine hrun.induct (P := fun s ↦ Inv s ∧ bound ≤ s.now ∧ Phase s i job reading bound F) ?_
    ⟨hs, hbound, h⟩
  rintro s a t ⟨hs, hbound, h⟩ hstep
  have hsteps := steps_of_step hstep
  exact ⟨hs.step hsteps, hbound.trans (now_le_of_step hsteps),
    phase_step hs hreading hbound h hsteps⟩

/-- A rotation that has consumed a token in scope keeps the revocation from its update. -/
theorem not_holding_of_locked {txn : Txn} {program : Program} {stored : RefreshToken}
    {data : NewRefreshToken} {stage : Stage} (hs : Inv s) (hmem : s.tasks[i]? = some ⟨txn, program⟩)
    (hprogram : ∀ plan stage, program ≠ .granting plan stage)
    (hlocked : job.target.Locked s.db txn) (hrotating : s.Rotating stored data stage)
    (hscope : job.target.Scope stored) : stage.holding = false := by
  by_contra hholding
  rw [Bool.not_eq_false] at hholding
  obtain ⟨-, hchild⟩ := rotating_ok hs hrotating
  obtain ⟨j, txn', plan, hmem', -, hrefresh⟩ := hrotating
  have hij : i ≠ j := by
    rintro rfl
    exact hprogram plan stage (Task.mk.inj (Option.some.inj (hmem.symm.trans hmem'))).2
  have hcompat := hs.apart.compatible hij hmem hmem'
  obtain ⟨-, hlineage⟩ := (hs.tasks j _ hmem').program.spent hholding
  cases hlineage data hrefresh with
  | start fresh drawn first =>
    rw [hchild.previous] at first
    cases first
  | rotation parent mem live revoked familyId userId oauthClientId previous code user client =>
    rw [← userId, hchild.userId] at user
    rw [← oauthClientId, hchild.oauthClientId] at client
    rcases hscope.locked hlocked with hlock | hlock
    · exact hcompat.not_mem (Txn.mem_held_of_mem_locks hlock) (Txn.mem_held_of_mem_locks user)
    · exact hcompat.not_mem (Txn.mem_held_of_mem_locks hlock) (Txn.mem_held_of_mem_locks client)

theorem Target.Scope.congr {target : Target} {r r' : RefreshToken} (h : target.Scope r)
    (hdata : r'.toNewRefreshToken = r.toNewRefreshToken) : target.Scope r' := by
  cases target with
  | user u => exact (congrArg NewRefreshToken.userId hdata).trans h
  | userAndClient u c =>
    exact ⟨(congrArg NewRefreshToken.userId hdata).trans h.1,
      (congrArg NewRefreshToken.oauthClientId hdata).trans h.2⟩
  | client c => exact (congrArg NewRefreshToken.oauthClientId hdata).trans h
  | family f => exact h
  | code c => exact h
  | token id => exact h

theorem phase_start {txn : Txn} {family : Option Uuid} {s' : State} (hs : Inv s)
    (hmem : s.tasks[i]? = some ⟨txn, .revoking job (.located reading family)⟩)
    (hbulk : job.target.bulk = true) (hcatches : job.target.Catches s reading)
    (hstart : Steps s (.call i .call) s') :
    Phase s' i job reading s.now
      fun f ↦ ∃ r ∈ s.db.tokens, job.target.Scope r ∧ r.familyId = f := by
  have hrevoke := (hs.tasks i _ hmem).program
  have hlocked := hrevoke.bulk hbulk rfl
  have hreading : reading ≤ s.now := hrevoke.clock
  have hlt : i < s.tasks.length := (List.getElem?_eq_some_iff.mp hmem).1
  have hsteps := hstart
  cases hstart with
  | start _ program arrival => cases arrival
  | call _ _ task task' mem call grants =>
    rw [← Option.some.inj (hmem.symm.trans mem)] at call
    have hcall := revokeCall_of_call call
    rw [← Option.some.inj hcall] at hsteps ⊢
    refine .updating txn family _ (List.getElem?_set_self hlt) (closing_bulk hs.db hlocked) ?_
    intro hspares stored data stage hrotating hopen hF hlive hexpired
    rcases rotating_step hrotating hopen hsteps with ⟨stage', hrotating', hopen'⟩ | ⟨-, hnow⟩
    · obtain ⟨known, hknown, -, hdata, -⟩ := (rotating_ok hs hrotating').1
      obtain ⟨r₀, hr₀, hscope₀, hfamily⟩ := hF
      have hscope : job.target.Scope stored := by
        refine (hscope₀.of_familyId hs.db hknown hr₀ ?_).congr hdata.symm
        rw [hdata, hfamily]
      refine hcatches hspares stored data stage' hrotating' ?_ hscope hlive hexpired
      have hnot := not_holding_of_locked hs hmem (fun _ _ h ↦ nomatch h) hlocked hrotating' hscope
      exact hopen'.resolve_right fun hholding ↦ by rw [hnot] at hholding; cases hholding
    · omega

end Revocation

/-- The revocation whose update is about to start, and the clock as it read it first. -/
def Program.starting : Program → Option (Revocation × ℕ)
  | .revoking job (.located now _) => some (job, now)
  | _ => none

theorem Program.starting_eq_some {program : Program} {job : Revocation} {reading : ℕ}
    (h : program.starting = some (job, reading)) :
    ∃ family, program = .revoking job (.located reading family) := by
  unfold Program.starting at h
  split at h
  · rename_i job' now family
    obtain ⟨rfl, rfl⟩ := Prod.mk.inj (Option.some.inj h)
    exact ⟨family, rfl⟩
  · cases h

/-- Once a bulk revocation whose update has caught every rotation has committed, no row that was
there before the update, and none that comes from one by rotations, is live and unexpired. -/
theorem descendants_ended {s s' t : State} {i : ℕ} {task task' : Task} {job : Revocation}
    {reading : ℕ} {as : List Action} (h : system.Reachable s) (hmem : s.tasks[i]? = some task)
    (hstarting : task.program.starting = some (job, reading)) (hbulk : job.target.bulk = true)
    (hcatches : job.target.Catches s reading) (hstart : step s (.call i .call) = some s')
    (hrun : Run step s' as t) (hmem' : t.tasks[i]? = some task')
    (hdone : task'.program.revocation = some job) :
    ∀ r₀ ∈ s.db.tokens, job.target.Scope r₀ → ∀ r, Descends t.db r₀.tokenHash r →
      r.revoked = true ∨ r.expiresAt ≤ t.now := by
  obtain ⟨txn, program⟩ := task
  obtain ⟨family, rfl⟩ := Program.starting_eq_some hstarting
  have hs : Inv s := invariant.reachable h
  have hsteps := steps_of_step hstart
  have hbound : s.now ≤ s'.now := now_le_of_step hsteps
  obtain ⟨ht, hnow, hphase⟩ := phase_run (hs.step hsteps) (hs.tasks i _ hmem).program.clock hbound
    (phase_start hs hmem hbulk hcatches hsteps) hrun
  intro r₀ hr₀ hscope r hdescends
  have hended : Ended t.db (fun f ↦ ∃ r ∈ s.db.tokens, job.target.Scope r ∧ r.familyId = f)
      fun data ↦ job.target.sparesExpired = true ∧ data.expiresAt ≤ s.now := by
    cases hphase with
    | updating txn' family todo mem =>
      rw [← Option.some.inj (mem.symm.trans hmem')] at hdone
      cases hdone
    | committed ended => exact ended
    | gone mem =>
      rw [← Option.some.inj (mem.symm.trans hmem')] at hdone
      cases hdone
  have hknown : t.db.Known r₀ :=
    hrun.induct (P := fun s ↦ s.db.Known r₀)
      (fun _ _ _ hknown hstep ↦ known_of_step hknown (steps_of_step hstep))
      (known_of_step ⟨r₀, hr₀, .refl r₀⟩ hsteps)
  obtain ⟨first, hfirst, -, hdata, -⟩ := hknown
  have hfamily : r.familyId = r₀.familyId := by
    rw [hdescends.familyId ht.db hfirst (congrArg NewRefreshToken.tokenHash hdata), hdata]
  exact (hended.rows r hdescends.mem ⟨r₀, hr₀, hscope, hfamily.symm⟩).imp_right
    fun hspared ↦ hspared.2.trans hnow

namespace Sample

/-- The first token of the family is presented `early` milliseconds before it expires, and the
revocation of `target` begins `late` milliseconds after that; its update is about to start. -/
def overtaken (target : Target) (early late : ℕ) : List Action :=
  redeem ++ (.tick (86400000 - early) :: present 1 "h1" "h2") ++
    [.tick late, .revoke target "logout", .call 2 .call, .call 2 .call]

/-- The bulk revocation commits, and the rotation goes on. -/
def overtaking (i : ℕ) : List Action := .commit i :: rotate 1 "r2" "jti2" 86402000

/-- The bulk revocation writes the one row it has found, and commits; the rotation has lost. -/
def caught (i : ℕ) : List Action :=
  [.call i .call, .commit i, .call 1 .call, .call 1 .call, .call 1 .call]

/-- The states before and after the update of task 2 starts, and where `rest` leads. -/
def around (before rest : List Action) : Option (State × State × State) := do
  let s ← exec step start before
  let s' ← step s (.call 2 .call)
  let t ← exec step s' rest
  return (s, s', t)

theorem of_around {before rest : List Action} {s s' t : State}
    (h : around before rest = some (s, s', t)) :
    system.Reachable s ∧ step s (.call 2 .call) = some s' ∧ Run step s' rest t := by
  obtain ⟨s₁, hs, h⟩ := Option.bind_eq_some_iff.mp h
  obtain ⟨s₂, hs', h⟩ := Option.bind_eq_some_iff.mp h
  obtain ⟨t₁, ht, h⟩ := Option.bind_eq_some_iff.mp h
  have heq : (s₁, s₂, t₁) = (s, s', t) := Option.some.inj h
  simp only [Prod.mk.injEq] at heq
  obtain ⟨rfl, rfl, rfl⟩ := heq
  have hstart : system.Reachable start := .of_initial ⟨rfl, rfl, rfl, rfl⟩
  exact ⟨hstart.run (.of_exec hs), hs', .of_exec ht⟩

def presented (task : Task) : Option ℕ :=
  match task.program with
  | .granting plan _ => match plan.spends with
    | .token stored => some stored.expiresAt
    | _ => none
  | _ => none

theorem mem_presented {s : State} {stored : RefreshToken} {data : NewRefreshToken} {stage : Stage}
    (h : s.Rotating stored data stage) : stored.expiresAt ∈ s.tasks.filterMap presented := by
  obtain ⟨j, txn, plan, hmem, hspends, -⟩ := h
  refine List.mem_filterMap.mpr ⟨_, List.mem_of_getElem? hmem, ?_⟩
  simp only [presented, hspends]

/-- The rows and the rotations before the update of task 2, and the revocation that starts it; the
clock and the rows in the end, and the revocation that task 2 has committed. -/
structure Outcome where
  rows : List (String × String)
  rotations : List ℕ
  starting : Option (Option (Revocation × ℕ))
  now : ℕ
  rows' : List (String × Option String × Bool × ℕ)
  done : Option (Option Revocation)
deriving DecidableEq

/-- What comes of a run. -/
def outcome : State × State × State → Outcome
  | (s, _, t) =>
    ⟨s.db.tokens.map fun r ↦ (r.userId, r.tokenHash), s.tasks.filterMap presented,
      s.tasks[2]?.map (·.program.starting), t.now,
      t.db.tokens.map fun r ↦ (r.tokenHash, r.previousTokenHash, r.revoked, r.expiresAt),
      t.tasks[2]?.map (·.program.revocation)⟩

/-- The revocation of all tokens of the sample user. -/
def logout : Revocation := ⟨.user "u1", "logout", false⟩

end Sample

/-- A rotation that checked its token 1 ms before it expired outruns the revocation of all tokens of
its user: the update reads the clock at the expiry, leaves the row out and commits, and the rotation
then stores a live token. -/
theorem not_descendants_ended :
    ¬ ∀ (s s' t : State) (i : ℕ) (task task' : Task) (job : Revocation) (reading : ℕ)
      (as : List Action), system.Reachable s → s.tasks[i]? = some task →
      task.program.starting = some (job, reading) → job.target.bulk = true →
      step s (.call i .call) = some s' → Run step s' as t → t.tasks[i]? = some task' →
      task'.program.revocation = some job →
      ∀ r₀ ∈ s.db.tokens, job.target.Scope r₀ → ∀ r, Descends t.db r₀.tokenHash r →
        r.revoked = true ∨ r.expiresAt ≤ t.now := by
  intro hall
  have hfacts : (Sample.around (Sample.overtaken (.user "u1") 1 1) (Sample.overtaking 2)).map
      Sample.outcome = some ⟨[("u1", "h1")], [86402000], some (some (Sample.logout, 86402000)),
        86402000, [("h1", none, true, 86402000), ("h2", some "h1", false, 172801999)],
        some (some Sample.logout)⟩ := by decide
  obtain ⟨⟨s, s', t⟩, haround, hfacts⟩ := Option.map_eq_some_iff.mp hfacts
  simp only [Sample.outcome, Sample.Outcome.mk.injEq] at hfacts
  obtain ⟨hbefore, -, hstarting, hnow, hafter, hdone⟩ := hfacts
  obtain ⟨hreachable, hstart, hrun⟩ := Sample.of_around haround
  obtain ⟨task, hmem, hstarting⟩ := Option.map_eq_some_iff.mp hstarting
  obtain ⟨task', hmem', hdone⟩ := Option.map_eq_some_iff.mp hdone
  have hfirst : ("u1", "h1") ∈ s.db.tokens.map fun r ↦ (r.userId, r.tokenHash) := by simp [hbefore]
  obtain ⟨r₀, hr₀, heq⟩ := List.mem_map.mp hfirst
  obtain ⟨huser, hhash⟩ := Prod.mk.inj heq
  have hrow : ∀ x ∈ [("h1", none, true, 86402000), ("h2", some "h1", false, 172801999)],
      ∃ r ∈ t.db.tokens, (r.tokenHash, r.previousTokenHash, r.revoked, r.expiresAt) = x := by
    intro x hx
    rw [← hafter] at hx
    exact List.mem_map.mp hx
  obtain ⟨parent, hparent, heq⟩ := hrow _ (.head _)
  obtain ⟨hparentHash, -⟩ := Prod.mk.inj heq
  obtain ⟨child, hchild, heq⟩ := hrow _ (.tail _ (.head _))
  simp only [Prod.mk.injEq] at heq
  obtain ⟨-, hprevious, hlive, hexpires⟩ := heq
  have hdescends : Descends t.db r₀.tokenHash child := by
    refine .rotated parent child hchild (by rw [hprevious, hparentHash]) ?_
    exact .self parent hparent (hparentHash.trans hhash.symm)
  rcases hall s s' t 2 task task' _ _ _ hreachable hmem hstarting rfl hstart hrun hmem' hdone r₀ hr₀
    huser child hdescends with h | h
  · rw [hlive] at h
    cases h
  · omega

/-- With 2 ms left the revocation finds the row, and the rotation finds it revoked. -/
theorem descendants_ended_caught :
    ∃ s s' t, Sample.around (Sample.overtaken (.user "u1") 2 1) (Sample.caught 2) = some (s, s', t) ∧
      ∀ r₀ ∈ s.db.tokens, r₀.userId = "u1" → ∀ r, Descends t.db r₀.tokenHash r →
        r.revoked = true ∨ r.expiresAt ≤ t.now := by
  have hfacts : (Sample.around (Sample.overtaken (.user "u1") 2 1) (Sample.caught 2)).map
      Sample.outcome = some ⟨[("u1", "h1")], [86402000], some (some (Sample.logout, 86401999)),
        86401999, [("h1", none, true, 86402000)], some (some Sample.logout)⟩ := by decide
  obtain ⟨⟨s, s', t⟩, haround, hfacts⟩ := Option.map_eq_some_iff.mp hfacts
  simp only [Sample.outcome, Sample.Outcome.mk.injEq] at hfacts
  obtain ⟨-, hpresented, hstarting, -, -, hdone⟩ := hfacts
  obtain ⟨hreachable, hstart, hrun⟩ := Sample.of_around haround
  obtain ⟨task, hmem, hstarting⟩ := Option.map_eq_some_iff.mp hstarting
  obtain ⟨task', hmem', hdone⟩ := Option.map_eq_some_iff.mp hdone
  have hcatches : (Target.user "u1").Catches s 86401999 := by
    intro _ stored data stage hrotating _ _ _ hexpired
    have hmem := Sample.mem_presented hrotating
    rw [hpresented, List.mem_singleton] at hmem
    omega
  exact ⟨s, s', t, haround, descendants_ended hreachable hmem hstarting rfl hcatches hstart hrun
    hmem' hdone⟩

end QAuth.Grants
