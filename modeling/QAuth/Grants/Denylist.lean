import QAuth.Grants.Families

/-!
# Denying the access tokens of a replayed grant

An access token is recorded under its grant before the transaction of the grant commits, and a
replay reads the records after the commit of its own. No grant commits what a replay has ended, so
the records that a replay reads hold every access token the grant will ever have issued: once the
replay has been answered each of them is on the denylist, or has expired.
-/

namespace QAuth.Grants

open QAuth.Token Locks Table Transition

/-! ### Where a token is -/

/-- An access token was signed under `jti`, and expires at `exp`. -/
def State.Signed (s : State) (jti : String) (exp : ℕ) : Prop :=
  ∃ token ∈ s.signed, token.jti = some jti ∧ token.exp = some exp

/-- The access token of a grant is signed, and recorded under each key of the grant until it
expires; what a replay has collected are signed tokens, none of which lives longer than it took
down. -/
def Traced (s : State) : Program → Prop
  | .granting plan (.recorded token) | .granting plan (.issued (some token)) =>
    token ∈ s.signed ∧ ∀ jti exp, token.jti = some jti → token.exp = some exp →
      s.now < exp * 1000 → ∀ key ∈ recordKeys plan.grant, s.redis.Recorded jti exp key
  | .revoking _ (.reading _ reading _ live) | .revoking _ (.denying _ reading live) =>
    ∀ entry ∈ live, ∃ exp, s.Signed entry.1 exp ∧ exp * 1000 ≤ reading + entry.2
  | _ => True

/-- A replay that is to deny the token recorded under `key` has yet to read the record, or has
collected the token, or has denied it. -/
def RevokeStage.Holds (redis : Redis) (job : Revocation) (jti : String) (exp : ℕ)
    (key : RecordKey) : RevokeStage → Prop
  | .reading family _ keys live =>
    key ∈ job.keys family → key ∈ keys ∨ ∃ rest, (jti, rest) ∈ live
  | .denying family _ live =>
    key ∈ job.keys family → (∃ rest, (jti, rest) ∈ live) ∨ exp * 1000 ≤ redis.denylist jti
  | .answered family => key ∈ job.keys family → exp * 1000 ≤ redis.denylist jti
  | _ => True

/-- The access token that `grant` has issued, while it lives, is held by the replay. -/
def Denies (s : State) (replay grant : Program) : Prop :=
  ∀ job stage plan token jti exp key, replay = .revoking job stage → job.replay = true →
    grant = .granting plan (.issued (some token)) → token.jti = some jti →
    token.exp = some exp → s.now < exp * 1000 → key ∈ recordKeys plan.grant →
    stage.Holds s.redis job jti exp key

/-- What holds of the signed tokens, the records and the denylist. -/
structure Denial (s : State) : Prop where
  jtis : (s.signed.map (·.jti)).Nodup
  named : ∀ token ∈ s.signed, ∃ jti exp, token.jti = some jti ∧ jti ≠ "" ∧ token.exp = some exp
  fields : ∀ key, ∀ field ∈ (s.redis.records key).fields, s.Signed field.1 field.2
  traced : ∀ (i : ℕ) task, s.tasks[i]? = some task → Traced s task.program
  denies : ∀ (i j : ℕ) task task', s.tasks[i]? = some task → s.tasks[j]? = some task' →
    Denies s task.program task'.program

/-- The program has no access token and denies none. -/
def Program.quiet : Program → Bool
  | .granting _ (.recorded _) | .granting _ (.issued (some _)) => false
  | .revoking _ (.reading _ _ _ _) | .revoking _ (.denying _ _ _)
  | .revoking _ (.answered _) => false
  | _ => true

section Quiet

variable {s : State} {program other : Program}

theorem traced_of_quiet (h : program.quiet = true) : Traced s program := by
  unfold Traced
  split
  all_goals trivial

theorem denies_of_quiet_left (h : program.quiet = true) : Denies s program other := by
  intro job stage plan token jti exp key hprogram _ _ _ _ _ _
  rw [hprogram] at h
  cases stage <;> trivial

theorem denies_of_quiet_right (h : program.quiet = true) : Denies s other program := by
  intro job stage plan token jti exp key _ _ hprogram _ _ _ _
  rw [hprogram] at h
  cases h

theorem denies_granting {plan : Plan} {stage : Stage} : Denies s (.granting plan stage) other :=
  fun _ _ _ _ _ _ _ hprogram ↦ nomatch hprogram

/-- A token that was not issued is denied by nobody. -/
theorem denies_of_not_issued (h : ∀ plan token, program ≠ .granting plan (.issued (some token))) :
    Denies s other program :=
  fun _ _ plan token _ _ _ _ _ hprogram ↦ absurd hprogram (h plan token)

theorem quiet_arrival {a : Action} (h : Arrival s a program) : program.quiet = true := by
  cases h <;> rfl

end Quiet

/-! ### Calls -/

section Calls

variable {s : State} {task task' : Task} {txn : Txn} {plan : Plan} {stage : Stage}

theorem quiet_begin (hstage : stage.before = true ∨ stage = .spent)
    (h : plan.begin s.db stage = some task) : task.program.quiet = true := by
  unfold Plan.begin at h
  split_ifs at h
  rw [← Option.some.inj h]
  rcases hstage with hstage | rfl
  · cases stage <;> first | rfl | cases hstage
  · rfl

theorem quiet_afterCodeRefusal {code : Option AuthorizationCode} {effect : RefusalEffect}
    {now : ℕ} : (afterCodeRefusal now code effect).program.quiet = true := by
  unfold afterCodeRefusal
  split <;> rfl

theorem quiet_afterRefreshRefusal {stored : Option RefreshToken} {effect : RefusalEffect}
    {now : ℕ} : (afterRefreshRefusal now stored effect).program.quiet = true := by
  unfold afterRefreshRefusal
  split <;> rfl

/-- No statement of a grant signs a token. -/
theorem quiet_grantCall {input : Input} (h : grantCall s txn plan stage input = some task) :
    task.program.quiet = true := by
  unfold grantCall at h
  split at h
  · rw [← Option.some.inj h]
    rfl
  · rw [← Option.some.inj h]
    rfl
  · split at h
    all_goals
      rw [← Option.some.inj h]
      rfl
  · split at h
    all_goals
      rw [← Option.some.inj h]
      rfl
  · obtain ⟨data, -, rfl⟩ := Option.map_eq_some_iff.mp h
    rfl
  · obtain ⟨data, -, h⟩ := Option.bind_eq_some_iff.mp h
    obtain ⟨txn', -, rfl⟩ := Option.map_eq_some_iff.mp h
    rfl
  · cases h

/-- A call leads to a quiet program, or is one of a revocation. -/
theorem quiet_or_revoking_of_call {input : Input} (h : task.call s input = some task') :
    task'.program.quiet = true ∨ ∃ job stage, task.program = .revoking job stage ∧
      revokeCall s task.txn job stage = some task' := by
  unfold Task.call at h
  split at h
  · left
    unfold checkCode at h
    split at h
    · exact quiet_begin (.inl rfl) h
    · rw [← Option.some.inj h]
      exact quiet_afterCodeRefusal
  · left
    unfold checkToken at h
    split at h
    · exact quiet_begin (.inl rfl) h
    · rw [← Option.some.inj h]
      exact quiet_afterRefreshRefusal
  · exact .inl (quiet_begin (.inr rfl) h)
  · left
    split at h
    all_goals
      rw [← Option.some.inj h]
      rfl
  · exact .inl (quiet_grantCall h)
  · rename_i job stage hprogram
    exact .inr ⟨job, stage, hprogram, h⟩
  · cases h

end Calls

/-! ### What each step keeps -/

section Steps

variable {s t : State} {a : Action}

/-- What is traced stays so while no signed token and no record of one is lost. -/
theorem Traced.mono {program : Program} (hnow : s.now ≤ t.now)
    (hsigned : ∀ token ∈ s.signed, token ∈ t.signed)
    (hrecorded : ∀ token ∈ s.signed, ∀ jti exp key, token.jti = some jti → s.now < exp * 1000 →
      s.redis.Recorded jti exp key → t.redis.Recorded jti exp key)
    (h : Traced s program) : Traced t program := by
  have hgrant : ∀ {token : AccessToken} {grant : AccessTokenGrant},
      (token ∈ s.signed ∧ ∀ jti exp, token.jti = some jti → token.exp = some exp →
        s.now < exp * 1000 → ∀ key ∈ recordKeys grant, s.redis.Recorded jti exp key) →
      token ∈ t.signed ∧ ∀ jti exp, token.jti = some jti → token.exp = some exp →
        t.now < exp * 1000 → ∀ key ∈ recordKeys grant, t.redis.Recorded jti exp key := by
    rintro token grant ⟨hmem, hkeys⟩
    refine ⟨hsigned token hmem, fun jti exp hjti hexp hlive key hkey ↦ ?_⟩
    have hlive' : s.now < exp * 1000 := Nat.lt_of_le_of_lt hnow hlive
    exact hrecorded token hmem jti exp key hjti hlive' (hkeys jti exp hjti hexp hlive' key hkey)
  have hcollected : ∀ {reading : ℕ} {live : List (String × ℕ)},
      (∀ entry ∈ live, ∃ exp, s.Signed entry.1 exp ∧ exp * 1000 ≤ reading + entry.2) →
      ∀ entry ∈ live, ∃ exp, t.Signed entry.1 exp ∧ exp * 1000 ≤ reading + entry.2 := by
    intro reading live hlive entry hentry
    obtain ⟨exp, ⟨token, hmem, htoken⟩, hbound⟩ := hlive entry hentry
    exact ⟨exp, ⟨token, hsigned token hmem, htoken⟩, hbound⟩
  unfold Traced at h ⊢
  split
  · exact hgrant h
  · exact hgrant h
  · exact hcollected h
  · exact hcollected h
  · trivial

/-- A replay holds a token as long as the denylist does. -/
theorem RevokeStage.Holds.mono {redis redis' : Redis} {job : Revocation} {jti : String} {exp : ℕ}
    {key : RecordKey} {stage : RevokeStage}
    (hdenied : exp * 1000 ≤ redis.denylist jti → exp * 1000 ≤ redis'.denylist jti)
    (h : stage.Holds redis job jti exp key) : stage.Holds redis' job jti exp key := by
  cases stage with
  | reading family now keys live => exact h
  | denying family now live => exact fun hkey ↦ (h hkey).imp_right hdenied
  | answered family => exact fun hkey ↦ hdenied (h hkey)
  | begun now => trivial
  | locked now => trivial
  | located now family => trivial
  | updating now family todo => trivial
  | revoked family => trivial

theorem Denies.mono {replay grant : Program} (hnow : s.now ≤ t.now)
    (hdenylist : t.redis.denylist = s.redis.denylist) (h : Denies s replay grant) :
    Denies t replay grant := by
  intro job stage plan token jti exp key hreplay hjob hgrant hjti hexp hlive hkey
  have hholds := h job stage plan token jti exp key hreplay hjob hgrant hjti hexp (by omega) hkey
  refine hholds.mono fun hdenied ↦ ?_
  rw [hdenylist]
  exact hdenied

/-- A replay that goes on to `stage'` holds what it held. -/
theorem Denies.next {job : Revocation} {stage stage' : RevokeStage} {grant : Program}
    (h : Denies s (.revoking job stage) grant)
    (hnext : ∀ plan token jti exp key, grant = .granting plan (.issued (some token)) →
      token.jti = some jti → token.exp = some exp → s.now < exp * 1000 →
      key ∈ recordKeys plan.grant → stage.Holds s.redis job jti exp key →
      stage'.Holds s.redis job jti exp key) :
    Denies s (.revoking job stage') grant := by
  intro job' stage'' plan token jti exp key hjob hreplay hgrant hjti hexp hlive hkey
  cases hjob
  exact hnext plan token jti exp key hgrant hjti hexp hlive hkey
    (h _ _ plan token jti exp key rfl hreplay hgrant hjti hexp hlive hkey)

/-- A step that changes one task, and neither the stores nor the signed tokens. -/
theorem Denial.set (h : Denial s) {i : ℕ} {task : Task} (hnow : s.now ≤ t.now)
    (hredis : t.redis = s.redis) (hsigned : t.signed = s.signed)
    (htasks : t.tasks = s.tasks.set i task) (htraced : Traced s task.program)
    (hreplay : ∀ (j : ℕ) other, j ≠ i → s.tasks[j]? = some other →
      Denies s task.program other.program)
    (hgrant : ∀ (j : ℕ) other, j ≠ i → s.tasks[j]? = some other →
      Denies s other.program task.program) : Denial t := by
  have hdenylist : t.redis.denylist = s.redis.denylist := congrArg Redis.denylist hredis
  refine ⟨by rw [hsigned]; exact h.jtis, by rw [hsigned]; exact h.named, ?_, ?_, ?_⟩
  · unfold State.Signed
    rw [hredis, hsigned]
    exact h.fields
  · intro j other hmem
    rw [htasks] at hmem
    refine Traced.mono hnow (fun token hmem ↦ by rwa [hsigned])
      (fun token _ jti exp key _ _ hrecorded ↦ by rwa [hredis]) ?_
    rcases getElem?_set_cases hmem with ⟨-, rfl⟩ | ⟨-, hmem⟩
    · exact htraced
    · exact h.traced j other hmem
  · intro j k other other' hmem hmem'
    rw [htasks] at hmem hmem'
    refine Denies.mono hnow hdenylist ?_
    rcases getElem?_set_cases hmem with ⟨rfl, rfl⟩ | ⟨hji, hj⟩
    · rcases getElem?_set_cases hmem' with ⟨-, rfl⟩ | ⟨hki, hk⟩
      · intro job stage plan token jti exp key hprogram _ hprogram'
        rw [hprogram] at hprogram'
        cases hprogram'
      · exact hreplay k other' hki hk
    · rcases getElem?_set_cases hmem' with ⟨-, rfl⟩ | ⟨-, hk⟩
      · exact hgrant j other hji hj
      · exact h.denies j k other other' hj hk

/-- A task that has no access token and denies none may take the place of any other. -/
theorem Denial.set_quiet (h : Denial s) {i : ℕ} (task : Task) (hnow : s.now ≤ t.now)
    (hredis : t.redis = s.redis) (hsigned : t.signed = s.signed)
    (htasks : t.tasks = s.tasks.set i task) (hquiet : task.program.quiet = true) : Denial t :=
  h.set hnow hredis hsigned htasks (traced_of_quiet hquiet)
    (fun _ _ _ _ ↦ denies_of_quiet_left hquiet) fun _ _ _ _ ↦ denies_of_quiet_right hquiet

/-- The tokens signed under one `jti` expire at one time. -/
theorem Denial.exp_eq (h : Denial s) {jti : String} {exp exp' : ℕ} (hsigned : s.Signed jti exp)
    (hsigned' : s.Signed jti exp') : exp = exp' := by
  obtain ⟨token, hmem, hjti, hexp⟩ := hsigned
  obtain ⟨token', hmem', hjti', hexp'⟩ := hsigned'
  rw [eq_of_key_eq h.jtis hmem hmem' (hjti.trans hjti'.symm), hexp'] at hexp
  exact (Option.some.inj hexp).symm

/-- A token whose lifetime was collected, or that was denied, is denied by the next write to the
denylist, whichever token that is of. -/
theorem Denial.le_denylist (h : Denial s) {jti : String} (jti' : String)
    {exp reading remaining : ℕ} (hsigned : s.Signed jti exp) (hreading : reading ≤ s.now)
    (hlive : s.now < exp * 1000)
    (hentry : ∃ exp', s.Signed jti' exp' ∧ exp' * 1000 ≤ reading + remaining)
    (hdenied : jti = jti' ∨ exp * 1000 ≤ s.redis.denylist jti) :
    exp * 1000 ≤ (revokeJti s.redis s.now jti' remaining).denylist jti := by
  by_cases hjti : jti = jti'
  · subst hjti
    obtain ⟨exp', hsigned', hbound⟩ := hentry
    rw [← h.exp_eq hsigned hsigned'] at hbound
    obtain ⟨token, hmem, htoken, -⟩ := hsigned
    obtain ⟨jti', exp'', hjti', hne, -⟩ := h.named token hmem
    rw [hjti'] at htoken
    refine le_denylist_revokeJti ?_ hreading hbound (by omega)
    rw [← Option.some.inj htoken]
    exact hne
  · rw [denylist_revokeJti_of_ne hjti]
    exact hdenied.resolve_left hjti

theorem Denial.revokeCall (h : Denial s) (hs : Inv s) {i : ℕ} {task task' : Task}
    {job : Revocation} {stage : RevokeStage} (hmem : s.tasks[i]? = some task)
    (hprogram : task.program = .revoking job stage)
    (hcall : revokeCall s task.txn job stage = some task') :
    Denial { s with tasks := s.tasks.set i task' } := by
  have htraced := h.traced i task hmem
  have hclock := (hs.tasks i task hmem).program
  rw [hprogram] at htraced hclock
  have hreading : stage.clock ≤ s.now := hclock.clock
  have hdenies : ∀ (j : ℕ) other, s.tasks[j]? = some other →
      Denies s (.revoking job stage) other.program := by
    intro j other hother
    rw [← hprogram]
    exact h.denies i j task other hmem hother
  have hset : ∀ {stage' : RevokeStage}, task'.program = .revoking job stage' →
      Traced s (.revoking job stage') →
      (∀ (j : ℕ) other, s.tasks[j]? = some other →
        Denies s (.revoking job stage') other.program) →
      Denial { s with tasks := s.tasks.set i task' } := by
    intro stage' hprogram' htraced' hreplay
    refine h.set (Nat.le_refl _) rfl rfl rfl ?_ (fun j other _ hother ↦ ?_) fun j other _ _ ↦ ?_
    · rw [hprogram']
      exact htraced'
    · rw [hprogram']
      exact hreplay j other hother
    · rw [hprogram']
      exact denies_of_not_issued fun _ _ hissued ↦ by cases hissued
  have hquiet : task'.program.quiet = true →
      Denial { s with tasks := s.tasks.set i task' } :=
    h.set_quiet task' (Nat.le_refl _) rfl rfl rfl
  cases stage with
  | begun now =>
    rw [← Option.some.inj hcall] at hquiet ⊢
    exact hquiet rfl
  | locked now =>
    rw [← Option.some.inj hcall] at hquiet ⊢
    exact hquiet rfl
  | located now family =>
    rw [← Option.some.inj hcall] at hquiet ⊢
    exact hquiet rfl
  | updating now family todo =>
    cases todo with
    | nil => cases hcall
    | cons id todo =>
      rw [← Option.some.inj hcall] at hquiet ⊢
      exact hquiet rfl
  | revoked family =>
    rw [Grants.revokeCall] at hcall
    split_ifs at hcall with hreplay
    rw [← Option.some.inj hcall] at hset ⊢
    refine hset rfl (fun entry hentry ↦ nomatch hentry) fun j other hother ↦ ?_
    exact (hdenies j other hother).next fun _ _ _ _ _ _ _ _ _ _ _ ↦ .inl
  | reading family now keys live =>
    cases keys with
    | nil =>
      rw [← Option.some.inj hcall] at hset ⊢
      refine hset rfl htraced fun j other hother ↦ (hdenies j other hother).next ?_
      intro plan token jti exp key _ _ _ _ _ hholds hkey
      exact .inl ((hholds hkey).resolve_left List.not_mem_nil)
    | cons next keys =>
      rw [← Option.some.inj hcall] at hset ⊢
      refine hset rfl (fun entry hentry ↦ ?_) fun j other hother ↦ (hdenies j other hother).next ?_
      · rcases mem_collectLive hentry with hentry | ⟨field, hfield, hjti, hrest⟩
        · exact htraced entry hentry
        · refine ⟨field.2, ?_, by omega⟩
          rw [hjti]
          exact h.fields next field (Redis.mem_fields_of_mem_hgetall hfield)
      · intro plan token jti exp key hgrant hjti hexp hlive hkey hholds hjobKey
        rcases hholds hjobKey with hunread | hcollected
        · rcases List.mem_cons.mp hunread with rfl | hunread
          · have hrecorded := h.traced j other hother
            rw [hgrant] at hrecorded
            have hmem := (hrecorded.2 jti exp hjti hexp hlive key hkey).mem_hgetall hlive
            have hbefore : now < exp * 1000 := Nat.lt_of_le_of_lt hreading hlive
            exact .inr (exists_mem_collectLive (.inr ⟨exp, hmem, hbefore⟩))
          · exact .inl hunread
        · exact .inr (exists_mem_collectLive (.inl hcollected))
  | denying family now live =>
    cases live with
    | nil =>
      rw [← Option.some.inj hcall] at hset ⊢
      refine hset rfl trivial fun j other hother ↦ (hdenies j other hother).next ?_
      intro plan token jti exp key _ _ _ _ _ hholds hkey
      exact (hholds hkey).resolve_left fun ⟨_, hrest⟩ ↦ nomatch hrest
    | cons entry live => cases hcall
  | answered family => cases hcall

theorem Denial.issue (h : Denial s) {i : ℕ} {task : Task} {plan : Plan} {payload : SignPayload}
    {jti : String} {signedAt : ℕ} (hnamed : jti ≠ "")
    (hfresh : ∀ earlier ∈ s.signed, earlier.jti ≠ some jti) :
    Denial { s with
      redis := recordGrantAccessToken s.redis s.now (signAccessToken payload jti signedAt) plan.grant
      signed := signAccessToken payload jti signedAt :: s.signed
      tasks := s.tasks.set i
        ⟨task.txn, .granting plan (.recorded (signAccessToken payload jti signedAt))⟩ } := by
  refine ⟨?_, ?_, ?_, ?_, ?_⟩
  · refine List.nodup_cons.mpr ⟨fun hmem ↦ ?_, h.jtis⟩
    obtain ⟨earlier, hearlier, hjti⟩ := List.mem_map.mp hmem
    exact hfresh earlier hearlier hjti
  · intro token hmem
    rcases List.mem_cons.mp hmem with rfl | hmem
    · exact ⟨jti, _, rfl, hnamed, rfl⟩
    · exact h.named token hmem
  · intro key field hfield
    rcases mem_fields_recordGrantAccessToken hfield with hfield | hnew
    · obtain ⟨token, hmem, htoken⟩ := h.fields key field hfield
      exact ⟨token, List.mem_cons_of_mem _ hmem, htoken⟩
    · exact ⟨_, List.mem_cons_self, hnew⟩
  · intro j other hmem
    rcases getElem?_set_cases hmem with ⟨-, rfl⟩ | ⟨-, hj⟩
    · refine ⟨List.mem_cons_self, fun jti' exp hjti hexp hlive key hkey ↦ ?_⟩
      refine recorded_recordGrantAccessToken hjti hexp ?_ hlive hkey
      rw [← Option.some.inj hjti]
      exact hnamed
    · refine (h.traced j other hj).mono (Nat.le_refl s.now)
        (fun token hmem ↦ List.mem_cons_of_mem _ hmem) ?_
      intro token hsigned jti' exp key hjti hlive hrecorded
      refine hrecorded.record hlive fun heq ↦ ?_
      exact hfresh token hsigned (hjti.trans heq.symm)
  · intro j k other other' hmem hmem'
    rcases getElem?_set_cases hmem with ⟨-, rfl⟩ | ⟨-, hj⟩
    · exact denies_granting
    · rcases getElem?_set_cases hmem' with ⟨-, rfl⟩ | ⟨-, hk⟩
      · exact denies_of_not_issued fun _ _ hissued ↦ by cases hissued
      · exact (h.denies j k other other' hj hk).mono (Nat.le_refl s.now) denylist_recordGrantAccessToken

/-- A replay denies the next token it collected. -/
theorem Denial.deny (h : Denial s) (hs : Inv s) {i : ℕ} {task : Task} {job : Revocation}
    {family : Option Uuid} {reading remaining : ℕ} {jti : String} {live : List (String × ℕ)}
    (hmem : s.tasks[i]? = some task)
    (hprogram : task.program = .revoking job (.denying family reading ((jti, remaining) :: live))) :
    Denial { s with
      redis := revokeJti s.redis s.now jti remaining
      tasks := s.tasks.set i ⟨task.txn, .revoking job (.denying family reading live)⟩ } := by
  have htraced := h.traced i task hmem
  have hclock := (hs.tasks i task hmem).program
  rw [hprogram] at htraced hclock
  have hreading : reading ≤ s.now := hclock.clock
  have hentry := htraced (jti, remaining) List.mem_cons_self
  have hrecords : ∀ {jti' : String} {exp : ℕ} {key : RecordKey}, s.redis.Recorded jti' exp key →
      (revokeJti s.redis s.now jti remaining).Recorded jti' exp key := by
    intro jti' exp key hrecorded
    rw [Redis.Recorded, records_revokeJti]
    exact hrecorded
  refine ⟨h.jtis, h.named, ?_, fun j other hmem' ↦ ?_, fun j k other other' hmem' hmem'' ↦ ?_⟩
  · rw [records_revokeJti]
    exact h.fields
  · rcases getElem?_set_cases hmem' with ⟨-, rfl⟩ | ⟨-, hj⟩
    · exact fun entry hin ↦ htraced entry (List.mem_cons_of_mem _ hin)
    · exact (h.traced j other hj).mono (Nat.le_refl s.now) (fun _ hin ↦ hin)
        fun _ _ _ _ _ _ _ hrecorded ↦ hrecords hrecorded
  · rcases getElem?_set_cases hmem'' with ⟨-, rfl⟩ | ⟨-, hk⟩
    · exact denies_of_not_issued fun _ _ hissued ↦ by cases hissued
    intro job' stage plan token jti' exp key hjob hreplay hgrant hjti hexp hlive hkey
    have hsigned : s.Signed jti' exp := by
      have hgranted := h.traced k other' hk
      rw [hgrant] at hgranted
      exact ⟨token, hgranted.1, hjti, hexp⟩
    have hdenied := h.le_denylist jti hsigned hreading hlive hentry
    rcases getElem?_set_cases hmem' with ⟨-, rfl⟩ | ⟨-, hj⟩
    · cases hjob
      intro hjobKey
      have hholds := h.denies i k task other' hmem hk _ _ plan token jti' exp key hprogram hreplay
        hgrant hjti hexp hlive hkey hjobKey
      rcases hholds with ⟨rest, hrest⟩ | hon
      · rcases List.mem_cons.mp hrest with heq | hrest
        · exact .inr (hdenied (.inl (congrArg Prod.fst heq)))
        · exact .inl ⟨rest, hrest⟩
      · exact .inr (hdenied (.inr hon))
    · refine (h.denies j k other other' hj hk _ _ plan token jti' exp key hjob hreplay hgrant hjti
        hexp hlive hkey).mono fun hon ↦ hdenied (.inr hon)

/-! ### Commits -/

theorem Lineage.not_ended {db : Tables} {txn : Txn} {data : NewRefreshToken} {F : Uuid → Prop}
    (h : Lineage db txn data) (hended : Ended db F fun _ ↦ False) : ¬ F data.familyId := by
  intro hF
  cases h with
  | start fresh drawn first code => exact fresh (hended.known _ hF)
  | rotation parent mem live revoked familyId userId oauthClientId previous code user client =>
    rw [familyId] at hF
    have hrevoked := (hended.rows parent mem hF).resolve_right id
    rw [live] at hrevoked
    cases hrevoked

theorem GrantOk.not_mem_keys {db : Tables} {txn : Txn} {plan : Plan} {stage : Stage}
    {job : Revocation} {family : Option Uuid} {key : RecordKey} (hdb : db.Ok) (htxn : txn.Ok db)
    (h : GrantOk db txn plan stage) (hholding : stage.holding = true)
    (hsubject : job.target.Subject db) (hended : Ended db (family = some ·) fun _ ↦ False)
    (hkey : key ∈ recordKeys plan.grant) : key ∉ job.keys family := by
  obtain ⟨hspent, hlineage⟩ := h.spent hholding
  intro hjobKey
  cases key with
  | code c =>
    rw [code_mem_recordKeys] at hkey
    rw [Revocation.keys, code_mem_recordKeys] at hjobKey
    have hspends : txn.spent = some c := by
      unfold Plan.grant at hkey
      split at hkey <;> rename_i hplan
      · rw [hspent _ hplan]
        exact hkey
      · cases hkey
      · cases hkey
    have hused : db.Used c := by
      split at hjobKey
      · rename_i htarget
        rw [htarget] at hsubject
        rw [← Option.some.inj hjobKey]
        exact hsubject
      · cases hjobKey
    exact hdb.not_used (htxn.spent c hspends) hused
  | family f =>
    rw [family_mem_recordKeys] at hkey
    rw [Revocation.keys, family_mem_recordKeys] at hjobKey
    obtain ⟨data, hdata, hfamily⟩ : ∃ data ∈ plan.refresh, data.familyId = f := by
      have hchecked := h.checked
      unfold Plan.grant at hkey
      unfold Plan.Ok at hchecked
      split at hkey <;> rename_i hplan
      · exact Option.map_eq_some_iff.mp hkey
      · rw [hplan] at hchecked
        obtain ⟨-, data, hdata, hchild⟩ := hchecked
        exact ⟨data, hdata, hchild.familyId.trans (Option.some.inj hkey)⟩
      · cases hkey
    refine (hlineage data hdata).not_ended hended ?_
    rw [hfamily]
    exact hjobKey

theorem Denial.commit (h : Denial s) (hs : Inv s) {i : ℕ} {task : Task} {program : Program}
    (hmem : s.tasks[i]? = some task) (hcommitted : task.program.committed = some program) :
    Denial { s with db := s.db.commit task.txn, tasks := s.tasks.set i ⟨.empty, program⟩ } := by
  have htask := hs.tasks i task hmem
  have htraced := h.traced i task hmem
  have hprogramOk := htask.program
  have hquiet : program.quiet = true → Denial
      { s with db := s.db.commit task.txn, tasks := s.tasks.set i ⟨.empty, program⟩ } :=
    h.set_quiet ⟨.empty, program⟩ (Nat.le_refl _) rfl rfl rfl
  unfold Program.committed at hcommitted
  split at hcommitted <;> rename_i hprogram
  · rename_i plan token
    rw [hprogram] at htraced hprogramOk
    rw [← Option.some.inj hcommitted]
    refine h.set (Nat.le_refl _) rfl rfl rfl htraced (fun _ _ _ _ ↦ denies_granting) ?_
    intro j other hji hother job stage plan' token' jti exp key hjob hreplay hissued _ _ _ hkey
    cases hissued
    have hrevoke := (hs.tasks j other hother).program
    rw [hjob] at hrevoke
    have hsubject := hrevoke.subject hreplay
    have hout : ∀ {family : Option Uuid}, Ended s.db (family = some ·) (fun _ ↦ False) →
        key ∉ job.keys family := fun hended ↦
      hprogramOk.not_mem_keys hs.db htask.openTxn rfl hsubject hended hkey
    have hreplayOk := hrevoke.replay hreplay
    cases stage with
    | reading family now keys live => exact fun hjobKey ↦ absurd hjobKey (hout hreplayOk.1)
    | denying family now live => exact fun hjobKey ↦ absurd hjobKey (hout hreplayOk.1)
    | answered family => exact fun hjobKey ↦ absurd hjobKey (hout hreplayOk.1)
    | begun now => trivial
    | locked now => trivial
    | located now family => trivial
    | updating now family todo => trivial
    | revoked family => trivial
  · split_ifs at hcommitted
    rw [← Option.some.inj hcommitted] at hquiet ⊢
    exact hquiet rfl
  · rw [← Option.some.inj hcommitted] at hquiet ⊢
    exact hquiet rfl
  · rw [← Option.some.inj hcommitted] at hquiet ⊢
    exact hquiet rfl
  · cases hcommitted

/-! ### The invariant -/

theorem Denial.step (h : Denial s) (hs : Inv s) (hstep : Steps s a t) : Denial t := by
  cases hstep with
  | tick ms =>
    have hnow : s.now ≤ s.now + ms := Nat.le_add_right _ _
    exact ⟨h.jtis, h.named, h.fields,
      fun i task hmem ↦ (h.traced i task hmem).mono hnow (fun _ hin ↦ hin)
        fun _ _ _ _ _ _ _ hrecorded ↦ hrecorded,
      fun i j task task' hmem hmem' ↦ (h.denies i j task task' hmem hmem').mono hnow rfl⟩
  | mint code unused fresh => exact ⟨h.jtis, h.named, h.fields, h.traced, h.denies⟩
  | start _ program arrival =>
    have hquiet := quiet_arrival arrival
    refine ⟨h.jtis, h.named, h.fields, fun i task hmem ↦ ?_, fun i j task task' hmem hmem' ↦ ?_⟩
    · rcases getElem?_append_cases hmem with hi | ⟨-, rfl⟩
      · exact h.traced i task hi
      · exact traced_of_quiet hquiet
    · rcases getElem?_append_cases hmem with hi | ⟨-, rfl⟩
      · rcases getElem?_append_cases hmem' with hj | ⟨-, rfl⟩
        · exact h.denies i j task task' hi hj
        · exact denies_of_quiet_right hquiet
      · exact denies_of_quiet_left hquiet
  | call i input task task' mem call grants =>
    rcases quiet_or_revoking_of_call call with hquiet | ⟨job, stage, hprogram, hcall⟩
    · exact h.set_quiet task' (Nat.le_refl _) rfl rfl rfl hquiet
    · exact h.revokeCall hs mem hprogram hcall
  | issue i jti signedAt task plan stage payload mem program signs stored named fresh =>
    exact h.issue named fresh
  | deny i task job family now jti remaining live mem program => exact h.deny hs mem program
  | commit i task program mem committed => exact h.commit hs mem committed
  | rollback i task mem unsettled =>
    exact h.set_quiet ⟨.empty, .ended⟩ (Nat.le_refl _) rfl rfl rfl rfl

end Steps

/-! ### An answered replay -/

namespace Sample

/-- The replay a task has answered. -/
def answered (task : Task) : Option (Revocation × Option Uuid) :=
  match task.program with
  | .revoking job (.answered family) => some (job, family)
  | _ => none

def issued (task : Task) : Option (Plan × AccessToken) :=
  match task.program with
  | .granting plan (.issued (some token)) => some (plan, token)
  | _ => none

end Sample

end QAuth.Grants
