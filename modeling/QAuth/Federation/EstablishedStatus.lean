import QAuth.Federation.StatusChecker

/-!
# A valid decision is established

In every run of the checker, a decision that a credential with a status is valid rests on a token
for its URI that was verified, recently enough, and whose list has `VALID` at the index.
-/

namespace QAuth.Federation

open Guards Json Transition

variable {Cert Key PublicKey ν β : Type} (C : Checker Cert Key PublicKey ν β)

/-! ### Freshness -/

/-- At the instant, the verified list is no older than the ceiling, its `ttl` and its `exp` allow. -/
structure Fresh (claims : List (String × Value ν)) (v : Verification) (now : Instant) : Prop where
  ceiling : (now.ms : ℚ) - v.finishedAt.ms < maxCacheTtlSeconds C * 1000
  ttl : ∀ ttl, finiteClaim C.toStatusVerifier claims "ttl" = some ttl → 0 < ttl →
    (now.ms : ℚ) - v.finishedAt.ms < ttl * 1000
  exp : ∀ exp, finiteClaim C.toStatusVerifier claims "exp" = some exp → (now.ms : ℚ) < exp * 1000

variable {C}

theorem Instant.abs_ms_le (t : Instant) : |(t.ms : ℤ)| ≤ 2 ^ 53 := by
  have := t.le
  rw [abs_of_nonneg (by omega)]
  omega

theorem Instant.abs_sub_le (t u : Instant) : |(t.ms : ℤ) - u.ms| ≤ 2 ^ 53 := by
  have := t.le
  have := u.le
  rw [abs_le]
  omega

theorem cacheTtlMs_le_ceiling (statusList : VerifiedStatusList) (now : Instant) :
    cacheTtlMs C statusList now ≤ C.numbers.nearest (maxCacheTtlSeconds C * 1000) := by
  unfold cacheTtlMs
  cases statusList.expiresAtMs <;> cases statusList.ttlSeconds <;> simp

theorem cacheTtlMs_le_ttl {statusList : VerifiedStatusList} (now : Instant) {seconds : ℤ}
    (h : statusList.ttlSeconds = some seconds) :
    cacheTtlMs C statusList now ≤ C.numbers.nearest (seconds * 1000) := by
  unfold cacheTtlMs
  rw [h]
  cases statusList.expiresAtMs <;> simp

theorem cacheTtlMs_le_exp {statusList : VerifiedStatusList} (now : Instant) {expiresAtMs : ℚ}
    (h : statusList.expiresAtMs = some expiresAtMs) :
    cacheTtlMs C statusList now ≤ C.numbers.nearest (expiresAtMs - now.ms) := by
  unfold cacheTtlMs
  rw [h]
  simp

theorem fresh_of_lt {claims : List (String × Value ν)} {v : Verification} {now : Instant}
    (hv : TokenVerified C.toStatusVerifier v.token v.uri v.now.ms claims v.statusList)
    (h : (now.ms : ℚ) < (State.cachedStatusList C v).expiresAtMs) : Fresh C claims v now := by
  have hlt : ((now.ms : ℤ) : ℚ) < v.finishedAt.ms + cacheTtlMs C v.statusList v.finishedAt :=
    C.numbers.lt_of_lt_nearest now.abs_ms_le (by exact_mod_cast h)
  have hage : (((now.ms : ℤ) - v.finishedAt.ms : ℤ) : ℚ) <
      cacheTtlMs C v.statusList v.finishedAt := by
    push_cast at hlt ⊢
    linarith
  -- the age is a whole number, so that rounding the bounds changes nothing
  have hbound (q : ℚ) (hq : cacheTtlMs C v.statusList v.finishedAt ≤ C.numbers.nearest q) :
      (now.ms : ℚ) - v.finishedAt.ms < q := by
    have := C.numbers.lt_of_lt_nearest (now.abs_sub_le v.finishedAt) (hage.trans_le hq)
    exact_mod_cast this
  refine ⟨hbound _ (cacheTtlMs_le_ceiling _ _), fun ttl httl hpos ↦ ?_, fun exp hexp ↦ ?_⟩
  · have hseconds : v.statusList.ttlSeconds = some ⌊ttl⌋ := by
      rw [hv.ttl, readTtl, httl]
      exact if_pos hpos
    have hfloor : ((⌊ttl⌋ : ℤ) : ℚ) ≤ ttl := Int.floor_le ttl
    have := hbound _ (cacheTtlMs_le_ttl _ hseconds)
    linarith
  · have hexpires : v.statusList.expiresAtMs = some (C.numbers.nearest (exp * 1000)) := by
      rw [hv.exp, hexp]
      rfl
    have hms := hbound _ (cacheTtlMs_le_exp _ hexpires)
    have hnearest : ((now.ms : ℤ) : ℚ) < C.numbers.nearest (exp * 1000) := by
      push_cast
      linarith
    exact_mod_cast C.numbers.lt_of_lt_nearest now.abs_ms_le hnearest

/-! ### What a valid decision rests on -/

/-- The status of a reference is established by a verified token whose list has `VALID` there. -/
structure Verified (C : Checker Cert Key PublicKey ν β) (claims : List (String × Value ν))
    (v : Verification) (reference : StatusListReference) : Prop where
  uri : v.uri = reference.uri
  token : TokenVerified C.toStatusVerifier v.token v.uri v.now.ms claims v.statusList
  entry : EntryIs C.inflateSync v.statusList.lst v.statusList.bits reference.idx
    CREDENTIAL_STATUS_VALID

/-- What a valid decision of a check rests on: `after` and `before` are what happened since it began
and until then. -/
inductive Rests (C : Checker Cert Key PublicKey ν β) (status : Option (Value ν))
    (statusRequired : Bool) (now : Instant) (after before : List (Event ν)) : Prop
  | absent (hstatus : status = none ∨ status = some .null) (hrequired : statusRequired = false)
  /-- by a load that was in flight after the check began -/
  | loaded {claim reference load v claims} (hstatus : status = some claim)
      (href : References C.numbers claim reference) (hv : Verified C claims v reference)
      (hverified : .verified load v ∈ after ++ before) (hreleased : .released load ∈ after)
      (hbefore : .released load ∉ before)
  /-- by the cache, from a verification before the check began -/
  | cached {claim reference load v claims} (hstatus : status = some claim)
      (href : References C.numbers claim reference) (hv : Verified C claims v reference)
      (hverified : .verified load v ∈ before) (hfresh : Fresh C claims v now)

/-- A valid decision on a check is established by what happened before. -/
def Established (C : Checker Cert Key PublicKey ν β) (history : List (Event ν)) (check : ℕ) :
    Prop :=
  ∃ after before status statusRequired now,
    history = after ++ .began check status statusRequired now :: before ∧
      Rests C status statusRequired now after before

/-- Every valid decision is established by what happened before. -/
def Sound (C : Checker Cert Key PublicKey ν β) (history : List (Event ν)) : Prop :=
  ∀ later check before, history = later ++ .decided check .valid :: before →
    Established C before check

theorem Sound.cons {history : List (Event ν)} {e : Event ν} (h : Sound C history)
    (he : ∀ check, e = .decided check .valid → Established C history check) :
    Sound C (e :: history) := by
  intro later check before heq
  cases later with
  | nil =>
    rw [List.nil_append, List.cons.injEq] at heq
    obtain ⟨rfl, rfl⟩ := heq
    exact he check rfl
  | cons e' later =>
    rw [List.cons_append, List.cons.injEq] at heq
    exact h later check before heq.2

/-- Only an entry that is `VALID` gives a valid decision. -/
theorem decideFromList_eq_valid {statusList : VerifiedStatusList} {reference : StatusListReference}
    (h : decideFromList C statusList reference = .valid) :
    EntryIs C.inflateSync statusList.lst statusList.bits reference.idx CREDENTIAL_STATUS_VALID := by
  unfold decideFromList at h
  split at h
  · cases h
  · cases h
  · next status hfound =>
    have hvalid : status = CREDENTIAL_STATUS_VALID := by
      unfold decideFromStatusValue at h
      split at h
      · assumption
      · split at h
        · cases h
        · split at h <;> cases h
    exact hvalid ▸ readStatusListEntry_eq_found hfound

/-! ### The invariant -/

/-- The invariant of the checker. -/
structure Inv (C : Checker Cert Key PublicKey ν β) (s : State ν β) : Prop where
  /-- every verification was one -/
  genuine : ∀ load v, .verified load v ∈ s.history →
    ∃ claims, TokenVerified C.toStatusVerifier v.token v.uri v.now.ms claims v.statusList
  /-- the cache holds what was verified -/
  cached : ∀ uri entry, (uri, entry) ∈ s.cache →
    ∃ load v, .verified load v ∈ s.history ∧ v.uri = uri ∧ entry = State.cachedStatusList C v
  ended : ∀ load uri statusList, s.loads load = some ⟨uri, .settled (.ok statusList)⟩ ∨
    s.loads load = some ⟨uri, .released (.ok statusList)⟩ →
      ∃ v, .verified load v ∈ s.history ∧ v.uri = uri ∧ v.statusList = statusList
  inFlight : ∀ uri load, s.inFlight uri = some load →
    (∃ phase, s.loads load = some ⟨uri, phase⟩) ∧ .released load ∉ s.history
  /-- a load is released once -/
  released : ∀ load uri result, s.loads load = some ⟨uri, .released result⟩ →
    .released load ∈ s.history
  /-- the next load is a new one -/
  fresh : ∀ load, s.nextLoad ≤ load → s.loads load = none ∧ .released load ∉ s.history
  waiting : ∀ check w, s.waiting check = some w → ∃ phase after before claim statusRequired now,
    s.loads w.load = some ⟨w.reference.uri, phase⟩ ∧
      s.history = after ++ .began check (some claim) statusRequired now :: before ∧
      References C.numbers claim w.reference ∧ .released w.load ∉ before
  sound : Sound C s.history

/-! ### What the cache gives -/

namespace StatusListCache

theorem mem_of_mem_get {entries : StatusListCache} {uri : String} {now : Instant}
    {m : String × CachedStatusList} (h : m ∈ (get entries uri now).2) : m ∈ entries := by
  unfold get at h
  split at h
  · exact h
  · next entry hentry =>
    split at h
    · exact (List.mem_filter.mp h).1
    · rcases List.mem_append.mp h with h | h
      · exact (List.mem_filter.mp h).1
      · rw [List.mem_singleton.mp h]
        exact Json.mem_of_lookup_eq_some hentry

theorem get_eq_some {entries : StatusListCache} {uri : String} {now : Instant}
    {entry : CachedStatusList} (h : (get entries uri now).1 = some entry) :
    (uri, entry) ∈ entries ∧ (now.ms : ℚ) < entry.expiresAtMs := by
  unfold get at h
  split at h
  · cases h
  · next entry' hentry =>
    split at h
    · cases h
    · next hexpires =>
      cases h
      exact ⟨Json.mem_of_lookup_eq_some hentry, not_le.mp hexpires⟩

theorem mem_of_mem_set {entries : StatusListCache} {maxEntries : ℕ} {uri : String}
    {entry : CachedStatusList} {now : Instant} {m : String × CachedStatusList}
    (h : m ∈ set entries maxEntries uri entry now) : m ∈ entries ∨ m = (uri, entry) := by
  unfold set at h
  split at h
  · exact .inl h
  · rcases List.mem_append.mp (List.mem_of_mem_drop h) with h | h
    · exact .inl (List.mem_filter.mp h).1
    · exact .inr (List.mem_singleton.mp h)

end StatusListCache

/-! ### What each change keeps -/

section Changes

variable {s : State ν β}

/-- Something that is neither a verification nor the release of a load happens. -/
theorem Inv.push {e : Event ν} (h : Inv C s) (hverified : ∀ load v, e ≠ .verified load v)
    (hreleased : ∀ load, e ≠ .released load)
    (hdecided : ∀ check, e = .decided check .valid → Established C s.history check) :
    Inv C { s with history := e :: s.history } := by
  have hmem (load : ℕ) : .released load ∉ s.history → .released load ∉ e :: s.history := by
    intro hnot hin
    rcases List.mem_cons.mp hin with heq | hin
    · exact hreleased load heq.symm
    · exact hnot hin
  refine ⟨fun load v hin ↦ ?_, fun uri entry hin ↦ ?_, fun load uri list hl ↦ ?_,
    fun uri load hl ↦ ?_, fun load uri result hl ↦ ?_, fun load hl ↦ ?_, fun check w hw ↦ ?_,
    h.sound.cons hdecided⟩
  · rcases List.mem_cons.mp hin with heq | hin
    · exact absurd heq.symm (hverified load v)
    · exact h.genuine load v hin
  · obtain ⟨load, v, hv, huri, hentry⟩ := h.cached uri entry hin
    exact ⟨load, v, List.mem_cons_of_mem _ hv, huri, hentry⟩
  · obtain ⟨v, hv, huri, hlist⟩ := h.ended load uri list hl
    exact ⟨v, List.mem_cons_of_mem _ hv, huri, hlist⟩
  · exact ⟨(h.inFlight uri load hl).1, hmem load (h.inFlight uri load hl).2⟩
  · exact List.mem_cons_of_mem _ (h.released load uri result hl)
  · exact ⟨(h.fresh load hl).1, hmem load (h.fresh load hl).2⟩
  · obtain ⟨phase, after, before, claim, statusRequired, now, hload, hhistory, href, hbefore⟩ :=
      h.waiting check w hw
    refine ⟨phase, e :: after, before, claim, statusRequired, now, hload, ?_, href, hbefore⟩
    rw [List.cons_append, ← hhistory]

/-- A check ends, validly only where that is established. -/
theorem Inv.decide {check : ℕ} {decision : CredentialStatusDecision} (h : Inv C s)
    (hdecision : decision = .valid → Established C s.history check) :
    Inv C (s.decide check decision) := by
  refine h.push (fun _ _ ↦ nofun) (fun _ ↦ nofun) fun check' heq ↦ ?_
  cases heq
  exact hdecision rfl

theorem Inv.setCache {cache : StatusListCache} (h : Inv C s)
    (hcache : ∀ uri entry, (uri, entry) ∈ cache →
      ∃ load v, .verified load v ∈ s.history ∧ v.uri = uri ∧ entry = State.cachedStatusList C v) :
    Inv C { s with cache } :=
  ⟨h.genuine, hcache, h.ended, h.inFlight, h.released, h.fresh, h.waiting, h.sound⟩

/-- The breaker does not matter. -/
theorem Inv.setBreaker (h : Inv C s) (breaker : β) : Inv C { s with breaker } :=
  ⟨h.genuine, h.cached, h.ended, h.inFlight, h.released, h.fresh, h.waiting, h.sound⟩

/-- A load that is not released goes on to a phase in which it is not either. -/
theorem Inv.setPhase {id : ℕ} {uri : String} {old phase : Phase} (h : Inv C s)
    (hold : s.loads id = some ⟨uri, old⟩) (hphase : ∀ result, phase ≠ .released result)
    (hended : ∀ statusList, phase = .settled (.ok statusList) →
      ∃ v, .verified id v ∈ s.history ∧ v.uri = uri ∧ v.statusList = statusList) :
    Inv C (s.setPhase id uri phase) := by
  -- a load keeps its list
  have hkeeps {load : ℕ} {uri' : String} {p : Phase} (hl : s.loads load = some ⟨uri', p⟩) :
      ∃ p', (s.setPhase id uri phase).loads load = some ⟨uri', p'⟩ := by
    by_cases hid : load = id
    · subst hid
      rw [hold] at hl
      cases hl
      exact ⟨phase, s.setPhase_loads_self load uri phase⟩
    · exact ⟨p, (s.setPhase_loads_of_ne uri phase hid).trans hl⟩
  have hcases {load : ℕ} {l : Load} (hl : (s.setPhase id uri phase).loads load = some l) :
      load = id ∧ l = ⟨uri, phase⟩ ∨ load ≠ id ∧ s.loads load = some l := by
    by_cases hid : load = id
    · subst hid
      rw [State.setPhase_loads_self] at hl
      exact .inl ⟨rfl, (Option.some.inj hl).symm⟩
    · rw [State.setPhase_loads_of_ne _ _ _ hid] at hl
      exact .inr ⟨hid, hl⟩
  refine ⟨h.genuine, h.cached, fun load uri' list hl ↦ ?_, fun uri' load hl ↦ ?_,
    fun load uri' result hl ↦ ?_, fun load hl ↦ ?_, fun check w hw ↦ ?_, h.sound⟩
  · rcases hl with hl | hl
    · rcases hcases hl with ⟨rfl, heq⟩ | ⟨-, hl⟩
      · cases heq
        exact hended list rfl
      · exact h.ended load uri' list (.inl hl)
    · rcases hcases hl with ⟨rfl, heq⟩ | ⟨-, hl⟩
      · cases heq
        exact absurd rfl (hphase _)
      · exact h.ended load uri' list (.inr hl)
  · obtain ⟨⟨p, hl'⟩, hnot⟩ := h.inFlight uri' load hl
    exact ⟨hkeeps hl', hnot⟩
  · rcases hcases hl with ⟨rfl, heq⟩ | ⟨-, hl⟩
    · cases heq
      exact absurd rfl (hphase _)
    · exact h.released load uri' result hl
  · have hid : load ≠ id := by
      rintro rfl
      rw [(h.fresh load hl).1] at hold
      cases hold
    rw [State.setPhase_loads_of_ne _ _ _ hid]
    exact h.fresh load hl
  · obtain ⟨p, after, before, claim, statusRequired, now, hload, hrest⟩ := h.waiting check w hw
    obtain ⟨p', hload'⟩ := hkeeps hload
    exact ⟨p', after, before, claim, statusRequired, now, hload', hrest⟩

/-- `fetchAndVerify` fails. -/
theorem Inv.failLoad {id : ℕ} {uri : String} {old : Phase} (h : Inv C s)
    (hold : s.loads id = some ⟨uri, old⟩) (reason : CredentialStatusRejectionReason)
    (now : Instant) : Inv C (s.failLoad C id uri reason now) := by
  have hphase : Inv C (s.setPhase id uri (.settled (.error reason))) :=
    h.setPhase hold (fun _ ↦ nofun) fun _ ↦ nofun
  exact hphase.setBreaker _

theorem Inv.verify {id : ℕ} {v : Verification} (h : Inv C s)
    (hv : ∃ claims, TokenVerified C.toStatusVerifier v.token v.uri v.now.ms claims v.statusList) :
    Inv C { s with history := .verified id v :: s.history } := by
  have hmem (load : ℕ) : .released load ∉ s.history → .released load ∉ .verified id v :: s.history :=
    fun hnot hin ↦ hnot (by simpa using hin)
  refine ⟨fun load v' hin ↦ ?_, fun uri entry hin ↦ ?_, fun load uri list hl ↦ ?_,
    fun uri load hl ↦ ⟨(h.inFlight uri load hl).1, hmem load (h.inFlight uri load hl).2⟩,
    fun load uri result hl ↦ List.mem_cons_of_mem _ (h.released load uri result hl),
    fun load hl ↦ ⟨(h.fresh load hl).1, hmem load (h.fresh load hl).2⟩, fun check w hw ↦ ?_,
    h.sound.cons fun _ ↦ nofun⟩
  · rcases List.mem_cons.mp hin with heq | hin
    · cases heq
      exact hv
    · exact h.genuine load v' hin
  · obtain ⟨load, v', hv', huri, hentry⟩ := h.cached uri entry hin
    exact ⟨load, v', List.mem_cons_of_mem _ hv', huri, hentry⟩
  · obtain ⟨v', hv', huri, hlist⟩ := h.ended load uri list hl
    exact ⟨v', List.mem_cons_of_mem _ hv', huri, hlist⟩
  · obtain ⟨phase, after, before, claim, statusRequired, now, hload, hhistory, href, hbefore⟩ :=
      h.waiting check w hw
    refine ⟨phase, .verified id v :: after, before, claim, statusRequired, now, hload, ?_, href,
      hbefore⟩
    rw [List.cons_append, ← hhistory]

/-- `fetchAndVerify` ends with a verified list. -/
theorem Inv.finishLoad {id : ℕ} {v : Verification} {old : Phase} (h : Inv C s)
    (hold : s.loads id = some ⟨v.uri, old⟩)
    (hv : ∃ claims, TokenVerified C.toStatusVerifier v.token v.uri v.now.ms claims v.statusList)
    (cacheNow : Instant) : Inv C (s.finishLoad C id v cacheNow) := by
  have hverified : Inv C { s with history := .verified id v :: s.history } := h.verify hv
  have hphase : Inv C (State.setPhase { s with history := .verified id v :: s.history } id v.uri
      (.settled (.ok v.statusList))) := by
    refine hverified.setPhase hold (fun _ ↦ nofun) fun statusList heq ↦ ?_
    cases heq
    exact ⟨v, List.mem_cons_self, rfl, rfl⟩
  refine (hphase.setBreaker (C.breaker.recordSuccess s.breaker v.uri)).setCache
    fun uri entry hin ↦ ?_
  split at hin
  · rcases StatusListCache.mem_of_mem_set hin with hin | heq
    · exact hphase.cached uri entry hin
    · cases heq
      exact ⟨id, v, List.mem_cons_self, rfl, rfl⟩
  · exact hphase.cached uri entry hin

/-- A settled load leaves the ones in flight. -/
theorem Inv.release {id : ℕ} {uri : String} {result : StatusListLoad} (h : Inv C s)
    (hold : s.loads id = some ⟨uri, .settled result⟩) :
    Inv C { s.setPhase id uri (.released result) with
      inFlight := Function.update s.inFlight uri none
      history := .released id :: s.history } := by
  have hkeeps {load : ℕ} {uri' : String} {p : Phase} (hl : s.loads load = some ⟨uri', p⟩) :
      ∃ p', (s.setPhase id uri (.released result)).loads load = some ⟨uri', p'⟩ := by
    by_cases hid : load = id
    · subst hid
      rw [hold] at hl
      cases hl
      exact ⟨_, s.setPhase_loads_self load uri _⟩
    · exact ⟨p, (s.setPhase_loads_of_ne uri _ hid).trans hl⟩
  refine ⟨fun load v hin ↦ h.genuine load v (by simpa using hin), fun uri' entry hin ↦ ?_,
    fun load uri' list hl ↦ ?_, fun uri' load hl ↦ ?_, fun load uri' result' hl ↦ ?_,
    fun load hl ↦ ?_, fun check w hw ↦ ?_, h.sound.cons fun _ ↦ nofun⟩
  · obtain ⟨load, v, hv, huri, hentry⟩ := h.cached uri' entry hin
    exact ⟨load, v, List.mem_cons_of_mem _ hv, huri, hentry⟩
  · have hsettled : s.loads load = some ⟨uri', .settled (.ok list)⟩ ∨
        s.loads load = some ⟨uri', .released (.ok list)⟩ := by
      by_cases hid : load = id
      · subst hid
        dsimp only at hl
        rw [State.setPhase_loads_self] at hl
        rcases hl with heq | heq <;> cases heq
        exact .inl hold
      · dsimp only at hl
        rwa [State.setPhase_loads_of_ne _ _ _ hid] at hl
    obtain ⟨v, hv, huri, hlist⟩ := h.ended load uri' list hsettled
    exact ⟨v, List.mem_cons_of_mem _ hv, huri, hlist⟩
  · have huri : uri' ≠ uri := by
      rintro rfl
      simp at hl
    dsimp only at hl
    rw [Function.update_of_ne huri] at hl
    obtain ⟨⟨p, hload⟩, hnot⟩ := h.inFlight uri' load hl
    refine ⟨hkeeps hload, fun hin ↦ ?_⟩
    rcases List.mem_cons.mp hin with heq | hin
    · cases heq
      rw [hold] at hload
      cases hload
      exact huri rfl
    · exact hnot hin
  · by_cases hid : load = id
    · rw [hid]
      exact List.mem_cons_self
    · dsimp only at hl
      rw [State.setPhase_loads_of_ne _ _ _ hid] at hl
      exact List.mem_cons_of_mem _ (h.released load uri' result' hl)
  · have hid : load ≠ id := by
      rintro rfl
      rw [(h.fresh load hl).1] at hold
      cases hold
    refine ⟨(s.setPhase_loads_of_ne uri _ hid).trans (h.fresh load hl).1, fun hin ↦ ?_⟩
    rcases List.mem_cons.mp hin with heq | hin
    · cases heq
      exact hid rfl
    · exact (h.fresh load hl).2 hin
  · obtain ⟨p, after, before, claim, statusRequired, now, hload, hhistory, href, hbefore⟩ :=
      h.waiting check w hw
    obtain ⟨p', hload'⟩ := hkeeps hload
    refine ⟨p', .released id :: after, before, claim, statusRequired, now, hload', ?_, href,
      hbefore⟩
    rw [List.cons_append, ← hhistory]

theorem Inv.resume {check load : ℕ} {reference : StatusListReference} {uri : String}
    {result : StatusListLoad} (h : Inv C s) (hw : s.waiting check = some ⟨reference, load⟩)
    (hload : s.loads load = some ⟨uri, .released result⟩) :
    Inv C (s.resume C check reference result) := by
  have hwaiting : Inv C { s with waiting := Function.update s.waiting check none } := by
    refine ⟨h.genuine, h.cached, h.ended, h.inFlight, h.released, h.fresh, fun check' w hw' ↦ ?_,
      h.sound⟩
    have hne : check' ≠ check := by
      rintro rfl
      simp at hw'
    dsimp only at hw'
    rw [Function.update_of_ne hne] at hw'
    exact h.waiting check' w hw'
  refine hwaiting.decide fun hvalid ↦ ?_
  cases result with
  | error reason => cases hvalid
  | ok statusList =>
    obtain ⟨p, after, before, claim, statusRequired, now, hload', hhistory, href, hbefore⟩ :=
      h.waiting check _ hw
    obtain rfl : uri = reference.uri := by
      rw [hload] at hload'
      cases hload'
      rfl
    obtain ⟨v, hv, huri, rfl⟩ := h.ended load _ statusList (.inr hload)
    obtain ⟨claims, htoken⟩ := h.genuine load v hv
    have hreleased := h.released load _ _ hload
    rw [hhistory] at hv hreleased
    have hafter : .released load ∈ after := by
      rcases List.mem_append.mp hreleased with hin | hin
      · exact hin
      · exact absurd (by simpa using hin) hbefore
    have hverified : .verified load v ∈ after ++ before := by simpa using hv
    exact ⟨after, before, some claim, statusRequired, now, hhistory,
      .loaded rfl href ⟨huri, htoken, decideFromList_eq_valid hvalid⟩ hverified hafter hbefore⟩

/-- A check joins a load in flight, or starts one. -/
theorem Inv.loadStatusList {check : ℕ} {reference : StatusListReference} {claim : Value ν}
    {statusRequired : Bool} {now : Instant} {before : List (Event ν)} (h : Inv C s)
    (hhistory : s.history = .began check (some claim) statusRequired now :: before)
    (href : References C.numbers claim reference) :
    Inv C (s.loadStatusList check reference) := by
  have hbefore {load : ℕ} (hnot : .released load ∉ s.history) : .released load ∉ before :=
    fun hin ↦ hnot (hhistory ▸ List.mem_cons_of_mem _ hin)
  unfold State.loadStatusList
  split
  · next load hload =>
    obtain ⟨⟨p, hl⟩, hnot⟩ := h.inFlight _ _ hload
    refine ⟨h.genuine, h.cached, h.ended, h.inFlight, h.released, h.fresh, fun check' w hw ↦ ?_,
      h.sound⟩
    by_cases hcheck : check' = check
    · subst hcheck
      dsimp only at hw
      rw [Function.update_self] at hw
      cases hw
      exact ⟨p, [], before, claim, statusRequired, now, hl, hhistory, href, hbefore hnot⟩
    · dsimp only at hw
      rw [Function.update_of_ne hcheck] at hw
      exact h.waiting check' w hw
  · next hnone =>
    obtain ⟨hnew, hnot⟩ := h.fresh s.nextLoad le_rfl
    have hne {load : ℕ} {l : Load} (hl : s.loads load = some l) : load ≠ s.nextLoad := by
      rintro rfl
      rw [hnew] at hl
      cases hl
    have hold {load : ℕ} {l : Load} (hl : s.loads load = some l) :
        (s.setPhase s.nextLoad reference.uri .fetching).loads load = some l :=
      (s.setPhase_loads_of_ne _ _ (hne hl)).trans hl
    have hcases {load : ℕ} {l : Load}
        (hl : (s.setPhase s.nextLoad reference.uri .fetching).loads load = some l)
        (hphase : l.phase ≠ .fetching) : s.loads load = some l := by
      by_cases hid : load = s.nextLoad
      · rw [hid, State.setPhase_loads_self] at hl
        cases hl
        exact absurd rfl hphase
      · rwa [State.setPhase_loads_of_ne _ _ _ hid] at hl
    refine ⟨h.genuine, h.cached, fun load uri list hl ↦ ?_, fun uri load hl ↦ ?_,
      fun load uri result hl ↦ h.released load uri result (hcases hl nofun), fun load hl ↦ ?_,
      fun check' w hw ↦ ?_, h.sound⟩
    · rcases hl with hl | hl
      · exact h.ended load uri list (.inl (hcases hl nofun))
      · exact h.ended load uri list (.inr (hcases hl nofun))
    · by_cases huri : uri = reference.uri
      · subst huri
        dsimp only at hl
        rw [Function.update_self] at hl
        cases hl
        exact ⟨⟨.fetching, s.setPhase_loads_self _ _ _⟩, hnot⟩
      · dsimp only at hl
        rw [Function.update_of_ne huri] at hl
        obtain ⟨⟨p, hload⟩, hnot'⟩ := h.inFlight uri load hl
        exact ⟨⟨p, hold hload⟩, hnot'⟩
    · have hlt : s.nextLoad < load := hl
      obtain ⟨hnone', hnot'⟩ := h.fresh load hlt.le
      exact ⟨(s.setPhase_loads_of_ne _ _ hlt.ne').trans hnone', hnot'⟩
    · by_cases hcheck : check' = check
      · subst hcheck
        dsimp only at hw
        rw [Function.update_self] at hw
        cases hw
        exact ⟨.fetching, [], before, claim, statusRequired, now, s.setPhase_loads_self _ _ _,
          hhistory, href, hbefore hnot⟩
      · dsimp only at hw
        rw [Function.update_of_ne hcheck] at hw
        obtain ⟨p, after, before', claim', required', now', hload, hrest⟩ := h.waiting check' w hw
        exact ⟨p, after, before', claim', required', now', hold hload, hrest⟩

/-- A check up to its first await. -/
theorem Inv.resolveCredentialStatus {check : ℕ} {status : Option (Value ν)}
    {statusRequired : Bool} {now : Instant} {before : List (Event ν)} (h : Inv C s)
    (hhistory : s.history = .began check status statusRequired now :: before)
    (breakerNow probeNow : Instant) :
    Inv C (s.resolveCredentialStatus C check status statusRequired now breakerNow probeNow) := by
  have habsent (hstatus : status = none ∨ status = some .null) :
      Inv C (s.decide check
        (if statusRequired then .rejected .statusRequiredButAbsent else .valid)) := by
    refine h.decide fun hvalid ↦ ?_
    cases statusRequired with
    | true => cases hvalid
    | false => exact ⟨[], before, status, false, now, hhistory, .absent hstatus rfl⟩
  unfold State.resolveCredentialStatus
  split
  · exact habsent (.inl rfl)
  · exact habsent (.inr rfl)
  · next claim hnull =>
    split
    · exact h.decide nofun
    · next reference hparse =>
      have href := references_of_parse hparse
      split
      · exact h.decide nofun
      · split
        · next entry cache hget =>
          have hcache : Inv C { s with cache } := by
            refine h.setCache fun uri entry' hin ↦ h.cached uri entry' ?_
            exact StatusListCache.mem_of_mem_get (by rw [hget]; exact hin)
          refine hcache.decide fun hvalid ↦ ?_
          obtain ⟨hmem, hlt⟩ := StatusListCache.get_eq_some (congrArg Prod.fst hget)
          obtain ⟨load, v, hv, huri, rfl⟩ := h.cached _ _ hmem
          obtain ⟨claims, htoken⟩ := h.genuine load v hv
          have hverified : .verified load v ∈ before := by
            rw [hhistory] at hv
            simpa using hv
          exact ⟨[], before, some claim, statusRequired, now, hhistory,
            .cached rfl href ⟨huri, htoken, decideFromList_eq_valid hvalid⟩ hverified
              (fresh_of_lt htoken hlt)⟩
        · next cache hget =>
          have hcache : Inv C { s with cache } := by
            refine h.setCache fun uri entry' hin ↦ h.cached uri entry' ?_
            exact StatusListCache.mem_of_mem_get (by rw [hget]; exact hin)
          split
          · exact (hcache.setBreaker _).decide nofun
          · exact (hcache.setBreaker _).loadStatusList hhistory href

end Changes

/-! ### Every run -/

variable [DecidableEq ν]

/-- The invariant holds at first, and every action keeps it. -/
theorem inv_invariant : (checkerSystem C).Invariant (Inv C) where
  initial s hs := by
    cases hs
    have hnone : ∀ e : Event ν, e ∉ [] := fun _ ↦ List.not_mem_nil
    refine ⟨fun _ _ h ↦ absurd h (hnone _), fun _ _ h ↦ absurd h List.not_mem_nil,
      fun _ _ _ ↦ nofun, nofun, nofun, fun _ _ ↦ ⟨rfl, hnone _⟩, nofun, ?_⟩
    intro later check before heq
    simp at heq
  step s a t h ht := by
    cases a with
    | check status statusRequired now breakerNow probeNow =>
      cases ht
      have hbegan := h.push (e := .began s.nextCheck status statusRequired now) (fun _ _ ↦ nofun)
        (fun _ ↦ nofun) fun _ ↦ nofun
      have hnumbered : Inv C { s with
          nextCheck := s.nextCheck + 1
          history := .began s.nextCheck status statusRequired now :: s.history } :=
        ⟨hbegan.genuine, hbegan.cached, hbegan.ended, hbegan.inFlight, hbegan.released,
          hbegan.fresh, hbegan.waiting, hbegan.sound⟩
      exact hnumbered.resolveCredentialStatus rfl breakerNow probeNow
    | fetched load token now =>
      simp only [checkerSystem, step] at ht
      split at ht
      · next uri hload =>
        cases ht
        exact h.failLoad hload _ now
      · next uri token hload =>
        cases ht
        exact h.setPhase hload (fun _ ↦ nofun) fun _ ↦ nofun
      · cases ht
    | verified load now cacheNow =>
      simp only [checkerSystem, step] at ht
      split at ht
      · next uri token startedAt hload =>
        split at ht
        · cases ht
          exact h.failLoad hload _ now
        · next statusList hverify =>
          cases ht
          exact h.finishLoad hload (tokenVerified_of_verifyStatusListToken hverify) cacheNow
      · cases ht
    | released load =>
      simp only [checkerSystem, step] at ht
      split at ht
      · next uri result hload =>
        cases ht
        exact h.release hload
      · cases ht
    | resumed check =>
      simp only [checkerSystem, step] at ht
      split at ht
      · cases ht
      · next reference load hw =>
        split at ht
        · next uri result hload =>
          cases ht
          exact h.resume hw hload
        · cases ht

/-- In every run, each decision is a rejection, or it is established: the credential has no status
and needs none; or a token for its URI was verified by a load that was in flight after the check
began; or one was verified before, and is no older than the ceiling, its `ttl` and its `exp` allow.
The list has `VALID` at the index of the credential. -/
theorem decisions_established {s : State ν β} (hs : (checkerSystem C).Reachable s) {check : ℕ}
    {decision : CredentialStatusDecision} {later before : List (Event ν)}
    (h : s.history = later ++ .decided check decision :: before) :
    (∃ reason, decision = .rejected reason) ∨
      decision = .valid ∧ Established C before check := by
  cases decision with
  | rejected reason => exact .inl ⟨reason, rfl⟩
  | valid => exact .inr ⟨rfl, (inv_invariant.reachable hs).sound later check before h⟩

theorem exists_run_of_verify {s : State ν β} {load check : ℕ} {uri token : String}
    {startedAt now cacheNow : Instant} {statusList : VerifiedStatusList}
    {reference : StatusListReference}
    (hload : s.loads load = some ⟨uri, .verifying token startedAt⟩)
    (hwaiting : s.waiting check = some ⟨reference, load⟩)
    (hverify : verifyStatusListToken C.toStatusVerifier token uri startedAt.ms = .ok statusList) :
    ∃ t, Run (step C) s [.verified load now cacheNow, .released load, .resumed check] t ∧
      t.history = .decided check (decideFromList C statusList reference) :: .released load ::
        .verified load ⟨uri, token, startedAt, now, statusList⟩ :: s.history := by
  have hverified : step C s (.verified load now cacheNow) =
      some (s.finishLoad C load ⟨uri, token, startedAt, now, statusList⟩ cacheNow) := by
    simp only [step, hload, hverify]
  have hsettled : (s.finishLoad C load ⟨uri, token, startedAt, now, statusList⟩ cacheNow).loads
      load = some ⟨uri, .settled (.ok statusList)⟩ := s.setPhase_loads_self load uri _
  exact ⟨_, .cons hverified (.cons (by simp only [step, hsettled]; rfl)
    (.cons (by simp only [step, hwaiting, State.setPhase, State.finishLoad,
      Function.update_self]; rfl) (.nil _))), rfl⟩

/-! ### A sample -/

namespace SampleStatus

/-- The protected header of the token: `ES256`, and the chain of a leaf. -/
def headerSegment : String :=
  ("eyJhbGciOiJFUzI1NiIsInR5cCI6InN0YXR1c2xpc3Qrand0IiwieDVjIjpbIk1Db3dLQUlCQkRBQU1BRURNQUF3QVFRd0" ++
  "JUQURCZ0Vxb3hJd0VEQU9CZ05WSFE4QkFmOEVCQU1DQjRBPSJdfQ")

/-- What the header says. -/
def header : List (String × Value ℚ) :=
  [("alg", .str "ES256"), ("typ", .str "statuslist+jwt"),
    ("x5c", .arr [.str "MCowKAIBBDAAMAEDMAAwAQQwBTADBgEqoxIwEDAOBgNVHQ8BAf8EBAMCB4A="])]

/-- A list of eight entries of one bit that expires at once. -/
def claims : List (String × Value ℚ) :=
  [("iss", .str "https://a.example"), ("sub", .str "https://a.example/1"), ("iat", .num 0),
    ("exp", .num 0), ("status_list", .obj [("bits", .num 1), ("lst", .str "eJxjAAAAAQAB")])]

def token : String :=
  headerSegment ++
    (".eyJpc3MiOiJodHRwczovL2EuZXhhbXBsZSIsInN1YiI6Imh0dHBzOi8vYS5leGFtcGxlLzEiLCJpYX" ++
      "QiOjAsImV4cCI6MCwic3RhdHVzX2xpc3QiOnsiYml0cyI6MSwibHN0IjoiZUp4akFBQUFBUUFCIn19.") ++
    String.ofList (List.replicate 86 'A')

/-- A checker that tolerates a skew of a minute. -/
def checker : Checker SampleCertificate SampleCertificate Unit ℚ Unit where
  numbers := ⟨some, id, monotone_id, fun _ _ ↦ rfl⟩
  crypto := sampleCrypto
  anchors := [.lower]
  clockToleranceSeconds := some 60
  parseSegment segment := if segment = headerSegment.toList then some (.obj header) else none
  importPublicSigningKey pem := if pem = "PEM" then some () else none
  verifyWithHeader jws _ now _ :=
    if jws = token ∧ now < 60000 then some (claims, header) else none
  parseUrl url :=
    if url ∈ ["https://a.example", "https://a.example/1"] then some ("https:", "a.example") else none
  checkHost _ host := host = "a.example"
  signersFor _ := []
  passesIssuerRegistry _ := true
  permits uri := uri = "https://a.example/1"
  maxEntries := 256
  breaker := ALWAYS_CLOSED_STATUS_ENDPOINT_BREAKER
  configuredMaxCacheTtlSeconds := none
  inflateSync _ bytes := if bytes = [120, 156, 99, 0, 0, 0, 1, 0, 1] then some [0] else none

/-- A status whose URI has a blank before it. -/
def status : Value ℚ :=
  .obj [("status_list", .obj [("idx", .num 3), ("uri", .str " https://a.example/1")])]

/-- The instant of everything that happens. -/
def now : Instant := ⟨900, by decide⟩

/-- A check, and the load that it starts. -/
def actions : List (Action ℚ) :=
  [.check (some status) true now now now, .fetched 0 (some token) now, .verified 0 now now,
    .released 0, .resumed 0]

def verification : Verification :=
  ⟨"https://a.example/1", token, now, now, ⟨1, "eJxjAAAAAQAB", "https://a.example", none, some 0⟩⟩

/-- What happens until the check is decided. -/
def before : List (Event ℚ) :=
  [.released 0, .verified 0 verification, .began 0 (some status) true now]

theorem exists_segments : ∃ encoded claims : List Char,
    headerSegment.toList = encoded ∧
    token.toList = encoded ++ '.' :: (claims ++ '.' :: List.replicate 86 'A') ∧
    ('.' ∉ encoded ∧ encoded ≠ [] ∧ encoded.all isBase64Url = true ∧
      (encoded.map fun c ↦ if c.val < 65536 then 1 else 2).sum ≤ MAX_PROTECTED_HEADER_LENGTH) ∧
    '.' ∉ claims ∧ token.toList.length ≤ 500 := by
  -- the text of each literal, without running `toList`
  obtain ⟨h, h', hheader, hencoded⟩ : ∃ h h' : List Char, headerSegment.toList = h ++ h' ∧
      ('.' ∉ h ++ h' ∧ h ++ h' ≠ [] ∧ (h ++ h').all isBase64Url = true ∧
        ((h ++ h').map fun c ↦ if c.val < 65536 then 1 else 2).sum ≤
          MAX_PROTECTED_HEADER_LENGTH) ∧ (h ++ h').length ≤ 200 :=
    ⟨_, _, String.toList_append.trans (congrArg₂ _ String.toList_ofList String.toList_ofList),
      by decide +kernel⟩
  obtain ⟨c, c', htoken, hclaims⟩ : ∃ c c' : List Char,
      token.toList = h ++ h' ++ ('.' :: c ++ c') ++ List.replicate 86 'A' ∧
        '.' ∉ c ++ c'.dropLast ∧ c' = c'.dropLast ++ ['.'] ∧ (c ++ c').length ≤ 200 :=
    ⟨_, _, String.toList_append.trans (congrArg₂ _ (String.toList_append.trans (congrArg₂ _ hheader
      (String.toList_append.trans (congrArg₂ _ String.toList_ofList String.toList_ofList))))
      String.toList_ofList), by decide +kernel⟩
  refine ⟨h ++ h', c ++ c'.dropLast, hheader, ?_, hencoded.1, hclaims.1, ?_⟩
  · rw [htoken]
    nth_rewrite 1 [hclaims.2.1]
    simp only [List.append_assoc, List.cons_append, List.nil_append]
  · have := hencoded.2
    have := hclaims.2.2
    simp only [htoken, List.length_append, List.length_cons, List.length_replicate] at *
    omega

theorem verifyStatusListToken_token : verifyStatusListToken checker.toStatusVerifier token
    "https://a.example/1" now.ms = .ok verification.statusList := by
  have hnow : ((now.ms : ℕ) : ℤ) = 900 := rfl
  obtain ⟨encoded, claims, hheader, htoken, ⟨hdot, hne, hall, hlength⟩, hclaims, hsize⟩ :=
    exists_segments
  have hempty : token ≠ "" := by
    intro h
    rw [h] at htoken
    simp at htoken
  have hbytes : ¬ MAX_STATUS_LIST_TOKEN_BYTES < token.utf8ByteSize := by
    have := Text.utf8ByteSize_le token
    rw [MAX_STATUS_LIST_TOKEN_BYTES]
    omega
  have hdecoded : decodeUnverifiedProtectedHeader checker.toStatusVerifier token = some header := by
    refine decodeUnverifiedProtectedHeader_of_segments htoken hdot hclaims (by decide) hne ?_ hall ?_
    · rw [Text.utf16Length, String.toList_ofList]
      exact hlength
    · exact if_pos hheader.symm
  have hchain : signingCertificate checker.toStatusVerifier header 900 = .ok (.leaf, "PEM") := by
    decide +kernel
  have hverified (jws : String) (h : jws = token) :
      checker.verifyWithHeader jws () 900 (some 60) = some (SampleStatus.claims, header) :=
    if_pos ⟨h, by decide⟩
  rw [hnow]
  simp only [verifyStatusListToken, bind_eq_ok_iff, refuseIf_eq_ok_iff, require_eq_ok_iff,
    Prod.exists]
  refine ⟨(), hempty, (), hbytes, header, hdecoded, (), by decide, .leaf, "PEM", hchain, (), rfl,
    SampleStatus.claims, header, hverified _ rfl, (), by decide, (), by decide, (),
    by decide, ?_⟩
  decide +kernel

/-- The check has started the first load. -/
def loading : State ℚ Unit where
  cache := []
  breaker := ()
  inFlight := Function.update (fun _ ↦ none) "https://a.example/1" (some 0)
  loads := Function.update (fun _ ↦ none) 0 (some ⟨"https://a.example/1", .fetching⟩)
  waiting := Function.update (fun _ ↦ none) 0 (some ⟨⟨3, "https://a.example/1"⟩, 0⟩)
  nextCheck := 1
  nextLoad := 1
  history := [.began 0 (some status) true now]

theorem step_check : step checker ⟨[], (), fun _ ↦ none, fun _ ↦ none, fun _ ↦ none, 0, 0, []⟩
    (.check (some status) true now now now) = some loading := by
  have hparse : parseStatusListReference checker.numbers status =
      some ⟨3, "https://a.example/1"⟩ := by decide
  have hnull : status ≠ .null := nofun
  rw [step, State.resolveCredentialStatus]
  · simp only [hparse]
    rfl
  · exact hnull

theorem exists_run : ∃ s, (checkerSystem checker).Reachable s ∧
    s.history = .decided 0 .valid :: before := by
  have hdecide : decideFromList checker verification.statusList ⟨3, "https://a.example/1"⟩ =
      .valid := by decide
  have hfetched : step checker loading (.fetched 0 (some token) now) =
      some (loading.setPhase 0 "https://a.example/1" (.verifying token now)) := rfl
  have hload := loading.setPhase_loads_self 0 "https://a.example/1" (.verifying token now)
  obtain ⟨t, hrun, hhistory⟩ :=
    @exists_run_of_verify _ _ _ _ _ checker _ _ 0 0 _ _ _ now now _ _ hload rfl
      verifyStatusListToken_token
  rw [hdecide] at hhistory
  exact ⟨t, ⟨_, actions, rfl, .cons step_check (.cons hfetched hrun)⟩, hhistory⟩

end SampleStatus

open SampleStatus in
theorem decisions_established_sample : ∃ s, (checkerSystem checker).Reachable s ∧
    s.history = .decided 0 .valid :: SampleStatus.before ∧
    ((∃ reason, CredentialStatusDecision.valid = .rejected reason) ∨
      CredentialStatusDecision.valid = .valid ∧ Established checker SampleStatus.before 0) := by
  obtain ⟨s, hs, hhistory⟩ := exists_run
  have hlast : s.history = [] ++ .decided 0 .valid :: SampleStatus.before := hhistory
  exact ⟨s, hs, hhistory, decisions_established hs hlast⟩

open SampleStatus in
/-- A valid decision need not rest on a token for the URI as the credential has it, nor on one that
was verified before its `exp`. -/
theorem valid_trimmed_and_expired :
    (¬ ∀ s, (checkerSystem checker).Reachable s → ∀ check later before,
      s.history = later ++ .decided check .valid :: before →
        ∀ claim statusRequired now, .began check (some claim) statusRequired now ∈ before →
          ∀ uri, claim.at? ["status_list", "uri"] = some (.str uri) →
            ∃ load v, .verified load v ∈ before ∧ v.uri = uri) ∧
    ¬ ∀ s, (checkerSystem checker).Reachable s → ∀ check later before,
      s.history = later ++ .decided check .valid :: before →
        ∃ load v, .verified load v ∈ before ∧
          ∀ expiresAtMs, v.statusList.expiresAtMs = some expiresAtMs →
            (v.finishedAt.ms : ℚ) < expiresAtMs := by
  obtain ⟨s, hs, hhistory⟩ := exists_run
  constructor
  · intro h
    obtain ⟨load, v, hv, huri⟩ := h s hs 0 [] SampleStatus.before hhistory status true
      SampleStatus.now (by simp [SampleStatus.before]) " https://a.example/1" (by decide)
    simp only [SampleStatus.before, List.mem_cons, reduceCtorEq, false_or, Event.verified.injEq,
      List.not_mem_nil, or_false] at hv
    rw [hv.2] at huri
    exact absurd huri (by decide)
  · intro h
    obtain ⟨load, v, hv, hexp⟩ := h s hs 0 [] SampleStatus.before hhistory
    simp only [SampleStatus.before, List.mem_cons, reduceCtorEq, false_or, Event.verified.injEq,
      List.not_mem_nil, or_false] at hv
    rw [hv.2] at hexp
    exact absurd (hexp 0 rfl) (by decide)

end QAuth.Federation
