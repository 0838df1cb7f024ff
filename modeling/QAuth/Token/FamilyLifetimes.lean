import QAuth.Token.Rotation

/-!
# How long a family lasts

A rotation gives the next refresh token the realm's refresh lifetime from now, cut short by the end
of the family and, for a browser-based client, by the expiry of the token it replaces. The settings
and the client's registration are read anew at each rotation. The end of the browser session binds
the tokens of a realm that limits its sessions, and of no other.
-/

namespace QAuth.Token

open Guards Transition

variable {family next first : Family} {refresh : Refresh} {refreshes : List Refresh}

/-- The end of the presented token's family under the settings the refresh reads. -/
def Refresh.familyEnd (refresh : Refresh) (row : RefreshToken) : Option ℕ :=
  storedFamilyEnd refresh.ctx row

/-- The end of a family is at or before its session's end, and so long after its start at most as
the limit says. -/
theorem le_of_refreshFamilyEnd {createdAt limit familyEnd : ℕ} {sessionEnd : Option ℕ}
    (h : refreshFamilyEnd createdAt (some limit) sessionEnd = some familyEnd) :
    familyEnd ≤ createdAt + limit * 1000 ∧ ∀ e ∈ sessionEnd, familyEnd ≤ e := by
  rw [refreshFamilyEnd, Option.map_some, Option.some.injEq] at h
  cases sessionEnd with
  | none =>
    subst h
    exact ⟨Nat.le_refl _, nofun⟩
  | some sessionEnd =>
    subst h
    refine ⟨Nat.min_le_left _ _, fun e he ↦ ?_⟩
    obtain rfl := Option.some.inj he
    exact Nat.min_le_right _ _

theorem refreshTokenExpiresAt_le {now lifespan familyEnd : ℕ} :
    refreshTokenExpiresAt now lifespan (some familyEnd) ≤ familyEnd :=
  Nat.min_le_right _ _

theorem lt_refreshTokenExpiresAt {now lifespan : ℕ} {familyEnd : Option ℕ} (hpos : 0 < lifespan)
    (hend : ∀ e ∈ familyEnd, now < e) : now < refreshTokenExpiresAt now lifespan familyEnd := by
  cases familyEnd with
  | none =>
    rw [refreshTokenExpiresAt]
    omega
  | some familyEnd =>
    have := hend familyEnd rfl
    rw [refreshTokenExpiresAt]
    omega

theorem notEnded_of_checkRotation {ctx : HandlerContext} {body : RefreshBody}
    {reads : RefreshReads} {rotation : Rotation} (h : checkRotation ctx body reads = .ok rotation) :
    ∀ e ∈ storedFamilyEnd ctx rotation.stored, reads.now < e := by
  simp only [checkRotation, bind_eq_ok_iff, refuseIf_eq_ok_iff, require_eq_ok_iff,
    pure_eq_ok_iff] at h
  obtain ⟨-, -, stored, -, -, -, -, -, -, -, -, hended, -, -, -, -, -, -, -, -, -, -, -, -, -, -, -,
    -, -, -, rfl⟩ := h
  intro e he
  rw [Option.mem_def] at he
  simp only [refreshFamilyEnded, he, decide_eq_true_eq] at hended
  omega

theorem live_of_rotate (h : rotate family refresh = some next) :
    refresh.reads.now < family.row.expiresAt ∧
      ∀ e ∈ refresh.familyEnd family.row, refresh.reads.now < e := by
  unfold rotate at h
  split at h
  · cases h
  · rename_i data issued hhandle
    obtain ⟨rotation, hcheck, -, -⟩ := handleRefreshToken_eq_ok hhandle
    obtain ⟨hstored, -, -, hlive, -⟩ := checkRotation_eq_ok hcheck
    have hended := notEnded_of_checkRotation hcheck
    rw [← Option.some.inj hstored] at hlive hended
    exact ⟨hlive, hended⟩

theorem expiresAt_of_rotate (h : rotate family refresh = some next) :
    next.row.expiresAt = rotatedRefreshTokenExpiresAt refresh.reads.now
      refresh.ctx.tokenLifetimes.refreshTokenLifespanSeconds (refresh.familyEnd family.row)
      family.row.expiresAt (isBrowserBasedClient refresh.ctx.client) := by
  obtain ⟨-, -, -, -, scopes, -, rfl⟩ := rotate_eq_some h
  rfl

/-- A rotation keeps the start of the family and the end of its session. -/
theorem origin_of_rotate (h : rotate family refresh = some next) :
    next.row.familyCreatedAt = family.row.familyCreatedAt ∧
      next.row.familySessionExpiresAt = family.row.familySessionExpiresAt := by
  obtain ⟨-, -, -, -, scopes, -, rfl⟩ := rotate_eq_some h
  exact ⟨rfl, rfl⟩

theorem origin_of_run (h : Run rotate first refreshes family) :
    family.row.familyCreatedAt = first.row.familyCreatedAt ∧
      family.row.familySessionExpiresAt = first.row.familySessionExpiresAt := by
  induction h with
  | nil => exact ⟨rfl, rfl⟩
  | cons head _ ih =>
    obtain ⟨hcreated, hsession⟩ := origin_of_rotate head
    exact ⟨ih.1.trans hcreated, ih.2.trans hsession⟩

/-- A rotated token expires at its family's end at the latest, and after the rotation. -/
theorem rotate_lifetime (h : rotate family refresh = some next) :
    (∀ e ∈ refresh.familyEnd family.row, next.row.expiresAt ≤ e) ∧
      (isBrowserBasedClient refresh.ctx.client = true →
        next.row.expiresAt ≤ family.row.expiresAt) ∧
      (0 < refresh.ctx.tokenLifetimes.refreshTokenLifespanSeconds →
        refresh.reads.now < next.row.expiresAt) := by
  obtain ⟨hlive, hended⟩ := live_of_rotate h
  rw [expiresAt_of_rotate h, rotatedRefreshTokenExpiresAt]
  refine ⟨fun e he ↦ ?_, fun hbrowser ↦ ?_, fun hpos ↦ ?_⟩
  · have hle : refreshTokenExpiresAt refresh.reads.now
        refresh.ctx.tokenLifetimes.refreshTokenLifespanSeconds
        (refresh.familyEnd family.row) ≤ e := by
      rw [Option.mem_def.mp he]
      exact refreshTokenExpiresAt_le
    split
    · exact Nat.le_trans (Nat.min_le_left _ _) hle
    · exact hle
  · rw [if_pos hbrowser]
    exact Nat.min_le_right _ _
  · have hlt := lt_refreshTokenExpiresAt hpos hended
    split
    · exact Nat.lt_min.mpr ⟨hlt, hlive⟩
    · exact hlt

/-- The chain of a browser-based client ends with its first token. -/
theorem expiresAt_le_of_run (h : Run rotate first refreshes family)
    (hbrowser : ∀ refresh ∈ refreshes, isBrowserBasedClient refresh.ctx.client = true) :
    family.row.expiresAt ≤ first.row.expiresAt := by
  induction h with
  | nil => exact Nat.le_refl _
  | cons head _ ih =>
    rw [List.forall_mem_cons] at hbrowser
    exact Nat.le_trans (ih hbrowser.2) ((rotate_lifetime head).2.1 hbrowser.1)

/-- Whatever the settings were at each of the rotations before, a rotated token expires no later
than the family's end that the settings give when it is issued. Where they limit the realm's
sessions, that is no later than the end of the session that started the family, and so long after
the family's start at most as the limit says. The chain of a browser-based client ends with its
first token. A token is issued to expire after it is issued. -/
theorem rotated_within_family (hrun : Run rotate first refreshes family)
    (h : rotate family refresh = some next) :
    (∀ e, refreshFamilyEnd first.row.familyCreatedAt refresh.ctx.ssoMaxLifespan
        first.row.familySessionExpiresAt = some e → next.row.expiresAt ≤ e) ∧
      (∀ limit, refresh.ctx.ssoMaxLifespan = some limit →
        next.row.expiresAt ≤ first.row.familyCreatedAt + limit * 1000 ∧
          ∀ e, first.row.familySessionExpiresAt = some e → next.row.expiresAt ≤ e) ∧
      ((∀ r ∈ refreshes ++ [refresh], isBrowserBasedClient r.ctx.client = true) →
        next.row.expiresAt ≤ first.row.expiresAt) ∧
      (0 < refresh.ctx.tokenLifetimes.refreshTokenLifespanSeconds →
        refresh.reads.now < next.row.expiresAt) := by
  obtain ⟨hcreated, hsession⟩ := origin_of_run hrun
  obtain ⟨hend, -, hlater⟩ := rotate_lifetime h
  have hfamily : ∀ e, refreshFamilyEnd first.row.familyCreatedAt refresh.ctx.ssoMaxLifespan
      first.row.familySessionExpiresAt = some e → next.row.expiresAt ≤ e := by
    intro e he
    rw [← hcreated, ← hsession] at he
    exact hend e he
  refine ⟨hfamily, fun limit hlimit ↦ ?_, fun hbrowser ↦ ?_, hlater⟩
  · rw [hlimit] at hfamily
    have hsome := hfamily _ rfl
    obtain ⟨hstart, hsession⟩ := @le_of_refreshFamilyEnd first.row.familyCreatedAt limit _
      first.row.familySessionExpiresAt rfl
    exact ⟨Nat.le_trans hsome hstart, fun e he ↦ Nat.le_trans hsome (hsession e he)⟩
  · have hall : Run rotate first (refreshes ++ [refresh]) next :=
      hrun.append (.cons h (.nil _))
    exact expiresAt_le_of_run hall hbrowser

/-! ### With and without a limit -/

namespace Sample

/-- A redemption whose session ends soon. -/
def shortSession : AuthorizationCode := { code "c1" [] with sessionExpiresAt := some 90000 }

/-- A request of the client in a realm that limits its sessions to `limit` seconds. -/
def limited (limit : Option ℕ) : HandlerContext := { ctx app none with ssoMaxLifespan := limit }

end Sample

/-- Where the realm limits its sessions, the rotated token ends with the session. -/
theorem rotated_within_family_limited : ∃ issued first family next,
    Sample.chain (Sample.limited (some 3600)) Sample.shortSession
        [Sample.refresh (Sample.limited (some 3600)) none [] "r2" 3000] =
      some (issued, first, family) ∧
    rotate family (Sample.refresh (Sample.limited (some 3600)) none [] "r3" 4000) = some next ∧
    next.row.expiresAt ≤ 90000 ∧ 4000 < next.row.expiresAt := by
  have hfacts : (Sample.chain (Sample.limited (some 3600)) Sample.shortSession
      [Sample.refresh (Sample.limited (some 3600)) none [] "r2" 3000]).map (fun c ↦
        (c.2.1.familySessionExpiresAt, (rotate c.2.2
          (Sample.refresh (Sample.limited (some 3600)) none [] "r3" 4000)).isSome)) =
      some (some 90000, true) := by decide
  obtain ⟨⟨issued, first, family⟩, hchain, hfacts⟩ := Option.map_eq_some_iff.mp hfacts
  simp only [Prod.mk.injEq] at hfacts
  obtain ⟨next, hnext⟩ := Option.isSome_iff_exists.mp hfacts.2
  obtain ⟨-, -, hrun⟩ := Sample.of_chain hchain
  obtain ⟨-, hlimited, -, hlater⟩ := rotated_within_family hrun hnext
  exact ⟨issued, first, family, next, hchain, hnext, (hlimited 3600 rfl).2 90000 hfacts.1,
    hlater (by decide)⟩

/-- Where it does not, the rotated token expires after the session has ended. -/
theorem rotated_outlives_session : ∃ issued first family,
    Sample.chain (Sample.limited none) Sample.shortSession
        [Sample.refresh (Sample.limited none) none [] "r2" 3000] = some (issued, first, family) ∧
      family.row.familySessionExpiresAt = some 90000 ∧ 90000 < family.row.expiresAt := by
  have hfacts : (Sample.chain (Sample.limited none) Sample.shortSession
      [Sample.refresh (Sample.limited none) none [] "r2" 3000]).map (fun c ↦
        (c.2.2.row.familySessionExpiresAt, decide (90000 < c.2.2.row.expiresAt))) =
      some (some 90000, true) := by decide
  obtain ⟨⟨issued, first, family⟩, hchain, hfacts⟩ := Option.map_eq_some_iff.mp hfacts
  simp only [Prod.mk.injEq, decide_eq_true_eq] at hfacts
  exact ⟨issued, first, family, hchain, hfacts.1, hfacts.2⟩

end QAuth.Token
