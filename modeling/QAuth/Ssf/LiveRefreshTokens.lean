import QAuth.Foundation.Double
import QAuth.Foundation.Sql

/-!
# Refresh tokens that relate a user to a receiver

A receiver keeps a subject while the subject's user holds a live refresh token. Which tokens are live
is written twice: as a condition of a database statement (`relatedUserCondition`), and as the checks of
the token endpoint's refresh grant, whose numbers are doubles.
-/

namespace QAuth.Ssf

open Double (SafeInt)

/-! ### Rows -/

/-- What the conditions read of a `users` row. A `bigint` column that is read as a number holds a safe
one. -/
structure UserRow where
  enabled : Bool
  /-- when the account was last disabled, in epoch milliseconds -/
  notValidBefore : Option SafeInt

/-- A number of seconds, which a realm takes as a limit only where it is safe and not zero. -/
structure Limit where
  seconds : ℕ
  pos : 0 < seconds
  safe : seconds ≤ Double.maxSafe

structure RealmRow where
  ssoMaxLifespan : Option Limit

/-- What the conditions read of a `refresh_tokens` row. -/
structure RefreshTokenRow where
  revoked : Bool
  expiresAt : SafeInt
  familyCreatedAt : SafeInt
  createdAt : SafeInt
  familySessionExpiresAt : Option SafeInt

def NOT_VALID_BEFORE_MARGIN_MS : ℤ := 1000

/-! ### The statement -/

/-- A safe number as an expression. -/
def safeValue (n : SafeInt) : Sql.BigInt := Sql.value n

/-- What `relatedUserCondition` asks of the user and of a refresh token: the user is enabled, and the
token is live. -/
def livenessCondition (user : UserRow) (realm : RealmRow) (token : RefreshTokenRow) (now : SafeInt) :
    Sql.Cond :=
  let notValidBefore := Sql.column (user.notValidBefore.map Subtype.val)
  let ssoMaxLifespan := Sql.column (realm.ssoMaxLifespan.map fun limit ↦ (limit.seconds : ℤ))
  let familySessionExpiresAt := Sql.column (token.familySessionExpiresAt.map Subtype.val)
  Sql.and (Sql.bool user.enabled) <|
  Sql.and (Sql.not (Sql.bool token.revoked)) <|
  Sql.and (Sql.gt (safeValue token.expiresAt) (safeValue now)) <|
  Sql.and
    (Sql.or (Sql.isNull notValidBefore)
      (Sql.gt (Sql.least (safeValue token.familyCreatedAt) (safeValue token.createdAt))
        (Sql.add notValidBefore (Sql.value NOT_VALID_BEFORE_MARGIN_MS))))
    (Sql.or (Sql.isNull ssoMaxLifespan)
      (Sql.and
        (Sql.gt (Sql.add (safeValue token.familyCreatedAt) (Sql.mul ssoMaxLifespan (Sql.value 1000)))
          (safeValue now))
        (Sql.or (Sql.isNull familySessionExpiresAt)
          (Sql.gt familySessionExpiresAt (safeValue now)))))

/-! ### The refresh grant -/

def refreshFamilyEnd (familyCreatedAt : ℤ) (ssoMaxLifespanSeconds : Option Limit)
    (familySessionExpiresAt : Option SafeInt) : Option ℤ :=
  match ssoMaxLifespanSeconds with
  | none => none
  | some limit =>
    let byLimit := Double.addInt familyCreatedAt (Double.mul limit.seconds 1000)
    match familySessionExpiresAt with
    | none => some byLimit
    | some sessionEnd => some (min byLimit sessionEnd)

def refreshFamilyEnded (familyEnd : Option ℤ) (now : ℤ) : Bool :=
  match familyEnd with
  | none => false
  | some familyEnd => familyEnd ≤ now

def issuedBeforeDisablement (user : UserRow) (issuedAtMs : Option ℤ) : Bool :=
  match user.notValidBefore, issuedAtMs with
  | none, _ => false
  | some _, none => true
  | some notValidBefore, some issuedAtMs =>
    issuedAtMs ≤ Double.addInt notValidBefore NOT_VALID_BEFORE_MARGIN_MS

inductive AccountCredentialRefusal
  | user_disabled | issued_before_disablement

def accountCredentialRefusal (user : UserRow) (issuedAtMs : Option ℤ) :
    Option AccountCredentialRefusal :=
  if !user.enabled then some .user_disabled
  else if issuedBeforeDisablement user issuedAtMs then some .issued_before_disablement
  else none

/-- Why the refresh grant refuses a token that is not live. -/
inductive LivenessRefusal
  | replayed
  | refresh_family_expired
  | refresh_token_expired
  | account (refusal : AccountCredentialRefusal)

/-- The checks of `handleRefreshToken` on the stored token and its user, in their order. -/
def livenessRefusal (user : UserRow) (realm : RealmRow) (token : RefreshTokenRow) (now : SafeInt) :
    Option LivenessRefusal :=
  if token.revoked then some .replayed
  else if refreshFamilyEnded (refreshFamilyEnd token.familyCreatedAt realm.ssoMaxLifespan
      token.familySessionExpiresAt) now then some .refresh_family_expired
  else if (token.expiresAt : ℤ) ≤ now then some .refresh_token_expired
  else (accountCredentialRefusal user (some (min (token.familyCreatedAt : ℤ) token.createdAt))).map
    .account

/-! ### The two readings -/

variable {user : UserRow} {realm : RealmRow} {token : RefreshTokenRow} {now issued : SafeInt}

theorem natAbs_lt (n : SafeInt) : (n : ℤ).natAbs < 2 ^ 53 :=
  Nat.lt_of_le_of_lt n.2 (by decide)

/-- No expression of a safe number and a limit is out of range. -/
theorem inRange_limit (n : SafeInt) (limit : Limit) :
    Sql.InRange (limit.seconds * 1000) ∧ Sql.InRange ((n : ℤ) + limit.seconds * 1000) := by
  have hn := natAbs_lt n
  have hlimit := limit.safe
  have hpos := limit.pos
  rw [Double.maxSafe] at hlimit
  simp only [Sql.InRange]
  omega

theorem inRange_margin (n : SafeInt) : Sql.InRange ((n : ℤ) + NOT_VALID_BEFORE_MARGIN_MS) := by
  have hn := natAbs_lt n
  simp only [Sql.InRange, NOT_VALID_BEFORE_MARGIN_MS]
  omega

/-- The part of the condition on the time the account was last disabled. -/
theorem notValidBefore_eq (user : UserRow) (started created : SafeInt) :
    Sql.or (Sql.isNull (Sql.column (user.notValidBefore.map Subtype.val)))
      (Sql.gt (Sql.least (safeValue started) (safeValue created))
        (Sql.add (Sql.column (user.notValidBefore.map Subtype.val)) (Sql.value NOT_VALID_BEFORE_MARGIN_MS))) =
      Sql.bool (!issuedBeforeDisablement user (some (min (started : ℤ) created))) := by
  rw [issuedBeforeDisablement.eq_def]
  cases user.notValidBefore with
  | none => exact Sql.true_or
  | some notValidBefore =>
    have hmin : (min (started : ℤ) created).natAbs < 2 ^ 53 := by
      rcases min_choice (started : ℤ) created with h | h
      · rw [h]
        exact natAbs_lt started
      · rw [h]
        exact natAbs_lt created
    rw [Option.map_some, Sql.column_some, Sql.isNull_value, safeValue, safeValue, Sql.least_eq,
      Sql.add_eq (inRange_margin notValidBefore), Sql.gt_eq, Sql.or_eq]
    refine congrArg Sql.bool (Bool.eq_iff_iff.mpr ?_)
    have hle := Double.le_roundInt_iff (n := notValidBefore.1 + NOT_VALID_BEFORE_MARGIN_MS) hmin
    simp [Double.addInt, hle]

theorem familyEnd_eq (token : RefreshTokenRow) (realm : RealmRow) (now : SafeInt) :
    Sql.or (Sql.isNull (Sql.column (realm.ssoMaxLifespan.map fun limit ↦ (limit.seconds : ℤ))))
      (Sql.and
        (Sql.gt (Sql.add (safeValue token.familyCreatedAt)
            (Sql.mul (Sql.column (realm.ssoMaxLifespan.map fun limit ↦ (limit.seconds : ℤ)))
              (Sql.value 1000)))
          (safeValue now))
        (Sql.or (Sql.isNull (Sql.column (token.familySessionExpiresAt.map Subtype.val)))
          (Sql.gt (Sql.column (token.familySessionExpiresAt.map Subtype.val)) (safeValue now)))) =
      Sql.bool (!refreshFamilyEnded (refreshFamilyEnd token.familyCreatedAt realm.ssoMaxLifespan
        token.familySessionExpiresAt) now) := by
  have hnow := natAbs_lt now
  cases hlimit : realm.ssoMaxLifespan with
  | none => cases token.familySessionExpiresAt <;> rfl
  | some limit =>
    obtain ⟨hproduct, hsum⟩ := inRange_limit token.familyCreatedAt limit
    have hend : (now : ℤ) < Double.addInt token.familyCreatedAt (Double.mul limit.seconds 1000) ↔
        (now : ℤ) < token.familyCreatedAt + limit.seconds * 1000 := by
      rw [Double.lt_addInt_mul_iff hnow (natAbs_lt token.familyCreatedAt) (by decide)]
      push_cast
      rfl
    rw [Option.map_some, Sql.column_some, Sql.isNull_value, safeValue, safeValue,
      Sql.mul_eq hproduct, Sql.add_eq hsum, Sql.gt_eq]
    cases hsession : token.familySessionExpiresAt with
    | none =>
      have hnull : Sql.gt (Sql.column none) (Sql.value now) = .ok none := rfl
      rw [Option.map_none, Sql.isNull_none, hnull, Sql.true_or, Sql.and_eq, Sql.or_eq]
      refine congrArg Sql.bool (Bool.eq_iff_iff.mpr ?_)
      simp [refreshFamilyEnd, refreshFamilyEnded, ← hend]
    | some sessionEnd =>
      rw [Option.map_some, Sql.column_some, Sql.isNull_value, Sql.gt_eq, Sql.or_eq, Sql.and_eq,
        Sql.or_eq]
      refine congrArg Sql.bool (Bool.eq_iff_iff.mpr ?_)
      simp [refreshFamilyEnd, refreshFamilyEnded, ← hend]

/-- A token is not refused as dead exactly where each of the checks passes. -/
theorem livenessRefusal_eq_none_iff :
    livenessRefusal user realm token now = none ↔
      token.revoked = false ∧
      refreshFamilyEnded (refreshFamilyEnd token.familyCreatedAt realm.ssoMaxLifespan
        token.familySessionExpiresAt) now = false ∧
      (now : ℤ) < token.expiresAt ∧ user.enabled = true ∧
      issuedBeforeDisablement user (some (min (token.familyCreatedAt : ℤ) token.createdAt)) =
        false := by
  have hrefusal : accountCredentialRefusal user
      (some (min (token.familyCreatedAt : ℤ) token.createdAt)) = none ↔ user.enabled = true ∧
        issuedBeforeDisablement user (some (min (token.familyCreatedAt : ℤ) token.createdAt)) =
          false := by
    rw [accountCredentialRefusal]
    split_ifs with henabled hbefore <;> simp_all
  rw [livenessRefusal, ← hrefusal]
  split_ifs with hrevoked hended hexpired
  · simp [hrevoked]
  · simp [hended]
  · exact iff_of_false (by simp) fun h ↦ absurd hexpired (not_le.mpr h.2.2.1)
  · simpa [hrevoked, hended] using fun _ ↦ not_le.mp hexpired

/-- The condition of the statement is never unknown or an error, and it is true exactly where the
refresh grant does not refuse the token as dead: at every boundary, without a limit, without a
session's end, and for an account that was never disabled. -/
theorem livenessCondition_eq (user : UserRow) (realm : RealmRow) (token : RefreshTokenRow)
    (now : SafeInt) : livenessCondition user realm token now =
      Sql.bool (decide (livenessRefusal user realm token now = none)) := by
  rw [livenessCondition, notValidBefore_eq, familyEnd_eq, safeValue, safeValue, Sql.gt_eq,
    Sql.not_eq, Sql.and_eq, Sql.and_eq, Sql.and_eq, Sql.and_eq]
  refine congrArg Sql.bool (Bool.eq_iff_iff.mpr ?_)
  rw [decide_eq_true_iff, livenessRefusal_eq_none_iff]
  simp only [Bool.and_eq_true, Bool.not_eq_true', decide_eq_true_eq]
  tauto

end QAuth.Ssf
