import Mathlib.Logic.Function.Basic
import QAuth.Foundation.Table
import QAuth.Token.AccessToken

/-!
# The access tokens of a grant

`helpers/grant-access-tokens.ts` and `helpers/token-revocation.ts`: each access token is recorded in
Redis under the grant it came from, and a replay of the grant puts every recorded token that has
not expired on the denylist. A record is a hash of `jti` to `exp` that expires with its last token.

Every call is answered here: a store that fails is outside this file. Times are in milliseconds, and
an `exp` is in seconds, as in the token.
-/

namespace QAuth.Grants

open QAuth.Token Table

/-- The key of a record in Redis. -/
inductive RecordKey
  | code (authorizationCodeId : Uuid)
  | family (refreshFamilyId : Uuid)
deriving DecidableEq

/-- The grant an access token was issued from. -/
structure AccessTokenGrant where
  authorizationCodeId : Option Uuid
  refreshFamilyId : Option Uuid
deriving DecidableEq

/-- `recordKeys`. -/
def recordKeys (grant : AccessTokenGrant) : List RecordKey :=
  grant.authorizationCodeId.toList.map .code ++ grant.refreshFamilyId.toList.map .family

@[simp] theorem code_mem_recordKeys {grant : AccessTokenGrant} {c : Uuid} :
    .code c ∈ recordKeys grant ↔ grant.authorizationCodeId = some c := by
  simp [recordKeys]

@[simp] theorem family_mem_recordKeys {grant : AccessTokenGrant} {f : Uuid} :
    .family f ∈ recordKeys grant ↔ grant.refreshFamilyId = some f := by
  simp [recordKeys]

/-- A record: the `exp` of each `jti`, and when Redis drops the hash. -/
structure Record where
  fields : List (String × ℕ)
  expiresAt : ℕ

/-- The records, and until when a `jti` is on the denylist. A record never written, or a `jti`
never put there, has expired at time 0. -/
structure Redis where
  records : RecordKey → Record
  denylist : String → ℕ

namespace Redis

/-- An empty store. -/
def empty : Redis := ⟨fun _ ↦ ⟨[], 0⟩, fun _ ↦ 0⟩

/-- `HGETALL`: nothing once the hash has expired. -/
def hgetall (redis : Redis) (now : ℕ) (key : RecordKey) : List (String × ℕ) :=
  if now < (redis.records key).expiresAt then (redis.records key).fields else []

end Redis

/-- Milliseconds in seconds, rounded up. -/
def ceilSeconds (ms : ℕ) : ℕ := (ms + 999) / 1000

theorem le_ceilSeconds (ms : ℕ) : ms ≤ ceilSeconds ms * 1000 := by
  rw [ceilSeconds]
  omega

/-- `HSET`, `EXPIRE NX` and `EXPIRE GT` of one key: the hash expires at the later of its own expiry
and the new token's. -/
def recordUnder (now : ℕ) (jti : String) (exp : ℕ) (redis : Redis) (key : RecordKey) : Redis :=
  { redis with
    records := Function.update redis.records key
      ⟨upsert (redis.hgetall now key) jti exp,
        max (redis.records key).expiresAt (now + ceilSeconds (exp * 1000 - now) * 1000)⟩ }

/-- `recordGrantAccessToken`: a token without `jti` or `exp`, or one that has expired, is not
recorded. -/
def recordGrantAccessToken (redis : Redis) (now : ℕ) (token : AccessToken)
    (grant : AccessTokenGrant) : Redis :=
  match token.jti, token.exp with
  | some jti, some exp =>
    if jti = "" ∨ ceilSeconds (exp * 1000 - now) = 0 then redis
    else (recordKeys grant).foldl (recordUnder now jti exp) redis
  | _, _ => redis

/-- The remaining lifetime of a recorded token that had not expired at `reading`, collected. -/
def collectEntry (reading : ℕ) (live : List (String × ℕ)) (entry : String × ℕ) :
    List (String × ℕ) :=
  if reading < entry.2 * 1000 then upsert live entry.1 (entry.2 * 1000 - reading) else live

/-- The entries of one record that `revokeGrantAccessTokens` is to deny. -/
def collectLive (reading : ℕ) (recorded live : List (String × ℕ)) : List (String × ℕ) :=
  recorded.foldl (collectEntry reading) live

/-- `revokeJti`, with the remaining lifetime in milliseconds. -/
def revokeJti (redis : Redis) (now : ℕ) (jti : String) (remaining : ℕ) : Redis :=
  if jti = "" ∨ remaining = 0 then redis
  else { redis with
    denylist := Function.update redis.denylist jti (now + ceilSeconds remaining * 1000) }

/-- `isJtiRevoked`. -/
def isJtiRevoked (redis : Redis) (now : ℕ) (jti : Option String) : Bool :=
  match jti with
  | none | some "" => false
  | some jti => now < redis.denylist jti

/-! ### What is recorded stays recorded -/

/-- The token is in the record of `key`, which Redis keeps at least until the token expires. -/
def Redis.Recorded (redis : Redis) (jti : String) (exp : ℕ) (key : RecordKey) : Prop :=
  (jti, exp) ∈ (redis.records key).fields ∧ exp * 1000 ≤ (redis.records key).expiresAt

section Record

variable {redis : Redis} {now exp exp' : ℕ} {jti jti' : String} {key key' : RecordKey}
  {keys : List RecordKey} {token : AccessToken} {grant : AccessTokenGrant}

theorem Redis.Recorded.mem_hgetall (h : redis.Recorded jti exp key) (hnow : now < exp * 1000) :
    (jti, exp) ∈ redis.hgetall now key := by
  rw [Redis.hgetall, if_pos (hnow.trans_le h.2)]
  exact h.1

theorem Redis.mem_fields_of_mem_hgetall {field : String × ℕ} (h : field ∈ redis.hgetall now key) :
    field ∈ (redis.records key).fields := by
  rw [Redis.hgetall] at h
  split_ifs at h
  · exact h
  · cases h

theorem recordUnder_records_of_ne (h : key ≠ key') :
    (recordUnder now jti exp redis key').records key = redis.records key :=
  Function.update_of_ne h _ _

theorem recordUnder_records_self :
    (recordUnder now jti exp redis key).records key =
      ⟨upsert (redis.hgetall now key) jti exp,
        max (redis.records key).expiresAt (now + ceilSeconds (exp * 1000 - now) * 1000)⟩ :=
  Function.update_self _ _ _

theorem recorded_recordUnder : (recordUnder now jti exp redis key).Recorded jti exp key := by
  have hceil := le_ceilSeconds (exp * 1000 - now)
  rw [Redis.Recorded, recordUnder_records_self]
  refine ⟨mem_upsert.mpr (.inr rfl), Nat.le_trans ?_ (Nat.le_max_right _ _)⟩
  omega

/-- A record keeps what was there, but for a token with the same `jti`. -/
theorem Redis.Recorded.under (h : redis.Recorded jti exp key) (hnow : now < exp * 1000)
    (hne : jti ≠ jti') : (recordUnder now jti' exp' redis key').Recorded jti exp key := by
  by_cases hk : key = key'
  · subst hk
    rw [Redis.Recorded, recordUnder_records_self]
    exact ⟨mem_upsert.mpr (.inl ⟨h.mem_hgetall hnow, hne⟩),
      Nat.le_trans h.2 (Nat.le_max_left _ _)⟩
  · rw [Redis.Recorded, recordUnder_records_of_ne hk]
    exact h

/-- What is in a record after another entry was written was there, or is that entry. -/
theorem mem_fields_recordUnder {field : String × ℕ}
    (h : field ∈ ((recordUnder now jti exp redis key').records key).fields) :
    field ∈ (redis.records key).fields ∨ field = (jti, exp) := by
  by_cases hk : key = key'
  · subst hk
    rw [recordUnder_records_self] at h
    rcases mem_upsert.mp h with ⟨h, -⟩ | h
    · exact .inl (Redis.mem_fields_of_mem_hgetall h)
    · exact .inr h
  · rw [recordUnder_records_of_ne hk] at h
    exact .inl h

theorem mem_fields_foldl {field : String × ℕ}
    (h : field ∈ ((keys.foldl (recordUnder now jti exp) redis).records key).fields) :
    field ∈ (redis.records key).fields ∨ field = (jti, exp) := by
  induction keys generalizing redis with
  | nil => exact .inl h
  | cons key' keys ih =>
    rcases ih h with h | h
    · exact mem_fields_recordUnder h
    · exact .inr h

theorem Redis.Recorded.foldl (h : redis.Recorded jti exp key) (hnow : now < exp * 1000)
    (hne : jti ≠ jti') : (keys.foldl (recordUnder now jti' exp') redis).Recorded jti exp key := by
  induction keys generalizing redis with
  | nil => exact h
  | cons key' keys ih => exact ih (h.under hnow hne)

theorem recorded_foldl (h : key ∈ keys ∨ redis.Recorded jti exp key) :
    (keys.foldl (recordUnder now jti exp) redis).Recorded jti exp key := by
  induction keys generalizing redis with
  | nil => simpa using h
  | cons key' keys ih =>
    refine ih ?_
    by_cases hk : key = key'
    · subst hk
      exact .inr recorded_recordUnder
    · refine h.imp (fun h ↦ ?_) fun h ↦ ?_
      · exact (List.mem_cons.mp h).resolve_left hk
      · rw [Redis.Recorded, recordUnder_records_of_ne hk]
        exact h

/-- A token is recorded when it is issued, unless it has expired. -/
theorem recorded_recordGrantAccessToken (hjti : token.jti = some jti) (hexp : token.exp = some exp)
    (hne : jti ≠ "") (hnow : now < exp * 1000) (hkey : key ∈ recordKeys grant) :
    (recordGrantAccessToken redis now token grant).Recorded jti exp key := by
  have hceil := le_ceilSeconds (exp * 1000 - now)
  rw [recordGrantAccessToken, hjti, hexp]
  have hrecords : ¬ (jti = "" ∨ ceilSeconds (exp * 1000 - now) = 0) := by
    rintro (h | h)
    · exact hne h
    · omega
  simp only [if_neg hrecords]
  exact recorded_foldl (.inl hkey)

/-- No later record loses a token that has not expired. -/
theorem Redis.Recorded.record (h : redis.Recorded jti exp key) (hnow : now < exp * 1000)
    (hjti : token.jti ≠ some jti) :
    (recordGrantAccessToken redis now token grant).Recorded jti exp key := by
  rw [recordGrantAccessToken]
  split
  · rename_i jti' exp' hjti' hexp'
    rw [hjti'] at hjti
    split_ifs
    · exact h
    · exact h.foldl hnow fun heq ↦ hjti (congrArg some heq.symm)
  · exact h

theorem mem_fields_recordGrantAccessToken {field : String × ℕ}
    (h : field ∈ ((recordGrantAccessToken redis now token grant).records key).fields) :
    field ∈ (redis.records key).fields ∨ (token.jti = some field.1 ∧ token.exp = some field.2) := by
  rw [recordGrantAccessToken] at h
  split at h
  · rename_i jti' exp' hjti' hexp'
    split_ifs at h
    · exact .inl h
    · refine (mem_fields_foldl h).imp_right fun hfield ↦ ?_
      rw [hfield]
      exact ⟨hjti', hexp'⟩
  · exact .inl h

@[simp] theorem denylist_recordGrantAccessToken :
    (recordGrantAccessToken redis now token grant).denylist = redis.denylist := by
  have hfold : ∀ (jti : String) (exp : ℕ) (keys : List RecordKey) (redis : Redis),
      (keys.foldl (recordUnder now jti exp) redis).denylist = redis.denylist := by
    intro jti exp keys
    induction keys with
    | nil => exact fun _ ↦ rfl
    | cons key keys ih => exact fun redis ↦ ih _
  rw [recordGrantAccessToken]
  split
  · split_ifs
    · rfl
    · exact hfold _ _ _ _
  · rfl

end Record

/-! ### What is collected and denied -/

section Deny

variable {redis : Redis} {now reading exp remaining : ℕ} {jti jti' : String}
  {recorded live : List (String × ℕ)}

/-- What is collected was collected before, or is a recorded token with its remaining lifetime. -/
theorem mem_collectLive {entry : String × ℕ} (h : entry ∈ collectLive reading recorded live) :
    entry ∈ live ∨ ∃ field ∈ recorded, entry.1 = field.1 ∧
      entry.2 = field.2 * 1000 - reading := by
  induction recorded generalizing live with
  | nil => exact .inl h
  | cons field recorded ih =>
    rcases ih h with h | ⟨field', hmem, hentry⟩
    · unfold collectEntry at h
      split_ifs at h
      · rcases mem_upsert.mp h with ⟨h, -⟩ | h
        · exact .inl h
        · exact .inr ⟨field, List.mem_cons_self, by rw [h], by rw [h]⟩
      · exact .inl h
    · exact .inr ⟨field', List.mem_cons_of_mem _ hmem, hentry⟩

/-- A token that was collected, or is recorded and has not expired, is collected. -/
theorem exists_mem_collectLive (h : (∃ rest, (jti, rest) ∈ live) ∨
      ∃ exp, (jti, exp) ∈ recorded ∧ reading < exp * 1000) :
    ∃ rest, (jti, rest) ∈ collectLive reading recorded live := by
  induction recorded generalizing live with
  | nil => exact h.resolve_right fun ⟨_, h, _⟩ ↦ List.not_mem_nil h
  | cons field recorded ih =>
    refine ih ?_
    unfold collectEntry
    rcases h with h | ⟨exp, hmem, hlive⟩
    · left
      split_ifs
      · exact exists_mem_upsert h
      · exact h
    · rcases List.mem_cons.mp hmem with rfl | hmem
      · left
        rw [if_pos hlive]
        exact ⟨_, mem_upsert.mpr (.inr rfl)⟩
      · exact .inr ⟨exp, hmem, hlive⟩

@[simp] theorem records_revokeJti :
    (revokeJti redis now jti remaining).records = redis.records := by
  rw [revokeJti]
  split_ifs <;> rfl

theorem denylist_revokeJti_of_ne (h : jti' ≠ jti) :
    (revokeJti redis now jti remaining).denylist jti' = redis.denylist jti' := by
  rw [revokeJti]
  split_ifs
  · rfl
  · exact Function.update_of_ne h _ _

/-- A token denied for what remained of it at an earlier reading is denied until it expires. -/
theorem le_denylist_revokeJti (hjti : jti ≠ "") (hreading : reading ≤ now)
    (hexp : exp * 1000 ≤ reading + remaining) (hlive : 0 < remaining) :
    exp * 1000 ≤ (revokeJti redis now jti remaining).denylist jti := by
  have hceil := le_ceilSeconds remaining
  rw [revokeJti, if_neg (by rintro (h | h) <;> first | exact hjti h | omega)]
  simp only [Function.update_self]
  omega

end Deny

end QAuth.Grants
