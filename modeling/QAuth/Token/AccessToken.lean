import QAuth.Token.Issuance

/-!
# Access tokens

The claims of an access token as the signer puts them together (`buildAccessTokenClaims` in
`server/jwt`, `withLifetime` in the JWT plugin) and as the verifier hands them back
(`verifyAccessToken`), with the `act` chain of a delegated token (`helpers/agent-audit.ts`).

A signed token is modelled by its claims: the signature of the realm's key is what makes a string
verify to them.
-/

namespace QAuth.Token

/-! ### The chain of actors -/

/-- `ActClaim`: an actor, over the chain it was delegated to by, if any. -/
inductive ActClaim
  | actor (sub : String)
  | nested (sub : String) (act : ActClaim)
deriving DecidableEq

/-- `{ sub, ...(act ? { act } : {}) }`. -/
def ActClaim.nest (sub : String) (act : Option ActClaim) : ActClaim :=
  match act with
  | none => .actor sub
  | some act => .nested sub act

/-- The actors of a chain, the latest first. -/
def ActClaim.actors : ActClaim → List String
  | .actor sub => [sub]
  | .nested sub act => sub :: act.actors

/-- The actors of a token's `act` claim: none for a token that is not delegated. -/
def actors (act : Option ActClaim) : List String := (act.map ActClaim.actors).getD []

@[simp] theorem actors_nest (sub : String) (act : Option ActClaim) :
    actors (some (ActClaim.nest sub act)) = sub :: actors act := by
  cases act <;> rfl

/-- `MAX_DELEGATION_DEPTH`. -/
def maxDelegationDepth : ℕ := 4

/-- The links of a chain, counted one by one. -/
def ActClaim.depth : ActClaim → ℕ
  | .actor _ => 1
  | .nested _ act => act.depth + 1

/-- `actDepth`. -/
def actDepth (act : Option ActClaim) : ℕ := (act.map ActClaim.depth).getD 0

/-- The loop of `flattenActChain`, with the names it has room for. -/
def ActClaim.flatten : ActClaim → ℕ → List String
  | _, 0 => []
  | .actor sub, _ + 1 => if sub ≠ "" then [sub] else []
  | .nested sub act, room + 1 => if sub ≠ "" then sub :: act.flatten room else act.flatten (room + 1)

/-- `flattenActChain`: the actors the audit records, at most `maxDepth`. -/
def flattenActChain (act : Option ActClaim) (maxDepth : ℕ) : List String :=
  match act with
  | none => []
  | some act => act.flatten maxDepth

/-- A chain of named actors within the cap is recorded whole. -/
theorem flattenActChain_eq_actors {act : Option ActClaim} {maxDepth : ℕ}
    (hnames : "" ∉ actors act) (hdepth : actDepth act ≤ maxDepth) :
    flattenActChain act maxDepth = actors act := by
  cases act with
  | none => rfl
  | some a =>
    show a.flatten maxDepth = a.actors
    replace hnames : "" ∉ a.actors := hnames
    replace hdepth : a.depth ≤ maxDepth := hdepth
    induction a generalizing maxDepth with
    | actor sub =>
      obtain ⟨room, rfl⟩ : ∃ room, maxDepth = room + 1 := ⟨maxDepth - 1, by
        rw [ActClaim.depth] at hdepth
        omega⟩
      rw [ActClaim.flatten, if_pos]
      · rfl
      · rintro rfl
        exact hnames (List.mem_singleton_self _)
    | nested sub act ih =>
      rw [ActClaim.depth] at hdepth
      obtain ⟨room, rfl⟩ : ∃ room, maxDepth = room + 1 := ⟨maxDepth - 1, by omega⟩
      rw [ActClaim.flatten, if_pos]
      · rw [ih (fun h ↦ hnames (List.mem_cons_of_mem _ h)) (by omega)]
        rfl
      · rintro rfl
        exact hnames List.mem_cons_self

/-! ### Claims -/

/-- The claims of an access token. -/
structure AccessToken where
  sub : String
  clientId : Option String
  jti : Option String
  tokenUse : Option String
  scope : Option String
  aud : Option Audience
  act : Option ActClaim
  /-- `cnf.jkt`. -/
  cnf : Option String
  /-- `auth_time`, in seconds. -/
  authTime : Option ℕ
  amr : Option (List String)
  sid : Option String
  iat : Option ℕ
  exp : Option ℕ
deriving DecidableEq

/-- The scopes of the `scope` claim, read as the exchange and the resource guard read it. -/
def AccessToken.scopes (token : AccessToken) : List Scope := splitScopes (token.scope.getD "")

/-- `audToArray` of the `aud` claim. -/
def AccessToken.audience (token : AccessToken) : List String :=
  (token.aud.map Audience.values).getD []

/-- Whether the token carries an admin scope or the admin audience. -/
def AccessToken.isAdmin (token : AccessToken) : Prop :=
  ApiFamily.admin.audience ∈ token.audience ∨ ∃ s ∈ token.scopes, isAdminScope s = true

instance (token : AccessToken) : Decidable token.isAdmin :=
  inferInstanceAs (Decidable (_ ∨ _))

/-- How and when the user signed in, as a code or a refresh row records it (`recordedSignIn`):
`amr` never without `authTime`, and never empty. -/
structure SignIn where
  authTime : Option ℕ
  amr : Option (List String)

/-- `recordedSignIn`. -/
def recordedSignIn (authTime : Option ℕ) (amr : Option (List String)) : SignIn :=
  match authTime with
  | none => ⟨none, none⟩
  | some authTime => ⟨some authTime, amr.filter fun methods ↦ !methods.isEmpty⟩

/-- Recording what was recorded changes nothing. -/
@[simp] theorem recordedSignIn_idem (authTime : Option ℕ) (amr : Option (List String)) :
    recordedSignIn (recordedSignIn authTime amr).authTime (recordedSignIn authTime amr).amr =
      recordedSignIn authTime amr := by
  cases authTime with
  | none => rfl
  | some authTime =>
    cases amr with
    | none => rfl
    | some methods => cases methods <;> rfl

/-- `SignAccessTokenPayload`: what a grant asks to be signed. -/
structure SignPayload where
  sub : String
  clientId : String
  scopes : List Scope
  aud : Audience
  act : Option ActClaim
  cnf : Option String
  signIn : SignIn
  sid : Option String
  expiresIn : ℕ
  expiresNotAfter : Option ℕ

/-- `withLifetime`: the `exp` of a token signed at `issuedAt`, in seconds. -/
def lifetimeEnd (issuedAt expiresIn : ℕ) (notAfter : Option ℕ) : ℕ :=
  match notAfter with
  | none => issuedAt + expiresIn
  | some notAfter => min (issuedAt + expiresIn) notAfter

/-- `signAccessToken`: the claims signed at `signedAt`, in milliseconds, under a fresh `jti`. -/
def signAccessToken (payload : SignPayload) (jti : String) (signedAt : ℕ) : AccessToken where
  sub := payload.sub
  clientId := some payload.clientId
  jti := some jti
  tokenUse := some "access"
  scope := if payload.scopes = [] then none else some (joinScopes payload.scopes)
  aud := some payload.aud
  act := payload.act
  cnf := payload.cnf
  authTime := payload.signIn.authTime.map (· / 1000)
  amr := payload.signIn.amr.filter fun methods ↦ !methods.isEmpty
  sid := payload.sid.filter (· ≠ "")
  iat := some (signedAt / 1000)
  exp := some (lifetimeEnd (signedAt / 1000) payload.expiresIn payload.expiresNotAfter)

section Signed

variable {payload : SignPayload} {jti : String} {signedAt : ℕ}

@[simp] theorem scopes_signAccessToken :
    (signAccessToken payload jti signedAt).scopes = payload.scopes := by
  by_cases h : payload.scopes = []
  · rw [AccessToken.scopes, signAccessToken, if_pos h, h]
    exact splitScopes_join []
  · rw [AccessToken.scopes, signAccessToken, if_neg h]
    exact splitScopes_join _

@[simp] theorem audience_signAccessToken :
    (signAccessToken payload jti signedAt).audience = payload.aud.values := rfl

theorem isAdmin_signAccessToken :
    (signAccessToken payload jti signedAt).isAdmin ↔
      isAdminToken payload.scopes payload.aud = true := by
  simp [AccessToken.isAdmin, isAdminToken, Audience.namesAdmin]

/-- A cap on the expiry holds whenever the token is signed. -/
theorem exp_signAccessToken_le {cap : ℕ} (h : payload.expiresNotAfter = some cap) :
    ∃ exp, (signAccessToken payload jti signedAt).exp = some exp ∧ exp ≤ cap := by
  refine ⟨_, rfl, ?_⟩
  rw [h]
  exact Nat.min_le_right _ _

end Signed

end QAuth.Token
