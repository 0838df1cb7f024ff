import QAuth.Foundation.Run
import QAuth.Token.Exchange

/-!
# Chains of token exchanges

Each exchange takes the token of the one before as its subject token, whoever the agent is and
whatever it asks for. This file shows what one exchange keeps (`Delegates`), and from it what a
chain of any length keeps of the token it starts from.
-/

namespace QAuth.Token

open Transition

/-- An exchange: its context, its parameters, and what it reads besides the subject token. -/
structure Exchange where
  ctx : HandlerContext
  body : ExchangeBody
  reads : ExchangeReads

def Exchange.agent (request : Exchange) : String := request.ctx.client.clientId

/-- The delegated token of an exchange whose subject token verifies to `subject`. -/
def exchange (subject : AccessToken) (request : Exchange) : Option AccessToken :=
  match handleTokenExchange request.ctx request.body
      { request.reads with subject := some subject } with
  | .ok (.delegated issued) => some issued.accessToken
  | _ => none

/-- What a delegated token has from its subject token: no scope and no audience of its own, an
expiry no later, the key the subject is bound to, and the agent over the subject's actors. It is no
admin token. -/
structure Delegates (agent : String) (subject token : AccessToken) : Prop where
  scopes : ∀ s ∈ token.scopes, s ∈ subject.scopes
  audience : ∀ a ∈ token.audience, a ∈ subject.audience
  exp : ∀ e, subject.exp = some e → ∃ e', token.exp = some e' ∧ e' ≤ e
  key : ∀ jkt, subject.cnf = some jkt → token.cnf = some jkt
  actors : actors token.act = agent :: actors subject.act
  depth : actDepth token.act ≤ maxDelegationDepth
  notAdmin : ¬ token.isAdmin

/-- An exchange leads on to a token only through the handler. -/
theorem exists_handleTokenExchange {subject token : AccessToken} {request : Exchange}
    (h : exchange subject request = some token) :
    ∃ issued, handleTokenExchange request.ctx request.body
        { request.reads with subject := some subject } = .ok (.delegated issued) ∧
      issued.accessToken = token := by
  unfold exchange at h
  split at h
  · rename_i issued hissued
    exact ⟨issued, hissued, Option.some.inj h⟩
  · cases h

theorem delegates_of_exchange {subject token : AccessToken} {request : Exchange}
    (h : exchange subject request = some token) : Delegates request.agent subject token := by
  obtain ⟨issued, hissued, rfl⟩ := exists_handleTokenExchange h
  obtain ⟨subject', scopes, hsubject, hbinding, hrequested, htargets, hdepth, hscopes, htoken⟩ :=
    handleTokenExchange_eq_ok hissued
  cases hsubject
  obtain ⟨hamong, hadmin⟩ := issuableScopes_eq_ok hscopes
  rw [htoken]
  refine ⟨fun s hs ↦ ?_, fun a ha ↦ ?_, fun e he ↦ exp_signAccessToken_le he, fun jkt hjkt ↦ ?_,
    actors_nest _ _, hdepth, ?_⟩
  · rw [scopes_signAccessToken] at hs
    exact hrequested s (List.mem_of_mem_filter (hamong s hs))
  · rw [audience_signAccessToken] at ha
    replace ha : a ∈ (arrayToAud (effectiveResource (requestedTargets request.body)
      subject.audience)).values := ha
    rw [values_arrayToAud] at ha
    exact (effectiveResource_narrows htargets).1 a ha
  · exact subjectBindingRefusal_eq_none hbinding hjkt
  · rw [isAdmin_signAccessToken]
    exact fun hissuedAdmin ↦ (hadmin hissuedAdmin).2 rfl

/-- What the last token of a chain of exchanges by `agents` has from the first. -/
structure DelegatedFrom (agents : List String) (first token : AccessToken) : Prop where
  scopes : ∀ s ∈ token.scopes, s ∈ first.scopes
  audience : ∀ a ∈ token.audience, a ∈ first.audience
  exp : ∀ e, first.exp = some e → ∃ e', token.exp = some e' ∧ e' ≤ e
  key : ∀ jkt, first.cnf = some jkt → token.cnf = some jkt
  actors : actors token.act = agents.reverse ++ actors first.act

theorem DelegatedFrom.refl (token : AccessToken) : DelegatedFrom [] token token :=
  ⟨fun _ h ↦ h, fun _ h ↦ h, fun e he ↦ ⟨e, he, Nat.le_refl e⟩, fun _ h ↦ h, rfl⟩

/-- A chain is one exchange, and then a chain from its token. -/
theorem DelegatedFrom.cons {agent : String} {agents : List String}
    {first second token : AccessToken} (head : Delegates agent first second)
    (tail : DelegatedFrom agents second token) : DelegatedFrom (agent :: agents) first token where
  scopes s hs := head.scopes s (tail.scopes s hs)
  audience a ha := head.audience a (tail.audience a ha)
  exp e he := by
    obtain ⟨e', he', hle⟩ := head.exp e he
    obtain ⟨e'', he'', hle'⟩ := tail.exp e' he'
    exact ⟨e'', he'', Nat.le_trans hle' hle⟩
  key jkt hjkt := tail.key jkt (head.key jkt hjkt)
  actors := by rw [tail.actors, head.actors, List.reverse_cons, List.append_assoc]; rfl

theorem delegatedFrom_of_run {first token : AccessToken} {requests : List Exchange}
    (h : Run exchange first requests token) :
    DelegatedFrom (requests.map Exchange.agent) first token := by
  induction h with
  | nil => exact .refl _
  | cons head _ ih => exact .cons (delegates_of_exchange head) ih

/-- Along every chain of exchanges, each token delegates from its subject token, and has no more
than the token the chain started from; the audit of its chain of actors is whole. -/
theorem exchange_chain_narrows {first subject token : AccessToken} {requests : List Exchange}
    {request : Exchange} (hrun : Run exchange first requests subject)
    (hexchange : exchange subject request = some token) :
    Delegates request.agent subject token ∧
      DelegatedFrom ((requests ++ [request]).map Exchange.agent) first token ∧
      ("" ∉ actors token.act →
        flattenActChain token.act maxDelegationDepth = actors token.act) := by
  have hlink := delegates_of_exchange hexchange
  exact ⟨hlink, delegatedFrom_of_run (hrun.append (.cons hexchange (.nil _))),
    fun hnames ↦ flattenActChain_eq_actors hnames hlink.depth⟩

namespace Sample

/-- An agent of the realm. -/
def agent (clientId : String) : OAuthClient where
  id := clientId
  clientId := clientId
  grantTypes := [tokenExchangeGrantType]
  scopes := []
  clientCredentialsScopes := none
  audience := none
  tokenEndpointAuthMethod := some "client_secret_basic"
  isAgent := true
  maxAgentMode := none
  registrationType := none
  dynamicRegisteredAt := none
  nativeRedirectUrisOnly := false

/-- An exchange by the agent `clientId`, at `now`, under the key `key`. -/
def delegation (clientId : String) (scope : Option String) (audience : List String) (now : ℕ) :
    Exchange where
  ctx :=
    { client := agent clientId
      policy := ⟨true, .short⟩
      ssoMaxLifespan := none
      tokenLifetimes := ⟨900, 3600, 86400, 300⟩
      dpopThumbprint := some "key"
      dpopEnabled := true
      systemClientId := "system" }
  body := ⟨tokenTypeAccessToken, none, false, none, scope, [], audience⟩
  reads :=
    { subject := none
      actor := none
      isJtiRevoked := fun _ ↦ false
      accounts := .ofList [⟨"u1", true, none⟩]
      directory := ⟨.ofList [⟨"u1", true, none⟩], fun _ ↦ []⟩
      idJagEnabled := false
      now := now
      jti := "jti"
      signedAt := now }

/-- A user's token bound to a key, for two agents. -/
def userToken : AccessToken where
  sub := "u1"
  clientId := some "app"
  jti := some "j1"
  tokenUse := some "access"
  scope := some "openid notes:read"
  aud := some (.many ["agent1", "agent2", "https://a"])
  act := none
  cnf := some "key"
  authTime := none
  amr := none
  sid := none
  iat := some 1
  exp := some 600

end Sample

/-- A chain of two exchanges of one token, the second of which drops a scope and two audiences. -/
theorem exchange_chain_narrows_twice :
    ∃ subject token,
      exchange Sample.userToken (Sample.delegation "agent1" none [] 2000) = some subject ∧
        exchange subject (Sample.delegation "agent2" (some "openid") ["agent2"] 3000) =
            some token ∧
          DelegatedFrom ["agent1", "agent2"] Sample.userToken token ∧
          actors token.act = ["agent2", "agent1"] := by
  have hfacts : ((exchange Sample.userToken (Sample.delegation "agent1" none [] 2000)).bind
      fun subject ↦
        exchange subject (Sample.delegation "agent2" (some "openid") ["agent2"] 3000)).isSome =
      true := by decide
  obtain ⟨token, hfacts⟩ := Option.isSome_iff_exists.mp hfacts
  obtain ⟨subject, hfirst, hsecond⟩ := Option.bind_eq_some_iff.mp hfacts
  have hchain := (exchange_chain_narrows (.cons hfirst (.nil _)) hsecond).2.1
  exact ⟨subject, token, hfirst, hsecond, hchain, hchain.actors⟩

end QAuth.Token
