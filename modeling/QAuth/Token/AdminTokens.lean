import QAuth.Token.ClientCredentials
import QAuth.Token.Exchange
import QAuth.Token.Rotation

/-!
# Admin tokens are bound to a key

An admin token, one with an admin scope or the admin audience, is issued only bound to the DPoP key
of the request, and a refresh issues one only from a family bound to that key since its first
token: `handleRefreshToken` refuses the admin audience to a row bound to no key, withholds the
admin scopes from it, and drops them from the row it stores.

A family that began unbound can be bound by a later rotation. Its rows then hold no admin scope and
no resource that names the admin API, so only an audience that comes from neither can make its
tokens admin tokens: the default audience of a client, which is the client id itself where nothing
else is left, or all of its audience for the system client. `DefaultsToAdmin` singles these out.
-/

namespace QAuth.Token

open Guards Transition

def DefaultsToAdmin (ctx : HandlerContext) : Prop :=
  (resolveUserGrantAudience ctx.systemClientId ctx.client []).namesAdmin = true

/-- A refresh is admitted to a family that began with `first` unless the family began unbound and
was bound later, has no resource, and the client defaults to the admin audience. -/
def KeepsUnbound (first : RefreshToken) (family : Family) (refresh : Refresh) : Prop :=
  first.cnfJkt = none → family.row.cnfJkt ≠ none → family.row.resource = [] →
    ¬ DefaultsToAdmin refresh.ctx

/-! ### The grants without a family -/

theorem bound_of_handleAuthorizationCode {ctx : HandlerContext} {body : CodeBody}
    {reads : CodeReads} {spent : Bool} {jti : String} {signedAt : ℕ} {issued : Issued}
    (h : handleAuthorizationCode ctx body reads spent jti signedAt = .ok issued)
    (hadmin : issued.accessToken.isAdmin) :
    ∃ jkt, issued.accessToken.cnf = some jkt ∧
      ∀ first, issued.refresh = some first → first.cnfJkt = some jkt := by
  obtain ⟨redemption, hcheck, rfl⟩ := handleAuthorizationCode_eq_ok h
  obtain ⟨-, -, -, -, -, scopes, hscopes, hpayload, hrefresh⟩ := checkRedemption_eq_ok hcheck
  rw [issue, isAdmin_signAccessToken, hpayload] at hadmin
  obtain ⟨hproof, -⟩ := (issuableScopes_eq_ok hscopes).2 hadmin
  obtain ⟨jkt, hjkt⟩ := Option.isSome_iff_exists.mp hproof
  refine ⟨jkt, ?_, fun first hfirst ↦ ?_⟩
  · rw [issue, hpayload]
    exact hjkt
  · rw [hrefresh first hfirst]
    exact (refreshTokenBinding_of_admin hadmin).trans hjkt

/-- A client's own token is no admin token. -/
theorem not_isAdmin_of_handleClientCredentials {ctx : HandlerContext}
    {body : ClientCredentialsBody} {directory : Directory} {jti : String} {signedAt : ℕ}
    {issued : Issued} (h : handleClientCredentials ctx body directory jti signedAt = .ok issued) :
    ¬ issued.accessToken.isAdmin := by
  obtain ⟨granted, scopes, hscopes, htoken⟩ := handleClientCredentials_eq_ok h
  rw [htoken, isAdmin_signAccessToken]
  exact fun hadmin ↦ ((issuableScopes_eq_ok hscopes).2 hadmin).2 rfl

theorem not_isAdmin_of_handleTokenExchange {ctx : HandlerContext} {body : ExchangeBody}
    {reads : ExchangeReads} {issued : Issued}
    (h : handleTokenExchange ctx body reads = .ok (.delegated issued)) :
    ¬ issued.accessToken.isAdmin := by
  obtain ⟨subject, scopes, -, -, -, -, -, hscopes, htoken⟩ := handleTokenExchange_eq_ok h
  rw [htoken, isAdmin_signAccessToken]
  exact fun hadmin ↦ ((issuableScopes_eq_ok hscopes).2 hadmin).2 rfl

/-! ### Refreshes -/

theorem bound_of_rotate {family next : Family} {refresh : Refresh}
    (h : rotate family refresh = some next) (hadmin : next.accessToken.isAdmin) :
    ∃ jkt, next.accessToken.cnf = some jkt ∧ family.row.cnfJkt = some jkt := by
  obtain ⟨hbinding, -, -, -, scopes, hscopes, rfl⟩ := rotate_eq_some h
  rw [isAdmin_signAccessToken] at hadmin
  obtain ⟨hbound, -⟩ := (issuableScopes_eq_ok hscopes).2 hadmin
  obtain ⟨jkt, hjkt⟩ := Option.isSome_iff_exists.mp hbound
  rw [hjkt] at hbinding
  exact ⟨jkt, dpopBindingRefusal_eq_none hbinding, hjkt⟩

/-- A rotation keeps the key its row is bound to. -/
theorem cnfJkt_of_rotate {family next : Family} {refresh : Refresh} {jkt : String}
    (h : rotate family refresh = some next) (hbound : family.row.cnfJkt = some jkt) :
    next.row.cnfJkt = some jkt := by
  obtain ⟨-, -, -, -, scopes, -, rfl⟩ := rotate_eq_some h
  show family.row.cnfJkt.or _ = some jkt
  rw [hbound]
  rfl

/-- Of a family that began unbound: a row bound since holds no admin scope and no resource that
names the admin API. -/
def UnboundStart (family : Family) : Prop :=
  family.row.cnfJkt ≠ none →
    (∀ s ∈ family.row.scopes, isAdminScope s = false) ∧
      ApiFamily.admin.audience ∉ family.row.resource

theorem mem_resource_of_namesAdmin {systemClientId : String} {client : OAuthClient}
    {resource : List String} (hresource : resource ≠ [])
    (h : (resolveUserGrantAudience systemClientId client resource).namesAdmin = true) :
    ApiFamily.admin.audience ∈ resource := by
  rw [Audience.namesAdmin, resolveUserGrantAudience_of_resource hresource] at h
  simpa using h

/-- A rotation of a row bound to no key stores no admin scope, and no resource of the admin API. -/
theorem unboundStart_of_unbound {family next : Family} {refresh : Refresh}
    (h : rotate family refresh = some next) (hunbound : family.row.cnfJkt = none) :
    UnboundStart next := by
  obtain ⟨-, -, -, hrefused, scopes, -, rfl⟩ := rotate_eq_some h
  refine fun _ ↦ ⟨?_, fun hmem ↦ ?_⟩
  · intro s hs
    replace hs : s ∈ familyScopes family.row.cnfJkt.isSome _ := hs
    rw [hunbound] at hs
    exact not_isAdminScope_of_mem_familyScopes hs
  · replace hmem : ApiFamily.admin.audience ∈
      effectiveResource refresh.body.resource family.row.resource := hmem
    have hne : effectiveResource refresh.body.resource family.row.resource ≠ [] :=
      List.ne_nil_of_mem hmem
    have hrefused' := hrefused hunbound
    rw [Refresh.aud, Audience.namesAdmin, resolveUserGrantAudience_of_resource hne] at hrefused'
    simp [hmem] at hrefused'

/-- A rotation of a row bound since stores nothing new. -/
theorem unboundStart_of_bound {family next : Family} {refresh : Refresh}
    (h : rotate family refresh = some next) (hfamily : UnboundStart family)
    (hbound : family.row.cnfJkt ≠ none) : UnboundStart next := by
  obtain ⟨-, hrequested, hresource, -, scopes, -, rfl⟩ := rotate_eq_some h
  obtain ⟨hscopes, hadmin⟩ := hfamily hbound
  exact fun _ ↦ ⟨fun s hs ↦ hscopes s (hrequested s (mem_familyScopes hs)),
    fun hmem ↦ hadmin ((effectiveResource_narrows hresource).1 _ hmem)⟩

theorem not_isAdmin_of_unboundStart {family next : Family} {refresh : Refresh}
    (h : rotate family refresh = some next) (hfamily : UnboundStart family)
    (hbound : family.row.cnfJkt ≠ none)
    (hkeeps : family.row.resource = [] → ¬ DefaultsToAdmin refresh.ctx) :
    ¬ next.accessToken.isAdmin := by
  obtain ⟨-, hrequested, hresource, -, scopes, hissuable, rfl⟩ := rotate_eq_some h
  obtain ⟨hscopes, hadmin⟩ := hfamily hbound
  obtain ⟨hamong, hsome⟩ := effectiveResource_narrows hresource
  rw [isAdmin_signAccessToken, isAdminToken, Bool.or_eq_true, not_or]
  refine ⟨fun hnames ↦ ?_, fun hany ↦ ?_⟩
  · replace hnames : (refresh.aud family.row).namesAdmin = true := hnames
    by_cases hnil : effectiveResource refresh.body.resource family.row.resource = []
    · -- No resource at all: the audience is the client's default.
      rw [Refresh.aud, hnil] at hnames
      have hrow : family.row.resource = [] := by
        by_contra hne
        exact hsome hne hnil
      exact hkeeps hrow hnames
    · exact hadmin (hamong _ (mem_resource_of_namesAdmin hnil hnames))
  · obtain ⟨s, hs, hscope⟩ := List.any_eq_true.mp hany
    have hrow : s ∈ family.row.scopes := hrequested s ((issuableScopes_eq_ok hissuable).1 s hs)
    rw [hscopes s hrow] at hscope
    cases hscope

/-- What every row of a chain has of its first: the same key, or what `UnboundStart` says. -/
theorem unboundStart_of_run {first : RefreshToken} {accessToken : AccessToken}
    {refreshes : List Refresh} {family : Family}
    (h : Run rotate ⟨first, accessToken⟩ refreshes family) :
    (∀ jkt, first.cnfJkt = some jkt → family.row.cnfJkt = some jkt) ∧
      (first.cnfJkt = none → UnboundStart family) := by
  refine h.induct (P := fun family ↦ (∀ jkt, first.cnfJkt = some jkt →
    family.row.cnfJkt = some jkt) ∧ (first.cnfJkt = none → UnboundStart family)) ?_ ?_
  · rintro s refresh t ⟨hkey, hstart⟩ hrotate
    refine ⟨fun jkt hjkt ↦ cnfJkt_of_rotate hrotate (hkey jkt hjkt), fun hnone ↦ ?_⟩
    by_cases hbound : s.row.cnfJkt = none
    · exact unboundStart_of_unbound hrotate hbound
    · exact unboundStart_of_bound hrotate (hstart hnone) hbound
  · exact ⟨fun jkt hjkt ↦ hjkt, fun hnone hbound ↦ absurd hnone hbound⟩

/-- Without resources there is nothing to narrow. -/
theorem effectiveResource_of_bound_nil {requested : List String}
    (h : (requested.filter fun r ↦ r ∉ ([] : List String)) = []) :
    effectiveResource requested [] = [] := by
  have hreq : requested = [] := by simpa using h
  rw [hreq]
  rfl

theorem isAdmin_of_not_keepsUnbound {first : RefreshToken} {family next : Family}
    {refresh : Refresh} (h : rotate family refresh = some next)
    (hkeeps : ¬ KeepsUnbound first family refresh) :
    first.cnfJkt = none ∧ next.accessToken.isAdmin := by
  obtain ⟨-, -, hresource, -, scopes, -, rfl⟩ := rotate_eq_some h
  simp only [KeepsUnbound, not_forall, not_not] at hkeeps
  obtain ⟨hfirst, -, hnil, hdefaults⟩ := hkeeps
  refine ⟨hfirst, ?_⟩
  rw [hnil] at hresource
  rw [isAdmin_signAccessToken, isAdminToken, Bool.or_eq_true]
  left
  show (refresh.aud family.row).namesAdmin = true
  rw [Refresh.aud, hnil, effectiveResource_of_bound_nil hresource]
  exact hdefaults

/-! ### Requests to the token endpoint -/

/-- A request of one of the four grants; a refresh with the chain of its family, from the first
row to the latest. -/
inductive TokenRequest
  | code (ctx : HandlerContext) (body : CodeBody) (reads : CodeReads) (spent : Bool)
      (jti : String) (signedAt : ℕ)
  | clientCredentials (ctx : HandlerContext) (body : ClientCredentialsBody)
      (directory : Directory) (jti : String) (signedAt : ℕ)
  | exchange (ctx : HandlerContext) (body : ExchangeBody) (reads : ExchangeReads)
  | refresh (first : RefreshToken) (accessToken : AccessToken) (refreshes : List Refresh)
      (family : Family) (last : Refresh)

namespace TokenRequest

def Yields (token : AccessToken) : TokenRequest → Prop
  | code ctx body reads spent jti signedAt =>
    ∃ issued, handleAuthorizationCode ctx body reads spent jti signedAt = .ok issued ∧
      issued.accessToken = token
  | clientCredentials ctx body directory jti signedAt =>
    ∃ issued, handleClientCredentials ctx body directory jti signedAt = .ok issued ∧
      issued.accessToken = token
  | exchange ctx body reads =>
    ∃ issued, handleTokenExchange ctx body reads = .ok (.delegated issued) ∧
      issued.accessToken = token
  | refresh first accessToken refreshes family last =>
    Run rotate ⟨first, accessToken⟩ refreshes family ∧
      ∃ next, rotate family last = some next ∧ next.accessToken = token

/-- The key an admin token has to be bound to: any, and on refresh that of the family's first
row. -/
def HasKey (jkt : String) : TokenRequest → Prop
  | refresh first _ _ _ _ => first.cnfJkt = some jkt
  | _ => True

/-- The request is no refresh that makes an admin family of one that began unbound. -/
def KeepsUnbound : TokenRequest → Prop
  | refresh first _ _ family last => Token.KeepsUnbound first family last
  | _ => True

end TokenRequest

theorem bound_of_run_iff {first : RefreshToken} {accessToken : AccessToken}
    {refreshes : List Refresh} {family next : Family} {refresh : Refresh}
    (hrun : Run rotate ⟨first, accessToken⟩ refreshes family)
    (hrotate : rotate family refresh = some next) :
    (next.accessToken.isAdmin →
        ∃ jkt, next.accessToken.cnf = some jkt ∧ first.cnfJkt = some jkt) ↔
      KeepsUnbound first family refresh := by
  constructor
  · intro hbound
    by_contra hkeeps
    obtain ⟨hfirst, hadmin⟩ := isAdmin_of_not_keepsUnbound hrotate hkeeps
    obtain ⟨jkt, -, hjkt⟩ := hbound hadmin
    rw [hfirst] at hjkt
    cases hjkt
  · intro hkeeps hadmin
    obtain ⟨jkt, hcnf, hrow⟩ := bound_of_rotate hrotate hadmin
    obtain ⟨hkey, hstart⟩ := unboundStart_of_run hrun
    have hbound : family.row.cnfJkt ≠ none := by
      rw [hrow]
      exact Option.some_ne_none jkt
    refine ⟨jkt, hcnf, ?_⟩
    cases hfirst : first.cnfJkt with
    | none =>
      exact absurd hadmin
        (not_isAdmin_of_unboundStart hrotate (hstart hfirst) hbound (hkeeps hfirst hbound))
    | some key => rw [← hkey key hfirst, hrow]

/-- Whichever grant answers a request, an admin token is bound to a key, and on refresh to the one
the family is bound to since its first token. This holds exactly where the request is no refresh
of a family bound later, without resources, by a client that defaults to the admin audience. -/
theorem admin_tokens_bound (request : TokenRequest) (token : AccessToken)
    (h : request.Yields token) :
    (token.isAdmin → ∃ jkt, token.cnf = some jkt ∧ request.HasKey jkt) ↔
      request.KeepsUnbound := by
  cases request with
  | code ctx body reads spent jti signedAt =>
    obtain ⟨issued, hissued, rfl⟩ := h
    refine ⟨fun _ ↦ trivial, fun _ hadmin ↦ ?_⟩
    obtain ⟨jkt, hcnf, -⟩ := bound_of_handleAuthorizationCode hissued hadmin
    exact ⟨jkt, hcnf, trivial⟩
  | clientCredentials ctx body directory jti signedAt =>
    obtain ⟨issued, hissued, rfl⟩ := h
    exact ⟨fun _ ↦ trivial, fun _ hadmin ↦
      absurd hadmin (not_isAdmin_of_handleClientCredentials hissued)⟩
  | exchange ctx body reads =>
    obtain ⟨issued, hissued, rfl⟩ := h
    exact ⟨fun _ ↦ trivial, fun _ hadmin ↦
      absurd hadmin (not_isAdmin_of_handleTokenExchange hissued)⟩
  | refresh first accessToken refreshes family last =>
    obtain ⟨hrun, next, hrotate, rfl⟩ := h
    exact bound_of_run_iff hrun hrotate

namespace Sample

/-- A public client an operator lets reach the admin API. -/
def console : OAuthClient :=
  { app with
    id := "c3"
    audience := some ["urn:qauth:aud:admin:v1-rc.0"] }

/-- A refresh of the console's token under its key. -/
def consoleRefresh : Refresh := refresh (ctx console (some "key")) none [] "r2" 3000

end Sample

/-- A refresh that issues an admin token, from a family bound to its key from the start. -/
theorem admin_tokens_bound_console :
    ∃ first accessToken next, rotate ⟨first, accessToken⟩ Sample.consoleRefresh = some next ∧
      next.accessToken.isAdmin ∧
        ∃ jkt, next.accessToken.cnf = some jkt ∧ first.cnfJkt = some jkt := by
  have hfacts : ((Sample.chain (Sample.ctx Sample.console (some "key"))
      (Sample.code "c3" ["urn:qauth:aud:admin:v1-rc.0"]) []).bind fun c ↦
        (rotate c.2.2 Sample.consoleRefresh).map fun next ↦
          (c.2.2.row.cnfJkt, decide next.accessToken.isAdmin)) = some (some "key", true) := by
    decide
  obtain ⟨⟨issued, first, family⟩, -, hrotate⟩ := Option.bind_eq_some_iff.mp hfacts
  obtain ⟨next, hrotate, hnext⟩ := Option.map_eq_some_iff.mp hrotate
  simp only [Prod.mk.injEq, decide_eq_true_eq] at hnext
  obtain ⟨hfirst, hadmin⟩ := hnext
  have hkeeps : KeepsUnbound family.row family Sample.consoleRefresh := fun hnone ↦ by
    rw [hfirst] at hnone
    cases hnone
  have hkey := (admin_tokens_bound
    (.refresh family.row family.accessToken [] family Sample.consoleRefresh) next.accessToken
    ⟨.nil _, next, hrotate, rfl⟩).mpr hkeeps
  exact ⟨family.row, family.accessToken, next, hrotate, hadmin, hkey hadmin⟩

namespace Sample

def adminNamed (audience : List String) : OAuthClient :=
  { app with
    id := "c2"
    clientId := "urn:qauth:aud:admin:v1-rc.0"
    audience := some audience }

/-- A refresh under a key, and another once the client lists the admin audience alone. -/
def lateBinding : List Refresh :=
  [refresh (ctx (adminNamed ["https://a"]) (some "key")) none [] "r2" 3000,
    refresh (ctx (adminNamed ["urn:qauth:aud:admin:v1-rc.0"]) (some "key")) none [] "r3" 4000]

end Sample

/-- A family that began unbound and was bound by a later rotation can yield an admin token: the
client's id is the admin audience, and its own audience was changed to list that one alone. -/
theorem late_bound_family_yields_admin_token :
    ¬ ∀ ctx body reads jti signedAt issued first rowId createdAt refreshes family,
      handleAuthorizationCode ctx body reads true jti signedAt = .ok issued →
        issued.refresh = some first →
        Run rotate (Family.start first issued rowId createdAt) refreshes family →
          family.accessToken.isAdmin → first.cnfJkt ≠ none := by
  intro hall
  have hfacts : (Sample.chain (Sample.ctx (Sample.adminNamed ["https://a"]) none)
      (Sample.code "c2" []) Sample.lateBinding).map
        (fun c ↦ (c.2.1.cnfJkt, decide c.2.2.accessToken.isAdmin)) = some (none, true) := by
    decide
  obtain ⟨⟨issued, first, family⟩, hchain, hfacts⟩ := Option.map_eq_some_iff.mp hfacts
  simp only [Prod.mk.injEq, decide_eq_true_eq] at hfacts
  obtain ⟨hissued, hfirst, hrun⟩ := Sample.of_chain hchain
  exact hall _ _ _ _ _ issued first _ _ _ family hissued hfirst hrun hfacts.2 hfacts.1

end QAuth.Token
