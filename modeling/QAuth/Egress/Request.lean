import QAuth.Egress.Allowlist
import QAuth.Foundation.Effect

/-!
# Egress calls

One outbound call, with the redirects it follows (`destination.ts`, `egress-client.ts`). The URL
parser is a parameter, as is whatever the clock, the resolver and the exchanges answer.
-/

namespace QAuth.Egress

/-! ### URLs -/

/-- What the program reads of a URL. -/
structure Url where
  href : JsString
  protocol : JsString
  username : JsString
  password : JsString
  hostname : JsString
  port : JsString
  pathname : JsString
  search : JsString

/-- `new URL(text, base)`, where it does not throw. A URL as the base is its `href`. -/
abbrev UrlParser := JsString → Option JsString → Option Url

/-- A URL as a caller gives it. -/
inductive UrlInput
  | text (s : JsString)
  | url (u : Url)

/-- What `new URL` parses of it. -/
def UrlInput.source : UrlInput → JsString
  | .text s => s
  | .url u => u.href

/-! ### Errors -/

/-- Why an egress call did not complete. -/
inductive EgressErrorReason
  | scheme
  | credentials
  | address
  | redirect
  | size
  | timeout
  | network
  | busy

/-- Whether a check refused the call, or it did not complete. -/
inductive EgressOutcome
  | blocked
  | failed

/-- A refusal or failure inside the client. -/
structure EgressFailure where
  reason : EgressErrorReason
  outcome : EgressOutcome
  message : JsString

/-- The reason of an exchange that failed, as the client gives it. -/
def ExchangeFailureReason.toError : ExchangeFailureReason → EgressErrorReason
  | .timeout => .timeout
  | .network => .network
  | .size => .size
  | .busy => .busy

/-- A kind of address in a message. -/
def AddressKind.text : AddressKind → String
  | .publicUnicast => "public"
  | .unspecified => "unspecified"
  | .loopback => "loopback"
  | .privateUse => "private"
  | .shared => "shared"
  | .linkLocal => "link-local"
  | .uniqueLocal => "unique-local"
  | .multicast => "multicast"
  | .documentation => "documentation"
  | .reserved => "reserved"
  | .invalid => "invalid"

/-! ### The checks of a destination -/

/-- A URL that passed the checks that need no network. -/
structure CheckedUrl where
  url : Url
  hostname : JsString
  port : ℕ
  /-- 4 or 6 when the host is an IP literal, else 0. -/
  literalFamily : ℕ

/-- A URL's host name without IPv6 brackets or a trailing dot, in lower case. -/
def normalizeHostname (hostname : JsString) : JsString :=
  lowerCase (stripDot (stripBrackets hostname))

/-- The host of a URL for errors and logs. -/
def hostOf (url : Url) : Option JsString :=
  if normalizeHostname url.hostname = [] then none else some (normalizeHostname url.hostname)

/-- `hostForLog`. -/
def hostForLog (parser : UrlParser) : UrlInput → Option JsString
  | .text s => (parser s none).bind hostOf
  | .url u => hostOf u

/-- Whether a non-public address of a host may be dialled for this call. -/
def permitted (hostname address : JsString) (kind : AddressKind) (permit : Option AddressPermit) :
    Bool :=
  match permit with
  | none => false
  | some permit =>
    if kind = .unspecified ∨ kind = .multicast ∨ kind = .invalid then false
    else if isCloudMetadataAddress address then false
    else permit hostname address

/-- Whether an address of a host may be dialled for this call. -/
def dialable (hostname address : JsString) (permit : Option AddressPermit) : Bool :=
  addressKind address = .publicUnicast || permitted hostname address (addressKind address) permit

/-- The checks of a destination that need no network. -/
def checkUrl (parser : UrlParser) (input : UrlInput) (permit : Option AddressPermit) :
    Except EgressFailure CheckedUrl :=
  match parser input.source none with
  | none => .error ⟨.scheme, .blocked, units "egress refused: not a valid URL"⟩
  | some url =>
    if url.protocol ≠ units "https:" then
      .error ⟨.scheme, .blocked, units "egress" ++
        (if url.hostname = [] then [] else units " to " ++ url.hostname) ++
        units " refused: only https is allowed"⟩
    else if url.username ≠ [] ∨ url.password ≠ [] then
      .error ⟨.credentials, .blocked, units "egress to " ++ url.hostname ++
        units " refused: the URL carries credentials"⟩
    else
      let hostname := normalizeHostname url.hostname
      let family := isIP hostname
      if family ≠ 0 ∧ dialable hostname hostname permit = false then
        .error ⟨.address, .blocked, units "egress to " ++ hostname ++ units " refused: it is a " ++
          units (addressKind hostname).text ++ units " address"⟩
      else
        .ok ⟨url, hostname, if url.port = [] then 443 else parseInt 10 url.port, family⟩

/-- An address that a host name resolves to. -/
structure LookupAddress where
  address : JsString
  family : ℕ
deriving DecidableEq

/-- How a resolver answers. -/
inductive Resolution
  | addresses (list : List LookupAddress)
  | rejected (code : Option JsString)
  | failure (failure : EgressFailure)

/-! ### Calls -/

/-- The HTTP methods the client sends. -/
inductive EgressMethod
  | get
  | post
  | put
  | patch
  | delete
  | head
deriving DecidableEq

/-- `EGRESS_METHODS`, with their names. -/
def EGRESS_METHODS : List (String × EgressMethod) :=
  [("GET", .get), ("POST", .post), ("PUT", .put), ("PATCH", .patch), ("DELETE", .delete),
    ("HEAD", .head)]

/-- Who set the destination of a call. -/
inductive EgressSource
  | operator
  | admin
  | client
  | endUser
  | remoteDocument
deriving DecidableEq

/-- `EGRESS_SOURCES`, with their names. -/
def EGRESS_SOURCES : List (String × EgressSource) :=
  [("operator", .operator), ("admin", .admin), ("client", .client), ("end_user", .endUser),
    ("remote_document", .remoteDocument)]

/-- Whether the allowlist may apply to a destination. -/
def allowlistApplies (source : EgressSource) : Bool := source = .operator || source = .admin

/-- The caps of one call. -/
structure EgressLimits where
  connectTimeoutMs : ℕ
  totalTimeoutMs : ℕ
  maxRequestBytes : ℕ
  maxResponseBytes : ℕ
  maxRedirects : ℕ

/-- The caps a call gets unless the client or the call sets its own. -/
def DEFAULT_EGRESS_LIMITS : EgressLimits := ⟨5000, 10000, 1024 * 1024, 1024 * 1024, 3⟩

/-- A number that a caller gives for a cap: a safe integer, or another. -/
inductive LimitValue
  | integer (n : ℤ)
  | other

/-- The caps that a caller sets. -/
structure LimitOverrides where
  connectTimeoutMs : Option LimitValue
  totalTimeoutMs : Option LimitValue
  maxRequestBytes : Option LimitValue
  maxResponseBytes : Option LimitValue
  maxRedirects : Option LimitValue

/-- A body as a caller gives it. -/
inductive RequestBody
  | text (s : JsString)
  | bytes (b : List UInt8)

def RequestBody.toBytes : RequestBody → List UInt8
  | .text s => utf8 s
  | .bytes b => b

/-- One outbound call, before its checks. -/
structure EgressRequest where
  method : JsString
  url : UrlInput
  headers : List (JsString × JsString)
  body : Option RequestBody
  purpose : JsString
  source : JsString
  realm : Option JsString
  limits : LimitOverrides

/-- The error an egress call rejects with. -/
structure EgressError where
  reason : EgressErrorReason
  outcome : EgressOutcome
  purpose : JsString
  host : Option JsString
  message : JsString

/-- What a call throws: a `TypeError` of the client or of Node, the client's one error, or, inside
the client, a failure. -/
inductive Thrown
  | typeError (message : JsString)
  | invalidHeader (name : JsString)
  | error (e : EgressError)
  | failure (f : EgressFailure)

/-- A code unit of a purpose after the first. -/
def isPurposeUnit (u : UInt16) : Bool :=
  (unit 'a' ≤ u && u ≤ unit 'z') || (unit '0' ≤ u && u ≤ unit '9') || u ∈ units "_.:-"

/-- `checkPurpose`: a label of at most 64 characters. -/
def checkPurpose (purpose : JsString) : Except Thrown JsString :=
  if purpose.length ≤ 64 ∧ purpose.all isPurposeUnit ∧
      (purpose.head?.any fun u ↦ unit 'a' ≤ u && u ≤ unit 'z') then .ok purpose
  else .error (.typeError
    (units "egress purpose must be a short lower-case label such as \"webhook\""))

/-- `checkSource`. -/
def checkSource (source : JsString) : Except Thrown EgressSource :=
  match EGRESS_SOURCES.find? fun s ↦ units s.1 = source with
  | some s => .ok s.2
  | none => .error (.typeError (units
      "egress source must be one of operator, admin, client, end_user, remote_document"))

/-- `checkRealm`. -/
def checkRealm (realm : Option JsString) : Except Thrown (Option JsString) :=
  if realm = some [] then .error (.typeError (units "egress realm must be a realm name"))
  else .ok realm

/-- The method of a call. -/
def checkMethod (method : JsString) : Except Thrown EgressMethod :=
  match EGRESS_METHODS.find? fun m ↦ units m.1 = method with
  | some m => .ok m.2
  | none => .error (.typeError (units
      "egress method must be one of GET, POST, PUT, PATCH, DELETE, HEAD"))

/-- One cap: the caller's, where it sets one. -/
def mergeLimit (key : String) (min base : ℕ) (value : Option LimitValue) : Except Thrown ℕ :=
  let refused := .typeError (units s!"egress limit {key} must be an integer of at least {min}")
  match value with
  | none => .ok base
  | some (.integer n) => if n < min then .error refused else .ok n.toNat
  | some .other => .error refused

/-- `mergeLimits`. -/
def mergeLimits (base : EgressLimits) (overrides : LimitOverrides) :
    Except Thrown EgressLimits := do
  let connect ← mergeLimit "connectTimeoutMs" 1 base.connectTimeoutMs overrides.connectTimeoutMs
  let total ← mergeLimit "totalTimeoutMs" 1 base.totalTimeoutMs overrides.totalTimeoutMs
  let maxRequest ← mergeLimit "maxRequestBytes" 0 base.maxRequestBytes overrides.maxRequestBytes
  let maxResponse ← mergeLimit "maxResponseBytes" 0 base.maxResponseBytes overrides.maxResponseBytes
  let maxRedirects ← mergeLimit "maxRedirects" 0 base.maxRedirects overrides.maxRedirects
  return ⟨connect, total, maxRequest, maxResponse, maxRedirects⟩

/-! ### Headers -/

/-- `headers[name] = value`. -/
def Headers.set (headers : Headers) (name value : JsString) : Headers :=
  if h : name ∈ headers.names then
    ⟨headers.entries.map fun e ↦ if e.1 = name then (name, value) else e, by
      have hnames : (headers.entries.map fun e ↦ if e.1 = name then (name, value) else e).map
          Prod.fst = headers.entries.map Prod.fst := by
        rw [List.map_map]
        refine List.map_congr_left fun e _ ↦ ?_
        rw [Function.comp_apply]
        split_ifs with he
        · exact he.symm
        · rfl
      rw [hnames]
      exact headers.nodup⟩
  else headers.assign name value h

def Headers.without (headers : Headers) (names : List String) : Headers :=
  ⟨headers.entries.filter fun e ↦ e.1 ∉ names.map units,
    headers.nodup.sublist (List.filter_sublist.map Prod.fst)⟩

/-- Set by the client or meaningful only to one hop. -/
def FORBIDDEN_HEADERS : List String :=
  ["host", "connection", "content-length", "transfer-encoding", "keep-alive", "upgrade", "te",
    "trailer", "expect", "proxy-connection", "proxy-authorization"]

/-- Dropped when a redirect leaves the origin the caller named. -/
def CREDENTIAL_HEADERS : List String := ["authorization", "cookie"]

/-- Dropped when a redirect turns the request into a `GET`. -/
def BODY_HEADERS : List String :=
  ["content-type", "content-encoding", "content-language", "content-location"]

def DEFAULT_USER_AGENT : String := "qauth-egress"

/-- One header of the caller. -/
def addHeader (result : Headers) (header : JsString × JsString) : Except Thrown Headers :=
  if !validateHeaderName header.1 || !validateHeaderValue header.2 then
    .error (.invalidHeader header.1)
  else
    let name := toLowerCase header.1
    if name ∈ FORBIDDEN_HEADERS.map units then
      .error (.typeError (units "egress request header " ++ name ++ units " is set by the client"))
    else .ok (result.set name header.2)

/-- `requestHeaders`. -/
def requestHeaders (headers : List (JsString × JsString)) : Except Thrown Headers :=
  headers.foldlM addHeader (Headers.empty.set (units "user-agent") (units DEFAULT_USER_AGENT))

/-- The name of a method. -/
def EgressMethod.text (method : EgressMethod) : String :=
  ((EGRESS_METHODS.find? fun m ↦ m.2 = method).map Prod.fst).getD ""

/-- `requestBodyBytes`: the body's size, where the method takes one. -/
def requestBodyBytes (method : EgressMethod) (body : Option RequestBody) :
    Except Thrown (Option ℕ) :=
  match body with
  | none => .ok none
  | some body =>
    if method = .get ∨ method = .head then
      .error (.typeError (units s!"an egress {method.text} request has no body"))
    else .ok (some body.toBytes.length)

/-! ### The network -/

/-- What a fetch process is given. -/
structure Exchange extends ExchangeJob where
  port : ℕ
  literalFamily : ℕ
  path : JsString
  addresses : List LookupAddress
  method : EgressMethod
  headers : Headers
  body : Option (List UInt8)
  connectTimeoutMs : ℕ

/-- What the client calls: the clock, the state of its deadline, and the transport. -/
inductive NetCall
  | now
  | aborted
  | resolveHost (hostname : JsString) (timeoutMs : ℤ)
  | exchange (job : Exchange)

def network.Answer : NetCall → Type
  | .now => ℤ
  | .aborted => Bool
  | .resolveHost .. => Resolution
  | .exchange _ => ExchangeOutcome

abbrev net : Effect.Ports := ⟨NetCall, network.Answer⟩

/-- A part of a call; the state is the host that an error would name. -/
abbrev EgressM (α : Type) := Effect.Proc net (Option JsString) Thrown α

/-- `Date.now()`. -/
def dateNow : EgressM ℤ := Effect.call (P := net) .now

/-- `signal.aborted`. -/
def signalAborted : EgressM Bool := Effect.call (P := net) .aborted

/-- `transport.resolveHost`. -/
def resolveHost (hostname : JsString) (timeoutMs : ℤ) : EgressM Resolution :=
  Effect.call (P := net) (.resolveHost hostname timeoutMs)

/-- `transport.exchange`, which never rejects. -/
def runExchange (job : Exchange) : EgressM ExchangeOutcome := Effect.call (P := net) (.exchange job)

/-- Refuse or fail. -/
def fail {α : Type} (reason : EgressErrorReason) (outcome : EgressOutcome) (message : JsString) :
    EgressM α :=
  Effect.exit (.failure ⟨reason, outcome, message⟩)

/-- What a check says. -/
def check {α : Type} : Except EgressFailure α → EgressM α
  | .ok a => pure a
  | .error f => Effect.exit (.failure f)

/-- Every address of the checked URL's host, each of them public or one the permit lets the call
reach. -/
def resolveCheckedAddresses (target : CheckedUrl) (timeoutMs : ℤ) (permit : Option AddressPermit) :
    EgressM (List LookupAddress) := do
  if target.literalFamily ≠ 0 then return [⟨target.hostname, target.literalFamily⟩]
  else
    match ← resolveHost target.hostname timeoutMs with
    | .failure f => Effect.exit (.failure f)
    | .rejected code =>
      fail .network .failed (units "egress to " ++ target.hostname ++
        units " failed: the name did not resolve" ++
        code.elim [] fun code ↦ units " (" ++ code ++ units ")")
    | .addresses addresses =>
      if addresses = [] then
        fail .network .failed (units "egress to " ++ target.hostname ++
          units " failed: the name has no addresses")
      else
        match addresses.find? fun a ↦ !dialable target.hostname a.address permit with
        | some a =>
          fail .address .blocked (units "egress to " ++ target.hostname ++
            units " refused: it resolves to a " ++ units (addressKind a.address).text ++
            units " address")
        | none => return addresses

/-- `withinDeadline`: when the deadline passed, its failure, whatever the work came to. -/
def withinDeadline {α : Type} (work : EgressM α) (host : JsString) : EgressM α := do
  let result ← Effect.attempt (fun _ ↦ true) work
  if ← signalAborted then
    fail .timeout .failed (units "egress to " ++ host ++ units " failed: the call timed out")
  else Effect.ofExcept result

/-! ### The loop over the redirects -/

/-- Where a request goes next, and what it carries there. -/
structure Hop where
  target : CheckedUrl
  permit : Option AddressPermit
  method : EgressMethod
  headers : Headers
  body : Option (List UInt8)

/-- Whether two checked URLs have one origin. -/
def sameOrigin (a b : CheckedUrl) : Bool := a.hostname = b.hostname && a.port = b.port

/-- Whether a redirect turns a request into a `GET`. -/
def turnsIntoGet (status : ℕ) (method : EgressMethod) : Bool :=
  (status = 303 && method ≠ .get && method ≠ .head) ||
    ((status = 301 || status = 302) && method = .post)

/-- What goes to the target of a redirect. -/
def Hop.next (hop : Hop) (target : CheckedUrl) (permit : Option AddressPermit) (status : ℕ) : Hop :=
  let headers := if sameOrigin hop.target target then hop.headers
    else hop.headers.without CREDENTIAL_HEADERS
  if turnsIntoGet status hop.method then ⟨target, permit, .get, headers.without BODY_HEADERS, none⟩
  else ⟨target, permit, hop.method, headers, hop.body⟩

/-- What the transport is given for a hop. -/
def Hop.exchange (hop : Hop) (limits : EgressLimits) (addresses : List LookupAddress) : Exchange where
  hostname := hop.target.hostname
  maxResponseBytes := limits.maxResponseBytes
  port := hop.target.port
  literalFamily := hop.target.literalFamily
  path := hop.target.url.pathname ++ hop.target.url.search
  addresses := addresses
  method := hop.method
  headers := hop.headers
  body := hop.body
  connectTimeoutMs := limits.connectTimeoutMs

/-- The final response of a call. -/
structure EgressResponse where
  status : ℕ
  headers : Headers
  body : List UInt8
  url : JsString
  redirects : ℕ

/-- What stays the same along the redirects of a call. -/
structure CallScope where
  parser : UrlParser
  limits : EgressLimits
  /-- What every call may reach; the test client's. -/
  basePermit : Option AddressPermit
  /-- What this call may reach. -/
  permit : Option AddressPermit
  /-- The host of the first URL. -/
  origin : JsString
  startedAt : ℤ

/-- The permit of a redirect target: another host is the remote side's choice. -/
def CallScope.permitOf (call : CallScope) (next : Url) : Option AddressPermit :=
  if hostOf next = some call.origin then call.permit else call.basePermit

def sendHop (call : CallScope) (hop : Hop) : EgressM ExchangeOutcome := do
  Effect.update fun _ ↦ some hop.target.hostname
  let now ← dateNow
  let timeoutMs := max 1 (call.limits.totalTimeoutMs - (now - call.startedAt))
  let addresses ← withinDeadline (resolveCheckedAddresses hop.target timeoutMs hop.permit)
    hop.target.hostname
  runExchange (hop.exchange call.limits addresses)

/-- The loop, with so many redirects left to follow. -/
def follow (call : CallScope) : ℕ → Hop → EgressM EgressResponse
  | left, hop => do
    match ← sendHop call hop with
    | .failed reason message => fail reason.toError .failed message
    | .response status headers body none =>
      return ⟨status, headers, body, hop.target.url.href, call.limits.maxRedirects - left⟩
    | .response status _ _ (some location) =>
      match left with
      | 0 =>
        fail .redirect .blocked (units "egress to " ++ hop.target.hostname ++
          units " refused: redirect limit of " ++ decimal call.limits.maxRedirects ++
          units " reached")
      | left + 1 =>
        match call.parser location (some hop.target.url.href) with
        | none =>
          fail .redirect .blocked (units "egress to " ++ hop.target.hostname ++
            units " refused: the redirect has no valid Location")
        | some next =>
          Effect.update fun host ↦ (hostOf next).orElse fun _ ↦ host
          let permit := call.permitOf next
          let target ← check (checkUrl call.parser (.url next) permit)
          follow call left (hop.next target permit status)

/-! ### The call -/

/-- What a client is built with. -/
structure EgressClient where
  parser : UrlParser
  limits : EgressLimits
  allowlist : EgressAllowlist
  basePermit : Option AddressPermit

/-- `createEgressClient`, whose caps and allowlist passed their checks. -/
def createEgressClient (parser : UrlParser) (limits : EgressLimits)
    (allowlist : Option EgressAllowlist) : EgressClient :=
  ⟨parser, limits, allowlist.getD EMPTY_EGRESS_ALLOWLIST, none⟩

def eitherPermit : Option AddressPermit → Option AddressPermit → Option AddressPermit
  | none, b => b
  | some a, none => some a
  | some a, some b => some fun hostname address ↦ a hostname address || b hostname address

/-- The non-public addresses that a call may reach. -/
def callPermit (client : EgressClient) (source : EgressSource) (realm : Option JsString) :
    Option AddressPermit :=
  eitherPermit client.basePermit
    (realm.bind fun realm ↦
      if allowlistApplies source then allowlistPermit client.allowlist realm else none)

/-- The error the caller gets for a failure. -/
def report (failure : EgressFailure) (purpose : JsString) (host : Option JsString) : EgressError :=
  ⟨failure.reason, failure.outcome, purpose, host, failure.message⟩

/-- A call whose arguments passed their checks. -/
structure CheckedCall where
  purpose : JsString
  source : EgressSource
  realm : Option JsString
  method : EgressMethod
  limits : EgressLimits
  headers : Headers
  bodyBytes : Option ℕ

/-- The checks of a call's arguments, in their order. -/
def checkCall (client : EgressClient) (call : EgressRequest) : Except Thrown CheckedCall := do
  let purpose ← checkPurpose call.purpose
  let source ← checkSource call.source
  let realm ← checkRealm call.realm
  let method ← checkMethod call.method
  let limits ← mergeLimits client.limits call.limits
  let headers ← requestHeaders call.headers
  let bodyBytes ← requestBodyBytes method call.body
  return ⟨purpose, source, realm, method, limits, headers, bodyBytes⟩

/-- Check the first URL and follow its redirects, within the caps. -/
def attemptCall (client : EgressClient) (call : EgressRequest) (checked : CheckedCall) :
    EgressM EgressResponse := do
  let host ← Effect.read
  if (checked.bodyBytes.any fun n ↦ checked.limits.maxRequestBytes < n : Bool) then
    fail .size .blocked (units "egress to " ++ host.getD (units "a URL") ++
      units " refused: the request body is larger than " ++
      decimal checked.limits.maxRequestBytes ++ units " bytes")
  else
    let startedAt ← dateNow
    let permit := callPermit client checked.source checked.realm
    let target ← check (checkUrl client.parser call.url permit)
    follow ⟨client.parser, checked.limits, client.basePermit, permit, target.hostname, startedAt⟩
      checked.limits.maxRedirects
      ⟨target, permit, checked.method, checked.headers, call.body.map RequestBody.toBytes⟩

/-- Send one request and follow its redirects. -/
def request (client : EgressClient) (call : EgressRequest) : EgressM EgressResponse := do
  let checked ← Effect.ofExcept (checkCall client call)
  Effect.update fun _ ↦ hostForLog client.parser call.url
  match ← Effect.attempt (fun _ ↦ true) (attemptCall client call checked) with
  | .ok response => return response
  | .error (.failure f) => do
    let host ← Effect.read
    Effect.exit (.error (report f checked.purpose host))
  | .error e => Effect.exit e

end QAuth.Egress
