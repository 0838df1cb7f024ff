import QAuth.Federation.ConfiguredValue
import QAuth.Foundation.Url

/-!
# Status list addresses

`status-list-uri.ts`: the allowlist of prefixes under which status lists may be fetched, and the
signers that the operator names for a prefix.
-/

namespace QAuth.Federation.StatusListUri

open Text (charsOf units)

/-! ### Outright refusals -/

def MAX_PREFIX_LENGTH : ℕ := 2048

def ALWAYS_REFUSED_HOST_SUFFIXES : List (List Char) := ["localhost".toList]

def isIpv6Literal (hostname : List Char) : Bool :=
  hostname.head? = some '[' && hostname.getLast? = some ']'

/-- `/^0[xX][\da-fA-F]+$/`. -/
def isHexNumber : List Char → Bool
  | '0' :: x :: digits =>
    (x = 'x' || x = 'X') && !digits.isEmpty && digits.all fun c ↦ (Url.digit 16 c).isSome
  | _ => false

def isIpv4Literal (hostname : List Char) : Bool :=
  let lastLabel := hostname.rtakeWhile (· ≠ '.')
  (!hostname.isEmpty && hostname.all fun c ↦ c.isDigit || c = '.') ||
    (!lastLabel.isEmpty && lastLabel.all Char.isDigit) || isHexNumber lastLabel

def isAlwaysRefusedHost (hostname : List Char) : Bool :=
  ALWAYS_REFUSED_HOST_SUFFIXES.any fun suffix ↦
    hostname = suffix || ('.' :: suffix).isSuffixOf hostname

def parseFetchableHttpsUrl (platform : Url.Platform) (raw : JsString) : Option Url.Web :=
  match Url.parse platform (charsOf raw) with
  | some (.web url) =>
    if url.protocol ≠ "https:".toList then none
    else if url.username ≠ [] ∨ url.password ≠ [] then none
    else if url.hash ≠ [] then none
    else if url.hostname = [] then none
    else if isIpv6Literal url.hostname || isIpv4Literal url.hostname then none
    else if isAlwaysRefusedHost url.hostname then none
    else some url
  | _ => none

/-! ### The allowlist -/

structure CompiledPrefix where
  origin : List Char
  path : List Char

/-- The address that a configured prefix spells, if it is short enough to be one. -/
def parsePrefix (platform : Url.Platform) (text : JsString) : Option Url.Web :=
  if 0 < (trim text).length ∧ (trim text).length ≤ MAX_PREFIX_LENGTH then
    parseFetchableHttpsUrl platform (trim text)
  else none

/-- `pathname.replace(/\/+$/, '')`. -/
def stripSlashes (pathname : List Char) : List Char := pathname.rdropWhile (· = '/')

def compiledPrefix (url : Url.Web) : CompiledPrefix := ⟨url.origin, stripSlashes url.pathname⟩

def NOT_AN_ARRAY : String :=
  "Status list URI allowlist must be an array of https:// prefixes (#297)."

def UNUSABLE_PREFIX : String :=
  "A status list URI allowlist entry is not a usable https:// prefix (#297). Entries must be " ++
    "absolute https:// URLs with a named host, no userinfo, no query string and no fragment. See " ++
    "this error's \"details\" for the position and the value."

/-- The entries from a position on, compiled in order up to the first that cannot be. -/
def compileFrom (platform : Url.Platform) :
    ℕ → List Configured → Except InvalidConfigurationError (List CompiledPrefix)
  | _, [] => .ok []
  | index, entry :: entries =>
    let parsed := match entry with
      | .text text => parsePrefix platform text
      | .other _ => none
    match parsed.filter (·.search = []) with
    | none => .error ⟨units UNUSABLE_PREFIX,
        [("index", .count index), ("entry", .text (summarizeConfiguredValue entry))]⟩
    | some url => (compileFrom platform (index + 1) entries).map (compiledPrefix url :: ·)

/-- A compiled allowlist. Without a prefix it permits nothing. -/
structure StatusListUriAllowlist where
  compiled : List CompiledPrefix

/-- The constructor; `none` stands for what is no array. -/
def createStatusListUriAllowlist (platform : Url.Platform) (prefixes : Option (List Configured)) :
    Except InvalidConfigurationError StatusListUriAllowlist :=
  match prefixes with
  | none => .error ⟨units NOT_AN_ARRAY, []⟩
  | some prefixes => (compileFrom platform 0 prefixes).map .mk

def CompiledPrefix.covers (entry : CompiledPrefix) (candidate : Url.Web) : Bool :=
  let candidatePath := stripSlashes candidate.pathname
  entry.origin = candidate.origin &&
    (entry.path = [] || candidatePath = entry.path ||
      (entry.path ++ ['/']).isPrefixOf candidatePath)

def StatusListUriAllowlist.permits (platform : Url.Platform) (allowlist : StatusListUriAllowlist)
    (uri : JsString) : Bool :=
  match parseFetchableHttpsUrl platform uri with
  | none => false
  | some candidate => allowlist.compiled.any (·.covers candidate)

/-! ### The signers -/

structure CompiledDelegation extends CompiledPrefix where
  signer : List Char

def UNUSABLE_SIGNER : String :=
  "An OID4VP_STATUS_LIST_SIGNERS entry is not usable. Keys must be https:// status list URI " ++
    "prefixes with a named host, no userinfo, no query string and no fragment; values must be the " ++
    "https:// identifier of the status issuer whose certificate signs the lists under that " ++
    "prefix. See this error's \"details\" for the position and the value."

/-- The address of a configured signer. -/
def parseSigner (platform : Url.Platform) : Configured → Option Url.Web
  | .text signer =>
    if (trim signer).length ≤ MAX_PREFIX_LENGTH then parseFetchableHttpsUrl platform (trim signer)
    else none
  | .other _ => none

/-- The delegations from a position on, compiled in order up to the first that cannot be. -/
def compileDelegations (platform : Url.Platform) : ℕ → List (JsString × Configured) →
    Except InvalidConfigurationError (List CompiledDelegation)
  | _, [] => .ok []
  | index, (text, signer) :: entries =>
    match (parsePrefix platform text).filter (·.search = []), parseSigner platform signer with
    | some parsedPrefix, some parsedSigner =>
      (compileDelegations platform (index + 1) entries).map
        ({ compiledPrefix parsedPrefix with signer := parsedSigner.origin } :: ·)
    | _, _ => .error ⟨units UNUSABLE_SIGNER,
        [("index", .count index), ("entry", .text (summarizeConfiguredValue (.text text))),
          ("signer", .text (summarizeConfiguredValue signer))]⟩

structure StatusListSignerDelegations where
  compiled : List CompiledDelegation

/-- The constructor; `none` stands for no map. -/
def createStatusListSignerDelegations (platform : Url.Platform)
    (entries : Option (List (JsString × Configured))) :
    Except InvalidConfigurationError StatusListSignerDelegations :=
  (compileDelegations platform 0 (entries.getD [])).map .mk

def StatusListSignerDelegations.signersFor (platform : Url.Platform)
    (delegations : StatusListSignerDelegations) (uri : JsString) : List (List Char) :=
  match parseFetchableHttpsUrl platform uri with
  | none => []
  | some candidate =>
    (delegations.compiled.filter (·.toCompiledPrefix.covers candidate)).map (·.signer)

end QAuth.Federation.StatusListUri
