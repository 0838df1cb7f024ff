import QAuth.Foundation.Url

/-!
# Redirect URIs

`oauth-redirect.ts`: which redirect URI of an authorization request is one that the client
registered, and which of those a response may be sent to. The first question is answered over
the text, the second by the URL parser. A string is its UTF-16 code units; the host and the port
digits that the pattern captures are ASCII, and are kept as characters.
-/

namespace QAuth.Authorize

open Text (charsOf units unitsOf)

abbrev JsString : Type := List UInt16

/-- `new URL`; `none` where it throws. -/
def newUrl (platform : Url.Platform) (uri : JsString) : Option Url.Parsed :=
  Url.parse platform (charsOf uri)

/-! ### Hosts and schemes -/

def LOOPBACK_HOSTS : List (List Char) := ["localhost".toList, "::1".toList]

/-- `/^\d{1,3}$/`, and a number up to 255. -/
def isOctet (octet : List Char) : Bool :=
  1 ≤ octet.length && octet.length ≤ 3 && octet.all Char.isDigit &&
    (Url.number 10 octet).any (· ≤ 255)

def isIpv4LoopbackHost (host : List Char) : Bool :=
  let octets := host.splitOn '.'
  octets.length = 4 && octets.all isOctet &&
    (octets.head?.bind (Url.number 10) = some 127)

/-- `[a-z0-9-]`. -/
def isLabelChar (c : Char) : Bool := c.isLower || c.isDigit || c = '-'

/-- `/^[a-z][a-z0-9-]*(?:\.[a-z0-9-]+)+:$/`. -/
def PRIVATE_USE_SCHEME (protocol : List Char) : Bool :=
  let labels := protocol.dropLast.splitOn '.'
  protocol.getLast? = some ':' && 2 ≤ labels.length &&
    labels.all (fun label ↦ !label.isEmpty && label.all isLabelChar) &&
      protocol.head?.any Char.isLower

def REFUSED_CUSTOM_REDIRECT_URI_SCHEMES : List (List Char) :=
  ["http", "https", "ws", "wss", "ftp", "javascript", "vbscript", "data", "file", "blob", "about",
    "filesystem", "view-source", "jar", "resource", "intent", "mailto", "tel", "sms", "chrome",
    "chrome-extension", "chrome-untrusted", "devtools", "edge", "opera", "moz-extension",
    "safari-extension", "ms-browser-extension"].map String.toList

def isAllowedRedirectUriScheme (platform : Url.Platform) (redirectUri : JsString)
    (customSchemes : List (List Char)) : Bool :=
  match newUrl platform redirectUri with
  | none => false
  | some url =>
    let protocol := url.protocol
    if protocol = "https:".toList ∨ protocol = "http:".toList ∨ PRIVATE_USE_SCHEME protocol = true then
      true
    else
      let scheme := protocol.dropLast
      customSchemes.contains scheme && !REFUSED_CUSTOM_REDIRECT_URI_SCHEMES.contains scheme

def isPlainHttpRedirect (platform : Url.Platform) (redirectUri : JsString) : Bool :=
  match newUrl platform redirectUri with
  | none => false
  | some url => url.protocol = "http:".toList

/-- `replace(/^\[|\]$/g, '')`. -/
def stripBrackets (host : List Char) : List Char :=
  let host := if host.head? = some '[' then host.tail else host
  if host.getLast? = some ']' then host.dropLast else host

def isHttpLocalhostRedirect (platform : Url.Platform) (redirectUri : JsString) : Bool :=
  match newUrl platform redirectUri with
  | some (.web url) =>
    if url.protocol ≠ "http:".toList then false
    else
      let host := stripBrackets (Url.lower url.hostname)
      LOOPBACK_HOSTS.contains host || isIpv4LoopbackHost host
  | _ => false

/-- The fields of an `EnvironmentPolicy` that a redirect is judged by. -/
structure EnvironmentPolicy where
  localhostRedirectAllowed : Bool
  pkceRequired : Bool

def isRedirectUriAllowedForPolicy (platform : Url.Platform) (redirectUri : JsString)
    (policy : EnvironmentPolicy) (customSchemes : List (List Char)) : Bool :=
  if !isAllowedRedirectUriScheme platform redirectUri customSchemes then false
  else if !isPlainHttpRedirect platform redirectUri then true
  else if !isHttpLocalhostRedirect platform redirectUri then false
  else policy.localhostRedirectAllowed || policy.pkceRequired

/-! ### The shape of a loopback redirect -/

/-- `\d`. -/
def isDigit (u : UInt16) : Bool := 0x30 ≤ u && u ≤ 0x39

def digits (text : JsString) : List Char × JsString :=
  let (digits, rest) := text.span isDigit
  (charsOf digits, rest)

/-- `(?:\.\d{1,3}){n}`, and the rest. No digit follows a group, so there is one way to match. -/
def dottedOctets : ℕ → JsString → Option (List Char × JsString)
  | 0, text => some ([], text)
  | n + 1, 0x2E :: text =>
    let (octet, rest) := digits text
    if 1 ≤ octet.length ∧ octet.length ≤ 3 then
      (dottedOctets n rest).map fun (octets, rest) ↦ ('.' :: octet ++ octets, rest)
    else none
  | _ + 1, _ => none

def loopbackHost (text : JsString) : Option (List Char × JsString) :=
  match Words.after (units "[::1]") text with
  | some rest => some ("[::1]".toList, rest)
  | none =>
    match Words.after (units "localhost") text with
    | some rest => some ("localhost".toList, rest)
    | none =>
      (Words.after (units "127") text).bind fun text ↦
        (dottedOctets 3 text).map fun (octets, rest) ↦ ("127".toList ++ octets, rest)

/-- `(?::(\d{1,5}))?`, and the rest. -/
def optionalPort : JsString → Option (Option (List Char) × JsString)
  | 0x3A :: text =>
    let (port, rest) := digits text
    if 1 ≤ port.length ∧ port.length ≤ 5 then some (some port, rest) else none
  | text => some (none, text)

/-- `([/?#].*)?$`. -/
def isRest : JsString → Bool
  | [] => true
  | u :: rest =>
    [0x2F, 0x3F, 0x23].contains u && !rest.any [0x0A, 0x0D, 0x2028, 0x2029].contains

def LOOPBACK_REDIRECT_SHAPE (uri : JsString) : Option (List Char × Option (List Char) × JsString) :=
  (Words.after (units "http://") uri).bind fun text ↦ (loopbackHost text).bind fun (host, text) ↦
    (optionalPort text).bind fun (port, rest) ↦ if isRest rest then some (host, port, rest) else none

/-- A redirect without its port, and the port. -/
structure Split where
  withoutPort : JsString
  port : Option (List Char)

/-- `/^[1-9]\d*$/`, and a number up to 65535. -/
def isCanonicalPort (port : List Char) : Bool :=
  port.head? ≠ some '0' && (Url.number 10 port).any (· ≤ 65535)

def splitLoopbackRedirect (uri : JsString) : Option Split :=
  (LOOPBACK_REDIRECT_SHAPE uri).bind fun (host, port, rest) ↦
    if "127.".toList.isPrefixOf host && !isIpv4LoopbackHost host then none
    else if port.any (!isCanonicalPort ·) then none
    else some ⟨units "http://" ++ host.flatMap unitsOf ++ rest, port⟩

def redirectUriMatchesRegistered (requested : JsString) (registered : List JsString) : Bool :=
  if registered.contains requested then true
  else
    match splitLoopbackRedirect requested with
    | none => false
    | some req =>
      registered.any fun r ↦ (splitLoopbackRedirect r).map Split.withoutPort = some req.withoutPort

end QAuth.Authorize
