import QAuth.Foundation.Base64Url
import QAuth.Foundation.PercentEncoding
import QAuth.Foundation.Sha256
import QAuth.Foundation.Text
import QAuth.Foundation.UuidText
import QAuth.Foundation.Words

/-!
# Signed cookies

The value `<kid>.<payload>.<mac>` of `session-cookie.ts`, the keys that sign it, and the header that
carries it. A text is a list of its characters: a header arrives as Latin-1, and what percent-decoding
makes of it has no lone surrogate.
-/

namespace QAuth.Cookies

/-! ### Names and realms -/

/-- The characters of a cookie's name. -/
def isTokenChar (c : Char) : Bool :=
  c.isAlphanum || "!#$%&'*+-.^_`|~".toList.contains c

/-- The name of a cookie. -/
structure CookieName where
  text : List Char
  some_char : text ≠ []
  isToken : ∀ c ∈ text, isTokenChar c = true

/-- The id of a realm, a UUID. -/
structure RealmId where
  text : List Char
  isUuid : UuidText.IsUuid text

/-! ### Keys -/

/-- One cookie key: its `kid` and the HMAC-SHA256 secret. -/
structure CookieKey where
  kid : List Char
  key : List UInt8

/-- A realm's cookie keys, as the signer last returned them. -/
structure RealmCookieKeys where
  /-- signs new cookies, and verifies them -/
  current : CookieKey
  /-- only verifies cookies signed before the last rotation -/
  previous : Option CookieKey

def named (keys : RealmCookieKeys) (kid : List Char) : Option CookieKey :=
  if keys.current.kid = kid then some keys.current
  else match keys.previous with
    | some previous => if previous.kid = kid then some previous else none
    | none => none

def RealmCookieKeys.Holds (keys : RealmCookieKeys) (key : CookieKey) : Prop :=
  key = keys.current ∨ keys.previous = some key

/-- Why the signer did not answer. -/
inductive SignerError
  | keyNotFound
  | temporarilyUnavailable

/-- What `find` found for a `kid`. -/
inductive CookieKeyLookup
  | found (key : CookieKey)
  | absent
  | unchecked

/-- What the key ring answers about a realm's keys while a request is served. -/
structure KeyReads where
  /-- the keys as they are cached, or read when they are too old -/
  cached : Except SignerError RealmCookieKeys
  /-- a read for an unknown `kid` was made a moment ago -/
  forcedLately : Bool
  /-- the keys as a read for an unknown `kid` finds them -/
  forced : List Char → Except SignerError RealmCookieKeys

/-- The realm's key named `kid`. -/
def KeyReads.find (reads : KeyReads) (kid : List Char) : Except SignerError CookieKeyLookup := do
  match named (← reads.cached) kid with
  | some known => return .found known
  | none =>
    if reads.forcedLately then return .unchecked
    else match named (← reads.forced kid) kid with
      | some again => return .found again
      | none => return .absent

/-- The key is the realm's current or previous one, as some read returns them. -/
def KeyReads.Holds (reads : KeyReads) (key : CookieKey) : Prop :=
  ∃ keys, (reads.cached = .ok keys ∨ ∃ kid, reads.forced kid = .ok keys) ∧ keys.Holds key

def MAC_SEPARATOR : Char := '\x00'

def COOKIE_MAC_LABEL : List Char := "qauth-cookie/1-rc.0".toList

def SEPARATOR : Char := '.'

/-- `KID_PATTERN`. -/
def isKid (text : List Char) : Bool :=
  1 ≤ text.length && text.length ≤ 255 && text.all Base64Url.isDigit

def macInput (cookieName realmId kid payload : List Char) : List UInt8 :=
  Text.utf8Bytes (Words.join MAC_SEPARATOR [COOKIE_MAC_LABEL, cookieName, realmId, kid, payload])

def mac (key : CookieKey) (cookieName : CookieName) (realmId : RealmId) (payload : List Char) :
    List UInt8 :=
  Sha256.hmac key.key (macInput cookieName.text realmId.text key.kid payload)

/-- The two characters that a browser strips around a pair. -/
def isBlank (c : Char) : Bool := c = ' ' || c = '\t'

def stripCookieWhitespace (pair : List Char) : List Char :=
  ((pair.dropWhile isBlank).reverse.dropWhile isBlank).reverse

/-- One value that was signed. -/
structure Signature where
  key : CookieKey
  cookieName : CookieName
  realmId : RealmId
  payload : List Char
  carried : isKid key.kid = true
  noSeparator : SEPARATOR ∉ payload

namespace Signature

def message (s : Signature) : List UInt8 :=
  macInput s.cookieName.text s.realmId.text s.key.kid s.payload

def provided (s : Signature) : List Char :=
  Base64Url.encode (mac s.key s.cookieName s.realmId s.payload)

def value (s : Signature) : List Char :=
  Words.join SEPARATOR [s.key.kid, s.payload, s.provided]

end Signature

/-! ### The input of a MAC -/

section Inputs

variable {kid kid' payload payload' : List Char} {name name' : CookieName} {realmId realmId' : RealmId}

theorem CookieName.not_mem (name : CookieName) {c : Char} (hc : isTokenChar c = false) :
    c ∉ name.text := by
  intro hmem
  rw [name.isToken c hmem] at hc
  cases hc

theorem RealmId.not_mem (realmId : RealmId) {c : Char} (hhex : UuidText.isHexDigit c = false)
    (hdash : c ≠ '-') : c ∉ realmId.text := by
  intro hmem
  rcases UuidText.mem_of_isUuid realmId.isUuid hmem with hdigit | rfl
  · rw [hdigit] at hhex
    cases hhex
  · exact hdash rfl

theorem not_mem_of_all_isDigit {text : List Char} (h : text.all Base64Url.isDigit = true) {c : Char}
    (hc : Base64Url.isDigit c = false) : c ∉ text := by
  intro hmem
  rw [List.all_eq_true.mp h c hmem] at hc
  cases hc

end Inputs

/-! ### Signing and checking -/

section Values

variable {keys : RealmCookieKeys} {reads : KeyReads} {name : CookieName} {realmId : RealmId}
  {kid payload : List Char} {key : CookieKey} {value : List Char} {e : SignerError}

end Values

end QAuth.Cookies
