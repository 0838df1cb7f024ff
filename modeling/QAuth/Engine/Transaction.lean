import QAuth.Engine.Grammar

/-!
# The sign-in transaction

What the engine keeps between the rounds of one sign-in (`transaction.ts`), the email code it holds
(`email-code.ts`), and the reader of the stored form. A member that is left out is `none`, a member
that may only be `true` is a `Bool`, and a frozen copy is the value itself. The version, which is
one literal, is left out.
-/

namespace QAuth.Engine

/-! ### The email code -/

/-- How long a code is valid, in milliseconds. -/
def EMAIL_CODE_TTL_MS : ℤ := 10 * 60 * 1000

/-- The wrong answers that burn a transaction's code. -/
def EMAIL_CODE_MAX_WRONG_ANSWERS : ℕ := 5

/-- How long after a code another may be asked for, in milliseconds. -/
def EMAIL_CODE_RESEND_AFTER_MS : ℤ := 60 * 1000

/-- A character of the base64url alphabet. -/
def isBase64url (c : Char) : Bool := c.isAlphanum || c = '_' || c = '-'

/-- A code's salt: 22 characters of base64url. -/
def isEmailCodeSalt (s : String) : Bool := s.length = 22 && s.toList.all isBase64url

/-- A keyed HMAC, or the key of a WebAuthn ceremony: 43 characters of base64url. -/
def isHmac (s : String) : Bool := s.length = 43 && s.toList.all isBase64url

/-- How many digits a code for `purpose` has. -/
def emailCodeLength (purpose : EmailCodePurpose) (afterPassword : Bool) : ℕ :=
  match purpose with
  | .recovery => 8
  | .confirmSignIn => 6
  | .verifyAccount => if afterPassword then 6 else 8

/-- A code as the transaction holds it. -/
structure HeldEmailCode where
  purpose : EmailCodePurpose
  length : ℕ
  salt : String
  hmac : String
  issuedAt : ℤ
  /-- The wrong answers the transaction counted for its codes. -/
  wrongAnswers : ℕ

/-- Whether `held` has passed its time at `now`. -/
def emailCodeExpired (held : HeldEmailCode) (now : ℤ) : Bool :=
  EMAIL_CODE_TTL_MS ≤ now - held.issuedAt

/-- Whether another code may be asked for at `now`. -/
def emailCodeResendDue (held : HeldEmailCode) (now : ℤ) : Bool :=
  EMAIL_CODE_RESEND_AFTER_MS ≤ now - held.issuedAt

/-- Whole seconds until `time`, at least `least` and at most `most`. -/
def secondsUntil (time now least most : ℤ) : ℤ := min most (max least (-((now - time) / 1000)))

/-- The `email_code` step's params for `held` at `now`. -/
def emailCodeParams (held : HeldEmailCode) (now : ℤ) : EmailCodeParams :=
  let ttlSeconds := EMAIL_CODE_TTL_MS / 1000
  if emailCodeExpired held now then
    { purpose := held.purpose, length := held.length, expiresIn := ttlSeconds, resendAfter := 0 }
  else
    { purpose := held.purpose
      length := held.length
      expiresIn := secondsUntil (held.issuedAt + EMAIL_CODE_TTL_MS) now 1 ttlSeconds
      resendAfter := secondsUntil (held.issuedAt + EMAIL_CODE_RESEND_AFTER_MS) now 0
        (EMAIL_CODE_RESEND_AFTER_MS / 1000) }

/-- The six bits of a character of base64url. -/
def base64urlBits (c : Char) : ℕ :=
  if 'A' ≤ c ∧ c ≤ 'Z' then c.toNat - 65
  else if 'a' ≤ c ∧ c ≤ 'z' then c.toNat - 71
  else if '0' ≤ c ∧ c ≤ '9' then c.toNat + 4
  else if c = '-' then 62
  else 63

/-- The 32 bytes of an HMAC, as the six bits of its characters; the last has two bits to spare. -/
def hmacBits (s : String) : List ℕ :=
  (s.toList.dropLast.map base64urlBits) ++
    (s.toList.getLast?.toList.map fun c ↦ base64urlBits c / 4)

/-- Whether two HMACs are one; a value out of shape is no match. -/
def sameEmailCodeHmac (presented held : String) : Bool :=
  isHmac presented && isHmac held && hmacBits presented = hmacBits held

/-- What an answer did to a held code. -/
inductive EmailCodeAnswer
  | accepted
  | wrong (held : HeldEmailCode)
  | burned
  | expired

/-- Count a wrong answer against `held`. -/
def countWrongEmailCode (held : HeldEmailCode) : EmailCodeAnswer :=
  if EMAIL_CODE_MAX_WRONG_ANSWERS ≤ held.wrongAnswers + 1 then .burned
  else .wrong { held with wrongAnswers := held.wrongAnswers + 1 }

/-- Answer `held` at `now` with the answered code's HMAC. -/
def answerEmailCode (held : HeldEmailCode) (presentedHmac : String) (now : ℤ) : EmailCodeAnswer :=
  if emailCodeExpired held now then .expired
  else if sameEmailCodeHmac presentedHmac held.hmac then .accepted
  else countWrongEmailCode held

/-- A new code in place of `previous`, which keeps the wrong answers that one counted. -/
def heldEmailCode (purpose : EmailCodePurpose) (length : ℕ) (salt hmac : String) (issuedAt : ℤ)
    (previous : Option HeldEmailCode) : HeldEmailCode where
  purpose := purpose
  length := length
  salt := salt
  hmac := hmac
  issuedAt := issuedAt
  wrongAnswers := (previous.map HeldEmailCode.wrongAnswers).getD 0

/-! ### Identifiers -/

/-- The longest identifier, in UTF-8 bytes. -/
def IDENTIFIER_MAX_BYTES : ℕ := 254

/-- Leading and trailing whitespace off. -/
def trim (chars : List Char) : List Char :=
  ((chars.dropWhile isSpace).reverse.dropWhile isSpace).reverse

/-- The one normalisation every input gets. -/
def normalizeEmail (email : String) : String :=
  String.ofList (trim (email.toList.map Char.toLower))

/-- Check and normalise an identifier as a person gave it. -/
def Syntax.readIdentifier (g : Syntax) (value : String) : Option String :=
  if value = "" || IDENTIFIER_MAX_BYTES < (value.toList.map Char.utf8Size).sum then none
  else if g.email value then some (normalizeEmail value)
  else none

/-! ### The transaction -/

/-- A flow other than a sign-in. -/
inductive SignInFlow
  | register
  | reset
deriving DecidableEq

/-- The provider the person was last sent to, and the address it gave. -/
structure UpstreamState where
  provider : String
  address : Option String

/-- The personal data of a registration ceremony. -/
structure CreationPersonal where
  identifier : Option String
  /-- The user and the credentials to exclude, as the port gave them. -/
  document : String

/-- A WebAuthn ceremony a transaction holds. -/
structure HeldCeremony where
  step : StepName
  /-- The port's key for it. -/
  key : String
  params : StepParams
  personal : Option CreationPersonal
  startedAt : ℤ

/-- What a transaction holds of its passkey enrolment. -/
inductive PasskeyEnrolment
  | declined
  | bound
  | held (registration : String)
deriving DecidableEq

/-- What a transaction holds of its TOTP set-up. -/
structure TotpEnrolment where
  sealedSecret : String
  /-- The time step its first valid code matched. -/
  step : Option ℤ

/-- What the engine keeps between the rounds of one sign-in. -/
structure SignInTransaction where
  realmId : String
  clientId : String
  createdAt : ℤ
  identifier : Option String
  subject : Option String
  /-- Every step whose answer the engine accepted, in order. -/
  verified : List OfferedStep
  authTime : Option ℤ
  emailCode : Option HeldEmailCode
  breachedPassword : Bool
  updatePasswordRequired : Bool
  upstream : Option UpstreamState
  flow : Option SignInFlow
  captcha : Option StepParams
  captchaPassed : Bool
  recoveryCodesShown : Option String
  ceremony : Option HeldCeremony
  passkeyEnrolment : Option PasskeyEnrolment
  totpEnrolment : Option TotpEnrolment

/-- The longest a transaction lives, in milliseconds. -/
def SIGN_IN_TRANSACTION_MAX_AGE_MS : ℤ := 2 * 60 * 60 * 1000

/-- How far in the future a transaction's start may lie, in milliseconds. -/
def SIGN_IN_TRANSACTION_CLOCK_SKEW_MS : ℤ := 60 * 1000

/-- The most verified steps one transaction holds. -/
def MAX_VERIFIED_STEPS : ℕ := 16

/-- The longest `client_id` a transaction holds. -/
def SIGN_IN_CLIENT_ID_MAX_LENGTH : ℕ := 2048

/-- The longest held registration. -/
def PASSKEY_REGISTRATION_MAX_LENGTH : ℕ := 16384

/-- The longest sealed secret. -/
def TOTP_SEALED_MAX_LENGTH : ℕ := 1024

/-- The steps whose params carry a WebAuthn ceremony. -/
def CEREMONY_STEPS : List StepName := [.webauthnGet, .webauthnCreate]

/-- A transaction that holds nothing yet. -/
def newSignInTransaction (realmId clientId : String) (createdAt : ℤ) (flow : Option SignInFlow) :
    SignInTransaction where
  realmId := realmId
  clientId := clientId
  createdAt := createdAt
  identifier := none
  subject := none
  verified := []
  authTime := none
  emailCode := none
  breachedPassword := false
  updatePasswordRequired := false
  upstream := none
  flow := flow
  captcha := none
  captchaPassed := false
  recoveryCodesShown := none
  ceremony := none
  passkeyEnrolment := none
  totpEnrolment := none

namespace SignInTransaction

def hasVerified (T : SignInTransaction) (step : StepName) : Bool :=
  T.verified.any (·.step = step)

def verify (T : SignInTransaction) (step : OfferedStep) : SignInTransaction :=
  { T with verified := T.verified ++ [step] }

/-- A registration by passkey created its account at its ceremony, which signs nobody in. -/
def registeredByPasskey (T : SignInTransaction) : Bool :=
  T.flow = some .register && T.identifier.isNone && T.subject.isSome && T.authTime.isNone &&
    T.hasVerified .webauthnCreate

/-- A registration's own ceremony comes before its account. -/
def registrationCeremony (T : SignInTransaction) : Bool :=
  T.flow = some .register && T.subject.isNone && T.identifier.isNone

/-- Whether the transaction holds a registration ceremony. -/
def holdsCreation (T : SignInTransaction) : Bool :=
  T.ceremony.any (·.step = .webauthnCreate)

/-- Whether a factor fixed the subject. -/
def signedIn (T : SignInTransaction) : Bool := T.subject.isSome && T.authTime.isSome

/-- The states that the engine never writes. -/
def unwritten (T : SignInTransaction) : Bool :=
  (T.authTime.isSome && T.subject.isNone) ||
    (T.subject.isSome && T.authTime.isNone && T.flow ≠ some .reset && !T.registeredByPasskey) ||
    -- A reset names its account by the address it proves, and never goes out to a provider.
    (T.flow = some .reset && T.identifier.isNone && T.subject.isSome) ||
    (T.flow = some .reset && T.upstream.isSome) ||
    (T.breachedPassword && T.subject.isNone) ||
    (T.updatePasswordRequired && T.subject.isNone) ||
    -- The provider's address is kept only once its callback fixed the subject.
    (T.upstream.any (·.address.isSome) && T.subject.isNone) ||
    (T.flow = some .register && T.upstream.isSome) ||
    (T.recoveryCodesShown.isSome &&
      (T.subject.isNone || (T.authTime.isNone && !T.registeredByPasskey))) ||
    (T.passkeyEnrolment.isSome && !T.signedIn) ||
    (T.holdsCreation && !T.signedIn && !T.registrationCeremony) ||
    (T.totpEnrolment.isSome && !T.signedIn)

end SignInTransaction

/-! ### The stored form -/

def HeldEmailCode.schema (held : HeldEmailCode) : Bool :=
  (held.length = 6 || held.length = 8) && isEmailCodeSalt held.salt && isHmac held.hmac &&
    0 ≤ held.issuedAt && held.wrongAnswers ≤ EMAIL_CODE_MAX_WRONG_ANSWERS - 1 &&
    (held.length = emailCodeLength held.purpose true ||
      held.length = emailCodeLength held.purpose false)

/-- The personal data of a `webauthn_create` step. -/
def Syntax.personal (g : Syntax) (personal : CreationPersonal) : Bool :=
  g.creationPersonal personal.document && personal.identifier.all (g.display 254)

/-- The schema of a held ceremony: only a registration's keeps personal data. -/
def Syntax.ceremony (g : Syntax) (held : HeldCeremony) : Bool :=
  CEREMONY_STEPS.contains held.step && isHmac held.key && 0 ≤ held.startedAt &&
    g.params held.step held.params &&
    if held.step = .webauthnCreate then held.personal.any g.personal else held.personal.isNone

def PasskeyEnrolment.schema : PasskeyEnrolment → Bool
  | .declined | .bound => true
  | .held registration =>
    1 ≤ registration.length && registration.length ≤ PASSKEY_REGISTRATION_MAX_LENGTH

/-- The schema of a held set-up. -/
def TotpEnrolment.schema (held : TotpEnrolment) : Bool :=
  1 ≤ held.sealedSecret.length && held.sealedSecret.length ≤ TOTP_SEALED_MAX_LENGTH &&
    held.step.all (0 ≤ ·)

def isAddressLength (s : String) : Bool := 3 ≤ s.length && s.length ≤ 254

def isUserId (s : String) : Bool := 1 ≤ s.length && s.length ≤ 64

/-- The stored form of a transaction, member by member. -/
def Syntax.signInTransactionSchema (g : Syntax) (T : SignInTransaction) : Bool :=
  (1 ≤ T.realmId.length && T.realmId.length ≤ 255) &&
    (1 ≤ T.clientId.length && T.clientId.length ≤ SIGN_IN_CLIENT_ID_MAX_LENGTH) &&
    0 ≤ T.createdAt && T.identifier.all isAddressLength && T.subject.all isUserId &&
    (T.verified.length ≤ MAX_VERIFIED_STEPS && T.verified.all fun step ↦
      g.params step.step step.params) &&
    T.authTime.all (0 < ·) && T.emailCode.all HeldEmailCode.schema &&
    (T.upstream.all fun held ↦ isProvider held.provider && held.address.all isAddressLength) &&
    T.captcha.all (g.params .captcha) &&
    (T.recoveryCodesShown.all fun id ↦ 1 ≤ id.length && id.length ≤ 128) &&
    T.ceremony.all g.ceremony && T.passkeyEnrolment.all PasskeyEnrolment.schema &&
    T.totpEnrolment.all TotpEnrolment.schema

/-- Read a stored transaction; `none` when it is not well formed. -/
def Syntax.readSignInTransaction (g : Syntax) (T : SignInTransaction) :
    Option SignInTransaction :=
  if g.signInTransactionSchema T && !T.unwritten then some T else none

theorem readSignInTransaction_eq_some {g : Syntax} {T found : SignInTransaction} :
    g.readSignInTransaction T = some found ↔
      found = T ∧ g.signInTransactionSchema T = true ∧ T.unwritten = false := by
  rw [Syntax.readSignInTransaction, Option.ite_none_right_eq_some, Bool.and_eq_true,
    Bool.not_eq_true', Option.some.injEq]
  tauto

end QAuth.Engine
