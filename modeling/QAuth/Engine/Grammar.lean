import Mathlib.Data.String.Basic
import QAuth.SignIn.Ladder

/-!
# The step grammar

The steps that the sign-in engine may offer, the params each is offered with, the answers it takes,
and the one reader of answers that both transports share (`server-step-grammar`). Whether a text is
a WebAuthn document, a display name or an address is the grammar's `Syntax`, which stands for the
schemas of those formats.
-/

namespace QAuth.Engine

/-! ### Steps -/

/-- A step's short name. -/
inductive StepName
  | identifier
  | password
  | emailCode
  | newPassword
  | passwordReset
  | captcha
  | webauthnGet
  | webauthnCreate
  | totp
  | recoveryCode
  | recoveryCodes
  | totpSetup
  | consent
  | selectAccount
  | upstream
  | upstreamLink
  | deviceCode
  | deviceConfirm
  | logoutConfirm
deriving DecidableEq

def StepName.word : StepName → String
  | .identifier => "identifier"
  | .password => "password"
  | .emailCode => "email_code"
  | .newPassword => "new_password"
  | .passwordReset => "password_reset"
  | .captcha => "captcha"
  | .webauthnGet => "webauthn_get"
  | .webauthnCreate => "webauthn_create"
  | .totp => "totp"
  | .recoveryCode => "recovery_code"
  | .recoveryCodes => "recovery_codes"
  | .totpSetup => "totp_setup"
  | .consent => "consent"
  | .selectAccount => "select_account"
  | .upstream => "upstream"
  | .upstreamLink => "upstream_link"
  | .deviceCode => "device_code"
  | .deviceConfirm => "device_confirm"
  | .logoutConfirm => "logout_confirm"

/-- Every step name, in grammar order. -/
def STEP_NAMES : List StepName :=
  [.identifier, .password, .emailCode, .newPassword, .passwordReset, .captcha, .webauthnGet,
    .webauthnCreate, .totp, .recoveryCode, .recoveryCodes, .totpSetup, .consent, .selectAccount,
    .upstream, .upstreamLink, .deviceCode, .deviceConfirm, .logoutConfirm]

/-- A step's name on the wire. -/
def StepName.urn (step : StepName) : String := "urn:qauth:ia:" ++ step.word ++ ":v1-rc.0"

/-- The step a name on the wire is of. -/
def stepNameOfUrn (urn : String) : Option StepName := STEP_NAMES.find? (·.urn = urn)

/-- Why a rejected answer was rejected. -/
inductive StepErrorCode
  | invalidCredentials
  | codeExpired
  | passwordRejected
  | captchaFailed
  | providerUnavailable
deriving DecidableEq

/-- The closed error set of each step. -/
def STEP_ERRORS : StepName → List StepErrorCode
  | .password | .webauthnGet | .webauthnCreate | .totp | .recoveryCode | .totpSetup =>
    [.invalidCredentials]
  | .emailCode => [.invalidCredentials, .codeExpired]
  | .newPassword => [.passwordRejected]
  | .captcha => [.captchaFailed]
  | .upstream => [.providerUnavailable]
  | _ => []

/-! ### Params -/

/-- Why an email code was sent. -/
inductive EmailCodePurpose
  | verifyAccount
  | recovery
  | confirmSignIn
deriving DecidableEq

/-- Why a new password is asked for. -/
inductive NewPasswordPurpose
  | register
  | reset
  | updateRequired
deriving DecidableEq

/-- Why a new password was rejected. -/
inductive PasswordRejectionReason
  | tooShort
  | tooLong
  | blocklisted
  | tooWeak
deriving DecidableEq

/-- The `email_code` step's params. -/
structure EmailCodeParams where
  purpose : EmailCodePurpose
  length : ℕ
  expiresIn : ℤ
  resendAfter : ℤ

/-- The `new_password` step's params. -/
structure NewPasswordParams where
  purpose : NewPasswordPurpose
  minLength : ℕ
  maxLength : ℕ
  reasons : Option (List PasswordRejectionReason)

/-- One upstream identity provider as the `upstream` step lists it. -/
structure UpstreamProviderEntry where
  provider : String
  name : String
  icon : Option String

/-- What the screen of a step needs. A WebAuthn document and a bot challenge are kept as texts. -/
inductive StepParams
  | empty
  | emailCode (params : EmailCodeParams)
  | newPassword (params : NewPasswordParams)
  | captcha (params : String)
  | webauthnGet (options : String)
  | webauthnCreate (optional : Bool) (options : String)
  | totp (digits : ℕ)
  | totpSetup (algorithm : String) (digits period : ℕ)
  | recoveryCodes (count : ℕ)
  | upstream (providers : List UpstreamProviderEntry)

/-- One offered step: its name and the params its screen needs. -/
structure OfferedStep where
  step : StepName
  params : StepParams

/-- The step the engine asks for, and the error of a refused answer to it. -/
structure CurrentStep extends OfferedStep where
  error : Option StepErrorCode

/-- The engine's next step, as both transports receive it. -/
structure StepOffer where
  current : CurrentStep
  alternatives : List OfferedStep
  /-- `some false` where the current step is only preferred. -/
  required : Option Bool

def StepOffer.all (offer : StepOffer) : List OfferedStep :=
  offer.current.toOfferedStep :: offer.alternatives

/-- The schemas of documents, display values and addresses, and the normal form of texts. -/
structure Syntax where
  /-- The bot challenge's params. -/
  captcha : String → Bool
  /-- The request options of an assertion. -/
  requestOptions : String → Bool
  /-- The creation options of a registration. -/
  creationOptions : String → Bool
  /-- A registration's personal data, but for the identifier. -/
  creationPersonal : String → Bool
  /-- A display value of at most so many characters. -/
  display : ℕ → String → Bool
  /-- An absolute `https` URL of at most 2048 characters. -/
  icon : String → Bool
  /-- An `otpauth://totp/` URI of at most 1024 characters. -/
  otpauth : String → Bool
  /-- A WebAuthn response of an assertion. -/
  assertion : String → Bool
  /-- A WebAuthn response of a registration. -/
  attestation : String → Bool
  /-- The NFC form of a text. -/
  nfc : String → String
  /-- The full syntax of an email address. -/
  email : String → Bool

/-- A lowercase letter, a digit or an underscore. -/
def isProviderChar (c : Char) : Bool := c.isLower && c.isAlpha || c.isDigit || c = '_'

/-- `^[a-z][a-z0-9_]{0,62}$`. -/
def isProvider (s : String) : Bool :=
  match s.toList with
  | [] => false
  | c :: rest => c.isLower && rest.length ≤ 62 && rest.all isProviderChar

/-- An entry of the `upstream` step's list. -/
def Syntax.entry (g : Syntax) (entry : UpstreamProviderEntry) : Bool :=
  isProvider entry.provider && g.display 64 entry.name && entry.icon.all g.icon

def EMAIL_CODE_LENGTHS : EmailCodePurpose → List ℕ
  | .verifyAccount => [6, 8]
  | .recovery => [8]
  | .confirmSignIn => [6]

/-- The params' schema of each step; those that the engine never offers have none here. -/
def Syntax.params (g : Syntax) : StepName → StepParams → Bool
  | .identifier, .empty | .password, .empty | .passwordReset, .empty | .recoveryCode, .empty => true
  | .emailCode, .emailCode p =>
    (p.length = 6 || p.length = 8) && 1 ≤ p.expiresIn && p.expiresIn ≤ 86400 &&
      0 ≤ p.resendAfter && p.resendAfter ≤ 3600
  | .newPassword, .newPassword p =>
    8 ≤ p.minLength && p.minLength ≤ 256 && 8 ≤ p.maxLength && p.maxLength ≤ 256 &&
      p.reasons.all fun reasons ↦ reasons ≠ [] && reasons.length ≤ 4 && decide reasons.Nodup
  | .captcha, .captcha p => g.captcha p
  | .webauthnGet, .webauthnGet options => g.requestOptions options
  | .webauthnCreate, .webauthnCreate _ options => g.creationOptions options
  | .totp, .totp digits => digits = 6
  | .totpSetup, .totpSetup algorithm digits period =>
    algorithm = "SHA1" && digits = 6 && period = 30
  | .recoveryCodes, .recoveryCodes count => count = 10
  | .upstream, .upstream providers =>
    1 ≤ providers.length && providers.length ≤ 16 && providers.all g.entry
  | _, _ => false

/-- The rules between members that a step's schema does not state. -/
def checkStepRules (step : OfferedStep) (error : Option StepErrorCode) : Bool :=
  match step.params with
  | .emailCode p => (EMAIL_CODE_LENGTHS p.purpose).contains p.length && decide (p.expiresIn ≤ 600)
  | .newPassword p =>
    p.minLength ≤ p.maxLength && (p.reasons.isSome = (error = some .passwordRejected))
  | _ => true

/-- An offer that the grammar and the Interaction API's mapper take. -/
def Syntax.offer (g : Syntax) (offer : StepOffer) : Bool :=
  (offer.all.all fun step ↦ g.params step.step step.params) &&
    (offer.current.error.all fun error ↦ (STEP_ERRORS offer.current.step).contains error) &&
    checkStepRules offer.current.toOfferedStep offer.current.error &&
    (offer.alternatives.all fun step ↦ checkStepRules step none && step.step ≠ .captcha) &&
    (offer.current.step ≠ .captcha || offer.alternatives = []) &&
    decide (offer.all.map (·.step)).Nodup && offer.alternatives.length ≤ 15 &&
    offer.all.all fun step ↦
      match step.params with
      | .emailCode p => p.purpose ≠ .confirmSignIn
      | _ => true

/-! ### Answers -/

/-- A member of a form or a JSON body. -/
inductive FieldValue
  | text (s : String)
  | bool (b : Bool)
  | other

/-- The body or the form of an answer; `none` where it is not an object. -/
abbrev Fields := Option (List (String × FieldValue))

/-- How an answer arrived. -/
inductive AnswerEncoding
  | json
  | form

/-- A round's answer. -/
structure RoundAnswer where
  /-- The step it answers, as the wire names it. -/
  step : String
  fields : Fields
  encoding : AnswerEncoding

/-- An answer's members, as its step's schema reads them. -/
inductive StepAnswer
  | identifier (loginHint : String)
  | password (password : String) (loginHint : Option String)
  | emailCode (otp : Option String)
  | newPassword (password : String)
  | passwordReset (loginHint : Option String)
  | captcha (token : String)
  | webauthnGet (response : String)
  | webauthnCreate (response : Option String)
  | totp (otp : String)
  | recoveryCode (code : String)
  | recoveryCodes
  | totpSetup (otp : String)
  | upstream (provider : String)

/-- An answer after the grammar's checks. -/
structure ReadAnswer where
  step : StepName
  params : StepParams
  answer : StepAnswer

/-- Whether an answer carries a credential: a password, an `otp`, a recovery code or a WebAuthn
response. -/
def isCredentialAnswer : StepAnswer → Bool
  | .password .. | .webauthnGet _ | .totp _ | .recoveryCode _ | .totpSetup _ => true
  | .emailCode otp => otp.isSome
  | .webauthnCreate response => response.isSome
  | _ => false

/-- What `\s` matches. -/
def isSpace (c : Char) : Bool :=
  (9 ≤ c.toNat && c.toNat ≤ 13) || c.toNat = 32 || c.toNat = 0xa0 || c.toNat = 0x1680 ||
    (0x2000 ≤ c.toNat && c.toNat ≤ 0x200a) || c.toNat = 0x2028 || c.toNat = 0x2029 ||
    c.toNat = 0x202f || c.toNat = 0x205f || c.toNat = 0x3000 || c.toNat = 0xfeff

/-- The UTF-16 code units of a text. -/
def utf16Length (s : String) : ℕ :=
  (s.toList.map fun c ↦ if c.toNat < 0x10000 then 1 else 2).sum

/-- `^[^@\s]+@[^@\s]+$`, of 3 to 254 characters. -/
def isLoginHint (s : String) : Bool :=
  3 ≤ s.length && s.length ≤ 254 && s.toList.all (!isSpace ·) && s.toList.count '@' = 1 &&
    s.toList.head? ≠ some '@' && s.toList.getLast? ≠ some '@'

/-- `passwordSchema.min(1)`. -/
def isPassword (s : String) : Bool := s ≠ "" && utf16Length s ≤ 256

/-- Exactly `n` digits. -/
def isDigits (n : ℕ) (s : String) : Bool := s.length = n && s.toList.all Char.isDigit

/-- `^[A-Za-z0-9 -]+$`, of 16 to 39 characters. -/
def isRecoveryCode (s : String) : Bool :=
  16 ≤ s.length && s.length ≤ 39 && s.toList.all fun c ↦ c.isAlphanum || c = ' ' || c = '-'

/-- `^[!-~]+$`, of at most 4096 characters. -/
def isToken (s : String) : Bool :=
  1 ≤ s.length && s.length ≤ 4096 && s.toList.all fun c ↦ 33 ≤ c.toNat && c.toNat ≤ 126

/-- A text member that meets a schema. -/
def textField (fields : List (String × FieldValue)) (key : String) (valid : String → Bool) :
    Option String :=
  match fields.lookup key with
  | some (.text s) => if valid s then some s else none
  | _ => none

/-- A text member that may be left out. -/
def optionalField (fields : List (String × FieldValue)) (key : String) (valid : String → Bool) :
    Option (Option String) :=
  match fields.lookup key with
  | none => some none
  | some (.text s) => if valid s then some (some s) else none
  | some _ => none

/-- The answer of a step, by its strict schema. -/
def Syntax.answer (g : Syntax) (encoding : AnswerEncoding) (fields : List (String × FieldValue)) :
    StepName → Option StepAnswer
  | .identifier => (textField fields "login_hint" isLoginHint).map .identifier
  | .password => do
    let password ← textField fields "password" isPassword
    let loginHint ← optionalField fields "login_hint" isLoginHint
    return .password password loginHint
  | .emailCode =>
    (optionalField fields "otp" fun s ↦ isDigits 6 s || isDigits 8 s).map .emailCode
  | .newPassword => (textField fields "new_password" isPassword).map .newPassword
  | .passwordReset => (optionalField fields "login_hint" isLoginHint).map .passwordReset
  | .captcha => (textField fields "captcha_token" isToken).map .captcha
  | .webauthnGet => (textField fields "webauthn_response" g.assertion).map .webauthnGet
  | .webauthnCreate => (optionalField fields "webauthn_response" g.attestation).map .webauthnCreate
  | .totp => (textField fields "otp" (isDigits 6)).map .totp
  | .recoveryCode => (textField fields "recovery_code" isRecoveryCode).map .recoveryCode
  | .recoveryCodes =>
    match fields.lookup "acknowledged", encoding with
    | some (.bool true), _ => some .recoveryCodes
    | some (.text "true"), .form => some .recoveryCodes
    | _, _ => none
  | .totpSetup => (textField fields "otp" (isDigits 6)).map .totpSetup
  | .upstream => (textField fields "provider" isProvider).map .upstream
  | _ => none

/-- The rules between an answer and the params its step was offered with. -/
def checkAnswerRules (params : StepParams) (answer : StepAnswer) : Bool :=
  match params, answer with
  | .emailCode p, .emailCode (some otp) => otp.length = p.length
  | .totp digits, .totp otp => otp.length = digits
  | .totpSetup _ digits _, .totpSetup otp => otp.length = digits
  | .webauthnCreate false _, .webauthnCreate none => false
  | _, _ => true

/-- Why an answer could not be read: an offer the grammar refuses, or the answer itself. -/
inductive AnswerFault
  | mapping
  | answer

def Syntax.readAnswer (g : Syntax) (offer : StepOffer) (step : StepName) (fields : Fields)
    (encoding : AnswerEncoding) : Except AnswerFault ReadAnswer :=
  if !g.offer offer then .error .mapping
  else
    match offer.all.find? (·.step = step), fields with
    | some offered, some fields =>
      match g.answer encoding fields step with
      | some answer =>
        if checkAnswerRules offered.params answer then
          .ok { step, params := offered.params, answer }
        else .error .answer
      | none => .error .answer
    | _, _ => .error .answer

/-! ### The `amr` -/

/-- An `amr` value a step may add. -/
inductive AmrValue
  | pwd
  | pop
  | otp
  | mfa
deriving DecidableEq

/-- The `amr` values a successful answer to each step adds. -/
def STEP_AMR : StepName → List AmrValue
  | .password => [.pwd]
  | .webauthnGet => [.pop, .mfa]
  | .totp => [.otp]
  | _ => []

/-- Whether a verified step makes the transaction a registration or a reset. -/
def registersOrResets (step : OfferedStep) : Bool :=
  match step.step, step.params with
  | .passwordReset, _ => true
  | .newPassword, .newPassword p => p.purpose = .register || p.purpose = .reset
  | _, _ => false

/-- The values that each name a factor. -/
def FACTORS : List AmrValue := [.pwd, .pop, .otp]

/-- The `amr` of a transaction that verified these steps; none for a registration, a reset and a
transaction that verified no factor. -/
def transactionAmr (verified : List OfferedStep) : Option (List AmrValue) :=
  let values := verified.flatMap fun step ↦ STEP_AMR step.step
  let factors := FACTORS.filter values.contains
  if verified.any registersOrResets || factors = [] then none
  else some ([.pwd, .pop, .otp, .mfa].filter fun value ↦
    values.contains value || (value = .mfa && 1 < factors.length))

/-! ### What a reader learns -/

variable {g : Syntax} {offer : StepOffer} {step : StepName} {fields : Fields}
  {encoding : AnswerEncoding} {read : ReadAnswer}

theorem readAnswer_eq_ok (h : g.readAnswer offer step fields encoding = .ok read) :
    read.step = step ∧ ⟨step, read.params⟩ ∈ offer.all ∧ g.params step read.params = true ∧
      checkAnswerRules read.params read.answer = true := by
  unfold Syntax.readAnswer at h
  split at h
  · cases h
  rename_i hoffer
  replace hoffer : g.offer offer = true := by simpa using hoffer
  rcases hfind : offer.all.find? (·.step = step) with _ | offered <;> rw [hfind] at h
  · cases h
  rcases fields with _ | fields
  · cases h
  rcases hanswer : g.answer encoding fields step with _ | answer <;> simp only [hanswer] at h
  · cases h
  split at h
  swap
  · cases h
  rename_i hrules
  have hread := (Except.ok.inj h).symm
  have hmem := List.mem_of_find?_eq_some hfind
  have hstep : offered.step = step := by simpa using List.find?_some hfind
  have hvalid : g.params offered.step offered.params = true := by
    simp only [Syntax.offer, Bool.and_eq_true] at hoffer
    exact List.all_eq_true.mp hoffer.1.1.1.1.1.1.1 offered hmem
  rw [hread]
  refine ⟨rfl, ?_, ?_, hrules⟩
  · rw [← hstep]
    exact hmem
  · rw [← hstep]
    exact hvalid

end QAuth.Engine
