import QAuth.Engine.Transaction
import QAuth.Foundation.Effect

/-!
# The engine's ports

Everything the sign-in engine reads or calls (`ports.ts`, `hooks.ts`, `round.ts`), as the calls of
an `Effect`, and what a round is for and answers. A call also carries the realm, the client and the
environment of the round, which are the same for all calls of a round. A call that threw, or that
answered something out of its type, answers `none`; a port whose failures change no answer (a
settlement, a hard action, a notice) has no failure here. What is drawn from the CSPRNG is an
answer too, in the shape that its generator writes it in.
-/

namespace QAuth.Engine

open SignIn (FactorType LadderCounter LadderSubject)

/-! ### Accounts -/

/-- An account's password, as the first factor needs it. -/
structure CandidatePassword where
  disabled : Bool
  /-- Its Argon2id hash, `none` when the credential's data cannot be read. -/
  hash : Option String
  /-- Whether it was hashed in NFC. -/
  nfc : Bool
  /-- A disabled mark that the lookup ignored. -/
  ignoredMark : Bool

/-- What the first factor needs of the account an identifier names. -/
structure SignInCandidate where
  userId : String
  enabled : Bool
  verified : Bool
  password : Option CandidatePassword

/-- One authenticator bound to an account; a disabled one still counts as bound. -/
structure BoundFactor where
  type : FactorType
  disabled : Bool

/-- What an account may owe before its next sign-in completes. -/
inductive RequiredAction
  | updatePassword
  | setupMfa
  | setupPasskey
  | completeProfile
deriving DecidableEq

/-- What rule 8 needs of the account a factor proved. -/
structure SignInAccount where
  userId : String
  enabled : Bool
  admin : Bool
  verified : Bool
  factors : List BoundFactor
  requiredActions : List RequiredAction
  /-- The identifier of its password credential. -/
  identifier : Option String

/-- How a realm or a client sets MFA. -/
inductive MfaMode
  | off
  | optional
  | required
  | requiredForAdmins
deriving DecidableEq

/-- The MFA policy that applies to one round. -/
structure MfaPolicy where
  realm : MfaMode
  client : MfaMode

/-! ### Verdicts -/

/-- Why a breach-list check could not be made. -/
inductive BreachCheckFailure
  | notConfigured
  | listNotLoaded
  | lookupBlocked
  | lookupFailed
  | badResponse
  | unavailable
deriving DecidableEq

/-- What a breach-list check found. -/
inductive BreachCheckVerdict
  | off
  | notListed
  | listed
  | failed (failure : BreachCheckFailure)
deriving DecidableEq

/-- What the realm's password policy made of a new password. -/
inductive NewPasswordCheck
  | accepted (password : String)
  | rejected (reasons : List PasswordRejectionReason)

/-- Why a write to an account was refused. -/
inductive WriteRefusal
  | accountDisabled
  | subjectMismatch

/-- What marking an address verified or replacing a password found. -/
inductive WriteOutcome
  | written
  | refused (reason : WriteRefusal)

/-- What creating an account found. -/
inductive AccountRegistration
  | created (userId : String)
  | conflict

/-- What replacing a password at a reset found. -/
inductive AccountResetOutcome
  | reset (epoch : ℕ)
  | refused (reason : WriteRefusal)

/-- What the account holds of recovery codes. -/
structure RecoveryCodeStatus where
  issued : Bool
  unused : ℤ
  confirmed : Bool

/-- A new set of recovery codes. -/
structure RecoveryCodeSet where
  codes : List String
  setId : String

/-- What an assertion proved. -/
inductive PasskeyAssertion
  | verified (userId : String) (userVerified : Bool)
  | refused

/-- The creation options and the personal data a port started a registration with. -/
structure PasskeyRegistrationStart where
  options : String
  personal : CreationPersonal

/-- What a `webauthn_create` answer made. -/
inductive PasskeyRegistration
  | verified (registration : String)
  | refused

/-- What binding a verified passkey found. -/
inductive PasskeyBinding
  | bound
  | credentialExists
  | refused (reason : WriteRefusal)

/-- How a secret is shown. -/
structure TotpDisplay where
  secret : String
  otpauthUri : String

/-- A new sealed secret, with how it is shown. -/
structure TotpEnrolmentStart where
  sealedSecret : String
  display : TotpDisplay

/-- What a first code found. -/
inductive TotpSetupCheck
  | valid (step : ℤ)
  | refused

/-- What binding a sealed secret found. -/
inductive TotpBinding
  | bound
  | accountUnclaimed
  | refused (reason : WriteRefusal)

/-- What a registration's code mail says about its address. -/
inductive RegistrationMail
  | newAddress
  | accountExists
  | withheld

/-- Whether a reset's code may be mailed to its address. -/
inductive ResetMail
  | account
  | withheld

/-- One mail of a code. -/
structure EmailCodeMail where
  address : String
  purpose : EmailCodePurpose
  code : String
  expiresInSeconds : ℤ
  afterFirstFactor : Bool
  registration : Option RegistrationMail
  reset : Option ResetMail

/-- What the capped sender decided about a code. -/
inductive EmailCodeSendOutcome
  | accepted
  | capped (retryAfterSeconds : ℤ)

/-- What starting an upstream identity provider found. -/
inductive UpstreamStartOutcome
  | started (redirectTo : String)
  | unavailable

/-- The answer of the limiters to a round. -/
inductive LimitVerdict
  | go (softThreshold : Bool)
  | throttled (retryAfterSeconds : ℤ)

/-- The answer of the limiters to a credential round. -/
inductive CredentialLimitVerdict
  | reserved
  | throttled (retryAfterSeconds : ℤ)

/-- The ladder's answer to a reservation. -/
inductive LadderVerdict
  | reserved
  | wait (retryAfterSeconds : ℤ)

/-- How a reservation is settled. -/
inductive SettleOutcome
  | success
  | failure
  | withdrawn

/-- The answer of the transport's request checks. -/
inductive RequestVerdict
  | go
  | refuse (code : String)
  | redirect

/-- What a hook sees of a round. -/
structure HookRound where
  transaction : SignInTransaction
  answered : Option StepName

/-! ### Audit records -/

/-- What happened to a step. -/
inductive AuditOutcome
  | passed
  | refused
  | ended
  | unchecked

/-- Why an audit record refused or ended. -/
inductive SignInAuditReason
  | invalidCredentials
  | accountDisabled
  | emailNotVerified
  | invalidCode
  | codeExpired
  | codeBurned
  | sendCapped
  | lockedOut
  | subjectMismatch
  | captchaFailed
  | transactionInvalid
  | transactionExpired
  | rateLimited
  | requestRefused
  | invalidAnswer
  | passwordRejected
  | passwordBreached
  | breachCheckFailed
  | providerUnavailable
  | registrationClosed
  | registrationConflict
  | resetClosed
  | resetSince
  | accountUnclaimed
  | authenticationStale

/-- The record's reason for a write that was refused. -/
def WriteRefusal.reason : WriteRefusal → SignInAuditReason
  | .accountDisabled => .accountDisabled
  | .subjectMismatch => .subjectMismatch

/-- How a record names the person. -/
inductive AuditPerson
  | user (id : String)
  | identifier (hmac : String)
  | nobody

/-- One audit record of a round. -/
structure SignInAuditRecord where
  outcome : AuditOutcome
  step : StepName
  reason : Option SignInAuditReason
  failure : Option BreachCheckFailure
  person : AuditPerson

/-! ### Calls -/

/-- Why a code is digested: to be held, or to be compared with the one held. The port is not told. -/
inductive CodeUse
  | issue
  | compare (held : HeldEmailCode)

/-- A call of a port, with what it is given. -/
inductive Call
  | now
  | newCeremonyKey
  | generateEmailCode (length : ℕ)
  | generateEmailCodeSalt
  | audit (record : SignInAuditRecord)
  | identifierDigest (identifier : String)
  | emailCodeDigest (use : CodeUse) (salt code : String)
  | sendCode (mail : EmailCodeMail)
  | markVerified (userId identifier : String) (upstream : Option String)
  | findByIdentifier (identifier : String)
  | findByUserId (userId : String)
  | verifyPassword (hash presented : String)
  | verifyDecoy (presented : String)
  | passwordCeilingReached (userId identifier : String)
  | clearIgnoredMark (userId identifier : String)
  | breachCheck (password : String)
  | minLength
  | checkPassword (identifier password : String)
  | replacePassword (userId identifier password : String)
  | registrationAllowed
  | challengeRequired
  | createAccount (identifier password : String)
  | createWithPasskey (registration : String)
  | resetAllowed
  | resetPassword (userId identifier password : String)
  | notBefore (userId : String)
  | recoveryStatus (userId : String)
  | issueRecoveryCodes (userId : String)
  | redeemRecoveryCode (userId code : String)
  | recoveryCeilingReached (userId : String)
  | confirmRecoveryCodes (userId setId : String)
  | findRecoveryAccount (code : String)
  | policy
  | offeredProviders
  | startUpstream (provider : UpstreamProviderEntry)
  | startAssertion (key : String)
  | verifyAssertion (key response : String)
  | startRegistration (key : String) (userId identifier : Option String)
  | verifyRegistration (key : String) (userId : Option String) (response : String)
  | bindPasskey (userId registration : String) (replacing : Bool)
  | verifyTotp (userId code : String)
  | startTotp (userId identifier : String)
  | displayTotp (userId identifier sealedSecret : String)
  | checkTotp (userId sealedSecret code : String)
  | bindTotp (userId sealedSecret : String) (step : ℤ)
  | totpCeilingReached (userId : String)
  | failedAfterPassword (userId : String)
  | challengeParams (flow : Option SignInFlow)
  | verifyChallenge (params : StepParams) (token : String)
  | limitsRound (round : HookRound)
  | reserveLimits (identifierHmac endUserIp : Option String)
  | settleLimits (outcome : SettleOutcome) (userId : Option String)
  | reserveRegistrationStart (endUserIp : Option String)
  | reserveLadder (subject : LadderSubject) (factor : LadderCounter) (endUserIp : Option String)
  | settleLadder (outcome : SettleOutcome) (rememberIp : Bool)
  | softThreshold (subject : LadderSubject) (counters : List LadderCounter)
  | request (round : HookRound)
  | botChallenge (round : HookRound)

abbrev Answer : Call → Type
  | .now => ℤ
  | .newCeremonyKey => { key : String // isHmac key = true }
  | .generateEmailCode length => { code : String // isDigits length code = true }
  | .generateEmailCodeSalt => { salt : String // isEmailCodeSalt salt = true }
  | .audit _ => Bool
  | .identifierDigest _ | .emailCodeDigest .. => Option String
  | .sendCode _ => Option EmailCodeSendOutcome
  | .markVerified .. | .replacePassword .. => Option WriteOutcome
  | .findByIdentifier _ => Option (Option SignInCandidate)
  | .findByUserId _ => Option (Option SignInAccount)
  | .verifyPassword .. => Option Bool
  | .verifyDecoy _ => Option Unit
  | .breachCheck _ => BreachCheckVerdict
  | .minLength => Option ℕ
  | .checkPassword .. => Option NewPasswordCheck
  | .registrationAllowed | .challengeRequired | .resetAllowed => Option Bool
  | .createAccount .. | .createWithPasskey _ => Option AccountRegistration
  | .resetPassword .. => Option AccountResetOutcome
  | .notBefore _ => Option (Option ℤ)
  | .recoveryStatus _ => Option RecoveryCodeStatus
  | .issueRecoveryCodes _ => Option (Option RecoveryCodeSet)
  | .redeemRecoveryCode .. | .confirmRecoveryCodes .. => Option Bool
  | .findRecoveryAccount _ => Option (Option String)
  | .policy => Option MfaPolicy
  | .offeredProviders => Option (List UpstreamProviderEntry)
  | .startUpstream _ => Option UpstreamStartOutcome
  | .startAssertion _ => Option String
  | .verifyAssertion .. => Option PasskeyAssertion
  | .startRegistration .. => Option PasskeyRegistrationStart
  | .verifyRegistration .. => Option PasskeyRegistration
  | .bindPasskey .. => Option PasskeyBinding
  | .verifyTotp .. | .verifyChallenge .. => Option Bool
  | .startTotp .. => Option TotpEnrolmentStart
  | .displayTotp .. => Option TotpDisplay
  | .checkTotp .. => Option TotpSetupCheck
  | .bindTotp .. => Option TotpBinding
  | .challengeParams _ => Option StepParams
  | .limitsRound _ | .reserveRegistrationStart _ => Option LimitVerdict
  | .reserveLimits .. => Option CredentialLimitVerdict
  | .reserveLadder .. => Option LadderVerdict
  | .settleLadder .. => Bool
  | .softThreshold .. | .botChallenge _ => Option Bool
  | .request _ => Option RequestVerdict
  | .settleLimits .. | .passwordCeilingReached .. | .clearIgnoredMark ..
  | .recoveryCeilingReached _ | .totpCeilingReached _ | .failedAfterPassword _ => Unit

/-- The engine's ports. -/
def ports : Effect.Ports where
  Call := Call
  Answer := Answer

/-! ### Rounds -/

/-- The registration port: its optional methods. -/
structure RegistrationPorts where
  challengeRequired : Bool
  createWithPasskey : Bool

/-- What the engine is built from: the ports and the hooks it holds. -/
structure Deployment where
  requireVerifiedAccount : Bool
  emailCodes : Bool
  passwordUpdates : Bool
  registrations : Option RegistrationPorts
  resets : Bool
  sessionEpochs : Bool
  /-- Held, with whether it finds an account by its code. -/
  recoveryCodes : Option Bool
  passkeys : Bool
  totp : Bool
  /-- The handler of the bot challenge. -/
  challenge : Bool
  upstream : Bool
  /-- Held, with whether it counts registration starts. -/
  limits : Option Bool
  /-- Whether the ladder has a soft threshold. -/
  softThreshold : Bool
  request : Bool
  botChallenge : Bool

/-- A factor a sign-in binds because the person asked for it. -/
inductive EnrolmentRequest
  | passkey
  | totp
deriving DecidableEq

/-- The account a factor proved. -/
structure ProvedAccount where
  userId : String
  enabled : Bool
  verified : Bool
  identifier : Option String

/-- What an upstream provider's callback proved. -/
structure UpstreamProof where
  provider : UpstreamProviderEntry
  account : ProvedAccount
  address : Option String

/-- What a round is for. -/
structure RoundContext where
  realmId : String
  clientId : String
  loginHint : Option String
  /-- The steps the transport can serve; every step where it says nothing. -/
  serves : Option (List StepName)
  endUserIp : Option String
  /-- Whether the round has a sender of codes. -/
  sendCode : Bool
  /-- Whether the round can start an upstream provider. -/
  startUpstream : Bool
  upstreamRoute : Option UpstreamProviderEntry
  flow : Option SignInFlow
  freshSignIn : Bool
  enrol : Option EnrolmentRequest

/-- A completed sign-in, registration or reset. -/
inductive CompletedSignIn
  | signedIn (subject : String) (identifier : Option String) (amr : List AmrValue) (authTime : ℤ)
      (recoveryCode : Bool)
  | registered (subject : String) (identifier : Option String)
  | recovered (subject identifier : String) (epoch : ℕ)

/-- The personal data of the current step. -/
inductive StepPersonal
  | account (identifier : Option String)
  | creation (personal : Option CreationPersonal)
  | recoveryCodes (codes : List String)
  | totpSetup (identifier : String) (display : TotpDisplay)

/-- Where a round that is redirected continues. -/
inductive RedirectReason
  | stepNotAvailable
  | request

/-- What the engine answers a round. -/
inductive RoundResult
  | step (transaction : SignInTransaction) (offer : StepOffer) (personal : StepPersonal)
  | upstream (transaction : SignInTransaction) (offer : StepOffer) (personal : StepPersonal)
      (provider redirectTo : String)
  | complete (signIn : CompletedSignIn)
  | redirect (reason : RedirectReason)
  | ended
  | throttled (retryAfterSeconds : ℤ) (transaction : SignInTransaction)
  | unavailable (transaction : SignInTransaction)
  | invalidAnswer (transaction : SignInTransaction)
  | requestRefused (code : String) (transaction : SignInTransaction)

/-- The transaction to keep. -/
def RoundResult.transaction : RoundResult → Option SignInTransaction
  | .step transaction .. | .upstream transaction .. | .throttled _ transaction
  | .unavailable transaction | .invalidAnswer transaction | .requestRefused _ transaction =>
    some transaction
  | .complete _ | .redirect _ | .ended => none

/-! ### Procedures -/

/-- The round's answer while no step has taken it. -/
structure Pending where
  name : StepName
  answer : RoundAnswer

/-- What a round works on. -/
structure RoundState where
  transaction : SignInTransaction
  pending : Option Pending
  /-- The identifier's HMAC, computed at most once a round. -/
  hmac : Option String
  /-- The offer the answer was taken from; nothing reads it. -/
  answeredOffer : Option StepOffer

/-- How a procedure of the engine stops early. -/
inductive Exit
  /-- The round's result. -/
  | answered (result : RoundResult)
  /-- `SignInStoreUnavailableError`. -/
  | unavailable
  /-- Any other error, which rejects the round. -/
  | fault

/-- Whether the stop is an error, which a `catch` sees. -/
def Exit.thrown : Exit → Bool
  | .answered _ => false
  | .unavailable | .fault => true

/-- A procedure of the engine. -/
abbrev EngineM : Type → Type := Effect.Proc ports RoundState Exit

/-- What a round runs with: the deployment, the transport's view, and what it was called for. -/
structure RoundSetting where
  syntaxes : Syntax
  deps : Deployment
  context : RoundContext
  /-- The transaction as the round found it. -/
  found : SignInTransaction
  /-- Round 0. -/
  fresh : Bool
  proof : Option UpstreamProof
  answered : Option StepName

end QAuth.Engine
