import QAuth.Engine.Flows

/-!
# The forced update and the enrolments

What rule 8 may ask for after every factor the sign-in needs (`forcedUpdate` to `enrolTotp` of
`engine.ts`): a new password, a passkey, the passkey a recovery code binds in place of a lost one,
and an authenticator app.
-/

namespace QAuth.Engine

open SignIn (FactorType LadderCounter LadderSubject)

variable {α : Type} (s : RoundSetting)

/-! ### The forced update -/

namespace SignInTransaction

/-- An address this transaction has still to verify. -/
def addressPending (T : SignInTransaction) (current : SignInAccount) : Bool :=
  !current.verified && !T.hasVerified .emailCode

/-- Whether this transaction set a new password. -/
def passwordUpdated (T : SignInTransaction) : Bool := T.hasVerified .newPassword

/-- Whether the sign-in must set a new password before it completes. -/
def updateDue (T : SignInTransaction) (current : SignInAccount) : Bool :=
  !T.passwordUpdated &&
    (T.breachedPassword || T.updatePasswordRequired ||
      current.requiredActions.contains .updatePassword) &&
    current.factors.any (·.type = .password)

/-- Whether this transaction bound a TOTP. -/
def enrolledTotp (T : SignInTransaction) : Bool := T.hasVerified .totpSetup

end SignInTransaction

/-- Prove the mailbox of the address the transaction names, unless it was proved. -/
def proveMailbox (subject : String) : EngineM Unit := do
  if !(← transaction).provedMailbox then
    if !s.deps.emailCodes then redirect .stepNotAvailable
    verifyAddress s subject .recovery

/-- The write that replaces the password at a forced update. -/
def replacePassword (subject identifier password : String) : EngineM Unit := do
  match ← fromStore (ask (.replacePassword subject identifier password)) with
  | .written => return ()
  | .refused reason => ended .newPassword reason.reason

/-- The forced password update, once every factor the sign-in needs is proved. -/
def forcedUpdate (current : SignInAccount) (subject : String) : EngineM Unit := do
  let T ← transaction
  match T.identifier with
  | none => redirect .stepNotAvailable
  | some identifier =>
    if !s.deps.passwordUpdates || !s.served .newPassword then redirect .stepNotAvailable
    if boundBeyondPassword current then
      if !T.metBeyondPassword s.deps then fault
    else proveMailbox s subject
    askNewPassword s identifier .updateRequired (replacePassword subject identifier)

/-! ### Passkeys -/

/-- Binding a factor needs a factor proved at most this long ago, in milliseconds. -/
def PASSKEY_BINDING_MAX_AUTH_AGE_MS : ℤ := 5 * 60 * 1000

/-- Whether a factor was proved recently enough for a binding. -/
def freshFactor : EngineM Bool := do
  match (← transaction).authTime with
  | none => return false
  | some authTime =>
    let now ← ask .now
    return now - authTime ≤ PASSKEY_BINDING_MAX_AUTH_AGE_MS

/-- An account with passwords alone. -/
def passwordOnly (account : SignInAccount) : Bool :=
  !account.factors.isEmpty && account.factors.all (·.type = .password)

/-- Refuse a registration: the step again with a new ceremony. -/
def refuseEnrolment (create : Offerable) : EngineM α := do
  audit .refused .webauthnCreate (some .invalidCredentials)
  let offer ← offerOf s [create] false
  offerStep offer (some .invalidCredentials) none

/-- Whether the round may offer a passkey: the optional offer follows a password that a
password-only account proved, the one the person asked for whatever the sign-in needed. -/
def mayOfferPasskey (current : SignInAccount) (requested : Bool) : EngineM Bool := do
  if !s.served .webauthnCreate || !s.served .recoveryCodes || s.deps.recoveryCodes.isNone then
    return false
  else
    let fresh ← freshFactor
    let T ← transaction
    return fresh && (requested || (passwordOnly current && T.hasVerified .password)) &&
      (!passwordOnly current || T.provedMailbox || (s.deps.emailCodes && s.served .emailCode))

/-- The offer is not made again in this transaction. -/
def declinePasskey : EngineM Unit :=
  writeTransaction fun T ↦ { T with ceremony := none, passkeyEnrolment := some .declined }

/-- The registration that the pending answer made, held once it is verified; `none` when it
declined. -/
def takeRegistration (create : Offerable) (offer : StepOffer) (subject : String) :
    EngineM (Option String) := do
  let read ← takePending s offer .webauthnCreate
  match read.answer with
  | .webauthnCreate none =>
    declinePasskey
    return none
  | .webauthnCreate (some response) =>
    let reserved ← reserveCredentialRound s .webauthnCreate
    match ← verifyCreation response (some subject) with
    | none =>
      settleRound reserved .failure none
      refuseEnrolment s create
    | some registration =>
      settleRound reserved .success (some subject)
      writeTransaction fun T ↦ { T with passkeyEnrolment := some (.held registration) }
      return some registration
  | _ => fault

/-- Offer a passkey, and take what its answer registered. -/
def offerPasskey (create : Offerable) (current : SignInAccount) (subject : String)
    (requested : Bool) : EngineM (Option String) := do
  if !(← mayOfferPasskey s current requested) then return none
  else
    match ← Effect.attempt Exit.thrown (offerOf s [create] false) with
    | .error e =>
      -- The offer is optional: one that cannot start is not made in this transaction.
      if (← pendingName) = some .webauthnCreate then Effect.exit e
      else
        declinePasskey
        return none
    | .ok offer =>
      if (← pendingName) ≠ some .webauthnCreate then offerStep offer none none
      else takeRegistration s create offer subject

def bindHeld (create : Offerable) (subject registration : String) : EngineM Unit := do
  match ← fromStore (ask (.bindPasskey subject registration false)) with
  | .bound =>
    writeTransaction fun T ↦ { T with passkeyEnrolment := some .bound }
    audit .passed .webauthnCreate none
  | .credentialExists =>
    writeTransaction fun T ↦ { T with passkeyEnrolment := none }
    refuseEnrolment s create
  | .refused reason =>
    writeTransaction fun T ↦ { T with passkeyEnrolment := none }
    ended .webauthnCreate reason.reason

/-- The passkey enrolment after a sign-in; go on once nothing is owed. -/
def enrolPasskey (current : SignInAccount) (subject : String) (requested : Bool) :
    EngineM Unit := do
  let T ← transaction
  let identifier := T.identifier <|> (if requested then current.identifier else none)
  if T.passkeyEnrolment = some .declined || T.passkeyEnrolment = some .bound ||
      (identifier.isNone && !requested) then return ()
  else
    let create := .creation (some subject) identifier true
    let registration ←
      match T.passkeyEnrolment with
      | some (.held registration) => pure (some registration)
      | _ => offerPasskey s create current subject requested
    match registration with
    | none => return ()
    | some registration =>
      -- The first passkey of a password-only account: its mailbox, proved in this transaction.
      if passwordOnly current then proveMailbox s subject
      if ← freshFactor then bindHeld s create subject registration
      else writeTransaction fun T ↦ { T with passkeyEnrolment := some .declined }

/-- The new passkey a recovery code binds before any first factor, in place of the lost one. -/
def rebindPasskey (subject : String) : EngineM Unit := do
  if !s.deps.passkeys || !s.served .webauthnCreate then redirect .stepNotAvailable
  if !(← freshFactor) then ended .webauthnCreate .authenticationStale
  let create := .creation (some subject) none false
  let offer ← offerOf s [create] false
  if (← pendingName) ≠ some .webauthnCreate then offerStep offer none none
  let (response, params) ← requiredResponse s offer
  let reserved ← reserveCredentialRound s .webauthnCreate
  match ← verifyCreation response (some subject) with
  | none =>
    settleRound reserved .failure none
    refuseEnrolment s create
  | some registration =>
    settleRound reserved .success (some subject)
    if !(← freshFactor) then ended .webauthnCreate .authenticationStale
    match ← fromStore (ask (.bindPasskey subject registration true)) with
    | .bound =>
      writeTransaction fun T ↦ T.verify { step := .webauthnCreate, params }
      audit .passed .webauthnCreate none
    | .credentialExists => refuseEnrolment s create
    | .refused reason => ended .webauthnCreate reason.reason

/-! ### Authenticator apps -/

/-- The `totp_setup` step's params. -/
def TOTP_SETUP_PARAMS : StepParams := .totpSetup "SHA1" 6 30

/-- `^[A-Z2-7]{32}$`: a secret in base32. -/
def isTotpSecret (secret : String) : Bool :=
  secret.length = 32 && secret.toList.all fun c ↦ ('A' ≤ c && c ≤ 'Z') || ('2' ≤ c && c ≤ '7')

/-- The `totp_setup` step's personal data, checked. -/
def shownTotp (label : String) (display : TotpDisplay) : EngineM StepPersonal :=
  if s.syntaxes.display 254 label && isTotpSecret display.secret &&
      s.syntaxes.otpauth display.otpauthUri then return .totpSetup label display
  else unavailable

/-- The factor is too old for a binding: the transaction ends. -/
def staleTotp : EngineM α := do
  writeTransaction fun T ↦ { T with totpEnrolment := none }
  ended .totpSetup .authenticationStale

/-- Go on only while a factor is fresh. -/
def requireFreshFactor : EngineM Unit := do
  if !(← freshFactor) then staleTotp

/-- The `totp_setup` step. -/
def totpSetupOffer : StepOffer := alone .totpSetup TOTP_SETUP_PARAMS

/-- Draw a new secret and show it. -/
def startTotp (subject label : String) : EngineM α := do
  let started ← fromStore (ask (.startTotp subject label))
  let sealedSecret := started.sealedSecret
  if !(1 ≤ sealedSecret.length && sealedSecret.length ≤ TOTP_SEALED_MAX_LENGTH) then unavailable
  let personal ← shownTotp s label started.display
  writeTransaction fun T ↦ { T with totpEnrolment := some { sealedSecret, step := none } }
  -- An answer to an offer this round makes is ignored: nobody saw it.
  if (← pendingName) = some .totpSetup then dropPending
  offerStep totpSetupOffer none (some personal)

def showTotp (subject label sealedSecret : String) (error : Option StepErrorCode) : EngineM α := do
  let display ← fromStore (ask (.displayTotp subject label sealedSecret))
  let personal ← shownTotp s label display
  offerStep totpSetupOffer error (some personal)

def checkFirstCode (subject label sealedSecret : String) : EngineM ℤ := do
  if (← pendingName) ≠ some .totpSetup then showTotp s subject label sealedSecret none
  let read ← takePending s totpSetupOffer .totpSetup
  match read.answer with
  | .totpSetup otp =>
    let reserved ← reserveCredentialRound s .totpSetup
    spendChallenge
    match ← fromStore (ask (.checkTotp subject sealedSecret otp)) with
    | .refused =>
      settleRound reserved .failure none
      audit .refused .totpSetup (some .invalidCredentials)
      showTotp s subject label sealedSecret (some .invalidCredentials)
    | .valid step =>
      if step < 0 then unavailable
      settleRound reserved .success (some subject)
      writeTransaction fun T ↦ { T with totpEnrolment := some { sealedSecret, step := some step } }
      return step
  | _ => fault

/-- The transaction after its TOTP was bound: the first code counts as its proof. -/
def SignInTransaction.boundTotp (T : SignInTransaction) (now : ℤ) : SignInTransaction :=
  { T with
    totpEnrolment := none
    verified := T.verified ++ [{ step := .totpSetup, params := TOTP_SETUP_PARAMS },
      { step := .totp, params := .totp 6 }]
    authTime := some now }

/-- Bind the secret, with the step of its first code as its last accepted one. -/
def bindTotp (subject sealedSecret : String) (step : ℤ) : EngineM Unit := do
  match ← fromStore (ask (.bindTotp subject sealedSecret step)) with
  | .bound =>
    let now ← ask .now
    writeTransaction fun T ↦ T.boundTotp now
    audit .passed .totpSetup none
  | .accountUnclaimed =>
    writeTransaction fun T ↦ { T with totpEnrolment := none }
    ended .totpSetup .accountUnclaimed
  | .refused reason =>
    writeTransaction fun T ↦ { T with totpEnrolment := none }
    ended .totpSetup reason.reason

/-- What names the account in an authenticator app. -/
def SignInTransaction.totpLabel (T : SignInTransaction) (current : SignInAccount) :
    Option String :=
  T.identifier <|> current.identifier <|> T.upstream.bind (·.address)

/-- The TOTP set-up; go on once the secret is bound. -/
def enrolTotp (current : SignInAccount) (subject : String) : EngineM Unit := do
  let T ← transaction
  match T.totpLabel current with
  | none => redirect .stepNotAvailable
  | some label =>
    if T.enrolledTotp || s.deps.recoveryCodes.isNone || !s.served .totpSetup ||
        !s.served .recoveryCodes then redirect .stepNotAvailable
    requireFreshFactor
    -- An unclaimed account is claimed first: never a code in the factor's place.
    if T.addressPending current then
      if !s.deps.emailCodes then redirect .stepNotAvailable
      verifyAddress s subject .verifyAccount
      requireFreshFactor
    match (← transaction).totpEnrolment with
    | none => startTotp s subject label
    | some held =>
      let step ←
        match held.step with
        | some step => pure step
        | none => checkFirstCode s subject label held.sealedSecret
      if !boundBeyondPassword current then proveMailbox s subject
      requireFreshFactor
      bindTotp subject held.sealedSecret step

end QAuth.Engine
