import QAuth.Engine.Codes

/-!
# Registration and reset

The rounds of a registration with an address or by a passkey, a recovery code that finds its account
before any first factor, and the rounds of a reset (`register` to `recover` of `engine.ts`).
-/

namespace QAuth.Engine

open SignIn (FactorType LadderCounter LadderSubject)

variable {α : Type} (s : RoundSetting)

/-! ### Registration -/

/-- The steps a registration needs the transport to serve. -/
def REGISTRATION_STEPS : List StepName := [.identifier, .emailCode, .newPassword]

/-- The code of the refusal of a registration that is not allowed. -/
def REGISTRATION_NOT_ALLOWED : String := "registration_not_allowed"

/-- What the first factor needs of the account that holds the address. -/
def readCandidate (identifier : String) : EngineM (Option SignInCandidate) :=
  fromStore (ask (.findByIdentifier identifier))

/-- Count a registration start on the limiters. -/
def reserveRegistrationStart (step : StepName) : EngineM Unit := do
  if s.deps.limits = some true then
    match ← fromStore (ask (.reserveRegistrationStart s.context.endUserIp)) with
    | .throttled seconds =>
      audit .refused step (some .rateLimited)
      throttled (max 1 seconds)
    | .go _ => return ()

/-- A registration's code: eight digits, the same step for a new address and an existing one. -/
def CodeSpec.forRegister (identifier : String) : CodeSpec where
  purpose := .verifyAccount
  length := emailCodeLength .verifyAccount false
  address := identifier
  afterFirstFactor := false
  userId := none
  beforeFirst := reserveRegistrationStart s .emailCode
  registration := do
    match ← readCandidate identifier with
    | none => return some .newAddress
    | some candidate => return some (if candidate.enabled then .accountExists else .withheld)
  reset := return none
  refuses := do
    let candidate ← readCandidate identifier
    return if candidate.all (·.enabled) then .ok none else .error .accountDisabled

/-- The write that creates the account of `identifier`. -/
def createAccount (identifier password : String) : EngineM Unit := do
  match ← fromStore (ask (.createAccount identifier password)) with
  | .conflict => ended .newPassword .registrationConflict
  | .created userId =>
    if userId = "" then unavailable
    else writeTransaction fun T ↦ { T with subject := some userId }

/-- A registration's rounds once the transaction holds the address; go on when an account holds
it. -/
def register (identifier : String) : EngineM Unit := do
  if s.deps.registrations.isNone || !s.deps.emailCodes || !s.deps.passwordUpdates then fault
  if !(← transaction).provedMailbox then
    let (params, _) ← codeRound s (.forRegister s identifier)
    codeTaken params
  match ← readCandidate identifier with
  | some _ => return ()
  | none =>
    askNewPassword s identifier .register (createAccount identifier)
    match (← transaction).subject with
    | none => fault
    | some subject => respond (.complete (.registered subject (some identifier)))

/-- The registration ceremony of an account whose primary identity is a passkey. -/
def passkeyRegistration : Option Offerable :=
  if s.deps.passkeys && s.deps.registrations.any (·.createWithPasskey) &&
      s.deps.recoveryCodes.isSome && s.served .webauthnCreate && s.served .recoveryCodes then
    some (.creation none none false)
  else none

/-- Take the held `webauthn_create` ceremony and verify the registration `response` under it. -/
def verifyCreation (response : String) (userId : Option String) : EngineM (Option String) := do
  let held := (← transaction).ceremony.filter (·.step = .webauthnCreate)
  writeTransaction fun T ↦ { T with ceremony := none }
  spendChallenge
  match held with
  | none => return none
  | some ceremony =>
    match ← fromStore (ask (.verifyRegistration ceremony.key userId response)) with
    | .refused => return none
    | .verified registration =>
      if 1 ≤ registration.length && registration.length ≤ PASSKEY_REGISTRATION_MAX_LENGTH then
        return some registration
      else unavailable

/-- The response of a `webauthn_create` answer that may not decline. -/
def requiredResponse (offer : StepOffer) : EngineM (String × StepParams) := do
  let read ← takePending s offer .webauthnCreate
  match read.answer with
  | .webauthnCreate (some response) => return (response, read.params)
  | .webauthnCreate none => invalidAnswer .webauthnCreate
  | _ => fault

/-- Refuse a registration ceremony's answer: the same steps again, under a new ceremony. -/
def refuseCreation (steps : List Offerable) (preferred : Bool) : EngineM α := do
  audit .refused .webauthnCreate (some .invalidCredentials)
  let renewed ← offerOf s steps preferred
  let refused ← refusedOffer renewed .webauthnCreate
  offerStep refused (some .invalidCredentials) none

/-- The write that creates an account with a passkey and no address. -/
def createWithPasskey (reserved : Bool) (registration : String) : EngineM String := do
  match ← fromStore (ask (.createWithPasskey registration)) with
  | .conflict =>
    settleRound reserved .failure none
    ended .webauthnCreate .registrationConflict
  | .created userId => if userId = "" then unavailable else return userId

/-- Register by the passkey that the pending `webauthn_create` answer of `offer` created. -/
def registerByPasskey (offer : StepOffer) (steps : List Offerable) : EngineM Unit := do
  if !s.deps.passkeys || !s.deps.registrations.any (·.createWithPasskey) then fault
  let (response, params) ← requiredResponse s offer
  let reserved ← reserveCredentialRound s .webauthnCreate
  match ← Effect.attempt (!·.thrown) (reserveRegistrationStart s .webauthnCreate) with
  | .error e =>
    settleRound reserved .withdrawn none
    Effect.exit e
  | .ok () =>
    match ← verifyCreation response none with
    | none =>
      settleRound reserved .failure none
      refuseCreation s steps true
    | some registration =>
      let userId ← createWithPasskey reserved registration
      settleRound reserved .success (some userId)
      writeTransaction fun T ↦ ({ T with subject := some userId } : SignInTransaction).verify
        { step := .webauthnCreate, params }
      audit .passed .webauthnCreate none

/-! ### A recovery code before any first factor -/

/-- Whether the sign-in's first offer carries a recovery code. -/
def RoundSetting.codeBeforeFirstFactor (s : RoundSetting) : Bool :=
  s.deps.recoveryCodes = some true && s.deps.passkeys && s.served .recoveryCode

def SignInAccount.passkeysAlone (account : SignInAccount) : Bool :=
  account.identifier.isNone && !account.factors.isEmpty &&
    account.factors.all (·.type = .passkey)

def refuseFirstCode (offer : StepOffer) (reserved : Bool) (reason : SignInAuditReason) :
    EngineM α := do
  settleRound reserved .failure none
  refuseAnswer s offer .recoveryCode .invalidCredentials reason

def findCodeAccount (offer : StepOffer) (reserved : Bool) (typed : String) : EngineM String := do
  match ← fromStore (ask (.findRecoveryAccount typed)) with
  | none => refuseFirstCode s offer reserved .invalidCredentials
  | some userId =>
    if userId = "" then unavailable
    match ← fromStore (ask (.findByUserId userId)) with
    | none => refuseFirstCode s offer reserved .invalidCredentials
    | some account =>
      if account.userId ≠ userId || !account.passkeysAlone then
        refuseFirstCode s offer reserved .invalidCredentials
      if !account.enabled then refuseFirstCode s offer reserved .accountDisabled
      return userId

/-- Redeem the pending `recovery_code` answer of the sign-in's first offer. -/
def redeemBeforeFirstFactor (offer : StepOffer) : EngineM Unit := do
  if s.deps.recoveryCodes ≠ some true then fault
  let read ← takePending s offer .recoveryCode
  match read.answer with
  | .recoveryCode typed =>
    let reserved ← reserveCredentialRound s .recoveryCode
    spendChallenge
    let userId ← findCodeAccount s offer reserved typed
    match ← fromStore (ask (.reserveLadder (.user userId) .recoveryCode none)) with
    | .wait seconds =>
      settleRound reserved .withdrawn none
      audit .refused .recoveryCode (some .lockedOut)
      throttled seconds
    | .reserved =>
      if ← fromStore (ask (.redeemRecoveryCode userId typed)) then
        let _ ← ask (.settleLadder .success true)
        settleRound reserved .success (some userId)
        let now ← ask .now
        writeTransaction fun T ↦
          ({ T with subject := some userId, authTime := some now } : SignInTransaction).verify
            { step := .recoveryCode, params := read.params }
        audit .passed .recoveryCode none
      else
        -- Another round took the code first: counted as a wrong one.
        let ceilingReached ← ask (.settleLadder .failure true)
        if ceilingReached then ask (.recoveryCeilingReached userId)
        refuseFirstCode s offer reserved .invalidCredentials
  | _ => fault

/-! ### Reset -/

/-- The steps a reset needs the transport to serve. -/
def RESET_STEPS : List StepName := [.passwordReset, .emailCode, .newPassword]

/-- The code of the refusal of a reset that the client may not run. -/
def RESET_NOT_ALLOWED : String := "reset_not_allowed"

/-- The reset gate's verdict. -/
def resetAllowed : EngineM Bool := fromStore (ask .resetAllowed)

/-- Whether this round's password step offers a reset beside the password. -/
def resetOffered : EngineM Bool := do
  if !s.deps.resets || !s.deps.emailCodes || !s.deps.passwordUpdates then return false
  else if !RESET_STEPS.all s.served || s.context.freshSignIn then return false
  else resetAllowed

/-- Whether `candidate` is mailed and reset: enabled, with a password and a proved address. -/
def resettable (candidate : SignInCandidate) : Bool :=
  candidate.enabled && candidate.verified && candidate.password.isSome

/-- A reset's code: eight digits, the same step for every address. -/
def CodeSpec.forReset (identifier : String) : CodeSpec where
  purpose := .recovery
  length := emailCodeLength .recovery false
  address := identifier
  afterFirstFactor := false
  userId := none
  beforeFirst := return ()
  registration := return none
  reset := do
    let candidate ← readCandidate identifier
    return some (if candidate.any resettable then .account else .withheld)
  refuses := do
    match ← readCandidate identifier with
    | none => return .error .invalidCredentials
    | some candidate =>
      if candidate.password.isNone then return .error .invalidCredentials
      else if !candidate.enabled then return .error .accountDisabled
      else if candidate.verified then return .ok (some candidate)
      else return .error .accountUnclaimed

/-- Record a reset's start; a round that fails before the record is written keeps `before`. -/
def recordReset (before : SignInTransaction) : EngineM Unit :=
  restoring before do
    if (← pendingName) = some .passwordReset then
      let offer ← offerOf s [.passwordReset] false
      match ← readPending s offer with
      | none =>
        writeTransaction fun _ ↦ before
        invalidAnswer .passwordReset
      | some _ => takeFrom offer
    writeTransaction fun T ↦ T.verify { step := .passwordReset, params := .empty }
    audit .passed .passwordReset none

/-- Prove the mailbox of a reset's address: a right code fixes the account. -/
def proveResetMailbox (identifier : String) : EngineM Unit := do
  let (params, candidate) ← codeRound s (.forReset identifier)
  match candidate.filter resettable with
  | none => fault
  | some candidate =>
    writeTransaction fun T ↦ { T with subject := some candidate.userId }
    codeTaken params

/-- The account of a reset again, every factor included. -/
def readResetAccount (subject : String) : EngineM SignInAccount := do
  match ← fromStore (ask (.findByUserId subject)) with
  | none => ended .passwordReset .subjectMismatch
  | some account =>
    if account.userId ≠ subject then ended .passwordReset .subjectMismatch
    if !account.enabled then ended .passwordReset .accountDisabled
    return account

/-- The factors beyond the password that the account can answer now. -/
def factorsBeyondPassword (T : SignInTransaction) (account : SignInAccount) : List Offerable :=
  ((s.deps.secondFactors ++ s.deps.firstFactors).filter fun step ↦
    s.served step && !T.hasVerified step && (s.deps.factorOf step).any (· ≠ .password) &&
      usableBy account step).map .handler

/-- Prove any other authenticator the account holds; a recovery code may stand in for it. -/
def proveBeyondPassword (subject : String) (account : SignInAccount) : EngineM Unit := do
  let T ← transaction
  if boundBeyondPassword account && !T.metBeyondPassword s.deps then
    let code ← recoveryAlternative s subject
    let needed := factorsBeyondPassword s T account ++ code
    if needed.isEmpty then redirect .stepNotAvailable
    let offer ← offerOf s needed false
    if !(← answers offer) then offerStep offer none none
    verifyAfterFirstFactor s offer subject
    let _ ← readResetAccount subject

/-- The write that replaces the password at a reset. -/
def resetPassword (subject identifier password : String) : EngineM ℕ := do
  match ← fromStore (ask (.resetPassword subject identifier password)) with
  | .reset epoch => return epoch
  | .refused reason => ended .newPassword reason.reason

/-- A reset's rounds, once its gate let the round through. -/
def recover (before : SignInTransaction) : EngineM α := do
  if !s.deps.resets || !s.deps.emailCodes || !s.deps.passwordUpdates then fault
  match (← transaction).identifier with
  | none =>
    -- The start was answered with no address: malformed.
    if (← pendingName) = some .passwordReset then invalidAnswer .passwordReset
    let offer ← offerOf s [.passwordReset] false
    offerStep offer none none
  | some identifier =>
    if !(← transaction).hasVerified .passwordReset then recordReset s before
    if (← pendingName) = some .passwordReset then dropPending
    if !(← transaction).provedMailbox then proveResetMailbox s identifier
    match (← transaction).subject with
    | none => fault
    | some subject =>
      let account ← readResetAccount subject
      proveBeyondPassword s subject account
      let epoch ← askNewPassword s identifier .reset (resetPassword subject identifier)
      respond (.complete (.recovered subject identifier epoch))

/-- The address that the start of a reset brings must be the one the transaction holds. -/
def checkResetHint (hint : Option String) : EngineM Unit := do
  match hint with
  | none => return ()
  | some hint =>
    match s.syntaxes.readIdentifier hint with
    | none => invalidAnswer .passwordReset
    | some brought =>
      if some brought ≠ (← transaction).identifier then ended .passwordReset .subjectMismatch

/-- Turn the sign-in into a reset, and go on with its rounds at once. -/
def startReset (offer : StepOffer) : EngineM α := do
  let before ← transaction
  let read ← takePending s offer .passwordReset
  match read.answer with
  | .passwordReset hint =>
    checkResetHint s hint
    writeTransaction fun T ↦ { T with upstream := none, flow := some .reset }
    recover s before
  | _ => fault

end QAuth.Engine
