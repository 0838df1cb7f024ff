import QAuth.Engine.Offers

/-!
# Providers, recovery codes, email codes and new passwords

The procedures that several rules share (`upstreamProviders` to `askNewPassword` of `engine.ts`):
an upstream provider's start and proof, a recovery code after the first factor, a new set of
recovery codes, the rounds of one emailed code, and the `new_password` step.
-/

namespace QAuth.Engine

open SignIn (FactorType LadderCounter LadderSubject)

variable {α : Type} (s : RoundSetting)

/-! ### Upstream providers -/

/-- The most providers the `upstream` step lists. -/
def MAX_UPSTREAM_PROVIDERS : ℕ := 16

/-- The params of an `upstream` step listing `providers`; `none` outside the step's schema. -/
def upstreamParams (g : Syntax) (providers : List UpstreamProviderEntry) : Option StepParams :=
  if g.params .upstream (.upstream providers) then some (.upstream providers) else none

/-- The providers the `upstream` step lists this round. -/
def upstreamProviders : EngineM (Option (List UpstreamProviderEntry)) := do
  if !s.deps.upstream || !s.context.startUpstream || !s.served .upstream then return none
  else
    let providers ← fromStore (ask .offeredProviders)
    -- An entry outside the step's schema is left out.
    let shown := providers.filter fun entry ↦ (upstreamParams s.syntaxes [entry]).isSome
    if shown.isEmpty then return none
    else
      let listed := shown.take MAX_UPSTREAM_PROVIDERS
      if (upstreamParams s.syntaxes listed).isSome then return some listed else unavailable

/-- The provider the pending answer picked from `offer`. -/
def pickedProvider (offer : StepOffer) : EngineM UpstreamProviderEntry := do
  let read ← takePending s offer .upstream
  match read.answer, read.params with
  | .upstream provider, .upstream providers =>
    match providers.find? (·.provider = provider) with
    | some entry => return entry
    | none => invalidAnswer .upstream
  | _, _ => fault

/-- The provider the authorization request routes to, or the one that was picked. -/
def chosenProvider (offer : StepOffer) (routed : Option UpstreamProviderEntry) :
    EngineM UpstreamProviderEntry :=
  match routed with
  | none => pickedProvider s offer
  | some entry => if (upstreamParams s.syntaxes [entry]).isSome then return entry else fault

/-- Start an upstream provider: the one the pending answer picked from `offer`, or the routed one. -/
def pickUpstream (offer : StepOffer) (routed : Option UpstreamProviderEntry) : EngineM α := do
  let entry ← chosenProvider s offer routed
  if !s.context.startUpstream then fault
  match ← fromStore (ask (.startUpstream entry)) with
  | .unavailable =>
    audit .refused .upstream (some .providerUnavailable)
    if offer.all.any (·.step = .upstream) then
      let refused ← refusedOffer offer .upstream
      offerStep refused (some .providerUnavailable) none
    else offerStep offer none none
  | .started redirectTo =>
    writeTransaction fun T ↦
      { T with upstream := some { provider := entry.provider, address := none } }
    let T ← transaction
    respond (.upstream T offer (T.personal offer.current.step) entry.provider redirectTo)

def refuseProof (reason : SignInAuditReason) : EngineM α := do
  audit .refused .upstream (some reason)
  respond (.invalidAnswer (← transaction))

def SignInTransaction.provedUpstream (T : SignInTransaction) (g : Syntax) (proof : UpstreamProof)
    (params : StepParams) (now : ℤ) : SignInTransaction :=
  { T with
    subject := some proof.account.userId
    verified := T.verified ++ [{ step := .upstream, params }]
    authTime := some now
    upstream := some { provider := proof.provider.provider
                       address := proof.address.bind g.readIdentifier } }

/-- Take an upstream provider's proof, and go on once the step is proved. -/
def proveUpstream (proof : UpstreamProof) : EngineM Unit := do
  let T ← transaction
  if T.subject.isSome || T.identifier.isSome ||
      !(T.upstream.any fun held ↦ held.address.isNone && held.provider = proof.provider.provider) then
    refuseProof .invalidAnswer
  match upstreamParams s.syntaxes [proof.provider] with
  | none => fault
  | some params =>
    if !proof.account.enabled then refuseProof .accountDisabled
    if !proof.account.verified && s.deps.refusesUnverified then refuseProof .emailNotVerified
    let now ← ask .now
    writeTransaction fun T ↦ T.provedUpstream s.syntaxes proof params now
    audit .passed .upstream none

/-! ### What a transaction proved -/

namespace SignInTransaction

def provedMailbox (T : SignInTransaction) : Bool := T.hasVerified .emailCode

def provedBeyondPassword (T : SignInTransaction) (deps : Deployment) : Bool :=
  T.verified.any fun step ↦ (deps.factorOf step.step).any (· ≠ .password)

def tookRecoveryCode (T : SignInTransaction) : Bool := T.hasVerified .recoveryCode

/-- Whether a recovery code found the account before any first factor. -/
def codeAlone (T : SignInTransaction) (deps : Deployment) : Bool :=
  T.tookRecoveryCode &&
    !T.verified.any fun step ↦ step.step = .upstream || (deps.factorOf step.step).isSome

def provedPassword (T : SignInTransaction) (deps : Deployment) : Bool :=
  T.verified.any fun step ↦ deps.factorOf step.step = some .password

def enrolledPasskey (T : SignInTransaction) : Bool := T.passkeyEnrolment = some .bound

/-- Whether this transaction met the factor beyond the password. -/
def metBeyondPassword (T : SignInTransaction) (deps : Deployment) : Bool :=
  T.provedBeyondPassword deps || T.tookRecoveryCode

end SignInTransaction

/-! ### Recovery codes -/

/-- The codes of a set. -/
def RECOVERY_CODE_COUNT : ℕ := 10

/-- A group of four characters of a recovery code's alphabet. -/
def isRecoveryGroup (chars : List Char) : Bool :=
  chars.length = 4 && chars.all fun c ↦ ('a' ≤ c && c ≤ 'z') || ('2' ≤ c && c ≤ '7')

/-- A recovery code in its shown form: four groups between dashes. -/
def isShownRecoveryCode (code : String) : Bool :=
  let groups := code.toList.splitOn '-'
  groups.length = 4 && groups.all isRecoveryGroup

/-- What the account holds of recovery codes, checked. -/
def recoveryStatus (subject : String) : EngineM RecoveryCodeStatus := do
  let status ← fromStore (ask (.recoveryStatus subject))
  if status.unused < 0 || RECOVERY_CODE_COUNT < status.unused ||
      (!status.issued && (status.unused ≠ 0 || status.confirmed)) then unavailable
  else return status

/-- The recovery code an offer adds after the factor's own steps. -/
def recoveryAlternative (subject : String) : EngineM (List Offerable) := do
  let T ← transaction
  if s.deps.recoveryCodes.isNone || !s.served .recoveryCode || T.tookRecoveryCode then return []
  else
    let status ← recoveryStatus subject
    return if 0 < status.unused then [.recoveryCode] else []

/-- Verify the pending `recovery_code` answer of `offer`, and go on once the code is taken. -/
def redeemPending (offer : StepOffer) (subject : String) : EngineM Unit := do
  if s.deps.recoveryCodes.isNone then fault
  let read ← takePending s offer .recoveryCode
  match read.answer with
  | .recoveryCode typed =>
    let reserved ← reserveCredentialRound s .recoveryCode
    match ← fromStore (ask (.reserveLadder (.user subject) .recoveryCode none)) with
    | .wait seconds =>
      settleRound reserved .withdrawn none
      audit .refused .recoveryCode (some .lockedOut)
      throttled seconds
    | .reserved =>
      -- A store error from here leaves the attempt counted.
      spendChallenge
      if ← fromStore (ask (.redeemRecoveryCode subject typed)) then
        let _ ← ask (.settleLadder .success true)
        settleRound reserved .success (some subject)
        writeTransaction fun T ↦ T.verify { step := .recoveryCode, params := read.params }
        audit .passed .recoveryCode none
      else
        let ceilingReached ← ask (.settleLadder .failure true)
        settleRound reserved .failure none
        if ceilingReached then ask (.recoveryCeilingReached subject)
        refuseAnswer s offer .recoveryCode .invalidCredentials .invalidCredentials
  | _ => fault

def verifyAfterFirstFactor (offer : StepOffer) (subject : String) : EngineM Unit := do
  if (← pendingName) = some .recoveryCode then redeemPending s offer subject
  else verifyPending s offer

def alone (step : StepName) (params : StepParams) : StepOffer :=
  stepOffer { step, params } [] none

/-- The `recovery_codes` step. -/
def recoveryCodesOffer : StepOffer := alone .recoveryCodes (.recoveryCodes RECOVERY_CODE_COUNT)

/-- A new set of recovery codes, checked; `none` when the account holds a confirmed one by now. -/
def issueRecoveryCodes (subject : String) : EngineM (Option RecoveryCodeSet) := do
  match ← fromStore (ask (.issueRecoveryCodes subject)) with
  | none => return none
  | some issued =>
    if 1 ≤ issued.setId.length && issued.setId.length ≤ 128 &&
        issued.codes.length = RECOVERY_CODE_COUNT && decide issued.codes.Nodup &&
        issued.codes.all isShownRecoveryCode then return some issued
    else unavailable

/-- Show a new set, in place of any shown before; go on when the account holds a confirmed one. -/
def showNewCodes (subject : String) : EngineM Unit := do
  match ← issueRecoveryCodes subject with
  | none => writeTransaction fun T ↦ { T with recoveryCodesShown := none }
  | some issued =>
    writeTransaction fun T ↦ { T with recoveryCodesShown := some issued.setId }
    offerStep recoveryCodesOffer none (some (.recoveryCodes issued.codes))

/-- Whether a new set of recovery codes is owed, as far as the transaction and the account say. -/
def SignInTransaction.owesCodes (T : SignInTransaction) (deps : Deployment)
    (current : SignInAccount) (owed : Bool) : Bool :=
  owed || !(T.tookRecoveryCode ||
    (!T.enrolledPasskey && (!boundBeyondPassword current || !T.provedBeyondPassword deps)))

def confirmRecoveryCodes (subject : String) (waiting : Option String) : EngineM Unit := do
  if !s.served .recoveryCodes then redirect .stepNotAvailable
  match waiting, ← pendingName with
  | some shown, some .recoveryCodes =>
    let read ← takePending s recoveryCodesOffer .recoveryCodes
    if ← fromStore (ask (.confirmRecoveryCodes subject shown)) then
      writeTransaction fun T ↦ ({ T with recoveryCodesShown := none } : SignInTransaction).verify
        { step := .recoveryCodes, params := read.params }
      audit .passed .recoveryCodes none
    else
      -- Another sign-in or a regeneration replaced the set shown.
      showNewCodes subject
  | _, _ => showNewCodes subject

/-- A new set of recovery codes, shown once before the sign-in completes; go on once none is
owed. -/
def showRecoveryCodes (current : SignInAccount) (subject : String) (owed : Bool) :
    EngineM Unit := do
  let T ← transaction
  match T.recoveryCodesShown with
  | some shown => confirmRecoveryCodes s subject (some shown)
  | none =>
    if T.owesCodes s.deps current owed then
      let status ← recoveryStatus subject
      if !(status.issued && status.confirmed) then confirmRecoveryCodes s subject none

/-! ### Email codes -/

/-- The `email_code` step for `held`: the step alone, required. -/
def codeOffer (held : HeldEmailCode) (now : ℤ) : StepOffer :=
  alone .emailCode (.emailCode (emailCodeParams held now))

/-- What the rounds of one emailed code are for. -/
structure CodeSpec where
  purpose : EmailCodePurpose
  length : ℕ
  address : String
  /-- The code follows a correct first factor of this transaction. -/
  afterFirstFactor : Bool
  /-- The account a right code settles the limiters' round for, when one is proved. -/
  userId : Option String
  /-- Before the first code. -/
  beforeFirst : EngineM Unit
  /-- What each code's mail says about the address: a registration's. -/
  registration : EngineM (Option RegistrationMail)
  /-- Whether each code may be mailed: a reset's. -/
  reset : EngineM (Option ResetMail)
  /-- Why a right code may not be taken, and it is then answered exactly as a wrong one; else the
  account it fixes, if it fixes one. -/
  refuses : EngineM (Except SignInAuditReason (Option SignInCandidate))

/-- The HMAC of a code, checked. -/
def digestCode (use : CodeUse) (salt code : String) : EngineM String := do
  let digest ← fromStore (ask (.emailCodeDigest use salt code))
  if isHmac digest then return digest else unavailable

/-- Mail a new code, with `previous`'s count of wrong answers kept. -/
def issueCode (spec : CodeSpec) (previous : Option HeldEmailCode) : EngineM Unit := do
  let registration ← spec.registration
  let reset ← spec.reset
  let issuedAt ← ask .now
  let code ← ask (.generateEmailCode spec.length)
  let salt ← ask .generateEmailCodeSalt
  let hmac ← digestCode .issue salt.val code.val
  match ← fromStore (ask (.sendCode
    { address := spec.address, purpose := spec.purpose, code := code.val,
      expiresInSeconds := EMAIL_CODE_TTL_MS / 1000, afterFirstFactor := spec.afterFirstFactor,
      registration, reset })) with
  | .capped seconds =>
    audit .refused .emailCode (some .sendCapped)
    throttled (max 1 seconds)
  | .accepted =>
    let held := heldEmailCode spec.purpose spec.length salt.val hmac issuedAt previous
    writeTransaction fun T ↦ { T with emailCode := some held }

def issueAndOffer (spec : CodeSpec) (previous : Option HeldEmailCode) : EngineM α := do
  issueCode spec previous
  match (← transaction).emailCode with
  | none => fault
  | some issued =>
    let now ← ask .now
    offerStep (codeOffer issued now) none none

/-- Reserve the attempt of a code on the limiters, then on the email-code ladder. -/
def reserveCode : EngineM Bool := do
  let reserved ← reserveCredentialRound s .emailCode
  let hmac ← identifierHmac
  match ← fromStore (ask (.reserveLadder (.identifier hmac) .emailCode none)) with
  | .wait seconds =>
    settleRound reserved .withdrawn none
    audit .refused .emailCode (some .lockedOut)
    throttled seconds
  | .reserved => return reserved

/-- What comparing an answered code found. -/
inductive CodeVerdict
  | accepted (candidate : Option SignInCandidate)
  | wrong (held : HeldEmailCode) (reason : SignInAuditReason)
  | burned

/-- A wrong code's verdict; the one clock reading was checked before. -/
def EmailCodeAnswer.refused (reason : SignInAuditReason) : EmailCodeAnswer → Option CodeVerdict
  | .wrong held => some (.wrong held reason)
  | .burned => some .burned
  | .accepted | .expired => none

/-- Compare an answered code with the one held; a right one that may not be taken is a wrong one. -/
def compareCode (spec : CodeSpec) (held : HeldEmailCode) (otp : String) (time : ℤ) :
    EngineM CodeVerdict := do
  let presented ← digestCode (.compare held) held.salt otp
  match answerEmailCode held presented time with
  | .accepted =>
    match ← spec.refuses with
    | .ok candidate => return .accepted candidate
    | .error reason =>
      match (countWrongEmailCode held).refused reason with
      | some verdict => return verdict
      | none => fault
  | answered =>
    match answered.refused .invalidCode with
    | some verdict => return verdict
    | none => fault

/-- Settle a wrong code's attempt. -/
def settleWrongCode (reserved : Bool) : EngineM Unit := do
  let _ ← ask (.settleLadder .failure true)
  settleRound reserved .failure none

/-- Compare an answered code, and go on once it is right: the code is still held then. -/
def answerCode (spec : CodeSpec) (held : HeldEmailCode) (otp : String) (time : ℤ) :
    EngineM (Option SignInCandidate) := do
  let reserved ← reserveCode s
  spendChallenge
  match ← compareCode spec held otp time with
  | .wrong counted reason =>
    settleWrongCode reserved
    writeTransaction fun T ↦ { T with emailCode := some counted }
    audit .refused .emailCode (some reason)
    offerStep (codeOffer counted time) (some .invalidCredentials) none
  | .burned =>
    settleWrongCode reserved
    writeTransaction fun T ↦ { T with emailCode := none }
    ended .emailCode .codeBurned
  | .accepted candidate =>
    let _ ← ask (.settleLadder .success true)
    settleRound reserved .success spec.userId
    return candidate

/-- The rounds of one emailed code: once it is answered right, its params and the account it
fixes. -/
def codeRound (spec : CodeSpec) : EngineM (StepParams × Option SignInCandidate) := do
  if !s.context.sendCode then fault
  match (← transaction).emailCode with
  | none =>
    spec.beforeFirst
    issueAndOffer spec none
  | some held =>
    let time ← ask .now
    let offer := codeOffer held time
    if (← pendingName) ≠ some .emailCode then
      offerStep offer (if emailCodeExpired held time then some .codeExpired else none) none
    let read ← takePending s offer .emailCode
    match read.answer with
    | .emailCode none =>
      -- A new code once one is due; before, the same step, nothing mailed.
      if emailCodeResendDue held time then issueAndOffer spec (some held)
      else offerStep offer none none
    | .emailCode (some otp) =>
      if emailCodeExpired held time then
        audit .refused .emailCode (some .codeExpired)
        offerStep offer (some .codeExpired) none
      let candidate ← answerCode s spec held otp time
      return (read.params, candidate)
    | _ => fault

/-- Record the code that was answered right, the code consumed. -/
def codeTaken (params : StepParams) : EngineM Unit := do
  writeTransaction fun T ↦ ({ T with emailCode := none } : SignInTransaction).verify
    { step := .emailCode, params }
  audit .passed .emailCode none

def CodeSpec.forSignIn (purpose : EmailCodePurpose) (address subject : String) : CodeSpec where
  purpose := purpose
  length := emailCodeLength purpose true
  address := address
  afterFirstFactor := true
  userId := some subject
  beforeFirst := return ()
  registration := return none
  reset := return none
  refuses := return .ok none

/-- Verify inline the address the transaction names, after a factor proved its account. -/
def verifyAddress (subject : String) (purpose : EmailCodePurpose) : EngineM Unit := do
  let T ← transaction
  let upstream := if T.identifier.isNone then T.upstream.map (·.provider) else none
  match T.named with
  | none => redirect .stepNotAvailable
  | some address =>
    if !s.served .emailCode then redirect .stepNotAvailable
    let (params, _) ← codeRound s (.forSignIn purpose address subject)
    match ← fromStore (ask (.markVerified subject address upstream)) with
    | .refused reason =>
      writeTransaction fun T ↦ { T with emailCode := none }
      ended .emailCode reason.reason
    | .written => codeTaken params

/-! ### New passwords -/

/-- The shortest password a policy may accept. -/
def PASSWORD_MIN_LENGTH_FLOOR : ℕ := 8

/-- The longest password. -/
def PASSWORD_MAX_LENGTH : ℕ := 256

/-- The `new_password` step, with the reasons a refused answer was refused for. -/
def newPasswordOffer (purpose : NewPasswordPurpose) (minLength : ℕ)
    (reasons : Option (List PasswordRejectionReason)) : StepOffer :=
  alone .newPassword (.newPassword
    { purpose, minLength, maxLength := PASSWORD_MAX_LENGTH, reasons })

def refusePassword (purpose : NewPasswordPurpose) (minLength : ℕ)
    (reasons : List PasswordRejectionReason) (reason : SignInAuditReason) : EngineM α := do
  audit .refused .newPassword (some reason)
  offerStep (newPasswordOffer purpose minLength (some reasons)) (some .passwordRejected) none

/-- The realm's minimum length, checked. -/
def readMinLength : EngineM ℕ := do
  let minLength ← fromStore (ask .minLength)
  if PASSWORD_MIN_LENGTH_FLOOR ≤ minLength && minLength ≤ PASSWORD_MAX_LENGTH then return minLength
  else unavailable

/-- A new password that the realm's policy takes. -/
def checkNewPassword (identifier : String) (purpose : NewPasswordPurpose) (minLength : ℕ)
    (chosen : String) : EngineM String := do
  match ← fromStore (ask (.checkPassword identifier chosen)) with
  | .accepted password => return password
  | .rejected reasons =>
    if reasons.isEmpty || !decide reasons.Nodup then unavailable
    else refusePassword purpose minLength reasons .passwordRejected

/-- The `new_password` step; go on with what the write answered once the password is set. -/
def askNewPassword (identifier : String) (purpose : NewPasswordPurpose)
    (write : String → EngineM α) : EngineM α := do
  let minLength ← readMinLength
  let offer := newPasswordOffer purpose minLength none
  if (← pendingName) ≠ some .newPassword then offerStep offer none none
  let read ← takePending s offer .newPassword
  match read.answer with
  | .newPassword chosen =>
    let password ← checkNewPassword identifier purpose minLength chosen
    let breach ← ask (.breachCheck password)
    if breach = .listed then refusePassword purpose minLength [.blocklisted] .passwordBreached
    let written ← write password
    writeTransaction fun T ↦ T.verify { step := .newPassword, params := read.params }
    audit .passed .newPassword none
    recordBreach .newPassword breach
    return written
  | _ => fault

end QAuth.Engine
