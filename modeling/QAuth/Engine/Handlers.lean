import QAuth.Engine.Ports

/-!
# Factors and step handlers

The downgrade rule and the MFA policy (`factors.ts`), the calls that every part of the engine makes
(the clock, the audit record, the identifier's HMAC), and how the handlers of the password, the
passkey and the TOTP verify an answer (`steps/`). An engine has the handlers of the ports it was
built with.
-/

namespace QAuth.Engine

open SignIn (FactorType LadderCounter LadderSubject)

/-! ### Factors -/

/-- How strong a sign-in through an upstream identity provider is. -/
def UPSTREAM_STRENGTH : ℕ := 1

/-- The strength of one factor type: 0 for a factor the downgrade rule does not rank. -/
def factorStrength : Option FactorType → ℕ
  | some .password => 1
  | some .passkey => 2
  | some .totp | none => 0

/-- The strength of the account's strongest bound first factor; a disabled one counts. -/
def strongestBoundFactor (account : SignInAccount) : ℕ :=
  account.factors.foldl (fun strongest factor ↦ max strongest (factorStrength (some factor.type))) 0

/-- Whether a mode asks this account for a second factor. -/
def requires (mode : MfaMode) (account : SignInAccount) : Bool :=
  mode = .required || (mode = .requiredForAdmins && account.admin)

/-- Whether the realm's or the client's policy requires a second factor of this account. -/
def secondFactorRequired (policy : MfaPolicy) (account : SignInAccount) : Bool :=
  requires policy.realm account || requires policy.client account

/-- Whether the transaction's `amr` carries `mfa`. -/
def provesMfa (verified : List OfferedStep) : Bool :=
  (transactionAmr verified).any (·.contains .mfa)

/-- Whether the account holds a passkey it can use. -/
def holdsUsablePasskey (account : SignInAccount) : Bool :=
  account.factors.any fun factor ↦ factor.type = .passkey && !factor.disabled

/-- Whether the account holds a TOTP it can use. -/
def holdsUsableTotp (account : SignInAccount) : Bool :=
  account.factors.any fun factor ↦ factor.type = .totp && !factor.disabled

/-- Whether the account holds a TOTP, a disabled one included. -/
def holdsTotp (account : SignInAccount) : Bool :=
  account.factors.any (·.type = .totp)

def boundBeyondPassword (account : SignInAccount) : Bool :=
  account.factors.any (·.type ≠ .password)

namespace Deployment

/-- The factor that a step's handler proves. -/
def factorOf (deps : Deployment) : StepName → Option FactorType
  | .password => some .password
  | .webauthnGet => if deps.passkeys then some .passkey else none
  | .totp => if deps.totp then some .totp else none
  | _ => none

/-- The strength of the strongest first factor that the verified steps proved. -/
def provenFactorStrength (deps : Deployment) (verified : List OfferedStep) : ℕ :=
  verified.foldl (fun strongest step ↦ max strongest
    (if step.step = .upstream then UPSTREAM_STRENGTH else factorStrength (deps.factorOf step.step)))
    0

/-- The discoverable first factors. -/
def discoverable (deps : Deployment) : List StepName :=
  if deps.passkeys then [.webauthnGet] else []

/-- The first factors, the discoverable ones last. -/
def firstFactors (deps : Deployment) : List StepName := .password :: deps.discoverable

def secondFactors (deps : Deployment) : List StepName := if deps.totp then [.totp] else []

/-- Whether the engine answers `step` itself. -/
def knows (deps : Deployment) : StepName → Bool
  | .identifier | .password => true
  | .webauthnGet | .webauthnCreate => deps.passkeys
  | .totp | .totpSetup => deps.totp
  | .captcha => deps.challenge
  | .emailCode => deps.emailCodes
  | .newPassword => deps.passwordUpdates
  | .upstream => deps.upstream
  | .passwordReset => deps.resets
  | .recoveryCode | .recoveryCodes => deps.recoveryCodes.isSome
  | _ => false

/-- The ladder counters of an account, of the ports an engine was built with. -/
def accountLadderCounters (deps : Deployment) : List LadderCounter :=
  (if deps.recoveryCodes.isSome then [.recoveryCode] else []) ++
    if deps.totp then [.factor .totp] else []

/-- Whether an account that is not verified is refused like a wrong password. -/
def refusesUnverified (deps : Deployment) : Bool :=
  deps.requireVerifiedAccount && !deps.emailCodes

end Deployment

/-- Whether `account` can answer a factor's step now. -/
def usableBy (account : SignInAccount) : StepName → Bool
  | .password => account.factors.any fun factor ↦ factor.type = .password && !factor.disabled
  | .webauthnGet => holdsUsablePasskey account
  | .totp => holdsUsableTotp account
  | _ => false

/-! ### Calls -/

def ask (c : Call) : EngineM (Answer c) := Effect.call (P := ports) c

variable {α : Type}

/-- Stop with the round's result. -/
def respond (result : RoundResult) : EngineM α := Effect.exit (.answered result)

/-- A store the round needs is down. -/
def unavailable : EngineM α := Effect.exit .unavailable

/-- An error that rejects the round. -/
def fault : EngineM α := Effect.exit .fault

/-- The answer of a store, which may have failed. -/
def fromStore (x : EngineM (Option α)) : EngineM α := do
  match ← x with
  | some a => return a
  | none => unavailable

/-- The transaction as it stands. -/
def transaction : EngineM SignInTransaction := do return (← Effect.read).transaction

def writeTransaction (f : SignInTransaction → SignInTransaction) : EngineM Unit :=
  Effect.update fun state ↦ { state with transaction := f state.transaction }

def pendingName : EngineM (Option StepName) := do
  return (← Effect.read).pending.map (·.name)

/-- The answer is taken. -/
def dropPending : EngineM Unit := Effect.update fun state ↦ { state with pending := none }

/-- Run `x`; when it throws, put the transaction back and throw again. -/
def restoring (before : SignInTransaction) (x : EngineM α) : EngineM α := do
  match ← Effect.attempt Exit.thrown x with
  | .ok a => return a
  | .error e =>
    writeTransaction fun _ ↦ before
    Effect.exit e

/-- The identifier or, for an account an upstream provider proved, the address it gave. -/
def SignInTransaction.named (T : SignInTransaction) : Option String :=
  T.identifier <|> T.upstream.bind (·.address)

/-- The keyed HMAC of `identifier`, checked. -/
def digestOf (identifier : String) : EngineM String := do
  let digest ← fromStore (ask (.identifierDigest identifier))
  if isHmac digest then return digest else unavailable

/-- The HMAC of the address the transaction names, computed at most once a round. -/
def identifierHmac : EngineM String := do
  let state ← Effect.read
  match state.transaction.named, state.hmac with
  | none, _ => fault
  | some _, some hmac => return hmac
  | some identifier, none =>
    let hmac ← digestOf identifier
    Effect.update fun state ↦ { state with hmac := some hmac }
    return hmac

/-- Write one record; a write that fails fails the round. -/
def writeRecord (record : SignInAuditRecord) : EngineM Unit := do
  let kept ← ask (.audit record)
  if kept then return () else fault

def audit (outcome : AuditOutcome) (step : StepName) (reason : Option SignInAuditReason) :
    EngineM Unit := do
  let T ← transaction
  match T.subject, T.identifier with
  | some subject, _ => writeRecord { outcome, step, reason, failure := none, person := .user subject }
  | none, some _ =>
    let hmac ← identifierHmac
    writeRecord { outcome, step, reason, failure := none, person := .identifier hmac }
  | none, none => writeRecord { outcome, step, reason, failure := none, person := .nobody }

/-- Record that `step`'s answer was accepted without its breach-list check. -/
def unchecked (step : StepName) (failure : BreachCheckFailure) : EngineM Unit := do
  match (← transaction).subject with
  | none => fault
  | some subject =>
    writeRecord { outcome := .unchecked, step, reason := some .breachCheckFailed,
                  failure := some failure, person := .user subject }

/-- Record a breach-list check that could not be made. -/
def recordBreach (step : StepName) : BreachCheckVerdict → EngineM Unit
  | .failed failure => unchecked step failure
  | _ => return ()

/-! ### Handlers -/

/-- What a handler made of an answer. -/
inductive Verdict
  | proved (account : ProvedAccount) (breachCheck : BreachCheckVerdict)
  | refused (reason : SignInAuditReason)
  | throttled (retryAfterSeconds : ℤ)

variable (s : RoundSetting)

def verifyPasswordStep (presented : String) : EngineM Verdict := do
  match (← transaction).identifier with
  | none => fault
  | some identifier =>
    let hmac ← identifierHmac
    match ← fromStore (ask (.reserveLadder (.identifier hmac) (.factor .password)
      s.context.endUserIp)) with
    | .wait seconds => return .throttled seconds
    | .reserved =>
      let candidate ← fromStore (ask (.findByIdentifier identifier))
      let password := candidate.bind (·.password)
      let hash := password.bind fun held ↦ if held.disabled then none else held.hash
      let asHashed :=
        if hash.isSome && password.any (·.nfc) then s.syntaxes.nfc presented else presented
      -- One verification, whatever the account.
      let valid ←
        match hash with
        | none => do
          let _ ← fromStore (ask (.verifyDecoy presented))
          pure false
        | some hash => fromStore (ask (.verifyPassword hash asHashed))
      let refuse (reason : SignInAuditReason) : EngineM Verdict := do
        let ceilingReached ← ask (.settleLadder .failure true)
        match candidate with
        | some candidate =>
          if ceilingReached && candidate.enabled && hash.isSome then
            ask (.passwordCeilingReached candidate.userId identifier)
        | none => pure ()
        return .refused reason
      match candidate with
      | none => refuse .invalidCredentials
      | some account =>
        if !valid then refuse .invalidCredentials
        else if !account.enabled then refuse .accountDisabled
        else if !account.verified && s.deps.refusesUnverified then refuse .emailNotVerified
        else
          let _ ← ask (.settleLadder .success account.verified)
          if password.any (·.ignoredMark) && account.verified then
            ask (.clearIgnoredMark account.userId identifier)
          let breachCheck ← ask (.breachCheck asHashed)
          return .proved { userId := account.userId, enabled := account.enabled,
                           verified := account.verified, identifier := none } breachCheck

/-- The passkey step, under the ceremony the transaction held for it. -/
def verifyPasskeyStep (ceremonyKey : Option String) (response : String) : EngineM Verdict := do
  match ceremonyKey with
  | none => return .refused .invalidCredentials
  | some key =>
    match ← fromStore (ask (.verifyAssertion key response)) with
    | .refused => return .refused .invalidCredentials
    | .verified userId userVerified =>
      if userId = "" then unavailable
      else if !userVerified then return .refused .invalidCredentials
      else
        match ← fromStore (ask (.findByUserId userId)) with
        | none => return .refused .invalidCredentials
        | some account =>
          if account.userId ≠ userId then return .refused .invalidCredentials
          else
            return .proved { userId := account.userId, enabled := account.enabled,
                             verified := account.verified, identifier := account.identifier } .off

/-- The TOTP step, on the account's counter. -/
def verifyTotpStep (otp : String) : EngineM Verdict := do
  let T ← transaction
  match T.subject with
  | none => fault
  | some userId =>
    match ← fromStore (ask (.reserveLadder (.user userId) (.factor .totp) none)) with
    | .wait seconds => return .throttled seconds
    | .reserved =>
      if ← fromStore (ask (.verifyTotp userId otp)) then
        let _ ← ask (.settleLadder .success true)
        match ← fromStore (ask (.findByUserId userId)) with
        | none => return .refused .invalidCredentials
        | some account =>
          if account.userId ≠ userId then return .refused .invalidCredentials
          else
            return .proved { userId := account.userId, enabled := account.enabled,
                             verified := account.verified, identifier := none } .off
      else
        let ceilingReached ← ask (.settleLadder .failure true)
        if T.hasVerified .password then ask (.failedAfterPassword userId)
        if ceilingReached then ask (.totpCeilingReached userId)
        return .refused .invalidCredentials

/-- How the handler of a factor's step verifies an answer. -/
def verifyHandler (ceremonyKey : Option String) : StepAnswer → EngineM Verdict
  | .password password _ => verifyPasswordStep s password
  | .webauthnGet response => verifyPasskeyStep ceremonyKey response
  | .totp otp => verifyTotpStep otp
  | _ => fault

end QAuth.Engine
