import QAuth.Engine.Handlers

/-!
# Offers and first answers

How the engine ends a round, reserves a credential round on the limiters, offers steps and holds
their WebAuthn ceremonies, reads the pending answer against an offer, and verifies it (`audit` to
`verifyPending` of `engine.ts`). A function of the source that answers the round's result or `null`
is a procedure that stops with that result or goes on.
-/

namespace QAuth.Engine

variable {α : Type}

/-! ### Ends of a round -/

/-- The transaction ends. -/
def ended (step : StepName) (reason : SignInAuditReason) : EngineM α := do
  audit .ended step (some reason)
  respond .ended

/-- The round is refused for a while. -/
def throttled (retryAfterSeconds : ℤ) : EngineM α := do
  respond (.throttled retryAfterSeconds (← transaction))

/-- Refuse a malformed answer to `step`: nothing was verified or counted. -/
def invalidAnswer (step : StepName) : EngineM α := do
  audit .refused step (some .invalidAnswer)
  respond (.invalidAnswer (← transaction))

/-- Continue elsewhere. -/
def redirect (reason : RedirectReason) : EngineM α := respond (.redirect reason)

/-- Refuse the round with a code of its own. -/
def requestRefused (code : String) : EngineM α := do
  respond (.requestRefused code (← transaction))

/-- Whether the transport serves a step. -/
def RoundSetting.served (s : RoundSetting) (step : StepName) : Bool :=
  s.context.serves.all (·.contains step)

/-- The step a refusal of the whole round names. -/
def RoundSetting.roundStep (s : RoundSetting) : StepName :=
  (s.answered.filter s.deps.knows).getD .identifier

def spendChallenge : EngineM Unit := writeTransaction fun T ↦ { T with captchaPassed := false }

variable (s : RoundSetting)

/-! ### The limiters -/

/-- Settle a credential round's reservation, if one was made. -/
def settleRound (reserved : Bool) (outcome : SettleOutcome) (userId : Option String) :
    EngineM Unit :=
  if reserved then ask (.settleLimits outcome userId) else return ()

/-- Reserve a credential round of `step` on the limiters, before its credential is verified. -/
def reserveCredentialRound (step : StepName) : EngineM Bool := do
  match s.deps.limits with
  | none => return false
  | some _ =>
    let T ← transaction
    let hmac ← if T.named.isSome then some <$> identifierHmac else pure none
    match ← fromStore (ask (.reserveLimits hmac s.context.endUserIp)) with
    | .throttled seconds =>
      audit .refused step (some .rateLimited)
      throttled (max 1 seconds)
    | .reserved => return true

/-! ### Offers -/

/-- How long a held WebAuthn ceremony is offered again, in milliseconds. -/
def CEREMONY_REUSE_MS : ℤ := 4 * 60 * 1000

/-- Something the engine can offer. -/
inductive Offerable
  /-- A handler's step. -/
  | handler (step : StepName)
  | recoveryCode
  | passwordReset
  | upstream (providers : List UpstreamProviderEntry)
  /-- A registration ceremony, for the account a registration creates where it names no user. -/
  | creation (userId identifier : Option String) (optional : Bool)

/-- The step's name. -/
def Offerable.step : Offerable → StepName
  | .handler step => step
  | .recoveryCode => .recoveryCode
  | .passwordReset => .passwordReset
  | .upstream _ => .upstream
  | .creation .. => .webauthnCreate

/-- Start a ceremony under `key`; what the port answers is checked against the step grammar. -/
def startCeremony (offerable : Offerable) (key : String) :
    EngineM (StepParams × Option CreationPersonal) := do
  match offerable with
  | .creation userId identifier optional =>
    let started ← fromStore (ask (.startRegistration key userId identifier))
    -- The identifier is the transaction's, never the port's.
    let personal := { started.personal with identifier }
    if s.syntaxes.creationOptions started.options && s.syntaxes.personal personal then
      return (.webauthnCreate optional started.options, some personal)
    else unavailable
  | _ =>
    let options ← fromStore (ask (.startAssertion key))
    if s.syntaxes.requestOptions options then return (.webauthnGet options, none) else unavailable

/-- Start a new ceremony under a new key, in place of any other. -/
def newCeremony (offerable : Offerable) : EngineM StepParams := do
  let key ← ask .newCeremonyKey
  let (params, personal) ← startCeremony s offerable key.val
  let startedAt ← ask .now
  writeTransaction fun T ↦
    { T with ceremony := some { step := offerable.step, key := key.val, params, personal, startedAt } }
  return params

/-- The params of a ceremony's step: the ones held while it is young, or while the round answers
it; else those of a new ceremony. -/
def ceremonyParams (offerable : Offerable) : EngineM StepParams := do
  let state ← Effect.read
  match state.transaction.ceremony.filter (·.step = offerable.step) with
  | none => newCeremony s offerable
  | some held =>
    if state.pending.any (·.name = offerable.step) then return held.params
    else
      let now ← ask .now
      if now - held.startedAt < CEREMONY_REUSE_MS then return held.params
      else newCeremony s offerable

def offerParams : Offerable → EngineM StepParams
  | .handler .webauthnGet => ceremonyParams s (.handler .webauthnGet)
  | .handler .totp => return .totp 6
  | .handler _ | .recoveryCode | .passwordReset => return .empty
  | .upstream providers => return .upstream providers
  | .creation userId identifier optional => ceremonyParams s (.creation userId identifier optional)

/-- The steps with their params, one after the other: a ceremony's step writes the transaction. -/
def offerEach : List Offerable → EngineM (List OfferedStep)
  | [] => return []
  | offerable :: rest => do
    let params ← offerParams s offerable
    let others ← offerEach rest
    return { step := offerable.step, params } :: others

/-- An offer of these steps. -/
def stepOffer (current : OfferedStep) (alternatives : List OfferedStep) (required : Option Bool) :
    StepOffer where
  current := { toOfferedStep := current, error := none }
  alternatives := alternatives
  required := required

/-- The offer of `steps`, the first one current. -/
def offerOf (steps : List Offerable) (preferred : Bool) : EngineM StepOffer := do
  match ← offerEach s steps with
  | [] => fault
  | current :: alternatives =>
    return stepOffer current alternatives
      (if preferred && !alternatives.isEmpty then some false else none)

/-- The personal data of a step's screen. -/
def SignInTransaction.personal (T : SignInTransaction) : StepName → StepPersonal
  | .webauthnCreate =>
    .creation ((T.ceremony.filter (·.step = .webauthnCreate)).bind (·.personal))
  | .emailCode => .account T.named
  | .newPassword | .recoveryCode | .password | .webauthnGet | .totp => .account T.identifier
  | _ => .account none

/-- The offer with the error of a refused answer. -/
def StepOffer.withError (offer : StepOffer) (error : Option StepErrorCode) : StepOffer :=
  { offer with current := { offer.current with error := error <|> offer.current.error } }

/-- Answer the round with an offer. -/
def offerStep (offer : StepOffer) (error : Option StepErrorCode) (shown : Option StepPersonal) :
    EngineM α := do
  let T ← transaction
  respond (.step T (offer.withError error) (shown.getD (T.personal offer.current.step)))

/-! ### The pending answer -/

/-- Whether the round's answer is to one of `offer`'s steps. -/
def answers (offer : StepOffer) : EngineM Bool := do
  return (← Effect.read).pending.any fun pending ↦ offer.all.any (·.step = pending.name)

/-- Read the pending answer against `offer`; `none` when it is malformed. -/
def readPending (offer : StepOffer) : EngineM (Option ReadAnswer) := do
  match (← Effect.read).pending with
  | none => fault
  | some pending =>
    match s.syntaxes.readAnswer offer pending.name pending.answer.fields
      pending.answer.encoding with
    | .ok read => return some read
    | .error .answer => return none
    | .error .mapping => fault

/-- The answer is taken from `offer`. -/
def takeFrom (offer : StepOffer) : EngineM Unit :=
  Effect.update fun state ↦ { state with pending := none, answeredOffer := some offer }

/-- Take the pending answer to `step`, read against `offer`. -/
def takePending (offer : StepOffer) (step : StepName) : EngineM ReadAnswer := do
  match ← readPending s offer with
  | none => invalidAnswer step
  | some read =>
    takeFrom offer
    return read

/-- `offer` again with the refused step current; the others stay alternatives. -/
def refusedOffer (offer : StepOffer) (step : StepName) : EngineM StepOffer :=
  match offer.all.find? (·.step = step) with
  | none => fault
  | some refused =>
    let others := offer.all.filter (·.step ≠ step)
    let preferred := offer.required = some false && offer.current.step = step
    return stepOffer refused others (if preferred && !others.isEmpty then some false else none)

/-- An offered step with new params where it is a handler's ceremony that is no longer held. -/
def renewCeremony (offered : OfferedStep) : EngineM OfferedStep := do
  let T ← transaction
  if offered.step ≠ .webauthnGet || !s.deps.passkeys || T.ceremony.any (·.step = offered.step) then
    return offered
  else
    let params ← ceremonyParams s (.handler offered.step)
    return { offered with params }

/-- The alternatives of an offer, renewed one after the other. -/
def renewEach : List OfferedStep → EngineM (List OfferedStep)
  | [] => return []
  | offered :: rest => do
    let renewed ← renewCeremony s offered
    let others ← renewEach rest
    return renewed :: others

/-- `offer` with new params for each ceremony that a verified answer took. -/
def renewCeremonies (offer : StepOffer) : EngineM StepOffer := do
  let current ← renewCeremony s offer.current.toOfferedStep
  let alternatives ← renewEach s offer.alternatives
  return { offer with current := { offer.current with toOfferedStep := current }, alternatives }

/-- Refuse the answer to `step`: the offer again, with the error. -/
def refuseAnswer (offer : StepOffer) (step : StepName) (error : StepErrorCode)
    (reason : SignInAuditReason) : EngineM α := do
  audit .refused step (some reason)
  let refused ← refusedOffer offer step
  let renewed ← renewCeremonies s refused
  offerStep renewed (some error) none

/-! ### Proofs -/

/-- The transaction after a factor proved `account`. -/
def SignInTransaction.proved (T : SignInTransaction) (account : ProvedAccount) (step : OfferedStep)
    (now : ℤ) (breachCheck : BreachCheckVerdict) : SignInTransaction :=
  { T with
    subject := some account.userId
    identifier := T.identifier <|> account.identifier
    verified := T.verified ++ [step]
    authTime := some now
    breachedPassword := T.breachedPassword || breachCheck = .listed }

/-- The first proof of a transaction that holds an identifier must prove the account the identifier
names; the password step read that account itself. -/
def checkNamed (account : ProvedAccount) (step : StepName) : EngineM Unit := do
  let T ← transaction
  match T.subject, T.identifier with
  | none, some identifier =>
    if step ≠ .password then
      let named ← fromStore (ask (.findByIdentifier identifier))
      if named.all (·.userId ≠ account.userId) then ended step .subjectMismatch
  | _, _ => return ()

/-- A factor proved an account: one subject per transaction, and the step and the time are
recorded. -/
def prove (offer : StepOffer) (account : ProvedAccount) (read : ReadAnswer)
    (breachCheck : BreachCheckVerdict) : EngineM Unit := do
  let T ← transaction
  if T.subject.any (· ≠ account.userId) then ended read.step .subjectMismatch
  checkNamed account read.step
  if !account.enabled then
    refuseAnswer s offer read.step .invalidCredentials .accountDisabled
  if !account.verified && s.deps.refusesUnverified then
    refuseAnswer s offer read.step .invalidCredentials .emailNotVerified
  let now ← ask .now
  writeTransaction fun T ↦ T.proved account { step := read.step, params := read.params } now
    breachCheck
  audit .passed read.step none
  recordBreach read.step breachCheck

/-- The key of the ceremony the transaction holds for a handler's step, which it drops. -/
def takeCeremony (step : StepName) : EngineM (Option String) := do
  let T ← transaction
  match T.ceremony.filter fun held ↦ step = .webauthnGet && held.step = step with
  | none => return none
  | some held =>
    writeTransaction fun T ↦ { T with ceremony := none }
    return some held.key

/-- Verify the pending answer against `offer`, and go on when it proved a factor. -/
def verifyPending (offer : StepOffer) : EngineM Unit := do
  match ← pendingName with
  | none => fault
  | some name =>
    let read ← takePending s offer name
    let reserved ←
      if isCredentialAnswer read.answer then reserveCredentialRound s read.step else pure false
    let ceremonyKey ← takeCeremony read.step
    match ← verifyHandler s ceremonyKey read.answer with
    | .refused reason =>
      spendChallenge
      settleRound reserved .failure none
      refuseAnswer s offer read.step .invalidCredentials reason
    | .throttled seconds =>
      -- The account's ladder refused it inside a wait: never verified.
      settleRound reserved .withdrawn none
      audit .refused read.step (some .lockedOut)
      throttled seconds
    | .proved account breachCheck =>
      spendChallenge
      -- The engine's own checks may still refuse the proof: a failed round.
      match ← Effect.attempt (!·.thrown) (prove s offer account read breachCheck) with
      | .ok () => settleRound reserved .success (some account.userId)
      | .error e =>
        settleRound reserved .failure (some account.userId)
        Effect.exit e

end QAuth.Engine
