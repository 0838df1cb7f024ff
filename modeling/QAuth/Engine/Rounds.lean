import QAuth.Engine.Enrolment

/-!
# The rounds of a sign-in

The rules of a round in their order, rule 8's loop, and the round itself (`rules`, `round` and
`advance` of `engine.ts`). The wait for the timing floor is left out.
-/

namespace QAuth.Engine

open SignIn (FactorType LadderCounter LadderSubject)

variable {α : Type} (s : RoundSetting)

/-! ### Rules 3 and 4 -/

/-- Whether the transaction is of a registration. -/
def RoundSetting.registering (s : RoundSetting) : Bool := s.found.flow = some .register

/-- Whether the transaction is of a reset; one that this round turns into a reset is not, yet. -/
def RoundSetting.resetting (s : RoundSetting) : Bool := s.found.flow = some .reset

/-- What a hook sees of the round. -/
def RoundSetting.hookRound (s : RoundSetting) : HookRound where
  transaction := s.found
  answered := s.answered

/-- A transaction that proved an account before that account's last reset ends. -/
def epochRule : EngineM Unit := do
  let T ← transaction
  match s.deps.sessionEpochs, T.subject with
  | true, some userId =>
    match ← fromStore (ask (.notBefore userId)) with
    | none => return ()
    | some notBefore =>
      if notBefore < 0 then unavailable
      if T.createdAt ≤ notBefore then ended s.roundStep .resetSince
  | _, _ => return ()

/-- Rule 3: the limiters; whether a soft threshold holds. -/
def limitsRule : EngineM Bool := do
  match s.deps.limits with
  | none => return false
  | some _ =>
    match ← fromStore (ask (.limitsRound s.hookRound)) with
    | .throttled seconds =>
      audit .refused s.roundStep (some .rateLimited)
      throttled (max 1 seconds)
    | .go softThreshold => return softThreshold

/-- Rule 4: the transport's request checks. -/
def requestRule : EngineM Unit := do
  if s.deps.request then
    match ← fromStore (ask (.request s.hookRound)) with
    | .go => return ()
    | .refuse code =>
      audit .refused s.roundStep (some .requestRefused)
      requestRefused code
    | .redirect => redirect .request

/-- Rule 4, for a registration: the realm and the client must both allow it. -/
def registrationGate : EngineM Unit := do
  if s.registering then
    if s.deps.registrations.isNone || !s.deps.emailCodes || !s.deps.passwordUpdates ||
        !REGISTRATION_STEPS.all s.served then redirect .stepNotAvailable
    if !(← fromStore (ask .registrationAllowed)) then
      audit .refused s.roundStep (some .registrationClosed)
      requestRefused REGISTRATION_NOT_ALLOWED

/-- Rule 4, for a reset: the client must allow it, and the request asks for no fresh sign-in. -/
def resetGate : EngineM Unit := do
  if s.resetting then
    if !s.deps.resets || !s.deps.emailCodes || !s.deps.passwordUpdates ||
        !RESET_STEPS.all s.served then redirect .stepNotAvailable
    if s.context.freshSignIn then redirect .request
    if !(← resetAllowed) then
      audit .refused s.roundStep (some .resetClosed)
      requestRefused RESET_NOT_ALLOWED

/-- What comes before every answer: the policy, and whether a soft threshold of the limiters
holds. -/
def beforeChallenge : EngineM (MfaPolicy × Bool) := do
  epochRule s
  let policy ← fromStore (ask .policy)
  let soft ← limitsRule s
  requestRule s
  registrationGate s
  resetGate s
  return (policy, soft)

/-! ### Rule 5 -/

/-- The steps whose answer may carry the identifier; a reset's address comes with its start. -/
def RoundSetting.loginHintSteps (s : RoundSetting) : List StepName :=
  if s.resetting then [.passwordReset] else [.identifier, .password]

/-- The `login_hint` member of an answer. -/
def Pending.loginHint (pending : Pending) : Option FieldValue :=
  pending.answer.fields.bind (·.lookup "login_hint")

/-- The identifier that a member holds. -/
def Syntax.readHint (g : Syntax) : FieldValue → Option String
  | .text hint => g.readIdentifier hint
  | _ => none

/-- The identifier this round is for, before rule 6 fixes it. -/
def roundIdentifier : EngineM (Option String) := do
  let state ← Effect.read
  return state.transaction.named <|> s.context.loginHint.bind s.syntaxes.readIdentifier <|>
    ((state.pending.filter fun pending ↦ s.loginHintSteps.contains pending.name).bind
      (·.loginHint)).bind s.syntaxes.readHint

/-- The identifier's counters whose soft threshold asks for a bot challenge. -/
def CHALLENGE_LADDER_COUNTERS : List LadderCounter := [.factor .password, .emailCode]

/-- Whether the round's identifier is past its ladder's free failures. -/
def ladderSoft : EngineM Bool := do
  if !s.deps.softThreshold then return false
  else
    match ← roundIdentifier s with
    | none => return false
    | some identifier =>
      let digest ←
        if some identifier = (← transaction).identifier then identifierHmac
        else digestOf identifier
      fromStore (ask (.softThreshold (.identifier digest) CHALLENGE_LADDER_COUNTERS))

/-- Whether the account the transaction proved is past its counters' free failures. -/
def accountLadderSoft : EngineM Bool := do
  match s.deps.softThreshold, (← transaction).subject with
  | true, some userId =>
    if s.deps.accountLadderCounters.isEmpty then return false
    else fromStore (ask (.softThreshold (.user userId) s.deps.accountLadderCounters))
  | _, _ => return false

def registrationOwesChallenge : EngineM Bool := do
  if !s.registering || !s.deps.registrations.any (·.challengeRequired) ||
      (← transaction).hasVerified .captcha then return false
  else fromStore (ask .challengeRequired)

/-- Why a challenge is due. -/
inductive ChallengeDue
  | registration
  | threshold
deriving DecidableEq

/-- Whether a threshold or the deployment's own hook asks for a challenge. -/
def thresholdDue (limitsSoft : Bool) : EngineM Bool := do
  if limitsSoft then return true
  else if ← ladderSoft s then return true
  else if ← accountLadderSoft s then return true
  else if s.deps.botChallenge then fromStore (ask (.botChallenge s.hookRound))
  else return false

/-- Why a challenge is due this round, if one is. -/
def challengeDue (limitsSoft : Bool) : EngineM (Option ChallengeDue) := do
  if ← registrationOwesChallenge s then return some .registration
  -- A provider's callback carries no credential anyone could guess here.
  else if (← transaction).captchaPassed || s.proof.isSome then return none
  else if ← thresholdDue s limitsSoft then return some .threshold
  else return none

/-- The challenge's offer: the one the transaction holds, or a new one, kept. -/
def challengeOffer : EngineM StepOffer := do
  let T ← transaction
  match T.captcha with
  | some params => return alone .captcha params
  | none =>
    let params ← fromStore (ask (.challengeParams T.flow))
    if s.syntaxes.params .captcha params then
      writeTransaction fun T ↦ { T with captcha := some params }
      return alone .captcha params
    else unavailable

/-- A wrong answer to the challenge is a failed round of the limiters. -/
def countFailedChallenge : EngineM Unit := do
  if s.deps.limits.isSome then
    match ← fromStore (ask (.reserveLimits none s.context.endUserIp)) with
    | .throttled _ => return ()
    | .reserved => settleRound true .failure none

/-- The transaction after a challenge was passed: one record of it is enough. -/
def SignInTransaction.passedChallenge (T : SignInTransaction) (params : StepParams) :
    SignInTransaction :=
  { T with
    captchaPassed := true
    verified :=
      if T.hasVerified .captcha then T.verified else T.verified ++ [{ step := .captcha, params }] }

/-- The challenge's round: its offer, or the answer to it; go on once it is passed. -/
def challengeRound : EngineM Unit := do
  let offer ← challengeOffer s
  if (← pendingName) ≠ some .captcha then offerStep offer none none
  let read ← takePending s offer .captcha
  match read.answer with
  | .captcha token =>
    writeTransaction fun T ↦ { T with captcha := none }
    if ← fromStore (ask (.verifyChallenge read.params token)) then
      writeTransaction fun T ↦ T.passedChallenge read.params
      audit .passed .captcha none
    else
      countFailedChallenge s
      audit .refused .captcha (some .captchaFailed)
      let offer ← challengeOffer s
      offerStep offer (some .captchaFailed) none
  | _ => fault

/-- Rule 5: a due challenge comes before every other step. -/
def challengeRule (limitsSoft : Bool) : EngineM Unit := do
  match ← challengeDue s limitsSoft with
  | none => return ()
  | some due =>
    if s.served .captcha then
      -- No provider: a due challenge refuses the round, never passes it.
      if !s.deps.challenge then unavailable
      challengeRound s
    else if due = .registration then
      audit .refused s.roundStep (some .registrationClosed)
      requestRefused REGISTRATION_NOT_ALLOWED

/-! ### Rule 6 -/

/-- End on a mismatch; if the record cannot be written, the round keeps no identifier. -/
def mismatch (before : SignInTransaction) (step : StepName) : EngineM α :=
  restoring before (ended step .subjectMismatch)

/-- The transaction with its identifier: a registration's ceremony goes, as a registration with an
address holds none. -/
def SignInTransaction.withIdentifier (T : SignInTransaction) (identifier : String) : SignInTransaction :=
  { T with
    identifier := some identifier
    ceremony := if T.flow = some .register && T.holdsCreation then none else T.ceremony }

/-- One identifier that was brought: the first is fixed, a different one ends the transaction. -/
def bringIdentifier (before : SignInTransaction) (identifier : String) (step : StepName) :
    EngineM Unit := do
  let T ← transaction
  match T.identifier with
  | none =>
    -- A discoverable factor fixed the subject: one brought now cannot be checked against it.
    if T.subject.isSome then mismatch before step
    writeTransaction (·.withIdentifier identifier)
  | some held => if held ≠ identifier then mismatch before step

def answerIdentifier : EngineM (Option (String × StepName)) := do
  match (← Effect.read).pending with
  | none => return none
  | some pending =>
    if !s.loginHintSteps.contains pending.name then return none
    else
      match pending.loginHint with
      | some hint =>
        match s.syntaxes.readHint hint with
        | none => invalidAnswer pending.name
        | some identifier => return some (identifier, pending.name)
      | none => if pending.name = .identifier then invalidAnswer .identifier else return none

/-- Rule 6: the identifier, the request's `login_hint` first, then an answer's. -/
def identifierRule (before : SignInTransaction) : EngineM Unit := do
  let answered ← answerIdentifier s
  match s.context.loginHint.bind s.syntaxes.readIdentifier with
  | some identifier => bringIdentifier before identifier .identifier
  | none => pure ()
  match answered with
  | some (identifier, step) => bringIdentifier before identifier step
  | none => return ()

/-! ### Rule 7 -/

/-- A registration's first offer: the address, with a passkey before it where the pages can show
its recovery codes. -/
def registrationOffer : EngineM Unit := do
  match passkeyRegistration s with
  | none =>
    let offer ← offerOf s [.handler .identifier] false
    offerStep offer none none
  | some byPasskey =>
    let steps := [byPasskey, .handler .identifier]
    match ← Effect.attempt Exit.thrown (offerOf s steps true) with
    | .error e =>
      -- A ceremony that cannot start leaves the address.
      if (← pendingName) = some .webauthnCreate then Effect.exit e
      writeTransaction fun T ↦ { T with ceremony := none }
      let offer ← offerOf s [.handler .identifier] false
      offerStep offer none none
    | .ok offer =>
      if (← pendingName) ≠ some .webauthnCreate then offerStep offer none none
      registerByPasskey s offer steps

/-- The steps of the first offer, before anybody is named. -/
def firstSteps : List Offerable :=
  let discoverable := s.deps.discoverable.filter s.served
  let others := [StepName.password].filter s.served
  let steps :=
    if discoverable.isEmpty then
      if s.deps.discoverable.isEmpty then [.identifier] else others ++ [.identifier]
    else discoverable ++ others ++ [.identifier]
  steps.map .handler

/-- The first offer of a sign-in, and the answer to it. -/
def firstOffer : EngineM Unit := do
  let providers ← upstreamProviders s
  let offer ← offerOf s (firstSteps s ++ providers.toList.map .upstream ++
    if s.codeBeforeFirstFactor then [.recoveryCode] else []) true
  let name ← pendingName
  match s.context.upstreamRoute with
  | some route => if s.fresh && name.isNone then pickUpstream s offer (some route)
  | none => pure ()
  if providers.isSome && name = some .upstream then pickUpstream s offer none
  if s.codeBeforeFirstFactor && name = some .recoveryCode then redeemBeforeFirstFactor s offer
  else
    if !(s.deps.discoverable.filter s.served).any (some · = name) then offerStep offer none none
    verifyPending s offer

def confirmIdentifier (before : SignInTransaction) : EngineM Unit := do
  let offer ← offerOf s [.handler .identifier] false
  match ← readPending s offer with
  | none =>
    writeTransaction fun _ ↦ before
    invalidAnswer .identifier
  | some read =>
    takeFrom offer
    match read.answer with
    | .identifier hint =>
      if s.syntaxes.readIdentifier hint = (← transaction).identifier then return () else fault
    | _ => fault

/-- The identifier is fixed together with its audit record. -/
def recordIdentifier (before : SignInTransaction) : EngineM Unit :=
  restoring before do
    if (← pendingName) = some .identifier then confirmIdentifier s before
    audit .passed .identifier none

/-- Rule 7: the first factor, offered alike to every account. -/
def firstFactorRule : EngineM Unit := do
  let firstFactors := s.deps.firstFactors.filter s.served
  if firstFactors.isEmpty then redirect .stepNotAvailable
  let withReset ← if s.registering then pure false else resetOffered s
  let offer ← offerOf s (firstFactors.map .handler ++ if withReset then [.passwordReset] else [])
    false
  if withReset && (← pendingName) = some .passwordReset then startReset s offer
  if !(← answers offer) then offerStep offer none none
  verifyPending s offer

def addressKnown (before : SignInTransaction) : EngineM Unit := do
  if before.identifier.isNone then recordIdentifier s before
  if (← pendingName) = some .identifier then dropPending
  if s.registering then
    match (← transaction).identifier with
    | none => fault
    | some identifier => register s identifier
  firstFactorRule s

/-- Until a factor fixed the subject. -/
def beforeSubject (before : SignInTransaction) : EngineM Unit := do
  let T ← transaction
  if T.subject.isNone then
    if T.identifier.isSome then addressKnown s before
    else if s.registering then registrationOffer s
    else firstOffer s

/-! ### Rule 8 -/

/-- The account of the subject again, every factor included. -/
def readAccount (subject : String) : EngineM SignInAccount := do
  match ← fromStore (ask (.findByUserId subject)) with
  | none => ended .identifier .subjectMismatch
  | some account =>
    if account.userId ≠ subject then ended .identifier .subjectMismatch
    if !account.enabled then ended .identifier .accountDisabled
    return account

def completeRegistration (subject : String) (account : SignInAccount) : EngineM α := do
  if s.deps.recoveryCodes.isNone || !(← transaction).hasVerified .webauthnCreate then fault
  showRecoveryCodes s account subject true
  respond (.complete (.registered subject none))

/-- An `update_password` this transaction saw stays owed to it. -/
def keepRequiredUpdate (account : SignInAccount) : EngineM Unit :=
  writeTransaction fun T ↦
    if account.requiredActions.contains .updatePassword && !T.hasVerified .newPassword then
      { T with updatePasswordRequired := true }
    else T

/-- A registration for an address an account holds: its mailbox was proved before its password, so
an address not verified yet is verified now. -/
def verifyRegistered (subject : String) (account : SignInAccount) : EngineM SignInAccount := do
  let T ← transaction
  if s.registering && !account.verified && T.provedMailbox && s.deps.emailCodes then
    match T.identifier with
    | none => fault
    | some identifier =>
      match ← fromStore (ask (.markVerified subject identifier none)) with
      | .refused reason => ended .emailCode reason.reason
      | .written => return { account with verified := true }
  else return account

/-- A recovery code that found the account before any first factor: a new passkey first. -/
def rebindRule (subject : String) (account : SignInAccount) : EngineM SignInAccount := do
  let T ← transaction
  if !s.registering && T.codeAlone s.deps && !T.hasVerified .webauthnCreate then
    rebindPasskey s subject
    readAccount subject
  else return account

/-- What rule 8 asks for next. -/
inductive Needed
  | nothing
  /-- The MFA policy's set-up step. -/
  | setUp
  /-- These steps, with the address verified first where `addressFirst` says so. -/
  | factors (steps : List Offerable) (addressFirst : Bool)

/-- Whether a factor's step can be offered to the account. -/
def candidate (T : SignInTransaction) (current : SignInAccount) (step : StepName) : Bool :=
  s.served step && !T.hasVerified step && usableBy current step

/-- The downgrade rule: a factor as strong as the strongest bound one. -/
def downgradeDue (T : SignInTransaction) (current : SignInAccount) : Bool :=
  s.deps.provenFactorStrength T.verified < strongestBoundFactor current &&
    (!T.tookRecoveryCode || T.codeAlone s.deps) && !T.enrolledPasskey

/-- The account's TOTP is owed after the first factor. -/
def totpDue (T : SignInTransaction) (current : SignInAccount) : Bool :=
  holdsTotp current && !T.hasVerified .totp && !provesMfa T.verified && !T.tookRecoveryCode

def mfaDue (policy : MfaPolicy) (T : SignInTransaction) (current : SignInAccount) : Bool :=
  secondFactorRequired policy current && !provesMfa T.verified

/-- A recovery code stood in for a TOTP that was disabled: a new one is owed. -/
def totpRebindDue (T : SignInTransaction) (current : SignInAccount) : Bool :=
  T.tookRecoveryCode && holdsTotp current && !holdsUsableTotp current && !T.enrolledTotp &&
    !provesMfa T.verified

/-- The forced update asks for the factor beyond the password first. -/
def updateFactorDue (T : SignInTransaction) (current : SignInAccount) : Bool :=
  T.updateDue current && boundBeyondPassword current && !T.metBeyondPassword s.deps

/-- The first thing that rule 8 asks for, in the order of its checks. -/
def neededNow (policy : MfaPolicy) (current : SignInAccount) (subject : String) :
    EngineM Needed := do
  let T ← transaction
  if downgradeDue s T current then
    let strong := s.deps.firstFactors.filter fun step ↦
      candidate s T current step &&
        strongestBoundFactor current ≤ factorStrength (s.deps.factorOf step)
    let code ← recoveryAlternative s subject
    return .factors (strong.map .handler ++ code) false
  else if totpDue T current then
    let totp := s.deps.secondFactors.filter (candidate s T current)
    let code ← recoveryAlternative s subject
    return .factors (totp.map .handler ++ code) true
  else if mfaDue policy T current then
    let factors := (s.deps.secondFactors ++ s.deps.firstFactors).filter (candidate s T current)
    if !T.tookRecoveryCode && !factors.isEmpty then
      let code ← recoveryAlternative s subject
      return .factors (factors.map .handler ++ code) true
    else if T.provedPassword s.deps && (T.tookRecoveryCode || !holdsTotp current) then
      return .setUp
    else return .factors [] false
  else if totpRebindDue T current then return .setUp
  else if updateFactorDue s T current then
    let code ← recoveryAlternative s subject
    return .factors (factorsBeyondPassword s T current ++ code) true
  else return .nothing

def proveNeeded (current : SignInAccount) (subject : String) (steps : List Offerable)
    (addressFirst : Bool) : EngineM Unit := do
  if addressFirst && !steps.isEmpty && s.deps.emailCodes &&
      (← transaction).addressPending current then
    verifyAddress s subject .verifyAccount
  if steps.isEmpty then redirect .stepNotAvailable
  let offer ← offerOf s steps false
  if !(← answers offer) then offerStep offer none none
  verifyAfterFirstFactor s offer subject

/-- Rule 8's loop: ask for what is needed and read the account again, until nothing is. -/
def factorLoop (policy : MfaPolicy) (subject : String) :
    ℕ → SignInAccount → EngineM SignInAccount
  | 0, _ => fault
  | fuel + 1, current => do
    match ← neededNow s policy current subject with
    | .nothing => return current
    | .setUp =>
      if !s.deps.totp then redirect .stepNotAvailable
      enrolTotp s current subject
      let account ← readAccount subject
      factorLoop policy subject fuel account
    | .factors steps addressFirst =>
      proveNeeded s current subject steps addressFirst
      let account ← readAccount subject
      factorLoop policy subject fuel account

/-- The turns the loop may take: the source bounds none, and none takes more. -/
def LOOP_TURNS : ℕ := 4

/-- The authenticator app the person asked to set up, on an account that holds none. -/
def requestedTotp (subject : String) (account : SignInAccount) : EngineM SignInAccount := do
  let T ← transaction
  if s.context.enrol = some .totp && !s.registering && s.deps.totp &&
      s.deps.recoveryCodes.isSome && s.served .totpSetup && s.served .recoveryCodes &&
      !holdsTotp account && !T.enrolledTotp && (T.totpLabel account).isSome then
    enrolTotp s account subject
    readAccount subject
  else return account

/-- Rule 9: complete. -/
def complete (subject : String) : EngineM α := do
  let T ← transaction
  match transactionAmr T.verified <|> (if T.hasVerified .upstream then some [] else none),
    T.authTime with
  | some amr, some authTime =>
    respond (.complete (.signedIn subject T.identifier amr authTime T.tookRecoveryCode))
  | _, _ => fault

/-- What the sign-in owes once every factor is proved. -/
def afterFactors (subject : String) (proven : SignInAccount) : EngineM α := do
  if s.deps.emailCodes && (← transaction).addressPending proven then
    verifyAddress s subject .verifyAccount
  if (← transaction).updateDue proven then forcedUpdate s proven subject
  let account ← requestedTotp s subject proven
  if s.deps.passkeys && !s.registering then
    enrolPasskey s account subject (s.context.enrol = some .passkey)
  if s.deps.recoveryCodes.isSome then showRecoveryCodes s account subject false
  complete subject

def afterFirstFactor (policy : MfaPolicy) (subject : String) : EngineM α := do
  let proven ← readAccount subject
  if s.registering && (← transaction).identifier.isNone then
    completeRegistration s subject proven
  keepRequiredUpdate proven
  let registered ← verifyRegistered s subject proven
  let account ← rebindRule s subject registered
  let current ← factorLoop s policy subject LOOP_TURNS account
  afterFactors s subject current

/-! ### The round -/

/-- The rules of one round, in order. -/
def rules : EngineM α := do
  let (policy, limitsSoft) ← beforeChallenge s
  challengeRule s limitsSoft
  match s.proof with
  | some proof => proveUpstream s proof
  | none => pure ()
  let before ← transaction
  identifierRule s before
  if s.resetting then recover s before
  beforeSubject s before
  match (← transaction).subject with
  | none => fault
  | some subject => afterFirstFactor s policy subject

/-- A round of one engine: the transport's view, the transaction it stored (none for round 0), the
answer, and the proof of a provider's callback. -/
structure RoundInput where
  context : RoundContext
  stored : Option SignInTransaction
  answer : Option RoundAnswer
  proof : Option UpstreamProof

/-- An engine. -/
structure SignInEngine where
  syntaxes : Syntax
  deps : Deployment

namespace SignInEngine

variable (E : SignInEngine) (input : RoundInput)

def answeredStep : Option StepName := input.answer.bind (stepNameOfUrn ·.step)

/-- Whether a subject without an identifier comes from a step that may name one. -/
def namesSubject (T : SignInTransaction) : Bool :=
  T.verified.any fun step ↦
    step.step = .upstream || E.deps.discoverable.contains step.step ||
      (T.flow = some .register && step.step = .webauthnCreate) ||
      (T.flow = none && step.step = .recoveryCode)

/-- The transaction a round works on, or why it may use none. -/
def usable (now : ℤ) : Except SignInAuditReason SignInTransaction :=
  match input.stored with
  | none => .ok (newSignInTransaction input.context.realmId input.context.clientId now
      input.context.flow)
  | some stored =>
    match E.syntaxes.readSignInTransaction stored with
    | none => .error .transactionInvalid
    | some found =>
      if found.realmId ≠ input.context.realmId || found.clientId ≠ input.context.clientId ||
          now + SIGN_IN_TRANSACTION_CLOCK_SKEW_MS < found.createdAt then .error .transactionInvalid
      else if SIGN_IN_TRANSACTION_MAX_AGE_MS < now - found.createdAt then .error .transactionExpired
      else if found.flow ≠ input.context.flow &&
          !(found.flow = some .reset && input.context.flow = none) then .error .transactionInvalid
      else if found.subject.isSome && found.identifier.isNone && !E.namesSubject found then
        .error .transactionInvalid
      else .ok found

/-- What the round runs with. -/
def setting (found : SignInTransaction) : RoundSetting where
  syntaxes := E.syntaxes
  deps := E.deps
  context := input.context
  found := found
  fresh := input.stored.isNone
  proof := input.proof
  answered := answeredStep input

/-- The state that the rules start from. -/
def startState (found : SignInTransaction) : RoundState where
  transaction := found
  pending := input.answer.bind fun answer ↦
    (stepNameOfUrn answer.step).map fun name ↦ { name, answer }
  hmac := none
  answeredOffer := none

/-- How a round ended: its answer, or none when it rejected, what its rules left, and the calls it
made. -/
structure RoundEnd where
  result : Option RoundResult
  left : Option RoundState
  trace : List (Effect.Event ports)

/-- End a transaction the round may not use: the record names nobody. -/
def endUnusable (env : Effect.Environment ports) (trace : List (Effect.Event ports))
    (reason : SignInAuditReason) : RoundEnd :=
  let named := if input.proof.isSome then some .upstream else answeredStep input
  let record : SignInAuditRecord :=
    { outcome := .ended, step := (named.filter E.deps.knows).getD .identifier
      reason := some reason, failure := none, person := .nobody }
  let kept : Bool := env (.audit record) trace
  { result := if kept then some .ended else none
    left := none
    trace := trace ++ [⟨.audit record, kept⟩] }

/-- The round's answer, from how its rules stopped. -/
def finish (stop : Except Exit Empty) (state : RoundState) : Option RoundResult :=
  match stop with
  | .error (.answered result) => some result
  | .error .unavailable => some (.unavailable state.transaction)
  | .error .fault => none

/-- Run one round. -/
def advance (env : Effect.Environment ports) : RoundEnd :=
  let now : ℤ := env .now []
  let trace : List (Effect.Event ports) := [⟨.now, now⟩]
  match E.usable input now with
  | .error reason => E.endUnusable input env trace reason
  | .ok found =>
    let (stop, memory) := (rules (E.setting input found) : EngineM Empty) env
      { state := startState input found, trace }
    { result := finish stop memory.state, left := some memory.state, trace := memory.trace }

end SignInEngine

end QAuth.Engine
