import QAuth.SignIn.LadderPolicy

/-!
# The rules of the round limits

How many rounds and failed credential rounds an end-user IP, its network bucket and a client may
make, and how many registrations may start (`round-limits.ts` of the engine). Times are in
milliseconds. A policy is what `checkRoundLimitPolicy` accepts, and `development` meets a relaxed
one.
-/

namespace QAuth.SignIn

open Guards

/-- The environment of a client. -/
inductive RoundEnvironment
  | development
  | staging
  | production
deriving DecidableEq

/-- Read an environment: `production` for anything else. -/
def roundEnvironmentOf : Option String → RoundEnvironment
  | some "development" => .development
  | some "staging" => .staging
  | _ => .production

/-- The end-user IP row. -/
structure EndUserIpLimits where
  windowMs : ℕ
  softFailures : ℕ
  hardFailures : ℕ
  blockMs : ℕ
  delayMs : ℕ
deriving DecidableEq

/-- The IP bucket row. -/
structure IpBucketLimits where
  windowMs : ℕ
  maxIdentifiers : ℕ
  delayMs : ℕ
deriving DecidableEq

/-- The client row. -/
structure ClientLimits where
  windowMs : ℕ
  ratioMinRounds : ℕ
  ratioPercent : ℕ
  failureBudget : ℕ
  delayMs : ℕ
  maxRounds : ℕ
  maxRoundsWindowMs : ℕ
deriving DecidableEq

/-- So many in a window. -/
structure SendWindow where
  limit : ℕ
  windowMs : ℕ
deriving DecidableEq

/-- The caps on registration starts. -/
structure RegistrationStartLimits where
  endUserIp : SendWindow
  client : SendWindow
deriving DecidableEq

/-- The round limits' rules. -/
structure RoundLimitPolicy where
  endUserIp : EndUserIpLimits
  ipBucket : IpBucketLimits
  client : ClientLimits
  registrationStarts : RegistrationStartLimits
deriving DecidableEq

def MINUTE_MS : ℕ := 60000

def HOUR_MS : ℕ := 60 * MINUTE_MS

/-- A client's rounds a minute. -/
def FIRST_PARTY_CLIENT_MAX_ROUNDS_DEFAULT : ℕ := 600

/-- The round limits with the deployment's rounds a minute and registration cap. -/
def roundLimitPolicy (clientMaxRounds : Option ℕ) (registrationPerIp : Option SendWindow) :
    RoundLimitPolicy :=
  let ipWindowMs := 15 * MINUTE_MS
  let hardFailures := 30
  let clientWindowMs := 5 * MINUTE_MS
  let maxRounds := clientMaxRounds.getD FIRST_PARTY_CLIENT_MAX_ROUNDS_DEFAULT
  let maxRoundsWindowMs := MINUTE_MS
  -- A tenth of what the rounds a minute admit in the window.
  let failureBudget := max 1 (maxRounds * (clientWindowMs / maxRoundsWindowMs) / 10)
  { endUserIp :=
      { windowMs := ipWindowMs, softFailures := 10, hardFailures, blockMs := 15 * MINUTE_MS
        delayMs := ipWindowMs / hardFailures }
    ipBucket :=
      { windowMs := ipWindowMs, maxIdentifiers := 20, delayMs := ipWindowMs / hardFailures }
    client :=
      { windowMs := clientWindowMs, ratioMinRounds := 200, ratioPercent := 50, failureBudget
        delayMs := max 1 (clientWindowMs / failureBudget), maxRounds, maxRoundsWindowMs }
    registrationStarts :=
      { endUserIp := registrationPerIp.getD { limit := 3, windowMs := HOUR_MS }
        client := { limit := 1000, windowMs := HOUR_MS } } }

/-- The round limits at their defaults. -/
def ROUND_LIMIT_POLICY : RoundLimitPolicy := roundLimitPolicy none none

/-- How much `development` relaxes every count. -/
def DEVELOPMENT_ROUND_LIMIT_FACTOR : ℕ := 10

/-- The limits `development` meets: every count tenfold, each delay a tenth as long. -/
def relaxedRoundLimitPolicy (policy : RoundLimitPolicy) : RoundLimitPolicy :=
  let f := DEVELOPMENT_ROUND_LIMIT_FACTOR
  let shorter (ms : ℕ) : ℕ := max 1 (ms / f)
  let window (w : SendWindow) : SendWindow := { w with limit := w.limit * f }
  { endUserIp :=
      { policy.endUserIp with
        softFailures := policy.endUserIp.softFailures * f
        hardFailures := policy.endUserIp.hardFailures * f
        delayMs := shorter policy.endUserIp.delayMs }
    ipBucket :=
      { policy.ipBucket with
        maxIdentifiers := policy.ipBucket.maxIdentifiers * f
        delayMs := shorter policy.ipBucket.delayMs }
    client :=
      { policy.client with
        ratioMinRounds := policy.client.ratioMinRounds * f
        failureBudget := policy.client.failureBudget * f
        delayMs := shorter policy.client.delayMs
        maxRounds := policy.client.maxRounds * f }
    registrationStarts :=
      { endUserIp := window policy.registrationStarts.endUserIp
        client := window policy.registrationStarts.client } }

def checkTime (value : ℕ) (name : String) : Except String Unit :=
  refuseIf (¬ Whole value 1000) ("round limit policy: " ++ name ++ " below a second")

def checkCount (value : ℕ) (name : String) : Except String Unit :=
  refuseIf (¬ Whole value 1) ("round limit policy: " ++ name ++ " below 1")

/-- Refuse a delay that is none, or longer than its window. -/
def checkDelay (delay window : ℕ) (name : String) : Except String Unit :=
  refuseIf (¬ Whole delay 1 ∨ window < delay)
    ("round limit policy: " ++ name ++ ".delayMs outside 1 ms to its window")

/-- Check a policy's numbers, so a store never runs limits that cannot hold. -/
def checkRoundLimitPolicy (policy : RoundLimitPolicy) : Except String RoundLimitPolicy := do
  checkTime policy.endUserIp.windowMs "endUserIp.windowMs"
  checkCount policy.endUserIp.softFailures "endUserIp.softFailures"
  checkCount policy.endUserIp.hardFailures "endUserIp.hardFailures"
  checkTime policy.endUserIp.blockMs "endUserIp.blockMs"
  refuseIf (policy.endUserIp.hardFailures < policy.endUserIp.softFailures)
    "round limit policy: endUserIp.softFailures above hardFailures"
  checkTime policy.ipBucket.windowMs "ipBucket.windowMs"
  checkCount policy.ipBucket.maxIdentifiers "ipBucket.maxIdentifiers"
  checkTime policy.client.windowMs "client.windowMs"
  checkCount policy.client.ratioMinRounds "client.ratioMinRounds"
  checkCount policy.client.failureBudget "client.failureBudget"
  checkCount policy.client.maxRounds "client.maxRounds"
  checkTime policy.client.maxRoundsWindowMs "client.maxRoundsWindowMs"
  refuseIf (¬ Whole policy.client.ratioPercent 1 ∨ 99 < policy.client.ratioPercent)
    "round limit policy: client.ratioPercent outside 1 to 99"
  checkDelay policy.endUserIp.delayMs policy.endUserIp.windowMs "endUserIp"
  checkDelay policy.ipBucket.delayMs policy.ipBucket.windowMs "ipBucket"
  checkDelay policy.client.delayMs policy.client.windowMs "client"
  checkCount policy.registrationStarts.endUserIp.limit "registrationStarts.endUserIp.limit"
  checkTime policy.registrationStarts.endUserIp.windowMs "registrationStarts.endUserIp.windowMs"
  checkCount policy.registrationStarts.client.limit "registrationStarts.client.limit"
  checkTime policy.registrationStarts.client.windowMs "registrationStarts.client.windowMs"
  return policy

/-- The two policies a store applies: the one it was given, and `development`'s. -/
structure RoundLimitPolicies where
  strict : RoundLimitPolicy
  relaxed : RoundLimitPolicy
deriving DecidableEq

/-- Check `policy` and derive `development`'s from it. -/
def roundLimitPolicies (policy : RoundLimitPolicy) : Except String RoundLimitPolicies := do
  let strict ← checkRoundLimitPolicy policy
  let relaxed ← checkRoundLimitPolicy (relaxedRoundLimitPolicy strict)
  return { strict, relaxed }

/-- The policy a round of `environment` meets. -/
def roundLimitPolicyFor (environment : RoundEnvironment) (policies : RoundLimitPolicies) :
    RoundLimitPolicy :=
  if environment = .development then policies.relaxed else policies.strict

/-- What a policy that `checkRoundLimitPolicy` accepts satisfies. -/
structure RoundLimitPolicy.Sound (policy : RoundLimitPolicy) : Prop where
  ipWindow_pos : 0 < policy.endUserIp.windowMs
  softFailures_pos : 0 < policy.endUserIp.softFailures
  hardFailures_pos : 0 < policy.endUserIp.hardFailures
  softFailures_le : policy.endUserIp.softFailures ≤ policy.endUserIp.hardFailures
  bucketWindow_pos : 0 < policy.ipBucket.windowMs
  clientWindow_pos : 0 < policy.client.windowMs
  maxRounds_pos : 0 < policy.client.maxRounds
  roundsWindow_pos : 0 < policy.client.maxRoundsWindowMs
  ipStarts_pos : 0 < policy.registrationStarts.endUserIp.limit
  ipStartsWindow_pos : 0 < policy.registrationStarts.endUserIp.windowMs
  clientStarts_pos : 0 < policy.registrationStarts.client.limit
  clientStartsWindow_pos : 0 < policy.registrationStarts.client.windowMs

theorem checkRoundLimitPolicy_eq_ok {policy accepted : RoundLimitPolicy}
    (h : checkRoundLimitPolicy policy = .ok accepted) : accepted = policy ∧ policy.Sound := by
  simp only [checkRoundLimitPolicy, checkTime, checkCount, checkDelay, bind_eq_ok_iff,
    refuseIf_eq_ok_iff, not_not, not_or, not_lt, exists_const] at h
  obtain ⟨hipWindow, hsoft, hhard, -, hle, hbucketWindow, -, hclientWindow, -, -, hmaxRounds,
    hroundsWindow, -, -, -, -, hipStarts, hipStartsWindow, hclientStarts, hclientStartsWindow,
    heq⟩ := h
  have hsecond : 0 < 1000 := by decide
  exact ⟨(Except.ok.inj heq).symm,
    { ipWindow_pos := hsecond.trans_le hipWindow.2
      softFailures_pos := hsoft.2
      hardFailures_pos := hhard.2
      softFailures_le := hle
      bucketWindow_pos := hsecond.trans_le hbucketWindow.2
      clientWindow_pos := hsecond.trans_le hclientWindow.2
      maxRounds_pos := hmaxRounds.2
      roundsWindow_pos := hsecond.trans_le hroundsWindow.2
      ipStarts_pos := hipStarts.2
      ipStartsWindow_pos := hsecond.trans_le hipStartsWindow.2
      clientStarts_pos := hclientStarts.2
      clientStartsWindow_pos := hsecond.trans_le hclientStartsWindow.2 }⟩

theorem sound_roundLimitPolicyFor {policy : RoundLimitPolicy} {policies : RoundLimitPolicies}
    (h : roundLimitPolicies policy = .ok policies) (environment : RoundEnvironment) :
    (roundLimitPolicyFor environment policies).Sound := by
  simp only [roundLimitPolicies, bind_eq_ok_iff] at h
  obtain ⟨strict, hstrict, relaxed, hrelaxed, heq⟩ := h
  obtain rfl := Except.ok.inj heq
  obtain ⟨rfl, hsound⟩ := checkRoundLimitPolicy_eq_ok hstrict
  obtain ⟨rfl, hsoundRelaxed⟩ := checkRoundLimitPolicy_eq_ok hrelaxed
  rw [roundLimitPolicyFor]
  split
  · exact hsoundRelaxed
  · exact hsound

/-- The default limits pass their own check, and so do those that `development` meets. -/
theorem roundLimitPolicies_default :
    roundLimitPolicies ROUND_LIMIT_POLICY = .ok
      { strict := ROUND_LIMIT_POLICY
        relaxed := relaxedRoundLimitPolicy ROUND_LIMIT_POLICY } := by
  decide

end QAuth.SignIn
