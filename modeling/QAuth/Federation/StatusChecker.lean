import Mathlib.Logic.Function.Basic
import QAuth.Federation.StatusList
import QAuth.Foundation.LruMap
import QAuth.Foundation.Run

/-!
# Checks of credential status

`createCredentialStatusChecker` of `credential-status-checker.ts` with the cache of
`status-list-cache.ts` and the breaker of `status-endpoint-breaker.ts`, as a transition system: an
action is what runs between two awaits, with the clock readings it takes, and the checks and the
loads of status lists interleave in any order.
-/

namespace QAuth.Federation

open Json Transition

/-- An instant of `Date.now()`, within the range of ECMAScript's time values. -/
structure Instant where
  ms : ℕ
  le : ms ≤ 8640000000000000

/-! ### The cache -/

/-- A verified status list, and the instant from which it is not served. -/
structure CachedStatusList where
  statusList : VerifiedStatusList
  expiresAtMs : ℚ

/-- The entries of the cache, the least recently used first. -/
abbrev StatusListCache := List (String × CachedStatusList)

namespace StatusListCache

def get (entries : StatusListCache) (uri : String) (now : Instant) :
    Option CachedStatusList × StatusListCache :=
  match entries.lookup uri with
  | none => (none, entries)
  | some entry =>
    if entry.expiresAtMs ≤ now.ms then (none, entries.filter (·.1 ≠ uri))
    -- recency reflects reads
    else (some entry, entries.filter (·.1 ≠ uri) ++ [(uri, entry)])

/-- Store an entry that has not expired, evicting the least recently used beyond the cap. -/
def set (entries : StatusListCache) (maxEntries : ℕ) (uri : String) (entry : CachedStatusList)
    (now : Instant) : StatusListCache :=
  if entry.expiresAtMs ≤ now.ms then entries
  else
    let entries := entries.filter (·.1 ≠ uri) ++ [(uri, entry)]
    entries.drop (entries.length - maxEntries)

end StatusListCache

/-! ### The breaker -/

/-- The breaker seam. A request that is allowed may read the clock twice. -/
structure Breaker (β : Type) where
  initial : β
  allows : β → String → Instant → Instant → Bool × β
  recordSuccess : β → String → β
  recordFailure : β → String → Instant → β

/-- A breaker that never intervenes. -/
def ALWAYS_CLOSED_STATUS_ENDPOINT_BREAKER : Breaker Unit where
  initial := ()
  allows _ _ _ _ := (true, ())
  recordSuccess _ _ := ()
  recordFailure _ _ _ := ()

/-- Consecutive failures that open the circuit, where none are configured. -/
def DEFAULT_FAILURE_THRESHOLD : ℕ := 5

/-- How long the circuit stays open, where nothing is configured. -/
def DEFAULT_OPEN_DURATION_MS : ℚ := 30000

/-- Hard cap on tracked origins, where none is configured. -/
def DEFAULT_MAX_TRACKED_ORIGINS : ℕ := 256

def positiveSafeIntegerOr (default : ℕ) : Option ℚ → ℕ
  | some n => if 0 < n ∧ n.den = 1 ∧ n ≤ Double.maxSafe then n.num.toNat else default
  | none => default

/-- Options of a breaker. A number that is not finite is refused like one that is not given. -/
structure StatusEndpointBreakerOptions where
  failureThreshold : Option ℚ := none
  openDurationMs : Option ℚ := none
  maxTrackedOrigins : Option ℚ := none

/-- What a breaker goes by. -/
structure BreakerLimits where
  failureThreshold : ℕ
  openDurationMs : ℚ
  maxTrackedOrigins : ℕ
  threshold_pos : 0 < failureThreshold
  duration_pos : 0 < openDurationMs

theorem positiveSafeIntegerOr_pos {default : ℕ} (h : 0 < default) (given : Option ℚ) :
    0 < positiveSafeIntegerOr default given := by
  cases given with
  | none => exact h
  | some n =>
    rw [positiveSafeIntegerOr]
    split
    · rename_i hn
      have : 0 < n.num := Rat.num_pos.mpr hn.1
      omega
    · exact h

/-- The options a breaker was given, with the defaults for the others. -/
def StatusEndpointBreakerOptions.limits (options : StatusEndpointBreakerOptions) :
    BreakerLimits where
  failureThreshold := positiveSafeIntegerOr DEFAULT_FAILURE_THRESHOLD options.failureThreshold
  openDurationMs := (options.openDurationMs.filter (0 < ·)).getD DEFAULT_OPEN_DURATION_MS
  maxTrackedOrigins :=
    positiveSafeIntegerOr DEFAULT_MAX_TRACKED_ORIGINS options.maxTrackedOrigins
  threshold_pos := positiveSafeIntegerOr_pos (by decide) _
  duration_pos := by
    cases hgiven : options.openDurationMs.filter (0 < ·) with
    | none =>
      rw [Option.getD_none, DEFAULT_OPEN_DURATION_MS]
      norm_num
    | some d => simpa using (Option.filter_eq_some_iff.mp hgiven).2

/-- Breaker state of an origin. -/
structure OriginState where
  consecutiveFailures : ℕ
  /-- 0 when closed -/
  openUntilMs : ℚ

/-- The states of origins, the least recently touched first. -/
abbrev OriginStates := List (String × OriginState)

/-- A circuit breaker for each origin. -/
def createStatusEndpointBreaker (originOf : String → Option String)
    (options : StatusEndpointBreakerOptions) : Breaker OriginStates where
  initial := []
  allows states uri now probeNow :=
    match originOf uri with
    | none => (false, states)
    | some origin =>
      match states.lookup origin with
      | none => (true, states)
      | some state =>
        if state.openUntilMs = 0 then (true, states)
        else if now.ms < state.openUntilMs then (false, states)
        -- one probe: the window is armed again
        else (true, LruMap.assign states origin
          { state with openUntilMs := probeNow.ms + options.limits.openDurationMs })
  recordSuccess states uri :=
    match originOf uri with
    | none => states
    | some origin =>
      let (_, states) := LruMap.touch options.limits.maxTrackedOrigins states origin ⟨0, 0⟩
      LruMap.assign states origin ⟨0, 0⟩
  recordFailure states uri now :=
    match originOf uri with
    | none => states
    | some origin =>
      let (state, states) := LruMap.touch options.limits.maxTrackedOrigins states origin ⟨0, 0⟩
      let failures := state.consecutiveFailures + 1
      LruMap.assign states origin ⟨failures,
        if options.limits.failureThreshold ≤ failures
          then now.ms + options.limits.openDurationMs else state.openUntilMs⟩

/-! ### Decisions -/

/-- The decision a status check reached. -/
inductive CredentialStatusDecision
  | valid
  | rejected (reason : CredentialStatusRejectionReason)
deriving DecidableEq

/-- Map a decoded value onto a decision. -/
def decideFromStatusValue (value : ℕ) : CredentialStatusDecision :=
  if value = CREDENTIAL_STATUS_VALID then .valid
  else if value = CREDENTIAL_STATUS_INVALID then .rejected .revoked
  else if value = CREDENTIAL_STATUS_SUSPENDED then .rejected .suspended
  else .rejected .statusUnknown

/-- Ceiling on the reuse of a verified list, where none is configured. -/
def DEFAULT_MAX_CACHE_TTL_SECONDS : ℚ := 300

/-- The wiring of a checker. -/
structure Checker (Cert Key PublicKey ν β : Type) extends StatusVerifier Cert Key PublicKey ν where
  /-- the allowlist of status list URIs -/
  permits : String → Bool
  maxEntries : ℕ
  breaker : Breaker β
  configuredMaxCacheTtlSeconds : Option ν
  inflateSync : ℕ → List UInt8 → Option (List UInt8)

section Checker

variable {Cert Key PublicKey ν β : Type} (C : Checker Cert Key PublicKey ν β)

/-- Ceiling on the reuse of a verified list. -/
def maxCacheTtlSeconds : ℚ :=
  match C.configuredMaxCacheTtlSeconds.bind C.numbers.finite with
  | some seconds => if 0 ≤ seconds then seconds else DEFAULT_MAX_CACHE_TTL_SECONDS
  | none => DEFAULT_MAX_CACHE_TTL_SECONDS

def cacheTtlMs (statusList : VerifiedStatusList) (now : Instant) : ℚ :=
  let ttlMs := C.numbers.nearest (maxCacheTtlSeconds C * 1000)
  let ttlMs :=
    match statusList.ttlSeconds with
    | some seconds => min ttlMs (C.numbers.nearest (seconds * 1000))
    | none => ttlMs
  match statusList.expiresAtMs with
  | some expiresAtMs => min ttlMs (C.numbers.nearest (expiresAtMs - now.ms))
  | none => ttlMs

def decideFromList (statusList : VerifiedStatusList) (reference : StatusListReference) :
    CredentialStatusDecision :=
  match readStatusListEntry C.inflateSync statusList.lst statusList.bits reference.idx with
  | .outOfRange => .rejected .indexOutOfRange
  | .unreadable => .rejected .listUnreadable
  | .found status => decideFromStatusValue status

/-! ### The system -/

/-- A result of loading a status list. -/
abbrev StatusListLoad := Except CredentialStatusRejectionReason VerifiedStatusList

/-- How far a load has come. -/
inductive Phase
  | fetching
  | verifying (token : String) (now : Instant)
  | settled (result : StatusListLoad)
  /-- no longer in flight, so that the checks that wait for it go on -/
  | released (result : StatusListLoad)

/-- One load of a status list. -/
structure Load where
  uri : String
  phase : Phase

/-- A check that waits for a load. -/
structure Waiting where
  reference : StatusListReference
  load : ℕ

/-- A token that was verified. -/
structure Verification where
  uri : String
  token : String
  /-- the reference time of the verification -/
  now : Instant
  /-- the instant of its end -/
  finishedAt : Instant
  statusList : VerifiedStatusList

/-- What happened. -/
inductive Event (ν : Type)
  | began (check : ℕ) (status : Option (Value ν)) (statusRequired : Bool) (now : Instant)
  | verified (load : ℕ) (verification : Verification)
  | released (load : ℕ)
  | decided (check : ℕ) (decision : CredentialStatusDecision)

/-- The checker between two actions. -/
structure State (ν β : Type) where
  cache : StatusListCache
  breaker : β
  inFlight : String → Option ℕ
  loads : ℕ → Option Load
  waiting : ℕ → Option Waiting
  nextCheck : ℕ
  nextLoad : ℕ
  /-- what happened, the last first -/
  history : List (Event ν)

/-- What runs between two awaits. -/
inductive Action (ν : Type)
  /-- a check starts; the clock as the cache and the breaker read it -/
  | check (status : Option (Value ν)) (statusRequired : Bool) (now breakerNow probeNow : Instant)
  /-- the transport answers, with a token or not -/
  | fetched (load : ℕ) (token : Option String) (now : Instant)
  /-- a verification ends; the clock as the checker and the cache read it -/
  | verified (load : ℕ) (now cacheNow : Instant)
  /-- a load that is settled leaves the ones in flight -/
  | released (load : ℕ)
  /-- a check continues after its load -/
  | resumed (check : ℕ)

namespace State

/-- A check ends with a decision. -/
def decide (s : State ν β) (check : ℕ) (decision : CredentialStatusDecision) : State ν β :=
  { s with history := .decided check decision :: s.history }

/-- A load comes to a phase. -/
def setPhase (s : State ν β) (id : ℕ) (uri : String) (phase : Phase) : State ν β :=
  { s with loads := Function.update s.loads id (some ⟨uri, phase⟩) }

@[simp] theorem setPhase_loads_self (s : State ν β) (id : ℕ) (uri : String) (phase : Phase) :
    (s.setPhase id uri phase).loads id = some ⟨uri, phase⟩ := Function.update_self _ _ _

theorem setPhase_loads_of_ne (s : State ν β) {id load : ℕ} (uri : String) (phase : Phase)
    (h : load ≠ id) : (s.setPhase id uri phase).loads load = s.loads load :=
  Function.update_of_ne h _ _

/-- `loadStatusList` for a check: it joins the load in flight, or starts one. -/
def loadStatusList (s : State ν β) (check : ℕ) (reference : StatusListReference) : State ν β :=
  match s.inFlight reference.uri with
  | some load => { s with waiting := Function.update s.waiting check (some ⟨reference, load⟩) }
  | none =>
    { s.setPhase s.nextLoad reference.uri .fetching with
      inFlight := Function.update s.inFlight reference.uri (some s.nextLoad)
      waiting := Function.update s.waiting check (some ⟨reference, s.nextLoad⟩)
      nextLoad := s.nextLoad + 1 }

/-- A check that has its number, up to its first await. -/
def resolveCredentialStatus (s : State ν β) (check : ℕ) (status : Option (Value ν))
    (statusRequired : Bool) (now breakerNow probeNow : Instant) : State ν β :=
  match status with
  | none | some .null =>
    s.decide check (if statusRequired then .rejected .statusRequiredButAbsent else .valid)
  | some status =>
    match parseStatusListReference C.numbers status with
    | none => s.decide check (.rejected .malformedStatusClaim)
    | some reference =>
      if !C.permits reference.uri then s.decide check (.rejected .uriNotPermitted)
      else
        match s.cache.get reference.uri now with
        | (some entry, cache) =>
          { s with cache }.decide check (decideFromList C entry.statusList reference)
        | (none, cache) =>
          match C.breaker.allows s.breaker reference.uri breakerNow probeNow with
          | (false, breaker) => { s with cache, breaker }.decide check (.rejected .circuitOpen)
          | (true, breaker) => { s with cache, breaker }.loadStatusList check reference

/-- `fetchAndVerify` where it fails. -/
def failLoad (s : State ν β) (id : ℕ) (uri : String) (reason : CredentialStatusRejectionReason)
    (now : Instant) : State ν β :=
  { s.setPhase id uri (.settled (.error reason)) with
    breaker := C.breaker.recordFailure s.breaker uri now }

/-- What the cache is given for a verified list. -/
def cachedStatusList (v : Verification) : CachedStatusList :=
  ⟨v.statusList, C.numbers.nearest (v.finishedAt.ms + cacheTtlMs C v.statusList v.finishedAt)⟩

/-- `fetchAndVerify` where the token is verified. -/
def finishLoad (s : State ν β) (id : ℕ) (v : Verification) (cacheNow : Instant) : State ν β :=
  { s.setPhase id v.uri (.settled (.ok v.statusList)) with
    breaker := C.breaker.recordSuccess s.breaker v.uri
    cache :=
      if 0 < cacheTtlMs C v.statusList v.finishedAt then
        s.cache.set C.maxEntries v.uri (cachedStatusList C v) cacheNow
      else s.cache
    history := .verified id v :: s.history }

def resume (s : State ν β) (check : ℕ) (reference : StatusListReference)
    (result : StatusListLoad) : State ν β :=
  { s with waiting := Function.update s.waiting check none }.decide check
    (match result with
      | .error reason => .rejected reason
      | .ok statusList => decideFromList C statusList reference)

end State

variable [DecidableEq ν]

def step (s : State ν β) : Action ν → Option (State ν β)
  | .check status statusRequired now breakerNow probeNow =>
    some ({ s with
      nextCheck := s.nextCheck + 1
      history := .began s.nextCheck status statusRequired now :: s.history
      }.resolveCredentialStatus C s.nextCheck status statusRequired now breakerNow
        probeNow)
  | .fetched load token now =>
    match s.loads load, token with
    | some ⟨uri, .fetching⟩, none => some (s.failLoad C load uri .endpointUnavailable now)
    | some ⟨uri, .fetching⟩, some token => some (s.setPhase load uri (.verifying token now))
    | _, _ => none
  | .verified load now cacheNow =>
    match s.loads load with
    | some ⟨uri, .verifying token startedAt⟩ =>
      match verifyStatusListToken C.toStatusVerifier token uri startedAt.ms with
      | .error reason => some (s.failLoad C load uri reason now)
      | .ok statusList => some (s.finishLoad C load ⟨uri, token, startedAt, now, statusList⟩ cacheNow)
    | _ => none
  | .released load =>
    match s.loads load with
    | some ⟨uri, .settled result⟩ =>
      some { s.setPhase load uri (.released result) with
        inFlight := Function.update s.inFlight uri none
        history := .released load :: s.history }
    | _ => none
  | .resumed check =>
    match s.waiting check with
    | none => none
    | some ⟨reference, load⟩ =>
      match s.loads load with
      | some ⟨_, .released result⟩ => some (s.resume C check reference result)
      | _ => none

/-- The checks of one process. -/
def checkerSystem : System (State ν β) (Action ν) where
  initial s := s = ⟨[], C.breaker.initial, fun _ ↦ none, fun _ ↦ none, fun _ ↦ none, 0, 0, []⟩
  step := step C

end Checker

end QAuth.Federation
