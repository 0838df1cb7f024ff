import QAuth.Foundation.CountHash
import QAuth.Foundation.SlidingLog
import QAuth.SignIn.Ladder
import QAuth.SignIn.RoundLimitPolicy

/-!
# The round limits in Redis

One script call for each decision (`round-limits.ts` of the plugin): a round is admitted, a
credential round is reserved before its credential is verified and settled after, and a registration
start is counted. A script is one atomic step of the store. Every time that a key holds is the
store's clock and a key's own expiry drops what is over by then, so that keys do not expire here. A
member `<identifier>:<reservation>` is a pair, as neither part holds a colon.
-/

namespace QAuth.SignIn

open Guards

/-! ### Limits and alerts -/

/-- Which limit refused a round. -/
inductive RoundLimitName
  | endUserIp
  | endUserIpDelay
  | ipBucketDelay
  | clientDelay
  | clientRounds
  | registrationEndUserIp
  | registrationClient
deriving DecidableEq

/-- A threshold whose crossing alerts the operator. -/
inductive RoundLimitAlert
  | endUserIpBlocked
  | ipBucketIdentifiers
  | clientFailureRatio
  | clientFailureBudget
  | clientRounds
deriving DecidableEq

/-- How a reserved credential round ended. -/
inductive CredentialRoundOutcome
  | success
  | failure
  | withdrawn
deriving DecidableEq

/-! ### The keys -/

/-- The keys of one end-user IP: its failed and reserved credential rounds, and until when its block
and its delay hold. -/
structure IpRow where
  failures : SlidingLog String
  block : ℕ
  pace : ℕ

/-- The keys of one bucket: its failed rounds by identifier and reservation, the live entries of
each identifier, and until when its alert is held back. -/
structure BucketRow where
  failures : SlidingLog (String × String)
  identifiers : CountHash String
  alert : ℕ

/-- A member of a client's credential rounds. -/
inductive CredentialMember
  | round (reservation : String)
  | account (hash : String)
deriving DecidableEq

/-- The keys of one client. -/
structure ClientRow where
  rounds : SlidingLog String
  credential : SlidingLog CredentialMember
  failures : SlidingLog String
  pace : ℕ
  roundsAlert : ℕ
  ratioAlert : ℕ
  budgetAlert : ℕ

/-- The keys of one realm. -/
structure RoundStore where
  ips : String → IpRow
  buckets : String → BucketRow
  clients : String → ClientRow
  ipStarts : String → SlidingLog String
  clientStarts : String → SlidingLog String

/-- The end-user IP of a round, with its bucket. -/
structure EndUserKeys where
  ip : String
  bucket : Option String

/-- The rows that a round counts on. -/
structure RoundKeys where
  endUser : Option EndUserKeys
  client : Option String

def RoundKeys.ip (keys : RoundKeys) : Option String := keys.endUser.map (·.ip)

def RoundKeys.bucket (keys : RoundKeys) : Option String := keys.endUser.bind (·.bucket)

namespace RoundStore

/-- A realm without keys. -/
def empty : RoundStore where
  ips _ := { failures := .empty, block := 0, pace := 0 }
  buckets _ := { failures := .empty, identifiers := [], alert := 0 }
  clients _ :=
    { rounds := .empty, credential := .empty, failures := .empty, pace := 0, roundsAlert := 0
      ratioAlert := 0, budgetAlert := 0 }
  ipStarts _ := .empty
  clientStarts _ := .empty

variable (store : RoundStore)

/-- Write the row of an end-user IP, where the round has one. -/
def onIp (ip : Option String) (f : IpRow → IpRow) : RoundStore :=
  match ip with
  | none => store
  | some ip => { store with ips := Function.update store.ips ip (f (store.ips ip)) }

def onBucket (bucket : Option String) (f : BucketRow → BucketRow) : RoundStore :=
  match bucket with
  | none => store
  | some bucket =>
    { store with buckets := Function.update store.buckets bucket (f (store.buckets bucket)) }

def onClient (client : Option String) (f : ClientRow → ClientRow) : RoundStore :=
  match client with
  | none => store
  | some client =>
    { store with clients := Function.update store.clients client (f (store.clients client)) }

/-- Write the registration starts of an end-user IP, where the start has one. -/
def onIpStarts (ip : Option String) (f : SlidingLog String → SlidingLog String) : RoundStore :=
  match ip with
  | none => store
  | some ip => { store with ipStarts := Function.update store.ipStarts ip (f (store.ipStarts ip)) }

/-- Write the registration starts of a client, where the start has one. -/
def onClientStarts (client : Option String) (f : SlidingLog String → SlidingLog String) :
    RoundStore :=
  match client with
  | none => store
  | some client =>
    { store with
      clientStarts := Function.update store.clientStarts client (f (store.clientStarts client)) }

section Frame

variable {store : RoundStore} {key : Option String} {i : String}

theorem update_at {β : Type} {rows : String → β} {f : β → β} {key : String} :
    Function.update rows key (f (rows key)) i =
      if some key = some i then f (rows i) else rows i := by
  rw [Function.update_apply]
  by_cases h : i = key
  · rw [if_pos h, if_pos (congrArg some h.symm), h]
  · rw [if_neg h, if_neg fun heq ↦ h (Option.some.inj heq).symm]

@[simp] theorem ips_onIp {f : IpRow → IpRow} :
    (store.onIp key f).ips i = if key = some i then f (store.ips i) else store.ips i := by
  cases key with
  | none => rfl
  | some key => exact update_at

@[simp] theorem ips_onBucket {f : BucketRow → BucketRow} :
    (store.onBucket key f).ips = store.ips := by
  cases key <;> rfl

@[simp] theorem ips_onClient {f : ClientRow → ClientRow} :
    (store.onClient key f).ips = store.ips := by
  cases key <;> rfl

@[simp] theorem ips_onIpStarts {f : SlidingLog String → SlidingLog String} :
    (store.onIpStarts key f).ips = store.ips := by
  cases key <;> rfl

@[simp] theorem ips_onClientStarts {f : SlidingLog String → SlidingLog String} :
    (store.onClientStarts key f).ips = store.ips := by
  cases key <;> rfl

@[simp] theorem buckets_onClient {f : ClientRow → ClientRow} :
    (store.onClient key f).buckets = store.buckets := by
  cases key <;> rfl

@[simp] theorem buckets_onIpStarts {f : SlidingLog String → SlidingLog String} :
    (store.onIpStarts key f).buckets = store.buckets := by
  cases key <;> rfl

@[simp] theorem buckets_onClientStarts {f : SlidingLog String → SlidingLog String} :
    (store.onClientStarts key f).buckets = store.buckets := by
  cases key <;> rfl

@[simp] theorem clients_onIp {f : IpRow → IpRow} : (store.onIp key f).clients = store.clients := by
  cases key <;> rfl

@[simp] theorem clients_onBucket {f : BucketRow → BucketRow} :
    (store.onBucket key f).clients = store.clients := by
  cases key <;> rfl

@[simp] theorem clients_onClient {f : ClientRow → ClientRow} :
    (store.onClient key f).clients i =
      if key = some i then f (store.clients i) else store.clients i := by
  cases key with
  | none => rfl
  | some key => exact update_at

@[simp] theorem clients_onIpStarts {f : SlidingLog String → SlidingLog String} :
    (store.onIpStarts key f).clients = store.clients := by
  cases key <;> rfl

@[simp] theorem clients_onClientStarts {f : SlidingLog String → SlidingLog String} :
    (store.onClientStarts key f).clients = store.clients := by
  cases key <;> rfl

end Frame

end RoundStore

/-! ### What a row does -/

/-- The time until a full log has a place again, at least 1. -/
def slot {α : Type} (log : SlidingLog α) (now window limit : ℕ) : ℕ :=
  max 1 (log.timeFromLast limit + window - now)

namespace IpRow

variable (limits : EndUserIpLimits) (now : ℕ) (row : IpRow)

def prune : IpRow := { row with failures := row.failures.prune now limits.windowMs }

/-- Push the delay to `time`. -/
def extend (time : ℕ) : IpRow := { row with pace := max row.pace time }

def isFull : Bool := limits.hardFailures ≤ row.failures.card

def isSoft : Bool := limits.softFailures ≤ row.failures.card

/-- Count a reserved round, and start the delay of each soft threshold that holds. -/
def count (bucketLimits : IpBucketLimits) (ipIsSoft bucketIsSoft : Bool) (reservation : String) :
    IpRow :=
  let counted : IpRow := { row with failures := row.failures.add now reservation }
  let paced := if ipIsSoft then counted.extend (now + limits.delayMs) else counted
  if bucketIsSoft then paced.extend (now + bucketLimits.delayMs) else paced

/-- Whether a failure blocks the IP now. -/
def blocks : Bool := row.isFull limits && row.block ≤ now

@[simp] theorem prune_pace : (row.prune limits now).pace = row.pace := rfl

/-- A failure stays counted: at the hard limit it blocks, and a soft threshold starts the delay. -/
def fail : IpRow :=
  let blocked : IpRow :=
    if row.blocks limits now then { row with block := now + limits.blockMs } else row
  if row.isSoft limits then blocked.extend (now + limits.delayMs) else blocked

@[simp] theorem extend_failures (time : ℕ) : (row.extend time).failures = row.failures := rfl

@[simp] theorem count_failures (bucketLimits : IpBucketLimits) (ipIsSoft bucketIsSoft : Bool)
    (reservation : String) :
    (row.count limits now bucketLimits ipIsSoft bucketIsSoft reservation).failures =
      row.failures.add now reservation := by
  cases ipIsSoft <;> cases bucketIsSoft <;> rfl

@[simp] theorem fail_failures : (row.fail limits now).failures = row.failures := by
  rw [fail]
  split <;> split <;> rfl

end IpRow

namespace BucketRow

variable (limits : IpBucketLimits) (now : ℕ) (row : BucketRow)

/-- Prune the log, keeping the counts of the identifiers. -/
def prune : BucketRow :=
  { row with
    identifiers := (row.failures.gone now limits.windowMs).foldl (fun h member ↦ h.drop member.1)
      row.identifiers
    failures := row.failures.prune now limits.windowMs }

def isSoft : Bool := limits.maxIdentifiers < row.identifiers.length

def count (identifier reservation : String) : BucketRow :=
  { row with
    failures := row.failures.add now (identifier, reservation)
    identifiers := row.identifiers.incrBy identifier 1 }

/-- Take a round back, where the log still has it. -/
def takeBack (identifier reservation : String) : BucketRow :=
  if row.failures.has (identifier, reservation) then
    { row with
      failures := row.failures.remove (identifier, reservation)
      identifiers := row.identifiers.drop identifier }
  else row

end BucketRow

namespace ClientRow

variable (limits : ClientLimits) (now : ℕ) (row : ClientRow)

def prune : ClientRow :=
  { row with
    credential := row.credential.prune now limits.windowMs
    failures := row.failures.prune now limits.windowMs }

@[simp] theorem prune_pace : (row.prune limits now).pace = row.pace := rfl

/-- Failures above the ratio, over rounds enough to read it. -/
def overRatio : Bool :=
  limits.ratioMinRounds ≤ row.credential.card &&
    limits.ratioPercent * row.credential.card < row.failures.card * 100

def overBudget : Bool := limits.failureBudget < row.failures.card

def isSoft : Bool := row.overBudget limits || row.overRatio limits

/-- Push the delay to `time`. -/
def extend (time : ℕ) : ClientRow := { row with pace := max row.pace time }

/-- Count a reserved round, and start the delay where a soft threshold holds. -/
def count (clientIsSoft : Bool) (reservation : String) : ClientRow :=
  let counted : ClientRow :=
    { row with
      credential := row.credential.add now (.round reservation)
      failures := row.failures.add now reservation }
  if clientIsSoft then counted.extend (now + limits.delayMs) else counted

/-- A failure stays counted: a soft threshold starts the delay, and each alert is claimed. -/
def fail : ClientRow :=
  let paced := if row.isSoft limits then row.extend (now + limits.delayMs) else row
  { paced with
    ratioAlert :=
      if row.overRatio limits && row.ratioAlert ≤ now then now + limits.windowMs
      else row.ratioAlert
    budgetAlert :=
      if row.overBudget limits && row.budgetAlert ≤ now then now + limits.windowMs
      else row.budgetAlert }

/-- Take a round back: a withdrawal leaves nothing, a success counts once for its account. -/
def takeBack (outcome : CredentialRoundOutcome) (account : Option String) (reservation : String) :
    ClientRow :=
  { row with
    failures := row.failures.remove reservation
    credential :=
      if outcome = .withdrawn then row.credential.remove (.round reservation)
      else
        match account with
        | some account => (row.credential.remove (.round reservation)).add now (.account account)
        | none => row.credential }

end ClientRow

/-! ### The scripts -/

/-- What a decision script returns: whether a soft threshold holds, or the limit that refused, the
milliseconds until the round may come again, and the alert it raised. -/
inductive ScriptReply
  | admitted (soft : Bool)
  | refused (limit : RoundLimitName) (wait : ℕ) (alert : Option RoundLimitAlert)
deriving DecidableEq

variable (p : RoundLimitPolicy) (keys : RoundKeys) (now : ℕ) (store : RoundStore)

/-- Whether the soft threshold of the round's IP holds, in a pruned store. -/
def ipSoft : Bool := keys.ip.any fun ip ↦ (store.ips ip).isSoft p.endUserIp

def bucketSoft : Bool := keys.bucket.any fun bucket ↦ (store.buckets bucket).isSoft p.ipBucket

def clientSoft : Bool := keys.client.any fun client ↦ (store.clients client).isSoft p.client

/-- The store with the round's rows pruned. -/
def pruned : RoundStore :=
  ((store.onIp keys.ip (·.prune p.endUserIp now)).onBucket keys.bucket
    (·.prune p.ipBucket now)).onClient keys.client (·.prune p.client now)

/-- `ADMIT_ROUND_SCRIPT`. -/
def admitRoundScript (member : String) : ScriptReply × RoundStore :=
  match keys.ip.filter fun ip ↦ now < (store.ips ip).block with
  | some ip => (.refused .endUserIp ((store.ips ip).block - now) none, store)
  | none =>
    let store := store.onClient keys.client fun row ↦
      { row with rounds := row.rounds.prune now p.client.maxRoundsWindowMs }
    match keys.client.filter fun client ↦
      p.client.maxRounds ≤ (store.clients client).rounds.card with
    | some client =>
      let row := store.clients client
      let wait := slot row.rounds now p.client.maxRoundsWindowMs p.client.maxRounds
      if row.roundsAlert ≤ now then
        (.refused .clientRounds wait (some .clientRounds), store.onClient client fun row ↦
          { row with roundsAlert := now + p.client.maxRoundsWindowMs })
      else (.refused .clientRounds wait none, store)
    | none =>
      let store := pruned p keys now (store.onClient keys.client fun row ↦
        { row with rounds := row.rounds.add now member })
      (.admitted (ipSoft p keys store || bucketSoft p keys store || clientSoft p keys store), store)

/-- A pruned store once a reserved round is counted as a failed one of every row. -/
def counted (identifier : Option String) (reservation : String) : RoundStore :=
  ((store.onIp keys.ip (·.count p.endUserIp now p.ipBucket (ipSoft p keys store)
    (bucketSoft p keys store) reservation)).onBucket (identifier.bind fun _ ↦ keys.bucket)
    (·.count now (identifier.getD "") reservation)).onClient keys.client
    (·.count p.client now (clientSoft p keys store) reservation)

/-- `RESERVE_CREDENTIAL_SCRIPT`. -/
def reserveCredentialScript (identifier : Option String) (reservation : String) :
    ScriptReply × RoundStore :=
  match keys.ip.filter fun ip ↦ now < (store.ips ip).block with
  | some ip => (.refused .endUserIp ((store.ips ip).block - now) none, store)
  | none =>
    let store := store.onIp keys.ip (·.prune p.endUserIp now)
    match keys.ip.filter fun ip ↦ (store.ips ip).isFull p.endUserIp with
    | some ip =>
      let wait := slot (store.ips ip).failures now p.endUserIp.windowMs p.endUserIp.hardFailures
      (.refused .endUserIp wait none, store)
    | none =>
      let store := store.onBucket keys.bucket (·.prune p.ipBucket now)
      match keys.ip.filter fun ip ↦
        now < (store.ips ip).pace && (ipSoft p keys store || bucketSoft p keys store) with
      | some ip =>
        let limit := if ipSoft p keys store then .endUserIpDelay else .ipBucketDelay
        (.refused limit ((store.ips ip).pace - now) none, store)
      | none =>
        let store := store.onClient keys.client (·.prune p.client now)
        match keys.client.filter fun client ↦
          clientSoft p keys store && now < (store.clients client).pace with
        | some client => (.refused .clientDelay ((store.clients client).pace - now) none, store)
        | none => (.admitted false, counted p keys now store identifier reservation)

def failureAlerts : List RoundLimitAlert :=
  (if keys.ip.any fun ip ↦ (store.ips ip).blocks p.endUserIp now then [.endUserIpBlocked]
    else []) ++
    (if keys.bucket.any fun bucket ↦
        (store.buckets bucket).isSoft p.ipBucket && (store.buckets bucket).alert ≤ now then
      [.ipBucketIdentifiers] else []) ++
    (if keys.client.any fun client ↦
        (store.clients client).overRatio p.client && (store.clients client).ratioAlert ≤ now then
      [.clientFailureRatio] else []) ++
    if keys.client.any fun client ↦
        (store.clients client).overBudget p.client && (store.clients client).budgetAlert ≤ now then
      [.clientFailureBudget] else []

/-- `SETTLE_CREDENTIAL_SCRIPT`. -/
def settleCredentialScript (identifier account : Option String) (outcome : CredentialRoundOutcome)
    (reservation : String) : List RoundLimitAlert × RoundStore :=
  if outcome = .failure then
    let store := pruned p keys now store
    (failureAlerts p keys now store,
      ((store.onIp keys.ip fun row ↦
          if bucketSoft p keys store then
            (row.fail p.endUserIp now).extend (now + p.ipBucket.delayMs)
          else row.fail p.endUserIp now).onBucket keys.bucket fun row ↦
        if row.isSoft p.ipBucket && row.alert ≤ now then
          { row with alert := now + p.ipBucket.windowMs }
        else row).onClient keys.client (·.fail p.client now))
  else
    ([], ((store.onIp keys.ip fun row ↦
        { row with failures := row.failures.remove reservation }).onBucket
      (identifier.bind fun _ ↦ keys.bucket) (·.takeBack (identifier.getD "") reservation)).onClient
        keys.client (·.takeBack now outcome account reservation))

/-- `REGISTRATION_START_SCRIPT`. -/
def registrationStartScript (member : String) : ScriptReply × RoundStore :=
  let ipStarts := p.registrationStarts.endUserIp
  let clientStarts := p.registrationStarts.client
  let store := store.onIpStarts keys.ip (·.prune now ipStarts.windowMs)
  match keys.ip.filter fun ip ↦ ipStarts.limit ≤ (store.ipStarts ip).card with
  | some ip =>
    (.refused .registrationEndUserIp
      (slot (store.ipStarts ip) now ipStarts.windowMs ipStarts.limit) none, store)
  | none =>
    let store := store.onClientStarts keys.client (·.prune now clientStarts.windowMs)
    match keys.client.filter fun client ↦
      clientStarts.limit ≤ (store.clientStarts client).card with
    | some client =>
      (.refused .registrationClient
        (slot (store.clientStarts client) now clientStarts.windowMs clientStarts.limit) none, store)
    | none =>
      (.admitted false, (store.onIpStarts keys.ip (·.add now member)).onClientStarts keys.client
        (·.add now member))

/-! ### The store -/

/-- The keys of one round. -/
structure RoundLimitKeys where
  realmId : String
  environment : RoundEnvironment
  endUserIpHmac : Option String
  ipBucketHmac : Option String
  clientKey : Option String

/-- One credential round that is reserved or settled. -/
structure CredentialRoundKeys extends RoundLimitKeys where
  reservation : String
  identifierHmac : Option String

/-- What a store decided about a round, a reservation or a registration start. -/
inductive RoundLimitDecision
  | admitted (softThreshold : Bool)
  | refused (limit : RoundLimitName) (retryAfterMs : ℕ) (alerts : List RoundLimitAlert)

/-- Read a decision script's reply. -/
def decisionOf : ScriptReply → RoundLimitDecision
  | .admitted soft => .admitted soft
  | .refused limit wait alert => .refused limit (max 1 wait) alert.toList

/-- A key part, checked. -/
def part (value what : String) : Except String String := do
  refuseIf (¬ isKeyPart value) ("round limits: " ++ what ++ " out of shape")
  return value

/-- The round limits over Redis, which are created only where the policy passes its check. The key
of a client or an account is the SHA-256 of its id. -/
structure RedisRoundLimits where
  policies : RoundLimitPolicies
  hashPart : String → String
  accepted : ∃ policy, roundLimitPolicies policy = .ok policies

/-- The keys of every realm. -/
abbrev RoundKeyspace := String → RoundStore

namespace RedisRoundLimits

variable (limits : RedisRoundLimits) (now : ℕ) (space : RoundKeyspace)

theorem sound (environment : RoundEnvironment) :
    (roundLimitPolicyFor environment limits.policies).Sound := by
  obtain ⟨policy, h⟩ := limits.accepted
  exact sound_roundLimitPolicyFor h environment

/-- The rows of a round; a bucket is counted only with its address. -/
def rows (keys : RoundLimitKeys) : Except String RoundKeys := do
  let client := keys.clientKey.map limits.hashPart
  match keys.endUserIpHmac with
  | none => return { endUser := none, client }
  | some ip =>
    let ip ← part ip "an IP HMAC"
    match keys.ipBucketHmac with
    | none => return { endUser := some { ip, bucket := none }, client }
    | some bucket =>
      let bucket ← part bucket "a bucket HMAC"
      return { endUser := some { ip, bucket := some bucket }, client }

def credentialArgs (round : CredentialRoundKeys) : Except String (String × Option String) := do
  let reservation ← part round.reservation "a reservation"
  match round.identifierHmac with
  | none => return (reservation, none)
  | some identifier =>
    let identifier ← part identifier "an identifier HMAC"
    return (reservation, some identifier)

/-- One script call on the keys of a realm. -/
def run {α : Type} (realmId : String) (script : RoundStore → α × RoundStore) :
    Except String (α × RoundKeyspace) := do
  let realm ← part realmId "a realm id"
  return ((script (space realm)).1, Function.update space realm (script (space realm)).2)

/-- Rule 3, every round. The member is unique to the round. -/
def admitRound (keys : RoundLimitKeys) (member : String) :
    Except String (RoundLimitDecision × RoundKeyspace) := do
  let p := roundLimitPolicyFor keys.environment limits.policies
  let r ← limits.rows keys
  let (reply, space) ← run space keys.realmId fun store ↦ admitRoundScript p r now store member
  return (decisionOf reply, space)

/-- Reserve a credential round before its credential is verified. -/
def reserveCredential (round : CredentialRoundKeys) :
    Except String (RoundLimitDecision × RoundKeyspace) := do
  let p := roundLimitPolicyFor round.environment limits.policies
  let r ← limits.rows round.toRoundLimitKeys
  let (reservation, identifier) ← credentialArgs round
  let (reply, space) ← run space round.realmId fun store ↦
    reserveCredentialScript p r now store identifier reservation
  return (decisionOf reply, space)

def settleCredential (round : CredentialRoundKeys) (outcome : CredentialRoundOutcome)
    (accountKey : Option String) : Except String (List RoundLimitAlert × RoundKeyspace) := do
  let p := roundLimitPolicyFor round.environment limits.policies
  let r ← limits.rows round.toRoundLimitKeys
  let (reservation, identifier) ← credentialArgs round
  let account := accountKey.map limits.hashPart
  run space round.realmId fun store ↦
    settleCredentialScript p r now store identifier account outcome reservation

/-- Decide a registration start and, unless refused, count it. -/
def reserveRegistrationStart (keys : RoundLimitKeys) (member : String) :
    Except String (RoundLimitDecision × RoundKeyspace) := do
  let p := roundLimitPolicyFor keys.environment limits.policies
  let r ← limits.rows keys
  let (reply, space) ← run space keys.realmId fun store ↦
    registrationStartScript p r now store member
  return (decisionOf reply, space)

end RedisRoundLimits

end QAuth.SignIn
