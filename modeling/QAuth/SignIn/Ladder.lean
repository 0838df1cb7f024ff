import Mathlib.Data.String.Basic
import Mathlib.Data.Prod.Lex
import QAuth.Foundation.Table
import QAuth.SignIn.LadderPolicy

/-!
# The failure ladder in Redis

Every counter that gates a verification is reserved before the verifier runs, by one script call
that reads the counter's wait, refuses an attempt inside it and counts any other, and is settled
once the credential is checked (`failure-ladder.ts`). A script is one atomic step of the store, so
it is a function of the store.
-/

namespace QAuth.SignIn

open Guards

/-! ### Keys -/

/-- An authenticator type the engine ranks or asks for. -/
inductive FactorType
  | password
  | passkey
  | totp
deriving DecidableEq

/-- A counter of the failure ladder: one per factor, the email codes' and the recovery codes'. -/
inductive LadderCounter
  | factor (type : FactorType)
  | emailCode
  | recoveryCode
deriving DecidableEq

/-- Whose counters a ladder call reads. -/
inductive LadderSubject
  | identifier (hmac : String)
  | user (id : String)

/-- `sign-in-ladder:{realmId:part}:factor`. -/
structure CounterKey where
  realmId : String
  part : String
  factor : LadderCounter
deriving DecidableEq

/-- `sign-in-ladder:{realmId:part}:known-ips`. -/
structure KnownIpsKey where
  realmId : String
  part : String
deriving DecidableEq

/-- The counter key of one counter of one identifier or account in one realm. -/
def ladderCounterKey (realmId part : String) (factor : LadderCounter) : CounterKey where
  realmId := realmId
  part := part
  factor := factor

/-- The known-IP key of a counter's subject. -/
def CounterKey.knownIps (key : CounterKey) : KnownIpsKey where
  realmId := key.realmId
  part := key.part

/-- `KEY_PART`: what a key part may hold. -/
def isKeyPart (part : String) : Bool :=
  1 ≤ part.length && part.length ≤ 64 &&
    part.toList.all fun c ↦
      ('A' ≤ c && c ≤ 'Z') || ('a' ≤ c && c ≤ 'z') || ('0' ≤ c && c ≤ '9') || c = '_' || c = '-'

/-- The counters keyed on the account rather than an identifier. -/
def ACCOUNT_COUNTERS : List LadderCounter := [.recoveryCode, .factor .totp]

/-- The counter's name in its key and in an error. -/
def LadderCounter.word : LadderCounter → String
  | .factor .password => "password"
  | .factor .passkey => "passkey"
  | .factor .totp => "totp"
  | .emailCode => "email_code"
  | .recoveryCode => "recovery_code"

def subjectPart (realmId : String) (subject : LadderSubject) (factor : LadderCounter) :
    Except String String :=
  match subject with
  | .user id => do
    refuseIf (factor ∉ ACCOUNT_COUNTERS)
      ("sign-in ladder: the " ++ factor.word ++ " counter is an identifier's")
    refuseIf (¬ (isKeyPart realmId ∧ isKeyPart id))
      "sign-in ladder: a realm id or a user id out of shape"
    return "user:" ++ id
  | .identifier hmac => do
    refuseIf (factor ∈ ACCOUNT_COUNTERS)
      ("sign-in ladder: the " ++ factor.word ++ " counter is the account's")
    refuseIf (¬ (isKeyPart realmId ∧ isKeyPart hmac))
      "sign-in ladder: a realm id or an identifier HMAC out of shape"
    return hmac

/-! ### The keyspace -/

/-- The id of a run, drawn with its first attempt. -/
abbrev RunId := String

/-- The hash of one counter. -/
structure Counter where
  /-- The run's consecutive counted failures. -/
  n : ℕ
  /-- Until when an attempt waits. -/
  waitUntil : ℕ
  run : RunId
  /-- How many of the counted failures came from known IPs; 0 while the field is not written. -/
  k : ℕ
  expireAt : ℕ
deriving DecidableEq

/-- The sorted set of the end-user IPs known to one account: the keyed HMAC of each, scored by its
last successful sign-in. -/
structure KnownIps where
  members : List (String × ℕ)
  expireAt : ℕ

/-- The keys of the ladder. -/
structure Store where
  counters : CounterKey → Option Counter
  knownIps : KnownIpsKey → Option KnownIps

namespace Store

/-- The keyspace with no key. -/
def empty : Store where
  counters _ := none
  knownIps _ := none

/-- The hash of a counter, unless its time is past. -/
def counter (store : Store) (now : ℕ) (key : CounterKey) : Option Counter :=
  (store.counters key).filter (now ≤ ·.expireAt)

/-- The members of a sorted set, unless its time is past. -/
def members (store : Store) (now : ℕ) (key : KnownIpsKey) : List (String × ℕ) :=
  match (store.knownIps key).filter (now ≤ ·.expireAt) with
  | some ips => ips.members
  | none => []

/-- `ZSCORE`. -/
def score (store : Store) (now : ℕ) (key : KnownIpsKey) (ip : String) : Option ℕ :=
  (store.members now key).lookup ip

def setCounter (store : Store) (key : CounterKey) (counter : Counter) : Store :=
  { store with counters := Function.update store.counters key (some counter) }

/-- `DEL`. -/
def del (store : Store) (key : CounterKey) : Store :=
  { store with counters := Function.update store.counters key none }

def setKnownIps (store : Store) (key : KnownIpsKey) (ips : KnownIps) : Store :=
  { store with knownIps := Function.update store.knownIps key (some ips) }

variable {store : Store} {now : ℕ} {key key' : CounterKey} {counter counter' : Counter}

theorem counter_eq_some_iff :
    store.counter now key = some counter ↔
      store.counters key = some counter ∧ now ≤ counter.expireAt := by
  rw [Store.counter, Option.filter_eq_some_iff]
  simp

@[simp] theorem counters_setCounter_self :
    (store.setCounter key counter).counters key = some counter :=
  Function.update_self ..

@[simp] theorem counters_setCounter_of_ne (h : key' ≠ key) :
    (store.setCounter key counter).counters key' = store.counters key' :=
  Function.update_of_ne h ..

@[simp] theorem counters_del_self : (store.del key).counters key = none :=
  Function.update_self ..

@[simp] theorem counters_del_of_ne (h : key' ≠ key) :
    (store.del key).counters key' = store.counters key' :=
  Function.update_of_ne h ..

@[simp] theorem counters_setKnownIps {ipsKey : KnownIpsKey} {ips : KnownIps} :
    (store.setKnownIps ipsKey ips).counters = store.counters :=
  rfl

end Store

/-! ### The scripts -/

/-- Whether the script takes the attempt's address for known. -/
def isKnown (policy : LadderPolicy) (now : ℕ) (ip : String) (seen : Option ℕ) : Bool :=
  0 < policy.knownIpMs && ip ≠ "" &&
    match seen with
    | some seen => (now : ℤ) - seen < policy.knownIpMs
    | none => false

/-- The wait that the script sets after the `n`-th counted failure. -/
def scriptWaitMs (n : ℕ) (policy : LadderPolicy) : ℕ :=
  if policy.freeFailures ≤ n then
    let doublings := n - policy.freeFailures
    if 40 ≤ doublings then policy.maxWaitMs
    else min (Double.mul policy.firstWaitMs (2 ^ doublings)) policy.maxWaitMs
  else 0

/-- The script sets the wait that `ladderWaitMs` says. -/
theorem scriptWaitMs_eq (n : ℕ) (policy : LadderPolicy) :
    scriptWaitMs n policy = ladderWaitMs n policy := by
  rw [scriptWaitMs, ladderWaitMs]
  by_cases h : n < policy.freeFailures
  · rw [if_neg (Nat.not_le_of_lt h), if_pos h]
  · rw [if_pos (Nat.le_of_not_lt h), if_neg h]
    rfl

/-- How long a counter with `n` failures is kept. -/
def keptMs (n : ℕ) (policy : LadderPolicy) : ℕ :=
  if policy.freeFailures ≤ n then policy.retentionMs else policy.freeRetentionMs

/-- What `RESERVE_SCRIPT` returns. -/
inductive ReserveReply
  | waits (msLeft : ℕ)
  | counted (n : ℕ) (run : RunId)

/-- `RESERVE_SCRIPT`: refuse an attempt inside the wait, count any other. -/
def reserveScript (policy : LadderPolicy) (key : CounterKey) (now : ℕ) (ip : String)
    (newRun : RunId) (store : Store) : ReserveReply × Store :=
  let known := isKnown policy now ip (store.score now key.knownIps ip)
  let state := store.counter now key
  let n := (state.map (·.n)).getD 0
  let waitUntil := (state.map (·.waitUntil)).getD 0
  let run := (state.map (·.run)).getD newRun
  let k := (state.map (·.k)).getD 0
  if now < waitUntil ∧ ¬ (known ∧ k < policy.knownIpFreeFailures) then
    (.waits (waitUntil - now), store)
  else
    let next : Counter :=
      { n := n + 1
        waitUntil := max (Double.add now (scriptWaitMs (n + 1) policy)) waitUntil
        run := run
        k := if known then k + 1 else k
        expireAt := now + keptMs (n + 1) policy }
    (.counted (n + 1) run, store.setCounter key next)

/-- The most end-user IPs an account keeps known; the oldest goes first. -/
def LADDER_MAX_KNOWN_IPS : ℕ := 16

/-- The known addresses once `ip` has signed in: those past their time are dropped, then the
stalest past the cap. -/
def rememberIp (knownIpMs now : ℕ) (ip : String) (members : List (String × ℕ)) :
    List (String × ℕ) :=
  let added := Table.upsert members ip now
  let recent := added.filter fun member ↦ now < member.2 + knownIpMs
  (Table.orderBy (fun member : String × ℕ ↦ toLex (member.2, member.1)) recent).drop
    (recent.length - LADDER_MAX_KNOWN_IPS)

/-- `SETTLE_SUCCESS_SCRIPT`: act on the reservation's own run, then remember the address. -/
def settleSuccessScript (policy : LadderPolicy) (key : CounterKey) (now : ℕ) (run : RunId)
    (ip : String) (store : Store) : Store :=
  let settled :=
    match store.counter now key with
    | some counter =>
      if counter.run = run then
        match policy.onSuccess with
        | .clear => store.del key
        | .withdraw =>
          if counter.n ≤ 1 then store.del key
          else store.setCounter key { counter with n := counter.n - 1 }
      else store
    | none => store
  if 0 < policy.knownIpMs ∧ ip ≠ "" then
    settled.setKnownIps key.knownIps
      { members := rememberIp policy.knownIpMs now ip (store.members now key.knownIps)
        expireAt := now + policy.knownIpMs }
  else settled

/-! ### The ladder -/

/-- The failure ladder over Redis, which is created only where each policy passes its check: the
rules of each counter's ladder, and the keyed HMAC that an end-user IP is kept known under in a
realm. -/
structure Ladder where
  policies : LadderCounter → Option LadderPolicy
  ipDigest : String → String → String
  accepted : ∀ factor policy, policies factor = some policy →
    checkLadderPolicy policy = .ok policy

theorem Ladder.sound (ladder : Ladder) {factor : LadderCounter} {policy : LadderPolicy}
    (h : ladder.policies factor = some policy) : policy.Sound :=
  sound_of_checkLadderPolicy (ladder.accepted factor policy h)

/-- A reserved attempt. -/
structure Reservation where
  key : CounterKey
  policy : LadderPolicy
  /-- The HMAC of the attempt's end-user IP; empty for none. -/
  ip : String
  run : RunId
  failures : ℕ
deriving DecidableEq

/-- The ladder's answer to a reservation. -/
inductive LadderVerdict
  | reserved (reservation : Reservation)
  | wait (retryAfterSeconds : ℕ)

/-- What a caller asks the ladder for. -/
structure ReserveInput where
  realmId : String
  subject : LadderSubject
  factor : LadderCounter
  endUserIp : Option String

/-- The HMAC that the attempt's address is known under, or nothing where the ladder needs none. -/
def Ladder.ipOf (ladder : Ladder) (policy : LadderPolicy) (realmId : String)
    (endUserIp : Option String) : String :=
  match endUserIp with
  | some ip => if 0 < policy.knownIpMs ∧ ip ≠ "" then ladder.ipDigest realmId ip else ""
  | none => ""

/-- Reserve an attempt before its credential is verified. -/
def Ladder.reserve (ladder : Ladder) (input : ReserveInput) (now : ℕ) (newRun : RunId)
    (store : Store) : Except String (LadderVerdict × Store) := do
  let policy ← require (ladder.policies input.factor)
    ("sign-in ladder: no ladder for " ++ input.factor.word)
  let part ← subjectPart input.realmId input.subject input.factor
  let key := ladderCounterKey input.realmId part input.factor
  let ip := ladder.ipOf policy input.realmId input.endUserIp
  match reserveScript policy key now ip newRun store with
  | (.waits msLeft, store) => return (.wait ((msLeft + 999) / 1000), store)
  | (.counted failures run, store) =>
    return (.reserved { key, policy, ip, run, failures }, store)

/-- How an attempt came out. -/
inductive Outcome
  | success
  | failure
deriving DecidableEq

/-- Settle a reserved attempt: whether the hard action is due, and the keyspace. -/
def settle (reservation : Reservation) (outcome : Outcome) (remember : Bool) (now : ℕ)
    (store : Store) : Bool × Store :=
  match outcome with
  | .success =>
    (false, settleSuccessScript reservation.policy reservation.key now reservation.run
      (if remember then reservation.ip else "") store)
  | .failure =>
    match reservation.policy.hardCeiling with
    | none => (false, store)
    | some ceiling =>
      if reservation.failures < ceiling then (false, store)
      else ((store.counter now reservation.key).map (·.run) = some reservation.run, store)

/-! ### The default policies -/

def EMAIL_CODE_LADDER_POLICY : LadderPolicy :=
  { PASSWORD_LADDER_POLICY with hardCeiling := none }

def RECOVERY_CODE_LADDER_POLICY : LadderPolicy where
  freeFailures := 5
  firstWaitMs := 1000
  maxWaitMs := 15 * 60000
  hardCeiling := some 100
  knownIpMs := 0
  knownIpFreeFailures := 0
  retentionMs := 30 * DAY_MS
  freeRetentionMs := 30 * DAY_MS
  onSuccess := .clear

def TOTP_LADDER_POLICY : LadderPolicy := RECOVERY_CODE_LADDER_POLICY

/-- The rules that the ladder takes when it is given none. -/
def defaultPolicies : LadderCounter → Option LadderPolicy
  | .factor .password => some PASSWORD_LADDER_POLICY
  | .factor .passkey => none
  | .factor .totp => some TOTP_LADDER_POLICY
  | .emailCode => some EMAIL_CODE_LADDER_POLICY
  | .recoveryCode => some RECOVERY_CODE_LADDER_POLICY

/-- The default policies pass their own check. -/
theorem checkLadderPolicy_defaultPolicies (factor : LadderCounter) (policy : LadderPolicy)
    (h : defaultPolicies factor = some policy) : checkLadderPolicy policy = .ok policy := by
  have hpassword : checkLadderPolicy PASSWORD_LADDER_POLICY = .ok PASSWORD_LADDER_POLICY := by
    decide +kernel
  have hemail : checkLadderPolicy EMAIL_CODE_LADDER_POLICY = .ok EMAIL_CODE_LADDER_POLICY := by
    decide
  have hrecovery :
      checkLadderPolicy RECOVERY_CODE_LADDER_POLICY = .ok RECOVERY_CODE_LADDER_POLICY := by
    decide +kernel
  rcases factor with type | _ | _
  · cases type <;> cases h
    exacts [hpassword, hrecovery]
  · cases h
    exact hemail
  · cases h
    exact hrecovery

end QAuth.SignIn
