import QAuth.SignIn.Ladder

/-!
# The ladder in memory

The ladder that the engine's tests run on (`memory-ladder.ts`), beside the ladder in Redis: the same
calls are made to both at the same times, and what they answer and keep is compared. A reservation
is named by its place among those made.
-/

namespace QAuth.SignIn

open Guards

/-! ### The ladder in memory -/

/-- One counter's state in memory. -/
structure MemoryRun where
  /-- Consecutive counted failures of the run. -/
  failures : ℕ
  waitUntil : ℕ
  /-- The run's number. -/
  run : ℕ
  expiresAt : ℕ
  /-- How many of the counted failures came from known IPs. -/
  knownIpFailures : ℕ

/-- The maps of the ladder in memory, and how many runs it began. -/
structure Memory where
  counters : CounterKey → Option MemoryRun
  /-- The addresses known to an account, with when each last signed in. -/
  known : KnownIpsKey → String → Option ℕ
  runs : ℕ

/-- The rules that the ladder in memory is created with. -/
structure MemoryPolicies where
  factorPolicy : LadderPolicy
  emailCodePolicy : LadderPolicy
  recoveryCodePolicy : LadderPolicy
  totpPolicy : LadderPolicy

def MemoryPolicies.policyOf (policies : MemoryPolicies) : LadderCounter → LadderPolicy
  | .emailCode => policies.emailCodePolicy
  | .recoveryCode => policies.recoveryCodePolicy
  | .factor .totp => policies.totpPolicy
  | .factor _ => policies.factorPolicy

/-- The key that a ladder call names its subject by. -/
def memoryLadderSubject : LadderSubject → String
  | .user id => "user:" ++ id
  | .identifier hmac => hmac

/-- The counter that a call is about, in memory. -/
def ReserveInput.key (input : ReserveInput) : CounterKey :=
  ladderCounterKey input.realmId (memoryLadderSubject input.subject) input.factor

/-- A reserved attempt of the ladder in memory. -/
structure MemoryReservation where
  key : CounterKey
  policy : LadderPolicy
  endUserIp : Option String
  run : ℕ
  failures : ℕ

/-- The ladder's answer to a reservation. -/
inductive MemoryVerdict
  | reserved (reservation : MemoryReservation)
  | wait (retryAfterSeconds : ℕ)

namespace Memory

/-- Nothing is counted. -/
def empty : Memory where
  counters _ := none
  known _ _ := none
  runs := 0

def set (memory : Memory) (key : CounterKey) (state : MemoryRun) : Memory :=
  { memory with counters := Function.update memory.counters key (some state) }

def delete (memory : Memory) (key : CounterKey) : Memory :=
  { memory with counters := Function.update memory.counters key none }

/-- A counter's state; one past its time is deleted. -/
def live (memory : Memory) (now : ℕ) (key : CounterKey) : Option MemoryRun × Memory :=
  match memory.counters key with
  | none => (none, memory)
  | some state =>
    if state.expiresAt ≤ now then (none, memory.delete key) else (some state, memory)

/-- Whether an attempt's address is known to its account. -/
def knows (memory : Memory) (policy : LadderPolicy) (now : ℕ) (key : KnownIpsKey)
    (endUserIp : Option String) : Bool :=
  0 < policy.knownIpMs &&
    (endUserIp.bind (memory.known key)).any fun seen : ℕ ↦ (now : ℤ) - seen < policy.knownIpMs

/-- Reserve an attempt before its credential is verified. -/
def reserve (policies : MemoryPolicies) (input : ReserveInput) (now : ℕ) (memory : Memory) :
    MemoryVerdict × Memory :=
  let key := input.key
  let policy := policies.policyOf input.factor
  let knownIp := memory.knows policy now key.knownIps input.endUserIp
  let state := (memory.live now key).1
  let kept := (memory.live now key).2
  let knownIpFailures := (state.map (·.knownIpFailures)).getD 0
  let waitUntil := (state.map (·.waitUntil)).getD 0
  if now < waitUntil ∧ ¬ (knownIp ∧ knownIpFailures < policy.knownIpFreeFailures) then
    (.wait ((waitUntil - now + 999) / 1000), kept)
  else
    let failures := (state.map (·.failures)).getD 0 + 1
    let run := (state.map (·.run)).getD (kept.runs + 1)
    let next : MemoryRun :=
      { failures
        -- An exempt attempt never shortens a wait already set.
        waitUntil := max (Double.add now (ladderWaitMs failures policy)) waitUntil
        run
        expiresAt := now + keptMs failures policy
        knownIpFailures := if knownIp then knownIpFailures + 1 else knownIpFailures }
    (.reserved { key, policy, endUserIp := input.endUserIp, run, failures },
      { kept.set key next with runs := if state.isNone then kept.runs + 1 else kept.runs })

/-- End the run of a success, or take its attempt back: `clear` deletes whatever run there is. -/
def settleCounter (r : MemoryReservation) (now : ℕ) (memory : Memory) : Memory :=
  let current := (memory.live now r.key).1
  let kept := (memory.live now r.key).2
  match r.policy.onSuccess with
  | .clear => kept.delete r.key
  | .withdraw =>
    match current.filter (·.run = r.run) with
    | none => kept
    | some state =>
      if state.failures ≤ 1 then kept.delete r.key
      else kept.set r.key { state with failures := state.failures - 1 }

/-- An address that signed in is known from then on. -/
def remember (key : KnownIpsKey) (ip : String) (now : ℕ) (memory : Memory) : Memory :=
  { memory with
    known := Function.update memory.known key
      (Function.update (memory.known key) ip (some now)) }

/-- Settle a reserved attempt: whether the hard action is due, and the maps. -/
def settle (r : MemoryReservation) (outcome : Outcome) (rememberIp : Bool) (now : ℕ)
    (memory : Memory) : Bool × Memory :=
  match outcome with
  | .success =>
    let settled := memory.settleCounter r now
    match r.endUserIp with
    | some ip =>
      (false, if 0 < r.policy.knownIpMs ∧ rememberIp then settled.remember r.key.knownIps ip now
        else settled)
    | none => (false, settled)
  | .failure =>
    let current := (memory.live now r.key).1
    (match r.policy.hardCeiling with
      | none => false
      | some ceiling => ceiling ≤ r.failures && current.any (·.run = r.run),
      (memory.live now r.key).2)

end Memory

/-! ### The two ladders -/

/-- A call, made to both ladders; the run id is what the ladder in Redis draws. -/
inductive TwinCall
  | tick (ms : ℕ)
  | reserve (input : ReserveInput) (newRun : RunId)
  /-- Settle the reservation at this place. -/
  | settle (place : ℕ) (outcome : Outcome) (rememberIp : Bool)

/-- What a ladder answers. -/
inductive TwinAnswer
  | nothing
  | reserved
  | waits (retryAfterSeconds : ℕ)
  | settled (ceilingReached : Bool)
  | threw

/-- The ladder in memory, its clock, and the reservations made, each with whether it was settled. -/
structure MemoryState where
  now : ℕ
  ladder : Memory
  reservations : List (MemoryReservation × Bool)

def MemoryState.start : MemoryState where
  now := 0
  ladder := .empty
  reservations := []

def MemoryState.step (policies : MemoryPolicies) (m : MemoryState) :
    TwinCall → TwinAnswer × MemoryState
  | .tick ms => (.nothing, { m with now := m.now + ms })
  | .reserve input _ =>
    match m.ladder.reserve policies input m.now with
    | (.wait seconds, ladder) => (.waits seconds, { m with ladder })
    | (.reserved r, ladder) =>
      (.reserved, { m with ladder, reservations := m.reservations ++ [(r, false)] })
  | .settle place outcome rememberIp =>
    match m.reservations[place]? with
    | some (r, false) =>
      (.settled (m.ladder.settle r outcome rememberIp m.now).1,
        { m with
          ladder := (m.ladder.settle r outcome rememberIp m.now).2
          reservations := m.reservations.set place (r, true) })
    | _ => (.threw, m)

/-- The ladder in Redis, its clock, the run ids it drew, and the reservations made, each with
whether it was settled. -/
structure RedisState where
  now : ℕ
  store : Store
  drawn : List RunId
  reservations : List (Reservation × Bool)

def RedisState.start : RedisState where
  now := 0
  store := .empty
  drawn := []
  reservations := []

def RedisState.step (ladder : Ladder) (r : RedisState) : TwinCall → TwinAnswer × RedisState
  | .tick ms => (.nothing, { r with now := r.now + ms })
  | .reserve input newRun =>
    match ladder.reserve input r.now newRun r.store with
    | .error _ => (.threw, r)
    | .ok (.wait seconds, store) =>
      (.waits seconds, { r with store, drawn := newRun :: r.drawn })
    | .ok (.reserved reservation, store) =>
      (.reserved, { r with
        store
        drawn := newRun :: r.drawn
        reservations := r.reservations ++ [(reservation, false)] })
  | .settle place outcome rememberIp =>
    match r.reservations[place]? with
    | some (reservation, false) =>
      (.settled (settle reservation outcome rememberIp r.now r.store).1,
        { r with
          store := (settle reservation outcome rememberIp r.now r.store).2
          reservations := r.reservations.set place (reservation, true) })
    | _ => (.threw, r)

/-- The answers to some calls, and where they lead. -/
def runCalls {σ : Type} (step : σ → TwinCall → TwinAnswer × σ) :
    σ → List TwinCall → List TwinAnswer × σ
  | s, [] => ([], s)
  | s, call :: calls =>
    ((step s call).1 :: (runCalls step (step s call).2 calls).1,
      (runCalls step (step s call).2 calls).2)

/-- What a counter says to a test: its failures, its wait, its end, and its known addresses'. -/
def MemoryRun.seen (state : MemoryRun) : ℕ × ℕ × ℕ × ℕ :=
  (state.failures, state.waitUntil, state.expiresAt, state.knownIpFailures)

def Counter.seen (counter : Counter) : ℕ × ℕ × ℕ × ℕ :=
  (counter.n, counter.waitUntil, counter.expireAt, counter.k)

/-! ### Where they agree -/

/-- The counter is not read at the very millisecond of its end, when Redis still keeps it. -/
def RedisState.NotAtEnd (r : RedisState) (key : CounterKey) : Prop :=
  ∀ counter, r.store.counters key = some counter → counter.expireAt ≠ r.now

/-- The calls on which the two ladders agree. -/
def Within (ladder : Ladder) (r : RedisState) : TwinCall → Prop
  | .tick _ => True
  | .reserve input newRun =>
    newRun ∉ r.drawn ∧ input.endUserIp ≠ some "" ∧
      (∃ policy, ladder.policies input.factor = some policy) ∧
      ∃ part, subjectPart input.realmId input.subject input.factor = .ok part ∧
        r.NotAtEnd (ladderCounterKey input.realmId part input.factor)
  | .settle place outcome rememberIp =>
    ∀ reservation, r.reservations[place]? = some (reservation, false) →
      r.NotAtEnd reservation.key ∧
        (outcome = .success →
          -- A success that clears finds its own run, or none.
          (reservation.policy.onSuccess = .clear →
            ∀ counter, r.store.counter r.now reservation.key = some counter →
              counter.run = reservation.run) ∧
          -- No address is dropped for there being too many.
          (rememberIp = true → reservation.ip ≠ "" →
            ((Table.upsert (r.store.members r.now reservation.key.knownIps) reservation.ip
              r.now).filter fun member ↦
                r.now < member.2 + reservation.policy.knownIpMs).length ≤ LADDER_MAX_KNOWN_IPS))

/-- Every one of some calls is within. -/
def AllWithin (ladder : Ladder) : RedisState → List TwinCall → Prop
  | _, [] => True
  | r, call :: calls => Within ladder r call ∧ AllWithin ladder (r.step ladder call).2 calls

/-! ### The simulation -/

/-- The ladders run on the same rules: each counter that Redis has a ladder for has it in memory,
one known time is used wherever an address counts, and an address is digested without collision. -/
structure SameRules (ladder : Ladder) (policies : MemoryPolicies) (window : ℕ) : Prop where
  same : ∀ factor policy, ladder.policies factor = some policy → policies.policyOf factor = policy
  window : ∀ factor policy, ladder.policies factor = some policy →
    policy.knownIpMs = 0 ∨ policy.knownIpMs = window
  digest_ne : ∀ realmId ip, ladder.ipDigest realmId ip ≠ ""
  digest_injective : ∀ realmId, Function.Injective (ladder.ipDigest realmId)

/-- A run in both ladders, where `name` says which id Redis drew for a numbered one. -/
structure SameRun (name : ℕ → RunId) (state : MemoryRun) (counter : Counter) : Prop where
  seen : state.seen = counter.seen
  run : counter.run = name state.run

/-- A counter in both ladders: in memory it is deleted once its time is found past. -/
def SameCounter (name : ℕ → RunId) (now : ℕ) : Option MemoryRun → Option Counter → Prop
  | some state, some counter => SameRun name state counter
  | none, none => True
  | none, some counter => counter.expireAt < now
  | some _, none => False

/-- The addresses known to one account in both ladders, as far as any still counts. -/
structure SameIps (ladder : Ladder) (window now : ℕ) (realmId : String)
    (known : String → Option ℕ) (held : Option KnownIps) : Prop where
  same : ∀ ip seen, ip ≠ "" → now < seen + window →
    (known ip = some seen ↔
      ∃ ips, held = some ips ∧ (ladder.ipDigest realmId ip, seen) ∈ ips.members)
  nodup : ∀ ips, held = some ips → (ips.members.map Prod.fst).Nodup
  kept : ∀ ips, held = some ips → ∀ e ∈ ips.members, e.2 + window ≤ ips.expireAt
  past : ∀ ips, held = some ips → ∀ e ∈ ips.members, e.2 ≤ now

/-- A reservation in both ladders. -/
structure SameReservation (ladder : Ladder) (window : ℕ) (name : ℕ → RunId) (runs : ℕ)
    (x : MemoryReservation) (y : Reservation) : Prop where
  key : x.key = y.key
  policy : x.policy = y.policy
  failures : x.failures = y.failures
  run : y.run = name x.run
  numbered : x.run ∈ Set.Icc 1 runs
  ip : y.ip = ladder.ipOf x.policy x.key.realmId x.endUserIp
  endUserIp : x.endUserIp ≠ some ""
  window : x.policy.knownIpMs = 0 ∨ x.policy.knownIpMs = window

/-- The two ladders after the same calls. -/
structure Agrees (ladder : Ladder) (window : ℕ) (name : ℕ → RunId) (m : MemoryState)
    (r : RedisState) : Prop where
  now : m.now = r.now
  injOn : Set.InjOn name (Set.Icc 1 m.ladder.runs)
  drawn : ∀ i ∈ Set.Icc 1 m.ladder.runs, name i ∈ r.drawn
  counters : ∀ key, SameCounter name r.now (m.ladder.counters key) (r.store.counters key)
  numbered : ∀ key state, m.ladder.counters key = some state →
    state.run ∈ Set.Icc 1 m.ladder.runs
  reservations : List.Forall₂ (fun x y ↦
    x.2 = y.2 ∧ SameReservation ladder window name m.ladder.runs x.1 y.1)
    m.reservations r.reservations
  ips : ∀ key, SameIps ladder window r.now key.realmId (m.ladder.known key) (r.store.knownIps key)

section Simulation

variable {ladder : Ladder} {policies : MemoryPolicies} {window now : ℕ} {name : ℕ → RunId}
  {m : MemoryState} {r : RedisState}

theorem subjectPart_eq_ok {realmId part : String} {subject : LadderSubject}
    {factor : LadderCounter} (h : subjectPart realmId subject factor = .ok part) :
    part = memoryLadderSubject subject := by
  cases subject <;>
    · simp only [subjectPart, bind_eq_ok_iff, refuseIf_eq_ok_iff, pure_eq_ok_iff] at h
      obtain ⟨-, -, -, -, h⟩ := h
      exact h.symm

/-- Where a key has at most one entry, its value is that entry's. -/
theorem lookup_eq_some_iff {members : List (String × ℕ)} (h : (members.map Prod.fst).Nodup)
    {ip : String} {seen : ℕ} : members.lookup ip = some seen ↔ (ip, seen) ∈ members := by
  induction members with
  | nil => simp
  | cons e rest ih =>
    obtain ⟨ip', seen'⟩ := e
    obtain ⟨hout, hrest⟩ := List.nodup_cons.mp h
    rw [List.lookup_cons]
    by_cases hip : ip = ip'
    · subst hip
      simp only [beq_self_eq_true, List.mem_cons, Prod.mk.injEq, true_and, Option.some.injEq]
      constructor
      · exact fun heq ↦ .inl heq.symm
      · rintro (heq | hmem)
        · exact heq.symm
        · exact absurd (List.mem_map_of_mem (f := Prod.fst) hmem) hout
    · rw [beq_false_of_ne hip]
      simp only [List.mem_cons, Prod.mk.injEq, hip, false_and, false_or]
      exact ih hrest

section Ips

variable {realmId : String} {known : String → Option ℕ} {key : KnownIpsKey} {store : Store}
  (h : SameIps ladder window now key.realmId known (store.knownIps key))
include h

/-- The members that still count are read. -/
theorem SameIps.mem_members {ip : String} {seen : ℕ} (hseen : now < seen + window) :
    (∃ ips, store.knownIps key = some ips ∧ (ip, seen) ∈ ips.members) ↔
      (ip, seen) ∈ store.members now key := by
  rw [Store.members]
  constructor
  · rintro ⟨ips, hips, hmem⟩
    have hkept := h.kept ips hips _ hmem
    rw [hips, Option.filter_some, if_pos (by simp; omega)]
    exact hmem
  · intro hmem
    cases hips : store.knownIps key with
    | none =>
      rw [hips] at hmem
      cases hmem
    | some ips =>
      refine ⟨ips, rfl, ?_⟩
      rw [hips, Option.filter_some] at hmem
      by_cases hlive : (decide (now ≤ ips.expireAt)) = true
      · rwa [if_pos hlive] at hmem
      · rw [if_neg hlive] at hmem
        cases hmem

theorem SameIps.nodup_members : ((store.members now key).map Prod.fst).Nodup := by
  rw [Store.members]
  split
  · rename_i ips hips
    exact h.nodup ips (Option.filter_eq_some_iff.mp hips).1
  · exact List.nodup_nil

/-- An attempt's address is known to both ladders or to neither. -/
theorem SameIps.knows_eq (hrules : SameRules ladder policies window) {memory : Memory}
    (hknown : memory.known key = known) {policy : LadderPolicy} {endUserIp : Option String}
    (hwindow : policy.knownIpMs = 0 ∨ policy.knownIpMs = window) (hip : endUserIp ≠ some "") :
    memory.knows policy now key endUserIp =
      isKnown policy now (ladder.ipOf policy key.realmId endUserIp)
        (store.score now key (ladder.ipOf policy key.realmId endUserIp)) := by
  rw [Memory.knows, isKnown.eq_def, hknown]
  by_cases hzero : 0 < policy.knownIpMs
  swap
  · simp [hzero]
  have hpolicy : policy.knownIpMs = window := by omega
  cases endUserIp with
  | none => simp [Ladder.ipOf]
  | some ip =>
    have hne : ip ≠ "" := fun heq ↦ hip (by rw [heq])
    have hdigest : ladder.ipOf policy key.realmId (some ip) = ladder.ipDigest key.realmId ip := by
      rw [Ladder.ipOf]
      exact if_pos ⟨hzero, hne⟩
    rw [hdigest, hpolicy]
    have hcounts : (∃ seen, known ip = some seen ∧ now < seen + window) ↔
        ∃ seen, store.score now key (ladder.ipDigest key.realmId ip) = some seen ∧
          now < seen + window := by
      refine exists_congr fun seen ↦ and_congr_left fun hseen ↦ ?_
      rw [h.same ip seen hne hseen, h.mem_members hseen, Store.score,
        lookup_eq_some_iff h.nodup_members]
    have hint : ∀ seen : ℕ, (now : ℤ) - seen < window ↔ now < seen + window := by
      intro seen
      omega
    rw [Bool.eq_iff_iff]
    simp only [Option.bind_some, Bool.and_eq_true, decide_eq_true_eq, Option.any_eq_true, hint,
      hcounts, ne_eq, hrules.digest_ne, not_false_eq_true, and_true]
    refine and_congr_right fun _ ↦ ?_
    cases store.score now key (ladder.ipDigest key.realmId ip) with
    | none => simp
    | some seen => simp

/-- An address is remembered by both ladders, where Redis drops none that still counts. -/
theorem SameIps.remember (hrules : SameRules ladder policies window) {ip : String} (hip : ip ≠ "")
    (hcap : ((Table.upsert (store.members now key) (ladder.ipDigest key.realmId ip) now).filter
      fun member ↦ now < member.2 + window).length ≤ LADDER_MAX_KNOWN_IPS) :
    SameIps ladder window now key.realmId (Function.update known ip (some now))
      (some { members := rememberIp window now (ladder.ipDigest key.realmId ip)
                (store.members now key)
              expireAt := now + window }) := by
  set digest := ladder.ipDigest key.realmId ip with hdigest
  set added := Table.upsert (store.members now key) digest now with hadded
  set members := rememberIp window now digest (store.members now key) with hmembers
  have hperm : members.Perm (added.filter fun member ↦ now < member.2 + window) := by
    rw [hmembers, rememberIp, ← hadded, Nat.sub_eq_zero_of_le hcap, List.drop_zero]
    exact Table.perm_orderBy
  have hmem : ∀ e, e ∈ members ↔
      ((e ∈ store.members now key ∧ e.1 ≠ digest) ∨ e = (digest, now)) ∧
        now < e.2 + window := by
    intro e
    rw [hperm.mem_iff, List.mem_filter, hadded, Table.mem_upsert]
    simp
  have hpast : ∀ e ∈ store.members now key, e.2 ≤ now := by
    intro e he
    rw [Store.members] at he
    split at he
    · rename_i ips hips
      exact h.past ips (Option.filter_eq_some_iff.mp hips).1 e he
    · cases he
  refine ⟨?_, ?_, ?_, ?_⟩
  · intro ip' seen hne hseen
    simp only [Option.some.injEq, exists_eq_left', hmem, hseen, and_true, Prod.mk.injEq]
    by_cases hsame : ip' = ip
    · subst hsame
      rw [Function.update_self, ← hdigest, Option.some.injEq]
      simp [eq_comm]
    · have hother : ladder.ipDigest key.realmId ip' ≠ digest :=
        fun heq ↦ hsame (hrules.digest_injective _ heq)
      rw [Function.update_of_ne hsame, h.same ip' seen hne hseen, h.mem_members hseen]
      simp [hother]
  · rintro ips ⟨⟩
    have hnodup : (added.map Prod.fst).Nodup := by
      rw [hadded, Table.upsert, List.map_append, List.map_singleton, List.nodup_append]
      refine ⟨h.nodup_members.sublist ((List.filter_sublist).map Prod.fst),
        List.nodup_singleton _, ?_⟩
      rintro x hx y hy rfl
      obtain ⟨e, he, rfl⟩ := List.mem_map.mp hx
      have hout := (List.mem_filter.mp he).2
      rw [List.mem_singleton] at hy
      simp [hy] at hout
    exact (hperm.map Prod.fst).nodup_iff.mpr
      (hnodup.sublist ((List.filter_sublist).map Prod.fst))
  · rintro ips ⟨⟩ e he
    rcases ((hmem e).mp he).1 with ⟨hold, -⟩ | rfl
    · have := hpast e hold
      simp only
      omega
    · exact Nat.le_refl _
  · rintro ips ⟨⟩ e he
    rcases ((hmem e).mp he).1 with ⟨hold, -⟩ | rfl
    · exact hpast e hold
    · exact Nat.le_refl _

end Ips

/-- Time passes. -/
theorem SameIps.later {later : ℕ} {realmId : String} {known : String → Option ℕ}
    {held : Option KnownIps} (h : SameIps ladder window now realmId known held)
    (hle : now ≤ later) : SameIps ladder window later realmId known held where
  same ip seen hne hseen := h.same ip seen hne (by omega)
  nodup := h.nodup
  kept := h.kept
  past ips hips e he := (h.past ips hips e he).trans hle

theorem SameCounter.later {later : ℕ} {state : Option MemoryRun} {counter : Option Counter}
    (h : SameCounter name now state counter) (hle : now ≤ later) :
    SameCounter name later state counter := by
  cases state with
  | some state => cases counter <;> exact h
  | none =>
    cases counter with
    | none => trivial
    | some counter => exact Nat.lt_of_lt_of_le h hle

/-- The run's name may be any that agrees so far. -/
theorem SameCounter.rename {name' : ℕ → RunId} {state : Option MemoryRun}
    {counter : Option Counter} (h : SameCounter name now state counter)
    (hname : ∀ run, (∃ s, state = some s ∧ s.run = run) → name' run = name run) :
    SameCounter name' now state counter := by
  cases state with
  | none => cases counter <;> exact h
  | some state =>
    cases counter with
    | none => exact h
    | some counter => exact ⟨h.seen, h.run.trans (hname _ ⟨state, rfl, rfl⟩).symm⟩

section Live

variable {memory : Memory} {store : Store} {key key' : CounterKey}

/-- Everything a look-up does. -/
theorem Memory.live_cases (memory : Memory) (now : ℕ) (key : CounterKey) :
    (∃ state, memory.counters key = some state ∧ now < state.expiresAt ∧
      memory.live now key = (some state, memory)) ∨
    (memory.counters key = none ∧ memory.live now key = (none, memory)) ∨
    ∃ state, memory.counters key = some state ∧ state.expiresAt ≤ now ∧
      memory.live now key = (none, memory.delete key) := by
  rw [Memory.live]
  cases memory.counters key with
  | none => exact .inr (.inl ⟨rfl, rfl⟩)
  | some state =>
    by_cases hpast : state.expiresAt ≤ now
    · exact .inr (.inr ⟨state, rfl, hpast, if_pos hpast⟩)
    · exact .inl ⟨state, rfl, Nat.lt_of_not_le hpast, if_neg hpast⟩

@[simp] theorem Memory.counters_delete_self : (memory.delete key).counters key = none :=
  Function.update_self ..

@[simp] theorem Memory.counters_delete_of_ne (h : key' ≠ key) :
    (memory.delete key).counters key' = memory.counters key' :=
  Function.update_of_ne h ..

@[simp] theorem Memory.counters_set_self {state : MemoryRun} :
    (memory.set key state).counters key = some state :=
  Function.update_self ..

@[simp] theorem Memory.counters_set_of_ne {state : MemoryRun} (h : key' ≠ key) :
    (memory.set key state).counters key' = memory.counters key' :=
  Function.update_of_ne h ..

@[simp] theorem Memory.known_live : (memory.live now key).2.known = memory.known := by
  rcases memory.live_cases now key with ⟨_, -, -, h⟩ | ⟨-, h⟩ | ⟨_, -, -, h⟩ <;> rw [h]
  rfl

@[simp] theorem Memory.runs_live : (memory.live now key).2.runs = memory.runs := by
  rcases memory.live_cases now key with ⟨_, -, -, h⟩ | ⟨-, h⟩ | ⟨_, -, -, h⟩ <;> rw [h]
  rfl

theorem Memory.counters_live_of_ne (h : key' ≠ key) :
    (memory.live now key).2.counters key' = memory.counters key' := by
  rcases memory.live_cases now key with ⟨_, -, -, hlive⟩ | ⟨-, hlive⟩ | ⟨_, -, -, hlive⟩ <;>
    rw [hlive]
  exact counters_delete_of_ne h

/-- A counter that is not at its very end is live in both ladders, or in neither. -/
theorem SameCounter.live (h : SameCounter name now (memory.counters key) (store.counters key))
    (hend : ∀ counter, store.counters key = some counter → counter.expireAt ≠ now) :
    ((memory.live now key).1 = none ∧ store.counter now key = none ∧
      (memory.live now key).2.counters key = none ∧
      SameCounter name now none (store.counters key)) ∨
    ∃ state counter, memory.live now key = (some state, memory) ∧
      memory.counters key = some state ∧ store.counters key = some counter ∧
      store.counter now key = some counter ∧ SameRun name state counter := by
  rw [Store.counter]
  cases hs : store.counters key with
  | none =>
    rw [hs] at h
    rcases memory.live_cases now key with ⟨_, hm, -, -⟩ | ⟨hm, hlive⟩ | ⟨_, hm, -, -⟩
    · rw [hm] at h
      exact h.elim
    · rw [hlive]
      exact .inl ⟨rfl, rfl, hm, trivial⟩
    · rw [hm] at h
      exact h.elim
  | some counter =>
    have hne := hend counter hs
    rw [hs] at h
    have hgone : counter.expireAt < now → (some counter).filter (now ≤ ·.expireAt) = none := by
      intro hlt
      rw [Option.filter_some, if_neg (by simpa using hlt)]
    have hexpires : ∀ state, SameRun name state counter → state.expiresAt = counter.expireAt := by
      intro state hrun
      have := hrun.seen
      simp only [MemoryRun.seen, Counter.seen, Prod.mk.injEq] at this
      exact this.2.2.1
    rcases memory.live_cases now key with ⟨state, hm, hlt, hlive⟩ | ⟨hm, hlive⟩ |
      ⟨state, hm, hle, hlive⟩ <;> rw [hm] at h
    · have := hexpires state h
      refine .inr ⟨state, counter, hlive, hm, rfl, ?_, h⟩
      rw [Option.filter_some, if_pos (by simp; omega)]
    · rw [hlive]
      exact .inl ⟨rfl, hgone h, hm, h⟩
    · have := hexpires state h
      rw [hlive]
      have hlt : counter.expireAt < now := by omega
      exact .inl ⟨rfl, hgone hlt, Memory.counters_delete_self, hlt⟩

end Live

/-! ### Reservations -/

section Reserve

variable {policy : LadderPolicy} {key : CounterKey} {known : Bool} {memory : Memory}
  {store : Store} {ip : String} {newRun : RunId}

/-- The counter after an attempt was counted. -/
def nextCounter (policy : LadderPolicy) (now : ℕ) (known : Bool) (n waitUntil k : ℕ)
    (run : RunId) : Counter where
  n := n
  waitUntil := max (Double.add now (ladderWaitMs n policy)) waitUntil
  run := run
  k := if known then k + 1 else k
  expireAt := now + keptMs n policy

/-- The state in memory after an attempt was counted. -/
def nextRun (policy : LadderPolicy) (now : ℕ) (known : Bool) (n waitUntil k run : ℕ) :
    MemoryRun where
  failures := n
  waitUntil := max (Double.add now (ladderWaitMs n policy)) waitUntil
  run := run
  expiresAt := now + keptMs n policy
  knownIpFailures := if known then k + 1 else k

theorem sameRun_next {n waitUntil k run : ℕ} {id : RunId} (hrun : id = name run) :
    SameRun name (nextRun policy now known n waitUntil k run)
      (nextCounter policy now known n waitUntil k id) :=
  ⟨rfl, hrun⟩

theorem reserveScript_none (h : store.counter now key = none) :
    reserveScript policy key now ip newRun store =
      (.counted 1 newRun, store.setCounter key (nextCounter policy now
        (isKnown policy now ip (store.score now key.knownIps ip)) 1 0 0 newRun)) := by
  rw [reserveScript]
  simp only [h, Option.map_none, Option.getD_none, Nat.not_lt_zero, false_and, if_false,
    Nat.zero_add, scriptWaitMs_eq]
  rfl

theorem reserveScript_some {counter : Counter} (h : store.counter now key = some counter) :
    reserveScript policy key now ip newRun store =
      if now < counter.waitUntil ∧
          ¬ (isKnown policy now ip (store.score now key.knownIps ip) ∧
            counter.k < policy.knownIpFreeFailures) then
        (.waits (counter.waitUntil - now), store)
      else
        (.counted (counter.n + 1) counter.run, store.setCounter key (nextCounter policy now
          (isKnown policy now ip (store.score now key.knownIps ip)) (counter.n + 1)
          counter.waitUntil counter.k counter.run)) := by
  rw [reserveScript]
  simp only [h, Option.map_some, Option.getD_some, scriptWaitMs_eq]
  rfl

variable {input : ReserveInput}

/-- The reservation that a counted attempt makes in memory. -/
def reservationOf (input : ReserveInput) (policy : LadderPolicy) (run failures : ℕ) :
    MemoryReservation where
  key := input.key
  policy := policy
  endUserIp := input.endUserIp
  run := run
  failures := failures

theorem Memory.reserve_none (h : (memory.live now input.key).1 = none) :
    memory.reserve policies input now =
      (.reserved (reservationOf input (policies.policyOf input.factor) (memory.runs + 1) 1),
        { (memory.live now input.key).2.set input.key
            (nextRun (policies.policyOf input.factor) now
              (memory.knows (policies.policyOf input.factor) now input.key.knownIps
                input.endUserIp) 1 0 0 (memory.runs + 1)) with
          runs := memory.runs + 1 }) := by
  rw [Memory.reserve]
  simp only [h, Option.map_none, Option.getD_none, Nat.not_lt_zero,
    false_and, if_false, Nat.zero_add, Option.isNone_none, if_true, runs_live]
  rfl

theorem Memory.reserve_some {state : MemoryRun}
    (h : memory.live now input.key = (some state, memory)) :
    memory.reserve policies input now =
      if now < state.waitUntil ∧
          ¬ (memory.knows (policies.policyOf input.factor) now input.key.knownIps
              input.endUserIp ∧
            state.knownIpFailures < (policies.policyOf input.factor).knownIpFreeFailures) then
        (.wait ((state.waitUntil - now + 999) / 1000), memory)
      else
        (.reserved (reservationOf input (policies.policyOf input.factor) state.run
            (state.failures + 1)),
          memory.set input.key (nextRun (policies.policyOf input.factor) now
            (memory.knows (policies.policyOf input.factor) now input.key.knownIps
              input.endUserIp) (state.failures + 1) state.waitUntil state.knownIpFailures
              state.run)) := by
  rw [Memory.reserve]
  simp only [h, Option.map_some, Option.getD_some, Option.isNone_some]
  rfl

end Reserve

section Steps

variable {policy : LadderPolicy} {key : CounterKey} {known : Bool} {runs : ℕ}

theorem SameReservation.rename {name' : ℕ → RunId} {runs' : ℕ} {x : MemoryReservation}
    {y : Reservation} (h : SameReservation ladder window name runs x y) (hruns : runs ≤ runs')
    (hname : ∀ i ∈ Set.Icc 1 runs, name' i = name i) :
    SameReservation ladder window name' runs' x y :=
  { h with
    run := h.run.trans (hname _ h.numbered).symm
    numbered := ⟨h.numbered.1, h.numbered.2.trans hruns⟩ }

/-- A reservation that goes on with a run, or begins one. -/
theorem Agrees.counted (h : Agrees ladder window name m r) {memory : Memory} {x : MemoryReservation}
    {y : Reservation} {newRun : RunId} {counter : Counter}
    (hknown : memory.known = m.ladder.known) (hruns : m.ladder.runs ≤ memory.runs)
    (hcounters : ∀ key', key' ≠ key → memory.counters key' = m.ladder.counters key')
    (hself : ∃ next, memory.counters key = some next ∧ SameRun name next counter ∧
      next.run ∈ Set.Icc 1 memory.runs)
    (hinj : Set.InjOn name (Set.Icc 1 memory.runs))
    (hdrawn : ∀ i ∈ Set.Icc 1 memory.runs, name i ∈ newRun :: r.drawn)
    (hsame : SameReservation ladder window name memory.runs x y) :
    Agrees ladder window name
      { m with ladder := memory, reservations := m.reservations ++ [(x, false)] }
      { r with
        store := r.store.setCounter key counter
        drawn := newRun :: r.drawn
        reservations := r.reservations ++ [(y, false)] } where
  now := h.now
  injOn := hinj
  drawn := hdrawn
  counters key' := by
    by_cases hkey : key' = key
    · subst hkey
      obtain ⟨next, hself, hnext, -⟩ := hself
      rw [hself, Store.counters_setCounter_self]
      exact hnext
    · rw [hcounters key' hkey, Store.counters_setCounter_of_ne hkey]
      exact h.counters key'
  numbered key' state hstate := by
    by_cases hkey : key' = key
    · subst hkey
      obtain ⟨next, hself, -, hnumbered⟩ := hself
      obtain rfl := Option.some.inj (hself.symm.trans hstate)
      exact hnumbered
    · have := h.numbered key' state ((hcounters key' hkey).symm.trans hstate)
      exact ⟨this.1, this.2.trans hruns⟩
  reservations := by
    refine List.rel_append (h.reservations.imp fun a b hab ↦ ⟨hab.1, ?_⟩)
      (.cons ⟨rfl, hsame⟩ .nil)
    exact hab.2.rename hruns fun _ _ ↦ rfl
  ips key' := by
    rw [hknown]
    exact h.ips key'

theorem Agrees.rename {name' : ℕ → RunId} (h : Agrees ladder window name m r)
    (hname : ∀ i ∈ Set.Icc 1 m.ladder.runs, name' i = name i) :
    Agrees ladder window name' m r where
  now := h.now
  injOn := h.injOn.congr fun i hi ↦ (hname i hi).symm
  drawn i hi := by
    rw [hname i hi]
    exact h.drawn i hi
  counters key' := (h.counters key').rename fun run hrun ↦ by
    obtain ⟨state, hstate, rfl⟩ := hrun
    exact hname _ (h.numbered key' state hstate)
  numbered := h.numbered
  reservations := h.reservations.imp fun _ _ hab ↦ ⟨hab.1, hab.2.rename (Nat.le_refl _) hname⟩
  ips := h.ips

theorem Agrees.reserve (h : Agrees ladder window name m r)
    (hrules : SameRules ladder policies window) {input : ReserveInput} {newRun : RunId}
    (hwithin : Within ladder r (.reserve input newRun)) :
    ∃ name', Agrees ladder window name' (m.step policies (.reserve input newRun)).2
        (r.step ladder (.reserve input newRun)).2 ∧
      (m.step policies (.reserve input newRun)).1 =
        (r.step ladder (.reserve input newRun)).1 := by
  obtain ⟨hfresh, hip, ⟨policy, hpolicy⟩, part, hpart, hend⟩ := hwithin
  have hkey : ladderCounterKey input.realmId part input.factor = input.key := by
    rw [subjectPart_eq_ok hpart]
    rfl
  rw [hkey] at hend
  have hsame := hrules.same _ _ hpolicy
  have hwindow := hrules.window _ _ hpolicy
  set ip := ladder.ipOf policy input.realmId input.endUserIp with hipdef
  have hwaiting : ∀ {msLeft : ℕ} {store : Store}, reserveScript policy input.key r.now ip newRun
      r.store = (.waits msLeft, store) →
      ladder.reserve input r.now newRun r.store = .ok (.wait ((msLeft + 999) / 1000), store) := by
    intro msLeft store hscript
    rw [Ladder.reserve, hpolicy, hpart]
    simp only [require, bind, Except.bind, hkey]
    rw [← hipdef, hscript]
    rfl
  have hcounted : ∀ {failures : ℕ} {run : RunId} {store : Store}, reserveScript policy input.key
      r.now ip newRun r.store = (.counted failures run, store) →
      ladder.reserve input r.now newRun r.store =
        .ok (.reserved { key := input.key, policy, ip, run, failures }, store) := by
    intro failures run store hscript
    rw [Ladder.reserve, hpolicy, hpart]
    simp only [require, bind, Except.bind, hkey]
    rw [← hipdef, hscript]
    rfl
  have hknown : m.ladder.knows policy r.now input.key.knownIps input.endUserIp =
      isKnown policy r.now ip (r.store.score r.now input.key.knownIps ip) :=
    (h.ips input.key.knownIps).knows_eq hrules rfl hwindow hip
  have hnow : m.ladder.reserve policies input m.now = m.ladder.reserve policies input r.now := by
    rw [h.now]
  have hreservation : ∀ {name' : ℕ → RunId} {runs run n : ℕ} {id : RunId}, id = name' run →
      run ∈ Set.Icc 1 runs →
      SameReservation ladder window name' runs (reservationOf input policy run n)
        { key := input.key, policy, ip, run := id, failures := n } := by
    intro name' runs run n id hid hrun
    exact ⟨rfl, rfl, rfl, hid, hrun, rfl, hip, hwindow⟩
  rcases (h.counters input.key).live hend with ⟨hnone, hcounter, -, -⟩ |
    ⟨state, counter, hlive, hstate, hs, hcounter, hrun⟩
  · -- The attempt begins a run.
    let name' := Function.update name (m.ladder.runs + 1) newRun
    have hold : ∀ i ∈ Set.Icc 1 m.ladder.runs, name' i = name i := fun i hi ↦
      Function.update_of_ne (Nat.ne_of_lt (Nat.lt_succ_of_le hi.2)) ..
    have hnew : newRun = name' (m.ladder.runs + 1) := by
      simp only [name', Function.update_self]
    have hcases : ∀ i ∈ Set.Icc 1 (m.ladder.runs + 1),
        i ∈ Set.Icc 1 m.ladder.runs ∨ i = m.ladder.runs + 1 := by
      intro i hi
      rcases Nat.lt_or_ge m.ladder.runs i with hlt | hle
      · exact .inr (Nat.le_antisymm hi.2 hlt)
      · exact .inl ⟨hi.1, hle⟩
    have hm : m.ladder.reserve policies input m.now = _ := Memory.reserve_none (h.now ▸ hnone)
    rw [hsame, h.now, hknown] at hm
    replace hm := hnow.trans hm
    have hredis := hcounted (reserveScript_none hcounter)
    have hne : ∀ i ∈ Set.Icc 1 m.ladder.runs, name' i ≠ newRun := by
      intro i hi heq
      rw [hold i hi] at heq
      exact hfresh (heq ▸ h.drawn i hi)
    refine ⟨name', ?_, ?_⟩
    · rw [MemoryState.step, RedisState.step]
      simp only [hm, hredis]
      refine (h.rename hold).counted ?_ ?_ ?_ ?_ ?_ ?_ ?_
      · exact Memory.known_live
      · exact Nat.le_succ _
      · exact fun key' hkey' ↦
          (Memory.counters_set_of_ne hkey').trans (Memory.counters_live_of_ne hkey')
      · exact ⟨_, Memory.counters_set_self, sameRun_next hnew, Nat.le_add_left .., Nat.le_refl _⟩
      · intro i hi j hj heq
        rcases hcases i hi with hi | rfl <;> rcases hcases j hj with hj | rfl
        · exact (h.rename hold).injOn hi hj heq
        · exact absurd (heq.trans hnew.symm) (hne i hi)
        · exact absurd (heq.symm.trans hnew.symm) (hne j hj)
        · rfl
      · intro i hi
        rcases hcases i hi with hi | rfl
        · exact List.mem_cons_of_mem _ ((h.rename hold).drawn i hi)
        · rw [← hnew]
          exact List.mem_cons_self
      · exact hreservation hnew ⟨Nat.le_add_left .., Nat.le_refl _⟩
    · rw [MemoryState.step, RedisState.step]
      simp only [hm, hredis]
  · -- It goes on with the run that both hold.
    have hm : m.ladder.reserve policies input m.now = _ := Memory.reserve_some (h.now ▸ hlive)
    obtain ⟨hn, hwait, -, hk⟩ : state.failures = counter.n ∧
        state.waitUntil = counter.waitUntil ∧ state.expiresAt = counter.expireAt ∧
        state.knownIpFailures = counter.k := by
      simpa [MemoryRun.seen, Counter.seen] using hrun.seen
    rw [hsame, h.now, hknown, hn, hwait, hk] at hm
    replace hm := hnow.trans hm
    have hscript := (reserveScript_some hcounter :
      reserveScript policy input.key r.now ip newRun r.store = _)
    by_cases hwaits : r.now < counter.waitUntil ∧
        ¬ (isKnown policy r.now ip (r.store.score r.now input.key.knownIps ip) ∧
          counter.k < policy.knownIpFreeFailures)
    · rw [if_pos hwaits] at hm hscript
      have hredis := hwaiting hscript
      refine ⟨name, ?_, ?_⟩ <;> rw [MemoryState.step, RedisState.step] <;>
        simp only [hm, hredis]
      exact { h with
        drawn := fun i hi ↦ List.mem_cons_of_mem _ (h.drawn i hi) }
    · rw [if_neg hwaits] at hm hscript
      have hredis := hcounted hscript
      refine ⟨name, ?_, ?_⟩ <;> rw [MemoryState.step, RedisState.step] <;>
        simp only [hm, hredis]
      refine h.counted ?_ ?_ ?_ ?_ ?_ ?_ ?_
      · rfl
      · exact Nat.le_refl _
      · exact fun key' hkey' ↦ Memory.counters_set_of_ne hkey'
      · exact ⟨_, Memory.counters_set_self, sameRun_next hrun.run,
          h.numbered _ state hstate⟩
      · exact h.injOn
      · exact fun i hi ↦ List.mem_cons_of_mem _ (h.drawn i hi)
      · exact hreservation hrun.run (h.numbered _ _ hstate)

/-- Two lists that correspond have corresponding entries. -/
theorem forall₂_getElem? {α β : Type} {R : α → β → Prop} {as : List α} {bs : List β}
    (h : List.Forall₂ R as bs) (i : ℕ) :
    (as[i]? = none ∧ bs[i]? = none) ∨
      ∃ a b, as[i]? = some a ∧ bs[i]? = some b ∧ R a b := by
  induction h generalizing i with
  | nil => simp
  | cons hab _ ih =>
    cases i with
    | zero => exact .inr ⟨_, _, rfl, rfl, hab⟩
    | succ i => exact ih i

theorem forall₂_set {α β : Type} {R : α → β → Prop} {as : List α} {bs : List β}
    (h : List.Forall₂ R as bs) (i : ℕ) {a : α} {b : β} (hab : R a b) :
    List.Forall₂ R (as.set i a) (bs.set i b) := by
  induction h generalizing i with
  | nil => exact .nil
  | cons hcd hrest ih =>
    cases i with
    | zero => exact .cons hab hrest
    | succ i => exact .cons hcd (ih i)

variable {x : MemoryReservation} {y : Reservation}

/-- Two numbered runs are one where their names are. -/
theorem Agrees.run_eq_iff (h : Agrees ladder window name m r)
    (hxy : SameReservation ladder window name m.ladder.runs x y) {state : MemoryRun}
    {counter : Counter} {key : CounterKey} (hstate : m.ladder.counters key = some state)
    (hrun : SameRun name state counter) : state.run = x.run ↔ counter.run = y.run := by
  rw [hrun.run, hxy.run]
  exact (h.injOn.eq_iff (h.numbered _ _ hstate) hxy.numbered).symm

/-- What a settlement leaves, from what it does to the counters and the addresses. -/
theorem Agrees.settled (h : Agrees ladder window name m r) {memory : Memory} {store : Store}
    {place : ℕ} (hxy : SameReservation ladder window name m.ladder.runs x y)
    (hruns : memory.runs = m.ladder.runs)
    (hcounters : ∀ key, SameCounter name r.now (memory.counters key) (store.counters key))
    (hnumbered : ∀ key state, memory.counters key = some state →
      state.run ∈ Set.Icc 1 m.ladder.runs)
    (hips : ∀ key, SameIps ladder window r.now key.realmId (memory.known key)
      (store.knownIps key)) :
    Agrees ladder window name
      { now := r.now, ladder := memory, reservations := m.reservations.set place (x, true) }
      { r with store, reservations := r.reservations.set place (y, true) } where
  now := rfl
  injOn := by
    rw [hruns]
    exact h.injOn
  drawn := by
    rw [hruns]
    exact h.drawn
  counters := hcounters
  numbered := by
    rw [hruns]
    exact hnumbered
  reservations := by
    rw [hruns]
    exact forall₂_set h.reservations place ⟨rfl, hxy⟩
  ips := hips

/-- What a look-up leaves. -/
theorem Agrees.looked (h : Agrees ladder window name m r) {key : CounterKey}
    (hend : r.NotAtEnd key) (key' : CounterKey) :
    SameCounter name r.now ((m.ladder.live r.now key).2.counters key') (r.store.counters key') := by
  by_cases hkey : key' = key
  · subst hkey
    rcases (h.counters key').live hend with ⟨-, -, hnone, hsame⟩ | ⟨_, _, hlive, -⟩
    · rw [hnone]
      exact hsame
    · rw [hlive]
      exact h.counters key'
  · rw [Memory.counters_live_of_ne hkey]
    exact h.counters key'

theorem Agrees.numbered_live (h : Agrees ladder window name m r) {key key' : CounterKey}
    {state : MemoryRun}
    (hstate : (m.ladder.live now key).2.counters key' = some state) :
    state.run ∈ Set.Icc 1 m.ladder.runs := by
  rcases m.ladder.live_cases now key with ⟨_, -, -, hlive⟩ | ⟨-, hlive⟩ | ⟨_, -, -, hlive⟩ <;>
    rw [hlive] at hstate
  · exact h.numbered key' state hstate
  · exact h.numbered key' state hstate
  · by_cases hkey : key' = key
    · subst hkey
      rw [Memory.counters_delete_self] at hstate
      cases hstate
    · rw [Memory.counters_delete_of_ne hkey] at hstate
      exact h.numbered key' state hstate

/-- A failure that is settled: whether the hard action is due. -/
theorem Agrees.settle_failure (h : Agrees ladder window name m r)
    (hxy : SameReservation ladder window name m.ladder.runs x y) (hend : r.NotAtEnd y.key)
    (rememberIp : Bool) :
    (m.ladder.settle x .failure rememberIp r.now).1 =
      (settle y .failure rememberIp r.now r.store).1 := by
  rw [Memory.settle, settle, ← hxy.policy, hxy.key, hxy.failures]
  cases x.policy.hardCeiling with
  | none => rfl
  | some ceiling =>
    dsimp only
    by_cases hbelow : y.failures < ceiling
    · rw [if_pos hbelow, decide_eq_false (Nat.not_le_of_lt hbelow), Bool.false_and]
    · rw [if_neg hbelow, decide_eq_true (Nat.le_of_not_lt hbelow), Bool.true_and]
      rcases (h.counters y.key).live hend with ⟨hnone, hcounter, -, -⟩ |
        ⟨state, counter, hlive, hstate, -, hcounter, hrun⟩
      · rw [hnone, hcounter]
        rfl
      · rw [hlive, hcounter]
        have hiff := h.run_eq_iff hxy hstate hrun
        simp only [Option.any_some, Option.map_some, Option.some.injEq]
        exact decide_eq_decide.mpr hiff

/-- The counters after a success, where a success that clears finds its own run, or none. -/
theorem Agrees.settle_success (h : Agrees ladder window name m r)
    (hxy : SameReservation ladder window name m.ladder.runs x y) (hend : r.NotAtEnd y.key)
    (hown : y.policy.onSuccess = .clear →
      ∀ counter, r.store.counter r.now y.key = some counter → counter.run = y.run)
    (ip : String) :
    ∃ store : Store, store.knownIps = r.store.knownIps ∧
      (∀ key, SameCounter name r.now ((m.ladder.settleCounter x r.now).counters key)
        (store.counters key)) ∧
      (∀ key state, (m.ladder.settleCounter x r.now).counters key = some state →
        state.run ∈ Set.Icc 1 m.ladder.runs) ∧
      settleSuccessScript y.policy y.key r.now y.run ip r.store =
        if 0 < y.policy.knownIpMs ∧ ip ≠ "" then
          store.setKnownIps y.key.knownIps
            { members := rememberIp y.policy.knownIpMs r.now ip
                (r.store.members r.now y.key.knownIps)
              expireAt := r.now + y.policy.knownIpMs }
        else store := by
  rw [settleSuccessScript, Memory.settleCounter, hxy.policy, hxy.key]
  have hkeep : ∀ key', SameCounter name r.now ((m.ladder.live r.now y.key).2.counters key')
      (r.store.counters key') := h.looked hend
  have hdeleted : ∀ key', SameCounter name r.now
      (((m.ladder.live r.now y.key).2.delete y.key).counters key')
      ((r.store.del y.key).counters key') := by
    intro key'
    by_cases hkey : key' = y.key
    · subst hkey
      rw [Memory.counters_delete_self, Store.counters_del_self]
      trivial
    · rw [Memory.counters_delete_of_ne hkey, Store.counters_del_of_ne hkey]
      exact hkeep key'
  have hdeletedNumbered : ∀ key' state,
      ((m.ladder.live r.now y.key).2.delete y.key).counters key' = some state →
        state.run ∈ Set.Icc 1 m.ladder.runs := by
    intro key' state hstate
    by_cases hkey : key' = y.key
    · subst hkey
      rw [Memory.counters_delete_self] at hstate
      cases hstate
    · rw [Memory.counters_delete_of_ne hkey] at hstate
      exact h.numbered_live hstate
  rcases (h.counters y.key).live hend with ⟨hnone, hcounter, hgone, hsame⟩ |
    ⟨state, counter, hlive, hstate, hs, hcounter, hrun⟩
  · -- No run is live: there is nothing to end.
    refine ⟨r.store, rfl, ?_, ?_, by rw [hcounter]⟩
    · intro key'
      rw [hnone]
      cases y.policy.onSuccess with
      | withdraw => exact hkeep key'
      | clear =>
        dsimp only
        by_cases hkey : key' = y.key
        · subst hkey
          rw [Memory.counters_delete_self]
          exact hsame
        · rw [Memory.counters_delete_of_ne hkey]
          exact hkeep key'
    · intro key' state
      rw [hnone]
      cases y.policy.onSuccess with
      | withdraw => exact fun hstate ↦ h.numbered_live hstate
      | clear => exact hdeletedNumbered key' state
  · have hiff := h.run_eq_iff hxy hstate hrun
    rw [hcounter]
    dsimp only
    cases honSuccess : y.policy.onSuccess with
    | clear =>
      rw [if_pos (hown honSuccess counter hcounter)]
      exact ⟨r.store.del y.key, rfl, hdeleted, hdeletedNumbered, rfl⟩
    | withdraw =>
      rw [hlive] at hkeep hdeleted hdeletedNumbered ⊢
      dsimp only at hkeep hdeleted hdeletedNumbered ⊢
      by_cases hsameRun : counter.run = y.run
      swap
      · rw [if_neg hsameRun, Option.filter_some, if_neg (by simp [hiff, hsameRun])]
        exact ⟨r.store, rfl, hkeep, h.numbered, rfl⟩
      rw [if_pos hsameRun, Option.filter_some, if_pos (by simp [hiff, hsameRun])]
      obtain ⟨hn, hwait, hexpires, hk⟩ : state.failures = counter.n ∧
          state.waitUntil = counter.waitUntil ∧ state.expiresAt = counter.expireAt ∧
          state.knownIpFailures = counter.k := by
        simpa [MemoryRun.seen, Counter.seen] using hrun.seen
      dsimp only
      rw [hn]
      by_cases hone : counter.n ≤ 1
      · rw [if_pos hone, if_pos hone]
        exact ⟨r.store.del y.key, rfl, hdeleted, hdeletedNumbered, rfl⟩
      · rw [if_neg hone, if_neg hone]
        refine ⟨r.store.setCounter y.key { counter with n := counter.n - 1 }, rfl, ?_, ?_, rfl⟩
        · intro key'
          by_cases hkey : key' = y.key
          · subst hkey
            rw [Memory.counters_set_self, Store.counters_setCounter_self]
            exact ⟨by simp [MemoryRun.seen, Counter.seen, hwait, hexpires, hk], hrun.run⟩
          · rw [Memory.counters_set_of_ne hkey, Store.counters_setCounter_of_ne hkey]
            exact hkeep key'
        · intro key' state' hstate'
          by_cases hkey : key' = y.key
          · subst hkey
            obtain rfl := Option.some.inj (Memory.counters_set_self.symm.trans hstate')
            exact h.numbered y.key state hstate
          · exact h.numbered key' state' ((Memory.counters_set_of_ne hkey).symm.trans hstate')

@[simp] theorem Memory.runs_settleCounter (memory : Memory) :
    (memory.settleCounter x now).runs = memory.runs := by
  rw [Memory.settleCounter]
  split
  · exact Memory.runs_live
  · split
    · exact Memory.runs_live
    · split <;> exact Memory.runs_live

@[simp] theorem Memory.known_settleCounter (memory : Memory) :
    (memory.settleCounter x now).known = memory.known := by
  rw [Memory.settleCounter]
  split
  · exact Memory.known_live
  · split
    · exact Memory.known_live
    · split <;> exact Memory.known_live

/-- A settlement. -/
theorem Agrees.settle (h : Agrees ladder window name m r)
    (hrules : SameRules ladder policies window) {place : ℕ} {outcome : Outcome}
    {rememberIp : Bool} (hwithin : Within ladder r (.settle place outcome rememberIp)) :
    Agrees ladder window name (m.step policies (.settle place outcome rememberIp)).2
        (r.step ladder (.settle place outcome rememberIp)).2 ∧
      (m.step policies (.settle place outcome rememberIp)).1 =
        (r.step ladder (.settle place outcome rememberIp)).1 := by
  rw [MemoryState.step, RedisState.step]
  rcases forall₂_getElem? h.reservations place with ⟨hx, hy⟩ |
    ⟨⟨x, done⟩, ⟨y, _⟩, hx, hy, hdone, hxy⟩
  · rw [hx, hy]
    exact ⟨h, rfl⟩
  dsimp only at hdone hxy
  subst hdone
  rw [hx, hy]
  cases done with
  | true => exact ⟨h, rfl⟩
  | false =>
    obtain ⟨hend, hsuccess⟩ := hwithin y hy
    dsimp only
    rw [h.now]
    cases outcome with
    | failure =>
      refine ⟨?_, congrArg _ (h.settle_failure hxy hend rememberIp)⟩
      have hstore : (SignIn.settle y .failure rememberIp r.now r.store).2 = r.store := by
        rw [SignIn.settle]
        split
        · rfl
        · split <;> rfl
      rw [hstore]
      refine h.settled hxy ?_ (fun key ↦ ?_) (fun key state hstate ↦ ?_) (fun key ↦ ?_)
      · exact Memory.runs_live
      · rw [Memory.settle, hxy.key]
        exact h.looked hend key
      · rw [Memory.settle] at hstate
        exact h.numbered_live hstate
      · rw [Memory.settle, Memory.known_live]
        exact h.ips key
    | success =>
      obtain ⟨hown, hcap⟩ := hsuccess rfl
      obtain ⟨store, hips, hcounters, hnumbered, hscript⟩ := h.settle_success hxy hend hown
        (if rememberIp then y.ip else "")
      have hsettled : ∀ memory : Memory, memory.runs = m.ladder.runs →
          memory.counters = (m.ladder.settleCounter x r.now).counters →
          (∀ key, SameIps ladder window r.now key.realmId (memory.known key)
            ((SignIn.settle y .success rememberIp r.now r.store).2.knownIps key)) →
          Agrees ladder window name
            { now := r.now, ladder := memory
              reservations := m.reservations.set place (x, true) }
            { r with
              store := (SignIn.settle y .success rememberIp r.now r.store).2
              reservations := r.reservations.set place (y, true) } := by
        intro memory hruns hmemory hknown
        have hscriptCounters :
            (SignIn.settle y .success rememberIp r.now r.store).2.counters = store.counters := by
          rw [SignIn.settle, hscript]
          by_cases hremember :
              0 < y.policy.knownIpMs ∧ (if rememberIp then y.ip else "") ≠ ""
          · rw [if_pos hremember]
            rfl
          · rw [if_neg hremember]
        refine h.settled hxy hruns ?_ ?_ hknown
        · rw [hmemory, hscriptCounters]
          exact hcounters
        · rw [hmemory]
          exact hnumbered
      rw [Memory.settle]
      have hsame : ∀ key, (SignIn.settle y .success rememberIp r.now r.store).2.knownIps key =
          if 0 < y.policy.knownIpMs ∧ (if rememberIp then y.ip else "") ≠ "" ∧
              key = y.key.knownIps then
            some { members := SignIn.rememberIp y.policy.knownIpMs r.now y.ip
                    (r.store.members r.now y.key.knownIps)
                   expireAt := r.now + y.policy.knownIpMs }
          else r.store.knownIps key := by
        intro key
        rw [SignIn.settle, hscript]
        dsimp only
        cases rememberIp with
        | false => simp [hips]
        | true =>
          simp only [if_true]
          by_cases hremember : 0 < y.policy.knownIpMs ∧ y.ip ≠ ""
          · rw [if_pos hremember, Store.setKnownIps]
            dsimp only
            by_cases hkey : key = y.key.knownIps
            · rw [if_pos ⟨hremember.1, hremember.2, hkey⟩, hkey, Function.update_self]
            · rw [if_neg (fun hall ↦ hkey hall.2.2), Function.update_of_ne hkey, hips]
          · rw [if_neg hremember, if_neg (fun hall ↦ hremember ⟨hall.1, hall.2.1⟩), hips]
      cases hendUserIp : x.endUserIp with
      | none =>
        have hempty : y.ip = "" := by
          rw [hxy.ip, hendUserIp, Ladder.ipOf]
        refine ⟨hsettled _ (Memory.runs_settleCounter _) rfl fun key ↦ ?_, rfl⟩
        rw [hsame, if_neg (by simp [hempty]), Memory.known_settleCounter]
        exact h.ips key
      | some ip =>
        have hne : ip ≠ "" := by
          rintro rfl
          exact hxy.endUserIp hendUserIp
        have hdigest : 0 < y.policy.knownIpMs → y.ip = ladder.ipDigest y.key.realmId ip := by
          intro hpositive
          rw [hxy.ip, hendUserIp, hxy.policy, hxy.key]
          exact if_pos ⟨hpositive, hne⟩
        dsimp only
        rw [hxy.policy, hxy.key]
        by_cases hremember : 0 < y.policy.knownIpMs ∧ rememberIp = true
        · obtain ⟨hpositive, hrememberIp⟩ := hremember
          have hwindow : y.policy.knownIpMs = window := by
            have := hxy.window
            rw [hxy.policy] at this
            omega
          have hip : y.ip ≠ "" := by
            rw [hdigest hpositive]
            exact hrules.digest_ne _ _
          have hlength := hcap hrememberIp hip
          rw [hwindow, hdigest hpositive] at hlength
          rw [if_pos ⟨hpositive, hrememberIp⟩]
          refine ⟨hsettled _ (Memory.runs_settleCounter _) rfl fun key ↦ ?_, rfl⟩
          rw [hsame, Memory.remember, Memory.known_settleCounter, if_pos hrememberIp]
          dsimp only
          by_cases hkey : key = y.key.knownIps
          · subst hkey
            rw [if_pos ⟨hpositive, hip, rfl⟩, Function.update_self, hwindow, hdigest hpositive]
            exact (h.ips y.key.knownIps).remember hrules hne hlength
          · rw [if_neg (fun hall ↦ hkey hall.2.2), Function.update_of_ne hkey]
            exact h.ips key
        · have hno : ¬ (0 < y.policy.knownIpMs ∧ (if rememberIp then y.ip else "") ≠ "") := by
            rintro ⟨hpositive, hip⟩
            refine hremember ⟨hpositive, ?_⟩
            by_contra hfalse
            rw [if_neg hfalse] at hip
            exact hip rfl
          rw [if_neg hremember]
          refine ⟨hsettled _ (Memory.runs_settleCounter _) rfl fun key ↦ ?_, rfl⟩
          rw [hsame, if_neg (fun hall ↦ hno ⟨hall.1, hall.2.1⟩), Memory.known_settleCounter]
          exact h.ips key

/-- What every call within keeps: the ladders agree, and answer the same. -/
theorem Agrees.step (h : Agrees ladder window name m r)
    (hrules : SameRules ladder policies window) {call : TwinCall} (hwithin : Within ladder r call) :
    ∃ name', Agrees ladder window name' (m.step policies call).2 (r.step ladder call).2 ∧
      (m.step policies call).1 = (r.step ladder call).1 := by
  cases call with
  | tick ms =>
    refine ⟨name, ?_, rfl⟩
    have hle : r.now ≤ r.now + ms := Nat.le_add_right _ _
    exact
      { h with
        now := congrArg (· + ms) h.now
        counters := fun key ↦ (h.counters key).later hle
        ips := fun key ↦ (h.ips key).later hle }
  | reserve input newRun => exact h.reserve hrules hwithin
  | settle place outcome rememberIp => exact ⟨name, h.settle hrules hwithin⟩

theorem Agrees.run (h : Agrees ladder window name m r) (hrules : SameRules ladder policies window)
    {calls : List TwinCall} (hwithin : AllWithin ladder r calls) :
    (runCalls (MemoryState.step policies) m calls).1 =
        (runCalls (RedisState.step ladder) r calls).1 ∧
      ∃ name', Agrees ladder window name' (runCalls (MemoryState.step policies) m calls).2
        (runCalls (RedisState.step ladder) r calls).2 := by
  induction calls generalizing name m r with
  | nil => exact ⟨rfl, name, h⟩
  | cons call calls ih =>
    obtain ⟨name', hstep, hanswer⟩ := h.step hrules hwithin.1
    obtain ⟨hanswers, hlast⟩ := ih hstep hwithin.2
    rw [runCalls, runCalls]
    exact ⟨by rw [hanswer, hanswers], hlast⟩

theorem Agrees.start : Agrees ladder window name .start .start where
  now := rfl
  injOn i hi := absurd (hi.1.trans hi.2) (by decide)
  drawn i hi := absurd (hi.1.trans hi.2) (by decide)
  counters _ := trivial
  numbered _ _ h := nomatch h
  reservations := .nil
  ips _ :=
    { same := by simp [MemoryState.start, Memory.empty, RedisState.start, Store.empty]
      nodup := by simp [RedisState.start, Store.empty]
      kept := by simp [RedisState.start, Store.empty]
      past := by simp [RedisState.start, Store.empty] }

/-- A counter that both ladders can be asked for is the same. -/
theorem Agrees.seen_eq (h : Agrees ladder window name m r) {key : CounterKey}
    (hend : r.NotAtEnd key) :
    (m.ladder.live m.now key).1.map MemoryRun.seen =
      (r.store.counter r.now key).map Counter.seen := by
  rw [h.now]
  rcases (h.counters key).live hend with ⟨hnone, hcounter, -, -⟩ |
    ⟨state, counter, hlive, -, -, hcounter, hrun⟩
  · rw [hnone, hcounter]
    rfl
  · rw [hlive, hcounter]
    exact congrArg some hrun.seen

end Steps

end Simulation

/-- The ladder in memory answers what the ladder in Redis answers and leaves the same counters and
waits, over calls of the rules' own counters that never meet one of these: a counter at the very
millisecond of its end; a success that clears and finds a run other than its own; an empty address;
and a success that leaves more than sixteen addresses known. -/
theorem memoryLadder_agrees (ladder : Ladder) (policies : MemoryPolicies) (window : ℕ)
    (hrules : SameRules ladder policies window) (calls : List TwinCall)
    (hwithin : AllWithin ladder .start calls) :
    (runCalls (MemoryState.step policies) .start calls).1 =
        (runCalls (RedisState.step ladder) .start calls).1 ∧
      ∀ key, (runCalls (RedisState.step ladder) .start calls).2.NotAtEnd key →
        ((runCalls (MemoryState.step policies) .start calls).2.ladder.live
            (runCalls (MemoryState.step policies) .start calls).2.now key).1.map MemoryRun.seen =
          ((runCalls (RedisState.step ladder) .start calls).2.store.counter
            (runCalls (RedisState.step ladder) .start calls).2.now key).map Counter.seen := by
  have hstart : Agrees ladder window (fun _ ↦ "") .start .start := .start
  obtain ⟨hanswers, name, hlast⟩ := hstart.run hrules hwithin
  exact ⟨hanswers, fun key hend ↦ hlast.seen_eq hend⟩


/-! ### Two runs -/

/-- The default rules over Redis, with a digest that never collides. -/
def sampleLadder : Ladder where
  policies := defaultPolicies
  ipDigest realmId ip := realmId ++ ":" ++ ip
  accepted := checkLadderPolicy_defaultPolicies

/-- The default rules in memory. -/
def samplePolicies : MemoryPolicies where
  factorPolicy := PASSWORD_LADDER_POLICY
  emailCodePolicy := EMAIL_CODE_LADDER_POLICY
  recoveryCodePolicy := RECOVERY_CODE_LADDER_POLICY
  totpPolicy := TOTP_LADDER_POLICY

theorem sameRules_sample : SameRules sampleLadder samplePolicies (30 * DAY_MS) where
  same factor policy h := by
    rcases factor with type | _ | _
    · cases type <;> cases h <;> rfl
    · cases h
      rfl
    · cases h
      rfl
  window factor policy h := by
    rcases factor with type | _ | _
    · cases type <;> cases h
      · exact .inr rfl
      · exact .inl rfl
    · cases h
      exact .inr rfl
    · cases h
      exact .inl rfl
  digest_ne realmId ip := by
    intro h
    have := congrArg String.length h
    simp [sampleLadder, String.length_append] at this
  digest_injective realmId ip ip' h := by
    have := congrArg String.toList h
    exact String.toList_inj.mp (by simpa [sampleLadder] using this)

/-- An attempt of the account `u1` at its recovery codes. -/
def sampleReserve : ReserveInput where
  realmId := "master"
  subject := .user "u1"
  factor := .recoveryCode
  endUserIp := none

/-- An attempt is reserved and settled. -/
def sampleCalls : List TwinCall := [.reserve sampleReserve "run1", .settle 0 .success true]

theorem memoryLadder_agrees_sample :
    AllWithin sampleLadder .start sampleCalls ∧
      (runCalls (MemoryState.step samplePolicies) .start sampleCalls).1 =
        (runCalls (RedisState.step sampleLadder) .start sampleCalls).1 := by
  have hwithin : AllWithin sampleLadder .start sampleCalls := by
    have hreservations : ((RedisState.start.step sampleLadder
        (.reserve sampleReserve "run1")).2.reservations)[0]? =
          some ({ key := sampleReserve.key, policy := RECOVERY_CODE_LADDER_POLICY, ip := ""
                  run := "run1", failures := 1 }, false) := by
      decide
    have hcounter : (RedisState.start.step sampleLadder
        (.reserve sampleReserve "run1")).2.store.counters sampleReserve.key =
          some { n := 1, waitUntil := 0, run := "run1", k := 0, expireAt := 30 * DAY_MS } := by
      decide
    refine ⟨⟨List.not_mem_nil, by decide, ⟨_, rfl⟩, "user:u1", by decide, ?_⟩, ?_, trivial⟩
    · intro counter h
      cases h
    · intro reservation h
      cases hreservations.symm.trans h
      refine ⟨?_, fun _ ↦ ⟨fun _ ↦ ?_, fun _ hip ↦ absurd rfl hip⟩⟩
      · intro counter h
        cases hcounter.symm.trans h
        decide
      · intro counter h
        cases hcounter.symm.trans (Store.counter_eq_some_iff.mp h).1
        rfl
  exact ⟨hwithin, (memoryLadder_agrees sampleLadder samplePolicies (30 * DAY_MS) sameRules_sample
    sampleCalls hwithin).1⟩

/-- The first attempt's success is settled once its run is past its time and another has begun. -/
def lateCalls : List TwinCall :=
  [.reserve sampleReserve "run1", .tick (30 * DAY_MS + 1), .reserve sampleReserve "run2",
    .settle 0 .success true]

/-- A success that settles late ends the newer run in memory, and leaves it in Redis. -/
theorem memoryLadder_ends_newer_run :
    ((runCalls (MemoryState.step samplePolicies) .start lateCalls).2.ladder.live
        (runCalls (MemoryState.step samplePolicies) .start lateCalls).2.now
        sampleReserve.key).1.map MemoryRun.seen = none ∧
      ((runCalls (RedisState.step sampleLadder) .start lateCalls).2.store.counter
        (runCalls (RedisState.step sampleLadder) .start lateCalls).2.now
        sampleReserve.key).map Counter.seen =
          some (1, 30 * DAY_MS + 1, 60 * DAY_MS + 1, 0) := by
  decide

end QAuth.SignIn
