import QAuth.Foundation.Backoff
import QAuth.Foundation.Run
import QAuth.SignIn.Ladder

/-!
# Runs of the failure ladder

The ladder over all its keys: reservations, settlements and resets in any order, at any times. An
attempt's address is known or not as the keyspace says at that time, so the two kinds mix as they
come. The state also keeps every counted attempt and every end of a run.

The attempts that one run counted, first to last, are admitted tries in the sense of
`QAuth.Foundation.Backoff`, and what is said of a run follows from that.
-/

namespace QAuth.SignIn

open Transition Backoff

/-! ### The transition system -/

/-- The latest time that a date can hold. -/
def maxTimeMs : ℕ := 8640000000000000

/-- A reading of the clock. -/
structure EpochMs where
  ms : ℕ
  le : ms ≤ maxTimeMs
deriving DecidableEq

theorem EpochMs.lt_two_pow (now : EpochMs) : now.ms < 2 ^ 53 :=
  Nat.lt_of_le_of_lt now.le (by decide)

/-- A counted attempt. -/
structure Attempt where
  key : CounterKey
  run : RunId
  now : EpochMs
  /-- The run's count with this attempt. -/
  failures : ℕ
  /-- Whether it came from a known IP. -/
  known : Bool
deriving DecidableEq

/-- What happened to a counter. -/
inductive Event
  | counted (attempt : Attempt)
  /-- A success of the run was settled. -/
  | succeeded (key : CounterKey) (run : RunId)
  | reset (key : CounterKey)
deriving DecidableEq

structure LadderState where
  now : EpochMs
  store : Store
  /-- The run ids drawn so far. -/
  issued : List RunId
  /-- The reservations not yet settled. -/
  outstanding : List Reservation
  log : List Event

inductive LadderAction
  | tick (now : EpochMs)
  | reserve (input : ReserveInput) (newRun : RunId)
  | settle (reservation : Reservation) (outcome : Outcome) (remember : Bool)
  | reset (key : CounterKey)

/-- The attempt that a reservation counted. -/
def LadderState.attempt (s : LadderState) (r : Reservation) : Attempt where
  key := r.key
  run := r.run
  now := s.now
  failures := r.failures
  known := isKnown r.policy s.now.ms r.ip (s.store.score s.now.ms r.key.knownIps r.ip)

/-- One step of the ladder; a call that is refused for its shape changes nothing and is none. -/
def LadderState.step (ladder : Ladder) (s : LadderState) : LadderAction → Option LadderState
  | .tick now => if s.now.ms ≤ now.ms then some { s with now } else none
  | .reserve input newRun =>
    if newRun ∈ s.issued then none
    else
      match ladder.reserve input s.now.ms newRun s.store with
      | .ok (.reserved r, store) =>
        some { s with
          store
          issued := newRun :: s.issued
          outstanding := r :: s.outstanding
          log := s.log ++ [.counted (s.attempt r)] }
      | .ok (.wait _, store) => some { s with store, issued := newRun :: s.issued }
      | .error _ => none
  | .settle r outcome remember =>
    if r ∈ s.outstanding then
      some { s with
        store := (settle r outcome remember s.now.ms s.store).2
        outstanding := s.outstanding.erase r
        log := if outcome = .success then s.log ++ [.succeeded r.key r.run] else s.log }
    else none
  | .reset key => some { s with store := s.store.del key, log := s.log ++ [.reset key] }

/-- The ladder from an empty keyspace. -/
def ladderSystem (ladder : Ladder) : System LadderState LadderAction where
  initial s := s.store = .empty ∧ s.issued = [] ∧ s.outstanding = [] ∧ s.log = []
  step := LadderState.step ladder

/-! ### Runs in the log -/

/-- The attempts that one run of a counter counted, first to last. -/
def attemptsOf (log : List Event) (key : CounterKey) (run : RunId) : List Attempt :=
  log.filterMap fun
    | .counted a => if a.key = key ∧ a.run = run then some a else none
    | _ => none

/-- The attempts of a counter since its last success or reset, first to last. -/
def sinceEnd (key : CounterKey) (log : List Event) : List Attempt :=
  log.foldl (fun attempts event ↦
    match event with
    | .counted a => if a.key = key then attempts ++ [a] else attempts
    | .succeeded key' _ => if key' = key then [] else attempts
    | .reset key' => if key' = key then [] else attempts) []

/-- No success of the run was settled. -/
def SuccessFree (log : List Event) (key : CounterKey) (run : RunId) : Prop :=
  Event.succeeded key run ∉ log

instance (log : List Event) (key : CounterKey) (run : RunId) :
    Decidable (SuccessFree log key run) :=
  inferInstanceAs (Decidable (_ ∉ _))

def Attempt.toTry (a : Attempt) : Try where
  time := a.now.ms
  number := a.failures
  favoured := a.known

/-- Until when the attempt makes later ones wait. -/
def Attempt.waitEnd (policy : LadderPolicy) (a : Attempt) : ℕ :=
  a.toTry.waitEnd (ladderWaitMs · policy)

/-- The attempt comes inside a wait that one of `before` set. -/
def Attempt.InsideWait (policy : LadderPolicy) (before : List Attempt) (a : Attempt) : Prop :=
  Inside (ladderWaitMs · policy) (before.map Attempt.toTry) a.toTry

/-- The attempt comes from a known IP, and fewer than the bound of the run's counted failures
before it did. -/
def Attempt.Exempt (policy : LadderPolicy) (before : List Attempt) (a : Attempt) : Prop :=
  Backoff.Exempt policy.knownIpFreeFailures (before.map Attempt.toTry) a.toTry

/-- How many attempts of a run were made inside a wait. -/
def skippedWaits (policy : LadderPolicy) (attempts : List Attempt) : ℕ :=
  skips (ladderWaitMs · policy) (attempts.map Attempt.toTry)

section Log

variable {log before after : List Event} {key key' : CounterKey} {run run' : RunId}
  {a b : Attempt} {policy : LadderPolicy} {event : Event}

@[simp] theorem attemptsOf_counted :
    attemptsOf (log ++ [.counted a]) key run =
      attemptsOf log key run ++ if a.key = key ∧ a.run = run then [a] else [] := by
  rw [attemptsOf, List.filterMap_append]
  congr 1
  by_cases h : a.key = key ∧ a.run = run <;> simp [h]

@[simp] theorem attemptsOf_succeeded :
    attemptsOf (log ++ [.succeeded key' run']) key run = attemptsOf log key run := by
  simp [attemptsOf]

@[simp] theorem attemptsOf_reset :
    attemptsOf (log ++ [.reset key']) key run = attemptsOf log key run := by
  simp [attemptsOf]

@[simp] theorem sinceEnd_counted :
    sinceEnd key (log ++ [.counted a]) =
      sinceEnd key log ++ if a.key = key then [a] else [] := by
  rw [sinceEnd, List.foldl_append]
  by_cases h : a.key = key <;> simp [h, sinceEnd]

@[simp] theorem sinceEnd_succeeded :
    sinceEnd key (log ++ [.succeeded key' run']) = if key' = key then [] else sinceEnd key log := by
  rw [sinceEnd, List.foldl_append]
  rfl

@[simp] theorem sinceEnd_reset :
    sinceEnd key (log ++ [.reset key']) = if key' = key then [] else sinceEnd key log := by
  rw [sinceEnd, List.foldl_append]
  rfl

theorem mem_attemptsOf : a ∈ attemptsOf log key run ↔
    .counted a ∈ log ∧ a.key = key ∧ a.run = run := by
  simp only [attemptsOf, List.mem_filterMap]
  constructor
  · rintro ⟨event, hevent, h⟩
    cases event with
    | counted b =>
      obtain ⟨⟨hkey, hrun⟩, rfl⟩ := Option.ite_none_right_eq_some.mp h |>.imp_right Option.some.inj
      exact ⟨hevent, hkey, hrun⟩
    | succeeded => cases h
    | reset => cases h
  · rintro ⟨hlog, hkey, hrun⟩
    exact ⟨.counted a, hlog, if_pos ⟨hkey, hrun⟩⟩

theorem counted_of_mem_sinceEnd (h : a ∈ sinceEnd key log) : .counted a ∈ log ∧ a.key = key := by
  induction log using List.reverseRecOn with
  | nil => cases h
  | append_singleton log event ih =>
    have hlog : a ∈ sinceEnd key log → .counted a ∈ log ++ [event] ∧ a.key = key :=
      fun h ↦ ⟨List.mem_append_left _ (ih h).1, (ih h).2⟩
    cases event with
    | counted b =>
      rw [sinceEnd_counted] at h
      by_cases hb : b.key = key
      · rw [if_pos hb] at h
        rcases List.mem_append.mp h with h | h
        · exact hlog h
        · obtain rfl := List.mem_singleton.mp h
          exact ⟨by simp, hb⟩
      · rw [if_neg hb, List.append_nil] at h
        exact hlog h
    | succeeded key' =>
      rw [sinceEnd_succeeded] at h
      by_cases hk : key' = key
      · rw [if_pos hk] at h
        cases h
      · rw [if_neg hk] at h
        exact hlog h
    | reset key' =>
      rw [sinceEnd_reset] at h
      by_cases hk : key' = key
      · rw [if_pos hk] at h
        cases h
      · rw [if_neg hk] at h
        exact hlog h

theorem split_append_singleton {e : Event} (h : log ++ [event] = before ++ e :: after) :
    (∃ rest, log = before ++ e :: rest) ∨ (log = before ∧ event = e) := by
  rcases List.eq_nil_or_concat after with rfl | ⟨rest, last, rfl⟩
  · obtain ⟨hlog, he⟩ := List.append_inj' h rfl
    exact .inr ⟨hlog, List.singleton_inj.mp he⟩
  · rw [List.concat_eq_append, ← List.cons_append, ← List.append_assoc] at h
    exact .inl ⟨rest, (List.append_inj' h rfl).1⟩

end Log

/-! ### What a step may do -/

/-- What a counted attempt leaves in the keyspace. -/
structure CountsAs (policy : LadderPolicy) (key : CounterKey) (now : ℕ) (known : Bool)
    (newRun : RunId) (store : Store) (n : ℕ) (run : RunId) (next : Counter) : Prop where
  n_eq : next.n = n
  run_eq : next.run = run
  expireAt_eq : next.expireAt = now + keptMs n policy
  /-- The attempt begins a run, or goes on with the one that the counter holds. -/
  source : (store.counter now key = none ∧ n = 1 ∧ run = newRun ∧
      next.waitUntil = Double.add now (ladderWaitMs n policy) ∧ next.k = if known then 1 else 0) ∨
    ∃ counter, store.counter now key = some counter ∧ n = counter.n + 1 ∧ run = counter.run ∧
      (counter.waitUntil ≤ now ∨ (known = true ∧ counter.k < policy.knownIpFreeFailures)) ∧
      next.waitUntil = max (Double.add now (ladderWaitMs n policy)) counter.waitUntil ∧
      next.k = if known then counter.k + 1 else counter.k

theorem countsAs_of_reserveScript {policy : LadderPolicy} {key : CounterKey} {now n : ℕ}
    {ip : String} {newRun run : RunId} {store store' : Store}
    (h : reserveScript policy key now ip newRun store = (.counted n run, store')) :
    ∃ next, store' = store.setCounter key next ∧
      CountsAs policy key now (isKnown policy now ip (store.score now key.knownIps ip)) newRun
        store n run next := by
  rw [reserveScript] at h
  dsimp only at h
  split at h
  · cases h
  case isFalse hfree =>
    cases hstate : store.counter now key with
    | none =>
      simp only [hstate, Option.map_none, Option.getD_none, Prod.mk.injEq,
        ReserveReply.counted.injEq] at h
      obtain ⟨⟨rfl, rfl⟩, rfl⟩ := h
      refine ⟨_, rfl, rfl, rfl, rfl, .inl ⟨hstate, rfl, rfl, ?_, rfl⟩⟩
      rw [← scriptWaitMs_eq]
      exact Nat.max_eq_left (Nat.zero_le _)
    | some counter =>
      simp only [hstate, Option.map_some, Option.getD_some, Prod.mk.injEq,
        ReserveReply.counted.injEq] at h hfree
      obtain ⟨⟨rfl, rfl⟩, rfl⟩ := h
      refine ⟨_, rfl, rfl, rfl, rfl, .inr ⟨counter, hstate, rfl, rfl, ?_, ?_, rfl⟩⟩
      · rw [not_and, not_not] at hfree
        rcases Nat.lt_or_ge now counter.waitUntil with hwait | hwait
        · exact .inr (hfree hwait)
        · exact .inl hwait
      · rw [← scriptWaitMs_eq]

/-- A settlement leaves every counter as it is, but that of its own run after a success. -/
theorem counters_settle (r : Reservation) (outcome : Outcome) (remember : Bool) (now : ℕ)
    (store : Store) (key : CounterKey) :
    (settle r outcome remember now store).2.counters key = store.counters key ∨
      (outcome = .success ∧ key = r.key ∧
        ((settle r outcome remember now store).2.counters key = none ∨
          ∃ counter, store.counters key = some counter ∧ counter.run = r.run ∧
            (settle r outcome remember now store).2.counters key =
              some { counter with n := counter.n - 1 })) := by
  cases outcome with
  | failure =>
    refine .inl ?_
    rw [settle]
    split
    · rfl
    · split <;> rfl
  | success =>
    have hset : ∀ (settled : Store) (ip : String),
        (if 0 < r.policy.knownIpMs ∧ ip ≠ "" then
          settled.setKnownIps r.key.knownIps
            { members := rememberIp r.policy.knownIpMs now ip (store.members now r.key.knownIps)
              expireAt := now + r.policy.knownIpMs }
        else settled).counters = settled.counters := by
      intro settled ip
      split <;> rfl
    simp only [settle, settleSuccessScript, hset]
    cases hc : store.counter now r.key with
    | none => exact .inl rfl
    | some counter =>
      obtain ⟨hcounter, -⟩ := Store.counter_eq_some_iff.mp hc
      dsimp only
      by_cases hrun : counter.run = r.run
      case neg =>
        rw [if_neg hrun]
        exact .inl rfl
      rw [if_pos hrun]
      by_cases hkey : key = r.key
      case neg =>
        left
        split
        · exact Store.counters_del_of_ne hkey
        · split
          · exact Store.counters_del_of_ne hkey
          · exact Store.counters_setCounter_of_ne hkey
      subst hkey
      refine .inr ⟨trivial, rfl, ?_⟩
      split
      · exact .inl Store.counters_del_self
      · split
        · exact .inl Store.counters_del_self
        · exact .inr ⟨counter, hcounter, hrun, Store.counters_setCounter_self⟩

/-- Everything a step of the ladder may do. -/
inductive LadderSteps (ladder : Ladder) (s : LadderState) : LadderState → Prop
  | ticked (now : EpochMs) (h : s.now.ms ≤ now.ms) : LadderSteps ladder s { s with now }
  /-- An attempt inside a wait. -/
  | refused (newRun : RunId) : LadderSteps ladder s { s with issued := newRun :: s.issued }
  | reserved (r : Reservation) (newRun : RunId) (next : Counter) (fresh : newRun ∉ s.issued)
      (policy : ladder.policies r.key.factor = some r.policy)
      (counts : CountsAs r.policy r.key s.now.ms (s.attempt r).known newRun s.store r.failures
        r.run next) :
      LadderSteps ladder s { s with
        store := s.store.setCounter r.key next
        issued := newRun :: s.issued
        outstanding := r :: s.outstanding
        log := s.log ++ [.counted (s.attempt r)] }
  | failed (r : Reservation) (remember : Bool) :
      LadderSteps ladder s { s with
        store := (settle r .failure remember s.now.ms s.store).2
        outstanding := s.outstanding.erase r }
  | succeeded (r : Reservation) (remember : Bool) :
      LadderSteps ladder s { s with
        store := (settle r .success remember s.now.ms s.store).2
        outstanding := s.outstanding.erase r
        log := s.log ++ [.succeeded r.key r.run] }
  | reset (key : CounterKey) :
      LadderSteps ladder s { s with store := s.store.del key, log := s.log ++ [.reset key] }

theorem Ladder.reserve_eq_ok {ladder : Ladder} {input : ReserveInput} {now : ℕ} {newRun : RunId}
    {store store' : Store} {verdict : LadderVerdict}
    (h : ladder.reserve input now newRun store = .ok (verdict, store')) :
    (∃ seconds, verdict = .wait seconds ∧ store' = store) ∨
      ∃ r, verdict = .reserved r ∧ ladder.policies r.key.factor = some r.policy ∧
        reserveScript r.policy r.key now r.ip newRun store =
          (.counted r.failures r.run, store') := by
  simp only [Ladder.reserve, Guards.bind_eq_ok_iff, Guards.require_eq_ok_iff] at h
  obtain ⟨policy, hpolicy, part, -, h⟩ := h
  split at h
  case h_1 msLeft store₁ hscript =>
    cases h
    refine .inl ⟨_, rfl, ?_⟩
    rw [reserveScript] at hscript
    dsimp only at hscript
    split at hscript
    · exact (Prod.mk.inj hscript).2.symm
    · cases (Prod.mk.inj hscript).1
  case h_2 failures run store₁ hscript =>
    cases h
    exact .inr ⟨_, rfl, hpolicy, hscript⟩

theorem ladderSteps_of_step {ladder : Ladder} {s t : LadderState} {action : LadderAction}
    (h : s.step ladder action = some t) : LadderSteps ladder s t := by
  cases action with
  | tick now =>
    simp only [LadderState.step, Option.ite_none_right_eq_some, Option.some.injEq] at h
    obtain ⟨hle, rfl⟩ := h
    exact .ticked now hle
  | reserve input newRun =>
    simp only [LadderState.step, Option.ite_none_left_eq_some] at h
    obtain ⟨hfresh, h⟩ := h
    split at h
    case h_1 r store hreserve =>
      cases h
      rcases Ladder.reserve_eq_ok hreserve with ⟨_, hverdict, -⟩ | ⟨r', hverdict, hpolicy, hscript⟩
      · cases hverdict
      · cases hverdict
        obtain ⟨next, rfl, hcounts⟩ := countsAs_of_reserveScript hscript
        exact .reserved r newRun next hfresh hpolicy hcounts
    case h_2 seconds store hreserve =>
      cases h
      rcases Ladder.reserve_eq_ok hreserve with ⟨_, -, rfl⟩ | ⟨r', hverdict, -⟩
      · exact .refused newRun
      · cases hverdict
    case h_3 => cases h
  | settle r outcome remember =>
    simp only [LadderState.step, Option.ite_none_right_eq_some, Option.some.injEq] at h
    obtain ⟨-, rfl⟩ := h
    cases outcome with
    | success => exact .succeeded r remember
    | failure => exact .failed r remember
  | reset key =>
    cases h
    exact .reset key

/-! ### The invariant -/

section Invariant

variable {ladder : Ladder} {s t : LadderState} {key : CounterKey} {policy : LadderPolicy}

/-- No time that the counter lets pass is inside the wait of `a`. -/
def Counter.Holds (policy : LadderPolicy) (counter : Counter) (a : Attempt) : Prop :=
  ∀ now : EpochMs, counter.waitUntil ≤ now.ms → a.waitEnd policy ≤ now.ms

/-- What a counter knows of its run. -/
structure Tracks (ladder : Ladder) (log : List Event) (key : CounterKey) (counter : Counter) :
    Prop where
  k : counter.k = (attemptsOf log key counter.run).countP (·.known)
  n : SuccessFree log key counter.run → counter.n = (attemptsOf log key counter.run).length
  holds : ∀ policy, ladder.policies key.factor = some policy →
    ∀ a ∈ attemptsOf log key counter.run, counter.Holds policy a

/-- The wait of `a` is over, or the counter of its key holds it. -/
def Waits (policy : LadderPolicy) (s : LadderState) (a : Attempt) : Prop :=
  a.waitEnd policy ≤ s.now.ms ∨
    ∃ counter, s.store.counters a.key = some counter ∧ a.waitEnd policy ≤ counter.expireAt ∧
      counter.Holds policy a

/-- What holds in every reachable state. -/
structure LadderInv (ladder : Ladder) (s : LadderState) : Prop where
  /-- The runs that counters hold were drawn. -/
  issued : ∀ key counter, s.store.counters key = some counter → counter.run ∈ s.issued
  /-- So were those of the log, whose attempts are past. -/
  logged : ∀ a, .counted a ∈ s.log → a.run ∈ s.issued ∧ a.now.ms ≤ s.now.ms
  tracks : ∀ key counter, s.store.counters key = some counter → Tracks ladder s.log key counter
  admitted : ∀ key policy run, ladder.policies key.factor = some policy →
    Admitted (ladderWaitMs · policy) policy.knownIpFreeFailures
      ((attemptsOf s.log key run).map Attempt.toTry)
  /-- An attempt counts as known only where the policy knows addresses at all. -/
  known : ∀ a policy, .counted a ∈ s.log → ladder.policies a.key.factor = some policy →
    a.known = true → 0 < policy.knownIpMs
  numbered : ∀ key run, SuccessFree s.log key run →
    (attemptsOf s.log key run).map (·.failures) =
      List.range' 1 (attemptsOf s.log key run).length
  waits : ∀ key policy, ladder.policies key.factor = some policy →
    ∀ a ∈ sinceEnd key s.log, Waits policy s a
  /-- An attempt outside the exemption came after the waits set since the counter's last end. -/
  history : ∀ before a after policy, s.log = before ++ .counted a :: after →
    ladder.policies a.key.factor = some policy →
    ¬ a.Exempt policy (attemptsOf before a.key a.run) →
    ∀ b ∈ sinceEnd a.key before, b.waitEnd policy ≤ a.now.ms

/-- A step that logs nothing, and leaves each counter as it is. -/
theorem LadderInv.frame (hs : LadderInv ladder s) (hnow : s.now.ms ≤ t.now.ms)
    (hissued : s.issued ⊆ t.issued) (hcounters : t.store.counters = s.store.counters)
    (hlog : t.log = s.log) : LadderInv ladder t where
  issued key counter h := by
    rw [hcounters] at h
    exact hissued (hs.issued key counter h)
  logged a h := by
    rw [hlog] at h
    exact ⟨hissued (hs.logged a h).1, (hs.logged a h).2.trans hnow⟩
  tracks key counter h := by
    rw [hcounters] at h
    rw [hlog]
    exact hs.tracks key counter h
  admitted := by
    rw [hlog]
    exact hs.admitted
  known := by
    rw [hlog]
    exact hs.known
  numbered := by
    rw [hlog]
    exact hs.numbered
  waits key policy hpolicy a ha := by
    rw [hlog] at ha
    rcases hs.waits key policy hpolicy a ha with hover | hheld
    · exact .inl (hover.trans hnow)
    · rw [← hcounters] at hheld
      exact .inr hheld
  history := by
    rw [hlog]
    exact hs.history

/-- A success or a reset of `key`, which may take failures back from its counter or end it. -/
theorem LadderInv.ended (hs : LadderInv ladder s) {event : Event} (hnow : t.now = s.now)
    (hissued : t.issued = s.issued) (hlog : t.log = s.log ++ [event])
    (hevent : event = .reset key ∨ ∃ run, event = .succeeded key run)
    (hcounters : ∀ key', t.store.counters key' = s.store.counters key' ∨
      (key' = key ∧ (t.store.counters key = none ∨
        ∃ counter, s.store.counters key = some counter ∧ event = .succeeded key counter.run ∧
          t.store.counters key = some { counter with n := counter.n - 1 }))) :
    LadderInv ladder t := by
  have hattempts : ∀ key run, attemptsOf t.log key run = attemptsOf s.log key run := by
    intro key run
    rw [hlog]
    rcases hevent with rfl | ⟨_, rfl⟩
    · exact attemptsOf_reset
    · exact attemptsOf_succeeded
  have hsince : ∀ key',
      sinceEnd key' t.log = if key = key' then [] else sinceEnd key' s.log := by
    intro key'
    rw [hlog]
    rcases hevent with rfl | ⟨_, rfl⟩
    · exact sinceEnd_reset
    · exact sinceEnd_succeeded
  have hcounted : ∀ a, .counted a ∈ t.log → .counted a ∈ s.log := by
    intro a ha
    rw [hlog] at ha
    rcases List.mem_append.mp ha with ha | ha
    · exact ha
    · rw [← List.mem_singleton.mp ha] at hevent
      rcases hevent with h | ⟨_, h⟩ <;> cases h
  have hfree : ∀ key run, SuccessFree t.log key run → SuccessFree s.log key run := by
    intro key run h hmem
    rw [SuccessFree, hlog] at h
    exact h (List.mem_append_left _ hmem)
  refine
    { issued := ?_, logged := ?_, tracks := ?_, admitted := ?_, known := ?_, numbered := ?_,
      waits := ?_, history := ?_ }
  · intro key' counter h
    rw [hissued]
    rcases hcounters key' with heq | ⟨rfl, hnone | ⟨old, hold, -, hnew⟩⟩
    · exact hs.issued key' counter (heq ▸ h)
    · rw [hnone] at h
      cases h
    · rw [hnew] at h
      cases h
      exact hs.issued key' old hold
  · intro a ha
    rw [hissued, hnow]
    exact hs.logged a (hcounted a ha)
  · intro key' counter h
    rcases hcounters key' with heq | ⟨rfl, hnone | ⟨old, hold, hsucceeded, hnew⟩⟩
    · have htracks := hs.tracks key' counter (heq ▸ h)
      refine ⟨?_, fun hsf ↦ ?_, ?_⟩
      · rw [hattempts]
        exact htracks.k
      · rw [hattempts]
        exact htracks.n (hfree _ _ hsf)
      · rw [hattempts]
        exact htracks.holds
    · rw [hnone] at h
      cases h
    · rw [hnew] at h
      cases h
      have htracks := hs.tracks key' old hold
      refine ⟨?_, fun hsf ↦ ?_, ?_⟩
      · rw [hattempts]
        exact htracks.k
      · -- The run had a success.
        rw [SuccessFree, hlog, hsucceeded] at hsf
        exact absurd (List.mem_append_right _ (List.mem_singleton_self _)) hsf
      · rw [hattempts]
        exact htracks.holds
  · intro key' policy run hpolicy
    rw [hattempts]
    exact hs.admitted key' policy run hpolicy
  · exact fun a policy ha ↦ hs.known a policy (hcounted a ha)
  · intro key' run hsf
    rw [hattempts]
    exact hs.numbered key' run (hfree _ _ hsf)
  · intro key' policy hpolicy a ha
    rw [hsince] at ha
    by_cases hk : key = key'
    · rw [if_pos hk] at ha
      cases ha
    · rw [if_neg hk] at ha
      have hcounter : t.store.counters a.key = s.store.counters a.key := by
        rcases hcounters a.key with heq | ⟨hkey, -⟩
        · exact heq
        · exact absurd (hkey.symm.trans (counted_of_mem_sinceEnd ha).2) hk
      rw [Waits, hnow, hcounter]
      exact hs.waits key' policy hpolicy a ha
  · intro before a after policy hsplit
    rw [hlog] at hsplit
    rcases split_append_singleton hsplit with ⟨rest, hs'⟩ | ⟨-, rfl⟩
    · exact hs.history before a rest policy hs'
    · rcases hevent with h | ⟨_, h⟩ <;> cases h

theorem LadderPolicy.Sound.waitEnd_le (h : policy.Sound) {a : Attempt} {now : ℕ}
    (ha : a.now.ms ≤ now) (n : ℕ) : a.waitEnd policy ≤ now + keptMs n policy := by
  have hwait : ladderWaitMs a.failures policy ≤ policy.maxWaitMs := ladderWaitMs_le _ _
  have hkept : policy.maxWaitMs ≤ keptMs n policy := by
    rw [keptMs]
    split
    · exact h.maxWaitMs_le_retentionMs
    · exact h.maxWaitMs_le_freeRetentionMs
  exact Nat.add_le_add ha (hwait.trans hkept)

namespace CountsAs

variable {r : Reservation} {newRun : RunId} {next : Counter}
  (h : CountsAs r.policy r.key s.now.ms (s.attempt r).known newRun s.store r.failures r.run next)

include h

theorem add_le_waitUntil :
    Double.add s.now.ms (ladderWaitMs r.failures r.policy) ≤ next.waitUntil := by
  rcases h.source with ⟨-, -, -, hwait, -⟩ | ⟨_, -, -, -, -, hwait, -⟩
  · exact hwait.ge
  · rw [hwait]
    exact Nat.le_max_left _ _

theorem holds_attempt : next.Holds r.policy (s.attempt r) := by
  intro now hle
  by_contra hlt
  have hround := (Double.lt_round_iff now.lt_two_pow).mpr (Nat.lt_of_not_le hlt)
  exact absurd (h.add_le_waitUntil.trans hle) (Nat.not_le_of_lt hround)

/-- A counter that goes on holds what it held. -/
theorem holds_of_holds {counter : Counter} {a : Attempt}
    (hcounter : s.store.counter s.now.ms r.key = some counter)
    (ha : counter.Holds policy a) : next.Holds policy a := by
  rcases h.source with ⟨hnone, -⟩ | ⟨_, hsome, -, -, -, hwait, -⟩
  · rw [hnone] at hcounter
    cases hcounter
  · cases hsome.symm.trans hcounter
    exact fun now hle ↦ ha now ((Nat.le_max_right _ _).trans (hwait ▸ hle))

/-- An attempt outside the exemption is past its counter's wait, where the counter is there. -/
theorem waitUntil_le {counter : Counter} (hs : LadderInv ladder s)
    (hcounter : s.store.counter s.now.ms r.key = some counter)
    (hexempt : ¬ (s.attempt r).Exempt r.policy (attemptsOf s.log r.key r.run)) :
    counter.waitUntil ≤ s.now.ms := by
  rcases h.source with ⟨hnone, -⟩ | ⟨_, hsome, -, hrun, hfree, -⟩
  · rw [hnone] at hcounter
    cases hcounter
  · cases hsome.symm.trans hcounter
    refine hfree.resolve_right fun hknown ↦ hexempt ⟨hknown.1, ?_⟩
    rw [List.countP_map, hrun]
    exact ((hs.tracks r.key counter (Store.counter_eq_some_iff.mp hcounter).1).k ▸ hknown.2)

/-- The run's earlier attempts: none where it begins, else those that its counter tracks. -/
theorem attempts_cases (hs : LadderInv ladder s) (fresh : newRun ∉ s.issued) :
    (attemptsOf s.log r.key r.run = [] ∧ r.failures = 1 ∧
        next.k = if (s.attempt r).known then 1 else 0) ∨
      ∃ counter, s.store.counter s.now.ms r.key = some counter ∧ counter.run = r.run ∧
        r.failures = counter.n + 1 ∧ Tracks ladder s.log r.key counter ∧
        next.k = if (s.attempt r).known then counter.k + 1 else counter.k := by
  rcases h.source with ⟨-, hn, rfl, -, hk⟩ | ⟨counter, hcounter, hn, hrun, -, -, hk⟩
  · refine .inl ⟨List.eq_nil_iff_forall_not_mem.mpr fun a ha ↦ ?_, hn, hk⟩
    obtain ⟨hlog, -, hrun⟩ := mem_attemptsOf.mp ha
    exact fresh (hrun ▸ (hs.logged a hlog).1)
  · exact .inr ⟨counter, hcounter, hrun.symm, hn,
      hs.tracks r.key counter (Store.counter_eq_some_iff.mp hcounter).1, hk⟩

end CountsAs

theorem LadderInv.reserved (hs : LadderInv ladder s) {r : Reservation} {newRun : RunId}
    {next : Counter} (fresh : newRun ∉ s.issued)
    (hpolicy : ladder.policies r.key.factor = some r.policy)
    (h : CountsAs r.policy r.key s.now.ms (s.attempt r).known newRun s.store r.failures r.run
      next)
    (hnow : t.now = s.now) (hissued : t.issued = newRun :: s.issued)
    (hstore : t.store = s.store.setCounter r.key next)
    (hlog : t.log = s.log ++ [.counted (s.attempt r)]) : LadderInv ladder t := by
  have hsound := ladder.sound hpolicy
  have hattempts : ∀ key run, attemptsOf t.log key run =
      attemptsOf s.log key run ++ if r.key = key ∧ r.run = run then [s.attempt r] else [] := by
    intro key run
    rw [hlog, attemptsOf_counted]
    rfl
  have hown : attemptsOf t.log r.key r.run = attemptsOf s.log r.key r.run ++ [s.attempt r] := by
    rw [hattempts, if_pos ⟨rfl, rfl⟩]
  have hfree : ∀ key run, SuccessFree t.log key run → SuccessFree s.log key run := by
    intro key run hsf hmem
    rw [SuccessFree, hlog] at hsf
    exact hsf (List.mem_append_left _ hmem)
  have hcounted : ∀ a, .counted a ∈ t.log → .counted a ∈ s.log ∨ a = s.attempt r := by
    intro a ha
    rw [hlog] at ha
    rcases List.mem_append.mp ha with ha | ha
    · exact .inl ha
    · cases List.mem_singleton.mp ha
      exact .inr rfl
  have hnumber : SuccessFree s.log r.key r.run →
      r.failures = (attemptsOf s.log r.key r.run).length + 1 := by
    intro hsf
    rcases h.attempts_cases hs fresh with ⟨hnil, hn, -⟩ | ⟨counter, -, hrun, hn, htracks, -⟩
    · rw [hnil, hn]
      rfl
    · rw [hn, ← hrun, htracks.n (hrun ▸ hsf)]
  -- The waits of the run's own earlier attempts.
  have hholds : ∀ policy, ladder.policies r.key.factor = some policy →
      ∀ a ∈ attemptsOf s.log r.key r.run, next.Holds policy a := by
    intro policy hpolicy' a ha
    rcases h.attempts_cases hs fresh with ⟨hnil, -⟩ | ⟨counter, hcounter, hrun, -, htracks, -⟩
    · rw [hnil] at ha
      cases ha
    · exact h.holds_of_holds hcounter (htracks.holds policy hpolicy' a (hrun.symm ▸ ha))
  have hover : ¬ (s.attempt r).Exempt r.policy (attemptsOf s.log r.key r.run) →
      ∀ a ∈ attemptsOf s.log r.key r.run, a.waitEnd r.policy ≤ s.now.ms := by
    intro hexempt a ha
    rcases h.attempts_cases hs fresh with ⟨hnil, -⟩ | ⟨counter, hcounter, hrun, -, htracks, -⟩
    · rw [hnil] at ha
      cases ha
    · exact htracks.holds r.policy hpolicy a (hrun.symm ▸ ha) s.now
        (h.waitUntil_le hs hcounter hexempt)
  refine
    { issued := ?_, logged := ?_, tracks := ?_, admitted := ?_, known := ?_, numbered := ?_,
      waits := ?_, history := ?_ }
  · intro key counter hc
    rw [hissued]
    rw [hstore] at hc
    by_cases hk : key = r.key
    · subst hk
      cases Store.counters_setCounter_self.symm.trans hc
      rw [h.run_eq]
      rcases h.source with ⟨-, -, hrun, -⟩ | ⟨old, hold, -, hrun, -⟩
      · rw [hrun]
        exact List.mem_cons_self
      · rw [hrun]
        exact List.mem_cons_of_mem _ (hs.issued _ _ (Store.counter_eq_some_iff.mp hold).1)
    · rw [Store.counters_setCounter_of_ne hk] at hc
      exact List.mem_cons_of_mem _ (hs.issued key counter hc)
  · intro a ha
    rw [hissued, hnow]
    rcases hcounted a ha with ha | rfl
    · exact ⟨List.mem_cons_of_mem _ (hs.logged a ha).1, (hs.logged a ha).2⟩
    · refine ⟨?_, Nat.le_refl _⟩
      show r.run ∈ newRun :: s.issued
      rcases h.source with ⟨-, -, hrun, -⟩ | ⟨old, hold, -, hrun, -⟩
      · rw [hrun]
        exact List.mem_cons_self
      · rw [hrun]
        exact List.mem_cons_of_mem _ (hs.issued _ _ (Store.counter_eq_some_iff.mp hold).1)
  · intro key counter hc
    rw [hstore] at hc
    by_cases hk : key = r.key
    · subst hk
      cases Store.counters_setCounter_self.symm.trans hc
      refine ⟨?_, fun hsf ↦ ?_, fun policy hpolicy' a ha ↦ ?_⟩
      · rw [h.run_eq, hown, List.countP_append, List.countP_singleton]
        rcases h.attempts_cases hs fresh with
          ⟨hnil, -, hk⟩ | ⟨old, -, hrun, -, htracks, hk⟩
        · rw [hnil, hk]
          simp
        · rw [hk, ← hrun, ← htracks.k]
          split <;> rfl
      · rw [h.run_eq] at hsf ⊢
        rw [hown, List.length_append, h.n_eq]
        exact hnumber (hfree _ _ hsf)
      · rw [h.run_eq, hown] at ha
        rcases List.mem_append.mp ha with ha | ha
        · exact hholds policy hpolicy' a ha
        · rw [List.mem_singleton.mp ha]
          cases hpolicy.symm.trans hpolicy'
          exact h.holds_attempt
    · rw [Store.counters_setCounter_of_ne hk] at hc
      have htracks := hs.tracks key counter hc
      have hsame : attemptsOf t.log key counter.run = attemptsOf s.log key counter.run := by
        rw [hattempts, if_neg fun hboth ↦ hk hboth.1.symm, List.append_nil]
      refine ⟨?_, fun hsf ↦ ?_, ?_⟩
      · rw [hsame]
        exact htracks.k
      · rw [hsame]
        exact htracks.n (hfree _ _ hsf)
      · rw [hsame]
        exact htracks.holds
  · intro key policy run hpolicy'
    by_cases hboth : r.key = key ∧ r.run = run
    · obtain ⟨rfl, rfl⟩ := hboth
      cases hpolicy.symm.trans hpolicy'
      rw [hown, List.map_append]
      refine .snoc (hs.admitted r.key r.policy r.run hpolicy) ?_ ?_
      · intro b hb
        obtain ⟨a, ha, rfl⟩ := List.mem_map.mp hb
        exact (hs.logged a (mem_attemptsOf.mp ha).1).2
      · by_cases hexempt : (s.attempt r).Exempt r.policy (attemptsOf s.log r.key r.run)
        · exact .inl hexempt
        · refine .inr ?_
          rintro ⟨b, hb, hlt⟩
          obtain ⟨a, ha, rfl⟩ := List.mem_map.mp hb
          exact absurd (hover hexempt a ha) (Nat.not_le_of_lt hlt)
    · rw [hattempts, if_neg hboth, List.append_nil]
      exact hs.admitted key policy run hpolicy'
  · intro a policy ha hpolicy' hknown
    rcases hcounted a ha with ha | rfl
    · exact hs.known a policy ha hpolicy' hknown
    · cases hpolicy.symm.trans hpolicy'
      simp only [LadderState.attempt, isKnown, Bool.and_eq_true, decide_eq_true_eq] at hknown
      exact hknown.1.1
  · intro key run hsf
    have hnumbered := hs.numbered key run (hfree _ _ hsf)
    by_cases hboth : r.key = key ∧ r.run = run
    · obtain ⟨rfl, rfl⟩ := hboth
      rw [hown, List.map_append, hnumbered, List.length_append, List.length_singleton,
        List.range'_concat, List.map_singleton]
      congr 2
      show r.failures = _
      rw [hnumber (hfree _ _ hsf)]
      omega
    · rw [hattempts, if_neg hboth, List.append_nil]
      exact hnumbered
  · intro key policy hpolicy' a ha
    rw [hlog, sinceEnd_counted] at ha
    rcases List.mem_append.mp ha with ha | ha
    · have hkey := (counted_of_mem_sinceEnd ha).2
      have hpast := (hs.logged a (counted_of_mem_sinceEnd ha).1).2
      rcases hs.waits key policy hpolicy' a ha with hend | ⟨counter, hc, hexpire, hheld⟩
      · exact .inl (hnow ▸ hend)
      by_cases hk : a.key = r.key
      · rw [← hkey, hk] at hpolicy'
        cases hpolicy.symm.trans hpolicy'
        rw [hk] at hc
        by_cases hlive : s.now.ms ≤ counter.expireAt
        · refine .inr ⟨next, ?_, ?_, ?_⟩
          · rw [hstore, hk]
            exact Store.counters_setCounter_self
          · rw [h.expireAt_eq]
            exact hsound.waitEnd_le hpast _
          · exact h.holds_of_holds (Store.counter_eq_some_iff.mpr ⟨hc, hlive⟩) hheld
        · -- The counter is gone, and so is the wait.
          left
          rw [hnow]
          omega
      · refine .inr ⟨counter, ?_, hexpire, hheld⟩
        rw [hstore, Store.counters_setCounter_of_ne hk]
        exact hc
    · by_cases hk : (s.attempt r).key = key
      · rw [if_pos hk] at ha
        cases List.mem_singleton.mp ha
        rw [← hk] at hpolicy'
        cases hpolicy.symm.trans hpolicy'
        refine .inr ⟨next, ?_, ?_, h.holds_attempt⟩
        · rw [hstore]
          exact Store.counters_setCounter_self
        · rw [h.expireAt_eq]
          exact hsound.waitEnd_le (Nat.le_refl _) _
      · rw [if_neg hk] at ha
        cases ha
  · intro before a after policy hsplit hpolicy' hexempt b hb
    rw [hlog] at hsplit
    rcases split_append_singleton hsplit with ⟨rest, hs'⟩ | ⟨rfl, ha⟩
    · exact hs.history before a rest policy hs' hpolicy' hexempt b hb
    · cases ha
      cases hpolicy.symm.trans hpolicy'
      have hkey := (counted_of_mem_sinceEnd hb).2
      rcases hs.waits _ r.policy hpolicy b hb with hend | ⟨counter, hc, hexpire, hheld⟩
      · exact hend
      rw [hkey] at hc
      by_cases hlive : s.now.ms ≤ counter.expireAt
      · exact hheld s.now (h.waitUntil_le hs (Store.counter_eq_some_iff.mpr ⟨hc, hlive⟩) hexempt)
      · show b.waitEnd r.policy ≤ s.now.ms
        omega

theorem ladderInv_step {action : LadderAction} (hs : LadderInv ladder s)
    (h : s.step ladder action = some t) : LadderInv ladder t := by
  cases ladderSteps_of_step h with
  | ticked now hle => exact hs.frame hle (List.Subset.refl _) rfl rfl
  | refused newRun => exact hs.frame (Nat.le_refl _) (List.subset_cons_self _ _) rfl rfl
  | reserved r newRun next fresh policy counts =>
    exact hs.reserved fresh policy counts rfl rfl rfl rfl
  | failed r remember =>
    refine hs.frame (Nat.le_refl _) (List.Subset.refl _) ?_ rfl
    funext key
    rcases counters_settle r .failure remember s.now.ms s.store key with heq | ⟨hno, -⟩
    · exact heq
    · cases hno
  | succeeded r remember =>
    refine hs.ended rfl rfl rfl (.inr ⟨r.run, rfl⟩) fun key ↦ ?_
    rcases counters_settle r .success remember s.now.ms s.store key with
      heq | ⟨-, rfl, hnone | ⟨counter, hc, hrun, hnew⟩⟩
    · exact .inl heq
    · exact .inr ⟨rfl, .inl hnone⟩
    · exact .inr ⟨rfl, .inr ⟨counter, hc, by rw [hrun], hnew⟩⟩
  | reset key =>
    refine hs.ended rfl rfl rfl (.inl rfl) fun key' ↦ ?_
    by_cases hk : key' = key
    · exact .inr ⟨hk, .inl Store.counters_del_self⟩
    · exact .inl (Store.counters_del_of_ne hk)

theorem ladderInv_of_initial (h : (ladderSystem ladder).initial s) : LadderInv ladder s := by
  obtain ⟨hstore, hissued, -, hlog⟩ := h
  have hnone : ∀ key, s.store.counters key = none := fun key ↦ by rw [hstore]; rfl
  have hattempts : ∀ key run, attemptsOf s.log key run = [] := fun key run ↦ by rw [hlog]; rfl
  refine
    { issued := ?_, logged := ?_, tracks := ?_, admitted := ?_, known := ?_, numbered := ?_,
      waits := ?_, history := ?_ }
  · intro key counter hc
    rw [hnone] at hc
    cases hc
  · intro a ha
    rw [hlog] at ha
    cases ha
  · intro key counter hc
    rw [hnone] at hc
    cases hc
  · intro key policy run _
    rw [hattempts]
    exact .nil
  · intro a policy ha
    rw [hlog] at ha
    cases ha
  · intro key run _
    rw [hattempts]
    rfl
  · intro key policy _ a ha
    rw [hlog] at ha
    cases ha
  · intro before a after policy hsplit
    rw [hlog] at hsplit
    cases before <;> cases hsplit

theorem ladderInv_of_reachable (h : (ladderSystem ladder).Reachable s) : LadderInv ladder s :=
  System.Invariant.reachable ⟨fun _ ↦ ladderInv_of_initial, fun _ _ _ ↦ ladderInv_step⟩ h

end Invariant

end QAuth.SignIn
