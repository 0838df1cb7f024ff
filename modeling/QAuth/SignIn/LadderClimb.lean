import QAuth.SignIn.LadderRuns

/-!
# The climb to the hard ceiling

What the ladder promises of every run without a success, whatever mix of known and unknown
addresses makes its attempts, and what the climb takes where no address is known.
-/

namespace QAuth.SignIn

open Transition Backoff

variable {ladder : Ladder} {s : LadderState} {key : CounterKey} {policy : LadderPolicy}
  {run : RunId}

/-- No attempt outside the exemption is made inside a wait set since its counter's last success or
reset, though the run that set the wait be gone. -/
theorem not_inside_wait (hs : (ladderSystem ladder).Reachable s) {before after : List Event}
    {a : Attempt} (hlog : s.log = before ++ .counted a :: after)
    (hpolicy : ladder.policies a.key.factor = some policy)
    (hexempt : ¬ a.Exempt policy (attemptsOf before a.key a.run)) :
    ∀ b ∈ sinceEnd a.key before, b.waitEnd policy ≤ a.now.ms :=
  (ladderInv_of_reachable hs).history before a after policy hlog hpolicy hexempt

theorem LadderPolicy.Sound.ladderWaitMs_zero (h : policy.Sound) : ladderWaitMs 0 policy = 0 :=
  ladderWaitMs_of_lt h.one_le_freeFailures

theorem LadderInv.skippedWaits_le (hs : LadderInv ladder s)
    (hpolicy : ladder.policies key.factor = some policy) {attempts after : List Attempt}
    (hattempts : attemptsOf s.log key run = attempts ++ after) :
    skippedWaits policy attempts ≤ if 0 < policy.knownIpMs then policy.knownIpFreeFailures else 0
    := by
  have hadmitted := hs.admitted key policy run hpolicy
  rw [hattempts, List.map_append] at hadmitted
  by_cases hknown : 0 < policy.knownIpMs
  · rw [if_pos hknown]
    exact hadmitted.of_append.skips_le
  · have hnone : (attempts.map Attempt.toTry).countP (·.favoured) = 0 := by
      rw [List.countP_eq_zero]
      intro b hb hfavoured
      obtain ⟨a, ha, rfl⟩ := List.mem_map.mp hb
      have hmem : a ∈ attemptsOf s.log key run := hattempts ▸ List.mem_append_left _ ha
      obtain ⟨hlog, hkey, -⟩ := mem_attemptsOf.mp hmem
      exact hknown (hs.known a policy hlog (hkey ▸ hpolicy) hfavoured)
    have := hadmitted.of_append.skips_le_countP
    rw [hnone, Nat.zero_min] at this
    rw [if_neg hknown]
    exact this

/-- The attempts of a run up to one of them: as many as its count, and their climb. -/
theorem LadderInv.climb (hs : LadderInv ladder s)
    (hpolicy : ladder.policies key.factor = some policy) (hfree : SuccessFree s.log key run)
    {before after : List Attempt} {first last : Attempt}
    (hattempts : attemptsOf s.log key run = before ++ last :: after)
    (hfirst : (attemptsOf s.log key run).head? = some first) :
    first.now.ms + climbMs policy (last.failures - skippedWaits policy (before ++ [last])) ≤
        last.now.ms := by
  have hsound := ladder.sound hpolicy
  rw [← List.singleton_append, ← List.append_assoc] at hattempts
  have hadmitted := hs.admitted key policy run hpolicy
  have hnumbered := hs.numbered key run hfree
  rw [hattempts, List.map_append] at hadmitted
  rw [hattempts, List.map_append, List.length_append, List.range'_append_1.symm] at hnumbered
  obtain ⟨hnumbered, -⟩ := List.append_inj hnumbered (by simp)
  have hlen : last.failures = (before ++ [last]).length := by
    have := congrArg List.getLast? hnumbered
    simpa [List.range'_concat, Nat.add_comm] using this
  have hhead : (before ++ [last]).head? = some first := by
    rw [hattempts, List.head?_append] at hfirst
    cases before <;> simpa using hfirst
  have hclimb := hadmitted.of_append.climb_le (fun _ _ hle ↦ hsound.ladderWaitMs_mono hle)
    hsound.ladderWaitMs_zero (by simpa [Function.comp_def, Attempt.toTry] using hnumbered)
    (by rw [List.head?_map, hhead, Option.map_some])
    (by rw [List.map_append, List.map_singleton, List.getLast?_concat])
  rw [List.length_map, ← hlen] at hclimb
  rw [climbMs, waitsMs, Nat.Ico_zero_eq_range]
  exact hclimb

theorem climbMs_mono (policy : LadderPolicy) : Monotone (climbMs policy) :=
  monotone_nat_of_le_succ fun n ↦ by
    rw [climbMs_succ]
    exact Nat.le_add_right _ _

/-- With no known address the climb takes at least all its waits. -/
theorem climbMs_le_of_unknown (hs : (ladderSystem ladder).Reachable s)
    (hpolicy : ladder.policies key.factor = some policy) (hfree : SuccessFree s.log key run)
    (hunknown : ∀ a ∈ attemptsOf s.log key run, a.known = false) {first last : Attempt}
    (hfirst : (attemptsOf s.log key run).head? = some first)
    (hlast : last ∈ attemptsOf s.log key run) :
    first.now.ms + climbMs policy last.failures ≤ last.now.ms := by
  have hinv := ladderInv_of_reachable hs
  obtain ⟨before, after, hsplit⟩ := List.append_of_mem hlast
  have hclimb := hinv.climb hpolicy hfree hsplit hfirst
  rw [← List.singleton_append, ← List.append_assoc] at hsplit
  have hadmitted := hinv.admitted key policy run hpolicy
  rw [hsplit, List.map_append] at hadmitted
  have hskips := hadmitted.of_append.skips_le_countP
  have hnone : ((before ++ [last]).map Attempt.toTry).countP (·.favoured) = 0 := by
    rw [List.countP_eq_zero]
    intro b hb
    obtain ⟨a, ha, rfl⟩ := List.mem_map.mp hb
    have := hunknown a (hsplit ▸ List.mem_append_left _ ha)
    simpa [Attempt.toTry] using this
  rw [hnone, Nat.zero_min, Nat.le_zero] at hskips
  rw [skippedWaits, hskips, Nat.sub_zero] at hclimb
  exact hclimb

/-- Every success-free run under a policy that passes its check: no attempt outside the exemption
is made inside a wait of the run, the waits never shorten as failures accumulate, at most
`knownIpFreeFailures` attempts skip a wait, and reaching the hard ceiling takes at least half of
the climb. -/
theorem run_climbs (hs : (ladderSystem ladder).Reachable s)
    (hpolicy : ladder.policies key.factor = some policy) (hfree : SuccessFree s.log key run) :
    (∀ before a after, attemptsOf s.log key run = before ++ a :: after →
      ¬ a.Exempt policy before → ¬ a.InsideWait policy before) ∧
    (attemptsOf s.log key run).Pairwise (fun a b ↦ a.failures < b.failures ∧
      ladderWaitMs a.failures policy ≤ ladderWaitMs b.failures policy) ∧
    skippedWaits policy (attemptsOf s.log key run) ≤ policy.knownIpFreeFailures ∧
    ∀ ceiling, policy.hardCeiling = some ceiling →
      ∀ first last, (attemptsOf s.log key run).head? = some first →
        last ∈ attemptsOf s.log key run → last.failures = ceiling →
        climbMs policy ceiling ≤ 2 * (last.now.ms - first.now.ms) := by
  have hinv := ladderInv_of_reachable hs
  have hsound := ladder.sound hpolicy
  have hadmitted := hinv.admitted key policy run hpolicy
  refine ⟨fun before a after hsplit hexempt ↦ ?_, ?_, hadmitted.skips_le,
    fun ceiling hceiling first last hfirst hlast hreached ↦ ?_⟩
  · rw [hsplit, List.map_append, List.map_cons] at hadmitted
    exact hadmitted.not_inside hexempt
  · have hlt : ((attemptsOf s.log key run).map (·.failures)).Pairwise (· < ·) := by
      rw [hinv.numbered key run hfree]
      exact List.pairwise_lt_range'
    exact (List.pairwise_map.mp hlt).imp fun h ↦ ⟨h, hsound.ladderWaitMs_mono (Nat.le_of_lt h)⟩
  · obtain ⟨before, after, hsplit⟩ := List.append_of_mem hlast
    have hclimb := hinv.climb hpolicy hfree hsplit hfirst
    rw [← List.singleton_append, ← List.append_assoc] at hsplit
    have hskips := hinv.skippedWaits_le hpolicy hsplit
    -- What the exemption leaves of the climb is met in full.
    have hle : ceiling - policy.skippable ≤
        last.failures - skippedWaits policy (before ++ [last]) := by
      rw [LadderPolicy.skippable, hceiling, hreached, Option.getD_some]
      by_cases hknown : 0 < policy.knownIpMs
      · rw [if_pos hknown] at hskips ⊢
        omega
      · rw [if_neg hknown] at hskips ⊢
        omega
    have hmet := climbMs_mono policy hle
    have hhalf := hsound.half_le hceiling (by have := last.now.lt_two_pow; omega)
    omega

/-- The ladder with the default policies, which keeps addresses as they are. -/
def plainLadder : Ladder where
  policies := defaultPolicies
  ipDigest _ ip := ip
  accepted := checkLadderPolicy_defaultPolicies

/-- A sign-in that makes an address known, then seven failures from it, all at one time. -/
def sharedAddress : List LadderAction :=
  let input : ReserveInput :=
    { realmId := "realm"
      subject := .identifier "hmac"
      factor := .factor .password
      endUserIp := some "192.0.2.1" }
  let key := ladderCounterKey "realm" "hmac" (.factor .password)
  [.reserve input "first",
    .settle ⟨key, PASSWORD_LADDER_POLICY, "192.0.2.1", "first", 1⟩ .success true] ++
    ["second", "3", "4", "5", "6", "7", "8"].map (LadderAction.reserve input)

def emptyLadder : LadderState where
  now := ⟨0, Nat.zero_le _⟩
  store := .empty
  issued := []
  outstanding := []
  log := []

theorem run_climbs_sharedAddress :
    ∃ s, exec (LadderState.step plainLadder) emptyLadder sharedAddress = some s ∧
      let key := ladderCounterKey "realm" "hmac" (.factor .password)
      let attempts := attemptsOf s.log key "second"
      attempts.length = 7 ∧ skippedWaits PASSWORD_LADDER_POLICY attempts = 2 ∧
        skippedWaits PASSWORD_LADDER_POLICY attempts ≤
          PASSWORD_LADDER_POLICY.knownIpFreeFailures := by
  let key := ladderCounterKey "realm" "hmac" (.factor .password)
  have hfacts : (exec (LadderState.step plainLadder) emptyLadder sharedAddress).map (fun s ↦
      ((attemptsOf s.log key "second").length,
        skippedWaits PASSWORD_LADDER_POLICY (attemptsOf s.log key "second"),
        decide (SuccessFree s.log key "second"))) = some (7, 2, true) := by
    decide
  obtain ⟨s, hexec, h⟩ := Option.map_eq_some_iff.mp hfacts
  simp only [Prod.mk.injEq, decide_eq_true_eq] at h
  obtain ⟨hlength, hskipped, hfree⟩ := h
  have hs : (ladderSystem plainLadder).Reachable s :=
    ⟨emptyLadder, sharedAddress, ⟨rfl, rfl, rfl, rfl⟩, .of_exec hexec⟩
  have hpolicy : plainLadder.policies key.factor = some PASSWORD_LADDER_POLICY := rfl
  exact ⟨s, hexec, hlength, hskipped, (run_climbs hs hpolicy hfree).2.2.1⟩

/-! ### The climb with no known address -/

section Climb

theorem reachable_step {t : LadderState} {action : LadderAction}
    (hs : (ladderSystem ladder).Reachable s) (h : s.step ladder action = some t) :
    (ladderSystem ladder).Reachable t :=
  hs.run (show Run (ladderSystem ladder).step s [action] t from .cons h (.nil t))

variable {input : ReserveInput} {part : String}
  (hpolicy : ladder.policies input.factor = some policy)
  (hpart : subjectPart input.realmId input.subject input.factor = .ok part)
  (hip : input.endUserIp = none)
  (hkey : ladderCounterKey input.realmId part input.factor = key)

include hpolicy hpart hip hkey

/-- An attempt with no address, past its counter's wait. -/
theorem exists_attempt (hs : (ladderSystem ladder).Reachable s)
    (hpast : ∀ counter, s.store.counter s.now.ms key = some counter →
      counter.waitUntil ≤ s.now.ms) :
    ∃ (t : LadderState) (a : Attempt) (newRun : RunId) (next : Counter),
      (ladderSystem ladder).Reachable t ∧ t.now = s.now ∧ t.log = s.log ++ [.counted a] ∧
      t.store = s.store.setCounter key next ∧ a.key = key ∧ a.now = s.now ∧ a.known = false ∧
      newRun ∉ s.issued ∧
      CountsAs policy key s.now.ms false newRun s.store a.failures a.run next := by
  obtain ⟨newRun, hfresh⟩ := Infinite.exists_notMem_finset s.issued.toFinset
  rw [List.mem_toFinset] at hfresh
  have hknown : isKnown policy s.now.ms "" (s.store.score s.now.ms key.knownIps "") = false := by
    simp [isKnown]
  have hnot : ¬ s.now.ms < ((s.store.counter s.now.ms key).map (·.waitUntil)).getD 0 := by
    intro hlt
    cases hc : s.store.counter s.now.ms key with
    | none =>
      rw [hc] at hlt
      cases hlt
    | some counter =>
      rw [hc] at hlt
      exact absurd (hpast counter hc) (Nat.not_le_of_lt hlt)
  obtain ⟨n, run, store', hscript⟩ : ∃ n run store',
      reserveScript policy key s.now.ms "" newRun s.store = (.counted n run, store') := by
    rw [reserveScript]
    dsimp only
    rw [if_neg fun h ↦ hnot h.1]
    exact ⟨_, _, _, rfl⟩
  obtain ⟨next, rfl, hcounts⟩ := countsAs_of_reserveScript hscript
  rw [hknown] at hcounts
  have hreserve : ladder.reserve input s.now.ms newRun s.store =
      .ok (.reserved ⟨key, policy, "", run, n⟩, s.store.setCounter key next) := by
    simp only [Ladder.reserve, hpolicy, hpart, hip, Ladder.ipOf, Guards.require, hkey, bind,
      Except.bind, hscript]
    rfl
  have hstep : s.step ladder (.reserve input newRun) =
      some { s with
        store := s.store.setCounter key next
        issued := newRun :: s.issued
        outstanding := ⟨key, policy, "", run, n⟩ :: s.outstanding
        log := s.log ++ [.counted (s.attempt ⟨key, policy, "", run, n⟩)] } := by
    rw [LadderState.step, if_neg hfresh, hreserve]
  exact ⟨_, s.attempt ⟨key, policy, "", run, n⟩, newRun, next, reachable_step hs hstep, rfl, rfl,
    rfl, rfl, rfl, hknown, hfresh, hcounts⟩

omit hpart hip hkey in
/-- The counter that an attempt leaves, met again as soon as its wait is over. -/
theorem CountsAs.next_climb {now : EpochMs} {known : Bool} {newRun : RunId} {store : Store}
    {n : ℕ} {next : Counter} (h : CountsAs policy key now.ms known newRun store n run next)
    (hpast : ∀ counter, store.counter now.ms key = some counter → counter.waitUntil ≤ now.ms)
    (hnow : now.ms = climbMs policy n) :
    climbMs policy (n + 1) ≤ next.expireAt ∧
      ∀ later : EpochMs, climbMs policy (n + 1) ≤ later.ms → next.waitUntil ≤ later.ms := by
  have hsound := ladder.sound hpolicy
  rw [climbMs_succ, ← hnow]
  constructor
  · rw [h.expireAt_eq, keptMs]
    have hwait := ladderWaitMs_le n policy
    have hretention := hsound.maxWaitMs_le_retentionMs
    have hfree := hsound.maxWaitMs_le_freeRetentionMs
    split <;> omega
  · intro later hlater
    have hadd : Double.add now.ms (ladderWaitMs n policy) ≤ later.ms := by
      refine Nat.le_of_not_lt fun hlt ↦ ?_
      have := (Double.lt_round_iff later.lt_two_pow).mp hlt
      omega
    rcases h.source with ⟨-, -, -, hwait, -⟩ | ⟨counter, hcounter, -, -, -, hwait, -⟩
    · rw [hwait]
      exact hadd
    · rw [hwait]
      have := hpast counter hcounter
      omega

/-- A climb with no known address that has reached its `n`-th failure without losing time. -/
structure Climbed (ladder : Ladder) (policy : LadderPolicy) (key : CounterKey) (run : RunId)
    (n : ℕ) (s : LadderState) : Prop where
  reachable : (ladderSystem ladder).Reachable s
  now : s.now.ms = climbMs policy n
  successFree : SuccessFree s.log key run
  unknown : ∀ a ∈ attemptsOf s.log key run, a.known = false
  first : ∃ a, (attemptsOf s.log key run).head? = some a ∧ a.now.ms = 0
  last : ∃ a ∈ attemptsOf s.log key run, a.failures = n ∧ a.now.ms = climbMs policy n
  counter : ∃ counter, s.store.counters key = some counter ∧ counter.run = run ∧ counter.n = n ∧
    climbMs policy (n + 1) ≤ counter.expireAt ∧
    ∀ later : EpochMs, climbMs policy (n + 1) ≤ later.ms → counter.waitUntil ≤ later.ms

theorem exists_climbed (n : ℕ) (hreach : climbMs policy (n + 1) ≤ maxTimeMs) :
    ∃ run s, Climbed ladder policy key run (n + 1) s := by
  have hsound := ladder.sound hpolicy
  induction n with
  | zero =>
    let s₀ : LadderState :=
      { now := ⟨0, Nat.zero_le _⟩, store := .empty, issued := [], outstanding := [], log := [] }
    have hs₀ : (ladderSystem ladder).Reachable s₀ := .of_initial ⟨rfl, rfl, rfl, rfl⟩
    have hempty : ∀ counter, s₀.store.counter s₀.now.ms key = some counter →
        counter.waitUntil ≤ s₀.now.ms := by
      intro counter hc
      cases hc
    obtain ⟨t, a, newRun, next, ht, hnow, hlog, hstore, hkey', ha, hunknown, -, hcounts⟩ :=
      exists_attempt hpolicy hpart hip hkey hs₀ hempty
    have hone : a.failures = 1 := by
      rcases hcounts.source with ⟨-, hn, -⟩ | ⟨counter, hcounter, -⟩
      · exact hn
      · cases hcounter
    have hclimb : climbMs policy 1 = 0 := by
      rw [climbMs_succ, climbMs_zero, hsound.ladderWaitMs_zero]
    have hattempts : attemptsOf t.log key a.run = [a] := by
      rw [hlog, attemptsOf_counted, if_pos ⟨hkey', rfl⟩]
      rfl
    have htime : s₀.now.ms = climbMs policy a.failures := by
      rw [hone, hclimb]
    have hnext := hcounts.next_climb hpolicy hempty htime
    rw [hone] at hnext
    refine ⟨a.run, t, ht, ?_, ?_, ?_, ⟨a, ?_, ?_⟩, ⟨a, ?_, hone, ?_⟩, next, ?_,
      hcounts.run_eq, hcounts.n_eq.trans hone, hnext⟩
    · rw [hnow, hclimb]
    · rw [SuccessFree, hlog]
      simp [s₀]
    · rw [hattempts]
      intro b hb
      rw [List.mem_singleton.mp hb]
      exact hunknown
    · rw [hattempts]
      rfl
    · rw [ha]
    · rw [hattempts]
      exact List.mem_singleton_self a
    · rw [ha, hclimb]
    · rw [hstore]
      exact Store.counters_setCounter_self
  | succ n ih =>
    obtain ⟨run, s, hs⟩ := ih ((climbMs_mono policy (Nat.le_succ _)).trans hreach)
    obtain ⟨counter, hcounter, hrun, hn, hexpire, hwait⟩ := hs.counter
    let now : EpochMs := ⟨climbMs policy (n + 2), hreach⟩
    have htick : s.step ladder (.tick now) = some { s with now } := by
      rw [LadderState.step, if_pos]
      rw [hs.now]
      exact climbMs_mono policy (Nat.le_succ _)
    have hs₁ := reachable_step hs.reachable htick
    have hlive : s.store.counter now.ms key = some counter :=
      Store.counter_eq_some_iff.mpr ⟨hcounter, hexpire⟩
    have hpast : ∀ c, s.store.counter now.ms key = some c → c.waitUntil ≤ now.ms := by
      intro c hc
      cases hlive.symm.trans hc
      exact hwait now (Nat.le_refl _)
    obtain ⟨t, a, newRun, next, ht, hnow, hlog, hstore, hkey', ha, hunknown, -, hcounts⟩ :=
      exists_attempt hpolicy hpart hip hkey hs₁ hpast
    obtain ⟨hfailures, harun⟩ : a.failures = n + 2 ∧ a.run = run := by
      rcases hcounts.source with ⟨hnone, -⟩ | ⟨c, hc, hm, hr, -⟩
      · cases hlive.symm.trans hnone
      · cases hlive.symm.trans hc
        exact ⟨by rw [hm, hn], by rw [hr, hrun]⟩
    have hattempts : attemptsOf t.log key run = attemptsOf s.log key run ++ [a] := by
      rw [hlog, attemptsOf_counted, if_pos ⟨hkey', harun⟩]
    have htime : now.ms = climbMs policy a.failures := by
      rw [hfailures]
    have hnext := hcounts.next_climb hpolicy hpast htime
    rw [hfailures] at hnext
    obtain ⟨first, hfirst, hfirst0⟩ := hs.first
    refine ⟨run, t, ht, ?_, ?_, ?_, ⟨first, ?_, hfirst0⟩, ⟨a, ?_, hfailures, ?_⟩, next, ?_,
      hcounts.run_eq.trans harun, hcounts.n_eq.trans hfailures, hnext⟩
    · rw [hnow]
    · rw [SuccessFree, hlog]
      have := hs.successFree
      simpa [SuccessFree] using this
    · rw [hattempts]
      intro b hb
      rcases List.mem_append.mp hb with hb | hb
      · exact hs.unknown b hb
      · rw [List.mem_singleton.mp hb]
        exact hunknown
    · rw [hattempts, List.head?_append, hfirst]
      rfl
    · rw [hattempts]
      simp
    · rw [ha]
    · rw [hstore]
      exact Store.counters_setCounter_self

/-- With no known address the climb takes no more than `climbMs`, where each attempt comes as soon
as it may and the dates reach that far. -/
theorem exists_climb (n : ℕ) (hreach : climbMs policy (n + 1) ≤ maxTimeMs) :
    ∃ s run first last, (ladderSystem ladder).Reachable s ∧ SuccessFree s.log key run ∧
      (∀ a ∈ attemptsOf s.log key run, a.known = false) ∧
      (attemptsOf s.log key run).head? = some first ∧ last ∈ attemptsOf s.log key run ∧
      last.failures = n + 1 ∧ last.now.ms = first.now.ms + climbMs policy (n + 1) := by
  obtain ⟨run, s, hs⟩ := exists_climbed hpolicy hpart hip hkey n hreach
  obtain ⟨first, hfirst, hzero⟩ := hs.first
  obtain ⟨last, hlast, hfailures, hend⟩ := hs.last
  exact ⟨s, run, first, last, hs.reachable, hs.successFree, hs.unknown, hfirst, hlast, hfailures,
    by rw [hend, hzero, Nat.zero_add]⟩

end Climb

end QAuth.SignIn
