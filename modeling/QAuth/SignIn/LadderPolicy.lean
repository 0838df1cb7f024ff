import Mathlib.Algebra.BigOperators.Intervals
import QAuth.Foundation.Double
import QAuth.Foundation.Guards

/-!
# The rules of the failure ladder

How many failures an authenticator gets before each attempt must wait, how the wait grows and when
the hard action fires (`ladder.ts`). Times are in milliseconds, and the sums and products of the
policy's numbers are doubles: a policy may name waits whose sum is past the exact range.
-/

namespace QAuth.SignIn

open Guards

/-- What a success does to the counter that reserved it. -/
inductive OnSuccess
  | clear
  | withdraw
deriving DecidableEq

/-- The rules of one ladder. -/
structure LadderPolicy where
  freeFailures : ℕ
  firstWaitMs : ℕ
  maxWaitMs : ℕ
  hardCeiling : Option ℕ
  knownIpMs : ℕ
  knownIpFreeFailures : ℕ
  retentionMs : ℕ
  freeRetentionMs : ℕ
  onSuccess : OnSuccess
deriving DecidableEq

/-- One day, in milliseconds. -/
def DAY_MS : ℕ := 86400000

def PASSWORD_LADDER_POLICY : LadderPolicy where
  freeFailures := 5
  firstWaitMs := 1000
  maxWaitMs := 15 * 60000
  hardCeiling := some 100
  knownIpMs := 30 * DAY_MS
  knownIpFreeFailures := 20
  retentionMs := 30 * DAY_MS
  freeRetentionMs := 2 * DAY_MS
  onSuccess := .clear

/-- The largest doubling the wait is computed through. -/
def MAX_DOUBLINGS : ℕ := 40

/-- The wait that the `failures`-th consecutive counted failure sets for the next attempt. -/
def ladderWaitMs (failures : ℕ) (policy : LadderPolicy) : ℕ :=
  if failures < policy.freeFailures then 0
  else
    let doublings := failures - policy.freeFailures
    if MAX_DOUBLINGS ≤ doublings then policy.maxWaitMs
    else min (Double.mul policy.firstWaitMs (2 ^ doublings)) policy.maxWaitMs

/-- The waits a run meets on its way from `start` counted failures to `stop`. -/
def waitsBetween (start stop : ℕ) (policy : LadderPolicy) : ℕ :=
  let capped := policy.freeFailures + MAX_DOUBLINGS
  let first := max start policy.freeFailures
  let bound := min stop capped
  let total := (List.range' first (bound - first)).foldl
    (fun total n ↦ Double.add total (ladderWaitMs n policy)) 0
  -- The loop leaves its counter here.
  let n := max first bound
  if n < stop then Double.add total (Double.mul (stop - n) policy.maxWaitMs) else total

/-- `Number.isSafeInteger(value) && value >= min`. -/
def Whole (value min : ℕ) : Prop :=
  value ≤ Double.maxSafe ∧ min ≤ value

instance (value min : ℕ) : Decidable (Whole value min) :=
  inferInstanceAs (Decidable (_ ∧ _))

/-- The failures that known IPs can let skip a wait before the hard ceiling. -/
def LadderPolicy.skippable (policy : LadderPolicy) : ℕ :=
  if 0 < policy.knownIpMs then min policy.knownIpFreeFailures (policy.hardCeiling.getD 0) else 0

/-- Check a policy's numbers, so a store never runs a ladder that cannot hold. -/
def checkLadderPolicy (policy : LadderPolicy) : Except String LadderPolicy := do
  refuseIf (¬ Whole policy.freeFailures 1) "ladder policy: freeFailures below 1"
  refuseIf (¬ Whole policy.firstWaitMs 1) "ladder policy: firstWaitMs below 1 ms"
  refuseIf (¬ Whole policy.maxWaitMs policy.firstWaitMs)
    "ladder policy: maxWaitMs below firstWaitMs"
  refuseIf (∃ ceiling ∈ policy.hardCeiling, ¬ Whole ceiling policy.freeFailures)
    "ladder policy: hardCeiling below freeFailures"
  refuseIf (¬ Whole policy.knownIpMs 0) "ladder policy: knownIpMs is not a time"
  refuseIf (¬ Whole policy.knownIpFreeFailures 0)
    "ladder policy: knownIpFreeFailures is not a count"
  refuseIf (∃ ceiling ∈ policy.hardCeiling,
      waitsBetween 0 (ceiling - policy.skippable) policy <
        waitsBetween (ceiling - policy.skippable) ceiling policy)
    "ladder policy: knownIpFreeFailures skips more than half the waits before the hard ceiling"
  refuseIf (¬ Whole policy.retentionMs policy.maxWaitMs)
    "ladder policy: retentionMs shorter than the longest wait"
  refuseIf (¬ Whole policy.freeRetentionMs
      (max policy.maxWaitMs (Double.mul (policy.freeFailures - 1) policy.maxWaitMs)))
    "ladder policy: freeRetentionMs shorter than the free failures’ longest waits"
  refuseIf (∃ ceiling ∈ policy.hardCeiling,
      Double.mul (ceiling - 1) policy.freeRetentionMs <
        Double.mul (policy.freeFailures - 1) policy.retentionMs)
    "ladder policy: freeRetentionMs gives more tries below the hard ceiling"
  refuseIf (policy.retentionMs < policy.freeRetentionMs)
    "ladder policy: freeRetentionMs longer than retentionMs"
  return policy

/-- What a policy that `checkLadderPolicy` accepts satisfies. -/
structure LadderPolicy.Sound (policy : LadderPolicy) : Prop where
  one_le_freeFailures : 1 ≤ policy.freeFailures
  one_le_firstWaitMs : 1 ≤ policy.firstWaitMs
  firstWaitMs_le : policy.firstWaitMs ≤ policy.maxWaitMs
  maxWaitMs_lt : policy.maxWaitMs < 2 ^ 53
  freeFailures_le : ∀ ceiling ∈ policy.hardCeiling, policy.freeFailures ≤ ceiling
  waitsBetween_le : ∀ ceiling ∈ policy.hardCeiling,
    waitsBetween (ceiling - policy.skippable) ceiling policy ≤
      waitsBetween 0 (ceiling - policy.skippable) policy
  maxWaitMs_le_retentionMs : policy.maxWaitMs ≤ policy.retentionMs
  maxWaitMs_le_freeRetentionMs : policy.maxWaitMs ≤ policy.freeRetentionMs

theorem sound_of_checkLadderPolicy {policy accepted : LadderPolicy}
    (h : checkLadderPolicy policy = .ok accepted) : policy.Sound := by
  simp only [checkLadderPolicy, bind_eq_ok_iff, refuseIf_eq_ok_iff, not_not, not_exists, not_and,
    exists_const, not_lt] at h
  obtain ⟨hfree, hfirst, hmax, hceiling, -, -, hhalf, hretention, hfreeRetention, -⟩ := h
  have hsafe : Double.maxSafe < 2 ^ 53 := by decide
  exact
    { one_le_freeFailures := hfree.2
      one_le_firstWaitMs := hfirst.2
      firstWaitMs_le := hmax.2
      maxWaitMs_lt := Nat.lt_of_le_of_lt hmax.1 hsafe
      freeFailures_le := fun c hc ↦ (hceiling c hc).2
      waitsBetween_le := hhalf
      maxWaitMs_le_retentionMs := hretention.2
      maxWaitMs_le_freeRetentionMs := (Nat.le_max_left _ _).trans hfreeRetention.2 }

/-! ### The waits of a run -/

section Waits

variable {policy : LadderPolicy} {m n start stop : ℕ}

/-- The wait, without the rounding: it is cut where it would be rounded. -/
theorem LadderPolicy.Sound.ladderWaitMs_eq (h : policy.Sound) (n : ℕ) :
    ladderWaitMs n policy =
      if n < policy.freeFailures then 0
      else if MAX_DOUBLINGS ≤ n - policy.freeFailures then policy.maxWaitMs
      else min (policy.firstWaitMs * 2 ^ (n - policy.freeFailures)) policy.maxWaitMs := by
  rw [ladderWaitMs]
  dsimp only
  rw [(Double.agrees_mul _ _).min_eq h.maxWaitMs_lt]

@[simp] theorem ladderWaitMs_of_lt (h : n < policy.freeFailures) : ladderWaitMs n policy = 0 :=
  if_pos h

theorem ladderWaitMs_of_capped (h : policy.freeFailures + MAX_DOUBLINGS ≤ n) :
    ladderWaitMs n policy = policy.maxWaitMs := by
  rw [ladderWaitMs, if_neg (by omega)]
  exact if_pos (by omega)

theorem ladderWaitMs_le (n : ℕ) (policy : LadderPolicy) :
    ladderWaitMs n policy ≤ policy.maxWaitMs := by
  rw [ladderWaitMs]
  split
  · exact Nat.zero_le _
  · dsimp only
    split
    · exact Nat.le_refl _
    · exact Nat.min_le_right _ _

/-- A wait is no shorter than those before it. -/
theorem LadderPolicy.Sound.ladderWaitMs_mono (h : policy.Sound) (hmn : m ≤ n) :
    ladderWaitMs m policy ≤ ladderWaitMs n policy := by
  by_cases hm : m < policy.freeFailures
  · rw [ladderWaitMs_of_lt hm]
    exact Nat.zero_le _
  by_cases hn : MAX_DOUBLINGS ≤ n - policy.freeFailures
  · rw [show ladderWaitMs n policy = policy.maxWaitMs from
      ladderWaitMs_of_capped (by omega)]
    exact ladderWaitMs_le m policy
  rw [h.ladderWaitMs_eq, h.ladderWaitMs_eq, if_neg hm, if_neg (by omega : ¬ n < _),
    if_neg (by omega : ¬ _ ≤ m - _), if_neg hn]
  have hpow : 2 ^ (m - policy.freeFailures) ≤ 2 ^ (n - policy.freeFailures) :=
    Nat.pow_le_pow_right (by decide) (by omega)
  have := Nat.mul_le_mul_left policy.firstWaitMs hpow
  omega

/-- The waits that the failures `start`, …, `stop - 1` set, added up. -/
def waitsMs (start stop : ℕ) (policy : LadderPolicy) : ℕ :=
  ∑ n ∈ Finset.Ico start stop, ladderWaitMs n policy

/-- The waits that the first `n` counted failures of a run set, added up. -/
def climbMs (policy : LadderPolicy) (n : ℕ) : ℕ := waitsMs 0 n policy

@[simp] theorem climbMs_zero (policy : LadderPolicy) : climbMs policy 0 = 0 := rfl

theorem climbMs_succ (policy : LadderPolicy) (n : ℕ) :
    climbMs policy (n + 1) = climbMs policy n + ladderWaitMs n policy := by
  rw [climbMs, waitsMs, Finset.sum_Ico_succ_top (Nat.zero_le n)]
  rfl

theorem climbMs_add_waitsMs (h : start ≤ stop) (policy : LadderPolicy) :
    climbMs policy start + waitsMs start stop policy = climbMs policy stop :=
  Finset.sum_Ico_consecutive _ (Nat.zero_le _) h

theorem waitsMs_eq_sum (start stop : ℕ) (policy : LadderPolicy) :
    waitsMs start stop policy =
      ((List.range' start (stop - start)).map (ladderWaitMs · policy)).sum := by
  rfl

/-- The waits from the last doubling on are the longest. -/
theorem waitsMs_of_capped (h : policy.freeFailures + MAX_DOUBLINGS ≤ start) :
    waitsMs start stop policy = (stop - start) * policy.maxWaitMs := by
  rw [waitsMs, Finset.sum_const_nat fun n hn ↦
    ladderWaitMs_of_capped (h.trans (Finset.mem_Ico.mp hn).1), Nat.card_Ico]

theorem waitsMs_of_le (h : stop ≤ policy.freeFailures) : waitsMs start stop policy = 0 :=
  Finset.sum_eq_zero fun _ hn ↦ ladderWaitMs_of_lt ((Finset.mem_Ico.mp hn).2.trans_le h)

theorem agrees_waitsBetween (h : start ≤ stop) :
    Double.Agrees (waitsBetween start stop policy) (waitsMs start stop policy) := by
  set first := max start policy.freeFailures with hfirst
  set bound := min stop (policy.freeFailures + MAX_DOUBLINGS) with hbound
  have hloop := Double.agrees_foldl_add (ladderWaitMs · policy)
    (List.range' first (bound - first)) (Double.Agrees.refl 0)
  rw [Nat.zero_add, ← waitsMs_eq_sum] at hloop
  have hsplit : waitsMs start stop policy =
      waitsMs first bound policy + waitsMs (max first bound) stop policy := by
    by_cases hstop : stop ≤ policy.freeFailures
    · rw [waitsMs_of_le hstop, waitsMs_of_le (by omega), waitsMs_of_le (by omega)]
    · have h₁ : waitsMs start first policy + waitsMs first stop policy =
          waitsMs start stop policy :=
        Finset.sum_Ico_consecutive _ (by omega) (by omega)
      have h₂ : waitsMs first (max first bound) policy +
          waitsMs (max first bound) stop policy = waitsMs first stop policy :=
        Finset.sum_Ico_consecutive _ (by omega) (by omega)
      have hzero : waitsMs start first policy = 0 := by
        rcases Nat.le_total start policy.freeFailures with hle | hle
        · exact waitsMs_of_le (by omega)
        · rw [hfirst, Nat.max_eq_left hle]
          simp [waitsMs]
      have hmax : waitsMs first (max first bound) policy = waitsMs first bound policy := by
        rcases Nat.le_total first bound with hle | hle
        · rw [Nat.max_eq_right hle]
        · rw [Nat.max_eq_left hle]
          simp [waitsMs, hle]
      omega
  rw [hsplit]
  unfold waitsBetween
  dsimp only
  rw [← hfirst, ← hbound]
  split
  case isTrue hlt =>
    rw [show waitsMs (max first bound) stop policy = (stop - max first bound) * policy.maxWaitMs
      from waitsMs_of_capped (by omega)]
    exact Double.agrees_add hloop (Double.agrees_mul _ _)
  case isFalse hge =>
    have : waitsMs (max first bound) stop policy = 0 := by
      simp [waitsMs, Nat.le_of_not_lt hge]
    rw [this]
    exact hloop

/-- The waits that an exemption cannot skip are at least half of the climb to the hard ceiling, as
far as the sum of those waits is exact. -/
theorem LadderPolicy.Sound.half_le (h : policy.Sound) {ceiling : ℕ}
    (hceiling : policy.hardCeiling = some ceiling)
    (hexact : climbMs policy (ceiling - policy.skippable) < 2 ^ 53) :
    climbMs policy ceiling ≤ 2 * climbMs policy (ceiling - policy.skippable) := by
  have hle := h.waitsBetween_le ceiling hceiling
  have hlow := (agrees_waitsBetween (Nat.zero_le (ceiling - policy.skippable))).eq_of_lt
    (.inr hexact)
  rw [climbMs] at hexact
  have hhigh := (agrees_waitsBetween (Nat.sub_le ceiling policy.skippable)).eq_of_lt
    (.inl (by omega : waitsBetween _ _ policy < _))
  have hsum := climbMs_add_waitsMs (Nat.sub_le ceiling policy.skippable) policy
  simp only [climbMs] at hsum ⊢
  omega

end Waits

end QAuth.SignIn
