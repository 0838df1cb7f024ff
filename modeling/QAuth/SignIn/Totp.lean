import Mathlib.Algebra.Order.Ring.Int
import Mathlib.Data.List.Pairwise
import QAuth.Foundation.Bytes
import QAuth.Foundation.Text

/-!
# Codes of an authenticator app

The code of a secret changes with every step of thirty seconds. A code is matched against the step
of the clock and one step either way, and the lowest step that is later than the last accepted one
and has the code is what it is taken for.
-/

namespace QAuth.SignIn

def TOTP_DIGITS : ℕ := 6

def TOTP_PERIOD_SECONDS : ℕ := 30

def TOTP_TOLERANCE_STEPS : ℕ := 1

def TOTP_SECRET_BYTES : ℕ := 20

/-- `Number.MAX_SAFE_INTEGER` -/
def MAX_COUNTER : ℕ := 2 ^ 53 - 1

/-- `CODE_PATTERN` -/
def isCode (code : String) : Bool :=
  code.toList.length = TOTP_DIGITS && code.toList.all Char.isDigit

/-- The step that a time falls in. The source divides doubles, whose floor is this number for every
clock before the year 4200. -/
def totpStep (nowMs : ℤ) : ℤ := nowMs / 1000 / TOTP_PERIOD_SECONDS

/-- HMAC-SHA-1 of a secret and a message. -/
abbrev HmacSha1 : Type := List UInt8 → List UInt8 → Vector UInt8 20

/-- The digits of a number, zeros first. -/
def paddedDigits (n : ℕ) : String :=
  String.ofList ((Nat.toDigits 10 n).leftpad TOTP_DIGITS '0')

variable (hmac : HmacSha1) (secret : List UInt8)

/-- The code of a counter; a counter that is no safe integer throws. -/
def hotp (counter : ℕ) : Option String :=
  if MAX_COUNTER < counter then none
  else
    let mac := hmac secret (Bytes.be 8 counter)
    let offset := mac[19].toNat &&& 0x0f
    let binary := Der.ofBytes ((mac.toList.drop offset).take 4) &&& 0x7fffffff
    some (paddedDigits (binary % 10 ^ TOTP_DIGITS))

def totpCode (step : ℕ) : Option String := hotp hmac secret step

/-- The steps that the loop goes through. -/
def windowSteps (now : ℤ) : List ℤ :=
  (List.range (2 * TOTP_TOLERANCE_STEPS + 1)).map fun i : ℕ ↦ now - TOTP_TOLERANCE_STEPS + i

/-- One round of the loop. -/
def matchStep (presented : String) (lastStep : ℤ) (matched : Option ℕ) (step : ℤ) :
    Option (Option ℕ) :=
  if step < 0 then some matched
  else
    (totpCode hmac secret step.toNat).map fun valid ↦
      if valid = presented ∧ lastStep < step ∧ matched = none then some step.toNat else matched

/-- The step that a code is taken for, if any; `none` outside says that it throws. -/
def matchTotpCode (code : String) (nowMs lastStep : ℤ) : Option (Option ℕ) :=
  let presented := if isCode code then code else "000000"
  let matched :=
    (windowSteps (totpStep nowMs)).foldlM (matchStep hmac secret presented lastStep) none
  if isCode code then matched else matched.map fun _ ↦ none

/-- A step is in the window of a time. -/
def InWindow (step : ℕ) (nowMs : ℤ) : Prop :=
  totpStep nowMs - TOTP_TOLERANCE_STEPS ≤ step ∧ step ≤ totpStep nowMs + TOTP_TOLERANCE_STEPS

instance (step : ℕ) (nowMs : ℤ) : Decidable (InWindow step nowMs) :=
  inferInstanceAs (Decidable (_ ∧ _))

/-! ### The codes -/

variable {hmac : HmacSha1} {secret : List UInt8} {code presented : String}
  {nowMs lastStep now : ℤ} {step : ℕ}

theorem isCode_paddedDigits {n : ℕ} (hn : n < 10 ^ TOTP_DIGITS) :
    isCode (paddedDigits n) = true := by
  have hlength : (Nat.toDigits 10 n).length ≤ TOTP_DIGITS :=
    (Nat.length_toDigits_le_iff (by decide) (by decide)).mpr hn
  rw [isCode, paddedDigits, String.toList_ofList, Bool.and_eq_true, decide_eq_true_iff,
    List.length_leftpad, Nat.max_eq_left hlength, List.all_eq_true]
  refine ⟨rfl, fun c hc ↦ ?_⟩
  rw [List.leftpad, List.mem_append] at hc
  rcases hc with hc | hc
  · rw [List.eq_of_mem_replicate hc]
    rfl
  · exact Nat.isDigit_of_mem_toDigits (by decide) (by decide) hc

/-- A secret's codes have six digits. -/
theorem isCode_of_totpCode (h : totpCode hmac secret step = some code) : isCode code = true := by
  obtain ⟨-, hcode⟩ := Option.ite_none_left_eq_some.mp h
  cases hcode
  exact isCode_paddedDigits (Nat.mod_lt _ (by decide))

theorem totpCode_isSome_iff : (totpCode hmac secret step).isSome ↔ step ≤ MAX_COUNTER := by
  rw [totpCode, hotp]
  by_cases h : MAX_COUNTER < step
  · simp [h]
  · simp [h, Nat.le_of_not_lt h]

/-! ### The scan -/

theorem mem_windowSteps {x : ℤ} : x ∈ windowSteps now ↔
    now - TOTP_TOLERANCE_STEPS ≤ x ∧ x ≤ now + TOTP_TOLERANCE_STEPS := by
  rw [windowSteps, List.mem_map]
  constructor
  · rintro ⟨i, hi, rfl⟩
    have := List.mem_range.mp hi
    omega
  · rintro ⟨hlow, hhigh⟩
    refine ⟨(x - (now - TOTP_TOLERANCE_STEPS)).toNat, List.mem_range.mpr ?_, ?_⟩ <;> omega

theorem windowSteps_sorted : (windowSteps now).Pairwise (· < ·) := by
  rw [windowSteps, List.pairwise_map]
  exact List.pairwise_lt_range.imp fun h ↦ by omega

/-- What the loop looks for. -/
def Fits (hmac : HmacSha1) (secret : List UInt8) (presented : String) (lastStep x : ℤ) : Bool :=
  0 ≤ x && totpCode hmac secret x.toNat = some presented && lastStep < x

theorem fits_iff {x : ℤ} : Fits hmac secret presented lastStep x = true ↔
    0 ≤ x ∧ totpCode hmac secret x.toNat = some presented ∧ lastStep < x := by
  simp [Fits, and_assoc]

/-- A round keeps what was matched before, and else takes a step that fits. -/
theorem matchStep_eq {x : ℤ} {matched : Option ℕ} (hx : x ≤ MAX_COUNTER) :
    matchStep hmac secret presented lastStep matched x =
      some (matched.or (if Fits hmac secret presented lastStep x then some x.toNat else none)) := by
  rw [matchStep]
  by_cases hneg : x < 0
  · have hfits : ¬Fits hmac secret presented lastStep x = true := by
      rw [fits_iff]
      omega
    rw [if_pos hneg, if_neg hfits, Option.or_none]
  · have hsome : (totpCode hmac secret x.toNat).isSome := totpCode_isSome_iff.mpr (by omega)
    obtain ⟨valid, hvalid⟩ := Option.isSome_iff_exists.mp hsome
    rw [if_neg hneg, hvalid, Option.map_some]
    congr 1
    have hiff : Fits hmac secret presented lastStep x = true ↔
        valid = presented ∧ lastStep < x := by
      rw [fits_iff, hvalid, Option.some_inj]
      exact ⟨fun h ↦ h.2, fun h ↦ ⟨by omega, h⟩⟩
    cases matched with
    | none => simp only [hiff, and_true, Option.none_or]
    | some y => simp

theorem matchStep_eq_none {x : ℤ} {matched : Option ℕ} (hx : (MAX_COUNTER : ℤ) < x) :
    matchStep hmac secret presented lastStep matched x = none := by
  have hnone : totpCode hmac secret x.toNat = none := by
    rw [← Option.not_isSome_iff_eq_none, totpCode_isSome_iff]
    omega
  rw [matchStep, if_neg (by omega), hnone, Option.map_none]

theorem foldlM_matchStep (xs : List ℤ) (matched : Option ℕ) :
    xs.foldlM (matchStep hmac secret presented lastStep) matched =
      if ∀ x ∈ xs, x ≤ MAX_COUNTER then
        some (matched.or ((xs.find? (Fits hmac secret presented lastStep)).map Int.toNat))
      else none := by
  induction xs generalizing matched with
  | nil => simp
  | cons x xs ih =>
    rw [List.foldlM_cons]
    by_cases hx : x ≤ MAX_COUNTER
    · rw [matchStep_eq hx, Option.bind_eq_bind, Option.bind_some, ih, List.find?_cons]
      simp only [List.forall_mem_cons, hx, true_and]
      congr 2
      rw [Option.or_assoc]
      congr 1
      by_cases hfits : Fits hmac secret presented lastStep x = true <;> simp [hfits]
    · have hall : ¬∀ y ∈ x :: xs, y ≤ (MAX_COUNTER : ℤ) := fun h ↦ hx (h x List.mem_cons_self)
      rw [matchStep_eq_none (by omega), if_neg hall]
      rfl

/-- The scan finds the lowest step that fits. -/
theorem matchTotpCode_eq (hcode : isCode code = true) :
    matchTotpCode hmac secret code nowMs lastStep =
      if ∀ x ∈ windowSteps (totpStep nowMs), x ≤ MAX_COUNTER then
        some (((windowSteps (totpStep nowMs)).find?
          (Fits hmac secret code lastStep)).map Int.toNat)
      else none := by
  rw [matchTotpCode]
  simp only [hcode, if_true, foldlM_matchStep, Option.none_or]

theorem matched_of_matchTotpCode
    (h : matchTotpCode hmac secret code nowMs lastStep = some (some step)) :
    totpCode hmac secret step = some code ∧ InWindow step nowMs ∧ lastStep < step := by
  by_cases hcode : isCode code = true
  · rw [matchTotpCode_eq hcode] at h
    obtain ⟨-, h⟩ := Option.ite_none_right_eq_some.mp h
    obtain ⟨x, hfind, rfl⟩ := Option.map_eq_some_iff.mp (Option.some.inj h)
    obtain ⟨hx, hvalid, hlater⟩ := fits_iff.mp (List.find?_some hfind)
    have hwindow := mem_windowSteps.mp (List.mem_of_find?_eq_some hfind)
    rw [InWindow, Int.toNat_of_nonneg hx]
    exact ⟨hvalid, hwindow, hlater⟩
  · rw [matchTotpCode] at h
    simp [hcode] at h

/-- Where a step fits and no step of the window is too large, the code is taken for that step or an
earlier one. -/
theorem matchTotpCode_of_fits (hsafe : totpStep nowMs + TOTP_TOLERANCE_STEPS ≤ MAX_COUNTER)
    (hvalid : totpCode hmac secret step = some code) (hwindow : InWindow step nowMs)
    (hlater : lastStep < step) :
    ∃ found ≤ step, matchTotpCode hmac secret code nowMs lastStep = some (some found) := by
  have hmem : (step : ℤ) ∈ windowSteps (totpStep nowMs) := mem_windowSteps.mpr hwindow
  have hfits : Fits hmac secret code lastStep step = true :=
    fits_iff.mpr ⟨Int.natCast_nonneg step, by rwa [Int.toNat_natCast], hlater⟩
  have hall : ∀ x ∈ windowSteps (totpStep nowMs), x ≤ (MAX_COUNTER : ℤ) := fun x hx ↦
    (mem_windowSteps.mp hx).2.trans hsafe
  have hfound : ((windowSteps (totpStep nowMs)).find? (Fits hmac secret code lastStep)).isSome :=
    List.find?_isSome.mpr ⟨step, hmem, hfits⟩
  obtain ⟨x, hfind⟩ := Option.isSome_iff_exists.mp hfound
  refine ⟨x.toNat, ?_, ?_⟩
  · obtain ⟨-, before, after, hsplit, hbefore⟩ := List.find?_eq_some_iff_append.mp hfind
    have hsorted := @windowSteps_sorted (totpStep nowMs)
    rw [hsplit] at hmem hsorted
    rcases List.mem_append.mp hmem with hmem | hmem
    · have hnot := hbefore _ hmem
      rw [hfits] at hnot
      cases hnot
    · rcases List.mem_cons.mp hmem with rfl | hmem
      · exact (Int.toNat_natCast step).le
      · have hlt := List.rel_of_pairwise_cons (List.pairwise_append.mp hsorted).2.1 hmem
        omega
  · rw [matchTotpCode_eq (isCode_of_totpCode hvalid), if_pos hall, hfind, Option.map_some]

end QAuth.SignIn
