import Mathlib.Algebra.Order.Ring.Int
import Mathlib.Data.List.TakeWhile

/-!
# Numbers as text

The text of a finite number in the form that ECMAScript's `Number::toString` gives it: its shortest
decimal digits, with a point or an exponent as its size asks for. A double is named by its shortest
decimal, so no rounding is left to say: the text determines the number.
-/

namespace Decimal

/-- A finite number other than zero: the digits of `s` after the point, times `10 ^ n`. -/
structure Shortest where
  negative : Bool
  s : ℕ
  n : ℤ
  hs : s % 10 ≠ 0
deriving DecidableEq

/-- The decimal digits of a number. -/
def digits (m : ℕ) : List Char := Nat.toDigits 10 m

/-- The text of the number but for its sign. -/
def magnitude (s : ℕ) (n : ℤ) : List Char :=
  if (digits s).length ≤ n ∧ n ≤ 21 then
    digits s ++ List.replicate (n - (digits s).length).toNat '0'
  else if 0 < n ∧ n ≤ 21 then (digits s).take n.toNat ++ '.' :: (digits s).drop n.toNat
  else if -6 < n ∧ n ≤ 0 then '0' :: '.' :: (List.replicate (-n).toNat '0' ++ digits s)
  else
    (digits s).take 1 ++ (if (digits s).length = 1 then [] else '.' :: (digits s).drop 1) ++
      'e' :: (if 0 ≤ n - 1 then '+' else '-') :: digits (n - 1).natAbs

/-- The text of the number. -/
def Shortest.text (x : Shortest) : List Char :=
  (if x.negative then ['-'] else []) ++ magnitude x.s x.n

/-- The number without its trailing zeros, and how many they were; `fuel` bounds their count. -/
def stripZeros : ℕ → ℕ → ℕ × ℕ
  | 0, m => (m, 0)
  | fuel + 1, m =>
    if m % 10 = 0 then
      let (s, zeros) := stripZeros fuel (m / 10)
      (s, zeros + 1)
    else (m, 0)

variable {m : ℕ}

theorem stripZeros_spec (fuel : ℕ) (hm : m ≠ 0) (hfuel : m ≤ fuel) :
    (stripZeros fuel m).1 % 10 ≠ 0 ∧
      m = (stripZeros fuel m).1 * 10 ^ (stripZeros fuel m).2 := by
  induction fuel generalizing m with
  | zero => omega
  | succ fuel ih =>
    by_cases h : m % 10 = 0
    · obtain ⟨hs, heq⟩ := ih (m := m / 10) (by omega) (by omega)
      simp only [stripZeros, if_pos h]
      refine ⟨hs, ?_⟩
      rw [Nat.pow_succ, ← Nat.mul_assoc, ← heq]
      omega
    · simp only [stripZeros, if_neg h]
      exact ⟨h, by simp⟩

/-- The shortest decimal of a positive whole number. -/
def ofNat (m : ℕ) (hm : m ≠ 0) : Shortest where
  negative := false
  s := (stripZeros m m).1
  n := (digits m).length
  hs := (stripZeros_spec m hm (Nat.le_refl m)).1

/-- A whole number without trailing zeros and the power of ten it is multiplied by are determined
by the product. -/
theorem mul_pow_inj {s s' a a' : ℕ} (hs : s % 10 ≠ 0) (hs' : s' % 10 ≠ 0)
    (h : s * 10 ^ a = s' * 10 ^ a') : s = s' ∧ a = a' := by
  have key : ∀ {s s' a a' : ℕ}, s % 10 ≠ 0 → s * 10 ^ a = s' * 10 ^ a' → a' ≤ a := by
    intro s s' a a' hs h
    by_contra hlt
    obtain ⟨d, rfl⟩ : ∃ d, a' = a + (d + 1) := ⟨a' - a - 1, by omega⟩
    rw [Nat.pow_add, Nat.mul_comm (10 ^ a), ← Nat.mul_assoc] at h
    have := Nat.eq_of_mul_eq_mul_right (Nat.pow_pos (by decide)) h
    rw [Nat.pow_succ, ← Nat.mul_assoc] at this
    omega
  have ha : a = a' := Nat.le_antisymm (key hs' h.symm) (key hs h)
  subst ha
  exact ⟨Nat.eq_of_mul_eq_mul_right (Nat.pow_pos (by decide)) h, rfl⟩

/-! ### Reading a text -/

/-- The exponent that a text ends with. -/
def readExponent : List Char → ℤ
  | 'e' :: '-' :: ds => -(Nat.ofDigitChars 10 ds 0 : ℤ)
  | 'e' :: _ :: ds => Nat.ofDigitChars 10 ds 0
  | _ => 0

theorem readExponent_plus (ds : List Char) :
    readExponent ('e' :: '+' :: ds) = Nat.ofDigitChars 10 ds 0 :=
  rfl

theorem readExponent_minus (ds : List Char) :
    readExponent ('e' :: '-' :: ds) = -(Nat.ofDigitChars 10 ds 0 : ℤ) :=
  rfl

/-- The digits of a text as one whole number, and the power of ten it is shifted by. -/
def read (text : List Char) : ℕ × ℤ :=
  let mantissa := text.takeWhile (· ≠ 'e')
  let whole := mantissa.takeWhile (· ≠ '.')
  let fraction := (mantissa.dropWhile (· ≠ '.')).drop 1
  (Nat.ofDigitChars 10 (whole ++ fraction) 0,
    readExponent (text.dropWhile (· ≠ 'e')) - fraction.length)

/-- The text has digits only. -/
def Digits (ds : List Char) : Prop := ∀ c ∈ ds, c.isDigit = true

theorem digits_digits (m : ℕ) : Digits (digits m) :=
  fun _ hc ↦ Nat.isDigit_of_mem_toDigits (by decide) (by decide) hc

/-- The first digit of a number other than zero is not zero. -/
theorem exists_digits_eq_cons {m : ℕ} (hm : m ≠ 0) : ∃ c cs, digits m = c :: cs ∧ c ≠ '0' := by
  induction m using Nat.strongRecOn with
  | ind m ih =>
    by_cases hlt : m < 10
    · have hchar : ∀ i < 10, i ≠ 0 → Nat.digitChar i ≠ '0' := by decide
      exact ⟨_, [], Nat.toDigits_of_lt_base hlt, hchar m hlt hm⟩
    · have hdiv : digits m = digits (m / 10) ++ [Nat.digitChar (m % 10)] :=
        Nat.toDigits_of_base_le (by decide) (by omega)
      obtain ⟨c, cs, hcons, hc⟩ := ih (m / 10) (by omega) (by omega)
      exact ⟨c, cs ++ [Nat.digitChar (m % 10)], by rw [hdiv, hcons, List.cons_append], hc⟩

theorem Digits.append {ds es : List Char} (h : Digits ds) (k : Digits es) : Digits (ds ++ es) :=
  fun c hc ↦ (List.mem_append.mp hc).elim (h c) (k c)

theorem digits_replicate (n : ℕ) : Digits (List.replicate n '0') := by
  intro c hc
  rw [List.eq_of_mem_replicate hc]
  rfl

theorem Digits.sublist {ds es : List Char} (h : Digits ds) (k : es.Sublist ds) : Digits es :=
  fun c hc ↦ h c (k.subset hc)

theorem Digits.ne {ds : List Char} (h : Digits ds) {c d : Char} (hc : c ∈ ds)
    (hd : d.isDigit = false) : c ≠ d := by
  rintro rfl
  rw [h c hc] at hd
  cases hd

/-- A text of a whole part and an exponent. -/
theorem read_whole {ds expo : List Char} (h : Digits ds)
    (hexpo : expo = [] ∨ ∃ es, expo = 'e' :: es) :
    read (ds ++ expo) = (Nat.ofDigitChars 10 ds 0, readExponent expo) := by
  have hmantissa : (ds ++ expo).takeWhile (· ≠ 'e') = ds := by
    rw [List.takeWhile_append_of_pos fun c hc ↦ by simpa using h.ne hc (by decide)]
    rcases hexpo with rfl | ⟨es, rfl⟩ <;> simp
  have hrest : (ds ++ expo).dropWhile (· ≠ 'e') = expo := by
    rw [List.dropWhile_append_of_pos fun c hc ↦ by simpa using h.ne hc (by decide)]
    rcases hexpo with rfl | ⟨es, rfl⟩ <;> simp
  have hwhole : ds.takeWhile (· ≠ '.') = ds := by
    rw [List.takeWhile_eq_self_iff]
    exact fun c hc ↦ by simpa using h.ne hc (by decide)
  have hnone : ds.dropWhile (· ≠ '.') = [] := by
    rw [List.dropWhile_eq_nil_iff]
    exact fun c hc ↦ by simpa using h.ne hc (by decide)
  rw [read]
  simp only [hmantissa, hrest, hwhole, hnone]
  simp

/-- A text of a whole part, a fraction and an exponent. -/
theorem read_fraction {ds fs expo : List Char} (h : Digits ds) (k : Digits fs)
    (hexpo : expo = [] ∨ ∃ es, expo = 'e' :: es) :
    read (ds ++ '.' :: fs ++ expo) =
      (Nat.ofDigitChars 10 (ds ++ fs) 0, readExponent expo - fs.length) := by
  have hne : ∀ c ∈ ds ++ '.' :: fs, decide (c ≠ 'e') = true := by
    intro c hc
    rcases List.mem_append.mp hc with hc | hc
    · simpa using h.ne hc (by decide)
    · rcases List.mem_cons.mp hc with rfl | hc
      · decide
      · simpa using k.ne hc (by decide)
  have hmantissa : (ds ++ '.' :: fs ++ expo).takeWhile (· ≠ 'e') = ds ++ '.' :: fs := by
    rw [List.takeWhile_append_of_pos hne]
    rcases hexpo with rfl | ⟨es, rfl⟩ <;> simp
  have hrest : (ds ++ '.' :: fs ++ expo).dropWhile (· ≠ 'e') = expo := by
    rw [List.dropWhile_append_of_pos hne]
    rcases hexpo with rfl | ⟨es, rfl⟩ <;> simp
  have hds : ∀ c ∈ ds, decide (c ≠ '.') = true := fun c hc ↦ by simpa using h.ne hc (by decide)
  have hwhole : (ds ++ '.' :: fs).takeWhile (· ≠ '.') = ds := by
    rw [List.takeWhile_append_of_pos hds]
    simp
  have hfraction : ((ds ++ '.' :: fs).dropWhile (· ≠ '.')).drop 1 = fs := by
    rw [List.dropWhile_append_of_pos hds]
    simp
  rw [read]
  simp only [hmantissa, hrest, hwhole, hfraction]

/-- What is read of a number's text: its digits with some zeros after them, shifted back. -/
theorem read_magnitude (s : ℕ) (n : ℤ) :
    ∃ a : ℕ, read (magnitude s n) = (s * 10 ^ a, n - (digits s).length - a) := by
  have hdigits : Nat.ofDigitChars 10 (digits s) 0 = s := Nat.ofDigitChars_ten_toDigits
  have htake : ∀ i, Digits ((digits s).take i) :=
    fun i ↦ (digits_digits s).sublist (List.take_sublist i _)
  have hdrop : ∀ i, Digits ((digits s).drop i) :=
    fun i ↦ (digits_digits s).sublist (List.drop_sublist i _)
  have hpos : 0 < (digits s).length := Nat.length_toDigits_pos
  unfold magnitude
  split
  case isTrue h =>
    refine ⟨(n - (digits s).length).toNat, ?_⟩
    have := read_whole ((digits_digits s).append (digits_replicate (n - (digits s).length).toNat))
      (.inl rfl)
    rw [List.append_nil] at this
    rw [this, Nat.ofDigitChars_append, hdigits, Nat.ofDigitChars_replicate_zero, Nat.mul_comm]
    congr 1
    simp only [readExponent]
    omega
  case isFalse h₁ =>
  split
  case isTrue h =>
    refine ⟨0, ?_⟩
    have := read_fraction (htake n.toNat) (hdrop n.toNat) (.inl rfl)
    rw [List.append_nil] at this
    rw [this, List.take_append_drop, hdigits, Nat.pow_zero, Nat.mul_one, List.length_drop]
    congr 1
    simp only [readExponent]
    omega
  case isFalse h₂ =>
  split
  case isTrue h =>
    refine ⟨0, ?_⟩
    have hone : Digits ['0'] := digits_replicate 1
    have := read_fraction hone
      ((digits_replicate (-n).toNat).append (digits_digits s)) (.inl rfl)
    rw [List.append_nil, List.singleton_append] at this
    rw [this, List.singleton_append, Nat.ofDigitChars_cons, Nat.ofDigitChars_append,
      Nat.ofDigitChars_replicate_zero]
    simp only [readExponent, List.length_append, List.length_replicate]
    have hzero : '0'.toNat - '0'.toNat = 0 := rfl
    rw [hzero, Nat.mul_zero, hdigits, Nat.pow_zero, Nat.mul_one]
    congr 1
    push_cast
    omega
  case isFalse h₃ =>
    refine ⟨0, ?_⟩
    have hexpo : readExponent ('e' :: (if 0 ≤ n - 1 then '+' else '-') ::
        digits (n - 1).natAbs) = n - 1 := by
      have hread : Nat.ofDigitChars 10 (digits (n - 1).natAbs) 0 = (n - 1).natAbs :=
        Nat.ofDigitChars_ten_toDigits
      split
      · rw [readExponent_plus, hread]
        omega
      · rw [readExponent_minus, hread]
        omega
    by_cases hk : (digits s).length = 1
    · rw [if_pos hk, List.append_nil, read_whole (htake 1) (.inr ⟨_, rfl⟩), hexpo,
        List.take_of_length_le (by omega), hdigits, Nat.pow_zero, Nat.mul_one, hk]
      congr 1
      omega
    · rw [if_neg hk, read_fraction (htake 1) (hdrop 1) (.inr ⟨_, rfl⟩), hexpo,
        List.take_append_drop, hdigits, Nat.pow_zero, Nat.mul_one, List.length_drop]
      congr 1
      omega

theorem magnitude_injective {s s' : ℕ} {n n' : ℤ} (hs : s % 10 ≠ 0) (hs' : s' % 10 ≠ 0)
    (h : magnitude s n = magnitude s' n') : s = s' ∧ n = n' := by
  obtain ⟨a, ha⟩ := read_magnitude s n
  obtain ⟨a', ha'⟩ := read_magnitude s' n'
  rw [h, ha'] at ha
  obtain ⟨hprod, hshift⟩ := Prod.mk.inj ha
  obtain ⟨rfl, rfl⟩ := mul_pow_inj hs hs' hprod.symm
  exact ⟨rfl, by omega⟩

/-- Whether a character may stand in the text of a number. -/
def isNumberChar (c : Char) : Bool :=
  c.isDigit || c = '-' || c = '+' || c = '.' || c = 'e'

theorem isNumberChar_of_mem_magnitude {s : ℕ} {n : ℤ} {c : Char} (h : c ∈ magnitude s n) :
    isNumberChar c = true := by
  have hdigit : ∀ {m : ℕ}, c ∈ digits m → isNumberChar c = true :=
    fun hc ↦ by simp [isNumberChar, digits_digits _ c hc]
  have hzero : ∀ {m : ℕ}, c ∈ List.replicate m '0' → isNumberChar c = true :=
    fun hc ↦ by rw [List.eq_of_mem_replicate hc]; rfl
  unfold magnitude at h
  split at h
  · rcases List.mem_append.mp h with h | h
    · exact hdigit h
    · exact hzero h
  split at h
  · rcases List.mem_append.mp h with h | h
    · exact hdigit (List.mem_of_mem_take h)
    · rcases List.mem_cons.mp h with rfl | h
      · rfl
      · exact hdigit (List.mem_of_mem_drop h)
  split at h
  · rcases List.mem_cons.mp h with rfl | h
    · rfl
    rcases List.mem_cons.mp h with rfl | h
    · rfl
    rcases List.mem_append.mp h with h | h
    · exact hzero h
    · exact hdigit h
  · rcases List.mem_append.mp h with h | h
    · rcases List.mem_append.mp h with h | h
      · exact hdigit (List.mem_of_mem_take h)
      · split at h
        · cases h
        · rcases List.mem_cons.mp h with rfl | h
          · rfl
          · exact hdigit (List.mem_of_mem_drop h)
    · rcases List.mem_cons.mp h with rfl | h
      · rfl
      rcases List.mem_cons.mp h with rfl | h
      · split <;> rfl
      · exact hdigit h

theorem isNumberChar_of_mem_text {x : Shortest} {c : Char} (h : c ∈ x.text) :
    isNumberChar c = true := by
  rcases List.mem_append.mp h with h | h
  · split at h
    · rw [List.mem_singleton.mp h]
      rfl
    · cases h
  · exact isNumberChar_of_mem_magnitude h

/-- The text but for its sign begins with a digit. -/
theorem exists_digit_magnitude (s : ℕ) (n : ℤ) :
    ∃ c rest, magnitude s n = c :: rest ∧ c.isDigit = true := by
  obtain ⟨c, rest, hdigits⟩ := List.exists_cons_of_ne_nil (Nat.toDigits_ne_nil (n := s) (b := 10))
  have hc : c.isDigit = true :=
    digits_digits s c (by rw [digits, hdigits]; exact List.mem_cons_self)
  unfold magnitude
  rw [digits, hdigits]
  split
  · exact ⟨c, _, rfl, hc⟩
  split
  case isTrue h =>
    rw [show n.toNat = n.toNat - 1 + 1 by omega, List.take_succ_cons]
    exact ⟨c, _, rfl, hc⟩
  split
  · exact ⟨'0', _, rfl, rfl⟩
  · exact ⟨c, _, rfl, hc⟩

/-- Two numbers with one text are the same. -/
theorem text_injective {x y : Shortest} (h : x.text = y.text) : x = y := by
  obtain ⟨c, rest, hx, hc⟩ := exists_digit_magnitude x.s x.n
  obtain ⟨d, rest', hy, hd⟩ := exists_digit_magnitude y.s y.n
  have hsign : x.negative = y.negative := by
    rw [Shortest.text, Shortest.text, hx, hy] at h
    cases hxn : x.negative <;> cases hyn : y.negative <;> simp only [hxn, hyn] at h ⊢
    · obtain ⟨rfl, -⟩ := List.cons.inj h
      cases hc
    · obtain ⟨rfl, -⟩ := List.cons.inj h
      cases hd
  rw [Shortest.text, Shortest.text, hsign] at h
  obtain ⟨hs, hn⟩ := magnitude_injective x.hs y.hs (List.append_cancel_left h)
  cases x
  cases y
  simp only at hsign hs hn
  subst hsign hs hn
  rfl

theorem length_digits_mul_pow {s : ℕ} (hs : 0 < s) (a : ℕ) :
    (digits (s * 10 ^ a)).length = (digits s).length + a := by
  induction a with
  | zero => simp
  | succ a ih =>
    have hpos : 0 < s * 10 ^ a := Nat.mul_pos hs (Nat.pow_pos (by decide))
    have := Nat.toDigits_append_toDigits (b := 10) (d := 0) (by decide) hpos (by decide)
    rw [Nat.add_zero] at this
    rw [Nat.pow_succ, ← Nat.mul_assoc, Nat.mul_comm _ 10, digits, ← this, List.length_append]
    rw [digits] at ih
    rw [ih]
    rfl

theorem ofNat_injective {m m' : ℕ} (hm : m ≠ 0) (hm' : m' ≠ 0) (h : ofNat m hm = ofNat m' hm') :
    m = m' := by
  have hspec : ∀ {m : ℕ}, m ≠ 0 → 0 < (stripZeros m m).1 ∧
      m = (stripZeros m m).1 * 10 ^ (stripZeros m m).2 := by
    intro m hm
    obtain ⟨hs, heq⟩ := stripZeros_spec m hm (Nat.le_refl m)
    exact ⟨by omega, heq⟩
  have hlength : ∀ {m : ℕ}, m ≠ 0 →
      (digits m).length = (digits (stripZeros m m).1).length + (stripZeros m m).2 := by
    intro m hm
    obtain ⟨hs, heq⟩ := hspec hm
    have := length_digits_mul_pow hs (stripZeros m m).2
    rwa [← heq] at this
  have hs : (stripZeros m m).1 = (stripZeros m' m').1 := congrArg Shortest.s h
  have hn : ((digits m).length : ℤ) = (digits m').length := congrArg Shortest.n h
  rw [hlength hm, hlength hm', hs] at hn
  rw [(hspec hm).2, (hspec hm').2, hs, show (stripZeros m m).2 = (stripZeros m' m').2 by omega]

end Decimal
