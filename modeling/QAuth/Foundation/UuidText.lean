import Mathlib.Data.List.GetD
import Mathlib.Data.List.Induction

/-!
# UUIDs as text

A UUID is a number of 128 bits. Its text has 32 hexadecimal digits, in lower case, in groups of 8,
4, 4, 4 and 12 with a dash between each two.
-/

namespace UuidText

/-! ### Hexadecimal digits -/

def hexDigits : List Char := "0123456789abcdef".toList

def isHexDigit (c : Char) : Bool := hexDigits.contains c

def hexDigit (n : ℕ) : Char := hexDigits.getD n '0'

/-- The number that some hexadecimal digits stand for. -/
def ofHex (ds : List Char) : ℕ := ds.foldl (fun n d ↦ 16 * n + hexDigits.idxOf d) 0

/-- The last `k` hexadecimal digits of a number. -/
def toHex : ℕ → ℕ → List Char
  | 0, _ => []
  | k + 1, n => toHex k (n / 16) ++ [hexDigit (n % 16)]

theorem idxOf_lt {c : Char} (h : isHexDigit c = true) : hexDigits.idxOf c < 16 := by
  have hlength : hexDigits.length = 16 := by decide
  rw [← hlength]
  exact List.idxOf_lt_length_of_mem (List.contains_iff_mem.mp h)

theorem hexDigit_idxOf {c : Char} (h : isHexDigit c = true) :
    hexDigit (hexDigits.idxOf c) = c := by
  have hlt := List.idxOf_lt_length_of_mem (List.contains_iff_mem.mp h)
  rw [hexDigit, List.getD_eq_getElem _ _ hlt, List.getElem_idxOf]

theorem ofHex_append (ds : List Char) (d : Char) :
    ofHex (ds ++ [d]) = 16 * ofHex ds + hexDigits.idxOf d := by
  rw [ofHex, List.foldl_append]
  rfl

/-- Digits are those of the number they stand for. -/
theorem toHex_ofHex {ds : List Char} (h : ∀ d ∈ ds, isHexDigit d = true) :
    toHex ds.length (ofHex ds) = ds := by
  induction ds using List.reverseRecOn with
  | nil => rfl
  | append_singleton ds d ih =>
    have hd : isHexDigit d = true := h d (by simp)
    have hlt := idxOf_lt hd
    have hdiv : (16 * ofHex ds + hexDigits.idxOf d) / 16 = ofHex ds := by omega
    have hmod : (16 * ofHex ds + hexDigits.idxOf d) % 16 = hexDigits.idxOf d := by omega
    rw [List.length_append, List.length_singleton, toHex, ofHex_append, hdiv, hmod,
      ih fun d' hd' ↦ h d' (List.mem_append_left _ hd'), hexDigit_idxOf hd]

/-! ### Dashes -/

/-- Where the digits of the text stand, and where its dashes. -/
def places : List Bool :=
  List.replicate 8 true ++ false :: List.replicate 4 true ++ false :: List.replicate 4 true ++
    false :: List.replicate 4 true ++ false :: List.replicate 12 true

/-- Whether a text has digits and dashes where these stand. -/
def fits : List Bool → List Char → Bool
  | true :: ps, c :: cs => isHexDigit c && fits ps cs
  | false :: ps, c :: cs => c == '-' && fits ps cs
  | [], [] => true
  | _, _ => false

/-- The digits with the dashes put in. -/
def fill : List Bool → List Char → List Char
  | true :: ps, d :: ds => d :: fill ps ds
  | false :: ps, ds => '-' :: fill ps ds
  | _, _ => []

def digits (text : List Char) : List Char := text.filter (· ≠ '-')

/-- The text of a UUID, in lower case. -/
def IsUuid (text : List Char) : Prop := fits places text = true

instance (text : List Char) : Decidable (IsUuid text) := inferInstanceAs (Decidable (_ = _))

/-- The number a text stands for. -/
def value (text : List Char) : ℕ := ofHex (digits text)

/-- The text of a number. -/
def text (n : ℕ) : List Char := fill places (toHex 32 n)

variable {ps : List Bool} {cs : List Char}

theorem ne_dash {c : Char} (h : isHexDigit c = true) : c ≠ '-' := by
  rintro rfl
  revert h
  decide

/-- What a fitting text is made of. -/
theorem fits_spec (h : fits ps cs = true) :
    (∀ d ∈ digits cs, isHexDigit d = true) ∧ (digits cs).length = ps.count true ∧
      fill ps (digits cs) = cs := by
  induction ps, cs using fits.induct with
  | case1 ps c cs ih =>
    rw [fits, Bool.and_eq_true] at h
    obtain ⟨hall, hlength, hfill⟩ := ih h.2
    have hdigits : digits (c :: cs) = c :: digits cs :=
      List.filter_cons_of_pos (by simpa using ne_dash h.1)
    rw [hdigits]
    refine ⟨List.forall_mem_cons.mpr ⟨h.1, hall⟩, ?_, ?_⟩
    · rw [List.length_cons, List.count_cons_self, hlength]
    · rw [fill, hfill]
  | case2 ps c cs ih =>
    rw [fits, Bool.and_eq_true, beq_iff_eq] at h
    obtain ⟨rfl, h⟩ := h
    obtain ⟨hall, hlength, hfill⟩ := ih h
    have hdigits : digits ('-' :: cs) = digits cs := List.filter_cons_of_neg (by simp)
    rw [hdigits]
    refine ⟨hall, ?_, ?_⟩
    · rw [List.count_cons_of_ne (by decide), hlength]
    · rw [fill, hfill]
  | case3 => exact ⟨nofun, rfl, rfl⟩
  | case4 ps cs =>
    rw [fits.eq_def] at h
    split at h <;> simp_all

/-- A text is the one of the number it stands for. -/
theorem text_value (h : IsUuid cs) : text (value cs) = cs := by
  obtain ⟨hall, hlength, hfill⟩ := fits_spec h
  have hcount : places.count true = 32 := by decide
  rw [hcount] at hlength
  rw [text, value, ← hlength, toHex_ofHex hall, hfill]

theorem length_of_isUuid (h : IsUuid cs) : cs.length = 36 := by
  have key : ∀ {ps : List Bool} {cs : List Char}, fits ps cs = true → cs.length = ps.length := by
    intro ps cs h
    induction ps, cs using fits.induct with
    | case1 ps c cs ih | case2 ps c cs ih =>
      rw [fits, Bool.and_eq_true] at h
      rw [List.length_cons, List.length_cons, ih h.2]
    | case3 => rfl
    | case4 ps cs =>
      rw [fits.eq_def] at h
      split at h <;> simp_all
  exact (key h).trans (by decide)

/-- The text is made of digits and dashes. -/
theorem mem_of_isUuid (h : IsUuid cs) {c : Char} (hc : c ∈ cs) : isHexDigit c = true ∨ c = '-' := by
  by_cases hdash : c = '-'
  · exact .inr hdash
  · exact .inl ((fits_spec h).1 c (List.mem_filter.mpr ⟨hc, by simpa using hdash⟩))

/-! ### Letter case -/

theorem isHexDigit_hexDigit {n : ℕ} (hn : n < 16) : isHexDigit (hexDigit n) = true := by
  have key : ∀ i < 16, isHexDigit (hexDigit i) = true := by decide
  exact key n hn

theorem isHexDigit_of_mem_toHex {k n : ℕ} {c : Char} (hc : c ∈ toHex k n) :
    isHexDigit c = true := by
  induction k generalizing n with
  | zero => cases hc
  | succ k ih =>
    rw [toHex, List.mem_append, List.mem_singleton] at hc
    rcases hc with hc | rfl
    · exact ih hc
    · exact isHexDigit_hexDigit (Nat.mod_lt _ (by decide))

theorem mem_of_mem_fill {ds : List Char} {c : Char} (hc : c ∈ fill ps ds) : c ∈ ds ∨ c = '-' := by
  induction ps, ds using fill.induct with
  | case1 ps d ds ih =>
    rw [fill, List.mem_cons] at hc
    rcases hc with rfl | hc
    · exact .inl List.mem_cons_self
    · exact (ih hc).imp_left (List.mem_cons_of_mem _)
  | case2 ps ds ih =>
    rw [fill, List.mem_cons] at hc
    rcases hc with rfl | hc
    · exact .inr rfl
    · exact ih hc
  | case3 ps ds =>
    rw [fill.eq_def] at hc
    split at hc <;> simp_all

/-- The text of a number is in lower case. -/
theorem map_toLower_text (n : ℕ) : (text n).map Char.toLower = text n := by
  have key : (hexDigits.all fun c ↦ c.toLower = c) = true := by decide
  refine (List.map_congr_left fun c hc ↦ ?_).trans (List.map_id _)
  rcases mem_of_mem_fill hc with hc | rfl
  · exact of_decide_eq_true (List.all_eq_true.mp key c
      (List.contains_iff_mem.mp (isHexDigit_of_mem_toHex hc)))
  · decide

end UuidText
