import Mathlib.Algebra.GroupWithZero.Nat
import Mathlib.Data.String.Basic

/-!
# Strings as ECMAScript reads them
-/

namespace Text

/-- What holds of all characters of a text is decided along the text. -/
instance (priority := 1100) decidableForallMem {α : Type*} (p : α → Prop) [DecidablePred p]
    (l : List α) : Decidable (∀ a ∈ l, p a) :=
  List.decidableBAll p l

instance lawfulBEqChars : LawfulBEq (List Char) := inferInstance

instance lawfulBEqUnits : LawfulBEq (List UInt16) := inferInstance

/-- The length of a string, in UTF-16 code units. -/
def utf16Length (s : String) : ℕ :=
  (s.toList.map fun c ↦ if c.val < 0x10000 then 1 else 2).sum

/-- A character is at most four bytes. -/
theorem utf8ByteSize_le (s : String) : s.utf8ByteSize ≤ 4 * s.toList.length := by
  rw [← String.ofList_toList (s := s), String.utf8ByteSize_ofList, String.toList_ofList]
  induction s.toList with
  | nil => exact Nat.zero_le _
  | cons c cs ih =>
    have := c.utf8Size_le_four
    rw [String.utf8Len_cons, List.length_cons]
    omega

/-- The UTF-16 code units of a character. -/
def unitsOf (c : Char) : List UInt16 :=
  if c.toNat < 0x10000 then [UInt16.ofNat c.toNat]
  else [UInt16.ofNat (0xD800 + (c.toNat - 0x10000) / 0x400),
    UInt16.ofNat (0xDC00 + (c.toNat - 0x10000) % 0x400)]

/-- The characters of a string of UTF-16 code units, with U+FFFD for a surrogate on its own. -/
def charsOf : List UInt16 → List Char
  | [] => []
  | u :: units =>
    if 0xD800 ≤ u ∧ u < 0xDC00 then
      match units with
      | v :: rest =>
        if 0xDC00 ≤ v ∧ v < 0xE000 then
          Char.ofNat (0x10000 + (u.toNat - 0xD800) * 0x400 + (v.toNat - 0xDC00)) :: charsOf rest
        else '\uFFFD' :: charsOf (v :: rest)
      | [] => ['\uFFFD']
    else if 0xDC00 ≤ u ∧ u < 0xE000 then '\uFFFD' :: charsOf units
    else Char.ofNat u.toNat :: charsOf units

/-- The UTF-16 code units of a text. -/
def units (text : String) : List UInt16 := text.toList.flatMap unitsOf

/-- `[\uD800-\uDBFF]`. -/
def isHigh (u : UInt16) : Bool := 0xD800 ≤ u && u < 0xDC00

/-- `[\uDC00-\uDFFF]`. -/
def isLow (u : UInt16) : Bool := 0xDC00 ≤ u && u < 0xE000

/-- A high surrogate that no low one follows, or a low one that follows no high one; the string
follows the code unit `before`. -/
def loneSurrogate (before : Option UInt16) : List UInt16 → Bool
  | [] => false
  | u :: rest =>
    (isHigh u && !rest.head?.any isLow) || (isLow u && !before.any isHigh) ||
      loneSurrogate (some u) rest

theorem unitsOf_ofNat {u : UInt16} (hhigh : isHigh u = false) (hlow : isLow u = false) :
    unitsOf (Char.ofNat u.toNat) = [u] := by
  have hu := u.toNat_lt
  simp only [isHigh, isLow, Bool.and_eq_false_iff, decide_eq_false_iff_not, UInt16.le_iff_toNat_le,
    UInt16.lt_iff_toNat_lt, UInt16.reduceToNat] at hhigh hlow
  have hvalid : u.toNat.isValidChar := by
    simp only [Nat.isValidChar]
    omega
  have hchar : (Char.ofNat u.toNat).toNat = u.toNat := by
    rw [Char.ofNat, dif_pos hvalid]
    rfl
  rw [unitsOf, hchar, if_pos (by omega), UInt16.ofNat_toNat]

theorem unitsOf_pair {u v : UInt16} (hu : isHigh u = true) (hv : isLow v = true) :
    unitsOf (Char.ofNat (0x10000 + (u.toNat - 0xD800) * 0x400 + (v.toNat - 0xDC00))) = [u, v] := by
  simp only [isHigh, isLow, Bool.and_eq_true, decide_eq_true_eq, UInt16.le_iff_toNat_le,
    UInt16.lt_iff_toNat_lt, UInt16.reduceToNat] at hu hv
  have hvalid : (0x10000 + (u.toNat - 0xD800) * 0x400 + (v.toNat - 0xDC00)).isValidChar := by
    simp only [Nat.isValidChar]
    omega
  have hchar : (Char.ofNat (0x10000 + (u.toNat - 0xD800) * 0x400 + (v.toNat - 0xDC00))).toNat =
      0x10000 + (u.toNat - 0xD800) * 0x400 + (v.toNat - 0xDC00) := by
    rw [Char.ofNat, dif_pos hvalid]
    rfl
  have hfirst : 0xD800 + ((u.toNat - 0xD800) * 0x400 + (v.toNat - 0xDC00)) / 0x400 = u.toNat := by
    omega
  have hsecond :
      0xDC00 + ((u.toNat - 0xD800) * 0x400 + (v.toNat - 0xDC00)) % 0x400 = v.toNat := by
    omega
  rw [unitsOf, hchar, if_neg (by omega), Nat.add_assoc, Nat.add_sub_cancel_left, hfirst, hsecond,
    UInt16.ofNat_toNat, UInt16.ofNat_toNat]

/-- Code units without a lone surrogate are those of a text. -/
theorem flatMap_unitsOf_charsOf {before : Option UInt16} (hbefore : before.any isHigh = false)
    {s : List UInt16} (h : loneSurrogate before s = false) :
    (charsOf s).flatMap unitsOf = s := by
  induction s using charsOf.induct generalizing before with
  | case1 => rfl
  | case2 u hu v rest hv ih =>
    have hu' : isHigh u = true := by simpa [isHigh] using hu
    have hv' : isLow v = true := by simpa [isLow] using hv
    have hhigh : isHigh v = false := by
      simp only [isHigh, isLow, Bool.and_eq_true, decide_eq_true_eq, Bool.and_eq_false_iff,
        decide_eq_false_iff_not, UInt16.le_iff_toNat_le, UInt16.lt_iff_toNat_lt,
        UInt16.reduceToNat] at hv' ⊢
      omega
    simp only [loneSurrogate, Bool.or_eq_false_iff] at h
    rw [charsOf, if_pos hu]
    simp only [if_pos hv, List.flatMap_cons, unitsOf_pair hu' hv']
    have hv'' : (some v).any isHigh = false := by simpa using hhigh
    rw [ih hv'' h.2.2]
    rfl
  | case3 u hu v rest hv ih =>
    have hu' : isHigh u = true := by simpa [isHigh] using hu
    have hv' : isLow v = false := by simpa [isLow] using hv
    simp [loneSurrogate, hu', hv'] at h
  | case4 u hu =>
    have hu' : isHigh u = true := by simpa [isHigh] using hu
    simp [loneSurrogate, hu'] at h
  | case5 u rest hu hl ih =>
    have hl' : isLow u = true := by simpa [isLow] using hl
    simp [loneSurrogate, hl', hbefore] at h
  | case6 u rest hu hl ih =>
    have hu' : isHigh u = false := by simpa [isHigh] using hu
    have hl' : isLow u = false := by simpa [isLow] using hl
    simp only [loneSurrogate, Bool.or_eq_false_iff] at h
    rw [charsOf.eq_def]
    simp only [if_neg hu, if_neg hl, List.flatMap_cons, unitsOf_ofNat hu' hl']
    have hu'' : (some u).any isHigh = false := by simpa using hu'
    rw [ih hu'' h.2]
    rfl

/-- A character's code units are read as the character. -/
theorem charsOf_unitsOf_append (c : Char) (rest : List UInt16) :
    charsOf (unitsOf c ++ rest) = c :: charsOf rest := by
  have hvalid := c.valid
  have hc : c.val.toNat = c.toNat := rfl
  simp only [UInt32.isValidChar, Nat.isValidChar, hc] at hvalid
  rw [unitsOf]
  split
  case isTrue hsmall =>
    have hu : (UInt16.ofNat c.toNat).toNat = c.toNat := by
      simp
      omega
    rw [List.singleton_append, charsOf.eq_def]
    simp only [UInt16.le_iff_toNat_le, UInt16.lt_iff_toNat_lt, UInt16.reduceToNat, hu]
    rw [if_neg (by omega), if_neg (by omega), Char.ofNat_toNat]
  case isFalse hlarge =>
    have hu : (UInt16.ofNat (0xD800 + (c.toNat - 0x10000) / 0x400)).toNat =
        0xD800 + (c.toNat - 0x10000) / 0x400 := by
      simp
      omega
    have hv : (UInt16.ofNat (0xDC00 + (c.toNat - 0x10000) % 0x400)).toNat =
        0xDC00 + (c.toNat - 0x10000) % 0x400 := by
      simp
      omega
    have hback : 0x10000 + (0xD800 + (c.toNat - 0x10000) / 0x400 - 0xD800) * 0x400 +
        (0xDC00 + (c.toNat - 0x10000) % 0x400 - 0xDC00) = c.toNat := by
      omega
    rw [List.cons_append, List.singleton_append, charsOf.eq_def]
    simp only [UInt16.le_iff_toNat_le, UInt16.lt_iff_toNat_lt, UInt16.reduceToNat, hu, hv]
    rw [if_pos (by omega), if_pos (by omega), hback, Char.ofNat_toNat]

/-- The code units of characters are read as the characters, whatever follows them. -/
theorem charsOf_flatMap_append (cs : List Char) (rest : List UInt16) :
    charsOf (cs.flatMap unitsOf ++ rest) = cs ++ charsOf rest := by
  induction cs with
  | nil => rfl
  | cons c cs ih =>
    rw [List.flatMap_cons, List.append_assoc, charsOf_unitsOf_append, ih, List.cons_append]

theorem charsOf_flatMap_unitsOf (cs : List Char) : charsOf (cs.flatMap unitsOf) = cs := by
  have h := charsOf_flatMap_append cs []
  rwa [List.append_nil, charsOf, List.append_nil] at h

/-- A text's code units are read as the text. -/
theorem charsOf_units (text : String) : charsOf (units text) = text.toList :=
  charsOf_flatMap_unitsOf text.toList

theorem units_append (s t : String) : units (s ++ t) = units s ++ units t := by
  rw [units, units, units, String.toList_append, List.flatMap_append]

theorem units_injective {s t : String} (h : units s = units t) : s = t := by
  have hchars := congrArg charsOf h
  rw [charsOf_units, charsOf_units] at hchars
  exact String.toList_injective hchars

/-- A character is one code unit that is no half of a pair, or a pair. -/
theorem unitsOf_cases (c : Char) :
    (∃ u, unitsOf c = [u] ∧ isHigh u = false ∧ isLow u = false) ∨
      ∃ u v, unitsOf c = [u, v] ∧ isHigh u = true ∧ isLow u = false ∧ isHigh v = false ∧
        isLow v = true := by
  have hvalid := c.valid
  have hc : c.val.toNat = c.toNat := rfl
  simp only [UInt32.isValidChar, Nat.isValidChar, hc] at hvalid
  rw [unitsOf]
  split
  case isTrue hsmall =>
    refine .inl ⟨_, rfl, ?_, ?_⟩
    · simp [isHigh, UInt16.le_iff_toNat_le, UInt16.lt_iff_toNat_lt]
      omega
    · simp [isLow, UInt16.le_iff_toNat_le, UInt16.lt_iff_toNat_lt]
      omega
  case isFalse hlarge =>
    refine .inr ⟨_, _, rfl, ?_, ?_, ?_, ?_⟩
    · simp [isHigh, UInt16.le_iff_toNat_le, UInt16.lt_iff_toNat_lt]
      omega
    · simp [isLow, UInt16.le_iff_toNat_le, UInt16.lt_iff_toNat_lt]
      omega
    · simp [isHigh, UInt16.le_iff_toNat_le, UInt16.lt_iff_toNat_lt]
      omega
    · simp [isLow, UInt16.le_iff_toNat_le, UInt16.lt_iff_toNat_lt]
      omega

/-- No half of a pair stands alone in a text's code units. -/
theorem loneSurrogate_flatMap_unitsOf (cs : List Char) {before : Option UInt16}
    (hbefore : before.any isHigh = false) :
    loneSurrogate before (cs.flatMap unitsOf) = false := by
  induction cs generalizing before with
  | nil => rfl
  | cons c cs ih =>
    rw [List.flatMap_cons]
    obtain ⟨u, hc, hhigh, hlow⟩ | ⟨u, v, hc, hu, hulow, hvhigh, hv⟩ := unitsOf_cases c
    · have htail : loneSurrogate (some u) (cs.flatMap unitsOf) = false :=
        ih (by rw [Option.any_some, hhigh])
      simp [hc, loneSurrogate, hhigh, hlow, htail]
    · have htail : loneSurrogate (some v) (cs.flatMap unitsOf) = false :=
        ih (by rw [Option.any_some, hvhigh])
      simp [hc, loneSurrogate, hu, hulow, hv, hvhigh, htail]

def utf8Bytes (text : List Char) : List UInt8 := text.flatMap String.utf8EncodeChar

theorem utf8Bytes_of_ascii {text : List Char} (h : ∀ c ∈ text, c.toNat < 128) :
    utf8Bytes text = text.map fun c ↦ UInt8.ofNat c.toNat := by
  rw [utf8Bytes, List.map_eq_flatMap]
  refine List.flatMap_congr fun c hc ↦ ?_
  have hle : c.val.toNat ≤ 0x7f := Nat.le_of_lt_succ (h c hc)
  exact if_pos hle

theorem utf8Bytes_injective : Function.Injective utf8Bytes := by
  intro s t h
  have hbytes : s.utf8Encode = t.utf8Encode := congrArg List.toByteArray h
  have hdecode := congrArg ByteArray.utf8Decode? hbytes
  rw [List.utf8Decode?_utf8Encode, List.utf8Decode?_utf8Encode] at hdecode
  exact List.toArray_inj (Option.some.inj hdecode)

/-! ### Well-formed code units -/

/-- The code units are those of a text. -/
def isWellFormed (s : List UInt16) : Bool := (charsOf s).flatMap unitsOf = s

/-- The bytes of code units in UTF-8, a surrogate on its own being replaced. -/
def utf8Of (s : List UInt16) : List UInt8 := utf8Bytes (charsOf s)

theorem isWellFormed_flatMap_unitsOf (cs : List Char) : isWellFormed (cs.flatMap unitsOf) = true := by
  rw [isWellFormed, charsOf_flatMap_unitsOf]
  exact decide_eq_true rfl

theorem eq_of_charsOf_eq {s t : List UInt16} (hs : isWellFormed s = true)
    (ht : isWellFormed t = true) (h : charsOf s = charsOf t) : s = t := by
  rw [← of_decide_eq_true hs, ← of_decide_eq_true ht, h]

/-- The bytes tell well-formed code units apart. -/
theorem eq_of_utf8Of_eq {s t : List UInt16} (hs : isWellFormed s = true)
    (ht : isWellFormed t = true) (h : utf8Of s = utf8Of t) : s = t :=
  eq_of_charsOf_eq hs ht (utf8Bytes_injective h)

/-- Nothing is replaced in code units that are read without a replacement. -/
theorem isWellFormed_of_not_mem {s : List UInt16} (h : '\uFFFD' ∉ charsOf s) :
    isWellFormed s = true := by
  refine decide_eq_true ?_
  induction s using charsOf.induct with
  | case1 => rfl
  | case2 u hu v rest hv ih =>
    have hu' : isHigh u = true := by simpa [isHigh] using hu
    have hv' : isLow v = true := by simpa [isLow] using hv
    rw [charsOf, if_pos hu] at h ⊢
    simp only [if_pos hv, List.mem_cons, not_or] at h ⊢
    rw [List.flatMap_cons, unitsOf_pair hu' hv', ih h.2]
    rfl
  | case3 u hu v rest hv ih =>
    rw [charsOf, if_pos hu] at h
    simp [if_neg hv] at h
  | case4 u hu =>
    rw [charsOf, if_pos hu] at h
    simp at h
  | case5 u rest hu hl ih =>
    rw [charsOf.eq_def] at h
    simp [if_neg hu, if_pos hl] at h
  | case6 u rest hu hl ih =>
    have hu' : isHigh u = false := by simpa [isHigh] using hu
    have hl' : isLow u = false := by simpa [isLow] using hl
    rw [charsOf.eq_def] at h ⊢
    simp only [if_neg hu, if_neg hl, List.mem_cons, not_or] at h ⊢
    rw [List.flatMap_cons, unitsOf_ofNat hu' hl', ih h.2]
    rfl

/-! ### Bytes as text -/

/-- The bytes that follow the first byte of a character, the range of the first of them, and the
bits that the first byte gives. -/
def leadByte (b : ℕ) : Option (ℕ × ℕ × ℕ × ℕ) :=
  if b < 0xC2 then none
  else if b < 0xE0 then some (1, 0x80, 0xBF, b - 0xC0)
  else if b < 0xF0 then
    some (2, if b = 0xE0 then 0xA0 else 0x80, if b = 0xED then 0x9F else 0xBF, b - 0xE0)
  else if b < 0xF5 then
    some (3, if b = 0xF0 then 0x90 else 0x80, if b = 0xF4 then 0x8F else 0xBF, b - 0xF0)
  else none

/-- The text of some bytes, with U+FFFD for what is no character, where `needed` more bytes of a
character of the bits `point` are to come, the first of them from `lower` to `upper`. -/
def utf8TextFrom (needed lower upper point : ℕ) : List UInt8 → List Char
  | [] => if needed = 0 then [] else ['\uFFFD']
  | b :: rest =>
    if needed ≠ 0 ∧ lower ≤ b.toNat ∧ b.toNat ≤ upper then
      let point := point * 64 + (b.toNat - 0x80)
      if needed = 1 then Char.ofNat point :: utf8TextFrom 0 0 0 0 rest
      else utf8TextFrom (needed - 1) 0x80 0xBF point rest
    else
      (if needed = 0 then [] else ['\uFFFD']) ++
        if b < 0x80 then Char.ofNat b.toNat :: utf8TextFrom 0 0 0 0 rest
        else match leadByte b.toNat with
          | none => '\uFFFD' :: utf8TextFrom 0 0 0 0 rest
          | some (needed, lower, upper, point) => utf8TextFrom needed lower upper point rest

/-- `toString('utf8')` of some bytes. -/
def utf8Text (bytes : List UInt8) : List Char := utf8TextFrom 0 0 0 0 bytes

/-! ### Characters of a class -/

/-- The characters of `\s`. -/
def isSpace (c : Char) : Bool :=
  c.val ∈ ([0x09, 0x0A, 0x0B, 0x0C, 0x0D, 0x20, 0xA0, 0x1680, 0x2028, 0x2029, 0x202F, 0x205F,
    0x3000, 0xFEFF] : List UInt32) || (0x2000 ≤ c.val && c.val ≤ 0x200A)

/-- A text without white space at either end. -/
def trim (text : List Char) : List Char :=
  ((text.dropWhile isSpace).reverse.dropWhile isSpace).reverse

/-- Every character of the text is of the class. -/
def matchesAll (ofClass : Char → Bool) (text : String) : Bool :=
  text.toList.all ofClass

end Text
