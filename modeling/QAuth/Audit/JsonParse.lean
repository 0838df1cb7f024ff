import QAuth.Approvals.CanonicalRequest
import QAuth.Foundation.DoubleText
import QAuth.Foundation.Words

/-!
# Reading JSON

`JSON.parse`: the value of a JSON text. The text of a value without two members of one name, whose
numbers are doubles, is read as that value.
-/

namespace QAuth.Audit

open Approvals (JsString JsValue withMember)
open Decimal (Digits digits_digits)
open Text (units unitsOf units_injective)

/-! ### The reader -/

/-- White space between the parts of a text. -/
def isJsonSpace (c : Char) : Bool := c = ' ' || c = '\t' || c = '\n' || c = '\r'

def skipSpace (text : List Char) : List Char := text.dropWhile isJsonSpace

def hexValue? (c : Char) : Option ℕ :=
  if c.isDigit then some (c.toNat - 48)
  else if 'a' ≤ c ∧ c ≤ 'f' then some (c.toNat - 87)
  else if 'A' ≤ c ∧ c ≤ 'F' then some (c.toNat - 55)
  else none

/-- The code unit of four hexadecimal digits. -/
def hexUnit? (a b c d : Char) : Option UInt16 := do
  let a ← hexValue? a
  let b ← hexValue? b
  let c ← hexValue? c
  let d ← hexValue? d
  some (UInt16.ofNat (((a * 16 + b) * 16 + c) * 16 + d))

/-- The code unit that a character stands for after a backslash. -/
def escapedUnit? (c : Char) : Option UInt16 :=
  if c = '"' ∨ c = '\\' ∨ c = '/' then some (UInt16.ofNat c.toNat)
  else if c = 'b' then some 8
  else if c = 't' then some 9
  else if c = 'n' then some 10
  else if c = 'f' then some 12
  else if c = 'r' then some 13
  else none

/-- The string after its opening quote, and what follows its closing one. -/
def readString : List Char → Option (JsString × List Char)
  | [] => none
  | '"' :: rest => some ([], rest)
  | '\\' :: 'u' :: a :: b :: c :: d :: rest =>
    (hexUnit? a b c d).bind fun u ↦ (readString rest).map fun p ↦ (u :: p.1, p.2)
  | '\\' :: c :: rest =>
    (escapedUnit? c).bind fun u ↦ (readString rest).map fun p ↦ (u :: p.1, p.2)
  | c :: rest =>
    if c.toNat < 32 then none else (readString rest).map fun p ↦ (unitsOf c ++ p.1, p.2)

/-- The number nearest to a rational. -/
def JsNumber.of (q : ℚ) : JsNumber :=
  match Double.nearest q with
  | none => .infinite (q < 0)
  | some d => (Double.printed d).elim .zero .finite

/-- The digits after a point, where there is one. -/
def readFraction : List Char → Option (List Char × List Char)
  | '.' :: rest =>
    if (rest.takeWhile Char.isDigit).isEmpty then none
    else some (rest.takeWhile Char.isDigit, rest.dropWhile Char.isDigit)
  | rest => some ([], rest)

/-- The sign of an exponent, and what follows it. -/
def readSign : List Char → Bool × List Char
  | '-' :: rest => (true, rest)
  | '+' :: rest => (false, rest)
  | rest => (false, rest)

def readExponent : List Char → Option (ℤ × List Char)
  | [] => some (0, [])
  | c :: rest =>
    if c = 'e' ∨ c = 'E' then
      let ds := (readSign rest).2.takeWhile Char.isDigit
      if ds.isEmpty then none
      else some ((if (readSign rest).1 then -1 else 1) * (Nat.ofDigitChars 10 ds 0 : ℤ),
        (readSign rest).2.dropWhile Char.isDigit)
    else some (0, c :: rest)

/-- A number without its sign: its digits as a whole number, and the power of ten they are shifted
by. -/
def readMagnitude (text : List Char) : Option ((ℕ × ℤ) × List Char) :=
  let whole := text.takeWhile Char.isDigit
  if whole.isEmpty ∨ (1 < whole.length ∧ whole.head? = some '0') then none
  else
    (readFraction (text.dropWhile Char.isDigit)).bind fun p ↦
      (readExponent p.2).map fun e ↦
        ((Nat.ofDigitChars 10 (whole ++ p.1) 0, e.1 - p.1.length), e.2)

def readNumber : List Char → Option (JsNumber × List Char)
  | '-' :: rest =>
    (readMagnitude rest).map fun p ↦ (.of (-1 * (p.1.1 * 10 ^ p.1.2)), p.2)
  | text => (readMagnitude text).map fun p ↦ (.of (1 * (p.1.1 * 10 ^ p.1.2)), p.2)

/-- The members as they are defined one after the other: a name that stands twice has the value
that stands last. -/
def defineAll (members : List (JsString × JsValue)) : List (JsString × JsValue) :=
  members.foldl (fun defined m ↦ withMember defined m.1 m.2) []

mutual

/-- The value that a text begins with, and what follows it; every bracket and every comma of the
text takes `fuel`. -/
def readValue : ℕ → List Char → Option (JsValue × List Char)
  | 0, _ => none
  | fuel + 1, text =>
    match skipSpace text with
    | 'n' :: 'u' :: 'l' :: 'l' :: rest => some (.null, rest)
    | 't' :: 'r' :: 'u' :: 'e' :: rest => some (.bool true, rest)
    | 'f' :: 'a' :: 'l' :: 's' :: 'e' :: rest => some (.bool false, rest)
    | '"' :: rest => (readString rest).map fun p ↦ (.str p.1, p.2)
    | '[' :: rest =>
      match skipSpace rest with
      | ']' :: rest => some (.arr [], rest)
      | rest => (readItems fuel rest).map fun p ↦ (.arr (p.1.map some), p.2)
    | '\x7b' :: rest =>
      match skipSpace rest with
      | '\x7d' :: rest => some (.obj .plain [], rest)
      | rest => (readMembers fuel rest).map fun p ↦ (.obj .plain (defineAll p.1), p.2)
    | text => (readNumber text).map fun p ↦ (.num p.1, p.2)

/-- The items up to the closing bracket. -/
def readItems : ℕ → List Char → Option (List JsValue × List Char)
  | 0, _ => none
  | fuel + 1, text =>
    (readValue fuel text).bind fun p ↦
      match skipSpace p.2 with
      | ',' :: rest => (readItems fuel rest).map fun q ↦ (p.1 :: q.1, q.2)
      | ']' :: rest => some ([p.1], rest)
      | _ => none

/-- The members up to the closing brace. -/
def readMembers : ℕ → List Char → Option (List (JsString × JsValue) × List Char)
  | 0, _ => none
  | fuel + 1, text =>
    match skipSpace text with
    | '"' :: rest =>
      (readString rest).bind fun name ↦
        match skipSpace name.2 with
        | ':' :: rest =>
          (readValue fuel rest).bind fun p ↦
            match skipSpace p.2 with
            | ',' :: rest =>
              (readMembers fuel rest).map fun q ↦ ((name.1, p.1) :: q.1, q.2)
            | '\x7d' :: rest => some ([(name.1, p.1)], rest)
            | _ => none
        | _ => none
    | _ => none

end

/-- `JSON.parse`, with nothing for a `SyntaxError`. -/
def parse (text : List Char) : Option JsValue :=
  (readValue (2 * text.length + 2) text).bind fun p ↦
    if (skipSpace p.2).isEmpty then some p.1 else none

/-! ### Strings -/

theorem readString_escape (c : Char) (rest : List Char) :
    readString (escape c ++ rest) =
      (readString rest).map fun p ↦ (unitsOf c ++ p.1, p.2) := by
  by_cases hcontrol : c.toNat < 32
  · obtain ⟨n, hn, rfl⟩ : ∃ n < 32, c = Char.ofNat n :=
      ⟨c.toNat, hcontrol, (Char.ofNat_toNat c).symm⟩
    interval_cases n <;> rfl
  by_cases hquote : c = '"'
  · subst hquote
    rfl
  by_cases hbackslash : c = '\\'
  · subst hbackslash
    rfl
  rw [escape, if_neg hquote, if_neg hbackslash, if_neg (by omega), if_neg (by omega),
    if_neg (by omega), if_neg (by omega), if_neg (by omega), if_neg hcontrol, List.singleton_append,
    readString.eq_def]
  simp [hbackslash, hcontrol]

theorem readString_quote (s : String) (rest : List Char) :
    readString (s.toList.flatMap escape ++ '"' :: rest) = some (units s, rest) := by
  rw [units]
  induction s.toList with
  | nil => rfl
  | cons c cs ih =>
    rw [List.flatMap_cons, List.append_assoc, readString_escape, ih]
    rfl

/-! ### Numbers -/

section Numbers

variable {ds fs expo tail rest : List Char} {s : ℕ} {n : ℤ}

/-- A text that does not begin with a digit. -/
def NoDigit (rest : List Char) : Prop := ∀ c, rest.head? = some c → c.isDigit = false

theorem span_isDigit (h : Digits ds) (hrest : NoDigit rest) :
    (ds ++ rest).takeWhile Char.isDigit = ds ∧ (ds ++ rest).dropWhile Char.isDigit = rest := by
  have hspan := Words.span_append h hrest
  rw [List.span_eq_takeWhile_dropWhile] at hspan
  exact Prod.mk.inj hspan

theorem Stop.noDigit (h : Stop rest) : NoDigit rest := by
  intro c hc
  rcases h c hc with rfl | rfl | rfl <;> rfl

theorem readExponent_stop (h : Stop rest) : readExponent rest = some (0, rest) := by
  cases rest with
  | nil => rfl
  | cons c rest => rcases h c rfl with rfl | rfl | rfl <;> rfl

theorem readFraction_of_ne (h : ∀ c, rest.head? = some c → c ≠ '.') :
    readFraction rest = some ([], rest) := by
  cases rest with
  | nil => rfl
  | cons c rest =>
    rw [readFraction.eq_def]
    split
    case h_1 heq => exact absurd (List.cons.inj heq).1 (h c rfl)
    case h_2 => rfl

theorem readFraction_stop (h : Stop rest) : readFraction rest = some ([], rest) := by
  refine readFraction_of_ne fun c hc ↦ ?_
  rcases h c hc with rfl | rfl | rfl <;> decide

theorem readFraction_point (h : Digits fs) (hne : fs ≠ []) (hexpo : NoDigit expo) :
    readFraction ('.' :: (fs ++ expo)) = some (fs, expo) := by
  obtain ⟨htake, hdrop⟩ := span_isDigit h hexpo
  rw [readFraction, htake, hdrop, if_neg (by simpa using hne)]

/-- The exponent as it is printed. -/
theorem readExponent_digits (m : ℤ) (hrest : NoDigit rest) :
    readExponent ('e' :: (if 0 ≤ m then '+' else '-') :: (Decimal.digits m.natAbs ++ rest)) =
      some (m, rest) := by
  obtain ⟨htake, hdrop⟩ := span_isDigit (digits_digits m.natAbs) hrest
  have hread : Nat.ofDigitChars 10 (Decimal.digits m.natAbs) 0 = m.natAbs :=
    Nat.ofDigitChars_ten_toDigits
  have hne : (Decimal.digits m.natAbs).isEmpty = false := by
    rw [List.isEmpty_eq_false_iff]
    exact Nat.toDigits_ne_nil
  rw [readExponent, if_pos (.inl rfl)]
  by_cases hm : 0 ≤ m
  · rw [if_pos hm]
    simp only [readSign, htake, hdrop, hne, hread]
    simp only [Bool.false_eq_true, if_false, Option.some.injEq, Prod.mk.injEq, and_true]
    omega
  · rw [if_neg hm]
    simp only [readSign, htake, hdrop, hne, hread]
    simp only [Bool.false_eq_true, if_false, if_true, Option.some.injEq, Prod.mk.injEq, and_true]
    omega

theorem readMagnitude_append {whole : List Char} {e : ℤ} (h : Digits whole) (hne : whole ≠ [])
    (hzero : whole.length = 1 ∨ whole.head? ≠ some '0') (htail : NoDigit tail)
    (hfraction : readFraction tail = some (fs, expo))
    (hexponent : readExponent expo = some (e, rest)) :
    readMagnitude (whole ++ tail) =
      some ((Nat.ofDigitChars 10 (whole ++ fs) 0, e - fs.length), rest) := by
  obtain ⟨htake, hdrop⟩ := span_isDigit h htail
  have hwell : ¬ (whole.isEmpty = true ∨ 1 < whole.length ∧ whole.head? = some '0') := by
    rintro (hempty | ⟨hlong, hhead⟩)
    · exact hne (List.isEmpty_iff.mp hempty)
    · rcases hzero with hone | hzero
      · omega
      · exact hzero hhead
  simp only [readMagnitude, htake, hdrop, if_neg hwell, hfraction, hexponent, Option.bind_some,
    Option.map_some]

/-- What is read of a number's text: its digits with some zeros after them, shifted back. -/
theorem readMagnitude_magnitude (hs : s ≠ 0) (hrest : Stop rest) :
    ∃ a : ℕ, readMagnitude (Decimal.magnitude s n ++ rest) =
      some ((s * 10 ^ a, n - (Decimal.digits s).length - a), rest) := by
  have hdigits : Nat.ofDigitChars 10 (Decimal.digits s) 0 = s := Nat.ofDigitChars_ten_toDigits
  have htake : ∀ i, Digits ((Decimal.digits s).take i) :=
    fun i ↦ (digits_digits s).sublist (List.take_sublist i _)
  have hdrop : ∀ i, Digits ((Decimal.digits s).drop i) :=
    fun i ↦ (digits_digits s).sublist (List.drop_sublist i _)
  obtain ⟨c, cs, hcons, hc⟩ := Decimal.exists_digits_eq_cons hs
  have hhead : ∀ i, 0 < i → ∀ tail, ((Decimal.digits s).take i ++ tail).head? ≠ some '0' ∧
      (Decimal.digits s).take i ≠ [] := by
    intro i hi tail
    obtain ⟨j, rfl⟩ : ∃ j, i = j + 1 := ⟨i - 1, by omega⟩
    rw [hcons, List.take_succ_cons]
    simpa using hc
  have hpoint : ∀ tail, NoDigit ('.' :: tail) := by
    rintro tail c hc
    obtain rfl := Option.some.inj hc
    rfl
  have hstop := readFraction_stop hrest
  have hend := readExponent_stop hrest
  unfold Decimal.magnitude
  split
  case isTrue h =>
    have hlast : Digits (Decimal.digits s ++
        List.replicate (n - (Decimal.digits s).length).toNat '0') :=
      (digits_digits s).append (Decimal.digits_replicate _)
    have hfirst : (Decimal.digits s ++ List.replicate (n - (Decimal.digits s).length).toNat
        '0').head? ≠ some '0' := by
      rw [hcons]
      simpa using hc
    refine ⟨(n - (Decimal.digits s).length).toNat, ?_⟩
    rw [readMagnitude_append hlast (by simp [hcons]) (.inr hfirst) hrest.noDigit hstop hend,
      List.append_nil, Nat.ofDigitChars_append, hdigits, Nat.ofDigitChars_replicate_zero,
      Nat.mul_comm, List.length_nil]
    congr 3
    omega
  case isFalse h₁ =>
  split
  case isTrue h =>
    have hne : (Decimal.digits s).drop n.toNat ≠ [] := by
      rw [ne_eq, List.drop_eq_nil_iff]
      omega
    obtain ⟨hfirst, hsome⟩ := hhead n.toNat (by omega) []
    rw [List.append_nil] at hfirst
    refine ⟨0, ?_⟩
    rw [List.append_assoc, List.cons_append, readMagnitude_append (htake n.toNat) hsome
      (.inr hfirst) (hpoint _) (readFraction_point (hdrop n.toNat) hne hrest.noDigit) hend,
      List.take_append_drop, hdigits, Nat.pow_zero, Nat.mul_one, List.length_drop]
    congr 3
    omega
  case isFalse h₂ =>
  split
  case isTrue h =>
    have hfraction : Digits (List.replicate (-n).toNat '0' ++ Decimal.digits s) :=
      (Decimal.digits_replicate _).append (digits_digits s)
    have hread := readMagnitude_append (Decimal.digits_replicate 1) (by simp) (.inl rfl)
      (hpoint _) (readFraction_point hfraction (by simp [hcons]) hrest.noDigit) hend
    refine ⟨0, ?_⟩
    rw [List.replicate_one, List.singleton_append, List.singleton_append, Nat.ofDigitChars_cons,
      Nat.ofDigitChars_append, Nat.ofDigitChars_replicate_zero] at hread
    have hzero : '0'.toNat - '0'.toNat = 0 := rfl
    rw [List.cons_append, List.cons_append, hread, hzero, Nat.mul_zero, hdigits, Nat.pow_zero,
      Nat.mul_one, List.length_append, List.length_replicate]
    congr 3
    push_cast
    omega
  case isFalse h₃ =>
    obtain ⟨hfirst, hsome⟩ := hhead 1 (by omega) []
    rw [List.append_nil] at hfirst
    have hexponent := readExponent_digits (n - 1) hrest.noDigit
    have hletter : ∀ tail, NoDigit ('e' :: tail) := by
      rintro tail c hc
      obtain rfl := Option.some.inj hc
      rfl
    refine ⟨0, ?_⟩
    by_cases hk : (Decimal.digits s).length = 1
    · rw [if_pos hk, List.append_nil, List.append_assoc, List.cons_append, List.cons_append,
        readMagnitude_append (htake 1) hsome (.inr hfirst) (hletter _)
          (readFraction_of_ne (by simp)) hexponent,
        List.append_nil, List.take_of_length_le (by omega), hdigits, Nat.pow_zero, Nat.mul_one, hk]
      congr 3
    · have hne : (Decimal.digits s).drop 1 ≠ [] := by
        rw [ne_eq, List.drop_eq_nil_iff]
        rw [hcons, List.length_cons] at hk ⊢
        omega
      rw [if_neg hk, List.append_assoc, List.append_assoc, List.cons_append, List.cons_append,
        List.cons_append, readMagnitude_append (htake 1) hsome (.inr hfirst) (hpoint _)
          (readFraction_point (hdrop 1) hne (hletter _)) hexponent,
        List.take_append_drop, hdigits, Nat.pow_zero, Nat.mul_one, List.length_drop]
      congr 3
      rw [hcons, List.length_cons]
      omega

theorem JsNumber.of_zero : JsNumber.of 0 = .zero := by
  decide +kernel

/-- The number is one that a program holds. -/
def JsNumber.IsDouble : JsNumber → Prop
  | .finite x => x.IsDouble
  | _ => True

theorem JsNumber.of_value {x : Decimal.Shortest} (h : x.IsDouble) :
    JsNumber.of x.value = .finite x := by
  obtain ⟨d, hd, hx⟩ := Option.bind_eq_some_iff.mp h
  -- the equation of the definition would compute a rounding
  delta JsNumber.of
  rw [hd]
  simp only [hx, Option.elim_some]

theorem readNumber_text {x : JsNumber} (hx : x.IsDouble) (hfinite : ∀ i, x ≠ .infinite i)
    (hrest : Stop rest) : readNumber (x.text ++ rest) = some (x, rest) := by
  cases x with
  | infinite negative => exact absurd rfl (hfinite negative)
  | zero =>
    have hread := readMagnitude_append (Decimal.digits_replicate 1) (by simp) (.inl rfl)
      hrest.noDigit (readFraction_stop hrest) (readExponent_stop hrest)
    rw [List.replicate_one, List.singleton_append] at hread
    have hzero : (1 : ℚ) * (Nat.ofDigitChars 10 (['0'] ++ []) 0 *
        10 ^ ((0 : ℤ) - ([] : List Char).length)) = 0 := by
      simp [Nat.ofDigitChars_cons]
    rw [JsNumber.text, List.singleton_append, readNumber.eq_def]
    split
    case h_1 heq => cases heq
    case h_2 => rw [hread, Option.map_some, hzero, JsNumber.of_zero]
  | finite x =>
    have hs : x.s ≠ 0 := by
      intro hs
      exact x.hs (by rw [hs])
    obtain ⟨a, ha⟩ := readMagnitude_magnitude (n := x.n) hs hrest
    have hvalue : ((x.s * 10 ^ a : ℕ) : ℚ) * 10 ^ (x.n - (Decimal.digits x.s).length - a) =
        x.s * 10 ^ (x.n - (Decimal.digits x.s).length) := by
      rw [Nat.cast_mul, Nat.cast_pow, Nat.cast_ofNat, mul_assoc, ← zpow_natCast,
        ← zpow_add₀ (by norm_num)]
      congr 2
      omega
    rw [JsNumber.text, Decimal.Shortest.text]
    cases hn : x.negative with
    | true =>
      have hof : JsNumber.of (-1 * (x.s * 10 ^ (x.n - (Decimal.digits x.s).length))) =
          .finite x := by
        rw [← JsNumber.of_value hx, Decimal.Shortest.value, hn, if_pos rfl]
      rw [if_pos rfl, List.singleton_append, List.cons_append, readNumber, ha, Option.map_some,
        hvalue, hof]
    | false =>
      have hof : JsNumber.of (1 * (x.s * 10 ^ (x.n - (Decimal.digits x.s).length))) =
          .finite x := by
        rw [← JsNumber.of_value hx, Decimal.Shortest.value, hn, if_neg (by decide)]
      obtain ⟨c, cs, hcons, hc⟩ := Decimal.exists_digit_magnitude x.s x.n
      rw [if_neg (by decide), List.nil_append, readNumber.eq_def]
      split
      case h_1 heq =>
        rw [hcons] at heq
        rw [(List.cons.inj heq).1] at hc
        cases hc
      case h_2 => rw [ha, Option.map_some, hvalue, hof]

end Numbers

/-! ### Values -/

mutual

/-- A value that a program may hold: its numbers are doubles other than the infinite ones, and no
object has two members of one name. -/
def Json.Held : Json → Prop
  | .num x => x.IsDouble ∧ ∀ i, x ≠ .infinite i
  | .arr items => HeldItems items
  | .obj members => (members.map (·.1)).Nodup ∧ HeldMembers members
  | _ => True

def HeldItems : List Json → Prop
  | [] => True
  | v :: items => v.Held ∧ HeldItems items

def HeldMembers : List (String × Json) → Prop
  | [] => True
  | (_, v) :: members => v.Held ∧ HeldMembers members

end

mutual

/-- The value as the program holds it. -/
def Json.toValue : Json → JsValue
  | .null => .null
  | .bool b => .bool b
  | .num x => .num x
  | .str s => .str (units s)
  | .arr items => .arr ((toValues items).map some)
  | .obj members => .obj .plain (toMembers members)

def toValues : List Json → List JsValue
  | [] => []
  | v :: items => v.toValue :: toValues items

def toMembers : List (String × Json) → List (JsString × JsValue)
  | [] => []
  | (key, v) :: members => (units key, v.toValue) :: toMembers members

end

theorem heldItems_iff {items : List Json} : HeldItems items ↔ ∀ v ∈ items, v.Held := by
  induction items with
  | nil => simp [HeldItems]
  | cons v items ih => rw [HeldItems, ih, List.forall_mem_cons]

theorem heldMembers_iff {members : List (String × Json)} :
    HeldMembers members ↔ ∀ m ∈ members, m.2.Held := by
  induction members with
  | nil => simp [HeldMembers]
  | cons m members ih => rw [HeldMembers, ih, List.forall_mem_cons]

theorem toValues_eq_map (items : List Json) : toValues items = items.map Json.toValue := by
  induction items with
  | nil => rfl
  | cons v items ih => rw [toValues, ih, List.map_cons]

theorem toMembers_eq_map (members : List (String × Json)) :
    toMembers members = members.map fun m ↦ (units m.1, m.2.toValue) := by
  induction members with
  | nil => rfl
  | cons m members ih => rw [toMembers, ih, List.map_cons]

/-- Members of different names are defined one after the other. -/
theorem defineAll_eq_self {members : List (JsString × JsValue)}
    (h : (members.map (·.1)).Nodup) : defineAll members = members := by
  have hfold : ∀ defined : List (JsString × JsValue),
      ((defined ++ members).map (·.1)).Nodup →
        members.foldl (fun defined m ↦ withMember defined m.1 m.2) defined =
          defined ++ members := by
    clear h
    induction members with
    | nil =>
      intro defined _
      rw [List.append_nil, List.foldl_nil]
    | cons m members ih =>
      intro defined hnodup
      have hnot : m.1 ∉ defined.map (·.1) := by
        rw [List.map_append, List.map_cons, List.nodup_middle, List.nodup_cons] at hnodup
        exact fun hmem ↦ hnodup.1 (List.mem_append_left _ hmem)
      have hsplit : defined ++ m :: members = defined ++ [m] ++ members := List.append_cons ..
      rw [hsplit] at hnodup ⊢
      rw [List.foldl_cons, withMember, if_neg hnot]
      exact ih _ hnodup
  exact hfold [] h

theorem exists_head_number {x : JsNumber} (h : ∀ i, x ≠ .infinite i) :
    ∃ c text, x.text = c :: text ∧ (c.isDigit = true ∨ c = '-') := by
  obtain ⟨c, text, htext, hc⟩ := x.exists_head_text
  refine ⟨c, text, htext, ?_⟩
  rcases hc with hc | hc | rfl
  · exact .inl hc
  · exact .inr hc
  · cases x with
    | zero => cases htext
    | infinite i => exact absurd rfl (h i)
    | finite x =>
      have hmem : 'I' ∈ x.text := by
        rw [JsNumber.text] at htext
        rw [htext]
        exact List.mem_cons_self
      exact absurd (Decimal.isNumberChar_of_mem_text hmem) (by decide)

/-- No value begins with white space. -/
theorem skipSpace_text {v : Json} (h : v.Held) (rest : List Char) :
    skipSpace (v.text ++ rest) = v.text ++ rest := by
  have hspace : ∃ c text, v.text = c :: text ∧ isJsonSpace c = false := by
    cases v with
    | null => exact ⟨'n', "ull".toList, rfl, rfl⟩
    | bool b =>
      cases b
      · exact ⟨'f', "alse".toList, rfl, rfl⟩
      · exact ⟨'t', "rue".toList, rfl, rfl⟩
    | num x =>
      obtain ⟨c, text, htext, hc⟩ := exists_head_number h.2
      refine ⟨c, text, htext, ?_⟩
      rw [isJsonSpace]
      rcases hc with hc | rfl
      · simp only [Bool.or_eq_false_iff, decide_eq_false_iff_not]
        refine ⟨⟨⟨?_, ?_⟩, ?_⟩, ?_⟩ <;> rintro rfl <;> cases hc
      · rfl
    | str s => exact ⟨'"', _, rfl, rfl⟩
    | arr items => exact ⟨'[', _, rfl, rfl⟩
    | obj members => exact ⟨'\x7b', _, rfl, rfl⟩
  obtain ⟨c, text, hv, hc⟩ := hspace
  rw [hv, List.cons_append, skipSpace, List.dropWhile_cons_of_neg (by simp [hc])]

theorem join_map_cons_cons {α : Type} (f : α → List Char) (a b : α) (as : List α) :
    join ((a :: b :: as).map f) = f a ++ ',' :: join ((b :: as).map f) := by
  rw [List.map_cons, List.map_cons, join, List.intercalate_cons_cons, List.append_assoc,
    List.singleton_append]
  rfl

theorem join_map_singleton {α : Type} (f : α → List Char) (a : α) : join ([a].map f) = f a := by
  simp [join]

def Reads (v : Json) : Prop :=
  ∀ fuel rest, 2 * v.text.length ≤ fuel → Stop rest →
    readValue fuel (v.text ++ rest) = some (v.toValue, rest)

theorem readItems_join {items : List Json} {fuel : ℕ} {rest : List Char} (hne : items ≠ [])
    (hitems : ∀ v ∈ items, Reads v) (hfuel : 2 * (join (items.map Json.text)).length + 1 ≤ fuel) :
    readItems fuel (join (items.map Json.text) ++ ']' :: rest) = some (toValues items, rest) := by
  induction items generalizing fuel with
  | nil => exact absurd rfl hne
  | cons v items ih =>
    obtain ⟨fuel, rfl⟩ : ∃ f, fuel = f + 1 := ⟨fuel - 1, by omega⟩
    have hv := hitems v List.mem_cons_self
    cases items with
    | nil =>
      rw [join_map_singleton] at hfuel ⊢
      have hstop : Stop (']' :: rest) := by
        intro c hc
        exact .inr (.inl (Option.some.inj hc).symm)
      rw [readItems, hv fuel _ (by omega) hstop]
      rfl
    | cons w items =>
      rw [join_map_cons_cons] at hfuel ⊢
      rw [List.length_append, List.length_cons] at hfuel
      have hstop : ∀ text, Stop (',' :: text) := by
        intro text c hc
        exact .inl (Option.some.inj hc).symm
      have hrest := @ih fuel (by simp) (fun u hu ↦ hitems u (List.mem_cons_of_mem _ hu))
        (by omega)
      rw [List.append_assoc, List.cons_append, readItems, hv fuel _ (by omega) (hstop _)]
      have hskip : ∀ text, skipSpace (',' :: text) = ',' :: text := fun _ ↦ rfl
      simp only [Option.bind_some, hskip, hrest, Option.map_some, toValues]

theorem readMembers_join {members : List (String × Json)} {fuel : ℕ} {rest : List Char}
    (hne : members ≠ []) (hmembers : ∀ m ∈ members, Reads m.2)
    (hfuel : 2 * (join (members.map fun m ↦ memberText (m.1, m.2.text))).length + 1 ≤ fuel) :
    readMembers fuel (join (members.map fun m ↦ memberText (m.1, m.2.text)) ++ '\x7d' :: rest) =
      some (toMembers members, rest) := by
  have hname : ∀ (m : String × Json) (text : List Char), memberText (m.1, m.2.text) ++ text =
      '"' :: (m.1.toList.flatMap escape ++ '"' :: ':' :: (m.2.text ++ text)) := by
    intro m text
    simp [memberText, quote]
  have hlength : ∀ m : String × Json,
      m.2.text.length + 3 ≤ (memberText (m.1, m.2.text)).length := by
    intro m
    have := congrArg List.length (hname m [])
    simp only [List.length_append, List.length_cons, List.append_nil] at this
    omega
  have hskip : ∀ c ∈ ['"', ':', ',', '\x7d'], ∀ text, skipSpace (c :: text) = c :: text := by
    simp [skipSpace, isJsonSpace]
  induction members generalizing fuel with
  | nil => exact absurd rfl hne
  | cons m members ih =>
    obtain ⟨fuel, rfl⟩ : ∃ f, fuel = f + 1 := ⟨fuel - 1, by omega⟩
    have hm := hmembers m List.mem_cons_self
    have hlong := hlength m
    cases members with
    | nil =>
      rw [join_map_singleton] at hfuel ⊢
      have hstop : Stop ('\x7d' :: rest) := by
        intro c hc
        exact .inr (.inr (Option.some.inj hc).symm)
      rw [readMembers, hname, hskip _ (by simp)]
      simp only [readString_quote, Option.bind_some, hskip ':' (by simp),
        hm fuel _ (by omega) hstop, hskip '\x7d' (by simp), toMembers]
    | cons m' members =>
      rw [join_map_cons_cons] at hfuel ⊢
      rw [List.length_append, List.length_cons] at hfuel
      have hstop : ∀ text, Stop (',' :: text) := by
        intro text c hc
        exact .inl (Option.some.inj hc).symm
      have hrest := @ih fuel (by simp)
        (fun u hu ↦ hmembers u (List.mem_cons_of_mem _ hu)) (by omega)
      rw [List.append_assoc, List.cons_append, readMembers, hname, hskip _ (by simp)]
      simp only [readString_quote, Option.bind_some, hskip ':' (by simp),
        hm fuel _ (by omega) (hstop _), hskip ',' (by simp), hrest, Option.map_some, toMembers]

/-- A list of texts does not close before its first. -/
theorem exists_skipSpace_join {α : Type} {f : α → List Char} {as : List α} (rest : List Char)
    (hne : as ≠ []) (hskip : ∀ a ∈ as, ∀ text, skipSpace (f a ++ text) = f a ++ text)
    (hhead : ∀ a ∈ as, ∃ c text, f a = c :: text ∧ isInner c = true) :
    ∃ c text, join (as.map f) ++ rest = c :: text ∧ isInner c = true ∧
      skipSpace (c :: text) = c :: text := by
  obtain ⟨a, as, rfl⟩ := List.exists_cons_of_ne_nil hne
  obtain ⟨c, text, ha, hc⟩ := hhead a List.mem_cons_self
  obtain ⟨text', hjoin⟩ : ∃ text', join ((a :: as).map f) ++ rest = f a ++ text' := by
    rw [List.map_cons, join_cons, List.append_assoc]
    exact ⟨_, rfl⟩
  have hskip := hskip a List.mem_cons_self text'
  rw [ha, List.cons_append] at hjoin hskip
  exact ⟨c, _, hjoin, hc, hskip⟩

theorem readValue_text {v : Json} (h : v.Held) : Reads v := by
  induction v using Json.induction with
  | null =>
    intro fuel rest hfuel _
    obtain ⟨fuel, rfl⟩ : ∃ f, fuel = f + 1 := ⟨fuel - 1, by simp [Json.text] at hfuel; omega⟩
    rfl
  | bool b =>
    intro fuel rest hfuel _
    cases b
    · obtain ⟨fuel, rfl⟩ : ∃ f, fuel = f + 1 := ⟨fuel - 1, by simp [Json.text] at hfuel; omega⟩
      rfl
    · obtain ⟨fuel, rfl⟩ : ∃ f, fuel = f + 1 := ⟨fuel - 1, by simp [Json.text] at hfuel; omega⟩
      rfl
  | num x =>
    intro fuel rest hfuel hrest
    obtain ⟨c, text, htext, hc⟩ := exists_head_number h.2
    obtain ⟨fuel, rfl⟩ : ∃ f, fuel = f + 1 :=
      ⟨fuel - 1, by simp [Json.text, htext] at hfuel; omega⟩
    have hnumber := readNumber_text h.1 h.2 hrest
    have hne : ∀ d ∈ ['n', 't', 'f', '"', '[', '\x7b'], ∀ rest', x.text ++ rest ≠ d :: rest' := by
      intro d hd rest' heq
      rw [htext] at heq
      obtain ⟨rfl, -⟩ := List.cons.inj heq
      simp only [List.mem_cons, List.not_mem_nil, or_false] at hd
      rcases hd with rfl | rfl | rfl | rfl | rfl | rfl <;> simp at hc
    rw [readValue, skipSpace_text h, Json.text]
    split
    case h_1 heq => exact absurd heq (hne 'n' (by simp) _)
    case h_2 heq => exact absurd heq (hne 't' (by simp) _)
    case h_3 heq => exact absurd heq (hne 'f' (by simp) _)
    case h_4 heq => exact absurd heq (hne '"' (by simp) _)
    case h_5 heq => exact absurd heq (hne '[' (by simp) _)
    case h_6 heq => exact absurd heq (hne '\x7b' (by simp) _)
    case h_7 => rw [hnumber, Option.map_some, Json.toValue]
  | str s =>
    intro fuel rest hfuel _
    obtain ⟨fuel, rfl⟩ : ∃ f, fuel = f + 1 :=
      ⟨fuel - 1, by simp [Json.text, quote] at hfuel; omega⟩
    rw [readValue, skipSpace_text h, Json.text, quote, List.append_assoc, List.cons_append]
    simp only [List.singleton_append, readString_quote, Option.map_some,
      Json.toValue]
  | arr items ih =>
    intro fuel rest hfuel _
    have hitems := heldItems_iff.mp h
    obtain ⟨fuel, rfl⟩ : ∃ f, fuel = f + 1 := ⟨fuel - 1, by simp [Json.text] at hfuel; omega⟩
    rw [readValue, skipSpace_text h, Json.text, itemTexts_eq_map, List.append_assoc,
      List.cons_append, List.singleton_append, Json.toValue]
    rw [Json.text, itemTexts_eq_map] at hfuel
    simp only [List.length_append, List.length_cons, List.length_nil] at hfuel
    by_cases hne : items = []
    · subst hne
      rfl
    · have hread := @readItems_join items fuel rest hne
        (fun v hv ↦ ih v hv (hitems v hv)) (by omega)
      obtain ⟨c, text, hjoin, hc, hskip⟩ := exists_skipSpace_join (']' :: rest) hne
        (fun v hv ↦ skipSpace_text (hitems v hv)) fun v _ ↦ by
          obtain ⟨c, text, hv, hc, -⟩ := exists_head_text v
          exact ⟨c, text, hv, hc⟩
      rw [hjoin] at hread
      simp only [hjoin, hskip]
      split
      case h_1 heq =>
        obtain ⟨rfl, -⟩ := List.cons.inj heq
        cases hc
      case h_2 => rw [hread, Option.map_some]
  | obj members ih =>
    intro fuel rest hfuel _
    have hboth : (members.map (·.1)).Nodup ∧ HeldMembers members := h
    obtain ⟨hnodup, hheld⟩ := hboth
    have hmembers := heldMembers_iff.mp hheld
    obtain ⟨fuel, rfl⟩ : ∃ f, fuel = f + 1 := ⟨fuel - 1, by simp [Json.text] at hfuel; omega⟩
    rw [readValue, skipSpace_text h, Json.text, memberTexts_eq_map, List.append_assoc,
      List.cons_append, List.singleton_append, Json.toValue]
    rw [Json.text, memberTexts_eq_map] at hfuel
    simp only [List.length_append, List.length_cons, List.length_nil] at hfuel
    by_cases hne : members = []
    · subst hne
      rfl
    · have hread := @readMembers_join members fuel rest hne
        (fun m hm ↦ ih m hm (hmembers m hm)) (by omega)
      obtain ⟨c, text, hjoin, hc, hskip⟩ := exists_skipSpace_join ('\x7d' :: rest) hne
        (fun m _ text ↦ (by rfl : skipSpace (memberText (m.1, m.2.text) ++ text) =
          memberText (m.1, m.2.text) ++ text)) fun m _ ↦ ⟨'"', _, rfl, rfl⟩
      have hdistinct : ((toMembers members).map (·.1)).Nodup := by
        rw [toMembers_eq_map, List.map_map]
        have := hnodup.map (f := units) fun _ _ ↦ units_injective
        rwa [List.map_map] at this
      rw [hjoin] at hread
      simp only [hjoin, hskip]
      split
      case h_1 heq =>
        obtain ⟨rfl, -⟩ := List.cons.inj heq
        cases hc
      case h_2 => rw [hread, Option.map_some, defineAll_eq_self hdistinct]

theorem parse_text {v : Json} (h : v.Held) : parse v.text = some v.toValue := by
  have hread := readValue_text h (2 * v.text.length + 2) [] (by omega) nofun
  rw [List.append_nil] at hread
  rw [parse, hread]
  rfl

end QAuth.Audit
