import Mathlib.Data.List.Induction
import Mathlib.Data.Prod.Lex
import Mathlib.Order.Compare
import QAuth.Foundation.Double

/-!
# Versions of the realm policy schema

The version texts of `version.ts`, `<N>` and `<N>-rc.<M>`, and their order. The order compares the
numerals as numbers, so two numerals that read as one double compare as the same.
-/

namespace QAuth.Policy

/-- `[1-9][0-9]*` -/
def isNumeral : List Char → Bool
  | first :: rest => first.isDigit && first != '0' && rest.all Char.isDigit
  | [] => false

/-- The groups of `/^([1-9][0-9]*)(?:-rc\.(0|[1-9][0-9]*))?$/` in a text it matches. -/
def matchVersion (text : String) : Option (List Char × Option (List Char)) :=
  let number := text.toList.takeWhile Char.isDigit
  if isNumeral number then
    match text.toList.dropWhile Char.isDigit with
    | [] => some (number, none)
    | '-' :: 'r' :: 'c' :: '.' :: candidate =>
      if candidate = ['0'] ∨ isNumeral candidate = true then some (number, some candidate) else none
    | _ => none
  else none

/-- Whether a text is written as a policy schema version. -/
def isPolicySchemaVersion (text : String) : Bool := (matchVersion text).isSome

/-- The value of a list of digits. -/
def numeral (digits : List Char) : ℕ := digits.foldl (fun n c ↦ 10 * n + (c.toNat - '0'.toNat)) 0

/-- The order key of a version: its number, then its release candidate, the release itself last. -/
def orderOf (text : String) : Option (WithTop ℕ × WithTop ℕ) :=
  (matchVersion text).map fun (number, candidate) ↦
    (Double.number (numeral number),
      candidate.elim ⊤ fun digits ↦ Double.number (numeral digits))

/-- The order of two versions, as the sign of the number that is returned; nothing for a text that
is no version, which is an error. The difference of two doubles that differ has the sign of their
comparison. -/
def compareSchemaVersions (a b : String) : Option Ordering := do
  let (numberA, candidateA) ← orderOf a
  let (numberB, candidateB) ← orderOf b
  if numberA ≠ numberB then some (cmp numberA numberB)
  else if candidateA = candidateB then some .eq
  else some (if candidateA < candidateB then .lt else .gt)

/-! ### The numbers determine the text -/

theorem numeral_append_singleton (digits : List Char) (c : Char) :
    numeral (digits ++ [c]) = 10 * numeral digits + (c.toNat - '0'.toNat) :=
  List.foldl_append

theorem isDigit_toNat {c : Char} (h : c.isDigit = true) : 48 ≤ c.toNat ∧ c.toNat ≤ 57 := by
  simp only [Char.isDigit, Bool.and_eq_true, decide_eq_true_eq] at h
  exact ⟨h.1, h.2⟩

theorem numeral_pos {digits : List Char} (h : isNumeral digits = true) : 0 < numeral digits := by
  induction digits using List.reverseRecOn with
  | nil => cases h
  | append_singleton digits c ih =>
    rw [numeral_append_singleton]
    cases digits with
    | nil =>
      simp only [List.nil_append, isNumeral, List.all_nil, Bool.and_true, Bool.and_eq_true,
        bne_iff_ne] at h
      obtain ⟨hlow, -⟩ := isDigit_toNat h.1
      have hne : c.toNat ≠ 48 := fun heq ↦ h.2 (Char.toNat_inj.mp heq)
      have hzero : '0'.toNat = 48 := rfl
      omega
    | cons first rest =>
      have hrest : isNumeral (first :: rest) = true := by
        simp only [List.cons_append, isNumeral, List.all_append, Bool.and_eq_true] at h ⊢
        exact ⟨h.1, h.2.1⟩
      have hpos := ih hrest
      omega

theorem isNumeral_of_append {digits : List Char} {c : Char} (hne : digits ≠ [])
    (h : isNumeral (digits ++ [c]) = true) : isNumeral digits = true := by
  cases digits with
  | nil => exact absurd rfl hne
  | cons first rest =>
    simp only [List.cons_append, isNumeral, List.all_append, Bool.and_eq_true] at h ⊢
    exact ⟨h.1, h.2.1⟩

theorem isDigit_of_append {digits : List Char} {c : Char} (h : isNumeral (digits ++ [c]) = true) :
    c.isDigit = true := by
  cases digits with
  | nil =>
    simp only [List.nil_append, isNumeral, Bool.and_eq_true] at h
    exact h.1.1
  | cons first rest =>
    simp only [List.cons_append, isNumeral, List.all_append, List.all_cons, List.all_nil,
      Bool.and_true, Bool.and_eq_true] at h
    exact h.2.2

/-- Two numerals of one value are the same: neither begins with a zero. -/
theorem numeral_injective {ds es : List Char} (hds : isNumeral ds = true)
    (hes : isNumeral es = true) (h : numeral ds = numeral es) : ds = es := by
  induction ds using List.reverseRecOn generalizing es with
  | nil => cases hds
  | append_singleton ds c ih =>
    obtain rfl | ⟨es, d, rfl⟩ := List.eq_nil_or_concat' es
    · cases hes
    · rw [numeral_append_singleton, numeral_append_singleton] at h
      have hc := isDigit_toNat (isDigit_of_append hds)
      have hd := isDigit_toNat (isDigit_of_append hes)
      have hzero : '0'.toNat = 48 := rfl
      have hcd : c = d := Char.toNat_inj.mp (by omega)
      have hvalue : numeral ds = numeral es := by omega
      rw [hcd]
      refine congrArg (· ++ [d]) ?_
      by_cases hnil : ds = []
      · by_cases hnil' : es = []
        · rw [hnil, hnil']
        · have hpos := numeral_pos (isNumeral_of_append hnil' hes)
          rw [hnil] at hvalue
          exact absurd hvalue (by simpa [numeral] using hpos.ne)
      · by_cases hnil' : es = []
        · have hpos := numeral_pos (isNumeral_of_append hnil hds)
          rw [hnil'] at hvalue
          exact absurd hvalue (by simpa [numeral] using hpos.ne')
        · exact ih (isNumeral_of_append hnil hds) (isNumeral_of_append hnil' hes) hvalue

theorem toList_of_matchVersion {text : String} {number : List Char}
    {candidate : Option (List Char)} (h : matchVersion text = some (number, candidate)) :
    isNumeral number = true ∧ (∀ ds ∈ candidate, ds = ['0'] ∨ isNumeral ds = true) ∧
      text.toList = number ++ (candidate.elim [] fun ds ↦ '-' :: 'r' :: 'c' :: '.' :: ds) := by
  rw [matchVersion] at h
  obtain ⟨hnumeral, h⟩ := Option.ite_none_right_eq_some.mp h
  have hsplit : text.toList = text.toList.takeWhile Char.isDigit ++
      text.toList.dropWhile Char.isDigit := List.takeWhile_append_dropWhile.symm
  split at h
  · rename_i hrest
    cases h
    exact ⟨hnumeral, by simp, by rw [hrest] at hsplit; exact hsplit⟩
  · rename_i ds hrest
    obtain ⟨hcandidate, h⟩ := Option.ite_none_right_eq_some.mp h
    cases h
    exact ⟨hnumeral, by simpa using hcandidate, by rw [hrest] at hsplit; exact hsplit⟩
  · cases h

theorem matchVersion_injective {a b : String} {m : List Char × Option (List Char)}
    (ha : matchVersion a = some m) (hb : matchVersion b = some m) : a = b := by
  obtain ⟨number, candidate⟩ := m
  obtain ⟨-, -, hta⟩ := toList_of_matchVersion ha
  obtain ⟨-, -, htb⟩ := toList_of_matchVersion hb
  exact String.toList_injective (hta.trans htb.symm)

/-! ### The order -/

abbrev SchemaVersion := { text : String // isPolicySchemaVersion text = true }

namespace SchemaVersion

variable {a b c : SchemaVersion}

def key (v : SchemaVersion) : WithTop ℕ ×ₗ WithTop ℕ :=
  toLex ((orderOf v.1).getD (⊤, ⊤))

theorem orderOf_eq (v : SchemaVersion) : orderOf v.1 = some (ofLex v.key) := by
  obtain ⟨m, hm⟩ := Option.isSome_iff_exists.mp v.2
  rw [key, orderOf, hm]
  rfl

theorem key_eq_iff : a.key = b.key ↔ orderOf a.1 = orderOf b.1 := by
  rw [orderOf_eq, orderOf_eq, Option.some_inj]
  exact ofLex.injective.eq_iff.symm

/-- The order of versions is the lexicographic one of their keys. -/
theorem compareSchemaVersions_eq_cmp (a b : SchemaVersion) :
    compareSchemaVersions a.1 b.1 = some (cmp a.key b.key) := by
  rw [compareSchemaVersions, orderOf_eq a, orderOf_eq b]
  generalize a.key = x
  generalize b.key = y
  change (if (ofLex x).1 ≠ (ofLex y).1 then some (cmp (ofLex x).1 (ofLex y).1)
    else if (ofLex x).2 = (ofLex y).2 then some .eq
    else some (if (ofLex x).2 < (ofLex y).2 then .lt else .gt)) = some (cmp x y)
  by_cases hnumber : (ofLex x).1 = (ofLex y).1
  · rw [if_neg (not_not.mpr hnumber)]
    rcases lt_trichotomy (ofLex x).2 (ofLex y).2 with hlt | heq | hgt
    · have hxy : x < y := Prod.Lex.lt_iff.mpr (.inr ⟨hnumber, hlt⟩)
      rw [if_neg hlt.ne, if_pos hlt, hxy.cmp_eq_lt]
    · have hxy : x = y := ofLex.injective (Prod.ext hnumber heq)
      rw [if_pos heq, hxy, cmp_self_eq_eq]
    · have hxy : y < x := Prod.Lex.lt_iff.mpr (.inr ⟨hnumber.symm, hgt⟩)
      rw [if_neg hgt.ne', if_neg hgt.not_gt, hxy.cmp_eq_gt]
  · rw [if_pos hnumber]
    rcases lt_or_gt_of_ne hnumber with hlt | hgt
    · have hxy : x < y := Prod.Lex.lt_iff.mpr (.inl hlt)
      rw [hlt.cmp_eq_lt, hxy.cmp_eq_lt]
    · have hxy : y < x := Prod.Lex.lt_iff.mpr (.inl hgt)
      rw [hgt.cmp_eq_gt, hxy.cmp_eq_gt]

/-- Two versions compare as the same just where they have the same key. -/
theorem compareSchemaVersions_eq_eq_iff :
    compareSchemaVersions a.1 b.1 = some .eq ↔ orderOf a.1 = orderOf b.1 := by
  rw [compareSchemaVersions_eq_cmp, Option.some_inj, cmp_eq_eq_iff, key_eq_iff]

/-- The numbers of a version are exact as doubles. -/
def Safe (v : SchemaVersion) : Prop :=
  ∀ number candidate, matchVersion v.1 = some (number, candidate) →
    numeral number < 2 ^ 53 ∧ ∀ ds ∈ candidate, numeral ds < 2 ^ 53

/-- Versions whose numbers are exact have a key of their own. -/
theorem orderOf_injective_of_safe (ha : a.Safe) (hb : b.Safe) (h : orderOf a.1 = orderOf b.1) :
    a = b := by
  obtain ⟨⟨numberA, candidateA⟩, hma⟩ := Option.isSome_iff_exists.mp a.2
  obtain ⟨⟨numberB, candidateB⟩, hmb⟩ := Option.isSome_iff_exists.mp b.2
  obtain ⟨hnumberA, hcandidateA⟩ := ha _ _ hma
  obtain ⟨hnumberB, hcandidateB⟩ := hb _ _ hmb
  obtain ⟨hformA, hformsA, -⟩ := toList_of_matchVersion hma
  obtain ⟨hformB, hformsB, -⟩ := toList_of_matchVersion hmb
  rw [orderOf, orderOf, hma, hmb] at h
  simp only [Option.map_some, Option.some_inj, Prod.mk.injEq] at h
  obtain ⟨hnumber, hcandidate⟩ := h
  rw [Double.number_of_lt hnumberA, Double.number_of_lt hnumberB] at hnumber
  have hsame : numberA = numberB := numeral_injective hformA hformB (by exact_mod_cast hnumber)
  have hsame' : candidateA = candidateB := by
    cases candidateA with
    | none =>
      cases candidateB with
      | none => rfl
      | some ds =>
        rw [Option.elim_some, Double.number_of_lt (hcandidateB ds rfl)] at hcandidate
        exact absurd hcandidate WithTop.top_ne_coe
    | some ds =>
      cases candidateB with
      | none =>
        rw [Option.elim_some, Double.number_of_lt (hcandidateA ds rfl)] at hcandidate
        exact absurd hcandidate.symm WithTop.top_ne_coe
      | some es =>
        rw [Option.elim_some, Option.elim_some, Double.number_of_lt (hcandidateA ds rfl),
          Double.number_of_lt (hcandidateB es rfl)] at hcandidate
        have hvalue : numeral ds = numeral es := by exact_mod_cast hcandidate
        have hzero : numeral ['0'] = 0 := rfl
        obtain rfl | hds := hformsA ds rfl
        · obtain rfl | hes := hformsB es rfl
          · rfl
          · exact absurd hvalue (by rw [hzero]; exact (numeral_pos hes).ne)
        · obtain rfl | hes := hformsB es rfl
          · exact absurd hvalue (by rw [hzero]; exact (numeral_pos hds).ne')
          · exact congrArg some (numeral_injective hds hes hvalue)
  rw [hsame, hsame'] at hma
  exact Subtype.ext (matchVersion_injective hma hmb)

end SchemaVersion

end QAuth.Policy
