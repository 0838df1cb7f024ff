import QAuth.Audit.Chain
import QAuth.Federation.ConfiguredValue

/-!
# The text of a derivation

`JSON.stringify` on the arrays of strings, whole numbers and booleans that a digest is taken over.
A string of ECMAScript may hold a surrogate on its own; it is written as an escape, so that the
text has bytes and every string has a text of its own.
-/

namespace QAuth.Federation

open Text (isHigh isLow unitsOf)
open Audit (Separates Stop isInner join)

/-! ### Strings -/

/-- What a string is read as, one after the other. -/
inductive Item
  | char (c : Char)
  | lone (u : UInt16)

def Item.units : Item → JsString
  | .char c => unitsOf c
  | .lone u => [u]

/-- The characters and lone surrogates of a string. -/
def itemsOf : JsString → List Item
  | [] => []
  | u :: units =>
    if isHigh u then
      match units with
      | v :: rest =>
        if isLow v then
          .char (Char.ofNat (0x10000 + (u.toNat - 0xD800) * 0x400 + (v.toNat - 0xDC00))) ::
            itemsOf rest
        else .lone u :: itemsOf (v :: rest)
      | [] => [.lone u]
    else if isLow u then .lone u :: itemsOf units
    else .char (Char.ofNat u.toNat) :: itemsOf units

theorem flatMap_units_itemsOf (s : JsString) : (itemsOf s).flatMap Item.units = s := by
  fun_induction itemsOf s with
  | case1 => rfl
  | case2 u hu v rest hv ih =>
    rw [List.flatMap_cons, Item.units, Text.unitsOf_pair hu hv, ih]
    rfl
  | case3 u hu v rest hv ih =>
    rw [List.flatMap_cons, ih]
    rfl
  | case4 u hu => rfl
  | case5 u units hu hl ih =>
    rw [List.flatMap_cons, ih]
    rfl
  | case6 u units hu hl ih =>
    have hu' : isHigh u = false := by simpa using hu
    have hl' : isLow u = false := by simpa using hl
    rw [List.flatMap_cons, Item.units, Text.unitsOf_ofNat hu' hl', ih]
    rfl

theorem surrogate_of_mem_itemsOf {s : JsString} {u : UInt16} (h : .lone u ∈ itemsOf s) :
    isHigh u = true ∨ isLow u = true := by
  fun_induction itemsOf s with
  | case1 => cases h
  | case2 u' hu v rest hv ih =>
    rcases List.mem_cons.mp h with h | h
    · cases h
    · exact ih h
  | case3 u' hu v rest hv ih =>
    rcases List.mem_cons.mp h with h | h
    · cases h
      exact .inl hu
    · exact ih h
  | case4 u' hu =>
    cases List.mem_singleton.mp h
    exact .inl hu
  | case5 u' units hu hl ih =>
    rcases List.mem_cons.mp h with h | h
    · cases h
      exact .inr hl
    · exact ih h
  | case6 u' units hu hl ih =>
    rcases List.mem_cons.mp h with h | h
    · cases h
    · exact ih h

/-- The four hexadecimal digits of a code unit. -/
def hexUnit (u : UInt16) : List Char :=
  [Nat.digitChar (u.toNat / 4096), Nat.digitChar (u.toNat / 256 % 16),
    Nat.digitChar (u.toNat / 16 % 16), Nat.digitChar (u.toNat % 16)]

/-- An item, as `JSON.stringify` escapes it. -/
def escapeItem : Item → List Char
  | .char c => Audit.escape c
  | .lone u => '\\' :: 'u' :: hexUnit u

/-- `JSON.stringify` of a string. -/
def quoteUnits (s : JsString) : List Char := '"' :: (itemsOf s).flatMap escapeItem ++ ['"']

theorem hexUnit_injective {u v : UInt16} {rest rest' : List Char}
    (h : hexUnit u ++ rest = hexUnit v ++ rest') : u = v ∧ rest = rest' := by
  have hdigit : ∀ m < 16, ∀ n < 16, Nat.digitChar m = Nat.digitChar n → m = n := by decide
  have hu := u.toNat_lt
  have hv := v.toNat_lt
  simp only [hexUnit, List.cons_append, List.nil_append, List.cons.injEq] at h
  obtain ⟨h3, h2, h1, h0, hrest⟩ := h
  have e3 := hdigit _ (by omega) _ (by omega) h3
  have e2 := hdigit _ (by omega) _ (by omega) h2
  have e1 := hdigit _ (by omega) _ (by omega) h1
  have e0 := hdigit _ (by omega) _ (by omega) h0
  exact ⟨UInt16.toNat_inj.mp (by omega), hrest⟩

/-- The escape of a surrogate begins as no character's does. -/
theorem escape_ne_escapeItem {c : Char} {u : UInt16} (hu : isHigh u = true ∨ isLow u = true)
    (rest rest' : List Char) : Audit.escape c ++ rest ≠ escapeItem (.lone u) ++ rest' := by
  intro h
  have hread := congrArg Audit.unescape h
  rw [Audit.unescape_escape] at hread
  have hfirst : Nat.digitChar (u.toNat / 4096) = 'd' := by
    have hrange : 0xD800 ≤ u.toNat ∧ u.toNat < 0xE000 := by
      simp only [isHigh, isLow, Bool.and_eq_true, decide_eq_true_eq, UInt16.le_iff_toNat_le,
        UInt16.lt_iff_toNat_lt, UInt16.reduceToNat] at hu
      omega
    rw [show u.toNat / 4096 = 13 by omega]
    rfl
  rw [escapeItem, hexUnit, hfirst] at h
  by_cases hbackslash : c = '\\'
  · subst hbackslash
    exact absurd (List.cons.inj (List.cons.inj h).2).1 (by decide)
  · rw [Audit.escape.eq_def] at h
    repeat' split at h
    all_goals
      first
      | exact absurd (List.cons.inj h).1 hbackslash
      | exact absurd (List.cons.inj (List.cons.inj h).2).1 (by decide)
      | exact absurd (List.cons.inj (List.cons.inj (List.cons.inj h).2).2).1 (by decide)

theorem escapeItem_ne_quote (i : Item) (rest rest' : List Char) :
    escapeItem i ++ rest ≠ '"' :: rest' := by
  cases i with
  | char c => exact Audit.escape_ne_quote c rest rest'
  | lone u => exact fun h ↦ absurd (List.cons.inj h).1 (by decide)

theorem escapedItems_injective {is js : List Item} {rest rest' : List Char}
    (his : ∀ u, .lone u ∈ is → isHigh u = true ∨ isLow u = true)
    (hjs : ∀ u, .lone u ∈ js → isHigh u = true ∨ isLow u = true)
    (h : is.flatMap escapeItem ++ '"' :: rest = js.flatMap escapeItem ++ '"' :: rest') :
    is = js ∧ rest = rest' := by
  induction is generalizing js with
  | nil =>
    cases js with
    | nil => exact ⟨rfl, (List.cons.inj h).2⟩
    | cons j js =>
      rw [List.flatMap_cons, List.append_assoc] at h
      exact absurd h.symm (escapeItem_ne_quote j _ _)
  | cons i is ih =>
    cases js with
    | nil =>
      rw [List.flatMap_cons, List.append_assoc] at h
      exact absurd h (escapeItem_ne_quote i _ _)
    | cons j js =>
      rw [List.flatMap_cons, List.flatMap_cons, List.append_assoc, List.append_assoc] at h
      obtain ⟨rfl, htail⟩ : i = j ∧ is.flatMap escapeItem ++ '"' :: rest =
          js.flatMap escapeItem ++ '"' :: rest' := by
        cases i with
        | char c =>
          cases j with
          | char d =>
            have hread := congrArg Audit.unescape h
            rw [escapeItem, escapeItem, Audit.unescape_escape, Audit.unescape_escape] at hread
            obtain ⟨rfl, htail⟩ := Prod.mk.inj (Option.some.inj hread)
            exact ⟨rfl, htail⟩
          | lone v => exact absurd h (escape_ne_escapeItem (hjs v List.mem_cons_self) _ _)
        | lone u =>
          cases j with
          | char d => exact absurd h.symm (escape_ne_escapeItem (his u List.mem_cons_self) _ _)
          | lone v =>
            obtain ⟨rfl, htail⟩ := hexUnit_injective (List.cons.inj (List.cons.inj h).2).2
            exact ⟨rfl, htail⟩
      obtain ⟨rfl, hrest⟩ := ih (fun u hu ↦ his u (List.mem_cons_of_mem _ hu))
        (fun u hu ↦ hjs u (List.mem_cons_of_mem _ hu)) htail
      exact ⟨rfl, hrest⟩

theorem quoteUnits_injective {s s' : JsString} {rest rest' : List Char}
    (h : quoteUnits s ++ rest = quoteUnits s' ++ rest') : s = s' ∧ rest = rest' := by
  simp only [quoteUnits, List.cons_append, List.append_assoc, List.cons.injEq, true_and,
    List.nil_append] at h
  obtain ⟨hs, hrest⟩ := escapedItems_injective (fun _ ↦ surrogate_of_mem_itemsOf)
    (fun _ ↦ surrogate_of_mem_itemsOf) h
  refine ⟨?_, hrest⟩
  rw [← flatMap_units_itemsOf s, hs, flatMap_units_itemsOf]

/-! ### Values -/

/-- A value that a digest is taken over. -/
inductive Part
  | str (s : JsString)
  | num (z : ℤ)
  | bool (b : Bool)
  | arr (items : List Part)

namespace Part

theorem induction {P : Part → Prop} (str : ∀ s, P (.str s)) (num : ∀ z, P (.num z))
    (bool : ∀ b, P (.bool b)) (arr : ∀ items, (∀ v ∈ items, P v) → P (.arr items)) : ∀ v, P v
  | .str s => str s
  | .num z => num z
  | .bool b => bool b
  | .arr items => arr items fun v _ ↦ induction str num bool arr v
termination_by v => sizeOf v
decreasing_by
  have := List.sizeOf_lt_of_mem ‹_›
  simp only [Part.arr.sizeOf_spec]
  omega

mutual

/-- `JSON.stringify` of a value. -/
def text : Part → List Char
  | .str s => quoteUnits s
  | .num z => (Audit.JsNumber.ofInt z).text
  | .bool b => if b then "true".toList else "false".toList
  | .arr items => '[' :: join (texts items) ++ [']']

def texts : List Part → List (List Char)
  | [] => []
  | v :: items => v.text :: texts items

end

theorem texts_eq_map (items : List Part) : texts items = items.map text := by
  induction items with
  | nil => rfl
  | cons v items ih => rw [texts, ih, List.map_cons]

/-- Which constructor made the value. -/
def kind : Part → ℕ
  | .str _ => 0
  | .num _ => 1
  | .bool _ => 2
  | .arr _ => 3

/-- The kind of the values whose text begins with a character. -/
def kindOf (c : Char) : ℕ :=
  if c = '"' then 0 else if c = 't' ∨ c = 'f' then 2 else if c = '[' then 3 else 1

theorem exists_head_text (v : Part) :
    ∃ c rest, v.text = c :: rest ∧ isInner c = true ∧ kindOf c = v.kind := by
  cases v with
  | str s => exact ⟨'"', _, by rw [text, quoteUnits, List.cons_append], rfl, rfl⟩
  | num z =>
    obtain ⟨c, rest, htext, hc⟩ := (Audit.JsNumber.ofInt z).exists_head_text
    refine ⟨c, rest, by rw [text, htext],
      Audit.JsNumber.isInner_of_mem_text (htext ▸ List.mem_cons_self), ?_⟩
    have hne : c ≠ '"' ∧ ¬(c = 't' ∨ c = 'f') ∧ c ≠ '[' := by
      refine ⟨?_, ?_, ?_⟩
      · rintro rfl
        revert hc
        decide
      · rintro (rfl | rfl)
        all_goals
          revert hc
          decide
      · rintro rfl
        revert hc
        decide
    rw [kindOf, if_neg hne.1, if_neg hne.2.1, if_neg hne.2.2, kind]
  | bool b =>
    cases b
    · exact ⟨'f', "alse".toList, by rw [text]; rfl, rfl, rfl⟩
    · exact ⟨'t', "rue".toList, by rw [text]; rfl, rfl, rfl⟩
  | arr items => exact ⟨'[', _, by rw [text, List.cons_append], rfl, rfl⟩

theorem kind_eq {v w : Part} {rest rest' : List Char} (h : v.text ++ rest = w.text ++ rest') :
    v.kind = w.kind := by
  obtain ⟨c, text, hv, -, hc⟩ := exists_head_text v
  obtain ⟨d, text', hw, -, hd⟩ := exists_head_text w
  rw [hv, hw] at h
  rw [← hc, ← hd, (List.cons.inj h).1]

/-- A value's text tells the value and where it ends. -/
theorem separates_text (v : Part) : Separates text v := by
  induction v using Part.induction with
  | str s =>
    intro w rest rest' _ _ h
    have hkind := kind_eq h
    cases w <;> cases hkind
    rw [text, text] at h
    obtain ⟨rfl, hrest⟩ := quoteUnits_injective h
    exact ⟨rfl, hrest⟩
  | num z =>
    intro w rest rest' hrest hrest' h
    have hkind := kind_eq h
    cases w <;> cases hkind
    rw [text, text] at h
    have htext := congrArg (List.takeWhile isInner) h
    rw [Audit.takeWhile_isInner (fun c ↦ Audit.JsNumber.isInner_of_mem_text) hrest,
      Audit.takeWhile_isInner (fun c ↦ Audit.JsNumber.isInner_of_mem_text) hrest'] at htext
    obtain rfl := Audit.JsNumber.ofInt_injective (Audit.JsNumber.text_injective htext)
    exact ⟨rfl, List.append_cancel_left h⟩
  | bool b =>
    intro w rest rest' _ _ h
    have hkind := kind_eq h
    cases w <;> cases hkind
    rename_i b'
    cases b <;> cases b'
    · exact ⟨rfl, List.append_cancel_left h⟩
    · exact absurd (List.cons.inj h).1 (by decide)
    · exact absurd (List.cons.inj h).1 (by decide)
    · exact ⟨rfl, List.append_cancel_left h⟩
  | arr items ih =>
    intro w rest rest' _ _ h
    have hkind := kind_eq h
    cases w <;> cases hkind
    rename_i items'
    rw [text, text, texts_eq_map, texts_eq_map] at h
    have hitems : join (items.map text) ++ ']' :: rest = join (items'.map text) ++ ']' :: rest' := by
      simpa using h
    have hhead : ∀ v : Part, ∃ c rest, v.text = c :: rest ∧ isInner c = true := by
      intro v
      obtain ⟨c, rest, htext, hc, -⟩ := exists_head_text v
      exact ⟨c, rest, htext, hc⟩
    obtain ⟨rfl, hrest⟩ := Audit.join_injective (.inl rfl) ih hhead hitems
    exact ⟨rfl, hrest⟩

/-- One text is that of one value. -/
theorem text_injective {v w : Part} (h : v.text = w.text) : v = w :=
  (separates_text v w [] [] nofun nofun (by rw [h])).1

end Part

end QAuth.Federation
