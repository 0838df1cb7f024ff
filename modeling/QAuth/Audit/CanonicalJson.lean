import Mathlib.Data.List.Lex
import Mathlib.Data.List.Sort
import Mathlib.Tactic.IntervalCases
import QAuth.Foundation.Decimal
import QAuth.Foundation.Guards
import QAuth.Foundation.Table

/-!
# Canonical JSON

The JSON Canonicalization Scheme as `canonical-json.ts` implements it: members sorted by the UTF-16
code units of their names, no whitespace, strings escaped and numbers printed as ECMAScript does.
A value is one that a reader gets back from `jsonb`: its strings are well-formed, and a number too
large for a double is infinite and refused.
-/

namespace QAuth.Audit

open Guards

/-! ### Values -/

/-- A number that `JSON.parse` may return. -/
inductive JsNumber
  | zero
  | finite (x : Decimal.Shortest)
  | infinite (negative : Bool)
deriving DecidableEq

/-- A JSON value; the members of an object stand in the order of `Object.keys`. -/
inductive Json
  | null
  | bool (b : Bool)
  | num (x : JsNumber)
  | str (s : String)
  | arr (items : List Json)
  | obj (members : List (String × Json))

namespace Json

/-- Values, with the values they are made of. -/
theorem induction {P : Json → Prop} (null : P .null) (bool : ∀ b, P (.bool b))
    (num : ∀ x, P (.num x)) (str : ∀ s, P (.str s))
    (arr : ∀ items, (∀ v ∈ items, P v) → P (.arr items))
    (obj : ∀ members, (∀ m ∈ members, P m.2) → P (.obj members)) : ∀ v, P v
  | .null => null
  | .bool b => bool b
  | .num x => num x
  | .str s => str s
  | .arr items => arr items fun v _ ↦ induction null bool num str arr obj v
  | .obj members => obj members fun m _ ↦ induction null bool num str arr obj m.2
termination_by v => sizeOf v
decreasing_by
  · have := List.sizeOf_lt_of_mem ‹_›
    simp only [Json.arr.sizeOf_spec]
    omega
  · have := List.sizeOf_lt_of_mem ‹m ∈ members›
    have : sizeOf m.2 < sizeOf m := by
      cases m
      simp only [Prod.mk.sizeOf_spec]
      omega
    simp only [Json.obj.sizeOf_spec]
    omega

end Json

/-- A whole number as a value. -/
def JsNumber.ofNat (n : ℕ) : JsNumber :=
  if h : n = 0 then .zero else .finite (Decimal.ofNat n h)

theorem JsNumber.ofNat_injective {m n : ℕ} (h : JsNumber.ofNat m = JsNumber.ofNat n) : m = n := by
  rw [JsNumber.ofNat, JsNumber.ofNat] at h
  split at h <;> split at h
  · omega
  · cases h
  · cases h
  · exact Decimal.ofNat_injective _ _ (JsNumber.finite.inj h)

/-- An integer as a value. -/
def JsNumber.ofInt (z : ℤ) : JsNumber :=
  if h : z.natAbs = 0 then .zero
  else .finite { Decimal.ofNat z.natAbs h with negative := z < 0 }

theorem JsNumber.ofInt_injective {z w : ℤ} (h : JsNumber.ofInt z = JsNumber.ofInt w) : z = w := by
  rw [JsNumber.ofInt, JsNumber.ofInt] at h
  split at h <;> split at h
  · omega
  · cases h
  · cases h
  case isFalse.isFalse hz hw =>
    have heq := JsNumber.finite.inj h
    have hnegative : decide (z < 0) = decide (w < 0) := congrArg Decimal.Shortest.negative heq
    have habs : z.natAbs = w.natAbs := by
      refine Decimal.ofNat_injective hz hw ?_
      have hs := congrArg Decimal.Shortest.s heq
      have hn := congrArg Decimal.Shortest.n heq
      simp only [Decimal.ofNat] at hs hn ⊢
      simp only [hs, hn]
    by_cases hneg : z < 0
    · have : w < 0 := of_decide_eq_true (hnegative ▸ decide_eq_true hneg)
      omega
    · have : ¬ w < 0 := of_decide_eq_false (hnegative ▸ decide_eq_false hneg)
      omega

/-- `Number::toString`. -/
def JsNumber.text : JsNumber → List Char
  | .zero => ['0']
  | .finite x => x.text
  | .infinite negative => (if negative then ['-'] else []) ++ "Infinity".toList

/-! ### The canonical text -/

/-- A character of a string, as `JSON.stringify` escapes it. -/
def escape (c : Char) : List Char :=
  if c = '"' then ['\\', '"']
  else if c = '\\' then ['\\', '\\']
  else if c.toNat = 8 then ['\\', 'b']
  else if c.toNat = 9 then ['\\', 't']
  else if c.toNat = 10 then ['\\', 'n']
  else if c.toNat = 12 then ['\\', 'f']
  else if c.toNat = 13 then ['\\', 'r']
  else if c.toNat < 32 then
    ['\\', 'u', '0', '0', Nat.digitChar (c.toNat / 16), Nat.digitChar (c.toNat % 16)]
  else [c]

/-- `JSON.stringify` of a string. -/
def quote (s : String) : List Char :=
  '"' :: s.toList.flatMap escape ++ ['"']

/-- `texts.join(',')`. -/
def join (texts : List (List Char)) : List Char := [','].intercalate texts

/-- The UTF-16 code units of a string. -/
def utf16 (s : String) : List ℕ :=
  s.toList.flatMap fun c ↦
    if c.toNat < 0x10000 then [c.toNat]
    else [0xD800 + (c.toNat - 0x10000) / 0x400, 0xDC00 + (c.toNat - 0x10000) % 0x400]

/-- Members in the order of the default sort of their names. -/
def sortMembers {β : Type} (members : List (String × β)) : List (String × β) :=
  Table.orderBy (fun member : String × β ↦ utf16 member.1) members

/-- A member's text. -/
def memberText (member : String × List Char) : List Char :=
  quote member.1 ++ ':' :: member.2

mutual

/-- The canonical text of the value at `path`. -/
def serialize (path : String) : Json → Except String (List Char)
  | .null => .ok "null".toList
  | .bool b => .ok (if b then "true".toList else "false".toList)
  | .num (.infinite negative) =>
    .error ("canonicalizeJson: " ++ String.ofList (JsNumber.infinite negative).text ++ " at " ++
      path ++ " is not a JSON number")
  | .num x => .ok x.text
  | .str s => .ok (quote s)
  | .arr items => do
    let texts ← serializeItems path 0 items
    return '[' :: join texts ++ [']']
  | .obj members => do
    let texts ← (sortMembers (serializeMembers path members)).mapM fun member ↦ do
      let text ← member.2
      return memberText (member.1, text)
    return '\x7b' :: join texts ++ ['\x7d']

/-- The texts of an array's items, from `index` on. -/
def serializeItems (path : String) (index : ℕ) : List Json → Except String (List (List Char))
  | [] => .ok []
  | v :: items => do
    let text ← serialize (path ++ "[" ++ toString index ++ "]") v
    let texts ← serializeItems path (index + 1) items
    return text :: texts

/-- What becomes of the members of an object. -/
def serializeMembers (path : String) :
    List (String × Json) → List (String × Except String (List Char))
  | [] => []
  | (key, v) :: members =>
    (key, serialize (path ++ "." ++ key) v) :: serializeMembers path members

end

/-- Serialize a JSON value to its canonical form. -/
def canonicalizeJson (value : Json) : Except String (List Char) := serialize "$" value

/-! ### The value behind the text -/

mutual

/-- The value with the members of every object in the order of their names. -/
def Json.sorted : Json → Json
  | .arr items => .arr (sortedItems items)
  | .obj members => .obj (sortMembers (sortedMembers members))
  | v => v

def sortedItems : List Json → List Json
  | [] => []
  | v :: items => v.sorted :: sortedItems items

def sortedMembers : List (String × Json) → List (String × Json)
  | [] => []
  | (key, v) :: members => (key, v.sorted) :: sortedMembers members

end

mutual

/-- The text of a value, its members as they stand. -/
def Json.text : Json → List Char
  | .null => "null".toList
  | .bool b => if b then "true".toList else "false".toList
  | .num x => x.text
  | .str s => quote s
  | .arr items => '[' :: join (itemTexts items) ++ [']']
  | .obj members => '\x7b' :: join (memberTexts members) ++ ['\x7d']

def itemTexts : List Json → List (List Char)
  | [] => []
  | v :: items => v.text :: itemTexts items

def memberTexts : List (String × Json) → List (List Char)
  | [] => []
  | (key, v) :: members => memberText (key, v.text) :: memberTexts members

end

/-- The same value, up to the order of members. -/
def Json.Same (v w : Json) : Prop := v.sorted = w.sorted

theorem sortedItems_eq_map (items : List Json) : sortedItems items = items.map Json.sorted := by
  induction items with
  | nil => rfl
  | cons v items ih => rw [sortedItems, ih, List.map_cons]

theorem sortedMembers_eq_map (members : List (String × Json)) :
    sortedMembers members = members.map fun m ↦ (m.1, m.2.sorted) := by
  induction members with
  | nil => rfl
  | cons m members ih => rw [sortedMembers, ih, List.map_cons]

theorem itemTexts_eq_map (items : List Json) : itemTexts items = items.map Json.text := by
  induction items with
  | nil => rfl
  | cons v items ih => rw [itemTexts, ih, List.map_cons]

theorem memberTexts_eq_map (members : List (String × Json)) :
    memberTexts members = members.map fun m ↦ memberText (m.1, m.2.text) := by
  induction members with
  | nil => rfl
  | cons m members ih => rw [memberTexts, ih, List.map_cons]

theorem serializeMembers_eq_map (path : String) (members : List (String × Json)) :
    serializeMembers path members =
      members.map fun m ↦ (m.1, serialize (path ++ "." ++ m.1) m.2) := by
  induction members with
  | nil => rfl
  | cons m members ih => rw [serializeMembers, ih, List.map_cons]

/-- What keeps the names keeps the order. -/
theorem sortMembers_map {β γ : Type} (f : String × β → String × γ) (hf : ∀ m, (f m).1 = m.1)
    (members : List (String × β)) : sortMembers (members.map f) = (sortMembers members).map f := by
  refine (List.map_insertionSort (fun a b ↦ utf16 a.1 ≤ utf16 b.1)
    (fun a b ↦ utf16 a.1 ≤ utf16 b.1) f members ?_).symm
  intro a _ b _
  rw [hf, hf]

/-- The canonical text is the plain text of the sorted value. -/
theorem serialize_eq_ok {v : Json} {path : String} {text : List Char}
    (h : serialize path v = .ok text) : text = v.sorted.text := by
  induction v using Json.induction generalizing path text with
  | null => cases h; rfl
  | bool b => cases h; rfl
  | num x =>
    cases x with
    | infinite => cases h
    | zero => cases h; rfl
    | finite x => cases h; rfl
  | str s => cases h; rfl
  | arr items ih =>
    have hitems : ∀ (index : ℕ) (texts : List (List Char)),
        serializeItems path index items = .ok texts → texts = itemTexts (sortedItems items) := by
      clear h
      induction items with
      | nil =>
        intro index texts h
        cases h
        rfl
      | cons v items ihitems =>
        intro index texts h
        simp only [serializeItems, bind_eq_ok_iff, pure_eq_ok_iff] at h
        obtain ⟨t, ht, ts, hts, rfl⟩ := h
        rw [sortedItems, itemTexts, ih v List.mem_cons_self ht,
          ihitems (fun w hw ↦ ih w (List.mem_cons_of_mem _ hw)) _ _ hts]
    simp only [serialize, bind_eq_ok_iff, pure_eq_ok_iff] at h
    obtain ⟨texts, htexts, rfl⟩ := h
    rw [hitems 0 texts htexts, Json.sorted, Json.text]
  | obj members ih =>
    simp only [serialize, bind_eq_ok_iff, pure_eq_ok_iff] at h
    obtain ⟨texts, htexts, rfl⟩ := h
    have hmembers : ∀ (ms : List (String × Json)) (texts : List (List Char)),
        (∀ m ∈ ms, m ∈ members) →
        (ms.map fun m ↦ (m.1, serialize (path ++ "." ++ m.1) m.2)).mapM (fun member ↦ do
          let text ← member.2
          return memberText (member.1, text)) = .ok texts →
        texts = ms.map fun m ↦ memberText (m.1, m.2.sorted.text) := by
      intro ms
      induction ms with
      | nil =>
        intro texts _ h
        cases h
        rfl
      | cons m ms ihms =>
        intro texts hsub h
        simp only [List.map_cons, List.mapM_cons, bind_eq_ok_iff, pure_eq_ok_iff] at h
        obtain ⟨t, ⟨t', ht', rfl⟩, ts, hts, rfl⟩ := h
        rw [List.map_cons, ih m (hsub m List.mem_cons_self) ht',
          ihms ts (fun w hw ↦ hsub w (List.mem_cons_of_mem _ hw)) hts]
    rw [serializeMembers_eq_map,
      sortMembers_map (fun m ↦ (m.1, serialize (path ++ "." ++ m.1) m.2)) fun _ ↦ rfl] at htexts
    have := hmembers (sortMembers members) texts (fun m hm ↦ Table.mem_orderBy.mp hm) htexts
    rw [this, Json.sorted, Json.text, memberTexts_eq_map, sortedMembers_eq_map,
      sortMembers_map (fun m : String × Json ↦ (m.1, m.2.sorted)) fun _ ↦ rfl,
      List.map_map]
    rfl

theorem canonicalizeJson_eq_ok {v : Json} {text : List Char} (h : canonicalizeJson v = .ok text) :
    text = v.sorted.text :=
  serialize_eq_ok h

/-! ### One text, one value -/

/-- The first character of a text that `escape` gave, read back, with what follows it. -/
def unescape : List Char → Option (Char × List Char)
  | '\\' :: 'u' :: '0' :: '0' :: h :: l :: rest =>
    let digit (c : Char) : ℕ := if c.isDigit then c.toNat - 48 else c.toNat - 87
    some (Char.ofNat (digit h * 16 + digit l), rest)
  | '\\' :: 'b' :: rest => some (Char.ofNat 8, rest)
  | '\\' :: 't' :: rest => some (Char.ofNat 9, rest)
  | '\\' :: 'n' :: rest => some (Char.ofNat 10, rest)
  | '\\' :: 'f' :: rest => some (Char.ofNat 12, rest)
  | '\\' :: 'r' :: rest => some (Char.ofNat 13, rest)
  | '\\' :: c :: rest => some (c, rest)
  | c :: rest => some (c, rest)
  | [] => none

theorem unescape_escape (c : Char) (rest : List Char) :
    unescape (escape c ++ rest) = some (c, rest) := by
  by_cases hcontrol : c.toNat < 32
  · obtain ⟨n, hn, rfl⟩ : ∃ n < 32, c = Char.ofNat n :=
      ⟨c.toNat, hcontrol, (Char.ofNat_toNat c).symm⟩
    interval_cases n <;> rfl
  by_cases hquote : c = '"'
  · subst hquote
    rfl
  by_cases hbackslash : c = '\\'
  · subst hbackslash
    rfl
  rw [escape, if_neg hquote, if_neg hbackslash, if_neg (by omega), if_neg (by omega),
    if_neg (by omega), if_neg (by omega), if_neg (by omega), if_neg hcontrol]
  simp [unescape, hbackslash]

/-- No escaped character begins as the closing quote does. -/
theorem escape_ne_quote (c : Char) (rest rest' : List Char) :
    escape c ++ rest ≠ '"' :: rest' := by
  intro h
  unfold escape at h
  split at h
  · cases h
  case isFalse hquote =>
    repeat' split at h
    all_goals first
      | exact hquote (List.cons.inj h).1
      | cases h

theorem escaped_injective {cs ds rest rest' : List Char}
    (h : cs.flatMap escape ++ '"' :: rest = ds.flatMap escape ++ '"' :: rest') :
    cs = ds ∧ rest = rest' := by
  induction cs generalizing ds with
  | nil =>
    cases ds with
    | nil => exact ⟨rfl, (List.cons.inj h).2⟩
    | cons d ds =>
      rw [List.flatMap_cons, List.append_assoc] at h
      exact absurd h.symm (escape_ne_quote d _ _)
  | cons c cs ih =>
    cases ds with
    | nil =>
      rw [List.flatMap_cons, List.append_assoc] at h
      exact absurd h (escape_ne_quote c _ _)
    | cons d ds =>
      rw [List.flatMap_cons, List.flatMap_cons, List.append_assoc, List.append_assoc] at h
      have hread := congrArg unescape h
      rw [unescape_escape, unescape_escape] at hread
      obtain ⟨rfl, htail⟩ := Prod.mk.inj (Option.some.inj hread)
      obtain ⟨rfl, hrest⟩ := ih htail
      exact ⟨rfl, hrest⟩

theorem quote_injective {s s' : String} {rest rest' : List Char}
    (h : quote s ++ rest = quote s' ++ rest') : s = s' ∧ rest = rest' := by
  simp only [quote, List.cons_append, List.append_assoc, List.cons.injEq, true_and,
    List.nil_append] at h
  obtain ⟨hs, hrest⟩ := escaped_injective h
  exact ⟨String.toList_inj.mp hs, hrest⟩

/-- What may follow a value. -/
def Stop (rest : List Char) : Prop :=
  ∀ c, rest.head? = some c → c = ',' ∨ c = ']' ∨ c = '\x7d'

/-- A character that cannot follow a value. -/
def isInner (c : Char) : Bool := c ≠ ',' && c ≠ ']' && c ≠ '\x7d'

theorem takeWhile_isInner {text rest : List Char} (htext : ∀ c ∈ text, isInner c = true)
    (hrest : Stop rest) : (text ++ rest).takeWhile isInner = text := by
  rw [List.takeWhile_append_of_pos htext]
  cases rest with
  | nil => simp
  | cons c rest =>
    have : isInner c = false := by
      rcases hrest c rfl with rfl | rfl | rfl <;> rfl
    simp [this]

theorem isInner_of_isNumberChar {c : Char} (h : Decimal.isNumberChar c = true) :
    isInner c = true := by
  simp only [isInner, Bool.and_eq_true, decide_eq_true_eq, ne_eq]
  refine ⟨⟨?_, ?_⟩, ?_⟩ <;> rintro rfl <;> revert h <;> decide

namespace JsNumber

theorem isInner_of_mem_text {x : JsNumber} {c : Char} (h : c ∈ x.text) : isInner c = true := by
  cases x with
  | zero => exact isInner_of_isNumberChar (by rw [List.mem_singleton.mp h]; rfl)
  | finite x => exact isInner_of_isNumberChar (Decimal.isNumberChar_of_mem_text h)
  | infinite negative =>
    have hall : (JsNumber.infinite negative).text.all isInner = true := by
      cases negative <;> decide
    exact List.all_eq_true.mp hall c h

theorem exists_head_text (x : JsNumber) : ∃ c rest, x.text = c :: rest ∧
    (c.isDigit = true ∨ c = '-' ∨ c = 'I') := by
  cases x with
  | zero => exact ⟨'0', [], rfl, .inl rfl⟩
  | finite x =>
    obtain ⟨c, rest, htext, hc⟩ := Decimal.exists_digit_magnitude x.s x.n
    cases hn : x.negative with
    | true => exact ⟨'-', c :: rest, by simp [JsNumber.text, Decimal.Shortest.text, hn, htext],
        .inr (.inl rfl)⟩
    | false => exact ⟨c, rest, by simp [JsNumber.text, Decimal.Shortest.text, hn, htext], .inl hc⟩
  | infinite negative =>
    cases negative with
    | true => exact ⟨'-', "Infinity".toList, rfl, .inr (.inl rfl)⟩
    | false => exact ⟨'I', "nfinity".toList, rfl, .inr (.inr rfl)⟩

theorem text_injective {x y : JsNumber} (h : x.text = y.text) : x = y := by
  have hfinite : ∀ (x : Decimal.Shortest), 'y' ∉ x.text := fun x hx ↦
    absurd (Decimal.isNumberChar_of_mem_text hx) (by decide)
  have hzero : ∀ (x : Decimal.Shortest), x.text ≠ ['0'] := by
    intro x hx
    obtain ⟨c, rest, htext, hc⟩ := Decimal.exists_digit_magnitude x.s x.n
    rw [Decimal.Shortest.text] at hx
    cases hn : x.negative with
    | true => simp [hn, htext] at hx
    | false =>
      simp only [hn, Bool.false_eq_true, if_false, List.nil_append] at hx
      obtain ⟨a, ha⟩ := Decimal.read_magnitude x.s x.n
      rw [hx] at ha
      have hprod : 0 = x.s * 10 ^ a := (Prod.mk.inj ha).1
      rcases Nat.mul_eq_zero.mp hprod.symm with hs | hpow
      · exact x.hs (by rw [hs])
      · exact absurd hpow (Nat.pow_pos (by decide)).ne'
  have hinfinite : ∀ negative, 'y' ∈ (JsNumber.infinite negative).text := by decide
  cases x with
  | zero =>
    cases y with
    | zero => rfl
    | finite y => exact absurd h.symm (hzero y)
    | infinite negative => exact absurd (h ▸ hinfinite negative) (by decide)
  | finite x =>
    cases y with
    | zero => exact absurd h (hzero x)
    | finite y => exact congrArg _ (Decimal.text_injective h)
    | infinite negative =>
      have hy := hinfinite negative
      rw [← h] at hy
      exact absurd hy (hfinite x)
  | infinite negative =>
    cases y with
    | zero => exact absurd (h ▸ hinfinite negative) (by decide)
    | finite y =>
      have hy := hinfinite negative
      rw [h] at hy
      exact absurd hy (hfinite y)
    | infinite negative' =>
      cases negative <;> cases negative' <;> first | rfl | exact absurd h (by decide)

end JsNumber

/-! #### Lists of texts -/

section Joined

variable {α : Type} {f : α → List Char} {as bs : List α} {close : Char} {rest rest' : List Char}

/-- The texts of `a` and of any other element tell where they end. -/
def Separates (f : α → List Char) (a : α) : Prop :=
  ∀ b rest rest', Stop rest → Stop rest' → f a ++ rest = f b ++ rest' → a = b ∧ rest = rest'

theorem join_cons (t : List Char) (ts : List (List Char)) :
    join (t :: ts) = t ++ ts.flatMap (',' :: ·) := by
  induction ts generalizing t with
  | nil => simp [join]
  | cons u ts ih =>
    have hcons : join (t :: u :: ts) = t ++ [','] ++ join (u :: ts) :=
      List.intercalate_cons_cons
    rw [hcons, ih]
    simp

theorem stop_tail (hclose : close = ']' ∨ close = '\x7d') :
    Stop (as.flatMap (fun a ↦ ',' :: f a) ++ close :: rest) := by
  intro c hc
  cases as with
  | nil =>
    obtain rfl := Option.some.inj hc
    exact .inr hclose
  | cons a as =>
    obtain rfl := Option.some.inj hc
    exact .inl rfl

theorem tail_injective (hclose : close = ']' ∨ close = '\x7d') (has : ∀ a ∈ as, Separates f a)
    (h : as.flatMap (fun a ↦ ',' :: f a) ++ close :: rest =
      bs.flatMap (fun b ↦ ',' :: f b) ++ close :: rest') : as = bs ∧ rest = rest' := by
  have hne : close ≠ ',' := by
    rcases hclose with rfl | rfl <;> decide
  induction as generalizing bs with
  | nil =>
    cases bs with
    | nil => exact ⟨rfl, (List.cons.inj h).2⟩
    | cons b bs => exact absurd (List.cons.inj h).1 hne
  | cons a as ih =>
    cases bs with
    | nil => exact absurd (List.cons.inj h).1.symm hne
    | cons b bs =>
      simp only [List.flatMap_cons, List.cons_append, List.append_assoc, List.cons.injEq,
        true_and] at h
      obtain ⟨rfl, htail⟩ :=
        has a List.mem_cons_self b _ _ (stop_tail hclose) (stop_tail hclose) h
      obtain ⟨rfl, hrest⟩ := ih (fun x hx ↦ has x (List.mem_cons_of_mem _ hx)) htail
      exact ⟨rfl, hrest⟩

theorem join_injective (hclose : close = ']' ∨ close = '\x7d') (has : ∀ a ∈ as, Separates f a)
    (hhead : ∀ a, ∃ c text, f a = c :: text ∧ isInner c = true)
    (h : join (as.map f) ++ close :: rest = join (bs.map f) ++ close :: rest') :
    as = bs ∧ rest = rest' := by
  have hne : ∀ a text, f a ++ text ≠ close :: rest ∧ f a ++ text ≠ close :: rest' := by
    intro a text
    obtain ⟨c, t, ha, hc⟩ := hhead a
    rw [ha]
    constructor <;> intro heq <;> obtain ⟨rfl, -⟩ := List.cons.inj heq <;>
      rcases hclose with rfl | rfl <;> cases hc
  cases as with
  | nil =>
    cases bs with
    | nil => exact ⟨rfl, (List.cons.inj h).2⟩
    | cons b bs =>
      rw [List.map_cons, join_cons, List.append_assoc] at h
      exact absurd h.symm (hne b _).1
  | cons a as =>
    cases bs with
    | nil =>
      rw [List.map_cons, join_cons, List.append_assoc] at h
      exact absurd h (hne a _).2
    | cons b bs =>
      rw [List.map_cons, List.map_cons, join_cons, join_cons, List.append_assoc,
        List.append_assoc, List.flatMap_map, List.flatMap_map] at h
      obtain ⟨rfl, htail⟩ :=
        has a List.mem_cons_self b _ _ (stop_tail hclose) (stop_tail hclose) h
      obtain ⟨rfl, hrest⟩ :=
        tail_injective hclose (fun x hx ↦ has x (List.mem_cons_of_mem _ hx)) htail
      exact ⟨rfl, hrest⟩

end Joined

/-! #### Values -/

/-- Which constructor made the value. -/
def Json.kind : Json → ℕ
  | .null => 0
  | .bool _ => 1
  | .num _ => 2
  | .str _ => 3
  | .arr _ => 4
  | .obj _ => 5

/-- The kind of the values whose text begins with a character. -/
def kindOf (c : Char) : ℕ :=
  if c = 'n' then 0 else if c = 't' ∨ c = 'f' then 1 else if c = '"' then 3
  else if c = '[' then 4 else if c = '\x7b' then 5 else 2

theorem exists_head_text (v : Json) :
    ∃ c rest, v.text = c :: rest ∧ isInner c = true ∧ kindOf c = v.kind := by
  cases v with
  | null => exact ⟨'n', "ull".toList, rfl, rfl, rfl⟩
  | bool b =>
    cases b
    · exact ⟨'f', "alse".toList, rfl, rfl, rfl⟩
    · exact ⟨'t', "rue".toList, rfl, rfl, rfl⟩
  | num x =>
    obtain ⟨c, rest, htext, hc⟩ := x.exists_head_text
    refine ⟨c, rest, htext, JsNumber.isInner_of_mem_text (htext ▸ List.mem_cons_self), ?_⟩
    have hother : ∀ d ∈ ['n', 't', 'f', '"', '[', '\x7b'],
        d.isDigit = false ∧ d ≠ '-' ∧ d ≠ 'I' := by simp
    have hne : ∀ d ∈ ['n', 't', 'f', '"', '[', '\x7b'], c ≠ d := by
      rintro d hd rfl
      obtain ⟨hdigit, hminus, hi⟩ := hother c hd
      rcases hc with hc | hc | hc
      · rw [hdigit] at hc
        cases hc
      · exact hminus hc
      · exact hi hc
    simp only [List.mem_cons, List.not_mem_nil, or_false, forall_eq_or_imp, forall_eq] at hne
    obtain ⟨hn, ht, hf, hquote, harr, hobj⟩ := hne
    rw [kindOf, if_neg hn, if_neg (by simp [ht, hf]), if_neg hquote, if_neg harr, if_neg hobj,
      Json.kind]
  | str s => exact ⟨'"', _, rfl, rfl, rfl⟩
  | arr items => exact ⟨'[', _, rfl, rfl, rfl⟩
  | obj members => exact ⟨'\x7b', _, rfl, rfl, rfl⟩

/-- Values whose texts begin alike are made alike. -/
theorem kind_eq {v w : Json} {rest rest' : List Char} (h : v.text ++ rest = w.text ++ rest') :
    v.kind = w.kind := by
  obtain ⟨c, text, hv, -, hc⟩ := exists_head_text v
  obtain ⟨d, text', hw, -, hd⟩ := exists_head_text w
  rw [hv, hw] at h
  rw [← hc, ← hd, (List.cons.inj h).1]

/-- A value's text tells the value and where it ends. -/
theorem separates_text (v : Json) : Separates Json.text v := by
  induction v using Json.induction with
  | null =>
    intro w rest rest' _ _ h
    have hkind := kind_eq h
    cases w <;> cases hkind
    exact ⟨rfl, List.append_cancel_left h⟩
  | bool b =>
    intro w rest rest' _ _ h
    have hkind := kind_eq h
    cases w <;> cases hkind
    case bool b' =>
    cases b <;> cases b'
    · exact ⟨rfl, List.append_cancel_left h⟩
    · cases h
    · cases h
    · exact ⟨rfl, List.append_cancel_left h⟩
  | num x =>
    intro w rest rest' hrest hrest' h
    have hkind := kind_eq h
    cases w <;> cases hkind
    case num y =>
    have htext : x.text = y.text := by
      have := congrArg (List.takeWhile isInner) h
      rwa [Json.text, Json.text, takeWhile_isInner (fun _ ↦ JsNumber.isInner_of_mem_text) hrest,
        takeWhile_isInner (fun _ ↦ JsNumber.isInner_of_mem_text) hrest'] at this
    obtain rfl := JsNumber.text_injective htext
    exact ⟨rfl, List.append_cancel_left h⟩
  | str s =>
    intro w rest rest' _ _ h
    have hkind := kind_eq h
    cases w <;> cases hkind
    obtain ⟨rfl, hrest⟩ := quote_injective h
    exact ⟨rfl, hrest⟩
  | arr items ih =>
    intro w rest rest' _ _ h
    have hkind := kind_eq h
    cases w <;> cases hkind
    case arr items' =>
    rw [Json.text, Json.text, itemTexts_eq_map, itemTexts_eq_map] at h
    simp only [List.cons_append, List.append_assoc, List.cons.injEq, true_and,
      List.nil_append] at h
    obtain ⟨rfl, hrest⟩ := join_injective (.inl rfl) ih (fun v ↦ by
      obtain ⟨c, text, hv, hc, -⟩ := exists_head_text v
      exact ⟨c, text, hv, hc⟩) h
    exact ⟨rfl, hrest⟩
  | obj members ih =>
    intro w rest rest' _ _ h
    have hkind := kind_eq h
    cases w <;> cases hkind
    case obj members' =>
    rw [Json.text, Json.text, memberTexts_eq_map, memberTexts_eq_map] at h
    simp only [List.cons_append, List.append_assoc, List.cons.injEq, true_and,
      List.nil_append] at h
    have hmember : ∀ m ∈ members, Separates (fun m ↦ memberText (m.1, m.2.text)) m := by
      intro m hm b rest rest' hrest hrest' heq
      simp only [memberText, List.append_assoc, List.cons_append] at heq
      obtain ⟨hkey, htail⟩ := quote_injective heq
      obtain ⟨hvalue, hrest⟩ := ih m hm b.2 _ _ hrest hrest' (List.cons.inj htail).2
      exact ⟨Prod.ext hkey hvalue, hrest⟩
    obtain ⟨rfl, hrest⟩ := join_injective (.inr rfl) hmember
      (fun m ↦ ⟨'"', _, rfl, rfl⟩) h
    exact ⟨rfl, hrest⟩

/-- One canonical text is that of one value. -/
theorem same_of_canonicalizeJson_eq {v w : Json} {text : List Char}
    (hv : canonicalizeJson v = .ok text) (hw : canonicalizeJson w = .ok text) : v.Same w := by
  have h : v.sorted.text = w.sorted.text := by
    rw [← canonicalizeJson_eq_ok hv, ← canonicalizeJson_eq_ok hw]
  exact (separates_text v.sorted w.sorted [] [] nofun nofun (by rw [h])).1

/-- The fields of two objects that are the same, where no name stands twice. -/
theorem Json.Same.field {members members' : List (String × Json)} {key : String} {v w : Json}
    (h : (Json.obj members).Same (.obj members')) (hv : (key, v) ∈ members)
    (hnodup : (members'.map (·.1)).Nodup) (hw : (key, w) ∈ members') : v.Same w := by
  rw [Json.Same, Json.sorted, Json.sorted, Json.obj.injEq, sortedMembers_eq_map,
    sortedMembers_eq_map] at h
  have hmem : (key, v.sorted) ∈ members'.map fun m ↦ (m.1, m.2.sorted) := by
    have : (key, v.sorted) ∈ sortMembers (members.map fun m ↦ (m.1, m.2.sorted)) :=
      Table.mem_orderBy.mpr (List.mem_map.mpr ⟨(key, v), hv, rfl⟩)
    rw [h] at this
    exact Table.mem_orderBy.mp this
  obtain ⟨m, hm, heq⟩ := List.mem_map.mp hmem
  obtain ⟨hkey, hsorted⟩ := Prod.mk.inj heq
  obtain rfl : m = (key, w) := List.inj_on_of_nodup_map hnodup hm hw hkey
  exact hsorted.symm

end QAuth.Audit
