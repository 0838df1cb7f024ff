import Mathlib.Data.List.Basic
import Mathlib.Data.Option.Basic

/-!
# Percent-encoded texts

`decodeURIComponent`: an escape stands for a byte, and the bytes of one character in UTF-8 for that
character. An escape that is cut off, or bytes that are no character, are an error.
-/

namespace PercentEncoding

/-! ### Escapes -/

def hexDigits : List Char := "0123456789abcdef".toList

def isHexDigit (c : Char) : Bool := hexDigits.contains c.toLower

def hexValue (c : Char) : ℕ := hexDigits.idxOf c.toLower

/-- The byte that an escape at the start of a text stands for, and the rest. -/
def octet : List Char → Option (UInt8 × List Char)
  | '%' :: a :: b :: rest =>
    if isHexDigit a && isHexDigit b then some (UInt8.ofNat (16 * hexValue a + hexValue b), rest)
    else none
  | _ => none

/-- The bytes that so many escapes stand for. -/
def octets : ℕ → List Char → Option (List UInt8 × List Char)
  | 0, text => some ([], text)
  | n + 1, text =>
    (octet text).bind fun (byte, rest) ↦ (octets n rest).map fun (bytes, rest) ↦ (byte :: bytes, rest)

/-- How many bytes follow the first byte of a character; none where it is not one. -/
def following (byte : UInt8) : Option ℕ :=
  if byte < 0x80 then some 0
  else if byte < 0xC0 then none
  else if byte < 0xE0 then some 1
  else if byte < 0xF0 then some 2
  else if byte < 0xF8 then some 3
  else none

/-- The one character that some bytes are. -/
def charOf (bytes : List UInt8) : Option Char :=
  match bytes.toByteArray.utf8Decode? with
  | some chars => match chars.toList with
    | [c] => some c
    | _ => none
  | none => none

/-- The character that escapes at the start of a text stand for, and the rest. -/
def escapedChar (text : List Char) : Option (Char × List Char) :=
  (octet text).bind fun (byte, rest) ↦ (following byte).bind fun n ↦
    (octets n rest).bind fun (bytes, rest) ↦ (charOf (byte :: bytes)).map (·, rest)

/-- The text that so many characters of another one spell. -/
def decodeFrom : ℕ → List Char → Option (List Char)
  | _, [] => some []
  | 0, _ => none
  | n + 1, c :: rest =>
    if c = '%' then
      (escapedChar (c :: rest)).bind fun (d, rest) ↦ (decodeFrom n rest).map (d :: ·)
    else (decodeFrom n rest).map (c :: ·)

/-- `decodeURIComponent`; `none` where it throws. -/
def decode (text : List Char) : Option (List Char) := decodeFrom text.length text

/-! ### The grammar -/

/-- The escapes stand for the bytes. -/
inductive Escapes : List Char → List UInt8 → Prop
  | nil : Escapes [] []
  | cons (a b : Char) (text : List Char) (bytes : List UInt8) (high : isHexDigit a = true)
      (low : isHexDigit b = true) (tail : Escapes text bytes) :
      Escapes ('%' :: a :: b :: text) (UInt8.ofNat (16 * hexValue a + hexValue b) :: bytes)

/-- The text spells the other one. -/
inductive Spells : List Char → List Char → Prop
  | nil : Spells [] []
  | plain (c : Char) (text decoded : List Char) (plain : c ≠ '%') (tail : Spells text decoded) :
      Spells (c :: text) (c :: decoded)
  | escape (c : Char) (escapes text decoded : List Char)
      (bytes : Escapes escapes (String.utf8EncodeChar c)) (tail : Spells text decoded) :
      Spells (escapes ++ text) (c :: decoded)

variable {text rest decoded : List Char} {byte : UInt8} {bytes : List UInt8} {c : Char} {n : ℕ}

theorem utf8EncodeChar_ne_nil (c : Char) : String.utf8EncodeChar c ≠ [] := by
  intro h
  have hlength := String.length_utf8EncodeChar c
  have hpos := c.utf8Size_pos
  rw [h, List.length_nil] at hlength
  omega

theorem Spells.cases (h : Spells text decoded) : (text = [] ∧ decoded = []) ∨
    (∃ c t d, c ≠ '%' ∧ text = c :: t ∧ decoded = c :: d ∧ Spells t d) ∨
    ∃ c t rest d, Escapes ('%' :: t) (String.utf8EncodeChar c) ∧ text = '%' :: t ++ rest ∧
      decoded = c :: d ∧ Spells rest d := by
  cases h with
  | nil => exact .inl ⟨rfl, rfl⟩
  | plain c t d hplain htail => exact .inr (.inl ⟨c, t, d, hplain, rfl, rfl, htail⟩)
  | escape c escapes rest d hbytes htail =>
    generalize hencode : String.utf8EncodeChar c = encoded at hbytes
    cases hbytes with
    | nil => exact absurd hencode (utf8EncodeChar_ne_nil c)
    | cons a b escapes bytes high low tail =>
      refine .inr (.inr ⟨c, _, rest, d, ?_, rfl, rfl, htail⟩)
      rw [hencode]
      exact .cons a b escapes bytes high low tail

end PercentEncoding
