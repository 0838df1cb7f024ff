import QAuth.Foundation.Text
import Mathlib.Data.List.DropRight

/-!
# Configured values

What an operator configures, as the trust modules read it and show it in an error
(`configured-value.ts`). A string is its UTF-16 code units; a value that is no string is known by
how it is shown.
-/

namespace QAuth.Federation

open Text (units)

abbrev JsString : Type := List UInt16

/-- A value that an operator configured: a string, or something else that is shown as one. -/
inductive Configured
  | text (value : JsString)
  | other (shown : JsString)

def Configured.shown : Configured → JsString
  | .text value => value
  | .other shown => shown

def MAX_REPORTED_VALUE_LENGTH : ℕ := 120

def summarizeConfiguredValue (value : Configured) : JsString :=
  if MAX_REPORTED_VALUE_LENGTH < value.shown.length then
    value.shown.take MAX_REPORTED_VALUE_LENGTH ++ units "…"
  else value.shown

/-- A value among an error's details. -/
inductive Detail
  | text (value : JsString)
  | count (value : ℕ)

structure InvalidConfigurationError where
  message : JsString
  details : List (String × Detail)

/-- `trim()`. -/
def trim (text : JsString) : JsString :=
  let isSpace := fun u : UInt16 ↦ Text.isSpace (Char.ofNat u.toNat)
  (text.dropWhile isSpace).rdropWhile isSpace

end QAuth.Federation
