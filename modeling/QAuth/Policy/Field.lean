import QAuth.Foundation.Guards
import QAuth.Foundation.Text
import QAuth.Policy.Direction

/-!
# Realm policy fields

A field of the realm policies and the rules of `checkDefinition` in `field.ts`. A field is a Zod type
with its annotations; the type is a parameter, known by what it parses and exports.
-/

namespace QAuth.Policy

open Guards Json

/-- When a change of a field is a security operation. -/
inductive SecurityWhen
  | never
  | loosening
  | anyChange
deriving DecidableEq

/-- The rule as the annotations write it. -/
def SecurityWhen.text : SecurityWhen → String
  | .never => "never"
  | .loosening => "loosening"
  | .anyChange => "any-change"

/-- The effects that make a change a security operation. -/
inductive SecurityEffect
  | credentialPath
  | tokenContent
  | issueForOther
  | administration
  | importing
  | federationOperator
  | keyCustody
  | realmLifecycle
  | authorityTreePower
  | postureLoosening
  | bulkRevocation
deriving DecidableEq

/-- The closed list of effects, in its order. -/
def SECURITY_EFFECTS : List SecurityEffect :=
  [.credentialPath, .tokenContent, .issueForOther, .administration, .importing,
    .federationOperator, .keyCustody, .realmLifecycle, .authorityTreePower, .postureLoosening,
    .bulkRevocation]

theorem mem_SECURITY_EFFECTS (effect : SecurityEffect) : effect ∈ SECURITY_EFFECTS := by
  cases effect <;> decide

/-- What is asked of a Zod type. -/
structure ZodType where
  /-- The value read, or nothing where the type refuses it. -/
  safeParse : Value → Option Value
  /-- Whether it takes a member that is missing. -/
  acceptsUndefined : Bool
  /-- The values an enum or a literal accepts. -/
  values : Option (List Value)
  /-- Whether it has a JSON Schema in its input form. -/
  hasInputSchema : Bool
  /-- Whether it has one in its output form. -/
  hasOutputSchema : Bool

/-- The documentation of a field. -/
structure PolicyFieldDoc where
  summary : String
  link : String

/-- A type and its annotations. -/
structure FieldDefinition where
  schema : ZodType
  seedEnv : Option String
  default : Value
  direction : Direction
  securityWhen : SecurityWhen
  effects : List SecurityEffect
  secret : Bool
  environmentBound : Bool
  doc : PolicyFieldDoc

/-- A definition or a group that is refused. -/
inductive PolicyDefinitionError
  | rule (message : String)
  /-- The order names a value the type does not accept. -/
  | orderNames (value : String)
  /-- The order leaves out a value the type accepts. -/
  | orderLeavesOut (value : Value)
  | under (path : String) (error : PolicyDefinitionError)

/-! ### The rules -/

/-- `/^[A-Z][A-Z0-9_]*$/` -/
def matchesEnvKey (key : String) : Bool :=
  match key.toList with
  | first :: rest => first.isUpper && rest.all fun c ↦ c.isUpper || c.isDigit || c == '_'
  | [] => false

/-- `/^https:\/\/docs\.qauth\.dev\/[^\s]*$/` -/
def matchesDocsLink (link : String) : Bool :=
  "https://docs.qauth.dev/".toList.isPrefixOf link.toList &&
    Text.matchesAll (!Text.isSpace ·) link

/-- `/[.!?]\s+[A-Z]/` -/
def startsSentence : List Char → Bool
  | [] => false
  | c :: rest =>
    (c ∈ ['.', '!', '?'] && rest.head?.any Text.isSpace &&
      (rest.dropWhile Text.isSpace).head?.any Char.isUpper) || startsSentence rest

/-- A single trimmed line that ends with a full stop, with no second sentence after it. -/
def isOneSentence (text : String) : Bool :=
  decide (text ≠ "") && Text.utf16Length text ≤ 300 && Text.trim text.toList == text.toList &&
    text.toList.all (fun c ↦ c != '\r' && c != '\n') && text.toList.getLast? == some '.' &&
    !startsSentence text.toList

def checkDirection : Direction → Except PolicyDefinitionError Unit
  | .ordered order =>
    refuseIf (order.length < 2 ∨ "" ∈ order ∨ ¬ order.Nodup)
      (.rule ("an ordered direction lists at least two distinct values, from the loosest to the " ++
        "strictest"))
  | _ => .ok ()

def fitsDirection (direction : Direction) (value : Value) : Bool :=
  match direction with
  | .opaqueKind => true
  | .lowerIsStricter | .higherIsStricter => (number? (some value)).isSome
  | .trueIsStricter | .falseIsStricter => (flag? (some value)).isSome
  | .ordered _ => (direction.level (some value)).isSome
  | .subsetIsStricter | .supersetIsStricter => (entriesOf (some value)).isSome

def checkPlain (d : FieldDefinition) : Except PolicyDefinitionError Unit := do
  refuseIf d.schema.acceptsUndefined
    (.rule "a field that is not secret refuses undefined: the representation has every member")
  -- A `Value` is plain JSON, so the rule that the default is never refuses here.
  refuseIf (¬ (d.schema.safeParse d.default).any fun parsed ↦ decide (Value.Same parsed d.default))
    (.rule "the default must be a value of the type, unchanged by it")
  refuseIf (¬ fitsDirection d.direction d.default)
    (.rule "the default does not fit the direction")
  match d.direction with
  | .ordered order =>
    refuseSome ((order.find? fun v ↦ (d.schema.safeParse (.str v)).isNone).map .orderNames)
    let values ← require d.schema.values
      (.rule "an ordered field has an enum type, which accepts only the values of its order")
    refuseSome ((values.find? fun v ↦ (indexIn order (some v)).isNone).map .orderLeavesOut)
  | _ => .ok ()

/-- The rules of a definition; the kinds of its annotations are the record's own. -/
def checkDefinition (d : FieldDefinition) : Except PolicyDefinitionError Unit := do
  refuseIf (¬ d.seedEnv.all matchesEnvKey)
    (.rule "seedEnv is an environment variable name, or null")
  checkDirection d.direction
  refuseIf (¬ d.effects.Nodup)
    (.rule ("effects are distinct tags of the closed list SECURITY_EFFECTS " ++
      "(@qauth-labs/shared-validation)"))
  refuseIf (d.securityWhen = .never ∧ d.effects ≠ [])
    (.rule "a field that is never a security operation has no effects")
  refuseIf (d.securityWhen ≠ .never ∧ d.effects = [])
    (.rule (s!"a field whose {d.securityWhen.text} change is a security operation names the effects " ++
      "that make it one"))
  refuseIf (d.direction = .opaqueKind ∧ d.securityWhen = .loosening)
    (.rule "an opaque field has no loosening; its rule is never or any-change")
  refuseIf (¬ isOneSentence d.doc.summary ∨ ¬ matchesDocsLink d.doc.link)
    (.rule ("doc is \x7b summary, link \x7d: one sentence ending with a full stop, and an " ++
      "https://docs.qauth.dev/ link"))
  refuseIf (¬ d.schema.hasInputSchema) (.rule "the type has no JSON Schema (input)")
  refuseIf (¬ d.secret ∧ ¬ d.schema.hasOutputSchema) (.rule "the type has no JSON Schema (output)")
  if d.secret then
    refuseIf (d.direction ≠ .opaqueKind ∨ d.securityWhen ≠ .anyChange ∨ d.default ≠ .null)
      (.rule "a secret field is opaque, any-change and has no default (null)")
  else checkPlain d

/-- A field: a definition that passes the rules. -/
structure PolicyField extends FieldDefinition where
  checked : checkDefinition toFieldDefinition = .ok ()

/-- Define a field, or check a value that carries a field's brand. -/
def policyField (d : FieldDefinition) : Except PolicyDefinitionError PolicyField :=
  match h : checkDefinition d with
  | .ok () => .ok { d with checked := h }
  | .error e => .error e

end QAuth.Policy
