import QAuth.Audit.Chain
import QAuth.Foundation.Base64Url
import QAuth.Foundation.Text

/-!
# The canonical request of an approval

The request that an approval is bound to, and the hash that binds it (`canonical-request.ts`). The
parts of a request are values of any kind, as the route parsed them; the ones that the canonical
JSON takes are found out by writing them.

Unicode's upper case of the characters beyond ASCII is given.
-/

namespace QAuth.Approvals

open Audit (Bytes Digest Json JsNumber Sha256 join memberText quote utf16 utf8)
open Guards Text

/-! ### Values -/

/-- A string of the program, in UTF-16 code units. -/
abbrev JsString := List UInt16

/-- What an object has as its prototype. -/
inductive Prototype
  /-- `Object.prototype`, or none -/
  | plain
  /-- an empty object with no prototype of its own -/
  | parsed
  | foreign

/-- `typeof` a value that no JSON value is. -/
inductive TypeOf
  | bigint
  | symbol
  | function

def TypeOf.word : TypeOf → String
  | .bigint => "bigint"
  | .symbol => "symbol"
  | .function => "function"

/-- A value; an array has `none` where it has a hole, and the own members of an object stand in the
order of `Object.keys`. Both zeros are one number. -/
inductive JsValue
  | undefined
  | null
  | bool (b : Bool)
  | nan
  | num (x : JsNumber)
  | str (s : JsString)
  | arr (items : List (Option JsValue))
  | obj (prototype : Prototype) (members : List (JsString × JsValue))
  | other (type : TypeOf)

namespace JsValue

theorem induction {P : JsValue → Prop} (undefined : P .undefined) (null : P .null)
    (bool : ∀ b, P (.bool b)) (nan : P .nan) (num : ∀ x, P (.num x)) (str : ∀ s, P (.str s))
    (arr : ∀ items, (∀ v, some v ∈ items → P v) → P (.arr items))
    (obj : ∀ prototype members, (∀ m ∈ members, P m.2) → P (.obj prototype members))
    (other : ∀ type, P (.other type)) : ∀ v, P v
  | .undefined => undefined
  | .null => null
  | .bool b => bool b
  | .nan => nan
  | .num x => num x
  | .str s => str s
  | .arr items => arr items fun v _ ↦ induction undefined null bool nan num str arr obj other v
  | .obj prototype members =>
    obj prototype members fun m _ ↦ induction undefined null bool nan num str arr obj other m.2
  | .other type => other type
termination_by v => sizeOf v
decreasing_by
  · have := List.sizeOf_lt_of_mem ‹some v ∈ items›
    simp only [Option.some.sizeOf_spec] at this
    simp only [JsValue.arr.sizeOf_spec]
    omega
  · have := List.sizeOf_lt_of_mem ‹m ∈ members›
    have : sizeOf m.2 < sizeOf m := by
      cases m
      simp only [Prod.mk.sizeOf_spec]
      omega
    simp only [JsValue.obj.sizeOf_spec]
    omega

def isUndefined : JsValue → Bool
  | .undefined => true
  | _ => false

@[simp] theorem isUndefined_str (s : JsString) : (JsValue.str s).isUndefined = false := rfl

@[simp] theorem isUndefined_obj (prototype : Prototype) (members : List (JsString × JsValue)) :
    (JsValue.obj prototype members).isUndefined = false := rfl

mutual

/-- No object in the value has two members of one name. -/
def WellNamed : JsValue → Prop
  | .arr items => WellNamedItems items
  | .obj _ members => (members.map (·.1)).Nodup ∧ WellNamedMembers members
  | _ => True

/-- `WellNamed` of every item of an array. -/
def WellNamedItems : List (Option JsValue) → Prop
  | [] => True
  | none :: items => WellNamedItems items
  | some v :: items => v.WellNamed ∧ WellNamedItems items

/-- `WellNamed` of every member of an object. -/
def WellNamedMembers : List (JsString × JsValue) → Prop
  | [] => True
  | (_, v) :: members => v.WellNamed ∧ WellNamedMembers members

end

end JsValue

/-- A value of the program: an object has a name once. -/
abbrev Unknown := {v : JsValue // v.WellNamed}

/-! ### The canonical text -/

/-- A string's text. -/
def serializeString (path s : JsString) : Except JsString (List Char) :=
  if loneSurrogate none s then
    .error (units "canonicalizeJson: lone surrogate in a string at " ++ path)
  else .ok (quote (String.ofList (charsOf s)))

/-- Members in the order of the default sort of their names. -/
def sortKeys {β : Type} (members : List (JsString × β)) : List (JsString × β) :=
  Table.orderBy (fun member : JsString × β ↦ member.1.map UInt16.toNat) members

mutual

/-- The canonical text of the value at `path`. -/
def serialize (path : JsString) : JsValue → Except JsString (List Char)
  | .null => .ok "null".toList
  | .bool b => .ok (if b then "true".toList else "false".toList)
  | .nan => .error (units "canonicalizeJson: NaN at " ++ path ++ units " is not a JSON number")
  | .num (.infinite negative) =>
    .error (units "canonicalizeJson: " ++
      units (String.ofList (JsNumber.infinite negative).text) ++ units " at " ++ path ++
      units " is not a JSON number")
  | .num x => .ok x.text
  | .str s => serializeString path s
  | .arr items => do
    let texts ← serializeItems path 0 items
    return '[' :: join texts ++ [']']
  | .obj .plain members => do
    let texts ← (sortKeys (serializeMembers path members)).mapM fun member ↦ do
      let key ← serializeString path member.1
      let text ← member.2
      return key ++ ':' :: text
    return '\x7b' :: join texts ++ ['\x7d']
  | .obj _ _ => .error (units "canonicalizeJson: " ++ path ++ units " is not a plain object")
  | .undefined =>
    .error (units "canonicalizeJson: " ++ path ++ units " is a undefined, not a JSON value")
  | .other type =>
    .error (units "canonicalizeJson: " ++ path ++ units " is a " ++ units type.word ++
      units ", not a JSON value")

/-- The texts of an array's items, from `index` on. -/
def serializeItems (path : JsString) (index : ℕ) :
    List (Option JsValue) → Except JsString (List (List Char))
  | [] => .ok []
  | none :: _ =>
    .error (units "canonicalizeJson: hole at " ++ path ++ units "[" ++ units (toString index) ++
      units "]")
  | some v :: items => do
    let text ← serialize (path ++ units "[" ++ units (toString index) ++ units "]") v
    let texts ← serializeItems path (index + 1) items
    return text :: texts

/-- What becomes of the members of an object; one that is `undefined` is absent. -/
def serializeMembers (path : JsString) :
    List (JsString × JsValue) → List (JsString × Except JsString (List Char))
  | [] => []
  | (key, v) :: members =>
    if v.isUndefined then serializeMembers path members
    else (key, serialize (path ++ units "." ++ key) v) :: serializeMembers path members

end

/-- Serialize a value to its canonical form. -/
def canonicalizeJson (value : JsValue) : Except JsString (List Char) := serialize (units "$") value

/-! ### The canonical request -/

/-- `toUpperCase`, with the upper case of the characters beyond ASCII. -/
def toUpperCase (upper : Char → List Char) : JsString → JsString
  | [] => []
  | u :: rest =>
    if isHigh u then
      match rest with
      | v :: rest =>
        if isLow v then
          (upper (Char.ofNat (0x10000 + (u.toNat - 0xD800) * 0x400 + (v.toNat - 0xDC00)))).flatMap
            unitsOf ++ toUpperCase upper rest
        else u :: toUpperCase upper (v :: rest)
      | [] => [u]
    else if isLow u then u :: toUpperCase upper rest
    else if u < 0x80 then
      (if 0x61 ≤ u ∧ u ≤ 0x7A then u - 0x20 else u) :: toUpperCase upper rest
    else (upper (Char.ofNat u.toNat)).flatMap unitsOf ++ toUpperCase upper rest

inductive RequesterKind
  | human
  | serviceAccount
deriving DecidableEq

def RequesterKind.word : RequesterKind → String
  | .human => "human"
  | .serviceAccount => "service_account"

/-- Who files an approval. -/
structure ApprovalRequester where
  kind : RequesterKind
  realmId : JsString
  accountId : JsString

/-- The parts of a request, as the route parsed them. -/
structure CanonicalRequestInput where
  operationId : JsString
  method : JsString
  params : Unknown
  query : Unknown
  body : Unknown
  realmId : JsString
  requester : ApprovalRequester

/-- The request an approval is bound to, without the nonce. -/
structure CanonicalRequest where
  operationId : JsString
  method : JsString
  params : List (JsString × JsValue)
  query : List (JsString × JsValue)
  body : JsValue
  realmId : JsString
  requester : ApprovalRequester

def ApprovalRequester.members (requester : ApprovalRequester) : List (JsString × JsValue) :=
  [(units "kind", .str (units requester.kind.word)), (units "realmId", .str requester.realmId),
    (units "accountId", .str requester.accountId)]

def CanonicalRequest.members (request : CanonicalRequest) : List (JsString × JsValue) :=
  [(units "operationId", .str request.operationId), (units "method", .str request.method),
    (units "params", .obj .plain request.params), (units "query", .obj .plain request.query),
    (units "body", request.body), (units "realmId", .str request.realmId),
    (units "requester", .obj .plain request.requester.members)]

/-- The length of the server's nonce. -/
def APPROVAL_NONCE_BYTES : ℕ := 32

/-- The path parameters or the query as the members of a plain object. -/
def parameterRecord : JsValue → Option (List (JsString × JsValue))
  | .obj .plain members => some members
  | .obj .parsed members => some members
  | _ => none

def assertStorableString (path s : JsString) : Except JsString Unit :=
  if s.contains 0 then .error (path ++ units " holds U+0000, which no approval can store")
  else .ok ()

mutual

/-- Every string of the value, the names of members included, is without U+0000. -/
def assertStorable (path : JsString) : JsValue → Except JsString Unit
  | .str s => assertStorableString path s
  | .arr items => assertStorableItems path 0 items
  | .obj .plain members => assertStorableMembers path members
  | _ => .ok ()

def assertStorableItems (path : JsString) (index : ℕ) :
    List (Option JsValue) → Except JsString Unit
  | [] => .ok ()
  | none :: items => assertStorableItems path (index + 1) items
  | some v :: items => do
    assertStorable (path ++ units "[" ++ units (toString index) ++ units "]") v
    assertStorableItems path (index + 1) items

def assertStorableMembers (path : JsString) : List (JsString × JsValue) → Except JsString Unit
  | [] => .ok ()
  | (key, v) :: members => do
    assertStorableString (path ++ units " member name") key
    assertStorable (path ++ units "." ++ key) v
    assertStorableMembers path members

end

/-- `value ?? {}`. -/
def JsValue.orEmpty : JsValue → JsValue
  | .undefined => .obj .plain []
  | .null => .obj .plain []
  | v => v

/-- `value === undefined ? null : value`. -/
def JsValue.orNull : JsValue → JsValue
  | .undefined => .null
  | v => v

/-- `{ ...members, [key]: v }`. -/
def withMember (members : List (JsString × JsValue)) (key : JsString) (v : JsValue) :
    List (JsString × JsValue) :=
  if key ∈ members.map (·.1) then members.map fun m ↦ if m.1 = key then (key, v) else m
  else members ++ [(key, v)]

/-- The request of `input`, of which these are the path parameters and the query. -/
def requestOf (upper : Char → List Char) (input : CanonicalRequestInput)
    (params query : List (JsString × JsValue)) : CanonicalRequest where
  operationId := input.operationId
  method := toUpperCase upper input.method
  params := withMember params (units "realmId") (.str input.realmId)
  query := query
  body := input.body.val.orNull
  realmId := input.realmId
  requester := input.requester

/-- The canonical request of `input`, or the message of a `CanonicalRequestError`. -/
def canonicalRequest (upper : Char → List Char) (input : CanonicalRequestInput) :
    Except JsString CanonicalRequest :=
  match parameterRecord input.params.val.orEmpty, parameterRecord input.query.val.orEmpty with
  | some params, some query => do
    let request := requestOf upper input params query
    assertStorable (units "the request") (.obj .plain request.members)
    match canonicalizeJson (.obj .plain request.members) with
    | .error message => .error (units "the request has no canonical form: " ++ message)
    | .ok _ => .ok request
  | _, _ => .error (units "the path parameters and the query are objects")

/-- The members that `op_hash` is taken over. -/
def hashedMembers (request : CanonicalRequest) (nonce : Bytes) : List (JsString × JsValue) :=
  request.members ++
    [(units "nonce", .str (units (String.ofList (Base64Url.encode nonce))))]

/-- `op_hash`: SHA-256 of the canonical form of the request with the nonce. -/
def opHashOf (sha256 : Sha256) (request : CanonicalRequest) (nonce : Bytes) :
    Except JsString Digest :=
  if nonce.length ≠ APPROVAL_NONCE_BYTES then
    .error (units ("the nonce is " ++ toString APPROVAL_NONCE_BYTES ++ " bytes"))
  else do
    let text ← canonicalizeJson (.obj .plain (hashedMembers request nonce))
    return sha256 (utf8 text)

/-! ### The value behind the text -/

mutual

def JsValue.isJson : JsValue → Bool
  | .null => true
  | .bool _ => true
  | .num (.infinite _) => false
  | .num _ => true
  | .str s => !loneSurrogate none s
  | .arr items => areJson items
  | .obj .plain members => areJsonMembers members
  | _ => false

def areJson : List (Option JsValue) → Bool
  | [] => true
  | none :: _ => false
  | some v :: items => v.isJson && areJson items

def areJsonMembers : List (JsString × JsValue) → Bool
  | [] => true
  | (key, v) :: members =>
    (v.isUndefined || (!loneSurrogate none key && v.isJson)) && areJsonMembers members

end

def textOf (s : JsString) : String := String.ofList (charsOf s)

mutual

/-- The JSON value that a value is; `null` for what is none. -/
def JsValue.json : JsValue → Json
  | .bool b => .bool b
  | .num x => .num x
  | .str s => .str (textOf s)
  | .arr items => .arr (jsonItems items)
  | .obj _ members => .obj (jsonMembers members)
  | _ => .null

def jsonItems : List (Option JsValue) → List Json
  | [] => []
  | none :: items => .null :: jsonItems items
  | some v :: items => v.json :: jsonItems items

/-- The members that are not `undefined`. -/
def jsonMembers : List (JsString × JsValue) → List (String × Json)
  | [] => []
  | (key, v) :: members =>
    if v.isUndefined then jsonMembers members else (textOf key, v.json) :: jsonMembers members

end

/-- The members of an object that are not `undefined`. -/
def present (members : List (JsString × JsValue)) : List (JsString × JsValue) :=
  members.filter fun m ↦ !m.2.isUndefined

variable {members : List (JsString × JsValue)} {path : JsString}

theorem serializeMembers_eq_map :
    serializeMembers path members =
      (present members).map fun m ↦ (m.1, serialize (path ++ units "." ++ m.1) m.2) := by
  induction members with
  | nil => rfl
  | cons m members ih =>
    rw [serializeMembers, present, List.filter_cons]
    cases m.2.isUndefined
    · simp [ih, present]
    · simp [ih, present]

theorem jsonMembers_eq_map :
    jsonMembers members = (present members).map fun m ↦ (textOf m.1, m.2.json) := by
  induction members with
  | nil => rfl
  | cons m members ih =>
    rw [jsonMembers, present, List.filter_cons]
    cases m.2.isUndefined
    · simp [ih, present]
    · simp [ih, present]

theorem areJsonMembers_iff :
    areJsonMembers members = true ↔
      ∀ m ∈ present members, loneSurrogate none m.1 = false ∧ m.2.isJson = true := by
  induction members with
  | nil => simp [areJsonMembers, present]
  | cons m members ih =>
    rw [areJsonMembers, present, List.filter_cons]
    cases m.2.isUndefined
    · simp [ih, present]
    · simp [ih, present]

/-! ### Strings -/

theorem unitsOf_eq_utf16 (s : String) : (units s).map UInt16.toNat = utf16 s := by
  rw [units, utf16, List.map_flatMap]
  congr 1
  funext c
  have hc : c.toNat < 0x110000 := by
    have := c.valid
    simp only [UInt32.isValidChar, Nat.isValidChar] at this
    show c.val.toNat < 0x110000
    omega
  rw [unitsOf]
  split
  · simp
    omega
  · simp
    omega

theorem units_textOf {s : JsString} (h : loneSurrogate none s = false) : units (textOf s) = s := by
  rw [units, textOf, String.toList_ofList]
  exact flatMap_unitsOf_charsOf rfl h

/-- The order of the names is that of the texts that they are. -/
theorem utf16_textOf {s : JsString} (h : loneSurrogate none s = false) :
    utf16 (textOf s) = s.map UInt16.toNat := by
  rw [← unitsOf_eq_utf16, units_textOf h]

theorem textOf_injective {s t : JsString} (hs : loneSurrogate none s = false)
    (ht : loneSurrogate none t = false) (h : textOf s = textOf t) : s = t := by
  rw [← units_textOf hs, ← units_textOf ht, h]

@[simp] theorem textOf_units (s : String) : textOf (units s) = s := by
  rw [textOf, charsOf_units, String.ofList_toList]

@[simp] theorem loneSurrogate_units (s : String) : loneSurrogate none (units s) = false :=
  loneSurrogate_flatMap_unitsOf s.toList rfl

theorem serializeString_eq_ok_iff {s : JsString} {text : List Char} :
    serializeString path s = .ok text ↔ loneSurrogate none s = false ∧ text = quote (textOf s) := by
  rw [serializeString]
  split
  case isTrue hlone => simp [hlone]
  case isFalse hlone =>
    rw [Except.ok.injEq]
    exact ⟨fun h ↦ ⟨by simpa using hlone, h.symm⟩, fun h ↦ h.2.symm⟩

/-! ### What has a canonical text -/

/-- What keeps the names keeps the order. -/
theorem sortKeys_map {β γ : Type} {ms : List (JsString × β)} (f : JsString × β → JsString × γ)
    (hf : ∀ m, (f m).1 = m.1) : sortKeys (ms.map f) = (sortKeys ms).map f := by
  refine (List.map_insertionSort
    (fun a b : JsString × β ↦ a.1.map UInt16.toNat ≤ b.1.map UInt16.toNat)
    (fun a b : JsString × γ ↦ a.1.map UInt16.toNat ≤ b.1.map UInt16.toNat) f ms ?_).symm
  intro a _ b _
  rw [hf, hf]

/-- The names stand in the same order as texts. -/
theorem sortMembers_map {β γ : Type} {ms : List (JsString × β)} {f : JsString × β → String × γ}
    (hf : ∀ m ∈ ms, utf16 (f m).1 = m.1.map UInt16.toNat) :
    Audit.sortMembers (ms.map f) = (sortKeys ms).map f := by
  refine (List.map_insertionSort
    (fun a b : JsString × β ↦ a.1.map UInt16.toNat ≤ b.1.map UInt16.toNat)
    (fun a b : String × γ ↦ utf16 a.1 ≤ utf16 b.1) f ms ?_).symm
  intro a ha b hb
  rw [hf a ha, hf b hb]

/-- Everything of a list is written where each part is. -/
theorem mapM_eq_ok_iff {α β ε : Type} {f : α → Except ε β} {p : α → Prop} {g : α → β}
    {xs : List α} {ys : List β} (h : ∀ x ∈ xs, ∀ y, f x = .ok y ↔ p x ∧ y = g x) :
    xs.mapM f = .ok ys ↔ (∀ x ∈ xs, p x) ∧ ys = xs.map g := by
  induction xs generalizing ys with
  | nil => simp [pure, Except.pure, eq_comm]
  | cons x xs ih =>
    have ih : ∀ ys, xs.mapM f = .ok ys ↔ (∀ x ∈ xs, p x) ∧ ys = xs.map g :=
      fun _ ↦ ih fun y hy ↦ h y (List.mem_cons_of_mem _ hy)
    simp only [List.mapM_cons, bind_eq_ok_iff, pure_eq_ok_iff, h x List.mem_cons_self, ih,
      List.forall_mem_cons, List.map_cons]
    constructor
    · rintro ⟨y, ⟨hx, rfl⟩, ys, ⟨hxs, rfl⟩, rfl⟩
      exact ⟨⟨hx, hxs⟩, rfl⟩
    · rintro ⟨⟨hx, hxs⟩, rfl⟩
      exact ⟨_, ⟨hx, rfl⟩, _, ⟨hxs, rfl⟩, rfl⟩

/-- The texts of the sorted members, in the order of the members' own names. -/
theorem memberTexts_jsonMembers (h : areJsonMembers members = true) :
    Audit.memberTexts (Audit.sortMembers (Audit.sortedMembers (jsonMembers members))) =
      (sortKeys (present members)).map fun m ↦ memberText (textOf m.1, m.2.json.sorted.text) := by
  have hnames := areJsonMembers_iff.mp h
  have hmembers : Audit.sortedMembers (jsonMembers members) =
      (present members).map fun m ↦ (textOf m.1, m.2.json.sorted) := by
    rw [jsonMembers_eq_map, Audit.sortedMembers_eq_map, List.map_map]
    rfl
  have hsort : Audit.sortMembers ((present members).map fun m ↦ (textOf m.1, m.2.json.sorted)) =
      (sortKeys (present members)).map fun m ↦ (textOf m.1, m.2.json.sorted) :=
    sortMembers_map fun m hm ↦ utf16_textOf (hnames m hm).1
  rw [hmembers, hsort, Audit.memberTexts_eq_map, List.map_map]
  exact List.map_congr_left fun m _ ↦ by rw [Function.comp_apply]

theorem serialize_eq_ok_iff {v : JsValue} {text : List Char} :
    serialize path v = .ok text ↔ v.isJson = true ∧ text = v.json.sorted.text := by
  induction v using JsValue.induction generalizing path text with
  | undefined => simp [serialize, JsValue.isJson]
  | null => simp [serialize, JsValue.isJson, JsValue.json, Json.sorted, Json.text, eq_comm]
  | bool b =>
    rw [serialize, Except.ok.injEq]
    exact ⟨fun h ↦ ⟨rfl, h.symm⟩, fun h ↦ h.2.symm⟩
  | nan => simp [serialize, JsValue.isJson]
  | num x =>
    cases x <;> simp [serialize, JsValue.isJson, JsValue.json, Json.sorted, Json.text, eq_comm]
  | str s =>
    rw [serialize, serializeString_eq_ok_iff]
    simp [JsValue.isJson, JsValue.json, Json.sorted, Json.text]
  | arr items ih =>
    have hitems : ∀ (index : ℕ) (texts : List (List Char)),
        serializeItems path index items = .ok texts ↔
          areJson items = true ∧ texts = Audit.itemTexts (Audit.sortedItems (jsonItems items)) := by
      induction items with
      | nil =>
        intro index texts
        simp [serializeItems, areJson, jsonItems, Audit.sortedItems, Audit.itemTexts, eq_comm]
      | cons item items ihitems =>
        intro index texts
        cases item with
        | none => simp [serializeItems, areJson]
        | some v =>
          have hv : ∀ path text, serialize path v = .ok text ↔
              v.isJson = true ∧ text = v.json.sorted.text := fun _ _ ↦ ih v List.mem_cons_self
          have hrest := ihitems fun w hw ↦ ih w (List.mem_cons_of_mem _ hw)
          simp only [serializeItems, bind_eq_ok_iff, pure_eq_ok_iff, hv, hrest, areJson,
            Bool.and_eq_true, jsonItems, Audit.sortedItems, Audit.itemTexts]
          constructor
          · rintro ⟨_, ⟨hjson, rfl⟩, _, ⟨hrest, rfl⟩, rfl⟩
            exact ⟨⟨hjson, hrest⟩, rfl⟩
          · rintro ⟨⟨hjson, hrest⟩, rfl⟩
            exact ⟨_, ⟨hjson, rfl⟩, _, ⟨hrest, rfl⟩, rfl⟩
    simp only [serialize, bind_eq_ok_iff, pure_eq_ok_iff, hitems, JsValue.isJson, JsValue.json,
      Json.sorted, Json.text]
    constructor
    · rintro ⟨_, ⟨hjson, rfl⟩, rfl⟩
      exact ⟨hjson, rfl⟩
    · rintro ⟨hjson, rfl⟩
      exact ⟨_, ⟨hjson, rfl⟩, rfl⟩
  | obj prototype members ih =>
    cases prototype with
    | parsed => simp [serialize, JsValue.isJson]
    | foreign => simp [serialize, JsValue.isJson]
    | plain =>
      have hsort : sortKeys (serializeMembers path members) =
          (sortKeys (present members)).map fun m ↦
            (m.1, serialize (path ++ units "." ++ m.1) m.2) := by
        rw [serializeMembers_eq_map]
        exact sortKeys_map _ fun _ ↦ rfl
      have hmem : ∀ m ∈ sortKeys (present members), m ∈ members := fun m hm ↦
        List.mem_of_mem_filter (Table.mem_orderBy.mp hm)
      have hwrite : ∀ m ∈ sortKeys (present members), ∀ text,
          (do
            let key ← serializeString path m.1
            let text ← serialize (path ++ units "." ++ m.1) m.2
            return key ++ ':' :: text) = .ok text ↔
          (loneSurrogate none m.1 = false ∧ m.2.isJson = true) ∧
            text = memberText (textOf m.1, m.2.json.sorted.text) := by
        intro m hm text
        simp only [bind_eq_ok_iff, pure_eq_ok_iff, serializeString_eq_ok_iff, ih m (hmem m hm)]
        constructor
        · rintro ⟨_, ⟨hkey, rfl⟩, _, ⟨hjson, rfl⟩, rfl⟩
          exact ⟨⟨hkey, hjson⟩, rfl⟩
        · rintro ⟨⟨hkey, hjson⟩, rfl⟩
          exact ⟨_, ⟨hkey, rfl⟩, _, ⟨hjson, rfl⟩, rfl⟩
      have hall : areJsonMembers members = true ↔ ∀ m ∈ sortKeys (present members),
          loneSurrogate none m.1 = false ∧ m.2.isJson = true := by
        rw [areJsonMembers_iff]
        exact forall_congr' fun m ↦ imp_congr_left Table.mem_orderBy.symm
      simp only [serialize, hsort, bind_eq_ok_iff, pure_eq_ok_iff, List.mapM_map,
        JsValue.isJson, JsValue.json, Json.sorted, Json.text]
      constructor
      · rintro ⟨texts, hmap, rfl⟩
        obtain ⟨hjson, rfl⟩ := (mapM_eq_ok_iff hwrite).mp hmap
        have hjson := hall.mpr hjson
        exact ⟨hjson, by rw [memberTexts_jsonMembers hjson]⟩
      · rintro ⟨hjson, rfl⟩
        exact ⟨_, (mapM_eq_ok_iff hwrite).mpr ⟨hall.mp hjson, rfl⟩, by rw [memberTexts_jsonMembers hjson]⟩
  | other type => simp [serialize, JsValue.isJson]

end QAuth.Approvals
