import QAuth.Foundation.Words

/-!
# Scopes and audiences

The scope names, audiences and reserved namespaces the token endpoint decides by: the `scope`
parameter and claim (`validateScopes`, `audToArray` in `routes/oauth/token.ts`), the admin scopes
(`helpers/admin-scopes.ts`), the scopes of the account and developer APIs
(`api-conventions/families.ts`), the agent modes (`helpers/scope-modes.ts`) and the reserved
namespaces `qauth:` and `urn:qauth:aud:` (`shared/validation`).

A scope name is a nonempty string without white space: every list of scopes the server stores was
split out of a `scope` parameter, so a name with a blank in it cannot be built here. A `scope`
claim is the names joined by blanks, and reading it gives the same names (`splitScopes_join`).
-/

namespace QAuth.Token

/-! ### Scope names and the strings that carry them -/

/-- What the pattern `\s` matches. -/
def isWhiteSpace (c : Char) : Bool :=
  c = ' ' || ('\t' ≤ c && c ≤ '\r') || c = '\u00a0' || c = '\u1680' ||
    ('\u2000' ≤ c && c ≤ '\u200a') || c = '\u2028' || c = '\u2029' || c = '\u202f' ||
    c = '\u205f' || c = '\u3000' || c = '\ufeff'

/-- A scope name: nonempty and without white space. -/
structure Scope where
  name : String
  isWord : Words.IsWord isWhiteSpace name.toList
deriving DecidableEq

theorem Scope.ext_iff' {s t : Scope} : s = t ↔ s.name = t.name := by
  cases s
  cases t
  simp

/-- `scope.split(/\s+/)` without its empty parts. -/
def splitScopes (scope : String) : List Scope :=
  (Words.split isWhiteSpace scope.toList).pmap
    (fun w hw ↦ ⟨String.ofList w, by rw [String.toList_ofList]; exact hw⟩)
    fun _ hw ↦ Words.isWord_of_mem_split hw

/-- `scopes.join(' ')`. -/
def joinScopes (scopes : List Scope) : String :=
  String.ofList (Words.join ' ' (scopes.map fun s ↦ s.name.toList))

/-- Reading a list of scopes that was joined by blanks gives the list back. -/
theorem splitScopes_join (scopes : List Scope) : splitScopes (joinScopes scopes) = scopes := by
  have hsplit : Words.split isWhiteSpace (joinScopes scopes).toList =
      scopes.map fun s ↦ s.name.toList := by
    rw [joinScopes, String.toList_ofList]
    refine Words.split_join rfl fun w hw ↦ ?_
    obtain ⟨s, -, rfl⟩ := List.mem_map.mp hw
    exact s.isWord
  refine List.map_injective_iff.mpr (fun s t h ↦ Scope.ext_iff'.mpr h) ?_
  show (splitScopes (joinScopes scopes)).map Scope.name = scopes.map Scope.name
  rw [splitScopes, List.map_pmap, List.pmap_eq_map, hsplit, List.map_map]
  simp [Function.comp_def]

theorem joinScopes_nil : joinScopes [] = "" := rfl

/-! ### The reserved `qauth:` namespace -/

/-- A lower case prefix, matched without regard to the case of ASCII letters (`/^…/i`). -/
def startsWithIgnoringCase (pattern : String) (l : List Char) : Bool :=
  (l.take pattern.toList.length).map Char.toLower = pattern.toList

/-- `isReservedQauthScope`: `/^qauth:/i`. -/
def isReservedQauthScope (scope : Scope) : Bool :=
  startsWithIgnoringCase "qauth:" scope.name.toList

/-- `PERMISSION_CLASSES`. -/
inductive PermissionClass
  | read | write | security
deriving DecidableEq

/-- `ADMIN_SCOPES`. -/
def PermissionClass.adminScope : PermissionClass → Scope
  | .read => ⟨"qauth:admin:read", by decide⟩
  | .write => ⟨"qauth:admin:write", by decide⟩
  | .security => ⟨"qauth:admin:security", by decide⟩

/-- `permissionClassOfScope`: the class an admin scope allows, by exact match. -/
def permissionClassOfScope (scope : Scope) : Option PermissionClass :=
  [.read, .write, .security].find? fun c ↦ c.adminScope = scope

/-- `isAdminScope`: one of the three admin scopes, exactly. -/
def isAdminScope (scope : Scope) : Bool := (permissionClassOfScope scope).isSome

theorem isAdminScope_iff {scope : Scope} :
    isAdminScope scope = true ↔ ∃ c : PermissionClass, scope = c.adminScope := by
  rw [isAdminScope, permissionClassOfScope, List.find?_isSome]
  constructor
  · rintro ⟨c, -, h⟩
    exact ⟨c, (of_decide_eq_true h).symm⟩
  · rintro ⟨c, rfl⟩
    exact ⟨c, by cases c <;> simp, by simp⟩

theorem isReservedQauthScope_of_isAdminScope {scope : Scope} (h : isAdminScope scope = true) :
    isReservedQauthScope scope = true := by
  obtain ⟨c, rfl⟩ := isAdminScope_iff.mp h
  cases c <;> decide

/-! ### The API families -/

/-- `API_FAMILIES`. -/
inductive ApiFamily
  | admin | account | developer

/-- `API_FAMILY_AUDIENCES`. -/
def ApiFamily.audience : ApiFamily → String
  | .admin => "urn:qauth:aud:admin:v1-rc.0"
  | .account => "urn:qauth:aud:account:v1-rc.0"
  | .developer => "urn:qauth:aud:developer:v1-rc.0"

/-- A scope of the account or developer API: its family and the class it reaches. -/
inductive FamilyScope
  | accountRead | accountWrite | developerRead | developerWrite

/-- `API_FAMILY_SCOPES`. -/
def FamilyScope.scope : FamilyScope → Scope
  | .accountRead => ⟨"qauth:account:read", by decide⟩
  | .accountWrite => ⟨"qauth:account:write", by decide⟩
  | .developerRead => ⟨"qauth:developer:read", by decide⟩
  | .developerWrite => ⟨"qauth:developer:write", by decide⟩

/-- The family a scope of `API_FAMILY_SCOPES` belongs to. -/
def FamilyScope.family : FamilyScope → ApiFamily
  | .accountRead | .accountWrite => .account
  | .developerRead | .developerWrite => .developer

/-- `familyScopeOf`: the family and class a scope reaches, by exact match. -/
def familyScopeOf (scope : Scope) : Option FamilyScope :=
  [.accountRead, .accountWrite, .developerRead, .developerWrite].find? fun f ↦ f.scope = scope

theorem familyScopeOf_eq_none_of_isAdminScope {scope : Scope} (h : isAdminScope scope = true) :
    familyScopeOf scope = none := by
  obtain ⟨c, rfl⟩ := isAdminScope_iff.mp h
  cases c <;> decide

/-! ### Audiences -/

/-- The value of an `aud` claim: one string, or a list of them. -/
inductive Audience
  | one (value : String)
  | many (values : List String)
deriving DecidableEq

/-- `audToArray`, and `[aud].flat()`. -/
def Audience.values : Audience → List String
  | .one value => [value]
  | .many values => values

/-- `arrayToAud`: a single value stands alone. -/
def arrayToAud (values : List String) : Audience :=
  match values with
  | [value] => .one value
  | _ => .many values

@[simp] theorem values_arrayToAud (values : List String) : (arrayToAud values).values = values := by
  match values with
  | [] => rfl
  | [_] => rfl
  | _ :: _ :: _ => rfl

def Audience.namesAdmin (aud : Audience) : Bool := aud.values.contains ApiFamily.admin.audience

/-- `isReservedAudience`: `/^\s*urn:qauth:aud:/i`. -/
def isReservedAudience (value : String) : Bool :=
  startsWithIgnoringCase "urn:qauth:aud:" (value.toList.dropWhile isWhiteSpace)

/-! ### Agent modes -/

/-- `AGENT_MODES`. -/
inductive AgentMode
  | readonly | admin | exec

/-- `AGENT_MODE_RANK`. -/
def AgentMode.rank : AgentMode → ℕ
  | .readonly => 1
  | .admin => 2
  | .exec => 3

/-- `AGENT_MODE_SCOPES`. -/
def AgentMode.scope : AgentMode → Scope
  | .readonly => ⟨"agent:readonly", by decide⟩
  | .admin => ⟨"agent:admin", by decide⟩
  | .exec => ⟨"agent:exec", by decide⟩

/-- `parseAgentMode`: fails closed for anything that is no mode. -/
def parseAgentMode : Option String → Option AgentMode
  | some "readonly" => some .readonly
  | some "admin" => some .admin
  | some "exec" => some .exec
  | _ => none

/-- `agentModeForScope`. -/
def agentModeForScope (scope : Scope) : Option AgentMode :=
  [.readonly, .admin, .exec].find? fun m ↦ m.scope = scope

/-- `isModeWithinCap`: no cap permits nothing. -/
def isModeWithinCap (mode : AgentMode) : Option AgentMode → Bool
  | none => false
  | some cap => mode.rank ≤ cap.rank

/-- `findExceedingAgentScopes`: the agent mode scopes a client may not hold. -/
def findExceedingAgentScopes (scopes : List Scope) (isAgent : Bool) (cap : Option AgentMode) :
    List Scope :=
  scopes.filter fun scope ↦
    match agentModeForScope scope with
    | none => false
    | some mode => !isAgent || !isModeWithinCap mode cap

end QAuth.Token
