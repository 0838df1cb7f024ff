import QAuth.Policy.Layout
import QAuth.Policy.Upgrades

/-!
# The policy store

`createPolicyStore` of `policy-store.ts`: the policies of each realm as one document, and the updates
of it. An update patches the document as this release reads it, runs the rules on the result, and
writes the document and the secrets of the patch in one transaction.
-/

namespace QAuth.Policy

open Guards Json

/-- The members of an object. -/
abbrev Members := List (String × Value)

/-! ### Errors -/

/-- One thing that is wrong with a document. -/
structure PolicyIssue where
  path : String
  message : String
deriving DecidableEq

/-- Why the store refuses. -/
inductive PolicyStoreError
  | type (message : String)
  | validation (message : String) (issues : List PolicyIssue)
  /-- The registry parses no value in the view. -/
  | unparsed (view : PolicyView)
  | notFound (realmId : String)
  | versionConflict (realmId : String) (expected : ℤ) (current : Option ℕ)
  | schemaVersion (realmId : String) (stored : Option String) (reason : String)
  | secretStoreUnavailable (paths : List String)
  | definition (error : PolicyDefinitionError)
  | upgrades (error : UpgradeError)

/-! ### Records and rules -/

/-- The stored policies of a realm. -/
structure RealmPolicyRecord where
  /-- The policy counter: 0 while the realm has no policies. -/
  version : ℕ
  schemaVersion : Option String
  document : Members
  /-- What the fill of a realm without policies keeps of its row. -/
  keptOnFill : Members

/-- A realm's policies as they read at one counter. -/
structure RealmPolicySnapshot where
  realmId : String
  version : ℕ
  hasPolicies : Bool
  schemaVersion : String
  policies : Value

/-- What an update does to a secret: a value is given, or none is left. -/
structure SecretWrite where
  path : String
  value : Option String

/-- What an update does to a secret it names. -/
inductive SecretChange
  | set
  | cleared
deriving DecidableEq

/-- What a rule may ask beside the document. -/
structure PolicyRuleContext where
  isSet : String → Except PolicyStoreError Bool
  previous : Value
  wasSet : String → Except PolicyStoreError Bool
  written : String → Option SecretChange

/-- The issues a rule finds in a document. -/
abbrev PolicyRule := Value → PolicyRuleContext → Except PolicyStoreError (List PolicyIssue)

/-- A step from one schema version to a later one; it may give no document. -/
abbrev DocumentUpgrade := PolicySchemaUpgrade (Option Value)

/-- A policy store: the registry of its groups, the paths of its upgrades, its rules and its seeds. -/
structure PolicyStore where
  groups : List (String × List (String × Shape))
  registry : PolicyRegistry
  registered : Registered groups registry
  version : String
  upgradePaths : List (String × List DocumentUpgrade)
  rules : List PolicyRule
  seeds : Value
  /-- There is a store of the realms' secrets. -/
  secrets : Bool

def createPolicyStore (groups : List (String × List (String × Shape))) (version : String)
    (upgrades : List DocumentUpgrade) (rules : List PolicyRule) (seeds : Value) (secrets : Bool) :
    Except PolicyStoreError PolicyStore :=
  match h : registerAll groups with
  | .error e => .error (.definition e)
  | .ok registry => do
    let upgradePaths ← (upgradePathsTo upgrades version).mapError .upgrades
    let seeds ← require (registry.parse .document seeds) (.unparsed .document)
    .ok {
      groups, registry, version, upgradePaths, rules, seeds, secrets
      registered := registered_of_registerAll h }

/-- What is stored of every realm. -/
structure StoreState where
  records : String → Option RealmPolicyRecord
  /-- The secrets of a realm, at the paths of their fields. -/
  secrets : String → String → Option String

/-! ### Documents -/

mutual

def mergePatch (target : Option Value) (path : List String) : Value → Except PolicyStoreError Value
  | .obj patch => do
    let members ← mergePatchMembers (membersOf target) path patch
    .ok (.obj members)
  | v => .ok v

def mergePatchMembers (result : Members) (path : List String) :
    List (String × Value) → Except PolicyStoreError Members
  | [] => .ok result
  | (name, value) :: rest => do
    refuseIf (name = "__proto__")
      (.validation "The policy patch is not valid"
        [⟨pathOf (path ++ [name]), "is not a member of the realm policies"⟩])
    if value = .null then mergePatchMembers (result.filter (·.1 ≠ name)) path rest
    else do
      let merged ← mergePatch (result.lookup name) (path ++ [name]) value
      mergePatchMembers (setMember result name merged) path rest

end

namespace PolicyRegistry

/-- The field at a dotted path. -/
def fieldAt (registry : PolicyRegistry) (path : String) : Option RegisteredPolicyField :=
  registry.entries.find? fun entry ↦ entry.path = path

/-- A group is at a dotted path: some names, not all, of the way to a field. -/
def hasGroupAt (registry : PolicyRegistry) (path : String) : Bool :=
  registry.entries.any fun entry ↦
    (List.range' 1 (entry.segments.length - 1)).any fun depth ↦
      pathOf (entry.segments.take depth) = path

def secretFields (registry : PolicyRegistry) : List RegisteredPolicyField :=
  registry.entries.filter (·.field.secret)

end PolicyRegistry

mutual

/-- The members of an object that the registry does not know, at their paths, and what is wrong. -/
def walkUnknown (registry : PolicyRegistry) (above : List String) :
    List (String × Value) → List PolicyIssue × List (List String × Value)
  | [] => ([], [])
  | (name, value) :: rest =>
    let here := walkMember registry (above ++ [name]) name value
    let others := walkUnknown registry above rest
    (here.1 ++ others.1, here.2 ++ others.2)

def walkMember (registry : PolicyRegistry) (segments : List String) (name : String) (value : Value) :
    List PolicyIssue × List (List String × Value) :=
  let path := pathOf segments
  if name = "__proto__" then ([⟨path, "is not a member name the realm policies can hold"⟩], [])
  else
    match registry.fieldAt path with
    | some entry =>
      (if entry.field.secret then
        [⟨path, "holds a value of a secret field, which is never stored in the policies"⟩]
      else [], [])
    | none =>
      if registry.hasGroupAt path then
        match value with
        | .obj members => walkUnknown registry segments members
        | _ => ([⟨path, "is a group of the realm policies, so an object"⟩], [])
      else ([], [(segments, value)])

end

/-- The members of a stored document that this release does not know. -/
def unknownMembersOf (registry : PolicyRegistry) (document : Members) :
    Except PolicyStoreError Members := do
  let walked := walkUnknown registry [] document
  refuseIf (walked.1 ≠ []) (.validation "The stored realm policies are not valid" walked.1)
  .ok (walked.2.foldl (fun unknown found ↦ setAt unknown found.1 found.2) [])

mutual

/-- A value as its text has it, where zero has no sign. -/
def asText : Value → Json.Value ℚ
  | .null => .null
  | .bool b => .bool b
  | .num x => .num x.toRat
  | .str s => .str s
  | .arr items => .arr (itemsAsText items)
  | .obj members => .obj (membersAsText members)

/-- `asText` of the items of a list. -/
def itemsAsText : List Value → List (Json.Value ℚ)
  | [] => []
  | v :: vs => asText v :: itemsAsText vs

/-- `asText` of the members of an object. -/
def membersAsText : List (String × Value) → List (String × Json.Value ℚ)
  | [] => []
  | (name, v) :: rest => (name, asText v) :: membersAsText rest

end

/-- The items whose text none before them has. -/
def firstItems (seen : List (Json.Value ℚ)) : List Value → List Value
  | [] => []
  | v :: vs =>
    if asText v ∈ seen then firstItems seen vs else v :: firstItems (asText v :: seen) vs

/-- A list with its repeats dropped. -/
def withoutRepeats : Value → Value
  | .arr items => .arr (firstItems [] items)
  | v => v

/-! ### What a record stands for -/

/-- A realm's policies, and the members of its document this release does not know. -/
structure EffectivePolicies where
  document : Value
  unknown : Members

namespace PolicyStore

variable (store : PolicyStore)

/-- Where a stored document stands against the store's schema version. -/
inductive Standing
  | current
  | older (steps : List DocumentUpgrade)
  | newer
  | noUpgrade

def standingOf (record : RealmPolicyRecord) : Standing :=
  if record.version = 0 ∨ record.schemaVersion = some store.version then .current
  else
    match record.schemaVersion with
    | none => .noUpgrade
    | some stored =>
      if isPolicySchemaVersion stored = false then .noUpgrade
      else if compareSchemaVersions stored store.version = some .gt then .newer
      else
        match store.upgradePaths.lookup stored with
        | none => .noUpgrade
        | some steps => .older steps

def unreadable (message : String) : PolicyStoreError :=
  .validation "The stored realm policies cannot be read" [⟨"", message⟩]

def upgraded : List DocumentUpgrade → Members → Except PolicyStoreError Members
  | [], document => .ok document
  | step :: steps, document =>
    match step.upgrade.bind fun upgrade ↦ upgrade (some (.obj document)) with
    | some (.obj next) => upgraded steps next
    | _ => .error (unreadable (s!"the upgrade from schema version {step.fromVersion} to " ++
        s!"{step.toVersion} gave no policy document"))

/-- A record as this release reads it. -/
def readable (record : RealmPolicyRecord) : Except PolicyStoreError RealmPolicyRecord :=
  match store.standingOf record with
  | .noUpgrade =>
    .error (unreadable (match record.schemaVersion.filter isPolicySchemaVersion with
      | some stored => s!"follow schema version {stored}, which no upgrade to {store.version} reaches"
      | none => s!"follow no schema version, which no upgrade to {store.version} reaches"))
  | .older steps => do
    let document ← upgraded steps record.document
    .ok { record with schemaVersion := some store.version, document }
  | _ => .ok record

/-- What a field reads as: from the record, and else from its seed. -/
def chosen (record : RealmPolicyRecord) (entry : RegisteredPolicyField) : Option Value :=
  let source := if 0 < record.version then record.document else record.keptOnFill
  match (Value.obj source).at? entry.segments with
  | some value =>
    if record.version = 0 ∧ isSetDirection entry.field.direction then some (withoutRepeats value)
    else some value
  | none => store.seeds.at? entry.segments

def withField (record : RealmPolicyRecord) (document : Members) (entry : RegisteredPolicyField) :
    Members :=
  if entry.field.secret then document
  else
    match store.chosen record entry with
    | some value => setAt document entry.segments value
    | none => document

/-- The members of a record's document this release does not know; a realm without policies has
none. -/
def unknownOf (record : RealmPolicyRecord) : Except PolicyStoreError Members :=
  if 0 < record.version then unknownMembersOf store.registry record.document else .ok []

/-- The policies a record stands for. -/
def effective (record : RealmPolicyRecord) : Except PolicyStoreError EffectivePolicies := do
  let unknown ← store.unknownOf record
  let document ← require
    (store.registry.parse .document (.obj (store.registry.entries.foldl (store.withField record) [])))
    (.unparsed .document)
  .ok { document, unknown }

/-- A realm's policies now. -/
def snapshotOf (realmId : String) (stored : RealmPolicyRecord) :
    Except PolicyStoreError RealmPolicySnapshot := do
  let record ← store.readable stored
  let policies ← store.effective record
  .ok {
    realmId
    version := record.version
    hasPolicies := decide (0 < record.version)
    schemaVersion := ((if 0 < record.version then record.schemaVersion else none).getD store.version)
    policies := policies.document }

/-- A document as it goes to storage, with the unknown members carried over. -/
def storedDocument (document : Value) (unknown : Members) : Except PolicyStoreError Members := do
  let parsed ← require (store.registry.parse .document document) (.unparsed .document)
  .ok (mergeMembers (membersOf (some parsed)) unknown)

/-! ### Secrets -/

/-- What is left of a patch, what it does to secrets and what is wrong with them. -/
structure Taken where
  rest : Members
  writes : List SecretWrite
  issues : List PolicyIssue

/-- One secret field taken off a patch. -/
def takeSecret (taken : Taken) (entry : RegisteredPolicyField) : Taken :=
  match (Value.obj taken.rest).at? entry.segments with
  | none => taken
  | some value =>
    let rest := removeAt taken.rest entry.segments
    let refused : Taken := { taken with
      rest, issues := taken.issues ++
        [⟨entry.path, "is a secret: a valid value sets it, and null clears it"⟩] }
    match value with
    | .null => { taken with rest, writes := taken.writes ++ [⟨entry.path, none⟩] }
    | .str s =>
      if (entry.field.schema.safeParse (.str s)).isSome then
        { taken with rest, writes := taken.writes ++ [⟨entry.path, some s⟩] }
      else refused
    | _ => refused

def takeSecrets (patch : Members) : Except PolicyStoreError (Members × List SecretWrite) := do
  let taken := store.registry.secretFields.foldl takeSecret ⟨patch, [], []⟩
  refuseIf (taken.issues ≠ []) (.validation "The policy patch is not valid" taken.issues)
  .ok (taken.rest, taken.writes)

/-- What an update does to the secret at a path. -/
def writtenTo (writes : List SecretWrite) (path : String) : Option SecretChange :=
  (writes.find? fun write ↦ write.path = path).map fun write ↦
    if write.value.isSome then .set else .cleared

/-- Whether a secret is set before an update, where the store can know it. -/
def setBefore (secrets : String → Option String) (path : String) : Option Bool :=
  if store.secrets ∧ path ∈ store.registry.secretFields.map (·.path) then
    some (secrets path).isSome
  else none

/-- Whether a secret is set after an update. -/
def setAfter (secrets : String → Option String) (writes : List SecretWrite) (path : String) :
    Option Bool :=
  match writtenTo writes path with
  | some change => some (decide (change = .set))
  | none => store.setBefore secrets path

/-- What the rules ask of an update. -/
def contextOf (secrets : String → Option String) (previous : Value) (writes : List SecretWrite) :
    PolicyRuleContext where
  isSet path := require (store.setAfter secrets writes path) (.secretStoreUnavailable [path])
  previous
  wasSet path := require (store.setBefore secrets path) (.secretStoreUnavailable [path])
  written := writtenTo writes

/-- The rules on the document an update would store. -/
def checkRules (secrets : String → Option String) (previous document : Value)
    (writes : List SecretWrite) : Except PolicyStoreError Unit := do
  let issues ← store.rules.mapM fun rule ↦ rule document (store.contextOf secrets previous writes)
  refuseIf (issues.flatten ≠ []) (.validation "The realm policies are not valid" issues.flatten)

/-- The secrets after some writes. -/
def putAll (secrets : String → Option String) (writes : List SecretWrite) : String → Option String :=
  writes.foldl (fun secrets write ↦ Function.update secrets write.path write.value) secrets

/-! ### Updates -/

/-- An update as it is asked for: a patch, and the counter its caller read. -/
structure PolicyUpdate where
  realmId : String
  patch : Value
  expectedVersion : ℤ

/-- What an update would do, before its rules. -/
structure Planned where
  record : RealmPolicyRecord
  current : EffectivePolicies
  next : Value
  writes : List SecretWrite

/-- `Number.MAX_SAFE_INTEGER` -/
def MAX_SAFE_INTEGER : ℤ := 2 ^ 53 - 1

def plainObject? : Value → Option Members
  | .obj members => some members
  | _ => none

/-- Why a record's schema version cannot be written. -/
def unwritable (record : RealmPolicyRecord) : Option String :=
  match store.standingOf record with
  | .newer => some "newer"
  | .noUpgrade => some "no-upgrade"
  | _ => none

/-- The part of an update before its rules: the document it would store and the secrets it writes. -/
def plan (state : StoreState) (u : PolicyUpdate) : Except PolicyStoreError Planned := do
  refuseIf (u.expectedVersion < 0 ∨ MAX_SAFE_INTEGER < u.expectedVersion)
    (.type "expectedVersion is a whole number, 0 or more")
  let patch ← require (plainObject? u.patch)
    (.validation "The policy patch is not valid" [⟨"", "a policy patch is a JSON object"⟩])
  let (rest, writes) ← store.takeSecrets patch
  refuseIf (writes ≠ [] ∧ store.secrets = false) (.secretStoreUnavailable (writes.map (·.path)))
  let record ← require (state.records u.realmId) (.notFound u.realmId)
  refuseIf ((record.version : ℤ) ≠ u.expectedVersion)
    (.versionConflict u.realmId u.expectedVersion (some record.version))
  refuseSome ((store.unwritable record).map (.schemaVersion u.realmId record.schemaVersion ·))
  let read ← store.readable record
  let current ← store.effective read
  let merged ← mergePatch (some current.document) [] (.obj rest)
  let next ← require (store.registry.parse .input merged) (.unparsed .input)
  .ok { record, current, next, writes }

/-- The record after a write, whose version follows the one it expects. -/
def writeRecord (record : RealmPolicyRecord) (document : Members) : RealmPolicyRecord where
  version := record.version + 1
  schemaVersion := some store.version
  document
  keptOnFill := []

/-- An update in its transaction: the state it leaves and the policies it answers. -/
def update (u : PolicyUpdate) (state : StoreState) :
    Except PolicyStoreError (StoreState × RealmPolicySnapshot) := do
  let planned ← store.plan state u
  store.checkRules (state.secrets u.realmId) planned.current.document planned.next planned.writes
  let document ← store.storedDocument planned.next planned.current.unknown
  let written := store.writeRecord planned.record document
  let secrets := putAll (state.secrets u.realmId) planned.writes
  let snapshot ← store.snapshotOf u.realmId written
  .ok ({ records := Function.update state.records u.realmId (some written)
         secrets := Function.update state.secrets u.realmId secrets }, snapshot)

/-- A transaction: what its body leaves where it succeeds, and else nothing. -/
def transaction {α : Type} (body : StoreState → Except PolicyStoreError (StoreState × α))
    (state : StoreState) : StoreState × Except PolicyStoreError α :=
  match body state with
  | .ok (after, a) => (after, .ok a)
  | .error e => (state, .error e)

/-- The state after an update was asked for, and what was answered. -/
def submit (state : StoreState) (u : PolicyUpdate) :
    StoreState × Except PolicyStoreError RealmPolicySnapshot :=
  transaction (store.update u) state

/-- A realm's policies as they read now, where it has any that do. -/
def policiesOf (state : StoreState) (realmId : String) : Option Value :=
  (state.records realmId).bind fun record ↦
    (store.snapshotOf realmId record).toOption.map (·.policies)

end PolicyStore

/-! ### Plain fields -/

/-- A field that is no secret and no set, whose type takes a value as it is. -/
structure PolicyField.Plain (f : PolicyField) : Prop where
  secret : f.secret = false
  set : isSetDirection f.direction = false
  same : ∀ v w, f.schema.safeParse v = some w → w = v

namespace PolicyField.Plain

variable {f : PolicyField}

/-- The type of a field that is no secret takes its default. -/
theorem safeParse_default (h : f.Plain) : f.schema.safeParse f.default = some f.default := by
  have hchecked := f.checked
  simp only [checkDefinition, bind_eq_ok_iff] at hchecked
  obtain ⟨_, -, _, -, _, -, _, -, _, -, _, -, _, -, _, -, _, -, hplain⟩ := hchecked
  rw [if_neg (by simp [h.secret])] at hplain
  simp only [checkPlain, bind_eq_ok_iff, refuseIf_eq_ok_iff, not_not] at hplain
  obtain ⟨_, -, _, hdefault, -⟩ := hplain
  obtain ⟨parsed, hparsed, -⟩ := Option.any_eq_true _ _ |>.mp hdefault
  rw [hparsed, h.same _ _ hparsed]

/-- What a plain field reads is a value, which it reads again. -/
theorem fieldSchema_again (h : f.Plain) {given read : Option Value}
    (hread : fieldSchema f given = some read) :
    ∃ v, read = some v ∧ fieldSchema f (some v) = some (some v) := by
  have hsome {v : Value} (hv : f.schema.safeParse v = some v) :
      fieldSchema f (some v) = some (some v) := by
    simp [fieldSchema, h.secret, baseSchema, hv, h.set]
  cases given with
  | none =>
    obtain rfl : some f.default = read := by simpa [fieldSchema, h.secret] using hread
    exact ⟨f.default, rfl, hsome h.safeParse_default⟩
  | some w =>
    simp only [fieldSchema, h.secret, Bool.false_and, Bool.false_eq_true, if_false,
      Option.map_eq_some_iff, baseSchema] at hread
    obtain ⟨v, hv, rfl⟩ := hread
    have hparsed : f.schema.safeParse w = some v := (Option.filter_eq_some_iff.mp hv).1
    obtain rfl := h.same w v hparsed
    exact ⟨v, rfl, hsome hparsed⟩

end PolicyField.Plain

/-! ### The unknown members of a document -/

variable {registry : PolicyRegistry}

theorem PolicyRegistry.fieldAt_ne_none {e : RegisteredPolicyField} (he : e ∈ registry.entries) :
    registry.fieldAt (pathOf e.segments) ≠ none := by
  rw [PolicyRegistry.fieldAt, Ne, List.find?_eq_none]
  intro h
  exact h e he (decide_eq_true rfl)

theorem PolicyRegistry.hasGroupAt_take {e : RegisteredPolicyField} (he : e ∈ registry.entries)
    {n : ℕ} (hpos : 0 < n) (hlt : n < e.segments.length) :
    registry.hasGroupAt (pathOf (e.segments.take n)) = true := by
  rw [PolicyRegistry.hasGroupAt, List.any_eq_true]
  refine ⟨e, he, List.any_eq_true.mpr ⟨n, ?_, decide_eq_true rfl⟩⟩
  rw [List.mem_range'_1]
  omega

/-- Where an unknown member lies: at no group, and past no field below where a walk began. -/
structure FoundBelow (registry : PolicyRegistry) (above found : List String) : Prop where
  below : above <+: found
  group : registry.hasGroupAt (pathOf found) = false
  field : ∀ q, above <+: q → q ≠ above → q <+: found → registry.fieldAt (pathOf q) = none

theorem mem_walkMember {segments : List String} {name : String} {value : Value}
    {found : List String × Value} (h : found ∈ (walkMember registry segments name value).2) :
    registry.fieldAt (pathOf segments) = none ∧
      ((∃ members, value = .obj members ∧ found ∈ (walkUnknown registry segments members).2) ∨
        registry.hasGroupAt (pathOf segments) = false ∧ found = (segments, value)) := by
  rw [walkMember.eq_def] at h
  by_cases hname : name = "__proto__"
  · simp [hname] at h
  · simp only [if_neg hname] at h
    cases hfield : registry.fieldAt (pathOf segments) with
    | some entry => simp [hfield] at h
    | none =>
      simp only [hfield] at h
      refine ⟨rfl, ?_⟩
      cases hgroup : registry.hasGroupAt (pathOf segments) with
      | false =>
        rw [hgroup, if_neg Bool.false_ne_true] at h
        exact .inr ⟨rfl, List.mem_singleton.mp h⟩
      | true =>
        rw [hgroup, if_pos rfl] at h
        cases value with
        | obj members => exact .inl ⟨members, rfl, h⟩
        | _ => simp at h

mutual

theorem foundBelow_of_walkUnknown {above : List String} :
    ∀ {members : List (String × Value)} {found : List String × Value},
      found ∈ (walkUnknown registry above members).2 →
        FoundBelow registry above found.1 ∧ above ≠ found.1
  | [], found, h => by
    simp [walkUnknown] at h
  | (name, value) :: rest, found, h => by
    rw [walkUnknown] at h
    obtain h | h := List.mem_append.mp h
    · obtain ⟨hfound, hhere⟩ := foundBelow_of_walkMember h
      have hlength := hfound.below.length_le
      rw [List.length_append, List.length_singleton] at hlength
      refine ⟨⟨(List.prefix_append above [name]).trans hfound.below, hfound.group, ?_⟩, ?_⟩
      · rintro q hq hne hqfound
        by_cases heq : q = above ++ [name]
        · rw [heq, hhere]
        · refine hfound.field q ?_ heq hqfound
          refine List.prefix_of_prefix_length_le hfound.below hqfound ?_
          have hlt : above.length < q.length :=
            lt_of_le_of_ne hq.length_le fun hl ↦ hne (hq.eq_of_length hl).symm
          simp
          omega
      · rintro rfl
        omega
    · exact foundBelow_of_walkUnknown h

theorem foundBelow_of_walkMember {segments : List String} {name : String} :
    ∀ {value : Value} {found : List String × Value},
      found ∈ (walkMember registry segments name value).2 →
        FoundBelow registry segments found.1 ∧ registry.fieldAt (pathOf segments) = none
  | value, found, h => by
    obtain ⟨hfield, ⟨members, hvalue, hmem⟩ | ⟨hgroup, rfl⟩⟩ := mem_walkMember h
    · exact ⟨(foundBelow_of_walkUnknown hmem).1, hfield⟩
    · refine ⟨⟨List.prefix_rfl, hgroup, ?_⟩, hfield⟩
      rintro q hq hne hqfound
      exact absurd (hqfound.eq_of_length_le hq.length_le) hne

end

/-- An unknown member lies apart from every field. -/
theorem FoundBelow.apart {found : List String} (h : FoundBelow registry [] found) (hne : [] ≠ found)
    {e : RegisteredPolicyField} (he : e ∈ registry.entries) : Apart found e.segments := by
  refine ⟨fun hstarts ↦ ?_, fun hstarts ↦ ?_⟩
  · have htake : found = e.segments.take found.length := List.prefix_iff_eq_take.mp hstarts
    have hpos : 0 < found.length := List.length_pos_of_ne_nil hne.symm
    by_cases hlt : found.length < e.segments.length
    · have hgroup := PolicyRegistry.hasGroupAt_take he hpos hlt
      rw [← htake, h.group] at hgroup
      cases hgroup
    · have heq : found = e.segments := hstarts.eq_of_length_le (not_lt.mp hlt)
      exact PolicyRegistry.fieldAt_ne_none he
        (heq ▸ h.field found List.nil_prefix hne.symm List.prefix_rfl)
  · exact PolicyRegistry.fieldAt_ne_none he
      (h.field e.segments List.nil_prefix (segments_ne_nil he) hstarts)

theorem avoids_unknownMembersOf {document unknown : Members}
    (h : unknownMembersOf registry document = .ok unknown) {e : RegisteredPolicyField}
    (he : e ∈ registry.entries) : Avoids e.segments unknown := by
  simp only [unknownMembersOf, bind_eq_ok_iff] at h
  obtain ⟨_, -, h⟩ := h
  cases h
  have hfold : ∀ (found : List (List String × Value)) (members : Members),
      (∀ f ∈ found, Apart f.1 e.segments) → Avoids e.segments members →
        Avoids e.segments (found.foldl (fun unknown f ↦ setAt unknown f.1 f.2) members) := by
    intro found
    induction found with
    | nil => exact fun _ _ hmembers ↦ hmembers
    | cons f rest ih =>
      rintro members hfound hmembers
      refine ih _ (fun g hg ↦ hfound g (List.mem_cons_of_mem _ hg)) ?_
      exact hmembers.setAt (hfound f List.mem_cons_self)
  refine hfold _ _ (fun f hf ↦ ?_) (Avoids.empty (segments_ne_nil he))
  obtain ⟨hbelow, hne⟩ := foundBelow_of_walkUnknown hf
  exact hbelow.apart hne he

namespace PolicyStore

variable {store : PolicyStore} {e : RegisteredPolicyField}

/-! ### What a plain field reads as -/

/-- The document built of the fields of a record holds what each of them reads as. -/
theorem at?_foldl_withField {record : RealmPolicyRecord} {value : Value}
    (he : e ∈ store.registry.entries) (hsecret : e.field.secret = false)
    (hvalue : store.chosen record e = some value) :
    (Value.obj (store.registry.entries.foldl (store.withField record) [])).at? e.segments =
      some value := by
  have hkeep {document : Members} {d : RegisteredPolicyField} (hd : d ∈ store.registry.entries)
      (hdocument : (Value.obj document).at? e.segments = some value) :
      (Value.obj (store.withField record document d)).at? e.segments = some value := by
    rw [withField]
    split_ifs
    · exact hdocument
    · split
      · rename_i w hw
        obtain rfl | hapart := Node.entries_apart store.registry.wellNamed hd he
        · obtain rfl : w = value := Option.some.inj (hw.symm.trans hvalue)
          exact at?_setAt_self (segments_ne_nil he)
        · rw [at?_setAt_of_apart hapart, hdocument]
      · exact hdocument
  have hfold : ∀ (entries : List RegisteredPolicyField) (document : Members),
      (∀ d ∈ entries, d ∈ store.registry.entries) →
      e ∈ entries ∨ (Value.obj document).at? e.segments = some value →
        (Value.obj (entries.foldl (store.withField record) document)).at? e.segments =
          some value := by
    intro entries
    induction entries with
    | nil => exact fun document _ h ↦ h.resolve_left List.not_mem_nil
    | cons d rest ih =>
      rintro document hin h
      refine ih _ (fun x hx ↦ hin x (List.mem_cons_of_mem _ hx)) ?_
      obtain h | h := h
      · obtain rfl | h := List.mem_cons.mp h
        · right
          rw [withField, if_neg (by simp [hsecret]), hvalue]
          exact at?_setAt_self (segments_ne_nil he)
        · exact .inl h
      · exact .inr (hkeep (hin d List.mem_cons_self) h)
  exact hfold _ [] (fun d hd ↦ hd) (.inl he)

theorem at?_of_parse_plain {view : PolicyView} {given parsed : Value}
    (h : store.registry.parse view given = some parsed) (he : e ∈ store.registry.entries)
    (hplain : e.field.Plain) :
    ∃ v, parsed.at? e.segments = some v ∧ fieldSchema e.field (some v) = some (some v) ∧
      fieldSchema e.field (given.at? e.segments) = some (some v) := by
  have hjoin : (Node.group store.registry.roots).parse view (some given) = some (some parsed) := by
    rw [PolicyRegistry.parse] at h
    exact Option.join_eq_some_iff.mp h
  have hread := Node.at?_parse store.registry.wellNamed hjoin he fun _ ↦ hplain.secret
  rw [Option.bind_some, Option.bind_some] at hread
  obtain ⟨v, hv, hagain⟩ := hplain.fieldSchema_again hread
  rw [hv] at hread
  exact ⟨v, hv, hagain, hread⟩

theorem at?_of_parse_same {view : PolicyView} {given parsed v : Value}
    (h : store.registry.parse view given = some parsed) (he : e ∈ store.registry.entries)
    (hplain : e.field.Plain) (hgiven : given.at? e.segments = some v)
    (hv : fieldSchema e.field (some v) = some (some v)) : parsed.at? e.segments = some v := by
  obtain ⟨w, hw, -, hread⟩ := at?_of_parse_plain h he hplain
  rw [hgiven, hv] at hread
  obtain rfl : v = w := by simpa using hread
  exact hw

theorem obj_membersOf_parse {view : PolicyView} {given parsed : Value}
    (h : store.registry.parse view given = some parsed) :
    Value.obj (membersOf (some parsed)) = parsed := by
  rw [PolicyRegistry.parse] at h
  obtain ⟨gs, ps, -, -, -, hparsed⟩ := parse_group_eq_some (Option.join_eq_some_iff.mp h)
  obtain rfl := Option.some.inj hparsed
  rfl

/-! ### Updates -/

variable {state after : StoreState} {u : PolicyUpdate} {planned : Planned}
  {snapshot : RealmPolicySnapshot}

/-- What an update that is accepted did. -/
theorem update_eq_ok (h : store.update u state = .ok (after, snapshot)) :
    ∃ planned document, store.plan state u = .ok planned ∧
      store.checkRules (state.secrets u.realmId) planned.current.document planned.next
        planned.writes = .ok () ∧
      store.storedDocument planned.next planned.current.unknown = .ok document ∧
      store.snapshotOf u.realmId (store.writeRecord planned.record document) = .ok snapshot ∧
      after.records = Function.update state.records u.realmId
        (some (store.writeRecord planned.record document)) ∧
      after.secrets = Function.update state.secrets u.realmId
        (putAll (state.secrets u.realmId) planned.writes) := by
  simp only [update, bind_eq_ok_iff] at h
  obtain ⟨planned, hplan, _, hrules, document, hdocument, read, hread, h⟩ := h
  cases h
  exact ⟨planned, document, hplan, hrules, hdocument, hread, rfl, rfl⟩

/-- What was planned was planned from the realm's policies as they read. -/
theorem plan_eq_ok (h : store.plan state u = .ok planned) :
    state.records u.realmId = some planned.record ∧
      (∃ read, store.readable planned.record = .ok read ∧
        store.effective read = .ok planned.current) ∧
      (∃ merged, store.registry.parse .input merged = some planned.next) ∧
      (∃ patch rest, store.takeSecrets patch = .ok (rest, planned.writes)) ∧
      (store.secrets = false → planned.writes = []) := by
  simp only [plan, bind_eq_ok_iff, refuseIf_eq_ok_iff, require_eq_ok_iff] at h
  obtain ⟨_, -, patch, -, ⟨rest, writes⟩, htaken, _, hsecrets, record, hrecord, _, -, _, -, read,
    hread, current, hcurrent, merged, -, next, hnext, h⟩ := h
  cases h
  refine ⟨hrecord, ⟨read, hread, hcurrent⟩, ⟨merged, hnext⟩, ⟨patch, rest, htaken⟩, fun hnone ↦ ?_⟩
  by_contra hne
  exact hsecrets ⟨hne, hnone⟩

/-- What is carried over of a record sets nothing where a field is. -/
theorem avoids_effective {record : RealmPolicyRecord} {current : EffectivePolicies}
    (h : store.effective record = .ok current) (he : e ∈ store.registry.entries) :
    Avoids e.segments current.unknown := by
  simp only [effective, bind_eq_ok_iff] at h
  obtain ⟨unknown, hunknown, _, -, h⟩ := h
  cases h
  rw [unknownOf] at hunknown
  split_ifs at hunknown
  · exact avoids_unknownMembersOf hunknown he
  · cases hunknown
    exact Avoids.empty (segments_ne_nil he)

theorem parsed_of_effective {record : RealmPolicyRecord} {current : EffectivePolicies}
    (h : store.effective record = .ok current) :
    ∃ given, store.registry.parse .document given = some current.document := by
  simp only [effective, bind_eq_ok_iff, require_eq_ok_iff] at h
  obtain ⟨_, -, document, hdocument, h⟩ := h
  cases h
  exact ⟨_, hdocument⟩

/-- What is written is read as it is: it follows this release's version. -/
theorem readable_writeRecord (record : RealmPolicyRecord) (document : Members) :
    store.readable (store.writeRecord record document) = .ok (store.writeRecord record document) := by
  have hstanding : store.standingOf (store.writeRecord record document) = .current := by
    simp [standingOf, writeRecord]
  rw [readable, hstanding]

theorem at?_policies_of_update (h : store.update u state = .ok (after, snapshot))
    (hplan : store.plan state u = .ok planned) (he : e ∈ store.registry.entries)
    (hplain : e.field.Plain) :
    snapshot.policies.at? e.segments = planned.next.at? e.segments := by
  obtain ⟨planned', document, hplan', -, hdocument, hread, -, -⟩ := update_eq_ok h
  obtain rfl : planned = planned' := Except.ok.inj (hplan.symm.trans hplan')
  obtain ⟨-, ⟨read, -, hcurrent⟩, ⟨merged, hnext⟩, -, -⟩ := plan_eq_ok hplan
  obtain ⟨v, hv, hagain, -⟩ := at?_of_parse_plain hnext he hplain
  rw [hv]
  -- what is stored holds the value
  simp only [storedDocument, bind_eq_ok_iff, require_eq_ok_iff] at hdocument
  obtain ⟨parsed, hparsed, hdocument⟩ := hdocument
  have hstored : (Value.obj document).at? e.segments = some v := by
    cases hdocument
    rw [at?_mergeMembers (avoids_effective hcurrent he), obj_membersOf_parse hparsed]
    exact at?_of_parse_same hparsed he hplain hv hagain
  -- and the field reads as what is stored
  have hchosen : store.chosen (store.writeRecord planned.record document) e = some v := by
    simp [chosen, writeRecord, hstored]
  simp only [snapshotOf, readable_writeRecord, effective, bind_eq_ok_iff, require_eq_ok_iff] at hread
  obtain ⟨_, hrecord, _, ⟨_, -, policies, hpolicies, hcurrent⟩, hsnapshot⟩ := hread
  cases hrecord
  cases hcurrent
  cases hsnapshot
  exact at?_of_parse_same hpolicies he hplain
    (at?_foldl_withField he hplain.secret hchosen) hagain

/-- The policies an update answers are those that the realm then has. -/
theorem policiesOf_of_update (h : store.update u state = .ok (after, snapshot)) :
    store.policiesOf after u.realmId = some snapshot.policies := by
  obtain ⟨planned, document, -, -, -, hread, hrecords, -⟩ := update_eq_ok h
  rw [policiesOf, hrecords, Function.update_self, Option.bind_some, hread]
  rfl

theorem policiesOf_of_plan (hplan : store.plan state u = .ok planned) :
    store.policiesOf state u.realmId = some planned.current.document := by
  obtain ⟨hrecord, ⟨read, hread, hcurrent⟩, -⟩ := plan_eq_ok hplan
  rw [policiesOf, hrecord, Option.bind_some, snapshotOf, hread]
  simp only [Bind.bind, Except.bind, hcurrent]
  rfl

theorem other_of_update (h : store.update u state = .ok (after, snapshot)) {realmId : String}
    (hne : realmId ≠ u.realmId) :
    after.records realmId = state.records realmId ∧ after.secrets realmId = state.secrets realmId := by
  obtain ⟨planned, document, -, -, -, -, hrecords, hsecrets⟩ := update_eq_ok h
  rw [hrecords, hsecrets, Function.update_of_ne hne, Function.update_of_ne hne]
  exact ⟨rfl, rfl⟩

/-! ### The secrets of an update -/

theorem sublist_of_takeSecrets {patch rest : Members} {writes : List SecretWrite}
    (h : store.takeSecrets patch = .ok (rest, writes)) :
    (writes.map (·.path)).Sublist (store.registry.secretFields.map (·.path)) := by
  have hone (taken : Taken) (d : RegisteredPolicyField) :
      (takeSecret taken d).writes.map (·.path) = taken.writes.map (·.path) ∨
        (takeSecret taken d).writes.map (·.path) = taken.writes.map (·.path) ++ [d.path] := by
    rw [takeSecret]
    split
    · exact .inl rfl
    · rename_i value _
      cases value with
      | null => exact .inr (by simp)
      | str s =>
        by_cases hvalid : (d.field.schema.safeParse (.str s)).isSome
        · exact .inr (by simp [hvalid])
        · exact .inl (by simp [hvalid])
      | _ => exact .inl rfl
  have hfold : ∀ (entries : List RegisteredPolicyField) (taken : Taken),
      ∃ more, ((entries.foldl takeSecret taken).writes.map (·.path)) =
        taken.writes.map (·.path) ++ more ∧ more.Sublist (entries.map (·.path)) := by
    intro entries
    induction entries with
    | nil => exact fun taken ↦ ⟨[], by simp, List.nil_sublist _⟩
    | cons d rest ih =>
      intro taken
      obtain ⟨more, hmore, hsub⟩ := ih (takeSecret taken d)
      obtain hwrites | hwrites := hone taken d
      · exact ⟨more, by rw [List.foldl_cons, hmore, hwrites], hsub.cons _⟩
      · refine ⟨d.path :: more, ?_, hsub.cons_cons _⟩
        rw [List.foldl_cons, hmore, hwrites, List.append_assoc]
        rfl
  simp only [takeSecrets, bind_eq_ok_iff] at h
  obtain ⟨_, -, h⟩ := h
  cases h
  obtain ⟨more, hmore, hsub⟩ := hfold store.registry.secretFields ⟨patch, [], []⟩
  rw [hmore]
  exact hsub

/-- The secrets a planned update writes differ. -/
theorem nodup_writes (hplan : store.plan state u = .ok planned) :
    (planned.writes.map (·.path)).Nodup := by
  obtain ⟨-, -, -, ⟨patch, rest, htaken⟩, -⟩ := plan_eq_ok hplan
  refine (sublist_of_takeSecrets htaken).nodup ?_
  exact store.registered.nodup_paths.sublist (List.filter_sublist.map _)

/-- A secret after some writes is what the write of it gives, and else what it was. -/
theorem putAll_apply {secrets : String → Option String} {writes : List SecretWrite}
    (hnodup : (writes.map (·.path)).Nodup) (path : String) :
    putAll secrets writes path =
      match writes.find? fun write ↦ write.path = path with
      | some write => write.value
      | none => secrets path := by
  induction writes generalizing secrets with
  | nil => rfl
  | cons write rest ih =>
    obtain ⟨hfresh, hnodup⟩ := List.nodup_cons.mp hnodup
    have hstep : putAll secrets (write :: rest) path =
        putAll (Function.update secrets write.path write.value) rest path := rfl
    rw [hstep, ih hnodup, List.find?_cons]
    by_cases hpath : write.path = path
    · subst hpath
      have hnone : rest.find? (fun w ↦ w.path = write.path) = none := by
        rw [List.find?_eq_none]
        intro w hw heq
        exact hfresh (List.mem_map.mpr ⟨w, hw, of_decide_eq_true heq⟩)
      simp [hnone]
    · rw [decide_eq_false hpath, Function.update_of_ne (Ne.symm hpath)]

theorem putAll_of_not_written {secrets : String → Option String} {writes : List SecretWrite}
    (hnodup : (writes.map (·.path)).Nodup) {path : String} (h : writtenTo writes path = none) :
    putAll secrets writes path = secrets path := by
  rw [writtenTo, Option.map_eq_none_iff] at h
  rw [putAll_apply hnodup, h]

theorem putAll_eq {secrets : String → Option String} {writes : List SecretWrite}
    (hnodup : (writes.map (·.path)).Nodup) {path : String}
    (hset : writtenTo writes path ≠ some .set) :
    putAll secrets writes path = none ∨
      writtenTo writes path = none ∧ putAll secrets writes path = secrets path := by
  cases hwritten : writtenTo writes path with
  | none => exact .inr ⟨rfl, putAll_of_not_written hnodup hwritten⟩
  | some change =>
    left
    obtain ⟨write, hfind, rfl⟩ := Option.map_eq_some_iff.mp hwritten
    rw [putAll_apply hnodup, hfind]
    cases hvalue : write.value with
    | none => simp [hvalue]
    | some s => simp [writtenTo, hfind, hvalue] at hset

/-! ### Transactions -/

/-- An update that was asked for was made, or refused with nothing changed. -/
theorem submit_cases (store : PolicyStore) (state : StoreState) (u : PolicyUpdate) :
    (∃ after snapshot, store.update u state = .ok (after, snapshot) ∧
        store.submit state u = (after, .ok snapshot)) ∨
      ∃ error, store.update u state = .error error ∧ store.submit state u = (state, .error error) := by
  cases h : store.update u state with
  | ok result => exact .inl ⟨result.1, result.2, rfl, by rw [submit, transaction, h]⟩
  | error e => exact .inr ⟨e, rfl, by rw [submit, transaction, h]⟩

end PolicyStore

end QAuth.Policy
