import QAuth.Policy.Registry

/-!
# The diff of two policy documents

`diffPolicies` of `registry.ts`, which says of a change of the policies whether it is a security
operation and which effects make it one. No security change can be split into steps that are none.
-/

namespace QAuth.Policy

open Guards Json

/-- The scope class a change needs. -/
inductive PolicyChangeClass
  | write
  | security
deriving DecidableEq

/-- One changed field; of a secret, only whether one is set before and after. -/
structure PolicyChange where
  path : String
  before : Option Value
  after : Option Value
  direction : ChangeDirection
  changeClass : PolicyChangeClass
  effects : List SecurityEffect
  secret : Bool
  environmentBound : Bool
deriving DecidableEq

/-- The changes between two documents, and what the whole change needs. -/
structure PolicyDiff where
  changes : List PolicyChange
  changeClass : PolicyChangeClass
  effects : List SecurityEffect
deriving DecidableEq

/-- Why there is no diff. -/
inductive PolicyDiffError
  /-- The value is not valid in the view. -/
  | invalid (view : PolicyView)
  /-- `setSecrets` names a path that is not a secret field. -/
  | setSecrets
deriving DecidableEq

/-- A change of a field in a direction is a security operation. -/
def isSecurityChange (securityWhen : SecurityWhen) (direction : ChangeDirection) : Bool :=
  match securityWhen with
  | .never => false
  | .loosening => decide (direction ≠ .tightening)
  | .anyChange => true

/-- The change of a field from `before` to `after`, recorded with its class and effects. -/
def recordChange (entry : RegisteredPolicyField) (before after : Option Value)
    (direction : ChangeDirection) : PolicyChange :=
  let security := isSecurityChange entry.field.securityWhen direction
  { path := entry.path
    before
    after
    direction
    changeClass := if security then .security else .write
    effects := if security then entry.field.effects else []
    secret := entry.field.secret
    environmentBound := entry.field.environmentBound }

/-- The change of one field between two parsed values, if there is one. -/
def changeOf (setBefore : List String) (source target : Value) (entry : RegisteredPolicyField) :
    Option PolicyChange :=
  let a := source.at? entry.segments
  let b := target.at? entry.segments
  if entry.field.secret then
    -- a value sets a secret, null clears it, and leaving it out keeps it
    b.map fun value ↦
      recordChange entry (some (.bool (decide (entry.path ∈ setBefore))))
        (some (.bool (decide (value ≠ .null)))) .neutral
  else if Unchanged entry.field.direction a b then none
  else some (recordChange entry a b (compareDirection entry.field.direction a b))

def isSecretPath (registry : PolicyRegistry) (path : String) : Bool :=
  registry.entries.any fun entry ↦ entry.path == path && entry.field.secret

/-- The diff of some changes. -/
def diffOf (changes : List PolicyChange) : PolicyDiff where
  changes
  changeClass :=
    if changes.any fun change ↦ change.changeClass == .security then .security else .write
  effects := SECURITY_EFFECTS.filter (· ∈ changes.flatMap PolicyChange.effects)

/-- The changes from a stored document to a write. -/
def diffPolicies (registry : PolicyRegistry) (before after : Value) (setSecrets : List String) :
    Except PolicyDiffError PolicyDiff := do
  let source ← require (registry.parse .document before) (.invalid .document)
  let target ← require (registry.parse .input after) (.invalid .input)
  refuseIf (¬ setSecrets.all (isSecretPath registry)) .setSecrets
  .ok (diffOf (registry.entries.filterMap (changeOf setSecrets source target)))

/-! ### What a diff says -/

section Diff

variable {registry : PolicyRegistry} {entry : RegisteredPolicyField}

/-- What a field reads from a document. -/
def readAt (entry : RegisteredPolicyField) (document : Value) : Option Value :=
  (fieldSchema entry.field (document.at? entry.segments)).join

/-- A parsed value holds what each field reads, except for the secrets of a document. -/
theorem at?_of_parse {view : PolicyView} {value parsed : Value}
    (h : registry.parse view value = some parsed) (he : entry ∈ registry.entries)
    (hshown : view = .document → entry.field.secret = false) :
    parsed.at? entry.segments = readAt entry value := by
  rw [PolicyRegistry.parse, Option.join_eq_some_iff] at h
  have hread := Node.at?_parse registry.wellNamed h he hshown
  rw [readAt]
  show _ = (fieldSchema entry.field ((some value).bind (Value.at? · entry.segments))).join
  rw [hread]
  rfl

theorem readAt_secret {value parsed : Value} (h : registry.parse .document value = some parsed)
    (he : entry ∈ registry.entries) (hsecret : entry.field.secret = true) :
    readAt entry value = none := by
  rw [PolicyRegistry.parse, Option.join_eq_some_iff] at h
  have hnone : value.at? entry.segments = none :=
    (Node.at?_secret_of_document registry.wellNamed rfl h he hsecret).1
  rw [readAt, hnone, fieldSchema, hsecret]
  rfl

/-- The change of a field between the documents it is read from. -/
def fieldChange (setBefore : List String) (before after : Value) (entry : RegisteredPolicyField) :
    Option PolicyChange :=
  if entry.field.secret then
    (readAt entry after).map fun value ↦
      recordChange entry (some (.bool (decide (entry.path ∈ setBefore))))
        (some (.bool (decide (value ≠ .null)))) .neutral
  else if Unchanged entry.field.direction (readAt entry before) (readAt entry after) then none
  else
    some (recordChange entry (readAt entry before) (readAt entry after)
      (compareDirection entry.field.direction (readAt entry before) (readAt entry after)))

/-- A diff holds the changes of the fields. -/
theorem diffPolicies_eq_ok {before after : Value} {setSecrets : List String} {diff : PolicyDiff}
    (h : diffPolicies registry before after setSecrets = .ok diff) :
    (∃ parsed, registry.parse .document before = some parsed) ∧
      diff = diffOf (registry.entries.filterMap (fieldChange setSecrets before after)) := by
  simp only [diffPolicies, bind_eq_ok_iff, require_eq_ok_iff, Except.ok.injEq] at h
  obtain ⟨source, hsource, target, htarget, -, -, rfl⟩ := h
  refine ⟨⟨source, hsource⟩, congrArg diffOf (List.filterMap_congr fun entry he ↦ ?_)⟩
  rw [changeOf, fieldChange, at?_of_parse htarget he (by rintro ⟨⟩)]
  cases hs : entry.field.secret with
  | true => rfl
  | false => rw [at?_of_parse hsource he fun _ ↦ hs]

theorem mem_changes_diffOf {setSecrets : List String} {before after : Value}
    {change : PolicyChange} :
    change ∈ (diffOf (registry.entries.filterMap (fieldChange setSecrets before after))).changes ↔
      ∃ entry ∈ registry.entries, fieldChange setSecrets before after entry = some change :=
  List.mem_filterMap

theorem mem_effects_diffOf {changes : List PolicyChange} {effect : SecurityEffect} :
    effect ∈ (diffOf changes).effects ↔ ∃ change ∈ changes, effect ∈ change.effects := by
  simp [diffOf, mem_SECURITY_EFFECTS]

theorem changeClass_diffOf {changes : List PolicyChange} :
    (diffOf changes).changeClass = .security ↔
      ∃ change ∈ changes, change.changeClass = .security := by
  simp [diffOf]

end Diff

/-! ### A security change is one in some step -/

section Steps

variable {registry : PolicyRegistry} {entry : RegisteredPolicyField}

/-- The change of a field from one value to another is a security operation. -/
def IsSecurityStep (field : PolicyField) (a b : Option Value) : Prop :=
  ¬ Unchanged field.direction a b ∧
    isSecurityChange field.securityWhen (compareDirection field.direction a b) = true

theorem isSecurityStep_of_ends {field : PolicyField} {x : ℕ → Option Value} {n : ℕ}
    (h : IsSecurityStep field (x 0) (x n)) : ∃ i < n, IsSecurityStep field (x i) (x (i + 1)) := by
  by_contra hnone
  push Not at hnone
  obtain ⟨hchanged, hsecurity⟩ := h
  cases hwhen : field.securityWhen with
  | never =>
    rw [hwhen] at hsecurity
    cases hsecurity
  | anyChange =>
    refine hchanged (rel_of_steps (Unchanged.refl _) Unchanged.trans fun i hi ↦ ?_)
    by_contra hstep
    exact hnone i hi ⟨hstep, by rw [hwhen]; rfl⟩
  | loosening =>
    simp only [hwhen, isSecurityChange, decide_eq_true_eq] at hsecurity
    have hclimbs : Climbs field.direction (x 0) (x n) := by
      refine rel_of_steps (Climbs.refl _) Climbs.trans fun i hi ↦ ?_
      by_cases hstep : Unchanged field.direction (x i) (x (i + 1))
      · exact .inl hstep
      · refine .inr ((compareDirection_eq_tightening_iff hstep).mp ?_)
        by_contra hdirection
        exact hnone i hi ⟨hstep, by simp [hwhen, isSecurityChange, hdirection]⟩
    rcases hclimbs with hsame | hstricter
    · exact hchanged hsame
    · exact hsecurity ((compareDirection_eq_tightening_iff hchanged).mpr hstricter)

theorem recordChange_security {before after : Option Value} {direction : ChangeDirection} :
    (recordChange entry before after direction).changeClass = .security ↔
      isSecurityChange entry.field.securityWhen direction = true := by
  simp [recordChange]

theorem effects_recordChange {before after : Option Value} {direction : ChangeDirection} :
    (recordChange entry before after direction).effects =
      if isSecurityChange entry.field.securityWhen direction then entry.field.effects else [] :=
  rfl

def ChangesSecurely (entry : RegisteredPolicyField) (setBefore : List String)
    (before after : Value) : Prop :=
  ∃ change, fieldChange setBefore before after entry = some change ∧
    change.changeClass = .security ∧ change.effects = entry.field.effects

theorem changesSecurely_secret_iff {setBefore : List String} {before after : Value}
    (hsecret : entry.field.secret = true) :
    ChangesSecurely entry setBefore before after ↔
      isSecurityChange entry.field.securityWhen .neutral = true ∧
        (readAt entry after).isSome = true := by
  cases hread : readAt entry after with
  | none => simp [ChangesSecurely, fieldChange, hsecret, hread]
  | some value =>
    simp only [ChangesSecurely, fieldChange, hsecret, hread, if_true, Option.map_some,
      Option.some.injEq, exists_eq_left', recordChange_security, effects_recordChange,
      Option.isSome_some, and_true]
    constructor
    · exact fun h ↦ h.1
    · exact fun h ↦ ⟨h, if_pos h⟩

theorem changesSecurely_plain_iff {setBefore : List String} {before after : Value}
    (hsecret : entry.field.secret = false) :
    ChangesSecurely entry setBefore before after ↔
      IsSecurityStep entry.field (readAt entry before) (readAt entry after) := by
  by_cases hsame : Unchanged entry.field.direction (readAt entry before) (readAt entry after)
  · simp [ChangesSecurely, fieldChange, hsecret, hsame, IsSecurityStep]
  · simp only [ChangesSecurely, fieldChange, hsecret, if_false, hsame, Bool.false_eq_true,
      Option.some.injEq, exists_eq_left', recordChange_security, effects_recordChange,
      IsSecurityStep, not_false_eq_true, true_and]
    constructor
    · exact fun h ↦ h.1
    · exact fun h ↦ ⟨h, if_pos h⟩

/-- A recorded change is one that `recordChange` records. -/
theorem exists_recordChange {setBefore : List String} {before after : Value}
    {change : PolicyChange} (h : fieldChange setBefore before after entry = some change) :
    ∃ a b direction, change = recordChange entry a b direction := by
  rw [fieldChange] at h
  split_ifs at h
  · obtain ⟨value, -, rfl⟩ := Option.map_eq_some_iff.mp h
    exact ⟨_, _, _, rfl⟩
  · cases h
    exact ⟨_, _, _, rfl⟩

theorem changesSecurely_of_fieldChange {setBefore : List String} {before after : Value}
    {change : PolicyChange} (h : fieldChange setBefore before after entry = some change)
    (hsecurity : change.changeClass = .security) :
    ChangesSecurely entry setBefore before after := by
  refine ⟨change, h, hsecurity, ?_⟩
  obtain ⟨a, b, direction, rfl⟩ := exists_recordChange h
  exact if_pos (recordChange_security.mp hsecurity)

theorem changesSecurely_of_ends {A : ℕ → Value} {n : ℕ} {parsed : Value}
    (hfirst : registry.parse .document (A 0) = some parsed) (he : entry ∈ registry.entries)
    {setBefore : List String} {known : ℕ → List String}
    (h : ChangesSecurely entry setBefore (A 0) (A n)) :
    ∃ i < n, ChangesSecurely entry (known i) (A i) (A (i + 1)) := by
  cases hsecret : entry.field.secret with
  | true =>
    rw [changesSecurely_secret_iff hsecret] at h
    -- what the last document sets, the last step sets
    cases n with
    | zero =>
      rw [readAt_secret hfirst he hsecret] at h
      cases h.2
    | succ n => exact ⟨n, n.lt_succ_self, (changesSecurely_secret_iff hsecret).mpr h⟩
  | false =>
    rw [changesSecurely_plain_iff hsecret] at h
    obtain ⟨i, hi, hstep⟩ := isSecurityStep_of_ends (x := fun i ↦ readAt entry (A i)) h
    exact ⟨i, hi, (changesSecurely_plain_iff hsecret).mpr hstep⟩

theorem path_of_fieldChange {setBefore : List String} {before after : Value}
    {change : PolicyChange} (h : fieldChange setBefore before after entry = some change) :
    change.path = entry.path := by
  obtain ⟨a, b, direction, rfl⟩ := exists_recordChange h
  rfl

theorem security_of_mem_effects {setBefore : List String} {before after : Value}
    {change : PolicyChange} {effect : SecurityEffect}
    (h : fieldChange setBefore before after entry = some change)
    (heffect : effect ∈ change.effects) : change.changeClass = .security := by
  obtain ⟨a, b, direction, rfl⟩ := exists_recordChange h
  rw [recordChange_security]
  by_contra hsecurity
  rw [effects_recordChange, if_neg hsecurity] at heffect
  cases heffect

/-- A tightening is recorded as a loosening in the diff the other way. -/
theorem fieldChange_reverse {setBefore setAfter : List String} {before after : Value}
    {change : PolicyChange} (h : fieldChange setBefore before after entry = some change)
    (ht : change.direction = .tightening) :
    ∃ reverse, fieldChange setAfter after before entry = some reverse ∧
      reverse.path = change.path ∧ reverse.before = change.after ∧
        reverse.after = change.before ∧ reverse.direction = .loosening := by
  rw [fieldChange] at h
  split_ifs at h with hsecret hsame
  · obtain ⟨value, -, rfl⟩ := Option.map_eq_some_iff.mp h
    cases ht
  · cases h
    refine ⟨recordChange entry (readAt entry after) (readAt entry before)
      (compareDirection entry.field.direction (readAt entry after) (readAt entry before)),
      ?_, rfl, rfl, rfl, compareDirection_reverse hsame ht⟩
    rw [fieldChange, if_neg hsecret, if_neg fun k ↦ hsame k.symm]

end Steps

/-- A change of the policies that is a security operation from end to end is one in some step: each
of its security changes is one of the same field, with the same effects, in some step, and so no
effect is lost. A tightening is a loosening the other way. -/
theorem diffPolicies_not_split (registry : PolicyRegistry) (A : ℕ → Value) (n : ℕ)
    (known : ℕ → List String) (setSecrets : List String) (step : ℕ → PolicyDiff)
    (direct : PolicyDiff)
    (hsteps : ∀ i < n, diffPolicies registry (A i) (A (i + 1)) (known i) = .ok (step i))
    (hdirect : diffPolicies registry (A 0) (A n) setSecrets = .ok direct) :
    (direct.changeClass = .security → ∃ i < n, (step i).changeClass = .security) ∧
    (∀ change ∈ direct.changes, change.changeClass = .security →
      ∃ i < n, ∃ part ∈ (step i).changes, part.path = change.path ∧
        part.changeClass = .security ∧ part.effects = change.effects) ∧
    (∀ effect ∈ direct.effects, ∃ i < n, effect ∈ (step i).effects) ∧
    ∀ change ∈ direct.changes, change.direction = .tightening →
      ∀ setAfter back, diffPolicies registry (A n) (A 0) setAfter = .ok back →
        ∃ reverse ∈ back.changes, reverse.path = change.path ∧ reverse.before = change.after ∧
          reverse.after = change.before ∧ reverse.direction = .loosening := by
  obtain ⟨⟨parsed, hfirst⟩, rfl⟩ := diffPolicies_eq_ok hdirect
  have hstep : ∀ i < n, step i =
      diffOf (registry.entries.filterMap (fieldChange (known i) (A i) (A (i + 1)))) :=
    fun i hi ↦ (diffPolicies_eq_ok (hsteps i hi)).2
  have hpart : ∀ change ∈ (diffOf (registry.entries.filterMap
      (fieldChange setSecrets (A 0) (A n)))).changes, change.changeClass = .security →
      ∃ i < n, ∃ part ∈ (step i).changes, part.path = change.path ∧
        part.changeClass = .security ∧ part.effects = change.effects := by
    intro change hchange hsecurity
    obtain ⟨entry, he, hfield⟩ := mem_changes_diffOf.mp hchange
    have hsecure := changesSecurely_of_fieldChange hfield hsecurity
    have hsome : ∃ i < n, ChangesSecurely entry (known i) (A i) (A (i + 1)) :=
      changesSecurely_of_ends hfirst he hsecure
    obtain ⟨i, hi, part, hpart, hclass, heffects⟩ := hsome
    obtain ⟨change', hfield', -, heffects'⟩ := hsecure
    obtain rfl : change' = change := Option.some.inj (hfield'.symm.trans hfield)
    refine ⟨i, hi, part, ?_, ?_, hclass, heffects.trans heffects'.symm⟩
    · rw [hstep i hi]
      exact mem_changes_diffOf.mpr ⟨entry, he, hpart⟩
    · rw [path_of_fieldChange hpart, path_of_fieldChange hfield]
  refine ⟨fun hclass ↦ ?_, hpart, fun effect heffect ↦ ?_, ?_⟩
  · obtain ⟨change, hchange, hsecurity⟩ := changeClass_diffOf.mp hclass
    obtain ⟨i, hi, part, hmem, -, hsecurity', -⟩ := hpart change hchange hsecurity
    refine ⟨i, hi, ?_⟩
    rw [hstep i hi] at hmem ⊢
    exact changeClass_diffOf.mpr ⟨part, hmem, hsecurity'⟩
  · obtain ⟨change, hchange, heffect⟩ := mem_effects_diffOf.mp heffect
    obtain ⟨entry, -, hfield⟩ := mem_changes_diffOf.mp hchange
    have hsecurity := security_of_mem_effects hfield heffect
    obtain ⟨i, hi, part, hmem, -, -, heffects⟩ := hpart change hchange hsecurity
    refine ⟨i, hi, ?_⟩
    rw [hstep i hi] at hmem ⊢
    exact mem_effects_diffOf.mpr ⟨part, hmem, heffects ▸ heffect⟩
  · intro change hchange ht setAfter back hback
    obtain ⟨entry, he, hfield⟩ := mem_changes_diffOf.mp hchange
    have hback' : ∃ reverse, fieldChange setAfter _ _ entry = some reverse ∧ _ :=
      fieldChange_reverse hfield ht
    obtain ⟨reverse, hreverse, hfacts⟩ := hback'
    obtain ⟨-, rfl⟩ := diffPolicies_eq_ok hback
    exact ⟨reverse, mem_changes_diffOf.mpr ⟨entry, he, hreverse⟩, hfacts⟩

/-! ### A registry at work -/

/-- `z.number()` -/
def numberType : ZodType where
  safeParse v := if (number? (some v)).isSome then some v else none
  acceptsUndefined := false
  values := none
  hasInputSchema := true
  hasOutputSchema := true

/-- `z.string()` -/
def stringType : ZodType where
  safeParse v := if (text? v).isSome then some v else none
  acceptsUndefined := false
  values := none
  hasInputSchema := true
  hasOutputSchema := true

/-- A lifetime in minutes, whose loosening is a security operation, and a secret beside it. -/
def sampleMembers : List (String × Shape) :=
  [("maxAgeMinutes", .field {
      schema := numberType
      seedEnv := some "SESSION_MAX_AGE"
      default := .num (.exact 60)
      direction := .lowerIsStricter
      securityWhen := .loosening
      effects := [.postureLoosening]
      secret := false
      environmentBound := false
      doc := ⟨"How long a session lives.", "https://docs.qauth.dev/session"⟩ }),
    ("signingKey", .field {
      schema := stringType
      seedEnv := none
      default := .null
      direction := .opaqueKind
      securityWhen := .anyChange
      effects := [.keyCustody]
      secret := true
      environmentBound := true
      doc := ⟨"What a session is signed with.", "https://docs.qauth.dev/session"⟩ })]

def sampleRegistry : PolicyRegistry :=
  ((registerPolicyGroup .empty "session" sampleMembers).toOption).getD .empty

/-- The policies with a lifetime. -/
def samplePolicies (minutes : ℚ) : Value :=
  .obj [("session", .obj [("maxAgeMinutes", .num (.exact minutes))])]

/-- The diff of two lifetimes. -/
def sampleDiff (source target : ℚ) (direction : ChangeDirection) : PolicyDiff :=
  diffOf [{
    path := "session.maxAgeMinutes"
    before := some (.num (.exact source))
    after := some (.num (.exact target))
    direction
    changeClass := if direction = .loosening then .security else .write
    effects := if direction = .loosening then [.postureLoosening] else []
    secret := false
    environmentBound := false }]

/-- From 60 minutes through 30 to 120, the second step loosens. -/
theorem diffPolicies_not_split_sample :
    ∃ i < 2, ([sampleDiff 60 30 .tightening, sampleDiff 30 120 .loosening][i]?.getD
      (sampleDiff 0 0 .neutral)).changeClass = .security :=
  (diffPolicies_not_split sampleRegistry (fun i ↦ samplePolicies ([60, 30, 120][i]?.getD 0)) 2
    (fun _ ↦ []) [] (fun i ↦ [sampleDiff 60 30 .tightening, sampleDiff 30 120 .loosening][i]?.getD
      (sampleDiff 0 0 .neutral)) (sampleDiff 60 120 .loosening)
    (by decide) (by decide)).1 (by decide)

end QAuth.Policy
