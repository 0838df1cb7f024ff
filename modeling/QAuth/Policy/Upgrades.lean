import Mathlib
import QAuth.Foundation.Guards
import QAuth.Foundation.Table
import QAuth.Policy.SchemaVersion

/-!
# Upgrades of stored policies

`upgradePathsTo` of `upgrades.ts`: the upgrades that lead from each older version to the registry's,
or the reason the list of upgrades is refused. The walk from a version follows the upgrades until it
stands at the target; each one goes forward, so it never takes more steps than there are upgrades.
-/

namespace QAuth.Policy

open Guards

variable {δ : Type}

/-- One version change of the realm policy schema. `upgrade` is nothing where it is no function. -/
structure PolicySchemaUpgrade (δ : Type) where
  fromVersion : String
  toVersion : String
  upgrade : Option (δ → δ)

/-- Why a list of upgrades is refused. -/
inductive UpgradeError
  /-- A `PolicyDefinitionError`. -/
  | definition (message : String)
  /-- The `TypeError` of a text that is no version. -/
  | type (text : String)
  /-- The walk took every step it was given. -/
  | unfinished

/-- The order of two versions, which an expression that compares them throws without. -/
def orderIn (a b : String) : Except UpgradeError Ordering :=
  require (compareSchemaVersions a b) (.type s!"\"{a}\" or \"{b}\"")

/-- The checks of one upgrade, after those before it. -/
def checkUpgrade (target : String) (byFrom : List (String × PolicySchemaUpgrade δ))
    (u : PolicySchemaUpgrade δ) : Except UpgradeError Unit := do
  refuseIf (¬ (isPolicySchemaVersion u.fromVersion ∧ isPolicySchemaVersion u.toVersion))
    (.definition (s!"An upgrade of the realm policies goes from and to policy schema versions, " ++
      s!"not \"{u.fromVersion}\" and \"{u.toVersion}\""))
  refuseIf (u.upgrade.isNone : Prop)
    (.definition s!"The upgrade from {u.fromVersion} has no upgrade function")
  let order ← orderIn u.fromVersion u.toVersion
  refuseIf (order ≠ .lt)
    (.definition s!"The upgrade from {u.fromVersion} to {u.toVersion} does not go forward")
  let order ← orderIn u.toVersion target
  refuseIf (order = .gt)
    (.definition (s!"The upgrade from {u.fromVersion} to {u.toVersion} goes past the registry's " ++
      s!"version, {target}"))
  refuseIf ((byFrom.lookup u.fromVersion).isSome : Prop)
    (.definition s!"Two upgrades of the realm policies go from {u.fromVersion}")

/-- The upgrades by the version they read, in the order they are given. -/
def byFromOf (target : String) (byFrom : List (String × PolicySchemaUpgrade δ)) :
    List (PolicySchemaUpgrade δ) → Except UpgradeError (List (String × PolicySchemaUpgrade δ))
  | [] => .ok byFrom
  | u :: rest => do
    checkUpgrade target byFrom u
    byFromOf target (byFrom ++ [(u.fromVersion, u)]) rest

/-- The steps from `version` to the target, at most `fuel` of them. -/
def walk (byFrom : List (String × PolicySchemaUpgrade δ)) (target start : String) :
    ℕ → String → Except UpgradeError (List (PolicySchemaUpgrade δ))
  | 0, version => if version = target then .ok [] else .error .unfinished
  | fuel + 1, version =>
    if version = target then .ok []
    else do
      let step ← require (byFrom.lookup version)
        (.definition (s!"The upgrades of the realm policies lead from {start} to {version}, and " ++
          s!"none from there to {target}"))
      let steps ← walk byFrom target start fuel step.toVersion
      .ok (step :: steps)

/-- The path of each version in turn. -/
def pathsFrom (byFrom : List (String × PolicySchemaUpgrade δ)) (target : String) :
    List String → Except UpgradeError (List (String × List (PolicySchemaUpgrade δ)))
  | [] => .ok []
  | start :: rest => do
    let steps ← walk byFrom target start (byFrom.length + 1) start
    let paths ← pathsFrom byFrom target rest
    .ok ((start, steps) :: paths)

/-- The upgrades that lead from each older version to `target`, in the order they apply. -/
def upgradePathsTo (upgrades : List (PolicySchemaUpgrade δ)) (target : String) :
    Except UpgradeError (List (String × List (PolicySchemaUpgrade δ))) := do
  let byFrom ← byFromOf target [] upgrades
  pathsFrom byFrom target (byFrom.map Prod.fst)

/-! ### The checks -/

/-- What the checks leave: each upgrade under the version it reads, going forward. -/
def Forward (byFrom : List (String × PolicySchemaUpgrade δ)) : Prop :=
  ∀ e ∈ byFrom, e.1 = e.2.fromVersion ∧
    compareSchemaVersions e.2.fromVersion e.2.toVersion = some .lt

variable {target start version : String} {byFrom : List (String × PolicySchemaUpgrade δ)}
  {u step : PolicySchemaUpgrade δ} {upgrades steps : List (PolicySchemaUpgrade δ)}

theorem compare_of_checkUpgrade (h : checkUpgrade target byFrom u = .ok ()) :
    compareSchemaVersions u.fromVersion u.toVersion = some .lt := by
  simp only [checkUpgrade, bind_eq_ok_iff, refuseIf_eq_ok_iff, orderIn, require_eq_ok_iff] at h
  obtain ⟨-, -, -, -, order, horder, -, hlt, -⟩ := h
  rw [horder, not_not.mp hlt]

theorem forward_byFromOf {result : List (String × PolicySchemaUpgrade δ)}
    (h : byFromOf target byFrom upgrades = .ok result) (hforward : Forward byFrom) :
    Forward result := by
  induction upgrades generalizing byFrom with
  | nil =>
    cases h
    exact hforward
  | cons u rest ih =>
    simp only [byFromOf, bind_eq_ok_iff] at h
    obtain ⟨_, hcheck, hrest⟩ := h
    refine ih hrest fun e he ↦ ?_
    obtain he | he := List.mem_append.mp he
    · exact hforward e he
    · obtain rfl := List.mem_singleton.mp he
      exact ⟨rfl, compare_of_checkUpgrade hcheck⟩

/-! ### The walk -/

theorem mem_of_lookup (h : byFrom.lookup version = some step) : (version, step) ∈ byFrom := by
  induction byFrom with
  | nil => cases h
  | cons e rest ih =>
    rw [List.lookup_cons] at h
    split at h
    · rename_i heq
      obtain rfl : e.2 = step := Option.some.inj h
      exact List.mem_cons.mpr (.inl (Prod.ext (beq_iff_eq.mp heq) rfl))
    · exact List.mem_cons_of_mem _ (ih h)

/-- Both texts of a comparison are versions. -/
theorem exists_of_compare {a b : String} {order : Ordering}
    (h : compareSchemaVersions a b = some order) :
    ∃ v w : SchemaVersion, v.1 = a ∧ w.1 = b ∧ cmp v.key w.key = order := by
  have hver {text : String} {k : WithTop ℕ × WithTop ℕ} (hk : orderOf text = some k) :
      isPolicySchemaVersion text = true := by
    rw [orderOf, Option.map_eq_some_iff] at hk
    obtain ⟨m, hm, -⟩ := hk
    rw [isPolicySchemaVersion, hm]
    rfl
  have h' := h
  rw [compareSchemaVersions] at h'
  obtain ⟨ka, hka, h'⟩ := Option.bind_eq_some_iff.mp h'
  obtain ⟨kb, hkb, -⟩ := Option.bind_eq_some_iff.mp h'
  refine ⟨⟨a, hver hka⟩, ⟨b, hver hkb⟩, rfl, rfl, ?_⟩
  have hcmp := SchemaVersion.compareSchemaVersions_eq_cmp ⟨a, hver hka⟩ ⟨b, hver hkb⟩
  exact Option.some.inj (hcmp.symm.trans h)

theorem compare_lt_trans {a b c : String} (hab : compareSchemaVersions a b = some .lt)
    (hbc : compareSchemaVersions b c = some .lt) : compareSchemaVersions a c = some .lt := by
  obtain ⟨v, w, rfl, rfl, hvw⟩ := exists_of_compare hab
  obtain ⟨w', x, hw, rfl, hwx⟩ := exists_of_compare hbc
  obtain rfl : w' = w := Subtype.ext hw
  rw [SchemaVersion.compareSchemaVersions_eq_cmp, Option.some_inj, cmp_eq_lt_iff]
  exact ((cmp_eq_lt_iff _ _).mp hvw).trans ((cmp_eq_lt_iff _ _).mp hwx)

/-- How many upgrades read a version that is not before `version`. -/
def ahead (byFrom : List (String × PolicySchemaUpgrade δ)) (version : String) : ℕ :=
  byFrom.countP fun e ↦ compareSchemaVersions e.1 version ≠ some .lt

/-- A step leaves fewer upgrades ahead. -/
theorem ahead_lt (hforward : Forward byFrom) (h : byFrom.lookup version = some step) :
    ahead byFrom step.toVersion < ahead byFrom version := by
  have hmem := mem_of_lookup h
  obtain ⟨hfrom, hlt⟩ := hforward _ hmem
  have hfrom : version = step.fromVersion := hfrom
  subst hfrom
  refine Table.countP_lt_countP (fun e _ hahead ↦ ?_) hmem ?_ (by simpa using hlt)
  · simp only [decide_eq_true_eq] at hahead ⊢
    exact fun hbefore ↦ hahead (compare_lt_trans hbefore hlt)
  · obtain ⟨v, w, hv, -, -⟩ := exists_of_compare hlt
    rw [decide_eq_true_eq, ← hv, SchemaVersion.compareSchemaVersions_eq_cmp, cmp_self_eq_eq]
    exact fun h ↦ Ordering.noConfusion (Option.some.inj h)

/-- The walk ends: each step leaves fewer upgrades ahead than the steps it may take. -/
theorem walk_ne_unfinished {fuel : ℕ} (hforward : Forward byFrom)
    (hfuel : ahead byFrom version < fuel) :
    walk byFrom target start fuel version ≠ .error .unfinished := by
  induction fuel generalizing version with
  | zero => exact absurd hfuel (Nat.not_lt_zero _)
  | succ fuel ih =>
    rw [walk]
    split
    · nofun
    · cases hlookup : byFrom.lookup version with
      | none => nofun
      | some step =>
        have hrest := @ih step.toVersion
          (Nat.lt_of_lt_of_le (ahead_lt hforward hlookup) (Nat.le_of_lt_succ hfuel))
        change (walk byFrom target start fuel step.toVersion >>= fun steps ↦
          .ok (step :: steps)) ≠ _
        cases hwalk : walk byFrom target start fuel step.toVersion with
        | ok steps => nofun
        | error e =>
          rintro h
          obtain rfl : e = .unfinished := Except.error.inj h
          exact hrest hwalk

/-! ### The paths -/

/-- A path goes strictly forward from `start` to `target`, each step reading what the one before it
gives. -/
structure LeadsTo (target start : String) (steps : List (PolicySchemaUpgrade δ)) : Prop where
  increasing : (start :: steps.map (·.toVersion)).Pairwise fun a b ↦
    compareSchemaVersions a b = some .lt
  linked : steps.map (·.fromVersion) = (start :: steps.map (·.toVersion)).dropLast
  last : (start :: steps.map (·.toVersion)).getLast? = some target

theorem LeadsTo.cons (hfrom : step.fromVersion = version)
    (hlt : compareSchemaVersions version step.toVersion = some .lt)
    (h : LeadsTo target step.toVersion steps) : LeadsTo target version (step :: steps) where
  increasing := by
    rw [List.map_cons, List.pairwise_cons]
    refine ⟨fun later hlater ↦ ?_, h.increasing⟩
    obtain rfl | hlater := List.mem_cons.mp hlater
    · exact hlt
    · exact compare_lt_trans hlt (List.rel_of_pairwise_cons h.increasing hlater)
  linked := by
    rw [List.map_cons, List.map_cons, hfrom, h.linked]
    rfl
  last := by
    rw [List.map_cons, List.getLast?_cons_cons]
    exact h.last

/-- A walk that reaches the target took a path to it. -/
theorem leadsTo_walk {fuel : ℕ} (hforward : Forward byFrom)
    (h : walk byFrom target start fuel version = .ok steps) :
    LeadsTo target version steps ∧ ∀ s ∈ steps, s ∈ byFrom.map Prod.snd := by
  induction fuel generalizing version steps with
  | zero =>
    rw [walk] at h
    split at h
    · rename_i heq
      cases h
      exact ⟨⟨List.pairwise_singleton _ _, rfl, congrArg some heq⟩, by simp⟩
    · cases h
  | succ fuel ih =>
    rw [walk] at h
    split at h
    · rename_i heq
      cases h
      exact ⟨⟨List.pairwise_singleton _ _, rfl, congrArg some heq⟩, by simp⟩
    · simp only [bind_eq_ok_iff, require_eq_ok_iff] at h
      obtain ⟨step, hlookup, rest, hrest, h⟩ := h
      cases h
      obtain ⟨hleads, hmem⟩ := ih hrest
      have hin := mem_of_lookup hlookup
      obtain ⟨hfrom, hlt⟩ := hforward _ hin
      have hfrom : version = step.fromVersion := hfrom
      refine ⟨hleads.cons hfrom.symm (hfrom ▸ hlt), fun s hs ↦ ?_⟩
      obtain rfl | hs := List.mem_cons.mp hs
      · exact List.mem_map_of_mem hin
      · exact hmem s hs

theorem mem_of_byFromOf {result : List (String × PolicySchemaUpgrade δ)}
    (h : byFromOf target byFrom upgrades = .ok result) {s : PolicySchemaUpgrade δ}
    (hs : s ∈ result.map Prod.snd) : s ∈ byFrom.map Prod.snd ∨ s ∈ upgrades := by
  induction upgrades generalizing byFrom with
  | nil =>
    cases h
    exact .inl hs
  | cons u rest ih =>
    simp only [byFromOf, bind_eq_ok_iff] at h
    obtain ⟨_, -, hrest⟩ := h
    obtain hold | hnew := ih hrest
    · rw [List.map_append, List.mem_append] at hold
      obtain hold | hu := hold
      · exact .inl hold
      · obtain rfl := List.mem_singleton.mp hu
        exact .inr List.mem_cons_self
    · exact .inr (List.mem_cons_of_mem _ hnew)

/-- What holds of every walk holds of every path. -/
theorem of_mem_pathsFrom {starts : List String}
    {paths : List (String × List (PolicySchemaUpgrade δ))}
    (h : pathsFrom byFrom target starts = .ok paths) {p : String × List (PolicySchemaUpgrade δ)}
    (hp : p ∈ paths) : walk byFrom target p.1 (byFrom.length + 1) p.1 = .ok p.2 := by
  induction starts generalizing paths with
  | nil =>
    cases h
    cases hp
  | cons start rest ih =>
    simp only [pathsFrom, bind_eq_ok_iff] at h
    obtain ⟨steps, hwalk, rest', hrest, h⟩ := h
    cases h
    obtain rfl | hp := List.mem_cons.mp hp
    · exact hwalk
    · exact ih hrest hp

theorem leadsTo_of_upgradePathsTo {paths : List (String × List (PolicySchemaUpgrade δ))}
    (h : upgradePathsTo upgrades target = .ok paths) {p : String × List (PolicySchemaUpgrade δ)}
    (hp : p ∈ paths) : LeadsTo target p.1 p.2 ∧ ∀ s ∈ p.2, s ∈ upgrades := by
  simp only [upgradePathsTo, bind_eq_ok_iff] at h
  obtain ⟨byFrom, hbyFrom, hpaths⟩ := h
  obtain ⟨hleads, hmem⟩ :=
    leadsTo_walk (forward_byFromOf hbyFrom (by simp [Forward])) (of_mem_pathsFrom hpaths hp)
  refine ⟨hleads, fun s hs ↦ ?_⟩
  exact (mem_of_byFromOf hbyFrom (hmem s hs)).resolve_left (by simp)

/-! ### Every search ends -/

theorem refuses_byFromOf :
    Refuses (· ≠ .unfinished) (byFromOf target byFrom upgrades) := by
  induction upgrades generalizing byFrom with
  | nil => nofun
  | cons u rest ih =>
    have hcheck : Refuses (· ≠ UpgradeError.unfinished) (checkUpgrade target byFrom u) := by
      simp only [checkUpgrade, orderIn, refuses_bind_iff, refuses_refuseIf_iff,
        refuses_require_iff]
      simp
    rw [byFromOf, refuses_bind_iff]
    exact ⟨hcheck, fun _ _ ↦ ih⟩

theorem refuses_pathsFrom {starts : List String} (hforward : Forward byFrom) :
    Refuses (· ≠ .unfinished) (pathsFrom byFrom target starts) := by
  induction starts with
  | nil => nofun
  | cons start rest ih =>
    have hahead : ahead byFrom start < byFrom.length + 1 := Nat.lt_succ_of_le List.countP_le_length
    have hwalk : Refuses (· ≠ UpgradeError.unfinished)
        (walk byFrom target start (byFrom.length + 1) start) := by
      rintro e he rfl
      exact walk_ne_unfinished hforward hahead he
    rw [pathsFrom, refuses_bind_iff]
    refine ⟨hwalk, fun steps _ ↦ ?_⟩
    rw [refuses_bind_iff]
    exact ⟨ih, fun _ _ ↦ nofun⟩

/-- The search of the paths ends, whatever the list. -/
theorem refuses_upgradePathsTo :
    Refuses (· ≠ .unfinished) (upgradePathsTo upgrades target) := by
  rw [upgradePathsTo, refuses_bind_iff]
  exact ⟨refuses_byFromOf, fun byFrom hbyFrom ↦
    refuses_pathsFrom (forward_byFromOf hbyFrom (by simp [Forward]))⟩

/-! ### The order of versions as they are written -/

/-- The comparison orders the three versions, and two of them the same only where they are the
same text. -/
structure OrdersTexts (a b c : SchemaVersion) : Prop where
  total : (compareSchemaVersions a.1 b.1).isSome
  swap : compareSchemaVersions b.1 a.1 = (compareSchemaVersions a.1 b.1).map Ordering.swap
  trans : compareSchemaVersions a.1 b.1 ≠ some .gt → compareSchemaVersions b.1 c.1 ≠ some .gt →
    compareSchemaVersions a.1 c.1 ≠ some .gt
  eq : compareSchemaVersions a.1 b.1 = some .eq → a.1 = b.1

/-- The search of the paths ends, and each path leads forward to the target by the upgrades
given. -/
structure FindsPaths (upgrades : List (PolicySchemaUpgrade δ)) (target : String) : Prop where
  ends : upgradePathsTo upgrades target ≠ .error .unfinished
  leads : ∀ paths, upgradePathsTo upgrades target = .ok paths → ∀ p ∈ paths,
    LeadsTo target p.1 p.2 ∧ ∀ s ∈ p.2, s ∈ upgrades

theorem findsPaths (upgrades : List (PolicySchemaUpgrade δ)) (target : String) :
    FindsPaths upgrades target where
  ends := fun h ↦ refuses_upgradePathsTo _ h rfl
  leads := fun _ h _ hp ↦ leadsTo_of_upgradePathsTo h hp

/-- The versions are ordered as they are written, and the paths lead forward, just where two
versions that differ do not have their numbers read as the same doubles. -/
theorem schemaVersions_ordered_iff (a b c : SchemaVersion)
    (upgrades : List (PolicySchemaUpgrade δ)) (target : String) :
    OrdersTexts a b c ∧ FindsPaths upgrades target ↔ a.1 = b.1 ∨ orderOf a.1 ≠ orderOf b.1 := by
  have heq : compareSchemaVersions a.1 b.1 = some .eq ↔ orderOf a.1 = orderOf b.1 :=
    SchemaVersion.compareSchemaVersions_eq_eq_iff
  constructor
  · rintro ⟨horders, -⟩
    by_cases h : orderOf a.1 = orderOf b.1
    · exact .inl (horders.eq (heq.mpr h))
    · exact .inr h
  · intro h
    refine ⟨?_, findsPaths upgrades target⟩
    constructor
    · rw [SchemaVersion.compareSchemaVersions_eq_cmp]
      rfl
    · rw [SchemaVersion.compareSchemaVersions_eq_cmp, SchemaVersion.compareSchemaVersions_eq_cmp,
        Option.map_some, cmp_swap]
    · simp only [SchemaVersion.compareSchemaVersions_eq_cmp, ne_eq, Option.some_inj, cmp_eq_gt_iff,
        not_lt]
      exact le_trans
    · exact fun hzero ↦ h.resolve_right (not_not.mpr (heq.mp hzero))

/-- Two release candidates past the exact numbers that compare as the same. -/
theorem compareSchemaVersions_eq_of_rounded :
    ¬ ∀ a b : SchemaVersion, compareSchemaVersions a.1 b.1 = some .eq → a.1 = b.1 := by
  intro h
  have hsame := h ⟨"1-rc.9007199254740992", by decide⟩ ⟨"1-rc.9007199254740993", by decide⟩
    (by decide +kernel)
  exact absurd hsame (by decide)

end QAuth.Policy
