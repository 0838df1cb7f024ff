import Mathlib.Data.List.Basic
import QAuth.Foundation.Guards

/-!
# Masked secrets of the admin audit log

`maskSecrets` of `mask-secrets.ts`: the fields of a diff that are annotated as secret are replaced by
a marker before the diff is stored. A path of an annotation names members and items, or takes any of
them with `*`.
-/

namespace QAuth.Audit

open Guards

/-- A value of a diff, with numbers in `ν`. -/
inductive DiffValue (ν : Type)
  | null
  | bool (b : Bool)
  | num (x : ν)
  | str (s : String)
  | arr (items : List (DiffValue ν))
  | obj (members : List (String × DiffValue ν))
  /-- An object with another prototype, which is no JSON. -/
  | instanceOf (o : ℕ)

variable {ν : Type}

/-- A value is neither an array nor a plain object. -/
def DiffValue.isLeaf : DiffValue ν → Bool
  | .arr _ | .obj _ => false
  | _ => true

/-- What a secret field holds once masked. -/
def ADMIN_AUDIT_SECRET_MARKER : DiffValue ν := .str "***"

/-- The resource before and after an operation. -/
structure AdminAuditDiff (ν : Type) where
  before : Option (DiffValue ν)
  after : Option (DiffValue ν)

/-- Why a diff is not masked. -/
inductive MaskError
  | emptySegment (path : String)
  /-- A segment names a member and meets an array. -/
  | meetsArray (segment place : String)
  | notPlain (place : String)

/-! ### The walk -/

/-- What is left of an annotation path below a value, and whether a `*` was taken on the way. -/
structure PathRest where
  segments : List String
  wild : Bool

/-- What is left of a path below a member, where it leads there. -/
def descendOne (key : String) (path : PathRest) : Option PathRest :=
  match path.segments with
  | [] => none
  | head :: rest =>
    if head = "*" ∨ head = key then some ⟨rest, path.wild || head = "*"⟩ else none

/-- The paths that continue below a member. -/
def descend (paths : List PathRest) (key : String) : List PathRest :=
  paths.filterMap (descendOne key)

/-- `/^(0|[1-9][0-9]*)$/` -/
def isArrayIndex (segment : String) : Bool :=
  match segment.toList with
  | [] => false
  | first :: rest => (first :: rest).all Char.isDigit && (first ≠ '0' || rest = [])

/-- A path names a member of an array. -/
def isMisplaced (path : PathRest) : Bool :=
  !path.wild && path.segments.head? ≠ some "*" && !(path.segments.head?.any isArrayIndex)

/-- A member is secret: nothing is left of a path to it. -/
def isSecret (below : List PathRest) : Bool := below.any (·.segments = [])

/-- What a member is replaced by: the marker where it is secret, and else what it is masked as. -/
def orMarker (below : List PathRest) (masked : Except MaskError (DiffValue ν)) :
    Except MaskError (DiffValue ν) :=
  if isSecret below then .ok ADMIN_AUDIT_SECRET_MARKER else masked

mutual

/-- A value with its secret fields masked. -/
def mask (paths : List PathRest) (place : String) : DiffValue ν → Except MaskError (DiffValue ν)
  | .arr items =>
    if paths = [] then .ok (.arr items)
    else do
      refuseSome ((paths.find? isMisplaced).map fun path ↦
        .meetsArray (path.segments.head?.getD "undefined") place)
      let masked ← maskItems paths place 0 items
      .ok (.arr masked)
  | .obj members =>
    if paths = [] then .ok (.obj members)
    else do
      let masked ← maskMembers paths place members
      .ok (.obj masked)
  | .instanceOf o => if paths = [] then .ok (.instanceOf o) else .error (.notPlain place)
  | v => .ok v

/-- The items of an array from an index on. -/
def maskItems (paths : List PathRest) (place : String) (i : ℕ) :
    List (DiffValue ν) → Except MaskError (List (DiffValue ν))
  | [] => .ok []
  | v :: vs => do
    let below := descend paths (toString i)
    let masked ← orMarker below (mask below (place ++ "." ++ toString i) v)
    let rest ← maskItems paths place (i + 1) vs
    .ok (masked :: rest)

/-- The members of an object. -/
def maskMembers (paths : List PathRest) (place : String) :
    List (String × DiffValue ν) → Except MaskError (List (String × DiffValue ν))
  | [] => .ok []
  | (key, v) :: vs => do
    let below := descend paths key
    let masked ← orMarker below (mask below (place ++ "." ++ key) v)
    let rest ← maskMembers paths place vs
    .ok ((key, masked) :: rest)

end

/-- A set of paths. -/
abbrev Places := List String → Bool

/-- The paths of a set that lead on from a member. -/
def Places.below (S : Places) (key : String) : Places := fun path ↦ S (key :: path)

/-- A pattern of names and `*` takes a path. -/
def takes : List String → List String → Bool
  | [], [] => true
  | s :: pattern, k :: path => (s = "*" || s = k) && takes pattern path
  | _, _ => false

mutual

/-- Two values are alike but for what they hold where a path is marked, which `R` relates. -/
def AlikeBut (R : DiffValue ν → DiffValue ν → Prop) (S : Places) :
    DiffValue ν → DiffValue ν → Prop
  | .arr items, w => ∃ items', w = .arr items' ∧ ItemsAlikeBut R S 0 items items'
  | .obj members, w => ∃ members', w = .obj members' ∧ MembersAlikeBut R S members members'
  | v, w => v = w

/-- The items of two arrays are alike, from an index on. -/
def ItemsAlikeBut (R : DiffValue ν → DiffValue ν → Prop) (S : Places) (i : ℕ) :
    List (DiffValue ν) → List (DiffValue ν) → Prop
  | [], ws => ws = []
  | v :: vs, ws => ∃ w rest, ws = w :: rest ∧
      (if S [toString i] then R v w else AlikeBut R (S.below (toString i)) v w) ∧
      ItemsAlikeBut R S (i + 1) vs rest

/-- The members of two objects are alike. -/
def MembersAlikeBut (R : DiffValue ν → DiffValue ν → Prop) (S : Places) :
    List (String × DiffValue ν) → List (String × DiffValue ν) → Prop
  | [], ws => ws = []
  | (key, v) :: vs, ws => ∃ w rest, ws = (key, w) :: rest ∧
      (if S [key] then R v w else AlikeBut R (S.below key) v w) ∧ MembersAlikeBut R S vs rest

end

def placesOf (paths : List PathRest) : Places := fun path ↦ paths.any fun p ↦ takes p.segments path

theorem takes_nil_right {pattern : List String} : takes pattern [] = decide (pattern = []) := by
  cases pattern <;> simp [takes]

/-- What is left of a path below a member takes what the path takes there. -/
theorem any_takes_descendOne (key : String) (p : PathRest) (path : List String) :
    (descendOne key p).any (fun rest ↦ takes rest.segments path) = takes p.segments (key :: path) := by
  obtain ⟨segments, wild⟩ := p
  cases segments with
  | nil => rfl
  | cons head segments =>
    by_cases h : head = "*" ∨ head = key
    · simp [descendOne, takes, h]
    · simp [descendOne, takes, h]

theorem placesOf_descend (paths : List PathRest) (key : String) :
    placesOf (descend paths key) = (placesOf paths).below key := by
  funext path
  simp only [placesOf, Places.below, descend]
  induction paths with
  | nil => rfl
  | cons p rest ih =>
    rw [List.any_cons, ← any_takes_descendOne, ← ih]
    cases h : descendOne key p with
    | none => simp [h]
    | some left => simp [h]

theorem isSecret_descend (paths : List PathRest) (key : String) :
    isSecret (descend paths key) = placesOf paths [key] := by
  have h := congrFun (placesOf_descend paths key) []
  rw [Places.below] at h
  rw [← h]
  simp only [isSecret, placesOf, takes_nil_right]

section Walk

variable {paths : List PathRest} {place : String}

theorem alikeBut_iff_eq {R : DiffValue ν → DiffValue ν → Prop} {S : Places} {v w : DiffValue ν}
    (h : v.isLeaf = true) : AlikeBut R S v w ↔ v = w := by
  cases v with
  | arr items => cases h
  | obj members => cases h
  | _ => simp only [AlikeBut]

/-- With no path left, nothing is masked. -/
theorem mask_nil (v : DiffValue ν) : mask [] place v = .ok v := by
  cases v <;> simp [mask]

theorem maskItems_nil (i : ℕ) (vs : List (DiffValue ν)) : maskItems [] place i vs = .ok vs := by
  induction vs generalizing i with
  | nil => rw [maskItems]
  | cons v vs ih =>
    rw [maskItems, ih, descend, List.filterMap_nil, mask_nil]
    rfl

theorem maskMembers_nil (vs : List (String × DiffValue ν)) : maskMembers [] place vs = .ok vs := by
  induction vs with
  | nil => rw [maskMembers]
  | cons m vs ih =>
    obtain ⟨key, v⟩ := m
    rw [maskMembers, ih, descend, List.filterMap_nil, mask_nil]
    rfl

mutual

/-- Values that differ only in what they hold at marked paths are masked alike. -/
theorem mask_eq_of_alikeBut :
    ∀ {v w : DiffValue ν} {paths : List PathRest} {place : String},
      AlikeBut (fun _ _ ↦ True) (placesOf paths) v w → mask paths place v = mask paths place w
  | .arr items, w, paths, place, h => by
    rw [AlikeBut] at h
    obtain ⟨items', rfl, hitems⟩ := h
    have hmasked : maskItems paths place 0 items = maskItems paths place 0 items' :=
      maskItems_eq_of_alikeBut hitems
    by_cases hpaths : paths = []
    · subst hpaths
      rw [maskItems_nil, maskItems_nil] at hmasked
      rw [Except.ok.inj hmasked]
    · rw [mask, mask, if_neg hpaths, if_neg hpaths, hmasked]
  | .obj members, w, paths, place, h => by
    rw [AlikeBut] at h
    obtain ⟨members', rfl, hmembers⟩ := h
    have hmasked : maskMembers paths place members = maskMembers paths place members' :=
      maskMembers_eq_of_alikeBut hmembers
    by_cases hpaths : paths = []
    · subst hpaths
      rw [maskMembers_nil, maskMembers_nil] at hmasked
      rw [Except.ok.inj hmasked]
    · rw [mask, mask, if_neg hpaths, if_neg hpaths, hmasked]
  | .null, w, paths, place, h => by rw [(alikeBut_iff_eq rfl).mp h]
  | .bool _, w, paths, place, h => by rw [(alikeBut_iff_eq rfl).mp h]
  | .num _, w, paths, place, h => by rw [(alikeBut_iff_eq rfl).mp h]
  | .str _, w, paths, place, h => by rw [(alikeBut_iff_eq rfl).mp h]
  | .instanceOf _, w, paths, place, h => by rw [(alikeBut_iff_eq rfl).mp h]

theorem maskItems_eq_of_alikeBut :
    ∀ {vs ws : List (DiffValue ν)} {paths : List PathRest} {place : String} {i : ℕ},
      ItemsAlikeBut (fun _ _ ↦ True) (placesOf paths) i vs ws →
        maskItems paths place i vs = maskItems paths place i ws
  | [], ws, paths, place, i, h => by
    rw [ItemsAlikeBut] at h
    rw [h]
  | v :: vs, ws, paths, place, i, h => by
    rw [ItemsAlikeBut] at h
    obtain ⟨w, rest, rfl, hhere, hrest⟩ := h
    rw [maskItems, maskItems, maskItems_eq_of_alikeBut hrest, orMarker, orMarker,
      isSecret_descend]
    split_ifs at hhere ⊢
    · rfl
    · rw [← placesOf_descend] at hhere
      rw [mask_eq_of_alikeBut hhere]

theorem maskMembers_eq_of_alikeBut :
    ∀ {vs ws : List (String × DiffValue ν)} {paths : List PathRest} {place : String},
      MembersAlikeBut (fun _ _ ↦ True) (placesOf paths) vs ws →
        maskMembers paths place vs = maskMembers paths place ws
  | [], ws, paths, place, h => by
    rw [MembersAlikeBut] at h
    rw [h]
  | (key, v) :: vs, ws, paths, place, h => by
    rw [MembersAlikeBut] at h
    obtain ⟨w, rest, rfl, hhere, hrest⟩ := h
    rw [maskMembers, maskMembers, maskMembers_eq_of_alikeBut hrest, orMarker, orMarker,
      isSecret_descend]
    split_ifs at hhere ⊢
    · rfl
    · rw [← placesOf_descend] at hhere
      rw [mask_eq_of_alikeBut hhere]

end

/-! ### Nothing else changes -/

theorem eq_of_mask_leaf {v masked : DiffValue ν} (hleaf : v.isLeaf = true)
    (h : mask paths place v = .ok masked) : v = masked := by
  cases v with
  | arr items => cases hleaf
  | obj members => cases hleaf
  | instanceOf o =>
    rw [mask] at h
    split_ifs at h
    exact Except.ok.inj h
  | _ => simpa [mask] using h

theorem alikeBut_of_orMarker {R : DiffValue ν → DiffValue ν → Prop} {key : String}
    {v masked : DiffValue ν} {inner : Except MaskError (DiffValue ν)}
    (h : orMarker (descend paths key) inner = .ok masked) (hmarker : R v ADMIN_AUDIT_SECRET_MARKER)
    (hinner : inner = .ok masked → AlikeBut R (placesOf (descend paths key)) v masked) :
    if placesOf paths [key] then R v masked
    else AlikeBut R ((placesOf paths).below key) v masked := by
  rw [orMarker, isSecret_descend] at h
  split_ifs at h ⊢
  · cases h
    exact hmarker
  · rw [← placesOf_descend]
    exact hinner h

mutual

theorem alikeBut_of_mask :
    ∀ {v masked : DiffValue ν} {paths : List PathRest} {place : String},
      mask paths place v = .ok masked →
        AlikeBut (fun _ w ↦ w = ADMIN_AUDIT_SECRET_MARKER) (placesOf paths) v masked
  | .arr items, masked, paths, place, h => by
    have hitems : ∃ items', masked = .arr items' ∧ maskItems paths place 0 items = .ok items' := by
      by_cases hpaths : paths = []
      · subst hpaths
        rw [mask_nil] at h
        cases h
        exact ⟨items, rfl, maskItems_nil 0 items⟩
      · rw [mask, if_neg hpaths] at h
        simp only [bind_eq_ok_iff] at h
        obtain ⟨_, -, items', hitems, h⟩ := h
        cases h
        exact ⟨items', rfl, hitems⟩
    obtain ⟨items', rfl, hitems⟩ := hitems
    rw [AlikeBut]
    exact ⟨items', rfl, itemsAlikeBut_of_maskItems hitems⟩
  | .obj members, masked, paths, place, h => by
    have hmembers : ∃ members', masked = .obj members' ∧
        maskMembers paths place members = .ok members' := by
      by_cases hpaths : paths = []
      · subst hpaths
        rw [mask_nil] at h
        cases h
        exact ⟨members, rfl, maskMembers_nil members⟩
      · rw [mask, if_neg hpaths] at h
        simp only [bind_eq_ok_iff] at h
        obtain ⟨members', hmembers, h⟩ := h
        cases h
        exact ⟨members', rfl, hmembers⟩
    obtain ⟨members', rfl, hmembers⟩ := hmembers
    rw [AlikeBut]
    exact ⟨members', rfl, membersAlikeBut_of_maskMembers hmembers⟩
  | .null, masked, paths, place, h => (alikeBut_iff_eq rfl).mpr (eq_of_mask_leaf rfl h)
  | .bool _, masked, paths, place, h => (alikeBut_iff_eq rfl).mpr (eq_of_mask_leaf rfl h)
  | .num _, masked, paths, place, h => (alikeBut_iff_eq rfl).mpr (eq_of_mask_leaf rfl h)
  | .str _, masked, paths, place, h => (alikeBut_iff_eq rfl).mpr (eq_of_mask_leaf rfl h)
  | .instanceOf _, masked, paths, place, h => (alikeBut_iff_eq rfl).mpr (eq_of_mask_leaf rfl h)

theorem itemsAlikeBut_of_maskItems :
    ∀ {vs masked : List (DiffValue ν)} {paths : List PathRest} {place : String} {i : ℕ},
      maskItems paths place i vs = .ok masked →
        ItemsAlikeBut (fun _ w ↦ w = ADMIN_AUDIT_SECRET_MARKER) (placesOf paths) i vs masked
  | [], masked, paths, place, i, h => by
    rw [maskItems] at h
    rw [ItemsAlikeBut, ← Except.ok.inj h]
  | v :: vs, masked, paths, place, i, h => by
    simp only [maskItems, bind_eq_ok_iff] at h
    obtain ⟨w, hhere, rest, hrest, h⟩ := h
    rw [ItemsAlikeBut]
    exact ⟨w, rest, (Except.ok.inj h).symm,
      alikeBut_of_orMarker hhere rfl fun hinner ↦ alikeBut_of_mask hinner,
      itemsAlikeBut_of_maskItems hrest⟩

theorem membersAlikeBut_of_maskMembers :
    ∀ {vs masked : List (String × DiffValue ν)} {paths : List PathRest} {place : String},
      maskMembers paths place vs = .ok masked →
        MembersAlikeBut (fun _ w ↦ w = ADMIN_AUDIT_SECRET_MARKER) (placesOf paths) vs masked
  | [], masked, paths, place, h => by
    rw [maskMembers] at h
    rw [MembersAlikeBut, ← Except.ok.inj h]
  | (key, v) :: vs, masked, paths, place, h => by
    simp only [maskMembers, bind_eq_ok_iff] at h
    obtain ⟨w, hhere, rest, hrest, h⟩ := h
    rw [MembersAlikeBut]
    exact ⟨w, rest, (Except.ok.inj h).symm,
      alikeBut_of_orMarker hhere rfl fun hinner ↦ alikeBut_of_mask hinner,
      membersAlikeBut_of_maskMembers hrest⟩

end

end Walk

/-! ### Diffs -/

mutual

/-- A value without what is at the marked paths. -/
def withoutSecrets (S : Places) : DiffValue ν → DiffValue ν
  | .arr items => .arr (itemsWithoutSecrets S 0 items)
  | .obj members => .obj (membersWithoutSecrets S members)
  | v => v

/-- The items of an array from an index on, without those at the marked paths. -/
def itemsWithoutSecrets (S : Places) (i : ℕ) : List (DiffValue ν) → List (DiffValue ν)
  | [] => []
  | v :: vs =>
    (if S [toString i] then [] else [withoutSecrets (S.below (toString i)) v]) ++
      itemsWithoutSecrets S (i + 1) vs

/-- The members of an object, without those at the marked paths. -/
def membersWithoutSecrets (S : Places) :
    List (String × DiffValue ν) → List (String × DiffValue ν)
  | [] => []
  | (key, v) :: vs =>
    (if S [key] then [] else [(key, withoutSecrets (S.below key) v)]) ++
      membersWithoutSecrets S vs

end

/-- A diff in which a resource is made with some members. -/
def creation (members : List (String × DiffValue ν)) : AdminAuditDiff ν := ⟨none, some (.obj members)⟩

end QAuth.Audit
