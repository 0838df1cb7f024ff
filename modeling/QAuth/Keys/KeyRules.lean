import Mathlib.Data.List.Infix
import QAuth.Keys.KeyTransactions

/-!
# What the key factory does before it writes

Before the key factory stores a key it has drawn the key's id, read the clock and, for a key that is to
wait, found no other one in its slot; before it activates a key it has listed it as one that was shown
for the prepublish window. Each is a rule about a statement and the statements before it in the same
transaction, and every call of the key factory obeys them.
-/

namespace QAuth.Keys

open Effect (Event)
open Guards
open Program hiding ask

/-! ### What a transaction was told -/

def drewOf : Event StorePorts → Option String
  | ⟨.generateKeyMaterial _, generated⟩ => some (GeneratedKeyMaterial.kid generated)
  | _ => none

/-- The key ids that a transaction drew. -/
def drew (trace : List (Event StorePorts)) : List String := trace.filterMap drewOf

def clockOf : Event StorePorts → Option ℕ
  | ⟨.now, n⟩ => some n
  | _ => none

/-- The readings of the clock. -/
def clockReads (trace : List (Event StorePorts)) : List ℕ := trace.filterMap clockOf

def listedAfter (known : List (String × RealmKey)) : Event StorePorts → List (String × RealmKey)
  | ⟨.listByRealm realmId _, rows⟩ => known ++ List.map (fun row : RealmKey ↦ (realmId, row)) rows
  | ⟨.create _, _⟩ => []
  | _ => known

/-- The rows that were listed since the transaction last stored a key, with the realm asked for. -/
def listed (trace : List (Event StorePorts)) : List (String × RealmKey) :=
  trace.foldl listedAfter []

def waitingAfter (slots : List KeySlot) (e : Event StorePorts) : List KeySlot :=
  match e with
  | ⟨.create row, _⟩ => slots.filter (· ≠ row.slot)
  | e => slots ++ (passedCheck e).toList

/-- The slots in which the transaction found no key that waits, and stored none since. -/
def waiting (trace : List (Event StorePorts)) : List KeySlot := trace.foldl waitingAfter []

variable {trace : List (Event StorePorts)} {e : Event StorePorts} {row : RealmKey} {slot : KeySlot}
  {kid : String} {n : ℕ}

@[simp] theorem drew_append : drew (trace ++ [e]) = drew trace ++ (drewOf e).toList := by
  rw [drew, List.filterMap_append]
  rcases h : drewOf e with _ | id <;> simp [drew, h]

@[simp] theorem clockReads_append :
    clockReads (trace ++ [e]) = clockReads trace ++ (clockOf e).toList := by
  rw [clockReads, List.filterMap_append]
  rcases h : clockOf e with _ | m <;> simp [clockReads, h]

theorem mem_clockReads_append : n ∈ clockReads (trace ++ [⟨.now, n⟩]) := by
  rw [clockReads_append]
  exact List.mem_append_right _ (List.mem_singleton_self n)

@[simp] theorem passedChecks_append :
    passedChecks (trace ++ [e]) = passedChecks trace ++ (passedCheck e).toList := by
  rw [passedChecks, List.filterMap_append]
  rcases h : passedCheck e with _ | slot <;> simp [passedChecks, h]

@[simp] theorem listed_append : listed (trace ++ [e]) = listedAfter (listed trace) e := by
  simp [listed]

@[simp] theorem waiting_append : waiting (trace ++ [e]) = waitingAfter (waiting trace) e := by
  simp [waiting]

theorem waitingAfter_subset {slots : List KeySlot} (h : slot ∈ waitingAfter slots e) :
    slot ∈ slots ∨ slot ∈ passedCheck e := by
  unfold waitingAfter at h
  split at h
  · exact .inl (List.mem_of_mem_filter h)
  · rcases List.mem_append.mp h with h | h
    · exact .inl h
    · exact .inr (Option.mem_toList.mp h)

/-- A transaction waits to store a key only where it has passed a check. -/
theorem mem_passedChecks_of_mem_waiting (h : slot ∈ waiting trace) : slot ∈ passedChecks trace := by
  induction trace using List.reverseRecOn with
  | nil => cases h
  | append_singleton trace e ih =>
    rw [waiting_append] at h
    rw [passedChecks_append]
    rcases waitingAfter_subset h with h | h
    · exact List.mem_append_left _ (ih h)
    · exact List.mem_append_right _ (Option.mem_toList.mpr h)

/-! ### The rules -/

/-- A row as the key factory makes it: the realm id in lower case, and a scope and an algorithm that
fit the purpose. -/
structure WellFormed (row : RealmKey) : Prop where
  realm : isRealmId row.realmId = true
  lower : lowerRealmId row.realmId = row.realmId
  scope : ∀ scopeId ∈ row.scopeId, (KEY_PURPOSES row.purpose).isScoped = true ∧
    isScopeId scopeId = true
  algorithm : row.algorithm ∈ (KEY_PURPOSES row.purpose).algorithms

/-- What the transaction was told before it stores a key. -/
structure NewRow (trace : List (Event StorePorts)) (row : RealmKey) : Prop where
  drew : row.kid ∈ drew trace
  status : row.status = .active ∨ row.status = .next
  waits : row.status = .next → row.slot ∈ waiting trace
  created : row.createdAt ∈ clockReads trace
  published : ∀ m ∈ row.publishAt, m = row.createdAt
  activated : ∀ m ∈ row.activateAt, m = row.createdAt
  wellFormed : WellFormed row

def ShownForWindow (options : KeyFactoryOptions) (trace : List (Event StorePorts)) (realmId kid : String)
    (at' : ℕ) : Prop :=
  at' ∈ clockReads trace ∧ ∃ row, (realmId, row) ∈ listed trace ∧ row.kid = kid ∧
    row.status = .next ∧ row.shownAt + options.prepublishMs ≤ at'

/-- What a transaction was told before a statement. -/
def KeyRule (options : KeyFactoryOptions) (trace : List (Event StorePorts)) : StoreCall → Prop
  | .create row => NewRow trace row
  | .updateStatus realmId kid (.active at') => ShownForWindow options trace realmId kid at'
  | _ => True

/-! ### Creating keys -/

variable {options : KeyFactoryOptions} {request : KeyRequest} {pairId : Option String} {at' : ℕ}
  {prepared : List PreparedKey} {p : PreparedKey} {input : CreateKeyInput}

/-- What was told stays told, up to the next key that is stored. -/
structure Extends (trace trace' : List (Event StorePorts)) : Prop where
  drew : ∀ kid ∈ drew trace, kid ∈ drew trace'
  clock : ∀ n ∈ clockReads trace, n ∈ clockReads trace'
  waiting : ∀ slot ∈ waiting trace, slot ∈ waiting trace'

theorem Extends.refl (trace : List (Event StorePorts)) : Extends trace trace :=
  ⟨fun _ h ↦ h, fun _ h ↦ h, fun _ h ↦ h⟩

theorem Extends.trans {trace' trace'' : List (Event StorePorts)} (h : Extends trace trace')
    (h' : Extends trace' trace'') : Extends trace trace'' :=
  ⟨fun _ hk ↦ h'.drew _ (h.drew _ hk), fun _ hn ↦ h'.clock _ (h.clock _ hn),
    fun _ hs ↦ h'.waiting _ (h.waiting _ hs)⟩

/-- A statement that stores no key. -/
theorem Extends.append (hcreate : ∀ row, e.call ≠ .create row) : Extends trace (trace ++ [e]) where
  drew kid h := by
    rw [drew_append]
    exact List.mem_append_left _ h
  clock n h := by
    rw [clockReads_append]
    exact List.mem_append_left _ h
  waiting slot h := by
    rw [waiting_append, waitingAfter.eq_def]
    split
    · rename_i row a
      exact absurd rfl (hcreate row)
    · exact List.mem_append_left _ h

/-- A request as it was resolved. -/
structure ResolvedRequest (request : KeyRequest) : Prop where
  realm : isRealmId request.realmId = true
  lower : lowerRealmId request.realmId = request.realmId
  scope : ∀ scopeId ∈ request.scopeId, (KEY_PURPOSES request.purpose).isScoped = true ∧
    isScopeId scopeId = true
  algorithms : ∀ algorithm ∈ request.algorithms,
    algorithm ∈ (KEY_PURPOSES request.purpose).algorithms
  nodup : request.algorithms.Nodup

/-- What the transaction was told of a prepared key. -/
structure Prepared (trace : List (Event StorePorts)) (request : KeyRequest) (p : PreparedKey) :
    Prop where
  drew : p.stored.kid ∈ drew trace
  status : p.stored.status = request.status.stored
  created : p.stored.createdAt ∈ clockReads trace
  published : ∀ m ∈ p.stored.publishAt, m = p.stored.createdAt
  activated : ∀ m ∈ p.stored.activateAt, m = p.stored.createdAt
  slot : p.stored.slot =
    ⟨request.realmId, request.purpose, request.scopeId, p.stored.algorithm⟩

theorem Prepared.mono {trace' : List (Event StorePorts)} (h : Prepared trace request p)
    (hext : Extends trace trace') : Prepared trace' request p :=
  { h with
    drew := hext.drew _ h.drew
    created := hext.clock _ h.created }

/-! ### Requests -/

theorem toList_lowerRealmId (realmId : String) :
    (lowerRealmId realmId).toList = realmId.toList.map Char.toLower := by
  rw [lowerRealmId, String.toList_ofList]

theorem map_toLower_of_isRealmId {realmId : String} (h : isRealmId realmId = true) :
    (lowerRealmId realmId).toList.map Char.toLower = realmId.toList.map Char.toLower := by
  have hnum := UuidText.text_value (of_decide_eq_true h)
  rw [toList_lowerRealmId, ← hnum, UuidText.map_toLower_text]

/-- A stored realm id is in lower case already. -/
theorem lowerRealmId_of_isRealmId {realmId : String} (h : isRealmId realmId = true) :
    lowerRealmId (lowerRealmId realmId) = lowerRealmId realmId :=
  congrArg String.ofList (map_toLower_of_isRealmId h)

theorem isRealmId_lowerRealmId {realmId : String} (h : isRealmId realmId = true) :
    isRealmId (lowerRealmId realmId) = true := by
  unfold isRealmId
  rw [map_toLower_of_isRealmId h]
  exact h

theorem companionOf_ne {purpose : KeyPurpose} {algorithm companion : KeyAlgorithm}
    (h : companionOf options purpose algorithm = some companion) :
    companion ≠ algorithm ∧ companion ∈ (KEY_PURPOSES purpose).algorithms := by
  rw [companionOf] at h
  split_ifs at h with hdefault
  rw [hdefault.2]
  revert h
  cases purpose <;> rintro ⟨⟩
  decide

theorem requestedAlgorithms_spec {purpose : KeyPurpose} {algorithm : KeyAlgorithm}
    {algorithms : List KeyAlgorithm}
    (h : requestedAlgorithms options purpose algorithm = .ok algorithms) :
    algorithms = algorithm :: (companionOf options purpose algorithm).toList := by
  rw [requestedAlgorithms] at h
  split at h
  · rename_i hnone
    rw [hnone]
    exact (pure_eq_ok_iff.mp h).symm
  · rename_i companion hsome
    obtain ⟨_, -, h⟩ := bind_eq_ok_iff.mp h
    rw [hsome]
    exact (pure_eq_ok_iff.mp h).symm

theorem resolveScopeId_spec {purpose : KeyPurpose} {requested scopeId : Option String}
    (h : resolveScopeId purpose requested = .ok scopeId) :
    ∀ id ∈ scopeId, (KEY_PURPOSES purpose).isScoped = true ∧ isScopeId id = true := by
  rw [resolveScopeId] at h
  split_ifs at h with hscoped
  · simp only [bind_eq_ok_iff, refuseIf_eq_ok_iff, pure_eq_ok_iff, Decidable.not_not] at h
    obtain ⟨id, -, _, hid, rfl⟩ := h
    rintro id' ⟨⟩
    exact ⟨hscoped, hid⟩
  · simp only [bind_eq_ok_iff, pure_eq_ok_iff] at h
    obtain ⟨_, -, rfl⟩ := h
    exact fun id hid ↦ by cases hid

/-- A request that is not refused is well formed. -/
theorem resolvedRequest_of_ok (h : resolveRequest options input = .ok request) :
    ResolvedRequest request := by
  simp only [resolveRequest, resolveRealmId, bind_eq_ok_iff, refuseIf_eq_ok_iff,
    pure_eq_ok_iff, Decidable.not_not] at h
  obtain ⟨_, ⟨_, hrealm, rfl⟩, _, -, scopeId, hscope, _, hallowed, _, -, _, -, algorithms,
    halgorithms, rfl⟩ := h
  obtain rfl := requestedAlgorithms_spec halgorithms
  refine ⟨isRealmId_lowerRealmId hrealm, lowerRealmId_of_isRealmId hrealm,
    resolveScopeId_spec hscope, fun algorithm hmem ↦ ?_, ?_⟩
  · rcases List.mem_cons.mp hmem with rfl | hmem
    · exact hallowed
    · exact (companionOf_ne (Option.mem_toList.mp hmem)).2
  · refine List.nodup_cons.mpr ⟨fun hmem ↦ ?_, ?_⟩
    · exact (companionOf_ne (Option.mem_toList.mp hmem)).1 rfl
    · cases companionOf options input.purpose _ <;> simp

/-! ### What a program was told when it ends -/

/-- How key generation ends: with a key for each algorithm, each drawn since. -/
def PreparesKeys (trace : List (Event StorePorts)) (request : KeyRequest)
    (algorithms : List KeyAlgorithm) (r : Except KeyError (List PreparedKey))
    (trace' : List (Event StorePorts)) : Prop :=
  Extends trace trace' ∧ ∀ prepared, r = .ok prepared →
    prepared.map (·.stored.algorithm) = algorithms ∧ ∀ p ∈ prepared, Prepared trace' request p

theorem PreparesKeys.of_error {algorithms : List KeyAlgorithm} {err : KeyError}
    {trace' : List (Event StorePorts)} (h : Extends trace trace') :
    PreparesKeys trace request algorithms (.error err) trace' :=
  ⟨h, fun _ hr ↦ by cases hr⟩

/-- A row that was just made. -/
theorem prepared_newKeyRow {algorithm : KeyAlgorithm} {generated : GeneratedKeyMaterial}
    {kekRef : String} {secret : Option (List UInt8)} (hdrew : generated.kid ∈ drew trace)
    (hclock : at' ∈ clockReads trace) :
    Prepared trace request ⟨newKeyRow request pairId at' algorithm generated kekRef, secret⟩ where
  drew := hdrew
  status := rfl
  created := hclock
  published m hm := by
    rw [RealmKey.publishAt, newKeyRow] at hm
    split at hm
    · simp only [Option.map_map] at hm
      obtain ⟨jwk, -, rfl⟩ := Option.mem_map.mp hm
      rfl
    · cases hm
  activated m hm := by
    have hm : (if request.status = .active then some at' else none) = some m := hm
    obtain ⟨-, hm⟩ := Option.ite_none_right_eq_some.mp hm
    exact (Option.some.inj hm).symm
  slot := rfl

theorem wp_prepareEach {algorithms : List KeyAlgorithm} (hclock : at' ∈ clockReads trace) :
    wp (KeyRule options) trace (prepareEach options request pairId at' algorithms)
      (PreparesKeys trace request algorithms) := by
  induction algorithms generalizing trace with
  | nil =>
    refine ⟨.refl trace, fun prepared hr ↦ ?_⟩
    cases hr
    exact ⟨rfl, fun p hp ↦ by cases hp⟩
  | cons algorithm rest ih =>
    rw [prepareEach, wp_ofExcept_bind]
    cases assertAllowedBySigningMode algorithm options.enabledSignatureAlgorithms with
    | error err => exact .of_error (.refl trace)
    | ok =>
      rw [andThen_ok, wp_ask_bind]
      refine ⟨trivial, fun generated ↦ ?_⟩
      have hgenerated : Extends trace (trace ++ [⟨.generateKeyMaterial algorithm, generated⟩]) :=
        .append fun row h ↦ by cases h
      rw [wp_ask_bind]
      refine ⟨trivial, fun kekRef ↦ ?_⟩
      have hsealed := hgenerated.trans
        (.append (e := ⟨.sealKeyMaterial, kekRef⟩) fun row h ↦ by cases h)
      cases kekRef with
      | none => exact .of_error hsealed
      | some kekRef =>
        by_cases hjwk : ((KEY_PURPOSES request.purpose).published &&
            generated.publicJwk.isNone) = true
        · simp only [if_pos hjwk]
          exact .of_error hsealed
        · simp only [if_neg hjwk]
          rw [wp_bind]
          refine wp_mono (ih (hsealed.clock _ hclock)) fun r trace' hpost ↦ ?_
          obtain ⟨hext, hprepared⟩ := hpost
          cases r with
          | error err => exact .of_error (hsealed.trans hext)
          | ok prepared =>
            obtain ⟨halgorithms, hall⟩ := hprepared prepared rfl
            refine ⟨hsealed.trans hext, fun all hr ↦ ?_⟩
            cases hr
            refine ⟨congrArg (algorithm :: ·) halgorithms, fun p hp ↦ ?_⟩
            rcases List.mem_cons.mp hp with rfl | hp
            · refine prepared_newKeyRow (hext.drew _ ?_) (hext.clock _ (hsealed.clock _ hclock))
              rw [drew_append, drew_append]
              simp [drewOf]
            · exact hall p hp

theorem wp_prepareKeys : wp (KeyRule options) trace (prepareKeys options request)
    (PreparesKeys trace request request.algorithms) := by
  rw [prepareKeys]
  split_ifs
  · rw [wp_ask_bind]
    refine ⟨trivial, fun id ↦ ?_⟩
    have huuid : Extends trace (trace ++ [⟨.randomUUID, id⟩]) := .append fun row h ↦ by cases h
    rw [wp_ask_bind]
    refine ⟨trivial, fun n ↦ ?_⟩
    have hnow := huuid.trans (.append (e := ⟨.now, n⟩) fun row h ↦ by cases h)
    refine wp_mono (wp_prepareEach mem_clockReads_append) fun r trace' hpost ↦ ?_
    exact ⟨hnow.trans hpost.1, hpost.2⟩
  · rw [wp_ask_bind]
    refine ⟨trivial, fun n ↦ ?_⟩
    have hnow : Extends trace (trace ++ [⟨.now, n⟩]) := .append fun row h ↦ by cases h
    refine wp_mono (wp_prepareEach mem_clockReads_append) fun r trace' hpost ↦ ?_
    exact ⟨hnow.trans hpost.1, hpost.2⟩

/-- How the check of new keys ends: each key that is to wait has passed its check. -/
def ChecksKeys (trace : List (Event StorePorts)) (prepared : List PreparedKey)
    (r : Except KeyError Unit) (trace' : List (Event StorePorts)) : Prop :=
  Extends trace trace' ∧ ∀ u, r = .ok u → ∀ p ∈ prepared, p.stored.status = .next →
    p.stored.slot ∈ waiting trace'

theorem ChecksKeys.of_error {err : KeyError} {trace' : List (Event StorePorts)}
    (h : Extends trace trace') : ChecksKeys trace prepared (.error err) trace' :=
  ⟨h, fun _ hr ↦ by cases hr⟩

theorem wp_checkNewKeys {seen : List String} :
    wp (KeyRule options) trace (checkNewKeys seen prepared) (ChecksKeys trace prepared) := by
  induction prepared generalizing trace seen with
  | nil => exact ⟨.refl trace, fun u _ p hp ↦ by cases hp⟩
  | cons p rest ih =>
    rw [checkNewKeys]
    by_cases hseen : seen.contains p.stored.kid = true
    · simp only [if_pos hseen]
      exact .of_error (.refl trace)
    · simp only [if_neg hseen]
      rw [wp_ask_bind]
      refine ⟨trivial, fun known ↦ ?_⟩
      have hknown : Extends trace
          (trace ++ [⟨.findByKid p.stored.realmId p.stored.kid, known⟩]) :=
        .append fun row h ↦ by cases h
      by_cases hsome : Option.isSome known = true
      · simp only [if_pos hsome]
        exact .of_error hknown
      · simp only [if_neg hsome]
        rw [wp_ask_bind]
        refine ⟨trivial, fun sameStatus ↦ ?_⟩
        have hlisted := hknown.trans (.append (e := ⟨.listByRealm p.stored.realmId
          ⟨p.stored.purpose, p.stored.scopeId, some p.stored.status, some p.stored.algorithm⟩,
          sameStatus⟩) fun row h ↦ by cases h)
        by_cases hempty : List.isEmpty sameStatus = true
        · simp only [if_pos hempty]
          refine wp_mono ih fun r trace' hpost ↦ ⟨hlisted.trans hpost.1, fun u hr q hq hnext ↦ ?_⟩
          rcases List.mem_cons.mp hq with rfl | hq
          · refine hpost.1.waiting _ ?_
            rw [hnext, waiting_append]
            simp [waitingAfter, passedCheck, hempty, RealmKey.slot]
          · exact hpost.2 u hr q hq hnext
        · simp only [if_neg hempty]
          split_ifs
          · exact .of_error hlisted
          · exact .of_error hlisted

/-- Keys that were prepared for one request, and have passed their checks, may be stored. -/
theorem wp_storeNewKeys (hreq : ResolvedRequest request)
    (hmem : ∀ p ∈ prepared, Prepared trace request p ∧ p.stored.algorithm ∈ request.algorithms)
    (hwaits : ∀ p ∈ prepared, p.stored.status = .next → p.stored.slot ∈ waiting trace)
    (hnodup : (prepared.map (·.stored.algorithm)).Nodup) :
    wp (KeyRule options) trace (storeNewKeys prepared) fun _ _ ↦ True := by
  induction prepared generalizing trace with
  | nil => trivial
  | cons p rest ih =>
    obtain ⟨hp, halgorithm⟩ := hmem p List.mem_cons_self
    have hslot := hp.slot
    rw [RealmKey.slot, KeySlot.mk.injEq] at hslot
    obtain ⟨hrealm, hpurpose, hscope, -⟩ := hslot
    rw [storeNewKeys, wp_ask_bind]
    refine ⟨⟨hp.drew, ?_, hwaits p List.mem_cons_self, hp.created, hp.published,
      hp.activated, ?_⟩,
      fun stored ↦ ?_⟩
    · rw [hp.status]
      cases request.status with
      | active => exact .inl rfl
      | next => exact .inr rfl
    · refine ⟨by rw [hrealm]; exact hreq.realm, by rw [hrealm]; exact hreq.lower, ?_, ?_⟩
      · rw [hscope, hpurpose]
        exact hreq.scope
      · rw [hpurpose]
        exact hreq.algorithms _ halgorithm
    cases stored with
    | error constraint => trivial
    | ok u =>
      obtain ⟨hne, hnodup⟩ := List.nodup_cons.mp hnodup
      refine ih (fun q hq ↦ ⟨?_, (hmem q (List.mem_cons_of_mem _ hq)).2⟩) (fun q hq hnext ↦ ?_)
        hnodup
      · have hq' := (hmem q (List.mem_cons_of_mem _ hq)).1
        refine { hq' with drew := ?_, created := ?_ }
        · rw [drew_append]
          exact List.mem_append_left _ hq'.drew
        · rw [clockReads_append]
          exact List.mem_append_left _ hq'.created
      · rw [waiting_append]
        refine List.mem_filter.mpr ⟨hwaits q (List.mem_cons_of_mem _ hq) hnext, ?_⟩
        refine decide_eq_true fun heq ↦ hne ?_
        exact List.mem_map.mpr ⟨q, hq, congrArg KeySlot.algorithm heq⟩

theorem wp_writeKeys (hreq : ResolvedRequest request)
    (hmem : ∀ p ∈ prepared, Prepared trace request p)
    (halgorithms : prepared.map (·.stored.algorithm) = request.algorithms) :
    Obeys (KeyRule options) trace (writeKeys prepared) := by
  rw [Obeys, writeKeys, wp_bind]
  refine wp_mono wp_checkNewKeys fun r trace' hpost ↦ ?_
  obtain ⟨hext, hchecked⟩ := hpost
  cases r with
  | error err => trivial
  | ok u =>
    rw [andThen_ok, wp_bind]
    refine wp_mono (wp_storeNewKeys hreq (fun p hp ↦ ⟨(hmem p hp).mono hext, ?_⟩)
      (hchecked u rfl) (halgorithms ▸ hreq.nodup)) fun r trace'' _ ↦ ?_
    · rw [← halgorithms]
      exact List.mem_map_of_mem hp
    · cases r with
      | error err => trivial
      | ok u => trivial

theorem obeys_create (hreq : ResolvedRequest request) {α : Type}
    {rest : List CreatedKey → KeyProg α}
    (hrest : ∀ created trace', Obeys (KeyRule options) trace' (rest created)) :
    Obeys (KeyRule options) trace (do
      let prepared ← prepareKeys options request
      let created ← writeKeys prepared
      rest created) := by
  rw [Obeys, wp_bind]
  refine wp_mono wp_prepareKeys fun r trace' hpost ↦ ?_
  cases r with
  | error err => trivial
  | ok prepared =>
    obtain ⟨halgorithms, hall⟩ := hpost.2 prepared rfl
    rw [andThen_ok, wp_bind]
    refine wp_mono (wp_writeKeys hreq hall halgorithms) fun r trace'' _ ↦ ?_
    cases r with
    | error err => trivial
    | ok created => exact hrest created trace''

theorem obeys_provisionEach {realmId : String} {purposes : List KeyPurpose} :
    Obeys (KeyRule options) trace (provisionEach options realmId purposes) := by
  induction purposes generalizing trace with
  | nil => trivial
  | cons purpose rest ih =>
    rw [provisionEach, Obeys, wp_ask_bind]
    refine ⟨trivial, fun active ↦ ?_⟩
    dsimp only
    split_ifs
    · exact ih
    · trivial
    · rw [wp_ofExcept_bind]
      cases hrequest : resolveRequest options ⟨realmId, purpose, none, none, none⟩ with
      | error err => trivial
      | ok request =>
        refine obeys_create (resolvedRequest_of_ok hrequest) fun created trace' ↦ ?_
        rw [Obeys, wp_bind]
        refine wp_mono ih fun r trace'' _ ↦ ?_
        cases r with
        | error err => trivial
        | ok more => trivial

/-! ### Rotating and deleting keys -/

/-- What was told stays as it was. -/
def ToldAsBefore (trace : List (Event StorePorts)) {α : Type} (_ : Except KeyError α)
    (trace' : List (Event StorePorts)) : Prop :=
  clockReads trace' = clockReads trace ∧ listed trace' = listed trace

theorem wp_moveKey {realmId kid : String} {purpose : KeyPurpose} {change : StoredKeyStatusChange}
    (hrule : KeyRule options trace (.updateStatus realmId kid change)) :
    wp (KeyRule options) trace (moveKey realmId purpose kid change) (ToldAsBefore trace) := by
  rw [moveKey, wp_ask_bind]
  refine ⟨hrule, fun moved ↦ ?_⟩
  have htold : clockReads (trace ++ [⟨.updateStatus realmId kid change, moved⟩]) =
      clockReads trace ∧ listed (trace ++ [⟨.updateStatus realmId kid change, moved⟩]) =
        listed trace := by
    rw [clockReads_append, listed_append]
    exact ⟨List.append_nil _, rfl⟩
  rcases moved with constraint | _ | row
  · exact htold
  · exact htold
  · exact htold

theorem wp_retireEach {realmId : String} {purpose : KeyPurpose} {unpublishAt : Option ℕ}
    {active : List RealmKey} :
    wp (KeyRule options) trace (retireEach realmId purpose at' unpublishAt active)
      (ToldAsBefore trace) := by
  induction active generalizing trace with
  | nil => exact ⟨rfl, rfl⟩
  | cons old rest ih =>
    rw [retireEach, wp_bind]
    refine wp_mono (wp_moveKey trivial) fun r trace' hmoved ↦ ?_
    cases r with
    | error err => exact hmoved
    | ok u => exact wp_mono ih fun r trace'' hrest ↦
        ⟨hrest.1.trans hmoved.1, hrest.2.trans hmoved.2⟩

theorem obeys_activateNextKey {input : ScopedKeyInput} {requested : Option KeyAlgorithm} :
    Obeys (KeyRule options) trace (activateNextKey options input requested) := by
  rw [Obeys, activateNextKey, wp_ofExcept_bind]
  cases resolveScopedKey input with
  | error err => trivial
  | ok key =>
    rw [andThen_ok]
    dsimp only
    by_cases hallowed : (!(KEY_PURPOSES key.purpose).algorithms.contains
        (requested.getD (KEY_PURPOSES key.purpose).defaultAlgorithm)) = true
    · rw [if_pos hallowed]
      trivial
    · rw [if_neg hallowed, wp_ask_bind]
      refine ⟨trivial, fun keys ↦ ?_⟩
      split
      · rename_i next hnext
        rw [wp_ask_bind]
        refine ⟨trivial, fun n ↦ ?_⟩
        by_cases hoverlap : n < next.shownAt + options.prepublishMs
        · rw [if_pos hoverlap]
          trivial
        · rw [if_neg hoverlap, wp_bind]
          refine wp_mono wp_retireEach fun r trace' htold ↦ ?_
          cases r with
          | error err => trivial
          | ok u =>
            rw [andThen_ok, wp_bind]
            have hmem : next ∈ keys.filter (·.status = .next) := by
              rw [hnext]
              exact List.mem_singleton_self next
            obtain ⟨hkeys, hstatus⟩ := List.mem_filter.mp hmem
            refine wp_mono (wp_moveKey ⟨?_, next, ?_, rfl, of_decide_eq_true hstatus,
              not_lt.mp hoverlap⟩) fun r trace'' _ ↦ ?_
            · rw [htold.1]
              exact mem_clockReads_append
            · rw [htold.2, listed_append, listed_append]
              exact List.mem_append_right _ (List.mem_map_of_mem hkeys)
            · cases r with
              | error err => trivial
              | ok u => trivial
      · trivial

theorem obeys_deleteEach {key : ScopedKeyInput} {rows : List RealmKey} :
    Obeys (KeyRule options) trace (deleteEach key rows) := by
  induction rows generalizing trace with
  | nil => trivial
  | cons row rest ih =>
    rw [Obeys, deleteEach, wp_ask_bind]
    refine ⟨trivial, fun deleted ↦ ?_⟩
    rw [wp_bind]
    refine wp_mono ih fun r trace' _ ↦ ?_
    cases r with
    | error err => trivial
    | ok kids => trivial

theorem obeys_prog (call : KeyCall) : Obeys (KeyRule options) trace (call.prog options) := by
  have hafter : ∀ {α : Type} {p : KeyProg α} {f : α → KeyReturn},
      Obeys (KeyRule options) trace p → Obeys (KeyRule options) trace (do pure (f (← p))) := by
    intro α p f hp
    rw [Obeys, wp_bind]
    refine wp_mono hp fun r trace' _ ↦ ?_
    cases r with
    | error err => trivial
    | ok a => trivial
  cases call with
  | createKey input =>
    refine hafter ?_
    rw [createKey, Obeys, wp_ofExcept_bind]
    cases hrequest : resolveRequest options input with
    | error err => trivial
    | ok request =>
      rw [andThen_ok, wp_bind]
      refine wp_mono wp_prepareKeys fun r trace' hpost ↦ ?_
      cases r with
      | error err => trivial
      | ok prepared =>
        obtain ⟨halgorithms, hall⟩ := hpost.2 prepared rfl
        exact wp_writeKeys (resolvedRequest_of_ok hrequest) hall halgorithms
  | provisionRealmKeys realmId =>
    refine hafter ?_
    rw [provisionRealmKeys, Obeys, wp_ofExcept_bind]
    cases resolveRealmId realmId with
    | error err => trivial
    | ok realmId => exact obeys_provisionEach
  | activateNextKey input algorithm => exact hafter obeys_activateNextKey
  | deleteScopedKeys input =>
    refine hafter ?_
    rw [deleteScopedKeys, Obeys, wp_ofExcept_bind]
    cases resolveScopedKey input with
    | error err => trivial
    | ok key =>
      rw [andThen_ok, wp_ask_bind]
      exact ⟨trivial, fun found ↦ obeys_deleteEach⟩

end QAuth.Keys
