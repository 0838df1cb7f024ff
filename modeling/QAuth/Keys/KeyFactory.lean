import QAuth.Keys.RealmKeys

/-!
# The key factory

The functions of `key-factory.ts` as programs over the store's calls: `createKey` and
`provisionRealmKeys` generate keys and store them, `activateNextKey` and `deleteScopedKeys` rotate and
delete the keys of one scope. A request is typed, so no purpose is unknown and no status but `next`
and `active` is asked for; the date at the end of one message is the error's `notBefore`.
-/

namespace QAuth.Keys

open Guards
open Program hiding ask

/-! ### Refusals -/

inductive KeyCreationRefusalReason
  | INVALID_REALM_ID | FEDERATION_OPERATOR_ONLY | ALGORITHM_NOT_ALLOWED | ALGORITHM_NOT_ENABLED
  | HYBRID_COMPANION_ONLY | SCOPE_REQUIRED | SCOPE_NOT_ALLOWED | INVALID_SCOPE_ID
  | HYBRID_PAIR_INCOMPLETE
deriving DecidableEq

inductive KeyChangeRefusalReason
  | INVALID_REALM_ID | UNSCOPED_PURPOSE | INVALID_SCOPE_ID | ALGORITHM_NOT_ALLOWED | NO_NEXT_KEY
  | OVERLAP_NOT_ELAPSED | KEY_CHANGED
deriving DecidableEq

/-- What the key functions throw. -/
inductive KeyError
  | KeyCreationRefusedError (reason : KeyCreationRefusalReason) (message : String)
  | KeyChangeRefusedError (reason : KeyChangeRefusalReason) (message : String)
    (notBefore : Option ℕ)
  | ActiveKeyConflictError (purpose : KeyPurpose) (algorithm : KeyAlgorithm)
  | NextKeyConflictError (purpose : KeyPurpose) (algorithm : KeyAlgorithm)
  | KeyIdConflictError (kid : String)
  | InvalidConfigurationError (message : String)
  /-- the store refuses a row -/
  | constraintError (constraint : Constraint)
  /-- the KEK provider does not answer -/
  | kekError
  | error (message : String)
deriving DecidableEq

/-- A program that makes the calls of the store. -/
abbrev KeyProg : Type → Type := Prog StorePorts KeyError

/-- Make a call. -/
abbrev ask (c : StoreCall) : KeyProg c.Answer := Program.ask (P := StorePorts) c

/-! ### Requests -/

/-- The deployment a key factory creates keys for. -/
structure KeyFactoryOptions where
  enabledSignatureAlgorithms : List KeyAlgorithm
  hybridSigning : Bool
  federationOperator : Bool
  prepublishMs : ℕ
  retiredRetentionMs : ℕ

/-- `createKeyFactory` refuses hybrid signing without ML-DSA-65. -/
def createKeyFactory (options : KeyFactoryOptions) : Except KeyError Unit :=
  refuseIf (options.hybridSigning ∧ .ML_DSA_65 ∉ options.enabledSignatureAlgorithms)
    (.InvalidConfigurationError
      "HYBRID_SIGNING_ENABLED=true requires SIGNING_ALGORITHM_MODE='ed25519+ml-dsa-65'.")

/-- The status of a new key. -/
inductive NewKeyStatus
  | active | next
deriving DecidableEq

def NewKeyStatus.stored : NewKeyStatus → StoredKeyStatus
  | .active => .active
  | .next => .next

structure CreateKeyInput where
  realmId : String
  purpose : KeyPurpose
  scopeId : Option String
  algorithm : Option KeyAlgorithm
  /-- `active` unless the caller names one -/
  status : Option NewKeyStatus

/-- Which scoped key `activateNextKey` and `deleteScopedKeys` act on. -/
structure ScopedKeyInput where
  realmId : String
  purpose : KeyPurpose
  scopeId : String

/-- A validated request. -/
structure KeyRequest where
  realmId : String
  purpose : KeyPurpose
  scopeId : Option String
  /-- the requested algorithm first, then the hybrid companion -/
  algorithms : List KeyAlgorithm
  status : NewKeyStatus

def MAX_SCOPE_ID_LENGTH : ℕ := 255

/-- A realm id in lower case, the form it is stored in. -/
def lowerRealmId (realmId : String) : String := String.ofList (realmId.toList.map Char.toLower)

/-- Whether a text is a UUID, in any case. -/
def isRealmId (realmId : String) : Bool := UuidText.IsUuid (realmId.toList.map Char.toLower)

/-- Whether a text can be stored as a scope id. A Lean text has no lone surrogate. -/
def isScopeId (scopeId : String) : Bool :=
  scopeId ≠ "" && Text.utf16Length scopeId ≤ MAX_SCOPE_ID_LENGTH && !scopeId.toList.contains '\x00'

/-- The stored realm id. -/
def resolveRealmId (realmId : String) : Except KeyError String := do
  refuseIf (¬ isRealmId realmId)
    (.KeyCreationRefusedError .INVALID_REALM_ID "A realm id is a UUID")
  pure (lowerRealmId realmId)

def quoted (name : String) : String := "'" ++ name ++ "'"

/-- The stored scope id. -/
def resolveScopeId (purpose : KeyPurpose) (scopeId : Option String) :
    Except KeyError (Option String) :=
  if (KEY_PURPOSES purpose).isScoped then do
    let scopeId ← require scopeId (.KeyCreationRefusedError .SCOPE_REQUIRED
      ("Key purpose " ++ quoted purpose.name ++ " is scoped and needs a scope id"))
    refuseIf (¬ isScopeId scopeId) (.KeyCreationRefusedError .INVALID_SCOPE_ID
      "A scope id is a non-empty, well-formed string of at most 255 characters")
    pure (some scopeId)
  else do
    refuseIf scopeId.isSome (.KeyCreationRefusedError .SCOPE_NOT_ALLOWED
      ("Key purpose " ++ quoted purpose.name ++ " is not scoped and takes no scope id"))
    pure none

/-- The algorithms that `SIGNING_ALGORITHM_MODE` names. -/
def MODE_ALGORITHMS : List KeyAlgorithm := [.EdDSA, .ML_DSA_65]

def isAllowedBySigningMode (algorithm : KeyAlgorithm) (enabled : List KeyAlgorithm) : Bool :=
  !MODE_ALGORITHMS.contains algorithm || enabled.contains algorithm

def assertAllowedBySigningMode (algorithm : KeyAlgorithm) (enabled : List KeyAlgorithm) :
    Except KeyError Unit :=
  refuseIf (¬ isAllowedBySigningMode algorithm enabled)
    (.KeyCreationRefusedError .ALGORITHM_NOT_ENABLED
      ("Algorithm " ++ quoted algorithm.name ++
        " is not enabled by SIGNING_ALGORITHM_MODE (enabled: " ++
        (if enabled = [] then "none" else ", ".intercalate (enabled.map (·.name))) ++ ")"))

/-- The companion that a request's key is created with. -/
def companionOf (options : KeyFactoryOptions) (purpose : KeyPurpose) (algorithm : KeyAlgorithm) :
    Option KeyAlgorithm :=
  if options.hybridSigning ∧ algorithm = (KEY_PURPOSES purpose).defaultAlgorithm then
    (KEY_PURPOSES purpose).hybridCompanion
  else none

/-- The algorithm asked for, and its companion's. -/
def requestedAlgorithms (options : KeyFactoryOptions) (purpose : KeyPurpose)
    (algorithm : KeyAlgorithm) : Except KeyError (List KeyAlgorithm) :=
  match companionOf options purpose algorithm with
  | none => pure [algorithm]
  | some companion => do
    assertAllowedBySigningMode companion options.enabledSignatureAlgorithms
    pure [algorithm, companion]

def resolveRequest (options : KeyFactoryOptions) (input : CreateKeyInput) :
    Except KeyError KeyRequest := do
  let realmId ← resolveRealmId input.realmId
  let definition := KEY_PURPOSES input.purpose
  refuseIf (definition.federationOperatorOnly ∧ ¬ options.federationOperator)
    (.KeyCreationRefusedError .FEDERATION_OPERATOR_ONLY
      ("Key purpose " ++ quoted input.purpose.name ++
        " is created only by a federation-operator deployment"))
  let scopeId ← resolveScopeId input.purpose input.scopeId
  let algorithm := input.algorithm.getD definition.defaultAlgorithm
  refuseIf (algorithm ∉ definition.algorithms) (.KeyCreationRefusedError .ALGORITHM_NOT_ALLOWED
    ("Key purpose " ++ quoted input.purpose.name ++ " does not allow algorithm " ++
      quoted algorithm.name ++ " (allowed: " ++
      ", ".intercalate (definition.algorithms.map (·.name)) ++ ")"))
  assertAllowedBySigningMode algorithm options.enabledSignatureAlgorithms
  refuseIf (definition.hybridCompanion = some algorithm)
    (.KeyCreationRefusedError .HYBRID_COMPANION_ONLY
      ("A " ++ quoted algorithm.name ++ " key of purpose " ++ quoted input.purpose.name ++
        " is created only with its " ++ quoted definition.defaultAlgorithm.name ++
        " key, as a hybrid pair"))
  let algorithms ← requestedAlgorithms options input.purpose algorithm
  pure ⟨realmId, input.purpose, scopeId, algorithms, input.status.getD .active⟩

/-- The realm, scoped purpose and scope that a rotation or a deletion acts on. -/
def resolveScopedKey (input : ScopedKeyInput) : Except KeyError ScopedKeyInput := do
  refuseIf (¬ isRealmId input.realmId)
    (.KeyChangeRefusedError .INVALID_REALM_ID "A realm id is a UUID" none)
  refuseIf (¬ (KEY_PURPOSES input.purpose).isScoped) (.KeyChangeRefusedError .UNSCOPED_PURPOSE
    ("Key purpose " ++ quoted input.purpose.name ++
      " is not scoped; only scoped keys rotate and are deleted by scope here") none)
  refuseIf (¬ isScopeId input.scopeId) (.KeyChangeRefusedError .INVALID_SCOPE_ID
    "A scope id is a non-empty, well-formed string of at most 255 characters" none)
  pure { input with realmId := lowerRealmId input.realmId }

/-! ### Creating keys -/

/-- A key the factory stored. It carries no private material. -/
structure CreatedKey where
  realmId : String
  purpose : KeyPurpose
  scopeId : Option String
  algorithm : KeyAlgorithm
  kid : String
  status : StoredKeyStatus
  pairId : Option String
  publication : Option Publication
  activateAt : Option ℕ
  createdAt : ℕ
  /-- the material of a secret that is shown once, which the source formats -/
  secret : Option (List UInt8)

/-- A generated and sealed key, ready to store. -/
structure PreparedKey where
  stored : RealmKey
  secret : Option (List UInt8)

def PreparedKey.created (prepared : PreparedKey) : CreatedKey :=
  let row := prepared.stored
  ⟨row.realmId, row.purpose, row.scopeId, row.algorithm, row.kid, row.status, row.pairId,
    row.publication, row.activateAt, row.createdAt, prepared.secret⟩

def newKeyRow (request : KeyRequest) (pairId : Option String) (at' : ℕ) (algorithm : KeyAlgorithm)
    (generated : GeneratedKeyMaterial) (kekRef : String) : RealmKey where
  kid := generated.kid
  purpose := request.purpose
  scopeId := request.scopeId
  algorithm := algorithm
  status := request.status.stored
  pairId := pairId
  createdAt := at'
  retireAt := none
  unpublishAt := none
  publication :=
    if (KEY_PURPOSES request.purpose).published then generated.publicJwk.map (⟨·, at'⟩) else none
  realmId := request.realmId
  activateAt := if request.status = .active then some at' else none
  kekRef := kekRef
  material := generated.material

def prepareEach (options : KeyFactoryOptions) (request : KeyRequest) (pairId : Option String)
    (at' : ℕ) : List KeyAlgorithm → KeyProg (List PreparedKey)
  | [] => pure []
  | algorithm :: rest => do
    let definition := KEY_PURPOSES request.purpose
    ofExcept (assertAllowedBySigningMode algorithm options.enabledSignatureAlgorithms)
    let generated ← ask (.generateKeyMaterial algorithm)
    match ← ask .sealKeyMaterial with
    | none => throw .kekError
    | some kekRef =>
      if definition.published && generated.publicJwk.isNone then
        throw (.error ("Key purpose " ++ quoted request.purpose.name ++ " is published but " ++
          quoted algorithm.name ++ " has no JWK"))
      else do
        let row := newKeyRow request pairId at' algorithm generated kekRef
        let secret := if definition.secretShownOnce then some generated.material else none
        let prepared ← prepareEach options request pairId at' rest
        pure (⟨row, secret⟩ :: prepared)

/-- Generate and seal every key of a request. -/
def prepareKeys (options : KeyFactoryOptions) (request : KeyRequest) :
    KeyProg (List PreparedKey) := do
  if request.algorithms.length > 1 then do
    let pairId ← ask .randomUUID
    let at' : ℕ ← ask .now
    prepareEach options request (some pairId) at' request.algorithms
  else do
    let at' : ℕ ← ask .now
    prepareEach options request none at' request.algorithms

/-- Check every new key against the realm: its `kid` must be new, and it must be the only key in its
status of its realm, purpose, scope and algorithm. -/
def checkNewKeys (seen : List String) : List PreparedKey → KeyProg Unit
  | [] => pure ()
  | prepared :: rest => do
    let row := prepared.stored
    if seen.contains row.kid then throw (.KeyIdConflictError row.kid)
    else do
      let known : Option RealmKey ← ask (.findByKid row.realmId row.kid)
      if known.isSome then throw (.KeyIdConflictError row.kid)
      else do
        let sameStatus : List RealmKey ← ask (.listByRealm row.realmId
          ⟨row.purpose, row.scopeId, some row.status, some row.algorithm⟩)
        if sameStatus.isEmpty then checkNewKeys (row.kid :: seen) rest
        else if row.status = .active then throw (.ActiveKeyConflictError row.purpose row.algorithm)
        else throw (.NextKeyConflictError row.purpose row.algorithm)

/-- Store the checked keys. -/
def storeNewKeys : List PreparedKey → KeyProg Unit
  | [] => pure ()
  | prepared :: rest => do
    match ← ask (.create prepared.stored) with
    | .error constraint => throw (.constraintError constraint)
    | .ok () => storeNewKeys rest

def writeKeys (prepared : List PreparedKey) : KeyProg (List CreatedKey) := do
  checkNewKeys [] prepared
  storeNewKeys prepared
  pure (prepared.map (·.created))

/-- Generate, seal and store one key, with its hybrid companion if it has one. -/
def createKey (options : KeyFactoryOptions) (input : CreateKeyInput) : KeyProg (List CreatedKey) :=
  do
    let request ← ofExcept (resolveRequest options input)
    let prepared ← prepareKeys options request
    writeKeys prepared

/-- The algorithms of a purpose's standard keys. -/
def wantedAlgorithms (options : KeyFactoryOptions) (purpose : KeyPurpose) : List KeyAlgorithm :=
  (KEY_PURPOSES purpose).defaultAlgorithm ::
    (if options.hybridSigning then (KEY_PURPOSES purpose).hybridCompanion else none).toList

/-- Create the standard keys of some purposes that the realm lacks. -/
def provisionEach (options : KeyFactoryOptions) (realmId : String) :
    List KeyPurpose → KeyProg (List CreatedKey)
  | [] => pure []
  | purpose :: rest => do
    let wanted := wantedAlgorithms options purpose
    let active : List RealmKey ← ask (.listByRealm realmId ⟨purpose, none, some .active, none⟩)
    let present := wanted.filter fun algorithm ↦ active.any (·.algorithm = algorithm)
    if present.length = wanted.length then provisionEach options realmId rest
    else if present ≠ [] then
      throw (.KeyCreationRefusedError .HYBRID_PAIR_INCOMPLETE
        ("The realm's active " ++ quoted purpose.name ++
          " keys are not a complete hybrid pair (active: " ++
          ", ".intercalate (present.map (·.name)) ++ "; a pair is " ++
          " and ".intercalate (wanted.map (·.name)) ++ "). Rotate them to a new pair."))
    else do
      let request ← ofExcept (resolveRequest options ⟨realmId, purpose, none, none, none⟩)
      let prepared ← prepareKeys options request
      let created ← writeKeys prepared
      let more ← provisionEach options realmId rest
      pure (created ++ more)

def provisionRealmKeys (options : KeyFactoryOptions) (requestedRealmId : String) :
    KeyProg (List CreatedKey) := do
  let realmId ← ofExcept (resolveRealmId requestedRealmId)
  provisionEach options realmId STANDARD_REALM_KEY_PURPOSES

/-! ### Rotating and deleting keys -/

/-- What `activateNextKey` changed. -/
structure ActivatedKey where
  activatedKid : String
  retiredKid : Option String
  activateAt : ℕ
  unpublishAt : Option ℕ

def keyChanged (purpose : KeyPurpose) : KeyError :=
  .KeyChangeRefusedError .KEY_CHANGED
    ("A " ++ quoted purpose.name ++ " key changed status during the rotation; nothing was changed")
    none

/-- One rotation step, which must find the key in the status it starts from. -/
def moveKey (realmId : String) (purpose : KeyPurpose) (kid : String)
    (change : StoredKeyStatusChange) : KeyProg Unit := do
  match ← ask (.updateStatus realmId kid change) with
  | .error constraint => throw (.constraintError constraint)
  | .ok none => throw (keyChanged purpose)
  | .ok (some _) => pure ()

/-- Retire the active keys. -/
def retireEach (realmId : String) (purpose : KeyPurpose) (at' : ℕ) (unpublishAt : Option ℕ) :
    List RealmKey → KeyProg Unit
  | [] => pure ()
  | old :: rest => do
    moveKey realmId purpose old.kid (.retired at' unpublishAt)
    retireEach realmId purpose at' unpublishAt rest

/-- Finish the rotation of a scoped key. -/
def activateNextKey (options : KeyFactoryOptions) (input : ScopedKeyInput)
    (requested : Option KeyAlgorithm) : KeyProg ActivatedKey := do
  let key ← ofExcept (resolveScopedKey input)
  let definition := KEY_PURPOSES key.purpose
  let algorithm := requested.getD definition.defaultAlgorithm
  if !definition.algorithms.contains algorithm then
    throw (.KeyChangeRefusedError .ALGORITHM_NOT_ALLOWED
      ("Key purpose " ++ quoted key.purpose.name ++ " does not allow algorithm " ++
        quoted algorithm.name) none)
  else do
    let keys : List RealmKey ←
      ask (.listByRealm key.realmId ⟨key.purpose, some key.scopeId, none, some algorithm⟩)
    let active := keys.filter (·.status = .active)
    match keys.filter (·.status = .next) with
    | [next] => do
      let at' : ℕ ← ask .now
      let notBefore := next.shownAt + options.prepublishMs
      if at' < notBefore then
        throw (.KeyChangeRefusedError .OVERLAP_NOT_ELAPSED
          ("The next " ++ quoted algorithm.name ++ " key for purpose " ++ quoted key.purpose.name ++
            " may replace the active key from") (some notBefore))
      else do
        let unpublishAt :=
          if definition.published then some (at' + options.retiredRetentionMs) else none
        -- retire first: the one-active index allows no moment with two
        retireEach key.realmId key.purpose at' unpublishAt active
        moveKey key.realmId key.purpose next.kid (.active at')
        pure ⟨next.kid, active.head?.map (·.kid), at', if active = [] then none else unpublishAt⟩
    | _ => throw (.KeyChangeRefusedError .NO_NEXT_KEY
        ("The scope holds no next " ++ quoted algorithm.name ++ " key for purpose " ++
          quoted key.purpose.name) none)

/-- Delete the rows that a `DELETE` has found. -/
def deleteEach (key : ScopedKeyInput) : List RealmKey → KeyProg (List String)
  | [] => pure []
  | row :: rest => do
    let deleted : Bool ← ask (.deleteRow key.realmId key.purpose key.scopeId row.kid)
    let kids ← deleteEach key rest
    pure (if deleted then row.kid :: kids else kids)

def deleteScopedKeys (input : ScopedKeyInput) : KeyProg (List String) := do
  let key ← ofExcept (resolveScopedKey input)
  let found : List RealmKey ←
    ask (.listByRealm key.realmId ⟨key.purpose, some key.scopeId, none, none⟩)
  deleteEach key found

end QAuth.Keys
