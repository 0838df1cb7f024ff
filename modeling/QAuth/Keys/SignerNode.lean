import Mathlib.Logic.Function.Basic
import QAuth.Foundation.Run
import QAuth.Keys.PublishedKeys

/-!
# The reads of one signer

The two caches of `in-process-signer.ts` for one realm: the key list of a purpose and scope, and the
realm's published keys. A read of the store runs once for its slot however many callers ask while it
runs; the store is seen at some moment of the read, its answer is kept when the read ends, and its
callers go on a moment later. The store changes in transactions, any cache may lose an entry at any
time, and every moment has its own reading of the clock.
-/

namespace QAuth.Keys

open Transition

/-! ### The store -/

/-- What a transaction changes. -/
inductive StoreOp
  | create (row : KeyRow)
  | activate (kid : String)
  | retire (kid : String) (retireAt unpublishAt : ℕ)
  | compromise (kid : String)
  /-- the keys of one owner inside the realm are deleted -/
  | deleteByScope (purpose : KeyPurpose) (scopeId : String)

def KeyRow.activate (row : KeyRow) : KeyRow :=
  if row.status = .next then { row with status := .active } else row

def KeyRow.retire (row : KeyRow) (retireAt unpublishAt : ℕ) : KeyRow :=
  if row.status = .active then
    { row with status := .retired, retireAt := some retireAt, unpublishAt := some unpublishAt }
  else row

def KeyRow.compromise (row : KeyRow) : KeyRow := { row with status := .compromised }

def changeRow (kid : String) (f : KeyRow → KeyRow) (store : List KeyRow) : List KeyRow :=
  store.map fun row ↦ if row.kid = kid then f row else row

/-- The store after a change; a `kid` is that of one key. -/
def applyOp (store : List KeyRow) : StoreOp → List KeyRow
  | .create row => if row.kid ∈ store.map (·.kid) then store else store ++ [row]
  | .activate kid => changeRow kid KeyRow.activate store
  | .retire kid retireAt unpublishAt => changeRow kid (·.retire retireAt unpublishAt) store
  | .compromise kid => changeRow kid KeyRow.compromise store
  | .deleteByScope purpose scopeId =>
    store.filter fun row ↦ ¬(row.purpose = purpose ∧ row.scopeId = some scopeId)

/-- A stored key's metadata. -/
structure SignerKeyRecord where
  kid : String
  algorithm : KeyAlgorithm
  status : StoredKeyStatus
  pairId : Option String
  retireAt : Option ℕ
  createdAt : ℕ
deriving DecidableEq

def KeyRow.signerRecord (row : KeyRow) : SignerKeyRecord :=
  ⟨row.kid, row.algorithm, row.status, row.pairId, row.retireAt, row.createdAt⟩

/-- A purpose, and the owner inside the realm. -/
abbrev Slot := KeyPurpose × Option String

def storeListKeys (store : List KeyRow) (slot : Slot) : List SignerKeyRecord :=
  (store.filter fun row ↦ row.purpose = slot.1 ∧ row.scopeId = slot.2).map KeyRow.signerRecord

/-- Every published key of the realm. -/
def storeListPublicKeys (store : List KeyRow) : List PublicKeyRecord :=
  store.filterMap KeyRow.publicRecord

/-! ### The node -/

/-- A key list, and whether a forced read read it. -/
structure KeyList where
  value : List SignerKeyRecord
  readAt : ℕ
  forced : Bool

structure PublicList where
  value : List PublicKeyRecord
  readAt : ℕ

/-- How far a read of the store is: it runs, it has seen the store, or its answer was kept and its
callers are about to go on. -/
inductive ReadStage (α : Type)
  | running
  | seen (value : α)
  | ended (value : α)

def ReadStage.value? {α : Type} : ReadStage α → Option α
  | .running => none
  | .seen value | .ended value => some value

/-- A read of a key list. -/
structure PendingKeys where
  readAt : ℕ
  forced : Bool
  stage : ReadStage (List SignerKeyRecord)

/-- A read of the published keys. -/
structure PendingPublic where
  readAt : ℕ
  /-- the realm's count when the read began -/
  generation : ℕ
  stage : ReadStage (List PublicKeyRecord)
  /-- a key list has dropped the realm's published keys since -/
  dropped : Bool

/-- A call of `signJws`, and the key list it goes on with once it has one. -/
structure SignCall where
  purpose : KeyPurpose
  algorithm : KeyAlgorithm
  list : Option (List SignerKeyRecord)

/-- A call of `getVerificationKeys`: the keys that had signed for the purpose when it began, and the
published keys it goes on with. -/
structure VerifyCall where
  purpose : KeyPurpose
  signedBefore : List String
  list : Option (List PublicKeyRecord)

/-- An answer of `getVerificationKeys`, with the store at that moment. -/
structure Answer where
  purpose : KeyPurpose
  signedBefore : List String
  at' : ℕ
  store : List KeyRow
  keys : List VerificationKey

structure Node where
  store : List KeyRow
  keyLists : Slot → Option KeyList
  publicList : Option PublicList
  /-- raised each time a key list drops the published keys; zero where there is no entry -/
  publicGeneration : ℕ
  pendingKeys : Slot → Option PendingKeys
  pendingPublic : Option PendingPublic
  signing : List SignCall
  verifying : List VerifyCall
  signed : List (KeyPurpose × String)
  answers : List Answer

/-- What happens at one moment, with the clock where it is read. -/
inductive Action
  | change (ops : List StoreOp)
  | listKeys (slot : Slot) (forceRead : Bool) (now : ℕ)
  | signJws (purpose : KeyPurpose) (algorithm : KeyAlgorithm) (now : ℕ)
  | getJwks (now : ℕ)
  | getVerificationKeys (purpose : KeyPurpose) (now : ℕ)
  | seeKeys (slot : Slot)
  | seePublic
  | endKeys (slot : Slot)
  | endPublic
  | settleKeys (slot : Slot)
  | settlePublic
  /-- the store does not answer, and the callers fail -/
  | failKeys (slot : Slot)
  | failPublic
  | evictKeys (slot : Slot)
  | evictPublic
  /-- the key is loaded and signs -/
  | sign (i : ℕ)
  | answer (i : ℕ) (now : ℕ)

def MIN_FORCED_READ_INTERVAL_MS : ℕ := 1000

/-- The list that a caller takes from the cache. -/
def trustedKeys (refreshIntervalMs : ℕ) (cached : Option KeyList) (forceRead : Bool) (now : ℕ) :
    Option (List SignerKeyRecord) :=
  cached.bind fun entry ↦
    let trusted := if !forceRead then refreshIntervalMs
      else if entry.forced then min MIN_FORCED_READ_INTERVAL_MS refreshIntervalMs else 0
    if (now : ℤ) - entry.readAt < trusted then some entry.value else none

/-- The published keys that a caller takes from the cache. -/
def freshPublic (refreshIntervalMs : ℕ) (cached : Option PublicList) (now : ℕ) :
    Option (List PublicKeyRecord) :=
  cached.bind fun entry ↦
    if (now : ℤ) - entry.readAt < refreshIntervalMs then some entry.value else none

/-- The same keys in the same statuses, in any order. A `kid` has no control character, so the texts
that the source joins with one compare as the lists do. -/
def sameKeys (a b : List SignerKeyRecord) : Bool :=
  (a.map fun key ↦ (key.kid, key.status)).isPerm (b.map fun key ↦ (key.kid, key.status))

namespace Node

/-- Begin the read of a key list, unless one runs. -/
def shareKeys (s : Node) (slot : Slot) (forced : Bool) (now : ℕ) : Node :=
  match s.pendingKeys slot with
  | some _ => s
  | none =>
    { s with pendingKeys := Function.update s.pendingKeys slot (some ⟨now, forced, .running⟩) }

/-- Begin the read of the published keys, unless one runs. -/
def sharePublic (s : Node) (now : ℕ) : Node :=
  match s.pendingPublic with
  | some _ => s
  | none =>
    { s with pendingPublic := some ⟨now, s.publicGeneration, .running, false⟩ }

/-- Drop the realm's published keys. -/
def dropPublic (s : Node) : Node :=
  { s with
    publicList := none
    publicGeneration := s.publicGeneration + 1
    pendingPublic := s.pendingPublic.map fun pending ↦ { pending with dropped := true } }

def keepKeys (s : Node) (slot : Slot) (readAt : ℕ) (forced : Bool) (value : List SignerKeyRecord) :
    Node :=
  let current := s.keyLists slot
  if current.all (·.readAt ≤ readAt) then
    let s := if current.any fun entry ↦ sameKeys entry.value value then s else s.dropPublic
    { s with keyLists := Function.update s.keyLists slot (some ⟨value, readAt, forced⟩) }
  else s

/-- Keep the answer of a read of the published keys. -/
def keepPublic (s : Node) (readAt generation : ℕ) (value : List PublicKeyRecord) : Node :=
  if s.publicGeneration = generation ∧ s.publicList.all (·.readAt ≤ readAt) then
    { s with publicList := some ⟨value, readAt⟩, publicGeneration := 0 }
  else s

def signedFor (s : Node) (purpose : KeyPurpose) : List String :=
  (s.signed.filter (·.1 = purpose)).map (·.2)

end Node

def activeKey (list : List SignerKeyRecord) (algorithm : KeyAlgorithm) : Option SignerKeyRecord :=
  match list.filter fun key ↦ key.status = .active && key.algorithm = algorithm with
  | [key] => some key
  | _ => none

def step (refreshIntervalMs : ℕ) (s : Node) : Action → Option Node
  | .change ops => some { s with store := ops.foldl applyOp s.store }
  | .listKeys slot forceRead now =>
    match trustedKeys refreshIntervalMs (s.keyLists slot) forceRead now with
    | some _ => some s
    | none => some (s.shareKeys slot forceRead now)
  | .signJws purpose algorithm now =>
    match trustedKeys refreshIntervalMs (s.keyLists (purpose, none)) false now with
    | some value => some { s with signing := s.signing ++ [⟨purpose, algorithm, some value⟩] }
    | none =>
      let s := s.shareKeys (purpose, none) false now
      some { s with signing := s.signing ++ [⟨purpose, algorithm, none⟩] }
  | .getJwks now =>
    match freshPublic refreshIntervalMs s.publicList now with
    | some _ => some s
    | none => some (s.sharePublic now)
  | .getVerificationKeys purpose now =>
    let signedBefore := s.signedFor purpose
    match freshPublic refreshIntervalMs s.publicList now with
    | some value =>
      some { s with verifying := s.verifying ++ [⟨purpose, signedBefore, some value⟩] }
    | none =>
      let s := s.sharePublic now
      some { s with verifying := s.verifying ++ [⟨purpose, signedBefore, none⟩] }
  | .seeKeys slot => do
    let pending ← s.pendingKeys slot
    match pending.stage with
    | .running =>
      let stage := .seen (storeListKeys s.store slot)
      some { s with
        pendingKeys := Function.update s.pendingKeys slot (some { pending with stage }) }
    | .seen _ | .ended _ => none
  | .seePublic => do
    let pending ← s.pendingPublic
    match pending.stage with
    | .running =>
      let stage := .seen (storeListPublicKeys s.store)
      some { s with pendingPublic := some { pending with stage } }
    | .seen _ | .ended _ => none
  | .endKeys slot => do
    let pending ← s.pendingKeys slot
    match pending.stage with
    | .seen value =>
      let s := s.keepKeys slot pending.readAt pending.forced value
      let stage := .ended value
      some { s with
        pendingKeys := Function.update s.pendingKeys slot (some { pending with stage }) }
    | .running | .ended _ => none
  | .endPublic => do
    let pending ← s.pendingPublic
    match pending.stage with
    | .seen value =>
      let s := s.keepPublic pending.readAt pending.generation value
      let stage := .ended value
      some { s with pendingPublic := some { pending with stage } }
    | .running | .ended _ => none
  | .settleKeys slot => do
    let pending ← s.pendingKeys slot
    match pending.stage with
    | .ended value =>
      some { s with
        pendingKeys := Function.update s.pendingKeys slot none
        signing := s.signing.map fun call ↦
          if (call.purpose, none) = slot ∧ call.list.isNone then { call with list := some value }
          else call }
    | .running | .seen _ => none
  | .settlePublic => do
    let pending ← s.pendingPublic
    match pending.stage with
    | .ended value =>
      some { s with
        pendingPublic := none
        verifying := s.verifying.map fun call ↦
          if call.list.isNone then { call with list := some value } else call }
    | .running | .seen _ => none
  | .failKeys slot => do
    let pending ← s.pendingKeys slot
    match pending.stage with
    | .running | .seen _ =>
      some { s with
        pendingKeys := Function.update s.pendingKeys slot none
        signing := s.signing.filter fun call ↦ ¬((call.purpose, none) = slot ∧ call.list.isNone) }
    | .ended _ => none
  | .failPublic => do
    let pending ← s.pendingPublic
    match pending.stage with
    | .running | .seen _ =>
      some { s with
        pendingPublic := none
        verifying := s.verifying.filter fun call ↦ call.list.isSome }
    | .ended _ => none
  | .evictKeys slot => some { s with keyLists := Function.update s.keyLists slot none }
  | .evictPublic => some { s with publicList := none }
  | .sign i => do
    let call ← s.signing[i]?
    let list ← call.list
    let key ← activeKey list call.algorithm
    some { s with
      signing := s.signing.eraseIdx i
      signed := s.signed ++ [(call.purpose, key.kid)] }
  | .answer i now => do
    let call ← s.verifying[i]?
    let list ← call.list
    some { s with
      verifying := s.verifying.eraseIdx i
      answers := s.answers ++ [⟨call.purpose, call.signedBefore, now, s.store,
        verificationKeysOf list call.purpose now⟩] }

/-- At first nothing is cached, nothing runs and nothing was signed; a `kid` is that of one key. -/
structure Node.Fresh (s : Node) : Prop where
  kids : (s.store.map (·.kid)).Nodup
  keyLists : ∀ slot, s.keyLists slot = none
  publicList : s.publicList = none
  pendingKeys : ∀ slot, s.pendingKeys slot = none
  pendingPublic : s.pendingPublic = none
  signing : s.signing = []
  verifying : s.verifying = []
  signed : s.signed = []
  answers : s.answers = []

def system (refreshIntervalMs : ℕ) : System Node Action where
  initial := Node.Fresh
  step := step refreshIntervalMs

end QAuth.Keys
