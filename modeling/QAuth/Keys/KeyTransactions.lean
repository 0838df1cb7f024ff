import QAuth.Foundation.ReadCommitted
import QAuth.Foundation.Run
import QAuth.Keys.KeyFactory

/-!
# The key store and its transactions

Transactions of any number of nodes run calls of the key factory, one statement at a time and in any
order. A statement sees the committed rows and what its own transaction wrote. A row that was written,
and the place of an active key in the one-active index, stay locked until the transaction ends, and a
statement that needs a lock of another transaction waits for it. A call runs in a savepoint: when it
throws, what it wrote is undone and the transaction goes on. A transaction commits or rolls back.
-/

namespace QAuth.Keys

open Locks ReadCommitted Transition
open Program hiding ask
open Effect (Event)

/-- What a transaction locks: a row, the place of an active key in the one-active index, or the keys
of a realm. -/
inductive KeyLock
  | row (key : String × String)
  | active (slot : KeySlot)
  | realm (realmId : String)
deriving DecidableEq

/-- What a transaction did so far. -/
structure Work where
  writes : Writes (String × String) RealmKey
  locks : List KeyLock
  trace : List (Event StorePorts)

namespace Work

def empty : Work := ⟨[], [], []⟩

/-- What a statement of the transaction sees. -/
def view (w : Work) (rows : List RealmKey) : List RealmKey := commit RealmKey.key w.writes rows

theorem view_empty (rows : List RealmKey) : empty.view rows = rows := by
  simp [view, empty, commit, Writes.keys]

/-- The work once a row was written. -/
def write (w : Work) (k : String × String) (v : Option RealmKey) (locks : List KeyLock) : Work where
  writes := w.writes.put k v
  locks := locks ++ w.locks
  trace := w.trace

def record (w : Work) (c : StoreCall) (a : c.Answer) : Work :=
  { w with trace := w.trace ++ [⟨c, a⟩] }

end Work

/-- What a call of the key factory returns. -/
inductive KeyReturn
  | created (keys : List CreatedKey)
  | activated (key : ActivatedKey)
  | deleted (kids : List String)

/-- A call of the key factory. -/
inductive KeyCall
  | createKey (input : CreateKeyInput)
  | provisionRealmKeys (realmId : String)
  | activateNextKey (input : ScopedKeyInput) (algorithm : Option KeyAlgorithm)
  | deleteScopedKeys (input : ScopedKeyInput)

def KeyCall.prog (options : KeyFactoryOptions) : KeyCall → KeyProg KeyReturn
  | .createKey input => do pure (.created (← Keys.createKey options input))
  | .provisionRealmKeys realmId => do
    pure (.created (← Keys.provisionRealmKeys options realmId))
  | .activateNextKey input algorithm => do
    pure (.activated (← Keys.activateNextKey options input algorithm))
  | .deleteScopedKeys input => do pure (.deleted (← Keys.deleteScopedKeys input))

/-- An open transaction. -/
structure KeyTx where
  work : Work
  /-- the work when the running call began -/
  saved : Work
  /-- what is left of the running call -/
  running : Option (KeyProg KeyReturn)

/-- The committed rows, with the transactions: one that has ended is `none`. -/
structure KeyStore where
  rows : List RealmKey
  txs : List (Option KeyTx)
  now : ℕ
  /-- the random ids drawn so far: key ids and pair ids -/
  drawn : List String

/-- The locks of a transaction. -/
def heldLocks (tx : Option KeyTx) : List (KeyLock × Mode) :=
  (tx.map (·.work.locks)).getD [] |>.map (·, .exclusive)

/-- What the environment answers where it chooses. -/
structure Drawn where
  uuid : String
  generated : GeneratedKeyMaterial
  kekRef : Option String

/-- What a statement did: its answer, the work it leaves, and the ids it drew. -/
structure Performed (c : StoreCall) where
  answer : c.Answer
  work : Work
  drawn : List String

def oneActive : Constraint := "idx_realm_keys_one_active"

def kidUnique : Constraint := "realm_keys_realm_id_kid_unique"

def unpublishNotBeforePublish : Constraint := "realm_keys_unpublish_not_before_publish"

/-- Whether the rows hold an active key in a slot. -/
def hasActive (rows : List RealmKey) (slot : KeySlot) : Bool :=
  rows.any fun row ↦ row.slot = slot && row.status = .active

/-- The locks that a write of a row takes: the row, and its place in the one-active index where the
version is active. -/
def locksOf (row : RealmKey) : List KeyLock :=
  .row row.key :: (if row.status = .active then [.active row.slot] else [])

/-- The rows a listing returns, oldest first. -/
def listByRealm (rows : List RealmKey) (realmId : String) (filter : StoredKeyFilter) :
    List RealmKey :=
  Table.orderBy (·.createdAt) (rows.filter fun row ↦ row.realmId = realmId && filter.admits row)

/-- What a row's change to a new version violates. -/
def violated (rows : List RealmKey) (row : RealmKey) : StoredKeyStatusChange → Option Constraint
  | .active _ => if hasActive rows row.slot then some oneActive else none
  | .retired _ unpublishAt =>
    if unpublishAt.any fun u ↦ row.publishAt.any (u < ·) then some unpublishNotBeforePublish
    else none

/-- What a statement of a transaction answers and writes, where `free` says which locks no other
transaction holds. It is `none` while the statement waits for a lock, or where the environment's
random id was drawn before. -/
def perform (s : KeyStore) (w : Work) (free : List KeyLock → Bool) (d : Drawn) :
    (c : StoreCall) → Option (Performed c)
  | .now => some ⟨s.now, w, []⟩
  | .randomUUID => if d.uuid ∈ s.drawn then none else some ⟨d.uuid, w, [d.uuid]⟩
  | .generateKeyMaterial _ =>
    if d.generated.kid ∈ s.drawn then none else some ⟨d.generated, w, [d.generated.kid]⟩
  | .sealKeyMaterial => some ⟨d.kekRef, w, []⟩
  | .findByKid realmId kid => some ⟨(w.view s.rows).find? (·.key = (realmId, kid)), w, []⟩
  | .listByRealm realmId filter => some ⟨listByRealm (w.view s.rows) realmId filter, w, []⟩
  | .create row =>
    if !free (locksOf row) then none
    else if (w.view s.rows).any (·.key = row.key) then some ⟨.error kidUnique, w, []⟩
    else if row.status = .active ∧ hasActive (w.view s.rows) row.slot then
      some ⟨.error oneActive, w, []⟩
    else some ⟨.ok (), w.write row.key (some row) (locksOf row), []⟩
  | .updateStatus realmId kid change =>
    match (w.view s.rows).find? (·.key = (realmId, kid)) with
    | none => some ⟨.ok none, w, []⟩
    | some row =>
      -- a row in another status does not match, and the statement does not wait for it
      if row.status ≠ change.startsAt then some ⟨.ok none, w, []⟩
      else
        let locks := [.row row.key, .active row.slot]
        if !free locks then none
        else match violated (w.view s.rows) row change with
          | some constraint => some ⟨.error constraint, w, []⟩
          | none =>
            some ⟨.ok (some (change.apply row)), w.write row.key (some (change.apply row)) locks, []⟩
  | .deleteRow realmId purpose scopeId kid =>
    match (w.view s.rows).find? (·.key = (realmId, kid)) with
    | none => some ⟨false, w, []⟩
    | some row =>
      if row.purpose ≠ purpose ∨ row.scopeId ≠ some scopeId then some ⟨false, w, []⟩
      else if !free (locksOf row) then none
      else some ⟨true, w.write row.key none (locksOf row), []⟩
  | .lockRealm realmId =>
    if !free [.realm realmId] then none
    else some ⟨(), { w with locks := .realm realmId :: w.locks }, []⟩
  | .listPublicKeys realmId =>
    some ⟨((w.view s.rows).filter (·.realmId = realmId)).filterMap (·.toKeyRow.publicRecord), w, []⟩
  | .getWrappedKey realmId kid => some ⟨(w.view s.rows).find? (·.key = (realmId, kid)), w, []⟩
  | .anotherRealmPublishes realmId identity =>
    some ⟨(w.view s.rows).any fun row ↦ row.realmId ≠ realmId && row.publication.any fun p ↦
      identity.all fun m ↦ p.publicJwk.members.contains m, w, []⟩

/-- What can happen. -/
inductive KeyAction
  | tick
  | begin
  | call (i : ℕ) (call : KeyCall)
  /-- the next statement of the running call -/
  | proceed (i : ℕ) (drawn : Drawn)
  /-- the running call returns or throws -/
  | finish (i : ℕ)
  | commit (i : ℕ)
  | rollback (i : ℕ)

namespace KeyStore

/-- The locks that no transaction but the `i`th holds. -/
def freeLocks (s : KeyStore) (i : ℕ) (locks : List KeyLock) : Bool :=
  (s.txs.eraseIdx i).all fun tx ↦ locks.all fun lock ↦ (lock, Mode.exclusive) ∉ heldLocks tx

/-- The `i`th transaction, while it is open. -/
def openTx (s : KeyStore) (i : ℕ) : Option KeyTx := s.txs[i]?.join

def setTx (s : KeyStore) (i : ℕ) (tx : Option KeyTx) : KeyStore := { s with txs := s.txs.set i tx }

/-- The next statement of a transaction's running call. -/
def proceed (s : KeyStore) (i : ℕ) (d : Drawn) (tx : KeyTx) : Option KeyStore :=
  match tx.running with
  | some (.call c next) => (perform s tx.work (s.freeLocks i) d c).map fun p ↦
    { s.setTx i (some { tx with
        work := p.work.record c p.answer
        running := some (next p.answer) }) with
      drawn := p.drawn ++ s.drawn }
  | _ => none

/-- The end of a transaction's running call. -/
def finish (s : KeyStore) (i : ℕ) (tx : KeyTx) : Option KeyStore :=
  match tx.running with
  | some (.done (.ok _)) => some (s.setTx i (some { tx with running := none }))
  | some (.done (.error _)) =>
    some (s.setTx i (some { tx with work := tx.saved, running := none }))
  | _ => none

/-- One thing that happens, for a deployment with these settings. -/
def step (options : KeyFactoryOptions) (s : KeyStore) : KeyAction → Option KeyStore
  | .tick => some { s with now := s.now + 1 }
  | .begin => some { s with txs := s.txs ++ [some ⟨.empty, .empty, none⟩] }
  | .call i call => (s.openTx i).bind fun tx ↦
    if tx.running.isSome then none
    else some (s.setTx i (some { tx with saved := tx.work, running := some (call.prog options) }))
  | .proceed i d => (s.openTx i).bind (s.proceed i d)
  | .finish i => (s.openTx i).bind (s.finish i)
  | .commit i => (s.openTx i).bind fun tx ↦
    if tx.running.isSome then none
    else some { s.setTx i none with rows := tx.work.view s.rows }
  | .rollback i => (s.openTx i).map fun _ ↦ s.setTx i none

/-- No key and no transaction at first. -/
def system (options : KeyFactoryOptions) : System KeyStore KeyAction where
  initial s := s.rows = [] ∧ s.txs = []
  step := step options

end KeyStore

/-! ### Checks that a transaction has passed -/

/-- The slot in which an answer shows no key that waits. -/
def passedCheck (e : Event StorePorts) : Option KeySlot :=
  match e with
  | ⟨.listByRealm realmId ⟨purpose, scopeId, some .next, some algorithm⟩, rows⟩ =>
    if List.isEmpty rows then some ⟨realmId, purpose, scopeId, algorithm⟩ else none
  | _ => none

/-- The slots in which a transaction has found no key that waits. -/
def passedChecks (trace : List (Event StorePorts)) : List KeySlot := trace.filterMap passedCheck

end QAuth.Keys
