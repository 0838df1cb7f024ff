import QAuth.Consents.Consent
import QAuth.Foundation.ReadCommitted
import QAuth.Foundation.Run

/-!
# Grants, revocations and locked reads beside one another

Each transaction does one thing to the consents: it unites a grant with the active row, which it
locks first, or inserts a row where it found none; it revokes a row by its id; or it locks the
active row `FOR SHARE` and decides on it whether the consent screen is skipped. All run under READ
COMMITTED: a row is looked for in the committed rows, and once its lock is there, its committed
version is checked again. Of the active rows of a user and a client, the index lets only one in.
-/

namespace QAuth.Consents

open Events (Uuid)
open Locks ReadCommitted Transition

variable {ν : Type}

/-! ### Transactions -/

inductive ConsentCall (ν : Type)
  | upsertGrant (owner : ConsentOwner) (grant : Grant)
  | revoke (realmId id : Uuid)
  /-- The locked read, and the decision on the row. -/
  | skip (owner : ConsentOwner) (client : OAuthClientLike ν) (scopes resources : List String)

/-- The `WHERE` of the statement that looks for the row. -/
def ConsentCall.finds (row : OAuthConsent) : ConsentCall ν → Bool
  | .upsertGrant owner _ | .skip owner _ _ _ => row.isActiveOf owner
  | .revoke realmId id => row.owner.realmId = realmId && row.id = id && row.isActive

/-- How the row is locked. -/
def ConsentCall.mode : ConsentCall ν → Mode
  | .upsertGrant _ _ | .revoke _ _ => .exclusive
  | .skip _ _ _ _ => .shared

/-- Where a transaction stands. -/
inductive ConsentStage
  | begun
  /-- The row was there; its lock is not. -/
  | found (id : Uuid)
  /-- There is no row. -/
  | absent
  /-- The row is locked, and is still the one that was looked for. -/
  | held (row : OAuthConsent)
  /-- The row is written. -/
  | updated (row : OAuthConsent)
  /-- A row of its own is written. -/
  | inserted (row : OAuthConsent)
  /-- What `canSkipConsent` answered for the locked row. -/
  | decided (row : Option OAuthConsent) (skipped : Bool)
  | ended

structure RunningConsent (ν : Type) where
  call : ConsentCall ν
  stage : ConsentStage

namespace RunningConsent

/-- What a transaction wrote and has not committed. -/
def writes (c : RunningConsent ν) : Writes Uuid OAuthConsent :=
  match c.stage with
  | .updated row | .inserted row => [(row.id, some row)]
  | _ => []

/-- The rows that a transaction holds. -/
def heldRows (c : RunningConsent ν) : List (Uuid × Mode) :=
  match c.stage with
  | .held row | .decided (some row) _ => [(row.id, c.call.mode)]
  | .updated row | .inserted row => [(row.id, .exclusive)]
  | _ => []

/-- The entry of the index on active consents that a transaction has put there. -/
def heldPairs (c : RunningConsent ν) : List ((Uuid × Uuid) × Mode) :=
  match c.stage with
  | .inserted row => [(row.owner.pair, .exclusive)]
  | _ => []

end RunningConsent

/-- What a transaction has committed. -/
inductive ConsentEvent
  | granted (owner : ConsentOwner) (grant : Grant)
  | revoked (pair : Uuid × Uuid)

def ConsentEvent.pair : ConsentEvent → Uuid × Uuid
  | .granted owner _ => owner.pair
  | .revoked pair => pair

/-- The grants of a user to a client since the last revocation; the last event comes first. -/
def grantsSince (events : List ConsentEvent) (pair : Uuid × Uuid) : List (ConsentOwner × Grant) :=
  match events with
  | [] => []
  | .granted owner grant :: events =>
    if owner.pair = pair then (owner, grant) :: grantsSince events pair else grantsSince events pair
  | .revoked revoked :: events => if revoked = pair then [] else grantsSince events pair

structure Consents (ν : Type) where
  /-- The committed rows. -/
  rows : List OAuthConsent
  calls : List (RunningConsent ν)
  /-- What was committed so far, the last event first. -/
  events : List ConsentEvent

inductive ConsentAction (ν : Type)
  | start (call : ConsentCall ν)
  /-- The statement looks for its row. -/
  | select (i : ℕ)
  /-- It has the lock of the row it found. -/
  | lock (i : ℕ)
  /-- The row is written, at the time the transaction read before. -/
  | update (i : ℕ) (now : ℕ)
  | insert (i : ℕ) (id : Uuid) (now : ℕ)
  | decide (i : ℕ) (now : ℕ)
  | commit (i : ℕ)
  | rollback (i : ℕ)

namespace Consents

/-- One transaction stands elsewhere. -/
def setStage (s : Consents ν) (i : ℕ) (c : RunningConsent ν) (stage : ConsentStage) : Consents ν :=
  { s with calls := s.calls.set i { c with stage := stage } }

section Step

variable (s : Consents ν) (i : ℕ) (c : RunningConsent ν)

def select : Option (Consents ν) :=
  match c.stage with
  | .begun =>
    match s.rows.find? (c.call.finds ·) with
    | some row => some (s.setStage i c (.found row.id))
    | none => some (s.setStage i c .absent)
  | _ => none

def lock : Option (Consents ν) :=
  match c.stage with
  | .found id =>
    match current (·.id) s.rows id with
    | some row =>
      if Grants RunningConsent.heldRows s.calls i { c with stage := .held row } then
        if c.call.finds row then some (s.setStage i c (.held row))
        else some (s.setStage i c .absent)
      else none
    | none => some (s.setStage i c .absent)
  | _ => none

def update (now : ℕ) : Option (Consents ν) :=
  match c.call, c.stage with
  | .upsertGrant _ grant, .held row => some (s.setStage i c (.updated (row.merge grant now)))
  | .revoke _ _, .held row => some (s.setStage i c (.updated (row.revoked now)))
  | _, _ => none

/-- Where an active row of the user and the client is committed, the insert fails, once nobody is
writing that row; where another transaction has inserted one, it waits. -/
def insert (id : Uuid) (now : ℕ) : Option (Consents ν) :=
  match c.call, c.stage with
  | .upsertGrant owner grant, .absent =>
    match s.rows.find? fun row ↦ row.isActive && row.owner.pair = owner.pair with
    | some row =>
      if ∃ d ∈ s.calls.eraseIdx i, row.id ∈ d.writes.keys then none
      else some (s.setStage i c .ended)
    | none =>
      let stage := .inserted (.created id owner grant now)
      if (∀ row ∈ s.rows, row.id ≠ id) ∧
          Grants RunningConsent.heldRows s.calls i { c with stage := stage } ∧
          Grants RunningConsent.heldPairs s.calls i { c with stage := stage } then
        some (s.setStage i c stage)
      else none
  | _, _ => none

def decide (badgeDays : ℤ) (now : ℕ) : Option (Consents ν) :=
  match c.call, c.stage with
  | .skip _ client scopes resources, .held row =>
    some (s.setStage i c
      (.decided (some row) (canSkipConsent badgeDays now (some row) client scopes resources)))
  | .skip _ client scopes resources, .absent =>
    some (s.setStage i c
      (.decided none (canSkipConsent badgeDays now none client scopes resources)))
  | _, _ => none

def commit : Option (Consents ν) :=
  match c.call, c.stage with
  | .upsertGrant owner grant, .updated row | .upsertGrant owner grant, .inserted row =>
    some { s.setStage i c .ended with
      rows := ReadCommitted.commit (·.id) [(row.id, some row)] s.rows
      events := .granted owner grant :: s.events }
  | .revoke _ _, .updated row =>
    some { s.setStage i c .ended with
      rows := ReadCommitted.commit (·.id) [(row.id, some row)] s.rows
      events := .revoked row.owner.pair :: s.events }
  | .skip _ _ _ _, .decided _ _ => some (s.setStage i c .ended)
  | _, _ => none

/-- One thing that can happen. -/
def step (badgeDays : ℤ) (s : Consents ν) : ConsentAction ν → Option (Consents ν)
  | .start call => some { s with calls := s.calls ++ [⟨call, .begun⟩] }
  | .select i => s.calls[i]?.bind (s.select i)
  | .lock i => s.calls[i]?.bind (s.lock i)
  | .update i now => s.calls[i]?.bind (s.update i · now)
  | .insert i id now => s.calls[i]?.bind (s.insert i · id now)
  | .decide i now => s.calls[i]?.bind (s.decide i · badgeDays now)
  | .commit i => s.calls[i]?.bind (s.commit i)
  | .rollback i => s.calls[i]?.bind fun c ↦ some (s.setStage i c .ended)

end Step

end Consents

/-- At first there is no consent, and no transaction runs. -/
def consentSystem (ν : Type) (badgeDays : ℤ) : System (Consents ν) (ConsentAction ν) where
  initial s := s.rows = [] ∧ s.calls = [] ∧ s.events = []
  step := Consents.step badgeDays

end QAuth.Consents
