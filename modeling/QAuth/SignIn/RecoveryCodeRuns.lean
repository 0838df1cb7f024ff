import Mathlib.Data.List.Pairwise
import QAuth.SignIn.RecoveryCodeSets

/-!
# An account holds one set of recovery codes

Whatever order issuances, regenerations, confirmations and redemptions run in, an account's codes
are those of the last set that was stored for it, each is redeemed at most once and only while its
set is the account's, and only a regeneration replaces a confirmed set.
-/

namespace QAuth.SignIn

open Events (Uuid)
open Locks ReadCommitted Transition

variable {toLowerCase : List Char → List Char} {verify : String → List Char → Bool}
  {decoy : String} {users : List RecoveryCodeAccount} {s t : RecoveryCodes} {a : RecoveryAction}
  {c : RunningRecovery} {i : ℕ} {row r : UserRecoveryCode} {account : RecoveryCodeAccount}
  {call : RecoveryCall} {statement : RecoveryStatement} {todo : List Uuid}
  {writes : Writes Uuid UserRecoveryCode} {id : Uuid} {v : Option UserRecoveryCode}

/-! ### What each thing that happens can do -/

/-- The statement that a call writes with. -/
inductive Makes : RecoveryCall → RecoveryStatement → Prop
  | deleteSet (account : RecoveryCodeAccount) (set : NewRecoveryCodeSet) (keepConfirmed : Bool) :
      Makes (.replace account set keepConfirmed) (.deleteSet account)
  | confirmSet (account : RecoveryCodeAccount) (setId : Uuid) (confirmedAt : CheckedTime) :
      Makes (.confirm account setId confirmedAt) (.confirmSet account confirmedAt)
  | markUsed (account : RecoveryCodeAccount) (code : String) (id : Uuid) (usedAt : CheckedTime) :
      Makes (.redeem account code) (.markUsed account id usedAt)

def NoneConfirmed (rows : List UserRecoveryCode) (account : RecoveryCodeAccount) : Prop :=
  ∀ row ∈ rows, row.account = account → row.confirmedAt = none

def Shown (rows : List UserRecoveryCode) (account : RecoveryCodeAccount) (setId : Uuid) : Prop :=
  ∃ row ∈ rows, row.account = account ∧ row.id = setId

/-- What a check finds before a call may write. -/
def Checked (rows : List UserRecoveryCode) : RecoveryCall → Prop
  | .replace account _ keepConfirmed => keepConfirmed = true → NoneConfirmed rows account
  | .confirm account setId _ => Shown rows account setId
  | .redeem _ _ => True

def inserts (account : RecoveryCodeAccount) (set : NewRecoveryCodeSet) :
    Writes Uuid UserRecoveryCode :=
  (set.rows account).map fun row ↦ (row.id, some row)

/-- The sets once a call has committed. -/
def storedWith (call : RecoveryCall) (sets : List StoredSet) : List StoredSet :=
  match call with
  | .replace account set _ => ⟨account, set.codes.map (·.id)⟩ :: sets
  | _ => sets

/-- What a call answers when it commits. -/
inductive Replies (writes : Writes Uuid UserRecoveryCode) :
    RecoveryCall → List RecoveryAnswer → Prop
  | replaced (account : RecoveryCodeAccount) (set : NewRecoveryCodeSet) (keepConfirmed : Bool) :
      Replies writes (.replace account set keepConfirmed)
        ((set.codes.head?.map fun code ↦ .replaced account code.id).toList)
  | confirmed (account : RecoveryCodeAccount) (setId : Uuid) (confirmedAt : CheckedTime) :
      Replies writes (.confirm account setId confirmedAt) [.confirmed account setId]
  | redeemed (account : RecoveryCodeAccount) (code : String) :
      Replies writes (.redeem account code) (writes.map fun w ↦ .redeemed account w.1)

/-- What each thing that happens can do. -/
inductive Step (s : RecoveryCodes) : RecoveryAction → RecoveryCodes → Prop
  | start (call : RecoveryCall)
      (fresh : ∀ c ∈ s.calls, ∀ id ∈ call.newIds, id ∉ c.call.newIds) :
      Step s (.start call) { s with calls := s.calls ++ [⟨call, .begun⟩] }
  | lock (i : ℕ) (c : RunningRecovery) (get : s.calls[i]? = some c) (begun : c.stage = .begun)
      (free : Grants RunningRecovery.heldUser s.calls i { c with stage := .locked }) :
      Step s (.lockUser i) (s.setStage i c .locked)
  | check (i : ℕ) (c : RunningRecovery) (get : s.calls[i]? = some c) (locked : c.stage = .locked)
      (checked : Checked s.rows c.call) : Step s (.check i) (s.setStage i c .checked)
  | read (i : ℕ) (c : RunningRecovery) (get : s.calls[i]? = some c)
      (account : RecoveryCodeAccount) (code : String) (call : c.call = .redeem account code)
      (begun : c.stage = .begun) :
      Step s (.read i) (s.setStage i c (.read (findUnused s.rows account)))
  | scan (i : ℕ) (c : RunningRecovery) (get : s.calls[i]? = some c)
      (ready : c.stage = .checked ∨
        ∃ account code unused, c.call = .redeem account code ∧ c.stage = .read unused)
      (statement : RecoveryStatement) (makes : Makes c.call statement) (usedAt : CheckedTime) :
      Step s (.scan i usedAt) (s.findRows i c statement)
  | take (i : ℕ) (c : RunningRecovery) (get : s.calls[i]? = some c)
      (statement : RecoveryStatement) (id : Uuid) (todo : List Uuid)
      (writes : Writes Uuid UserRecoveryCode)
      (stage : c.stage = .writing statement (id :: todo) writes)
      (free : Grants RunningRecovery.heldCodes s.calls i
        { c with stage := .writing statement todo ((id, none) :: writes) })
      (row : UserRecoveryCode) (now : current (·.id) s.rows id = some row)
      (finds : statement.finds row = true) :
      Step s (.visit i)
        (s.setStage i c (.writing statement todo ((id, statement.write row) :: writes)))
  | skip (i : ℕ) (c : RunningRecovery) (get : s.calls[i]? = some c)
      (statement : RecoveryStatement) (id : Uuid) (todo : List Uuid)
      (writes : Writes Uuid UserRecoveryCode)
      (stage : c.stage = .writing statement (id :: todo) writes)
      (gone : ∀ row, current (·.id) s.rows id = some row → statement.finds row = false) :
      Step s (.visit i) (s.setStage i c (.writing statement todo writes))
  | insert (i : ℕ) (c : RunningRecovery) (get : s.calls[i]? = some c)
      (account : RecoveryCodeAccount) (set : NewRecoveryCodeSet) (keepConfirmed : Bool)
      (call : c.call = .replace account set keepConfirmed) (statement : RecoveryStatement)
      (writes : Writes Uuid UserRecoveryCode) (stage : c.stage = .writing statement [] writes) :
      Step s (.insert i) (s.setStage i c (.inserted (inserts account set ++ writes)))
  | commit (i : ℕ) (c : RunningRecovery) (get : s.calls[i]? = some c)
      (writes : Writes Uuid UserRecoveryCode)
      (stage : c.stage = .inserted writes ∨ ∃ statement, c.stage = .writing statement [] writes)
      (new : List RecoveryAnswer) (replies : Replies writes c.call new) :
      Step s (.commit i) { s.setStage i c .ended with
        rows := commit (·.id) writes s.rows
        sets := storedWith c.call s.sets
        answers := new ++ s.answers }
  | endNow (i : ℕ) (c : RunningRecovery) (get : s.calls[i]? = some c) (a : RecoveryAction) :
      Step s a (s.setStage i c .ended)

theorem step_cases (hstep : s.step toLowerCase verify decoy users a = some t) : Step s a t := by
  cases a with
  | start call =>
    obtain ⟨hfresh, hstep⟩ := Option.ite_none_left_eq_some.mp hstep
    cases hstep
    refine .start call fun c hc id hid hid' ↦ hfresh ⟨c, hc, id, hid, hid'⟩
  | lockUser i =>
    obtain ⟨c, hget, hstep⟩ := Option.bind_eq_some_iff.mp hstep
    rw [RecoveryCodes.lockUser] at hstep
    split at hstep
    case h_3 => cases hstep
    all_goals
      split at hstep
      · cases hstep
        exact .endNow i c hget _
      · obtain ⟨hfree, hstep⟩ := Option.ite_none_right_eq_some.mp hstep
        cases hstep
        exact .lock i c hget ‹_› hfree
  | check i =>
    obtain ⟨c, hget, hstep⟩ := Option.bind_eq_some_iff.mp hstep
    rw [RecoveryCodes.check] at hstep
    split at hstep
    case h_1 account set keepConfirmed hcall hstage =>
      split at hstep <;> cases hstep
      · exact .endNow i c hget _
      · rename_i hnone
        refine .check i c hget hstage ?_
        rw [hcall]
        intro hkeep row hrow haccount
        by_contra hconfirmed
        exact hnone ⟨hkeep, row, hrow, haccount, Option.isSome_iff_ne_none.mpr hconfirmed⟩
    case h_2 account setId confirmedAt hcall hstage =>
      split at hstep <;> cases hstep
      · rename_i hshown
        refine .check i c hget hstage ?_
        rw [hcall]
        exact hshown
      · exact .endNow i c hget _
    case h_3 => cases hstep
  | read i =>
    obtain ⟨c, hget, hstep⟩ := Option.bind_eq_some_iff.mp hstep
    split at hstep
    case h_1 account code hcall hstage =>
      cases hstep
      exact .read i c hget account code hcall hstage
    case h_2 => cases hstep
  | scan i usedAt =>
    obtain ⟨c, hget, hstep⟩ := Option.bind_eq_some_iff.mp hstep
    rw [RecoveryCodes.scan] at hstep
    split at hstep
    case h_1 account set keepConfirmed hcall hstage =>
      cases hstep
      exact .scan i c hget (.inl hstage) _ (hcall ▸ .deleteSet account set keepConfirmed) usedAt
    case h_2 account setId confirmedAt hcall hstage =>
      cases hstep
      exact .scan i c hget (.inl hstage) _ (hcall ▸ .confirmSet account setId confirmedAt) usedAt
    case h_3 account code unused hcall hstage =>
      split at hstep <;> cases hstep
      · exact .scan i c hget (.inr ⟨account, code, unused, hcall, hstage⟩) _
          (hcall ▸ .markUsed account code _ usedAt) usedAt
      · exact .endNow i c hget _
    case h_4 => cases hstep
  | visit i =>
    obtain ⟨c, hget, hstep⟩ := Option.bind_eq_some_iff.mp hstep
    rw [RecoveryCodes.visit] at hstep
    split at hstep
    case h_2 => cases hstep
    case h_1 statement id todo writes hstage =>
      obtain ⟨hfree, hstep⟩ := Option.ite_none_right_eq_some.mp hstep
      split at hstep
      case h_1 row hnow =>
        split at hstep <;> cases hstep
        · exact .take i c hget statement id todo writes hstage hfree row hnow ‹_›
        · refine .skip i c hget statement id todo writes hstage fun row' hrow' ↦ ?_
          rw [hnow] at hrow'
          cases hrow'
          exact Bool.eq_false_iff.mpr ‹_›
      case h_2 hnone =>
        cases hstep
        refine .skip i c hget statement id todo writes hstage fun row hrow ↦ ?_
        rw [hnone] at hrow
        cases hrow
  | insert i =>
    obtain ⟨c, hget, hstep⟩ := Option.bind_eq_some_iff.mp hstep
    rw [RecoveryCodes.insert] at hstep
    split at hstep
    case h_1 account set keepConfirmed statement writes hcall hstage =>
      cases hstep
      exact .insert i c hget account set keepConfirmed hcall statement writes hstage
    case h_2 => cases hstep
  | commit i =>
    obtain ⟨c, hget, hstep⟩ := Option.bind_eq_some_iff.mp hstep
    rw [RecoveryCodes.commit] at hstep
    split at hstep
    case h_1 account set keepConfirmed writes hcall hstage =>
      cases hstep
      have hreplies : Replies writes _ _ := .replaced account set keepConfirmed
      rw [← hcall] at hreplies
      have hcommit := Step.commit i c hget writes (.inl hstage) _ hreplies
      rw [hcall] at hcommit
      exact hcommit
    case h_2 account setId confirmedAt statement writes hcall hstage =>
      cases hstep
      have hreplies : Replies writes _ _ := .confirmed account setId confirmedAt
      rw [← hcall] at hreplies
      have hcommit := Step.commit i c hget writes (.inr ⟨statement, hstage⟩) _ hreplies
      rw [hcall] at hcommit
      exact hcommit
    case h_3 account code statement writes hcall hstage =>
      cases hstep
      have hreplies : Replies writes _ _ := .redeemed account code
      rw [← hcall] at hreplies
      have hcommit := Step.commit i c hget writes (.inr ⟨statement, hstage⟩) _ hreplies
      rw [hcall] at hcommit
      exact hcommit
    case h_4 => cases hstep
  | rollback i =>
    obtain ⟨c, hget, hstep⟩ := Option.bind_eq_some_iff.mp hstep
    cases hstep
    exact .endNow i c hget _

/-! ### The invariant -/

/-- The account whose user's row a call locks. -/
def RecoveryCall.locks : RecoveryCall → Option RecoveryCodeAccount
  | .replace account _ _ | .confirm account _ _ => some account
  | .redeem _ _ => none

/-- What a call wrote is a row that its statement found, or one of its new codes. -/
inductive Wrote (rows : List UserRecoveryCode) (call : RecoveryCall) :
    Uuid × Option UserRecoveryCode → Prop
  | update (statement : RecoveryStatement) (makes : Makes call statement) (row : UserRecoveryCode)
      (current : current (·.id) rows row.id = some row) (finds : statement.finds row = true) :
      Wrote rows call (row.id, statement.write row)
  | insert (account : RecoveryCodeAccount) (set : NewRecoveryCodeSet) (keepConfirmed : Bool)
      (eq : call = .replace account set keepConfirmed) (row : UserRecoveryCode)
      (mem : row ∈ set.rows account) : Wrote rows call (row.id, some row)

def Covers (rows : List UserRecoveryCode) (call : RecoveryCall) (ids : List Uuid) : Prop :=
  ∀ statement, Makes call statement → call.locks ≠ none →
    ∀ row ∈ rows, statement.finds row = true → row.id ∈ ids

/-- What a call has checked still holds, and what it wrote is its own. -/
def CallOk (rows : List UserRecoveryCode) (c : RunningRecovery) : Prop :=
  match c.stage with
  | .checked => Checked rows c.call
  | .writing statement todo writes =>
    Checked rows c.call ∧ Makes c.call statement ∧ (todo ++ writes.keys).Nodup ∧
      (∀ w ∈ writes, Wrote rows c.call w) ∧ (∀ k ∈ writes.keys, k ∉ c.call.newIds) ∧
      Covers rows c.call (todo ++ writes.keys)
  | .inserted writes =>
    Checked rows c.call ∧ writes.keys.Nodup ∧ (∀ w ∈ writes, Wrote rows c.call w) ∧
      Covers rows c.call writes.keys
  | _ => True

def RecoveryAnswer.redeemedId : RecoveryAnswer → Option Uuid
  | .redeemed _ id => some id
  | _ => none

/-- The set that was confirmed is stored; while it is the account's, a row says so. -/
def ConfirmedOk (s : RecoveryCodes) (account : RecoveryCodeAccount) (setId : Uuid) : Prop :=
  (∃ set ∈ s.sets, set.account = account ∧ setId ∈ set.ids) ∧
    ∀ set, s.currentSet account = some set → setId ∈ set.ids → ¬NoneConfirmed s.rows account

/-- The codes redeemed so far. -/
def redeemedIds (answers : List RecoveryAnswer) : List Uuid :=
  answers.filterMap RecoveryAnswer.redeemedId

structure Sound (s : RecoveryCodes) : Prop where
  ids : (s.rows.map (·.id)).Nodup
  rows : ∀ r ∈ s.rows, ∃ set, s.currentSet r.account = some set ∧ r.id ∈ set.ids
  stored : ∀ set ∈ s.sets, ∃ (i : ℕ) (c : RunningRecovery), s.calls[i]? = some c ∧
    c.stage = .ended ∧ set.ids = c.call.newIds
  apart : s.sets.Pairwise fun set set' ↦ ∀ id ∈ set.ids, id ∉ set'.ids
  fresh : ∀ (i j : ℕ) (c c' : RunningRecovery) (id : Uuid), i ≠ j → s.calls[i]? = some c →
    s.calls[j]? = some c' → id ∈ c.call.newIds → id ∉ c'.call.newIds
  codes : Apart RunningRecovery.heldCodes s.calls
  users : Apart RunningRecovery.heldUser s.calls
  calls : ∀ c ∈ s.calls, CallOk s.rows c
  redeemed : (redeemedIds s.answers).Nodup
  confirmed : ∀ account setId, .confirmed account setId ∈ s.answers → ConfirmedOk s account setId
  used : ∀ id ∈ redeemedIds s.answers, (∃ set ∈ s.sets, id ∈ set.ids) ∧
    ∀ r ∈ s.rows, r.id = id → r.usedAt ≠ none

/-- A call that locks its user's row writes with one statement. -/
theorem Makes.unique {statement' : RecoveryStatement} (h : Makes call statement)
    (h' : Makes call statement') (hlocks : call.locks ≠ none) : statement' = statement := by
  cases h with
  | markUsed => exact absurd rfl hlocks
  | deleteSet | confirmSet =>
    cases h'
    rfl

/-- It finds rows of its own account, by their account and their confirmation. -/
theorem Makes.finds_iff (h : Makes call statement) (hlocks : call.locks = some account) :
    statement.finds row = true ↔ row.account = account ∧
      ((∃ set keepConfirmed, call = .replace account set keepConfirmed) ∨
        row.confirmedAt = none ∧ ∃ setId confirmedAt, call = .confirm account setId confirmedAt) := by
  cases h with
  | markUsed => cases hlocks
  | deleteSet b set keepConfirmed =>
    cases hlocks
    simp [RecoveryStatement.finds]
  | confirmSet b setId confirmedAt =>
    cases hlocks
    simp [RecoveryStatement.finds]

theorem Covers.replace {rows : List UserRecoveryCode} {ids : List Uuid} {set : NewRecoveryCodeSet}
    {keepConfirmed : Bool} (h : Covers rows (.replace account set keepConfirmed) ids)
    (hrow : row ∈ rows) (haccount : row.account = account) : row.id ∈ ids := by
  refine h (.deleteSet account) (.deleteSet account set keepConfirmed) nofun row hrow ?_
  simpa [RecoveryStatement.finds] using haccount

theorem mem_sets_of_currentSet {set : StoredSet} (h : s.currentSet account = some set) :
    set ∈ s.sets ∧ set.account = account :=
  ⟨List.mem_of_find?_eq_some h, by simpa using List.find?_some h⟩

theorem Sound.row_eq (hs : Sound s) (hr : r ∈ s.rows) (hrow : row ∈ s.rows) (h : r.id = row.id) :
    r = row :=
  Table.eq_of_key_eq hs.ids hr hrow h

theorem Sound.not_stored (hs : Sound s) (hget : s.calls[i]? = some c) (hstage : c.stage ≠ .ended)
    (hid : id ∈ c.call.newIds) : ∀ set ∈ s.sets, id ∉ set.ids := by
  intro set hset hmem
  obtain ⟨j, c', hget', hended, hids⟩ := hs.stored set hset
  rw [hids] at hmem
  by_cases hij : i = j
  · subst hij
    rw [hget] at hget'
    cases hget'
    exact hstage hended
  · exact hs.fresh i j c c' id hij hget hget' hid hmem

theorem Sound.not_row (hs : Sound s) (hget : s.calls[i]? = some c) (hstage : c.stage ≠ .ended)
    (hid : id ∈ c.call.newIds) : id ∉ s.rows.map (·.id) := by
  intro hmem
  obtain ⟨r, hr, rfl⟩ := List.mem_map.mp hmem
  obtain ⟨set, hset, hrow⟩ := hs.rows r hr
  exact hs.not_stored hget hstage hid set (mem_sets_of_currentSet hset).1 hrow

/-- One call goes on, and the table stays as it is. -/
theorem Sound.setStage (hs : Sound s) (hget : s.calls[i]? = some c) {stage : RecoveryStage}
    (hended : c.stage = .ended → stage = .ended)
    (hcodes : Grants RunningRecovery.heldCodes s.calls i { c with stage := stage })
    (husers : Grants RunningRecovery.heldUser s.calls i { c with stage := stage })
    (hok : CallOk s.rows { c with stage := stage }) : Sound (s.setStage i c stage) := by
  have hold : ∀ {j : ℕ} {c' : RunningRecovery}, (s.calls.set i { c with stage := stage })[j]? =
      some c' → ∃ c₀, s.calls[j]? = some c₀ ∧ c₀.call = c'.call := by
    intro j c' hget'
    rcases getElem?_set_cases hget' with ⟨rfl, rfl⟩ | ⟨-, hget'⟩
    · exact ⟨c, hget, rfl⟩
    · exact ⟨c', hget', rfl⟩
  refine { hs with
    stored := fun set hset ↦ ?_
    fresh := fun j k c₁ c₂ id hjk h₁ h₂ hid ↦ ?_
    codes := hs.codes.set hcodes
    users := hs.users.set husers
    calls := fun c' hc' ↦ ?_ }
  · obtain ⟨j, c', hget', hstage, hids⟩ := hs.stored set hset
    by_cases hij : i = j
    · subst hij
      rw [hget] at hget'
      cases hget'
      refine ⟨i, { c with stage := stage }, ?_, hended hstage, hids⟩
      exact List.getElem?_set_self (List.getElem?_eq_some_iff.mp hget).1
    · refine ⟨j, c', ?_, hstage, hids⟩
      rw [RecoveryCodes.setStage, List.getElem?_set_ne hij]
      exact hget'
  · obtain ⟨d₁, hd₁, heq₁⟩ := hold h₁
    obtain ⟨d₂, hd₂, heq₂⟩ := hold h₂
    rw [← heq₂]
    exact hs.fresh j k d₁ d₂ id hjk hd₁ hd₂ (heq₁ ▸ hid)
  · rcases List.mem_or_eq_of_mem_set hc' with hc' | rfl
    · exact hs.calls c' hc'
    · exact hok

/-- The call is in the transaction that locks the user's row, if it locks one. -/
def RecoveryStage.isActive : RecoveryStage → Bool
  | .locked | .checked | .writing _ _ _ | .inserted _ => true
  | .begun | .read _ | .ended => false

theorem heldUser_eq {stage : RecoveryStage} (h : stage.isActive = true) :
    RunningRecovery.heldUser ⟨call, stage⟩ = (call.locks.map (·, Mode.exclusive)).toList := by
  cases stage with
  | begun | read | ended => cases h
  | locked | checked | writing | inserted => cases call <;> rfl

theorem RunningRecovery.mem_heldUser (h : c.stage.isActive = true)
    (hlocks : c.call.locks = some account) : (account, .exclusive) ∈ c.heldUser := by
  obtain ⟨call, stage⟩ := c
  rw [heldUser_eq h]
  change call.locks = some account at hlocks
  rw [hlocks]
  exact List.mem_singleton.mpr rfl

theorem heldUser_ended : RunningRecovery.heldUser ⟨call, .ended⟩ = [] := by
  cases call <;> rfl

/-- A call that ends holds nothing. -/
theorem Sound.setEnded (hs : Sound s) (hget : s.calls[i]? = some c) :
    Sound (s.setStage i c .ended) := by
  refine hs.setStage hget (fun _ ↦ rfl) (hs.codes.grants_of_subset hget ?_)
    (hs.users.grants_of_subset hget ?_) trivial
  · exact fun x hx ↦ absurd hx List.not_mem_nil
  · rw [heldUser_ended]
    exact fun x hx ↦ absurd hx List.not_mem_nil

/-! ### Commits -/

/-- What a call that is about to commit has written. -/
structure Finished (s : RecoveryCodes) (i : ℕ) (c : RunningRecovery)
    (writes : Writes Uuid UserRecoveryCode) : Prop where
  get : s.calls[i]? = some c
  running : c.stage ≠ .ended
  own : c.writes = writes
  user : ∀ account, c.call.locks = some account → (account, .exclusive) ∈ c.heldUser
  checked : Checked s.rows c.call
  nodup : writes.keys.Nodup
  wrote : ∀ w ∈ writes, Wrote s.rows c.call w
  covers : Covers s.rows c.call writes.keys

theorem write_same (h : r ∈ statement.write row) : r.id = row.id ∧ r.account = row.account := by
  cases statement with
  | deleteSet => cases h
  | confirmSet | markUsed =>
    cases h
    exact ⟨rfl, rfl⟩

theorem named_of_wrote {rows : List UserRecoveryCode} (hnodup : writes.keys.Nodup)
    (hwrote : ∀ w ∈ writes, Wrote rows call w) : writes.Named (·.id) := by
  refine ⟨hnodup, fun k r hmem ↦ ?_⟩
  generalize hw : (k, some r) = w at hmem
  cases hwrote w hmem with
  | update statement makes row current finds =>
    obtain ⟨rfl, hr⟩ := Prod.mk.inj hw
    exact (write_same hr.symm).1
  | insert account set keepConfirmed eq row mem =>
    cases hw
    rfl

theorem mem_rows_iff {set : NewRecoveryCodeSet} :
    row ∈ set.rows account ↔ ∃ code ∈ set.codes, code.row account set.createdAt = row :=
  List.mem_map

theorem mem_newIds_of_mem_rows {set : NewRecoveryCodeSet} (keepConfirmed : Bool)
    (h : row ∈ set.rows account) :
    row.account = account ∧ row.id ∈ (RecoveryCall.replace account set keepConfirmed).newIds := by
  obtain ⟨code, hcode, rfl⟩ := mem_rows_iff.mp h
  exact ⟨rfl, List.mem_map_of_mem hcode⟩

theorem currentSet_storedWith {sets : List StoredSet} (h : c.call.locks ≠ some account) :
    (storedWith c.call sets).find? (·.account = account) = sets.find? (·.account = account) := by
  cases hcall : c.call with
  | redeem | confirm => rfl
  | replace b set keepConfirmed =>
    rw [hcall] at h
    rw [storedWith, List.find?_cons_of_neg]
    simpa using fun heq ↦ h (congrArg some heq)

theorem mem_storedWith {set : StoredSet} (h : set ∈ s.sets) : set ∈ storedWith call s.sets := by
  cases call with
  | redeem | confirm => exact h
  | replace account set keepConfirmed => exact List.mem_cons_of_mem _ h

theorem Replies.redeemedIds_eq {new : List RecoveryAnswer} (h : Replies writes call new) :
    redeemedIds new = [] ∨
      ∃ account code, call = .redeem account code ∧ redeemedIds new = writes.keys := by
  cases h with
  | replaced account set keepConfirmed =>
    left
    cases set.codes <;> rfl
  | confirmed => exact .inl rfl
  | redeemed account code =>
    refine .inr ⟨account, code, rfl, ?_⟩
    rw [redeemedIds, List.filterMap_map]
    exact congrFun List.filterMap_eq_map writes

theorem Replies.confirm {new : List RecoveryAnswer} {setId : Uuid} (h : Replies writes call new)
    (hmem : .confirmed account setId ∈ new) :
    ∃ confirmedAt, call = .confirm account setId confirmedAt := by
  cases h with
  | replaced b set keepConfirmed =>
    obtain ⟨code, -, hcode⟩ := Option.map_eq_some_iff.mp (Option.mem_toList.mp hmem)
    cases hcode
  | confirmed b id confirmedAt =>
    cases List.mem_singleton.mp hmem
    exact ⟨confirmedAt, rfl⟩
  | redeemed b code =>
    obtain ⟨w, -, hw⟩ := List.mem_map.mp hmem
    cases hw

section Commit

variable (hs : Sound s) (hf : Finished s i c writes)

include hf

/-- A row after a commit is one from before, as it was or as a statement left it, or one of the new
codes. -/
theorem Finished.row_cases (hr : r ∈ commit (·.id) writes s.rows) :
    (r ∈ s.rows ∧ r.id ∉ writes.keys) ∨
      (∃ statement, Makes c.call statement ∧ ∃ row ∈ s.rows, statement.finds row = true ∧
        statement.write row = some r ∧ (r.id, some r) ∈ writes) ∨
      ∃ account set keepConfirmed, c.call = .replace account set keepConfirmed ∧
        r ∈ set.rows account := by
  rcases mem_commit.mp hr with hold | ⟨k, hmem⟩
  · exact .inl hold
  · have hid : r.id = k := (named_of_wrote hf.nodup hf.wrote).named k r hmem
    right
    have hmem' : (r.id, some r) ∈ writes := by rw [hid]; exact hmem
    generalize hw : (k, some r) = w at hmem
    cases hf.wrote w hmem with
    | update statement makes row current finds =>
      obtain ⟨-, hr⟩ := Prod.mk.inj hw
      exact .inl ⟨statement, makes, row, (mem_of_current current).1, finds, hr.symm, hmem'⟩
    | insert account set keepConfirmed eq row mem =>
      cases hw
      exact .inr ⟨account, set, keepConfirmed, eq, mem⟩

/-- What becomes of a row. -/
theorem Finished.kept (hs : Sound s) (hr : r ∈ s.rows) :
    (r.id ∉ writes.keys ∧ r ∈ commit (·.id) writes s.rows) ∨ ∃ statement, Makes c.call statement ∧
      statement.finds r = true ∧ (r.id, statement.write r) ∈ writes := by
  by_cases hkey : r.id ∈ writes.keys
  · right
    obtain ⟨v, hmem⟩ := Writes.mem_keys.mp hkey
    generalize hw : (r.id, v) = w at hmem
    cases hf.wrote w hmem with
    | update statement makes row current finds =>
      obtain ⟨hid, rfl⟩ := Prod.mk.inj hw
      obtain rfl := hs.row_eq hr (mem_of_current current).1 hid
      exact ⟨statement, makes, finds, hw ▸ hmem⟩
    | insert account set keepConfirmed eq row mem =>
      obtain ⟨hid, -⟩ := Prod.mk.inj hw
      refine absurd (List.mem_map_of_mem hr) (hs.not_row hf.get hf.running ?_)
      rw [eq, hid]
      exact (mem_newIds_of_mem_rows keepConfirmed mem).2
  · exact .inl ⟨hkey, mem_commit.mpr (.inl ⟨hr, hkey⟩)⟩

include hs

/-- The rows of an account that another call locks keep their ids and their confirmations. -/
theorem Finished.untouched (hother : ∀ b, c.call.locks = some b → b ≠ account) :
    (∀ r' ∈ commit (·.id) writes s.rows, r'.account = account →
      ∃ r ∈ s.rows, r.id = r'.id ∧ r.account = account ∧ r.confirmedAt = r'.confirmedAt) ∧
    ∀ r ∈ s.rows, r.account = account →
      ∃ r' ∈ commit (·.id) writes s.rows, r'.id = r.id ∧ r'.account = account := by
  constructor
  · intro r' hr' haccount
    rcases hf.row_cases hr' with ⟨hr, -⟩ | ⟨statement, hmakes, row, hrow, hfinds, hwrite, -⟩ |
      ⟨b, set, keepConfirmed, hcall, hmem⟩
    · exact ⟨r', hr, rfl, haccount, rfl⟩
    · obtain ⟨hid, hsame⟩ := write_same (r := r') hwrite
      cases statement with
      | deleteSet => cases hwrite
      | markUsed =>
        cases hwrite
        exact ⟨row, hrow, rfl, haccount, rfl⟩
      | confirmSet b confirmedAt =>
        have hb : row.account = b := by
          simp only [RecoveryStatement.finds, Bool.and_eq_true, decide_eq_true_eq] at hfinds
          exact hfinds.1
        have hlocks : c.call.locks = some b := by
          generalize hcall : c.call = call at hmakes
          cases hmakes
          rfl
        exact absurd (hb.symm.trans (hsame.symm.trans haccount)) (hother b hlocks)
    · have hb := (mem_newIds_of_mem_rows keepConfirmed hmem).1
      exact absurd (hb.symm.trans haccount) (hother b (by rw [hcall]; rfl))
  · intro r hr haccount
    rcases hf.kept hs hr with ⟨-, hkept⟩ | ⟨statement, hmakes, hfinds, hmem⟩
    · exact ⟨r, hkept, rfl, haccount⟩
    · cases statement with
      | deleteSet b =>
        have hb : r.account = b := by simpa [RecoveryStatement.finds] using hfinds
        have hlocks : c.call.locks = some b := by
          generalize hcall : c.call = call at hmakes
          cases hmakes
          rfl
        exact absurd (hb.symm.trans haccount) (hother b hlocks)
      | confirmSet b confirmedAt =>
        exact ⟨{ r with confirmedAt := some confirmedAt }, mem_commit.mpr (.inr ⟨_, hmem⟩), rfl,
          haccount⟩
      | markUsed b id usedAt =>
        exact ⟨{ r with usedAt := some usedAt }, mem_commit.mpr (.inr ⟨_, hmem⟩), rfl, haccount⟩

/-- What another call has checked, the commit leaves true. -/
theorem Finished.checked_of_apart {c' : RunningRecovery}
    (hother : ∀ b, c.call.locks = some b → c'.call.locks ≠ some b)
    (hchecked : Checked s.rows c'.call) : Checked (commit (·.id) writes s.rows) c'.call := by
  cases hcall : c'.call with
  | redeem account code => trivial
  | replace account set keepConfirmed =>
    rw [hcall] at hchecked hother
    intro hkeep r' hr' haccount
    obtain ⟨huntouched, -⟩ := hf.untouched hs fun b hb heq ↦ hother b hb (congrArg some heq.symm)
    obtain ⟨r, hr, -, hsame, hconfirmed⟩ := huntouched r' hr' haccount
    rw [← hconfirmed]
    exact hchecked hkeep r hr hsame
  | confirm account setId confirmedAt =>
    rw [hcall] at hchecked hother
    obtain ⟨r, hr, haccount, hid⟩ := hchecked
    obtain ⟨-, huntouched⟩ := hf.untouched hs fun b hb heq ↦ hother b hb (congrArg some heq.symm)
    obtain ⟨r', hr', hid', hsame⟩ := huntouched r hr haccount
    exact ⟨r', hr', hsame, hid'.trans hid⟩

theorem Finished.covers_of_apart {c' : RunningRecovery} {ids : List Uuid}
    (hother : ∀ b, c.call.locks = some b → c'.call.locks ≠ some b)
    (hcovers : Covers s.rows c'.call ids) : Covers (commit (·.id) writes s.rows) c'.call ids := by
  intro statement hmakes hlocks r' hr' hfinds
  obtain ⟨account, haccount⟩ := Option.ne_none_iff_exists'.mp hlocks
  rw [haccount] at hother
  obtain ⟨hsame', hcase⟩ := (hmakes.finds_iff haccount).mp hfinds
  obtain ⟨huntouched, -⟩ := hf.untouched hs fun b hb heq ↦ hother b hb (congrArg some heq.symm)
  obtain ⟨r, hr, hid, hsame, hconfirmed⟩ := huntouched r' hr' hsame'
  rw [← hconfirmed] at hcase
  rw [← hid]
  exact hcovers statement hmakes hlocks r hr ((hmakes.finds_iff haccount).mpr ⟨hsame, hcase⟩)

theorem Finished.wrote_of_apart {c' : RunningRecovery} {w : Uuid × Option UserRecoveryCode}
    (happart : Compatible c.heldCodes c'.heldCodes) (hw : w.1 ∈ c'.writes.keys)
    (hwrote : Wrote s.rows c'.call w) : Wrote (commit (·.id) writes s.rows) c'.call w := by
  cases hwrote with
  | insert account set keepConfirmed eq row mem =>
    exact .insert account set keepConfirmed eq row mem
  | update statement makes row current finds =>
    refine .update statement makes row ?_ finds
    rw [RunningRecovery.heldCodes, hf.own] at happart
    rw [current_commit_of_held hs.ids (named_of_wrote hf.nodup hf.wrote)
      (Writes.mem_held.mpr ⟨hw, rfl⟩) happart]
    exact current

/-- Another call is not disturbed. -/
theorem Finished.callOk {j : ℕ} {c' : RunningRecovery} (hij : j ≠ i) (hget : s.calls[j]? = some c') :
    CallOk (commit (·.id) writes s.rows) c' := by
  have hok := hs.calls c' (List.mem_of_getElem? hget)
  have hcodes := hs.codes.compatible hij.symm hf.get hget
  have husers := hs.users.compatible hij.symm hf.get hget
  have hother : (∀ b, c'.call.locks = some b → (b, .exclusive) ∈ c'.heldUser) →
      ∀ b, c.call.locks = some b → c'.call.locks ≠ some b :=
    fun hheld b hb hb' ↦ husers.not_mem (hf.user b hb) (hheld b hb')
  rw [CallOk] at hok ⊢
  split
  case h_1 hstage =>
    rw [hstage] at hok
    exact hf.checked_of_apart hs (hother fun b ↦ c'.mem_heldUser (by rw [hstage]; rfl)) hok
  case h_2 statement todo writes' hstage =>
    have hheld : ∀ b, c'.call.locks = some b → (b, .exclusive) ∈ c'.heldUser :=
      fun b ↦ c'.mem_heldUser (by rw [hstage]; rfl)
    rw [hstage] at hok
    obtain ⟨hchecked, hmakes, hnodup, hwrote, hids, hcovers⟩ := hok
    have hown : c'.writes = writes' := by rw [RunningRecovery.writes, hstage]
    have hwrote' : ∀ w ∈ writes', Wrote (commit (·.id) writes s.rows) c'.call w := by
      intro w hw
      refine hf.wrote_of_apart hs hcodes ?_ (hwrote w hw)
      rw [hown]
      exact Writes.mem_keys.mpr ⟨w.2, hw⟩
    exact ⟨hf.checked_of_apart hs (hother hheld) hchecked, hmakes, hnodup, hwrote', hids,
      hf.covers_of_apart hs (hother hheld) hcovers⟩
  case h_3 writes' hstage =>
    have hheld : ∀ b, c'.call.locks = some b → (b, .exclusive) ∈ c'.heldUser :=
      fun b ↦ c'.mem_heldUser (by rw [hstage]; rfl)
    rw [hstage] at hok
    obtain ⟨hchecked, hnodup, hwrote, hcovers⟩ := hok
    have hown : c'.writes = writes' := by rw [RunningRecovery.writes, hstage]
    refine ⟨hf.checked_of_apart hs (hother hheld) hchecked, hnodup, fun w hw ↦ ?_,
      hf.covers_of_apart hs (hother hheld) hcovers⟩
    refine hf.wrote_of_apart hs hcodes ?_ (hwrote w hw)
    rw [hown]
    exact Writes.mem_keys.mpr ⟨w.2, hw⟩
  case h_4 => trivial

/-- The rows of an account are codes of the set it holds. -/
theorem Finished.rows_known (hr : r ∈ commit (·.id) writes s.rows) :
    ∃ set, (storedWith c.call s.sets).find? (·.account = r.account) = some set ∧ r.id ∈ set.ids := by
  have hcurrent : ∀ row ∈ s.rows, row.account = r.account → row.id = r.id →
      ∃ set, s.currentSet r.account = some set ∧ r.id ∈ set.ids := by
    intro row hrow haccount hid
    rw [← haccount, ← hid]
    exact hs.rows row hrow
  rcases hf.row_cases hr with ⟨hold, hkey⟩ | ⟨statement, hmakes, row, hrow, hfinds, hwrite, -⟩ |
    ⟨b, set, keepConfirmed, hcall, hmem⟩
  · cases hcall : c.call with
    | redeem | confirm => exact hcurrent r hold rfl rfl
    | replace b set keepConfirmed =>
      have hcovers := hf.covers
      rw [hcall] at hcovers
      have hne : c.call.locks ≠ some r.account := by
        rw [hcall]
        exact fun heq ↦ hkey (hcovers.replace hold (Option.some.inj heq).symm)
      rw [← hcall, currentSet_storedWith hne]
      exact hcurrent r hold rfl rfl
  · obtain ⟨hid, haccount⟩ := write_same (r := r) hwrite
    have hset := hcurrent row hrow haccount.symm hid.symm
    generalize hcall : c.call = call at hmakes
    cases hmakes with
    | deleteSet => cases hwrite
    | confirmSet | markUsed => exact hset
  · obtain ⟨rfl, hid⟩ := mem_newIds_of_mem_rows keepConfirmed hmem
    rw [hcall]
    exact ⟨_, List.find?_cons_of_pos (by simp), hid⟩

/-- A code that was used stays used. -/
theorem Finished.used_of_used (hstored : ∃ set ∈ s.sets, id ∈ set.ids)
    (hold : ∀ r ∈ s.rows, r.id = id → r.usedAt ≠ none) :
    ∀ r ∈ commit (·.id) writes s.rows, r.id = id → r.usedAt ≠ none := by
  rintro r hr rfl
  rcases hf.row_cases hr with ⟨hold', -⟩ | ⟨statement, -, row, hrow, -, hwrite, -⟩ |
    ⟨b, set, keepConfirmed, hcall, hmem⟩
  · exact hold r hold' rfl
  · have hused := hold row hrow (write_same hwrite).1.symm
    cases statement with
    | deleteSet => cases hwrite
    | confirmSet =>
      cases hwrite
      exact hused
    | markUsed =>
      cases hwrite
      nofun
  · obtain ⟨set', hset', hid⟩ := hstored
    refine absurd hid (hs.not_stored hf.get hf.running ?_ set' hset')
    rw [hcall]
    exact (mem_newIds_of_mem_rows keepConfirmed hmem).2

theorem Finished.confirmed_of_confirmed {setId : Uuid} (hold : ConfirmedOk s account setId)
    {set : StoredSet} (hset : (storedWith c.call s.sets).find? (·.account = account) = some set)
    (hmem : setId ∈ set.ids) : ¬NoneConfirmed (commit (·.id) writes s.rows) account := by
  obtain ⟨⟨set₀, hset₀, -, hid⟩, hcurrent⟩ := hold
  by_cases hreplaced : ∃ new keepConfirmed, c.call = .replace account new keepConfirmed
  · obtain ⟨new, keepConfirmed, hcall⟩ := hreplaced
    have hnew : some ⟨account, new.codes.map (·.id)⟩ = some set := by
      rw [← hset, hcall, storedWith, List.find?_cons_of_pos (by simp)]
    cases hnew
    refine absurd hid (hs.not_stored hf.get hf.running ?_ set₀ hset₀)
    rw [hcall]
    exact hmem
  · have hsame : s.currentSet account = some set := by
      rw [← hset]
      cases hcall : c.call with
      | redeem | confirm => rfl
      | replace b new keepConfirmed =>
        have hne : b ≠ account := by
          rintro rfl
          exact hreplaced ⟨new, keepConfirmed, hcall⟩
        rw [storedWith, List.find?_cons_of_neg (by simpa using hne)]
        rfl
    intro hnone
    refine hcurrent set hsame hmem fun row hrow haccount ↦ ?_
    rcases hf.kept hs hrow with ⟨-, hkept⟩ | ⟨statement, hmakes, hfinds, hwrite⟩
    · exact hnone row hkept haccount
    · have hwritten : ∀ row', statement.write row = some row' → row'.confirmedAt = none := by
        intro row' hrow'
        rw [hrow'] at hwrite
        exact hnone row' (mem_commit.mpr (.inr ⟨_, hwrite⟩))
          ((write_same hrow').2.trans haccount)
      generalize hcall : c.call = call at hmakes
      cases hmakes with
      | deleteSet b new keepConfirmed =>
        have hb : row.account = b := by simpa [RecoveryStatement.finds] using hfinds
        rw [← hb, haccount] at hcall
        exact absurd ⟨new, keepConfirmed, hcall⟩ hreplaced
      | confirmSet => cases hwritten _ rfl
      | markUsed b code id usedAt => exact hwritten { row with usedAt := some usedAt } rfl

theorem Finished.confirmed_now {setId : Uuid} {confirmedAt : CheckedTime}
    (hcall : c.call = .confirm account setId confirmedAt) :
    (∃ set, s.currentSet account = some set ∧ setId ∈ set.ids) ∧
      ¬NoneConfirmed (commit (·.id) writes s.rows) account := by
  have hchecked := hf.checked
  rw [hcall] at hchecked
  obtain ⟨row, hrow, rfl, rfl⟩ := hchecked
  refine ⟨hs.rows row hrow, fun hnone ↦ ?_⟩
  have hmakes : Makes c.call (.confirmSet row.account confirmedAt) := by
    rw [hcall]
    exact .confirmSet row.account row.id confirmedAt
  have hlocks : c.call.locks = some row.account := by
    rw [hcall]
    rfl
  have hlocks' : c.call.locks ≠ none := by
    rw [hlocks]
    nofun
  rcases hf.kept hs hrow with ⟨hkey, hkept⟩ | ⟨statement, hmakes', hfinds, hmem⟩
  · refine hkey (hf.covers _ hmakes hlocks' row hrow ((hmakes.finds_iff hlocks).mpr ⟨rfl, .inr ?_⟩))
    exact ⟨hnone row hkept rfl, row.id, confirmedAt, hcall⟩
  · obtain rfl := hmakes.unique hmakes' hlocks'
    cases hnone { row with confirmedAt := some confirmedAt } (mem_commit.mpr (.inr ⟨_, hmem⟩)) rfl

/-- A code that a redemption takes was unused, and is used from then on. -/
theorem Finished.redeemed {code : String} (hcall : c.call = .redeem account code)
    (hkey : id ∈ writes.keys) :
    (∃ row ∈ s.rows, row.id = id ∧ row.account = account ∧ row.usedAt = none) ∧
      ∀ r ∈ commit (·.id) writes s.rows, r.id = id → r.usedAt ≠ none := by
  obtain ⟨v, hmem⟩ := Writes.mem_keys.mp hkey
  have hnamed := named_of_wrote hf.nodup hf.wrote
  have hcurrent := current_commit_of_mem hs.ids hnamed hmem
  generalize hw : (id, v) = w at hmem
  cases hf.wrote w hmem with
  | insert b set keepConfirmed eq row mem =>
    rw [hcall] at eq
    cases eq
  | update statement makes row current finds =>
    rw [hcall] at makes
    cases makes with
    | markUsed id' usedAt =>
      obtain ⟨rfl, rfl⟩ := Prod.mk.inj hw
      simp only [RecoveryStatement.finds, Bool.and_eq_true, decide_eq_true_eq,
        Option.isNone_iff_eq_none] at finds
      refine ⟨⟨row, (mem_of_current current).1, rfl, finds.1.1, finds.2⟩, fun r hr hid ↦ ?_⟩
      rw [← hid, current_of_mem (nodup_commit hs.ids hnamed) hr] at hcurrent
      cases hcurrent
      nofun

theorem Finished.commit {new : List RecoveryAnswer} (hreplies : Replies writes c.call new) :
    Sound { s.setStage i c .ended with
      rows := ReadCommitted.commit (·.id) writes s.rows
      sets := storedWith c.call s.sets
      answers := new ++ s.answers } := by
  have hended := hs.setEnded hf.get
  have hanswers : redeemedIds (new ++ s.answers) = redeemedIds new ++ redeemedIds s.answers :=
    List.filterMap_append
  exact { hended with
    ids := nodup_commit hs.ids (named_of_wrote hf.nodup hf.wrote)
    rows := fun r hr ↦ hf.rows_known hs hr
    stored := fun set hset ↦ by
      cases hcall : c.call with
      | redeem | confirm =>
        rw [hcall] at hset
        exact hended.stored set hset
      | replace account newSet keepConfirmed =>
        rw [hcall] at hset
        rcases List.mem_cons.mp hset with rfl | hset
        · refine ⟨i, { c with stage := .ended }, ?_, rfl, by rw [hcall]; rfl⟩
          exact List.getElem?_set_self (List.getElem?_eq_some_iff.mp hf.get).1
        · exact hended.stored set hset
    apart := by
      show (storedWith c.call s.sets).Pairwise _
      cases hcall : c.call with
      | redeem | confirm => exact hs.apart
      | replace account newSet keepConfirmed =>
        refine List.pairwise_cons.mpr ⟨fun set hset id hid ↦ ?_, hs.apart⟩
        exact hs.not_stored hf.get hf.running (by rw [hcall]; exact hid) set hset
    calls := fun c' hc' ↦ by
      obtain ⟨j, hget⟩ := List.getElem?_of_mem hc'
      rcases getElem?_set_cases hget with ⟨-, rfl⟩ | ⟨hij, hget⟩
      · trivial
      · exact hf.callOk hs hij hget
    confirmed := fun account setId hanswer ↦ by
      rcases List.mem_append.mp hanswer with hnew | hold
      · obtain ⟨confirmedAt, hcall⟩ := hreplies.confirm hnew
        obtain ⟨⟨set, hset, hmem⟩, hnow⟩ := hf.confirmed_now hs hcall
        obtain ⟨hstored, haccount⟩ := mem_sets_of_currentSet hset
        exact ⟨⟨set, mem_storedWith hstored, haccount, hmem⟩, fun _ _ _ ↦ hnow⟩
      · have hok := hs.confirmed account setId hold
        obtain ⟨set, hset, hrest⟩ := hok.1
        exact ⟨⟨set, mem_storedWith hset, hrest⟩,
          fun set' hset' hmem ↦ hf.confirmed_of_confirmed hs hok hset' hmem⟩
    redeemed := by
      show (redeemedIds (new ++ s.answers)).Nodup
      rw [hanswers]
      rcases hreplies.redeemedIds_eq with hnew | ⟨account, code, hcall, hnew⟩
      · rw [hnew]
        exact hs.redeemed
      · rw [hnew, List.nodup_append]
        refine ⟨hf.nodup, hs.redeemed, ?_⟩
        rintro id hkey id' hold rfl
        obtain ⟨⟨row, hrow, hid, -, hunused⟩, -⟩ := hf.redeemed hs hcall hkey
        exact (hs.used id hold).2 row hrow hid hunused
    used := fun id hid ↦ by
      change id ∈ redeemedIds (new ++ s.answers) at hid
      rw [hanswers, List.mem_append] at hid
      rcases hid with hid | hid
      · rcases hreplies.redeemedIds_eq with hnew | ⟨account, code, hcall, hnew⟩
        · rw [hnew] at hid
          cases hid
        · rw [hnew] at hid
          obtain ⟨⟨row, hrow, rfl, -, -⟩, hused⟩ := hf.redeemed hs hcall hid
          obtain ⟨set, hset, hmem⟩ := hs.rows row hrow
          exact ⟨⟨set, mem_storedWith (mem_sets_of_currentSet hset).1, hmem⟩, hused⟩
      · obtain ⟨⟨set, hset, hmem⟩, hused⟩ := hs.used id hid
        exact ⟨⟨set, mem_storedWith hset, hmem⟩, hf.used_of_used hs ⟨set, hset, hmem⟩ hused⟩ }

end Commit

/-! ### Every run -/

/-- A call holds rows, or new ones of its own. -/
theorem Sound.held_known (hs : Sound s) (hc : c ∈ s.calls) {m : Mode} (hheld : (id, m) ∈ c.heldCodes) :
    id ∈ s.rows.map (·.id) ∨ id ∈ c.call.newIds := by
  have hwrote : ∀ w ∈ c.writes, Wrote s.rows c.call w := by
    have hok := hs.calls c hc
    rw [CallOk] at hok
    rw [RunningRecovery.writes]
    split
    case h_1 hstage =>
      rw [hstage] at hok
      exact hok.2.2.2.1
    case h_2 hstage =>
      rw [hstage] at hok
      exact hok.2.2.1
    case h_3 => exact List.forall_mem_nil _
  obtain ⟨v, hmem⟩ := Writes.mem_keys.mp (Writes.mem_held.mp hheld).1
  generalize hw : (id, v) = w at hmem
  cases hwrote w hmem with
  | update statement makes row current finds =>
    obtain ⟨rfl, -⟩ := Prod.mk.inj hw
    exact .inl (List.mem_map_of_mem (mem_of_current current).1)
  | insert account set keepConfirmed eq row mem =>
    obtain ⟨rfl, -⟩ := Prod.mk.inj hw
    right
    rw [eq]
    exact (mem_newIds_of_mem_rows keepConfirmed mem).2

/-- Nobody holds the rows of a set that is being stored. -/
theorem Sound.grants_insert (hs : Sound s) (hget : s.calls[i]? = some c)
    (hstage : c.stage = .writing statement [] writes) {new : Writes Uuid UserRecoveryCode}
    (hnew : ∀ k ∈ new.keys, k ∈ c.call.newIds) :
    Grants RunningRecovery.heldCodes s.calls i { c with stage := .inserted (new ++ writes) } := by
  intro c' hc' x hx y hy hxy
  obtain ⟨j, hij, hj⟩ := List.mem_eraseIdx_iff_getElem?.mp hc'
  obtain ⟨k, m⟩ := x
  obtain ⟨k', m'⟩ := y
  obtain rfl : k = k' := hxy
  obtain ⟨hkey, rfl⟩ := Writes.mem_held.mp hx
  obtain ⟨v, hmem⟩ := Writes.mem_keys.mp hkey
  rcases List.mem_append.mp hmem with hmem | hmem
  · have hid := hnew k (Writes.mem_keys.mpr ⟨v, hmem⟩)
    rcases hs.held_known (List.mem_of_getElem? hj) hy with hrow | hid'
    · exact absurd hrow (hs.not_row hget (by rw [hstage]; nofun) hid)
    · exact absurd hid' (hs.fresh i j c c' k hij.symm hget hj hid)
  · refine hs.codes.compatible hij.symm hget hj (k, .exclusive) ?_ (k, m') hy rfl
    rw [RunningRecovery.heldCodes, RunningRecovery.writes, hstage]
    exact Writes.mem_held.mpr ⟨Writes.mem_keys.mpr ⟨v, hmem⟩, rfl⟩

theorem keys_inserts {set : NewRecoveryCodeSet} :
    (inserts account set).keys = set.codes.map (·.id) := by
  rw [inserts, Writes.keys, NewRecoveryCodeSet.rows, List.map_map, List.map_map]
  rfl

theorem Sound.grants_user (hs : Sound s) (hget : s.calls[i]? = some c)
    (hactive : c.stage.isActive = true) {stage : RecoveryStage} :
    Grants RunningRecovery.heldUser s.calls i { c with stage := stage } := by
  refine hs.users.grants_of_subset hget ?_
  obtain ⟨call, old⟩ := c
  rw [heldUser_eq hactive]
  cases hstage : stage.isActive with
  | true =>
    rw [heldUser_eq hstage]
    exact fun _ hx ↦ hx
  | false =>
    have hnone : RunningRecovery.heldUser ⟨call, stage⟩ = [] := by
      cases stage with
      | begun | read | ended => cases call <;> rfl
      | locked | checked | writing | inserted => cases hstage
    rw [hnone]
    exact fun _ hx ↦ absurd hx List.not_mem_nil

theorem Sound.grants_codes (hs : Sound s) (hget : s.calls[i]? = some c) {stage : RecoveryStage}
    (hnone : RunningRecovery.writes ⟨c.call, stage⟩ = []) :
    Grants RunningRecovery.heldCodes s.calls i { c with stage := stage } := by
  refine hs.codes.grants_of_subset hget ?_
  rw [RunningRecovery.heldCodes, hnone]
  exact fun _ hx ↦ absurd hx List.not_mem_nil

/-- What a call that is about to commit has written. -/
theorem finished (hs : Sound s) (hget : s.calls[i]? = some c)
    (hstage : c.stage = .inserted writes ∨ ∃ statement, c.stage = .writing statement [] writes) :
    Finished s i c writes := by
  have hok := hs.calls c (List.mem_of_getElem? hget)
  rw [CallOk] at hok
  rcases hstage with hstage | ⟨statement, hstage⟩
  · rw [hstage] at hok
    obtain ⟨hchecked, hnodup, hwrote, hcovers⟩ := hok
    exact ⟨hget, by rw [hstage]; nofun, by rw [RunningRecovery.writes, hstage],
      fun b ↦ c.mem_heldUser (by rw [hstage]; rfl), hchecked, hnodup, hwrote, hcovers⟩
  · rw [hstage] at hok
    obtain ⟨hchecked, -, hnodup, hwrote, -, hcovers⟩ := hok
    exact ⟨hget, by rw [hstage]; nofun, by rw [RunningRecovery.writes, hstage],
      fun b ↦ c.mem_heldUser (by rw [hstage]; rfl), hchecked, hnodup, hwrote, hcovers⟩

theorem Sound.step (hs : Sound s) (hstep : Step s a t) : Sound t := by
  cases hstep with
  | start call fresh =>
    refine { hs with
      stored := fun set hset ↦ ?_
      fresh := fun j k c c' id hjk hj hk hid hid' ↦ ?_
      codes := hs.codes.append rfl
      users := hs.users.append (by cases call <;> rfl)
      calls := fun c hc ↦ ?_ }
    · obtain ⟨j, c, hget, hrest⟩ := hs.stored set hset
      exact ⟨j, c, List.getElem?_append_left (List.getElem?_eq_some_iff.mp hget).1 ▸ hget, hrest⟩
    · rcases getElem?_append_cases hj with hj | ⟨rfl, rfl⟩ <;>
        rcases getElem?_append_cases hk with hk | ⟨rfl, rfl⟩
      · exact hs.fresh j k c c' id hjk hj hk hid hid'
      · exact fresh c (List.mem_of_getElem? hj) id hid' hid
      · exact fresh c' (List.mem_of_getElem? hk) id hid hid'
      · exact hjk rfl
    · rcases List.mem_append.mp hc with hc | hc
      · exact hs.calls c hc
      · obtain rfl := List.mem_singleton.mp hc
        trivial
  | lock i c get begun free =>
    exact hs.setStage get (by rw [begun]; nofun) (hs.grants_codes get rfl) free trivial
  | check i c get locked checked =>
    refine hs.setStage get (by rw [locked]; nofun) (hs.grants_codes get rfl) ?_ checked
    exact hs.grants_user get (by rw [locked]; rfl)
  | read i c get account code call begun =>
    refine hs.setStage get (by rw [begun]; nofun) (hs.grants_codes get rfl) ?_ trivial
    rw [call]
    exact hs.users.grants_of_subset get fun _ hx ↦ absurd hx List.not_mem_nil
  | scan i c get ready statement makes usedAt =>
    have hok := hs.calls c (List.mem_of_getElem? get)
    refine hs.setStage get ?_ (hs.grants_codes get rfl) ?_ ⟨?_, makes, ?_, List.forall_mem_nil _, List.forall_mem_nil _, ?_⟩
    · rcases ready with hstage | ⟨account, code, unused, -, hstage⟩ <;> rw [hstage] <;> nofun
    · rcases ready with hstage | ⟨account, code, unused, hcall, -⟩
      · exact hs.grants_user get (by rw [hstage]; rfl)
      · rw [hcall]
        exact hs.users.grants_of_subset get fun _ hx ↦ absurd hx List.not_mem_nil
    · rcases ready with hstage | ⟨account, code, unused, hcall, -⟩
      · rw [CallOk, hstage] at hok
        exact hok
      · show Checked s.rows c.call
        rw [hcall]
        trivial
    · rw [show Writes.keys ([] : Writes Uuid UserRecoveryCode) = [] from rfl, List.append_nil]
      exact (List.filter_sublist.map _).nodup hs.ids
    · intro statement' makes' hlocks row hrow hfinds
      obtain rfl := makes.unique makes' hlocks
      exact List.mem_append_left _ (List.mem_map_of_mem (List.mem_filter.mpr ⟨hrow, hfinds⟩))
  | take i c get statement id todo writes stage free row now finds =>
    have hok := hs.calls c (List.mem_of_getElem? get)
    rw [CallOk, stage] at hok
    obtain ⟨hchecked, hmakes, hnodup, hwrote, hids, hcovers⟩ := hok
    obtain ⟨hrow, rfl⟩ := mem_of_current now
    have hperm : (todo ++ row.id :: writes.keys).Perm (row.id :: (todo ++ writes.keys)) :=
      List.perm_middle
    refine hs.setStage get (by rw [stage]; nofun) free (hs.grants_user get (by rw [stage]; rfl))
      ⟨hchecked, hmakes, hperm.nodup_iff.mpr hnodup, ?_, ?_, ?_⟩
    · exact List.forall_mem_cons.mpr ⟨.update statement hmakes row now finds, hwrote⟩
    · refine List.forall_mem_cons.mpr ⟨fun hid ↦ ?_, hids⟩
      exact hs.not_row get (by rw [stage]; nofun) hid (List.mem_map_of_mem hrow)
    · intro statement' makes' hlocks r hr hfinds
      exact hperm.mem_iff.mpr (hcovers statement' makes' hlocks r hr hfinds)
  | skip i c get statement id todo writes stage gone =>
    have hok := hs.calls c (List.mem_of_getElem? get)
    rw [CallOk, stage] at hok
    obtain ⟨hchecked, hmakes, hnodup, hwrote, hids, hcovers⟩ := hok
    refine hs.setStage get (by rw [stage]; nofun) (hs.codes.grants_of_subset get ?_)
      (hs.grants_user get (by rw [stage]; rfl))
      ⟨hchecked, hmakes, (List.nodup_cons.mp hnodup).2, hwrote, hids, ?_⟩
    · rw [RunningRecovery.heldCodes, RunningRecovery.heldCodes, RunningRecovery.writes,
        RunningRecovery.writes, stage]
      exact fun _ hx ↦ hx
    · intro statement' makes' hlocks r hr hfinds
      obtain rfl := hmakes.unique makes' hlocks
      rcases List.mem_cons.mp (hcovers _ makes' hlocks r hr hfinds) with rfl | hmem
      · have hgone := gone r (current_of_mem hs.ids hr)
        rw [hfinds] at hgone
        cases hgone
      · exact hmem
  | insert i c get account set keepConfirmed call statement writes stage =>
    have hok := hs.calls c (List.mem_of_getElem? get)
    rw [CallOk, stage] at hok
    obtain ⟨hchecked, hmakes, hnodup, hwrote, hids, hcovers⟩ := hok
    have hnew : ∀ k ∈ (inserts account set).keys, k ∈ c.call.newIds := by
      rw [keys_inserts, call]
      exact fun _ hk ↦ hk
    have hkeys : Writes.keys (inserts account set ++ writes) =
        (inserts account set).keys ++ writes.keys := List.map_append
    refine hs.setStage get (by rw [stage]; nofun) (hs.grants_insert get stage hnew)
      (hs.grants_user get (by rw [stage]; rfl)) ⟨hchecked, ?_, fun w hw ↦ ?_, ?_⟩
    · rw [hkeys, List.nodup_append, keys_inserts]
      refine ⟨set.ids, hnodup, ?_⟩
      rintro k hk k' hk' rfl
      exact hids k hk' (hnew k (by rwa [keys_inserts]))
    · rcases List.mem_append.mp hw with hw | hw
      · obtain ⟨row, hrow, rfl⟩ := List.mem_map.mp hw
        exact .insert account set keepConfirmed call row hrow
      · exact hwrote w hw
    · intro statement' makes' hlocks r hr hfinds
      rw [hkeys]
      exact List.mem_append_right _ (hcovers statement' makes' hlocks r hr hfinds)
  | commit i c get writes stage new replies =>
    exact (finished hs get stage).commit hs replies
  | endNow i c get => exact hs.setEnded get

theorem sound_invariant :
    (recoveryCodeSystem toLowerCase verify decoy users).Invariant Sound where
  initial := by
    rintro s ⟨hrows, hcalls, hsets, hanswers⟩
    have hnone : ∀ c, c ∉ s.calls := by
      rw [hcalls]
      exact fun _ ↦ List.not_mem_nil
    constructor
    · rw [hrows]
      exact List.nodup_nil
    · rw [hrows]
      exact List.forall_mem_nil _
    · rw [hsets]
      exact List.forall_mem_nil _
    · rw [hsets]
      exact .nil
    · exact fun i j c c' id _ hget ↦ absurd (List.mem_of_getElem? hget) (hnone c)
    · exact fun i j c c' _ hget ↦ absurd (List.mem_of_getElem? hget) (hnone c)
    · exact fun i j c c' _ hget ↦ absurd (List.mem_of_getElem? hget) (hnone c)
    · exact fun c hc ↦ absurd hc (hnone c)
    · rw [hanswers]
      exact List.nodup_nil
    · rw [hanswers]
      nofun
    · rw [hanswers]
      nofun
  step _ _ _ hs hstep := hs.step (step_cases hstep)

/-! ### What a step may do -/

/-- The call regenerates the codes of the account, whether they are confirmed or not. -/
def Regenerates (s : RecoveryCodes) (account : RecoveryCodeAccount) (a : RecoveryAction) : Prop :=
  ∃ (i : ℕ) (c : RunningRecovery) (set : NewRecoveryCodeSet), a = .commit i ∧
    s.calls[i]? = some c ∧ c.call = .replace account set false

/-- A new answer is about the set that the account holds then: a code that is redeemed is an unused
one of it, and the set that is confirmed is it. -/
def AnswerOk (s : RecoveryCodes) : RecoveryAnswer → Prop
  | .replaced _ _ => True
  | .confirmed account setId => ∃ set, s.currentSet account = some set ∧ setId ∈ set.ids
  | .redeemed account id => ∃ set, s.currentSet account = some set ∧ id ∈ set.ids ∧
      ∃ row ∈ s.rows, row.id = id ∧ row.account = account ∧ row.usedAt = none

/-- What one step does to the sets, and answers. -/
structure StepOk (s t : RecoveryCodes) (a : RecoveryAction) : Prop where
  answers : ∃ new, t.answers = new ++ s.answers ∧ ∀ answer ∈ new, AnswerOk s answer
  replaced : ∀ account, t.currentSet account ≠ s.currentSet account →
    ¬NoneConfirmed s.rows account → Regenerates s account a

/-- What a call does that leaves the sets and the answers alone. -/
theorem StepOk.same (hsets : t.sets = s.sets) (hanswers : t.answers = s.answers) :
    StepOk s t a := by
  refine ⟨⟨[], hanswers, nofun⟩, fun account hne ↦ absurd ?_ hne⟩
  rw [RecoveryCodes.currentSet, hsets]
  rfl

theorem Finished.answerOk (hs : Sound s) (hf : Finished s i c writes) {new : List RecoveryAnswer}
    (hreplies : Replies writes c.call new) : ∀ answer ∈ new, AnswerOk s answer := by
  generalize hcall : c.call = call at hreplies
  intro answer hanswer
  cases hreplies with
  | replaced account set keepConfirmed =>
    obtain ⟨code, -, rfl⟩ := Option.map_eq_some_iff.mp (Option.mem_toList.mp hanswer)
    trivial
  | confirmed account setId confirmedAt =>
    obtain rfl := List.mem_singleton.mp hanswer
    exact (hf.confirmed_now hs hcall).1
  | redeemed account code =>
    obtain ⟨w, hw, rfl⟩ := List.mem_map.mp hanswer
    obtain ⟨⟨row, hrow, hid, rfl, hunused⟩, -⟩ :=
      hf.redeemed hs hcall (Writes.mem_keys.mpr ⟨w.2, hw⟩)
    obtain ⟨set, hset, hmem⟩ := hs.rows row hrow
    exact ⟨set, hset, hid ▸ hmem, row, hrow, hid, rfl, hunused⟩

/-- A set that is confirmed gives way only to a regeneration. -/
theorem Finished.regenerates (hf : Finished s i c writes)
    (hne : (storedWith c.call s.sets).find? (·.account = account) ≠ s.currentSet account)
    (hconfirmed : ¬NoneConfirmed s.rows account) : Regenerates s account (.commit i) := by
  cases hcall : c.call with
  | redeem | confirm =>
    rw [hcall] at hne
    exact absurd rfl hne
  | replace b set keepConfirmed =>
    rw [hcall] at hne
    have hb : b = account := by
      by_contra hb
      refine hne ?_
      rw [storedWith, List.find?_cons_of_neg (by simpa using hb)]
      rfl
    subst hb
    have hchecked := hf.checked
    rw [hcall] at hchecked
    cases keepConfirmed with
    | true => exact absurd (hchecked rfl) hconfirmed
    | false => exact ⟨i, c, set, rfl, hf.get, hcall⟩

theorem Sound.stepOk (hs : Sound s) (hstep : Step s a t) : StepOk s t a := by
  cases hstep with
  | start | lock | check | read | scan | take | skip | insert | endNow => exact .same rfl rfl
  | commit i c get writes stage new replies =>
    have hf := finished hs get stage
    exact ⟨⟨new, rfl, hf.answerOk hs replies⟩, fun account ↦ hf.regenerates⟩

/-- In every run, whatever issuances, regenerations, confirmations and redemptions run beside one
another: the codes an account holds are of the last set stored for it, and of no other; each code is
redeemed at most once; a step redeems only an unused code of the set the account holds, and confirms
only that set; and a set with a confirmed code, as one that was answered to be confirmed has, is
replaced only by a regeneration. Every code is normalized to the same however it is typed, and
different random bytes give different codes. -/
theorem recovery_codes_redeemed_once (toLowerCase : List Char → List Char)
    (hlower : LowersAscii toLowerCase) (verify : String → List Char → Bool) (decoy : String)
    (users : List RecoveryCodeAccount) (s : RecoveryCodes)
    (hs : (recoveryCodeSystem toLowerCase verify decoy users).Reachable s) :
    (∀ r ∈ s.rows, ∃ set, s.currentSet r.account = some set ∧ r.id ∈ set.ids) ∧
      s.sets.Pairwise (fun set set' ↦ ∀ id ∈ set.ids, id ∉ set'.ids) ∧
      (redeemedIds s.answers).Nodup ∧
      (∀ account setId, .confirmed account setId ∈ s.answers → ConfirmedOk s account setId) ∧
      (∀ a t, s.step toLowerCase verify decoy users a = some t → StepOk s t a) ∧
      (∀ bytes code typed, generateRecoveryCode bytes = .ok code → IsTyping typed.toList code →
        Text.utf16Length typed ≤ 64 →
        normalizeRecoveryCode toLowerCase typed = some (code.filter (!isSeparator ·))) ∧
      ∀ bytes bytes' code, generateRecoveryCode bytes = .ok code →
        generateRecoveryCode bytes' = .ok code → bytes = bytes' := by
  have hs := sound_invariant.reachable hs
  refine ⟨hs.rows, hs.apart, hs.redeemed, hs.confirmed, fun a t hstep ↦ hs.stepOk (step_cases hstep),
    fun bytes code typed hcode htyped hlength ↦ ?_, fun _ _ _ ↦ generateRecoveryCode_injective⟩
  obtain ⟨hbytes, rfl⟩ := generateRecoveryCode_eq_ok_iff.mp hcode
  rw [filter_shownCode (isRaw_base32 hbytes)]
  exact normalizeRecoveryCode_typed hlower (isRaw_base32 hbytes) htyped hlength

section Sample

def sampleTime : CheckedTime := ⟨1, by decide⟩

def sampleAccount : RecoveryCodeAccount := ⟨1, 2⟩

def sampleSet : NewRecoveryCodeSet where
  codes := [⟨7, "hash 7", none⟩, ⟨8, "hash 8", none⟩]
  createdAt := sampleTime
  hashes := by simp
  lookupDigests := .inl (by simp)
  ids := by simp

def secondSet : NewRecoveryCodeSet where
  codes := [⟨9, "hash 9", none⟩]
  createdAt := sampleTime
  hashes := by simp
  lookupDigests := .inl (by simp)
  ids := by simp

/-- A hash that one text has. -/
def sampleVerify (hash : String) (presented : List Char) : Bool :=
  hash == "hash 7" && presented == "aaaaaaaaaaaaaaaa".toList

/-- Codes are issued and confirmed. One is redeemed by two calls at once, and while a third call
has read the codes, a regeneration replaces them. -/
def sampleActions : List RecoveryAction :=
  [.start (.replace sampleAccount sampleSet true), .lockUser 0, .check 0, .scan 0 sampleTime,
    .insert 0, .commit 0, .start (.confirm sampleAccount 7 sampleTime), .lockUser 1, .check 1,
    .scan 1 sampleTime, .visit 1, .visit 1, .commit 1,
    .start (.redeem sampleAccount "AAAA-aaaa AAAA-aaaa"), .read 2,
    .start (.redeem sampleAccount "aaaaaaaaaaaaaaaa"), .read 3,
    .start (.redeem sampleAccount "aaaaaaaaaaaaaaaa"), .read 4,
    .scan 2 sampleTime, .scan 3 sampleTime, .visit 2, .commit 2, .visit 3, .commit 3,
    .start (.replace sampleAccount secondSet false), .lockUser 5, .check 5, .scan 5 sampleTime,
    .visit 5, .visit 5, .insert 5, .commit 5, .scan 4 sampleTime, .commit 4]

theorem recovery_codes_redeemed_once_sample :
    ∃ s, (recoveryCodeSystem (·.map Char.toLower) sampleVerify "decoy" [sampleAccount]).Reachable s ∧
      redeemedIds s.answers = [7] ∧ s.rows.map (·.id) = [9] ∧
      (∀ r ∈ s.rows, ∃ set, s.currentSet r.account = some set ∧ r.id ∈ set.ids) := by
  let step := RecoveryCodes.step (·.map Char.toLower) sampleVerify "decoy" [sampleAccount]
  have hrun : (exec step ⟨[], [], [], []⟩ sampleActions).any (fun s ↦
      decide (redeemedIds s.answers = [7] ∧ s.rows.map (·.id) = [9])) = true := by decide
  cases hs : exec step ⟨[], [], [], []⟩ sampleActions with
  | none =>
    rw [hs] at hrun
    cases hrun
  | some s =>
    rw [hs] at hrun
    obtain ⟨hredeemed, hrows⟩ := of_decide_eq_true hrun
    have hreachable : (recoveryCodeSystem (·.map Char.toLower) sampleVerify "decoy"
        [sampleAccount]).Reachable s := ⟨_, sampleActions, ⟨rfl, rfl, rfl, rfl⟩, .of_exec hs⟩
    refine ⟨s, hreachable, hredeemed, hrows, ?_⟩
    exact (recovery_codes_redeemed_once (·.map Char.toLower) (fun _ _ ↦ rfl) sampleVerify "decoy"
      [sampleAccount] s hreachable).1

end Sample

end QAuth.SignIn
