import Mathlib.Data.List.Pairwise
import QAuth.Wallet.RequestStates

/-!
# Wallet requests are answered once

Whatever order the statements run in and whichever of them fail, a request is consumed at most once
over both correlators, its key goes with its consumption and nowhere else, and its response code is
accepted at most once.
-/

namespace QAuth.Wallet

open Events (Uuid)
open Locks ReadCommitted RequestStates Transition

variable {s t : RequestStates} {a : RequestStateAction} {c : RunningCall} {i : ℕ} {now : ℕ}
  {call : RequestStateCall} {b r row before : Oid4vpRequestState} {id : Uuid}
  {snapshot : List Oid4vpRequestState} {todo : List Uuid} {written : List Written} {w : Written}

/-! ### The versions of a row -/

/-- Nobody has answered the request. -/
structure IsNew (b : Oid4vpRequestState) : Prop where
  redeemedAt : b.redeemedAt = none
  responseCode : b.responseCode = none
  responseCodeRedeemedAt : b.responseCodeRedeemedAt = none

/-- What the row of a request can be: as it was created, consumed before its expiry, or consumed
with its response code spent before its deadline. -/
inductive Version (b : Oid4vpRequestState) : Oid4vpRequestState → Prop
  | created : Version b b
  | consumed (now : ℕ) (code : NewOid4vpResponseCode) (unexpired : now < b.expiresAt) :
      Version b (b.consume now code)
  | spent (now : ℕ) (code : NewOid4vpResponseCode) (unexpired : now < b.expiresAt) (now' : ℕ)
      (live : now' < code.codeExpiresAt) (sameDevice : b.sameDevice = true) :
      Version b ((b.consume now code).spendCode now' rfl)

theorem Version.id_eq (h : Version b r) : r.id = b.id := by
  cases h <;> rfl

theorem Version.encryption (h : Version b r) (hconsumed : r.redeemedAt ≠ none) (hnew : IsNew b) :
    r.responseEncryption = none := by
  cases h with
  | created => exact absurd hnew.redeemedAt hconsumed
  | consumed | spent => rfl

/-- A row that nobody has consumed is as it was created. -/
theorem Version.eq_of_redeemedAt (h : Version b r) (hr : r.redeemedAt = none) : r = b := by
  cases h with
  | created => rfl
  | consumed | spent => cases hr

theorem finds_redeem_iff {realmId : Uuid} {stateHash : String} {code : NewOid4vpResponseCode} :
    (RequestStateCall.redeem realmId stateHash code).finds now r = true ↔
      r.realmId = realmId ∧ r.stateHash = stateHash ∧ r.redeemedAt = none ∧ now < r.expiresAt := by
  simp [RequestStateCall.finds, and_assoc]

theorem finds_redeemByEncryptionKid_iff {realmId : Uuid} {kid : String}
    {code : NewOid4vpResponseCode} :
    (RequestStateCall.redeemByEncryptionKid realmId kid code).finds now r = true ↔
      r.realmId = realmId ∧ (∃ e, r.responseEncryption = some e ∧ e.kid = kid) ∧
        r.redeemedAt = none ∧ now < r.expiresAt := by
  simp [RequestStateCall.finds, and_assoc, Option.any_eq_true]

theorem finds_redeemResponseCode_iff {realmId : Uuid} {codeHash : String} :
    (RequestStateCall.redeemResponseCode realmId codeHash).finds now r = true ↔
      r.realmId = realmId ∧ (∃ code, r.responseCode = some code ∧ code.codeHash = codeHash ∧
        now < code.codeExpiresAt) ∧ r.responseCodeRedeemedAt = none ∧ r.redeemedAt ≠ none ∧
        r.sameDevice = true := by
  simp [RequestStateCall.finds, and_assoc, Option.any_eq_true, Option.isSome_iff_ne_none]

theorem finds_deleteExpired_iff :
    RequestStateCall.deleteExpired.finds now r = true ↔
      r.expiresAt < now ∧ ∀ code, r.responseCode = some code → code.codeExpiresAt < now := by
  simp [RequestStateCall.finds, Option.all_eq_true]

/-- A row that the sweep finds is one that no redemption finds then or later. -/
theorem finds_of_finds_deleteExpired {now' : ℕ} (h : RequestStateCall.deleteExpired.finds now r)
    (hle : now ≤ now') (hcall : call ≠ .deleteExpired) : call.finds now' r = false := by
  obtain ⟨hexpired, hcode⟩ := finds_deleteExpired_iff.mp h
  rw [Bool.eq_false_iff]
  intro hfinds
  cases call with
  | create => cases hfinds
  | deleteExpired => exact hcall rfl
  | redeem realmId stateHash code =>
    obtain ⟨-, -, -, hlt⟩ := finds_redeem_iff.mp hfinds
    omega
  | redeemByEncryptionKid realmId kid code =>
    obtain ⟨-, -, -, hlt⟩ := finds_redeemByEncryptionKid_iff.mp hfinds
    omega
  | redeemResponseCode realmId codeHash =>
    obtain ⟨-, ⟨code, heq, -, hlt⟩, -⟩ := finds_redeemResponseCode_iff.mp hfinds
    have hgone := hcode code heq
    omega

/-- What a statement makes of a version of a row is a version. -/
theorem Version.write (h : Version b r) (hnew : IsNew b) (hfinds : call.finds now r = true) :
    ∀ r' ∈ call.write now r, Version b r' := by
  intro r' hr'
  cases call with
  | create => cases hfinds
  | deleteExpired => cases hr'
  | redeem realmId stateHash code =>
    obtain ⟨-, -, hnone, hlt⟩ := finds_redeem_iff.mp hfinds
    obtain rfl := h.eq_of_redeemedAt hnone
    obtain rfl := Option.some.inj hr'
    exact .consumed now code hlt
  | redeemByEncryptionKid realmId kid code =>
    obtain ⟨-, -, hnone, hlt⟩ := finds_redeemByEncryptionKid_iff.mp hfinds
    obtain rfl := h.eq_of_redeemedAt hnone
    obtain rfl := Option.some.inj hr'
    exact .consumed now code hlt
  | redeemResponseCode realmId codeHash =>
    obtain ⟨-, ⟨code, heq, -, hlive⟩, hunspent, hsome, hdevice⟩ :=
      finds_redeemResponseCode_iff.mp hfinds
    cases h with
    | created => exact absurd hnew.redeemedAt hsome
    | consumed t code' unexpired =>
      obtain rfl := Option.some.inj heq
      obtain rfl := Option.some.inj hr'
      exact .spent t code' unexpired now hlive hdevice
    | spent => cases hunspent

/-! ### What each thing that happens can do -/

/-- What each thing that happens can do. -/
inductive Step (s : RequestStates) : RequestStateAction → RequestStates → Prop
  | tick (ms : ℕ) : Step s (.tick ms) { s with clock := s.clock + ms }
  | start (call : RequestStateCall)
      (fresh : ∀ c ∈ s.calls, ∀ id, call.createdId = some id → c.call.createdId ≠ some id) :
      Step s (.start call) { s with calls := s.calls ++ [⟨call, s.clock, .begun⟩] }
  | insert (i : ℕ) (c : RunningCall) (get : s.calls[i]? = some c) (id : Uuid)
      (data : NewOid4vpRequestState) (call : c.call = .create id data) (begun : c.stage = .begun) :
      Step s (.scan i) (s.setStage i c
        (.running s.rows [] [⟨id, some (data.row id), .created (data.row id)⟩]))
  | scan (i : ℕ) (c : RunningCall) (get : s.calls[i]? = some c) (begun : c.stage = .begun)
      (other : c.call.createdId = none) (todo : List Uuid)
      (sublist : todo.Sublist (s.rows.map (·.id))) :
      Step s (.scan i) (s.setStage i c (.running s.rows todo []))
  | take (i : ℕ) (c : RunningCall) (get : s.calls[i]? = some c)
      (snapshot : List Oid4vpRequestState) (id : Uuid) (todo : List Uuid) (written : List Written)
      (stage : c.stage = .running snapshot (id :: todo) written)
      (free : Grants RunningCall.held s.calls i
        { c with stage := .running snapshot todo (⟨id, none, .deleted id⟩ :: written) })
      (before row : Oid4vpRequestState) (image : current (·.id) snapshot id = some before)
      (now : current (·.id) s.rows id = some row) (finds : c.call.finds c.now row = true) :
      Step s (.visit i) (s.setStage i c (.running snapshot todo
        (⟨id, c.call.write c.now row, c.call.returning c.now before row⟩ :: written)))
  | skip (i : ℕ) (c : RunningCall) (get : s.calls[i]? = some c)
      (snapshot : List Oid4vpRequestState) (id : Uuid) (todo : List Uuid) (written : List Written)
      (stage : c.stage = .running snapshot (id :: todo) written) :
      Step s (.visit i) (s.setStage i c (.running snapshot todo written))
  | commit (i : ℕ) (c : RunningCall) (get : s.calls[i]? = some c)
      (snapshot : List Oid4vpRequestState) (written : List Written)
      (stage : c.stage = .running snapshot [] written) :
      Step s (.commit i) { s.setStage i c .ended with
        rows := ReadCommitted.commit (·.id) (versions written) s.rows
        created := createdWith c.call s.created
        answers := s.answers ++ written.map fun w ↦ ⟨c.call, c.now, w.returned⟩ }
  | fail (i : ℕ) (c : RunningCall) (get : s.calls[i]? = some c) (running : c.stage ≠ .ended) :
      Step s (.fail i) (s.setStage i c .ended)

theorem step_cases (hstep : s.step a = some t) : Step s a t := by
  cases a with
  | tick ms =>
    cases hstep
    exact .tick ms
  | start call =>
    obtain ⟨hknows, hstep⟩ := Option.ite_none_left_eq_some.mp hstep
    cases hstep
    refine .start _ fun c hc id heq heq' ↦ hknows ?_
    rw [heq]
    exact List.any_eq_true.mpr ⟨c, hc, by simp [heq']⟩
  | scan i =>
    obtain ⟨c, hget, hstep⟩ := Option.bind_eq_some_iff.mp hstep
    split at hstep
    case h_2 => cases hstep
    case h_1 hbegun =>
      rw [RequestStates.scan] at hstep
      split at hstep
      case h_1 id data hcall =>
        obtain ⟨-, hstep⟩ := Option.ite_none_right_eq_some.mp hstep
        cases hstep
        exact .insert i c hget id data hcall hbegun
      case h_2 hnot =>
        cases hstep
        refine .scan i c hget hbegun ?_ _ (List.filter_sublist.map _)
        cases hcall : c.call with
        | create id data => exact absurd hcall (hnot id data)
        | redeem | redeemByEncryptionKid | redeemResponseCode | deleteExpired => rfl
  | visit i =>
    obtain ⟨c, hget, hstep⟩ := Option.bind_eq_some_iff.mp hstep
    split at hstep
    case h_2 => cases hstep
    case h_1 snapshot id todo written hstage =>
      obtain ⟨hfree, hstep⟩ := Option.ite_none_right_eq_some.mp hstep
      split at hstep
      case h_2 =>
        cases hstep
        exact .skip i c hget snapshot id todo written hstage
      case h_1 before row himage hnow =>
        split at hstep
        case isFalse =>
          cases hstep
          exact .skip i c hget snapshot id todo written hstage
        case isTrue hfinds =>
          obtain ⟨-, hstep⟩ := Option.ite_none_right_eq_some.mp hstep
          cases hstep
          exact .take i c hget snapshot id todo written hstage hfree before row himage hnow
            hfinds
  | commit i =>
    obtain ⟨c, hget, hstep⟩ := Option.bind_eq_some_iff.mp hstep
    split at hstep
    case h_2 => cases hstep
    case h_1 snapshot written hstage =>
      cases hstep
      exact .commit i c hget snapshot written hstage
  | fail i =>
    obtain ⟨c, hget, hstep⟩ := Option.bind_eq_some_iff.mp hstep
    split at hstep
    case h_3 => cases hstep
    case h_1 hstage =>
      cases hstep
      exact .fail i c hget (by rw [hstage]; nofun)
    case h_2 hstage =>
      cases hstep
      exact .fail i c hget (by rw [hstage]; nofun)

/-! ### The invariant -/

/-- The request whose consumption a statement returned. -/
def Returned.consumed : Returned → Option Uuid
  | .redeemed row _ => some row.id
  | _ => none

/-- The request whose response code a statement accepted. -/
def Returned.spent : Returned → Option Uuid
  | .code id _ => some id
  | _ => none

/-- The requests consumed so far. -/
def consumedIds (answers : List Answer) : List Uuid := answers.filterMap (·.returned.consumed)

/-- The requests whose response codes were accepted so far. -/
def spentIds (answers : List Answer) : List Uuid := answers.filterMap (·.returned.spent)

def Consumed (answers : List Answer) (b : Oid4vpRequestState) (now : ℕ)
    (code : NewOid4vpResponseCode) : Prop :=
  ∃ a ∈ answers, a.now = now ∧ ∃ encryption, a.returned = .redeemed (b.consume now code) encryption

/-- What an answer says of the request, and of its row ever since. -/
inductive Answered (created rows : List Oid4vpRequestState) (answers : List Answer) : Answer → Prop
  | created (call : RequestStateCall) (now : ℕ) (row : Oid4vpRequestState) :
      Answered created rows answers ⟨call, now, .created row⟩
  | redeemed (call : RequestStateCall) (now : ℕ) (b : Oid4vpRequestState)
      (code : NewOid4vpResponseCode) (encryption : Option ResponseEncryption) (mem : b ∈ created)
      (key : encryption = none ∨ encryption = b.responseEncryption) (unexpired : now < b.expiresAt)
      (gone : ∀ r ∈ rows, r.id = b.id → r.redeemedAt ≠ none) :
      Answered created rows answers ⟨call, now, .redeemed (b.consume now code) encryption⟩
  | code (realmId : Uuid) (now : ℕ) (b : Oid4vpRequestState) (consumedAt : ℕ)
      (code : NewOid4vpResponseCode) (mem : b ∈ created)
      (consumed : Consumed answers b consumedAt code) (sameDevice : b.sameDevice = true)
      (live : now < code.codeExpiresAt)
      (gone : ∀ r ∈ rows, r.id = b.id → r.responseCodeRedeemedAt ≠ none) :
      Answered created rows answers
        ⟨.redeemResponseCode realmId code.codeHash, now, .code b.id b.stateHash⟩
  | deleted (call : RequestStateCall) (now : ℕ) (id : Uuid) :
      Answered created rows answers ⟨call, now, .deleted id⟩

/-- A row's image in a snapshot was once the row. -/
structure Image (created rows : List Oid4vpRequestState) (r : Oid4vpRequestState) : Prop where
  version : ∃ b ∈ created, Version b r
  later : r.redeemedAt ≠ none → ∀ r' ∈ rows, r'.id = r.id → r'.redeemedAt ≠ none

/-- A statement wrote what it found and holds, or the row it creates. -/
inductive Wrote (created rows : List Oid4vpRequestState) (call : RequestStateCall) (now : ℕ) :
    Written → Prop
  | insert (id : Uuid) (data : NewOid4vpRequestState) (creates : call = .create id data) :
      Wrote created rows call now ⟨id, some (data.row id), .created (data.row id)⟩
  | update (b before row : Oid4vpRequestState) (mem : b ∈ created) (version : Version b row)
      (current : current (·.id) rows row.id = some row) (finds : call.finds now row = true)
      (image : row.redeemedAt = none → before = row) :
      Wrote created rows call now ⟨row.id, call.write now row, call.returning now before row⟩

/-- A statement's snapshot is one of the table, and what it wrote is its own. -/
def CallOk (created rows : List Oid4vpRequestState) (c : RunningCall) : Prop :=
  match c.stage with
  | .running snapshot todo written =>
    (∀ r ∈ snapshot, Image created rows r) ∧ (todo ++ written.map (·.id)).Nodup ∧
      ∀ w ∈ written, Wrote created rows c.call c.now w
  | _ => True

structure Sound (s : RequestStates) : Prop where
  ids : (s.rows.map (·.id)).Nodup
  created_ids : (s.created.map (·.id)).Nodup
  created : ∀ b ∈ s.created, IsNew b ∧ ∃ (i : ℕ) (c : RunningCall), s.calls[i]? = some c ∧
    c.stage = .ended ∧ c.call.createdId = some b.id
  creating : ∀ (i j : ℕ) (c c' : RunningCall) (id : Uuid), s.calls[i]? = some c →
    s.calls[j]? = some c' → c.call.createdId = some id → c'.call.createdId = some id → i = j
  rows : ∀ r ∈ s.rows, ∃ b ∈ s.created, Version b r ∧ ∀ now code, r.redeemedAt = some now →
    r.responseCode = some code → Consumed s.answers b now code
  apart : Apart RunningCall.held s.calls
  calls : ∀ c ∈ s.calls, CallOk s.created s.rows c
  answers : ∀ a ∈ s.answers, Answered s.created s.rows s.answers a
  consumed : (consumedIds s.answers).Nodup
  spent : (spentIds s.answers).Nodup

/-- The id of a request being created is new. -/
theorem Sound.not_created (hs : Sound s) (hget : s.calls[i]? = some c) (hstage : c.stage ≠ .ended)
    (hid : c.call.createdId = some id) : id ∉ s.created.map (·.id) := by
  intro hmem
  obtain ⟨b, hb, rfl⟩ := List.mem_map.mp hmem
  obtain ⟨-, j, c', hget', hended, hid'⟩ := hs.created b hb
  obtain rfl := hs.creating i j c c' b.id hget hget' hid hid'
  rw [hget] at hget'
  cases hget'
  exact hstage hended

theorem Sound.row_id (hs : Sound s) (hr : r ∈ s.rows) : r.id ∈ s.created.map (·.id) := by
  obtain ⟨b, hb, hversion, -⟩ := hs.rows r hr
  rw [hversion.id_eq]
  exact List.mem_map_of_mem hb

theorem Sound.row_eq (hs : Sound s) (hr : r ∈ s.rows) (hrow : row ∈ s.rows) (h : r.id = row.id) :
    r = row :=
  Table.eq_of_key_eq hs.ids hr hrow h

/-- A statement sets the marks of a row it writes, and takes none away. -/
theorem write_redeemedAt (hrow : row.redeemedAt ≠ none) (hr : r ∈ call.write now row) :
    r.redeemedAt ≠ none := by
  cases call with
  | deleteExpired => cases hr
  | create =>
    cases hr
    exact hrow
  | redeem | redeemByEncryptionKid =>
    cases hr
    nofun
  | redeemResponseCode =>
    rw [RequestStateCall.write] at hr
    split at hr <;> cases hr <;> exact hrow

theorem write_responseCodeRedeemedAt (hrow : row.responseCodeRedeemedAt ≠ none)
    (hr : r ∈ call.write now row) : r.responseCodeRedeemedAt ≠ none := by
  cases call with
  | deleteExpired => cases hr
  | create | redeem | redeemByEncryptionKid =>
    cases hr
    exact hrow
  | redeemResponseCode =>
    rw [RequestStateCall.write] at hr
    split at hr <;> cases hr
    · nofun
    · exact hrow

/-- One statement goes on, and the table stays as it is. -/
theorem Sound.setStage (hs : Sound s) (hget : s.calls[i]? = some c) (hrunning : c.stage ≠ .ended)
    {stage : CallStage} (hgrants : Grants RunningCall.held s.calls i { c with stage := stage })
    (hok : CallOk s.created s.rows { c with stage := stage }) : Sound (s.setStage i c stage) :=
  { hs with
    created := fun b hb ↦ by
      obtain ⟨hnew, j, c', hget', hended, hid⟩ := hs.created b hb
      refine ⟨hnew, j, c', ?_, hended, hid⟩
      have hne : i ≠ j := by
        rintro rfl
        rw [hget] at hget'
        cases hget'
        exact hrunning hended
      rw [RequestStates.setStage, List.getElem?_set_ne hne]
      exact hget'
    creating := fun j k c₁ c₂ id h₁ h₂ hid₁ hid₂ ↦ by
      have hold : ∀ {j : ℕ} {c' : RunningCall}, (s.calls.set i { c with stage := stage })[j]? =
          some c' → ∃ c₀, s.calls[j]? = some c₀ ∧ c₀.call = c'.call := by
        intro j c' hget'
        rcases getElem?_set_cases hget' with ⟨rfl, rfl⟩ | ⟨-, hget'⟩
        · exact ⟨c, hget, rfl⟩
        · exact ⟨c', hget', rfl⟩
      obtain ⟨d₁, hd₁, heq₁⟩ := hold h₁
      obtain ⟨d₂, hd₂, heq₂⟩ := hold h₂
      exact hs.creating j k d₁ d₂ id hd₁ hd₂ (by rw [heq₁, hid₁]) (by rw [heq₂, hid₂])
    apart := hs.apart.set hgrants
    calls := fun c' hc' ↦ by
      rcases List.mem_or_eq_of_mem_set hc' with hc' | rfl
      · exact hs.calls c' hc'
      · exact hok }

/-- A statement that ends holds nothing. -/
theorem Sound.setEnded (hs : Sound s) (hget : s.calls[i]? = some c) (hrunning : c.stage ≠ .ended) :
    Sound (s.setStage i c .ended) :=
  hs.setStage hget hrunning (hs.apart.grants_of_subset hget nofun) trivial

/-! ### Commits -/

/-- What a statement that is about to commit has written. -/
structure Finished (s : RequestStates) (i : ℕ) (c : RunningCall) (written : List Written) :
    Prop where
  get : s.calls[i]? = some c
  running : c.stage ≠ .ended
  writes : c.writes = versions written
  named : (versions written).Named (·.id)
  wrote : ∀ w ∈ written, Wrote s.created s.rows c.call c.now w

theorem mem_versions {k : Uuid} {v : Option Oid4vpRequestState} :
    (k, v) ∈ versions written ↔ ∃ w ∈ written, w.id = k ∧ w.version = v := by
  simp [versions]

theorem write_id (hr : r ∈ call.write now row) : r.id = row.id := by
  cases call with
  | deleteExpired => cases hr
  | create | redeem | redeemByEncryptionKid =>
    cases hr
    rfl
  | redeemResponseCode =>
    rw [RequestStateCall.write] at hr
    split at hr <;> cases hr <;> rfl

/-- What a statement wrote stands under the ids of the rows it found. -/
theorem named_versions {created rows : List Oid4vpRequestState}
    (hnodup : (todo ++ written.map (·.id)).Nodup)
    (hwrote : ∀ w ∈ written, Wrote created rows call now w) :
    (versions written).Named (·.id) := by
  refine ⟨?_, fun k r hmem ↦ ?_⟩
  · rw [versions, Writes.keys, List.map_map]
    exact (List.nodup_append.mp hnodup).2.1
  · obtain ⟨w, hw, rfl, hversion⟩ := mem_versions.mp hmem
    cases hwrote w hw with
    | insert id data hcall =>
      cases hversion
      rfl
    | update b before row mem version current finds image => exact write_id hversion

theorem mem_createdWith (hb : b ∈ s.created) : b ∈ createdWith call s.created := by
  cases call with
  | create id data => exact List.mem_cons_of_mem _ hb
  | redeem | redeemByEncryptionKid | redeemResponseCode | deleteExpired => exact hb

section Commit

variable (hs : Sound s) (hf : Finished s i c written)

include hf hs

theorem Finished.keeps {P : Oid4vpRequestState → Prop}
    (hP : ∀ (row : Oid4vpRequestState) (call : RequestStateCall) (now : ℕ), P row →
      ∀ r ∈ call.write now row, P r)
    (hid : id ∈ s.created.map (·.id)) (hold : ∀ r ∈ s.rows, r.id = id → P r) :
    ∀ r ∈ commit (·.id) (versions written) s.rows, r.id = id → P r := by
  rintro r hr rfl
  rcases mem_commit.mp hr with ⟨hr, -⟩ | ⟨k, hmem⟩
  · exact hold r hr rfl
  · have hk := hf.named.named _ _ hmem
    obtain ⟨w, hw, hwk, hwv⟩ := mem_versions.mp hmem
    cases hf.wrote w hw with
    | insert id data hcall =>
      cases hwv
      exact absurd hid (hs.not_created hf.get hf.running (by rw [hcall]; rfl))
    | update b before row mem version current finds image =>
      exact hP row _ _ (hold row (mem_of_current current).1 (hwk.trans hk.symm)) r hwv

/-- The row that a statement wrote over still is the one it found. -/
theorem Finished.current_of_wrote (hw : w ∈ written) :
    current (·.id) (commit (·.id) (versions written) s.rows) w.id = w.version :=
  current_commit_of_mem hs.ids hf.named (mem_versions.mpr ⟨w, hw, rfl, rfl⟩)

/-- What another statement wrote stays what it found. -/
theorem Finished.wrote_of_apart {c' : RunningCall} (happart : Compatible c.held c'.held)
    (hw' : w.id ∈ c'.writes.keys) (hwrote : Wrote s.created s.rows c'.call c'.now w) :
    Wrote (createdWith c.call s.created) (commit (·.id) (versions written) s.rows)
      c'.call c'.now w := by
  cases hwrote with
  | insert id data hcall => exact .insert id data hcall
  | update b before row mem version current finds image =>
    refine .update b before row (mem_createdWith mem) version ?_ finds image
    rw [RunningCall.held, hf.writes] at happart
    rw [current_commit_of_held hs.ids hf.named (Writes.mem_held.mpr ⟨hw', rfl⟩) happart]
    exact current

omit hs in
/-- What a consumption returns, and what it leaves. -/
theorem Finished.consumed_of_mem (hw : w ∈ written) (hid : id ∈ w.returned.consumed) :
    ∃ b ∈ s.created, b ∈ s.rows ∧ b.redeemedAt = none ∧ b.id = id ∧ w.id = id ∧
      ∃ code, c.now < b.expiresAt ∧ w.version = some (b.consume c.now code) ∧
        ∃ encryption, w.returned = .redeemed (b.consume c.now code) encryption ∧
          (encryption = none ∨ encryption = b.responseEncryption) := by
  cases hf.wrote w hw with
  | insert id data hcall => cases hid
  | update b before row mem version current finds image =>
    have hrow := (mem_of_current current).1
    cases hcall : c.call with
    | create | redeemResponseCode | deleteExpired =>
      rw [hcall] at hid
      cases hid
    | redeem realmId stateHash code =>
      rw [hcall] at hid finds
      obtain ⟨-, -, hnone, hlt⟩ := finds_redeem_iff.mp finds
      obtain rfl := version.eq_of_redeemedAt hnone
      cases hid
      exact ⟨row, mem, hrow, hnone, rfl, rfl, code, hlt, rfl, none, rfl, .inl rfl⟩
    | redeemByEncryptionKid realmId kid code =>
      rw [hcall] at hid finds
      obtain ⟨-, -, hnone, hlt⟩ := finds_redeemByEncryptionKid_iff.mp finds
      obtain rfl := version.eq_of_redeemedAt hnone
      obtain rfl := image hnone
      cases hid
      exact ⟨before, mem, hrow, hnone, rfl, rfl, code, hlt, rfl, _, rfl, .inr rfl⟩

/-- What the acceptance of a response code returns, and what it leaves. -/
theorem Finished.spent_of_mem (hw : w ∈ written) (hid : id ∈ w.returned.spent) :
    ∃ b ∈ s.created, b.id = id ∧ w.id = id ∧ ∃ t code realmId, b.consume t code ∈ s.rows ∧
      b.responseCodeRedeemedAt = none ∧ c.call = .redeemResponseCode realmId code.codeHash ∧
      b.sameDevice = true ∧ c.now < code.codeExpiresAt ∧ t < b.expiresAt ∧
      w.version = some ((b.consume t code).spendCode c.now rfl) ∧
      w.returned = .code b.id b.stateHash := by
  cases hf.wrote w hw with
  | insert id data hcall => cases hid
  | update b before row mem version current finds image =>
    have hrow := (mem_of_current current).1
    cases hcall : c.call with
    | create | redeem | redeemByEncryptionKid | deleteExpired =>
      rw [hcall] at hid
      cases hid
    | redeemResponseCode realmId codeHash =>
      rw [hcall] at hid finds
      obtain ⟨-, ⟨code, heq, rfl, hlive⟩, hunspent, hsome, hdevice⟩ :=
        finds_redeemResponseCode_iff.mp finds
      cases version with
      | created => exact absurd (hs.created b mem).1.redeemedAt hsome
      | spent => cases hunspent
      | consumed t code' unexpired =>
        obtain rfl := Option.some.inj heq
        cases hid
        exact ⟨b, mem, rfl, rfl, t, code', realmId, hrow, hunspent, rfl, hdevice, hlive, unexpired,
          rfl, rfl⟩

omit hs in
/-- The requests that a statement consumed are different. -/
theorem Finished.nodup_ids {f : Returned → Option Uuid}
    (hid : ∀ w ∈ written, ∀ id ∈ f w.returned, w.id = id) :
    (written.filterMap fun w ↦ f w.returned).Nodup := by
  have hkeys : (written.map (·.id)).Nodup := by
    have hnodup := hf.named.nodup
    rw [versions, Writes.keys, List.map_map] at hnodup
    exact hnodup
  exact Table.nodup_filterMap_of_key hkeys hid

theorem Finished.mem_rows (hw : w ∈ written) (hr : r ∈ commit (·.id) (versions written) s.rows)
    (hid : r.id = w.id) : w.version = some r := by
  rw [← hf.current_of_wrote hs hw, ← hid]
  exact current_of_mem (nodup_commit hs.ids hf.named) hr

theorem Finished.answered (hw : w ∈ written) (answers : List Answer) (hsub : s.answers ⊆ answers) :
    Answered (createdWith c.call s.created) (commit (·.id) (versions written) s.rows) answers
      ⟨c.call, c.now, w.returned⟩ := by
  cases hreturned : w.returned with
  | created row => exact .created _ _ row
  | deleted id => exact .deleted _ _ id
  | redeemed row encryption =>
    obtain ⟨b, hb, -, -, hbid, hwid, code, hlt, hversion, enc, heq, hkey⟩ :=
      hf.consumed_of_mem hw (show row.id ∈ w.returned.consumed by rw [hreturned]; rfl)
    rw [hreturned] at heq
    cases heq
    refine .redeemed _ _ b code _ (mem_createdWith hb) hkey hlt fun r hr hid ↦ ?_
    have hr := hf.mem_rows hs hw hr (by rw [hid, hwid, ← hbid])
    rw [hversion] at hr
    cases hr
    nofun
  | code id stateHash =>
    obtain ⟨b, hb, hbid, hwid, t, code, realmId, hrow, -, hcall, hdevice, hlive, -, hversion, heq⟩ :=
      hf.spent_of_mem hs hw (show id ∈ w.returned.spent by rw [hreturned]; rfl)
    rw [hreturned] at heq
    cases heq
    obtain ⟨b', hb', hversion', hconsumed⟩ := hs.rows _ hrow
    obtain rfl : b' = b :=
      Table.eq_of_key_eq hs.created_ids hb' hb hversion'.id_eq.symm
    obtain ⟨a, ha, hconsumed⟩ := hconsumed t code rfl rfl
    rw [hcall]
    refine .code realmId _ b' t code (mem_createdWith hb) ⟨a, hsub ha, hconsumed⟩ hdevice hlive
      fun r hr hid ↦ ?_
    have hr := hf.mem_rows hs hw hr (by rw [hid, hwid])
    rw [hversion] at hr
    cases hr
    nofun

/-- What was answered before still is, and the rows of it keep their marks. -/
theorem Finished.answered_of_mem {answers : List Answer} (hsub : s.answers ⊆ answers) :
    ∀ a ∈ s.answers,
      Answered (createdWith c.call s.created) (commit (·.id) (versions written) s.rows) answers a := by
  intro a ha
  cases hs.answers a ha with
  | created call now row => exact .created call now row
  | deleted call now id => exact .deleted call now id
  | redeemed call now b code encryption mem key unexpired gone =>
    have hkeeps := hf.keeps hs (fun _ _ _ hrow _ hr ↦ write_redeemedAt hrow hr)
      (List.mem_map_of_mem mem) gone
    exact .redeemed call now b code encryption (mem_createdWith mem) key unexpired hkeeps
  | code realmId now b t code mem consumed sameDevice live gone =>
    have hkeeps := hf.keeps hs (fun _ _ _ hrow _ hr ↦ write_responseCodeRedeemedAt hrow hr)
      (List.mem_map_of_mem mem) gone
    obtain ⟨a, ha, hconsumed⟩ := consumed
    exact .code realmId now b t code (mem_createdWith mem) ⟨a, hsub ha, hconsumed⟩ sameDevice live
      hkeeps

theorem Finished.image (h : Image s.created s.rows r) :
    Image (createdWith c.call s.created) (commit (·.id) (versions written) s.rows) r := by
  obtain ⟨⟨b, hb, hversion⟩, hlater⟩ := h
  refine ⟨⟨b, mem_createdWith hb, hversion⟩, fun hredeemed ↦ ?_⟩
  refine hf.keeps hs (fun _ _ _ hrow _ hr ↦ write_redeemedAt hrow hr) ?_ (hlater hredeemed)
  rw [hversion.id_eq]
  exact List.mem_map_of_mem hb

/-- Another statement is not disturbed. -/
theorem Finished.callOk {j : ℕ} {c' : RunningCall} (hij : j ≠ i) (hget : s.calls[j]? = some c') :
    CallOk (createdWith c.call s.created) (commit (·.id) (versions written) s.rows) c' := by
  have hok := hs.calls c' (List.mem_of_getElem? hget)
  have happart := hs.apart.compatible hij.symm hf.get hget
  rw [CallOk] at hok ⊢
  split
  case h_2 => trivial
  case h_1 snapshot todo written' hstage =>
    rw [hstage] at hok
    obtain ⟨himages, hnodup, hwrote⟩ := hok
    refine ⟨fun r hr ↦ hf.image hs (himages r hr), hnodup, fun w hw ↦ ?_⟩
    refine hf.wrote_of_apart hs happart ?_ (hwrote w hw)
    rw [RunningCall.writes, hstage]
    exact Writes.mem_keys.mpr ⟨w.version, mem_versions.mpr ⟨w, hw, rfl, rfl⟩⟩

/-- A consumed row's consumption was answered. -/
theorem Finished.rows_consumed :
    ∀ r ∈ commit (·.id) (versions written) s.rows, ∃ b ∈ createdWith c.call s.created,
      Version b r ∧ ∀ now code, r.redeemedAt = some now → r.responseCode = some code →
        Consumed (s.answers ++ written.map fun w ↦ ⟨c.call, c.now, w.returned⟩) b now code := by
  intro r hr
  rcases mem_commit.mp hr with ⟨hr, -⟩ | ⟨k, hmem⟩
  · obtain ⟨b, hb, hversion, hconsumed⟩ := hs.rows r hr
    refine ⟨b, mem_createdWith hb, hversion, fun now code hnow hcode ↦ ?_⟩
    obtain ⟨a, ha, hrest⟩ := hconsumed now code hnow hcode
    exact ⟨a, List.mem_append_left _ ha, hrest⟩
  · obtain ⟨w, hw, -, hwv⟩ := mem_versions.mp hmem
    have hanswer : (⟨c.call, c.now, w.returned⟩ : Answer) ∈
        s.answers ++ written.map fun w ↦ ⟨c.call, c.now, w.returned⟩ :=
      List.mem_append_right _ (List.mem_map.mpr ⟨w, hw, rfl⟩)
    cases hf.wrote w hw with
    | insert id data hcall =>
      cases hwv
      rw [hcall]
      exact ⟨_, List.mem_cons_self, .created, nofun⟩
    | update b before row mem version current finds image =>
      have hnew := (hs.created b mem).1
      refine ⟨b, mem_createdWith mem, version.write hnew finds r hwv, ?_⟩
      intro now code hnow hcode
      cases hcall : c.call with
      | create =>
        rw [hcall] at finds
        cases finds
      | deleteExpired =>
        rw [hcall] at hwv
        cases hwv
      | redeem realmId stateHash code' =>
        rw [hcall] at finds hwv hanswer
        obtain ⟨-, -, hnone, -⟩ := finds_redeem_iff.mp finds
        obtain rfl := version.eq_of_redeemedAt hnone
        cases hwv
        cases hnow
        cases hcode
        exact ⟨_, hanswer, rfl, _, rfl⟩
      | redeemByEncryptionKid realmId kid code' =>
        rw [hcall] at finds hwv hanswer
        obtain ⟨-, -, hnone, -⟩ := finds_redeemByEncryptionKid_iff.mp finds
        obtain rfl := version.eq_of_redeemedAt hnone
        cases hwv
        cases hnow
        cases hcode
        exact ⟨_, hanswer, rfl, _, rfl⟩
      | redeemResponseCode realmId codeHash =>
        rw [hcall] at hwv
        obtain ⟨b', hb', hversion', hconsumed⟩ := hs.rows row (mem_of_current current).1
        obtain rfl : b' = b := Table.eq_of_key_eq hs.created_ids hb' mem
          (hversion'.id_eq.symm.trans version.id_eq)
        have hsame : r.redeemedAt = row.redeemedAt ∧ r.responseCode = row.responseCode := by
          change (RequestStateCall.redeemResponseCode realmId codeHash).write c.now row = some r at hwv
          rw [RequestStateCall.write] at hwv
          split at hwv <;> cases hwv <;> exact ⟨rfl, rfl⟩
        obtain ⟨a, ha, hrest⟩ := hconsumed now code (hsame.1 ▸ hnow) (hsame.2 ▸ hcode)
        exact ⟨a, List.mem_append_left _ ha, hrest⟩

omit hs in
/-- What a statement answers for the first time joins what was answered once. -/
theorem Finished.nodup_append (f : Returned → Option Uuid)
    (hold : (s.answers.filterMap (f ·.returned)).Nodup)
    (hid : ∀ w ∈ written, ∀ id ∈ f w.returned, w.id = id)
    (hnew : ∀ w ∈ written, ∀ id ∈ f w.returned, id ∉ s.answers.filterMap (f ·.returned)) :
    ((s.answers ++ written.map fun w ↦ (⟨c.call, c.now, w.returned⟩ : Answer)).filterMap
      (f ·.returned)).Nodup := by
  rw [List.filterMap_append, List.filterMap_map, List.nodup_append]
  refine ⟨hold, hf.nodup_ids hid, ?_⟩
  rintro id hmem id' hmem' rfl
  obtain ⟨w, hw, hreturned⟩ := List.mem_filterMap.mp hmem'
  exact hnew w hw id hreturned hmem

/-- A statement commits. -/
theorem Finished.commit : Sound { s.setStage i c .ended with
    rows := ReadCommitted.commit (·.id) (versions written) s.rows
    created := createdWith c.call s.created
    answers := s.answers ++ written.map fun w ↦ ⟨c.call, c.now, w.returned⟩ } := by
  have hended := hs.setEnded hf.get hf.running
  have hsub : s.answers ⊆ s.answers ++ written.map fun w ↦ ⟨c.call, c.now, w.returned⟩ :=
    List.subset_append_left _ _
  refine ⟨nodup_commit hs.ids hf.named, ?_, ?_, hended.creating, hf.rows_consumed hs, hended.apart,
    ?_, ?_, ?_, ?_⟩
  · cases hcall : c.call with
    | create id data =>
      refine List.nodup_cons.mpr ⟨?_, hs.created_ids⟩
      exact hs.not_created hf.get hf.running (by rw [hcall]; rfl)
    | redeem | redeemByEncryptionKid | redeemResponseCode | deleteExpired => exact hs.created_ids
  · intro b hb
    cases hcall : c.call with
    | create id data =>
      rw [hcall] at hb
      rcases List.mem_cons.mp hb with rfl | hb
      · refine ⟨⟨rfl, rfl, rfl⟩, i, { c with stage := .ended }, ?_, rfl, by rw [hcall]; rfl⟩
        exact List.getElem?_set_self (List.getElem?_eq_some_iff.mp hf.get).1
      · exact hended.created b hb
    | redeem | redeemByEncryptionKid | redeemResponseCode | deleteExpired =>
      rw [hcall] at hb
      exact hended.created b hb
  · intro c' hc'
    obtain ⟨j, hget⟩ := List.getElem?_of_mem hc'
    rcases getElem?_set_cases hget with ⟨-, rfl⟩ | ⟨hij, hget⟩
    · trivial
    · exact hf.callOk hs hij hget
  · intro a ha
    rcases List.mem_append.mp ha with ha | ha
    · exact hf.answered_of_mem hs hsub a ha
    · obtain ⟨w, hw, rfl⟩ := List.mem_map.mp ha
      exact hf.answered hs hw _ hsub
  · refine hf.nodup_append (·.consumed) hs.consumed (fun w hw id hid ↦ ?_) fun w hw id hid ↦ ?_
    · obtain ⟨b, -, -, -, -, hwid, -⟩ := hf.consumed_of_mem hw hid
      exact hwid
    · intro hold
      obtain ⟨b, -, hrow, hnone, rfl, -⟩ := hf.consumed_of_mem hw hid
      obtain ⟨a, ha, hconsumed⟩ := List.mem_filterMap.mp hold
      cases hs.answers a ha with
      | created | deleted | code => cases hconsumed
      | redeemed call now b' code encryption mem key unexpired gone =>
        exact gone b hrow (Option.some.inj hconsumed).symm hnone
  · refine hf.nodup_append (·.spent) hs.spent (fun w hw id hid ↦ ?_) fun w hw id hid ↦ ?_
    · obtain ⟨b, -, -, hwid, -⟩ := hf.spent_of_mem hs hw hid
      exact hwid
    · intro hold
      obtain ⟨b, -, rfl, -, t, code, -, hrow, hnone, -⟩ := hf.spent_of_mem hs hw hid
      obtain ⟨a, ha, hspent⟩ := List.mem_filterMap.mp hold
      cases hs.answers a ha with
      | created | deleted | redeemed => cases hspent
      | code realmId now b' t' code' mem consumed sameDevice live gone =>
        exact gone _ hrow (Option.some.inj hspent).symm hnone

end Commit

/-! ### Every run -/

/-- A row that a statement takes is one it found, in the version it found where nobody has consumed
the request. -/
theorem Sound.wrote (hs : Sound s) (himages : ∀ r ∈ snapshot, Image s.created s.rows r)
    (himage : current (·.id) snapshot id = some before) (hnow : current (·.id) s.rows id = some row)
    (hfinds : c.call.finds c.now row = true) :
    Wrote s.created s.rows c.call c.now
      ⟨id, c.call.write c.now row, c.call.returning c.now before row⟩ := by
  obtain ⟨hbefore, hbid⟩ := mem_of_current himage
  obtain ⟨hrow, rfl⟩ := mem_of_current hnow
  obtain ⟨b, hb, hversion, -⟩ := hs.rows row hrow
  obtain ⟨⟨b', hb', hversion'⟩, hlater⟩ := himages before hbefore
  obtain rfl : b' = b := Table.eq_of_key_eq hs.created_ids hb' hb
    (hversion'.id_eq.symm.trans (hbid.trans hversion.id_eq))
  refine .update b' before row hb hversion hnow hfinds fun hnone ↦ ?_
  rw [hversion.eq_of_redeemedAt hnone]
  refine hversion'.eq_of_redeemedAt ?_
  by_contra hredeemed
  exact hlater hredeemed row hrow hbid.symm hnone

/-- A statement holds rows of requests that were created, or of the one it creates. -/
theorem Sound.held_created (hs : Sound s) (hc : c ∈ s.calls) {m : Mode} (hheld : (id, m) ∈ c.held) :
    id ∈ s.created.map (·.id) ∨ c.call.createdId = some id := by
  have hok := hs.calls c hc
  rw [RunningCall.held, RunningCall.writes] at hheld
  rw [CallOk] at hok
  split at hheld
  case h_2 => cases hheld
  case h_1 snapshot todo written hstage =>
    rw [hstage] at hok
    obtain ⟨v, hmem⟩ := Writes.mem_keys.mp (Writes.mem_held.mp hheld).1
    obtain ⟨w, hw, rfl, -⟩ := mem_versions.mp hmem
    cases hok.2.2 w hw with
    | insert id data hcall =>
      right
      rw [hcall]
      rfl
    | update b before row mem version current finds image =>
      exact .inl (hs.row_id (mem_of_current current).1)

/-- What a statement holds, but for the row it takes. -/
theorem held_cons {call : RequestStateCall} :
    RunningCall.held ⟨call, now, .running snapshot todo (w :: written)⟩ =
      (w.id, .exclusive) :: (versions written).held := rfl

/-- Nobody holds the row of a request that is being created. -/
theorem Sound.grants_insert (hs : Sound s) (hget : s.calls[i]? = some c)
    (hrunning : c.stage ≠ .ended) (hid : c.call.createdId = some id) (hw : w.id = id) :
    Grants RunningCall.held s.calls i { c with stage := .running snapshot [] [w] } := by
  intro c' hc' x hx y hy hxy
  obtain ⟨j, hij, hj⟩ := List.mem_eraseIdx_iff_getElem?.mp hc'
  rw [held_cons] at hx
  obtain rfl := List.mem_singleton.mp hx
  obtain ⟨k, m⟩ := y
  obtain rfl : id = k := hw.symm.trans hxy
  rcases hs.held_created (List.mem_of_getElem? hj) hy with hmem | hid'
  · exact absurd hmem (hs.not_created hget hrunning hid)
  · exact absurd (hs.creating j i c' c id hj hget hid' hid) hij

theorem Sound.image (hs : Sound s) : ∀ r ∈ s.rows, Image s.created s.rows r := by
  intro r hr
  obtain ⟨b, hb, hversion, -⟩ := hs.rows r hr
  refine ⟨⟨b, hb, hversion⟩, fun hredeemed r' hr' hid ↦ ?_⟩
  rwa [hs.row_eq hr' hr hid]

theorem Sound.step (hs : Sound s) (hstep : s.step a = some t) : Sound t := by
  cases step_cases hstep with
  | tick ms => exact { hs with }
  | start call fresh =>
    refine { hs with
      created := fun b hb ↦ ?_
      creating := fun j k c c' id hj hk hid hid' ↦ ?_
      apart := hs.apart.append rfl
      calls := fun c hc ↦ ?_ }
    · obtain ⟨hnew, j, c, hget, hrest⟩ := hs.created b hb
      exact ⟨hnew, j, c, List.getElem?_append_left (List.getElem?_eq_some_iff.mp hget).1 ▸ hget,
        hrest⟩
    · rcases getElem?_append_cases hj with hj | ⟨rfl, rfl⟩ <;>
        rcases getElem?_append_cases hk with hk | ⟨rfl, rfl⟩
      · exact hs.creating j k c c' id hj hk hid hid'
      · exact absurd hid (fresh c (List.mem_of_getElem? hj) id hid')
      · exact absurd hid' (fresh c' (List.mem_of_getElem? hk) id hid)
      · rfl
    · rcases List.mem_append.mp hc with hc | hc
      · exact hs.calls c hc
      · obtain rfl := List.mem_singleton.mp hc
        trivial
  | insert i c get id data call begun =>
    have hrunning : c.stage ≠ .ended := by
      rw [begun]
      nofun
    refine hs.setStage get hrunning (hs.grants_insert get hrunning (by rw [call]; rfl) rfl)
      ⟨hs.image, List.nodup_singleton id, fun w hw ↦ ?_⟩
    obtain rfl := List.mem_singleton.mp hw
    exact .insert id data call
  | scan i c get begun other todo sublist =>
    refine hs.setStage get (by rw [begun]; nofun) (hs.apart.grants_of_subset get ?_)
      ⟨hs.image, ?_, fun w hw ↦ absurd hw List.not_mem_nil⟩
    · exact fun x hx ↦ absurd hx List.not_mem_nil
    rw [List.map_nil, List.append_nil]
    exact sublist.nodup hs.ids
  | take i c get snapshot id todo written stage free before row image now finds =>
    have hok := hs.calls c (List.mem_of_getElem? get)
    rw [CallOk, stage] at hok
    obtain ⟨himages, hnodup, hwrote⟩ := hok
    refine hs.setStage get (by rw [stage]; nofun) (fun c' hc' ↦ ?_) ⟨himages, ?_, ?_⟩
    · have hcompatible := free c' hc'
      rw [held_cons] at hcompatible ⊢
      exact hcompatible
    · show (todo ++ id :: written.map (·.id)).Nodup
      rw [List.perm_middle.nodup_iff]
      exact hnodup
    · exact List.forall_mem_cons.mpr ⟨hs.wrote himages image now finds, hwrote⟩
  | skip i c get snapshot id todo written stage =>
    have hok := hs.calls c (List.mem_of_getElem? get)
    rw [CallOk, stage] at hok
    obtain ⟨himages, hnodup, hwrote⟩ := hok
    refine hs.setStage get (by rw [stage]; nofun) (hs.apart.grants_of_subset get ?_)
      ⟨himages, (List.nodup_cons.mp hnodup).2, hwrote⟩
    rw [RunningCall.held, RunningCall.held, RunningCall.writes, RunningCall.writes, stage]
    exact fun x hx ↦ hx
  | commit i c get snapshot written stage =>
    have hok := hs.calls c (List.mem_of_getElem? get)
    rw [CallOk, stage] at hok
    obtain ⟨-, hnodup, hwrote⟩ := hok
    have hf : Finished s i c written :=
      ⟨get, by rw [stage]; nofun, by rw [RunningCall.writes, stage], named_versions hnodup hwrote,
        hwrote⟩
    exact hf.commit hs
  | fail i c get running => exact hs.setEnded get running

theorem sound_invariant : requestStateSystem.Invariant Sound where
  initial s hinitial := by
    obtain ⟨hrows, hcreated, hcalls, hanswers⟩ := hinitial
    refine ⟨?_, ?_, ?_, ?_, ?_, ?_, ?_, ?_, ?_, ?_⟩ <;>
      simp [hrows, hcreated, hcalls, hanswers, consumedIds, spentIds, Apart]
  step _ _ _ hs hstep := hs.step hstep

/-- The digest of the response code that an answer's consumption issued. -/
def Answer.issued (a : Answer) : Option String :=
  match a.returned with
  | .redeemed row _ => row.responseCode.map (·.codeHash)
  | _ => none

def Answer.accepted (a : Answer) : Option String :=
  match a.call, a.returned with
  | .redeemResponseCode _ codeHash, .code _ _ => some codeHash
  | _, _ => none

/-- An answer is one of a request that was consumed before its expiry, and that had the key which
the answer hands on. -/
def ConsumedInTime (created : List Oid4vpRequestState) (a : Answer) : Prop :=
  ∀ row encryption, a.returned = .redeemed row encryption →
    a.now < row.expiresAt ∧ row.redeemedAt = some a.now ∧ ∀ e, encryption = some e →
      ∃ b ∈ created, b.id = row.id ∧ b.responseEncryption = some e

/-- An answer that accepts a response code accepts the one that its request's consumption issued,
before the code's deadline and for a same-device request. -/
def AcceptedInTime (answers : List Answer) (a : Answer) : Prop :=
  ∀ id stateHash, a.returned = .code id stateHash →
    ∃ a' ∈ answers, ∃ row encryption code, a'.returned = .redeemed row encryption ∧ row.id = id ∧
      row.sameDevice = true ∧ row.responseCode = some code ∧ a.now < code.codeExpiresAt ∧
      a.accepted = some code.codeHash

/-- The rows that the sweep removes are found by no other statement then or later. -/
def SweepsSafely (s : RequestStates) : Prop :=
  ∀ i c t, s.calls[i]? = some c → c.call = .deleteExpired → s.step (.commit i) = some t →
    ∀ r ∈ s.rows, r ∉ t.rows → ∀ (call : RequestStateCall) now, call ≠ .deleteExpired →
      c.now ≤ now → call.finds now r = false

theorem Sound.consumedInTime (hs : Sound s) : ∀ a ∈ s.answers, ConsumedInTime s.created a := by
  intro a ha row encryption hreturned
  cases hs.answers a ha with
  | created | code | deleted => cases hreturned
  | redeemed call now b code enc mem key unexpired gone =>
    cases hreturned
    refine ⟨unexpired, rfl, ?_⟩
    rintro e rfl
    exact ⟨b, mem, rfl, (key.resolve_left nofun).symm⟩

theorem Sound.acceptedInTime (hs : Sound s) : ∀ a ∈ s.answers, AcceptedInTime s.answers a := by
  intro a ha id stateHash hreturned
  cases hs.answers a ha with
  | created | redeemed | deleted => cases hreturned
  | code realmId now b t code mem consumed sameDevice live gone =>
    cases hreturned
    obtain ⟨a', ha', -, encryption, hconsumed⟩ := consumed
    exact ⟨a', ha', _, encryption, code, hconsumed, rfl, sameDevice, rfl, live, rfl⟩

/-- Where no two consumptions issue one code, no code is accepted twice. -/
theorem Sound.accepted_once (hs : Sound s) (hissued : (s.answers.filterMap Answer.issued).Nodup) :
    (s.answers.filterMap Answer.accepted).Nodup := by
  have hspent := hs.spent
  rw [spentIds, List.Nodup, List.pairwise_filterMap] at hspent
  rw [List.Nodup, List.pairwise_filterMap] at hissued ⊢
  refine hspent.imp_of_mem fun {a a'} ha ha' hne codeHash haccepted codeHash' haccepted' heq ↦ ?_
  have hcode : ∀ a ∈ s.answers, ∀ codeHash, a.accepted = some codeHash →
      ∃ id m, a.returned.spent = some id ∧ m ∈ s.answers ∧ m.returned.consumed = some id ∧
        m.issued = some codeHash := by
    intro a ha codeHash haccepted
    cases hs.answers a ha with
    | created call now row => cases call <;> cases haccepted
    | redeemed call => cases call <;> cases haccepted
    | deleted call => cases call <;> cases haccepted
    | code realmId now b t code mem consumed sameDevice live gone =>
      cases haccepted
      obtain ⟨m, hm, -, encryption, hconsumed⟩ := consumed
      refine ⟨b.id, m, rfl, hm, ?_, ?_⟩
      · rw [hconsumed]
        rfl
      · rw [Answer.issued, hconsumed]
        rfl
  subst heq
  obtain ⟨id, m, hid, hm, hmid, hmissued⟩ := hcode a ha _ haccepted
  obtain ⟨id', m', hid', hm', hmid', hmissued'⟩ := hcode a' ha' _ haccepted'
  have hmm : m ≠ m' := by
    rintro rfl
    rw [hmid] at hmid'
    exact hne id hid id' hid' (Option.some.inj hmid')
  have hsymm : Std.Symm fun a a' : Answer ↦ ∀ x, a.issued = some x → ∀ y, a'.issued = some y →
      x ≠ y := ⟨fun _ _ h x hx y hy ↦ (h y hy x hx).symm⟩
  exact hissued.forall hm hm' hmm _ hmissued _ hmissued' rfl

theorem Sound.sweepsSafely (hs : Sound s) : SweepsSafely s := by
  intro i c t hget hcall hstep r hr hgone call now hother hle
  cases step_cases hstep with
  | commit i c' get snapshot written stage =>
    rw [hget] at get
    cases get
    have hok := hs.calls c (List.mem_of_getElem? hget)
    rw [CallOk, stage] at hok
    have hkey : r.id ∈ (versions written).keys := by
      by_contra hnot
      exact hgone (mem_commit.mpr (.inl ⟨hr, hnot⟩))
    obtain ⟨v, hmem⟩ := Writes.mem_keys.mp hkey
    obtain ⟨w, hw, hwid, -⟩ := mem_versions.mp hmem
    cases hok.2.2 w hw with
    | insert id data hcreates =>
      rw [hcall] at hcreates
      cases hcreates
    | update b before row mem version current finds image =>
      obtain rfl := hs.row_eq (mem_of_current current).1 hr hwid
      rw [hcall] at finds
      exact finds_of_finds_deleteExpired finds hle hother

/-- In every run, whatever statements run beside one another and whichever of them fail: a request
is consumed at most once over both correlators, and before its expiry; its key is returned with its
consumption and is in no row of it since; a response code is accepted at most once, before its own
deadline, and only for a same-device request that was consumed; and the sweep removes no row that a
redemption would still find. -/
theorem requests_answered_once (s : RequestStates) (hs : requestStateSystem.Reachable s) :
    (consumedIds s.answers).Nodup ∧ (∀ a ∈ s.answers, ConsumedInTime s.created a) ∧
      (∀ r ∈ s.rows, r.redeemedAt ≠ none ∨ r.id ∈ consumedIds s.answers →
        r.responseEncryption = none) ∧
      (spentIds s.answers).Nodup ∧ (∀ a ∈ s.answers, AcceptedInTime s.answers a) ∧
      ((s.answers.filterMap Answer.issued).Nodup → (s.answers.filterMap Answer.accepted).Nodup) ∧
      SweepsSafely s := by
  have hs := sound_invariant.reachable hs
  refine ⟨hs.consumed, hs.consumedInTime, fun r hr hconsumed ↦ ?_, hs.spent, hs.acceptedInTime,
    hs.accepted_once, hs.sweepsSafely⟩
  obtain ⟨b, hb, hversion, -⟩ := hs.rows r hr
  refine hversion.encryption (hconsumed.elim id fun hmem ↦ ?_) (hs.created b hb).1
  obtain ⟨a, ha, hid⟩ := List.mem_filterMap.mp hmem
  cases hs.answers a ha with
  | created | code | deleted => cases hid
  | redeemed call now b' code encryption mem key unexpired gone =>
    exact gone r hr (Option.some.inj hid).symm

section Sample

def sampleRequest : NewOid4vpRequestState where
  realmId := 1
  stateHash := "state"
  expiresAt := 100
  responseEncryption := some ⟨"kid", "jwk", .sealing "realm key"⟩
  sameDevice := true

/-- The wallet answers twice, by the `kid` and by the `state`, the second time while the first
answer is on its way. Then the browser returns with the response code. -/
def sampleActions : List RequestStateAction :=
  [.start (.create 7 sampleRequest), .scan 0, .commit 0,
    .start (.redeemByEncryptionKid 1 "kid" ⟨"code", 200⟩), .scan 1,
    .start (.redeem 1 "state" ⟨"other code", 200⟩), .scan 2, .visit 1, .commit 1, .visit 2,
    .commit 2, .start (.redeemResponseCode 1 "code"), .scan 3, .visit 3, .commit 3]

theorem requests_answered_once_sample : ∃ s, requestStateSystem.Reachable s ∧
    consumedIds s.answers = [7] ∧ spentIds s.answers = [7] ∧
    (∀ r ∈ s.rows, r.redeemedAt ≠ none ∨ r.id ∈ consumedIds s.answers →
      r.responseEncryption = none) := by
  have hrun : (exec RequestStates.step ⟨5, [], [], [], []⟩ sampleActions).any (fun s ↦
      decide (consumedIds s.answers = [7] ∧ spentIds s.answers = [7])) = true := by decide
  cases hs : exec RequestStates.step ⟨5, [], [], [], []⟩ sampleActions with
  | none =>
    rw [hs] at hrun
    cases hrun
  | some s =>
    rw [hs] at hrun
    obtain ⟨hconsumed, hspent⟩ := of_decide_eq_true hrun
    have hreachable : requestStateSystem.Reachable s :=
      ⟨_, sampleActions, ⟨rfl, rfl, rfl, rfl⟩, .of_exec hs⟩
    exact ⟨s, hreachable, hconsumed, hspent, (requests_answered_once s hreachable).2.2.1⟩

end Sample

end QAuth.Wallet
