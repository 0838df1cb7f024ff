import QAuth.Keys.SignerNode

/-!
# What a signer knows and shows

Statuses only move on, so a key that was once active is active later only as it was. What a node takes
for an active key is compared with the published keys that it holds or is about to hold.
-/

namespace QAuth.Keys

open Transition

variable {store : List KeyRow} {op : StoreOp} {purpose : KeyPurpose} {kid : String}
  {published : List PublicKeyRecord} {row : KeyRow}

/-! ### Keys in the store -/

/-- The realm has the key, and it has been active. -/
def Begun (store : List KeyRow) (purpose : KeyPurpose) (kid : String) : Prop :=
  ∃ row ∈ store, row.kid = kid ∧ row.purpose = purpose ∧ row.scopeId = none ∧ row.status ≠ .next

def Shown (store : List KeyRow) (published : List PublicKeyRecord) (purpose : KeyPurpose)
    (kid : String) : Prop :=
  ∀ row ∈ store, row.kid = kid → row.purpose = purpose → row.scopeId = none →
    row.status = .active → ∀ record, row.publicRecord = some record → record ∈ published

theorem shown_store (store : List KeyRow) (purpose : KeyPurpose) (kid : String) :
    Shown store (storeListPublicKeys store) purpose kid :=
  fun row hrow _ _ _ _ _ hrecord ↦ List.mem_filterMap.mpr ⟨row, hrow, hrecord⟩

/-- What a change of one row leaves as it is, and what it does to the status. -/
structure Advances (f : KeyRow → KeyRow) : Prop where
  kid : ∀ row, (f row).kid = row.kid
  purpose : ∀ row, (f row).purpose = row.purpose
  scopeId : ∀ row, (f row).scopeId = row.scopeId
  begun : ∀ row : KeyRow, row.status ≠ .next → (f row).status ≠ .next
  active : ∀ row : KeyRow, row.status ≠ .next → (f row).status = .active → f row = row

theorem advances_activate : Advances KeyRow.activate where
  kid row := by rw [KeyRow.activate]; split <;> rfl
  purpose row := by rw [KeyRow.activate]; split <;> rfl
  scopeId row := by rw [KeyRow.activate]; split <;> rfl
  begun row h := by rw [KeyRow.activate, if_neg h]; exact h
  active row h _ := by rw [KeyRow.activate, if_neg h]

theorem advances_retire (retireAt unpublishAt : ℕ) : Advances (·.retire retireAt unpublishAt) where
  kid row := by rw [KeyRow.retire]; split <;> rfl
  purpose row := by rw [KeyRow.retire]; split <;> rfl
  scopeId row := by rw [KeyRow.retire]; split <;> rfl
  begun row h := by
    rw [KeyRow.retire]
    split
    · exact nofun
    · exact h
  active row _ h := by
    rw [KeyRow.retire] at h ⊢
    split at h
    · cases h
    case isFalse hactive => exact if_neg hactive

theorem advances_compromise : Advances KeyRow.compromise where
  kid _ := rfl
  purpose _ := rfl
  scopeId _ := rfl
  begun _ _ := nofun
  active _ _ h := by cases h

theorem map_kid_changeRow {f : KeyRow → KeyRow} (hf : Advances f) :
    (changeRow kid f store).map (·.kid) = store.map (·.kid) := by
  rw [changeRow, List.map_map]
  refine List.map_congr_left fun row _ ↦ ?_
  rw [Function.comp_apply]
  split
  · exact hf.kid row
  · rfl

theorem nodup_applyOp (h : (store.map (·.kid)).Nodup) : ((applyOp store op).map (·.kid)).Nodup := by
  cases op with
  | create row =>
    rw [applyOp]
    split_ifs with hmem
    · exact h
    · rw [List.map_append]
      exact List.nodup_append.mpr ⟨h, List.nodup_singleton _, by
        rintro a ha b hb rfl
        rw [List.map_singleton, List.mem_singleton] at hb
        exact hmem (hb ▸ ha)⟩
  | activate kid => rwa [applyOp, map_kid_changeRow advances_activate]
  | retire kid retireAt unpublishAt =>
    rwa [applyOp, map_kid_changeRow (advances_retire retireAt unpublishAt)]
  | compromise kid => rwa [applyOp, map_kid_changeRow advances_compromise]
  | deleteByScope purpose scopeId => exact h.sublist (List.filter_sublist.map _)

theorem Begun.changeRow {f : KeyRow → KeyRow} (hf : Advances f) {changed : String}
    (h : Begun store purpose kid) : Begun (changeRow changed f store) purpose kid := by
  obtain ⟨row, hrow, hkid, hpurpose, hscope, hstatus⟩ := h
  refine ⟨_, List.mem_map_of_mem hrow, ?_⟩
  split
  · exact ⟨(hf.kid row).trans hkid, (hf.purpose row).trans hpurpose,
      (hf.scopeId row).trans hscope, hf.begun row hstatus⟩
  · exact ⟨hkid, hpurpose, hscope, hstatus⟩

/-- A key of the realm stays, and has been active for good. -/
theorem Begun.applyOp (h : Begun store purpose kid) : Begun (applyOp store op) purpose kid := by
  cases op with
  | create row =>
    rw [Keys.applyOp]
    split_ifs
    · exact h
    · obtain ⟨row', hrow, hrest⟩ := h
      exact ⟨row', List.mem_append_left _ hrow, hrest⟩
  | activate changed => exact h.changeRow advances_activate
  | retire changed retireAt unpublishAt => exact h.changeRow (advances_retire retireAt unpublishAt)
  | compromise changed => exact h.changeRow advances_compromise
  | deleteByScope purpose' scopeId =>
    obtain ⟨row, hrow, hkid, hpurpose, hscope, hstatus⟩ := h
    refine ⟨row, List.mem_filter.mpr ⟨hrow, ?_⟩, hkid, hpurpose, hscope, hstatus⟩
    simp [hscope]

theorem eq_of_kid (h : (store.map (·.kid)).Nodup) {a b : KeyRow} (ha : a ∈ store) (hb : b ∈ store)
    (hkid : a.kid = b.kid) : a = b :=
  List.inj_on_of_nodup_map h ha hb hkid

theorem Shown.changeRow {f : KeyRow → KeyRow} (hf : Advances f) {changed : String}
    (hkids : (store.map (·.kid)).Nodup) (hbegun : Begun store purpose kid)
    (h : Shown store published purpose kid) :
    Shown (changeRow changed f store) published purpose kid := by
  intro row' hrow' hkid hpurpose hscope hactive record hrecord
  obtain ⟨row, hrow, rfl⟩ := List.mem_map.mp hrow'
  -- the row of the key had been active before, so it is as it was
  have hsame : (if row.kid = changed then f row else row) = row := by
    by_cases hchanged : row.kid = changed
    · rw [if_pos hchanged] at hkid hactive ⊢
      obtain ⟨begun, hmem, hbegunKid, -, -, hstatus⟩ := hbegun
      obtain rfl := eq_of_kid hkids hmem hrow (hbegunKid.trans (hkid.symm.trans (hf.kid row)))
      exact hf.active _ hstatus hactive
    · exact if_neg hchanged
  rw [hsame] at hkid hpurpose hscope hactive hrecord
  exact h row hrow hkid hpurpose hscope hactive record hrecord

/-- A key that has been active is published no differently later. -/
theorem Shown.applyOp (hkids : (store.map (·.kid)).Nodup) (hbegun : Begun store purpose kid)
    (h : Shown store published purpose kid) : Shown (applyOp store op) published purpose kid := by
  cases op with
  | create row =>
    rw [Keys.applyOp]
    split_ifs with hmem
    · exact h
    · intro row' hrow' hkid
      rcases List.mem_append.mp hrow' with hrow' | hrow'
      · exact h row' hrow' hkid
      · obtain ⟨begun, hbegunMem, hbegunKid, -⟩ := hbegun
        rw [List.mem_singleton.mp hrow'] at hkid
        exact absurd (List.mem_map.mpr ⟨begun, hbegunMem, hbegunKid.trans hkid.symm⟩) hmem
  | activate changed => exact h.changeRow advances_activate hkids hbegun
  | retire changed retireAt unpublishAt =>
    exact h.changeRow (advances_retire retireAt unpublishAt) hkids hbegun
  | compromise changed => exact h.changeRow advances_compromise hkids hbegun
  | deleteByScope purpose' scopeId =>
    intro row hrow
    exact h row (List.mem_of_mem_filter hrow)

/-! ### What a node knows -/

def ActiveIn (list : List SignerKeyRecord) (kid : String) : Prop :=
  ∃ key ∈ list, key.kid = kid ∧ key.status = .active

/-- A key that the node has taken, or is about to take, for an active one. -/
inductive Known (s : Node) (purpose : KeyPurpose) (kid : String) : Prop
  | cached (entry : KeyList) (held : s.keyLists (purpose, none) = some entry)
      (active : ActiveIn entry.value kid)
  | ended (pending : PendingKeys) (value : List SignerKeyRecord)
      (runs : s.pendingKeys (purpose, none) = some pending) (stage : pending.stage = .ended value)
      (active : ActiveIn value kid)
  | signing (call : SignCall) (value : List SignerKeyRecord) (mem : call ∈ s.signing)
      (of : call.purpose = purpose) (list : call.list = some value) (active : ActiveIn value kid)
  | signed (mem : (purpose, kid) ∈ s.signed)

def Answer.Complete (a : Answer) : Prop :=
  ∀ kid ∈ a.signedBefore, ∀ row ∈ a.store, row.kid = kid → row.purpose = a.purpose →
    row.scopeId = none → row.status = .active → ∀ record, row.publicRecord = some record →
      isPublishedAt record a.at' = true → kid ∈ a.keys.map (·.kid)

structure Inv (s : Node) : Prop where
  kids : (s.store.map (·.kid)).Nodup
  known : ∀ purpose kid, Known s purpose kid → Begun s.store purpose kid
  /-- what a running read saw was so -/
  seen : ∀ purpose pending value kid, s.pendingKeys (purpose, none) = some pending →
    pending.stage.value? = some value → ActiveIn value kid → Begun s.store purpose kid
  cachedShown : ∀ purpose kid, Known s purpose kid → ∀ entry, s.publicList = some entry →
    Shown s.store entry.value purpose kid
  /-- a read that no key list has outrun shows what is known -/
  pendingShown : ∀ purpose kid, Known s purpose kid → ∀ pending value,
    s.pendingPublic = some pending → pending.stage.value? = some value →
      pending.dropped = false → Shown s.store value purpose kid
  before : ∀ call ∈ s.verifying, ∀ kid ∈ call.signedBefore, (call.purpose, kid) ∈ s.signed
  waitingShown : ∀ call ∈ s.verifying, call.list = none → ∀ kid ∈ call.signedBefore,
    ∀ pending value, s.pendingPublic = some pending → pending.stage.value? = some value →
      Shown s.store value call.purpose kid
  heldShown : ∀ call ∈ s.verifying, ∀ value, call.list = some value → ∀ kid ∈ call.signedBefore,
    Shown s.store value call.purpose kid
  /-- a read that was outrun does not find its count again -/
  generation : ∀ pending, s.pendingPublic = some pending → (∀ value, pending.stage ≠ .ended value) →
    pending.generation ≤ s.publicGeneration ∧
      (pending.dropped = true → pending.generation < s.publicGeneration)
  /-- a read began no earlier than the one whose list is held -/
  readAt : ∀ slot pending entry, s.pendingKeys slot = some pending → s.keyLists slot = some entry →
    entry.readAt ≤ pending.readAt
  complete : ∀ a ∈ s.answers, a.Complete

/-! ### Steps -/

section Steps

variable {s t : Node} {slot : Slot} {now refreshIntervalMs : ℕ} {forced : Bool}

theorem ActiveIn.storeListKeys (h : ActiveIn (storeListKeys store (purpose, none)) kid) :
    Begun store purpose kid := by
  obtain ⟨key, hkey, rfl, hactive⟩ := h
  obtain ⟨row, hrow, rfl⟩ := List.mem_map.mp hkey
  obtain ⟨hmem, hslot⟩ := List.mem_filter.mp hrow
  obtain ⟨hpurpose, hscope⟩ := of_decide_eq_true hslot
  refine ⟨row, hmem, rfl, hpurpose, hscope, ?_⟩
  intro hnext
  rw [KeyRow.signerRecord, hnext] at hactive
  cases hactive

theorem ActiveIn.of_sameKeys {a b : List SignerKeyRecord} (hsame : sameKeys a b = true)
    (h : ActiveIn b kid) : ActiveIn a kid := by
  obtain ⟨key, hkey, hkid, hactive⟩ := h
  have hmem : (key.kid, key.status) ∈ a.map fun key ↦ (key.kid, key.status) :=
    (List.isPerm_iff.mp hsame).mem_iff.mpr (List.mem_map_of_mem hkey)
  obtain ⟨key', hkey', heq⟩ := List.mem_map.mp hmem
  obtain ⟨hkid', hstatus⟩ := Prod.mk.inj heq
  exact ⟨key', hkey', hkid'.trans hkid, hstatus.trans hactive⟩

theorem Known.congr (hk : t.keyLists = s.keyLists) (hp : t.pendingKeys = s.pendingKeys)
    (hc : t.signing = s.signing) (hs : t.signed = s.signed) (h : Known t purpose kid) :
    Known s purpose kid := by
  cases h with
  | cached entry held active => exact .cached entry (hk ▸ held) active
  | ended pending value runs stage active => exact .ended pending value (hp ▸ runs) stage active
  | signing call value mem of list active => exact .signing call value (hc ▸ mem) of list active
  | signed mem => exact .signed (hs ▸ mem)

theorem Inv.applyOp (h : Inv s) : Inv { s with store := applyOp s.store op } := by
  have hknown : ∀ p k, Known { s with store := Keys.applyOp s.store op } p k → Known s p k :=
    fun p k ↦ Known.congr rfl rfl rfl rfl
  have hbefore : ∀ call ∈ s.verifying, ∀ k ∈ call.signedBefore, Begun s.store call.purpose k :=
    fun call hcall k hk ↦ h.known _ _ (.signed (h.before call hcall k hk))
  exact {
    kids := nodup_applyOp h.kids
    known := fun p k hk ↦ (h.known p k (hknown p k hk)).applyOp
    seen := fun p pending value k hp hv hk ↦ (h.seen p pending value k hp hv hk).applyOp
    cachedShown := fun p k hk entry hentry ↦ (h.cachedShown p k (hknown p k hk) entry hentry).applyOp
      h.kids (h.known p k (hknown p k hk))
    pendingShown := fun p k hk pending value hp hv hd ↦
      (h.pendingShown p k (hknown p k hk) pending value hp hv hd).applyOp h.kids
        (h.known p k (hknown p k hk))
    before := h.before
    waitingShown := fun call hcall hnone k hk pending value hp hv ↦
      (h.waitingShown call hcall hnone k hk pending value hp hv).applyOp h.kids
        (hbefore call hcall k hk)
    heldShown := fun call hcall value hv k hk ↦
      (h.heldShown call hcall value hv k hk).applyOp h.kids (hbefore call hcall k hk)
    generation := h.generation
    readAt := h.readAt
    complete := h.complete }

theorem Inv.applyOps (h : Inv s) (ops : List StoreOp) :
    Inv { s with store := ops.foldl Keys.applyOp s.store } := by
  induction ops generalizing s with
  | nil => exact h
  | cons op ops ih => exact ih h.applyOp

theorem Inv.withKeys (h : Inv s) {keyLists : Slot → Option KeyList}
    {pendingKeys : Slot → Option PendingKeys} {signing : List SignCall}
    (hknown : ∀ p k, Known { s with keyLists, pendingKeys, signing } p k → Known s p k ∨
      (Begun s.store p k ∧ s.publicList = none ∧
        ∀ pending, s.pendingPublic = some pending → pending.dropped = true))
    (hseen : ∀ p pending value k, pendingKeys (p, none) = some pending →
      pending.stage.value? = some value → ActiveIn value k → Begun s.store p k)
    (hreadAt : ∀ slot pending entry, pendingKeys slot = some pending → keyLists slot = some entry →
      entry.readAt ≤ pending.readAt) :
    Inv { s with keyLists, pendingKeys, signing } where
  kids := h.kids
  known p k hk := (hknown p k hk).elim (h.known p k) (·.1)
  seen := hseen
  cachedShown p k hk entry hentry := by
    rcases hknown p k hk with hk | ⟨-, hnone, -⟩
    · exact h.cachedShown p k hk entry hentry
    · rw [hnone] at hentry
      cases hentry
  pendingShown p k hk pending value hp hv hd := by
    rcases hknown p k hk with hk | ⟨-, -, hdropped⟩
    · exact h.pendingShown p k hk pending value hp hv hd
    · rw [hdropped pending hp] at hd
      cases hd
  before := h.before
  waitingShown := h.waitingShown
  heldShown := h.heldShown
  generation := h.generation
  readAt := hreadAt
  complete := h.complete

/-- What happens to published keys and to calls that verify. -/
theorem Inv.withPublic (h : Inv s) {publicList : Option PublicList} {publicGeneration : ℕ}
    {pendingPublic : Option PendingPublic} {verifying : List VerifyCall}
    (hcached : ∀ p k, Known s p k → ∀ entry, publicList = some entry →
      Shown s.store entry.value p k)
    (hpending : ∀ p k, Known s p k → ∀ pending value, pendingPublic = some pending →
      pending.stage.value? = some value → pending.dropped = false → Shown s.store value p k)
    (hbefore : ∀ call ∈ verifying, ∀ k ∈ call.signedBefore, (call.purpose, k) ∈ s.signed)
    (hwaiting : ∀ call ∈ verifying, call.list = none → ∀ k ∈ call.signedBefore,
      ∀ pending value, pendingPublic = some pending → pending.stage.value? = some value →
        Shown s.store value call.purpose k)
    (hheld : ∀ call ∈ verifying, ∀ value, call.list = some value → ∀ k ∈ call.signedBefore,
      Shown s.store value call.purpose k)
    (hgeneration : ∀ pending, pendingPublic = some pending →
      (∀ value, pending.stage ≠ .ended value) → pending.generation ≤ publicGeneration ∧
        (pending.dropped = true → pending.generation < publicGeneration)) :
    Inv { s with publicList, publicGeneration, pendingPublic, verifying } := by
  have hknown : ∀ p k, Known { s with publicList, publicGeneration, pendingPublic, verifying } p k →
      Known s p k := fun p k ↦ Known.congr rfl rfl rfl rfl
  exact {
    kids := h.kids
    known := fun p k hk ↦ h.known p k (hknown p k hk)
    seen := h.seen
    cachedShown := fun p k hk ↦ hcached p k (hknown p k hk)
    pendingShown := fun p k hk ↦ hpending p k (hknown p k hk)
    before := hbefore
    waitingShown := hwaiting
    heldShown := hheld
    generation := hgeneration
    readAt := h.readAt
    complete := h.complete }

theorem trustedKeys_eq_some {cached : Option KeyList} {value : List SignerKeyRecord}
    (h : trustedKeys refreshIntervalMs cached forced now = some value) :
    ∃ entry, cached = some entry ∧ entry.value = value := by
  obtain ⟨entry, hentry, h⟩ := Option.bind_eq_some_iff.mp h
  exact ⟨entry, hentry, (Option.ite_none_right_eq_some.mp h).2 |> Option.some.inj⟩

/-- A list that is not taken was read before. -/
theorem trustedKeys_eq_none {cached : Option KeyList} {entry : KeyList}
    (h : trustedKeys refreshIntervalMs cached forced now = none) (hentry : cached = some entry) :
    entry.readAt ≤ now := by
  subst hentry
  rw [trustedKeys, Option.bind_some] at h
  generalize (if !forced then refreshIntervalMs
    else if entry.forced then min MIN_FORCED_READ_INTERVAL_MS refreshIntervalMs else 0) = trusted at h
  dsimp only at h
  by_contra hlater
  rw [if_pos (by omega)] at h
  cases h

theorem freshPublic_eq_some {cached : Option PublicList} {value : List PublicKeyRecord}
    (h : freshPublic refreshIntervalMs cached now = some value) :
    ∃ entry, cached = some entry ∧ entry.value = value := by
  obtain ⟨entry, hentry, h⟩ := Option.bind_eq_some_iff.mp h
  exact ⟨entry, hentry, (Option.ite_none_right_eq_some.mp h).2 |> Option.some.inj⟩

/-- A read that begins has seen nothing yet. -/
theorem Inv.shareKeys (h : Inv s)
    (hnow : ∀ entry, s.keyLists slot = some entry → entry.readAt ≤ now) :
    Inv (s.shareKeys slot forced now) := by
  rw [Node.shareKeys]
  split
  case h_1 => exact h
  case h_2 hnone =>
    refine h.withKeys (fun p k hk ↦ .inl ?_) ?_ ?_
    · cases hk with
      | cached entry held active => exact .cached entry held active
      | ended pending value runs stage active =>
        simp only [Function.update_apply] at runs
        split_ifs at runs
        · cases runs
          cases stage
        · exact .ended pending value runs stage active
      | signing call value mem of list active => exact .signing call value mem of list active
      | signed mem => exact .signed mem
    · intro p pending value k hp hv
      simp only [Function.update_apply] at hp
      split_ifs at hp
      · cases hp
        cases hv
      · exact h.seen p pending value k hp hv
    · intro slot' pending entry hp hentry
      simp only [Function.update_apply] at hp
      split_ifs at hp with hslot
      · cases hp
        exact hnow entry (hslot ▸ hentry)
      · exact h.readAt slot' pending entry hp hentry

theorem Inv.sharePublic (h : Inv s) : Inv (s.sharePublic now) := by
  rw [Node.sharePublic]
  split
  case h_1 => exact h
  case h_2 hnone =>
    refine h.withPublic h.cachedShown ?_ h.before ?_ h.heldShown ?_
    · rintro p k - pending value hp hv
      cases hp
      cases hv
    · rintro call - - k - pending value hp hv
      cases hp
      cases hv
    · rintro pending hp -
      cases hp
      exact ⟨Nat.le_refl _, nofun⟩

theorem Inv.signWith (h : Inv s) {algorithm : KeyAlgorithm} {value : List SignerKeyRecord}
    {entry : KeyList} (hentry : s.keyLists (purpose, none) = some entry)
    (hvalue : entry.value = value) :
    Inv { s with signing := s.signing ++ [⟨purpose, algorithm, some value⟩] } := by
  refine h.withKeys (fun p k hk ↦ .inl ?_) h.seen h.readAt
  cases hk with
  | cached entry held active => exact .cached entry held active
  | ended pending value runs stage active => exact .ended pending value runs stage active
  | signing call value mem of list active =>
    rcases List.mem_append.mp mem with mem | mem
    · exact .signing call value mem of list active
    · rw [List.mem_singleton.mp mem] at of list
      cases list
      exact .cached entry (of ▸ hentry) (hvalue ▸ active)
  | signed mem => exact .signed mem

theorem Inv.signWaiting (h : Inv s) {algorithm : KeyAlgorithm} :
    Inv { s with signing := s.signing ++ [⟨purpose, algorithm, none⟩] } := by
  refine h.withKeys (fun p k hk ↦ .inl ?_) h.seen h.readAt
  cases hk with
  | cached entry held active => exact .cached entry held active
  | ended pending value runs stage active => exact .ended pending value runs stage active
  | signing call value mem of list active =>
    rcases List.mem_append.mp mem with mem | mem
    · exact .signing call value mem of list active
    · rw [List.mem_singleton.mp mem] at list
      cases list
  | signed mem => exact .signed mem

theorem Inv.seeKeys (h : Inv s) {pending : PendingKeys} (hpending : s.pendingKeys slot = some pending)
    {stage : ReadStage (List SignerKeyRecord)} (hstage : stage = .seen (storeListKeys s.store slot)) :
    Inv { s with pendingKeys := Function.update s.pendingKeys slot (some { pending with stage }) } := by
  subst hstage
  refine h.withKeys (fun p k hk ↦ .inl ?_) ?_ ?_
  · cases hk with
    | cached entry held active => exact .cached entry held active
    | ended pending value runs stage active =>
      simp only [Function.update_apply] at runs
      split_ifs at runs
      · cases runs
        cases stage
      · exact .ended pending value runs stage active
    | signing call value mem of list active => exact .signing call value mem of list active
    | signed mem => exact .signed mem
  · intro p pending' value k hp hv hk
    simp only [Function.update_apply] at hp
    split_ifs at hp with hslot
    · cases hp
      cases hv
      subst hslot
      exact hk.storeListKeys
    · exact h.seen p pending' value k hp hv hk
  · intro slot' pending' entry hp hentry
    simp only [Function.update_apply] at hp
    split_ifs at hp with hslot
    · cases hp
      exact h.readAt slot pending entry hpending (hslot ▸ hentry)
    · exact h.readAt slot' pending' entry hp hentry

theorem Inv.seePublic (h : Inv s) {pending : PendingPublic}
    (hpending : s.pendingPublic = some pending) (hrunning : pending.stage = .running)
    {stage : ReadStage (List PublicKeyRecord)}
    (hstage : stage = .seen (storeListPublicKeys s.store)) :
    Inv { s with pendingPublic := some { pending with stage } } := by
  subst hstage
  refine h.withPublic h.cachedShown ?_ h.before ?_ h.heldShown ?_
  · rintro p k - pending' value hp hv -
    cases hp
    cases hv
    exact shown_store _ _ _
  · rintro call - - k - pending' value hp hv
    cases hp
    cases hv
    exact shown_store _ _ _
  · rintro pending' hp -
    cases hp
    exact h.generation pending hpending fun value ↦ by rw [hrunning]; exact nofun

/-- What is known when the answer of a read of a key list is kept. -/
theorem Inv.dropPublic (h : Inv s) : Inv s.dropPublic := by
  refine h.withPublic ?_ ?_ h.before ?_ h.heldShown ?_
  · rintro p k - entry hentry
    cases hentry
  · rintro p k - pending value hp - hd
    obtain ⟨pending', -, rfl⟩ := Option.map_eq_some_iff.mp hp
    cases hd
  · intro call hcall hnone k hk pending value hp hv
    obtain ⟨pending', hpending, rfl⟩ := Option.map_eq_some_iff.mp hp
    exact h.waitingShown call hcall hnone k hk pending' value hpending hv
  · intro pending hp hstage
    obtain ⟨pending', hpending, rfl⟩ := Option.map_eq_some_iff.mp hp
    have hle := (h.generation pending' hpending hstage).1
    exact ⟨by dsimp only; omega, fun _ ↦ by dsimp only; omega⟩

/-- The answer of a read of a key list is kept. -/
theorem Inv.endKeys (h : Inv s) {pending : PendingKeys} {value : List SignerKeyRecord}
    (hpending : s.pendingKeys slot = some pending) (hstage : pending.stage = .seen value)
    {stage : ReadStage (List SignerKeyRecord)} (hended : stage = .ended value)
    (hknown : ∀ p k, slot = (p, none) → ActiveIn value k → Known s p k ∨
      (Begun s.store p k ∧ s.publicList = none ∧
        ∀ pending, s.pendingPublic = some pending → pending.dropped = true)) :
    Inv { s with
      keyLists := Function.update s.keyLists slot (some ⟨value, pending.readAt, pending.forced⟩)
      pendingKeys := Function.update s.pendingKeys slot (some { pending with stage }) } := by
  subst hended
  refine h.withKeys (fun p k hk ↦ ?_) ?_ ?_
  · cases hk with
    | cached entry held active =>
      simp only [Function.update_apply] at held
      split_ifs at held with hslot
      · cases held
        exact hknown p k hslot.symm active
      · exact .inl (.cached entry held active)
    | ended pending' value' runs stage active =>
      simp only [Function.update_apply] at runs
      split_ifs at runs with hslot
      · cases runs
        cases stage
        exact hknown p k hslot.symm active
      · exact .inl (.ended pending' value' runs stage active)
    | signing call value mem of list active => exact .inl (.signing call value mem of list active)
    | signed mem => exact .inl (.signed mem)
  · intro p pending' value' k hp hv hk
    simp only [Function.update_apply] at hp
    split_ifs at hp with hslot
    · cases hp
      cases hv
      subst hslot
      exact h.seen p pending value k hpending (by rw [hstage]; rfl) hk
    · exact h.seen p pending' value' k hp hv hk
  · intro slot' pending' entry hp hentry
    simp only [Function.update_apply] at hp hentry
    split_ifs at hp hentry with hslot
    · cases hp
      cases hentry
      exact Nat.le_refl _
    · exact h.readAt slot' pending' entry hp hentry

/-- Either the list is as the one before, or the published keys are dropped. -/
theorem Inv.keepKeys (h : Inv s) {pending : PendingKeys} {value : List SignerKeyRecord}
    (hpending : s.pendingKeys slot = some pending) (hstage : pending.stage = .seen value)
    {stage : ReadStage (List SignerKeyRecord)} (hended : stage = .ended value) :
    Inv { s.keepKeys slot pending.readAt pending.forced value with
      pendingKeys := Function.update (s.keepKeys slot pending.readAt pending.forced value).pendingKeys
        slot (some { pending with stage }) } := by
  have hlater : (s.keyLists slot).all (·.readAt ≤ pending.readAt) = true := by
    cases hcurrent : s.keyLists slot with
    | none => rfl
    | some entry => exact decide_eq_true (h.readAt slot pending entry hpending hcurrent)
  rw [Node.keepKeys, if_pos hlater]
  by_cases hsame : (s.keyLists slot).any (fun entry ↦ sameKeys entry.value value) = true
  · simp only [hsame, if_true]
    refine h.endKeys hpending hstage hended fun p k hslot hk ↦ .inl ?_
    cases hcurrent : s.keyLists slot with
    | none =>
      rw [hcurrent] at hsame
      cases hsame
    | some entry =>
      rw [hcurrent] at hsame
      exact .cached entry (hslot ▸ hcurrent) (hk.of_sameKeys hsame)
  · simp only [hsame, if_false, Bool.false_eq_true]
    refine h.dropPublic.endKeys hpending hstage hended fun p k hslot hk ↦ .inr ⟨?_, rfl, ?_⟩
    · subst hslot
      exact h.seen p pending value k hpending (by rw [hstage]; rfl) hk
    · intro pending' hp
      obtain ⟨-, -, rfl⟩ := Option.map_eq_some_iff.mp hp
      rfl

/-- The answer of a read of the published keys is kept where no key list has outrun it. -/
theorem Inv.keepPublic (h : Inv s) {pending : PendingPublic} {value : List PublicKeyRecord}
    (hpending : s.pendingPublic = some pending) (hstage : pending.stage = .seen value)
    {stage : ReadStage (List PublicKeyRecord)} (hended : stage = .ended value) :
    Inv { s.keepPublic pending.readAt pending.generation value with
      pendingPublic := some { pending with stage } } := by
  subst hended
  have hvalue : pending.stage.value? = some value := by rw [hstage]; rfl
  have hgeneration := h.generation pending hpending fun value ↦ by rw [hstage]; exact nofun
  have hshown : ∀ p k, Known s p k → ∀ pending' value',
      some { pending with stage := ReadStage.ended value } = some pending' →
        pending'.stage.value? = some value' → pending'.dropped = false →
          Shown s.store value' p k := by
    intro p k hk pending' value' hp hv hd
    cases hp
    cases hv
    exact h.pendingShown p k hk pending value hpending hvalue hd
  have hwaiting : ∀ call ∈ s.verifying, call.list = none → ∀ k ∈ call.signedBefore,
      ∀ pending' value', some { pending with stage := ReadStage.ended value } = some pending' →
        pending'.stage.value? = some value' → Shown s.store value' call.purpose k := by
    intro call hcall hnone k hk pending' value' hp hv
    cases hp
    cases hv
    exact h.waitingShown call hcall hnone k hk pending value hpending hvalue
  have hlast : ∀ pending' : PendingPublic,
      some { pending with stage := ReadStage.ended value } = some pending' →
        ¬∀ value, pending'.stage ≠ .ended value := by
    rintro pending' hp hnot
    cases hp
    exact hnot value rfl
  rw [Node.keepPublic]
  split
  case isTrue hkept =>
    refine h.withPublic ?_ hshown h.before hwaiting h.heldShown
      fun pending' hp hnot ↦ absurd hnot (hlast pending' hp)
    intro p k hk entry hentry
    cases hentry
    refine h.pendingShown p k hk pending value hpending hvalue ?_
    by_contra hdropped
    have hlt := hgeneration.2 (by simpa using hdropped)
    omega
  case isFalse =>
    exact h.withPublic h.cachedShown hshown h.before hwaiting h.heldShown
      fun pending' hp hnot ↦ absurd hnot (hlast pending' hp)

/-- The callers of a read of a key list go on with its answer. -/
theorem Inv.settleKeys (h : Inv s) {pending : PendingKeys} {value : List SignerKeyRecord}
    (hpending : s.pendingKeys slot = some pending) (hstage : pending.stage = .ended value) :
    Inv { s with
      pendingKeys := Function.update s.pendingKeys slot none
      signing := s.signing.map fun call ↦
        if (call.purpose, none) = slot ∧ call.list.isNone then { call with list := some value }
        else call } := by
  refine h.withKeys (fun p k hk ↦ .inl ?_) ?_ ?_
  · cases hk with
    | cached entry held active => exact .cached entry held active
    | ended pending value runs stage active =>
      simp only [Function.update_apply] at runs
      split_ifs at runs
      exact .ended pending value runs stage active
    | signing call value' mem of list active =>
      obtain ⟨call', hcall, rfl⟩ := List.mem_map.mp mem
      split_ifs at of list with hwaits
      · cases list
        refine .ended pending value ?_ hstage active
        rw [← of, hwaits.1, hpending]
      · exact .signing call' value' hcall of list active
    | signed mem => exact .signed mem
  · intro p pending' value' k hp
    simp only [Function.update_apply] at hp
    split_ifs at hp
    exact h.seen p pending' value' k hp
  · intro slot' pending' entry hp
    simp only [Function.update_apply] at hp
    split_ifs at hp
    exact h.readAt slot' pending' entry hp

theorem Inv.failKeys (h : Inv s) : Inv { s with
    pendingKeys := Function.update s.pendingKeys slot none
    signing := s.signing.filter fun call ↦ ¬((call.purpose, none) = slot ∧ call.list.isNone) } := by
  refine h.withKeys (fun p k hk ↦ .inl ?_) ?_ ?_
  · cases hk with
    | cached entry held active => exact .cached entry held active
    | ended pending value runs stage active =>
      simp only [Function.update_apply] at runs
      split_ifs at runs
      exact .ended pending value runs stage active
    | signing call value mem of list active =>
      exact .signing call value (List.mem_of_mem_filter mem) of list active
    | signed mem => exact .signed mem
  · intro p pending' value' k hp
    simp only [Function.update_apply] at hp
    split_ifs at hp
    exact h.seen p pending' value' k hp
  · intro slot' pending' entry hp
    simp only [Function.update_apply] at hp
    split_ifs at hp
    exact h.readAt slot' pending' entry hp

theorem Inv.evictKeys (h : Inv s) :
    Inv { s with keyLists := Function.update s.keyLists slot none } := by
  refine h.withKeys (fun p k hk ↦ .inl ?_) h.seen ?_
  · cases hk with
    | cached entry held active =>
      simp only [Function.update_apply] at held
      split_ifs at held
      exact .cached entry held active
    | ended pending value runs stage active => exact .ended pending value runs stage active
    | signing call value mem of list active => exact .signing call value mem of list active
    | signed mem => exact .signed mem
  · intro slot' pending' entry hp hentry
    simp only [Function.update_apply] at hentry
    split_ifs at hentry
    exact h.readAt slot' pending' entry hp hentry

/-- The callers of a read of the published keys go on with its answer. -/
theorem Inv.settlePublic (h : Inv s) {pending : PendingPublic} {value : List PublicKeyRecord}
    (hpending : s.pendingPublic = some pending) (hstage : pending.stage = .ended value) :
    Inv { s with
      pendingPublic := none
      verifying := s.verifying.map fun call ↦
        if call.list.isNone then { call with list := some value } else call } := by
  have hvalue : pending.stage.value? = some value := by rw [hstage]; rfl
  refine h.withPublic h.cachedShown (fun _ _ _ _ _ hp ↦ by cases hp) ?_
    (fun _ _ _ _ _ _ _ hp ↦ by cases hp) ?_ fun _ hp ↦ by cases hp
  · intro call hcall
    obtain ⟨call', hcall', rfl⟩ := List.mem_map.mp hcall
    split
    · exact h.before call' hcall'
    · exact h.before call' hcall'
  · intro call hcall value' hlist k hk
    obtain ⟨call', hcall', rfl⟩ := List.mem_map.mp hcall
    split_ifs at hlist hk ⊢ with hnone
    · cases hlist
      exact h.waitingShown call' hcall' (Option.isNone_iff_eq_none.mp hnone) k hk pending value
        hpending hvalue
    · exact h.heldShown call' hcall' value' hlist k hk

theorem Inv.failPublic (h : Inv s) : Inv { s with
    pendingPublic := none
    verifying := s.verifying.filter fun call ↦ call.list.isSome } :=
  h.withPublic h.cachedShown (fun _ _ _ _ _ hp ↦ by cases hp)
    (fun call hcall ↦ h.before call (List.mem_of_mem_filter hcall))
    (fun _ _ _ _ _ _ _ hp ↦ by cases hp)
    (fun call hcall ↦ h.heldShown call (List.mem_of_mem_filter hcall)) fun _ hp ↦ by cases hp

theorem Inv.evictPublic (h : Inv s) : Inv { s with publicList := none } :=
  h.withPublic (fun _ _ _ _ hentry ↦ by cases hentry) h.pendingShown h.before h.waitingShown
    h.heldShown h.generation

@[simp] theorem signed_sharePublic : (s.sharePublic now).signed = s.signed := by
  rw [Node.sharePublic]
  split <;> rfl

theorem mem_signedFor (h : kid ∈ s.signedFor purpose) : (purpose, kid) ∈ s.signed := by
  obtain ⟨p, hp, rfl⟩ := List.mem_map.mp h
  obtain ⟨hmem, hpurpose⟩ := List.mem_filter.mp hp
  rw [← of_decide_eq_true hpurpose]
  exact hmem

/-- A call that verifies takes the published keys that are held. -/
theorem Inv.verifyWith (h : Inv s) {value : List PublicKeyRecord} {entry : PublicList}
    (hentry : s.publicList = some entry) (hvalue : entry.value = value) :
    Inv { s with verifying := s.verifying ++ [⟨purpose, s.signedFor purpose, some value⟩] } := by
  refine h.withPublic h.cachedShown h.pendingShown ?_ ?_ ?_ h.generation
  · intro call hcall k hk
    rcases List.mem_append.mp hcall with hcall | hcall
    · exact h.before call hcall k hk
    · rw [List.mem_singleton.mp hcall] at hk ⊢
      exact mem_signedFor hk
  · intro call hcall hnone
    rcases List.mem_append.mp hcall with hcall | hcall
    · exact h.waitingShown call hcall hnone
    · rw [List.mem_singleton.mp hcall] at hnone
      cases hnone
  · intro call hcall value' hlist k hk
    rcases List.mem_append.mp hcall with hcall | hcall
    · exact h.heldShown call hcall value' hlist k hk
    · rw [List.mem_singleton.mp hcall] at hlist hk ⊢
      cases hlist
      rw [← hvalue]
      exact h.cachedShown _ k (.signed (mem_signedFor hk)) entry hentry

/-- A call that verifies waits for a read that no key list has outrun. -/
theorem Inv.verifyWaiting (h : Inv s) (hfresh : ∀ pending value, s.pendingPublic = some pending →
      pending.stage.value? = some value → pending.dropped = false) :
    Inv { s with verifying := s.verifying ++ [⟨purpose, s.signedFor purpose, none⟩] } := by
  refine h.withPublic h.cachedShown h.pendingShown ?_ ?_ ?_ h.generation
  · intro call hcall k hk
    rcases List.mem_append.mp hcall with hcall | hcall
    · exact h.before call hcall k hk
    · rw [List.mem_singleton.mp hcall] at hk ⊢
      exact mem_signedFor hk
  · intro call hcall hnone k hk pending value hp hv
    rcases List.mem_append.mp hcall with hcall | hcall
    · exact h.waitingShown call hcall hnone k hk pending value hp hv
    · rw [List.mem_singleton.mp hcall] at hk ⊢
      exact h.pendingShown _ k (.signed (mem_signedFor hk)) pending value hp hv
        (hfresh pending value hp hv)
  · intro call hcall value' hlist k hk
    rcases List.mem_append.mp hcall with hcall | hcall
    · exact h.heldShown call hcall value' hlist k hk
    · rw [List.mem_singleton.mp hcall] at hlist
      cases hlist

theorem activeKey_spec {list : List SignerKeyRecord} {algorithm : KeyAlgorithm}
    {key : SignerKeyRecord} (h : activeKey list algorithm = some key) : ActiveIn list key.kid := by
  rw [activeKey] at h
  split at h
  case h_1 key' hfilter =>
    cases h
    have hmem : key ∈ list.filter fun key ↦ key.status = .active && key.algorithm = algorithm := by
      rw [hfilter]
      exact List.mem_singleton_self _
    obtain ⟨hkey, hactive⟩ := List.mem_filter.mp hmem
    rw [Bool.and_eq_true] at hactive
    exact ⟨key, hkey, rfl, of_decide_eq_true hactive.1⟩
  case h_2 => cases h

theorem Inv.sign (h : Inv s) {i : ℕ} (hk : Known s purpose kid) :
    Inv { s with signing := s.signing.eraseIdx i, signed := s.signed ++ [(purpose, kid)] } := by
  have hknown : ∀ p k, Known { s with
      signing := s.signing.eraseIdx i, signed := s.signed ++ [(purpose, kid)] } p k →
      Known s p k := by
    intro p k hk'
    cases hk' with
    | cached entry held active => exact .cached entry held active
    | ended pending value runs stage active => exact .ended pending value runs stage active
    | signing call value mem of list active =>
      exact .signing call value (List.mem_of_mem_eraseIdx mem) of list active
    | signed mem =>
      rcases List.mem_append.mp mem with mem | mem
      · exact .signed mem
      · cases List.mem_singleton.mp mem
        exact hk
  exact {
    kids := h.kids
    known := fun p k hk ↦ h.known p k (hknown p k hk)
    seen := h.seen
    cachedShown := fun p k hk ↦ h.cachedShown p k (hknown p k hk)
    pendingShown := fun p k hk ↦ h.pendingShown p k (hknown p k hk)
    before := fun call hcall k hk ↦ List.mem_append_left _ (h.before call hcall k hk)
    waitingShown := h.waitingShown
    heldShown := h.heldShown
    generation := h.generation
    readAt := h.readAt
    complete := h.complete }

/-- What is shown is listed while it is in its publication window. -/
theorem Inv.answer (h : Inv s) {i : ℕ} {call : VerifyCall} {list : List PublicKeyRecord}
    (hcall : s.verifying[i]? = some call) (hlist : call.list = some list) :
    Inv { s with
      verifying := s.verifying.eraseIdx i
      answers := s.answers ++ [⟨call.purpose, call.signedBefore, now, s.store,
        verificationKeysOf list call.purpose now⟩] } := by
  have hmem := List.mem_of_getElem? hcall
  have hknown : ∀ p k, Known { s with
      verifying := s.verifying.eraseIdx i
      answers := s.answers ++ [⟨call.purpose, call.signedBefore, now, s.store,
        verificationKeysOf list call.purpose now⟩] } p k → Known s p k :=
    fun p k ↦ Known.congr rfl rfl rfl rfl
  exact {
    kids := h.kids
    known := fun p k hk ↦ h.known p k (hknown p k hk)
    seen := h.seen
    cachedShown := fun p k hk ↦ h.cachedShown p k (hknown p k hk)
    pendingShown := fun p k hk ↦ h.pendingShown p k (hknown p k hk)
    before := fun call hcall ↦ h.before call (List.mem_of_mem_eraseIdx hcall)
    waitingShown := fun call hcall ↦ h.waitingShown call (List.mem_of_mem_eraseIdx hcall)
    heldShown := fun call hcall ↦ h.heldShown call (List.mem_of_mem_eraseIdx hcall)
    generation := h.generation
    readAt := h.readAt
    complete := by
      intro a ha
      rcases List.mem_append.mp ha with ha | ha
      · exact h.complete a ha
      · rw [List.mem_singleton.mp ha]
        intro k hk row hrow hkid hpurpose hscope hactive record hrecord hwindow
        have hshown := h.heldShown call hmem list hlist k hk row hrow hkid hpurpose hscope hactive
          record hrecord
        obtain ⟨p, hp, rfl⟩ := Option.map_eq_some_iff.mp hrecord
        refine List.mem_map.mpr ⟨_, mem_verificationKeysOf.mpr
          ⟨_, hshown, hpurpose, hwindow, .inl hactive, rfl⟩, hkid⟩ }

end Steps

end QAuth.Keys
