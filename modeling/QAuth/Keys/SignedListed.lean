import QAuth.Keys.SignerInvariant

/-!
# A key that signed is listed

Whether a verification answer of a node lists every key that signed on the node before. The key list
and the published keys are read apart, and a key list that changed drops the published keys; what can
go wrong is a read of the published keys that began before, saw the store before, and is joined after.
-/

namespace QAuth.Keys

open Transition

/-- A verification call joins no read of the published keys that saw the store before a key list
dropped the published keys. -/
def JoinsFresh (refreshIntervalMs : ℕ) (s : Node) : Action → Prop
  | .getVerificationKeys _ now => (freshPublic refreshIntervalMs s.publicList now).isSome = true ∨
    s.pendingPublic.all (fun pending ↦ pending.stage.value?.isNone || !pending.dropped) = true
  | _ => True

instance (refreshIntervalMs : ℕ) (s : Node) (a : Action) :
    Decidable (JoinsFresh refreshIntervalMs s a) :=
  match a with
  | .getVerificationKeys _ _ => inferInstanceAs (Decidable (_ ∨ _))
  | .change _ | .listKeys _ _ _ | .signJws _ _ _ | .getJwks _ | .seeKeys _ | .seePublic | .endKeys _
  | .endPublic | .settleKeys _ | .settlePublic | .failKeys _ | .failPublic | .evictKeys _
  | .evictPublic | .sign _ | .answer _ _ => inferInstanceAs (Decidable True)

section Steps

variable {s t : Node} {refreshIntervalMs : ℕ}

/-- A step that joins no read which a key list has outrun keeps the invariant. -/
theorem Inv.step {a : Action} (h : Inv s) (hjoins : JoinsFresh refreshIntervalMs s a)
    (hstep : step refreshIntervalMs s a = some t) : Inv t := by
  cases a with
  | change ops =>
    cases hstep
    exact h.applyOps ops
  | listKeys slot forceRead now =>
    rw [Keys.step] at hstep
    split at hstep
    case h_1 =>
      cases hstep
      exact h
    case h_2 hnone =>
      cases hstep
      exact h.shareKeys fun entry ↦ trustedKeys_eq_none hnone
  | signJws purpose algorithm now =>
    rw [Keys.step] at hstep
    split at hstep
    case h_1 value hvalue =>
      cases hstep
      obtain ⟨entry, hentry, heq⟩ := trustedKeys_eq_some hvalue
      exact h.signWith hentry heq
    case h_2 hnone =>
      cases hstep
      exact (h.shareKeys fun entry ↦ trustedKeys_eq_none hnone).signWaiting
  | getJwks now =>
    rw [Keys.step] at hstep
    split at hstep
    case h_1 =>
      cases hstep
      exact h
    case h_2 =>
      cases hstep
      exact h.sharePublic
  | getVerificationKeys purpose now =>
    rw [Keys.step] at hstep
    dsimp only at hstep
    split at hstep
    case h_1 value hvalue =>
      cases hstep
      obtain ⟨entry, hentry, heq⟩ := freshPublic_eq_some hvalue
      exact h.verifyWith hentry heq
    case h_2 hnone =>
      cases hstep
      have hsigned : s.signedFor purpose = (s.sharePublic now).signedFor purpose := by
        rw [Node.signedFor, Node.signedFor, signed_sharePublic]
      rw [hsigned]
      refine h.sharePublic.verifyWaiting fun pending value hp hv ↦ ?_
      rw [Node.sharePublic] at hp
      split at hp
      case h_1 pending' hpending =>
        rcases hjoins with hsome | hall
        · rw [hnone] at hsome
          cases hsome
        · rw [hpending] at hp hall
          cases hp
          rw [Option.all_some, hv] at hall
          simpa using hall
      case h_2 =>
        cases hp
        cases hv
  | seeKeys slot =>
    obtain ⟨pending, hpending, hstep⟩ := Option.bind_eq_some_iff.mp hstep
    split at hstep
    case h_1 =>
      cases hstep
      exact h.seeKeys hpending rfl
    case h_2 => cases hstep
    case h_3 => cases hstep
  | seePublic =>
    obtain ⟨pending, hpending, hstep⟩ := Option.bind_eq_some_iff.mp hstep
    split at hstep
    case h_1 hrunning =>
      cases hstep
      exact h.seePublic hpending hrunning rfl
    case h_2 => cases hstep
    case h_3 => cases hstep
  | endKeys slot =>
    obtain ⟨pending, hpending, hstep⟩ := Option.bind_eq_some_iff.mp hstep
    split at hstep
    case h_1 value hstage =>
      cases hstep
      exact h.keepKeys hpending hstage rfl
    case h_2 => cases hstep
    case h_3 => cases hstep
  | endPublic =>
    obtain ⟨pending, hpending, hstep⟩ := Option.bind_eq_some_iff.mp hstep
    split at hstep
    case h_1 value hstage =>
      cases hstep
      exact h.keepPublic hpending hstage rfl
    case h_2 => cases hstep
    case h_3 => cases hstep
  | settleKeys slot =>
    obtain ⟨pending, hpending, hstep⟩ := Option.bind_eq_some_iff.mp hstep
    split at hstep
    case h_1 value hstage =>
      cases hstep
      exact h.settleKeys hpending hstage
    case h_2 => cases hstep
    case h_3 => cases hstep
  | settlePublic =>
    obtain ⟨pending, hpending, hstep⟩ := Option.bind_eq_some_iff.mp hstep
    split at hstep
    case h_1 value hstage =>
      cases hstep
      exact h.settlePublic hpending hstage
    case h_2 => cases hstep
    case h_3 => cases hstep
  | failKeys slot =>
    obtain ⟨pending, hpending, hstep⟩ := Option.bind_eq_some_iff.mp hstep
    split at hstep
    case h_1 =>
      cases hstep
      exact h.failKeys
    case h_2 =>
      cases hstep
      exact h.failKeys
    case h_3 => cases hstep
  | failPublic =>
    obtain ⟨pending, hpending, hstep⟩ := Option.bind_eq_some_iff.mp hstep
    split at hstep
    case h_1 =>
      cases hstep
      exact h.failPublic
    case h_2 =>
      cases hstep
      exact h.failPublic
    case h_3 => cases hstep
  | evictKeys slot =>
    cases hstep
    exact h.evictKeys
  | evictPublic =>
    cases hstep
    exact h.evictPublic
  | sign i =>
    obtain ⟨call, hcall, hstep⟩ := Option.bind_eq_some_iff.mp hstep
    obtain ⟨list, hlist, hstep⟩ := Option.bind_eq_some_iff.mp hstep
    obtain ⟨key, hkey, hstep⟩ := Option.bind_eq_some_iff.mp hstep
    cases hstep
    exact h.sign (.signing call list (List.mem_of_getElem? hcall) rfl hlist (activeKey_spec hkey))
  | answer i now =>
    obtain ⟨call, hcall, hstep⟩ := Option.bind_eq_some_iff.mp hstep
    obtain ⟨list, hlist, hstep⟩ := Option.bind_eq_some_iff.mp hstep
    cases hstep
    exact h.answer hcall hlist

theorem Node.Fresh.inv (h : s.Fresh) : Inv s := by
  have hunknown : ∀ p k, ¬Known s p k := by
    intro p k hk
    cases hk with
    | cached entry held active =>
      rw [h.keyLists] at held
      cases held
    | ended pending value runs stage active =>
      rw [h.pendingKeys] at runs
      cases runs
    | signing call value mem of list active =>
      rw [h.signing] at mem
      cases mem
    | signed mem =>
      rw [h.signed] at mem
      cases mem
  constructor
  case kids => exact h.kids
  case known => exact fun p k hk ↦ absurd hk (hunknown p k)
  case cachedShown => exact fun p k hk ↦ absurd hk (hunknown p k)
  case pendingShown => exact fun p k hk ↦ absurd hk (hunknown p k)
  all_goals simp [h.pendingKeys, h.pendingPublic, h.verifying, h.answers]

end Steps

/-- In a run whose verification calls join no read that a key list has outrun, every answer lists the
keys that signed before it. -/
theorem listed_of_joinsFresh (refreshIntervalMs : ℕ) {s t : Node} {as : List Action}
    (hs : (system refreshIntervalMs).initial s)
    (h : Run.Along (system refreshIntervalMs).step (JoinsFresh refreshIntervalMs) s as t) :
    ∀ a ∈ t.answers, a.Complete :=
  (h.induct (fun _ _ _ ↦ Inv.step) (Node.Fresh.inv hs)).complete

/-! ### A rotation -/

def rotating : Node where
  store := [⟨"old", .token_signing, none, .EdDSA, .active, none, 0, none, none,
      some ⟨⟨[("kty", .str "OKP"), ("x", .str "b2xk")], by simp [PRIVATE_JWK_MEMBERS]⟩, 0⟩⟩,
    ⟨"new", .token_signing, none, .EdDSA, .next, none, 0, none, none,
      some ⟨⟨[("kty", .str "OKP"), ("x", .str "bmV3")], by simp [PRIVATE_JWK_MEMBERS]⟩, 0⟩⟩]
  keyLists := fun _ ↦ none
  publicList := none
  publicGeneration := 0
  pendingKeys := fun _ ↦ none
  pendingPublic := none
  signing := []
  verifying := []
  signed := []
  answers := []

theorem rotating_fresh : rotating.Fresh where
  kids := by decide
  keyLists _ := rfl
  publicList := rfl
  pendingKeys _ := rfl
  pendingPublic := rfl
  signing := rfl
  verifying := rfl
  signed := rfl
  answers := rfl

def tokenSlot : Slot := (.token_signing, none)

def rotation : List StoreOp := [.retire "old" 1 1000, .activate "new"]

/-- The published keys are read, the keys rotate, and the new key signs. -/
def signAfterRotation : List Action :=
  [.getJwks 0, .seePublic, .change rotation, .signJws .token_signing .EdDSA 1, .seeKeys tokenSlot,
    .endKeys tokenSlot, .settleKeys tokenSlot, .sign 0]

/-- A verification call that starts its own read lists the key that signed. -/
theorem listed_of_joinsFresh_sample :
    ∃ as t, Run.Along (system 60000).step (JoinsFresh 60000) rotating as t ∧
      t.answers.any (fun a ↦ "new" ∈ a.signedBefore) = true ∧ ∀ a ∈ t.answers, a.Complete := by
  have hrun : (exec (fun s a ↦ if JoinsFresh 60000 s a then (system 60000).step s a else none)
      rotating (signAfterRotation ++ [.endPublic, .settlePublic,
        .getVerificationKeys .token_signing 2, .seePublic, .endPublic, .settlePublic,
        .answer 0 3])).any (fun t ↦ t.answers.any fun a ↦ "new" ∈ a.signedBefore) = true := by
    decide
  cases ht : exec (fun s a ↦ if JoinsFresh 60000 s a then (system 60000).step s a else none)
      rotating (signAfterRotation ++ [.endPublic, .settlePublic,
        .getVerificationKeys .token_signing 2, .seePublic, .endPublic, .settlePublic,
        .answer 0 3]) with
  | none =>
    rw [ht] at hrun
    cases hrun
  | some t =>
    rw [ht] at hrun
    have h := Run.Along.of_exec ht
    exact ⟨_, t, h, hrun, listed_of_joinsFresh 60000 rotating_fresh h⟩

/-- A verification call that joins the read which began before the rotation leaves the key out. -/
theorem outrun_read_leaves_out :
    ∃ as t, (system 60000).initial rotating ∧ Run (system 60000).step rotating as t ∧
      ¬∀ a ∈ t.answers, a.Complete := by
  have hrun : (exec (system 60000).step rotating (signAfterRotation ++
      [.getVerificationKeys .token_signing 2, .endPublic, .settlePublic, .answer 0 3])).map
        (·.answers) = some [⟨.token_signing, ["new"], 3, rotation.foldl applyOp rotating.store,
          verificationKeysOf (storeListPublicKeys rotating.store) .token_signing 3⟩] := by
    rfl
  obtain ⟨t, ht, hanswers⟩ := Option.map_eq_some_iff.mp hrun
  refine ⟨_, t, rotating_fresh, Run.of_exec ht, fun hcomplete ↦ ?_⟩
  rw [hanswers] at hcomplete
  have hlisted := hcomplete _ List.mem_cons_self "new" List.mem_cons_self
    (rotating.store[1].activate) (by simp [rotation, rotating, applyOp, changeRow, KeyRow.retire,
      KeyRow.activate]) rfl rfl rfl rfl _ rfl rfl
  -- the read saw the key while it was next
  obtain ⟨key, hkey, hkid⟩ := List.mem_map.mp hlisted
  obtain ⟨record, hrecord, -, -, hstatus, rfl⟩ := mem_verificationKeysOf.mp hkey
  rcases List.mem_cons.mp hrecord with rfl | hrecord
  · have hne : ("old" : String) ≠ "new" := by decide
    exact hne hkid
  · rw [List.mem_singleton.mp hrecord] at hstatus
    rcases hstatus with hstatus | hstatus
    · cases hstatus
    · cases hstatus

end QAuth.Keys
